import Fppnet.Net.Soundness

/-!
# The life of a connection

A connection is established on its own loop, closed there, removed by the owner on the base loop,
and destroyed on its own loop (`lifeOf`). These functions run on two threads and call each other
through the queues of the loops, at once or later; `lifecycle` says that for every connection of a
server they run in this order, each at most once and on its own thread, if `handleClose` is called
at most once for a connection (`ClosesOnce`). No assertion fails in such a run
(`step_lives`).

The users' calls of `send` and `shutdown` may come in between, as far as they do not break
something else (`NoRearm`, `Regular`).
-/

namespace Fppnet

open Checked Runs TcpConnection

namespace Network

/-! ### The conditions -/

/-- The connection that a step closes. -/
def closes (s : Network) : Label → Option ConnId
  | .handle loop a =>
    match s.active loop with
    | (c, hd) :: _ => if closing a hd then some c else none
    | [] => none
  | _ => none

/-- `handleClose` is called for a connection that has not been closed. -/
def ClosesOnce (s : Network) (l : Label) : Prop := ∀ c ∈ s.closes l, s.times c .closed = 0

instance (s : Network) (l : Label) : Decidable (s.ClosesOnce l) := by
  unfold ClosesOnce
  infer_instance

/-- Fewer than `2 ^ 31 - 1` connections are accepted, a client does not start to connect while it is
connecting or connected, and a functor that is bound to `this` runs while its connection exists. -/
def Regular (s : Network) : Label → Prop
  | .newConnection _ _ | .connectorEvent _ => s.accepted + 1 < INT_MAX
  | .startInLoop _ =>
    match s.owner with
    | .client cl => cl.connector_.state_ = .kDisconnected
    | _ => True
  | .functor loop _ =>
    match s.functors loop with
    | f :: _ => f.owns = none → s.freed f.conn = false
    | [] => True
  | _ => True

instance (s : Network) (l : Label) : Decidable (s.Regular l) :=
  match l with
  | .newConnection _ _ | .connectorEvent _ => inferInstanceAs (Decidable (_ < _))
  | .startInLoop _ => by
    unfold Regular
    dsimp only
    generalize s.owner = owner
    cases owner <;> dsimp only <;> infer_instance
  | .functor loop _ => by
    unfold Regular
    dsimp only
    generalize s.functors loop = functors
    cases functors <;> dsimp only <;> infer_instance
  | .destroyServer | .clientCall _ | .poll _ _ | .handle _ _ | .send _ _ _ | .shutdown _ _
  | .foreignSend _ _ | .foreignShutdown _ | .proceed _ | .hold _ | .drop _ | .free _ =>
    inferInstanceAs (Decidable True)

/-- The conditions under which a network goes on. -/
def Proper (s : Network) (l : Label) : Prop := s.Keeps l ∧ s.NoRearm l ∧ s.Regular l

instance (s : Network) (l : Label) : Decidable (s.Proper l) :=
  inferInstanceAs (Decidable (_ ∧ _ ∧ _))

/-! ### The order of the functions -/

/-- The whole life of a connection of a loop. -/
def lifeOf (loop : LoopId) : List Stage :=
  [⟨.established, loop⟩, ⟨.closed, loop⟩, ⟨.removed, baseLoop⟩, ⟨.destroyed, loop⟩]

/-- Every connection has lived through a part of its life. -/
def Ordered (s : Network) : Prop :=
  ∀ c < s.accepted, s.log c <+: lifeOf (s.conns c).loop_

theorem Ordered.times_le_one {s : Network} (h : s.Ordered) {c : ConnId} (hc : c < s.accepted)
    (life : Life) : s.times c life ≤ 1 := by
  refine ((h c hc).sublist.countP_le).trans ?_
  cases life <;> simp [lifeOf]

/-- Every entry of the log is one of the four functions. -/
theorem length_log (s : Network) (c : ConnId) :
    (s.log c).length = s.times c .established + s.times c .closed + s.times c .removed +
      s.times c .destroyed := by
  unfold times
  induction s.log c with
  | nil => rfl
  | cons e log ih =>
    simp only [List.length_cons, List.countP_cons, ih]
    cases e.life <;> simp <;> omega

/-- A step that does not touch the log. -/
theorem Ordered.congr {s t : Network} (h : s.Ordered) (hlog : t.log = s.log)
    (hacc : t.accepted = s.accepted) (hloop : ∀ c, (t.conns c).loop_ = (s.conns c).loop_) :
    t.Ordered := by
  intro c hc
  rw [hlog, hloop]
  exact h c (by rwa [← hacc])

/-- The next function of the life of `c` runs. -/
theorem Ordered.record {s : Network} (h : s.Ordered) {c : ConnId} {life : Life}
    {thread : LoopId} (hnext : c < s.accepted →
      (lifeOf (s.conns c).loop_)[(s.log c).length]? = some ⟨life, thread⟩) :
    (s.record c life thread).Ordered := by
  intro c' hc'
  by_cases hcc : c' = c
  · subst hcc
    have hpre := h c' hc'
    show Function.update s.log c' _ c' <+: _
    rw [Function.update_self]
    rw [List.prefix_iff_eq_take] at hpre ⊢
    rw [List.length_append, List.length_singleton, List.take_add_one]
    rw [show (lifeOf ((s.record c' life thread).conns c').loop_)[(s.log c').length]? =
      some ⟨life, thread⟩ from hnext hc', show (s.record c' life thread).conns = s.conns from rfl,
      ← hpre]
    rfl
  · show Function.update s.log c _ c' <+: _
    rw [Function.update_of_ne hcc]
    exact h c' hc'

theorem Ordered.established {s : Network} (h : s.Ordered) {c : ConnId}
    (hl : s.Ledger (some (.connectEstablished c))) {thread : LoopId}
    (hth : thread = (s.conns c).loop_) : (s.record c .established thread).Ordered := by
  refine h.record fun hc => ?_
  have hbal := hl.balanced c hc
  have hlen : (s.log c).length = 0 := by
    have h1 := hbal.established
    have h2 := pending_self s (.connectEstablished c)
    have h3 := hbal.order
    have h4 := hbal.first
    rw [length_log]
    omega
  rw [hlen, hth]
  rfl

theorem Ordered.closed {s : Network} (h : s.Ordered) {c : ConnId} (hl : s.Ledger none)
    (hest : 0 < s.times c .established) (h0 : s.times c .closed = 0) {thread : LoopId}
    (hth : thread = (s.conns c).loop_) : (s.record c .closed thread).Ordered := by
  refine h.record fun hc => ?_
  have hlen : (s.log c).length = 1 := by
    have h1 := h.times_le_one hc .established
    have h3 := (hl.balanced c hc).order
    rw [length_log]
    omega
  rw [hlen, hth]
  rfl

/-- A connection whose removal is due has not been removed. -/
theorem Ordered.not_removed {s : Network} (h : s.Ordered) {c : ConnId}
    (hl : s.Ledger (some (.removeConnectionInLoop c))) (hc : c < s.accepted) :
    s.times c .removed = 0 ∧ s.times c .closed = 1 := by
  have h1 := h.times_le_one hc .closed
  have h2 := (hl.balanced c hc).closed
  have h3 := pending_self s (.removeConnectionInLoop c)
  constructor <;> omega

theorem Ordered.removed {s : Network} (h : s.Ordered) {c : ConnId}
    (hl : s.Ledger (some (.removeConnectionInLoop c))) :
    (s.record c .removed baseLoop).Ordered := by
  refine h.record fun hc => ?_
  have hbal := hl.balanced c hc
  have hlen : (s.log c).length = 2 := by
    obtain ⟨h1, h2⟩ := h.not_removed hl hc
    have h3 := hbal.order
    have h4 := hbal.first (by omega)
    rw [length_log]
    omega
  rw [hlen]
  rfl

theorem Ordered.destroyed {s : Network} (h : s.Ordered) {c : ConnId}
    (hl : s.Ledger (some (.connectDestroyed c))) {thread : LoopId}
    (hth : thread = (s.conns c).loop_) : (s.record c .destroyed thread).Ordered := by
  refine h.record fun hc => ?_
  have hbal := hl.balanced c hc
  have hlen : (s.log c).length = 3 := by
    have h1 := h.times_le_one hc .closed
    have h2 := hbal.removed
    have h3 := pending_self s (.connectDestroyed c)
    have h4 := hbal.order
    have h5 := hbal.first (by omega)
    rw [length_log]
    omega
  rw [hlen, hth]
  rfl

/-! ### Every step succeeds and keeps the order -/

/-- A member function that does not close. -/
theorem plain_lives {s : Network} (ho : s.Ordered) {c : ConnId} {thread : LoopId} {y : Ctx ConnId}
    (hp : (s.ctx thread c).Plain y) (r : ConnectResult) :
    ∃ t, s.enact r (.ok y) = .ok t ∧ t.Ordered := by
  obtain ⟨n, hn⟩ := enact_plain s r (hp.calls (by simp [ctx]))
  exact ⟨_, hn, ho.congr rfl rfl fun c' => (put_same hp.toFrame c').2⟩

/-- `removeConnectionInLoop` finds the entry of a connection that has been closed once. -/
theorem removeConnectionInLoop_lives {s : Network} {c : ConnId}
    (hl : s.Ledger (some (.removeConnectionInLoop c))) (ho : s.Ordered) (hc : c < s.accepted)
    (hserver : ∀ cl, s.owner ≠ .client cl) :
    ∃ t, s.removeConnectionInLoop baseLoop c = .ok t ∧ t.Ordered := by
  have hheld := (hl.balanced c hc).held.2 (ho.not_removed hl hc).1
  suffices hok : ∃ t, s.removeConnectionInLoop baseLoop c = .ok t by
    obtain ⟨t, ht⟩ := hok
    obtain ⟨hun, -, hlog⟩ := removeConnectionInLoop_unmoved ht
    exact ⟨t, ht, (ho.removed hl).congr hlog hun.accepted fun c' => by rw [hun.conns]; rfl⟩
  unfold removeConnectionInLoop
  cases hown : s.owner with
  | client cl => exact absurd hown (hserver cl)
  | destroyed =>
    rw [hown] at hheld
    exact hheld.elim
  | server sv =>
    rw [hown] at hheld
    have hone : (sv.erase (s.conns c).name_).1 = 1 :=
      if_pos (Option.isSome_iff_exists.2 ⟨c, hheld⟩)
    simp only [ok_bind, require_of hone]
    exact ⟨_, rfl⟩

/-- The close callback of a connection that has been closed once. -/
theorem removeConnection_lives {s : Network} {c : ConnId} {thread : LoopId}
    (hl : s.Ledger (some (.removeConnectionInLoop c))) (ho : s.Ordered) (hc : c < s.accepted)
    (hth : thread = (s.conns c).loop_) (r : ConnectResult) :
    ∃ t, s.removeConnection thread c r = .ok t ∧ t.Ordered := by
  have hheld := (hl.balanced c hc).held.2 (ho.not_removed hl hc).1
  suffices hok : ∃ t, s.removeConnection thread c r = .ok t by
    obtain ⟨t, ht⟩ := hok
    obtain ⟨hun, hlog⟩ := removeConnection_unmoved ht
    refine ⟨t, ht, ?_⟩
    rcases hlog with hlog | ⟨hb, hlog⟩
    · exact ho.congr hlog hun.accepted fun c' => by rw [hun.conns]
    · rw [hb] at hlog
      exact (ho.removed hl).congr hlog hun.accepted fun c' => by rw [hun.conns]; rfl
  unfold removeConnection
  cases hown : s.owner with
  | destroyed =>
    rw [hown] at hheld
    exact hheld.elim
  | server sv =>
    simp only
    by_cases hb : thread = baseLoop
    · obtain ⟨t, ht, -⟩ := removeConnectionInLoop_lives hl ho hc (by rw [hown]; rintro cl ⟨⟩)
      rw [if_pos hb, hb]
      exact ⟨t, ht⟩
    · rw [if_neg hb]
      exact ⟨_, rfl⟩
  | client cl =>
    obtain ⟨-, -, -, hloops⟩ := hl.owner.client hown
    rw [hown] at hheld
    have hbase : (s.conns c).loop_ = baseLoop := hloops c hc
    have hconn : cl.connection_ = some c := hheld
    simp only [require_of (hth.trans hbase), require_of hbase.symm, require_of hconn, ok_bind]
    split_ifs
    · simp only [Connector.restart, Connector.startInLoop]
      exact ⟨_, rfl⟩
    · exact ⟨_, rfl⟩

/-- `handleClose` of a connection that has not been closed. -/
theorem close_lives {s : Network} {c : ConnId} {thread : LoopId} {y : Ctx ConnId} (h : s.Sound)
    (ho : s.Ordered) (hc : c < s.accepted) (hup : s.Up c) (hth : thread = (s.conns c).loop_)
    (h0 : s.times c .closed = 0) (hact : (s.ctx thread c).Acts y)
    (hcalls : y.calls = [.closeCallback]) (r : ConnectResult) :
    ∃ t, s.enact r (.ok y) = .ok t ∧ t.Ordered := by
  have hself : y.self = c := hact.self
  have hthread : y.thread = thread := hact.thread
  rw [enact_close s r hcalls, hself, hthread]
  have hloop := (put_same hact.toFrame c).2
  have hput : (s.put y).Ordered := ho.congr rfl rfl fun c' => (put_same hact.toFrame c').2
  have hledger := put_ledger h.ledger hact.toFrame
  exact removeConnection_lives (hledger.closed hc hup.1 thread)
    (hput.closed hledger hup.1 h0 (hth.trans hloop.symm)) hc (hth.trans hloop.symm) r

theorem handler_lives {s : Network} {c : ConnId} {thread : LoopId} {a : Answers} {hd : Handler}
    (h : s.Sound) (ho : s.Ordered) (hc : c < s.accepted) (hup : s.Up c)
    (hth : thread = (s.conns c).loop_)
    (hlegal : a.write.Legal (s.conns c).outputBuffer_.readableBytes)
    (honce : closing a hd = true → s.times c .closed = 0) :
    ∃ t, s.enact a.connect (runHandler (s.ctx thread c) a hd) = .ok t ∧ t.Ordered := by
  have hb := h.wired.bound hc (h.wired.not_freed hup) hth
  cases hcl : closing a hd with
  | true =>
    obtain ⟨-, y, -, -, hy, hact, hcalls, -⟩ := runHandler_close hb hcl (h.wired.state c hc hup)
    rw [hy]
    exact close_lives h ho hc hup hth (honce hcl) hact hcalls a.connect
  | false =>
    obtain ⟨y, hy, hp, -⟩ := runHandler_plain hb hlegal hcl
    rw [hy]
    exact plain_lives ho hp a.connect

theorem establish_lives {s : Network} {c : ConnId} {thread : LoopId}
    (hl : s.Ledger (some (.connectEstablished c))) (hw : s.Wired) (ho : s.Ordered)
    (hc : c < s.accepted) (hth : thread = (s.conns c).loop_) (a : Answers) :
    ∃ t, s.runFunctor thread a (.connectEstablished c) = .ok t ∧ t.Ordered := by
  obtain ⟨-, -, hfree, hst⟩ := before_established hl hw hc
  obtain ⟨y, hy, hp⟩ := Ctx.connectEstablished_plain (hw.bound hc hfree hth) hst
  show ∃ t, (s.record c .established thread).enact a.connect
    (s.ctx thread c).connectEstablished = .ok t ∧ t.Ordered
  rw [hy]
  exact plain_lives (ho.established hl hth) hp a.connect

theorem functor_lives {s : Network} {f : Functor} {thread : LoopId} {a : Answers}
    (hl : s.Ledger (some f)) (hw : s.Wired) (ho : s.Ordered) (hc : f.conn < s.accepted)
    (hth : thread = s.home f) (hfree : f.owns = none → s.freed f.conn = false)
    (hserver : ∀ c cl, f = .removeConnectionInLoop c → s.owner ≠ .client cl) :
    ∃ t, s.runFunctor thread a f = .ok t ∧ t.Ordered := by
  cases f with
  | connectEstablished c => exact establish_lives hl hw ho hc hth a
  | removeConnectionInLoop c =>
    have hb : thread = baseLoop := hth
    rw [hb]
    exact removeConnectionInLoop_lives hl ho hc fun cl => hserver c cl rfl
  | connectDestroyed c =>
    have hc' : c < s.accepted := hc
    have hup := before_destroyed hl hc
    obtain ⟨y, hy, hp, -⟩ := Ctx.connectDestroyed_plain
      (hw.bound hc' (hw.not_freed hup) hth) (hw.state c hc' hup)
    show ∃ t, (s.record c .destroyed thread).enact a.connect
      (s.ctx thread c).connectDestroyed = .ok t ∧ t.Ordered
    rw [hy]
    exact plain_lives (ho.destroyed hl hth) hp a.connect
  | writeCompleteCallback c => exact ⟨s, rfl, ho⟩
  | sendInLoop c message =>
    have hc' : c < s.accepted := hc
    have hfree' : s.freed c = false := hfree rfl
    obtain ⟨y, hy, hp, -⟩ :=
      Ctx.sendInLoop_plain (hw.bound hc' hfree' hth) message a.write
    show ∃ t, (require (s.freed c = false) Failure.useAfterFree >>= fun _ =>
      s.enact a.connect ((s.ctx thread c).sendInLoop message a.write)) = .ok t ∧ t.Ordered
    rw [require_of hfree', ok_bind, hy]
    exact plain_lives ho hp a.connect
  | shutdownInLoop c =>
    have hc' : c < s.accepted := hc
    have hfree' : s.freed c = false := hfree rfl
    obtain ⟨y, hy, hp, -⟩ := Ctx.shutdownInLoop_plain (hw.bound hc' hfree' hth)
    show ∃ t, (require (s.freed c = false) Failure.useAfterFree >>= fun _ =>
      s.enact a.connect (s.ctx thread c).shutdownInLoop) = .ok t ∧ t.Ordered
    rw [require_of hfree', ok_bind, hy]
    exact plain_lives ho hp a.connect

/-- A new connection has not lived yet. -/
theorem Ordered.create {s : Network} (h : s.Ordered) (hlog : s.log s.accepted = [])
    (conn : TcpConnection) (owner : Owner) : (s.create conn owner).Ordered := by
  intro c hc
  rcases Nat.lt_succ_iff_lt_or_eq.1 hc with hc | rfl
  · rw [create_old s conn owner hc]
    exact h c hc
  · show s.log s.accepted <+: _
    rw [hlog]
    exact List.nil_prefix

theorem serverStep_lives {s : Network} {sv : TcpServer} {l : Label} {r : Except Failure Network}
    (h : s.Sound) (ho : s.Ordered) (hown : s.owner = .server sv) (hreg : s.Regular l)
    (hs : s.serverStep sv l = some r) : ∃ t, r = .ok t ∧ t.Ordered := by
  cases l <;> simp only [serverStep, Option.ite_none_right_eq_some, Option.some.injEq,
    reduceCtorEq] at hs
  case newConnection sockfd wc =>
    obtain ⟨hfd, rfl⟩ := hs
    obtain ⟨hledger, hwired⟩ := serverCreate_sound h hown hfd wc
    have hord : (s.serverCreate sv sockfd wc).Ordered :=
      ho.create (h.ledger.fresh _ le_rfl) _ _
    have hnext : sv.nextConnId_ < INT_MAX := by
      rw [(h.ledger.owner.server hown).1]
      exact hreg
    unfold serverNewConnection
    rw [require_of hnext, ok_bind]
    by_cases hio : sv.threadPool_.getNextLoop.1 = baseLoop
    · rw [if_pos hio]
      exact establish_lives hledger hwired hord (Nat.lt_succ_self _)
        (hio.symm.trans (congrArg TcpConnection.loop_ (serverCreate_new s sv sockfd wc)).symm) _
    · rw [if_neg hio]
      exact ⟨_, rfl, hord⟩
  case destroyServer =>
    cases hs
    exact ⟨_, rfl, ho⟩

theorem clientStep_lives {s : Network} {cl : TcpClient} {l : Label} {r : Except Failure Network}
    (h : s.Sound) (ho : s.Ordered) (hown : s.owner = .client cl) (hreg : s.Regular l)
    (hs : s.clientStep cl l = some r) : ∃ t, r = .ok t ∧ t.Ordered := by
  cases l <;> simp only [clientStep, Option.ite_none_right_eq_some, Option.some.injEq,
    reduceCtorEq] at hs
  case clientCall call =>
    cases hs
    exact ⟨_, rfl, ho⟩
  case startInLoop r =>
    unfold Regular at hreg
    rw [hown] at hreg
    have hst : cl.connector_.state_ = .kDisconnected := hreg
    subst hs
    unfold Connector.startInLoop
    rw [require_of hst, ok_bind]
    split_ifs <;> exact ⟨_, rfl, ho⟩
  case connectorEvent attempt =>
    obtain ⟨⟨hst, hfresh⟩, rfl⟩ := hs
    have hnone := h.ledger.client_idle hown hst
    -- an event that finds no attempt under way
    have hidle : ¬ cl.connector_.state_ = .kConnecting → ∃ t,
        (require (cl.connector_.state_ = .kDisconnected) Failure.connectorState >>= fun _ =>
          pure s) = .ok t ∧ t.Ordered := fun hne => by
      have hdis : cl.connector_.state_ = .kDisconnected := by
        cases hk : cl.connector_.state_ with
        | kDisconnected => rfl
        | kConnecting => exact absurd hk hne
        | kConnected => exact absurd hk hst
      rw [require_of hdis]
      exact ⟨s, rfl, ho⟩
    cases attempt with
    | failed =>
      unfold connectorHandleWrite
      split_ifs with hk
      · exact ⟨_, rfl, ho⟩
      · exact hidle hk
    | established sockfd peerAddr wc =>
      unfold connectorHandleWrite
      simp only
      split_ifs with hk hconn
      · set cl' : TcpClient :=
          { cl with connector_ := { cl.connector_ with state_ := .kConnected } } with hcl'
        obtain ⟨hledger, hwired⟩ :=
          clientCreate_sound cl' h hown hnone rfl rfl hfresh peerAddr wc
        have hnext : cl'.nextConnId_ < INT_MAX := by
          show cl.nextConnId_ < INT_MAX
          rw [(h.ledger.owner.client hown).1]
          exact hreg
        unfold clientNewConnection
        rw [require_of hnext, ok_bind]
        exact establish_lives hledger hwired (ho.create (h.ledger.fresh _ le_rfl) _ _)
          (Nat.lt_succ_self _) (congrArg TcpConnection.loop_ (create_new s _ _)).symm _
      · exact ⟨_, rfl, ho⟩
      · exact hidle hk

theorem loopStep_lives {s : Network} {l : Label} {r : Except Failure Network} (h : s.Sound)
    (ho : s.Ordered) (hreg : s.Regular l) (honce : s.ClosesOnce l) (hs : s.loopStep l = some r) :
    ∃ t, r = .ok t ∧ t.Ordered := by
  cases l <;> simp only [loopStep, reduceCtorEq] at hs
  case poll loop activeChannels =>
    rw [Option.ite_none_right_eq_some, Option.some.injEq] at hs
    obtain ⟨⟨-, -, hwatch⟩, rfl⟩ := hs
    unfold poll
    rw [require_of fun p hp => (h.wired.of_watches (hwatch p hp)).1]
    exact ⟨_, rfl, ho⟩
  case handle loop a =>
    split at hs
    · cases hs
    · next c hd rest hq =>
      rw [Option.ite_none_right_eq_some, Option.some.injEq] at hs
      obtain ⟨hlegal, rfl⟩ := hs
      obtain ⟨h₀, hc, hth, hup⟩ := h.popActive hq
      rw [require_of (h.wired.not_freed hup), ok_bind]
      refine handler_lives h₀ ho hc hup hth hlegal fun hcl => honce c ?_
      simp only [closes, hq]
      exact if_pos hcl
  case functor loop a =>
    split at hs
    · next f rest hidle hq =>
      rw [Option.ite_none_right_eq_some, Option.some.injEq] at hs
      obtain ⟨-, rfl⟩ := hs
      obtain ⟨hledger, hwired, hc, hth, -⟩ := h.pop hq
      refine functor_lives hledger hwired ho hc ?_ ?_ fun c cl hf hown => ?_
      · rw [hth]
        cases f <;> rfl
      · simp only [Regular, hq] at hreg
        exact hreg
      · have hm : f ∈ s.functors loop := by rw [hq]; exact List.mem_cons_self ..
        obtain ⟨-, -, hqueue, -⟩ := h.ledger.owner.client hown
        exact hqueue loop c (by rw [← hf]; exact hm)
    · cases hs

theorem userStep_lives {s : Network} {l : Label} {r : Except Failure Network} (h : s.Sound)
    (ho : s.Ordered) (hs : s.userStep l = some r) : ∃ t, r = .ok t ∧ t.Ordered := by
  cases l <;> simp only [userStep, Option.ite_none_right_eq_some, Option.some.injEq,
    reduceCtorEq] at hs
  case send c message a =>
    obtain ⟨⟨⟨hc, hfree⟩, -⟩, rfl⟩ := hs
    obtain ⟨y, hy, hp, -⟩ := Ctx.send_plain (h.wired.bound hc hfree rfl) message a.write
    rw [hy]
    exact plain_lives ho hp a.connect
  case shutdown c a =>
    obtain ⟨⟨hc, hfree⟩, rfl⟩ := hs
    obtain ⟨y, hy, hp, -⟩ := Ctx.shutdown_plain (h.wired.bound hc hfree rfl)
    rw [hy]
    exact plain_lives ho hp a.connect
  case proceed u =>
    obtain ⟨-, hs⟩ := hs
    cases u with
    | send c message =>
      cases hs
      exact ⟨_, rfl, ho⟩
    | shutdown c =>
      cases hs
      exact ⟨_, rfl, ho.congr rfl rfl fun c' => (disconnecting_same s c c').2⟩
    | shuttingDown c =>
      cases hs
      exact ⟨_, rfl, ho⟩
  all_goals
    obtain ⟨-, rfl⟩ := hs
    exact ⟨_, rfl, ho⟩

/-- **Every step that is enabled succeeds and keeps the order**, if it closes no connection for the
second time. -/
theorem step_lives {s : Network} {l : Label} {r : Except Failure Network} (h : s.Sound)
    (ho : s.Ordered) (hp : s.Proper l) (honce : s.ClosesOnce l) (hs : step s l = some r) :
    ∃ t, r = .ok t ∧ t.Sound ∧ t.Ordered := by
  suffices hlives : ∃ t, r = .ok t ∧ t.Ordered by
    obtain ⟨t, rfl, hord⟩ := hlives
    exact ⟨t, rfl, step_sound h hp.1 hp.2.1 hs, hord⟩
  unfold step at hs
  split at hs
  · split at hs
    · next hown => exact serverStep_lives h ho hown hp.2.2 hs
    · cases hs
  · split at hs
    · next hown => exact serverStep_lives h ho hown hp.2.2 hs
    · cases hs
  · split at hs
    · next hown => exact clientStep_lives h ho hown hp.2.2 hs
    · cases hs
  · split at hs
    · next hown => exact clientStep_lives h ho hown hp.2.2 hs
    · cases hs
  · split at hs
    · next hown => exact clientStep_lives h ho hown hp.2.2 hs
    · cases hs
  · exact loopStep_lives h ho hp.2.2 honce hs
  · exact loopStep_lives h ho hp.2.2 honce hs
  · exact loopStep_lives h ho hp.2.2 honce hs
  · exact userStep_lives h ho hs

/-! ### Whole runs -/

theorem new_ordered (owner : Owner) (loops : List LoopId) : (new owner loops).Ordered :=
  fun c hc => absurd hc (Nat.not_lt_zero c)

theorem lives_of_reach {s₀ s : Network} (h : Reach (Moves step)
    (fun s l => s.Proper l ∧ s.ClosesOnce l) s₀ s) (h0 : s₀.Sound) (ho : s₀.Ordered) :
    s.Sound ∧ s.Ordered := by
  refine h.invariant (I := fun x => x.Sound ∧ x.Ordered) ⟨h0, ho⟩ ?_
  rintro x l y ⟨hx, hxo⟩ hc hs
  obtain ⟨t, ht, hts, hto⟩ := step_lives hx hxo hc.1 hc.2 hs
  cases ht
  exact ⟨hts, hto⟩

/-- The map of a server: no two connections have the same name, the name of the next one is free,
and the entries are those of the connections that have not been removed. -/
structure Registry (s : Network) (sv : TcpServer) : Prop where
  distinct : ∀ c < s.accepted, ∀ c' < s.accepted, (s.conns c).name_ = (s.conns c').name_ → c = c'
  free : sv.connections_ sv.connName = none
  entries : ∀ name c, sv.connections_ name = some c ↔
    c < s.accepted ∧ (s.conns c).name_ = name ∧ s.times c .removed = 0

/-- The life of one connection: its functions have run in order, and the next one is queued on the
loop that is to run it, `removeConnectionInLoop` on the base loop. -/
structure Lived (s : Network) (c : ConnId) : Prop where
  order : s.log c <+: lifeOf (s.conns c).loop_
  established : s.times c .established +
    (s.functors (s.conns c).loop_).count (.connectEstablished c) = 1
  removed : s.times c .closed = s.times c .removed +
    (s.functors baseLoop).count (.removeConnectionInLoop c)
  destroyed : s.times c .removed = s.times c .destroyed +
    (s.functors (s.conns c).loop_).count (.connectDestroyed c)

theorem Sound.registry {s : Network} (h : s.Sound) {sv : TcpServer} (ho : s.owner = .server sv) :
    s.Registry sv := by
  obtain ⟨-, -, hentry, -⟩ := h.ledger.owner.server ho
  refine ⟨fun c hc c' hc' hn => name_injective h.ledger.owner ho hc hc' hn, ?_, fun name c => ?_⟩
  · cases he : sv.connections_ sv.connName with
    | none => rfl
    | some c =>
      obtain ⟨hc, hname⟩ := hentry _ _ he
      exact absurd hname (connName_fresh h.ledger.owner ho hc)
  · constructor
    · intro he
      obtain ⟨hc, hname⟩ := hentry _ _ he
      refine ⟨hc, hname, (h.ledger.balanced c hc).held.1 ?_⟩
      rw [ho, hname]
      exact he
    · rintro ⟨hc, hname, h0⟩
      have hheld := (h.ledger.balanced c hc).held.2 h0
      rw [ho, hname] at hheld
      exact hheld

theorem Sound.lived {s : Network} (h : s.Sound) (ho : s.Ordered) {c : ConnId}
    (hc : c < s.accepted) : s.Lived c :=
  ⟨ho c hc, (h.ledger.balanced c hc).established, (h.ledger.balanced c hc).closed,
    (h.ledger.balanced c hc).removed⟩

/-- **The life of the connections of a server** with any I/O loops, in any interleaving of its
loops: as long as `handleClose` is called once for each connection, the map and the lives of all
connections are in order, and no assertion fails in the next step. -/
theorem lifecycle {name : String} {loops : List LoopId} {s : Network}
    (h : Reach (Moves step) (fun s l => s.Proper l ∧ s.ClosesOnce l) (ofServer name loops) s) :
    (∀ sv, s.owner = .server sv → s.Registry sv) ∧ (∀ c < s.accepted, s.Lived c) ∧
      ∀ l e, s.Proper l → s.ClosesOnce l → step s l ≠ some (.error e) := by
  obtain ⟨hs, ho⟩ := lives_of_reach h (ofServer_sound name loops) (new_ordered _ _)
  refine ⟨fun sv => hs.registry, fun c => hs.lived ho, fun l e hp honce he => ?_⟩
  obtain ⟨t, ht, -⟩ := step_lives hs ho hp honce he
  cases ht

/-! The whole life of one connection of a server with one I/O loop. -/

def oneLife : List Label :=
  [.newConnection 5 false, .functor 1 noAnswers, .poll 1 [(0, POLLIN)], .handle 1 noAnswers,
    .functor baseLoop noAnswers, .functor 1 noAnswers]

theorem lifecycle_oneLife :
    ∃ s, (∀ sv, s.owner = .server sv → s.Registry sv) ∧ (∀ c < s.accepted, s.Lived c) ∧
      (∀ l e, s.Proper l → s.ClosesOnce l → step s l ≠ some (.error e)) ∧
      s.log 0 = lifeOf 1 := by
  obtain ⟨s, hs, hp⟩ := exists_reach_of_run step (fun s l => s.Proper l ∧ s.ClosesOnce l)
    (ofServer "0.0.0.0:2000" [1]) oneLife (fun s => s.log 0 = lifeOf 1) (by decide +kernel)
  obtain ⟨h1, h2, h3⟩ := lifecycle hs
  exact ⟨s, h1, h2, h3, of_decide_eq_true hp⟩

end Network

end Fppnet
