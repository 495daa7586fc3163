import Fppnet.Net.Books

/-!
# The steps of a network keep its books and its wiring

`Sound` is the ledger together with the wiring. `Steps.sound` says that every step keeps it, if the
server is destroyed only when it holds no connection (`Keeps`) and no `sendInLoop` leaves bytes
behind after `connectDestroyed`, where it would register the channel again (`NoRearm`).

The ledger is kept by `Steps.books`. For the wiring the lemmas follow the model: first the member
functions that a step may run (`Wired.plain`, `Wired.close`, `establish_wired`, `destroy_wired`),
then the steps of the owner, of a loop and of the user.
-/

namespace Fppnet

open Checked Runs TcpConnection

namespace Network

structure Sound (s : Network) : Prop where
  ledger : s.Ledger none
  wired : s.Wired

/-- What is registered, called or in use has been established. -/
theorem Sound.books {s : Network} (h : s.Sound) : s.Books := by
  refine ⟨h.ledger, fun l fd e hw => ?_, fun l p hp => ?_, fun u hu => ?_, fun c hc h0 => ?_⟩
  · obtain ⟨hc, -, -, hup⟩ := h.wired.mapped l fd e.2 (h.wired.watched l fd e.1 e.2 hw)
    exact ⟨hc, hup.1⟩
  · obtain ⟨hc, -, hup⟩ := h.wired.active l p hp
    exact ⟨hc, hup.1⟩
  · obtain ⟨hc, -, hest⟩ := h.wired.calls u hu
    exact ⟨hc, hest⟩
  · obtain ⟨wc, hwc⟩ := h.wired.fresh c hc h0
    rw [hwc]
    rfl

/-! ### The condition -/

/-- The connection on which the `sendInLoop` of a step leaves bytes that the kernel has not
accepted. -/
def unsent (s : Network) : Label → Option ConnId
  | .send c message a =>
    if (s.conns c).state_ = .kConnected ∧
        (s.ctx (s.conns c).loop_ c).direct a.write < message.length then some c else none
  | .functor loop a =>
    match s.active loop, s.functors loop with
    | [], .sendInLoop c message :: _ =>
      if (s.ctx loop c).direct a.write < message.length then some c else none
    | _, _ => none
  | _ => none

/-- No bytes are left behind on a connection that has been destroyed. -/
def NoRearm (s : Network) (l : Label) : Prop :=
  ∀ c ∈ s.unsent l, s.times c .destroyed = 0

instance (s : Network) (l : Label) : Decidable (s.NoRearm l) := by
  unfold NoRearm
  infer_instance

/-! ### Member functions -/

/-- A member function that does not call the close callback. -/
theorem Wired.plain {s t : Network} (h : s.Wired) {c : ConnId} {thread : LoopId} {y : Ctx ConnId}
    {r : ConnectResult} (hc : c < s.accepted) (hfree : s.freed c = false)
    (hp : (s.ctx thread c).Plain y)
    (hup : y.poller.channels_ (s.conns c).channel_.fd_ = some c → s.Up c)
    (hfresh : s.times c .established = 0 → y.conn = s.conns c)
    (hstate : s.Up c → y.conn.state_ = .kConnected ∨ y.conn.state_ = .kDisconnecting)
    (hs : s.enact r (.ok y) = .ok t) : t.Wired := by
  obtain ⟨n, hn⟩ := enact_plain s r (hp.calls (by simp [ctx]))
  rw [hs] at hn
  cases hn
  have hself : y.self = c := hp.self
  have hloop : y.conn.loop_ = (s.conns c).loop_ := hp.loop
  rw [hself]
  refine h.put hc hfree hp.toActs ?_ ?_ rfl rfl rfl (fun _ _ => rfl)
    (fun l p hm => ⟨hm, fun hpc => ?_⟩) id hup hfresh hstate
  · exact put_conns s hself
  · exact put_pollers s hloop
  · have hup' := (h.active l p hm).2.2
    rwa [hpc] at hup'

/-- A member function that leaves the channel and the poller alone. -/
theorem Wired.still {s t : Network} (h : s.Wired) {c : ConnId} {thread : LoopId} {y : Ctx ConnId}
    {r : ConnectResult} (hc : c < s.accepted) (hfree : s.freed c = false)
    (hp : (s.ctx thread c).Plain y) (hpoll : y.poller = (s.ctx thread c).poller)
    (hfresh : s.times c .established = 0 → y.conn = s.conns c)
    (hstate : s.Up c → y.conn.state_ = .kConnected ∨ y.conn.state_ = .kDisconnecting)
    (hs : s.enact r (.ok y) = .ok t) : t.Wired := by
  refine h.plain hc hfree hp (fun hm => ?_) hfresh hstate hs
  rw [hpoll] at hm
  exact (h.mapped _ _ c hm).2.2.2

/-- `handleClose` on a connection that is up, with the close callback. -/
theorem Wired.close {s t : Network} (h : s.Wired) {c : ConnId} {thread : LoopId} {y : Ctx ConnId}
    {r : ConnectResult} (hc : c < s.accepted) (hup : s.Up c) (hact : (s.ctx thread c).Acts y)
    (hcalls : y.calls = [.closeCallback])
    (hstate : y.conn.state_ = .kConnected ∨ y.conn.state_ = .kDisconnecting)
    (hs : s.enact r (.ok y) = .ok t) : t.Wired := by
  have hself : y.self = c := hact.self
  have hloop : y.conn.loop_ = (s.conns c).loop_ := hact.loop
  rw [enact_close s r hcalls, hself] at hs
  have hup' : ((s.put y).record c .closed y.thread).Up c := by
    constructor <;> rw [times_record_of_ne _ _ _ _ (by decide)]
    · exact hup.1
    · exact hup.2
  have hwired : ((s.put y).record c .closed y.thread).Wired := by
    refine h.put hc (h.not_freed hup) hact ?_ ?_ rfl rfl rfl
      (fun c' hcc => Function.update_of_ne hcc _ _) (fun l p hp => ⟨hp, fun _ => hup'⟩)
      (fun _ => hup'.1) (fun _ => hup') (fun h0 => absurd h0 (Nat.ne_of_gt hup'.1)) fun _ => hstate
    · exact put_conns s hself
    · exact put_pollers s hloop
  obtain ⟨hun, hlog⟩ := removeConnection_unmoved hs
  exact hwired.of_removed hun hlog

/-- A connection whose `connectEstablished` is due. -/
theorem before_established {s : Network} {c : ConnId}
    (hl : s.Ledger (some (.connectEstablished c))) (hw : s.Wired) (hc : c < s.accepted) :
    s.times c .established = 0 ∧ s.times c .destroyed = 0 ∧ s.freed c = false ∧
      (s.conns c).state_ = .kConnecting := by
  have hbal := hl.balanced c hc
  have h0 : s.times c .established = 0 := by
    have h1 := hbal.established
    have h2 := pending_self s (.connectEstablished c)
    omega
  have hd := hbal.destroyed_zero h0
  refine ⟨h0, hd, ?_, ?_⟩
  · by_contra hf
    rw [Bool.not_eq_false] at hf
    exact absurd hd (Nat.ne_of_gt (hw.freed c hf).2)
  · obtain ⟨wc, hwc⟩ := hw.fresh c hc h0
    rw [hwc]
    rfl

/-- `connectEstablished` runs on the loop of the connection and calls back only the user. -/
theorem runFunctor_established {s t : Network} {c : ConnId} {thread : LoopId} {a : Answers}
    (hl : s.Ledger (some (.connectEstablished c))) (hw : s.Wired) (hc : c < s.accepted)
    (hs : s.runFunctor thread a (.connectEstablished c) = .ok t) :
    ∃ y n, (s.ctx thread c).connectEstablished = .ok y ∧ thread = (s.conns c).loop_ ∧
      (s.ctx thread c).Plain y ∧ t = ((s.record c .established thread).put y).notified c n := by
  change (s.record c .established thread).enact a.connect (s.ctx thread c).connectEstablished =
    .ok t at hs
  obtain ⟨y, hy⟩ := enact_ok hs
  rw [hy] at hs
  obtain ⟨-, -, hfree, -⟩ := before_established hl hw hc
  obtain ⟨hloc, hst, -⟩ := Ctx.connectEstablished_ok hy
  have hth : thread = (s.conns c).loop_ := hloc
  obtain ⟨z, hz, hp⟩ := Ctx.connectEstablished_plain (hw.bound hc hfree hth) hst
  obtain rfl : z = y := by rw [hy] at hz; cases hz; rfl
  obtain ⟨n, hn⟩ := enact_plain (s.record c .established thread) a.connect
    (hp.calls (by simp [ctx]))
  have hself : z.self = c := hp.self
  rw [hs, hself] at hn
  exact ⟨z, n, hy, hth, hp, Except.ok.inj hn⟩

/-- `connectEstablished` runs, from its queue or at once. -/
theorem establish_wired {s t : Network} {c : ConnId} {thread : LoopId} {a : Answers}
    (hl : s.Ledger (some (.connectEstablished c))) (hw : s.Wired) (hc : c < s.accepted)
    (hs : s.runFunctor thread a (.connectEstablished c) = .ok t) : t.Wired := by
  obtain ⟨z, n, hy, -, hp, rfl⟩ := runFunctor_established hl hw hc hs
  obtain ⟨-, hd, hfree, -⟩ := before_established hl hw hc
  obtain ⟨-, -, hyeq⟩ := Ctx.connectEstablished_ok hy
  have hact := hp.toActs
  have hself : z.self = c := hact.self
  have hloop : z.conn.loop_ = (s.conns c).loop_ := hact.loop
  have hup : (((s.record c .established thread).put z).notified c n).Up c := by
    refine ⟨?_, ?_⟩
    · show 0 < (s.record c .established thread).times c .established
      rw [times_record_self]
      exact Nat.succ_pos _
    · show (s.record c .established thread).times c .destroyed = 0
      rw [times_record_of_ne _ _ _ _ (by decide)]
      exact hd
  refine hw.put hc hfree hact ?_ ?_ rfl rfl rfl (fun c' hcc => Function.update_of_ne hcc _ _)
    (fun l p hp => ⟨hp, fun _ => hup⟩) (fun _ => hup.1) (fun _ => hup)
    (fun he => absurd he (Nat.ne_of_gt hup.1)) fun _ => ?_
  · exact put_conns s hself
  · exact put_pollers s hloop
  · rw [hyeq]
    exact .inl rfl

/-- `connectDestroyed` runs on the loop of the connection, calls back only the user, and leaves the
channel unregistered. -/
theorem runFunctor_destroyed {s t : Network} {c : ConnId} {thread : LoopId} {a : Answers}
    (hl : s.Ledger (some (.connectDestroyed c))) (hw : s.Wired) (hc : c < s.accepted)
    (hs : s.runFunctor thread a (.connectDestroyed c) = .ok t) :
    ∃ y n, (s.ctx thread c).connectDestroyed = .ok y ∧ thread = (s.conns c).loop_ ∧
      (s.ctx thread c).Plain y ∧ y.conn.channel_.index_ = EPoller.kNew ∧
      t = ((s.record c .destroyed thread).put y).notified c n := by
  change (s.record c .destroyed thread).enact a.connect (s.ctx thread c).connectDestroyed =
    .ok t at hs
  obtain ⟨y, hy⟩ := enact_ok hs
  rw [hy] at hs
  have hfree := hw.not_freed (before_destroyed hl hc)
  obtain ⟨hloc, hst, -⟩ := Ctx.connectDestroyed_ok hy
  have hth : thread = (s.conns c).loop_ := hloc
  obtain ⟨z, hz, hp, hidx⟩ := Ctx.connectDestroyed_plain (hw.bound hc hfree hth) hst
  obtain rfl : z = y := by rw [hy] at hz; cases hz; rfl
  obtain ⟨n, hn⟩ := enact_plain (s.record c .destroyed thread) a.connect
    (hp.calls (by simp [ctx]))
  have hself : z.self = c := hp.self
  rw [hs, hself] at hn
  exact ⟨z, n, hy, hth, hp, hidx, Except.ok.inj hn⟩

/-- `connectDestroyed` runs, when its loop has no channel callback to call. -/
theorem destroy_wired {s t : Network} {c : ConnId} {thread : LoopId} {a : Answers}
    (hl : s.Ledger (some (.connectDestroyed c))) (hw : s.Wired) (hc : c < s.accepted)
    (hidle : s.active thread = [])
    (hs : s.runFunctor thread a (.connectDestroyed c) = .ok t) : t.Wired := by
  obtain ⟨z, n, -, hth, hp, hidx, rfl⟩ := runFunctor_destroyed hl hw hc hs
  have hup := before_destroyed hl hc
  have hact := hp.toActs
  have hself : z.self = c := hact.self
  have hloop : z.conn.loop_ = (s.conns c).loop_ := hact.loop
  have hfd : z.conn.channel_.fd_ = (s.conns c).channel_.fd_ := hact.fd
  have hdown : ¬ (((s.record c .destroyed thread).put z).notified c n).Up c := fun hu => by
    have h0 : (s.record c .destroyed thread).times c .destroyed = 0 := hu.2
    rw [times_record_self] at h0
    cases h0
  have hest : 0 < (s.record c .destroyed thread).times c .established := by
    rw [times_record_of_ne _ _ _ _ (by decide)]
    exact hup.1
  refine hw.put hc (hw.not_freed hup) hact ?_ ?_ rfl rfl rfl
    (fun c' hcc => Function.update_of_ne hcc _ _) (fun l p hp => ⟨hp, fun hpc => ?_⟩)
    (fun _ => hest) (fun hm => ?_) (fun he => absurd he (Nat.ne_of_gt hest))
    fun hu => absurd hu hdown
  · exact put_conns s hself
  · exact put_pollers s hloop
  · -- a callback of `c` would be called on the loop of `c`, which is the idle one
    have hl' := (hw.active l p hp).2.1
    rw [hpc, ← hth] at hl'
    have hp' : p ∈ s.active thread := by rw [← hl']; exact hp
    rw [hidle] at hp'
    cases hp'
  · have hnone := (hact.agrees.new hidx).1
    rw [hfd, hm] at hnone
    cases hnone

/-- `sendInLoop` registers a channel only when it leaves bytes behind. -/
theorem Wired.sendInLoop {s t : Network} (h : s.Wired) {c : ConnId} {thread : LoopId}
    {message : List Byte} {r : WriteResult} {cr : ConnectResult} (hc : c < s.accepted)
    (hfree : s.freed c = false) (hest : 0 < s.times c .established)
    (hth : thread = (s.conns c).loop_)
    (hno : (s.ctx thread c).direct r < message.length → s.times c .destroyed = 0)
    (hs : s.enact cr ((s.ctx thread c).sendInLoop message r) = .ok t) : t.Wired := by
  obtain ⟨y, hy, hp, hst, hstill⟩ :=
    Ctx.sendInLoop_plain (h.bound hc hfree hth) message r
  rw [hy] at hs
  have hfresh : s.times c .established = 0 → y.conn = s.conns c :=
    fun h0 => absurd h0 (Nat.ne_of_gt hest)
  have hstate : s.Up c → y.conn.state_ = .kConnected ∨ y.conn.state_ = .kDisconnecting :=
    fun hu => by rw [hst]; exact h.state c hc hu
  by_cases hlt : (s.ctx thread c).direct r < message.length
  · exact h.plain hc hfree hp (fun _ => ⟨hest, hno hlt⟩) hfresh hstate hs
  · exact h.still hc hfree hp (hstill (Nat.not_lt.1 hlt)).poller hfresh hstate hs

/-! ### The steps of the owner -/

/-- A new connection of a server. -/
theorem serverCreate_sound {s : Network} {sv : TcpServer} {sockfd : ℕ} (h : s.Sound)
    (ho : s.owner = .server sv) (hfd : s.FreshFd sockfd) (wc : Bool) :
    (s.serverCreate sv sockfd wc).Ledger (some (.connectEstablished s.accepted)) ∧
      (s.serverCreate sv sockfd wc).Wired :=
  ⟨serverCreate_ledger h.ledger ho sockfd wc, h.wired.create (h.ledger.fresh _ le_rfl) hfd _⟩

theorem serverNewConnection_wired {s t : Network} {sv : TcpServer} {sockfd : ℕ} {wc : Bool}
    (h : s.Sound) (ho : s.owner = .server sv) (hfd : s.FreshFd sockfd)
    (hs : s.serverNewConnection sv sockfd wc = .ok t) : t.Wired := by
  obtain ⟨hledger, hwired⟩ := serverCreate_sound h ho hfd wc
  obtain ⟨-, hs⟩ := require_bind_ok.1 hs
  by_cases hio : sv.threadPool_.getNextLoop.1 = baseLoop
  · rw [if_pos hio] at hs
    exact establish_wired hledger hwired (Nat.lt_succ_self _) hs
  · rw [if_neg hio] at hs
    cases hs
    exact hwired.congr rfl rfl rfl rfl (fun _ => id) (fun _ _ => id) (fun _ => rfl) fun _ => rfl

/-- A new connection of a client that has none. -/
theorem clientCreate_sound {s : Network} {cl₀ : TcpClient} (cl : TcpClient) {sockfd : ℕ}
    (h : s.Sound) (ho : s.owner = .client cl₀) (hnone : cl₀.connection_ = none)
    (hnext : cl.nextConnId_ = cl₀.nextConnId_) (hstate : cl.connector_.state_ = .kConnected)
    (hfd : s.FreshFd sockfd) (peerAddr : String) (wc : Bool) :
    (s.clientCreate cl sockfd peerAddr wc).Ledger (some (.connectEstablished s.accepted)) ∧
      (s.clientCreate cl sockfd peerAddr wc).Wired :=
  ⟨clientCreate_ledger cl h.ledger ho hnone hnext hstate sockfd peerAddr wc,
    h.wired.create (h.ledger.fresh _ le_rfl) hfd _⟩

theorem clientNewConnection_wired {s t : Network} {cl₀ cl : TcpClient} {sockfd : ℕ}
    {peerAddr : String} {wc : Bool} (h : s.Sound) (ho : s.owner = .client cl₀)
    (hnone : cl₀.connection_ = none) (hnext : cl.nextConnId_ = cl₀.nextConnId_)
    (hstate : cl.connector_.state_ = .kConnected) (hfd : s.FreshFd sockfd)
    (hs : s.clientNewConnection cl sockfd peerAddr wc = .ok t) : t.Wired := by
  obtain ⟨hledger, hwired⟩ := clientCreate_sound cl h ho hnone hnext hstate hfd peerAddr wc
  obtain ⟨-, hs⟩ := require_bind_ok.1 hs
  exact establish_wired hledger hwired (Nat.lt_succ_self _) hs

/-! ### The steps of a loop -/

/-- Whether a channel callback closes its connection. -/
def closing (a : Answers) : Handler → Bool
  | .close => true
  | .read => decide (a.read = .bytes [])
  | .error | .write => false

/-- A channel callback that does not close. -/
theorem runHandler_plain {x : Ctx ConnId} (hb : x.Bound) {a : Answers} {hd : Handler}
    (hlegal : a.write.Legal x.conn.outputBuffer_.readableBytes) (hn : closing a hd = false) :
    ∃ y, runHandler x a hd = .ok y ∧ x.Plain y ∧ y.conn.state_ = x.conn.state_ := by
  cases hd with
  | close => cases hn
  | error => exact ⟨x, rfl, Ctx.Plain.refl hb, rfl⟩
  | read =>
    have hr : a.read ≠ .bytes [] := of_decide_eq_false hn
    obtain ⟨y, hy, hp, hst, -⟩ := Ctx.handleRead_plain hb hr
    exact ⟨y, hy, hp, hst⟩
  | write => exact Ctx.handleWrite_plain hb hlegal

/-- A channel callback that closes is `handleClose`, after a read that has found the end of the
file. -/
theorem runHandler_close {x : Ctx ConnId} (hb : x.Bound) {a : Answers} {hd : Handler}
    (hcl : closing a hd = true)
    (hst : x.conn.state_ = .kConnected ∨ x.conn.state_ = .kDisconnecting) :
    ∃ z y, (z = x ∨ z = x.received (.bytes [])) ∧ z.handleClose = .ok y ∧
      runHandler x a hd = .ok y ∧ x.Acts y ∧ y.calls = x.calls ++ [.closeCallback] ∧
      y.conn.state_ = x.conn.state_ := by
  cases hd with
  | close =>
    obtain ⟨y, hy, hact, hcalls, hst'⟩ := Ctx.handleClose_acts hb hst
    exact ⟨x, y, .inl rfl, hy, hy, hact, hcalls, hst'⟩
  | error => cases hcl
  | read =>
    have hr : a.read = .bytes [] := of_decide_eq_true hcl
    have hrecv := Ctx.received_acts hb (.bytes [])
    obtain ⟨y, hy, hact, hcalls, hst'⟩ := Ctx.handleClose_acts (hrecv.bound hb) hst
    refine ⟨_, y, .inr rfl, hy, ?_, hrecv.trans hact, hcalls, hst'⟩
    show x.handleRead a.read = .ok y
    rw [hr]
    exact hy
  | write => cases hcl

/-- A channel callback of a connection that is up. -/
theorem handler_wired {s t : Network} {c : ConnId} {thread : LoopId} {a : Answers} {hd : Handler}
    (h : s.Wired) (hc : c < s.accepted) (hup : s.Up c) (hth : thread = (s.conns c).loop_)
    (hlegal : a.write.Legal (s.conns c).outputBuffer_.readableBytes)
    (hs : s.enact a.connect (runHandler (s.ctx thread c) a hd) = .ok t) : t.Wired := by
  have hfree := h.not_freed hup
  have hb := h.bound hc hfree hth
  have hst := h.state c hc hup
  cases hcl : closing a hd with
  | true =>
    obtain ⟨-, y, -, -, hy, hact, hcalls, hst'⟩ := runHandler_close hb hcl hst
    rw [hy] at hs
    exact h.close hc hup hact hcalls (by rw [hst']; exact hst) hs
  | false =>
    obtain ⟨y, hy, hp, hst'⟩ := runHandler_plain hb hlegal hcl
    rw [hy] at hs
    exact h.plain hc hfree hp (fun _ => hup) (fun h0 => absurd h0 (Nat.ne_of_gt hup.1))
      (fun _ => by rw [hst']; exact hst) hs

/-- A functor that has been taken out of its queue. -/
theorem functor_wired {s t : Network} {f : Functor} {thread : LoopId} {a : Answers}
    (hl : s.Ledger (some f)) (hw : s.Wired) (hc : f.conn < s.accepted) (hth : thread = s.home f)
    (hraw : f.owns = none → 0 < s.times f.conn .established) (hidle : s.active thread = [])
    (hno : ∀ c message, f = .sendInLoop c message →
      (s.ctx thread c).direct a.write < message.length → s.times c .destroyed = 0)
    (hs : s.runFunctor thread a f = .ok t) : t.Wired := by
  cases f with
  | connectEstablished c => exact establish_wired hl hw hc hs
  | removeConnectionInLoop c =>
    obtain ⟨hun, hth, hlog⟩ := removeConnectionInLoop_unmoved hs
    exact hw.of_removed hun (.inr ⟨hth, hlog⟩)
  | connectDestroyed c => exact destroy_wired hl hw hc hidle hs
  | writeCompleteCallback c =>
    cases hs
    exact hw
  | sendInLoop c message =>
    obtain ⟨hfree, hs⟩ := require_bind_ok.1 hs
    exact hw.sendInLoop hc hfree (hraw rfl) hth (hno c message rfl) hs
  | shutdownInLoop c =>
    obtain ⟨hfree, hs⟩ := require_bind_ok.1 hs
    have hc' : c < s.accepted := hc
    obtain ⟨y, hy, hp, hst, hstill⟩ := Ctx.shutdownInLoop_plain (hw.bound hc' hfree hth)
    rw [hy] at hs
    exact hw.still hc hfree hp hstill.poller
      (fun h0 => absurd h0 (Nat.ne_of_gt (hraw rfl)))
      (fun hu => by rw [hst]; exact hw.state c hc hu) hs

/-- The kernel reports channels of connections that are up, on their own loop. -/
theorem Wired.of_watches {s : Network} (h : s.Wired) {loop : LoopId} {c : ConnId}
    (hw : s.Watches loop c) : (s.pollers loop).channels_ (s.conns c).channel_.fd_ = some c ∧
      c < s.accepted ∧ loop = (s.conns c).loop_ ∧ s.Up c := by
  unfold Watches at hw
  obtain ⟨e, he, rfl⟩ := Option.map_eq_some_iff.1 hw
  have hm := h.watched loop _ e.1 e.2 he
  obtain ⟨h1, h2, -, h4⟩ := h.mapped loop _ e.2 hm
  exact ⟨hm, h1, h2, h4⟩

theorem Wired.setActive {s : Network} (h : s.Wired) {active : LoopId → List (ConnId × Handler)}
    (hactive : ∀ l, ∀ p ∈ active l,
      p.1 < s.accepted ∧ l = (s.conns p.1).loop_ ∧ s.Up p.1) :
    Wired { s with active := active } :=
  ⟨h.agrees, h.fds, h.mapped, h.watched, h.fresh, h.state, h.freed, hactive, h.calls⟩

/-- The next channel callback of a loop. -/
theorem Sound.popActive {s : Network} (h : s.Sound) {loop : LoopId} {c : ConnId} {hd : Handler}
    {rest : List (ConnId × Handler)} (hq : s.active loop = (c, hd) :: rest) :
    Sound { s with active := Function.update s.active loop rest } ∧ c < s.accepted ∧
      loop = (s.conns c).loop_ ∧ s.Up c :=
  ⟨⟨h.ledger.congr rfl rfl rfl (fun _ => rfl) (fun _ => rfl) rfl rfl,
      h.wired.setActive fun l p hp => h.wired.active l p (mem_of_popActive hq hp)⟩,
    h.wired.active loop (c, hd) (by rw [hq]; exact List.mem_cons_self ..)⟩

/-- `poll` finds channels of connections that are up. -/
theorem poll_wired {s : Network} (h : s.Wired) {loop : LoopId}
    {activeChannels : List (ConnId × Events)} (hwatch : ∀ p ∈ activeChannels, s.Watches loop p.1) :
    Wired { s with
      active := Function.update s.active loop (activeChannels.flatMap s.callbacks) } := by
  refine h.setActive fun l p hp => ?_
  rcases mem_polled hp with ⟨rfl, q, hq, hpq⟩ | hp
  · rw [hpq]
    exact (h.of_watches (hwatch q hq)).2
  · exact h.active l p hp

/-- The books and the wiring when a functor has been taken out of its queue. -/
theorem Sound.pop {s : Network} (h : s.Sound) {loop : LoopId} {f : Functor} {rest : List Functor}
    (hq : s.functors loop = f :: rest) :
    Ledger { s with functors := Function.update s.functors loop rest } (some f) ∧
      Wired { s with functors := Function.update s.functors loop rest } ∧ f.conn < s.accepted ∧
      loop = s.home f ∧ (f.owns = none → 0 < s.times f.conn .established) :=
  ⟨h.ledger.pop hq, h.wired.congr rfl rfl rfl rfl (fun _ => id) (fun _ _ => id) (fun _ => rfl)
    fun _ => rfl, h.ledger.placed loop f (by rw [hq]; exact List.mem_cons_self ..)⟩

/-! ### The steps of the user -/

/-- A call of another thread begins. -/
theorem Wired.addCall {s : Network} (h : s.Wired) {u : UserCall} (hc : u.conn < s.accepted)
    (hfree : s.freed u.conn = false) (hest : 0 < s.times u.conn .established) :
    Wired { s with calls := u :: s.calls } :=
  ⟨h.agrees, h.fds, h.mapped, h.watched, h.fresh, h.state, h.freed, h.active,
    List.forall_mem_cons.2 ⟨⟨hc, hfree, hest⟩, h.calls⟩⟩

/-- A call of another thread ends. -/
theorem Wired.eraseCall {s : Network} (h : s.Wired) (u : UserCall) :
    Wired { s with calls := s.calls.erase u } :=
  h.congr rfl rfl rfl rfl (fun _ hv => List.mem_of_mem_erase hv) (fun _ _ => id) (fun _ => rfl)
    fun _ => rfl

/-- Queues do not matter to the wiring. -/
theorem Wired.queueInLoop {s : Network} (h : s.Wired) (loop : LoopId) (f : Functor) :
    (s.queueInLoop loop f).Wired :=
  h.congr rfl rfl rfl rfl (fun _ => id) (fun _ _ => id) (fun _ => rfl) fun _ => rfl

/-- Another thread sets the state of an established connection. -/
theorem Wired.disconnecting {s : Network} (h : s.Wired) {c : ConnId} (hc : c < s.accepted)
    (hfree : s.freed c = false) (hest : 0 < s.times c .established) :
    Wired { s with
      conns := Function.update s.conns c { s.conns c with state_ := .kDisconnecting } } := by
  have hact : (s.ctx (s.conns c).loop_ c).Acts
      ((s.ctx (s.conns c).loop_ c).setState .kDisconnecting) :=
    Ctx.Acts.still (h.bound hc hfree rfl) rfl rfl rfl rfl rfl rfl
  refine h.put hc hfree hact rfl ?_ rfl rfl rfl (fun _ _ => rfl)
    (fun l p hp => ⟨hp, fun hpc => ?_⟩) id (fun hm => (h.mapped _ _ c hm).2.2.2)
    (fun h0 => absurd h0 (Nat.ne_of_gt hest)) fun _ => .inr rfl
  · exact (Function.update_eq_self _ _).symm
  · have hup := (h.active l p hp).2.2
    rwa [hpc] at hup

/-- A connection in the state `kConnected` has been established. -/
theorem Wired.established {s : Network} (h : s.Wired) {c : ConnId} (hc : c < s.accepted)
    (hk : (s.conns c).state_ = .kConnected) : 0 < s.times c .established := by
  by_contra h0
  obtain ⟨wc, hwc⟩ := h.fresh c hc (Nat.eq_zero_of_not_pos h0)
  rw [hwc] at hk
  cases hk

/-- `send` on the loop thread. -/
theorem send_wired {s t : Network} (h : s.Wired) {c : ConnId} {message : List Byte}
    {r : WriteResult} {cr : ConnectResult} (hc : c < s.accepted) (hfree : s.freed c = false)
    (hno : (s.conns c).state_ = .kConnected ∧
      (s.ctx (s.conns c).loop_ c).direct r < message.length → s.times c .destroyed = 0)
    (hs : s.enact cr ((s.ctx (s.conns c).loop_ c).send message r) = .ok t) : t.Wired := by
  obtain ⟨y, hy, hp, hst, hsame, hstill⟩ := Ctx.send_plain (h.bound hc hfree rfl) message r
  rw [hy] at hs
  have hfresh : s.times c .established = 0 → y.conn = s.conns c := fun h0 => by
    rw [hsame fun hk => absurd h0 (Nat.ne_of_gt (h.established hc hk))]
    rfl
  have hstate : s.Up c → y.conn.state_ = .kConnected ∨ y.conn.state_ = .kDisconnecting :=
    fun hu => by rw [hst]; exact h.state c hc hu
  by_cases hlt : (s.conns c).state_ = .kConnected ∧
      (s.ctx (s.conns c).loop_ c).direct r < message.length
  · exact h.plain hc hfree hp (fun _ => ⟨h.established hc hlt.1, hno hlt⟩) hfresh hstate hs
  · exact h.still hc hfree hp (hstill fun hk => Nat.not_lt.1 fun hl => hlt ⟨hk, hl⟩).poller
      hfresh hstate hs

/-- `shutdown` on the loop thread. -/
theorem shutdown_wired {s t : Network} (h : s.Wired) {c : ConnId} {cr : ConnectResult}
    (hc : c < s.accepted) (hfree : s.freed c = false)
    (hs : s.enact cr (s.ctx (s.conns c).loop_ c).shutdown = .ok t) : t.Wired := by
  obtain ⟨y, hy, hp, hstill, hsame, hdis⟩ := Ctx.shutdown_plain (h.bound hc hfree rfl)
  rw [hy] at hs
  refine h.still hc hfree hp hstill.poller (fun h0 => ?_) (fun hu => ?_) hs
  · rw [hsame fun hk => absurd h0 (Nat.ne_of_gt (h.established hc hk))]
    rfl
  · by_cases hk : (s.conns c).state_ = .kConnected
    · exact .inr (hdis hk)
    · rw [hsame hk]
      exact h.state c hc hu

/-! ### Whole runs -/

/-- **Every step keeps the wiring.** -/
theorem Steps.wired {s t : Network} {l : Label} (hs : s.Steps l t) (h : s.Sound)
    (hno : s.NoRearm l) : t.Wired := by
  have hw := h.wired
  have hsame : ∀ {u : Network}, u.conns = s.conns → u.pollers = s.pollers →
      u.accepted = s.accepted → u.freed = s.freed → u.calls = s.calls → u.active = s.active →
      u.log = s.log → u.Wired := fun h1 h2 h3 h4 h5 h6 h7 =>
    hw.congr h1 h2 h3 h4 (fun _ hu => h5 ▸ hu) (fun _ _ hp => h6 ▸ hp)
      (fun c => by rw [times, times, h7]) fun c => by rw [times, times, h7]
  cases hs with
  | newConnection ho hfd ht => exact serverNewConnection_wired h ho hfd ht
  | connected ho hst hfd ht =>
    refine clientNewConnection_wired h ho (h.ledger.client_idle ho (by rw [hst]; decide)) ?_ ?_ hfd
      ht <;> rfl
  | poll hidle hnodup hwatch => exact poll_wired hw hwatch
  | handle hq hlegal hfree ht =>
    obtain ⟨h₀, hc, hth, hup⟩ := h.popActive hq
    exact handler_wired h₀.wired hc hup hth hlegal ht
  | @functor loop a f rest t hidle hq hlegal ht =>
    obtain ⟨hl, hw, hc, hth, hraw⟩ := h.pop hq
    refine functor_wired hl hw hc (by rw [hth]; cases f <;> rfl) hraw hidle
      (fun c message hf hlt => hno c ?_) ht
    rw [hf] at hq
    simp only [unsent, hidle, hq]
    exact if_pos hlt
  | send hu hlegal ht => exact send_wired hw hu.1 hu.2 (fun hlt => hno _ (if_pos hlt)) ht
  | shutdown hu ht => exact shutdown_wired hw hu.1 hu.2 ht
  | foreignSend message hu hk => exact hw.addCall hu.1 hu.2 (hw.established hu.1 hk)
  | foreignShutdown hu hk => exact hw.addCall hu.1 hu.2 (hw.established hu.1 hk)
  | proceedSend hu => exact (hw.eraseCall _).queueInLoop _ _
  | @proceedShutdown c hu =>
    obtain ⟨hc, hfree, hest⟩ := hw.calls _ hu
    have h₁ := (hw.eraseCall (.shutdown c)).addCall (u := .shuttingDown c) hc hfree hest
    exact h₁.disconnecting hc hfree hest
  | proceedShuttingDown hu => exact (hw.eraseCall _).queueInLoop _ _
  | free hu hown =>
    exact hw.free hu.1 (h.ledger.destroyed_of_unowned hu.1 hown) fun u hu he =>
      hown (.inr (.inr (.inr ⟨u, hu, he⟩)))
  -- the owner and the user's pointers do not matter
  | _ => exact hsame rfl rfl rfl rfl rfl rfl rfl

/-- **Every step keeps the books and the wiring.** -/
theorem Steps.sound {s t : Network} {l : Label} (hs : s.Steps l t) (h : s.Sound)
    (hkeeps : s.Keeps l) (hno : s.NoRearm l) : t.Sound :=
  ⟨(hs.books h.books hkeeps).ledger, hs.wired h hno⟩

theorem step_sound {s t : Network} {l : Label} (h : s.Sound) (hkeeps : s.Keeps l)
    (hno : s.NoRearm l) (hs : Moves step s l t) : t.Sound :=
  (step_cases hs).sound h hkeeps hno

/-- An owner that holds nothing yet. -/
theorem new_sound {owner : Owner} {loops : List LoopId} (h : (new owner loops).OwnerFacts) :
    (new owner loops).Sound := by
  refine ⟨⟨fun l f hf => ?_, fun c hc => ?_, fun _ _ => rfl,
    ⟨List.mem_cons_self .., fun c hc => ?_⟩, h⟩, ⟨fun c hc => ?_,
    fun c hc => ?_, fun l fd c hm => ?_, fun l fd e c hm => ?_, fun c hc => ?_, fun c hc => ?_,
    fun c hf => ?_, fun l p hp => ?_, fun u hu => ?_⟩⟩
  · cases hf
  · exact absurd hc (Nat.not_lt_zero c)
  · exact absurd hc (Nat.not_lt_zero c)
  · exact absurd hc (Nat.not_lt_zero c)
  · exact absurd hc (Nat.not_lt_zero c)
  · cases hm
  · cases hm
  · exact absurd hc (Nat.not_lt_zero c)
  · exact absurd hc (Nat.not_lt_zero c)
  · cases hf
  · cases hp
  · cases hu

theorem ofServer_sound (name : String) (loops : List LoopId) : (ofServer name loops).Sound := by
  refine new_sound ⟨rfl, fun c hc => absurd hc (Nat.not_lt_zero c), fun name c he => ?_, rfl,
    fun l hl => List.mem_cons_of_mem _ hl⟩
  cases he

theorem ofClient_sound : ofClient.Sound := by
  refine new_sound ⟨rfl, fun c he => ?_, fun l c hm => ?_,
    fun c hc => absurd hc (Nat.not_lt_zero c)⟩
  · cases he
  · cases hm

end Network

end Fppnet
