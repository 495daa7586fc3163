import Fppnet.Net.CloseOnce

/-!
# After `connectDestroyed`

`connectDestroyed` takes the channel off the poller. But `send` has tested `state_` in its own
thread, and the functor that it queues runs later and tests nothing: behind `connectDestroyed` it
writes to the descriptor, or buffers its message and registers the channel once more.

* `NoLateSend` is the condition on a step that avoids this;
* `teardown_final`: in a run whose steps meet it, no poller has the channel of a connection that has
  been destroyed, its mark is `kNew`, and no step writes to its descriptor;
* `late_send` is a run without it, and `lateSend_breaks` says that the condition is exact: a step
  that does not meet it writes or registers the channel.

The invariant is `Sound` with `Torn`: a destroyed connection is not in state `kConnected`, and its
channel has no write interest. A server that has been destroyed with connections left is not sound
itself, but goes on like one that has been kept (`keeping`).
-/

namespace Fppnet

open Checked Runs TcpConnection

namespace Network

/-! ### The conditions -/

/-- The connection for which a step calls `write`. -/
def writes (s : Network) : Label → Option ConnId
  | .handle loop _ =>
    match s.active loop with
    | (c, .write) :: _ => if (s.conns c).channel_.isWriting then some c else none
    | _ => none
  | .functor loop _ =>
    match s.active loop, s.functors loop with
    | [], .sendInLoop c _ :: _ => if (s.ctx loop c).writesDirectly then some c else none
    | _, _ => none
  | .send c _ _ =>
    if (s.conns c).state_ = .kConnected ∧ (s.ctx (s.conns c).loop_ c).writesDirectly then some c
    else none
  | _ => none

/-- The connection for which a step runs `sendInLoop` after `connectDestroyed`, unless the message
is empty and older output keeps it from being written. -/
def lateSend (s : Network) : Label → Option ConnId
  | .functor loop _ =>
    match s.active loop, s.functors loop with
    | [], .sendInLoop c message :: _ =>
      if 0 < s.times c .destroyed ∧ ((s.ctx loop c).writesDirectly ∨ message ≠ []) then some c
      else none
    | _, _ => none
  | _ => none

/-- No message is sent after `connectDestroyed`. -/
def NoLateSend (s : Network) (l : Label) : Prop := s.lateSend l = none

instance (s : Network) (l : Label) : Decidable (s.NoLateSend l) :=
  inferInstanceAs (Decidable (_ = _))

/-! ### The invariant -/

/-- The connection is not in state `kConnected`, and its channel has no write interest. -/
structure Down (conn : TcpConnection) : Prop where
  state : conn.state_ ≠ .kConnected
  writing : conn.channel_.isWriting = false

def Torn (s : Network) : Prop :=
  ∀ c < s.accepted, 0 < s.times c .destroyed → Down (s.conns c)

theorem Down.of_still {x y : Ctx ConnId} (h : Down x.conn) (hs : x.Still y)
    (hst : y.conn.state_ = x.conn.state_) : Down y.conn :=
  ⟨by rw [hst]; exact h.state, by rw [hs.channel]; exact h.writing⟩

theorem Torn.of_extends {s t : Network} (h : s.Torn) (he : s.Extends t) : t.Torn := by
  intro c hc hd
  rw [he.conns]
  exact h c (by rwa [← he.accepted]) (by rwa [← (he.times c).2])

/-- A member function of `c` has run. -/
theorem Torn.enact {s t : Network} {c : ConnId} {r : ConnectResult} {y : Ctx ConnId}
    (hself : y.self = c) (h : ∀ c' < s.accepted, c' ≠ c → 0 < s.times c' .destroyed →
      Down (s.conns c')) (hc : 0 < s.times c .destroyed → Down y.conn)
    (hs : s.enact r (.ok y) = .ok t) : t.Torn := by
  refine Torn.of_extends (fun c' hc' hd => ?_) (enact_extends hs)
  show Down (Function.update s.conns y.self y.conn c')
  rw [hself]
  by_cases hcc : c' = c
  · rw [hcc, Function.update_self]
    exact hc (hcc ▸ hd)
  · rw [Function.update_of_ne hcc]
    exact h c' hc' hcc hd

theorem Torn.create {s : Network} (h : s.Torn) (hlog : s.log s.accepted = [])
    (conn : TcpConnection) (owner : Owner) : (s.create conn owner).Torn := by
  intro c hc hd
  rcases Nat.lt_succ_iff_lt_or_eq.1 hc with hc | rfl
  · rw [create_old s conn owner hc]
    exact h c hc hd
  · have h0 : (s.create conn owner).times s.accepted .destroyed = 0 := by
      show List.countP _ (s.log s.accepted) = 0
      rw [hlog]
      rfl
    exact absurd h0 (Nat.ne_of_gt hd)

/-- `connectEstablished` runs before `connectDestroyed`. -/
theorem establish_torn {s t : Network} {c : ConnId} {thread : LoopId} {a : Answers} (h : s.Torn)
    (h0 : s.times c .destroyed = 0)
    (hs : s.runFunctor thread a (.connectEstablished c) = .ok t) : t.Torn := by
  change (s.record c .established thread).enact a.connect (s.ctx thread c).connectEstablished =
    .ok t at hs
  obtain ⟨y, hy⟩ := enact_ok hs
  rw [hy] at hs
  have hdes : ∀ c', (s.record c .established thread).times c' .destroyed = s.times c' .destroyed :=
    fun c' => times_record_of_ne s c c' thread (by decide)
  obtain ⟨-, -, rfl⟩ := Ctx.connectEstablished_ok hy
  refine Torn.enact (s := s.record c .established thread) (c := c) rfl
    (fun c' hc' _ hd => h c' hc' ?_) (fun hd => ?_) hs
  · rwa [hdes] at hd
  · rw [hdes] at hd
    exact absurd h0 (Nat.ne_of_gt hd)

theorem destroy_torn {s t : Network} {c : ConnId} {thread : LoopId} {a : Answers} (h : s.Torn)
    (hs : s.runFunctor thread a (.connectDestroyed c) = .ok t) : t.Torn := by
  change (s.record c .destroyed thread).enact a.connect (s.ctx thread c).connectDestroyed =
    .ok t at hs
  obtain ⟨y, hy⟩ := enact_ok hs
  rw [hy] at hs
  obtain ⟨-, -, -, hself, -, hconn, -⟩ := Ctx.connectDestroyed_ok hy
  refine Torn.enact (s := s.record c .destroyed thread) (c := c) hself
    (fun c' hc' hne hd => h c' hc' ?_)
    (fun _ => ⟨?_, (Ctx.connectDestroyed_shut hy).writing⟩) hs
  · have htimes : (s.record c .destroyed thread).times c' .destroyed = s.times c' .destroyed := by
      rw [times_record, if_neg fun hh => hne hh.1, Nat.add_zero]
    rwa [htimes] at hd
  · rw [hconn]
    rintro ⟨⟩

/-- A message that is sent too late does nothing to the channel when it is empty and waits behind
older output. -/
theorem NoLateSend.still {s : Network} {l : Label} {loop : LoopId} {a : Answers} {c : ConnId}
    {message : List Byte} {rest : List Functor} (h : s.NoLateSend l) (hl : l = .functor loop a)
    (hidle : s.active loop = []) (hq : s.functors loop = .sendInLoop c message :: rest)
    (hd : 0 < s.times c .destroyed) :
    (s.ctx loop c).writesDirectly = false ∧ message = [] := by
  subst hl
  simp only [NoLateSend, lateSend, hidle, hq, ite_eq_right_iff, reduceCtorEq, imp_false, not_and,
    not_or, Bool.not_eq_true, ne_eq, not_not] at h
  exact h hd

/-- A functor that has been taken out of its queue. -/
theorem functor_torn {s t : Network} {f : Functor} {thread : LoopId} {a : Answers} (h : s.Torn)
    (hl : s.Ledger (some f)) (hw : s.Wired) (hc : f.conn < s.accepted) (hth : thread = s.home f)
    (hno : ∀ c message, f = .sendInLoop c message → 0 < s.times c .destroyed →
      (s.ctx thread c).writesDirectly = false ∧ message = [])
    (hs : s.runFunctor thread a f = .ok t) : t.Torn := by
  cases f with
  | connectEstablished c => exact establish_torn h (before_established hl hw hc).2.1 hs
  | removeConnectionInLoop c => exact h.of_extends (removeConnectionInLoop_extends hs)
  | connectDestroyed c => exact destroy_torn h hs
  | writeCompleteCallback c =>
    cases hs
    exact h
  | sendInLoop c message =>
    have hc' : c < s.accepted := hc
    obtain ⟨hfree, hs⟩ := require_bind_ok.1 hs
    obtain ⟨y, hy, hp, hst, hstill⟩ :=
      Ctx.sendInLoop_plain (hw.bound hc' hfree hth) message a.write
    rw [hy] at hs
    refine Torn.enact hp.self (fun c' hc' _ => h c' hc') (fun hd => ?_) hs
    have hd₀ : Down (s.ctx thread c).conn := h c hc' hd
    refine hd₀.of_still (hstill ?_) hst
    -- after `connectDestroyed` only empty messages come
    rw [(hno c message rfl hd).2]
    exact Nat.zero_le _
  | shutdownInLoop c =>
    have hc' : c < s.accepted := hc
    obtain ⟨hfree, hs⟩ := require_bind_ok.1 hs
    obtain ⟨y, hy, hp, hst, hstill⟩ := Ctx.shutdownInLoop_plain (hw.bound hc' hfree hth)
    rw [hy] at hs
    refine Torn.enact hp.self (fun c' hc' _ => h c' hc') (fun hd => ?_) hs
    have hd₀ : Down (s.ctx thread c).conn := h c hc' hd
    exact hd₀.of_still hstill hst

/-- Another thread sets the state. -/
theorem Torn.disconnecting {s : Network} (h : s.Torn) (c : ConnId) :
    Torn { s with
      conns := Function.update s.conns c { s.conns c with state_ := .kDisconnecting } } := by
  intro c' hc' hd
  show Down (Function.update s.conns c _ c')
  by_cases hcc : c' = c
  · subst hcc
    rw [Function.update_self]
    exact ⟨by rintro ⟨⟩, (h c' hc' hd).writing⟩
  · rw [Function.update_of_ne hcc]
    exact h c' hc' hd

theorem Steps.torn {s t : Network} {l : Label} (hs : s.Steps l t) (h : s.Torn) (hsound : s.Sound)
    (hno : s.NoLateSend l) : t.Torn := by
  have hlog := hsound.ledger.fresh s.accepted le_rfl
  cases hs with
  | @newConnection sv sockfd wc t ho hfd ht =>
    obtain ⟨hl, hw⟩ := serverCreate_sound hsound ho hfd wc
    have h₀ : (s.serverCreate sv sockfd wc).Torn := h.create hlog _ _
    obtain ⟨-, ht⟩ := require_bind_ok.1 ht
    by_cases hio : sv.threadPool_.getNextLoop.1 = baseLoop
    · rw [if_pos hio] at ht
      exact establish_torn h₀ (before_established hl hw (Nat.lt_succ_self _)).2.1 ht
    · rw [if_neg hio] at ht
      cases ht
      exact h₀
  | @connected cl sockfd peerAddr wc t ho hst hfd ht =>
    obtain ⟨hl, hw⟩ := clientCreate_sound
      { cl with connector_ := { cl.connector_ with state_ := .kConnected } } hsound ho
      (hsound.ledger.client_idle ho (by rw [hst]; decide)) rfl rfl hfd peerAddr wc
    obtain ⟨-, ht⟩ := require_bind_ok.1 ht
    exact establish_torn (h.create hlog _ _)
      (before_established hl hw (Nat.lt_succ_self _)).2.1 ht
  | @handle loop a c hd rest t hq hlegal hfree ht =>
    -- the channel is active, so its connection has not been destroyed
    obtain ⟨-, -, -, hup⟩ := hsound.popActive hq
    obtain ⟨y, hy⟩ := enact_ok ht
    rw [hy] at ht
    exact Torn.enact (s := { s with active := Function.update s.active loop rest })
      (runHandler_does hy).self (fun c' hc' _ => h c' hc')
      (fun hd => absurd hup.2 (Nat.ne_of_gt hd)) ht
  | @functor loop a f rest t hidle hq hlegal ht =>
    obtain ⟨hl, hw, hc, hth, -⟩ := hsound.pop hq
    have h₀ : Torn { s with functors := Function.update s.functors loop rest } := h
    refine functor_torn h₀ hl hw hc (by rw [hth]; cases f <;> rfl)
      (fun c message hf hd => ?_) ht
    rw [hf] at hq
    exact hno.still rfl hidle hq hd
  | @send c message a t hu hlegal ht =>
    obtain ⟨y, hy, hp, -, hsame, -⟩ :=
      Ctx.send_plain (hsound.wired.bound hu.1 hu.2 rfl) message a.write
    rw [hy] at ht
    refine Torn.enact hp.self (fun c' hc' _ => h c' hc') (fun hd => ?_) ht
    -- a destroyed connection is not in state `kConnected`, for which `send` asks
    rw [hsame (h c hu.1 hd).state]
    exact h c hu.1 hd
  | @shutdown c a t hu ht =>
    obtain ⟨y, hy, hp, -, hsame, -⟩ := Ctx.shutdown_plain (hsound.wired.bound hu.1 hu.2 rfl)
    rw [hy] at ht
    refine Torn.enact hp.self (fun c' hc' _ => h c' hc') (fun hd => ?_) ht
    rw [hsame (h c hu.1 hd).state]
    exact h c hu.1 hd
  | @proceedShutdown c hu => exact h.disconnecting c
  | _ => exact h

/-- No bytes are left behind on a destroyed connection. -/
theorem NoLateSend.noRearm {s t : Network} {l : Label} (h : s.NoLateSend l) (hs : s.Steps l t)
    (hd : s.Torn) : s.NoRearm l := by
  intro c hc
  by_contra hne
  have hpos : 0 < s.times c .destroyed := Nat.pos_of_ne_zero hne
  cases hs with
  | send hu hlegal ht =>
    simp only [unsent, Option.mem_def, Option.ite_none_right_eq_some, Option.some.injEq] at hc
    obtain ⟨⟨hk, -⟩, rfl⟩ := hc
    exact (hd _ hu.1 hpos).state hk
  | @functor loop a f rest t hidle hq hlegal ht =>
    simp only [unsent, hidle, hq] at hc
    cases f with
    | sendInLoop c' message =>
      simp only [Option.mem_def, Option.ite_none_right_eq_some, Option.some.injEq] at hc
      obtain ⟨hlt, rfl⟩ := hc
      rw [(h.still rfl hidle hq hpos).2] at hlt
      cases hlt
    | _ => cases hc
  | _ => cases hc

/-- **No step writes to the descriptor of a destroyed connection.** -/
theorem Sound.not_writes {s : Network} (h : s.Sound) (hd : s.Torn) {l : Label}
    (hno : s.NoLateSend l) {c : ConnId} (hpos : 0 < s.times c .destroyed) :
    s.writes l ≠ some c := by
  have hc := h.ledger.lt_accepted hpos
  intro hw
  cases l with
  | handle loop a =>
    simp only [writes] at hw
    split at hw
    · next c' rest hq =>
      rw [Option.ite_none_right_eq_some, Option.some.injEq] at hw
      obtain ⟨-, rfl⟩ := hw
      -- no poller has the channel of a destroyed connection, so it is not active
      exact absurd (h.popActive hq).2.2.2.2 (Nat.ne_of_gt hpos)
    · cases hw
  | functor loop a =>
    simp only [writes] at hw
    split at hw
    · next c' message rest hidle hq =>
      rw [Option.ite_none_right_eq_some, Option.some.injEq] at hw
      obtain ⟨hdirect, rfl⟩ := hw
      rw [(hno.still rfl hidle hq hpos).1] at hdirect
      cases hdirect
    · cases hw
  | send c' message a =>
    simp only [writes] at hw
    rw [Option.ite_none_right_eq_some, Option.some.injEq] at hw
    obtain ⟨⟨hk, -⟩, rfl⟩ := hw
    exact (hd _ hc hpos).state hk
  | _ => cases hw

/-! ### Which steps write -/

/-- `sendInLoop` hands bytes to the kernel only when it writes directly. -/
theorem sendInLoop_wire {x y : Ctx ConnId} {message : List Byte} {r : WriteResult}
    (h : x.sendInLoop message r = .ok y) : y.wire = x.wire ∨ x.writesDirectly = true := by
  by_cases hd : x.writesDirectly = true
  · exact .inr hd
  · left
    rw [(Ctx.sendInLoop_parts h).1, Ctx.direct, if_neg hd, List.take_zero, List.append_nil]

/-- `handleWrite` does so only when the channel is writing. -/
theorem handleWrite_wire {x y : Ctx ConnId} {r : WriteResult} (h : x.handleWrite r = .ok y) :
    y.wire = x.wire ∨ x.conn.channel_.isWriting = true := by
  rcases Ctx.handleWrite_cases h with rfl | ⟨-, hw, -⟩ | ⟨-, hw, -⟩
  · exact .inl rfl
  · exact .inr hw
  · exact .inr hw

theorem handleClose_wire {x y : Ctx ConnId} (h : x.handleClose = .ok y) : y.wire = x.wire := by
  obtain ⟨-, -, rfl⟩ := Ctx.handleClose_ok h
  rfl

theorem shutdownInLoop_wire {x y : Ctx ConnId} (h : x.shutdownInLoop = .ok y) :
    y.wire = x.wire := by
  unfold Ctx.shutdownInLoop at h
  obtain ⟨-, h⟩ := require_bind_ok.1 h
  split_ifs at h <;> cases h <;> rfl

/-- Of the callbacks of the channel only `handleWrite` writes. -/
theorem runHandler_wire {x y : Ctx ConnId} {a : Answers} {hd : Handler}
    (h : runHandler x a hd = .ok y) :
    y.wire = x.wire ∨ hd = .write ∧ x.conn.channel_.isWriting = true := by
  cases hd with
  | close => exact .inl (handleClose_wire h)
  | error =>
    cases h
    exact .inl rfl
  | read =>
    left
    rcases Ctx.handleRead_cases x a.read with ⟨-, h'⟩ | ⟨-, h' | h'⟩
    · have hclose := handleClose_wire (h'.symm.trans h)
      exact hclose
    · cases h'.symm.trans h
      rfl
    · cases h'.symm.trans h
      rfl
  | write => exact (handleWrite_wire h).imp_right fun hw => ⟨rfl, hw⟩

/-- A member function and what it calls lengthen the wire of its own connection only. -/
theorem enact_wire {s t : Network} (thread : LoopId) {c c' : ConnId} {r : ConnectResult}
    {y : Ctx ConnId} (hself : y.self = c') (hs : s.enact r (.ok y) = .ok t)
    (hw : (t.conns c).socket_.wire ≠ (s.conns c).socket_.wire) :
    c = c' ∧ y.wire ≠ (s.ctx thread c').wire := by
  rw [(enact_extends hs).conns, put_conns s hself] at hw
  by_cases hcc : c = c'
  · subst hcc
    rw [Function.update_self] at hw
    exact ⟨rfl, hw⟩
  · rw [Function.update_of_ne hcc] at hw
    exact absurd rfl hw

/-- Of the functors only `sendInLoop` writes. -/
theorem runFunctor_wire {s t : Network} {thread : LoopId} {a : Answers} {f : Functor} {c : ConnId}
    (hs : s.runFunctor thread a f = .ok t)
    (hw : (t.conns c).socket_.wire ≠ (s.conns c).socket_.wire) :
    ∃ message, f = .sendInLoop c message ∧ (s.ctx thread c).writesDirectly = true := by
  cases f with
  | connectEstablished c' =>
    change (s.record c' .established thread).enact a.connect
      (s.ctx thread c').connectEstablished = .ok t at hs
    obtain ⟨y, hy⟩ := enact_ok hs
    rw [hy] at hs
    obtain ⟨-, -, rfl⟩ := Ctx.connectEstablished_ok hy
    exact absurd rfl (enact_wire thread (c := c) rfl hs hw).2
  | removeConnectionInLoop c' =>
    rw [(removeConnectionInLoop_extends hs).conns] at hw
    exact absurd rfl hw
  | connectDestroyed c' =>
    change (s.record c' .destroyed thread).enact a.connect (s.ctx thread c').connectDestroyed =
      .ok t at hs
    obtain ⟨y, hy⟩ := enact_ok hs
    rw [hy] at hs
    obtain ⟨-, -, -, hself, -, hconn, -⟩ := Ctx.connectDestroyed_ok hy
    refine absurd ?_ (enact_wire thread hself hs hw).2
    rw [Ctx.wire, hconn]
    rfl
  | writeCompleteCallback c' =>
    cases hs
    exact absurd rfl hw
  | sendInLoop c' message =>
    obtain ⟨-, hs⟩ := require_bind_ok.1 hs
    obtain ⟨y, hy⟩ := enact_ok hs
    rw [hy] at hs
    obtain ⟨rfl, hne⟩ := enact_wire thread (Ctx.sendInLoop_does hy).self hs hw
    exact ⟨message, rfl, (sendInLoop_wire hy).resolve_left hne⟩
  | shutdownInLoop c' =>
    obtain ⟨-, hs⟩ := require_bind_ok.1 hs
    obtain ⟨y, hy⟩ := enact_ok hs
    rw [hy] at hs
    obtain ⟨rfl, hne⟩ := enact_wire thread (Ctx.shutdownInLoop_does hy).self hs hw
    exact absurd (shutdownInLoop_wire hy) hne

/-- The connection that is created is a new one. -/
theorem establish_wire {s t : Network} {conn : TcpConnection} {owner : Owner} {c : ConnId}
    (hc : c < s.accepted) (hs : (s.create conn owner).establish s.accepted = .ok t) :
    (t.conns c).socket_.wire = (s.conns c).socket_.wire := by
  by_contra hw
  rw [← create_old s conn owner hc] at hw
  obtain ⟨message, hf, -⟩ := runFunctor_wire hs hw
  cases hf

/-- **A step that lengthens the wire of a connection is one of `writes`.** -/
theorem Steps.writes_of_wire {s t : Network} {l : Label} (hs : s.Steps l t) {c : ConnId}
    (hc : c < s.accepted) (hw : (t.conns c).socket_.wire ≠ (s.conns c).socket_.wire) :
    s.writes l = some c := by
  cases hs with
  | @newConnection sv sockfd wc t ho hfd ht =>
    obtain ⟨-, ht⟩ := require_bind_ok.1 ht
    by_cases hio : sv.threadPool_.getNextLoop.1 = baseLoop
    · rw [if_pos hio] at ht
      exact absurd (establish_wire hc ht) hw
    · rw [if_neg hio] at ht
      cases ht
      have hold : (s.serverCreate sv sockfd wc).conns c = s.conns c := create_old s _ _ hc
      exact absurd (congrArg (·.socket_.wire) hold) hw
  | @connected cl sockfd peerAddr wc t ho hst hfd ht =>
    obtain ⟨-, ht⟩ := require_bind_ok.1 ht
    exact absurd (establish_wire hc ht) hw
  | @handle loop a c' hd rest t hq hlegal hfree ht =>
    obtain ⟨y, hy⟩ := enact_ok ht
    rw [hy] at ht
    obtain ⟨rfl, hne⟩ := enact_wire loop (runHandler_does hy).self ht hw
    obtain ⟨rfl, hwr⟩ := (runHandler_wire hy).resolve_left hne
    simp only [writes, hq]
    exact if_pos hwr
  | @functor loop a f rest t hidle hq hlegal ht =>
    obtain ⟨message, rfl, hdirect⟩ := runFunctor_wire ht hw
    simp only [writes, hidle, hq]
    exact if_pos hdirect
  | @send c' message a t hu hlegal ht =>
    obtain ⟨y, hy⟩ := enact_ok ht
    rw [hy] at ht
    obtain ⟨rfl, hne⟩ := enact_wire (s.conns c').loop_ (Ctx.send_does hy).self ht hw
    unfold Ctx.send at hy
    split_ifs at hy with hk
    · exact if_pos ⟨hk, (sendInLoop_wire hy).resolve_left hne⟩
    · cases hy
      exact absurd rfl hne
  | @shutdown c' a t hu ht =>
    obtain ⟨y, hy⟩ := enact_ok ht
    rw [hy] at ht
    obtain ⟨rfl, hne⟩ := enact_wire (s.conns c').loop_ (Ctx.shutdown_does hy).self ht hw
    unfold Ctx.shutdown at hy
    split_ifs at hy with hk
    · exact absurd (shutdownInLoop_wire hy) hne
    · cases hy
      exact absurd rfl hne
  | @proceedShutdown c' hu =>
    refine absurd ?_ hw
    show (Function.update s.conns c' _ c).socket_.wire = _
    by_cases hcc : c = c'
    · rw [hcc, Function.update_self]
    · rw [Function.update_of_ne hcc]
  | _ => exact absurd rfl hw

/-! ### A server that has been destroyed -/

/-- The network with another owner, in which other connections have been freed. -/
def keeping (s : Network) (owner : Owner) (freed : ConnId → Bool) : Network :=
  { s with owner := owner, freed := freed }

/-- Without an owner no close callback returns, and other callbacks do not need one. -/
theorem perform_keeping {s t : Network} (owner : Owner) (freed : ConnId → Bool) {thread : LoopId}
    {c : ConnId} {r : ConnectResult} {call : Call} (ho : s.owner = .destroyed)
    (hs : s.perform thread c r call = .ok t) :
    t.owner = .destroyed ∧ (s.keeping owner freed).perform thread c r call =
      .ok (t.keeping owner freed) := by
  cases call with
  | queueWriteComplete =>
    cases hs
    exact ⟨ho, rfl⟩
  | connectionCallback =>
    cases hs
    exact ⟨ho, rfl⟩
  | messageCallback =>
    cases hs
    exact ⟨ho, rfl⟩
  | closeCallback =>
    change (s.record c .closed thread).removeConnection thread c r = .ok t at hs
    cases removeConnection_cases hs with
    | now hs =>
      obtain ⟨sv, ho', -⟩ := removeConnectionInLoop_ok hs
      cases ho.symm.trans ho'
    | later ho' => cases ho.symm.trans ho'
    | client ho' => cases ho.symm.trans ho'

theorem enact_keeping {s t : Network} (owner : Owner) (freed : ConnId → Bool) {r : ConnectResult}
    {e : Except TcpConnection.Failure (Ctx ConnId)} (ho : s.owner = .destroyed)
    (hs : s.enact r e = .ok t) :
    t.owner = .destroyed ∧ (s.keeping owner freed).enact r e = .ok (t.keeping owner freed) := by
  obtain ⟨y, rfl⟩ := enact_ok hs
  exact foldlM_sim (P := fun x => x.owner = .destroyed) (φ := fun x => x.keeping owner freed)
    (g := fun x call => x.perform y.thread y.self r call)
    (fun _ _ _ hx hs => perform_keeping owner freed hx hs) ho hs

theorem runFunctor_keeping {s t : Network} (owner : Owner) {freed : ConnId → Bool}
    (hfreed : ∀ c, s.freed c = false → freed c = false) {thread : LoopId} {a : Answers}
    {f : Functor} (ho : s.owner = .destroyed) (hs : s.runFunctor thread a f = .ok t) :
    t.owner = .destroyed ∧ (s.keeping owner freed).runFunctor thread a f =
      .ok (t.keeping owner freed) := by
  cases f with
  | connectEstablished c =>
    exact enact_keeping (s := s.record c .established thread) owner freed ho hs
  | removeConnectionInLoop c =>
    obtain ⟨sv, ho', -⟩ := removeConnectionInLoop_ok hs
    cases ho.symm.trans ho'
  | connectDestroyed c =>
    exact enact_keeping (s := s.record c .destroyed thread) owner freed ho hs
  | writeCompleteCallback c =>
    cases hs
    exact ⟨ho, rfl⟩
  | sendInLoop c message =>
    obtain ⟨hf, hs⟩ := require_bind_ok.1 hs
    obtain ⟨ht, hk⟩ := enact_keeping owner freed ho hs
    exact ⟨ht, require_bind_ok.2 ⟨hfreed c hf, hk⟩⟩
  | shutdownInLoop c =>
    obtain ⟨hf, hs⟩ := require_bind_ok.1 hs
    obtain ⟨ht, hk⟩ := enact_keeping owner freed ho hs
    exact ⟨ht, require_bind_ok.2 ⟨hfreed c hf, hk⟩⟩

/-- Functors free no connection. -/
theorem runFunctor_freed {s t : Network} {thread : LoopId} {a : Answers} {f : Functor}
    (hs : s.runFunctor thread a f = .ok t) : t.freed = s.freed := by
  have henact : ∀ {u : Network} {e : Except TcpConnection.Failure (Ctx ConnId)},
      u.enact a.connect e = .ok t → t.freed = u.freed := fun h => by
    obtain ⟨y, rfl⟩ := enact_ok h
    exact (enact_extends h).freed
  cases f with
  | connectEstablished c => exact henact (u := s.record c .established thread) hs
  | removeConnectionInLoop c => exact (removeConnectionInLoop_extends hs).freed
  | connectDestroyed c => exact henact (u := s.record c .destroyed thread) hs
  | writeCompleteCallback c =>
    cases hs
    rfl
  | sendInLoop c message => exact henact (require_bind_ok.1 hs).2
  | shutdownInLoop c => exact henact (require_bind_ok.1 hs).2

/-- **Without its server a network goes on as with it**: every step is one of the network that has
kept its server, except that destructors may run which would have had to wait. -/
theorem Steps.keeping {s t : Network} {l : Label} (hs : s.Steps l t) (owner : Owner)
    {freed : ConnId → Bool} (hfreed : ∀ c, s.freed c = false → freed c = false)
    (ho : s.owner = .destroyed) :
    t.owner = .destroyed ∧ (∀ c, t.freed c = false → freed c = false) ∧
      ((s.keeping owner freed).Steps l (t.keeping owner freed) ∨
        t.keeping owner freed = s.keeping owner freed) := by
  have husable : ∀ {c}, s.Usable c → (s.keeping owner freed).Usable c :=
    fun hu => ⟨hu.1, hfreed _ hu.2⟩
  cases hs with
  -- the steps of an owner need one
  | newConnection ho' => cases ho.symm.trans ho'
  | destroyServer ho' => cases ho.symm.trans ho'
  | clientCall call ho' => cases ho.symm.trans ho'
  | startInLoop ho' => cases ho.symm.trans ho'
  | connectorEvent k ho' => cases ho.symm.trans ho'
  | connected ho' => cases ho.symm.trans ho'
  | poll hidle hnodup hwatch =>
    exact ⟨ho, hfreed, .inl (.poll (s := s.keeping owner freed) hidle hnodup hwatch)⟩
  | @handle loop a c hd rest t hq hlegal hfree ht =>
    obtain ⟨ht', hk⟩ := enact_keeping
      (s := { s with active := Function.update s.active loop rest }) owner freed ho ht
    obtain ⟨y, hy⟩ := enact_ok ht
    rw [hy] at ht
    refine ⟨ht', fun c hc => hfreed c ?_,
      .inl (.handle (s := s.keeping owner freed) hq hlegal (hfreed c hfree) hk)⟩
    rwa [(enact_extends ht).freed] at hc
  | @functor loop a f rest t hidle hq hlegal ht =>
    obtain ⟨ht', hk⟩ := runFunctor_keeping
      (s := { s with functors := Function.update s.functors loop rest }) owner hfreed ho ht
    refine ⟨ht', fun c hc => hfreed c ?_,
      .inl (.functor (s := s.keeping owner freed) hidle hq hlegal hk)⟩
    rwa [runFunctor_freed ht] at hc
  | send hu hlegal ht =>
    obtain ⟨ht', hk⟩ := enact_keeping owner freed ho ht
    obtain ⟨y, hy⟩ := enact_ok ht
    rw [hy] at ht
    refine ⟨ht', fun c hc => hfreed c ?_,
      .inl (.send (s := s.keeping owner freed) (husable hu) hlegal hk)⟩
    rwa [(enact_extends ht).freed] at hc
  | shutdown hu ht =>
    obtain ⟨ht', hk⟩ := enact_keeping owner freed ho ht
    obtain ⟨y, hy⟩ := enact_ok ht
    rw [hy] at ht
    refine ⟨ht', fun c hc => hfreed c ?_,
      .inl (.shutdown (s := s.keeping owner freed) (husable hu) hk)⟩
    rwa [(enact_extends ht).freed] at hc
  | foreignSend message hu hk =>
    exact ⟨ho, hfreed, .inl (.foreignSend (s := s.keeping owner freed) message (husable hu) hk)⟩
  | foreignShutdown hu hk =>
    exact ⟨ho, hfreed, .inl (.foreignShutdown (s := s.keeping owner freed) (husable hu) hk)⟩
  | proceedSend hu => exact ⟨ho, hfreed, .inl (.proceedSend (s := s.keeping owner freed) hu)⟩
  | proceedShutdown hu =>
    exact ⟨ho, hfreed, .inl (.proceedShutdown (s := s.keeping owner freed) hu)⟩
  | proceedShuttingDown hu =>
    exact ⟨ho, hfreed, .inl (.proceedShuttingDown (s := s.keeping owner freed) hu)⟩
  | hold hu => exact ⟨ho, hfreed, .inl (.hold (s := s.keeping owner freed) (husable hu))⟩
  | drop hpos => exact ⟨ho, hfreed, .inl (.drop (s := s.keeping owner freed) hpos)⟩
  -- the server that has been kept may own the connection, which is not freed there
  | @free c hu hown =>
    refine ⟨ho, fun c' hc' => hfreed c' ?_, .inr rfl⟩
    by_cases hcc : c' = c
    · rw [hcc]
      exact hu.2
    · exact (Function.update_of_ne hcc _ _).symm.trans hc'

/-! ### Whole runs -/

/-- The network is sound, or would be if its server had been kept. -/
structure Outlives (s : Network) : Prop where
  torn : s.Torn
  sound : s.Sound ∨ s.owner = .destroyed ∧ ∃ owner freed,
    (∀ c, s.freed c = false → freed c = false) ∧ (s.keeping owner freed).Sound

theorem Outlives.lt_accepted {s : Network} (h : s.Outlives) {c : ConnId}
    (hpos : 0 < s.times c .destroyed) : c < s.accepted := by
  rcases h.sound with hsound | ⟨-, owner, freed, -, hsound⟩
  · exact hsound.ledger.lt_accepted hpos
  · have hpos' : 0 < (s.keeping owner freed).times c .destroyed := hpos
    exact hsound.ledger.lt_accepted hpos'

theorem step_outlives {s t : Network} {l : Label} (h : s.Outlives) (hno : s.NoLateSend l)
    (hs : Moves step s l t) : t.Outlives := by
  have hsteps := step_cases hs
  rcases h.sound with hsound | ⟨ho, owner, freed, hfreed, hsound⟩
  · refine ⟨hsteps.torn h.torn hsound hno, ?_⟩
    by_cases hkeeps : s.Keeps l
    · exact .inl (hsteps.sound hsound hkeeps (hno.noRearm hsteps h.torn))
    -- from here on the network is compared with the one that keeps its server
    · cases hsteps with
      | destroyServer ho => exact .inr ⟨rfl, s.owner, s.freed, fun _ => id, hsound⟩
      | _ => exact absurd trivial hkeeps
  · obtain ⟨ho', hfreed', hkeeping | hkeeping⟩ := hsteps.keeping owner hfreed ho
    · have hno' : (s.keeping owner freed).NoLateSend l := by
        cases l <;> exact hno
      have hkeeps : (s.keeping owner freed).Keeps l := by
        cases hsteps with
        | destroyServer h' => cases ho.symm.trans h'
        | _ => trivial
      refine ⟨hkeeping.torn h.torn hsound hno', .inr ⟨ho', owner, freed, hfreed', ?_⟩⟩
      exact hkeeping.sound hsound hkeeps (hno'.noRearm hkeeping h.torn)
    · have htorn : (t.keeping owner freed).Torn := by
        rw [hkeeping]
        exact h.torn
      exact ⟨htorn, .inr ⟨ho', owner, freed, hfreed', by rwa [hkeeping]⟩⟩

theorem outlives_of_reach {s₀ s : Network} (h0 : s₀.Starts)
    (h : Reach (Moves step) NoLateSend s₀ s) : s.Outlives := by
  refine h.invariant (I := Outlives) ⟨fun c hc hd => ?_, .inl h0.invariant.1⟩
    fun x l y hx hl hy => step_outlives hx hl hy
  rcases h0 with ⟨name, loops, rfl⟩ | rfl <;> cases hd

/-- What is left of a connection that has been destroyed: no poller has its channel, and as long as
it exists its mark is `kNew`. -/
structure Gone (s : Network) (c : ConnId) : Prop where
  unmapped : ∀ l fd, (s.pollers l).channels_ fd ≠ some c
  unwatched : ∀ l fd events, (s.pollers l).interest fd ≠ some (events, c)
  index : s.freed c = false → (s.conns c).channel_.index_ = EPoller.kNew

theorem Sound.gone {s : Network} (h : s.Sound) {c : ConnId} (hpos : 0 < s.times c .destroyed) :
    s.Gone c := by
  have hc := h.ledger.lt_accepted hpos
  have hmap : ∀ l fd, (s.pollers l).channels_ fd ≠ some c := fun l fd hm =>
    absurd (h.wired.mapped l fd c hm).2.2.2.2 (Nat.ne_of_gt hpos)
  refine ⟨hmap, fun l fd events hw => hmap l fd (h.wired.watched l fd events c hw), fun hf => ?_⟩
  rcases h.wired.agrees c hc hf with ⟨hi, -⟩ | ⟨-, hm, -⟩ | ⟨-, hm, -⟩
  · exact hi
  · exact absurd hm (hmap _ _)
  · exact absurd hm (hmap _ _)

/-- **Nothing is sent or registered after teardown**: in every run in which no message is sent after
`connectDestroyed`, the channel of a connection that has been destroyed is off the poller and the
kernel's set, and no step of such a run calls `write` for its descriptor or adds to what the kernel
has accepted. -/
theorem teardown_final {s₀ s : Network} (h0 : s₀.Starts) (h : Reach (Moves step) NoLateSend s₀ s)
    {c : ConnId} (hpos : 0 < s.times c .destroyed) :
    s.Gone c ∧ ∀ l, s.NoLateSend l → s.writes l ≠ some c ∧
      ∀ t, Moves step s l t → (t.conns c).socket_.wire = (s.conns c).socket_.wire := by
  have hlives := outlives_of_reach h0 h
  have hc := hlives.lt_accepted hpos
  obtain ⟨htorn, hsound⟩ := hlives
  have hquiet : (∀ l, s.NoLateSend l → s.writes l ≠ some c) → ∀ l, s.NoLateSend l →
      s.writes l ≠ some c ∧
        ∀ t, Moves step s l t → (t.conns c).socket_.wire = (s.conns c).socket_.wire := by
    intro hw l hno
    refine ⟨hw l hno, fun t ht => ?_⟩
    by_contra hne
    exact hw l hno ((step_cases ht).writes_of_wire hc hne)
  rcases hsound with hsound | ⟨-, owner, freed, hfreed, hsound⟩
  · exact ⟨hsound.gone hpos, hquiet fun l hno => hsound.not_writes htorn hno hpos⟩
  · have hgone := hsound.gone (c := c) hpos
    refine ⟨⟨hgone.unmapped, hgone.unwatched, fun hf => hgone.index (hfreed c hf)⟩,
      hquiet fun l hno => ?_⟩
    have hno' : (s.keeping owner freed).NoLateSend l := by
      cases l <;> exact hno
    have hw := hsound.not_writes htorn hno' (c := c) hpos
    cases l <;> exact hw

/-- A member function that leaves its channel in the map. -/
theorem enact_mapped {s t : Network} {r : ConnectResult} {y : Ctx ConnId} {fd : ℕ}
    (hs : s.enact r (.ok y) = .ok t) (hm : y.poller.channels_ fd = some y.self) :
    (t.pollers y.conn.loop_).channels_ fd = some y.self := by
  rw [(enact_extends hs).pollers]
  show (Function.update s.pollers y.conn.loop_ y.poller y.conn.loop_).channels_ fd = _
  rw [Function.update_self]
  exact hm

/-- **The condition is exact**: the step that sends a message too late writes it to the descriptor,
or registers the channel. -/
theorem lateSend_breaks {s₀ s t : Network} (h0 : s₀.Starts)
    (h : Reach (Moves step) NoLateSend s₀ s) {l : Label} (hs : Moves step s l t) {c : ConnId}
    (hl : s.lateSend l = some c) : s.writes l = some c ∨ ¬ t.Gone c := by
  have hlives := outlives_of_reach h0 h
  cases step_cases hs with
  | @functor loop a f rest t hidle hq hlegal ht =>
    simp only [lateSend, hidle, hq] at hl
    cases f with
    | sendInLoop c' message =>
      rw [Option.ite_none_right_eq_some, Option.some.injEq] at hl
      obtain ⟨⟨hpos, hdoes⟩, rfl⟩ := hl
      by_cases hdirect : (s.ctx loop c').writesDirectly = true
      · left
        simp only [writes, hidle, hq]
        exact if_pos hdirect
      · right
        intro hgone
        obtain ⟨-, ht⟩ := require_bind_ok.1 ht
        obtain ⟨y, hy⟩ := enact_ok ht
        rw [hy] at ht
        have hlen : (s.ctx loop c').direct a.write < message.length := by
          rw [Ctx.direct, if_neg hdirect]
          exact List.length_pos_iff.2 (hdoes.resolve_left hdirect)
        have hw := (hlives.torn c' (hlives.lt_accepted hpos) hpos).writing
        -- the rest of the message sets write interest
        rcases Ctx.sendInLoop_cases hy with ⟨hall, -⟩ | ⟨-, hw', -⟩ | ⟨-, -, rfl⟩
        · exact absurd hlen (Nat.not_lt.2 hall)
        · cases hw.symm.trans hw'
        · have hm := enact_mapped ht (Ctx.updated_mapped _ _)
          have hself := (Ctx.afterWrite_frame (s.ctx loop c') message a.write).2.1
          exact hgone.unmapped _ _ (hm.trans (congrArg some hself))
    | _ => cases hl
  | _ => cases hl

/-! The peer closes a connection on the base loop, whose user has finished. -/

/-- The kernel accepts one byte. -/
def oneByte : Answers := ⟨.bytes [], .accepted 1, .connecting⟩

/-- The connection has been destroyed, and the user still has a pointer to it. -/
def tornDown : List Label :=
  [.newConnection 5 false, .hold 0, .foreignSend 0 [7], .proceed (.send 0 [7]),
    .functor baseLoop oneByte, .poll baseLoop [(0, POLLIN)],
    .handle baseLoop noAnswers, .functor baseLoop noAnswers]

theorem teardown_final_tornDown : ∃ s : Network, 0 < s.times 0 .destroyed ∧
    s.freed 0 = false ∧ s.Gone 0 ∧ ∀ l, s.NoLateSend l → s.writes l ≠ some 0 ∧
      ∀ t, Moves step s l t → (t.conns 0).socket_.wire = (s.conns 0).socket_.wire := by
  obtain ⟨s, hs, hp⟩ := exists_reach_of_run step NoLateSend (ofServer "0.0.0.0:2000" []) tornDown
    (fun s => 0 < s.times 0 .destroyed ∧ s.freed 0 = false) (by decide +kernel)
  obtain ⟨hpos, hfree⟩ := of_decide_eq_true hp
  obtain ⟨hgone, hw⟩ := teardown_final (.inl ⟨_, _, rfl⟩) hs hpos
  exact ⟨s, hpos, hfree, hgone, hw⟩

/-- Another thread sends two bytes while the peer closes. Its functor runs behind
`connectDestroyed`, writes one byte to the descriptor and registers the channel for the other. -/
theorem late_send : ∃ s t, Reach (Moves step) Always (ofServer "0.0.0.0:2000" []) s ∧
    0 < s.times 0 .destroyed ∧ s.freed 0 = false ∧
    s.writes (.functor baseLoop oneByte) = some 0 ∧ Moves step s (.functor baseLoop oneByte) t ∧
    (t.pollers baseLoop).channels_ 5 = some 0 ∧
    (t.conns 0).channel_.index_ = EPoller.kAdded := by
  obtain ⟨s, hs, hp⟩ := exists_reach_of_run step Always (ofServer "0.0.0.0:2000" [])
    [.newConnection 5 false, .hold 0, .foreignSend 0 [7, 8], .poll baseLoop [(0, POLLIN)],
      .handle baseLoop noAnswers, .proceed (.send 0 [7, 8]), .functor baseLoop noAnswers]
    (fun s => 0 < s.times 0 .destroyed ∧ s.freed 0 = false ∧
      s.writes (.functor baseLoop oneByte) = some 0 ∧
      succeeds step s (.functor baseLoop oneByte) = true ∧
      ((next step s (.functor baseLoop oneByte)).pollers baseLoop).channels_ 5 = some 0 ∧
      ((next step s (.functor baseLoop oneByte)).conns 0).channel_.index_ = EPoller.kAdded)
    (by decide +kernel)
  obtain ⟨hpos, hfree, hw, hok, hmap, hidx⟩ := of_decide_eq_true hp
  exact ⟨s, _, hs, hpos, hfree, hw, moves_next hok, hmap, hidx⟩

end Network

end Fppnet
