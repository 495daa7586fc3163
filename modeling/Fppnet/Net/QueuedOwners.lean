import Fppnet.Net.Batches

/-!
# Queued functors and the owners of their connections

`send` and `shutdown` queue functors that are bound to `this`. The server owns a connection until
`connectDestroyed` has run, so that such a functor has nothing to fear before; nor has one that
stands behind `connectDestroyed` in the same batch, as the local vector of `doPendingFunctors` keeps
the pointer of `connectDestroyed` to its end. In a later batch only a pointer that somebody else has
keeps the connection alive.

* `keepers` counts the pointers that users keep, `Outlasts` is the condition on a step: once
  `connectDestroyed` has run, users keep a pointer until the queued functors that are bound to
  `this` have been called;
* `queued_owned`: in a run whose steps meet it, every queued functor has a connection that has an
  owner, and that has not been freed;
* `outlasts_iff` says that the condition is exact, and `queued_freed` is a run without it;
* `queued_owned_of_holds`: it is enough that a user who sends from another thread holds a pointer.

The invariant is `Books` with `Backed`.
-/

namespace Fppnet

open Checked Runs TcpConnection

namespace Network

/-! ### What a step of the network does to the pointers -/

/-- A functor that is bound to `this` is queued for the connection. -/
def Waits (s : Network) (c : ConnId) : Prop :=
  ∃ l ∈ s.loops, ∃ f ∈ s.functors l, f.owns = none ∧ f.conn = c

instance (s : Network) (c : ConnId) : Decidable (s.Waits c) :=
  inferInstanceAs (Decidable (∃ l ∈ s.loops, ∃ f ∈ s.functors l, _))

/-- A queued functor is bound to a pointer to the connection. -/
def Bound (s : Network) (c : ConnId) : Prop :=
  ∃ l ∈ s.loops, ∃ f ∈ s.functors l, f.owns = some c

instance (s : Network) (c : ConnId) : Decidable (s.Bound c) :=
  inferInstanceAs (Decidable (∃ l ∈ s.loops, ∃ f ∈ s.functors l, _))

/-- How many pointers users keep: those that they hold, and one for each of their calls. -/
def keepers (s : Network) (c : ConnId) : ℕ := s.held c + s.calls.countP fun u => u.conn = c

/-- Somebody other than the owner has a pointer to the connection: a queued functor or a user. -/
def Shared (s : Network) (c : ConnId) : Prop :=
  s.Bound c ∨ 0 < s.held c ∨ ∃ u ∈ s.calls, u.conn = c

instance (s : Network) (c : ConnId) : Decidable (s.Shared c) :=
  inferInstanceAs (Decidable (_ ∨ _ ∨ _))

theorem shared_iff {s : Network} {c : ConnId} : s.Shared c ↔ 0 < s.keepers c ∨ s.Bound c := by
  have hcalls : 0 < s.calls.countP (fun u => u.conn = c) ↔ ∃ u ∈ s.calls, u.conn = c := by
    simp only [List.countP_pos_iff, decide_eq_true_eq]
  rw [Shared, keepers, Nat.add_pos_iff_pos_or_pos, hcalls]
  exact or_comm

/-- A user gives up a pointer. Once `connectDestroyed` has run, users keep another one until the
functors that are bound to `this` have been called (`send` and `shutdown` give up theirs when they
have queued one), or a functor has one (`kept` are the connections with pointers outside the
network). -/
def Spares (s : Network) (kept : ConnId → Prop) : Label → Prop
  | .drop c => 0 < s.times c .destroyed → s.Waits c → 1 < s.keepers c ∨ s.Bound c ∨ kept c
  | .proceed (.send c _) | .proceed (.shuttingDown c) =>
    0 < s.times c .destroyed → 1 < s.keepers c ∨ s.Bound c ∨ kept c
  | _ => True

instance (s : Network) (kept : ConnId → Prop) [DecidablePred kept] (l : Label) :
    Decidable (s.Spares kept l) :=
  match l with
  | .drop c => inferInstanceAs (Decidable (0 < s.times c .destroyed → s.Waits c → _ ∨ _ ∨ kept c))
  | .proceed (.send c _) | .proceed (.shuttingDown c) =>
    inferInstanceAs (Decidable (0 < s.times c .destroyed → _ ∨ _ ∨ kept c))
  | .proceed (.shutdown _) | .newConnection .. | .destroyServer | .clientCall _ | .startInLoop _
  | .connectorEvent _ | .poll .. | .handle .. | .functor .. | .send .. | .shutdown ..
  | .foreignSend .. | .foreignShutdown _ | .hold _ | .free _ => isTrue trivial

/-- A user who has given up a pointer keeps one less. -/
theorem keepers_drop {s : Network} {c : ConnId} (h : 0 < s.held c) :
    keepers { s with held := Function.update s.held c (s.held c - 1) } c + 1 = s.keepers c := by
  have hself : Function.update s.held c (s.held c - 1) c = s.held c - 1 := Function.update_self ..
  simp only [keepers, hself]
  omega

theorem keepers_erase {s : Network} {u : UserCall} (h : u ∈ s.calls) (loop : LoopId)
    (f : Functor) :
    (queueInLoop { s with calls := s.calls.erase u } loop f).keepers u.conn + 1 =
      s.keepers u.conn := by
  have hperm := (List.perm_cons_erase h).countP_eq fun v => decide (v.conn = u.conn)
  rw [List.countP_cons, if_pos (decide_eq_true rfl)] at hperm
  unfold keepers
  rw [hperm, ← Nat.add_assoc]
  rfl

/-- Queueing a functor that is bound to `this` adds no pointer. -/
theorem bound_queueInLoop {s : Network} {loop : LoopId} {f : Functor} (howns : f.owns = none)
    {c : ConnId} : (s.queueInLoop loop f).Bound c ↔ s.Bound c := by
  constructor
  · rintro ⟨l, hl, g, hg, hc⟩
    rcases mem_queueInLoop.1 hg with hg | ⟨-, rfl⟩
    · exact ⟨l, hl, g, hg, hc⟩
    · rw [howns] at hc
      cases hc
  · rintro ⟨l, hl, g, hg, hc⟩
    exact ⟨l, hl, g, mem_queueInLoop.2 (.inl hg), hc⟩

/-! ### The invariant -/

/-- Queued functors of destroyed connections have a pointer of somebody else (`kept` are the
connections with pointers outside the network), and freed connections have neither functors nor
calls. -/
structure Backed (s : Network) (kept : ConnId → Prop) : Prop where
  shared : ∀ c, 0 < s.times c .destroyed → s.Waits c → s.Shared c ∨ kept c
  freed : ∀ c, s.freed c = true → ¬ s.Waits c ∧ ∀ u ∈ s.calls, u.conn ≠ c

section Invariant

variable {kept : ConnId → Prop}

theorem Extends.waits {s t : Network} (h : s.Extends t) {c : ConnId} (hw : t.Waits c) :
    s.Waits c := by
  obtain ⟨l, hl, f, hf, howns, hc⟩ := hw
  obtain ⟨fs, hfs, hnew⟩ := h.functors l
  rw [hfs] at hf
  refine ⟨l, by rwa [← h.loops], f, (List.mem_append.1 hf).resolve_right fun hm => ?_, howns, hc⟩
  exact hnew f hm howns

theorem Extends.shared {s t : Network} (h : s.Extends t) {c : ConnId} (hs : s.Shared c) :
    t.Shared c := by
  rcases hs with ⟨l, hl, f, hf, howns⟩ | hheld | ⟨u, hu, hc⟩
  · obtain ⟨fs, hfs, -⟩ := h.functors l
    exact .inl ⟨l, by rwa [h.loops], f, by rw [hfs]; exact List.mem_append_left _ hf, howns⟩
  · exact .inr (.inl (by rwa [h.held]))
  · exact .inr (.inr ⟨u, by rwa [h.calls], hc⟩)

theorem Backed.mono {s : Network} (h : s.Backed kept) {kept' : ConnId → Prop}
    (hk : ∀ c, kept c → kept' c) : s.Backed kept' :=
  ⟨fun c hd hw => (h.shared c hd hw).imp_right (hk c), h.freed⟩

theorem Backed.of_extends {s t : Network} (h : s.Backed kept) (he : s.Extends t) :
    t.Backed kept := by
  refine ⟨fun c hd hw => ?_, fun c hf => ?_⟩
  · rw [(he.times c).2] at hd
    exact (h.shared c hd (he.waits hw)).imp_left he.shared
  · rw [he.freed] at hf
    obtain ⟨hw, hu⟩ := h.freed c hf
    exact ⟨fun hw' => hw (he.waits hw'), by rw [he.calls]; exact hu⟩

/-- A member function gives up no pointer. -/
theorem Backed.enact {s t : Network} (h : s.Backed kept) {r : ConnectResult}
    {e : Except TcpConnection.Failure (Ctx ConnId)} (hs : s.enact r e = .ok t) :
    t.Backed kept := by
  obtain ⟨y, rfl⟩ := enact_ok hs
  have hput : (s.put y).Backed kept := ⟨h.shared, h.freed⟩
  exact hput.of_extends (enact_extends hs)

/-- A function of the life of a connection is recorded. -/
theorem Backed.record {s : Network} (h : s.Backed kept) (c : ConnId) (life : Life)
    (thread : LoopId) (hc : life = .destroyed → kept c) : (s.record c life thread).Backed kept := by
  refine ⟨fun c' hd hw => ?_, h.freed⟩
  change s.Waits c' at hw
  show s.Shared c' ∨ kept c'
  rw [times_record] at hd
  by_cases hh : c' = c ∧ life = .destroyed
  · rw [hh.1]
    exact .inr (hc hh.2)
  · rw [if_neg hh, Nat.add_zero] at hd
    exact h.shared c' hd hw

/-! ### Functors -/

/-- Taking out a functor takes its own pointer only. -/
theorem Shared.pop {s : Network} {c : ConnId} (h : s.Shared c) {loop : LoopId} {f : Functor}
    {rest : List Functor} (hq : s.functors loop = f :: rest) (hne : f.owns ≠ some c) :
    Shared { s with functors := Function.update s.functors loop rest } c := by
  rcases h with ⟨l, hl, g, hg, howns⟩ | h
  · refine .inl ⟨l, hl, g, ?_, howns⟩
    show g ∈ Function.update s.functors loop rest l
    by_cases hll : l = loop
    · rw [hll, Function.update_self]
      rw [hll, hq] at hg
      refine (List.mem_cons.1 hg).resolve_left fun hgf => hne ?_
      rw [← hgf]
      exact howns
    · rwa [Function.update_of_ne hll]
  · exact .inr h

theorem Waits.of_pop {s : Network} {c : ConnId} {loop : LoopId} {f : Functor} {rest : List Functor}
    (hq : s.functors loop = f :: rest)
    (h : Waits { s with functors := Function.update s.functors loop rest } c) : s.Waits c := by
  obtain ⟨l, hl, g, hg, hrest⟩ := h
  exact ⟨l, hl, g, mem_of_pop hq hg, hrest⟩

/-- A functor is taken out of its queue and runs. The local vector keeps its pointer. -/
theorem functor_backed {s t : Network} (h : s.Backed kept) {loop : LoopId} {a : Answers}
    {f : Functor} {rest : List Functor} (hq : s.functors loop = f :: rest)
    (hs : runFunctor { s with functors := Function.update s.functors loop rest } loop a f =
      .ok t) : t.Backed fun c => kept c ∨ f.owns = some c := by
  set s' : Network := { s with functors := Function.update s.functors loop rest } with hs'
  have h' : s'.Backed fun c => kept c ∨ f.owns = some c := by
    refine ⟨fun c hd hw => ?_, fun c hf => ?_⟩
    · by_cases hne : f.owns = some c
      · exact .inr (.inr hne)
      · exact (h.shared c hd (hw.of_pop hq)).imp (fun hs => hs.pop hq hne) .inl
    · exact ⟨fun hw => (h.freed c hf).1 (hw.of_pop hq), (h.freed c hf).2⟩
  cases f with
  | connectEstablished c =>
    exact (h'.record c .established loop (by rintro ⟨⟩)).enact hs
  | removeConnectionInLoop c => exact h'.of_extends (removeConnectionInLoop_extends hs)
  -- from here on the connection counts as destroyed
  | connectDestroyed c =>
    exact (h'.record c .destroyed loop fun _ => .inr rfl).enact hs
  | writeCompleteCallback c =>
    have ht : s' = t := Except.ok.inj hs
    exact ht ▸ h'
  | sendInLoop c message => exact h'.enact (require_bind_ok.1 hs).2
  | shutdownInLoop c => exact h'.enact (require_bind_ok.1 hs).2

/-! ### The steps -/

/-- A connection with a queued functor that is bound to `this` has an owner. -/
theorem Backed.owned {s : Network} (h : s.Backed kept) (hb : s.Books) {c : ConnId}
    (hc : c < s.accepted) (hw : s.Waits c) : s.Owned c ∨ kept c := by
  by_cases hown : s.Owned c
  · exact .inl hown
  · have hd := hb.ledger.destroyed_of_unowned hc hown
    exact (h.shared c hd hw).imp_left .inr

/-- A functor that is bound to `this` has been queued. -/
theorem waits_queueInLoop {s : Network} {loop : LoopId} {f : Functor} (hl : loop ∈ s.loops)
    (howns : f.owns = none) : (s.queueInLoop loop f).Waits f.conn :=
  ⟨loop, hl, f, mem_queueInLoop.2 (.inr ⟨rfl, rfl⟩), howns, rfl⟩

/-- A call of another thread begins. -/
theorem Backed.addCall {s : Network} (h : s.Backed kept) {u : UserCall}
    (hfree : s.freed u.conn = false) : Backed { s with calls := u :: s.calls } kept := by
  refine ⟨fun c hd hw => ?_, fun c hf => ⟨(h.freed c hf).1, List.forall_mem_cons.2 ⟨?_, ?_⟩⟩⟩
  · refine (h.shared c hd hw).imp_left ?_
    rintro (hq | hheld | ⟨v, hv, hc⟩)
    · exact .inl hq
    · exact .inr (.inl hheld)
    · exact .inr (.inr ⟨v, List.mem_cons_of_mem _ hv, hc⟩)
  · rintro rfl
    rw [hfree] at hf
    cases hf
  · exact (h.freed c hf).2

/-- A call of another thread ends and queues its functor. -/
theorem Backed.endCall {s : Network} (h : s.Backed kept) {u : UserCall} (hu : u ∈ s.calls)
    {loop : LoopId} {f : Functor} (hf : f.conn = u.conn)
    (howns : f.owns = none)
    (hlast : 0 < s.times u.conn .destroyed →
      1 < s.keepers u.conn ∨ s.Bound u.conn ∨ kept u.conn) :
    (queueInLoop { s with calls := s.calls.erase u } loop f).Backed kept := by
  have hwaits : ∀ c, c ≠ u.conn →
      (queueInLoop { s with calls := s.calls.erase u } loop f).Waits c → s.Waits c := by
    rintro c hne ⟨l, hl, g, hg, howns, hc⟩
    rcases mem_queueInLoop.1 hg with hg | ⟨-, rfl⟩
    · exact ⟨l, hl, g, hg, howns, hc⟩
    · exact absurd (hc.symm.trans hf) hne
  refine ⟨fun c hd hw => ?_, fun c hfr => ?_⟩
  · by_cases hc : c = u.conn
    · subst hc
      have hkeep := keepers_erase hu loop f
      rcases hlast hd with hmore | hbound | hkept
      · exact .inl (shared_iff.2 (.inl (by omega)))
      · exact .inl (shared_iff.2 (.inr ((bound_queueInLoop howns).2 hbound)))
      · exact .inr hkept
    · refine (h.shared c hd (hwaits c hc hw)).imp_left ?_
      rintro (⟨l, hl, g, hg, howns⟩ | hheld | ⟨v, hv, hvc⟩)
      · exact .inl ⟨l, hl, g, mem_queueInLoop.2 (.inl hg), howns⟩
      · exact .inr (.inl hheld)
      · refine .inr (.inr ⟨v, (List.mem_erase_of_ne ?_).2 hv, hvc⟩)
        rintro rfl
        exact hc hvc.symm
  · obtain ⟨hw, hcalls⟩ := h.freed c hfr
    exact ⟨fun hw' => hw (hwaits c (fun hc => hcalls u hu hc.symm) hw'),
      fun v hv => hcalls v (List.mem_of_mem_erase hv)⟩

/-- `shutdown` sets the state and goes on. -/
theorem Backed.shuttingDown {s : Network} (h : s.Backed kept) {c : ConnId}
    (hu : .shutdown c ∈ s.calls) : Backed { s with
      conns := Function.update s.conns c { s.conns c with state_ := .kDisconnecting }
      calls := .shuttingDown c :: s.calls.erase (.shutdown c) } kept := by
  refine ⟨fun c' hd hw => ?_, fun c' hf => ?_⟩
  · refine (h.shared c' hd hw).imp_left ?_
    rintro (hq | hheld | ⟨v, hv, hvc⟩)
    · exact .inl hq
    · exact .inr (.inl hheld)
    · -- the call that goes on keeps its pointer
      refine .inr (.inr ?_)
      by_cases hve : v = .shutdown c
      · refine ⟨.shuttingDown c, List.mem_cons_self .., ?_⟩
        rw [hve] at hvc
        exact hvc
      · exact ⟨v, List.mem_cons_of_mem _ ((List.mem_erase_of_ne hve).2 hv), hvc⟩
  · obtain ⟨hw, hcalls⟩ := h.freed c' hf
    have hne : (UserCall.shutdown c).conn ≠ c' := hcalls _ hu
    exact ⟨hw, List.forall_mem_cons.2 ⟨hne, fun v hv => hcalls v (List.mem_of_mem_erase hv)⟩⟩

/-- The user takes one more pointer. -/
theorem Backed.hold {s : Network} (h : s.Backed kept) (c : ConnId) :
    Backed { s with held := Function.update s.held c (s.held c + 1) } kept := by
  refine ⟨fun c' hd hw => (h.shared c' hd hw).imp_left ?_, h.freed⟩
  rintro (hq | hheld | hcall)
  · exact .inl hq
  · refine .inr (.inl (hheld.trans_le ?_))
    show s.held c' ≤ Function.update s.held c (s.held c + 1) c'
    by_cases hcc : c' = c
    · rw [hcc, Function.update_self]
      exact Nat.le_succ _
    · rw [Function.update_of_ne hcc]
  · exact .inr (.inr hcall)

/-- The user gives up a pointer. -/
theorem Backed.drop {s : Network} (h : s.Backed kept) {c : ConnId} (hpos : 0 < s.held c)
    (hlast : 0 < s.times c .destroyed → s.Waits c → 1 < s.keepers c ∨ s.Bound c ∨ kept c) :
    Backed { s with held := Function.update s.held c (s.held c - 1) } kept := by
  refine ⟨fun c' hd hw => ?_, h.freed⟩
  by_cases hcc : c' = c
  · subst hcc
    have hkeep := keepers_drop hpos
    rcases hlast hd hw with hmore | hbound | hkept
    · exact .inl (shared_iff.2 (.inl (by omega)))
    · exact .inl (.inl hbound)
    · exact .inr hkept
  · refine (h.shared c' hd hw).imp_left ?_
    rintro (hq | hheld | hcall)
    · exact .inl hq
    · refine .inr (.inl ?_)
      show 0 < Function.update s.held c (s.held c - 1) c'
      rwa [Function.update_of_ne hcc]
    · exact .inr (.inr hcall)

/-- A connection without an owner is freed. -/
theorem Backed.free {s : Network} (h : s.Backed kept) (hb : s.Books) {c : ConnId}
    (hc : c < s.accepted) (hown : ¬ s.Owned c) (hkept : ¬ kept c) :
    Backed { s with freed := Function.update s.freed c true } kept := by
  refine ⟨h.shared, fun c' hf => ?_⟩
  by_cases hcc : c' = c
  · -- a queued functor or a call would give the connection an owner
    subst hcc
    exact ⟨fun hw => (h.owned hb hc hw).elim hown hkept, fun u hu huc =>
      hown (.inr (.inr (.inr ⟨u, hu, huc⟩)))⟩
  · exact h.freed c' ((Function.update_of_ne hcc _ _).symm.trans hf)

/-- A new connection, whose `connectEstablished` runs or is queued. -/
theorem newConnection_backed {s t : Network} {sv : TcpServer} {sockfd : ℕ} {wc : Bool}
    (h : s.Backed kept) (hs : s.serverNewConnection sv sockfd wc = .ok t) : t.Backed kept := by
  have h₀ : (s.serverCreate sv sockfd wc).Backed kept := ⟨h.shared, h.freed⟩
  obtain ⟨-, hs⟩ := require_bind_ok.1 hs
  by_cases hio : sv.threadPool_.getNextLoop.1 = baseLoop
  · rw [if_pos hio] at hs
    exact (h₀.record s.accepted .established baseLoop (by rintro ⟨⟩)).enact hs
  · rw [if_neg hio] at hs
    cases hs
    exact h₀.of_extends (.queueInLoop _ _ (by rintro ⟨⟩))

/-- A step that calls no functor. -/
theorem Steps.backed {s t : Network} {l : Label} (hs : s.Steps l t) (h : s.Backed kept)
    (hb : s.Books) (hcall : ∀ loop a, l ≠ .functor loop a) (hfree : ∀ c, l = .free c → ¬ kept c)
    (hlast : s.Spares kept l) : t.Backed kept := by
  cases hs with
  | newConnection ho hfd ht => exact newConnection_backed h ht
  | @connected cl sockfd peerAddr wc t ho hst hfd ht =>
    obtain ⟨-, ht⟩ := require_bind_ok.1 ht
    have h₀ : (s.clientCreate { cl with connector_ := { cl.connector_ with state_ := .kConnected } }
      sockfd peerAddr wc).Backed kept := ⟨h.shared, h.freed⟩
    exact (h₀.record s.accepted .established baseLoop (by rintro ⟨⟩)).enact ht
  | @handle loop a c hd rest t hq hlegal hfree ht =>
    have h₀ : Backed { s with active := Function.update s.active loop rest } kept :=
      ⟨h.shared, h.freed⟩
    exact h₀.enact ht
  | functor hidle hq hlegal ht => exact absurd rfl (hcall _ _)
  | send hu hlegal ht => exact h.enact ht
  | shutdown hu ht => exact h.enact ht
  | foreignSend message hu hk => exact h.addCall hu.2
  | foreignShutdown hu hk => exact h.addCall hu.2
  | proceedSend hu => exact h.endCall hu rfl rfl hlast
  | proceedShutdown hu => exact h.shuttingDown hu
  | proceedShuttingDown hu => exact h.endCall hu rfl rfl hlast
  | hold hu => exact h.hold _
  | drop hpos => exact h.drop hpos hlast
  | @free c hu hown => exact h.free hb hu.1 hown (hfree c rfl)
  -- the owner, and what `poll` finds
  | _ => exact ⟨h.shared, h.freed⟩

end Invariant

/-! ### Users who hold a pointer -/

/-- A user holds a pointer when `send` or `shutdown` on another thread queues its functor, and gives
up the last one only when no such functor waits. -/
def Holds (s : Network) : Label → Prop
  | .drop c => s.Waits c → 1 < s.held c
  | .proceed (.send c _) | .proceed (.shuttingDown c) => 0 < s.held c
  | _ => True

instance (s : Network) (l : Label) : Decidable (s.Holds l) :=
  match l with
  | .drop c => inferInstanceAs (Decidable (s.Waits c → 1 < s.held c))
  | .proceed (.send c _) | .proceed (.shuttingDown c) => inferInstanceAs (Decidable (0 < s.held c))
  | .proceed (.shutdown _) | .newConnection .. | .destroyServer | .clientCall _ | .startInLoop _
  | .connectorEvent _ | .poll .. | .handle .. | .functor .. | .send .. | .shutdown ..
  | .foreignSend .. | .foreignShutdown _ | .hold _ | .free _ => isTrue trivial

/-- Users hold pointers to the connections that functors wait for. -/
def Held (s : Network) : Prop := ∀ c, s.Waits c → 0 < s.held c

theorem Held.of_extends {s t : Network} (h : s.Held) (he : s.Extends t) : t.Held := by
  intro c hw
  rw [he.held]
  exact h c (he.waits hw)

theorem Held.enact {s t : Network} (h : s.Held) {r : ConnectResult}
    {e : Except TcpConnection.Failure (Ctx ConnId)} (hs : s.enact r e = .ok t) : t.Held := by
  obtain ⟨y, rfl⟩ := enact_ok hs
  have hput : (s.put y).Held := h
  exact hput.of_extends (enact_extends hs)

theorem Held.queueInLoop {s : Network} (h : s.Held) {calls : List UserCall} {loop : LoopId}
    {f : Functor} (hpos : 0 < s.held f.conn) :
    (Network.queueInLoop { s with calls := calls } loop f).Held := by
  rintro c ⟨l, hl, g, hg, howns, rfl⟩
  rcases mem_queueInLoop.1 hg with hg | ⟨-, rfl⟩
  · exact h _ ⟨l, hl, g, hg, howns, rfl⟩
  · exact hpos

theorem functor_held {s t : Network} (h : s.Held) {loop : LoopId} {a : Answers} {f : Functor}
    {rest : List Functor} (hq : s.functors loop = f :: rest)
    (hs : runFunctor { s with functors := Function.update s.functors loop rest } loop a f =
      .ok t) : t.Held := by
  set s' : Network := { s with functors := Function.update s.functors loop rest } with hs'
  have h' : s'.Held := fun c hw => h c (hw.of_pop hq)
  have hrecord : ∀ c life, (s'.record c life loop).Held := fun _ _ => h'
  cases f with
  | connectEstablished c => exact (hrecord c _).enact hs
  | removeConnectionInLoop c => exact h'.of_extends (removeConnectionInLoop_extends hs)
  | connectDestroyed c => exact (hrecord c _).enact hs
  | writeCompleteCallback c =>
    have ht : s' = t := Except.ok.inj hs
    exact ht ▸ h'
  | sendInLoop c message => exact h'.enact (require_bind_ok.1 hs).2
  | shutdownInLoop c => exact h'.enact (require_bind_ok.1 hs).2

theorem Steps.held {s t : Network} {l : Label} (hs : s.Steps l t) (h : s.Held) (hl : s.Holds l) :
    t.Held := by
  cases hs with
  | @newConnection sv sockfd wc t ho hfd ht =>
    have h₀ : (s.serverCreate sv sockfd wc).Held := h
    obtain ⟨-, ht⟩ := require_bind_ok.1 ht
    by_cases hio : sv.threadPool_.getNextLoop.1 = baseLoop
    · rw [if_pos hio] at ht
      have h₁ : ((s.serverCreate sv sockfd wc).record s.accepted .established baseLoop).Held := h
      exact h₁.enact ht
    · rw [if_neg hio] at ht
      cases ht
      exact h₀.of_extends (.queueInLoop _ _ (by rintro ⟨⟩))
  | @connected cl sockfd peerAddr wc t ho hst hfd ht =>
    obtain ⟨-, ht⟩ := require_bind_ok.1 ht
    have h₀ : ((s.clientCreate
      { cl with connector_ := { cl.connector_ with state_ := .kConnected } } sockfd peerAddr
        wc).record s.accepted .established baseLoop).Held := h
    exact h₀.enact ht
  | @handle loop a c hd rest t hq hlegal hfree ht =>
    have h₀ : Held { s with active := Function.update s.active loop rest } := h
    exact h₀.enact ht
  | functor hidle hq hlegal ht => exact functor_held h hq ht
  | send hu hlegal ht => exact h.enact ht
  | shutdown hu ht => exact h.enact ht
  | proceedSend hu => exact h.queueInLoop hl
  | proceedShuttingDown hu => exact h.queueInLoop hl
  | hold hu =>
    intro c' hw
    refine (h c' hw).trans_le ?_
    simp only [Function.update_apply]
    split_ifs with hcc
    · rw [hcc]
      exact Nat.le_succ _
    · exact le_refl _
  | drop hpos =>
    intro c' hw
    simp only [Function.update_apply]
    split_ifs with hcc
    · subst hcc
      have := hl hw
      omega
    · exact h c' hw
  | _ => exact h

end Network

namespace Batches

/-! ### The condition -/

/-- Somebody other than the owner has a pointer to the connection. -/
def Shared (s : Batches) (c : ConnId) : Prop := s.net.Shared c ∨ s.Called c

instance (s : Batches) (c : ConnId) : Decidable (s.Shared c) :=
  inferInstanceAs (Decidable (_ ∨ _))

/-- The server is not destroyed while it has connections. -/
def Keeps (s : Batches) : Label → Prop
  | .net l => s.net.Keeps l
  | _ => True

instance (s : Batches) (l : Label) : Decidable (s.Keeps l) :=
  match l with
  | .net l => inferInstanceAs (Decidable (s.net.Keeps l))
  | .swap _ | .finish _ => isTrue trivial

/-- Users keep a pointer to a connection whose `connectDestroyed` has run until the functors that
are bound to `this` have been called: at the end of a batch, which gives up its pointers, they keep
one, and otherwise one more than they give up; or a functor has a pointer, one that is queued or
that has been called in a batch that goes on. -/
def Outlasts (s : Batches) : Label → Prop
  | .swap _ => True
  | .finish loop => ∀ p ∈ s.called, p.1 = loop → ∀ c ∈ p.2.owns,
      0 < s.net.times c .destroyed → s.net.Waits c →
        0 < s.net.keepers c ∨ s.net.Bound c ∨ ∃ q ∈ s.called, q.1 ≠ loop ∧ q.2.owns = some c
  | .net l => s.net.Spares s.Called l

instance (s : Batches) (l : Label) : Decidable (s.Outlasts l) :=
  match l with
  | .swap _ => isTrue trivial
  | .finish _ => inferInstanceAs (Decidable (∀ p ∈ s.called, _))
  | .net l => inferInstanceAs (Decidable (s.net.Spares s.Called l))

/-! ### The invariant of batches -/

/-- The invariant, with the local vectors. -/
def Backed (s : Batches) : Prop := s.net.Backed s.Called

theorem Steps.backed {s t : Batches} {l : Label} (hs : s.Steps l t) (h : s.Backed)
    (hb : s.net.Books) (hlast : s.Outlasts l) : t.Backed := by
  cases hs with
  | swap hidle hl => exact h
  | @finish loop hl =>
    refine ⟨fun c hd hw => ?_, h.freed⟩
    rcases h.shared c hd hw with hshared | ⟨p, hp, howns⟩
    · exact .inl hshared
    · by_cases hloop : p.1 = loop
      · rcases hlast p hp hloop c howns hd hw with hkeep | hbound | ⟨q, hq, hother, hqc⟩
        · exact .inl (Network.shared_iff.2 (.inl hkeep))
        · exact .inl (.inl hbound)
        · exact .inr ⟨q, List.mem_filter.2 ⟨hq, decide_eq_true hother⟩, hqc⟩
      · exact .inr ⟨p, List.mem_filter.2 ⟨hp, decide_eq_true hloop⟩, howns⟩
  | @net l t ha ht =>
    unfold Backed
    rw [advance_net]
    have hn := Network.step_cases ht
    by_cases hcall : ∃ loop a, l = .functor loop a
    · obtain ⟨loop, a, rfl⟩ := hcall
      cases hn with
      | functor hidle hq hlegal ht =>
        refine (Network.functor_backed h hq ht).mono fun c hc => ?_
        exact hc.elim (fun hc => hc.advance _ _) fun howns => called_functor hq howns _
    · have hnet : t.Backed s.Called := by
        refine hn.backed h hb (fun loop a hl => hcall ⟨loop, a, hl⟩) ?_ hlast
        rintro c rfl
        exact ha
      exact hnet.mono fun c hc => hc.advance t l

/-! ### Whole runs -/

/-- Every queued functor that is bound to `this`, also in a batch, has a connection that has an
owner and has not been freed. -/
def QueuedOwned (s : Batches) : Prop :=
  ∀ l, ∀ f ∈ s.net.functors l, f.owns = none → s.Owned f.conn ∧ s.net.freed f.conn = false

/-- A functor that is bound to `this` is in the queue of a loop. -/
theorem waits_of_queued {s : Network} (hb : s.Books) {l : LoopId} {f : Functor}
    (hf : f ∈ s.functors l) (howns : f.owns = none) : f.conn < s.accepted ∧ s.Waits f.conn := by
  obtain ⟨hc, hl, -⟩ := hb.ledger.placed l f hf
  refine ⟨hc, l, ?_, f, hf, howns, rfl⟩
  cases f with
  | sendInLoop c message =>
    rw [hl]
    exact hb.ledger.loops.2 c hc
  | shutdownInLoop c =>
    rw [hl]
    exact hb.ledger.loops.2 c hc
  | _ => cases howns

theorem Backed.queuedOwned {s : Batches} (h : s.Backed) (hb : s.net.Books) : s.QueuedOwned := by
  intro l f hf howns
  obtain ⟨hc, hw⟩ := waits_of_queued hb hf howns
  refine ⟨Network.Backed.owned h hb hc hw, ?_⟩
  by_contra hfree
  exact (h.freed _ (Bool.not_eq_false _ ▸ hfree)).1 hw

/-- A run of batches is a run of the network, which keeps its books. -/
theorem books_of_reach {s₀ : Network} {s : Batches} (h0 : s₀.Starts)
    (h : Reach (Moves step) Keeps (ofNetwork s₀) s) : s.net.Books := by
  have hnet : Reach (Moves Network.step) Network.Keeps s₀ s.net := reach_net h fun x l hk => hk
  exact hnet.invariant h0.invariant.1.books fun x l y hx hk hy =>
    (Network.step_cases hy).books hx hk

theorem backed_of_reach {s₀ : Network} {s : Batches} (h0 : s₀.Starts)
    (h : Reach (Moves step) (fun s l => s.Keeps l ∧ s.Outlasts l) (ofNetwork s₀) s) :
    s.Backed := by
  have hstart : (ofNetwork s₀).Backed := by
    refine ⟨fun c hd => ?_, fun c hf => ?_⟩ <;> rcases h0 with ⟨name, loops, rfl⟩ | rfl
    · cases hd
    · cases hd
    · cases hf
    · cases hf
  refine (h.invariant (I := fun x => Reach (Moves step) Keeps (ofNetwork s₀) x ∧ x.Backed)
    ⟨.refl, hstart⟩ fun x l y hx hl hy => ?_).2
  exact ⟨hx.1.tail hl.1 hy, (step_cases hy).backed hx.2 (books_of_reach h0 hx.1) hl.2⟩

theorem queuedOwned_of_reach {s₀ : Network} {s : Batches} (h0 : s₀.Starts)
    (h : Reach (Moves step) (fun s l => s.Keeps l ∧ s.Outlasts l) (ofNetwork s₀) s) :
    s.QueuedOwned := by
  have hb := books_of_reach h0 (h.mono fun x l hl => hl.1)
  exact (backed_of_reach h0 h).queuedOwned hb

/-- **Queued work has a live connection**: in every run in which users keep a pointer to a
connection whose `connectDestroyed` has run until the functors that wait for it have been called,
every queued `sendInLoop` and `shutdownInLoop` has a connection with an owner, which has not been
freed. -/
theorem queued_owned {s₀ : Network} {s : Batches} (h0 : s₀.Starts)
    (h : Reach (Moves step) (fun s l => s.Keeps l ∧ s.Outlasts l) (ofNetwork s₀) s) :
    s.QueuedOwned :=
  queuedOwned_of_reach h0 h

/-! The peer closes a connection on the base loop while another thread sends. The batch with
`connectDestroyed` has begun when the functor of the `send` is queued. -/

/-- The user keeps a pointer, and the batch has ended. -/
def keptPointer : List Label :=
  [.net (.newConnection 5 false), .net (.hold 0), .net (.foreignSend 0 [7]),
    .net (.poll baseLoop [(0, POLLIN)]), .net (.handle baseLoop Network.noAnswers),
    .swap baseLoop, .net (.proceed (.send 0 [7])), .net (.functor baseLoop Network.noAnswers),
    .finish baseLoop]

theorem queued_owned_keptPointer : ∃ s : Batches, s.QueuedOwned ∧
    0 < s.net.times 0 .destroyed ∧ .sendInLoop 0 [7] ∈ s.net.functors baseLoop := by
  obtain ⟨s, hs, hp⟩ := exists_reach_of_run step (fun s l => s.Keeps l ∧ s.Outlasts l)
    (ofNetwork (.ofServer "0.0.0.0:2000" [])) keptPointer
    (fun s => 0 < s.net.times 0 .destroyed ∧ .sendInLoop 0 [7] ∈ s.net.functors baseLoop)
    (by decide +kernel)
  obtain ⟨hd, hf⟩ := of_decide_eq_true hp
  exact ⟨s, queued_owned (.inl ⟨_, _, rfl⟩) hs, hd, hf⟩

/-- The user has no other pointer than that of the call. After the batch the queued functor has a
connection without an owner, and the next batch calls it after the destructor. -/
theorem queued_freed : ∃ s t u, Reach (Moves step) Keeps
      (ofNetwork (.ofServer "0.0.0.0:2000" [])) s ∧
    .sendInLoop 0 [7] ∈ s.net.functors baseLoop ∧ ¬ s.Owned 0 ∧
    Moves step s (.net (.free 0)) t ∧ Moves step t (.swap baseLoop) u ∧
    step u (.net (.functor baseLoop Network.noAnswers)) = some (.error .useAfterFree) := by
  obtain ⟨s, hs, hp⟩ := exists_reach_of_run step Keeps (ofNetwork (.ofServer "0.0.0.0:2000" []))
    [.net (.newConnection 5 false), .net (.foreignSend 0 [7]),
      .net (.poll baseLoop [(0, POLLIN)]), .net (.handle baseLoop Network.noAnswers),
      .swap baseLoop, .net (.proceed (.send 0 [7])), .net (.functor baseLoop Network.noAnswers),
      .finish baseLoop]
    (fun s => .sendInLoop 0 [7] ∈ s.net.functors baseLoop ∧ ¬ s.Owned 0 ∧
      succeeds step s (.net (.free 0)) = true ∧
      succeeds step (next step s (.net (.free 0))) (.swap baseLoop) = true ∧
      fails step (next step (next step s (.net (.free 0))) (.swap baseLoop))
        (.net (.functor baseLoop Network.noAnswers)) .useAfterFree = true)
    (by decide +kernel)
  obtain ⟨hf, hown, hfree, hswap, hfails⟩ := of_decide_eq_true hp
  exact ⟨s, _, _, hs, hf, hown, moves_next hfree, moves_next hswap, eq_of_fails hfails⟩

/-! ### The condition is exact -/

/-- A destroyed connection has owners other than the server only. -/
theorem QueuedOwned.shared {s : Batches} (h : s.QueuedOwned) (hb : s.net.Books) {c : ConnId}
    (hd : 0 < s.net.times c .destroyed) (hw : s.net.Waits c) : s.Shared c := by
  obtain ⟨l, -, f, hf, howns, rfl⟩ := hw
  have hbal := hb.ledger.balanced _ (hb.ledger.lt_accepted hd)
  refine (h l f hf howns).1.imp_left fun hown => hown.resolve_left fun hheld => ?_
  have h0 := hbal.held.1 hheld
  have h1 := hbal.order.1
  omega

/-- When a call has queued its functor, the owner of the functor's connection is another one. -/
theorem spares_of_endCall {s : Batches} {u : UserCall} {loop : LoopId} {f : Functor}
    (hb : s.net.Books) (hu : u ∈ s.net.calls) (hf : f.conn = u.conn) (howns : f.owns = none)
    (hloop : loop = (s.net.conns u.conn).loop_)
    (hq : QueuedOwned { s with
      net := Network.queueInLoop { s.net with calls := s.net.calls.erase u } loop f })
    (hb' : (Network.queueInLoop { s.net with calls := s.net.calls.erase u } loop f).Books)
    (hd : 0 < s.net.times u.conn .destroyed) :
    1 < s.net.keepers u.conn ∨ s.net.Bound u.conn ∨ s.Called u.conn := by
  have hmem : loop ∈ s.net.loops := hloop ▸ hb.ledger.loops.2 _ (hb.begun.calls u hu).1
  have hw := Network.waits_queueInLoop (s := { s.net with calls := s.net.calls.erase u }) hmem howns
  rw [hf] at hw
  have hkeep := Network.keepers_erase hu loop f
  rcases hq.shared hb' hd hw with hshared | hcalled
  · refine (Network.shared_iff.1 hshared).imp (fun hpos => ?_) fun hbound => .inl ?_
    · exact (Nat.succ_lt_succ hpos).trans_eq hkeep
    · exact (Network.bound_queueInLoop howns).1 hbound
  · exact .inr (.inr hcalled)

/-- **The condition is exact**: in a run that has met it, the next step keeps the owners of queued
functors if and only if it meets it, too. -/
theorem outlasts_iff {s₀ : Network} {s t : Batches} {l : Label} (h0 : s₀.Starts)
    (h : Reach (Moves step) (fun s l => s.Keeps l ∧ s.Outlasts l) (ofNetwork s₀) s)
    (hk : s.Keeps l) (hs : Moves step s l t) : s.Outlasts l ↔ t.QueuedOwned := by
  refine ⟨fun hlast => queuedOwned_of_reach h0 (h.tail ⟨hk, hlast⟩ hs), fun hq => ?_⟩
  have hb := books_of_reach h0 (h.mono fun x l hl => hl.1)
  have hb' := books_of_reach h0 ((h.mono fun x l hl => hl.1).tail hk hs)
  cases step_cases hs with
  | swap hidle hl => exact trivial
  | @finish loop hl =>
    intro p hp hloop c howns hd hw
    rcases hq.shared hb' hd hw with hshared | ⟨q, hq, hqc⟩
    · exact (Network.shared_iff.1 hshared).imp_right .inl
    · obtain ⟨hmem, hother⟩ := List.mem_filter.1 hq
      exact .inr (.inr ⟨q, hmem, of_decide_eq_true hother, hqc⟩)
  | net ha ht =>
    cases Network.step_cases ht with
    | @drop c hpos =>
      intro hd hw
      have hkeep := Network.keepers_drop hpos
      rcases hq.shared hb' hd hw with hshared | hcalled
      · exact (Network.shared_iff.1 hshared).imp
          (fun hpos => (Nat.succ_lt_succ hpos).trans_eq hkeep) .inl
      · exact .inr (.inr hcalled)
    | @proceedSend c message hu =>
      exact spares_of_endCall hb hu rfl rfl rfl hq hb'
    | @proceedShuttingDown c hu =>
      exact spares_of_endCall hb hu rfl rfl rfl hq hb'
    | _ => exact trivial

/-! ### Users who hold a pointer -/

def Holds (s : Batches) : Label → Prop
  | .net l => s.net.Holds l
  | _ => True

/-- Who holds a pointer keeps it at the end of a batch, and another one than that of a call. -/
theorem outlasts_of_holds {s t : Batches} {l : Label} (h : s.net.Held) (hl : s.Holds l)
    (hs : s.Steps l t) : s.Outlasts l := by
  cases hs with
  | swap hidle _ => exact trivial
  | finish _ => exact fun p hp _ c _ _ hw => .inl (Nat.add_pos_left (h c hw) _)
  | net ha ht =>
    have hcall : ∀ u ∈ s.net.calls, 0 < s.net.held u.conn → 1 < s.net.keepers u.conn := by
      intro u hu hpos
      have hcount : 0 < s.net.calls.countP fun v => v.conn = u.conn :=
        List.countP_pos_iff.2 ⟨u, hu, decide_eq_true rfl⟩
      unfold Network.keepers
      omega
    cases Network.step_cases ht with
    | drop hpos => exact fun _ hw => .inl (Nat.lt_add_right _ (hl hw))
    | proceedSend hu => exact fun _ => .inl (hcall _ hu hl)
    | proceedShuttingDown hu => exact fun _ => .inl (hcall _ hu hl)
    | _ => exact trivial

/-- **Holding a pointer is enough**: queued work has a live connection in every run in which users
who call `send` or `shutdown` on another thread hold a pointer until the functor has been called. -/
theorem queued_owned_of_holds {s₀ : Network} {s : Batches} (h0 : s₀.Starts)
    (h : Reach (Moves step) (fun s l => s.Keeps l ∧ s.Holds l) (ofNetwork s₀) s) :
    s.QueuedOwned := by
  have hstart : s₀.Held := by
    rintro c ⟨l, -, f, hf, -⟩
    rcases h0 with ⟨name, loops, rfl⟩ | rfl <;> cases hf
  refine queuedOwned_of_reach h0 (h.invariant
    (I := fun x => Reach (Moves step) (fun s l => s.Keeps l ∧ s.Outlasts l) (ofNetwork s₀) x ∧
      x.net.Held) ⟨.refl, hstart⟩ fun x l y hx hl hy => ?_).1
  have hsteps := step_cases hy
  refine ⟨hx.1.tail ⟨hl.1, outlasts_of_holds hx.2 hl.2 hsteps⟩ hy, ?_⟩
  cases hsteps with
  | swap hidle _ => exact hx.2
  | finish _ => exact hx.2
  | net ha ht =>
    rw [advance_net]
    exact (Network.step_cases ht).held hx.2 hl.2

end Batches

end Fppnet
