import Fppnet.Net.ClientStop

/-!
# The destruction of a `TcpClient` without a connection

`~TcpClient` stops the connector and has a timer of one second keep it alive. When that timer is
deleted, so is the connector, whatever has become of the attempt that was under way.

* `Dropping`: the next step of the loop deletes the timer and the connector;
* `Unreferenced`: then `channel_` is empty, and no poller, functor or timer refers to the connector;
* `destruction_settled`: the callback for new connections is not called any more; and the connector
  is deleted unreferenced exactly if it is `Settled` before the timers of that iteration are taken
  out;
* `destroyed_connecting`: a client is destroyed while an attempt is under way, and a second passes.
-/

namespace Fppnet

open Checked Runs

open Attempts

namespace ClientLoop

open ConnectorLoop (Good)

/-- The functor is bound to the connector. `cancelInLoop` is bound to the timer queue. -/
def OfConnector : Attempts.Functor → Prop
  | .startInLoop | .resetChannel _ => True
  | .cancelInLoop _ => False

instance (f : Attempts.Functor) : Decidable (OfConnector f) :=
  match f with
  | .startInLoop | .resetChannel _ => inferInstanceAs (Decidable True)
  | .cancelInLoop _ => inferInstanceAs (Decidable False)

/-- All timers of the batch have run, the one of `~TcpClient` among them. -/
def Dropping (s : ClientLoop) : Prop :=
  s.life = .expired ∧ ∃ active, s.loop.phase = .timers [] active

/-- Nothing refers to the connector. Its destructor cancels the timer of `timerId_`. -/
structure Unreferenced (s : ClientLoop) : Prop where
  channel : s.connector.channel_ = none
  poller : ∀ n, s.loop.attempts.poller.channels_ n = none ∧ s.loop.attempts.poller.interest n = none
  functors : ∀ f ∈ s.loop.phase.rest ++ s.loop.attempts.pendingFunctors, ¬ OfConnector f
  timers : ∀ t ∈ s.loop.attempts.timers, some t.sequence = s.connector.timerId_

/-- The connector before the expired timers are taken out: no attempt is under way, the functors
bound to it have run, and no retry timer stays that the connector does not know any more. -/
structure Settled (s : ClientLoop) : Prop where
  state : s.connector.state_ ≠ .kConnecting
  functors : ∀ f ∈ s.loop.attempts.pendingFunctors, ¬ OfConnector f
  timers : ∀ t ∈ s.loop.attempts.timers,
    s.loop.attempts.Expired t ∨ some t.sequence = s.connector.timerId_

instance (s : ClientLoop) : Decidable (Settled s) :=
  decidable_of_iff (s.connector.state_ ≠ .kConnecting ∧
      (∀ f ∈ s.loop.attempts.pendingFunctors, ¬ OfConnector f) ∧
      ∀ t ∈ s.loop.attempts.timers,
        s.loop.attempts.Expired t ∨ some t.sequence = s.connector.timerId_)
    ⟨fun h => ⟨h.1, h.2.1, h.2.2⟩, fun h => ⟨h.state, h.functors, h.timers⟩⟩

/-- The condition on a run: the connector is settled when the timer of `~TcpClient` is taken out. -/
def SettledFirst (s : ClientLoop) (l : Label) : Prop :=
  l = .loop .getExpired → s.collect = .expired → Settled s

instance (s : ClientLoop) (l : Label) : Decidable (SettledFirst s l) :=
  inferInstanceAs (Decidable (_ → _ → _))

/-- A settled connector while the batch runs. -/
structure Quiescent (s : ClientLoop) : Prop where
  state : s.connector.state_ ≠ .kConnecting
  functors : ∀ f ∈ s.loop.attempts.pendingFunctors, ¬ OfConnector f
  timers : ∀ t ∈ s.loop.attempts.timers, some t.sequence = s.connector.timerId_

/-- The loop runs expired timers. -/
def InBatch (s : ClientLoop) : Prop := ∃ expired active, s.loop.phase = .timers expired active

/-! ### The batch of the timer -/

theorem resets_eq_nil {q : List Attempts.Functor} (h : ∀ f ∈ q, ¬ OfConnector f) :
    resets q = [] := by
  induction q with
  | nil => rfl
  | cons f q ih =>
    have hq := ih fun g hg => h g (List.mem_cons_of_mem _ hg)
    cases f with
    | startInLoop => exact hq
    | cancelInLoop timerId => exact hq
    | resetChannel k => exact (h _ (List.mem_cons_self ..) trivial).elim

/-- A channel is in `channel_` only while an attempt is under way or a `resetChannel` is queued. -/
theorem unreferenced_iff {slot : Slot} {s : ClientLoop} (hg : Good slot s.loop) (h : Held s)
    (hb : InBatch s) : Unreferenced s ↔ Quiescent s := by
  obtain ⟨expired, active, hph⟩ := hb
  have hk := hg.kept
  rw [hph] at hk
  have hrest : s.loop.phase.rest = [] := by rw [hph]; rfl
  constructor
  · intro hu
    refine ⟨fun hst => ?_, fun f hf => hu.functors f (List.mem_append_right _ hf), hu.timers⟩
    obtain ⟨k, rfl⟩ := hk.connecting hst
    have hch := hk.channel
    rw [show s.loop.attempts.connector.channel_ = none from hu.channel] at hch
    cases hch
  · intro hq
    have hresets : [] = slot.resets := (resets_eq_nil hq.functors).symm.trans hk.resets
    have hslot : slot = .empty := by
      cases slot with
      | empty => rfl
      | inProgress k => exact (hq.state (h.busy k hk.channel)).elim
      | removed k => cases hresets
    refine ⟨hk.channel_eq_none_iff.2 hslot, fun n => ?_, fun f hf => ?_, hq.timers⟩
    · rw [hk.poller, hslot]
      exact ⟨rfl, rfl⟩
    · rw [hrest] at hf
      exact hq.functors f hf

theorem getExpired_quiescent {s t : ClientLoop} (hs : Moves step s (.loop .getExpired) t) :
    InBatch t ∧ (Quiescent t ↔ Settled s) := by
  cases step_cases hs with
  | foreign _ hl _ => exact hl.elim
  | plain hl _ => exact hl.elim
  | getExpired hm =>
    cases ConnectorLoop.step_cases hm with
    | @getExpired active hph =>
      refine ⟨⟨_, active, rfl⟩, fun hq => ⟨hq.state, hq.functors, fun x hx => ?_⟩, fun hset =>
        ⟨hset.state, hset.functors, fun x hx => ?_⟩⟩
      · rw [or_iff_not_imp_left]
        intro hlate
        exact hq.timers x (List.mem_filter.2 ⟨hx, decide_eq_true hlate⟩)
      · obtain ⟨hx, hlate⟩ := List.mem_filter.1 hx
        exact (hset.timers x hx).resolve_left (of_decide_eq_true hlate)

/-- Once a client is being destroyed only the loop goes on. -/
theorem loop_of_not_alive {s t : ClientLoop} {l : Label} (hs : Moves step s l t)
    (hne : s.life ≠ .alive) : s.life ≠ .freed ∧ ∃ l', l = .loop l' := by
  unfold Moves step at hs
  split at hs
  · next l' =>
    split_ifs at hs with hfreed
    exact ⟨hfreed, l', rfl⟩
  · split_ifs at hs with ha
    exact (hne ha).elim

/-- While the batch runs the timers of a stopped connector do nothing. -/
theorem batch_quiescent {s t : ClientLoop} {l : Label} (hst : Stopped s) (he : s.life = .expired)
    (hb : InBatch s) (hs : Moves step s l t) :
    t.life = .freed ∨ t.life = .expired ∧ InBatch t ∧ (Quiescent t ↔ Quiescent s) := by
  obtain ⟨expired, active, hph⟩ := hb
  have hne : s.life ≠ .alive := by rw [he]; decide
  obtain ⟨-, l, rfl⟩ := loop_of_not_alive hs hne
  cases step_cases hs with
  | foreign ha _ _ => exact (hne ha).elim
  | endTimers hlife _ => exact (hlife he).elim
  | freed _ _ hfree =>
    cases (require_bind_ok.1 hfree).2
    exact .inl rfl
  | poll hm =>
    cases ConnectorLoop.step_cases hm with
    | poll hph' _ => cases hph.symm.trans hph'
  | handleEvent hm =>
    cases ConnectorLoop.step_cases hm with
    | handleEvent hph' _ => cases hph.symm.trans hph'
  | getExpired hm =>
    cases ConnectorLoop.step_cases hm with
    | getExpired hph' => cases hph.symm.trans hph'
  | plain hl hm =>
    right
    cases ConnectorLoop.step_cases hm with
    | runTimer hph' _ ha =>
      have h := (require_bind_ok.1 ha).2
      rw [show s.loop.attempts.connector.connect_ = false from hst.connector,
        if_neg (by decide)] at h
      cases h
      exact ⟨he, ⟨_, _, rfl⟩, fun hq => ⟨hq.state, hq.functors, hq.timers⟩,
        fun hq => ⟨hq.state, hq.functors, hq.timers⟩⟩
    | tick =>
      exact ⟨he, ⟨expired, active, hph⟩, fun hq => ⟨hq.state, hq.functors, hq.timers⟩,
        fun hq => ⟨hq.state, hq.functors, hq.timers⟩⟩
    | swap hph' => cases hph.symm.trans hph'
    | functor hph' _ => cases hph.symm.trans hph'
    | endFunctors hph' => cases hph.symm.trans hph'
    | _ => exact hl.elim

/-- The timer of `~TcpClient` is in the batch after it has been taken out, and not before. -/
theorem expired_back {s t : ClientLoop} {l : Label} (hs : Moves step s l t)
    (ht : t.life = .expired) :
    s.life = .expired ∨ l = .loop .getExpired ∧ s.collect = .expired := by
  cases step_cases hs with
  | connect ha _ => exact .inl ht
  | disconnect ha => exact .inl ht
  | stop ha => exact .inl ht
  | enableRetry ha => exact .inl ht
  | foreignConnect ha => exact .inl ht
  | foreignDisconnect ha => exact .inl ht
  | removed ha _ _ _ => exact .inl ht
  | restarted ha _ _ _ _ _ => exact .inl ht
  | destroy ha _ _ => cases ht
  | foreign ha _ _ => exact .inl ht
  | poll _ => exact .inl ht
  | handleEvent _ =>
    rw [(newConnection_frame _ _).2.2.2] at ht
    exact .inl ht
  | getExpired _ => exact .inr ⟨rfl, ht⟩
  | endTimers _ _ => exact .inl ht
  | freed _ _ hfree =>
    cases (require_bind_ok.1 hfree).2
    cases ht
  | plain _ _ => exact .inl ht

/-! ### Runs after the destruction -/

/-- The invariants of a client that is being destroyed. -/
structure Destroyed (s : ClientLoop) : Prop where
  good : ∃ slot, Good slot s.loop
  held : Held s
  stopped : Stopped s
  life : s.life ≠ .alive

theorem step_destroyed {s t : ClientLoop} {l : Label} (h : Destroyed s) (hs : Moves step s l t) :
    Destroyed t ∧ Inactive s.loop.attempts t.loop.attempts := by
  obtain ⟨slot, hg⟩ := h.good
  obtain ⟨hst, hin⟩ := step_stopped hg h.held h.stopped (fun ha => (h.life ha).elim) hs
  exact ⟨⟨step_good hg hs, step_held hg h.held hs, hst, fun ha => h.life (alive_back hs ha)⟩, hin⟩

theorem destroyed_of_reach {s u : ClientLoop} (hs : Reach (Moves step) Always new s)
    (hd : Moves step s .destroy u) : Destroyed u := by
  obtain ⟨⟨slot, hg⟩, hheld⟩ := reach_held hs
  have hstopped : Stopped u ∧ u.life ≠ .alive := by
    cases step_cases hd with
    | destroy _ _ _ =>
      have hlife : s.destructor.life ≠ .alive := fun ha => ClientLife.noConfusion ha
      exact ⟨⟨rfl, fun ha => (hlife ha).elim⟩, hlife⟩
  exact ⟨step_good hg hd, step_held hg hheld hd, hstopped.1, hstopped.2⟩

/-- Nothing is connected for a client that is being destroyed. -/
theorem reach_destroyed {C : ClientLoop → Label → Prop} {s t : ClientLoop} (h : Destroyed s)
    (ht : Reach (Moves step) C s t) :
    Destroyed t ∧ t.loop.attempts.handed = s.loop.attempts.handed :=
  ht.invariant (I := fun t => Destroyed t ∧ t.loop.attempts.handed = s.loop.attempts.handed)
    ⟨h, rfl⟩ fun x l y hx _ hs => by
      obtain ⟨hdes, hin⟩ := step_destroyed hx.1 hs
      exact ⟨hdes, hin.handed.trans hx.2⟩

/-- When the connector has been settled, it is quiescent while the batch runs. -/
theorem reach_quiescent {s t : ClientLoop} (h : Destroyed s) (hne : s.life ≠ .expired)
    (ht : Reach (Moves step) SettledFirst s t) :
    Destroyed t ∧ (t.life = .expired → InBatch t ∧ Quiescent t) := by
  refine ht.invariant (I := fun t => Destroyed t ∧ (t.life = .expired → InBatch t ∧ Quiescent t))
    ⟨h, fun he => (hne he).elim⟩ fun x l y hx hl hs => ?_
  obtain ⟨hdes, hquiet⟩ := hx
  refine ⟨(step_destroyed hdes hs).1, fun he => ?_⟩
  rcases expired_back hs he with hex | ⟨rfl, hcollect⟩
  · obtain ⟨hb, hq⟩ := hquiet hex
    rcases batch_quiescent hdes.stopped hex hb hs with hfreed | ⟨-, hb', hiff⟩
    · rw [hfreed] at he
      cases he
    · exact ⟨hb', hiff.2 hq⟩
  · obtain ⟨hb, hiff⟩ := getExpired_quiescent hs
    exact ⟨hb, hiff.2 (hl rfl hcollect)⟩

/-- The connector stays as it is until the batch is over. -/
theorem batch_of_reach {C : ClientLoop → Label → Prop} {s t : ClientLoop} (h : Destroyed s)
    (he : s.life = .expired) (hb : InBatch s) (ht : Reach (Moves step) C s t) :
    Destroyed t ∧
      (t.life = .freed ∨ t.life = .expired ∧ InBatch t ∧ (Quiescent t ↔ Quiescent s)) := by
  refine ht.invariant (I := fun t => Destroyed t ∧ (t.life = .freed ∨
    t.life = .expired ∧ InBatch t ∧ (Quiescent t ↔ Quiescent s)))
    ⟨h, .inr ⟨he, hb, Iff.rfl⟩⟩ fun x l y hx _ hs => ?_
  obtain ⟨hdes, hcase⟩ := hx
  refine ⟨(step_destroyed hdes hs).1, ?_⟩
  rcases hcase with hfreed | ⟨hex, hbx, hiff⟩
  · exact ((loop_of_not_alive hs hdes.life).1 hfreed).elim
  · exact (batch_quiescent hdes.stopped hex hbx hs).imp id fun hy =>
      ⟨hy.1, hy.2.1, hy.2.2.trans hiff⟩

theorem Dropping.inBatch {s : ClientLoop} (h : Dropping s) : InBatch s := by
  obtain ⟨-, active, hph⟩ := h
  exact ⟨[], active, hph⟩

/-- **The destruction of a client without a connection.** In every run after it the client is given
no connection. In a run in which the connector is settled when the timer of `~TcpClient` is taken
out, the connector is deleted unreferenced; and in every run it is deleted unreferenced only if it
was settled then. -/
theorem destruction_settled {s u t : ClientLoop} (hs : Reach (Moves step) Always new s)
    (hd : Moves step s .destroy u) (ht : Reach (Moves step) Always u t) :
    t.loop.attempts.handed = u.loop.attempts.handed ∧
    (Reach (Moves step) SettledFirst u t → Dropping t → Unreferenced t) ∧
    (∀ v w, Moves step t (.loop .getExpired) v → v.life = .expired →
      Reach (Moves step) Always v w → Dropping w → (Unreferenced w ↔ Settled t)) := by
  have hu := destroyed_of_reach hs hd
  obtain ⟨hdes, hhanded⟩ := reach_destroyed hu ht
  refine ⟨hhanded, fun hsettled hdrop => ?_, fun v w hv he hw hdrop => ?_⟩
  · have hne : u.life ≠ .expired := by
      cases step_cases hd with
      | destroy _ _ _ => exact fun he => ClientLife.noConfusion he
    obtain ⟨slot, hg⟩ := hdes.good
    exact (unreferenced_iff hg hdes.held hdrop.inBatch).2
      ((reach_quiescent hu hne hsettled).2 hdrop.1).2
  · obtain ⟨hb, hiff⟩ := getExpired_quiescent hv
    obtain ⟨hdesw, hcase⟩ := batch_of_reach (step_destroyed hdes hv).1 he hb hw
    obtain ⟨slot, hg⟩ := hdesw.good
    rw [unreferenced_iff hg hdesw.held hdrop.inBatch, ← hiff]
    rcases hcase with hfreed | ⟨-, -, hqw⟩
    · rw [hdrop.1] at hfreed
      cases hfreed
    · exact hqw

/-! An attempt is under way when the client is destroyed, and is still under way a second later. -/

def secondPasses : List Label :=
  [.loop (.tick 1000000), .loop (.poll [.timerfd]), .loop .getExpired]

theorem destroyed_connecting :
    ∃ s u w : ClientLoop, Reach (Moves step) Always new s ∧ Moves step s .destroy u ∧
      Reach (Moves step) Always u w ∧ Dropping w ∧ ¬ Unreferenced w ∧
      step w (.loop .endTimers) = some (.error .destructor) := by
  obtain ⟨s, hs, hp⟩ := exists_reach_of_run step Always new [.connect EINPROGRESS]
    (fun s => decide (succeeds step s .destroy = true ∧
      (run step Always (next step s .destroy) secondPasses).any (fun w => decide
        (w.life = .expired ∧ w.loop.phase = .timers [] [] ∧ w.connector.channel_.isNone = false ∧
          fails step w (.loop .endTimers) .destructor = true)) = true))
    (by decide)
  obtain ⟨hd, hany⟩ := of_decide_eq_true hp
  obtain ⟨w, hw, hpw⟩ := exists_reach_of_run step Always (next step s .destroy) secondPasses _ hany
  obtain ⟨hlife, hph, hch, hfails⟩ := of_decide_eq_true hpw
  refine ⟨s, _, w, hs, moves_next hd, hw, ⟨hlife, [], hph⟩, fun hu => ?_, eq_of_fails hfails⟩
  rw [hu.channel] at hch
  cases hch

/-! The attempt ends within the second. -/

def endsBefore : List Label :=
  [.loop (.poll [.channel 0 POLLOUT]), .loop (.handleEvent 0 false), .loop .swap,
    .loop (.functor 0), .loop .endFunctors] ++ secondPasses

theorem destruction_settled_endsBefore :
    ∃ t : ClientLoop, Dropping t ∧ Unreferenced t ∧ t.loop.attempts.closed 0 = 1 := by
  obtain ⟨s, hs, hp⟩ := exists_reach_of_run step Always new [.connect EINPROGRESS]
    (fun s => decide (succeeds step s .destroy = true ∧
      (run step SettledFirst (next step s .destroy) endsBefore).any (fun t => decide
        (t.life = .expired ∧ t.loop.phase = .timers [] [] ∧ t.loop.attempts.closed 0 = 1)) = true))
    (by decide)
  obtain ⟨hd, hany⟩ := of_decide_eq_true hp
  obtain ⟨t, ht, hpt⟩ := exists_reach_of_run step SettledFirst (next step s .destroy) endsBefore _
    hany
  obtain ⟨hlife, hph, hclosed⟩ := of_decide_eq_true hpt
  have hdrop : Dropping t := ⟨hlife, [], hph⟩
  exact ⟨t, hdrop, (destruction_settled hs (moves_next hd) (ht.mono fun _ _ _ => trivial)).2.1 ht
    hdrop, hclosed⟩

end ClientLoop

end Fppnet
