import Fppnet.Net.TimerRound

/-!
# `addTimer` in another thread

`addTimer` creates a `Timer`, has the loop run `addTimerInLoop` on it, and then reads its sequence
number for the `TimerId`. In another thread than the loop's `runInLoop` only queues the functor, so
that from then on the loop may add, run and delete the timer before the last statement of `addTimer`
has been executed; and a new timer may have been created at its address by then.

* a call in another thread is taken apart at `new Timer`, the critical section of `queueInLoop`, and
  the read of the sequence number; `Call` says how far it has come;
* the steps of the loop are those of `TimerRuns`, besides `addTimerInLoop`, which runs for a functor
  taken from the queue or for a call of `addTimer` in the loop thread;
* `identified_iff`: the call returns the identity of its own timer as long as no step of the loop
  deletes the timer of a call that is still running, and no longer.
-/

set_option linter.unusedSectionVars false

namespace Fppnet

open Checked Runs TimerQueue TimerRuns TimerRound

namespace AddTimer

variable {τ : Type} [DecidableEq τ]

/-- A call of `addTimer` that has created its timer, and whether it has queued the functor. -/
structure Call where
  timer : ActiveTimer
  queued : Bool

/-- The loop with its timer queue, the calls of `addTimer` that run in the other threads, the
functors bound to `addTimerInLoop`, and the history of the timers and ids of the calls that have
returned. -/
structure State (τ : Type) where
  runs : TimerRuns.State
  calls : τ → Option Call
  pendingFunctors_ : List ActiveTimer
  functors : List ActiveTimer
  returned : List (ActiveTimer × TimerId)

inductive Label (τ : Type)
  | loop (l : TimerRuns.Label)
  | addTimer (timer : TimerPtr) (when : ℤ) (interval : Interval)
  | swap
  | runFunctor
  | newTimer (t : τ) (timer : TimerPtr) (when : ℤ) (interval : Interval)
  | queueInLoop (t : τ)
  | readSequence (t : τ)

/-- The steps of the loop thread in which no timer is created or added. While functors run no event
is handled. -/
def loopStep (s : State τ) : TimerRuns.Label → Bool
  | .newTimer _ _ _ => false
  | .addTimerInLoop _ => false
  | .beginRead _ => s.functors.isEmpty
  | _ => true

/-- `addTimer` in the loop thread, where `runInLoop` calls `addTimerInLoop` at once. -/
def addTimer (s : State τ) (timer : TimerPtr) (when : ℤ) (interval : Interval) :
    Except Failure (State τ) := do
  let q := s.runs.queue.newTimer timer when interval
  let k : ActiveTimer := ⟨timer, q.s_numCreated_⟩
  let q ← q.addTimerInLoop timer
  let t ← q.deref timer
  pure { s with
    runs := { s.runs with queue := q, events := s.runs.events ++ [.created k.id] }
    returned := s.returned ++ [(k, ⟨timer, t.sequence_⟩)] }

def step (s : State τ) : Label τ → Option (Except Failure (State τ))
  | .loop l =>
    if loopStep s l then
      (TimerRuns.step s.runs l).map fun r => r.map fun runs => { s with runs := runs }
    else none
  | .addTimer timer when interval =>
    if s.runs.atUser = true ∧ Free s.runs.queue timer then some (addTimer s timer when interval)
    else none
  | .swap =>
    if s.runs.batch.isNone ∧ s.functors = [] then
      some (.ok { s with pendingFunctors_ := [], functors := s.pendingFunctors_ })
    else none
  | .runFunctor =>
    match s.functors with
    | [] => none
    | k :: functors =>
      if s.runs.batch.isNone then
        (TimerRuns.step s.runs (.addTimerInLoop k)).map fun r =>
          r.map fun runs => { s with runs := runs, functors := functors }
      else none
  | .newTimer t timer when interval =>
    match s.calls t with
    | some _ => none
    | none =>
      (TimerRuns.step s.runs (.newTimer timer when interval)).map fun r => r.map fun runs =>
        { s with
          runs := runs
          calls := Function.update s.calls t
            (some ⟨⟨timer, s.runs.queue.s_numCreated_ + 1⟩, false⟩) }
  | .queueInLoop t =>
    match s.calls t with
    | some ⟨k, false⟩ => some (.ok { s with
        pendingFunctors_ := s.pendingFunctors_ ++ [k]
        calls := Function.update s.calls t (some ⟨k, true⟩) })
    | _ => none
  | .readSequence t =>
    match s.calls t with
    | some ⟨k, true⟩ => some ((s.runs.queue.deref k.timer).map fun tm =>
        { s with
          calls := Function.update s.calls t none
          returned := s.returned ++ [(k, ⟨k.timer, tm.sequence_⟩)] })
    | _ => none

/-- A new loop, and no call of `addTimer` yet. -/
def start (clock : ℤ) : State τ := ⟨TimerRuns.start clock, fun _ => none, [], [], []⟩

/-! ### Which steps delete a timer -/

/-- The step deletes the timer `k`: `cancelInLoop` finds it active, or it is in the batch that is
reset and does not repeat or is to be cancelled. -/
def Deletes (x : TimerRuns.State) (k : ActiveTimer) : TimerRuns.Label → Prop
  | .cancelInLoop id => id.active = k ∧ k ∈ x.queue.activeTimers_
  | .endRead => k ∈ x.objects ∧
    ∀ tm ∈ x.queue.heap k.timer, ¬ (tm.repeat_ = true ∧ k ∉ x.queue.cancelingTimers_)
  | _ => False

instance (x : TimerRuns.State) (k : ActiveTimer) (l : TimerRuns.Label) :
    Decidable (Deletes x k l) :=
  match l with
  | .cancelInLoop id => inferInstanceAs (Decidable (id.active = k ∧ _))
  | .endRead => inferInstanceAs (Decidable (_ ∧ ∀ tm ∈ x.queue.heap k.timer, ¬ _))
  | .tick _ | .newTimer _ _ _ | .newElsewhere | .addTimerInLoop _ | .beginRead _ | .startCallback
  | .endCallback => inferInstanceAs (Decidable False)

/-- An object is gone only after a step that deletes it. -/
theorem points_step {x y : TimerRuns.State} {l : TimerRuns.Label} {k : ActiveTimer} (h : Inv x)
    (hs : Moves TimerRuns.step x l y) (hp : x.queue.Points k) (hd : ¬ Deletes x k l) :
    y.queue.Points k := by
  obtain ⟨-, ho⟩ := outcome_of_moves h hs
  cases ho with
  | newTimer when interval hfree =>
    obtain ⟨t, ht, hseq⟩ := hp
    exact ⟨t, newTimer_old hfree.2.2 ht, hseq⟩
  | @added k' t hk ht hgood =>
    exact hp.of_heap (congrFun (added_frame x.queue k' t).1 _)
  | @cancelled id q _ _ =>
    obtain ⟨-, -, -, -, ⟨t, ht, hq⟩ | ⟨-, hq⟩⟩ := cancel_cases h hs
    · refine hp.of_heap ?_
      rw [hq]
      refine Function.update_of_ne (fun heq => hd ?_) ..
      obtain rfl := ht.points.unique hp heq.symm
      exact ⟨rfl, ht.active⟩
    · refine hp.of_heap ?_
      rw [hq, (noted_frame _ _).2.1]
  | begun _ _ hq => exact hq.points k hp
  | @finished b q hb _ _ _ =>
    obtain ⟨-, -, -, -, hset⟩ := end_spec h hb hs
    by_cases hin : ∃ k' ∈ b.objects, k'.timer = k.timer
    · obtain ⟨k', hk', heq⟩ := hin
      have hobj : k' ∈ x.objects := objects_of_batch hb ▸ hk'
      obtain rfl := (h.good.points k' (List.mem_append_left _ hobj)).unique hp heq
      obtain ⟨t, ht, hseq⟩ := hp
      have hrepeat : t.repeat_ = true ∧ k' ∉ x.queue.cancelingTimers_ := by
        by_contra hnot
        refine hd ⟨hobj, fun tm htm => ?_⟩
        rw [Option.mem_def, ht, Option.some.injEq] at htm
        exact htm ▸ hnot
      exact ⟨_, (hset.again k' hk' t ht hrepeat.1 hrepeat.2).1, hseq⟩
    · push Not at hin
      exact hp.of_heap (hset.heap _ hin)
  | _ => exact hp

/-- A step that deletes a timer does so. -/
theorem deletes_gone {x y : TimerRuns.State} {l : TimerRuns.Label} {k : ActiveTimer} (h : Inv x)
    (hs : Moves TimerRuns.step x l y) (hp : x.queue.Points k) (hd : Deletes x k l) :
    ¬ y.queue.Points k := by
  have hy := (outcome_of_moves h hs).1
  suffices hdel : k.sequence ∈ y.queue.deleted by
    have hgone : Gone y.queue k.id := hy.good.gone hdel
    exact hgone.points
  cases l with
  | cancelInLoop id =>
    obtain ⟨rfl, hact⟩ := hd
    obtain ⟨-, -, -, -, ⟨t, ht, hq⟩ | ⟨hnot, -⟩⟩ := cancel_cases h hs
    · rw [hq]
      exact List.mem_append_right _ (List.mem_singleton.2 rfl)
    · exact absurd hact hnot
  | endRead =>
    obtain ⟨hobj, hnot⟩ := hd
    obtain ⟨t, ht, -⟩ := hp
    cases hb : x.batch with
    | none =>
      rw [State.objects, hb] at hobj
      cases hobj
    | some b =>
      obtain ⟨-, -, -, -, hset⟩ := end_spec h hb hs
      exact hset.gone k (objects_of_batch hb ▸ hobj) t ht (hnot t ht)
  | _ => cases hd

/-! ### The identity of the timer -/

/-- The condition on a run: no step of the loop deletes the timer of a call that is still running.
-/
def Undisturbed (s : State τ) : Label τ → Prop
  | .loop l => ∀ t, ∀ c ∈ s.calls t, ¬ Deletes s.runs c.timer l
  | _ => True

instance [Fintype τ] (s : State τ) (l : Label τ) : Decidable (Undisturbed s l) :=
  match l with
  | .loop l => inferInstanceAs (Decidable (∀ t, ∀ c ∈ s.calls t, ¬ Deletes s.runs c.timer l))
  | .addTimer _ _ _ | .swap | .runFunctor | .newTimer _ _ _ _ | .queueInLoop _
  | .readSequence _ => inferInstanceAs (Decidable True)

/-- The timer of a running call is allocated, so that its sequence number can be read, and the calls
that have returned have returned the identity of their timer. -/
structure Identified (s : State τ) : Prop where
  allocated : ∀ t, ∀ c ∈ s.calls t,
    ∃ tm, s.runs.queue.heap c.timer.timer = some tm ∧ tm.sequence_ = c.timer.sequence
  reads : ∀ t e, step s (.readSequence t) ≠ some (.error e)
  returned : ∀ r ∈ s.returned, r.2 = r.1.id

/-- The invariant of undisturbed runs. -/
structure Sound (s : State τ) : Prop where
  runs : Inv s.runs
  calls : ∀ t, ∀ c ∈ s.calls t, s.runs.queue.Points c.timer
  returned : ∀ r ∈ s.returned, r.2 = r.1.id

/-- A step of the queue that does not delete the timer of a running call. -/
theorem Sound.of_step {s : State τ} {l : TimerRuns.Label} {o : Except Failure TimerRuns.State}
    (h : Sound s) (ho : TimerRuns.step s.runs l = some o)
    (hd : ∀ t, ∀ c ∈ s.calls t, ¬ Deletes s.runs c.timer l) :
    ∃ runs, o = .ok runs ∧ Moves TimerRuns.step s.runs l runs ∧ Inv runs ∧
      ∀ t, ∀ c ∈ s.calls t, runs.queue.Points c.timer := by
  obtain ⟨runs, rfl, hout⟩ := step_outcome h.runs ho
  exact ⟨runs, rfl, ho, hout.inv h.runs,
    fun t c hc => points_step h.runs ho (h.calls t c hc) (hd t c hc)⟩

/-- `addTimer` in the loop thread returns the identity of its timer. -/
theorem addTimer_ok {s : State τ} {timer : TimerPtr} (h : Sound s)
    (huser : s.runs.atUser = true) (hfree : Free s.runs.queue timer) (when : ℤ)
    (interval : Interval) : ∃ s', addTimer s timer when interval = .ok s' ∧ Sound s' := by
  set q := s.runs.queue.newTimer timer when interval with hq
  set k : ActiveTimer := ⟨timer, q.s_numCreated_⟩ with hk
  set runs₁ : TimerRuns.State := { s.runs with
    queue := q
    handed := k :: s.runs.handed
    events := s.runs.events ++ [.created k.id] } with hruns₁
  have hnew : TimerRuns.step s.runs (.newTimer timer when interval) = some (.ok runs₁) :=
    if_pos hfree
  obtain ⟨runs₁', hruns₁', -, hinv₁, hcalls₁⟩ := h.of_step hnew fun _ _ _ => id
  obtain rfl : runs₁' = runs₁ := (Except.ok.inj hruns₁').symm
  have h₁ : Sound { s with runs := runs₁ } := ⟨hinv₁, hcalls₁, h.returned⟩
  have hpt : q.Points k := ⟨_, Function.update_self .., rfl⟩
  have hadd : TimerRuns.step runs₁ (.addTimerInLoop k) =
      some ((q.addTimerInLoop timer).map fun q' =>
        { runs₁ with queue := q', handed := runs₁.handed.erase k }) :=
    if_pos ⟨huser, List.mem_cons_self⟩
  obtain ⟨runs₂, hruns₂, hmove, hinv₂, hcalls₂⟩ := h₁.of_step hadd fun _ _ _ => id
  obtain ⟨q', hq', rfl⟩ := map_eq_ok.1 hruns₂
  obtain ⟨t, ht, hseq⟩ := points_step hinv₁ hmove hpt id
  have hderef : q'.deref timer = .ok t := deref_eq ht
  have hhanded : runs₁.handed.erase k = s.runs.handed := List.erase_cons_head ..
  rw [hhanded] at hinv₂
  refine ⟨{ s with
    runs := { s.runs with queue := q', events := s.runs.events ++ [.created k.id] }
    returned := s.returned ++ [(k, ⟨timer, t.sequence_⟩)] }, ?_, hinv₂, hcalls₂, fun r hr => ?_⟩
  · rw [addTimer, ← hq, hq', ok_bind, hderef]
    rfl
  · rcases List.mem_append.1 hr with hr | hr
    · exact h.returned r hr
    · rw [List.mem_singleton.1 hr]
      exact congrArg (TimerId.mk timer) hseq

theorem mem_update {f : τ → Option Call} {t u : τ} {o : Option Call} {c : Call}
    (h : c ∈ Function.update f t o u) : c ∈ o ∨ c ∈ f u := by
  by_cases hu : u = t
  · subst hu
    rw [Function.update_self] at h
    exact .inl h
  · rw [Function.update_of_ne hu] at h
    exact .inr h

/-- No undisturbed step fails, and each keeps the invariant. -/
theorem step_sound {s : State τ} {l : Label τ} {o : Except Failure (State τ)} (h : Sound s)
    (hc : Undisturbed s l) (hs : step s l = some o) : ∃ s', o = .ok s' ∧ Sound s' := by
  cases l with
  | loop l =>
    simp only [step, Option.ite_none_right_eq_some, Option.map_eq_some_iff] at hs
    obtain ⟨-, o', ho', rfl⟩ := hs
    obtain ⟨runs, rfl, -, hinv, hcalls⟩ := h.of_step ho' hc
    exact ⟨_, rfl, hinv, hcalls, h.returned⟩
  | addTimer timer when interval =>
    simp only [step, Option.ite_none_right_eq_some, Option.some.injEq] at hs
    obtain ⟨⟨huser, hfree⟩, rfl⟩ := hs
    exact addTimer_ok h huser hfree when interval
  | swap =>
    simp only [step, Option.ite_none_right_eq_some, Option.some.injEq] at hs
    obtain ⟨-, rfl⟩ := hs
    exact ⟨_, rfl, h.runs, h.calls, h.returned⟩
  | runFunctor =>
    simp only [step] at hs
    split at hs
    · cases hs
    · simp only [Option.ite_none_right_eq_some, Option.map_eq_some_iff] at hs
      obtain ⟨-, o', ho', rfl⟩ := hs
      obtain ⟨runs, rfl, -, hinv, hcalls⟩ := h.of_step ho' fun _ _ _ => id
      exact ⟨_, rfl, hinv, hcalls, h.returned⟩
  | newTimer t timer when interval =>
    simp only [step] at hs
    split at hs
    · cases hs
    · obtain ⟨o', ho', rfl⟩ := Option.map_eq_some_iff.1 hs
      obtain ⟨runs, rfl, hmove, hinv, hcalls⟩ := h.of_step ho' fun _ _ _ => id
      refine ⟨_, rfl, hinv, fun u c hcu => ?_, h.returned⟩
      rcases mem_update hcu with hcu | hcu
      · -- the new timer
        cases hcu
        obtain ⟨-, hout⟩ := outcome_of_moves h.runs hmove
        cases hout
        exact ⟨_, Function.update_self .., rfl⟩
      · exact hcalls u c hcu
  | queueInLoop t =>
    simp only [step] at hs
    split at hs
    · next k hk =>
      cases hs
      refine ⟨_, rfl, h.runs, fun u c hcu => ?_, h.returned⟩
      rcases mem_update hcu with hcu | hcu
      · cases hcu
        exact h.calls t ⟨k, false⟩ hk
      · exact h.calls u c hcu
    · cases hs
  | readSequence t =>
    simp only [step] at hs
    split at hs
    · next k hk =>
      obtain ⟨tm, htm, hseq⟩ := h.calls t _ hk
      rw [deref_eq htm] at hs
      cases hs
      refine ⟨_, rfl, h.runs, fun u c hcu => ?_, fun r hr => ?_⟩
      · rcases mem_update hcu with hcu | hcu
        · cases hcu
        · exact h.calls u c hcu
      · rcases List.mem_append.1 hr with hr | hr
        · exact h.returned r hr
        · rw [List.mem_singleton.1 hr]
          exact congrArg (TimerId.mk k.timer) hseq
    · cases hs

theorem start_sound (clock : ℤ) : Sound (start clock : State τ) :=
  ⟨start_inv clock, (by rintro t c ⟨⟩), by rintro r ⟨⟩⟩

theorem Sound.identified {s : State τ} (h : Sound s) : Identified s := by
  refine ⟨h.calls, fun t e he => ?_, h.returned⟩
  obtain ⟨s', hs', -⟩ := step_sound h (show Undisturbed s (.readSequence t) from trivial) he
  cases hs'

/-- **`addTimer` returns the identity of its timer exactly as long as the loop deletes no timer of a
running call**: in every state of such a run it does, and the next step keeps it so if and only if
it is another such step. -/
theorem identified_iff {clock : ℤ} {s : State τ}
    (h : Reach (Moves step) Undisturbed (start clock) s) :
    Identified s ∧ ∀ l s', Moves step s l s' → (Identified s' ↔ Undisturbed s l) := by
  have hsound : Sound s := by
    refine h.invariant (start_sound clock) fun x l y hx hc hs => ?_
    obtain ⟨y', hy, hy'⟩ := step_sound hx hc hs
    cases hy
    exact hy'
  refine ⟨hsound.identified, fun l s' hs => ⟨fun hid => ?_, fun hc => ?_⟩⟩
  · cases l with
    | loop l =>
      intro t c hc hd
      simp only [Moves, step, Option.ite_none_right_eq_some, Option.map_eq_some_iff] at hs
      obtain ⟨-, o, ho, hmap⟩ := hs
      obtain ⟨runs, rfl, hs'⟩ := map_eq_ok.1 hmap
      subst hs'
      exact deletes_gone hsound.runs ho (hsound.calls t c hc) hd (hid.allocated t c hc)
    | _ => trivial
  · obtain ⟨s'', hs'', hsound'⟩ := step_sound hsound hc hs
    cases hs''
    exact hsound'.identified

/-! A timer that fires once, after a millisecond. -/

/-- A call of `addTimer` in a thread up to the functor, and the loop up to `addTimerInLoop`. -/
def handOver : List (Label (Fin 2)) :=
  [.newTimer 0 8 2000 once, .queueInLoop 0, .swap, .runFunctor]

/-- The timer fires and is deleted. -/
def fire : List (Label (Fin 2)) :=
  [.loop (.tick 5000), .loop (.beginRead 0), .loop .startCallback, .loop .endCallback,
    .loop .endRead]

/-- The sequence number is read before the timer fires. -/
theorem identified_iff_in_time :
    ∃ s : State (Fin 2), Reach (Moves step) Undisturbed (start 1000) s ∧
      s.returned = [(⟨8, 1⟩, ⟨8, 1⟩)] ∧
      Identified s ∧ ∀ l s', Moves step s l s' → (Identified s' ↔ Undisturbed s l) := by
  obtain ⟨s, hs, hp⟩ := exists_reach_of_run step Undisturbed (start 1000)
    (handOver ++ .readSequence 0 :: fire)
    (fun s => decide (s.returned = [(⟨8, 1⟩, ⟨8, 1⟩)])) (by decide +kernel)
  exact ⟨s, hs, of_decide_eq_true hp, identified_iff hs⟩

/-- The calling thread is delayed until the timer has been deleted: then it reads freed memory, or
the sequence number of a timer that another thread has created at the same address. -/
theorem identity_lost :
    (∃ s : State (Fin 2), Reach (Moves step) Always (start 1000) s ∧
      step s (.readSequence 0) = some (.error .useAfterFree) ∧ ¬ Identified s) ∧
    ∃ s : State (Fin 2), Reach (Moves step) Always (start 1000) s ∧
      s.returned = [(⟨8, 1⟩, ⟨8, 2⟩)] ∧ ¬ Identified s := by
  constructor
  · obtain ⟨s, hs, hp⟩ := exists_reach_of_run step Always (start 1000) (handOver ++ fire)
      (fun s => fails step s (.readSequence 0) .useAfterFree) (by decide +kernel)
    have hfail := eq_of_fails hp
    exact ⟨s, hs, hfail, fun h => h.reads 0 _ hfail⟩
  · obtain ⟨s, hs, hp⟩ := exists_reach_of_run step Always (start 1000)
      (handOver ++ fire ++ [.newTimer 1 8 9000 once, .readSequence 0])
      (fun s => decide (s.returned = [(⟨8, 1⟩, ⟨8, 2⟩)])) (by decide +kernel)
    have hret := of_decide_eq_true hp
    refine ⟨s, hs, hret, fun h => ?_⟩
    have hid := h.returned (⟨8, 1⟩, ⟨8, 2⟩) (by rw [hret]; exact List.mem_cons_self)
    cases hid

end AddTimer

end Fppnet
