import Fppnet.Net.TimerRuns

/-!
# Cancelling a timer

`cancelInLoop` finds a timer in `activeTimers_`, and deletes it there; otherwise it leaves a note in
`cancelingTimers_`, which only `reset` reads. So it comes too late for a timer whose turn in the
running batch is still to come, since the loop of `handleRead` does not look at the notes, and it
comes too early for a timer that `addTimerInLoop` has not added yet. `cancel_effective` says that in
all other cases the callback of the timer is not started again. The id that `addTimer` returns is
the address and the sequence number of the timer that it has created.
-/

namespace Fppnet

open Checked Runs TimerQueue TimerRuns

namespace TimerCancel

/-- The expired timers whose callbacks have not been started. -/
def remaining (b : Batch) : List ActiveTimer :=
  b.objects.drop (if b.inCallback then b.next + 1 else b.next)

/-- A call of `cancelInLoop` with this id finds the timer added, and not waiting for its turn in the
running batch. -/
def InTime (id : TimerId) (s : State) : Label → Prop
  | .cancelInLoop id' =>
    id' = id → id.active ∉ s.handed ∧ ∀ b ∈ s.batch, id.active ∉ remaining b
  | _ => True

instance (id : TimerId) (s : State) (l : Label) : Decidable (InTime id s l) := by
  unfold InTime
  split <;> infer_instance

/-- The callback of a timer is not started any more once `cancelInLoop` has been called with an id
that `addTimer` has returned. -/
def Effective (id : TimerId) (s : State) : Prop :=
  ∀ before after, s.events = before ++ .cancelled id :: after → .created id ∈ before →
    .started id ∉ after

/-- The timer has been deleted, or its callback has had its turn in the running batch and `reset` is
going to delete it. -/
def Stopped (id : TimerId) (s : State) : Prop :=
  id.sequence_ ∈ s.queue.deleted ∨ ∃ b, s.batch = some b ∧ id.active ∈ b.objects ∧
    id.active ∈ s.queue.cancelingTimers_ ∧ id.active ∉ remaining b

/-- The timer exists or has been deleted. -/
def Located (id : TimerId) (s : State) : Prop :=
  s.queue.Points id.active ∨ id.sequence_ ∈ s.queue.deleted

theorem located_step {id : TimerId} {s s' : State} {l : Label} (h : Located id s)
    (ho : Outcome s l s') : Located id s' := by
  cases ho with
  | tick delay => exact h
  | newTimer when interval hfree =>
    refine h.imp (fun hp => ?_) (fun hd => hd)
    refine hp.of_heap (Function.update_of_ne (fun heq => ?_) ..)
    obtain ⟨t, ht, -⟩ := hp
    rw [heq, hfree.2.2] at ht
    cases ht
  | newElsewhere => exact h
  | @added k t hk ht hgood =>
    obtain ⟨hheap, -, hdel, -⟩ := added_frame s.queue k t
    refine h.imp (fun hp => hp.of_heap (congrFun hheap _)) (fun hd => ?_)
    rw [hdel]
    exact hd
  | cancelled hgood hq =>
    rcases h with hp | hd
    · exact hq.gone _ hp
    · exact .inr (hq.deleted hd)
  | begun hidle hgood hq => exact h.imp (hq.points _) fun hd => hq.deleted hd
  | started hb hout hk => exact h
  | ended hb hin => exact h
  | @finished b q hb hgood hq hcancel =>
    obtain ⟨-, -, -, -, hdel⟩ := rearmed_frame q
    have hheap : q.rearmed.heap = q.heap := rearmed_heap q
    have hq' : q.Points id.active ∨ id.sequence_ ∈ q.deleted := by
      rcases h with hp | hd
      · exact hq.gone _ hp
      · exact .inr (hq.deleted hd)
    refine hq'.imp (fun hp => hp.of_heap (congrFun hheap _)) (fun hd => ?_)
    rw [hdel]
    exact hd

/-- A stopped timer stays stopped. -/
theorem stopped_step {id : TimerId} {s s' : State} {l : Label} (h : Stopped id s)
    (ho : Outcome s l s') : Stopped id s' := by
  cases ho with
  | tick delay => exact h
  | newTimer when interval hfree => exact h
  | newElsewhere => exact h
  | @added k t hk ht hgood =>
    obtain ⟨-, -, hdel, hcan⟩ := added_frame s.queue k t
    unfold Stopped at h ⊢
    simp only [hdel, hcan]
    exact h
  | cancelled hgood hq =>
    rcases h with hd | ⟨b, hb, hobj, hcan, hrem⟩
    · exact .inl (hq.deleted hd)
    · exact .inr ⟨b, hb, hobj, hq.canceling _ hcan, hrem⟩
  | begun hidle hgood hq =>
    rcases h with hd | ⟨b, hb, -⟩
    · exact .inl (hq.deleted hd)
    · rw [hidle] at hb
      cases hb
  | @started b k hb hout hk =>
    rcases h with hd | ⟨b', hb', hobj, hcan, hrem⟩
    · exact .inl hd
    · rw [hb] at hb'
      cases hb'
      refine .inr ⟨_, rfl, hobj, hcan, fun hmem => hrem ?_⟩
      rw [remaining, hout]
      exact List.drop_subset_drop_left _ (Nat.le_succ _) hmem
  | @ended b hb hin =>
    rcases h with hd | ⟨b', hb', hobj, hcan, hrem⟩
    · exact .inl hd
    · rw [hb] at hb'
      cases hb'
      refine .inr ⟨_, rfl, hobj, hcan, fun hmem => hrem ?_⟩
      rw [remaining, hin]
      exact hmem
  | @finished b q hb hgood hq hcancel =>
    rcases h with hd | ⟨b', hb', hobj, hcan, -⟩
    · left
      rw [(rearmed_frame q).2.2.2.2]
      exact hq.deleted hd
    · rw [hb] at hb'
      cases hb'
      exact .inl (hcancel _ hobj hcan)

/-- The callback of a stopped timer is not started. -/
theorem not_started {id : TimerId} {s s' : State} {l : Label} (hinv : Inv s) (h : Stopped id s)
    (ho : Outcome s l s') {e : Event} (he : s'.events = s.events ++ [e]) : e ≠ .started id := by
  rintro rfl
  cases ho with
  | @started b k hb hout hk =>
    simp only [List.append_cancel_left_eq, List.cons.injEq, Event.started.injEq, and_true] at he
    obtain rfl : k = id.active := by rw [← he]; rfl
    have hmem : id.active ∈ b.objects := List.mem_of_getElem? hk
    rcases h with hd | ⟨b', hb', -, -, hrem⟩
    · -- the timer still exists, so it has not been deleted
      obtain ⟨t, ht, hs⟩ := hinv.good.points _
        (List.mem_append_left _ (objects_of_batch hb ▸ hmem))
      exact hinv.good.deleted_gone _ hd _ t ht hs
    · rw [hb] at hb'
      cases hb'
      refine hrem ?_
      rw [remaining, hout]
      exact List.mem_of_getElem? (i := 0) (by rw [List.getElem?_drop]; exact hk)
  | _ => simp at he

/-- A call of `cancelInLoop` in time stops the timer. -/
theorem cancelled_stopped {id : TimerId} {s s' : State} (hinv : Inv s) (hloc : Located id s)
    (hc : InTime id s (.cancelInLoop id)) (ho : Outcome s (.cancelInLoop id) s') :
    Stopped id s' := by
  obtain ⟨hadded, hturn⟩ := hc rfl
  cases ho with
  | cancelled hgood hq =>
    by_cases hactive : id.active ∈ s.queue.activeTimers_
    · exact .inl (hq.active hactive)
    · rcases hloc with hp | hd
      · -- the timer is neither in the sets nor waiting to be added: it is in the batch
        rcases List.mem_append.1 ((hinv.good.owned _ hp).resolve_left hactive) with hobj | hhanded
        · cases hb : s.batch with
          | none =>
            rw [State.objects, hb] at hobj
            cases hobj
          | some b =>
            have hcalling : s.queue.callingExpiredTimers_ = true := by rw [hinv.calling, hb]; rfl
            exact .inr ⟨b, rfl, objects_of_batch hb ▸ hobj, hq.inactive hactive hcalling,
              hturn b hb⟩
        · exact absurd hhanded hadded
      · exact .inl (hq.deleted hd)

/-! ### Whole runs -/

theorem append_singleton_split {α : Type} {l before after : List α} {e c : α}
    (h : l ++ [e] = before ++ c :: after) :
    (l = before ∧ e = c ∧ after = []) ∨
      ∃ after', after = after' ++ [e] ∧ l = before ++ c :: after' := by
  rcases List.eq_nil_or_concat after with rfl | ⟨after', a, rfl⟩
  · left
    obtain ⟨h1, h2⟩ := List.append_inj' h rfl
    cases h2
    exact ⟨h1, rfl, rfl⟩
  · right
    rw [List.concat_eq_append, ← List.cons_append, ← List.append_assoc] at h
    obtain ⟨h1, h2⟩ := List.append_inj' h rfl
    cases h2
    exact ⟨after', List.concat_eq_append, h1⟩

/-- Each step adds at most one event. A timer that has just been created exists. -/
theorem events_step {s s' : State} {l : Label} (ho : Outcome s l s') :
    s'.events = s.events ∨ ∃ e, s'.events = s.events ++ [e] ∧
      (∀ id, e = .created id → Located id s') ∧ ∀ id, e = .cancelled id → l = .cancelInLoop id := by
  cases ho with
  | newTimer when interval hfree =>
    refine .inr ⟨_, rfl, ?_, by rintro id ⟨⟩⟩
    rintro id ⟨rfl⟩
    exact .inl ⟨_, Function.update_self .., rfl⟩
  | cancelled hgood hq =>
    refine .inr ⟨_, rfl, by rintro id ⟨⟩, ?_⟩
    rintro id ⟨rfl⟩
    rfl
  | started hb hout hk => exact .inr ⟨_, rfl, by rintro id ⟨⟩, by rintro id ⟨⟩⟩
  | _ => exact .inl rfl

/-- What is known of the timer of an id in the course of a run. -/
structure Followed (id : TimerId) (s : State) : Prop where
  located : .created id ∈ s.events → Located id s
  stopped : ∀ before after, s.events = before ++ .cancelled id :: after → .created id ∈ before →
    .started id ∉ after ∧ Stopped id s

theorem followed_step {id : TimerId} {s s' : State} {l : Label} (hinv : Inv s)
    (h : Followed id s) (hc : InTime id s l) (ho : Outcome s l s') : Followed id s' := by
  rcases events_step ho with he | ⟨e, he, hcreated, hcancelled⟩
  · refine ⟨fun hmem => located_step (h.located (he ▸ hmem)) ho, fun before after hsplit hmem => ?_⟩
    obtain ⟨hns, hst⟩ := h.stopped before after (he ▸ hsplit) hmem
    exact ⟨hns, stopped_step hst ho⟩
  · constructor
    · intro hmem
      rw [he, List.mem_append, List.mem_singleton] at hmem
      rcases hmem with hmem | heq
      · exact located_step (h.located hmem) ho
      · exact hcreated id heq.symm
    · intro before after hsplit hmem
      rw [he] at hsplit
      rcases append_singleton_split hsplit with ⟨rfl, rfl, rfl⟩ | ⟨after', rfl, hsplit'⟩
      · obtain rfl := hcancelled id rfl
        exact ⟨List.not_mem_nil, cancelled_stopped hinv (h.located hmem) hc ho⟩
      · obtain ⟨hns, hst⟩ := h.stopped before after' hsplit' hmem
        refine ⟨fun hin => ?_, stopped_step hst ho⟩
        rcases List.mem_append.1 hin with hin | hin
        · exact hns hin
        · exact not_started hinv hst ho he (List.mem_singleton.1 hin).symm

/-- **Cancellation is effective when it is in time**: in a run in which every call of
`cancelInLoop(id)` finds the timer added and not waiting for its turn in the running batch, the
callback of the timer is not started after such a call. -/
theorem cancel_effective {clock : ℤ} {id : TimerId} {s : State}
    (h : Reach (Moves step) (InTime id) (start clock) s) : Effective id s := by
  have hboth : Inv s ∧ Followed id s := by
    refine h.invariant (I := fun x => Inv x ∧ Followed id x) ⟨start_inv clock, ?_, ?_⟩ ?_
    · rintro ⟨⟩
    · intro before after hsplit
      exact absurd hsplit (by simp [start])
    · rintro x l y ⟨hx, hf⟩ hc hs
      obtain ⟨y', hy, ho⟩ := step_outcome hx hs
      cases hy
      exact ⟨ho.inv hx, followed_step hx hf hc ho⟩
  exact fun before after hsplit hmem => (hboth.2.stopped before after hsplit hmem).1

/-! Two timers that are due together, where the callback of the first cancels one of them. -/

/-- The first timer cancels itself. -/
theorem cancel_effective_self :
    ∃ s, Reach (Moves step) (InTime ⟨8, 1⟩) (start 1000) s ∧
      .cancelled ⟨8, 1⟩ ∈ s.events ∧ Effective ⟨8, 1⟩ s := by
  obtain ⟨s, hs, hp⟩ := exists_reach_of_run step (InTime ⟨8, 1⟩) (start 1000)
    (firstCallback every ++ [.cancelInLoop ⟨8, 1⟩, .endCallback, .startCallback, .endCallback,
      .endRead, .tick 5000, .beginRead 0])
    (fun s => decide (.cancelled ⟨8, 1⟩ ∈ s.events)) (by decide +kernel)
  exact ⟨s, hs, of_decide_eq_true hp, cancel_effective hs⟩

/-- The first timer cancels the second, whose callback is started nevertheless; and a timer that is
cancelled before it has been added is added and run. -/
theorem cancel_ineffective :
    (∃ s, Reach (Moves step) Always (start 1000) s ∧ ¬ Effective ⟨16, 2⟩ s) ∧
      ∃ s, Reach (Moves step) Always (start 1000) s ∧ ¬ Effective ⟨8, 1⟩ s := by
  constructor
  · obtain ⟨s, hs, hp⟩ := exists_reach_of_run step Always (start 1000)
      (firstCallback once ++ [.cancelInLoop ⟨16, 2⟩, .endCallback, .startCallback])
      (fun s => decide (s.events = [.created ⟨8, 1⟩, .created ⟨16, 2⟩, .started ⟨8, 1⟩,
        .cancelled ⟨16, 2⟩, .started ⟨16, 2⟩])) (by decide +kernel)
    refine ⟨s, hs, fun heff => ?_⟩
    exact heff [.created ⟨8, 1⟩, .created ⟨16, 2⟩, .started ⟨8, 1⟩] [.started ⟨16, 2⟩]
      (of_decide_eq_true hp) (by decide) (by decide)
  · obtain ⟨s, hs, hp⟩ := exists_reach_of_run step Always (start 1000)
      [.newTimer 8 2000 once, .cancelInLoop ⟨8, 1⟩, .addTimerInLoop ⟨8, 1⟩, .tick 5000,
        .beginRead 0, .startCallback]
      (fun s => decide (s.events = [.created ⟨8, 1⟩, .cancelled ⟨8, 1⟩, .started ⟨8, 1⟩]))
      (by decide +kernel)
    refine ⟨s, hs, fun heff => ?_⟩
    exact heff [.created ⟨8, 1⟩] [.started ⟨8, 1⟩] (of_decide_eq_true hp) (by decide) (by decide)

end TimerCancel

end Fppnet
