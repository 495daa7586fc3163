import Fppnet.Net.TimerRuns

/-!
# One round of expired timers

A round is what happens between the beginning and the end of one `handleRead`: the callbacks run,
and they add and cancel timers, while other threads create timers, also at addresses that have been
freed in the meantime.

* `Pending q id t`: the timer of `id` is in both sets of the queue, and `t` is its object;
* `pending_step` and `active_back` say which steps make a timer pending, or not pending any more;
* `Settles` says what `reset` does to each timer of its batch, and to the others;
* `expiry_round` is the effect of a whole round, and `cancel_hits_own` that of one `cancelInLoop`,
  inside or outside a round.
-/

namespace Fppnet

open Checked Runs TimerQueue TimerRuns

/-- The id of an active timer. -/
def ActiveTimer.id (k : ActiveTimer) : TimerId := ⟨k.timer, k.sequence⟩

@[simp] theorem ActiveTimer.active_id (k : ActiveTimer) : k.id.active = k := rfl

@[simp] theorem TimerId.id_active (id : TimerId) : id.active.id = id := rfl

namespace TimerQueue

/-- The timer of `id` is in both sets, and `t` is its object. -/
structure Pending (q : TimerQueue) (id : TimerId) (t : Timer) : Prop where
  object : q.heap id.timer_ = some t
  sequence : t.sequence_ = id.sequence_
  timers : ⟨t.expiration_, id.timer_⟩ ∈ q.timers_
  active : id.active ∈ q.activeTimers_

/-- The timer of `id` has been deleted. -/
structure Gone (q : TimerQueue) (id : TimerId) : Prop where
  deleted : id.sequence_ ∈ q.deleted
  points : ¬ q.Points id.active
  active : id.active ∉ q.activeTimers_

theorem Good.pending {q : TimerQueue} {l : List ActiveTimer} (h : Good q l) {id : TimerId}
    {t : Timer} (ht : q.heap id.timer_ = some t) (ha : id.active ∈ q.activeTimers_) :
    Pending q id t := by
  obtain ⟨t', ht', hs⟩ := h.active _ ha
  obtain rfl : t = t' := Option.some.inj (ht.symm.trans ht')
  exact ⟨ht, hs, h.entry ha ht, ha⟩

theorem Good.exists_pending {q : TimerQueue} {l : List ActiveTimer} (h : Good q l) {id : TimerId}
    (ha : id.active ∈ q.activeTimers_) : ∃ t, Pending q id t := by
  obtain ⟨t, ht, -⟩ := h.active _ ha
  exact ⟨t, h.pending ht ha⟩

/-- Sequence numbers are not used again, so a deleted timer is gone for good. -/
theorem Good.gone {q : TimerQueue} {l : List ActiveTimer} (h : Good q l) {id : TimerId}
    (hd : id.sequence_ ∈ q.deleted) : Gone q id := by
  have hp : ¬ q.Points id.active := by
    rintro ⟨t, ht, hs⟩
    exact h.deleted_gone _ hd _ t ht hs
  exact ⟨hd, hp, fun ha => hp (h.active _ ha)⟩

theorem Pending.points {q : TimerQueue} {id : TimerId} {t : Timer} (h : Pending q id t) :
    q.Points id.active := ⟨t, h.object, h.sequence⟩

/-- Two pending timers at one address are one timer. -/
theorem Pending.eq_of_timer {q : TimerQueue} {id id' : TimerId} {t t' : Timer}
    (h : Pending q id t) (h' : Pending q id' t') (heq : id.timer_ = id'.timer_) : id = id' := by
  have hk := h.points.unique h'.points heq
  rw [← TimerId.id_active id, hk, TimerId.id_active]

/-! ### What `cancelInLoop` does to the pending timers -/

/-- Taking one timer out and deleting it leaves the other pending timers alone. -/
theorem pending_deleted {q : TimerQueue} {l : List ActiveTimer} (h : Good q l) {id : TimerId}
    {t : Timer} (ht : Pending q id t) (hgood : Good ((q.takenOut id.active t).without id.active) l)
    {id' : TimerId} {u : Timer} (hne : id' ≠ id) :
    Pending ((q.takenOut id.active t).without id.active) id' u ↔ Pending q id' u := by
  have hother : ∀ p, p ≠ id.timer_ →
      ((q.takenOut id.active t).without id.active).heap p = q.heap p :=
    fun p hp => Function.update_of_ne hp ..
  have hself : ((q.takenOut id.active t).without id.active).heap id.timer_ = none :=
    Function.update_self ..
  constructor
  · intro hp
    have hadd : id'.timer_ ≠ id.timer_ := by
      intro heq
      have hobj := hp.object
      rw [heq, hself] at hobj
      cases hobj
    exact h.pending ((hother _ hadd).symm.trans hp.object) (SortedSet.mem_erase.1 hp.active).2
  · intro hp
    have hadd : id'.timer_ ≠ id.timer_ := fun heq => hne (hp.eq_of_timer ht heq)
    refine hgood.pending ((hother _ hadd).trans hp.object) (SortedSet.mem_erase.2 ⟨?_, hp.active⟩)
    exact fun heq => hadd (congrArg ActiveTimer.timer heq)

theorem pending_noted {q : TimerQueue} {k : ActiveTimer} {id : TimerId} {u : Timer} :
    Pending (q.noted k) id u ↔ Pending q id u := by
  obtain ⟨-, hheap, htimers, hactive, -⟩ := noted_frame q k
  constructor
  · rintro ⟨h1, h2, h3, h4⟩
    exact ⟨hheap ▸ h1, h2, htimers ▸ h3, hactive ▸ h4⟩
  · rintro ⟨h1, h2, h3, h4⟩
    exact ⟨hheap.symm ▸ h1, h2, htimers.symm ▸ h3, hactive.symm ▸ h4⟩

/-! ### What `reset` does to each timer -/

/-- The batch `ks` is settled: its timers are pending again at a later time or deleted, and all the
others are as they were. -/
structure Settles (now : ℤ) (ks : List ActiveTimer) (q q' : TimerQueue) : Prop where
  heap : ∀ p, (∀ k ∈ ks, k.timer ≠ p) → q'.heap p = q.heap p
  active : ∀ a : ActiveTimer, (∀ k ∈ ks, k.timer ≠ a.timer) →
    (a ∈ q'.activeTimers_ ↔ a ∈ q.activeTimers_)
  again : ∀ k ∈ ks, ∀ t, q.heap k.timer = some t → t.repeat_ = true → k ∉ q.cancelingTimers_ →
    q'.heap k.timer = some (t.restart now) ∧ k ∈ q'.activeTimers_
  gone : ∀ k ∈ ks, ∀ t, q.heap k.timer = some t →
    ¬ (t.repeat_ = true ∧ k ∉ q.cancelingTimers_) → k.sequence ∈ q'.deleted
  only : ∀ a ∈ q'.activeTimers_, a ∈ q.activeTimers_ ∨ a ∈ ks
  deleted : q.deleted ⊆ q'.deleted

/-- The effect of `resetOne` on its own timer and on the others. -/
theorem resetOne_settles {q q' : TimerQueue} {l : List ActiveTimer} {k : ActiveTimer} {e : Entry}
    {now : ℤ} (h : Good q (k :: l)) (he : e.timer = k.timer) (hq : q.resetOne now e = .ok q') :
    Settles now [k] q q' ∧ Good q' l ∧ q'.cancelingTimers_ = q.cancelingTimers_ := by
  obtain ⟨t, ht, hs⟩ := h.points k List.mem_cons_self
  have hsame : ∀ t', q.heap k.timer = some t' → t' = t :=
    fun t' ht' => Option.some.inj (ht'.symm.trans ht)
  rcases resetOne_cases h he ht now with ⟨hrepeat, hc, hone, hgood⟩ | ⟨hnot, hone, hgood⟩ <;>
    rw [hone] at hq <;> cases hq
  · refine ⟨⟨fun p hp => ?_, fun a ha => ?_, fun k' hk' t' ht' _ _ => ?_,
      fun k' hk' t' ht' hnot => ?_, fun a ha => ?_, List.Subset.refl _⟩, hgood, rfl⟩
    · exact Function.update_of_ne (hp k List.mem_cons_self).symm ..
    · show a ∈ (q.activeTimers_.insert k).1 ↔ _
      rw [SortedSet.mem_insert]
      exact or_iff_right fun heq => ha k List.mem_cons_self (heq ▸ rfl)
    · obtain rfl := List.mem_singleton.1 hk'
      rw [hsame t' ht']
      exact ⟨Function.update_self .., SortedSet.mem_insert.2 (.inl rfl)⟩
    · obtain rfl := List.mem_singleton.1 hk'
      rw [hsame t' ht'] at hnot
      exact absurd ⟨hrepeat, hc⟩ hnot
    · exact (SortedSet.mem_insert.1 ha).symm.imp id List.mem_singleton.2
  · refine ⟨⟨fun p hp => ?_, fun a _ => Iff.rfl, fun k' hk' t' ht' hr hc => ?_,
      fun k' hk' t' ht' _ => ?_, fun a ha => .inl ha, List.subset_append_left _ _⟩, hgood, rfl⟩
    · exact Function.update_of_ne (hp k List.mem_cons_self).symm ..
    · obtain rfl := List.mem_singleton.1 hk'
      rw [hsame t' ht'] at hr
      exact absurd ⟨hr, hc⟩ hnot
    · obtain rfl := List.mem_singleton.1 hk'
      exact List.mem_append_right _ (List.mem_singleton.2 rfl)

/-- The loop of `reset` settles its batch, one timer after the other. -/
theorem resetEach_settles {q q' : TimerQueue} {es : List Entry} {ks l : List ActiveTimer} {now : ℤ}
    (h : Good q (ks ++ l)) (hes : es.map Entry.timer = ks.map ActiveTimer.timer)
    (hq : q.resetEach now es = .ok q') : Settles now ks q q' := by
  induction es generalizing q ks with
  | nil =>
    obtain rfl : ks = [] := List.map_eq_nil_iff.1 hes.symm
    cases hq
    exact ⟨fun _ _ => rfl, fun _ _ => Iff.rfl, fun k hk => absurd hk List.not_mem_nil,
      fun k hk => absurd hk List.not_mem_nil, fun a ha => .inl ha, List.Subset.refl _⟩
  | cons e es ih =>
    cases ks with
    | nil => cases hes
    | cons k ks =>
      rw [List.map_cons, List.map_cons, List.cons.injEq] at hes
      obtain ⟨q₁, hone, hrest⟩ := bind_eq_ok.1 hq
      obtain ⟨hk, hgood, hcan⟩ := resetOne_settles h hes.1 hone
      have hks := ih hgood hes.2 hrest
      -- the first timer is not among the others
      have hnd := h.nodup
      rw [List.cons_append, List.map_cons, List.nodup_cons, List.map_append,
        List.mem_append] at hnd
      have hapart : ∀ a ∈ ks, a.timer ≠ k.timer :=
        fun a ha heq => hnd.1 (.inl (heq ▸ List.mem_map_of_mem ha))
      have hfirst : ∀ a ∈ ks, ∀ b ∈ [k], b.timer ≠ a.timer := by
        intro a ha b hb
        obtain rfl := List.mem_singleton.1 hb
        exact (hapart a ha).symm
      refine ⟨fun p hp => ?_, fun a ha => ?_, fun a ha t ht hr hc => ?_, fun a ha t ht hn => ?_,
        fun a ha => ?_, List.Subset.trans hk.deleted hks.deleted⟩
      · rw [hks.heap p fun a ha => hp a (List.mem_cons_of_mem _ ha),
          hk.heap p fun a ha => hp a (List.mem_singleton.1 ha ▸ List.mem_cons_self)]
      · rw [hks.active a fun b hb => ha b (List.mem_cons_of_mem _ hb),
          hk.active a fun b hb => ha b (List.mem_singleton.1 hb ▸ List.mem_cons_self)]
      · rcases List.mem_cons.1 ha with rfl | ha
        · obtain ⟨hheap, hact⟩ := hk.again a List.mem_cons_self t ht hr hc
          exact ⟨(hks.heap _ hapart).trans hheap, (hks.active a hapart).2 hact⟩
        · exact hks.again a ha t ((hk.heap _ (hfirst a ha)).trans ht) hr (hcan ▸ hc)
      · rcases List.mem_cons.1 ha with rfl | ha
        · exact hks.deleted (hk.gone a List.mem_cons_self t ht hn)
        · exact hks.gone a ha t ((hk.heap _ (hfirst a ha)).trans ht) (hcan ▸ hn)
      · rcases hks.only a ha with ha | ha
        · rcases hk.only a ha with ha | ha
          · exact .inl ha
          · obtain rfl := List.mem_singleton.1 ha
            exact .inr List.mem_cons_self
        · exact .inr (List.mem_cons_of_mem _ ha)

/-! ### The timers that are due -/

/-- The timers that `getExpired` takes out of the sets, in this order. -/
def due (q : TimerQueue) (now : ℤ) : List ActiveTimer :=
  q.objects (q.timers_.below ⟨now, UINTPTR_MAX⟩)

theorem Good.mem_due {q : TimerQueue} {l : List ActiveTimer} (h : Good q l) {now : ℤ}
    {k : ActiveTimer} : k ∈ q.due now ↔ ∃ t, Pending q k.id t ∧ t.expiration_ ≤ now := by
  constructor
  · intro hk
    obtain ⟨ha, -, e, he, hek⟩ :=
      h.of_objects (fun e he => (SortedSet.mem_below.1 he).1) hk
    obtain ⟨hmem, hlt⟩ := SortedSet.mem_below.1 he
    obtain ⟨t, ht⟩ : ∃ t, Pending q k.id t := h.exists_pending ha
    obtain ⟨t', ht', hx⟩ := h.timers e hmem
    rw [hek] at ht'
    obtain rfl : t = t' := Option.some.inj (ht.object.symm.trans ht')
    exact ⟨t, ht, hx ▸ Entry.le_when (le_of_lt hlt)⟩
  · rintro ⟨t, ht, hle⟩
    have hlt : (⟨t.expiration_, k.timer⟩ : Entry) < ⟨now, UINTPTR_MAX⟩ := by
      rw [Entry.lt_iff]
      rcases lt_or_eq_of_le hle with hw | hw
      · exact .inl hw
      · exact .inr ⟨hw, (h.addr _ t ht.object).2⟩
    refine List.mem_map.2 ⟨⟨t.expiration_, k.timer⟩, SortedSet.mem_below.2 ⟨ht.timers, hlt⟩, ?_⟩
    have hobj : q.heap k.timer = some t := ht.object
    have hseq : t.sequence_ = k.sequence := ht.sequence
    simp [hobj, hseq]

/-- The due timers are in the order of their expiration. -/
theorem Good.due_pairwise {q : TimerQueue} {l : List ActiveTimer} (h : Good q l) (now : ℤ) :
    (q.due now).Pairwise fun a b => ∀ t u, Pending q a.id t → Pending q b.id u →
      t.expiration_ ≤ u.expiration_ := by
  have hsorted : (q.timers_.below ⟨now, UINTPTR_MAX⟩).Pairwise (· < ·) :=
    q.timers_.sorted.sublist (List.takeWhile_sublist _)
  have hwhen : ∀ e ∈ q.timers_.below ⟨now, UINTPTR_MAX⟩, ∀ (id : TimerId) t, id.timer_ = e.timer →
      Pending q id t → t.expiration_ = e.when := by
    intro e he id t hid ht
    obtain ⟨t', ht', hx⟩ := h.timers e (SortedSet.mem_below.1 he).1
    rw [← hid] at ht'
    obtain rfl : t = t' := Option.some.inj (ht.object.symm.trans ht')
    exact hx
  rw [due, objects, List.pairwise_map]
  refine hsorted.imp_of_mem fun {e e'} he he' hlt t u ht hu => ?_
  rw [hwhen e he _ t rfl ht, hwhen e' he' _ u rfl hu]
  exact Entry.le_when (le_of_lt hlt)

theorem Good.due_nodup {q : TimerQueue} {l : List ActiveTimer} (h : Good q l) (now : ℤ) :
    (q.due now).Nodup := by
  have hmem : ∀ e ∈ q.timers_.below ⟨now, UINTPTR_MAX⟩, e ∈ q.timers_ :=
    fun e he => (SortedSet.mem_below.1 he).1
  refine (List.nodup_map_iff_inj_on (q.timers_.below_nodup _)).2 fun e he e' he' heq => ?_
  exact h.entry_unique (hmem e he) (hmem e' he') (ActiveTimer.mk.inj heq).1

end TimerQueue

namespace TimerRound

/-! ### The steps at both ends of a round, and `cancelInLoop` -/

theorem cancel_cases {x y : State} {id : TimerId} (h : Inv x)
    (hs : Moves step x (.cancelInLoop id) y) :
    y.batch = x.batch ∧ y.handed = x.handed ∧ y.events = x.events ++ [.cancelled id] ∧
      Good y.queue (x.objects ++ x.handed) ∧
      ((∃ t, Pending x.queue id t ∧
        y.queue = (x.queue.takenOut id.active t).without id.active) ∨
      (id.active ∉ x.queue.activeTimers_ ∧ y.queue = x.queue.noted id.active)) := by
  simp only [Moves, step, Option.ite_none_right_eq_some, Option.some.injEq] at hs
  obtain ⟨-, hs⟩ := hs
  rcases cancelInLoop_cases h.good id with ⟨t, hk, ht, -, hq, hgood⟩ | ⟨hk, hq, hgood⟩ <;>
    rw [hq] at hs <;> cases hs
  · exact ⟨rfl, rfl, rfl, hgood, .inl ⟨t, h.good.pending ht hk, rfl⟩⟩
  · exact ⟨rfl, rfl, rfl, hgood, .inr ⟨hk, rfl⟩⟩

theorem begin_spec {x y : State} {delay : ℕ} (h : Inv x)
    (hs : Moves step x (.beginRead delay) y) :
    x.batch = none ∧ ∃ b, y.batch = some b ∧ b.now = x.queue.clock ∧
      b.objects = x.queue.due x.queue.clock ∧ b.next = 0 ∧ b.inCallback = false ∧
      y.handed = x.handed ∧ y.events = x.events ∧ y.queue.heap = x.queue.heap ∧
      y.queue.cancelingTimers_ = SortedSet.empty := by
  cases hb : x.batch with
  | some b => simp [Moves, step, hb] at hs
  | none =>
    have hgood := h.good
    rw [State.objects, hb] at hgood
    obtain ⟨q, hq, -, -, hheap, hcan⟩ := beginRead_good hgood delay
    simp only [Moves, step, hb, Option.some.injEq] at hs
    rw [hq] at hs
    cases hs
    refine ⟨rfl, _, rfl, rfl, ?_, rfl, rfl, rfl, rfl, hheap, hcan⟩
    simp only [due, objects, hheap]

theorem end_spec {x y : State} {b : Batch} (h : Inv x) (hb : x.batch = some b)
    (hs : Moves step x .endRead y) :
    b.inCallback = false ∧ b.next = b.expired.length ∧ y.batch = none ∧ y.events = x.events ∧
      Settles b.now b.objects x.queue y.queue := by
  simp only [Moves, step, hb, Option.ite_none_right_eq_some, Option.some.injEq] at hs
  obtain ⟨⟨hin, hnext⟩, hs⟩ := hs
  have hgood : Good { x.queue with callingExpiredTimers_ := false } (b.objects ++ x.handed) := by
    have hgood := h.good
    rw [objects_of_batch hb] at hgood
    exact hgood.of_eq rfl rfl rfl rfl rfl
  obtain ⟨q, hrun, hgood', -, -⟩ := resetEach_good hgood (h.batch b hb) b.now
  have hend : x.queue.endRead b.expired b.now = .ok q.rearmed := by
    rw [endRead, reset, hrun, ok_bind, (rearm_good hgood').1]
  rw [hend] at hs
  cases hs
  obtain ⟨h1, h2, h3, h4, h5, h6⟩ := resetEach_settles hgood (h.batch b hb) hrun
  have hactive : q.rearmed.activeTimers_ = q.activeTimers_ := by
    unfold rearmed
    split
    · rfl
    · split_ifs <;> rfl
  have hdel := (rearmed_frame q).2.2.2.2
  refine ⟨hin, hnext, rfl, rfl, fun p hp => ?_, fun a ha => ?_, fun k hk t ht hr hc => ?_,
    fun k hk t ht hn => ?_, fun a ha => ?_, ?_⟩
  · exact (congrFun (rearmed_heap q) p).trans (h1 p hp)
  · show a ∈ q.rearmed.activeTimers_ ↔ _
    rw [hactive]
    exact h2 a ha
  · obtain ⟨hheap, hact⟩ := h3 k hk t ht hr hc
    exact ⟨(congrFun (rearmed_heap q) _).trans hheap, hactive.symm ▸ hact⟩
  · exact hdel.symm ▸ h4 k hk t ht hn
  · exact h5 a (hactive ▸ ha)
  · show x.queue.deleted ⊆ q.rearmed.deleted
    rw [hdel]
    exact h6

/-! ### Which timers a step leaves pending -/

theorem outcome_of_moves {x y : State} {l : Label} (h : Inv x) (hs : Moves step x l y) :
    Inv y ∧ Outcome x l y := by
  obtain ⟨y', hy, ho⟩ := step_outcome h hs
  cases hy
  exact ⟨ho.inv h, ho⟩

/-- A pending timer stays pending, with the same object, unless it is cancelled or expires. -/
theorem pending_step {x y : State} {l : Label} {id : TimerId} {t : Timer} (h : Inv x)
    (hs : Moves step x l y) (hp : Pending x.queue id t) (hc : l ≠ .cancelInLoop id)
    (hd : ∀ delay, l = .beginRead delay → x.queue.clock < t.expiration_) :
    Pending y.queue id t := by
  obtain ⟨hy, ho⟩ := outcome_of_moves h hs
  cases ho with
  | tick delay => exact ⟨hp.object, hp.sequence, hp.timers, hp.active⟩
  | newTimer when interval hfree =>
    exact ⟨newTimer_old hfree.2.2 hp.object, hp.sequence, hp.timers, hp.active⟩
  | newElsewhere => exact ⟨hp.object, hp.sequence, hp.timers, hp.active⟩
  | @added k t' hk ht hgood =>
    obtain ⟨hheap, hact, -, -⟩ := added_frame x.queue k t'
    refine hgood.pending ((congrFun hheap _).trans hp.object) ?_
    rw [hact]
    exact SortedSet.mem_insert.2 (.inr hp.active)
  | @cancelled id' q _ _ =>
    have hne : id ≠ id' := fun heq => hc (heq ▸ rfl)
    obtain ⟨-, -, -, hgood, ⟨t', ht', hq⟩ | ⟨-, hq⟩⟩ := cancel_cases h hs
    · rw [hq] at hgood ⊢
      exact (pending_deleted h.good ht' hgood hne).2 hp
    · rw [hq]
      exact pending_noted.2 hp
  | @begun delay es q hidle _ _ =>
    obtain ⟨-, b, hb, -, hobj, -, -, hhanded, -, hheap, -⟩ := begin_spec h hs
    refine hy.good.pending ((congrFun hheap _).trans hp.object) ?_
    have hpt : q.Points id.active := hp.points.of_heap (congrFun hheap _)
    refine (hy.good.owned id.active hpt).resolve_right fun hin => ?_
    rcases List.mem_append.1 hin with hin | hin
    · -- it is not due
      rw [objects_of_batch hb, hobj, h.good.mem_due] at hin
      obtain ⟨u, hu, hle⟩ := hin
      obtain rfl : u = t := Option.some.inj (hu.object.symm.trans hp.object)
      have hlt := hd _ rfl
      omega
    · exact h.good.apart _ (List.mem_append_right _ hin) _ hp.active rfl
  | started _ _ _ => exact hp
  | ended _ _ => exact hp
  | @finished b q hb _ _ _ =>
    obtain ⟨-, -, -, -, hset⟩ := end_spec h hb hs
    have hother : ∀ k ∈ b.objects, k.timer ≠ id.timer_ := fun k hk heq =>
      h.good.apart k (List.mem_append_left _ (objects_of_batch hb ▸ hk)) _ hp.active heq.symm
    exact hy.good.pending ((hset.heap _ hother).trans hp.object)
      ((hset.active _ hother).2 hp.active)

/-- A timer becomes pending when it is added, or at the end of a batch of which it is one. -/
theorem active_back {x y : State} {l : Label} {k : ActiveTimer} (h : Inv x)
    (hs : Moves step x l y) (hk : k ∈ y.queue.activeTimers_) :
    k ∈ x.queue.activeTimers_ ∨ l = .addTimerInLoop k ∨ (l = .endRead ∧ k ∈ x.objects) := by
  obtain ⟨hy, ho⟩ := outcome_of_moves h hs
  cases ho with
  | @added k' t' hk' ht hgood =>
    obtain ⟨-, hact, -, -⟩ := added_frame x.queue k' t'
    rcases SortedSet.mem_insert.1 (hact ▸ hk) with rfl | hk
    · exact .inr (.inl rfl)
    · exact .inl hk
  | @cancelled id' q _ _ =>
    obtain ⟨-, -, -, -, ⟨t', ht', hq⟩ | ⟨-, hq⟩⟩ := cancel_cases h hs
    · rw [hq] at hk
      exact .inl (SortedSet.mem_erase.1 hk).2
    · rw [hq, (noted_frame _ _).2.2.2.1] at hk
      exact .inl hk
  | begun hidle _ _ =>
    obtain ⟨-, b, hb, -, -, -, -, hhanded, -, hheap, -⟩ := begin_spec h hs
    have hpt : x.queue.Points k := (hy.good.active k hk).of_heap (congrFun hheap.symm _)
    refine .inl ((h.good.owned k hpt).resolve_right fun hin => ?_)
    rw [State.objects, hidle, List.nil_append] at hin
    exact hy.good.apart k (List.mem_append_right _ hin) k hk rfl
  | @finished b q hb _ _ _ =>
    obtain ⟨-, -, -, -, hset⟩ := end_spec h hb hs
    exact (hset.only k hk).imp id fun hk => .inr ⟨rfl, objects_of_batch hb ▸ hk⟩
  | _ => exact .inl hk

/-- Deleted timers stay deleted. -/
theorem deleted_step {x y : State} {l : Label} (h : Inv x) (hs : Moves step x l y) :
    x.queue.deleted ⊆ y.queue.deleted := by
  obtain ⟨-, ho⟩ := outcome_of_moves h hs
  cases ho with
  | @added k t hk ht hgood =>
    obtain ⟨-, -, hdel, -⟩ := added_frame x.queue k t
    exact hdel.symm ▸ List.Subset.refl _
  | cancelled _ hq => exact hq.deleted
  | begun _ _ hq => exact hq.deleted
  | @finished b q hb _ hq _ => exact (rearmed_frame q).2.2.2.2.symm ▸ hq.deleted
  | _ => exact List.Subset.refl _

/-! ### The batch during a round -/

/-- How many callbacks of the batch have been started. -/
def begun (b : Batch) : ℕ := if b.inCallback then b.next + 1 else b.next

/-- The timers whose callbacks have been started, in order. -/
def startedIds (evs : List Event) : List TimerId :=
  evs.filterMap fun
    | .started id => some id
    | _ => none

/-- The batch `b` of `x` has become `b'` in `y` by the steps `l`: it is the same batch, its timers
are as they were, the notes are those of the calls of `cancelInLoop`, and the callbacks have been
started in the order of the batch. -/
structure Progress (b : Batch) (x : State) (l : List Label) (b' : Batch) (y : State) : Prop where
  now : b'.now = b.now
  expired : b'.expired = b.expired
  objects : b'.objects = b.objects
  heap : ∀ k ∈ b.objects, y.queue.heap k.timer = x.queue.heap k.timer
  canceling : ∀ k ∈ b.objects, k ∈ y.queue.cancelingTimers_ ↔
    k ∈ x.queue.cancelingTimers_ ∨ .cancelInLoop k.id ∈ l
  events : ∃ evs, y.events = x.events ++ evs ∧
    (b.objects.take (begun b)).map ActiveTimer.id ++ startedIds evs =
      (b.objects.take (begun b')).map ActiveTimer.id

theorem Progress.refl (b : Batch) (x : State) : Progress b x [] b x :=
  ⟨rfl, rfl, rfl, fun _ _ => rfl, fun _ _ => by simp, [], by simp, by simp [startedIds]⟩

theorem Progress.cons {b b₁ b₂ : Batch} {x y z : State} {e : Label} {l : List Label}
    (h : Progress b x [e] b₁ y) (h' : Progress b₁ y l b₂ z) : Progress b x (e :: l) b₂ z where
  now := h'.now.trans h.now
  expired := h'.expired.trans h.expired
  objects := h'.objects.trans h.objects
  heap := fun k hk => (h'.heap k (h.objects.symm ▸ hk)).trans (h.heap k hk)
  canceling := fun k hk => by
    rw [h'.canceling k (h.objects.symm ▸ hk), h.canceling k hk, List.mem_singleton, List.mem_cons,
      or_assoc]
  events := by
    obtain ⟨evs, he, hs⟩ := h.events
    obtain ⟨evs', he', hs'⟩ := h'.events
    refine ⟨evs ++ evs', by rw [he', he, List.append_assoc], ?_⟩
    rw [h.objects] at hs'
    rw [startedIds, List.filterMap_append, ← List.append_assoc]
    change (_ ++ startedIds evs) ++ startedIds evs' = _
    rw [hs, hs']

/-- A step of a round that starts no callback and leaves the timers of the batch and the notes
alone. -/
theorem Progress.of_same {b b' : Batch} {x y : State} {e : Label} (hb : b'.now = b.now)
    (hex : b'.expired = b.expired) (hobj : b'.objects = b.objects) (hbegun : begun b' = begun b)
    (hheap : ∀ k ∈ b.objects, y.queue.heap k.timer = x.queue.heap k.timer)
    (hcan : ∀ k ∈ b.objects, k ∈ y.queue.cancelingTimers_ ↔
      k ∈ x.queue.cancelingTimers_ ∨ e = .cancelInLoop k.id)
    (hev : ∃ evs, y.events = x.events ++ evs ∧ startedIds evs = []) : Progress b x [e] b' y := by
  obtain ⟨evs, he, hs⟩ := hev
  refine ⟨hb, hex, hobj, hheap, fun k hk => ?_, evs, he, by rw [hs, hbegun, List.append_nil]⟩
  rw [hcan k hk, List.mem_singleton]
  exact or_congr Iff.rfl ⟨Eq.symm, Eq.symm⟩

/-- Every step between the beginning and the end of a round carries the batch on. -/
theorem batch_step {x y : State} {e : Label} {b : Batch} (h : Inv x) (hb : x.batch = some b)
    (hs : Moves step x e y) (he : e ≠ .endRead) :
    ∃ b', y.batch = some b' ∧ Progress b x [e] b' y := by
  obtain ⟨-, ho⟩ := outcome_of_moves h hs
  have hout : ∀ k ∈ b.objects, k ∈ x.objects ++ x.handed :=
    fun k hk => List.mem_append_left _ (objects_of_batch hb ▸ hk)
  cases ho with
  | tick delay =>
    exact ⟨b, hb, .of_same rfl rfl rfl rfl (fun _ _ => rfl) (by simp) ⟨[], by simp, rfl⟩⟩
  | newTimer when interval hfree =>
    refine ⟨b, hb, .of_same rfl rfl rfl rfl (fun k hk => ?_) (by simp [newTimer]) ⟨_, rfl, rfl⟩⟩
    obtain ⟨t, ht, -⟩ := h.good.points k (hout k hk)
    exact (newTimer_old hfree.2.2 ht).trans ht.symm
  | newElsewhere =>
    exact ⟨b, hb, .of_same rfl rfl rfl rfl (fun _ _ => rfl) (by simp) ⟨[], by simp, rfl⟩⟩
  | @added k t hk ht hgood =>
    obtain ⟨hheap, -, -, hcan⟩ := added_frame x.queue k t
    exact ⟨b, hb, .of_same rfl rfl rfl rfl (fun _ _ => congrFun hheap _)
      (fun k hk => by simp [hcan]) ⟨[], by simp, rfl⟩⟩
  | @cancelled id q _ _ =>
    refine ⟨b, hb, .of_same rfl rfl rfl rfl (fun k hk => ?_) (fun k hk => ?_) ⟨_, rfl, rfl⟩⟩
    all_goals
      obtain ⟨-, -, -, -, ⟨t, ht, hq⟩ | ⟨-, hq⟩⟩ := cancel_cases h hs
    -- the timers of the batch are not in the sets
    · rw [hq]
      exact Function.update_of_ne (h.good.apart k (hout k hk) _ ht.active).symm ..
    · rw [hq, (noted_frame _ _).2.1]
    · rw [hq]
      refine (or_iff_left fun heq => ?_).symm
      cases heq
      exact h.good.apart k (hout k hk) k ht.active rfl
    · have hcalling : x.queue.callingExpiredTimers_ = true := by rw [h.calling, hb]; rfl
      rw [hq, mem_noted, or_comm]
      refine or_congr Iff.rfl ⟨fun hnoted => ?_, fun heq => ⟨hcalling, ?_⟩⟩
      · rw [hnoted.2, TimerId.id_active]
      · cases heq
        rfl
  | begun hidle _ _ =>
    rw [hidle] at hb
    cases hb
  | @started b' k hb' hin hk =>
    obtain rfl : b = b' := Option.some.inj (hb.symm.trans hb')
    refine ⟨_, rfl, rfl, rfl, rfl, fun _ _ => rfl, by simp, _, rfl, ?_⟩
    have hnext : begun b = b.next := by rw [begun, hin]; rfl
    rw [hnext]
    simp [begun, startedIds, List.take_add_one, hk, ActiveTimer.id]
  | @ended b' hb' hin =>
    obtain rfl : b = b' := Option.some.inj (hb.symm.trans hb')
    exact ⟨_, rfl, .of_same rfl rfl rfl (by simp [begun, hin]) (fun _ _ => rfl) (by simp)
      ⟨[], by simp, rfl⟩⟩
  | finished _ _ _ _ => exact absurd rfl he

/-- The batch after several steps of a round. -/
theorem batch_of_path {x y : State} {l : List Label} {b : Batch} (h : Inv x)
    (hb : x.batch = some b) (hl : Path (Moves step) l x y) (hno : .endRead ∉ l) :
    Inv y ∧ ∃ b', y.batch = some b' ∧ Progress b x l b' y := by
  induction hl generalizing b with
  | nil s => exact ⟨h, b, hb, Progress.refl b s⟩
  | cons hs _ ih =>
    rw [List.mem_cons, not_or] at hno
    obtain ⟨b₁, hb₁, hp₁⟩ := batch_step h hb hs (Ne.symm hno.1)
    obtain ⟨hy, b', hb', hp'⟩ := ih (outcome_of_moves h hs).1 hb₁ hno.2
    exact ⟨hy, b', hb', hp₁.cons hp'⟩

theorem deleted_of_path {x y : State} {l : List Label} (h : Inv x)
    (hl : Path (Moves step) l x y) : x.queue.deleted ⊆ y.queue.deleted := by
  induction hl with
  | nil s => exact List.Subset.refl _
  | cons hs _ ih => exact List.Subset.trans (deleted_step h hs) (ih (outcome_of_moves h hs).1)

/-- A timer that is pending during a round stays so unless it is cancelled. -/
theorem pending_of_path {x y : State} {l : List Label} {b : Batch} {id : TimerId} {t : Timer}
    (h : Inv x) (hb : x.batch = some b) (hl : Path (Moves step) l x y) (hno : .endRead ∉ l)
    (hp : Pending x.queue id t) : (.cancelInLoop id ∉ l → Pending y.queue id t) ∧
      (.cancelInLoop id ∈ l → id.sequence_ ∈ y.queue.deleted) := by
  induction hl generalizing b with
  | nil s => exact ⟨fun _ => hp, fun hc => absurd hc List.not_mem_nil⟩
  | @cons x x₁ y e l hs hl ih =>
    rw [List.mem_cons, not_or] at hno
    obtain ⟨b₁, hb₁, -⟩ := batch_step h hb hs (Ne.symm hno.1)
    have hx₁ := (outcome_of_moves h hs).1
    by_cases hc : e = .cancelInLoop id
    · subst hc
      refine ⟨fun hn => absurd List.mem_cons_self hn, fun _ => ?_⟩
      have hd : id.sequence_ ∈ x₁.queue.deleted := by
        obtain ⟨-, -, -, -, ⟨t', -, hq⟩ | ⟨hn, -⟩⟩ := cancel_cases h hs
        · rw [hq]
          exact List.mem_append_right _ (List.mem_singleton.2 rfl)
        · exact absurd hp.active hn
      exact deleted_of_path hx₁ hl hd
    · have hbegin : ∀ delay, e = .beginRead delay → x.queue.clock < t.expiration_ := by
        rintro delay rfl
        rw [(begin_spec h hs).1] at hb
        cases hb
      obtain ⟨hkeep, hdel⟩ := ih hx₁ hb₁ hno.2 (pending_step h hs hp hc hbegin)
      simp only [List.mem_cons, Ne.symm hc, false_or]
      exact ⟨hkeep, hdel⟩

/-! ### A whole round -/

/-- How a timer of the batch ends, seen from any moment of the round. -/
theorem settled_of_path {x y z : State} {l : List Label} {b : Batch} {k : ActiveTimer} {t : Timer}
    (h : Inv x) (hb : x.batch = some b) (hl : Path (Moves step) l x y) (hno : .endRead ∉ l)
    (hend : Moves step y .endRead z) (hk : k ∈ b.objects) (ht : x.queue.heap k.timer = some t) :
    (t.repeat_ = true → k ∉ x.queue.cancelingTimers_ → .cancelInLoop k.id ∉ l →
      Pending z.queue k.id (t.restart b.now)) ∧
    (t.repeat_ = false ∨ .cancelInLoop k.id ∈ l → Gone z.queue k.id) := by
  obtain ⟨hy, b', hb', hp⟩ := batch_of_path h hb hl hno
  obtain ⟨-, -, -, -, hset⟩ := end_spec hy hb' hend
  have hz := (outcome_of_moves hy hend).1
  have hk' : k ∈ b'.objects := hp.objects.symm ▸ hk
  have ht' : y.queue.heap k.timer = some t := (hp.heap k hk).trans ht
  have hcan := hp.canceling k hk
  constructor
  · intro hr hc hl'
    have hnote : k ∉ y.queue.cancelingTimers_ := by
      rw [hcan]
      exact fun hor => hor.elim hc hl'
    obtain ⟨hheap, hact⟩ := hset.again k hk' t ht' hr hnote
    rw [hp.now] at hheap
    exact hz.good.pending hheap hact
  · intro hor
    refine hz.good.gone (hset.gone k hk' t ht' fun hboth => ?_)
    rcases hor with hr | hc
    · rw [hr] at hboth
      cases hboth.1
    · exact hboth.2 (hcan.2 (.inr hc))

/-- The state `s` at the time `now`. -/
def atTime (s : State) (now : ℤ) : State := { s with queue := { s.queue with clock := now } }

theorem Inv.atTime {s : State} (h : Inv s) (now : ℤ) : Inv (atTime s now) :=
  ⟨h.good.of_eq rfl rfl rfl rfl rfl, h.batch, h.calling, h.programs⟩

/-- The effect of a round that begins in `s` at the time `now`, goes on from `s₁` to `s₂` by the
steps `l`, and ends in `s'`; the timers `ran` are run, in this order. -/
structure Round (now : ℤ) (s s₁ : State) (l : List Label) (s₂ s' : State)
    (ran : List TimerId) : Prop where
  once : ran.Nodup
  due : ∀ id, id ∈ ran ↔ ∃ t, Pending s.queue id t ∧ t.expiration_ ≤ now
  order : ran.Pairwise fun a b => ∀ t u, Pending s.queue a t → Pending s.queue b u →
    t.expiration_ ≤ u.expiration_
  again : ∀ id ∈ ran, ∀ t, Pending s.queue id t → t.repeat_ = true → .cancelInLoop id ∉ l →
    Pending s'.queue id { t with expiration_ := addTime now t.interval_ }
  gone : ∀ id ∈ ran, ∀ t, Pending s.queue id t → t.repeat_ = false ∨ .cancelInLoop id ∈ l →
    Gone s'.queue id
  others : ∀ id t, Pending s.queue id t → id ∉ ran →
    (.cancelInLoop id ∉ l → Pending s'.queue id t) ∧ (.cancelInLoop id ∈ l → Gone s'.queue id)
  added : ∀ k l₁ l₂ x x', l = l₁ ++ .addTimerInLoop k :: l₂ → Path (Moves step) l₁ s₁ x →
    Moves step x (.addTimerInLoop k) x' → Path (Moves step) l₂ x' s₂ →
    k.id ∉ ran ∧ ∀ t, x.queue.heap k.timer = some t →
      (.cancelInLoop k.id ∉ l₂ → Pending s'.queue k.id t) ∧
      (.cancelInLoop k.id ∈ l₂ → Gone s'.queue k.id)
  only : ∀ id t, Pending s'.queue id t →
    (∃ u, Pending s.queue id u) ∨ .addTimerInLoop id.active ∈ l

/-- A timer that is pending at some moment of a round is so at its end, unless it is cancelled. -/
theorem pending_at_end {x y z : State} {l : List Label} {b : Batch} {id : TimerId} {t : Timer}
    (h : Inv x) (hb : x.batch = some b) (hl : Path (Moves step) l x y) (hno : .endRead ∉ l)
    (hend : Moves step y .endRead z) (hp : Pending x.queue id t) :
    (.cancelInLoop id ∉ l → Pending z.queue id t) ∧
      (.cancelInLoop id ∈ l → Gone z.queue id) := by
  have hy := (batch_of_path h hb hl hno).1
  have hz := (outcome_of_moves hy hend).1
  obtain ⟨hkeep, hdel⟩ := pending_of_path h hb hl hno hp
  refine ⟨fun hc => pending_step hy hend (hkeep hc) (by rintro ⟨⟩) (by rintro d ⟨⟩), fun hc => ?_⟩
  exact hz.good.gone (deleted_step hy hend (hdel hc))

/-- The timers that are active at some moment of a round were active before, are being run, or have
been added since. -/
theorem active_of_path {x y : State} {l : List Label} {b : Batch} {k : ActiveTimer} (h : Inv x)
    (hb : x.batch = some b) (hl : Path (Moves step) l x y) (hno : .endRead ∉ l)
    (hk : k ∈ y.queue.activeTimers_) :
    k ∈ x.queue.activeTimers_ ∨ .addTimerInLoop k ∈ l := by
  induction hl generalizing b with
  | nil s => exact .inl hk
  | @cons x x₁ y e l hs hl ih =>
    rw [List.mem_cons, not_or] at hno
    obtain ⟨b₁, hb₁, -⟩ := batch_step h hb hs (Ne.symm hno.1)
    rcases ih (outcome_of_moves h hs).1 hb₁ hno.2 hk with hk | hk
    · rcases active_back h hs hk with hk | rfl | ⟨rfl, -⟩
      · exact .inl hk
      · exact .inr List.mem_cons_self
      · exact absurd rfl hno.1
    · exact .inr (List.mem_cons_of_mem _ hk)

/-- A timer that is added during a round is not in the batch, and is pending at its end unless it is
cancelled. -/
theorem added_at_end {x x' y z : State} {l : List Label} {b : Batch} {k : ActiveTimer} (h : Inv x)
    (hb : x.batch = some b) (hadd : Moves step x (.addTimerInLoop k) x')
    (hl : Path (Moves step) l x' y) (hno : .endRead ∉ l) (hend : Moves step y .endRead z) :
    k ∉ b.objects ∧ ∀ t, x.queue.heap k.timer = some t →
      (.cancelInLoop k.id ∉ l → Pending z.queue k.id t) ∧
      (.cancelInLoop k.id ∈ l → Gone z.queue k.id) := by
  obtain ⟨b', hb', -⟩ := batch_step h hb hadd (by rintro ⟨⟩)
  obtain ⟨hx', ho⟩ := outcome_of_moves h hadd
  cases ho with
  | @added _ t hk ht hgood =>
    refine ⟨fun hin => ?_, fun u hu => ?_⟩
    · -- what the loop has is not waiting to be added
      have hnd := h.good.nodup
      rw [List.map_append, List.nodup_append] at hnd
      rw [← objects_of_batch hb] at hin
      exact hnd.2.2 _ (List.mem_map_of_mem hin) _ (List.mem_map_of_mem hk) rfl
    · obtain rfl : t = u := Option.some.inj (ht.symm.trans hu)
      obtain ⟨hheap, hact, -, -⟩ := added_frame x.queue k t
      have hp : Pending (x.queue.added k t) k.id t := by
        refine hgood.pending ((congrFun hheap _).trans ht) ?_
        rw [hact]
        exact SortedSet.mem_insert.2 (.inl rfl)
      exact pending_at_end hx' hb' hl hno hend hp

/-- The timers that are pending at the end of a round. -/
theorem active_at_end {x y z : State} {l : List Label} {b : Batch} {k : ActiveTimer} (h : Inv x)
    (hb : x.batch = some b) (hl : Path (Moves step) l x y) (hno : .endRead ∉ l)
    (hend : Moves step y .endRead z) (hk : k ∈ z.queue.activeTimers_) :
    k ∈ x.queue.activeTimers_ ∨ .addTimerInLoop k ∈ l ∨ k ∈ b.objects := by
  obtain ⟨hy, b', hb', hp⟩ := batch_of_path h hb hl hno
  rcases active_back hy hend hk with ha | ha | ⟨-, hin⟩
  · exact (active_of_path h hb hl hno ha).imp id .inl
  · cases ha
  · rw [objects_of_batch hb', hp.objects] at hin
    exact .inr (.inr hin)

/-! ### The theorems -/

theorem mem_map_id {ks : List ActiveTimer} {id : TimerId} :
    id ∈ ks.map ActiveTimer.id ↔ id.active ∈ ks := by
  rw [List.mem_map]
  constructor
  · rintro ⟨k, hk, rfl⟩
    exact hk
  · exact fun hk => ⟨id.active, hk, TimerId.id_active id⟩

/-- The callbacks of a round are those of the timers that are due at its beginning. -/
theorem startedIds_of_round {now : ℤ} {s s₁ s₂ s' : State} {delay : ℕ} {l : List Label}
    (h : Inv s) (hbegin : Moves step (atTime s now) (.beginRead delay) s₁)
    (hl : Path (Moves step) l s₁ s₂) (hno : .endRead ∉ l) (hend : Moves step s₂ .endRead s') :
    ∃ evs, s'.events = s.events ++ evs ∧
      startedIds evs = (s.queue.due now).map ActiveTimer.id := by
  obtain ⟨-, b, hb, -, hobj, hnext, hin, -, hev, -, -⟩ := begin_spec (Inv.atTime h now) hbegin
  have h₁ := (outcome_of_moves (Inv.atTime h now) hbegin).1
  obtain ⟨h₂, b', hb', hp⟩ := batch_of_path h₁ hb hl hno
  obtain ⟨hin', hnext', -, hev', -⟩ := end_spec h₂ hb' hend
  obtain ⟨evs, he, hs⟩ := hp.events
  refine ⟨evs, by rw [hev', he, hev]; rfl, ?_⟩
  -- none has been started at the beginning, and all at the end
  have hfirst : begun b = 0 := by rw [begun, hin, hnext]; rfl
  have hlen : b'.expired.length = b.objects.length := by
    have hmap := congrArg List.length (h₂.batch b' hb')
    rw [List.length_map, List.length_map, hp.objects] at hmap
    exact hmap
  have hlast : begun b' = b.objects.length := by rw [begun, hin', hnext', ← hlen]; rfl
  rw [hfirst, hlast, List.take_length, List.take_zero, List.map_nil, List.nil_append] at hs
  rw [hs, hobj]
  rfl

/-- **One round of expired timers** runs exactly the timers that were due at its beginning, each
once and in the order of their expiration, whatever the callbacks do. Afterwards those that repeat
and have not been cancelled are pending again, the others are deleted, and every other timer is as
it was unless it has been cancelled. -/
theorem expiry_round {clock now : ℤ} {s s₁ s₂ s' : State} {delay : ℕ} {l : List Label}
    (h : Reach (Moves step) Always (start clock) s)
    (hbegin : Moves step (atTime s now) (.beginRead delay) s₁)
    (hl : Path (Moves step) l s₁ s₂) (hno : .endRead ∉ l) (hend : Moves step s₂ .endRead s') :
    ∃ evs, s'.events = s.events ++ evs ∧ Round now s s₁ l s₂ s' (startedIds evs) := by
  have hinv := inv_of_reach h
  have h₀ := Inv.atTime hinv now
  obtain ⟨evs, hevs, hran⟩ := startedIds_of_round hinv hbegin hl hno hend
  obtain ⟨-, b, hb, hnow, hobj, -, -, -, -, hheap, hcan⟩ := begin_spec h₀ hbegin
  have h₁ := (outcome_of_moves h₀ hbegin).1
  have hmem : ∀ id, id ∈ startedIds evs ↔ id.active ∈ b.objects :=
    fun id => by rw [hran, mem_map_id, hobj]; rfl
  have hdue : ∀ id, id ∈ startedIds evs ↔ ∃ t, Pending s.queue id t ∧ t.expiration_ ≤ now :=
    fun id => by rw [hran, mem_map_id, hinv.good.mem_due, TimerId.id_active]
  have hbatch : ∀ id ∈ startedIds evs, ∀ t, Pending s.queue id t → t.repeat_ = true →
      .cancelInLoop id ∉ l → Pending s'.queue id (t.restart now) := by
    intro id hid t ht hr hc
    have hset := (settled_of_path h₁ hb hl hno hend ((hmem id).1 hid)
      ((congrFun hheap _).trans ht.object)).1 hr (by rw [hcan]; exact SortedSet.not_mem_empty _) hc
    rwa [hnow] at hset
  refine ⟨evs, hevs, ?_, hdue, ?_, fun id hid t ht hr hc => ?_, fun id hid t ht hor => ?_,
    fun id t ht hid => ?_, fun k l₁ l₂ x x' hsplit hl₁ hadd hl₂ => ?_, fun id t ht => ?_⟩
  · rw [hran]
    refine (hinv.good.due_nodup now).map fun a b hab => ?_
    rw [← ActiveTimer.active_id a, hab, ActiveTimer.active_id]
  · rw [hran, List.pairwise_map]
    exact hinv.good.due_pairwise now
  · have hp := hbatch id hid t ht hr hc
    rwa [show t.restart now = { t with expiration_ := addTime now t.interval_ } by
      simp [Timer.restart, hr]] at hp
  · exact (settled_of_path h₁ hb hl hno hend ((hmem id).1 hid)
      ((congrFun hheap _).trans ht.object)).2 hor
  · have hlater : now < t.expiration_ := by
      by_contra hle
      exact hid ((hdue id).2 ⟨t, ht, not_lt.1 hle⟩)
    have hp₁ : Pending s₁.queue id t :=
      pending_step h₀ hbegin ⟨ht.object, ht.sequence, ht.timers, ht.active⟩ (by rintro ⟨⟩)
        fun _ _ => hlater
    exact pending_at_end h₁ hb hl hno hend hp₁
  · rw [hsplit, List.mem_append, List.mem_cons, not_or, not_or] at hno
    obtain ⟨hx, b₁, hb₁, hp₁⟩ := batch_of_path h₁ hb hl₁ hno.1
    obtain ⟨hnot, hadded⟩ := added_at_end hx hb₁ hadd hl₂ hno.2.2 hend
    exact ⟨fun hrun => hnot (hp₁.objects.symm ▸ (hmem k.id).1 hrun), hadded⟩
  · rcases active_at_end h₁ hb hl hno hend ht.active with ha | ha | hin
    · rcases active_back h₀ hbegin ha with ha | ha | ⟨ha, -⟩
      · exact .inl (hinv.good.exists_pending ha)
      · cases ha
      · cases ha
    · exact .inr ha
    · rw [← hmem, hdue] at hin
      obtain ⟨u, hu, -⟩ := hin
      exact .inl ⟨u, hu⟩

/-- The effect of `cancelInLoop(id)` from `s` to `s'`: it concerns the timer of `id` and no other,
neither now nor when the running batch is reset; and nothing at all is cancelled with the id of a
timer that has been deleted, also when there is a newer timer at its address. -/
structure HitsOwn (id : TimerId) (s s' : State) : Prop where
  removes : (∃ k t, Pending s.queue k t ∧ ∀ u, ¬ Pending s'.queue k u) ↔
    ∃ t, Pending s.queue id t
  deletes : s'.queue.deleted ≠ s.queue.deleted ↔ ∃ t, Pending s.queue id t
  own : (∃ t, Pending s.queue id t) → Gone s'.queue id
  others : ∀ k t, k ≠ id → (Pending s'.queue k t ↔ Pending s.queue k t)
  batch : ∀ b, s.batch = some b → ∀ k ∈ b.objects, k.id ≠ id → k ∉ s.queue.cancelingTimers_ →
    ∀ t, s.queue.heap k.timer = some t → t.repeat_ = true →
    ∀ l y z, Path (Moves step) l s' y → .endRead ∉ l → .cancelInLoop k.id ∉ l →
      Moves step y .endRead z → Pending z.queue k.id (t.restart b.now)
  stale : id.sequence_ ∈ s.queue.deleted → s'.queue.heap = s.queue.heap ∧
    s'.queue.timers_ = s.queue.timers_ ∧ s'.queue.activeTimers_ = s.queue.activeTimers_ ∧
    ∀ b, s.batch = some b → ∀ k ∈ b.objects, k.id ≠ id

/-- A timer of the batch whose id is not the one that is cancelled is restarted at the end. -/
theorem restarted_at_end {x x' : State} {id : TimerId} {b : Batch} {k : ActiveTimer} {t : Timer}
    (h : Inv x) (hs : Moves step x (.cancelInLoop id) x') (hb : x.batch = some b)
    (hk : k ∈ b.objects) (hne : k.id ≠ id) (hnote : k ∉ x.queue.cancelingTimers_)
    (ht : x.queue.heap k.timer = some t) (hr : t.repeat_ = true) {l : List Label} {y z : State}
    (hl : Path (Moves step) l x' y) (hno : .endRead ∉ l) (hc : .cancelInLoop k.id ∉ l)
    (hend : Moves step y .endRead z) : Pending z.queue k.id (t.restart b.now) := by
  obtain ⟨b', hb', hp⟩ := batch_step h hb hs (by rintro ⟨⟩)
  have hnote' : k ∉ x'.queue.cancelingTimers_ := by
    rw [hp.canceling k hk, List.mem_singleton]
    exact fun hor => hor.elim hnote fun heq => hne (Label.cancelInLoop.inj heq)
  rw [← hp.now]
  exact (settled_of_path (outcome_of_moves h hs).1 hb' hl hno hend (hp.objects.symm ▸ hk)
    ((hp.heap k hk).trans ht)).1 hr hnote' hc

/-- **`cancelInLoop` hits only its own timer**, in every reachable state and for every id. -/
theorem cancel_hits_own {clock : ℤ} {s s' : State} {id : TimerId}
    (h : Reach (Moves step) Always (start clock) s) (hs : Moves step s (.cancelInLoop id) s') :
    HitsOwn id s s' := by
  have hinv := inv_of_reach h
  have hbatch : ∀ b, s.batch = some b → ∀ k ∈ b.objects, k.id ≠ id →
      k ∉ s.queue.cancelingTimers_ → ∀ t, s.queue.heap k.timer = some t → t.repeat_ = true →
      ∀ l y z, Path (Moves step) l s' y → .endRead ∉ l → .cancelInLoop k.id ∉ l →
        Moves step y .endRead z → Pending z.queue k.id (t.restart b.now) :=
    fun b hb k hk hne hnote t ht hr l y z hl hno hc hend =>
      restarted_at_end hinv hs hb hk hne hnote ht hr hl hno hc hend
  obtain ⟨-, -, -, hgood, ⟨t, ht, hq⟩ | ⟨hnot, hq⟩⟩ := cancel_cases hinv hs
  · have hothers : ∀ k u, k ≠ id → (Pending s'.queue k u ↔ Pending s.queue k u) := by
      intro k u hne
      rw [hq] at hgood ⊢
      exact pending_deleted hinv.good ht hgood hne
    have hdel : s'.queue.deleted = s.queue.deleted ++ [id.sequence_] := by rw [hq]; rfl
    have hgone : Gone s'.queue id := by
      refine hgood.gone ?_
      rw [hdel]
      exact List.mem_append_right _ (List.mem_singleton.2 rfl)
    refine ⟨⟨fun _ => ⟨t, ht⟩, fun _ => ⟨id, t, ht, fun u hu => hgone.active hu.active⟩⟩,
      ⟨fun _ => ⟨t, ht⟩, fun _ heq => ?_⟩, fun _ => hgone, hothers, hbatch, fun hd => ?_⟩
    · rw [hdel] at heq
      simp at heq
    · exact absurd ht.points (hinv.good.gone hd).points
  · have hnone : ¬ ∃ t, Pending s.queue id t := fun ⟨t, ht⟩ => hnot ht.active
    obtain ⟨-, hheap, htimers, hactive, hdel⟩ := noted_frame s.queue id.active
    have hothers : ∀ k u, Pending s'.queue k u ↔ Pending s.queue k u := by
      intro k u
      rw [hq]
      exact pending_noted
    refine ⟨⟨fun ⟨k, t, ht, hn⟩ => absurd ((hothers k t).2 ht) (hn t), fun h => absurd h hnone⟩,
      ⟨fun h => absurd (by rw [hq, hdel]) h, fun h => absurd h hnone⟩, fun h => absurd h hnone,
      fun k t _ => hothers k t, hbatch, fun hd => ?_⟩
    rw [hq]
    refine ⟨hheap, htimers, hactive, fun b hb k hk heq => ?_⟩
    have hpt := hinv.good.points k (List.mem_append_left _ (objects_of_batch hb ▸ hk))
    subst heq
    exact (hinv.good.gone hd).points hpt

/-! Two timers that are due together. The callback of the first, which repeats, deletes a third
timer, and a new timer, already due, is created at its address. -/

/-- Three timers have been added, and two of them are due. -/
def threeTimers : List Label :=
  [.newTimer 8 2000 every, .newTimer 16 2000 once, .newTimer 24 9000 once, .addTimerInLoop ⟨8, 1⟩,
    .addTimerInLoop ⟨16, 2⟩, .addTimerInLoop ⟨24, 3⟩, .tick 5000]

/-- The callbacks of the round. -/
def reusingRound : List Label :=
  [.startCallback, .cancelInLoop ⟨24, 3⟩, .newTimer 24 3000 once, .addTimerInLoop ⟨24, 4⟩,
    .endCallback, .startCallback, .endCallback]

theorem expiry_round_reusing :
    ∃ s s₁ s₂ s', Reach (Moves step) Always (start 1000) s ∧
      Path (Moves step) reusingRound s₁ s₂ ∧
      ∃ evs, s'.events = s.events ++ evs ∧
        Round 6000 s s₁ reusingRound s₂ s' (startedIds evs) := by
  obtain ⟨s, hs, hp⟩ := exists_reach_of_run step Always (start 1000) threeTimers
    (fun s => succeeds step (atTime s 6000) (.beginRead 0) &&
      (run step Always (next step (atTime s 6000) (.beginRead 0)) reusingRound).any
        fun s₂ => succeeds step s₂ .endRead) (by decide +kernel)
  rw [Bool.and_eq_true] at hp
  obtain ⟨s₂, hl, hend⟩ := exists_path_of_run step Always _ reusingRound _ hp.2
  exact ⟨s, _, s₂, _, hs, hl, expiry_round hs (moves_next hp.1) hl
    (by simp [reusingRound]) (moves_next hend)⟩

/-- The id of the deleted timer is used again in the same callback. -/
theorem cancel_hits_own_stale :
    ∃ s s', Reach (Moves step) Always (start 1000) s ∧ 3 ∈ s.queue.deleted ∧
      (s.queue.heap 24).isSome = true ∧ HitsOwn ⟨24, 3⟩ s s' := by
  obtain ⟨s, hs, hp⟩ := exists_reach_of_run step Always (start 1000)
    (threeTimers ++ .beginRead 0 :: reusingRound.take 4)
    (fun s => decide (3 ∈ s.queue.deleted) && (s.queue.heap 24).isSome &&
      succeeds step s (.cancelInLoop ⟨24, 3⟩)) (by decide +kernel)
  rw [Bool.and_eq_true, Bool.and_eq_true] at hp
  exact ⟨s, _, hs, of_decide_eq_true hp.1.1, hp.1.2, cancel_hits_own hs (moves_next hp.2)⟩

end TimerRound

end Fppnet
