import Fppnet.Library.Checked
import Fppnet.Library.SortedSet
import Fppnet.Net.Timer

/-!
# `net/TimerQueue.cpp`: the functions of the loop thread

* `TimerQueue` has the members of the class and what they work on: the clock, the heap of `Timer`
  objects, the timerfd. `deleted` and `programmed` are histories: the sequence numbers of the
  deleted timers and the values given to `timerfd_settime`;
* an operation on a pointer that does not point to a `Timer`, and an assertion that does not hold,
  is a `Failure`;
* `Heaped` and `Indexed` are the invariants of the heap and of the two sets, and `Outside q l` says
  of the timers `l` that they exist and are in neither set: timers that are being created, or
  expired timers whose callbacks run. Every operation has a lemma that says that it succeeds and
  keeps these three.
-/

namespace Fppnet

open Checked

namespace TimerQueue

/-- The ways in which a function aborts the program. -/
inductive Failure
  | useAfterFree
  | doubleFree
  | sizes
  | insertTimers
  | insertActive
  | eraseTimers
  | eraseActive
  | sentry
  deriving DecidableEq

end TimerQueue

/-- `TimerQueue`, with the clock, the heap, the timerfd and two histories. -/
structure TimerQueue where
  clock : ℤ
  heap : TimerPtr → Option Timer
  s_numCreated_ : ℕ
  timerfd_ : Option Arming
  timers_ : SortedSet Entry
  callingExpiredTimers_ : Bool
  activeTimers_ : SortedSet ActiveTimer
  cancelingTimers_ : SortedSet ActiveTimer
  deleted : List ℕ
  programmed : List Timespec

namespace TimerQueue

/-- The constructor. -/
def new (clock : ℤ) : TimerQueue where
  clock := clock
  heap := fun _ => none
  s_numCreated_ := 0
  timerfd_ := none
  timers_ := SortedSet.empty
  callingExpiredTimers_ := false
  activeTimers_ := SortedSet.empty
  cancelingTimers_ := SortedSet.empty
  deleted := []
  programmed := []

/-! ### The heap -/

/-- `new Timer(cb, when, interval)`, at the address `timer`. -/
def newTimer (q : TimerQueue) (timer : TimerPtr) (when : ℤ) (interval : Interval) : TimerQueue :=
  { q with
    heap := Function.update q.heap timer (some (Timer.new when interval (q.s_numCreated_ + 1)))
    s_numCreated_ := q.s_numCreated_ + 1 }

/-- The object behind a pointer. -/
def deref (q : TimerQueue) (timer : TimerPtr) : Except Failure Timer :=
  match q.heap timer with
  | some t => .ok t
  | none => .error .useAfterFree

/-- `delete timer`. -/
def delete (q : TimerQueue) (timer : TimerPtr) : Except Failure TimerQueue :=
  match q.heap timer with
  | some t => .ok { q with
      heap := Function.update q.heap timer none
      deleted := q.deleted ++ [t.sequence_] }
  | none => .error .doubleFree

/-- `timer->restart(now)`. -/
def restart (q : TimerQueue) (timer : TimerPtr) (now : ℤ) : Except Failure TimerQueue := do
  let t ← q.deref timer
  pure { q with heap := Function.update q.heap timer (some (t.restart now)) }

/-! ### The functions -/

def SizesAgree (q : TimerQueue) : Prop := q.timers_.size = q.activeTimers_.size

instance (q : TimerQueue) : Decidable q.SizesAgree := by unfold SizesAgree; infer_instance

def resetTimerfd (q : TimerQueue) (expiration : ℤ) : TimerQueue :=
  { q with
    timerfd_ := timerfd_settime q.clock (howMuchTimeFromNow q.clock expiration) q.timerfd_
    programmed := q.programmed ++ [howMuchTimeFromNow q.clock expiration] }

/-- Whether a timer that expires at `when` is earlier than all of `timers_`. -/
def earliestChanged (q : TimerQueue) (when : ℤ) : Bool :=
  match q.timers_.begin? with
  | none => true
  | some e => decide (when < e.when)

def insert (q : TimerQueue) (timer : TimerPtr) : Except Failure (Bool × TimerQueue) := do
  require q.SizesAgree .sizes
  let t ← q.deref timer
  let timers := q.timers_.insert ⟨t.expiration_, timer⟩
  require (timers.2 = true) .insertTimers
  let active := q.activeTimers_.insert ⟨timer, t.sequence_⟩
  require (active.2 = true) .insertActive
  let q' := { q with timers_ := timers.1, activeTimers_ := active.1 }
  require q'.SizesAgree .sizes
  pure (q.earliestChanged t.expiration_, q')

def addTimerInLoop (q : TimerQueue) (timer : TimerPtr) : Except Failure TimerQueue := do
  let r ← q.insert timer
  if r.1 then do
    let t ← r.2.deref timer
    pure (r.2.resetTimerfd t.expiration_)
  else pure r.2

/-- The branch of `cancelInLoop` for a timer in `activeTimers_`. -/
def cancelActive (q : TimerQueue) (timer : ActiveTimer) : Except Failure TimerQueue := do
  let t ← q.deref timer.timer
  let timers := q.timers_.erase ⟨t.expiration_, timer.timer⟩
  require (timers.2 = 1) .eraseTimers
  let q ← { q with timers_ := timers.1 }.delete timer.timer
  pure { q with activeTimers_ := (q.activeTimers_.erase timer).1 }

def cancelInLoop (q : TimerQueue) (timerId : TimerId) : Except Failure TimerQueue := do
  require q.SizesAgree .sizes
  let q ← (if timerId.active ∈ q.activeTimers_ then q.cancelActive timerId.active
    else pure (if q.callingExpiredTimers_ then
      { q with cancelingTimers_ := (q.cancelingTimers_.insert timerId.active).1 } else q))
  require q.SizesAgree .sizes
  pure q

/-- The loop of `getExpired` over the expired timers. -/
def eraseExpired (q : TimerQueue) : List Entry → Except Failure TimerQueue
  | [] => .ok q
  | entry :: expired => do
    let t ← q.deref entry.timer
    let active := q.activeTimers_.erase ⟨entry.timer, t.sequence_⟩
    require (active.2 = 1) .eraseActive
    eraseExpired { q with activeTimers_ := active.1 } expired

/-- The assertion on the lower bound in `getExpired`. -/
def LaterThan (q : TimerQueue) (now : ℤ) : Prop :=
  ∀ e ∈ q.timers_.begin?, now < e.when

instance (q : TimerQueue) (now : ℤ) : Decidable (q.LaterThan now) := by
  unfold LaterThan
  infer_instance

def getExpired (q : TimerQueue) (now : ℤ) : Except Failure (List Entry × TimerQueue) := do
  require q.SizesAgree .sizes
  let sentry : Entry := ⟨now, UINTPTR_MAX⟩
  let rest := { q with timers_ := q.timers_.above sentry }
  require (rest.LaterThan now) .sentry
  let q' ← rest.eraseExpired (q.timers_.below sentry)
  require q'.SizesAgree .sizes
  pure (q.timers_.below sentry, q')

/-- What `reset` does to one expired timer. -/
def resetOne (q : TimerQueue) (now : ℤ) (entry : Entry) : Except Failure TimerQueue := do
  let t ← q.deref entry.timer
  if t.repeat_ = true ∧ (⟨entry.timer, t.sequence_⟩ : ActiveTimer) ∉ q.cancelingTimers_ then do
    let q ← q.restart entry.timer now
    let r ← q.insert entry.timer
    pure r.2
  else q.delete entry.timer

/-- The loop of `reset`. -/
def resetEach (q : TimerQueue) (now : ℤ) : List Entry → Except Failure TimerQueue
  | [] => .ok q
  | entry :: expired => do
    let q ← q.resetOne now entry
    q.resetEach now expired

/-- The end of `reset`: the timerfd is set to the earliest time, if there is one and it is valid. -/
def rearm (q : TimerQueue) : Except Failure TimerQueue :=
  match q.timers_.begin? with
  | none => .ok q
  | some e => do
    let t ← q.deref e.timer
    pure (if Timestamp.valid t.expiration_ then q.resetTimerfd t.expiration_ else q)

def reset (q : TimerQueue) (expired : List Entry) (now : ℤ) : Except Failure TimerQueue := do
  let q ← q.resetEach now expired
  q.rearm

/-- `handleRead` up to its loop. `delay` is the time between its call of `now` and the `read`. -/
def beginRead (q : TimerQueue) (delay : ℕ) : Except Failure (List Entry × TimerQueue) := do
  let now := q.clock
  let q := { q with clock := q.clock + delay }
  let q := { q with timerfd_ := timerfd_read q.clock q.timerfd_ }
  let r ← q.getExpired now
  pure (r.1, { r.2 with callingExpiredTimers_ := true, cancelingTimers_ := SortedSet.empty })

/-- `handleRead` after its loop. -/
def endRead (q : TimerQueue) (expired : List Entry) (now : ℤ) : Except Failure TimerQueue :=
  { q with callingExpiredTimers_ := false }.reset expired now

/-! ### Invariants -/

/-- The timer `k`, an address and a sequence number, exists. -/
def Points (q : TimerQueue) (k : ActiveTimer) : Prop :=
  ∃ t, q.heap k.timer = some t ∧ t.sequence_ = k.sequence

/-- Sequence numbers identify the timers, and those of deleted timers are not used again. -/
structure Heaped (q : TimerQueue) : Prop where
  addr : ∀ p t, q.heap p = some t → 0 < p ∧ p < UINTPTR_MAX
  seq_le : ∀ p t, q.heap p = some t → t.sequence_ ≤ q.s_numCreated_
  seq_inj : ∀ p p' t t', q.heap p = some t → q.heap p' = some t' →
    t.sequence_ = t'.sequence_ → p = p'
  deleted_le : ∀ n ∈ q.deleted, n ≤ q.s_numCreated_
  deleted_gone : ∀ n ∈ q.deleted, ∀ p t, q.heap p = some t → t.sequence_ ≠ n
  deleted_nodup : q.deleted.Nodup

/-- The two sets hold the same timers, under their expiration and their sequence number. -/
structure Indexed (q : TimerQueue) : Prop where
  timers : ∀ e ∈ q.timers_, ∃ t, q.heap e.timer = some t ∧ t.expiration_ = e.when
  active : ∀ k ∈ q.activeTimers_, q.Points k
  same : ∀ p, (∃ e ∈ q.timers_, e.timer = p) ↔ ∃ k ∈ q.activeTimers_, k.timer = p
  sizes : q.SizesAgree

/-- The timers `l` exist, are different, and are in neither set. -/
structure Outside (q : TimerQueue) (l : List ActiveTimer) : Prop where
  nodup : (l.map ActiveTimer.timer).Nodup
  points : ∀ k ∈ l, q.Points k
  apart : ∀ k ∈ l, ∀ a ∈ q.activeTimers_, a.timer ≠ k.timer

/-- No timer is lost: those that are not in the sets are among `l`. -/
def Owned (q : TimerQueue) (l : List ActiveTimer) : Prop :=
  ∀ k, q.Points k → k ∈ q.activeTimers_ ∨ k ∈ l

/-- The invariant of the queue while the timers `l` are in other hands. -/
structure Good (q : TimerQueue) (l : List ActiveTimer) : Prop extends
    Heaped q, Indexed q, Outside q l where
  owned : Owned q l

theorem Points.unique {q : TimerQueue} {k k' : ActiveTimer} (h : q.Points k) (h' : q.Points k')
    (ht : k.timer = k'.timer) : k = k' := by
  obtain ⟨t, hk, hs⟩ := h
  obtain ⟨t', hk', hs'⟩ := h'
  obtain ⟨p, n⟩ := k
  obtain ⟨p', n'⟩ := k'
  simp only at ht hk hk' hs hs'
  subst ht
  rw [hk] at hk'
  cases hk'
  rw [← hs, ← hs']

theorem Outside.of_perm {q : TimerQueue} {l l' : List ActiveTimer} (h : Outside q l)
    (hl : l'.Perm l) : Outside q l' :=
  ⟨(hl.map _).nodup_iff.2 h.nodup, fun k hk => h.points k (hl.subset hk),
    fun k hk => h.apart k (hl.subset hk)⟩

theorem Good.of_perm {q : TimerQueue} {l l' : List ActiveTimer} (h : Good q l) (hl : l'.Perm l) :
    Good q l' :=
  ⟨h.toHeaped, h.toIndexed, h.toOutside.of_perm hl,
    fun k hk => (h.owned k hk).imp id fun h => hl.symm.subset h⟩

/-- The members that the invariants do not mention may change. -/
theorem Good.of_eq {q q' : TimerQueue} {l : List ActiveTimer} (h : Good q l)
    (hheap : q'.heap = q.heap) (hnum : q'.s_numCreated_ = q.s_numCreated_)
    (htimers : q'.timers_ = q.timers_) (hactive : q'.activeTimers_ = q.activeTimers_)
    (hdel : q'.deleted = q.deleted) : Good q' l := by
  obtain ⟨⟨h1, h2, h3, h4, h5, h6⟩, ⟨h7, h8, h9, h10⟩, ⟨h11, h12, h13⟩, h14⟩ := h
  unfold SizesAgree at h10
  unfold Points at h8 h12
  unfold Owned Points at h14
  refine ⟨⟨?_, ?_, ?_, ?_, ?_, ?_⟩, ⟨?_, ?_, ?_, ?_⟩, ⟨h11, ?_, ?_⟩, ?_⟩ <;>
    simp only [SizesAgree, Points, Owned, hheap, hnum, htimers, hactive, hdel] <;> assumption

/-- A timer outside the sets has no entry in `timers_` either. -/
theorem Good.apart_timers {q : TimerQueue} {l : List ActiveTimer} (h : Good q l) {k : ActiveTimer}
    (hk : k ∈ l) : ∀ e ∈ q.timers_, e.timer ≠ k.timer := by
  intro e he hek
  obtain ⟨a, ha, hak⟩ := (h.same k.timer).1 ⟨e, he, hek⟩
  exact h.apart k hk a ha hak

/-! ### `new`, `delete` and `restart` -/

theorem deref_eq {q : TimerQueue} {p : TimerPtr} {t : Timer} (h : q.heap p = some t) :
    q.deref p = .ok t := by
  unfold deref
  rw [h]

theorem Points.of_heap {q q' : TimerQueue} {k : ActiveTimer} (h : q.Points k)
    (hheap : q'.heap k.timer = q.heap k.timer) : q'.Points k := by
  obtain ⟨t, ht, hs⟩ := h
  exact ⟨t, hheap.trans ht, hs⟩

section NewTimer

variable {q : TimerQueue} {p : TimerPtr} {when : ℤ} {interval : Interval}

/-- `new` leaves the other timers alone. -/
theorem newTimer_old (hfree : q.heap p = none) {p' : TimerPtr} {t : Timer}
    (ht : q.heap p' = some t) : (q.newTimer p when interval).heap p' = some t := by
  have hne : p' ≠ p := by
    rintro rfl
    rw [hfree] at ht
    cases ht
  exact (Function.update_of_ne hne ..).trans ht

theorem newTimer_cases {p' : TimerPtr} {t : Timer}
    (ht : (q.newTimer p when interval).heap p' = some t) :
    (p' = p ∧ t.sequence_ = q.s_numCreated_ + 1) ∨ q.heap p' = some t := by
  by_cases hp : p' = p
  · subst hp
    simp only [newTimer, Function.update_self, Option.some.injEq] at ht
    subst ht
    exact .inl ⟨rfl, rfl⟩
  · right
    simpa only [newTimer, Function.update_of_ne hp] using ht

theorem newTimer_heaped (h : Heaped q) (hnull : 0 < p) (hmax : p < UINTPTR_MAX) :
    Heaped (q.newTimer p when interval) := by
  refine ⟨?_, ?_, ?_, ?_, ?_, h.deleted_nodup⟩
  · intro p' t ht
    rcases newTimer_cases ht with ⟨rfl, -⟩ | ht
    · exact ⟨hnull, hmax⟩
    · exact h.addr p' t ht
  · intro p' t ht
    rcases newTimer_cases ht with ⟨-, hs⟩ | ht
    · exact le_of_eq hs
    · exact (h.seq_le p' t ht).trans (Nat.le_succ _)
  -- the new sequence number is above all the others
  · intro p₁ p₂ t₁ t₂ h₁ h₂ hs
    rcases newTimer_cases h₁ with ⟨hp₁, hs₁⟩ | h₁' <;>
      rcases newTimer_cases h₂ with ⟨hp₂, hs₂⟩ | h₂'
    · rw [hp₁, hp₂]
    · have := h.seq_le p₂ t₂ h₂'
      omega
    · have := h.seq_le p₁ t₁ h₁'
      omega
    · exact h.seq_inj p₁ p₂ t₁ t₂ h₁' h₂' hs
  · intro n hn
    exact (h.deleted_le n hn).trans (Nat.le_succ _)
  · intro n hn p' t ht
    rcases newTimer_cases ht with ⟨-, hs⟩ | ht
    · have := h.deleted_le n hn
      omega
    · exact h.deleted_gone n hn p' t ht

/-- A new timer is outside the sets. -/
theorem newTimer_good {l : List ActiveTimer} (h : Good q l) (hnull : 0 < p)
    (hmax : p < UINTPTR_MAX) (hfree : q.heap p = none) (when : ℤ) (interval : Interval) :
    Good (q.newTimer p when interval) (⟨p, q.s_numCreated_ + 1⟩ :: l) := by
  have hpoints : ∀ k, q.Points k → (q.newTimer p when interval).Points k := by
    rintro k ⟨t, ht, hs⟩
    exact ⟨t, newTimer_old hfree ht, hs⟩
  have hapart : ∀ k, q.Points k → k.timer ≠ p := by
    rintro k ⟨t, ht, -⟩ rfl
    rw [hfree] at ht
    cases ht
  refine ⟨newTimer_heaped h.toHeaped hnull hmax, ⟨?_, ?_, h.same, h.sizes⟩, ⟨?_, ?_, ?_⟩, ?_⟩
  · intro e he
    obtain ⟨t, ht, hx⟩ := h.timers e he
    exact ⟨t, newTimer_old hfree ht, hx⟩
  · exact fun k hk => hpoints k (h.active k hk)
  · rw [List.map_cons, List.nodup_cons]
    refine ⟨fun hmem => ?_, h.nodup⟩
    obtain ⟨k, hk, hkp⟩ := List.mem_map.1 hmem
    exact hapart k (h.points k hk) hkp
  · intro k hk
    rcases List.mem_cons.1 hk with rfl | hk
    · exact ⟨_, Function.update_self .., rfl⟩
    · exact hpoints k (h.points k hk)
  · intro k hk a ha
    rcases List.mem_cons.1 hk with rfl | hk
    · exact hapart a (h.active a ha)
    · exact h.apart k hk a ha
  · rintro k ⟨t, ht, hs⟩
    rcases newTimer_cases ht with ⟨hp, hn⟩ | ht
    · right
      rw [show k = ⟨p, q.s_numCreated_ + 1⟩ by cases k; simp_all]
      exact List.mem_cons_self
    · exact (h.owned k ⟨t, ht, hs⟩).imp id (List.mem_cons_of_mem _)

end NewTimer

/-- The queue without the timer `k`, which was outside the sets. -/
def without (q : TimerQueue) (k : ActiveTimer) : TimerQueue :=
  { q with heap := Function.update q.heap k.timer none, deleted := q.deleted ++ [k.sequence] }

/-- Only the timer `k` is gone. -/
theorem Points.gone_without {q : TimerQueue} {k a : ActiveTimer} (hk : q.Points k)
    (ha : q.Points a) : (q.without k).Points a ∨ a.sequence ∈ (q.without k).deleted := by
  by_cases heq : a.timer = k.timer
  · rw [ha.unique hk heq]
    exact .inr (List.mem_append_right _ (List.mem_singleton.2 rfl))
  · exact .inl (ha.of_heap (Function.update_of_ne heq ..))

/-- A timer outside the sets can be deleted, and is never deleted again. -/
theorem delete_good {q : TimerQueue} {l : List ActiveTimer} {k : ActiveTimer}
    (h : Good q (k :: l)) : q.delete k.timer = .ok (q.without k) ∧ Good (q.without k) l := by
  obtain ⟨t, ht, hs⟩ := h.points k List.mem_cons_self
  have hnd := h.nodup
  rw [List.map_cons, List.nodup_cons] at hnd
  have hother : ∀ p, p ≠ k.timer → (q.without k).heap p = q.heap p :=
    fun p hp => Function.update_of_ne hp ..
  have hold : ∀ p t', (q.without k).heap p = some t' → p ≠ k.timer ∧ q.heap p = some t' := by
    intro p t' hp
    have hne : p ≠ k.timer := by
      rintro rfl
      simp [without] at hp
    exact ⟨hne, (hother p hne).symm.trans hp⟩
  have hgone : ∀ n ∈ q.deleted, n ≠ k.sequence :=
    fun n hn heq => h.deleted_gone n hn _ t ht (hs.trans heq.symm)
  refine ⟨?_, ⟨?_, ?_, ?_, ?_, ?_, ?_⟩, ⟨?_, ?_, h.same, h.sizes⟩, ⟨hnd.2, ?_, ?_⟩, ?_⟩
  · simp only [delete, ht, without, hs]
  · exact fun p t' hp => h.addr p t' (hold p t' hp).2
  · exact fun p t' hp => h.seq_le p t' (hold p t' hp).2
  · exact fun p₁ p₂ t₁ t₂ h₁ h₂ => h.seq_inj p₁ p₂ t₁ t₂ (hold _ _ h₁).2 (hold _ _ h₂).2
  · intro n hn
    rcases List.mem_append.1 hn with hn | hn
    · exact h.deleted_le n hn
    · rw [List.mem_singleton.1 hn, ← hs]
      exact h.seq_le _ t ht
  · intro n hn p t' hp
    obtain ⟨hne, hp⟩ := hold p t' hp
    rcases List.mem_append.1 hn with hn | hn
    · exact h.deleted_gone n hn p t' hp
    · rw [List.mem_singleton.1 hn, ← hs]
      exact fun heq => hne (h.seq_inj p _ t' t hp ht heq)
  · refine List.nodup_append.2 ⟨h.deleted_nodup, List.nodup_singleton _, fun a ha b hb => ?_⟩
    rw [List.mem_singleton.1 hb]
    exact hgone a ha
  · intro e he
    obtain ⟨t', ht', hx⟩ := h.timers e he
    exact ⟨t', (hother _ (h.apart_timers List.mem_cons_self e he)).trans ht', hx⟩
  · exact fun a ha => (h.active a ha).of_heap (hother _ (h.apart k List.mem_cons_self a ha))
  · intro a ha
    refine (h.points a (List.mem_cons_of_mem _ ha)).of_heap (hother _ fun heq => hnd.1 ?_)
    exact heq ▸ List.mem_map_of_mem ha
  · exact fun a ha => h.apart a (List.mem_cons_of_mem _ ha)
  · rintro a ⟨t', ht', hs'⟩
    obtain ⟨hne, hold'⟩ := hold _ t' ht'
    refine (h.owned a ⟨t', hold', hs'⟩).imp id fun ha => ?_
    exact (List.mem_cons.1 ha).resolve_left fun heq => hne (heq ▸ rfl)

/-- The queue after a restart of the timer `k`. -/
def restarted (q : TimerQueue) (k : ActiveTimer) (t : Timer) (now : ℤ) : TimerQueue :=
  { q with heap := Function.update q.heap k.timer (some (t.restart now)) }

/-- No timer is gone. -/
theorem Points.restarted {q : TimerQueue} {k a : ActiveTimer} {t : Timer} {now : ℤ}
    (ha : q.Points a) (ht : q.heap k.timer = some t) : (q.restarted k t now).Points a := by
  obtain ⟨t', ht', hs⟩ := ha
  by_cases hk : a.timer = k.timer
  · rw [hk, ht] at ht'
    cases ht'
    exact ⟨t.restart now, (congrArg _ hk).trans (Function.update_self ..), hs⟩
  · exact ⟨t', (Function.update_of_ne hk ..).trans ht', hs⟩

/-- A timer outside the sets can be restarted. -/
theorem restart_good {q : TimerQueue} {l : List ActiveTimer} {k : ActiveTimer} {t : Timer}
    (h : Good q (k :: l)) (ht : q.heap k.timer = some t) (now : ℤ) :
    q.restart k.timer now = .ok (q.restarted k t now) ∧ Good (q.restarted k t now) (k :: l) := by
  have hother : ∀ p, p ≠ k.timer → (q.restarted k t now).heap p = q.heap p :=
    fun p hp => Function.update_of_ne hp ..
  have hself : (q.restarted k t now).heap k.timer = some (t.restart now) :=
    Function.update_self ..
  -- every object has kept its sequence number
  have hseq : ∀ p t', (q.restarted k t now).heap p = some t' →
      ∃ t₀, q.heap p = some t₀ ∧ t₀.sequence_ = t'.sequence_ := by
    intro p t' hp
    by_cases hk : p = k.timer
    · subst hk
      rw [hself] at hp
      cases hp
      exact ⟨t, ht, rfl⟩
    · exact ⟨t', (hother p hk).symm.trans hp, rfl⟩
  have hpoints : ∀ a, q.Points a → (q.restarted k t now).Points a := fun a ha => ha.restarted ht
  refine ⟨?_, ⟨?_, ?_, ?_, h.deleted_le, ?_, h.deleted_nodup⟩,
    ⟨?_, fun a ha => hpoints a (h.active a ha), h.same, h.sizes⟩,
    ⟨h.nodup, fun a ha => hpoints a (h.points a ha), h.apart⟩, ?_⟩
  · rw [restart, deref_eq ht]
    rfl
  · intro p t' hp
    obtain ⟨t₀, h₀, -⟩ := hseq p t' hp
    exact h.addr p t₀ h₀
  · intro p t' hp
    obtain ⟨t₀, h₀, hs⟩ := hseq p t' hp
    exact hs ▸ h.seq_le p t₀ h₀
  · intro p₁ p₂ t₁ t₂ h₁ h₂ hs
    obtain ⟨t₁', h₁', hs₁⟩ := hseq p₁ t₁ h₁
    obtain ⟨t₂', h₂', hs₂⟩ := hseq p₂ t₂ h₂
    exact h.seq_inj p₁ p₂ t₁' t₂' h₁' h₂' (hs₁.trans (hs.trans hs₂.symm))
  · intro n hn p t' hp
    obtain ⟨t₀, h₀, hs⟩ := hseq p t' hp
    exact hs ▸ h.deleted_gone n hn p t₀ h₀
  · intro e he
    obtain ⟨t', ht', hx⟩ := h.timers e he
    exact ⟨t', (hother _ (h.apart_timers List.mem_cons_self e he)).trans ht', hx⟩
  · rintro a ⟨t', ht', hs⟩
    obtain ⟨t₀, h₀, hs₀⟩ := hseq _ t' ht'
    exact h.owned a ⟨t₀, h₀, hs₀.trans hs⟩

/-! ### `insert` and `addTimerInLoop` -/

/-- The queue with the timer `k` in both sets. -/
def inserted (q : TimerQueue) (k : ActiveTimer) (t : Timer) : TimerQueue :=
  { q with
    timers_ := (q.timers_.insert ⟨t.expiration_, k.timer⟩).1
    activeTimers_ := (q.activeTimers_.insert k).1 }

/-- A timer outside the sets can be inserted, and no assertion of `insert` fails. -/
theorem insert_good {q : TimerQueue} {l : List ActiveTimer} {k : ActiveTimer} {t : Timer}
    (h : Good q (k :: l)) (ht : q.heap k.timer = some t) :
    q.insert k.timer = .ok (q.earliestChanged t.expiration_, q.inserted k t) ∧
      Good (q.inserted k t) l ∧
      ∀ e, e ∈ (q.inserted k t).timers_ ↔ e = ⟨t.expiration_, k.timer⟩ ∨ e ∈ q.timers_ := by
  obtain ⟨t', ht', hs⟩ := h.points k List.mem_cons_self
  rw [ht] at ht'
  obtain rfl : t = t' := by
    cases ht'
    rfl
  have hk : (⟨k.timer, t.sequence_⟩ : ActiveTimer) = k := by rw [hs]
  have hnd := h.nodup
  rw [List.map_cons, List.nodup_cons] at hnd
  have hnewT : (⟨t.expiration_, k.timer⟩ : Entry) ∉ q.timers_ :=
    fun he => h.apart_timers List.mem_cons_self _ he rfl
  have hnewA : k ∉ q.activeTimers_ := fun hk => h.apart k List.mem_cons_self k hk rfl
  obtain ⟨hT, hsizeT, hmemT⟩ := SortedSet.insert_new hnewT
  obtain ⟨hA, hsizeA, hmemA⟩ := SortedSet.insert_new hnewA
  have hsizes : (q.inserted k t).SizesAgree := by
    show (q.timers_.insert _).1.size = (q.activeTimers_.insert k).1.size
    rw [hsizeT, hsizeA, h.sizes]
  refine ⟨?_, ⟨⟨h.addr, h.seq_le, h.seq_inj, h.deleted_le, h.deleted_gone, h.deleted_nodup⟩,
    ⟨?_, ?_, ?_, hsizes⟩, ⟨hnd.2, ?_, ?_⟩, ?_⟩, hmemT⟩
  · simp only [insert, require_of h.sizes, ok_bind, deref_eq ht, require_of hT, hk,
      require_of hA]
    exact congrArg (· >>= _) (require_of hsizes)
  · intro e he
    rcases (hmemT e).1 he with rfl | he
    · exact ⟨t, ht, rfl⟩
    · exact h.timers e he
  · intro a ha
    rcases (hmemA a).1 ha with rfl | ha
    · exact ⟨t, ht, hs⟩
    · exact h.active a ha
  · intro p
    constructor
    · rintro ⟨e, he, rfl⟩
      rcases (hmemT e).1 he with rfl | he
      · exact ⟨k, (hmemA k).2 (.inl rfl), rfl⟩
      · obtain ⟨a, ha, hap⟩ := (h.same e.timer).1 ⟨e, he, rfl⟩
        exact ⟨a, (hmemA a).2 (.inr ha), hap⟩
    · rintro ⟨a, ha, rfl⟩
      rcases (hmemA a).1 ha with rfl | ha
      · exact ⟨_, (hmemT _).2 (.inl rfl), rfl⟩
      · obtain ⟨e, he, hea⟩ := (h.same a.timer).2 ⟨a, ha, rfl⟩
        exact ⟨e, (hmemT e).2 (.inr he), hea⟩
  · exact fun a ha => h.points a (List.mem_cons_of_mem _ ha)
  · intro a ha b hb
    rcases (hmemA b).1 hb with rfl | hb
    · exact fun heq => hnd.1 (heq ▸ List.mem_map_of_mem ha)
    · exact h.apart a (List.mem_cons_of_mem _ ha) b hb
  · intro a ha
    rcases h.owned a ha with ha | ha
    · exact .inl ((hmemA a).2 (.inr ha))
    · exact (List.mem_cons.1 ha).imp (fun h => (hmemA a).2 (.inl h)) id

/-- The queue after `addTimerInLoop`. -/
def added (q : TimerQueue) (k : ActiveTimer) (t : Timer) : TimerQueue :=
  if q.earliestChanged t.expiration_ then (q.inserted k t).resetTimerfd t.expiration_
  else q.inserted k t

theorem added_frame (q : TimerQueue) (k : ActiveTimer) (t : Timer) :
    (q.added k t).heap = q.heap ∧ (q.added k t).activeTimers_ = (q.activeTimers_.insert k).1 ∧
      (q.added k t).deleted = q.deleted ∧ (q.added k t).cancelingTimers_ = q.cancelingTimers_ := by
  unfold added
  split_ifs <;> exact ⟨rfl, rfl, rfl, rfl⟩

theorem addTimerInLoop_good {q : TimerQueue} {l : List ActiveTimer} {k : ActiveTimer} {t : Timer}
    (h : Good q (k :: l)) (ht : q.heap k.timer = some t) :
    q.addTimerInLoop k.timer = .ok (q.added k t) ∧ Good (q.added k t) l := by
  obtain ⟨hins, hgood, -⟩ := insert_good h ht
  have hderef : (q.inserted k t).deref k.timer = .ok t := deref_eq ht
  unfold addTimerInLoop added
  rw [hins, ok_bind]
  by_cases hearliest : q.earliestChanged t.expiration_ = true
  · simp only [hearliest, if_true, hderef, ok_bind]
    exact ⟨rfl, hgood.of_eq rfl rfl rfl rfl rfl⟩
  · simp only [hearliest, if_false, Bool.false_eq_true]
    exact ⟨rfl, hgood⟩

/-! ### `cancelInLoop` -/

/-- The queue with the timer `k` out of both sets. -/
def takenOut (q : TimerQueue) (k : ActiveTimer) (t : Timer) : TimerQueue :=
  { q with
    timers_ := (q.timers_.erase ⟨t.expiration_, k.timer⟩).1
    activeTimers_ := (q.activeTimers_.erase k).1 }

/-- The entry of an active timer in `timers_`. -/
theorem Good.entry {q : TimerQueue} {l : List ActiveTimer} {k : ActiveTimer} {t : Timer}
    (h : Good q l) (hk : k ∈ q.activeTimers_) (ht : q.heap k.timer = some t) :
    (⟨t.expiration_, k.timer⟩ : Entry) ∈ q.timers_ := by
  obtain ⟨e, he, hek⟩ := (h.same k.timer).2 ⟨k, hk, rfl⟩
  obtain ⟨t', ht', hx⟩ := h.timers e he
  rw [hek, ht] at ht'
  cases ht'
  rw [hx, ← hek]
  exact he

/-- A pointer has at most one entry in `timers_`. -/
theorem Good.entry_unique {q : TimerQueue} {l : List ActiveTimer} (h : Good q l) {e e' : Entry}
    (he : e ∈ q.timers_) (he' : e' ∈ q.timers_) (heq : e.timer = e'.timer) : e = e' := by
  obtain ⟨t, ht, hx⟩ := h.timers e he
  obtain ⟨t', ht', hx'⟩ := h.timers e' he'
  rw [heq, ht'] at ht
  cases ht
  cases e
  cases e'
  simp_all

/-- An active timer can be taken out of both sets. -/
theorem takenOut_good {q : TimerQueue} {l : List ActiveTimer} {k : ActiveTimer} {t : Timer}
    (h : Good q l) (hk : k ∈ q.activeTimers_) (ht : q.heap k.timer = some t) :
    (q.timers_.erase ⟨t.expiration_, k.timer⟩).2 = 1 ∧ Good (q.takenOut k t) (k :: l) := by
  have hentry := h.entry hk ht
  obtain ⟨hone, hsizeT, hmemT⟩ := SortedSet.erase_present hentry
  obtain ⟨-, hsizeA, hmemA⟩ := SortedSet.erase_present hk
  refine ⟨hone, ⟨h.addr, h.seq_le, h.seq_inj, h.deleted_le, h.deleted_gone, h.deleted_nodup⟩,
    ⟨?_, ?_, ?_, ?_⟩, ⟨?_, ?_, ?_⟩, ?_⟩
  · exact fun e he => h.timers e ((hmemT e).1 he).2
  · exact fun a ha => h.active a ((hmemA a).1 ha).2
  · intro p
    constructor
    · rintro ⟨e, he, rfl⟩
      obtain ⟨hne, he'⟩ := (hmemT e).1 he
      obtain ⟨a, ha, hae⟩ := (h.same e.timer).1 ⟨e, he', rfl⟩
      refine ⟨a, (hmemA a).2 ⟨fun hak => ?_, ha⟩, hae⟩
      exact hne (h.entry_unique he' hentry (hak ▸ hae.symm))
    · rintro ⟨a, ha, rfl⟩
      obtain ⟨hne, ha'⟩ := (hmemA a).1 ha
      obtain ⟨e, he, hea⟩ := (h.same a.timer).2 ⟨a, ha', rfl⟩
      refine ⟨e, (hmemT e).2 ⟨fun hek => ?_, he⟩, hea⟩
      subst hek
      exact hne ((h.active a ha').unique (h.active k hk) hea.symm)
  · have hsizes := h.sizes
    unfold SizesAgree at hsizes ⊢
    show (q.timers_.erase _).1.size = (q.activeTimers_.erase k).1.size
    omega
  · rw [List.map_cons, List.nodup_cons]
    refine ⟨fun hmem => ?_, h.nodup⟩
    obtain ⟨a, ha, hak⟩ := List.mem_map.1 hmem
    exact h.apart a ha k hk hak.symm
  · intro a ha
    rcases List.mem_cons.1 ha with rfl | ha
    · exact h.active a hk
    · exact h.points a ha
  · intro a ha b hb
    obtain ⟨hne, hb'⟩ := (hmemA b).1 hb
    rcases List.mem_cons.1 ha with hak | ha
    · subst hak
      exact fun heq => hne ((h.active b hb').unique (h.active a hk) heq)
    · exact h.apart a ha b hb'
  · intro a ha
    by_cases hak : a = k
    · exact .inr (hak ▸ List.mem_cons_self)
    · exact (h.owned a ha).imp (fun ha => (hmemA a).2 ⟨hak, ha⟩) (List.mem_cons_of_mem _)

/-- What the operations of the loop thread leave alone. -/
structure Kept (q q' : TimerQueue) : Prop where
  clock : q'.clock = q.clock
  numCreated : q'.s_numCreated_ = q.s_numCreated_
  calling : q'.callingExpiredTimers_ = q.callingExpiredTimers_
  timerfd : q'.timerfd_ = q.timerfd_
  programmed : q'.programmed = q.programmed
  deleted : q.deleted ⊆ q'.deleted
  gone : ∀ k, q.Points k → q'.Points k ∨ k.sequence ∈ q'.deleted

theorem Kept.refl (q : TimerQueue) : Kept q q :=
  ⟨rfl, rfl, rfl, rfl, rfl, List.Subset.refl _, fun _ => .inl⟩

theorem Kept.trans {q q' q'' : TimerQueue} (h : Kept q q') (h' : Kept q' q'') : Kept q q'' :=
  ⟨h'.clock.trans h.clock, h'.numCreated.trans h.numCreated, h'.calling.trans h.calling,
    h'.timerfd.trans h.timerfd, h'.programmed.trans h.programmed,
    List.Subset.trans h.deleted h'.deleted, fun k hk => by
      rcases h.gone k hk with hk | hk
      · exact h'.gone k hk
      · exact .inr (h'.deleted hk)⟩

/-- What `cancelInLoop` does: an active timer is deleted, and during a batch any other id is put
into `cancelingTimers_`. -/
structure Cancels (id : TimerId) (q q' : TimerQueue) : Prop extends Kept q q' where
  timers : ∀ e ∈ q'.timers_, e ∈ q.timers_
  canceling : ∀ k ∈ q.cancelingTimers_, k ∈ q'.cancelingTimers_
  active : id.active ∈ q.activeTimers_ → id.sequence_ ∈ q'.deleted
  inactive : id.active ∉ q.activeTimers_ → q.callingExpiredTimers_ = true →
    id.active ∈ q'.cancelingTimers_

/-- The queue with a note in `cancelingTimers_` during a batch. -/
def noted (q : TimerQueue) (k : ActiveTimer) : TimerQueue :=
  if q.callingExpiredTimers_ then
    { q with cancelingTimers_ := (q.cancelingTimers_.insert k).1 }
  else q

theorem noted_good {q : TimerQueue} {l : List ActiveTimer} (h : Good q l) (k : ActiveTimer) :
    Good (q.noted k) l := by
  unfold noted
  split_ifs
  · exact h.of_eq rfl rfl rfl rfl rfl
  · exact h

theorem noted_frame (q : TimerQueue) (k : ActiveTimer) :
    Kept q (q.noted k) ∧ (q.noted k).heap = q.heap ∧ (q.noted k).timers_ = q.timers_ ∧
      (q.noted k).activeTimers_ = q.activeTimers_ ∧ (q.noted k).deleted = q.deleted := by
  unfold noted
  split_ifs
  · exact ⟨⟨rfl, rfl, rfl, rfl, rfl, List.Subset.refl _, fun _ => .inl⟩, rfl, rfl, rfl, rfl⟩
  · exact ⟨Kept.refl q, rfl, rfl, rfl, rfl⟩

theorem mem_noted {q : TimerQueue} {k a : ActiveTimer} :
    a ∈ (q.noted k).cancelingTimers_ ↔
      (q.callingExpiredTimers_ = true ∧ a = k) ∨ a ∈ q.cancelingTimers_ := by
  unfold noted
  split_ifs with hc
  · show a ∈ (q.cancelingTimers_.insert k).1 ↔ _
    rw [SortedSet.mem_insert]
    tauto
  · tauto

/-- `cancelInLoop` succeeds for any id: it deletes an active timer, and otherwise leaves at most a
note. -/
theorem cancelInLoop_cases {q : TimerQueue} {l : List ActiveTimer} (h : Good q l) (id : TimerId) :
    (∃ t, id.active ∈ q.activeTimers_ ∧ q.heap id.timer_ = some t ∧ t.sequence_ = id.sequence_ ∧
      q.cancelInLoop id = .ok ((q.takenOut id.active t).without id.active) ∧
      Good ((q.takenOut id.active t).without id.active) l) ∨
    (id.active ∉ q.activeTimers_ ∧ q.cancelInLoop id = .ok (q.noted id.active) ∧
      Good (q.noted id.active) l) := by
  unfold cancelInLoop
  rw [require_of h.sizes, ok_bind]
  by_cases hk : id.active ∈ q.activeTimers_
  · obtain ⟨t, ht, hs⟩ := h.active _ hk
    obtain ⟨hone, htaken⟩ := takenOut_good h hk ht
    obtain ⟨-, hgood⟩ := delete_good htaken
    have hcancel : q.cancelActive id.active = .ok ((q.takenOut id.active t).without id.active) := by
      simp only [cancelActive, deref_eq ht, ok_bind, require_of hone, delete, ht, hs]
      rfl
    refine .inl ⟨t, hk, ht, hs, ?_, hgood⟩
    rw [if_pos hk, hcancel, ok_bind, require_of hgood.sizes]
    rfl
  · have hgood := noted_good h id.active
    refine .inr ⟨hk, ?_, hgood⟩
    rw [if_neg hk]
    show (require (q.noted id.active).SizesAgree Failure.sizes >>= fun _ => _) = _
    rw [require_of hgood.sizes]
    rfl

theorem cancelInLoop_good {q : TimerQueue} {l : List ActiveTimer} (h : Good q l) (id : TimerId) :
    ∃ q', q.cancelInLoop id = .ok q' ∧ Good q' l ∧ Cancels id q q' := by
  rcases cancelInLoop_cases h id with ⟨t, hk, ht, hs, hcancel, hgood⟩ | ⟨hk, hcancel, hgood⟩
  · refine ⟨_, hcancel, hgood, ⟨⟨rfl, rfl, rfl, rfl, rfl, List.subset_append_left _ _, fun a ha =>
      Points.gone_without (q := q.takenOut id.active t) ⟨t, ht, hs⟩ ha⟩, ?_,
      fun k hk => hk, fun _ => ?_, fun hnot => absurd hk hnot⟩⟩
    · exact fun e he => (SortedSet.mem_erase.1 he).2
    · exact List.mem_append_right _ (List.mem_singleton.2 rfl)
  · obtain ⟨hkept, -, htimers, -⟩ := noted_frame q id.active
    exact ⟨_, hcancel, hgood, ⟨hkept, fun e he => htimers ▸ he, fun k hk => mem_noted.2 (.inr hk),
      fun h => absurd h hk, fun _ hc => mem_noted.2 (.inl ⟨hc, rfl⟩)⟩⟩

/-! ### `getExpired` -/

/-- The timers behind entries. -/
def objects (q : TimerQueue) (es : List Entry) : List ActiveTimer :=
  es.map fun e => ⟨e.timer, (q.heap e.timer).elim 0 Timer.sequence_⟩

theorem objects_map_timer (q : TimerQueue) (es : List Entry) :
    (q.objects es).map ActiveTimer.timer = es.map Entry.timer := by
  unfold objects
  rw [List.map_map]
  rfl

/-- The loop of `getExpired` erases each of its timers from `activeTimers_`. -/
theorem eraseExpired_ok {q : TimerQueue} {es : List Entry} (hnd : (es.map Entry.timer).Nodup)
    (hes : ∀ e ∈ es, ∃ t, q.heap e.timer = some t ∧
      (⟨e.timer, t.sequence_⟩ : ActiveTimer) ∈ q.activeTimers_) :
    ∃ A : SortedSet ActiveTimer, q.eraseExpired es = .ok { q with activeTimers_ := A } ∧
      A.size + es.length = q.activeTimers_.size ∧
      ∀ a, a ∈ A ↔ a ∈ q.activeTimers_ ∧ a ∉ q.objects es := by
  induction es generalizing q with
  | nil => exact ⟨q.activeTimers_, rfl, rfl, fun a => by simp [objects]⟩
  | cons e es ih =>
    obtain ⟨t, ht, hmem⟩ := hes e List.mem_cons_self
    rw [List.map_cons, List.nodup_cons] at hnd
    obtain ⟨hone, hsize, hA⟩ := SortedSet.erase_present hmem
    obtain ⟨A, hrun, hlen, hmemA⟩ := ih
      (q := { q with activeTimers_ := (q.activeTimers_.erase ⟨e.timer, t.sequence_⟩).1 }) hnd.2 (by
        intro e' he'
        obtain ⟨t', ht', hmem'⟩ := hes e' (List.mem_cons_of_mem _ he')
        refine ⟨t', ht', (hA _).2 ⟨fun heq => hnd.1 ?_, hmem'⟩⟩
        rw [← (ActiveTimer.mk.inj heq).1]
        exact List.mem_map_of_mem he')
    refine ⟨A, ?_, ?_, fun a => ?_⟩
    · simp only [eraseExpired, deref_eq ht, ok_bind, require_of hone]
      exact hrun
    · rw [List.length_cons]
      simp only at hlen
      omega
    · have hobj : q.objects (e :: es) = ⟨e.timer, t.sequence_⟩ :: q.objects es := by
        simp [objects, ht]
      rw [hmemA, hA, hobj, List.mem_cons]
      show (a ≠ _ ∧ a ∈ q.activeTimers_) ∧ a ∉ q.objects es ↔ _
      tauto

/-- An entry at or after the sentry is not due: the address in the sentry is above all others. -/
theorem Good.later {q : TimerQueue} {l : List ActiveTimer} (h : Good q l) {now : ℤ} {e : Entry}
    (he : e ∈ q.timers_.above ⟨now, UINTPTR_MAX⟩) : now < e.when := by
  obtain ⟨he, hle⟩ := SortedSet.mem_above.1 he
  obtain ⟨t, ht, -⟩ := h.timers e he
  have hlt := (h.addr _ t ht).2
  by_contra hnot
  refine absurd hle (not_le.2 (Entry.lt_iff.2 ?_))
  rcases lt_or_eq_of_le (not_lt.1 hnot) with hw | hw
  · exact .inl hw
  · exact .inr ⟨hw, hlt⟩

/-- The timer of an entry is active under its sequence number. -/
theorem Good.active_of_entry {q : TimerQueue} {l : List ActiveTimer} (h : Good q l) {e : Entry}
    (he : e ∈ q.timers_) : ∃ t, q.heap e.timer = some t ∧
      (⟨e.timer, t.sequence_⟩ : ActiveTimer) ∈ q.activeTimers_ := by
  obtain ⟨a, ha, hae⟩ := (h.same e.timer).1 ⟨e, he, rfl⟩
  obtain ⟨t, ht, hs⟩ := h.active a ha
  refine ⟨t, hae ▸ ht, ?_⟩
  rw [hs, ← hae]
  exact ha

theorem Good.of_objects {q : TimerQueue} {l : List ActiveTimer} (h : Good q l) {es : List Entry}
    (hes : ∀ e ∈ es, e ∈ q.timers_) {a : ActiveTimer} (ha : a ∈ q.objects es) :
    a ∈ q.activeTimers_ ∧ q.Points a ∧ ∃ e ∈ es, e.timer = a.timer := by
  obtain ⟨e, he, rfl⟩ := List.mem_map.1 ha
  obtain ⟨t, ht, hmem⟩ := h.active_of_entry (hes e he)
  simp only [ht, Option.elim_some]
  exact ⟨hmem, ⟨t, ht, rfl⟩, e, he, rfl⟩

/-- The entries below a sentry and the active timers behind them are taken out together. -/
theorem Good.same_above {q : TimerQueue} {l : List ActiveTimer} (h : Good q l) {sentry : Entry}
    {A : SortedSet ActiveTimer}
    (hA : ∀ a, a ∈ A ↔ a ∈ q.activeTimers_ ∧ a ∉ q.objects (q.timers_.below sentry))
    (p : TimerPtr) :
    (∃ e ∈ q.timers_.above sentry, e.timer = p) ↔ ∃ k ∈ A, k.timer = p := by
  have hbelow : ∀ e ∈ q.timers_.below sentry, e ∈ q.timers_ :=
    fun e he => (SortedSet.mem_below.1 he).1
  constructor
  · rintro ⟨e, he, rfl⟩
    obtain ⟨hmem, hle⟩ := SortedSet.mem_above.1 he
    obtain ⟨a, ha, hae⟩ := (h.same e.timer).1 ⟨e, hmem, rfl⟩
    refine ⟨a, (hA a).2 ⟨ha, fun hin => ?_⟩, hae⟩
    -- an entry at or after the lower bound is not one of the expired ones
    obtain ⟨-, -, e', he', heq⟩ := h.of_objects hbelow hin
    have hsame : e' = e := h.entry_unique (hbelow e' he') hmem (heq.trans hae)
    exact not_lt.2 hle (hsame ▸ (SortedSet.mem_below.1 he').2)
  · rintro ⟨a, ha, rfl⟩
    obtain ⟨ha, hnot⟩ := (hA a).1 ha
    obtain ⟨e, he, hea⟩ := (h.same a.timer).2 ⟨a, ha, rfl⟩
    refine ⟨e, SortedSet.mem_above.2 ⟨he, not_lt.1 fun hlt => hnot ?_⟩, hea⟩
    obtain ⟨t, ht, hmem⟩ := h.active_of_entry he
    have hka : a = ⟨e.timer, t.sequence_⟩ :=
      (h.active a ha).unique (h.active _ hmem) hea.symm
    rw [hka]
    exact List.mem_map.2 ⟨e, SortedSet.mem_below.2 ⟨he, hlt⟩, by simp [ht]⟩

/-- `getExpired` takes the timers that are due out of both sets. -/
theorem getExpired_good {q : TimerQueue} {l : List ActiveTimer} (h : Good q l) (now : ℤ) :
    ∃ q', q.getExpired now = .ok (q.timers_.below ⟨now, UINTPTR_MAX⟩, q') ∧
      Good q' (q.objects (q.timers_.below ⟨now, UINTPTR_MAX⟩) ++ l) ∧ Kept q q' ∧
      q'.heap = q.heap ∧ (∀ e ∈ q'.timers_, now < e.when) := by
  set sentry : Entry := ⟨now, UINTPTR_MAX⟩ with hsentry
  set expired := q.timers_.below sentry with hexpired
  have hmem : ∀ e ∈ expired, e ∈ q.timers_ := fun e he => (SortedSet.mem_below.1 he).1
  have hnd : (expired.map Entry.timer).Nodup := by
    refine (List.nodup_map_iff_inj_on (q.timers_.below_nodup sentry)).2 ?_
    exact fun e he e' he' heq => h.entry_unique (hmem e he) (hmem e' he') heq
  obtain ⟨A, hrun, hlen, hA⟩ := eraseExpired_ok
    (q := { q with timers_ := q.timers_.above sentry }) hnd
    fun e he => h.active_of_entry (hmem e he)
  have hsizes : SizesAgree
      { q with timers_ := q.timers_.above sentry, activeTimers_ := A } := by
    have hsplit : expired.length + (q.timers_.above sentry).size = q.timers_.size :=
      SortedSet.size_above q.timers_ sentry
    have hold := h.sizes
    simp only [SizesAgree] at hold hlen ⊢
    omega
  refine ⟨{ q with timers_ := q.timers_.above sentry, activeTimers_ := A }, ?_,
    ⟨⟨h.addr, h.seq_le, h.seq_inj, h.deleted_le, h.deleted_gone, h.deleted_nodup⟩,
      ⟨?_, ?_, h.same_above hA, hsizes⟩, ⟨?_, ?_, ?_⟩, ?_⟩,
    ⟨rfl, rfl, rfl, rfl, rfl, List.Subset.refl _, fun k hk => .inl hk⟩, rfl, fun e => h.later⟩
  · have hfirst : LaterThan { q with timers_ := q.timers_.above sentry } now :=
      fun e he => h.later (SortedSet.begin?_eq_some.1 he).1
    simp only [getExpired, require_of h.sizes, ok_bind, ← hsentry, require_of hfirst, ← hexpired,
      hrun, require_of hsizes]
    rfl
  · exact fun e he => h.timers e (SortedSet.mem_above.1 he).1
  · exact fun a ha => h.active a ((hA a).1 ha).1
  · rw [List.map_append, List.nodup_append, objects_map_timer]
    refine ⟨hnd, h.nodup, fun p hp p' hp' heq => ?_⟩
    obtain ⟨e, he, rfl⟩ := List.mem_map.1 hp
    obtain ⟨a, ha, rfl⟩ := List.mem_map.1 hp'
    exact h.apart_timers ha e (hmem e he) heq
  · intro a ha
    rcases List.mem_append.1 ha with ha | ha
    · exact (h.of_objects hmem ha).2.1
    · exact h.points a ha
  · intro a ha b hb heq
    obtain ⟨hb, hnot⟩ := (hA b).1 hb
    rcases List.mem_append.1 ha with ha | ha
    · obtain ⟨-, hpt, -⟩ := h.of_objects hmem ha
      exact hnot ((h.active b hb).unique hpt heq ▸ ha)
    · exact h.apart a ha b hb heq
  · intro a ha
    rcases h.owned a ha with ha | ha
    · by_cases hin : a ∈ q.objects expired
      · exact .inr (List.mem_append_left _ hin)
      · exact .inl ((hA a).2 ⟨ha, hin⟩)
    · exact .inr (List.mem_append_right _ ha)

/-! ### `reset` -/

/-- What the loop of `reset` does besides handling its timers: it only adds entries, and none that
is earlier than `now`. -/
structure Resets (now : ℤ) (q q' : TimerQueue) : Prop extends Kept q q' where
  canceling : q'.cancelingTimers_ = q.cancelingTimers_
  grows : ∀ e ∈ q.timers_, e ∈ q'.timers_
  late : ∀ e ∈ q'.timers_, e ∈ q.timers_ ∨ now ≤ e.when

theorem Resets.trans {now : ℤ} {q q' q'' : TimerQueue} (h : Resets now q q')
    (h' : Resets now q' q'') : Resets now q q'' where
  toKept := h.toKept.trans h'.toKept
  canceling := h'.canceling.trans h.canceling
  grows := fun e he => h'.grows e (h.grows e he)
  late := fun e he => by
    rcases h'.late e he with he | he
    · exact h.late e he
    · exact .inr he

/-- An expired timer is inserted again at a later time, or deleted. -/
theorem resetOne_cases {q : TimerQueue} {l : List ActiveTimer} {k : ActiveTimer} {e : Entry}
    {t : Timer} (h : Good q (k :: l)) (he : e.timer = k.timer) (ht : q.heap k.timer = some t)
    (now : ℤ) :
    (t.repeat_ = true ∧ k ∉ q.cancelingTimers_ ∧
      q.resetOne now e = .ok ((q.restarted k t now).inserted k (t.restart now)) ∧
      Good ((q.restarted k t now).inserted k (t.restart now)) l) ∨
    (¬ (t.repeat_ = true ∧ k ∉ q.cancelingTimers_) ∧ q.resetOne now e = .ok (q.without k) ∧
      Good (q.without k) l) := by
  obtain ⟨t', ht', hs⟩ := h.points k List.mem_cons_self
  rw [ht] at ht'
  cases ht'
  have hk : (⟨k.timer, t.sequence_⟩ : ActiveTimer) = k := by rw [hs]
  unfold resetOne
  rw [he, deref_eq ht, ok_bind, hk]
  by_cases hrepeat : t.repeat_ = true ∧ k ∉ q.cancelingTimers_
  · obtain ⟨hrestart, hgood⟩ := restart_good h ht now
    obtain ⟨hins, hgood', -⟩ := insert_good hgood
      (show (q.restarted k t now).heap k.timer = some (t.restart now) from Function.update_self ..)
    rw [if_pos hrepeat, hrestart, ok_bind, hins, ok_bind]
    exact .inl ⟨hrepeat.1, hrepeat.2, rfl, hgood'⟩
  · obtain ⟨hdelete, hgood⟩ := delete_good h
    rw [if_neg hrepeat]
    exact .inr ⟨hrepeat, hdelete, hgood⟩

/-- An expired timer is deleted if it is to be cancelled. -/
theorem resetOne_good {q : TimerQueue} {l : List ActiveTimer} {k : ActiveTimer} {e : Entry}
    (h : Good q (k :: l)) (he : e.timer = k.timer) (now : ℤ) :
    ∃ q', q.resetOne now e = .ok q' ∧ Good q' l ∧ Resets now q q' ∧
      (k ∈ q.cancelingTimers_ → k.sequence ∈ q'.deleted) := by
  obtain ⟨t, ht, hs⟩ := h.points k List.mem_cons_self
  rcases resetOne_cases h he ht now with ⟨hrepeat, hc, hone, hgood⟩ | ⟨-, hone, hgood⟩
  · have hmem : ∀ a, a ∈ ((q.restarted k t now).inserted k (t.restart now)).timers_ ↔
        a = ⟨(t.restart now).expiration_, k.timer⟩ ∨ a ∈ q.timers_ := fun _ => SortedSet.mem_insert
    refine ⟨_, hone, hgood, ⟨⟨rfl, rfl, rfl, rfl, rfl, List.Subset.refl _,
      fun a ha => .inl (ha.restarted ht)⟩, rfl,
      fun e he => (hmem e).2 (.inr he), fun e he => ?_⟩, fun hc' => absurd hc' hc⟩
    rcases (hmem e).1 he with rfl | he
    · exact .inr (Timer.le_restart hrepeat now)
    · exact .inl he
  · exact ⟨_, hone, hgood, ⟨⟨rfl, rfl, rfl, rfl, rfl, List.subset_append_left _ _,
      fun a ha => Points.gone_without ⟨t, ht, hs⟩ ha⟩, rfl, fun e he => he, fun e he => .inl he⟩,
      fun _ => List.mem_append_right _ (List.mem_singleton.2 rfl)⟩

/-- The loop of `reset` over the expired timers `ks`. -/
theorem resetEach_good {q : TimerQueue} {es : List Entry} {ks l : List ActiveTimer}
    (h : Good q (ks ++ l)) (hes : es.map Entry.timer = ks.map ActiveTimer.timer) (now : ℤ) :
    ∃ q', q.resetEach now es = .ok q' ∧ Good q' l ∧ Resets now q q' ∧
      ∀ k ∈ ks, k ∈ q.cancelingTimers_ → k.sequence ∈ q'.deleted := by
  induction es generalizing q ks with
  | nil =>
    obtain rfl : ks = [] := List.map_eq_nil_iff.1 hes.symm
    exact ⟨q, rfl, h, ⟨Kept.refl q, rfl, fun e he => he, fun e he => .inl he⟩,
      fun k hk => absurd hk List.not_mem_nil⟩
  | cons e es ih =>
    cases ks with
    | nil => cases hes
    | cons k ks =>
      rw [List.map_cons, List.map_cons, List.cons.injEq] at hes
      obtain ⟨q₁, hone, hgood₁, hres₁, hcancel₁⟩ := resetOne_good h hes.1 now
      obtain ⟨q', hrest, hgood, hres, hcancel⟩ := ih hgood₁ hes.2
      refine ⟨q', ?_, hgood, hres₁.trans hres, fun a ha hac => ?_⟩
      · rw [resetEach, hone, ok_bind, hrest]
      · rcases List.mem_cons.1 ha with rfl | ha
        · exact hres.deleted (hcancel₁ hac)
        · exact hcancel a ha (hres₁.canceling ▸ hac)

/-- The queue after `rearm`. -/
def rearmed (q : TimerQueue) : TimerQueue :=
  match q.timers_.begin? with
  | none => q
  | some e => if Timestamp.valid e.when then q.resetTimerfd e.when else q

theorem rearm_good {q : TimerQueue} {l : List ActiveTimer} (h : Good q l) :
    q.rearm = .ok q.rearmed ∧ Good q.rearmed l := by
  unfold rearm rearmed
  cases hb : q.timers_.begin? with
  | none => exact ⟨rfl, h⟩
  | some e =>
    obtain ⟨t, ht, hx⟩ := h.timers e (SortedSet.begin?_eq_some.1 hb).1
    simp only [deref_eq ht, ok_bind, hx]
    refine ⟨rfl, ?_⟩
    split_ifs
    · exact h.of_eq rfl rfl rfl rfl rfl
    · exact h

theorem rearmed_heap (q : TimerQueue) : q.rearmed.heap = q.heap := by
  unfold rearmed
  split
  · rfl
  · split_ifs <;> rfl

theorem rearmed_frame (q : TimerQueue) :
    q.rearmed.clock = q.clock ∧ q.rearmed.s_numCreated_ = q.s_numCreated_ ∧
      q.rearmed.callingExpiredTimers_ = q.callingExpiredTimers_ ∧
      q.rearmed.timers_ = q.timers_ ∧ q.rearmed.deleted = q.deleted := by
  unfold rearmed
  split
  · exact ⟨rfl, rfl, rfl, rfl, rfl⟩
  · split_ifs <;> exact ⟨rfl, rfl, rfl, rfl, rfl⟩

/-! ### `handleRead` -/

/-- The queue in which `getExpired` is called. -/
def readAfter (q : TimerQueue) (delay : ℕ) : TimerQueue :=
  { q with clock := q.clock + delay, timerfd_ := timerfd_read (q.clock + delay) q.timerfd_ }

/-- What the beginning of `handleRead` does besides taking timers out of the sets: no timer left in
the queue is due. -/
structure Begins (delay : ℕ) (q q' : TimerQueue) : Prop where
  clock : q'.clock = q.clock + delay
  numCreated : q'.s_numCreated_ = q.s_numCreated_
  calling : q'.callingExpiredTimers_ = true
  programmed : q'.programmed = q.programmed
  deleted : q.deleted ⊆ q'.deleted
  points : ∀ k, q.Points k → q'.Points k
  later : ∀ e ∈ q'.timers_, q.clock < e.when

/-- The beginning of `handleRead` succeeds. -/
theorem beginRead_good {q : TimerQueue} {l : List ActiveTimer} (h : Good q l) (delay : ℕ) :
    ∃ q', q.beginRead delay = .ok (q.timers_.below ⟨q.clock, UINTPTR_MAX⟩, q') ∧
      Good q' (q'.objects (q.timers_.below ⟨q.clock, UINTPTR_MAX⟩) ++ l) ∧ Begins delay q q' ∧
      q'.heap = q.heap ∧ q'.cancelingTimers_ = SortedSet.empty := by
  have hread : Good (q.readAfter delay) l := h.of_eq rfl rfl rfl rfl rfl
  obtain ⟨q₁, hexp, hgood, hkept, hheap, hlater⟩ := getExpired_good hread q.clock
  refine ⟨{ q₁ with callingExpiredTimers_ := true, cancelingTimers_ := SortedSet.empty }, ?_, ?_,
    ⟨hkept.clock, hkept.numCreated, rfl, hkept.programmed, hkept.deleted,
      fun k hk => hk.of_heap (congrFun hheap _), hlater⟩, hheap, rfl⟩
  · show (q.readAfter delay).getExpired q.clock >>= _ = _
    rw [hexp]
    rfl
  · refine Good.of_eq (q := q₁) ?_ rfl rfl rfl rfl rfl
    have hobj : ∀ es, objects { q₁ with
        callingExpiredTimers_ := true, cancelingTimers_ := SortedSet.empty } es =
          (q.readAfter delay).objects es := by
      intro es
      unfold objects
      rw [← hheap]
    rw [hobj]
    exact hgood

/-- The end of `handleRead` succeeds, and deletes the expired timers that were to be cancelled. -/
theorem endRead_good {q : TimerQueue} {es : List Entry} {ks l : List ActiveTimer}
    (h : Good q (ks ++ l)) (hes : es.map Entry.timer = ks.map ActiveTimer.timer) (now : ℤ) :
    ∃ q', q.endRead es now = .ok q'.rearmed ∧ Good q'.rearmed l ∧ Good q' l ∧
      Resets now { q with callingExpiredTimers_ := false } q' ∧
      ∀ k ∈ ks, k ∈ q.cancelingTimers_ → k.sequence ∈ q'.rearmed.deleted := by
  have h' : Good { q with callingExpiredTimers_ := false } (ks ++ l) := h.of_eq rfl rfl rfl rfl rfl
  obtain ⟨q', hrun, hgood, hres, hcancel⟩ := resetEach_good h' hes now
  obtain ⟨hrearm, hgood'⟩ := rearm_good hgood
  refine ⟨q', ?_, hgood', hgood, hres, fun k hk hc => ?_⟩
  · rw [endRead, reset, hrun, ok_bind, hrearm]
  · rw [(rearmed_frame q').2.2.2.2]
    exact hcancel k hk hc

/-! ### The timerfd -/

/-- The timerfd goes off at `when`, or 100 microseconds after it was set, or before. -/
def Armed (q : TimerQueue) (when : ℤ) : Prop :=
  ∃ a, q.timerfd_ = some a ∧ a.deadline ≤ max when (a.armedAt + 100) * 1000

theorem Armed.mono {q : TimerQueue} {w w' : ℤ} (h : Armed q w) (hle : w ≤ w') : Armed q w' := by
  obtain ⟨a, ha, hd⟩ := h
  exact ⟨a, ha, by omega⟩

/-- The timerfd is armed for those timers of the queue whose time is in `S`. -/
def ArmedOn (S : ℤ → Prop) (q : TimerQueue) : Prop := ∀ e ∈ q.timers_, S e.when → Armed q e.when

theorem resetTimerfd_armed (q : TimerQueue) (when : ℤ) : Armed (q.resetTimerfd when) when := by
  refine ⟨_, timerfd_settime_spec q.clock when q.timerfd_, le_rfl⟩

theorem earliestChanged_iff {q : TimerQueue} {when : ℤ} :
    q.earliestChanged when = true ↔ ∀ e ∈ q.timers_, when < e.when := by
  unfold earliestChanged
  cases hb : q.timers_.begin? with
  | none => simpa using fun e he => absurd he (SortedSet.begin?_eq_none.1 hb e)
  | some e =>
    obtain ⟨hmem, hmin⟩ := SortedSet.begin?_eq_some.1 hb
    rw [decide_eq_true_iff]
    exact ⟨fun hlt e' he' => lt_of_lt_of_le hlt (Entry.le_when (hmin e' he')), fun h => h e hmem⟩

/-- `addTimerInLoop` arms the timerfd for a timer that is earlier than all others; any other timer
is covered by one that is not later. -/
theorem added_armed {S : ℤ → Prop} (hS : ∀ v w, v ≤ w → S w → S v) {q : TimerQueue}
    {k : ActiveTimer} {t : Timer} (h : ArmedOn S q) : ArmedOn S (q.added k t) := by
  have hmem : ∀ e, e ∈ (q.inserted k t).timers_ ↔
      e = ⟨t.expiration_, k.timer⟩ ∨ e ∈ q.timers_ := fun _ => SortedSet.mem_insert
  unfold added
  split_ifs with hearliest
  · rw [earliestChanged_iff] at hearliest
    intro e he _
    refine (resetTimerfd_armed (q.inserted k t) t.expiration_).mono ?_
    rcases (hmem e).1 he with rfl | he
    · exact le_rfl
    · exact le_of_lt (hearliest e he)
  · intro e he hSe
    rcases (hmem e).1 he with rfl | he
    · rw [earliestChanged_iff] at hearliest
      push Not at hearliest
      obtain ⟨e', he', hle⟩ := hearliest
      exact (h e' he' (hS _ _ hle hSe)).mono hle
    · exact h e he hSe

/-- `reset` arms the timerfd for the earliest timer; if its time is not valid, the timerfd must have
been armed for it before. -/
theorem rearmed_armed {q : TimerQueue} (h : ArmedOn (· ≤ 0) q) :
    ArmedOn (fun _ => True) q.rearmed := by
  intro e he _
  rw [(rearmed_frame q).2.2.2.1] at he
  unfold rearmed
  cases hb : q.timers_.begin? with
  | none => exact absurd he (SortedSet.begin?_eq_none.1 hb e)
  | some e' =>
    obtain ⟨hmem, hmin⟩ := SortedSet.begin?_eq_some.1 hb
    have hle := Entry.le_when (hmin e he)
    simp only [Timestamp.valid, decide_eq_true_eq]
    split_ifs with hvalid
    · exact (resetTimerfd_armed q e'.when).mono hle
    · exact (h e' hmem (not_lt.1 hvalid)).mono hle

/-- The values given to `timerfd_settime` are legal and not zero. -/
def Programs (q : TimerQueue) : Prop :=
  ∀ ts ∈ q.programmed, ts.Legal ∧ ¬ (ts.tv_sec = 0 ∧ ts.tv_nsec = 0)

theorem resetTimerfd_programs {q : TimerQueue} (h : Programs q) (when : ℤ) :
    Programs (q.resetTimerfd when) := by
  intro ts hts
  rcases List.mem_append.1 hts with hts | hts
  · exact h ts hts
  · rw [List.mem_singleton.1 hts]
    exact ⟨(howMuchTimeFromNow_spec _ _).1, howMuchTimeFromNow_ne_zero _ _⟩

theorem added_programs {q : TimerQueue} (h : Programs q) (k : ActiveTimer) (t : Timer) :
    Programs (q.added k t) := by
  have hins : Programs (q.inserted k t) := h
  unfold added
  split_ifs
  · exact resetTimerfd_programs hins _
  · exact hins

theorem rearmed_programs {q : TimerQueue} (h : Programs q) : Programs q.rearmed := by
  unfold rearmed
  split
  · exact h
  · split_ifs
    · exact resetTimerfd_programs h _
    · exact h

end TimerQueue

end Fppnet
