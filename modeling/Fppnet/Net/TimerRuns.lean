import Fppnet.Library.Run
import Fppnet.Net.TimerQueue

/-!
# Runs of a timer queue

A run is a sequence of calls of `addTimerInLoop`, `cancelInLoop` and `handleRead` on the loop
thread, where `handleRead` is taken apart at the callbacks it runs: `beginRead`, then
`startCallback` and `endCallback` for each expired timer, then `endRead`. A callback may add and
cancel timers. Time passes, and `Timer` objects are created for this queue by any thread and for
the queues of other loops, between any two steps.

* `Outcome` lists what each step does; `step_outcome` says that an enabled step never fails;
* `representation_invariant` is the invariant of the two sets and of the heap in every state;
* `no_timer_lost` says that the timerfd is armed for the earliest timer whenever `handleRead` is not
  running.
-/

namespace Fppnet

open Checked Runs TimerQueue

namespace TimerRuns

/-- `handleRead` at its loop: its local variables, the timers that were taken out of the queue, and
whether a callback is running. -/
structure Batch where
  now : ℤ
  expired : List Entry
  objects : List ActiveTimer
  next : ℕ
  inCallback : Bool

/-- What happens to a timer: it is created, `cancelInLoop` is called with its id, its callback is
started. -/
inductive Event
  | created (id : TimerId)
  | cancelled (id : TimerId)
  | started (id : TimerId)
  deriving DecidableEq

/-- The queue, `handleRead` if it is running, the timers that have been created but not been added
yet, and the history of events. -/
structure State where
  queue : TimerQueue
  batch : Option Batch
  handed : List ActiveTimer
  events : List Event

inductive Label
  | tick (delay : ℕ)
  | newTimer (timer : TimerPtr) (when : ℤ) (interval : Interval)
  | newElsewhere
  | addTimerInLoop (timer : ActiveTimer)
  | cancelInLoop (id : TimerId)
  | beginRead (delay : ℕ)
  | startCallback
  | endCallback
  | endRead

namespace State

/-- The loop thread runs code of its user. -/
def atUser (s : State) : Bool :=
  match s.batch with
  | none => true
  | some b => b.inCallback

/-- The expired timers that `handleRead` has taken out of the queue. -/
def objects (s : State) : List ActiveTimer :=
  match s.batch with
  | none => []
  | some b => b.objects

end State

/-- The address of a new object is not null and not in use. -/
def Free (q : TimerQueue) (timer : TimerPtr) : Prop :=
  0 < timer ∧ timer < UINTPTR_MAX ∧ q.heap timer = none

instance (q : TimerQueue) (timer : TimerPtr) : Decidable (Free q timer) :=
  inferInstanceAs (Decidable (_ ∧ _ ∧ q.heap timer = none))

def step (s : State) : Label → Option (Except Failure State)
  | .tick delay =>
    some (.ok { s with queue := { s.queue with clock := s.queue.clock + delay } })
  | .newTimer timer when interval =>
    if Free s.queue timer then
      some (.ok { s with
        queue := s.queue.newTimer timer when interval
        handed := ⟨timer, s.queue.s_numCreated_ + 1⟩ :: s.handed
        events := s.events ++ [.created ⟨timer, s.queue.s_numCreated_ + 1⟩] })
    else none
  | .newElsewhere =>
    some (.ok { s with
      queue := { s.queue with s_numCreated_ := s.queue.s_numCreated_ + 1 } })
  | .addTimerInLoop timer =>
    if s.atUser = true ∧ timer ∈ s.handed then
      some ((s.queue.addTimerInLoop timer.timer).map fun q =>
        { s with queue := q, handed := s.handed.erase timer })
    else none
  | .cancelInLoop id =>
    if s.atUser then
      some ((s.queue.cancelInLoop id).map fun q =>
        { s with queue := q, events := s.events ++ [.cancelled id] })
    else none
  | .beginRead delay =>
    match s.batch with
    | some _ => none
    | none => some ((s.queue.beginRead delay).map fun r =>
        { s with queue := r.2, batch := some ⟨s.queue.clock, r.1, r.2.objects r.1, 0, false⟩ })
  | .startCallback =>
    match s.batch with
    | none => none
    | some b =>
      match b.inCallback, b.expired[b.next]? with
      | false, some entry => some ((s.queue.deref entry.timer).map fun t =>
          { s with
            batch := some { b with inCallback := true }
            events := s.events ++ [.started ⟨entry.timer, t.sequence_⟩] })
      | _, _ => none
  | .endCallback =>
    match s.batch with
    | none => none
    | some b =>
      if b.inCallback then
        some (.ok { s with batch := some { b with inCallback := false, next := b.next + 1 } })
      else none
  | .endRead =>
    match s.batch with
    | none => none
    | some b =>
      if b.inCallback = false ∧ b.next = b.expired.length then
        some ((s.queue.endRead b.expired b.now).map fun q => { s with queue := q, batch := none })
      else none

/-- A new timer queue. -/
def start (clock : ℤ) : State := ⟨TimerQueue.new clock, none, [], []⟩

/-! ### What the steps do -/

/-- The invariant. While a batch runs, its timers are outside the sets, like those that have not
been added yet. -/
structure Inv (s : State) : Prop where
  good : Good s.queue (s.objects ++ s.handed)
  batch : ∀ b ∈ s.batch, b.expired.map Entry.timer = b.objects.map ActiveTimer.timer
  calling : s.queue.callingExpiredTimers_ = s.batch.isSome
  programs : Programs s.queue

/-- The effect of each step. -/
inductive Outcome (s : State) : Label → State → Prop
  | tick (delay : ℕ) :
    Outcome s (.tick delay) { s with queue := { s.queue with clock := s.queue.clock + delay } }
  | newTimer {timer : TimerPtr} (when : ℤ) (interval : Interval) (hfree : Free s.queue timer) :
    Outcome s (.newTimer timer when interval) { s with
      queue := s.queue.newTimer timer when interval
      handed := ⟨timer, s.queue.s_numCreated_ + 1⟩ :: s.handed
      events := s.events ++ [.created ⟨timer, s.queue.s_numCreated_ + 1⟩] }
  | newElsewhere :
    Outcome s .newElsewhere { s with
      queue := { s.queue with s_numCreated_ := s.queue.s_numCreated_ + 1 } }
  | added {k : ActiveTimer} {t : Timer} (hk : k ∈ s.handed) (ht : s.queue.heap k.timer = some t)
      (hgood : Good (s.queue.added k t) (s.objects ++ s.handed.erase k)) :
    Outcome s (.addTimerInLoop k) { s with
      queue := s.queue.added k t
      handed := s.handed.erase k }
  | cancelled {id : TimerId} {q : TimerQueue} (hgood : Good q (s.objects ++ s.handed))
      (hq : Cancels id s.queue q) :
    Outcome s (.cancelInLoop id) { s with
      queue := q
      events := s.events ++ [.cancelled id] }
  | begun {delay : ℕ} {es : List Entry} {q : TimerQueue} (hidle : s.batch = none)
      (hgood : Good q (q.objects es ++ s.handed)) (hq : Begins delay s.queue q) :
    Outcome s (.beginRead delay) { s with
      queue := q
      batch := some ⟨s.queue.clock, es, q.objects es, 0, false⟩ }
  | started {b : Batch} {k : ActiveTimer} (hb : s.batch = some b) (hout : b.inCallback = false)
      (hk : b.objects[b.next]? = some k) :
    Outcome s .startCallback { s with
      batch := some { b with inCallback := true }
      events := s.events ++ [.started ⟨k.timer, k.sequence⟩] }
  | ended {b : Batch} (hb : s.batch = some b) (hin : b.inCallback = true) :
    Outcome s .endCallback { s with
      batch := some { b with inCallback := false, next := b.next + 1 } }
  | finished {b : Batch} {q : TimerQueue} (hb : s.batch = some b)
      (hgood : Good q.rearmed s.handed)
      (hq : Resets b.now { s.queue with callingExpiredTimers_ := false } q)
      (hcancel : ∀ k ∈ b.objects, k ∈ s.queue.cancelingTimers_ →
        k.sequence ∈ q.rearmed.deleted) :
    Outcome s .endRead { s with queue := q.rearmed, batch := none }

theorem objects_of_batch {s : State} {b : Batch} (hb : s.batch = some b) :
    s.objects = b.objects := by
  unfold State.objects
  rw [hb]

/-- **No step fails**: under the invariant every enabled step succeeds. -/
theorem step_outcome {s : State} {l : Label} {r : Except Failure State} (h : Inv s)
    (hs : step s l = some r) : ∃ s', r = .ok s' ∧ Outcome s l s' := by
  cases l with
  | tick delay =>
    cases hs
    exact ⟨_, rfl, .tick delay⟩
  | newTimer timer when interval =>
    simp only [step, Option.ite_none_right_eq_some, Option.some.injEq] at hs
    obtain ⟨hfree, rfl⟩ := hs
    exact ⟨_, rfl, .newTimer when interval hfree⟩
  | newElsewhere =>
    cases hs
    exact ⟨_, rfl, .newElsewhere⟩
  | addTimerInLoop k =>
    simp only [step, Option.ite_none_right_eq_some, Option.some.injEq] at hs
    obtain ⟨⟨-, hk⟩, rfl⟩ := hs
    have hperm : (k :: (s.objects ++ s.handed.erase k)).Perm (s.objects ++ s.handed) :=
      (List.perm_middle.symm).trans ((List.perm_cons_erase hk).symm.append_left _)
    have hgood := h.good.of_perm hperm
    obtain ⟨t, ht, -⟩ := hgood.points k List.mem_cons_self
    obtain ⟨hadd, hgood'⟩ := addTimerInLoop_good hgood ht
    exact ⟨_, by rw [hadd]; rfl, .added hk ht hgood'⟩
  | cancelInLoop id =>
    simp only [step, Option.ite_none_right_eq_some, Option.some.injEq] at hs
    obtain ⟨-, rfl⟩ := hs
    obtain ⟨q, hcancel, hgood, hq⟩ := cancelInLoop_good h.good id
    exact ⟨_, by rw [hcancel]; rfl, .cancelled hgood hq⟩
  | beginRead delay =>
    cases hb : s.batch with
    | some b => simp [step, hb] at hs
    | none =>
      simp only [step, hb, Option.some.injEq] at hs
      have hgood := h.good
      rw [State.objects, hb] at hgood
      obtain ⟨q, hbegin, hgood', hq, -⟩ := beginRead_good hgood delay
      rw [hbegin] at hs
      exact ⟨_, hs.symm, .begun hb hgood' hq⟩
  | startCallback =>
    cases hb : s.batch with
    | none => simp [step, hb] at hs
    | some b =>
      simp only [step, hb] at hs
      split at hs
      · next e hin he =>
        -- the entry is that of the timer at the same place in `objects`
        have hget : (b.objects.map ActiveTimer.timer)[b.next]? = some e.timer := by
          rw [← h.batch b hb, List.getElem?_map, he]
          rfl
        rw [List.getElem?_map] at hget
        obtain ⟨k, hk, hke⟩ := Option.map_eq_some_iff.1 hget
        obtain ⟨t, ht, hseq⟩ := h.good.points k
          (List.mem_append_left _ (objects_of_batch hb ▸ List.mem_of_getElem? hk))
        rw [deref_eq (hke ▸ ht)] at hs
        simp only [Except.map, hseq, ← hke, Option.some.injEq] at hs
        exact ⟨_, hs.symm, .started hb hin hk⟩
      · cases hs
  | endCallback =>
    cases hb : s.batch with
    | none => simp [step, hb] at hs
    | some b =>
      simp only [step, hb, Option.ite_none_right_eq_some, Option.some.injEq] at hs
      obtain ⟨hin, rfl⟩ := hs
      exact ⟨_, rfl, .ended hb hin⟩
  | endRead =>
    cases hb : s.batch with
    | none => simp [step, hb] at hs
    | some b =>
      simp only [step, hb, Option.ite_none_right_eq_some, Option.some.injEq] at hs
      obtain ⟨-, rfl⟩ := hs
      have hgood := h.good
      rw [objects_of_batch hb] at hgood
      obtain ⟨q, hend, hgood', -, hq, hcancel⟩ := endRead_good hgood (h.batch b hb) b.now
      exact ⟨_, by rw [hend]; rfl, .finished hb hgood' hq hcancel⟩

/-! ### The representation invariant -/

theorem Outcome.inv {s s' : State} {l : Label} (h : Inv s) (ho : Outcome s l s') : Inv s' := by
  cases ho with
  | tick delay => exact ⟨h.good.of_eq rfl rfl rfl rfl rfl, h.batch, h.calling, h.programs⟩
  | newTimer when interval hfree =>
    have hgood := newTimer_good h.good hfree.1 hfree.2.1 hfree.2.2 when interval
    exact ⟨hgood.of_perm List.perm_middle, h.batch, h.calling, h.programs⟩
  | newElsewhere =>
    have hle : ∀ n, n ≤ s.queue.s_numCreated_ → n ≤ s.queue.s_numCreated_ + 1 :=
      fun n hn => hn.trans (Nat.le_succ _)
    refine ⟨⟨⟨h.good.addr, fun p t ht => hle _ (h.good.seq_le p t ht), h.good.seq_inj,
      fun n hn => hle _ (h.good.deleted_le n hn), h.good.deleted_gone, h.good.deleted_nodup⟩,
      ⟨h.good.timers, h.good.active, h.good.same, h.good.sizes⟩,
      ⟨h.good.nodup, h.good.points, h.good.apart⟩, h.good.owned⟩, h.batch, h.calling, h.programs⟩
  | @added k t hk ht hgood =>
    refine ⟨hgood, h.batch, ?_, added_programs h.programs k t⟩
    show (s.queue.added k t).callingExpiredTimers_ = s.batch.isSome
    rw [← h.calling, TimerQueue.added]
    split_ifs <;> rfl
  | cancelled hgood hq =>
    refine ⟨hgood, h.batch, hq.calling.trans h.calling, ?_⟩
    show Programs _
    rw [Programs, hq.programmed]
    exact h.programs
  | begun hidle hgood hq =>
    refine ⟨hgood, ?_, hq.calling, ?_⟩
    · rintro b ⟨rfl⟩
      exact (objects_map_timer _ _).symm
    · show Programs _
      rw [Programs, hq.programmed]
      exact h.programs
  | @started b k hb hout hk =>
    refine ⟨?_, ?_, ?_, h.programs⟩
    · have hgood := h.good
      rw [objects_of_batch hb] at hgood
      exact hgood
    · rintro b' ⟨rfl⟩
      exact h.batch b hb
    · rw [h.calling, hb]
      rfl
  | @ended b hb hin =>
    refine ⟨?_, ?_, ?_, h.programs⟩
    · have hgood := h.good
      rw [objects_of_batch hb] at hgood
      exact hgood
    · rintro b' ⟨rfl⟩
      exact h.batch b hb
    · rw [h.calling, hb]
      rfl
  | @finished b q hb hgood hq hcancel =>
    refine ⟨hgood, (by rintro b ⟨⟩), ?_, rearmed_programs ?_⟩
    · show q.rearmed.callingExpiredTimers_ = false
      rw [(rearmed_frame q).2.2.1, hq.calling]
    · rw [Programs, hq.programmed]
      exact h.programs

theorem start_inv (clock : ℤ) : Inv (start clock) where
  good := by
    refine ⟨⟨?_, ?_, ?_, ?_, ?_, List.nodup_nil⟩, ⟨?_, ?_, ?_, rfl⟩, ⟨List.nodup_nil, ?_, ?_⟩, ?_⟩
    · rintro p t ⟨⟩
    · rintro p t ⟨⟩
    · rintro p p' t t' ⟨⟩
    · rintro n ⟨⟩
    · rintro n ⟨⟩
    · rintro e ⟨⟩
    · rintro k ⟨⟩
    · exact fun p => ⟨by rintro ⟨e, ⟨⟩, -⟩, by rintro ⟨k, ⟨⟩, -⟩⟩
    · rintro k ⟨⟩
    · rintro k ⟨⟩
    · rintro k ⟨t, ⟨⟩, -⟩
  batch := by rintro b ⟨⟩
  calling := rfl
  programs := by rintro ts ⟨⟩

theorem inv_of_reach {clock : ℤ} {s : State} (h : Reach (Moves step) Always (start clock) s) :
    Inv s := by
  refine h.invariant (start_inv clock) fun x l y hx _ hs => ?_
  obtain ⟨y', hy, ho⟩ := step_outcome hx hs
  cases hy
  exact ho.inv hx

/-- The representation of the queue, also in the middle of a batch. -/
structure Represents (s : State) : Prop where
  same : (s.queue.timers_.toList.map Entry.timer).Perm
    (s.queue.activeTimers_.toList.map ActiveTimer.timer)
  once : (s.queue.timers_.toList.map Entry.timer).Nodup
  timers : ∀ e ∈ s.queue.timers_, ∃ t, s.queue.heap e.timer = some t ∧ t.expiration_ = e.when
  active : ∀ k ∈ s.queue.activeTimers_, ∃ t, s.queue.heap k.timer = some t ∧
    t.sequence_ = k.sequence
  expired : ∀ k ∈ s.objects, (∃ t, s.queue.heap k.timer = some t ∧ t.sequence_ = k.sequence) ∧
    (∀ e ∈ s.queue.timers_, e.timer ≠ k.timer) ∧ ∀ a ∈ s.queue.activeTimers_, a.timer ≠ k.timer
  deletedOnce : s.queue.deleted.Nodup
  deletedGone : ∀ n ∈ s.queue.deleted, ∀ p t, s.queue.heap p = some t → t.sequence_ ≠ n

theorem Inv.represents {s : State} (h : Inv s) : Represents s where
  same := by
    have htimers : (s.queue.timers_.toList.map Entry.timer).Nodup :=
      (List.nodup_map_iff_inj_on s.queue.timers_.nodup).2
        fun e he e' he' heq => h.good.entry_unique he he' heq
    have hactive : (s.queue.activeTimers_.toList.map ActiveTimer.timer).Nodup :=
      (List.nodup_map_iff_inj_on s.queue.activeTimers_.nodup).2
        fun k hk k' hk' heq => (h.good.active k hk).unique (h.good.active k' hk') heq
    rw [List.perm_ext_iff_of_nodup htimers hactive]
    intro p
    rw [List.mem_map, List.mem_map]
    exact h.good.same p
  once := (List.nodup_map_iff_inj_on s.queue.timers_.nodup).2
    fun e he e' he' heq => h.good.entry_unique he he' heq
  timers := h.good.timers
  active := h.good.active
  expired := fun k hk => by
    have hmem := List.mem_append_left s.handed hk
    exact ⟨h.good.points k hmem, h.good.apart_timers hmem, h.good.apart k hmem⟩
  deletedOnce := h.good.deleted_nodup
  deletedGone := h.good.deleted_gone

/-- **The representation invariant**: it holds in every reachable state, and no step fails there, be
it at an assertion or at a deleted timer. -/
theorem representation_invariant {clock : ℤ} {s : State}
    (h : Reach (Moves step) Always (start clock) s) :
    Represents s ∧ ∀ l e, step s l ≠ some (.error e) := by
  have hinv := inv_of_reach h
  refine ⟨hinv.represents, fun l e he => ?_⟩
  obtain ⟨s', hs', -⟩ := step_outcome hinv he
  cases hs'

/-! ### The timerfd -/

/-- The times for which the timerfd is armed: while a batch runs, only those that are not valid,
since `reset` does not arm it for them. -/
def tracked (s : State) (when : ℤ) : Prop := s.batch = none ∨ when ≤ 0

structure Timed (s : State) : Prop where
  clock : 0 < s.queue.clock
  now : ∀ b ∈ s.batch, 0 < b.now
  armed : ArmedOn (tracked s) s.queue

theorem Outcome.timed {s s' : State} {l : Label} (h : Timed s) (ho : Outcome s l s') :
    Timed s' := by
  have hclock := h.clock
  cases ho with
  | tick delay => exact ⟨by show 0 < s.queue.clock + delay; omega, h.now, h.armed⟩
  | newTimer when interval hfree => exact ⟨h.clock, h.now, h.armed⟩
  | newElsewhere => exact ⟨h.clock, h.now, h.armed⟩
  | @added k t hk ht hgood =>
    refine ⟨?_, h.now, added_armed ?_ h.armed⟩
    · show 0 < (s.queue.added k t).clock
      unfold TimerQueue.added
      split_ifs <;> exact h.clock
    · rintro v w hvw (hw | hw)
      · exact .inl hw
      · exact .inr (hvw.trans hw)
  | @cancelled id q hgood hq =>
    refine ⟨by rw [hq.clock]; exact h.clock, h.now, fun e he ht => ?_⟩
    obtain ⟨a, ha, hd⟩ := h.armed e (hq.timers e he) ht
    exact ⟨a, hq.timerfd.trans ha, hd⟩
  | @begun delay es q hidle hgood hq =>
    refine ⟨by rw [hq.clock]; omega, ?_, fun e he ht => ?_⟩
    · rintro b ⟨rfl⟩
      exact h.clock
    · -- what is left in the queue is later than `now`, so its time is valid
      have hlater := hq.later e he
      rcases ht with ht | ht
      · cases ht
      · omega
  | @started b k hb hout hk =>
    refine ⟨h.clock, ?_, fun e he ht => h.armed e he (ht.imp (fun h => by cases h) id)⟩
    rintro b' ⟨rfl⟩
    exact h.now b hb
  | @ended b hb hin =>
    refine ⟨h.clock, ?_, fun e he ht => h.armed e he (ht.imp (fun h => by cases h) id)⟩
    rintro b' ⟨rfl⟩
    exact h.now b hb
  | @finished b q hb hgood hq hcancel =>
    refine ⟨?_, (by rintro b ⟨⟩), fun e he _ => ?_⟩
    · rw [(rearmed_frame q).1, hq.clock]
      exact h.clock
    · refine rearmed_armed (fun e' he' ht => ?_) e he trivial
      rcases hq.late e' he' with he' | hle
      · obtain ⟨a, ha, hd⟩ := h.armed e' he' (.inr ht)
        exact ⟨a, hq.timerfd.trans ha, hd⟩
      · have hnow := h.now b hb
        omega

/-- **No timer is lost**: whenever `handleRead` is not running, the timerfd has been set, and not
been read after it went off, to a time that is not after the earliest timer or not after 100
microseconds from when it was set; and what it is set to is never refused and never disarms it. -/
theorem no_timer_lost {clock : ℤ} (hclock : 0 < clock) {s : State}
    (h : Reach (Moves step) Always (start clock) s) :
    (s.batch = none → ∀ e, s.queue.timers_.begin? = some e → ∃ a, s.queue.timerfd_ = some a ∧
      a.deadline ≤ max e.when (a.armedAt + 100) * 1000) ∧
    ∀ ts ∈ s.queue.programmed, (0 ≤ ts.tv_sec ∧ 0 ≤ ts.tv_nsec ∧ ts.tv_nsec < 10 ^ 9) ∧
      ¬ (ts.tv_sec = 0 ∧ ts.tv_nsec = 0) := by
  have hboth : Inv s ∧ Timed s := by
    refine h.invariant (I := fun x => Inv x ∧ Timed x)
      ⟨start_inv clock, hclock, (by rintro b ⟨⟩), (by rintro e ⟨⟩)⟩ ?_
    rintro x l y ⟨hx, ht⟩ _ hs
    obtain ⟨y', hy, ho⟩ := step_outcome hx hs
    cases hy
    exact ⟨ho.inv hx, ho.timed ht⟩
  refine ⟨fun hidle e he => ?_, hboth.1.programs⟩
  exact hboth.2.armed e (SortedSet.begin?_eq_some.1 he).1 (.inl hidle)

/-! Two timers are due together, one of them for the first of many times. -/

/-- Not positive: the timer fires once. -/
def once : Interval := ⟨0, false, by rintro ⟨⟩⟩

/-- Every 500 microseconds. -/
def every : Interval := ⟨500, true, fun _ => by decide⟩

/-- Two timers have been added and are due, and the callback of the first is running. -/
def firstCallback (interval : Interval) : List Label :=
  [.newTimer 8 2000 interval, .newTimer 16 2000 once, .addTimerInLoop ⟨8, 1⟩,
    .addTimerInLoop ⟨16, 2⟩, .tick 5000, .beginRead 0, .startCallback]

theorem representation_invariant_callback :
    ∃ s, Reach (Moves step) Always (start 1000) s ∧ s.objects = [⟨8, 1⟩, ⟨16, 2⟩] ∧
      Represents s ∧ ∀ l e, step s l ≠ some (.error e) := by
  obtain ⟨s, hs, hp⟩ := exists_reach_of_run step Always (start 1000) (firstCallback every)
    (fun s => decide (s.objects = [⟨8, 1⟩, ⟨16, 2⟩])) (by decide +kernel)
  exact ⟨s, hs, of_decide_eq_true hp, representation_invariant hs⟩

theorem no_timer_lost_restarted :
    ∃ s, Reach (Moves step) Always (start 1000) s ∧
      (s.batch = none ∧ s.queue.timers_.begin? = some ⟨6500, 8⟩) ∧
      (s.batch = none → ∀ e, s.queue.timers_.begin? = some e → ∃ a, s.queue.timerfd_ = some a ∧
        a.deadline ≤ max e.when (a.armedAt + 100) * 1000) ∧
      ∀ ts ∈ s.queue.programmed, (0 ≤ ts.tv_sec ∧ 0 ≤ ts.tv_nsec ∧ ts.tv_nsec < 10 ^ 9) ∧
        ¬ (ts.tv_sec = 0 ∧ ts.tv_nsec = 0) := by
  obtain ⟨s, hs, hp⟩ := exists_reach_of_run step Always (start 1000)
    (firstCallback every ++ [.endCallback, .startCallback, .endCallback, .endRead])
    (fun s => s.batch.isNone && decide (s.queue.timers_.begin? = some ⟨6500, 8⟩))
    (by decide +kernel)
  rw [Bool.and_eq_true, Option.isNone_iff_eq_none] at hp
  exact ⟨s, hs, ⟨hp.1, of_decide_eq_true hp.2⟩, no_timer_lost (by decide) hs⟩

end TimerRuns

end Fppnet
