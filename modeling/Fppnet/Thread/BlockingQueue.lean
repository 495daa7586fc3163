import Fppnet.Library.Monitor

/-!
# `BlockingQueue` and `BoundedBlockingQueue`

Both queues of `src/base/thread` are monitors: every method holds `mutex_` from its first line to
its last, except while it waits. `BlockingQueue` is a deque with one condition variable;
`BoundedBlockingQueue` is a `boost::circular_buffer` of a fixed capacity, and a full one makes
`put` wait at a variable of its own.

The theorems are about any number of threads that call any methods in any order, with wake-ups
that nobody asked for: what is taken is what was put, in that order (`fifo`, `bounded_fifo`), and
no thread is left asleep while there is something for it to do
(`BlockingQueue.takers_woken`, `BoundedBlockingQueue.takers_woken`, `putters_woken`).
-/

open Runs Checked Monitors

variable {α τ : Type} [DecidableEq τ]

namespace BlockingQueue

inductive Method (α : Type)
  | put (x : α)
  | take
  | size
  deriving DecidableEq

inductive Result (α : Type)
  | unit
  | item (x : α)
  | count (n : ℕ)
  deriving DecidableEq

/-- `notEmpty_`. -/
inductive Cond
  | notEmpty
  deriving DecidableEq

/-- `assert(!queue_.empty())`. -/
inductive Failure
  | empty
  deriving DecidableEq

/-- The body of a method behind its loop. -/
def act (queue : List α) : Method α → Except Failure (Result α × List α)
  | .put x => .ok (.unit, queue ++ [x])
  | .take =>
    match queue with
    | [] => .error .empty
    | front :: queue => .ok (.item front, queue)
  | .size => .ok (.count queue.length, queue)

/-- The queue with its mutex and its condition variable. -/
def monitor : Monitor (List α) (Method α) Cond (Result α) Failure where
  waits queue
    | .take => queue.isEmpty
    | _ => false
  cond
    | .take => some .notEmpty
    | _ => none
  act := act
  notice _
    | .put _ => .one .notEmpty
    | _ => .nobody

/-- The items put by the calls of a list, in the order in which the calls returned. -/
def puts (l : List (τ × Method α × Result α)) : List α :=
  l.filterMap fun
    | (_, .put x, _) => some x
    | _ => none

/-- The items that the calls of a list have taken. -/
def takes (l : List (τ × Method α × Result α)) : List α :=
  l.filterMap fun
    | (_, .take, .item x) => some x
    | _ => none

section

variable {s : State (List α) (Method α) (Result α) τ}

/-- The queue holds what was put and has not been taken, in the order in which it was put. -/
theorem puts_eq (h : Reach (Moves monitor.step) Always (State.init []) s) :
    puts s.returned = takes s.returned ++ s.shared := by
  refine (Reach.sequential h).invariant
    (I := fun l queue => puts l = takes l ++ queue) rfl ?_
  intro l queue t m r queue' ih hw hact
  simp only [puts, takes, List.filterMap_append] at ih ⊢
  cases m with
  | put x =>
    cases hact
    simp [ih]
  | take =>
    cases queue with
    | nil => cases hact
    | cons front queue =>
      cases hact
      simp [ih]
  | size =>
    cases hact
    simpa using ih

/-- Behind its loop a method finds what it asserts. -/
theorem assert_holds (h : Reach (Moves monitor.step) Always (State.init []) s)
    (a : Label (Method α) τ) (e : Failure) : monitor.step s a ≠ some (.error e) := by
  refine Reach.no_error (I := fun _ => True) h trivial ?_ a e
  intro queue m _ hw
  cases m with
  | put x => exact ⟨_, _, rfl, trivial⟩
  | size => exact ⟨_, _, rfl, trivial⟩
  | take =>
    cases queue with
    | nil => cases hw
    | cons front queue => exact ⟨_, _, rfl, trivial⟩

/-- A `take` can go on for every item of the queue, and `put`, which adds one, notifies one. -/
theorem capacity : Capacity (monitor (α := α)) .notEmpty List.length where
  zero_of_waits queue m hm hw := by
    cases m with
    | put x => cases hm
    | size => cases hm
    | take => simpa [monitor] using hw
  act_le queue m r queue' hw hact _ := by
    cases m with
    | put x =>
      cases hact
      simp [monitor]
    | size =>
      cases hact
      simp [monitor]
    | take =>
      cases queue with
      | nil => cases hact
      | cons front queue =>
        cases hact
        simp [monitor]

/-- Only `take` waits. -/
theorem inside_take (h : Reach (Moves monitor.step) Always (State.init []) s) :
    s.Inside (· = .take) := by
  refine Reach.inside h ?_
  intro queue m hw
  cases m with
  | take => rfl
  | put x => cases hw
  | size => cases hw

/-- While a thread sleeps in `take`, a woken one is on its way for every item of the queue. -/
theorem takers_woken (h : Reach (Moves monitor.step) Always (State.init []) s)
    (hsleep : s.asleep ≠ []) : s.shared.length ≤ s.woken.length := by
  obtain ⟨c, hc⟩ := List.exists_mem_of_ne_nil _ hsleep
  have hat : s.sleepsAt monitor .notEmpty := by
    refine ⟨c, hc, at_iff.2 ?_⟩
    rw [(inside_take h).1 c hc]
    rfl
  exact (Reach.enough capacity h hat).trans List.countP_le_length

/-- `BlockingQueue` hands over every item once, in order, and leaves nobody asleep over an item. -/
theorem fifo (h : Reach (Moves monitor.step) Always (State.init []) s) :
    puts s.returned = takes s.returned ++ s.shared ∧
      (∀ a e, monitor.step s a ≠ some (.error e)) ∧
      (s.asleep ≠ [] → s.shared.length ≤ s.woken.length) :=
  ⟨puts_eq h, assert_holds h, takers_woken h⟩

/-- A `take` that sleeps, a `put` that wakes it, and a third thread that takes the item first. -/
theorem fifo_overtaken : ∃ s : State (List ℕ) (Method ℕ) (Result ℕ) ℕ,
    Reach (Moves monitor.step) Always (State.init []) s ∧
      puts s.returned = takes s.returned ++ s.shared ∧
      (∀ a e, monitor.step s a ≠ some (.error e)) ∧
      (s.asleep ≠ [] → s.shared.length ≤ s.woken.length) := by
  obtain ⟨s, h, -⟩ := exists_reach_of_run monitor.step Always (State.init [])
    [.call 0 .take none, .call 1 (.put 7) (some 0), .call 2 .take none, .resume 0 none,
      .spurious 0, .call 1 (.put 8) none, .resume 0 none]
    (fun s => decide (takes s.returned = [7, 8])) (by decide)
  exact ⟨s, h, fifo h⟩

end

end BlockingQueue

/-! ### `BoundedBlockingQueue` -/

/-- `boost::circular_buffer`: at most `capacity` items. -/
structure CircularBuffer (α : Type) (capacity : ℕ) where
  items : List α
  length_le : items.length ≤ capacity

namespace CircularBuffer

variable {capacity : ℕ}

def empty : CircularBuffer α capacity := ⟨[], Nat.zero_le _⟩

def full (b : CircularBuffer α capacity) : Bool := b.items.length == capacity

/-- A full buffer loses its first item when one is pushed, and one of capacity `0` takes none. -/
def pushBack (b : CircularBuffer α capacity) (x : α) : CircularBuffer α capacity where
  items := (b.items ++ [x]).drop (b.items.length + 1 - capacity)
  length_le := by
    rw [List.length_drop, List.length_append, List.length_singleton]
    omega

def popFront (b : CircularBuffer α capacity) : CircularBuffer α capacity where
  items := b.items.tail
  length_le := b.items.length_tail ▸ (Nat.sub_le _ _).trans b.length_le

theorem lt_capacity {b : CircularBuffer α capacity} (h : b.full = false) :
    b.items.length < capacity := by
  have hne : b.items.length ≠ capacity := by simpa [full] using h
  exact lt_of_le_of_ne b.length_le hne

/-- Below its capacity the buffer is a queue. -/
theorem items_pushBack {b : CircularBuffer α capacity} (h : b.full = false) (x : α) :
    (b.pushBack x).items = b.items ++ [x] := by
  have hlt := lt_capacity h
  have hdrop : b.items.length + 1 - capacity = 0 := by omega
  change (b.items ++ [x]).drop (b.items.length + 1 - capacity) = _
  rw [hdrop, List.drop_zero]

end CircularBuffer

namespace BoundedBlockingQueue

inductive Method (α : Type)
  | put (x : α)
  | take
  | empty
  | full
  | size
  | capacity
  deriving DecidableEq

inductive Result (α : Type)
  | unit
  | item (x : α)
  | flag (b : Bool)
  | count (n : ℕ)
  deriving DecidableEq

/-- `notEmpty_` and `notFull_`. -/
inductive Cond
  | notEmpty
  | notFull
  deriving DecidableEq

/-- `assert(!queue_.full())` and `assert(!queue_.empty())`. -/
inductive Failure
  | full
  | empty
  deriving DecidableEq

variable {maxSize : ℕ}

/-- The body of a method behind its loop. -/
def act (queue : CircularBuffer α maxSize) :
    Method α → Except Failure (Result α × CircularBuffer α maxSize)
  | .put x => do
    require (queue.full = false) .full
    .ok (.unit, queue.pushBack x)
  | .take =>
    match queue.items with
    | [] => .error .empty
    | front :: _ => .ok (.item front, queue.popFront)
  | .empty => .ok (.flag queue.items.isEmpty, queue)
  | .full => .ok (.flag queue.full, queue)
  | .size => .ok (.count queue.items.length, queue)
  | .capacity => .ok (.count maxSize, queue)

/-- The queue with its mutex and its condition variables. -/
def monitor (maxSize : ℕ) :
    Monitor (CircularBuffer α maxSize) (Method α) Cond (Result α) Failure where
  waits queue
    | .put _ => queue.full
    | .take => queue.items.isEmpty
    | _ => false
  cond
    | .put _ => some .notFull
    | .take => some .notEmpty
    | _ => none
  act := act
  notice _
    | .put _ => .one .notEmpty
    | .take => .one .notFull
    | _ => .nobody

/-- The items put by the calls of a list, in the order in which the calls returned. -/
def puts (l : List (τ × Method α × Result α)) : List α :=
  l.filterMap fun
    | (_, .put x, _) => some x
    | _ => none

/-- The items that the calls of a list have taken. -/
def takes (l : List (τ × Method α × Result α)) : List α :=
  l.filterMap fun
    | (_, .take, .item x) => some x
    | _ => none

/-- The methods that only look at the queue. -/
def Method.reads : Method α → Prop
  | .put _ => False
  | .take => False
  | _ => True

/-- What a method that does not wait does to the queue: nothing is ever overwritten. -/
theorem act_cases {queue queue' : CircularBuffer α maxSize} {m : Method α} {r : Result α}
    (hw : (monitor maxSize).waits queue m = false)
    (h : (monitor maxSize).act queue m = .ok (r, queue')) :
    (∃ x, m = .put x ∧ r = .unit ∧ queue.items.length < maxSize ∧
      queue'.items = queue.items ++ [x]) ∨
    (∃ x, m = .take ∧ r = .item x ∧ queue.items = x :: queue'.items) ∨
    (m.reads ∧ queue' = queue) := by
  cases m with
  | put x =>
    have hfull : queue.full = false := hw
    obtain ⟨-, hpush⟩ := require_bind_ok.1 h
    cases hpush
    exact Or.inl ⟨x, rfl, rfl, CircularBuffer.lt_capacity hfull,
      CircularBuffer.items_pushBack hfull x⟩
  | take =>
    simp only [monitor, act] at h
    split at h
    · cases h
    · next front rest hitems =>
      cases h
      refine Or.inr (Or.inl ⟨front, rfl, rfl, ?_⟩)
      change queue.items = front :: queue.items.tail
      rw [hitems, List.tail_cons]
  | empty | full | size | capacity =>
    cases h
    exact Or.inr (Or.inr ⟨trivial, rfl⟩)

section

variable {s : State (CircularBuffer α maxSize) (Method α) (Result α) τ}

/-- The queue holds what was put and has not been taken, in the order in which it was put. -/
theorem puts_eq (h : Reach (Moves (monitor maxSize).step) Always (State.init .empty) s) :
    puts s.returned = takes s.returned ++ s.shared.items := by
  refine (Reach.sequential h).invariant
    (I := fun l queue => puts l = takes l ++ queue.items) rfl ?_
  intro l queue t m r queue' ih hw hact
  simp only [puts, takes, List.filterMap_append] at ih ⊢
  rcases act_cases hw hact with ⟨x, rfl, rfl, -, hitems⟩ | ⟨x, rfl, rfl, hitems⟩ | ⟨hm, rfl⟩
  · simp [ih, hitems]
  · rw [hitems] at ih
    simp [ih]
  · cases m with
    | put x => exact hm.elim
    | take => exact hm.elim
    | empty | full | size | capacity => simpa using ih

/-- Behind its loop a method finds what it asserts. -/
theorem assert_holds (h : Reach (Moves (monitor maxSize).step) Always (State.init .empty) s)
    (a : Label (Method α) τ) (e : Failure) : (monitor maxSize).step s a ≠ some (.error e) := by
  refine Reach.no_error (I := fun _ => True) h trivial ?_ a e
  intro queue m _ hw
  cases m with
  | put x => exact ⟨_, _, require_bind_ok.2 ⟨hw, rfl⟩, trivial⟩
  | take =>
    have hitems : queue.items ≠ [] := by simpa [monitor] using hw
    obtain ⟨front, rest, hcons⟩ := List.exists_cons_of_ne_nil hitems
    refine ⟨.item front, queue.popFront, ?_, trivial⟩
    simp only [monitor, act, hcons]
  | empty | full | size | capacity => exact ⟨_, _, rfl, trivial⟩

/-- A `take` can go on for every item, and `put`, which adds one, notifies one. -/
theorem capacity_notEmpty :
    Capacity (monitor (α := α) maxSize) .notEmpty fun queue => queue.items.length where
  zero_of_waits queue m hm hw := by
    cases m with
    | take => simpa [monitor] using hw
    | _ => cases hm
  act_le queue m r queue' hw hact _ := by
    rcases act_cases hw hact with ⟨x, rfl, rfl, hlt, hitems⟩ | ⟨x, rfl, rfl, hitems⟩ | ⟨hm, rfl⟩
    · simp [monitor, hitems]
    · simp [monitor, hitems]
    · cases m with
      | put x => exact hm.elim
      | take => exact hm.elim
      | _ => simp [monitor]

/-- A `put` can go on for every free place, and `take`, which frees one, notifies one. -/
theorem capacity_notFull :
    Capacity (monitor (α := α) maxSize) .notFull fun queue => maxSize - queue.items.length where
  zero_of_waits queue m hm hw := by
    cases m with
    | put x =>
      have hfull : queue.items.length = maxSize := by simpa [monitor, CircularBuffer.full] using hw
      omega
    | _ => cases hm
  act_le queue m r queue' hw hact _ := by
    rcases act_cases hw hact with ⟨x, rfl, rfl, hlt, hitems⟩ | ⟨x, rfl, rfl, hitems⟩ | ⟨hm, rfl⟩
    · simp only [monitor, hitems, List.length_append, List.length_singleton, if_true,
        Notice.one.injEq, reduceCtorEq, if_false]
      omega
    · simp only [monitor, hitems, List.length_cons, Option.some.injEq, reduceCtorEq, if_false,
        if_true]
      omega
    · cases m with
      | put x => exact hm.elim
      | take => exact hm.elim
      | _ => simp [monitor]

/-- Some thread sleeps in `take`. -/
def takerSleeps (s : State (CircularBuffer α maxSize) (Method α) (Result α) τ) : Prop :=
  ∃ c ∈ s.asleep, c.2 = .take

/-- Some thread sleeps in `put`. -/
def putterSleeps (s : State (CircularBuffer α maxSize) (Method α) (Result α) τ) : Prop :=
  ∃ c ∈ s.asleep, ∃ x, c.2 = .put x

theorem takers_woken (h : Reach (Moves (monitor maxSize).step) Always (State.init .empty) s)
    (hsleep : takerSleeps s) :
    s.shared.items.length ≤ s.wokenAt (monitor maxSize) .notEmpty := by
  obtain ⟨c, hc, htake⟩ := hsleep
  refine Reach.enough capacity_notEmpty h ⟨c, hc, at_iff.2 ?_⟩
  rw [htake]
  rfl

theorem putters_woken (h : Reach (Moves (monitor maxSize).step) Always (State.init .empty) s)
    (hsleep : putterSleeps s) :
    maxSize - s.shared.items.length ≤ s.wokenAt (monitor maxSize) .notFull := by
  obtain ⟨c, hc, x, hput⟩ := hsleep
  refine Reach.enough capacity_notFull h ⟨c, hc, at_iff.2 ?_⟩
  rw [hput]
  rfl

/-- `BoundedBlockingQueue` hands over every item once, in order, never holds more than `maxSize`,
and never overwrites one. When no woken thread is on its way, those that sleep in `take` face an
empty queue and those that sleep in `put` a full one, so both do not sleep at once. -/
theorem bounded_fifo (h : Reach (Moves (monitor maxSize).step) Always (State.init .empty) s) :
    puts s.returned = takes s.returned ++ s.shared.items ∧
      s.shared.items.length ≤ maxSize ∧
      (∀ a e, (monitor maxSize).step s a ≠ some (.error e)) ∧
      (takerSleeps s → s.shared.items.length ≤ s.wokenAt (monitor maxSize) .notEmpty) ∧
      (putterSleeps s → maxSize - s.shared.items.length ≤ s.wokenAt (monitor maxSize) .notFull) ∧
      (s.woken = [] → 0 < maxSize → ¬ (takerSleeps s ∧ putterSleeps s)) := by
  refine ⟨puts_eq h, s.shared.length_le, assert_holds h, takers_woken h, putters_woken h, ?_⟩
  rintro hwoken hpos ⟨htake, hput⟩
  have htakers := takers_woken h htake
  have hputters := putters_woken h hput
  simp only [State.wokenAt, hwoken, List.countP_nil] at htakers hputters
  omega

/-- A queue of one place: a second `put` waits until the first item is taken. -/
theorem bounded_fifo_one : ∃ s : State (CircularBuffer ℕ 1) (Method ℕ) (Result ℕ) ℕ,
    Reach (Moves (monitor 1).step) Always (State.init .empty) s ∧
      puts s.returned = takes s.returned ++ s.shared.items ∧
      s.shared.items.length ≤ 1 ∧
      (∀ a e, (monitor 1).step s a ≠ some (.error e)) ∧
      (takerSleeps s → s.shared.items.length ≤ s.wokenAt (monitor 1) .notEmpty) ∧
      (putterSleeps s → 1 - s.shared.items.length ≤ s.wokenAt (monitor 1) .notFull) ∧
      (s.woken = [] → 0 < 1 → ¬ (takerSleeps s ∧ putterSleeps s)) := by
  obtain ⟨s, h, -⟩ := exists_reach_of_run (monitor 1).step Always (State.init .empty)
    [.call 0 (.put 7) none, .call 1 (.put 8) none, .call 2 .take (some 0), .resume 0 none]
    (fun s => decide (s.shared.items = [8])) (by decide)
  exact ⟨s, h, bounded_fifo h⟩

end

end BoundedBlockingQueue
