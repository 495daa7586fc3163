import Fppnet.Library.Run
import Fppnet.Library.Checked

/-!
# `ThreadPool`

The workers of `src/base/thread/ThreadPool.cc` take tasks from one queue. `take` holds `mutex_` and
waits at `cond_` while the queue is empty and `running_`; `run` pushes a task under the mutex and
notifies one. `stop` stores `running_ = false` and notifies all without the mutex, so it can come
between the test of a worker and its wait; `running_` is read and written in one step each, in the
order of the interleaving.

* `ThreadPool.tasks_once`: every task is taken in order by one worker, and none is left in the queue
  with all workers asleep;
* `ThreadPool.stop_returns` and `ThreadPool.stop_hangs`: `stop` gets all workers to end exactly when
  it does not notify between such a test and its wait.
-/

open Runs Checked

namespace ThreadPool

variable {α : Type}

/-- A `boost::function`, which may be empty. -/
abbrev Task (α : Type) := Option α

/-- Where a worker is. -/
inductive Phase (α : Type)
  /-- in front of `while (running_)` -/
  | inLoop
  /-- in `take`, in front of the mutex -/
  | entering
  /-- in `take` with the mutex: the test told it to wait -/
  | tested
  | asleep
  /-- in `take`, notified, in front of the mutex -/
  | woken
  /-- behind `take` -/
  | holding (task : Task α)
  | ended

namespace Phase

def isTested : Phase α → Bool
  | tested => true
  | _ => false

def isAsleep : Phase α → Bool
  | asleep => true
  | _ => false

def isWoken : Phase α → Bool
  | woken => true
  | _ => false

def isEnded : Phase α → Bool
  | ended => true
  | _ => false

/-- It is in `take`. -/
def inTake : Phase α → Bool
  | entering | tested | asleep | woken => true
  | _ => false

/-- It asks for the mutex. -/
def wantsMutex : Phase α → Bool
  | entering | woken => true
  | _ => false

/-- The task that it has taken and not finished. -/
def held : Phase α → Option α
  | holding task => task
  | _ => none

/-- What `notifyAll` does to it. -/
def wakeUp : Phase α → Phase α
  | asleep => woken
  | p => p

/-- How many steps it is from its end once `running_` is false. -/
def rank : Phase α → ℕ
  | ended => 0
  | inLoop => 1
  | holding _ => 2
  | entering | tested | woken | asleep => 3

theorem rank_le (p : Phase α) : p.rank ≤ 3 := by
  cases p <;> simp only [rank] <;> omega

end Phase

/-- How far a call of `stop` is. -/
inductive Stop
  | idle
  | flagged
  | notified
  | joined
  deriving DecidableEq

/-- The pool. `submitted`, `taken`, `executed`, `ranInline` and `late` are a record of the run. -/
structure State (α : Type) where
  running : Bool
  queue : List (Task α)
  workers : List (Phase α)
  stop : Stop
  /-- the tasks that were pushed, in order -/
  submitted : List (Task α)
  /-- the tasks that were popped, in order -/
  taken : List (Task α)
  /-- the tasks that workers have finished -/
  executed : List α
  /-- the tasks that `run` has called itself -/
  ranInline : List α
  /-- how many tasks were popped while `running_` was false -/
  late : ℕ

def State.init : State α := ⟨false, [], [], .idle, [], [], [], [], 0⟩

inductive Failure
  /-- `assert(threads_.empty())` -/
  | started
  /-- `task()` of an empty function -/
  | badFunctionCall
  /-- `abort()` in the handlers of `runInThread` -/
  | aborted
  deriving DecidableEq

/-- A step of the pool: a caller's (`start`, `run`, and the parts of `stop`), or one of worker `i`.
`pick` is the sleeper that `notify` wakes. -/
inductive Label (α : Type)
  | start (numThreads : ℕ)
  | run (task : Task α) (pick : Option ℕ)
  | check (i : ℕ)
  | take (i : ℕ)
  | wait (i : ℕ)
  | spurious (i : ℕ)
  | execute (i : ℕ) (threw : Bool)
  | stop
  | notifyAll
  | join

namespace State

/-- A worker holds `mutex_`. -/
def locked (s : State α) : Bool := s.workers.any Phase.isTested

def setPhase (s : State α) (i : ℕ) (p : Phase α) : State α :=
  { s with workers := s.workers.set i p }

/-- `cond_.notify()`: one of the sleepers wakes, nobody only if nobody sleeps. -/
def notify (s : State α) : Option ℕ → Option (State α)
  | none => if s.workers.any Phase.isAsleep then none else some s
  | some i =>
    match s.workers[i]? with
    | some .asleep => some (s.setPhase i .woken)
    | _ => none

/-- `cond_.notifyAll()` of `stop`. -/
def wakeAll (s : State α) : State α :=
  { s with workers := s.workers.map Phase.wakeUp, stop := .notified }

/-- The worker leaves `take` with the first task; `queue` is left. -/
def pop (s : State α) (i : ℕ) (task : Task α) (queue : List (Task α)) : State α :=
  { s.setPhase i (.holding task) with
    queue := queue
    taken := s.taken ++ [task]
    late := if s.running then s.late else s.late + 1 }

/-- The test of `take`, and what follows it while the mutex is held. -/
def take (s : State α) (i : ℕ) : State α :=
  match s.queue with
  | [] => if s.running then s.setPhase i .tested else s.setPhase i (.holding none)
  | task :: queue => s.pop i task queue

end State

/-- One step of the pool. -/
def step (s : State α) : Label α → Option (Except Failure (State α))
  | .start n =>
    if s.stop = .idle ∨ s.stop = .joined then
      some (if s.workers.isEmpty then
        .ok { s with
          running := true, workers := List.replicate n .inLoop, stop := .idle, late := 0 }
      else .error .started)
    else none
  | .run task pick =>
    if s.workers.isEmpty then
      match task with
      | none => some (.error .badFunctionCall)
      | some a => some (.ok { s with ranInline := s.ranInline ++ [a] })
    else if s.locked then none
    else
      ({ s with queue := s.queue ++ [task], submitted := s.submitted ++ [task] }.notify pick).map
        .ok
  | .check i =>
    match s.workers[i]? with
    | some .inLoop => some (.ok (s.setPhase i (if s.running then .entering else .ended)))
    | _ => none
  | .take i =>
    match s.workers[i]? with
    | some p => if p.wantsMutex && !s.locked then some (.ok (s.take i)) else none
    | none => none
  | .wait i =>
    match s.workers[i]? with
    | some .tested => some (.ok (s.setPhase i .asleep))
    | _ => none
  | .spurious i =>
    match s.workers[i]? with
    | some .asleep => some (.ok (s.setPhase i .woken))
    | _ => none
  | .execute i threw =>
    match s.workers[i]? with
    | some (.holding none) => some (.ok (s.setPhase i .inLoop))
    | some (.holding (some a)) =>
      some (if threw then .error .aborted
        else .ok { s.setPhase i .inLoop with executed := s.executed ++ [a] })
    | _ => none
  | .stop =>
    if s.stop = .idle then some (.ok { s with running := false, stop := .flagged }) else none
  | .notifyAll =>
    if s.stop = .flagged then some (.ok s.wakeAll) else none
  | .join =>
    if s.stop = .notified ∧ s.workers.all Phase.isEnded then some (.ok { s with stop := .joined })
    else none

/-! ### The workers as a list of phases -/

theorem set_perm {l : List (Phase α)} {i : ℕ} {old : Phase α} (h : l[i]? = some old)
    (new : Phase α) : (old :: l.set i new).Perm (new :: l) := by
  induction l generalizing i with
  | nil => cases h
  | cons p l ih =>
    cases i with
    | zero =>
      cases h
      exact List.Perm.swap ..
    | succ i =>
      rw [List.set_cons_succ]
      calc
        (old :: p :: l.set i new).Perm (p :: old :: l.set i new) := List.Perm.swap ..
        _ |>.Perm (p :: new :: l) := (ih h).cons p
        _ |>.Perm (new :: p :: l) := List.Perm.swap ..

variable {s t : State α} {i : ℕ} {old w : Phase α}

theorem countP_setPhase (h : s.workers[i]? = some old) (q : Phase α → Bool) :
    (s.setPhase i w).workers.countP q + (if q old then 1 else 0) =
      s.workers.countP q + if q w then 1 else 0 := by
  have := (set_perm h w).countP_eq q
  rwa [List.countP_cons, List.countP_cons] at this

theorem countP_same {q : Phase α → Bool} (h : s.workers[i]? = some old) (hq : q w = q old) :
    (s.setPhase i w).workers.countP q = s.workers.countP q := by
  have := countP_setPhase (w := w) h q
  rwa [hq, Nat.add_right_cancel_iff] at this

theorem setPhase_ne_nil (h : s.workers[i]? = some old) : (s.setPhase i w).workers ≠ [] := by
  intro hnil
  have hmem := List.mem_of_getElem? h
  rw [(List.set_eq_nil_iff _ _).1 hnil] at hmem
  cases hmem

theorem held_setPhase (h : s.workers[i]? = some old) :
    (old.held.toList ++ (s.setPhase i w).workers.filterMap Phase.held).Perm
      (w.held.toList ++ s.workers.filterMap Phase.held) := by
  have := (set_perm h w).filterMap Phase.held
  simp only [List.filterMap_cons] at this
  cases ho : old.held <;> cases hn : w.held <;> simpa [ho, hn, State.setPhase] using this

theorem countP_wakeUp {q : Phase α → Bool} (hq : ∀ p : Phase α, q p.wakeUp = q p)
    (l : List (Phase α)) : (l.map Phase.wakeUp).countP q = l.countP q := by
  rw [List.countP_map]
  exact congrArg (List.countP · l) (funext hq)

theorem asleep_wakeUp (l : List (Phase α)) : (l.map Phase.wakeUp).countP Phase.isAsleep = 0 := by
  rw [List.countP_eq_zero]
  intro p hp
  obtain ⟨p', -, rfl⟩ := List.mem_map.1 hp
  cases p' <;> exact Bool.false_ne_true

theorem held_wakeUp (l : List (Phase α)) :
    (l.map Phase.wakeUp).filterMap Phase.held = l.filterMap Phase.held := by
  rw [List.filterMap_map]
  refine congrArg (List.filterMap · l) (funext fun p => ?_)
  cases p <;> rfl

theorem countP_replicate_zero {q : Phase α → Bool} {p : Phase α} (h : q p = false) (n : ℕ) :
    (List.replicate n p).countP q = 0 := by
  rw [List.countP_replicate, h]
  rfl

theorem locked_eq_false : s.locked = false ↔ s.workers.countP Phase.isTested = 0 := by
  rw [State.locked, List.any_eq_false, List.countP_eq_zero]

/-- What a notification does: one sleeper wakes, if there is one. -/
theorem notify_cases {pick : Option ℕ} (h : s.notify pick = some t) :
    (s.workers.countP Phase.isAsleep = 0 ∧ t = s) ∨
      ∃ i, s.workers[i]? = some .asleep ∧ t = s.setPhase i .woken := by
  cases pick with
  | none =>
    rw [State.notify, Option.ite_none_left_eq_some] at h
    refine Or.inl ⟨?_, (Option.some.inj h.2).symm⟩
    rw [List.countP_eq_zero]
    exact List.any_eq_false.1 (Bool.eq_false_iff.2 h.1)
  | some i =>
    simp only [State.notify] at h
    split at h
    · next hi =>
      cases h
      exact Or.inr ⟨i, hi, rfl⟩
    · cases h

/-! ### The invariant -/

/-- What holds in every state of the pool. -/
structure Inv (s : State α) : Prop where
  /-- the mutex -/
  tested_le : s.workers.countP Phase.isTested ≤ 1
  queue_nil : 0 < s.workers.countP Phase.isTested → s.queue.length = 0
  /-- no task is left to the sleepers -/
  enough : 0 < s.workers.countP Phase.isAsleep →
    s.queue.length ≤ s.workers.countP Phase.isWoken
  ended : s.running = true → s.workers.countP Phase.isEnded = 0
  late_zero : s.running = true → s.late = 0
  /-- behind the store to `running_` every worker takes one more task at most -/
  late_le : s.running = false →
    s.late + s.workers.countP Phase.inTake ≤ s.workers.length
  inline : s.workers = [] → s.queue = []
  fifo : s.submitted = s.taken ++ s.queue
  once : (s.executed ++ s.workers.filterMap Phase.held).Perm (s.taken.filterMap id)

theorem Inv.init : Inv (State.init : State α) where
  tested_le := Nat.zero_le _
  queue_nil := nofun
  enough := nofun
  ended := nofun
  late_zero := nofun
  late_le _ := Nat.le_refl _
  inline _ := rfl
  fifo := rfl
  once := .nil

theorem countP_pos_of_getElem? {q : Phase α → Bool} (h : s.workers[i]? = some old)
    (hq : q old = true) : 0 < s.workers.countP q :=
  List.countP_pos_iff.2 ⟨old, List.mem_of_getElem? h, hq⟩

/-- A worker that moves without touching the queue. -/
theorem Inv.setPhase (hs : Inv s) (h : s.workers[i]? = some old)
    (htested : w.isTested = true →
      s.workers.countP Phase.isTested = 0 ∧ s.queue.length = 0)
    (hasleep : w.isAsleep = true → s.queue.length = 0)
    (hwoken : old.isWoken = true → s.queue.length = 0)
    (hended : w.isEnded = true → s.running = false)
    (htake : w.inTake = true → old.inTake = true ∨ s.running = true)
    (hheld : w.held = old.held) : Inv (s.setPhase i w) := by
  have ctested := countP_setPhase (w := w) h Phase.isTested
  have casleep := countP_setPhase (w := w) h Phase.isAsleep
  have cwoken := countP_setPhase (w := w) h Phase.isWoken
  have cended := countP_setPhase (w := w) h Phase.isEnded
  have ctake := countP_setPhase (w := w) h Phase.inTake
  have hqueue : (s.setPhase i w).queue = s.queue := rfl
  have hrunning : (s.setPhase i w).running = s.running := rfl
  have hlate : (s.setPhase i w).late = s.late := rfl
  refine
    { tested_le := ?_
      queue_nil := ?_
      enough := ?_
      ended := ?_
      late_zero := hs.late_zero
      late_le := ?_
      inline := ?_
      fifo := hs.fifo
      once := ?_ }
  · have := hs.tested_le
    split_ifs at ctested with hold hnew hnew
    all_goals first | omega | (have ht := htested hnew; omega)
  · intro hpos
    rw [hqueue]
    by_cases hnew : w.isTested = true
    · exact (htested hnew).2
    · refine hs.queue_nil ?_
      rw [if_neg hnew] at ctested
      omega
  · intro hpos
    rw [hqueue]
    by_cases hnil : s.queue.length = 0
    · omega
    · have hnasleep : ¬ w.isAsleep = true := fun hnew => hnil (hasleep hnew)
      have hnwoken : ¬ old.isWoken = true := fun hold => hnil (hwoken hold)
      rw [if_neg hnasleep] at casleep
      rw [if_neg hnwoken] at cwoken
      have := hs.enough (by omega)
      omega
  · intro hrun
    have hnended : ¬ w.isEnded = true := by
      intro hnew
      rw [hrunning, hended hnew] at hrun
      cases hrun
    rw [if_neg hnended] at cended
    have := hs.ended hrun
    omega
  · intro hrun
    have hlen : (s.setPhase i w).workers.length = s.workers.length := List.length_set
    have := hs.late_le hrun
    rw [hlate, hlen]
    rcases Bool.eq_false_or_eq_true w.inTake with hnew | hnew
    · rcases htake hnew with hold | hrun'
      · rw [if_pos hold, if_pos hnew] at ctake
        omega
      · rw [hrunning, hrun'] at hrun
        cases hrun
    · rw [hnew] at ctake
      simp only [Bool.false_eq_true, if_false] at ctake
      omega
  · exact fun hnil => absurd hnil (setPhase_ne_nil h)
  · have hperm := held_setPhase (w := w) h
    rw [hheld, List.perm_append_left_iff] at hperm
    exact (hperm.append_left _).trans hs.once

/-- What asks for the mutex is in `take`, and neither asleep nor past the test. -/
theorem wantsMutex_spec (h : old.wantsMutex = true) :
    old.inTake = true ∧ old.isTested = false ∧ old.isAsleep = false ∧ old.isEnded = false ∧
      old.held = none := by
  cases old <;> first | exact ⟨rfl, rfl, rfl, rfl, rfl⟩ | cases h

/-- A task that is taken is held by the worker that takes it. -/
theorem Inv.once_pop (hs : Inv s) (h : s.workers[i]? = some old) (hold : old.held = none)
    (task : Task α) :
    (s.executed ++ (s.setPhase i (.holding task)).workers.filterMap Phase.held).Perm
      ((s.taken ++ [task]).filterMap id) := by
  have hperm := held_setPhase (w := .holding task) h
  rw [hold] at hperm
  have hnew : [task].filterMap id = (Phase.holding task).held.toList := by
    cases task <;> rfl
  rw [List.filterMap_append, hnew]
  calc
    (s.executed ++ (s.setPhase i (.holding task)).workers.filterMap Phase.held).Perm
        (s.executed ++ ((Phase.holding task).held.toList ++ s.workers.filterMap Phase.held)) :=
      hperm.append_left _
    _ |>.Perm ((s.executed ++ s.workers.filterMap Phase.held) ++
        (Phase.holding task).held.toList) := by
      rw [List.append_assoc]
      exact List.perm_append_comm.append_left _
    _ |>.Perm (s.taken.filterMap id ++ (Phase.holding task).held.toList) :=
      hs.once.append_right _

/-- A worker that pops a task. -/
theorem Inv.pop (hs : Inv s) (h : s.workers[i]? = some old) (hold : old.wantsMutex = true)
    {task : Task α} {queue : List (Task α)} (hqueue : s.queue = task :: queue) :
    Inv (s.pop i task queue) := by
  obtain ⟨oldTake, oldTested, oldAsleep, oldEnded, oldHeld⟩ := wantsMutex_spec hold
  have ctested := countP_same (w := .holding task) (q := Phase.isTested) h oldTested.symm
  have casleep := countP_same (w := .holding task) (q := Phase.isAsleep) h oldAsleep.symm
  have cended := countP_same (w := .holding task) (q := Phase.isEnded) h oldEnded.symm
  have cwoken := countP_setPhase (w := .holding task) h Phase.isWoken
  have ctake := countP_setPhase (w := .holding task) h Phase.inTake
  rw [if_neg (show ¬ (Phase.holding task).isWoken = true from Bool.false_ne_true)] at cwoken
  rw [if_pos oldTake,
    if_neg (show ¬ (Phase.holding task).inTake = true from Bool.false_ne_true)] at ctake
  have hlength : s.queue.length = queue.length + 1 := by rw [hqueue, List.length_cons]
  have hworkers : (s.pop i task queue).workers = (s.setPhase i (.holding task)).workers := rfl
  have hqueue' : (s.pop i task queue).queue = queue := rfl
  refine
    { tested_le := ?_
      queue_nil := ?_
      enough := ?_
      ended := ?_
      late_zero := ?_
      late_le := ?_
      inline := ?_
      fifo := ?_
      once := ?_ }
  · rw [hworkers, ctested]
    exact hs.tested_le
  · intro hpos
    rw [hworkers, ctested] at hpos
    have := hs.queue_nil hpos
    omega
  · intro hpos
    rw [hworkers, casleep] at hpos
    rw [hworkers, hqueue']
    have := hs.enough hpos
    split_ifs at cwoken <;> omega
  · intro hrun
    rw [hworkers, cended]
    exact hs.ended hrun
  · intro hrun
    have hrun' : s.running = true := hrun
    change (if s.running then s.late else s.late + 1) = 0
    rw [if_pos hrun']
    exact hs.late_zero hrun'
  · intro hrun
    have hrun' : s.running = false := hrun
    have hlen : (s.setPhase i (.holding task)).workers.length = s.workers.length :=
      List.length_set
    have := hs.late_le hrun'
    rw [hworkers, hlen]
    change (if s.running then s.late else s.late + 1) + _ ≤ _
    rw [if_neg (by rw [hrun']; exact Bool.false_ne_true)]
    omega
  · exact fun hnil => absurd hnil (setPhase_ne_nil h)
  · change s.submitted = (s.taken ++ [task]) ++ queue
    rw [hs.fifo, hqueue, List.append_assoc, List.singleton_append]
  · exact hs.once_pop h oldHeld task

/-- A worker that has finished its task. -/
theorem Inv.finish (hs : Inv s) {a : α} (h : s.workers[i]? = some (.holding (some a))) :
    Inv { s.setPhase i .inLoop with executed := s.executed ++ [a] } := by
  have ctested := countP_same (w := .inLoop) (q := Phase.isTested) h rfl
  have casleep := countP_same (w := .inLoop) (q := Phase.isAsleep) h rfl
  have cwoken := countP_same (w := .inLoop) (q := Phase.isWoken) h rfl
  have cended := countP_same (w := .inLoop) (q := Phase.isEnded) h rfl
  have ctake := countP_same (w := .inLoop) (q := Phase.inTake) h rfl
  have hperm := held_setPhase (w := .inLoop) h
  have hlen : (s.setPhase i .inLoop).workers.length = s.workers.length := List.length_set
  refine
    { tested_le := ctested.trans_le hs.tested_le
      queue_nil := fun hpos => hs.queue_nil (ctested ▸ hpos)
      enough := fun hpos => (hs.enough (casleep ▸ hpos)).trans cwoken.ge
      ended := fun hrun => cended.trans (hs.ended hrun)
      late_zero := hs.late_zero
      late_le := ?_
      inline := fun hnil => absurd hnil (setPhase_ne_nil h)
      fifo := hs.fifo
      once := ?_ }
  · intro hrun
    have := hs.late_le hrun
    change s.late + (s.setPhase i .inLoop).workers.countP Phase.inTake ≤
      (s.setPhase i .inLoop).workers.length
    rw [ctake, hlen]
    exact this
  · change ((s.executed ++ [a]) ++ (s.setPhase i .inLoop).workers.filterMap Phase.held).Perm _
    rw [List.append_assoc]
    exact (hperm.append_left _).trans hs.once

/-- A task is pushed, and one sleeper woken for it. -/
theorem Inv.push (hs : Inv s) (hlocked : s.locked = false) (hworkers : s.workers ≠ [])
    {task : Task α} {pick : Option ℕ}
    (h : { s with queue := s.queue ++ [task], submitted := s.submitted ++ [task] }.notify pick =
      some t) : Inv t := by
  have htested := locked_eq_false.1 hlocked
  have hlength : (s.queue ++ [task]).length = s.queue.length + 1 := List.length_append
  rcases notify_cases h with ⟨hasleep, rfl⟩ | ⟨i, hi, rfl⟩
  · exact
      { tested_le := hs.tested_le
        queue_nil := fun hpos => absurd hpos (htested ▸ Nat.lt_irrefl 0)
        enough := fun hpos => absurd hpos (hasleep ▸ Nat.lt_irrefl 0)
        ended := hs.ended
        late_zero := hs.late_zero
        late_le := hs.late_le
        inline := fun hnil => absurd hnil hworkers
        fifo := by
          change s.submitted ++ [task] = s.taken ++ (s.queue ++ [task])
          rw [hs.fifo, List.append_assoc]
        once := hs.once }
  · have hi' : s.workers[i]? = some .asleep := hi
    have ctested := countP_same (w := .woken) (q := Phase.isTested) hi' rfl
    have cended := countP_same (w := .woken) (q := Phase.isEnded) hi' rfl
    have ctake := countP_same (w := .woken) (q := Phase.inTake) hi' rfl
    have cwoken := countP_setPhase (w := .woken) hi' Phase.isWoken
    have hheld := held_setPhase (w := .woken) hi'
    have hlen : (s.setPhase i .woken).workers.length = s.workers.length := List.length_set
    have hpos := countP_pos_of_getElem? (q := Phase.isAsleep) hi' rfl
    refine
      { tested_le := ctested.trans_le hs.tested_le
        queue_nil := fun hpos => absurd (ctested ▸ hpos) (htested ▸ Nat.lt_irrefl 0)
        enough := ?_
        ended := fun hrun => cended.trans (hs.ended hrun)
        late_zero := hs.late_zero
        late_le := ?_
        inline := fun hnil => absurd hnil (setPhase_ne_nil hi')
        fifo := ?_
        once := (hheld.append_left s.executed).trans hs.once }
    · intro _
      have := hs.enough hpos
      change (s.queue ++ [task]).length ≤ (s.setPhase i .woken).workers.countP Phase.isWoken
      rw [if_neg (show ¬ Phase.isWoken (.asleep : Phase α) = true from Bool.false_ne_true),
        if_pos (show Phase.isWoken (.woken : Phase α) = true from rfl)] at cwoken
      omega
    · intro hrun
      have := hs.late_le hrun
      change s.late + (s.setPhase i .woken).workers.countP Phase.inTake ≤
        (s.setPhase i .woken).workers.length
      rw [ctake, hlen]
      exact this
    · change s.submitted ++ [task] = s.taken ++ (s.queue ++ [task])
      rw [hs.fifo, List.append_assoc]

/-- `notifyAll` wakes all sleepers. -/
theorem Inv.wakeAll (hs : Inv s) : Inv s.wakeAll := by
  have ctested := countP_wakeUp (q := Phase.isTested) (fun p => by cases p <;> rfl) s.workers
  have cended := countP_wakeUp (q := Phase.isEnded) (fun p => by cases p <;> rfl) s.workers
  have ctake := countP_wakeUp (q := Phase.inTake) (fun p => by cases p <;> rfl) s.workers
  exact
    { tested_le := ctested.trans_le hs.tested_le
      queue_nil := fun hpos => hs.queue_nil (ctested ▸ hpos)
      enough := fun hpos => absurd hpos (asleep_wakeUp s.workers ▸ Nat.lt_irrefl 0)
      ended := fun hrun => cended.trans (hs.ended hrun)
      late_zero := hs.late_zero
      late_le := fun hrun => by
        have := hs.late_le hrun
        change s.late + (s.workers.map Phase.wakeUp).countP Phase.inTake ≤
          (s.workers.map Phase.wakeUp).length
        rwa [ctake, List.length_map]
      inline := fun hnil => hs.inline (List.map_eq_nil_iff.1 hnil)
      fifo := hs.fifo
      once := by
        change (s.executed ++ (s.workers.map Phase.wakeUp).filterMap Phase.held).Perm _
        rw [held_wakeUp]
        exact hs.once }

/-- The mutex decides what a worker finds in `take`. -/
theorem Inv.take (hs : Inv s) (h : s.workers[i]? = some old) (hold : old.wantsMutex = true)
    (hlocked : s.locked = false) : Inv (s.take i) := by
  obtain ⟨-, -, -, -, oldHeld⟩ := wantsMutex_spec hold
  unfold State.take
  split
  · next hnil =>
    have hlength : s.queue.length = 0 := by rw [hnil, List.length_nil]
    split
    · next hrun =>
      exact hs.setPhase h (fun _ => ⟨locked_eq_false.1 hlocked, hlength⟩) (fun _ => hlength)
        (fun _ => hlength) nofun (fun _ => Or.inr hrun) oldHeld.symm
    · exact hs.setPhase h nofun nofun (fun _ => hlength) nofun nofun oldHeld.symm
  · next task queue hcons => exact hs.pop h hold hcons

/-- The pool starts with as many workers as were asked for. -/
theorem Inv.start (hs : Inv s) (hworkers : s.workers = []) (n : ℕ) :
    Inv { s with
      running := true, workers := List.replicate n .inLoop, stop := .idle, late := 0 } := by
  have hqueue := hs.inline hworkers
  have honce := hs.once
  rw [hworkers] at honce
  exact
    { tested_le := (countP_replicate_zero rfl n).trans_le (Nat.zero_le 1)
      queue_nil := fun _ => by rw [hqueue]; rfl
      enough := fun _ => by rw [hqueue]; exact Nat.zero_le _
      ended := fun _ => countP_replicate_zero rfl n
      late_zero := fun _ => rfl
      late_le := nofun
      inline := fun _ => hqueue
      fifo := hs.fifo
      once := by
        have hheld : (List.replicate n (.inLoop : Phase α)).filterMap Phase.held = [] := by
          rw [List.filterMap_eq_nil_iff]
          intro p hp
          rw [List.eq_of_mem_replicate hp]
          rfl
        change (s.executed ++ (List.replicate n Phase.inLoop).filterMap Phase.held).Perm _
        rw [hheld]
        exact honce }

/-! ### What a step can do -/

/-- The steps of the callers and of the workers. -/
inductive Steps (s : State α) : Label α → State α → Prop
  | start (n : ℕ) : s.workers = [] → s.stop = .idle ∨ s.stop = .joined →
      Steps s (.start n) { s with
        running := true, workers := List.replicate n .inLoop, stop := .idle, late := 0 }
  | runInline (a : α) (pick : Option ℕ) : s.workers = [] →
      Steps s (.run (some a) pick) { s with ranInline := s.ranInline ++ [a] }
  | run (task : Task α) (pick : Option ℕ) {t : State α} : s.workers ≠ [] → s.locked = false →
      { s with queue := s.queue ++ [task], submitted := s.submitted ++ [task] }.notify pick =
        some t → Steps s (.run task pick) t
  | check (i : ℕ) : s.workers[i]? = some .inLoop →
      Steps s (.check i) (s.setPhase i (if s.running then .entering else .ended))
  | take (i : ℕ) (p : Phase α) : s.workers[i]? = some p → p.wantsMutex = true →
      s.locked = false → Steps s (.take i) (s.take i)
  | wait (i : ℕ) : s.workers[i]? = some .tested → Steps s (.wait i) (s.setPhase i .asleep)
  | spurious (i : ℕ) : s.workers[i]? = some .asleep →
      Steps s (.spurious i) (s.setPhase i .woken)
  | skip (i : ℕ) (threw : Bool) : s.workers[i]? = some (.holding none) →
      Steps s (.execute i threw) (s.setPhase i .inLoop)
  | execute (i : ℕ) (a : α) : s.workers[i]? = some (.holding (some a)) →
      Steps s (.execute i false) { s.setPhase i .inLoop with executed := s.executed ++ [a] }
  | stop : s.stop = .idle → Steps s .stop { s with running := false, stop := .flagged }
  | notifyAll : s.stop = .flagged → Steps s .notifyAll s.wakeAll
  | join : s.stop = .notified → s.workers.all Phase.isEnded = true →
      Steps s .join { s with stop := .joined }

theorem step_cases {a : Label α} (h : Moves step s a t) : Steps s a t := by
  unfold Moves at h
  cases a with
  | start n =>
    rw [step, Option.ite_none_right_eq_some] at h
    obtain ⟨hstop, h⟩ := h
    split at h
    · next hworkers =>
      cases h
      exact .start n (List.isEmpty_iff.1 hworkers) hstop
    · cases h
  | run task pick =>
    simp only [step] at h
    split at h
    · next hworkers =>
      cases task with
      | none => cases h
      | some a =>
        cases h
        exact .runInline a pick (List.isEmpty_iff.1 hworkers)
    · next hworkers =>
      rw [Option.ite_none_left_eq_some] at h
      obtain ⟨t', ht', hok⟩ := Option.map_eq_some_iff.1 h.2
      cases hok
      exact .run task pick (fun hnil => hworkers (List.isEmpty_iff.2 hnil))
        (Bool.eq_false_iff.2 h.1) ht'
  | check i =>
    simp only [step] at h
    split at h
    · next hi =>
      cases h
      exact .check i hi
    · cases h
  | take i =>
    simp only [step] at h
    split at h
    · next p hi =>
      rw [Option.ite_none_right_eq_some, Bool.and_eq_true, Bool.not_eq_true'] at h
      obtain ⟨⟨hwants, hlocked⟩, h⟩ := h
      cases h
      exact .take i p hi hwants hlocked
    · cases h
  | wait i =>
    simp only [step] at h
    split at h
    · next hi =>
      cases h
      exact .wait i hi
    · cases h
  | spurious i =>
    simp only [step] at h
    split at h
    · next hi =>
      cases h
      exact .spurious i hi
    · cases h
  | execute i threw =>
    simp only [step] at h
    split at h
    · next hi =>
      cases h
      exact .skip i threw hi
    · next a hi =>
      cases threw with
      | true => cases h
      | false =>
        cases h
        exact .execute i a hi
    · cases h
  | stop =>
    rw [step, Option.ite_none_right_eq_some] at h
    cases h.2
    exact .stop h.1
  | notifyAll =>
    rw [step, Option.ite_none_right_eq_some] at h
    cases h.2
    exact .notifyAll h.1
  | join =>
    rw [step, Option.ite_none_right_eq_some] at h
    cases h.2
    exact .join h.1.1 h.1.2

theorem step_inv {a : Label α} (hs : Inv s) (h : Moves step s a t) : Inv t := by
  cases step_cases h with
  | start n hworkers _ => exact hs.start hworkers n
  | runInline a pick hworkers =>
    exact ⟨hs.tested_le, hs.queue_nil, hs.enough, hs.ended, hs.late_zero, hs.late_le, hs.inline,
      hs.fifo, hs.once⟩
  | run task pick hworkers hlocked hnotify => exact hs.push hlocked hworkers hnotify
  | check i hi =>
    split
    · next hrun => exact hs.setPhase hi nofun nofun nofun nofun (fun _ => Or.inr hrun) rfl
    · next hrun =>
      exact hs.setPhase hi nofun nofun nofun (fun _ => Bool.eq_false_iff.2 hrun) nofun rfl
  | take i p hi hwants hlocked => exact hs.take hi hwants hlocked
  | wait i hi =>
    have hnil := hs.queue_nil (countP_pos_of_getElem? hi rfl)
    exact hs.setPhase hi nofun (fun _ => hnil) nofun nofun (fun _ => Or.inl rfl) rfl
  | spurious i hi => exact hs.setPhase hi nofun nofun nofun nofun (fun _ => Or.inl rfl) rfl
  | skip i threw hi => exact hs.setPhase hi nofun nofun nofun nofun nofun rfl
  | execute i a hi => exact hs.finish hi
  | stop _ =>
    refine ⟨hs.tested_le, hs.queue_nil, hs.enough, nofun, nofun, ?_, hs.inline, hs.fifo, hs.once⟩
    intro _
    rcases Bool.eq_false_or_eq_true s.running with hrun | hrun
    · have hzero := hs.late_zero hrun
      have hle : s.workers.countP Phase.inTake ≤ s.workers.length := List.countP_le_length
      change s.late + s.workers.countP Phase.inTake ≤ s.workers.length
      omega
    · exact hs.late_le hrun
  | notifyAll _ => exact hs.wakeAll
  | join _ _ =>
    exact ⟨hs.tested_le, hs.queue_nil, hs.enough, hs.ended, hs.late_zero, hs.late_le, hs.inline,
      hs.fifo, hs.once⟩

theorem Reach.inv (h : Reach (Moves step) Always State.init s) : Inv s :=
  h.invariant Inv.init fun _ _ _ hx _ => step_inv hx

/-! ### Tasks -/

/-- A step that worker `i` makes by itself. -/
def Label.isOf (i : ℕ) : Label α → Prop
  | .check j | .take j | .wait j | .execute j _ => j = i
  | _ => False

/-- A worker that is neither asleep nor ended makes a step when no other holds the mutex. -/
theorem exists_step (h : s.workers[i]? = some old) (hlocked : s.locked = false)
    (hasleep : old.isAsleep = false) (hended : old.isEnded = false) :
    ∃ a t, a.isOf i ∧ Moves step s a t ∧ ∃ new, t.workers = s.workers.set i new ∧
      (s.running = false → new.rank < old.rank) := by
  cases old with
  | inLoop =>
    have hstep : Moves step s (.check i)
        (s.setPhase i (if s.running then .entering else .ended)) := by
      simp only [Moves, step, h]
    refine ⟨.check i, _, rfl, hstep, _, rfl, ?_⟩
    intro hrun
    rw [if_neg (by rw [hrun]; exact Bool.false_ne_true)]
    exact Nat.zero_lt_one
  | tested =>
    have := countP_pos_of_getElem? (q := Phase.isTested) h rfl
    rw [locked_eq_false.1 hlocked] at this
    cases this
  | entering | woken =>
    have hstep : Moves step s (.take i) (s.take i) := by
      simp only [Moves, step, h, hlocked]
      rfl
    refine ⟨.take i, _, rfl, hstep, ?_⟩
    unfold State.take
    split
    · split
      · next hrun => exact ⟨_, rfl, fun hfalse => absurd hrun (hfalse ▸ Bool.false_ne_true)⟩
      · exact ⟨_, rfl, fun _ => Nat.lt_succ_self 2⟩
    · exact ⟨_, rfl, fun _ => Nat.lt_succ_self 2⟩
  | holding task =>
    cases task with
    | none =>
      have hstep : Moves step s (.execute i false) (s.setPhase i .inLoop) := by
        simp only [Moves, step, h]
      exact ⟨.execute i false, _, rfl, hstep, _, rfl, fun _ => Nat.lt_succ_self 1⟩
    | some a =>
      have hstep : Moves step s (.execute i false)
          { s.setPhase i .inLoop with executed := s.executed ++ [a] } := by
        simp only [Moves, step, h]
        rfl
      exact ⟨.execute i false, _, rfl, hstep, _, rfl, fun _ => Nat.lt_succ_self 1⟩
  | asleep => cases hasleep
  | ended => cases hended

/-- While the pool runs a queued task never waits for sleepers only: some worker goes on. -/
theorem Inv.exists_worker (hs : Inv s) (hrun : s.running = true) (hqueue : s.queue ≠ []) :
    ∃ i a t, Label.isOf i a ∧ Moves step s a t := by
  have hlength : 0 < s.queue.length := List.length_pos_iff.2 hqueue
  have htested : s.workers.countP Phase.isTested = 0 := by
    by_contra hne
    have := hs.queue_nil (Nat.pos_of_ne_zero hne)
    omega
  have hlocked := locked_eq_false.2 htested
  have hgo : ∀ p ∈ s.workers, p.isAsleep = false → ∃ i a t, Label.isOf i a ∧ Moves step s a t := by
    intro p hp hasleep
    have hended : p.isEnded = false :=
      Bool.eq_false_iff.2 (List.countP_eq_zero.1 (hs.ended hrun) p hp)
    obtain ⟨i, hi⟩ := List.mem_iff_getElem?.1 hp
    obtain ⟨a, t, ha, hstep, -⟩ := exists_step hi hlocked hasleep hended
    exact ⟨i, a, t, ha, hstep⟩
  by_cases hall : s.workers.countP Phase.isAsleep = 0
  · obtain ⟨p, hp⟩ := List.exists_mem_of_ne_nil _ fun hnil => hqueue (hs.inline hnil)
    exact hgo p hp (Bool.eq_false_iff.2 (List.countP_eq_zero.1 hall p hp))
  · have hwoken := hs.enough (Nat.pos_of_ne_zero hall)
    obtain ⟨p, hp, hpw⟩ := List.countP_pos_iff.1 (hlength.trans_le hwoken)
    refine hgo p hp ?_
    cases p <;> first | rfl | cases hpw

/-- Every task that `run` queues is taken in its turn by one worker and finished once; of those
still queued when `stop` begins no more than one for each worker is taken; and while the pool runs
and the queue is not empty, some worker can go on. -/
theorem tasks_once (h : Reach (Moves step) Always State.init s) :
    s.submitted = s.taken ++ s.queue ∧
      (s.executed ++ s.workers.filterMap Phase.held).Perm (s.taken.filterMap id) ∧
      s.late ≤ s.workers.length ∧
      (s.running = true → s.queue ≠ [] → ∃ i a t, Label.isOf i a ∧ Moves step s a t) := by
  have hs := Reach.inv h
  refine ⟨hs.fifo, hs.once, ?_, hs.exists_worker⟩
  rcases Bool.eq_false_or_eq_true s.running with hrun | hrun
  · exact (hs.late_zero hrun).trans_le (Nat.zero_le _)
  · exact (Nat.le_add_right _ _).trans (hs.late_le hrun)

/-- Two workers, two tasks, and a third that `stop` leaves in the queue. -/
theorem tasks_once_two : ∃ s : State ℕ, Reach (Moves step) Always State.init s ∧
    s.submitted = s.taken ++ s.queue ∧
    (s.executed ++ s.workers.filterMap Phase.held).Perm (s.taken.filterMap id) ∧
    s.late ≤ s.workers.length ∧
    (s.running = true → s.queue ≠ [] → ∃ i a t, Label.isOf i a ∧ Moves step s a t) := by
  obtain ⟨s, h, -⟩ := exists_reach_of_run step Always (State.init : State ℕ)
    [.start 2, .check 0, .take 0, .wait 0, .run (some 7) (some 0), .check 1, .run (some 8) none,
      .run (some 9) none, .take 1, .stop, .take 0, .execute 1 false, .execute 0 false, .check 0,
      .check 1, .notifyAll, .join]
    (fun s => decide (s.executed = [7, 8] ∧ s.queue = [some 9] ∧ s.late = 1)) (by decide)
  exact ⟨s, h, tasks_once h⟩

/-! ### Stopping -/

/-- `stop` does not notify while a worker is between its test and its wait. -/
def NotBetween (s : State α) : Label α → Prop
  | .notifyAll => s.workers.countP Phase.isTested = 0
  | _ => True

instance (s : State α) (a : Label α) : Decidable (NotBetween s a) :=
  match a with
  | .notifyAll => inferInstanceAs (Decidable (_ = 0))
  | .start _ | .run _ _ | .check _ | .take _ | .wait _ | .spurious _ | .execute _ _ | .stop
  | .join => isTrue trivial

/-- Once `stop` has begun `running_` is false, and once it has notified nobody sleeps or is about
to. -/
structure Stopping (s : State α) : Prop where
  running : s.stop ≠ .idle → s.running = false
  tested : s.stop = .notified ∨ s.stop = .joined → s.workers.countP Phase.isTested = 0
  asleep : s.stop = .notified ∨ s.stop = .joined → s.workers.countP Phase.isAsleep = 0

/-- A worker that moves, but neither to its wait nor to sleep. -/
theorem Stopping.setPhase (hs : Stopping s) (h : s.workers[i]? = some old)
    (htested : w.isTested = true → s.running = true)
    (hasleep : w.isAsleep = true → old.isTested = true) : Stopping (s.setPhase i w) := by
  have ctested := countP_setPhase (w := w) h Phase.isTested
  have casleep := countP_setPhase (w := w) h Phase.isAsleep
  have hidle : s.stop = .notified ∨ s.stop = .joined → s.stop ≠ .idle := by
    intro hstop hidle
    rcases hstop with hstop | hstop
    all_goals rw [hidle] at hstop; cases hstop
  refine ⟨hs.running, ?_, ?_⟩
  · intro hstop
    have hzero := hs.tested hstop
    have hnew : ¬ w.isTested = true := by
      intro hnew
      have hrun := htested hnew
      rw [hs.running (hidle hstop)] at hrun
      cases hrun
    rw [if_neg hnew] at ctested
    omega
  · intro hstop
    have hzero := hs.asleep hstop
    have hnew : ¬ w.isAsleep = true := by
      intro hnew
      have hpos := countP_pos_of_getElem? h (hasleep hnew)
      rw [hs.tested hstop] at hpos
      exact Nat.lt_irrefl 0 hpos
    rw [if_neg hnew] at casleep
    omega

theorem step_stopping {a : Label α} (hs : Stopping s) (hc : NotBetween s a)
    (h : Moves step s a t) : Stopping t := by
  cases step_cases h with
  | start n _ _ =>
    refine ⟨fun hidle => absurd rfl hidle, ?_, ?_⟩
    · exact fun _ => countP_replicate_zero rfl n
    · exact fun _ => countP_replicate_zero rfl n
  | runInline a pick _ => exact ⟨hs.running, hs.tested, hs.asleep⟩
  | run task pick _ _ hnotify =>
    rcases notify_cases hnotify with ⟨-, rfl⟩ | ⟨i, hi, rfl⟩
    · exact ⟨hs.running, hs.tested, hs.asleep⟩
    · have hpush : Stopping
          { s with queue := s.queue ++ [task], submitted := s.submitted ++ [task] } :=
        ⟨hs.running, hs.tested, hs.asleep⟩
      exact hpush.setPhase hi nofun nofun
  | check i hi =>
    split
    · exact hs.setPhase hi nofun nofun
    · exact hs.setPhase hi nofun nofun
  | take i p hi _ _ =>
    unfold State.take
    split
    · split
      · next hrun => exact hs.setPhase hi (fun _ => hrun) nofun
      · exact hs.setPhase hi nofun nofun
    · next task queue _ =>
      have hmoved := hs.setPhase (w := .holding task) hi nofun nofun
      exact ⟨hmoved.running, hmoved.tested, hmoved.asleep⟩
  | wait i hi => exact hs.setPhase hi nofun (fun _ => rfl)
  | spurious i hi => exact hs.setPhase hi nofun nofun
  | skip i threw hi => exact hs.setPhase hi nofun nofun
  | execute i a hi =>
    have hmoved := hs.setPhase (w := .inLoop) hi nofun nofun
    exact ⟨hmoved.running, hmoved.tested, hmoved.asleep⟩
  | stop _ => exact ⟨fun _ => rfl, nofun, nofun⟩
  | notifyAll hstop =>
    have hidle : s.stop ≠ .idle := by
      rw [hstop]
      nofun
    have ctested := countP_wakeUp (q := Phase.isTested) (fun p => by cases p <;> rfl) s.workers
    exact ⟨fun _ => hs.running hidle, fun _ => ctested.trans hc, fun _ => asleep_wakeUp s.workers⟩
  | join hstop _ =>
    refine ⟨fun _ => hs.running ?_, fun _ => hs.tested (Or.inl hstop),
      fun _ => hs.asleep (Or.inl hstop)⟩
    rw [hstop]
    nofun

theorem Reach.stopping (h : Reach (Moves step) NotBetween State.init s) : Stopping s := by
  refine h.invariant ⟨fun hidle => absurd rfl hidle, ?_, ?_⟩ fun _ _ _ hx hc => step_stopping hx hc
  · exact fun _ => rfl
  · exact fun _ => rfl

/-- How many steps are left to the workers once `running_` is false. -/
def State.rank (s : State α) : ℕ := (s.workers.map Phase.rank).sum

theorem rank_set {l : List (Phase α)} (h : l[i]? = some old) :
    ((l.set i w).map Phase.rank).sum + old.rank = (l.map Phase.rank).sum + w.rank := by
  have := ((set_perm h w).map Phase.rank).sum_eq
  simp only [List.map_cons, List.sum_cons] at this
  omega

theorem rank_setPhase_le (h : s.workers[i]? = some old) (hle : w.rank ≤ old.rank) :
    (s.setPhase i w).rank ≤ s.rank := by
  have := rank_set (w := w) h
  change ((s.workers.set i w).map Phase.rank).sum ≤ (s.workers.map Phase.rank).sum
  omega

theorem rank_le_of_step {a : Label α} (hstop : s.stop = .notified) (hrun : s.running = false)
    (h : Moves step s a t) : t.rank ≤ s.rank := by
  cases step_cases h with
  | start n _ hs =>
    rw [hstop] at hs
    rcases hs with hs | hs <;> cases hs
  | runInline a pick _ => exact le_refl _
  | run task pick _ _ hnotify =>
    rcases notify_cases hnotify with ⟨-, rfl⟩ | ⟨i, hi, rfl⟩
    · exact le_refl _
    · exact rank_setPhase_le (s := s) hi (le_refl 3)
  | check i hi =>
    rw [if_neg (by rw [hrun]; exact Bool.false_ne_true)]
    exact rank_setPhase_le hi (Nat.zero_le 1)
  | take i p hi hwants _ =>
    have hp : 2 ≤ p.rank := by
      cases p <;> first | exact Nat.le_succ 2 | cases hwants
    unfold State.take
    split
    · rw [if_neg (by rw [hrun]; exact Bool.false_ne_true)]
      exact rank_setPhase_le hi hp
    · next task queue _ => exact rank_setPhase_le (w := .holding task) hi hp
  | wait i hi => exact rank_setPhase_le hi (le_refl 3)
  | spurious i hi => exact rank_setPhase_le hi (le_refl 3)
  | skip i threw hi => exact rank_setPhase_le hi (Nat.le_succ 1)
  | execute i a hi => exact rank_setPhase_le (w := .inLoop) hi (Nat.le_succ 1)
  | stop hs => rw [hstop] at hs; cases hs
  | notifyAll hs => rw [hstop] at hs; cases hs
  | join _ _ => exact le_refl _

/-- If `stop` did not notify between the test of a worker and its wait, then every worker that has
not ended makes a step by itself, at most three of them are left to each, no step of another adds
to them, and `join` goes on when none is left. -/
theorem stop_returns (h : Reach (Moves step) NotBetween State.init s) (hstop : s.stop = .notified) :
    (∀ i p, s.workers[i]? = some p → p.isEnded = false →
      ∃ a t, Label.isOf i a ∧ Moves step s a t ∧ t.rank < s.rank) ∧
      s.rank ≤ 3 * s.workers.length ∧
      (∀ a t, Moves step s a t → t.rank ≤ s.rank) ∧
      (s.rank = 0 → ∃ t, Moves step s .join t) := by
  have hs := Reach.stopping h
  have hrun : s.running = false := hs.running (by rw [hstop]; nofun)
  have htested := hs.tested (Or.inl hstop)
  have hasleep := hs.asleep (Or.inl hstop)
  refine ⟨?_, ?_, ?_, ?_⟩
  · intro i p hi hended
    have hpasleep : p.isAsleep = false :=
      Bool.eq_false_iff.2 (List.countP_eq_zero.1 hasleep p (List.mem_of_getElem? hi))
    obtain ⟨a, t, ha, hstep, new, hworkers, hrank⟩ :=
      exists_step hi (locked_eq_false.2 htested) hpasleep hended
    refine ⟨a, t, ha, hstep, ?_⟩
    have hlt := hrank hrun
    have hsum := rank_set (w := new) hi
    rw [State.rank, State.rank, hworkers]
    omega
  · have hle : ∀ p ∈ s.workers.map Phase.rank, p ≤ 3 := by
      intro r hr
      obtain ⟨p, -, rfl⟩ := List.mem_map.1 hr
      exact p.rank_le
    have := List.sum_le_card_nsmul _ _ hle
    rw [List.length_map, smul_eq_mul, Nat.mul_comm] at this
    exact this
  · exact fun a t => rank_le_of_step hstop hrun
  · intro hzero
    have hall : s.workers.all Phase.isEnded = true := by
      rw [List.all_eq_true]
      intro p hp
      have hp0 := List.sum_eq_zero_iff.1 hzero _ (List.mem_map_of_mem hp)
      cases p <;> first | rfl | cases hp0
    exact ⟨{ s with stop := .joined }, by simp [Moves, step, hstop, hall]⟩

/-- A pool of two whose `stop` notifies one worker in its sleep and one in front of its loop. -/
theorem stop_returns_two : ∃ s : State ℕ, Reach (Moves step) NotBetween State.init s ∧
    s.stop = .notified ∧
    (∀ i p, s.workers[i]? = some p → p.isEnded = false →
      ∃ a t, Label.isOf i a ∧ Moves step s a t ∧ t.rank < s.rank) ∧
    s.rank ≤ 3 * s.workers.length ∧
    (∀ a t, Moves step s a t → t.rank ≤ s.rank) ∧
    (s.rank = 0 → ∃ t, Moves step s .join t) := by
  obtain ⟨s, h, hstop⟩ := exists_reach_of_run step NotBetween (State.init : State ℕ)
    [.start 2, .check 0, .take 0, .wait 0, .stop, .notifyAll, .take 0, .check 1]
    (fun s => decide (s.stop = .notified)) (by decide)
  exact ⟨s, h, of_decide_eq_true hstop, stop_returns h (of_decide_eq_true hstop)⟩

/-- Nobody pushes a task, and no sleeper wakes by itself. -/
def Quiet (_ : State α) : Label α → Prop
  | .run _ _ | .spurious _ => False
  | _ => True

instance (s : State α) (a : Label α) : Decidable (Quiet s a) :=
  match a with
  | .run _ _ | .spurious _ => isFalse nofun
  | .start _ | .check _ | .take _ | .wait _ | .execute _ _ | .stop | .notifyAll | .join =>
    isTrue trivial

/-- A worker that is behind its test, or asleep. -/
def Phase.isStuck : Phase α → Bool
  | tested | asleep => true
  | _ => false

/-- Behind the notification of `stop` such a worker can only go to sleep. -/
theorem step_stuck {a : Label α} {p : Phase α} (hi : s.workers[i]? = some p)
    (hp : p.isStuck = true) (hstop : s.stop = .notified) (hc : Quiet s a) (h : Moves step s a t) :
    t.stop = .notified ∧
      (t.workers[i]? = some p ∨ p = .tested ∧ t.workers[i]? = some .asleep) := by
  -- a step of a worker that is in another phase
  have hset : ∀ j old new, s.workers[j]? = some old → old.isStuck = false →
      (s.setPhase j new).stop = .notified ∧ ((s.setPhase j new).workers[i]? = some p ∨
        p = .tested ∧ (s.setPhase j new).workers[i]? = some .asleep) := by
    intro j old new hj hold
    refine ⟨hstop, .inl ?_⟩
    by_cases hij : j = i
    · rw [hij, hi] at hj
      cases hj
      cases hp.symm.trans hold
    · exact (List.getElem?_set_ne hij).trans hi
  cases step_cases h with
  | start n _ hs =>
    rw [hstop] at hs
    rcases hs with hs | hs <;> cases hs
  | runInline a pick _ => exact hc.elim
  | run task pick _ _ _ => exact hc.elim
  | check j hj => exact hset j _ _ hj rfl
  | take j q hj hwants _ =>
    have hq : q.isStuck = false := by cases q <;> first | rfl | cases hwants
    unfold State.take
    split
    · split
      · exact hset j _ _ hj hq
      · exact hset j _ _ hj hq
    · next task queue _ => exact hset j _ (.holding task) hj hq
  | wait j hj =>
    refine ⟨hstop, ?_⟩
    have hlt : j < s.workers.length := (List.getElem?_eq_some_iff.1 hj).1
    by_cases hij : j = i
    · subst hij
      rw [hi] at hj
      cases hj
      exact .inr ⟨rfl, List.getElem?_set_self hlt⟩
    · exact .inl ((List.getElem?_set_ne hij).trans hi)
  | spurious j _ => exact hc.elim
  | skip j threw hj => exact hset j _ _ hj rfl
  | execute j a hj => exact hset j _ .inLoop hj rfl
  | stop hs => rw [hstop] at hs; cases hs
  | notifyAll hs => rw [hstop] at hs; cases hs
  | join _ hall =>
    have hended : p.isEnded = true := List.all_eq_true.1 hall _ (List.mem_of_getElem? hi)
    have hp' : p.isEnded = false := by cases p <;> first | rfl | cases hp
    cases hp'.symm.trans hended

/-- A worker that sleeps behind the notification sleeps for ever. -/
theorem asleep_of_reach (hi : s.workers[i]? = some .asleep) (hstop : s.stop = .notified)
    (h : Reach (Moves step) Quiet s t) : t.workers[i]? = some .asleep := by
  have hkept : t.workers[i]? = some .asleep ∧ t.stop = .notified := by
    refine h.invariant (I := fun v : State α => v.workers[i]? = some .asleep ∧ v.stop = .notified)
      ⟨hi, hstop⟩ fun x a y hx hc hstep => ?_
    obtain ⟨hs, hw | ⟨hw, -⟩⟩ := step_stuck hx.1 rfl hx.2 hc hstep
    · exact ⟨hw, hs⟩
    · cases hw
  exact hkept.1

/-- If `stop` notifies while a worker is between its test and its wait, the worker goes to sleep
some time afterwards, and unless somebody pushes a task or it wakes by itself it never ends, so that
`stop` never returns. -/
theorem stop_hangs (hi : s.workers[i]? = some .tested) (hstop : s.stop = .flagged) :
    ∃ t, Moves step s .notifyAll t ∧ ∀ v, Reach (Moves step) Quiet t v →
      v.stop = .notified ∧ (∀ w, ¬ Moves step v .join w) ∧
        ((v.workers[i]? = some .tested ∧
            ∃ u, Moves step v (.wait i) u ∧ u.workers[i]? = some .asleep) ∨
          ∀ u, Reach (Moves step) Quiet v u → u.workers[i]? = some .asleep) := by
  have hnotify : Moves step s .notifyAll s.wakeAll := by
    simp only [Moves, step, hstop, if_true]
  have hi' : s.wakeAll.workers[i]? = some .tested := by
    change (s.workers.map Phase.wakeUp)[i]? = _
    rw [List.getElem?_map, hi]
    rfl
  refine ⟨_, hnotify, fun v hv => ?_⟩
  obtain ⟨hs, hw⟩ : v.stop = .notified ∧
      (v.workers[i]? = some .tested ∨ v.workers[i]? = some .asleep) := by
    refine hv.invariant (I := fun v : State α => v.stop = .notified ∧
      (v.workers[i]? = some .tested ∨ v.workers[i]? = some .asleep)) ⟨rfl, .inl hi'⟩
      fun x a y hx hc hstep => ?_
    rcases hx.2 with hx' | hx'
    · obtain ⟨hs, hw | ⟨-, hw⟩⟩ := step_stuck hx' rfl hx.1 hc hstep
      · exact ⟨hs, .inl hw⟩
      · exact ⟨hs, .inr hw⟩
    · obtain ⟨hs, hw | ⟨hw, -⟩⟩ := step_stuck hx' rfl hx.1 hc hstep
      · exact ⟨hs, .inr hw⟩
      · cases hw
  refine ⟨hs, fun w hjoin => ?_, ?_⟩
  · cases step_cases hjoin with
    | join _ hall =>
      have hended : ∀ p, v.workers[i]? = some p → p.isEnded = true :=
        fun p hp => List.all_eq_true.1 hall _ (List.mem_of_getElem? hp)
      rcases hw with hw | hw <;> cases hended _ hw
  · rcases hw with hw | hw
    · refine .inl ⟨hw, v.setPhase i .asleep, by simp only [Moves, step, hw], ?_⟩
      exact List.getElem?_set_self (List.getElem?_eq_some_iff.1 hw).1
    · exact .inr fun u hu => asleep_of_reach hw hs hu

/-- A pool of one worker, stopped in that moment. -/
theorem stop_hangs_one : ∃ s : State ℕ, Reach (Moves step) Always State.init s ∧
    ∃ t, Moves step s .notifyAll t ∧ ∀ v, Reach (Moves step) Quiet t v →
      v.stop = .notified ∧ (∀ w, ¬ Moves step v .join w) ∧
        ((v.workers[0]? = some .tested ∧
            ∃ u, Moves step v (.wait 0) u ∧ u.workers[0]? = some .asleep) ∨
          ∀ u, Reach (Moves step) Quiet v u → u.workers[0]? = some .asleep) := by
  obtain ⟨s, h, hp⟩ := exists_reach_of_run step Always (State.init : State ℕ)
    [.start 1, .check 0, .take 0, .stop]
    (fun s => decide (s.workers.map Phase.isTested = [true] ∧ s.stop = .flagged)) (by decide)
  obtain ⟨hworkers, hstop⟩ := of_decide_eq_true hp
  have hi : s.workers[0]? = some .tested := by
    cases hw : s.workers with
    | nil => rw [hw] at hworkers; cases hworkers
    | cons p l =>
      rw [hw] at hworkers
      cases p <;> first | rfl | (simp [Phase.isTested] at hworkers)
  exact ⟨s, h, stop_hangs hi hstop⟩

end ThreadPool
