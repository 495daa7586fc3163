import Fppnet.Thread.BlockingQueue

/-!
# Queues as parameters

A `Queue` is what a class template with a parameter `template <typename> class QUEUE` uses: a
monitor with `put` and `take`, of which `take` waits exactly while the queue is empty, and each
`put` lets one `take` go on. Both queues of `src/base/thread` are such.

Whatever else is called, what was taken and what is left is what was put, in that order
(`puts_eq`); and if only one thread takes, it does not sleep while there is something to take
(`eq_nil_of_asleep`).
-/

open Runs Checked Monitors

/-- A monitor that is a queue of `α`. -/
structure Queue (α S M K R ε : Type) [DecidableEq K] where
  mon : Monitor S M K R ε
  new : S
  contents : S → List α
  put : α → M
  take : M
  /-- what a call puts into the queue -/
  added : M → Option α
  /-- what a call took from it, by its result -/
  taken : M → R → Option α
  /-- the variable at which `take` waits -/
  notEmpty : K
  contents_new : contents new = []
  added_put : ∀ x, added (put x) = some x
  added_take : added take = none
  taken_put : ∀ x r, taken (put x) r = none
  taken_take : ∀ s r s', mon.act s take = .ok (r, s') → ∃ x, taken take r = some x
  act_ok : ∀ s m, mon.waits s m = false → ∃ r s', mon.act s m = .ok (r, s')
  act_contents : ∀ s m r s', mon.waits s m = false → mon.act s m = .ok (r, s') →
    contents s ++ (added m).toList = (taken m r).toList ++ contents s'
  waits_take : ∀ s, mon.waits s take = true ↔ contents s = []
  cond_take : mon.cond take = some notEmpty
  cond_put : ∀ x, mon.cond (put x) ≠ some notEmpty
  capacity : Capacity mon notEmpty fun s => (contents s).length

namespace Queue

variable {α S M K R ε τ : Type} [DecidableEq K] (q : Queue α S M K R ε)

/-- What the calls of a list have put, in the order in which they returned. -/
def puts (l : List (τ × M × R)) : List α := l.filterMap fun c => q.added c.2.1

/-- What they have taken. -/
def takes (l : List (τ × M × R)) : List α := l.filterMap fun c => q.taken c.2.1 c.2.2

variable {q} {s : State S M R τ}

theorem puts_append (l : List (τ × M × R)) (t : τ) (m : M) (r : R) :
    q.puts (l ++ [(t, m, r)]) = q.puts l ++ (q.added m).toList := by
  rw [puts, List.filterMap_append]
  cases h : q.added m <;> simp [puts, h]

theorem takes_append (l : List (τ × M × R)) (t : τ) (m : M) (r : R) :
    q.takes (l ++ [(t, m, r)]) = q.takes l ++ (q.taken m r).toList := by
  rw [takes, List.filterMap_append]
  cases h : q.taken m r <;> simp [takes, h]

variable [DecidableEq τ]

/-- The queue holds what was put and has not been taken, in the order in which it was put. -/
theorem puts_eq (h : Reach (Moves q.mon.step) Always (State.init q.new) s) :
    q.puts s.returned = q.takes s.returned ++ q.contents s.shared := by
  refine (Reach.sequential h).invariant
    (I := fun l x => q.puts l = q.takes l ++ q.contents x) q.contents_new.symm ?_
  intro l x t m r x' ih hw hact
  rw [puts_append, takes_append, ih, List.append_assoc, List.append_assoc,
    q.act_contents x m r x' hw hact]

/-- No call fails. -/
theorem no_error (h : Reach (Moves q.mon.step) Always (State.init q.new) s) (a : Label M τ)
    (e : ε) : q.mon.step s a ≠ some (.error e) := by
  refine Reach.no_error (I := fun _ => True) h trivial ?_ a e
  intro x m _ hw
  obtain ⟨r, x', hact⟩ := q.act_ok x m hw
  exact ⟨r, x', hact, trivial⟩

/-- The only thread that takes does not sleep while there is something to take. -/
theorem eq_nil_of_asleep (h : Reach (Moves q.mon.step) Always (State.init q.new) s) {t : τ}
    (hone : ∀ c ∈ s.inner, q.mon.cond c.2 = some q.notEmpty → c.1 = t)
    (hasleep : (t, q.take) ∈ s.asleep) : q.contents s.shared = [] := by
  have hat : s.sleepsAt q.mon q.notEmpty := ⟨_, hasleep, at_iff.2 q.cond_take⟩
  have hle := Reach.enough q.capacity h hat
  have hnone : s.wokenAt q.mon q.notEmpty = 0 := by
    refine List.countP_eq_zero.2 fun c hc hk => ?_
    have hct := hone c (List.mem_append_right _ hc) (at_iff.1 hk)
    have hdistinct := Reach.distinct h
    rw [State.Distinct, State.inner, List.map_append, List.nodup_append] at hdistinct
    exact hdistinct.2.2 t (List.mem_map.2 ⟨_, hasleep, rfl⟩) t (List.mem_map.2 ⟨c, hc, hct⟩) rfl
  exact List.eq_nil_of_length_eq_zero (by omega)

end Queue

/-- `BlockingQueue` -/
def BlockingQueue.queue (α : Type) : Queue α (List α) (Method α) Cond (Result α) Failure where
  mon := monitor
  new := []
  contents := id
  put := .put
  take := .take
  added
    | .put x => some x
    | _ => none
  taken
    | .take, .item x => some x
    | _, _ => none
  notEmpty := .notEmpty
  contents_new := rfl
  added_put _ := rfl
  added_take := rfl
  taken_put _ _ := rfl
  taken_take s r s' h := by
    cases s with
    | nil => cases h
    | cons x s =>
      cases h
      exact ⟨x, rfl⟩
  act_ok s m hw := by
    cases m with
    | put x => exact ⟨_, _, rfl⟩
    | size => exact ⟨_, _, rfl⟩
    | take =>
      cases s with
      | nil => cases hw
      | cons x s => exact ⟨_, _, rfl⟩
  act_contents s m r s' hw h := by
    cases m with
    | put x =>
      cases h
      simp
    | size =>
      cases h
      simp
    | take =>
      cases s with
      | nil => cases h
      | cons x s =>
        cases h
        simp
  waits_take s := List.isEmpty_iff
  cond_take := rfl
  cond_put _ := nofun
  capacity := BlockingQueue.capacity

/-- `BoundedBlockingQueue` -/
def BoundedBlockingQueue.queue (α : Type) (maxSize : ℕ) :
    Queue α (CircularBuffer α maxSize) (Method α) Cond (Result α) Failure where
  mon := monitor maxSize
  new := .empty
  contents := CircularBuffer.items
  put := .put
  take := .take
  added
    | .put x => some x
    | _ => none
  taken
    | .take, .item x => some x
    | _, _ => none
  notEmpty := .notEmpty
  contents_new := rfl
  added_put _ := rfl
  added_take := rfl
  taken_put _ _ := rfl
  taken_take s r s' h := by
    simp only [monitor, act] at h
    split at h
    · cases h
    · next x rest hitems =>
      cases h
      exact ⟨x, rfl⟩
  act_ok s m hw := by
    cases m with
    | put x => exact ⟨_, _, require_bind_ok.2 ⟨hw, rfl⟩⟩
    | take =>
      have hitems : s.items ≠ [] := by simpa [monitor] using hw
      obtain ⟨x, rest, hcons⟩ := List.exists_cons_of_ne_nil hitems
      refine ⟨.item x, s.popFront, ?_⟩
      simp only [monitor, act, hcons]
    | empty | full | size | capacity => exact ⟨_, _, rfl⟩
  act_contents s m r s' hw h := by
    rcases act_cases hw h with ⟨x, rfl, rfl, -, hitems⟩ | ⟨x, rfl, rfl, hitems⟩ | ⟨hm, rfl⟩
    · rw [hitems]
      rfl
    · rw [hitems]
      simp
    · cases m with
      | put x => exact hm.elim
      | take => exact hm.elim
      | empty | full | size | capacity => simp
  waits_take s := List.isEmpty_iff
  cond_take := rfl
  cond_put _ := nofun
  capacity := capacity_notEmpty
