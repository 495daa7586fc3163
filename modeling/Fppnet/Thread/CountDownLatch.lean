import Fppnet.Library.Monitor
import Fppnet.Library.MachineInt

/-!
# `CountDownLatch`

A monitor with one condition variable, which is notified as a whole when the count reaches zero
(`src/base/thread/CountDownLatch.h`). The count is an `int`, which `countDown` decrements also when
it is zero. `CountDownLatch.opens` is about any number of threads that count down and wait in any
order: no `wait` returns before the count is used up, afterwards no thread is left asleep, and the
count overflows only when it has been counted down `2 ^ 31` times more.
-/

open Runs Checked Monitors MachineInt

namespace CountDownLatch

inductive Method
  | wait
  | countDown
  | getCount
  deriving DecidableEq

inductive Result
  | unit
  | count (n : ℤ)
  deriving DecidableEq

/-- `condition_`. -/
inductive Cond
  | condition
  deriving DecidableEq

inductive Failure
  /-- `--count_` of the least `int` -/
  | signedOverflow
  deriving DecidableEq

/-- The body of a method behind its loop, on `count_`. -/
def act (count : ℤ) : Method → Except Failure (Result × ℤ)
  | .wait => .ok (.unit, count)
  | .countDown =>
    match int (count - 1) with
    | some count => .ok (.unit, count)
    | none => .error .signedOverflow
  | .getCount => .ok (.count count, count)

/-- The latch with its mutex and its condition variable. -/
def monitor : Monitor ℤ Method Cond Result Failure where
  waits count
    | .wait => decide (0 < count)
    | _ => false
  cond
    | .wait => some .condition
    | _ => none
  act := act
  notice count
    | .countDown => if count = 0 then .all .condition else .nobody
    | _ => .nobody

variable {τ : Type}

/-- How often the calls of a list have counted down. -/
def countDowns (l : List (τ × Method × Result)) : ℕ := l.countP fun c => c.2.1 = .countDown

/-- Every `wait` of the list returned after at least `n` calls of `countDown`. -/
def Waited (n : ℤ) (l : List (τ × Method × Result)) : Prop :=
  ∀ before t r after, l = before ++ (t, .wait, r) :: after → n ≤ countDowns before

theorem Waited.snoc {n : ℤ} {l : List (τ × Method × Result)} (h : Waited n l)
    {c : τ × Method × Result} (hc : c.2.1 = .wait → n ≤ countDowns l) : Waited n (l ++ [c]) := by
  intro before t r after heq
  rcases List.eq_nil_or_concat after with rfl | ⟨init, last, rfl⟩
  · obtain ⟨rfl, hlast⟩ := List.append_inj' heq rfl
    cases hlast
    exact hc rfl
  · rw [List.concat_eq_append, ← List.cons_append, ← List.append_assoc] at heq
    obtain ⟨hl, -⟩ := List.append_inj' heq rfl
    exact h before t r init hl

/-- `countDown` fails, or the count is one less. -/
theorem act_countDown {count : ℤ} {x : Except Failure (Result × ℤ)}
    (h : act count .countDown = x) :
    (¬ IsInt (count - 1) ∧ x = .error .signedOverflow) ∨
      (IsInt (count - 1) ∧ x = .ok (.unit, count - 1)) := by
  unfold act at h
  by_cases hint : IsInt (count - 1)
  · rw [int_of hint] at h
    exact Or.inr ⟨hint, h.symm⟩
  · rw [int_of_not hint] at h
    exact Or.inl ⟨hint, h.symm⟩

/-- The count tells how often it was counted down, and holds back every `wait`. -/
theorem Sequential.counts {n count : ℤ} {l : List (τ × Method × Result)}
    (h : Sequential monitor n l count) : count = n - countDowns l ∧ Waited n l := by
  refine h.invariant (I := fun l count => count = n - countDowns l ∧ Waited n l)
    ⟨by simp [countDowns], ?_⟩ ?_
  · intro before t r after hnil
    simp at hnil
  rintro l count t m r count' ⟨hcount, hwaited⟩ hw hact
  cases m with
  | wait =>
    cases hact
    have hzero : count ≤ 0 := by simpa [monitor] using hw
    refine ⟨by simpa [countDowns] using hcount, hwaited.snoc fun _ => ?_⟩
    omega
  | countDown =>
    obtain ⟨-, hok⟩ | ⟨-, hok⟩ := act_countDown hact
    · cases hok
    cases hok
    refine ⟨?_, hwaited.snoc nofun⟩
    simp only [countDowns, List.countP_append, List.countP_singleton, decide_true, if_true] at *
    push_cast
    omega
  | getCount =>
    cases hact
    exact ⟨by simpa [countDowns] using hcount, hwaited.snoc nofun⟩

/-- Only the step to zero lets a `wait` go on, and it wakes all. -/
theorem broadcasts : Broadcasts monitor .condition := by
  intro count m r count' m' _ hact hm' hbefore hafter
  cases m' with
  | countDown => cases hm'
  | getCount => cases hm'
  | wait =>
    have hpos : 0 < count := by simpa [monitor] using hbefore
    have hzero : count' ≤ 0 := by simpa [monitor] using hafter
    cases m with
    | wait => cases hact; omega
    | getCount => cases hact; omega
    | countDown =>
      obtain ⟨-, hok⟩ | ⟨-, hok⟩ := act_countDown hact
      · cases hok
      · cases hok
        exact if_pos (by omega)

variable [DecidableEq τ]

/-- Only `wait` waits. -/
theorem inside_wait {n : ℤ} {s : State ℤ Method Result τ}
    (h : Reach (Moves monitor.step) Always (State.init n) s) : s.Inside (· = .wait) := by
  refine Reach.inside h ?_
  intro count m hw
  cases m with
  | wait => rfl
  | countDown => cases hw
  | getCount => cases hw

/-- A latch of count `n` lets no `wait` return before `n` calls of `countDown` have, and leaves no
thread asleep after them. A step fails only when `count_` overflows, after `n + 2 ^ 31` calls. -/
theorem opens {n : ℤ} (hn : IsInt n) {s : State ℤ Method Result τ}
    (h : Reach (Moves monitor.step) Always (State.init n) s) :
    s.shared = n - countDowns s.returned ∧ Waited n s.returned ∧
      (n ≤ countDowns s.returned → s.asleep = []) ∧
      ∀ a e, monitor.step s a = some (.error e) → n + 2 ^ 31 ≤ countDowns s.returned := by
  obtain ⟨hcount, hwaited⟩ := Sequential.counts (Reach.sequential h)
  refine ⟨hcount, hwaited, ?_, fun a e he => ?_⟩
  swap
  · obtain ⟨m, -, hact⟩ := step_error he
    cases m with
    | wait => cases hact
    | getCount => cases hact
    | countDown =>
      obtain ⟨hint, -⟩ | ⟨-, hok⟩ := act_countDown hact
      · have hnonneg : 0 ≤ (countDowns s.returned : ℤ) := Int.natCast_nonneg _
        rw [hcount] at hint
        unfold IsInt at hint hn
        omega
      · cases hok
  intro hle
  rw [List.eq_nil_iff_forall_not_mem]
  intro c hc
  have hm := (inside_wait h).1 c hc
  have hmust := Reach.asleep_waits broadcasts h c hc (hm ▸ rfl)
  rw [hm] at hmust
  have hpos : 0 < s.shared := by simpa [monitor] using hmust
  omega

/-- Two threads wait for a count of two; the second `countDown` wakes both. -/
theorem opens_two : ∃ s : State ℤ Method Result ℕ,
    Reach (Moves monitor.step) Always (State.init 2) s ∧ s.woken = [] ∧ s.shared = 0 ∧
      s.shared = 2 - countDowns s.returned ∧ Waited 2 s.returned ∧
      (2 ≤ (countDowns s.returned : ℤ) → s.asleep = []) ∧
      ∀ a e, monitor.step s a = some (.error e) → 2 + 2 ^ 31 ≤ (countDowns s.returned : ℤ) := by
  obtain ⟨s, h, hp⟩ := exists_reach_of_run monitor.step Always (State.init 2)
    [.call 0 .wait none, .call 1 .wait none, .call 2 .countDown none, .spurious 0,
      .resume 0 none, .call 2 .countDown none, .resume 0 none, .resume 0 none]
    (fun s => decide (s.woken = [] ∧ s.shared = 0)) (by decide)
  obtain ⟨hwoken, hzero⟩ := of_decide_eq_true hp
  exact ⟨s, h, hwoken, hzero, opens (by decide) h⟩

end CountDownLatch
