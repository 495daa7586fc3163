import Mathlib.Tactic

/-!
# Lower bound by halving

The search of `std::lower_bound`: `below i` says that the element at position `i` comes before the
value that is looked for, and `lowerBound below n` is found with as many tests as `n` can be halved.
If the positions `below` come first, it is the number of them (`lowerBound_spec`), whatever the
elements are.
-/

namespace Search

/-- The search among the `count` positions from `first` on. -/
def lowerBoundFrom (below : ℕ → Bool) (first count : ℕ) : ℕ :=
  if h : 0 < count then
    let step := count / 2
    if below (first + step) then lowerBoundFrom below (first + step + 1) (count - (step + 1))
    else lowerBoundFrom below first step
  else first
termination_by count
decreasing_by
  · omega
  · omega

/-- The search among the positions below `n`. -/
def lowerBound (below : ℕ → Bool) (n : ℕ) : ℕ := lowerBoundFrom below 0 n

variable {below : ℕ → Bool} {n : ℕ}

/-- Among the first `n` positions those `below` come first. -/
def Partitioned (below : ℕ → Bool) (n : ℕ) : Prop :=
  ∀ i j, i ≤ j → j < n → below j = true → below i = true

theorem lowerBoundFrom_spec (hp : Partitioned below n) {first count : ℕ} (hle : first + count ≤ n)
    (hbefore : ∀ i < first, below i = true)
    (hafter : ∀ i, first + count ≤ i → i < n → below i = false) :
    lowerBoundFrom below first count ≤ n ∧
      ∀ i < n, below i = true ↔ i < lowerBoundFrom below first count := by
  induction first, count using lowerBoundFrom.induct below with
  | case1 first count hpos step hbelow ih =>
    rw [lowerBoundFrom, dif_pos hpos]
    simp only [step] at hbelow ih
    rw [if_pos hbelow]
    refine ih (by omega) ?_ ?_
    · intro i hi
      exact hp i (first + count / 2) (by omega) (by omega) hbelow
    · intro i hi hin
      exact hafter i (by omega) hin
  | case2 first count hpos step hbelow ih =>
    rw [lowerBoundFrom, dif_pos hpos]
    simp only [step] at hbelow ih
    rw [if_neg hbelow]
    refine ih (by omega) hbefore ?_
    intro i hi hin
    by_contra htrue
    rw [Bool.not_eq_false] at htrue
    exact hbelow (hp (first + count / 2) i hi hin htrue)
  | case3 first count hzero =>
    rw [lowerBoundFrom, dif_neg hzero]
    refine ⟨by omega, ?_⟩
    intro i hin
    constructor
    · intro htrue
      by_contra hge
      rw [hafter i (by omega) hin] at htrue
      cases htrue
    · exact hbefore i

/-- The search finds the first position that is not `below`, or `n`. -/
theorem lowerBound_spec (hp : Partitioned below n) :
    lowerBound below n ≤ n ∧ ∀ i < n, below i = true ↔ i < lowerBound below n :=
  lowerBoundFrom_spec hp (by omega) nofun (by omega)

/-- Whatever the order of the positions, the search ends behind one that is `below`, or at the
first, and in front of one that is not, or at the end. -/
theorem lowerBoundFrom_boundary (below : ℕ → Bool) (first count : ℕ) :
    first ≤ lowerBoundFrom below first count ∧ lowerBoundFrom below first count ≤ first + count ∧
      (first < lowerBoundFrom below first count →
        below (lowerBoundFrom below first count - 1) = true) ∧
      (lowerBoundFrom below first count < first + count →
        below (lowerBoundFrom below first count) = false) := by
  induction first, count using lowerBoundFrom.induct below with
  | case1 first count hpos step hbelow ih =>
    rw [lowerBoundFrom, dif_pos hpos]
    simp only [step] at hbelow ih
    rw [if_pos hbelow]
    obtain ⟨hge, hle, hbefore, hafter⟩ := ih
    refine ⟨by omega, by omega, ?_, fun hlt => hafter (by omega)⟩
    intro hlt
    rcases hge.eq_or_lt with heq | hlt'
    · rw [← heq, Nat.add_sub_cancel]
      exact hbelow
    · exact hbefore hlt'
  | case2 first count hpos step hbelow ih =>
    rw [lowerBoundFrom, dif_pos hpos]
    simp only [step] at hbelow ih
    rw [if_neg hbelow]
    obtain ⟨hge, hle, hbefore, hafter⟩ := ih
    refine ⟨hge, by omega, hbefore, ?_⟩
    intro hlt
    rcases hle.eq_or_lt with heq | hlt'
    · rw [heq]
      exact Bool.eq_false_iff.2 hbelow
    · exact hafter hlt'
  | case3 first count hzero =>
    rw [lowerBoundFrom, dif_neg hzero]
    exact ⟨le_refl _, by omega, fun hlt => absurd hlt (lt_irrefl _), fun hlt => by omega⟩

theorem lowerBound_boundary (below : ℕ → Bool) (n : ℕ) :
    lowerBound below n ≤ n ∧
      (0 < lowerBound below n → below (lowerBound below n - 1) = true) ∧
      (lowerBound below n < n → below (lowerBound below n) = false) := by
  have h := lowerBoundFrom_boundary below 0 n
  rw [Nat.zero_add] at h
  exact h.2

end Search
