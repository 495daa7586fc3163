import Mathlib.Data.Int.CardIntervalMod
import Mathlib.Tactic

/-!
# Taking turns

The elements of a list take turns: at `n` it is the turn of the element at `n % length`.

* `nextTurn_mod`: a position that is counted up and put back to zero at the end is `n % length`;
* `count_turn`: among the first `n` turns the elements of a list without repetitions have the same
  number of turns, but for the remainder that the elements in front have got;
* `count_turn_le`: no element is ahead of another by more than one turn.
-/

variable {α : Type*}

/-- Whose turn it is at `n`; `d` when there is nobody. -/
def turn (d : α) (xs : List α) (n : ℕ) : α := xs.getD (n % xs.length) d

/-- The position after `i` of `k`, in a circle. -/
def nextTurn (k i : ℕ) : ℕ := if k ≤ i + 1 then 0 else i + 1

theorem turn_nil (d : α) (n : ℕ) : turn d [] n = d := rfl

theorem turn_eq_get (d : α) {xs : List α} {n i : ℕ} (hi : i = n % xs.length) (h : i < xs.length) :
    turn d xs n = xs.get ⟨i, h⟩ := by
  subst hi
  rw [turn, List.getD_eq_getElem?_getD, List.getElem?_eq_getElem h]
  rfl

theorem nextTurn_mod {k : ℕ} (h : 0 < k) (n : ℕ) : nextTurn k (n % k) = (n + 1) % k := by
  unfold nextTurn
  rw [Nat.add_mod_eq_ite]
  rcases Nat.lt_or_ge 1 k with h1 | h1
  · rw [Nat.mod_eq_of_lt h1]
    have hn := Nat.mod_lt n h
    split_ifs <;> omega
  · obtain rfl : k = 1 := Nat.le_antisymm h1 h
    simp [Nat.mod_one]

/-- Turns of an element of a list without repetitions. -/
theorem turn_eq_iff (d : α) {xs : List α} (hnodup : xs.Nodup) {i : ℕ} (hi : i < xs.length)
    (n : ℕ) : turn d xs n = xs.get ⟨i, hi⟩ ↔ n ≡ i [MOD xs.length] := by
  rw [turn_eq_get d rfl (Nat.mod_lt n (Nat.zero_lt_of_lt hi)),
    List.Nodup.get_inj_iff hnodup, Fin.mk.injEq, Nat.ModEq, Nat.mod_eq_of_lt hi]

section Count

variable [DecidableEq α]

/-- The turns of the element at `i` among the first `n`. -/
theorem count_turn (d : α) {xs : List α} (hnodup : xs.Nodup) {i : ℕ} (hi : i < xs.length) (n : ℕ) :
    Nat.count (fun j => turn d xs j = xs.get ⟨i, hi⟩) n =
      n / xs.length + if i < n % xs.length then 1 else 0 := by
  have hmod := Nat.count_modEq_card n (Nat.zero_lt_of_lt hi) i
  rw [Nat.mod_eq_of_lt hi] at hmod
  rw [← hmod, Nat.count_eq_card_filter_range, Nat.count_eq_card_filter_range]
  simp only [turn_eq_iff d hnodup hi]

/-- No element is ahead of another by more than one turn. -/
theorem count_turn_le (d : α) {xs : List α} (hnodup : xs.Nodup) {x y : α} (hx : x ∈ xs)
    (hy : y ∈ xs) (n : ℕ) :
    Nat.count (fun j => turn d xs j = x) n ≤ Nat.count (fun j => turn d xs j = y) n + 1 := by
  obtain ⟨⟨i, hi⟩, rfl⟩ := List.mem_iff_get.1 hx
  obtain ⟨⟨j, hj⟩, rfl⟩ := List.mem_iff_get.1 hy
  rw [count_turn d hnodup hi, count_turn d hnodup hj]
  split_ifs <;> omega

end Count
