import Mathlib.Tactic

/-!
# Positions in an array

`Inverse l pos`: the list `l` has no element twice, and `pos` is the position of each of its
elements. The lemmas keep the positions right when an element is appended and when one is removed by
moving the last element to its place; `pop_perm` and `swapRemove_perm` say that such a removal takes
one element out of the list.
-/

namespace Positions

universe u
variable {α : Type u}

/-- `pos` gives the position of every element of `l`, and of no other. -/
def Inverse (l : List α) (pos : α → Option ℕ) : Prop := ∀ a i, pos a = some i ↔ l[i]? = some a

theorem Inverse.nil : Inverse ([] : List α) fun _ => none := fun a i => by simp

namespace Inverse

variable {l : List α} {pos : α → Option ℕ}

theorem lt_length (h : Inverse l pos) {a : α} {i : ℕ} (ha : pos a = some i) : i < l.length :=
  (List.getElem?_eq_some_iff.1 ((h a i).1 ha)).1

/-- Two elements at one position are the same. -/
theorem injective (h : Inverse l pos) {a b : α} {i : ℕ} (ha : pos a = some i)
    (hb : pos b = some i) : a = b := by
  have hi := (h a i).1 ha
  rw [(h b i).1 hb] at hi
  exact (Option.some.inj hi).symm

theorem nodup (h : Inverse l pos) : l.Nodup := by
  rw [List.nodup_iff_getElem?_ne_getElem?]
  intro i j hij hj hsame
  have ha := List.getElem?_eq_getElem hj
  have hi := (h _ i).2 (hsame.trans ha)
  rw [(h _ j).2 ha] at hi
  have := Option.some.inj hi
  omega

theorem mem_iff (h : Inverse l pos) {a : α} : a ∈ l ↔ pos a ≠ none := by
  rw [List.mem_iff_getElem?, Option.ne_none_iff_exists']
  exact exists_congr fun i => (h a i).symm

/-- There are as many elements with a position as places. -/
theorem encard (h : Inverse l pos) : {a | pos a ≠ none}.encard = l.length := by
  classical
  have hset : {a | pos a ≠ none} = (l.toFinset : Set α) := by
    ext a
    rw [List.coe_toFinset]
    exact h.mem_iff.symm
  rw [hset, Set.encard_coe_eq_coe_finsetCard, List.toFinset_card_of_nodup h.nodup]

variable [DecidableEq α]

theorem push (h : Inverse l pos) {a : α} (ha : pos a = none) :
    Inverse (l ++ [a]) (Function.update pos a (some l.length)) := by
  intro b i
  by_cases hb : b = a
  · subst hb
    rw [Function.update_self]
    constructor
    · intro hi
      rw [← Option.some.inj hi]
      simp
    · intro hi
      by_cases hlt : i < l.length
      · rw [List.getElem?_append_left hlt, ← h b i, ha] at hi
        cases hi
      · have hle := (List.getElem?_eq_some_iff.1 hi).1
        rw [List.length_append, List.length_singleton] at hle
        congr
        omega
  · rw [Function.update_of_ne hb, h b i]
    by_cases hlt : i < l.length
    · rw [List.getElem?_append_left hlt]
    · rw [List.getElem?_append_right (Nat.not_lt.1 hlt), List.getElem?_eq_none (Nat.not_lt.1 hlt),
        List.getElem?_singleton]
      split_ifs
      · exact iff_of_false (by simp) (by simpa using Ne.symm hb)
      · rfl

/-- The last element is removed. -/
theorem pop (h : Inverse l pos) {a : α} (ha : pos a = some (l.length - 1)) :
    Inverse l.dropLast (Function.update pos a none) := by
  intro b i
  by_cases hb : b = a
  · subst hb
    rw [Function.update_self]
    refine iff_of_false (by simp) fun hi => ?_
    obtain ⟨hlt, -⟩ := List.getElem?_eq_some_iff.1 hi
    rw [List.length_dropLast] at hlt
    rw [List.getElem?_dropLast, if_pos hlt, ← h b i, ha] at hi
    have := Option.some.inj hi
    omega
  · rw [Function.update_of_ne hb, h b i, List.getElem?_dropLast]
    split_ifs with hlt
    · rfl
    · refine iff_of_false (fun hi => ?_) (by simp)
      have hlast : i = l.length - 1 := by
        have := (List.getElem?_eq_some_iff.1 hi).1
        omega
      rw [← h b i, hlast] at hi
      exact hb (h.injective hi ha)

/-- An element is removed, and the last one takes its place. -/
theorem swapRemove (h : Inverse l pos) {a b : α} {i : ℕ} (ha : pos a = some i)
    (hb : pos b = some (l.length - 1)) (hne : b ≠ a) :
    Inverse (l.set i b).dropLast (Function.update (Function.update pos a none) b (some i)) := by
  have hia := h.lt_length ha
  have hlt : i < l.length - 1 := by
    rcases Nat.lt_or_ge i (l.length - 1) with hlt | hge
    · exact hlt
    · have hi : i = l.length - 1 := by omega
      rw [← hi] at hb
      exact absurd (h.injective hb ha) hne
  intro c j
  rw [List.getElem?_dropLast, List.length_set]
  by_cases hc : c = b
  · subst hc
    rw [Function.update_self]
    constructor
    · intro hj
      cases hj
      rw [if_pos hlt, List.getElem?_set_self hia]
    · intro hj
      split_ifs at hj with hjlt
      by_cases hij : i = j
      · rw [hij]
      · rw [List.getElem?_set_ne hij, ← h c j, hb] at hj
        have := Option.some.inj hj
        omega
  · rw [Function.update_of_ne hc]
    by_cases hca : c = a
    · subst hca
      rw [Function.update_self]
      refine iff_of_false (by simp) fun hj => ?_
      split_ifs at hj with hjlt
      by_cases hij : i = j
      · subst hij
        rw [List.getElem?_set_self hia] at hj
        exact hne (Option.some.inj hj)
      · rw [List.getElem?_set_ne hij, ← h c j, ha] at hj
        exact hij (Option.some.inj hj)
    · rw [Function.update_of_ne hca]
      split_ifs with hjlt
      · by_cases hij : i = j
        · subst hij
          rw [List.getElem?_set_self hia]
          refine iff_of_false (fun hci => hca (h.injective hci ha)) fun hbc => ?_
          exact hc (Option.some.inj hbc).symm
        · rw [List.getElem?_set_ne hij, h c j]
      · refine iff_of_false (fun hj => ?_) (by simp)
        have hj' := h.lt_length hj
        have hlast : j = l.length - 1 := by omega
        rw [hlast] at hj
        exact hc (h.injective hj hb)

end Inverse

/-! ### What is left in the list -/

variable {l : List α}

theorem pop_perm {a : α} (ha : l.getLast? = some a) : (a :: l.dropLast).Perm l := by
  have hl := List.dropLast_append_getLast? a ha
  calc (a :: l.dropLast).Perm (l.dropLast ++ [a]) := (List.perm_append_singleton a l.dropLast).symm
    _ = l := hl

theorem swapRemove_perm {a b : α} {i : ℕ} (ha : l[i]? = some a) (hb : l.getLast? = some b)
    (hi : i ≠ l.length - 1) : (a :: (l.set i b).dropLast).Perm l := by
  obtain ⟨hlt, hget⟩ := List.getElem?_eq_some_iff.1 ha
  have hlt' : i < l.dropLast.length := by
    rw [List.length_dropLast]
    omega
  have hget' : l.dropLast[i] = a := by rw [List.getElem_dropLast, hget]
  have hset : (l.set i b).dropLast = l.dropLast.set i b := by
    rw [List.dropLast_eq_take, List.dropLast_eq_take, List.length_set, List.take_set]
  calc (a :: (l.set i b).dropLast).Perm (a :: b :: l.dropLast.eraseIdx i) := by
        rw [hset]
        exact (List.set_perm_cons_eraseIdx hlt' b).cons a
    _ |>.Perm (b :: a :: l.dropLast.eraseIdx i) := List.Perm.swap b a _
    _ |>.Perm (b :: l.dropLast) := by
        rw [← hget']
        exact (List.getElem_cons_eraseIdx_perm hlt').cons b
    _ |>.Perm l := pop_perm hb

end Positions
