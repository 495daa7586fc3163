import Mathlib.Tactic
import Mathlib.Data.List.Sort

/-!
# Ordered sets

`SortedSet α` is the ordered set of a program (`std::set`): a strictly increasing list, in the order
in which iteration visits it. `insert` and `erase` also return what the program's operations return,
whether an element was inserted and how many were erased; `below` and `above` are the two sides of
`lower_bound`.
-/

universe u

/-- A strictly increasing list. -/
structure SortedSet (α : Type u) [LinearOrder α] where
  toList : List α
  sorted : toList.Pairwise (· < ·)

namespace SortedSet

variable {α : Type u} [LinearOrder α]

def empty : SortedSet α := ⟨[], List.Pairwise.nil⟩

instance : Membership α (SortedSet α) := ⟨fun s a => a ∈ s.toList⟩

instance (a : α) (s : SortedSet α) : Decidable (a ∈ s) :=
  inferInstanceAs (Decidable (a ∈ s.toList))

theorem mem_toList {a : α} {s : SortedSet α} : a ∈ s.toList ↔ a ∈ s := Iff.rfl

theorem nodup (s : SortedSet α) : s.toList.Nodup := s.sorted.imp ne_of_lt

@[simp] theorem not_mem_empty (a : α) : a ∉ (empty : SortedSet α) := List.not_mem_nil

def size (s : SortedSet α) : ℕ := s.toList.length

/-- The first element in iteration order. -/
def begin? (s : SortedSet α) : Option α := s.toList.head?

theorem orderedInsert_sorted {l : List α} (h : l.Pairwise (· < ·)) {a : α} (ha : a ∉ l) :
    (l.orderedInsert (· ≤ ·) a).Pairwise (· < ·) := by
  have hle : (l.orderedInsert (· ≤ ·) a).Pairwise (· ≤ ·) := (h.imp le_of_lt).orderedInsert a l
  have hnd : (l.orderedInsert (· ≤ ·) a).Nodup :=
    (List.perm_orderedInsert (· ≤ ·) a l).nodup_iff.2 (List.nodup_cons.2 ⟨ha, h.imp ne_of_lt⟩)
  exact hle.imp₂ (fun _ _ hab hne => lt_of_le_of_ne hab hne) hnd

/-- The set with `a`, and whether `a` is new. -/
def insert (s : SortedSet α) (a : α) : SortedSet α × Bool :=
  if h : a ∈ s.toList then (s, false)
  else (⟨s.toList.orderedInsert (· ≤ ·) a, orderedInsert_sorted s.sorted h⟩, true)

/-- The set without `a`, and how many elements that took away. -/
def erase (s : SortedSet α) (a : α) : SortedSet α × ℕ :=
  (⟨s.toList.erase a, s.sorted.sublist List.erase_sublist⟩, if a ∈ s then 1 else 0)

/-- The elements before the lower bound of `a`. -/
def below (s : SortedSet α) (a : α) : List α := s.toList.takeWhile (· < a)

/-- The set from the lower bound of `a` on. -/
def above (s : SortedSet α) (a : α) : SortedSet α :=
  ⟨s.toList.dropWhile (· < a), s.sorted.sublist (List.dropWhile_sublist _)⟩

/-! ### Insertion and erasure -/

theorem insert_new {s : SortedSet α} {a : α} (h : a ∉ s) :
    (s.insert a).2 = true ∧ (s.insert a).1.size = s.size + 1 ∧
      ∀ b, b ∈ (s.insert a).1 ↔ b = a ∨ b ∈ s := by
  have h' : a ∉ s.toList := h
  unfold insert
  rw [dif_neg h']
  refine ⟨rfl, List.orderedInsert_length _ _ _, fun b => ?_⟩
  exact List.mem_orderedInsert _

theorem mem_insert {s : SortedSet α} {a b : α} : b ∈ (s.insert a).1 ↔ b = a ∨ b ∈ s := by
  by_cases h : a ∈ s
  · have h' : a ∈ s.toList := h
    rw [insert, dif_pos h']
    constructor
    · exact .inr
    · rintro (rfl | hb)
      · exact h
      · exact hb
  · exact (insert_new h).2.2 b

theorem erase_present {s : SortedSet α} {a : α} (h : a ∈ s) :
    (s.erase a).2 = 1 ∧ (s.erase a).1.size + 1 = s.size ∧
      ∀ b, b ∈ (s.erase a).1 ↔ b ≠ a ∧ b ∈ s := by
  refine ⟨if_pos h, ?_, fun b => s.nodup.mem_erase_iff⟩
  have hpos : 0 < s.toList.length := List.length_pos_of_mem h
  simp only [erase, size, List.length_erase_of_mem h]
  omega

theorem mem_erase {s : SortedSet α} {a b : α} : b ∈ (s.erase a).1 ↔ b ≠ a ∧ b ∈ s :=
  s.nodup.mem_erase_iff

/-! ### The first element -/

theorem begin?_eq_none {s : SortedSet α} : s.begin? = none ↔ ∀ a, a ∉ s := by
  unfold begin?
  rw [List.head?_eq_none_iff, List.eq_nil_iff_forall_not_mem]
  exact Iff.rfl

theorem begin?_eq_some {s : SortedSet α} {a : α} :
    s.begin? = some a ↔ a ∈ s ∧ ∀ b ∈ s, a ≤ b := by
  constructor
  · intro h
    obtain ⟨l, hl⟩ := List.head?_eq_some_iff.1 h
    have hs := s.sorted
    rw [hl, List.pairwise_cons] at hs
    have hmem : ∀ b, b ∈ s ↔ b = a ∨ b ∈ l := fun b => by
      rw [← mem_toList, hl, List.mem_cons]
    refine ⟨(hmem a).2 (.inl rfl), fun b hb => ?_⟩
    rcases (hmem b).1 hb with rfl | hb
    · exact le_rfl
    · exact le_of_lt (hs.1 b hb)
  · rintro ⟨hmem, hle⟩
    cases hb : s.begin? with
    | none => exact absurd hmem (begin?_eq_none.1 hb a)
    | some b =>
      obtain ⟨l, hl⟩ := List.head?_eq_some_iff.1 hb
      have hs := s.sorted
      rw [hl, List.pairwise_cons] at hs
      have hbs : b ∈ s := by
        rw [← mem_toList, hl]
        exact List.mem_cons_self
      rcases List.mem_cons.1 (hl ▸ mem_toList.2 hmem) with h | h
      · rw [h]
      · exact absurd (hs.1 a h) (not_lt.2 (hle b hbs))

/-! ### The lower bound -/

theorem below_append_above (s : SortedSet α) (a : α) :
    s.below a ++ (s.above a).toList = s.toList := List.takeWhile_append_dropWhile

theorem mem_below {s : SortedSet α} {a b : α} : b ∈ s.below a ↔ b ∈ s ∧ b < a := by
  rw [← mem_toList]
  obtain ⟨l, hl⟩ := s
  simp only [below]
  induction l with
  | nil => simp
  | cons c l ih =>
    rw [List.pairwise_cons] at hl
    by_cases hc : c < a
    · rw [List.takeWhile_cons_of_pos (by simpa using hc), List.mem_cons, List.mem_cons,
        ih hl.2]
      constructor
      · rintro (rfl | ⟨hb, hlt⟩)
        · exact ⟨.inl rfl, hc⟩
        · exact ⟨.inr hb, hlt⟩
      · rintro ⟨rfl | hb, hlt⟩
        · exact .inl rfl
        · exact .inr ⟨hb, hlt⟩
    · rw [List.takeWhile_cons_of_neg (by simpa using hc)]
      constructor
      · intro h
        cases h
      · rintro ⟨hb, hlt⟩
        rcases List.mem_cons.1 hb with rfl | hb
        · exact absurd hlt hc
        · exact absurd ((hl.1 b hb).trans hlt) hc

theorem mem_above {s : SortedSet α} {a b : α} : b ∈ s.above a ↔ b ∈ s ∧ a ≤ b := by
  have hnd := s.nodup
  rw [← below_append_above s a, List.nodup_append] at hnd
  have hsplit : b ∈ s ↔ b ∈ s.below a ∨ b ∈ s.above a := by
    rw [← mem_toList, ← below_append_above s a, List.mem_append, mem_toList]
  constructor
  · intro h
    refine ⟨hsplit.2 (.inr h), not_lt.1 fun hlt => ?_⟩
    exact hnd.2.2 b (mem_below.2 ⟨hsplit.2 (.inr h), hlt⟩) b h rfl
  · rintro ⟨hs, hle⟩
    rcases hsplit.1 hs with h | h
    · exact absurd (mem_below.1 h).2 (not_lt.2 hle)
    · exact h

theorem below_nodup (s : SortedSet α) (a : α) : (s.below a).Nodup :=
  s.nodup.sublist (List.takeWhile_sublist _)

theorem size_above (s : SortedSet α) (a : α) :
    (s.below a).length + (s.above a).size = s.size := by
  rw [size, size, ← List.length_append, below_append_above]

end SortedSet
