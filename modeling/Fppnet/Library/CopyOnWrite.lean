import Mathlib.Tactic

/-!
# Copy on write

A value behind a shared pointer. Readers keep the pointer that they found; a writer changes the
value in place if nobody else holds the pointer, and a fresh copy of it otherwise. `held` are the
pointers of the readers.

* `write_value`: a write is a write to the value, whether it was copied or not;
* `heap_write`: what a reader holds stays as it was.
-/

namespace CopyOnWrite

universe u
variable {β : Type u}

/-- The values behind all pointers that were ever made, and the pointer to the last one. -/
structure Cell (β : Type u) where
  heap : ℕ → β
  current : ℕ
  next : ℕ

namespace Cell

def new (b : β) : Cell β := ⟨fun _ => b, 0, 1⟩

/-- The value that a reader finds. -/
def value (c : Cell β) : β := c.heap c.current

/-- Nobody else holds the pointer. -/
def Unique (c : Cell β) (held : List ℕ) : Prop := c.current ∉ held

instance (c : Cell β) (held : List ℕ) : Decidable (c.Unique held) :=
  inferInstanceAs (Decidable (_ ∉ _))

/-- The pointer becomes unique, if need be by a copy. -/
def copyOnWrite (c : Cell β) (held : List ℕ) : Cell β :=
  if c.Unique held then c
  else ⟨Function.update c.heap c.next c.value, c.next, c.next + 1⟩

/-- A change in place. -/
def set (c : Cell β) (f : β → β) : Cell β :=
  { c with heap := Function.update c.heap c.current (f c.value) }

/-- No pointer is ahead of those that were made. -/
structure Ok (c : Cell β) (held : List ℕ) : Prop where
  current : c.current < c.next
  held : ∀ l ∈ held, l < c.next

variable {c : Cell β} {held : List ℕ}

theorem new_ok (b : β) : (new b).Ok [] := ⟨Nat.one_pos, fun l hl => by cases hl⟩

theorem copyOnWrite_unique (h : c.Ok held) : (c.copyOnWrite held).Unique held := by
  unfold copyOnWrite
  split_ifs with hu
  · exact hu
  · intro hmem
    exact absurd (h.held _ hmem) (lt_irrefl _)

theorem copyOnWrite_ok (h : c.Ok held) : (c.copyOnWrite held).Ok held := by
  unfold copyOnWrite
  split_ifs
  · exact h
  · exact ⟨Nat.lt_succ_self _, fun l hl => (h.held l hl).trans (Nat.lt_succ_self _)⟩

theorem copyOnWrite_value (c : Cell β) (held : List ℕ) : (c.copyOnWrite held).value = c.value := by
  unfold copyOnWrite
  split_ifs
  · rfl
  · exact Function.update_self _ _ _

theorem heap_copyOnWrite (h : c.Ok held) {l : ℕ} (hl : l ∈ held) :
    (c.copyOnWrite held).heap l = c.heap l := by
  unfold copyOnWrite
  split_ifs
  · rfl
  · exact Function.update_of_ne (h.held l hl).ne _ _

/-- The copy, and then the change. -/
def write (c : Cell β) (held : List ℕ) (f : β → β) : Cell β := (c.copyOnWrite held).set f

theorem write_ok (h : c.Ok held) (f : β → β) : (c.write held f).Ok held :=
  ⟨(copyOnWrite_ok h).current, (copyOnWrite_ok h).held⟩

theorem write_value (c : Cell β) (held : List ℕ) (f : β → β) :
    (c.write held f).value = f c.value := by
  rw [← copyOnWrite_value c held]
  exact Function.update_self _ _ _

theorem heap_write (h : c.Ok held) (f : β → β) {l : ℕ} (hl : l ∈ held) :
    (c.write held f).heap l = c.heap l := by
  rw [← heap_copyOnWrite h hl]
  refine Function.update_of_ne ?_ _ _
  rintro rfl
  exact copyOnWrite_unique h hl

theorem Ok.mono {held' : List ℕ} (h : c.Ok held) (hsub : held' ⊆ held) : c.Ok held' :=
  ⟨h.current, fun l hl => h.held l (hsub hl)⟩

/-- One more reader. -/
theorem Ok.hold (h : c.Ok held) : c.Ok (held ++ [c.current]) := by
  refine ⟨h.current, fun l hl => ?_⟩
  rcases List.mem_append.1 hl with hl | hl
  · exact h.held l hl
  · rw [List.mem_singleton.1 hl]
    exact h.current

end Cell

end CopyOnWrite
