import Mathlib.Tactic

/-!
# Checked computations

A computation that may abort is an `Except ε`: the error names the check that failed.
`require c e` is an assertion. The lemmas take a successful computation apart
(`bind_eq_ok`, `require_eq_ok`) and run one whose checks are known to hold.
-/

namespace Checked

universe u
variable {ε : Type u} {α β : Type}

/-- An assertion: go on if `c` holds, fail with `e` otherwise. -/
def require (c : Prop) [Decidable c] (e : ε) : Except ε Unit := if c then .ok () else .error e

@[simp] theorem require_eq_ok {c : Prop} [Decidable c] {e : ε} {x : Unit} :
    require c e = .ok x ↔ c := by
  unfold require
  split_ifs with h <;> simp [h]

theorem require_of {c : Prop} [Decidable c] {e : ε} (h : c) : require c e = .ok () := if_pos h

@[simp] theorem ok_bind (a : α) (f : α → Except ε β) : (Except.ok a >>= f) = f a := rfl

@[simp] theorem error_bind (e : ε) (f : α → Except ε β) : (Except.error e >>= f) = .error e := rfl

@[simp] theorem pure_eq_ok (a : α) : (pure a : Except ε α) = .ok a := rfl

@[simp] theorem mapError_ok {ε' : Type u} (f : ε → ε') (a : α) :
    (Except.ok a : Except ε α).mapError f = .ok a := rfl

/-- A sequence succeeds when its first part does and the rest does on its result. -/
theorem bind_eq_ok {x : Except ε α} {f : α → Except ε β} {b : β} :
    (x >>= f) = .ok b ↔ ∃ a, x = .ok a ∧ f a = .ok b := by
  cases x with
  | error e => simp
  | ok a => simp

theorem map_eq_ok {f : α → β} {e : Except ε α} {b : β} :
    e.map f = .ok b ↔ ∃ a, e = .ok a ∧ f a = b := by
  cases e <;> simp [Except.map]

theorem map_eq_error {f : α → β} {e : Except ε α} {x : ε} :
    e.map f = .error x ↔ e = .error x := by
  cases e <;> simp [Except.map]

/-- An assertion in front of a sequence. -/
theorem require_bind_ok {c : Prop} [Decidable c] {e : ε} {f : Unit → Except ε β} {b : β} :
    (require c e >>= f) = .ok b ↔ c ∧ f () = .ok b := by
  unfold require
  split_ifs with h <;> simp [h]

/-- A sequence that fails does so at the assertion in front of it, or behind it. -/
theorem require_bind_error {c : Prop} [Decidable c] {e x : ε} {f : Unit → Except ε β} :
    (require c e >>= f) = .error x ↔ ¬ c ∧ e = x ∨ c ∧ f () = .error x := by
  unfold require
  split_ifs with h <;> simp [h]

/-- Running over a list that has at most one element. -/
theorem foldlM_ite (c : Prop) [Decidable c] (x : α) (f : β → α → Except ε β) (b : β) :
    (if c then [x] else []).foldlM f b = if c then f b x else pure b := by
  split_ifs
  · rw [List.foldlM_cons]
    cases f b x <;> rfl
  · rfl

/-- Running over a list relates the states before and after it as every single run does. -/
theorem foldlM_rel {R : β → β → Prop} {f : β → α → Except ε β} (hrefl : ∀ b, R b b)
    (htrans : ∀ {a b c}, R a b → R b c → R a c) (hf : ∀ b x b', f b x = .ok b' → R b b')
    {xs : List α} {b b' : β} (h : xs.foldlM f b = .ok b') : R b b' := by
  induction xs generalizing b with
  | nil =>
    cases h
    exact hrefl _
  | cons x xs ih =>
    rw [List.foldlM_cons] at h
    obtain ⟨b₁, h₁, h⟩ := bind_eq_ok.1 h
    exact htrans (hf _ _ _ h₁) (ih h)

/-- Running over a list is simulated when every single run from a state with `P` is. -/
theorem foldlM_sim {γ : Type} {P : β → Prop} {φ : β → γ} {f : β → α → Except ε β}
    {g : γ → α → Except ε γ} (hf : ∀ b x b', P b → f b x = .ok b' → P b' ∧ g (φ b) x = .ok (φ b'))
    {xs : List α} {b b' : β} (hb : P b) (h : xs.foldlM f b = .ok b') :
    P b' ∧ xs.foldlM g (φ b) = .ok (φ b') := by
  induction xs generalizing b with
  | nil =>
    cases h
    exact ⟨hb, rfl⟩
  | cons x xs ih =>
    rw [List.foldlM_cons] at h ⊢
    obtain ⟨b₁, h₁, h⟩ := bind_eq_ok.1 h
    obtain ⟨hb₁, h₁'⟩ := hf _ _ _ hb h₁
    rw [h₁', ok_bind]
    exact ih hb₁ h

end Checked
