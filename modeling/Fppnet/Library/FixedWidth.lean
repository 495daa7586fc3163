import Mathlib.Data.Char
import Mathlib.Data.List.Lex
import Mathlib.Tactic

/-!
# Numbers of fixed width

Decimal numbers that are filled up with zeros, and lines of such numbers with text in front of each.
The digits are those of the usual text (`fixed_eq_leftpad`). Numbers that fit are in the order of
their texts (`fixed_lt`), and lines with the same fields in that of their numbers (`render_lt`), so
what is written in this way can be sorted as text.
-/

namespace FixedWidth

/-- The last `w` digits of a number. -/
def fixed : ℕ → ℕ → List Char
  | 0, _ => []
  | w + 1, n => fixed w (n / 10) ++ [Nat.digitChar (n % 10)]

@[simp] theorem length_fixed (w n : ℕ) : (fixed w n).length = w := by
  induction w generalizing n with
  | zero => rfl
  | succ w ih => rw [fixed, List.length_append, ih, List.length_singleton]

theorem fixed_zero (w : ℕ) : fixed w 0 = List.replicate w '0' := by
  induction w with
  | zero => rfl
  | succ w ih => rw [fixed, Nat.zero_div, ih, List.replicate_succ']; rfl

/-- The digits of a number that fits, with zeros in front of it. -/
theorem fixed_eq_leftpad {w n : ℕ} (hw : 0 < w) (h : n < 10 ^ w) :
    fixed w n = (Nat.toDigits 10 n).leftpad w '0' := by
  obtain ⟨w, rfl⟩ := Nat.exists_eq_succ_of_ne_zero hw.ne'
  induction w generalizing n with
  | zero =>
    have hn : n < 10 := by simpa using h
    rw [Nat.toDigits_of_lt_base hn, fixed, Nat.mod_eq_of_lt hn]
    rfl
  | succ w ih =>
    by_cases hn : n < 10
    · rw [Nat.toDigits_of_lt_base hn, fixed, Nat.div_eq_of_lt hn, Nat.mod_eq_of_lt hn, fixed_zero]
      rfl
    · have hdiv : n / 10 < 10 ^ (w + 1) := by
        rw [Nat.div_lt_iff_lt_mul (by decide), ← pow_succ]
        exact h
      rw [fixed, ih (Nat.succ_pos w) hdiv, Nat.toDigits_of_base_le (by decide) (not_lt.1 hn),
        List.leftpad, List.leftpad, List.append_assoc, List.length_append, List.length_singleton,
        Nat.succ_sub_succ]

theorem digitChar_lt {m n : ℕ} (hlt : m < n) (hn : n < 10) :
    Nat.digitChar m < Nat.digitChar n := by
  have hall : ∀ n < 10, ∀ m < n, Nat.digitChar m < Nat.digitChar n := by decide
  exact hall n hn m hlt

/-- Texts of the same length are compared before what follows them. -/
theorem append_lt {l l' : List Char} (h : l < l') (hlen : l.length = l'.length)
    (r r' : List Char) : l ++ r < l' ++ r' := by
  induction l generalizing l' with
  | nil =>
    rw [List.eq_nil_of_length_eq_zero hlen.symm] at h
    exact absurd h (List.not_lt_nil [])
  | cons a l ih =>
    cases l' with
    | nil => cases hlen
    | cons b l' =>
      rw [List.cons_append, List.cons_append, List.cons_lt_cons_iff]
      rcases List.cons_lt_cons_iff.1 h with hab | ⟨hab, hrest⟩
      · exact Or.inl hab
      · exact Or.inr ⟨hab, ih hrest (Nat.succ.inj hlen)⟩

/-- Of two numbers that fit the smaller one has the smaller text. -/
theorem fixed_lt {w m n : ℕ} (hlt : m < n) (hn : n < 10 ^ w) : fixed w m < fixed w n := by
  induction w generalizing m n with
  | zero => omega
  | succ w ih =>
    have hdiv : n / 10 < 10 ^ w := by
      rw [Nat.div_lt_iff_lt_mul (by decide), ← pow_succ]
      exact hn
    rcases (Nat.div_le_div_right (c := 10) hlt.le).eq_or_lt with heq | hless
    · rw [fixed, fixed, heq]
      have hmod : m % 10 < n % 10 := by omega
      exact List.append_left_lt (List.cons_lt_cons_iff.2
        (Or.inl (digitChar_lt hmod (Nat.mod_lt n (by decide)))))
    · exact append_lt (ih hless hdiv) (by rw [length_fixed, length_fixed]) _ _

/-! ### Lines -/

/-- A number in a line: the text in front of it and its width. -/
structure Field where
  before : List Char
  width : ℕ

/-- The line of some numbers. -/
def render : List Field → List ℕ → List Char
  | f :: fs, n :: ns => f.before ++ (fixed f.width n ++ render fs ns)
  | _, _ => []

/-- The numbers fit into the fields. -/
def Fits : List Field → List ℕ → Prop := List.Forall₂ fun f n => n < 10 ^ f.width

def width (fs : List Field) : ℕ := (fs.map fun f => f.before.length + f.width).sum

variable {fs : List Field} {ms ns : List ℕ}

/-- Every line has the same length. -/
theorem length_render (h : Fits fs ns) : (render fs ns).length = width fs := by
  induction h with
  | nil => rfl
  | @cons f n fs ns hn hrest ih =>
    rw [render, List.length_append, List.length_append, length_fixed, ih, width, width,
      List.map_cons, List.sum_cons, Nat.add_assoc]

/-- **Lines are in the order of their numbers.** -/
theorem render_lt (hm : Fits fs ms) (hn : Fits fs ns) (hlt : ms < ns) :
    render fs ms < render fs ns := by
  induction hm generalizing ns with
  | nil =>
    cases hn
    exact absurd hlt (List.not_lt_nil [])
  | @cons f m fs ms _ _ ih =>
    cases hn with
    | @cons _ n _ ns hn hrest =>
      rw [render, render]
      refine List.append_left_lt ?_
      rcases List.cons_lt_cons_iff.1 hlt with hmn | ⟨rfl, hless⟩
      · exact append_lt (fixed_lt hmn hn) (by rw [length_fixed, length_fixed]) _ _
      · exact List.append_left_lt (ih hrest hless)

end FixedWidth
