import Mathlib.Tactic

/-!
# Contiguous storage

A block of memory is a list of cells. `slice xs i j` is the content of the cells `i, …, j - 1`.

* `overwrite xs i ys` writes `ys` from cell `i` on;
* `resize xs n d` truncates the block to `n` cells, or extends it by cells holding `d`;
* `copyForward xs src dst n` copies `n` cells inside the block one at a time in ascending order,
  so that a later read may see a cell that an earlier step has already overwritten.
  `copyForward_slice` says that for `dst ≤ src` no such read happens: the overlapping copy moves
  the source range unchanged.
-/

namespace Storage

variable {α : Type*}

/-- The cells `i, …, j - 1`. -/
def slice (xs : List α) (i j : ℕ) : List α := (xs.drop i).take (j - i)

/-- Write `ys` into the cells from `i` on. -/
def overwrite (xs : List α) (i : ℕ) (ys : List α) : List α :=
  xs.take i ++ ys ++ xs.drop (i + ys.length)

/-- The block of `n` cells that agrees with `xs` as far as both reach. -/
def resize (xs : List α) (n : ℕ) (d : α) : List α :=
  xs.take n ++ List.replicate (n - xs.length) d

/-- Copy `n` cells from `src` to `dst`, in ascending order and in place. -/
def copyForward (xs : List α) (src dst : ℕ) : ℕ → List α
  | 0 => xs
  | n + 1 =>
    let ys := copyForward xs src dst n
    match ys[src + n]? with
    | some x => ys.set (dst + n) x
    | none => ys

/-! ### Reading one cell -/

theorem getElem?_slice (xs : List α) (i j k : ℕ) :
    (slice xs i j)[k]? = if k < j - i then xs[i + k]? else none := by
  unfold slice
  rw [List.getElem?_take, List.getElem?_drop]

theorem getElem?_overwrite {xs : List α} {i : ℕ} (ys : List α) (hi : i + ys.length ≤ xs.length)
    (k : ℕ) : (overwrite xs i ys)[k]? =
      if i ≤ k ∧ k < i + ys.length then ys[k - i]? else xs[k]? := by
  unfold overwrite
  have hlen : (xs.take i).length = i := by rw [List.length_take]; omega
  rcases lt_or_ge k i with hk | hk
  · rw [if_neg (by omega), List.append_assoc, List.getElem?_append_left (by omega),
      List.getElem?_take, if_pos hk]
  · rcases lt_or_ge k (i + ys.length) with hk' | hk'
    · rw [if_pos ⟨hk, hk'⟩, List.append_assoc, List.getElem?_append_right (by omega), hlen,
        List.getElem?_append_left (by omega)]
    · rw [if_neg (by omega), List.getElem?_append_right (by rw [List.length_append]; omega),
        List.length_append, hlen, List.getElem?_drop]
      congr 1
      omega

theorem getElem?_resize {xs : List α} {n k : ℕ} (d : α) (hk : k < xs.length) (hn : k < n) :
    (resize xs n d)[k]? = xs[k]? := by
  unfold resize
  rw [List.getElem?_append_left (by rw [List.length_take]; omega), List.getElem?_take, if_pos hn]

/-! ### Lengths -/

theorem length_slice {xs : List α} {i j : ℕ} (hj : j ≤ xs.length) :
    (slice xs i j).length = j - i := by
  unfold slice
  rw [List.length_take, List.length_drop]
  omega

@[simp] theorem length_overwrite {xs : List α} {i : ℕ} {ys : List α}
    (hi : i + ys.length ≤ xs.length) : (overwrite xs i ys).length = xs.length := by
  simp only [overwrite, List.length_append, List.length_take, List.length_drop]
  omega

@[simp] theorem length_resize (xs : List α) (n : ℕ) (d : α) : (resize xs n d).length = n := by
  simp only [resize, List.length_append, List.length_take, List.length_replicate]
  omega

@[simp] theorem length_copyForward (xs : List α) (src dst n : ℕ) :
    (copyForward xs src dst n).length = xs.length := by
  induction n with
  | zero => rfl
  | succ n ih =>
    simp only [copyForward]
    split
    · rw [List.length_set, ih]
    · exact ih

/-! ### Slices of the results -/

@[simp] theorem slice_self (xs : List α) (i : ℕ) : slice xs i i = [] := by simp [slice]

theorem slice_add_left (xs : List α) (i n j : ℕ) : slice xs (i + n) j = (slice xs i j).drop n := by
  unfold slice
  rw [List.drop_take, List.drop_drop]
  congr 1
  omega

/-- Writing at the end of a slice appends to it. -/
theorem slice_overwrite_end {xs : List α} {i j : ℕ} (ys : List α) (hij : i ≤ j)
    (hj : j + ys.length ≤ xs.length) :
    slice (overwrite xs j ys) i (j + ys.length) = slice xs i j ++ ys := by
  apply List.ext_getElem?
  intro k
  have hlen : (slice xs i j).length = j - i := length_slice (by omega)
  rw [getElem?_slice, getElem?_overwrite ys hj]
  rcases lt_or_ge k (j - i) with hk | hk
  · rw [if_pos (by omega), if_neg (by omega), List.getElem?_append_left (by omega), getElem?_slice,
      if_pos hk]
  · rw [List.getElem?_append_right (by omega), hlen]
    rcases lt_or_ge k (j + ys.length - i) with hk' | hk'
    · rw [if_pos hk', if_pos (by omega)]
      congr 1
      omega
    · rw [if_neg (by omega), List.getElem?_eq_none (by omega)]

/-- Writing just before a slice prepends to it. -/
theorem slice_overwrite_begin (xs : List α) {i j : ℕ} (ys : List α) (hij : i + ys.length ≤ j)
    (hj : j ≤ xs.length) :
    slice (overwrite xs i ys) i j = ys ++ slice xs (i + ys.length) j := by
  apply List.ext_getElem?
  intro k
  rw [getElem?_slice, getElem?_overwrite ys (by omega)]
  rcases lt_or_ge k ys.length with hk | hk
  · rw [if_pos (by omega), if_pos (by omega), List.getElem?_append_left hk]
    congr 1
    omega
  · rw [List.getElem?_append_right hk, getElem?_slice, if_neg (c := _ ∧ _) (by omega)]
    have hpos : i + ys.length + (k - ys.length) = i + k := by omega
    rw [hpos]
    exact if_congr (by omega) rfl rfl

theorem slice_resize {xs : List α} {i j n : ℕ} (d : α) (hj : j ≤ xs.length) (hn : j ≤ n) :
    slice (resize xs n d) i j = slice xs i j := by
  apply List.ext_getElem?
  intro k
  rw [getElem?_slice, getElem?_slice]
  split_ifs with hk
  · exact getElem?_resize d (by omega) (by omega)
  · rfl

/-- The cells of an ascending copy: below `dst + n` the source cells as they were before the copy,
elsewhere the old cells. Reads never meet a cell already written because `dst ≤ src`. -/
theorem getElem?_copyForward {xs : List α} {src dst n : ℕ} (hds : dst ≤ src)
    (hn : src + n ≤ xs.length) (k : ℕ) : (copyForward xs src dst n)[k]? =
      if dst ≤ k ∧ k < dst + n then xs[src + (k - dst)]? else xs[k]? := by
  induction n generalizing k with
  | zero => rw [if_neg (by omega)]; rfl
  | succ n ih =>
    have hlt : src + n < xs.length := by omega
    have hread : (copyForward xs src dst n)[src + n]? = some xs[src + n] := by
      rw [ih (by omega), if_neg (by omega), List.getElem?_eq_getElem]
    simp only [copyForward, hread]
    rw [List.getElem?_set, length_copyForward]
    rcases eq_or_ne (dst + n) k with rfl | hk
    · rw [if_pos rfl, if_pos (by omega), if_pos (by omega), show dst + n - dst = n by omega,
        List.getElem?_eq_getElem]
    · rw [if_neg hk, ih (by omega)]
      exact if_congr (by omega) rfl rfl

/-- **An overlapping ascending copy to a lower address moves the range unchanged.** -/
theorem copyForward_slice (xs : List α) {src dst n : ℕ} (hds : dst ≤ src)
    (hn : src + n ≤ xs.length) :
    slice (copyForward xs src dst n) dst (dst + n) = slice xs src (src + n) := by
  apply List.ext_getElem?
  intro k
  rw [getElem?_slice, getElem?_slice, getElem?_copyForward hds hn]
  rcases lt_or_ge k n with hk | hk
  · rw [if_pos (by omega), if_pos (by omega), if_pos (by omega)]
    congr 1
    omega
  · rw [if_neg (by omega), if_neg (by omega)]

end Storage
