import Mathlib.Tactic
import Fppnet.Library.MachineInt

/-!
# `LogStream`

The formatting of a log line (`src/base/logging/LogStream.cpp`): `FixedBuffer`, the conversions of
integers, and the `operator<<` of every type that does not go through `snprintf`.

`convert` divides with the truncating operators of C++, so that the digits of a negative number come
out negative and are looked up on both sides of the `'0'` of the table; `convert_eq` and
`convertHex_eq` say that the text is the usual one for every value. `insertions_exact` is about any
sequence of insertions: no conversion writes past the end of the buffer, each text is in the buffer
as a whole or not at all, and a byte is always left for `debugString`. The length of a text is given
to `append` as an `int`, so all this is about texts of less than `2 ^ 31` bytes
(`insert_text_overrun`).
-/

open MachineInt

namespace LogStream

/-! ### Conversions -/

/-- The table of `zero`. -/
def digits : List Char := "9876543210123456789".toList

/-- `zero[lsd]`, where `zero` points to the middle of the table. -/
def zero (lsd : ℤ) : Char := digits.getD (9 + lsd).toNat '\x00'

/-- The loop of `convert`, which writes the last digit first. -/
def convertLoop (i : ℤ) : List Char :=
  zero (i.tmod 10) :: if i.tdiv 10 ≠ 0 then convertLoop (i.tdiv 10) else []
termination_by i.natAbs
decreasing_by
  have hne : i ≠ 0 := by
    rintro rfl
    simp at *
  rw [Int.natAbs_tdiv]
  exact Nat.div_lt_self (Int.natAbs_pos.2 hne) (by decide)

/-- `convert`: the characters in front of the final `'\0'`. -/
def convert (value : ℤ) : List Char :=
  (convertLoop value ++ if value < 0 then ['-'] else []).reverse

/-- The table of `convertHex`. -/
def digitsHex : List Char := "0123456789abcdef".toList

/-- The loop of `convertHex`. -/
def convertHexLoop (i : ℕ) : List Char :=
  digitsHex.getD (i % 16) '\x00' :: if i / 16 ≠ 0 then convertHexLoop (i / 16) else []
termination_by i
decreasing_by
  refine Nat.div_lt_self (Nat.pos_of_ne_zero ?_) (by decide)
  rintro rfl
  simp at *

/-- `convertHex`: the characters in front of the final `'\0'`. -/
def convertHex (value : ℕ) : List Char := (convertHexLoop value).reverse

/-- The table is symmetric around its middle. -/
theorem zero_eq {lsd : ℤ} (h : lsd.natAbs < 10) : zero lsd = Nat.digitChar lsd.natAbs := by
  have hcases : ∀ n : ℕ, n < 10 →
      zero (n : ℤ) = Nat.digitChar n ∧ zero (-(n : ℤ)) = Nat.digitChar n := by
    decide
  rcases Int.natAbs_eq lsd with hsign | hsign
  · rw [hsign, Int.natAbs_natCast]
    exact (hcases _ h).1
  · rw [hsign, Int.natAbs_neg, Int.natAbs_natCast]
    exact (hcases _ h).2

/-- The loop writes the decimal digits of the absolute value, last one first. -/
theorem convertLoop_eq (i : ℤ) : (convertLoop i).reverse = Nat.toDigits 10 i.natAbs := by
  induction i using convertLoop.induct with
  | case1 i ih =>
    rw [convertLoop, List.reverse_cons,
      zero_eq (by rw [Int.natAbs_tmod]; exact Nat.mod_lt _ (by decide)),
      Int.natAbs_tmod]
    have hquot : (i.tdiv 10).natAbs = i.natAbs / 10 := Int.natAbs_tdiv i 10
    by_cases hlt : i.natAbs < 10
    · have hzero : i.tdiv 10 = 0 := by
        rw [← Int.natAbs_eq_zero, hquot]
        exact Nat.div_eq_of_lt hlt
      rw [if_neg (not_not.2 hzero), Nat.toDigits_of_lt_base hlt, List.reverse_nil, List.nil_append]
      congr 2
      exact Nat.mod_eq_of_lt hlt
    · have hne : i.tdiv 10 ≠ 0 := by
        rw [← Int.natAbs_ne_zero, hquot]
        omega
      rw [if_pos hne, ih hne, hquot, Nat.toDigits_of_base_le (by decide) (not_lt.1 hlt)]
      rfl

theorem digitsHex_eq {d : ℕ} (h : d < 16) : digitsHex.getD d '\x00' = Nat.digitChar d := by
  revert d
  decide

theorem convertHex_eq (value : ℕ) : convertHex value = Nat.toDigits 16 value := by
  unfold convertHex
  induction value using convertHexLoop.induct with
  | case1 i ih =>
    rw [convertHexLoop, List.reverse_cons, digitsHex_eq (Nat.mod_lt _ (by decide))]
    by_cases hlt : i < 16
    · rw [if_neg (not_not.2 (Nat.div_eq_of_lt hlt)), Nat.toDigits_of_lt_base hlt,
        List.reverse_nil, List.nil_append, Nat.mod_eq_of_lt hlt]
    · have hne : i / 16 ≠ 0 := by omega
      rw [if_pos hne, ih hne, Nat.toDigits_of_base_le (by decide) (not_lt.1 hlt)]

/-- The text of a number is the usual one. -/
theorem convert_eq (value : ℤ) : convert value = (toString value).toList := by
  rw [convert, List.reverse_append, convertLoop_eq, Int.toString_eq_repr, Int.repr_eq_if]
  by_cases hneg : value < 0
  · have habs : (-value).toNat = value.natAbs := by omega
    rw [if_pos hneg, if_neg (not_le.2 hneg), habs, Nat.repr]
    simp
  · have habs : value.toNat = value.natAbs := by omega
    rw [if_neg hneg, if_pos (not_lt.1 hneg), habs, Nat.repr]
    simp

/-- Reading a decimal number, as `strtol` does. -/
def readInteger : List Char → ℤ
  | '-' :: ds => -(Nat.ofDigitChars 10 ds 0 : ℤ)
  | ds => Nat.ofDigitChars 10 ds 0

/-- What `convert` writes is read as the number that was written. -/
theorem readInteger_convert (value : ℤ) : readInteger (convert value) = value := by
  rw [convert, List.reverse_append, convertLoop_eq]
  have hread := Nat.ofDigitChars_ten_toDigits (n := value.natAbs)
  split_ifs with hneg
  · change -(Nat.ofDigitChars 10 (Nat.toDigits 10 value.natAbs) 0 : ℤ) = value
    rw [hread]
    omega
  · rw [List.reverse_nil, List.nil_append]
    have hcases : ∀ ds, (∀ c ∈ ds, c.isDigit = true) →
        readInteger ds = Nat.ofDigitChars 10 ds 0 := by
      intro ds hds
      unfold readInteger
      split
      · exact absurd (hds '-' List.mem_cons_self) (by decide)
      · rfl
    rw [hcases _ fun c hc => Nat.isDigit_of_mem_toDigits (by decide) (by decide) hc, hread]
    omega

/-- Different numbers have different texts. -/
theorem toString_inj {v v' : ℤ} (h : (toString v).toList = (toString v').toList) : v = v' := by
  rw [← convert_eq, ← convert_eq] at h
  rw [← readInteger_convert v, h, readInteger_convert]

/-- A text of at most 64 bits has at most 20 characters. -/
theorem length_convert_le {value : ℤ} (hlo : -2 ^ 63 ≤ value) (hhi : value < 2 ^ 64) :
    (convert value).length ≤ 20 := by
  have hdigits : ∀ k, 0 < k → value.natAbs < 10 ^ k → (convertLoop value).length ≤ k := by
    intro k hk hlt
    rw [← List.length_reverse, convertLoop_eq]
    exact (Nat.length_toDigits_le_iff (by decide) hk).2 hlt
  rw [convert, List.length_reverse, List.length_append]
  split_ifs with hneg
  · have := hdigits 19 (by decide) (by omega)
    rw [List.length_singleton]
    omega
  · have := hdigits 20 (by decide) (by omega)
    rw [List.length_nil]
    omega

theorem length_convertHex_le {value : ℕ} (h : value < 2 ^ 64) :
    (convertHex value).length ≤ 16 := by
  rw [convertHex_eq]
  exact (Nat.length_toDigits_le_iff (by decide) (by decide)).2 h

/-! ### `FixedBuffer` -/

/-- The size of the buffer of a `LogStream`. -/
def kSmallBuffer : ℕ := 4000

/-- `FixedBuffer<SIZE>`, as the list of the texts that were put into it one after the other. -/
structure FixedBuffer (SIZE : ℕ) where
  texts : List (List Char)
  length_le : texts.flatten.length ≤ SIZE

namespace FixedBuffer

variable {SIZE : ℕ}

def new : FixedBuffer SIZE := ⟨[], Nat.zero_le _⟩

/-- The characters from `data_` to `cur_`. -/
def data (b : FixedBuffer SIZE) : List Char := b.texts.flatten

def length (b : FixedBuffer SIZE) : ℕ := b.data.length

def avail (b : FixedBuffer SIZE) : ℕ := SIZE - b.length

/-- `memcpy` to `cur_`, or a conversion in place, of a text that fits. -/
def push (b : FixedBuffer SIZE) (text : List Char) (h : text.length ≤ b.avail) :
    FixedBuffer SIZE where
  texts := b.texts ++ [text]
  length_le := by
    have := b.length_le
    simp only [avail, length, data] at h
    rw [List.flatten_append, List.length_append, List.flatten_singleton]
    omega

/-- `append` of a text with a length that is an `int`: one that does not leave a byte free is
dropped. -/
def append (b : FixedBuffer SIZE) (text : List Char) : FixedBuffer SIZE :=
  if h : text.length < b.avail then b.push text h.le else b

/-- `reset` -/
def reset (_ : FixedBuffer SIZE) : FixedBuffer SIZE := new

@[simp] theorem texts_new : (new : FixedBuffer SIZE).texts = [] := rfl

@[simp] theorem texts_push {b : FixedBuffer SIZE} {text : List Char}
    (h : text.length ≤ b.avail) : (b.push text h).texts = b.texts ++ [text] := rfl

theorem append_of_lt {b : FixedBuffer SIZE} {text : List Char} (h : text.length < b.avail) :
    b.append text = b.push text h.le := dif_pos h

theorem append_of_le {b : FixedBuffer SIZE} {text : List Char} (h : b.avail ≤ text.length) :
    b.append text = b := dif_neg (not_lt.2 h)

end FixedBuffer

/-! ### Insertion -/

/-- What can be inserted without `snprintf`. -/
inductive Arg
  | bool (v : Bool)
  | short (v : Int16)
  | unsignedShort (v : UInt16)
  | int (v : Int32)
  | unsignedInt (v : UInt32)
  | long (v : Int64)
  | unsignedLong (v : UInt64)
  | longLong (v : Int64)
  | unsignedLongLong (v : UInt64)
  | pointer (p : UInt64)
  | char (c : Char)
  /-- `const char*`, `const string&`, `T`, or `append` -/
  | text (s : List Char)

/-- Something wrote past the end of the buffer. -/
inductive Failure
  | overrun
  deriving DecidableEq

def kMaxNumericSize : ℕ := 32

variable {SIZE : ℕ}

/-- A conversion at `current()` of `text` and `'\0'`, and `add` of the length of the text. -/
def convertInPlace (buffer : FixedBuffer SIZE) (text : List Char) :
    Except Failure (FixedBuffer SIZE) :=
  if h : text.length + 1 ≤ buffer.avail then .ok (buffer.push text (Nat.le_of_succ_le h))
  else .error .overrun

/-- `formatInteger` -/
def formatInteger (buffer : FixedBuffer SIZE) (v : ℤ) : Except Failure (FixedBuffer SIZE) :=
  if kMaxNumericSize ≤ buffer.avail then convertInPlace buffer (convert v) else .ok buffer

/-- `append` with the length of a text, a `size_t`, as an `int`. `avail()` is greater than a
negative `len`, which `memcpy` takes for a `size_t` again. -/
def appendText (buffer : FixedBuffer SIZE) (s : List Char) : Except Failure (FixedBuffer SIZE) :=
  let len := toInt s.length
  if len < 0 then .error .overrun else .ok (buffer.append (s.take len.toNat))

/-- The `operator<<` of each type. -/
def insert (buffer : FixedBuffer SIZE) : Arg → Except Failure (FixedBuffer SIZE)
  | .bool v => .ok (buffer.append [if v then '1' else '0'])
  | .short v => formatInteger buffer v.toInt
  | .unsignedShort v => formatInteger buffer v.toNat
  | .int v => formatInteger buffer v.toInt
  | .unsignedInt v => formatInteger buffer v.toNat
  | .long v => formatInteger buffer v.toInt
  | .unsignedLong v => formatInteger buffer v.toNat
  | .longLong v => formatInteger buffer v.toInt
  | .unsignedLongLong v => formatInteger buffer v.toNat
  | .pointer p =>
    if kMaxNumericSize ≤ buffer.avail then
      convertInPlace buffer ('0' :: 'x' :: convertHex p.toNat)
    else .ok buffer
  | .char c => .ok (buffer.append [c])
  | .text s => appendText buffer s

/-- A chain of insertions. -/
def insertAll (buffer : FixedBuffer SIZE) (args : List Arg) : Except Failure (FixedBuffer SIZE) :=
  args.foldlM insert buffer

/-! ### What a chain of insertions leaves -/

/-- The text of an argument. -/
def Arg.show : Arg → List Char
  | .bool v => [if v then '1' else '0']
  | .short v => (toString v.toInt).toList
  | .unsignedShort v => (toString v.toNat).toList
  | .int v => (toString v.toInt).toList
  | .unsignedInt v => (toString v.toNat).toList
  | .long v => (toString v.toInt).toList
  | .unsignedLong v => (toString v.toNat).toList
  | .longLong v => (toString v.toInt).toList
  | .unsignedLongLong v => (toString v.toNat).toList
  | .pointer p => '0' :: 'x' :: Nat.toDigits 16 p.toNat
  | .char c => [c]
  | .text s => s

/-- How many bytes must be left for an argument. -/
def Arg.room : Arg → ℕ
  | .bool _ | .char _ => 2
  | .text s => s.length + 1
  | _ => kMaxNumericSize

/-- The length of a text is an `int`, that is less than `2 ^ 31`. -/
def Arg.Short : Arg → Prop
  | .text s => s.length < 2147483648
  | _ => True

instance (a : Arg) : Decidable a.Short := by
  unfold Arg.Short
  split <;> infer_instance

/-- The texts that a chain of insertions finds room for, of `avail` bytes. -/
def fitting (avail : ℕ) : List Arg → List (List Char)
  | [] => []
  | a :: args =>
    if a.room ≤ avail then a.show :: fitting (avail - a.show.length) args else fitting avail args

/-- A conversion of less than `kMaxNumericSize` characters has room for itself and its `'\0'`. -/
theorem convertInPlace_ok (buffer : FixedBuffer SIZE) {text : List Char}
    (h : text.length < kMaxNumericSize) :
    ∃ buffer', (if kMaxNumericSize ≤ buffer.avail then convertInPlace buffer text else .ok buffer) =
        .ok buffer' ∧
      buffer'.texts = buffer.texts ++ if kMaxNumericSize ≤ buffer.avail then [text] else [] := by
  by_cases hroom : kMaxNumericSize ≤ buffer.avail
  · have hfits : text.length + 1 ≤ buffer.avail := h.trans_le hroom
    rw [if_pos hroom, if_pos hroom, convertInPlace, dif_pos hfits]
    exact ⟨_, rfl, rfl⟩
  · rw [if_neg hroom, if_neg hroom, List.append_nil]
    exact ⟨_, rfl, rfl⟩

theorem formatInteger_ok (buffer : FixedBuffer SIZE) {v : ℤ} (hlo : -2 ^ 63 ≤ v)
    (hhi : v < 2 ^ 64) : ∃ buffer', formatInteger buffer v = .ok buffer' ∧
      buffer'.texts = buffer.texts ++
        if kMaxNumericSize ≤ buffer.avail then [(toString v).toList] else [] := by
  rw [← convert_eq]
  exact convertInPlace_ok buffer ((length_convert_le hlo hhi).trans_lt (by decide))

theorem append_texts (buffer : FixedBuffer SIZE) (text : List Char) :
    (buffer.append text).texts =
      buffer.texts ++ if text.length + 1 ≤ buffer.avail then [text] else [] := by
  by_cases hroom : text.length + 1 ≤ buffer.avail
  · rw [if_pos hroom, FixedBuffer.append_of_lt hroom, FixedBuffer.texts_push]
  · rw [if_neg hroom, FixedBuffer.append_of_le (by omega), List.append_nil]

theorem appendText_eq (buffer : FixedBuffer SIZE) {s : List Char} (h : s.length < 2147483648) :
    appendText buffer s = .ok (buffer.append s) := by
  have hlen : toInt s.length = s.length := toInt_of (by unfold IsInt; omega)
  rw [appendText, hlen, if_neg (by omega), Int.toNat_natCast, List.take_length]

/-- A text of `2 ^ 31` bytes, and fewer than `2 ^ 32`, is copied over the end of the buffer. -/
theorem insert_text_overrun (buffer : FixedBuffer SIZE) {s : List Char} (h : 2147483648 ≤ s.length)
    (h' : s.length < 4294967296) : insert buffer (.text s) = .error .overrun := by
  have hneg : toInt s.length < 0 := by
    unfold toInt
    split_ifs <;> omega
  rw [insert, appendText]
  exact if_pos hneg

/-- The number that an argument is printed as, if it is an integer. -/
def Arg.number : Arg → Option ℤ
  | .short v => some v.toInt
  | .unsignedShort v => some v.toNat
  | .int v => some v.toInt
  | .unsignedInt v => some v.toNat
  | .long v => some v.toInt
  | .unsignedLong v => some v.toNat
  | .longLong v => some v.toInt
  | .unsignedLongLong v => some v.toNat
  | .bool _ | .pointer _ | .char _ | .text _ => none

/-- No integer has more than 64 bits. -/
theorem Arg.number_bounds {a : Arg} {v : ℤ} (h : a.number = some v) :
    -2 ^ 63 ≤ v ∧ v < 2 ^ 64 := by
  cases a <;> cases h
  case short v =>
    have hlo := v.le_toInt
    have hhi := v.toInt_lt
    omega
  case int v =>
    have hlo := v.le_toInt
    have hhi := v.toInt_lt
    omega
  case long v =>
    have hlo := v.le_toInt
    have hhi := v.toInt_lt
    omega
  case longLong v =>
    have hlo := v.le_toInt
    have hhi := v.toInt_lt
    omega
  case unsignedShort v =>
    have hhi := v.toNat_lt
    omega
  case unsignedInt v =>
    have hhi := v.toNat_lt
    omega
  case unsignedLong v =>
    have hhi := v.toNat_lt
    omega
  case unsignedLongLong v =>
    have hhi := v.toNat_lt
    omega

theorem Arg.show_number {a : Arg} {v : ℤ} (h : a.number = some v) :
    a.show = (toString v).toList := by
  cases a <;> cases h <;> rfl

theorem Arg.room_number {a : Arg} {v : ℤ} (h : a.number = some v) : a.room = kMaxNumericSize := by
  cases a <;> cases h <;> rfl

theorem insert_number (buffer : FixedBuffer SIZE) {a : Arg} {v : ℤ} (h : a.number = some v) :
    insert buffer a = formatInteger buffer v := by
  cases a <;> cases h <;> rfl

/-- An insertion puts the text of its argument into the buffer if there is room for it. -/
theorem insert_ok (buffer : FixedBuffer SIZE) {a : Arg} (ha : a.Short) :
    ∃ buffer', insert buffer a = .ok buffer' ∧
      buffer'.texts = buffer.texts ++ if a.room ≤ buffer.avail then [a.show] else [] := by
  cases hv : a.number with
  | some v =>
    obtain ⟨hlo, hhi⟩ := Arg.number_bounds hv
    rw [insert_number buffer hv, Arg.show_number hv, Arg.room_number hv]
    exact formatInteger_ok buffer hlo hhi
  | none =>
    cases a with
    | bool v => exact ⟨_, rfl, append_texts buffer _⟩
    | char c => exact ⟨_, rfl, append_texts buffer _⟩
    | text s =>
      rw [insert, appendText_eq buffer ha]
      exact ⟨_, rfl, append_texts buffer _⟩
    | pointer p =>
      have hlen := length_convertHex_le p.toNat_lt
      have htext : ('0' :: 'x' :: convertHex p.toNat).length < kMaxNumericSize := by
        rw [kMaxNumericSize]
        simp only [List.length_cons]
        omega
      rw [insert, Arg.show, ← convertHex_eq]
      exact convertInPlace_ok buffer htext
    | _ => cases hv

/-- A byte is left behind what is inserted. -/
theorem Arg.length_show_lt (a : Arg) : a.show.length < a.room := by
  cases hv : a.number with
  | some v =>
    obtain ⟨hlo, hhi⟩ := Arg.number_bounds hv
    rw [Arg.show_number hv, Arg.room_number hv, ← convert_eq, kMaxNumericSize]
    exact (length_convert_le hlo hhi).trans_lt (by decide)
  | none =>
    cases a with
    | bool v => exact Nat.lt_succ_self 1
    | char c => exact Nat.lt_succ_self 1
    | text s => exact Nat.lt_succ_self _
    | pointer p =>
      have hlen := length_convertHex_le p.toNat_lt
      rw [convertHex_eq] at hlen
      simp only [Arg.show, Arg.room, kMaxNumericSize, List.length_cons]
      omega
    | _ => cases hv

theorem avail_of_texts {b b' : FixedBuffer SIZE} {texts : List (List Char)}
    (h : b'.texts = b.texts ++ texts) : b'.avail = b.avail - texts.flatten.length := by
  simp only [FixedBuffer.avail, FixedBuffer.length, FixedBuffer.data, h, List.flatten_append,
    List.length_append]
  omega

/-- No chain of insertions writes past the end of the buffer; the buffer then holds, in order, the
whole texts of those arguments that there was room for, and has a byte left. -/
theorem insertAll_ok {args : List Arg} (hargs : ∀ a ∈ args, a.Short) (buffer : FixedBuffer SIZE)
    (h : 0 < buffer.avail) : ∃ buffer', insertAll buffer args = .ok buffer' ∧
      buffer'.texts = buffer.texts ++ fitting buffer.avail args ∧ 0 < buffer'.avail := by
  induction args generalizing buffer with
  | nil => exact ⟨buffer, rfl, (List.append_nil _).symm, h⟩
  | cons a args ih =>
    rw [List.forall_mem_cons] at hargs
    obtain ⟨b, hb, htexts⟩ := insert_ok buffer hargs.1
    have havail := avail_of_texts htexts
    have hstep : insertAll buffer (a :: args) = insertAll b args := by
      rw [insertAll, List.foldlM_cons, hb]
      rfl
    rw [hstep, fitting]
    by_cases hroom : a.room ≤ buffer.avail
    · have hlt := a.length_show_lt
      rw [if_pos hroom] at htexts havail ⊢
      rw [List.flatten_singleton] at havail
      obtain ⟨b', hb', htexts', hpos⟩ := ih hargs.2 b (by omega)
      refine ⟨b', hb', ?_, hpos⟩
      rw [htexts', htexts, havail, List.append_assoc, List.singleton_append]
    · rw [if_neg hroom] at htexts havail ⊢
      obtain ⟨b', hb', htexts', hpos⟩ := ih hargs.2 b (by simpa using havail ▸ h)
      refine ⟨b', hb', ?_, hpos⟩
      rw [htexts', htexts, havail, List.append_nil]
      simp

/-! ### What is kept and what is dropped -/

theorem fitting_sublist (avail : ℕ) (args : List Arg) :
    (fitting avail args).Sublist (args.map Arg.show) := by
  induction args generalizing avail with
  | nil => exact List.Sublist.refl []
  | cons a args ih =>
    rw [fitting, List.map_cons]
    split_ifs
    · exact (ih _).cons_cons _
    · exact (ih _).cons _

/-- No argument asks for more than its text and `kMaxNumericSize` bytes. -/
theorem Arg.room_le (a : Arg) : a.room ≤ a.show.length + kMaxNumericSize := by
  cases a <;> simp [Arg.room, Arg.show, kMaxNumericSize]

/-- With `kMaxNumericSize` bytes to spare everything fits. -/
theorem fitting_of_le {avail : ℕ} {args : List Arg}
    (h : (args.map Arg.show).flatten.length + kMaxNumericSize ≤ avail) :
    fitting avail args = args.map Arg.show := by
  induction args generalizing avail with
  | nil => rfl
  | cons a args ih =>
    rw [List.map_cons, List.flatten_cons, List.length_append] at h
    have hroom := a.room_le
    rw [fitting, if_pos (by omega), List.map_cons, ih (by omega)]

/-- **A chain of insertions**, of texts with less than `2 ^ 31` bytes, into a buffer with a byte
left writes nothing past its end. It appends the texts of some of its arguments, whole and in order,
and all of them if `kMaxNumericSize` bytes are left in the end. -/
theorem insertions_exact {args : List Arg} (hargs : ∀ a ∈ args, a.Short)
    (buffer : FixedBuffer SIZE) (h : 0 < buffer.avail) :
    ∃ buffer' texts, insertAll buffer args = .ok buffer' ∧
      buffer'.data = buffer.data ++ texts.flatten ∧ texts.Sublist (args.map Arg.show) ∧
      buffer'.length < SIZE ∧
      ((args.map Arg.show).flatten.length + kMaxNumericSize ≤ buffer.avail →
        texts = args.map Arg.show) := by
  obtain ⟨buffer', hok, htexts, hpos⟩ := insertAll_ok hargs buffer h
  refine ⟨buffer', _, hok, ?_, fitting_sublist _ _, ?_, fitting_of_le⟩
  · rw [FixedBuffer.data, htexts, List.flatten_append]
    rfl
  · rw [FixedBuffer.avail] at hpos
    omega

theorem insertions_exact_minValue :
    ∃ (buffer' : FixedBuffer 40) (texts : List (List Char)),
      insertAll .new [.text "at ".toList, .int Int32.minValue, .char '.'] = .ok buffer' ∧
      buffer'.data = [] ++ texts.flatten ∧
      texts.Sublist ["at ".toList, "-2147483648".toList, ['.']] ∧ buffer'.length < 40 ∧
      (15 + kMaxNumericSize ≤ 40 → texts = ["at ".toList, "-2147483648".toList, ['.']]) :=
  have hargs : ∀ a ∈ [Arg.text "at ".toList, .int Int32.minValue, .char '.'], a.Short := by decide
  insertions_exact hargs .new (by decide)

end LogStream
