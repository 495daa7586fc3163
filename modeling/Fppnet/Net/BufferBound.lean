import Fppnet.Net.BufferShrink

/-!
# The size of a `Buffer`

`resize` makes the vector end `len` bytes behind `writerIndex_`, and `writerIndex_` moves to the
right as data is consumed. What bounds the vector is the test in `makeSpace`: when it grows, the
free bytes before and behind the readable ones are fewer than `len + kCheapPrepend`, and so
`readerIndex_` is less than that.

* `Op` are the operations of the class. `hasWritten` takes any number, so that `writerIndex_` may
  point behind the end, and a step is an operation that stays inside the vector (`Op.Defined`);
* `grown b len`: the size after `ensureWritableBytes(len)`; `length_step` says that every operation
  leaves the size `grown b op.room`;
* `size_bounded`: the size in runs that pass at most `L` bytes to `append` or
  `ensureWritableBytes` and leave at most `R` readable.
-/

namespace Fppnet

open Checked Runs Storage

namespace BufferBound

open Buffer

/-- The operations of the class. `fill` stores bytes through `beginWrite()`. -/
inductive Op
  | append (data : List Byte)
  | prepend (data : List Byte)
  | retrieve (len : ℕ)
  | retrieveAll
  | ensureWritableBytes (len : ℕ)
  | fill (data : List Byte)
  | hasWritten (len : ℕ)
  | readFd (r : ReadResult)

/-- The operation stays inside the vector, and `readv(2)` returns no more than there is room for.
When `writerIndex_` is behind the end, `ensureWritableBytes` does nothing. -/
def Op.Defined (b : Buffer) : Op → Prop
  | .append _ => b.writerIndex_ ≤ b.buffer_.length
  | .prepend _ => b.readerIndex_ ≤ b.buffer_.length
  | .ensureWritableBytes len => b.writerIndex_ ≤ b.buffer_.length ∨ len ≤ b.writableBytes
  | .fill data => b.writerIndex_ + data.length ≤ b.buffer_.length
  | .readFd r =>
    b.writerIndex_ ≤ b.buffer_.length ∧ r.data.length ≤ b.writableBytes + extrabufSize
  | .retrieve _ | .retrieveAll | .hasWritten _ => True

instance (b : Buffer) (op : Op) : Decidable (op.Defined b) :=
  match op with
  | .append _ | .prepend _ | .fill _ => inferInstanceAs (Decidable (_ ≤ _))
  | .ensureWritableBytes _ => inferInstanceAs (Decidable (_ ∨ _))
  | .readFd _ => inferInstanceAs (Decidable (_ ∧ _))
  | .retrieve _ | .retrieveAll | .hasWritten _ => inferInstanceAs (Decidable True)

def exec (b : Buffer) : Op → Except Assertion Buffer
  | .append data => b.append data
  | .prepend data => b.prepend data
  | .retrieve len => b.retrieve len
  | .retrieveAll => pure b.retrieveAll
  | .ensureWritableBytes len => b.ensureWritableBytes len
  | .fill data => pure (b.fill data)
  | .hasWritten len => pure (b.hasWritten len)
  | .readFd r => b.readFd r

def step (b : Buffer) (op : Op) : Option (Except Assertion Buffer) :=
  if op.Defined b then some (exec b op) else none

/-- The bytes that the operation needs room for. -/
def Op.room : Op → ℕ
  | .append data => data.length
  | .ensureWritableBytes len => len
  | .readFd r => r.data.length
  | _ => 0

/-- The length that the operation passes to `append` or `ensureWritableBytes`; for `readFd`, what
is left in `extrabuf`. -/
def Op.passed (b : Buffer) : Op → ℕ
  | .readFd r => r.data.length - b.writableBytes
  | op => op.room

/-- The operation passes at most `L` bytes, and leaves at most `R` readable. -/
def Limits (R L : ℕ) (b : Buffer) (op : Op) : Prop :=
  op.passed b ≤ L ∧ (next step b op).readableBytes ≤ R

instance (R L : ℕ) (b : Buffer) (op : Op) : Decidable (Limits R L b op) :=
  inferInstanceAs (Decidable (_ ∧ _))

/-- `makeSpace(len)` is called and takes its first branch. -/
def Grows (b : Buffer) (len : ℕ) : Prop :=
  b.writableBytes < len ∧ b.writableBytes + b.prependableBytes < len + kCheapPrepend

instance (b : Buffer) (len : ℕ) : Decidable (Grows b len) :=
  inferInstanceAs (Decidable (_ ∧ _))

/-- The size of the vector after `ensureWritableBytes(len)`. -/
def grown (b : Buffer) (len : ℕ) : ℕ :=
  if Grows b len then b.writerIndex_ + len else b.buffer_.length

@[simp] theorem grown_zero (b : Buffer) : grown b 0 = b.buffer_.length :=
  if_neg fun h => absurd h.1 (Nat.not_lt_zero _)

/-- The end is moved to the right. -/
theorem Grows.lt {b : Buffer} {len : ℕ} (h : Grows b len) :
    b.buffer_.length < b.writerIndex_ + len := by
  have hw := h.1
  unfold writableBytes sizeSub at hw
  split_ifs at hw <;> omega

/-! ### The size after an operation -/

theorem length_makeSpace {b b' : Buffer} {len : ℕ} (h : b.makeSpace len = .ok b') :
    b'.buffer_.length = if b.writableBytes + b.prependableBytes < len + kCheapPrepend
      then b.writerIndex_ + len else b.buffer_.length := by
  unfold makeSpace at h
  split_ifs at h ⊢ with hfew
  · cases h
    exact length_resize _ _ _
  · obtain ⟨-, h⟩ := require_bind_ok.1 h
    obtain ⟨-, h⟩ := require_bind_ok.1 h
    cases h
    exact length_copyForward _ _ _ _

theorem length_ensureWritableBytes {b b' : Buffer} {len : ℕ}
    (h : b.ensureWritableBytes len = .ok b') : b'.buffer_.length = grown b len := by
  unfold ensureWritableBytes at h
  split_ifs at h with hlen
  · obtain ⟨b₁, h₁, h⟩ := bind_eq_ok.1 h
    obtain ⟨-, h⟩ := require_bind_ok.1 h
    cases h
    rw [length_makeSpace h₁, grown]
    exact if_congr (and_iff_right hlen).symm rfl rfl
  · obtain ⟨-, h⟩ := require_bind_ok.1 h
    cases h
    exact (if_neg fun hg => hlen hg.1).symm

theorem length_append {b b' : Buffer} (hv : b.Valid) {data : List Byte}
    (h : b.append data = .ok b') : b'.buffer_.length = grown b data.length := by
  obtain ⟨b₁, h₁, hv₁, hroom, -⟩ := ensureWritableBytes_spec hv data.length
  unfold append at h
  rw [h₁] at h
  cases h
  rw [hv₁.writableBytes_eq] at hroom
  have hw := hv₁.writer_le
  show (overwrite b₁.buffer_ b₁.writerIndex_ data).length = _
  rw [length_overwrite (by omega), length_ensureWritableBytes h₁]

/-- What is left in `extrabuf` is appended to a buffer that is full, and needs as much new storage
as all the bytes did before. -/
theorem grown_full {b c : Buffer} (hv : b.Valid) {n : ℕ} (hn : b.writableBytes < n)
    (hlen : c.buffer_.length = b.buffer_.length) (hr : c.readerIndex_ = b.readerIndex_)
    (hw : c.writerIndex_ = b.buffer_.length) : grown c (n - b.writableBytes) = grown b n := by
  have hb := hv.writableBytes_eq
  have hle := hv.writer_le
  have hc : c.writableBytes = 0 := by
    unfold writableBytes
    rw [hlen, hw, sizeSub_of_le le_rfl, Nat.sub_self]
  have hg : Grows c (n - b.writableBytes) ↔ Grows b n := by
    unfold Grows prependableBytes
    rw [hc, hr]
    omega
  unfold grown
  rw [hw, hlen]
  exact if_congr hg (by omega) rfl

theorem length_readFd {b b' : Buffer} (hv : b.Valid) {r : ReadResult} (h : b.readFd r = .ok b') :
    b'.buffer_.length = grown b r.data.length := by
  cases r with
  | error errno =>
    cases h
    exact (grown_zero b).symm
  | bytes data =>
    have hle := hv.writer_le
    have hwb := hv.writableBytes_eq
    have htake : (data.take b.writableBytes).length ≤ b.writableBytes := List.length_take_le _ _
    have hfill : (b.fill (data.take b.writableBytes)).buffer_.length = b.buffer_.length :=
      length_overwrite (by omega)
    simp only [readFd] at h
    split_ifs at h with hfit
    · cases h
      rw [grown, if_neg fun hg => absurd hg.1 (Nat.not_lt.2 hfit)]
      exact hfill
    · have hfull : Buffer.Valid { b.fill (data.take b.writableBytes) with
          writerIndex_ := (b.fill (data.take b.writableBytes)).buffer_.length } :=
        ⟨(hv.reader_le.trans hle).trans_eq hfill.symm, le_rfl, hv.reserve_le.trans_eq hfill.symm⟩
      rw [length_append hfull h, List.length_drop]
      exact grown_full hv (Nat.not_le.1 hfit) hfill rfl hfill

/-! ### Steps -/

variable {b b' : Buffer} {op : Op}

/-- While the indices are in order an operation stays inside the vector, when `fill` stores and
`readv(2)` returns no more than there is room for. -/
theorem Op.defined_of_valid (h : b.Valid)
    (hfill : ∀ data, op = .fill data → data.length ≤ b.writableBytes)
    (hread : ∀ r, op = .readFd r → r.data.length ≤ b.writableBytes + extrabufSize) :
    op.Defined b := by
  cases op with
  | append data => exact h.writer_le
  | prepend data => exact h.reader_le.trans h.writer_le
  | ensureWritableBytes len => exact .inl h.writer_le
  | fill data =>
    have hlen := hfill data rfl
    have hw := h.writer_le
    rw [h.writableBytes_eq] at hlen
    show b.writerIndex_ + data.length ≤ b.buffer_.length
    omega
  | readFd r => exact ⟨h.writer_le, hread r rfl⟩
  | retrieve _ | retrieveAll | hasWritten _ => trivial

/-- `ensureWritableBytes` has nothing to do when `writerIndex_` is behind the end. -/
theorem ensureWritableBytes_of_le {len : ℕ} (hlen : len ≤ b.writableBytes) :
    b.ensureWritableBytes len = .ok b := by
  unfold ensureWritableBytes
  rw [if_neg (Nat.not_lt.2 hlen)]
  simp only [pure_eq_ok, ok_bind, require_of hlen]

theorem laid_step (h : BufferShrink.Laid b) (hs : Moves step b op b') : BufferShrink.Laid b' := by
  obtain ⟨hdef, hs⟩ := hs.enabled rfl
  cases op with
  | append data =>
    obtain ⟨c, hc, hv, -⟩ := append_spec (h.valid hdef) data
    cases hc.symm.trans hs
    exact .of_valid hv
  | prepend data =>
    have hlen := (require_bind_ok.1 hs).1
    have hpre : BufferQueue.Op.Pre b (.prepend data) := hlen
    exact BufferShrink.exec_laid h hpre hdef hs
  | retrieve len =>
    have hlen := (require_bind_ok.1 hs).1
    have hpre : BufferQueue.Op.Pre b (.retrieve len) := hlen
    exact BufferShrink.exec_laid h hpre trivial hs
  | retrieveAll =>
    cases hs
    exact ⟨le_rfl, h.reserve_le⟩
  | ensureWritableBytes len =>
    rcases hdef with hfit | hlen
    · obtain ⟨c, hc, hv, -⟩ := ensureWritableBytes_spec (h.valid hfit) len
      cases hc.symm.trans hs
      exact .of_valid hv
    · cases (ensureWritableBytes_of_le hlen).symm.trans hs
      exact h
  | fill data =>
    cases hs
    exact ⟨h.reader_le, h.reserve_le.trans_eq (length_overwrite hdef).symm⟩
  | hasWritten len =>
    cases hs
    exact ⟨h.reader_le.trans (Nat.le_add_right _ _), h.reserve_le⟩
  | readFd r =>
    obtain ⟨c, hc, hv, -⟩ := readFd_spec (h.valid hdef.1) r
    cases hc.symm.trans hs
    exact .of_valid hv

/-- **The size after a step.** -/
theorem length_step (h : BufferShrink.Laid b) (hs : Moves step b op b') :
    b'.buffer_.length = grown b op.room := by
  obtain ⟨hdef, hs⟩ := hs.enabled rfl
  cases op with
  | append data => exact length_append (h.valid hdef) hs
  | prepend data =>
    obtain ⟨hlen, hs⟩ := require_bind_ok.1 hs
    cases hs
    have hlen' : data.length ≤ b.readerIndex_ := hlen
    have hdef' : b.readerIndex_ ≤ b.buffer_.length := hdef
    exact (length_overwrite (by omega)).trans (grown_zero b).symm
  | retrieve len =>
    obtain ⟨-, hs⟩ := require_bind_ok.1 hs
    cases hs
    exact (grown_zero b).symm
  | retrieveAll =>
    cases hs
    exact (grown_zero b).symm
  | ensureWritableBytes len => exact length_ensureWritableBytes hs
  | fill data =>
    cases hs
    exact (length_overwrite hdef).trans (grown_zero b).symm
  | hasWritten len =>
    cases hs
    exact (grown_zero b).symm
  | readFd r => exact length_readFd (h.valid hdef.1) hs

/-- What an operation needs room for is readable after it, or was passed to
`ensureWritableBytes`. -/
theorem readableBytes_room (h : BufferShrink.Laid b) (hs : Moves step b op b') :
    b.readableBytes + op.room ≤ max b.readableBytes b'.readableBytes + op.passed b := by
  obtain ⟨hdef, hs⟩ := hs.enabled rfl
  cases op with
  | append data =>
    obtain ⟨c, hc, hv, hread⟩ := append_spec (h.valid hdef) data
    cases hc.symm.trans hs
    show b.readableBytes + data.length ≤ _
    rw [← (h.valid hdef).readableBytes_of_append hv hread]
    exact (le_max_right _ _).trans (Nat.le_add_right _ _)
  | ensureWritableBytes len => exact Nat.add_le_add_right (le_max_left _ _) len
  | readFd r =>
    obtain ⟨c, hc, hv, hread⟩ := readFd_spec (h.valid hdef.1) r
    cases hc.symm.trans hs
    show b.readableBytes + r.data.length ≤ _
    rw [← (h.valid hdef.1).readableBytes_of_append hv hread]
    exact (le_max_right _ _).trans (Nat.le_add_right _ _)
  | prepend _ | retrieve _ | retrieveAll | fill _ | hasWritten _ =>
    exact (le_max_left _ _).trans (Nat.le_add_right _ _)

theorem room_le_passed (b : Buffer) (op : Op) : op.room ≤ op.passed b + b.writableBytes := by
  cases op with
  | readFd r => exact le_tsub_add
  | _ => exact Nat.le_add_right _ _

/-! ### Runs -/

/-- What a run with the limits `R` and `L` keeps. -/
structure Within (R L : ℕ) (b : Buffer) : Prop extends BufferShrink.Laid b where
  readable_le : b.readableBytes ≤ R
  size_le : b.buffer_.length ≤ max (kCheapPrepend + kInitialSize) (kCheapPrepend + R + 2 * L)

/-- **A step keeps the bound.** When the vector grows, `readerIndex_` is less than the bytes that
have been passed and the reserve. -/
theorem within_step {R L : ℕ} (h : Within R L b) (hl : Limits R L b op)
    (hs : Moves step b op b') : Within R L b' := by
  obtain ⟨hpassed, hread'⟩ := hl
  rw [next_eq hs] at hread'
  refine ⟨laid_step h.toLaid hs, hread', ?_⟩
  rw [length_step h.toLaid hs]
  unfold grown
  split_ifs with hg
  · have hfree := hg.2
    have hroom := room_le_passed b op
    have hmax : max b.readableBytes b'.readableBytes ≤ R := max_le h.readable_le hread'
    have hbytes : b.readableBytes + op.room ≤ R + L :=
      (readableBytes_room h.toLaid hs).trans (Nat.add_le_add hmax hpassed)
    have hw : b.writerIndex_ = b.readerIndex_ + b.readableBytes := by
      have hr := h.reader_le
      have hb : b.readableBytes = b.writerIndex_ - b.readerIndex_ := sizeSub_of_le hr
      omega
    refine le_max_of_le_right ?_
    unfold prependableBytes at hfree
    omega
  · exact h.size_le

theorem new_within (R L : ℕ) : Within R L Buffer.new where
  toLaid := .of_valid new_valid
  readable_le := (new_valid.readableBytes_eq_zero.2 readable_new).trans_le (Nat.zero_le R)
  size_le := le_max_of_le_left (List.length_replicate ..).le

/-- **The storage stays bounded.** In every run from a new buffer that passes at most `L` bytes at
once to `append` or `ensureWritableBytes` and never has more than `R` readable, the vector has at
most the initial size or the reserve and `R + 2L` bytes. A step leaves its size as it is, or makes
it larger because the bytes before and behind the readable ones cannot hold the request and the
reserve. -/
theorem size_bounded {R L : ℕ} {b : Buffer}
    (h : Reach (Moves step) (Limits R L) Buffer.new b) :
    b.buffer_.length ≤ max (kCheapPrepend + kInitialSize) (kCheapPrepend + R + 2 * L) ∧
      ∀ op b', Moves step b op b' → b'.buffer_.length = b.buffer_.length ∨
        b.buffer_.length < b'.buffer_.length ∧
          b.writableBytes + b.prependableBytes < op.room + kCheapPrepend := by
  have hw : Within R L b :=
    h.invariant (new_within R L) fun x op y hx hl hs => within_step hx hl hs
  refine ⟨hw.size_le, fun op b' hs => ?_⟩
  rw [length_step hw.toLaid hs]
  unfold grown
  split_ifs with hg
  · exact .inr ⟨hg.lt, hg.2⟩
  · exact .inl rfl

/-! One byte of two has been read, and the free bytes are too few. -/

theorem size_bounded_ensured : ∃ b : Buffer, b.buffer_.length = 1110 ∧
    b.buffer_.length ≤ max (kCheapPrepend + kInitialSize) (kCheapPrepend + 2 + 2 * 1100) := by
  obtain ⟨b, hb, hp⟩ := exists_reach_of_run step (Limits 2 1100) Buffer.new
    [.append [1, 2], .retrieve 1, .ensureWritableBytes 1100]
    (fun b => b.buffer_.length = 1110) (by decide +kernel)
  exact ⟨b, of_decide_eq_true hp, (size_bounded hb).1⟩

end BufferBound

end Fppnet
