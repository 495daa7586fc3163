import Fppnet.Net.BufferQueue

/-!
# `Buffer::shrink`

`shrink` copies the readable bytes to the beginning of a new vector, behind the reserve, and leaves
`readerIndex_` and `writerIndex_` as they are. They fit the new vector only when they fit already
before, that is when `readerIndex_` is where the constructor sets it.

* `Op` are the operations of the class, now with `shrink`. An operation is a step only when it is
  applied under its precondition and touches no memory outside the vector (`Op.Defined`): after a
  `shrink` the indices may point behind the end, and a new vector whose size wraps around is too
  short for the bytes that are copied to it (`Fits`);
* `shrink_preserves_iff`: a `shrink` preserves the buffer if and only if `readerIndex_` is
  `kCheapPrepend` and the size of the new vector does not wrap around;
* `shrinking_refines_queue`: with such calls a buffer is a queue of bytes, also when it shrinks.
-/

namespace Fppnet

open Runs

namespace BufferShrink

open Buffer

inductive Op
  | base (op : BufferQueue.Op)
  | shrink (reserve : ℕ)

/-- The memory that an operation touches is inside the vector. The first three move an index. -/
def Defined (b : Buffer) : BufferQueue.Op → Prop
  | .retrieve _ | .retrieveUntil _ | .retrieveAll => True
  | .prepend _ => b.readerIndex_ ≤ b.buffer_.length
  | _ => b.writerIndex_ ≤ b.buffer_.length

/-- The size of the new vector of `shrink` is a `size_t`. A sum that wraps around is less than the
room that is needed for the readable bytes, since `reserve` is less than `2 ^ 64`. -/
def Fits (b : Buffer) (reserve : ℕ) : Prop :=
  kCheapPrepend + b.readableBytes + reserve < 18446744073709551616

instance (b : Buffer) (reserve : ℕ) : Decidable (Fits b reserve) :=
  inferInstanceAs (Decidable (_ < _))

def Op.Pre (b : Buffer) : Op → Prop
  | .base op => op.Pre b ∧ Defined b op
  | .shrink reserve => b.writerIndex_ ≤ b.buffer_.length ∧ Fits b reserve

instance (b : Buffer) (op : BufferQueue.Op) : Decidable (Defined b op) :=
  match op with
  | .retrieve _ | .retrieveUntil _ | .retrieveAll => inferInstanceAs (Decidable True)
  | .prepend _ => inferInstanceAs (Decidable (_ ≤ _))
  | .append _ | .retrieveAsString | .ensureWritableBytes _ | .hasWritten _ | .readFd _ =>
    inferInstanceAs (Decidable (_ ≤ _))

instance (b : Buffer) (op : Op) : Decidable (op.Pre b) :=
  match op with
  | .base op => inferInstanceAs (Decidable (op.Pre b ∧ Defined b op))
  | .shrink reserve =>
    inferInstanceAs (Decidable (b.writerIndex_ ≤ b.buffer_.length ∧ Fits b reserve))

def exec (b : Buffer) : Op → Except Assertion Buffer
  | .base op => BufferQueue.exec b op
  | .shrink reserve => pure (b.shrink reserve)

def step (b : Buffer) (op : Op) : Option (Except Assertion Buffer) :=
  if op.Pre b then some (exec b op) else none

/-! ### The indices -/

/-- What holds of the indices also when they point behind the end. -/
structure Laid (b : Buffer) : Prop where
  reader_le : b.readerIndex_ ≤ b.writerIndex_
  reserve_le : kCheapPrepend ≤ b.buffer_.length

theorem Laid.valid {b : Buffer} (h : Laid b) (hfit : b.writerIndex_ ≤ b.buffer_.length) :
    b.Valid := ⟨h.reader_le, hfit, h.reserve_le⟩

theorem Laid.of_valid {b : Buffer} (h : b.Valid) : Laid b := ⟨h.reader_le, h.reserve_le⟩

/-- The operations that move an index, on a vector that may be too short. -/
theorem exec_laid {b b' : Buffer} (h : Laid b) {op : BufferQueue.Op} (hop : op.Pre b)
    (hdef : Defined b op) (hs : BufferQueue.exec b op = .ok b') : Laid b' := by
  by_cases hfit : b.writerIndex_ ≤ b.buffer_.length
  · obtain ⟨c, hc, hv, -⟩ := BufferQueue.exec_spec (h.valid hfit) op hop
    rw [hc] at hs
    cases hs
    exact .of_valid hv
  have hbytes : b.readableBytes = b.writerIndex_ - b.readerIndex_ := sizeSub_of_le h.reader_le
  have hr := h.reader_le
  cases op with
  | retrieve len =>
    obtain ⟨hlen, hs⟩ := Checked.require_bind_ok.1 hs
    cases hs
    refine ⟨?_, h.reserve_le⟩
    show b.readerIndex_ + len ≤ b.writerIndex_
    omega
  | retrieveUntil len =>
    obtain ⟨-, hs⟩ := Checked.require_bind_ok.1 hs
    obtain ⟨hstop, hs⟩ := Checked.require_bind_ok.1 hs
    obtain ⟨-, hs⟩ := Checked.require_bind_ok.1 hs
    cases hs
    refine ⟨?_, h.reserve_le⟩
    show b.readerIndex_ + (b.readerIndex_ + len - b.readerIndex_) ≤ b.writerIndex_
    omega
  | retrieveAll =>
    cases hs
    exact ⟨le_rfl, h.reserve_le⟩
  | prepend data =>
    obtain ⟨hlen, hs⟩ := Checked.require_bind_ok.1 hs
    cases hs
    have hlen' : data.length ≤ b.readerIndex_ := hlen
    have hdef' : b.readerIndex_ ≤ b.buffer_.length := hdef
    have hkeep : (Storage.overwrite b.buffer_ (b.readerIndex_ - data.length) data).length =
        b.buffer_.length := Storage.length_overwrite (by omega)
    exact ⟨(Nat.sub_le _ _).trans hr, h.reserve_le.trans_eq hkeep.symm⟩
  | _ => exact absurd hdef hfit

theorem step_laid {b b' : Buffer} {op : Op} (h : Laid b) (hs : Moves step b op b') : Laid b' := by
  obtain ⟨hop, hs⟩ := hs.enabled rfl
  cases op with
  | base op => exact exec_laid h hop.1 hop.2 hs
  | shrink reserve =>
    cases hs
    refine ⟨h.reader_le, ?_⟩
    rw [length_shrink (h.valid hop.1), Nat.add_assoc]
    exact Nat.le_add_right _ _

theorem laid_of_path {ops : List Op} {b : Buffer} (h : Path (Moves step) ops Buffer.new b) :
    Laid b := by
  refine (h.refines Laid (fun _ => ()) (fun _ _ => ()) (.of_valid new_valid) ?_).1
  exact fun x op y hx hs => ⟨step_laid hx hs, rfl⟩

/-! ### When `shrink` preserves the buffer -/

/-- A `shrink` has made `b'` of `b`: the bytes are the same, the indices are in order, the reserve
is what can be written, and what follows acts as on the same list of bytes. -/
structure Preserves (b : Buffer) (reserve : ℕ) (b' : Buffer) : Prop where
  readable : b'.readable = b.readable
  reader_le : b'.readerIndex_ ≤ b'.writerIndex_
  writer_le : b'.writerIndex_ ≤ b'.buffer_.length
  writableBytes : b'.writableBytes = reserve
  later : ∀ ops c, Path (Moves BufferQueue.step) ops b' c →
    c.readable = ops.foldl ByteQueue.step b.readable

theorem preserves_of_reader {b : Buffer} (h : b.Valid) (hr : b.readerIndex_ = kCheapPrepend)
    (reserve : ℕ) : Preserves b reserve (b.shrink reserve) := by
  obtain ⟨hv, hread, hw⟩ := shrink_spec h hr reserve
  refine ⟨hread, hv.reader_le, hv.writer_le, hw, fun ops c hc => ?_⟩
  rw [← hread]
  exact (hc.refines Buffer.Valid Buffer.readable ByteQueue.step hv
    fun x op y hx hs => BufferQueue.step_refines hx hs).2

/-- The writable bytes are the reserve only when the written ones end where the indices say. -/
theorem reader_of_preserves {b : Buffer} (h : b.Valid) {reserve : ℕ}
    (hp : Preserves b reserve (b.shrink reserve)) : b.readerIndex_ = kCheapPrepend := by
  have hlen := length_shrink h reserve
  have hbytes := h.readableBytes_eq
  have hfit : b.writerIndex_ ≤ (b.shrink reserve).buffer_.length := hp.writer_le
  have hw : (b.shrink reserve).buffer_.length - b.writerIndex_ = reserve :=
    (sizeSub_of_le hp.writer_le).symm.trans hp.writableBytes
  have hr := h.reader_le
  omega

/-- **`shrink` preserves the buffer if and only if nothing has been read since the indices were last
at the beginning** and the size of the new vector does not wrap around, in every state that the
operations reach and whose readable bytes are inside the vector. -/
theorem shrink_preserves_iff {ops : List Op} {b : Buffer} {reserve : ℕ}
    (h : Path (Moves step) ops Buffer.new b) (hfit : b.writerIndex_ ≤ b.buffer_.length) :
    (∃ b', Moves step b (.shrink reserve) b' ∧ Preserves b reserve b') ↔
      b.readerIndex_ = kCheapPrepend ∧ Fits b reserve := by
  have hv := (laid_of_path h).valid hfit
  constructor
  · rintro ⟨b', hs, hp⟩
    obtain ⟨hop, hs⟩ := hs.enabled rfl
    cases hs
    exact ⟨reader_of_preserves hv hp, hop.2⟩
  · rintro ⟨hr, hsize⟩
    exact ⟨b.shrink reserve, if_pos ⟨hfit, hsize⟩, preserves_of_reader hv hr reserve⟩

/-! Everything that was appended has been read at once, and there is new data. -/

def emptied : List Op :=
  [.base (.append [1, 2]), .base .retrieveAsString, .base (.append [3])]

theorem shrink_preserves_iff_emptied : ∃ b b', Moves step b (.shrink 0) b' ∧ Preserves b 0 b' ∧
    b'.readable = [3] := by
  obtain ⟨b, hb, hp⟩ := exists_path_of_run step Always Buffer.new emptied
    (fun b => b.readerIndex_ = kCheapPrepend ∧ b.readable = [3] ∧
      b.writerIndex_ ≤ b.buffer_.length ∧ Fits b 0) (by decide +kernel)
  obtain ⟨hr, hread, hfit, hsize⟩ := of_decide_eq_true hp
  obtain ⟨b', hs, hpres⟩ := (shrink_preserves_iff hb hfit).2 ⟨hr, hsize⟩
  exact ⟨b, b', hs, hpres, hpres.readable.trans hread⟩

/-! One byte has been read, and the new vector ends before `writerIndex_`. -/

theorem shrink_cuts_off : ∃ b b',
    Path (Moves step) [.base (.append [1, 2]), .base (.retrieve 1)] Buffer.new b ∧
      Moves step b (.shrink 0) b' ∧ ¬ Preserves b 0 b' := by
  obtain ⟨b, hb, hp⟩ := exists_path_of_run step Always Buffer.new
    [.base (.append [1, 2]), .base (.retrieve 1)]
    (fun b => succeeds step b (.shrink 0) = true ∧
      (next step b (.shrink 0)).buffer_.length < (next step b (.shrink 0)).writerIndex_)
    (by decide +kernel)
  obtain ⟨hs, hlt⟩ := of_decide_eq_true hp
  exact ⟨b, _, hb, moves_next hs, fun hpres => absurd hpres.writer_le (Nat.not_le.2 hlt)⟩

/-! ### Runs with `shrink` -/

/-- A `shrink` is called when `readerIndex_` is at the beginning. -/
def Unread (b : Buffer) : Op → Prop
  | .base _ => True
  | .shrink _ => b.readerIndex_ = kCheapPrepend

/-- The queue of bytes, on which `shrink` does nothing. -/
def queueStep (q : List Byte) : Op → List Byte
  | .base op => ByteQueue.step q op
  | .shrink _ => q

/-- **A buffer that shrinks is a queue of bytes**, when each `shrink` finds `readerIndex_` at the
beginning. -/
theorem shrinking_refines_queue {ops : List Op} {b : Buffer}
    (h : Path (fun b op b' => Unread b op ∧ Moves step b op b') ops Buffer.new b) :
    b.Valid ∧ b.readable = ops.foldl queueStep [] := by
  rw [← readable_new]
  refine h.refines Buffer.Valid Buffer.readable queueStep new_valid fun x op y hx hs => ?_
  obtain ⟨hun, hs⟩ := hs
  obtain ⟨hop, hs⟩ := hs.enabled rfl
  cases op with
  | base op =>
    obtain ⟨c, hc, hv, hread⟩ := BufferQueue.exec_spec hx op hop.1
    cases hc.symm.trans hs
    exact ⟨hv, hread⟩
  | shrink reserve =>
    cases hs
    obtain ⟨hv, hread, -⟩ := shrink_spec hx hun reserve
    exact ⟨hv, hread⟩

end BufferShrink

end Fppnet
