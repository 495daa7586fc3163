import Fppnet.Library.Checked
import Fppnet.Library.Storage

/-!
# `net/Buffer.h` and `net/Buffer.cpp`: the byte buffer

A buffer is a vector with two indices that split it into prependable, readable and writable bytes.

* `Buffer` has the three data members; indices and lengths are `size_t`, and `sizeSub` is their
  subtraction, which wraps around on an underflow. Sums are exact: the sizes are those a vector
  can have;
* a failed `assert` is an error that names it (`Buffer.Assertion`);
* pointers into the storage are represented by their offset from `begin()`;
* `Buffer.Valid` is the layout invariant drawn in the header's comment, and each operation has one
  specification lemma: under its precondition no assertion fails, the layout is kept, and the
  readable bytes change as stated;
* `ByteBuffer` is a buffer together with a proof of its layout.
-/

namespace Fppnet

open Checked Storage

/-- A `char` of a message or of the storage. -/
abbrev Byte := UInt8

/-- `Buffer`: the storage and the two indices into it. -/
structure Buffer where
  buffer_ : List Byte
  readerIndex_ : ℕ
  writerIndex_ : ℕ
  deriving DecidableEq

namespace Buffer

/-- The assertions of the class. -/
inductive Assertion
  | retrieveLen
  | retrieveUntilEnd
  | ensureWritable
  | prependLen
  | makeSpaceReader
  | makeSpaceReadable
  deriving DecidableEq

def kCheapPrepend : ℕ := 8

def kInitialSize : ℕ := 1024

/-- The size of the stack buffer of `readFd`. -/
def extrabufSize : ℕ := 65536

/-- Subtraction of two `size_t` values. -/
def sizeSub (m n : ℕ) : ℕ := if n ≤ m then m - n else m + 2 ^ 64 - n

theorem sizeSub_of_le {m n : ℕ} (h : n ≤ m) : sizeSub m n = m - n := if_pos h

/-- `Buffer::Buffer()`. -/
def new : Buffer := ⟨List.replicate (kCheapPrepend + kInitialSize) 0, kCheapPrepend, kCheapPrepend⟩

def readableBytes (b : Buffer) : ℕ := sizeSub b.writerIndex_ b.readerIndex_

def writableBytes (b : Buffer) : ℕ := sizeSub b.buffer_.length b.writerIndex_

def prependableBytes (b : Buffer) : ℕ := b.readerIndex_

/-- The bytes from `peek()` to `beginWrite()`. -/
def readable (b : Buffer) : List Byte := slice b.buffer_ b.readerIndex_ b.writerIndex_

def retrieve (b : Buffer) (len : ℕ) : Except Assertion Buffer := do
  require (len ≤ b.readableBytes) .retrieveLen
  pure { b with readerIndex_ := b.readerIndex_ + len }

/-- `retrieveUntil`, for the pointer `begin() + stop`. -/
def retrieveUntil (b : Buffer) (stop : ℕ) : Except Assertion Buffer := do
  require (b.readerIndex_ ≤ stop) .retrieveUntilEnd
  require (stop ≤ b.writerIndex_) .retrieveUntilEnd
  b.retrieve (stop - b.readerIndex_)

def retrieveAll (b : Buffer) : Buffer :=
  { b with readerIndex_ := kCheapPrepend, writerIndex_ := kCheapPrepend }

/-- `retrieveAsString`: the string built from the readable bytes, and the emptied buffer. -/
def retrieveAsString (b : Buffer) : List Byte × Buffer :=
  ((b.buffer_.drop b.readerIndex_).take b.readableBytes, b.retrieveAll)

def makeSpace (b : Buffer) (len : ℕ) : Except Assertion Buffer :=
  if b.writableBytes + b.prependableBytes < len + kCheapPrepend then
    pure { b with buffer_ := resize b.buffer_ (b.writerIndex_ + len) 0 }
  else do
    require (kCheapPrepend < b.readerIndex_) .makeSpaceReader
    let readable := b.readableBytes
    -- `std::copy` inside one vector: the source and target ranges may overlap
    let moved : Buffer :=
      { buffer_ := copyForward b.buffer_ b.readerIndex_ kCheapPrepend
          (b.writerIndex_ - b.readerIndex_)
        readerIndex_ := kCheapPrepend
        writerIndex_ := kCheapPrepend + readable }
    require (readable = moved.readableBytes) .makeSpaceReadable
    pure moved

def ensureWritableBytes (b : Buffer) (len : ℕ) : Except Assertion Buffer := do
  let b' ← if b.writableBytes < len then b.makeSpace len else pure b
  require (len ≤ b'.writableBytes) .ensureWritable
  pure b'

def hasWritten (b : Buffer) (len : ℕ) : Buffer := { b with writerIndex_ := b.writerIndex_ + len }

/-- Bytes stored through `beginWrite()`; they become readable with `hasWritten`. -/
def fill (b : Buffer) (data : List Byte) : Buffer :=
  { b with buffer_ := overwrite b.buffer_ b.writerIndex_ data }

def append (b : Buffer) (data : List Byte) : Except Assertion Buffer := do
  let b' ← b.ensureWritableBytes data.length
  pure ((b'.fill data).hasWritten data.length)

def prepend (b : Buffer) (data : List Byte) : Except Assertion Buffer := do
  require (data.length ≤ b.prependableBytes) .prependLen
  let r := b.readerIndex_ - data.length
  pure { b with readerIndex_ := r, buffer_ := overwrite b.buffer_ r data }

/-- `shrink`: the readable bytes go to a new vector, and the indices stay as they are. -/
def shrink (b : Buffer) (reserve : ℕ) : Buffer :=
  let buf := List.replicate (kCheapPrepend + b.readableBytes + reserve) 0
  { b with buffer_ := overwrite buf kCheapPrepend b.readable }

/-- What `readv(2)` or `read(2)` returns: an error, or the bytes read (none at end of file). -/
inductive ReadResult
  | error (errno : ℕ)
  | bytes (data : List Byte)
  deriving DecidableEq

/-- `readFd`: `readv` fills the writable bytes first and puts the rest into `extrabuf`. -/
def readFd (b : Buffer) : ReadResult → Except Assertion Buffer
  | .error _ => pure b
  | .bytes data =>
    let writable := b.writableBytes
    let filled := b.fill (data.take writable)
    if data.length ≤ writable then pure (filled.hasWritten data.length)
    else { filled with writerIndex_ := filled.buffer_.length }.append (data.drop writable)

/-! ### The layout -/

/-- The layout of the header's diagram: `0 ≤ readerIndex ≤ writerIndex ≤ size`, with room for the
reserve. -/
structure Valid (b : Buffer) : Prop where
  reader_le : b.readerIndex_ ≤ b.writerIndex_
  writer_le : b.writerIndex_ ≤ b.buffer_.length
  reserve_le : kCheapPrepend ≤ b.buffer_.length

namespace Valid

variable {b : Buffer}

theorem readableBytes_eq (h : b.Valid) : b.readableBytes = b.writerIndex_ - b.readerIndex_ :=
  sizeSub_of_le h.reader_le

theorem writableBytes_eq (h : b.Valid) : b.writableBytes = b.buffer_.length - b.writerIndex_ :=
  sizeSub_of_le h.writer_le

theorem length_readable (h : b.Valid) : b.readable.length = b.readableBytes := by
  rw [h.readableBytes_eq]
  exact length_slice h.writer_le

theorem readableBytes_eq_zero (h : b.Valid) : b.readableBytes = 0 ↔ b.readable = [] := by
  rw [← h.length_readable, List.length_eq_zero_iff]

/-- The number of readable bytes, when some have been added. -/
theorem readableBytes_of_append {b' : Buffer} {data : List Byte} (h : b.Valid) (h' : b'.Valid)
    (hread : b'.readable = b.readable ++ data) :
    b'.readableBytes = b.readableBytes + data.length := by
  rw [← h.length_readable, ← h'.length_readable, hread, List.length_append]

end Valid

theorem new_valid : new.Valid where
  reader_le := le_rfl
  writer_le := by simp [new]
  reserve_le := by simp [new]

@[simp] theorem readable_new : new.readable = [] := slice_self _ _

theorem retrieve_spec {b : Buffer} (h : b.Valid) {len : ℕ} (hlen : len ≤ b.readableBytes) :
    ∃ b', b.retrieve len = .ok b' ∧ b'.Valid ∧ b'.readable = b.readable.drop len := by
  refine ⟨{ b with readerIndex_ := b.readerIndex_ + len }, ?_, ⟨?_, h.writer_le, h.reserve_le⟩,
    slice_add_left _ _ _ _⟩
  · unfold retrieve
    rw [require_of hlen]
    rfl
  · rw [h.readableBytes_eq] at hlen
    have := h.reader_le
    dsimp only
    omega

theorem retrieveUntil_spec {b : Buffer} (h : b.Valid) (stop : ℕ) (h₁ : b.readerIndex_ ≤ stop)
    (h₂ : stop ≤ b.writerIndex_) :
    ∃ b', b.retrieveUntil stop = .ok b' ∧ b'.Valid ∧
      b'.readable = b.readable.drop (stop - b.readerIndex_) := by
  unfold retrieveUntil
  rw [require_of h₁, require_of h₂]
  exact retrieve_spec h (by rw [h.readableBytes_eq]; omega)

theorem retrieveAll_spec {b : Buffer} (h : b.Valid) :
    b.retrieveAll.Valid ∧ b.retrieveAll.readable = [] :=
  ⟨⟨le_rfl, h.reserve_le, h.reserve_le⟩, slice_self _ _⟩

theorem retrieveAsString_spec {b : Buffer} (h : b.Valid) :
    b.retrieveAsString = (b.readable, b.retrieveAll) := by
  unfold retrieveAsString readable slice
  rw [h.readableBytes_eq]

/-- `makeSpace`, called as `ensureWritableBytes` does, makes room for `len` bytes and moves the
readable bytes at most. The branch that slides the data is taken only when
`kCheapPrepend < readerIndex_`, since the writable bytes alone were too few. -/
theorem makeSpace_spec {b : Buffer} (h : b.Valid) {len : ℕ} (hlen : b.writableBytes < len) :
    ∃ b', b.makeSpace len = .ok b' ∧ b'.Valid ∧ len ≤ b'.writableBytes ∧
      b'.readable = b.readable := by
  obtain ⟨hr, hw, hp⟩ := h
  have hwb := Valid.writableBytes_eq ⟨hr, hw, hp⟩
  have hrb := Valid.readableBytes_eq ⟨hr, hw, hp⟩
  unfold makeSpace
  split_ifs with hc
  · set b' : Buffer := { b with buffer_ := resize b.buffer_ (b.writerIndex_ + len) 0 } with hb'
    have hlen' : b'.buffer_.length = b.writerIndex_ + len := length_resize _ _ _
    have hv : b'.Valid := ⟨hr, by rw [hlen']; exact Nat.le_add_right _ _, by rw [hlen']; omega⟩
    refine ⟨b', rfl, hv, ?_, slice_resize 0 hw (Nat.le_add_right _ _)⟩
    rw [hv.writableBytes_eq, hlen']
    simp only [hb']
    omega
  · unfold prependableBytes at hc
    have hreader : kCheapPrepend < b.readerIndex_ := by omega
    have hcopy : b.readerIndex_ + (b.writerIndex_ - b.readerIndex_) = b.writerIndex_ := by omega
    set b' : Buffer :=
      { buffer_ := copyForward b.buffer_ b.readerIndex_ kCheapPrepend
          (b.writerIndex_ - b.readerIndex_)
        readerIndex_ := kCheapPrepend
        writerIndex_ := kCheapPrepend + b.readableBytes } with hb'
    have hlen' : b'.buffer_.length = b.buffer_.length := length_copyForward _ _ _ _
    have hv : b'.Valid := by
      refine ⟨Nat.le_add_right _ _, ?_, by rw [hlen']; exact hp⟩
      rw [hlen']
      simp only [hb']
      omega
    have hreadable : b.readableBytes = b'.readableBytes := by
      rw [hv.readableBytes_eq]
      simp only [hb']
      omega
    refine ⟨b', ?_, hv, ?_, ?_⟩
    · rw [require_of hreader, ok_bind]
      simp only [← hb']
      rw [require_of hreadable]
      rfl
    · rw [hv.writableBytes_eq, hlen']
      simp only [hb']
      omega
    · have := copyForward_slice b.buffer_ hreader.le (by omega : b.readerIndex_ +
        (b.writerIndex_ - b.readerIndex_) ≤ b.buffer_.length)
      rw [hcopy] at this
      rw [readable, readable, ← this, hb', hrb]

theorem ensureWritableBytes_spec {b : Buffer} (h : b.Valid) (len : ℕ) :
    ∃ b', b.ensureWritableBytes len = .ok b' ∧ b'.Valid ∧ len ≤ b'.writableBytes ∧
      b'.readable = b.readable := by
  unfold ensureWritableBytes
  split_ifs with hlen
  · obtain ⟨b', hb', hv, hroom, hread⟩ := makeSpace_spec h hlen
    refine ⟨b', ?_, hv, hroom, hread⟩
    simp only [hb', ok_bind, require_of hroom]
    rfl
  · refine ⟨b, ?_, h, by omega, rfl⟩
    simp only [pure_eq_ok, ok_bind]
    rw [require_of (by omega)]
    rfl

/-- Filling writable bytes and then calling `hasWritten` appends them. -/
theorem hasWritten_spec {b : Buffer} (h : b.Valid) (data : List Byte)
    (hlen : data.length ≤ b.writableBytes) :
    ((b.fill data).hasWritten data.length).Valid ∧
      ((b.fill data).hasWritten data.length).readable = b.readable ++ data := by
  rw [h.writableBytes_eq] at hlen
  obtain ⟨hr, hw, hp⟩ := h
  have hfit : b.writerIndex_ + data.length ≤ b.buffer_.length := by omega
  have hkeep : (overwrite b.buffer_ b.writerIndex_ data).length = b.buffer_.length :=
    length_overwrite hfit
  refine ⟨⟨?_, ?_, ?_⟩, slice_overwrite_end data hr hfit⟩
  · exact hr.trans (Nat.le_add_right _ _)
  · exact hfit.trans_eq hkeep.symm
  · exact hp.trans_eq hkeep.symm

theorem append_spec {b : Buffer} (h : b.Valid) (data : List Byte) :
    ∃ b', b.append data = .ok b' ∧ b'.Valid ∧ b'.readable = b.readable ++ data := by
  obtain ⟨b', hb', hv, hroom, hread⟩ := ensureWritableBytes_spec h data.length
  obtain ⟨hv', hread'⟩ := hasWritten_spec hv data hroom
  refine ⟨_, ?_, hv', by rw [hread', hread]⟩
  unfold append
  rw [hb']
  rfl

theorem prepend_spec {b : Buffer} (h : b.Valid) {data : List Byte}
    (hlen : data.length ≤ b.prependableBytes) :
    ∃ b', b.prepend data = .ok b' ∧ b'.Valid ∧ b'.readable = data ++ b.readable := by
  obtain ⟨hr, hw, hp⟩ := h
  have hstart : b.readerIndex_ - data.length + data.length = b.readerIndex_ :=
    Nat.sub_add_cancel hlen
  have hkeep : (overwrite b.buffer_ (b.readerIndex_ - data.length) data).length =
      b.buffer_.length := length_overwrite (by omega)
  refine ⟨{ b with
      readerIndex_ := b.readerIndex_ - data.length
      buffer_ := overwrite b.buffer_ (b.readerIndex_ - data.length) data }, ?_, ⟨?_, ?_, ?_⟩, ?_⟩
  · unfold prepend
    rw [require_of hlen]
    rfl
  · exact (Nat.sub_le _ _).trans hr
  · exact hw.trans_eq hkeep.symm
  · exact hp.trans_eq hkeep.symm
  · have := slice_overwrite_begin b.buffer_ data (hstart.trans_le hr) hw
    rw [hstart] at this
    exact this

theorem length_shrink {b : Buffer} (h : b.Valid) (reserve : ℕ) :
    (b.shrink reserve).buffer_.length = kCheapPrepend + b.readableBytes + reserve := by
  have hlen := h.length_readable
  unfold shrink
  dsimp only
  rw [length_overwrite] <;> rw [List.length_replicate]
  omega

/-- `shrink` of a buffer that has not been read from. -/
theorem shrink_spec {b : Buffer} (h : b.Valid) (hr : b.readerIndex_ = kCheapPrepend)
    (reserve : ℕ) :
    (b.shrink reserve).Valid ∧ (b.shrink reserve).readable = b.readable ∧
      (b.shrink reserve).writableBytes = reserve := by
  have hlen := length_shrink h reserve
  have hw : b.writerIndex_ = kCheapPrepend + b.readable.length := by
    have := h.reader_le
    rw [h.length_readable, h.readableBytes_eq]
    omega
  have hv : (b.shrink reserve).Valid := by
    refine ⟨h.reader_le, ?_, ?_⟩
    · rw [hlen, ← h.length_readable]
      exact hw.trans_le (Nat.le_add_right _ _)
    · rw [hlen, Nat.add_assoc]
      exact Nat.le_add_right _ _
  refine ⟨hv, ?_, ?_⟩
  · set buf : List Byte := List.replicate (kCheapPrepend + b.readableBytes + reserve) 0 with hbuf
    have hfit : kCheapPrepend + b.readable.length ≤ buf.length := by
      rw [hbuf, List.length_replicate, h.length_readable]
      exact Nat.le_add_right _ _
    have hover := slice_overwrite_end b.readable (le_refl kCheapPrepend) hfit
    rw [slice_self, List.nil_append, ← hw] at hover
    show slice (overwrite buf kCheapPrepend b.readable) b.readerIndex_ b.writerIndex_ = b.readable
    rw [hr]
    exact hover
  · rw [hv.writableBytes_eq, hlen]
    show _ - b.writerIndex_ = reserve
    rw [hw, h.length_readable]
    exact Nat.add_sub_cancel_left ..

/-- The bytes a read delivers. -/
def ReadResult.data : ReadResult → List Byte
  | .error _ => []
  | .bytes data => data

theorem readFd_spec {b : Buffer} (h : b.Valid) (r : ReadResult) :
    ∃ b', b.readFd r = .ok b' ∧ b'.Valid ∧ b'.readable = b.readable ++ r.data := by
  cases r with
  | error errno => exact ⟨b, rfl, h, (List.append_nil _).symm⟩
  | bytes data =>
    simp only [readFd, ReadResult.data]
    split_ifs with hfit
    · rw [List.take_of_length_le hfit]
      obtain ⟨hv, hread⟩ := hasWritten_spec h data hfit
      exact ⟨_, rfl, hv, hread⟩
    · -- `readv` filled the writable bytes up to the end of the storage
      have htake : (data.take b.writableBytes).length = b.writableBytes := by
        rw [List.length_take]
        omega
      obtain ⟨hv, hread⟩ := hasWritten_spec h (data.take b.writableBytes) htake.le
      have hfull : { b.fill (data.take b.writableBytes) with
          writerIndex_ := (b.fill (data.take b.writableBytes)).buffer_.length } =
          (b.fill (data.take b.writableBytes)).hasWritten
            (data.take b.writableBytes).length := by
        have hw := h.writer_le
        have hwb := h.writableBytes_eq
        have hlen : (b.fill (data.take b.writableBytes)).buffer_.length = b.buffer_.length :=
          length_overwrite (by omega)
        simp only [hasWritten, mk.injEq, true_and]
        rw [hlen, htake]
        simp only [fill]
        omega
      rw [hfull]
      obtain ⟨b', hb', hv', hread'⟩ := append_spec hv (data.drop b.writableBytes)
      refine ⟨b', hb', hv', ?_⟩
      rw [hread', hread, List.append_assoc, List.take_append_drop]

end Buffer

/-- A buffer with a proof of its layout. -/
abbrev ByteBuffer := {b : Buffer // b.Valid}

namespace ByteBuffer

/-- The result of a buffer operation that is known to keep the layout. -/
def ofSpec {x : Except Buffer.Assertion Buffer}
    (h : ∃ b, x = .ok b ∧ b.Valid) : ByteBuffer :=
  match x, h with
  | .ok b, h => ⟨b, by obtain ⟨_, hb, hv⟩ := h; cases hb; exact hv⟩
  | .error _, h => absurd h (by rintro ⟨_, h, -⟩; cases h)

theorem ofSpec_val {x : Except Buffer.Assertion Buffer} {b : Buffer} (hx : x = .ok b)
    (h : ∃ b, x = .ok b ∧ b.Valid) : (ofSpec h).1 = b := by
  subst hx
  rfl

def new : ByteBuffer := ⟨Buffer.new, Buffer.new_valid⟩

def readable (b : ByteBuffer) : List Byte := b.1.readable

def readableBytes (b : ByteBuffer) : ℕ := b.1.readableBytes

def append (b : ByteBuffer) (data : List Byte) : ByteBuffer :=
  ofSpec (x := b.1.append data)
    (by obtain ⟨b', h, hv, -⟩ := Buffer.append_spec b.2 data; exact ⟨b', h, hv⟩)

def readFd (b : ByteBuffer) (r : Buffer.ReadResult) : ByteBuffer :=
  ofSpec (x := b.1.readFd r)
    (by obtain ⟨b', h, hv, -⟩ := Buffer.readFd_spec b.2 r; exact ⟨b', h, hv⟩)

/-- `retrieve` of at most the readable bytes, as every caller outside user code does. -/
def retrieve (b : ByteBuffer) (len : ℕ) (hlen : len ≤ b.readableBytes) : ByteBuffer :=
  ofSpec (x := b.1.retrieve len)
    (by obtain ⟨b', h, hv, -⟩ := Buffer.retrieve_spec b.2 hlen; exact ⟨b', h, hv⟩)

/-- `retrieveAsString` -/
def retrieveAsString (b : ByteBuffer) : List Byte × ByteBuffer :=
  (b.1.retrieveAsString.1, ⟨b.1.retrieveAsString.2, (Buffer.retrieveAll_spec b.2).1⟩)

@[simp] theorem readable_new : new.readable = [] := Buffer.readable_new

theorem length_readable (b : ByteBuffer) : b.readable.length = b.readableBytes :=
  b.2.length_readable

theorem readableBytes_eq_zero {b : ByteBuffer} : b.readableBytes = 0 ↔ b.readable = [] :=
  b.2.readableBytes_eq_zero

@[simp] theorem readable_append (b : ByteBuffer) (data : List Byte) :
    (b.append data).readable = b.readable ++ data := by
  obtain ⟨b', h, -, hread⟩ := Buffer.append_spec b.2 data
  rw [readable, append, ofSpec_val h, hread]
  rfl

@[simp] theorem readable_readFd (b : ByteBuffer) (r : Buffer.ReadResult) :
    (b.readFd r).readable = b.readable ++ r.data := by
  obtain ⟨b', h, -, hread⟩ := Buffer.readFd_spec b.2 r
  rw [readable, readFd, ofSpec_val h, hread]
  rfl

@[simp] theorem readable_retrieve (b : ByteBuffer) (len : ℕ) (hlen : len ≤ b.readableBytes) :
    (b.retrieve len hlen).readable = b.readable.drop len := by
  obtain ⟨b', h, -, hread⟩ := Buffer.retrieve_spec b.2 hlen
  rw [readable, retrieve, ofSpec_val h, hread]
  rfl

theorem retrieveAsString_spec (b : ByteBuffer) :
    b.retrieveAsString.1 = b.readable ∧ b.retrieveAsString.2.readable = [] :=
  ⟨congrArg Prod.fst (Buffer.retrieveAsString_spec b.2), (Buffer.retrieveAll_spec b.2).2⟩

end ByteBuffer

end Fppnet
