import Fppnet.Library.Run
import Fppnet.Net.Buffer

/-!
# The buffer refines a queue of bytes

`note6.md`: "Buffer is really more like a queue, data is written at the end and read from the
head". The abstract model is a list of bytes with the operations `ByteQueue.step`; the faithful
model is the class of `Buffer.lean` driven by the same operations (`exec`).

* `Op` are the operations of the class, `Op.Pre` what a caller has to respect;
* `step_spec`: under its precondition an operation fails no assertion, keeps the layout and is
  tracked by the queue;
* `buffer_refines_queue`: so does every sequence of operations on a fresh buffer.
-/

namespace Fppnet

open Runs

namespace BufferQueue

open Buffer

/-- The operations of the class. `hasWritten data` stands for storing `data` through
`beginWrite()` and calling `hasWritten(data.size())`; `retrieveUntil n` for the end pointer
`peek() + n`. -/
inductive Op
  | append (data : List Byte)
  | prepend (data : List Byte)
  | retrieve (len : ℕ)
  | retrieveUntil (len : ℕ)
  | retrieveAll
  | retrieveAsString
  | ensureWritableBytes (len : ℕ)
  | hasWritten (data : List Byte)
  | readFd (r : ReadResult)

/-- What a caller respects; for `readFd`, what `readv(2)` respects. -/
def Op.Pre (b : Buffer) : Op → Prop
  | .prepend data => data.length ≤ b.prependableBytes
  | .retrieve len => len ≤ b.readableBytes
  | .retrieveUntil len => len ≤ b.readableBytes
  | .hasWritten data => data.length ≤ b.writableBytes
  | .readFd r => r.data.length ≤ b.writableBytes + extrabufSize
  | _ => True

instance (b : Buffer) (op : Op) : Decidable (op.Pre b) := by
  cases op <;> unfold Op.Pre <;> infer_instance

/-- The operation of the class. -/
def exec (b : Buffer) : Op → Except Assertion Buffer
  | .append data => b.append data
  | .prepend data => b.prepend data
  | .retrieve len => b.retrieve len
  | .retrieveUntil len => b.retrieveUntil (b.readerIndex_ + len)
  | .retrieveAll => pure b.retrieveAll
  | .retrieveAsString => pure b.retrieveAsString.2
  | .ensureWritableBytes len => b.ensureWritableBytes len
  | .hasWritten data => pure ((b.fill data).hasWritten data.length)
  | .readFd r => b.readFd r

/-- A caller applies an operation only under its precondition. -/
def step (b : Buffer) (op : Op) : Option (Except Assertion Buffer) :=
  if op.Pre b then some (exec b op) else none

end BufferQueue

namespace ByteQueue

open BufferQueue

/-- The abstract queue: bytes enter at the end (or the front, with `prepend`) and leave at the
front; asking for space does nothing. -/
def step (q : List Byte) : Op → List Byte
  | .append data => q ++ data
  | .prepend data => data ++ q
  | .retrieve len => q.drop len
  | .retrieveUntil len => q.drop len
  | .retrieveAll => []
  | .retrieveAsString => []
  | .ensureWritableBytes _ => q
  | .hasWritten data => q ++ data
  | .readFd r => q ++ r.data

end ByteQueue

namespace BufferQueue

open Buffer

/-- Under its precondition an operation fails no assertion, keeps the layout and acts on the
readable bytes as on the queue. -/
theorem exec_spec {b : Buffer} (h : b.Valid) (op : Op) (hop : op.Pre b) :
    ∃ b', exec b op = .ok b' ∧ b'.Valid ∧ b'.readable = ByteQueue.step b.readable op := by
  cases op with
  | append data => exact append_spec h data
  | prepend data => exact prepend_spec h hop
  | retrieve len => exact retrieve_spec h hop
  | retrieveUntil len =>
    have hlen : len ≤ b.writerIndex_ - b.readerIndex_ := by rw [← h.readableBytes_eq]; exact hop
    have hr := h.reader_le
    obtain ⟨b', hb', hv, hread⟩ := retrieveUntil_spec h (b.readerIndex_ + len)
      (Nat.le_add_right _ _) (by omega)
    exact ⟨b', hb', hv, by rw [hread, Nat.add_sub_cancel_left]; rfl⟩
  | retrieveAll => exact ⟨_, rfl, (retrieveAll_spec h).1, (retrieveAll_spec h).2⟩
  | retrieveAsString =>
    rw [exec, retrieveAsString_spec h]
    exact ⟨_, rfl, (retrieveAll_spec h).1, (retrieveAll_spec h).2⟩
  | ensureWritableBytes len =>
    obtain ⟨b', hb', hv, -, hread⟩ := ensureWritableBytes_spec h len
    exact ⟨b', hb', hv, hread⟩
  | hasWritten data =>
    exact ⟨_, rfl, (hasWritten_spec h data hop).1, (hasWritten_spec h data hop).2⟩
  | readFd r => exact readFd_spec h r

theorem step_spec {b : Buffer} (h : b.Valid) (op : Op) (hop : op.Pre b) :
    ∃ b', step b op = some (.ok b') ∧ b'.Valid ∧ b'.readable = ByteQueue.step b.readable op := by
  obtain ⟨b', hb', hv, hread⟩ := exec_spec h op hop
  exact ⟨b', by rw [step, if_pos hop, hb'], hv, hread⟩

theorem step_refines {b b' : Buffer} {op : Op} (h : b.Valid) (hs : Moves step b op b') :
    b'.Valid ∧ b'.readable = ByteQueue.step b.readable op := by
  obtain ⟨hop, hs⟩ := hs.enabled rfl
  obtain ⟨c, hc, hv, hread⟩ := exec_spec h op hop
  rw [hc] at hs
  cases hs
  exact ⟨hv, hread⟩

/-- **A buffer is a byte queue.** The assertions of the constructor hold, and after any sequence of
operations on a fresh buffer, each applied under its precondition, the indices are in order, the
reserve is there, the readable bytes are those of the abstract queue, `retrieveAsString` returns
exactly them, and the next operation again fails no assertion. -/
theorem buffer_refines_queue (ops : List Op) (b : Buffer)
    (h : Path (Moves step) ops Buffer.new b) :
    (Buffer.new.readableBytes = 0 ∧ Buffer.new.writableBytes = kInitialSize ∧
      Buffer.new.prependableBytes = kCheapPrepend) ∧
    b.readerIndex_ ≤ b.writerIndex_ ∧ b.writerIndex_ ≤ b.buffer_.length ∧
    kCheapPrepend ≤ b.buffer_.length ∧
    b.readable = ops.foldl ByteQueue.step [] ∧
    b.retrieveAsString.1 = ops.foldl ByteQueue.step [] ∧
    ∀ op : Op, op.Pre b → ∃ b', exec b op = .ok b' := by
  obtain ⟨hv, hread⟩ := h.refines Buffer.Valid Buffer.readable ByteQueue.step
    new_valid fun x op y hx hs => step_refines hx hs
  rw [readable_new] at hread
  refine ⟨⟨?_, ?_, rfl⟩, hv.reader_le, hv.writer_le, hv.reserve_le, hread, ?_, fun op hop => ?_⟩
  · exact new_valid.readableBytes_eq_zero.2 readable_new
  · rw [new_valid.writableBytes_eq]
    simp [Buffer.new]
  · rw [retrieveAsString_spec hv]
    exact hread
  · obtain ⟨b', hb', -⟩ := exec_spec hv op hop
    exact ⟨b', hb'⟩

/-- A run that prepends, appends and retrieves. -/
theorem buffer_refines_queue_run :
    ∃ b, Path (Moves step) [.prepend [9], .append [1, 2, 3], .retrieve 2] Buffer.new b ∧
      b.readable = [2, 3] := by
  obtain ⟨b₁, h₁, v₁, r₁⟩ := step_spec new_valid (.prepend [9]) (by decide)
  obtain ⟨b₂, h₂, v₂, r₂⟩ := step_spec v₁ (.append [1, 2, 3]) trivial
  rw [r₁, readable_new] at r₂
  obtain ⟨b₃, h₃, v₃, r₃⟩ := step_spec v₂ (.retrieve 2)
    (by rw [Op.Pre, ← v₂.length_readable, r₂]; decide)
  have hrun := (Path.nil (R := Moves step) b₃).cons h₃ |>.cons h₂ |>.cons h₁
  exact ⟨b₃, hrun, (buffer_refines_queue _ b₃ hrun).2.2.2.2.1⟩

end BufferQueue

end Fppnet
