import Fppnet.Net.Buffer
import Fppnet.Net.EPoller

/-!
# `net/TcpConnection.cpp`: one connection

* `TcpConnection` has the members that its functions read and write. Behind `socket_` stands what
  the kernel has accepted from `write(2)` and how often `shutdown(2)` closed the write side;
* `Ctx` is what a member function runs in: the loop whose thread it runs on, `this`, the poller of
  the owner loop, and the callbacks and queued functors it leaves behind (`calls`), in order. Each
  of these calls is the last thing its handler does to the connection, or concerns a functor that
  runs later;
* the results of `read` and `write` are arguments (`ReadResult`, `WriteResult`), so that nothing is
  assumed of the kernel except `WriteResult.Legal`: it accepts at most what it was given;
* the functions are followed by their specifications, which hold for every successful call.
-/

set_option linter.unusedSectionVars false

namespace Fppnet

open Checked

/-- An `EventLoop*`. -/
abbrev LoopId := ℕ

/-- `TcpConnection::StateE`. -/
inductive StateE
  | kConnecting
  | kConnected
  | kDisconnecting
  | kDisconnected
  deriving DecidableEq

/-- `Socket`: the kernel's side of the connection. -/
structure Socket where
  wire : List Byte
  shutdownWrites : ℕ

/-- What `write(2)` returns: the number of bytes accepted, or an error with its `errno`. -/
inductive WriteResult
  | accepted (n : ℕ)
  | error (errno : ℕ)
  deriving DecidableEq

namespace WriteResult

/-- The kernel accepts at most the bytes it was given. -/
def Legal (len : ℕ) : WriteResult → Prop
  | .accepted n => n ≤ len
  | .error _ => True

instance (len : ℕ) (r : WriteResult) : Decidable (r.Legal len) := by
  cases r <;> unfold Legal <;> infer_instance

/-- `nwrote` after an error has been replaced by 0. -/
def nwrote : WriteResult → ℕ
  | .accepted n => n
  | .error _ => 0

theorem nwrote_le {len : ℕ} {r : WriteResult} (h : r.Legal len) : r.nwrote ≤ len := by
  cases r with
  | accepted n => exact h
  | error errno => exact Nat.zero_le _

end WriteResult

/-- `TcpConnection`. The user callbacks are not data; of `writeCompleteCallback_` it matters
whether it is set. -/
structure TcpConnection where
  loop_ : LoopId
  name_ : String
  state_ : StateE
  socket_ : Socket
  channel_ : Channel
  writeCompleteCallback_ : Bool
  inputBuffer_ : ByteBuffer
  outputBuffer_ : ByteBuffer

namespace TcpConnection

/-- The constructor, followed by `setWriteCompleteCallback`. -/
def new (loop : LoopId) (name : String) (sockfd : ℕ) (writeComplete : Bool) : TcpConnection where
  loop_ := loop
  name_ := name
  state_ := .kConnecting
  socket_ := ⟨[], 0⟩
  channel_ := Channel.new sockfd
  writeCompleteCallback_ := writeComplete
  inputBuffer_ := ByteBuffer.new
  outputBuffer_ := ByteBuffer.new

/-- The ways in which a member function aborts the program. -/
inductive Failure
  | notInLoopThread
  | poller (f : EPoller.Failure)
  | retrieveLen
  | connectEstablishedState
  | handleCloseState
  | connectDestroyedState
  deriving DecidableEq

/-- What a member function calls or queues outside the connection. -/
inductive Call
  | queueWriteComplete
  | connectionCallback
  | messageCallback
  | closeCallback
  deriving DecidableEq

end TcpConnection

open TcpConnection

/-- The context of a member function of a connection. -/
structure Ctx (κ : Type) where
  thread : LoopId
  self : κ
  conn : TcpConnection
  poller : EPoller κ
  calls : List Call

namespace Ctx

variable {κ : Type} [DecidableEq κ]

def setConn (x : Ctx κ) (c : TcpConnection) : Ctx κ := { x with conn := c }

def call (x : Ctx κ) (c : Call) : Ctx κ := { x with calls := x.calls ++ [c] }

/-- Bytes handed to the kernel by `write(2)`. -/
def write (x : Ctx κ) (data : List Byte) : Ctx κ :=
  x.setConn { x.conn with socket_ := { x.conn.socket_ with wire := x.conn.socket_.wire ++ data } }

/-- `Channel::update`, through `EventLoop::updateChannel`. -/
def update (x : Ctx κ) (ch : Channel) : Except Failure (Ctx κ) := do
  require (x.thread = x.conn.loop_) .notInLoopThread
  let r ← (x.poller.updateChannel x.self ch).mapError .poller
  pure { x with conn := { x.conn with channel_ := r.2 }, poller := r.1 }

/-- `EventLoop::removeChannel`. -/
def removeChannel (x : Ctx κ) : Except Failure (Ctx κ) := do
  require (x.thread = x.conn.loop_) .notInLoopThread
  let r ← (x.poller.removeChannel x.self x.conn.channel_).mapError .poller
  pure { x with conn := { x.conn with channel_ := r.2 }, poller := r.1 }

/-! ### The member functions -/

/-- The direct `write` of `sendInLoop`. -/
def directWrite (x : Ctx κ) (message : List Byte) : WriteResult → Ctx κ
  | .accepted n =>
    let x := x.write (message.take n)
    if n < message.length then x
    else if x.conn.writeCompleteCallback_ then x.call .queueWriteComplete
    else x
  | .error _ => x

/-- The end of `sendInLoop`: what the kernel did not accept is buffered and write interest set. -/
def bufferRest (x : Ctx κ) (message : List Byte) (nwrote : ℕ) : Except Failure (Ctx κ) :=
  if nwrote < message.length then
    let x := x.setConn
      { x.conn with outputBuffer_ := x.conn.outputBuffer_.append (message.drop nwrote) }
    if !x.conn.channel_.isWriting then x.update x.conn.channel_.enableWriting else pure x
  else pure x

/-- The test that lets `sendInLoop` write directly. -/
def writesDirectly (x : Ctx κ) : Bool :=
  !x.conn.channel_.isWriting && x.conn.outputBuffer_.readableBytes == 0

def sendInLoop (x : Ctx κ) (message : List Byte) (r : WriteResult) : Except Failure (Ctx κ) := do
  require (x.thread = x.conn.loop_) .notInLoopThread
  if x.writesDirectly then (x.directWrite message r).bufferRest message r.nwrote
  else x.bufferRest message 0

def shutdownInLoop (x : Ctx κ) : Except Failure (Ctx κ) := do
  require (x.thread = x.conn.loop_) .notInLoopThread
  if !x.conn.channel_.isWriting then
    pure (x.setConn { x.conn with
      socket_ := { x.conn.socket_ with shutdownWrites := x.conn.socket_.shutdownWrites + 1 } })
  else pure x

def setState (x : Ctx κ) (s : StateE) : Ctx κ := x.setConn { x.conn with state_ := s }

def connectEstablished (x : Ctx κ) : Except Failure (Ctx κ) := do
  require (x.thread = x.conn.loop_) .notInLoopThread
  require (x.conn.state_ = .kConnecting) .connectEstablishedState
  let x ← (x.setState .kConnected).update x.conn.channel_.enableReading
  pure (x.call .connectionCallback)

def handleClose (x : Ctx κ) : Except Failure (Ctx κ) := do
  require (x.thread = x.conn.loop_) .notInLoopThread
  require (x.conn.state_ = .kConnected ∨ x.conn.state_ = .kDisconnecting) .handleCloseState
  let x ← x.update x.conn.channel_.disableAll
  pure (x.call .closeCallback)

/-- `handleRead`: an error of `read` is only logged (`handleError`), end of file closes. -/
def handleRead (x : Ctx κ) (r : Buffer.ReadResult) : Except Failure (Ctx κ) :=
  let x := x.setConn { x.conn with inputBuffer_ := x.conn.inputBuffer_.readFd r }
  match r with
  | .bytes [] => x.handleClose
  | .bytes (_ :: _) => pure (x.call .messageCallback)
  | .error _ => pure x

/-- The part of `handleWrite` that follows when the output buffer has been drained. -/
def drained (x : Ctx κ) : Except Failure (Ctx κ) := do
  let x ← x.update x.conn.channel_.disableWriting
  let x := if x.conn.writeCompleteCallback_ then x.call .queueWriteComplete else x
  if x.conn.state_ = .kDisconnected then x.shutdownInLoop else pure x

def handleWrite (x : Ctx κ) (r : WriteResult) : Except Failure (Ctx κ) := do
  require (x.thread = x.conn.loop_) .notInLoopThread
  if x.conn.channel_.isWriting then
    if 0 < r.nwrote then
      if h : r.nwrote ≤ x.conn.outputBuffer_.readableBytes then
        let x := x.write (x.conn.outputBuffer_.readable.take r.nwrote)
        let x := x.setConn
          { x.conn with outputBuffer_ := x.conn.outputBuffer_.retrieve r.nwrote h }
        if x.conn.outputBuffer_.readableBytes = 0 then x.drained else pure x
      else .error .retrieveLen
    else pure x
  else pure x

def connectDestroyed (x : Ctx κ) : Except Failure (Ctx κ) := do
  require (x.thread = x.conn.loop_) .notInLoopThread
  require (x.conn.state_ = .kConnected ∨ x.conn.state_ = .kDisconnecting) .connectDestroyedState
  let x ← (x.setState .kDisconnected).update x.conn.channel_.disableAll
  (x.call .connectionCallback).removeChannel

/-- `send`, called on the loop thread. -/
def send (x : Ctx κ) (message : List Byte) (r : WriteResult) : Except Failure (Ctx κ) :=
  if x.conn.state_ = .kConnected then x.sendInLoop message r else pure x

/-- `shutdown`, called on the loop thread. -/
def shutdown (x : Ctx κ) : Except Failure (Ctx κ) :=
  if x.conn.state_ = .kConnected then (x.setState .kDisconnecting).shutdownInLoop else pure x

/-! ### Views of the state -/

/-- The bytes accepted by the kernel. -/
def wire (x : Ctx κ) : List Byte := x.conn.socket_.wire

/-- The bytes waiting in the output buffer. -/
def pending (x : Ctx κ) : List Byte := x.conn.outputBuffer_.readable

/-- The output stream: what the kernel has, followed by what waits. -/
def stream (x : Ctx κ) : List Byte := x.wire ++ x.pending

/-- Write interest is set exactly when output is pending. -/
def Synced (x : Ctx κ) : Prop := x.conn.channel_.isWriting = true ↔ x.pending ≠ []

/-- What no member function changes. -/
structure Frame (x y : Ctx κ) : Prop where
  thread : y.thread = x.thread
  self : y.self = x.self
  loop : y.conn.loop_ = x.conn.loop_
  name : y.conn.name_ = x.conn.name_
  fd : y.conn.channel_.fd_ = x.conn.channel_.fd_

theorem Frame.refl (x : Ctx κ) : Frame x x := ⟨rfl, rfl, rfl, rfl, rfl⟩

theorem Frame.trans {x y z : Ctx κ} (h : Frame x y) (h' : Frame y z) : Frame x z :=
  ⟨h'.thread.trans h.thread, h'.self.trans h.self, h'.loop.trans h.loop, h'.name.trans h.name,
    h'.fd.trans h.fd⟩

theorem pending_eq_nil {x : Ctx κ} : x.conn.outputBuffer_.readableBytes = 0 ↔ x.pending = [] :=
  ByteBuffer.readableBytes_eq_zero

theorem writesDirectly_iff {x : Ctx κ} :
    x.writesDirectly = true ↔ x.conn.channel_.isWriting = false ∧ x.pending = [] := by
  simp [writesDirectly, pending_eq_nil]

/-! ### Updates -/

theorem mapError_eq_ok {ε ε' α : Type} {f : ε → ε'} {e : Except ε α} {a : α} :
    e.mapError f = .ok a ↔ e = .ok a := by
  cases e <;> simp [Except.mapError]

/-- The context after a successful update of the channel. -/
def updated (x : Ctx κ) (ch : Channel) : Ctx κ :=
  { x with
    conn := { x.conn with channel_ := ch.set_index (EPoller.updatedIndex ch) }
    poller := x.poller.updated x.self ch }

theorem update_ok {x y : Ctx κ} {ch : Channel} (h : x.update ch = .ok y) :
    x.thread = x.conn.loop_ ∧ y = x.updated ch := by
  unfold update at h
  obtain ⟨ht, h⟩ := require_bind_ok.1 h
  obtain ⟨⟨ep, ch'⟩, hr, h⟩ := bind_eq_ok.1 h
  obtain ⟨rfl, rfl⟩ := EPoller.updateChannel_ok (mapError_eq_ok.1 hr)
  cases h
  exact ⟨ht, rfl⟩

@[simp] theorem updated_pending (x : Ctx κ) (ch : Channel) :
    (x.updated ch).pending = x.pending := rfl

@[simp] theorem updated_stream (x : Ctx κ) (ch : Channel) :
    (x.updated ch).stream = x.stream := rfl

@[simp] theorem updated_isWriting (x : Ctx κ) (ch : Channel) :
    (x.updated ch).conn.channel_.isWriting = ch.isWriting := rfl

theorem updated_frame (x : Ctx κ) {ch : Channel} (h : ch.fd_ = x.conn.channel_.fd_) :
    Frame x (x.updated ch) := ⟨rfl, rfl, rfl, rfl, h⟩

/-! ### Specifications of the member functions -/

/-- What `sendInLoop` and `handleWrite` have in common: they move bytes along the output stream
(`added` are new ones), keep the state, and at most queue the write-complete callback. -/
structure Moved (x y : Ctx κ) (added : List Byte) : Prop where
  frame : Frame x y
  state : y.conn.state_ = x.conn.state_
  stream : y.stream = x.stream ++ added
  synced : x.Synced → y.Synced
  calls : y.calls = x.calls ∨ y.calls = x.calls ++ [.queueWriteComplete]

theorem Moved.refl (x : Ctx κ) : Moved x x [] :=
  ⟨Frame.refl x, rfl, (List.append_nil _).symm, id, .inl rfl⟩

/-- The context of `sendInLoop` before the rest of the message is buffered. -/
def afterWrite (x : Ctx κ) (message : List Byte) (r : WriteResult) : Ctx κ :=
  if x.writesDirectly then x.directWrite message r else x

/-- The number of bytes of the message that `sendInLoop` gets rid of directly. -/
def direct (x : Ctx κ) (r : WriteResult) : ℕ := if x.writesDirectly then r.nwrote else 0

theorem sendInLoop_eq (x : Ctx κ) (message : List Byte) (r : WriteResult) :
    x.sendInLoop message r = (do
      require (x.thread = x.conn.loop_) .notInLoopThread
      (x.afterWrite message r).bufferRest message (x.direct r)) := by
  unfold sendInLoop afterWrite direct
  split_ifs <;> rfl

theorem afterWrite_frame (x : Ctx κ) (message : List Byte) (r : WriteResult) :
    (x.afterWrite message r).thread = x.thread ∧ (x.afterWrite message r).self = x.self ∧
      (x.afterWrite message r).poller = x.poller ∧
      (x.afterWrite message r).conn =
        { x.conn with socket_ := { x.conn.socket_ with
            wire := x.conn.socket_.wire ++ message.take (x.direct r) } } ∧
      ((x.afterWrite message r).calls = x.calls ∨
        (x.afterWrite message r).calls = x.calls ++ [.queueWriteComplete]) := by
  unfold afterWrite direct
  split_ifs with hd
  · cases r with
    | accepted n =>
      simp only [directWrite, WriteResult.nwrote]
      split_ifs <;> simp [write, setConn, call]
    | error errno => simp [directWrite, WriteResult.nwrote]
  · simp

theorem afterWrite_synced {x : Ctx κ} (message : List Byte) (r : WriteResult) (h : x.Synced) :
    (x.afterWrite message r).Synced := by
  unfold Synced pending at h ⊢
  rw [(afterWrite_frame x message r).2.2.2.1]
  exact h

/-- `sendInLoop` keeps everything about the registration when it leaves nothing to buffer. -/
theorem sendInLoop_complete {x y : Ctx κ} {message : List Byte} {r : WriteResult}
    (h : x.sendInLoop message r = .ok y) (hall : message.length ≤ x.direct r) :
    y = x.afterWrite message r := by
  rw [sendInLoop_eq] at h
  obtain ⟨-, h⟩ := require_bind_ok.1 h
  rw [bufferRest, if_neg (by omega)] at h
  cases h
  rfl

/-- The context once the rest of the message is in the output buffer. -/
def buffered (x : Ctx κ) (message : List Byte) (r : WriteResult) : Ctx κ :=
  (x.afterWrite message r).setConn { (x.afterWrite message r).conn with
    outputBuffer_ := (x.afterWrite message r).conn.outputBuffer_.append
      (message.drop (x.direct r)) }

/-- The three ways in which `sendInLoop` ends. -/
theorem sendInLoop_cases {x y : Ctx κ} {message : List Byte} {r : WriteResult}
    (h : x.sendInLoop message r = .ok y) :
    (message.length ≤ x.direct r ∧ y = x.afterWrite message r) ∨
    (x.direct r < message.length ∧ x.conn.channel_.isWriting = true ∧ y = x.buffered message r) ∨
    (x.direct r < message.length ∧ x.conn.channel_.isWriting = false ∧
      y = (x.buffered message r).updated x.conn.channel_.enableWriting) := by
  rcases le_or_gt message.length (x.direct r) with hall | hlt
  · exact .inl ⟨hall, sendInLoop_complete h hall⟩
  · right
    have hch : (x.buffered message r).conn.channel_ = x.conn.channel_ := by
      rw [buffered, setConn, (afterWrite_frame x message r).2.2.2.1]
    rw [sendInLoop_eq] at h
    obtain ⟨-, h⟩ := require_bind_ok.1 h
    rw [bufferRest, if_pos hlt] at h
    change (if !(x.buffered message r).conn.channel_.isWriting then
      (x.buffered message r).update (x.buffered message r).conn.channel_.enableWriting
      else pure (x.buffered message r)) = .ok y at h
    rw [hch] at h
    cases hw : x.conn.channel_.isWriting with
    | true =>
      rw [hw] at h
      cases h
      exact .inl ⟨hlt, rfl, rfl⟩
    | false =>
      rw [hw] at h
      exact .inr ⟨hlt, rfl, (update_ok h).2⟩

theorem buffered_stream {x : Ctx κ} {message : List Byte} {r : WriteResult} :
    (x.buffered message r).stream = x.stream ++ message := by
  have hcut : x.direct r = 0 ∨ x.pending = [] := by
    unfold direct
    split_ifs with hd
    · exact .inr (writesDirectly_iff.1 hd).2
    · exact .inl rfl
  simp only [stream, wire, pending, buffered, setConn, (afterWrite_frame x message r).2.2.2.1,
    ByteBuffer.readable_append]
  rcases hcut with h0 | h0
  · simp [h0]
  · have h0' : x.conn.outputBuffer_.readable = [] := h0
    simp [h0', List.append_assoc, List.take_append_drop]

/-- **`sendInLoop` appends the whole message to the output stream**, whatever part of it the kernel
accepts at once. -/
theorem sendInLoop_moved {x y : Ctx κ} {message : List Byte} {r : WriteResult}
    (h : x.sendInLoop message r = .ok y) : Moved x y message := by
  obtain ⟨ht, hself, -, hconn, hcalls⟩ := afterWrite_frame x message r
  have hframe : Frame x (x.buffered message r) :=
    ⟨ht, hself, by simp [buffered, setConn, hconn], by simp [buffered, setConn, hconn],
      by simp [buffered, setConn, hconn]⟩
  have hstate : (x.buffered message r).conn.state_ = x.conn.state_ := by
    simp [buffered, setConn, hconn]
  have hpend : x.direct r < message.length → (x.buffered message r).pending ≠ [] := by
    intro hlt
    simp [pending, buffered, setConn, List.drop_eq_nil_iff, hlt]
  rcases sendInLoop_cases h with ⟨hall, rfl⟩ | ⟨hlt, hw, rfl⟩ | ⟨hlt, hw, rfl⟩
  · refine ⟨⟨ht, hself, by rw [hconn], by rw [hconn], by rw [hconn]⟩, by rw [hconn], ?_,
      afterWrite_synced message r, hcalls⟩
    have htake : message.take (x.direct r) = message := List.take_of_length_le hall
    have hnil : x.pending = [] ∨ message = [] := by
      unfold direct at hall
      split_ifs at hall with hd
      · exact .inl (writesDirectly_iff.1 hd).2
      · exact .inr (List.eq_nil_of_length_eq_zero (by omega))
    simp only [stream, wire, pending, hconn, htake]
    rcases hnil with h0 | h0
    · have h0' : x.conn.outputBuffer_.readable = [] := h0
      simp [h0']
    · simp [h0]
  · refine ⟨hframe, hstate, buffered_stream, fun _ => ?_, hcalls⟩
    refine ⟨fun _ => hpend hlt, fun _ => ?_⟩
    simpa [buffered, setConn, hconn] using hw
  · refine ⟨hframe.trans (updated_frame _ ?_), hstate, buffered_stream, fun _ => ?_, hcalls⟩
    · exact hframe.fd.symm
    · refine ⟨fun _ => hpend hlt, fun _ => ?_⟩
      rw [updated_isWriting]
      exact Channel.isWriting_enableWriting _

/-- What `sendInLoop` does not write directly it buffers. -/
theorem sendInLoop_parts {x y : Ctx κ} {message : List Byte} {r : WriteResult}
    (h : x.sendInLoop message r = .ok y) :
    y.wire = x.wire ++ message.take (x.direct r) ∧
      y.pending = x.pending ++ message.drop (x.direct r) := by
  obtain ⟨-, -, -, hconn, -⟩ := afterWrite_frame x message r
  have hwire : (x.afterWrite message r).wire = x.wire ++ message.take (x.direct r) := by
    rw [wire, hconn]
    rfl
  have hbuffered : (x.buffered message r).pending = x.pending ++ message.drop (x.direct r) := by
    rw [pending, buffered, setConn, ByteBuffer.readable_append, hconn]
    rfl
  rcases sendInLoop_cases h with ⟨hall, rfl⟩ | ⟨-, -, rfl⟩ | ⟨-, -, rfl⟩
  · refine ⟨hwire, ?_⟩
    rw [List.drop_eq_nil_of_le hall, List.append_nil, pending, hconn]
    rfl
  · exact ⟨hwire, hbuffered⟩
  · exact ⟨hwire, hbuffered⟩

theorem sendInLoop_shutdownWrites {x y : Ctx κ} {message : List Byte} {r : WriteResult}
    (h : x.sendInLoop message r = .ok y) :
    y.conn.socket_.shutdownWrites = x.conn.socket_.shutdownWrites := by
  obtain ⟨-, -, -, hconn, -⟩ := afterWrite_frame x message r
  rcases sendInLoop_cases h with ⟨-, rfl⟩ | ⟨-, -, rfl⟩ | ⟨-, -, rfl⟩ <;>
    simp [buffered, updated, setConn, hconn]

/-- The context of `handleWrite` once `n` pending bytes have gone to the kernel. -/
def sentOut (x : Ctx κ) (n : ℕ) (h : n ≤ x.conn.outputBuffer_.readableBytes) : Ctx κ :=
  (x.write (x.pending.take n)).setConn
    { (x.write (x.pending.take n)).conn with
      outputBuffer_ := x.conn.outputBuffer_.retrieve n h }

theorem sentOut_pending (x : Ctx κ) (n : ℕ) (h : n ≤ x.conn.outputBuffer_.readableBytes) :
    (x.sentOut n h).pending = x.pending.drop n := ByteBuffer.readable_retrieve _ _ h

theorem sentOut_stream (x : Ctx κ) (n : ℕ) (h : n ≤ x.conn.outputBuffer_.readableBytes) :
    (x.sentOut n h).stream = x.stream := by
  rw [stream, sentOut_pending]
  simp [sentOut, write, setConn, wire, stream, List.append_assoc]

/-- The notification that the output has been drained. -/
def notify (x : Ctx κ) : Ctx κ :=
  if x.conn.writeCompleteCallback_ then x.call .queueWriteComplete else x

@[simp] theorem notify_conn (x : Ctx κ) : x.notify.conn = x.conn := by
  unfold notify; split_ifs <;> rfl

@[simp] theorem notify_thread (x : Ctx κ) : x.notify.thread = x.thread := by
  unfold notify; split_ifs <;> rfl

@[simp] theorem notify_self (x : Ctx κ) : x.notify.self = x.self := by
  unfold notify; split_ifs <;> rfl

@[simp] theorem notify_poller (x : Ctx κ) : x.notify.poller = x.poller := by
  unfold notify; split_ifs <;> rfl

theorem notify_calls (x : Ctx κ) :
    x.notify.calls = x.calls ∨ x.notify.calls = x.calls ++ [.queueWriteComplete] := by
  unfold notify
  split_ifs
  · exact .inr rfl
  · exact .inl rfl

/-- The write side closed once more. -/
def shutDown (x : Ctx κ) : Ctx κ :=
  x.setConn { x.conn with
    socket_ := { x.conn.socket_ with shutdownWrites := x.conn.socket_.shutdownWrites + 1 } }

theorem shutdownInLoop_eq {x : Ctx κ} (h : x.thread = x.conn.loop_) :
    x.shutdownInLoop =
      if x.conn.channel_.isWriting = true then .ok x else .ok x.shutDown := by
  unfold shutdownInLoop shutDown
  rw [require_of h]
  cases x.conn.channel_.isWriting <;> rfl

/-- `handleWrite` when write interest is set and the kernel takes some bytes. -/
theorem handleWrite_eq {x : Ctx κ} {r : WriteResult} (ht : x.thread = x.conn.loop_)
    (hw : x.conn.channel_.isWriting = true) (hpos : 0 < r.nwrote)
    (hn : r.nwrote ≤ x.conn.outputBuffer_.readableBytes) :
    x.handleWrite r = if (x.sentOut r.nwrote hn).conn.outputBuffer_.readableBytes = 0
      then (x.sentOut r.nwrote hn).drained else .ok (x.sentOut r.nwrote hn) := by
  unfold handleWrite
  rw [require_of ht, ok_bind, if_pos hw, if_pos hpos, dif_pos hn]
  rfl

/-- The three ways in which `handleWrite` ends: nothing happens, some bytes go out and some stay
pending, or the last pending bytes go out. -/
theorem handleWrite_cases {x y : Ctx κ} {r : WriteResult} (h : x.handleWrite r = .ok y) :
    y = x ∨
    (∃ hn, x.conn.channel_.isWriting = true ∧ (x.sentOut r.nwrote hn).pending ≠ [] ∧
      y = x.sentOut r.nwrote hn) ∨
    (∃ hn, x.conn.channel_.isWriting = true ∧ (x.sentOut r.nwrote hn).pending = [] ∧
      (x.sentOut r.nwrote hn).drained = .ok y) := by
  unfold handleWrite at h
  obtain ⟨-, h⟩ := require_bind_ok.1 h
  split_ifs at h with hw hpos hn
  · change (if (x.sentOut r.nwrote hn).conn.outputBuffer_.readableBytes = 0 then
      (x.sentOut r.nwrote hn).drained else pure (x.sentOut r.nwrote hn)) = .ok y at h
    split_ifs at h with h0
    · exact .inr (.inr ⟨hn, hw, pending_eq_nil.1 h0, h⟩)
    · cases h
      exact .inr (.inl ⟨hn, hw, fun hnil => h0 (pending_eq_nil.2 hnil), rfl⟩)
  · cases h
    exact .inl rfl
  · cases h
    exact .inl rfl

/-- The context of a drained connection, its write interest gone and its user notified. -/
def quiet (x : Ctx κ) : Ctx κ := (x.updated x.conn.channel_.disableWriting).notify

/-- The end of `drained`. Only a connection in state `kDisconnected` goes on to close its write
side. -/
theorem drained_ok {x y : Ctx κ} (h : x.drained = .ok y) :
    y = if x.conn.state_ = .kDisconnected then x.quiet.shutDown else x.quiet := by
  unfold drained at h
  obtain ⟨x₁, h₁, h⟩ := bind_eq_ok.1 h
  obtain ⟨ht, rfl⟩ := update_ok h₁
  change (if x.quiet.conn.state_ = .kDisconnected then x.quiet.shutdownInLoop
    else pure x.quiet) = .ok y at h
  have hw : ¬ x.quiet.conn.channel_.isWriting = true := by simp [quiet]
  rw [shutdownInLoop_eq (by simp [quiet, updated, ht]), if_neg hw] at h
  rw [show x.quiet.conn.state_ = x.conn.state_ by simp [quiet, updated]] at h
  split_ifs at h ⊢ <;> cases h <;> rfl

/-- A drained connection has no output pending and no write interest. -/
theorem drained_spec {x y : Ctx κ} (h : x.drained = .ok y) (h0 : x.pending = []) :
    Frame x y ∧ y.conn.state_ = x.conn.state_ ∧ y.stream = x.stream ∧ y.Synced ∧
      (y.calls = x.calls ∨ y.calls = x.calls ++ [.queueWriteComplete]) := by
  have hframe : Frame x x.quiet := by constructor <;> simp [quiet, updated, Channel.set_index,
    Channel.disableWriting]
  have hstate : x.quiet.conn.state_ = x.conn.state_ := by simp [quiet, updated]
  have hstream : x.quiet.stream = x.stream := by simp [quiet, updated, stream, wire, pending]
  have hsync : x.quiet.Synced := by
    have hp : x.quiet.pending = [] := by simpa [quiet, updated, pending] using h0
    have hw : x.quiet.conn.channel_.isWriting = false := by simp [quiet]
    simp [Synced, hp, hw]
  have hcalls := notify_calls (x.updated x.conn.channel_.disableWriting)
  have hy := drained_ok h
  split_ifs at hy <;> subst hy
  · exact ⟨⟨hframe.thread, hframe.self, hframe.loop, hframe.name, hframe.fd⟩, hstate, hstream,
      hsync, hcalls⟩
  · exact ⟨hframe, hstate, hstream, hsync, hcalls⟩

/-- **`handleWrite` moves pending bytes to the kernel** and adds none. -/
theorem handleWrite_moved {x y : Ctx κ} {r : WriteResult} (h : x.handleWrite r = .ok y) :
    Moved x y [] := by
  rcases handleWrite_cases h with rfl | ⟨hn, hw, hp, rfl⟩ | ⟨hn, hw, hp, hd⟩
  · exact Moved.refl _
  · exact ⟨⟨rfl, rfl, rfl, rfl, rfl⟩, rfl,
      (sentOut_stream x _ hn).trans (List.append_nil _).symm, fun _ => ⟨fun _ => hp, fun _ => hw⟩,
      .inl rfl⟩
  · obtain ⟨hfr, hst, hstr, hsync, hcalls⟩ := drained_spec hd hp
    refine ⟨⟨hfr.thread, hfr.self, hfr.loop, hfr.name, hfr.fd⟩, hst, ?_, fun _ => hsync, hcalls⟩
    rw [hstr, sentOut_stream, List.append_nil]

/-- `handleWrite` closes the write side of a connection only in state `kDisconnected`. -/
theorem handleWrite_shutdownWrites {x y : Ctx κ} {r : WriteResult} (h : x.handleWrite r = .ok y)
    (hs : x.conn.state_ ≠ .kDisconnected) :
    y.conn.socket_.shutdownWrites = x.conn.socket_.shutdownWrites := by
  rcases handleWrite_cases h with rfl | ⟨hn, hw, hp, rfl⟩ | ⟨hn, hw, hp, hd⟩
  · rfl
  · rfl
  · have hy := drained_ok hd
    rw [if_neg (show ¬ (x.sentOut r.nwrote hn).conn.state_ = _ from hs)] at hy
    rw [hy, quiet, notify_conn]
    rfl

/-! ### Establishing and closing -/

theorem connectEstablished_ok {x y : Ctx κ} (h : x.connectEstablished = .ok y) :
    x.thread = x.conn.loop_ ∧ x.conn.state_ = .kConnecting ∧
      y = ((x.setState .kConnected).updated x.conn.channel_.enableReading).call
        .connectionCallback := by
  unfold connectEstablished at h
  obtain ⟨ht, h⟩ := require_bind_ok.1 h
  obtain ⟨hs, h⟩ := require_bind_ok.1 h
  obtain ⟨x₁, h₁, h⟩ := bind_eq_ok.1 h
  obtain ⟨-, rfl⟩ := update_ok h₁
  cases h
  exact ⟨ht, hs, rfl⟩

theorem handleClose_ok {x y : Ctx κ} (h : x.handleClose = .ok y) :
    x.thread = x.conn.loop_ ∧
      (x.conn.state_ = .kConnected ∨ x.conn.state_ = .kDisconnecting) ∧
      y = (x.updated x.conn.channel_.disableAll).call .closeCallback := by
  unfold handleClose at h
  obtain ⟨ht, h⟩ := require_bind_ok.1 h
  obtain ⟨hs, h⟩ := require_bind_ok.1 h
  obtain ⟨x₁, h₁, h⟩ := bind_eq_ok.1 h
  obtain ⟨-, rfl⟩ := update_ok h₁
  cases h
  exact ⟨ht, hs, rfl⟩

/-- Before it is removed from the poller the channel is updated once more. -/
def torndown (x : Ctx κ) : Ctx κ :=
  ((x.setState .kDisconnected).updated x.conn.channel_.disableAll).call .connectionCallback

theorem connectDestroyed_ok {x y : Ctx κ} (h : x.connectDestroyed = .ok y) :
    x.thread = x.conn.loop_ ∧
      (x.conn.state_ = .kConnected ∨ x.conn.state_ = .kDisconnecting) ∧
      y.thread = x.thread ∧ y.self = x.self ∧ y.calls = x.calls ++ [.connectionCallback] ∧
      y.conn = { x.torndown.conn with
        channel_ := x.torndown.conn.channel_.set_index EPoller.kNew } ∧
      y.poller.channels_ =
        Function.update x.torndown.poller.channels_ x.conn.channel_.fd_ none ∧
      ∀ fd e, y.poller.interest fd = some e → x.torndown.poller.interest fd = some e := by
  unfold connectDestroyed at h
  obtain ⟨ht, h⟩ := require_bind_ok.1 h
  obtain ⟨hs, h⟩ := require_bind_ok.1 h
  obtain ⟨x₁, h₁, h⟩ := bind_eq_ok.1 h
  obtain ⟨-, rfl⟩ := update_ok h₁
  unfold removeChannel at h
  obtain ⟨-, h⟩ := require_bind_ok.1 h
  obtain ⟨⟨ep, ch⟩, hr, h⟩ := bind_eq_ok.1 h
  have hr := mapError_eq_ok.1 hr
  obtain ⟨hmap, -, hch⟩ := EPoller.removeChannel_ok hr
  cases h
  subst hch
  exact ⟨ht, hs, rfl, rfl, rfl, rfl, hmap, fun _ _ => EPoller.removeChannel_interest hr⟩

/-- `handleRead` closes at end of file and otherwise only touches the input buffer. -/
theorem handleRead_cases (x : Ctx κ) (r : Buffer.ReadResult) :
    let x' := x.setConn { x.conn with inputBuffer_ := x.conn.inputBuffer_.readFd r }
    (r = .bytes [] ∧ x.handleRead r = x'.handleClose) ∨
    (r ≠ .bytes [] ∧
      (x.handleRead r = .ok x' ∨ x.handleRead r = .ok (x'.call .messageCallback))) := by
  intro x'
  cases r with
  | error errno => exact .inr ⟨by simp, .inl rfl⟩
  | bytes data =>
    cases data with
    | nil => exact .inl ⟨rfl, rfl⟩
    | cons b data => exact .inr ⟨by simp, .inr rfl⟩

/-- Reading input that is not the end of the file leaves everything but the input buffer alone. -/
theorem handleRead_ok {x y : Ctx κ} {r : Buffer.ReadResult} (hr : r ≠ .bytes [])
    (h : x.handleRead r = .ok y) :
    y.thread = x.thread ∧ y.self = x.self ∧ y.poller = x.poller ∧
      y.conn = { x.conn with inputBuffer_ := x.conn.inputBuffer_.readFd r } := by
  rcases handleRead_cases x r with ⟨h0, -⟩ | ⟨-, h1 | h1⟩
  · exact absurd h0 hr
  · rw [h1] at h
    cases h
    exact ⟨rfl, rfl, rfl, rfl⟩
  · rw [h1] at h
    cases h
    exact ⟨rfl, rfl, rfl, rfl⟩

/-! ### A connection whose channel is registered -/

/-- The functions run on the owner loop, and the channel is registered there and reading. -/
structure Registered (x : Ctx κ) : Prop where
  thread : x.thread = x.conn.loop_
  index : x.conn.channel_.index_ = EPoller.kAdded
  mapped : x.poller.channels_ x.conn.channel_.fd_ = some x.self
  watched : ∃ events, x.poller.interest x.conn.channel_.fd_ = some (events, x.self)
  reading : x.conn.channel_.isReading = true

/-- An established connection. -/
structure Live (x : Ctx κ) : Prop extends Registered x where
  state : x.conn.state_ = .kConnected ∨ x.conn.state_ = .kDisconnecting
  synced : x.Synced

/-- A connection that has not been established yet. -/
structure Fresh (x : Ctx κ) : Prop where
  thread : x.thread = x.conn.loop_
  state : x.conn.state_ = .kConnecting
  index : x.conn.channel_.index_ = EPoller.kNew
  unmapped : x.poller.channels_ x.conn.channel_.fd_ = none
  unwatched : x.poller.interest x.conn.channel_.fd_ = none
  events : x.conn.channel_.events_ = Channel.kNoneEvent
  socket : x.conn.socket_ = ⟨[], 0⟩
  pending : x.pending = []

/-- The context in which a new connection is established on its loop. -/
theorem new_fresh (ep : EPoller κ) (self : κ) (loop : LoopId) (name : String) (fd : ℕ) (wc : Bool)
    (hmap : ep.channels_ fd = none) (hint : ep.interest fd = none) :
    Fresh (⟨loop, self, TcpConnection.new loop name fd wc, ep, []⟩ : Ctx κ) where
  thread := rfl
  state := rfl
  index := rfl
  unmapped := hmap
  unwatched := hint
  events := rfl
  socket := rfl
  pending := ByteBuffer.readable_new

theorem not_drops_of_isReading {ch : Channel} (h : ch.isReading = true) : ¬ EPoller.Drops ch := by
  rintro ⟨-, hn⟩
  rw [Channel.isNoneEvent_of_isReading h] at hn
  cases hn

/-- A registered channel that goes on reading stays registered. -/
theorem Registered.update {x : Ctx κ} (h : Registered x) {ch : Channel}
    (hfd : ch.fd_ = x.conn.channel_.fd_) (hidx : ch.index_ = x.conn.channel_.index_)
    (hrd : ch.isReading = true) :
    x.update ch = .ok (x.updated ch) ∧ Registered (x.updated ch) := by
  have hagree : x.poller.Agrees x.self ch :=
    .inr (.inl ⟨hidx.trans h.index, by rw [hfd]; exact h.mapped, by rw [hfd]; exact h.watched⟩)
  obtain ⟨hok, -⟩ := EPoller.updateChannel_agrees hagree
  have hd := not_drops_of_isReading hrd
  refine ⟨?_, h.thread, ?_, ?_, ?_, hrd⟩
  · unfold Ctx.update
    rw [require_of h.thread, hok]
    rfl
  · simp [updated, Channel.set_index, EPoller.updatedIndex, hd]
  · simp [updated, EPoller.updated, Channel.set_index]
  · simp [updated, EPoller.updated, Channel.set_index, hd]

/-- `connectEstablished` succeeds on a fresh connection and makes it live. -/
theorem connectEstablished_live {x : Ctx κ} (h : Fresh x) :
    ∃ y, x.connectEstablished = .ok y ∧ Live y ∧ y.conn.state_ = .kConnected ∧
      y.conn.socket_ = ⟨[], 0⟩ ∧ y.pending = [] := by
  have hrd : x.conn.channel_.enableReading.isReading = true := Channel.isReading_enableReading _
  have hagree : x.poller.Agrees x.self x.conn.channel_.enableReading :=
    .inl ⟨h.index, h.unmapped, h.unwatched⟩
  obtain ⟨hok, -⟩ := EPoller.updateChannel_agrees hagree
  have hd := not_drops_of_isReading hrd
  have hup : (x.setState .kConnected).update x.conn.channel_.enableReading =
      .ok ((x.setState .kConnected).updated x.conn.channel_.enableReading) := by
    unfold Ctx.update
    rw [require_of (show (x.setState .kConnected).thread = (x.setState .kConnected).conn.loop_ from
      h.thread)]
    show ((x.poller.updateChannel x.self x.conn.channel_.enableReading).mapError Failure.poller >>=
      _) = _
    rw [hok]
    rfl
  refine ⟨((x.setState .kConnected).updated x.conn.channel_.enableReading).call
    .connectionCallback, ?_, ⟨⟨h.thread, ?_, ?_, ?_, hrd⟩, .inl rfl, ?_⟩, rfl, h.socket,
    h.pending⟩
  · unfold connectEstablished
    rw [require_of h.thread, ok_bind, require_of h.state, ok_bind, hup]
    rfl
  · simp [call, updated, Channel.set_index, EPoller.updatedIndex, hd]
  · simp [call, updated, setState, setConn, EPoller.updated, Channel.set_index]
  · simp [call, updated, setState, setConn, EPoller.updated, Channel.set_index, hd]
  · have hw : x.conn.channel_.enableReading.isWriting = false := by
      rw [Channel.isWriting_enableReading, Channel.isWriting, h.events]
      decide
    have hp : x.conn.outputBuffer_.readable = [] := h.pending
    simp [Synced, call, Ctx.pending, updated, setState, setConn, hp, Channel.set_index,
      Channel.isWriting] at hw ⊢
    exact hw

theorem Registered.of_conn {x y : Ctx κ} (h : Registered x) (hth : y.thread = x.thread)
    (hself : y.self = x.self) (hp : y.poller = x.poller) (hl : y.conn.loop_ = x.conn.loop_)
    (hch : y.conn.channel_ = x.conn.channel_) : Registered y :=
  ⟨by rw [hth, hl]; exact h.thread, by rw [hch]; exact h.index,
    by rw [hp, hch, hself]; exact h.mapped, by rw [hp, hch, hself]; exact h.watched,
    by rw [hch]; exact h.reading⟩

/-- `sendInLoop` succeeds on a live connection and leaves it live. -/
theorem sendInLoop_live {x : Ctx κ} (h : Live x) (message : List Byte) (r : WriteResult) :
    ∃ y, x.sendInLoop message r = .ok y ∧ Live y := by
  obtain ⟨ht, hself, hpoll, hconn, -⟩ := afterWrite_frame x message r
  have hw : Registered (x.afterWrite message r) :=
    h.toRegistered.of_conn ht hself hpoll (by rw [hconn]) (by rw [hconn])
  have hb : Registered (x.buffered message r) :=
    h.toRegistered.of_conn ht hself hpoll (by simp [buffered, setConn, hconn])
      (by simp [buffered, setConn, hconn])
  suffices hok : ∃ y, x.sendInLoop message r = .ok y ∧ Registered y by
    obtain ⟨y, hy, hreg⟩ := hok
    have hm := sendInLoop_moved hy
    exact ⟨y, hy, hreg, by rw [hm.state]; exact h.state, hm.synced h.synced⟩
  rw [sendInLoop_eq, require_of h.thread, ok_bind, bufferRest]
  by_cases hlt : x.direct r < message.length
  · rw [if_pos hlt]
    show ∃ y, (if !(x.buffered message r).conn.channel_.isWriting then
      (x.buffered message r).update (x.buffered message r).conn.channel_.enableWriting
      else pure (x.buffered message r)) = .ok y ∧ Registered y
    by_cases hwr : (x.buffered message r).conn.channel_.isWriting = true
    · rw [hwr]
      exact ⟨_, rfl, hb⟩
    · rw [Bool.not_eq_true] at hwr
      rw [hwr]
      exact ⟨_, hb.update rfl rfl ((Channel.isReading_enableWriting _).trans hb.reading)⟩
  · rw [if_neg hlt]
    exact ⟨_, rfl, hw⟩

/-- `handleWrite` succeeds on a live connection and leaves it live. -/
theorem handleWrite_live {x : Ctx κ} (h : Live x) {r : WriteResult}
    (hr : r.Legal x.conn.outputBuffer_.readableBytes) : ∃ y, x.handleWrite r = .ok y ∧ Live y := by
  suffices hok : ∃ y, x.handleWrite r = .ok y ∧ Registered y by
    obtain ⟨y, hy, hreg⟩ := hok
    have hm := handleWrite_moved hy
    exact ⟨y, hy, hreg, by rw [hm.state]; exact h.state, hm.synced h.synced⟩
  have hn := WriteResult.nwrote_le hr
  have hout : Registered (x.sentOut r.nwrote hn) := h.toRegistered.of_conn rfl rfl rfl rfl rfl
  by_cases hpos : x.conn.channel_.isWriting = true ∧ 0 < r.nwrote
  · rw [handleWrite_eq h.thread hpos.1 hpos.2 hn]
    by_cases h0 : (x.sentOut r.nwrote hn).conn.outputBuffer_.readableBytes = 0
    · rw [if_pos h0]
      obtain ⟨hup, hreg⟩ := hout.update (Channel.disableWriting_fd _)
        (Channel.disableWriting_index _) ((Channel.isReading_disableWriting _).trans hout.reading)
      have hquiet : Registered (x.sentOut r.nwrote hn).quiet :=
        hreg.of_conn (notify_thread _) (notify_self _) (notify_poller _)
          (by rw [quiet, notify_conn]) (by rw [quiet, notify_conn])
      refine ⟨(x.sentOut r.nwrote hn).quiet, ?_, hquiet⟩
      have hs : (x.sentOut r.nwrote hn).quiet.conn.state_ ≠ .kDisconnected := by
        rw [quiet, notify_conn]
        show x.conn.state_ ≠ .kDisconnected
        rcases h.state with hst | hst <;> rw [hst] <;> decide
      unfold drained
      rw [hup, ok_bind]
      exact if_neg hs
    · rw [if_neg h0]
      exact ⟨_, rfl, hout⟩
  · refine ⟨x, ?_, h.toRegistered⟩
    unfold handleWrite
    rw [require_of h.thread, ok_bind]
    split_ifs with hw h1
    · exact absurd ⟨hw, h1⟩ hpos
    · rfl
    · rfl

/-- On a live connection a complete write of the pending bytes leaves nothing pending. -/
theorem handleWrite_complete {x : Ctx κ} (h : Live x) (hp : x.pending ≠ []) :
    ∃ y, x.handleWrite (.accepted x.conn.outputBuffer_.readableBytes) = .ok y ∧ Live y ∧
      y.pending = [] := by
  obtain ⟨y, hy, hlive⟩ := handleWrite_live h
    (r := .accepted x.conn.outputBuffer_.readableBytes) le_rfl
  refine ⟨y, hy, hlive, ?_⟩
  have hpos : 0 < x.conn.outputBuffer_.readableBytes :=
    Nat.pos_of_ne_zero fun h0 => hp (pending_eq_nil.1 h0)
  have hall : (x.sentOut x.conn.outputBuffer_.readableBytes le_rfl).pending = [] := by
    rw [sentOut_pending, pending, ← ByteBuffer.length_readable, List.drop_length]
  rw [handleWrite_eq (r := .accepted x.conn.outputBuffer_.readableBytes) h.thread
    (h.synced.2 hp) hpos le_rfl] at hy
  simp only [WriteResult.nwrote, pending_eq_nil.2 hall, if_true] at hy
  have hq : (x.sentOut x.conn.outputBuffer_.readableBytes le_rfl).quiet.pending = [] := by
    rw [pending, quiet, notify_conn]
    exact hall
  have hy' := drained_ok hy
  split_ifs at hy' <;> subst hy' <;> exact hq

/-- The connection has just been established. -/
def Established (x : Ctx κ) : Prop := ∃ x₀ : Ctx κ, Fresh x₀ ∧ x₀.connectEstablished = .ok x

theorem Established.spec {x : Ctx κ} (h : Established x) :
    Live x ∧ x.conn.state_ = .kConnected ∧ x.conn.socket_ = ⟨[], 0⟩ ∧ x.pending = [] := by
  obtain ⟨x₀, hfresh, hx⟩ := h
  obtain ⟨y, hy, hy'⟩ := connectEstablished_live hfresh
  obtain rfl : y = x := by
    rw [hy] at hx
    cases hx
    rfl
  exact hy'

/-! The first connection of a loop, for runs on concrete inputs. -/

def first : Ctx Unit := ⟨0, (), TcpConnection.new 0 "server#0" 5 false, EPoller.empty, []⟩

/-- `first` after `connectEstablished`. -/
def firstEstablished : Ctx Unit :=
  match first.connectEstablished with
  | .ok x => x
  | .error _ => first

theorem firstEstablished_spec : Established firstEstablished := by
  have hfresh : Fresh first := new_fresh EPoller.empty () 0 "server#0" 5 false rfl rfl
  obtain ⟨y, hy, -⟩ := connectEstablished_live hfresh
  refine ⟨first, hfresh, ?_⟩
  rw [firstEstablished, hy]

end Ctx

end Fppnet
