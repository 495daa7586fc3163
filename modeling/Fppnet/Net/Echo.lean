import Fppnet.Net.ConnectionEffects
import Fppnet.Net.OutputStream

/-!
# The echo server

One connection of the server of `src/example/echo/echo.cpp`, from `connectEstablished` on:
`onMessage` takes all of the input buffer and sends it back. The connection callback and the log
lines do not touch the connection. The server has one loop, so that `connectDestroyed`, which is
queued when the connection is closed, is called before the next poll.

A hang-up without input (`POLLHUP` and not `POLLIN`) closes the connection and then reads, in the
same `handleEvent`. What this read brings is echoed like everything else; if it finds the end of
the file the connection is closed once more, and the assertion of `removeConnectionInLoop` fails.

`echo_exact`: whatever `read` and `write` return, the bytes that the kernel has accepted and those
that wait in the output buffer are the bytes that were received, and nothing else fails.
-/

set_option linter.unusedSectionVars false

namespace Fppnet

open Checked Runs TcpConnection

namespace Echo

variable {κ : Type} [DecidableEq κ]

/-- The ways in which a step aborts the program. -/
inductive Failure
  | connection (f : TcpConnection.Failure)
  /-- `assert(n == 1)` in `TcpServer::removeConnectionInLoop` -/
  | notErased
  deriving DecidableEq

/-- `EchoServer::onMessage`, with the result of the `write` in `send`. -/
def onMessage (x : Ctx κ) (r : WriteResult) : Except TcpConnection.Failure (Ctx κ) :=
  let msg := x.conn.inputBuffer_.retrieveAsString
  (x.setConn { x.conn with inputBuffer_ := msg.2 }).send msg.1 r

/-- How far the connection is. -/
inductive Phase
  | established
  /-- the close callback was called, and `late` has been read since -/
  | closed (late : List Byte)
  | destroyed
  deriving DecidableEq

namespace Phase

/-- Bytes have been read. -/
def late : Phase → List Byte → Phase
  | .closed before, data => .closed (before ++ data)
  | p, _ => p

@[simp] theorem late_nil (p : Phase) : p.late [] = p := by
  cases p <;> simp [late]

/-- Nothing was read after the close callback. -/
def Quiet (p : Phase) : Prop := p = .closed [] ∨ p = .destroyed

end Phase

/-- The connection. `received` are the bytes that `read` has delivered. -/
structure State (κ : Type) where
  ctx : Ctx κ
  received : List Byte
  phase : Phase

/-- The state once a read that has delivered `data` has been dealt with. -/
def State.after (s : State κ) (x : Ctx κ) (data : List Byte) : State κ where
  ctx := x
  received := s.received ++ data
  phase := s.phase.late data

/-- A read that has delivered nothing. -/
theorem State.after_nil (s : State κ) (x : Ctx κ) : s.after x [] = { s with ctx := x } := by
  rw [State.after, List.append_nil, Phase.late_nil]

/-- An event of the channel with the results of the system calls that it makes, or the functor that
is queued when the connection has been closed. -/
inductive Label
  | read (r : Buffer.ReadResult) (w : WriteResult)
  | write (w : WriteResult)
  /-- with the results for the read that follows the close -/
  | hangUp (r : Buffer.ReadResult) (w : WriteResult)
  | destroy
  deriving DecidableEq

/-- `TcpServer::removeConnectionInLoop`: the connection is erased from `connections_`, where it is
until then. -/
def removeConnection (s : State κ) : Except Failure (State κ) := do
  require (s.phase = .established) .notErased
  pure { s with phase := .closed [] }

/-- The close callback of the channel. -/
def close (s : State κ) : Except Failure (State κ) := do
  let y ← s.ctx.handleClose.mapError .connection
  removeConnection { s with ctx := y }

/-- `handleRead`, and the callback that it calls. -/
def read (s : State κ) (r : Buffer.ReadResult) (w : WriteResult) : Except Failure (State κ) := do
  let y ← (s.ctx.handleRead r).mapError .connection
  let z ← if y.calls = s.ctx.calls ++ [.messageCallback] then (onMessage y w).mapError .connection
    else pure y
  if y.calls = s.ctx.calls ++ [.closeCallback] then removeConnection (s.after z r.data)
  else pure (s.after z r.data)

/-- One step. A `write` event may follow in the `handleEvent` that has closed the connection. -/
def step (s : State κ) : Label → Option (Except Failure (State κ))
  | .read r w => if s.phase = .established then some (read s r w) else none
  | .write w =>
    if s.phase ≠ .destroyed ∧ w.Legal s.ctx.conn.outputBuffer_.readableBytes then
      some (((s.ctx.handleWrite w).mapError .connection).map fun y => { s with ctx := y })
    else none
  | .hangUp r w =>
    if s.phase = .established then
      some (do
        let t ← close s
        read t r w)
    else none
  | .destroy =>
    if s.phase ≠ .established ∧ s.phase ≠ .destroyed then
      some ((s.ctx.connectDestroyed.mapError .connection).map fun y =>
        { s with ctx := y, phase := .destroyed })
    else none

/-! ### The input buffer -/

theorem sendInLoop_input {x y : Ctx κ} {message : List Byte} {r : WriteResult}
    (h : x.sendInLoop message r = .ok y) : y.conn.inputBuffer_ = x.conn.inputBuffer_ := by
  obtain ⟨-, -, -, hconn, -⟩ := Ctx.afterWrite_frame x message r
  rcases Ctx.sendInLoop_cases h with ⟨-, rfl⟩ | ⟨-, -, rfl⟩ | ⟨-, -, rfl⟩ <;>
    simp [Ctx.buffered, Ctx.updated, Ctx.setConn, hconn]

theorem handleWrite_input {x y : Ctx κ} {r : WriteResult} (h : x.handleWrite r = .ok y) :
    y.conn.inputBuffer_ = x.conn.inputBuffer_ := by
  rcases Ctx.handleWrite_cases h with rfl | ⟨hn, -, -, rfl⟩ | ⟨hn, -, -, hd⟩
  · rfl
  · rfl
  · have hy := Ctx.drained_ok hd
    split_ifs at hy <;> rw [hy, Ctx.quiet] <;> simp [Ctx.shutDown, Ctx.setConn, Ctx.updated,
      Ctx.sentOut, Ctx.write]

/-- On a channel that is not writing `sendInLoop` leaves write interest exactly when it has left
bytes pending. -/
theorem sendInLoop_synced {x y : Ctx κ} {message : List Byte} {r : WriteResult}
    (hw : x.conn.channel_.isWriting = false) (hne : message ≠ [])
    (h : x.sendInLoop message r = .ok y) : y.Synced := by
  have hpos : 0 < message.length := List.length_pos_iff.2 hne
  obtain ⟨-, -, -, hconn, -⟩ := Ctx.afterWrite_frame x message r
  rcases Ctx.sendInLoop_cases h with ⟨hall, rfl⟩ | ⟨-, hw', -⟩ | ⟨hlt, -, rfl⟩
  · -- the kernel has taken the message, so nothing was pending before
    have hp : x.pending = [] := by
      unfold Ctx.direct at hall
      split_ifs at hall with hd
      · exact (Ctx.writesDirectly_iff.1 hd).2
      · omega
    have hp' : (x.afterWrite message r).pending = [] := by rw [Ctx.pending, hconn]; exact hp
    have hw' : (x.afterWrite message r).conn.channel_.isWriting = false := by rw [hconn]; exact hw
    simp [Ctx.Synced, hp', hw']
  · rw [hw] at hw'
    cases hw'
  · refine ⟨fun _ => ?_, fun _ => ?_⟩
    · simp [Ctx.pending, Ctx.buffered, Ctx.setConn, Ctx.updated, List.drop_eq_nil_iff, hlt]
    · rw [Ctx.updated_isWriting]
      exact Channel.isWriting_enableWriting _

/-- `onMessage` moves what is in the input buffer to the end of the output stream. -/
theorem onMessage_ok {x : Ctx κ} (hb : Ctx.Bound x) (hstate : x.conn.state_ = .kConnected)
    (w : WriteResult) : ∃ y, onMessage x w = .ok y ∧ Ctx.Bound y ∧
      y.conn.state_ = .kConnected ∧ y.stream = x.stream ++ x.conn.inputBuffer_.readable ∧
      y.conn.inputBuffer_.readable = [] ∧ (Ctx.Live x → Ctx.Live y) ∧
      (x.conn.channel_.isWriting = false → x.conn.inputBuffer_.readable ≠ [] → y.Synced) := by
  obtain ⟨hmsg, hrest⟩ := x.conn.inputBuffer_.retrieveAsString_spec
  set x' := x.setConn { x.conn with inputBuffer_ := x.conn.inputBuffer_.retrieveAsString.2 }
  have hx' : Ctx.Bound x' := Ctx.Acts.bound hb (Ctx.Acts.still (y := x') hb rfl rfl rfl rfl rfl rfl)
  obtain ⟨y, hy, hacts⟩ := Ctx.sendInLoop_acts hx' x.conn.inputBuffer_.retrieveAsString.1 w
  have hmoved := Ctx.sendInLoop_moved hy
  refine ⟨y, (if_pos hstate).trans hy, hacts.bound hx', hmoved.state.trans hstate, ?_, ?_, ?_, ?_⟩
  · rw [hmoved.stream, hmsg]
    rfl
  · rw [sendInLoop_input hy]
    exact hrest
  · intro h
    have hlive : Ctx.Live x' :=
      ⟨h.toRegistered.of_conn rfl rfl rfl rfl rfl, h.state, h.synced⟩
    obtain ⟨y', hy', hlive'⟩ :=
      Ctx.sendInLoop_live hlive x.conn.inputBuffer_.retrieveAsString.1 w
    rw [hy] at hy'
    cases hy'
    exact hlive'
  · intro hw hne
    rw [← hmsg] at hne
    exact sendInLoop_synced (x := x') hw hne hy

/-! ### The invariant -/

/-- A connection that has just been established. -/
structure Start (s : State κ) : Prop where
  established : Ctx.Established s.ctx
  input : s.ctx.conn.inputBuffer_.readable = []
  received : s.received = []
  phase : s.phase = .established

/-- All that was received is in the output stream, and the channel is writing when some of it has
not been accepted, except on a connection that was closed and has read nothing since. -/
structure Inv (s : State κ) : Prop where
  bound : Ctx.Bound s.ctx
  stream : s.ctx.stream = s.received
  input : s.ctx.conn.inputBuffer_.readable = []
  established : s.phase = .established → Ctx.Open s.ctx.conn
  quiet : s.phase.Quiet → Ctx.Shut s.ctx.conn
  synced : ¬ s.phase.Quiet → s.ctx.Synced
  state : s.phase ≠ .destroyed → s.ctx.conn.state_ = .kConnected

variable {s t : State κ}

theorem not_quiet (h : s.phase = .established) : ¬ s.phase.Quiet := by
  rintro (hq | hq) <;> rw [h] at hq <;> cases hq

theorem Inv.live (hs : Inv s) (h : s.phase = .established) : Ctx.Live s.ctx :=
  (hs.established h).live hs.bound (Or.inl (hs.state (by rw [h]; decide)))

theorem start_inv (h : Start s) : Inv s := by
  obtain ⟨hlive, hstate, hsocket, hpending⟩ := h.established.spec
  refine ⟨hlive.bound, ?_, h.input, fun _ => hlive.open, fun hq => absurd hq (not_quiet h.phase),
    fun _ => hlive.synced, fun _ => hstate⟩
  rw [Ctx.stream, Ctx.wire, hsocket, hpending, h.received]
  rfl

/-- The close callback of an established connection. -/
theorem close_inv (hs : Inv s) (h : s.phase = .established) :
    ∃ y, close s = .ok { s with ctx := y, phase := .closed [] } ∧
      Inv { s with ctx := y, phase := .closed [] } := by
  have hlive := hs.live h
  obtain ⟨y, hy, hacts, -, hstate⟩ := Ctx.handleClose_acts hs.bound hlive.state
  refine ⟨y, ?_, hacts.bound hs.bound, (OutputStream.handleClose_stream hy).trans hs.stream, ?_,
    fun hest => (by cases hest), fun _ => Ctx.handleClose_shut hlive.open hy,
    fun hn => absurd (.inl rfl) hn, fun _ => hstate.trans (hs.state (by rw [h]; decide))⟩
  · rw [close, hy]
    change removeConnection { s with ctx := y } = _
    rw [removeConnection, require_of h]
    rfl
  · obtain ⟨-, -, rfl⟩ := Ctx.handleClose_ok hy
    exact hs.input

/-- A read that calls nothing back. -/
theorem read_error (s : State κ) (errno : ℕ) (w : WriteResult) : read s (.error errno) w =
    .ok { s with ctx := s.ctx.received (.error errno) } := by
  have hread : s.ctx.handleRead (.error errno) = .ok (s.ctx.received (.error errno)) := rfl
  have hcalls : ∀ c, (s.ctx.received (.error errno)).calls ≠ s.ctx.calls ++ [c] := by
    intro c hc
    have hlen := congrArg List.length hc
    simp [Ctx.received, Ctx.setConn] at hlen
  rw [read, hread, mapError_ok, ok_bind, if_neg (hcalls _), pure_eq_ok, ok_bind]
  exact (if_neg (hcalls _)).trans (congrArg Except.ok (s.after_nil _))

/-- The end of the file. -/
theorem read_end {y : Ctx κ} (w : WriteResult)
    (h : (s.ctx.received (.bytes [])).handleClose = .ok y)
    (hcalls : y.calls = s.ctx.calls ++ [.closeCallback]) :
    read s (.bytes []) w = removeConnection { s with ctx := y } := by
  have hread : s.ctx.handleRead (.bytes []) = .ok y := h
  have hne : y.calls ≠ s.ctx.calls ++ [.messageCallback] := by
    rw [hcalls]
    simp
  rw [read, hread, mapError_ok, ok_bind, if_neg hne, pure_eq_ok, ok_bind]
  exact (if_pos hcalls).trans (congrArg removeConnection (s.after_nil y))

/-- Bytes, with which `onMessage` is called. -/
theorem read_bytes {z : Ctx κ} {data : List Byte} (hne : data ≠ []) {w : WriteResult}
    (h : onMessage ((s.ctx.received (.bytes data)).call .messageCallback) w = .ok z) :
    read s (.bytes data) w = .ok (s.after z data) := by
  obtain ⟨b, rest, rfl⟩ := List.exists_cons_of_ne_nil hne
  have hread : s.ctx.handleRead (.bytes (b :: rest)) =
      .ok ((s.ctx.received (.bytes (b :: rest))).call .messageCallback) := rfl
  have hcalls : ((s.ctx.received (.bytes (b :: rest))).call .messageCallback).calls =
      s.ctx.calls ++ [.messageCallback] := rfl
  have hclose : ((s.ctx.received (.bytes (b :: rest))).call .messageCallback).calls ≠
      s.ctx.calls ++ [.closeCallback] := by
    rw [hcalls]
    simp
  rw [read, hread, mapError_ok, ok_bind, if_pos hcalls, h, mapError_ok, ok_bind]
  exact if_neg hclose

/-- The end of the file closes the connection, and fails on one that has been closed. -/
theorem read_eof (hs : Inv s) (h : s.phase ≠ .destroyed) (w : WriteResult) :
    (s.phase = .established → ∃ t, read s (.bytes []) w = .ok t ∧ Inv t) ∧
      (s.phase ≠ .established → read s (.bytes []) w = .error .notErased) := by
  have hstate := hs.state h
  have hbound := (Ctx.received_acts hs.bound (.bytes [])).bound hs.bound
  obtain ⟨y, hy, hacts, hcalls, hstate'⟩ := Ctx.handleClose_acts hbound (Or.inl hstate)
  rw [read_end w hy hcalls, removeConnection]
  refine ⟨fun hest => ⟨{ s with ctx := y, phase := .closed [] }, ?_, hacts.bound hbound, ?_, ?_,
    fun hn => (by cases hn), fun _ => ?_, fun hn => absurd (.inl rfl) hn,
    fun _ => hstate'.trans hstate⟩, fun hest => ?_⟩
  · rw [require_of hest]
    rfl
  · exact (OutputStream.handleClose_stream hy).trans hs.stream
  · obtain ⟨-, -, rfl⟩ := Ctx.handleClose_ok hy
    rw [← List.append_nil []]
    exact (ByteBuffer.readable_readFd _ _).trans (congrArg (· ++ []) hs.input)
  · have hlive := hs.live hest
    have hopen : Ctx.Open (s.ctx.received (.bytes [])).conn :=
      ⟨hlive.index, hlive.reading, hlive.synced⟩
    exact Ctx.handleClose_shut hopen hy
  · rw [require, if_neg hest]
    rfl

/-- Bytes go to the end of the output stream, also after the close. -/
theorem read_data (hs : Inv s) (h : s.phase ≠ .destroyed) {data : List Byte} (hne : data ≠ [])
    (w : WriteResult) (hopen : ¬ s.phase.Quiet → s.phase = .established) :
    ∃ t, read s (.bytes data) w = .ok t ∧ Inv t := by
  have hstate := hs.state h
  have hbound := (Ctx.received_acts hs.bound (.bytes data)).bound hs.bound
  set x := (s.ctx.received (.bytes data)).call .messageCallback with hx
  have hcalled : Ctx.Bound x :=
    Ctx.Acts.bound hbound (Ctx.Acts.still (y := x) hbound rfl rfl rfl rfl rfl rfl)
  have hdata : x.conn.inputBuffer_.readable = data := by
    change (s.ctx.conn.inputBuffer_.readFd (.bytes data)).readable = data
    rw [ByteBuffer.readable_readFd, hs.input]
    rfl
  obtain ⟨z, hz, hzbound, hzstate, hstream, hinput, hlive, hsynced⟩ :=
    onMessage_ok hcalled hstate w
  have hlate : ¬ (s.phase.late data).Quiet := by
    cases hp : s.phase with
    | established => rintro (hq | hq) <;> cases hq
    | closed before =>
      rintro (hq | hq)
      · exact hne (List.append_eq_nil_iff.1 (Phase.closed.inj hq)).2
      · cases hq
    | destroyed => exact absurd hp h
  have hnext : s.phase.late data = .established → s.phase = .established := by
    cases hp : s.phase with
    | established => exact fun _ => rfl
    | closed before => exact fun hq => (by cases hq)
    | destroyed => exact absurd hp h
  have hzlive : s.phase = .established → Ctx.Live z := by
    intro hest
    have hl := hs.live hest
    exact hlive ⟨hl.toRegistered.of_conn rfl rfl rfl rfl rfl, hl.state, hl.synced⟩
  refine ⟨_, read_bytes hne hz, hzbound, ?_, hinput, fun hest => (hzlive (hnext hest)).open,
    fun hq => absurd hq hlate, fun _ => ?_, fun _ => hzstate⟩
  · rw [hdata] at hstream
    exact hstream.trans (congrArg (· ++ data) hs.stream)
  · by_cases hq : s.phase.Quiet
    · exact hsynced (hs.quiet hq).writing (by rwa [hdata])
    · exact (hzlive (hopen hq)).synced

/-- What is read is echoed or closes the connection. Only on a closed connection the end of the file
fails. -/
theorem read_inv (hs : Inv s) (h : s.phase = .established ∨ s.phase = .closed [])
    (r : Buffer.ReadResult) (w : WriteResult) :
    (∃ t, read s r w = .ok t ∧ Inv t) ∨
      (s.phase ≠ .established ∧ r = .bytes [] ∧ read s r w = .error .notErased) := by
  have hn : s.phase ≠ .destroyed := by rcases h with h | h <;> rw [h] <;> decide
  cases r with
  | error errno =>
    have hbound := (Ctx.received_acts hs.bound (.error errno)).bound hs.bound
    refine .inl ⟨_, read_error s errno w, hbound, hs.stream, ?_, hs.established, ?_, hs.synced,
      hs.state⟩
    · rw [← List.append_nil []]
      exact (ByteBuffer.readable_readFd _ _).trans (congrArg (· ++ []) hs.input)
    · exact fun hq => (hs.quiet hq).of_channel rfl
  | bytes data =>
    by_cases hne : data = []
    · subst hne
      obtain ⟨hopen, hclosed⟩ := read_eof hs hn w
      rcases em (s.phase = .established) with hest | hest
      · exact .inl (hopen hest)
      · exact .inr ⟨hest, rfl, hclosed hest⟩
    · exact .inl (read_data hs hn hne w fun hq => h.resolve_right fun hc => hq (.inl hc))

/-- What `handleWrite` writes was in the output buffer. -/
theorem write_inv (hs : Inv s) {w : WriteResult}
    (hw : w.Legal s.ctx.conn.outputBuffer_.readableBytes) :
    ∃ y, s.ctx.handleWrite w = .ok y ∧ Inv { s with ctx := y } := by
  obtain ⟨y, hy, hacts⟩ := Ctx.handleWrite_acts hs.bound hw
  have hmoved := Ctx.handleWrite_moved hy
  refine ⟨y, hy, hacts.bound hs.bound, ?_, ?_, ?_, ?_, ?_, ?_⟩
  · rw [hmoved.stream, List.append_nil]
    exact hs.stream
  · rw [handleWrite_input hy]
    exact hs.input
  · intro hest
    obtain ⟨y', hy', hlive⟩ := Ctx.handleWrite_live (hs.live hest) hw
    rw [hy] at hy'
    cases hy'
    exact hlive.open
  · intro hq
    rw [Ctx.handleWrite_of_shut (hs.quiet hq) hy]
    exact hs.quiet hq
  · exact fun hq => hmoved.synced (hs.synced hq)
  · intro hn
    rw [hmoved.state]
    exact hs.state hn

/-- `connectDestroyed` leaves the stream as it is. -/
theorem destroy_inv (hs : Inv s) (h : s.phase ≠ .destroyed) :
    ∃ y, s.ctx.connectDestroyed = .ok y ∧ Inv { s with ctx := y, phase := .destroyed } ∧
      y.wire = s.ctx.wire := by
  obtain ⟨y, hy, hplain, -⟩ := Ctx.connectDestroyed_plain hs.bound (Or.inl (hs.state h))
  obtain ⟨-, -, -, -, -, hconn, -⟩ := Ctx.connectDestroyed_ok hy
  refine ⟨y, hy, ⟨hplain.bound hs.bound,
    (OutputStream.connectDestroyed_stream hy).trans hs.stream, ?_, fun hest => (by cases hest),
    fun _ => Ctx.connectDestroyed_shut hy, fun hn => absurd (.inr rfl) hn,
    fun hn => absurd rfl hn⟩, ?_⟩
  · rw [hconn]
    exact hs.input
  · rw [Ctx.wire, hconn]
    rfl

/-- **Every step that does not fail keeps the invariant**, and the only one that fails is a hang-up
whose read finds the end of the file. -/
theorem step_inv (hs : Inv s) (l : Label) {r : Except Failure (State κ)}
    (h : step s l = some r) :
    (∃ t, r = .ok t ∧ Inv t ∧ (∀ w, l ≠ .hangUp (.bytes []) w) ∧
      (s.phase.Quiet → t.phase.Quiet ∧ t.ctx.wire = s.ctx.wire)) ∨
    (∃ w, l = .hangUp (.bytes []) w ∧ r = .error .notErased) := by
  cases l with
  | read r' w =>
    rw [step, Option.ite_none_right_eq_some, Option.some.injEq] at h
    obtain ⟨hphase, rfl⟩ := h
    rcases read_inv hs (.inl hphase) r' w with ⟨t, ht, hinv⟩ | ⟨hn, -⟩
    · exact .inl ⟨t, ht, hinv, fun w hw => (by cases hw),
        fun hq => absurd hq (not_quiet hphase)⟩
    · exact absurd hphase hn
  | write w =>
    rw [step, Option.ite_none_right_eq_some, Option.some.injEq] at h
    obtain ⟨⟨-, hw⟩, rfl⟩ := h
    obtain ⟨y, hy, hinv⟩ := write_inv hs hw
    refine .inl ⟨{ s with ctx := y }, by rw [hy]; rfl, hinv, fun w hw => (by cases hw),
      fun hq => ?_⟩
    rw [Ctx.handleWrite_of_shut (hs.quiet hq) hy]
    exact ⟨hq, rfl⟩
  | hangUp r' w =>
    rw [step, Option.ite_none_right_eq_some, Option.some.injEq] at h
    obtain ⟨hphase, rfl⟩ := h
    obtain ⟨y, hy, hinv⟩ := close_inv hs hphase
    rw [hy]
    change (∃ t, read { s with ctx := y, phase := .closed [] } r' w = .ok t ∧ _) ∨ _
    by_cases heof : r' = .bytes []
    · subst heof
      have hfail := (read_eof hinv (fun hn => (by cases hn)) w).2 fun hn => (by cases hn)
      exact .inr ⟨w, rfl, hfail⟩
    · rcases read_inv hinv (.inr rfl) r' w with ⟨t, ht, hinv'⟩ | ⟨-, hr, -⟩
      · refine .inl ⟨t, ht, hinv', fun w hw => heof ?_, fun hq => absurd hq (not_quiet hphase)⟩
        injection hw
      · exact absurd hr heof
  | destroy =>
    rw [step, Option.ite_none_right_eq_some, Option.some.injEq] at h
    obtain ⟨⟨-, hphase⟩, rfl⟩ := h
    obtain ⟨y, hy, hinv, hwire⟩ := destroy_inv hs hphase
    exact .inl ⟨{ s with ctx := y, phase := .destroyed }, by rw [hy]; rfl, hinv,
      fun w hw => (by cases hw), fun _ => ⟨.inr rfl, hwire⟩⟩

theorem reach_inv {s₀ : State κ} (h0 : Start s₀) (h : Reach (Moves step) Always s₀ s) : Inv s :=
  h.invariant (start_inv h0) fun x l y hx _ hstep => by
    rcases step_inv hx l hstep with ⟨t, ht, hinv, -⟩ | ⟨w, -, ht⟩
    · cases ht
      exact hinv
    · cases ht

/-- **The server echoes**: in every run, whatever the system calls return, the bytes that the kernel
has accepted, followed by those that wait, are the bytes that were received. The only step that
fails is a hang-up whose read finds the end of the file: it closes the connection twice. While the
connection is established the channel is writing exactly when some of the bytes have not been
accepted, and a complete write is all that is needed then. After it has been closed no more of them
are written, unless the read that follows a hang-up has brought some; until `connectDestroyed` these
are echoed as before the close, and the channel is writing again when they have not all been
accepted. -/
theorem echo_exact {s₀ : State κ} (h0 : Start s₀) (h : Reach (Moves step) Always s₀ s) :
    s.ctx.wire ++ s.ctx.pending = s.received ∧
      (∀ l e, step s l = some (.error e) ↔
        s.phase = .established ∧ (∃ w, l = .hangUp (.bytes []) w) ∧ e = .notErased) ∧
      (s.phase = .established →
        ∃ t, Moves step s (.write (.accepted s.ctx.conn.outputBuffer_.readableBytes)) t ∧
          t.ctx.wire = t.received ∧ t.received = s.received) ∧
      (s.phase.Quiet → ∀ l t, Moves step s l t → t.phase.Quiet ∧ t.ctx.wire = s.ctx.wire) ∧
      (¬ s.phase.Quiet → (s.ctx.conn.channel_.isWriting = true ↔ s.ctx.wire ≠ s.received)) := by
  have hs := reach_inv h0 h
  have hstream : s.ctx.wire ++ s.ctx.pending = s.received := hs.stream
  have hwire : s.ctx.wire ≠ s.received ↔ s.ctx.pending ≠ [] := by
    rw [← hstream, not_iff_not, List.self_eq_append_right]
  refine ⟨hstream, fun l e => ⟨fun hl => ?_, ?_⟩, fun hest => ?_, fun hq l t hl => ?_, fun hq => ?_⟩
  · rcases step_inv hs l hl with ⟨t, ht, -⟩ | ⟨w, rfl, ht⟩
    · cases ht
    · cases ht
      rw [step, Option.ite_none_right_eq_some] at hl
      exact ⟨hl.1, ⟨w, rfl⟩, rfl⟩
  · rintro ⟨hest, ⟨w, rfl⟩, rfl⟩
    obtain ⟨r, hr⟩ : ∃ r, step s (.hangUp (.bytes []) w) = some r := ⟨_, if_pos hest⟩
    rcases step_inv hs _ hr with ⟨t, -, -, hne, -⟩ | ⟨w', -, hfail⟩
    · exact absurd rfl (hne w)
    · rw [hr, hfail]
  · have hlive := hs.live hest
    obtain ⟨y, hy, hempty⟩ : ∃ y,
        s.ctx.handleWrite (.accepted s.ctx.conn.outputBuffer_.readableBytes) = .ok y ∧
          y.pending = [] := by
      by_cases hp : s.ctx.pending = []
      · obtain ⟨y, hy, -⟩ := Ctx.handleWrite_live hlive
          (r := .accepted s.ctx.conn.outputBuffer_.readableBytes) le_rfl
        have hquiet : ¬ s.ctx.conn.channel_.isWriting = true := fun hw => hlive.synced.1 hw hp
        rcases Ctx.handleWrite_cases hy with rfl | ⟨-, hw, -⟩ | ⟨-, hw, -⟩
        · exact ⟨s.ctx, hy, hp⟩
        · exact absurd hw hquiet
        · exact absurd hw hquiet
      · obtain ⟨y, hy, -, hempty⟩ := Ctx.handleWrite_complete hlive hp
        exact ⟨y, hy, hempty⟩
    have hmoved := (Ctx.handleWrite_moved hy).stream
    refine ⟨{ s with ctx := y }, ?_, ?_, rfl⟩
    · have hn : s.phase ≠ .destroyed := by rw [hest]; decide
      rw [Moves, step, if_pos ⟨hn, le_rfl⟩, hy]
      rfl
    · change y.wire = s.received
      rw [← hs.stream, ← List.append_nil s.ctx.stream, ← hmoved, Ctx.stream, hempty,
        List.append_nil]
  · rcases step_inv hs l hl with ⟨u, hu, -, -, hquiet⟩ | ⟨w, -, hu⟩
    · cases hu
      exact hquiet hq
    · cases hu
  · rw [hwire]
    exact hs.synced hq

def start : State Unit := ⟨Ctx.firstEstablished, [], .established⟩

/-- Two bytes of three are accepted; then the peer hangs up, and a fourth byte is read. -/
theorem echo_exact_closed : ∃ s, Reach (Moves step) Always start s ∧ s.phase = .closed [4] ∧
    s.received = [1, 2, 3, 4] ∧ s.ctx.wire ++ s.ctx.pending = [1, 2, 3, 4] ∧
    s.ctx.wire = [1, 2, 3] := by
  have h0 : Start start := ⟨Ctx.firstEstablished_spec, rfl, rfl, rfl⟩
  obtain ⟨s, hs, hp⟩ := exists_reach_of_run step Always start
    [.read (.bytes [1, 2, 3]) (.accepted 1), .write (.accepted 1),
      .hangUp (.bytes [4]) (.accepted 1), .write (.accepted 1)]
    (fun s => decide (s.phase = .closed [4] ∧ s.received = [1, 2, 3, 4] ∧ s.ctx.wire = [1, 2, 3]))
    (by decide +kernel)
  obtain ⟨hphase, hreceived, hwire⟩ := of_decide_eq_true hp
  exact ⟨s, hs, hphase, hreceived, by rw [(echo_exact h0 hs).1, hreceived], hwire⟩

end Echo

end Fppnet
