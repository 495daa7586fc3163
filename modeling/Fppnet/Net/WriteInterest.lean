import Fppnet.Library.Run
import Fppnet.Net.TcpConnection

/-!
# Write interest and write-complete notifications

A run of an established connection until its first `handleClose`: `sendInLoop` on any message,
`shutdown` (in whatever thread it sets `state_`), `shutdownInLoop`, and the channel events, with any
results of the system calls. The steps come in any order, so that `sendInLoop` also runs on a
connection that is being closed.

* `isWriting_iff_pending`: the channel asks for write events, and the kernel watches for them,
  exactly when output is pending; `sendInLoop` calls `write` exactly when none is, and otherwise
  puts the message behind what is pending;
* `writeComplete_exact`: `writeCompleteCallback_` is queued exactly once by each step that hands the
  last outstanding byte to the kernel, and by no other step.
-/

set_option linter.unusedSectionVars false

namespace Fppnet

open Checked Runs TcpConnection

namespace WriteInterest

open Ctx

variable {κ : Type} [DecidableEq κ]

inductive Event
  | sendInLoop (message : List Byte) (r : WriteResult)
  | shutdown
  | shutdownInLoop
  | handleWrite (r : WriteResult)
  | handleRead (r : Buffer.ReadResult)

namespace Event

/-- The bytes that an event adds to the output. -/
def message : Event → List Byte
  | .sendInLoop message _ => message
  | _ => []

/-- No empty message is sent. -/
def NonEmpty : Event → Prop
  | .sendInLoop message _ => message ≠ []
  | _ => True

instance (e : Event) : Decidable e.NonEmpty :=
  match e with
  | .sendInLoop message _ => inferInstanceAs (Decidable (message ≠ []))
  | .shutdown | .shutdownInLoop | .handleWrite _ | .handleRead _ => isTrue trivial

end Event

/-- The test and the assignment at the beginning of `shutdown`. -/
def setDisconnecting (x : Ctx κ) : Ctx κ :=
  if x.conn.state_ = .kConnected then x.setState .kDisconnecting else x

/-- A read at end of file ends the run, since it calls `handleClose`. -/
def step (x : Ctx κ) : Event → Option (Except Failure (Ctx κ))
  | .sendInLoop message r =>
    if r.Legal message.length then some (x.sendInLoop message r) else none
  | .shutdown => some (.ok (setDisconnecting x))
  | .shutdownInLoop => some x.shutdownInLoop
  | .handleWrite r =>
    if r.Legal x.conn.outputBuffer_.readableBytes then some (x.handleWrite r) else none
  | .handleRead r => if r ≠ .bytes [] then some (x.handleRead r) else none

/-- How often `writeCompleteCallback_` has been queued. -/
def notified (x : Ctx κ) : ℕ := x.calls.count .queueWriteComplete

/-- The bytes of all the messages of a run. -/
def sent (l : List Event) : List Byte := (l.map Event.message).flatten

@[simp] theorem sent_append (l l' : List Event) : sent (l ++ l') = sent l ++ sent l' := by
  simp [sent]

@[simp] theorem sent_cons (e : Event) (l : List Event) : sent (e :: l) = e.message ++ sent l := by
  simp [sent]

@[simp] theorem sent_nil : sent [] = [] := rfl

/-! ### What the kernel watches -/

/-- The kernel watches the channel for exactly the events that it asks for. -/
def Watched (x : Ctx κ) : Prop :=
  x.poller.interest x.conn.channel_.fd_ = some (x.conn.channel_.events_, x.self)

/-- An established connection and what the kernel knows of it. -/
structure Attended (x : Ctx κ) : Prop extends Live x where
  kernel : Watched x

theorem Watched.of_conn {x y : Ctx κ} (h : Watched x) (hs : y.self = x.self)
    (hp : y.poller = x.poller) (hc : y.conn.channel_ = x.conn.channel_) : Watched y := by
  rw [Watched, hp, hc, hs]
  exact h

/-- An update passes the events of a channel that reads on to the kernel. -/
theorem watched_updated (x : Ctx κ) {ch : Channel} (h : ch.isReading = true) :
    Watched (x.updated ch) := by
  simp [Watched, updated, EPoller.updated, Channel.set_index, not_drops_of_isReading h]

theorem sendInLoop_watched {x y : Ctx κ} {message : List Byte} {r : WriteResult}
    (h : Attended x) (hy : x.sendInLoop message r = .ok y) : Watched y := by
  obtain ⟨-, hself, hpoll, hconn, -⟩ := afterWrite_frame x message r
  rcases sendInLoop_cases hy with ⟨-, rfl⟩ | ⟨-, -, rfl⟩ | ⟨-, -, rfl⟩
  · exact h.kernel.of_conn hself hpoll (by rw [hconn])
  · exact h.kernel.of_conn hself hpoll (by simp [buffered, setConn, hconn])
  · exact watched_updated _ ((Channel.isReading_enableWriting _).trans h.reading)

/-- When the last pending bytes of a live connection have gone out, it is quiet. -/
theorem eq_quiet {x y : Ctx κ} {n : ℕ} (h : Live x) (hn : n ≤ x.conn.outputBuffer_.readableBytes)
    (hd : (x.sentOut n hn).drained = .ok y) : y = (x.sentOut n hn).quiet := by
  have hs : (x.sentOut n hn).conn.state_ ≠ .kDisconnected := by
    show x.conn.state_ ≠ .kDisconnected
    rcases h.state with hst | hst <;> rw [hst] <;> decide
  rw [drained_ok hd, if_neg hs]

theorem handleWrite_watched {x y : Ctx κ} {r : WriteResult} (h : Attended x)
    (hy : x.handleWrite r = .ok y) : Watched y := by
  rcases handleWrite_cases hy with rfl | ⟨hn, -, -, rfl⟩ | ⟨hn, -, -, hd⟩
  · exact h.kernel
  · exact h.kernel.of_conn rfl rfl rfl
  · obtain rfl := eq_quiet h.toLive hn hd
    have hw : Watched ((x.sentOut r.nwrote hn).updated
        (x.sentOut r.nwrote hn).conn.channel_.disableWriting) :=
      watched_updated _ ((Channel.isReading_disableWriting _).trans h.reading)
    exact hw.of_conn (notify_self _) (notify_poller _) (by rw [quiet, notify_conn])

theorem Established.attended {x : Ctx κ} (h : Established x) : Attended x := by
  refine ⟨h.spec.1, ?_⟩
  obtain ⟨x₀, -, hx⟩ := h
  obtain ⟨-, -, rfl⟩ := connectEstablished_ok hx
  exact (watched_updated (x₀.setState .kConnected) (Channel.isReading_enableReading _)).of_conn
    rfl rfl rfl

/-! ### Notifications -/

/-- The direct write of a message that is not empty notifies exactly when it is complete. -/
theorem afterWrite_notified {x : Ctx κ} {message : List Byte} {r : WriteResult}
    (hwc : x.conn.writeCompleteCallback_ = true) (hne : message ≠ []) :
    notified (x.afterWrite message r) =
      notified x + if message.length ≤ x.direct r then 1 else 0 := by
  have hpos : ¬ message.length ≤ 0 := fun h0 =>
    hne (List.eq_nil_of_length_eq_zero (Nat.le_zero.1 h0))
  unfold afterWrite direct
  split_ifs with hd hle
  · cases r with
    | accepted n =>
      have hlt : ¬ n < message.length := not_lt.2 hle
      simp [directWrite, hlt, write, setConn, call, hwc, notified]
    | error errno => exact absurd hle hpos
  · cases r with
    | accepted n =>
      have hlt : n < message.length := not_le.1 hle
      simp [directWrite, hlt, write, setConn, notified]
    | error errno => rfl
  · rfl

/-- `sendInLoop` on a message that is not empty notifies exactly when it leaves nothing pending. -/
theorem sendInLoop_notified {x y : Ctx κ} {message : List Byte} {r : WriteResult}
    (hwc : x.conn.writeCompleteCallback_ = true) (hne : message ≠ [])
    (hy : x.sendInLoop message r = .ok y) :
    notified y = notified x + if y.pending = [] then 1 else 0 := by
  have hcount := afterWrite_notified (r := r) hwc hne
  have hbuf : x.direct r < message.length → (x.buffered message r).pending ≠ [] := by
    intro hlt
    simp [pending, buffered, setConn, List.drop_eq_nil_iff, hlt]
  rcases sendInLoop_cases hy with ⟨hall, rfl⟩ | ⟨hlt, -, rfl⟩ | ⟨hlt, -, rfl⟩
  · -- the kernel took the whole message, so it was written directly
    have hdir : x.writesDirectly = true := by
      by_contra hd
      rw [direct, if_neg hd] at hall
      exact hne (List.eq_nil_of_length_eq_zero (Nat.le_zero.1 hall))
    have hp : (x.afterWrite message r).pending = [] := by
      rw [pending, (afterWrite_frame x message r).2.2.2.1]
      exact (writesDirectly_iff.1 hdir).2
    rw [hcount, if_pos hall, if_pos hp]
  · rw [if_neg (hbuf hlt)]
    rw [if_neg (not_le.2 hlt)] at hcount
    exact hcount
  · rw [updated_pending, if_neg (hbuf hlt)]
    rw [if_neg (not_le.2 hlt)] at hcount
    exact hcount

/-- `handleWrite` notifies exactly when it hands the last pending bytes to the kernel. -/
theorem handleWrite_notified {x y : Ctx κ} {r : WriteResult} (h : Live x)
    (hwc : x.conn.writeCompleteCallback_ = true) (hy : x.handleWrite r = .ok y) :
    notified y = notified x + if y.pending = [] ∧ x.pending ≠ [] then 1 else 0 := by
  rcases handleWrite_cases hy with rfl | ⟨hn, -, hp, rfl⟩ | ⟨hn, hw, hp, hd⟩
  · simp
  · rw [if_neg fun h => hp h.1]
    rfl
  · obtain rfl := eq_quiet h hn hd
    have hq : (x.sentOut r.nwrote hn).quiet.pending = [] := by
      rw [pending, quiet, notify_conn]
      exact hp
    rw [if_pos ⟨hq, h.synced.1 hw⟩, notified, quiet, notify,
      if_pos (show ((x.sentOut r.nwrote hn).updated _).conn.writeCompleteCallback_ = true from hwc)]
    simp [call, updated, sentOut, write, setConn, notified]

/-! ### One event -/

/-- What an event does to an established connection. -/
structure Step (x : Ctx κ) (e : Event) (y : Ctx κ) : Prop where
  attended : Attended y
  stream : y.stream = x.stream ++ e.message
  callback : y.conn.writeCompleteCallback_ = x.conn.writeCompleteCallback_
  notified : x.conn.writeCompleteCallback_ = true → e.NonEmpty →
    notified y = notified x +
      if y.pending = [] ∧ (x.pending ≠ [] ∨ e.message ≠ []) then 1 else 0

/-- An event that touches neither the output nor the registration. -/
theorem Step.of_same {x y : Ctx κ} {e : Event} (h : Attended x) (hth : y.thread = x.thread)
    (hself : y.self = x.self) (hpoll : y.poller = x.poller) (hloop : y.conn.loop_ = x.conn.loop_)
    (hch : y.conn.channel_ = x.conn.channel_) (hout : y.conn.outputBuffer_ = x.conn.outputBuffer_)
    (hwire : y.wire = x.wire) (hwc : y.conn.writeCompleteCallback_ = x.conn.writeCompleteCallback_)
    (hst : y.conn.state_ = .kConnected ∨ y.conn.state_ = .kDisconnecting)
    (hn : WriteInterest.notified y = WriteInterest.notified x) (he : e.message = []) :
    Step x e y := by
  have hpend : y.pending = x.pending := by rw [pending, hout, pending]
  refine ⟨⟨⟨h.toRegistered.of_conn hth hself hpoll hloop hch, hst, ?_⟩,
    h.kernel.of_conn hself hpoll hch⟩, ?_, hwc, fun _ _ => ?_⟩
  · rw [Synced, hch, hpend]
    exact h.synced
  · rw [Ctx.stream, Ctx.stream, hwire, hpend, he, List.append_nil]
  · rw [hn, hpend, he]
    simp

/-- No event aborts an established connection, and each is a `Step`. -/
theorem step_ok {x : Ctx κ} {e : Event} {o : Except Failure (Ctx κ)} (h : Attended x)
    (hs : step x e = some o) : ∃ y, o = .ok y ∧ Step x e y := by
  cases e with
  | sendInLoop message r =>
    simp only [step, Option.ite_none_right_eq_some, Option.some.injEq] at hs
    obtain ⟨-, rfl⟩ := hs
    obtain ⟨y, hy, hlive⟩ := sendInLoop_live h.toLive message r
    have hm := sendInLoop_moved hy
    refine ⟨y, hy, ⟨hlive, sendInLoop_watched h hy⟩, hm.stream, ?_, fun hwc hne => ?_⟩
    · obtain ⟨-, -, -, hconn, -⟩ := afterWrite_frame x message r
      rcases sendInLoop_cases hy with ⟨-, rfl⟩ | ⟨-, -, rfl⟩ | ⟨-, -, rfl⟩ <;>
        simp [buffered, updated, setConn, hconn]
    · have hne' : message ≠ [] := hne
      rw [sendInLoop_notified hwc hne' hy]
      simp [Event.message, hne']
  | shutdown =>
    cases hs
    refine ⟨_, rfl, ?_⟩
    unfold setDisconnecting
    split_ifs with hk
    · exact Step.of_same h rfl rfl rfl rfl rfl rfl rfl rfl (.inr rfl) rfl rfl
    · exact Step.of_same h rfl rfl rfl rfl rfl rfl rfl rfl h.state rfl rfl
  | shutdownInLoop =>
    cases hs
    rw [shutdownInLoop_eq h.thread]
    split_ifs with hw
    · exact ⟨_, rfl, Step.of_same h rfl rfl rfl rfl rfl rfl rfl rfl h.state rfl rfl⟩
    · exact ⟨_, rfl, Step.of_same h rfl rfl rfl rfl rfl rfl rfl rfl h.state rfl rfl⟩
  | handleWrite r =>
    simp only [step, Option.ite_none_right_eq_some, Option.some.injEq] at hs
    obtain ⟨hr, rfl⟩ := hs
    obtain ⟨y, hy, hlive⟩ := handleWrite_live h.toLive hr
    refine ⟨y, hy, ⟨hlive, handleWrite_watched h hy⟩, (handleWrite_moved hy).stream, ?_,
      fun hwc _ => ?_⟩
    · rcases handleWrite_cases hy with rfl | ⟨hn, -, -, rfl⟩ | ⟨hn, -, -, hd⟩
      · rfl
      · rfl
      · obtain rfl := eq_quiet h.toLive hn hd
        rw [quiet, notify_conn]
        rfl
    · rw [handleWrite_notified h.toLive hwc hy]
      simp [Event.message]
  | handleRead r =>
    simp only [step, Option.ite_none_right_eq_some, Option.some.injEq] at hs
    obtain ⟨hr, rfl⟩ := hs
    rcases handleRead_cases x r with ⟨h0, -⟩ | ⟨-, hx | hx⟩
    · exact absurd h0 hr
    · exact ⟨_, hx, Step.of_same h rfl rfl rfl rfl rfl rfl rfl rfl h.state rfl rfl⟩
    · refine ⟨_, hx, Step.of_same h rfl rfl rfl rfl rfl rfl rfl rfl h.state ?_ rfl⟩
      simp [WriteInterest.notified, call, setConn]

theorem step_spec {x y : Ctx κ} {e : Event} (h : Attended x) (hs : Moves step x e y) :
    Step x e y := by
  obtain ⟨z, hz, hstep⟩ := step_ok h hs
  cases hz
  exact hstep

/-! ### Whole runs -/

theorem attended_of_reach {x₀ x : Ctx κ} (h0 : Established x₀)
    (hrun : Reach (Moves step) Always x₀ x) : Attended x :=
  hrun.invariant (I := Attended) (Established.attended h0)
    fun _ _ _ h _ hs => (step_spec h hs).attended

/-- `write` is called by the next `sendInLoop`, whatever its message: what it accepts is with the
kernel and the rest is pending. Otherwise the whole message waits behind what is pending, and the
result of a `write` is not asked for. -/
def SendsDirectly (x : Ctx κ) (direct : Prop) : Prop :=
  ∀ message r y, x.sendInLoop message r = .ok y →
    (direct → y.wire = x.wire ++ message.take r.nwrote ∧
      y.pending = x.pending ++ message.drop r.nwrote) ∧
    (¬ direct → y.wire = x.wire ∧ y.pending = x.pending ++ message ∧
      ∀ r', x.sendInLoop message r' = .ok y)

theorem sendsDirectly (x : Ctx κ) : SendsDirectly x (x.writesDirectly = true) := by
  intro message r y h
  obtain ⟨hwire, hpending⟩ := sendInLoop_parts h
  refine ⟨fun hd => ?_, fun hd => ?_⟩
  · rw [direct, if_pos hd] at hwire hpending
    exact ⟨hwire, hpending⟩
  · rw [direct, if_neg hd] at hwire hpending
    refine ⟨hwire.trans (List.append_nil _), hpending, fun r' => ?_⟩
    rw [← h, sendInLoop, sendInLoop, if_neg hd, if_neg hd]

/-- **Write interest is pending output**: in every state of a run the channel asks for write events
exactly when output is pending, the kernel watches for them exactly then, the next `sendInLoop`
calls `write` exactly when none is, and otherwise buffers the whole message, and no event aborts the
program. -/
theorem isWriting_iff_pending {x₀ x : Ctx κ} (h0 : Established x₀)
    (hrun : Reach (Moves step) Always x₀ x) :
    (x.conn.channel_.isWriting = true ↔ 0 < x.conn.outputBuffer_.readableBytes) ∧
      (∃ events, x.poller.interest x.conn.channel_.fd_ = some (events, x.self) ∧
        (events &&& POLLOUT ≠ 0 ↔ 0 < x.conn.outputBuffer_.readableBytes)) ∧
      ((x.writesDirectly = true ↔ x.conn.outputBuffer_.readableBytes = 0) ∧
        SendsDirectly x (x.conn.outputBuffer_.readableBytes = 0)) ∧
      ∀ e f, step x e ≠ some (.error f) := by
  have h := attended_of_reach h0 hrun
  have hiff : x.conn.channel_.isWriting = true ↔ 0 < x.conn.outputBuffer_.readableBytes := by
    have hsync : x.conn.channel_.isWriting = true ↔ x.pending ≠ [] := h.synced
    rw [hsync, Nat.pos_iff_ne_zero, ne_eq, ne_eq, pending_eq_nil]
  have hdirect : x.writesDirectly = true ↔ x.conn.outputBuffer_.readableBytes = 0 := by
    rw [writesDirectly_iff, ← pending_eq_nil, ← Bool.not_eq_true, hiff]
    omega
  refine ⟨hiff, ⟨_, h.kernel, ?_⟩, ⟨hdirect, ?_⟩, fun e f hf => ?_⟩
  · rw [← hiff]
    simp [Channel.isWriting, Channel.kWriteEvent]
  · rw [← hdirect]
    exact sendsDirectly x
  · obtain ⟨y, hy, -⟩ := step_ok h hf
    cases hy

/-- A connection on which a message has been cut: write interest is set. -/
theorem isWriting_iff_pending_sent :
    let x := next step firstEstablished (.sendInLoop [1, 2] (.accepted 1))
    (x.conn.channel_.isWriting = true ↔ 0 < x.conn.outputBuffer_.readableBytes) ∧
      (∃ events, x.poller.interest x.conn.channel_.fd_ = some (events, x.self) ∧
        (events &&& POLLOUT ≠ 0 ↔ 0 < x.conn.outputBuffer_.readableBytes)) ∧
      ((x.writesDirectly = true ↔ x.conn.outputBuffer_.readableBytes = 0) ∧
        SendsDirectly x (x.conn.outputBuffer_.readableBytes = 0)) ∧
      ∀ e f, step x e ≠ some (.error f) :=
  isWriting_iff_pending firstEstablished_spec
    (Reach.single trivial (moves_next (by decide +kernel)))

/-- Along a run the output stream is what has been sent. -/
theorem stream_of_path {x y : Ctx κ} {l : List Event} (h : Attended x)
    (hl : Path (Moves step) l x y) :
    Attended y ∧ y.stream = x.stream ++ sent l ∧
      y.conn.writeCompleteCallback_ = x.conn.writeCompleteCallback_ := by
  induction hl with
  | nil s => exact ⟨h, by simp, rfl⟩
  | cons hs _ ih =>
    have hstep := step_spec h hs
    obtain ⟨hy, hstr, hwc⟩ := ih hstep.attended
    exact ⟨hy, by rw [hstr, hstep.stream, sent_cons, List.append_assoc], hwc.trans hstep.callback⟩

/-- The step from `x` to `y` ends with every byte sent accepted by the kernel, and at least one
byte was outstanding when it ran: buffered, or of the new message. -/
def Drains (l : List Event) (x : Ctx κ) (e : Event) (y : Ctx κ) : Prop :=
  y.wire = sent (l ++ [e]) ∧ (x.wire ≠ sent l ∨ e.message ≠ [])

instance (l : List Event) (x : Ctx κ) (e : Event) (y : Ctx κ) : Decidable (Drains l x e y) :=
  inferInstanceAs (Decidable (_ ∧ _))

/-- Everything sent is with the kernel exactly when nothing is pending. -/
theorem wire_eq_iff {x : Ctx κ} {bytes : List Byte} (h : x.stream = bytes) :
    x.wire = bytes ↔ x.pending = [] := by
  rw [← h, Ctx.stream]
  simp

/-- Notifications are never lost along a run, and one comes whenever output that was pending has
been drained. -/
theorem notified_of_path {x y : Ctx κ} {l : List Event} (h : Attended x)
    (hwc : x.conn.writeCompleteCallback_ = true) (hne : ∀ e ∈ l, e.NonEmpty)
    (hl : Path (Moves step) l x y) :
    notified x ≤ notified y ∧ (x.pending ≠ [] → y.pending = [] → notified x < notified y) := by
  induction hl with
  | nil s => exact ⟨le_rfl, fun hp hnil => absurd hnil hp⟩
  | cons hs _ ih =>
    have hstep := step_spec h hs
    have hcount := hstep.notified hwc (hne _ List.mem_cons_self)
    obtain ⟨hle, hlt⟩ := ih hstep.attended (hstep.callback.trans hwc)
      fun e he => hne e (List.mem_cons_of_mem _ he)
    refine ⟨by omega, fun hp hnil => ?_⟩
    split_ifs at hcount with hdrained
    · omega
    · have hpend := hlt (fun h0 => hdrained ⟨h0, .inl hp⟩) hnil
      omega

/-- **Write-complete notifications are exact**: in a run of messages that are not empty, a step
queues the callback exactly once if it hands the last outstanding byte to the kernel, and not
otherwise; and a message whose bytes have been drained is followed by a notification. -/
theorem writeComplete_exact {x₀ x y : Ctx κ} {l : List Event} {e : Event} (h0 : Established x₀)
    (hwc : x₀.conn.writeCompleteCallback_ = true) (hl : Path (Moves step) l x₀ x)
    (hs : Moves step x e y) (hne : ∀ e' ∈ l ++ [e], e'.NonEmpty) :
    (notified y = notified x + if Drains l x e y then 1 else 0) ∧
      ∀ l' z, Path (Moves step) l' y z → (∀ e' ∈ l', e'.NonEmpty) → e.message ≠ [] →
        z.wire = sent (l ++ [e] ++ l') → notified x < notified z := by
  have hnil : x₀.stream = [] := by
    rw [Ctx.stream, Ctx.wire, h0.spec.2.2.1, h0.spec.2.2.2]
    rfl
  obtain ⟨hx, hstr, hwcx⟩ := stream_of_path (Established.attended h0) hl
  rw [hnil, List.nil_append] at hstr
  have hstep := step_spec hx hs
  have hstry : y.stream = sent (l ++ [e]) := by
    rw [hstep.stream, hstr, sent_append, sent_cons, sent_nil, List.append_nil]
  have hcount := hstep.notified (hwcx.trans hwc) (hne e (by simp))
  refine ⟨?_, fun l' z hz hne' he hall => ?_⟩
  · rw [hcount]
    simp only [Drains, wire_eq_iff hstr, wire_eq_iff hstry, ne_eq]
  · obtain ⟨-, hstrz, -⟩ := stream_of_path hstep.attended hz
    have hdrained : z.pending = [] := by
      rw [hstry, ← sent_append] at hstrz
      exact (wire_eq_iff hstrz).1 hall
    obtain ⟨hle, hlt⟩ := notified_of_path hstep.attended
      (hstep.callback.trans (hwcx.trans hwc)) hne' hz
    by_cases hp : y.pending = []
    · rw [if_pos ⟨hp, .inr he⟩] at hcount
      omega
    · have hmore := hlt hp hdrained
      omega

/-! A connection with a `writeCompleteCallback_` on which a message is cut and then drained. -/

def notifying : Ctx Unit := ⟨0, (), TcpConnection.new 0 "server#0" 5 true, EPoller.empty, []⟩

def notifyingEstablished : Ctx Unit :=
  match notifying.connectEstablished with
  | .ok x => x
  | .error _ => notifying

theorem notifyingEstablished_spec : Established notifyingEstablished := by
  have hfresh : Fresh notifying := new_fresh EPoller.empty () 0 "server#0" 5 true rfl rfl
  obtain ⟨y, hy, -⟩ := connectEstablished_live hfresh
  refine ⟨notifying, hfresh, ?_⟩
  rw [notifyingEstablished, hy]

def cut : Ctx Unit := next step notifyingEstablished (.sendInLoop [1, 2] (.accepted 1))

def drainedCut : Ctx Unit := next step cut (.handleWrite (.accepted 1))

theorem writeComplete_exact_cut :
    (notified cut = notified notifyingEstablished +
      if Drains [] notifyingEstablished (.sendInLoop [1, 2] (.accepted 1)) cut then 1 else 0) ∧
      notified notifyingEstablished < notified drainedCut := by
  obtain ⟨hstep, hrun⟩ := writeComplete_exact (e := .sendInLoop [1, 2] (.accepted 1))
    notifyingEstablished_spec (by decide +kernel) (.nil notifyingEstablished)
    (moves_next (by decide +kernel)) (by decide)
  exact ⟨hstep, hrun [.handleWrite (.accepted 1)] drainedCut
    (.cons (moves_next (by decide +kernel)) (.nil drainedCut)) (by decide) (by decide)
    (by decide +kernel)⟩

end WriteInterest

end Fppnet
