import Fppnet.Library.Relay
import Fppnet.Library.Run
import Fppnet.Net.TcpConnection

/-!
# The output stream of a connection used by many threads

The loop thread of a connection runs the member functions at once; `send` and `shutdown` in another
thread test `state_`, and later queue a functor that the loop runs. The steps of the system are the
tests, the critical sections of `queueInLoop`, the swap in `doPendingFunctors`, the functors, and
the channel events with any results of the system calls. Any order of these steps is a run; in
particular the loop thread may handle events between two functors, which is more than it does.

Two histories are kept beside the program's state: the messages that `send` has accepted
(`state_ == kConnected`), in the order of the tests, and the messages on which `sendInLoop` has run.
`outputStream_integrity` relates the output stream to both.
-/

set_option linter.unusedSectionVars false

namespace Fppnet

open Checked Runs Relays TcpConnection

namespace OutputStream

open Ctx

variable {κ τ : Type} [DecidableEq κ] [DecidableEq τ]

/-- A functor bound to the connection. -/
inductive Functor
  | sendInLoop (message : List Byte)
  | shutdownInLoop
  deriving DecidableEq

/-- The message a functor is going to send. -/
def Functor.message : Functor → Option (List Byte)
  | .sendInLoop message => some message
  | .shutdownInLoop => none

@[simp] theorem message_sendInLoop (message : List Byte) :
    (Functor.sendInLoop message).message = some message := rfl

@[simp] theorem message_shutdownInLoop : Functor.shutdownInLoop.message = none := rfl

/-- A thread that calls `send`: the loop's own or another one. -/
inductive Sender (τ : Type)
  | loopThread
  | thread (t : τ)
  deriving DecidableEq

/-- The connection on its loop thread, the functors on their way, the threads that are about to set
`state_` in `shutdown`, and the two histories. -/
structure State (κ τ : Type) where
  ctx : Ctx κ
  relay : Relay τ Functor
  closing : τ → Bool
  accepted : List (Sender τ × List Byte)
  ran : List (Sender τ × List Byte)

/-- The steps: those with a thread `t` are taken by a thread other than the loop's. -/
inductive Label (τ : Type)
  | send (message : List Byte) (r : WriteResult)
  | shutdown
  | handleWrite (r : WriteResult)
  | handleRead (r : Buffer.ReadResult)
  | handleClose
  | connectDestroyed
  | swap
  | runFunctor (r : WriteResult)
  | callSend (t : τ) (message : List Byte)
  | callShutdown (t : τ)
  | setDisconnecting (t : τ)
  | push (t : τ)

namespace State

def setCtx (s : State κ τ) (x : Ctx κ) : State κ τ := { s with ctx := x }

/-- A message accepted by the loop thread, which runs `sendInLoop` at once. -/
def sentDirectly (s : State κ τ) (x : Ctx κ) (message : List Byte) : State κ τ :=
  { s with
    ctx := x
    accepted := s.accepted ++ [(.loopThread, message)]
    ran := s.ran ++ [(.loopThread, message)] }

/-- Whether thread `t` is outside `send` and `shutdown`. -/
def idle (s : State κ τ) (t : τ) : Bool := (s.relay.inFlight t).isNone && !s.closing t

/-- The body of a functor taken from the batch. -/
def runFunctor (s : State κ τ) (relay : Relay τ Functor) (t : τ) (r : WriteResult) :
    Functor → Except Failure (State κ τ)
  | .sendInLoop message => do
    let x ← s.ctx.sendInLoop message r
    pure { s with ctx := x, relay := relay, ran := s.ran ++ [(.thread t, message)] }
  | .shutdownInLoop => do
    let x ← s.ctx.shutdownInLoop
    pure { s with ctx := x, relay := relay }

end State

def step (s : State κ τ) : Label τ → Option (Except Failure (State κ τ))
  | .send message r =>
    if r.Legal message.length then
      if s.ctx.conn.state_ = .kConnected then
        some ((s.ctx.sendInLoop message r).map (s.sentDirectly · message))
      else some (.ok s)
    else none
  | .shutdown => some (s.ctx.shutdown.map s.setCtx)
  | .handleWrite r =>
    if r.Legal s.ctx.conn.outputBuffer_.readableBytes then
      some ((s.ctx.handleWrite r).map s.setCtx)
    else none
  | .handleRead r => some ((s.ctx.handleRead r).map s.setCtx)
  | .handleClose => some (s.ctx.handleClose.map s.setCtx)
  | .connectDestroyed => some (s.ctx.connectDestroyed.map s.setCtx)
  | .swap => s.relay.swap.map fun relay => .ok { s with relay := relay }
  | .runFunctor r =>
    match s.relay.pop with
    | none => none
    | some ((t, f), relay) =>
      if ∀ message ∈ f.message, r.Legal message.length then some (s.runFunctor relay t r f)
      else none
  | .callSend t message =>
    if s.idle t then
      if s.ctx.conn.state_ = .kConnected then
        some (.ok { s with
          relay := s.relay.start t (.sendInLoop message)
          accepted := s.accepted ++ [(.thread t, message)] })
      else some (.ok s)
    else none
  | .callShutdown t =>
    if s.idle t then
      if s.ctx.conn.state_ = .kConnected then
        some (.ok { s with closing := Function.update s.closing t true })
      else some (.ok s)
    else none
  | .setDisconnecting t =>
    if s.closing t && (s.relay.inFlight t).isNone then
      some (.ok { s with
        ctx := s.ctx.setState .kDisconnecting
        relay := s.relay.start t .shutdownInLoop
        closing := Function.update s.closing t false })
    else none
  | .push t => (s.relay.push t).map fun relay => .ok { s with relay := relay }

/-- **What a step can do.** -/
inductive Steps (s : State κ τ) : Label τ → State κ τ → Prop
  | refused {l : Label τ} : s.ctx.conn.state_ ≠ .kConnected → Steps s l s
  | send {message : List Byte} {r : WriteResult} {x : Ctx κ} : s.ctx.conn.state_ = .kConnected →
      s.ctx.sendInLoop message r = .ok x → Steps s (.send message r) (s.sentDirectly x message)
  | shutdown {x : Ctx κ} : s.ctx.shutdown = .ok x → Steps s .shutdown (s.setCtx x)
  | handleWrite {r : WriteResult} {x : Ctx κ} :
      r.Legal s.ctx.conn.outputBuffer_.readableBytes → s.ctx.handleWrite r = .ok x →
      Steps s (.handleWrite r) (s.setCtx x)
  | handleRead {r : Buffer.ReadResult} {x : Ctx κ} : s.ctx.handleRead r = .ok x →
      Steps s (.handleRead r) (s.setCtx x)
  | handleClose {x : Ctx κ} : s.ctx.handleClose = .ok x → Steps s .handleClose (s.setCtx x)
  | connectDestroyed {x : Ctx κ} : s.ctx.connectDestroyed = .ok x →
      Steps s .connectDestroyed (s.setCtx x)
  | swap {relay : Relay τ Functor} : s.relay.swap = some relay →
      Steps s .swap { s with relay := relay }
  | runSend {t : τ} {message : List Byte} {relay : Relay τ Functor} {r : WriteResult} {x : Ctx κ} :
      s.relay.pop = some ((t, .sendInLoop message), relay) →
      s.ctx.sendInLoop message r = .ok x →
      Steps s (.runFunctor r)
        { s with ctx := x, relay := relay, ran := s.ran ++ [(.thread t, message)] }
  | runShutdown {t : τ} {relay : Relay τ Functor} {r : WriteResult} {x : Ctx κ} :
      s.relay.pop = some ((t, .shutdownInLoop), relay) → s.ctx.shutdownInLoop = .ok x →
      Steps s (.runFunctor r) { s with ctx := x, relay := relay }
  | callSend {t : τ} {message : List Byte} : s.relay.inFlight t = none →
      s.ctx.conn.state_ = .kConnected →
      Steps s (.callSend t message) { s with
        relay := s.relay.start t (.sendInLoop message)
        accepted := s.accepted ++ [(.thread t, message)] }
  | callShutdown {t : τ} : s.ctx.conn.state_ = .kConnected →
      Steps s (.callShutdown t) { s with closing := Function.update s.closing t true }
  | setDisconnecting {t : τ} : s.relay.inFlight t = none →
      Steps s (.setDisconnecting t) { s with
        ctx := s.ctx.setState .kDisconnecting
        relay := s.relay.start t .shutdownInLoop
        closing := Function.update s.closing t false }
  | push {t : τ} {relay : Relay τ Functor} : s.relay.push t = some relay →
      Steps s (.push t) { s with relay := relay }

theorem idle_inFlight {s : State κ τ} {t : τ} (h : s.idle t = true) :
    s.relay.inFlight t = none := by
  rw [State.idle, Bool.and_eq_true, Option.isNone_iff_eq_none] at h
  exact h.1

theorem runFunctor_cases {s s' : State κ τ} {relay : Relay τ Functor} {t : τ} {r : WriteResult}
    {f : Functor} (hpop : s.relay.pop = some ((t, f), relay))
    (hs : s.runFunctor relay t r f = .ok s') : Steps s (.runFunctor r) s' := by
  cases f with
  | sendInLoop message =>
    obtain ⟨x, hx, hs⟩ := bind_eq_ok.1 hs
    cases hs
    exact .runSend hpop hx
  | shutdownInLoop =>
    obtain ⟨x, hx, hs⟩ := bind_eq_ok.1 hs
    cases hs
    exact .runShutdown hpop hx

theorem step_cases {s s' : State κ τ} {l : Label τ} (hs : Moves step s l s') : Steps s l s' := by
  unfold Moves step at hs
  cases l with
  | send message r =>
    simp only [Option.ite_none_right_eq_some] at hs
    obtain ⟨-, hs⟩ := hs
    split_ifs at hs with hk
    · obtain ⟨x, hx, rfl⟩ := map_eq_ok.1 (Option.some.inj hs)
      exact .send hk hx
    · cases hs
      exact .refused hk
  | shutdown =>
    obtain ⟨x, hx, rfl⟩ := map_eq_ok.1 (Option.some.inj hs)
    exact .shutdown hx
  | handleWrite r =>
    simp only [Option.ite_none_right_eq_some] at hs
    obtain ⟨x, hx, rfl⟩ := map_eq_ok.1 (Option.some.inj hs.2)
    exact .handleWrite hs.1 hx
  | handleRead r =>
    obtain ⟨x, hx, rfl⟩ := map_eq_ok.1 (Option.some.inj hs)
    exact .handleRead hx
  | handleClose =>
    obtain ⟨x, hx, rfl⟩ := map_eq_ok.1 (Option.some.inj hs)
    exact .handleClose hx
  | connectDestroyed =>
    obtain ⟨x, hx, rfl⟩ := map_eq_ok.1 (Option.some.inj hs)
    exact .connectDestroyed hx
  | swap =>
    obtain ⟨relay, hr, hs⟩ := Option.map_eq_some_iff.1 hs
    cases hs
    exact .swap hr
  | runFunctor r =>
    simp only at hs
    split at hs
    · cases hs
    · next t f relay hpop =>
      simp only [Option.ite_none_right_eq_some] at hs
      exact runFunctor_cases hpop (Option.some.inj hs.2)
  | callSend t message =>
    simp only [Option.ite_none_right_eq_some] at hs
    obtain ⟨hidle, hs⟩ := hs
    split_ifs at hs with hk <;> cases hs
    · exact .callSend (idle_inFlight hidle) hk
    · exact .refused hk
  | callShutdown t =>
    simp only [Option.ite_none_right_eq_some] at hs
    obtain ⟨-, hs⟩ := hs
    split_ifs at hs with hk <;> cases hs
    · exact .callShutdown hk
    · exact .refused hk
  | setDisconnecting t =>
    simp only [Option.ite_none_right_eq_some, Bool.and_eq_true, Option.isNone_iff_eq_none] at hs
    obtain ⟨⟨-, hnone⟩, hs⟩ := hs
    cases hs
    exact .setDisconnecting hnone
  | push t =>
    obtain ⟨relay, hr, hs⟩ := Option.map_eq_some_iff.1 hs
    cases hs
    exact .push hr

/-- The connection has just been established and no thread has used it yet. -/
structure Initial (s : State κ τ) : Prop where
  established : Established s.ctx
  relay : s.relay = Relay.empty
  accepted : s.accepted = []
  ran : s.ran = []

/-! ### What the steps do to the stream and to the histories -/

/-- The messages of thread `t` that `sendInLoop` has still to run on. -/
def waiting (s : State κ τ) (t : τ) : List (List Byte) :=
  (s.relay.queued t).filterMap Functor.message

/-- The stream is what `sendInLoop` has run on; a sender's accepted messages are those that have
run, followed by those that wait. -/
structure Good (s : State κ τ) : Prop where
  stream : s.ctx.stream = (s.ran.map Prod.snd).flatten
  loopThread : ofProducer .loopThread s.accepted = ofProducer .loopThread s.ran
  thread : ∀ t, ofProducer (.thread t) s.accepted = ofProducer (.thread t) s.ran ++ waiting s t

/-- A step that leaves the output stream and the functors alone. -/
theorem Good.of_stream {s s' : State κ τ} (h : Good s) (hs : s'.ctx.stream = s.ctx.stream)
    (hq : ∀ t, s'.relay.queued t = s.relay.queued t) (ha : s'.accepted = s.accepted)
    (hr : s'.ran = s.ran) : Good s' where
  stream := by rw [hs, hr, h.stream]
  loopThread := by rw [ha, hr, h.loopThread]
  thread := fun t => by rw [ha, hr, h.thread, waiting, waiting, hq]

theorem handleClose_stream {x y : Ctx κ} (h : x.handleClose = .ok y) : y.stream = x.stream := by
  obtain ⟨-, -, rfl⟩ := handleClose_ok h
  rfl

theorem handleRead_stream {x y : Ctx κ} {r : Buffer.ReadResult} (h : x.handleRead r = .ok y) :
    y.stream = x.stream := by
  rcases handleRead_cases x r with ⟨-, h1⟩ | ⟨-, h1 | h1⟩
  · rw [h1] at h
    rw [handleClose_stream h]
    rfl
  · rw [h1] at h
    cases h
    rfl
  · rw [h1] at h
    cases h
    rfl

theorem connectDestroyed_stream {x y : Ctx κ} (h : x.connectDestroyed = .ok y) :
    y.stream = x.stream := by
  obtain ⟨-, -, -, -, -, hconn, -⟩ := connectDestroyed_ok h
  simp only [Ctx.stream, wire, Ctx.pending, hconn]
  rfl

theorem shutdownInLoop_stream {x y : Ctx κ} (h : x.shutdownInLoop = .ok y) :
    y.stream = x.stream := by
  unfold shutdownInLoop at h
  obtain ⟨-, h⟩ := require_bind_ok.1 h
  split_ifs at h <;> cases h <;> rfl

theorem shutdown_stream {x y : Ctx κ} (h : x.shutdown = .ok y) : y.stream = x.stream := by
  unfold shutdown at h
  split_ifs at h
  · rw [shutdownInLoop_stream h]
    rfl
  · cases h
    rfl

/-- **Every step keeps the invariant.** -/
theorem step_good {s s' : State κ τ} {l : Label τ} (h : Good s) (hs : Moves step s l s') :
    Good s' := by
  cases step_cases hs with
  | refused hk => exact h
  | @send message r x hk hx =>
    refine ⟨?_, ?_, fun t => ?_⟩
    · simp [State.sentDirectly, (sendInLoop_moved hx).stream, h.stream]
    · simp [State.sentDirectly, h.loopThread]
    · show ofProducer (.thread t) (s.accepted ++ _) = ofProducer (.thread t) (s.ran ++ _) ++ _
      simp [ofProducer_singleton, h.thread]
      rfl
  | shutdown hx => exact h.of_stream (shutdown_stream hx) (fun _ => rfl) rfl rfl
  | handleWrite hl hx =>
    refine h.of_stream ?_ (fun _ => rfl) rfl rfl
    exact (handleWrite_moved hx).stream.trans (List.append_nil _)
  | handleRead hx => exact h.of_stream (handleRead_stream hx) (fun _ => rfl) rfl rfl
  | handleClose hx => exact h.of_stream (handleClose_stream hx) (fun _ => rfl) rfl rfl
  | connectDestroyed hx =>
    exact h.of_stream (connectDestroyed_stream hx) (fun _ => rfl) rfl rfl
  | swap hr => exact h.of_stream rfl (Relay.queued_swap hr) rfl rfl
  | @runSend t message relay r x hpop hx =>
    -- the message moves from the waiting ones to the stream
    have hq := Relay.queued_pop hpop
    refine ⟨?_, ?_, fun u => ?_⟩
    · rw [(sendInLoop_moved hx).stream, h.stream]
      simp
    · simp [h.loopThread, ofProducer_singleton]
    · show ofProducer (.thread u) s.accepted = ofProducer (.thread u) (s.ran ++ _) ++
        (relay.queued u).filterMap Functor.message
      rw [h.thread, waiting, hq, ofProducer_append, ofProducer_singleton]
      by_cases hu : t = u
      · simp [hu]
      · simp [hu]
  | @runShutdown t relay r x hpop hx =>
    have hq := Relay.queued_pop hpop
    refine ⟨(shutdownInLoop_stream hx).trans h.stream, h.loopThread, fun u => ?_⟩
    show ofProducer (.thread u) s.accepted = ofProducer (.thread u) s.ran ++
      (relay.queued u).filterMap Functor.message
    rw [h.thread, waiting, hq]
    by_cases hu : t = u
    · simp [hu, List.filterMap_cons]
    · simp [hu]
  | @callSend t message hnone hk =>
    refine ⟨h.stream, ?_, fun u => ?_⟩
    · simp [ofProducer_singleton, h.loopThread]
    · -- the message is the last one of its thread
      rw [ofProducer_append, h.thread, waiting, waiting, Relay.queued_start hnone,
        ofProducer_singleton]
      by_cases hu : t = u
      · simp [hu]
      · simp [hu]
  | callShutdown hk => exact h.of_stream rfl (fun _ => rfl) rfl rfl
  | @setDisconnecting t hnone =>
    refine ⟨h.stream, h.loopThread, fun u => ?_⟩
    show ofProducer (.thread u) s.accepted = ofProducer (.thread u) s.ran ++
      ((s.relay.start t .shutdownInLoop).queued u).filterMap Functor.message
    rw [h.thread, waiting, Relay.queued_start hnone]
    by_cases hu : t = u
    · simp [hu]
    · simp [hu]
  | push hr => exact h.of_stream rfl (Relay.queued_push hr) rfl rfl

theorem initial_good {s : State κ τ} (h : Initial s) : Good s := by
  obtain ⟨-, -, hsock, hpend⟩ := h.established.spec
  refine ⟨?_, by rw [h.accepted, h.ran], fun t => ?_⟩
  · rw [Ctx.stream, wire, hsock, hpend, h.ran]
    rfl
  · rw [h.accepted, h.ran, waiting, h.relay, Relay.queued_empty]
    rfl

/-! ### Integrity of the stream -/

/-- The messages queued as functors, in the order in which the loop is going to run them. -/
def queue (s : State κ τ) : List (Sender τ × List Byte) :=
  (s.relay.batch ++ s.relay.pending).filterMap fun e => e.2.message.map (.thread e.1, ·)

/-- The message of a thread that is inside `send` and has not queued it yet. -/
def inside (s : State κ τ) : Sender τ → List (List Byte)
  | .loopThread => []
  | .thread t => (s.relay.inFlight t).toList.filterMap Functor.message

theorem ofProducer_queue (s : State κ τ) (t : τ) :
    ofProducer (.thread t) (queue s) =
      (ofProducer t (s.relay.batch ++ s.relay.pending)).filterMap Functor.message := by
  unfold queue
  induction s.relay.batch ++ s.relay.pending with
  | nil => rfl
  | cons e l ih =>
    obtain ⟨u, f⟩ := e
    rw [ofProducer_cons, List.filterMap_append, ← ih]
    cases f <;> by_cases hu : u = t <;> simp [ofProducer_cons, List.filterMap_cons, hu]

theorem ofProducer_queue_loopThread (s : State κ τ) : ofProducer .loopThread (queue s) = [] := by
  unfold queue
  induction s.relay.batch ++ s.relay.pending with
  | nil => rfl
  | cons e l ih =>
    obtain ⟨u, f⟩ := e
    cases f with
    | sendInLoop message => simpa [ofProducer_cons] using ih
    | shutdownInLoop => simpa [List.filterMap_cons] using ih

/-- **The output stream**: in every reachable state the bytes accepted by the kernel, followed by
the bytes of the output buffer, are the messages in the order in which `sendInLoop` ran on them.
That order, followed by the queued messages, has every sender's accepted messages in the order of
its calls, except for the one it is just about to queue; when no thread is about to queue one, it
consists of all accepted messages, each once. -/
theorem outputStream_integrity {s₀ s : State κ τ} (h0 : Initial s₀)
    (h : Reach (Moves step) Always s₀ s) :
    s.ctx.wire ++ s.ctx.pending = (s.ran.map Prod.snd).flatten ∧
      (∀ p, ofProducer p s.accepted = ofProducer p (s.ran ++ queue s) ++ inside s p) ∧
      ((∀ p, inside s p = []) → (s.ran ++ queue s).Perm s.accepted) := by
  have hgood : Good s := h.invariant (initial_good h0) fun x a y hx _ hr => step_good hx hr
  have horder : ∀ p, ofProducer p s.accepted = ofProducer p (s.ran ++ queue s) ++ inside s p := by
    intro p
    cases p with
    | loopThread =>
      rw [ofProducer_append, ofProducer_queue_loopThread, hgood.loopThread, List.append_nil]
      exact (List.append_nil _).symm
    | thread t =>
      rw [hgood.thread, ofProducer_append, ofProducer_queue, waiting, Relay.queued,
        List.filterMap_append, List.append_assoc]
      rfl
  refine ⟨hgood.stream, horder, fun hidle => perm_of_ofProducer fun p => ?_⟩
  rw [horder p, hidle p, List.append_nil]

/-! A run in which another thread and the loop thread send, and no write is complete. -/

def start : State Unit ℕ := ⟨firstEstablished, Relay.empty, fun _ => false, [], []⟩

theorem outputStream_integrity_start :
    ∃ s, Reach (Moves step) Always start s ∧
      s.ctx.wire ++ s.ctx.pending = (s.ran.map Prod.snd).flatten ∧
      (∀ p, ofProducer p s.accepted = ofProducer p (s.ran ++ queue s) ++ inside s p) ∧
      ((∀ p, inside s p = []) → (s.ran ++ queue s).Perm s.accepted) := by
  obtain ⟨s, hs, -⟩ := exists_reach_of_run step Always start
    [.callSend 1 [1, 2], .send [3, 4, 5] (.accepted 2), .push 1, .swap, .handleWrite (.error 11),
      .runFunctor (.accepted 0), .handleWrite (.accepted 2), .callSend 1 [6]]
    (fun s => decide (s.ctx.wire = [3, 4, 5, 1]) && decide (s.ctx.pending = [2]))
    (by decide +kernel)
  exact ⟨s, hs, outputStream_integrity ⟨firstEstablished_spec, rfl, rfl, rfl⟩ hs⟩

end OutputStream

end Fppnet
