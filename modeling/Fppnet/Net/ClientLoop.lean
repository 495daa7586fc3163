import Fppnet.Net.ConnectorRetry

/-!
# `net/TcpClient.cpp`: a client, its connector and their loop

`ClientLoop` is a `TcpClient` with its connector in the loop of both.

* The calls of the user are made on the loop thread; those that other threads make are taken apart
  into the write of `TcpClient::connect_` and the steps of `ConnectorLoop`;
* a connection is removed when an event of its channel closes it, in an iteration of the loop that
  has polled since `newConnection`. What becomes of the connection itself (`shutdown`,
  `connectDestroyed`) is no part of the state;
* `~TcpClient` without a connection stops the connector and leaves it to a timer of one second. The
  connector is destroyed with that timer, at the end of the batch in which it has expired;
* `Held` is the invariant of all runs: which states of the connector go with `channel_`, with an
  established connection and with the queued `resetChannel`.
-/

namespace Fppnet

open Checked Runs

open Attempts

/-- How far the destruction of a client has come: its timer is pending, or in the batch of expired
timers, or deleted and the connector with it. -/
inductive ClientLife
  | alive
  | destroyed (expiration : ℕ)
  | expired
  | freed
  deriving DecidableEq

/-- A `TcpClient` and its connector. `connection_` is the descriptor of the connection, and `polled`
says whether the loop has polled since it was established. -/
structure ClientLoop where
  loop : ConnectorLoop
  retry_ : Bool
  connect_ : Bool
  connection_ : Option ℕ
  polled : Bool
  life : ClientLife

namespace ClientLoop

/-- The constructor. -/
def new : ClientLoop := ⟨ConnectorLoop.new, false, true, none, false, .alive⟩

/-- `foreignConnect` and `foreignDisconnect` are the first statement of `connect` and that of
`disconnect` or `stop` in another thread; the rest of such a call are steps of the connector. -/
inductive Label
  | connect (savedErrno : ℕ)
  | disconnect
  | stop
  | enableRetry
  | foreignConnect
  | foreignDisconnect
  | removeConnection (savedErrno : ℕ)
  | destroy
  | loop (l : ConnectorLoop.Label)
  deriving DecidableEq

/-- The assertions of the connector, and that of its destructor. -/
inductive Failure
  | connector (f : Attempts.Failure)
  | destructor
  deriving DecidableEq

/-- The connector of the client. -/
def connector (s : ClientLoop) : Attempts.Connector := s.loop.attempts.connector

/-- `TcpClient::newConnection`, for the calls after the first `n`. -/
def newConnection (s : ClientLoop) (n : ℕ) : ClientLoop :=
  (s.loop.attempts.handed.drop n).foldl
    (fun s x => { s with connection_ := some x.sockfd, polled := false }) s

/-- The loop is calling the active channels. -/
def dispatching (s : ClientLoop) : Bool :=
  match s.loop.phase with
  | .dispatch _ => true
  | _ => false

/-- `TimerQueue::getExpired` takes out the timer of `~TcpClient`. -/
def collect (s : ClientLoop) : ClientLife :=
  match s.life with
  | .destroyed expiration => if expiration ≤ s.loop.attempts.now then .expired else s.life
  | _ => s.life

/-- A step of the connector and its loop. -/
def onLoop (s : ClientLoop) (l : ConnectorLoop.Label) : Option (Except Failure ClientLoop) :=
  (ConnectorLoop.step s.loop l).map fun r =>
    (r.mapError .connector).map fun t => { s with loop := t }

/-- `~Connector`. -/
def free (s : ClientLoop) : Except Failure ClientLoop := do
  let a := s.loop.attempts.cancelInLoop s.connector.timerId_
  require (a.connector.channel_.isNone = true) .destructor
  pure { s with loop := s.loop.put a, life := .freed }

/-- The end of `~TcpClient` on the loop thread, when there is no connection: `stop` of the
connector, and `runAfter(1, removeConnector)`. -/
def destructor (s : ClientLoop) : ClientLoop :=
  { s with
    loop := s.loop.put s.loop.attempts.stop
    life := .destroyed (s.loop.attempts.now + 1000000) }

/-- The steps of the loop, and those of the calls of other threads while there is a client. -/
def loopStep (s : ClientLoop) (l : ConnectorLoop.Label) : Option (Except Failure ClientLoop) :=
  match l with
  -- these calls are made by functions of the client
  | .start _ | .restart _ | .stop => none
  | .foreignStart | .foreignStartQueue | .foreignStop | .foreignStopQueue =>
    if s.life = .alive then s.onLoop l else none
  | .poll _ => { s with polled := true }.onLoop l
  | .handleEvent _ _ =>
    (s.onLoop l).map (Except.map fun t => t.newConnection s.loop.attempts.handed.length)
  | .getExpired => { s with life := s.collect }.onLoop l
  | .endTimers => if s.life = .expired then (s.onLoop l).map (· >>= free) else s.onLoop l
  | .runTimer _ _ | .swap | .functor _ | .endFunctors | .tick _ => s.onLoop l

/-- A call of the client, or of its closing connection, on the loop thread. -/
def clientStep (s : ClientLoop) : Label → Option (Except Failure ClientLoop)
  | .connect savedErrno => { s with connect_ := true }.onLoop (.start savedErrno)
  | .disconnect => some (.ok { s with connect_ := false })
  | .stop => { s with connect_ := false }.onLoop .stop
  | .enableRetry => some (.ok { s with retry_ := true })
  | .foreignConnect => some (.ok { s with connect_ := true })
  | .foreignDisconnect => some (.ok { s with connect_ := false })
  | .removeConnection savedErrno =>
    if s.connection_.isSome ∧ s.polled = true ∧ s.dispatching = true then
      let s := { s with connection_ := none }
      if s.retry_ && s.connect_ then s.onLoop (.restart savedErrno) else some (.ok s)
    else none
  | .destroy =>
    -- no other thread is in a call of the client
    if s.connection_.isNone ∧ s.loop.starting = 0 ∧ s.loop.stopping = 0 then
      some (.ok s.destructor)
    else none
  | .loop _ => none

def step (s : ClientLoop) (l : Label) : Option (Except Failure ClientLoop) :=
  match l with
  | .loop l => if s.life = .freed then none else s.loopStep l
  | l => if s.life = .alive then s.clientStep l else none

/-! ### What a step can do -/

/-- The steps of the loop that change nothing in the client. -/
def Plain : ConnectorLoop.Label → Prop
  | .runTimer _ _ | .swap | .functor _ | .endFunctors | .tick _ => True
  | _ => False

/-- The steps of a call of `start` or `stop` in another thread. -/
def Foreign : ConnectorLoop.Label → Prop
  | .foreignStart | .foreignStartQueue | .foreignStop | .foreignStopQueue => True
  | _ => False

/-- **What a step can do.** -/
inductive Steps (s : ClientLoop) : Label → ClientLoop → Prop
  | connect {savedErrno : ℕ} {t : ConnectorLoop} : s.life = .alive →
      Moves ConnectorLoop.step s.loop (.start savedErrno) t →
      Steps s (.connect savedErrno) { s with connect_ := true, loop := t }
  | disconnect : s.life = .alive → Steps s .disconnect { s with connect_ := false }
  | stop : s.life = .alive →
      Steps s .stop { s with connect_ := false, loop := s.loop.put s.loop.attempts.stop }
  | enableRetry : s.life = .alive → Steps s .enableRetry { s with retry_ := true }
  | foreignConnect : s.life = .alive → Steps s .foreignConnect { s with connect_ := true }
  | foreignDisconnect : s.life = .alive → Steps s .foreignDisconnect { s with connect_ := false }
  | removed {savedErrno : ℕ} : s.life = .alive → s.connection_ ≠ none → s.polled = true →
      (s.retry_ && s.connect_) = false →
      Steps s (.removeConnection savedErrno) { s with connection_ := none }
  | restarted {savedErrno : ℕ} {t : ConnectorLoop} : s.life = .alive → s.connection_ ≠ none →
      s.polled = true → s.retry_ = true → s.connect_ = true →
      Moves ConnectorLoop.step s.loop (.restart savedErrno) t →
      Steps s (.removeConnection savedErrno) { s with connection_ := none, loop := t }
  | destroy : s.life = .alive → s.connection_ = none → s.loop.starting = 0 →
      Steps s .destroy s.destructor
  | foreign {l : ConnectorLoop.Label} {t : ConnectorLoop} : s.life = .alive → Foreign l →
      Moves ConnectorLoop.step s.loop l t → Steps s (.loop l) { s with loop := t }
  | poll {active : List Source} {t : ConnectorLoop} :
      Moves ConnectorLoop.step s.loop (.poll active) t →
      Steps s (.loop (.poll active)) { s with polled := true, loop := t }
  | handleEvent {soError : ℕ} {selfConnect : Bool} {t : ConnectorLoop} :
      Moves ConnectorLoop.step s.loop (.handleEvent soError selfConnect) t →
      Steps s (.loop (.handleEvent soError selfConnect))
        ({ s with loop := t }.newConnection s.loop.attempts.handed.length)
  | getExpired {t : ConnectorLoop} : Moves ConnectorLoop.step s.loop .getExpired t →
      Steps s (.loop .getExpired) { s with life := s.collect, loop := t }
  | endTimers {t : ConnectorLoop} : s.life ≠ .expired →
      Moves ConnectorLoop.step s.loop .endTimers t → Steps s (.loop .endTimers) { s with loop := t }
  | freed {t : ConnectorLoop} {u : ClientLoop} : s.life = .expired →
      Moves ConnectorLoop.step s.loop .endTimers t → { s with loop := t }.free = .ok u →
      Steps s (.loop .endTimers) u
  | plain {l : ConnectorLoop.Label} {t : ConnectorLoop} : Plain l →
      Moves ConnectorLoop.step s.loop l t → Steps s (.loop l) { s with loop := t }

theorem onLoop_ok {s t : ClientLoop} {l : ConnectorLoop.Label}
    (hs : s.onLoop l = some (.ok t)) :
    ∃ u, Moves ConnectorLoop.step s.loop l u ∧ t = { s with loop := u } := by
  obtain ⟨r, hr, heq⟩ := Option.map_eq_some_iff.1 hs
  cases r with
  | error e => cases heq
  | ok u =>
    cases heq
    exact ⟨u, hr, rfl⟩

theorem onLoop_error {s : ClientLoop} {l : ConnectorLoop.Label} {e : Failure}
    (hs : s.onLoop l = some (.error e)) :
    ∃ f, e = .connector f ∧ ConnectorLoop.step s.loop l = some (.error f) := by
  obtain ⟨r, hr, heq⟩ := Option.map_eq_some_iff.1 hs
  cases r with
  | error f =>
    cases heq
    exact ⟨f, rfl, hr⟩
  | ok u => cases heq

theorem clientStep_cases {s t : ClientLoop} {l : Label} (ha : s.life = .alive)
    (hs : s.clientStep l = some (.ok t)) : Steps s l t := by
  cases l <;> simp only [clientStep, reduceCtorEq] at hs
  case connect savedErrno =>
    obtain ⟨u, hu, rfl⟩ := onLoop_ok hs
    exact .connect ha hu
  case disconnect =>
    cases hs
    exact .disconnect ha
  case stop =>
    cases hs
    exact .stop ha
  case enableRetry =>
    cases hs
    exact .enableRetry ha
  case foreignConnect =>
    cases hs
    exact .foreignConnect ha
  case foreignDisconnect =>
    cases hs
    exact .foreignDisconnect ha
  case removeConnection savedErrno =>
    split_ifs at hs with hc hr
    · obtain ⟨u, hu, rfl⟩ := onLoop_ok hs
      obtain ⟨hretry, hconnect⟩ := Bool.and_eq_true_iff.1 hr
      exact .restarted ha (Option.isSome_iff_ne_none.1 hc.1) hc.2.1 hretry hconnect hu
    · cases hs
      exact .removed ha (Option.isSome_iff_ne_none.1 hc.1) hc.2.1 (Bool.eq_false_iff.2 hr)
  case destroy =>
    split_ifs at hs with hc
    cases hs
    exact .destroy ha (Option.isNone_iff_eq_none.1 hc.1) hc.2.1

theorem loopStep_cases {s t : ClientLoop} {l : ConnectorLoop.Label}
    (hs : s.loopStep l = some (.ok t)) : Steps s (.loop l) t := by
  cases l <;> simp only [loopStep, reduceCtorEq] at hs
  case poll active =>
    obtain ⟨u, hu, rfl⟩ := onLoop_ok hs
    exact .poll hu
  case handleEvent soError selfConnect =>
    obtain ⟨r, hr, heq⟩ := Option.map_eq_some_iff.1 hs
    obtain ⟨u, rfl, rfl⟩ := map_eq_ok.1 heq
    obtain ⟨v, hv, rfl⟩ := onLoop_ok hr
    exact .handleEvent hv
  case getExpired =>
    obtain ⟨u, hu, rfl⟩ := onLoop_ok hs
    exact .getExpired hu
  case endTimers =>
    split_ifs at hs with he
    · obtain ⟨r, hr, heq⟩ := Option.map_eq_some_iff.1 hs
      obtain ⟨u, rfl, hfree⟩ := bind_eq_ok.1 heq
      obtain ⟨v, hv, rfl⟩ := onLoop_ok hr
      exact .freed he hv hfree
    · obtain ⟨u, hu, rfl⟩ := onLoop_ok hs
      exact .endTimers he hu
  case foreignStart | foreignStartQueue | foreignStop | foreignStopQueue =>
    split_ifs at hs with ha
    obtain ⟨u, hu, rfl⟩ := onLoop_ok hs
    exact .foreign ha trivial hu
  case runTimer | swap | functor | endFunctors | tick =>
    obtain ⟨u, hu, rfl⟩ := onLoop_ok hs
    exact .plain trivial hu

theorem step_cases {s t : ClientLoop} {l : Label} (hs : Moves step s l t) : Steps s l t := by
  unfold Moves step at hs
  split at hs
  · split_ifs at hs
    exact loopStep_cases hs
  · split_ifs at hs with ha
    exact clientStep_cases ha hs

/-- **Which steps can fail**: those of the connector, and the one that deletes it. -/
inductive Fails (s : ClientLoop) : Failure → Label → Prop
  | connect {savedErrno : ℕ} {f : Attempts.Failure} :
      s.loop.attempts.start savedErrno = .error f → Fails s (.connector f) (.connect savedErrno)
  | removeConnection {savedErrno : ℕ} {f : Attempts.Failure} : s.connection_ ≠ none →
      s.polled = true → s.loop.attempts.restart savedErrno = .error f →
      Fails s (.connector f) (.removeConnection savedErrno)
  | handleEvent {soError : ℕ} {selfConnect : Bool} {sockfd : ℕ} {revents : Events}
      {active : List Source} {f : Attempts.Failure} :
      s.loop.phase = .dispatch (.channel sockfd revents :: active) →
      s.loop.attempts.handleEvent sockfd revents soError selfConnect = .error f →
      Fails s (.connector f) (.loop (.handleEvent soError selfConnect))
  | runTimer {t : RetryTimer} {savedErrno : ℕ} {expired : List RetryTimer} {active : List Source}
      {f : Attempts.Failure} : s.loop.phase = .timers expired active → t ∈ expired →
      s.loop.attempts.startInLoop savedErrno = .error f →
      Fails s (.connector f) (.loop (.runTimer t savedErrno))
  | functor {savedErrno : ℕ} {g : Attempts.Functor} {rest : List Attempts.Functor}
      {f : Attempts.Failure} : s.loop.phase = .functors (g :: rest) →
      s.loop.attempts.runFunctor savedErrno g = .error f →
      Fails s (.connector f) (.loop (.functor savedErrno))
  | destructor : s.life = .expired → Fails s .destructor (.loop .endTimers)

theorem clientStep_fails {s : ClientLoop} {l : Label} {e : Failure}
    (hs : s.clientStep l = some (.error e)) : Fails s e l := by
  cases l <;> simp only [clientStep, Option.some.injEq, reduceCtorEq] at hs
  case connect savedErrno =>
    obtain ⟨f, rfl, hf⟩ := onLoop_error hs
    cases ConnectorLoop.step_fails hf with
    | start ha => exact .connect ha
  case stop =>
    obtain ⟨f, rfl, hf⟩ := onLoop_error hs
    cases ConnectorLoop.step_fails hf
  case removeConnection savedErrno =>
    split_ifs at hs with hc hr
    · obtain ⟨f, rfl, hf⟩ := onLoop_error hs
      cases ConnectorLoop.step_fails hf with
      | restart ha => exact .removeConnection (Option.isSome_iff_ne_none.1 hc.1) hc.2.1 ha
    · cases hs
  case destroy =>
    split_ifs at hs
    cases hs

theorem loopStep_fails {s : ClientLoop} {l : ConnectorLoop.Label} {e : Failure}
    (hs : s.loopStep l = some (.error e)) : Fails s e (.loop l) := by
  cases l <;> simp only [loopStep, reduceCtorEq] at hs
  case handleEvent soError selfConnect =>
    obtain ⟨r, hr, heq⟩ := Option.map_eq_some_iff.1 hs
    obtain ⟨f, rfl, hf⟩ := onLoop_error (hr.trans (congrArg some (map_eq_error.1 heq)))
    cases ConnectorLoop.step_fails hf with
    | handleEvent hph ha => exact .handleEvent hph ha
  case runTimer timer savedErrno =>
    obtain ⟨f, rfl, hf⟩ := onLoop_error hs
    cases ConnectorLoop.step_fails hf with
    | runTimer hph hmem ha => exact .runTimer hph hmem ha
  case functor savedErrno =>
    obtain ⟨f, rfl, hf⟩ := onLoop_error hs
    cases ConnectorLoop.step_fails hf with
    | functor hph ha => exact .functor hph ha
  case endTimers =>
    split_ifs at hs with he
    · obtain ⟨r, hr, heq⟩ := Option.map_eq_some_iff.1 hs
      cases r with
      | error f =>
        obtain ⟨f, -, hf⟩ := onLoop_error hr
        cases ConnectorLoop.step_fails hf
      | ok t =>
        change t.free = .error e at heq
        unfold free at heq
        dsimp only at heq
        unfold require at heq
        split_ifs at heq
        · cases heq
        · cases heq
          exact .destructor he
    · obtain ⟨f, rfl, hf⟩ := onLoop_error hs
      cases ConnectorLoop.step_fails hf
  case foreignStart | foreignStartQueue | foreignStop | foreignStopQueue =>
    split_ifs at hs
    obtain ⟨f, rfl, hf⟩ := onLoop_error hs
    cases ConnectorLoop.step_fails hf
  case poll | getExpired | swap | endFunctors | tick =>
    obtain ⟨f, rfl, hf⟩ := onLoop_error hs
    cases ConnectorLoop.step_fails hf

theorem step_fails {s : ClientLoop} {l : Label} {e : Failure} (hs : step s l = some (.error e)) :
    Fails s e l := by
  unfold step at hs
  split at hs
  · split_ifs at hs
    exact loopStep_fails hs
  · split_ifs at hs
    exact clientStep_fails hs

/-! ### What an event of the connector does -/

/-- An event of the connector that finds the connection established. -/
def Succeeds (revents : Events) (soError : ℕ) (selfConnect : Bool) : Prop :=
  revents &&& (POLLERR ||| POLLNVAL) = 0 ∧ revents &&& POLLOUT ≠ 0 ∧ soError = 0 ∧
    selfConnect = false

instance (revents : Events) (soError : ℕ) (selfConnect : Bool) :
    Decidable (Succeeds revents soError selfConnect) :=
  inferInstanceAs (Decidable (_ ∧ _ ∧ _ ∧ _))

theorem retry_frame (a : Attempts) (k : ℕ) :
    (a.retry k).handed = a.handed ∧ (a.retry k).created = a.created := by
  unfold Attempts.retry
  dsimp only
  split_ifs <;> exact ⟨rfl, rfl⟩

theorem finish_failed {a : Attempts} {soError : ℕ} {selfConnect : Bool}
    (h : ¬ (soError = 0 ∧ selfConnect = false)) (k : ℕ) :
    a.finish k soError selfConnect = a.retry k := by
  unfold finish
  by_cases hso : soError = 0
  · have hself : selfConnect = true := Bool.eq_true_of_not_eq_false fun hself => h ⟨hso, hself⟩
    rw [if_neg (not_not.2 hso), if_pos hself]
  · rw [if_pos hso]

section Event

variable {rest : List Attempts.Functor} {a b : Attempts} {k : ℕ} {revents : Events} {soError : ℕ}
  {selfConnect : Bool}

theorem handleEvent_failed (h : Kept (.inProgress k) [] rest a)
    (hst : a.connector.state_ = .kConnecting) (hfail : ¬ Succeeds revents soError selfConnect)
    (hs : a.handleEvent k revents soError selfConnect = .ok b) :
    b.connector.state_ ≠ .kConnected ∧ b.handed = a.handed := by
  have hretry : ((a.removed k).retry k).connector.state_ ≠ .kConnected ∧
      ((a.removed k).retry k).handed = a.handed := by
    refine ⟨?_, (retry_frame _ _).1⟩
    rw [retry_state]
    decide
  rw [handleEvent_inProgress h hst] at hs
  cases hs
  split_ifs with herr hout
  · exact hretry
  · rw [finish_failed fun hso => hfail ⟨not_not.1 herr, hout, hso⟩]
    exact hretry
  · refine ⟨?_, rfl⟩
    rw [hst]
    decide

/-- The connector gives the connection to its client when one is wanted. It stays connected when
none is wanted. -/
theorem handleEvent_succeeded (h : Kept (.inProgress k) [] rest a)
    (hst : a.connector.state_ = .kConnecting) (hsuc : Succeeds revents soError selfConnect)
    (hs : a.handleEvent k revents soError selfConnect = .ok b) :
    b.connector.state_ = .kConnected ∧
      if a.connector.connect_ then ∃ x, b.handed = a.handed ++ [x] else b.handed = a.handed := by
  obtain ⟨herr, hout, rfl, rfl⟩ := hsuc
  rw [handleEvent_inProgress h hst, if_neg (not_not.2 herr), if_pos hout] at hs
  cases hs
  have hfinish : (a.removed k).finish k 0 false =
      if a.connector.connect_ then
        { (a.removed k).setState .kConnected with
          handed := a.handed ++ [⟨k, 0, false, a.connector.connect_⟩] }
      else ((a.removed k).setState .kConnected).close k := rfl
  rw [hfinish]
  split_ifs
  · exact ⟨rfl, _, rfl⟩
  · exact ⟨rfl, rfl⟩

end Event

/-! ### The invariant of all runs -/

open ConnectorLoop (Good startInLoop_resets)

theorem newConnection_frame (s : ClientLoop) (n : ℕ) :
    (s.newConnection n).loop = s.loop ∧ (s.newConnection n).connect_ = s.connect_ ∧
      (s.newConnection n).retry_ = s.retry_ ∧ (s.newConnection n).life = s.life := by
  unfold newConnection
  generalize s.loop.attempts.handed.drop n = called
  induction called generalizing s with
  | nil => exact ⟨rfl, rfl, rfl, rfl⟩
  | cons x called ih => exact ih _

theorem newConnection_same {s : ClientLoop} {handed : List Handover}
    (h : s.loop.attempts.handed = handed) : s.newConnection handed.length = s := by
  unfold newConnection
  rw [h, List.drop_length]
  rfl

theorem newConnection_called {s : ClientLoop} {handed : List Handover} {x : Handover}
    (h : s.loop.attempts.handed = handed ++ [x]) :
    s.newConnection handed.length = { s with connection_ := some x.sockfd, polled := false } := by
  unfold newConnection
  rw [h, List.drop_left]
  rfl

/-- The loop waits for events, or runs functors. -/
def Outside : Attempts.Phase → Prop
  | .poll | .functors _ => True
  | .dispatch _ | .timers _ _ => False

/-- A channel is registered only while the connector is connecting, and a client has a connection
only while its connector is connected. A `resetChannel` is queued in the iteration in which the
channel has been removed and runs before the next one, so that it comes before the removal of the
connection. -/
structure Held (s : ClientLoop) : Prop where
  busy : ∀ k, s.connector.channel_ = some (watched k) → s.connector.state_ = .kConnecting
  connected : s.connection_ ≠ none → s.connector.state_ = .kConnected
  queued : Outside s.loop.phase → resets s.loop.attempts.pendingFunctors = []
  reset : s.connection_ ≠ none → s.polled = true → s.connector.channel_ = none

namespace Held

variable {slot : Slot} {s t : ClientLoop}

theorem unconnected (h : Held s) (hst : s.connector.state_ ≠ .kConnected) :
    s.connection_ = none := by_contra fun hne => hst (h.connected hne)

/-- A step that changes neither the state nor the channel. -/
theorem keep (h : Held s) (hch : t.connector.channel_ = s.connector.channel_)
    (hst : t.connector.state_ = s.connector.state_) (hconn : t.connection_ = s.connection_)
    (hpolled : t.polled = s.polled)
    (hq : Outside t.loop.phase → resets t.loop.attempts.pendingFunctors = []) : Held t := by
  refine ⟨fun k hk => ?_, fun hne => ?_, hq, fun hne hp => ?_⟩
  · rw [hst]
    exact h.busy k (hch ▸ hk)
  · rw [hst]
    exact h.connected (hconn ▸ hne)
  · rw [hch]
    exact h.reset (hconn ▸ hne) (hpolled ▸ hp)

/-- An attempt, when there is no connection. -/
theorem attempt {rest : List Attempts.Functor} {a : Attempts} (hk : Kept slot [] rest a)
    (hch : ∀ n, a.connector.channel_ ≠ some (watched n)) {savedErrno : ℕ}
    (ha : a.startInLoop savedErrno = .ok t.loop.attempts) (hnone : t.connection_ = none)
    (hq : Outside t.loop.phase → resets a.pendingFunctors = []) : Held t := by
  obtain ⟨hon, -⟩ := startInLoop_drivenOn hk hch ha
  refine ⟨hon.busy, fun hne => absurd hnone hne, fun ho => ?_, fun hne => absurd hnone hne⟩
  rw [startInLoop_resets hk ha]
  exact hq ho

/-- A `startInLoop` of the connector finds it disconnected, so that its client has no connection. -/
theorem startInLoop (h : Held s) {rest : List Attempts.Functor} {a : Attempts}
    (hk : Kept slot [] rest a) (hst : a.connector.state_ = s.connector.state_)
    (hch : a.connector.channel_ = s.connector.channel_) {savedErrno : ℕ}
    (ha : a.startInLoop savedErrno = .ok t.loop.attempts) (hconn : t.connection_ = s.connection_)
    (hq : Outside t.loop.phase → resets a.pendingFunctors = []) : Held t := by
  have hdis : s.connector.state_ = .kDisconnected := hst ▸ (require_bind_ok.1 ha).1
  have hnone := h.unconnected (by rw [hdis]; decide)
  exact attempt hk (hch ▸ Busy.not_watched h.busy hdis) ha (hconn.trans hnone) hq

/-- The phase of the loop after an event is not `Outside`. -/
theorem handleEvent (h : Held s) (hg : Good slot s.loop) {soError : ℕ} {selfConnect : Bool}
    {sockfd : ℕ} {revents : Events} {active : List Source} {a : Attempts}
    (hph : s.loop.phase = .dispatch (.channel sockfd revents :: active))
    (ha : s.loop.attempts.handleEvent sockfd revents soError selfConnect = .ok a) :
    Held ({ s with loop := (s.loop.setPhase (.dispatch active)).put a }.newConnection
      s.loop.attempts.handed.length) := by
  have hk := hg.inProgress hph
  have hst := h.busy sockfd hk.channel
  have hnone := h.unconnected (by rw [hst]; decide)
  obtain ⟨b, hb, hon, -⟩ := handleEvent_driven hk hst revents soError selfConnect
  cases hb.symm.trans ha
  have hsame : a.handed = s.loop.attempts.handed →
      Held ({ s with loop := (s.loop.setPhase (.dispatch active)).put a }.newConnection
        s.loop.attempts.handed.length) := fun hh => by
    rw [newConnection_same hh]
    exact ⟨hon.busy, fun hne => absurd hnone hne, fun ho => ho.elim, fun hne => absurd hnone hne⟩
  by_cases hsuc : Succeeds revents soError selfConnect
  swap
  · exact hsame (handleEvent_failed hk hst hsuc ha).2
  obtain ⟨hconn, hhanded⟩ := handleEvent_succeeded hk hst hsuc ha
  split_ifs at hhanded
  · obtain ⟨x, hx⟩ := hhanded
    rw [newConnection_called hx]
    exact ⟨hon.busy, fun _ => hconn, fun ho => ho.elim, fun _ hp => Bool.noConfusion hp⟩
  · exact hsame hhanded

end Held

/-- A functor of the batch. -/
theorem functor_held {slot : Slot} {s : ClientLoop} (hg : Good slot s.loop) (h : Held s)
    {savedErrno : ℕ} {f : Attempts.Functor} {rest : List Attempts.Functor} {a : Attempts}
    (hph : s.loop.phase = .functors (f :: rest))
    (ha : s.loop.attempts.runFunctor savedErrno f = .ok a) :
    Held { s with loop := (s.loop.setPhase (.functors rest)).put a } := by
  have hk := hg.kept
  have hq := h.queued
  rw [hph] at hk hq
  cases f with
  | startInLoop => exact h.startInLoop (hk.popped rfl) rfl rfl ha rfl fun _ => hq trivial
  | cancelInLoop timerId =>
    cases ha
    exact h.keep rfl rfl rfl rfl fun _ => hq trivial
  | resetChannel k =>
    cases ha
    refine ⟨fun n hn => ?_, h.connected, fun _ => hq trivial, fun _ _ => rfl⟩
    cases hn

/-- A step of the loop that is not `poll` and not an event. -/
theorem loop_held {slot : Slot} {s : ClientLoop} (hg : Good slot s.loop) (h : Held s)
    {l : ConnectorLoop.Label} {t : ConnectorLoop} (hl : Plain l ∨ Foreign l ∨ l = .endTimers ∨
      l = .getExpired) (hs : Moves ConnectorLoop.step s.loop l t) : Held { s with loop := t } := by
  have hk := hg.kept
  cases ConnectorLoop.step_cases hs with
  | start _ => simp [Plain, Foreign] at hl
  | restart _ => simp [Plain, Foreign] at hl
  | stop => simp [Plain, Foreign] at hl
  | poll _ _ => simp [Plain, Foreign] at hl
  | handleEvent _ _ => simp [Plain, Foreign] at hl
  | foreignStart => exact h.keep rfl rfl rfl rfl h.queued
  | foreignStartQueue hpos =>
    refine h.keep rfl rfl rfl rfl fun ho => ?_
    show resets (s.loop.attempts.pendingFunctors ++ [.startInLoop]) = []
    rw [resets_append, h.queued ho]
    rfl
  | foreignStop => exact h.keep rfl rfl rfl rfl h.queued
  | foreignStopQueue hpos =>
    refine h.keep rfl rfl rfl rfl fun ho => ?_
    show resets (s.loop.attempts.pendingFunctors ++ [.cancelInLoop _]) = []
    rw [resets_append, h.queued ho]
    rfl
  | getExpired hph => exact h.keep rfl rfl rfl rfl fun ho => ho.elim
  | runTimer hph hmem ha =>
    rw [hph] at hk
    exact h.startInLoop hk rfl rfl ha rfl fun ho => ho.elim
  | endTimers hph => exact h.keep rfl rfl rfl rfl fun ho => ho.elim
  | swap hph => exact h.keep rfl rfl rfl rfl fun _ => rfl
  | functor hph ha => exact functor_held hg h hph ha
  | endFunctors hph =>
    refine h.keep rfl rfl rfl rfl fun _ => h.queued ?_
    rw [hph]
    trivial
  | tick => exact h.keep rfl rfl rfl rfl h.queued

theorem step_held {slot : Slot} {s t : ClientLoop} {l : Label} (hg : Good slot s.loop)
    (h : Held s) (hs : Moves step s l t) : Held t := by
  have hk := hg.kept
  cases step_cases hs with
  | connect _ hm =>
    cases ConnectorLoop.step_cases hm with
    | start ha => exact h.startInLoop (hk.setConnect true) rfl rfl ha rfl h.queued
  | disconnect => exact h.keep rfl rfl rfl rfl h.queued
  | stop => exact h.keep rfl rfl rfl rfl h.queued
  | enableRetry => exact h.keep rfl rfl rfl rfl h.queued
  | foreignConnect => exact h.keep rfl rfl rfl rfl h.queued
  | foreignDisconnect => exact h.keep rfl rfl rfl rfl h.queued
  | removed => exact ⟨h.busy, fun hne => absurd rfl hne, h.queued, fun hne => absurd rfl hne⟩
  | restarted _ hne hp _ _ hm =>
    cases ConnectorLoop.step_cases hm with
    | restart ha =>
      have hkept := ((hk.setState .kDisconnected (by decide)).setRetryDelayMs
        kInitRetryDelayMs).setConnect true
      refine Held.attempt hkept (fun n hn => ?_) ha rfl h.queued
      have hnone : s.connector.channel_ = some (watched n) := hn
      rw [h.reset hne hp] at hnone
      cases hnone
  | destroy => exact h.keep rfl rfl rfl rfl h.queued
  | foreign _ hl hm => exact loop_held hg h (.inr (.inl hl)) hm
  | poll hm =>
    cases ConnectorLoop.step_cases hm with
    | poll hph _ =>
      refine ⟨h.busy, h.connected, fun ho => ho.elim, fun hne _ => ?_⟩
      -- the functors of the last iteration have run
      have hresets := hk.resets
      rw [hph] at hresets
      have hq := h.queued
      rw [hph] at hq
      change resets s.loop.attempts.pendingFunctors = slot.resets at hresets
      rw [hq trivial] at hresets
      cases slot with
      | empty => exact hk.channel
      | inProgress k =>
        have hst := h.busy k hk.channel
        rw [h.connected hne] at hst
        cases hst
      | removed k => cases hresets
  | handleEvent hm =>
    cases ConnectorLoop.step_cases hm with
    | handleEvent hph ha => exact h.handleEvent hg hph ha
  | getExpired hm =>
    have hheld := loop_held hg h (.inr (.inr (.inr rfl))) hm
    exact hheld.keep rfl rfl rfl rfl hheld.queued
  | endTimers _ hm => exact loop_held hg h (.inr (.inr (.inl rfl))) hm
  | freed _ hm hfree =>
    have hheld := loop_held hg h (.inr (.inr (.inl rfl))) hm
    cases (require_bind_ok.1 hfree).2
    exact hheld.keep rfl rfl rfl rfl hheld.queued
  | plain hl hm => exact loop_held hg h (.inl hl) hm

theorem step_good {slot : Slot} {s t : ClientLoop} {l : Label} (hg : Good slot s.loop)
    (hs : Moves step s l t) : ∃ slot', Good slot' t.loop := by
  cases step_cases hs with
  | connect _ hm => exact ConnectorLoop.step_good hg hm
  | stop => exact ConnectorLoop.step_good (l := .stop) hg rfl
  | restarted _ _ _ _ _ hm => exact ConnectorLoop.step_good hg hm
  | destroy => exact ConnectorLoop.step_good (l := .stop) hg rfl
  | foreign _ _ hm => exact ConnectorLoop.step_good hg hm
  | poll hm => exact ConnectorLoop.step_good hg hm
  | handleEvent hm =>
    rw [(newConnection_frame _ _).1]
    exact ConnectorLoop.step_good hg hm
  | getExpired hm => exact ConnectorLoop.step_good hg hm
  | endTimers _ hm => exact ConnectorLoop.step_good hg hm
  | freed _ hm hfree =>
    obtain ⟨slot', hgood⟩ := ConnectorLoop.step_good hg hm
    cases (require_bind_ok.1 hfree).2
    exact ⟨slot', hgood.call (.inl rfl) (hgood.kept.cancelInLoop _)⟩
  | plain _ hm => exact ConnectorLoop.step_good hg hm
  | _ => exact ⟨slot, hg⟩

theorem new_held : Held new := by
  refine ⟨fun k hk => ?_, fun hne => absurd rfl hne, fun _ => rfl, fun hne => absurd rfl hne⟩
  cases hk

/-- The invariants of all runs. -/
theorem reach_held {C : ClientLoop → Label → Prop} {s : ClientLoop}
    (h : Reach (Moves step) C new s) : (∃ slot, Good slot s.loop) ∧ Held s :=
  h.invariant (I := fun s => (∃ slot, Good slot s.loop) ∧ Held s)
    ⟨⟨_, ConnectorLoop.new_good⟩, new_held⟩ fun x l y hx _ hs => by
      obtain ⟨⟨slot, hg⟩, hheld⟩ := hx
      exact ⟨step_good hg hs, step_held hg hheld hs⟩

end ClientLoop

end Fppnet
