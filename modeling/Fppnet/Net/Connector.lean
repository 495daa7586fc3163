import Fppnet.Net.Registration
import Fppnet.Net.TcpServer

/-!
# `net/Connector.cpp`: attempts to connect and their sockets

* `Connector` has the members of the class. `Attempts` is a connector with what it shares with its
  loop: the poller, the queue of functors, the retry timers and the clock; beside them stands what
  becomes of every socket that it creates;
* sockets are numbered by the order of their creation, and the number stands for the descriptor,
  which the kernel may give out again only after it has been closed or handed over;
* the functions are those of the source. The results of `connect(2)`, `SO_ERROR` and the test for a
  self-connect are arguments. A failed assertion and the use of an empty `channel_` are errors;
* a call that `newConnectionCallback_` makes comes after everything else that `handleWrite` does and
  is a call of its own;
* the part of `Connector` that a `TcpClient` sees is `Fppnet.Connector` (`startInLoop_view`).
-/

namespace Fppnet

open Checked Runs

namespace Attempts

/-! ### Error numbers -/

def EPERM : ℕ := 1
def EINTR : ℕ := 4
def EBADF : ℕ := 9
def EAGAIN : ℕ := 11
def EACCES : ℕ := 13
def EFAULT : ℕ := 14
def ENOTSOCK : ℕ := 88
def EAFNOSUPPORT : ℕ := 97
def EADDRINUSE : ℕ := 98
def EADDRNOTAVAIL : ℕ := 99
def ENETUNREACH : ℕ := 101
def EISCONN : ℕ := 106
def ECONNREFUSED : ℕ := 111
def EALREADY : ℕ := 114
def EINPROGRESS : ℕ := 115

/-- The branch of `connect` that is taken for `savedErrno`. -/
def connectResult (savedErrno : ℕ) : ConnectResult :=
  if savedErrno ∈ [0, EINPROGRESS, EINTR, EISCONN] then .connecting
  else if savedErrno ∈ [EAGAIN, EADDRINUSE, EADDRNOTAVAIL, ECONNREFUSED, ENETUNREACH] then .retry
  -- the errors of the third case and those of the default, which differ in the log only
  else .fatal

example : ∀ e ∈ [EACCES, EPERM, EAFNOSUPPORT, EALREADY, EBADF, EFAULT, ENOTSOCK],
    connectResult e = .fatal := by decide

def kMaxRetryDelayMs : ℕ := 30 * 1000
def kInitRetryDelayMs : ℕ := 500

/-! ### The state -/

/-- `Connector`. A `TimerId` is the sequence number of its timer. -/
structure Connector where
  connect_ : Bool
  state_ : ConnectorState
  channel_ : Option Channel
  retryDelayMs_ : ℕ
  timerId_ : Option ℕ

/-- A functor of the connector. `resetChannel` carries the descriptor of the channel that
`removeAndResetChannel` has removed. -/
inductive Functor
  | startInLoop
  | cancelInLoop (timerId : Option ℕ)
  | resetChannel (removed : ℕ)
  deriving DecidableEq

/-- A retry timer: its sequence number, and its expiration in microseconds. -/
structure RetryTimer where
  sequence : ℕ
  expiration : ℕ
  deriving DecidableEq

/-- A call of `newConnectionCallback_`, with what had been found out about the socket. -/
structure Handover where
  sockfd : ℕ
  soError : ℕ
  selfConnect : Bool
  connect_ : Bool
  deriving DecidableEq

inductive Failure
  | poller (f : EPoller.Failure)
  | startState
  | channelNotReset
  | nullChannel
  | deadChannel
  | handleWriteState
  | handleErrorState
  deriving DecidableEq

end Attempts

open Attempts

/-- A connector on its loop, and the accounts of its sockets. -/
structure Attempts where
  connector : Attempts.Connector
  poller : EPoller ℕ
  pendingFunctors : List Attempts.Functor
  timers : List RetryTimer
  nextTimer : ℕ
  now : ℕ
  created : ℕ
  closed : ℕ → ℕ
  handed : List Handover

namespace Attempts

/-- The constructor. -/
def new : Attempts where
  connector := ⟨false, .kDisconnected, none, kInitRetryDelayMs, none⟩
  poller := EPoller.empty
  pendingFunctors := []
  timers := []
  nextTimer := 0
  now := 0
  created := 0
  closed := fun _ => 0
  handed := []

def setState (s : Attempts) (st : ConnectorState) : Attempts :=
  { s with connector := { s.connector with state_ := st } }

def setConnect (s : Attempts) (b : Bool) : Attempts :=
  { s with connector := { s.connector with connect_ := b } }

def setChannel (s : Attempts) (ch : Option Channel) : Attempts :=
  { s with connector := { s.connector with channel_ := ch } }

def setRetryDelayMs (s : Attempts) (ms : ℕ) : Attempts :=
  { s with connector := { s.connector with retryDelayMs_ := ms } }

/-- Time passes. -/
def tick (s : Attempts) (d : ℕ) : Attempts := { s with now := s.now + d }

/-- `sockets::close`. -/
def close (s : Attempts) (sockfd : ℕ) : Attempts :=
  { s with closed := Function.update s.closed sockfd (s.closed sockfd + 1) }

/-- `EventLoop::queueInLoop`. -/
def queueInLoop (s : Attempts) (f : Attempts.Functor) : Attempts :=
  { s with pendingFunctors := s.pendingFunctors ++ [f] }

/-- `runAfter(retryDelayMs_ / 1000.0, startInLoop)`, and the longer delay of the next attempt. -/
def runAfter (s : Attempts) : Attempts :=
  { s with
    timers := s.timers ++ [⟨s.nextTimer, s.now + s.connector.retryDelayMs_ * 1000⟩]
    nextTimer := s.nextTimer + 1
    connector := { s.connector with
      timerId_ := some s.nextTimer
      retryDelayMs_ := min (s.connector.retryDelayMs_ * 2) kMaxRetryDelayMs } }

/-- `TimerQueue::cancelInLoop`. A timer that has already been taken out is not found. -/
def cancelInLoop (s : Attempts) (timerId : Option ℕ) : Attempts :=
  { s with timers := s.timers.filter (fun t => some t.sequence ≠ timerId) }

/-- `Channel::update`, for the channel of the connector. -/
def update (s : Attempts) (ch : Channel) : Except Failure Attempts := do
  let r ← (s.poller.updateChannel ch.fd_ ch).mapError .poller
  pure ({ s with poller := r.1 }.setChannel (some r.2))

/-! ### The functions of the source -/

def connecting (s : Attempts) (sockfd : ℕ) : Except Failure Attempts := do
  let s := s.setState .kConnecting
  require (s.connector.channel_.isNone = true) .channelNotReset
  s.update (Channel.new sockfd).enableWriting

def retry (s : Attempts) (sockfd : ℕ) : Attempts :=
  let s := (s.close sockfd).setState .kDisconnected
  if s.connector.connect_ then s.runAfter else s

def connect (s : Attempts) (savedErrno : ℕ) : Except Failure Attempts :=
  let sockfd := s.created
  let s := { s with created := s.created + 1 }
  match connectResult savedErrno with
  | .connecting => s.connecting sockfd
  | .retry => pure (s.retry sockfd)
  | .fatal => pure (s.close sockfd)

def startInLoop (s : Attempts) (savedErrno : ℕ) : Except Failure Attempts := do
  require (s.connector.state_ = .kDisconnected) .startState
  if s.connector.connect_ then s.connect savedErrno else pure s

/-- `start`, on the loop thread. -/
def start (s : Attempts) (savedErrno : ℕ) : Except Failure Attempts :=
  (s.setConnect true).startInLoop savedErrno

/-- `stop`, on the loop thread. -/
def stop (s : Attempts) : Attempts := (s.setConnect false).cancelInLoop s.connector.timerId_

def restart (s : Attempts) (savedErrno : ℕ) : Except Failure Attempts :=
  (((s.setState .kDisconnected).setRetryDelayMs kInitRetryDelayMs).setConnect true).startInLoop
    savedErrno

/-- The state and the descriptor of the removed channel. -/
def removeAndResetChannel (s : Attempts) : Except Failure (Attempts × ℕ) :=
  match s.connector.channel_ with
  | none => .error .nullChannel
  | some ch => do
    let r ← (s.poller.updateChannel ch.fd_ ch.disableAll).mapError .poller
    let r ← (r.1.removeChannel ch.fd_ r.2).mapError .poller
    let s := { s with poller := r.1 }.setChannel (some r.2)
    pure (s.queueInLoop (.resetChannel ch.fd_), ch.fd_)

def resetChannel (s : Attempts) : Attempts := s.setChannel none

def handleWrite (s : Attempts) (soError : ℕ) (selfConnect : Bool) : Except Failure Attempts :=
  if s.connector.state_ = .kConnecting then do
    let (s, sockfd) ← s.removeAndResetChannel
    if soError ≠ 0 then pure (s.retry sockfd)
    else if selfConnect then pure (s.retry sockfd)
    else
      let s := s.setState .kConnected
      if s.connector.connect_ then
        pure { s with
          handed := s.handed ++ [⟨sockfd, soError, selfConnect, s.connector.connect_⟩] }
      else pure (s.close sockfd)
  else do
    require (s.connector.state_ = .kDisconnected) .handleWriteState
    pure s

def handleError (s : Attempts) : Except Failure Attempts := do
  require (s.connector.state_ = .kConnecting) .handleErrorState
  let (s, sockfd) ← s.removeAndResetChannel
  pure (s.retry sockfd)

/-- The callbacks of the channel: those for closing and reading are not set. -/
def callback (soError : ℕ) (selfConnect : Bool) (s : Attempts) : Handler → Except Failure Attempts
  | .error => s.handleError
  | .write => s.handleWrite soError selfConnect
  | .close | .read => pure s

/-- `Channel::handleEvent` of the channel with descriptor `sockfd`. -/
def handleEvent (s : Attempts) (sockfd : ℕ) (revents : Events) (soError : ℕ)
    (selfConnect : Bool) : Except Failure Attempts := do
  require (s.connector.channel_.map Channel.fd_ = some sockfd) .deadChannel
  ((Channel.new sockfd).set_revents revents).handleEvent.foldlM (callback soError selfConnect) s

def runFunctor (s : Attempts) (savedErrno : ℕ) : Attempts.Functor → Except Failure Attempts
  | .startInLoop => s.startInLoop savedErrno
  | .cancelInLoop timerId => pure (s.cancelInLoop timerId)
  | .resetChannel _ => pure s.resetChannel

/-! ### The view of a client -/

def Connector.view (c : Connector) : Fppnet.Connector := ⟨c.connect_, c.state_⟩

theorem update_view {s t : Attempts} {ch : Channel} (h : s.update ch = .ok t) :
    t.connector.view = s.connector.view := by
  obtain ⟨r, -, h⟩ := bind_eq_ok.1 h
  cases h
  rfl

theorem retry_view (s : Attempts) (sockfd : ℕ) :
    (s.retry sockfd).connector.view = ⟨s.connector.connect_, .kDisconnected⟩ := by
  unfold retry
  dsimp only
  split_ifs <;> rfl

/-- `startInLoop` does to the members that a client sees what `Fppnet.Connector.startInLoop`
does. -/
theorem startInLoop_view {s t : Attempts} {savedErrno : ℕ} (h : s.startInLoop savedErrno = .ok t) :
    s.connector.view.startInLoop (connectResult savedErrno) = .ok t.connector.view := by
  obtain ⟨hst, h⟩ := require_bind_ok.1 h
  unfold Fppnet.Connector.startInLoop
  rw [require_of (show s.connector.view.state_ = .kDisconnected from hst), ok_bind]
  split_ifs at h with hc
  · rw [if_pos (show s.connector.view.connect_ = true from hc)]
    unfold connect at h
    cases hr : connectResult savedErrno with
    | connecting =>
      rw [hr] at h
      obtain ⟨-, h⟩ := require_bind_ok.1 h
      rw [update_view h]
      rfl
    | retry =>
      rw [hr] at h
      cases h
      rw [retry_view]
      rfl
    | fatal =>
      rw [hr] at h
      cases h
      rfl
  · rw [if_neg (show ¬ s.connector.view.connect_ = true from hc)]
    cases h
    rfl

end Attempts

end Fppnet
