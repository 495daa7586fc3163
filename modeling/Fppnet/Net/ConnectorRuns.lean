import Fppnet.Library.Run
import Fppnet.Net.ConnectorSockets

/-!
# Runs of a connector

* `ConnectorLoop` is a connector in its loop: the loop waits in `poll`, calls the active channels,
  runs the timers that `TimerQueue::handleRead` has found expired, or runs functors. `start`, `stop`
  and `restart` are called at any time, the first two by other threads as well, and time passes at
  any time;
* `sockets_balance`: in every run every socket is in progress, closed once or passed on once.
-/

namespace Fppnet

open Checked Runs

namespace Attempts

/-! ### The loop -/

/-- An active channel of an iteration: that of the connector with its `revents_`, or that of the
timer queue. -/
inductive Source
  | channel (sockfd : ℕ) (revents : Events)
  | timerfd
  deriving DecidableEq

def Source.sockfd : Source → Option ℕ
  | channel sockfd _ => some sockfd
  | timerfd => none

/-- Where the loop is. `timers` is `TimerQueue::handleRead` with the expired timers that have not
run yet. -/
inductive Phase
  | poll
  | dispatch (active : List Source)
  | timers (expired : List RetryTimer) (active : List Source)
  | functors (rest : List Attempts.Functor)
  deriving DecidableEq

namespace Phase

def active : Phase → List Source
  | dispatch active | timers _ active => active
  | _ => []

def expired : Phase → List RetryTimer
  | timers expired _ => expired
  | _ => []

def rest : Phase → List Attempts.Functor
  | functors rest => rest
  | _ => []

end Phase

/-- What `epoll_wait` can return: channels that are watched, each once. Other timers of the loop can
make the timer queue active at any time. -/
def Reported (a : Attempts) (active : List Source) : Prop :=
  (∀ k ∈ active.filterMap Source.sockfd, (a.poller.interest k).isSome = true) ∧
    (active.map Source.sockfd).Nodup

instance (a : Attempts) (active : List Source) : Decidable (Reported a active) :=
  inferInstanceAs (Decidable (_ ∧ _))

/-- A retry timer has expired. -/
def Expired (a : Attempts) (t : RetryTimer) : Prop := t.expiration ≤ a.now

instance (a : Attempts) (t : RetryTimer) : Decidable (a.Expired t) :=
  inferInstanceAs (Decidable (_ ≤ _))

end Attempts

open Attempts

/-- A connector in its loop. `starting` and `stopping` count the calls of `start` and `stop` by
other threads that have set `connect_` and have not queued their functor yet. -/
structure ConnectorLoop where
  attempts : Attempts
  phase : Attempts.Phase
  starting : ℕ
  stopping : ℕ

namespace ConnectorLoop

/-- A new connector, before the loop polls. -/
def new : ConnectorLoop := ⟨Attempts.new, .poll, 0, 0⟩

/-- The steps. `start`, `restart` and `stop` are calls on the loop thread, from callbacks of other
channels, timers or functors, or from `newConnectionCallback_`. -/
inductive Label
  | start (savedErrno : ℕ)
  | restart (savedErrno : ℕ)
  | stop
  | foreignStart
  | foreignStartQueue
  | foreignStop
  | foreignStopQueue
  | poll (active : List Source)
  | handleEvent (soError : ℕ) (selfConnect : Bool)
  | getExpired
  | runTimer (t : RetryTimer) (savedErrno : ℕ)
  | endTimers
  | swap
  | functor (savedErrno : ℕ)
  | endFunctors
  | tick (d : ℕ)
  deriving DecidableEq

def put (s : ConnectorLoop) (a : Attempts) : ConnectorLoop := { s with attempts := a }

def setPhase (s : ConnectorLoop) (p : Attempts.Phase) : ConnectorLoop := { s with phase := p }

/-- The steps of the loop. -/
def loopStep (s : ConnectorLoop) : Label → Option (Except Attempts.Failure ConnectorLoop)
  | .poll active =>
    match s.phase with
    | .poll =>
      if Reported s.attempts active then some (.ok (s.setPhase (.dispatch active))) else none
    | _ => none
  | .handleEvent soError selfConnect =>
    match s.phase with
    | .dispatch (.channel sockfd revents :: active) =>
      some ((s.attempts.handleEvent sockfd revents soError selfConnect).map
        (s.setPhase (.dispatch active)).put)
    | _ => none
  | .getExpired =>
    match s.phase with
    | .dispatch (.timerfd :: active) =>
      some (.ok ((s.setPhase
        (.timers (s.attempts.timers.filter fun t => s.attempts.Expired t) active)).put
        { s.attempts with
          timers := s.attempts.timers.filter fun t => ¬ s.attempts.Expired t }))
    | _ => none
  | .runTimer t savedErrno =>
    match s.phase with
    | .timers expired active =>
      if t ∈ expired then
        some ((s.attempts.startInLoop savedErrno).map
          (s.setPhase (.timers (expired.erase t) active)).put)
      else none
    | _ => none
  | .endTimers =>
    match s.phase with
    | .timers [] active => some (.ok (s.setPhase (.dispatch active)))
    | _ => none
  | .swap =>
    match s.phase with
    | .dispatch [] =>
      some (.ok ((s.setPhase (.functors s.attempts.pendingFunctors)).put
        { s.attempts with pendingFunctors := [] }))
    | _ => none
  | .functor savedErrno =>
    match s.phase with
    | .functors (f :: rest) =>
      some ((s.attempts.runFunctor savedErrno f).map (s.setPhase (.functors rest)).put)
    | _ => none
  | .endFunctors =>
    match s.phase with
    | .functors [] => some (.ok (s.setPhase .poll))
    | _ => none
  | _ => none

/-- The calls, and the time. -/
def callStep (s : ConnectorLoop) : Label → Option (Except Attempts.Failure ConnectorLoop)
  | .start savedErrno => some ((s.attempts.start savedErrno).map s.put)
  | .restart savedErrno => some ((s.attempts.restart savedErrno).map s.put)
  | .stop => some (.ok (s.put s.attempts.stop))
  | .foreignStart =>
    some (.ok { s.put (s.attempts.setConnect true) with starting := s.starting + 1 })
  | .foreignStartQueue =>
    if 0 < s.starting then
      some (.ok { s.put (s.attempts.queueInLoop .startInLoop) with starting := s.starting - 1 })
    else none
  | .foreignStop =>
    some (.ok { s.put (s.attempts.setConnect false) with stopping := s.stopping + 1 })
  | .foreignStopQueue =>
    if 0 < s.stopping then
      some (.ok { s.put (s.attempts.queueInLoop (.cancelInLoop s.attempts.connector.timerId_)) with
        stopping := s.stopping - 1 })
    else none
  | .tick d => some (.ok (s.put (s.attempts.tick d)))
  | _ => none

def step (s : ConnectorLoop) (l : Label) : Option (Except Attempts.Failure ConnectorLoop) :=
  match l with
  | .start _ | .restart _ | .stop | .foreignStart | .foreignStartQueue | .foreignStop
  | .foreignStopQueue | .tick _ => s.callStep l
  | _ => s.loopStep l

/-- **What a step can do.** -/
inductive Steps (s : ConnectorLoop) : Label → ConnectorLoop → Prop
  | start {savedErrno : ℕ} {a : Attempts} : s.attempts.start savedErrno = .ok a →
      Steps s (.start savedErrno) (s.put a)
  | restart {savedErrno : ℕ} {a : Attempts} : s.attempts.restart savedErrno = .ok a →
      Steps s (.restart savedErrno) (s.put a)
  | stop : Steps s .stop (s.put s.attempts.stop)
  | foreignStart :
      Steps s .foreignStart { s.put (s.attempts.setConnect true) with starting := s.starting + 1 }
  | foreignStartQueue : 0 < s.starting → Steps s .foreignStartQueue
      { s.put (s.attempts.queueInLoop .startInLoop) with starting := s.starting - 1 }
  | foreignStop :
      Steps s .foreignStop { s.put (s.attempts.setConnect false) with stopping := s.stopping + 1 }
  | foreignStopQueue : 0 < s.stopping → Steps s .foreignStopQueue
      { s.put (s.attempts.queueInLoop (.cancelInLoop s.attempts.connector.timerId_)) with
        stopping := s.stopping - 1 }
  | poll {active : List Source} : s.phase = .poll → Reported s.attempts active →
      Steps s (.poll active) (s.setPhase (.dispatch active))
  | handleEvent {soError : ℕ} {selfConnect : Bool} {sockfd : ℕ} {revents : Events}
      {active : List Source} {a : Attempts} :
      s.phase = .dispatch (.channel sockfd revents :: active) →
      s.attempts.handleEvent sockfd revents soError selfConnect = .ok a →
      Steps s (.handleEvent soError selfConnect) ((s.setPhase (.dispatch active)).put a)
  | getExpired {active : List Source} : s.phase = .dispatch (.timerfd :: active) →
      Steps s .getExpired ((s.setPhase
        (.timers (s.attempts.timers.filter fun t => s.attempts.Expired t) active)).put
        { s.attempts with timers := s.attempts.timers.filter fun t => ¬ s.attempts.Expired t })
  | runTimer {t : RetryTimer} {savedErrno : ℕ} {expired : List RetryTimer} {active : List Source}
      {a : Attempts} : s.phase = .timers expired active → t ∈ expired →
      s.attempts.startInLoop savedErrno = .ok a →
      Steps s (.runTimer t savedErrno) ((s.setPhase (.timers (expired.erase t) active)).put a)
  | endTimers {active : List Source} : s.phase = .timers [] active →
      Steps s .endTimers (s.setPhase (.dispatch active))
  | swap : s.phase = .dispatch [] →
      Steps s .swap ((s.setPhase (.functors s.attempts.pendingFunctors)).put
        { s.attempts with pendingFunctors := [] })
  | functor {savedErrno : ℕ} {f : Attempts.Functor} {rest : List Attempts.Functor} {a : Attempts} :
      s.phase = .functors (f :: rest) → s.attempts.runFunctor savedErrno f = .ok a →
      Steps s (.functor savedErrno) ((s.setPhase (.functors rest)).put a)
  | endFunctors : s.phase = .functors [] → Steps s .endFunctors (s.setPhase .poll)
  | tick {d : ℕ} : Steps s (.tick d) (s.put (s.attempts.tick d))

theorem callStep_cases {s t : ConnectorLoop} {l : Label} (hs : s.callStep l = some (.ok t)) :
    Steps s l t := by
  cases l <;> simp only [callStep, reduceCtorEq] at hs
  case start savedErrno =>
    obtain ⟨a, ha, rfl⟩ := map_eq_ok.1 (Option.some.inj hs)
    exact .start ha
  case restart savedErrno =>
    obtain ⟨a, ha, rfl⟩ := map_eq_ok.1 (Option.some.inj hs)
    exact .restart ha
  case stop =>
    cases hs
    exact .stop
  case foreignStart =>
    cases hs
    exact .foreignStart
  case foreignStartQueue =>
    split_ifs at hs with hpos
    cases hs
    exact .foreignStartQueue hpos
  case foreignStop =>
    cases hs
    exact .foreignStop
  case foreignStopQueue =>
    split_ifs at hs with hpos
    cases hs
    exact .foreignStopQueue hpos
  case tick d =>
    cases hs
    exact .tick

theorem loopStep_cases {s t : ConnectorLoop} {l : Label} (hs : s.loopStep l = some (.ok t)) :
    Steps s l t := by
  cases l <;> simp only [loopStep, reduceCtorEq] at hs
  case poll active =>
    split at hs
    · next hph =>
      split_ifs at hs with hrep
      cases hs
      exact .poll hph hrep
    · cases hs
  case handleEvent soError selfConnect =>
    split at hs
    · next hph =>
      obtain ⟨a, ha, rfl⟩ := map_eq_ok.1 (Option.some.inj hs)
      exact .handleEvent hph ha
    · cases hs
  case getExpired =>
    split at hs
    · next hph =>
      cases hs
      exact .getExpired hph
    · cases hs
  case runTimer timer savedErrno =>
    split at hs
    · next hph =>
      split_ifs at hs with hmem
      obtain ⟨a, ha, rfl⟩ := map_eq_ok.1 (Option.some.inj hs)
      exact .runTimer hph hmem ha
    · cases hs
  case endTimers =>
    split at hs
    · next hph =>
      cases hs
      exact .endTimers hph
    · cases hs
  case swap =>
    split at hs
    · next hph =>
      cases hs
      exact .swap hph
    · cases hs
  case functor savedErrno =>
    split at hs
    · next hph =>
      obtain ⟨a, ha, rfl⟩ := map_eq_ok.1 (Option.some.inj hs)
      exact .functor hph ha
    · cases hs
  case endFunctors =>
    split at hs
    · next hph =>
      cases hs
      exact .endFunctors hph
    · cases hs

theorem step_cases {s t : ConnectorLoop} {l : Label} (hs : Moves step s l t) : Steps s l t := by
  unfold Moves step at hs
  split at hs
  case h_9 => exact loopStep_cases hs
  all_goals exact callStep_cases hs

/-- **Which steps can fail**: those that run a function of the connector. -/
inductive Fails (s : ConnectorLoop) (e : Attempts.Failure) : Label → Prop
  | start {savedErrno : ℕ} : s.attempts.start savedErrno = .error e → Fails s e (.start savedErrno)
  | restart {savedErrno : ℕ} : s.attempts.restart savedErrno = .error e →
      Fails s e (.restart savedErrno)
  | handleEvent {soError : ℕ} {selfConnect : Bool} {sockfd : ℕ} {revents : Events}
      {active : List Source} : s.phase = .dispatch (.channel sockfd revents :: active) →
      s.attempts.handleEvent sockfd revents soError selfConnect = .error e →
      Fails s e (.handleEvent soError selfConnect)
  | runTimer {t : RetryTimer} {savedErrno : ℕ} {expired : List RetryTimer} {active : List Source} :
      s.phase = .timers expired active → t ∈ expired →
      s.attempts.startInLoop savedErrno = .error e → Fails s e (.runTimer t savedErrno)
  | functor {savedErrno : ℕ} {f : Attempts.Functor} {rest : List Attempts.Functor} :
      s.phase = .functors (f :: rest) → s.attempts.runFunctor savedErrno f = .error e →
      Fails s e (.functor savedErrno)

theorem step_fails {s : ConnectorLoop} {l : Label} {e : Attempts.Failure}
    (hs : step s l = some (.error e)) : Fails s e l := by
  cases l <;> simp only [step, callStep, loopStep, Option.some.injEq, reduceCtorEq] at hs
  case start savedErrno => exact .start (map_eq_error.1 hs)
  case restart savedErrno => exact .restart (map_eq_error.1 hs)
  case foreignStartQueue =>
    split_ifs at hs
    cases hs
  case foreignStopQueue =>
    split_ifs at hs
    cases hs
  case poll active =>
    split at hs
    · split_ifs at hs
      cases hs
    · cases hs
  case handleEvent soError selfConnect =>
    split at hs
    · next hph => exact .handleEvent hph (map_eq_error.1 (Option.some.inj hs))
    · cases hs
  case getExpired => split at hs <;> cases hs
  case runTimer t savedErrno =>
    split at hs
    · next hph =>
      split_ifs at hs with hmem
      exact .runTimer hph hmem (map_eq_error.1 (Option.some.inj hs))
    · cases hs
  case endTimers => split at hs <;> cases hs
  case swap => split at hs <;> cases hs
  case functor savedErrno =>
    split at hs
    · next hph => exact .functor hph (map_eq_error.1 (Option.some.inj hs))
    · cases hs
  case endFunctors => split at hs <;> cases hs

/-! ### Every step keeps the accounts -/

structure Good (slot : Slot) (s : ConnectorLoop) : Prop where
  kept : Kept slot [] s.phase.rest s.attempts
  active : ∀ k, some k ∈ s.phase.active.map Source.sockfd → slot = .inProgress k
  distinct : (s.phase.active.map Source.sockfd).Nodup

namespace Good

variable {slot : Slot} {s t : ConnectorLoop}

/-- An active channel of the connector is the one of the socket in progress. -/
theorem inProgress (h : Good slot s) {sockfd : ℕ} {revents : Events} {active : List Source}
    (hph : s.phase = .dispatch (.channel sockfd revents :: active)) :
    Kept (.inProgress sockfd) [] [] s.attempts := by
  have hk := h.kept
  have hactive := h.active
  rw [hph] at hk hactive
  obtain rfl := hactive sockfd (List.mem_cons_self ..)
  exact hk

/-- A call that does not remove the channel. -/
theorem call (h : Good slot s) {slot' : Slot} (hnext : slot.Next slot') {a : Attempts}
    (ha : Kept slot' [] s.phase.rest a) {m n : ℕ} : Good slot' ⟨a, s.phase, m, n⟩ := by
  refine ⟨ha, fun k hk => ?_, h.distinct⟩
  rcases hnext with rfl | rfl
  · exact h.active k hk
  · cases h.active k hk

theorem restart (h : Good slot s) {savedErrno : ℕ} {a : Attempts}
    (ha : s.attempts.restart savedErrno = .ok a) : ∃ slot', Good slot' (s.put a) := by
  have hk := ((h.kept.setState .kDisconnected (by decide)).setRetryDelayMs
    kInitRetryDelayMs).setConnect true
  obtain ⟨slot', hnext, hkept⟩ := hk.startInLoop ha
  exact ⟨slot', h.call hnext hkept⟩

theorem poll (h : Good slot s) {active : List Source} (hph : s.phase = .poll)
    (hrep : Reported s.attempts active) : Good slot (s.setPhase (.dispatch active)) := by
  have hk := h.kept
  rw [hph] at hk
  refine ⟨hk, fun k hmem => ?_, hrep.2⟩
  obtain ⟨x, hx, hfd⟩ := List.mem_map.1 hmem
  have hint := hrep.1 k (List.mem_filterMap.2 ⟨x, hx, hfd⟩)
  rw [h.kept.poller] at hint
  cases slot with
  | empty => cases hint
  | removed k' => cases hint
  | inProgress k' =>
    by_cases hkk : k = k'
    · rw [hkk]
    · simp [Slot.poller, hkk] at hint

theorem handleEvent (h : Good slot s) {soError : ℕ} {selfConnect : Bool} {sockfd : ℕ}
    {revents : Events} {active : List Source} {a : Attempts}
    (hph : s.phase = .dispatch (.channel sockfd revents :: active))
    (ha : s.attempts.handleEvent sockfd revents soError selfConnect = .ok a) :
    ∃ slot', Good slot' ((s.setPhase (.dispatch active)).put a) := by
  have hk := h.kept
  have hactive := h.active
  have hdistinct := h.distinct
  rw [hph] at hk hactive hdistinct
  obtain rfl := hactive sockfd (List.mem_cons_self ..)
  obtain ⟨hnot, hrest⟩ := List.nodup_cons.1 hdistinct
  rcases hk.handleEvent ha with hkept | hkept
  · exact ⟨_, hkept, fun k hmem => hactive k (List.mem_cons_of_mem _ hmem), hrest⟩
  · refine ⟨_, hkept, fun k hmem => ?_, hrest⟩
    cases hactive k (List.mem_cons_of_mem _ hmem)
    exact absurd hmem hnot

end Good

theorem step_good {slot : Slot} {s t : ConnectorLoop} {l : Label} (h : Good slot s)
    (hs : Moves step s l t) : ∃ slot', Good slot' t := by
  have hk := h.kept
  cases step_cases hs with
  | start ha =>
    obtain ⟨slot', hnext, hkept⟩ := (hk.setConnect true).startInLoop ha
    exact ⟨slot', h.call hnext hkept⟩
  | restart ha => exact h.restart ha
  | stop => exact ⟨slot, h.call (.inl rfl) ((hk.setConnect false).cancelInLoop _)⟩
  | foreignStart => exact ⟨slot, h.call (.inl rfl) (hk.setConnect true)⟩
  | foreignStartQueue hpos => exact ⟨slot, h.call (.inl rfl) (hk.queueInLoop rfl)⟩
  | foreignStop => exact ⟨slot, h.call (.inl rfl) (hk.setConnect false)⟩
  | foreignStopQueue hpos => exact ⟨slot, h.call (.inl rfl) (hk.queueInLoop rfl)⟩
  | poll hph hrep => exact ⟨slot, h.poll hph hrep⟩
  | handleEvent hph ha => exact h.handleEvent hph ha
  | getExpired hph =>
    have hactive := h.active
    have hdistinct := h.distinct
    rw [hph] at hk hactive hdistinct
    exact ⟨slot, ⟨hk.channel, hk.poller, hk.resets, hk.connecting, hk.balance, hk.justified⟩,
      fun k hmem => hactive k (List.mem_cons_of_mem _ hmem), (List.nodup_cons.1 hdistinct).2⟩
  | runTimer hph hmem ha =>
    have hactive := h.active
    have hdistinct := h.distinct
    rw [hph] at hk hactive hdistinct
    obtain ⟨slot', hnext, hkept⟩ := hk.startInLoop ha
    refine ⟨slot', hkept, fun k hmem => ?_, hdistinct⟩
    rcases hnext with rfl | rfl
    · exact hactive k hmem
    · cases hactive k hmem
  | endTimers hph =>
    have hactive := h.active
    have hdistinct := h.distinct
    rw [hph] at hk hactive hdistinct
    exact ⟨slot, hk, hactive, hdistinct⟩
  | swap hph =>
    rw [hph] at hk
    refine ⟨slot, ⟨hk.channel, hk.poller, ?_, hk.connecting, hk.balance, hk.justified⟩,
      fun k hmem => absurd hmem (List.not_mem_nil), List.nodup_nil⟩
    show resets (s.attempts.pendingFunctors ++ []) = slot.resets
    rw [List.append_nil]
    exact hk.resets
  | functor hph ha =>
    rw [hph] at hk
    obtain ⟨slot', hkept⟩ := hk.runFunctor ha
    exact ⟨slot', hkept, fun k hmem => absurd hmem (List.not_mem_nil), List.nodup_nil⟩
  | endFunctors hph =>
    rw [hph] at hk
    exact ⟨slot, hk, fun k hmem => absurd hmem (List.not_mem_nil), List.nodup_nil⟩
  | tick =>
    exact ⟨slot, h.call (.inl rfl) (hk.tick _)⟩

theorem new_good : Good .empty new := by
  refine ⟨⟨rfl, rfl, rfl, fun h => ?_, fun k => rfl, fun h hh => ?_⟩, fun k hk => ?_,
    List.nodup_nil⟩
  · cases h
  · cases hh
  · cases hk

theorem reach_good {C : ConnectorLoop → Label → Prop} {s : ConnectorLoop}
    (h : Reach (Moves step) C new s) : ∃ slot, Good slot s :=
  h.invariant (I := fun s => ∃ slot, Good slot s) ⟨_, new_good⟩ fun x l y hx _ hs => by
    obtain ⟨slot, hgood⟩ := hx
    exact step_good hgood hs

/-! ### Every socket is accounted for -/

/-- A step can fail only at an assertion of the connector: no callback finds `channel_` empty or its
channel destroyed. -/
theorem Good.isAssertion {slot : Slot} {s : ConnectorLoop} (h : Good slot s) {l : Label}
    {e : Attempts.Failure} (hs : step s l = some (.error e)) : e.isAssertion = true := by
  have hk := h.kept
  cases step_fails hs with
  | start ha => exact (hk.setConnect true).startInLoop_error ha
  | restart ha =>
    exact (((hk.setState .kDisconnected (by decide)).setRetryDelayMs
      kInitRetryDelayMs).setConnect true).startInLoop_error ha
  | handleEvent hph ha => exact (h.inProgress hph).handleEvent_error ha
  | runTimer _ _ ha => exact hk.startInLoop_error ha
  | functor hph ha =>
    rw [hph] at hk
    exact hk.runFunctor_error ha

end ConnectorLoop

namespace Attempts

/-- Socket `k` is in progress: it is the descriptor of `channel_`, which is registered. -/
def InProgress (a : Attempts) (k : ℕ) : Prop :=
  ∃ ch, a.connector.channel_ = some ch ∧ ch.fd_ = k ∧ a.poller.channels_ k = some k

/-- Socket `k` is in exactly one of the three states. -/
def Accounted (a : Attempts) (k : ℕ) : Prop :=
  (a.InProgress k ∧ a.closed k = 0 ∧ a.passed k = 0) ∨
  (¬ a.InProgress k ∧ a.closed k = 1 ∧ a.passed k = 0) ∨
  (¬ a.InProgress k ∧ a.closed k = 0 ∧ a.passed k = 1)

section

variable {slot : Slot} {rest : List Attempts.Functor} {a : Attempts}

theorem Kept.inProgress_iff (h : Kept slot [] rest a) (k : ℕ) :
    a.InProgress k ↔ slot = .inProgress k := by
  unfold InProgress
  rw [h.channel, h.poller]
  constructor
  · rintro ⟨ch, hch, hfd, hreg⟩
    cases slot with
    | empty => cases hch
    | removed k' => cases hreg
    | inProgress k' =>
      cases hch
      rw [← hfd]
      rfl
  · rintro rfl
    refine ⟨watched k, rfl, rfl, ?_⟩
    exact Function.update_self k (some k) fun _ => none

theorem Kept.accounted (h : Kept slot [] rest a) {k : ℕ} (hk : k < a.created) : a.Accounted k := by
  have hb := h.balance k
  rw [if_pos hk, List.append_nil] at hb
  unfold Accounted
  rw [h.inProgress_iff]
  by_cases hslot : slot = .inProgress k
  · have hone : slot.holds.count k = 1 := by
      rw [hslot]
      exact List.count_singleton_self
    left
    exact ⟨hslot, by omega, by omega⟩
  · have hzero : slot.holds.count k = 0 := by
      cases slot with
      | empty => rfl
      | removed k' => rfl
      | inProgress k' =>
        refine List.count_eq_zero.2 fun hmem => hslot ?_
        rw [List.mem_singleton.1 hmem]
    right
    rcases Nat.eq_zero_or_pos (a.closed k) with hc | hc
    · exact .inr ⟨hslot, hc, by omega⟩
    · exact .inl ⟨hslot, by omega, by omega⟩

end

end Attempts

namespace ConnectorLoop

/-- **No socket is leaked or closed twice**, in every run: each is in progress, closed once or
passed on once; one that is passed on is connected, and to another socket, and wanted; and one at
most is in progress. A step that fails does so at an assertion. -/
theorem sockets_balance {s : ConnectorLoop} (h : Reach (Moves step) Always new s) :
    (∀ k < s.attempts.created, s.attempts.Accounted k) ∧
    (∀ x ∈ s.attempts.handed, x.Justified) ∧
    (∀ k n, s.attempts.InProgress k → s.attempts.InProgress n → k = n) ∧
    (∀ l e, step s l = some (.error e) → e.isAssertion = true) := by
  obtain ⟨slot, hgood⟩ := reach_good h
  refine ⟨fun k hk => hgood.kept.accounted hk, hgood.kept.justified, fun k n hk hn => ?_,
    fun l e hs => hgood.isAssertion hs⟩
  rw [hgood.kept.inProgress_iff] at hk hn
  rw [hk] at hn
  cases hn
  rfl

/-! The first attempt is refused, the second one succeeds. -/

def refusedOnce : List Label :=
  [.start ECONNREFUSED, .tick 500000, .poll [.timerfd], .getExpired,
    .runTimer ⟨0, 500000⟩ EINPROGRESS, .endTimers, .swap, .endFunctors, .poll [.channel 1 POLLOUT],
    .handleEvent 0 false]

theorem sockets_balance_refusedOnce :
    ∃ s : ConnectorLoop, s.attempts.Accounted 0 ∧ s.attempts.Accounted 1 ∧
      s.attempts.closed 0 = 1 ∧ s.attempts.passed 1 = 1 := by
  obtain ⟨s, hs, hp⟩ := exists_reach_of_run step Always new refusedOnce
    (fun s => decide (s.attempts.created = 2 ∧ s.attempts.closed 0 = 1 ∧ s.attempts.passed 1 = 1))
    (by decide)
  obtain ⟨hc, h0, h1⟩ := of_decide_eq_true hp
  have hbal := (sockets_balance hs).1
  exact ⟨s, hbal 0 (by omega), hbal 1 (by omega), h0, h1⟩

end ConnectorLoop

end Fppnet
