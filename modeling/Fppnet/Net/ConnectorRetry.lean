import Fppnet.Net.ConnectorRuns

/-!
# The retry path of a connector

`resetChannel` is queued and runs at the end of the iteration; the timer that `retry` arms may run
before that, when the timer queue has been found active in the same iteration and the retry delay
has passed in between.

* `Driven` admits the runs in which `start` is called once, and channel events and timers do the
  rest;
* `InTime` says of a timer that it does not run before a queued `resetChannel`, unless `connect(2)`
  then fails. `retry_path`: when all timers run in time, no step fails, and `resetChannel` destroys
  the channel that has been removed. `connecting_overtakes` is a run with a timer that is too early;
* `reach_inTime`: all timers run in time when the rest of an iteration is shorter than the delay.
-/

namespace Fppnet

open Checked Runs

open Attempts

namespace ConnectorLoop

/-! ### Runs in which `start` is called once -/

/-- `start` is called once, `stop` and `restart` never: without them `connect_` stays set. -/
def Driven (s : ConnectorLoop) : Label → Prop
  | .start _ | .foreignStart => s.attempts.connector.connect_ = false
  | .restart _ | .stop | .foreignStop | .foreignStopQueue => False
  | _ => True

instance (s : ConnectorLoop) (l : Label) : Decidable (Driven s l) := by
  cases l <;> unfold Driven <;> infer_instance

/-- While a `resetChannel` is still queued, no retry timer runs, unless `connect(2)` fails then. -/
def InTime (s : ConnectorLoop) : Label → Prop
  | .runTimer _ savedErrno =>
    connectResult savedErrno = .connecting → resets s.attempts.pendingFunctors = []
  | _ => True

instance (s : ConnectorLoop) (l : Label) : Decidable (InTime s l) := by
  cases l <;> unfold InTime <;> infer_instance

end ConnectorLoop

namespace Attempts

/-- What drives the connector on: its retry timers, and a connection that is being made or has been
made. -/
def driving (a : Attempts) : ℕ :=
  a.timers.length + if a.connector.state_ = .kDisconnected then 0 else 1

/-- The queued `startInLoop`. -/
def starts (q : List Attempts.Functor) : ℕ := q.count .startInLoop

@[simp] theorem starts_append (q q' : List Attempts.Functor) :
    starts (q ++ q') = starts q + starts q' := List.count_append

section Driving

variable {rest : List Attempts.Functor} {a b : Attempts} {k : ℕ}

/-- What an attempt and an event leave as it is, and how much they can add. -/
structure DrivenOn (a b : Attempts) : Prop where
  connect : b.connector.connect_ = a.connector.connect_
  starts : starts b.pendingFunctors = starts a.pendingFunctors
  busy : ∀ k, b.connector.channel_ = some (watched k) → b.connector.state_ = .kConnecting

theorem unwatched_ne (k n : ℕ) : unwatched k ≠ watched n := fun h => by
  have hidx : (unwatched k).index_ = (watched n).index_ := congrArg Channel.index_ h
  exact absurd hidx (by decide : EPoller.kNew ≠ EPoller.kAdded)

theorem driving_retry (a : Attempts) (k : ℕ) : (a.retry k).driving ≤ a.timers.length + 1 := by
  unfold driving
  rw [retry_state, if_pos rfl]
  unfold retry
  dsimp only
  split_ifs
  · exact le_of_eq (List.length_append ..)
  · exact Nat.le_succ _

theorem retry_drivenOn (a : Attempts) (k : ℕ)
    (hch : ∀ n, a.connector.channel_ ≠ some (watched n)) : DrivenOn a (a.retry k) := by
  unfold retry
  dsimp only
  split_ifs
  · exact ⟨rfl, rfl, fun n hn => absurd hn (hch n)⟩
  · exact ⟨rfl, rfl, fun n hn => absurd hn (hch n)⟩

theorem removed_channel (a : Attempts) (k n : ℕ) :
    (a.removed k).connector.channel_ ≠ some (watched n) := fun h =>
  unwatched_ne k n (Option.some.inj h)

theorem removed_starts (a : Attempts) (k : ℕ) :
    starts (a.removed k).pendingFunctors = starts a.pendingFunctors := by
  show starts (a.pendingFunctors ++ [_]) = _
  rw [starts_append]
  rfl

/-- An attempt adds one driver to none. -/
theorem attempted_drivenOn (hch : ∀ n, a.connector.channel_ ≠ some (watched n))
    (savedErrno : ℕ) :
    DrivenOn a (a.attempted savedErrno) ∧ (a.attempted savedErrno).driving ≤ a.driving + 1 := by
  unfold attempted
  dsimp only
  cases connectResult savedErrno with
  | connecting =>
    refine ⟨⟨rfl, rfl, fun _ _ => rfl⟩, ?_⟩
    show a.timers.length + 1 ≤ a.driving + 1
    unfold driving
    omega
  | retry =>
    have hon := retry_drivenOn { a with created := a.created + 1 } a.created hch
    refine ⟨⟨hon.connect, hon.starts, hon.busy⟩, (driving_retry _ _).trans ?_⟩
    show a.timers.length + 1 ≤ a.driving + 1
    unfold driving
    omega
  | fatal =>
    exact ⟨⟨rfl, rfl, fun n hn => absurd hn (hch n)⟩, Nat.le_succ _⟩

theorem startInLoop_drivenOn {slot : Slot} (h : Kept slot [] rest a)
    (hch : ∀ n, a.connector.channel_ ≠ some (watched n)) {savedErrno : ℕ}
    (hs : a.startInLoop savedErrno = .ok b) : DrivenOn a b ∧ b.driving ≤ a.driving + 1 := by
  rw [startInLoop_eq h] at hs
  split_ifs at hs with hst hc hslot
  · cases hs
    exact ⟨⟨rfl, rfl, fun n hn => absurd hn (hch n)⟩, Nat.le_succ _⟩
  · cases hs
    exact attempted_drivenOn hch savedErrno

theorem state_of_driving (h : a.driving = 0) : a.connector.state_ = .kDisconnected := by
  unfold driving at h
  by_contra hne
  rw [if_neg hne] at h
  omega

/-- **An event of the channel in progress.** It does nothing, or the attempt has failed and a timer
is armed, or it is over. -/
theorem handleEvent_driven (h : Kept (.inProgress k) [] rest a)
    (hst : a.connector.state_ = .kConnecting) (revents : Events) (soError : ℕ)
    (selfConnect : Bool) :
    ∃ b, a.handleEvent k revents soError selfConnect = .ok b ∧ DrivenOn a b ∧
      b.driving ≤ a.driving := by
  have hdriving : a.driving = a.timers.length + 1 := by
    unfold driving
    rw [hst]
    rfl
  have hretry : DrivenOn a ((a.removed k).retry k) := by
    have hon := retry_drivenOn (a.removed k) k (removed_channel a k)
    exact ⟨hon.connect, hon.starts.trans (removed_starts a k), hon.busy⟩
  have hle : ((a.removed k).retry k).driving ≤ a.driving :=
    (driving_retry _ _).trans (le_of_eq hdriving.symm)
  refine ⟨_, handleEvent_inProgress h hst revents soError selfConnect, ?_⟩
  split_ifs
  · exact ⟨hretry, hle⟩
  · have hstarts := removed_starts a k
    have hch := removed_channel a k
    unfold finish
    dsimp only
    split_ifs
    · exact ⟨hretry, hle⟩
    · exact ⟨hretry, hle⟩
    · exact ⟨⟨rfl, hstarts, fun n hn => absurd hn (hch n)⟩, le_of_eq hdriving.symm⟩
    · exact ⟨⟨rfl, hstarts, fun n hn => absurd hn (hch n)⟩, le_of_eq hdriving.symm⟩
  · exact ⟨⟨rfl, rfl, fun _ _ => hst⟩, le_rfl⟩

end Driving

/-- The channel of the connector is registered only while it is connecting. -/
def Busy (a : Attempts) : Prop :=
  ∀ k, a.connector.channel_ = some (watched k) → a.connector.state_ = .kConnecting

theorem Busy.not_watched {a : Attempts} (h : Busy a)
    (hst : a.connector.state_ = .kDisconnected) (k : ℕ) :
    a.connector.channel_ ≠ some (watched k) := fun hk => by
  have hbusy := h k hk
  rw [hst] at hbusy
  cases hbusy

end Attempts

namespace ConnectorLoop

/-- What drives the connector on: the calls of `start` that have not started their attempt yet, the
retry timers, and a connection that is being made or has been made. -/
def drivers (s : ConnectorLoop) : ℕ :=
  s.starting + starts (s.phase.rest ++ s.attempts.pendingFunctors) + s.phase.expired.length +
    s.attempts.driving

section Drivers

variable {slot : Slot} {s t : ConnectorLoop}

/-- A step that only moves functors and timers. -/
theorem drivers_move (hstarting : t.starting = s.starting)
    (hst : t.attempts.connector.state_ = s.attempts.connector.state_)
    (hcount : starts (t.phase.rest ++ t.attempts.pendingFunctors) =
      starts (s.phase.rest ++ s.attempts.pendingFunctors))
    (htimers : t.phase.expired.length + t.attempts.timers.length ≤
      s.phase.expired.length + s.attempts.timers.length) : t.drivers ≤ s.drivers := by
  unfold drivers driving
  rw [hstarting, hcount, hst]
  omega

/-- A driver starts an attempt: it is gone afterwards, and the attempt may set up another. -/
theorem drivers_attempt {rest : List Attempts.Functor} {a : Attempts} (hk : Kept slot [] rest a)
    (hbusy : Busy a) {savedErrno : ℕ} (ha : a.startInLoop savedErrno = .ok t.attempts) :
    DrivenOn a t.attempts ∧ t.drivers ≤ t.starting +
      starts (t.phase.rest ++ a.pendingFunctors) + t.phase.expired.length + a.driving + 1 := by
  obtain ⟨hon, hdriving⟩ := startInLoop_drivenOn hk
    (hbusy.not_watched (require_bind_ok.1 ha).1) ha
  refine ⟨hon, ?_⟩
  unfold drivers
  rw [starts_append, starts_append, hon.starts]
  omega

/-- An event of the channel in progress. -/
theorem drivers_handleEvent (h : Good slot s) (hbusy : Busy s.attempts) {soError : ℕ}
    {selfConnect : Bool} {sockfd : ℕ} {revents : Events} {active : List Source} {a : Attempts}
    (hph : s.phase = .dispatch (.channel sockfd revents :: active))
    (ha : s.attempts.handleEvent sockfd revents soError selfConnect = .ok a) :
    DrivenOn s.attempts a ∧ ((s.setPhase (.dispatch active)).put a).drivers ≤ s.drivers ∧
      0 < s.drivers := by
  have hk := h.inProgress hph
  have hst := hbusy sockfd hk.channel
  obtain ⟨b, hb, hon, hle⟩ := handleEvent_driven hk hst revents soError selfConnect
  cases hb.symm.trans ha
  have hpos : 1 ≤ s.attempts.driving := by
    unfold driving
    rw [hst]
    exact Nat.le_add_left ..
  have hstarts : starts ([] ++ a.pendingFunctors) = starts ([] ++ s.attempts.pendingFunctors) :=
    hon.starts
  refine ⟨hon, ?_, ?_⟩
  · unfold drivers
    rw [hph]
    show s.starting + starts ([] ++ a.pendingFunctors) + 0 + a.driving ≤
      s.starting + starts ([] ++ s.attempts.pendingFunctors) + 0 + s.attempts.driving
    omega
  · unfold drivers
    omega

/-- The expired timers go over to the phase, and the others stay. -/
theorem drivers_getExpired {active : List Source}
    (hph : s.phase = .dispatch (.timerfd :: active)) :
    ((s.setPhase (.timers (s.attempts.timers.filter fun t => s.attempts.Expired t) active)).put
      { s.attempts with
        timers := s.attempts.timers.filter fun t => ¬ s.attempts.Expired t }).drivers ≤
      s.drivers := by
  refine drivers_move rfl rfl (by rw [hph]; rfl) ?_
  rw [hph]
  show (s.attempts.timers.filter _).length + (s.attempts.timers.filter _).length ≤
    0 + s.attempts.timers.length
  rw [Nat.zero_add, List.length_eq_length_filter_add (l := s.attempts.timers)
    fun t => decide (s.attempts.Expired t)]
  simp

end Drivers

/-- At most one thing drives the connector, none before `start`; and nothing is in progress or has
been removed before the first attempt. -/
structure Driver (s : ConnectorLoop) : Prop where
  one : s.starting + starts (s.phase.rest ++ s.attempts.pendingFunctors) +
    s.phase.expired.length + s.attempts.driving ≤ if s.attempts.connector.connect_ then 1 else 0
  busy : ∀ k, s.attempts.connector.channel_ = some (watched k) →
    s.attempts.connector.state_ = .kConnecting
  fresh : s.attempts.connector.connect_ = false ∨
    0 < s.starting + starts (s.phase.rest ++ s.attempts.pendingFunctors) →
    s.attempts.connector.channel_ = none

namespace Driver

variable {slot : Slot} {s : ConnectorLoop}

theorem connect (hd : Driver s) (hpos : 0 < s.drivers) :
    s.attempts.connector.connect_ = true := by
  have hone : s.drivers ≤ _ := hd.one
  by_contra hne
  rw [if_neg hne] at hone
  omega

theorem foreignStart (hd : Driver s) (hc : s.attempts.connector.connect_ = false) :
    Driver { s.put (s.attempts.setConnect true) with starting := s.starting + 1 } := by
  have hone := hd.one
  rw [hc, if_neg (by decide)] at hone
  refine ⟨?_, hd.busy, fun _ => hd.fresh (.inl hc)⟩
  show s.starting + 1 + starts (s.phase.rest ++ s.attempts.pendingFunctors) +
    s.phase.expired.length + s.attempts.driving ≤ 1
  omega

theorem foreignStartQueue (hd : Driver s) (hpos : 0 < s.starting) :
    Driver { s.put (s.attempts.queueInLoop .startInLoop) with starting := s.starting - 1 } := by
  have hone := hd.one
  have hcount : starts (s.phase.rest ++ (s.attempts.pendingFunctors ++ [.startInLoop])) =
      starts (s.phase.rest ++ s.attempts.pendingFunctors) + 1 := by
    rw [← List.append_assoc, starts_append]
    rfl
  refine ⟨?_, hd.busy, fun _ => hd.fresh (.inr (by omega))⟩
  show s.starting - 1 + starts (s.phase.rest ++ (s.attempts.pendingFunctors ++ [.startInLoop])) +
    s.phase.expired.length + s.attempts.driving ≤ _
  rw [hcount]
  show _ ≤ if s.attempts.connector.connect_ then 1 else 0
  omega

/-- A step of the loop that only moves functors and timers. -/
theorem move (hd : Driver s) {t : ConnectorLoop} (hstarting : t.starting = s.starting)
    (hconn : t.attempts.connector = s.attempts.connector)
    (hcount : starts (t.phase.rest ++ t.attempts.pendingFunctors) =
      starts (s.phase.rest ++ s.attempts.pendingFunctors)) (hle : t.drivers ≤ s.drivers) :
    Driver t := by
  refine ⟨?_, by rw [hconn]; exact hd.busy, by rw [hstarting, hcount, hconn]; exact hd.fresh⟩
  rw [hconn]
  exact hle.trans hd.one

/-- The connector goes on, with one driver at most. -/
theorem of_drivenOn (hc : s.attempts.connector.connect_ = true) {t : ConnectorLoop}
    (hon : DrivenOn s.attempts t.attempts) (hle : t.drivers ≤ 1)
    (hnone : t.starting + starts (t.phase.rest ++ s.attempts.pendingFunctors) = 0) :
    Driver t := by
  have hct : t.attempts.connector.connect_ = true := hon.connect.trans hc
  rw [starts_append, ← hon.starts, ← starts_append] at hnone
  refine ⟨?_, hon.busy, fun hfresh => ?_⟩
  · rw [hct, if_pos rfl]
    exact hle
  · rw [hct] at hfresh
    rcases hfresh with hf | hf
    · cases hf
    · omega

/-- The one driver starts an attempt: it is gone afterwards, unless the attempt sets up another. -/
theorem attempt (hd : Driver s) {rest : List Attempts.Functor} {t : ConnectorLoop}
    (hk : Kept slot [] rest s.attempts) {savedErrno : ℕ}
    (ha : s.attempts.startInLoop savedErrno = .ok t.attempts)
    (htoken : s.starting + starts (s.phase.rest ++ s.attempts.pendingFunctors) +
      s.phase.expired.length = t.starting + starts (t.phase.rest ++ s.attempts.pendingFunctors) +
      t.phase.expired.length + 1) : Driver t := by
  have hc := hd.connect (by unfold drivers; omega)
  have hone := hd.one
  rw [hc, if_pos rfl] at hone
  obtain ⟨hon, hle⟩ := drivers_attempt hk hd.busy ha
  exact of_drivenOn hc hon (by omega) (by omega)

/-- A functor of the batch. -/
theorem functor (hd : Driver s) (h : Good slot s) {savedErrno : ℕ} {f : Attempts.Functor}
    {rest : List Attempts.Functor} {a : Attempts} (hph : s.phase = .functors (f :: rest))
    (ha : s.attempts.runFunctor savedErrno f = .ok a) :
    Driver ((s.setPhase (.functors rest)).put a) := by
  have hk := h.kept
  rw [hph] at hk
  cases f with
  | startInLoop =>
    refine hd.attempt (hk.popped rfl) ha ?_
    rw [hph]
    show s.starting + starts (([.startInLoop] ++ rest) ++ s.attempts.pendingFunctors) + 0 =
      s.starting + starts (rest ++ s.attempts.pendingFunctors) + 0 + 1
    rw [List.append_assoc, starts_append]
    show _ + (1 + _) + 0 = _
    omega
  | cancelInLoop timerId =>
    cases ha
    refine hd.move rfl rfl (by rw [hph]; rfl) (drivers_move rfl rfl (by rw [hph]; rfl) ?_)
    rw [hph]
    exact Nat.add_le_add_left (List.length_filter_le ..) _
  | resetChannel k =>
    cases ha
    have hone := hd.one
    rw [hph] at hone
    refine ⟨hone, fun n hn => ?_, fun _ => rfl⟩
    cases hn

/-- An event of the channel in progress. -/
theorem handleEvent (hd : Driver s) (h : Good slot s) {soError : ℕ} {selfConnect : Bool}
    {sockfd : ℕ} {revents : Events} {active : List Source} {a : Attempts}
    (hph : s.phase = .dispatch (.channel sockfd revents :: active))
    (ha : s.attempts.handleEvent sockfd revents soError selfConnect = .ok a) :
    Driver ((s.setPhase (.dispatch active)).put a) := by
  have hst := hd.busy sockfd (h.inProgress hph).channel
  obtain ⟨hon, hle, hpos⟩ := drivers_handleEvent h hd.busy hph ha
  have hc := hd.connect hpos
  have hone := hd.one
  rw [hc, if_pos rfl] at hone
  refine of_drivenOn hc hon (hle.trans hone) ?_
  -- the attempt that the event is for is the one driver
  have hbusy : 1 ≤ s.attempts.driving := by
    unfold driving
    rw [hst]
    exact Nat.le_add_left ..
  rw [hph] at hone
  change s.starting + starts ([] ++ s.attempts.pendingFunctors) + 0 + _ ≤ 1 at hone
  show s.starting + starts ([] ++ s.attempts.pendingFunctors) = 0
  omega

end Driver

/-- **Every step in time keeps the one driver.** -/
theorem step_driver {slot : Slot} {s t : ConnectorLoop} {l : Label} (h : Good slot s)
    (hd : Driver s) (hl : Driven s l) (hs : Moves step s l t) : Driver t := by
  have hk := h.kept
  cases step_cases hs with
  | start ha =>
    refine (hd.foreignStart hl).attempt (hk.setConnect true) ha ?_
    show s.starting + 1 + starts (s.phase.rest ++ s.attempts.pendingFunctors) +
      s.phase.expired.length = s.starting +
      starts (s.phase.rest ++ s.attempts.pendingFunctors) + s.phase.expired.length + 1
    omega
  | restart ha => exact hl.elim
  | stop => exact hl.elim
  | foreignStart => exact hd.foreignStart hl
  | foreignStartQueue hpos => exact hd.foreignStartQueue hpos
  | foreignStop => exact hl.elim
  | foreignStopQueue hpos => exact hl.elim
  | poll hph hrep =>
    exact hd.move rfl rfl (by rw [hph]; rfl)
      (drivers_move rfl rfl (by rw [hph]; rfl) (by rw [hph]; exact le_rfl))
  | handleEvent hph ha => exact hd.handleEvent h hph ha
  | getExpired hph => exact hd.move rfl rfl (by rw [hph]; rfl) (drivers_getExpired hph)
  | @runTimer t savedErrno expired active a hph hmem ha =>
    have hlen := List.length_pos_of_mem hmem
    have herase := List.length_erase_of_mem hmem
    refine hd.attempt hk ha ?_
    rw [hph]
    show s.starting + starts ([] ++ s.attempts.pendingFunctors) + expired.length =
      s.starting + starts ([] ++ s.attempts.pendingFunctors) + (expired.erase t).length + 1
    omega
  | endTimers hph =>
    exact hd.move rfl rfl (by rw [hph]; rfl)
      (drivers_move rfl rfl (by rw [hph]; rfl) (by rw [hph]; exact le_rfl))
  | swap hph =>
    have hcount : starts (s.attempts.pendingFunctors ++ []) =
        starts (s.phase.rest ++ s.attempts.pendingFunctors) := by
      rw [hph, List.append_nil]
      rfl
    exact hd.move rfl rfl hcount (drivers_move rfl rfl hcount (by rw [hph]; exact le_rfl))
  | functor hph ha => exact hd.functor h hph ha
  | endFunctors hph =>
    exact hd.move rfl rfl (by rw [hph]; rfl)
      (drivers_move rfl rfl (by rw [hph]; rfl) (by rw [hph]; exact le_rfl))
  | tick => exact hd.move rfl rfl rfl le_rfl

/-- An attempt of the one driver fails only when a channel is still to be reset. -/
theorem Driver.startInLoop_error {slot : Slot} {s : ConnectorLoop} (hd : Driver s)
    {rest : List Attempts.Functor} (hk : Kept slot [] rest s.attempts)
    (htoken : 0 < s.starting + starts (s.phase.rest ++ s.attempts.pendingFunctors) +
      s.phase.expired.length) {savedErrno : ℕ} {e : Attempts.Failure} :
    s.attempts.startInLoop savedErrno = .error e ↔ e = .channelNotReset ∧
      connectResult savedErrno = .connecting ∧
      resets (rest ++ s.attempts.pendingFunctors) ≠ [] := by
  have hc := hd.connect (by unfold drivers; omega)
  have hone := hd.one
  rw [hc, if_pos rfl] at hone
  have hst := state_of_driving (a := s.attempts) (by omega)
  have hslot : slot ≠ .empty ↔ slot.resets ≠ [] := by
    cases slot with
    | empty => simp [Slot.resets]
    | inProgress k => exact absurd hk.channel (Busy.not_watched hd.busy hst k)
    | removed k => simp [Slot.resets]
  rw [startInLoop_eq hk, hk.resets, ← hslot, if_neg (not_not.2 hst), if_neg (by rw [hc]; decide)]
  split_ifs with hcond
  · simp [hcond, eq_comm]
  · simp only [false_iff, not_and]
    intro _ hr hne
    exact hcond ⟨hr, hne⟩

theorem Driver.resets_eq_nil {slot : Slot} {s : ConnectorLoop} (hd : Driver s)
    {rest : List Attempts.Functor} (hk : Kept slot [] rest s.attempts)
    (hfresh : s.attempts.connector.connect_ = false ∨
      0 < s.starting + starts (s.phase.rest ++ s.attempts.pendingFunctors)) :
    resets (rest ++ s.attempts.pendingFunctors) = [] := by
  rw [hk.resets, hk.channel_eq_none_iff.1 (hd.fresh hfresh)]
  rfl

/-- Only a timer that runs too early makes a step fail. -/
theorem step_error {slot : Slot} {s : ConnectorLoop} {l : Label} (h : Good slot s)
    (hd : Driver s) (hl : Driven s l) {e : Attempts.Failure} (hs : step s l = some (.error e)) :
    e = .channelNotReset ∧ ¬ InTime s l := by
  have hk := h.kept
  cases step_fails hs with
  | start ha =>
    -- before the first attempt no channel has been removed
    have hstart := hd.foreignStart hl
    obtain ⟨-, -, hne⟩ := (hstart.startInLoop_error (hk.setConnect true)
      (Nat.add_pos_left (Nat.add_pos_left (Nat.succ_pos _) _) _)).1 ha
    exact absurd (hd.resets_eq_nil hk (.inl hl)) hne
  | restart _ => exact hl.elim
  | @handleEvent soError selfConnect sockfd revents _ hph ha =>
    -- the event is for the channel in progress, and its callbacks cannot fail
    have hprog := h.inProgress hph
    obtain ⟨b, hb, -⟩ := handleEvent_driven hprog (hd.busy sockfd hprog.channel) revents soError
      selfConnect
    cases hb.symm.trans ha
  | runTimer hph hmem ha =>
    have hpos : 0 < s.phase.expired.length := by
      rw [hph]
      exact List.length_pos_of_mem hmem
    rw [hph] at hk
    obtain ⟨he, hr, hne⟩ := (hd.startInLoop_error hk (by omega)).1 ha
    exact ⟨he, fun ht => hne (ht hr)⟩
  | @functor _ f rest hph ha =>
    rw [hph] at hk
    cases f with
    | startInLoop =>
      have hpos : 0 < starts (s.phase.rest ++ s.attempts.pendingFunctors) := by
        rw [hph, starts_append]
        show 0 < starts ([.startInLoop] ++ rest) + _
        rw [starts_append]
        exact Nat.add_pos_left (Nat.add_pos_left Nat.one_pos _) _
      obtain ⟨-, -, hne⟩ := (hd.startInLoop_error (hk.popped rfl) (by omega)).1 ha
      exact absurd (hd.resets_eq_nil (hk.popped rfl) (.inr (by omega))) hne
    | cancelInLoop timerId => cases ha
    | resetChannel k => cases ha

/-- A timer that runs too early makes the step fail. -/
theorem step_late {slot : Slot} {s : ConnectorLoop} {l : Label} (h : Good slot s)
    (hd : Driver s) (hen : (step s l).isSome = true) (ht : ¬ InTime s l) :
    step s l = some (.error .channelNotReset) := by
  cases l
  case runTimer t savedErrno =>
    have hk := h.kept
    simp only [InTime, Classical.not_imp] at ht
    simp only [step, loopStep] at hen ⊢
    split at hen
    · next expired active hph =>
      split_ifs at hen with hmem
      rw [hph] at hk
      have hpos : 0 < s.phase.expired.length := by
        rw [hph]
        exact List.length_pos_of_mem hmem
      · rw [if_pos hmem, (hd.startInLoop_error hk (by omega)).2 ⟨rfl, ht⟩]
        rfl
      · cases hen
    · cases hen
  all_goals exact absurd trivial ht

theorem new_driver : Driver new := by
  refine ⟨le_rfl, fun k hk => ?_, fun _ => rfl⟩
  cases hk

theorem reach_driver {C : ConnectorLoop → Label → Prop} {s : ConnectorLoop}
    (h : Reach (Moves step) (fun s l => Driven s l ∧ C s l) new s) :
    (∃ slot, Good slot s) ∧ Driver s :=
  h.invariant (I := fun s => (∃ slot, Good slot s) ∧ Driver s) ⟨⟨_, new_good⟩, new_driver⟩
    fun x l y hx hl hs => by
      obtain ⟨⟨slot, hgood⟩, hd⟩ := hx
      exact ⟨step_good hgood hs, step_driver hgood hd hl.1 hs⟩

/-- The first functor of the batch is a `resetChannel` for socket `k`. -/
def Resetting (s : ConnectorLoop) (k : ℕ) : Prop :=
  ∃ rest, s.phase = .functors (.resetChannel k :: rest)

/-- `channel_` holds the channel of socket `k`, and no channel is registered. -/
def HoldsRemoved (s : ConnectorLoop) (k : ℕ) : Prop :=
  ∃ ch, s.attempts.connector.channel_ = some ch ∧ ch.fd_ = k ∧ ch.index_ = EPoller.kNew ∧
    ∀ n, s.attempts.poller.channels_ n = none ∧ s.attempts.poller.interest n = none

theorem Good.holdsRemoved {slot : Slot} {s : ConnectorLoop} (h : Good slot s) {k : ℕ}
    (hr : Resetting s k) : HoldsRemoved s k := by
  obtain ⟨rest, hph⟩ := hr
  have hk := h.kept
  have hres := h.kept.resets
  rw [hph] at hres
  change k :: resets (rest ++ s.attempts.pendingFunctors) = slot.resets at hres
  cases slot with
  | empty => cases hres
  | inProgress k' => cases hres
  | removed k' =>
    cases (List.cons.inj hres).1
    refine ⟨unwatched k, hk.channel, rfl, rfl, fun n => ?_⟩
    rw [hk.poller]
    exact ⟨rfl, rfl⟩

/-- **The retry path.** In a run in which `start` is called once and every retry timer runs in time,
no step fails: `connecting` finds `channel_` empty; and every `resetChannel` destroys the channel
that its `removeAndResetChannel` has removed. A step fails when its timer runs too early. -/
theorem retry_path {s : ConnectorLoop}
    (h : Reach (Moves step) (fun s l => Driven s l ∧ InTime s l) new s) :
    (∀ l e, Driven s l → InTime s l → step s l ≠ some (.error e)) ∧
    (∀ k, Resetting s k → HoldsRemoved s k) ∧
    (∀ l, Driven s l → (step s l).isSome = true →
      (step s l = some (.error .channelNotReset) ↔ ¬ InTime s l)) := by
  obtain ⟨⟨slot, hgood⟩, hd⟩ := reach_driver h
  refine ⟨fun l e hl ht hs => (step_error hgood hd hl hs).2 ht,
    fun k hr => hgood.holdsRemoved hr, fun l hl hen => ⟨fun hs => ?_, fun ht => ?_⟩⟩
  · exact (step_error hgood hd hl hs).2
  · exact step_late hgood hd hen ht

/-! An attempt fails, and the timer for the next one runs in a later iteration. -/

def failedOnce : List Label :=
  [.start EINPROGRESS, .poll [.channel 0 (POLLERR ||| POLLHUP ||| POLLOUT)],
    .handleEvent ECONNREFUSED false, .swap]

theorem retry_path_failedOnce : ∃ s : ConnectorLoop, Resetting s 0 ∧ HoldsRemoved s 0 := by
  obtain ⟨s, hs, hp⟩ := exists_reach_of_run step (fun s l => Driven s l ∧ InTime s l) new failedOnce
    (fun s => decide (s.phase = .functors [.resetChannel 0])) (by decide)
  have hr : Resetting s 0 := ⟨[], of_decide_eq_true hp⟩
  exact ⟨s, hr, (retry_path hs).2.1 0 hr⟩

/-! The timer queue has been found active with the channel, for another timer, and a slow callback
runs between their callbacks. -/

def slowCallback : List Label :=
  [.start EINPROGRESS, .poll [.channel 0 POLLERR, .timerfd], .handleEvent 0 false, .tick 500000,
    .getExpired]

theorem connecting_overtakes :
    ∃ s, Reach (Moves step) Driven new s ∧ Driven s (.runTimer ⟨0, 500000⟩ EINPROGRESS) ∧
      step s (.runTimer ⟨0, 500000⟩ EINPROGRESS) = some (.error .channelNotReset) := by
  obtain ⟨s, hs, hp⟩ := exists_reach_of_run step Driven new slowCallback
    (fun s => fails step s (.runTimer ⟨0, 500000⟩ EINPROGRESS) .channelNotReset) (by decide)
  exact ⟨s, hs, trivial, eq_of_fails hp⟩

/-! ### Iterations that are shorter than the delay -/

/-- When the timer queue collects its expired timers while a `resetChannel` is queued, no retry
timer has expired yet. -/
def Prompt (s : ConnectorLoop) : Label → Prop
  | .getExpired => resets s.attempts.pendingFunctors ≠ [] →
    ∀ t ∈ s.attempts.timers, ¬ s.attempts.Expired t
  | _ => True

/-- Timers are run only in iterations without a queued `resetChannel`. -/
def Unhurried (s : ConnectorLoop) : Prop :=
  s.phase.expired ≠ [] → resets s.attempts.pendingFunctors = []

theorem startInLoop_resets {slot : Slot} {rest : List Attempts.Functor} {a b : Attempts}
    (h : Kept slot [] rest a) {savedErrno : ℕ} (hs : a.startInLoop savedErrno = .ok b) :
    resets b.pendingFunctors = resets a.pendingFunctors := by
  rw [startInLoop_eq h] at hs
  split_ifs at hs
  · cases hs
    rfl
  · cases hs
    unfold attempted retry
    dsimp only
    cases connectResult savedErrno with
    | connecting => rfl
    | retry => dsimp only; split_ifs <;> rfl
    | fatal => rfl

theorem step_unhurried {slot : Slot} {s t : ConnectorLoop} {l : Label} (h : Good slot s)
    (hu : Unhurried s) (hl : Driven s l) (hp : Prompt s l) (hs : Moves step s l t) :
    Unhurried t := by
  have hk := h.kept
  cases step_cases hs with
  | start ha => exact fun he => (startInLoop_resets (hk.setConnect true) ha).trans (hu he)
  | restart ha => exact hl.elim
  | stop => exact hl.elim
  | foreignStart => exact hu
  | foreignStartQueue hpos =>
    refine fun he => ?_
    show resets (s.attempts.pendingFunctors ++ [.startInLoop]) = []
    rw [resets_append, hu he]
    rfl
  | foreignStop => exact hl.elim
  | foreignStopQueue hpos => exact hl.elim
  | poll hph hrep => exact fun he => absurd rfl he
  | handleEvent hph ha => exact fun he => absurd rfl he
  | getExpired hph =>
    intro he
    by_contra hne
    refine he (List.filter_eq_nil_iff.2 fun t ht => ?_)
    rw [decide_eq_true_iff]
    exact hp hne t ht
  | @runTimer t savedErrno expired active a hph hmem ha =>
    intro _
    have hne : s.phase.expired ≠ [] := by
      rw [hph]
      exact List.ne_nil_of_mem hmem
    rw [hph] at hk
    exact (startInLoop_resets hk ha).trans (hu hne)
  | endTimers hph => exact fun he => absurd rfl he
  | swap hph => exact fun he => absurd rfl he
  | functor hph ha => exact fun he => absurd rfl he
  | endFunctors hph => exact fun he => absurd rfl he
  | tick => exact hu

/-- **When the rest of an iteration takes less than the retry delay, every timer runs in time.** -/
theorem reach_inTime {s : ConnectorLoop}
    (h : Reach (Moves step) (fun s l => Driven s l ∧ Prompt s l) new s) :
    Unhurried s ∧ Reach (Moves step) (fun s l => Driven s l ∧ InTime s l) new s := by
  induction h with
  | refl => exact ⟨fun he => absurd rfl he, .refl⟩
  | @tail t u l _ hl hs ih =>
    obtain ⟨hu, hreach⟩ := ih
    obtain ⟨⟨slot, hgood⟩, -⟩ := reach_driver hreach
    have hin : InTime t l := by
      cases l
      case runTimer timer savedErrno =>
        have hs' := step_cases hs
        cases hs' with
        | runTimer hph hmem ha =>
          refine fun _ => hu ?_
          rw [hph]
          exact List.ne_nil_of_mem hmem
      all_goals trivial
    exact ⟨step_unhurried hgood hu hl.1 hl.2 hs, hreach.tail ⟨hl.1, hin⟩ hs⟩

end ConnectorLoop

end Fppnet
