import Fppnet.Net.ClientLoop

/-!
# `TcpClient::connect` in every state

`start` runs `startInLoop` at once, which asserts that the connector is disconnected, and
`connecting` asserts that `channel_` is empty. `stop` changes `connect_` only, and a connection that
has been established leaves the connector in `kConnected` until `restart`.

* `Heeds` is the condition on the calls and on the events under which all goes well: `connect` is
  called while the connector is idle, no retry timer overtakes a queued `resetChannel`, an attempt
  that has been stopped does not succeed, and a connection that is removed is made again;
* `Calm` is what such a run keeps: one thing at most drives the connector, and it is connected only
  while its client has the connection;
* `start_safe`: in such a run no step fails, and the connector is never stuck;
* `connect_iff`: when a call of `connect` makes an attempt, in any run;
* `stuck_iff` and `stuck_forever`: the connector is stuck when an attempt that has been stopped
  succeeds, or when a connection is removed and not made again, and it stays stuck;
* `connect_fails`: runs in which a call of `connect`, or the retry timer after it, fails.
-/

namespace Fppnet

open Checked Runs

open Attempts

namespace ClientLoop

open ConnectorLoop (Good drivers drivers_move drivers_attempt drivers_handleEvent
  drivers_getExpired)

/-! ### The condition -/

/-- The steps of a client whose functions are called on the loop thread, while it exists. -/
def OnLoopThread : Label → Prop
  | .foreignConnect | .foreignDisconnect | .destroy => False
  | .loop l => ¬ Foreign l
  | _ => True

/-- No attempt is under way or has succeeded, and no retry timer is pending or in the batch that is
being run. -/
structure Idle (s : ClientLoop) : Prop where
  state : s.connector.state_ = .kDisconnected
  timers : s.loop.attempts.timers = []
  expired : s.loop.phase.expired = []

/-- The next event of the connector finds the connection established. -/
def Establishes (s : ClientLoop) (soError : ℕ) (selfConnect : Bool) : Prop :=
  match s.loop.phase with
  | .dispatch (.channel _ revents :: _) => Succeeds revents soError selfConnect
  | _ => False

/-- The condition on a step. -/
def Heeds (s : ClientLoop) : Label → Prop
  | .connect savedErrno =>
    Idle s ∧ (connectResult savedErrno = .connecting → s.connector.channel_ = none)
  | .removeConnection _ => s.retry_ = true ∧ s.connect_ = true
  | .loop (.runTimer _ savedErrno) => s.connector.connect_ = true →
    connectResult savedErrno = .connecting → resets s.loop.attempts.pendingFunctors = []
  | .loop (.handleEvent soError selfConnect) =>
    Establishes s soError selfConnect → s.connector.connect_ = true
  | _ => True

instance (l : Label) : Decidable (OnLoopThread l) :=
  match l with
  | .foreignConnect | .foreignDisconnect | .destroy => inferInstanceAs (Decidable False)
  | .loop l =>
    match l with
    | .foreignStart | .foreignStartQueue | .foreignStop | .foreignStopQueue =>
      inferInstanceAs (Decidable (¬ True))
    | .start _ | .restart _ | .stop | .poll _ | .handleEvent _ _ | .getExpired | .runTimer _ _
    | .endTimers | .swap | .functor _ | .endFunctors | .tick _ =>
      inferInstanceAs (Decidable (¬ False))
  | .connect _ | .disconnect | .stop | .enableRetry | .removeConnection _ =>
    inferInstanceAs (Decidable True)

instance (s : ClientLoop) : Decidable (Idle s) :=
  decidable_of_iff (s.connector.state_ = .kDisconnected ∧ s.loop.attempts.timers = [] ∧
      s.loop.phase.expired = [])
    ⟨fun h => ⟨h.1, h.2.1, h.2.2⟩, fun h => ⟨h.state, h.timers, h.expired⟩⟩

instance (s : ClientLoop) (soError : ℕ) (selfConnect : Bool) :
    Decidable (Establishes s soError selfConnect) := by
  unfold Establishes
  generalize s.loop.phase = phase
  exact match phase with
  | .dispatch (.channel _ revents :: _) =>
    inferInstanceAs (Decidable (Succeeds revents soError selfConnect))
  | .dispatch [] | .dispatch (.timerfd :: _) | .poll | .timers _ _ | .functors _ =>
    inferInstanceAs (Decidable False)

instance (s : ClientLoop) (l : Label) : Decidable (Heeds s l) :=
  match l with
  | .connect _ => inferInstanceAs (Decidable (_ ∧ (_ → s.connector.channel_ = none)))
  | .removeConnection _ => inferInstanceAs (Decidable (_ ∧ _))
  | .loop l =>
    match l with
    | .runTimer _ _ => inferInstanceAs (Decidable (_ → _ → _))
    | .handleEvent _ _ => inferInstanceAs (Decidable (_ → _))
    | .start _ | .restart _ | .stop | .foreignStart | .foreignStartQueue | .foreignStop
    | .foreignStopQueue | .poll _ | .getExpired | .endTimers | .swap | .functor _ | .endFunctors
    | .tick _ => inferInstanceAs (Decidable True)
  | .disconnect | .stop | .enableRetry | .foreignConnect | .foreignDisconnect | .destroy =>
    inferInstanceAs (Decidable True)

/-! ### One thing drives the connector -/

/-- The invariant of the runs that meet the condition. -/
structure Calm (s : ClientLoop) : Prop where
  alive : s.life = .alive
  queued : s.loop.starting + starts (s.loop.phase.rest ++ s.loop.attempts.pendingFunctors) = 0
  one : s.loop.drivers ≤ 1
  connection : s.connector.state_ = .kConnected → s.connection_ ≠ none

/-- What a step of the loop does to the drivers and to the state of the connector. -/
structure Onward (s t : ConnectorLoop) : Prop where
  le : t.drivers ≤ s.drivers
  starting : t.starting = s.starting
  queued : starts (t.phase.rest ++ t.attempts.pendingFunctors) ≤
    starts (s.phase.rest ++ s.attempts.pendingFunctors)
  state : t.attempts.connector.state_ = s.attempts.connector.state_ ∨
    t.attempts.connector.state_ ≠ .kConnected

theorem Calm.onward {s t : ClientLoop} (h : Calm s) (hon : Onward s.loop t.loop)
    (hlife : t.life = s.life) (hconn : t.connection_ = s.connection_) : Calm t := by
  have hstarts := h.queued
  have hle := hon.queued
  refine ⟨hlife.trans h.alive, ?_, hon.le.trans h.one, fun hst => ?_⟩
  · rw [hon.starting]
    omega
  · rw [hconn]
    exact h.connection ((hon.state.resolve_right fun hne => hne hst).symm.trans hst)

section Attempt

variable {slot : Slot} {rest : List Attempts.Functor} {a b : Attempts} {savedErrno : ℕ}

/-- An attempt that is made now is not established now. -/
theorem startInLoop_state (hk : Kept slot [] rest a) (ha : a.startInLoop savedErrno = .ok b) :
    b.connector.state_ ≠ .kConnected := by
  have hst := (require_bind_ok.1 ha).1
  rw [startInLoop_eq hk] at ha
  split_ifs at ha
  · cases ha
    rw [hst]
    decide
  · cases ha
    unfold attempted
    dsimp only
    cases connectResult savedErrno with
    | connecting => exact fun h => ConnectorState.noConfusion h
    | retry =>
      dsimp only
      rw [retry_state]
      decide
    | fatal =>
      show a.connector.state_ ≠ .kConnected
      rw [hst]
      decide

/-- An attempt creates a socket. -/
theorem startInLoop_created (hk : Kept slot [] rest a) (hc : a.connector.connect_ = true)
    (ha : a.startInLoop savedErrno = .ok b) : b.created = a.created + 1 := by
  rw [startInLoop_eq hk] at ha
  split_ifs at ha with hst hnot
  · rw [hc] at hnot
    cases hnot
  · cases ha
    unfold attempted
    dsimp only
    cases connectResult savedErrno with
    | connecting => rfl
    | retry => exact (retry_frame _ _).2
    | fatal => rfl

end Attempt

namespace Onward

variable {slot : Slot} {s t : ConnectorLoop}

/-- A step that only moves functors and timers. -/
theorem move (hstarting : t.starting = s.starting)
    (hst : t.attempts.connector.state_ = s.attempts.connector.state_)
    (hcount : starts (t.phase.rest ++ t.attempts.pendingFunctors) =
      starts (s.phase.rest ++ s.attempts.pendingFunctors))
    (htimers : t.phase.expired.length + t.attempts.timers.length ≤
      s.phase.expired.length + s.attempts.timers.length) : Onward s t :=
  ⟨drivers_move hstarting hst hcount htimers, hstarting, hcount.le, .inl hst⟩

/-- A `startInLoop` of a retry timer or of a functor. -/
theorem attempt {rest : List Attempts.Functor} (hk : Kept slot [] rest s.attempts)
    (hbusy : Busy s.attempts) {savedErrno : ℕ}
    (ha : s.attempts.startInLoop savedErrno = .ok t.attempts) (hstarting : t.starting = s.starting)
    (hcount : starts (t.phase.rest ++ s.attempts.pendingFunctors) ≤
      starts (s.phase.rest ++ s.attempts.pendingFunctors))
    (htoken : starts (t.phase.rest ++ s.attempts.pendingFunctors) + t.phase.expired.length + 1 ≤
      starts (s.phase.rest ++ s.attempts.pendingFunctors) + s.phase.expired.length) :
    Onward s t := by
  obtain ⟨hon, hle⟩ := drivers_attempt hk hbusy ha
  refine ⟨hle.trans ?_, hstarting, ?_, .inr (startInLoop_state hk ha)⟩
  · unfold drivers
    omega
  · rw [starts_append, hon.starts, ← starts_append]
    exact hcount

/-- A functor of the batch. -/
theorem functor (h : Good slot s) (hbusy : Busy s.attempts) {savedErrno : ℕ} {f : Attempts.Functor}
    {rest : List Attempts.Functor} {a : Attempts} (hph : s.phase = .functors (f :: rest))
    (ha : s.attempts.runFunctor savedErrno f = .ok a) :
    Onward s ((s.setPhase (.functors rest)).put a) := by
  have hk := h.kept
  rw [hph] at hk
  cases f with
  | startInLoop =>
    have hcount : starts (s.phase.rest ++ s.attempts.pendingFunctors) =
        starts (rest ++ s.attempts.pendingFunctors) + 1 := by
      rw [hph]
      show starts (([.startInLoop] ++ rest) ++ s.attempts.pendingFunctors) = _
      rw [List.append_assoc, starts_append]
      exact Nat.add_comm ..
    refine attempt (hk.popped rfl) hbusy ha rfl ?_ ?_
    · rw [hcount]
      exact Nat.le_succ _
    · rw [hcount, hph]
      exact le_rfl
  | cancelInLoop timerId =>
    cases ha
    refine move rfl rfl (by rw [hph]; rfl) ?_
    rw [hph]
    exact Nat.add_le_add_left (List.length_filter_le ..) _
  | resetChannel k =>
    cases ha
    exact move rfl rfl (by rw [hph]; rfl) (by rw [hph]; exact le_rfl)

end Onward

/-- A step of the loop that is neither an event nor the start of an attempt by a call. -/
theorem loop_onward {slot : Slot} {s t : ConnectorLoop} {l : ConnectorLoop.Label}
    (h : Good slot s) (hbusy : Busy s.attempts)
    (hl : Plain l ∨ l = .stop ∨ l = .getExpired ∨ l = .endTimers ∨ ∃ active, l = .poll active)
    (hs : Moves ConnectorLoop.step s l t) : Onward s t := by
  have hk := h.kept
  cases ConnectorLoop.step_cases hs with
  | start _ => simp [Plain] at hl
  | restart _ => simp [Plain] at hl
  | foreignStart => simp [Plain] at hl
  | foreignStartQueue _ => simp [Plain] at hl
  | foreignStop => simp [Plain] at hl
  | foreignStopQueue _ => simp [Plain] at hl
  | handleEvent _ _ => simp [Plain] at hl
  | stop => exact .move rfl rfl rfl (Nat.add_le_add_left (List.length_filter_le ..) _)
  | poll hph _ => exact .move rfl rfl (by rw [hph]; rfl) (by rw [hph]; exact le_rfl)
  | getExpired hph =>
    refine ⟨drivers_getExpired hph, rfl, ?_, .inl rfl⟩
    rw [hph]
    exact le_rfl
  | @runTimer timer savedErrno expired active a hph hmem ha =>
    have herase := List.length_erase_of_mem hmem
    have hlen := List.length_pos_of_mem hmem
    rw [hph] at hk
    refine .attempt hk hbusy ha rfl ?_ ?_
    all_goals rw [hph]
    · exact le_rfl
    · show starts ([] ++ s.attempts.pendingFunctors) + (expired.erase timer).length + 1 ≤
        starts ([] ++ s.attempts.pendingFunctors) + expired.length
      omega
  | endTimers hph => exact .move rfl rfl (by rw [hph]; rfl) (by rw [hph]; exact le_rfl)
  | swap hph =>
    refine .move rfl rfl ?_ (by rw [hph]; exact le_rfl)
    rw [hph]
    show starts (s.attempts.pendingFunctors ++ []) = starts s.attempts.pendingFunctors
    rw [List.append_nil]
  | functor hph ha => exact .functor h hbusy hph ha
  | endFunctors hph => exact .move rfl rfl (by rw [hph]; rfl) (by rw [hph]; exact le_rfl)
  | tick => exact .move rfl rfl rfl le_rfl

/-! ### Every step that meets the condition -/

namespace Calm

variable {slot : Slot} {s t : ClientLoop}

/-- An attempt that a call makes, when nothing drives the connector. -/
theorem attempt (h : Calm s) {rest : List Attempts.Functor} {a : Attempts}
    (hk : Kept slot [] rest a) (hbusy : Busy a) {savedErrno : ℕ}
    (ha : a.startInLoop savedErrno = .ok t.loop.attempts) (hlife : t.life = s.life)
    (hstarting : t.loop.starting = s.loop.starting) (hphase : t.loop.phase = s.loop.phase)
    (hpending : a.pendingFunctors = s.loop.attempts.pendingFunctors)
    (hnone : s.loop.phase.expired.length + a.driving = 0) : Calm t := by
  have hstarts := h.queued
  obtain ⟨hon, hle⟩ := drivers_attempt hk hbusy ha
  rw [hphase, hstarting, hpending] at hle
  refine ⟨hlife.trans h.alive, ?_, by omega, fun hst => (startInLoop_state hk ha hst).elim⟩
  rw [starts_append, hon.starts, ← starts_append, hphase, hstarting, hpending]
  exact hstarts

theorem handleEvent (h : Calm s) (hg : Good slot s.loop) (hh : Held s) {soError : ℕ}
    {selfConnect : Bool} {sockfd : ℕ} {revents : Events} {active : List Source} {a : Attempts}
    (hph : s.loop.phase = .dispatch (.channel sockfd revents :: active))
    (hl : Establishes s soError selfConnect → s.connector.connect_ = true)
    (ha : s.loop.attempts.handleEvent sockfd revents soError selfConnect = .ok a) :
    Calm ({ s with loop := (s.loop.setPhase (.dispatch active)).put a }.newConnection
      s.loop.attempts.handed.length) := by
  have hk := hg.inProgress hph
  have hstarts := h.queued
  obtain ⟨hon, hle, -⟩ := drivers_handleEvent hg hh.busy hph ha
  rw [hph] at hstarts
  have hst := hh.busy sockfd hk.channel
  have hzero : s.loop.starting + starts ([] ++ a.pendingFunctors) = 0 := by
    rw [List.nil_append, hon.starts]
    exact hstarts
  by_cases hsuc : Succeeds revents soError selfConnect
  · have hc : s.loop.attempts.connector.connect_ = true := by
      refine hl ?_
      unfold Establishes
      rw [hph]
      exact hsuc
    obtain ⟨-, hhanded⟩ := handleEvent_succeeded hk hst hsuc ha
    rw [hc, if_pos rfl] at hhanded
    obtain ⟨x, hx⟩ := hhanded
    rw [newConnection_called hx]
    exact ⟨h.alive, hzero, hle.trans h.one, fun _ => Option.some_ne_none _⟩
  · obtain ⟨hne, hhanded⟩ := handleEvent_failed hk hst hsuc ha
    rw [newConnection_same hhanded]
    exact ⟨h.alive, hzero, hle.trans h.one, fun hconn => (hne hconn).elim⟩

/-- Nothing drives a connector whose client has no driver but the connection. -/
theorem driving_restart (h : Calm s) (hconn : s.connector.state_ = .kConnected) :
    s.loop.phase.expired.length + s.loop.attempts.timers.length = 0 := by
  have hone := h.one
  unfold drivers driving at hone
  rw [show s.loop.attempts.connector.state_ = .kConnected from hconn, if_neg (by decide)] at hone
  omega

end Calm

theorem step_calm {slot : Slot} {s t : ClientLoop} {l : Label} (hg : Good slot s.loop)
    (hh : Held s) (h : Calm s) (hl : OnLoopThread l) (hheed : Heeds s l)
    (hs : Moves step s l t) : Calm t := by
  have hk := hg.kept
  cases step_cases hs with
  | connect _ hm =>
    obtain ⟨⟨hst, htimers, hexpired⟩, -⟩ := hheed
    cases ConnectorLoop.step_cases hm with
    | start ha =>
      refine h.attempt (hk.setConnect true) hh.busy ha rfl rfl rfl rfl ?_
      show s.loop.phase.expired.length + (s.loop.attempts.timers.length +
        if s.connector.state_ = .kDisconnected then 0 else 1) = 0
      rw [htimers, hexpired, hst]
      rfl
  | disconnect _ => exact h.onward (.move rfl rfl rfl le_rfl) rfl rfl
  | stop _ =>
    exact h.onward (loop_onward (l := .stop) hg hh.busy (.inr (.inl rfl)) rfl) rfl rfl
  | enableRetry _ => exact h.onward (.move rfl rfl rfl le_rfl) rfl rfl
  | foreignConnect _ => exact hl.elim
  | foreignDisconnect _ => exact hl.elim
  | removed _ _ _ hno =>
    rw [hheed.1, hheed.2] at hno
    cases hno
  | restarted _ hne hp _ _ hm =>
    cases ConnectorLoop.step_cases hm with
    | restart ha =>
      have hkept := ((hk.setState .kDisconnected (by decide)).setRetryDelayMs
        kInitRetryDelayMs).setConnect true
      have hnone : s.loop.attempts.connector.channel_ = none := hh.reset hne hp
      refine h.attempt hkept (fun n hn => ?_) ha rfl rfl rfl rfl
        (h.driving_restart (hh.connected hne))
      change s.loop.attempts.connector.channel_ = some (watched n) at hn
      rw [hnone] at hn
      cases hn
  | destroy _ _ _ => exact hl.elim
  | foreign _ hf _ => exact (hl hf).elim
  | poll hm =>
    exact h.onward (loop_onward hg hh.busy (.inr (.inr (.inr (.inr ⟨_, rfl⟩)))) hm) rfl rfl
  | handleEvent hm =>
    cases ConnectorLoop.step_cases hm with
    | handleEvent hph ha => exact h.handleEvent hg hh hph hheed ha
  | getExpired hm =>
    refine h.onward (loop_onward hg hh.busy (.inr (.inr (.inl rfl))) hm) ?_ rfl
    show s.collect = s.life
    unfold collect
    rw [h.alive]
  | endTimers _ hm =>
    exact h.onward (loop_onward hg hh.busy (.inr (.inr (.inr (.inl rfl)))) hm) rfl rfl
  | freed he _ _ =>
    rw [h.alive] at he
    cases he
  | plain hp hm => exact h.onward (loop_onward hg hh.busy (.inl hp) hm) rfl rfl

/-- `startInLoop` succeeds when the connector is disconnected and `channel_` is empty, or is not
needed. -/
theorem startInLoop_ok {slot : Slot} {rest : List Attempts.Functor} {a : Attempts}
    (hk : Kept slot [] rest a) {savedErrno : ℕ} (hst : a.connector.state_ = .kDisconnected)
    (hch : a.connector.connect_ = true → connectResult savedErrno = .connecting →
      a.connector.channel_ = none) : ∃ b, a.startInLoop savedErrno = .ok b := by
  rw [startInLoop_eq hk, if_neg (not_not.2 hst)]
  split_ifs with hc hslot
  · exact ⟨_, rfl⟩
  · have hconnect : a.connector.connect_ = true := Bool.eq_true_of_not_eq_false hc
    exact (hslot.2 (hk.channel_eq_none_iff.1 (hch hconnect hslot.1))).elim
  · exact ⟨_, rfl⟩

/-- A retry timer is the one driver, so that it finds the connector disconnected. -/
theorem Calm.runTimer_ok {slot : Slot} {s : ClientLoop} (h : Calm s) (hg : Good slot s.loop)
    (hh : Held s) {timer : RetryTimer} {savedErrno : ℕ} {expired : List RetryTimer}
    {active : List Source} (hph : s.loop.phase = .timers expired active) (hmem : timer ∈ expired)
    (hheed : Heeds s (.loop (.runTimer timer savedErrno))) :
    ∃ b, s.loop.attempts.startInLoop savedErrno = .ok b := by
  have hk := hg.kept
  have hone := h.one
  have hlen := List.length_pos_of_mem hmem
  have hst : s.loop.attempts.connector.state_ = .kDisconnected := by
    refine state_of_driving ?_
    unfold drivers at hone
    rw [hph] at hone
    change _ + expired.length + _ ≤ 1 at hone
    omega
  rw [hph] at hk
  refine startInLoop_ok hk hst fun hc hr => ?_
  have hresets := hk.resets
  change resets s.loop.attempts.pendingFunctors = slot.resets at hresets
  rw [hheed hc hr] at hresets
  cases slot with
  | empty => exact hk.channel
  | inProgress k => exact (Busy.not_watched hh.busy hst k hk.channel).elim
  | removed k => cases hresets

/-- **A step that meets the condition does not fail.** -/
theorem calm_ok {slot : Slot} {s : ClientLoop} {l : Label} (hg : Good slot s.loop)
    (hh : Held s) (h : Calm s) (hheed : Heeds s l) (e : Failure) :
    step s l ≠ some (.error e) := by
  intro hs
  have hk := hg.kept
  have hqueued := h.queued
  cases step_fails hs with
  | connect ha =>
    obtain ⟨b, hb⟩ := startInLoop_ok (hk.setConnect true) hheed.1.state fun _ => hheed.2
    cases hb.symm.trans ha
  | removeConnection hne hp ha =>
    have hkept := ((hk.setState .kDisconnected (by decide)).setRetryDelayMs
      kInitRetryDelayMs).setConnect true
    obtain ⟨b, hb⟩ := startInLoop_ok hkept rfl fun _ _ => hh.reset hne hp
    cases hb.symm.trans ha
  | @handleEvent soError selfConnect sockfd revents active f hph ha =>
    have hprog := hg.inProgress hph
    rw [handleEvent_inProgress hprog (hh.busy sockfd hprog.channel)] at ha
    cases ha
  | runTimer hph hmem ha =>
    obtain ⟨b, hb⟩ := h.runTimer_ok hg hh hph hmem hheed
    cases hb.symm.trans ha
  | @functor savedErrno g rest f hph ha =>
    cases g with
    | startInLoop =>
      rw [hph] at hqueued
      change _ + starts (([.startInLoop] ++ rest) ++ s.loop.attempts.pendingFunctors) = 0 at hqueued
      rw [List.append_assoc, starts_append] at hqueued
      change _ + (1 + _) = 0 at hqueued
      omega
    | cancelInLoop timerId => cases ha
    | resetChannel k => cases ha
  | destructor he =>
    rw [h.alive] at he
    cases he

theorem new_calm : Calm new := by
  refine ⟨rfl, rfl, Nat.zero_le 1, fun hst => ?_⟩
  cases hst

theorem reach_calm {s : ClientLoop}
    (h : Reach (Moves step) (fun s l => OnLoopThread l ∧ Heeds s l) new s) :
    (∃ slot, Good slot s.loop) ∧ Held s ∧ Calm s :=
  h.invariant (I := fun s => (∃ slot, Good slot s.loop) ∧ Held s ∧ Calm s)
    ⟨⟨_, ConnectorLoop.new_good⟩, new_held, new_calm⟩ fun x l y hx hl hs => by
      obtain ⟨⟨slot, hg⟩, hh, hc⟩ := hx
      exact ⟨step_good hg hs, step_held hg hh hs, step_calm hg hh hc hl.1 hl.2 hs⟩

/-! ### Calls of `connect` -/

/-- The call succeeds and makes an attempt to connect. -/
def Connects (s : ClientLoop) (savedErrno : ℕ) : Prop :=
  ∃ t, Moves step s (.connect savedErrno) t ∧
    t.loop.attempts.created = s.loop.attempts.created + 1

theorem connects_iff {slot : Slot} {s : ClientLoop} (hg : Good slot s.loop)
    (ha : s.life = .alive) (savedErrno : ℕ) :
    Connects s savedErrno ↔ s.connector.state_ = .kDisconnected ∧
      (connectResult savedErrno = .connecting → s.connector.channel_ = none) := by
  have hk := hg.kept.setConnect true
  constructor
  · rintro ⟨t, hs, -⟩
    cases step_cases hs with
    | connect _ hm =>
      cases ConnectorLoop.step_cases hm with
      | start hstart =>
        have hst : s.connector.state_ = .kDisconnected := (require_bind_ok.1 hstart).1
        refine ⟨hst, fun hr => by_contra fun hne => ?_⟩
        have hslot := mt hk.channel_eq_none_iff.2 hne
        change (s.loop.attempts.setConnect true).startInLoop savedErrno = _ at hstart
        rw [startInLoop_eq hk] at hstart
        split_ifs at hstart with _ hnot hcond
        · cases hnot
        · exact hcond ⟨hr, hslot⟩
  · rintro ⟨hst, hch⟩
    obtain ⟨b, hb⟩ := startInLoop_ok hk hst fun _ => hch
    have hcreated := startInLoop_created hk rfl hb
    refine ⟨{ s with connect_ := true, loop := s.loop.put b }, ?_, hcreated⟩
    show step s (.connect savedErrno) = _
    simp only [step, clientStep, onLoop, ConnectorLoop.step, ConnectorLoop.callStep, if_pos ha]
    rw [show s.loop.attempts.start savedErrno = .ok b from hb]
    rfl

/-- **When `connect` makes an attempt**, in every run. -/
theorem connect_iff {s : ClientLoop} (h : Reach (Moves step) Always new s) (ha : s.life = .alive)
    (savedErrno : ℕ) : Connects s savedErrno ↔ s.connector.state_ = .kDisconnected ∧
      (connectResult savedErrno = .connecting → s.connector.channel_ = none) := by
  obtain ⟨⟨slot, hg⟩, -⟩ := reach_held h
  exact connects_iff hg ha savedErrno

/-- **`start` is safe when the connector is idle.** In a run whose steps meet the condition no step
that meets it fails, a call of `connect` makes an attempt, and a connector whose client has no
connection is disconnected, or an attempt is under way. -/
theorem start_safe {s : ClientLoop}
    (h : Reach (Moves step) (fun s l => OnLoopThread l ∧ Heeds s l) new s) :
    (∀ l e, Heeds s l → step s l ≠ some (.error e)) ∧
    (∀ savedErrno, Heeds s (.connect savedErrno) → Connects s savedErrno) ∧
    (s.connection_ = none → s.connector.state_ = .kDisconnected ∨
      s.connector.state_ = .kConnecting ∧ ∃ k, s.loop.attempts.InProgress k) := by
  obtain ⟨⟨slot, hg⟩, hh, hc⟩ := reach_calm h
  refine ⟨fun l e hheed => calm_ok hg hh hc hheed e, fun savedErrno hheed => ?_, fun hnone => ?_⟩
  · exact (connects_iff hg hc.alive savedErrno).2 ⟨hheed.1.state, hheed.2⟩
  · cases hst : s.connector.state_ with
    | kDisconnected => exact .inl rfl
    | kConnecting =>
      obtain ⟨k, hslot⟩ := hg.kept.connecting hst
      exact .inr ⟨rfl, k, (hg.kept.inProgress_iff k).2 hslot⟩
    | kConnected => exact (hc.connection hst hnone).elim

/-! Two attempts are refused, and `connect` is called again after `stop`. -/

def refusedTwice : List Label :=
  [.connect ECONNREFUSED, .loop (.tick 500000), .loop (.poll [.timerfd]), .loop .getExpired,
    .loop (.runTimer ⟨0, 500000⟩ EINPROGRESS), .loop .endTimers, .loop .swap, .loop .endFunctors,
    .loop (.poll [.channel 1 (POLLERR ||| POLLHUP ||| POLLOUT)]),
    .loop (.handleEvent ECONNREFUSED false), .stop, .loop .swap, .loop (.functor 0),
    .loop .endFunctors]

theorem start_safe_refusedTwice :
    ∃ s : ClientLoop, s.loop.attempts.created = 2 ∧ Connects s EINPROGRESS := by
  obtain ⟨s, hs, hp⟩ := exists_reach_of_run step (fun s l => OnLoopThread l ∧ Heeds s l) new
    refusedTwice (fun s => decide (s.loop.attempts.created = 2 ∧ Heeds s (.connect EINPROGRESS)))
    (by decide)
  obtain ⟨hcreated, hheed⟩ := of_decide_eq_true hp
  exact ⟨s, hcreated, (start_safe hs).2.1 EINPROGRESS hheed⟩

/-! ### A connector that is stuck -/

/-- The connector is connected, and its client has no connection. -/
def Stuck (s : ClientLoop) : Prop := s.connector.state_ = .kConnected ∧ s.connection_ = none

/-- An attempt that succeeds after it has been stopped, and a connection that is removed and is not
made again, leave the connector stuck; nothing else does. -/
theorem stuck_iff {s t : ClientLoop} {l : Label}
    (h : Reach (Moves step) (fun s l => OnLoopThread l ∧ Heeds s l) new s) (hl : OnLoopThread l)
    (hconnect : ∀ savedErrno, l ≠ .connect savedErrno)
    (hrunTimer : ∀ timer savedErrno, l ≠ .loop (.runTimer timer savedErrno))
    (hs : Moves step s l t) : Stuck t ↔ ¬ Heeds s l := by
  obtain ⟨⟨slot, hg⟩, hh, hc⟩ := reach_calm h
  refine ⟨fun hst hheed => ?_, fun hno => ?_⟩
  · exact (step_calm hg hh hc hl hheed hs).connection hst.1 hst.2
  cases step_cases hs with
  | connect _ _ => exact (hconnect _ rfl).elim
  | removed _ hne _ _ => exact ⟨hh.connected hne, rfl⟩
  | restarted _ _ _ hretry hconn _ => exact (hno ⟨hretry, hconn⟩).elim
  | handleEvent hm =>
    cases ConnectorLoop.step_cases hm with
    | @handleEvent soError selfConnect sockfd revents active a hph ha =>
      have hk := hg.inProgress hph
      have hst := hh.busy sockfd hk.channel
      obtain ⟨hest, hnot⟩ := Classical.not_imp.1 hno
      unfold Establishes at hest
      rw [hph] at hest
      obtain ⟨hconn, hhanded⟩ := handleEvent_succeeded hk hst hest ha
      rw [if_neg (show ¬ s.loop.attempts.connector.connect_ = true from hnot)] at hhanded
      rw [newConnection_same hhanded]
      exact ⟨hconn, hh.unconnected (by rw [hst]; decide)⟩
  | foreign _ hf _ => exact (hl hf).elim
  | @plain l u hp _ =>
    cases l
    case runTimer => exact (hrunTimer _ _ rfl).elim
    all_goals first | exact hp.elim | exact (hno trivial).elim
  | _ => exact (hno trivial).elim

/-- A connector that is connected makes no attempt until it is restarted. -/
theorem loop_connected {slot : Slot} {s : ClientLoop} (hg : Good slot s.loop) (hh : Held s)
    (hst : s.connector.state_ = .kConnected) {l : ConnectorLoop.Label} {t : ConnectorLoop}
    (hl : ∀ savedErrno, l ≠ .restart savedErrno) (hs : Moves ConnectorLoop.step s.loop l t) :
    (∀ soError selfConnect, l ≠ .handleEvent soError selfConnect) ∧
      t.attempts.connector.state_ = .kConnected ∧
      t.attempts.created = s.loop.attempts.created := by
  have hno : ∀ {savedErrno : ℕ} {a b : Attempts}, a.connector.state_ = .kConnected →
      a.startInLoop savedErrno ≠ .ok b := fun {_ a _} hconn ha => by
    have hdis := (require_bind_ok.1 ha).1
    rw [hconn] at hdis
    cases hdis
  cases ConnectorLoop.step_cases hs with
  | start ha => exact (hno (a := s.loop.attempts.setConnect true) hst ha).elim
  | restart _ => exact (hl _ rfl).elim
  | @handleEvent _ _ sockfd _ _ _ hph ha =>
    have hbusy := hh.busy sockfd (hg.inProgress hph).channel
    rw [hst] at hbusy
    cases hbusy
  | runTimer _ _ ha => exact (hno hst ha).elim
  | @functor _ f _ _ _ ha =>
    refine ⟨fun _ _ h => ConnectorLoop.Label.noConfusion h, ?_⟩
    cases f with
    | startInLoop => exact (hno hst ha).elim
    | cancelInLoop timerId =>
      cases ha
      exact ⟨hst, rfl⟩
    | resetChannel k =>
      cases ha
      exact ⟨hst, rfl⟩
  | _ => exact ⟨fun _ _ h => ConnectorLoop.Label.noConfusion h, hst, rfl⟩

theorem step_stuck {slot : Slot} {s t : ClientLoop} {l : Label} (hg : Good slot s.loop)
    (hh : Held s) (h : Stuck s) (hs : Moves step s l t) :
    Stuck t ∧ t.loop.attempts.created = s.loop.attempts.created := by
  obtain ⟨hst, hnone⟩ := h
  cases step_cases hs with
  | connect _ hm =>
    obtain ⟨-, hconn, hcreated⟩ := loop_connected hg hh hst (by rintro _ ⟨⟩) hm
    exact ⟨⟨hconn, hnone⟩, hcreated⟩
  | removed _ hne _ _ => exact (hne hnone).elim
  | restarted _ hne _ _ _ _ => exact (hne hnone).elim
  | @foreign l _ _ hf hm =>
    obtain ⟨-, hconn, hcreated⟩ := loop_connected hg hh hst (by rintro _ rfl; exact hf) hm
    exact ⟨⟨hconn, hnone⟩, hcreated⟩
  | poll hm =>
    obtain ⟨-, hconn, hcreated⟩ := loop_connected hg hh hst (by rintro _ ⟨⟩) hm
    exact ⟨⟨hconn, hnone⟩, hcreated⟩
  | handleEvent hm => exact ((loop_connected hg hh hst (by rintro _ ⟨⟩) hm).1 _ _ rfl).elim
  | getExpired hm =>
    obtain ⟨-, hconn, hcreated⟩ := loop_connected hg hh hst (by rintro _ ⟨⟩) hm
    exact ⟨⟨hconn, hnone⟩, hcreated⟩
  | endTimers _ hm =>
    obtain ⟨-, hconn, hcreated⟩ := loop_connected hg hh hst (by rintro _ ⟨⟩) hm
    exact ⟨⟨hconn, hnone⟩, hcreated⟩
  | freed _ hm hfree =>
    obtain ⟨-, hconn, hcreated⟩ := loop_connected hg hh hst (by rintro _ ⟨⟩) hm
    cases (require_bind_ok.1 hfree).2
    exact ⟨⟨hconn, hnone⟩, hcreated⟩
  | @plain l _ hp hm =>
    obtain ⟨-, hconn, hcreated⟩ := loop_connected hg hh hst (by rintro _ rfl; exact hp) hm
    exact ⟨⟨hconn, hnone⟩, hcreated⟩
  | _ => exact ⟨⟨hst, hnone⟩, rfl⟩

/-- **A stuck connector stays stuck**: no attempt is made any more, whatever is called. -/
theorem stuck_forever {C : ClientLoop → Label → Prop} {s t : ClientLoop}
    (h : Reach (Moves step) Always new s) (hst : Stuck s) (ht : Reach (Moves step) C s t) :
    Stuck t ∧ t.loop.attempts.created = s.loop.attempts.created := by
  have hinv := ht.invariant (I := fun t => ((∃ slot, Good slot t.loop) ∧ Held t) ∧ Stuck t ∧
    t.loop.attempts.created = s.loop.attempts.created) ⟨reach_held h, hst, rfl⟩ ?_
  · exact hinv.2
  intro x l y hx _ hs
  obtain ⟨⟨⟨slot, hg⟩, hh⟩, hstuck, hcreated⟩ := hx
  obtain ⟨hstuck', hcreated'⟩ := step_stuck hg hh hstuck hs
  exact ⟨⟨step_good hg hs, step_held hg hh hs⟩, hstuck', hcreated'.trans hcreated⟩

/-! ### Runs in which `connect` fails -/

/-- The events of an attempt for socket 0 that succeeds, and the rest of the iteration. -/
def established : List Label :=
  [.connect EINPROGRESS, .loop (.poll [.channel 0 POLLOUT]), .loop (.handleEvent 0 false),
    .loop .swap, .loop (.functor 0), .loop .endFunctors]

/-- A run on the loop thread is followed by a step that fails. -/
def FailsAfter (labels : List Label) (l : Label) (f : Attempts.Failure) : Prop :=
  ∃ s, Path (Moves step) labels new s ∧ (∀ a ∈ labels, OnLoopThread a) ∧
    step s l = some (.error (.connector f))

theorem failsAfter_of_run {labels : List Label} {l : Label} {f : Attempts.Failure}
    (hl : ∀ a ∈ labels, OnLoopThread a) (h : (run step Always new labels).any
      (fun s => fails step s l (.connector f)) = true) : FailsAfter labels l f := by
  obtain ⟨s, hs, hfails⟩ := exists_path_of_run step Always new labels _ h
  exact ⟨s, hs, hl, eq_of_fails hfails⟩

/-- `connect` fails after `stop` during an attempt, and when the connection has been removed; before
the channel of the last attempt has been reset; and a retry timer fails that finds the attempt of a
call of `connect` under way. -/
theorem connect_fails :
    FailsAfter [.connect EINPROGRESS, .stop] (.connect EINPROGRESS) .startState ∧
    FailsAfter (established ++ [.loop (.poll []), .removeConnection 0]) (.connect EINPROGRESS)
      .startState ∧
    FailsAfter [.connect EINPROGRESS, .stop, .loop (.poll [.channel 0 POLLERR]),
      .loop (.handleEvent 0 false)] (.connect EINPROGRESS) .channelNotReset ∧
    FailsAfter [.connect ECONNREFUSED, .connect EINPROGRESS, .loop (.tick 500000),
      .loop (.poll [.timerfd]), .loop .getExpired] (.loop (.runTimer ⟨0, 500000⟩ EINPROGRESS))
      .startState :=
  ⟨failsAfter_of_run (by decide) (by decide), failsAfter_of_run (by decide) (by decide),
    failsAfter_of_run (by decide) (by decide), failsAfter_of_run (by decide) (by decide)⟩

end ClientLoop

end Fppnet
