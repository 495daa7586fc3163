import Fppnet.Net.ClientLoop

/-!
# After `TcpClient::stop`

`stop` clears the two `connect_` and cancels the retry timer of `timerId_`. A `startInLoop` that is
queued, a timer in the batch that is being run and an attempt under way are left.

* `Stopped`: neither `connect_` is set. For a client that is being destroyed it is the one of the
  connector alone, since nothing reads the other any more;
* `step_stopped`: without a call of `connect` a step keeps this, and it creates no socket and hands
  over no connection;
* `stop_stops`: so does every run.
-/

namespace Fppnet

open Checked Runs

open Attempts

namespace ClientLoop

open ConnectorLoop (Good)

/-- No attempt is to be made. -/
structure Stopped (s : ClientLoop) : Prop where
  connector : s.connector.connect_ = false
  client : s.life = .alive → s.connect_ = false

/-- The steps of a call of `connect` that set one of the two `connect_`. -/
def Label.connects : Label → Prop
  | .connect _ | .foreignConnect | .loop .foreignStart => True
  | _ => False

instance (l : Label) : Decidable l.connects :=
  match l with
  | .connect _ | .foreignConnect => inferInstanceAs (Decidable True)
  | .loop l =>
    match l with
    | .foreignStart => inferInstanceAs (Decidable True)
    | .start _ | .restart _ | .stop | .foreignStartQueue | .foreignStop | .foreignStopQueue
    | .poll _ | .handleEvent _ _ | .getExpired | .runTimer _ _ | .endTimers | .swap | .functor _
    | .endFunctors | .tick _ => inferInstanceAs (Decidable False)
  | .disconnect | .stop | .enableRetry | .foreignDisconnect | .removeConnection _ | .destroy =>
    inferInstanceAs (Decidable False)

/-- The condition on a run: no call of `connect`. -/
def NoConnect (_ : ClientLoop) (l : Label) : Prop := ¬ l.connects

instance (s : ClientLoop) (l : Label) : Decidable (NoConnect s l) :=
  inferInstanceAs (Decidable (¬ _))

/-- The calls that set `connect_` of the connector. -/
def SetsConnect : ConnectorLoop.Label → Prop
  | .start _ | .restart _ | .foreignStart => True
  | _ => False

theorem Plain.not_setsConnect {l : ConnectorLoop.Label} (h : Plain l) : ¬ SetsConnect l := by
  cases l <;> simp_all [Plain, SetsConnect]

theorem Foreign.not_setsConnect {l : ConnectorLoop.Label} (h : Foreign l)
    (hl : ¬ Label.connects (.loop l)) : ¬ SetsConnect l := by
  cases l <;> simp_all [Foreign, SetsConnect, Label.connects]

/-! ### The connector -/

/-- The sockets that the connector has created, and those that it has handed over. -/
structure Inactive (a b : Attempts) : Prop where
  connect : b.connector.connect_ = false
  created : b.created = a.created
  handed : b.handed = a.handed

section Connector

variable {slot : Slot} {rest : List Attempts.Functor} {a b : Attempts}

/-- A queued `startInLoop`, or that of a retry timer. -/
theorem startInLoop_inactive (hc : a.connector.connect_ = false) {savedErrno : ℕ}
    (ha : a.startInLoop savedErrno = .ok b) : Inactive a b := by
  have h := (require_bind_ok.1 ha).2
  rw [hc, if_neg (by decide)] at h
  cases h
  exact ⟨hc, rfl, rfl⟩

theorem runFunctor_inactive (hc : a.connector.connect_ = false) {savedErrno : ℕ}
    {f : Attempts.Functor} (ha : a.runFunctor savedErrno f = .ok b) : Inactive a b := by
  cases f with
  | startInLoop => exact startInLoop_inactive hc ha
  | cancelInLoop timerId =>
    cases ha
    exact ⟨hc, rfl, rfl⟩
  | resetChannel k =>
    cases ha
    exact ⟨hc, rfl, rfl⟩

theorem handleEvent_created {k : ℕ} (h : Kept (.inProgress k) [] rest a)
    (hst : a.connector.state_ = .kConnecting) {revents : Events} {soError : ℕ}
    {selfConnect : Bool} (hs : a.handleEvent k revents soError selfConnect = .ok b) :
    b.created = a.created := by
  rw [handleEvent_inProgress h hst] at hs
  cases hs
  split_ifs
  · exact (retry_frame _ _).2
  · unfold finish
    dsimp only
    split_ifs
    · exact (retry_frame _ _).2
    · exact (retry_frame _ _).2
    · rfl
    · rfl
  · rfl

/-- An attempt that ends. -/
theorem handleEvent_inactive {k : ℕ} (h : Kept (.inProgress k) [] rest a)
    (hst : a.connector.state_ = .kConnecting) (hc : a.connector.connect_ = false)
    {revents : Events} {soError : ℕ} {selfConnect : Bool}
    (hs : a.handleEvent k revents soError selfConnect = .ok b) : Inactive a b := by
  obtain ⟨c, hb, hon, -⟩ := handleEvent_driven h hst revents soError selfConnect
  cases hb.symm.trans hs
  refine ⟨hon.connect.trans hc, handleEvent_created h hst hs, ?_⟩
  by_cases hsuc : Succeeds revents soError selfConnect
  · obtain ⟨-, hhanded⟩ := handleEvent_succeeded h hst hsuc hs
    rw [hc, if_neg (by decide)] at hhanded
    exact hhanded
  · exact (handleEvent_failed h hst hsuc hs).2

end Connector

/-! ### The steps -/

/-- The steps of the loop when the connector is not to connect. -/
theorem loop_inactive {slot : Slot} {s : ClientLoop} (hg : Good slot s.loop) (h : Held s)
    (hc : s.connector.connect_ = false) {l : ConnectorLoop.Label} {t : ConnectorLoop}
    (hl : ¬ SetsConnect l) (hs : Moves ConnectorLoop.step s.loop l t) :
    Inactive s.loop.attempts t.attempts := by
  cases ConnectorLoop.step_cases hs with
  | start _ => exact (hl trivial).elim
  | restart _ => exact (hl trivial).elim
  | foreignStart => exact (hl trivial).elim
  | @handleEvent _ _ sockfd _ _ _ hph ha =>
    have hk := hg.inProgress hph
    exact handleEvent_inactive hk (h.busy sockfd hk.channel) hc ha
  | runTimer _ _ ha => exact startInLoop_inactive hc ha
  | functor _ ha => exact runFunctor_inactive hc ha
  | stop => exact ⟨rfl, rfl, rfl⟩
  | foreignStop => exact ⟨rfl, rfl, rfl⟩
  | foreignStartQueue _ => exact ⟨hc, rfl, rfl⟩
  | foreignStopQueue _ => exact ⟨hc, rfl, rfl⟩
  | poll _ _ => exact ⟨hc, rfl, rfl⟩
  | getExpired _ => exact ⟨hc, rfl, rfl⟩
  | endTimers _ => exact ⟨hc, rfl, rfl⟩
  | swap _ => exact ⟨hc, rfl, rfl⟩
  | endFunctors _ => exact ⟨hc, rfl, rfl⟩
  | tick => exact ⟨hc, rfl, rfl⟩

/-- A client that is being destroyed does not come back. -/
theorem alive_back {s t : ClientLoop} {l : Label} (hs : Moves step s l t) (ht : t.life = .alive) :
    s.life = .alive := by
  cases step_cases hs with
  | connect ha => exact ha
  | disconnect ha => exact ha
  | stop ha => exact ha
  | enableRetry ha => exact ha
  | foreignConnect ha => exact ha
  | foreignDisconnect ha => exact ha
  | removed ha => exact ha
  | restarted ha => exact ha
  | destroy ha => exact ha
  | foreign ha => exact ha
  | poll _ => exact ht
  | handleEvent _ =>
    rw [(newConnection_frame _ _).2.2.2] at ht
    exact ht
  | getExpired _ =>
    change s.collect = .alive at ht
    unfold collect at ht
    split at ht
    · split_ifs at ht with hdue
      exact ht
    · exact ht
  | endTimers _ _ => exact ht
  | freed _ _ hfree =>
    cases (require_bind_ok.1 hfree).2
    cases ht
  | plain _ _ => exact ht

/-- **Without a call of `connect` nothing is connected.** -/
theorem step_stopped {slot : Slot} {s t : ClientLoop} {l : Label} (hg : Good slot s.loop)
    (h : Held s) (hst : Stopped s) (hl : s.life = .alive → ¬ l.connects)
    (hs : Moves step s l t) : Stopped t ∧ Inactive s.loop.attempts t.loop.attempts := by
  have hc := hst.connector
  suffices Inactive s.loop.attempts t.loop.attempts ∧ (t.life = .alive → t.connect_ = false) from
    ⟨⟨this.1.connect, this.2⟩, this.1⟩
  have hback := alive_back hs
  cases step_cases hs with
  | connect ha _ => exact (hl ha trivial).elim
  | disconnect _ => exact ⟨⟨hc, rfl, rfl⟩, fun _ => rfl⟩
  | stop _ => exact ⟨⟨rfl, rfl, rfl⟩, fun _ => rfl⟩
  | enableRetry _ => exact ⟨⟨hc, rfl, rfl⟩, hst.client⟩
  | foreignConnect ha => exact (hl ha trivial).elim
  | foreignDisconnect _ => exact ⟨⟨hc, rfl, rfl⟩, fun _ => rfl⟩
  | removed _ _ _ _ => exact ⟨⟨hc, rfl, rfl⟩, hst.client⟩
  | restarted ha _ _ _ hconnect _ =>
    rw [hst.client ha] at hconnect
    cases hconnect
  | destroy _ _ _ => exact ⟨⟨rfl, rfl, rfl⟩, fun ha => ClientLife.noConfusion ha⟩
  | foreign ha hl' hm =>
    exact ⟨loop_inactive hg h hc (hl'.not_setsConnect (hl ha)) hm, hst.client⟩
  | poll hm =>
    exact ⟨loop_inactive hg h hc id hm, hst.client⟩
  | handleEvent hm =>
    obtain ⟨hloop, hconnect, -, -⟩ := newConnection_frame
      { s with loop := _ } s.loop.attempts.handed.length
    refine ⟨?_, fun ha => ?_⟩
    · rw [hloop]
      exact loop_inactive hg h hc id hm
    · rw [hconnect]
      exact hst.client (hback ha)
  | getExpired hm =>
    exact ⟨loop_inactive hg h hc id hm,
      fun ha => hst.client (hback ha)⟩
  | endTimers _ hm =>
    exact ⟨loop_inactive hg h hc id hm, hst.client⟩
  | freed _ hm hfree =>
    have hin := loop_inactive hg h hc id hm
    cases (require_bind_ok.1 hfree).2
    exact ⟨⟨hin.connect, hin.created, hin.handed⟩, fun ha => ClientLife.noConfusion ha⟩
  | plain hl' hm => exact ⟨loop_inactive hg h hc hl'.not_setsConnect hm, hst.client⟩

/-- The same for runs. -/
theorem reach_stopped {C : ClientLoop → Label → Prop} {s t : ClientLoop}
    (hs : (∃ slot, Good slot s.loop) ∧ Held s) (hst : Stopped s)
    (hC : ∀ x l, C x l → x.life = .alive → ¬ l.connects) (h : Reach (Moves step) C s t) :
    Stopped t ∧ Inactive s.loop.attempts t.loop.attempts := by
  have hinv := h.invariant (I := fun t => ((∃ slot, Good slot t.loop) ∧ Held t) ∧ Stopped t ∧
    Inactive s.loop.attempts t.loop.attempts) ⟨hs, hst, hst.connector, rfl, rfl⟩ ?_
  · exact hinv.2
  intro x l y hx hl hm
  obtain ⟨⟨⟨slot, hg⟩, hheld⟩, hstopped, hin⟩ := hx
  obtain ⟨hstopped', hin'⟩ := step_stopped hg hheld hstopped (hC x l hl) hm
  exact ⟨⟨step_good hg hm, step_held hg hheld hm⟩, hstopped', hin'.connect,
    hin'.created.trans hin.created, hin'.handed.trans hin.handed⟩

/-- **`stop` stops.** From the return of `stop` to the next call of `connect` no socket is created
and `newConnectionCallback_` is not called, in every run: not by a `startInLoop` that is queued, nor
by an attempt under way, a retry timer, or the removal of a connection. -/
theorem stop_stops {s u t : ClientLoop} (hs : Reach (Moves step) Always new s)
    (hstop : Moves step s .stop u) (ht : Reach (Moves step) NoConnect u t) :
    t.loop.attempts.created = u.loop.attempts.created ∧
    t.loop.attempts.handed = u.loop.attempts.handed := by
  obtain ⟨⟨slot, hg⟩, hheld⟩ := reach_held hs
  have hu : Stopped u := by
    cases step_cases hstop with
    | stop _ => exact ⟨rfl, fun _ => rfl⟩
  obtain ⟨-, hin⟩ := reach_stopped ⟨step_good hg hstop, step_held hg hheld hstop⟩ hu
    (fun _ _ hl _ => hl) ht
  exact ⟨hin.created, hin.handed⟩

/-! `stop` is called while an attempt is under way, which then succeeds. -/

def connectedAfterwards : List Label :=
  [.loop (.poll [.channel 0 POLLOUT]), .loop (.handleEvent 0 false), .loop .swap,
    .loop (.functor 0)]

theorem stop_stops_underWay : ∃ u t : ClientLoop, u.connector.state_ = .kConnecting ∧
    t.connector.state_ = .kConnected ∧ t.loop.attempts.closed 0 = 1 ∧
    t.loop.attempts.created = u.loop.attempts.created ∧
    t.loop.attempts.handed = u.loop.attempts.handed := by
  obtain ⟨s, hs, hp⟩ := exists_reach_of_run step Always new [.connect EINPROGRESS]
    (fun s => decide ((next step s .stop).connector.state_ = .kConnecting ∧
      succeeds step s .stop = true ∧
      (run step NoConnect (next step s .stop) connectedAfterwards).any
        (fun t => decide (t.connector.state_ = .kConnected ∧ t.loop.attempts.closed 0 = 1)) = true))
    (by decide)
  obtain ⟨hst, hstop, hany⟩ := of_decide_eq_true hp
  obtain ⟨t, ht, hpt⟩ := exists_reach_of_run step NoConnect (next step s .stop)
    connectedAfterwards _ hany
  obtain ⟨hconnected, hclosed⟩ := of_decide_eq_true hpt
  exact ⟨next step s .stop, t, hst, hconnected, hclosed, stop_stops hs (moves_next hstop) ht⟩

end ClientLoop

end Fppnet
