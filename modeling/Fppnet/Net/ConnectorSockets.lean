import Fppnet.Net.Connector

/-!
# The sockets of a connector

* `Slot` says what `channel_` holds: nothing, the channel of the socket in progress, or the channel
  that `removeAndResetChannel` has removed and `resetChannel` is to destroy;
* `Kept` ties the poller, the queued `resetChannel` and the accounts of the sockets to it. The
  accounts are balanced also for the socket that only a local variable knows;
* there is one equation for each function (`startInLoop_eq`, `handleError_eq`, `handleWrite_eq`,
  `handleEvent_eq`), and every function keeps the accounts.
-/

namespace Fppnet

open Checked Runs

namespace Attempts

/-! ### What `channel_` holds -/

/-- The channel of a socket in progress. -/
def watched (k : ℕ) : Channel := (Channel.new k).enableWriting.set_index EPoller.kAdded

/-- The channel that `removeAndResetChannel` leaves. -/
def unwatched (k : ℕ) : Channel := (watched k).disableAll.set_index EPoller.kNew

/-- `channel_` is empty, registered, or removed from the poller and not yet reset. -/
inductive Slot
  | empty
  | inProgress (k : ℕ)
  | removed (k : ℕ)
  deriving DecidableEq

namespace Slot

def channel : Slot → Option Channel
  | empty => none
  | inProgress k => some (watched k)
  | removed k => some (unwatched k)

def poller : Slot → EPoller ℕ
  | inProgress k => ⟨Function.update (fun _ => none) k (some k),
      Function.update (fun _ => none) k (some ((watched k).events_, k))⟩
  | _ => EPoller.empty

/-- The descriptors in the queued `resetChannel`. -/
def resets : Slot → List ℕ
  | removed k => [k]
  | _ => []

/-- The sockets in progress. -/
def holds : Slot → List ℕ
  | inProgress k => [k]
  | _ => []

end Slot

/-- The descriptors in the `resetChannel` of a list of functors. -/
def resets (q : List Attempts.Functor) : List ℕ :=
  q.filterMap fun
    | .resetChannel k => some k
    | _ => none

@[simp] theorem resets_append (q q' : List Attempts.Functor) :
    resets (q ++ q') = resets q ++ resets q' := List.filterMap_append

@[simp] theorem resets_nil : resets [] = [] := rfl

@[simp] theorem resets_startInLoop (q : List Attempts.Functor) :
    resets (.startInLoop :: q) = resets q := rfl

@[simp] theorem resets_cancelInLoop (timerId : Option ℕ) (q : List Attempts.Functor) :
    resets (.cancelInLoop timerId :: q) = resets q := rfl

@[simp] theorem resets_resetChannel (k : ℕ) (q : List Attempts.Functor) :
    resets (.resetChannel k :: q) = k :: resets q := rfl

/-- The state when socket `k` is in progress. -/
def inProgress (a : Attempts) (k : ℕ) : Attempts :=
  { a.setState .kConnecting with poller := (Slot.inProgress k).poller }.setChannel
    (some (watched k))

/-- The state when the channel of socket `k` has been removed. -/
def removed (a : Attempts) (k : ℕ) : Attempts :=
  ({ a with poller := EPoller.empty }.setChannel (some (unwatched k))).queueInLoop
    (.resetChannel k)

/-- What `handleWrite` does with the removed socket. -/
def finish (a : Attempts) (k soError : ℕ) (selfConnect : Bool) : Attempts :=
  if soError ≠ 0 then a.retry k
  else if selfConnect then a.retry k
  else
    let a := a.setState .kConnected
    if a.connector.connect_ then
      { a with handed := a.handed ++ [⟨k, soError, selfConnect, a.connector.connect_⟩] }
    else a.close k

/-- Registering a new channel. -/
theorem connecting_eq {a : Attempts} (hch : a.connector.channel_ = none)
    (hp : a.poller = EPoller.empty) (k : ℕ) : a.connecting k = .ok (a.inProgress k) := by
  have hch' : (a.setState .kConnecting).connector.channel_.isNone = true := by
    show a.connector.channel_.isNone = true
    rw [hch]
    rfl
  have hagree : (EPoller.empty : EPoller ℕ).Agrees k (Channel.new k).enableWriting :=
    .inl ⟨rfl, rfl, rfl⟩
  have hdrops : ¬ EPoller.Drops (Channel.new k).enableWriting := fun hd =>
    absurd hd.1 (by decide : (-1 : ℤ) ≠ 1)
  have hup : (a.setState .kConnecting).poller.updateChannel k (Channel.new k).enableWriting =
      .ok ((Slot.inProgress k).poller, watched k) := by
    show a.poller.updateChannel k (Channel.new k).enableWriting = _
    rw [hp, (EPoller.updateChannel_agrees hagree).1]
    simp only [EPoller.updated, EPoller.updatedIndex, if_neg hdrops]
    rfl
  unfold connecting
  dsimp only
  rw [require_of hch', ok_bind]
  unfold update
  rw [show (Channel.new k).enableWriting.fd_ = k from rfl, hup]
  rfl

/-- Removing the channel of a socket in progress. -/
theorem removeAndResetChannel_eq {a : Attempts} {k : ℕ}
    (hch : a.connector.channel_ = some (watched k)) (hp : a.poller = (Slot.inProgress k).poller) :
    a.removeAndResetChannel = .ok (a.removed k, k) := by
  have hagree : a.poller.Agrees k (watched k).disableAll := by
    rw [hp]
    refine .inr (.inl ⟨rfl, ?_, (watched k).events_, ?_⟩)
    · exact Function.update_self k (some k) fun _ => none
    · exact Function.update_self k (some ((watched k).events_, k)) fun _ => none
  have hdrops : EPoller.Drops (watched k).disableAll := ⟨rfl, Channel.isNoneEvent_disableAll _⟩
  obtain ⟨hup, hdisabled⟩ := EPoller.updateChannel_agrees hagree
  rw [EPoller.updatedIndex, if_pos hdrops] at hup hdisabled
  have hnone : ((watched k).disableAll.set_index EPoller.kDeleted).isNoneEvent = true :=
    Channel.isNoneEvent_disableAll (watched k)
  obtain ⟨ep, hrem, hgone⟩ := EPoller.removeChannel_agrees hdisabled
    (by decide : EPoller.kDeleted ≠ EPoller.kNew) hnone
  have hep : ep = EPoller.empty := by
    obtain ⟨hc, hi, -⟩ := EPoller.removeChannel_ok hrem
    have hint : ep.interest k = none := by
      rcases hgone with ⟨-, -, h⟩ | ⟨h, -⟩ | ⟨h, -⟩
      · exact h
      · exact absurd h (by decide : EPoller.kNew ≠ EPoller.kAdded)
      · exact absurd h (by decide : EPoller.kNew ≠ EPoller.kDeleted)
    obtain ⟨channels_, interest⟩ := ep
    have h₁ : channels_ = fun _ => none := by
      refine hc.trans (funext fun n => ?_)
      simp [EPoller.updated, hp, Slot.poller, Function.update_apply, Channel.set_index,
        Channel.disableAll, watched, Channel.new, Channel.enableWriting]
    have h₂ : interest = fun _ => none := by
      funext n
      by_cases hn : n = k
      · rw [hn]
        exact hint
      · refine (hi n hn).trans ?_
        simp [EPoller.updated, hp, Slot.poller, hn, Channel.disableAll, watched, Channel.new,
          Channel.enableWriting, Channel.set_index]
    rw [h₁, h₂]
    rfl
  rw [hep] at hrem
  unfold removeAndResetChannel
  rw [hch]
  dsimp only
  rw [show (watched k).fd_ = k from rfl, hup]
  show ((EPoller.removeChannel _ k _).mapError Failure.poller >>= _) = _
  rw [hrem]
  rfl

/-! ### The accounts of the sockets -/

/-- How often a socket has been passed to `newConnectionCallback_`. -/
def passed (a : Attempts) (k : ℕ) : ℕ := (a.handed.map Handover.sockfd).count k

/-- What must have been found out about a socket that is passed on. -/
def Handover.Justified (h : Handover) : Prop :=
  h.soError = 0 ∧ h.selfConnect = false ∧ h.connect_ = true

/-- `held` are the sockets that only a local variable knows, `rest` the functors of the batch that
the loop is running. -/
structure Kept (slot : Slot) (held : List ℕ) (rest : List Attempts.Functor) (a : Attempts) :
    Prop where
  channel : a.connector.channel_ = slot.channel
  poller : a.poller = slot.poller
  resets : resets (rest ++ a.pendingFunctors) = slot.resets
  connecting : a.connector.state_ = .kConnecting → ∃ k, slot = .inProgress k
  balance : ∀ k, a.closed k + a.passed k + (slot.holds ++ held).count k =
    if k < a.created then 1 else 0
  justified : ∀ h ∈ a.handed, h.Justified

namespace Kept

variable {slot : Slot} {held : List ℕ} {rest : List Attempts.Functor} {a b : Attempts} {k : ℕ}

theorem setState (h : Kept slot held rest a) (st : ConnectorState) (hst : st ≠ .kConnecting) :
    Kept slot held rest (a.setState st) :=
  ⟨h.channel, h.poller, h.resets, fun hc => absurd hc hst, h.balance, h.justified⟩

theorem setConnect (h : Kept slot held rest a) (c : Bool) :
    Kept slot held rest (a.setConnect c) :=
  ⟨h.channel, h.poller, h.resets, h.connecting, h.balance, h.justified⟩

theorem setRetryDelayMs (h : Kept slot held rest a) (ms : ℕ) :
    Kept slot held rest (a.setRetryDelayMs ms) :=
  ⟨h.channel, h.poller, h.resets, h.connecting, h.balance, h.justified⟩

theorem tick (h : Kept slot held rest a) (d : ℕ) : Kept slot held rest (a.tick d) :=
  ⟨h.channel, h.poller, h.resets, h.connecting, h.balance, h.justified⟩

theorem runAfter (h : Kept slot held rest a) : Kept slot held rest a.runAfter :=
  ⟨h.channel, h.poller, h.resets, h.connecting, h.balance, h.justified⟩

theorem cancelInLoop (h : Kept slot held rest a) (timerId : Option ℕ) :
    Kept slot held rest (a.cancelInLoop timerId) :=
  ⟨h.channel, h.poller, h.resets, h.connecting, h.balance, h.justified⟩

theorem queueInLoop (h : Kept slot held rest a) {f : Attempts.Functor}
    (hf : Attempts.resets [f] = []) : Kept slot held rest (a.queueInLoop f) := by
  refine ⟨h.channel, h.poller, ?_, h.connecting, h.balance, h.justified⟩
  show Attempts.resets (rest ++ (a.pendingFunctors ++ [f])) = _
  rw [← List.append_assoc, resets_append, hf, List.append_nil]
  exact h.resets

/-- The next functor of the batch is taken, and it is no `resetChannel`. -/
theorem popped {f : Attempts.Functor} (h : Kept slot held (f :: rest) a)
    (hf : Attempts.resets [f] = []) : Kept slot held rest a := by
  refine ⟨h.channel, h.poller, ?_, h.connecting, h.balance, h.justified⟩
  have hr := h.resets
  rw [List.cons_append, ← List.singleton_append, resets_append, hf, List.nil_append] at hr
  exact hr

theorem close (h : Kept slot [k] rest a) : Kept slot [] rest (a.close k) := by
  refine ⟨h.channel, h.poller, h.resets, h.connecting, fun n => ?_, h.justified⟩
  have hn := h.balance n
  rw [List.count_append, List.count_singleton] at hn
  show Function.update a.closed k (a.closed k + 1) n + a.passed n + _ =
    if n < a.created then 1 else 0
  rw [← hn, List.append_nil]
  by_cases hnk : n = k
  · subst hnk
    simp
    omega
  · simp [Function.update_of_ne hnk, Ne.symm hnk]

/-- A new socket. -/
theorem create (h : Kept slot [] rest a) :
    Kept slot [a.created] rest { a with created := a.created + 1 } := by
  refine ⟨h.channel, h.poller, h.resets, h.connecting, fun n => ?_, h.justified⟩
  have hn := h.balance n
  rw [List.append_nil] at hn
  show a.closed n + a.passed n + _ = if n < a.created + 1 then 1 else 0
  rw [List.count_append, List.count_singleton, ← add_assoc, hn]
  simp only [beq_iff_eq]
  split_ifs <;> omega

theorem inProgress (h : Kept .empty [k] rest a) : Kept (.inProgress k) [] rest (a.inProgress k) :=
  ⟨rfl, rfl, h.resets, fun _ => ⟨k, rfl⟩, h.balance, h.justified⟩

theorem removed (h : Kept (.inProgress k) [] rest a) (st : ConnectorState)
    (hst : st ≠ .kConnecting) : Kept (.removed k) [k] rest ((a.removed k).setState st) := by
  refine ⟨rfl, rfl, ?_, fun hc => absurd hc hst, h.balance, h.justified⟩
  show Attempts.resets (rest ++ (a.pendingFunctors ++ [.resetChannel k])) = [k]
  rw [← List.append_assoc, resets_append, h.resets]
  rfl

theorem pass (h : Kept slot [k] rest a) {x : Handover} (hk : x.sockfd = k) (hx : x.Justified) :
    Kept slot [] rest { a with handed := a.handed ++ [x] } := by
  refine ⟨h.channel, h.poller, h.resets, h.connecting, fun n => ?_, fun y hy => ?_⟩
  · rw [← h.balance n]
    show a.closed n + ((a.handed ++ [x]).map Handover.sockfd).count n + _ = _
    rw [List.map_append, List.count_append, List.map_singleton, hk, List.append_nil,
      List.count_append]
    show _ + (a.passed n + _) + _ = _
    omega
  · rcases List.mem_append.1 hy with hy | hy
    · exact h.justified y hy
    · rw [List.mem_singleton.1 hy]
      exact hx

theorem retry (h : Kept (.inProgress k) [] rest a) :
    Kept (.removed k) [] rest ((a.removed k).retry k) := by
  have h' := (h.removed .kDisconnected (by decide)).close
  unfold Attempts.retry
  dsimp only
  split_ifs
  · exact h'.runAfter
  · exact h'

theorem finish (h : Kept (.inProgress k) [] rest a) (soError : ℕ) (selfConnect : Bool) :
    Kept (.removed k) [] rest ((a.removed k).finish k soError selfConnect) := by
  have h' := h.removed .kConnected (by decide)
  unfold Attempts.finish
  dsimp only
  split_ifs with herr hself hc
  · exact h.retry
  · exact h.retry
  · exact h'.pass rfl ⟨by simpa using herr, by simpa using hself, hc⟩
  · exact h'.close

end Kept

/-! ### What the functions do -/

/-- The state after `connect`, when it finds no channel. -/
def attempted (a : Attempts) (savedErrno : ℕ) : Attempts :=
  let a' := { a with created := a.created + 1 }
  match connectResult savedErrno with
  | .connecting => a'.inProgress a.created
  | .retry => a'.retry a.created
  | .fatal => a'.close a.created

section Functions

variable {slot : Slot} {rest : List Attempts.Functor} {a b : Attempts}

theorem connecting_error {k : ℕ} (hch : a.connector.channel_ ≠ none) :
    a.connecting k = .error .channelNotReset := by
  have hsome : ¬ (a.setState .kConnecting).connector.channel_.isNone = true := fun h =>
    hch (Option.isNone_iff_eq_none.1 h)
  unfold connecting
  dsimp only
  unfold require
  rw [if_neg hsome]
  rfl

theorem Kept.channel_eq_none_iff {held : List ℕ} (h : Kept slot held rest a) :
    a.connector.channel_ = none ↔ slot = .empty := by
  rw [h.channel]
  cases slot <;> simp [Slot.channel]

theorem startInLoop_eq (h : Kept slot [] rest a) (savedErrno : ℕ) :
    a.startInLoop savedErrno =
      if a.connector.state_ ≠ .kDisconnected then .error .startState
      else if a.connector.connect_ = false then .ok a
      else if connectResult savedErrno = .connecting ∧ slot ≠ .empty then .error .channelNotReset
      else .ok (a.attempted savedErrno) := by
  unfold startInLoop
  by_cases hst : a.connector.state_ = .kDisconnected
  swap
  · rw [if_pos hst]
    unfold require
    rw [if_neg hst]
    rfl
  rw [require_of hst, ok_bind, if_neg (not_not.2 hst)]
  cases hc : a.connector.connect_ with
  | false => rfl
  | true =>
    rw [if_pos rfl, if_neg (by decide)]
    unfold connect attempted
    dsimp only
    cases hr : connectResult savedErrno with
    | connecting =>
      by_cases hslot : slot = .empty
      · subst hslot
        rw [if_neg (by simp)]
        exact connecting_eq (a := { a with created := a.created + 1 }) h.channel h.poller a.created
      · rw [if_pos ⟨rfl, hslot⟩]
        exact connecting_error (mt h.channel_eq_none_iff.1 hslot)
    | retry => rfl
    | fatal => rfl

theorem Kept.attempted (h : Kept slot [] rest a) {savedErrno : ℕ}
    (hslot : connectResult savedErrno = .connecting → slot = .empty) :
    Kept (if connectResult savedErrno = .connecting then .inProgress a.created else slot) [] rest
      (a.attempted savedErrno) := by
  have h' := h.create
  unfold Attempts.attempted
  dsimp only
  cases hr : connectResult savedErrno with
  | connecting =>
    rw [hslot hr] at h'
    exact h'.inProgress
  | retry =>
    have hclosed := h'.close.setState .kDisconnected (by decide)
    show Kept slot [] rest (Attempts.retry _ _)
    unfold Attempts.retry
    dsimp only
    split_ifs
    · exact hclosed.runAfter
    · exact hclosed
  | fatal => exact h'.close

/-- A socket comes into progress only when `channel_` was empty. -/
def Slot.Next (slot slot' : Slot) : Prop := slot' = slot ∨ slot = .empty

theorem Kept.startInLoop (h : Kept slot [] rest a) {savedErrno : ℕ}
    (hs : a.startInLoop savedErrno = .ok b) : ∃ slot', slot.Next slot' ∧ Kept slot' [] rest b := by
  rw [startInLoop_eq h] at hs
  split_ifs at hs with hst hc hslot
  · cases hs
    exact ⟨slot, .inl rfl, h⟩
  · cases hs
    have hempty : connectResult savedErrno = .connecting → slot = .empty := fun hr =>
      by_contra fun hne => hslot ⟨hr, hne⟩
    refine ⟨_, ?_, h.attempted hempty⟩
    split_ifs with hr
    · exact .inr (hempty hr)
    · exact .inl rfl

theorem handleError_eq {k : ℕ} (h : Kept (.inProgress k) [] rest a)
    (hst : a.connector.state_ = .kConnecting) : a.handleError = .ok ((a.removed k).retry k) := by
  unfold handleError
  rw [require_of hst, ok_bind, removeAndResetChannel_eq h.channel h.poller]
  rfl

theorem handleWrite_eq {k : ℕ} (h : Kept (.inProgress k) [] rest a)
    (hst : a.connector.state_ = .kConnecting) (soError : ℕ) (selfConnect : Bool) :
    a.handleWrite soError selfConnect = .ok ((a.removed k).finish k soError selfConnect) := by
  unfold handleWrite
  rw [if_pos hst, removeAndResetChannel_eq h.channel h.poller, ok_bind]
  unfold finish
  dsimp only
  split_ifs <;> rfl

theorem handleWrite_of_kDisconnected (hst : a.connector.state_ = .kDisconnected) (soError : ℕ)
    (selfConnect : Bool) : a.handleWrite soError selfConnect = .ok a := by
  unfold handleWrite
  rw [if_neg (by rw [hst]; decide), require_of hst]
  rfl

/-- The callbacks that are set: the one for errors, and then the one for writing. -/
theorem handleEvent_eq {k : ℕ} (hch : a.connector.channel_.map Channel.fd_ = some k)
    (revents : Events) (soError : ℕ) (selfConnect : Bool) :
    a.handleEvent k revents soError selfConnect =
      ((if revents &&& (POLLERR ||| POLLNVAL) ≠ 0 then a.handleError else pure a) >>= fun a =>
        if revents &&& POLLOUT ≠ 0 then a.handleWrite soError selfConnect else pure a) := by
  unfold handleEvent
  rw [require_of hch, ok_bind]
  unfold Channel.handleEvent
  simp only [List.foldlM_append, foldlM_ite, callback, ite_self, pure_bind, bind_pure]
  rfl

theorem retry_state (a : Attempts) (k : ℕ) :
    (a.retry k).connector.state_ = .kDisconnected := by
  unfold retry
  dsimp only
  split_ifs <;> rfl

/-- **An event of the channel in progress**: the callback for errors ends the attempt, so that the
one for writing, which comes after it, finds nothing to do. -/
theorem handleEvent_inProgress {k : ℕ} (h : Kept (.inProgress k) [] rest a)
    (hst : a.connector.state_ = .kConnecting) (revents : Events) (soError : ℕ)
    (selfConnect : Bool) :
    a.handleEvent k revents soError selfConnect =
      .ok (if revents &&& (POLLERR ||| POLLNVAL) ≠ 0 then (a.removed k).retry k
        else if revents &&& POLLOUT ≠ 0 then (a.removed k).finish k soError selfConnect
        else a) := by
  rw [handleEvent_eq (by rw [h.channel]; rfl)]
  split_ifs with herr hout hout
  · rw [handleError_eq h hst, ok_bind, handleWrite_of_kDisconnected (retry_state _ _)]
  · rw [handleError_eq h hst]
    rfl
  · exact handleWrite_eq h hst soError selfConnect
  · rfl

theorem Kept.handleError (h : Kept slot [] rest a) (hs : a.handleError = .ok b) :
    ∃ k, slot = .inProgress k ∧ Kept (.removed k) [] rest b := by
  have hst := (require_bind_ok.1 hs).1
  obtain ⟨k, rfl⟩ := h.connecting hst
  rw [handleError_eq h hst] at hs
  cases hs
  exact ⟨k, rfl, h.retry⟩

theorem Kept.handleWrite (h : Kept slot [] rest a) {soError : ℕ} {selfConnect : Bool}
    (hs : a.handleWrite soError selfConnect = .ok b) :
    b = a ∨ ∃ k, slot = .inProgress k ∧ Kept (.removed k) [] rest b := by
  by_cases hst : a.connector.state_ = .kConnecting
  · obtain ⟨k, rfl⟩ := h.connecting hst
    rw [handleWrite_eq h hst] at hs
    cases hs
    exact .inr ⟨k, rfl, h.finish soError selfConnect⟩
  · unfold Attempts.handleWrite at hs
    rw [if_neg hst] at hs
    cases (require_bind_ok.1 hs).2
    exact .inl rfl

/-- **An event leaves the channel registered, or removes it.** -/
theorem Kept.handleEvent {k : ℕ} (h : Kept (.inProgress k) [] rest a) {revents : Events}
    {soError : ℕ} {selfConnect : Bool} (hs : a.handleEvent k revents soError selfConnect = .ok b) :
    Kept (.inProgress k) [] rest b ∨ Kept (.removed k) [] rest b := by
  rw [handleEvent_eq (by rw [h.channel]; rfl)] at hs
  obtain ⟨a₁, h₁, hs⟩ := bind_eq_ok.1 hs
  have hfirst : Kept (.inProgress k) [] rest a₁ ∨ Kept (.removed k) [] rest a₁ := by
    split_ifs at h₁
    · obtain ⟨k', hk', hkept⟩ := h.handleError h₁
      cases hk'
      exact .inr hkept
    · cases h₁
      exact .inl h
  split_ifs at hs
  · rcases hfirst with h₂ | h₂
    · rcases h₂.handleWrite hs with rfl | ⟨k', hk', hkept⟩
      · exact .inl h₂
      · cases hk'
        exact .inr hkept
    · rcases h₂.handleWrite hs with rfl | ⟨k', hk', -⟩
      · exact .inr h₂
      · cases hk'
  · cases hs
    exact hfirst

/-- The assertions of `Connector.cpp`. -/
def Failure.isAssertion : Attempts.Failure → Bool
  | .startState | .channelNotReset | .handleWriteState | .handleErrorState => true
  | .poller _ | .nullChannel | .deadChannel => false

theorem Kept.startInLoop_error (h : Kept slot [] rest a) {savedErrno : ℕ} {e : Attempts.Failure}
    (hs : a.startInLoop savedErrno = .error e) : e.isAssertion = true := by
  rw [startInLoop_eq h] at hs
  split_ifs at hs <;> cases hs <;> rfl

theorem Kept.handleError_error (h : Kept slot [] rest a) {e : Attempts.Failure}
    (hs : a.handleError = .error e) : e.isAssertion = true := by
  by_cases hst : a.connector.state_ = .kConnecting
  · obtain ⟨k, rfl⟩ := h.connecting hst
    rw [handleError_eq h hst] at hs
    cases hs
  · unfold Attempts.handleError require at hs
    rw [if_neg hst] at hs
    cases hs
    rfl

theorem Kept.handleWrite_error (h : Kept slot [] rest a) {soError : ℕ} {selfConnect : Bool}
    {e : Attempts.Failure} (hs : a.handleWrite soError selfConnect = .error e) :
    e.isAssertion = true := by
  by_cases hst : a.connector.state_ = .kConnecting
  · obtain ⟨k, rfl⟩ := h.connecting hst
    rw [handleWrite_eq h hst] at hs
    cases hs
  · unfold Attempts.handleWrite require at hs
    rw [if_neg hst] at hs
    split_ifs at hs
    · cases hs
    · cases hs
      rfl

/-- An event of a channel that is registered finds it. -/
theorem Kept.handleEvent_error {k : ℕ} (h : Kept (.inProgress k) [] rest a) {revents : Events}
    {soError : ℕ} {selfConnect : Bool} {e : Attempts.Failure}
    (hs : a.handleEvent k revents soError selfConnect = .error e) : e.isAssertion = true := by
  rw [handleEvent_eq (by rw [h.channel]; rfl)] at hs
  split_ifs at hs with herr hout hout
  · cases h₁ : a.handleError with
    | error e' =>
      rw [h₁] at hs
      cases hs
      exact h.handleError_error h₁
    | ok a₁ =>
      rw [h₁] at hs
      obtain ⟨k', -, hkept⟩ := h.handleError h₁
      exact hkept.handleWrite_error hs
  · cases h₁ : a.handleError with
    | error e' =>
      rw [h₁] at hs
      cases hs
      exact h.handleError_error h₁
    | ok a₁ =>
      rw [h₁] at hs
      cases hs
  · exact h.handleWrite_error hs
  · cases hs

/-- A functor of the batch. `resetChannel` finds the channel that has been removed. -/
theorem Kept.runFunctor {f : Attempts.Functor} (h : Kept slot [] (f :: rest) a) {savedErrno : ℕ}
    (hs : a.runFunctor savedErrno f = .ok b) : ∃ slot', Kept slot' [] rest b := by
  cases f with
  | startInLoop =>
    obtain ⟨slot', -, hkept⟩ := (h.popped rfl).startInLoop hs
    exact ⟨slot', hkept⟩
  | cancelInLoop timerId =>
    cases hs
    exact ⟨slot, (h.popped rfl).cancelInLoop timerId⟩
  | resetChannel k =>
    cases hs
    have hr := h.resets
    rw [List.cons_append, resets_resetChannel] at hr
    cases slot with
    | empty => cases hr
    | inProgress k' => cases hr
    | removed k' =>
      refine ⟨.empty, rfl, h.poller, (List.cons.inj hr).2, fun hst => ?_, h.balance, h.justified⟩
      obtain ⟨k'', hk⟩ := h.connecting hst
      cases hk

theorem Kept.runFunctor_error {f : Attempts.Functor} (h : Kept slot [] (f :: rest) a)
    {savedErrno : ℕ} {e : Attempts.Failure} (hs : a.runFunctor savedErrno f = .error e) :
    e.isAssertion = true := by
  cases f with
  | startInLoop => exact (h.popped rfl).startInLoop_error hs
  | cancelInLoop timerId => cases hs
  | resetChannel k => cases hs

end Functions

end Attempts

end Fppnet
