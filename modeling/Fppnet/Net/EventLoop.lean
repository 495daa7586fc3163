import Fppnet.Library.Checked
import Fppnet.Library.Run

/-!
# `net/EventLoop.cpp`: the loop and its wakeups

Each critical section of `mutex_`, each system call and each access to
`callingPendingFunctors_` is a step of its own.

* The loop thread goes through the phases of `loop` and `doPendingFunctors` (`Phase`). In a channel
  callback or a functor it may call `queueInLoop`, whose steps after the critical section are
  `Own.pushed` (about to test `callingPendingFunctors_`) and `Own.waking` (about to write);
* another thread is idle, or has queued its functor and is about to write the eventfd, or has set
  `quit_` and is about to write it (`Foreign`);
* `wakeupFd_` is the counter of the eventfd. A write that would overflow it fails (`EAGAIN`).

`poll` returns at any time, since it may time out or report other channels; it reports the wakeup
channel only when the eventfd is readable, and need not report it even then.
-/

set_option linter.unusedSectionVars false

namespace Fppnet

open Checked Runs

namespace EventLoop

variable {φ τ : Type} [DecidableEq τ]

/-- Where the loop thread stands. `functors` and `inFunctor` have the functors still to be run. -/
inductive Phase (φ : Type)
  | stopped
  | testQuit
  | poll
  | dispatch (wakeupActive : Bool)
  | setCalling
  | swap
  | functors (rest : List φ)
  | inFunctor (rest : List φ)
  deriving DecidableEq

/-- The loop thread's own call of `queueInLoop`. -/
inductive Own
  | none
  | pushed
  | waking
  deriving DecidableEq

/-- A thread other than the loop's. -/
inductive Foreign
  | idle
  | pushed
  | quitting
  deriving DecidableEq

/-- `loop` is called while the loop is running. -/
inductive Failure
  | looping
  deriving DecidableEq

end EventLoop

open EventLoop

/-- `EventLoop`, with the threads that use it. -/
structure EventLoop (φ τ : Type) where
  looping_ : Bool
  quit_ : Bool
  callingPendingFunctors_ : Bool
  pendingFunctors_ : List φ
  wakeupFd_ : ℕ
  phase : Phase φ
  own : Own
  thread : τ → Foreign

namespace EventLoop

variable {φ τ : Type} [DecidableEq τ]

/-- The constructor. -/
def new : EventLoop φ τ where
  looping_ := false
  quit_ := false
  callingPendingFunctors_ := false
  pendingFunctors_ := []
  wakeupFd_ := 0
  phase := .stopped
  own := .none
  thread := fun _ => .idle

/-- The largest value of an eventfd counter. -/
def eventfdMax : ℕ := 2 ^ 64 - 2

/-- `wakeup`: a write of 1, lost when the counter is full. -/
def wakeup (s : EventLoop φ τ) : EventLoop φ τ :=
  if s.wakeupFd_ + 1 ≤ eventfdMax then { s with wakeupFd_ := s.wakeupFd_ + 1 } else s

/-- `handleRead`: a read takes the whole counter. -/
def handleRead (s : EventLoop φ τ) : EventLoop φ τ := { s with wakeupFd_ := 0 }

/-- The critical section of `queueInLoop`. -/
def pushFunctor (s : EventLoop φ τ) (cb : φ) : EventLoop φ τ :=
  { s with pendingFunctors_ := s.pendingFunctors_ ++ [cb] }

def setPhase (s : EventLoop φ τ) (p : Phase φ) : EventLoop φ τ := { s with phase := p }

def setThread (s : EventLoop φ τ) (t : τ) (f : Foreign) : EventLoop φ τ :=
  { s with thread := Function.update s.thread t f }

/-- The steps. Those with a thread `t` are taken by a thread other than the loop's. -/
inductive Label (φ τ : Type)
  | loop
  | testQuit
  | pollReturn (wakeupActive : Bool)
  | handleRead
  | endDispatch
  | setCalling
  | swap
  | startFunctor
  | endFunctor
  | clearCalling
  | queueInLoop (cb : φ)
  | testCalling
  | wakeup
  | quit
  | foreignPush (t : τ) (cb : φ)
  | foreignQuit (t : τ)
  | foreignWakeup (t : τ)

/-- Whether the loop thread is in a callback, where user code runs. -/
def Phase.inCallback : Phase φ → Bool
  | .dispatch _ => true
  | .inFunctor _ => true
  | _ => false

/-- The steps of `loop` and `doPendingFunctors`, outside calls of `queueInLoop`. -/
def loopStep (s : EventLoop φ τ) : Label φ τ → Option (Except Failure (EventLoop φ τ))
  | .loop =>
    match s.phase with
    | .stopped => some do
      require (s.looping_ = false) .looping
      pure { s with looping_ := true, quit_ := false, phase := .testQuit }
    | _ => none
  | .testQuit =>
    match s.phase with
    | .testQuit =>
      if s.quit_ then some (.ok { s with looping_ := false, phase := .stopped })
      else some (.ok (s.setPhase .poll))
    | _ => none
  | .pollReturn wakeupActive =>
    match s.phase with
    | .poll =>
      if wakeupActive = true → 0 < s.wakeupFd_ then
        some (.ok (s.setPhase (.dispatch wakeupActive)))
      else none
    | _ => none
  | .handleRead =>
    match s.phase with
    | .dispatch true => some (.ok (s.handleRead.setPhase (.dispatch false)))
    | _ => none
  | .endDispatch =>
    match s.phase with
    | .dispatch false => some (.ok (s.setPhase .setCalling))
    | _ => none
  | .setCalling =>
    match s.phase with
    | .setCalling => some (.ok { s with callingPendingFunctors_ := true, phase := .swap })
    | _ => none
  | .swap =>
    match s.phase with
    | .swap =>
      some (.ok { s with pendingFunctors_ := [], phase := .functors s.pendingFunctors_ })
    | _ => none
  | .startFunctor =>
    match s.phase with
    | .functors (_ :: rest) => some (.ok (s.setPhase (.inFunctor rest)))
    | _ => none
  | .endFunctor =>
    match s.phase with
    | .inFunctor rest => some (.ok (s.setPhase (.functors rest)))
    | _ => none
  | .clearCalling =>
    match s.phase with
    | .functors [] => some (.ok { s with callingPendingFunctors_ := false, phase := .testQuit })
    | _ => none
  | .quit => if s.phase.inCallback then some (.ok { s with quit_ := true }) else none
  | .queueInLoop cb =>
    if s.phase.inCallback then some (.ok { s.pushFunctor cb with own := .pushed }) else none
  | _ => none

/-- The rest of a call of `queueInLoop` by the loop thread. -/
def ownStep (s : EventLoop φ τ) : Label φ τ → Option (Except Failure (EventLoop φ τ))
  | .testCalling =>
    if s.own = .pushed then
      some (.ok { s with own := if s.callingPendingFunctors_ then .waking else .none })
    else none
  | .wakeup => if s.own = .waking then some (.ok { s.wakeup with own := .none }) else none
  | _ => none

/-- The steps of the other threads. -/
def foreignStep (s : EventLoop φ τ) : Label φ τ → Option (Except Failure (EventLoop φ τ))
  | .foreignPush t cb =>
    if s.thread t = .idle then some (.ok ((s.pushFunctor cb).setThread t .pushed)) else none
  | .foreignQuit t =>
    if s.thread t = .idle then some (.ok ({ s with quit_ := true }.setThread t .quitting))
    else none
  | .foreignWakeup t =>
    if s.thread t ≠ .idle then some (.ok (s.wakeup.setThread t .idle)) else none
  | _ => none

def step (s : EventLoop φ τ) (l : Label φ τ) : Option (Except Failure (EventLoop φ τ)) :=
  match l with
  | .foreignPush _ _ | .foreignQuit _ | .foreignWakeup _ => s.foreignStep l
  | .testCalling | .wakeup => s.ownStep l
  | _ => if s.own = .none then s.loopStep l else none

/-- **What a step can do**, with the state it is taken in. -/
inductive Steps (s : EventLoop φ τ) : Label φ τ → EventLoop φ τ → Prop
  | loop : s.own = .none → s.phase = .stopped →
      Steps s .loop { s with looping_ := true, quit_ := false, phase := .testQuit }
  | stop : s.own = .none → s.phase = .testQuit → s.quit_ = true →
      Steps s .testQuit { s with looping_ := false, phase := .stopped }
  | goOn : s.own = .none → s.phase = .testQuit → s.quit_ = false →
      Steps s .testQuit (s.setPhase .poll)
  | pollReturn {wakeupActive : Bool} : s.own = .none → s.phase = .poll →
      (wakeupActive = true → 0 < s.wakeupFd_) →
      Steps s (.pollReturn wakeupActive) (s.setPhase (.dispatch wakeupActive))
  | handleRead : s.own = .none → s.phase = .dispatch true →
      Steps s .handleRead (s.handleRead.setPhase (.dispatch false))
  | endDispatch : s.own = .none → s.phase = .dispatch false →
      Steps s .endDispatch (s.setPhase .setCalling)
  | setCalling : s.own = .none → s.phase = .setCalling →
      Steps s .setCalling { s with callingPendingFunctors_ := true, phase := .swap }
  | swap : s.own = .none → s.phase = .swap →
      Steps s .swap { s with pendingFunctors_ := [], phase := .functors s.pendingFunctors_ }
  | startFunctor {f : φ} {rest : List φ} : s.own = .none → s.phase = .functors (f :: rest) →
      Steps s .startFunctor (s.setPhase (.inFunctor rest))
  | endFunctor {rest : List φ} : s.own = .none → s.phase = .inFunctor rest →
      Steps s .endFunctor (s.setPhase (.functors rest))
  | clearCalling : s.own = .none → s.phase = .functors [] →
      Steps s .clearCalling { s with callingPendingFunctors_ := false, phase := .testQuit }
  | quit : s.own = .none → s.phase.inCallback = true → Steps s .quit { s with quit_ := true }
  | queueInLoop {cb : φ} : s.own = .none → s.phase.inCallback = true →
      Steps s (.queueInLoop cb) { s.pushFunctor cb with own := .pushed }
  | testCalling : s.own = .pushed →
      Steps s .testCalling
        { s with own := if s.callingPendingFunctors_ then .waking else .none }
  | wakeup : s.own = .waking → Steps s .wakeup { s.wakeup with own := .none }
  | foreignPush {t : τ} {cb : φ} : s.thread t = .idle →
      Steps s (.foreignPush t cb) ((s.pushFunctor cb).setThread t .pushed)
  | foreignQuit {t : τ} : s.thread t = .idle →
      Steps s (.foreignQuit t) ({ s with quit_ := true }.setThread t .quitting)
  | foreignWakeup {t : τ} : s.thread t ≠ .idle →
      Steps s (.foreignWakeup t) (s.wakeup.setThread t .idle)

theorem loopStep_cases {s s' : EventLoop φ τ} {l : Label φ τ} (hown : s.own = .none)
    (hs : s.loopStep l = some (.ok s')) : Steps s l s' := by
  cases l <;> simp only [loopStep, reduceCtorEq] at hs
  case loop =>
    split at hs
    · next hph =>
      obtain ⟨-, hs⟩ := require_bind_ok.1 (Option.some.inj hs)
      cases hs
      exact .loop hown hph
    · cases hs
  case testQuit =>
    split at hs
    · next hph =>
      split_ifs at hs with hq <;> cases hs
      · exact .stop hown hph hq
      · exact .goOn hown hph (by simpa using hq)
    · cases hs
  case pollReturn wakeupActive =>
    split at hs
    · next hph =>
      split_ifs at hs with hw
      cases hs
      exact .pollReturn hown hph hw
    · cases hs
  case handleRead =>
    split at hs
    · next hph =>
      cases hs
      exact .handleRead hown hph
    · cases hs
  case endDispatch =>
    split at hs
    · next hph =>
      cases hs
      exact .endDispatch hown hph
    · cases hs
  case setCalling =>
    split at hs
    · next hph =>
      cases hs
      exact .setCalling hown hph
    · cases hs
  case swap =>
    split at hs
    · next hph =>
      cases hs
      exact .swap hown hph
    · cases hs
  case startFunctor =>
    split at hs
    · next hph =>
      cases hs
      exact .startFunctor hown hph
    · cases hs
  case endFunctor =>
    split at hs
    · next hph =>
      cases hs
      exact .endFunctor hown hph
    · cases hs
  case clearCalling =>
    split at hs
    · next hph =>
      cases hs
      exact .clearCalling hown hph
    · cases hs
  case quit =>
    split_ifs at hs with hcb
    cases hs
    exact .quit hown hcb
  case queueInLoop cb =>
    split_ifs at hs with hcb
    cases hs
    exact .queueInLoop hown hcb

theorem step_cases {s s' : EventLoop φ τ} {l : Label φ τ} (hs : Moves step s l s') :
    Steps s l s' := by
  unfold Moves step at hs
  split at hs
  case h_1 | h_2 | h_3 =>
    simp only [foreignStep, Option.ite_none_right_eq_some] at hs
    obtain ⟨ht, hs⟩ := hs
    cases hs
    first | exact .foreignPush ht | exact .foreignQuit ht | exact .foreignWakeup ht
  case h_4 | h_5 =>
    simp only [ownStep, Option.ite_none_right_eq_some] at hs
    obtain ⟨hown, hs⟩ := hs
    cases hs
    first | exact .testCalling hown | exact .wakeup hown
  case h_6 =>
    split_ifs at hs with hown
    exact loopStep_cases hown hs

/-! ### The invariant -/

/-- Whether the loop is between setting and clearing `callingPendingFunctors_`. -/
def Phase.calling : Phase φ → Bool
  | .swap | .functors _ | .inFunctor _ => true
  | _ => false

/-- Whether the loop may go to `poll` before it swaps the pending functors out. -/
def Phase.exposed : Phase φ → Bool
  | .dispatch _ | .setCalling | .swap => false
  | _ => true

/-- A wakeup has come or is to come. -/
def Covered (s : EventLoop φ τ) : Prop :=
  0 < s.wakeupFd_ ∨ (∃ t, s.thread t = .pushed) ∨ s.own ≠ .none

structure Good (s : EventLoop φ τ) : Prop where
  flag : s.callingPendingFunctors_ = s.phase.calling
  own : s.own ≠ .none → s.phase.inCallback = true
  covered : s.phase.exposed = true → s.pendingFunctors_ ≠ [] → s.Covered

/-- After a write the eventfd is readable, also when the write has failed. -/
theorem wakeup_pos (s : EventLoop φ τ) : 0 < s.wakeup.wakeupFd_ := by
  unfold wakeup eventfdMax
  split_ifs with h
  · exact Nat.succ_pos _
  · omega

theorem wakeup_quit (s : EventLoop φ τ) : s.wakeup.quit_ = s.quit_ := by
  unfold wakeup
  split_ifs <;> rfl

theorem wakeup_frame (s : EventLoop φ τ) :
    s.wakeup.callingPendingFunctors_ = s.callingPendingFunctors_ ∧
      s.wakeup.pendingFunctors_ = s.pendingFunctors_ ∧ s.wakeup.phase = s.phase ∧
      s.wakeup.own = s.own ∧ s.wakeup.thread = s.thread := by
  unfold wakeup
  split_ifs <;> exact ⟨rfl, rfl, rfl, rfl, rfl⟩

/-- **Every step keeps the invariant.** The other threads never take a wakeup away; the loop
thread's `queueInLoop` skips it only in a channel callback, before the pending functors are swapped
out; and the loop reaches `poll` only from phases in which they are covered. -/
theorem step_good {s s' : EventLoop φ τ} {l : Label φ τ} (h : Good s) (hs : Moves step s l s') :
    Good s' := by
  have hno : s.own = .none → s.own ≠ .none → False := fun hown ho => ho hown
  cases step_cases hs with
  | loop hown hph =>
    exact ⟨by rw [h.flag, hph]; rfl, fun ho => (hno hown ho).elim,
      fun _ => h.covered (by rw [hph]; rfl)⟩
  | stop hown hph hq =>
    exact ⟨by rw [h.flag, hph]; rfl, fun ho => (hno hown ho).elim,
      fun _ => h.covered (by rw [hph]; rfl)⟩
  | goOn hown hph hq =>
    exact ⟨h.flag.trans (by rw [hph]; rfl), fun ho => (hno hown ho).elim,
      fun _ => h.covered (by rw [hph]; rfl)⟩
  | pollReturn hown hph hw =>
    exact ⟨h.flag.trans (by rw [hph]; rfl), fun ho => (hno hown ho).elim, fun he => by cases he⟩
  | handleRead hown hph =>
    exact ⟨h.flag.trans (by rw [hph]; rfl), fun ho => (hno hown ho).elim, fun he => by cases he⟩
  | endDispatch hown hph =>
    exact ⟨h.flag.trans (by rw [hph]; rfl), fun ho => (hno hown ho).elim, fun he => by cases he⟩
  | setCalling hown hph =>
    exact ⟨rfl, fun ho => (hno hown ho).elim, fun he => by cases he⟩
  | swap hown hph =>
    exact ⟨h.flag.trans (by rw [hph]; rfl), fun ho => (hno hown ho).elim,
      fun _ hp => absurd rfl hp⟩
  | startFunctor hown hph =>
    exact ⟨h.flag.trans (by rw [hph]; rfl), fun ho => (hno hown ho).elim,
      fun _ => h.covered (by rw [hph]; rfl)⟩
  | endFunctor hown hph =>
    exact ⟨h.flag.trans (by rw [hph]; rfl), fun ho => (hno hown ho).elim,
      fun _ => h.covered (by rw [hph]; rfl)⟩
  | clearCalling hown hph =>
    exact ⟨rfl, fun ho => (hno hown ho).elim, fun _ => h.covered (by rw [hph]; rfl)⟩
  | quit hown hcb => exact ⟨h.flag, h.own, h.covered⟩
  | queueInLoop hown hcb =>
    exact ⟨h.flag, fun _ => hcb, fun _ _ => .inr (.inr (by rintro ⟨⟩))⟩
  | testCalling hown =>
    have hcb : s.phase.inCallback = true := h.own (by rw [hown]; decide)
    refine ⟨h.flag, fun _ => hcb, fun he _ => ?_⟩
    have hcalling : s.callingPendingFunctors_ = true := by
      rw [h.flag]
      cases hph : s.phase <;> simp_all [Phase.inCallback, Phase.exposed, Phase.calling]
    right
    right
    simp [hcalling]
  | wakeup hown =>
    obtain ⟨hf, -, hph, -, -⟩ := wakeup_frame s
    refine ⟨?_, fun ho => absurd rfl ho, fun _ _ => .inl (wakeup_pos s)⟩
    show s.wakeup.callingPendingFunctors_ = s.wakeup.phase.calling
    rw [hf, hph]
    exact h.flag
  | foreignPush hidle =>
    exact ⟨h.flag, h.own, fun _ _ => .inr (.inl ⟨_, Function.update_self ..⟩)⟩
  | @foreignQuit t hidle =>
    refine ⟨h.flag, h.own, fun he hp => ?_⟩
    rcases h.covered he hp with hw | ⟨u, hu⟩ | ho
    · exact .inl hw
    · have hne : u ≠ t := by
        rintro rfl
        rw [hidle] at hu
        cases hu
      exact .inr (.inl ⟨u, (Function.update_of_ne hne ..).trans hu⟩)
    · exact .inr (.inr ho)
  | foreignWakeup hbusy =>
    obtain ⟨hf, hp, hph, ho, -⟩ := wakeup_frame s
    refine ⟨?_, ?_, fun _ _ => .inl (wakeup_pos s)⟩
    · show s.wakeup.callingPendingFunctors_ = s.wakeup.phase.calling
      rw [hf, hph]
      exact h.flag
    · show s.wakeup.own ≠ .none → s.wakeup.phase.inCallback = true
      rw [ho, hph]
      exact h.own

theorem new_good : Good (new : EventLoop φ τ) :=
  ⟨rfl, fun h => absurd rfl h, fun _ h => absurd rfl h⟩

/-- **No wakeup is lost**: while the loop is blocked in `poll` with functors pending, the eventfd is
readable or a thread that has queued its functor is about to write it. -/
theorem no_lost_wakeup {s : EventLoop φ τ} (h : Reach (Moves step) Always new s)
    (hpoll : s.phase = .poll) (hpending : s.pendingFunctors_ ≠ []) :
    0 < s.wakeupFd_ ∨ ∃ t, s.thread t = .pushed := by
  have hgood : Good s := h.invariant new_good fun x a y hx _ hr => step_good hx hr
  rcases hgood.covered (by rw [hpoll]; rfl) hpending with hw | ht | ho
  · exact .inl hw
  · exact .inr ht
  · have hcb := hgood.own ho
    rw [hpoll] at hcb
    cases hcb

/-! The loop waits and another thread has queued a functor. -/

def waiting : EventLoop ℕ ℕ :=
  next step (next step (next step new .loop) .testQuit) (.foreignPush 1 7)

theorem no_lost_wakeup_waiting : 0 < waiting.wakeupFd_ ∨ ∃ t, waiting.thread t = .pushed := by
  have h1 : Reach (Moves step) Always new (next step new (.loop : Label ℕ ℕ)) :=
    .single trivial (moves_next rfl)
  have h2 := h1.trans (.single trivial (moves_next (a := .testQuit) rfl))
  have h3 := h2.trans (.single trivial (moves_next (a := .foreignPush 1 7) rfl))
  exact no_lost_wakeup h3 rfl (by rintro ⟨⟩)

end EventLoop

end Fppnet
