import Fppnet.Net.EventLoop

/-!
# `net/EventLoopThread.cpp`: a loop in a thread of its own

* `threadFunc` constructs its `EventLoop`, publishes it in `loop_`, runs it and destroys it
  (`Func`);
* `startLoop` waits until `loop_` is set, and its caller and other threads may then use the loop;
* the destructor sets `exiting_`, calls `loop_->quit()` without the lock, and joins the thread
  (`Owner`). `quit` sets `quit_` and then writes the eventfd, both members of the loop.

The loop is the one of `EventLoop`, whose steps may be interleaved with these in any order. Using it
through a null pointer, or after it has been destroyed, is a failure.

`quit_not_lost` says when a request to quit is kept, and `destructor_quit_live` when the destructor
finds a live loop.
-/

set_option linter.unusedSectionVars false

namespace Fppnet

open Checked Runs

namespace EventLoop

variable {φ τ : Type} [DecidableEq τ]

/-- The thread that takes a step, if it is not the loop's. -/
def Label.thread : Label φ τ → Option τ
  | .foreignPush t _ | .foreignQuit t | .foreignWakeup t => some t
  | _ => none

/-- The steps that set `quit_`. -/
def Label.isQuit : Label φ τ → Bool
  | .quit | .foreignQuit _ => true
  | _ => false

/-- The call of `loop()`. -/
def Label.isLoop : Label φ τ → Bool
  | .loop => true
  | _ => false

def Label.isTestQuit : Label φ τ → Bool
  | .testQuit => true
  | _ => false

end EventLoop

namespace EventLoopThread

/-- Where `threadFunc` stands. -/
inductive Func
  | created
  | constructed
  | published
  | looping
  | ended
  deriving DecidableEq

/-- The owner of the `EventLoopThread`, and where it stands in the destructor. -/
inductive Owner (τ : Type)
  | alive
  | exiting (t : τ)
  | quitting (t : τ)
  | joining
  | destroyed
  deriving DecidableEq

/-- The thread that runs the destructor. -/
def Owner.thread {τ : Type} : Owner τ → Option τ
  | .exiting t | .quitting t => some t
  | _ => none

/-- The destructor has not called `quit` yet. -/
def Owner.before {τ : Type} : Owner τ → Bool
  | .alive | .exiting _ => true
  | _ => false

inductive Failure
  | nullLoop
  | deadLoop
  | loop (f : EventLoop.Failure)
  deriving DecidableEq

/-- The steps. `loop l` is a step of the loop thread in `loop()`, or of another thread that has the
pointer from `startLoop`. -/
inductive Label (φ τ : Type)
  | construct
  | publish
  | enterLoop
  | leave
  | startLoop
  | loop (l : EventLoop.Label φ τ)
  | destroy (t : τ)
  | quitLoop
  | wakeupLoop
  | join

end EventLoopThread

open EventLoopThread

/-- `EventLoopThread`, with its thread. `loop_` says whether the pointer has been set, `given`
whether `startLoop` has returned it, and `requested` whether a `quit()` has set `quit_`. -/
structure EventLoopThread (φ τ : Type) where
  loop_ : Bool
  exiting_ : Bool
  loop : EventLoop φ τ
  func : Func
  owner : Owner τ
  given : Bool
  requested : Bool

namespace EventLoopThread

variable {φ τ : Type} [DecidableEq τ]

/-- The constructor. -/
def new : EventLoopThread φ τ where
  loop_ := false
  exiting_ := false
  loop := EventLoop.new
  func := .created
  owner := .alive
  given := false
  requested := false

/-- A step of the loop. -/
def onLoop (s : EventLoopThread φ τ) (l : EventLoop.Label φ τ) :
    Option (Except Failure (EventLoopThread φ τ)) :=
  (s.loop.step l).map fun r => (r.mapError .loop).map fun loop =>
    { s with loop := loop, requested := s.requested || l.isQuit }

/-- `threadFunc` and `startLoop`. -/
def funcStep (s : EventLoopThread φ τ) :
    Label φ τ → Option (Except Failure (EventLoopThread φ τ))
  | .construct => if s.func = .created then some (.ok { s with func := .constructed }) else none
  | .publish =>
    if s.func = .constructed then some (.ok { s with loop_ := true, func := .published })
    else none
  | .enterLoop => if s.func = .published then { s with func := .looping }.onLoop .loop else none
  | .leave =>
    match s.func, s.loop.phase with
    | .looping, .stopped => some (.ok { s with func := .ended })
    | _, _ => none
  | .startLoop => if s.loop_ then some (.ok { s with given := true }) else none
  | _ => none

/-- The steps of the loop and of the threads that use it. -/
def useStep (s : EventLoopThread φ τ) (l : EventLoop.Label φ τ) :
    Option (Except Failure (EventLoopThread φ τ)) :=
  match l.thread with
  | some t =>
    if s.given ∧ s.owner.thread ≠ some t then
      if s.func = .ended then some (.error .deadLoop) else s.onLoop l
    else none
  | none => if s.func = .looping ∧ l.isLoop = false then s.onLoop l else none

/-- The destructor. -/
def ownerStep (s : EventLoopThread φ τ) :
    Label φ τ → Option (Except Failure (EventLoopThread φ τ))
  | .destroy t =>
    if s.owner = .alive ∧ s.loop.thread t = .idle then
      some (.ok { s with exiting_ := true, owner := .exiting t })
    else none
  | .quitLoop =>
    match s.owner with
    | .exiting t =>
      -- `loop_` is NULL before `publish`, and keeps pointing to the loop after its end
      if s.loop_ = false then some (.error .nullLoop)
      else if s.func = .ended then some (.error .deadLoop)
      else { s with owner := .quitting t }.onLoop (.foreignQuit t)
    | _ => none
  | .wakeupLoop =>
    match s.owner with
    | .quitting t =>
      if s.func = .ended then some (.error .deadLoop)
      else { s with owner := .joining }.onLoop (.foreignWakeup t)
    | _ => none
  | .join =>
    if s.owner = .joining ∧ s.func = .ended then some (.ok { s with owner := .destroyed })
    else none
  | _ => none

def step (s : EventLoopThread φ τ) (l : Label φ τ) :
    Option (Except Failure (EventLoopThread φ τ)) :=
  match l with
  | .loop l => s.useStep l
  | .destroy _ | .quitLoop | .wakeupLoop | .join => s.ownerStep l
  | _ => s.funcStep l

/-! ### What the steps do -/

theorem onLoop_ok {s t : EventLoopThread φ τ} {l : EventLoop.Label φ τ}
    (hs : s.onLoop l = some (.ok t)) :
    ∃ loop, Moves EventLoop.step s.loop l loop ∧
      t = { s with loop := loop, requested := s.requested || l.isQuit } := by
  unfold onLoop at hs
  obtain ⟨r, hr, hs⟩ := Option.map_eq_some_iff.1 hs
  obtain ⟨loop, hloop, rfl⟩ := map_eq_ok.1 hs
  cases r with
  | error e => cases hloop
  | ok loop' =>
    cases hloop
    exact ⟨_, hr, rfl⟩

/-- **What a step can do**: `threadFunc` goes on, the loop takes a step, or the destructor does. -/
inductive Steps (s : EventLoopThread φ τ) : Label φ τ → EventLoopThread φ τ → Prop
  | construct : s.func = .created → Steps s .construct { s with func := .constructed }
  | publish : s.func = .constructed → Steps s .publish { s with loop_ := true, func := .published }
  | enterLoop {loop : EventLoop φ τ} : s.func = .published →
      Moves EventLoop.step s.loop .loop loop →
      Steps s .enterLoop { s with loop := loop, func := .looping }
  | leave : s.func = .looping → s.loop.phase = .stopped →
      Steps s .leave { s with func := .ended }
  | startLoop : s.loop_ = true → Steps s .startLoop { s with given := true }
  | foreign {l : EventLoop.Label φ τ} {t : τ} {loop : EventLoop φ τ} : l.thread = some t →
      s.given = true → s.func ≠ .ended → Moves EventLoop.step s.loop l loop →
      Steps s (.loop l) { s with loop := loop, requested := s.requested || l.isQuit }
  | loop {l : EventLoop.Label φ τ} {loop : EventLoop φ τ} : l.thread = none →
      s.func = .looping → l.isLoop = false → Moves EventLoop.step s.loop l loop →
      Steps s (.loop l) { s with loop := loop, requested := s.requested || l.isQuit }
  | destroy {t : τ} : s.owner = .alive →
      Steps s (.destroy t) { s with exiting_ := true, owner := .exiting t }
  | quitLoop {t : τ} {loop : EventLoop φ τ} : s.owner = .exiting t → s.loop_ = true →
      s.func ≠ .ended → Moves EventLoop.step s.loop (.foreignQuit t) loop →
      Steps s .quitLoop { s with loop := loop, owner := .quitting t, requested := true }
  | wakeupLoop {t : τ} {loop : EventLoop φ τ} : s.owner = .quitting t → s.func ≠ .ended →
      Moves EventLoop.step s.loop (.foreignWakeup t) loop →
      Steps s .wakeupLoop { s with loop := loop, owner := .joining }
  | join : s.owner = .joining → s.func = .ended → Steps s .join { s with owner := .destroyed }

theorem step_cases {s t : EventLoopThread φ τ} {l : Label φ τ} (hs : Moves step s l t) :
    Steps s l t := by
  unfold Moves step at hs
  cases l with
  | construct =>
    simp only [funcStep, Option.ite_none_right_eq_some] at hs
    cases hs.2
    exact .construct hs.1
  | publish =>
    simp only [funcStep, Option.ite_none_right_eq_some] at hs
    cases hs.2
    exact .publish hs.1
  | enterLoop =>
    simp only [funcStep, Option.ite_none_right_eq_some] at hs
    obtain ⟨hf, hs⟩ := hs
    obtain ⟨loop, hl, rfl⟩ := onLoop_ok hs
    have h := Steps.enterLoop hf hl
    simpa [EventLoop.Label.isQuit] using h
  | leave =>
    simp only [funcStep] at hs
    split at hs
    · next hf hph =>
      cases hs
      exact .leave hf hph
    · cases hs
  | startLoop =>
    simp only [funcStep, Option.ite_none_right_eq_some] at hs
    cases hs.2
    exact .startLoop hs.1
  | loop l =>
    simp only [useStep] at hs
    split at hs
    · next t ht =>
      simp only [Option.ite_none_right_eq_some] at hs
      obtain ⟨⟨hgiven, -⟩, hs⟩ := hs
      split_ifs at hs with hf
      · cases hs
      · obtain ⟨loop, hl, rfl⟩ := onLoop_ok hs
        exact .foreign ht hgiven hf hl
    · next ht =>
      simp only [Option.ite_none_right_eq_some] at hs
      obtain ⟨⟨hf, hno⟩, hs⟩ := hs
      obtain ⟨loop, hl, rfl⟩ := onLoop_ok hs
      exact .loop ht hf hno hl
  | destroy t =>
    simp only [ownerStep, Option.ite_none_right_eq_some] at hs
    obtain ⟨⟨ho, -⟩, hs⟩ := hs
    cases hs
    exact .destroy ho
  | quitLoop =>
    simp only [ownerStep] at hs
    split at hs
    · next t ho =>
      split_ifs at hs with hnull hf
      · cases hs
      · cases hs
      · obtain ⟨loop, hl, rfl⟩ := onLoop_ok hs
        have h := Steps.quitLoop ho (by simpa using hnull) hf hl
        simpa [EventLoop.Label.isQuit] using h
    · cases hs
  | wakeupLoop =>
    simp only [ownerStep] at hs
    split at hs
    · next t ho =>
      split_ifs at hs with hf
      · cases hs
      · obtain ⟨loop, hl, rfl⟩ := onLoop_ok hs
        have h := Steps.wakeupLoop ho hf hl
        simpa [EventLoop.Label.isQuit] using h
    · cases hs
  | join =>
    simp only [ownerStep, Option.ite_none_right_eq_some] at hs
    obtain ⟨⟨ho, hf⟩, hs⟩ := hs
    cases hs
    exact .join ho hf

/-! ### A request to quit -/

/-- The steps of a loop that has been asked to quit. -/
structure Asked (loop : EventLoop φ τ) : Prop where
  quit : loop.quit_ = true
  woken : loop.phase = .poll → 0 < loop.wakeupFd_ ∨ ∃ t, loop.thread t = .quitting

/-- The loop does not forget the request, unless `loop()` is called. -/
theorem Asked.step {loop loop' : EventLoop φ τ} {l : EventLoop.Label φ τ} (h : Asked loop)
    (hl : l.isLoop = false) (hs : Moves EventLoop.step loop l loop') :
    Asked loop' ∧ (loop'.phase = .poll → loop.phase = .poll) := by
  cases EventLoop.step_cases hs with
  | loop hown hph => cases hl
  | goOn hown hph hq => cases h.quit.symm.trans hq
  | foreignPush hidle =>
    refine ⟨⟨h.quit, fun hp => (h.woken hp).imp_right fun ⟨u, hu⟩ => ⟨u, ?_⟩⟩, id⟩
    refine (Function.update_of_ne ?_ ..).trans hu
    rintro rfl
    rw [hidle] at hu
    cases hu
  | foreignQuit hidle =>
    exact ⟨⟨rfl, fun _ => .inr ⟨_, Function.update_self ..⟩⟩, id⟩
  | foreignWakeup hbusy | wakeup hown =>
    obtain ⟨-, -, hph, -, -⟩ := EventLoop.wakeup_frame loop
    refine ⟨⟨(EventLoop.wakeup_quit loop).trans h.quit,
      fun _ => .inl (EventLoop.wakeup_pos loop)⟩, fun hp => ?_⟩
    rw [← hph]
    exact hp
  | quit hown hcb => exact ⟨⟨rfl, h.woken⟩, id⟩
  | testCalling hown => exact ⟨⟨h.quit, h.woken⟩, id⟩
  | queueInLoop hown hcb => exact ⟨⟨h.quit, h.woken⟩, id⟩
  | stop hown hph hq | pollReturn hown hph hw | handleRead hown hph | endDispatch hown hph
  | setCalling hown hph | swap hown hph | startFunctor hown hph | endFunctor hown hph
  | clearCalling hown hph => exact ⟨⟨h.quit, fun hp => by cases hp⟩, fun hp => by cases hp⟩

/-- After a call of `quit` the loop has been asked. -/
theorem asked_of_quit {loop loop' : EventLoop φ τ} {l : EventLoop.Label φ τ}
    (hl : l.isQuit = true) (hs : Moves EventLoop.step loop l loop') :
    Asked loop' ∧ loop'.phase = loop.phase := by
  cases EventLoop.step_cases hs <;> try cases hl
  case foreignQuit t hidle =>
    exact ⟨⟨rfl, fun _ => .inr ⟨t, Function.update_self ..⟩⟩, rfl⟩
  case quit hown hcb =>
    refine ⟨⟨rfl, fun hp => ?_⟩, rfl⟩
    change loop.phase = .poll at hp
    rw [hp] at hcb
    cases hcb

/-- `quit()` is called after `loop()` has set its flags. -/
def QuitsInLoop (s : EventLoopThread φ τ) : Label φ τ → Prop
  | .loop l => l.isQuit = true → s.func = .looping
  | .quitLoop => s.func = .looping
  | _ => True

instance (s : EventLoopThread φ τ) (l : Label φ τ) : Decidable (QuitsInLoop s l) := by
  cases l <;> unfold QuitsInLoop <;> infer_instance

structure Kept (s : EventLoopThread φ τ) : Prop where
  asked : s.requested = true → Asked s.loop ∧ (s.func = .looping ∨ s.func = .ended)
  joining : s.owner = .joining ∨ (∃ t, s.owner = .quitting t) → s.requested = true

/-- A step of the loop, or of a thread that uses it. -/
theorem Kept.use {s : EventLoopThread φ τ} (h : s.Kept) {l : EventLoop.Label φ τ}
    {loop : EventLoop φ τ} (hc : l.isQuit = true → s.func = .looping) (hl : l.isLoop = false)
    (hs : Moves EventLoop.step s.loop l loop) :
    Kept { s with loop := loop, requested := s.requested || l.isQuit } := by
  refine ⟨fun hr => ?_, fun ho => ?_⟩
  · cases hq : l.isQuit with
    | true => exact ⟨(asked_of_quit hq hs).1, .inl (hc hq)⟩
    | false =>
      have hr' : s.requested = true := by simpa [hq] using hr
      obtain ⟨hask, hf⟩ := h.asked hr'
      exact ⟨(hask.step hl hs).1, hf⟩
  · show (s.requested || l.isQuit) = true
    rw [h.joining ho]
    rfl

theorem step_kept {s t : EventLoopThread φ τ} {l : Label φ τ} (h : s.Kept)
    (hc : QuitsInLoop s l) (hs : Moves step s l t) : t.Kept := by
  cases step_cases hs with
  | construct hf =>
    refine ⟨fun hr => ?_, h.joining⟩
    rcases (h.asked hr).2 with hf' | hf' <;> cases hf.symm.trans hf'
  | publish hf =>
    refine ⟨fun hr => ?_, h.joining⟩
    rcases (h.asked hr).2 with hf' | hf' <;> cases hf.symm.trans hf'
  | enterLoop hf hl =>
    -- nothing has been requested yet
    refine ⟨fun hr => ?_, h.joining⟩
    rcases (h.asked hr).2 with hf' | hf' <;> cases hf.symm.trans hf'
  | leave hf hph => exact ⟨fun hr => ⟨(h.asked hr).1, .inr rfl⟩, h.joining⟩
  | startLoop hl => exact ⟨h.asked, h.joining⟩
  | @foreign l u loop ht hg hf hl =>
    refine h.use hc ?_ hl
    cases l <;> first | rfl | cases ht
  | loop ht hf hno hl => exact h.use hc hno hl
  | destroy ho => exact ⟨h.asked, fun ho' => by rcases ho' with ho' | ⟨u, ho'⟩ <;> cases ho'⟩
  | quitLoop ho hnull hf hl => exact ⟨fun _ => ⟨(asked_of_quit rfl hl).1, .inl hc⟩, fun _ => rfl⟩
  | @wakeupLoop u loop ho hf hl =>
    have hr : s.requested = true := h.joining (.inr ⟨u, ho⟩)
    refine ⟨fun _ => ?_, fun _ => hr⟩
    obtain ⟨hask, hf'⟩ := h.asked hr
    exact ⟨(hask.step rfl hl).1, hf'⟩
  | join ho hf => exact ⟨h.asked, fun ho' => by rcases ho' with ho' | ⟨u, ho'⟩ <;> cases ho'⟩

theorem new_kept : (new : EventLoopThread φ τ).Kept :=
  ⟨fun hr => (Bool.false_ne_true hr).elim, fun ho => by rcases ho with ho | ⟨u, ho⟩ <;> cases ho⟩

/-- Every step takes a loop that has been asked to quit to `poll` only if it was there. -/
theorem Kept.no_poll {s t : EventLoopThread φ τ} {l : Label φ τ} (h : s.Kept)
    (hr : s.requested = true) (hs : Moves step s l t) (hp : t.loop.phase = .poll) :
    s.loop.phase = .poll := by
  obtain ⟨hask, hf⟩ := h.asked hr
  cases step_cases hs with
  | construct _ => exact hp
  | publish _ => exact hp
  | enterLoop hf' _ => rcases hf with hf | hf <;> cases hf.symm.trans hf'
  | leave _ _ => exact hp
  | startLoop _ => exact hp
  | @foreign l u loop ht _ _ hl =>
    refine (hask.step ?_ hl).2 hp
    cases l <;> first | rfl | cases ht
  | loop _ _ hno hl => exact (hask.step hno hl).2 hp
  | destroy _ => exact hp
  | quitLoop _ _ _ hl => exact (hask.step rfl hl).2 hp
  | wakeupLoop _ _ hl => exact (hask.step rfl hl).2 hp
  | join _ _ => exact hp

/-- **A request to quit is kept**, in every run in which `quit()` is not called before `loop()` has
set its flags: `quit_` stays set, the loop does not go to `poll` any more, and if it is there it is
woken up. The destructor waits only for such a loop. -/
theorem quit_not_lost {s : EventLoopThread φ τ} (h : Reach (Moves step) QuitsInLoop new s) :
    (s.owner = .joining → s.requested = true) ∧
      (s.requested = true → s.loop.quit_ = true ∧
        (∀ l t, Moves step s l t → t.loop.phase = .poll → s.loop.phase = .poll) ∧
        (s.loop.phase = .poll →
          0 < s.loop.wakeupFd_ ∨ ∃ t, s.loop.thread t = .quitting)) := by
  have hk : s.Kept := h.invariant new_kept fun _ _ _ hx hc hr => step_kept hx hc hr
  refine ⟨fun ho => hk.joining (.inl ho), fun hr => ⟨(hk.asked hr).1.quit, ?_,
    (hk.asked hr).1.woken⟩⟩
  intro l t hs hp
  exact hk.no_poll hr hs hp

/-! Another thread asks the loop to quit while it waits in `poll`. -/

def quitWhilePolling : List (Label ℕ ℕ) :=
  [.construct, .publish, .startLoop, .enterLoop, .loop .testQuit, .loop (.foreignQuit 1)]

theorem quit_not_lost_polling :
    ∃ s : EventLoopThread ℕ ℕ, (s.owner = .joining → s.requested = true) ∧
      (s.requested = true → s.loop.quit_ = true ∧
        (∀ l t, Moves step s l t → t.loop.phase = .poll → s.loop.phase = .poll) ∧
        (s.loop.phase = .poll →
          0 < s.loop.wakeupFd_ ∨ ∃ t, s.loop.thread t = .quitting)) ∧
      s.requested = true := by
  obtain ⟨s, hs, hp⟩ := exists_reach_of_run step QuitsInLoop new quitWhilePolling
    (fun s => s.requested) (by decide +kernel)
  obtain ⟨h1, h2⟩ := quit_not_lost hs
  exact ⟨s, h1, h2, hp⟩

/-- `startLoop` has returned, and the object is destroyed before the thread calls `loop()`, which
clears `quit_`. The loop reads its wakeup and waits in `poll` again, and the destructor for it. -/
theorem quit_lost :
    ∃ s : EventLoopThread ℕ ℕ, Reach (Moves step) Always new s ∧ s.owner = .joining ∧
      s.loop.quit_ = false ∧ s.loop.phase = .poll ∧ s.loop.wakeupFd_ = 0 := by
  obtain ⟨s, hs, hp⟩ := exists_reach_of_run step Always
    (new : EventLoopThread ℕ ℕ)
    [.construct, .publish, .startLoop, .destroy 1, .quitLoop, .wakeupLoop, .enterLoop,
      .loop .testQuit, .loop (.pollReturn true), .loop .handleRead, .loop .endDispatch,
      .loop .setCalling, .loop .swap, .loop .clearCalling, .loop .testQuit]
    (fun s => s.owner = .joining ∧ s.loop.quit_ = false ∧
      s.loop.phase = .poll ∧ s.loop.wakeupFd_ = 0) (by decide +kernel)
  exact ⟨s, hs, of_decide_eq_true hp⟩

/-! ### The destructor -/

/-- The destructor starts after the thread has published its loop, and no other `quit()` ends the
loop before the destructor's. -/
def Careful (s : EventLoopThread φ τ) : Label φ τ → Prop
  | .destroy _ => s.loop_ = true
  | .loop l => l.isQuit = true → s.func = .looping → s.owner.before = false
  | _ => True

instance (s : EventLoopThread φ τ) (l : Label φ τ) : Decidable (Careful s l) := by
  cases l <;> unfold Careful <;> infer_instance

/-- The loop thread does not test `quit_` while the destructor is between setting it and writing the
eventfd. -/
def Undisturbed (s : EventLoopThread φ τ) : Label φ τ → Prop
  | .loop l => l.isTestQuit = true → s.owner.thread = none ∨ s.owner.before = true
  | _ => True

instance (s : EventLoopThread φ τ) (l : Label φ τ) : Decidable (Undisturbed s l) := by
  cases l <;> unfold Undisturbed <;> infer_instance

/-- The loop goes on: it has not stopped, and when it tests `quit_` it will not. -/
structure GoesOn (loop : EventLoop φ τ) : Prop where
  running : loop.phase ≠ .stopped
  quit : loop.quit_ = false

/-- A loop that nobody asks to quit goes on. -/
theorem GoesOn.step {loop loop' : EventLoop φ τ} {l : EventLoop.Label φ τ} (h : GoesOn loop)
    (hl : l.isLoop = false) (hq : l.isQuit = false)
    (hs : Moves EventLoop.step loop l loop') : GoesOn loop' := by
  cases EventLoop.step_cases hs with
  | loop hown hph => cases hl
  | stop hown hph hset => cases h.quit.symm.trans hset
  | quit hown hcb => cases hq
  | foreignQuit hidle => cases hq
  | foreignWakeup hbusy | wakeup hown =>
    refine ⟨?_, (EventLoop.wakeup_quit loop).trans h.quit⟩
    show loop.wakeup.phase ≠ _
    rw [(EventLoop.wakeup_frame loop).2.2.1]
    exact h.running
  | foreignPush hidle => exact ⟨h.running, h.quit⟩
  | testCalling hown => exact ⟨h.running, h.quit⟩
  | queueInLoop hown hcb => exact ⟨h.running, h.quit⟩
  | goOn hown hph hset | pollReturn hown hph hw | handleRead hown hph | endDispatch hown hph
  | setCalling hown hph | swap hown hph | startFunctor hown hph | endFunctor hown hph
  | clearCalling hown hph => exact ⟨(fun hp => by cases hp), h.quit⟩

/-- The loop stops only where it tests `quit_`. -/
theorem running_of_step {loop loop' : EventLoop φ τ} {l : EventLoop.Label φ τ}
    (h : loop.phase ≠ .stopped) (hl : l.isTestQuit = false)
    (hs : Moves EventLoop.step loop l loop') : loop'.phase ≠ .stopped := by
  cases EventLoop.step_cases hs with
  | stop hown hph hset => cases hl
  | goOn hown hph hset => cases hl
  | foreignWakeup hbusy | wakeup hown =>
    show loop.wakeup.phase ≠ _
    rw [(EventLoop.wakeup_frame loop).2.2.1]
    exact h
  | foreignPush hidle => exact h
  | foreignQuit hidle => exact h
  | quit hown hcb => exact h
  | testCalling hown => exact h
  | queueInLoop hown hcb => exact h
  | loop hown hph | pollReturn hown hph hw | handleRead hown hph | endDispatch hown hph
  | setCalling hown hph | swap hown hph | startFunctor hown hph | endFunctor hown hph
  | clearCalling hown hph => exact fun hp => by cases hp

/-- The destructor has not called `quit`, and the loop goes on. -/
structure Live (s : EventLoopThread φ τ) : Prop where
  alive : s.owner.before = true →
    s.func ≠ .ended ∧ (s.func = .looping → GoesOn s.loop)
  published : ∀ t, s.owner = .exiting t → s.loop_ = true

theorem new_live : (new : EventLoopThread φ τ).Live :=
  ⟨fun _ => ⟨(fun hf => by cases hf), fun hf => by cases hf⟩, fun t ho => by cases ho⟩

/-- A step of the loop, or of a thread that uses it, before the destructor calls `quit`. -/
theorem Live.use {s : EventLoopThread φ τ} (h : s.Live) {l : EventLoop.Label φ τ}
    {loop : EventLoop φ τ} (hc : l.isQuit = true → s.func = .looping → s.owner.before = false)
    (hl : l.isLoop = false) (hs : Moves EventLoop.step s.loop l loop) :
    Live { s with loop := loop, requested := s.requested || l.isQuit } := by
  refine ⟨fun hb => ⟨(h.alive hb).1, fun hf => ?_⟩, h.published⟩
  have hq : l.isQuit = false := by
    cases hq : l.isQuit with
    | false => rfl
    | true => cases hb.symm.trans (hc hq hf)
  exact ((h.alive hb).2 hf).step hl hq hs

theorem step_live {s t : EventLoopThread φ τ} {l : Label φ τ} (h : s.Live)
    (hc : Careful s l) (hs : Moves step s l t) : t.Live := by
  cases step_cases hs with
  | construct hf =>
    exact ⟨fun hb => ⟨(fun hf' => by cases hf'), fun hf' => by cases hf'⟩, h.published⟩
  | publish hf =>
    exact ⟨fun hb => ⟨(fun hf' => by cases hf'), fun hf' => by cases hf'⟩, fun _ _ => rfl⟩
  | enterLoop hf hl =>
    refine ⟨fun hb => ⟨(fun hf' => by cases hf'), fun _ => ?_⟩, h.published⟩
    cases EventLoop.step_cases hl with
    | loop hown hph => exact ⟨(fun hp => by cases hp), rfl⟩
  | leave hf hph =>
    refine ⟨fun hb => ?_, h.published⟩
    exact absurd hph ((h.alive hb).2 hf).running
  | startLoop hl => exact ⟨h.alive, h.published⟩
  | @foreign l u loop ht hg hf hl =>
    refine h.use hc ?_ hl
    cases l <;> first | rfl | cases ht
  | loop ht hf hno hl => exact h.use hc hno hl
  | destroy ho =>
    exact ⟨fun _ => h.alive (by rw [ho]; rfl), fun _ _ => hc⟩
  | quitLoop ho hnull hf hl => exact ⟨(fun hb => by cases hb), fun u ho' => by cases ho'⟩
  | wakeupLoop ho hf hl => exact ⟨(fun hb => by cases hb), fun u ho' => by cases ho'⟩
  | join ho hf => exact ⟨(fun hb => by cases hb), fun u ho' => by cases ho'⟩

/-- Inside `quit` the destructor finds the loop alive. -/
structure Within (s : EventLoopThread φ τ) : Prop extends Live s where
  within : ∀ t, s.owner = .quitting t →
    s.func ≠ .ended ∧ (s.func = .looping → s.loop.phase ≠ .stopped)

/-- A step of the loop, or of a thread that uses it, while the destructor is inside `quit`. -/
theorem Within.use {s : EventLoopThread φ τ} (h : s.Within) {l : EventLoop.Label φ τ}
    {loop : EventLoop φ τ}
    (hc : l.isTestQuit = true → s.owner.thread = none ∨ s.owner.before = true)
    (hs : Moves EventLoop.step s.loop l loop) {t : τ} (ho : s.owner = .quitting t) :
    s.func ≠ .ended ∧ (s.func = .looping → loop.phase ≠ .stopped) := by
  refine ⟨(h.within t ho).1, fun hf => running_of_step ((h.within t ho).2 hf) ?_ hs⟩
  cases hq : l.isTestQuit with
  | false => rfl
  | true =>
    rw [ho] at hc
    rcases hc hq with hn | hb
    · cases hn
    · cases hb

theorem step_within {s t : EventLoopThread φ τ} {l : Label φ τ} (h : s.Within)
    (hc : Careful s l ∧ Undisturbed s l) (hs : Moves step s l t) : t.Within := by
  refine ⟨step_live h.toLive hc.1 hs, fun u ho => ?_⟩
  cases step_cases hs with
  | construct hf => exact ⟨(fun hf' => by cases hf'), fun hf' => by cases hf'⟩
  | publish hf => exact ⟨(fun hf' => by cases hf'), fun hf' => by cases hf'⟩
  | enterLoop hf hl =>
    refine ⟨(fun hf' => by cases hf'), fun _ => ?_⟩
    cases EventLoop.step_cases hl with
    | loop hown hph => exact fun hp => by cases hp
  | leave hf hph => exact absurd hph ((h.within u ho).2 hf)
  | startLoop hl => exact h.within u ho
  | foreign ht hg hf hl => exact h.use hc.2 hl ho
  | loop ht hf hno hl => exact h.use hc.2 hl ho
  | destroy ho' => cases ho
  | @quitLoop v loop ho' hnull hf hl =>
    have hb : s.owner.before = true := by rw [ho']; rfl
    refine ⟨hf, fun hf' => ?_⟩
    rw [(asked_of_quit rfl hl).2]
    exact ((h.alive hb).2 hf').running
  | wakeupLoop ho' hf hl => cases ho
  | join ho' hf => cases ho

/-- **The destructor finds a live loop**, in every run in which it starts after `loop_` has been
published and no other `quit()` ends the loop: when it is about to call `loop_->quit()`, `loop_` is
set and the loop has not been destroyed. The loop is still there when `quit` writes the eventfd, if
its thread has not tested `quit_` in between. -/
theorem destructor_quit_live {s : EventLoopThread φ τ} (h : Reach (Moves step) Careful new s) :
    (∀ t, s.owner = .exiting t → s.loop_ = true ∧ s.func ≠ .ended) ∧
      (Reach (Moves step) (fun s l => Careful s l ∧ Undisturbed s l) new s →
        ∀ t, s.owner = .quitting t → s.func ≠ .ended) := by
  have hl : s.Live := h.invariant new_live fun _ _ _ hx hc hr => step_live hx hc hr
  refine ⟨fun t ho => ⟨hl.published t ho, (hl.alive (by rw [ho]; rfl)).1⟩, fun h' t ho => ?_⟩
  have hw : s.Within := h'.invariant ⟨new_live, fun u ho' => by cases ho'⟩
    fun _ _ _ hx hc hr => step_within hx hc hr
  exact (hw.within t ho).1

/-! The object is destroyed while the loop waits in `poll`. -/

def destroyWhilePolling : List (Label ℕ ℕ) :=
  [.construct, .publish, .startLoop, .enterLoop, .loop .testQuit, .destroy 1]

theorem destructor_quit_live_polling :
    ∃ s : EventLoopThread ℕ ℕ,
      ((∀ t, s.owner = .exiting t → s.loop_ = true ∧ s.func ≠ .ended) ∧
        (Reach (Moves step) (fun s l => Careful s l ∧ Undisturbed s l) new s →
          ∀ t, s.owner = .quitting t → s.func ≠ .ended)) ∧ s.owner = .exiting 1 := by
  obtain ⟨s, hs, hp⟩ := exists_reach_of_run step Careful new destroyWhilePolling
    (fun s => s.owner = .exiting 1) (by decide +kernel)
  exact ⟨s, destructor_quit_live hs, of_decide_eq_true hp⟩

/-- The user has called `quit()` on the loop, which has ended when the object is destroyed. -/
theorem destructor_dead_loop :
    ∃ s : EventLoopThread ℕ ℕ, Reach (Moves step) Always new s ∧ s.owner = .exiting 1 ∧
      s.func = .ended ∧ step s .quitLoop = some (.error .deadLoop) := by
  obtain ⟨s, hs, hp⟩ := exists_reach_of_run step Always (new : EventLoopThread ℕ ℕ)
    [.construct, .publish, .startLoop, .enterLoop, .loop .testQuit, .loop (.foreignQuit 1),
      .loop (.foreignWakeup 1), .loop (.pollReturn true), .loop .handleRead, .loop .endDispatch,
      .loop .setCalling, .loop .swap, .loop .clearCalling, .loop .testQuit, .leave, .destroy 1]
    (fun s => s.owner = .exiting 1 ∧ s.func = .ended ∧ fails step s .quitLoop .deadLoop = true)
    (by decide +kernel)
  obtain ⟨h1, h2, h3⟩ := of_decide_eq_true hp
  exact ⟨s, hs, h1, h2, eq_of_fails h3⟩

/-- The object is destroyed before its thread has published the loop. -/
theorem destructor_null_loop :
    ∃ s : EventLoopThread ℕ ℕ, Reach (Moves step) Always new s ∧
      step s .quitLoop = some (.error .nullLoop) := by
  obtain ⟨s, hs, hp⟩ := exists_reach_of_run step Always (new : EventLoopThread ℕ ℕ) [.destroy 1]
    (fun s => fails step s .quitLoop .nullLoop) (by decide +kernel)
  exact ⟨s, hs, eq_of_fails hp⟩

end EventLoopThread

end Fppnet
