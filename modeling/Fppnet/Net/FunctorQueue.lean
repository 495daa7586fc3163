import Fppnet.Net.EventLoop

/-!
# The functors of a loop

`History` keeps beside a loop the functors that `queueInLoop` has pushed, those that
`doPendingFunctors` has started, and how many had been pushed when it last swapped.
`functor_queue` says that nothing is lost, repeated or reordered, and that a call of
`doPendingFunctors` runs the functors that were there at its swap and no others.
-/

set_option linter.unusedSectionVars false

namespace Fppnet

open Checked Runs

namespace EventLoop

variable {φ τ : Type} [DecidableEq τ]

/-- The functors that `doPendingFunctors` has still to run. -/
def Phase.batch : Phase φ → List φ
  | .functors rest | .inFunctor rest => rest
  | _ => []

/-- The functor that a step pushes. -/
def Label.pushes : Label φ τ → List φ
  | .queueInLoop cb | .foreignPush _ cb => [cb]
  | _ => []

/-- The functor that a step starts to run. -/
def starts (s : EventLoop φ τ) : Label φ τ → List φ
  | .startFunctor => s.phase.batch.take 1
  | _ => []

def Label.isSwap : Label φ τ → Bool
  | .swap => true
  | _ => false

/-- **What a step does to the functors**: the swap moves the pending ones to an empty batch, and
every other step runs functors from the front of the batch and pushes to the end of the queue. -/
theorem step_functors {s s' : EventLoop φ τ} {l : Label φ τ} (hs : Moves step s l s') :
    (l.isSwap = true ∧ s.phase.batch = [] ∧ s'.phase.batch = s.pendingFunctors_ ∧
        s'.pendingFunctors_ = []) ∨
      (l.isSwap = false ∧ s.phase.batch = s.starts l ++ s'.phase.batch ∧
        s'.pendingFunctors_ = s.pendingFunctors_ ++ l.pushes) := by
  have hnil : s.pendingFunctors_ = s.pendingFunctors_ ++ [] := (List.append_nil _).symm
  cases step_cases hs with
  | swap hown hph => exact .inl ⟨rfl, by rw [hph]; rfl, rfl, rfl⟩
  | startFunctor hown hph => exact .inr ⟨rfl, by simp only [starts, hph]; rfl, hnil⟩
  | foreignPush hidle => exact .inr ⟨rfl, rfl, rfl⟩
  | queueInLoop hown hcb => exact .inr ⟨rfl, rfl, rfl⟩
  | foreignQuit hidle => exact .inr ⟨rfl, rfl, hnil⟩
  | foreignWakeup hbusy | wakeup hown =>
    obtain ⟨-, hp, hph, -, -⟩ := wakeup_frame s
    refine .inr ⟨rfl, ?_, ?_⟩
    · show s.phase.batch = s.wakeup.phase.batch
      rw [hph]
    · show s.wakeup.pendingFunctors_ = s.pendingFunctors_ ++ []
      rw [hp, List.append_nil]
  | testCalling hown => exact .inr ⟨rfl, rfl, hnil⟩
  | quit hown hcb => exact .inr ⟨rfl, rfl, hnil⟩
  | loop hown hph | stop hown hph hq | goOn hown hph hq | pollReturn hown hph hw
  | handleRead hown hph | endDispatch hown hph | setCalling hown hph | endFunctor hown hph
  | clearCalling hown hph => exact .inr ⟨rfl, by rw [hph]; rfl, hnil⟩

end EventLoop

open EventLoop

/-- A loop with the history of its functors. -/
structure History (φ τ : Type) where
  loop : EventLoop φ τ
  pushed : List φ
  executed : List φ
  swapped : ℕ

namespace History

variable {φ τ : Type} [DecidableEq τ]

def new : History φ τ := ⟨EventLoop.new, [], [], 0⟩

/-- The history after a step to the loop `loop`. -/
def record (s : History φ τ) (l : Label φ τ) (loop : EventLoop φ τ) : History φ τ where
  loop := loop
  pushed := s.pushed ++ l.pushes
  executed := s.executed ++ s.loop.starts l
  swapped := if l.isSwap then s.pushed.length else s.swapped

def step (s : History φ τ) (l : Label φ τ) : Option (Except Failure (History φ τ)) :=
  (s.loop.step l).map fun r => r.map (s.record l)

theorem moves_iff {s t : History φ τ} {l : Label φ τ} :
    Moves step s l t ↔ ∃ loop, Moves EventLoop.step s.loop l loop ∧ t = s.record l loop := by
  unfold Moves step
  cases s.loop.step l with
  | none => simp
  | some r => cases r <;> simp [Except.map, eq_comm]

/-- The functors that have been pushed are, in order, those that have been started, the rest of the
batch and the pending ones; the first two are those that had been pushed at the last swap. -/
structure Kept (s : History φ τ) : Prop where
  all : s.pushed = s.executed ++ s.loop.phase.batch ++ s.loop.pendingFunctors_
  fixed : (s.executed ++ s.loop.phase.batch).length = s.swapped

theorem new_kept : (new : History φ τ).Kept := ⟨rfl, rfl⟩

theorem step_kept {s t : History φ τ} {l : Label φ τ} (h : s.Kept) (hs : Moves step s l t) :
    t.Kept := by
  obtain ⟨loop, hl, rfl⟩ := moves_iff.1 hs
  rcases step_functors hl with ⟨hswap, hb, hb', hp⟩ | ⟨hswap, hb, hp⟩
  · obtain rfl : l = .swap := by
      cases l <;> first | rfl | cases hswap
    have hall : s.pushed = s.executed ++ s.loop.pendingFunctors_ := by
      rw [h.all, hb, List.append_nil]
    refine ⟨?_, ?_⟩
    · show s.pushed ++ [] = s.executed ++ [] ++ loop.phase.batch ++ loop.pendingFunctors_
      rw [hb', hp, hall]
      simp
    · show (s.executed ++ [] ++ loop.phase.batch).length = s.pushed.length
      rw [hb', hall, List.append_nil]
  · refine ⟨?_, ?_⟩
    · show s.pushed ++ l.pushes = s.executed ++ s.loop.starts l ++ loop.phase.batch ++
        loop.pendingFunctors_
      rw [hp, h.all, hb]
      simp only [List.append_assoc]
    · show (s.executed ++ s.loop.starts l ++ loop.phase.batch).length =
        if l.isSwap then s.pushed.length else s.swapped
      rw [hswap, List.append_assoc, ← hb]
      exact h.fixed

theorem reach_kept {s : History φ τ} (h : Reach (Moves step) Always new s) : s.Kept :=
  h.invariant new_kept fun _ _ _ hx _ hr => step_kept hx hr

/-- A step of a call of `doPendingFunctors` after its swap. -/
def NoSwap (_ : History φ τ) (l : Label φ τ) : Prop := l.isSwap = false

instance (s : History φ τ) (l : Label φ τ) : Decidable (NoSwap s l) :=
  inferInstanceAs (Decidable (_ = _))

/-- Between two swaps the loop runs the functors of its batch. -/
theorem batch_of_noSwap {s t : History φ τ} (h : Reach (Moves step) NoSwap s t) :
    t.executed ++ t.loop.phase.batch = s.executed ++ s.loop.phase.batch := by
  refine h.invariant (I := fun x => x.executed ++ x.loop.phase.batch =
    s.executed ++ s.loop.phase.batch) rfl fun x l y hx hc hs => ?_
  obtain ⟨loop, hl, rfl⟩ := moves_iff.1 hs
  rcases step_functors hl with ⟨hswap, -⟩ | ⟨-, hb, -⟩
  · exact absurd (hc.symm.trans hswap) (by decide)
  · rw [← hx, hb]
    exact List.append_assoc ..

/-- **The functor queue**: in every reachable state the functors that have been pushed are those
that have been executed, the rest of the batch and the pending ones, in this order. What has been
executed or is in the batch had been pushed at the last swap; and until the next swap, whatever is
pushed meanwhile, the functors that are executed are those of the batch. -/
theorem functor_queue {s : History φ τ} (h : Reach (Moves step) Always new s) :
    s.pushed = s.executed ++ s.loop.phase.batch ++ s.loop.pendingFunctors_ ∧
      s.executed ++ s.loop.phase.batch = s.pushed.take s.swapped ∧
      ∀ t, Reach (Moves step) NoSwap s t →
        t.executed ++ t.loop.phase.batch = s.executed ++ s.loop.phase.batch := by
  have hk := reach_kept h
  refine ⟨hk.all, ?_, fun t ht => batch_of_noSwap ht⟩
  rw [← hk.fixed, hk.all, List.take_left' rfl]

/-! Another thread pushes a functor, which pushes the next one while it runs. -/

def pushing : List (Label ℕ ℕ) :=
  [.loop, .testQuit, .foreignPush 1 7, .foreignWakeup 1, .pollReturn true, .handleRead,
    .endDispatch, .setCalling, .swap, .startFunctor, .queueInLoop 8, .testCalling, .wakeup]

theorem functor_queue_pushing :
    ∃ s : History ℕ ℕ, (s.pushed = s.executed ++ s.loop.phase.batch ++ s.loop.pendingFunctors_ ∧
      s.executed ++ s.loop.phase.batch = s.pushed.take s.swapped ∧
      ∀ t, Reach (Moves step) NoSwap s t →
        t.executed ++ t.loop.phase.batch = s.executed ++ s.loop.phase.batch) ∧
      s.executed = [7] ∧ s.loop.pendingFunctors_ = [8] := by
  obtain ⟨s, hs, hp⟩ := exists_reach_of_run step Always new pushing
    (fun s => s.executed = [7] ∧ s.loop.pendingFunctors_ = [8]) (by decide +kernel)
  exact ⟨s, functor_queue hs, of_decide_eq_true hp⟩

end History

end Fppnet
