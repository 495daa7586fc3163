import Mathlib.Tactic

/-!
# Runs of a labelled transition system

A system is given by its partial step function: in state `s` the label `a` is either not enabled
(`step s a = none`), or it leads to a next state (`some (.ok t)`), or it fails (`some (.error e)`),
as a program does that aborts at an assertion.

* `Moves step` is the transition relation of the steps that succeed;
* `Reach R C s t`: `t` is reached from `s` by steps of `R`, each of which satisfies the condition
  `C` in the state it is taken from (`Always` when nothing is asked of the steps);
* `Reach.invariant` is the induction rule for invariants and `Reach.simulates` that for simulations
  with stuttering;
* `Path R l s t` names the labels of a run, and `Path.refines` is the rule of data refinement: a
  function that commutes with every step commutes with every run;
* `next` executes one label and `run` a list of them, so that a concrete run is checked by
  evaluation (`moves_next`, `exists_reach_of_run`, `exists_path_of_run`).
-/

namespace Runs

universe u v w
variable {σ : Type u} {α : Type v} {ε : Type w}

/-- The transition relation of a step function: the steps that neither block nor fail. -/
def Moves (step : σ → α → Option (Except ε σ)) (s : σ) (a : α) (t : σ) : Prop :=
  step s a = some (.ok t)

/-- A step that is enabled under a condition. -/
theorem Moves.enabled {step : σ → α → Option (Except ε σ)} {s t : σ} {a : α} {p : Prop}
    [Decidable p] {r : Except ε σ} (h : Moves step s a t)
    (hstep : step s a = if p then some r else none) : p ∧ r = .ok t := by
  unfold Moves at h
  rwa [hstep, Option.ite_none_right_eq_some, Option.some.injEq] at h

/-- The condition that asks nothing of a step. -/
def Always (_ : σ) (_ : α) : Prop := True

instance (s : σ) (a : α) : Decidable (Always s a) := isTrue trivial

/-- `t` is reached from `s` by steps of `R` that satisfy `C` where they are taken. -/
inductive Reach (R : σ → α → σ → Prop) (C : σ → α → Prop) (s : σ) : σ → Prop
  | refl : Reach R C s s
  | tail {t u : σ} {a : α} : Reach R C s t → C t a → R t a u → Reach R C s u

namespace Reach

variable {R : σ → α → σ → Prop} {C D : σ → α → Prop} {s t u : σ}

theorem single {a : α} (hc : C s a) (h : R s a t) : Reach R C s t := tail refl hc h

theorem trans (h : Reach R C s t) (h' : Reach R C t u) : Reach R C s u := by
  induction h' with
  | refl => exact h
  | tail _ hc hr ih => exact tail ih hc hr

/-- A weaker condition admits more runs. -/
theorem mono (h : Reach R C s t) (hCD : ∀ x a, C x a → D x a) : Reach R D s t := by
  induction h with
  | refl => exact refl
  | tail _ hc hr ih => exact tail ih (hCD _ _ hc) hr

/-- **The invariant rule**: what holds at the start and is kept by every step holds throughout. -/
theorem invariant {I : σ → Prop} (h : Reach R C s t) (h0 : I s)
    (hstep : ∀ x a y, I x → C x a → R x a y → I y) : I t := by
  induction h with
  | refl => exact h0
  | tail _ hc hr ih => exact hstep _ _ _ ih hc hr

/-- **Simulation**: if `abs` turns every step into a step of another system, or into none, it turns
every run into a run. -/
theorem simulates {τ β : Type*} {R' : τ → β → τ → Prop} {C' : τ → β → Prop} (abs : σ → τ)
    (h : Reach R C s t) (hstep : ∀ x a y, C x a → R x a y →
      abs y = abs x ∨ ∃ b, C' (abs x) b ∧ R' (abs x) b (abs y)) :
    Reach R' C' (abs s) (abs t) := by
  induction h with
  | refl => exact refl
  | tail _ hc hr ih =>
    rcases hstep _ _ _ hc hr with hsame | ⟨b, hb, hb'⟩
    · rwa [hsame]
    · exact tail ih hb hb'

end Reach

/-- A run with its labels. -/
inductive Path (R : σ → α → σ → Prop) : List α → σ → σ → Prop
  | nil (s : σ) : Path R [] s s
  | cons {s t u : σ} {a : α} {l : List α} : R s a t → Path R l t u → Path R (a :: l) s u

/-- A run of two lists of labels is a run of the one and then of the other. -/
theorem Path.of_append {R : σ → α → σ → Prop} {l₁ l₂ : List α} {s t : σ}
    (h : Path R (l₁ ++ l₂) s t) : ∃ u, Path R l₁ s u ∧ Path R l₂ u t := by
  induction l₁ generalizing s with
  | nil => exact ⟨s, Path.nil s, h⟩
  | cons a l₁ ih =>
    cases h with
    | cons hr hrest =>
      obtain ⟨u, hu, hut⟩ := ih hrest
      exact ⟨u, hu.cons hr, hut⟩

/-- **Data refinement**: if every step from a state with the invariant `I` keeps `I` and is
tracked by `spec` through `abs`, so is every run. -/
theorem Path.refines {β : Type*} {R : σ → α → σ → Prop} {l : List α} {s t : σ}
    (I : σ → Prop) (abs : σ → β) (spec : β → α → β) (h : Path R l s t) (h0 : I s)
    (hstep : ∀ x a y, I x → R x a y → I y ∧ abs y = spec (abs x) a) :
    I t ∧ abs t = l.foldl spec (abs s) := by
  induction h with
  | nil s => exact ⟨h0, rfl⟩
  | cons hr _ ih =>
    obtain ⟨hI, habs⟩ := hstep _ _ _ h0 hr
    rw [List.foldl_cons, ← habs]
    exact ih hI

/-! ### Executing labels -/

/-- The label is enabled and its step does not fail. -/
def succeeds (step : σ → α → Option (Except ε σ)) (s : σ) (a : α) : Bool :=
  match step s a with
  | some (.ok _) => true
  | _ => false

/-- The state after a step that succeeds. -/
def next (step : σ → α → Option (Except ε σ)) (s : σ) (a : α) : σ :=
  match step s a with
  | some (.ok t) => t
  | _ => s

theorem moves_next {step : σ → α → Option (Except ε σ)} {s : σ} {a : α}
    (h : succeeds step s a = true) : Moves step s a (next step s a) := by
  unfold succeeds at h
  unfold Moves next
  split at h
  · next t ht => rw [ht]
  · cases h

theorem next_eq {step : σ → α → Option (Except ε σ)} {s t : σ} {a : α} (h : Moves step s a t) :
    next step s a = t := by
  unfold Moves at h
  unfold next
  rw [h]

/-- The label is enabled and its step fails with `e`. -/
def fails [DecidableEq ε] (step : σ → α → Option (Except ε σ)) (s : σ) (a : α) (e : ε) : Bool :=
  match step s a with
  | some (.error e') => decide (e' = e)
  | _ => false

theorem eq_of_fails [DecidableEq ε] {step : σ → α → Option (Except ε σ)} {s : σ} {a : α} {e : ε}
    (h : fails step s a e = true) : step s a = some (.error e) := by
  unfold fails at h
  split at h
  · next e' he => rw [he, of_decide_eq_true h]
  · cases h

section Run

variable (step : σ → α → Option (Except ε σ)) (C : σ → α → Prop) [∀ s a, Decidable (C s a)]

/-- The state after the labels of `l`; `none` when one of them is not enabled, does not satisfy the
condition `C`, or fails. -/
def run (s : σ) : List α → Option σ
  | [] => some s
  | a :: l =>
    match (if C s a then step s a else none) with
    | some (.ok t) => run t l
    | _ => none

variable {step C}

theorem reach_of_run {s t : σ} {l : List α} (h : run step C s l = some t) :
    Reach (Moves step) C s t := by
  induction l generalizing s with
  | nil => cases h; exact Reach.refl
  | cons a l ih =>
    rw [run] at h
    split at h
    · next v hv =>
      rw [Option.ite_none_right_eq_some] at hv
      exact (Reach.single hv.1 hv.2).trans (ih h)
    · cases h

theorem path_of_run {s t : σ} {l : List α} (h : run step C s l = some t) :
    Path (Moves step) l s t := by
  induction l generalizing s with
  | nil => cases h; exact Path.nil _
  | cons a l ih =>
    rw [run] at h
    split at h
    · next v hv =>
      rw [Option.ite_none_right_eq_some] at hv
      exact (ih h).cons hv.2
    · cases h

variable (step C)

/-- A concrete run that ends in a state with property `p` shows that such a state is reached. -/
theorem exists_reach_of_run (s : σ) (l : List α) (p : σ → Bool)
    (h : (run step C s l).any p = true) : ∃ t, Reach (Moves step) C s t ∧ p t = true := by
  cases hr : run step C s l with
  | none => rw [hr] at h; cases h
  | some t => exact ⟨t, reach_of_run hr, by simpa [hr] using h⟩

/-- The same with the labels of the run. -/
theorem exists_path_of_run (s : σ) (l : List α) (p : σ → Bool)
    (h : (run step C s l).any p = true) : ∃ t, Path (Moves step) l s t ∧ p t = true := by
  cases hr : run step C s l with
  | none => rw [hr] at h; cases h
  | some t => exact ⟨t, path_of_run hr, by simpa [hr] using h⟩

end Run

end Runs
