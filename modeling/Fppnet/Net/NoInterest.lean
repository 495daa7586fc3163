import Fppnet.Net.Registration

/-!
# Channels without events and the kernel's set

`EPoller::updateChannel` looks at `index_` first: a channel that is not registered is added, with
whatever events it has. So a channel that is left without events goes out of the kernel's set only
when it was registered, and comes back with an empty mask when it is disabled a second time.

* `Registered` is the condition on an operation;
* `no_interest_unwatched`: in a run whose operations meet it, the kernel watches no channel without
  events. It is exact for every operation;
* `disableAll_twice`: the second one of two calls of `disableAll` always changes the kernel's set.
-/

set_option linter.unusedSectionVars false

namespace Fppnet

open Runs

namespace Registration

open EPoller

variable {κ : Type} [DecidableEq κ]

/-- The kernel watches no channel that has no events. -/
def Unwatched (s : State κ) : Prop :=
  ∀ p, (s.channels p).isNoneEvent = true → s.poller.interest (s.channels p).fd_ = none

/-- A change that leaves a channel without events is made while the channel is registered. -/
def Registered (s : State κ) : κ × ChannelOp → Prop
  | (p, .change i) =>
    (i.apply (s.channels p)).isNoneEvent = true → (s.channels p).index_ = kAdded
  | (_, .remove) => True

instance (s : State κ) (l : κ × ChannelOp) : Decidable (Registered s l) :=
  match l with
  | (_, .change _) => inferInstanceAs (Decidable (_ → _))
  | (_, .remove) => inferInstanceAs (Decidable True)

/-- What a change leaves behind. -/
theorem change_eq {fd : κ → ℕ} {s t : State κ} (h : Kept fd s) {p : κ} {i : Interest}
    (hs : Moves step s (p, .change i) t) :
    (t.channels p).events_ = (i.apply (s.channels p)).events_ ∧
      (t.channels p).index_ = updatedIndex (i.apply (s.channels p)) ∧
      t.poller.interest (t.channels p).fd_ =
        if Drops (i.apply (s.channels p)) then none
        else some ((i.apply (s.channels p)).events_, p) := by
  have hagree : s.poller.Agrees p (i.apply (s.channels p)) :=
    (h.agrees p).congr (i.apply_fd _) (i.apply_index _)
  have hs' : some (Except.map (s.put p) (s.poller.updateChannel p (i.apply (s.channels p)))) =
      some (.ok t) := hs
  rw [(updateChannel_agrees hagree).1] at hs'
  cases hs'
  have hself : (s.put p (s.poller.updated p (i.apply (s.channels p)),
      (i.apply (s.channels p)).set_index (updatedIndex (i.apply (s.channels p))))).channels p =
      (i.apply (s.channels p)).set_index (updatedIndex (i.apply (s.channels p))) :=
    Function.update_self ..
  rw [hself]
  exact ⟨rfl, rfl, Function.update_self ..⟩

/-- An operation leaves the other channels alone. -/
theorem step_other {s t : State κ} {l : κ × ChannelOp} (hs : Moves step s l t) {q : κ}
    (hq : q ≠ l.1) : t.channels q = s.channels q := by
  obtain ⟨p, op⟩ := l
  unfold Moves at hs
  cases op with
  | change i =>
    obtain ⟨r, -, rfl⟩ := Checked.map_eq_ok.1 (Option.some.inj hs)
    exact Function.update_of_ne hq ..
  | remove =>
    obtain ⟨r, -, rfl⟩ := Checked.map_eq_ok.1 (Option.some.inj hs)
    exact Function.update_of_ne hq ..

/-- The kernel watches the registered channels. -/
theorem Kept.interest_eq_none {fd : κ → ℕ} {s : State κ} (h : Kept fd s) (p : κ) :
    s.poller.interest (s.channels p).fd_ = none ↔ (s.channels p).index_ ≠ kAdded := by
  rcases h.agrees p with ⟨hi, -, hk⟩ | ⟨hi, -, events, hk⟩ | ⟨hi, -, hk⟩
  · exact iff_of_true hk (by rw [hi]; decide)
  · exact iff_of_false (by rw [hk]; simp) (not_not.2 hi)
  · exact iff_of_true hk (by rw [hi]; decide)

/-- **Every operation keeps the channels without events out of the kernel's set if and only if it
meets the condition.** -/
theorem step_unwatched {fd : κ → ℕ} (hfd : fd.Injective) {s t : State κ} (h : Kept fd s)
    (hu : Unwatched s) {l : κ × ChannelOp} (hl : Legal s l) (hs : Moves step s l t) :
    Unwatched t ↔ Registered s l := by
  obtain ⟨t', ht', hkept⟩ := step_kept hfd h hl
  cases ht'.symm.trans hs
  have hother : ∀ q, q ≠ l.1 → (t.channels q).isNoneEvent = true →
      t.poller.interest (t.channels q).fd_ = none := by
    intro q hq hnone
    rw [hkept.interest_eq_none, step_other hs hq]
    rw [step_other hs hq] at hnone
    exact (h.interest_eq_none q).1 (hu q hnone)
  obtain ⟨p, op⟩ := l
  cases op with
  | change i =>
    obtain ⟨hevents, -, hint⟩ := change_eq h hs
    have hnone : (t.channels p).isNoneEvent = (i.apply (s.channels p)).isNoneEvent := by
      unfold Channel.isNoneEvent
      rw [hevents]
    have hdrops : t.poller.interest (t.channels p).fd_ = none ↔
        Drops (i.apply (s.channels p)) := by
      rw [hint]
      by_cases hd : Drops (i.apply (s.channels p))
      · rw [if_pos hd]
        exact iff_of_true rfl hd
      · rw [if_neg hd]
        exact iff_of_false (Option.some_ne_none _) hd
    constructor
    · intro hut hn
      have hd := hdrops.1 (hut p (hnone.trans hn))
      rw [← i.apply_index]
      exact hd.1
    · intro hreg q hq
      by_cases hqp : q = p
      · subst hqp
        rw [hnone] at hq
        exact hdrops.2 ⟨(i.apply_index _).trans (hreg hq), hq⟩
      · exact hother q hqp hq
  | remove =>
    refine iff_of_true (fun q hq => ?_) trivial
    by_cases hqp : q = p
    · subst hqp
      obtain ⟨⟨ep', ch'⟩, hr, rfl⟩ := Checked.map_eq_ok.1 (Option.some.inj hs)
      obtain ⟨-, -, rfl⟩ := removeChannel_ok hr
      rw [hkept.interest_eq_none]
      show (Function.update s.channels q _ q).index_ ≠ kAdded
      rw [Function.update_self]
      exact (by decide : kNew ≠ kAdded)
    · exact hother q hqp hq

theorem init_unwatched (fd : κ → ℕ) : Unwatched (State.init fd) := fun _ _ => rfl

/-- **The kernel watches no channel without events**, in every run whose operations meet the
condition; and in every state of such a run an operation keeps it so if and only if it meets the
condition. -/
theorem no_interest_unwatched {fd : κ → ℕ} (hfd : fd.Injective) {s : State κ}
    (h : Reach (Moves step) (fun s l => Legal s l ∧ Registered s l) (State.init fd) s) :
    Unwatched s ∧ ∀ l t, Legal s l → Moves step s l t → (Unwatched t ↔ Registered s l) := by
  have hkept := reach_kept hfd (h.mono fun x l hl => hl.1)
  suffices hu : Unwatched s from ⟨hu, fun l t hl hs => step_unwatched hfd hkept hu hl hs⟩
  refine (h.invariant (I := fun x => Kept fd x ∧ Unwatched x) ⟨init_kept fd, init_unwatched fd⟩
    fun x l y hx hl hs => ?_).2
  obtain ⟨z, hz, hy⟩ := step_kept hfd hx.1 hl.1
  cases hz.symm.trans hs
  exact ⟨hy, (step_unwatched hfd hx.1 hx.2 hl.1 hs).2 hl.2⟩

/-! Two channels: one is disabled and removed, the other one disabled and enabled again. -/

def disabledOnce : List (ℕ × ChannelOp) :=
  [(0, .change .enableReading), (1, .change .enableWriting), (0, .change .disableAll),
    (1, .change .disableWriting), (0, .remove), (1, .change .enableReading),
    (1, .change .disableAll)]

theorem no_interest_unwatched_disabledOnce : ∃ s : State ℕ, Unwatched s ∧
    (∀ l t, Legal s l → Moves step s l t → (Unwatched t ↔ Registered s l)) ∧
    s.poller.channels_ 1 = some 1 ∧ s.poller.interest 1 = none := by
  obtain ⟨s, hs, hp⟩ := exists_reach_of_run step (fun s l => Legal s l ∧ Registered s l)
    (State.init id) disabledOnce
    (fun s => s.poller.channels_ 1 = some 1 ∧ s.poller.interest 1 = none) (by decide +kernel)
  obtain ⟨h1, h2⟩ := no_interest_unwatched Function.injective_id hs
  exact ⟨s, h1, h2, of_decide_eq_true hp⟩

/-! The calls that `handleClose` and then `connectDestroyed` make. -/

theorem disabled_watched : ∃ s : State ℕ, Reach (Moves step) Legal (State.init id) s ∧
    (s.channels 5).isNoneEvent = true ∧ s.poller.interest 5 = some (0, 5) := by
  obtain ⟨s, hs, hp⟩ := exists_reach_of_run step Legal (State.init id)
    [(5, .change .enableReading), (5, .change .disableAll), (5, .change .disableAll)]
    (fun s => (s.channels 5).isNoneEvent = true ∧ s.poller.interest 5 = some (0, 5))
    (by decide +kernel)
  exact ⟨s, hs, of_decide_eq_true hp⟩

/-- `disableAll` takes a channel out of the kernel's set when it is there, and else puts it in. -/
theorem disableAll_flips {fd : κ → ℕ} {s t : State κ} (h : Kept fd s) {p : κ}
    (hs : Moves step s (p, .change .disableAll) t) (ht : Kept fd t) :
    t.poller.interest (fd p) = none ↔ s.poller.interest (fd p) ≠ none := by
  obtain ⟨-, -, hint⟩ := change_eq h hs
  have hnone := h.interest_eq_none p
  rw [ht.fds] at hint
  rw [h.fds] at hnone
  rw [hint, ne_eq, hnone, not_not]
  by_cases hd : Drops (Interest.disableAll.apply (s.channels p))
  · rw [if_pos hd]
    exact iff_of_true rfl hd.1
  · rw [if_neg hd]
    refine iff_of_false (Option.some_ne_none _) fun hidx => hd ⟨hidx, ?_⟩
    exact Channel.isNoneEvent_disableAll _

/-- **A second `disableAll` always changes the kernel's set.** -/
theorem disableAll_twice {fd : κ → ℕ} (hfd : fd.Injective) {s t u : State κ} {p : κ}
    (h : Reach (Moves step) Legal (State.init fd) s) (ht : Moves step s (p, .change .disableAll) t)
    (hu : Moves step t (p, .change .disableAll) u) : u.poller.interest ≠ t.poller.interest := by
  have hrt : Reach (Moves step) Legal (State.init fd) t :=
    h.tail (a := (p, .change .disableAll)) trivial ht
  have hkt := reach_kept hfd hrt
  have hku := reach_kept hfd (hrt.tail (a := (p, .change .disableAll)) trivial hu)
  intro he
  have hflip := disableAll_flips hkt hu hku
  rw [he] at hflip
  exact iff_not_self hflip

end Registration

end Fppnet
