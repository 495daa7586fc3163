import Fppnet.Net.Poller

/-!
# The array and the map of a `Poller`

The place of a channel in `pollfds_` is kept in the channel, as its `index_`. `removeChannel` moves
the last entry, and finds the channel whose index it has to correct through the descriptor of that
entry, which may be negated.

* `PollCall` are the calls that reach a `Poller`: the operations of `Channel.h`, `removeChannel`,
  and `updateChannel` for a channel as it is;
* `InStep`: the array and the map have the same size, and every channel of the map has an entry of
  its own, with its descriptor and its events;
* `Without s t p`: in `t` the channel `p` is gone, and the others have the entries they had;
* `slots_in_step`: after every sequence of calls that the assertions accept, the array and the map
  are in step, and a channel that is removed is gone without an effect on the others.
-/

set_option linter.unusedSectionVars false

namespace Fppnet

open Checked Runs Positions

/-- A call for a channel. -/
inductive PollCall
  | op (o : ChannelOp)
  | update
  deriving DecidableEq

namespace PollState

variable {κ : Type} [DecidableEq κ]

/-- `updateChannel`, for a channel that is now `ch`. -/
def update (s : PollState κ) (p : κ) (ch : Channel) : Except Poller.Failure (PollState κ) :=
  (s.poller.updateChannel p ch).map fun r => ⟨r.1, Function.update s.channels p r.2⟩

def call (s : PollState κ) : κ × PollCall → Except Poller.Failure (PollState κ)
  | (p, .op o) => s.apply (p, o)
  | (p, .update) => s.update p (s.channels p)

def step (s : PollState κ) (l : κ × PollCall) : Option (Except Poller.Failure (PollState κ)) :=
  some (s.call l)

/-- The array and the map are in step. -/
structure InStep (s : PollState κ) : Prop where
  size : {n | s.poller.channels_ n ≠ none}.encard = s.poller.pollfds_.length
  slot : ∀ n p, s.poller.channels_ n = some p → n = (s.channels p).fd_ ∧
    ∃ pfd, s.slot p = some pfd ∧
      (pfd.fd = (s.channels p).fd_ ∨ pfd.fd = -((s.channels p).fd_ : ℤ) - 1) ∧
      pfd.events.signExtend 32 = (s.channels p).events_
  distinct : ∀ n m p q, s.poller.channels_ n = some p → s.poller.channels_ m = some q → q ≠ p →
    (s.channels p).index_ ≠ (s.channels q).index_

/-- In `t` the channel `p` of `s` has been dropped, with its entry. -/
structure Without (s t : PollState κ) (p : κ) : Prop where
  channels_ : t.poller.channels_ = Function.update s.poller.channels_ (s.channels p).fd_ none
  pollfds_ : ∃ pfd, s.slot p = some pfd ∧ (pfd :: t.poller.pollfds_).Perm s.poller.pollfds_
  slots : ∀ n q, s.poller.channels_ n = some q → q ≠ p →
    t.poller.channels_ n = some q ∧ t.slot q = s.slot q
  interests : ∀ q, (t.channels q).fd_ = (s.channels q).fd_ ∧
    (t.channels q).events_ = (s.channels q).events_

/-! ### What the entries say -/

theorem Matched.inStep {fd : κ → ℕ} {s : PollState κ} (h : Matched fd s) : s.InStep := by
  constructor
  case size =>
    have hset : {n | s.positions n ≠ none} = {n | s.poller.channels_ n ≠ none} := by
      ext n
      exact not_congr Option.map_eq_none_iff
    rw [← hset, h.inverse.encard, List.length_map]
  case slot =>
    intro n p hp
    have hn : n = (s.channels p).fd_ := by rw [h.fds p, h.mapped n p hp]
    obtain ⟨pfd, he, -⟩ := h.entry hp
    refine ⟨hn, pfd, he, ?_, h.events n p pfd hp he⟩
    rw [← hn]
    exact h.entry_fd hp he
  case distinct =>
    intro n m p q hp hq hqp hidx
    exact h.place_ne hp hq hqp (congrArg Int.toNat hidx)

/-- `updateChannel` appends an entry or changes the one of the channel. -/
theorem update_cases {s t : PollState κ} {p : κ} {ch : Channel} (hs : s.update p ch = .ok t) :
    (s.poller.channels_ ch.fd_ = none ∧ t = s.appended p ch) ∨
      s.poller.channels_ ch.fd_ = some p ∧
        ∃ n : ℤ, (n = ch.fd_ ∨ n = -(ch.fd_ : ℤ) - 1) ∧ t = s.changed p ch n := by
  obtain ⟨r, hr, rfl⟩ := map_eq_ok.1 hs
  by_cases hnew : ch.index_ < 0
  · rw [Poller.updateChannel, if_pos hnew] at hr
    obtain ⟨hfree, hr⟩ := require_bind_ok.1 hr
    cases hr
    exact .inl ⟨hfree, rfl⟩
  · rw [Poller.updateChannel, if_neg hnew] at hr
    obtain ⟨hreg, hr⟩ := require_bind_ok.1 hr
    split at hr
    · cases hr
    · next pfd he =>
      obtain ⟨hfd, hr⟩ := require_bind_ok.1 hr
      cases hr
      refine .inr ⟨hreg, _, ?_, rfl⟩
      split_ifs
      · exact .inr rfl
      · exact hfd

theorem update_matched {fd : κ → ℕ} {s t : PollState κ} (h : Matched fd s) {p : κ} {ch : Channel}
    (hch : ch.fd_ = fd p) (hidx : ch.index_ = (s.channels p).index_)
    (hev : ch.events_.toNat < 2 ^ 3) (hs : s.update p ch = .ok t) : Matched fd t := by
  have hcase := update_cases hs
  rw [hch] at hcase
  rcases hcase with ⟨hfree, rfl⟩ | ⟨hreg, n, hn, rfl⟩
  · exact ⟨appended_placed h.toPlaced hch hev hfree,
      appended_entries h.toPlaced h.events hch (signExtend_setWidth hev)⟩
  · exact ⟨changed_placed h.toPlaced hreg hch hidx hev hn,
      changed_entries h.toPlaced h.events hreg hidx (signExtend_setWidth hev)⟩

/-- `removeChannel` keeps the entries in order, and drops one channel. -/
theorem remove_matched {fd : κ → ℕ} (hfd : fd.Injective) {s t : PollState κ} (h : Matched fd s)
    {p : κ} (hs : s.apply (p, .remove) = .ok t) : Matched fd t ∧ Without s t p := by
  have hr := apply_remove_removable hs
  obtain ⟨pfd, hslot, -⟩ := Option.map_eq_some_iff.1 hr.2.2
  have hp := hr.1
  rw [h.fds p] at hp
  have hkeeps : ∀ n q, s.poller.channels_ n = some q → q ≠ p →
      Function.update s.poller.channels_ (s.channels p).fd_ none n = some q := by
    intro n q hq hqp
    have hne : n ≠ (s.channels p).fd_ := by
      rintro rfl
      rw [hr.1] at hq
      exact hqp (Option.some.inj hq).symm
    rw [Function.update_of_ne hne, hq]
  rcases apply_remove h hr with ⟨hend, hs'⟩ | ⟨q, back, hback, hq, hqp, hidx, hs'⟩
  · cases hs'.symm.trans hs
    refine ⟨⟨popped_placed h.toPlaced hp hend, popped_entries h.toPlaced h.events hp hend⟩, rfl,
      ⟨pfd, hslot, pop_perm ?_⟩, fun n q hq hqp => ⟨hkeeps n q hq hqp, ?_⟩,
      fun _ => ⟨rfl, rfl⟩⟩
    · rw [List.getLast?_eq_getElem?, ← hend]
      exact (Poller.entry_eq_some.1 hslot).2
    · exact h.popped_slot hp hend hq hqp
  · cases hs'.symm.trans hs
    have hplaced := moved_placed hfd h.toPlaced hp hq hqp hidx
    refine ⟨⟨hplaced, moved_entries h.toPlaced h.events hp hback hq hqp hidx⟩, rfl,
      ⟨pfd, hslot, swapRemove_perm (Poller.entry_eq_some.1 hslot).2 hback ?_⟩,
      fun n r hn hrp => ⟨hkeeps n r hn hrp, h.moved_slot hp hback hq hqp hidx hn hrp⟩,
      fun r => ⟨?_, moved_events s p q back r⟩⟩
    · rw [← hidx]
      exact h.place_ne hp hq hqp
    · rw [hplaced.fds r, h.fds r]

/-! ### Runs -/

/-- **A call that the assertions accept keeps the entries in order.** -/
theorem call_matched {fd : κ → ℕ} (hfd : fd.Injective) {s t : PollState κ} (h : Matched fd s)
    {l : κ × PollCall} (hs : s.call l = .ok t) : Matched fd t := by
  obtain ⟨p, c⟩ := l
  cases c with
  | update => exact update_matched h (h.fds p) rfl (h.masks p) hs
  | op o =>
    cases o with
    | change i =>
      refine update_matched h ?_ (i.apply_index _) (i.apply_lt (h.masks p)) hs
      rw [i.apply_fd, h.fds p]
    | remove => exact (remove_matched hfd h hs).1

theorem update_ne_null {s : PollState κ} {p : κ} {ch : Channel} :
    s.update p ch ≠ .error .nullChannel := by
  intro hs
  have hr := map_eq_error.1 hs
  by_cases hnew : ch.index_ < 0
  · rw [Poller.updateChannel, if_pos hnew] at hr
    rcases require_bind_error.1 hr with ⟨-, hr⟩ | ⟨-, hr⟩ <;> cases hr
  · rw [Poller.updateChannel, if_neg hnew] at hr
    rcases require_bind_error.1 hr with ⟨-, hr⟩ | ⟨-, hr⟩
    · cases hr
    · split at hr
      · cases hr
      · rcases require_bind_error.1 hr with ⟨-, hr⟩ | ⟨-, hr⟩ <;> cases hr

/-- `removeChannel` finds the channel of the last entry. -/
theorem remove_ne_null {fd : κ → ℕ} {s : PollState κ} (h : Matched fd s) {p : κ} :
    s.apply (p, .remove) ≠ .error .nullChannel := by
  intro hs
  have hok : ¬ s.Removable p := by
    intro hr
    rcases apply_remove h hr with ⟨-, hs'⟩ | ⟨_, _, -, -, -, -, hs'⟩ <;>
      cases hs'.symm.trans hs
  have hr := map_eq_error.1 hs
  rcases require_bind_error.1 hr with ⟨-, hr⟩ | ⟨hreg, hr⟩
  · cases hr
  rcases require_bind_error.1 hr with ⟨-, hr⟩ | ⟨hnone, hr⟩
  · cases hr
  split at hr
  · next pfd back he hb =>
    rcases require_bind_error.1 hr with ⟨-, hr⟩ | ⟨⟨hfd, -⟩, -⟩
    · cases hr
    · refine hok ⟨hreg, hnone, ?_⟩
      unfold Ignored
      rw [he, Option.map_some, hfd]
  · cases hr

theorem call_ne_null {fd : κ → ℕ} {s : PollState κ} (h : Matched fd s) (l : κ × PollCall) :
    s.call l ≠ .error .nullChannel := by
  obtain ⟨p, c⟩ := l
  cases c with
  | update => exact update_ne_null
  | op o =>
    cases o with
    | change i => exact update_ne_null
    | remove => exact remove_ne_null h

theorem init_matched (fd : κ → ℕ) : Matched fd (PollState.init fd) := (init_filed fd).matched

/-- **The array and the map of a `Poller` stay in step.** After every sequence of calls that the
assertions accept, for channels with different descriptors, the array and the map have the same size
and every channel of the map has its own entry. No further call meets a channel that is missing from
the map; `removeChannel` accepts exactly the channels that its assertions describe, wherever they
are, and drops that channel and nothing else. -/
theorem slots_in_step {fd : κ → ℕ} (hfd : fd.Injective) {s : PollState κ}
    (h : Reach (Moves step) Always (PollState.init fd) s) :
    s.InStep ∧ (∀ l, s.call l ≠ .error .nullChannel) ∧
      ∀ p, (s.Removable p ↔ ∃ t, s.call (p, .op .remove) = .ok t) ∧
        ∀ t, s.call (p, .op .remove) = .ok t → Without s t p := by
  have hm : Matched fd s :=
    h.invariant (init_matched fd) fun x l y hx _ hs => call_matched hfd hx (Option.some.inj hs)
  refine ⟨hm.inStep, call_ne_null hm, fun p => ⟨⟨fun hr => ?_, ?_⟩, fun t hs => ?_⟩⟩
  · rcases apply_remove hm hr with ⟨-, hs⟩ | ⟨_, _, -, -, -, -, hs⟩
    · exact ⟨_, hs⟩
    · exact ⟨_, hs⟩
  · rintro ⟨t, hs⟩
    exact apply_remove_removable hs
  · exact (remove_matched hfd hm hs).2

/-! Four channels. The first is removed while the last entry is live, and the second while the last
entry is negated. -/

def fourChannels : List (ℕ × PollCall) :=
  [(0, .op (.change .enableReading)), (1, .op (.change .enableReading)),
    (2, .op (.change .enableWriting)), (3, .op (.change .enableReading)), (3, .update),
    (0, .op (.change .disableAll)), (0, .op .remove), (2, .op (.change .disableAll)),
    (1, .op (.change .disableAll))]

theorem slots_in_step_fourChannels :
    ∃ s t : PollState ℕ, s.InStep ∧ s.Removable 1 ∧ Without s t 1 ∧
      t.poller.pollfds_.map PollFd.fd = [3, -3] := by
  obtain ⟨s, hs, hp⟩ := exists_reach_of_run step Always (PollState.init id) fourChannels
    (fun s => succeeds step s (1, .op .remove) = true ∧
      (next step s (1, .op .remove)).poller.pollfds_.map PollFd.fd = [3, -3])
    (by decide +kernel)
  obtain ⟨hok, hfds⟩ := of_decide_eq_true hp
  have hnext := Option.some.inj (moves_next hok)
  obtain ⟨hstep, -, hremove⟩ := slots_in_step Function.injective_id hs
  exact ⟨s, _, hstep, (hremove 1).1.2 ⟨_, hnext⟩, (hremove 1).2 _ hnext, hfds⟩

end PollState

end Fppnet
