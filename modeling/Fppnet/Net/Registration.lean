import Fppnet.Library.Run
import Fppnet.Net.EPoller

/-!
# The channels of one loop and its `EPoller`

The same fact about a channel is kept in three places: its `index_`, the map `channels_` and the
kernel's set. `State` has the channels of a loop beside the poller, and `step` is one operation of
`Channel.h` with its `update()`, or `removeChannel`. `bookkeeping` says that the three places agree
after every sequence of operations on channels with distinct descriptors, that each `epoll_ctl` is
one that can succeed, and that no assertion fails.
-/

set_option linter.unusedSectionVars false

namespace Fppnet

open Checked Runs

/-- The interest operations of `Channel.h`. -/
inductive Interest
  | enableReading
  | enableWriting
  | disableWriting
  | disableAll
  deriving DecidableEq

namespace Interest

/-- The change of `events_`. -/
def apply : Interest → Channel → Channel
  | enableReading => Channel.enableReading
  | enableWriting => Channel.enableWriting
  | disableWriting => Channel.disableWriting
  | disableAll => Channel.disableAll

@[simp] theorem apply_fd (i : Interest) (ch : Channel) : (i.apply ch).fd_ = ch.fd_ := by
  cases i <;> rfl

@[simp] theorem apply_index (i : Interest) (ch : Channel) :
    (i.apply ch).index_ = ch.index_ := by
  cases i <;> rfl

end Interest

/-- What a program does with a channel. -/
inductive ChannelOp
  | change (i : Interest)
  | remove
  deriving DecidableEq

namespace EPoller

variable {κ : Type} [DecidableEq κ]

/-- The operation that `updateChannel` gives to `epoll_ctl`. -/
def updateOp (ch : Channel) : CtlOp :=
  if ch.index_ = kNew ∨ ch.index_ = kDeleted then .add
  else if ch.isNoneEvent then .del
  else .mod

/-- The operation that `removeChannel` gives to `epoll_ctl`, if any. -/
def removeOp (ch : Channel) : Option CtlOp := if ch.index_ = kAdded then some .del else none

/-- The kernel accepts the operation. -/
def CtlLegal (ep : EPoller κ) (op : CtlOp) (fd : ℕ) : Prop :=
  match op with
  | .add => ep.interest fd = none
  | .mod | .del => ep.interest fd ≠ none

theorem epollCtl_isSome {ep : EPoller κ} {op : CtlOp} {fd : ℕ} {event : Events × κ} :
    (ep.epollCtl op fd event).isSome ↔ ep.CtlLegal op fd := by
  unfold epollCtl CtlLegal
  cases op <;> cases hi : ep.interest fd <;> simp

/-- `updateChannel` makes one call of `epoll_ctl`, with the operation `updateOp`. -/
theorem updateChannel_update {ep ep' : EPoller κ} {p : κ} {ch ch' : Channel}
    (h : ep.updateChannel p ch = .ok (ep', ch')) :
    ∃ (ep₀ : EPoller κ) (ch₀ : Channel), ep₀.interest = ep.interest ∧ ch₀.fd_ = ch.fd_ ∧
      ch₀.events_ = ch.events_ ∧ ep₀.update (updateOp ch) p ch₀ = .ok ep' := by
  unfold updateChannel at h
  unfold updateOp
  split_ifs at h with hnew hdel hnone
  · obtain ⟨-, h⟩ := require_bind_ok.1 h
    obtain ⟨ep₁, h₁, h⟩ := bind_eq_ok.1 h
    cases h
    rw [if_pos (.inl hnew)]
    refine ⟨_, _, ?_, ?_, ?_, h₁⟩ <;> rfl
  · obtain ⟨-, h⟩ := require_bind_ok.1 h
    obtain ⟨ep₁, h₁, h⟩ := bind_eq_ok.1 h
    cases h
    rw [if_pos (.inr hdel)]
    refine ⟨_, _, ?_, ?_, ?_, h₁⟩ <;> rfl
  · obtain ⟨-, h⟩ := require_bind_ok.1 h
    obtain ⟨-, h⟩ := require_bind_ok.1 h
    obtain ⟨ep₁, h₁, h⟩ := bind_eq_ok.1 h
    cases h
    rw [if_neg (not_or.2 ⟨hnew, hdel⟩), if_pos hnone]
    refine ⟨_, _, ?_, ?_, ?_, h₁⟩ <;> rfl
  · obtain ⟨-, h⟩ := require_bind_ok.1 h
    obtain ⟨-, h⟩ := require_bind_ok.1 h
    obtain ⟨ep₁, h₁, h⟩ := bind_eq_ok.1 h
    cases h
    rw [if_neg (not_or.2 ⟨hnew, hdel⟩), if_neg hnone]
    refine ⟨_, _, ?_, ?_, ?_, h₁⟩ <;> rfl

/-- `removeChannel` makes the call `removeOp`, or none. -/
theorem removeChannel_update {ep ep' : EPoller κ} {p : κ} {ch ch' : Channel}
    (h : ep.removeChannel p ch = .ok (ep', ch')) :
    ∃ ep₀ : EPoller κ, ep₀.interest = ep.interest ∧
      match removeOp ch with
      | some op => ep₀.update op p ch = .ok ep'
      | none => ep' = ep₀ := by
  unfold removeChannel at h
  obtain ⟨-, h⟩ := require_bind_ok.1 h
  obtain ⟨-, h⟩ := require_bind_ok.1 h
  obtain ⟨-, h⟩ := require_bind_ok.1 h
  obtain ⟨ep₁, h₁, h⟩ := bind_eq_ok.1 h
  cases h
  unfold removeOp
  split_ifs at h₁ ⊢ with hi
  · refine ⟨_, ?_, h₁⟩
    rfl
  · cases h₁
    refine ⟨_, ?_, rfl⟩
    rfl

end EPoller

namespace Registration

open EPoller

variable {κ : Type} [DecidableEq κ]

/-- The channels of a loop, and its poller. -/
structure State (κ : Type) where
  poller : EPoller κ
  channels : κ → Channel

namespace State

/-- New channels for the given descriptors. -/
def init (fd : κ → ℕ) : State κ := ⟨EPoller.empty, fun p => Channel.new (fd p)⟩

/-- The state after a function of the poller that concerned channel `p`. -/
def put (s : State κ) (p : κ) (r : EPoller κ × Channel) : State κ :=
  ⟨r.1, Function.update s.channels p r.2⟩

end State

def step (s : State κ) : κ × ChannelOp → Option (Except EPoller.Failure (State κ))
  | (p, .change i) => some ((s.poller.updateChannel p (i.apply (s.channels p))).map (s.put p))
  | (p, .remove) => some ((s.poller.removeChannel p (s.channels p)).map (s.put p))

/-- `removeChannel` is called for a registered channel without events. -/
def Legal (s : State κ) : κ × ChannelOp → Prop
  | (p, .remove) =>
    s.poller.channels_ (s.channels p).fd_ = some p ∧ (s.channels p).isNoneEvent = true
  | _ => True

instance (s : State κ) (l : κ × ChannelOp) : Decidable (Legal s l) := by
  obtain ⟨p, op⟩ := l
  cases op <;> unfold Legal <;> infer_instance

/-- The operation on the kernel's set that a step makes. -/
def ctlOp (s : State κ) : κ × ChannelOp → Option CtlOp
  | (p, .change i) => some (updateOp (i.apply (s.channels p)))
  | (p, .remove) => removeOp (s.channels p)

/-- The step from `s` to `t` calls `epoll_ctl` once, with operation `op` and the events of the
channel at its descriptor, or not at all, and makes no other change to the kernel's set. -/
def Issues (s : State κ) (l : κ × ChannelOp) (op : Option CtlOp) (t : State κ) : Prop :=
  ∃ (ep : EPoller κ) (ch : Channel), ep.interest = s.poller.interest ∧
    ch.fd_ = (s.channels l.1).fd_ ∧ ch.events_ = (t.channels l.1).events_ ∧
    match op with
    | some op => ep.update op l.1 ch = .ok t.poller
    | none => t.poller = ep

/-- A step gives its `ctlOp` to `epoll_ctl`. -/
theorem step_issues {s t : State κ} {l : κ × ChannelOp} (h : Moves step s l t) :
    Issues s l (ctlOp s l) t := by
  obtain ⟨p, op⟩ := l
  unfold Moves at h
  cases op with
  | change i =>
    obtain ⟨⟨ep', ch'⟩, hr, rfl⟩ := map_eq_ok.1 (Option.some.inj h)
    obtain ⟨ep₀, ch₀, hint, hfd, hevents, hup⟩ := updateChannel_update hr
    obtain ⟨-, rfl⟩ := updateChannel_ok hr
    have hch : (s.put p (ep', (i.apply (s.channels p)).set_index
        (updatedIndex (i.apply (s.channels p))))).channels p = _ := Function.update_self ..
    exact ⟨ep₀, ch₀, hint, hfd.trans (i.apply_fd _), by rw [hevents, hch]; rfl, hup⟩
  | remove =>
    obtain ⟨⟨ep', ch'⟩, hr, rfl⟩ := map_eq_ok.1 (Option.some.inj h)
    obtain ⟨ep₀, hint, hup⟩ := removeChannel_update hr
    obtain ⟨-, -, rfl⟩ := removeChannel_ok hr
    have hch : (s.put p (ep', (s.channels p).set_index kNew)).channels p = _ :=
      Function.update_self ..
    exact ⟨ep₀, s.channels p, hint, rfl, by rw [hch]; rfl, hup⟩

/-! ### The invariant -/

/-- The records of all channels agree, and every record belongs to a channel. -/
structure Kept (fd : κ → ℕ) (s : State κ) : Prop where
  fds : ∀ p, (s.channels p).fd_ = fd p
  agrees : ∀ p, s.poller.Agrees p (s.channels p)
  masks : ∀ p, (s.channels p).index_ = kAdded →
    s.poller.interest (fd p) = some ((s.channels p).events_, p)
  mapped : ∀ n p, s.poller.channels_ n = some p → n = fd p
  watched : ∀ n events p, s.poller.interest n = some (events, p) → s.poller.channels_ n = some p

/-- A function of the poller changes the records of one descriptor. -/
theorem Kept.put {fd : κ → ℕ} (hfd : fd.Injective) {s : State κ} (h : Kept fd s) {p : κ}
    {r : EPoller κ × Channel} (hr : r.2.fd_ = fd p) (hagree : r.1.Agrees p r.2)
    (hmask : r.2.index_ = kAdded → r.1.interest (fd p) = some (r.2.events_, p))
    (helse : ∀ n, n ≠ fd p →
      r.1.channels_ n = s.poller.channels_ n ∧ r.1.interest n = s.poller.interest n) :
    Kept fd (s.put p r) := by
  obtain ⟨ep, ch⟩ := r
  simp only at hr hagree hmask helse
  have hself : (s.put p (ep, ch)).channels p = ch := Function.update_self ..
  have hother : ∀ q, q ≠ p → (s.put p (ep, ch)).channels q = s.channels q :=
    fun q hq => Function.update_of_ne hq ..
  have hne : ∀ q, q ≠ p → fd q ≠ fd p := fun q hq he => hq (hfd he)
  refine ⟨fun q => ?_, fun q => ?_, fun q hq => ?_, fun n q hn => ?_, fun n e q hn => ?_⟩
  · by_cases hqp : q = p
    · rw [hqp, hself, hr]
    · rw [hother q hqp, h.fds q]
  · show ep.Agrees q _
    by_cases hqp : q = p
    · rw [hqp, hself]
      exact hagree
    · obtain ⟨hc, hi⟩ := helse (fd q) (hne q hqp)
      rw [hother q hqp]
      exact (h.agrees q).elsewhere (by rw [h.fds q, hc]) (by rw [h.fds q, hi])
  · show ep.interest (fd q) = _
    by_cases hqp : q = p
    · subst hqp
      rw [hself] at hq ⊢
      exact hmask hq
    · rw [hother q hqp] at hq ⊢
      rw [(helse (fd q) (hne q hqp)).2]
      exact h.masks q hq
  · change ep.channels_ n = some q at hn
    by_cases hnp : n = fd p
    · rw [hnp, ← hr] at hn
      rw [hnp, hagree.mapped hn]
    · rw [(helse n hnp).1] at hn
      exact h.mapped n q hn
  · change ep.interest n = some (e, q) at hn
    show ep.channels_ n = some q
    by_cases hnp : n = fd p
    · rw [hnp, ← hr] at hn ⊢
      exact (hagree.watched hn).2
    · rw [(helse n hnp).2] at hn
      rw [(helse n hnp).1]
      exact h.watched n e q hn

/-- A change of interest succeeds and keeps the records. -/
theorem change_kept {fd : κ → ℕ} (hfd : fd.Injective) {s : State κ} (h : Kept fd s) (p : κ)
    (i : Interest) : ∃ t, step s (p, .change i) = some (.ok t) ∧ Kept fd t := by
  have hch : s.poller.Agrees p (i.apply (s.channels p)) :=
    (h.agrees p).congr (i.apply_fd _) (i.apply_index _)
  obtain ⟨hok, hagree⟩ := updateChannel_agrees hch
  refine ⟨s.put p (s.poller.updated p (i.apply (s.channels p)),
    (i.apply (s.channels p)).set_index (updatedIndex (i.apply (s.channels p)))), ?_, ?_⟩
  · show some (Except.map (s.put p) (s.poller.updateChannel p (i.apply (s.channels p)))) = _
    rw [hok]
    rfl
  · have hfdp : (i.apply (s.channels p)).fd_ = fd p := by rw [i.apply_fd, h.fds]
    refine h.put hfd hfdp hagree (fun hidx => ?_) fun n hn => ?_
    · have hd : ¬ Drops (i.apply (s.channels p)) := by
        intro hd
        change updatedIndex _ = kAdded at hidx
        rw [updatedIndex, if_pos hd] at hidx
        exact absurd hidx (by decide)
      show Function.update s.poller.interest _ _ (fd p) = _
      rw [hfdp, Function.update_self, if_neg hd]
      rfl
    · rw [← hfdp] at hn
      exact ⟨Function.update_of_ne hn .., Function.update_of_ne hn ..⟩

/-- Removing a registered channel without events succeeds and keeps the records. -/
theorem remove_kept {fd : κ → ℕ} (hfd : fd.Injective) {s : State κ} (h : Kept fd s) {p : κ}
    (hl : Legal s (p, .remove)) : ∃ t, step s (p, .remove) = some (.ok t) ∧ Kept fd t := by
  obtain ⟨hmap, hnone⟩ := hl
  have hreg : (s.channels p).index_ ≠ kNew := by
    intro hidx
    rw [((h.agrees p).new hidx).1] at hmap
    cases hmap
  obtain ⟨ep', hok, hagree⟩ := removeChannel_agrees (h.agrees p) hreg hnone
  obtain ⟨hchan, hint, -⟩ := removeChannel_ok hok
  refine ⟨s.put p (ep', (s.channels p).set_index kNew), ?_, ?_⟩
  · show some (Except.map (s.put p) (s.poller.removeChannel p (s.channels p))) = _
    rw [hok]
    rfl
  · refine h.put hfd (h.fds p) hagree (fun hidx => absurd hidx (by decide : kNew ≠ kAdded))
      fun n hn => ?_
    rw [← h.fds p] at hn
    exact ⟨by rw [hchan]; exact Function.update_of_ne hn .., hint n hn⟩

/-- **Every legal operation succeeds and keeps the records.** -/
theorem step_kept {fd : κ → ℕ} (hfd : fd.Injective) {s : State κ} (h : Kept fd s)
    {l : κ × ChannelOp} (hl : Legal s l) : ∃ t, step s l = some (.ok t) ∧ Kept fd t := by
  obtain ⟨p, op⟩ := l
  cases op with
  | change i => exact change_kept hfd h p i
  | remove => exact remove_kept hfd h hl

theorem init_kept (fd : κ → ℕ) : Kept fd (State.init fd) := by
  refine ⟨fun _ => rfl, fun _ => .inl ⟨rfl, rfl, rfl⟩, fun p hidx => ?_, fun n p hn => ?_,
    fun n e p hn => ?_⟩
  · exact absurd hidx (by decide : (-1 : ℤ) ≠ kAdded)
  · cases hn
  · cases hn

theorem reach_kept {fd : κ → ℕ} (hfd : fd.Injective) {s : State κ}
    (h : Reach (Moves step) Legal (State.init fd) s) : Kept fd s := by
  refine h.invariant (init_kept fd) fun x l y hx hl hs => ?_
  obtain ⟨t, ht, hkept⟩ := step_kept hfd hx hl
  cases ht.symm.trans hs
  exact hkept

/-! ### The three records of a channel -/

/-- What `index_` says about the map and the kernel's set. -/
structure IndexTells (s : State κ) (p : κ) : Prop where
  new : (s.channels p).index_ = kNew ↔ ∀ n, s.poller.channels_ n ≠ some p
  deleted : (s.channels p).index_ = kDeleted ↔
    s.poller.channels_ (s.channels p).fd_ = some p ∧
      s.poller.interest (s.channels p).fd_ = none
  added : (s.channels p).index_ = kAdded ↔
    s.poller.channels_ (s.channels p).fd_ = some p ∧
      s.poller.interest (s.channels p).fd_ = some ((s.channels p).events_, p)

theorem Kept.indexTells {fd : κ → ℕ} {s : State κ} (h : Kept fd s) (p : κ) : IndexTells s p := by
  have hfdp := h.fds p
  rcases h.agrees p with ⟨hi, hc, hk⟩ | ⟨hi, hc, -⟩ | ⟨hi, hc, hk⟩
  · refine ⟨iff_of_true hi fun n hn => ?_, ?_, ?_⟩
    · rw [h.mapped n p hn, ← hfdp, hc] at hn
      cases hn
    · rw [hi, hc]
      exact iff_of_false (by decide) fun h' => by cases h'.1
    · rw [hi, hc]
      exact iff_of_false (by decide) fun h' => by cases h'.1
  · have hk := h.masks p hi
    rw [← hfdp] at hk
    refine ⟨?_, ?_, iff_of_true hi ⟨hc, hk⟩⟩
    · rw [hi]
      exact iff_of_false (by decide) fun h' => h' _ hc
    · rw [hi, hk]
      exact iff_of_false (by decide) fun h' => by cases h'.2
  · refine ⟨?_, iff_of_true hi ⟨hc, hk⟩, ?_⟩
    · rw [hi]
      exact iff_of_false (by decide) fun h' => h' _ hc
    · rw [hi, hk]
      exact iff_of_false (by decide) fun h' => by cases h'.2

/-- The kernel accepts the operation of every step. -/
theorem Kept.ctlLegal {fd : κ → ℕ} {s : State κ} (h : Kept fd s) (l : κ × ChannelOp) :
    ∀ op ∈ ctlOp s l, s.poller.CtlLegal op (s.channels l.1).fd_ := by
  obtain ⟨p, op⟩ := l
  intro op' hop
  cases op with
  | change i =>
    cases hop
    unfold updateOp
    rw [i.apply_index]
    rcases h.agrees p with ⟨hi, -, hk⟩ | ⟨hi, -, events, hk⟩ | ⟨hi, -, hk⟩
    · rw [if_pos (.inl hi)]
      exact hk
    · have hne : ¬ ((s.channels p).index_ = kNew ∨ (s.channels p).index_ = kDeleted) := by
        rw [hi]
        decide
      rw [if_neg hne]
      have hpresent : s.poller.interest (s.channels p).fd_ ≠ none := by
        rw [hk]
        exact Option.some_ne_none _
      split_ifs
      · exact hpresent
      · exact hpresent
    · rw [if_pos (.inr hi)]
      exact hk
  | remove =>
    change op' ∈ removeOp (s.channels p) at hop
    unfold removeOp at hop
    split_ifs at hop with hi
    · cases hop
      show s.poller.interest (s.channels p).fd_ ≠ none
      rw [h.fds p, h.masks p hi]
      exact Option.some_ne_none _
    · cases hop

/-- **The bookkeeping of `EPoller`**, after every sequence of operations on channels with distinct
descriptors: `index_`, `channels_` and the kernel's set agree about every channel; every operation
succeeds, and the `epoll_ctl` that it makes is legal; and the kernel holds only channels that
`channels_` has under their own descriptors. -/
theorem bookkeeping {fd : κ → ℕ} (hfd : fd.Injective) {s : State κ}
    (h : Reach (Moves step) Legal (State.init fd) s) :
    (∀ p, IndexTells s p) ∧
      (∀ l, Legal s l → (∃ t, step s l = some (.ok t) ∧ Issues s l (ctlOp s l) t) ∧
        ∀ op ∈ ctlOp s l, s.poller.CtlLegal op (s.channels l.1).fd_) ∧
      ∀ n events p, s.poller.interest n = some (events, p) →
        n = (s.channels p).fd_ ∧ s.poller.channels_ n = some p := by
  have hk := reach_kept hfd h
  refine ⟨hk.indexTells, fun l hl => ⟨?_, hk.ctlLegal l⟩, fun n events p hn => ?_⟩
  · obtain ⟨t, ht, -⟩ := step_kept hfd hk hl
    exact ⟨t, ht, step_issues ht⟩
  · have hmap := hk.watched n events p hn
    exact ⟨(hk.mapped n p hmap).trans (hk.fds p).symm, hmap⟩

/-! Two channels: one is disabled twice and enabled again, the other one removed. -/

def twoChannels : List (ℕ × ChannelOp) :=
  [(0, .change .enableReading), (1, .change .enableWriting), (0, .change .disableAll),
    (0, .change .disableAll), (1, .change .disableAll), (1, .remove),
    (0, .change .enableWriting)]

theorem bookkeeping_twoChannels :
    ∃ s : State ℕ, (∀ p, IndexTells s p) ∧
      (∀ l, Legal s l → (∃ t, step s l = some (.ok t) ∧ Issues s l (ctlOp s l) t) ∧
        ∀ op ∈ ctlOp s l, s.poller.CtlLegal op (s.channels l.1).fd_) ∧
      (∀ n events p, s.poller.interest n = some (events, p) →
        n = (s.channels p).fd_ ∧ s.poller.channels_ n = some p) ∧
      s.poller.interest 0 = some (POLLOUT, 0) := by
  obtain ⟨s, hs, hp⟩ := exists_reach_of_run step Legal (State.init id) twoChannels
    (fun s => s.poller.interest 0 = some (POLLOUT, 0)) (by decide +kernel)
  obtain ⟨h1, h2, h3⟩ := bookkeeping Function.injective_id hs
  exact ⟨s, h1, h2, h3, of_decide_eq_true hp⟩

end Registration

end Fppnet
