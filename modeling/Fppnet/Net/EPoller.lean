import Fppnet.Library.Checked
import Fppnet.Net.Channel

/-!
# `net/EPoller.cpp`: the registration of channels

* `EPoller κ`: the map `channels_` from descriptors to channels (`κ` stands for `Channel*`) and the
  kernel's interest set, which holds a mask and a channel for each watched descriptor;
* `epollCtl` is `epoll_ctl(2)`: adding a descriptor that is present and changing or deleting one
  that is absent fail;
* a failed assertion and a fatal log entry are errors of the computation (`EPoller.Failure`).

The functions that the poller runs on its thread check the thread where they are called
(`EventLoop::updateChannel`).
-/

set_option linter.unusedSectionVars false

namespace Fppnet

open Checked

/-- `EPoller`, with the kernel's set behind `epollfd_`. -/
structure EPoller (κ : Type) where
  channels_ : ℕ → Option κ
  interest : ℕ → Option (Events × κ)

namespace EPoller

variable {κ : Type} [DecidableEq κ]

/-- The ways in which the poller aborts the program. -/
inductive Failure
  | newIsPresent
  | deletedIsAbsent
  | addedIsAbsent
  | indexIsAdded
  | removeIsAbsent
  | removeHasEvents
  | removeIndex
  | sysFatal
  deriving DecidableEq

def kNew : ℤ := -1
def kAdded : ℤ := 1
def kDeleted : ℤ := 2

/-- The operations of `epoll_ctl`. -/
inductive CtlOp
  | add
  | mod
  | del
  deriving DecidableEq

/-- A poller that watches nothing. -/
def empty : EPoller κ := ⟨fun _ => none, fun _ => none⟩

/-- `epoll_ctl(2)`; `none` is an error return. -/
def epollCtl (ep : EPoller κ) (op : CtlOp) (fd : ℕ) (event : Events × κ) : Option (EPoller κ) :=
  match op, ep.interest fd with
  | .add, none => some { ep with interest := Function.update ep.interest fd (some event) }
  | .mod, some _ => some { ep with interest := Function.update ep.interest fd (some event) }
  | .del, some _ => some { ep with interest := Function.update ep.interest fd none }
  | _, _ => none

/-- `update`: a failing deletion is only logged. -/
def update (ep : EPoller κ) (op : CtlOp) (p : κ) (ch : Channel) : Except Failure (EPoller κ) :=
  match ep.epollCtl op ch.fd_ (ch.events_, p) with
  | some ep' => .ok ep'
  | none => if op = .del then .ok ep else .error .sysFatal

def updateChannel (ep : EPoller κ) (p : κ) (ch : Channel) :
    Except Failure (EPoller κ × Channel) :=
  if ch.index_ = kNew then do
    require (ep.channels_ ch.fd_ = none) .newIsPresent
    let ep := { ep with channels_ := Function.update ep.channels_ ch.fd_ (some p) }
    let ch := ch.set_index kAdded
    let ep ← ep.update .add p ch
    pure (ep, ch)
  else if ch.index_ = kDeleted then do
    require (ep.channels_ ch.fd_ = some p) .deletedIsAbsent
    let ch := ch.set_index kAdded
    let ep ← ep.update .add p ch
    pure (ep, ch)
  else do
    require (ep.channels_ ch.fd_ = some p) .addedIsAbsent
    require (ch.index_ = kAdded) .indexIsAdded
    if ch.isNoneEvent then
      let ep ← ep.update .del p ch
      pure (ep, ch.set_index kDeleted)
    else
      let ep ← ep.update .mod p ch
      pure (ep, ch)

def removeChannel (ep : EPoller κ) (p : κ) (ch : Channel) :
    Except Failure (EPoller κ × Channel) := do
  require (ep.channels_ ch.fd_ = some p) .removeIsAbsent
  require (ch.isNoneEvent = true) .removeHasEvents
  require (ch.index_ = kAdded ∨ ch.index_ = kDeleted) .removeIndex
  let ep := { ep with channels_ := Function.update ep.channels_ ch.fd_ none }
  let ep ← (if ch.index_ = kAdded then ep.update .del p ch else pure ep)
  pure (ep, ch.set_index kNew)

/-! ### What an update does -/

/-- An update that deletes the descriptor from the kernel's set. -/
def Drops (ch : Channel) : Prop := ch.index_ = kAdded ∧ ch.isNoneEvent = true

instance (ch : Channel) : Decidable (Drops ch) :=
  inferInstanceAs (Decidable (_ ∧ _))

/-- The poller after a successful update. -/
def updated (ep : EPoller κ) (p : κ) (ch : Channel) : EPoller κ where
  channels_ := Function.update ep.channels_ ch.fd_ (some p)
  interest := Function.update ep.interest ch.fd_ (if Drops ch then none else some (ch.events_, p))

/-- The mark of a channel after a successful update. -/
def updatedIndex (ch : Channel) : ℤ := if Drops ch then kDeleted else kAdded

theorem update_self {β : Type} {f : ℕ → β} {fd : ℕ} {x : β} (h : f fd = x) :
    Function.update f fd x = f := by
  rw [← h, Function.update_eq_self]

theorem update_add_ok {ep ep' : EPoller κ} {p : κ} {ch : Channel}
    (h : ep.update .add p ch = .ok ep') : ep.interest ch.fd_ = none ∧
      ep' = { ep with interest := Function.update ep.interest ch.fd_ (some (ch.events_, p)) } := by
  unfold update epollCtl at h
  cases hi : ep.interest ch.fd_ with
  | none => simp only [hi, Except.ok.injEq] at h; exact ⟨rfl, h.symm⟩
  | some e => simp [hi] at h

theorem update_mod_ok {ep ep' : EPoller κ} {p : κ} {ch : Channel}
    (h : ep.update .mod p ch = .ok ep') :
      ep' = { ep with interest := Function.update ep.interest ch.fd_ (some (ch.events_, p)) } := by
  unfold update epollCtl at h
  cases hi : ep.interest ch.fd_ with
  | none => simp [hi] at h
  | some e => simp only [hi, Except.ok.injEq] at h; exact h.symm

theorem update_del (ep : EPoller κ) (p : κ) (ch : Channel) :
    ep.update .del p ch =
      .ok { ep with interest := Function.update ep.interest ch.fd_ none } := by
  unfold update epollCtl
  cases hi : ep.interest ch.fd_ with
  | none => simp [update_self hi]
  | some e => rfl

/-- **The effect of `updateChannel`**, whichever of its branches is taken. -/
theorem updateChannel_ok {ep ep' : EPoller κ} {p : κ} {ch ch' : Channel}
    (h : ep.updateChannel p ch = .ok (ep', ch')) :
    ep' = ep.updated p ch ∧ ch' = ch.set_index (updatedIndex ch) := by
  unfold updateChannel at h
  split_ifs at h with hnew hdel hnone
  · obtain ⟨-, h⟩ := require_bind_ok.1 h
    obtain ⟨ep₁, h₁, h⟩ := bind_eq_ok.1 h
    obtain ⟨-, rfl⟩ := update_add_ok h₁
    cases h
    have hd : ¬ Drops ch := fun hd => by rw [hd.1] at hnew; exact absurd hnew (by decide)
    simp [updated, updatedIndex, hd, Channel.set_index]
  · obtain ⟨hc, h⟩ := require_bind_ok.1 h
    obtain ⟨ep₁, h₁, h⟩ := bind_eq_ok.1 h
    obtain ⟨-, rfl⟩ := update_add_ok h₁
    cases h
    have hd : ¬ Drops ch := fun hd => by rw [hd.1] at hdel; exact absurd hdel (by decide)
    simp [updated, updatedIndex, hd, Channel.set_index, update_self hc]
  · obtain ⟨hc, h⟩ := require_bind_ok.1 h
    obtain ⟨ha, h⟩ := require_bind_ok.1 h
    rw [update_del] at h
    cases h
    have hd : Drops ch := ⟨ha, hnone⟩
    simp [updated, updatedIndex, hd, update_self hc]
  · obtain ⟨hc, h⟩ := require_bind_ok.1 h
    obtain ⟨ha, h⟩ := require_bind_ok.1 h
    obtain ⟨ep₁, h₁, h⟩ := bind_eq_ok.1 h
    obtain rfl := update_mod_ok h₁
    cases h
    have hd : ¬ Drops ch := fun hd => hnone hd.2
    have hidx : ch.set_index kAdded = ch := by rw [← ha]; rfl
    simp [updated, updatedIndex, hd, hidx, update_self hc]

/-- `removeChannel` takes the channel out of the map, and out of the kernel's set or not. -/
theorem removeChannel_cases {ep ep' : EPoller κ} {p : κ} {ch ch' : Channel}
    (h : ep.removeChannel p ch = .ok (ep', ch')) :
    ep'.channels_ = Function.update ep.channels_ ch.fd_ none ∧
      (ep'.interest = Function.update ep.interest ch.fd_ none ∨ ep'.interest = ep.interest) ∧
      ch' = ch.set_index kNew := by
  unfold removeChannel at h
  obtain ⟨-, h⟩ := require_bind_ok.1 h
  obtain ⟨-, h⟩ := require_bind_ok.1 h
  obtain ⟨-, h⟩ := require_bind_ok.1 h
  obtain ⟨ep₁, h₁, h⟩ := bind_eq_ok.1 h
  cases h
  split_ifs at h₁
  · rw [update_del] at h₁
    cases h₁
    exact ⟨rfl, .inl rfl, rfl⟩
  · cases h₁
    exact ⟨rfl, .inr rfl, rfl⟩

/-- The effect of `removeChannel`. -/
theorem removeChannel_ok {ep ep' : EPoller κ} {p : κ} {ch ch' : Channel}
    (h : ep.removeChannel p ch = .ok (ep', ch')) :
    ep'.channels_ = Function.update ep.channels_ ch.fd_ none ∧
      (∀ fd, fd ≠ ch.fd_ → ep'.interest fd = ep.interest fd) ∧ ch' = ch.set_index kNew := by
  obtain ⟨hmap, hint, hch⟩ := removeChannel_cases h
  refine ⟨hmap, fun fd hfd => ?_, hch⟩
  rcases hint with hint | hint
  · rw [hint, Function.update_of_ne hfd]
  · rw [hint]

/-- `removeChannel` adds nothing to the kernel's set. -/
theorem removeChannel_interest {ep ep' : EPoller κ} {p : κ} {ch ch' : Channel}
    (h : ep.removeChannel p ch = .ok (ep', ch')) {fd : ℕ} {e : Events × κ}
    (he : ep'.interest fd = some e) : ep.interest fd = some e := by
  obtain ⟨-, hint | hint, -⟩ := removeChannel_cases h
  · rw [hint] at he
    by_cases hfd : fd = ch.fd_
    · rw [hfd, Function.update_self] at he
      cases he
    · rwa [Function.update_of_ne hfd] at he
  · rwa [← hint]

/-! ### Agreement of the three records -/

/-- The mark of a channel, the map and the kernel's set agree about it. -/
def Agrees (ep : EPoller κ) (p : κ) (ch : Channel) : Prop :=
  (ch.index_ = kNew ∧ ep.channels_ ch.fd_ = none ∧ ep.interest ch.fd_ = none) ∨
  (ch.index_ = kAdded ∧ ep.channels_ ch.fd_ = some p ∧
    ∃ events, ep.interest ch.fd_ = some (events, p)) ∨
  (ch.index_ = kDeleted ∧ ep.channels_ ch.fd_ = some p ∧ ep.interest ch.fd_ = none)

namespace Agrees

variable {ep ep' : EPoller κ} {p q : κ} {ch ch' : Channel}

/-- The records are about the descriptor and the mark of a channel only. -/
theorem congr (h : ep.Agrees p ch) (hfd : ch'.fd_ = ch.fd_) (hidx : ch'.index_ = ch.index_) :
    ep.Agrees p ch' := by
  unfold Agrees
  rw [hfd, hidx]
  exact h

/-- The agreement of the records about one channel does not depend on other descriptors. -/
theorem elsewhere (h : ep.Agrees p ch) (hc : ep'.channels_ ch.fd_ = ep.channels_ ch.fd_)
    (hi : ep'.interest ch.fd_ = ep.interest ch.fd_) : ep'.Agrees p ch := by
  unfold Agrees
  rw [hc, hi]
  exact h

theorem new (h : ep.Agrees p ch) (hidx : ch.index_ = kNew) :
    ep.channels_ ch.fd_ = none ∧ ep.interest ch.fd_ = none := by
  rcases h with ⟨-, hc, hi⟩ | ⟨hadded, -⟩ | ⟨hdeleted, -⟩
  · exact ⟨hc, hi⟩
  · rw [hidx] at hadded
    exact absurd hadded (by decide)
  · rw [hidx] at hdeleted
    exact absurd hdeleted (by decide)

theorem added (h : ep.Agrees p ch) (hidx : ch.index_ = kAdded) :
    ep.channels_ ch.fd_ = some p ∧ ∃ events, ep.interest ch.fd_ = some (events, p) := by
  rcases h with ⟨hnew, -⟩ | ⟨-, hc, hi⟩ | ⟨hdeleted, -⟩
  · rw [hidx] at hnew
    exact absurd hnew (by decide)
  · exact ⟨hc, hi⟩
  · rw [hidx] at hdeleted
    exact absurd hdeleted (by decide)

/-- The map names no other channel for the descriptor. -/
theorem mapped (h : ep.Agrees p ch) (hm : ep.channels_ ch.fd_ = some q) : q = p := by
  rcases h with ⟨-, hc, -⟩ | ⟨-, hc, -⟩ | ⟨-, hc, -⟩ <;> rw [hc] at hm <;> cases hm
  · rfl
  · rfl

/-- What the kernel watches at the descriptor is the channel. -/
theorem watched (h : ep.Agrees p ch) {events : Events}
    (hw : ep.interest ch.fd_ = some (events, q)) :
    ch.index_ = kAdded ∧ ep.channels_ ch.fd_ = some q := by
  rcases h with ⟨-, -, hi⟩ | ⟨hadded, hc, events', hi⟩ | ⟨-, -, hi⟩ <;> rw [hi] at hw <;> cases hw
  exact ⟨hadded, hc⟩

end Agrees

/-- While the records agree, an update does not abort and they agree again. -/
theorem updateChannel_agrees {ep : EPoller κ} {p : κ} {ch : Channel} (h : ep.Agrees p ch) :
    ep.updateChannel p ch = .ok (ep.updated p ch, ch.set_index (updatedIndex ch)) ∧
      (ep.updated p ch).Agrees p (ch.set_index (updatedIndex ch)) := by
  have hok : ∃ r, ep.updateChannel p ch = .ok r := by
    unfold updateChannel
    rcases h with ⟨hi, hc, hk⟩ | ⟨hi, hc, hk⟩ | ⟨hi, hc, hk⟩
    · rw [if_pos hi, require_of hc]
      simp [update, epollCtl, Channel.set_index, hk]
    · obtain ⟨events, he⟩ := hk
      rw [if_neg (by rw [hi]; decide), if_neg (by rw [hi]; decide), require_of hc, require_of hi]
      split_ifs <;> simp [update, epollCtl, he]
    · rw [if_neg (by rw [hi]; decide), if_pos hi, require_of hc]
      simp [update, epollCtl, Channel.set_index, hk]
  obtain ⟨⟨ep', ch'⟩, hr⟩ := hok
  obtain ⟨rfl, rfl⟩ := updateChannel_ok hr
  refine ⟨hr, ?_⟩
  by_cases hd : Drops ch
  · right; right
    simp [updated, updatedIndex, hd, Channel.set_index]
  · right; left
    simp [updated, updatedIndex, hd, Channel.set_index]

/-- While the records agree about a channel without events, removing it does not abort, and they
agree that it is not registered. -/
theorem removeChannel_agrees {ep : EPoller κ} {p : κ} {ch : Channel} (h : ep.Agrees p ch)
    (hreg : ch.index_ ≠ kNew) (hnone : ch.isNoneEvent = true) :
    ∃ ep', ep.removeChannel p ch = .ok (ep', ch.set_index kNew) ∧
      ep'.Agrees p (ch.set_index kNew) := by
  rcases h with ⟨hi, -⟩ | ⟨hi, hc, hk⟩ | ⟨hi, hc, hk⟩
  · exact absurd hi hreg
  · refine ⟨⟨Function.update ep.channels_ ch.fd_ none, Function.update ep.interest ch.fd_ none⟩,
      ?_, .inl ⟨rfl, Function.update_self .., Function.update_self ..⟩⟩
    simp only [removeChannel, require_of hc, ok_bind, require_of hnone, require_of (Or.inl hi),
      if_pos hi, update_del]
    rfl
  · have hne : ch.index_ ≠ kAdded := by rw [hi]; decide
    refine ⟨⟨Function.update ep.channels_ ch.fd_ none, ep.interest⟩,
      ?_, .inl ⟨rfl, Function.update_self .., hk⟩⟩
    simp only [removeChannel, require_of hc, ok_bind, require_of hnone, require_of (Or.inr hi),
      if_neg hne]
    rfl

end EPoller

end Fppnet
