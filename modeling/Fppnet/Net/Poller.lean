import Fppnet.Library.Positions
import Fppnet.Net.Registration

/-!
# `net/Poller.cpp`: the registration of channels with `poll(2)`

* `Poller κ`: the array `pollfds_`, whose entries `poll(2)` ignores when their descriptor is
  negative, and the map `channels_`. The `index_` of a channel is its place in the array;
* `updateChannel` and `removeChannel`, with their assertions. `removeChannel` moves the last entry
  to the place of the removed one and corrects the index of its channel, so that both functions
  work on all channels of the loop.

`Twin` runs both pollers on the same operations. `pollers_agree` says that `Poller` accepts what
`EPoller` accepts and watches the same descriptors, and `Compatible` names the operations with which
this goes wrong: enabling a channel whose entry is ignored, using a removed channel again, and
removing a channel whose entry is not ignored.
-/

set_option linter.unusedSectionVars false

namespace Fppnet

open Checked Runs Positions

/-- `struct pollfd`. -/
structure PollFd where
  fd : ℤ
  events : BitVec 16
  revents : BitVec 16
  deriving DecidableEq

namespace PollFd

/-- The descriptor of an entry that may be ignored. -/
def descriptor (pfd : PollFd) : ℕ := (if pfd.fd < 0 then -pfd.fd - 1 else pfd.fd).toNat

end PollFd

/-- `Poller`. -/
structure Poller (κ : Type) where
  pollfds_ : List PollFd
  channels_ : ℕ → Option κ

namespace Poller

variable {κ : Type} [DecidableEq κ]

/-- The ways in which the poller aborts the program. -/
inductive Failure
  | newIsPresent
  | existingIsAbsent
  | index
  | entry
  | removeIsAbsent
  | removeHasEvents
  | nullChannel
  deriving DecidableEq

def empty : Poller κ := ⟨[], fun _ => none⟩

/-- `pollfds_[idx]`, with the assertion about `idx`. -/
def entry (po : Poller κ) (idx : ℤ) : Option PollFd :=
  if 0 ≤ idx then po.pollfds_[idx.toNat]? else none

/-- An entry with the events of a channel. -/
def entryOf (ch : Channel) (fd : ℤ) : PollFd := ⟨fd, ch.events_.setWidth 16, 0⟩

def updateChannel (po : Poller κ) (p : κ) (ch : Channel) : Except Failure (Poller κ × Channel) :=
  if ch.index_ < 0 then do
    require (po.channels_ ch.fd_ = none) .newIsPresent
    pure (⟨po.pollfds_ ++ [entryOf ch ch.fd_], Function.update po.channels_ ch.fd_ (some p)⟩,
      ch.set_index po.pollfds_.length)
  else do
    require (po.channels_ ch.fd_ = some p) .existingIsAbsent
    match po.entry ch.index_ with
    | none => .error .index
    | some pfd => do
      require (pfd.fd = ch.fd_ ∨ pfd.fd = -(ch.fd_ : ℤ) - 1) .entry
      -- an entry that is ignored stays so when its channel has events again
      let fd := if ch.isNoneEvent then -(ch.fd_ : ℤ) - 1 else pfd.fd
      pure ({ po with pollfds_ := po.pollfds_.set ch.index_.toNat (entryOf ch fd) }, ch)

/-- `removeChannel`. The index of the removed channel is left as it was. -/
def removeChannel (po : Poller κ) (channels : κ → Channel) (p : κ) :
    Except Failure (Poller κ × (κ → Channel)) := do
  let ch := channels p
  require (po.channels_ ch.fd_ = some p) .removeIsAbsent
  require (ch.isNoneEvent = true) .removeHasEvents
  match po.entry ch.index_, po.pollfds_.getLast? with
  | some pfd, some back => do
    require (pfd.fd = -(ch.fd_ : ℤ) - 1 ∧ pfd.events.signExtend 32 = ch.events_) .entry
    let channels_ := Function.update po.channels_ ch.fd_ none
    if ch.index_.toNat = po.pollfds_.length - 1 then
      pure (⟨po.pollfds_.dropLast, channels_⟩, channels)
    else
      match channels_ back.descriptor with
      | none => .error .nullChannel
      | some q =>
        pure (⟨(po.pollfds_.set ch.index_.toNat back).dropLast, channels_⟩,
          Function.update channels q ((channels q).set_index ch.index_))
  | _, _ => .error .index

/-- `poll(2)` reports the events of the mask for the descriptor. -/
def Watches (po : Poller κ) (fd : ℕ) (mask : Events) : Prop :=
  ∃ pfd ∈ po.pollfds_, pfd.fd = fd ∧ pfd.events.signExtend 32 = mask ∧ mask ≠ 0

instance (po : Poller κ) (fd : ℕ) (mask : Events) : Decidable (po.Watches fd mask) :=
  inferInstanceAs (Decidable (∃ pfd ∈ po.pollfds_, _))

end Poller

/-- `epoll_wait(2)` reports the events of the mask for the descriptor. -/
def EPoller.Watches {κ : Type} (ep : EPoller κ) (fd : ℕ) (mask : Events) : Prop :=
  (ep.interest fd).map Prod.fst = some mask ∧ mask ≠ 0

instance {κ : Type} (ep : EPoller κ) (fd : ℕ) (mask : Events) : Decidable (ep.Watches fd mask) :=
  inferInstanceAs (Decidable (_ ∧ _))

/-! ### Both pollers on the same operations -/

/-- The channels of a loop with a `Poller`. -/
structure PollState (κ : Type) where
  poller : Poller κ
  channels : κ → Channel

namespace PollState

variable {κ : Type} [DecidableEq κ]

def init (fd : κ → ℕ) : PollState κ := ⟨Poller.empty, fun p => Channel.new (fd p)⟩

def apply (s : PollState κ) : κ × ChannelOp → Except Poller.Failure (PollState κ)
  | (p, .change i) =>
    (s.poller.updateChannel p (i.apply (s.channels p))).map fun r =>
      ⟨r.1, Function.update s.channels p r.2⟩
  | (p, .remove) => (s.poller.removeChannel s.channels p).map fun r => ⟨r.1, r.2⟩

/-- `pollfds_[index()]`. -/
def slot (s : PollState κ) (p : κ) : Option PollFd := s.poller.entry (s.channels p).index_

/-- The channel has an entry, which `poll(2)` ignores. -/
def Ignored (s : PollState κ) (p : κ) : Prop :=
  (s.poller.entry (s.channels p).index_).map PollFd.fd = some (-((s.channels p).fd_ : ℤ) - 1)

instance (s : PollState κ) (p : κ) : Decidable (s.Ignored p) :=
  inferInstanceAs (Decidable (_ = _))

/-- What the assertions of `removeChannel` ask of a channel. -/
def Removable (s : PollState κ) (p : κ) : Prop :=
  s.poller.channels_ (s.channels p).fd_ = some p ∧ (s.channels p).isNoneEvent = true ∧ s.Ignored p

instance (s : PollState κ) (p : κ) : Decidable (s.Removable p) :=
  inferInstanceAs (Decidable (_ ∧ _ ∧ _))

end PollState

/-- Two copies of the channels, one with an `EPoller` and one with a `Poller`. -/
structure Twin (κ : Type) where
  epoll : Registration.State κ
  poll : PollState κ

namespace Twin

variable {κ : Type} [DecidableEq κ]

def init (fd : κ → ℕ) : Twin κ := ⟨Registration.State.init fd, PollState.init fd⟩

/-- An operation that `EPoller` accepts. -/
def step (t : Twin κ) (l : κ × ChannelOp) : Option (Except Poller.Failure (Twin κ)) :=
  match Registration.step t.epoll l with
  | some (.ok e) => some ((t.poll.apply l).map fun s => ⟨e, s⟩)
  | _ => none

/-- Both watch the same descriptors with the same masks. -/
def Agree (t : Twin κ) : Prop :=
  ∀ fd mask, t.epoll.poller.Watches fd mask ↔ t.poll.poller.Watches fd mask

/-- The operations on which the pollers agree. A channel is not used again once it has been removed,
one whose entry is ignored is not enabled again, and a channel is removed when its entry is
ignored. -/
def Compatible (t : Twin κ) : κ × ChannelOp → Prop
  | (p, .change i) =>
    (0 ≤ (t.poll.channels p).index_ → t.poll.poller.channels_ (t.poll.channels p).fd_ = some p) ∧
      (t.poll.Ignored p → (i.apply (t.poll.channels p)).isNoneEvent = true)
  | (p, .remove) => t.poll.Ignored p

instance (t : Twin κ) (l : κ × ChannelOp) : Decidable (t.Compatible l) :=
  match l with
  | (_, .change _) => inferInstanceAs (Decidable ((_ → _) ∧ (_ → _)))
  | (p, .remove) => inferInstanceAs (Decidable (t.poll.Ignored p))

end Twin

/-! ### The array of a `Poller` -/

theorem PollFd.descriptor_of {pfd : PollFd} {n : ℕ} (h : pfd.fd = n ∨ pfd.fd = -(n : ℤ) - 1) :
    pfd.descriptor = n := by
  unfold PollFd.descriptor
  rcases h with h | h <;> rw [h]
  · rw [if_neg (by omega)]
    exact Int.toNat_natCast n
  · rw [if_pos (by omega)]
    omega

/-- The masks of the interest operations have three bits. -/
theorem Interest.apply_lt (i : Interest) {ch : Channel} (h : ch.events_.toNat < 2 ^ 3) :
    (i.apply ch).events_.toNat < 2 ^ 3 := by
  cases i with
  | enableReading =>
    show (ch.events_ ||| Channel.kReadEvent).toNat < 2 ^ 3
    rw [BitVec.toNat_or]
    exact Nat.or_lt_two_pow h (by decide)
  | enableWriting =>
    show (ch.events_ ||| Channel.kWriteEvent).toNat < 2 ^ 3
    rw [BitVec.toNat_or]
    exact Nat.or_lt_two_pow h (by decide)
  | disableWriting =>
    show (ch.events_ &&& ~~~Channel.kWriteEvent).toNat < 2 ^ 3
    rw [BitVec.toNat_and]
    exact Nat.lt_of_le_of_lt Nat.and_le_left h
  | disableAll => exact (by decide : (0#32).toNat < 2 ^ 3)

/-- Such a mask fits a `short`. -/
theorem signExtend_setWidth {e : Events} (h : e.toNat < 2 ^ 3) :
    (e.setWidth 16).signExtend 32 = e := by
  obtain ⟨n, hn, rfl⟩ : ∃ n < 2 ^ 3, e = BitVec.ofNat 32 n := ⟨e.toNat, h, by simp⟩
  interval_cases n <;> decide

namespace Poller

variable {κ : Type} [DecidableEq κ]

theorem entry_eq_some {po : Poller κ} {idx : ℤ} {pfd : PollFd} :
    po.entry idx = some pfd ↔ 0 ≤ idx ∧ po.pollfds_[idx.toNat]? = some pfd := by
  unfold entry
  split_ifs with h <;> simp [h]

theorem entry_congr {po po' : Poller κ} {idx : ℤ}
    (h : po.pollfds_[idx.toNat]? = po'.pollfds_[idx.toNat]?) : po.entry idx = po'.entry idx := by
  unfold entry
  rw [h]

end Poller

namespace PollState

variable {κ : Type} [DecidableEq κ]

/-- The place of the channel that is registered for a descriptor. -/
def positions (s : PollState κ) (n : ℕ) : Option ℕ :=
  (s.poller.channels_ n).map fun p => (s.channels p).index_.toNat

theorem positions_eq {s : PollState κ} {n : ℕ} {p : κ} (hp : s.poller.channels_ n = some p) :
    s.positions n = some (s.channels p).index_.toNat := by
  unfold positions
  rw [hp]
  rfl

/-- The map changes at one descriptor, and no channel at another moves. -/
theorem positions_update {s t : PollState κ} {n : ℕ} {v : Option κ}
    (hmap : t.poller.channels_ = Function.update s.poller.channels_ n v)
    (hidx : ∀ m q, m ≠ n → s.poller.channels_ m = some q →
      (t.channels q).index_ = (s.channels q).index_) :
    t.positions = Function.update s.positions n (v.map fun p => (t.channels p).index_.toNat) := by
  funext m
  rw [positions, hmap]
  by_cases hm : m = n
  · rw [hm, Function.update_self, Function.update_self]
  · rw [Function.update_of_ne hm, Function.update_of_ne hm, positions]
    cases hq : s.poller.channels_ m with
    | none => rfl
    | some q => rw [Option.map_some, Option.map_some, hidx m q hm hq]

/-- Every entry of the array belongs to the registered channel with its descriptor. -/
structure Placed (fd : κ → ℕ) (s : PollState κ) : Prop where
  fds : ∀ p, (s.channels p).fd_ = fd p
  masks : ∀ p, (s.channels p).events_.toNat < 2 ^ 3
  mapped : ∀ n p, s.poller.channels_ n = some p → n = fd p
  index : ∀ n p, s.poller.channels_ n = some p → 0 ≤ (s.channels p).index_
  inverse : Inverse (s.poller.pollfds_.map PollFd.descriptor) s.positions

/-- The entry of every registered channel is in the relation `R` with the descriptor and the
events. -/
def Entries (R : ℕ → Events → PollFd → Prop) (s : PollState κ) : Prop :=
  ∀ n p pfd, s.poller.channels_ n = some p → s.slot p = some pfd → R n (s.channels p).events_ pfd

/-- The entry has the events of the channel. -/
def HasEvents (_ : ℕ) (events : Events) (pfd : PollFd) : Prop := pfd.events.signExtend 32 = events

/-- Every entry has the events of its channel. -/
structure Matched (fd : κ → ℕ) (s : PollState κ) : Prop extends Placed fd s where
  events : s.Entries HasEvents

/-- The entry has the events of the channel, and is ignored only when there are none. -/
def Live (n : ℕ) (events : Events) (pfd : PollFd) : Prop :=
  HasEvents n events pfd ∧ (pfd.fd = n ∨ (events == Channel.kNoneEvent) = true)

/-- Every entry has the events of its channel, and is ignored only when there are none. -/
structure Filed (fd : κ → ℕ) (s : PollState κ) : Prop extends Placed fd s where
  entries : ∀ n p pfd, s.poller.channels_ n = some p →
    s.poller.entry (s.channels p).index_ = some pfd →
    pfd.events.signExtend 32 = (s.channels p).events_ ∧
      (pfd.fd = n ∨ (s.channels p).isNoneEvent = true)

/-- A registered channel has an entry. -/
theorem Placed.entry {fd : κ → ℕ} {s : PollState κ} (h : Placed fd s) {n : ℕ} {p : κ}
    (hp : s.poller.channels_ n = some p) :
    ∃ pfd, s.poller.entry (s.channels p).index_ = some pfd ∧ pfd.descriptor = n := by
  have hget := (h.inverse n _).1 (positions_eq hp)
  rw [List.getElem?_map] at hget
  obtain ⟨pfd, hpfd, hdesc⟩ := Option.map_eq_some_iff.1 hget
  exact ⟨pfd, Poller.entry_eq_some.2 ⟨h.index n p hp, hpfd⟩, hdesc⟩

/-- An entry belongs to a registered channel. -/
theorem Placed.channel {fd : κ → ℕ} {s : PollState κ} (h : Placed fd s) {i : ℕ} {pfd : PollFd}
    (hi : s.poller.pollfds_[i]? = some pfd) :
    ∃ p, s.poller.channels_ pfd.descriptor = some p ∧ (s.channels p).index_ = i := by
  have hpos : s.positions pfd.descriptor = some i := by
    rw [h.inverse, List.getElem?_map, hi]
    rfl
  obtain ⟨p, hp, hidx⟩ := Option.map_eq_some_iff.1 hpos
  have h0 := h.index _ p hp
  exact ⟨p, hp, by omega⟩

/-- Two registered channels at one place are the same. -/
theorem Placed.index_injective {fd : κ → ℕ} {s : PollState κ} (h : Placed fd s) {n m : ℕ}
    {p q : κ} (hp : s.poller.channels_ n = some p) (hq : s.poller.channels_ m = some q)
    (hidx : (s.channels p).index_ = (s.channels q).index_) : n = m := by
  have hq' := positions_eq hq
  rw [← hidx] at hq'
  exact h.inverse.injective (positions_eq hp) hq'

/-- Different registered channels are at different places. -/
theorem Placed.place_ne {fd : κ → ℕ} {s : PollState κ} (h : Placed fd s) {n m : ℕ} {p q : κ}
    (hp : s.poller.channels_ n = some p) (hq : s.poller.channels_ m = some q) (hqp : q ≠ p) :
    (s.channels p).index_.toNat ≠ (s.channels q).index_.toNat := by
  intro hto
  have hp0 := h.index n p hp
  have hq0 := h.index m q hq
  have hnm := h.index_injective hp hq (by omega)
  rw [hnm, hq] at hp
  exact hqp (Option.some.inj hp)

theorem Placed.place_lt {fd : κ → ℕ} {s : PollState κ} (h : Placed fd s) {n : ℕ} {p : κ}
    (hp : s.poller.channels_ n = some p) :
    (s.channels p).index_.toNat < s.poller.pollfds_.length := by
  have hlt := h.inverse.lt_length (positions_eq hp)
  rwa [List.length_map] at hlt

/-- The relation is kept where the channels keep their entries. -/
theorem Entries.of_slots {R : ℕ → Events → PollFd → Prop} {s t : PollState κ} (h : s.Entries R)
    (hmap : ∀ n q, t.poller.channels_ n = some q → s.poller.channels_ n = some q ∧
      t.slot q = s.slot q) (hev : ∀ q, (t.channels q).events_ = (s.channels q).events_) :
    t.Entries R := by
  intro n q pfd hn hq
  obtain ⟨hn', hslot⟩ := hmap n q hn
  rw [hslot] at hq
  rw [hev]
  exact h n q pfd hn' hq

theorem Filed.live {fd : κ → ℕ} {s : PollState κ} (h : Filed fd s) : s.Entries Live := h.entries

theorem Filed.matched {fd : κ → ℕ} {s : PollState κ} (h : Filed fd s) : Matched fd s :=
  ⟨h.toPlaced, fun n p pfd hn hp => (h.live n p pfd hn hp).1⟩

/-- What is watched is what the registered channels ask for. -/
theorem Filed.watches_iff {fd : κ → ℕ} {s : PollState κ} (h : Filed fd s) {n : ℕ} {mask : Events} :
    s.poller.Watches n mask ↔
      ∃ p, s.poller.channels_ n = some p ∧ (s.channels p).events_ = mask ∧ mask ≠ 0 := by
  constructor
  · rintro ⟨pfd, hmem, hfd, hmask, h0⟩
    obtain ⟨i, hi⟩ := List.getElem?_of_mem hmem
    obtain ⟨p, hp, hidx⟩ := h.channel hi
    rw [PollFd.descriptor_of (.inl hfd)] at hp
    have hentry : s.poller.entry (s.channels p).index_ = some pfd := by
      rw [hidx, Poller.entry_eq_some]
      exact ⟨Int.natCast_nonneg i, hi⟩
    exact ⟨p, hp, (h.entries n p pfd hp hentry).1.symm.trans hmask, h0⟩
  · rintro ⟨p, hp, hmask, h0⟩
    obtain ⟨pfd, hentry, -⟩ := h.entry hp
    obtain ⟨hev, hfd⟩ := h.entries n p pfd hp hentry
    refine ⟨pfd, List.mem_of_getElem? (Poller.entry_eq_some.1 hentry).2, ?_, hev.trans hmask, h0⟩
    refine hfd.resolve_right fun hnone => h0 ?_
    rw [← hmask]
    exact eq_of_beq hnone

/-- The entry of a registered channel is found at its descriptor or negated. -/
theorem Placed.entry_fd {fd : κ → ℕ} {s : PollState κ} (h : Placed fd s) {n : ℕ} {p : κ}
    {pfd : PollFd} (hp : s.poller.channels_ n = some p)
    (he : s.poller.entry (s.channels p).index_ = some pfd) :
    pfd.fd = n ∨ pfd.fd = -(n : ℤ) - 1 := by
  obtain ⟨pfd', he', hdesc⟩ := h.entry hp
  rw [he] at he'
  cases he'
  unfold PollFd.descriptor at hdesc
  split_ifs at hdesc with hneg <;> omega

/-! ### `updateChannel` and `removeChannel` -/

/-- The state after a new channel has been appended. -/
def appended (s : PollState κ) (p : κ) (ch : Channel) : PollState κ where
  poller := ⟨s.poller.pollfds_ ++ [Poller.entryOf ch ch.fd_],
    Function.update s.poller.channels_ ch.fd_ (some p)⟩
  channels := Function.update s.channels p (ch.set_index s.poller.pollfds_.length)

/-- The state after the entry of a channel has been changed. -/
def changed (s : PollState κ) (p : κ) (ch : Channel) (n : ℤ) : PollState κ where
  poller := { s.poller with
    pollfds_ := s.poller.pollfds_.set ch.index_.toNat (Poller.entryOf ch n) }
  channels := Function.update s.channels p ch

@[simp] theorem appended_channels_self (s : PollState κ) (p : κ) (ch : Channel) :
    (s.appended p ch).channels p = ch.set_index s.poller.pollfds_.length := Function.update_self ..

theorem appended_channels_ne (s : PollState κ) {p q : κ} (ch : Channel) (hqp : q ≠ p) :
    (s.appended p ch).channels q = s.channels q := Function.update_of_ne hqp ..

@[simp] theorem changed_channels_self (s : PollState κ) (p : κ) (ch : Channel) (n : ℤ) :
    (s.changed p ch n).channels p = ch := Function.update_self ..

theorem changed_channels_ne (s : PollState κ) {p q : κ} (ch : Channel) (n : ℤ) (hqp : q ≠ p) :
    (s.changed p ch n).channels q = s.channels q := Function.update_of_ne hqp ..

/-- A channel that has never been registered is appended. -/
theorem apply_new {s : PollState κ} {p : κ} {i : Interest} (hidx : (s.channels p).index_ < 0)
    (hfree : s.poller.channels_ (s.channels p).fd_ = none) :
    s.apply (p, .change i) = .ok (s.appended p (i.apply (s.channels p))) := by
  have hidx' : (i.apply (s.channels p)).index_ < 0 := by rwa [i.apply_index]
  have hfree' : s.poller.channels_ (i.apply (s.channels p)).fd_ = none := by rwa [i.apply_fd]
  show Except.map _ (s.poller.updateChannel p (i.apply (s.channels p))) = _
  rw [Poller.updateChannel, if_pos hidx', require_of hfree']
  rfl

/-- A removed channel is not accepted any more. -/
theorem apply_removed {s : PollState κ} {p : κ} {i : Interest} (hidx : 0 ≤ (s.channels p).index_)
    (habsent : s.poller.channels_ (s.channels p).fd_ ≠ some p) {t : PollState κ} :
    s.apply (p, .change i) ≠ .ok t := by
  intro hs
  obtain ⟨r, hr, -⟩ := map_eq_ok.1 hs
  rw [Poller.updateChannel, if_neg (by rw [i.apply_index]; omega)] at hr
  obtain ⟨hp, -⟩ := require_bind_ok.1 hr
  rw [i.apply_fd] at hp
  exact habsent hp

/-- The entry of a registered channel is changed. -/
theorem apply_registered {fd : κ → ℕ} {s : PollState κ} (h : Placed fd s) {p : κ} {i : Interest}
    {pfd : PollFd} (hp : s.poller.channels_ (s.channels p).fd_ = some p)
    (he : s.poller.entry (s.channels p).index_ = some pfd) :
    s.apply (p, .change i) = .ok (s.changed p (i.apply (s.channels p))
      (if (i.apply (s.channels p)).isNoneEvent then -((s.channels p).fd_ : ℤ) - 1
        else pfd.fd)) := by
  have h0 := h.index _ p hp
  show Except.map _ (s.poller.updateChannel p (i.apply (s.channels p))) = _
  rw [Poller.updateChannel, if_neg (by rw [i.apply_index]; omega), i.apply_fd, i.apply_index,
    require_of hp, ok_bind, he]
  simp only [require_of (h.entry_fd hp he), ok_bind, changed, i.apply_index]
  rfl

/-- The channels registered after `p` has been appended. -/
theorem Placed.extended {fd : κ → ℕ} {s : PollState κ} (h : Placed fd s) {p : κ} {n : ℕ} {q : κ}
    (hn : Function.update s.poller.channels_ (fd p) (some p) n = some q) :
    n = fd p ∧ q = p ∨ n ≠ fd p ∧ q ≠ p ∧ s.poller.channels_ n = some q := by
  by_cases hnp : n = fd p
  · rw [hnp, Function.update_self] at hn
    exact .inl ⟨hnp, (Option.some.inj hn).symm⟩
  · rw [Function.update_of_ne hnp] at hn
    refine .inr ⟨hnp, fun hq => ?_, hn⟩
    rw [hq] at hn
    exact hnp (h.mapped n p hn)

theorem appended_placed {fd : κ → ℕ} {s : PollState κ} (h : Placed fd s) {p : κ}
    {ch : Channel} (hch : ch.fd_ = fd p) (hev : ch.events_.toNat < 2 ^ 3)
    (hfree : s.poller.channels_ (fd p) = none) : Placed fd (s.appended p ch) := by
  have hmap : (s.appended p ch).poller.channels_ =
      Function.update s.poller.channels_ (fd p) (some p) := by
    rw [← hch]
    rfl
  constructor
  case fds =>
    exact (Function.forall_update_iff s.channels fun q ch => ch.fd_ = fd q).2
      ⟨hch, fun q _ => h.fds q⟩
  case masks =>
    exact (Function.forall_update_iff s.channels fun _ ch => ch.events_.toNat < 2 ^ 3).2
      ⟨hev, fun q _ => h.masks q⟩
  case mapped =>
    intro n q hn
    rw [hmap] at hn
    rcases h.extended hn with ⟨hnp, hq⟩ | ⟨-, -, hn⟩
    · rw [hnp, hq]
    · exact h.mapped n q hn
  case index =>
    intro n q hn
    rw [hmap] at hn
    rcases h.extended hn with ⟨-, hq⟩ | ⟨-, hq, hn⟩
    · rw [hq, appended_channels_self]
      exact Int.natCast_nonneg _
    · rw [appended_channels_ne s ch hq]
      exact h.index n q hn
  case inverse =>
    have hpos := positions_update hmap fun m q hm hq => by
      have hqp : q ≠ p := fun hqp => hm (hqp ▸ h.mapped m q hq)
      rw [appended_channels_ne s ch hqp]
    have hplace : ((s.appended p ch).channels p).index_.toNat =
        (s.poller.pollfds_.map PollFd.descriptor).length := by
      rw [appended_channels_self, List.length_map]
      rfl
    have hfresh : s.positions (fd p) = none := by
      unfold positions
      rw [hfree]
      rfl
    have hdesc : (Poller.entryOf ch (ch.fd_ : ℤ)).descriptor = fd p :=
      PollFd.descriptor_of (.inl (by rw [Poller.entryOf, hch]))
    show Inverse ((s.poller.pollfds_ ++ [Poller.entryOf ch ch.fd_]).map _) _
    rw [hpos, Option.map_some, hplace, List.map_append, List.map_singleton, hdesc]
    exact h.inverse.push hfresh

/-- The entry of the new channel is the last one. -/
theorem appended_slot_self (s : PollState κ) (p : κ) (ch : Channel) :
    (s.appended p ch).slot p = some (Poller.entryOf ch ch.fd_) := by
  rw [slot, appended_channels_self, Poller.entry_eq_some]
  refine ⟨Int.natCast_nonneg _, ?_⟩
  show (s.poller.pollfds_ ++ [Poller.entryOf ch ch.fd_])[s.poller.pollfds_.length]? = _
  simp

theorem Placed.appended_slot {fd : κ → ℕ} {s : PollState κ} (h : Placed fd s) {p : κ}
    (ch : Channel) {n : ℕ} {q : κ} (hq : s.poller.channels_ n = some q) (hqp : q ≠ p) :
    (s.appended p ch).slot q = s.slot q := by
  rw [slot, appended_channels_ne s ch hqp]
  exact Poller.entry_congr (List.getElem?_append_left (h.place_lt hq))

theorem appended_entries {R : ℕ → Events → PollFd → Prop} {fd : κ → ℕ} {s : PollState κ}
    (h : Placed fd s) (he : s.Entries R) {p : κ} {ch : Channel} (hch : ch.fd_ = fd p)
    (hnew : R (fd p) ch.events_ (Poller.entryOf ch (fd p))) : (s.appended p ch).Entries R := by
  intro n q pfd hn hq
  change Function.update s.poller.channels_ ch.fd_ (some p) n = some q at hn
  rw [hch] at hn
  rcases h.extended hn with ⟨hnp, hqp⟩ | ⟨-, hqp, hn⟩
  · rw [hqp, appended_slot_self, hch] at hq
    cases hq
    rw [hnp, hqp, appended_channels_self]
    exact hnew
  · rw [h.appended_slot ch hn hqp] at hq
    rw [appended_channels_ne s ch hqp]
    exact he n q pfd hn hq

theorem appended_filed {fd : κ → ℕ} {s : PollState κ} (h : Filed fd s) {p : κ}
    {ch : Channel} (hch : ch.fd_ = fd p) (hev : ch.events_.toNat < 2 ^ 3)
    (hfree : s.poller.channels_ (fd p) = none) : Filed fd (s.appended p ch) :=
  ⟨appended_placed h.toPlaced hch hev hfree,
    appended_entries h.toPlaced h.live hch ⟨signExtend_setWidth hev, .inl rfl⟩⟩

/-- The entry of a registered channel `p` is replaced by one with the same descriptor. -/
theorem changed_placed {fd : κ → ℕ} {s : PollState κ} (h : Placed fd s) {p : κ} {ch : Channel}
    {n : ℤ} (hp : s.poller.channels_ (fd p) = some p) (hch : ch.fd_ = fd p)
    (hidx : ch.index_ = (s.channels p).index_) (hev : ch.events_.toNat < 2 ^ 3)
    (hn : n = fd p ∨ n = -(fd p : ℤ) - 1) : Placed fd (s.changed p ch n) := by
  have hindex : ∀ q, ((s.changed p ch n).channels q).index_ = (s.channels q).index_ := by
    intro q
    by_cases hq : q = p
    · rw [hq, changed_channels_self, hidx]
    · rw [changed_channels_ne s ch n hq]
  have hpos : (s.changed p ch n).positions = s.positions := by
    funext m
    show (s.poller.channels_ m).map _ = (s.poller.channels_ m).map _
    simp only [hindex]
  refine ⟨(Function.forall_update_iff s.channels fun q ch => ch.fd_ = fd q).2
      ⟨hch, fun q _ => h.fds q⟩,
    (Function.forall_update_iff s.channels fun _ ch => ch.events_.toNat < 2 ^ 3).2
      ⟨hev, fun q _ => h.masks q⟩, h.mapped, fun m q hm => ?_, ?_⟩
  · rw [hindex]
    exact h.index m q hm
  · have hsame : (s.changed p ch n).poller.pollfds_.map PollFd.descriptor =
        s.poller.pollfds_.map PollFd.descriptor := by
      show (s.poller.pollfds_.set ch.index_.toNat (Poller.entryOf ch n)).map _ = _
      obtain ⟨pfd, he, hdesc⟩ := h.entry hp
      obtain ⟨hlt, hget⟩ := List.getElem?_eq_some_iff.1 (Poller.entry_eq_some.1 he).2
      have hlt' : ch.index_.toNat < (s.poller.pollfds_.map PollFd.descriptor).length := by
        rwa [List.length_map, hidx]
      have hsame : (s.poller.pollfds_.map PollFd.descriptor)[ch.index_.toNat] = fd p := by
        simp only [List.getElem_map, hidx, hget, hdesc]
      have hdesc' : (Poller.entryOf ch n).descriptor = fd p := PollFd.descriptor_of hn
      rw [List.map_set, hdesc', ← hsame, List.set_getElem_self]
    rw [hpos, hsame]
    exact h.inverse

/-- The changed entry is the one of the channel. -/
theorem Placed.changed_slot_self {fd : κ → ℕ} {s : PollState κ} (h : Placed fd s) {p : κ}
    {ch : Channel} (n : ℤ) (hp : s.poller.channels_ (fd p) = some p)
    (hidx : ch.index_ = (s.channels p).index_) :
    (s.changed p ch n).slot p = some (Poller.entryOf ch n) := by
  rw [slot, changed_channels_self, Poller.entry_eq_some, hidx]
  refine ⟨h.index _ p hp, ?_⟩
  show (s.poller.pollfds_.set ch.index_.toNat (Poller.entryOf ch n))[_]? = _
  rw [hidx, List.getElem?_set_self (h.place_lt hp)]

theorem Placed.changed_slot {fd : κ → ℕ} {s : PollState κ} (h : Placed fd s) {p : κ}
    {ch : Channel} (n : ℤ) (hp : s.poller.channels_ (fd p) = some p)
    (hidx : ch.index_ = (s.channels p).index_) {m : ℕ} {q : κ}
    (hq : s.poller.channels_ m = some q) (hqp : q ≠ p) :
    (s.changed p ch n).slot q = s.slot q := by
  rw [slot, changed_channels_ne s ch n hqp]
  refine Poller.entry_congr ?_
  show (s.poller.pollfds_.set ch.index_.toNat (Poller.entryOf ch n))[_]? = _
  rw [hidx, List.getElem?_set_ne (h.place_ne hp hq hqp)]

theorem changed_entries {R : ℕ → Events → PollFd → Prop} {fd : κ → ℕ} {s : PollState κ}
    (h : Placed fd s) (he : s.Entries R) {p : κ} {ch : Channel} {n : ℤ}
    (hp : s.poller.channels_ (fd p) = some p) (hidx : ch.index_ = (s.channels p).index_)
    (hnew : R (fd p) ch.events_ (Poller.entryOf ch n)) : (s.changed p ch n).Entries R := by
  intro m q pfd hm hq
  change s.poller.channels_ m = some q at hm
  by_cases hqp : q = p
  · rw [hqp, h.changed_slot_self n hp hidx] at hq
    cases hq
    rw [h.mapped m q hm, hqp, changed_channels_self]
    exact hnew
  · rw [h.changed_slot n hp hidx hm hqp] at hq
    rw [changed_channels_ne s ch n hqp]
    exact he m q pfd hm hq

theorem changed_filed {fd : κ → ℕ} {s : PollState κ} (h : Filed fd s) {p : κ} {ch : Channel}
    {n : ℤ} (hp : s.poller.channels_ (fd p) = some p) (hch : ch.fd_ = fd p)
    (hidx : ch.index_ = (s.channels p).index_) (hev : ch.events_.toNat < 2 ^ 3)
    (hn : n = fd p ∨ n = -(fd p : ℤ) - 1 ∧ ch.isNoneEvent = true) :
    Filed fd (s.changed p ch n) :=
  ⟨changed_placed h.toPlaced hp hch hidx hev (hn.imp_right And.left),
    changed_entries h.toPlaced h.live hp hidx
      ⟨signExtend_setWidth hev, hn.imp_right And.right⟩⟩

/-- The state after the last entry, that of `q`, has taken the place of the one of `p`. -/
def moved (s : PollState κ) (p q : κ) (back : PollFd) : PollState κ where
  poller := ⟨(s.poller.pollfds_.set (s.channels p).index_.toNat back).dropLast,
    Function.update s.poller.channels_ (s.channels p).fd_ none⟩
  channels := Function.update s.channels q ((s.channels q).set_index (s.channels p).index_)

/-- The state after the last entry has been removed. -/
def popped (s : PollState κ) (p : κ) : PollState κ where
  poller := ⟨s.poller.pollfds_.dropLast,
    Function.update s.poller.channels_ (s.channels p).fd_ none⟩
  channels := s.channels

@[simp] theorem moved_channels_self (s : PollState κ) (p q : κ) (back : PollFd) :
    (s.moved p q back).channels q = (s.channels q).set_index (s.channels p).index_ :=
  Function.update_self ..

theorem moved_channels_ne (s : PollState κ) (p : κ) {q r : κ} (back : PollFd) (hrq : r ≠ q) :
    (s.moved p q back).channels r = s.channels r := Function.update_of_ne hrq ..

/-- Only a registered channel without events is removed, and only when its entry is ignored. -/
theorem apply_remove_removable {s t : PollState κ} {p : κ} (hs : s.apply (p, .remove) = .ok t) :
    s.Removable p := by
  obtain ⟨r, hr, -⟩ := map_eq_ok.1 hs
  obtain ⟨hreg, hr⟩ := require_bind_ok.1 hr
  obtain ⟨hnone, hr⟩ := require_bind_ok.1 hr
  refine ⟨hreg, hnone, ?_⟩
  split at hr
  · next pfd back he hb =>
    obtain ⟨⟨hfd, -⟩, -⟩ := require_bind_ok.1 hr
    unfold Ignored
    rw [he, Option.map_some, hfd]
  · cases hr

/-- The entry of a registered channel that is ignored is removed. -/
theorem apply_remove {fd : κ → ℕ} {s : PollState κ} (h : Matched fd s) {p : κ}
    (hr : s.Removable p) :
    ((s.channels p).index_.toNat = s.poller.pollfds_.length - 1 ∧
        s.apply (p, .remove) = .ok (s.popped p)) ∨
      ∃ q back, s.poller.pollfds_.getLast? = some back ∧
        s.poller.channels_ back.descriptor = some q ∧ q ≠ p ∧
        (s.channels q).index_.toNat = s.poller.pollfds_.length - 1 ∧
        s.apply (p, .remove) = .ok (s.moved p q back) := by
  obtain ⟨hp, hnone, hign⟩ := hr
  obtain ⟨pfd, he, hfd⟩ := Option.map_eq_some_iff.1 hign
  have hreq : pfd.fd = -((s.channels p).fd_ : ℤ) - 1 ∧
      pfd.events.signExtend 32 = (s.channels p).events_ := ⟨hfd, h.events _ p pfd hp he⟩
  have hne : s.poller.pollfds_ ≠ [] := List.ne_nil_of_length_pos (by
    have := h.place_lt hp
    omega)
  obtain ⟨back, hback⟩ := Option.isSome_iff_exists.1 (List.getLast?_isSome.2 hne)
  have hlast : s.poller.pollfds_[s.poller.pollfds_.length - 1]? = some back := by
    rw [← List.getLast?_eq_getElem?, hback]
  by_cases hend : (s.channels p).index_.toNat = s.poller.pollfds_.length - 1
  · left
    refine ⟨hend, ?_⟩
    show Except.map _ (s.poller.removeChannel s.channels p) = _
    simp only [Poller.removeChannel, require_of hp, require_of hnone, ok_bind, he, hback,
      require_of hreq, if_pos hend]
    rfl
  · right
    obtain ⟨q, hq, hidx⟩ := h.toPlaced.channel hlast
    have hqp : q ≠ p := by
      rintro rfl
      exact hend (by rw [hidx]; exact Int.toNat_natCast _)
    have hdesc : back.descriptor ≠ (s.channels p).fd_ := by
      intro hd
      rw [hd, hp] at hq
      exact hqp (Option.some.inj hq).symm
    refine ⟨q, back, hback, hq, hqp, by rw [hidx]; exact Int.toNat_natCast _, ?_⟩
    have hq' : Function.update s.poller.channels_ (s.channels p).fd_ none back.descriptor =
        some q := by rw [Function.update_of_ne hdesc, hq]
    show Except.map _ (s.poller.removeChannel s.channels p) = _
    simp only [Poller.removeChannel, require_of hp, require_of hnone, ok_bind, he, hback,
      require_of hreq, if_neg hend, hq']
    rfl

/-- The channels registered after `p` has been removed. -/
theorem Placed.erased {fd : κ → ℕ} {s : PollState κ} (h : Placed fd s) {p : κ} {n : ℕ} {q : κ}
    (hn : Function.update s.poller.channels_ (s.channels p).fd_ none n = some q) :
    n ≠ fd p ∧ q ≠ p ∧ s.poller.channels_ n = some q := by
  rw [h.fds p] at hn
  by_cases hnp : n = fd p
  · rw [hnp, Function.update_self] at hn
    cases hn
  · rw [Function.update_of_ne hnp] at hn
    refine ⟨hnp, fun hq => ?_, hn⟩
    rw [hq] at hn
    exact hnp (h.mapped n p hn)

theorem Placed.popped_positions {fd : κ → ℕ} {s : PollState κ} (h : Placed fd s) (p : κ) :
    (s.popped p).positions = Function.update s.positions (fd p) none := by
  have hmap : (s.popped p).poller.channels_ =
      Function.update s.poller.channels_ (fd p) none := by
    rw [← h.fds p]
    rfl
  exact positions_update hmap fun _ _ _ _ => rfl

theorem popped_placed {fd : κ → ℕ} {s : PollState κ} (h : Placed fd s) {p : κ}
    (hp : s.poller.channels_ (fd p) = some p)
    (hend : (s.channels p).index_.toNat = s.poller.pollfds_.length - 1) :
    Placed fd (s.popped p) := by
  refine ⟨h.fds, h.masks, fun n q hn => ?_, fun n q hn => ?_, ?_⟩
  · exact h.mapped n q (h.erased hn).2.2
  · exact h.index n q (h.erased hn).2.2
  · show Inverse (s.poller.pollfds_.dropLast.map _) _
    rw [h.popped_positions, List.map_dropLast]
    refine h.inverse.pop ?_
    rw [positions_eq hp, hend, List.length_map]

/-- The other channels are before the last place. -/
theorem Placed.popped_slot {fd : κ → ℕ} {s : PollState κ} (h : Placed fd s) {p : κ}
    (hp : s.poller.channels_ (fd p) = some p)
    (hend : (s.channels p).index_.toNat = s.poller.pollfds_.length - 1) {n : ℕ} {q : κ}
    (hq : s.poller.channels_ n = some q) (hqp : q ≠ p) : (s.popped p).slot q = s.slot q := by
  refine Poller.entry_congr ?_
  have hlt := h.place_lt hq
  have hne := h.place_ne hp hq hqp
  show s.poller.pollfds_.dropLast[(s.channels q).index_.toNat]? = _
  rw [List.getElem?_dropLast, if_pos (by omega)]
  rfl

theorem popped_entries {R : ℕ → Events → PollFd → Prop} {fd : κ → ℕ} {s : PollState κ}
    (h : Placed fd s) (he : s.Entries R) {p : κ} (hp : s.poller.channels_ (fd p) = some p)
    (hend : (s.channels p).index_.toNat = s.poller.pollfds_.length - 1) :
    (s.popped p).Entries R := by
  refine he.of_slots (fun n q hn => ?_) fun _ => rfl
  obtain ⟨-, hqp, hn⟩ := h.erased hn
  exact ⟨hn, h.popped_slot hp hend hn hqp⟩

theorem popped_filed {fd : κ → ℕ} {s : PollState κ} (h : Filed fd s) {p : κ}
    (hp : s.poller.channels_ (fd p) = some p)
    (hend : (s.channels p).index_.toNat = s.poller.pollfds_.length - 1) :
    Filed fd (s.popped p) :=
  ⟨popped_placed h.toPlaced hp hend, popped_entries h.toPlaced h.live hp hend⟩

theorem moved_placed {fd : κ → ℕ} (hfd : fd.Injective) {s : PollState κ} (h : Placed fd s)
    {p q : κ} {back : PollFd} (hp : s.poller.channels_ (fd p) = some p)
    (hq : s.poller.channels_ back.descriptor = some q) (hqp : q ≠ p)
    (hidx : (s.channels q).index_.toNat = s.poller.pollfds_.length - 1) :
    Placed fd (s.moved p q back) := by
  have hdesc : back.descriptor = fd q := h.mapped _ q hq
  rw [hdesc] at hq
  have hne : fd q ≠ fd p := fun he => hqp (hfd he)
  constructor
  case fds =>
    exact (Function.forall_update_iff s.channels fun r ch => ch.fd_ = fd r).2
      ⟨h.fds q, fun r _ => h.fds r⟩
  case masks =>
    exact (Function.forall_update_iff s.channels fun _ ch => ch.events_.toNat < 2 ^ 3).2
      ⟨h.masks q, fun r _ => h.masks r⟩
  case mapped => exact fun n r hn => h.mapped n r (h.erased hn).2.2
  case index =>
    intro n r hn
    obtain ⟨-, -, hn⟩ := h.erased hn
    by_cases hr : r = q
    · rw [hr, moved_channels_self]
      exact h.index _ p hp
    · rw [moved_channels_ne s p back hr]
      exact h.index n r hn
  case inverse =>
    -- first `p` is taken out of the map, then `q` gets its place
    have hkeeps : (s.moved p q back).poller.channels_ =
        Function.update (s.popped p).poller.channels_ (fd q) (some q) := by
      refine Function.eq_update_self_iff.2 ?_
      show Function.update s.poller.channels_ (s.channels p).fd_ none (fd q) = some q
      rw [h.fds p, Function.update_of_ne hne, hq]
    have hpos := positions_update hkeeps fun m r hm hr => by
      have hrq : r ≠ q := fun hrq => hm (hrq ▸ h.mapped m r (h.erased hr).2.2)
      rw [moved_channels_ne s p back hrq]
      rfl
    show Inverse ((s.poller.pollfds_.set (s.channels p).index_.toNat back).dropLast.map _) _
    rw [hpos, h.popped_positions, Option.map_some, moved_channels_self, List.map_dropLast,
      List.map_set, hdesc]
    refine h.inverse.swapRemove (positions_eq hp) ?_ hne
    rw [positions_eq hq, hidx, List.length_map]

/-- The last entry is moved with its channel, and the others stay where they are. -/
theorem Placed.moved_slot {fd : κ → ℕ} {s : PollState κ} (h : Placed fd s) {p q : κ}
    {back : PollFd} (hp : s.poller.channels_ (fd p) = some p)
    (hback : s.poller.pollfds_.getLast? = some back)
    (hq : s.poller.channels_ back.descriptor = some q) (hqp : q ≠ p)
    (hidx : (s.channels q).index_.toNat = s.poller.pollfds_.length - 1) {n : ℕ} {r : κ}
    (hr : s.poller.channels_ n = some r) (hrp : r ≠ p) :
    (s.moved p q back).slot r = s.slot r := by
  have hplt := h.place_lt hp
  have hpq := h.place_ne hp hq hqp
  by_cases hrq : r = q
  · have hold : s.slot q = some back := by
      rw [slot, Poller.entry_eq_some, hidx, ← List.getLast?_eq_getElem?]
      exact ⟨h.index _ q hq, hback⟩
    rw [hrq, hold, slot, moved_channels_self, Poller.entry_eq_some]
    refine ⟨h.index _ p hp, ?_⟩
    show (s.poller.pollfds_.set _ back).dropLast[(s.channels p).index_.toNat]? = some back
    rw [List.getElem?_dropLast, List.length_set, if_pos (by omega), List.getElem?_set_self hplt]
  · have hrlt := h.place_lt hr
    have hrne := h.place_ne hq hr hrq
    rw [slot, moved_channels_ne s p back hrq]
    refine Poller.entry_congr ?_
    show (s.poller.pollfds_.set _ back).dropLast[(s.channels r).index_.toNat]? = _
    rw [List.getElem?_dropLast, List.length_set, if_pos (by omega),
      List.getElem?_set_ne (h.place_ne hp hr hrp)]

/-- Moving an entry changes no mask. -/
theorem moved_events (s : PollState κ) (p q : κ) (back : PollFd) (r : κ) :
    ((s.moved p q back).channels r).events_ = (s.channels r).events_ := by
  by_cases hr : r = q
  · rw [hr, moved_channels_self]
    rfl
  · rw [moved_channels_ne s p back hr]

theorem moved_entries {R : ℕ → Events → PollFd → Prop} {fd : κ → ℕ} {s : PollState κ}
    (h : Placed fd s) (he : s.Entries R) {p q : κ} {back : PollFd}
    (hp : s.poller.channels_ (fd p) = some p) (hback : s.poller.pollfds_.getLast? = some back)
    (hq : s.poller.channels_ back.descriptor = some q) (hqp : q ≠ p)
    (hidx : (s.channels q).index_.toNat = s.poller.pollfds_.length - 1) :
    (s.moved p q back).Entries R := by
  refine he.of_slots (fun n r hn => ?_) (moved_events s p q back)
  obtain ⟨-, hrp, hn⟩ := h.erased hn
  exact ⟨hn, h.moved_slot hp hback hq hqp hidx hn hrp⟩

theorem moved_filed {fd : κ → ℕ} (hfd : fd.Injective) {s : PollState κ} (h : Filed fd s) {p q : κ}
    {back : PollFd} (hp : s.poller.channels_ (fd p) = some p)
    (hback : s.poller.pollfds_.getLast? = some back)
    (hq : s.poller.channels_ back.descriptor = some q) (hqp : q ≠ p)
    (hidx : (s.channels q).index_.toNat = s.poller.pollfds_.length - 1) :
    Filed fd (s.moved p q back) :=
  ⟨moved_placed hfd h.toPlaced hp hq hqp hidx,
    moved_entries h.toPlaced h.live hp hback hq hqp hidx⟩

theorem init_filed (fd : κ → ℕ) : Filed fd (PollState.init fd) := by
  refine ⟨⟨fun _ => rfl, fun p => (by decide : (0#32).toNat < 2 ^ 3), fun n p hn => ?_,
    fun n p hn => ?_, Inverse.nil⟩, fun n p pfd hn => ?_⟩ <;> cases hn

end PollState

/-! ### The twins -/

namespace Twin

variable {κ : Type} [DecidableEq κ]

/-- The two copies have the same channels registered, with the same events. -/
structure Paired (fd : κ → ℕ) (t : Twin κ) : Prop where
  kept : Registration.Kept fd t.epoll
  filed : PollState.Filed fd t.poll
  events : ∀ p, (t.poll.channels p).events_ = (t.epoll.channels p).events_
  registered : t.poll.poller.channels_ = t.epoll.poller.channels_
  deleted : ∀ p, (t.epoll.channels p).index_ = EPoller.kDeleted →
    (t.epoll.channels p).isNoneEvent = true

/-- What the kernel's set holds is what the registered channels ask for. -/
theorem Paired.epoll_watches {fd : κ → ℕ} {t : Twin κ} (h : Paired fd t) {n : ℕ} {mask : Events} :
    t.epoll.poller.Watches n mask ↔
      ∃ p, t.epoll.poller.channels_ n = some p ∧ (t.epoll.channels p).events_ = mask ∧
        mask ≠ 0 := by
  constructor
  · rintro ⟨hn, h0⟩
    obtain ⟨⟨events, p⟩, hint, rfl⟩ := Option.map_eq_some_iff.1 hn
    have hmap := h.kept.watched n events p hint
    have hnp := h.kept.mapped n p hmap
    subst hnp
    refine ⟨p, hmap, ?_, h0⟩
    have hwatched := (h.kept.agrees p).watched (by rw [h.kept.fds p]; exact hint)
    have hm := h.kept.masks p hwatched.1
    rw [hint] at hm
    exact (congrArg Prod.fst (Option.some.inj hm)).symm
  · rintro ⟨p, hmap, hmask, h0⟩
    have hnp := h.kept.mapped n p hmap
    subst hnp
    refine ⟨?_, h0⟩
    have ha := h.kept.agrees p
    unfold EPoller.Agrees at ha
    rw [h.kept.fds p, hmap] at ha
    rcases ha with ⟨-, hc, -⟩ | ⟨hi, -⟩ | ⟨hi, -⟩
    · cases hc
    · rw [h.kept.masks p hi, Option.map_some, hmask]
    · have hnone := eq_of_beq (h.deleted p hi)
      exact absurd (hmask.symm.trans hnone) h0

theorem Paired.agree {fd : κ → ℕ} {t : Twin κ} (h : Paired fd t) : t.Agree := by
  intro n mask
  rw [h.epoll_watches, h.filed.watches_iff, h.registered]
  simp only [h.events]

theorem init_paired (fd : κ → ℕ) : Paired fd (Twin.init fd) :=
  ⟨Registration.init_kept fd, PollState.init_filed fd, fun _ => rfl, rfl,
    fun p hidx => absurd hidx (by decide : (-1 : ℤ) ≠ EPoller.kDeleted)⟩

/-- What `EPoller` does with a change of interest. -/
theorem epoll_change {e e' : Registration.State κ} {p : κ} {i : Interest}
    (hs : Registration.step e (p, .change i) = some (.ok e')) :
    e'.channels = Function.update e.channels p
        ((i.apply (e.channels p)).set_index (EPoller.updatedIndex (i.apply (e.channels p)))) ∧
      e'.poller.channels_ =
        Function.update e.poller.channels_ (e.channels p).fd_ (some p) := by
  obtain ⟨⟨ep, ch⟩, hr, rfl⟩ := map_eq_ok.1 (Option.some.inj hs)
  obtain ⟨rfl, rfl⟩ := EPoller.updateChannel_ok hr
  refine ⟨rfl, ?_⟩
  show Function.update e.poller.channels_ (i.apply (e.channels p)).fd_ _ = _
  rw [i.apply_fd]

/-- What `EPoller` does when it removes a channel. -/
theorem epoll_remove {e e' : Registration.State κ} {p : κ}
    (hs : Registration.step e (p, .remove) = some (.ok e')) :
    Registration.Legal e (p, .remove) ∧
      e'.channels = Function.update e.channels p ((e.channels p).set_index EPoller.kNew) ∧
      e'.poller.channels_ = Function.update e.poller.channels_ (e.channels p).fd_ none := by
  obtain ⟨⟨ep, ch⟩, hr, rfl⟩ := map_eq_ok.1 (Option.some.inj hs)
  obtain ⟨hmap, -, hch⟩ := EPoller.removeChannel_ok hr
  obtain ⟨hreg, hr⟩ := require_bind_ok.1 hr
  obtain ⟨hnone, -⟩ := require_bind_ok.1 hr
  exact ⟨⟨hreg, hnone⟩, by rw [hch]; rfl, hmap⟩

/-- Masks with the same events change in the same way. -/
theorem apply_events {i : Interest} {ch ch' : Channel} (h : ch.events_ = ch'.events_) :
    (i.apply ch).events_ = (i.apply ch').events_ := by
  cases i
  · exact congrArg (· ||| Channel.kReadEvent) h
  · exact congrArg (· ||| Channel.kWriteEvent) h
  · exact congrArg (· &&& ~~~Channel.kWriteEvent) h
  · rfl

/-- The twins after a change of interest, when the array is in order. -/
theorem Paired.change {fd : κ → ℕ} (hfd : fd.Injective) {t : Twin κ} (h : Paired fd t) {p : κ}
    {i : Interest} {e : Registration.State κ} {s : PollState κ} {ch : Channel}
    (he : Registration.step t.epoll (p, .change i) = some (.ok e)) (hs : PollState.Filed fd s)
    (hch : s.channels = Function.update t.poll.channels p ch)
    (hev : ch.events_ = (i.apply (t.poll.channels p)).events_)
    (hmap : s.poller.channels_ = Function.update t.poll.poller.channels_ (fd p) (some p)) :
    Paired fd ⟨e, s⟩ := by
  obtain ⟨hchan, hpoll⟩ := epoll_change he
  obtain ⟨e', he', hkept⟩ := Registration.step_kept hfd h.kept (l := (p, .change i)) trivial
  rw [he] at he'
  cases he'
  refine ⟨hkept, hs, fun q => ?_, ?_, fun q hq => ?_⟩
  · show (s.channels q).events_ = (e.channels q).events_
    rw [hch, hchan]
    by_cases hqp : q = p
    · rw [hqp, Function.update_self, Function.update_self, hev]
      exact apply_events (h.events p)
    · rw [Function.update_of_ne hqp, Function.update_of_ne hqp, h.events q]
  · show s.poller.channels_ = e.poller.channels_
    rw [hmap, hpoll, h.registered, h.kept.fds p]
  · change (e.channels q).index_ = _ at hq
    show (e.channels q).isNoneEvent = true
    rw [hchan] at hq ⊢
    by_cases hqp : q = p
    · rw [hqp, Function.update_self] at hq ⊢
      change EPoller.updatedIndex _ = _ at hq
      unfold EPoller.updatedIndex at hq
      split_ifs at hq with hd
      · exact hd.2
      · exact absurd hq (by decide)
    · rw [Function.update_of_ne hqp] at hq ⊢
      exact h.deleted q hq

/-- The twins after a channel has been removed. -/
theorem Paired.remove {fd : κ → ℕ} (hfd : fd.Injective) {t : Twin κ} (h : Paired fd t) {p : κ}
    {e : Registration.State κ} {s : PollState κ}
    (he : Registration.step t.epoll (p, .remove) = some (.ok e)) (hs : PollState.Filed fd s)
    (hev : ∀ q, (s.channels q).events_ = (t.poll.channels q).events_)
    (hmap : s.poller.channels_ = Function.update t.poll.poller.channels_ (fd p) none) :
    Paired fd ⟨e, s⟩ := by
  obtain ⟨hlegal, hchan, hpoll⟩ := epoll_remove he
  obtain ⟨e', he', hkept⟩ := Registration.step_kept hfd h.kept hlegal
  rw [he] at he'
  cases he'
  have hsame : ∀ q, (e.channels q).events_ = (t.epoll.channels q).events_ := fun q => by
    rw [hchan]
    by_cases hqp : q = p
    · rw [hqp, Function.update_self]
      rfl
    · rw [Function.update_of_ne hqp]
  refine ⟨hkept, hs, fun q => ?_, ?_, fun q hq => ?_⟩
  · exact (hev q).trans ((h.events q).trans (hsame q).symm)
  · show s.poller.channels_ = e.poller.channels_
    rw [hmap, hpoll, h.registered, h.kept.fds p]
  · change (e.channels q).index_ = _ at hq
    show (e.channels q).isNoneEvent = true
    have hold : (t.epoll.channels q).index_ = EPoller.kDeleted := by
      rw [hchan] at hq
      by_cases hqp : q = p
      · rw [hqp, Function.update_self] at hq
        exact absurd hq (by decide : EPoller.kNew ≠ EPoller.kDeleted)
      · rwa [Function.update_of_ne hqp] at hq
    have hnone := h.deleted q hold
    unfold Channel.isNoneEvent at hnone ⊢
    rwa [hsame q]

/-- A channel that has no place is not registered. -/
theorem Paired.free {fd : κ → ℕ} (hfd : fd.Injective) {t : Twin κ} (h : Paired fd t) {p : κ}
    (hidx : (t.poll.channels p).index_ < 0) : t.poll.poller.channels_ (fd p) = none := by
  cases hm : t.poll.poller.channels_ (fd p) with
  | none => rfl
  | some q =>
    have hqp := hfd (h.filed.mapped _ q hm)
    have h0 := h.filed.index _ q hm
    rw [← hqp] at h0
    omega

theorem change_paired {fd : κ → ℕ} (hfd : fd.Injective) {t : Twin κ} (h : Paired fd t) {p : κ}
    {i : Interest} {e : Registration.State κ}
    (he : Registration.step t.epoll (p, .change i) = some (.ok e))
    (hc : t.Compatible (p, .change i)) :
    ∃ s, t.poll.apply (p, .change i) = .ok s ∧ Paired fd ⟨e, s⟩ := by
  obtain ⟨hagain, henable⟩ := hc
  have hfdp := h.filed.fds p
  have hfd' : (i.apply (t.poll.channels p)).fd_ = fd p := by rw [i.apply_fd, hfdp]
  have hlt := i.apply_lt (h.filed.masks p)
  by_cases hidx : (t.poll.channels p).index_ < 0
  · have hfree := h.free hfd hidx
    refine ⟨_, PollState.apply_new hidx (by rw [hfdp]; exact hfree), ?_⟩
    refine h.change hfd he (PollState.appended_filed h.filed hfd' hlt hfree) rfl rfl ?_
    show Function.update _ (i.apply (t.poll.channels p)).fd_ _ = _
    rw [hfd']
  · have hreg := hagain (Int.not_lt.1 hidx)
    rw [hfdp] at hreg
    obtain ⟨pfd, hentry, -⟩ := h.filed.entry hreg
    refine ⟨_, PollState.apply_registered h.filed.toPlaced (by rw [hfdp]; exact hreg) hentry, ?_⟩
    refine h.change hfd he (PollState.changed_filed h.filed hreg hfd' (i.apply_index _) hlt
      ?_) rfl rfl ?_
    · rw [hfdp]
      split_ifs with hnone
      · exact .inr ⟨rfl, hnone⟩
      · -- an entry that is ignored would go with a channel without events
        left
        refine (h.filed.entry_fd hreg hentry).resolve_right fun hneg => hnone (henable ?_)
        unfold PollState.Ignored
        rw [hentry, Option.map_some, hneg, hfdp]
    · show t.poll.poller.channels_ = _
      rw [← hreg, Function.update_eq_self]

theorem remove_paired {fd : κ → ℕ} (hfd : fd.Injective) {t : Twin κ} (h : Paired fd t) {p : κ}
    {e : Registration.State κ} (he : Registration.step t.epoll (p, .remove) = some (.ok e))
    (hign : t.poll.Ignored p) :
    ∃ s, t.poll.apply (p, .remove) = .ok s ∧ Paired fd ⟨e, s⟩ := by
  obtain ⟨⟨hreg, hnone⟩, -, -⟩ := epoll_remove he
  have hfdp := h.filed.fds p
  rw [h.kept.fds p, ← h.registered] at hreg
  have hnone' : (t.poll.channels p).isNoneEvent = true := by
    unfold Channel.isNoneEvent at hnone ⊢
    rwa [h.events p]
  have hr : t.poll.Removable p := ⟨by rwa [hfdp], hnone', hign⟩
  rcases PollState.apply_remove h.filed.matched hr with
    ⟨hend, hs⟩ | ⟨q, back, hback, hq, hqp, hidx, hs⟩
  · refine ⟨_, hs, h.remove hfd he (PollState.popped_filed h.filed hreg hend)
      (fun _ => rfl) ?_⟩
    show Function.update _ (t.poll.channels p).fd_ _ = _
    rw [hfdp]
  · refine ⟨_, hs, h.remove hfd he (PollState.moved_filed hfd h.filed hreg hback hq hqp hidx)
      (PollState.moved_events t.poll p q back) ?_⟩
    show Function.update _ (t.poll.channels p).fd_ _ = _
    rw [hfdp]

/-- **A compatible operation that `EPoller` accepts keeps the twins together.** -/
theorem step_paired {fd : κ → ℕ} (hfd : fd.Injective) {t : Twin κ} (h : Paired fd t)
    {l : κ × ChannelOp} {e : Registration.State κ}
    (he : Registration.step t.epoll l = some (.ok e)) (hc : t.Compatible l) :
    ∃ s, t.poll.apply l = .ok s ∧ Paired fd ⟨e, s⟩ := by
  obtain ⟨p, op⟩ := l
  cases op with
  | change i => exact change_paired hfd h he hc
  | remove => exact remove_paired hfd h he hc

/-- A channel that is enabled is in the kernel's set with its mask. -/
theorem Paired.epoll_enabled {fd : κ → ℕ} (hfd : fd.Injective) {t : Twin κ} (h : Paired fd t)
    {p : κ} {i : Interest} {e : Registration.State κ}
    (he : Registration.step t.epoll (p, .change i) = some (.ok e))
    (hev : ¬ (i.apply (t.epoll.channels p)).isNoneEvent = true) :
    e.poller.Watches (fd p) (i.apply (t.epoll.channels p)).events_ := by
  obtain ⟨hchan, -⟩ := epoll_change he
  obtain ⟨e', he', hkept⟩ := Registration.step_kept hfd h.kept (l := (p, .change i)) trivial
  rw [he] at he'
  cases he'
  have hdrop : ¬ EPoller.Drops (i.apply (t.epoll.channels p)) := fun hd => hev hd.2
  have hself : e.channels p = (i.apply (t.epoll.channels p)).set_index EPoller.kAdded := by
    rw [hchan, Function.update_self, EPoller.updatedIndex, if_neg hdrop]
  refine ⟨?_, fun h0 => hev (beq_of_eq h0)⟩
  rw [hkept.masks p (by rw [hself]; rfl), hself, Option.map_some]
  rfl

end Twin

/-- `poll(2)` does not see an entry that stays ignored. -/
theorem PollState.ignored_unwatched {κ : Type} [DecidableEq κ] {fd : κ → ℕ} {s : PollState κ}
    (h : Placed fd s) {p : κ} {ch : Channel} {mask : Events}
    (hp : s.poller.channels_ (fd p) = some p) (hch : ch.fd_ = fd p)
    (hidx : ch.index_ = (s.channels p).index_) (hev : ch.events_.toNat < 2 ^ 3) :
    ¬ (s.changed p ch (-(fd p : ℤ) - 1)).poller.Watches (fd p) mask := by
  rintro ⟨pfd, hmem, hpfd, -, -⟩
  have hplaced := changed_placed h (n := -(fd p : ℤ) - 1) hp hch hidx hev (.inr rfl)
  obtain ⟨j, hj⟩ := List.getElem?_of_mem hmem
  obtain ⟨q, hq, hqj⟩ := hplaced.channel hj
  rw [PollFd.descriptor_of (.inl hpfd)] at hq
  change s.poller.channels_ (fd p) = some q at hq
  rw [hp] at hq
  cases hq
  have hent := h.changed_slot_self (-(fd p : ℤ) - 1) hp hidx
  rw [slot, hqj, Poller.entry_eq_some] at hent
  cases hj.symm.trans hent.2
  change -(fd p : ℤ) - 1 = _ at hpfd
  omega

namespace Twin

variable {κ : Type} [DecidableEq κ]

/-- An operation that is not compatible fails in `Poller`, or the pollers disagree after it. -/
theorem disagree {fd : κ → ℕ} (hfd : fd.Injective) {t : Twin κ} (h : Paired fd t)
    {l : κ × ChannelOp} {e : Registration.State κ}
    (he : Registration.step t.epoll l = some (.ok e)) (hc : ¬ t.Compatible l) {s : PollState κ}
    (hs : t.poll.apply l = .ok s) : ¬ Agree ⟨e, s⟩ := by
  obtain ⟨p, op⟩ := l
  have hfdp := h.filed.fds p
  cases op with
  | change i =>
    have hagain : 0 ≤ (t.poll.channels p).index_ →
        t.poll.poller.channels_ (t.poll.channels p).fd_ = some p := by
      intro hidx
      by_contra habsent
      exact PollState.apply_removed hidx habsent hs
    obtain ⟨hign, hev⟩ : t.poll.Ignored p ∧ ¬ (i.apply (t.poll.channels p)).isNoneEvent = true := by
      by_contra hcon
      exact hc ⟨hagain, fun hi => by_contra fun hn => hcon ⟨hi, hn⟩⟩
    unfold PollState.Ignored at hign
    obtain ⟨pfd, hentry, hneg⟩ := Option.map_eq_some_iff.1 hign
    have hreg := hagain (Poller.entry_eq_some.1 hentry).1
    have hok := PollState.apply_registered h.filed.toPlaced (i := i) hreg hentry
    rw [hs, if_neg hev, hneg, hfdp] at hok
    cases hok
    rw [hfdp] at hreg
    intro hagree
    have hev' : ¬ (i.apply (t.epoll.channels p)).isNoneEvent = true := by
      unfold Channel.isNoneEvent at hev ⊢
      rwa [apply_events (h.events p).symm]
    refine PollState.ignored_unwatched h.filed.toPlaced hreg ?_ (i.apply_index _)
      (i.apply_lt (h.filed.masks p)) ((hagree _ _).1 (h.epoll_enabled hfd he hev'))
    rw [i.apply_fd, hfdp]
  | remove => exact absurd (PollState.apply_remove_removable hs).2.2 hc

/-- **When `Poller` and `EPoller` agree.** In every run of operations that `EPoller` accepts and
that are compatible, both watch the same descriptors with the same masks; and a further operation
that `EPoller` accepts is accepted by `Poller` with the same effect exactly when it is
compatible. -/
theorem pollers_agree {fd : κ → ℕ} (hfd : fd.Injective) {t : Twin κ}
    (h : Reach (Moves step) Compatible (Twin.init fd) t) :
    t.Agree ∧ ∀ l e, Registration.step t.epoll l = some (.ok e) →
      ((∃ t', step t l = some (.ok t') ∧ t'.Agree) ↔ t.Compatible l) := by
  have hp : Paired fd t := by
    refine h.invariant (init_paired fd) fun x l y hx hc hs => ?_
    unfold Moves step at hs
    split at hs
    · next e he =>
      obtain ⟨s, hs', hpair⟩ := step_paired hfd hx he hc
      rw [hs'] at hs
      cases hs
      exact hpair
    · cases hs
  refine ⟨hp.agree, fun l e he => ⟨?_, fun hc => ?_⟩⟩
  · rintro ⟨t', hs, hagree⟩
    by_contra hc
    unfold step at hs
    rw [he] at hs
    obtain ⟨s, hs', rfl⟩ := map_eq_ok.1 (Option.some.inj hs)
    exact disagree hfd hp he hc hs' hagree
  · obtain ⟨s, hs, hpair⟩ := step_paired hfd hp he hc
    refine ⟨⟨e, s⟩, ?_, hpair.agree⟩
    unfold step
    rw [he, hs]
    rfl

/-! Three channels, of which the first is disabled and removed. -/

def threeChannels : List (ℕ × ChannelOp) :=
  [(0, .change .enableReading), (1, .change .enableReading), (2, .change .enableWriting),
    (0, .change .disableAll), (0, .remove)]

theorem pollers_agree_threeChannels :
    ∃ t : Twin ℕ, (t.Agree ∧ ∀ l e, Registration.step t.epoll l = some (.ok e) →
      ((∃ t', step t l = some (.ok t') ∧ t'.Agree) ↔ t.Compatible l)) ∧
      t.poll.poller.Watches 2 POLLOUT := by
  obtain ⟨t, ht, hp⟩ := exists_reach_of_run step Compatible (Twin.init id) threeChannels
    (fun t => t.poll.poller.Watches 2 POLLOUT) (by decide +kernel)
  exact ⟨t, pollers_agree Function.injective_id ht, of_decide_eq_true hp⟩

/-- A channel that has been disabled is enabled again: its entry stays ignored. -/
theorem enable_again_ignored :
    ∃ t : Twin ℕ, Reach (Moves step) Always (Twin.init id) t ∧
      t.epoll.poller.Watches 5 Channel.kReadEvent ∧
      ¬ t.poll.poller.Watches 5 Channel.kReadEvent := by
  obtain ⟨t, ht, hp⟩ := exists_reach_of_run step Always (Twin.init id)
    [(5, .change .enableReading), (5, .change .disableAll), (5, .change .enableReading)]
    (fun t => t.epoll.poller.Watches 5 Channel.kReadEvent ∧
      ¬ t.poll.poller.Watches 5 Channel.kReadEvent) (by decide +kernel)
  exact ⟨t, ht, of_decide_eq_true hp⟩

/-- A removed channel is added again: the index that `removeChannel` left in it fails an
assertion. -/
theorem add_again_fails :
    ∃ t : Twin ℕ, Reach (Moves step) Always (Twin.init id) t ∧
      step t (5, .change .enableReading) = some (.error .existingIsAbsent) := by
  obtain ⟨t, ht, hp⟩ := exists_reach_of_run step Always (Twin.init id)
    [(5, .change .enableReading), (5, .change .disableAll), (5, .remove)]
    (fun t => fails step t (5, .change .enableReading) .existingIsAbsent) (by decide +kernel)
  exact ⟨t, ht, eq_of_fails hp⟩

/-- A new channel that is only disabled has an entry with its own descriptor, which `removeChannel`
does not accept. -/
theorem remove_disabled_fails :
    ∃ t : Twin ℕ, Reach (Moves step) Always (Twin.init id) t ∧
      step t (5, .remove) = some (.error .entry) := by
  obtain ⟨t, ht, hp⟩ := exists_reach_of_run step Always (Twin.init id)
    [(5, .change .disableAll)] (fun t => fails step t (5, .remove) .entry) (by decide +kernel)
  exact ⟨t, ht, eq_of_fails hp⟩

end Twin

end Fppnet
