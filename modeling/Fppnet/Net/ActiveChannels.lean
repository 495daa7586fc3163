import Fppnet.Net.PollerSlots

/-!
# `poll` of the two pollers

What `Poller::poll` and `EPoller::poll` do with the results of `poll(2)` and `epoll_wait(2)`:
`fillActiveChannels` stores the events that happened in the channels and lists them. The kernel is
given by the events `ready` that have happened at every descriptor. All of this is about calls of
`poll(2)` and `epoll_wait(2)` that succeed, and descriptors that are open: for one that is not
`poll(2)` reports `POLLNVAL`.

* `Poller.poll_exact`: `Poller` lists exactly the channels that it watches and at which something
  has happened, though it stops at the number that `poll(2)` returns;
* `EPoller.epoll_exact`: so does `EPoller`, unless `events_` is full, which is doubled then;
* `polls_agree`: after the same operations both list the same channels with the same events.
-/

set_option linter.unusedSectionVars false

namespace Fppnet

open Checked Runs Positions

variable {κ : Type} [DecidableEq κ]

/-- The assertions of the two functions. -/
inductive FillFailure
  | numEvents
  | absent
  | other
  deriving DecidableEq

/-- What the kernel reports to a mask of interest at an open descriptor: errors and hang-ups are
always reported. -/
def reported (ready mask : Events) : Events := ready &&& (mask ||| (POLLERR ||| POLLHUP))

/-- The events of the active channels, stored one after the other. -/
def setRevents (channels : κ → Channel) (hits : List (κ × Events)) : κ → Channel :=
  hits.foldl (fun channels hit =>
    Function.update channels hit.1 ((channels hit.1).set_revents hit.2)) channels

/-! ### `Poller` -/

namespace Poller

/-- `poll(2)` -/
def pollEntry (ready : ℕ → Events) (pfd : PollFd) : PollFd :=
  { pfd with revents := if pfd.fd < 0 then 0 else
      (reported (ready pfd.fd.toNat) (pfd.events.signExtend 32)).setWidth 16 }

/-- `channels_.find` -/
def find (po : Poller κ) (fd : ℤ) : Option κ := if fd < 0 then none else po.channels_ fd.toNat

/-- `pfd->revents > 0` -/
def Hit (pfd : PollFd) : Prop := 0 < pfd.revents.toInt

instance (pfd : PollFd) : Decidable (Hit pfd) := inferInstanceAs (Decidable (0 < _))

/-- `fillActiveChannels`, over the rest of `pollfds_`. -/
def fillActiveChannels (po : Poller κ) : List PollFd → ℕ → (κ → Channel) →
    Except FillFailure ((κ → Channel) × List κ)
  | [], _, channels => .ok (channels, [])
  | pfd :: rest, numEvents, channels =>
    if numEvents = 0 then .ok (channels, [])
    else if Hit pfd then
      match po.find pfd.fd with
      | none => .error .absent
      | some p => do
        require (((channels p).fd_ : ℤ) = pfd.fd) .other
        let r ← po.fillActiveChannels rest (numEvents - 1)
          (Function.update channels p ((channels p).set_revents (pfd.revents.signExtend 32)))
        pure (r.1, p :: r.2)
    else po.fillActiveChannels rest numEvents channels

/-- `poll`, when `poll(2)` does not fail. It returns the number of entries with events. -/
def poll (po : Poller κ) (channels : κ → Channel) (ready : ℕ → Events) :
    Except FillFailure (Poller κ × (κ → Channel) × List κ) := do
  let pollfds := po.pollfds_.map (pollEntry ready)
  let numEvents := pollfds.countP fun pfd => pfd.revents ≠ 0
  let r ← if 0 < numEvents then po.fillActiveChannels pollfds numEvents channels
    else pure (channels, [])
  pure ({ po with pollfds_ := pollfds }, r)

end Poller

/-! ### `EPoller` -/

namespace EPoller

/-- What `epoll_wait(2)` has to report for a descriptor. -/
def event (ep : EPoller κ) (ready : ℕ → Events) (fd : ℕ) : Option (κ × Events) :=
  (ep.interest fd).bind fun r =>
    if reported (ready fd) r.1 = 0 then none else some (r.2, reported (ready fd) r.1)

/-- A result of `epoll_wait(2)` for the descriptors of the list: all of those at which something has
happened, or as many as there is room for. -/
structure Waited (ep : EPoller κ) (ready : ℕ → Events) (size : ℕ) (fds : List ℕ) : Prop where
  nodup : fds.Nodup
  length_le : fds.length ≤ size
  sound : ∀ fd ∈ fds, ep.event ready fd ≠ none
  complete : fds.length < size → ∀ fd, ep.event ready fd ≠ none → fd ∈ fds

/-- `fillActiveChannels`, over the events that were returned. -/
def fillActiveChannels (ep : EPoller κ) : List (κ × Events) → (κ → Channel) →
    Except FillFailure ((κ → Channel) × List κ)
  | [], channels => .ok (channels, [])
  | (p, revents) :: rest, channels =>
    match ep.channels_ (channels p).fd_ with
    | none => .error .absent
    | some q => do
      require (q = p) .other
      let r ← ep.fillActiveChannels rest
        (Function.update channels p ((channels p).set_revents revents))
      pure (r.1, p :: r.2)

/-- `poll`, when `epoll_wait(2)` has returned the events of the list. `size` is that of
`events_`. -/
def poll (ep : EPoller κ) (channels : κ → Channel) (size : ℕ) (events : List (κ × Events)) :
    Except FillFailure (ℕ × (κ → Channel) × List κ) :=
  if 0 < events.length then do
    require (events.length ≤ size) .numEvents
    let r ← ep.fillActiveChannels events channels
    pure (if events.length = size then size * 2 else size, r)
  else pure (size, channels, [])

end EPoller

/-! ### Storing the events -/

theorem setRevents_of_notMem (channels : κ → Channel) {hits : List (κ × Events)} {p : κ}
    (h : p ∉ hits.map Prod.fst) : setRevents channels hits p = channels p := by
  induction hits generalizing channels with
  | nil => rfl
  | cons hit hits ih =>
    rw [List.map_cons, List.mem_cons, not_or] at h
    rw [setRevents, List.foldl_cons]
    exact (ih _ h.2).trans (Function.update_of_ne h.1 _ _)

theorem setRevents_of_mem (channels : κ → Channel) {hits : List (κ × Events)} {p : κ} {e : Events}
    (hnodup : (hits.map Prod.fst).Nodup) (h : (p, e) ∈ hits) :
    setRevents channels hits p = (channels p).set_revents e := by
  induction hits generalizing channels with
  | nil => cases h
  | cons hit hits ih =>
    rw [List.map_cons, List.nodup_cons] at hnodup
    rw [setRevents, List.foldl_cons]
    rcases List.mem_cons.1 h with rfl | hmem
    · exact (setRevents_of_notMem _ hnodup.1).trans (Function.update_self _ _ _)
    · have hne : p ≠ hit.1 := by
        rintro rfl
        exact hnodup.1 (List.mem_map.2 ⟨_, hmem, rfl⟩)
      refine (ih _ hnodup.2 hmem).trans ?_
      rw [Function.update_of_ne hne]

theorem fd_update (channels : κ → Channel) (p q : κ) (e : Events) :
    (Function.update channels p ((channels p).set_revents e) q).fd_ = (channels q).fd_ := by
  rcases eq_or_ne q p with rfl | hne
  · rw [Function.update_self]
    rfl
  · rw [Function.update_of_ne hne]

namespace Poller

/-- The channel of an entry with events, and the events. -/
def hit (po : Poller κ) (pfd : PollFd) : Option (κ × Events) :=
  if Hit pfd then (po.find pfd.fd).map fun p => (p, pfd.revents.signExtend 32) else none

/-- Stopping at the number of the entries with events leaves none of them out. -/
theorem fillActiveChannels_ok (po : Poller κ) {pfds : List PollFd} {n : ℕ}
    {channels : κ → Channel} (hn : pfds.countP (fun pfd => Hit pfd) ≤ n)
    (hfind : ∀ pfd ∈ pfds, Hit pfd →
      ∃ p, po.find pfd.fd = some p ∧ ((channels p).fd_ : ℤ) = pfd.fd) :
    po.fillActiveChannels pfds n channels =
      .ok (setRevents channels (pfds.filterMap po.hit), (pfds.filterMap po.hit).map Prod.fst) := by
  induction pfds generalizing n channels with
  | nil => rfl
  | cons pfd pfds ih =>
    rw [List.countP_cons] at hn
    have hrest := fun q hq => hfind q (List.mem_cons_of_mem _ hq)
    by_cases hpfd : Hit pfd
    · obtain ⟨p, hp, hfd⟩ := hfind pfd List.mem_cons_self hpfd
      have hhit : po.hit pfd = some (p, pfd.revents.signExtend 32) := by
        rw [hit, if_pos hpfd, hp]
        rfl
      rw [if_pos (decide_eq_true hpfd)] at hn
      have hrec := @ih (n - 1) (Function.update channels p ((channels p).set_revents
        (pfd.revents.signExtend 32))) (by omega) (by
          intro q hq hhit
          obtain ⟨r, hr, hrfd⟩ := hrest q hq hhit
          exact ⟨r, hr, by rwa [fd_update]⟩)
      rw [fillActiveChannels, if_neg (by omega), if_pos hpfd, hp]
      change (require _ _ >>= _) = _
      rw [require_of hfd, ok_bind, hrec, ok_bind, List.filterMap_cons_some hhit]
      rfl
    · have hhit : po.hit pfd = none := if_neg hpfd
      rw [if_neg (by simpa using hpfd)] at hn
      rw [fillActiveChannels, if_neg hpfd, List.filterMap_cons_none hhit]
      by_cases h0 : n = 0
      · rw [if_pos h0]
        have hnone : pfds.filterMap po.hit = [] := by
          refine List.filterMap_eq_nil_iff.2 fun q hq => if_neg fun hhit => ?_
          have hpos := List.countP_pos_iff (p := fun q => decide (Hit q)).2
            ⟨q, hq, decide_eq_true hhit⟩
          omega
        rw [hnone]
        rfl
      · rw [if_neg h0]
        exact ih hn hrest

/-- Only the five low events are reported to a mask of the channel's own events. -/
theorem reported_lt (ready : Events) {mask : Events} (h : mask.toNat < 2 ^ 3) :
    (reported ready mask).toNat < 2 ^ 5 := by
  have hor : (mask ||| (POLLERR ||| POLLHUP)).toNat < 2 ^ 5 := by
    rw [BitVec.toNat_or]
    exact Nat.or_lt_two_pow (by omega) (by decide)
  rw [reported, BitVec.toNat_and]
  exact Nat.lt_of_le_of_lt Nat.and_le_right hor

/-- Such events fit a `short` that is not negative. -/
theorem setWidth_events {e : Events} (h : e.toNat < 2 ^ 5) :
    (e.setWidth 16).signExtend 32 = e ∧ (0 < (e.setWidth 16).toInt ↔ e ≠ 0) ∧
      (e.setWidth 16 ≠ 0 ↔ e ≠ 0) := by
  obtain ⟨n, hn, rfl⟩ : ∃ n < 2 ^ 5, e = BitVec.ofNat 32 n := ⟨e.toNat, h, by simp⟩
  have hall : ∀ n < 2 ^ 5, ((BitVec.ofNat 32 n).setWidth 16).signExtend 32 = BitVec.ofNat 32 n ∧
      (0 < ((BitVec.ofNat 32 n).setWidth 16).toInt ↔ BitVec.ofNat 32 n ≠ 0) ∧
      ((BitVec.ofNat 32 n).setWidth 16 ≠ 0 ↔ BitVec.ofNat 32 n ≠ 0) := by decide
  exact hall n hn

theorem find_natCast (po : Poller κ) (n : ℕ) : po.find n = po.channels_ n := by
  rw [find, if_neg (by omega), Int.toNat_natCast]

theorem find_eq_some {po : Poller κ} {fd : ℤ} {p : κ} :
    po.find fd = some p ↔ ∃ n : ℕ, fd = n ∧ po.channels_ n = some p := by
  constructor
  · intro h
    rw [find, Option.ite_none_left_eq_some] at h
    exact ⟨fd.toNat, by omega, h.2⟩
  · rintro ⟨n, rfl, hn⟩
    rwa [find_natCast]

end Poller

namespace PollState

variable {fd : κ → ℕ} {s : PollState κ} {ready : ℕ → Events} {p : κ} {e : Events}

/-- The entry of the channel is not ignored, and something that is reported to it has happened. -/
def Active (s : PollState κ) (ready : ℕ → Events) (p : κ) (e : Events) : Prop :=
  s.poller.channels_ (s.channels p).fd_ = some p ∧
    (s.slot p).map PollFd.fd = some ((s.channels p).fd_ : ℤ) ∧
    e = reported (ready (s.channels p).fd_) (s.channels p).events_ ∧ e ≠ 0

instance (s : PollState κ) (ready : ℕ → Events) (p : κ) (e : Events) :
    Decidable (s.Active ready p e) := inferInstanceAs (Decidable (_ ∧ _ ∧ _ ∧ _))

/-- An entry whose descriptor is not negative belongs to the channel that is found for it. -/
theorem Matched.entry_channel (h : Matched fd s) {pfd : PollFd} (hmem : pfd ∈ s.poller.pollfds_)
    (hfd : 0 ≤ pfd.fd) : ∃ p, s.poller.channels_ pfd.fd.toNat = some p ∧
      s.slot p = some pfd ∧ ((s.channels p).fd_ : ℤ) = pfd.fd ∧
      pfd.events.signExtend 32 = (s.channels p).events_ := by
  obtain ⟨i, hi⟩ := List.getElem?_of_mem hmem
  obtain ⟨p, hp, hidx⟩ := h.channel hi
  have hdesc : pfd.descriptor = pfd.fd.toNat := by
    rw [PollFd.descriptor, if_neg (by omega)]
  rw [hdesc] at hp
  have hslot : s.slot p = some pfd := by
    rw [slot, Poller.entry_eq_some, hidx]
    exact ⟨by omega, by simpa using hi⟩
  refine ⟨p, hp, hslot, ?_, h.events _ p pfd hp hslot⟩
  have := h.mapped _ p hp
  have := h.fds p
  omega

/-- The entry of a channel after `poll(2)`. -/
theorem Matched.hit_iff (h : Matched fd s) (ready : ℕ → Events) {pfd : PollFd}
    (hmem : pfd ∈ s.poller.pollfds_) :
    (Poller.Hit (Poller.pollEntry ready pfd) ↔ (Poller.pollEntry ready pfd).revents ≠ 0) ∧
      (Poller.Hit (Poller.pollEntry ready pfd) → 0 ≤ pfd.fd) ∧
      (0 ≤ pfd.fd → (Poller.Hit (Poller.pollEntry ready pfd) ↔
          reported (ready pfd.fd.toNat) (pfd.events.signExtend 32) ≠ 0) ∧
        (Poller.pollEntry ready pfd).revents.signExtend 32 =
          reported (ready pfd.fd.toNat) (pfd.events.signExtend 32)) := by
  rcases lt_or_ge pfd.fd 0 with hneg | hpos
  · have hzero : (Poller.pollEntry ready pfd).revents = 0 := if_pos hneg
    refine ⟨?_, ?_, fun hge => absurd hneg (not_lt.2 hge)⟩
    · rw [Poller.Hit, hzero]
      decide
    · rw [Poller.Hit, hzero]
      intro hlt
      exact absurd hlt (by decide)
  · have hrevents : (Poller.pollEntry ready pfd).revents =
        (reported (ready pfd.fd.toNat) (pfd.events.signExtend 32)).setWidth 16 :=
      if_neg (not_lt.2 hpos)
    obtain ⟨q, -, -, -, hev⟩ := h.entry_channel hmem hpos
    obtain ⟨hext, hgt, hne⟩ := Poller.setWidth_events
      (Poller.reported_lt (ready pfd.fd.toNat) (hev ▸ h.masks q))
    refine ⟨?_, fun _ => hpos, fun _ => ⟨?_, ?_⟩⟩
    · rw [Poller.Hit, hrevents, hgt, hne]
    · rw [Poller.Hit, hrevents, hgt]
    · rw [hrevents, hext]

/-- The channels that `poll` finds, with their events. -/
def hits (s : PollState κ) (ready : ℕ → Events) : List (κ × Events) :=
  (s.poller.pollfds_.map (Poller.pollEntry ready)).filterMap s.poller.hit

theorem Matched.mem_hits (h : Matched fd s) : (p, e) ∈ s.hits ready ↔ s.Active ready p e := by
  rw [hits, List.mem_filterMap]
  constructor
  · rintro ⟨pfd', hmem, hhit⟩
    obtain ⟨pfd, hpfd, rfl⟩ := List.mem_map.1 hmem
    obtain ⟨-, hnonneg, hreported⟩ := h.hit_iff ready hpfd
    rw [Poller.hit, Option.ite_none_right_eq_some] at hhit
    obtain ⟨hit, hfind⟩ := hhit
    obtain ⟨hne, hext⟩ := hreported (hnonneg hit)
    obtain ⟨q, hq, hqe⟩ := Option.map_eq_some_iff.1 hfind
    cases hqe
    obtain ⟨n, hn, hqn⟩ := Poller.find_eq_some.1 hq
    change pfd.fd = n at hn
    obtain ⟨r, hr, hslot, hrfd, hev⟩ := h.entry_channel hpfd (hnonneg hit)
    rw [hn, Int.toNat_natCast, hqn] at hr
    cases hr
    have hto : pfd.fd.toNat = (s.channels p).fd_ := by omega
    rw [hto, hev] at hne hext
    refine ⟨?_, ?_, hext, ?_⟩
    · rw [← hto, hn, Int.toNat_natCast]
      exact hqn
    · rw [hslot, Option.map_some, ← hrfd]
    · rw [hext]
      exact hne.1 hit
  · rintro ⟨hp, hslot, rfl, hne⟩
    obtain ⟨pfd, hpfd, hpfdfd⟩ := Option.map_eq_some_iff.1 hslot
    have hmem := List.mem_of_getElem? (Poller.entry_eq_some.1 hpfd).2
    have hev := h.events _ p pfd hp hpfd
    obtain ⟨-, -, hreported⟩ := h.hit_iff ready hmem
    obtain ⟨hiff, hext⟩ := hreported (by omega)
    have hto : pfd.fd.toNat = (s.channels p).fd_ := by omega
    rw [HasEvents] at hev
    rw [hto, hev] at hiff hext
    refine ⟨Poller.pollEntry ready pfd, List.mem_map_of_mem hmem, ?_⟩
    have hfind : s.poller.find (Poller.pollEntry ready pfd).fd = some p :=
      Poller.find_eq_some.2 ⟨_, hpfdfd, hp⟩
    rw [Poller.hit, if_pos (hiff.2 hne), hfind, hext]
    rfl

/-- No channel is listed twice. -/
theorem Matched.nodup_hits (h : Matched fd s) : ((s.hits ready).map Prod.fst).Nodup := by
  have hentries : (s.poller.pollfds_.map (Poller.pollEntry ready)).Pairwise
      fun a b => a.descriptor ≠ b.descriptor := by
    rw [List.pairwise_map]
    exact List.pairwise_map.1 h.inverse.nodup
  rw [hits, List.Nodup, List.pairwise_map, List.pairwise_filterMap]
  refine hentries.imp fun {a b} hne => ?_
  rintro ⟨p, e⟩ ha ⟨q, e'⟩ hb hpq
  cases hpq
  obtain ⟨-, ha⟩ := Option.ite_none_right_eq_some.1 ha
  obtain ⟨-, hb⟩ := Option.ite_none_right_eq_some.1 hb
  obtain ⟨p₁, hp₁, h₁⟩ := Option.map_eq_some_iff.1 ha
  obtain ⟨p₂, hp₂, h₂⟩ := Option.map_eq_some_iff.1 hb
  cases h₁
  cases h₂
  obtain ⟨n, hn, hpn⟩ := Poller.find_eq_some.1 hp₁
  obtain ⟨m, hm, hpm⟩ := Poller.find_eq_some.1 hp₂
  refine hne ?_
  rw [PollFd.descriptor_of (Or.inl hn), PollFd.descriptor_of (Or.inl hm), h.mapped n _ hpn,
    h.mapped m _ hpm]

/-- `poll` finds the channels of its entries. -/
theorem Matched.poll_ok (h : Matched fd s) : s.poller.poll s.channels ready =
    .ok ({ s.poller with pollfds_ := s.poller.pollfds_.map (Poller.pollEntry ready) },
      setRevents s.channels (s.hits ready), (s.hits ready).map Prod.fst) := by
  have hcount : (s.poller.pollfds_.map (Poller.pollEntry ready)).countP
        (fun pfd => decide (Poller.Hit pfd)) =
      (s.poller.pollfds_.map (Poller.pollEntry ready)).countP fun pfd => pfd.revents ≠ 0 := by
    refine List.countP_congr fun pfd' hmem => ?_
    obtain ⟨pfd, hpfd, rfl⟩ := List.mem_map.1 hmem
    rw [decide_eq_true_iff, decide_eq_true_iff]
    exact (h.hit_iff ready hpfd).1
  have hfind : ∀ pfd ∈ s.poller.pollfds_.map (Poller.pollEntry ready), Poller.Hit pfd →
      ∃ p, s.poller.find pfd.fd = some p ∧ ((s.channels p).fd_ : ℤ) = pfd.fd := by
    intro pfd' hmem hhit
    obtain ⟨pfd, hpfd, rfl⟩ := List.mem_map.1 hmem
    have hnonneg := (h.hit_iff ready hpfd).2.1 hhit
    obtain ⟨p, hp, -, hpfdfd, -⟩ := h.entry_channel hpfd hnonneg
    exact ⟨p, Poller.find_eq_some.2 ⟨pfd.fd.toNat, (Int.toNat_of_nonneg hnonneg).symm, hp⟩,
      hpfdfd⟩
  have hfill := Poller.fillActiveChannels_ok s.poller hcount.le hfind
  rw [Poller.poll]
  split_ifs with hpos
  · simp only [hfill, ok_bind]
    rfl
  · have hnone : s.hits ready = [] := by
      refine List.filterMap_eq_nil_iff.2 fun pfd hmem => if_neg fun hhit => hpos ?_
      rw [← hcount]
      exact List.countP_pos_iff (p := fun pfd => decide (Poller.Hit pfd)).2
        ⟨pfd, hmem, decide_eq_true hhit⟩
    rw [hnone]
    rfl

end PollState

/-- **`Poller::poll` is exact**: in every reachable state of the channels, when their descriptors
are open and `poll(2)` succeeds, it passes its assertions, and lists each channel once whose entry
is not ignored and at which something has happened that is reported to it. The events are stored in
these channels and in no others. -/
theorem Poller.poll_exact {fd : κ → ℕ} (hfd : fd.Injective) {s : PollState κ}
    (h : Reach (Moves PollState.step) Always (PollState.init fd) s) (ready : ℕ → Events) :
    ∃ po channels active, s.poller.poll s.channels ready = .ok (po, channels, active) ∧
      po.channels_ = s.poller.channels_ ∧ active.Nodup ∧
      (∀ p, p ∈ active ↔ ∃ e, s.Active ready p e) ∧
      (∀ p e, s.Active ready p e → channels p = (s.channels p).set_revents e) ∧
      ∀ p, p ∉ active → channels p = s.channels p := by
  have hm : PollState.Matched fd s := h.invariant (PollState.init_matched fd)
    fun x l y hx _ hs => PollState.call_matched hfd hx (Option.some.inj hs)
  refine ⟨_, _, _, hm.poll_ok, rfl, hm.nodup_hits, ?_, ?_, ?_⟩
  · intro p
    simp only [List.mem_map, Prod.exists, exists_and_right, exists_eq_right, hm.mem_hits]
  · exact fun p e hpe => setRevents_of_mem _ hm.nodup_hits (hm.mem_hits.2 hpe)
  · exact fun p hp => setRevents_of_notMem _ hp

/-- Something can be read at the descriptor 1. -/
def readable : ℕ → Events := fun n => if n = 1 then POLLIN else 0

theorem Poller.poll_exact_readable : ∃ s : PollState ℕ,
    Reach (Moves PollState.step) Always (PollState.init id) s ∧ s.Active readable 1 POLLIN ∧
      ∃ po channels active, s.poller.poll s.channels readable = .ok (po, channels, active) ∧
        (channels 1).revents_ = POLLIN := by
  obtain ⟨s, hs, hactive⟩ := exists_reach_of_run PollState.step Always (PollState.init id)
    [(0, .op (.change .enableReading)), (1, .op (.change .enableReading))]
    (fun s => decide (s.Active readable 1 POLLIN)) (by decide +kernel)
  have hactive' := of_decide_eq_true hactive
  obtain ⟨po, channels, active, hpoll, -, -, -, hstored, -⟩ :=
    Poller.poll_exact Function.injective_id hs readable
  exact ⟨s, hs, hactive', po, channels, active, hpoll, by rw [hstored 1 POLLIN hactive']; rfl⟩

namespace EPoller

/-- Every event is that of a channel in the map. -/
theorem fillActiveChannels_ok (ep : EPoller κ) {events : List (κ × Events)}
    {channels : κ → Channel}
    (hfind : ∀ p ∈ events.map Prod.fst, ep.channels_ (channels p).fd_ = some p) :
    ep.fillActiveChannels events channels =
      .ok (setRevents channels events, events.map Prod.fst) := by
  induction events generalizing channels with
  | nil => rfl
  | cons event events ih =>
    obtain ⟨p, e⟩ := event
    rw [List.map_cons, List.forall_mem_cons] at hfind
    have hrec := @ih (Function.update channels p ((channels p).set_revents e)) (by
      intro q hq
      rw [fd_update]
      exact hfind.2 q hq)
    rw [fillActiveChannels, hfind.1]
    change (require _ _ >>= _) = _
    rw [require_of rfl, ok_bind, hrec]
    rfl

end EPoller

namespace Registration

variable {fd : κ → ℕ} {s : State κ} {ready : ℕ → Events} {p : κ} {e : Events}

/-- The kernel watches the descriptor of the channel, and something that is reported to it has
happened. -/
def State.Active (s : State κ) (ready : ℕ → Events) (p : κ) (e : Events) : Prop :=
  s.poller.interest (s.channels p).fd_ = some ((s.channels p).events_, p) ∧
    e = reported (ready (s.channels p).fd_) (s.channels p).events_ ∧ e ≠ 0

/-- An event that the kernel reports is that of a channel. -/
theorem Kept.event_iff (h : Kept fd s) {n : ℕ} :
    s.poller.event ready n = some (p, e) ↔ n = fd p ∧ s.Active ready p e := by
  rw [EPoller.event, Option.bind_eq_some_iff]
  constructor
  · rintro ⟨⟨mask, q⟩, hint, hevent⟩
    obtain ⟨hne, hqe⟩ := Option.ite_none_left_eq_some.1 hevent
    cases hqe
    have hmap := h.watched n mask _ hint
    have hn := h.mapped n _ hmap
    have hwatched := (h.agrees q).watched (by rw [h.fds q, ← hn]; exact hint)
    have hmask := h.masks q hwatched.1
    rw [← hn, hint] at hmask
    have hm : mask = (s.channels q).events_ := congrArg Prod.fst (Option.some.inj hmask)
    refine ⟨hn, ?_, ?_, hne⟩
    · change s.poller.interest (s.channels q).fd_ = some ((s.channels q).events_, q)
      rw [h.fds q, ← hn, hint, hm]
    · change reported (ready n) mask = reported (ready (s.channels q).fd_) (s.channels q).events_
      rw [h.fds q, ← hn, hm]
  · rintro ⟨rfl, hint, rfl, hne⟩
    rw [h.fds p] at hint hne ⊢
    refine ⟨_, hint, ?_⟩
    rw [if_neg hne]

/-- The events of a result of `epoll_wait(2)`. -/
def events (s : State κ) (ready : ℕ → Events) (fds : List ℕ) : List (κ × Events) :=
  fds.filterMap (s.poller.event ready)

theorem Kept.mem_events (h : Kept fd s) {fds : List ℕ} :
    (p, e) ∈ events s ready fds ↔ fd p ∈ fds ∧ s.Active ready p e := by
  rw [events, List.mem_filterMap]
  simp only [h.event_iff]
  constructor
  · rintro ⟨n, hn, rfl, hactive⟩
    exact ⟨hn, hactive⟩
  · rintro ⟨hn, hactive⟩
    exact ⟨_, hn, rfl, hactive⟩

theorem Kept.nodup_events (h : Kept fd s) {fds : List ℕ} (hnodup : fds.Nodup) :
    ((events s ready fds).map Prod.fst).Nodup := by
  rw [events, List.Nodup, List.pairwise_map, List.pairwise_filterMap]
  refine hnodup.imp fun {n m} hne => ?_
  rintro ⟨p, e⟩ hn ⟨q, e'⟩ hm hpq
  cases hpq
  exact hne ((h.event_iff.1 hn).1.trans (h.event_iff.1 hm).1.symm)

theorem length_events {size : ℕ} {fds : List ℕ} (hw : s.poller.Waited ready size fds) :
    (events s ready fds).length = fds.length := by
  have hsound := hw.sound
  clear hw
  induction fds with
  | nil => rfl
  | cons n fds ih =>
    rw [List.forall_mem_cons] at hsound
    obtain ⟨event, hevent⟩ := Option.ne_none_iff_exists'.1 hsound.1
    rw [events, List.filterMap_cons_some hevent, List.length_cons, List.length_cons, ← ih hsound.2]
    rfl

/-- `poll` finds the channels of the events. -/
theorem Kept.poll_ok (h : Kept fd s) {size : ℕ} {fds : List ℕ}
    (hw : s.poller.Waited ready size fds) (hsize : 0 < size) :
    s.poller.poll s.channels size (events s ready fds) =
      .ok (if fds.length = size then size * 2 else size,
        setRevents s.channels (events s ready fds), (events s ready fds).map Prod.fst) := by
  have hlen := length_events hw
  have hle := hw.length_le
  have hfill : s.poller.fillActiveChannels (events s ready fds) s.channels =
      .ok (setRevents s.channels (events s ready fds), (events s ready fds).map Prod.fst) :=
    EPoller.fillActiveChannels_ok s.poller (by
      intro p hp
      obtain ⟨⟨q, e⟩, hmem, rfl⟩ := List.mem_map.1 hp
      exact (h.watched _ _ _ (h.mem_events.1 hmem).2.1))
  unfold EPoller.poll
  by_cases hpos : 0 < (events s ready fds).length
  · rw [if_pos hpos, require_of (by rw [hlen]; exact hle), ok_bind, hfill, ok_bind, hlen]
    rfl
  · have hnone : events s ready fds = [] := List.eq_nil_of_length_eq_zero (by omega)
    rw [if_neg hpos, hnone, if_neg (by omega)]
    rfl

end Registration

/-- **`EPoller::poll` is exact up to the room in `events_`**: when `epoll_wait(2)` succeeds it
passes its assertions and lists each channel at most once, and only channels that the kernel watches
and at which something has happened that is reported to them, with the events. It lists all of
these, or as many as there is room for, and doubles the room then. -/
theorem EPoller.epoll_exact {fd : κ → ℕ} (hfd : fd.Injective) {s : Registration.State κ}
    (h : Reach (Moves Registration.step) Registration.Legal (Registration.State.init fd) s)
    {ready : ℕ → Events} {size : ℕ} {fds : List ℕ} (hw : s.poller.Waited ready size fds)
    (hsize : 0 < size) :
    ∃ size' channels active,
      s.poller.poll s.channels size (fds.filterMap (s.poller.event ready)) =
        .ok (size', channels, active) ∧
      active.Nodup ∧
      (∀ p ∈ active, ∃ e, s.Active ready p e ∧ channels p = (s.channels p).set_revents e) ∧
      (∀ p, p ∉ active → channels p = s.channels p) ∧
      ((size' = size ∧ ∀ p e, s.Active ready p e → p ∈ active) ∨
        (size' = size * 2 ∧ active.length = size)) := by
  have hk := Registration.reach_kept hfd h
  refine ⟨_, _, _, hk.poll_ok hw hsize, hk.nodup_events hw.nodup, ?_, ?_, ?_⟩
  · intro p hp
    obtain ⟨⟨q, e⟩, hmem, rfl⟩ := List.mem_map.1 hp
    exact ⟨e, (hk.mem_events.1 hmem).2, setRevents_of_mem _ (hk.nodup_events hw.nodup) hmem⟩
  · exact fun p hp => setRevents_of_notMem _ hp
  · by_cases hfull : fds.length = size
    · refine Or.inr ⟨if_pos hfull, ?_⟩
      rw [List.length_map, Registration.length_events hw, hfull]
    · refine Or.inl ⟨if_neg hfull, fun p e hactive => ?_⟩
      have hlt := lt_of_le_of_ne hw.length_le hfull
      have hevent := hk.event_iff.2 ⟨rfl, hactive⟩
      have hmem := hw.complete hlt (fd p) (by rw [hevent]; exact Option.some_ne_none _)
      exact List.mem_map.2 ⟨(p, e), hk.mem_events.2 ⟨hmem, hactive⟩, rfl⟩

/-- Two channels and room for one event: the other is left out, and the room is doubled. -/
theorem EPoller.epoll_exact_full : ∃ s : Registration.State ℕ,
    Reach (Moves Registration.step) Registration.Legal (Registration.State.init id) s ∧
      ∃ size' channels active, s.poller.poll s.channels 1
        ([0].filterMap (s.poller.event fun _ => POLLIN)) = .ok (size', channels, active) ∧
        active.Nodup := by
  obtain ⟨s, hs, hevent⟩ := exists_reach_of_run Registration.step Registration.Legal
    (Registration.State.init id)
    [(0, .change .enableReading), (1, .change .enableReading)]
    (fun s => decide (s.poller.event (fun _ => POLLIN) 0 ≠ none)) (by decide +kernel)
  have hw : s.poller.Waited (fun _ => POLLIN) 1 [0] := by
    refine ⟨List.nodup_singleton 0, le_rfl, ?_, fun h => absurd h (by decide)⟩
    intro n hn
    rw [List.mem_singleton.1 hn]
    exact of_decide_eq_true hevent
  obtain ⟨size', channels, active, hpoll, hnodup, -⟩ :=
    EPoller.epoll_exact Function.injective_id hs hw (by decide)
  exact ⟨s, hs, size', channels, active, hpoll, hnodup⟩

namespace Twin

variable {fd : κ → ℕ} {t : Twin κ} {ready : ℕ → Events} {p : κ} {e : Events}

/-- A channel with interest in something is active in both, with the same events. -/
theorem Paired.active_iff (h : Paired fd t) (hp : (t.poll.channels p).isNoneEvent = false) :
    t.poll.Active ready p e ↔ t.epoll.Active ready p e := by
  have hne : (t.epoll.channels p).events_ ≠ 0 := by
    intro hzero
    rw [Channel.isNoneEvent, h.events p, hzero] at hp
    exact absurd hp (by decide)
  have hwatched : t.epoll.poller.channels_ (fd p) = some p ↔
      t.epoll.poller.interest (fd p) = some ((t.epoll.channels p).events_, p) := by
    constructor
    · intro hreg
      have hwatch := (h.epoll_watches (n := fd p)).2 ⟨p, hreg, rfl, hne⟩
      obtain ⟨⟨mask, q⟩, hint, hmask⟩ := Option.map_eq_some_iff.1 hwatch.1
      have hq := h.kept.watched _ _ _ hint
      rw [hreg] at hq
      cases hq
      rw [hint]
      exact congrArg (fun mask => some (mask, p)) hmask
    · exact fun hint => h.kept.watched _ _ _ hint
  have hslot : t.poll.poller.channels_ (fd p) = some p →
      (t.poll.slot p).map PollFd.fd = some (fd p : ℤ) := by
    intro hreg
    obtain ⟨pfd, hentry, -⟩ := h.filed.entry hreg
    have hentries := (h.filed.entries _ p pfd hreg hentry).2
    rw [PollState.slot, hentry, Option.map_some]
    refine congrArg some (hentries.resolve_right fun hnone => ?_)
    rw [hp] at hnone
    cases hnone
  rw [PollState.Active, Registration.State.Active, h.filed.fds p, h.kept.fds p, h.events p,
    h.registered, hwatched]
  constructor
  · rintro ⟨hint, -, hrest⟩
    exact ⟨hint, hrest⟩
  · rintro ⟨hint, hrest⟩
    refine ⟨hint, hslot ?_, hrest⟩
    rw [h.registered]
    exact hwatched.2 hint

/-- **Both pollers report the same**: after the same compatible operations and with the same events
at the descriptors, which are open, `Poller` and an `EPoller` whose `events_` are not filled list
the same channels, of those that are interested in something, and store the same events in them. -/
theorem polls_agree (hfd : fd.Injective) (h : Reach (Moves step) Compatible (Twin.init fd) t)
    {size : ℕ} {fds : List ℕ} (hw : t.epoll.poller.Waited ready size fds)
    (hroom : fds.length < size) :
    ∃ po channels active size' channels' active',
      t.poll.poller.poll t.poll.channels ready = .ok (po, channels, active) ∧
      t.epoll.poller.poll t.epoll.channels size (fds.filterMap (t.epoll.poller.event ready)) =
        .ok (size', channels', active') ∧
      (active.filter fun p => !(t.poll.channels p).isNoneEvent).Perm
        (active'.filter fun p => !(t.poll.channels p).isNoneEvent) ∧
      ∀ p ∈ active, (t.poll.channels p).isNoneEvent = false →
        (channels p).revents_ = (channels' p).revents_ := by
  have hp : Paired fd t := by
    refine h.invariant (init_paired fd) fun x l y hx hc hs => ?_
    unfold Moves step at hs
    split at hs
    · next e he =>
      obtain ⟨s, hs', hpair⟩ := step_paired hfd hx he hc
      rw [hs'] at hs
      cases hs
      exact hpair
    · cases hs
  have hmatched := hp.filed.matched
  have hlisted : ∀ {q e}, t.epoll.Active ready q e → fd q ∈ fds := by
    intro q e hactive
    refine hw.complete hroom (fd q) ?_
    rw [hp.kept.event_iff.2 ⟨rfl, hactive⟩]
    exact Option.some_ne_none _
  refine ⟨_, _, _, _, _, _, hmatched.poll_ok, hp.kept.poll_ok hw (by omega), ?_, ?_⟩
  · refine (List.perm_ext_iff_of_nodup (hmatched.nodup_hits.filter _)
      ((hp.kept.nodup_events hw.nodup).filter _)).2 fun q => ?_
    rw [List.mem_filter, List.mem_filter]
    refine and_congr_left fun hq => ?_
    have hnone : (t.poll.channels q).isNoneEvent = false := by simpa using hq
    simp only [List.mem_map, Prod.exists, exists_and_right, exists_eq_right, hmatched.mem_hits,
      hp.kept.mem_events, hp.active_iff hnone]
    exact exists_congr fun e => ⟨fun hactive => ⟨hlisted hactive, hactive⟩, And.right⟩
  · intro q hq hnone
    obtain ⟨⟨q', e⟩, hmem, hqq⟩ := List.mem_map.1 hq
    cases hqq
    have hactive := (hp.active_iff hnone).1 (hmatched.mem_hits.1 hmem)
    rw [setRevents_of_mem _ hmatched.nodup_hits hmem, setRevents_of_mem _
      (hp.kept.nodup_events hw.nodup) (hp.kept.mem_events.2 ⟨hlisted hactive, hactive⟩)]
    rfl

theorem polls_agree_threeChannels : ∃ t : Twin ℕ,
    Reach (Moves step) Compatible (Twin.init id) t ∧
      ∃ po channels active size' channels' active',
        t.poll.poller.poll t.poll.channels readable = .ok (po, channels, active) ∧
        t.epoll.poller.poll t.epoll.channels 16 ([1].filterMap (t.epoll.poller.event readable)) =
          .ok (size', channels', active') ∧
        (active.filter fun p => !(t.poll.channels p).isNoneEvent).Perm
          (active'.filter fun p => !(t.poll.channels p).isNoneEvent) := by
  obtain ⟨t, ht, hevent⟩ := exists_reach_of_run step Compatible (Twin.init id) threeChannels
    (fun t => decide (t.epoll.poller.event readable 1 ≠ none)) (by decide +kernel)
  have hw : t.epoll.poller.Waited readable 16 [1] := by
    refine ⟨List.nodup_singleton 1, by decide, ?_, ?_⟩
    · intro n hn
      rw [List.mem_singleton.1 hn]
      exact of_decide_eq_true hevent
    · intro _ n hn
      by_contra hne
      refine hn (Option.eq_none_iff_forall_ne_some.2 fun r hr => ?_)
      obtain ⟨⟨mask, q⟩, -, hq⟩ := Option.bind_eq_some_iff.1 hr
      have hzero : reported (readable n) mask = 0 := by
        rw [reported, readable, if_neg (fun h1 => hne (List.mem_singleton.2 h1))]
        exact BitVec.zero_and
      rw [if_pos hzero] at hq
      cases hq
  obtain ⟨po, channels, active, size', channels', active', h1, h2, hperm, -⟩ :=
    polls_agree Function.injective_id ht hw (by decide)
  exact ⟨t, ht, po, channels, active, size', channels', active', h1, h2, hperm⟩

end Twin

end Fppnet
