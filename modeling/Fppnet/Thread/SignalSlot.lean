import Fppnet.Library.Run
import Fppnet.Library.Checked
import Fppnet.Library.CopyOnWrite

/-!
# `Signal` and `Slot`

The signals of `src/base/thread/SignalSlot.h`. `connect` puts a `weak_ptr` to a new `SlotImpl` into
the list behind `slots_`, and a slot that expires has the expired ones taken out; both change the
list under the mutex and copy it first if a call still holds it. `call` holds the list that it finds
and goes through it without the mutex.

Any number of threads may connect, copy and drop slots, and call; a callback may do so too. The
signal itself stays alive.

* `list_exact`: the list of the signal is in the order of the connections and holds every slot that
  has an owner, and no others when no destructor waits for the mutex;
* `call_exact`: a call invokes the slots that were connected when it began, in that order, each at
  most once: every one that is still there when it ends, and none that was gone when it began.
-/

open Runs Checked CopyOnWrite

namespace SignalSlot

/-- A `SlotImpl`: the `Slot` handles that own it, and the object behind `tie_`. -/
structure Slot where
  handles : ℕ
  tie : Option ℕ
  deriving DecidableEq

/-- A call: the local `slots` and `slotImpl` and `guard`, and how far the loop is. The rest is a
record: the callbacks that it has invoked, the slots that it has passed over, what the list was, how
many slots there were when it began, and which of these were gone. -/
structure Call where
  slots : Option ℕ
  index : ℕ
  slotImpl : Option ℕ
  guard : Option ℕ
  invoked : List ℕ
  skipped : List ℕ
  snapshot : List ℕ
  before : ℕ
  gone : List ℕ

/-- The end of the body of the loop. -/
def Call.release (c : Call) : Call :=
  { c with slotImpl := none, guard := none, index := c.index + 1 }

/-- A signal, with all slots that were connected to it. A slot is named by its number. `dead` are
the objects that were tied to slots and are gone, and `cleaning` counts the destructors of slots
that have not come to the mutex. -/
structure State where
  cell : Cell (List ℕ)
  slots : List Slot
  dead : List ℕ
  cleaning : ℕ
  calls : List Call

def State.init : State := ⟨Cell.new [], [], [], 0, []⟩

inductive Failure
  /-- `assert(slots_.unique())` -/
  | notUnique
  deriving DecidableEq

/-- The steps: the functions of the signal, what users do with their handles and objects, and the
steps of the loop in a call. -/
inductive Label
  | connect (tie : Option ℕ)
  | copy (k : ℕ)
  | drop (k : ℕ)
  | die (x : ℕ)
  | clean
  | call
  | next (i : ℕ)
  | release (i : ℕ)
  deriving DecidableEq

namespace State

/-- The lists that calls hold. -/
def held (s : State) : List ℕ := s.calls.filterMap Call.slots

def handles (s : State) (k : ℕ) : ℕ := (s.slots[k]?.map Slot.handles).getD 0

/-- The object of a slot. -/
def tie (s : State) (k : ℕ) : Option ℕ := s.slots[k]?.bind Slot.tie

/-- The owners of a slot. It has expired when there are none. -/
def refs (s : State) (k : ℕ) : ℕ := s.handles k + s.calls.countP fun c => c.slotImpl = some k

/-- A slot that a call would invoke. -/
def Live (s : State) (k : ℕ) : Prop := 0 < s.refs k ∧ ∀ x ∈ s.tie k, x ∉ s.dead

instance (s : State) (k : ℕ) : Decidable (s.Live k) := inferInstanceAs (Decidable (_ ∧ _))

/-- A change of the list under the mutex, behind `copyOnWrite`. -/
def write (s : State) (f : List ℕ → List ℕ) : Except Failure State := do
  let cell := s.cell.copyOnWrite s.held
  require (cell.Unique s.held) .notUnique
  return { s with cell := cell.set f }

/-- The destructor of a slot that has just lost an owner waits for the mutex if it was the last. -/
def expire (s : State) (k : ℕ) : State :=
  { s with cleaning := s.cleaning + if s.refs k = 0 then 1 else 0 }

/-- A call begins. -/
def newCall (s : State) : Call where
  slots := some s.cell.current
  index := 0
  slotImpl := none
  guard := none
  invoked := []
  skipped := []
  snapshot := s.cell.value
  before := s.slots.length
  gone := (List.range s.slots.length).filter fun k => ¬ s.Live k

/-- The call goes to the slot at its place. -/
def visit (s : State) (c : Call) (l : ℕ) : Call :=
  match (s.cell.heap l)[c.index]? with
  | none => { c with slots := none }
  | some k =>
    if s.refs k = 0 then { c with index := c.index + 1, skipped := c.skipped ++ [k] }
    else
      match s.tie k with
      | none => { c with slotImpl := some k, invoked := c.invoked ++ [k] }
      | some x =>
        if x ∈ s.dead then { c with slotImpl := some k, skipped := c.skipped ++ [k] }
        else { c with slotImpl := some k, guard := some x, invoked := c.invoked ++ [k] }

end State

/-- One step. -/
def step (s : State) : Label → Option (Except Failure State)
  | .connect tie =>
    if ∀ x ∈ tie, x ∉ s.dead then
      some (({ s with slots := s.slots ++ [⟨1, tie⟩] } : State).write (· ++ [s.slots.length]))
    else none
  | .copy k =>
    if 0 < s.handles k then
      some (.ok { s with slots := s.slots.modify k fun r => { r with handles := r.handles + 1 } })
    else none
  | .drop k =>
    if 0 < s.handles k then
      some (.ok (({ s with
        slots := s.slots.modify k fun r => { r with handles := r.handles - 1 } } : State).expire k))
    else none
  | .die x =>
    if ∀ c ∈ s.calls, c.guard ≠ some x then some (.ok { s with dead := s.dead ++ [x] }) else none
  | .clean =>
    if 0 < s.cleaning then
      some (({ s with cleaning := s.cleaning - 1 } : State).write
        (·.filter fun k => decide (s.refs k ≠ 0)))
    else none
  | .call =>
    some (.ok { s with calls := s.calls ++ [s.newCall] })
  | .next i =>
    match s.calls[i]? with
    | some c =>
      match c.slots, c.slotImpl with
      | some l, none => some (.ok { s with calls := s.calls.set i (s.visit c l) })
      | _, _ => none
    | none => none
  | .release i =>
    match s.calls[i]? with
    | some c =>
      match c.slotImpl with
      | some k => some (.ok (({ s with calls := s.calls.set i c.release } : State).expire k))
      | none => none
    | none => none

/-! ### The owners of the slots -/

variable {s t : State} {k : ℕ}

/-- `t` comes after `s`: no slot that has expired is back, nor an object that was gone. -/
structure Later (s t : State) : Prop where
  length_le : s.slots.length ≤ t.slots.length
  refs : ∀ k < s.slots.length, s.refs k = 0 → t.refs k = 0
  tie : ∀ k < s.slots.length, t.tie k = s.tie k
  dead : ∀ x ∈ s.dead, x ∈ t.dead

theorem Later.live (h : Later s t) (hk : k < s.slots.length) (hlive : t.Live k) : s.Live k := by
  obtain ⟨hpos, htie⟩ := hlive
  refine ⟨Nat.pos_of_ne_zero fun hzero => ?_, fun x hx hdead => ?_⟩
  · rw [h.refs k hk hzero] at hpos
    exact absurd hpos (lt_irrefl 0)
  · rw [← h.tie k hk] at hx
    exact htie x hx (h.dead x hdead)

/-- How many slots of the list the call has dealt with. -/
def Call.done (c : Call) : ℕ := c.index + if c.slotImpl = none then 0 else 1

/-- What holds of a call. -/
structure CallInv (s : State) (c : Call) : Prop where
  heap : ∀ l, c.slots = some l → s.cell.heap l = c.snapshot
  sorted : c.snapshot.Pairwise (· < ·)
  lt : ∀ k ∈ c.snapshot, k < c.before
  before_le : c.before ≤ s.slots.length
  complete : ∀ k < c.before, 0 < s.refs k → k ∈ c.snapshot
  slotImpl : ∀ k, c.slotImpl = some k → c.snapshot[c.index]? = some k
  index_le : c.index ≤ c.snapshot.length
  ended : c.slots = none → c.index = c.snapshot.length
  invoked : c.invoked = (c.snapshot.take c.done).filter fun k => k ∉ c.skipped
  skipped : ∀ k ∈ c.skipped, k ∈ c.snapshot.take c.done ∧ ¬ s.Live k
  gone : ∀ k ∈ c.gone, k < c.before ∧ ¬ s.Live k ∧ k ∉ c.invoked

/-- The list holds the slots that have not expired, in the order of their connection, and perhaps
some that have. -/
structure Inv (s : State) : Prop where
  cell : s.cell.Ok s.held
  sorted : s.cell.value.Pairwise (· < ·)
  lt : ∀ k ∈ s.cell.value, k < s.slots.length
  complete : ∀ k, 0 < s.refs k → k ∈ s.cell.value
  calls : ∀ c ∈ s.calls, CallInv s c

/-- What happens elsewhere does not concern a call. -/
theorem CallInv.later {c : Call} (h : CallInv s c) (hlater : Later s t)
    (hheap : ∀ l, c.slots = some l → t.cell.heap l = s.cell.heap l) : CallInv t c where
  heap := fun l hl => (hheap l hl).trans (h.heap l hl)
  sorted := h.sorted
  lt := h.lt
  before_le := h.before_le.trans hlater.length_le
  complete := fun k hk hpos => h.complete k hk (Nat.pos_of_ne_zero fun hzero => by
    rw [hlater.refs k (hk.trans_le h.before_le) hzero] at hpos
    exact absurd hpos (lt_irrefl 0))
  slotImpl := h.slotImpl
  index_le := h.index_le
  ended := h.ended
  invoked := h.invoked
  skipped := fun k hk => by
    obtain ⟨hmem, hlive⟩ := h.skipped k hk
    have hlt := (h.lt k (List.mem_of_mem_take hmem)).trans_le h.before_le
    exact ⟨hmem, fun ht => hlive (hlater.live hlt ht)⟩
  gone := fun k hk => by
    obtain ⟨hlt, hlive, hinvoked⟩ := h.gone k hk
    exact ⟨hlt, fun ht => hlive (hlater.live (hlt.trans_le h.before_le) ht), hinvoked⟩

/-- A write to the list keeps what the calls hold. -/
theorem write_ok (h : s.cell.Ok s.held) (f : List ℕ → List ℕ) : s.write f =
    .ok { s with cell := s.cell.write s.held f } := by
  unfold State.write
  simp only [require_of (Cell.copyOnWrite_unique h), ok_bind, pure_eq_ok]
  rfl

/-- What users do with handles and objects. -/
theorem Inv.users (hs : Inv s) (hcell : t.cell = s.cell) (hcalls : t.calls = s.calls)
    (hlater : Later s t) (hrefs : ∀ k, s.refs k = 0 → t.refs k = 0) : Inv t := by
  have hheld : t.held = s.held := by rw [State.held, hcalls, State.held]
  refine ⟨by rw [hcell, hheld]; exact hs.cell, by rw [hcell]; exact hs.sorted, ?_, ?_, ?_⟩
  · rw [hcell]
    exact fun k hk => (hs.lt k hk).trans_le hlater.length_le
  · rw [hcell]
    exact fun k hk => hs.complete k (Nat.pos_of_ne_zero fun hzero => by
      rw [hrefs k hzero] at hk
      exact absurd hk (lt_irrefl 0))
  · rw [hcalls]
    exact fun c hc => (hs.calls c hc).later hlater fun l _ => by rw [hcell]

/-- A write to the list keeps the invariant, if the new list is one that it allows. -/
theorem Inv.write (hs : Inv s) (hlater : Later s t) (hcalls : t.calls = s.calls)
    {f : List ℕ → List ℕ} (hcell : t.cell = s.cell.write s.held f)
    (hsorted : (f s.cell.value).Pairwise (· < ·)) (hlt : ∀ k ∈ f s.cell.value, k < t.slots.length)
    (hcomplete : ∀ k, 0 < t.refs k → k ∈ f s.cell.value) : Inv t := by
  have hheld : t.held = s.held := by rw [State.held, hcalls, State.held]
  have hvalue : t.cell.value = f s.cell.value := by rw [hcell, Cell.write_value]
  refine ⟨by rw [hcell, hheld]; exact Cell.write_ok hs.cell f, by rwa [hvalue], by rwa [hvalue],
    by rwa [hvalue], ?_⟩
  rw [hcalls]
  refine fun c hc => (hs.calls c hc).later hlater fun l hl => ?_
  rw [hcell, Cell.heap_write hs.cell f (List.mem_filterMap.2 ⟨c, hc, hl⟩)]

theorem refs_setCall {i : ℕ} {c v : Call} (hi : s.calls[i]? = some c) (k : ℕ) :
    ({ s with calls := s.calls.set i v } : State).refs k +
        (if c.slotImpl = some k then 1 else 0) =
      s.refs k + if v.slotImpl = some k then 1 else 0 := by
  obtain ⟨hlt, hget⟩ := List.getElem?_eq_some_iff.1 hi
  have hpos : c.slotImpl = some k → 0 < s.calls.countP fun c => c.slotImpl = some k := by
    intro hc
    refine List.countP_pos_iff.2 ⟨c, List.mem_of_getElem? hi, ?_⟩
    exact decide_eq_true hc
  have hset := List.countP_set (p := fun c : Call => decide (c.slotImpl = some k)) hlt (a := v)
  rw [hget] at hset
  simp only [State.refs, State.handles, hset, decide_eq_true_eq]
  split_ifs with hc hv hv
  · have := hpos hc
    omega
  · have := hpos hc
    omega
  · omega
  · omega

/-- A call goes on: it owns only slots that had an owner, and no list that it did not hold. -/
theorem Inv.setCall (hs : Inv s) {i : ℕ} {c v : Call} (hi : s.calls[i]? = some c)
    (hslots : ∀ l, v.slots = some l → c.slots = some l)
    (howned : ∀ k, v.slotImpl = some k → s.refs k ≠ 0)
    (hv : Later s { s with calls := s.calls.set i v } →
      CallInv { s with calls := s.calls.set i v } c →
        CallInv { s with calls := s.calls.set i v } v) :
    Inv { s with calls := s.calls.set i v } := by
  have hrefs : ∀ k, s.refs k = 0 → ({ s with calls := s.calls.set i v } : State).refs k = 0 := by
    intro k hzero
    have hset := refs_setCall (v := v) hi k
    have hne : v.slotImpl ≠ some k := fun h => howned k h hzero
    rw [if_neg hne] at hset
    omega
  have hlater : Later s { s with calls := s.calls.set i v } :=
    ⟨le_rfl, fun k _ => hrefs k, fun k _ => rfl, fun x hx => hx⟩
  have hcall : ∀ c' ∈ s.calls, CallInv { s with calls := s.calls.set i v } c' := fun c' hc' =>
    (hs.calls c' hc').later hlater fun l _ => rfl
  refine ⟨hs.cell.mono ?_, hs.sorted, hs.lt, ?_, ?_⟩
  · intro l hl
    obtain ⟨c', hc', hl'⟩ := List.mem_filterMap.1 hl
    rcases List.mem_or_eq_of_mem_set hc' with hmem | rfl
    · exact List.mem_filterMap.2 ⟨c', hmem, hl'⟩
    · exact List.mem_filterMap.2 ⟨c, List.mem_of_getElem? hi, hslots l hl'⟩
  · exact fun k hk => hs.complete k (Nat.pos_of_ne_zero fun hzero => by
      rw [hrefs k hzero] at hk
      exact absurd hk (lt_irrefl 0))
  · intro c' hc'
    rcases List.mem_or_eq_of_mem_set hc' with hmem | rfl
    · exact hcall c' hmem
    · exact hv hlater (hcall c (List.mem_of_getElem? hi))

/-- One more slot has been dealt with. -/
theorem CallInv.take_succ {c : Call} (h : CallInv s c) (hnone : c.slotImpl = none)
    (hk : c.snapshot[c.index]? = some k) :
    c.snapshot.take (c.index + 1) = c.snapshot.take c.done ++ [k] ∧ k ∉ c.skipped ∧
      k ∉ c.snapshot.take c.done ∧ k ∈ c.snapshot := by
  have hdone : c.done = c.index := by rw [Call.done, if_pos hnone, Nat.add_zero]
  have htake : c.snapshot.take (c.index + 1) = c.snapshot.take c.done ++ [k] := by
    rw [List.take_add_one, hk, hdone]
    rfl
  have hnodup : (c.snapshot.take (c.index + 1)).Nodup :=
    (h.sorted.imp fun h => h.ne).sublist (List.take_sublist _ _)
  rw [htake, List.nodup_append] at hnodup
  have hnew : k ∉ c.snapshot.take c.done := fun hmem =>
    hnodup.2.2 k hmem k (List.mem_singleton_self k) rfl
  exact ⟨htake, fun hmem => hnew (h.skipped k hmem).1, hnew, List.mem_of_getElem? hk⟩

/-- Passing over the slot leaves what was invoked. -/
theorem CallInv.skip {c : Call} (h : CallInv s c) (hnone : c.slotImpl = none)
    (hk : c.snapshot[c.index]? = some k) :
    c.invoked = (c.snapshot.take (c.index + 1)).filter fun j => j ∉ c.skipped ++ [k] := by
  obtain ⟨htake, -, hnew, -⟩ := h.take_succ hnone hk
  have hsame : (c.snapshot.take c.done).filter (fun j => decide (j ∉ c.skipped ++ [k])) =
      (c.snapshot.take c.done).filter fun j => j ∉ c.skipped := by
    refine List.filter_congr fun j hj => ?_
    have hne : j ≠ k := fun h => hnew (h ▸ hj)
    simp [hne]
  rw [htake, List.filter_append, hsame, h.invoked]
  simp

/-- The slot is passed over, and stays so. -/
theorem CallInv.skipped_append {c : Call} (h : CallInv s c) (hnone : c.slotImpl = none)
    (hk : c.snapshot[c.index]? = some k) (hdead : ¬ s.Live k) :
    ∀ j ∈ c.skipped ++ [k], j ∈ c.snapshot.take (c.index + 1) ∧ ¬ s.Live j := by
  obtain ⟨htake, -, -, -⟩ := h.take_succ hnone hk
  intro j hj
  rw [htake]
  rcases List.mem_append.1 hj with hj | hj
  · obtain ⟨hmem, hlive⟩ := h.skipped j hj
    exact ⟨List.mem_append_left _ hmem, hlive⟩
  · rw [List.mem_singleton.1 hj]
    exact ⟨List.mem_append_right _ (List.mem_singleton_self k), hdead⟩

/-- The callback of the slot is invoked. -/
theorem CallInv.invoke {c : Call} (hs : CallInv s c) (h : CallInv t c) (hnone : c.slotImpl = none)
    (hk : c.snapshot[c.index]? = some k) (hlive : s.Live k) (guard : Option ℕ) :
    CallInv t { c with slotImpl := some k, guard := guard, invoked := c.invoked ++ [k] } := by
  obtain ⟨htake, hskipped, -, hmem⟩ := h.take_succ hnone hk
  refine ⟨h.heap, h.sorted, h.lt, h.before_le, h.complete, ?_, h.index_le, h.ended, ?_, ?_, ?_⟩
  · intro j hj
    cases hj
    exact hk
  · change c.invoked ++ [k] = (c.snapshot.take (c.index + 1)).filter fun j => j ∉ c.skipped
    rw [htake, List.filter_append, h.invoked]
    simp [hskipped]
  · intro j hj
    obtain ⟨hj', hdead⟩ := h.skipped j hj
    change j ∈ c.snapshot.take (c.index + 1) ∧ _
    rw [htake]
    exact ⟨List.mem_append_left _ hj', hdead⟩
  · intro j hj
    obtain ⟨hlt, hdead, hinvoked⟩ := h.gone j hj
    refine ⟨hlt, hdead, fun hmem => ?_⟩
    rcases List.mem_append.1 hmem with hmem | hmem
    · exact hinvoked hmem
    · rw [List.mem_singleton.1 hmem] at hj
      exact (hs.gone k hj).2.1 hlive

/-- The slot has expired, or its object is gone. -/
theorem CallInv.pass {c v : Call} (h : CallInv t c) (hnone : c.slotImpl = none)
    (hk : c.snapshot[c.index]? = some k) (hdead : ¬ t.Live k)
    (hv : v = { c with index := c.index + 1, skipped := c.skipped ++ [k] } ∨
      v = { c with slotImpl := some k, skipped := c.skipped ++ [k] }) (hl : c.slots ≠ none) :
    CallInv t v := by
  have hlt := (List.getElem?_eq_some_iff.1 hk).1
  have hdone : ∀ j ∈ c.skipped ++ [k], j ∈ c.snapshot.take (c.index + 1) ∧ ¬ t.Live j :=
    h.skipped_append hnone hk hdead
  have hinvoked := h.skip hnone hk
  rcases hv with rfl | rfl
  · have hd : ({ c with index := c.index + 1, skipped := c.skipped ++ [k] } : Call).done =
        c.index + 1 := by
      rw [Call.done, if_pos hnone]
    refine ⟨h.heap, h.sorted, h.lt, h.before_le, h.complete, ?_, hlt, ?_, ?_, ?_, h.gone⟩
    · intro j hj
      change c.slotImpl = some j at hj
      rw [hnone] at hj
      cases hj
    · exact fun hended => absurd hended hl
    · rw [hd]
      exact hinvoked
    · rw [hd]
      exact hdone
  · refine ⟨h.heap, h.sorted, h.lt, h.before_le, h.complete, ?_, h.index_le, h.ended, hinvoked,
      hdone, h.gone⟩
    intro j hj
    cases hj
    exact hk

/-- The loop goes on to the next slot, or ends. -/
theorem visit_inv {i l : ℕ} {c : Call} (hs : Inv s) (hi : s.calls[i]? = some c)
    (hl : c.slots = some l) (hnone : c.slotImpl = none) :
    Inv { s with calls := s.calls.set i (s.visit c l) } := by
  have hc := hs.calls c (List.mem_of_getElem? hi)
  have hheap := hc.heap l hl
  have hheld : c.slots ≠ none := by rw [hl]; exact Option.some_ne_none l
  unfold State.visit
  rw [hheap]
  cases hk : c.snapshot[c.index]? with
  | none =>
    have hend : c.index = c.snapshot.length :=
      le_antisymm hc.index_le (List.getElem?_eq_none_iff.1 hk)
    refine hs.setCall hi (fun l hl => by cases hl) ?_ fun _ ht => ?_
    · intro k hk
      change c.slotImpl = some k at hk
      rw [hnone] at hk
      cases hk
    · exact ⟨fun l hl => (by cases hl), ht.sorted, ht.lt, ht.before_le, ht.complete, ht.slotImpl,
        ht.index_le, fun _ => hend, ht.invoked, ht.skipped, ht.gone⟩
  | some k =>
    simp only
    by_cases hzero : s.refs k = 0
    · rw [if_pos hzero]
      refine hs.setCall hi (fun l hl => hl) ?_ fun hlater ht => ?_
      · intro j hj
        change c.slotImpl = some j at hj
        rw [hnone] at hj
        cases hj
      · refine ht.pass hnone hk (fun hlive => ?_) (Or.inl rfl) hheld
        have hlt := (hc.lt k (List.mem_of_getElem? hk)).trans_le hc.before_le
        exact (hlater.live hlt hlive).1.ne' hzero
    · rw [if_neg hzero]
      have howned : ∀ {v : Call}, v.slotImpl = some k →
          ∀ j, v.slotImpl = some j → s.refs j ≠ 0 := by
        intro v hv j hj
        rw [hv] at hj
        cases hj
        exact hzero
      cases htie : s.tie k with
      | none =>
        have hlive : s.Live k := by
          refine ⟨Nat.pos_of_ne_zero hzero, fun x hx => ?_⟩
          rw [htie] at hx
          cases hx
        exact hs.setCall hi (fun l hl => hl) (howned rfl)
          fun _ ht => hc.invoke ht hnone hk hlive c.guard
      | some x =>
        simp only
        by_cases hx : x ∈ s.dead
        · rw [if_pos hx]
          refine hs.setCall hi (fun l hl => hl) (howned rfl) fun hlater ht => ?_
          refine ht.pass hnone hk (fun hlive => ?_) (Or.inr rfl) hheld
          have hlt := (hc.lt k (List.mem_of_getElem? hk)).trans_le hc.before_le
          exact (hlater.live hlt hlive).2 x htie hx
        · rw [if_neg hx]
          have hlive : s.Live k := by
            refine ⟨Nat.pos_of_ne_zero hzero, fun y hy => ?_⟩
            rw [htie] at hy
            cases hy
            exact hx
          exact hs.setCall hi (fun l hl => hl) (howned rfl) fun _ ht =>
            hc.invoke ht hnone hk hlive (some x)

/-- The body of the loop ends. -/
theorem release_inv {i : ℕ} {c : Call} (hs : Inv s) (hi : s.calls[i]? = some c)
    (hk : c.slotImpl = some k) : Inv { s with calls := s.calls.set i c.release } := by
  refine hs.setCall hi (fun l hl => hl) (fun j hj => by cases hj) fun _ ht => ?_
  have hat := ht.slotImpl k hk
  have hlt := (List.getElem?_eq_some_iff.1 hat).1
  have hdone : c.release.done = c.done := by
    have hone : c.done = c.index + 1 := by
      rw [Call.done, if_neg (by rw [hk]; exact Option.some_ne_none k)]
    rw [hone]
    rfl
  refine ⟨ht.heap, ht.sorted, ht.lt, ht.before_le, ht.complete, fun j hj => (by cases hj), hlt, ?_,
    ?_, ?_, ht.gone⟩
  · intro hended
    have hend := ht.ended hended
    omega
  · rw [hdone]
    exact ht.invoked
  · rw [hdone]
    exact ht.skipped

/-- The number of destructors that wait is no part of the invariant. -/
theorem Inv.cleaning (hs : Inv s) (n : ℕ) : Inv { s with cleaning := n } :=
  ⟨hs.cell, hs.sorted, hs.lt, hs.complete, fun c hc =>
    (hs.calls c hc).later ⟨le_rfl, fun _ _ h => h, fun _ _ => rfl, fun _ h => h⟩ fun _ _ => rfl⟩

/-- A change of the handles of one slot. -/
theorem handles_modify (s : State) (k j : ℕ) (f : ℕ → ℕ) :
    ({ s with
      slots := s.slots.modify k fun r => { r with handles := f r.handles } } : State).handles j =
      if j = k ∧ j < s.slots.length then f (s.handles j) else s.handles j := by
  simp only [State.handles, List.getElem?_modify]
  cases hj : s.slots[j]? with
  | none =>
    have hge := List.getElem?_eq_none_iff.1 hj
    rw [if_neg (by omega)]
    rfl
  | some r =>
    have hlt := (List.getElem?_eq_some_iff.1 hj).1
    by_cases hkj : k = j
    · rw [if_pos ⟨hkj.symm, hlt⟩]
      simp [hkj]
    · rw [if_neg (fun h => hkj h.1.symm)]
      simp [hkj]

theorem tie_modify (s : State) (k j : ℕ) (f : ℕ → ℕ) :
    ({ s with slots := s.slots.modify k fun r => { r with handles := f r.handles } } : State).tie
      j = s.tie j := by
  simp only [State.tie, List.getElem?_modify]
  cases s.slots[j]? with
  | none => rfl
  | some r => by_cases hkj : k = j <;> simp [hkj]

/-- A slot with a handle is copied, or loses a handle. -/
theorem Inv.handles (hs : Inv s) (hk : 0 < s.handles k) (f : ℕ → ℕ) :
    Inv { s with slots := s.slots.modify k fun r => { r with handles := f r.handles } } := by
  have hrefs : ∀ j, s.refs j = 0 → ({ s with
      slots := s.slots.modify k fun r => { r with
        handles := f r.handles } } : State).refs j = 0 := by
    intro j hzero
    unfold State.refs at hzero ⊢
    rw [handles_modify]
    split_ifs with hjk
    · obtain ⟨rfl, -⟩ := hjk
      simp only
      omega
    · exact hzero
  refine hs.users rfl rfl ⟨?_, fun j _ => hrefs j, fun j _ => tie_modify s k j f, fun x hx => hx⟩
    hrefs
  exact (List.length_modify _ _ _).ge

/-- A new slot at the end of the list. -/
theorem connect_inv (hs : Inv s) (tie : Option ℕ) :
    ∃ t, ({ s with slots := s.slots ++ [⟨1, tie⟩] } : State).write (· ++ [s.slots.length]) = .ok t ∧
      Inv t := by
  refine ⟨_, write_ok (s := { s with slots := s.slots ++ [⟨1, tie⟩] }) hs.cell _, ?_⟩
  have hsame : ∀ k < s.slots.length, (s.slots ++ [⟨1, tie⟩])[k]? = s.slots[k]? := fun k hk =>
    List.getElem?_append_left hk
  have hrefs : ∀ k < s.slots.length,
      ({ s with slots := s.slots ++ [⟨1, tie⟩] } : State).refs k = s.refs k := by
    intro k hk
    simp only [State.refs, State.handles, hsame k hk]
  refine hs.write (f := (· ++ [s.slots.length])) ⟨?_, ?_, ?_, fun x hx => hx⟩ rfl rfl ?_ ?_ ?_
  · simp
  · exact fun k hk hzero => (hrefs k hk).trans hzero
  · intro k hk
    simp only [State.tie, hsame k hk]
  · refine List.pairwise_append.2 ⟨hs.sorted, List.pairwise_singleton _ _, ?_⟩
    intro k hk j hj
    rw [List.mem_singleton.1 hj]
    exact hs.lt k hk
  · intro k hk
    change k < (s.slots ++ [(⟨1, tie⟩ : Slot)]).length
    rw [List.length_append, List.length_singleton]
    rcases List.mem_append.1 hk with hk | hk
    · have := hs.lt k hk
      omega
    · rw [List.mem_singleton.1 hk]
      omega
  · intro k hpos
    rcases lt_trichotomy k s.slots.length with hlt | heq | hgt
    · change 0 < ({ s with slots := s.slots ++ [⟨1, tie⟩] } : State).refs k at hpos
      rw [hrefs k hlt] at hpos
      exact List.mem_append_left _ (hs.complete k hpos)
    · exact List.mem_append_right _ (List.mem_singleton.2 heq)
    · -- There is no such slot, so nobody owns it.
      have hnone : s.refs k = ({ s with slots := s.slots ++ [⟨1, tie⟩] } : State).refs k := by
        have h1 : s.slots[k]? = none := List.getElem?_eq_none_iff.2 hgt.le
        have h2 : (s.slots ++ [⟨1, tie⟩])[k]? = none := List.getElem?_eq_none_iff.2 (by
          rw [List.length_append, List.length_singleton]
          omega)
        simp only [State.refs, State.handles, h1, h2]
      change 0 < ({ s with slots := s.slots ++ [⟨1, tie⟩] } : State).refs k at hpos
      rw [← hnone] at hpos
      exact List.mem_append_left _ (hs.complete k hpos)

/-- The expired slots are taken out of the list. -/
theorem clean_inv (hs : Inv s) : ∃ t, ({ s with cleaning := s.cleaning - 1 } : State).write
    (·.filter fun k => decide (s.refs k ≠ 0)) = .ok t ∧ Inv t := by
  refine ⟨_, write_ok (s := { s with cleaning := s.cleaning - 1 }) hs.cell _, ?_⟩
  refine hs.write (f := (·.filter fun k => decide (s.refs k ≠ 0)))
    ⟨le_rfl, fun _ _ h => h, fun _ _ => rfl, fun _ h => h⟩ rfl rfl ?_ ?_ ?_
  · exact hs.sorted.filter _
  · exact fun k hk => hs.lt k (List.mem_filter.1 hk).1
  · intro k hpos
    exact List.mem_filter.2 ⟨hs.complete k hpos, decide_eq_true (Nat.pos_iff_ne_zero.1 hpos)⟩

/-- A call takes the list as it is. -/
theorem call_inv (hs : Inv s) : Inv { s with calls := s.calls ++ [s.newCall] } := by
  have hrefs : ∀ k, ({ s with calls := s.calls ++ [s.newCall] } : State).refs k = s.refs k := by
    intro k
    simp [State.refs, State.handles, State.newCall]
  have hlater : Later s { s with calls := s.calls ++ [s.newCall] } :=
    ⟨le_rfl, fun k _ h => (hrefs k).trans h, fun _ _ => rfl, fun _ h => h⟩
  have hheld : ({ s with calls := s.calls ++ [s.newCall] } : State).held =
      s.held ++ [s.cell.current] := by
    simp [State.held, State.newCall]
  refine ⟨by rw [hheld]; exact hs.cell.hold, hs.sorted, hs.lt, fun k hk => hs.complete k (by
    rwa [hrefs k] at hk), fun c hc => ?_⟩
  rcases List.mem_append.1 hc with hc | hc
  · exact (hs.calls c hc).later hlater fun _ _ => rfl
  · rw [List.mem_singleton.1 hc]
    refine ⟨fun l hl => (by cases hl; rfl), hs.sorted, hs.lt, le_rfl, ?_, fun k hk => (by cases hk),
      Nat.zero_le _, fun h => (by cases h), rfl, fun k hk => (by cases hk), ?_⟩
    · intro k _ hpos
      rw [hrefs k] at hpos
      exact hs.complete k hpos
    · intro k hk
      obtain ⟨hlt, hdead⟩ := List.mem_filter.1 hk
      have hlt' := List.mem_range.1 hlt
      refine ⟨hlt', fun hlive => ?_, fun hmem => by cases hmem⟩
      exact absurd (hlater.live hlt' hlive) (of_decide_eq_true hdead)

/-- No step fails, and every step keeps the invariant. -/
theorem step_inv (hs : Inv s) (a : Label) {r : Except Failure State} (h : step s a = some r) :
    ∃ t, r = .ok t ∧ Inv t := by
  cases a with
  | connect tie =>
    rw [step, Option.ite_none_right_eq_some, Option.some.injEq] at h
    obtain ⟨-, rfl⟩ := h
    exact connect_inv hs tie
  | copy k =>
    rw [step, Option.ite_none_right_eq_some, Option.some.injEq] at h
    obtain ⟨hk, rfl⟩ := h
    exact ⟨_, rfl, hs.handles hk (· + 1)⟩
  | drop k =>
    rw [step, Option.ite_none_right_eq_some, Option.some.injEq] at h
    obtain ⟨hk, rfl⟩ := h
    exact ⟨_, rfl, (hs.handles hk (· - 1)).cleaning _⟩
  | die x =>
    rw [step, Option.ite_none_right_eq_some, Option.some.injEq] at h
    obtain ⟨-, rfl⟩ := h
    exact ⟨_, rfl, hs.users rfl rfl ⟨le_rfl, fun _ _ h => h, fun _ _ => rfl,
      fun _ h => List.mem_append_left _ h⟩ fun _ h => h⟩
  | clean =>
    rw [step, Option.ite_none_right_eq_some, Option.some.injEq] at h
    obtain ⟨-, rfl⟩ := h
    exact clean_inv hs
  | call =>
    cases h
    exact ⟨_, rfl, call_inv hs⟩
  | next i =>
    rw [step] at h
    split at h
    · next c hi =>
      split at h
      · next l hl hnone =>
        cases h
        exact ⟨_, rfl, visit_inv hs hi hl hnone⟩
      · cases h
    · cases h
  | release i =>
    rw [step] at h
    split at h
    · next c hi =>
      split at h
      · next k hk =>
        cases h
        exact ⟨_, rfl, (release_inv hs hi hk).cleaning _⟩
      · cases h
    · cases h

theorem init_inv : Inv State.init :=
  ⟨Cell.new_ok [], List.Pairwise.nil, fun k hk => (by cases hk), fun k hk => (by cases hk),
    fun c hc => by cases hc⟩

theorem reach_inv (h : Reach (Moves step) Always State.init s) : Inv s :=
  h.invariant init_inv fun x a y hx _ hstep => by
    obtain ⟨t, ht, hinv⟩ := step_inv hx a hstep
    cases ht
    exact hinv

/-- A destructor waits while an expired slot is in the list. -/
def Cleaned (s : State) : Prop := ∀ k ∈ s.cell.value, s.refs k = 0 → 0 < s.cleaning

theorem cleaned_of_refs (h : Cleaned s) (hvalue : t.cell.value = s.cell.value)
    (hrefs : ∀ k, t.refs k = 0 → s.refs k = 0 ∨ 0 < t.cleaning)
    (hcleaning : s.cleaning ≤ t.cleaning) : Cleaned t := by
  intro k hk hzero
  rw [hvalue] at hk
  rcases hrefs k hzero with h0 | hpos
  · exact (h k hk h0).trans_le hcleaning
  · exact hpos

/-- A slot that loses its last owner has its destructor called. -/
theorem cleaned_expire (h : Cleaned s) {k : ℕ} (hvalue : t.cell.value = s.cell.value)
    (hrefs : ∀ j, j ≠ k → t.refs j = 0 → s.refs j = 0) (hcleaning : t.cleaning = s.cleaning) :
    Cleaned (t.expire k) := by
  refine cleaned_of_refs h hvalue (fun j hzero => ?_) ?_
  · rcases eq_or_ne j k with rfl | hne
    · refine Or.inr ?_
      change 0 < t.cleaning + if t.refs j = 0 then 1 else 0
      rw [if_pos (show t.refs j = 0 from hzero)]
      exact Nat.succ_pos _
    · exact Or.inl (hrefs j hne hzero)
  · rw [← hcleaning]
    exact Nat.le_add_right _ _

theorem step_cleaned (hs : Inv s) (hc : Cleaned s) {a : Label} (h : Moves step s a t) :
    Cleaned t := by
  unfold Moves at h
  cases a with
  | connect tie =>
    rw [step, Option.ite_none_right_eq_some, Option.some.injEq,
      write_ok (s := { s with slots := s.slots ++ [⟨1, tie⟩] }) hs.cell] at h
    obtain ⟨-, h⟩ := h
    cases h
    intro k hk hzero
    change k ∈ (s.cell.write s.held (· ++ [s.slots.length])).value at hk
    rw [Cell.write_value] at hk
    rcases List.mem_append.1 hk with hk | hk
    · refine hc k hk ?_
      have hsame : (s.slots ++ [(⟨1, tie⟩ : Slot)])[k]? = s.slots[k]? :=
        List.getElem?_append_left (hs.lt k hk)
      simpa only [State.refs, State.handles, hsame] using hzero
    · rw [List.mem_singleton.1 hk] at hzero
      simp [State.refs, State.handles] at hzero
  | copy k =>
    rw [step, Option.ite_none_right_eq_some, Option.some.injEq] at h
    obtain ⟨hk, h⟩ := h
    cases h
    refine cleaned_of_refs hc rfl (fun j hzero => Or.inl ?_) le_rfl
    have hmodify := handles_modify s k j (· + 1)
    unfold State.refs at hzero ⊢
    rw [hmodify] at hzero
    split_ifs at hzero with hjk
    · omega
    · exact hzero
  | drop k =>
    rw [step, Option.ite_none_right_eq_some, Option.some.injEq] at h
    obtain ⟨hk, h⟩ := h
    cases h
    refine cleaned_expire hc rfl (fun j hne hzero => ?_) rfl
    have hmodify := handles_modify s k j (· - 1)
    rw [if_neg (fun h => hne h.1)] at hmodify
    unfold State.refs at hzero ⊢
    rwa [hmodify] at hzero
  | die x =>
    rw [step, Option.ite_none_right_eq_some, Option.some.injEq] at h
    obtain ⟨-, h⟩ := h
    cases h
    exact cleaned_of_refs hc rfl (fun _ => Or.inl) le_rfl
  | clean =>
    rw [step, Option.ite_none_right_eq_some, Option.some.injEq,
      write_ok (s := { s with cleaning := s.cleaning - 1 }) hs.cell] at h
    obtain ⟨-, h⟩ := h
    cases h
    intro k hk hzero
    change k ∈ (s.cell.write s.held (·.filter fun k => decide (s.refs k ≠ 0))).value at hk
    rw [Cell.write_value] at hk
    exact absurd hzero (of_decide_eq_true (List.mem_filter.1 hk).2)
  | call =>
    cases h
    refine cleaned_of_refs hc rfl (fun k hzero => Or.inl ?_) le_rfl
    simpa [State.refs, State.handles, State.newCall] using hzero
  | next i =>
    rw [step] at h
    split at h
    · next c hi =>
      split at h
      · next l hl hnone =>
        cases h
        refine cleaned_of_refs hc rfl (fun k hzero => Or.inl ?_) le_rfl
        have hset := refs_setCall (v := s.visit c l) hi k
        rw [hnone, if_neg (by simp)] at hset
        omega
      · cases h
    · cases h
  | release i =>
    rw [step] at h
    split at h
    · next c hi =>
      split at h
      · next k hk =>
        cases h
        refine cleaned_expire hc rfl (fun j hne hzero => ?_) rfl
        have hset := refs_setCall (v := c.release) hi j
        rw [hk, if_neg (fun h => hne (Option.some.inj h).symm)] at hset
        omega
      · cases h
    · cases h

/-- **The list is clean**: in every reachable state it is in the order of the connections, and holds
every slot that has an owner. When no destructor waits for the mutex it holds no others. -/
theorem list_exact (h : Reach (Moves step) Always State.init s) :
    s.cell.value.Pairwise (· < ·) ∧ (∀ k, 0 < s.refs k → k ∈ s.cell.value) ∧
      (s.cleaning = 0 → ∀ k, k ∈ s.cell.value ↔ 0 < s.refs k) := by
  obtain ⟨hs, hc⟩ := h.invariant (I := fun s => Inv s ∧ Cleaned s)
    ⟨init_inv, fun k hk => (by cases hk)⟩ fun x a y hx _ hstep => by
      obtain ⟨t, ht, hinv⟩ := step_inv hx.1 a hstep
      cases ht
      exact ⟨hinv, step_cleaned hx.1 hx.2 hstep⟩
  refine ⟨hs.sorted, hs.complete, fun hzero k => ⟨fun hk => ?_, hs.complete k⟩⟩
  refine Nat.pos_of_ne_zero fun h0 => ?_
  have := hc k hk h0
  omega

/-- **A call sees one list**: in every interleaving the assertion holds, and the list that a call
goes through does not change under it. A call that has ended has invoked callbacks in the order of
their connection, each at most once, and none that was connected later or was gone when it began;
of those that are still there it has invoked every one that was connected before it began. -/
theorem call_exact (h : Reach (Moves step) Always State.init s) :
    (∀ a e, step s a ≠ some (.error e)) ∧
      ∀ c ∈ s.calls, (∀ l, c.slots = some l → s.cell.heap l = c.snapshot) ∧
        c.invoked.Pairwise (· < ·) ∧ (∀ k ∈ c.invoked, k < c.before ∧ k ∉ c.gone) ∧
        (c.slots = none → ∀ k, s.Live k → (k ∈ c.invoked ↔ k < c.before)) := by
  have hs := reach_inv h
  refine ⟨fun a e ha => ?_, fun c hc => ?_⟩
  · obtain ⟨t, ht, -⟩ := step_inv hs a ha
    cases ht
  have hcall := hs.calls c hc
  have hlt : ∀ k ∈ c.invoked, k < c.before := by
    intro k hk
    rw [hcall.invoked] at hk
    exact hcall.lt k (List.mem_of_mem_take (List.mem_filter.1 hk).1)
  refine ⟨hcall.heap, ?_, fun k hk => ⟨hlt k hk, fun hgone => (hcall.gone k hgone).2.2 hk⟩, ?_⟩
  · rw [hcall.invoked]
    exact (hcall.sorted.sublist (List.take_sublist _ _)).filter _
  · refine fun hended k hlive => ⟨hlt k, fun hk => ?_⟩
    have hmem := hcall.complete k hk hlive.1
    have hall : c.snapshot.take c.done = c.snapshot := by
      refine List.take_of_length_le ?_
      rw [Call.done, hcall.ended hended]
      exact Nat.le_add_right _ _
    rw [hcall.invoked, hall]
    exact List.mem_filter.2 ⟨hmem, decide_eq_true fun hskip => (hcall.skipped k hskip).2 hlive⟩

/-- Two slots are called. The first is dropped while its callback runs, and a third is connected. -/
def session : List Label :=
  [.connect none, .connect none, .call, .next 0, .drop 0, .connect none, .release 0, .clean,
    .next 0, .release 0, .next 0]

theorem list_exact_session : ∃ s, Reach (Moves step) Always State.init s ∧ s.cleaning = 0 ∧
    ∀ k, k ∈ s.cell.value ↔ 0 < s.refs k := by
  obtain ⟨s, hs, hclean⟩ := exists_reach_of_run step Always State.init session
    (fun s => decide (s.cleaning = 0)) (by decide)
  exact ⟨s, hs, of_decide_eq_true hclean, (list_exact hs).2.2 (of_decide_eq_true hclean)⟩

theorem call_exact_session : ∃ s c, Reach (Moves step) Always State.init s ∧ c ∈ s.calls ∧
    s.Live 1 ∧ (1 ∈ c.invoked ↔ 1 < c.before) := by
  obtain ⟨s, hs, hcall⟩ := exists_reach_of_run step Always State.init session
    (fun s => s.calls.any fun c => decide (c.slots = none ∧ s.Live 1)) (by decide)
  obtain ⟨c, hc, hended⟩ := List.any_eq_true.1 hcall
  obtain ⟨hnone, hlive⟩ := of_decide_eq_true hended
  exact ⟨s, c, hs, hc, hlive, ((call_exact hs).2 c hc).2.2.2 hnone 1 hlive⟩

end SignalSlot
