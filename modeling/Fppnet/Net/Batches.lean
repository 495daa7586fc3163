import Fppnet.Net.CloseOnce

/-!
# The batches of `doPendingFunctors`

`Network` takes the functors of a loop one at a time. `EventLoop::doPendingFunctors` swaps them into
a local vector and calls them in turn; the vector, and with it the pointers that its functors are
bound to, is destroyed when all of them have been called.

* `Batches` is a network with the local vectors of its loops: how many functors are still to be
  called in a batch (they are the first ones of `Network.functors`), and which have been called;
* `step` begins a batch (`swap`), ends it (`finish`), or takes a step of the network. Functors are
  called in a batch only, polls and channel callbacks come between the batches, and a destructor
  does not run while a functor that has been called is bound to the connection;
* `reach_net`: every run is a run of the network, so that the results about networks hold here.
-/

namespace Fppnet

open Checked Runs TcpConnection

/-- A network whose loops call their functors in batches. -/
structure Batches where
  net : Network
  left : LoopId → Option ℕ
  called : List (LoopId × Functor)

namespace Batches

inductive Label
  | swap (loop : LoopId)
  | finish (loop : LoopId)
  | net (l : Network.Label)

def ofNetwork (s : Network) : Batches := ⟨s, fun _ => none, []⟩

/-- A functor that has been called in a batch that still runs is bound to the connection. -/
def Called (s : Batches) (c : ConnId) : Prop := ∃ p ∈ s.called, p.2.owns = some c

instance (s : Batches) (c : ConnId) : Decidable (s.Called c) :=
  inferInstanceAs (Decidable (∃ p ∈ s.called, _))

/-- There is a `shared_ptr` to the connection, maybe in the local vector of a loop. -/
def Owned (s : Batches) (c : ConnId) : Prop := s.net.Owned c ∨ s.Called c

instance (s : Batches) (c : ConnId) : Decidable (s.Owned c) :=
  inferInstanceAs (Decidable (_ ∨ _))

/-- The steps of the network that fit the batches. -/
def Allows (s : Batches) : Network.Label → Prop
  | .poll loop _ | .handle loop _ => s.left loop = none
  -- the callbacks of `Acceptor` and `Connector`
  | .newConnection _ _ | .connectorEvent _ => s.left baseLoop = none
  | .functor loop _ => ∃ n ∈ s.left loop, 0 < n
  | .free c => ¬ s.Called c
  | _ => True

instance (s : Batches) (l : Network.Label) : Decidable (s.Allows l) :=
  match l with
  | .poll loop _ | .handle loop _ => inferInstanceAs (Decidable (s.left loop = none))
  | .newConnection _ _ | .connectorEvent _ => inferInstanceAs (Decidable (s.left baseLoop = none))
  | .functor loop _ => inferInstanceAs (Decidable (∃ n ∈ s.left loop, 0 < n))
  | .free c => inferInstanceAs (Decidable (¬ s.Called c))
  | .destroyServer | .clientCall _ | .startInLoop _ | .send _ _ _ | .shutdown _ _
  | .foreignSend _ _ | .foreignShutdown _ | .proceed _ | .hold _ | .drop _ => isTrue trivial

/-- The end of `doPendingFunctors`. -/
def finished (s : Batches) (loop : LoopId) : Batches :=
  { s with
    left := Function.update s.left loop none
    called := s.called.filter fun p => p.1 ≠ loop }

/-- The batches after a step of the network. -/
def advance (s : Batches) (t : Network) : Network.Label → Batches
  | .functor loop _ =>
    match s.net.functors loop with
    | f :: _ =>
      ⟨t, Function.update s.left loop ((s.left loop).map (· - 1)), s.called ++ [(loop, f)]⟩
    | [] => ⟨t, s.left, s.called⟩
  | _ => ⟨t, s.left, s.called⟩

def step (s : Batches) : Label → Option (Except Network.Failure Batches)
  | .swap loop =>
    if s.net.active loop = [] ∧ s.left loop = none then
      some (.ok { s with
        left := Function.update s.left loop (some (s.net.functors loop).length) })
    else none
  | .finish loop => if s.left loop = some 0 then some (.ok (s.finished loop)) else none
  | .net l =>
    if s.Allows l then (s.net.step l).map fun r => r.map fun t => s.advance t l else none

/-! ### What a step does -/

inductive Steps (s : Batches) : Label → Batches → Prop
  | swap {loop : LoopId} (hidle : s.net.active loop = []) (hl : s.left loop = none) :
      Steps s (.swap loop)
        { s with left := Function.update s.left loop (some (s.net.functors loop).length) }
  | finish {loop : LoopId} (hl : s.left loop = some 0) : Steps s (.finish loop) (s.finished loop)
  | net {l : Network.Label} {t : Network} (ha : s.Allows l) (hs : Moves Network.step s.net l t) :
      Steps s (.net l) (s.advance t l)

theorem step_cases {s t : Batches} {l : Label} (hs : Moves step s l t) : s.Steps l t := by
  cases l with
  | swap loop =>
    obtain ⟨⟨hidle, hl⟩, hs⟩ := hs.enabled rfl
    cases hs
    exact .swap hidle hl
  | finish loop =>
    obtain ⟨hl, hs⟩ := hs.enabled rfl
    cases hs
    exact .finish hl
  | net l =>
    unfold Moves step at hs
    rw [Option.ite_none_right_eq_some] at hs
    obtain ⟨ha, hs⟩ := hs
    obtain ⟨r, hr, hs⟩ := Option.map_eq_some_iff.1 hs
    obtain ⟨n, rfl, rfl⟩ := map_eq_ok.1 hs
    exact .net ha hr

theorem advance_net (s : Batches) (t : Network) (l : Network.Label) :
    (s.advance t l).net = t := by
  unfold advance
  split
  · split <;> rfl
  · rfl

/-- A step of the network takes no functor out of the local vectors. -/
theorem Called.advance {s : Batches} {c : ConnId} (h : s.Called c) (t : Network)
    (l : Network.Label) : (s.advance t l).Called c := by
  obtain ⟨p, hp, howns⟩ := h
  unfold Batches.advance
  split
  · split
    · exact ⟨p, List.mem_append_left _ hp, howns⟩
    · exact ⟨p, hp, howns⟩
  · exact ⟨p, hp, howns⟩

/-- The functor that is called goes to the local vector. -/
theorem called_functor {s : Batches} {loop : LoopId} {a : Answers} {f : Functor}
    {rest : List Functor} (hq : s.net.functors loop = f :: rest) {c : ConnId}
    (howns : f.owns = some c) (t : Network) : (s.advance t (.functor loop a)).Called c := by
  simp only [advance, hq]
  exact ⟨(loop, f), List.mem_append_right _ (List.mem_singleton.2 rfl), howns⟩

/-- **Every run is a run of the network.** -/
theorem reach_net {s t : Batches} {C : Batches → Label → Prop}
    {D : Network → Network.Label → Prop} (h : Reach (Moves step) C s t)
    (hCD : ∀ x l, C x (.net l) → D x.net l) : Reach (Moves Network.step) D s.net t.net := by
  refine h.simulates Batches.net fun x l y hc hs => ?_
  cases step_cases hs with
  | swap hidle hl => exact .inl rfl
  | finish hl => exact .inl rfl
  | @net l t ha ht =>
    rw [advance_net]
    exact .inr ⟨l, hCD x l hc, ht⟩

end Batches

end Fppnet
