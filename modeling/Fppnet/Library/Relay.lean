import Mathlib.Tactic

/-!
# A relay: many producers, one consumer that works in batches

A producer's call first makes an item (`start`) and later, in a critical section, queues it
(`push`). The consumer swaps the whole queue into a batch of its own when it has finished the last
one (`swap`) and takes the items of the batch one by one (`pop`).

`queued t` is the list of the items of producer `t` that are still to be taken. Seen through it a
relay is a family of queues, one for each producer: `start` adds at the end of the producer's own
queue, `push` and `swap` change nothing, and `pop` takes the first item of one of the queues
(`queued_start`, `queued_push`, `queued_swap`, `queued_pop`).
-/

set_option linter.unusedSectionVars false

namespace Relays

variable {τ α : Type} [DecidableEq τ]

/-- The items of producer `t` in a list. -/
def ofProducer (t : τ) (l : List (τ × α)) : List α :=
  l.filterMap fun e => if e.1 = t then some e.2 else none

@[simp] theorem ofProducer_nil (t : τ) : ofProducer t ([] : List (τ × α)) = [] := rfl

@[simp] theorem ofProducer_append (t : τ) (l l' : List (τ × α)) :
    ofProducer t (l ++ l') = ofProducer t l ++ ofProducer t l' := List.filterMap_append

theorem ofProducer_cons (t : τ) (e : τ × α) (l : List (τ × α)) :
    ofProducer t (e :: l) = (if e.1 = t then [e.2] else []) ++ ofProducer t l := by
  unfold ofProducer
  by_cases h : e.1 = t
  · simp [h]
  · simp [h]

theorem ofProducer_singleton (t : τ) (e : τ × α) :
    ofProducer t [e] = if e.1 = t then [e.2] else [] := by
  rw [ofProducer_cons, ofProducer_nil, List.append_nil]

/-- A list is determined, up to the order in which producers take turns, by what each producer has
in it. -/
theorem perm_of_ofProducer [DecidableEq α] {l l' : List (τ × α)}
    (h : ∀ t, ofProducer t l = ofProducer t l') : l.Perm l' := by
  have hcount : ∀ (t : τ) (a : α) (k : List (τ × α)),
      k.count (t, a) = (ofProducer t k).count a := by
    intro t a k
    induction k with
    | nil => rfl
    | cons e k ih =>
      rw [ofProducer_cons, List.count_append, ← ih, List.count_cons]
      obtain ⟨t', a'⟩ := e
      by_cases ht : t' = t
      · simp [ht, List.count_singleton, add_comm]
      · simp [ht]
  rw [List.perm_iff_count]
  rintro ⟨t, a⟩
  rw [hcount, hcount, h]

/-- **First in, first out.** The items `q` have been followed by `new`, and `popped` have been
taken, so that `rest` is left. If what is left of `q` has nothing to select, all that `q` has to
select has been taken, in its order. -/
theorem filterMap_prefix_of_fifo {β : Type} {q new popped rest : List α} (f : α → Option β)
    (h : q ++ new = popped ++ rest)
    (hrest : ∀ c, c <+: rest → c <:+ q → c.filterMap f = []) :
    q.filterMap f <+: popped.filterMap f := by
  rcases List.append_eq_append_iff.1 h with ⟨c, hpopped, -⟩ | ⟨c, hq, hr⟩
  · rw [hpopped, List.filterMap_append]
    exact List.prefix_append ..
  · rw [hq, List.filterMap_append, hrest c ⟨new, hr.symm⟩ ⟨popped, hq.symm⟩, List.append_nil]

end Relays

open Relays

/-- The items on their way from the producers to the consumer. -/
structure Relay (τ α : Type) where
  inFlight : τ → Option α
  pending : List (τ × α)
  batch : List (τ × α)

namespace Relay

variable {τ α : Type} [DecidableEq τ]

def empty : Relay τ α := ⟨fun _ => none, [], []⟩

/-- The call of producer `t` has made the item `a`. -/
def start (r : Relay τ α) (t : τ) (a : α) : Relay τ α :=
  { r with inFlight := Function.update r.inFlight t (some a) }

/-- Producer `t` queues its item. -/
def push (r : Relay τ α) (t : τ) : Option (Relay τ α) :=
  (r.inFlight t).map fun a =>
    { r with inFlight := Function.update r.inFlight t none, pending := r.pending ++ [(t, a)] }

/-- The consumer swaps the queue with its empty batch. -/
def swap (r : Relay τ α) : Option (Relay τ α) :=
  if r.batch.isEmpty then some { r with batch := r.pending, pending := [] } else none

/-- The consumer takes the next item of its batch. -/
def pop (r : Relay τ α) : Option ((τ × α) × Relay τ α) :=
  match r.batch with
  | [] => none
  | e :: rest => some (e, { r with batch := rest })

/-- The items of producer `t` that the consumer has still to take. -/
def queued (r : Relay τ α) (t : τ) : List α :=
  ofProducer t (r.batch ++ r.pending) ++ (r.inFlight t).toList

theorem queued_empty (t : τ) : (empty : Relay τ α).queued t = [] := rfl

theorem queued_start {r : Relay τ α} {t : τ} (h : r.inFlight t = none) (a : α) (u : τ) :
    (r.start t a).queued u = r.queued u ++ if t = u then [a] else [] := by
  unfold queued start
  by_cases hu : t = u
  · subst hu
    simp [h]
  · simp [hu, Function.update_of_ne (Ne.symm hu)]

theorem queued_push {r r' : Relay τ α} {t : τ} (h : r.push t = some r') (u : τ) :
    r'.queued u = r.queued u := by
  unfold push at h
  obtain ⟨a, ha, rfl⟩ := Option.map_eq_some_iff.1 h
  unfold queued
  by_cases hu : t = u
  · subst hu
    simp [ha, ofProducer_singleton]
  · simp [hu, Function.update_of_ne (Ne.symm hu), ofProducer_singleton]

theorem queued_swap {r r' : Relay τ α} (h : r.swap = some r') (u : τ) :
    r'.queued u = r.queued u := by
  unfold swap at h
  split_ifs at h with hb
  cases h
  rw [List.isEmpty_iff] at hb
  simp [queued, hb]

theorem queued_pop {r r' : Relay τ α} {e : τ × α} (h : r.pop = some (e, r')) (u : τ) :
    r.queued u = (if e.1 = u then [e.2] else []) ++ r'.queued u := by
  unfold pop at h
  split at h
  · cases h
  · next e' rest hb =>
    cases h
    simp only [queued, hb, List.cons_append, ofProducer_cons, List.append_assoc]

/-! ### The line of all queued items -/

/-- The queued items of all producers, in the order in which the consumer is going to take them. -/
def line (r : Relay τ α) : List (τ × α) := r.batch ++ r.pending

theorem mem_queued_of_mem_line {r : Relay τ α} {e : τ × α} (h : e ∈ r.line) :
    e.2 ∈ r.queued e.1 :=
  List.mem_append_left _ (List.mem_filterMap.2 ⟨e, h, if_pos rfl⟩)

theorem line_push {r r' : Relay τ α} {t : τ} (h : r.push t = some r') :
    ∃ a, r'.line = r.line ++ [(t, a)] := by
  unfold push at h
  obtain ⟨a, -, rfl⟩ := Option.map_eq_some_iff.1 h
  exact ⟨a, (List.append_assoc ..).symm⟩

theorem line_swap {r r' : Relay τ α} (h : r.swap = some r') : r'.line = r.line := by
  unfold swap at h
  split_ifs at h with hb
  cases h
  rw [List.isEmpty_iff] at hb
  simp [line, hb]

theorem line_pop {r r' : Relay τ α} {e : τ × α} (h : r.pop = some (e, r')) :
    r.line = e :: r'.line := by
  unfold pop at h
  split at h
  · cases h
  · next e' rest hb =>
    cases h
    rw [line, hb]
    rfl

end Relay
