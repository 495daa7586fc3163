import Fppnet.Library.Run
import Fppnet.Library.Checked

/-!
# Monitors

A monitor is an object whose methods run under one mutex. A method first waits in a loop on a
condition variable, until its test lets it go on; then it acts, notifies, and unlocks the mutex.
Nothing is promised about who gets the mutex next: a thread that comes from outside may overtake
one that was woken, so a woken thread tests again; and a thread may be woken by nobody.

* `Monitor` is the code of such an object, `State` the object with the threads inside its methods,
  `step` what one thread does between getting the mutex and giving it back;
* `Sequential` runs calls one after the other without any waiting. `Reach.sequential`: whatever the
  threads do, the calls that have returned are such a sequence, in the order in which they returned;
* `Capacity` is the condition under which waking one thread at a time is enough, and
  `Reach.enough` its consequence: nobody sleeps through a notification;
* `Reach.asleep_waits` is the same for a variable that is always notified as a whole.
-/

namespace Monitors

open Runs Checked

variable {S M K R ε T : Type}

/-- Whom a method notifies before it unlocks the mutex. -/
inductive Notice (K : Type)
  | nobody
  | one (k : K)
  | all (k : K)
  deriving DecidableEq

/-- The methods of an object: shared state `S`, calls `M` with results `R`, condition variables
`K`. -/
structure Monitor (S M K R ε : Type) where
  /-- the test of the loop around the wait -/
  waits : S → M → Bool
  /-- the condition variable of that loop -/
  cond : M → Option K
  act : S → M → Except ε (R × S)
  /-- the notification, in the state after the action -/
  notice : S → M → Notice K

/-- The object, the threads that sleep in a method, those that are woken and have not got the mutex
back, and (a record that no step reads) the calls that have returned. -/
structure State (S M R T : Type) where
  shared : S
  asleep : List (T × M)
  woken : List (T × M)
  returned : List (T × M × R)

/-- No thread is inside a method. -/
def State.init (s : S) : State S M R T := ⟨s, [], [], []⟩

/-- A step: a thread calls a method, a woken thread gets the mutex back, or a thread wakes up
without a notification. `pick` is the sleeper that the notification of the step wakes. -/
inductive Label (M T : Type)
  | call (t : T) (m : M) (pick : Option ℕ)
  | resume (i : ℕ) (pick : Option ℕ)
  | spurious (i : ℕ)
  deriving DecidableEq

section Step

variable [DecidableEq K] (mon : Monitor S M K R ε)

/-- The call waits at `k`. -/
def Monitor.at (k : K) (c : T × M) : Bool := decide (mon.cond c.2 = some k)

/-- A sleeper is woken. -/
def State.wake (s : State S M R T) (i : ℕ) (c : T × M) : State S M R T :=
  { s with asleep := s.asleep.eraseIdx i, woken := s.woken ++ [c] }

/-- A notification. Of several sleepers any may be woken; nobody is only if nobody sleeps there. -/
def Monitor.notify (s : State S M R T) (pick : Option ℕ) : Notice K → Option (State S M R T)
  | .nobody => some s
  | .one k =>
    match pick with
    | none => if s.asleep.any (mon.at k) then none else some s
    | some i =>
      match s.asleep[i]? with
      | some c => if mon.at k c then some (s.wake i c) else none
      | none => none
  | .all k =>
    some { s with
      asleep := s.asleep.filter fun c => !mon.at k c
      woken := s.woken ++ s.asleep.filter (mon.at k) }

/-- What a thread with the mutex does in method `m`: it goes to sleep, or acts and notifies. -/
def Monitor.attempt (s : State S M R T) (t : T) (m : M) (pick : Option ℕ) :
    Option (Except ε (State S M R T)) :=
  if mon.waits s.shared m then
    some (.ok { s with asleep := s.asleep ++ [(t, m)] })
  else
    match mon.act s.shared m with
    | .error e => some (.error e)
    | .ok (r, s') =>
      (mon.notify { s with shared := s', returned := s.returned ++ [(t, m, r)] } pick
        (mon.notice s' m)).map .ok

variable [DecidableEq T]

/-- The thread is inside a method. -/
def State.inside (s : State S M R T) (t : T) : Bool :=
  s.asleep.any (fun c => decide (c.1 = t)) || s.woken.any fun c => decide (c.1 = t)

/-- One step of the threads. -/
def Monitor.step (s : State S M R T) : Label M T → Option (Except ε (State S M R T))
  | .call t m pick => if s.inside t then none else mon.attempt s t m pick
  | .resume i pick =>
    match s.woken[i]? with
    | some (t, m) => mon.attempt { s with woken := s.woken.eraseIdx i } t m pick
    | none => none
  | .spurious i =>
    match s.asleep[i]? with
    | some c => some (.ok (s.wake i c))
    | none => none

end Step

/-! ### What a step can do -/

section Cases

variable [DecidableEq K] {mon : Monitor S M K R ε} {s s' : State S M R T}

/-- A notification wakes nobody, one sleeper, or all that sleep at its variable. -/
theorem notify_cases {pick : Option ℕ} {n : Notice K} (h : mon.notify s pick n = some s') :
    (s' = s ∧ ∀ k, n = .one k → ∀ c ∈ s.asleep, mon.at k c = false) ∧ (∀ k, n ≠ .all k) ∨
    (∃ k i c, n = .one k ∧ s.asleep[i]? = some c ∧ mon.at k c = true ∧ s' = s.wake i c) ∨
    ∃ k, n = .all k ∧
      s' = { s with
        asleep := s.asleep.filter fun c => !mon.at k c
        woken := s.woken ++ s.asleep.filter (mon.at k) } := by
  cases n with
  | nobody =>
    cases h
    exact Or.inl ⟨⟨rfl, nofun⟩, nofun⟩
  | all k =>
    cases h
    exact Or.inr (Or.inr ⟨k, rfl, rfl⟩)
  | one k =>
    cases pick with
    | none =>
      simp only [Monitor.notify] at h
      split at h
      · cases h
      · next hany =>
        cases h
        refine Or.inl ⟨⟨rfl, ?_⟩, nofun⟩
        intro k' hk c hc
        cases hk
        rw [List.any_eq_true] at hany
        exact Bool.eq_false_iff.2 fun hat => hany ⟨c, hc, hat⟩
    | some i =>
      simp only [Monitor.notify] at h
      split at h
      · next c hi =>
        split at h
        · next hat =>
          cases h
          exact Or.inr (Or.inl ⟨k, i, c, rfl, hi, hat, rfl⟩)
        · cases h
      · cases h

/-- A notification touches neither the object nor what has returned. -/
theorem notify_frame {pick : Option ℕ} {n : Notice K} (h : mon.notify s pick n = some s') :
    s'.shared = s.shared ∧ s'.returned = s.returned := by
  rcases notify_cases h with ⟨⟨rfl, -⟩, -⟩ | ⟨k, i, c, -, -, -, rfl⟩ | ⟨k, -, rfl⟩
  all_goals exact ⟨rfl, rfl⟩

/-- A thread with the mutex goes to sleep, or its call returns. -/
theorem attempt_cases {t : T} {m : M} {pick : Option ℕ}
    (h : mon.attempt s t m pick = some (.ok s')) :
    (mon.waits s.shared m = true ∧ s' = { s with asleep := s.asleep ++ [(t, m)] }) ∨
    ∃ r sh, mon.waits s.shared m = false ∧ mon.act s.shared m = .ok (r, sh) ∧
      mon.notify { s with shared := sh, returned := s.returned ++ [(t, m, r)] } pick
        (mon.notice sh m) = some s' := by
  unfold Monitor.attempt at h
  split at h
  · next hw =>
    cases h
    exact Or.inl ⟨hw, rfl⟩
  · next hw =>
    split at h
    · cases h
    · next r sh hact =>
      obtain ⟨s₁, hs₁, hok⟩ := Option.map_eq_some_iff.1 h
      cases hok
      exact Or.inr ⟨r, sh, Bool.eq_false_iff.2 hw, hact, hs₁⟩

/-- It fails only where the action fails, in a state in which it does not wait. -/
theorem attempt_error {t : T} {m : M} {pick : Option ℕ} {e : ε}
    (h : mon.attempt s t m pick = some (.error e)) :
    mon.waits s.shared m = false ∧ mon.act s.shared m = .error e := by
  unfold Monitor.attempt at h
  split at h
  · cases h
  · next hw =>
    split at h
    · next e' hact =>
      cases h
      exact ⟨Bool.eq_false_iff.2 hw, hact⟩
    · obtain ⟨s₁, hs₁, hok⟩ := Option.map_eq_some_iff.1 h
      cases hok

variable [DecidableEq T]

/-- A step is a thread that gets the mutex, from outside or woken, or a wake-up. -/
theorem step_cases {a : Label M T} {r : Except ε (State S M R T)} (h : mon.step s a = some r) :
    (∃ t m pick, mon.attempt s t m pick = some r) ∨
    (∃ i t m pick, s.woken[i]? = some (t, m) ∧
      mon.attempt { s with woken := s.woken.eraseIdx i } t m pick = some r) ∨
    ∃ i c, s.asleep[i]? = some c ∧ r = .ok (s.wake i c) := by
  cases a with
  | call t m pick =>
    rw [Monitor.step, Option.ite_none_left_eq_some] at h
    exact Or.inl ⟨t, m, pick, h.2⟩
  | resume i pick =>
    simp only [Monitor.step] at h
    split at h
    · next t m hi => exact Or.inr (Or.inl ⟨i, t, m, pick, hi, h⟩)
    · cases h
  | spurious i =>
    simp only [Monitor.step] at h
    split at h
    · next c hi =>
      cases h
      exact Or.inr (Or.inr ⟨i, c, hi, rfl⟩)
    · cases h

end Cases

/-! ### The calls that have returned -/

/-- The calls of `l`, one after the other, each in a state in which it does not wait. -/
inductive Sequential (mon : Monitor S M K R ε) (s : S) : List (T × M × R) → S → Prop
  | nil : Sequential mon s [] s
  | snoc {l : List (T × M × R)} {s₁ s₂ : S} {t : T} {m : M} {r : R} : Sequential mon s l s₁ →
      mon.waits s₁ m = false → mon.act s₁ m = .ok (r, s₂) →
      Sequential mon s (l ++ [(t, m, r)]) s₂

/-- What the calls keep holds after any number of them. -/
theorem Sequential.invariant {mon : Monitor S M K R ε} {s s' : S} {l : List (T × M × R)}
    {I : List (T × M × R) → S → Prop} (h : Sequential mon s l s') (h0 : I [] s)
    (hstep : ∀ l s₁ t m r s₂, I l s₁ → mon.waits s₁ m = false → mon.act s₁ m = .ok (r, s₂) →
      I (l ++ [(t, m, r)]) s₂) : I l s' := by
  induction h with
  | nil => exact h0
  | snoc _ hw hact ih => exact hstep _ _ _ _ _ _ ih hw hact

section Linearization

variable [DecidableEq K] {mon : Monitor S M K R ε} {s₀ : S}

theorem attempt_sequential {s s' : State S M R T} {t : T} {m : M} {pick : Option ℕ}
    (hs : Sequential mon s₀ s.returned s.shared)
    (h : mon.attempt s t m pick = some (.ok s')) :
    Sequential mon s₀ s'.returned s'.shared := by
  rcases attempt_cases h with ⟨-, rfl⟩ | ⟨r, sh, hw, hact, hn⟩
  · exact hs
  · obtain ⟨hshared, hreturned⟩ := notify_frame hn
    rw [hshared, hreturned]
    exact hs.snoc hw hact

variable [DecidableEq T]

/-- **Linearization**: however the threads take turns, sleep and are woken, the calls that have
returned did what they do one after the other. -/
theorem Reach.sequential {s : State S M R T}
    (h : Reach (Moves mon.step) Always (State.init s₀) s) :
    Sequential mon s₀ s.returned s.shared := by
  refine h.invariant (I := fun s => Sequential mon s₀ s.returned s.shared) .nil ?_
  intro x a y hx _ hstep
  rcases step_cases hstep with ⟨t, m, pick, hatt⟩ | ⟨i, t, m, pick, -, hatt⟩ | ⟨i, c, -, hy⟩
  · exact attempt_sequential hx hatt
  · exact attempt_sequential (s := { x with woken := x.woken.eraseIdx i }) hx hatt
  · cases hy
    exact hx

/-- A step fails only where an action fails, in a state in which it does not wait. -/
theorem step_error {s : State S M R T} {a : Label M T} {e : ε}
    (h : mon.step s a = some (.error e)) :
    ∃ m, mon.waits s.shared m = false ∧ mon.act s.shared m = .error e := by
  rcases step_cases h with ⟨t, m, pick, hatt⟩ | ⟨i, t, m, pick, -, hatt⟩ | ⟨i, c, -, hy⟩
  · exact ⟨m, attempt_error hatt⟩
  · exact ⟨m, attempt_error (s := { s with woken := s.woken.eraseIdx i }) hatt⟩
  · cases hy

/-- An action that never fails where it does not wait never fails in a run. -/
theorem Reach.no_error {s : State S M R T} {I : S → Prop}
    (h : Reach (Moves mon.step) Always (State.init s₀) s) (h0 : I s₀)
    (hact : ∀ x m, I x → mon.waits x m = false →
      ∃ r x', mon.act x m = .ok (r, x') ∧ I x') (a : Label M T) (e : ε) :
    mon.step s a ≠ some (.error e) := by
  have hI : I s.shared := by
    refine (Reach.sequential h).invariant (I := fun _ x => I x) h0 ?_
    intro _ x _ m r x' hx hw hr
    obtain ⟨r', x₁, hr', hx₁⟩ := hact x m hx hw
    rw [hr] at hr'
    cases hr'
    exact hx₁
  intro hstep
  obtain ⟨m, hw, hr⟩ := step_error hstep
  obtain ⟨r', x₁, hr', -⟩ := hact _ m hI hw
  rw [hr] at hr'
  cases hr'

end Linearization

/-! ### Who is asleep -/

section Inside

variable [DecidableEq K] {mon : Monitor S M K R ε} {P : M → Prop} {s s' : State S M R T}

/-- Every call that has not returned, asleep or woken, satisfies `P`. -/
def State.Inside (P : M → Prop) (s : State S M R T) : Prop :=
  (∀ c ∈ s.asleep, P c.2) ∧ ∀ c ∈ s.woken, P c.2

theorem State.Inside.wake (h : s.Inside P) {i : ℕ} {c : T × M} (hi : s.asleep[i]? = some c) :
    (s.wake i c).Inside P := by
  constructor
  · intro d hd
    exact h.1 d (List.mem_of_mem_eraseIdx hd)
  · intro d hd
    rcases List.mem_append.1 hd with hd | hd
    · exact h.2 d hd
    · exact List.mem_singleton.1 hd ▸ h.1 c (List.mem_of_getElem? hi)

theorem State.Inside.notify (h : s.Inside P) {pick : Option ℕ} {n : Notice K}
    (hn : mon.notify s pick n = some s') : s'.Inside P := by
  rcases notify_cases hn with ⟨⟨rfl, -⟩, -⟩ | ⟨k, i, c, -, hi, -, rfl⟩ | ⟨k, -, rfl⟩
  · exact h
  · exact h.wake hi
  · constructor
    · intro d hd
      exact h.1 d (List.mem_filter.1 hd).1
    · intro d hd
      rcases List.mem_append.1 hd with hd | hd
      · exact h.2 d hd
      · exact h.1 d (List.mem_filter.1 hd).1

theorem State.Inside.attempt (h : s.Inside P) (hP : ∀ x m, mon.waits x m = true → P m) {t : T}
    {m : M} {pick : Option ℕ} (hatt : mon.attempt s t m pick = some (.ok s')) : s'.Inside P := by
  rcases attempt_cases hatt with ⟨hw, rfl⟩ | ⟨r, sh, -, -, hn⟩
  · refine ⟨?_, h.2⟩
    intro d hd
    rcases List.mem_append.1 hd with hd | hd
    · exact h.1 d hd
    · rw [List.mem_singleton.1 hd]
      exact hP _ _ hw
  · exact State.Inside.notify (s := { s with shared := sh, returned := _ }) h hn

variable [DecidableEq T] {s₀ : S}

/-- Only a method that waits at some time is ever found asleep, or woken. -/
theorem Reach.inside (h : Reach (Moves mon.step) Always (State.init s₀) s)
    (hP : ∀ x m, mon.waits x m = true → P m) : s.Inside P := by
  refine h.invariant (I := State.Inside P) ⟨nofun, nofun⟩ ?_
  intro x a y hx _ hstep
  rcases step_cases hstep with ⟨t, m, pick, hatt⟩ | ⟨i, t, m, pick, -, hatt⟩ | ⟨i, c, hi, hy⟩
  · exact hx.attempt hP hatt
  · refine State.Inside.attempt ?_ hP hatt
    exact ⟨hx.1, fun c hc => hx.2 c (List.mem_of_mem_eraseIdx hc)⟩
  · cases hy
    exact hx.wake hi

end Inside

/-! ### The calls that have not returned -/

section Effect

variable [DecidableEq K] {mon : Monitor S M K R ε} {s s' : State S M R T}

/-- The calls of the threads that are inside a method. -/
def State.inner (s : State S M R T) : List (T × M) := s.asleep ++ s.woken

theorem wake_inner {i : ℕ} {c : T × M} (hi : s.asleep[i]? = some c) :
    (s.wake i c).inner.Perm s.inner := by
  obtain ⟨hlt, hget⟩ := List.getElem?_eq_some_iff.1 hi
  have hperm := List.getElem_cons_eraseIdx_perm hlt
  rw [hget] at hperm
  calc
    s.asleep.eraseIdx i ++ (s.woken ++ [c])
    _ = (s.asleep.eraseIdx i ++ s.woken) ++ [c] := (List.append_assoc _ _ _).symm
    _ |>.Perm (c :: (s.asleep.eraseIdx i ++ s.woken)) := List.perm_append_comm
    _ = (c :: s.asleep.eraseIdx i) ++ s.woken := rfl
    _ |>.Perm (s.asleep ++ s.woken) := hperm.append_right _

/-- A notification leaves every call inside. -/
theorem notify_inner {pick : Option ℕ} {n : Notice K} (h : mon.notify s pick n = some s') :
    s'.inner.Perm s.inner := by
  rcases notify_cases h with ⟨⟨rfl, -⟩, -⟩ | ⟨k, i, c, -, hi, -, rfl⟩ | ⟨k, -, rfl⟩
  · exact .refl _
  · exact wake_inner hi
  · have hsplit := List.filter_append_perm (mon.at k) s.asleep
    calc
      s.asleep.filter (fun c => !mon.at k c) ++ (s.woken ++ s.asleep.filter (mon.at k))
      _ = (s.asleep.filter (fun c => !mon.at k c) ++ s.woken) ++ s.asleep.filter (mon.at k) :=
        (List.append_assoc _ _ _).symm
      _ |>.Perm (s.asleep.filter (mon.at k) ++
          (s.asleep.filter (fun c => !mon.at k c) ++ s.woken)) := List.perm_append_comm
      _ = (s.asleep.filter (mon.at k) ++ s.asleep.filter (fun c => !mon.at k c)) ++ s.woken :=
        (List.append_assoc _ _ _).symm
      _ |>.Perm (s.asleep ++ s.woken) := hsplit.append_right _

/-- A thread with the mutex stays inside, or its call returns. -/
theorem attempt_effect {t : T} {m : M} {pick : Option ℕ}
    (h : mon.attempt s t m pick = some (.ok s')) :
    (mon.waits s.shared m = true ∧ s'.shared = s.shared ∧ s'.returned = s.returned ∧
      s'.inner.Perm ((t, m) :: s.inner)) ∨
    ∃ r, mon.waits s.shared m = false ∧ mon.act s.shared m = .ok (r, s'.shared) ∧
      s'.returned = s.returned ++ [(t, m, r)] ∧ s'.inner.Perm s.inner := by
  rcases attempt_cases h with ⟨hw, rfl⟩ | ⟨r, sh, hw, hact, hn⟩
  · refine Or.inl ⟨hw, rfl, rfl, ?_⟩
    change (s.asleep ++ [(t, m)] ++ s.woken).Perm ((t, m) :: (s.asleep ++ s.woken))
    rw [List.append_assoc]
    exact List.perm_middle
  · obtain ⟨hshared, hreturned⟩ := notify_frame hn
    refine Or.inr ⟨r, hw, ?_, hreturned, ?_⟩
    · rw [hshared]
      exact hact
    · exact notify_inner (s := { s with shared := sh, returned := _ }) hn

variable [DecidableEq T]

theorem inside_eq_false {t : T} : s.inside t = false ↔ ∀ m, (t, m) ∉ s.inner := by
  rw [State.inside, Bool.or_eq_false_iff, List.any_eq_false, List.any_eq_false]
  constructor
  · rintro ⟨hasleep, hwoken⟩ m hm
    rcases List.mem_append.1 hm with hm | hm
    · exact hasleep _ hm (decide_eq_true rfl)
    · exact hwoken _ hm (decide_eq_true rfl)
  · intro h
    refine ⟨?_, ?_⟩
    · rintro ⟨u, m⟩ hm heq
      cases of_decide_eq_true heq
      exact h m (List.mem_append_left _ hm)
    · rintro ⟨u, m⟩ hm heq
      cases of_decide_eq_true heq
      exact h m (List.mem_append_right _ hm)

/-- The call of the thread that gets the mutex in a step. -/
def Label.actor (s : State S M R T) : Label M T → Option (T × M)
  | .call t m _ => some (t, m)
  | .resume i _ => s.woken[i]?
  | .spurious _ => none

/-- The thread that gets the mutex waits and stays inside, or its call returns. -/
theorem step_effect {a : Label M T} (h : Moves mon.step s a s') :
    (s'.shared = s.shared ∧ s'.returned = s.returned ∧
      (∀ c, a.actor s = some c → mon.waits s.shared c.2 = true) ∧
      (s'.inner.Perm s.inner ∨
        ∃ c, a.actor s = some c ∧ s.inside c.1 = false ∧ s'.inner.Perm (c :: s.inner))) ∨
    ∃ t m r, a.actor s = some (t, m) ∧ mon.waits s.shared m = false ∧
      mon.act s.shared m = .ok (r, s'.shared) ∧ s'.returned = s.returned ++ [(t, m, r)] ∧
      (s.inner.Perm ((t, m) :: s'.inner) ∨ s.inside t = false ∧ s'.inner.Perm s.inner) := by
  cases a with
  | call t m pick =>
    rw [Moves, Monitor.step, Option.ite_none_left_eq_some, Bool.not_eq_true] at h
    rcases attempt_effect h.2 with ⟨hw, hshared, hreturned, hperm⟩ | ⟨r, hw, hact, hret, hperm⟩
    · refine Or.inl ⟨hshared, hreturned, ?_, Or.inr ⟨(t, m), rfl, h.1, hperm⟩⟩
      intro c hc
      cases hc
      exact hw
    · exact Or.inr ⟨t, m, r, rfl, hw, hact, hret, Or.inr ⟨h.1, hperm⟩⟩
  | resume i pick =>
    simp only [Moves, Monitor.step] at h
    split at h
    · next t m hi =>
      obtain ⟨hlt, hget⟩ := List.getElem?_eq_some_iff.1 hi
      have herase := List.getElem_cons_eraseIdx_perm hlt
      rw [hget] at herase
      -- the call is put in front of the others
      have hfront : s.inner.Perm ((t, m) ::
          ({ s with woken := s.woken.eraseIdx i } : State S M R T).inner) :=
        (herase.symm.append_left _).trans List.perm_middle
      rcases attempt_effect h with ⟨hw, hshared, hreturned, hperm⟩ | ⟨r, hw, hact, hret, hperm⟩
      · refine Or.inl ⟨hshared, hreturned, ?_, Or.inl (hperm.trans hfront.symm)⟩
        intro c hc
        rw [Label.actor, hi] at hc
        cases hc
        exact hw
      · exact Or.inr ⟨t, m, r, hi, hw, hact, hret, Or.inl (hfront.trans (hperm.symm.cons _))⟩
    · cases h
  | spurious i =>
    simp only [Moves, Monitor.step] at h
    split at h
    · next c hi =>
      cases h
      exact Or.inl ⟨rfl, rfl, nofun, Or.inl (wake_inner hi)⟩
    · cases h

/-- No thread is inside twice. -/
def State.Distinct (s : State S M R T) : Prop := (s.inner.map Prod.fst).Nodup

theorem step_distinct {a : Label M T} (hs : s.Distinct) (h : Moves mon.step s a s') :
    s'.Distinct := by
  unfold State.Distinct at hs ⊢
  rcases step_effect h with ⟨-, -, -, hperm | ⟨c, -, hout, hperm⟩⟩ |
    ⟨t, m, r, -, -, -, -, hperm | ⟨-, hperm⟩⟩
  · exact (hperm.map Prod.fst).nodup_iff.2 hs
  · rw [(hperm.map Prod.fst).nodup_iff, List.map_cons, List.nodup_cons]
    refine ⟨fun hmem => ?_, hs⟩
    obtain ⟨⟨u, n⟩, hc, hu⟩ := List.mem_map.1 hmem
    exact inside_eq_false.1 hout n (hu ▸ hc)
  · rw [(hperm.map Prod.fst).nodup_iff, List.map_cons, List.nodup_cons] at hs
    exact hs.2
  · exact (hperm.map Prod.fst).nodup_iff.2 hs

/-- A step lets at most one call return, and a thread whose call has returned is not inside. -/
theorem step_returns {a : Label M T} (hs : s.Distinct) (h : Moves mon.step s a s') :
    (s'.shared = s.shared ∧ s'.returned = s.returned ∧
      (∀ c, a.actor s = some c → mon.waits s.shared c.2 = true) ∧
      ∀ c ∈ s'.inner, c ∈ s.inner ∨ a.actor s = some c) ∨
    ∃ t m r, a.actor s = some (t, m) ∧ mon.waits s.shared m = false ∧
      mon.act s.shared m = .ok (r, s'.shared) ∧ s'.returned = s.returned ++ [(t, m, r)] ∧
      ∀ c ∈ s'.inner, c ∈ s.inner ∧ c.1 ≠ t := by
  rcases step_effect h with ⟨hshared, hret, hw, hperm | ⟨d, ha, hout, hperm⟩⟩ |
    ⟨t, m, r, ha, hw, hact, hret, hperm | ⟨hout, hperm⟩⟩
  · exact Or.inl ⟨hshared, hret, hw, fun c hc => Or.inl (hperm.mem_iff.1 hc)⟩
  · refine Or.inl ⟨hshared, hret, hw, fun c hc => ?_⟩
    rcases List.mem_cons.1 (hperm.mem_iff.1 hc) with rfl | hc
    · exact Or.inr ha
    · exact Or.inl hc
  · refine Or.inr ⟨t, m, r, ha, hw, hact, hret, fun c hc => ?_⟩
    refine ⟨hperm.mem_iff.2 (List.mem_cons_of_mem _ hc), fun heq => ?_⟩
    unfold State.Distinct at hs
    rw [(hperm.map Prod.fst).nodup_iff, List.map_cons, List.nodup_cons] at hs
    exact hs.1 (List.mem_map.2 ⟨c, hc, heq⟩)
  · refine Or.inr ⟨t, m, r, ha, hw, hact, hret, ?_⟩
    rintro ⟨u, n⟩ hc
    have hin := hperm.mem_iff.1 hc
    refine ⟨hin, ?_⟩
    rintro rfl
    exact inside_eq_false.1 hout n hin

omit [DecidableEq T] in
/-- A notification is always possible. -/
theorem exists_notify (s : State S M R T) (n : Notice K) :
    ∃ pick s', mon.notify s pick n = some s' := by
  cases n with
  | nobody => exact ⟨none, s, rfl⟩
  | all k => exact ⟨none, _, rfl⟩
  | one k =>
    cases hany : s.asleep.any (mon.at k) with
    | false => exact ⟨none, s, by simp only [Monitor.notify, hany, Bool.false_eq_true, if_false]⟩
    | true =>
      obtain ⟨c, hc, hat⟩ := List.any_eq_true.1 hany
      obtain ⟨i, hi⟩ := List.getElem?_of_mem hc
      exact ⟨some i, s.wake i c, by simp only [Monitor.notify, hi, hat, if_true]⟩

omit [DecidableEq T] in
/-- A thread with the mutex can go on, if the action does not fail. -/
theorem exists_attempt (s : State S M R T) (t : T) (m : M)
    (hact : mon.waits s.shared m = false → ∃ r x, mon.act s.shared m = .ok (r, x)) :
    ∃ pick s', mon.attempt s t m pick = some (.ok s') := by
  cases hw : mon.waits s.shared m with
  | true => exact ⟨none, _, by rw [Monitor.attempt, hw, if_pos rfl]⟩
  | false =>
    obtain ⟨r, x, hx⟩ := hact hw
    obtain ⟨pick, s', hn⟩ : ∃ pick s', mon.notify
        { s with shared := x, returned := s.returned ++ [(t, m, r)] } pick (mon.notice x m) =
          some s' := exists_notify _ _
    refine ⟨pick, s', ?_⟩
    simp only [Monitor.attempt, hw, Bool.false_eq_true, if_false, hx, hn, Option.map_some]

theorem Reach.distinct {s₀ : S} (h : Reach (Moves mon.step) Always (State.init s₀) s) :
    s.Distinct :=
  h.invariant (I := State.Distinct) List.nodup_nil fun _ _ _ hx _ hstep => step_distinct hx hstep

end Effect

/-! ### Nobody sleeps through a notification -/

section Notification

variable [DecidableEq K] (mon : Monitor S M K R ε)

/-- `cap` is how many of the calls that wait at `k` could go on now: none when one of them has to
wait, and an action that lets one more go on notifies one, or all. -/
structure Capacity (k : K) (cap : S → ℕ) : Prop where
  zero_of_waits : ∀ s m, mon.cond m = some k → mon.waits s m = true → cap s = 0
  act_le : ∀ s m r s', mon.waits s m = false → mon.act s m = .ok (r, s') →
    mon.notice s' m ≠ .all k →
    cap s' + (if mon.cond m = some k then 1 else 0) ≤
      cap s + if mon.notice s' m = .one k then 1 else 0

/-- A thread sleeps at `k`. -/
def State.sleepsAt (s : State S M R T) (k : K) : Prop := ∃ c ∈ s.asleep, mon.at k c = true

/-- How many threads woken from `k` have not got the mutex back. -/
def State.wokenAt (s : State S M R T) (k : K) : ℕ := s.woken.countP (mon.at k)

/-- As long as a thread sleeps at `k`, there are woken threads for all that could be done there. -/
def State.Enough (k : K) (cap : S → ℕ) (s : State S M R T) : Prop :=
  s.sleepsAt mon k → cap s.shared ≤ s.wokenAt mon k

variable {mon} {k : K} {cap : S → ℕ} {s s' : State S M R T}

theorem wake_sleepsAt {i : ℕ} {c : T × M} (h : (s.wake i c).sleepsAt mon k) :
    s.sleepsAt mon k := by
  obtain ⟨d, hd, hat⟩ := h
  exact ⟨d, List.mem_of_mem_eraseIdx hd, hat⟩

theorem wake_wokenAt (i : ℕ) (c : T × M) :
    (s.wake i c).wokenAt mon k = s.wokenAt mon k + if mon.at k c then 1 else 0 := by
  simp only [State.wokenAt, State.wake, List.countP_append, List.countP_singleton]

theorem at_iff {c : T × M} : mon.at k c = true ↔ mon.cond c.2 = some k := decide_eq_true_iff

/-- A notification of one wakes one of those that sleep there; a notification of all leaves nobody
asleep there. -/
theorem notify_enough {pick : Option ℕ} {n : Notice K} (h : mon.notify s pick n = some s')
    (hsleep : s'.sleepsAt mon k) :
    s.sleepsAt mon k ∧ n ≠ .all k ∧
      s.wokenAt mon k + (if n = .one k then 1 else 0) ≤ s'.wokenAt mon k := by
  rcases notify_cases h with ⟨⟨rfl, hone⟩, hall⟩ | ⟨k', i, c, rfl, hi, hat, rfl⟩ | ⟨k', rfl, rfl⟩
  · obtain ⟨c, hc, hat⟩ := hsleep
    have hn : n ≠ .one k := by
      intro hn
      rw [hone k hn c hc] at hat
      cases hat
    refine ⟨⟨c, hc, hat⟩, hall k, ?_⟩
    rw [if_neg hn, Nat.add_zero]
  · refine ⟨wake_sleepsAt hsleep, nofun, ?_⟩
    rw [wake_wokenAt]
    by_cases hk : k' = k
    · rw [if_pos (congrArg Notice.one hk), if_pos (hk ▸ hat)]
    · have hn : Notice.one k' ≠ .one k := fun hn => hk (Notice.one.inj hn)
      rw [if_neg hn]
      omega
  · obtain ⟨c, hc, hat⟩ := hsleep
    obtain ⟨hc, hnot⟩ := List.mem_filter.1 hc
    have hk : Notice.all k' ≠ .all k := by
      intro hk
      rw [Notice.all.inj hk, hat] at hnot
      cases hnot
    refine ⟨⟨c, hc, hat⟩, hk, ?_⟩
    simp only [State.wokenAt, List.countP_append, reduceCtorEq, if_false, Nat.add_zero]
    omega

/-- A thread that gets the mutex: `s` is the state in which it is counted no more among those woken
from `k`. -/
theorem attempt_enough (hcap : Capacity mon k cap) {t : T} {m : M} {pick : Option ℕ}
    (hs : s.sleepsAt mon k →
      cap s.shared ≤ s.wokenAt mon k + if mon.cond m = some k then 1 else 0)
    (h : mon.attempt s t m pick = some (.ok s')) : s'.Enough mon k cap := by
  intro hsleep
  rcases attempt_cases h with ⟨hw, rfl⟩ | ⟨r, sh, hw, hact, hn⟩
  · by_cases hm : mon.cond m = some k
    · have hzero := hcap.zero_of_waits _ _ hm hw
      change cap s.shared ≤ _
      omega
    · obtain ⟨c, hc, hat⟩ := hsleep
      rcases List.mem_append.1 hc with hc | hc
      · have := hs ⟨c, hc, hat⟩
        rwa [if_neg hm, Nat.add_zero] at this
      · rw [List.mem_singleton.1 hc] at hat
        exact absurd (at_iff.1 hat) hm
  · obtain ⟨hbefore, hall, hwoken⟩ := notify_enough hn hsleep
    have hle := hcap.act_le _ _ _ _ hw hact hall
    have hold := hs hbefore
    rw [(notify_frame hn).1]
    change s.wokenAt mon k + _ ≤ _ at hwoken
    change cap sh ≤ _
    omega

theorem wokenAt_eraseIdx {i : ℕ} {c : T × M} (hi : s.woken[i]? = some c) :
    s.wokenAt mon k = ({ s with woken := s.woken.eraseIdx i } : State S M R T).wokenAt mon k +
      if mon.cond c.2 = some k then 1 else 0 := by
  obtain ⟨hlt, hget⟩ := List.getElem?_eq_some_iff.1 hi
  have hperm := List.getElem_cons_eraseIdx_perm hlt
  rw [hget] at hperm
  simp only [State.wokenAt, ← hperm.countP_eq, List.countP_cons, at_iff]

variable [DecidableEq T]

theorem step_enough (hcap : Capacity mon k cap) {a : Label M T} (hs : s.Enough mon k cap)
    (h : Moves mon.step s a s') : s'.Enough mon k cap := by
  rcases step_cases h with ⟨t, m, pick, hatt⟩ | ⟨i, t, m, pick, hi, hatt⟩ | ⟨i, c, hi, hy⟩
  · refine attempt_enough hcap ?_ hatt
    intro hsleep
    exact (hs hsleep).trans (Nat.le_add_right _ _)
  · refine attempt_enough hcap ?_ hatt
    intro hsleep
    have := hs hsleep
    rwa [wokenAt_eraseIdx hi] at this
  · cases hy
    intro hsleep
    rw [wake_wokenAt]
    exact (hs (wake_sleepsAt hsleep)).trans (Nat.le_add_right _ _)

/-- **No lost wake-up.** In every run there are, as long as a thread sleeps at `k`, at least as many
threads on their way back from `k` as calls that could go on. -/
theorem Reach.enough (hcap : Capacity mon k cap) {s₀ : S}
    (h : Reach (Moves mon.step) Always (State.init s₀) s) : s.Enough mon k cap := by
  refine h.invariant (I := fun s => s.Enough mon k cap) ?_ fun x a y hx _ => step_enough hcap hx
  rintro ⟨c, hc, -⟩
  cases hc

end Notification

/-! ### A variable that is notified as a whole -/

section Broadcast

variable [DecidableEq K] [DecidableEq T] (mon : Monitor S M K R ε)

/-- An action that lets a call go on which had to wait at `k` notifies all that sleep there. -/
def Broadcasts (k : K) : Prop :=
  ∀ s m r s' m', mon.waits s m = false → mon.act s m = .ok (r, s') → mon.cond m' = some k →
    mon.waits s m' = true → mon.waits s' m' = false → mon.notice s' m = .all k

variable {mon} {k : K} {s s' : State S M R T}

/-- Every thread that sleeps at `k` has to. -/
def State.MustWait (mon : Monitor S M K R ε) (k : K) (s : State S M R T) : Prop :=
  ∀ c ∈ s.asleep, mon.cond c.2 = some k → mon.waits s.shared c.2 = true

omit [DecidableEq T] in
theorem attempt_mustWait (hb : Broadcasts mon k) {t : T} {m : M} {pick : Option ℕ}
    (hs : s.MustWait mon k) (h : mon.attempt s t m pick = some (.ok s')) : s'.MustWait mon k := by
  intro c hc hk
  rcases attempt_cases h with ⟨hw, rfl⟩ | ⟨r, sh, hw, hact, hn⟩
  · rcases List.mem_append.1 hc with hc | hc
    · exact hs c hc hk
    · rw [List.mem_singleton.1 hc]
      exact hw
  · rw [(notify_frame hn).1]
    have hsleep := notify_enough hn ⟨c, hc, at_iff.2 hk⟩
    have hold : c ∈ s.asleep := by
      rcases notify_cases hn with ⟨⟨rfl, -⟩, -⟩ | ⟨k', i, d, -, -, -, rfl⟩ | ⟨k', -, rfl⟩
      · exact hc
      · exact List.mem_of_mem_eraseIdx hc
      · exact (List.mem_filter.1 hc).1
    by_contra hgo
    rw [Bool.not_eq_true] at hgo
    exact hsleep.2.1 (hb _ _ _ _ _ hw hact hk (hs c hold hk) hgo)

/-- **Nobody sleeps when it need not**, whoever is woken without cause and whoever overtakes. -/
theorem Reach.asleep_waits (hb : Broadcasts mon k) {s₀ : S}
    (h : Reach (Moves mon.step) Always (State.init s₀) s) : s.MustWait mon k := by
  refine h.invariant (I := State.MustWait mon k) nofun ?_
  intro x a y hx _ hstep
  rcases step_cases hstep with ⟨t, m, pick, hatt⟩ | ⟨i, t, m, pick, -, hatt⟩ | ⟨i, c, -, hy⟩
  · exact attempt_mustWait hb hx hatt
  · exact attempt_mustWait (s := { x with woken := x.woken.eraseIdx i }) hb hx hatt
  · cases hy
    intro d hd hk
    exact hx d (List.mem_of_mem_eraseIdx hd) hk

end Broadcast

end Monitors
