import Fppnet.Library.Checked
import Fppnet.Library.LowerBound
import Fppnet.Datetime.UtcTime

/-!
# Local time in `TimeZone`

A zone is a list of local time types and a list of transitions between them, each with the time of
the transition in UTC and in the new local time (`src/base/datetime/TimeZone.cc`). `findLocaltime`
looks a time up with `lower_bound` in one of the two orders.

`findLocaltime_eq` says which type is found. In the hour that a change from summer time repeats,
`fromLocalTime` finds the winter type for both readings, and goes by `tm_isdst`;
`localTime_roundTrip` says that this brings every time back, in a zone whose offset goes down only
by one hour and only at the end of summer time (`ZoneOk`).
-/

open Calendar Checked Search

namespace TimeZone

/-- `Localtime` -/
structure Localtime where
  gmtOffset : ℤ
  isDst : Bool
  arrbIdx : ℕ
  deriving DecidableEq

/-- `Transition` -/
structure Transition where
  gmttime : ℤ
  localtime : ℤ
  localtimeIdx : ℕ
  deriving DecidableEq

/-- `TimeZone::Data` -/
structure Data where
  transitions : List Transition
  localtimes : List Localtime
  abbreviation : List UInt8
  deriving DecidableEq

inductive Failure
  /-- an element behind the end of `localtimes`, which is not checked: its use is undefined -/
  | outOfRange
  /-- `assert(transI != data.transitions.begin())` -/
  | begin
  deriving DecidableEq

/-- What `Comp` compares. -/
def Transition.key (t : Transition) (compareGmt : Bool) : ℤ :=
  if compareGmt then t.gmttime else t.localtime

@[simp] theorem Transition.key_true (t : Transition) : t.key true = t.gmttime := rfl

@[simp] theorem Transition.key_false (t : Transition) : t.key false = t.localtime := rfl

/-- `data.localtimes[i]` -/
def Data.localtime (data : Data) (i : ℕ) : Except Failure Localtime :=
  match data.localtimes[i]? with
  | some local' => .ok local'
  | none => .error .outOfRange

/-- `findLocaltime`: `sentry` is the time that is compared. -/
def findLocaltime (data : Data) (sentry : ℤ) (compareGmt : Bool) : Except Failure Localtime :=
  match data.transitions.head? with
  | none => data.localtime 0
  | some front =>
    if sentry < front.key compareGmt then data.localtime 0
    else
      let transI := lowerBound
        (fun i => data.transitions[i]?.any fun t => decide (t.key compareGmt < sentry))
        data.transitions.length
      match data.transitions[transI]? with
      | some t =>
        if t.key compareGmt ≠ sentry then do
          require (transI ≠ 0) .begin
          match data.transitions[transI - 1]? with
          | some t => data.localtime t.localtimeIdx
          | none => .error .outOfRange
        else data.localtime t.localtimeIdx
      | none =>
        match data.transitions.getLast? with
        | some back => data.localtime back.localtimeIdx
        | none => .error .outOfRange

/-- `toLocalTime` -/
def toLocalTime (data : Data) (seconds : ℤ) : Except Failure Tm := do
  let local' ← findLocaltime data seconds true
  .ok { gmtime (seconds + local'.gmtOffset) with
    isdst := local'.isDst
    gmtoff := local'.gmtOffset
    zone := (data.abbreviation.drop local'.arrbIdx).takeWhile (· ≠ 0) }

/-- `fromLocalTime` -/
def fromLocalTime (data : Data) (localTm : Tm) : Except Failure ℤ := do
  let seconds := timegm localTm
  let local' ← findLocaltime data seconds false
  if localTm.isdst then do
    let tryTm ← toLocalTime data (seconds - local'.gmtOffset)
    if !tryTm.isdst ∧ tryTm.hour = localTm.hour ∧ tryTm.min = localTm.min then
      .ok (seconds - 3600 - local'.gmtOffset)
    else .ok (seconds - local'.gmtOffset)
  else .ok (seconds - local'.gmtOffset)

/-! ### Looking up -/

/-- The index of the type that holds after the first `k` transitions. -/
def Data.typeIdx (data : Data) : ℕ → ℕ
  | 0 => 0
  | k + 1 => (data.transitions[k]?.map (·.localtimeIdx)).getD 0

variable {data : Data} {sentry : ℤ} {compareGmt : Bool} {k : ℕ}

/-- The first `k` transitions are those at or before a time. -/
structure After (data : Data) (compareGmt : Bool) (sentry : ℤ) (k : ℕ) : Prop where
  le : k ≤ data.transitions.length
  before : ∀ i t, i < k → data.transitions[i]? = some t → t.key compareGmt ≤ sentry
  after : ∀ i t, k ≤ i → data.transitions[i]? = some t → sentry < t.key compareGmt

/-- The transitions in order. -/
def Sorted (data : Data) (compareGmt : Bool) : Prop :=
  data.transitions.Pairwise fun t t' => t.key compareGmt < t'.key compareGmt

theorem Sorted.lt (hs : Sorted data compareGmt) {i j : ℕ} {t t' : Transition} (hij : i < j)
    (hi : data.transitions[i]? = some t) (hj : data.transitions[j]? = some t') :
    t.key compareGmt < t'.key compareGmt := by
  obtain ⟨hi', rfl⟩ := List.getElem?_eq_some_iff.1 hi
  obtain ⟨hj', rfl⟩ := List.getElem?_eq_some_iff.1 hj
  exact List.pairwise_iff_getElem.1 hs i j hi' hj' hij

theorem Sorted.le (hs : Sorted data compareGmt) {i j : ℕ} {t t' : Transition} (hij : i ≤ j)
    (hi : data.transitions[i]? = some t) (hj : data.transitions[j]? = some t') :
    t.key compareGmt ≤ t'.key compareGmt := by
  rcases hij.eq_or_lt with rfl | hlt
  · rw [hi] at hj
    cases hj
    exact le_refl _
  · exact (hs.lt hlt hi hj).le

/-- A search by the keys of transitions in order. -/
theorem lowerBound_key (hs : Sorted data compareGmt) {p : ℤ → Bool}
    (hp : ∀ a b, a ≤ b → p b = true → p a = true) :
    let r := lowerBound (fun i => data.transitions[i]?.any fun t => p (t.key compareGmt))
      data.transitions.length
    r ≤ data.transitions.length ∧
      ∀ i t, data.transitions[i]? = some t → (p (t.key compareGmt) = true ↔ i < r) := by
  have hpart : Partitioned (fun i => data.transitions[i]?.any fun t => p (t.key compareGmt))
      data.transitions.length := by
    intro i j hij hj htrue
    have hi := hij.trans_lt hj
    simp only [List.getElem?_eq_getElem hi, List.getElem?_eq_getElem hj, Option.any_some]
      at htrue ⊢
    exact hp _ _ (hs.le hij (List.getElem?_eq_getElem hi) (List.getElem?_eq_getElem hj)) htrue
  obtain ⟨hle, hspec⟩ := lowerBound_spec hpart
  refine ⟨hle, fun i t ht => ?_⟩
  obtain ⟨hlt, -⟩ := List.getElem?_eq_some_iff.1 ht
  have := hspec i hlt
  rwa [ht, Option.any_some] at this

/-- Where a time is among transitions in order. -/
theorem exists_after (hs : Sorted data compareGmt) (sentry : ℤ) :
    ∃ k, After data compareGmt sentry k := by
  obtain ⟨hle, hr⟩ := lowerBound_key (p := fun key => decide (key ≤ sentry)) hs
    fun a b hab hb => decide_eq_true (hab.trans (of_decide_eq_true hb))
  refine ⟨_, hle, fun i t hi ht => of_decide_eq_true ((hr i t ht).2 hi), fun i t hi ht => ?_⟩
  rw [← not_le]
  intro hkey
  have := (hr i t ht).1 (decide_eq_true hkey)
  omega

/-- There is only one place for a time. -/
theorem After.unique {k' : ℕ} (h : After data compareGmt sentry k)
    (h' : After data compareGmt sentry k') : k = k' := by
  have hle : ∀ {m n : ℕ}, After data compareGmt sentry m → After data compareGmt sentry n →
      m ≤ n := by
    intro m n hm hn
    by_contra hlt
    have hget := List.getElem?_eq_getElem ((not_le.1 hlt).trans_le hm.le)
    have h1 := hm.before n _ (not_le.1 hlt) hget
    have h2 := hn.after n _ (le_refl n) hget
    omega
  exact le_antisymm (hle h h') (hle h' h)

/-- What the search of `findLocaltime` finds: no transition, when all are before the time; that of
the time; or the first one after it. -/
theorem lowerBound_after (hs : Sorted data compareGmt) (hk : After data compareGmt sentry k) :
    match data.transitions[lowerBound (fun i => data.transitions[i]?.any fun t =>
      decide (t.key compareGmt < sentry)) data.transitions.length]? with
    | none => k = data.transitions.length
    | some t => k = lowerBound (fun i => data.transitions[i]?.any fun t =>
      decide (t.key compareGmt < sentry)) data.transitions.length +
        if t.key compareGmt = sentry then 1 else 0 := by
  obtain ⟨hle, hr⟩ := lowerBound_key (p := fun key => decide (key < sentry)) hs
    fun a b hab hb => decide_eq_true (hab.trans_lt (of_decide_eq_true hb))
  generalize lowerBound _ _ = r at hle hr ⊢
  simp only [decide_eq_true_eq] at hr
  have hbefore : ∀ i t, i < r → data.transitions[i]? = some t → t.key compareGmt ≤ sentry :=
    fun i t hi ht => ((hr i t ht).2 hi).le
  cases hget : data.transitions[r]? with
  | none =>
    have hlen := List.getElem?_eq_none_iff.1 hget
    refine hk.unique ⟨le_refl _, fun i t hi => hbefore i t (hi.trans_le hlen), fun i t hi ht => ?_⟩
    rw [List.getElem?_eq_none hi] at ht
    cases ht
  | some t =>
    obtain ⟨hrlt, -⟩ := List.getElem?_eq_some_iff.1 hget
    have hge : sentry ≤ t.key compareGmt :=
      not_lt.1 fun hlt => absurd ((hr r t hget).1 hlt) (lt_irrefl r)
    simp only
    split_ifs with heq
    · refine hk.unique ⟨hrlt, fun i u hi hu => ?_, fun i u hi hu => ?_⟩
      · exact (hs.le (Nat.le_of_lt_succ hi) hu hget).trans heq.le
      · exact heq.symm.trans_lt (hs.lt hi hget hu)
    · refine hk.unique ⟨hle, hbefore, fun i u hi hu => ?_⟩
      exact (lt_of_le_of_ne hge (Ne.symm heq)).trans_le (hs.le hi hget hu)

theorem typeIdx_succ {i : ℕ} {t : Transition} (ht : data.transitions[i]? = some t) :
    data.typeIdx (i + 1) = t.localtimeIdx := by
  rw [Data.typeIdx, ht]
  rfl

/-- In transitions in order the type of the last one at or before the time is found, and before all
of them the first type. -/
theorem findLocaltime_eq (hs : Sorted data compareGmt) (hk : After data compareGmt sentry k) :
    findLocaltime data sentry compareGmt = data.localtime (data.typeIdx k) := by
  unfold findLocaltime
  rw [List.head?_eq_getElem?]
  cases hfront : data.transitions[0]? with
  | none =>
    have hlen : data.transitions.length ≤ 0 := List.getElem?_eq_none_iff.1 hfront
    have hzero : k = 0 := by
      have := hk.le
      omega
    rw [hzero]
    rfl
  | some front =>
    simp only
    split
    · next hlt =>
      have hzero : k = 0 := by
        by_contra hne
        have := hk.before 0 front (Nat.pos_of_ne_zero hne) hfront
        omega
      rw [hzero]
      rfl
    · next hge =>
      have hpos : k ≠ 0 := by
        rintro rfl
        exact hge (hk.after 0 front (le_refl 0) hfront)
      obtain ⟨m, rfl⟩ := Nat.exists_eq_succ_of_ne_zero hpos
      have hm : m < data.transitions.length := hk.le
      have hget := List.getElem?_eq_getElem hm
      have hfound := lowerBound_after hs hk
      generalize lowerBound _ _ = r at hfound ⊢
      cases hr : data.transitions[r]? with
      | none =>
        rw [hr] at hfound
        have hlast : data.transitions.getLast? = data.transitions[m]? := by
          rw [List.getLast?_eq_getElem?, ← hfound]
          rfl
        rw [hlast, hget, typeIdx_succ hget]
      | some t =>
        rw [hr] at hfound
        simp only at hfound ⊢
        split_ifs at hfound with heq
        · obtain rfl : m = r := Nat.succ.inj hfound
          rw [if_neg (not_not.2 heq), typeIdx_succ hr]
        · have hsub : r - 1 = m := by omega
          have hne : r ≠ 0 := by omega
          rw [if_pos heq, require_of hne, ok_bind, hsub, hget, typeIdx_succ hget]

/-! ### There and back -/

/-- The type that holds after the first `k` transitions. -/
def Data.typeAfter (data : Data) (k : ℕ) : Except Failure Localtime :=
  data.localtime (data.typeIdx k)

/-- A zone whose clocks are set forward at any time, and set back by one hour at the end of summer
time only, with an hour at least until the next change. -/
structure ZoneOk (data : Data) : Prop where
  types : ∀ k ≤ data.transitions.length, ∃ l, data.typeAfter k = .ok l
  local_eq : ∀ (k : ℕ) t l, data.transitions[k]? = some t → data.typeAfter (k + 1) = .ok l →
    t.localtime = t.gmttime + l.gmtOffset
  gmt_sorted : Sorted data true
  local_sorted : Sorted data false
  change : ∀ (k : ℕ) t old new, data.transitions[k]? = some t → data.typeAfter k = .ok old →
    data.typeAfter (k + 1) = .ok new → old.gmtOffset ≤ new.gmtOffset ∨
      (old.isDst = true ∧ new.isDst = false ∧ old.gmtOffset = new.gmtOffset + 3600 ∧
        ∀ t', data.transitions[k + 1]? = some t' →
          t.gmttime + 3600 ≤ t'.gmttime ∧ t.localtime + 3600 ≤ t'.localtime)

variable {t : ℤ} {l : Localtime}

theorem toLocalTime_eq (hz : ZoneOk data) (hk : After data true t k)
    (hl : data.typeAfter k = .ok l) : toLocalTime data t =
      .ok { gmtime (t + l.gmtOffset) with
        isdst := l.isDst
        gmtoff := l.gmtOffset
        zone := (data.abbreviation.drop l.arrbIdx).takeWhile (· ≠ 0) } := by
  rw [toLocalTime, findLocaltime_eq hz.gmt_sorted hk]
  change (data.typeAfter k >>= _) = _
  rw [hl, ok_bind]

/-- The transitions behind the first one that is after a time are after it as well. -/
theorem After.of_next {c : Bool} {x : ℤ} (hs : Sorted data c) (hle : k ≤ data.transitions.length)
    (hbefore : ∀ i t, i < k → data.transitions[i]? = some t → t.key c ≤ x)
    (hnext : ∀ t, data.transitions[k]? = some t → x < t.key c) : After data c x k := by
  refine ⟨hle, hbefore, ?_⟩
  intro i t hi ht
  obtain ⟨hlt, -⟩ := List.getElem?_eq_some_iff.1 ht
  have hk := List.getElem?_eq_getElem (hi.trans_lt hlt)
  exact (hnext _ hk).trans_le (hs.le hi hk ht)

/-- The transitions before a time are before it in local time, too. -/
theorem local_before (hz : ZoneOk data) (hk : After data true t k) (hl : data.typeAfter k = .ok l)
    (i : ℕ) (u : Transition) (hi : i < k) (hu : data.transitions[i]? = some u) :
    u.key false ≤ t + l.gmtOffset := by
  obtain ⟨m, rfl⟩ := Nat.exists_eq_succ_of_ne_zero (Nat.ne_zero_of_lt hi)
  have hm := List.getElem?_eq_getElem (Nat.lt_of_succ_le hk.le)
  have hlast := hz.local_eq m _ l hm hl
  have hgmt := hk.before m _ (Nat.lt_succ_self m) hm
  have hle := hz.local_sorted.le (Nat.le_of_lt_succ hi) hu hm
  rw [Transition.key_true] at hgmt
  rw [Transition.key_false, Transition.key_false] at hle
  rw [Transition.key_false]
  omega

/-- A local time at which the clocks are not set back is looked up at its own place. -/
theorem fromLocalTime_same (hz : ZoneOk data) (hk : After data true t k)
    (hl : data.typeAfter k = .ok l) (hlocal : After data false (t + l.gmtOffset) k) {tm : Tm}
    (htm : toLocalTime data t = .ok tm) (hsec : timegm tm = t + l.gmtOffset) :
    fromLocalTime data tm = .ok t := by
  have hback : t + l.gmtOffset - l.gmtOffset = t := by omega
  have hfind : findLocaltime data (t + l.gmtOffset) false = .ok l :=
    (findLocaltime_eq hz.local_sorted hlocal).trans hl
  have hdst : tm.isdst = l.isDst := by
    rw [toLocalTime_eq hz hk hl] at htm
    cases htm
    rfl
  simp only [fromLocalTime, hsec, hfind, ok_bind, hback]
  cases hd : tm.isdst with
  | false => rfl
  | true =>
    rw [htm, ok_bind, if_pos rfl]
    exact if_neg fun hno => by simp [hd] at hno

/-- In the hour that is repeated the first reading finds the type of the second one, and is told
apart by `tm_isdst`. -/
theorem fromLocalTime_repeated (hz : ZoneOk data) (hk : After data true t k)
    (hl : data.typeAfter k = .ok l) {new : Localtime} (hnew : data.typeAfter (k + 1) = .ok new)
    (hdst : l.isDst = true) (hstd : new.isDst = false) (hoff : l.gmtOffset = new.gmtOffset + 3600)
    (hlocal : After data false (t + l.gmtOffset) (k + 1))
    (hgmt : After data true (t + 3600) (k + 1))
    {tm : Tm} (htm : toLocalTime data t = .ok tm) (hsec : timegm tm = t + l.gmtOffset) :
    fromLocalTime data tm = .ok t := by
  have hback : t + l.gmtOffset - new.gmtOffset = t + 3600 := by omega
  have hsame : t + 3600 + new.gmtOffset = t + l.gmtOffset := by omega
  have hfind : findLocaltime data (t + l.gmtOffset) false = .ok new :=
    (findLocaltime_eq hz.local_sorted hlocal).trans hnew
  have htry := toLocalTime_eq hz hgmt hnew
  rw [hsame] at htry
  have hread : tm.isdst = true ∧ tm.hour = (gmtime (t + l.gmtOffset)).hour ∧
      tm.min = (gmtime (t + l.gmtOffset)).min := by
    rw [toLocalTime_eq hz hk hl] at htm
    cases htm
    exact ⟨hdst, rfl, rfl⟩
  simp only [fromLocalTime, hsec, hfind, ok_bind, hback, hread, if_true, htry, hstd,
    Bool.not_false, and_self]
  congr 1
  omega

/-- **There and back**: in such a zone every time comes back from its local time, also in the hour
that the end of summer time repeats. -/
theorem localTime_roundTrip (hz : ZoneOk data)
    (hrange : ∀ k l, data.typeAfter k = .ok l → firstSecond ≤ t + l.gmtOffset) :
    ∃ tm, toLocalTime data t = .ok tm ∧ fromLocalTime data tm = .ok t := by
  obtain ⟨k, hk⟩ := exists_after hz.gmt_sorted t
  obtain ⟨l, hl⟩ := hz.types k hk.le
  have htm := toLocalTime_eq hz hk hl
  have hsec : timegm { gmtime (t + l.gmtOffset) with
      isdst := l.isDst
      gmtoff := l.gmtOffset
      zone := (data.abbreviation.drop l.arrbIdx).takeWhile (· ≠ 0) } = t + l.gmtOffset :=
    timegm_gmtime (hrange k l hl)
  refine ⟨_, htm, ?_⟩
  have hbefore := local_before hz hk hl
  by_cases hnext : ∀ u, data.transitions[k]? = some u → t + l.gmtOffset < u.key false
  · exact fromLocalTime_same hz hk hl (.of_next hz.local_sorted hk.le hbefore hnext) htm hsec
  · push Not at hnext
    obtain ⟨u, hu, hreached⟩ := hnext
    have hlt := (List.getElem?_eq_some_iff.1 hu).1
    obtain ⟨new, hnew⟩ := hz.types (k + 1) hlt
    have hlocal := hz.local_eq k u new hu hnew
    have hgmt : t < u.gmttime := hk.after k u (le_refl k) hu
    change u.localtime ≤ _ at hreached
    rcases hz.change k u l new hu hl hnew with hle | ⟨hdst, hstd, hoff, hgap⟩
    · omega
    · refine fromLocalTime_repeated hz hk hl hnew hdst hstd hoff ?_ ?_ htm hsec
      · refine .of_next hz.local_sorted hlt ?_ ?_
        · intro i v hi hv
          refine (hz.local_sorted.le (Nat.le_of_lt_succ hi) hv hu).trans ?_
          exact hreached
        · intro v hv
          have := (hgap v hv).2
          change _ < v.localtime
          omega
      · refine .of_next hz.gmt_sorted hlt ?_ ?_
        · intro i v hi hv
          refine (hz.gmt_sorted.le (Nat.le_of_lt_succ hi) hv hu).trans ?_
          change u.gmttime ≤ _
          omega
        · intro v hv
          have := (hgap v hv).1
          change _ < v.gmttime
          omega

/-- One summer in a zone an hour east of Greenwich. -/
def oneSummer : Data where
  transitions := [⟨1000000, 1007200, 1⟩, ⟨2000000, 2003600, 0⟩]
  localtimes := [⟨3600, false, 0⟩, ⟨7200, true, 4⟩]
  abbreviation := []

theorem oneSummer_ok : ZoneOk oneSummer where
  types k hk := by
    have hk' : k ≤ 2 := hk
    interval_cases k <;> exact ⟨_, rfl⟩
  local_eq k t l ht hl := by
    rcases k with _ | _ | k
    · cases ht; cases hl; rfl
    · cases ht; cases hl; rfl
    · cases ht
  gmt_sorted := by
    simp [Sorted, oneSummer]
  local_sorted := by
    simp [Sorted, oneSummer]
  change k t old new ht hold hnew := by
    rcases k with _ | _ | k
    · cases ht; cases hold; cases hnew
      exact Or.inl (by decide)
    · cases ht; cases hold; cases hnew
      exact Or.inr ⟨rfl, rfl, rfl, nofun⟩
    · cases ht

/-- The first reading of the repeated hour. -/
theorem localTime_roundTrip_repeated : ∃ tm, toLocalTime oneSummer 1999000 = .ok tm ∧
    fromLocalTime oneSummer tm = .ok 1999000 := by
  refine localTime_roundTrip oneSummer_ok ?_
  intro k l hl
  have hmem : l ∈ oneSummer.localtimes := by
    simp only [Data.typeAfter, Data.localtime] at hl
    split at hl
    · next l' hl' =>
      cases hl
      exact List.mem_of_getElem? hl'
    · cases hl
  have hpos : ∀ l ∈ oneSummer.localtimes, firstSecond ≤ 1999000 + l.gmtOffset := by decide
  exact hpos l hmem

end TimeZone
