import Fppnet.Datetime.TimeZone

/-!
# The zone file reader

`readTimeZoneFile` of `src/base/datetime/TimeZone.cc` fills a `Data` from a file as it reads, and
keeps what it has when an exception ends the reading. The type of a transition is used without a
check: behind the end of the types the reader finds what is in memory there, and goes on.

* `readTimeZoneFile_encode`: a file that is laid out as it should be is read as what it says;
* `findLocaltime_ok`: whatever the file was, and in whatever order its transitions are, no lookup
  violates its assertion, and if the transitions are to types that exist it finds one of them.
-/

open Checked MachineInt Search

namespace TimeZone

/-- What is left of the file. -/
abbrev Input := List UInt8

/-- What is undefined, and has no result here. -/
inductive FileFailure
  /-- `char buf[n]` with a negative `n` -/
  | negativeLength
  deriving DecidableEq

/-- `readBytes`; the error is the text of the exception. -/
def readBytes (n : ℕ) (f : Input) : Except String (List UInt8 × Input) :=
  if n ≤ f.length then .ok (f.take n, f.drop n) else .error "no enough data"

/-- `be32toh` of four bytes, as a signed integer. -/
def be32toh (b₀ b₁ b₂ b₃ : UInt8) : ℤ :=
  let n := ((b₀.toNat * 256 + b₁.toNat) * 256 + b₂.toNat) * 256 + b₃.toNat
  if n < 2 ^ 31 then n else n - 2 ^ 32

/-- `readInt32` -/
def readInt32 : Input → Except String (ℤ × Input)
  | b₀ :: b₁ :: b₂ :: b₃ :: f => .ok (be32toh b₀ b₁ b₂ b₃, f)
  | _ => .error "bad int32_t data"

/-- `readUInt8` -/
def readUInt8 : Input → Except String (UInt8 × Input)
  | b :: f => .ok (b, f)
  | [] => .error "bad uint8_t data"

/-- A loop that reads `n` elements. -/
def readMany {α : Type} (read : Input → Except String (α × Input)) :
    ℕ → Input → Except String (List α × Input)
  | 0, f => .ok ([], f)
  | n + 1, f => do
    let (x, f) ← read f
    let (xs, f) ← readMany read n f
    .ok (x :: xs, f)

/-- The counts of the header, and what is read into local variables. -/
structure Tables where
  leapcnt : ℤ
  typecnt : ℤ
  charcnt : ℤ
  trans : List ℤ
  localtimes : List UInt8

/-- `"TZif"` -/
def magic : List UInt8 := [84, 90, 105, 102]

/-- The part of the reader that does not touch the data. -/
def readTables (f : Input) : Except String (Tables × Input) := do
  let (head, f) ← readBytes 4 f
  require (head = magic) "bad head"
  let (_, f) ← readBytes 1 f
  let (_, f) ← readBytes 15 f
  let (_, f) ← readInt32 f
  let (_, f) ← readInt32 f
  let (leapcnt, f) ← readInt32 f
  let (timecnt, f) ← readInt32 f
  let (typecnt, f) ← readInt32 f
  let (charcnt, f) ← readInt32 f
  require (0 ≤ timecnt) "vector::reserve"
  let (times, f) ← readMany readInt32 timecnt.toNat f
  let (localtimes, f) ← readMany readUInt8 timecnt.toNat f
  .ok (⟨leapcnt, typecnt, charcnt, times, localtimes⟩, f)

/-- A local time type of the file. -/
def readLocaltime (f : Input) : Except String (Localtime × Input) := do
  let (gmtoff, f) ← readInt32 f
  let (isdst, f) ← readUInt8 f
  let (abbrind, f) ← readUInt8 f
  .ok (⟨gmtoff, isdst != 0, abbrind.toNat⟩, f)

/-- The loop over the types, with the types that it has pushed when it ends or throws. -/
def readLocaltimes : ℕ → Input → List Localtime × Except String Input
  | 0, f => ([], .ok f)
  | n + 1, f =>
    match readLocaltime f with
    | .error what => ([], .error what)
    | .ok (l, f) =>
      let (ls, r) := readLocaltimes n f
      (l :: ls, r)

/-- `data->localtimes[i].gmtOffset`, which is not checked: `beyond` is what is in memory behind the
end. -/
def gmtOffsetAt (beyond : ℕ → ℤ) (localtimes : List Localtime) (i : ℕ) : ℤ :=
  match localtimes[i]? with
  | some l => l.gmtOffset
  | none => beyond i

/-- The loop that makes the transitions. -/
def makeTransitions (beyond : ℕ → ℤ) (localtimes : List Localtime) (trans : List (ℤ × UInt8)) :
    List Transition :=
  trans.map fun (t, localIdx) =>
    ⟨t, t + gmtOffsetAt beyond localtimes localIdx.toNat, localIdx.toNat⟩

/-- A leap second of the file, which is not used. -/
def readLeap (f : Input) : Except String ((ℤ × ℤ) × Input) := do
  let (leaptime, f) ← readInt32 f
  let (cumleap, f) ← readInt32 f
  .ok ((leaptime, cumleap), f)

def Data.empty : Data := ⟨[], [], []⟩

/-- `readTimeZoneFile`, which returns `true` always: the data, and the exception that was printed.
`none` is a file that cannot be opened. -/
def readTimeZoneFile (beyond : ℕ → ℤ) : Option Input → Except FileFailure (Data × Option String)
  | none => .ok (.empty, none)
  | some f =>
    match readTables f with
    | .error what => .ok (.empty, some what)
    | .ok (tables, f) =>
      let (localtimes, r) := readLocaltimes tables.typecnt.toNat f
      match r with
      | .error what => .ok (⟨[], localtimes, []⟩, some what)
      | .ok f => do
        let transitions :=
          makeTransitions beyond localtimes (tables.trans.zip tables.localtimes)
        require (0 ≤ tables.charcnt) .negativeLength
        match readBytes tables.charcnt.toNat f with
        | .error what => .ok (⟨transitions, localtimes, []⟩, some what)
        | .ok (abbreviation, f) =>
          match readMany readLeap tables.leapcnt.toNat f with
          | .error what => .ok (⟨transitions, localtimes, abbreviation⟩, some what)
          | .ok _ => .ok (⟨transitions, localtimes, abbreviation⟩, none)

/-! ### A file as it should be laid out -/

/-- The four bytes of a signed integer, most significant first. -/
def encodeInt32 (x : ℤ) : List UInt8 :=
  let n := (x % 2 ^ 32).toNat
  [UInt8.ofNat (n / 2 ^ 24), UInt8.ofNat (n / 2 ^ 16), UInt8.ofNat (n / 2 ^ 8), UInt8.ofNat n]

/-- What a file says. `reserved` and the two counts of flags are skipped, and so is what comes
behind the leap seconds. -/
structure ZoneInfo where
  version : UInt8
  reserved : List UInt8
  isgmtcnt : ℤ
  isstdcnt : ℤ
  transitions : List (ℤ × UInt8)
  types : List (ℤ × UInt8 × UInt8)
  names : List UInt8
  leaps : List (ℤ × ℤ)
  rest : List UInt8

/-- It fits the format, and every transition is to a type that exists. -/
structure ZoneInfo.Ok (z : ZoneInfo) : Prop where
  reserved : z.reserved.length = 15
  isgmtcnt : IsInt z.isgmtcnt
  isstdcnt : IsInt z.isstdcnt
  timecnt : z.transitions.length < 2 ^ 31
  typecnt : z.types.length < 2 ^ 31
  charcnt : z.names.length < 2 ^ 31
  leapcnt : z.leaps.length < 2 ^ 31
  times : ∀ t ∈ z.transitions, IsInt t.1 ∧ t.2.toNat < z.types.length
  offsets : ∀ l ∈ z.types, IsInt l.1
  leapTimes : ∀ l ∈ z.leaps, IsInt l.1 ∧ IsInt l.2

/-- The bytes of the file. -/
def ZoneInfo.encode (z : ZoneInfo) : List UInt8 :=
  magic ++ z.version :: z.reserved ++ encodeInt32 z.isgmtcnt ++ encodeInt32 z.isstdcnt ++
    encodeInt32 z.leaps.length ++ encodeInt32 z.transitions.length ++
    encodeInt32 z.types.length ++ encodeInt32 z.names.length ++
    z.transitions.flatMap (fun t => encodeInt32 t.1) ++ z.transitions.map (·.2) ++
    z.types.flatMap (fun l => encodeInt32 l.1 ++ [l.2.1, l.2.2]) ++ z.names ++
    z.leaps.flatMap (fun l => encodeInt32 l.1 ++ encodeInt32 l.2) ++ z.rest

/-- A local time type of the data. -/
def typeOf (l : ℤ × UInt8 × UInt8) : Localtime := ⟨l.1, l.2.1 != 0, l.2.2.toNat⟩

/-- The data that the file says. -/
def ZoneInfo.data (z : ZoneInfo) : Data where
  transitions := z.transitions.map fun t =>
    ⟨t.1, t.1 + ((z.types[t.2.toNat]?.map (·.1)).getD 0), t.2.toNat⟩
  localtimes := z.types.map typeOf
  abbreviation := z.names

theorem be32toh_encodeInt32 {x : ℤ} (h : IsInt x) (f : Input) :
    readInt32 (encodeInt32 x ++ f) = .ok (x, f) := by
  unfold IsInt at h
  simp only [encodeInt32, List.cons_append, List.nil_append, readInt32, be32toh,
    UInt8.toNat_ofNat']
  have hvalue : (((x % 2 ^ 32).toNat / 2 ^ 24 % 2 ^ 8 * 256 +
      (x % 2 ^ 32).toNat / 2 ^ 16 % 2 ^ 8) * 256 + (x % 2 ^ 32).toNat / 2 ^ 8 % 2 ^ 8) * 256 +
      (x % 2 ^ 32).toNat % 2 ^ 8 = (x % 2 ^ 32).toNat := by
    omega
  rw [hvalue]
  split_ifs <;> simp only [Except.ok.injEq, Prod.mk.injEq, and_true] <;> omega

theorem readBytes_append {n : ℕ} {l : List UInt8} (h : l.length = n) (f : Input) :
    readBytes n (l ++ f) = .ok (l, f) := by
  rw [readBytes, if_pos (by rw [List.length_append]; omega), List.take_left' h, List.drop_left' h]

/-- A loop reads what was written element by element. -/
theorem readMany_flatMap {α : Type} (read : Input → Except String (α × Input))
    (write : α → List UInt8) (xs : List α)
    (hread : ∀ x ∈ xs, ∀ f, read (write x ++ f) = .ok (x, f)) (f : Input) :
    readMany read xs.length (xs.flatMap write ++ f) = .ok (xs, f) := by
  induction xs with
  | nil => rfl
  | cons x xs ih =>
    rw [List.flatMap_cons, List.append_assoc, List.length_cons, readMany,
      hread x List.mem_cons_self, ok_bind]
    simp only
    rw [ih fun y hy => hread y (List.mem_cons_of_mem x hy)]
    rfl

theorem readLocaltime_encode {l : ℤ × UInt8 × UInt8} (h : IsInt l.1) (f : Input) :
    readLocaltime (encodeInt32 l.1 ++ [l.2.1, l.2.2] ++ f) = .ok (typeOf l, f) := by
  rw [List.append_assoc, readLocaltime, be32toh_encodeInt32 h, ok_bind]
  rfl

theorem readLocaltimes_encode {ls : List (ℤ × UInt8 × UInt8)} (h : ∀ l ∈ ls, IsInt l.1)
    (f : Input) : readLocaltimes ls.length
      (ls.flatMap (fun l => encodeInt32 l.1 ++ [l.2.1, l.2.2]) ++ f) =
        (ls.map typeOf, .ok f) := by
  induction ls with
  | nil => rfl
  | cons l ls ih =>
    rw [List.flatMap_cons, List.append_assoc, List.length_cons, readLocaltimes,
      readLocaltime_encode (h l List.mem_cons_self)]
    simp only
    rw [ih fun l' hl' => h l' (List.mem_cons_of_mem l hl')]
    rfl

theorem readLeap_encode {l : ℤ × ℤ} (h : IsInt l.1 ∧ IsInt l.2) (f : Input) :
    readLeap (encodeInt32 l.1 ++ encodeInt32 l.2 ++ f) = .ok (l, f) := by
  rw [List.append_assoc, readLeap, be32toh_encodeInt32 h.1, ok_bind]
  simp only
  rw [be32toh_encodeInt32 h.2]
  rfl

variable {beyond : ℕ → ℤ}

/-- The transitions are made from types that exist. -/
theorem makeTransitions_ok (beyond : ℕ → ℤ) (types : List (ℤ × UInt8 × UInt8))
    (ts : List (ℤ × UInt8)) (h : ∀ t ∈ ts, t.2.toNat < types.length) :
    makeTransitions beyond (types.map typeOf) ts = ts.map fun t =>
      ⟨t.1, t.1 + ((types[t.2.toNat]?.map (·.1)).getD 0), t.2.toNat⟩ := by
  refine List.map_congr_left fun t ht => ?_
  have hget := List.getElem?_eq_getElem (h t ht)
  simp only [gmtOffsetAt, List.getElem?_map, hget, Option.map_some]
  rfl

theorem isInt_length {α : Type} {l : List α} (h : l.length < 2 ^ 31) : IsInt l.length := by
  unfold IsInt
  omega

theorem readTables_encode {z : ZoneInfo} (hz : z.Ok) (f : Input) :
    readTables (magic ++ z.version :: z.reserved ++ encodeInt32 z.isgmtcnt ++
      encodeInt32 z.isstdcnt ++ encodeInt32 z.leaps.length ++ encodeInt32 z.transitions.length ++
      encodeInt32 z.types.length ++ encodeInt32 z.names.length ++
      z.transitions.flatMap (fun t => encodeInt32 t.1) ++ z.transitions.map (·.2) ++ f) =
      .ok (⟨z.leaps.length, z.types.length, z.names.length, z.transitions.map (·.1),
        z.transitions.map (·.2)⟩, f) := by
  have hmagic : magic.length = 4 := rfl
  have hversion : [z.version].length = 1 := rfl
  have htimes : (z.transitions.map (·.1)).flatMap encodeInt32 =
      z.transitions.flatMap (fun t => encodeInt32 t.1) := List.flatMap_map ..
  have hidx : (z.transitions.map (·.2)).flatMap (fun b => [b]) = z.transitions.map (·.2) := by
    rw [List.flatMap_singleton']
  have hreadTimes := readMany_flatMap readInt32 encodeInt32
    (z.transitions.map (·.1)) (by
      intro x hx g
      obtain ⟨t, ht, rfl⟩ := List.mem_map.1 hx
      exact be32toh_encodeInt32 (hz.times t ht).1 g) (z.transitions.map (·.2) ++ f)
  have hreadIdx := readMany_flatMap readUInt8 (fun b => [b])
    (z.transitions.map (·.2)) (fun _ _ _ => rfl) f
  rw [List.length_map, htimes] at hreadTimes
  rw [List.length_map, hidx] at hreadIdx
  have hcons : z.version :: z.reserved = [z.version] ++ z.reserved := rfl
  rw [hcons]
  simp only [List.append_assoc, readTables, readBytes_append hmagic, ok_bind,
    require_of, readBytes_append hversion, readBytes_append hz.reserved,
    be32toh_encodeInt32 hz.isgmtcnt, be32toh_encodeInt32 hz.isstdcnt,
    be32toh_encodeInt32 (isInt_length hz.leapcnt),
    be32toh_encodeInt32 (isInt_length hz.timecnt),
    be32toh_encodeInt32 (isInt_length hz.typecnt),
    be32toh_encodeInt32 (isInt_length hz.charcnt), Int.toNat_natCast, Int.natCast_nonneg,
    hreadTimes, hreadIdx]

/-- **A file that is laid out as it should be is read as what it says.** -/
theorem readTimeZoneFile_encode {z : ZoneInfo} (hz : z.Ok) (beyond : ℕ → ℤ) :
    readTimeZoneFile beyond (some z.encode) = .ok (z.data, none) := by
  have htypes := readLocaltimes_encode hz.offsets
    (z.names ++ (z.leaps.flatMap (fun l => encodeInt32 l.1 ++ encodeInt32 l.2) ++ z.rest))
  have hleaps := readMany_flatMap readLeap
    (fun l : ℤ × ℤ => encodeInt32 l.1 ++ encodeInt32 l.2) z.leaps
    (fun l hl => readLeap_encode (hz.leapTimes l hl)) z.rest
  have hzip : (z.transitions.map (·.1)).zip (z.transitions.map (·.2)) = z.transitions := by
    rw [List.zip_map', List.map_id']
  have hmake := makeTransitions_ok beyond z.types z.transitions
    fun t ht => (hz.times t ht).2
  have htables := readTables_encode hz
    (z.types.flatMap (fun l => encodeInt32 l.1 ++ [l.2.1, l.2.2]) ++ (z.names ++
      (z.leaps.flatMap (fun l => encodeInt32 l.1 ++ encodeInt32 l.2) ++ z.rest)))
  have hencode : z.encode = magic ++ z.version :: z.reserved ++ encodeInt32 z.isgmtcnt ++
      encodeInt32 z.isstdcnt ++ encodeInt32 z.leaps.length ++ encodeInt32 z.transitions.length ++
      encodeInt32 z.types.length ++ encodeInt32 z.names.length ++
      z.transitions.flatMap (fun t => encodeInt32 t.1) ++ z.transitions.map (·.2) ++
      (z.types.flatMap (fun l => encodeInt32 l.1 ++ [l.2.1, l.2.2]) ++ (z.names ++
        (z.leaps.flatMap (fun l => encodeInt32 l.1 ++ encodeInt32 l.2) ++ z.rest))) := by
    simp only [ZoneInfo.encode, List.append_assoc]
  rw [readTimeZoneFile, hencode, htables]
  simp only [Int.toNat_natCast, htypes, hzip, hmake, ok_bind,
    require_of (Int.natCast_nonneg z.names.length), readBytes_append (n := z.names.length) rfl,
    hleaps]
  rfl

/-- A zone with one summer. -/
def oneSummerInfo : ZoneInfo where
  version := 50
  reserved := List.replicate 15 0
  isgmtcnt := 0
  isstdcnt := 0
  transitions := [(1000000, 1), (2000000, 0)]
  types := [(3600, 0, 0), (7200, 1, 4)]
  names := [67, 69, 84, 0, 67, 69, 83, 84, 0]
  leaps := []
  rest := []

theorem readTimeZoneFile_encode_oneSummer :
    readTimeZoneFile (fun _ => 0) (some oneSummerInfo.encode) = .ok (oneSummerInfo.data, none) := by
  refine readTimeZoneFile_encode ⟨rfl, ?_, ?_, ?_, ?_, ?_, ?_, ?_, ?_, ?_⟩ _ <;>
    simp [oneSummerInfo, IsInt]

/-! ### Whatever the file was -/

/-- Every transition is to a type that exists. -/
def Data.TypesExist (data : Data) : Prop :=
  ∀ t ∈ data.transitions, t.localtimeIdx < data.localtimes.length

instance (data : Data) : Decidable data.TypesExist := inferInstanceAs (Decidable (∀ t ∈ _, _))

/-- What the reader leaves: the local time of a transition is that of its type, if this exists. -/
structure Data.Ok (data : Data) : Prop where
  transitions : ∀ t ∈ data.transitions, ∀ l, data.localtimes[t.localtimeIdx]? = some l →
    t.localtime = t.gmttime + l.gmtOffset

theorem Data.Ok.of_nil (localtimes : List Localtime) (abbreviation : List UInt8) :
    (⟨[], localtimes, abbreviation⟩ : Data).Ok := ⟨nofun⟩

theorem makeTransitions_spec (localtimes : List Localtime) (ts : List (ℤ × UInt8))
    (abbreviation : List UInt8) :
    (⟨makeTransitions beyond localtimes ts, localtimes, abbreviation⟩ : Data).Ok := by
  refine ⟨fun t ht l hl => ?_⟩
  obtain ⟨p, -, rfl⟩ := List.mem_map.1 ht
  simp only at hl
  simp only [gmtOffsetAt, hl]

/-- The reader keeps that through every way out. -/
theorem readTimeZoneFile_data {file : Option Input} {data : Data} {printed : Option String}
    (h : readTimeZoneFile beyond file = .ok (data, printed)) : data.Ok := by
  cases file with
  | none =>
    cases h
    exact .of_nil [] []
  | some f =>
    simp only [readTimeZoneFile] at h
    split at h
    · cases h
      exact .of_nil [] []
    · next tables g hg =>
      split at h
      · cases h
        exact .of_nil _ []
      · next r hr =>
        obtain ⟨-, h⟩ := require_bind_ok.1 h
        split at h
        · cases h
          exact makeTransitions_spec _ _ _
        · split at h
          · cases h
            exact makeTransitions_spec _ _ _
          · cases h
            exact makeTransitions_spec _ _ _

/-- A lookup takes the first type or that of a transition, in whatever order the transitions are:
its assertion never fails. -/
theorem findLocaltime_type (data : Data) (sentry : ℤ) (compareGmt : Bool) :
    ∃ i, (i = 0 ∨ ∃ t ∈ data.transitions, t.localtimeIdx = i) ∧
      findLocaltime data sentry compareGmt = data.localtime i := by
  unfold findLocaltime
  cases hfront : data.transitions.head? with
  | none => exact ⟨0, Or.inl rfl, rfl⟩
  | some front =>
    simp only
    split
    · exact ⟨0, Or.inl rfl, rfl⟩
    · next hge =>
      obtain ⟨hle, hbefore, hafter⟩ := lowerBound_boundary
        (fun i => data.transitions[i]?.any fun t => decide (t.key compareGmt < sentry))
        data.transitions.length
      generalize lowerBound _ _ = r at hle hbefore hafter ⊢
      cases hr : data.transitions[r]? with
      | none =>
        have hpos : data.transitions ≠ [] := by
          rintro hnil
          rw [hnil] at hfront
          cases hfront
        rw [List.getLast?_eq_some_getLast hpos]
        exact ⟨_, Or.inr ⟨_, List.getLast_mem hpos, rfl⟩, rfl⟩
      | some t =>
        simp only
        split
        · next hkey =>
          -- the first transition is not after the time, so the search ends behind it
          have hrpos : r ≠ 0 := by
            rintro rfl
            have hfalse := hafter (List.getElem?_eq_some_iff.1 hr).1
            rw [List.head?_eq_getElem?, hr] at hfront
            cases hfront
            rw [hr, Option.any_some, decide_eq_false_iff_not] at hfalse
            omega
          rw [require_of hrpos, ok_bind]
          have htrue := hbefore (Nat.pos_of_ne_zero hrpos)
          cases hprev : data.transitions[r - 1]? with
          | none =>
            rw [hprev] at htrue
            cases htrue
          | some u => exact ⟨_, Or.inr ⟨u, List.mem_of_getElem? hprev, rfl⟩, rfl⟩
        · exact ⟨_, Or.inr ⟨t, List.mem_of_getElem? hr, rfl⟩, rfl⟩

/-- The assertion of a lookup in what the reader left never fails, whatever the file was. Without
types every lookup is of an element behind their end; and if every transition is to a type that
exists, it has the local time of that type and every other lookup finds a type. -/
theorem findLocaltime_ok {file : Option Input} {data : Data} {printed : Option String}
    (h : readTimeZoneFile beyond file = .ok (data, printed)) :
    (∀ sentry c, findLocaltime data sentry c ≠ .error .begin) ∧
      (data.localtimes = [] → ∀ sentry c, findLocaltime data sentry c = .error .outOfRange) ∧
      (data.TypesExist →
        (∀ t ∈ data.transitions, ∃ l, data.localtimes[t.localtimeIdx]? = some l ∧
          t.localtime = t.gmttime + l.gmtOffset) ∧
        (data.localtimes ≠ [] → ∀ sentry c,
          ∃ l ∈ data.localtimes, findLocaltime data sentry c = .ok l)) := by
  have hd := readTimeZoneFile_data h
  refine ⟨fun sentry c => ?_, fun hnil sentry c => ?_, fun hexist => ⟨fun t ht => ?_,
    fun hne sentry c => ?_⟩⟩
  · obtain ⟨i, -, hi⟩ := findLocaltime_type data sentry c
    rw [hi, Data.localtime]
    cases data.localtimes[i]? <;> rintro ⟨⟩
  · obtain ⟨i, -, hi⟩ := findLocaltime_type data sentry c
    rw [hi, Data.localtime, hnil]
    rfl
  · have hget := List.getElem?_eq_getElem (hexist t ht)
    exact ⟨_, hget, hd.transitions t ht _ hget⟩
  · obtain ⟨i, hi, hfind⟩ := findLocaltime_type data sentry c
    have hlt : i < data.localtimes.length := by
      rcases hi with rfl | ⟨t, ht, rfl⟩
      · exact List.length_pos_iff.2 hne
      · exact hexist t ht
    have hget := List.getElem?_eq_getElem hlt
    exact ⟨_, List.mem_of_getElem? hget, by rw [hfind, Data.localtime, hget]⟩

/-- The same zone, with the file cut off in its names: the types and transitions are kept. -/
theorem findLocaltime_ok_cut : ∃ l ∈ oneSummerInfo.data.localtimes,
    findLocaltime ⟨oneSummerInfo.data.transitions, oneSummerInfo.data.localtimes, []⟩ 1500000
      true = .ok l := by
  have hread : readTimeZoneFile (fun _ => 0) (some (oneSummerInfo.encode.take 70)) =
      .ok (⟨oneSummerInfo.data.transitions, oneSummerInfo.data.localtimes, []⟩,
        some "no enough data") := by
    decide +kernel
  exact ((findLocaltime_ok hread).2.2 (by decide)).2 (by decide) 1500000 true

end TimeZone
