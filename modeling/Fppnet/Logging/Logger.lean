import Fppnet.Library.Run
import Fppnet.Library.Checked
import Fppnet.Datetime.Timestamp
import Fppnet.Logging.LogStream

/-!
# `Logger`

The statements `LOG_TRACE` to `LOG_SYSFATAL` (`src/base/logging/Logging.cpp`). Each thread keeps the
text of the second of its last statement in `t_time`, and formats it anew only when the second
changes; `t_lastSecond` begins with 0.

Both results are about statements from the second second of the epoch to the end of the year 9999
(`Stamp`): before, the text in `t_time` may be missing, and behind it is too long.

* `lines_exact`: whatever the threads log in turn, each line has the time of its own statement, as
  `Timestamp::toFormattedString` prints it, and then all that there is room for; it fails exactly in
  threads whose number has more than five digits;
* `sorted_texts`: lines that are sorted as text are in the order of their times.
-/

open Runs Checked Timestamp TimeZone LogStream

namespace Logger

/-! ### Statements -/

inductive LogLevel
  | trace
  | debug
  | info
  | warn
  | error
  | fatal
  deriving DecidableEq

namespace LogLevel

def toNat : LogLevel → ℕ
  | trace => 0
  | debug => 1
  | info => 2
  | warn => 3
  | error => 4
  | fatal => 5

/-- `LogLevelName` -/
def name : LogLevel → List Char
  | trace => "TRACE ".toList
  | debug => "DEBUG ".toList
  | info => "INFO  ".toList
  | warn => "WARN  ".toList
  | error => "ERROR ".toList
  | fatal => "FATAL ".toList

theorem length_name (level : LogLevel) : level.name.length = 6 := by cases level <;> rfl

end LogLevel

/-- The macros. -/
inductive Kind
  | logTrace
  | logDebug
  | logInfo
  | logWarn
  | logError
  | logFatal
  | logSyserr
  | logSysfatal
  deriving DecidableEq

namespace Kind

def level : Kind → LogLevel
  | logTrace => .trace
  | logDebug => .debug
  | logInfo => .info
  | logWarn => .warn
  | logError | logSyserr => .error
  | logFatal | logSysfatal => .fatal

/-- The `if` of the macro. -/
def enabled (k : Kind) (logLevel : LogLevel) : Bool :=
  match k with
  | logTrace | logDebug | logInfo => decide (logLevel.toNat ≤ k.level.toNat)
  | _ => true

/-- Whether the constructor inserts the name of the function. -/
def printsFunc : Kind → Bool
  | logTrace | logDebug => true
  | _ => false

/-- Whether the constructor takes `errno`. -/
def savesErrno : Kind → Bool
  | logSyserr | logSysfatal => true
  | _ => false

end Kind

/-- A statement that is executed at the time `now`. `errnoText` is what `strerror_r` says. -/
structure Statement where
  kind : Kind
  file : List Char
  line : Int32
  func : List Char
  errno : Int32
  errnoText : List Char
  args : List Arg
  now : ℤ

namespace Statement

/-- What is behind the last `/`. -/
def basename (st : Statement) : List Char := (st.file.reverse.takeWhile (· ≠ '/')).reverse

/-- What is inserted behind the time, the thread and the level: by the constructors, by the
statement, and by `finish`. -/
def inserted (st : Statement) : List Arg :=
  (if st.kind.savesErrno ∧ st.errno ≠ 0 then
    [.text st.errnoText, .text " (errno=".toList, .int st.errno, .text ") ".toList] else []) ++
  (if st.kind.printsFunc then [.text st.func, .char ' '] else []) ++ st.args ++
  [.text " - ".toList, .text st.basename, .char ':', .int st.line, .char '\n']

end Statement

/-! ### The logger -/

/-- `t_lastSecond` and `t_time` of a thread. -/
structure Cache where
  lastSecond : ℤ
  time : List Char

/-- The assertions, and a conversion that goes wrong. -/
inductive Failure
  | time
  | microseconds
  | tid
  | stream (e : LogStream.Failure)

/-- `formatTime`: the cache, and the text of the microseconds. -/
def formatTime (cache : Cache) (now : ℤ) : Except Failure (Cache × List Char) := do
  let seconds := now.tdiv kMicroSecondsPerSecond
  let microseconds := now.tmod kMicroSecondsPerSecond
  let cache ←
    if seconds ≠ cache.lastSecond then do
      let time := formatTm (gmtime seconds)
      require (time.length = 17) .time
      pure ⟨seconds, time⟩
    else pure cache
  let us := '.' :: (zeroPadded 6 microseconds ++ "Z ".toList)
  require (us.length = 9) .microseconds
  -- the assertion of `T`
  require (cache.time.length = 17) .time
  pure (cache, us)

/-- `"%5d "` -/
def tidText (tid : ℕ) : List Char := blankPadded 5 tid ++ [' ']

/-- The constructor, the insertions and `finish`. -/
def format (tid : ℕ) (cache : Cache) (st : Statement) :
    Except Failure (Cache × FixedBuffer kSmallBuffer) := do
  let (cache, us) ← formatTime cache st.now
  require ((tidText tid).length = 6) .tid
  let buffer ← (insertAll FixedBuffer.new
    ([.text cache.time, .text us, .text (tidText tid), .text st.kind.level.name] ++
      st.inserted)).mapError .stream
  pure (cache, buffer)

/-- A call of `g_output` or `g_flush`. -/
inductive Output
  | message (text : List Char)
  | flush
  deriving DecidableEq

/-- All threads, each named by its number. -/
structure State where
  logLevel : LogLevel
  caches : ℕ → Cache
  output : List Output
  aborted : Bool

def State.init (logLevel : LogLevel) : State := ⟨logLevel, fun _ => ⟨0, []⟩, [], false⟩

inductive Label
  | log (tid : ℕ) (st : Statement)
  | setLogLevel (level : LogLevel)

/-- What the destructor does with the line. -/
def outputs (kind : Kind) (text : List Char) : List Output :=
  .message text :: if kind.level = .fatal then [.flush] else []

/-- A thread executes a statement. -/
def step (s : State) : Label → Option (Except Failure State)
  | .setLogLevel level => if s.aborted then none else some (.ok { s with logLevel := level })
  | .log tid st =>
    if s.aborted then none
    else if st.kind.enabled s.logLevel then
      some do
        let (cache, buffer) ← format tid (s.caches tid) st
        pure { s with
          caches := Function.update s.caches tid cache
          output := s.output ++ outputs st.kind buffer.data
          aborted := decide (st.kind.level = .fatal) }
    else some (.ok s)

/-! ### One line -/

/-- The times with a text of 17 characters, without the first second. -/
def Stamp (now : ℤ) : Prop := kMicroSecondsPerSecond ≤ now ∧ InRange now

instance (now : ℤ) : Decidable (Stamp now) := inferInstanceAs (Decidable (_ ∧ _))

/-- The cache of a thread that has not logged yet, or the text of its last second. -/
def Cache.Ok (c : Cache) : Prop :=
  c.lastSecond = 0 ∨ c.time = formatTm (gmtime c.lastSecond)

/-- The line of a statement. -/
def Statement.text (st : Statement) (tid : ℕ) : List Char :=
  toFormattedString st.now ++ ("Z ".toList ++ (tidText tid ++ (st.kind.level.name ++
    (fitting (kSmallBuffer - 38) st.inserted).flatten)))

/-- The texts that are inserted have less than `2 ^ 31` bytes. -/
def Statement.Short (st : Statement) : Prop := ∀ a ∈ st.inserted, a.Short

instance (st : Statement) : Decidable st.Short := inferInstanceAs (Decidable (∀ a ∈ _, _))

variable {s t : State} {l : List Label} {st : Statement} {tid : ℕ} {now : ℤ} {cache : Cache}

theorem length_tidText (tid : ℕ) : (tidText tid).length = 6 ↔ tid < 100000 := by
  have hdigits := Nat.length_toDigits_le_iff (b := 10) (n := tid) (k := 5) (by decide) (by decide)
  have htext : (toString (tid : ℤ)).toList = Nat.toDigits 10 tid := by
    change (toString tid).toList = _
    rw [Nat.toString_eq_repr, Nat.toList_repr]
  rw [tidText, List.length_append, blankPadded, List.length_leftpad, htext, List.length_singleton]
  omega

/-- The two parts of the time. -/
theorem length_parts (h : InRange now) :
    (formatTm (gmtime (now.tdiv kMicroSecondsPerSecond))).length = 17 ∧
      (zeroPadded 6 (now.tmod kMicroSecondsPerSecond)).length = 6 := by
  have hlt := Int.emod_lt_of_pos now (b := kMicroSecondsPerSecond) (by decide)
  have hge := Int.emod_nonneg now (b := kMicroSecondsPerSecond) (by decide)
  have hmicro : (zeroPadded 6 (now.tmod kMicroSecondsPerSecond)).length = 6 := by
    rw [Int.tmod_eq_emod_of_nonneg h.1, zeroPadded_eq (by decide) hge hlt,
      FixedWidth.length_fixed]
  have hlen := length_toFormattedString h
  rw [toFormattedString, List.length_append, List.length_cons, hmicro] at hlen
  exact ⟨by omega, hmicro⟩

/-- **The cache is right**: `formatTime` prints the time of the statement, whatever the thread has
logged before. -/
theorem formatTime_ok (hc : cache.Ok) (h : Stamp now) : ∃ c us, formatTime cache now = .ok (c, us) ∧
    c.Ok ∧ c.time.length = 17 ∧ us.length = 9 ∧
      c.time ++ us = toFormattedString now ++ "Z ".toList := by
  obtain ⟨htime, hmicro⟩ := length_parts h.2
  have hus :
      ('.' :: (zeroPadded 6 (now.tmod kMicroSecondsPerSecond) ++ "Z ".toList)).length = 9 := by
    rw [List.length_cons, List.length_append, hmicro]
    rfl
  have htext : formatTm (gmtime (now.tdiv kMicroSecondsPerSecond)) ++
      '.' :: (zeroPadded 6 (now.tmod kMicroSecondsPerSecond) ++ "Z ".toList) =
        toFormattedString now ++ "Z ".toList := by
    rw [toFormattedString, List.append_assoc, List.cons_append]
  unfold formatTime
  by_cases hsame : now.tdiv kMicroSecondsPerSecond = cache.lastSecond
  · -- the second is not the first one, so the thread has formatted it
    have hpos : cache.lastSecond ≠ 0 := by
      rw [← hsame, Int.tdiv_eq_ediv_of_nonneg h.2.1]
      have := h.1
      unfold kMicroSecondsPerSecond at *
      omega
    have hcached := hc.resolve_left hpos
    rw [← hsame] at hcached
    simp only [hsame, ne_eq, not_true_eq_false, ↓reduceIte, pure_eq_ok, ok_bind,
      require_of hus, require_of (show cache.time.length = 17 by rw [hcached, htime])]
    exact ⟨_, _, rfl, hc, by rw [hcached, htime], hus, by rw [hcached, htext]⟩
  · simp only [ne_eq, hsame, not_false_eq_true, ↓reduceIte, require_of htime, ok_bind, pure_eq_ok,
      require_of hus]
    exact ⟨_, _, rfl, Or.inr rfl, htime, hus, htext⟩

/-- A line is made exactly if the number of the thread has at most five digits. -/
theorem format_ok (hc : cache.Ok) (h : Stamp st.now) (hshort : st.Short) (htid : tid < 100000) :
    ∃ c buffer, format tid cache st = .ok (c, buffer) ∧ c.Ok ∧ buffer.data = st.text tid := by
  obtain ⟨c, us, hformat, hok, htime, hus, htext⟩ := formatTime_ok hc h
  have hlen := (length_tidText tid).2 htid
  have hname := st.kind.level.length_name
  have hfront : ∀ a ∈ [Arg.text c.time, .text us, .text (tidText tid), .text st.kind.level.name],
      a.Short := by
    simp [Arg.Short, htime, hus, hlen, hname]
  obtain ⟨buffer, hbuffer, htexts, -⟩ := insertAll_ok
    (List.forall_mem_append.2 ⟨hfront, hshort⟩)
    (FixedBuffer.new : FixedBuffer kSmallBuffer) (by decide)
  have havail : (FixedBuffer.new : FixedBuffer kSmallBuffer).avail = 4000 := rfl
  have hfit : fitting 4000
      ([.text c.time, .text us, .text (tidText tid), .text st.kind.level.name] ++ st.inserted) =
        [c.time, us, tidText tid, st.kind.level.name] ++ fitting 3962 st.inserted := by
    simp [fitting, Arg.room, Arg.show, htime, hus, hlen, hname]
  refine ⟨c, buffer, ?_, hok, ?_⟩
  · rw [format, hformat, ok_bind]
    dsimp only
    rw [require_of hlen, ok_bind, hbuffer]
    rfl
  · rw [FixedBuffer.data, htexts, havail, hfit, FixedBuffer.texts_new, List.nil_append,
      Statement.text, ← List.append_assoc (toFormattedString _), ← htext]
    simp [kSmallBuffer]

theorem format_error (hc : cache.Ok) (h : Stamp st.now) (htid : 100000 ≤ tid) :
    format tid cache st = .error .tid := by
  obtain ⟨c, us, hformat, -⟩ := formatTime_ok hc h
  have hlen : (tidText tid).length ≠ 6 := fun heq => by
    have := (length_tidText tid).1 heq
    omega
  rw [format, hformat]
  simp only [ok_bind, require, if_neg hlen, error_bind]

/-- The `'\n'` at the end is only missing if all but one byte is used. -/
theorem fitting_newline (args : List Arg) {avail : ℕ} (h : 0 < avail) :
    (fitting avail (args ++ [.char '\n'])).flatten.length < avail ∧
      ((fitting avail (args ++ [.char '\n'])).flatten.getLast? = some '\n' ∨
        (fitting avail (args ++ [.char '\n'])).flatten.length + 1 = avail) := by
  induction args generalizing avail with
  | nil =>
    by_cases hroom : 2 ≤ avail
    · simp [fitting, Arg.room, Arg.show, hroom]
      omega
    · simp [fitting, Arg.room, hroom]
      omega
  | cons a args ih =>
    rw [List.cons_append, fitting]
    by_cases hroom : a.room ≤ avail
    · have hlt := a.length_show_lt
      obtain ⟨hless, hlast⟩ := ih (show 0 < avail - a.show.length by omega)
      rw [if_pos hroom, List.flatten_cons, List.length_append]
      refine ⟨by omega, ?_⟩
      rcases hlast with hlast | hfull
      · exact Or.inl (by rw [List.getLast?_append, hlast]; rfl)
      · exact Or.inr (by omega)
    · rw [if_neg hroom]
      exact ih h

/-- A line is never empty, fits into the buffer, and ends with `'\n'` unless the buffer is full. -/
theorem text_bounds (h : Stamp st.now) (htid : tid < 100000) :
    38 ≤ (st.text tid).length ∧ (st.text tid).length ≤ 3999 ∧
      ((st.text tid).getLast? = some '\n' ∨ (st.text tid).length = 3999) := by
  have htime := length_toFormattedString h.2
  have hlen := (length_tidText tid).2 htid
  have hname := st.kind.level.length_name
  have hz : "Z ".toList.length = 2 := rfl
  have hend : st.inserted.getLast? = some (.char '\n') := by
    rw [Statement.inserted, List.getLast?_append]
    rfl
  obtain ⟨args, hargs⟩ := List.getLast?_eq_some_iff.1 hend
  obtain ⟨hless, hlast⟩ := fitting_newline args (show 0 < 3962 by decide)
  rw [← hargs] at hless hlast
  have hk : kSmallBuffer - 38 = 3962 := rfl
  have htotal : (st.text tid).length = 38 + (fitting 3962 st.inserted).flatten.length := by
    rw [Statement.text, hk]
    simp only [List.length_append, htime, hlen, hname, hz]
    omega
  refine ⟨by omega, by omega, ?_⟩
  rcases hlast with hlast | hfull
  · refine Or.inl ?_
    rw [Statement.text, hk]
    simp only [List.getLast?_append, hlast, Option.some_or]
  · exact Or.inr (by omega)

/-! ### All threads -/

/-- The time of a statement is between the first second and the end of the year 9999, and its texts
are not too long. -/
def Label.Timely : Label → Prop
  | .log _ st => Stamp st.now ∧ st.Short
  | .setLogLevel _ => True

/-- What is output: it does not depend on the caches. -/
def expected : LogLevel → List Label → List Output
  | _, [] => []
  | _, .setLogLevel level :: l => expected level l
  | level, .log tid st :: l =>
    (if st.kind.enabled level then outputs st.kind (st.text tid) else []) ++ expected level l

/-- All caches are right, and what was output are lines. -/
structure Inv (s : State) : Prop where
  caches : ∀ tid, (s.caches tid).Ok
  messages : ∀ text, .message text ∈ s.output → 38 ≤ text.length ∧ text.length ≤ 3999 ∧
    (text.getLast? = some '\n' ∨ text.length = 3999)

theorem inv_init (level : LogLevel) : Inv (State.init level) :=
  ⟨fun _ => Or.inl rfl, fun _ h => absurd h List.not_mem_nil⟩

/-- A statement that is executed makes its line, or fails in the assertion about the thread. -/
theorem step_log (hs : Inv s) (tid : ℕ) (h : Stamp st.now) (hshort : st.Short)
    (hlive : s.aborted = false) (hk : st.kind.enabled s.logLevel = true) :
    (100000 ≤ tid → step s (.log tid st) = some (.error .tid)) ∧
      (tid < 100000 → ∃ c, c.Ok ∧ step s (.log tid st) = some (.ok { s with
        caches := Function.update s.caches tid c
        output := s.output ++ outputs st.kind (st.text tid)
        aborted := decide (st.kind.level = .fatal) })) := by
  have hstep : ∀ r, format tid (s.caches tid) st = r → step s (.log tid st) =
      some (r >>= fun x => pure { s with
        caches := Function.update s.caches tid x.1
        output := s.output ++ outputs st.kind x.2.data
        aborted := decide (st.kind.level = .fatal) }) := by
    rintro r rfl
    rw [step, if_neg (by rw [hlive]; decide), if_pos hk]
  constructor
  · intro hle
    rw [hstep _ (format_error (hs.caches tid) h hle)]
    rfl
  · intro htid
    obtain ⟨c, buffer, hformat, hc, hdata⟩ := format_ok (hs.caches tid) h hshort htid
    refine ⟨c, hc, ?_⟩
    rw [hstep _ hformat, ← hdata]
    rfl

theorem step_inv {a : Label} (hs : Inv s) (ha : a.Timely) (h : Moves step s a t) :
    Inv t ∧ ∀ l, s.output ++ expected s.logLevel (a :: l) =
      t.output ++ expected t.logLevel l := by
  cases a with
  | setLogLevel level =>
    by_cases hlive : s.aborted
    · rw [Moves, step, if_pos hlive] at h
      cases h
    · rw [Moves, step, if_neg hlive] at h
      cases h
      exact ⟨⟨hs.caches, hs.messages⟩, fun _ => rfl⟩
  | log tid st =>
    by_cases hlive : s.aborted
    · rw [Moves, step, if_pos hlive] at h
      cases h
    by_cases hk : st.kind.enabled s.logLevel = true
    · obtain ⟨hfails, hok⟩ := step_log hs tid ha.1 ha.2 (Bool.eq_false_iff.2 hlive) hk
      rcases lt_or_ge tid 100000 with htid | hge
      · obtain ⟨c, hc, hstep⟩ := hok htid
        rw [Moves, hstep] at h
        cases h
        refine ⟨⟨fun i => ?_, fun text htext => ?_⟩, fun l => ?_⟩
        · by_cases hi : i = tid
          · rw [hi]
            simpa only [Function.update_self] using hc
          · simpa only [Function.update_of_ne hi] using hs.caches i
        · rcases List.mem_append.1 htext with hold | hnew
          · exact hs.messages text hold
          · have heq : text = st.text tid := by
              unfold outputs at hnew
              split_ifs at hnew <;> simpa using hnew
            rw [heq]
            exact text_bounds ha.1 htid
        · rw [expected, if_pos hk, List.append_assoc]
      · rw [Moves, hfails hge] at h
        cases h
    · rw [Moves, step, if_neg hlive, if_neg hk] at h
      cases h
      exact ⟨hs, fun l => by rw [expected, if_neg hk, List.nil_append]⟩

theorem run_inv (hl : ∀ a ∈ l, a.Timely) (hs : Inv s) (h : Path (Moves step) l s t) :
    Inv t ∧ t.output = s.output ++ expected s.logLevel l := by
  induction h with
  | nil s => exact ⟨hs, (List.append_nil _).symm⟩
  | cons hr _ ih =>
    rw [List.forall_mem_cons] at hl
    obtain ⟨hinv, houtput⟩ := step_inv hs hl.1 hr
    obtain ⟨hinv', houtput'⟩ := ih hl.2 hinv
    exact ⟨hinv', by rw [houtput', houtput]⟩

/-- **Every line is right**: however the statements of the threads follow each other, and whatever
their times from the second second of the epoch to the end of the year 9999, the output are their
lines in this order, so none has the time of another statement.
A line is never empty, fits into the buffer, and ends with `'\n'` unless it fills the buffer. A
statement that is executed fails only in a thread whose number has more than five digits, and then
always. -/
theorem lines_exact {level : LogLevel} (hl : ∀ a ∈ l, a.Timely)
    (h : Path (Moves step) l (State.init level) s) :
    s.output = expected level l ∧
      (∀ text, .message text ∈ s.output → 38 ≤ text.length ∧ text.length ≤ 3999 ∧
        (text.getLast? = some '\n' ∨ text.length = 3999)) ∧
      ∀ tid st, Stamp st.now → st.Short → s.aborted = false → st.kind.enabled s.logLevel = true →
        ((∃ e, step s (.log tid st) = some (.error e)) ↔ 100000 ≤ tid) := by
  obtain ⟨hs, houtput⟩ := run_inv hl (inv_init level) h
  refine ⟨houtput, hs.messages, ?_⟩
  intro tid st hstamp hshort hlive hk
  obtain ⟨hfails, hok⟩ := step_log hs tid hstamp hshort hlive hk
  refine ⟨fun ⟨e, he⟩ => ?_, fun hge => ⟨_, hfails hge⟩⟩
  by_contra hlt
  obtain ⟨c, -, hstep⟩ := hok (not_le.1 hlt)
  rw [hstep] at he
  cases he

/-- A statement of `main`. -/
def hello (now : ℤ) : Statement :=
  ⟨.logWarn, "src/main.cc".toList, 12, "main".toList, 0, [], [.text "hello".toList], now⟩

/-- The clock goes back between two statements of a thread. -/
theorem lines_exact_back : ∃ s, Path (Moves step)
    [.log 7 (hello 1700000000000000), .log 7 (hello 1600000000000000)] (State.init .info) s ∧
    s.output = [.message ((hello 1700000000000000).text 7),
      .message ((hello 1600000000000000).text 7)] := by
  have hfirst : Stamp (hello 1700000000000000).now := by decide
  have hsecond : Stamp (hello 1600000000000000).now := by decide
  have hshort : ∀ now, (hello now).Short := fun _ => by
    simp [Statement.Short, Statement.inserted, hello, Arg.Short, Kind.savesErrno, Kind.printsFunc,
      Statement.basename]
  obtain ⟨c, -, h₁⟩ := (step_log (inv_init .info) 7 hfirst (hshort _) rfl rfl).2 (by decide)
  have htimely : (Label.log 7 (hello 1700000000000000)).Timely := ⟨hfirst, hshort _⟩
  obtain ⟨hs, -⟩ := step_inv (inv_init .info) htimely h₁
  obtain ⟨c', -, h₂⟩ := (step_log hs 7 hsecond (hshort _) rfl rfl).2 (by decide)
  have hpath := Path.cons (R := Moves step) h₁ (Path.cons h₂ (Path.nil _))
  refine ⟨_, hpath, (lines_exact ?_ hpath).1⟩
  intro a ha
  simp only [List.mem_cons, List.not_mem_nil, or_false] at ha
  rcases ha with rfl | rfl
  · exact htimely
  · exact ⟨hsecond, hshort _⟩

/-- **Lines can be sorted as text**: then those of times between the first second and the end of the
year 9999 are in the order of these, whichever threads they are from. -/
theorem sorted_texts {lines : List (ℕ × Statement)} (h : ∀ x ∈ lines, Stamp x.2.now)
    (hsorted : (lines.map fun x => x.2.text x.1).Pairwise (· ≤ ·)) :
    (lines.map fun x => x.2.now).Pairwise (· ≤ ·) := by
  rw [List.pairwise_map] at hsorted ⊢
  refine hsorted.imp_of_mem fun {x y} hx hy hle => ?_
  by_contra hlt
  exact not_lt_of_ge hle (toFormattedString_lt (h y hy).2 (h x hx).2 (not_le.1 hlt) _ _)

theorem sorted_texts_two : ([(8, hello 1600000000000000), (7, hello 1700000000000000)].map
    fun x => x.2.now).Pairwise (· ≤ ·) := by
  refine sorted_texts (fun x hx => ?_) ?_
  · simp only [List.mem_cons, List.not_mem_nil, or_false] at hx
    rcases hx with rfl | rfl
    · change Stamp 1600000000000000
      decide
    · change Stamp 1700000000000000
      decide
  · have hlt : ∀ r r' : List Char,
        toFormattedString 1600000000000000 ++ r < toFormattedString 1700000000000000 ++ r' :=
      toFormattedString_lt (by decide) (by decide) (by decide)
    exact List.pairwise_pair.2 (le_of_lt (hlt _ _))

end Logger
