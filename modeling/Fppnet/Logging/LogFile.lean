import Fppnet.Library.Run
import Fppnet.Library.Checked
import Fppnet.Datetime.UtcTime
import Fppnet.Logging.LogStream

/-!
# `LogFile`

A log that goes from file to file (`src/base/logging/LogFile.cc`): it rolls when a file has grown
beyond `rollSize_`, and when a check of the clock, made once in more than `kCheckTimeRoll_` lines,
finds a new day. `rollFile` opens a file only if the clock has gone on since the last time, and
names it after that second.

The results are about logs that are started after the epoch, since before it the constructor opens
no file, and that can open their files; `fflush` writes what it is given.

* `getLogFileName_inj`: different seconds have different names;
* `lines_kept`: the files, in the order of their names, hold every line once, whole and in order;
* `roll_bounds`: how far a file can grow too large, hold lines of another day, or keep lines that
  are not flushed.
-/

open Runs Checked TimeZone

namespace LogFile

/-! ### File names -/

/-- `%02d` of a number of two digits. -/
def twoDigits (n : ℤ) : List Char :=
  [Nat.digitChar (n / 10).toNat, Nat.digitChar (n % 10).toNat]

/-- `strftime` with `.%Y%m%d-%H%M%S`. -/
def timebuf (tm : Tm) : List Char :=
  '.' :: ((toString (tm.year + 1900)).toList ++ (twoDigits (tm.mon + 1) ++ twoDigits tm.mday ++
    '-' :: (twoDigits tm.hour ++ twoDigits tm.min ++ twoDigits tm.sec)))

/-- What is the same for all files of a log. -/
structure Config where
  basename : List Char
  pid : ℕ
  rollSize : ℕ
  flushInterval : ℤ

/-- `getLogFileName` -/
def getLogFileName (cfg : Config) (now : ℤ) : List Char :=
  cfg.basename ++ timebuf (gmtime now) ++ '.' :: (toString cfg.pid).toList ++
    ".log".toList

theorem digitChar_inj {m n : ℕ} (hm : m < 10) (hn : n < 10)
    (h : Nat.digitChar m = Nat.digitChar n) : m = n := by
  have hall : ∀ m < 10, ∀ n < 10, Nat.digitChar m = Nat.digitChar n → m = n := by decide
  exact hall m hm n hn h

theorem twoDigits_inj {m n : ℤ} (hm : 0 ≤ m ∧ m < 100) (hn : 0 ≤ n ∧ n < 100)
    (h : twoDigits m = twoDigits n) : m = n := by
  rw [twoDigits, twoDigits, List.cons.injEq, List.cons.injEq] at h
  have htens := digitChar_inj (by omega) (by omega) h.1
  have hunits := digitChar_inj (by omega) (by omega) h.2.1
  omega

/-- Different seconds have different names. -/
theorem getLogFileName_inj {cfg : Config} {t t' : ℤ} (ht : firstSecond ≤ t) (ht' : firstSecond ≤ t')
    (h : getLogFileName cfg t = getLogFileName cfg t') : t = t' := by
  obtain ⟨d, -, -, hn, hsec, -⟩ := gmtime_spec ht
  obtain ⟨d', -, -, hn', hsec', -⟩ := gmtime_spec ht'
  have hbuf : timebuf (gmtime t) = timebuf (gmtime t') := by
    simp only [getLogFileName, List.append_assoc] at h
    exact List.append_cancel_right (List.append_cancel_left h)
  generalize gmtime t = tm at *
  generalize gmtime t' = tm' at *
  rw [timebuf, timebuf, List.cons.injEq] at hbuf
  obtain ⟨hyear, hrest⟩ := List.append_inj' hbuf.2 rfl
  obtain ⟨hdate, htime⟩ := List.append_inj' hrest rfl
  obtain ⟨hmon, hmday⟩ := List.append_inj' hdate rfl
  rw [List.cons.injEq] at htime
  obtain ⟨hhm, hs⟩ := List.append_inj' htime.2 rfl
  obtain ⟨hh, hm⟩ := List.append_inj' hhm rfl
  have hyear' := LogStream.toString_inj hyear
  have hmonth : tm.mon + 1 = tm'.mon + 1 := by
    have h1 := hn.mon
    have h2 := hn'.mon
    have := d.month_pos
    have := d.month_le
    have := d'.month_pos
    have := d'.month_le
    exact twoDigits_inj (by omega) (by omega) hmon
  have hday : tm.mday = tm'.mday := by
    have h1 := hn.mday
    have h2 := hn'.mday
    have := d.day_pos
    have := d.day_le_31
    have := d'.day_pos
    have := d'.day_le_31
    exact twoDigits_inj (by omega) (by omega) hmday
  have hhour := twoDigits_inj (by have := hn.hour; omega) (by have := hn'.hour; omega) hh
  have hmin := twoDigits_inj (by have := hn.min; omega) (by have := hn'.min; omega) hm
  have hsecond := twoDigits_inj (by have := hn.sec; omega) (by have := hn'.sec; omega) hs
  have hsame : d = d' := by
    refine Calendar.Day.ext ?_ ?_ ?_
    · rw [← hn.year, ← hn'.year, hyear']
    · rw [← hn.mon, ← hn'.mon, hmonth]
    · rw [← hn.mday, ← hn'.mday, hday]
  rw [hsec, hsec', hsame, Tm.secondOfDay, Tm.secondOfDay, hhour, hmin, hsecond]

/-! ### Writing -/

/-- The loop of `File::append`: `rest` is still to be written, and `fwrite` returns the numbers of
the list, until one is zero. -/
def writeRest (rest : List Char) : List ℕ → List Char
  | [] => []
  | x :: xs =>
    if rest = [] then [] else if x = 0 then []
    else rest.take x ++ writeRest (rest.drop x) xs

/-- What `File::append` writes of a line; the first result may be zero. -/
def written (line : List Char) : List ℕ → List Char
  | [] => []
  | n :: xs => line.take n ++ writeRest (line.drop n) xs

theorem writeRest_prefix (rest : List Char) (xs : List ℕ) : writeRest rest xs <+: rest := by
  induction xs generalizing rest with
  | nil => exact List.nil_prefix
  | cons x xs ih =>
    unfold writeRest
    split_ifs
    · exact List.nil_prefix
    · exact List.nil_prefix
    · calc
        rest.take x ++ writeRest (rest.drop x) xs <+: rest.take x ++ rest.drop x :=
          (List.prefix_append_right_inj _).2 (ih _)
        _ = rest := List.take_append_drop x rest

/-- Never more than the line, and nothing out of order. -/
theorem written_prefix (line : List Char) (writes : List ℕ) : written line writes <+: line := by
  cases writes with
  | nil => exact List.nil_prefix
  | cons n xs =>
    calc
      line.take n ++ writeRest (line.drop n) xs <+: line.take n ++ line.drop n :=
        (List.prefix_append_right_inj _).2 <| writeRest_prefix _ _
      _ = line := List.take_append_drop n line

/-! ### The log -/

/-- A line in a file, with the time at which it was appended. -/
structure Line where
  time : ℤ
  text : List Char
  deriving DecidableEq

/-- `File`. `lines` is what the file holds, and `flushed` how many lines of it are flushed. -/
structure File where
  opened : ℤ
  name : List Char
  lines : List Line
  writtenBytes : ℕ
  flushed : ℕ
  deriving DecidableEq

namespace File

def new (cfg : Config) (now : ℤ) : File := ⟨now, getLogFileName cfg now, [], 0, 0⟩

/-- `append`: the bytes count whether they could be written or not. -/
def append (f : File) (time : ℤ) (line : List Char) (writes : List ℕ) : File :=
  { f with
    lines := f.lines ++ [⟨time, written line writes⟩]
    writtenBytes := f.writtenBytes + line.length }

def flush (f : File) : File := { f with flushed := f.lines.length }

end File

/-- `kCheckTimeRoll_` and `kRollPerSeconds_`. -/
def kCheckTimeRoll : ℕ := 1024

def kRollPerSeconds : ℤ := 60 * 60 * 24

/-- The start of the day, in UTC. -/
def period (now : ℤ) : ℤ := now.tdiv kRollPerSeconds * kRollPerSeconds

/-- The log. `closed` are the files that were closed, and `clock` is the last time that was read;
no step depends on them. -/
structure State where
  count : ℕ
  startOfPeriod : ℤ
  lastRoll : ℤ
  lastFlush : ℤ
  file : Option File
  closed : List File
  clock : ℤ
  deriving DecidableEq

inductive Failure
  /-- `file_` points to nothing. -/
  | noFile
  deriving DecidableEq

/-- `rollFile` at a time. The file that is replaced is closed, and flushed by that. -/
def State.rollFile (cfg : Config) (s : State) (now : ℤ) : State :=
  if s.lastRoll < now then
    { s with
      lastRoll := now
      lastFlush := now
      startOfPeriod := period now
      closed := s.closed ++ (s.file.map File.flush).toList
      file := some (File.new cfg now) }
  else s

/-- The constructor. -/
def State.init (cfg : Config) (now : ℤ) : State :=
  State.rollFile cfg ⟨0, 0, 0, 0, none, [], now⟩ now

/-- A call: a line, with the results of `fwrite` and the two times that may be read; or `flush`. -/
inductive Label
  | append (line : List Char) (writes : List ℕ) (now roll : ℤ)
  | flush
  deriving DecidableEq

/-- `append_unlocked` on the open file. -/
def State.append (cfg : Config) (s : State) (f : File) (line : List Char) (writes : List ℕ)
    (now roll : ℤ) : State :=
  let f := f.append now line writes
  let s := { s with file := some f, clock := roll }
  if cfg.rollSize < f.writtenBytes then s.rollFile cfg roll
  else if kCheckTimeRoll < s.count then
    let s := { s with count := 0 }
    if period now ≠ s.startOfPeriod then s.rollFile cfg roll
    else if cfg.flushInterval < now - s.lastFlush then
      { s with lastFlush := now, file := some f.flush }
    else s
  else { s with count := s.count + 1 }

/-- One call. -/
def step (cfg : Config) (s : State) : Label → Option (Except Failure State)
  | .append line writes now roll =>
    match s.file with
    | none => some (.error .noFile)
    | some f => some (.ok (s.append cfg f line writes now roll))
  | .flush =>
    match s.file with
    | none => some (.error .noFile)
    | some f => some (.ok { s with file := some f.flush })

/-! ### Every line is in a file -/

variable {cfg : Config} {s t : State} {now : ℤ}

/-- All files of the log, in the order in which they were opened. -/
def State.files (s : State) : List File := s.closed ++ s.file.toList

/-- The texts in the files. -/
def State.texts (s : State) : List (List Char) := s.files.flatMap fun f => f.lines.map (·.text)

/-- What a call adds to the log. -/
def Label.text : Label → Option (List Char)
  | .append line writes _ _ => some (written line writes)
  | .flush => none

/-- The open file is the last one, and every file is named after the second of its opening. -/
structure Named (cfg : Config) (s : State) : Prop where
  file : ∃ f, s.file = some f ∧ f.opened = s.lastRoll
  sorted : s.files.Pairwise fun f g => f.opened < g.opened
  named : ∀ f ∈ s.files, 0 < f.opened ∧ f.name = getLogFileName cfg f.opened

/-- The file is written to, or flushed. -/
theorem Named.update (hs : Named cfg s) {f g : File} (hf : s.file = some f)
    (hopened : g.opened = f.opened) (hname : g.name = f.name) (ht : t.file = some g)
    (hclosed : t.closed = s.closed) (hroll : t.lastRoll = s.lastRoll) : Named cfg t := by
  obtain ⟨f', hf', hlast⟩ := hs.file
  rw [hf] at hf'
  cases hf'
  have hfiles : s.files = s.closed ++ [f] := by rw [State.files, hf]; rfl
  have hfiles' : t.files = s.closed ++ [g] := by rw [State.files, ht, hclosed]; rfl
  have hsorted := hs.sorted
  have hnamed := hs.named
  rw [hfiles] at hsorted hnamed
  refine ⟨⟨g, ht, by rw [hopened, hlast, hroll]⟩, ?_, ?_⟩
  · rw [hfiles']
    rw [List.pairwise_append] at hsorted ⊢
    refine ⟨hsorted.1, List.pairwise_singleton _ _, ?_⟩
    intro a ha b hb
    rw [List.mem_singleton.1 hb, hopened]
    exact hsorted.2.2 a ha f (List.mem_singleton_self f)
  · rw [hfiles']
    intro a ha
    rcases List.mem_append.1 ha with ha | ha
    · exact hnamed a (List.mem_append_left _ ha)
    · rw [List.mem_singleton.1 ha, hopened, hname]
      exact hnamed f (List.mem_append_right _ (List.mem_singleton_self f))

theorem rollFile_of_lt (h : s.lastRoll < now) : s.rollFile cfg now = { s with
    lastRoll := now
    lastFlush := now
    startOfPeriod := period now
    closed := s.closed ++ (s.file.map File.flush).toList
    file := some (File.new cfg now) } := if_pos h

theorem rollFile_of_le (h : now ≤ s.lastRoll) : s.rollFile cfg now = s := if_neg (not_lt.2 h)

theorem Named.rollFile (hs : Named cfg s) (now : ℤ) : Named cfg (s.rollFile cfg now) := by
  rcases lt_or_ge s.lastRoll now with hlt | hle
  · rw [rollFile_of_lt hlt]
    obtain ⟨f, hf, hlast⟩ := hs.file
    have hupdate := hs.update (g := f.flush) (t := { s with file := some f.flush })
      hf rfl rfl rfl rfl rfl
    have hpos := (hupdate.named f.flush (by simp [State.files])).1
    have hfiles : State.files { s with file := some f.flush } = s.closed ++ [f.flush] := rfl
    have hsorted := hupdate.sorted
    have hnamed := hupdate.named
    rw [hfiles] at hsorted hnamed
    refine ⟨⟨_, rfl, rfl⟩, ?_, ?_⟩
    · change ((s.closed ++ (s.file.map File.flush).toList) ++ [File.new cfg now]).Pairwise _
      rw [hf]
      refine List.pairwise_append.2 ⟨hsorted, List.pairwise_singleton _ _, ?_⟩
      intro a ha b hb
      rw [List.mem_singleton.1 hb]
      change a.opened < now
      rcases List.mem_append.1 ha with ha' | ha'
      · have := (List.pairwise_append.1 hsorted).2.2 a ha' f.flush (List.mem_singleton_self _)
        change a.opened < f.opened at this
        omega
      · rw [List.mem_singleton.1 ha']
        change f.opened < now
        omega
    · change ∀ a ∈ (s.closed ++ (s.file.map File.flush).toList) ++ [File.new cfg now], _
      rw [hf]
      intro a ha
      rcases List.mem_append.1 ha with ha | ha
      · exact hnamed a ha
      · rw [List.mem_singleton.1 ha]
        change 0 < f.opened at hpos
        exact ⟨by change 0 < now; omega, rfl⟩
  · rwa [rollFile_of_le hle]

theorem texts_rollFile (now : ℤ) : (s.rollFile cfg now).texts = s.texts := by
  rcases lt_or_ge s.lastRoll now with hlt | hle
  · rw [rollFile_of_lt hlt]
    simp only [State.texts, State.files, List.flatMap_append]
    cases s.file with
    | none => simp [File.new]
    | some f => simp [File.new, File.flush]
  · rw [rollFile_of_le hle]

theorem texts_of_file {f : File} (h : s.file = some f) :
    s.texts = s.closed.flatMap (fun f => f.lines.map (·.text)) ++ f.lines.map (·.text) := by
  simp [State.texts, State.files, h]

theorem texts_of_lines {f g : File} (hf : s.file = some f) (hg : t.file = some g)
    (hclosed : t.closed = s.closed) (hlines : g.lines = f.lines) : t.texts = s.texts := by
  rw [texts_of_file hf, texts_of_file hg, hclosed, hlines]

/-- What `append_unlocked` can do after the line is written. -/
theorem append_cases (cfg : Config) (s : State) (f : File) (line : List Char) (writes : List ℕ)
    (now roll : ℤ) :
    let g := f.append now line writes
    let t := s.append cfg f line writes now roll
    let u : State := { s with file := some g, clock := roll }
    (cfg.rollSize < g.writtenBytes ∧ t = u.rollFile cfg roll) ∨
      (g.writtenBytes ≤ cfg.rollSize ∧ s.count ≤ kCheckTimeRoll ∧
        t = { u with count := s.count + 1 }) ∨
      (g.writtenBytes ≤ cfg.rollSize ∧ period now ≠ s.startOfPeriod ∧
        t = State.rollFile cfg { u with count := 0 } roll) ∨
      (g.writtenBytes ≤ cfg.rollSize ∧ period now = s.startOfPeriod ∧
        t = { u with count := 0, lastFlush := now, file := some g.flush }) ∨
      (g.writtenBytes ≤ cfg.rollSize ∧ period now = s.startOfPeriod ∧
        now - s.lastFlush ≤ cfg.flushInterval ∧ t = { u with count := 0 }) := by
  intro g t u
  rcases lt_or_ge cfg.rollSize g.writtenBytes with hbig | hsmall
  · exact Or.inl ⟨hbig, if_pos hbig⟩
  have ht : t = if kCheckTimeRoll < s.count then _ else _ := if_neg (not_lt.2 hsmall)
  rcases lt_or_ge kCheckTimeRoll s.count with hcheck | hskip
  · rw [if_pos hcheck] at ht
    by_cases hday : period now ≠ s.startOfPeriod
    · exact Or.inr (Or.inr (Or.inl ⟨hsmall, hday, ht.trans (if_pos hday)⟩))
    have ht' := ht.trans (if_neg hday)
    have hsame := not_not.1 hday
    rcases lt_or_ge cfg.flushInterval (now - s.lastFlush) with hlate | hrecent
    · exact Or.inr (Or.inr (Or.inr (Or.inl ⟨hsmall, hsame, ht'.trans (if_pos hlate)⟩)))
    · exact Or.inr (Or.inr (Or.inr (Or.inr
        ⟨hsmall, hsame, hrecent, ht'.trans (if_neg (not_lt.2 hrecent))⟩)))
  · rw [if_neg (not_lt.2 hskip)] at ht
    exact Or.inr (Or.inl ⟨hsmall, hskip, ht⟩)

/-- The lines of a call are added at the end, and the log stays in order. -/
theorem Named.append (hs : Named cfg s) {f : File} (hf : s.file = some f) (line : List Char)
    (writes : List ℕ) (now roll : ℤ) :
    Named cfg (s.append cfg f line writes now roll) ∧
      (s.append cfg f line writes now roll).texts = s.texts ++ [written line writes] := by
  have hu : Named cfg { s with file := some (f.append now line writes), clock := roll } :=
    hs.update (g := f.append now line writes) hf rfl rfl rfl rfl rfl
  have htexts : State.texts { s with file := some (f.append now line writes), clock := roll } =
      s.texts ++ [written line writes] := by
    rw [texts_of_file hf, texts_of_file (f := f.append now line writes) rfl]
    simp [File.append]
  rcases append_cases cfg s f line writes now roll with
    ⟨-, ht⟩ | ⟨-, -, ht⟩ | ⟨-, -, ht⟩ | ⟨-, -, ht⟩ | ⟨-, -, -, ht⟩
  · rw [ht]
    exact ⟨hu.rollFile roll, by rw [texts_rollFile, htexts]⟩
  · rw [ht]
    exact ⟨hu.update (g := f.append now line writes) rfl rfl rfl rfl rfl rfl, htexts⟩
  · rw [ht]
    refine ⟨Named.rollFile ?_ roll, by rw [texts_rollFile]; exact htexts⟩
    exact hu.update (g := f.append now line writes) rfl rfl rfl rfl rfl rfl
  · rw [ht]
    refine ⟨hu.update (g := (f.append now line writes).flush) rfl rfl rfl rfl rfl rfl, ?_⟩
    rw [← htexts]
    exact texts_of_lines (f := f.append now line writes) rfl rfl rfl rfl
  · rw [ht]
    exact ⟨hu.update (g := f.append now line writes) rfl rfl rfl rfl rfl rfl, htexts⟩

theorem named_init (cfg : Config) (h : 0 < now) : Named cfg (State.init cfg now) := by
  rw [State.init, rollFile_of_lt (by exact h)]
  refine ⟨⟨_, rfl, rfl⟩, List.pairwise_singleton _ _, ?_⟩
  intro f hf
  rw [List.mem_singleton.1 hf]
  exact ⟨h, rfl⟩

theorem texts_init (cfg : Config) (now : ℤ) : (State.init cfg now).texts = [] := by
  rw [State.init, texts_rollFile]
  rfl

/-- One call on a log in order. -/
theorem Named.moves {a : Label} (hs : Named cfg s) (h : Moves (LogFile.step cfg) s a t) :
    Named cfg t ∧ t.texts = s.texts ++ a.text.toList := by
  obtain ⟨f, hf, -⟩ := hs.file
  cases a with
  | append line writes now roll =>
    have hstep : step cfg s (.append line writes now roll) =
        some (.ok (s.append cfg f line writes now roll)) := by rw [LogFile.step, hf]
    have ht := Except.ok.inj (Option.some.inj (hstep.symm.trans h))
    rw [← ht]
    exact hs.append hf line writes now roll
  | flush =>
    have hstep : step cfg s .flush = some (.ok { s with file := some f.flush }) := by
      rw [LogFile.step, hf]
    have ht := Except.ok.inj (Option.some.inj (hstep.symm.trans h))
    rw [← ht]
    refine ⟨hs.update (g := f.flush) hf rfl rfl rfl rfl rfl, ?_⟩
    have htexts : State.texts { s with file := some f.flush } = s.texts :=
      texts_of_lines (g := f.flush) hf rfl rfl rfl
    rw [htexts]
    exact (List.append_nil _).symm

/-- A line whose writes make progress to its end is written as a whole. -/
theorem written_eq {line : List Char} {n : ℕ} {xs : List ℕ} (hpos : ∀ x ∈ xs, x ≠ 0)
    (hlen : line.length ≤ n + xs.sum) : written line (n :: xs) = line := by
  have hrest : ∀ rest : List Char, rest.length ≤ xs.sum → writeRest rest xs = rest := by
    clear hlen
    induction xs with
    | nil =>
      intro rest hlen
      rw [List.eq_nil_of_length_eq_zero (Nat.le_zero.1 hlen)]
      rfl
    | cons x xs ih =>
      intro rest hlen
      unfold writeRest
      rw [if_neg (hpos x List.mem_cons_self)]
      split_ifs with hempty
      · exact hempty.symm
      · rw [ih (fun y hy => hpos y (List.mem_cons_of_mem _ hy)), List.take_append_drop]
        rw [List.length_drop]
        rw [List.sum_cons] at hlen
        omega
  rw [written, hrest, List.take_append_drop]
  rw [List.length_drop]
  omega

theorem foldl_texts (l : List Label) (xs : List (List Char)) :
    l.foldl (fun xs a => xs ++ a.text.toList) xs = xs ++ l.filterMap Label.text := by
  induction l generalizing xs with
  | nil => simp
  | cons a l ih =>
    rw [List.foldl_cons, ih]
    cases h : a.text <;> simp [h]

/-- The line of a call is written as a whole: `fwrite` makes progress to its end. -/
def Label.Complete : Label → Prop
  | .append line (n :: xs) _ _ => (∀ x ∈ xs, x ≠ 0) ∧ line.length ≤ n + xs.sum
  | .append line [] _ _ => line = []
  | .flush => True

/-- The line of a call. -/
def Label.line : Label → Option (List Char)
  | .append line _ _ _ => some line
  | .flush => none

theorem Label.Complete.text_eq {a : Label} (h : a.Complete) : a.text = a.line := by
  cases a with
  | append line writes now roll =>
    cases writes with
    | nil =>
      cases h
      rfl
    | cons n xs => exact congrArg some (written_eq h.1 h.2)
  | flush => rfl

/-- A whole run keeps the log in order, and the texts of its calls. -/
theorem texts_of_path (cfg : Config) (h0 : 0 < now) {l : List Label}
    (h : Path (Moves (step cfg)) l (State.init cfg now) s) :
    Named cfg s ∧ s.texts = l.filterMap Label.text := by
  obtain ⟨hs, htexts⟩ := h.refines (Named cfg) State.texts (fun xs a => xs ++ a.text.toList)
    (named_init cfg h0) fun x a y hx hstep => hx.moves hstep
  rw [texts_init, foldl_texts, List.nil_append] at htexts
  exact ⟨hs, htexts⟩

theorem text_eq_line {l : List Label} (h : ∀ a ∈ l, a.Complete) :
    l.filterMap Label.text = l.filterMap Label.line :=
  List.filterMap_congr fun a ha => (h a ha).text_eq

/-- A call, as its caller makes it. -/
inductive Call
  | append (text : List Char)
  | flush
  deriving DecidableEq

def Label.call : Label → Call
  | .append line _ _ _ => .append line
  | .flush => .flush

/-- The text of a call. -/
def Call.text : Call → Option (List Char)
  | .append text => some text
  | .flush => none

theorem text_call (a : Label) : a.call.text = a.line := by
  cases a <;> rfl

/-- The files hold what the callers gave, if all of it could be written. -/
theorem texts_of_calls (cfg : Config) (h0 : 0 < now) {l : List Label}
    (h : Path (Moves (step cfg)) l (State.init cfg now) s) (hcomplete : ∀ a ∈ l, a.Complete) :
    s.texts = (l.map Label.call).filterMap Call.text := by
  rw [(texts_of_path cfg h0 h).2, text_eq_line hcomplete, List.filterMap_map]
  exact List.filterMap_congr fun a _ => (text_call a).symm

/-- **Nothing is lost between the files** of a log that starts after the epoch and whose files can
be opened and flushed: whatever the clock does after the start, no call fails, and the files
together hold what was written of every line, once and in order: a part from its beginning, and all
of it unless `fwrite` gives up. They are in the order of the seconds they are named after, and no
two have the same name. -/
theorem lines_kept (cfg : Config) (h0 : 0 < now) {l : List Label}
    (h : Path (Moves (step cfg)) l (State.init cfg now) s) :
    s.texts = l.filterMap Label.text ∧
      (∀ a ∈ l, ∀ text ∈ a.text, ∃ line ∈ a.line, text <+: line) ∧
      ((∀ a ∈ l, a.Complete) → s.texts = l.filterMap Label.line) ∧
      (∀ f ∈ s.files, f.name = getLogFileName cfg f.opened) ∧
      (s.files.Pairwise fun f g => f.opened < g.opened ∧ f.name ≠ g.name) ∧
      ∀ a, ∃ t, step cfg s a = some (.ok t) := by
  obtain ⟨hs, htexts⟩ := texts_of_path cfg h0 h
  refine ⟨htexts, ?_, ?_, fun f hf => (hs.named f hf).2, ?_, ?_⟩
  · intro a _ text htext
    cases a with
    | append line writes now roll =>
      cases htext
      exact ⟨line, rfl, written_prefix line writes⟩
    | flush => cases htext
  · intro hcomplete
    rw [htexts, text_eq_line hcomplete]
  · refine hs.sorted.imp_of_mem fun {f g} hf hg hlt => ⟨hlt, ?_⟩
    obtain ⟨hposf, hnamef⟩ := hs.named f hf
    obtain ⟨hposg, hnameg⟩ := hs.named g hg
    have hfirst : firstSecond ≤ 0 := by decide
    rw [hnamef, hnameg]
    intro hname
    have := getLogFileName_inj (by omega) (by omega) hname
    omega
  · obtain ⟨f, hf, -⟩ := hs.file
    intro a
    cases a with
    | append line writes now roll =>
      exact ⟨s.append cfg f line writes now roll, by rw [step, hf]⟩
    | flush => exact ⟨{ s with file := some f.flush }, by rw [step, hf]⟩

/-- Files of five bytes. -/
def small : Config := ⟨"log".toList, 7, 5, 3⟩

/-- A file grows beyond five bytes in the second of its opening, and is replaced in the next one. -/
theorem lines_kept_small : ∃ s, Path (Moves (step small))
    [.append "first\n".toList [4, 2] 1000 1000, .append "second\n".toList [7] 1000 1001]
      (State.init small 1000) s ∧
    s.files.length = 2 ∧ s.texts = ["first\n".toList, "second\n".toList] := by
  obtain ⟨s, hs, hfiles⟩ := exists_path_of_run (step small) Always (State.init small 1000)
    [.append "first\n".toList [4, 2] 1000 1000, .append "second\n".toList [7] 1000 1001]
    (fun s => decide (s.files.length = 2)) (by decide)
  exact ⟨s, hs, of_decide_eq_true hfiles, (lines_kept small (by decide) hs).1⟩

/-! ### The bounds -/

/-- The lines of another day than that of the opening. -/
def File.stale (f : File) : List Line := f.lines.filter fun x => period x.time ≠ period f.opened

/-- The lines that are not flushed, and came more than `flushInterval_` after the last flush. -/
def State.late (cfg : Config) (s : State) (f : File) : List Line :=
  (f.lines.drop f.flushed).filter fun x => cfg.flushInterval < x.time - s.lastFlush

/-- The clock does not go back. -/
def Forward (s : State) : Label → Prop
  | .append _ _ now roll => s.clock ≤ now ∧ now ≤ roll
  | .flush => True

instance (s : State) (a : Label) : Decidable (Forward s a) :=
  match a with
  | .append _ _ now roll => inferInstanceAs (Decidable (s.clock ≤ now ∧ now ≤ roll))
  | .flush => inferInstanceAs (Decidable True)

theorem period_mono {a b : ℤ} (ha : 0 ≤ a) (hab : a ≤ b) : period a ≤ period b := by
  have hdiv := Int.ediv_le_ediv (c := kRollPerSeconds) (by decide) hab
  rw [period, period, Int.tdiv_eq_ediv_of_nonneg ha, Int.tdiv_eq_ediv_of_nonneg (ha.trans hab)]
  exact Int.mul_le_mul_of_nonneg_right hdiv (by decide)

theorem stale_append (f : File) (time : ℤ) (line : List Char) (writes : List ℕ) :
    (f.append time line writes).stale.length ≤ f.stale.length + 1 := by
  change (List.filter (fun x => decide (period x.time ≠ period f.opened))
    (f.lines ++ [⟨time, written line writes⟩])).length ≤ f.stale.length + 1
  rw [List.filter_append, List.length_append]
  exact Nat.add_le_add_left (List.length_filter_le _ _) _

theorem late_append {f : File} (h : f.flushed ≤ f.lines.length) (time : ℤ) (line : List Char)
    (writes : List ℕ) :
    (s.late cfg (f.append time line writes)).length ≤ (s.late cfg f).length + 1 := by
  change (List.filter (fun x : Line => decide (cfg.flushInterval < x.time - s.lastFlush))
    (List.drop f.flushed (f.lines ++ [⟨time, written line writes⟩]))).length ≤
      (s.late cfg f).length + 1
  rw [List.drop_append_of_le_length h, List.filter_append, List.length_append]
  exact Nat.add_le_add_left (List.length_filter_le _ _) _

/-- What the log knows of the open file; `slack` is for a line that is not counted yet. -/
structure Watch (cfg : Config) (s : State) (f : File) (slack : ℕ) : Prop where
  file : s.file = some f
  pos : 0 < s.lastRoll
  opened : f.opened = s.lastRoll
  start : s.startOfPeriod = period s.lastRoll
  roll_le : s.lastRoll ≤ s.clock
  roll_le_flush : s.lastRoll ≤ s.lastFlush
  times : ∀ x ∈ f.lines, s.lastRoll ≤ x.time ∧ x.time ≤ s.clock
  flushed_le : f.flushed ≤ f.lines.length
  stale_le : f.stale.length ≤ s.count + slack
  late_le : (s.late cfg f).length ≤ s.count + slack
  count_le : s.count ≤ kCheckTimeRoll + 1
  closed : ∀ g ∈ s.closed, g.stale.length ≤ kCheckTimeRoll + 2

namespace Watch

variable {f : File} {slack : ℕ}

/-- A new file has no lines. -/
theorem new (h0 : 0 < now) (hnow : now ≤ s.clock) (hcount : s.count ≤ kCheckTimeRoll + 1)
    (hclosed : ∀ g ∈ s.closed, g.stale.length ≤ kCheckTimeRoll + 2) :
    Watch cfg { s with
      lastRoll := now
      lastFlush := now
      startOfPeriod := period now
      file := some (File.new cfg now) } (File.new cfg now) 0 where
  file := rfl
  pos := h0
  opened := rfl
  start := rfl
  roll_le := hnow
  roll_le_flush := le_refl now
  times := fun x hx => by cases hx
  flushed_le := le_refl 0
  stale_le := Nat.zero_le _
  late_le := Nat.zero_le _
  count_le := hcount
  closed := hclosed

/-- The line is in the file, and nothing else has been done. -/
theorem append (hw : Watch cfg s f 0) (line : List Char) (writes : List ℕ) {roll : ℤ}
    (hnow : s.clock ≤ now) (hroll : now ≤ roll) :
    Watch cfg { s with file := some (f.append now line writes), clock := roll }
      (f.append now line writes) 1 where
  file := rfl
  pos := hw.pos
  opened := hw.opened
  start := hw.start
  roll_le := hw.roll_le.trans (hnow.trans hroll)
  roll_le_flush := hw.roll_le_flush
  times := by
    intro x hx
    change s.lastRoll ≤ x.time ∧ x.time ≤ roll
    rcases List.mem_append.1 hx with hx | hx
    · have := hw.times x hx
      omega
    · rw [List.mem_singleton.1 hx]
      have := hw.roll_le
      change s.lastRoll ≤ now ∧ now ≤ roll
      omega
  flushed_le := by
    have := hw.flushed_le
    simp only [File.append, List.length_append]
    omega
  stale_le := by
    have := hw.stale_le
    have happend := stale_append f now line writes
    change _ ≤ s.count + 1
    omega
  late_le := by
    have := hw.late_le
    have happend : (s.late cfg (f.append now line writes)).length ≤ (s.late cfg f).length + 1 :=
      late_append hw.flushed_le now line writes
    change (s.late cfg (f.append now line writes)).length ≤ s.count + 1
    omega
  count_le := hw.count_le
  closed := hw.closed

/-- If the day has not changed, no line is of another one. -/
theorem stale_eq_nil (hw : Watch cfg s f slack) (hlast : ∀ x ∈ f.lines, x.time ≤ now)
    (h : period now = s.startOfPeriod) : f.stale = [] := by
  refine List.filter_eq_nil_iff.2 fun x hx => ?_
  have hpos := hw.pos
  have hge := (hw.times x hx).1
  have h1 := period_mono hpos.le hge
  have h2 := period_mono (hpos.le.trans hge) (hlast x hx)
  rw [hw.start] at h
  rw [hw.opened, decide_eq_true_eq, not_not]
  exact le_antisymm (h ▸ h2) h1

/-- If the last flush was not long ago, no line came long after it. -/
theorem late_eq_nil (hlast : ∀ x ∈ f.lines, x.time ≤ now)
    (h : now - s.lastFlush ≤ cfg.flushInterval) : s.late cfg f = [] := by
  refine List.filter_eq_nil_iff.2 fun x hx => ?_
  have := hlast x (List.mem_of_mem_drop hx)
  rw [decide_eq_true_eq]
  omega

/-- After a flush nothing is left to be flushed. -/
theorem flush (hw : Watch cfg s f slack) {count : ℕ} (hcount : count ≤ kCheckTimeRoll + 1)
    (hstale : f.stale.length ≤ count) {lastFlush : ℤ} (hflush : s.lastRoll ≤ lastFlush) :
    Watch cfg { s with count := count, lastFlush := lastFlush, file := some f.flush }
      f.flush 0 where
  file := rfl
  pos := hw.pos
  opened := hw.opened
  start := hw.start
  roll_le := hw.roll_le
  roll_le_flush := hflush
  times := hw.times
  flushed_le := le_refl _
  stale_le := hstale
  late_le := by
    change (List.filter _ (f.lines.drop f.lines.length)).length ≤ _
    rw [List.drop_length]
    exact Nat.zero_le _
  count_le := hcount
  closed := hw.closed

/-- The line is counted, or the count starts again. -/
theorem recount (hw : Watch cfg s f slack) {count : ℕ} (hcount : count ≤ kCheckTimeRoll + 1)
    (hstale : f.stale.length ≤ count) (hlate : (s.late cfg f).length ≤ count) :
    Watch cfg { s with count := count } f 0 where
  file := hw.file
  pos := hw.pos
  opened := hw.opened
  start := hw.start
  roll_le := hw.roll_le
  roll_le_flush := hw.roll_le_flush
  times := hw.times
  flushed_le := hw.flushed_le
  stale_le := hstale
  late_le := hlate
  count_le := hcount
  closed := hw.closed

/-- The file is replaced; the lines of another day that it holds are those that were counted and the
last one. -/
theorem replace (hw : Watch cfg s f 1) {count : ℕ} (hcount : count ≤ kCheckTimeRoll + 1)
    (hlt : s.lastRoll < s.clock) :
    Watch cfg (State.rollFile cfg { s with count := count, file := some f } s.clock)
      (File.new cfg s.clock) 0 := by
  rw [rollFile_of_lt (by exact hlt)]
  refine Watch.new (s := { s with count := count, closed := s.closed ++ [f.flush] })
    (hw.pos.trans hlt) (le_refl _) hcount fun g hg => ?_
  rcases List.mem_append.1 hg with hg | hg
  · exact hw.closed g hg
  · rw [List.mem_singleton.1 hg]
    have hstale : f.flush.stale.length ≤ s.count + 1 := hw.stale_le
    exact hstale.trans (Nat.succ_le_succ hw.count_le)

end Watch

/-- The line of a call is looked at: it is counted, or the file is changed or flushed. -/
theorem Watch.call (hi : 0 ≤ cfg.flushInterval) {f : File} (hw : Watch cfg s f 0)
    (line : List Char) (writes : List ℕ) {roll : ℤ} (hnow : s.clock ≤ now) (hroll : now ≤ roll) :
    ∃ g, Watch cfg (s.append cfg f line writes now roll) g 0 ∧
      (cfg.rollSize < g.writtenBytes →
        (s.append cfg f line writes now roll).clock = g.opened) := by
  have hu := hw.append line writes hnow hroll
  have hlast : ∀ x ∈ (f.append now line writes).lines, x.time ≤ now := by
    intro x hx
    rcases List.mem_append.1 hx with hx | hx
    · have := (hw.times x hx).2
      omega
    · rw [List.mem_singleton.1 hx]
  have hlastRoll := hw.roll_le
  have hcount := hw.count_le
  rcases append_cases cfg s f line writes now roll with
    ⟨hbig, ht⟩ | ⟨hsmall, hskip, ht⟩ | ⟨hsmall, hday, ht⟩ | ⟨hsmall, hday, ht⟩ |
      ⟨hsmall, hday, hrecent, ht⟩
  · rcases lt_or_ge s.lastRoll roll with hlt | hle
    · rw [ht]
      exact ⟨_, hu.replace hcount hlt, fun hlarge => absurd hlarge (Nat.not_lt_zero _)⟩
    · -- The second of the opening still lasts, so the file stays.
      have hsame : now = s.lastRoll := by omega
      have hstale := hu.stale_eq_nil hlast (by rw [hsame]; exact hw.start.symm)
      have hlate : s.late cfg (f.append now line writes) = [] :=
        Watch.late_eq_nil hlast (by
          have := hw.roll_le_flush
          omega)
      rw [ht, rollFile_of_le (by exact hle)]
      refine ⟨_, hu.recount hcount ?_ ?_, ?_⟩
      · rw [hstale]
        exact Nat.zero_le _
      · change (s.late cfg (f.append now line writes)).length ≤ s.count
        rw [hlate]
        exact Nat.zero_le _
      · intro _
        change roll = f.opened
        rw [hw.opened]
        omega
  · rw [ht]
    exact ⟨_, hu.recount (Nat.succ_le_succ hskip) hu.stale_le hu.late_le,
      fun hlarge => absurd hlarge (not_lt.2 hsmall)⟩
  · have hlt : s.lastRoll < roll := by
      by_contra hge
      have hsame : now = s.lastRoll := by omega
      rw [hsame] at hday
      exact hday hw.start.symm
    rw [ht]
    exact ⟨_, hu.replace (Nat.zero_le _) hlt, fun hlarge => absurd hlarge (Nat.not_lt_zero _)⟩
  · have hstale := hu.stale_eq_nil hlast hday
    rw [ht]
    refine ⟨_, hu.flush (Nat.zero_le _) ?_ ?_, fun hlarge => absurd hlarge (not_lt.2 hsmall)⟩
    · rw [hstale]
      exact Nat.zero_le _
    · exact hlastRoll.trans hnow
  · have hstale := hu.stale_eq_nil hlast hday
    have hlate : s.late cfg (f.append now line writes) = [] :=
      Watch.late_eq_nil hlast hrecent
    rw [ht]
    refine ⟨_, hu.recount (Nat.zero_le _) ?_ ?_, fun hlarge => absurd hlarge (not_lt.2 hsmall)⟩
    · rw [hstale]
      exact Nat.zero_le _
    · change (s.late cfg (f.append now line writes)).length ≤ 0
      rw [hlate]
      exact Nat.zero_le _

/-- **How late the log can be**, if it starts after the epoch, the clock does not go back and
`flushInterval_` is not negative: the open file is too large only when its last line came in the
second of its opening. No file holds more than `kCheckTimeRoll_ + 2` lines of another day than that
of its opening, and no more than `kCheckTimeRoll_ + 1` lines wait to be flushed that came more than
`flushInterval_` after the last flush. -/
theorem roll_bounds (cfg : Config) (h0 : 0 < now) (hi : 0 ≤ cfg.flushInterval)
    (h : Reach (Moves (step cfg)) Forward (State.init cfg now) s) :
    ∃ f, s.file = some f ∧ (cfg.rollSize < f.writtenBytes → s.clock = f.opened) ∧
      (∀ g ∈ s.files, g.stale.length ≤ kCheckTimeRoll + 2) ∧
      (s.late cfg f).length ≤ kCheckTimeRoll + 1 := by
  obtain ⟨f, hw, hbig⟩ := h.invariant (I := fun s => ∃ f, Watch cfg s f 0 ∧
    (cfg.rollSize < f.writtenBytes → s.clock = f.opened)) (by
      refine ⟨File.new cfg now, ?_, fun hlarge => absurd hlarge (Nat.not_lt_zero _)⟩
      rw [State.init, rollFile_of_lt (by exact h0)]
      exact Watch.new (s := ⟨0, 0, 0, 0, none, [], now⟩) h0 (le_refl now) (Nat.zero_le _)
        fun g hg => by cases hg) (by
      rintro x a y ⟨f, hw, hbig⟩ hclock hstep
      cases a with
      | append line writes now roll =>
        have hcall : step cfg x (.append line writes now roll) =
            some (.ok (x.append cfg f line writes now roll)) := by rw [step, hw.file]
        rw [← Except.ok.inj (Option.some.inj (hcall.symm.trans hstep))]
        exact hw.call hi line writes hclock.1 hclock.2
      | flush =>
        have hcall : step cfg x .flush = some (.ok { x with file := some f.flush }) := by
          rw [step, hw.file]
        rw [← Except.ok.inj (Option.some.inj (hcall.symm.trans hstep))]
        exact ⟨f.flush, hw.flush hw.count_le hw.stale_le hw.roll_le_flush, hbig⟩)
  have hcount := hw.count_le
  refine ⟨f, hw.file, hbig, ?_, hw.late_le.trans hcount⟩
  intro g hg
  rw [State.files, hw.file] at hg
  rcases List.mem_append.1 hg with hg | hg
  · exact hw.closed g hg
  · rw [List.mem_singleton.1 hg]
    have := hw.stale_le
    omega

theorem roll_bounds_small : ∃ s f, Reach (Moves (step small)) Forward (State.init small 1000) s ∧
    s.file = some f ∧ (small.rollSize < f.writtenBytes → s.clock = f.opened) := by
  obtain ⟨s, hs, -⟩ := exists_reach_of_run (step small) Forward (State.init small 1000)
    [.append "first\n".toList [4, 2] 1000 1000] (fun s => decide (s.closed = [])) (by decide)
  obtain ⟨f, hf, hbig, -⟩ := roll_bounds small (by decide) (by decide) hs
  exact ⟨s, f, hs, hf, hbig⟩

end LogFile
