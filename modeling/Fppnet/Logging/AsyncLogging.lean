import Fppnet.Library.Run
import Fppnet.Library.Checked
import Fppnet.Logging.LogFile

/-!
# `AsyncLoggingDoubleBuffering`

A log with one thread that writes (`src/base/logging/AsyncLoggingDoubleBuffering.h`). `append` puts
a line into `currentBuffer_`, and a full buffer behind `buffers_`; the thread takes all of them at
once, writes them to a `LogFile`, and gives two of them back as spare buffers. A condition variable
that is waited for with a time limit may be left at any time, so `notify` has no effect of its own.

* `never_fails`: in no interleaving an assertion is violated or an empty pointer used, and the
  thread only waits when there is something to write;
* `stop_ends`: the thread makes at most four steps after `stop`;
* `lines_logged`: at any time every line that fits into a buffer is in one buffer, whole and in
  order;
* `files_exact`: what is in the files of the `LogFile` when the thread has ended, if `fwrite` has
  written all that it was given.
-/

open Runs Checked LogStream

namespace AsyncLoggingDoubleBuffering

variable {SIZE : ℕ}

/-- Where the thread is. -/
inductive Phase
  | idle
  /-- started, in front of `assert(running_ == true)` -/
  | entering
  /-- in front of `while (running_)` -/
  | inLoop
  /-- in front of the mutex -/
  | locking
  /-- in `waitForSeconds` -/
  | asleep
  /-- behind the block with the mutex -/
  | writing
  | ended
  deriving DecidableEq

/-- Where the caller of `start` and `stop` is. -/
inductive Caller
  | idle
  /-- at `latch_` -/
  | waiting
  | started
  /-- in `join` -/
  | joining
  | stopped
  deriving DecidableEq

/-- The members, and the variables of the thread. `output` is what was called on the `LogFile`, and
`batches` a record of the lists of buffers that the thread has finished. -/
structure State (SIZE : ℕ) where
  running : Bool
  caller : Caller
  latch : ℕ
  thread : Phase
  currentBuffer : Option (FixedBuffer SIZE)
  nextBuffer : Option (FixedBuffer SIZE)
  buffers : List (FixedBuffer SIZE)
  newBuffer1 : Option (FixedBuffer SIZE)
  newBuffer2 : Option (FixedBuffer SIZE)
  buffersToWrite : List (FixedBuffer SIZE)
  output : List LogFile.Call
  batches : List (List (FixedBuffer SIZE))

/-- The constructor. -/
def State.init : State SIZE where
  running := false
  caller := .idle
  latch := 1
  thread := .idle
  currentBuffer := some .new
  nextBuffer := some .new
  buffers := []
  newBuffer1 := none
  newBuffer2 := none
  buffersToWrite := []
  output := []
  batches := []

inductive Failure
  /-- an empty pointer is used -/
  | nullPointer
  /-- `assert(running_ == true)` -/
  | notRunning
  /-- one of the assertions at the top of the loop -/
  | atTop
  /-- `assert(!buffersToWrite.empty())` -/
  | nothingToWrite
  deriving DecidableEq

/-- The steps: `append` by any thread, `start` and `stop` in two steps each, and the steps of the
logging thread. -/
inductive Label
  | append (line : List Char)
  | start
  | started
  | stop
  | join
  | enter
  | check
  | lock
  | wake
  | write
  deriving DecidableEq

/-- `append` -/
def append (s : State SIZE) (line : List Char) : Except Failure (State SIZE) :=
  match s.currentBuffer with
  | none => .error .nullPointer
  | some current =>
    if line.length < current.avail then
      .ok { s with currentBuffer := some (current.append line) }
    else
      match s.nextBuffer with
      | some next => .ok { s with
          buffers := s.buffers ++ [current]
          currentBuffer := some (next.append line)
          nextBuffer := none }
      | none => .ok { s with
          buffers := s.buffers ++ [current]
          currentBuffer := some (FixedBuffer.new.append line) }

/-- A spare buffer, without anything in it. -/
def isFresh (b : Option (FixedBuffer SIZE)) : Bool := b.any fun b => b.length = 0

/-- The head of the loop. -/
def check (s : State SIZE) : Except Failure (State SIZE) :=
  if s.running then do
    require (isFresh s.newBuffer1) .atTop
    require (isFresh s.newBuffer2) .atTop
    require (s.buffersToWrite = []) .atTop
    return { s with thread := .locking }
  else .ok { s with output := s.output ++ [.flush], thread := .ended }

/-- The rest of the block with the mutex: the thread takes the buffers. -/
def takeBuffers (s : State SIZE) : Except Failure (State SIZE) :=
  match s.currentBuffer with
  | none => .error .nullPointer
  | some current =>
    .ok { s with
      thread := .writing
      currentBuffer := s.newBuffer1
      newBuffer1 := none
      buffersToWrite := s.buffers ++ [current]
      buffers := s.buffersToWrite
      nextBuffer := if s.nextBuffer.isNone then s.newBuffer2 else s.nextBuffer
      newBuffer2 := if s.nextBuffer.isNone then none else s.newBuffer2 }

def dropMsg : List Char := "Dropped log messages\n".toList

/-- What is left of the buffers when there are too many. -/
def keep (batch : List (FixedBuffer SIZE)) : List (FixedBuffer SIZE) :=
  if 25 < batch.length then batch.drop (batch.length - 2) else batch

/-- What is called on the file for a list of buffers, up to the `flush`. -/
def emit (batch : List (FixedBuffer SIZE)) : List LogFile.Call :=
  (if 25 < batch.length then [.append dropMsg] else []) ++
    (keep batch).map (fun b => .append b.data) ++ [.flush]

/-- A spare buffer is filled up from the end of the list. -/
def refill (slot : Option (FixedBuffer SIZE)) (rest : List (FixedBuffer SIZE)) :
    Except Failure (Option (FixedBuffer SIZE) × List (FixedBuffer SIZE)) :=
  match slot with
  | some b => .ok (some b, rest)
  | none =>
    match rest.getLast? with
    | none => .error .nothingToWrite
    | some b => .ok (some b.reset, rest.dropLast)

/-- The rest of the loop. -/
def write (s : State SIZE) : Except Failure (State SIZE) := do
  require (s.buffersToWrite ≠ []) .nothingToWrite
  let kept := keep s.buffersToWrite
  let rest := if 2 < kept.length then kept.take 2 else kept
  let (newBuffer1, rest) ← refill s.newBuffer1 rest
  let (newBuffer2, _) ← refill s.newBuffer2 rest
  return { s with
    thread := .inLoop
    newBuffer1 := newBuffer1
    newBuffer2 := newBuffer2
    buffersToWrite := []
    output := s.output ++ emit s.buffersToWrite
    batches := s.batches ++ [s.buffersToWrite] }

/-- One step. -/
def step (s : State SIZE) : Label → Option (Except Failure (State SIZE))
  | .append line => some (append s line)
  | .start =>
    if s.caller = .idle then
      some (.ok { s with running := true, caller := .waiting, thread := .entering })
    else none
  | .started =>
    if s.caller = .waiting ∧ s.latch = 0 then some (.ok { s with caller := .started }) else none
  | .stop =>
    if s.caller = .started then some (.ok { s with running := false, caller := .joining })
    else none
  | .join =>
    if s.caller = .joining ∧ s.thread = .ended then some (.ok { s with caller := .stopped })
    else none
  | .enter =>
    if s.thread = .entering then
      some (if s.running then .ok { s with
          thread := .inLoop
          latch := s.latch - 1
          newBuffer1 := some .new
          newBuffer2 := some .new }
        else .error .notRunning)
    else none
  | .check => if s.thread = .inLoop then some (check s) else none
  | .lock =>
    if s.thread = .locking then
      some (if s.buffers ≠ [] then .ok { s with thread := .asleep } else takeBuffers s)
    else none
  | .wake => if s.thread = .asleep then some (takeBuffers s) else none
  | .write => if s.thread = .writing then some (write s) else none

/-! ### The invariant -/

variable {s t : State SIZE}

/-- The line of `append`, if it fits into a buffer at all. -/
def Label.line (SIZE : ℕ) : Label → Option (List Char)
  | .append line => if line.length < SIZE then some line else none
  | _ => none

/-- A step of the logging thread. -/
def Label.isThread : Label → Bool
  | .enter | .check | .lock | .wake | .write => true
  | _ => false

/-- A step at which the thread may take the buffers. -/
def Label.takes : Label → Bool
  | .lock | .wake => true
  | _ => false

/-- How many steps the thread is from its end once `running_` is false. -/
def Phase.rank : Phase → ℕ
  | .ended => 0
  | .inLoop => 1
  | .writing => 2
  | .asleep => 3
  | .locking => 4
  | .entering | .idle => 5

/-- The lines that the thread has taken. -/
def State.logged (s : State SIZE) : List (List Char) :=
  (s.batches.flatten ++ s.buffersToWrite).flatMap (·.texts)

/-- The lines that it has not taken yet. -/
def State.pending (s : State SIZE) : List (List Char) :=
  (s.buffers ++ s.currentBuffer.toList).flatMap (·.texts)

/-- A spare buffer is there, and has nothing in it. -/
def Spare (b : Option (FixedBuffer SIZE)) : Prop := ∃ b', b = some b' ∧ b'.texts = []

/-- What holds of the variables of the thread, by where it is. -/
def State.Thread (s : State SIZE) : Prop :=
  match s.thread with
  | .idle => s.caller = .idle ∧ s.latch = 1 ∧ s.buffersToWrite = []
  | .entering =>
    s.caller = .waiting ∧ s.latch = 1 ∧ s.running = true ∧ s.buffersToWrite = []
  | .inLoop | .locking =>
    s.caller ≠ .idle ∧ Spare s.newBuffer1 ∧ Spare s.newBuffer2 ∧ s.buffersToWrite = []
  | .asleep =>
    s.caller ≠ .idle ∧ Spare s.newBuffer1 ∧ Spare s.newBuffer2 ∧ s.buffersToWrite = [] ∧
      s.buffers ≠ []
  | .writing =>
    s.caller ≠ .idle ∧ s.newBuffer1 = none ∧ s.buffersToWrite ≠ [] ∧
      (Spare s.newBuffer2 ∨ s.newBuffer2 = none ∧ 2 ≤ s.buffersToWrite.length)
  | .ended => s.caller ≠ .idle ∧ s.buffersToWrite = []

/-- The file after the `flush` behind the loop. -/
def State.lastFlush (s : State SIZE) : List LogFile.Call :=
  if s.thread = .ended then [.flush] else []

/-- `nextBuffer_` is only empty when there is a full buffer, so that one comes back for it. -/
structure Inv (s : State SIZE) : Prop where
  current : ∃ b, s.currentBuffer = some b
  next : Spare s.nextBuffer ∨ s.nextBuffer = none ∧ s.buffers ≠ []
  thread : s.Thread
  output : s.output = s.batches.flatMap emit ++ s.lastFlush
  stopped : s.caller = .joining ∨ s.caller = .stopped → s.running = false

theorem Spare.isFresh {b : Option (FixedBuffer SIZE)} (h : Spare b) : isFresh b = true := by
  obtain ⟨b, rfl, hb⟩ := h
  simp [AsyncLoggingDoubleBuffering.isFresh, FixedBuffer.length, FixedBuffer.data, hb]

theorem spare_new : Spare (some (FixedBuffer.new : FixedBuffer SIZE)) := ⟨_, rfl, rfl⟩

theorem avail_of_empty {b : FixedBuffer SIZE} (h : b.texts = []) : b.avail = SIZE := by
  simp [FixedBuffer.avail, FixedBuffer.length, FixedBuffer.data, h]

/-- A line is put into an empty buffer. -/
theorem texts_append_empty {b : FixedBuffer SIZE} (h : b.texts = []) (line : List Char) :
    (b.append line).texts = ((Label.append line).line SIZE).toList := by
  rw [append_texts, h, avail_of_empty h, Label.line]
  simp only [Nat.succ_le_iff]
  split_ifs <;> rfl

/-- `append` works, and the line is behind all others if it fits into a buffer. -/
theorem append_ok (hs : Inv s) (line : List Char) : ∃ buffers current next,
    append s line = .ok { s with
      buffers := buffers, currentBuffer := some current, nextBuffer := next } ∧
    (Spare next ∨ next = none ∧ buffers ≠ []) ∧ (s.buffers ≠ [] → buffers ≠ []) ∧
    (buffers ++ [current]).flatMap (·.texts) =
      s.pending ++ ((Label.append line).line SIZE).toList := by
  obtain ⟨b, hb⟩ := hs.current
  have hpending : s.pending = s.buffers.flatMap (·.texts) ++ b.texts := by
    simp [State.pending, hb]
  unfold append
  rw [hb, hpending]
  rcases lt_or_ge line.length b.avail with hroom | hfull
  · refine ⟨s.buffers, b.append line, s.nextBuffer, if_pos hroom, hs.next, id, ?_⟩
    have hfits : line.length < SIZE := hroom.trans_le (Nat.sub_le _ _)
    rw [List.flatMap_append, List.flatMap_singleton, append_texts,
      if_pos (Nat.succ_le_iff.2 hroom), Label.line, if_pos hfits, List.append_assoc]
    rfl
  · have hne : s.buffers ++ [b] ≠ [] := List.append_ne_nil_of_right_ne_nil _ (by simp)
    rcases hs.next with ⟨next, hnext, hempty⟩ | ⟨hnext, -⟩
    · refine ⟨s.buffers ++ [b], next.append line, none, ?_, Or.inr ⟨rfl, hne⟩, fun _ => hne, ?_⟩
      · rw [hnext]
        exact if_neg (not_lt.2 hfull)
      · rw [List.flatMap_append, List.flatMap_append, List.flatMap_singleton,
          List.flatMap_singleton, texts_append_empty hempty]
    · refine ⟨s.buffers ++ [b], FixedBuffer.new.append line, none, ?_, Or.inr ⟨rfl, hne⟩,
        fun _ => hne, ?_⟩
      · rw [hnext]
        exact if_neg (not_lt.2 hfull)
      · rw [List.flatMap_append, List.flatMap_append, List.flatMap_singleton,
          List.flatMap_singleton, texts_append_empty FixedBuffer.texts_new]

/-- The thread takes all buffers, and leaves an empty one as `currentBuffer_`. -/
theorem takeBuffers_ok (hs : Inv s) (hcaller : s.caller ≠ .idle) (h1 : Spare s.newBuffer1)
    (h2 : Spare s.newBuffer2) (hw : s.buffersToWrite = []) (hthread : s.thread ≠ .ended) :
    ∃ u, takeBuffers s = .ok u ∧ Inv u ∧ u.thread = .writing ∧ u.caller = s.caller ∧
      u.logged = s.logged ++ s.pending ∧ u.pending = [] := by
  obtain ⟨b, hb⟩ := hs.current
  obtain ⟨new, hnew, hempty⟩ := h1
  refine ⟨{ s with
    thread := .writing
    currentBuffer := s.newBuffer1
    newBuffer1 := none
    buffersToWrite := s.buffers ++ [b]
    buffers := s.buffersToWrite
    nextBuffer := if s.nextBuffer.isNone then s.newBuffer2 else s.nextBuffer
    newBuffer2 := if s.nextBuffer.isNone then none else s.newBuffer2 }, ?_, ?_, rfl, rfl, ?_, ?_⟩
  · rw [takeBuffers, hb]
  · refine ⟨⟨new, hnew⟩, ?_, ⟨hcaller, rfl, ?_, ?_⟩, ?_, hs.stopped⟩
    · rcases hs.next with ⟨next, hnext, hfresh⟩ | ⟨hnext, -⟩
      · exact Or.inl ⟨next, by simp [hnext], hfresh⟩
      · exact Or.inl (by simpa [hnext] using h2)
    · exact List.append_ne_nil_of_right_ne_nil _ (by simp)
    · rcases hs.next with ⟨next, hnext, -⟩ | ⟨hnext, hfull⟩
      · exact Or.inl (by simpa [hnext] using h2)
      · have := List.length_pos_iff.2 hfull
        refine Or.inr ⟨by simp [hnext], ?_⟩
        rw [List.length_append, List.length_singleton]
        omega
    · have hflush : s.lastFlush = [] := if_neg hthread
      have houtput := hs.output
      rw [hflush] at houtput
      exact houtput
  · simp [State.logged, State.pending, hb, hw]
  · simp [State.pending, hnew, hempty, hw]

theorem keep_ne_nil {batch : List (FixedBuffer SIZE)} (h : batch ≠ []) : keep batch ≠ [] := by
  unfold keep
  split_ifs with hlarge
  · rw [ne_eq, List.drop_eq_nil_iff]
    omega
  · exact h

theorem two_le_keep {batch : List (FixedBuffer SIZE)} (h : 2 ≤ batch.length) :
    2 ≤ (keep batch).length := by
  unfold keep
  split_ifs
  · rw [List.length_drop]
    omega
  · exact h

/-- There is a buffer for an empty slot. -/
theorem refill_none {rest : List (FixedBuffer SIZE)} (h : rest ≠ []) :
    ∃ b, refill none rest = .ok (some b, rest.dropLast) ∧ b.texts = [] := by
  refine ⟨FixedBuffer.reset (rest.getLast h), ?_, FixedBuffer.texts_new⟩
  rw [refill, List.getLast?_eq_getLast_of_ne_nil h]

/-- The thread finds a buffer for every empty slot, and is at the top again. -/
theorem write_ok (hs : Inv s) (hthread : s.thread = .writing) : ∃ u, write s = .ok u ∧ Inv u ∧
    u.thread = .inLoop ∧ u.caller = s.caller ∧ u.logged = s.logged ∧ u.pending = s.pending := by
  have hphase := hs.thread
  rw [State.Thread, hthread] at hphase
  obtain ⟨hcaller, h1, hne, h2⟩ := hphase
  set kept := keep s.buffersToWrite with hkept
  set rest := if 2 < kept.length then kept.take 2 else kept with hrest
  have hlen : rest.length = min 2 kept.length := by
    rw [hrest]
    split_ifs
    · exact List.length_take
    · omega
  have hpos : 0 < kept.length := List.length_pos_iff.2 (keep_ne_nil hne)
  have hrest_ne : rest ≠ [] := List.length_pos_iff.1 (by omega)
  obtain ⟨b1, hb1, hempty1⟩ := refill_none hrest_ne
  obtain ⟨slot, rest', hslot, hspare⟩ : ∃ slot rest',
      refill s.newBuffer2 rest.dropLast = .ok (slot, rest') ∧ Spare slot := by
    rcases h2 with ⟨b2, hb2, hempty2⟩ | ⟨hnone, htwo⟩
    · exact ⟨some b2, rest.dropLast, by rw [hb2, refill], b2, rfl, hempty2⟩
    · have htwo' : 2 ≤ kept.length := two_le_keep htwo
      have hdrop : rest.dropLast ≠ [] := List.length_pos_iff.1 (by
        rw [List.length_dropLast]
        omega)
      obtain ⟨b2, hb2, hempty2⟩ := refill_none hdrop
      exact ⟨some b2, rest.dropLast.dropLast, by rw [hnone, hb2], b2, rfl, hempty2⟩
  refine ⟨{ s with
    thread := .inLoop
    newBuffer1 := some b1
    newBuffer2 := slot
    buffersToWrite := []
    output := s.output ++ emit s.buffersToWrite
    batches := s.batches ++ [s.buffersToWrite] }, ?_, ?_, rfl, rfl, ?_, rfl⟩
  · rw [write, require_of hne, ok_bind]
    simp only [← hkept, ← hrest, h1]
    rw [hb1, ok_bind]
    simp only [hslot, ok_bind, pure_eq_ok]
  · refine ⟨hs.current, hs.next, ⟨hcaller, ⟨b1, rfl, hempty1⟩, hspare, rfl⟩, ?_, hs.stopped⟩
    have hflush : s.lastFlush = [] := if_neg (by rw [hthread]; decide)
    have houtput := hs.output
    rw [hflush, List.append_nil] at houtput
    change s.output ++ emit s.buffersToWrite = (s.batches ++ [s.buffersToWrite]).flatMap emit ++ []
    rw [houtput, List.flatMap_append, List.flatMap_singleton, List.append_nil]
  · simp [State.logged]

theorem inv_init : Inv (State.init : State SIZE) :=
  ⟨⟨_, rfl⟩, Or.inl spare_new, ⟨rfl, rfl, rfl⟩, rfl, fun _ => rfl⟩

/-- `stop` has stored `running_ = false`. -/
def Stopping (s : State SIZE) : Prop := s.caller = .joining ∨ s.caller = .stopped

/-- What a step does to the lines, and to a thread that is to stop. -/
structure Tracks (s : State SIZE) (a : Label) (t : State SIZE) : Prop where
  inv : Inv t
  lines : t.logged ++ t.pending = s.logged ++ s.pending ++ (a.line SIZE).toList
  taken : t.logged = s.logged ∧ (a.takes = true → t.thread = .asleep) ∨
    a.takes = true ∧ t.logged = s.logged ++ s.pending
  asleep : s.thread = .asleep → a.takes = false → t.thread = .asleep
  stopping : Stopping s →
    Stopping t ∧ t.thread.rank + (if a.isThread then 1 else 0) ≤ s.thread.rank

/-- A step of the caller: it has no part in the lines. -/
theorem tracks_of_caller (hs : Inv s) {a : Label} (hline : a.line SIZE = none)
    (htakes : a.takes = false) (hthread : a.isThread = false) (caller : Caller) (running : Bool)
    (hphase : State.Thread { s with caller := caller, running := running })
    (hstopped : caller = .joining ∨ caller = .stopped → running = false)
    (hstop : Stopping s → caller = .joining ∨ caller = .stopped) :
    Tracks s a { s with caller := caller, running := running } where
  inv := ⟨hs.current, hs.next, hphase, hs.output, hstopped⟩
  lines := by
    rw [hline]
    exact (List.append_nil _).symm
  taken := Or.inl ⟨rfl, fun h => by rw [htakes] at h; cases h⟩
  asleep := fun h _ => h
  stopping := fun h => ⟨hstop h, by rw [hthread]; exact le_refl _⟩

/-- A step in which the thread goes on without the buffers. -/
theorem tracks_of_thread {a : Label} (ht : Inv t) (hline : a.line SIZE = none)
    (hlogged : t.logged = s.logged) (hpending : t.pending = s.pending)
    (htakes : a.takes = true → t.thread = .asleep) (hasleep : s.thread ≠ .asleep)
    (hcaller : t.caller = s.caller)
    (hrank : Stopping s → t.thread.rank < s.thread.rank) : Tracks s a t where
  inv := ht
  lines := by
    rw [hline, hlogged, hpending]
    exact (List.append_nil _).symm
  taken := Or.inl ⟨hlogged, htakes⟩
  asleep := fun h _ => absurd h hasleep
  stopping := by
    intro h
    have hlt := hrank h
    refine ⟨by unfold Stopping; rwa [hcaller], ?_⟩
    split_ifs <;> omega

/-- The caller goes on while the thread is in its loop, or has ended. -/
theorem thread_of_caller (h : s.Thread) (hidle : s.thread ≠ .idle)
    (hentering : s.thread ≠ .entering) {caller : Caller} (hcaller : caller ≠ .idle)
    (running : Bool) : State.Thread { s with caller := caller, running := running } := by
  unfold State.Thread at h ⊢
  cases hthread : s.thread with
  | idle => exact absurd hthread hidle
  | entering => exact absurd hthread hentering
  | _ =>
    rw [hthread] at h
    exact ⟨hcaller, h.2⟩

/-- The thread has left its first assertion behind when the caller has left `latch_`. -/
theorem thread_of_started (h : s.Thread) (hidle : s.caller ≠ .idle)
    (hwaiting : s.caller ≠ .waiting) :
    s.thread ≠ .idle ∧ s.thread ≠ .entering := by
  unfold State.Thread at h
  constructor
  · intro hthread
    rw [hthread] at h
    exact hidle h.1
  · intro hthread
    rw [hthread] at h
    exact hwaiting h.1

/-- The thread takes the buffers. -/
theorem tracks_of_take (hs : Inv s) {a : Label} (htakes : a.takes = true)
    (hthread : s.thread = .locking ∨ s.thread = .asleep) (hcaller : s.caller ≠ .idle)
    (h1 : Spare s.newBuffer1) (h2 : Spare s.newBuffer2) (hw : s.buffersToWrite = []) :
    ∃ u, takeBuffers s = .ok u ∧ Tracks s a u := by
  have hended : s.thread ≠ .ended := by
    intro h
    rw [h] at hthread
    rcases hthread with h | h <;> cases h
  obtain ⟨u, hu, hinv, huthread, hucaller, hlogged, hpending⟩ :=
    takeBuffers_ok hs hcaller h1 h2 hw hended
  have hline : a.line SIZE = none := by
    cases a with
    | append line => cases htakes
    | _ => rfl
  refine ⟨u, hu, ⟨hinv, ?_, Or.inr ⟨htakes, hlogged⟩, ?_, ?_⟩⟩
  · rw [hlogged, hpending, hline]
    simp
  · intro _ h
    rw [htakes] at h
    cases h
  · intro hstop
    refine ⟨by unfold Stopping; rwa [hucaller], ?_⟩
    have hone : (if a.isThread then 1 else 0) ≤ 1 := by split_ifs <;> decide
    have hrank : 3 ≤ s.thread.rank := by rcases hthread with h | h <;> rw [h] <;> decide
    rw [huthread]
    change 2 + _ ≤ _
    omega

/-- `append` puts the line behind all others. -/
theorem tracks_append (hs : Inv s) (line : List Char) :
    ∃ t, append s line = .ok t ∧ Tracks s (.append line) t := by
  have hphase := hs.thread
  obtain ⟨buffers, current, next, hok, hnext, hne, hlines⟩ := append_ok hs line
  refine ⟨_, hok, ⟨⟨current, rfl⟩, hnext, ?_, hs.output, hs.stopped⟩, ?_, ?_, ?_, ?_⟩
  · unfold State.Thread at hphase ⊢
    cases hthread : s.thread with
    | asleep =>
      rw [hthread] at hphase
      obtain ⟨hcaller, h1, h2, hw, hfull⟩ := hphase
      exact ⟨hcaller, h1, h2, hw, hne hfull⟩
    | _ =>
      rw [hthread] at hphase
      exact hphase
  · rw [List.append_assoc, ← hlines]
    rfl
  · exact Or.inl ⟨rfl, fun htakes => by cases htakes⟩
  · exact fun hasleep _ => hasleep
  · exact fun hstop => ⟨hstop, le_refl _⟩

/-- `start` finds a thread that has not been started. -/
theorem tracks_start (hs : Inv s) (hidle : s.caller = .idle) :
    Tracks s .start { s with running := true, caller := .waiting, thread := .entering } := by
  have hphase := hs.thread
  have hthread : s.thread = .idle := by
    unfold State.Thread at hphase
    cases hthread : s.thread with
    | idle => rfl
    | entering =>
      rw [hthread, hidle] at hphase
      cases hphase.1
    | _ =>
      rw [hthread] at hphase
      exact absurd hidle hphase.1
  rw [State.Thread, hthread] at hphase
  have houtput := hs.output
  rw [State.lastFlush, hthread] at houtput
  refine ⟨⟨hs.current, hs.next, ⟨rfl, hphase.2.1, rfl, hphase.2.2⟩, houtput, ?_⟩,
    (List.append_nil _).symm, Or.inl ⟨rfl, fun h => by cases h⟩, ?_, ?_⟩
  · rintro (h | h) <;> cases h
  · intro h
    rw [hthread] at h
    cases h
  · intro h
    rw [Stopping, hidle] at h
    rcases h with h | h <;> cases h

/-- At the top of its loop the thread passes its assertions, or ends with a `flush`. -/
theorem tracks_check (hs : Inv s) (hthread : s.thread = .inLoop) :
    ∃ t, check s = .ok t ∧ Tracks s .check t := by
  have hphase := hs.thread
  rw [State.Thread, hthread] at hphase
  obtain ⟨hcaller, h1, h2, hw⟩ := hphase
  have houtput := hs.output
  rw [State.lastFlush, hthread] at houtput
  by_cases hrunning : s.running = true
  · refine ⟨{ s with thread := .locking }, ?_, tracks_of_thread ⟨hs.current, hs.next,
      ⟨hcaller, h1, h2, hw⟩, houtput, hs.stopped⟩ rfl rfl rfl (fun h => by cases h)
      (by rw [hthread]; decide) rfl ?_⟩
    · rw [check, if_pos hrunning, require_of h1.isFresh, ok_bind, require_of h2.isFresh, ok_bind,
        require_of hw, ok_bind, pure_eq_ok]
    · intro hstop
      have := hs.stopped hstop
      rw [hrunning] at this
      cases this
  · refine ⟨_, if_neg hrunning, tracks_of_thread ⟨hs.current, hs.next, ⟨hcaller, hw⟩, ?_,
      hs.stopped⟩ rfl rfl rfl (fun h => by cases h) (by rw [hthread]; decide) rfl ?_⟩
    · change s.output ++ [.flush] = s.batches.flatMap emit ++ [.flush]
      rw [houtput]
      simp
    · intro _
      rw [hthread]
      change Phase.ended.rank < Phase.inLoop.rank
      decide

/-- No step fails in a state with the invariant, and every step keeps it. -/
theorem step_ok (hs : Inv s) (a : Label) {r : Except Failure (State SIZE)}
    (h : step s a = some r) : ∃ t, r = .ok t ∧ Tracks s a t := by
  have hphase := hs.thread
  cases a with
  | append line =>
    obtain ⟨t, hok, ht⟩ := tracks_append hs line
    rw [step, hok] at h
    cases h
    exact ⟨t, rfl, ht⟩
  | start =>
    rw [step, Option.ite_none_right_eq_some, Option.some.injEq] at h
    obtain ⟨hidle, rfl⟩ := h
    exact ⟨_, rfl, tracks_start hs hidle⟩
  | started =>
    rw [step, Option.ite_none_right_eq_some, Option.some.injEq] at h
    obtain ⟨⟨hwait, hlatch⟩, rfl⟩ := h
    have hidle : s.thread ≠ .idle := by
      intro hthread
      rw [State.Thread, hthread, hwait] at hphase
      cases hphase.1
    have hentering : s.thread ≠ .entering := by
      intro hthread
      rw [State.Thread, hthread, hlatch] at hphase
      cases hphase.2.1
    refine ⟨_, rfl, tracks_of_caller hs rfl rfl rfl .started s.running
      (thread_of_caller hphase hidle hentering (by decide) _) ?_ ?_⟩
    · rintro (h | h) <;> cases h
    · intro h
      rw [Stopping, hwait] at h
      rcases h with h | h <;> cases h
  | stop =>
    rw [step, Option.ite_none_right_eq_some, Option.some.injEq] at h
    obtain ⟨hstarted, rfl⟩ := h
    obtain ⟨hidle, hentering⟩ := thread_of_started hphase (by rw [hstarted]; decide)
      (by rw [hstarted]; decide)
    exact ⟨_, rfl, tracks_of_caller hs rfl rfl rfl .joining false
      (thread_of_caller hphase hidle hentering (by decide) _) (fun _ => rfl) fun _ => Or.inl rfl⟩
  | join =>
    rw [step, Option.ite_none_right_eq_some, Option.some.injEq] at h
    obtain ⟨⟨hjoin, hended⟩, rfl⟩ := h
    exact ⟨_, rfl, tracks_of_caller hs rfl rfl rfl .stopped s.running
      (thread_of_caller hphase (by rw [hended]; decide) (by rw [hended]; decide) (by decide) _)
      (fun _ => hs.stopped (Or.inl hjoin)) fun _ => Or.inr rfl⟩
  | enter =>
    rw [step, Option.ite_none_right_eq_some, Option.some.injEq] at h
    obtain ⟨hthread, rfl⟩ := h
    rw [State.Thread, hthread] at hphase
    obtain ⟨hcaller, -, hrunning, hw⟩ := hphase
    have houtput := hs.output
    rw [State.lastFlush, hthread] at houtput
    rw [if_pos hrunning]
    refine ⟨_, rfl, tracks_of_thread ⟨hs.current, hs.next, ⟨?_, spare_new, spare_new, hw⟩, houtput,
      hs.stopped⟩ rfl rfl rfl (fun h => by cases h) (by rw [hthread]; decide) rfl ?_⟩
    · rw [hcaller]
      decide
    · intro _
      rw [hthread]
      change Phase.inLoop.rank < Phase.entering.rank
      decide
  | check =>
    rw [step, Option.ite_none_right_eq_some, Option.some.injEq] at h
    obtain ⟨hthread, rfl⟩ := h
    exact tracks_check hs hthread
  | lock =>
    rw [step, Option.ite_none_right_eq_some, Option.some.injEq] at h
    obtain ⟨hthread, rfl⟩ := h
    rw [State.Thread, hthread] at hphase
    obtain ⟨hcaller, h1, h2, hw⟩ := hphase
    have houtput := hs.output
    rw [State.lastFlush, hthread] at houtput
    by_cases hfull : s.buffers ≠ []
    · rw [if_pos hfull]
      refine ⟨_, rfl, tracks_of_thread ⟨hs.current, hs.next, ⟨hcaller, h1, h2, hw, hfull⟩, houtput,
        hs.stopped⟩ rfl rfl rfl (fun _ => rfl) (by rw [hthread]; decide) rfl ?_⟩
      intro _
      rw [hthread]
      change Phase.asleep.rank < Phase.locking.rank
      decide
    · rw [if_neg hfull]
      exact tracks_of_take hs rfl (Or.inl hthread) hcaller h1 h2 hw
  | wake =>
    rw [step, Option.ite_none_right_eq_some, Option.some.injEq] at h
    obtain ⟨hthread, rfl⟩ := h
    rw [State.Thread, hthread] at hphase
    obtain ⟨hcaller, h1, h2, hw, -⟩ := hphase
    exact tracks_of_take hs rfl (Or.inr hthread) hcaller h1 h2 hw
  | write =>
    rw [step, Option.ite_none_right_eq_some, Option.some.injEq] at h
    obtain ⟨hthread, rfl⟩ := h
    obtain ⟨u, hu, hinv, huthread, hcaller, hlogged, hpending⟩ := write_ok hs hthread
    refine ⟨u, hu, tracks_of_thread hinv rfl hlogged hpending (fun h => by cases h)
      (by rw [hthread]; decide) hcaller ?_⟩
    intro _
    rw [huthread, hthread]
    decide

/-! ### Whole runs -/

theorem tracks_of_moves (hs : Inv s) {a : Label} (h : Moves step s a t) : Tracks s a t := by
  obtain ⟨u, hu, htracks⟩ := step_ok hs a h
  cases hu
  exact htracks

theorem inv_of_path {l : List Label} (hs : Inv s) (h : Path (Moves step) l s t) : Inv t := by
  induction h with
  | nil => exact hs
  | cons hr _ ih => exact ih (tracks_of_moves hs hr).inv

/-- The thread can go on until it has ended. -/
theorem thread_enabled (hs : Inv s) (hidle : s.thread ≠ .idle) (hended : s.thread ≠ .ended) :
    ∃ a t, a.isThread = true ∧ Moves step s a t := by
  obtain ⟨a, r, hthread, hr⟩ : ∃ a r, a.isThread = true ∧ step s a = some r := by
    cases h : s.thread with
    | idle => exact absurd h hidle
    | entering => exact ⟨.enter, _, rfl, if_pos h⟩
    | inLoop => exact ⟨.check, _, rfl, if_pos h⟩
    | locking => exact ⟨.lock, _, rfl, if_pos h⟩
    | asleep => exact ⟨.wake, _, rfl, if_pos h⟩
    | writing => exact ⟨.write, _, rfl, if_pos h⟩
    | ended => exact absurd h hended
  obtain ⟨t, ht, -⟩ := step_ok hs a hr
  exact ⟨a, t, hthread, by rw [Moves, hr, ht]⟩

/-- **No failure**: however `append`, `start`, `stop` and the thread alternate, no assertion is
violated and no empty pointer used. A spare buffer is only missing while there is a full one, the
thread waits only while there is a full one, and it can go on until it has ended. -/
theorem never_fails (h : Reach (Moves step) Always (State.init : State SIZE) s) :
    (∀ a e, step s a ≠ some (.error e)) ∧ (s.nextBuffer = none → s.buffers ≠ []) ∧
      (s.thread = .asleep → s.buffers ≠ []) ∧
      (s.thread ≠ .idle → s.thread ≠ .ended → ∃ a t, a.isThread = true ∧ Moves step s a t) := by
  have hs : Inv s := h.invariant inv_init fun x a y hx _ hstep => (tracks_of_moves hx hstep).inv
  refine ⟨?_, ?_, ?_, thread_enabled hs⟩
  · intro a e ha
    obtain ⟨t, ht, -⟩ := step_ok hs a ha
    cases ht
  · intro hnone
    rcases hs.next with ⟨b, hb, -⟩ | ⟨-, hne⟩
    · rw [hnone] at hb
      cases hb
    · exact hne
  · intro hasleep
    have hphase := hs.thread
    rw [State.Thread, hasleep] at hphase
    exact hphase.2.2.2.2

/-- Buffers of eight bytes, of which the first gets full: the thread takes both. -/
def session : List Label :=
  [.start, .enter, .started, .append "abc".toList, .append "defgh".toList, .check, .lock]

theorem never_fails_session : ∃ s : State 8, Reach (Moves step) Always State.init s ∧
    s.thread = .asleep ∧ s.buffers ≠ [] := by
  obtain ⟨s, hs, hasleep⟩ := exists_reach_of_run step Always (State.init : State 8) session
    (fun s => decide (s.thread = .asleep)) (by decide)
  have hthread := of_decide_eq_true hasleep
  exact ⟨s, hs, hthread, (never_fails hs).2.2.1 hthread⟩

theorem rank_of_path {l : List Label} (hs : Inv s) (hstop : Stopping s)
    (h : Path (Moves step) l s t) :
    Stopping t ∧ t.thread.rank + l.countP Label.isThread ≤ s.thread.rank := by
  induction h with
  | nil => exact ⟨hstop, le_refl _⟩
  | cons hr _ ih =>
    have htracks := tracks_of_moves hs hr
    obtain ⟨hstop', hrank⟩ := htracks.stopping hstop
    obtain ⟨hstop'', hrest⟩ := ih htracks.inv hstop'
    refine ⟨hstop'', ?_⟩
    rw [List.countP_cons]
    omega

/-- **`stop` returns**: once it has stored `running_ = false` the thread makes four steps at most,
whatever is appended meanwhile, and can go on until it has ended. -/
theorem stop_ends {l : List Label}
    (h : Reach (Moves step) Always (State.init : State SIZE) s) (hstop : Stopping s)
    (hl : Path (Moves step) l s t) :
    l.countP Label.isThread ≤ 4 ∧
      (t.thread = .ended ∨ ∃ a u, a.isThread = true ∧ Moves step t a u) := by
  have hs : Inv s := h.invariant inv_init fun x a y hx _ hstep => (tracks_of_moves hx hstep).inv
  have hcaller : s.caller ≠ .idle ∧ s.caller ≠ .waiting := by
    rcases hstop with h | h <;> rw [h] <;> decide
  have hbefore : s.thread.rank ≤ 4 := by
    obtain ⟨hidle, hentering⟩ := thread_of_started hs.thread hcaller.1 hcaller.2
    cases hthread : s.thread with
    | idle => exact absurd hthread hidle
    | entering => exact absurd hthread hentering
    | _ => decide
  obtain ⟨hstop', hrank⟩ := rank_of_path hs hstop hl
  refine ⟨by omega, or_iff_not_imp_left.2 fun hended => ?_⟩
  have hcaller' : t.caller ≠ .idle ∧ t.caller ≠ .waiting := by
    rcases hstop' with h | h <;> rw [h] <;> decide
  have ht := inv_of_path hs hl
  exact thread_enabled ht (thread_of_started ht.thread hcaller'.1 hcaller'.2).1 hended

theorem stop_ends_session : ∃ s t : State 8, Reach (Moves step) Always State.init s ∧
    Path (Moves step) [.append "x".toList, .wake, .write, .check] s t ∧
    [Label.append "x".toList, .wake, .write, .check].countP Label.isThread ≤ 4 := by
  obtain ⟨s, hs, hstop⟩ := exists_reach_of_run step Always (State.init : State 8)
    (session ++ [.stop]) (fun s => decide (s.caller = .joining ∧ (run step Always s
        [.append "x".toList, .wake, .write, .check]).isSome = true)) (by decide)
  obtain ⟨hjoining, hrun⟩ := of_decide_eq_true hstop
  obtain ⟨t, ht⟩ := Option.isSome_iff_exists.1 hrun
  have hl := path_of_run ht
  exact ⟨s, t, hs, hl, (stop_ends hs (Or.inl hjoining) hl).1⟩

/-! ### The lines -/

theorem lines_of_path {l : List Label} (hs : Inv s) (h : Path (Moves step) l s t) :
    t.logged ++ t.pending = s.logged ++ s.pending ++ l.filterMap (Label.line SIZE) := by
  induction h with
  | nil => simp
  | @cons s u t a l hr _ ih =>
    have htracks := tracks_of_moves hs hr
    rw [ih htracks.inv, htracks.lines, List.append_assoc]
    cases hline : a.line SIZE <;> simp [hline]

/-- While the thread does not come to the mutex, the lines that it has taken stay the same, and it
goes on sleeping. -/
theorem logged_of_path {l : List Label} (hs : Inv s) (h : Path (Moves step) l s t)
    (htakes : ∀ a ∈ l, Label.takes a = false) :
    t.logged = s.logged ∧ (s.thread = .asleep → t.thread = .asleep) := by
  induction h with
  | nil => exact ⟨rfl, id⟩
  | @cons s u t a l hr _ ih =>
    have htracks := tracks_of_moves hs hr
    have ha := htakes a List.mem_cons_self
    obtain ⟨hlogged, hasleep⟩ := ih htracks.inv fun b hb => htakes b (List.mem_cons_of_mem _ hb)
    refine ⟨?_, fun h => hasleep (htracks.asleep h ha)⟩
    rcases htracks.taken with ⟨hsame, -⟩ | ⟨htrue, -⟩
    · rw [hlogged, hsame]
    · rw [ha] at htrue
      cases htrue

/-- At any time, every line that fits into a buffer is in one buffer, whole and in order: in one
that the thread has finished, in one that it is writing, or in one that it has not taken yet. The
file got what `emit` says for each list of buffers, and a last `flush` at the end. -/
theorem lines_logged {l : List Label} (h : Path (Moves step) l (State.init : State SIZE) s) :
    l.filterMap (Label.line SIZE) = (s.batches.flatten ++ s.buffersToWrite ++ s.buffers ++
      s.currentBuffer.toList).flatMap (·.texts) ∧
    s.output = s.batches.flatMap emit ++ if s.thread = .ended then [.flush] else [] := by
  have hlines := lines_of_path inv_init h
  refine ⟨?_, (inv_of_path inv_init h).output⟩
  have hempty : (State.init : State SIZE).logged ++ (State.init : State SIZE).pending = [] := rfl
  rw [hempty, List.nil_append] at hlines
  rw [← hlines, State.logged, State.pending, ← List.flatMap_append, List.append_assoc _ s.buffers]

theorem lines_logged_session : ∃ s : State 8, Path (Moves step) session State.init s ∧
    ["abc".toList, "defgh".toList] = (s.batches.flatten ++ s.buffersToWrite ++ s.buffers ++
      s.currentBuffer.toList).flatMap (·.texts) := by
  obtain ⟨s, hs, -⟩ := exists_path_of_run step Always (State.init : State 8) session
    (fun s => decide (s.thread = .asleep)) (by decide)
  exact ⟨s, hs, (lines_logged hs).1⟩

/-- When the thread has ended, it has taken exactly the lines that were there when it came to the
mutex for the last time. -/
theorem logged_of_ended {l₁ l₂ : List Label} {a : Label} (ha : a.takes = true)
    (hl₂ : ∀ b ∈ l₂, Label.takes b = false)
    (h : Path (Moves step) (l₁ ++ a :: l₂) (State.init : State SIZE) s)
    (hended : s.thread = .ended) : s.logged = l₁.filterMap (Label.line SIZE) := by
  obtain ⟨u, hu, hrest⟩ := h.of_append
  cases hrest with
  | @cons _ v _ _ _ hr hv =>
    have hinv := inv_of_path inv_init hu
    have htracks := tracks_of_moves hinv hr
    obtain ⟨hlogged, hasleep⟩ := logged_of_path htracks.inv hv hl₂
    rcases htracks.taken with ⟨-, hsleeps⟩ | ⟨-, htaken⟩
    · have := hasleep (hsleeps ha)
      rw [hended] at this
      cases this
    · rw [hlogged, htaken, lines_of_path inv_init hu]
      rfl

/-! ### The files -/

theorem texts_emit (batch : List (FixedBuffer SIZE)) : (emit batch).filterMap LogFile.Call.text =
    (if 25 < batch.length then [dropMsg] else []) ++ (keep batch).map (·.data) := by
  have hbuffers : ∀ bs : List (FixedBuffer SIZE),
      (bs.map fun b => LogFile.Call.append b.data).filterMap LogFile.Call.text =
        bs.map (·.data) := by
    intro bs
    rw [List.filterMap_map]
    exact congrFun List.filterMap_eq_map bs
  rw [emit, List.filterMap_append, List.filterMap_append, hbuffers]
  split_ifs <;> simp [LogFile.Call.text]

/-- The bytes of buffers are those of their lines. -/
theorem flatten_data (bs : List (FixedBuffer SIZE)) :
    (bs.map (·.data)).flatten = (bs.flatMap (·.texts)).flatten := by
  induction bs with
  | nil => rfl
  | cons b bs ih =>
    rw [List.map_cons, List.flatten_cons, List.flatMap_cons, List.flatten_append, ih]
    rfl

/-- **What is in the files** of a log that starts after the epoch, when every `fwrite` was complete:
the buffers that the thread has finished, each of them whole in one file, with a message in front of
the two that are left of more than 25. If there never were more, and the thread has ended, the files
together hold exactly the lines that were there when it came to the mutex for the last time; what
was appended later is lost. -/
theorem files_exact (cfg : LogFile.Config) {now : ℤ} (h0 : 0 < now) {f : LogFile.State}
    {calls : List LogFile.Label} {l : List Label}
    (h : Path (Moves step) l (State.init : State SIZE) s)
    (hf : Path (Moves (LogFile.step cfg)) calls (LogFile.State.init cfg now) f)
    (hcalls : calls.map LogFile.Label.call = s.output) (hcomplete : ∀ a ∈ calls, a.Complete) :
    f.texts = (s.batches.flatMap fun batch =>
      (if 25 < batch.length then [dropMsg] else []) ++ (keep batch).map (·.data)) ∧
    ∀ l₁ a l₂, l = l₁ ++ a :: l₂ → a.takes = true → (∀ b ∈ l₂, Label.takes b = false) →
      s.thread = .ended → (∀ batch ∈ s.batches, batch.length ≤ 25) →
        f.texts.flatten = (l₁.filterMap (Label.line SIZE)).flatten := by
  have htexts : f.texts = s.batches.flatMap fun batch =>
      (if 25 < batch.length then [dropMsg] else []) ++ (keep batch).map (·.data) := by
    have hflush : s.lastFlush.filterMap LogFile.Call.text = [] := by
      unfold State.lastFlush
      split_ifs <;> rfl
    calc
      f.texts = (calls.map LogFile.Label.call).filterMap LogFile.Call.text :=
        LogFile.texts_of_calls cfg h0 hf hcomplete
      _ = (s.batches.flatMap emit).filterMap LogFile.Call.text := by
        rw [hcalls, (inv_of_path inv_init h).output, List.filterMap_append, hflush, List.append_nil]
      _ = _ := by
        rw [List.filterMap_flatMap]
        simp only [texts_emit]
  refine ⟨htexts, ?_⟩
  rintro l₁ a l₂ rfl ha hl₂ hended hsmall
  have hlogged := logged_of_ended ha hl₂ h hended
  have hphase := (inv_of_path inv_init h).thread
  rw [State.Thread, hended] at hphase
  rw [State.logged, hphase.2, List.append_nil] at hlogged
  have hkeep : ∀ batch ∈ s.batches, ((if 25 < batch.length then [dropMsg] else []) ++
      (keep batch).map (·.data)) = batch.map (·.data) := by
    intro batch hbatch
    have hle := not_lt.2 (hsmall batch hbatch)
    rw [keep, if_neg hle, if_neg hle, List.nil_append]
  calc
    f.texts.flatten = (s.batches.flatMap fun batch => batch.map (·.data)).flatten := by
      rw [htexts, List.flatMap_congr hkeep]
    _ = (s.batches.flatten.flatMap (·.texts)).flatten := by
      rw [← flatten_data, List.map_flatten]
      rfl
    _ = _ := by rw [hlogged]

/-- The line that is appended between the last `lock` and the end is not in the file. -/
theorem files_exact_session : ∃ (s : State 8) (f : LogFile.State),
    Path (Moves step) (session ++ .wake :: [.write, .append "x".toList, .stop, .check])
      State.init s ∧
    Path (Moves (LogFile.step LogFile.small)) [.append "abc".toList [3] 1000 1000,
      .append "defgh".toList [4, 1] 1000 1001, .flush, .flush]
      (LogFile.State.init LogFile.small 1000) f ∧
    f.texts.flatten = "abcdefgh".toList := by
  obtain ⟨s, hs, hp⟩ := exists_path_of_run step Always (State.init : State 8)
    (session ++ .wake :: [.write, .append "x".toList, .stop, .check])
    (fun s => decide (s.thread = .ended ∧ s.output = [.append "abc".toList,
      .append "defgh".toList, .flush, .flush] ∧ ∀ batch ∈ s.batches, batch.length ≤ 25))
    (by decide)
  obtain ⟨f, hf, -⟩ := exists_path_of_run (LogFile.step LogFile.small) Always
    (LogFile.State.init LogFile.small 1000) [.append "abc".toList [3] 1000 1000,
      .append "defgh".toList [4, 1] 1000 1001, .flush, .flush]
    (fun f => decide (f.files.length = 2)) (by decide)
  obtain ⟨hended, houtput, hsmall⟩ := of_decide_eq_true hp
  have hexact := (files_exact LogFile.small (by decide) hs hf houtput.symm (by
    simp [LogFile.Label.Complete])).2 session .wake [.write, .append "x".toList, .stop, .check]
    rfl rfl (by decide) hended hsmall
  exact ⟨s, f, hs, hf, hexact⟩

end AsyncLoggingDoubleBuffering
