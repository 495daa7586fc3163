import Fppnet.Thread.Queue
import Fppnet.Logging.LogFile
import Fppnet.Logging.Logger

/-!
# `AsyncLoggingT`

The asynchronous log over a queue of messages (`src/base/logging/AsyncLoggingQueue.h`), for any
`QUEUE`. The logging thread takes messages and appends them to a `LogFile`, until it takes an empty
one; `stop` clears `running_`, puts the empty message, and joins the thread. The queue is the
monitor with all its waiting and waking, and any number of clients call `append`, also before
`start` and after `stop`.

Both results are about clients that append no empty line, which would end the thread, and none that
is too long for a `LogMessage` (`Label.Good`).

* `messages_exact`: no assertion is violated, and the files hold the messages in front of the empty
  one, if every `fwrite` is complete;
* `stop_joins`: after `stop` has put the empty message, the thread ends.
-/

open Runs Checked Monitors

namespace AsyncLoggingT

/-- The threads: that of the log, the one that calls `start` and `stop`, and those that append. -/
inductive Who
  | logging
  | owner
  | client (i : ℕ)
  deriving DecidableEq

/-- Where the logging thread is. -/
inductive Phase
  | idle
  /-- in front of `assert(running_ == true)` -/
  | entering
  /-- in front of `latch_.countDown()` -/
  | counting
  /-- in front of `queue_.take()`, or in it -/
  | taking
  | holding (msg : List Char)
  /-- in front of the last `flush` -/
  | flushing
  | ended
  deriving DecidableEq

/-- Where the caller of `start` and `stop` is. -/
inductive Caller
  | idle
  /-- at `latch_` -/
  | waiting
  | started
  /-- in front of `queue_.put(MSG())`, or in it -/
  | putting
  /-- in `join` -/
  | joining
  | stopped
  deriving DecidableEq

inductive Failure (ε : Type)
  /-- `assert(running_ == true)` -/
  | notRunning
  /-- `assert(running_ == false)` -/
  | running
  /-- `assert(length_ <= sizeof data_)` -/
  | tooLong
  | queue (e : ε)

/-- The members; `output` is what was called on the `LogFile`. -/
structure State (S M R : Type) where
  running : Bool
  caller : Caller
  latch : ℕ
  thread : Phase
  queue : Monitors.State S M R Who
  output : List LogFile.Call

/-- The steps: calls of `append`, the owner's and the thread's calls on the queue, what goes on in
the queue, and the other steps of the owner and of the thread. -/
inductive Label
  | append (i : ℕ) (line : List Char) (pick : Option ℕ)
  | put (pick : Option ℕ)
  | take (pick : Option ℕ)
  /-- a woken client or the owner gets the mutex back -/
  | resume (i : ℕ) (pick : Option ℕ)
  /-- the logging thread does -/
  | retake (i : ℕ) (pick : Option ℕ)
  | spurious (i : ℕ)
  | start
  | started
  | stop
  | join
  | enter
  | countDown
  | write
  | flush

section Model

variable {S M K R ε : Type} [DecidableEq K] (q : Queue (List Char) S M K R ε)

/-- The constructor. -/
def State.init : State S M R where
  running := false
  caller := .idle
  latch := 1
  thread := .idle
  queue := .init q.new
  output := []

variable {q}

/-- The state after a step of the queue: a call of the thread or of the owner may have returned. -/
def State.after (q : Queue (List Char) S M K R ε) (s : State S M R)
    (queue : Monitors.State S M R Who) : State S M R :=
  match queue.returned.drop s.queue.returned.length with
  | [(.logging, m, r)] =>
    match q.taken m r with
    | some msg => { s with queue := queue, thread := .holding msg }
    | none => { s with queue := queue }
  | [(.owner, _, _)] => { s with queue := queue, caller := .joining }
  | _ => { s with queue := queue }

/-- A step of the queue. -/
def State.onQueue (q : Queue (List Char) S M K R ε) (s : State S M R)
    (a : Monitors.Label M Who) : Option (Except (Failure ε) (State S M R)) :=
  match q.mon.step s.queue a with
  | none => none
  | some (.error e) => some (.error (.queue e))
  | some (.ok queue) => some (.ok (s.after q queue))

/-- The thread of a woken call. -/
def State.wokenThread (s : State S M R) (i : ℕ) : Option Who := s.queue.woken[i]?.map Prod.fst

/-- One step. A `MSG` has `limit` bytes at most, if there is a limit. -/
def step (q : Queue (List Char) S M K R ε) (limit : Option ℕ) (s : State S M R) :
    Label → Option (Except (Failure ε) (State S M R))
  | .append i line pick =>
    if s.queue.inside (.client i) then none
    else if limit.any (· < line.length) then some (.error .tooLong)
    else s.onQueue q (.call (.client i) (q.put line) pick)
  | .put pick => if s.caller = .putting then s.onQueue q (.call .owner (q.put []) pick) else none
  | .take pick => if s.thread = .taking then s.onQueue q (.call .logging q.take pick) else none
  | .resume i pick =>
    if s.wokenThread i = some .logging then none else s.onQueue q (.resume i pick)
  | .retake i pick =>
    if s.wokenThread i = some .logging then s.onQueue q (.resume i pick) else none
  | .spurious i => s.onQueue q (.spurious i)
  | .start =>
    if s.caller = .idle then
      some (.ok { s with running := true, caller := .waiting, thread := .entering })
    else none
  | .started =>
    if s.caller = .waiting ∧ s.latch = 0 then some (.ok { s with caller := .started }) else none
  | .stop =>
    if s.caller = .started then some (.ok { s with running := false, caller := .putting })
    else none
  | .join =>
    if s.caller = .joining ∧ s.thread = .ended then some (.ok { s with caller := .stopped })
    else none
  | .enter =>
    if s.thread = .entering then
      some (if s.running then .ok { s with thread := .counting } else .error .notRunning)
    else none
  | .countDown =>
    if s.thread = .counting then some (.ok { s with latch := s.latch - 1, thread := .taking })
    else none
  | .write =>
    match s.thread with
    | .holding msg =>
      some (if msg = [] then
          if s.running then .error .running else .ok { s with thread := .flushing }
        else .ok { s with output := s.output ++ [.append msg], thread := .taking })
    | _ => none
  | .flush =>
    if s.thread = .flushing then
      some (.ok { s with output := s.output ++ [.flush], thread := .ended })
    else none

/-! ### The invariant -/

/-- What `append` may be called with. -/
def Label.Good (limit : Option ℕ) : Label → Prop
  | .append _ line _ => line ≠ [] ∧ limit.any (· < line.length) = false
  | _ => True

instance (limit : Option ℕ) (a : Label) : Decidable (a.Good limit) :=
  match a with
  | .append _ line _ =>
    inferInstanceAs (Decidable (line ≠ [] ∧ limit.any (· < line.length) = false))
  | .put _ | .take _ | .resume _ _ | .retake _ _ | .spurious _ | .start | .started | .stop | .join
  | .enter | .countDown | .write | .flush => inferInstanceAs (Decidable True)

/-- The messages in the log. -/
def State.written (s : State S M R) : List (List Char) := s.output.filterMap LogFile.Call.text

/-- The message that was taken last, if it is not in the log. -/
def State.held (s : State S M R) : List (List Char) :=
  match s.thread with
  | .holding msg => [msg]
  | .flushing | .ended => [[]]
  | _ => []

/-- A call on the queue is of a thread that is at this call. -/
def Mine (q : Queue (List Char) S M K R ε) (s : State S M R) (c : Who × M) : Prop :=
  match c.1 with
  | .logging => c.2 = q.take ∧ s.thread = .taking
  | .owner => c.2 = q.put [] ∧ s.caller = .putting
  | .client _ => ∃ line, c.2 = q.put line ∧ line ≠ []

/-- Where the thread and its owner can be together. -/
def State.Thread (s : State S M R) : Prop :=
  match s.thread with
  | .idle => s.caller = .idle ∧ s.latch = 1
  | .entering | .counting => s.caller = .waiting ∧ s.latch = 1
  | _ => s.caller ≠ .idle ∧ s.latch = 0

/-- The empty message is put once, after `running_` is cleared. -/
structure Inv (q : Queue (List Char) S M K R ε) (s : State S M R) : Prop where
  queue : Reach (Moves q.mon.step) Always (.init q.new) s.queue
  calls : ∀ c ∈ s.queue.inner, Mine q s c
  takes : q.takes s.queue.returned = s.written ++ s.held
  written : [] ∉ s.written
  output : s.output = s.written.map LogFile.Call.append ++
    if s.thread = .ended then [.flush] else []
  marker : (q.puts s.queue.returned).count [] =
    if s.caller = .joining ∨ s.caller = .stopped then 1 else 0
  running : s.running = true ↔ s.caller = .waiting ∨ s.caller = .started
  thread : s.Thread

variable {limit : Option ℕ} {s t : State S M R}

theorem init_inv : Inv q (State.init q) where
  queue := .refl
  calls := nofun
  takes := rfl
  written := nofun
  output := rfl
  marker := rfl
  running := by simp [State.init]
  thread := ⟨rfl, rfl⟩

/-- What was put is in the log, or was taken last, or is in the queue. -/
theorem Inv.puts_eq (hs : Inv q s) :
    q.puts s.queue.returned = s.written ++ s.held ++ q.contents s.queue.shared := by
  rw [Queue.puts_eq hs.queue, hs.takes]

/-- When the empty message was taken, `running_` was cleared before. -/
theorem Inv.running_of_held (hs : Inv q s) (h : [] ∈ s.held) : s.running = false := by
  have hpos : 0 < (q.puts s.queue.returned).count [] := by
    rw [List.count_pos_iff, hs.puts_eq]
    exact List.mem_append_left _ (List.mem_append_right _ h)
  have hmarker := hs.marker
  have hstop : s.caller = .joining ∨ s.caller = .stopped := by
    by_contra hno
    rw [if_neg hno] at hmarker
    omega
  rw [← Bool.not_eq_true, hs.running]
  rcases hstop with h | h <;> simp [h]

/-- After `stop` the empty message is in the queue until the thread takes it. -/
theorem Inv.mem_contents (hs : Inv q s) (hstop : s.caller = .joining ∨ s.caller = .stopped)
    (hheld : [] ∉ s.held) : [] ∈ q.contents s.queue.shared := by
  have hmarker := hs.marker
  rw [if_pos hstop] at hmarker
  have hmem : [] ∈ q.puts s.queue.returned := List.count_pos_iff.1 (by omega)
  rw [hs.puts_eq, List.mem_append, List.mem_append] at hmem
  exact (hmem.resolve_left fun h => h.elim hs.written hheld)

/-! ### A step of the queue -/

/-- What a step of the queue does: nobody comes back from it, or the thread does, the owner, or a
client. -/
inductive Turn (q : Queue (List Char) S M K R ε) (s : State S M R) (a : Monitors.Label M Who) :
    State S M R → Prop
  | inside {queue : Monitors.State S M R Who} (hshared : queue.shared = s.queue.shared)
      (hreturned : queue.returned = s.queue.returned)
      (hwaits : ∀ c, a.actor s.queue = some c → q.mon.waits s.queue.shared c.2 = true)
      (hinner : ∀ c ∈ queue.inner, Mine q s c) : Turn q s a { s with queue := queue }
  | take {queue : Monitors.State S M R Who} {msg : List Char} (hthread : s.thread = .taking)
      (hcontents : q.contents s.queue.shared = msg :: q.contents queue.shared)
      (htakes : q.takes queue.returned = q.takes s.queue.returned ++ [msg])
      (hputs : q.puts queue.returned = q.puts s.queue.returned)
      (hinner : ∀ c ∈ queue.inner, Mine q s c ∧ c.1 ≠ .logging) :
      Turn q s a { s with queue := queue, thread := .holding msg }
  | stop {queue : Monitors.State S M R Who} (hcaller : s.caller = .putting)
      (hactor : ∃ m, a.actor s.queue = some (.owner, m))
      (hcontents : q.contents queue.shared = q.contents s.queue.shared ++ [[]])
      (htakes : q.takes queue.returned = q.takes s.queue.returned)
      (hputs : q.puts queue.returned = q.puts s.queue.returned ++ [[]])
      (hinner : ∀ c ∈ queue.inner, Mine q s c ∧ c.1 ≠ .owner) :
      Turn q s a { s with queue := queue, caller := .joining }
  | append {queue : Monitors.State S M R Who} {line : List Char} (hline : line ≠ [])
      (hactor : ∃ i m, a.actor s.queue = some (.client i, m))
      (hcontents : q.contents queue.shared = q.contents s.queue.shared ++ [line])
      (htakes : q.takes queue.returned = q.takes s.queue.returned)
      (hputs : q.puts queue.returned = q.puts s.queue.returned ++ [line])
      (hinner : ∀ c ∈ queue.inner, Mine q s c) : Turn q s a { s with queue := queue }

/-- `put` puts its message, and takes nothing. -/
theorem returned_put {queue : Monitors.State S M R Who} {t : Who} {r : R} {line : List Char}
    (hw : q.mon.waits s.queue.shared (q.put line) = false)
    (hact : q.mon.act s.queue.shared (q.put line) = .ok (r, queue.shared))
    (hret : queue.returned = s.queue.returned ++ [(t, q.put line, r)]) :
    q.contents queue.shared = q.contents s.queue.shared ++ [line] ∧
      q.takes queue.returned = q.takes s.queue.returned ∧
      q.puts queue.returned = q.puts s.queue.returned ++ [line] := by
  have hcontents := q.act_contents _ _ _ _ hw hact
  rw [q.added_put, q.taken_put] at hcontents
  rw [hret, Queue.puts_append, Queue.takes_append, q.added_put, q.taken_put]
  exact ⟨hcontents.symm, List.append_nil _, rfl⟩

/-- A step of the queue by a thread that is at its call. -/
theorem turn_of_onQueue (hs : Inv q s) {a : Monitors.Label M Who}
    (hactor : ∀ c, a.actor s.queue = some c → Mine q s c)
    {r : Except (Failure ε) (State S M R)} (h : s.onQueue q a = some r) :
    ∃ t, r = .ok t ∧ Turn q s a t ∧ Reach (Moves q.mon.step) Always (.init q.new) t.queue := by
  unfold State.onQueue at h
  cases hstep : q.mon.step s.queue a with
  | none =>
    rw [hstep] at h
    cases h
  | some result =>
    cases result with
    | error e => exact absurd hstep (Queue.no_error hs.queue a e)
    | ok queue =>
      rw [hstep] at h
      cases h
      have hreach := hs.queue.tail trivial hstep
      refine ⟨_, rfl, ?_⟩
      rcases step_returns (Reach.distinct hs.queue) hstep with
        ⟨hshared, hret, hwaits, hinner⟩ | ⟨t, m, r, ha, hw, hact, hret, hinner⟩
      · have hafter : s.after q queue = { s with queue := queue } := by
          rw [State.after, hret, List.drop_length]
        rw [hafter]
        refine ⟨.inside hshared hret hwaits fun c hc => ?_, hreach⟩
        exact (hinner c hc).elim (hs.calls c) (hactor c)
      · have hmine := hactor _ ha
        have hinner' : ∀ c ∈ queue.inner, Mine q s c ∧ c.1 ≠ t := fun c hc =>
          ⟨hs.calls c (hinner c hc).1, (hinner c hc).2⟩
        have hdrop : queue.returned.drop s.queue.returned.length = [(t, m, r)] := by
          rw [hret, List.drop_left]
        cases t with
        | logging =>
          obtain ⟨rfl, hthread⟩ := hmine
          obtain ⟨msg, hmsg⟩ := q.taken_take _ _ _ hact
          have hcontents := q.act_contents _ _ _ _ hw hact
          have hafter : s.after q queue = { s with queue := queue, thread := .holding msg } := by
            rw [State.after, hdrop]
            simp only [hmsg]
          rw [q.added_take, hmsg, Option.toList_none, List.append_nil] at hcontents
          rw [hafter]
          refine ⟨.take hthread hcontents ?_ ?_ hinner', hreach⟩
          · rw [hret, Queue.takes_append, hmsg]
            rfl
          · rw [hret, Queue.puts_append, q.added_take]
            exact List.append_nil _
        | owner =>
          obtain ⟨rfl, hcaller⟩ := hmine
          obtain ⟨hcontents, htakes, hputs⟩ := returned_put hw hact hret
          have hafter : s.after q queue = { s with queue := queue, caller := .joining } := by
            rw [State.after, hdrop]
          rw [hafter]
          exact ⟨.stop hcaller ⟨_, ha⟩ hcontents htakes hputs hinner', hreach⟩
        | client i =>
          obtain ⟨line, rfl, hline⟩ := hmine
          obtain ⟨hcontents, htakes, hputs⟩ := returned_put hw hact hret
          have hafter : s.after q queue = { s with queue := queue } := by
            rw [State.after, hdrop]
          rw [hafter]
          exact ⟨.append hline ⟨i, _, ha⟩ hcontents htakes hputs fun c hc => (hinner' c hc).1,
            hreach⟩

/-- A call stays where it is if its thread does. -/
theorem Mine.mono {c : Who × M} (h : Mine q s c)
    (hthread : c.1 = .logging → s.thread = .taking → t.thread = .taking)
    (hcaller : c.1 = .owner → s.caller = .putting → t.caller = .putting) : Mine q t c := by
  obtain ⟨who, m⟩ := c
  cases who with
  | logging => exact ⟨h.1, hthread rfl h.2⟩
  | owner => exact ⟨h.1, hcaller rfl h.2⟩
  | client i => exact h

theorem count_concat (l : List (List Char)) (x : List Char) :
    (l ++ [x]).count [] = l.count [] + if x = [] then 1 else 0 := by
  rw [List.count_append, List.count_singleton]
  by_cases hx : x = [] <;> simp [hx]

theorem Turn.inv (hs : Inv q s) {a : Monitors.Label M Who} (h : Turn q s a t)
    (hqueue : Reach (Moves q.mon.step) Always (.init q.new) t.queue) : Inv q t := by
  cases h with
  | inside hshared hret hwaits hinner =>
    exact ⟨hqueue, hinner, hret ▸ hs.takes, hs.written, hs.output, hret ▸ hs.marker, hs.running,
      hs.thread⟩
  | @take queue msg hthread hcontents htakes hputs hinner =>
    have hheld : s.held = [] := by rw [State.held, hthread]
    have hplace := hs.thread
    rw [State.Thread, hthread] at hplace
    refine ⟨hqueue, fun c hc => ?_, ?_, hs.written, ?_, hputs ▸ hs.marker, hs.running, hplace⟩
    · exact (hinner c hc).1.mono (fun hwho => absurd hwho (hinner c hc).2) fun _ => id
    · rw [htakes, hs.takes, hheld, List.append_nil]
      rfl
    · have houtput := hs.output
      rw [hthread] at houtput
      exact houtput
  | @stop queue hcaller _ hcontents htakes hputs hinner =>
    refine ⟨hqueue, fun c hc => ?_, htakes ▸ hs.takes, hs.written, hs.output, ?_, ?_, ?_⟩
    · exact (hinner c hc).1.mono (fun _ => id) fun hwho => absurd hwho (hinner c hc).2
    · have hmarker := hs.marker
      rw [hcaller] at hmarker
      rw [hputs, count_concat, hmarker]
      rfl
    · rw [hs.running, hcaller]
      simp
    · have hplace := hs.thread
      unfold State.Thread at hplace ⊢
      cases hthread : s.thread <;> simp_all
  | @append queue line hline _ hcontents htakes hputs hinner =>
    refine ⟨hqueue, hinner, htakes ▸ hs.takes, hs.written, hs.output, ?_, hs.running, hs.thread⟩
    rw [hputs, count_concat, if_neg hline]
    exact hs.marker

/-- A call of a woken thread is where it was. -/
theorem mine_of_resume (hs : Inv q s) (i : ℕ) (pick : Option ℕ) :
    ∀ c, (Monitors.Label.resume i pick).actor s.queue = some c → Mine q s c := by
  intro c hc
  exact hs.calls c (List.mem_append_right _ (List.mem_of_getElem? hc))

/-- A step of the queue, by a label of the system. -/
def Label.onQueue (q : Queue (List Char) S M K R ε) : Label → Option (Monitors.Label M Who)
  | .append i line pick => some (.call (.client i) (q.put line) pick)
  | .put pick => some (.call .owner (q.put []) pick)
  | .take pick => some (.call .logging q.take pick)
  | .resume i pick | .retake i pick => some (.resume i pick)
  | .spurious i => some (.spurious i)
  | _ => none

/-- A label that is a step of the queue is one of a thread that is at its call. -/
theorem turn_of_step (hs : Inv q s) {a : Label} (ha : a.Good limit) {b : Monitors.Label M Who}
    (hb : a.onQueue q = some b) {r : Except (Failure ε) (State S M R)}
    (h : step q limit s a = some r) : ∃ t, r = .ok t ∧ Turn q s b t ∧ Inv q t := by
  have hturn : (∀ c, b.actor s.queue = some c → Mine q s c) → s.onQueue q b = some r →
      ∃ t, r = .ok t ∧ Turn q s b t ∧ Inv q t := by
    intro hactor hr
    obtain ⟨t, ht, hturn, hqueue⟩ := turn_of_onQueue hs hactor hr
    exact ⟨t, ht, hturn, hturn.inv hs hqueue⟩
  cases a with
  | append i line pick =>
    cases hb
    rw [step, Option.ite_none_left_eq_some, if_neg (by rw [ha.2]; decide)] at h
    refine hturn (fun c hc => ?_) h.2
    cases hc
    exact ⟨line, rfl, ha.1⟩
  | put pick =>
    cases hb
    rw [step, Option.ite_none_right_eq_some] at h
    refine hturn (fun c hc => ?_) h.2
    cases hc
    exact ⟨rfl, h.1⟩
  | take pick =>
    cases hb
    rw [step, Option.ite_none_right_eq_some] at h
    refine hturn (fun c hc => ?_) h.2
    cases hc
    exact ⟨rfl, h.1⟩
  | resume i pick =>
    cases hb
    rw [step, Option.ite_none_left_eq_some] at h
    exact hturn (mine_of_resume hs i pick) h.2
  | retake i pick =>
    cases hb
    rw [step, Option.ite_none_right_eq_some] at h
    exact hturn (mine_of_resume hs i pick) h.2
  | spurious i =>
    cases hb
    exact hturn nofun h
  | start | started | stop | join | enter | countDown | write | flush => cases hb

/-- A step of the owner outside the queue. -/
theorem Inv.ownerStep (hs : Inv q s) {caller : Caller} {running : Bool} {phase : Phase}
    (hold : s.caller ≠ .putting) (hphase : phase = s.thread ∨ s.thread = .idle)
    (hheld : ({ s with thread := phase } : State S M R).held = s.held)
    (hended : phase = .ended ↔ s.thread = .ended)
    (hmarker : caller = .joining ∨ caller = .stopped ↔ s.caller = .joining ∨ s.caller = .stopped)
    (hrunning : running = true ↔ caller = .waiting ∨ caller = .started)
    (hplace : State.Thread { s with caller := caller, running := running, thread := phase }) :
    Inv q { s with caller := caller, running := running, thread := phase } where
  queue := hs.queue
  calls c hc := by
    refine (hs.calls c hc).mono (fun _ htaking => ?_) fun _ h => absurd h hold
    rcases hphase with rfl | hidle
    · exact htaking
    · rw [hidle] at htaking
      cases htaking
  takes := by
    rw [hs.takes, ← hheld]
    rfl
  written := hs.written
  output := by
    have := hs.output
    simp only [hended]
    exact this
  marker := by
    simp only [hmarker]
    exact hs.marker
  running := hrunning
  thread := hplace

/-- A step of the thread outside the queue. -/
theorem Inv.threadStep (hs : Inv q s) {phase : Phase} {latch : ℕ} {output : List LogFile.Call}
    (hold : s.thread ≠ .taking)
    (htakes : output.filterMap LogFile.Call.text ++
      ({ s with thread := phase } : State S M R).held = s.written ++ s.held)
    (hwritten : [] ∉ output.filterMap LogFile.Call.text)
    (houtput : output = (output.filterMap LogFile.Call.text).map LogFile.Call.append ++
      if phase = .ended then [.flush] else [])
    (hplace : State.Thread { s with thread := phase, latch := latch }) :
    Inv q { s with thread := phase, latch := latch, output := output } where
  queue := hs.queue
  calls c hc := (hs.calls c hc).mono (fun _ h => absurd h hold) fun _ => id
  takes := hs.takes.trans htakes.symm
  written := hwritten
  output := houtput
  marker := hs.marker
  running := hs.running
  thread := hplace

/-- `start` finds a thread that has not been started. -/
theorem Inv.start (hs : Inv q s) (hcaller : s.caller = .idle) :
    Inv q { s with running := true, caller := .waiting, thread := .entering } := by
  have hplace := hs.thread
  unfold State.Thread at hplace
  cases hthread : s.thread with
  | idle =>
    rw [hthread] at hplace
    refine hs.ownerStep (by simp [hcaller]) (Or.inr hthread) ?_ ?_ ?_ ?_ ?_
    · rw [State.held, State.held, hthread]
    · simp [hthread]
    · simp [hcaller]
    · simp
    · exact ⟨rfl, hplace.2⟩
  | _ => simp [hthread, hcaller] at hplace

/-- The thread appends the message it has taken. -/
theorem Inv.write (hs : Inv q s) {msg : List Char} (hthread : s.thread = .holding msg)
    (hmsg : msg ≠ []) :
    Inv q { s with output := s.output ++ [.append msg], thread := .taking } := by
  have hplace := hs.thread
  have houtput := hs.output
  unfold State.Thread at hplace
  rw [hthread] at hplace houtput
  have htext : (s.output ++ [LogFile.Call.append msg]).filterMap LogFile.Call.text =
      s.written ++ [msg] := by
    rw [List.filterMap_append]
    rfl
  refine hs.threadStep (by simp [hthread]) ?_ ?_ ?_ hplace
  · rw [htext, State.held, State.held, hthread]
    exact List.append_nil _
  · rw [htext, List.mem_append, List.mem_singleton]
    exact fun h => h.elim hs.written fun heq => hmsg heq.symm
  · rw [htext, List.map_append, houtput]
    simp

/-- After the empty message the thread leaves its loop. -/
theorem Inv.flushing (hs : Inv q s) (hthread : s.thread = .holding []) :
    Inv q { s with thread := .flushing } := by
  have hplace := hs.thread
  have houtput := hs.output
  unfold State.Thread at hplace
  rw [hthread] at hplace houtput
  refine hs.threadStep (by simp [hthread]) ?_ hs.written houtput hplace
  rw [State.held, State.held, hthread]
  rfl

/-- A step of the owner or of the thread outside the queue. -/
theorem step_inv_of_none (hs : Inv q s) {a : Label} (hb : a.onQueue q = none)
    {r : Except (Failure ε) (State S M R)} (h : step q limit s a = some r) :
    ∃ t, r = .ok t ∧ Inv q t := by
  have hplace := hs.thread
  have hwritten := hs.written
  have houtput := hs.output
  unfold State.Thread at hplace
  cases a with
  | append | put | take | resume | retake | spurious => cases hb
  | start =>
    rw [step, Option.ite_none_right_eq_some] at h
    obtain ⟨hcaller, h⟩ := h
    cases h
    exact ⟨_, rfl, hs.start hcaller⟩
  | started =>
    rw [step, Option.ite_none_right_eq_some] at h
    obtain ⟨⟨hcaller, hlatch⟩, h⟩ := h
    cases h
    refine ⟨_, rfl, hs.ownerStep (by simp [hcaller]) (Or.inl rfl) rfl Iff.rfl ?_ ?_ ?_⟩
    · simp [hcaller]
    · simp [hs.running, hcaller]
    · unfold State.Thread
      cases hthread : s.thread <;> simp [hthread, hcaller, hlatch] at hplace ⊢
  | stop =>
    rw [step, Option.ite_none_right_eq_some] at h
    obtain ⟨hcaller, h⟩ := h
    cases h
    refine ⟨_, rfl, hs.ownerStep (by simp [hcaller]) (Or.inl rfl) rfl Iff.rfl ?_ ?_ ?_⟩
    · simp [hcaller]
    · simp
    · unfold State.Thread
      cases hthread : s.thread <;> simp [hthread, hcaller] at hplace ⊢ <;> exact hplace
  | join =>
    rw [step, Option.ite_none_right_eq_some] at h
    obtain ⟨⟨hcaller, hthread⟩, h⟩ := h
    cases h
    refine ⟨_, rfl, hs.ownerStep (by simp [hcaller]) (Or.inl rfl) rfl Iff.rfl ?_ ?_ ?_⟩
    · simp [hcaller]
    · simp [hs.running, hcaller]
    · unfold State.Thread
      simp only [hthread] at hplace ⊢
      exact ⟨by simp, hplace.2⟩
  | enter =>
    rw [step, Option.ite_none_right_eq_some] at h
    obtain ⟨hthread, h⟩ := h
    rw [hthread] at hplace houtput
    have hrunning : s.running = true := hs.running.2 (Or.inl hplace.1)
    rw [if_pos hrunning] at h
    cases h
    refine ⟨_, rfl, hs.threadStep (by simp [hthread]) ?_ hwritten houtput hplace⟩
    simp [State.held, State.written, hthread]
  | countDown =>
    rw [step, Option.ite_none_right_eq_some] at h
    obtain ⟨hthread, h⟩ := h
    rw [hthread] at hplace houtput
    cases h
    refine ⟨_, rfl, hs.threadStep (by simp [hthread]) ?_ hwritten houtput ?_⟩
    · simp [State.held, State.written, hthread]
    · exact ⟨by simp [hplace.1], by simp [hplace.2]⟩
  | write =>
    rw [step] at h
    cases hthread : s.thread with
    | holding msg =>
      simp only [hthread, Option.some.injEq] at h
      by_cases hmsg : msg = []
      · rw [hmsg] at hthread
        have hrunning := hs.running_of_held (by rw [State.held, hthread]; exact List.mem_cons_self)
        rw [if_pos hmsg, if_neg (by rw [hrunning]; decide)] at h
        cases h
        exact ⟨_, rfl, hs.flushing hthread⟩
      · rw [if_neg hmsg] at h
        cases h
        exact ⟨_, rfl, hs.write hthread hmsg⟩
    | _ =>
      rw [hthread] at h
      cases h
  | flush =>
    rw [step, Option.ite_none_right_eq_some] at h
    obtain ⟨hthread, h⟩ := h
    rw [hthread] at hplace houtput
    cases h
    have htext : (s.output ++ [LogFile.Call.flush]).filterMap LogFile.Call.text = s.written := by
      rw [List.filterMap_append]
      exact List.append_nil _
    refine ⟨_, rfl, hs.threadStep (by simp [hthread]) ?_ ?_ ?_ hplace⟩
    · rw [htext, State.held, State.held, hthread]
    · rwa [htext]
    · rw [htext, houtput]
      simp

theorem step_ok (hs : Inv q s) {a : Label} (ha : a.Good limit)
    {r : Except (Failure ε) (State S M R)} (h : step q limit s a = some r) :
    ∃ t, r = .ok t ∧ Inv q t := by
  cases hb : a.onQueue q with
  | none => exact step_inv_of_none hs hb h
  | some b =>
    obtain ⟨t, ht, -, hinv⟩ := turn_of_step hs ha hb h
    exact ⟨t, ht, hinv⟩

theorem inv_of_reach (h : Reach (Moves (step q limit)) (fun _ a => a.Good limit) (State.init q) s) :
    Inv q s :=
  h.invariant init_inv fun x a y hx ha hstep => by
    obtain ⟨t, ht, hinv⟩ := step_ok hx ha hstep
    cases ht
    exact hinv

/-! ### What the log holds -/

/-- The thread sleeps in `take` only while the queue is empty. -/
theorem Inv.eq_nil_of_asleep (hs : Inv q s) (h : (.logging, q.take) ∈ s.queue.asleep) :
    q.contents s.queue.shared = [] := by
  refine Queue.eq_nil_of_asleep hs.queue (fun c hc hcond => ?_) h
  have hmine := hs.calls c hc
  obtain ⟨who, m⟩ := c
  cases who with
  | logging => rfl
  | owner => exact absurd (hmine.1 ▸ hcond) (q.cond_put [])
  | client i =>
    obtain ⟨line, hline, -⟩ := hmine
    exact absurd (hline ▸ hcond) (q.cond_put line)

/-- **The messages**: unless a client appends an empty line, or one that is too long, no assertion
is violated. If every `fwrite` was complete, what was put is in the files, in this order, up to what
was taken last; and when the thread has ended, they hold everything in front of the first empty
message. -/
theorem messages_exact
    (h : Reach (Moves (step q limit)) (fun _ a => a.Good limit) (State.init q) s) :
    (∀ a e, a.Good limit → step q limit s a ≠ some (.error e)) ∧
      ((.logging, q.take) ∈ s.queue.asleep → q.contents s.queue.shared = []) ∧
      ∀ (cfg : LogFile.Config) (now : ℤ) (f : LogFile.State) (calls : List LogFile.Label), 0 < now →
        Path (Moves (LogFile.step cfg)) calls (LogFile.State.init cfg now) f →
        calls.map LogFile.Label.call = s.output → (∀ a ∈ calls, a.Complete) →
          f.texts <+: q.puts s.queue.returned ∧ [] ∉ f.texts ∧
            (s.thread = .ended → f.texts = (q.puts s.queue.returned).takeWhile (· ≠ [])) := by
  have hs := inv_of_reach h
  refine ⟨?_, hs.eq_nil_of_asleep, ?_⟩
  · intro a e ha herror
    obtain ⟨t, ht, -⟩ := step_ok hs ha herror
    cases ht
  · intro cfg now f calls h0 hf hcalls hcomplete
    have htexts : f.texts = s.written := by
      rw [LogFile.texts_of_calls cfg h0 hf hcomplete, hcalls]
      rfl
    rw [htexts]
    refine ⟨⟨_, (List.append_assoc _ _ _).symm.trans hs.puts_eq.symm⟩, hs.written, ?_⟩
    intro hended
    have hheld : s.held = [[]] := by rw [State.held, hended]
    have hall : ∀ x ∈ s.written, decide (x ≠ []) = true := by
      intro x hx
      refine decide_eq_true ?_
      rintro rfl
      exact hs.written hx
    rw [hs.puts_eq, hheld, List.append_assoc, List.takeWhile_append_of_pos hall]
    simp

/-! ### `stop` returns -/

/-- A step of the logging thread. -/
def Label.isThread : Label → Bool
  | .take _ | .retake _ _ | .enter | .countDown | .write | .flush => true
  | _ => false

/-- The messages in front of the empty one. -/
def ahead (contents : List (List Char)) : ℕ := (contents.takeWhile (· ≠ [])).length

/-- How many steps the thread makes at most. -/
def Phase.rank (contents : List (List Char)) : Phase → ℕ
  | .ended => 0
  | .flushing => 1
  | .holding msg => if msg = [] then 2 else 2 * ahead contents + 5
  | _ => 2 * ahead contents + 4

def State.rank (q : Queue (List Char) S M K R ε) (s : State S M R) : ℕ :=
  s.thread.rank (q.contents s.queue.shared)

omit [DecidableEq K] in
theorem rank_le (contents : List (List Char)) (phase : Phase) :
    phase.rank contents ≤ 2 * ahead contents + 5 := by
  cases phase with
  | holding msg =>
    simp only [Phase.rank]
    split_ifs <;> omega
  | _ =>
    simp only [Phase.rank]
    omega

omit [DecidableEq K] in
/-- What is put behind the empty message does not count. -/
theorem ahead_append {l : List (List Char)} (h : [] ∈ l) (r : List (List Char)) :
    ahead (l ++ r) = ahead l := by
  unfold ahead
  induction l with
  | nil => cases h
  | cons x l ih =>
    rw [List.cons_append, List.takeWhile_cons, List.takeWhile_cons]
    by_cases hx : x = []
    · rw [if_neg (by simp [hx]), if_neg (by simp [hx])]
    · rw [if_pos (decide_eq_true hx), if_pos (decide_eq_true hx), List.length_cons,
        List.length_cons, ih ((List.mem_cons.1 h).resolve_left fun heq => hx heq.symm)]

/-- `stop` has put the empty message. -/
def Stopping (s : State S M R) : Prop := s.caller = .joining ∨ s.caller = .stopped

/-- A call on the queue by the logging thread is its `take`. -/
theorem actor_logging (hs : Inv q s) {a : Label} (ha : a.isThread = true)
    {b : Monitors.Label M Who} (hb : a.onQueue q = some b) (h : Moves (step q limit) s a t) :
    b.actor s.queue = some (.logging, q.take) ∧ s.thread = .taking := by
  cases a with
  | take pick =>
    cases hb
    rw [Moves, step, Option.ite_none_right_eq_some] at h
    exact ⟨rfl, h.1⟩
  | retake i pick =>
    cases hb
    rw [Moves, step, Option.ite_none_right_eq_some] at h
    obtain ⟨⟨who, m⟩, hwoken, hwho⟩ := Option.map_eq_some_iff.1 h.1
    cases hwho
    obtain ⟨hm, hthread⟩ := mine_of_resume hs i pick _ hwoken
    cases hm
    exact ⟨hwoken, hthread⟩
  | enter | countDown | write | flush => cases hb
  | append | put | resume | spurious | start | started | stop | join => cases ha

/-- A step of the queue after `stop`: the thread comes nearer to its end, and nobody else keeps it
from there. -/
theorem rank_turn (hs : Inv q s) (hstop : Stopping s) {b : Monitors.Label M Who}
    (h : Turn q s b t) : Stopping t ∧ t.rank q ≤ s.rank q ∧
      (b.actor s.queue = some (.logging, q.take) → s.thread = .taking → t.rank q < s.rank q) := by
  have hahead : s.thread = .taking → [] ∈ q.contents s.queue.shared := by
    intro htaking
    exact hs.mem_contents hstop (by rw [State.held, htaking]; exact List.not_mem_nil)
  cases h with
  | @inside queue hshared hret hwaits hinner =>
    have hsame : ({ s with queue := queue } : State S M R).rank q = s.rank q := by
      simp only [State.rank, hshared]
    refine ⟨hstop, hsame.le, fun hactor htaking => ?_⟩
    -- there is something to take
    have hempty := (q.waits_take _).1 (hwaits _ hactor)
    have hmem := hahead htaking
    rw [hempty] at hmem
    cases hmem
  | @take queue msg hthread hcontents htakes hputs hinner =>
    have hless : ({ s with queue := queue, thread := .holding msg } : State S M R).rank q <
        s.rank q := by
      simp only [State.rank, Phase.rank, ahead, hthread, hcontents]
      by_cases hmsg : msg = []
      · rw [if_pos hmsg]
        omega
      · rw [if_neg hmsg, List.takeWhile_cons, if_pos (decide_eq_true hmsg), List.length_cons]
        omega
    exact ⟨hstop, hless.le, fun _ _ => hless⟩
  | stop hcaller =>
    rcases hstop with h | h <;> rw [h] at hcaller <;> cases hcaller
  | @append queue line hline hactor hcontents htakes hputs hinner =>
    refine ⟨hstop, ?_, fun hlogging _ => ?_⟩
    · have hsame : [] ∉ s.held →
          ahead (q.contents s.queue.shared ++ [line]) = ahead (q.contents s.queue.shared) :=
        fun hheld => ahead_append (hs.mem_contents hstop hheld) _
      change s.thread.rank (q.contents queue.shared) ≤ s.thread.rank (q.contents s.queue.shared)
      rw [hcontents]
      cases hthread : s.thread with
      | ended => exact le_refl _
      | flushing => exact le_refl _
      | holding msg =>
        rw [State.held, hthread, List.mem_singleton] at hsame
        simp only [Phase.rank]
        split_ifs with hmsg
        · exact le_refl _
        · rw [hsame fun heq => hmsg heq.symm]
      | idle | entering | counting | taking =>
        rw [State.held, hthread] at hsame
        simp only [Phase.rank, hsame List.not_mem_nil, le_refl]
    · obtain ⟨i, m, hclient⟩ := hactor
      rw [hlogging] at hclient
      cases hclient

/-- After `stop`, a step of the owner or of the thread outside the queue. -/
theorem rank_of_none (hs : Inv q s) (hstop : Stopping s) {a : Label} (hb : a.onQueue q = none)
    (h : Moves (step q limit) s a t) :
    Stopping t ∧ t.rank q + (if a.isThread then 1 else 0) ≤ s.rank q := by
  have hplace := hs.thread
  have hcaller : s.caller ≠ .idle ∧ s.caller ≠ .waiting ∧ s.caller ≠ .started := by
    rcases hstop with h | h <;> simp [h]
  unfold State.Thread at hplace
  cases a with
  | append | put | take | resume | retake | spurious => cases hb
  | start =>
    rw [Moves, step, Option.ite_none_right_eq_some] at h
    exact absurd h.1 hcaller.1
  | started =>
    rw [Moves, step, Option.ite_none_right_eq_some] at h
    exact absurd h.1.1 hcaller.2.1
  | stop =>
    rw [Moves, step, Option.ite_none_right_eq_some] at h
    exact absurd h.1 hcaller.2.2
  | join =>
    rw [Moves, step, Option.ite_none_right_eq_some] at h
    obtain ⟨-, h⟩ := h
    cases h
    exact ⟨Or.inr rfl, le_refl _⟩
  | enter =>
    rw [Moves, step, Option.ite_none_right_eq_some] at h
    rw [h.1] at hplace
    exact absurd hplace.1 hcaller.2.1
  | countDown =>
    rw [Moves, step, Option.ite_none_right_eq_some] at h
    rw [h.1] at hplace
    exact absurd hplace.1 hcaller.2.1
  | write =>
    rw [Moves, step] at h
    cases hthread : s.thread with
    | holding msg =>
      simp only [hthread, Option.some.injEq] at h
      by_cases hmsg : msg = []
      · rw [if_pos hmsg] at h
        split_ifs at h
        cases h
        refine ⟨hstop, ?_⟩
        simp only [State.rank, Phase.rank, hthread, if_pos hmsg]
        decide
      · rw [if_neg hmsg] at h
        cases h
        refine ⟨hstop, ?_⟩
        simp only [State.rank, Phase.rank, hthread, if_neg hmsg]
        exact le_refl _
    | _ =>
      rw [hthread] at h
      cases h
  | flush =>
    rw [Moves, step, Option.ite_none_right_eq_some] at h
    obtain ⟨hthread, h⟩ := h
    cases h
    refine ⟨hstop, ?_⟩
    simp only [State.rank, Phase.rank, hthread]
    decide

/-- A step after `stop`. -/
theorem rank_step (hs : Inv q s) (hstop : Stopping s) {a : Label} (ha : a.Good limit)
    (h : Moves (step q limit) s a t) :
    Stopping t ∧ t.rank q + (if a.isThread then 1 else 0) ≤ s.rank q := by
  cases hb : a.onQueue q with
  | some b =>
    obtain ⟨t', ht, hturn, -⟩ := turn_of_step hs ha hb h
    cases ht
    obtain ⟨hstop', hle, hlt⟩ := rank_turn hs hstop hturn
    refine ⟨hstop', ?_⟩
    split_ifs with hthread
    · obtain ⟨hactor, htaking⟩ := actor_logging hs hthread hb h
      exact hlt hactor htaking
    · exact hle
  | none => exact rank_of_none hs hstop hb h

theorem rank_path {l : List Label} (hs : Inv q s) (hstop : Stopping s)
    (hl : ∀ a ∈ l, a.Good limit) (h : Path (Moves (step q limit)) l s t) :
    Inv q t ∧ Stopping t ∧ t.rank q + l.countP Label.isThread ≤ s.rank q := by
  induction h with
  | nil => exact ⟨hs, hstop, le_refl _⟩
  | cons hr _ ih =>
    rw [List.forall_mem_cons] at hl
    obtain ⟨hstop', hrank⟩ := rank_step hs hstop hl.1 hr
    obtain ⟨u, hu, hinv⟩ := step_ok hs hl.1 hr
    cases hu
    obtain ⟨hinv', hstop'', hrest⟩ := ih hinv hstop' hl.2
    refine ⟨hinv', hstop'', ?_⟩
    rw [List.countP_cons]
    omega

/-- A thread that has not ended can go on, unless it sleeps in `take`. -/
theorem thread_enabled (hs : Inv q s) (hidle : s.thread ≠ .idle) (hended : s.thread ≠ .ended)
    (hawake : (.logging, q.take) ∉ s.queue.asleep) :
    ∃ a t, Label.isThread a = true ∧ Moves (step q limit) s a t := by
  cases hthread : s.thread with
  | idle => exact absurd hthread hidle
  | ended => exact absurd hthread hended
  | entering =>
    have hplace := hs.thread
    rw [State.Thread, hthread] at hplace
    have hrunning : s.running = true := hs.running.2 (Or.inl hplace.1)
    exact ⟨.enter, _, rfl, by rw [Moves, step, if_pos hthread, if_pos hrunning]⟩
  | counting => exact ⟨.countDown, _, rfl, by rw [Moves, step, if_pos hthread]⟩
  | flushing => exact ⟨.flush, _, rfl, by rw [Moves, step, if_pos hthread]⟩
  | holding msg =>
    by_cases hmsg : msg = []
    · have hrunning := hs.running_of_held (by
        rw [State.held, hthread, hmsg]
        exact List.mem_cons_self)
      refine ⟨.write, { s with thread := .flushing }, rfl, ?_⟩
      simp only [Moves, step, hthread, if_pos hmsg, hrunning, Bool.false_eq_true, if_false]
    · exact ⟨.write, _, rfl, by simp only [Moves, step, hthread, if_neg hmsg]; rfl⟩
  | taking =>
    have hact : q.mon.waits s.queue.shared q.take = false →
        ∃ r x, q.mon.act s.queue.shared q.take = .ok (r, x) := q.act_ok _ _
    by_cases hin : s.queue.inside .logging = true
    · -- the thread was woken, and gets the mutex back
      obtain ⟨m, hm⟩ : ∃ m, (.logging, m) ∈ s.queue.inner := by
        by_contra hno
        rw [inside_eq_false.2 fun m hm => hno ⟨m, hm⟩] at hin
        cases hin
      obtain ⟨hmine, -⟩ := hs.calls _ hm
      cases hmine
      have hwoken := (List.mem_append.1 hm).resolve_left hawake
      obtain ⟨i, hi⟩ := List.getElem?_of_mem hwoken
      obtain ⟨pick, queue, hattempt⟩ := exists_attempt
        { s.queue with woken := s.queue.woken.eraseIdx i } Who.logging q.take hact
      refine ⟨.retake i pick, s.after q queue, rfl, ?_⟩
      have hwho : s.wokenThread i = some .logging := by rw [State.wokenThread, hi]; rfl
      have hstep : q.mon.step s.queue (.resume i pick) = some (.ok queue) := by
        simp only [Monitor.step, hi, hattempt]
      rw [Moves, step, if_pos hwho, State.onQueue, hstep]
    · obtain ⟨pick, queue, hattempt⟩ := exists_attempt s.queue Who.logging q.take hact
      refine ⟨.take pick, s.after q queue, rfl, ?_⟩
      have hstep : q.mon.step s.queue (.call .logging q.take pick) = some (.ok queue) := by
        rw [Monitor.step, if_neg hin, hattempt]
      rw [Moves, step, if_pos hthread, State.onQueue, hstep]

/-- **`stop` returns**: once it has put the empty message, the thread makes two steps for each
message in front of it and five more at most, whenever clients append lines that are neither empty
nor too long, and can go on until it has ended. -/
theorem stop_joins {l : List Label}
    (h : Reach (Moves (step q limit)) (fun _ a => a.Good limit) (State.init q) s)
    (hjoin : s.caller = .joining) (hl : ∀ a ∈ l, a.Good limit)
    (hp : Path (Moves (step q limit)) l s t) :
    l.countP Label.isThread ≤ 2 * ahead (q.contents s.queue.shared) + 5 ∧
      (t.thread = .ended ∨ ∃ a u, Label.isThread a = true ∧ Moves (step q limit) t a u) := by
  obtain ⟨hinv, hstop, hrank⟩ := rank_path (inv_of_reach h) (Or.inl hjoin) hl hp
  constructor
  · have hle : s.rank q ≤ 2 * ahead (q.contents s.queue.shared) + 5 := rank_le _ _
    omega
  · refine or_iff_not_imp_left.2 fun hended => thread_enabled hinv ?_ hended fun hasleep => ?_
    · intro hidle
      have hplace := hinv.thread
      rw [State.Thread, hidle] at hplace
      rcases hstop with h | h <;> rw [h] at hplace <;> cases hplace.1
    · have hempty := hinv.eq_nil_of_asleep hasleep
      obtain ⟨-, htaking⟩ := hinv.calls _ (List.mem_append_left _ hasleep)
      have hmem := hinv.mem_contents hstop (by rw [State.held, htaking]; exact List.not_mem_nil)
      rw [hempty] at hmem
      cases hmem

end Model

/-! ### With the queues of `src/base/thread` -/

/-- The lines of `Logger` are neither empty nor longer than a `LogMessage`. -/
theorem good_text {st : Logger.Statement} {tid : ℕ} (h : Logger.Stamp st.now) (htid : tid < 100000)
    (i : ℕ) (pick : Option ℕ) : (Label.append i (st.text tid) pick).Good (some 4000) := by
  obtain ⟨hlo, hhi, -⟩ := Logger.text_bounds h htid
  constructor
  · intro hnil
    rw [hnil] at hlo
    cases hlo
  · have hle : ¬ 4000 < (st.text tid).length := by omega
    simp [hle]

/-- The thread sleeps until a line is appended; a second one comes after `stop`. -/
def session (line : List Char) : List Label :=
  [.start, .enter, .countDown, .started, .take none, .append 0 line (some 0), .retake 0 none,
    .write, .stop, .put none, .append 1 line none]

/-- The end of that session. -/
def sessionEnd : List Label := [.take none, .write, .flush]

/-- `AsyncLoggingUnboundedQueueL` -/
abbrev stepUnbounded := step (BlockingQueue.queue (List Char)) (some 4000)

theorem messages_exact_session : ∃ s : State (List (List Char)) (BlockingQueue.Method (List Char))
    (BlockingQueue.Result (List Char)),
    Reach (Moves stepUnbounded) (fun _ a => a.Good (some 4000))
      (State.init (BlockingQueue.queue (List Char))) s ∧
    s.thread = .ended ∧ ∀ a e, Label.Good (some 4000) a → stepUnbounded s a ≠ some (.error e) := by
  obtain ⟨s, hs, hended⟩ := exists_reach_of_run stepUnbounded (fun _ a => a.Good (some 4000))
    (State.init (BlockingQueue.queue (List Char))) (session "first\n".toList ++ sessionEnd)
    (fun s => decide (s.thread = .ended)) (by decide)
  exact ⟨s, hs, of_decide_eq_true hended, (messages_exact hs).1⟩

/-- `AsyncLoggingBoundedQueue`, for two messages. -/
abbrev stepBounded := step (BoundedBlockingQueue.queue (List Char) 2) none

theorem stop_joins_session : ∃ s t : State (CircularBuffer (List Char) 2)
    (BoundedBlockingQueue.Method (List Char)) (BoundedBlockingQueue.Result (List Char)),
    Reach (Moves stepBounded) (fun _ a => a.Good none)
      (State.init (BoundedBlockingQueue.queue (List Char) 2)) s ∧
    Path (Moves stepBounded) sessionEnd s t ∧ s.caller = .joining ∧
    sessionEnd.countP Label.isThread ≤ 2 * ahead s.queue.shared.items + 5 := by
  obtain ⟨s, hs, hp⟩ := exists_reach_of_run stepBounded (fun _ a => a.Good none)
    (State.init (BoundedBlockingQueue.queue (List Char) 2)) (session "first\n".toList)
    (fun s => decide (s.caller = .joining) &&
      (run stepBounded Always s sessionEnd).any fun _ => true) (by decide)
  rw [Bool.and_eq_true] at hp
  obtain ⟨t, ht, -⟩ := exists_path_of_run stepBounded Always s sessionEnd _ hp.2
  have hjoin := of_decide_eq_true hp.1
  exact ⟨s, t, hs, ht, hjoin, (stop_joins hs hjoin (by decide) ht).1⟩

end AsyncLoggingT
