import Mathlib.Data.Prod.Lex
import Mathlib.Tactic

/-!
# `net/Timer.h`, `net/TimerId.h` and the timerfd

* a `muduo::Timestamp` is its number of microseconds. Sums and differences of timestamps are exact
  here, as the program's are while they stay within `int64_t`;
* an interval is a `double` number of seconds, of which the program uses two things: whether it is
  positive, and its number of microseconds, truncated;
* a timerfd is armed with a deadline, or not armed. It is readable from the deadline on until it is
  read. The deadline is in nanoseconds, since that is what `timerfd_settime` takes.
-/

namespace Fppnet

namespace Timestamp

def kMicroSecondsPerSecond : ℤ := 1000 * 1000

def valid (t : ℤ) : Bool := decide (0 < t)

def invalid : ℤ := 0

end Timestamp

/-- A `double` number of seconds. -/
structure Interval where
  micros : ℤ
  positive : Bool
  micros_nonneg : positive = true → 0 ≤ micros

/-- `addTime(timestamp, seconds)`. -/
def addTime (timestamp : ℤ) (seconds : Interval) : ℤ := timestamp + seconds.micros

/-- `Timer`, without its callback. -/
structure Timer where
  expiration_ : ℤ
  interval_ : Interval
  repeat_ : Bool
  sequence_ : ℕ
  repeat_eq : repeat_ = interval_.positive

namespace Timer

/-- The constructor; `numCreated` is `s_numCreated_` after its increment. -/
def new (when : ℤ) (interval : Interval) (numCreated : ℕ) : Timer where
  expiration_ := when
  interval_ := interval
  repeat_ := interval.positive
  sequence_ := numCreated
  repeat_eq := rfl

def restart (t : Timer) (now : ℤ) : Timer :=
  { t with
    expiration_ := if t.repeat_ then addTime now t.interval_ else Timestamp.invalid }

/-- A repeating timer is never restarted to an earlier time. -/
theorem le_restart {t : Timer} (h : t.repeat_ = true) (now : ℤ) :
    now ≤ (t.restart now).expiration_ := by
  have hnn := t.interval_.micros_nonneg (t.repeat_eq ▸ h)
  simp only [restart, h, if_true, addTime]
  omega

end Timer

/-- A `Timer*`. -/
abbrev TimerPtr := ℕ

def UINTPTR_MAX : TimerPtr := 2 ^ 64 - 1

/-- `TimerId`. -/
structure TimerId where
  timer_ : TimerPtr
  sequence_ : ℕ
  deriving DecidableEq

/-- An element of `timers_`: a pair, ordered by time and then by address. -/
structure Entry where
  when : ℤ
  timer : TimerPtr
  deriving DecidableEq

/-- An element of `activeTimers_`: a pair, ordered by address and then by sequence number. -/
structure ActiveTimer where
  timer : TimerPtr
  sequence : ℕ
  deriving DecidableEq

/-- The element of `activeTimers_` that an id stands for. -/
def TimerId.active (id : TimerId) : ActiveTimer := ⟨id.timer_, id.sequence_⟩

instance : LinearOrder Entry :=
  LinearOrder.lift' (fun e => toLex (e.when, e.timer)) fun a b h => by
    cases a
    cases b
    simpa using h

instance : LinearOrder ActiveTimer :=
  LinearOrder.lift' (fun k => toLex (k.timer, k.sequence)) fun a b h => by
    cases a
    cases b
    simpa using h

theorem Entry.lt_iff {a b : Entry} :
    a < b ↔ a.when < b.when ∨ a.when = b.when ∧ a.timer < b.timer := Prod.Lex.toLex_lt_toLex

theorem Entry.le_when {a b : Entry} (h : a ≤ b) : a.when ≤ b.when := by
  rcases lt_or_eq_of_le h with h | h
  · rcases Entry.lt_iff.1 h with h | h
    · exact le_of_lt h
    · exact le_of_eq h.1
  · rw [h]

/-! ### The timerfd -/

/-- `struct timespec`. -/
structure Timespec where
  tv_sec : ℤ
  tv_nsec : ℤ
  deriving DecidableEq

def howMuchTimeFromNow (now when : ℤ) : Timespec :=
  let microseconds := if when - now < 100 then 100 else when - now
  ⟨microseconds.tdiv Timestamp.kMicroSecondsPerSecond,
    (microseconds.tmod Timestamp.kMicroSecondsPerSecond) * 1000⟩

namespace Timespec

/-- What `timerfd_settime` accepts. -/
def Legal (ts : Timespec) : Prop := 0 ≤ ts.tv_sec ∧ 0 ≤ ts.tv_nsec ∧ ts.tv_nsec < 10 ^ 9

instance (ts : Timespec) : Decidable ts.Legal := by unfold Legal; infer_instance

def nanos (ts : Timespec) : ℤ := ts.tv_sec * 10 ^ 9 + ts.tv_nsec

end Timespec

/-- A pending deadline of a timerfd, in nanoseconds, and the time at which it was set. -/
structure Arming where
  armedAt : ℤ
  deadline : ℤ
  deriving DecidableEq

/-- `timerfd_settime(2)` for a timer that fires once: an illegal value is refused (`EINVAL`), and
zero disarms. -/
def timerfd_settime (now : ℤ) (ts : Timespec) (fd : Option Arming) : Option Arming :=
  if ts.Legal then
    if ts.tv_sec = 0 ∧ ts.tv_nsec = 0 then none else some ⟨now, now * 1000 + ts.nanos⟩
  else fd

/-- The deadline has been reached. -/
def Arming.Expired (a : Arming) (now : ℤ) : Prop := a.deadline ≤ now * 1000

instance (a : Arming) (now : ℤ) : Decidable (a.Expired now) := by
  unfold Arming.Expired
  infer_instance

/-- `read(2)` on a timerfd: it clears an expiration, and fails (`EAGAIN`) when there is none. -/
def timerfd_read (now : ℤ) : Option Arming → Option Arming
  | some a => if a.Expired now then none else some a
  | none => none

/-- `howMuchTimeFromNow` is the time to `when`, but at least 100 microseconds. -/
theorem howMuchTimeFromNow_spec (now when : ℤ) :
    (howMuchTimeFromNow now when).Legal ∧
      (howMuchTimeFromNow now when).nanos = max (when - now) 100 * 1000 := by
  have hmax : (if when - now < 100 then 100 else when - now) = max (when - now) 100 := by
    split_ifs <;> omega
  simp only [howMuchTimeFromNow, hmax, Timespec.Legal, Timespec.nanos,
    Timestamp.kMicroSecondsPerSecond]
  have h100 : 100 ≤ max (when - now) 100 := le_max_right _ _
  generalize max (when - now) 100 = m at h100
  have hdiv : m.tdiv (1000 * 1000) = m / (1000 * 1000) := Int.tdiv_eq_ediv_of_nonneg (by omega)
  have hmod : m.tmod (1000 * 1000) = m % (1000 * 1000) := Int.tmod_eq_emod_of_nonneg (by omega)
  rw [hdiv, hmod]
  refine ⟨⟨?_, ?_, ?_⟩, ?_⟩ <;> omega

theorem howMuchTimeFromNow_ne_zero (now when : ℤ) :
    ¬ ((howMuchTimeFromNow now when).tv_sec = 0 ∧ (howMuchTimeFromNow now when).tv_nsec = 0) := by
  rintro ⟨h0, h1⟩
  have hnanos := (howMuchTimeFromNow_spec now when).2
  rw [Timespec.nanos, h0, h1] at hnanos
  omega

/-- A timerfd set to go off at `when` does so then, or after 100 microseconds. -/
theorem timerfd_settime_spec (now when : ℤ) (fd : Option Arming) :
    timerfd_settime now (howMuchTimeFromNow now when) fd =
      some ⟨now, max when (now + 100) * 1000⟩ := by
  obtain ⟨hlegal, hnanos⟩ := howMuchTimeFromNow_spec now when
  rw [timerfd_settime, if_pos hlegal, if_neg (howMuchTimeFromNow_ne_zero now when), hnanos]
  congr 2
  omega

end Fppnet
