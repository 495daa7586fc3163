import Mathlib.Tactic

/-!
# `net/Channel.h` and `net/Channel.cpp`: interest in a descriptor and event dispatch

* `Channel`: the descriptor, the events of interest, the events that happened and the mark that
  the poller keeps in it. The owner loop is that of the connection a channel belongs to, and the
  callbacks are the handlers of that connection;
* the interest operations change `events_`; the call of `update()` that ends each of them is made
  where the poller is at hand;
* `Channel.handleEvent`: the callbacks that one mask of events invokes, in their order.
-/

namespace Fppnet

/-- A mask of `poll(2)` events. -/
abbrev Events := BitVec 32

def POLLIN : Events := 0x001#32
def POLLPRI : Events := 0x002#32
def POLLOUT : Events := 0x004#32
def POLLERR : Events := 0x008#32
def POLLHUP : Events := 0x010#32
def POLLNVAL : Events := 0x020#32

/-- `Channel`, without the callbacks. -/
structure Channel where
  fd_ : ℕ
  events_ : Events
  revents_ : Events
  index_ : ℤ

/-- The callbacks of a channel. -/
inductive Handler
  | close
  | error
  | read
  | write
  deriving DecidableEq

namespace Channel

def kNoneEvent : Events := 0#32
def kReadEvent : Events := POLLIN ||| POLLPRI
def kWriteEvent : Events := POLLOUT

/-- `Channel::Channel(loop, fd)`. -/
def new (fd : ℕ) : Channel := ⟨fd, 0#32, 0#32, -1⟩

def isNoneEvent (ch : Channel) : Bool := ch.events_ == kNoneEvent

def isWriting (ch : Channel) : Bool := ch.events_ &&& kWriteEvent != 0#32

def enableReading (ch : Channel) : Channel := { ch with events_ := ch.events_ ||| kReadEvent }

def enableWriting (ch : Channel) : Channel := { ch with events_ := ch.events_ ||| kWriteEvent }

def disableWriting (ch : Channel) : Channel := { ch with events_ := ch.events_ &&& ~~~kWriteEvent }

def disableAll (ch : Channel) : Channel := { ch with events_ := kNoneEvent }

def set_revents (ch : Channel) (revt : Events) : Channel := { ch with revents_ := revt }

def set_index (ch : Channel) (index : ℤ) : Channel := { ch with index_ := index }

/-- `handleEvent`: the callbacks invoked for `revents_`, in order. A hang-up without readable data
closes, and the read callback also runs for it. -/
def handleEvent (ch : Channel) : List Handler :=
  (if ch.revents_ &&& POLLHUP ≠ 0 ∧ ¬ ch.revents_ &&& POLLIN ≠ 0 then [.close] else []) ++
  (if ch.revents_ &&& (POLLERR ||| POLLNVAL) ≠ 0 then [.error] else []) ++
  (if ch.revents_ &&& (POLLIN ||| POLLPRI ||| POLLHUP) ≠ 0 then [.read] else []) ++
  (if ch.revents_ &&& POLLOUT ≠ 0 then [.write] else [])

/-! ### The interest operations on the write bit -/

theorem mask_or (e k : Events) : (e ||| k) &&& k = k := by
  ext i
  simp only [BitVec.getElem_and, BitVec.getElem_or]
  cases k[i] <;> simp

theorem mask_andNot (e k : Events) : e &&& ~~~k &&& k = 0#32 := by
  ext i
  simp only [BitVec.getElem_and, BitVec.getElem_not, BitVec.getElem_zero]
  cases k[i] <;> simp

@[simp] theorem isWriting_enableWriting (ch : Channel) : ch.enableWriting.isWriting = true := by
  simp only [isWriting, enableWriting, mask_or]
  decide

@[simp] theorem isWriting_disableWriting (ch : Channel) : ch.disableWriting.isWriting = false := by
  simp [isWriting, disableWriting, mask_andNot]

@[simp] theorem isWriting_disableAll (ch : Channel) : ch.disableAll.isWriting = false := by
  simp [isWriting, disableAll, kNoneEvent]

@[simp] theorem isWriting_new (fd : ℕ) : (new fd).isWriting = false := by
  simp [isWriting, new]

@[simp] theorem disableWriting_fd (ch : Channel) : ch.disableWriting.fd_ = ch.fd_ := rfl

@[simp] theorem disableWriting_index (ch : Channel) : ch.disableWriting.index_ = ch.index_ := rfl

theorem isWriting_enableReading (ch : Channel) :
    ch.enableReading.isWriting = ch.isWriting := by
  have h : (ch.events_ ||| kReadEvent) &&& kWriteEvent = ch.events_ &&& kWriteEvent := by
    rw [BitVec.and_or_distrib_right, show kReadEvent &&& kWriteEvent = 0#32 by decide,
      BitVec.or_zero]
  simp only [isWriting, enableReading, h]

/-- A channel that keeps its read interest is never without interest. -/
def isReading (ch : Channel) : Bool := ch.events_ &&& kReadEvent == kReadEvent

theorem isReading_enableReading (ch : Channel) : ch.enableReading.isReading = true := by
  simp [isReading, enableReading, mask_or]

@[simp] theorem isReading_enableWriting (ch : Channel) :
    ch.enableWriting.isReading = ch.isReading := by
  have h : (ch.events_ ||| kWriteEvent) &&& kReadEvent = ch.events_ &&& kReadEvent := by
    rw [BitVec.and_or_distrib_right, show kWriteEvent &&& kReadEvent = 0#32 by decide,
      BitVec.or_zero]
  simp only [isReading, enableWriting, h]

@[simp] theorem isReading_disableWriting (ch : Channel) :
    ch.disableWriting.isReading = ch.isReading := by
  have h : ch.events_ &&& ~~~kWriteEvent &&& kReadEvent = ch.events_ &&& kReadEvent := by
    rw [BitVec.and_assoc, show ~~~kWriteEvent &&& kReadEvent = kReadEvent by decide]
  simp only [isReading, disableWriting, h]

@[simp] theorem isReading_disableAll (ch : Channel) : ch.disableAll.isReading = false := by
  simp only [isReading, disableAll, kNoneEvent, BitVec.zero_and]
  decide

theorem isNoneEvent_of_isReading {ch : Channel} (h : ch.isReading = true) :
    ch.isNoneEvent = false := by
  simp only [isReading, isNoneEvent, kNoneEvent, beq_iff_eq, beq_eq_false_iff_ne] at h ⊢
  intro h0
  rw [h0] at h
  exact absurd h (by decide)

@[simp] theorem isNoneEvent_disableAll (ch : Channel) : ch.disableAll.isNoneEvent = true := by
  simp [isNoneEvent, disableAll]

/-- No callback comes before the close callback. -/
theorem handleEvent_pairwise (ch : Channel) :
    ch.handleEvent.Pairwise fun _ h => h ≠ .close := by
  unfold handleEvent
  split_ifs <;> simp

end Channel

end Fppnet
