import Fppnet.Library.Run
import Fppnet.Net.TcpConnection

/-!
# Half-closing a connection on its loop thread

A run of an established connection on its loop thread is a sequence of `send()` and `shutdown()`
calls and of channel events, with any results of the system calls; it ends before the first
`handleClose`.

`shutdown` closes the write side at once when no output is pending. When some is pending the
comment in `handleWrite` ("if the connection is being closed, go on with closing it") announces
that the write side is closed once the buffer has been drained, but the test there is for the state
`kDisconnected`, which a connection being closed does not have yet. `gracefulHalfClose_iff` says
that the half-close works exactly when no output is pending at the call of `shutdown`.
-/

namespace Fppnet

open Checked Runs TcpConnection

namespace HalfClose

open Ctx

variable {κ : Type} [DecidableEq κ]

/-- What happens to a connection on its loop thread. -/
inductive Event
  | send (message : List Byte) (r : WriteResult)
  | shutdown
  | handleWrite (r : WriteResult)
  | handleRead (r : Buffer.ReadResult)

/-- A read at end of file ends the run, since it calls `handleClose`. -/
def step (x : Ctx κ) : Event → Option (Except Failure (Ctx κ))
  | .send message r => if r.Legal message.length then some (x.send message r) else none
  | .shutdown => some x.shutdown
  | .handleWrite r =>
    if r.Legal x.conn.outputBuffer_.readableBytes then some (x.handleWrite r) else none
  | .handleRead r => if r ≠ .bytes [] then some (x.handleRead r) else none

/-- Every event but the call of `shutdown`. -/
def NotShutdown (_ : Ctx κ) (e : Event) : Prop := e ≠ .shutdown

/-- How often the write side has been closed. -/
def shutdownWrites (x : Ctx κ) : ℕ := x.conn.socket_.shutdownWrites

/-- The half-close, seen from the state `x` in which `shutdown` is called and a later state `y`:
the write side is not closed over pending output, nothing has been sent in between, and once
nothing is left to write the write side has been closed exactly once. -/
structure Graceful (x y : Ctx κ) : Prop where
  not_early : 0 < shutdownWrites y → y.pending = []
  nothing_added : y.stream = x.stream
  closed : y.pending = [] → y.conn.channel_.isWriting = false → shutdownWrites y = 1

/-! ### One event -/

/-- A connection with no output pending ignores write events. -/
theorem handleWrite_of_pending_nil {x y : Ctx κ} {r : WriteResult} (h : Live x)
    (hp : x.pending = []) (hy : x.handleWrite r = .ok y) : y = x := by
  have hw : ¬ x.conn.channel_.isWriting = true := fun hw => h.synced.1 hw hp
  rcases handleWrite_cases hy with h1 | ⟨-, h1, -⟩ | ⟨-, h1, -⟩
  · exact h1
  · exact absurd h1 hw
  · exact absurd h1 hw

/-- What an event other than `shutdown` does to a live connection: it never closes the write side,
and nothing is added to the output of a connection that is being closed. -/
structure Step (x y : Ctx κ) : Prop where
  live : Live y
  state : y.conn.state_ = x.conn.state_
  shutdownWrites : shutdownWrites y = shutdownWrites x
  stream : x.conn.state_ = .kDisconnecting → y.stream = x.stream
  pending : x.conn.state_ = .kDisconnecting → x.pending = [] → y.pending = []

theorem step_spec {x y : Ctx κ} {e : Event} (h : Live x) (he : e ≠ .shutdown)
    (hs : Moves step x e y) : Step x y := by
  have hd : x.conn.state_ ≠ .kDisconnected := by
    rcases h.state with h | h <;> rw [h] <;> decide
  cases e with
  | send message r =>
    obtain ⟨-, hs⟩ := hs.enabled rfl
    unfold send at hs
    by_cases hk : x.conn.state_ = .kConnected
    · rw [if_pos hk] at hs
      obtain ⟨z, hz, hlive⟩ := sendInLoop_live h message r
      obtain rfl : z = y := by rw [hz] at hs; cases hs; rfl
      have hk' : x.conn.state_ ≠ .kDisconnecting := by rw [hk]; decide
      exact ⟨hlive, (sendInLoop_moved hz).state, sendInLoop_shutdownWrites hz,
        fun h => absurd h hk', fun h => absurd h hk'⟩
    · rw [if_neg hk] at hs
      cases hs
      exact ⟨h, rfl, rfl, fun _ => rfl, fun _ => id⟩
  | shutdown => exact absurd rfl he
  | handleWrite r =>
    obtain ⟨hl, hs⟩ := hs.enabled rfl
    obtain ⟨z, hz, hlive⟩ := handleWrite_live h hl
    obtain rfl : z = y := by rw [hz] at hs; cases hs; rfl
    have hm := handleWrite_moved hz
    refine ⟨hlive, hm.state, handleWrite_shutdownWrites hz hd, fun _ => ?_, fun _ hp => ?_⟩
    · rw [hm.stream, List.append_nil]
    · rw [handleWrite_of_pending_nil h hp hz, hp]
  | handleRead r =>
    obtain ⟨hr, hs⟩ := hs.enabled rfl
    obtain ⟨ht, hself, hpoll, hconn⟩ := handleRead_ok hr hs
    have hreg : Registered y :=
      h.toRegistered.of_conn ht hself hpoll (by rw [hconn]) (by rw [hconn])
    have hpend : y.pending = x.pending := by rw [Ctx.pending, hconn, Ctx.pending]
    refine ⟨⟨hreg, by rw [hconn]; exact h.state, ?_⟩, by rw [hconn],
      by rw [HalfClose.shutdownWrites, hconn, HalfClose.shutdownWrites], fun _ => ?_,
      fun _ hp => hpend.trans hp⟩
    · rw [Synced, hpend, hconn]
      exact h.synced
    · rw [Ctx.stream, Ctx.stream, hpend, Ctx.wire, hconn, Ctx.wire]

/-- `shutdown` on a live connection in state `kConnected` closes the write side exactly when no
output is pending. -/
theorem shutdown_spec {x y : Ctx κ} (h : Live x) (hk : x.conn.state_ = .kConnected)
    (hs : Moves step x .shutdown y) :
    Live y ∧ y.conn.state_ = .kDisconnecting ∧ y.stream = x.stream ∧ y.pending = x.pending ∧
      shutdownWrites y = if x.pending = [] then shutdownWrites x + 1 else shutdownWrites x := by
  have hs' : x.shutdown = .ok y := Option.some.inj hs
  have hreg : Registered (x.setState .kDisconnecting) := h.toRegistered.of_conn rfl rfl rfl rfl rfl
  unfold shutdown at hs'
  rw [if_pos hk, shutdownInLoop_eq hreg.thread] at hs'
  by_cases hw : (x.setState .kDisconnecting).conn.channel_.isWriting = true
  · rw [if_pos hw] at hs'
    cases hs'
    rw [if_neg (h.synced.1 hw)]
    exact ⟨⟨hreg, .inr rfl, h.synced⟩, rfl, rfl, rfl, rfl⟩
  · rw [if_neg hw] at hs'
    cases hs'
    rw [if_pos (by_contra fun hp => hw (h.synced.2 hp))]
    exact ⟨⟨hreg.of_conn rfl rfl rfl rfl rfl, .inr rfl, h.synced⟩, rfl, rfl, rfl, rfl⟩

/-! ### Whole runs -/

/-- A run without `shutdown` keeps an established connection live, connected and its write side
open. -/
theorem connected_of_reach {x₀ x : Ctx κ} (h0 : Established x₀)
    (hrun : Reach (Moves step) NotShutdown x₀ x) :
    Live x ∧ x.conn.state_ = .kConnected ∧ shutdownWrites x = 0 := by
  obtain ⟨hlive, hst, hsock, -⟩ := h0.spec
  refine hrun.invariant (I := fun t => Live t ∧ t.conn.state_ = .kConnected ∧ shutdownWrites t = 0)
    ⟨hlive, hst, by rw [shutdownWrites, hsock]⟩ ?_
  rintro s e t ⟨hl, hk, hz⟩ he hs
  have hstep := step_spec hl he hs
  exact ⟨hstep.live, hstep.state.trans hk, hstep.shutdownWrites.trans hz⟩

/-- After `shutdown` the write side is never closed again, the stream is fixed, and a connection
with nothing to write stays so. -/
theorem disconnecting_of_reach {x y : Ctx κ} (h0 : Live x) (hk : x.conn.state_ = .kDisconnecting)
    (hrun : Reach (Moves step) NotShutdown x y) :
    Live y ∧ y.conn.state_ = .kDisconnecting ∧ shutdownWrites y = shutdownWrites x ∧
      y.stream = x.stream ∧ (x.pending = [] → y.pending = []) := by
  refine hrun.invariant (I := fun t => Live t ∧ t.conn.state_ = .kDisconnecting ∧
    shutdownWrites t = shutdownWrites x ∧ t.stream = x.stream ∧ (x.pending = [] → t.pending = []))
    ⟨h0, hk, rfl, rfl, id⟩ ?_
  rintro s e t ⟨hl, hd, hz, hst, hp⟩ he hs
  have hstep := step_spec hl he hs
  exact ⟨hstep.live, hstep.state.trans hd, hstep.shutdownWrites.trans hz,
    (hstep.stream hd).trans hst, fun h => hstep.pending hd (hp h)⟩

/-- **The half-close works exactly when no output is pending at the call of `shutdown`**: then, and
only then, is every later state `Graceful`. -/
theorem gracefulHalfClose_iff {x₀ x x₁ : Ctx κ} (h0 : Established x₀)
    (hrun : Reach (Moves step) NotShutdown x₀ x) (hs : Moves step x .shutdown x₁) :
    (shutdownWrites x = 0 ∧ ∀ y, Reach (Moves step) NotShutdown x₁ y → Graceful x y) ↔
      x.pending = [] := by
  obtain ⟨hlive, hk, hz⟩ := connected_of_reach h0 hrun
  obtain ⟨hlive₁, hk₁, hstr, hpend, hcount⟩ := shutdown_spec hlive hk hs
  constructor
  · rintro ⟨-, hall⟩
    by_contra hp
    rw [if_neg hp, hz] at hcount
    -- one complete write drains the buffer, and nothing closes the write side afterwards
    have hp₁ : x₁.pending ≠ [] := by rwa [hpend]
    obtain ⟨y, hy, hlivey, hnil⟩ := handleWrite_complete hlive₁ hp₁
    have hmove : Moves step x₁
        (.handleWrite (.accepted x₁.conn.outputBuffer_.readableBytes)) y := by
      simp only [Moves, step, WriteResult.Legal, le_refl, if_true, hy]
    have hreach : Reach (Moves step) NotShutdown x₁ y := Reach.single (by rintro ⟨⟩) hmove
    have hw : y.conn.channel_.isWriting = false := by
      by_contra hw
      exact hlivey.synced.1 (by simpa using hw) hnil
    have hone := (hall y hreach).closed hnil hw
    rw [(disconnecting_of_reach hlive₁ hk₁ hreach).2.2.1, hcount] at hone
    exact absurd hone (by decide)
  · intro hp
    rw [if_pos hp, hz] at hcount
    refine ⟨hz, fun y hy => ?_⟩
    obtain ⟨-, -, hsame, hstr', hnil⟩ := disconnecting_of_reach hlive₁ hk₁ hy
    have hyp : y.pending = [] := hnil (hpend.trans hp)
    exact ⟨fun _ => hyp, hstr'.trans hstr, fun _ _ => hsame.trans hcount⟩

/-! A connection on which a message is cut after its first byte, and that is then shut down. -/

/-- The kernel takes one byte of two. -/
def sent : Ctx Unit := next step firstEstablished (.send [1, 2] (.accepted 1))

/-- `shutdown` finds one byte pending. -/
def closing : Ctx Unit := next step sent .shutdown

/-- The kernel takes the other byte. -/
def flushed : Ctx Unit := next step closing (.handleWrite (.accepted 1))

theorem gracefulHalfClose_iff_sent :
    (shutdownWrites sent = 0 ∧ ∀ y, Reach (Moves step) NotShutdown closing y → Graceful sent y) ↔
      sent.pending = [] := by
  have hsend : Moves step firstEstablished (.send [1, 2] (.accepted 1)) sent :=
    moves_next (by decide +kernel)
  exact gracefulHalfClose_iff firstEstablished_spec (Reach.single (by rintro ⟨⟩) hsend)
    (moves_next (by decide +kernel))

/-- The write side of the drained connection stays open. -/
theorem halfClose_lost :
    Established firstEstablished ∧ Moves step firstEstablished (.send [1, 2] (.accepted 1)) sent ∧
      Moves step sent .shutdown closing ∧ Moves step closing (.handleWrite (.accepted 1)) flushed ∧
      flushed.pending = [] ∧ flushed.conn.channel_.isWriting = false ∧
      shutdownWrites flushed = 0 ∧ ¬ Graceful sent flushed := by
  have hpend : flushed.pending = [] := by decide +kernel
  have hw : flushed.conn.channel_.isWriting = false := by decide +kernel
  have hnone : shutdownWrites flushed = 0 := by decide +kernel
  refine ⟨firstEstablished_spec, moves_next (by decide +kernel), moves_next (by decide +kernel),
    moves_next (by decide +kernel), hpend, hw, hnone, fun h => ?_⟩
  have hone := h.closed hpend hw
  rw [hnone] at hone
  cases hone

end HalfClose

end Fppnet
