import Fppnet.Net.OutputStream

/-!
# `send` in other threads, and `shutdown`

`shutdown` must not overtake messages that have been accepted before. In another thread it queues
`shutdownInLoop` behind the functors of these messages; on the loop thread it calls `shutdownInLoop`
at once, whatever is queued. And `shutdownInLoop` takes write interest for the sign of pending
output, although `handleClose` removes the interest and leaves the output.

* `InOrder` is the condition on a step that avoids both;
* `not_overtaken`: in a run whose steps meet it, whenever the write side is closed every message
  that was queued while the state was `kConnected` has been handed to `write`;
* `overtaken` is a run without it.
-/

set_option linter.unusedSectionVars false

namespace Fppnet

open Checked Runs Relays TcpConnection

namespace OutputStream

open Ctx

variable {κ τ : Type} [DecidableEq κ] [DecidableEq τ]

/-- How often the write side has been closed. -/
def shutdownWrites (s : State κ τ) : ℕ := s.ctx.conn.socket_.shutdownWrites

/-- A step from `s` to `t` closes the write side. -/
def Closes (s t : State κ τ) : Prop := shutdownWrites s < shutdownWrites t

/-- No output has been left without write interest: `handleClose` has not run, or nothing is
pending. -/
def Flushed (x : Ctx κ) : Prop := x.conn.channel_.isReading = true ∨ x.pending = []

instance (x : Ctx κ) : Decidable (Flushed x) := inferInstanceAs (Decidable (_ ∨ _))

/-- A step that may close the write side comes after the messages: `shutdown` on the loop thread
when no message is queued; `shutdownInLoop` not after a `handleClose` that has left output; and a
connection that has been destroyed does not drain its output while messages are queued. -/
def InOrder (s : State κ τ) : Label τ → Prop
  | .shutdown => s.ctx.conn.state_ = .kConnected → s.ctx.conn.channel_.isWriting = false →
    queue s = [] ∧ Flushed s.ctx
  | .runFunctor _ => s.relay.pop.map (fun e => e.1.2) = some .shutdownInLoop →
    s.ctx.conn.channel_.isWriting = false → Flushed s.ctx
  | .handleWrite r => s.ctx.conn.state_ = .kDisconnected →
    s.ctx.conn.channel_.isWriting = true →
    r.nwrote = s.ctx.conn.outputBuffer_.readableBytes → queue s = []
  | _ => True

instance (s : State κ τ) (l : Label τ) : Decidable (InOrder s l) := by
  cases l <;> unfold InOrder <;> infer_instance

/-! ### Read interest -/

theorem sendInLoop_isReading {x y : Ctx κ} {message : List Byte} {r : WriteResult}
    (h : x.sendInLoop message r = .ok y) :
    y.conn.channel_.isReading = x.conn.channel_.isReading := by
  obtain ⟨-, -, -, hconn, -⟩ := afterWrite_frame x message r
  rcases sendInLoop_cases h with ⟨-, rfl⟩ | ⟨-, -, rfl⟩ | ⟨-, -, rfl⟩
  · rw [hconn]
  · simp [buffered, setConn, hconn]
  · exact Channel.isReading_enableWriting _

theorem handleWrite_isReading {x y : Ctx κ} {r : WriteResult} (h : x.handleWrite r = .ok y) :
    y.conn.channel_.isReading = x.conn.channel_.isReading := by
  rcases handleWrite_cases h with rfl | ⟨hn, hw, hp, rfl⟩ | ⟨hn, hw, hp, hd⟩
  · rfl
  · rfl
  · have hq : (x.sentOut r.nwrote hn).quiet.conn.channel_.isReading =
        x.conn.channel_.isReading := by
      rw [quiet, notify_conn]
      exact Channel.isReading_disableWriting _
    have hy := drained_ok hd
    split_ifs at hy <;> rw [hy] <;> exact hq

theorem handleClose_isReading {x y : Ctx κ} (h : x.handleClose = .ok y) :
    y.conn.channel_.isReading = false := by
  obtain ⟨-, -, rfl⟩ := handleClose_ok h
  exact Channel.isReading_disableAll x.conn.channel_

theorem handleClose_state {x y : Ctx κ} (h : x.handleClose = .ok y) :
    y.conn.state_ = x.conn.state_ := by
  obtain ⟨-, -, rfl⟩ := handleClose_ok h
  rfl

theorem connectDestroyed_state {x y : Ctx κ} (h : x.connectDestroyed = .ok y) :
    y.conn.state_ = .kDisconnected := by
  obtain ⟨-, -, -, -, -, hconn, -⟩ := connectDestroyed_ok h
  rw [hconn]
  rfl

theorem connectDestroyed_isReading {x y : Ctx κ} (h : x.connectDestroyed = .ok y) :
    y.conn.channel_.isReading = false := by
  obtain ⟨-, -, -, -, -, hconn, -⟩ := connectDestroyed_ok h
  rw [hconn]
  exact Channel.isReading_disableAll x.conn.channel_

/-! ### Before the first `shutdown` -/

/-- While the channel has read interest its write interest is the sign of pending output, and in
state `kConnected` no thread has queued `shutdownInLoop`. -/
structure Ordered (s : State κ τ) : Prop where
  synced : s.ctx.conn.channel_.isReading = true → s.ctx.Synced
  fresh : s.ctx.conn.state_ = .kConnected → ∀ t, .shutdownInLoop ∉ s.relay.queued t

/-- A step that moves bytes along the output stream and leaves the functors alone. -/
theorem Ordered.moved {s : State κ τ} (h : Ordered s) {x : Ctx κ} {added : List Byte}
    (hm : Moved s.ctx x added) (hr : x.conn.channel_.isReading = s.ctx.conn.channel_.isReading)
    {t : State κ τ} (hx : t.ctx = x) (hrelay : t.relay = s.relay) : Ordered t := by
  refine ⟨fun hread => ?_, fun hk => ?_⟩
  · rw [hx] at hread ⊢
    exact hm.synced (h.synced (hr.symm.trans hread))
  · rw [hx] at hk
    rw [hrelay]
    exact h.fresh (hm.state.symm.trans hk)

/-- A step that keeps the channel and the output. -/
theorem Ordered.same {s : State κ τ} (h : Ordered s) {t : State κ τ}
    (hch : t.ctx.conn.channel_ = s.ctx.conn.channel_) (hp : t.ctx.pending = s.ctx.pending)
    (hst : t.ctx.conn.state_ = .kConnected → s.ctx.conn.state_ = .kConnected)
    (hq : t.ctx.conn.state_ = .kConnected →
      ∀ u, .shutdownInLoop ∈ t.relay.queued u → .shutdownInLoop ∈ s.relay.queued u) :
    Ordered t := by
  refine ⟨fun hread => ?_, fun hk u hu => h.fresh (hst hk) u (hq hk u hu)⟩
  rw [hch] at hread
  unfold Synced
  rw [hch, hp]
  exact h.synced hread

/-- A step that removes read interest. -/
theorem Ordered.closed {s : State κ τ} (h : Ordered s) {x : Ctx κ}
    (hr : x.conn.channel_.isReading = false) (hst : x.conn.state_ = s.ctx.conn.state_) :
    Ordered (s.setCtx x) := by
  refine ⟨fun hread => ?_, fun hk => h.fresh (hst.symm.trans hk)⟩
  change x.conn.channel_.isReading = true at hread
  rw [hr] at hread
  cases hread

/-- The loop takes a functor. -/
theorem Ordered.popped {s : State κ τ} (h : Ordered s) {e : τ × Functor}
    {relay : Relay τ Functor} (hpop : s.relay.pop = some (e, relay)) :
    Ordered { s with relay := relay } := by
  refine h.same rfl rfl id fun _ u hu => ?_
  rw [Relay.queued_pop hpop]
  exact List.mem_append_right _ hu

theorem shutdownInLoop_ok {x y : Ctx κ} (h : x.shutdownInLoop = .ok y) :
    (x.conn.channel_.isWriting = true ∧ y = x) ∨
      (x.conn.channel_.isWriting = false ∧ y = x.shutDown) := by
  rw [shutdownInLoop_eq (require_bind_ok.1 h).1] at h
  split_ifs at h with hw <;> cases h
  · exact .inl ⟨hw, rfl⟩
  · exact .inr ⟨by simpa using hw, rfl⟩

theorem shutdown_ok {x y : Ctx κ} (h : x.shutdown = .ok y) :
    (x.conn.state_ ≠ .kConnected ∧ y = x) ∨
      (x.conn.state_ = .kConnected ∧ ((x.conn.channel_.isWriting = true ∧
        y = x.setState .kDisconnecting) ∨ (x.conn.channel_.isWriting = false ∧
        y = (x.setState .kDisconnecting).shutDown))) := by
  unfold Ctx.shutdown at h
  split_ifs at h with hk
  · exact .inr ⟨hk, shutdownInLoop_ok h⟩
  · cases h
    exact .inl ⟨hk, rfl⟩

theorem step_ordered {s t : State κ τ} {l : Label τ} (h : Ordered s) (hs : Moves step s l t) :
    Ordered t := by
  cases step_cases hs with
  | refused hk => exact h
  | send hk hx => exact h.moved (sendInLoop_moved hx) (sendInLoop_isReading hx) rfl rfl
  | shutdown hx =>
    rcases shutdown_ok hx with ⟨-, rfl⟩ | ⟨hk, ⟨-, rfl⟩ | ⟨-, rfl⟩⟩
    · exact h
    · exact h.same rfl rfl (fun hk' => by cases hk') fun hk' => by cases hk'
    · exact h.same rfl rfl (fun hk' => by cases hk') fun hk' => by cases hk'
  | handleWrite hl hx => exact h.moved (handleWrite_moved hx) (handleWrite_isReading hx) rfl rfl
  | @handleRead r x hx =>
    rcases handleRead_cases s.ctx r with ⟨-, h1⟩ | ⟨-, h1 | h1⟩
    · rw [h1] at hx
      have hst := handleClose_state hx
      exact h.closed (handleClose_isReading hx) hst
    · cases h1.symm.trans hx
      exact h.same rfl rfl id fun _ _ => id
    · cases h1.symm.trans hx
      exact h.same rfl rfl id fun _ _ => id
  | handleClose hx => exact h.closed (handleClose_isReading hx) (handleClose_state hx)
  | @connectDestroyed x hx =>
    have hread := connectDestroyed_isReading hx
    have hst := connectDestroyed_state hx
    refine ⟨fun hr => ?_, fun hk => ?_⟩
    · cases hread.symm.trans hr
    · cases hst.symm.trans hk
  | swap hr =>
    exact h.same rfl rfl id fun _ u hu => by rwa [Relay.queued_swap hr] at hu
  | runSend hpop hx =>
    exact (h.popped hpop).moved (sendInLoop_moved hx) (sendInLoop_isReading hx) rfl rfl
  | runShutdown hpop hx =>
    rcases shutdownInLoop_ok hx with ⟨-, rfl⟩ | ⟨-, rfl⟩
    · exact h.popped hpop
    · exact (h.popped hpop).same rfl rfl id fun _ _ => id
  | @callSend t message hnone hk =>
    refine h.same rfl rfl id fun _ u hu => ?_
    change _ ∈ (s.relay.start t (.sendInLoop message)).queued u at hu
    rw [Relay.queued_start hnone, List.mem_append] at hu
    rcases hu with hu | hu
    · exact hu
    · split_ifs at hu <;> simp at hu
  | callShutdown hk => exact h.same rfl rfl id fun _ _ => id
  | setDisconnecting hnone =>
    exact h.same rfl rfl (fun hk' => by cases hk') fun hk' => by cases hk'
  | push hr =>
    exact h.same rfl rfl id fun _ u hu => by rwa [Relay.queued_push hr] at hu

theorem initial_ordered {s : State κ τ} (h : Initial s) : Ordered s := by
  obtain ⟨hlive, -⟩ := h.established.spec
  refine ⟨fun _ => hlive.synced, fun _ t ht => ?_⟩
  rw [h.relay, Relay.queued_empty] at ht
  cases ht

/-! ### What has been taken from the queue -/

/-- The messages of a list of functors. -/
def messages (l : List (τ × Functor)) : List (Sender τ × List Byte) :=
  l.filterMap fun e => e.2.message.map (.thread e.1, ·)

theorem messages_append (l l' : List (τ × Functor)) :
    messages (l ++ l') = messages l ++ messages l' := List.filterMap_append

/-- From `s` to `t` the functors `popped` have been taken, in the order of the queue, and their
messages have run. -/
structure Since (s t : State κ τ) (popped new : List (τ × Functor)) : Prop where
  line : s.relay.line ++ new = popped ++ t.relay.line
  thread : ∀ u, ofProducer (.thread u) t.ran = ofProducer (.thread u) (s.ran ++ messages popped)
  loopThread : ofProducer .loopThread s.ran <+: ofProducer .loopThread t.ran

namespace Since

variable {s t u : State κ τ} {popped new : List (τ × Functor)}

theorem refl (s : State κ τ) : Since s s [] [] :=
  ⟨List.append_nil _, fun _ => by rw [messages, List.filterMap_nil, List.append_nil],
    List.prefix_rfl⟩

/-- A step that takes no functor. -/
theorem keep (h : Since s t popped new) {more : List (τ × Functor)}
    (hline : u.relay.line = t.relay.line ++ more)
    (hran : u.ran = t.ran ∨ ∃ message, u.ran = t.ran ++ [(.loopThread, message)]) :
    Since s u popped (new ++ more) := by
  refine ⟨?_, fun v => ?_, ?_⟩
  · rw [hline, ← List.append_assoc, h.line, List.append_assoc]
  · rw [← h.thread]
    rcases hran with hran | ⟨message, hran⟩
    · rw [hran]
    · rw [hran, ofProducer_append]
      exact List.append_nil _
  · rcases hran with hran | ⟨message, hran⟩
    · rw [hran]
      exact h.loopThread
    · rw [hran, ofProducer_append]
      exact h.loopThread.trans (List.prefix_append ..)

/-- A step that takes a functor. -/
theorem pop (h : Since s t popped new) {e : τ × Functor}
    (hline : t.relay.line = e :: u.relay.line) (hran : u.ran = t.ran ++ messages [e]) :
    Since s u (popped ++ [e]) new := by
  refine ⟨?_, fun v => ?_, ?_⟩
  · rw [h.line, hline, List.append_assoc]
    rfl
  · rw [hran, ofProducer_append, h.thread, messages_append, ← ofProducer_append,
      List.append_assoc]
  · rw [hran, ofProducer_append]
    exact h.loopThread.trans (List.prefix_append ..)

end Since

theorem step_since {s t u : State κ τ} {popped new : List (τ × Functor)} {l : Label τ}
    (h : Since s t popped new) (hs : Moves step t l u) :
    ∃ popped' new', Since s u popped' new' := by
  cases step_cases hs with
  | refused hk => exact ⟨_, _, h⟩
  | send hk hx => exact ⟨_, _, h.keep (List.append_nil _).symm (.inr ⟨_, rfl⟩)⟩
  | shutdown hx => exact ⟨_, _, h.keep (List.append_nil _).symm (.inl rfl)⟩
  | handleWrite hl hx => exact ⟨_, _, h.keep (List.append_nil _).symm (.inl rfl)⟩
  | handleRead hx => exact ⟨_, _, h.keep (List.append_nil _).symm (.inl rfl)⟩
  | handleClose hx => exact ⟨_, _, h.keep (List.append_nil _).symm (.inl rfl)⟩
  | connectDestroyed hx => exact ⟨_, _, h.keep (List.append_nil _).symm (.inl rfl)⟩
  | swap hr =>
    exact ⟨_, _, h.keep ((Relay.line_swap hr).trans (List.append_nil _).symm) (.inl rfl)⟩
  | runSend hpop hx => exact ⟨_, _, h.pop (Relay.line_pop hpop) rfl⟩
  | runShutdown hpop hx => exact ⟨_, _, h.pop (Relay.line_pop hpop) (List.append_nil _).symm⟩
  | callSend hnone hk => exact ⟨_, _, h.keep (List.append_nil _).symm (.inl rfl)⟩
  | callShutdown hk => exact ⟨_, _, h.keep (List.append_nil _).symm (.inl rfl)⟩
  | setDisconnecting hnone => exact ⟨_, _, h.keep (List.append_nil _).symm (.inl rfl)⟩
  | push hr =>
    obtain ⟨a, ha⟩ := Relay.line_push hr
    exact ⟨_, _, h.keep ha (.inl rfl)⟩

/-! ### Closing the write side -/

/-- **The steps that close the write side.** -/
inductive Closing (s : State κ τ) : Label τ → State κ τ → Prop
  | shutdown {t : State κ τ} : s.ctx.conn.state_ = .kConnected →
      s.ctx.conn.channel_.isWriting = false → t.ctx.pending = s.ctx.pending →
      Closing s .shutdown t
  | shutdownInLoop {r : WriteResult} {v : τ} {relay : Relay τ Functor} {t : State κ τ} :
      s.relay.pop = some ((v, .shutdownInLoop), relay) →
      s.ctx.conn.channel_.isWriting = false → t.ctx.pending = s.ctx.pending →
      Closing s (.runFunctor r) t
  | handleWrite {r : WriteResult} {t : State κ τ} : s.ctx.conn.state_ = .kDisconnected →
      s.ctx.conn.channel_.isWriting = true →
      r.nwrote = s.ctx.conn.outputBuffer_.readableBytes → t.ctx.pending = [] →
      Closing s (.handleWrite r) t

theorem handleClose_shutdownWrites {x y : Ctx κ} (h : x.handleClose = .ok y) :
    y.conn.socket_ = x.conn.socket_ := by
  obtain ⟨-, -, rfl⟩ := handleClose_ok h
  rfl

theorem handleWrite_closes {x y : Ctx κ} {r : WriteResult} (h : x.handleWrite r = .ok y)
    (hc : x.conn.socket_.shutdownWrites < y.conn.socket_.shutdownWrites) :
    x.conn.state_ = .kDisconnected ∧ x.conn.channel_.isWriting = true ∧
      r.nwrote = x.conn.outputBuffer_.readableBytes ∧ y.pending = [] := by
  have hst : x.conn.state_ = .kDisconnected := by
    by_contra hne
    rw [handleWrite_shutdownWrites h hne] at hc
    exact lt_irrefl _ hc
  rcases handleWrite_cases h with rfl | ⟨hn, hw, hp, rfl⟩ | ⟨hn, hw, hp, hd⟩
  · exact absurd hc (lt_irrefl _)
  · exact absurd hc (lt_irrefl _)
  · refine ⟨hst, hw, le_antisymm hn ?_, ?_⟩
    · rw [sentOut_pending, List.drop_eq_nil_iff] at hp
      rw [← ByteBuffer.length_readable]
      exact hp
    · have hq : (x.sentOut r.nwrote hn).quiet.pending = [] := by
        rw [Ctx.pending, quiet, notify_conn]
        exact hp
      have hy := drained_ok hd
      split_ifs at hy <;> rw [hy] <;> exact hq

theorem closing_of_closes {s t : State κ τ} {l : Label τ} (hs : Moves step s l t)
    (hc : Closes s t) : t.ran = s.ran ∧ Closing s l t := by
  unfold Closes shutdownWrites at hc
  -- the counter of the other functions stays where it was
  have hno : ∀ {m n : ℕ}, m = n → n < m → False := fun h hlt => absurd hlt (by omega)
  cases step_cases hs with
  | refused hk => exact absurd hc (lt_irrefl _)
  | send hk hx => exact (hno (sendInLoop_shutdownWrites hx) hc).elim
  | shutdown hx =>
    rcases shutdown_ok hx with ⟨-, rfl⟩ | ⟨hk, ⟨-, rfl⟩ | ⟨hw, rfl⟩⟩
    · exact absurd hc (lt_irrefl _)
    · exact absurd hc (lt_irrefl _)
    · exact ⟨rfl, .shutdown hk hw rfl⟩
  | handleWrite hl hx =>
    obtain ⟨hst, hw, hn, hp⟩ := handleWrite_closes hx hc
    exact ⟨rfl, .handleWrite hst hw hn hp⟩
  | @handleRead r x hx =>
    rcases handleRead_cases s.ctx r with ⟨-, h1⟩ | ⟨-, h1 | h1⟩
    · rw [h1] at hx
      exact (hno (congrArg Socket.shutdownWrites (handleClose_shutdownWrites hx)) hc).elim
    · cases h1.symm.trans hx
      exact absurd hc (lt_irrefl _)
    · cases h1.symm.trans hx
      exact absurd hc (lt_irrefl _)
  | handleClose hx =>
    exact (hno (congrArg Socket.shutdownWrites (handleClose_shutdownWrites hx)) hc).elim
  | connectDestroyed hx =>
    obtain ⟨-, -, -, -, -, hconn, -⟩ := connectDestroyed_ok hx
    exact (hno (by rw [State.setCtx, hconn]; rfl) hc).elim
  | swap hr => exact absurd hc (lt_irrefl _)
  | runSend hpop hx => exact (hno (sendInLoop_shutdownWrites hx) hc).elim
  | runShutdown hpop hx =>
    rcases shutdownInLoop_ok hx with ⟨-, rfl⟩ | ⟨hw, rfl⟩
    · exact absurd hc (lt_irrefl _)
    · exact ⟨rfl, .shutdownInLoop hpop hw rfl⟩
  | callSend hnone hk => exact absurd hc (lt_irrefl _)
  | callShutdown hk => exact absurd hc (lt_irrefl _)
  | setDisconnecting hnone => exact absurd hc (lt_irrefl _)
  | push hr => exact absurd hc (lt_irrefl _)

/-- **Every message that was queued in `s` has been handed to `write` in `t`**, and no byte is left
in the output buffer. -/
structure HandedOver (s t : State κ τ) : Prop where
  pending : t.ctx.pending = []
  wire : t.ctx.wire = (t.ran.map Prod.snd).flatten
  ran : ∀ p, ofProducer p (s.ran ++ queue s) <+: ofProducer p t.ran

/-- All messages have been taken when the functors that are left have none of them. -/
theorem Since.ran {s t : State κ τ} {popped new : List (τ × Functor)}
    (h : Since s t popped new)
    (hrest : ∀ c, c <+: t.relay.line → c <:+ s.relay.line → messages c = []) (p : Sender τ) :
    ofProducer p (s.ran ++ queue s) <+: ofProducer p t.ran := by
  rw [ofProducer_append]
  cases p with
  | loopThread =>
    rw [ofProducer_queue_loopThread, List.append_nil]
    exact h.loopThread
  | thread u =>
    rw [h.thread, ofProducer_append, List.prefix_append_right_inj]
    exact (filterMap_prefix_of_fifo _ h.line hrest).filterMap _

/-- Output that has not been left without write interest is pending only with write interest. -/
theorem Ordered.pending_eq_nil {s : State κ τ} (h : Ordered s)
    (hw : s.ctx.conn.channel_.isWriting = false) (hf : Flushed s.ctx) : s.ctx.pending = [] := by
  rcases hf with hr | hp
  · by_contra hne
    have hwriting := (h.synced hr).2 hne
    rw [hw] at hwriting
    cases hwriting
  · exact hp

/-- **`shutdown` overtakes no message.** Let `s` be a state in which the connection is in state
`kConnected`, such as the one in which `shutdown` is called. When a later step closes the write
side, all messages that were queued in `s` have been handed to `write`. -/
theorem not_overtaken {s₀ s s₁ t : State κ τ} {l : Label τ} (h0 : Initial s₀)
    (hs : Reach (Moves step) InOrder s₀ s) (hk : s.ctx.conn.state_ = .kConnected)
    (h₁ : Reach (Moves step) InOrder s s₁) (hl : InOrder s₁ l) (ht : Moves step s₁ l t)
    (hc : Closes s₁ t) : HandedOver s t := by
  have hord : Ordered s := hs.invariant (initial_ordered h0) fun x a y hx _ hr => step_ordered hx hr
  have hord₁ : Ordered s₁ := h₁.invariant hord fun x a y hx _ hr => step_ordered hx hr
  obtain ⟨popped, new, hsince⟩ : ∃ popped new, Since s s₁ popped new :=
    h₁.invariant (I := fun x => ∃ popped new, Since s x popped new) ⟨_, _, .refl s⟩
      fun x a y hx _ hr => by
        obtain ⟨popped, new, hsince⟩ := hx
        exact step_since hsince hr
  have hgood : Good s := hs.invariant (initial_good h0) fun x a y hx _ hr => step_good hx hr
  have hgood₁ : Good s₁ := h₁.invariant hgood fun x a y hx _ hr => step_good hx hr
  have hgood' : Good t := step_good hgood₁ ht
  -- no `shutdownInLoop` had been queued in `s`
  have hfresh : ∀ e ∈ s.relay.line, e.2 ≠ .shutdownInLoop := fun e he heq =>
    hord.fresh hk e.1 (heq ▸ Relay.mem_queued_of_mem_line he)
  obtain ⟨hran, hclosing⟩ := closing_of_closes ht hc
  suffices hboth : t.ctx.pending = [] ∧
      ∀ c, c <+: s₁.relay.line → c <:+ s.relay.line → messages c = [] by
    obtain ⟨hpend, hrest⟩ := hboth
    refine ⟨hpend, ?_, fun p => ?_⟩
    · rw [← hgood'.stream, Ctx.stream, hpend, List.append_nil]
    · rw [hran]
      exact hsince.ran hrest p
  have hempty : queue s₁ = [] → ∀ c, c <+: s₁.relay.line → c <:+ s.relay.line →
      messages c = [] := fun hq c hc _ => by
    have hpre := hc.filterMap fun e => e.2.message.map (Sender.thread e.1, ·)
    exact List.prefix_nil.1 (hq ▸ hpre)
  cases hclosing with
  | shutdown hk₁ hw hp =>
    obtain ⟨hq, hf⟩ := hl hk₁ hw
    exact ⟨hp.trans (hord₁.pending_eq_nil hw hf), hempty hq⟩
  | shutdownInLoop hpop hw hp =>
    have hf := hl (by rw [hpop]; rfl) hw
    refine ⟨hp.trans (hord₁.pending_eq_nil hw hf), fun c hc hsuf => ?_⟩
    -- the queue starts with `shutdownInLoop`, which was not queued in `s`
    rw [Relay.line_pop hpop] at hc
    cases c with
    | nil => rfl
    | cons e c =>
      obtain ⟨rfl, -⟩ := List.cons_prefix_cons.1 hc
      exact absurd rfl (hfresh _ (hsuf.subset (List.mem_cons_self ..)))
  -- the output buffer has just been drained
  | handleWrite hst hw hn hp => exact ⟨hp, hempty (hl hst hw hn)⟩

theorem queue_eq_nil {s : State κ τ}
    (h : ∀ p, ofProducer p (s.ran ++ queue s) <+: ofProducer p s.ran) : queue s = [] := by
  refine List.eq_nil_iff_forall_not_mem.2 fun e he => ?_
  have hlen := (h e.1).length_le
  rw [ofProducer_append, List.length_append] at hlen
  have hnil : ofProducer e.1 (queue s) = [] := List.eq_nil_of_length_eq_zero (by omega)
  have hmem : e.2 ∈ ofProducer e.1 (queue s) := List.mem_filterMap.2 ⟨e, he, if_pos rfl⟩
  rw [hnil] at hmem
  cases hmem

/-- For a call of `shutdown` on the loop thread that closes the write side the condition is
exact. -/
theorem handedOver_iff_inOrder {s₀ s t : State κ τ} (h0 : Initial s₀)
    (hs : Reach (Moves step) InOrder s₀ s) (hk : s.ctx.conn.state_ = .kConnected)
    (ht : Moves step s .shutdown t) (hc : Closes s t) :
    HandedOver s t ↔ InOrder s .shutdown := by
  constructor
  · intro h
    obtain ⟨hran, hclosing⟩ := closing_of_closes ht hc
    cases hclosing with
    | shutdown _ hw hp =>
      exact fun _ _ => ⟨queue_eq_nil fun p => hran ▸ h.ran p, .inr (hp.symm.trans h.pending)⟩
  · exact fun h => not_overtaken h0 hs hk .refl h ht hc

/-! A message that another thread has queued, and `shutdown` after it: in the same thread, and on
the loop thread. -/

/-- A thread has sent two bytes. -/
def queuedOne : State Unit ℕ := next step (next step start (.callSend 1 [1, 2])) (.push 1)

theorem reach_queuedOne : Reach (Moves step) InOrder start queuedOne := by
  have h1 : Reach (Moves step) InOrder start (next step start (.callSend 1 [1, 2])) :=
    .single (a := .callSend 1 [1, 2]) trivial (moves_next (by decide +kernel))
  exact h1.trans (.single (a := .push 1) trivial (moves_next (by decide +kernel)))

theorem not_overtaken_queuedOne : ∃ t : State Unit ℕ, HandedOver queuedOne t := by
  obtain ⟨s₁, hs₁, hp⟩ := exists_reach_of_run step InOrder queuedOne
    [.callShutdown 1, .setDisconnecting 1, .push 1, .swap, .runFunctor (.accepted 2)]
    (fun s₁ => succeeds step s₁ (.runFunctor (.accepted 0)) &&
      decide (InOrder s₁ (.runFunctor (.accepted 0))) &&
      decide (shutdownWrites s₁ < shutdownWrites (next step s₁ (.runFunctor (.accepted 0)))))
    (by decide +kernel)
  simp only [Bool.and_eq_true, decide_eq_true_eq] at hp
  obtain ⟨⟨hmove, hl⟩, hc⟩ := hp
  exact ⟨_, not_overtaken ⟨firstEstablished_spec, rfl, rfl, rfl⟩ reach_queuedOne
    (by decide +kernel) hs₁ hl (moves_next hmove) hc⟩

theorem overtaken :
    Initial start ∧ Reach (Moves step) Always start queuedOne ∧
      queuedOne.ctx.conn.state_ = .kConnected ∧ queue queuedOne = [(.thread 1, [1, 2])] ∧
      Moves step queuedOne .shutdown (next step queuedOne .shutdown) ∧
      Closes queuedOne (next step queuedOne .shutdown) ∧
      ¬ HandedOver queuedOne (next step queuedOne .shutdown) := by
  refine ⟨⟨firstEstablished_spec, rfl, rfl, rfl⟩, reach_queuedOne.mono fun _ _ _ => trivial,
    by decide +kernel, by decide +kernel, moves_next (by decide +kernel), ?_, fun h => ?_⟩
  · show shutdownWrites queuedOne < shutdownWrites (next step queuedOne .shutdown)
    decide +kernel
  · have hlen := (h.ran (.thread 1)).length_le
    exact absurd hlen (by decide +kernel)

/-- The peer closes while output is pending, and `shutdown` follows. -/
theorem closed_over_output :
    ∃ s t : State Unit ℕ, Reach (Moves step) Always start s ∧ s.ctx.conn.state_ = .kConnected ∧
      queue s = [] ∧ Moves step s .shutdown t ∧ Closes s t ∧ t.ctx.pending = [2] := by
  obtain ⟨s, hs, hp⟩ := exists_reach_of_run step Always start
    [.send [1, 2] (.accepted 1), .handleRead (.bytes [])]
    (fun s => decide (s.ctx.conn.state_ = .kConnected) && decide (queue s = []) &&
      succeeds step s .shutdown &&
      decide (shutdownWrites s < shutdownWrites (next step s .shutdown)) &&
      decide ((next step s .shutdown).ctx.pending = [2]))
    (by decide +kernel)
  simp only [Bool.and_eq_true, decide_eq_true_eq] at hp
  obtain ⟨⟨⟨⟨hk, hq⟩, hmove⟩, hc⟩, hpend⟩ := hp
  exact ⟨s, _, hs, hk, hq, moves_next hmove, hc, hpend⟩

end OutputStream

end Fppnet
