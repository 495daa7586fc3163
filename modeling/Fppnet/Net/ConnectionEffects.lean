import Fppnet.Net.TcpConnection

/-!
# What the member functions of a connection do to its surroundings

A connection shares the poller of its loop with the other connections of that loop. `Acts x y` is
what all member functions have in common: they keep the identity of the connection, touch the
records of the poller at its own descriptor only, and leave them in agreement. `Plain` functions
do not call the close callback. The lemmas `…_acts` and `…_plain` say for each function that it
succeeds and does so whenever the records agree before it (`Bound`) and the state is the one it
asserts.

`Open` and `Shut` describe the channel of a connection before and after `handleClose`.
-/

set_option linter.unusedSectionVars false

namespace Fppnet

open Checked TcpConnection

namespace Ctx

variable {κ : Type} [DecidableEq κ]

/-- A function runs on the owner loop, whose records agree about the channel. -/
structure Bound (x : Ctx κ) : Prop where
  thread : x.thread = x.conn.loop_
  agrees : x.poller.Agrees x.self x.conn.channel_

/-- What every member function does. -/
structure Acts (x y : Ctx κ) : Prop extends Frame x y where
  agrees : y.poller.Agrees y.self y.conn.channel_
  elsewhere : ∀ fd, fd ≠ x.conn.channel_.fd_ →
    y.poller.channels_ fd = x.poller.channels_ fd ∧ y.poller.interest fd = x.poller.interest fd

theorem Acts.bound {x y : Ctx κ} (hb : Bound x) (h : Acts x y) : Bound y :=
  ⟨h.thread.trans (hb.thread.trans h.loop.symm), h.agrees⟩

theorem Acts.trans {x y z : Ctx κ} (h : Acts x y) (h' : Acts y z) : Acts x z where
  toFrame := h.toFrame.trans h'.toFrame
  agrees := h'.agrees
  elsewhere := fun fd hfd => by
    have hfd' : fd ≠ y.conn.channel_.fd_ := by rwa [h.fd]
    exact ⟨(h'.elsewhere fd hfd').1.trans (h.elsewhere fd hfd).1,
      (h'.elsewhere fd hfd').2.trans (h.elsewhere fd hfd).2⟩

/-- A function that leaves the channel and the poller alone. -/
theorem Acts.still {x y : Ctx κ} (hb : Bound x) (hth : y.thread = x.thread)
    (hself : y.self = x.self) (hp : y.poller = x.poller) (hl : y.conn.loop_ = x.conn.loop_)
    (hn : y.conn.name_ = x.conn.name_) (hch : y.conn.channel_ = x.conn.channel_) : Acts x y where
  thread := hth
  self := hself
  loop := hl
  name := hn
  fd := by rw [hch]
  agrees := by
    rw [hp, hself, hch]
    exact hb.agrees
  elsewhere := fun fd _ => by rw [hp]; exact ⟨rfl, rfl⟩

theorem Acts.refl {x : Ctx κ} (hb : Bound x) : Acts x x := Acts.still hb rfl rfl rfl rfl rfl rfl

theorem Acts.call {x y : Ctx κ} (h : Acts x y) (c : Call) : Acts x (y.call c) :=
  ⟨⟨h.thread, h.self, h.loop, h.name, h.fd⟩, h.agrees, h.elsewhere⟩

/-- An update of the channel succeeds and acts at its descriptor. -/
theorem update_acts {x : Ctx κ} (hb : Bound x) (ch : Channel)
    (hfd : ch.fd_ = x.conn.channel_.fd_) (hidx : ch.index_ = x.conn.channel_.index_) :
    x.update ch = .ok (x.updated ch) ∧ Acts x (x.updated ch) := by
  obtain ⟨hok, hagree⟩ := EPoller.updateChannel_agrees (hb.agrees.congr hfd hidx)
  refine ⟨?_, ⟨updated_frame x hfd, hagree, fun fd hne => ?_⟩⟩
  · unfold Ctx.update
    rw [require_of hb.thread, hok]
    rfl
  · rw [← hfd] at hne
    exact ⟨Function.update_of_ne hne _ _, Function.update_of_ne hne _ _⟩

/-- A member function that does not call the close callback. -/
structure Plain (x y : Ctx κ) : Prop extends Acts x y where
  calls : .closeCallback ∉ x.calls → .closeCallback ∉ y.calls

theorem Plain.refl {x : Ctx κ} (hb : Bound x) : Plain x x := ⟨Acts.refl hb, id⟩

/-- `sendInLoop` and `handleWrite` call no callback. -/
theorem Moved.calls_plain {x y : Ctx κ} {added : List Byte} (h : Moved x y added)
    (hx : .closeCallback ∉ x.calls) : .closeCallback ∉ y.calls := by
  rcases h.calls with hk | hk <;> rw [hk]
  · exact hx
  · simpa using hx

/-! ### The member functions -/

theorem afterWrite_acts {x : Ctx κ} (hb : Bound x) (message : List Byte) (r : WriteResult) :
    Acts x (x.afterWrite message r) := by
  obtain ⟨hth, hself, hpoll, hconn, -⟩ := afterWrite_frame x message r
  exact Acts.still hb hth hself hpoll (by rw [hconn]) (by rw [hconn]) (by rw [hconn])

theorem buffered_acts {x : Ctx κ} (hb : Bound x) (message : List Byte) (r : WriteResult) :
    Acts x (x.buffered message r) := by
  obtain ⟨hth, hself, hpoll, hconn, -⟩ := afterWrite_frame x message r
  exact Acts.still hb hth hself hpoll (by simp [buffered, setConn, hconn])
    (by simp [buffered, setConn, hconn]) (by simp [buffered, setConn, hconn])

theorem sendInLoop_acts {x : Ctx κ} (hb : Bound x) (message : List Byte) (r : WriteResult) :
    ∃ y, x.sendInLoop message r = .ok y ∧ Acts x y := by
  have hbuf := buffered_acts hb message r
  rw [sendInLoop_eq, require_of hb.thread, ok_bind, bufferRest]
  by_cases hlt : x.direct r < message.length
  · rw [if_pos hlt]
    show ∃ y, (if !(x.buffered message r).conn.channel_.isWriting then
      (x.buffered message r).update (x.buffered message r).conn.channel_.enableWriting
      else pure (x.buffered message r)) = .ok y ∧ Acts x y
    by_cases hw : (x.buffered message r).conn.channel_.isWriting = true
    · rw [hw]
      exact ⟨_, rfl, hbuf⟩
    · rw [Bool.not_eq_true] at hw
      rw [hw]
      obtain ⟨hok, hact⟩ := update_acts (hbuf.bound hb)
        (x.buffered message r).conn.channel_.enableWriting rfl rfl
      exact ⟨_, hok, hbuf.trans hact⟩
  · rw [if_neg hlt]
    exact ⟨_, rfl, afterWrite_acts hb message r⟩

theorem handleWrite_acts {x : Ctx κ} (hb : Bound x) {r : WriteResult}
    (hr : r.Legal x.conn.outputBuffer_.readableBytes) :
    ∃ y, x.handleWrite r = .ok y ∧ Acts x y := by
  have hn := WriteResult.nwrote_le hr
  have hout : Acts x (x.sentOut r.nwrote hn) := Acts.still hb rfl rfl rfl rfl rfl rfl
  by_cases hpos : x.conn.channel_.isWriting = true ∧ 0 < r.nwrote
  · rw [handleWrite_eq hb.thread hpos.1 hpos.2 hn]
    by_cases h0 : (x.sentOut r.nwrote hn).conn.outputBuffer_.readableBytes = 0
    · rw [if_pos h0]
      obtain ⟨hok, hact⟩ := update_acts (hout.bound hb)
        (x.sentOut r.nwrote hn).conn.channel_.disableWriting rfl rfl
      have hb' := (hout.trans hact).bound hb
      have hquiet : Acts x (x.sentOut r.nwrote hn).quiet :=
        (hout.trans hact).trans (Acts.still hb' (notify_thread _) (notify_self _)
          (notify_poller _) (by rw [quiet, notify_conn]) (by rw [quiet, notify_conn])
          (by rw [quiet, notify_conn]))
      unfold drained
      rw [hok, ok_bind]
      show ∃ y, (if (x.sentOut r.nwrote hn).quiet.conn.state_ = .kDisconnected then
        (x.sentOut r.nwrote hn).quiet.shutdownInLoop
        else pure (x.sentOut r.nwrote hn).quiet) = .ok y ∧ Acts x y
      have hbq := hquiet.bound hb
      split_ifs with hst
      · rw [shutdownInLoop_eq hbq.thread]
        split_ifs
        · exact ⟨_, rfl, hquiet⟩
        · exact ⟨_, rfl, hquiet.trans (Acts.still hbq rfl rfl rfl rfl rfl rfl)⟩
      · exact ⟨_, rfl, hquiet⟩
    · rw [if_neg h0]
      exact ⟨_, rfl, hout⟩
  · refine ⟨x, ?_, Acts.refl hb⟩
    unfold handleWrite
    rw [require_of hb.thread, ok_bind]
    split_ifs with hw h1
    · exact absurd ⟨hw, h1⟩ hpos
    · rfl
    · rfl

/-- What `send` and `shutdown` leave alone when they only touch the socket. -/
structure Still (x y : Ctx κ) : Prop where
  poller : y.poller = x.poller
  channel : y.conn.channel_ = x.conn.channel_
  pending : y.pending = x.pending

theorem sendInLoop_plain {x : Ctx κ} (hb : Bound x) (message : List Byte) (r : WriteResult) :
    ∃ y, x.sendInLoop message r = .ok y ∧ Plain x y ∧ y.conn.state_ = x.conn.state_ ∧
      (message.length ≤ x.direct r → Still x y) := by
  obtain ⟨y, hy, hact⟩ := sendInLoop_acts hb message r
  have hm := sendInLoop_moved hy
  refine ⟨y, hy, ⟨hact, hm.calls_plain⟩, hm.state, fun hall => ?_⟩
  obtain rfl := sendInLoop_complete hy hall
  obtain ⟨-, -, hpoll, hconn, -⟩ := afterWrite_frame x message r
  exact ⟨hpoll, by rw [hconn], by rw [pending, pending, hconn]⟩

theorem handleWrite_plain {x : Ctx κ} (hb : Bound x) {r : WriteResult}
    (hr : r.Legal x.conn.outputBuffer_.readableBytes) :
    ∃ y, x.handleWrite r = .ok y ∧ Plain x y ∧ y.conn.state_ = x.conn.state_ := by
  obtain ⟨y, hy, hact⟩ := handleWrite_acts hb hr
  have hm := handleWrite_moved hy
  exact ⟨y, hy, ⟨hact, hm.calls_plain⟩, hm.state⟩

/-- `shutdownInLoop` changes the socket only. -/
theorem shutdownInLoop_plain {x : Ctx κ} (hb : Bound x) :
    ∃ y, x.shutdownInLoop = .ok y ∧ Plain x y ∧ y.conn.state_ = x.conn.state_ ∧ Still x y := by
  rw [shutdownInLoop_eq hb.thread]
  split_ifs
  · exact ⟨x, rfl, Plain.refl hb, rfl, rfl, rfl, rfl⟩
  · exact ⟨x.shutDown, rfl, ⟨Acts.still hb rfl rfl rfl rfl rfl rfl, id⟩, rfl, rfl, rfl, rfl⟩

/-- `send` on the loop thread. -/
theorem send_plain {x : Ctx κ} (hb : Bound x) (message : List Byte) (r : WriteResult) :
    ∃ y, x.send message r = .ok y ∧ Plain x y ∧ y.conn.state_ = x.conn.state_ ∧
      (x.conn.state_ ≠ .kConnected → y = x) ∧
      ((x.conn.state_ = .kConnected → message.length ≤ x.direct r) → Still x y) := by
  unfold send
  split_ifs with hk
  · obtain ⟨y, hy, hp, hst, hstill⟩ := sendInLoop_plain hb message r
    exact ⟨y, hy, hp, hst, fun hn => absurd hk hn, fun hall => hstill (hall hk)⟩
  · exact ⟨x, rfl, Plain.refl hb, rfl, fun _ => rfl, fun _ => ⟨rfl, rfl, rfl⟩⟩

/-- `shutdown` on the loop thread. -/
theorem shutdown_plain {x : Ctx κ} (hb : Bound x) :
    ∃ y, x.shutdown = .ok y ∧ Plain x y ∧ Still x y ∧ (x.conn.state_ ≠ .kConnected → y = x) ∧
      (x.conn.state_ = .kConnected → y.conn.state_ = .kDisconnecting) := by
  unfold shutdown
  split_ifs with hk
  · have hset : Acts x (x.setState .kDisconnecting) := Acts.still hb rfl rfl rfl rfl rfl rfl
    obtain ⟨y, hy, hp, hst, hstill⟩ := shutdownInLoop_plain (hset.bound hb)
    exact ⟨y, hy, ⟨hset.trans hp.toActs, hp.calls⟩, ⟨hstill.poller, hstill.channel, hstill.pending⟩,
      fun hn => absurd hk hn, fun _ => hst⟩
  · exact ⟨x, rfl, Plain.refl hb, ⟨rfl, rfl, rfl⟩, fun _ => rfl, fun h => absurd h hk⟩

theorem connectEstablished_plain {x : Ctx κ} (hb : Bound x) (hs : x.conn.state_ = .kConnecting) :
    ∃ y, x.connectEstablished = .ok y ∧ Plain x y := by
  have hset : Acts x (x.setState .kConnected) := Acts.still hb rfl rfl rfl rfl rfl rfl
  obtain ⟨hok, hact⟩ := update_acts (hset.bound hb) x.conn.channel_.enableReading rfl rfl
  refine ⟨_, ?_, (hset.trans hact).call .connectionCallback, fun hx => ?_⟩
  swap
  · simpa [call, updated, setState, setConn] using hx
  unfold connectEstablished
  rw [require_of hb.thread, ok_bind, require_of hs, ok_bind, hok]
  rfl

/-- `handleClose` succeeds in the states it asserts and ends with the close callback. -/
theorem handleClose_acts {x : Ctx κ} (hb : Bound x)
    (hs : x.conn.state_ = .kConnected ∨ x.conn.state_ = .kDisconnecting) :
    ∃ y, x.handleClose = .ok y ∧ Acts x y ∧ y.calls = x.calls ++ [.closeCallback] ∧
      y.conn.state_ = x.conn.state_ := by
  obtain ⟨hok, hact⟩ := update_acts hb x.conn.channel_.disableAll rfl rfl
  refine ⟨_, ?_, hact.call .closeCallback, rfl, rfl⟩
  unfold handleClose
  rw [require_of hb.thread, ok_bind, require_of hs, ok_bind, hok]
  rfl

/-- The context after the bytes or the error of `read` have been put away. -/
def received (x : Ctx κ) (r : Buffer.ReadResult) : Ctx κ :=
  x.setConn { x.conn with inputBuffer_ := x.conn.inputBuffer_.readFd r }

theorem received_acts {x : Ctx κ} (hb : Bound x) (r : Buffer.ReadResult) :
    Acts x (x.received r) := Acts.still hb rfl rfl rfl rfl rfl rfl

/-- A read that does not find the end of the file. -/
theorem handleRead_plain {x : Ctx κ} (hb : Bound x) {r : Buffer.ReadResult} (hr : r ≠ .bytes []) :
    ∃ y, x.handleRead r = .ok y ∧ Plain x y ∧ y.conn.state_ = x.conn.state_ ∧ Still x y := by
  have hrecv := received_acts hb r
  rcases handleRead_cases x r with ⟨h0, -⟩ | ⟨-, h | h⟩
  · exact absurd h0 hr
  · exact ⟨_, h, ⟨hrecv, id⟩, rfl, rfl, rfl, rfl⟩
  · refine ⟨_, h, ⟨hrecv.call .messageCallback, fun hx => ?_⟩, rfl, rfl, rfl, rfl⟩
    simpa [call, setConn] using hx

/-- `connectDestroyed` succeeds in the states it asserts and takes the channel off the poller. -/
theorem connectDestroyed_plain {x : Ctx κ} (hb : Bound x)
    (hs : x.conn.state_ = .kConnected ∨ x.conn.state_ = .kDisconnecting) :
    ∃ y, x.connectDestroyed = .ok y ∧ Plain x y ∧ y.conn.channel_.index_ = EPoller.kNew := by
  have hset : Acts x (x.setState .kDisconnected) := Acts.still hb rfl rfl rfl rfl rfl rfl
  obtain ⟨hok, hact⟩ := update_acts (hset.bound hb) x.conn.channel_.disableAll rfl rfl
  have htorn : Acts x x.torndown := (hset.trans hact).call .connectionCallback
  have hb' := htorn.bound hb
  have hidx : x.torndown.conn.channel_.index_ ≠ EPoller.kNew := by
    show EPoller.updatedIndex x.conn.channel_.disableAll ≠ EPoller.kNew
    unfold EPoller.updatedIndex
    split_ifs <;> decide
  obtain ⟨ep, hrem, hagree⟩ := EPoller.removeChannel_agrees hb'.agrees hidx
    (Channel.isNoneEvent_disableAll x.conn.channel_)
  set y : Ctx κ := { x.torndown with
    conn := { x.torndown.conn with channel_ := x.torndown.conn.channel_.set_index EPoller.kNew }
    poller := ep }
  have hremoved : x.torndown.removeChannel = .ok y := by
    unfold removeChannel
    rw [require_of hb'.thread, ok_bind, hrem]
    rfl
  refine ⟨y, ?_, ⟨htorn.trans ⟨⟨rfl, rfl, rfl, rfl, rfl⟩, hagree, fun fd hne => ?_⟩, fun hx => ?_⟩,
    rfl⟩
  · unfold connectDestroyed
    rw [require_of hb.thread, ok_bind, require_of hs, ok_bind, hok, ok_bind]
    exact hremoved
  · obtain ⟨hmap, hint, -⟩ := EPoller.removeChannel_ok hrem
    show ep.channels_ fd = _ ∧ ep.interest fd = _
    rw [hmap, hint fd hne]
    exact ⟨Function.update_of_ne hne _ _, rfl⟩
  · show .closeCallback ∉ x.calls ++ [.connectionCallback]
    simpa using hx

/-! ### Whatever the records say -/

/-- What a member function does that succeeds, even when the records do not agree: it keeps the
identity of the connection, adds no other connection to the kernel's set, and calls the close
callback last. -/
structure Does (x y : Ctx κ) : Prop extends Frame x y where
  interest : ∀ fd e, y.poller.interest fd = some e → x.poller.interest fd = some e ∨ e.2 = x.self
  calls : .closeCallback ∉ x.calls →
    .closeCallback ∉ y.calls ∨ y.calls = x.calls ++ [.closeCallback]

/-- An update adds no other connection to the kernel's set. -/
theorem updated_interest (x : Ctx κ) (ch : Channel) {fd : ℕ} {e : Events × κ}
    (h : (x.updated ch).poller.interest fd = some e) :
    x.poller.interest fd = some e ∨ e.2 = x.self := by
  change Function.update x.poller.interest ch.fd_ _ fd = some e at h
  by_cases hfd : fd = ch.fd_
  · rw [hfd, Function.update_self] at h
    split_ifs at h
    cases h
    exact .inr rfl
  · rw [Function.update_of_ne hfd] at h
    exact .inl h

/-- An update puts the channel into the map. -/
theorem updated_mapped (x : Ctx κ) (ch : Channel) :
    (x.updated ch).poller.channels_ ch.fd_ = some x.self := Function.update_self ..

/-- A function that does not call the close callback. -/
theorem Does.of_plain {x y : Ctx κ} (hf : Frame x y)
    (hi : ∀ fd e, y.poller.interest fd = some e → x.poller.interest fd = some e ∨ e.2 = x.self)
    (hc : .closeCallback ∉ x.calls → .closeCallback ∉ y.calls) : Does x y :=
  ⟨hf, hi, fun h => .inl (hc h)⟩

theorem Does.refl (x : Ctx κ) : Does x x := .of_plain (Frame.refl x) (fun _ _ => .inl) id

theorem sendInLoop_does {x y : Ctx κ} {message : List Byte} {r : WriteResult}
    (h : x.sendInLoop message r = .ok y) : Does x y := by
  have hm := sendInLoop_moved h
  obtain ⟨-, hself, hpoll, -⟩ := afterWrite_frame x message r
  refine .of_plain hm.frame (fun fd e he => ?_) hm.calls_plain
  rcases sendInLoop_cases h with ⟨-, rfl⟩ | ⟨-, -, rfl⟩ | ⟨-, -, rfl⟩
  · rw [hpoll] at he
    exact .inl he
  · change (x.afterWrite message r).poller.interest fd = some e at he
    rw [hpoll] at he
    exact .inl he
  · have hu := updated_interest _ _ he
    change (x.afterWrite message r).poller.interest fd = some e ∨
      e.2 = (x.afterWrite message r).self at hu
    rwa [hpoll, hself] at hu

theorem shutdownInLoop_does {x y : Ctx κ} (h : x.shutdownInLoop = .ok y) : Does x y := by
  unfold shutdownInLoop at h
  obtain ⟨-, h⟩ := require_bind_ok.1 h
  split_ifs at h <;> cases h
  · exact .of_plain ⟨rfl, rfl, rfl, rfl, rfl⟩ (fun _ _ => .inl) id
  · exact Does.refl x

theorem send_does {x y : Ctx κ} {message : List Byte} {r : WriteResult}
    (h : x.send message r = .ok y) : Does x y := by
  unfold send at h
  split_ifs at h
  · exact sendInLoop_does h
  · cases h
    exact Does.refl x

theorem shutdown_does {x y : Ctx κ} (h : x.shutdown = .ok y) : Does x y := by
  unfold shutdown at h
  split_ifs at h
  · have hd := shutdownInLoop_does h
    exact ⟨⟨hd.thread, hd.self, hd.loop, hd.name, hd.fd⟩, hd.interest, hd.calls⟩
  · cases h
    exact Does.refl x

theorem handleWrite_does {x y : Ctx κ} {r : WriteResult} (h : x.handleWrite r = .ok y) :
    Does x y := by
  have hm := handleWrite_moved h
  refine .of_plain hm.frame (fun fd e he => ?_) hm.calls_plain
  rcases handleWrite_cases h with rfl | ⟨hn, -, -, rfl⟩ | ⟨hn, -, -, hd⟩
  · exact .inl he
  · exact .inl he
  · have hpoll : y.poller = (x.sentOut r.nwrote hn).quiet.poller := by
      rw [drained_ok hd]
      split_ifs <;> rfl
    rw [hpoll, quiet, notify_poller] at he
    exact updated_interest _ _ he

theorem handleClose_does {x y : Ctx κ} (h : x.handleClose = .ok y) : Does x y := by
  obtain ⟨-, -, rfl⟩ := handleClose_ok h
  exact ⟨⟨rfl, rfl, rfl, rfl, rfl⟩, fun _ _ => updated_interest x _, fun _ => .inr rfl⟩

theorem handleRead_does {x y : Ctx κ} {r : Buffer.ReadResult} (h : x.handleRead r = .ok y) :
    Does x y := by
  rcases handleRead_cases x r with ⟨-, h'⟩ | ⟨-, h' | h'⟩
  · rw [h'] at h
    have hd := handleClose_does h
    exact ⟨⟨hd.thread, hd.self, hd.loop, hd.name, hd.fd⟩, hd.interest, hd.calls⟩
  · rw [h'] at h
    cases h
    exact .of_plain ⟨rfl, rfl, rfl, rfl, rfl⟩ (fun _ _ => .inl) id
  · rw [h'] at h
    cases h
    refine .of_plain ⟨rfl, rfl, rfl, rfl, rfl⟩ (fun _ _ => .inl) fun hx => ?_
    simpa [call, setConn] using hx

theorem connectEstablished_does {x y : Ctx κ} (h : x.connectEstablished = .ok y) :
    Does x y := by
  obtain ⟨-, -, rfl⟩ := connectEstablished_ok h
  refine .of_plain ⟨rfl, rfl, rfl, rfl, rfl⟩
    (fun _ _ => updated_interest (x.setState .kConnected) _) fun hx => ?_
  simpa [call, updated, setState, setConn] using hx

theorem connectDestroyed_does {x y : Ctx κ} (h : x.connectDestroyed = .ok y) : Does x y := by
  obtain ⟨-, -, hth, hself, hcalls, hconn, -, hint⟩ := connectDestroyed_ok h
  refine .of_plain ⟨hth, hself, by rw [hconn]; rfl, by rw [hconn]; rfl, by rw [hconn]; rfl⟩
    (fun fd e he => updated_interest (x.setState .kDisconnected) _ (hint fd e he)) fun hx => ?_
  rw [hcalls]
  simpa using hx

/-! ### The channel before and after `handleClose` -/

/-- The channel of an established connection: it is in the kernel's set and reading, and writing
when output is pending. -/
structure Open (conn : TcpConnection) : Prop where
  index : conn.channel_.index_ = EPoller.kAdded
  reading : conn.channel_.isReading = true
  synced : conn.channel_.isWriting = true ↔ conn.outputBuffer_.readable ≠ []

/-- The channel of a closed connection: it is not in the kernel's set and not writing. -/
structure Shut (conn : TcpConnection) : Prop where
  index : conn.channel_.index_ ≠ EPoller.kAdded
  writing : conn.channel_.isWriting = false

theorem Live.open {x : Ctx κ} (h : Live x) : Open x.conn := ⟨h.index, h.reading, h.synced⟩

theorem Live.bound {x : Ctx κ} (h : Live x) : Bound x :=
  ⟨h.thread, .inr (.inl ⟨h.index, h.mapped, h.watched⟩)⟩

/-- A connection with an open channel is live when the records of the poller agree. -/
theorem Open.live {x : Ctx κ} (h : Open x.conn) (hb : Bound x)
    (hs : x.conn.state_ = .kConnected ∨ x.conn.state_ = .kDisconnecting) : Live x := by
  obtain ⟨hc, hk⟩ := hb.agrees.added h.index
  exact ⟨⟨hb.thread, h.index, hc, hk, h.reading⟩, hs, h.synced⟩

/-- The kernel does not watch a channel that is shut. -/
theorem Shut.unwatched {x : Ctx κ} (h : Shut x.conn) (hb : Bound x) :
    x.poller.interest x.conn.channel_.fd_ = none := by
  rcases hb.agrees with ⟨-, -, hk⟩ | ⟨hi, -⟩ | ⟨-, -, hk⟩
  · exact hk
  · exact absurd hi h.index
  · exact hk

theorem Shut.of_channel {c c' : TcpConnection} (h : Shut c) (hch : c'.channel_ = c.channel_) :
    Shut c' := ⟨by rw [hch]; exact h.index, by rw [hch]; exact h.writing⟩

/-- `handleClose` shuts an open channel. -/
theorem handleClose_shut {x y : Ctx κ} (h : Open x.conn) (hy : x.handleClose = .ok y) :
    Shut y.conn := by
  obtain ⟨-, -, rfl⟩ := handleClose_ok hy
  have hd : EPoller.Drops x.conn.channel_.disableAll :=
    ⟨h.index, Channel.isNoneEvent_disableAll _⟩
  refine ⟨?_, Channel.isWriting_disableAll x.conn.channel_⟩
  show EPoller.updatedIndex x.conn.channel_.disableAll ≠ EPoller.kAdded
  rw [EPoller.updatedIndex, if_pos hd]
  decide

theorem connectDestroyed_shut {x y : Ctx κ} (hy : x.connectDestroyed = .ok y) : Shut y.conn := by
  obtain ⟨-, -, -, -, -, hconn, -⟩ := connectDestroyed_ok hy
  rw [hconn]
  exact ⟨by show EPoller.kNew ≠ EPoller.kAdded; decide,
    Channel.isWriting_disableAll x.conn.channel_⟩

/-- `handleWrite` does nothing on a channel that is shut. -/
theorem handleWrite_of_shut {x y : Ctx κ} {r : WriteResult} (h : Shut x.conn)
    (hy : x.handleWrite r = .ok y) : y = x := by
  have hw : ¬ x.conn.channel_.isWriting = true := by rw [h.writing]; decide
  rcases handleWrite_cases hy with h1 | ⟨-, h1, -⟩ | ⟨-, h1, -⟩
  · exact h1
  · exact absurd h1 hw
  · exact absurd h1 hw

end Ctx

end Fppnet
