import Fppnet.Net.Wiring

/-!
# What a step of a network can do

* `Steps`: for each label what holds before a step that succeeds, and the state after it.
  `step_cases` is the inversion lemma of `step`;
* `Extends`: what a member function calls or queues outside the connection moves nothing but the
  owner, its log and the queues, which it extends by functors that own their connection
  (`enact_extends`).
-/

namespace Fppnet

open Checked Runs TcpConnection

namespace Network

/-! ### Inversion -/

inductive Steps (s : Network) : Label → Network → Prop
  | newConnection {sv : TcpServer} {sockfd : ℕ} {writeComplete : Bool} {t : Network}
      (ho : s.owner = .server sv) (hfd : s.FreshFd sockfd)
      (ht : s.serverNewConnection sv sockfd writeComplete = .ok t) :
      Steps s (.newConnection sockfd writeComplete) t
  | destroyServer {sv : TcpServer} (ho : s.owner = .server sv) :
      Steps s .destroyServer (s.setOwner .destroyed)
  | clientCall {cl : TcpClient} (call : ClientCall) (ho : s.owner = .client cl) :
      Steps s (.clientCall call) (s.setOwner (.client (cl.call call)))
  | startInLoop {cl : TcpClient} {r : ConnectResult} {k : Connector} (ho : s.owner = .client cl)
      (hk : cl.connector_.startInLoop r = .ok k) :
      Steps s (.startInLoop r) (s.setOwner (.client { cl with connector_ := k }))
  | connectorEvent {cl : TcpClient} {attempt : Attempt} (k : Connector) (ho : s.owner = .client cl)
      (hst : cl.connector_.state_ ≠ .kConnected) :
      Steps s (.connectorEvent attempt) (s.setOwner (.client { cl with connector_ := k }))
  | connected {cl : TcpClient} {sockfd : ℕ} {peerAddr : String} {writeComplete : Bool} {t : Network}
      (ho : s.owner = .client cl) (hst : cl.connector_.state_ = .kConnecting)
      (hfd : s.FreshFd sockfd)
      (ht : s.clientNewConnection
        { cl with connector_ := { cl.connector_ with state_ := .kConnected } } sockfd peerAddr
        writeComplete = .ok t) :
      Steps s (.connectorEvent (.established sockfd peerAddr writeComplete)) t
  | poll {loop : LoopId} {activeChannels : List (ConnId × Events)} (hidle : s.active loop = [])
      (hnodup : (activeChannels.map Prod.fst).Nodup)
      (hwatch : ∀ p ∈ activeChannels, s.Watches loop p.1) :
      Steps s (.poll loop activeChannels)
        { s with active := Function.update s.active loop (activeChannels.flatMap s.callbacks) }
  | handle {loop : LoopId} {a : Answers} {c : ConnId} {hd : Handler}
      {rest : List (ConnId × Handler)} {t : Network} (hq : s.active loop = (c, hd) :: rest)
      (hlegal : a.write.Legal (s.conns c).outputBuffer_.readableBytes) (hfree : s.freed c = false)
      (ht : enact { s with active := Function.update s.active loop rest } a.connect
        (runHandler (s.ctx loop c) a hd) = .ok t) : Steps s (.handle loop a) t
  | functor {loop : LoopId} {a : Answers} {f : Functor} {rest : List Functor} {t : Network}
      (hidle : s.active loop = []) (hq : s.functors loop = f :: rest) (hlegal : LegalFor a f)
      (ht : runFunctor { s with functors := Function.update s.functors loop rest } loop a f =
        .ok t) : Steps s (.functor loop a) t
  | send {c : ConnId} {message : List Byte} {a : Answers} {t : Network} (hu : s.Usable c)
      (hlegal : a.write.Legal message.length)
      (ht : s.enact a.connect ((s.ctx (s.conns c).loop_ c).send message a.write) = .ok t) :
      Steps s (.send c message a) t
  | shutdown {c : ConnId} {a : Answers} {t : Network} (hu : s.Usable c)
      (ht : s.enact a.connect (s.ctx (s.conns c).loop_ c).shutdown = .ok t) :
      Steps s (.shutdown c a) t
  | foreignSend {c : ConnId} (message : List Byte) (hu : s.Usable c)
      (hk : (s.conns c).state_ = .kConnected) :
      Steps s (.foreignSend c message) { s with calls := .send c message :: s.calls }
  | foreignShutdown {c : ConnId} (hu : s.Usable c) (hk : (s.conns c).state_ = .kConnected) :
      Steps s (.foreignShutdown c) { s with calls := .shutdown c :: s.calls }
  | proceedSend {c : ConnId} {message : List Byte} (hu : .send c message ∈ s.calls) :
      Steps s (.proceed (.send c message))
        (queueInLoop { s with calls := s.calls.erase (.send c message) } (s.conns c).loop_
          (.sendInLoop c message))
  | proceedShutdown {c : ConnId} (hu : .shutdown c ∈ s.calls) :
      Steps s (.proceed (.shutdown c))
        { s with
          conns := Function.update s.conns c { s.conns c with state_ := .kDisconnecting }
          calls := .shuttingDown c :: s.calls.erase (.shutdown c) }
  | proceedShuttingDown {c : ConnId} (hu : .shuttingDown c ∈ s.calls) :
      Steps s (.proceed (.shuttingDown c))
        (queueInLoop { s with calls := s.calls.erase (.shuttingDown c) } (s.conns c).loop_
          (.shutdownInLoop c))
  | hold {c : ConnId} (hu : s.Usable c) :
      Steps s (.hold c) { s with held := Function.update s.held c (s.held c + 1) }
  | drop {c : ConnId} (hpos : 0 < s.held c) :
      Steps s (.drop c) { s with held := Function.update s.held c (s.held c - 1) }
  | free {c : ConnId} (hu : s.Usable c) (hown : ¬ s.Owned c) :
      Steps s (.free c) { s with freed := Function.update s.freed c true }

theorem serverStep_cases {s t : Network} {sv : TcpServer} {l : Label} (ho : s.owner = .server sv)
    (hs : s.serverStep sv l = some (.ok t)) : s.Steps l t := by
  cases l <;> simp only [serverStep, Option.ite_none_right_eq_some, reduceCtorEq] at hs
  case newConnection sockfd wc => exact .newConnection ho hs.1 (Option.some.inj hs.2)
  case destroyServer =>
    cases hs
    exact .destroyServer ho

/-- The end of an attempt to connect changes the connector only, unless there is a connection. -/
theorem connectorEvent_cases {s t : Network} {cl : TcpClient} {attempt : Attempt}
    (ho : s.owner = .client cl) (hst : cl.connector_.state_ ≠ .kConnected)
    (hfresh : s.FreshFor attempt) (hs : s.connectorHandleWrite cl attempt = .ok t) :
    s.Steps (.connectorEvent attempt) t := by
  -- an event that finds no attempt under way
  have hnone : (require (cl.connector_.state_ = .kDisconnected) Failure.connectorState >>=
      fun _ => pure s) = .ok t → s.Steps (.connectorEvent attempt) t := fun h => by
    obtain ⟨-, h⟩ := require_bind_ok.1 h
    cases h
    have hsame : s.setOwner (.client cl) = s := by
      rw [← ho]
      rfl
    have hstep : s.Steps (.connectorEvent attempt) (s.setOwner (.client cl)) :=
      .connectorEvent cl.connector_ ho hst
    rwa [hsame] at hstep
  cases attempt with
  | failed =>
    unfold connectorHandleWrite at hs
    split_ifs at hs with hk
    · cases hs
      exact .connectorEvent _ ho hst
    · exact hnone hs
  | established sockfd peerAddr wc =>
    unfold connectorHandleWrite at hs
    simp only at hs
    split_ifs at hs with hk hconn
    · exact .connected ho hk hfresh hs
    · cases hs
      exact .connectorEvent _ ho hst
    · exact hnone hs

theorem clientStep_cases {s t : Network} {cl : TcpClient} {l : Label} (ho : s.owner = .client cl)
    (hs : s.clientStep cl l = some (.ok t)) : s.Steps l t := by
  cases l <;> simp only [clientStep, Option.ite_none_right_eq_some, reduceCtorEq] at hs
  case clientCall call =>
    cases hs
    exact .clientCall call ho
  case startInLoop r =>
    cases hk : cl.connector_.startInLoop r with
    | error e => rw [hk] at hs; cases hs
    | ok k =>
      rw [hk] at hs
      cases hs
      exact .startInLoop ho hk
  case connectorEvent attempt =>
    exact connectorEvent_cases ho hs.1.1 hs.1.2 (Option.some.inj hs.2)

theorem loopStep_cases {s t : Network} {l : Label} (hs : s.loopStep l = some (.ok t)) :
    s.Steps l t := by
  cases l <;> simp only [loopStep, reduceCtorEq] at hs
  case poll loop activeChannels =>
    rw [Option.ite_none_right_eq_some] at hs
    obtain ⟨⟨hidle, hnodup, hwatch⟩, hs⟩ := hs
    obtain ⟨-, hs⟩ := require_bind_ok.1 (Option.some.inj hs)
    cases hs
    exact .poll hidle hnodup hwatch
  case handle loop a =>
    split at hs
    · cases hs
    · next c hd rest hq =>
      rw [Option.ite_none_right_eq_some] at hs
      obtain ⟨hlegal, hs⟩ := hs
      obtain ⟨hfree, hs⟩ := require_bind_ok.1 (Option.some.inj hs)
      exact .handle hq hlegal hfree hs
  case functor loop a =>
    split at hs
    · next f rest hidle hq =>
      rw [Option.ite_none_right_eq_some] at hs
      exact .functor hidle hq hs.1 (Option.some.inj hs.2)
    · cases hs

theorem userStep_cases {s t : Network} {l : Label} (hs : s.userStep l = some (.ok t)) :
    s.Steps l t := by
  cases l <;> simp only [userStep, Option.ite_none_right_eq_some, reduceCtorEq] at hs
  case send c message a => exact .send hs.1.1 hs.1.2 (Option.some.inj hs.2)
  case shutdown c a => exact .shutdown hs.1 (Option.some.inj hs.2)
  case foreignSend c message =>
    obtain ⟨⟨hu, hk⟩, hs⟩ := hs
    cases hs
    exact .foreignSend message hu hk
  case foreignShutdown c =>
    obtain ⟨⟨hu, hk⟩, hs⟩ := hs
    cases hs
    exact .foreignShutdown hu hk
  case proceed u =>
    obtain ⟨hu, hs⟩ := hs
    cases u with
    | send c message => cases hs; exact .proceedSend hu
    | shutdown c => cases hs; exact .proceedShutdown hu
    | shuttingDown c => cases hs; exact .proceedShuttingDown hu
  case hold c =>
    obtain ⟨hu, hs⟩ := hs
    cases hs
    exact .hold hu
  case drop c =>
    obtain ⟨hpos, hs⟩ := hs
    cases hs
    exact .drop hpos
  case free c =>
    obtain ⟨⟨hu, hown⟩, hs⟩ := hs
    cases hs
    exact .free hu hown

/-- **What a step can do.** -/
theorem step_cases {s t : Network} {l : Label} (hs : Moves step s l t) : s.Steps l t := by
  unfold Moves step at hs
  split at hs
  · split at hs
    · next ho => exact serverStep_cases ho hs
    · cases hs
  · split at hs
    · next ho => exact serverStep_cases ho hs
    · cases hs
  · split at hs
    · next ho => exact clientStep_cases ho hs
    · cases hs
  · split at hs
    · next ho => exact clientStep_cases ho hs
    · cases hs
  · split at hs
    · next ho => exact clientStep_cases ho hs
    · cases hs
  · exact loopStep_cases hs
  · exact loopStep_cases hs
  · exact loopStep_cases hs
  · exact userStep_cases hs

theorem runHandler_does {x y : Ctx ConnId} {a : Answers} {hd : Handler}
    (h : runHandler x a hd = .ok y) : x.Does y := by
  cases hd with
  | close => exact Ctx.handleClose_does h
  | error =>
    cases h
    exact Ctx.Does.refl x
  | read => exact Ctx.handleRead_does h
  | write => exact Ctx.handleWrite_does h

/-! ### Callbacks and queued functors -/

/-- What the functions behind a member function leave alone, and what they add to the queues. -/
structure Extends (s t : Network) : Prop extends s.Unmoved t where
  held : t.held = s.held
  times : ∀ c, t.times c .established = s.times c .established ∧
    t.times c .destroyed = s.times c .destroyed
  functors : ∀ l, ∃ fs, t.functors l = s.functors l ++ fs ∧ ∀ f ∈ fs, f.owns ≠ none

namespace Extends

theorem refl (s : Network) : s.Extends s :=
  ⟨⟨rfl, rfl, rfl, rfl, rfl, rfl, rfl⟩, rfl, fun _ => ⟨rfl, rfl⟩,
    fun _ => ⟨[], (List.append_nil _).symm, fun _ hf => by cases hf⟩⟩

theorem trans {s t u : Network} (h : s.Extends t) (h' : t.Extends u) : s.Extends u where
  loops := h'.loops.trans h.loops
  accepted := h'.accepted.trans h.accepted
  conns := h'.conns.trans h.conns
  pollers := h'.pollers.trans h.pollers
  active := h'.active.trans h.active
  calls := h'.calls.trans h.calls
  freed := h'.freed.trans h.freed
  held := h'.held.trans h.held
  times := fun c => ⟨(h'.times c).1.trans (h.times c).1, (h'.times c).2.trans (h.times c).2⟩
  functors := fun l => by
    obtain ⟨fs, hfs, howns⟩ := h.functors l
    obtain ⟨gs, hgs, howns'⟩ := h'.functors l
    refine ⟨fs ++ gs, by rw [hgs, hfs, List.append_assoc], fun f hf => ?_⟩
    rcases List.mem_append.1 hf with hf | hf
    · exact howns f hf
    · exact howns' f hf

/-- The log of another function is written. -/
theorem record (s : Network) (c : ConnId) {life : Life} (thread : LoopId)
    (he : life ≠ .established) (hd : life ≠ .destroyed) :
    s.Extends (s.record c life thread) :=
  ⟨⟨rfl, rfl, rfl, rfl, rfl, rfl, rfl⟩, rfl,
    fun c' => ⟨times_record_of_ne s c c' thread he, times_record_of_ne s c c' thread hd⟩,
    fun _ => ⟨[], (List.append_nil _).symm, fun _ hf => by cases hf⟩⟩

theorem queueInLoop (s : Network) (loop : LoopId) {f : Functor} (hf : f.owns ≠ none) :
    s.Extends (s.queueInLoop loop f) := by
  refine ⟨⟨rfl, rfl, rfl, rfl, rfl, rfl, rfl⟩, rfl, fun _ => ⟨rfl, rfl⟩, fun l => ?_⟩
  by_cases hl : l = loop
  · subst hl
    refine ⟨[f], Function.update_self .., fun g hg => ?_⟩
    rw [List.mem_singleton.1 hg]
    exact hf
  · refine ⟨[], ?_, fun g hg => by cases hg⟩
    rw [List.append_nil]
    exact Function.update_of_ne hl ..

theorem setOwner (s : Network) (o : Owner) : s.Extends (s.setOwner o) :=
  ⟨⟨rfl, rfl, rfl, rfl, rfl, rfl, rfl⟩, rfl, fun _ => ⟨rfl, rfl⟩,
    fun _ => ⟨[], (List.append_nil _).symm, fun _ hf => by cases hf⟩⟩

end Extends

theorem removeConnectionInLoop_extends {s t : Network} {thread : LoopId} {c : ConnId}
    (hs : s.removeConnectionInLoop thread c = .ok t) : s.Extends t := by
  obtain ⟨sv, -, -, -, rfl⟩ := removeConnectionInLoop_ok hs
  exact ((Extends.setOwner s _).trans (.record _ c thread (by decide) (by decide))).trans
    (.queueInLoop _ _ (by rintro ⟨⟩))

theorem removeConnection_extends {s t : Network} {thread : LoopId} {c : ConnId} {r : ConnectResult}
    (hs : s.removeConnection thread c r = .ok t) : s.Extends t := by
  cases removeConnection_cases hs with
  | now hs => exact removeConnectionInLoop_extends hs
  | later ho => exact .queueInLoop s _ (by rintro ⟨⟩)
  | client ho hth hloop hown k =>
    exact ((Extends.record s c thread (by decide) (by decide)).trans
      (.queueInLoop _ _ (by rintro ⟨⟩))).trans (.setOwner _ _)

theorem perform_extends {s t : Network} {thread : LoopId} {c : ConnId} {r : ConnectResult}
    {call : Call} (hs : s.perform thread c r call = .ok t) : s.Extends t := by
  cases call with
  | queueWriteComplete =>
    cases hs
    exact .queueInLoop s _ (by rintro ⟨⟩)
  | connectionCallback => cases hs; exact .refl s
  | messageCallback => cases hs; exact .refl s
  | closeCallback =>
    exact (Extends.record s c thread (by decide) (by decide)).trans (removeConnection_extends hs)

/-- **A member function moves its own connection and its poller**, and what it calls only adds to
the queues. -/
theorem enact_extends {s t : Network} {r : ConnectResult} {y : Ctx ConnId}
    (hs : s.enact r (.ok y) = .ok t) : (s.put y).Extends t :=
  foldlM_rel Extends.refl Extends.trans (fun _ _ _ h => perform_extends h) hs

end Network

end Fppnet
