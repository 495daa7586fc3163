import Fppnet.Library.Turns
import Fppnet.Net.Lifecycle

/-!
# The loops of a server take turns

`EventLoopThreadPool::getNextLoop` counts `next_` up and puts it back to zero at the end of the
loops. Connections come and go in any order, on their own loops, while the acceptor takes new ones.

* `Stays`: no member function, functor or removal moves a connection to another loop, takes one in,
  or touches the pool;
* `RoundRobin`: connection `c` is on the loop whose turn it was, and the pool is at the turn of the
  next one;
* `round_robin`: that is so in every reachable state, so that no loop has been given more
  connections than another by more than one;
* `life_on_turn`: the functions of the life of a connection run on that loop.
-/

namespace Fppnet

open Checked Runs TcpConnection

namespace EventLoopThreadPool

/-- The pool has the given loops, and it is the turn at `n`. -/
structure AtTurn (p : EventLoopThreadPool) (loops : List LoopId) (n : ℕ) : Prop where
  base : p.baseLoop_ = baseLoop
  all : p.loops_ = loops
  next : loops ≠ [] → p.next_ = n % loops.length

theorem new_atTurn (loops : List LoopId) : (new loops).AtTurn loops 0 :=
  ⟨rfl, rfl, fun _ => (Nat.zero_mod _).symm⟩

/-- `getNextLoop` gives the loop whose turn it is, and then it is the next turn. -/
theorem AtTurn.getNextLoop {p : EventLoopThreadPool} {loops : List LoopId} {n : ℕ}
    (h : p.AtTurn loops n) :
    p.getNextLoop.1 = turn baseLoop loops n ∧ p.getNextLoop.2.AtTurn loops (n + 1) := by
  obtain ⟨hbase, rfl, hnext⟩ := h
  by_cases hl : p.loops_ = []
  · refine ⟨?_, ?_, ?_, fun hne => absurd hl hne⟩
    · simp only [EventLoopThreadPool.getNextLoop, dif_pos hl]
      rw [hl, turn_nil]
      exact hbase
    · rw [p.getNextLoop_frame.1]
      exact hbase
    · exact p.getNextLoop_frame.2
  · refine ⟨?_, ?_, ?_, fun _ => ?_⟩
    · simp only [EventLoopThreadPool.getNextLoop, dif_neg hl]
      exact (turn_eq_get baseLoop (hnext hl) (p.next_lt.resolve_left hl)).symm
    · rw [p.getNextLoop_frame.1]
      exact hbase
    · exact p.getNextLoop_frame.2
    · simp only [EventLoopThreadPool.getNextLoop, dif_neg hl]
      rw [← nextTurn_mod (List.length_pos_iff.2 hl), ← hnext hl]
      rfl

end EventLoopThreadPool

namespace Network

/-- The pool of a server is at the turn `n`; the server may be gone. -/
def TurnOf (loops : List LoopId) (n : ℕ) : Owner → Prop
  | .server sv => sv.threadPool_.AtTurn loops n
  | .client _ => False
  | .destroyed => True

/-! ### What moves no connection -/

structure Stays (s t : Network) : Prop where
  accepted : t.accepted = s.accepted
  loop : ∀ c, (t.conns c).loop_ = (s.conns c).loop_
  owner : ∀ loops n, TurnOf loops n s.owner → TurnOf loops n t.owner

namespace Stays

theorem refl (s : Network) : s.Stays s := ⟨rfl, fun _ => rfl, fun _ _ h => h⟩

theorem trans {s t u : Network} (h : s.Stays t) (h' : t.Stays u) : s.Stays u where
  accepted := h'.accepted.trans h.accepted
  loop := fun c => (h'.loop c).trans (h.loop c)
  owner := fun loops n ho => h'.owner loops n (h.owner loops n ho)

theorem put {s : Network} {thread : LoopId} {c : ConnId} {y : Ctx ConnId}
    (hf : (s.ctx thread c).Frame y) : s.Stays (s.put y) :=
  ⟨rfl, fun c' => (put_same hf c').2, fun _ _ h => h⟩

theorem record (s : Network) (c : ConnId) (life : Life) (thread : LoopId) :
    s.Stays (s.record c life thread) := ⟨rfl, fun _ => rfl, fun _ _ h => h⟩

theorem queueInLoop (s : Network) (loop : LoopId) (f : Functor) :
    s.Stays (s.queueInLoop loop f) := ⟨rfl, fun _ => rfl, fun _ _ h => h⟩

end Stays

theorem removeConnectionInLoop_stays {s t : Network} {thread : LoopId} {c : ConnId}
    (hs : s.removeConnectionInLoop thread c = .ok t) : s.Stays t := by
  obtain ⟨sv, ho, -, -, rfl⟩ := removeConnectionInLoop_ok hs
  refine ⟨rfl, fun _ => rfl, fun loops n h => ?_⟩
  rw [ho] at h
  exact h

theorem removeConnection_stays {s t : Network} {thread : LoopId} {c : ConnId} {r : ConnectResult}
    (hs : s.removeConnection thread c r = .ok t) : s.Stays t := by
  cases removeConnection_cases hs with
  | now hs => exact removeConnectionInLoop_stays hs
  | later ho => exact .queueInLoop s _ _
  | client ho hth hloop hown k =>
    refine ⟨rfl, fun _ => rfl, fun loops n h => ?_⟩
    rw [ho] at h
    exact h.elim

theorem perform_stays {s t : Network} {thread : LoopId} {c : ConnId} {r : ConnectResult}
    {call : Call} (hs : s.perform thread c r call = .ok t) : s.Stays t := by
  cases call with
  | queueWriteComplete => cases hs; exact .queueInLoop s _ _
  | connectionCallback => cases hs; exact .refl s
  | messageCallback => cases hs; exact .refl s
  | closeCallback => exact (Stays.record s c _ thread).trans (removeConnection_stays hs)

/-- **A member function** keeps its connection on its loop, whatever it calls. -/
theorem enact_stays {s t : Network} (thread : LoopId) (c : ConnId) {r : ConnectResult}
    {e : Except TcpConnection.Failure (Ctx ConnId)}
    (hf : ∀ y, e = .ok y → (s.ctx thread c).Frame y) (hs : s.enact r e = .ok t) : s.Stays t := by
  obtain ⟨y, rfl⟩ := enact_ok hs
  exact (Stays.put (hf y rfl)).trans
    (foldlM_rel Stays.refl Stays.trans (fun _ _ _ h => perform_stays h) hs)

theorem runFunctor_stays {s t : Network} {thread : LoopId} {a : Answers} {f : Functor}
    (hs : s.runFunctor thread a f = .ok t) : s.Stays t := by
  cases f with
  | connectEstablished c =>
    exact (Stays.record s c .established thread).trans
      (enact_stays thread c (fun y hy => (Ctx.connectEstablished_does hy).toFrame) hs)
  | removeConnectionInLoop c => exact removeConnectionInLoop_stays hs
  | connectDestroyed c =>
    exact (Stays.record s c .destroyed thread).trans
      (enact_stays thread c (fun y hy => (Ctx.connectDestroyed_does hy).toFrame) hs)
  | writeCompleteCallback c => cases hs; exact .refl s
  | sendInLoop c message =>
    obtain ⟨-, hs⟩ := require_bind_ok.1 hs
    exact enact_stays thread c (fun y hy => (Ctx.sendInLoop_does hy).toFrame) hs
  | shutdownInLoop c =>
    obtain ⟨-, hs⟩ := require_bind_ok.1 hs
    exact enact_stays thread c (fun y hy => (Ctx.shutdownInLoop_does hy).toFrame) hs

/-! ### The turns -/

structure RoundRobin (loops : List LoopId) (s : Network) : Prop where
  loop : ∀ c < s.accepted, (s.conns c).loop_ = turn baseLoop loops c
  owner : TurnOf loops s.accepted s.owner

theorem RoundRobin.stays {loops : List LoopId} {s t : Network} (h : s.RoundRobin loops)
    (hs : s.Stays t) : t.RoundRobin loops where
  loop := fun c hc => by
    rw [hs.accepted] at hc
    rw [hs.loop]
    exact h.loop c hc
  owner := by
    rw [hs.accepted]
    exact hs.owner _ _ h.owner

/-- A new connection takes its turn. -/
theorem RoundRobin.serverCreate {loops : List LoopId} {s : Network} {sv : TcpServer}
    (h : s.RoundRobin loops) (ho : s.owner = .server sv) (sockfd : ℕ) (writeComplete : Bool) :
    (s.serverCreate sv sockfd writeComplete).RoundRobin loops := by
  have hturn := h.owner
  rw [ho] at hturn
  obtain ⟨hloop, hnext⟩ := EventLoopThreadPool.AtTurn.getNextLoop hturn
  refine ⟨fun c hc => ?_, hnext⟩
  rcases Nat.lt_succ_iff_lt_or_eq.1 hc with hc | rfl
  · rw [Network.serverCreate, create_old _ _ _ hc]
    exact h.loop c hc
  · rw [serverCreate_new]
    exact hloop

theorem RoundRobin.newConnection {loops : List LoopId} {s t : Network} {sv : TcpServer}
    {sockfd : ℕ} {writeComplete : Bool} (h : s.RoundRobin loops) (ho : s.owner = .server sv)
    (hs : s.serverNewConnection sv sockfd writeComplete = .ok t) : t.RoundRobin loops := by
  have hnew := h.serverCreate ho sockfd writeComplete
  obtain ⟨-, hs⟩ := require_bind_ok.1 hs
  simp only at hs
  split_ifs at hs
  · exact hnew.stays (runFunctor_stays hs)
  · cases hs
    exact hnew.stays (.queueInLoop _ _ _)

/-- **Every step keeps the turns.** -/
theorem Steps.roundRobin {loops : List LoopId} {s t : Network} {l : Label} (hs : s.Steps l t)
    (h : s.RoundRobin loops) : t.RoundRobin loops := by
  -- a server does not become a client
  have hclient : ∀ {cl}, s.owner ≠ .client cl := fun ho => by
    have hturn := h.owner
    rw [ho] at hturn
    exact hturn
  cases hs with
  | newConnection ho hfd ht => exact h.newConnection ho ht
  | destroyServer ho => exact ⟨h.loop, trivial⟩
  | clientCall call ho => exact absurd ho hclient
  | startInLoop ho hk => exact absurd ho hclient
  | connectorEvent k ho hst => exact absurd ho hclient
  | connected ho hst hfd ht => exact absurd ho hclient
  | @handle loop a c hd rest t hq hlegal hfree ht =>
    have hpop : RoundRobin loops { s with active := Function.update s.active loop rest } :=
      ⟨h.loop, h.owner⟩
    exact hpop.stays (enact_stays loop c (fun y hy => (runHandler_does hy).toFrame) ht)
  | @functor loop a f rest t hidle hq hlegal ht =>
    have hpop : RoundRobin loops { s with functors := Function.update s.functors loop rest } :=
      ⟨h.loop, h.owner⟩
    exact hpop.stays (runFunctor_stays ht)
  | send hu hlegal ht =>
    exact h.stays (enact_stays _ _ (fun y hy => (Ctx.send_does hy).toFrame) ht)
  | shutdown hu ht =>
    exact h.stays (enact_stays _ _ (fun y hy => (Ctx.shutdown_does hy).toFrame) ht)
  | @proceedShutdown c hu =>
    refine ⟨fun c' hc' => ?_, h.owner⟩
    by_cases hcc : c' = c
    · subst hcc
      show (Function.update s.conns c' _ c').loop_ = _
      rw [Function.update_self]
      exact h.loop c' hc'
    · show (Function.update s.conns c _ c').loop_ = _
      rw [Function.update_of_ne hcc]
      exact h.loop c' hc'
  | poll hidle hnodup hwatch => exact ⟨h.loop, h.owner⟩
  | foreignSend message hu hk => exact ⟨h.loop, h.owner⟩
  | foreignShutdown hu hk => exact ⟨h.loop, h.owner⟩
  | proceedSend hu => exact ⟨h.loop, h.owner⟩
  | proceedShuttingDown hu => exact ⟨h.loop, h.owner⟩
  | hold hu => exact ⟨h.loop, h.owner⟩
  | drop hpos => exact ⟨h.loop, h.owner⟩
  | free hu hown => exact ⟨h.loop, h.owner⟩

theorem ofServer_roundRobin (name : String) (loops : List LoopId) :
    (ofServer name loops).RoundRobin loops :=
  ⟨fun c hc => absurd hc (Nat.not_lt_zero c), EventLoopThreadPool.new_atTurn loops⟩

theorem roundRobin_of_reach {name : String} {loops : List LoopId} {s : Network}
    (h : Reach (Moves step) Always (ofServer name loops) s) : s.RoundRobin loops :=
  h.invariant (I := RoundRobin loops) (ofServer_roundRobin name loops)
    fun _ _ _ hx _ hstep => (step_cases hstep).roundRobin hx

/-- The number of connections that a loop has been given. -/
def given (s : Network) (loop : LoopId) : ℕ :=
  Nat.count (fun c => (s.conns c).loop_ = loop) s.accepted

theorem RoundRobin.given_eq {loops : List LoopId} {s : Network} (h : s.RoundRobin loops)
    (loop : LoopId) :
    s.given loop = Nat.count (fun c => turn baseLoop loops c = loop) s.accepted := by
  rw [given, Nat.count_eq_card_filter_range, Nat.count_eq_card_filter_range]
  refine congrArg Finset.card (Finset.filter_congr fun c hc => ?_)
  rw [h.loop c (Finset.mem_range.1 hc)]

/-- **The loops of a server take turns**, whatever its connections do in the meantime: connection
`c` is and stays on the loop whose turn it was, and of distinct loops none has been given more
connections than another by more than one. -/
theorem round_robin {name : String} {loops : List LoopId} {s : Network}
    (h : Reach (Moves step) Always (ofServer name loops) s) :
    (∀ c < s.accepted, (s.conns c).loop_ = turn baseLoop loops c) ∧
      (loops.Nodup → ∀ l ∈ loops, ∀ l' ∈ loops, s.given l ≤ s.given l' + 1) := by
  have hr := roundRobin_of_reach h
  refine ⟨hr.loop, fun hnodup l hl l' hl' => ?_⟩
  rw [hr.given_eq, hr.given_eq]
  exact count_turn_le baseLoop hnodup hl hl' s.accepted

/-! Three connections of a server with two I/O loops; the first one closes before the third. -/

def threeConnections : List Label :=
  [.newConnection 5 false, .functor 1 noAnswers, .newConnection 6 false, .functor 2 noAnswers,
    .poll 1 [(0, POLLIN)], .handle 1 noAnswers, .functor baseLoop noAnswers, .functor 1 noAnswers,
    .newConnection 7 false]

theorem round_robin_threeConnections :
    ∃ s : Network, (∀ c < s.accepted, (s.conns c).loop_ = turn baseLoop [1, 2] c) ∧
      ([1, 2].Nodup → ∀ l ∈ [1, 2], ∀ l' ∈ [1, 2], s.given l ≤ s.given l' + 1) ∧
      s.given 1 = 2 ∧ s.given 2 = 1 := by
  obtain ⟨s, hs, hp⟩ := exists_reach_of_run step Always (ofServer "0.0.0.0:2000" [1, 2])
    threeConnections (fun s => s.given 1 = 2 ∧ s.given 2 = 1) (by decide +kernel)
  obtain ⟨h1, h2⟩ := round_robin hs
  exact ⟨s, h1, h2, of_decide_eq_true hp⟩

/-- The functions of the life of connection `c` run on the loop whose turn it was, all but the
removal. -/
theorem life_on_turn {name : String} {loops : List LoopId} {s : Network}
    (h : Reach (Moves step) (fun s l => s.Proper l ∧ s.ClosesOnce l) (ofServer name loops) s)
    {c : ConnId} (hc : c < s.accepted) : s.log c <+: lifeOf (turn baseLoop loops c) := by
  obtain ⟨-, ho⟩ := lives_of_reach h (ofServer_sound name loops) (new_ordered _ _)
  rw [← (roundRobin_of_reach (h.mono fun _ _ _ => trivial)).loop c hc]
  exact ho c hc

end Network

end Fppnet
