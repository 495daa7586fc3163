import Fppnet.Net.NetworkSteps

/-!
# The books of a network, whatever its users send

The ledger of a network does not depend on its wiring, which a late `sendInLoop` may break by
registering a channel again. It depends on a part of the wiring that no step touches (`Begun`): a
connection that the kernel watches, that has callbacks to be called or calls of other threads in
progress has been established.

`Steps.books` says that every step keeps the ledger and this part, if the server is destroyed only
when it holds no connection (`Keeps`). The lemmas follow the model: member functions
(`enact_books`), functors (`functor_books`), the owner, and the steps.
-/

namespace Fppnet

open Checked Runs TcpConnection

namespace Network

/-- A server is destroyed when it holds no connection. -/
def Keeps (s : Network) : Label → Prop
  | .destroyServer => ∀ c < s.accepted, ¬ s.owner.Holds (s.conns c).name_ c
  | _ => True

instance (s : Network) (l : Label) : Decidable (s.Keeps l) := by
  cases l <;> unfold Keeps <;> infer_instance

/-! ### The ledger and the functions of a connection -/

theorem Balanced.order {s : Network} {due : Option Functor} {c : ConnId} (h : s.Balanced due c) :
    s.times c .destroyed ≤ s.times c .removed ∧ s.times c .removed ≤ s.times c .closed := by
  obtain ⟨-, h2, h3, -⟩ := h
  omega

/-- Before `connectEstablished` nothing else has run. -/
theorem Balanced.destroyed_zero {s : Network} {due : Option Functor} {c : ConnId}
    (h : s.Balanced due c) (h0 : s.times c .established = 0) : s.times c .destroyed = 0 := by
  obtain ⟨h1, h2⟩ := h.order
  have h3 := h.first
  omega

/-- A member function keeps the names and the loops. -/
theorem put_same {s : Network} {thread : LoopId} {c : ConnId} {y : Ctx ConnId}
    (hact : (s.ctx thread c).Frame y) (c' : ConnId) :
    ((s.put y).conns c').name_ = (s.conns c').name_ ∧
      ((s.put y).conns c').loop_ = (s.conns c').loop_ := by
  have hself : y.self = c := hact.self
  by_cases hcc : c' = c
  · rw [hcc, put, hself]
    simp only [Function.update_self]
    exact ⟨hact.name, hact.loop⟩
  · simp [put, hself, Function.update_of_ne hcc]

theorem put_ledger {s : Network} {due : Option Functor} (h : s.Ledger due) {thread : LoopId}
    {c : ConnId} {y : Ctx ConnId} (hact : (s.ctx thread c).Frame y) : (s.put y).Ledger due :=
  h.congr rfl rfl rfl (fun c' => (put_same hact c').1) (fun c' => (put_same hact c').2) rfl rfl

/-- A connection whose `connectDestroyed` is due. -/
theorem before_destroyed {s : Network} {c : ConnId} (hl : s.Ledger (some (.connectDestroyed c)))
    (hc : c < s.accepted) : s.Up c := by
  have hbal := hl.balanced c hc
  have h1 := hbal.removed
  have h2 := pending_self s (.connectDestroyed c)
  have h3 := hbal.first
  have h4 := hbal.once
  have h5 := hbal.order
  constructor <;> omega

/-- A connection without an owner has been destroyed. -/
theorem Ledger.destroyed_of_unowned {s : Network} (h : s.Ledger none) {c : ConnId}
    (hc : c < s.accepted) (hown : ¬ s.Owned c) : 0 < s.times c .destroyed := by
  have hbal := h.balanced c hc
  have hheld : ¬ s.times c .removed = 0 := fun h0 => hown (.inl (hbal.held.2 h0))
  have hnone : s.pending none (.connectDestroyed c) = 0 := by
    have hcount : (s.functors (s.conns c).loop_).count (.connectDestroyed c) = 0 := by
      rw [List.count_eq_zero]
      exact fun hm => hown (.inr (.inl ⟨_, h.loops.2 c hc, _, hm, rfl⟩))
    exact hcount
  have hrem := hbal.removed
  omega

/-! ### The ledger and the owner -/

/-- The name of the next connection is not that of an earlier one. -/
theorem connName_fresh {s : Network} {sv : TcpServer} (h : s.OwnerFacts)
    (ho : s.owner = .server sv) {c : ConnId} (hc : c < s.accepted) :
    (s.conns c).name_ ≠ sv.connName := by
  obtain ⟨hnext, hnames, -⟩ := h.server ho
  rw [hnames c hc, TcpServer.connName, hnext]
  intro he
  rw [String.append_right_inj, String.append_right_inj] at he
  have hrepr : (c + 1).repr = (s.accepted + 1).repr := he
  exact absurd (Nat.succ.inj (Nat.repr_inj.1 hrepr)) (Nat.ne_of_lt hc)

/-- A new connection of a server. -/
theorem serverCreate_ledger {s : Network} {sv : TcpServer} (h : s.Ledger none)
    (ho : s.owner = .server sv) (sockfd : ℕ) (wc : Bool) :
    (s.serverCreate sv sockfd wc).Ledger (some (.connectEstablished s.accepted)) := by
  obtain ⟨hnext, hnames, hentry, hbase, hpool⟩ := h.owner.server ho
  have hloop : sv.threadPool_.getNextLoop.1 ∈ s.loops := by
    rcases sv.threadPool_.getNextLoop_mem with hm | hm
    · rw [hm, hbase]
      exact h.loops.1
    · exact hpool _ hm
  have hold : ∀ c < s.accepted, (s.serverCreate sv sockfd wc).conns c = s.conns c := fun _ =>
    create_old s _ _
  have hnew : ((s.serverCreate sv sockfd wc).conns s.accepted).name_ = sv.connName :=
    congrArg TcpConnection.name_ (serverCreate_new s sv sockfd wc)
  refine h.create hloop (Function.update_self _ _ _) (fun c hc => ?_) ?_
  · rw [ho]
    have hne := connName_fresh h.owner ho hc
    simp only [Owner.Holds, Function.update_of_ne hne]
  · refine ⟨by rw [hnext]; rfl, fun c hc => ?_, fun name c he => ?_, ?_⟩
    · rcases Nat.lt_succ_iff_lt_or_eq.1 hc with hc | rfl
      · exact (congrArg TcpConnection.name_ (hold c hc)).trans (hnames c hc)
      · refine hnew.trans ?_
        rw [TcpServer.connName, hnext]
    · by_cases hname : name = sv.connName
      · have hcc : c = s.accepted := by
          rw [hname] at he
          have he' : Function.update sv.connections_ sv.connName (some s.accepted) sv.connName =
            some c := he
          rw [Function.update_self] at he'
          exact (Option.some.inj he').symm
        rw [hcc, hname]
        exact ⟨Nat.lt_succ_self _, hnew⟩
      · have he' : sv.connections_ name = some c :=
          (Function.update_of_ne hname _ _).symm.trans he
        obtain ⟨h1, h2⟩ := hentry name c he'
        exact ⟨Nat.lt_succ_of_lt h1, (congrArg TcpConnection.name_ (hold c h1)).trans h2⟩
    · obtain ⟨hb, hl⟩ := sv.threadPool_.getNextLoop_frame
      exact ⟨hb.trans hbase, fun l hm => hpool l (by rwa [← hl])⟩

/-- A new connection of a client that has none. -/
theorem clientCreate_ledger {s : Network} {cl₀ : TcpClient} (cl : TcpClient) (h : s.Ledger none)
    (ho : s.owner = .client cl₀) (hnone : cl₀.connection_ = none)
    (hnext : cl.nextConnId_ = cl₀.nextConnId_) (hstate : cl.connector_.state_ = .kConnected)
    (sockfd : ℕ) (peerAddr : String) (wc : Bool) :
    (s.clientCreate cl sockfd peerAddr wc).Ledger (some (.connectEstablished s.accepted)) := by
  obtain ⟨hid, -, hqueue, hloops⟩ := h.owner.client ho
  refine h.create h.loops.1 rfl (fun c hc => ?_) ?_
  · rw [ho]
    simp [Owner.Holds, hnone, Nat.ne_of_gt hc]
  · refine ⟨by rw [hnext, hid]; rfl, fun c he => ?_, hqueue, fun c hc => ?_⟩
    · have hcc : c = s.accepted := (Option.some.inj he).symm
      rw [hcc]
      exact ⟨Nat.lt_succ_self _, hstate⟩
    · rcases Nat.lt_succ_iff_lt_or_eq.1 hc with hc | rfl
      · exact (congrArg TcpConnection.loop_ (create_old s _ _ hc)).trans (hloops c hc)
      · exact congrArg TcpConnection.loop_ (create_new s _ _)

/-- A client changes its flags or the state of its connector. -/
theorem Ledger.setClient {s : Network} (h : s.Ledger none) {cl cl' : TcpClient}
    (ho : s.owner = .client cl) (hconn : cl'.connection_ = cl.connection_)
    (hnext : cl'.nextConnId_ = cl.nextConnId_)
    (hstate : cl.connection_ ≠ none → cl.connector_.state_ = .kConnected →
      cl'.connector_.state_ = .kConnected) : (s.setOwner (.client cl')).Ledger none := by
  obtain ⟨hid, hentry, hrest⟩ := h.owner.client ho
  refine h.setOwner (fun c _ => ?_) ⟨by rw [hnext]; exact hid, fun c hc => ?_, hrest⟩
  · rw [ho]
    simp only [Owner.Holds, hconn]
  · rw [hconn] at hc
    obtain ⟨h1, h2⟩ := hentry c hc
    exact ⟨h1, hstate (by rw [hc]; rintro ⟨⟩) h2⟩

/-- A client holds no connection while its connector is not connected. -/
theorem Ledger.client_idle {s : Network} (h : s.Ledger none) {cl : TcpClient}
    (ho : s.owner = .client cl) (hst : cl.connector_.state_ ≠ .kConnected) :
    cl.connection_ = none := by
  obtain ⟨-, hentry, -⟩ := h.owner.client ho
  by_contra hn
  obtain ⟨c, hc⟩ := Option.ne_none_iff_exists'.1 hn
  exact hst (hentry c hc).2

/-! ### What has begun -/

/-- `connectEstablished` has run for the connection. -/
def Started (s : Network) (c : ConnId) : Prop := c < s.accepted ∧ 0 < s.times c .established

/-- What is known of connections before and after `connectEstablished`. -/
structure Begun (s : Network) : Prop where
  watched : ∀ l fd e, (s.pollers l).interest fd = some e → s.Started e.2
  active : ∀ l, ∀ p ∈ s.active l, s.Started p.1
  calls : ∀ u ∈ s.calls, s.Started u.conn
  connecting : ∀ c < s.accepted, s.times c .established = 0 → (s.conns c).state_ = .kConnecting

structure Books (s : Network) : Prop where
  ledger : s.Ledger none
  begun : s.Begun

/-- A connection in the state `kConnected` has been established. -/
theorem Begun.started {s : Network} (h : s.Begun) {c : ConnId} (hc : c < s.accepted)
    (hk : (s.conns c).state_ = .kConnected) : s.Started c := by
  refine ⟨hc, ?_⟩
  by_contra h0
  rw [h.connecting c hc (Nat.eq_zero_of_not_pos h0)] at hk
  cases hk

theorem Begun.of_extends {s t : Network} (h : s.Begun) (he : s.Extends t) : t.Begun := by
  have hstarted : ∀ c, s.Started c → t.Started c := fun c hc =>
    ⟨by rw [he.accepted]; exact hc.1, by rw [(he.times c).1]; exact hc.2⟩
  refine ⟨fun l fd e hw => ?_, fun l p hp => ?_, fun u hu => ?_, fun c hc h0 => ?_⟩
  · rw [he.pollers] at hw
    exact hstarted _ (h.watched l fd e hw)
  · rw [he.active] at hp
    exact hstarted _ (h.active l p hp)
  · rw [he.calls] at hu
    exact hstarted _ (h.calls u hu)
  · rw [he.accepted] at hc
    rw [(he.times c).1] at h0
    rw [he.conns]
    exact h.connecting c hc h0

/-- A member function of an established connection. -/
theorem Begun.put {s : Network} (h : s.Begun) {c : ConnId} (hc : s.Started c) {thread : LoopId}
    {y : Ctx ConnId} (hd : (s.ctx thread c).Does y) : (s.put y).Begun := by
  have hself : y.self = c := hd.self
  have hloop : y.conn.loop_ = (s.conns c).loop_ := hd.loop
  refine ⟨fun l fd e hw => ?_, h.active, h.calls, fun c' hc' h0 => ?_⟩
  · change (Function.update s.pollers y.conn.loop_ y.poller l).interest fd = some e at hw
    by_cases hl : l = y.conn.loop_
    · rw [hl, Function.update_self] at hw
      rcases hd.interest fd e hw with hold | hnew
      · exact h.watched _ fd e hold
      · rw [hnew]
        exact hc
    · rw [Function.update_of_ne hl] at hw
      exact h.watched l fd e hw
  · show (Function.update s.conns y.self y.conn c').state_ = _
    have hcc : c' ≠ y.self := by
      rw [hself]
      rintro rfl
      exact absurd h0 (Nat.ne_of_gt hc.2)
    rw [Function.update_of_ne hcc]
    exact h.connecting c' hc' h0

/-- A function of the life of a connection is recorded. -/
theorem Begun.record {s : Network} (h : s.Begun) (c : ConnId) (life : Life) (thread : LoopId) :
    (s.record c life thread).Begun := by
  have hle : ∀ c', s.times c' .established ≤ (s.record c life thread).times c' .established :=
    fun c' => by
      rw [times_record]
      exact Nat.le_add_right _ _
  have hstarted : ∀ c', s.Started c' → (s.record c life thread).Started c' := fun c' hc' =>
    ⟨hc'.1, hc'.2.trans_le (hle c')⟩
  exact ⟨fun l fd e hw => hstarted _ (h.watched l fd e hw),
    fun l p hp => hstarted _ (h.active l p hp), fun u hu => hstarted _ (h.calls u hu),
    fun c' hc' h0 => h.connecting c' hc' (Nat.le_zero.1 (h0 ▸ hle c'))⟩

/-- A new connection is connecting. -/
theorem Begun.create {s : Network} (h : s.Begun) {conn : TcpConnection}
    (hst : conn.state_ = .kConnecting) (owner : Owner) : (s.create conn owner).Begun := by
  have hstarted : ∀ c, s.Started c → (s.create conn owner).Started c := fun c hc =>
    ⟨Nat.lt_succ_of_lt hc.1, hc.2⟩
  refine ⟨fun l fd e hw => hstarted _ (h.watched l fd e hw),
    fun l p hp => hstarted _ (h.active l p hp), fun u hu => hstarted _ (h.calls u hu),
    fun c hc h0 => ?_⟩
  rcases Nat.lt_succ_iff_lt_or_eq.1 hc with hc | rfl
  · rw [create_old s conn owner hc]
    exact h.connecting c hc h0
  · rw [create_new]
    exact hst

/-! ### Member functions and functors -/

/-- **A member function of an established connection keeps the books.** -/
theorem enact_books {s t : Network} (h : s.Books) {c : ConnId} (hc : s.Started c)
    {thread : LoopId} {y : Ctx ConnId} {r : ConnectResult} (hd : (s.ctx thread c).Does y)
    (hs : s.enact r (.ok y) = .ok t) : t.Books := by
  refine ⟨?_, (h.begun.put hc hd).of_extends (enact_extends hs)⟩
  have hself : y.self = c := hd.self
  have hput : (s.put y).Ledger none := put_ledger h.ledger hd.toFrame
  rcases hd.calls (by simp [ctx]) with hplain | hcalls
  · obtain ⟨n, hn⟩ := enact_plain s r hplain
    rw [hs] at hn
    cases hn
    rw [hself]
    exact hput.notified hc.1 n
  · rw [enact_close s r hcalls, hself] at hs
    exact removeConnection_ledger (hput.closed hc.1 hc.2 y.thread) hc.1 hs

theorem put_ctx (s : Network) (thread : LoopId) (c : ConnId) : s.put (s.ctx thread c) = s := by
  unfold put ctx
  simp only [Function.update_eq_self]

/-- `connectEstablished` runs. -/
theorem establish_books {s t : Network} {c : ConnId} {thread : LoopId} {a : Answers}
    (hl : s.Ledger (some (.connectEstablished c))) (hb : s.Begun) (hc : c < s.accepted)
    (hs : s.runFunctor thread a (.connectEstablished c) = .ok t) : t.Books := by
  change (s.record c .established thread).enact a.connect (s.ctx thread c).connectEstablished =
    .ok t at hs
  obtain ⟨y, hy⟩ := enact_ok hs
  rw [hy] at hs
  have hstarted : (s.record c .established thread).Started c := by
    refine ⟨hc, ?_⟩
    rw [times_record_self]
    exact Nat.succ_pos _
  have hdoes : ((s.record c .established thread).ctx thread c).Does y :=
    Ctx.connectEstablished_does hy
  exact enact_books ⟨hl.established hc thread, hb.record c _ thread⟩ hstarted hdoes hs

/-- `connectDestroyed` runs. -/
theorem destroy_books {s t : Network} {c : ConnId} {thread : LoopId} {a : Answers}
    (hl : s.Ledger (some (.connectDestroyed c))) (hb : s.Begun) (hc : c < s.accepted)
    (hs : s.runFunctor thread a (.connectDestroyed c) = .ok t) : t.Books := by
  change (s.record c .destroyed thread).enact a.connect (s.ctx thread c).connectDestroyed =
    .ok t at hs
  obtain ⟨y, hy⟩ := enact_ok hs
  rw [hy] at hs
  have hstarted : (s.record c .destroyed thread).Started c := by
    refine ⟨hc, ?_⟩
    rw [times_record_of_ne _ _ _ _ (by decide)]
    exact (before_destroyed hl hc).1
  have hdoes : ((s.record c .destroyed thread).ctx thread c).Does y :=
    Ctx.connectDestroyed_does hy
  exact enact_books ⟨hl.destroyed hc thread, hb.record c _ thread⟩ hstarted hdoes hs

/-- A functor that has been taken out of its queue. -/
theorem functor_books {s t : Network} {f : Functor} {thread : LoopId} {a : Answers}
    (hl : s.Ledger (some f)) (hb : s.Begun) (hc : f.conn < s.accepted)
    (hraw : f.owns = none → 0 < s.times f.conn .established)
    (hs : s.runFunctor thread a f = .ok t) : t.Books := by
  cases f with
  | connectEstablished c => exact establish_books hl hb hc hs
  | removeConnectionInLoop c =>
    exact ⟨removeConnectionInLoop_ledger hl hc hs,
      hb.of_extends (removeConnectionInLoop_extends hs)⟩
  | connectDestroyed c => exact destroy_books hl hb hc hs
  | writeCompleteCallback c =>
    cases hs
    exact ⟨hl.drop rfl, hb⟩
  | sendInLoop c message =>
    obtain ⟨-, hs⟩ := require_bind_ok.1 hs
    obtain ⟨y, hy⟩ := enact_ok hs
    rw [hy] at hs
    exact enact_books ⟨hl.drop rfl, hb⟩ ⟨hc, hraw rfl⟩ (Ctx.sendInLoop_does hy) hs
  | shutdownInLoop c =>
    obtain ⟨-, hs⟩ := require_bind_ok.1 hs
    obtain ⟨y, hy⟩ := enact_ok hs
    rw [hy] at hs
    exact enact_books ⟨hl.drop rfl, hb⟩ ⟨hc, hraw rfl⟩ (Ctx.shutdownInLoop_does hy) hs

/-! ### The steps -/

/-- A new connection of a server. -/
theorem serverNewConnection_books {s t : Network} {sv : TcpServer} {sockfd : ℕ} {wc : Bool}
    (h : s.Books) (ho : s.owner = .server sv) (hs : s.serverNewConnection sv sockfd wc = .ok t) :
    t.Books := by
  have hl := serverCreate_ledger h.ledger ho sockfd wc
  have hb : (s.serverCreate sv sockfd wc).Begun := h.begun.create rfl _
  have hlt : s.accepted < (s.serverCreate sv sockfd wc).accepted := Nat.lt_succ_self _
  obtain ⟨-, hs⟩ := require_bind_ok.1 hs
  by_cases hio : sv.threadPool_.getNextLoop.1 = baseLoop
  · rw [if_pos hio] at hs
    exact establish_books hl hb hlt hs
  · rw [if_neg hio] at hs
    cases hs
    refine ⟨hl.queue hlt rfl ?_ (by rintro cl ⟨⟩), hb.of_extends (.queueInLoop _ _ (by rintro ⟨⟩))⟩
    exact (congrArg TcpConnection.loop_ (serverCreate_new s sv sockfd wc)).symm

/-- A new connection of a client that has none. -/
theorem clientNewConnection_books {s t : Network} {cl₀ cl : TcpClient} {sockfd : ℕ}
    {peerAddr : String} {wc : Bool} (h : s.Books) (ho : s.owner = .client cl₀)
    (hnone : cl₀.connection_ = none) (hnext : cl.nextConnId_ = cl₀.nextConnId_)
    (hstate : cl.connector_.state_ = .kConnected)
    (hs : s.clientNewConnection cl sockfd peerAddr wc = .ok t) : t.Books := by
  have hl := clientCreate_ledger cl h.ledger ho hnone hnext hstate sockfd peerAddr wc
  obtain ⟨-, hs⟩ := require_bind_ok.1 hs
  exact establish_books hl (h.begun.create rfl _) (Nat.lt_succ_self _) hs

theorem mem_callbacks {s : Network} {q : ConnId × Events} {p : ConnId × Handler}
    (h : p ∈ s.callbacks q) : p.1 = q.1 := by
  unfold callbacks at h
  obtain ⟨hd, -, rfl⟩ := List.mem_map.1 h
  rfl

/-- The callbacks that wait after a `poll`: those of the active channels, and the old ones of the
other loops. -/
theorem mem_polled {s : Network} {loop l : LoopId} {activeChannels : List (ConnId × Events)}
    {p : ConnId × Handler}
    (h : p ∈ Function.update s.active loop (activeChannels.flatMap s.callbacks) l) :
    (l = loop ∧ ∃ q ∈ activeChannels, p.1 = q.1) ∨ p ∈ s.active l := by
  by_cases hl : l = loop
  · rw [hl, Function.update_self] at h
    obtain ⟨q, hq, hpq⟩ := List.mem_flatMap.1 h
    exact .inl ⟨hl, q, hq, mem_callbacks hpq⟩
  · rw [Function.update_of_ne hl] at h
    exact .inr h

/-- The kernel watches connections that have been established. -/
theorem Begun.of_watches {s : Network} (h : s.Begun) {loop : LoopId} {c : ConnId}
    (hw : s.Watches loop c) : s.Started c := by
  unfold Watches at hw
  obtain ⟨e, he, rfl⟩ := Option.map_eq_some_iff.1 hw
  exact h.watched loop _ e he

/-- `poll` finds channels of connections that have been established. -/
theorem Begun.poll {s : Network} (h : s.Begun) {loop : LoopId}
    {activeChannels : List (ConnId × Events)} (hwatch : ∀ p ∈ activeChannels, s.Watches loop p.1) :
    Begun { s with
      active := Function.update s.active loop (activeChannels.flatMap s.callbacks) } := by
  refine ⟨h.watched, fun l p hp => ?_, h.calls, h.connecting⟩
  rcases mem_polled hp with ⟨-, q, hq, hpq⟩ | hp
  · rw [hpq]
    exact h.of_watches (hwatch q hq)
  · exact h.active l p hp

/-- The next channel callback of a loop is taken. -/
theorem mem_of_popActive {s : Network} {loop : LoopId} {q : ConnId × Handler}
    {rest : List (ConnId × Handler)} (hq : s.active loop = q :: rest) {l : LoopId}
    {p : ConnId × Handler} (hp : p ∈ Function.update s.active loop rest l) : p ∈ s.active l := by
  by_cases hl : l = loop
  · rw [hl, Function.update_self] at hp
    rw [hl, hq]
    exact List.mem_cons_of_mem _ hp
  · rwa [Function.update_of_ne hl] at hp

/-- A step that leaves alone what the ledger is about. -/
theorem Books.of_begun {s t : Network} (h : s.Books) (howner : t.owner = s.owner)
    (hloops : t.loops = s.loops) (hacc : t.accepted = s.accepted)
    (hname : ∀ c, (t.conns c).name_ = (s.conns c).name_)
    (hloop : ∀ c, (t.conns c).loop_ = (s.conns c).loop_) (hfun : t.functors = s.functors)
    (hlog : t.log = s.log) (hb : t.Begun) : t.Books :=
  ⟨h.ledger.congr howner hloops hacc hname hloop hfun hlog, hb⟩

/-- A call of another thread begins or ends. -/
theorem Books.setCalls {s : Network} (h : s.Books) {calls : List UserCall}
    (hcalls : ∀ u ∈ calls, s.Started u.conn) : Books { s with calls := calls } :=
  h.of_begun rfl rfl rfl (fun _ => rfl) (fun _ => rfl) rfl rfl
    ⟨h.begun.watched, h.begun.active, hcalls, h.begun.connecting⟩

/-- A plain functor of an established connection is queued. -/
theorem Books.queue_plain {s : Network} (h : s.Books) {f : Functor} (hf : f.plain = true)
    (hc : s.Started f.conn) : (s.queueInLoop (s.conns f.conn).loop_ f).Books :=
  ⟨h.ledger.queue_plain hf hc.1 fun _ => hc.2, h.begun.watched, h.begun.active, h.begun.calls,
    h.begun.connecting⟩

/-- Setting the state of a connection keeps the names and the loops. -/
theorem disconnecting_same (s : Network) (c c' : ConnId) :
    (Function.update s.conns c { s.conns c with state_ := .kDisconnecting } c').name_ =
        (s.conns c').name_ ∧
      (Function.update s.conns c { s.conns c with state_ := .kDisconnecting } c').loop_ =
        (s.conns c').loop_ := by
  by_cases hcc : c' = c
  · rw [hcc, Function.update_self]
    exact ⟨rfl, rfl⟩
  · rw [Function.update_of_ne hcc]
    exact ⟨rfl, rfl⟩

/-- Another thread sets the state of an established connection. -/
theorem Books.disconnecting {s : Network} (h : s.Books) {c : ConnId} (hc : s.Started c) :
    Books { s with
      conns := Function.update s.conns c { s.conns c with state_ := .kDisconnecting } } := by
  refine h.of_begun rfl rfl rfl (fun c' => (disconnecting_same s c c').1)
    (fun c' => (disconnecting_same s c c').2) rfl rfl
    ⟨h.begun.watched, h.begun.active, h.begun.calls, fun c' hc' h0 => ?_⟩
  have hcc : c' ≠ c := by
    rintro rfl
    exact absurd h0 (Nat.ne_of_gt hc.2)
  show (Function.update s.conns c _ c').state_ = _
  rw [Function.update_of_ne hcc]
  exact h.begun.connecting c' hc' h0

/-- `send` and `shutdown` do nothing before a connection is established. -/
theorem enact_idle {s t : Network} {thread : LoopId} {c : ConnId} {r : ConnectResult}
    (hs : s.enact r (.ok (s.ctx thread c)) = .ok t) : t = s := by
  cases hs
  exact put_ctx s thread c

/-- **Every step keeps the books.** -/
theorem Steps.books {s t : Network} {l : Label} (hs : s.Steps l t) (h : s.Books)
    (hkeeps : s.Keeps l) : t.Books := by
  have howner : ∀ {owner}, (s.setOwner owner).Ledger none → (s.setOwner owner).Books := fun hl =>
    ⟨hl, h.begun.of_extends (.setOwner s _)⟩
  cases hs with
  | newConnection ho hfd ht => exact serverNewConnection_books h ho ht
  | destroyServer ho =>
    exact howner (h.ledger.setOwner (fun c hc => iff_of_false id (hkeeps c hc)) trivial)
  | clientCall call ho =>
    cases call <;> exact howner (h.ledger.setClient ho rfl rfl fun _ => id)
  | startInLoop ho hk =>
    obtain ⟨hst, -⟩ := require_bind_ok.1 hk
    exact howner (h.ledger.setClient ho rfl rfl fun hn =>
      absurd (h.ledger.client_idle ho (by rw [hst]; decide)) hn)
  | connectorEvent k ho hst =>
    exact howner (h.ledger.setClient ho rfl rfl fun hn =>
      absurd (h.ledger.client_idle ho hst) hn)
  | connected ho hst hfd ht =>
    have hidle := h.ledger.client_idle ho (by rw [hst]; decide)
    refine clientNewConnection_books h ho hidle ?_ ?_ ht <;> rfl
  | poll hidle hnodup hwatch =>
    exact h.of_begun rfl rfl rfl (fun _ => rfl) (fun _ => rfl) rfl rfl (h.begun.poll hwatch)
  | @handle loop a c hd rest t hq hlegal hfree ht =>
    obtain ⟨y, hy⟩ := enact_ok ht
    rw [hy] at ht
    have h₀ : Books { s with active := Function.update s.active loop rest } :=
      h.of_begun rfl rfl rfl (fun _ => rfl) (fun _ => rfl) rfl rfl
        ⟨h.begun.watched, fun l p hp => h.begun.active l p (mem_of_popActive hq hp),
          h.begun.calls, h.begun.connecting⟩
    exact enact_books h₀ (h.begun.active loop (c, hd) (by rw [hq]; exact List.mem_cons_self ..))
      (runHandler_does hy) ht
  | @functor loop a f rest t hidle hq hlegal ht =>
    obtain ⟨hc, -, hraw⟩ := h.ledger.placed loop f (by rw [hq]; exact List.mem_cons_self ..)
    exact functor_books (h.ledger.pop hq)
      ⟨h.begun.watched, h.begun.active, h.begun.calls, h.begun.connecting⟩ hc hraw ht
  | @send c message a t hu hlegal ht =>
    by_cases hk : (s.conns c).state_ = .kConnected
    · obtain ⟨y, hy⟩ := enact_ok ht
      rw [hy] at ht
      exact enact_books h (h.begun.started hu.1 hk) (Ctx.send_does hy) ht
    · rw [Ctx.send, if_neg (show ¬ (s.ctx (s.conns c).loop_ c).conn.state_ = _ from hk)] at ht
      rw [enact_idle ht]
      exact h
  | @shutdown c a t hu ht =>
    by_cases hk : (s.conns c).state_ = .kConnected
    · obtain ⟨y, hy⟩ := enact_ok ht
      rw [hy] at ht
      exact enact_books h (h.begun.started hu.1 hk) (Ctx.shutdown_does hy) ht
    · rw [Ctx.shutdown, if_neg (show ¬ (s.ctx (s.conns c).loop_ c).conn.state_ = _ from hk)] at ht
      rw [enact_idle ht]
      exact h
  | foreignSend message hu hk =>
    exact h.setCalls (List.forall_mem_cons.2 ⟨h.begun.started hu.1 hk, h.begun.calls⟩)
  | foreignShutdown hu hk =>
    exact h.setCalls (List.forall_mem_cons.2 ⟨h.begun.started hu.1 hk, h.begun.calls⟩)
  | proceedSend hu =>
    exact (h.setCalls fun u hm => h.begun.calls u (List.mem_of_mem_erase hm)).queue_plain
      (f := .sendInLoop _ _) rfl (h.begun.calls _ hu)
  | @proceedShutdown c hu =>
    have hstarted := h.begun.calls _ hu
    have h₁ : Books { s with calls := .shuttingDown c :: s.calls.erase (.shutdown c) } :=
      h.setCalls (List.forall_mem_cons.2 ⟨hstarted, fun u hm =>
        h.begun.calls u (List.mem_of_mem_erase hm)⟩)
    exact h₁.disconnecting hstarted
  | proceedShuttingDown hu =>
    exact (h.setCalls fun u hm => h.begun.calls u (List.mem_of_mem_erase hm)).queue_plain
      (f := .shutdownInLoop _) rfl (h.begun.calls _ hu)
  | hold hu =>
    exact h.of_begun rfl rfl rfl (fun _ => rfl) (fun _ => rfl) rfl rfl
      ⟨h.begun.watched, h.begun.active, h.begun.calls, h.begun.connecting⟩
  | drop hpos =>
    exact h.of_begun rfl rfl rfl (fun _ => rfl) (fun _ => rfl) rfl rfl
      ⟨h.begun.watched, h.begun.active, h.begun.calls, h.begun.connecting⟩
  | free hu hown =>
    exact h.of_begun rfl rfl rfl (fun _ => rfl) (fun _ => rfl) rfl rfl
      ⟨h.begun.watched, h.begun.active, h.begun.calls, h.begun.connecting⟩

end Network

end Fppnet
