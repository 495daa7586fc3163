import Fppnet.Net.Lifecycle

/-!
# Is a connection closed once?

`handleClose` takes the channel out of the kernel's set but leaves the state alone until
`connectDestroyed` runs, so nothing but the absence of events keeps it from being called again.
Two things bring them back:

* `Channel::handleEvent` runs the close callback for `POLLHUP` without `POLLIN` and goes on with the
  read callback, which calls `handleClose` when it finds the end of the file;
* a `sendInLoop` between `handleClose` and `connectDestroyed` that cannot write its whole message
  sets write interest, and with it the kernel reports the next hang-up.

`close_once` says that without these (`NoSecondEof`, `NoRevival`) the close callback is called at
most once for every connection of a server or a client, and that no assertion fails.
`close_twice` and `close_twice_after_send` show what happens with them.

`Quiet` is the invariant: the channel of a connection is `Open` until `handleClose` and `Shut` after
it, and a loop has no close callback left for a connection that has been closed.
-/

namespace Fppnet

open Checked Runs TcpConnection

namespace Network

/-! ### The conditions -/

/-- The connection for which a read finds the end of the file. -/
def eof (s : Network) : Label → Option ConnId
  | .handle loop a =>
    match s.active loop with
    | (c, .read) :: _ => if a.read = .bytes [] then some c else none
    | _ => none
  | _ => none

/-- No read finds the end of the file after the close callback. -/
def NoSecondEof (s : Network) (l : Label) : Prop := ∀ c ∈ s.eof l, s.times c .closed = 0

instance (s : Network) (l : Label) : Decidable (s.NoSecondEof l) := by
  unfold NoSecondEof
  infer_instance

/-- No bytes are left behind on a connection that has been closed. -/
def NoRevival (s : Network) (l : Label) : Prop := ∀ c ∈ s.unsent l, s.times c .closed = 0

instance (s : Network) (l : Label) : Decidable (s.NoRevival l) := by
  unfold NoRevival
  infer_instance

/-- The steps of a run in which every connection is closed once. -/
structure Closing (s : Network) (l : Label) : Prop where
  keeps : s.Keeps l
  regular : s.Regular l
  eof : s.NoSecondEof l
  revival : s.NoRevival l

instance (s : Network) (l : Label) : Decidable (s.Closing l) :=
  decidable_of_iff (s.Keeps l ∧ s.Regular l ∧ s.NoSecondEof l ∧ s.NoRevival l)
    ⟨fun h => ⟨h.1, h.2.1, h.2.2.1, h.2.2.2⟩, fun h => ⟨h.keeps, h.regular, h.eof, h.revival⟩⟩

/-! ### The invariant -/

/-- In a list of callbacks, the close callback of a connection comes before its others. -/
def CloseFirst (active : List (ConnId × Handler)) : Prop :=
  active.Pairwise fun p q => q.2 = .close → p.1 ≠ q.1

structure Quiet (s : Network) : Prop where
  opened : ∀ c < s.accepted, 0 < s.times c .established → s.times c .closed = 0 →
    Ctx.Open (s.conns c)
  shut : ∀ c < s.accepted, 0 < s.times c .closed → Ctx.Shut (s.conns c)
  first : ∀ l, CloseFirst (s.active l)
  closed : ∀ l, ∀ p ∈ s.active l, p.2 = .close → s.times p.1 .closed = 0

/-- A step that leaves the channels and the callbacks alone. -/
theorem Quiet.congr {s t : Network} (h : s.Quiet) (hacc : t.accepted = s.accepted)
    (hconns : t.conns = s.conns) (hactive : t.active = s.active)
    (htimes : ∀ c life, life ≠ .removed → t.times c life = s.times c life) : t.Quiet := by
  have he : ∀ c, t.times c .established = s.times c .established :=
    fun c => htimes c _ (by decide)
  have hc : ∀ c, t.times c .closed = s.times c .closed := fun c => htimes c _ (by decide)
  constructor <;> simp only [hacc, hconns, hactive, he, hc]
  · exact h.opened
  · exact h.shut
  · exact h.first
  · exact h.closed

/-- A member function of `c` has run. -/
theorem Quiet.put {s t : Network} (h : s.Quiet) {c : ConnId} {conn : TcpConnection}
    (hacc : t.accepted = s.accepted) (hconns : t.conns = Function.update s.conns c conn)
    (hactive : t.active = s.active) (hlog : ∀ c', c' ≠ c → t.log c' = s.log c')
    (hopen : 0 < t.times c .established → t.times c .closed = 0 → Ctx.Open conn)
    (hshut : 0 < t.times c .closed → Ctx.Shut conn)
    (hclosed : ∀ l, ∀ p ∈ s.active l, p.1 = c → p.2 = .close → t.times c .closed = 0) :
    t.Quiet := by
  have hconn : t.conns c = conn := by rw [hconns, Function.update_self]
  have hother : ∀ c', c' ≠ c → t.conns c' = s.conns c' := fun c' hne => by
    rw [hconns, Function.update_of_ne hne]
  have htimes : ∀ c', c' ≠ c → ∀ life, t.times c' life = s.times c' life := fun c' hne life => by
    rw [times, times, hlog c' hne]
  refine ⟨fun c' hc' he h0 => ?_, fun c' hc' hcl => ?_, fun l => ?_, fun l p hp hk => ?_⟩
  · by_cases hcc : c' = c
    · subst hcc
      rw [hconn]
      exact hopen he h0
    · rw [htimes c' hcc] at he h0
      rw [hother c' hcc]
      exact h.opened c' (by rwa [← hacc]) he h0
  · by_cases hcc : c' = c
    · subst hcc
      rw [hconn]
      exact hshut hcl
    · rw [htimes c' hcc] at hcl
      rw [hother c' hcc]
      exact h.shut c' (by rwa [← hacc]) hcl
  · rw [hactive]
    exact h.first l
  · rw [hactive] at hp
    by_cases hcc : p.1 = c
    · rw [hcc]
      exact hclosed l p hp hcc hk
    · rw [htimes p.1 hcc]
      exact h.closed l p hp hk

theorem Open.of_still {x y : Ctx ConnId} (h : Ctx.Open x.conn) (hs : x.Still y) :
    Ctx.Open y.conn := by
  have hp : y.conn.outputBuffer_.readable = x.conn.outputBuffer_.readable := hs.pending
  exact ⟨by rw [hs.channel]; exact h.index, by rw [hs.channel]; exact h.reading,
    by rw [hs.channel, hp]; exact h.synced⟩

/-- A plain member function that keeps an open channel open and a shut channel shut. -/
theorem Quiet.plain {s t : Network} (h : s.Quiet) {c : ConnId} {thread : LoopId} {y : Ctx ConnId}
    {r : ConnectResult} (hc : c < s.accepted) (hp : (s.ctx thread c).Plain y)
    (hopen : 0 < s.times c .established → s.times c .closed = 0 → Ctx.Open (s.conns c) →
      Ctx.Open y.conn)
    (hshut : 0 < s.times c .closed → Ctx.Shut (s.conns c) → Ctx.Shut y.conn)
    (hs : s.enact r (.ok y) = .ok t) : t.Quiet := by
  obtain ⟨n, hn⟩ := enact_plain s r (hp.calls (by simp [ctx]))
  rw [hs] at hn
  cases hn
  have hself : y.self = c := hp.self
  refine h.put (c := c) rfl ?_ rfl (fun _ _ => rfl)
    (fun he h0 => hopen he h0 (h.opened c hc he h0)) (fun hcl => hshut hcl (h.shut c hc hcl))
    fun l p hm hpc hk => ?_
  · exact put_conns s hself
  · have h0 := h.closed l p hm hk
    rwa [hpc] at h0

theorem Quiet.still {s t : Network} (h : s.Quiet) {c : ConnId} {thread : LoopId} {y : Ctx ConnId}
    {r : ConnectResult} (hc : c < s.accepted) (hp : (s.ctx thread c).Plain y)
    (hstill : (s.ctx thread c).Still y) (hs : s.enact r (.ok y) = .ok t) : t.Quiet :=
  h.plain hc hp (fun _ _ hopen => Open.of_still hopen hstill)
    (fun _ hshut => hshut.of_channel hstill.channel) hs

/-- `sendInLoop` does not open a channel that is shut when it leaves no bytes behind. -/
theorem Quiet.sendInLoop {s t : Network} (h : s.Quiet) (hsound : s.Sound) {c : ConnId}
    {thread : LoopId} {message : List Byte} {r : WriteResult} {cr : ConnectResult}
    (hc : c < s.accepted) (hfree : s.freed c = false) (hth : thread = (s.conns c).loop_)
    (hno : (s.ctx thread c).direct r < message.length → s.times c .closed = 0)
    (hs : s.enact cr ((s.ctx thread c).sendInLoop message r) = .ok t) : t.Quiet := by
  have hb := hsound.wired.bound hc hfree hth
  obtain ⟨y, hy, hp, -, hstill⟩ := Ctx.sendInLoop_plain hb message r
  rw [hy] at hs
  refine h.plain hc hp (fun he h0 hopen => ?_) (fun hcl hshut => ?_) hs
  · -- what has not been closed has not been destroyed
    have hup : s.Up c := by
      have hord := (hsound.ledger.balanced c hc).order
      refine ⟨he, ?_⟩
      omega
    have hlive : (s.ctx thread c).Live := hopen.live hb (hsound.wired.state c hc hup)
    obtain ⟨z, hz, hz'⟩ := Ctx.sendInLoop_live hlive message r
    obtain rfl : z = y := by rw [hy] at hz; cases hz; rfl
    exact hz'.open
  · have hall : message.length ≤ (s.ctx thread c).direct r := by
      by_contra hlt
      exact absurd (hno (Nat.not_le.1 hlt)) (Nat.ne_of_gt hcl)
    exact hshut.of_channel (hstill hall).channel

/-- `handleClose` shuts the channel, and no other close callback is left for it. -/
theorem Quiet.close {s t : Network} (h : s.Quiet) {c : ConnId} {thread : LoopId}
    {z y : Ctx ConnId} {r : ConnectResult} (hc : c < s.accepted) (hest : 0 < s.times c .established)
    (h0 : s.times c .closed = 0) (hact : (s.ctx thread c).Acts y)
    (hcalls : y.calls = [.closeCallback])
    (hz : z = s.ctx thread c ∨ z = (s.ctx thread c).received (.bytes []))
    (hy : z.handleClose = .ok y)
    (hnone : ∀ l, ∀ p ∈ s.active l, p.2 = .close → p.1 ≠ c)
    (hs : s.enact r (.ok y) = .ok t) : t.Quiet := by
  have hself : y.self = c := hact.self
  have hopen : Ctx.Open z.conn := by
    rcases hz with rfl | rfl
    · exact h.opened c hc hest h0
    · exact ⟨(h.opened c hc hest h0).index, (h.opened c hc hest h0).reading,
        (h.opened c hc hest h0).synced⟩
  have hshut := Ctx.handleClose_shut hopen hy
  rw [enact_close s r hcalls, hself] at hs
  have hclosed : 0 < ((s.put y).record c .closed y.thread).times c .closed := by
    rw [times_record_self]
    exact Nat.succ_pos _
  have hq : ((s.put y).record c .closed y.thread).Quiet := by
    refine h.put (c := c) rfl ?_ rfl (fun c' hcc => Function.update_of_ne hcc _ _)
      (fun _ hz0 => absurd hz0 (Nat.ne_of_gt hclosed)) (fun _ => hshut)
      fun l p hm hpc hk => absurd hpc (hnone l p hm hk)
    exact put_conns s hself
  obtain ⟨hun, hlog⟩ := removeConnection_unmoved hs
  exact hq.congr hun.accepted hun.conns hun.active fun c' life hlife =>
    times_of_removed hlog c' hlife

/-- A channel callback of a connection that is up. -/
theorem handler_quiet {s t : Network} {c : ConnId} {thread : LoopId} {a : Answers} {hd : Handler}
    (h : s.Quiet) (hsound : s.Sound) (hc : c < s.accepted) (hup : s.Up c)
    (hth : thread = (s.conns c).loop_)
    (hlegal : a.write.Legal (s.conns c).outputBuffer_.readableBytes)
    (honce : closing a hd = true → s.times c .closed = 0)
    (hnone : ∀ l, ∀ p ∈ s.active l, p.2 = .close → p.1 ≠ c)
    (hs : s.enact a.connect (runHandler (s.ctx thread c) a hd) = .ok t) : t.Quiet := by
  have hb := hsound.wired.bound hc (hsound.wired.not_freed hup) hth
  have hst := hsound.wired.state c hc hup
  cases hcl : closing a hd with
  | true =>
    obtain ⟨z, y, hz, hzy, hy, hact, hcalls, -⟩ := runHandler_close hb hcl hst
    rw [hy] at hs
    exact h.close hc hup.1 (honce hcl) hact hcalls hz hzy hnone hs
  | false =>
    cases hd with
    | close => cases hcl
    | error => exact h.still hc (Ctx.Plain.refl hb) ⟨rfl, rfl, rfl⟩ hs
    | read =>
      obtain ⟨y, hy, hp, -, hstill⟩ := Ctx.handleRead_plain hb (of_decide_eq_false hcl)
      rw [show runHandler (s.ctx thread c) a .read = .ok y from hy] at hs
      exact h.still hc hp hstill hs
    | write =>
      obtain ⟨y, hy, hp, -⟩ := Ctx.handleWrite_plain hb (r := a.write) hlegal
      rw [show runHandler (s.ctx thread c) a .write = .ok y from hy] at hs
      refine h.plain hc hp (fun _ _ hopen => ?_) (fun _ hshut => ?_) hs
      · obtain ⟨z, hz, hz'⟩ := Ctx.handleWrite_live (hopen.live hb hst) (r := a.write) hlegal
        obtain rfl : z = y := by rw [hy] at hz; cases hz; rfl
        exact hz'.open
      · rw [Ctx.handleWrite_of_shut hshut hy]
        exact hshut

/-- The context in which `connectEstablished` runs. -/
theorem fresh_ctx {s : Network} {c : ConnId} {thread : LoopId}
    (hl : s.Ledger (some (.connectEstablished c))) (hw : s.Wired) (hc : c < s.accepted)
    (hth : thread = (s.conns c).loop_) : (s.ctx thread c).Fresh := by
  obtain ⟨h0, -, hfree, hst⟩ := before_established hl hw hc
  obtain ⟨wc, hwc⟩ := hw.fresh c hc h0
  have hidx : (s.conns c).channel_.index_ = EPoller.kNew := by
    rw [hwc]
    rfl
  obtain ⟨hmap, hint⟩ := (hw.agrees c hc hfree).new hidx
  refine ⟨hth, hst, hidx, hmap, hint, ?_, ?_, ?_⟩
  · show (s.conns c).channel_.events_ = _
    rw [hwc]
    rfl
  · show (s.conns c).socket_ = _
    rw [hwc]
    rfl
  · show (s.conns c).outputBuffer_.readable = []
    rw [hwc]
    exact ByteBuffer.readable_new

/-- `connectEstablished` opens the channel. -/
theorem establish_quiet {s t : Network} {c : ConnId} {thread : LoopId} {a : Answers}
    (h : s.Quiet) (hl : s.Ledger (some (.connectEstablished c))) (hw : s.Wired)
    (hc : c < s.accepted) (hs : s.runFunctor thread a (.connectEstablished c) = .ok t) :
    t.Quiet := by
  obtain ⟨y, n, hy, hth, hp, rfl⟩ := runFunctor_established hl hw hc hs
  obtain ⟨z, hz, hlive, -⟩ := Ctx.connectEstablished_live (fresh_ctx hl hw hc hth)
  obtain rfl : z = y := by rw [hy] at hz; cases hz; rfl
  have hself : z.self = c := hp.self
  have hnot : s.times c .closed = 0 := by
    have h1 := (hl.balanced c hc).first
    have h2 := (before_established hl hw hc).1
    omega
  have hnot' : (s.record c .established thread).times c .closed = 0 := by
    rw [times_record_of_ne _ _ _ _ (by decide)]
    exact hnot
  refine h.put (c := c) rfl ?_ rfl (fun c' hcc => Function.update_of_ne hcc _ _)
    (fun _ _ => hlive.open) (fun hcl => absurd hnot' (Nat.ne_of_gt hcl)) fun _ _ _ _ _ => hnot'
  exact put_conns s hself

/-- `connectDestroyed` leaves the channel shut. -/
theorem destroy_quiet {s t : Network} {c : ConnId} {thread : LoopId} {a : Answers} (h : s.Quiet)
    (hl : s.Ledger (some (.connectDestroyed c))) (hw : s.Wired) (hc : c < s.accepted)
    (hs : s.runFunctor thread a (.connectDestroyed c) = .ok t) : t.Quiet := by
  obtain ⟨z, n, hy, -, hp, -, rfl⟩ := runFunctor_destroyed hl hw hc hs
  have hself : z.self = c := hp.self
  have hclosed : 0 < s.times c .closed := by
    have h1 := (hl.balanced c hc).removed
    have h2 := pending_self s (.connectDestroyed c)
    have h3 := (hl.balanced c hc).order
    omega
  have hclosed' : 0 < (s.record c .destroyed thread).times c .closed := by
    rw [times_record_of_ne _ _ _ _ (by decide)]
    exact hclosed
  refine h.put (c := c) rfl ?_ rfl (fun c' hcc => Function.update_of_ne hcc _ _)
    (fun _ h0 => absurd h0 (Nat.ne_of_gt hclosed')) (fun _ => Ctx.connectDestroyed_shut hy)
    fun l p hm hpc hk => ?_
  · exact put_conns s hself
  · have h0 := h.closed l p hm hk
    rw [hpc] at h0
    exact absurd h0 (Nat.ne_of_gt hclosed)

theorem functor_quiet {s t : Network} {f : Functor} {thread : LoopId} {a : Answers} (h : s.Quiet)
    (hl : s.Ledger (some f)) (hw : s.Wired) (hc : f.conn < s.accepted) (hth : thread = s.home f)
    (hno : ∀ c message, f = .sendInLoop c message →
      (s.ctx thread c).direct a.write < message.length → s.times c .closed = 0)
    (hs : s.runFunctor thread a f = .ok t) : t.Quiet := by
  cases f with
  | connectEstablished c => exact establish_quiet h hl hw hc hs
  | removeConnectionInLoop c =>
    obtain ⟨hun, hb, hlog⟩ := removeConnectionInLoop_unmoved hs
    exact h.congr hun.accepted hun.conns hun.active fun c' life hlife =>
      times_of_removed (.inr ⟨hb, hlog⟩) c' hlife
  | connectDestroyed c => exact destroy_quiet h hl hw hc hs
  | writeCompleteCallback c =>
    cases hs
    exact h
  | sendInLoop c message =>
    obtain ⟨hfree, hs⟩ := require_bind_ok.1 hs
    exact h.sendInLoop ⟨hl.drop rfl, hw⟩ hc hfree hth (hno c message rfl) hs
  | shutdownInLoop c =>
    have hc' : c < s.accepted := hc
    obtain ⟨hfree, hs⟩ := require_bind_ok.1 hs
    obtain ⟨y, hy, hp, -, hstill⟩ := Ctx.shutdownInLoop_plain (hw.bound hc' hfree hth)
    rw [hy] at hs
    exact h.still hc' hp hstill hs

/-! ### Every step keeps the invariant -/

/-- A new connection is neither open nor shut yet. -/
theorem Quiet.create {s : Network} (h : s.Quiet) (hsound : s.Sound) (conn : TcpConnection)
    (owner : Owner) : (s.create conn owner).Quiet := by
  have htimes : ∀ life, (s.create conn owner).times s.accepted life = 0 := fun life => by
    show List.countP _ (s.log s.accepted) = 0
    rw [hsound.ledger.fresh s.accepted le_rfl]
    rfl
  refine ⟨fun c hc he h0 => ?_, fun c hc hcl => ?_, h.first, h.closed⟩
  · rcases Nat.lt_succ_iff_lt_or_eq.1 hc with hc | rfl
    · rw [create_old s conn owner hc]
      exact h.opened c hc he h0
    · exact absurd (htimes .established) (Nat.ne_of_gt he)
  · rcases Nat.lt_succ_iff_lt_or_eq.1 hc with hc | rfl
    · rw [create_old s conn owner hc]
      exact h.shut c hc hcl
    · exact absurd (htimes .closed) (Nat.ne_of_gt hcl)

/-- A new connection of a server. -/
theorem serverNewConnection_quiet {s t : Network} {sv : TcpServer} {sockfd : ℕ} {wc : Bool}
    (h : s.Quiet) (hsound : s.Sound) (ho : s.owner = .server sv) (hfd : s.FreshFd sockfd)
    (hs : s.serverNewConnection sv sockfd wc = .ok t) : t.Quiet := by
  obtain ⟨hledger, hwired⟩ := serverCreate_sound hsound ho hfd wc
  have hq : (s.serverCreate sv sockfd wc).Quiet := h.create hsound _ _
  obtain ⟨-, hs⟩ := require_bind_ok.1 hs
  by_cases hio : sv.threadPool_.getNextLoop.1 = baseLoop
  · rw [if_pos hio] at hs
    exact establish_quiet hq hledger hwired (Nat.lt_succ_self _) hs
  · rw [if_neg hio] at hs
    cases hs
    exact hq.congr rfl rfl rfl fun _ _ _ => rfl

/-- A new connection of a client. -/
theorem clientNewConnection_quiet {s t : Network} {cl₀ cl : TcpClient} {sockfd : ℕ}
    {peerAddr : String} {wc : Bool} (h : s.Quiet) (hsound : s.Sound) (ho : s.owner = .client cl₀)
    (hnone : cl₀.connection_ = none) (hnext : cl.nextConnId_ = cl₀.nextConnId_)
    (hstate : cl.connector_.state_ = .kConnected) (hfd : s.FreshFd sockfd)
    (hs : s.clientNewConnection cl sockfd peerAddr wc = .ok t) : t.Quiet := by
  obtain ⟨hledger, hwired⟩ :=
    clientCreate_sound cl hsound ho hnone hnext hstate hfd peerAddr wc
  obtain ⟨-, hs⟩ := require_bind_ok.1 hs
  exact establish_quiet (h.create hsound _ _) hledger hwired (Nat.lt_succ_self _) hs

/-- The callbacks of one active channel, and those of different channels. -/
theorem closeFirst_callbacks (s : Network) {activeChannels : List (ConnId × Events)}
    (h : (activeChannels.map Prod.fst).Nodup) :
    CloseFirst (activeChannels.flatMap s.callbacks) := by
  unfold CloseFirst
  rw [List.pairwise_flatMap]
  constructor
  · -- one channel calls its close callback before the others
    intro p _
    unfold callbacks
    rw [List.pairwise_map]
    exact (Channel.handleEvent_pairwise _).imp fun hne hk => absurd hk hne
  · rw [List.Nodup, List.pairwise_map] at h
    refine h.imp fun hne p hp q hq _ => ?_
    rw [mem_callbacks hp, mem_callbacks hq]
    exact hne

/-- The kernel does not report a connection that has been closed. -/
theorem Quiet.not_watched {s : Network} (h : s.Quiet) (hsound : s.Sound) {loop : LoopId}
    {c : ConnId} (hw : s.Watches loop c) : s.times c .closed = 0 := by
  obtain ⟨-, hc, hloop, hup⟩ := hsound.wired.of_watches hw
  by_contra hcl
  have hb := hsound.wired.bound hc (hsound.wired.not_freed hup) hloop
  have hshut : Ctx.Shut (s.ctx loop c).conn := h.shut c hc (Nat.pos_of_ne_zero hcl)
  have hnone : (s.pollers (s.conns c).loop_).interest (s.conns c).channel_.fd_ = none :=
    hshut.unwatched hb
  unfold Watches at hw
  rw [hloop, hnone] at hw
  cases hw

/-- The next channel callback is taken: no close callback of its connection is left. -/
theorem Quiet.popActive {s : Network} (h : s.Quiet) (hsound : s.Sound) {loop : LoopId} {c : ConnId}
    {hd : Handler} {rest : List (ConnId × Handler)} (hq : s.active loop = (c, hd) :: rest) :
    Quiet { s with active := Function.update s.active loop rest } ∧
      ∀ l, ∀ p ∈ Function.update s.active loop rest l, p.2 = .close → p.1 ≠ c := by
  have hfirst : CloseFirst ((c, hd) :: rest) := by
    rw [← hq]
    exact h.first loop
  obtain ⟨hhead, htail⟩ := List.pairwise_cons.1 hfirst
  have hsub : ∀ l, ∀ p ∈ Function.update s.active loop rest l, p ∈ s.active l := fun l p hp => by
    by_cases hl : l = loop
    · rw [hl, Function.update_self] at hp
      rw [hl, hq]
      exact List.mem_cons_of_mem _ hp
    · rwa [Function.update_of_ne hl] at hp
  refine ⟨⟨h.opened, h.shut, fun l => ?_, fun l p hp => h.closed l p (hsub l p hp)⟩,
    fun l p hp hk => ?_⟩
  · show CloseFirst (Function.update s.active loop rest l)
    by_cases hl : l = loop
    · rw [hl, Function.update_self]
      exact htail
    · rw [Function.update_of_ne hl]
      exact h.first l
  · -- the callbacks of a connection are on its own loop
    have hloop := (hsound.wired.active loop (c, hd) (by rw [hq]; exact List.mem_cons_self ..)).2.1
    have hl := (hsound.wired.active l p (hsub l p hp)).2.1
    by_cases hlo : l = loop
    · rw [hlo, Function.update_self] at hp
      exact Ne.symm (hhead p hp hk)
    · intro hpc
      rw [hpc] at hl
      exact hlo (hl.trans hloop.symm)

/-- A step that meets the conditions closes no connection for the second time. -/
theorem Quiet.closesOnce {s : Network} (h : s.Quiet) {l : Label} (heof : s.NoSecondEof l) :
    s.ClosesOnce l := by
  intro c hcl
  cases l <;> simp only [closes, Option.mem_def, reduceCtorEq] at hcl
  case handle loop a =>
    split at hcl
    · next c' hd rest hq =>
      rw [Option.ite_none_right_eq_some, Option.some.injEq] at hcl
      obtain ⟨hk, rfl⟩ := hcl
      cases hd with
      | close => exact h.closed loop (c', .close) (by rw [hq]; exact List.mem_cons_self ..) rfl
      | error => cases hk
      -- a read closes the connection when it finds the end of the file
      | read =>
        refine heof c' ?_
        simp only [eof, hq]
        exact if_pos (of_decide_eq_true hk)
      | write => cases hk
    · cases hcl

/-- The callbacks that `poll` finds. -/
theorem poll_quiet {s : Network} (h : s.Quiet) (hsound : s.Sound) {loop : LoopId}
    {activeChannels : List (ConnId × Events)} (hnodup : (activeChannels.map Prod.fst).Nodup)
    (hwatch : ∀ p ∈ activeChannels, s.Watches loop p.1) :
    Quiet { s with
      active := Function.update s.active loop (activeChannels.flatMap s.callbacks) } := by
  refine ⟨h.opened, h.shut, fun l => ?_, fun l p hp hk => ?_⟩
  · show CloseFirst (Function.update s.active loop _ l)
    by_cases hl : l = loop
    · rw [hl, Function.update_self]
      exact closeFirst_callbacks s hnodup
    · rw [Function.update_of_ne hl]
      exact h.first l
  · show s.times p.1 .closed = 0
    rcases mem_polled hp with ⟨-, q, hq, hpq⟩ | hp
    · rw [hpq]
      exact h.not_watched hsound (hwatch q hq)
    · exact h.closed l p hp hk

/-- `send` on the loop thread. -/
theorem send_quiet {s t : Network} (h : s.Quiet) (hsound : s.Sound) {c : ConnId}
    {message : List Byte} {r : WriteResult} {cr : ConnectResult} (hc : c < s.accepted)
    (hfree : s.freed c = false)
    (hno : (s.conns c).state_ = .kConnected ∧
      (s.ctx (s.conns c).loop_ c).direct r < message.length → s.times c .closed = 0)
    (hs : s.enact cr ((s.ctx (s.conns c).loop_ c).send message r) = .ok t) : t.Quiet := by
  by_cases hk : (s.conns c).state_ = .kConnected
  · rw [Ctx.send, if_pos (show (s.ctx (s.conns c).loop_ c).conn.state_ = _ from hk)] at hs
    exact h.sendInLoop hsound hc hfree rfl (fun hlt => hno ⟨hk, hlt⟩) hs
  · rw [Ctx.send, if_neg (show ¬ (s.ctx (s.conns c).loop_ c).conn.state_ = _ from hk)] at hs
    exact h.still hc (Ctx.Plain.refl (hsound.wired.bound hc hfree rfl)) ⟨rfl, rfl, rfl⟩ hs

/-- Another thread sets the state of an established connection. -/
theorem Quiet.disconnecting {s : Network} (h : s.Quiet) {c : ConnId} (hc : c < s.accepted) :
    Quiet { s with
      conns := Function.update s.conns c { s.conns c with state_ := .kDisconnecting } } := by
  have hopen : ∀ {conn : TcpConnection}, Ctx.Open conn →
      Ctx.Open { conn with state_ := .kDisconnecting } :=
    fun hopen => ⟨hopen.index, hopen.reading, hopen.synced⟩
  refine h.put (c := c) rfl rfl rfl (fun _ _ => rfl) (fun he h0 => hopen (h.opened c hc he h0))
    (fun hcl => (h.shut c hc hcl).of_channel rfl) fun l p hm hpc hk => ?_
  rw [← hpc]
  exact h.closed l p hm hk

theorem Steps.quiet {s t : Network} {l : Label} (hs : s.Steps l t) (h : s.Quiet)
    (hsound : s.Sound) (honce : s.ClosesOnce l) (hno : s.NoRevival l) : t.Quiet := by
  have hset : ∀ owner, (s.setOwner owner).Quiet := fun owner =>
    h.congr rfl rfl rfl fun _ _ _ => rfl
  cases hs with
  | newConnection ho hfd ht => exact serverNewConnection_quiet h hsound ho hfd ht
  | destroyServer ho => exact hset _
  | clientCall call ho => exact hset _
  | startInLoop ho hk => exact hset _
  | connectorEvent k ho hst => exact hset _
  | connected ho hst hfd ht =>
    have hidle := hsound.ledger.client_idle ho (by rw [hst]; decide)
    refine clientNewConnection_quiet h hsound ho hidle ?_ ?_ hfd ht <;> rfl
  | poll hidle hnodup hwatch => exact poll_quiet h hsound hnodup hwatch
  | @handle loop a c hd rest t hq hlegal hfree ht =>
    obtain ⟨h₀, hc, hth, hup⟩ := hsound.popActive hq
    obtain ⟨hq₀, hnone⟩ := h.popActive hsound hq
    refine handler_quiet hq₀ h₀ hc hup hth hlegal (fun hcl => honce c ?_) hnone ht
    simp only [closes, hq]
    exact if_pos hcl
  | @functor loop a f rest t hidle hq hlegal ht =>
    obtain ⟨hl, hw, hc, hth, -⟩ := hsound.pop hq
    have hq₀ : Quiet { s with functors := Function.update s.functors loop rest } :=
      h.congr rfl rfl rfl fun _ _ _ => rfl
    refine functor_quiet hq₀ hl hw hc (by rw [hth]; cases f <;> rfl)
      (fun c message hf hlt => hno c ?_) ht
    rw [hf] at hq
    simp only [unsent, hidle, hq]
    exact if_pos hlt
  | send hu hlegal ht => exact send_quiet h hsound hu.1 hu.2 (fun hlt => hno _ (if_pos hlt)) ht
  | shutdown hu ht =>
    obtain ⟨y, hy, hp, hstill, -⟩ := Ctx.shutdown_plain (hsound.wired.bound hu.1 hu.2 rfl)
    rw [hy] at ht
    exact h.still hu.1 hp hstill ht
  | @proceedShutdown c hu =>
    have h₁ : Quiet { s with calls := .shuttingDown c :: s.calls.erase (.shutdown c) } :=
      h.congr rfl rfl rfl fun _ _ _ => rfl
    exact h₁.disconnecting (hsound.wired.calls _ hu).1
  | foreignSend message hu hk => exact h.congr rfl rfl rfl fun _ _ _ => rfl
  | foreignShutdown hu hk => exact h.congr rfl rfl rfl fun _ _ _ => rfl
  | proceedSend hu => exact h.congr rfl rfl rfl fun _ _ _ => rfl
  | proceedShuttingDown hu => exact h.congr rfl rfl rfl fun _ _ _ => rfl
  | hold hu => exact h.congr rfl rfl rfl fun _ _ _ => rfl
  | drop hpos => exact h.congr rfl rfl rfl fun _ _ _ => rfl
  | free hu hown => exact h.congr rfl rfl rfl fun _ _ _ => rfl

/-! ### Whole runs -/

theorem new_quiet (owner : Owner) (loops : List LoopId) : (new owner loops).Quiet := by
  refine ⟨fun c hc => absurd hc (Nat.not_lt_zero c), fun c hc => absurd hc (Nat.not_lt_zero c),
    fun l => List.Pairwise.nil, fun l p hp => ?_⟩
  cases hp

/-- A connection that has not been closed has not been destroyed either. -/
theorem Sound.not_destroyed {s : Network} (h : s.Sound) {c : ConnId} (h0 : s.times c .closed = 0) :
    s.times c .destroyed = 0 := by
  by_cases hc : c < s.accepted
  · have hord := (h.ledger.balanced c hc).order
    omega
  · rw [times, h.ledger.fresh c (Nat.not_lt.1 hc)]
    rfl

/-- No bytes are left behind on a closed connection, hence none on a destroyed one. -/
theorem Closing.proper {s : Network} {l : Label} (h : s.Closing l) (hsound : s.Sound) :
    s.Proper l :=
  ⟨h.keeps, fun c hc => hsound.not_destroyed (h.revival c hc), h.regular⟩

/-- The invariant of the runs in which every connection is closed once. -/
theorem step_closing {s : Network} {l : Label} {r : Except Failure Network}
    (h : s.Sound ∧ s.Ordered ∧ s.Quiet) (hc : s.Closing l) (hs : step s l = some r) :
    ∃ t, r = .ok t ∧ t.Sound ∧ t.Ordered ∧ t.Quiet := by
  obtain ⟨hsound, hord, hq⟩ := h
  have honce : s.ClosesOnce l := hq.closesOnce hc.eof
  obtain ⟨t, rfl, hsound', hord'⟩ := step_lives hsound hord (hc.proper hsound) honce hs
  exact ⟨t, rfl, hsound', hord', (step_cases hs).quiet hq hsound honce hc.revival⟩

theorem closing_of_reach {s₀ s : Network} (h : Reach (Moves step) Closing s₀ s)
    (h0 : s₀.Sound ∧ s₀.Ordered ∧ s₀.Quiet) : s.Sound ∧ s.Ordered ∧ s.Quiet := by
  refine h.invariant (I := fun x => x.Sound ∧ x.Ordered ∧ x.Quiet) h0 fun x l y hx hc hs => ?_
  obtain ⟨t, ht, hI⟩ := step_closing hx hc hs
  cases ht
  exact hI

theorem Ordered.life_le_one {s : Network} (h : s.Ordered) (hsound : s.Sound) (c : ConnId)
    (life : Life) : s.times c life ≤ 1 := by
  by_cases hc : c < s.accepted
  · exact h.times_le_one hc life
  · rw [times, hsound.ledger.fresh c (Nat.not_lt.1 hc)]
    exact Nat.zero_le 1

/-- A started server, or a client. -/
def Starts (s₀ : Network) : Prop :=
  (∃ name loops, s₀ = ofServer name loops) ∨ s₀ = ofClient

theorem Starts.invariant {s₀ : Network} (h : s₀.Starts) : s₀.Sound ∧ s₀.Ordered ∧ s₀.Quiet := by
  rcases h with ⟨name, loops, rfl⟩ | rfl
  · exact ⟨ofServer_sound name loops, new_ordered _ _, new_quiet _ _⟩
  · exact ⟨ofClient_sound, new_ordered _ _, new_quiet _ _⟩

/-- **Close happens once**, for every connection of a server or a client, in every run in which no
read finds the end of the file after the close callback and no bytes are left behind on a closed
connection; and no assertion fails in it. -/
theorem close_once {s₀ s : Network} (h0 : s₀.Starts) (h : Reach (Moves step) Closing s₀ s) :
    (∀ c, s.times c .closed ≤ 1 ∧ s.times c .removed ≤ 1 ∧ s.times c .destroyed ≤ 1) ∧
      ∀ l e, s.Closing l → step s l ≠ some (.error e) := by
  obtain ⟨hsound, hord, hq⟩ := closing_of_reach h h0.invariant
  refine ⟨fun c => ⟨hord.life_le_one hsound c _, hord.life_le_one hsound c _,
    hord.life_le_one hsound c _⟩, fun l e hc he => ?_⟩
  obtain ⟨t, ht, -⟩ := step_closing ⟨hsound, hord, hq⟩ hc he
  cases ht

/-! The client of a connection that the peer closes. -/

def clientLife : List Label :=
  [.clientCall .connect, .startInLoop .connecting,
    .connectorEvent (.established 5 "127.0.0.1" false), .poll baseLoop [(0, POLLIN)],
    .handle baseLoop noAnswers, .functor baseLoop noAnswers]

theorem close_once_clientLife :
    ∃ s, (∀ c, s.times c .closed ≤ 1 ∧ s.times c .removed ≤ 1 ∧ s.times c .destroyed ≤ 1) ∧
      (∀ l e, s.Closing l → step s l ≠ some (.error e)) ∧ s.times 0 .destroyed = 1 := by
  obtain ⟨s, hs, hp⟩ := exists_reach_of_run step Closing ofClient clientLife
    (fun s => s.times 0 .destroyed = 1) (by decide +kernel)
  obtain ⟨h1, h2⟩ := close_once (.inr rfl) hs
  exact ⟨s, h1, h2, of_decide_eq_true hp⟩

/-- The peer hangs up: one `handleEvent` runs the close callback and a read that finds the end of
the file. The second `removeConnectionInLoop` has nothing to erase. -/
theorem close_twice :
    ∃ s, Reach (Moves step) Proper (ofServer "0.0.0.0:2000" [1]) s ∧ s.times 0 .closed = 2 ∧
      step s (.functor baseLoop noAnswers) = some (.error .eraseNotOne) := by
  obtain ⟨s, hs, hp⟩ := exists_reach_of_run step Proper (ofServer "0.0.0.0:2000" [1])
    [.newConnection 5 false, .functor 1 noAnswers, .poll 1 [(0, POLLHUP)], .handle 1 noAnswers,
      .handle 1 noAnswers, .functor baseLoop noAnswers]
    (fun s => s.times 0 .closed = 2 ∧
      fails step s (.functor baseLoop noAnswers) .eraseNotOne = true) (by decide +kernel)
  obtain ⟨hclosed, hfails⟩ := of_decide_eq_true hp
  exact ⟨s, hs, hclosed, eq_of_fails hfails⟩

/-- A `send` between `handleClose` and `connectDestroyed` cannot write its message and sets write
interest, and the kernel reports the end of the file once more. -/
theorem close_twice_after_send :
    ∃ s, Reach (Moves step) Proper (ofServer "0.0.0.0:2000" [1]) s ∧ s.times 0 .closed = 2 := by
  obtain ⟨s, hs, hp⟩ := exists_reach_of_run step Proper (ofServer "0.0.0.0:2000" [1])
    [.newConnection 5 false, .functor 1 noAnswers, .poll 1 [(0, POLLIN)], .handle 1 noAnswers,
      .send 0 [7] noAnswers, .poll 1 [(0, POLLHUP)], .handle 1 noAnswers]
    (fun s => s.times 0 .closed = 2) (by decide +kernel)
  exact ⟨s, hs, of_decide_eq_true hp⟩

end Network

end Fppnet
