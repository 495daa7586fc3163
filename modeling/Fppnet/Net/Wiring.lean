import Fppnet.Net.Ledger

/-!
# The channels of a network of connections

* `Up`: `connectEstablished` has run for a connection and `connectDestroyed` has not;
* `Wired`: the pollers have the channels of connections that are up and no others, the records of
  each poller agree about every connection of its loop, and the descriptors that are open are
  distinct. Nothing is said about the user's calls of `send` and `shutdown` but that they come after
  `connectEstablished`;
* the lemmas say what keeps the wiring: a member function (`Wired.put`), a new connection
  (`Wired.create`), a destructor (`Wired.free`), and whatever the owner does (`Wired.of_removed`).
-/

namespace Fppnet

open Checked Runs TcpConnection

namespace Network

/-- The connection is between `connectEstablished` and `connectDestroyed`. -/
def Up (s : Network) (c : ConnId) : Prop :=
  0 < s.times c .established ∧ s.times c .destroyed = 0

structure Wired (s : Network) : Prop where
  agrees : ∀ c < s.accepted, s.freed c = false →
    (s.pollers (s.conns c).loop_).Agrees c (s.conns c).channel_
  fds : ∀ c < s.accepted, ∀ c' < s.accepted, s.freed c = false → s.freed c' = false →
    (s.conns c).channel_.fd_ = (s.conns c').channel_.fd_ → c = c'
  mapped : ∀ l fd c, (s.pollers l).channels_ fd = some c →
    c < s.accepted ∧ l = (s.conns c).loop_ ∧ fd = (s.conns c).channel_.fd_ ∧ s.Up c
  watched : ∀ l fd events c, (s.pollers l).interest fd = some (events, c) →
    (s.pollers l).channels_ fd = some c
  fresh : ∀ c < s.accepted, s.times c .established = 0 → ∃ wc, s.conns c =
    TcpConnection.new (s.conns c).loop_ (s.conns c).name_ (s.conns c).channel_.fd_ wc
  state : ∀ c < s.accepted, s.Up c →
    (s.conns c).state_ = .kConnected ∨ (s.conns c).state_ = .kDisconnecting
  freed : ∀ c, s.freed c = true → c < s.accepted ∧ 0 < s.times c .destroyed
  active : ∀ l, ∀ p ∈ s.active l, p.1 < s.accepted ∧ l = (s.conns p.1).loop_ ∧ s.Up p.1
  calls : ∀ u ∈ s.calls,
    u.conn < s.accepted ∧ s.freed u.conn = false ∧ 0 < s.times u.conn .established

/-! ### Changes of the wiring -/

theorem Wired.not_freed {s : Network} (h : s.Wired) {c : ConnId} (hup : s.Up c) :
    s.freed c = false := by
  by_contra hf
  rw [Bool.not_eq_false] at hf
  exact absurd hup.2 (Nat.ne_of_gt (h.freed c hf).2)

/-- The contexts of member functions are bound. -/
theorem Wired.bound {s : Network} (h : s.Wired) {c : ConnId} (hc : c < s.accepted)
    (hfree : s.freed c = false) {thread : LoopId} (hth : thread = (s.conns c).loop_) :
    (s.ctx thread c).Bound := ⟨hth, h.agrees c hc hfree⟩

/-- A step that leaves the connections and the pollers alone. -/
theorem Wired.congr {s t : Network} (h : s.Wired) (hconns : t.conns = s.conns)
    (hpollers : t.pollers = s.pollers) (hacc : t.accepted = s.accepted)
    (hfreed : t.freed = s.freed) (hcalls : ∀ u ∈ t.calls, u ∈ s.calls)
    (hactive : ∀ l, ∀ p ∈ t.active l, p ∈ s.active l)
    (hest : ∀ c, t.times c .established = s.times c .established)
    (hdes : ∀ c, t.times c .destroyed = s.times c .destroyed) : t.Wired := by
  have hup : ∀ c, t.Up c ↔ s.Up c := fun c => by rw [Up, Up, hest, hdes]
  constructor <;> simp only [hconns, hpollers, hacc, hfreed, hup, hest, hdes]
  · exact h.agrees
  · exact h.fds
  · exact h.mapped
  · exact h.watched
  · exact h.fresh
  · exact h.state
  · exact h.freed
  · exact fun l p hp => h.active l p (hactive l p hp)
  · exact fun u hu => h.calls u (hcalls u hu)

/-- A member function of `c` has run: `c` and the poller of its loop are those of `y`, the loop and
the descriptor of `c` are the same, and so are all other connections, their lives and all records
of other descriptors. -/
structure Puts (s t : Network) (c : ConnId) (y : Ctx ConnId) : Prop where
  conn : t.conns c = y.conn
  others : ∀ c', c' ≠ c → t.conns c' = s.conns c'
  loop : y.conn.loop_ = (s.conns c).loop_
  fd : y.conn.channel_.fd_ = (s.conns c).channel_.fd_
  times : ∀ c', c' ≠ c → ∀ life, t.times c' life = s.times c' life
  poller : t.pollers (s.conns c).loop_ = y.poller
  agrees : y.poller.Agrees c y.conn.channel_
  elsewhere : ∀ l fd, (l = (s.conns c).loop_ → fd ≠ (s.conns c).channel_.fd_) →
    (t.pollers l).channels_ fd = (s.pollers l).channels_ fd ∧
      (t.pollers l).interest fd = (s.pollers l).interest fd

namespace Puts

variable {s t : Network} {c : ConnId} {y : Ctx ConnId}

theorem of_acts {thread : LoopId} (hact : (s.ctx thread c).Acts y)
    (hconns : t.conns = Function.update s.conns c y.conn)
    (hpollers : t.pollers = Function.update s.pollers (s.conns c).loop_ y.poller)
    (hlog : ∀ c', c' ≠ c → t.log c' = s.log c') : Puts s t c y where
  conn := by rw [hconns, Function.update_self]
  others := fun c' hne => by rw [hconns, Function.update_of_ne hne]
  loop := hact.loop
  fd := hact.fd
  times := fun c' hne life => by rw [Network.times, Network.times, hlog c' hne]
  poller := by rw [hpollers, Function.update_self]
  agrees := by
    have hself : y.self = c := hact.self
    rw [← hself]
    exact hact.agrees
  elsewhere := fun l fd hne => by
    by_cases hl : l = (s.conns c).loop_
    · rw [hl, hpollers, Function.update_self]
      exact hact.elsewhere fd (hne hl)
    · rw [hpollers, Function.update_of_ne hl]
      exact ⟨rfl, rfl⟩

theorem loops (h : Puts s t c y) (c' : ConnId) : (t.conns c').loop_ = (s.conns c').loop_ := by
  by_cases hcc : c' = c
  · rw [hcc, h.conn, h.loop]
  · rw [h.others c' hcc]

theorem fds (h : Puts s t c y) (c' : ConnId) :
    (t.conns c').channel_.fd_ = (s.conns c').channel_.fd_ := by
  by_cases hcc : c' = c
  · rw [hcc, h.conn, h.fd]
  · rw [h.others c' hcc]

theorem up (h : Puts s t c y) {c' : ConnId} (hne : c' ≠ c) : t.Up c' ↔ s.Up c' := by
  rw [Up, Up, h.times c' hne, h.times c' hne]

/-- The poller agrees about `c` because the member function says so, and about the others of the
loop because their descriptors are different. -/
theorem poller_agrees (h : Puts s t c y) (hw : s.Wired) (hc : c < s.accepted)
    (hfree : s.freed c = false) {c' : ConnId} (hc' : c' < s.accepted)
    (hf' : s.freed c' = false) :
    (t.pollers (t.conns c').loop_).Agrees c' (t.conns c').channel_ := by
  by_cases hcc : c' = c
  · rw [hcc, h.conn, h.loop, h.poller]
    exact h.agrees
  · rw [h.others c' hcc]
    have hne : (s.conns c').loop_ = (s.conns c).loop_ →
        (s.conns c').channel_.fd_ ≠ (s.conns c).channel_.fd_ := fun _ he =>
      hcc (hw.fds c' hc' c hc hf' hfree he)
    obtain ⟨h1, h2⟩ := h.elsewhere _ _ hne
    exact (hw.agrees c' hc' hf').elsewhere h1 h2

theorem mapped (h : Puts s t c y) (hw : s.Wired) (hc : c < s.accepted)
    (hup : y.poller.channels_ (s.conns c).channel_.fd_ = some c → t.Up c) {l : LoopId} {fd : ℕ}
    {c' : ConnId} (hm : (t.pollers l).channels_ fd = some c') :
    c' < s.accepted ∧ l = (s.conns c').loop_ ∧ fd = (s.conns c').channel_.fd_ ∧ t.Up c' := by
  by_cases hat : l = (s.conns c).loop_ ∧ fd = (s.conns c).channel_.fd_
  · obtain ⟨rfl, rfl⟩ := hat
    rw [h.poller, ← h.fd] at hm
    -- the only channel at this descriptor is that of `c`
    obtain rfl : c' = c := h.agrees.mapped hm
    rw [h.fd] at hm
    exact ⟨hc, rfl, rfl, hup hm⟩
  · rw [(h.elsewhere l fd fun hl hf => hat ⟨hl, hf⟩).1] at hm
    obtain ⟨h1, h2, h3, h4⟩ := hw.mapped l fd c' hm
    have hcc : c' ≠ c := by
      rintro rfl
      exact hat ⟨h2, h3⟩
    exact ⟨h1, h2, h3, (h.up hcc).2 h4⟩

theorem watched (h : Puts s t c y) (hw : s.Wired) {l : LoopId} {fd : ℕ} {events : Events}
    {c' : ConnId} (hi : (t.pollers l).interest fd = some (events, c')) :
    (t.pollers l).channels_ fd = some c' := by
  by_cases hat : l = (s.conns c).loop_ ∧ fd = (s.conns c).channel_.fd_
  · obtain ⟨rfl, rfl⟩ := hat
    rw [h.poller, ← h.fd] at hi ⊢
    exact (h.agrees.watched hi).2
  · obtain ⟨helse, hint⟩ := h.elsewhere l fd fun hl hf => hat ⟨hl, hf⟩
    rw [hint] at hi
    rw [helse]
    exact hw.watched l fd events c' hi

end Puts

/-- A member function of `c` has run, and its life may have gone on. -/
theorem Wired.put {s t : Network} (h : s.Wired) {c : ConnId} (hc : c < s.accepted)
    (hfree : s.freed c = false) {thread : LoopId} {y : Ctx ConnId}
    (hact : (s.ctx thread c).Acts y) (hconns : t.conns = Function.update s.conns c y.conn)
    (hpollers : t.pollers = Function.update s.pollers (s.conns c).loop_ y.poller)
    (hacc : t.accepted = s.accepted) (hfreed : t.freed = s.freed) (hcalls : t.calls = s.calls)
    (hlog : ∀ c', c' ≠ c → t.log c' = s.log c')
    (hactive : ∀ l, ∀ p ∈ t.active l, p ∈ s.active l ∧ (p.1 = c → t.Up c))
    (hest : 0 < s.times c .established → 0 < t.times c .established)
    (hup : y.poller.channels_ (s.conns c).channel_.fd_ = some c → t.Up c)
    (hfresh : t.times c .established = 0 → y.conn = s.conns c)
    (hstate : t.Up c → y.conn.state_ = .kConnected ∨ y.conn.state_ = .kDisconnecting) :
    t.Wired := by
  have hputs : Puts s t c y := .of_acts hact hconns hpollers hlog
  -- each statement is the member function's for `c`, and the old one for the others
  constructor
  case agrees =>
    rw [hacc, hfreed]
    exact fun c' hc' hf' => hputs.poller_agrees h hc hfree hc' hf'
  case fds =>
    rw [hacc, hfreed]
    intro c₁ h₁ c₂ h₂ hf₁ hf₂ he
    rw [hputs.fds, hputs.fds] at he
    exact h.fds c₁ h₁ c₂ h₂ hf₁ hf₂ he
  case mapped =>
    intro l fd c' hm
    rw [hacc, hputs.loops, hputs.fds]
    exact hputs.mapped h hc hup hm
  case watched => exact fun l fd events c' hi => hputs.watched h hi
  case fresh =>
    rw [hacc]
    intro c' hc' he
    by_cases hcc : c' = c
    · subst hcc
      have he' : s.times c' .established = 0 := by
        by_contra hne
        exact absurd he (Nat.ne_of_gt (hest (Nat.pos_of_ne_zero hne)))
      rw [hputs.conn, hfresh he]
      exact h.fresh c' hc' he'
    · rw [hputs.times c' hcc] at he
      rw [hputs.others c' hcc]
      exact h.fresh c' hc' he
  case state =>
    rw [hacc]
    intro c' hc' hu
    by_cases hcc : c' = c
    · subst hcc
      rw [hputs.conn]
      exact hstate hu
    · rw [hputs.others c' hcc]
      exact h.state c' hc' ((hputs.up hcc).1 hu)
  case freed =>
    rw [hacc, hfreed]
    intro c' hf'
    have hcc : c' ≠ c := by
      rintro rfl
      rw [hfree] at hf'
      cases hf'
    rw [hputs.times c' hcc]
    exact h.freed c' hf'
  case active =>
    intro l p hp
    obtain ⟨hps, hpc⟩ := hactive l p hp
    obtain ⟨h1, h2, h3⟩ := h.active l p hps
    rw [hacc, hputs.loops]
    refine ⟨h1, h2, ?_⟩
    by_cases hcc : p.1 = c
    · rw [hcc]
      exact hpc hcc
    · exact (hputs.up hcc).2 h3
  case calls =>
    intro u hu
    rw [hcalls] at hu
    obtain ⟨h1, h2, h3⟩ := h.calls u hu
    rw [hacc, hfreed]
    refine ⟨h1, h2, ?_⟩
    by_cases hcc : u.conn = c
    · rw [hcc] at h3 ⊢
      exact hest h3
    · rw [hputs.times _ hcc]
      exact h3

/-- No poller has a descriptor that is not in use: the connection that had it is gone. -/
theorem Wired.unused {s : Network} (h : s.Wired) {sockfd : ℕ} (hfd : s.FreshFd sockfd)
    (l : LoopId) :
    (s.pollers l).channels_ sockfd = none ∧ (s.pollers l).interest sockfd = none := by
  have hmap : (s.pollers l).channels_ sockfd = none := by
    cases hm : (s.pollers l).channels_ sockfd with
    | none => rfl
    | some c =>
      obtain ⟨h1, -, h3, h4⟩ := h.mapped l sockfd c hm
      exact absurd h3.symm (hfd c h1 (h.not_freed h4))
  refine ⟨hmap, ?_⟩
  cases hi : (s.pollers l).interest sockfd with
  | none => rfl
  | some e =>
    have hm := h.watched l sockfd e.1 e.2 hi
    rw [hmap] at hm
    cases hm

/-- A connection is created on a descriptor that is not in use. -/
theorem Wired.create {s : Network} (h : s.Wired) (hlog : s.log s.accepted = []) {loop : LoopId}
    {name : String} {sockfd : ℕ} {wc : Bool} (hfd : s.FreshFd sockfd) (owner : Owner) :
    (s.create (TcpConnection.new loop name sockfd wc) owner).Wired := by
  set conn := TcpConnection.new loop name sockfd wc with hconn
  have hnew := create_new s conn owner
  have hold : ∀ c < s.accepted, (s.create conn owner).conns c = s.conns c := fun _ =>
    create_old s conn owner
  have htimes : ∀ life, s.times s.accepted life = 0 := fun life => by
    rw [times, hlog]
    rfl
  have hcases : ∀ c < (s.create conn owner).accepted, c < s.accepted ∨ c = s.accepted :=
    fun c hc => Nat.lt_succ_iff_lt_or_eq.1 hc
  refine ⟨fun c hc hf => ?_, fun c hc c' hc' hf hf' he => ?_, fun l fd c hm => ?_, h.watched,
    fun c hc he => ?_, fun c hc hu => ?_, fun c hf => ?_, fun l p hp => ?_, fun u hu => ?_⟩
  · rcases hcases c hc with hc | rfl
    · rw [hold c hc]
      exact h.agrees c hc hf
    · rw [hnew]
      exact .inl ⟨rfl, h.unused hfd loop⟩
  · rcases hcases c hc with hc | rfl
    · rcases hcases c' hc' with hc' | rfl
      · rw [hold c hc, hold c' hc'] at he
        exact h.fds c hc c' hc' hf hf' he
      · rw [hold c hc, hnew] at he
        exact absurd he (hfd c hc hf)
    · rcases hcases c' hc' with hc' | rfl
      · rw [hold c' hc', hnew] at he
        exact absurd he.symm (hfd c' hc' hf')
      · rfl
  · obtain ⟨h1, h2, h3, h4⟩ := h.mapped l fd c hm
    rw [hold c h1]
    exact ⟨Nat.lt_succ_of_lt h1, h2, h3, h4⟩
  · rcases hcases c hc with hc | rfl
    · obtain ⟨wc', hwc⟩ := h.fresh c hc he
      refine ⟨wc', ?_⟩
      rw [hold c hc]
      exact hwc
    · refine ⟨wc, ?_⟩
      rw [hnew]
      rfl
  · rcases hcases c hc with hc | rfl
    · rw [hold c hc]
      exact h.state c hc hu
    · exact absurd (htimes _) (Nat.ne_of_gt hu.1)
  · obtain ⟨h1, h2⟩ := h.freed c hf
    exact ⟨Nat.lt_succ_of_lt h1, h2⟩
  · obtain ⟨h1, h2, h3⟩ := h.active l p hp
    rw [hold p.1 h1]
    exact ⟨Nat.lt_succ_of_lt h1, h2, h3⟩
  · obtain ⟨h1, h2, h3⟩ := h.calls u hu
    exact ⟨Nat.lt_succ_of_lt h1, h2, h3⟩

/-- The destructor of a connection that has been destroyed and has no owner left. -/
theorem Wired.free {s : Network} (h : s.Wired) {c : ConnId} (hc : c < s.accepted)
    (hdes : 0 < s.times c .destroyed) (hcalls : ∀ u ∈ s.calls, u.conn ≠ c) :
    Wired { s with freed := Function.update s.freed c true } := by
  have hsub : ∀ c', Function.update s.freed c true c' = false → s.freed c' = false :=
    fun c' hf => by
      by_cases hcc : c' = c
      · rw [hcc, Function.update_self] at hf
        cases hf
      · rwa [Function.update_of_ne hcc] at hf
  refine ⟨fun c' hc' hf => h.agrees c' hc' (hsub c' hf),
    fun c₁ h₁ c₂ h₂ hf₁ hf₂ he => h.fds c₁ h₁ c₂ h₂ (hsub c₁ hf₁) (hsub c₂ hf₂) he,
    h.mapped, h.watched, h.fresh, h.state, fun c' hf => ?_, h.active, fun u hu => ?_⟩
  · by_cases hcc : c' = c
    · rw [hcc]
      exact ⟨hc, hdes⟩
    · exact h.freed c' ((Function.update_of_ne hcc _ _).symm.trans hf)
  · obtain ⟨h1, h2, h3⟩ := h.calls u hu
    exact ⟨h1, (Function.update_of_ne (hcalls u hu) _ _).trans h2, h3⟩

/-! ### The owner leaves the wiring alone -/

/-- What the functions of the owner leave alone. -/
structure Unmoved (s t : Network) : Prop where
  loops : t.loops = s.loops
  accepted : t.accepted = s.accepted
  conns : t.conns = s.conns
  pollers : t.pollers = s.pollers
  active : t.active = s.active
  calls : t.calls = s.calls
  freed : t.freed = s.freed

/-- The log after a removal that may have been queued. -/
theorem removeConnectionInLoop_unmoved {s t : Network} {thread : LoopId} {c : ConnId}
    (hs : s.removeConnectionInLoop thread c = .ok t) :
    s.Unmoved t ∧ thread = baseLoop ∧ t.log = (s.record c .removed thread).log := by
  obtain ⟨sv, -, hth, -, rfl⟩ := removeConnectionInLoop_ok hs
  exact ⟨⟨rfl, rfl, rfl, rfl, rfl, rfl, rfl⟩, hth, rfl⟩

theorem removeConnection_unmoved {s t : Network} {thread : LoopId} {c : ConnId} {r : ConnectResult}
    (hs : s.removeConnection thread c r = .ok t) :
    s.Unmoved t ∧
      (t.log = s.log ∨ (thread = baseLoop ∧ t.log = (s.record c .removed thread).log)) := by
  cases removeConnection_cases hs with
  | now hs =>
    obtain ⟨hun, hth, hlog⟩ := removeConnectionInLoop_unmoved hs
    exact ⟨hun, .inr ⟨hth, hlog⟩⟩
  | later ho => exact ⟨⟨rfl, rfl, rfl, rfl, rfl, rfl, rfl⟩, .inl rfl⟩
  | client ho hth hloop hown k => exact ⟨⟨rfl, rfl, rfl, rfl, rfl, rfl, rfl⟩, .inr ⟨hth, rfl⟩⟩

theorem times_of_removed {s t : Network} {c : ConnId} {thread : LoopId}
    (hlog : t.log = s.log ∨ (thread = baseLoop ∧ t.log = (s.record c .removed thread).log))
    (c' : ConnId) {life : Life} (hlife : life ≠ .removed) : t.times c' life = s.times c' life := by
  rcases hlog with hlog | ⟨-, hlog⟩
  · rw [times, times, hlog]
  · rw [← times_record_of_ne s c c' thread (Ne.symm hlife), times, times, hlog]

/-- The wiring does not depend on removals. -/
theorem Wired.of_removed {s t : Network} (h : s.Wired) {c : ConnId} {thread : LoopId}
    (hun : s.Unmoved t)
    (hlog : t.log = s.log ∨ (thread = baseLoop ∧ t.log = (s.record c .removed thread).log)) :
    t.Wired :=
  h.congr hun.conns hun.pollers hun.accepted hun.freed (fun u hu => by rwa [← hun.calls])
    (fun l p hp => by rwa [← hun.active]) (fun c' => times_of_removed hlog c' (by decide))
    (fun c' => times_of_removed hlog c' (by decide))

end Network

end Fppnet
