import Mathlib
import Fppnet.Net.TcpServer

/-!
# The accounts of a network of connections

The life of a connection goes from one function to the next through the queues of two loops. The
ledger keeps the accounts: `times` says how often a function has run, `pending` how often it is to
be run by a queued functor, where `due` is a functor that has been taken out of its queue, or been
called at once, and has not run yet.

* `Balanced`: what has run and what is pending add up, whichever functions run;
* `Ledger`: all accounts are balanced, every functor is in the queue of the loop that is to run it,
  and the owner's entries are those of the connections that have not been removed;
* the lemmas follow the functors: they are taken out of a queue (`Ledger.pop`), run
  (`Ledger.established`, `Ledger.removed`, `Ledger.destroyed`) and put into the next queue
  (`Ledger.queue`).
-/

namespace Fppnet

open Checked Runs TcpConnection

/-- A functor that is not a function of the life of a connection. -/
def Functor.plain : Functor → Bool
  | connectEstablished _ | removeConnectionInLoop _ | connectDestroyed _ => false
  | writeCompleteCallback _ | sendInLoop _ _ | shutdownInLoop _ => true

namespace Network

/-- The loop that is to run a functor. -/
def home (s : Network) : Functor → LoopId
  | .removeConnectionInLoop _ => baseLoop
  | f => (s.conns f.conn).loop_

/-- How often a function of the life of `c` has run. -/
def times (s : Network) (c : ConnId) (life : Life) : ℕ :=
  (s.log c).countP fun e => e.life = life

/-- How often a functor is to be run. -/
def pending (s : Network) (due : Option Functor) (f : Functor) : ℕ :=
  (s.functors (s.home f)).count f + if due = some f then 1 else 0

/-- The accounts of one connection. -/
structure Balanced (s : Network) (due : Option Functor) (c : ConnId) : Prop where
  established : s.times c .established + s.pending due (.connectEstablished c) = 1
  closed : s.times c .closed = s.times c .removed + s.pending due (.removeConnectionInLoop c)
  removed : s.times c .removed = s.times c .destroyed + s.pending due (.connectDestroyed c)
  first : 0 < s.times c .closed → s.times c .established = 1
  once : s.times c .removed ≤ 1
  held : s.owner.Holds (s.conns c).name_ c ↔ s.times c .removed = 0

/-- What the owner knows about its connections. -/
def OwnerFacts (s : Network) : Prop :=
  match s.owner with
  | .server sv =>
    sv.nextConnId_ = s.accepted + 1 ∧
      (∀ c < s.accepted, (s.conns c).name_ = sv.name_ ++ ("#" ++ toString (c + 1))) ∧
      (∀ name c, sv.connections_ name = some c → c < s.accepted ∧ (s.conns c).name_ = name) ∧
      sv.threadPool_.baseLoop_ = baseLoop ∧ ∀ l ∈ sv.threadPool_.loops_, l ∈ s.loops
  | .client cl =>
    cl.nextConnId_ = s.accepted + 1 ∧
      (∀ c, cl.connection_ = some c → c < s.accepted ∧ cl.connector_.state_ = .kConnected) ∧
      (∀ l c, .removeConnectionInLoop c ∉ s.functors l) ∧
      ∀ c < s.accepted, (s.conns c).loop_ = baseLoop
  | .destroyed => True

structure Ledger (s : Network) (due : Option Functor) : Prop where
  placed : ∀ l, ∀ f ∈ s.functors l,
    f.conn < s.accepted ∧ l = s.home f ∧ (f.owns = none → 0 < s.times f.conn .established)
  balanced : ∀ c < s.accepted, s.Balanced due c
  fresh : ∀ c, s.accepted ≤ c → s.log c = []
  loops : baseLoop ∈ s.loops ∧ ∀ c < s.accepted, (s.conns c).loop_ ∈ s.loops
  owner : s.OwnerFacts

/-! ### Counting -/

theorem times_record (s : Network) (c c' : ConnId) (life life' : Life) (thread : LoopId) :
    (s.record c life thread).times c' life' =
      s.times c' life' + if c' = c ∧ life = life' then 1 else 0 := by
  unfold times record
  by_cases hc : c' = c
  · subst hc
    simp [List.countP_append, List.countP_cons]
  · simp [hc]

theorem times_record_of_ne (s : Network) (c c' : ConnId) {life life' : Life} (thread : LoopId)
    (h : life ≠ life') : (s.record c life thread).times c' life' = s.times c' life' := by
  rw [times_record, if_neg fun hh => h hh.2, Nat.add_zero]

theorem times_record_self (s : Network) (c : ConnId) (life : Life) (thread : LoopId) :
    (s.record c life thread).times c life = s.times c life + 1 := by
  rw [times_record, if_pos ⟨rfl, rfl⟩]

theorem pending_self (s : Network) (f : Functor) : 0 < s.pending (some f) f := by
  simp [pending]

theorem pending_of_ne {s : Network} {f g : Functor} (h : g ≠ f) :
    s.pending (some f) g = s.pending none g := by
  simp [pending, Ne.symm h]

/-- A functor that has been called instead of being queued. -/
theorem pending_due (s : Network) (f : Functor) :
    s.pending (some f) f = s.pending none f + 1 := by
  simp [pending]

theorem home_ne_plain {f g : Functor} (hf : f.plain = true) (hg : g.plain = false) : g ≠ f := by
  rintro rfl
  rw [hf] at hg
  cases hg

/-- Taking a functor out of its queue makes it due. -/
theorem pending_pop {s : Network} {l : LoopId} {f : Functor} {rest : List Functor}
    (h : s.functors l = f :: rest) (hl : l = s.home f) (g : Functor) :
    pending { s with functors := Function.update s.functors l rest } (some f) g =
      s.pending none g := by
  have hhome : home { s with functors := Function.update s.functors l rest } g = s.home g := by
    cases g <;> rfl
  unfold pending
  rw [hhome]
  by_cases hg : s.home g = l
  · simp [hg, h, List.count_cons]
  · have hne : f ≠ g := by
      rintro rfl
      exact hg hl.symm
    simp [Function.update_of_ne hg, hne]

/-- Putting the due functor into its queue. -/
theorem pending_queue {s : Network} {l : LoopId} {f : Functor} (hl : l = s.home f) (g : Functor) :
    (s.queueInLoop l f).pending none g = s.pending (some f) g := by
  have hhome : (s.queueInLoop l f).home g = s.home g := by cases g <;> rfl
  unfold pending
  rw [hhome]
  unfold queueInLoop
  by_cases hg : s.home g = l
  · simp [hg, List.count_append, List.count_singleton]
  · have hne : f ≠ g := by
      rintro rfl
      exact hg hl.symm
    simp [Function.update_of_ne hg, hne]

/-- Queues that differ in plain functors only. -/
theorem pending_congr {s t : Network} {due : Option Functor} {g : Functor}
    (hhome : t.home g = s.home g)
    (hcount : (t.functors (s.home g)).count g = (s.functors (s.home g)).count g) :
    t.pending due g = s.pending due g := by
  unfold pending
  rw [hhome, hcount]

/-! ### States with the same accounts -/

theorem Balanced.congr {s t : Network} {due due' : Option Functor} {c : ConnId}
    (h : s.Balanced due c) (htimes : ∀ life, t.times c life = s.times c life)
    (hpend : ∀ f, f.plain = false → f.conn = c → t.pending due' f = s.pending due f)
    (hheld : t.owner.Holds (t.conns c).name_ c ↔ s.owner.Holds (s.conns c).name_ c) :
    t.Balanced due' c where
  established := by rw [htimes, hpend _ rfl rfl]; exact h.established
  closed := by rw [htimes, htimes, hpend _ rfl rfl]; exact h.closed
  removed := by rw [htimes, htimes, hpend _ rfl rfl]; exact h.removed
  first := by rw [htimes, htimes]; exact h.first
  once := by rw [htimes]; exact h.once
  held := by rw [htimes, hheld]; exact h.held

theorem OwnerFacts.server {s : Network} {sv : TcpServer} (h : s.OwnerFacts)
    (ho : s.owner = .server sv) :
    sv.nextConnId_ = s.accepted + 1 ∧
      (∀ c < s.accepted, (s.conns c).name_ = sv.name_ ++ ("#" ++ toString (c + 1))) ∧
      (∀ name c, sv.connections_ name = some c → c < s.accepted ∧ (s.conns c).name_ = name) ∧
      sv.threadPool_.baseLoop_ = baseLoop ∧ ∀ l ∈ sv.threadPool_.loops_, l ∈ s.loops := by
  unfold OwnerFacts at h
  rw [ho] at h
  exact h

theorem OwnerFacts.client {s : Network} {cl : TcpClient} (h : s.OwnerFacts)
    (ho : s.owner = .client cl) :
    cl.nextConnId_ = s.accepted + 1 ∧
      (∀ c, cl.connection_ = some c → c < s.accepted ∧ cl.connector_.state_ = .kConnected) ∧
      (∀ l c, .removeConnectionInLoop c ∉ s.functors l) ∧
      ∀ c < s.accepted, (s.conns c).loop_ = baseLoop := by
  unfold OwnerFacts at h
  rw [ho] at h
  exact h

/-- What the ledger says about the owner depends on the names and loops of the connections. -/
theorem OwnerFacts.congr {s t : Network} (h : s.OwnerFacts) (howner : t.owner = s.owner)
    (hloops : t.loops = s.loops) (hacc : t.accepted = s.accepted)
    (hname : ∀ c, (t.conns c).name_ = (s.conns c).name_)
    (hloop : ∀ c, (t.conns c).loop_ = (s.conns c).loop_)
    (hfun : ∀ l c, .removeConnectionInLoop c ∈ t.functors l →
      .removeConnectionInLoop c ∈ s.functors l) : t.OwnerFacts := by
  unfold OwnerFacts at h ⊢
  rw [howner, hacc, hloops]
  cases ho : s.owner with
  | server sv =>
    rw [ho] at h
    simp only [hname]
    exact h
  | client cl =>
    rw [ho] at h
    simp only [hloop]
    exact ⟨h.1, h.2.1, fun l c hc => h.2.2.1 l c (hfun l c hc), h.2.2.2⟩
  | destroyed => trivial

/-- A step that changes nothing that the ledger is about. -/
theorem Ledger.congr {s t : Network} {due : Option Functor} (h : s.Ledger due)
    (howner : t.owner = s.owner) (hloops : t.loops = s.loops) (hacc : t.accepted = s.accepted)
    (hname : ∀ c, (t.conns c).name_ = (s.conns c).name_)
    (hloop : ∀ c, (t.conns c).loop_ = (s.conns c).loop_) (hfun : t.functors = s.functors)
    (hlog : t.log = s.log) : t.Ledger due := by
  have hhome : ∀ f, t.home f = s.home f := fun f => by cases f <;> simp only [home, hloop]
  have htimes : ∀ c life, t.times c life = s.times c life := fun c life => by
    rw [times, times, hlog]
  refine ⟨fun l f hf => ?_, fun c hc => ?_, fun c hc => ?_, ?_, ?_⟩
  · rw [hfun] at hf
    rw [hacc, hhome, htimes]
    exact h.placed l f hf
  · rw [hacc] at hc
    exact (h.balanced c hc).congr (htimes c)
      (fun f _ _ => pending_congr (hhome f) (by rw [hfun])) (by rw [howner, hname])
  · rw [hlog]
    exact h.fresh c (by rwa [hacc] at hc)
  · rw [hloops, hacc]
    simp only [hloop]
    exact h.loops
  · exact h.owner.congr howner hloops hacc hname hloop fun l c hc => by rwa [hfun] at hc

/-- Nothing has run for a connection that does not exist. -/
theorem Ledger.lt_accepted {s : Network} {due : Option Functor} (h : s.Ledger due) {c : ConnId}
    {life : Life} (hpos : 0 < s.times c life) : c < s.accepted := by
  by_contra hc
  rw [times, h.fresh c (Nat.not_lt.1 hc)] at hpos
  cases hpos

/-! ### Functors on their way -/

/-- A plain functor that is due does not count. -/
theorem Ledger.drop {s : Network} {f : Functor} (h : s.Ledger (some f)) (hf : f.plain = true) :
    s.Ledger none where
  placed := h.placed
  balanced := fun c hc => (h.balanced c hc).congr (fun _ => rfl)
    (fun _ hg _ => (pending_of_ne (home_ne_plain hf hg)).symm) Iff.rfl
  fresh := h.fresh
  loops := h.loops
  owner := h.owner

theorem mem_of_pop {s : Network} {l : LoopId} {f : Functor} {rest : List Functor}
    (h : s.functors l = f :: rest) {l' : LoopId} {g : Functor}
    (hg : g ∈ Function.update s.functors l rest l') : g ∈ s.functors l' := by
  by_cases hl : l' = l
  · subst hl
    rw [Function.update_self] at hg
    rw [h]
    exact List.mem_cons_of_mem _ hg
  · rwa [Function.update_of_ne hl] at hg

/-- A functor is taken out of its queue. -/
theorem Ledger.pop {s : Network} (h : s.Ledger none) {l : LoopId} {f : Functor}
    {rest : List Functor} (hq : s.functors l = f :: rest) :
    Ledger { s with functors := Function.update s.functors l rest } (some f) := by
  have hl : l = s.home f := (h.placed l f (by rw [hq]; exact List.mem_cons_self ..)).2.1
  have hhome : ∀ g, home { s with functors := Function.update s.functors l rest } g = s.home g :=
    fun g => by cases g <;> rfl
  refine ⟨fun l' g hg => ?_, fun c hc => ?_, h.fresh, h.loops, ?_⟩
  · rw [hhome]
    exact h.placed l' g (mem_of_pop hq hg)
  · exact (h.balanced c hc).congr (fun _ => rfl) (fun g _ _ => pending_pop hq hl g) Iff.rfl
  · exact h.owner.congr rfl rfl rfl (fun _ => rfl) (fun _ => rfl) fun _ _ hc => mem_of_pop hq hc

theorem mem_queueInLoop {s : Network} {l l' : LoopId} {f g : Functor} :
    g ∈ (s.queueInLoop l f).functors l' ↔ g ∈ s.functors l' ∨ (l' = l ∧ g = f) := by
  unfold queueInLoop
  by_cases hl : l' = l
  · subst hl
    simp
  · simp [hl]

theorem home_queueInLoop (s : Network) (l : LoopId) (f g : Functor) :
    (s.queueInLoop l f).home g = s.home g := by cases g <;> rfl

/-- The due functor is put into the queue of its loop. -/
theorem Ledger.queue {s : Network} {f : Functor} (h : s.Ledger (some f))
    (hc : f.conn < s.accepted) (howns : f.owns = some f.conn) {l : LoopId} (hl : l = s.home f)
    (hclient : ∀ cl, s.owner = .client cl → ∀ c, f ≠ .removeConnectionInLoop c) :
    (s.queueInLoop l f).Ledger none := by
  refine ⟨fun l' g hg => ?_, fun c hc => ?_, h.fresh, h.loops, ?_⟩
  · rw [home_queueInLoop]
    rcases mem_queueInLoop.1 hg with hg | ⟨rfl, rfl⟩
    · exact h.placed l' g hg
    · exact ⟨hc, hl, fun hn => by rw [howns] at hn; cases hn⟩
  · exact (h.balanced c hc).congr (fun _ => rfl) (fun g _ _ => pending_queue hl g) Iff.rfl
  · have hown := h.owner
    unfold OwnerFacts at hown ⊢
    cases ho : s.owner with
    | server sv =>
      rw [ho] at hown
      simp only [queueInLoop, ho]
      exact hown
    | client cl =>
      rw [ho] at hown
      simp only [queueInLoop, ho]
      refine ⟨hown.1, hown.2.1, fun l' c hm => ?_, hown.2.2.2⟩
      rcases mem_queueInLoop.1 hm with hm | ⟨-, hm⟩
      · exact hown.2.2.1 l' c hm
      · exact hclient cl ho c hm.symm
    | destroyed => simp only [queueInLoop, ho]

/-- A plain functor is put into the queue of its loop. -/
theorem Ledger.queue_plain {s : Network} {due : Option Functor} (h : s.Ledger due) {f : Functor}
    (hf : f.plain = true) (hc : f.conn < s.accepted)
    (hraw : f.owns = none → 0 < s.times f.conn .established) :
    (s.queueInLoop (s.conns f.conn).loop_ f).Ledger due := by
  have hl : (s.conns f.conn).loop_ = s.home f := by
    cases f <;> first | rfl | cases hf
  refine ⟨fun l' g hg => ?_, fun c hc => ?_, h.fresh, h.loops, ?_⟩
  · rw [home_queueInLoop]
    rcases mem_queueInLoop.1 hg with hg | ⟨rfl, rfl⟩
    · exact h.placed l' g hg
    · exact ⟨hc, hl, hraw⟩
  · refine (h.balanced c hc).congr (fun _ => rfl) (fun g hg _ => ?_) Iff.rfl
    refine pending_congr (home_queueInLoop s _ f g) ?_
    have hne := home_ne_plain hf hg
    by_cases hgl : s.home g = (s.conns f.conn).loop_
    · simp [queueInLoop, hgl, List.count_append, Ne.symm hne]
    · simp [queueInLoop, Function.update_of_ne hgl]
  · refine h.owner.congr rfl rfl rfl (fun _ => rfl) (fun _ => rfl) fun l' c hm => ?_
    rcases mem_queueInLoop.1 hm with hm | ⟨-, hm⟩
    · exact hm
    · rw [← hm] at hf
      cases hf

theorem Ledger.notified {s : Network} {due : Option Functor} (h : s.Ledger due) {c : ConnId}
    (hc : c < s.accepted) (n : ℕ) : (s.notified c n).Ledger due := by
  induction n generalizing s with
  | zero => rwa [notified_zero]
  | succ n ih =>
    rw [← notified_queue]
    exact ih (h.queue_plain (f := .writeCompleteCallback c) rfl hc fun hn => by cases hn) hc

/-! ### The functions of the life of a connection -/

theorem home_record (s : Network) (c : ConnId) (life : Life) (thread : LoopId) (f : Functor) :
    (s.record c life thread).home f = s.home f := by cases f <;> rfl

theorem pending_record (s : Network) (c : ConnId) (life : Life) (thread : LoopId)
    (due : Option Functor) (f : Functor) :
    (s.record c life thread).pending due f = s.pending due f :=
  pending_congr (home_record s c life thread f) rfl

/-- Recording a function leaves the accounts of the other connections alone. -/
theorem Balanced.record_other {s : Network} {due due' : Option Functor} {c c₀ : ConnId}
    (h : s.Balanced due c) (hne : c ≠ c₀) (life : Life) (thread : LoopId)
    (hdue : ∀ f, f.conn = c → s.pending due' f = s.pending due f) :
    (s.record c₀ life thread).Balanced due' c :=
  h.congr (fun life' => by simp [times_record, hne])
    (fun f _ hf => by rw [pending_record, hdue f hf]) Iff.rfl

/-- What recording a function for `c` requires of the ledger, besides the accounts of `c`. -/
theorem Ledger.record {s : Network} {due due' : Option Functor} {c : ConnId} (h : s.Ledger due)
    (hc : c < s.accepted) (life : Life) (thread : LoopId)
    (hbal : (s.record c life thread).Balanced due' c)
    (hdue : ∀ f, f.conn ≠ c → s.pending due' f = s.pending due f) :
    (s.record c life thread).Ledger due' := by
  refine ⟨fun l f hf => ?_, fun c' hc' => ?_, fun c' hc' => ?_, h.loops, ?_⟩
  · obtain ⟨h1, h2, h3⟩ := h.placed l f hf
    refine ⟨h1, by rw [home_record]; exact h2, fun hn => ?_⟩
    rw [times_record]
    exact Nat.lt_of_lt_of_le (h3 hn) (Nat.le_add_right _ _)
  · by_cases hcc : c' = c
    · rw [hcc]
      exact hbal
    · exact (h.balanced c' hc').record_other hcc life thread fun f hf =>
        hdue f (by rw [hf]; exact hcc)
  · have hcc : c' ≠ c := fun hcc => by rw [hcc] at hc'; exact absurd hc (Nat.not_lt.2 hc')
    exact (Function.update_of_ne hcc _ _).trans (h.fresh c' hc')
  · exact h.owner.congr rfl rfl rfl (fun _ => rfl) (fun _ => rfl) fun _ _ => id

theorem pending_of_conn_ne {s : Network} {f g : Functor} (h : f.conn ≠ g.conn) :
    s.pending (some g) f = s.pending none f :=
  pending_of_ne fun hfg => h (by rw [hfg])

/-- `connectEstablished` runs. -/
theorem Ledger.established {s : Network} {c : ConnId} (h : s.Ledger (some (.connectEstablished c)))
    (hc : c < s.accepted) (thread : LoopId) : (s.record c .established thread).Ledger none := by
  refine h.record hc .established thread ?_ fun f hf => (pending_of_conn_ne hf).symm
  obtain ⟨h1, h2, h3, h4, h5, h6⟩ := h.balanced c hc
  rw [pending_due] at h1
  rw [pending_of_ne (by rintro ⟨⟩)] at h2 h3
  constructor <;> simp only [times_record, pending_record, reduceCtorEq, and_false, and_self,
    if_false, if_true] <;> first | omega | exact h6

/-- `handleClose` calls the close callback of an established connection. -/
theorem Ledger.closed {s : Network} {c : ConnId} (h : s.Ledger none) (hc : c < s.accepted)
    (hest : 0 < s.times c .established) (thread : LoopId) :
    (s.record c .closed thread).Ledger (some (.removeConnectionInLoop c)) := by
  refine h.record hc .closed thread ?_ fun f hf => pending_of_conn_ne hf
  obtain ⟨h1, h2, h3, h4, h5, h6⟩ := h.balanced c hc
  have e1 := pending_due s (.removeConnectionInLoop c)
  have e2 : s.pending (some (.removeConnectionInLoop c)) (.connectEstablished c) =
    s.pending none (.connectEstablished c) := pending_of_ne (by rintro ⟨⟩)
  have e3 : s.pending (some (.removeConnectionInLoop c)) (.connectDestroyed c) =
    s.pending none (.connectDestroyed c) := pending_of_ne (by rintro ⟨⟩)
  constructor <;> simp only [times_record, pending_record, reduceCtorEq, and_false, and_self,
    if_false, if_true, e1, e2, e3] <;> first | omega | exact h6

/-- `connectDestroyed` runs. -/
theorem Ledger.destroyed {s : Network} {c : ConnId} (h : s.Ledger (some (.connectDestroyed c)))
    (hc : c < s.accepted) (thread : LoopId) : (s.record c .destroyed thread).Ledger none := by
  refine h.record hc .destroyed thread ?_ fun f hf => (pending_of_conn_ne hf).symm
  obtain ⟨h1, h2, h3, h4, h5, h6⟩ := h.balanced c hc
  rw [pending_due] at h3
  rw [pending_of_ne (by rintro ⟨⟩)] at h1 h2
  constructor <;> simp only [times_record, pending_record, reduceCtorEq, and_false, and_self,
    if_false, if_true] <;> first | omega | exact h6

/-- The owner gives a connection up and makes its `connectDestroyed` due. -/
theorem Ledger.removed {s : Network} {c : ConnId} (owner : Owner)
    (h : s.Ledger (some (.removeConnectionInLoop c))) (hc : c < s.accepted)
    (h0 : s.times c .removed = 0) (hgone : ¬ owner.Holds (s.conns c).name_ c)
    (helse : ∀ c' < s.accepted, c' ≠ c →
      (owner.Holds (s.conns c').name_ c' ↔ s.owner.Holds (s.conns c').name_ c'))
    (hfacts : (s.setOwner owner).OwnerFacts) (thread : LoopId) :
    ((s.setOwner owner).record c .removed thread).Ledger (some (.connectDestroyed c)) := by
  have hhome : ∀ f, (s.setOwner owner).home f = s.home f := fun f => by cases f <;> rfl
  refine ⟨fun l f hf => ?_, fun c' hc' => ?_, fun c' hc' => ?_, h.loops, ?_⟩
  · obtain ⟨h1, h2, h3⟩ := h.placed l f hf
    refine ⟨h1, by rw [home_record, hhome]; exact h2, fun hn => ?_⟩
    rw [times_record]
    exact Nat.lt_of_lt_of_le (h3 hn) (Nat.le_add_right _ _)
  · have hpend : ∀ due f, (s.setOwner owner).pending due f = s.pending due f :=
      fun due f => pending_congr (hhome f) rfl
    obtain ⟨h1, h2, h3, h4, h5, h6⟩ := h.balanced c' hc'
    by_cases hcc : c' = c
    · subst hcc
      have e2 : (s.setOwner owner).times c' = s.times c' := rfl
      rw [pending_of_ne (by rintro ⟨⟩)] at h1 h3
      rw [pending_due] at h2
      have e1 := pending_due s (.connectDestroyed c')
      have e3 : s.pending (some (.connectDestroyed c')) (.connectEstablished c') =
        s.pending none (.connectEstablished c') := pending_of_ne (by rintro ⟨⟩)
      have e4 : s.pending (some (.connectDestroyed c')) (.removeConnectionInLoop c') =
        s.pending none (.removeConnectionInLoop c') := pending_of_ne (by rintro ⟨⟩)
      constructor <;> simp only [times_record, pending_record, hpend, reduceCtorEq, and_false,
        and_self, if_false, if_true, e1, e2, e3, e4] <;>
        first | omega | exact iff_of_false hgone not_false
    · have hbal : (s.setOwner owner).Balanced (some (.removeConnectionInLoop c)) c' :=
        (h.balanced c' hc').congr (fun _ => rfl) (fun f _ _ => hpend _ f) (helse c' hc' hcc)
      refine hbal.record_other hcc .removed thread fun f hf => ?_
      have hf' : f.conn ≠ c := by rw [hf]; exact hcc
      rw [pending_of_conn_ne hf', pending_of_conn_ne hf']
  · have hcc : c' ≠ c := fun hcc => by
      rw [hcc] at hc'
      exact absurd hc (Nat.not_lt.2 hc')
    exact (Function.update_of_ne hcc _ _).trans (h.fresh c' hc')
  · exact hfacts.congr rfl rfl rfl (fun _ => rfl) (fun _ => rfl) fun _ _ => id

/-! ### The owner -/

/-- **No two connections of a server have the same name.** -/
theorem name_injective {s : Network} {sv : TcpServer} (h : s.OwnerFacts)
    (ho : s.owner = .server sv) {c c' : ConnId} (hc : c < s.accepted) (hc' : c' < s.accepted)
    (hname : (s.conns c).name_ = (s.conns c').name_) : c = c' := by
  obtain ⟨-, hnames, -⟩ := h.server ho
  rw [hnames c hc, hnames c' hc', String.append_right_inj, String.append_right_inj] at hname
  have hrepr : (c + 1).repr = (c' + 1).repr := hname
  exact Nat.succ.inj (Nat.repr_inj.1 hrepr)

/-- `removeConnectionInLoop` runs. -/
theorem removeConnectionInLoop_ledger {s t : Network} {thread : LoopId} {c : ConnId}
    (h : s.Ledger (some (.removeConnectionInLoop c))) (hc : c < s.accepted)
    (hs : s.removeConnectionInLoop thread c = .ok t) : t.Ledger none := by
  obtain ⟨sv, ho, -, hone, rfl⟩ := removeConnectionInLoop_ok hs
  have hfacts := h.owner.server ho
  -- the entry under the name of `c` is the entry of `c`
  have hsome : (sv.connections_ (s.conns c).name_).isSome = true := by
    by_contra hn
    rw [TcpServer.erase, if_neg hn] at hone
    cases hone
  obtain ⟨c₀, hc₀⟩ := Option.isSome_iff_exists.1 hsome
  obtain ⟨hlt, hname⟩ := hfacts.2.2.1 _ _ hc₀
  obtain rfl := name_injective h.owner ho hlt hc hname
  have h0 : s.times c₀ .removed = 0 := (h.balanced c₀ hc).held.1 (by rw [ho]; exact hc₀)
  have hrem := Ledger.removed (.server (sv.erase (s.conns c₀).name_).2) h hc h0
    (by simp [Owner.Holds, TcpServer.erase]) (fun c' hc' hne => ?_) ?_ thread
  · exact hrem.queue hc rfl rfl (by rintro cl ⟨⟩)
  · have hname' : (s.conns c').name_ ≠ (s.conns c₀).name_ := fun he =>
      hne (name_injective h.owner ho hc' hc he)
    rw [ho]
    simp only [Owner.Holds, TcpServer.erase, Function.update_of_ne hname']
  · refine ⟨hfacts.1, hfacts.2.1, fun name c' he => ?_, hfacts.2.2.2⟩
    have hne : name ≠ (s.conns c₀).name_ := by
      rintro rfl
      simp [TcpServer.erase] at he
    have he' : sv.connections_ name = some c' := by
      rwa [← Function.update_of_ne hne none sv.connections_]
    exact hfacts.2.2.1 name c' he'

/-- The close callback keeps the books of an established connection. -/
theorem removeConnection_ledger {s t : Network} {thread : LoopId} {c : ConnId} {r : ConnectResult}
    (h : s.Ledger (some (.removeConnectionInLoop c))) (hc : c < s.accepted)
    (hs : s.removeConnection thread c r = .ok t) : t.Ledger none := by
  cases removeConnection_cases hs with
  | now hs => exact removeConnectionInLoop_ledger h hc hs
  | later ho => exact h.queue hc rfl rfl (by rw [ho]; rintro cl ⟨⟩)
  | @client cl ho hth hloop hown k =>
    have hfacts := h.owner.client ho
    have h0 : s.times c .removed = 0 := (h.balanced c hc).held.1 (by rw [ho]; exact hown)
    -- whatever the connector does next, the client holds no connection
    have hrem := Ledger.removed (.client { cl with connection_ := none, connector_ := k }) h
      hc h0 (by simp [Owner.Holds]) (fun c' _ hne => ?_) ?_ thread
    · exact hrem.queue hc rfl hloop (by rintro _ _ _ ⟨⟩)
    · rw [ho]
      simp [Owner.Holds, hown, Ne.symm hne]
    · refine ⟨hfacts.1, fun c' he => ?_, hfacts.2.2⟩
      cases he

/-- A connection is created and its `connectEstablished` is due. -/
theorem Ledger.create {s : Network} (h : s.Ledger none) {conn : TcpConnection} {owner : Owner}
    (hloop : conn.loop_ ∈ s.loops) (hheld : owner.Holds conn.name_ s.accepted)
    (helse : ∀ c < s.accepted,
      (owner.Holds (s.conns c).name_ c ↔ s.owner.Holds (s.conns c).name_ c))
    (hfacts : (s.create conn owner).OwnerFacts) :
    (s.create conn owner).Ledger (some (.connectEstablished s.accepted)) := by
  have hconn : ∀ c < s.accepted, (s.create conn owner).conns c = s.conns c := fun _ =>
    create_old s conn owner
  have hnew := create_new s conn owner
  have hhome : ∀ f : Functor, f.conn < s.accepted → (s.create conn owner).home f = s.home f := by
    intro f hf
    cases f <;> simp only [home, hconn _ hf]
  have hnone : ∀ f : Functor, f.conn = s.accepted → (s.create conn owner).pending none f = 0 := by
    intro f hf
    have hcount : List.count f (s.functors ((s.create conn owner).home f)) = 0 := by
      rw [List.count_eq_zero]
      intro hm
      exact absurd hf (Nat.ne_of_lt (h.placed _ f hm).1)
    unfold pending
    show List.count f (s.functors ((s.create conn owner).home f)) + 0 = 0
    rw [hcount]
  refine ⟨fun l f hf => ?_, fun c hc => ?_, fun c hc => ?_, ⟨h.loops.1, fun c hc => ?_⟩, hfacts⟩
  · obtain ⟨h1, h2, h3⟩ := h.placed l f hf
    exact ⟨Nat.lt_succ_of_lt h1, by rw [hhome f h1]; exact h2, h3⟩
  · rcases Nat.lt_succ_iff_lt_or_eq.1 hc with hc | rfl
    · refine (h.balanced c hc).congr (fun _ => rfl) (fun f _ hf => ?_) ?_
      · rw [pending_of_conn_ne (by rw [hf]; exact Nat.ne_of_lt hc)]
        exact pending_congr (hhome f (by rw [hf]; exact hc)) rfl
      · rw [hconn c hc]
        exact helse c hc
    · have htimes : ∀ life, (s.create conn owner).times s.accepted life = 0 := fun life => by
        show List.countP _ (s.log s.accepted) = 0
        rw [h.fresh s.accepted le_rfl]
        rfl
      have e1 := pending_due (s.create conn owner) (.connectEstablished s.accepted)
      rw [hnone _ rfl] at e1
      have e2 : (s.create conn owner).pending (some (.connectEstablished s.accepted))
          (.removeConnectionInLoop s.accepted) = 0 :=
        (pending_of_ne (by rintro ⟨⟩)).trans (hnone _ rfl)
      have e3 : (s.create conn owner).pending (some (.connectEstablished s.accepted))
          (.connectDestroyed s.accepted) = 0 :=
        (pending_of_ne (by rintro ⟨⟩)).trans (hnone _ rfl)
      constructor <;> simp only [htimes, e1, e2, e3, hnew]
      · exact fun hlt => absurd hlt (lt_irrefl 0)
      · exact Nat.zero_le 1
      · exact iff_of_true hheld trivial
  · exact h.fresh c (Nat.le_of_succ_le hc)
  · rcases Nat.lt_succ_iff_lt_or_eq.1 hc with hc | rfl
    · rw [hconn c hc]
      exact h.loops.2 c hc
    · rw [hnew]
      exact hloop

/-- The owner changes, but not what it holds. -/
theorem Ledger.setOwner {s : Network} {due : Option Functor} (h : s.Ledger due) {owner : Owner}
    (hheld : ∀ c < s.accepted,
      (owner.Holds (s.conns c).name_ c ↔ s.owner.Holds (s.conns c).name_ c))
    (hfacts : (s.setOwner owner).OwnerFacts) : (s.setOwner owner).Ledger due := by
  have hhome : ∀ f, (s.setOwner owner).home f = s.home f := fun f => by cases f <;> rfl
  refine ⟨fun l f hf => ?_, fun c hc => ?_, h.fresh, h.loops, hfacts⟩
  · rw [hhome]
    exact h.placed l f hf
  · exact (h.balanced c hc).congr (fun _ => rfl) (fun f _ _ => pending_congr (hhome f) rfl)
      (hheld c hc)

end Network

end Fppnet
