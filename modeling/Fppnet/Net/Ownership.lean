import Fppnet.Net.Soundness

/-!
# Registered channels and the owners of their connections

`registered_owned`: a registered channel belongs to a connection that has an owner, in every run in
which the server is destroyed only when it holds no connection and no `sendInLoop` leaves bytes
behind on a destroyed connection. It fails without either condition:

* the destructor of `TcpServer` is empty, and `connections_` takes the connections along while their
  channels stay in the pollers (`destroyServer_unowned`);
* `send` queues `this`, and when its functor runs after `connectDestroyed` and cannot write the
  whole message, `enableWriting` registers the channel once more (`sendInLoop_unowned`).
-/

namespace Fppnet

open Checked Runs TcpConnection

namespace Network

/-- The channel of a connection is registered in some poller. -/
def Registered (s : Network) (c : ConnId) : Prop :=
  ∃ l fd, (s.pollers l).channels_ fd = some c

/-- A connection that is up has an owner. -/
theorem Sound.owned {s : Network} (h : s.Sound) {c : ConnId} (hc : c < s.accepted)
    (hup : s.Up c) : s.Owned c := by
  by_contra hown
  exact absurd hup.2 (Nat.ne_of_gt (h.ledger.destroyed_of_unowned hc hown))

/-- **A registered channel has a live owner**, in every run in which the server is destroyed only
when it holds no connection and no bytes are left behind on a destroyed connection. -/
theorem registered_owned {name : String} {loops : List LoopId} {s : Network}
    (h : Reach (Moves step) (fun s l => s.Keeps l ∧ s.NoRearm l) (ofServer name loops) s)
    {c : ConnId} (hreg : s.Registered c) : s.freed c = false ∧ s.Owned c := by
  have hsound : s.Sound := h.invariant (ofServer_sound name loops)
    fun x a y hx hc hr => step_sound hx hc.1 hc.2 hr
  obtain ⟨l, fd, hm⟩ := hreg
  obtain ⟨hc, -, -, hup⟩ := hsound.wired.mapped l fd c hm
  exact ⟨hsound.wired.not_freed hup, hsound.owned hc hup⟩

/-! A server that accepts one connection on its base loop. -/

/-- The connection has been established. -/
def oneConnection : Network := next step (ofServer "0.0.0.0:2000" []) (.newConnection 5 false)

theorem registered_owned_one : oneConnection.freed 0 = false ∧ oneConnection.Owned 0 := by
  have hmove : Moves step (ofServer "0.0.0.0:2000" []) (.newConnection 5 false) oneConnection :=
    moves_next (by decide +kernel)
  have hrun : Reach (Moves step) (fun s l => s.Keeps l ∧ s.NoRearm l)
      (ofServer "0.0.0.0:2000" []) oneConnection := .single (by decide +kernel) hmove
  exact registered_owned hrun ⟨baseLoop, 5, by decide +kernel⟩

/-- The server is destroyed with its connection open: the channel stays registered, and nobody owns
the connection. -/
theorem destroyServer_unowned :
    ∃ s, Reach (Moves step) Always (ofServer "0.0.0.0:2000" []) s ∧ s.Registered 0 ∧
      ¬ s.Owned 0 := by
  obtain ⟨s, hs, hp⟩ := exists_reach_of_run step Always (ofServer "0.0.0.0:2000" [])
    [.newConnection 5 false, .destroyServer]
    (fun s => (s.pollers baseLoop).channels_ 5 = some 0 ∧ ¬ s.Owned 0) (by decide +kernel)
  obtain ⟨hreg, hown⟩ := of_decide_eq_true hp
  exact ⟨s, hs, ⟨baseLoop, 5, hreg⟩, hown⟩

/-- A `send` of another thread is overtaken by the end of its connection, which only the user holds
when the functor runs. -/
theorem sendInLoop_unowned :
    ∃ s, Reach (Moves step) Keeps (ofServer "0.0.0.0:2000" []) s ∧ s.Registered 0 ∧
      ¬ s.Owned 0 := by
  obtain ⟨s, hs, hp⟩ := exists_reach_of_run step Keeps (ofServer "0.0.0.0:2000" [])
    [.newConnection 5 false, .hold 0, .foreignSend 0 [7], .poll baseLoop [(0, POLLIN)],
      .handle baseLoop noAnswers, .functor baseLoop noAnswers, .proceed (.send 0 [7]),
      .functor baseLoop noAnswers, .drop 0]
    (fun s => (s.pollers baseLoop).channels_ 5 = some 0 ∧ ¬ s.Owned 0) (by decide +kernel)
  obtain ⟨hreg, hown⟩ := of_decide_eq_true hp
  exact ⟨s, hs, ⟨baseLoop, 5, hreg⟩, hown⟩

end Network

end Fppnet
