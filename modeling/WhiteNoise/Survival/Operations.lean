import WhiteNoise.Network.System

/-! # Operations that survive anything

Writing a frame, closing a session and sending a frame both ways unwrap
nothing; a frame is forwarded without a failing unwrap in a session that is
ready.
-/

namespace WhiteNoise

open Wire Process

variable [Codec] [Crypto]

/-- A request that waits at most for a message or for an acknowledgement. -/
def Act.Served : Act → Prop
  | .read _ | .nextData _ => False
  | .randomBelow n => 0 < n
  | _ => True

variable {proviso : Proviso Shared Choice Act.Res} (hasks : ∀ a : Act, a.Served → proviso.Asks a)
  {node : Node} {w : WrappedStream} {sid : String}
  {relay : Relay}

include hasks

theorem survives_writeRelayArc :
    (nodeSemantics node).Survives proviso (fun _ => True) (writeRelayArc w relay) :=
  ⟨hasks _ (Nat.succ_pos _), fun _ _ _ _ _ => ⟨hasks _ trivial, fun _ _ _ _ _ => trivial⟩⟩

theorem survives_close :
    (nodeSemantics node).Survives proviso (fun _ => True) (Node.handleCloseSession sid) := by
  have htail : (nodeSemantics node).Survives proviso (fun _ => True) (do
      Async.removeCircuit sid
      Async.removeProbe sid) := fun _ _ _ _ _ _ => trivial
  obtain ⟨k, hk, hrest⟩ := Node.handleCloseSession_rest sid htail fun w p hp =>
    ⟨hasks _ trivial, fun _ _ _ _ _ => hp⟩
  rw [hk]
  intro s c _
  exact hrest s

theorem survives_sendRelayTwoway {session : Session} :
    (nodeSemantics node).Survives proviso (fun _ => True) (sendRelayTwoway session relay) := by
  have hspawn (t : Task) : (nodeSemantics node).Survives proviso (fun _ => True)
      (Async.spawn t) := Semantics.Survives.call (hasks (.spawn t) trivial)
  unfold sendRelayTwoway
  cases session.pairStream.earlyStream <;> cases session.pairStream.laterStream
  · trivial
  · exact hspawn _
  · exact (hspawn _).seq fun _ _ => trivial
  · exact (hspawn _).seq fun _ _ => hspawn _

/-- A session that is ready has both streams. -/
theorem survives_forwardRelay {session : Session} {id : ℕ} (h : session.ready) :
    (nodeSemantics node).Survives proviso (fun _ => True) (forwardRelay session id relay) := by
  obtain ⟨hearly, hlater⟩ := Bool.and_eq_true_iff.mp h
  obtain ⟨early, he⟩ := Option.isSome_iff_exists.mp hearly
  obtain ⟨later, hl⟩ := Option.isSome_iff_exists.mp hlater
  simp only [forwardRelay, he, hl, Prog.unwrap_some, Prog.ret_bind]
  split
  · exact (survives_writeRelayArc hasks).seq fun _ _ => trivial
  · split
    · exact (survives_writeRelayArc hasks).seq fun _ _ => trivial
    · trivial

end WhiteNoise
