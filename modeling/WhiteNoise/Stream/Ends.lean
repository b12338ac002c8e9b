import WhiteNoise.Stream.Order

/-! # The end of a stream

Each exit of `start_poll` sends one error on the incoming channel, and with it
wakes the reader. The write has no exit: where it fails, its unwrap ends the
task and nothing is sent.
-/

namespace WhiteNoise.Stream.StartPoll

open Wire Process

def isError : ReadResult → Bool
  | .error _ => true
  | .ok _ => false

/-- One error was sent, and the reader has got it or finds it in the channel. -/
def Reported (s : StartPoll) (os : List ReadResult) : Prop :=
  s.sent.countP isError = 1 ∧ ∃ err, .error err ∈ os ++ s.inbox

variable {R : Reader} {s s' : StartPoll} {e : Event} {es : List Event} {o os : List ReadResult}

/-- The errors sent so far and the writes that have failed, by the phase. -/
structure Ending (es : List Event) (s : StartPoll) : Prop where
  running : ¬ s.Over → s.sent.countP isError = 0 ∧ .written false ∉ es
  ended : s.phase = .ended → s.sent.countP isError = 1 ∧ .written false ∉ es
  panicked : s.phase = .panicked → s.sent.countP isError = 0 ∧ .written false ∈ es

/-- An event that leaves the phase and the errors, and is no failed write. -/
theorem Ending.same (h : Ending es s) (hphase : s'.phase = s.phase)
    (hsent : s'.sent.countP isError = s.sent.countP isError) (he : e ≠ .written false) :
    Ending (es ++ [e]) s' := by
  have hmem : Event.written false ∈ es ++ [e] ↔ Event.written false ∈ es := by
    simp [Ne.symm he]
  constructor
  · intro hover
    rw [hsent, hmem]
    exact h.running (by rwa [Over, ← hphase])
  · rw [hsent, hmem, hphase]
    exact h.ended
  · rw [hsent, hmem, hphase]
    exact h.panicked

/-- An event within the loop. -/
theorem Ending.on (h : Ending es s) (hover : ¬ s.Over) (hover' : ¬ s'.Over)
    (hsent : s'.sent = s.sent) (he : e ≠ .written false) : Ending (es ++ [e]) s' := by
  obtain ⟨hcount, hmem⟩ := h.running hover
  constructor
  · intro _
    rw [hsent]
    exact ⟨hcount, by simp [hmem, Ne.symm he]⟩
  · intro hphase
    exact absurd (Or.inl hphase) hover'
  · intro hphase
    exact absurd (Or.inr hphase) hover'

theorem Ending.step (h : Ending es s) (hs : step R s e = some (s', o)) :
    Ending (es ++ [e]) s' := by
  cases step_effect hs with
  | quiet hphase _ _ _ hsent _ hkind =>
    rcases hphase with hphase | ⟨hover, hover'⟩
    · exact h.same hphase (by rw [hsent]) hkind.1
    · exact h.on hover hover' hsent hkind.1
  | frame b hover hover' _ _ _ hsent => exact h.on hover hover' hsent (by simp)
  | ended err hover hphase' _ _ _ hsent he =>
    obtain ⟨hcount, hmem⟩ := h.running hover
    have hne : e ≠ .written false := by
      rintro rfl
      cases he
    constructor
    · intro hover'
      exact absurd (Or.inl hphase') hover'
    · intro _
      rw [hsent, List.countP_append, hcount]
      exact ⟨rfl, by simp [hmem, Ne.symm hne]⟩
    · intro hphase
      rw [hphase'] at hphase
      cases hphase
  | panicked hover hphase' _ _ _ hsent =>
    constructor
    · intro hover'
      exact absurd (Or.inr hphase') hover'
    · intro hphase
      rw [hphase'] at hphase
      cases hphase
    · intro _
      rw [hsent]
      exact ⟨(h.running hover).1, by simp⟩
  | delivered i b _ hphase _ _ _ hsent =>
    refine h.same hphase ?_ (by simp)
    rw [hsent, List.countP_append]
    rfl
  | read res hphase _ _ _ hsent => exact h.same hphase (by rw [hsent]) (by simp)

theorem ending_run (h : run (step R) {} es = some (s, os)) : Ending es s := by
  refine run_induction (P := fun es t _ => Ending es t) ?_ ?_ h
  · exact ⟨fun _ => ⟨rfl, by simp⟩, by simp, by simp⟩
  · intro es t os e t' o hi hs
    exact hi.step hs

/-- What was sent is at the reader. -/
theorem exists_error (h : run (step R) {} es = some (s, os)) (hcount : s.sent.countP isError = 1) :
    ∃ err, .error err ∈ os ++ s.inbox := by
  have hpos : 0 < s.sent.countP isError := by omega
  obtain ⟨res, hres, herr⟩ := List.countP_pos_iff.mp hpos
  rw [received_run h]
  cases res with
  | error err => exact ⟨err, hres⟩
  | ok b => cases herr

/-- A stream that is over has reported its end exactly when no write failed. -/
theorem reported_iff (h : run (step R) {} es = some (s, os)) (hover : s.Over) :
    Reported s os ↔ Event.written false ∉ es := by
  have hi := ending_run h
  rcases hover with hphase | hphase
  · obtain ⟨hcount, hmem⟩ := hi.ended hphase
    exact ⟨fun _ => hmem, fun _ => ⟨hcount, exists_error h hcount⟩⟩
  · obtain ⟨hcount, hmem⟩ := hi.panicked hphase
    constructor
    · rintro ⟨hone, -⟩
      rw [hcount] at hone
      cases hone
    · intro hnot
      exact absurd hmem hnot

namespace Sample

/-- A write, then the close of the other side. -/
def writes (ok : Bool) : List Event :=
  [.command (.data [1]), .poll false, .written ok, .finish]

def closes : List Event := writes true ++ [.poll true]

end Sample

theorem reported_closes : ∃ s os, run (step .lengthPrefixed) {} Sample.closes = some (s, os) ∧
    (Reported s os ↔ Event.written false ∉ Sample.closes) := by
  obtain ⟨s, os, hr, hs⟩ := exists_run (step .lengthPrefixed) {} Sample.closes
    (fun r => decide (r.1.phase = .ended)) (by decide)
  exact ⟨s, os, hr, reported_iff hr (Or.inl (of_decide_eq_true hs))⟩

/-- The write fails; the stream is over and has sent nothing. -/
theorem not_reported : ∃ s os,
    run (step .lengthPrefixed) {} (Sample.writes false) = some (s, os) ∧ s.Over ∧
    s.sent = [] ∧ ¬ Reported s os :=
  ⟨_, _, rfl, Or.inr rfl, rfl, fun h => absurd h.1 (by decide)⟩

end WhiteNoise.Stream.StartPoll
