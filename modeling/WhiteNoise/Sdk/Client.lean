import WhiteNoise.Process.Pool
import WhiteNoise.Network.Session
import Mathlib.Data.List.Nodup

/-! # The announcement of new circuits

A client looks through its circuits every 50 ms. It keeps the last one that was
not announced, in the order in which the map is iterated, and announces it if
its handshake is finished.
-/

namespace WhiteNoise.NewSession

open Process

/-- The loop over the circuits. The map stands in the order of its iteration, `existSession` are
the keys of the announced sessions, and `looks` says that the loop has found circuits and looks at
them next. -/
structure Rounds where
  circuitMap : List (String × CircuitConn) := []
  existSession : List String := []
  looks : Bool := false
  deriving DecidableEq

/-- What `for_each` leaves in the variables. -/
def pick (existSession : List String) (circuitMap : List (String × CircuitConn)) :
    Option (String × CircuitConn) :=
  circuitMap.foldl (fun picked x => if x.1 ∈ existSession then picked else some x) none

/-- The announcement of a picked circuit: the announced sessions and what goes to the client. -/
def announce (existSession : List String) :
    Option (String × CircuitConn) → List String × List String
  | none => (existSession, [])
  | some (sessionId, cc) =>
    if cc.transportState.isSome then (sessionId :: existSession, [sessionId])
    else (existSession, [])

inductive Event where
  /-- other tasks insert and remove, and the order changes -/
  | change (circuitMap : List (String × CircuitConn))
  | turn

/-- One event, with the sessions that are announced. -/
def step (s : Rounds) : Event → Option (Rounds × List String)
  | .change circuitMap =>
    if (circuitMap.map Prod.fst).Nodup then some ({ s with circuitMap }, []) else none
  | .turn =>
    if s.looks then
      let announced := announce s.existSession (pick s.existSession s.circuitMap)
      some ({ s with existSession := announced.1, looks := false }, announced.2)
    else some ({ s with looks := 0 < s.circuitMap.length }, [])

variable {circuitMap : List (String × CircuitConn)} {existSession : List String}
  {x : String × CircuitConn} {s s' : Rounds} {es : List Event} {e : Event} {o os : List String}

/-- The map is searched from its end. -/
theorem pick_eq : pick existSession circuitMap =
    circuitMap.reverse.find? fun x => x.1 ∉ existSession := by
  induction circuitMap using List.reverseRecOn with
  | nil => rfl
  | append_singleton l y ih =>
    rw [pick, List.foldl_append, ← pick, ih, List.reverse_concat, List.find?_cons]
    by_cases hy : y.1 ∈ existSession <;> simp [hy]

/-- The last circuit that was not announced. -/
theorem pick_eq_some_iff : pick existSession circuitMap = some x ↔
    ∃ pre post, circuitMap = pre ++ x :: post ∧ x.1 ∉ existSession ∧
      ∀ y ∈ post, y.1 ∈ existSession := by
  rw [pick_eq, List.find?_eq_some_iff_append]
  constructor
  · rintro ⟨hx, post, pre, heq, hpost⟩
    refine ⟨pre.reverse, post.reverse, ?_, by simpa using hx, fun y hy => ?_⟩
    · rw [← List.reverse_reverse circuitMap, heq]
      simp
    · simpa using hpost y (List.mem_reverse.mp hy)
  · rintro ⟨pre, post, rfl, hx, hpost⟩
    refine ⟨by simpa using hx, post.reverse, pre.reverse, by simp, fun y hy => ?_⟩
    simpa using hpost y (List.mem_reverse.mp hy)

/-- A circuit that is there to be announced. -/
def Due (existSession : List String) (x : String × CircuitConn) : Prop :=
  x.1 ∉ existSession ∧ x.2.transportState.isSome

/-- One round over the map announces one session, which was there to be announced. -/
def AnnouncesOne (existSession : List String) (circuitMap : List (String × CircuitConn)) : Prop :=
  ∃ t x, run step ⟨circuitMap, existSession, false⟩ [.turn, .turn] = some (t, [x.1]) ∧
    x ∈ circuitMap ∧ Due existSession x

/-- The last circuit of the map that was not announced has finished its handshake. -/
def LastFinished (existSession : List String) (circuitMap : List (String × CircuitConn)) : Prop :=
  ∃ pre x post, circuitMap = pre ++ x :: post ∧ Due existSession x ∧
    ∀ y ∈ post, y.1 ∈ existSession

/-- A round over circuits. -/
theorem run_round (h : circuitMap ≠ []) :
    run step ⟨circuitMap, existSession, false⟩ [.turn, .turn] = some
      (⟨circuitMap, (announce existSession (pick existSession circuitMap)).1, false⟩,
        (announce existSession (pick existSession circuitMap)).2) := by
  have hlen : 0 < circuitMap.length := List.length_pos_iff.mpr h
  simp [run, step, hlen]

theorem announcesOne_iff (h : ∃ x ∈ circuitMap, Due existSession x) :
    AnnouncesOne existSession circuitMap ↔ LastFinished existSession circuitMap := by
  obtain ⟨y, hy, -⟩ := h
  have hround : run step ⟨circuitMap, existSession, false⟩ [.turn, .turn] = _ :=
    run_round (List.ne_nil_of_mem hy)
  constructor
  · rintro ⟨t, x, hr, -, -⟩
    rw [hround] at hr
    have hsent := congrArg Prod.snd (Option.some.inj hr)
    cases hpick : pick existSession circuitMap with
    | none => simp [hpick, announce] at hsent
    | some z =>
      obtain ⟨pre, post, heq, hz, hpost⟩ := pick_eq_some_iff.mp hpick
      cases hfinished : z.2.transportState.isSome with
      | false => simp [hpick, announce, hfinished] at hsent
      | true => exact ⟨pre, z, post, heq, ⟨hz, hfinished⟩, hpost⟩
  · rintro ⟨pre, x, post, heq, hdue, hpost⟩
    have hpick : pick existSession circuitMap = some x :=
      pick_eq_some_iff.mpr ⟨pre, post, heq, hdue.1, hpost⟩
    rw [hpick, announce, if_pos hdue.2] at hround
    exact ⟨_, x, hround, heq ▸ List.mem_append_right pre List.mem_cons_self, hdue⟩

/-- What has been announced is among the announced sessions, and was announced once. -/
structure Once (s : Rounds) (os : List String) : Prop where
  nodup : os.Nodup
  known : ∀ id ∈ os, id ∈ s.existSession

theorem Once.step (h : Once s os) (hs : step s e = some (s', o)) : Once s' (os ++ o) := by
  cases e with
  | change l =>
    simp only [NewSession.step] at hs
    split at hs
    · cases hs
      rw [List.append_nil]
      exact ⟨h.nodup, h.known⟩
    · cases hs
  | turn =>
    simp only [NewSession.step] at hs
    split at hs
    · cases hs
      cases hpick : pick s.existSession s.circuitMap with
      | none =>
        simp only [announce, List.append_nil]
        exact ⟨h.nodup, h.known⟩
      | some x =>
        obtain ⟨-, -, -, hx, -⟩ := pick_eq_some_iff.mp hpick
        simp only [announce]
        split
        · constructor
          · refine List.nodup_append.mpr ⟨h.nodup, List.nodup_singleton _, ?_⟩
            rintro id hid _ hmem rfl
            exact hx (List.mem_singleton.mp hmem ▸ h.known id hid)
          · intro id hid
            rcases List.mem_append.mp hid with hid | hid
            · exact List.mem_cons_of_mem _ (h.known id hid)
            · exact List.mem_singleton.mp hid ▸ List.mem_cons_self
        · rw [List.append_nil]
          exact ⟨h.nodup, h.known⟩
    · cases hs
      rw [List.append_nil]
      exact ⟨h.nodup, h.known⟩

theorem once_run (h : run step {} es = some (s, os)) : Once s os := by
  refine run_induction (P := fun _ t os => Once t os) ⟨List.nodup_nil, by simp⟩ ?_ h
  intro es t os e t' o hi hs
  exact hi.step hs

/-- A round over circuits of which one is there to be announced announces one exactly when the last
one that was not announced is finished; and no session is announced twice in any run. -/
theorem new_session_announced (hdue : ∃ x ∈ circuitMap, Due existSession x)
    (h : run step {} es = some (s, os)) :
    (AnnouncesOne existSession circuitMap ↔ LastFinished existSession circuitMap) ∧ os.Nodup :=
  ⟨announcesOne_iff hdue, (once_run h).nodup⟩

namespace Sample

def conn (id : String) (transportState : Option ℕ) : String × CircuitConn :=
  (id, ⟨id, ⟨⟨"proxy"⟩, 0⟩, 0, transportState⟩)

/-- One circuit with a finished handshake, and one behind it that waits for its handshake. -/
def circuits : List (String × CircuitConn) := [conn "finished" (some 0), conn "pending" none]

end Sample

/-- Both circuits are there for two rounds, the finished one behind the other. -/
theorem new_session_announced_circuits :
    (AnnouncesOne [] Sample.circuits ↔ LastFinished [] Sample.circuits) ∧ ["finished"].Nodup := by
  have hr : ∃ s, run step {} [.change Sample.circuits.reverse, .turn, .turn, .turn, .turn] =
      some (s, ["finished"]) := ⟨_, rfl⟩
  obtain ⟨s, hr⟩ := hr
  exact new_session_announced ⟨Sample.conn "finished" (some 0), by decide, by decide, rfl⟩ hr

/-- The pending circuit hides the finished one. -/
theorem not_announced_behind : (Sample.circuits.map Prod.fst).Nodup ∧
    (∃ x ∈ Sample.circuits, Due [] x) ∧ ¬ AnnouncesOne [] Sample.circuits := by
  refine ⟨by decide, ⟨Sample.conn "finished" (some 0), by decide, by decide, rfl⟩, ?_⟩
  rintro ⟨t, x, hr, -⟩
  cases hr

end WhiteNoise.NewSession
