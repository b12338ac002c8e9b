import WhiteNoise.Network.Ideal
import WhiteNoise.Network.System

/-! # The rendezvous of the probes at the sink

The sink confirms a circuit when it has seen a probe on each of its two
streams. The handler tests `probe_map`, reads it and inserts into it under
three separate locks, so the order of the turns of the two handlers decides
whether the second probe meets the first.
-/

namespace WhiteNoise.Rendezvous

open Wire Process

/-- The position of a handler in the pool. -/
def index (b : Bool) : ℕ := b.toNat

/-- One handler has inserted its probe, its third turn, before the other looks for one, its
second. -/
def Ordered (turns : List ℕ) : Prop :=
  ∃ pre, pre <+: turns ∧ ∃ b, 3 ≤ pre.count (index b) ∧ pre.count (index !b) ≤ 1

theorem ordered_concat {turns : List ℕ} {i : ℕ} :
    Ordered (turns ++ [i]) ↔ Ordered turns ∨
      ∃ b, 3 ≤ (turns ++ [i]).count (index b) ∧ (turns ++ [i]).count (index !b) ≤ 1 := by
  constructor
  · rintro ⟨pre, hp, b, h⟩
    rcases List.prefix_concat_iff.mp hp with rfl | hp
    · exact Or.inr ⟨b, h⟩
    · exact Or.inl ⟨pre, hp, b, h⟩
  · rintro (⟨pre, hp, h⟩ | ⟨b, h⟩)
    · exact ⟨pre, hp.trans (List.prefix_append _ _), h⟩
    · exact ⟨_, List.prefix_rfl, b, h⟩

section Handlers

variable [Codec] [Crypto]

/-- A sink node whose session holds two streams and which has no probe yet. -/
structure Sink where
  sid : String
  shared : Shared
  session : Session
  stream : Bool → WrappedStream
  stored : shared.sessionMap sid = some session
  role : session.sessionRole = SessionRole.sinkRole.toI32
  pair : session.pairStream = ⟨some (stream false), some (stream true)⟩
  distinct : stream false ≠ stream true
  noProbe : shared.probeMap sid = none

/-- A probe frame that carries the digest of the session identifier. -/
structure Signal (sid : String) where
  relay : Relay
  probe : ProbeSignal
  decoded : Codec.decode relay.data = some probe
  rand : probe.data = Crypto.sha256 (utf8 sid)

variable (S : Sink) (f : Bool → Signal S.sid)

def handler (b : Bool) : Thread := do
  handleRelayProbe S.sid (S.stream b) (f b).relay
  return none

/-- The two handlers, each with the probe of its stream. -/
def pool : NodePool := ⟨S.shared, [handler S f false, handler S f true]⟩

/-- Whether the output is a confirmation of the session on the stream. -/
def isSuccess (sid : String) (w : WrappedStream) : Output → Bool
  | .write w' b =>
    match (Codec.decode b : Option Relay) with
    | none => false
    | some relay =>
      w' = w ∧ relay.type = Relaytype.success.toI32 ∧
        (Codec.decode relay.data : Option CircuitSuccess) = some ⟨sid⟩
  | _ => false

/-- Each of the two streams got exactly one confirmation. -/
def Confirmed (outs : List Output) : Prop :=
  ∀ b, outs.countP (isSuccess S.sid (S.stream b)) = 1

/-! ## Where a handler is -/

/-- Between two operations of a handler. `stored` and `confirmed` are its two ends. -/
inductive Progress where
  | start | looked | missed | stored | hit | matched | halfway | confirmed
  deriving DecidableEq

namespace Progress

def turns : Progress → ℕ
  | start => 0
  | looked => 1
  | missed | hit => 2
  | stored | matched => 3
  | halfway => 4
  | confirmed => 5

/-- The confirmations a handler has spawned. -/
def spawned : Progress → List Bool
  | halfway => [false]
  | confirmed => [false, true]
  | _ => []

end Progress

/-- The stored value, and what each probe is compared with. -/
def rand : Bytes := Crypto.sha256 (utf8 S.sid)

/-- What is left to do after finding a probe. -/
def afterHit : Async Unit := do
  let existProbe ← Prog.unwrap (← Async.getProbe S.sid)
  if existProbe.rand = rand S then
    sendRelayTwoway S.session (newRelayCircuitSuccess S.sid)
  else
    Node.handleCloseSession S.sid

def confirm (b : Bool) : Task := .writeRelayArc (S.stream b) (newRelayCircuitSuccess S.sid)

/-- What is left to do. -/
def remaining (b : Bool) : Progress → Async Unit
  | .start => handleRelayProbe S.sid (S.stream b) (f b).relay
  | .looked => do
    if (← Async.getProbe S.sid).isSome then afterHit S
    else Async.insertProbe S.sid ⟨S.sid, rand S⟩
  | .missed => Async.insertProbe S.sid ⟨S.sid, rand S⟩
  | .hit => afterHit S
  | .matched => do
    Async.spawn (confirm S false)
    Async.spawn (confirm S true)
  | .halfway => Async.spawn (confirm S true)
  | .stored | .confirmed => pure ()

/-- What is left of a handler. -/
def rest (b : Bool) (q : Progress) : Thread := do
  remaining S f b q
  return none

/-- One turn of a handler: where it was and goes, what `probe_map` holds before and after, and
which confirmations it spawns. -/
inductive Moves : Progress → Option Probe → Progress → Option Probe → List Bool → Prop
  | look (o) : Moves .start o .looked o []
  | miss : Moves .looked none .missed none []
  | find (p) : Moves .looked (some p) .hit (some p) []
  | store (o) : Moves .missed o .stored (some ⟨S.sid, rand S⟩) []
  | meet (p) : Moves .hit (some p) .matched (some p) []
  | early (o) : Moves .matched o .halfway o [false]
  | later (o) : Moves .halfway o .confirmed o [true]

variable {S f}

omit [Codec] in
theorem Moves.turns {q q' : Progress} {o o' : Option Probe} {l : List Bool}
    (h : Moves S q o q' o' l) : q'.turns = q.turns + 1 := by
  cases h <;> rfl

omit [Codec] in
theorem Moves.spawned {q q' : Progress} {o o' : Option Probe} {l : List Bool}
    (h : Moves S q o q' o' l) : q'.spawned = q.spawned ++ l := by
  cases h <;> rfl

variable {node : Node}

theorem remaining_start (b : Bool) :
    ∃ k, remaining S f b .start = .atomic id k ∧
      ∀ s : Shared, s.sessionMap S.sid = some S.session → k s = remaining S f b .looked := by
  unfold remaining handleRelayProbe
  rw [(f b).decoded]
  simp only [Prog.unwrap_some, Prog.ret_bind, Async.getSession, Prog.read_bind]
  refine ⟨_, rfl, ?_⟩
  intro s hs
  simp only [hs, S.role, (f b).rand, if_pos, afterHit, rand]
  rfl

/-- One turn of a handler, in full. -/
theorem advance_rest {b : Bool} {q : Progress} {c : Choice} {s : Shared}
    {r : Reply Shared Task Output Thread} (hs : s.sessionMap S.sid = some S.session)
    (hp : ∀ p, s.probeMap S.sid = some p → p.rand = rand S)
    (hq : q = .hit → s.probeMap S.sid ≠ none)
    (h : (nodeSemantics node).advance c s (rest S f b q) = some r) :
    ∃ q' l, r.answer = rest S f b q' ∧ r.outputs = [] ∧ r.spawned = l.map (confirm S) ∧
      r.state.sessionMap = s.sessionMap ∧
      Moves S q (s.probeMap S.sid) q' (r.state.probeMap S.sid) l := by
  cases q with
  | start =>
    obtain ⟨k, hk, hn⟩ := remaining_start (S := S) (f := f) b
    rw [rest, hk] at h
    cases h
    exact ⟨.looked, [], by simp [hn s hs, rest], rfl, rfl, rfl, .look _⟩
  | looked =>
    cases h
    cases ho : s.probeMap S.sid with
    | none =>
      refine ⟨.missed, [], ?_, rfl, rfl, rfl, by simpa [ho] using .miss⟩
      simp [rest, remaining, ho]
    | some p =>
      refine ⟨.hit, [], ?_, rfl, rfl, rfl, by simpa [ho] using .find p⟩
      simp [rest, remaining, ho]
  | missed =>
    cases h
    refine ⟨.stored, [], rfl, rfl, rfl, rfl, ?_⟩
    simpa using Moves.store (s.probeMap S.sid)
  | stored => cases h
  | hit =>
    cases h
    cases ho : s.probeMap S.sid with
    | none => exact absurd ho (hq rfl)
    | some p =>
      refine ⟨.matched, [], ?_, rfl, rfl, rfl, by simpa [ho] using .meet p⟩
      have hr := hp p ho
      simp [ho, hr, sendRelayTwoway, S.pair, rest, remaining, confirm]
  | matched =>
    cases h
    exact ⟨.halfway, [false], rfl, rfl, rfl, rfl, .early _⟩
  | halfway =>
    cases h
    exact ⟨.confirmed, [true], rfl, rfl, rfl, rfl, .later _⟩
  | confirmed => cases h

/-! ## Where a spawned write is -/

/-- Between two operations of a spawned write. -/
inductive Writing where
  | fresh
  | padded (confusion : Bytes)
  | written
  deriving DecidableEq

/-- The confirmation as it is written. -/
def frame (S : Sink) (confusion : Bytes) : Relay :=
  let relay := { newRelayCircuitSuccess S.sid with confusion := confusion }
  { relay with id := fromBytesGetId (Codec.encode relay) }

/-- What is left of a spawned write. -/
def writer (node : Node) (S : Sink) (b : Bool) : Writing → Thread
  | .fresh => Task.body node (confirm S b)
  | .padded confusion => do
    Async.write (S.stream b) (Codec.encode (frame S confusion))
    return none
  | .written => return none

theorem isSuccess_frame (b b' : Bool) (confusion : Bytes) :
    isSuccess S.sid (S.stream b') (.write (S.stream b) (Codec.encode (frame S confusion))) =
      decide (b = b') := by
  have hb : S.stream b = S.stream b' ↔ b = b' := by
    have hd := S.distinct
    cases b <;> cases b' <;> simp [hd, hd.symm]
  simp [isSuccess, frame, newRelayCircuitSuccess, newRelay, hb]

/-- One turn of a spawned write, in full. -/
theorem advance_writer {b : Bool} {w : Writing} {c : Choice} {s : Shared}
    {r : Reply Shared Task Output Thread}
    (h : (nodeSemantics node).advance c s (writer node S b w) = some r) :
    ∃ w', r.answer = writer node S b w' ∧ r.state = s ∧ r.spawned = [] ∧ w ≠ .written ∧
      (w' ≠ .written ∧ r.outputs = [] ∨
        w' = .written ∧ ∃ confusion,
          r.outputs = [.write (S.stream b) (Codec.encode (frame S confusion))]) := by
  cases w with
  | fresh =>
    have hw : writer node S b .fresh =
        .act (.randomBelow (confusionBound (newRelayCircuitSuccess S.sid)))
          fun confusion => writer node S b (.padded confusion) := rfl
    rw [hw] at h
    obtain ⟨confusion, rfl⟩ := advance_randomBelow h
    exact ⟨.padded confusion, rfl, rfl, rfl, by simp, Or.inl ⟨by simp, rfl⟩⟩
  | padded confusion =>
    cases h
    exact ⟨.written, rfl, rfl, rfl, by simp, Or.inr ⟨rfl, confusion, rfl⟩⟩
  | written => cases h

/-! ## Where the pool is -/

def threads (node : Node) (S : Sink) (f : Bool → Signal S.sid) (st : Bool → Progress)
    (ws : List (Bool × Writing)) : List Thread :=
  rest S f false (st false) :: rest S f true (st true) :: ws.map fun w => writer node S w.1 w.2

/-- How far the rendezvous is: no probe is stored, both handlers missed, or handler `b` stored
its probe before the other looked for one. -/
inductive Phase (S : Sink) (turns : List ℕ) (st : Bool → Progress)
    (ws : List (Bool × Writing)) : Option Probe → Prop
  | apart (hst : ∀ b, st b ∈ [.start, .looked, .missed]) (hws : ws = []) : Phase S turns st ws none
  | passed (b : Bool) (hb : st b = .stored) (hst : ∀ b, st b ∈ [.missed, .stored]) (hws : ws = [])
      (ho : ¬ Ordered turns) : Phase S turns st ws (some ⟨S.sid, rand S⟩)
  | met (b : Bool) (hb : st b = .stored) (hst : st (!b) ∉ [.missed, .stored])
      (hws : ws.map Prod.fst = (st !b).spawned) (ho : Ordered turns) :
      Phase S turns st ws (some ⟨S.sid, rand S⟩)

structure Stage (node : Node) (S : Sink) (f : Bool → Signal S.sid) (turns : List ℕ) (p : NodePool)
    (outs : List Output) (st : Bool → Progress) (ws : List (Bool × Writing)) : Prop where
  threads : p.threads = threads node S f st ws
  session : p.state.sessionMap S.sid = some S.session
  count : ∀ b, turns.count (index b) = (st b).turns
  outputs : ∀ b, outs.countP (isSuccess S.sid (S.stream b)) = ws.count (b, .written)
  phase : Phase S turns st ws (p.state.probeMap S.sid)

variable {turns : List ℕ} {st : Bool → Progress} {ws : List (Bool × Writing)} {p p' : NodePool}
  {outs o : List Output} {c : Choice} {i : ℕ}

omit [Codec] in
theorem Phase.rand {ov : Option Probe} (h : Phase S turns st ws ov) :
    ∀ q, ov = some q → q.rand = Rendezvous.rand S := by
  intro q hq
  cases h with
  | apart => cases hq
  | passed => cases hq; rfl
  | met => cases hq; rfl

theorem threads_index (b : Bool) :
    (Rendezvous.threads node S f st ws)[index b]? = some (rest S f b (st b)) := by
  cases b <;> rfl

theorem threads_writer (j : ℕ) :
    (Rendezvous.threads node S f st ws)[j + 2]? =
      (ws[j]?).map fun w => writer node S w.1 w.2 := by
  simp [Rendezvous.threads]

theorem threads_set_index (b : Bool) (q : Progress) (l : List Bool) :
    (Rendezvous.threads node S f st ws).set (index b) (rest S f b q) ++
        (l.map (confirm S)).map (Task.body node) =
      Rendezvous.threads node S f (Function.update st b q) (ws ++ l.map fun b => (b, .fresh)) := by
  cases b <;> simp [Rendezvous.threads, index, writer, Function.comp_def]

theorem threads_set_writer (j : ℕ) (b : Bool) (w : Writing) :
    (Rendezvous.threads node S f st ws).set (j + 2) (writer node S b w) =
      Rendezvous.threads node S f st (ws.set j (b, w)) := by
  simp [Rendezvous.threads, List.map_set]

omit [Codec] [Crypto] in
theorem count_concat {b : Bool} {q : Progress} (hc : ∀ b, turns.count (index b) = (st b).turns)
    (hq : q.turns = (st b).turns + 1) (b' : Bool) :
    (turns ++ [index b]).count (index b') = (Function.update st b q b').turns := by
  have hb := hc b'
  cases b <;> cases b' <;> simp_all [index, Function.update]

omit [Codec] [Crypto] in
/-- Before either insert, nothing is ordered. -/
theorem not_ordered (h : ∀ b, turns.count (index b) ≤ 2) : ¬ Ordered turns := by
  rintro ⟨pre, hp, b, h3, -⟩
  have hle := hp.sublist.count_le (index b)
  have hb := h b
  omega

omit [Codec] [Crypto] in
theorem ordered_of_concat (h : Ordered turns) (i : ℕ) : Ordered (turns ++ [i]) :=
  ordered_concat.mpr (Or.inl h)

omit [Codec] in
/-- One turn of a handler keeps the phase. -/
theorem Phase.move {b : Bool} {q : Progress} {ov ov' : Option Probe} {l : List Bool}
    (h : Phase S turns st ws ov) (hc : ∀ b, turns.count (index b) = (st b).turns)
    (hm : Moves S (st b) ov q ov' l) :
    Phase S (turns ++ [index b]) (Function.update st b q)
      (ws ++ l.map fun b => (b, .fresh)) ov' := by
  have hcount := count_concat hc hm.turns
  have hother : Function.update st b q (!b) = st (!b) :=
    Function.update_of_ne (by cases b <;> decide) _ _
  cases h with
  | apart hst hws =>
    have hb := hst b
    have hn := hst (!b)
    subst hws
    generalize hq : st b = q₀ at hm hb
    cases hm with
    | look | miss =>
      refine .apart ?_ rfl
      exact (Function.forall_update_iff st _).mpr ⟨by simp, fun b' _ => hst b'⟩
    | early | later => simp at hb
    | store =>
      simp only [List.mem_cons, List.not_mem_nil, or_false] at hn
      have h3 : (turns ++ [index b]).count (index b) = 3 := by
        rw [hcount, Function.update_self]
        rfl
      have h2 : (turns ++ [index b]).count (index !b) = (st !b).turns := by rw [hcount, hother]
      rcases hn with hn | hn | hn
      · refine .met b (by simp) (by simp [hn]) (by simp [hn, Progress.spawned]) ?_
        exact ⟨_, List.prefix_rfl, b, Nat.le_of_eq h3.symm, by rw [h2, hn]; decide⟩
      · refine .met b (by simp) (by simp [hn]) (by simp [hn, Progress.spawned]) ?_
        exact ⟨_, List.prefix_rfl, b, Nat.le_of_eq h3.symm, by rw [h2, hn]; decide⟩
      · refine .passed b (by simp) ?_ rfl ?_
        · refine (Function.forall_update_iff st _).mpr ⟨by simp, fun b' hne => ?_⟩
          rw [Bool.eq_not_of_ne hne, hn]
          simp
        · rw [ordered_concat]
          rintro (ho | ⟨b', h3', h1⟩)
          · refine not_ordered ?_ ho
            intro b'
            rw [hc]
            have := hst b'
            simp only [List.mem_cons, List.not_mem_nil, or_false] at this
            rcases this with h | h | h <;> rw [h] <;> decide
          · rcases eq_or_ne b' b with rfl | hne
            · rw [h2, hn] at h1
              exact absurd h1 (by decide)
            · rw [Bool.eq_not_of_ne hne, h2, hn] at h3'
              exact absurd h3' (by decide)
  | passed b₀ hb₀ hst hws ho =>
    have hb := hst b
    subst hws
    generalize hq : st b = q₀ at hm hb
    cases hm with
    | look | find | meet | early | later => simp at hb
    | store =>
      have hst' : ∀ b', Function.update st b .stored b' ∈ [.missed, .stored] :=
        (Function.forall_update_iff st _).mpr ⟨by simp, fun b' _ => hst b'⟩
      refine .passed b (by simp) hst' rfl ?_
      rw [ordered_concat]
      rintro (h | ⟨b', -, h1⟩)
      · exact ho h
      · rw [hcount] at h1
        have := hst' (!b')
        simp only [List.mem_cons, List.not_mem_nil, or_false] at this
        rcases this with h | h <;> rw [h] at h1 <;> exact absurd h1 (by decide)
  | met b₀ hb₀ hst hws ho =>
    have hne : b ≠ b₀ := by
      rintro rfl
      rw [hb₀] at hm
      cases hm
    obtain rfl : b = !b₀ := Bool.eq_not_of_ne hne
    have hb : Function.update st (!b₀) q b₀ = .stored := by
      rw [Function.update_of_ne hne.symm, hb₀]
    have hs := hm.spawned
    have hmap : (ws ++ l.map fun b => (b, Writing.fresh)).map Prod.fst =
        (Function.update st (!b₀) q (!b₀)).spawned := by
      simp [hws, hs, Function.comp_def]
    generalize hq : st (!b₀) = q₀ at hm hst
    cases hm with
    | store => simp at hst
    | look | find | meet | early | later =>
      exact .met b₀ hb (by simp) hmap (ordered_of_concat ho _)

omit [Codec] in
/-- A turn of a spawned write keeps the phase. -/
theorem Phase.write {ov : Option Probe} {ws' : List (Bool × Writing)}
    (h : Phase S turns st ws ov) (hne : ws ≠ []) (hmap : ws'.map Prod.fst = ws.map Prod.fst)
    (i : ℕ) : Phase S (turns ++ [i]) st ws' ov := by
  cases h with
  | apart _ hws => exact absurd hws hne
  | passed _ _ _ hws => exact absurd hws hne
  | met b hb hst hws ho => exact .met b hb hst (hmap.trans hws) (ordered_of_concat ho i)

theorem Stage.init : Stage node S f [] (pool S f) [] (fun _ => .start) [] where
  threads := rfl
  session := S.stored
  count _ := rfl
  outputs _ := rfl
  phase := by
    have h : (pool S f).state.probeMap S.sid = none := S.noProbe
    rw [h]
    exact .apart (fun _ => by simp) rfl

/-- A turn of handler `b`. -/
theorem Stage.turn_handler (h : Stage node S f turns p outs st ws) {b : Bool}
    (hs : (nodeSemantics node).step p (index b) c = some (p', o)) :
    ∃ st' ws', Stage node S f (turns ++ [index b]) p' (outs ++ o) st' ws' := by
  obtain ⟨t, r, ht, hr, hst, hth, rfl⟩ := Semantics.step_eq_some _ hs
  rw [h.threads, threads_index] at ht
  obtain rfl := Option.some.inj ht
  have hhit : st b = .hit → p.state.probeMap S.sid ≠ none := by
    intro hb hn
    have hp := h.phase
    rw [hn] at hp
    cases hp with
    | apart hst => simpa [hb] using hst b
  obtain ⟨q, l, ha, ho, hl, hm, hmv⟩ := advance_rest h.session h.phase.rand hhit hr
  refine ⟨Function.update st b q, ws ++ l.map fun b => (b, .fresh), ?_, ?_, ?_, ?_, ?_⟩
  · rw [hth, h.threads, ha, hl]
    exact threads_set_index b q l
  · rw [hst, hm]
    exact h.session
  · exact count_concat h.count hmv.turns
  · intro b'
    have hf : (l.map fun b => (b, Writing.fresh)).count (b', .written) = 0 := by
      simp [List.count_eq_zero]
    rw [ho, List.append_nil, List.count_append, hf, h.outputs]
    rfl
  · rw [hst]
    exact h.phase.move h.count hmv

/-- A turn of a spawned write. -/
theorem Stage.turn_writer (h : Stage node S f turns p outs st ws) {j : ℕ}
    (hs : (nodeSemantics node).step p (j + 2) c = some (p', o)) :
    ∃ st' ws', Stage node S f (turns ++ [j + 2]) p' (outs ++ o) st' ws' := by
  obtain ⟨t, r, ht, hr, hst, hth, rfl⟩ := Semantics.step_eq_some _ hs
  rw [h.threads, threads_writer, Option.map_eq_some_iff] at ht
  obtain ⟨⟨b, w⟩, hw, rfl⟩ := ht
  obtain ⟨hj, hget⟩ := List.getElem?_eq_some_iff.mp hw
  obtain ⟨w', ha, hs', hsp, hne, ho⟩ := advance_writer hr
  have hcount (b' : Bool) : (turns ++ [j + 2]).count (index b') = turns.count (index b') := by
    have hb : j + 2 ≠ index b' := by cases b' <;> simp [index]
    simp [hb]
  refine ⟨st, ws.set j (b, w'), ?_, ?_, ?_, ?_, ?_⟩
  · rw [hth, h.threads, ha, hsp, List.map_nil, List.append_nil]
    exact threads_set_writer j b w'
  · rw [hst, hs']
    exact h.session
  · intro b'
    rw [hcount, h.count]
  · intro b'
    rw [List.countP_append, h.outputs, List.count_set hj, hget]
    have hold : ((b, w) == (b', Writing.written)) = false := by simp [hne]
    rcases ho with ⟨hw', ho⟩ | ⟨rfl, confusion, ho⟩
    · have hnew : ((b, w') == (b', Writing.written)) = false := by simp [hw']
      simp [ho, hold, hnew]
    · rw [ho, List.countP_singleton, isSuccess_frame, hold]
      by_cases hb : b = b' <;> simp [hb]
  · have hmap : (ws.set j (b, w')).map Prod.fst = ws.map Prod.fst := by
      have hj' : j < (ws.map Prod.fst).length := by simpa using hj
      have hb : (ws.map Prod.fst)[j] = b := by simp [hget]
      rw [List.map_set, ← hb, List.set_getElem_self]
    rw [hst, hs']
    exact h.phase.write (List.ne_nil_of_length_pos (by omega)) hmap _

/-- Where the pool is after any schedule. -/
theorem reaches_stage {sched : List (ℕ × Choice)}
    (h : run (nodeSemantics node).turn (pool S f) sched = some (p, outs)) :
    ∃ st ws, Stage node S f (sched.map Prod.fst) p outs st ws := by
  refine run_induction (P := fun es t os => ∃ st ws, Stage node S f (es.map Prod.fst) t os st ws)
    ⟨_, _, Stage.init⟩ ?_ h
  rintro es t os ⟨i, c⟩ t' o ⟨st, ws, hS⟩ hstep
  rw [List.map_append]
  match i with
  | 0 => exact hS.turn_handler (b := false) hstep
  | 1 => exact hS.turn_handler (b := true) hstep
  | j + 2 => exact hS.turn_writer hstep

theorem rest_eq_ret {b : Bool} {q : Progress} (h : rest S f b q = .ret none) :
    q = .stored ∨ q = .confirmed := by
  cases q with
  | start =>
    obtain ⟨k, hk, -⟩ := remaining_start (S := S) (f := f) b
    rw [rest, hk] at h
    cases h
  | stored => exact Or.inl rfl
  | confirmed => exact Or.inr rfl
  | _ => cases h

theorem writer_eq_ret {b : Bool} {w : Writing} (h : writer node S b w = .ret none) :
    w = .written := by
  cases w with
  | written => rfl
  | _ => cases h

/-- Both streams are confirmed exactly when one handler inserted its probe before the other
looked for one. -/
theorem confirmed_iff_ordered (node : Node) (S : Sink) (f : Bool → Signal S.sid)
    {sched : List (ℕ × Choice)} {p : NodePool} {outs : List Output}
    (h : run (nodeSemantics node).turn (pool S f) sched = some (p, outs)) (hp : p.finished) :
    Confirmed S outs ↔ Ordered (sched.map Prod.fst) := by
  obtain ⟨st, ws, hS⟩ := reaches_stage h
  rw [Pool.finished_iff, hS.threads] at hp
  have hst (b : Bool) : st b = .stored ∨ st b = .confirmed :=
    rest_eq_ret (f := f) (b := b) (hp _ (by cases b <;> simp [Rendezvous.threads]))
  have hws : ∀ w ∈ ws, w.2 = .written := by
    intro w hw
    exact writer_eq_ret (hp (writer node S w.1 w.2)
      (List.mem_cons_of_mem _ (List.mem_cons_of_mem _ (List.mem_map_of_mem hw))))
  have hphase := hS.phase
  generalize p.state.probeMap S.sid = ov at hphase
  cases hphase with
  | apart ha =>
    have hb := ha false
    rcases hst false with h | h <;> simp [h] at hb
  | passed _ _ _ hnil ho =>
    refine iff_of_false ?_ ho
    intro hc
    have h0 := hc false
    rw [hS.outputs, hnil] at h0
    cases h0
  | met b hb hn hmap ho =>
    refine iff_of_true ?_ ho
    have hc : st (!b) = .confirmed := by
      rcases hst !b with h | h
      · simp [h] at hn
      · exact h
    have hlist : ws = [(false, .written), (true, .written)] := by
      have hw : ws.map id = (ws.map Prod.fst).map fun b => (b, .written) := by
        rw [List.map_map]
        exact List.map_congr_left fun w hw => Prod.ext rfl (hws w hw)
      rwa [List.map_id, hmap, hc] at hw
    intro b'
    rw [hS.outputs, hlist]
    cases b' <;> rfl

end Handlers

/-! ## A sink between an entry and a relay node -/

namespace Sample

def session : Session :=
  ⟨"session", ⟨some ⟨⟨"entry"⟩, 0⟩, some ⟨⟨"relay"⟩, 1⟩⟩, SessionRole.sinkRole.toI32⟩

def sink : Sink where
  sid := "session"
  shared := { sessionMap := fun sid => if sid = "session" then some session else none }
  session := session
  stream b := if b then ⟨⟨"relay"⟩, 1⟩ else ⟨⟨"entry"⟩, 0⟩
  stored := rfl
  role := rfl
  pair := rfl
  distinct := by decide
  noProbe := rfl

def sinkNode : Node := ⟨(⟨.ed25519, List.replicate 32 7⟩ : Ideal.Keypair), none, none⟩

def signal : Signal "session" where
  relay := newRelayProbe "session"
  probe := ⟨"session", Crypto.sha256 (utf8 "session")⟩
  decoded := Codec.decode_encode _
  rand := rfl

/-- One handler after the other, then the two spawned writes. -/
def inTurn : List (ℕ × Choice) :=
  [(0, .go), (0, .go), (0, .go), (1, .go), (1, .go), (1, .go), (1, .go), (1, .go),
    (2, .bytes []), (2, .go), (3, .bytes []), (3, .go)]

/-- The two handlers in lockstep. -/
def lockstep : List (ℕ × Choice) := [(0, .go), (1, .go), (0, .go), (1, .go), (0, .go), (1, .go)]

end Sample

theorem confirmed_in_turn : ∃ p outs,
    run (nodeSemantics Sample.sinkNode).turn (pool Sample.sink fun _ => Sample.signal) Sample.inTurn =
      some (p, outs) ∧ p.finished ∧ Confirmed Sample.sink outs := by
  obtain ⟨p, outs, hr, hf⟩ := exists_run (nodeSemantics Sample.sinkNode).turn
    (pool Sample.sink fun _ => Sample.signal) Sample.inTurn (fun r => r.1.finished)
    (by decide +kernel)
  have ho : Ordered (Sample.inTurn.map Prod.fst) :=
    ⟨[0, 0, 0], ⟨_, rfl⟩, false, by decide, by decide⟩
  exact ⟨p, outs, hr, hf, (confirmed_iff_ordered _ _ _ hr hf).mpr ho⟩

/-- In lockstep both probes are stored and neither stream is confirmed. -/
theorem not_confirmed_lockstep : ∃ p outs,
    run (nodeSemantics Sample.sinkNode).turn (pool Sample.sink fun _ => Sample.signal)
      Sample.lockstep = some (p, outs) ∧ p.finished ∧ ¬ Confirmed Sample.sink outs := by
  refine ⟨_, _, rfl, by decide +kernel, ?_⟩
  intro h
  exact absurd (h false) (by decide +kernel)

end WhiteNoise.Rendezvous
