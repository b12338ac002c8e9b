import WhiteNoise.Stream.OutStreams
import Mathlib.Data.List.Perm.Basic

/-! # The queue loses nothing

Whatever the calls and the network do to the queue, each stream that has
arrived is in the queue or with one call. A scan that nobody disturbs goes
round the queue once and leaves it in its order.
-/

namespace WhiteNoise.OutStreams

open Process Point

/-- One element of a list makes way for another. -/
theorem flatMap_set_perm {α β : Type} {f : α → List β} {l : List α} {i : ℕ} {a b : α}
    (h : l[i]? = some a) : ((l.set i b).flatMap f ++ f a).Perm (l.flatMap f ++ f b) := by
  induction l generalizing i with
  | nil => cases h
  | cons c l ih =>
    cases i with
    | zero =>
      obtain rfl := Option.some.inj h
      rw [List.set_cons_zero, List.flatMap_cons, List.flatMap_cons]
      have hswap : (f b ++ l.flatMap f).Perm (l.flatMap f ++ f b) := List.perm_append_comm
      have hmove : (l.flatMap f ++ f b ++ f c).Perm (f c ++ (l.flatMap f ++ f b)) :=
        List.perm_append_comm
      rw [List.append_assoc (f c)]
      exact (hswap.append_right (f c)).trans hmove
    | succ i =>
      rw [List.set_cons_succ, List.flatMap_cons, List.flatMap_cons, List.append_assoc,
        List.append_assoc]
      exact (ih h).append_left (f c)

/-! ## Places -/

/-- Where a stream can be. -/
inductive Place where
  | queue
  | hand (i : ℕ)
  | returned (i : ℕ)

variable {s s' : State} {e : Event} {es : List Event} {o os : List Unit} {w : WrappedStream}

/-- The stream is in the queue, in the hand of the `i`-th call or returned to it. -/
def At (s : State) (w : WrappedStream) : Place → Prop
  | .queue => w ∈ s.relayOutStreams
  | .hand i => ∃ c, s.calls[i]? = some c ∧ c.point.hand = some w
  | .returned i => ∃ c, s.calls[i]? = some c ∧ c.point.result = some w

/-- The streams that have arrived are those in the queue and with the calls, they have identifiers
of their own, and the calls hold what they should. -/
structure Conserved (s : State) : Prop where
  perm : (s.arrived.map Prod.fst).Perm (s.relayOutStreams ++ s.calls.flatMap (·.point.held))
  nodup : (s.arrived.map (·.1.streamId)).Nodup
  right : ∀ c ∈ s.calls, Right c.peerId c.point

theorem Conserved.step (h : Conserved s) (hs : step s e = some (s', o)) : Conserved s' := by
  rcases step_cases hs with ⟨p, pt, hpt, rfl⟩ | ⟨i, c, pt, queue, spawned, rfl, hc, hn, rfl⟩ |
    ⟨j, p, rfl, hp, rfl⟩ | ⟨j, w, r, rfl, hr, hpeer, hid, rfl⟩ | ⟨j, rfl, rfl⟩
  · have hnone : pt.held = [] ∧ Right p pt := by
      rcases hpt with ⟨-, rfl⟩ | ⟨-, rfl⟩
      · exact ⟨rfl, by simp [Point.hand], by simp [Point.result]⟩
      · exact ⟨held_wait, right_wait⟩
    constructor
    · simpa [hnone.1] using h.perm
    · exact h.nodup
    · intro c hc
      rcases List.mem_append.mp hc with hc | hc
      · exact h.right c hc
      · obtain rfl := List.mem_singleton.mp hc
        exact hnone.2
  · constructor
    · refine h.perm.trans (List.perm_iff_count.mpr fun w => ?_)
      have hqueue := (next_held hn).count_eq w
      have hcalls := (flatMap_set_perm (f := (·.point.held)) (b := ⟨c.peerId, pt⟩) hc).count_eq w
      simp only [List.count_append] at hqueue hcalls ⊢
      omega
    · exact h.nodup
    · intro c' hc'
      rcases List.mem_or_eq_of_mem_set hc' with hc' | rfl
      · exact h.right c' hc'
      · exact next_right hn
  · exact ⟨h.perm, h.nodup, h.right⟩
  · constructor
    · rw [List.map_append, List.append_assoc]
      refine (h.perm.append_right _).trans ?_
      rw [List.append_assoc]
      exact List.perm_append_comm.append_left _
    · rw [List.map_append, List.nodup_append]
      refine ⟨h.nodup, List.nodup_singleton _, ?_⟩
      intro a ha b hb
      obtain ⟨x, hx, rfl⟩ := List.mem_map.mp ha
      obtain rfl := List.mem_singleton.mp hb
      exact hid x hx
    · exact h.right
  · exact ⟨h.perm, h.nodup, h.right⟩

theorem conserved_init : Conserved {} := ⟨List.Perm.refl _, List.nodup_nil, by simp⟩

theorem conserved_run (h : run step {} es = some (s, os)) : Conserved s :=
  run_invariant (fun _ _ _ _ hi hs => hi.step hs) conserved_init h

theorem Conserved.nodup_places (h : Conserved s) :
    (s.relayOutStreams ++ s.calls.flatMap (·.point.held)).Nodup := by
  refine h.perm.nodup ?_
  have hnodup : ((s.arrived.map Prod.fst).map WrappedStream.streamId).Nodup := by
    rw [List.map_map]
    exact h.nodup
  exact hnodup.of_map _

theorem mem_held_of_hand {c : Call} (h : c.point.hand = some w) : w ∈ c.point.held := by
  simp [held, h]

theorem mem_held_of_result {c : Call} (h : c.point.result = some w) : w ∈ c.point.held := by
  simp [held, h]

/-- A call that returns a stream has nothing in its hand. -/
theorem not_hand_of_result {pt : Point} (h : pt.result = some w) : pt.hand ≠ some w := by
  cases pt <;> simp [Point.hand, Point.result] at h ⊢

/-- No two calls hold the same stream. -/
theorem Conserved.holder_unique (h : Conserved s) {i j : ℕ} {c c' : Call}
    (hc : s.calls[i]? = some c) (hc' : s.calls[j]? = some c') (hw : w ∈ c.point.held)
    (hw' : w ∈ c'.point.held) : i = j := by
  have hpairs := (List.nodup_flatMap.mp (List.nodup_append.mp h.nodup_places).2.1).2
  rw [List.pairwise_iff_getElem] at hpairs
  obtain ⟨hi, rfl⟩ := List.getElem?_eq_some_iff.mp hc
  obtain ⟨hj, rfl⟩ := List.getElem?_eq_some_iff.mp hc'
  rcases Nat.lt_trichotomy i j with hlt | heq | hlt
  · exact absurd hw' (hpairs i j hi hj hlt hw)
  · exact heq
  · exact absurd hw (hpairs j i hj hi hlt hw')

/-- What a call holds is not in the queue. -/
theorem Conserved.not_queued (h : Conserved s) {i : ℕ} {c : Call} (hc : s.calls[i]? = some c)
    (hw : w ∈ c.point.held) : w ∉ s.relayOutStreams := by
  intro hq
  have hmem : w ∈ s.calls.flatMap (·.point.held) :=
    List.mem_flatMap.mpr ⟨c, List.mem_of_getElem? hc, hw⟩
  exact (List.nodup_append.mp h.nodup_places).2.2 w hq w hmem rfl

/-- Each stream that has arrived is in one place. -/
theorem Conserved.one_place (h : Conserved s) (hw : w ∈ s.arrived.map Prod.fst) :
    ∃! place, At s w place := by
  have hmem := h.perm.subset hw
  rcases List.mem_append.mp hmem with hq | hcalls
  · refine ⟨.queue, hq, ?_⟩
    intro place hplace
    cases place with
    | queue => rfl
    | hand i =>
      obtain ⟨c, hc, hhand⟩ := hplace
      exact absurd hq (h.not_queued hc (mem_held_of_hand hhand))
    | returned i =>
      obtain ⟨c, hc, hresult⟩ := hplace
      exact absurd hq (h.not_queued hc (mem_held_of_result hresult))
  · obtain ⟨c, hc, hheld⟩ := List.mem_flatMap.mp hcalls
    obtain ⟨i, hi⟩ := List.mem_iff_getElem?.mp hc
    have hother {j : ℕ} {c' : Call} (hc' : s.calls[j]? = some c') (hw' : w ∈ c'.point.held) :
        j = i ∧ c' = c := by
      obtain rfl := h.holder_unique hc' hi hw' hheld
      exact ⟨rfl, Option.some.inj (hc'.symm.trans hi)⟩
    have hplaces {place : Place} (hplace : At s w place) :
        place = .hand i ∧ c.point.hand = some w ∨
          place = .returned i ∧ c.point.result = some w := by
      cases place with
      | queue => exact absurd hplace (h.not_queued hi hheld)
      | hand j =>
        obtain ⟨c', hc', hhand⟩ := hplace
        obtain ⟨rfl, rfl⟩ := hother hc' (mem_held_of_hand hhand)
        exact Or.inl ⟨rfl, hhand⟩
      | returned j =>
        obtain ⟨c', hc', hresult⟩ := hplace
        obtain ⟨rfl, rfl⟩ := hother hc' (mem_held_of_result hresult)
        exact Or.inr ⟨rfl, hresult⟩
    rcases List.mem_append.mp hheld with hhand | hresult
    · rw [Option.mem_toList] at hhand
      refine ⟨.hand i, ⟨c, hi, hhand⟩, ?_⟩
      intro place hplace
      rcases hplaces hplace with ⟨rfl, -⟩ | ⟨-, hresult⟩
      · rfl
      · exact absurd hhand (not_hand_of_result hresult)
    · rw [Option.mem_toList] at hresult
      refine ⟨.returned i, ⟨c, hi, hresult⟩, ?_⟩
      intro place hplace
      rcases hplaces hplace with ⟨-, hhand⟩ | ⟨rfl, -⟩
      · exact absurd hhand (not_hand_of_result hresult)
      · rfl

/-- What is in a place has arrived. -/
theorem Conserved.arrived (h : Conserved s) {place : Place} (hp : At s w place) :
    w ∈ s.arrived.map Prod.fst := by
  have hheld {i : ℕ} {c : Call} (hc : s.calls[i]? = some c) (hw : w ∈ c.point.held) :
      w ∈ s.arrived.map Prod.fst :=
    h.perm.symm.subset (List.mem_append_right _
      (List.mem_flatMap.mpr ⟨c, List.mem_of_getElem? hc, hw⟩))
  cases place with
  | queue => exact h.perm.symm.subset (List.mem_append_left _ hp)
  | hand i =>
    obtain ⟨c, hc, hhand⟩ := hp
    exact hheld hc (mem_held_of_hand hhand)
  | returned i =>
    obtain ⟨c, hc, hresult⟩ := hp
    exact hheld hc (mem_held_of_result hresult)

/-! ## A scan alone -/

theorem run_turn {i : ℕ} {c : Call} {t : State} (pt : Point) (queue : List WrappedStream)
    (hc : s.calls[i]? = some c) (hn : c.point.next c.peerId s.relayOutStreams = some (pt, queue, []))
    (h : run step { s with relayOutStreams := queue, calls := s.calls.set i ⟨c.peerId, pt⟩ } es =
      some (t, [])) : run step s (.turn i :: es) = some (t, []) := by
  refine run_cons_iff.mpr ⟨_, [], [], step_turn hc hn, ?_, rfl⟩
  rw [List.append_nil]
  exact h

/-- The passes over streams for other peers put them behind the rest of the queue. -/
theorem run_passes {i t len index : ℕ} {p : PeerId} {pre post : List WrappedStream}
    (hc : s.calls[i]? = some ⟨p, .scan t len index⟩) (hq : s.relayOutStreams = pre ++ post)
    (hlen : index + pre.length ≤ len) (hpre : ∀ w ∈ pre, w.remotePeerId ≠ p) :
    run step s (List.replicate (2 * pre.length) (.turn i)) = some ({ s with
      relayOutStreams := post ++ pre
      calls := s.calls.set i ⟨p, .scan t len (index + pre.length)⟩ }, []) := by
  induction pre generalizing s index post with
  | nil =>
    have hset : s.calls.set i ⟨p, .scan t len index⟩ = s.calls := by
      obtain ⟨hi, heq⟩ := List.getElem?_eq_some_iff.mp hc
      rw [← heq, List.set_getElem_self]
    rw [List.append_nil, List.length_nil, Nat.add_zero, hset, ← List.nil_append post, ← hq]
    rfl
  | cons w pre ih =>
    rw [List.length_cons] at hlen ⊢
    have hpop : Point.scan t len index = .pop t len index := if_neg (by omega)
    obtain ⟨hi, -⟩ := List.getElem?_eq_some_iff.mp hc
    rw [Nat.mul_succ, List.replicate_succ, List.replicate_succ]
    refine run_turn (.push t len index w) (pre ++ post) hc ?_ ?_
    · rw [hpop, hq, List.cons_append, Point.next, if_neg (hpre w List.mem_cons_self)]
    refine run_turn (.scan t len (index + 1)) (pre ++ post ++ [w]) (c := ⟨p, .push t len index w⟩)
      (List.getElem?_set_self hi) rfl ?_
    have hrun := ih (s := { s with
      relayOutStreams := pre ++ post ++ [w]
      calls := s.calls.set i ⟨p, .scan t len (index + 1)⟩ })
      (List.getElem?_set_self hi) (List.append_assoc pre post [w]) (by omega)
      fun v hv => hpre v (List.mem_cons_of_mem _ hv)
    rw [List.set_set, hrun, List.set_set]
    simp [Nat.add_right_comm, Nat.add_assoc]

/-- A scan that finds nothing, from the length that it reads to its pause. -/
theorem run_scan {i t : ℕ} {p : PeerId} (hc : s.calls[i]? = some ⟨p, .readLen t⟩)
    (hq : ∀ w ∈ s.relayOutStreams, w.remotePeerId ≠ p) :
    run step s (List.replicate (2 * s.relayOutStreams.length + 2) (.turn i)) =
      some ({ s with calls := s.calls.set i ⟨p, .wait (t + 50)⟩ }, []) := by
  obtain ⟨hi, -⟩ := List.getElem?_eq_some_iff.mp hc
  rw [List.replicate_succ]
  refine run_turn _ _ hc rfl ?_
  rw [List.replicate_succ']
  refine run_append_iff.mpr ⟨_, [], [], run_passes (t := t) (List.getElem?_set_self hi)
    (List.append_nil _).symm (Nat.le_of_eq (Nat.zero_add _)) hq, ?_, rfl⟩
  have hsleep (len : ℕ) : Point.scan t len (0 + len) = .sleep t := if_pos (by omega)
  rw [hsleep, List.set_set]
  refine run_turn _ _ (List.getElem?_set_self hi) rfl ?_
  rw [List.set_set]
  rfl

/-- Each stream that has arrived, and no other, is in one place, once; calls return streams to
their peer; and a scan alone that finds nothing keeps the queue in its order. -/
structure LosesNothing (s : State) : Prop where
  place : ∀ w ∈ s.arrived.map Prod.fst, ∃! place, At s w place
  once : s.relayOutStreams.Nodup
  arrived : ∀ w place, At s w place → w ∈ s.arrived.map Prod.fst
  peer : ∀ c ∈ s.calls, ∀ w, c.point = .returned (some w) → w.remotePeerId = c.peerId
  scan : ∀ i p t, s.calls[i]? = some ⟨p, .readLen t⟩ →
    (∀ w ∈ s.relayOutStreams, w.remotePeerId ≠ p) →
    run step s (List.replicate (2 * s.relayOutStreams.length + 2) (.turn i)) =
      some ({ s with calls := s.calls.set i ⟨p, .wait (t + 50)⟩ }, [])

/-- In every run of any calls and the network, at every moment. -/
theorem losesNothing_run (h : run step {} es = some (s, os)) : LosesNothing s := by
  have hc := conserved_run h
  constructor
  · intro w hw
    exact hc.one_place hw
  · exact (List.nodup_append.mp hc.nodup_places).1
  · intro w place hp
    exact hc.arrived hp
  · intro c hmem w hw
    exact (hc.right c hmem).result w (by rw [hw]; rfl)
  · intro i p t hi hq
    exact run_scan hi hq

namespace Sample

def one : PeerId := ⟨"one"⟩

def two : PeerId := ⟨"two"⟩

/-- Two calls, each with the stream of the other in hand. -/
def crossed : List Event :=
  [.call one, .call two, .turn 0, .turn 1, .send 0, .send 0, .opened 1 ⟨two, 0⟩,
    .opened 0 ⟨one, 1⟩, .turn 0, .turn 1, .turn 0, .turn 1]

end Sample

theorem losesNothing_crossed :
    ∃ s os, run step {} Sample.crossed = some (s, os) ∧ LosesNothing s := by
  obtain ⟨s, os, hr, -⟩ := exists_run step {} Sample.crossed
    (fun r => decide (r.1.relayOutStreams = [])) (by decide)
  exact ⟨s, os, hr, losesNothing_run hr⟩

end WhiteNoise.OutStreams
