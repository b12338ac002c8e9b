import WhiteNoise.Stream.Conservation
import Mathlib.Data.Fintype.EquivFin

/-! # What earlier calls leave for later ones

Requests and streams are matched by the peer alone. A call may return a stream
that was opened for a request of an earlier call, and it cannot exactly when
nothing of such a request is left when it starts.
-/

namespace WhiteNoise.OutStreams

open Process Point

variable {s s' t : State} {e : Event} {es : List Event} {o os : List Unit} {w : WrappedStream}
  {p : PeerId} {i j k : ℕ}

/-- The stream was opened for a request that was sent when the `k`-th call had been made. -/
def Fresh (s : State) (k : ℕ) (w : WrappedStream) : Prop :=
  ∃ r, (w, r) ∈ s.arrived ∧ k < r.calls

/-- There is no request for the peer without a stream, and no stream to the peer in the queue or in
the hand of a call. -/
structure Clear (s : State) (p : PeerId) : Prop where
  requests : ∀ r ∈ s.requests, r.peerId ≠ p
  queue : ∀ w ∈ s.relayOutStreams, w.remotePeerId ≠ p
  hands : ∀ c ∈ s.calls, ∀ w, c.point.hand = some w → w.remotePeerId ≠ p

/-! ## A call that starts clear -/

/-- The `k`-th call has the stream or may still get it. -/
def Available (s : State) (k : ℕ) (w : WrappedStream) : Prop :=
  w ∈ s.relayOutStreams ∨ (∃ c ∈ s.calls, c.point.hand = some w) ∨
    ∃ c, s.calls[k]? = some c ∧ c.point.result = some w

/-- Since the `k`-th call, for the peer, has been made. -/
structure Since (p : PeerId) (k : ℕ) (s : State) : Prop where
  made : k < s.calls.length
  requests : ∀ r ∈ s.requests, r.peerId = p → k < r.calls
  arrived : ∀ a ∈ s.arrived, a.1.remotePeerId = p → Available s k a.1 → k < a.2.calls

/-- An operation of a call makes nothing available that was not so before. -/
theorem available_turn {c : Call} {pt : Point} {queue : List WrappedStream} {spawned : List PeerId}
    (hc : s.calls[i]? = some c) (hn : c.point.next c.peerId s.relayOutStreams = some (pt, queue, spawned))
    (h : Available { s with
      relayOutStreams := queue
      calls := s.calls.set i ⟨c.peerId, pt⟩
      tasks := s.tasks ++ spawned } k w) : Available s k w := by
  have hresult : c.point.result = none := by
    cases hpt : c.point with
    | returned => simp [hpt, Point.next] at hn
    | _ => rfl
  have hmoved (hw : w ∈ queue ++ pt.held) : Available s k w := by
    rcases List.mem_append.mp ((next_held hn).subset hw) with hq | hheld
    · exact Or.inl hq
    · rw [held, hresult, Option.toList_none, List.append_nil, Option.mem_toList] at hheld
      exact Or.inr (Or.inl ⟨c, List.mem_of_getElem? hc, hheld⟩)
  rcases h with hq | ⟨c', hc', hhand⟩ | ⟨c', hc', hresult'⟩
  · exact hmoved (List.mem_append_left _ hq)
  · rcases List.mem_or_eq_of_mem_set hc' with hc' | rfl
    · exact Or.inr (Or.inl ⟨c', hc', hhand⟩)
    · exact hmoved (List.mem_append_right _ (mem_held_of_hand hhand))
  · by_cases hik : i = k
    · subst hik
      obtain ⟨hi, -⟩ := List.getElem?_eq_some_iff.mp hc
      rw [List.getElem?_set_self hi] at hc'
      obtain rfl := Option.some.inj hc'
      exact hmoved (List.mem_append_right _ (mem_held_of_result hresult'))
    · rw [List.getElem?_set_ne hik] at hc'
      exact Or.inr (Or.inr ⟨c', hc', hresult'⟩)

/-- A call that has just been made brings nothing. -/
theorem available_call {c : Call} (hhand : c.point.hand = none) (hresult : c.point.result = none)
    (h : Available { s with calls := s.calls ++ [c] } k w) : Available s k w := by
  rcases h with hq | ⟨c', hc', hhand'⟩ | ⟨c', hc', hresult'⟩
  · exact Or.inl hq
  · rcases List.mem_append.mp hc' with hc' | hc'
    · exact Or.inr (Or.inl ⟨c', hc', hhand'⟩)
    · obtain rfl := List.mem_singleton.mp hc'
      rw [hhand] at hhand'
      cases hhand'
  · by_cases hk : k < s.calls.length
    · rw [List.getElem?_append_left hk] at hc'
      exact Or.inr (Or.inr ⟨c', hc', hresult'⟩)
    · rw [List.getElem?_append_right (Nat.le_of_not_lt hk)] at hc'
      obtain rfl := List.mem_singleton.mp (List.mem_of_getElem? hc')
      rw [hresult] at hresult'
      cases hresult'

theorem Since.step (h : Since p k s) (hs : step s e = some (s', o)) : Since p k s' := by
  rcases step_cases hs with ⟨q, pt, hpt, rfl⟩ | ⟨i, c, pt, queue, spawned, rfl, hc, hn, rfl⟩ |
    ⟨j, q, rfl, hq, rfl⟩ | ⟨j, w, r, rfl, hr, hpeer, hid, rfl⟩ | ⟨j, rfl, rfl⟩
  · have hnone : pt.hand = none ∧ pt.result = none := by
      rcases hpt with ⟨-, rfl⟩ | ⟨-, rfl⟩
      · exact ⟨rfl, rfl⟩
      · exact ⟨hand_wait, result_wait⟩
    constructor
    · rw [List.length_append]
      exact Nat.lt_add_right _ h.made
    · exact h.requests
    · intro a ha hp hav
      exact h.arrived a ha hp (available_call hnone.1 hnone.2 hav)
  · constructor
    · rw [List.length_set]
      exact h.made
    · exact h.requests
    · intro a ha hp hav
      exact h.arrived a ha hp (available_turn hc hn hav)
  · constructor
    · exact h.made
    · intro r hr hp
      rcases List.mem_append.mp hr with hr | hr
      · exact h.requests r hr hp
      · obtain rfl := List.mem_singleton.mp hr
        exact h.made
    · exact h.arrived
  · constructor
    · exact h.made
    · intro r' hr' hp
      exact h.requests r' (List.mem_of_mem_eraseIdx hr') hp
    · intro a ha hp hav
      rcases List.mem_append.mp ha with ha | ha
      · refine h.arrived a ha hp ?_
        rcases hav with hq | hrest
        · rcases List.mem_append.mp hq with hq | hq
          · exact Or.inl hq
          · exact absurd (congrArg _ (List.mem_singleton.mp hq)) (hid a ha)
        · exact Or.inr hrest
      · obtain rfl := List.mem_singleton.mp ha
        exact h.requests r (List.mem_of_getElem? hr) (hpeer ▸ hp)
  · constructor
    · exact h.made
    · intro r hr hp
      exact h.requests r (List.mem_of_mem_eraseIdx hr) hp
    · exact h.arrived

theorem Clear.since (h : Clear s p) :
    Since p s.calls.length { s with calls := s.calls ++ [⟨p, .spawn⟩] } := by
  constructor
  · simp
  · intro r hr hp
    exact absurd hp (h.requests r hr)
  · intro a ha hp hav
    rcases available_call rfl rfl hav with hq | ⟨c, hc, hhand⟩ | ⟨c, hc, -⟩
    · exact absurd hp (h.queue a.1 hq)
    · exact absurd hp (h.hands c hc a.1 hhand)
    · simp at hc

theorem since_run (h : Clear s p)
    (hr : run step { s with calls := s.calls ++ [⟨p, .spawn⟩] } es = some (t, os)) :
    Since p s.calls.length t :=
  run_invariant (fun _ _ _ _ hi hs => hi.step hs) h.since hr

/-! ## A call that does not -/

/-- Every request so far was sent when at most so many calls had been made. -/
structure Stamped (s : State) (k : ℕ) : Prop where
  requests : ∀ r ∈ s.requests, r.calls ≤ k
  arrived : ∀ a ∈ s.arrived, a.2.calls ≤ k

theorem Stamped.step (h : Stamped s s.calls.length) (hs : step s e = some (s', o)) :
    Stamped s' s'.calls.length := by
  rcases step_cases hs with ⟨q, pt, -, rfl⟩ | ⟨i, c, pt, queue, spawned, rfl, hc, hn, rfl⟩ |
    ⟨j, q, rfl, hq, rfl⟩ | ⟨j, w, r, rfl, hr, hpeer, hid, rfl⟩ | ⟨j, rfl, rfl⟩
  · have hle : s.calls.length ≤ (s.calls ++ [(⟨q, pt⟩ : Call)]).length := by simp
    exact ⟨fun r hr => (h.requests r hr).trans hle, fun a ha => (h.arrived a ha).trans hle⟩
  · dsimp only
    rw [List.length_set]
    exact ⟨h.requests, h.arrived⟩
  · refine ⟨fun r hr => ?_, h.arrived⟩
    rcases List.mem_append.mp hr with hr | hr
    · exact h.requests r hr
    · obtain rfl := List.mem_singleton.mp hr
      exact Nat.le_refl _
  · refine ⟨fun r hr => h.requests r (List.mem_of_mem_eraseIdx hr), fun a ha => ?_⟩
    rcases List.mem_append.mp ha with ha | ha
    · exact h.arrived a ha
    · obtain rfl := List.mem_singleton.mp ha
      exact h.requests r (List.mem_of_getElem? hr)
  · exact ⟨fun r hr => h.requests r (List.mem_of_mem_eraseIdx hr), h.arrived⟩

theorem stamped_init : Stamped {} 0 := ⟨by simp, by simp⟩

theorem stamped_run (h : run step {} es = some (s, os)) : Stamped s s.calls.length :=
  run_invariant (I := fun t => Stamped t t.calls.length) (fun _ _ _ _ hi hs => hi.step hs)
    stamped_init h

/-- A call alone takes the first stream to its peer. -/
theorem run_alone_found (hc : s.calls[k]? = some ⟨p, .spawn⟩) (hw : w ∈ s.relayOutStreams)
    (hp : w.remotePeerId = p) : ∃ es t w', run step s es = some (t, []) ∧
      t.calls[k]? = some ⟨p, .returned (some w')⟩ ∧ t.arrived = s.arrived := by
  obtain ⟨hk, -⟩ := List.getElem?_eq_some_iff.mp hc
  cases hfind : s.relayOutStreams.find? (fun w => w.remotePeerId = p) with
  | none =>
    have hnone := List.find?_eq_none.mp hfind w hw
    simp [hp] at hnone
  | some w' =>
    obtain ⟨hw', pre, post, hq, hpre⟩ := List.find?_eq_some_iff_append.mp hfind
    have hw' : w'.remotePeerId = p := by simpa using hw'
    have hpre : ∀ v ∈ pre, v.remotePeerId ≠ p := fun v hv => by simpa using hpre v hv
    have hlen : 0 + pre.length ≤ s.relayOutStreams.length := by simp [hq]
    have hfound : Point.scan 0 s.relayOutStreams.length (0 + pre.length) =
        .pop 0 s.relayOutStreams.length (0 + pre.length) := by
      rw [hq]
      exact if_neg (by simp)
    refine ⟨.turn k :: .turn k :: (List.replicate (2 * pre.length) (.turn k) ++ [.turn k]),
      { s with
        relayOutStreams := post ++ pre
        calls := s.calls.set k ⟨p, .returned (some w')⟩
        tasks := s.tasks ++ [p] }, w', ?_, List.getElem?_set_self hk, rfl⟩
    refine run_cons_iff.mpr ⟨_, [], [], step_turn hc rfl, ?_, rfl⟩
    refine run_turn (.scan 0 s.relayOutStreams.length 0) _ (List.getElem?_set_self hk) rfl ?_
    refine run_append_iff.mpr ⟨_, [], [], run_passes (List.getElem?_set_self (by simpa using hk)) hq
      hlen hpre, ?_, rfl⟩
    refine run_turn (.returned (some w')) (post ++ pre) (List.getElem?_set_self (by simpa using hk))
      ?_ ?_
    · rw [hfound, List.cons_append, Point.next, if_pos hw']
    · simp only [List.set_set]
      rfl

/-- What is left of an earlier request can come to the queue before a new call has scanned it. -/
theorem exists_waiting (hst : Stamped s k) (hk : k = s.calls.length) (hclear : ¬ Clear s p) :
    ∃ es t w, run step { s with calls := s.calls ++ [⟨p, .spawn⟩] } es = some (t, []) ∧
      t.calls[k]? = some ⟨p, .spawn⟩ ∧ w ∈ t.relayOutStreams ∧ w.remotePeerId = p ∧
      ∀ a ∈ t.arrived, a.2.calls ≤ k := by
  have hlast : (s.calls ++ [(⟨p, .spawn⟩ : Call)])[k]? = some ⟨p, .spawn⟩ := by
    rw [hk, List.getElem?_concat_length]
  by_cases hrequest : ∃ r ∈ s.requests, r.peerId = p
  · obtain ⟨r, hr, hp⟩ := hrequest
    obtain ⟨j, hj⟩ := List.mem_iff_getElem?.mp hr
    obtain ⟨n, hn⟩ := Infinite.exists_notMem_finset (s.arrived.map (·.1.streamId)).toFinset
    have hnew : ∀ a ∈ s.arrived, a.1.streamId ≠ n := by
      rintro a ha rfl
      exact hn (List.mem_toFinset.mpr (List.mem_map_of_mem ha))
    have hopened := step_opened (w := ⟨p, n⟩) (s := { s with calls := s.calls ++ [⟨p, .spawn⟩] })
      hj hp.symm hnew
    refine ⟨[.opened j ⟨p, n⟩], _, ⟨p, n⟩, run_cons_iff.mpr ⟨_, [], [], hopened, rfl, rfl⟩, hlast,
      List.mem_append_right _ (List.mem_singleton.mpr rfl), rfl, ?_⟩
    intro a ha
    rcases List.mem_append.mp ha with ha | ha
    · exact hst.arrived a ha
    · obtain rfl := List.mem_singleton.mp ha
      exact hst.requests r hr
  by_cases hqueue : ∃ w ∈ s.relayOutStreams, w.remotePeerId = p
  · obtain ⟨w, hw, hp⟩ := hqueue
    exact ⟨[], _, w, rfl, hlast, hw, hp, hst.arrived⟩
  by_cases hhand : ∃ c ∈ s.calls, ∃ w, c.point.hand = some w ∧ w.remotePeerId = p
  · obtain ⟨c, hc, w, hw, hp⟩ := hhand
    obtain ⟨i, hi⟩ := List.mem_iff_getElem?.mp hc
    obtain ⟨hlt, -⟩ := List.getElem?_eq_some_iff.mp hi
    obtain ⟨pt, hpush⟩ : ∃ pt, c.point.next c.peerId s.relayOutStreams =
        some (pt, s.relayOutStreams ++ [w], []) := by
      cases hpt : c.point with
      | push t len index w' =>
        rw [hpt] at hw
        obtain rfl := Option.some.inj hw
        exact ⟨_, rfl⟩
      | _ => simp [hpt, Point.hand] at hw
    have hturn := step_turn (s := { s with calls := s.calls ++ [⟨p, .spawn⟩] })
      ((List.getElem?_append_left hlt).trans hi) hpush
    refine ⟨[.turn i], _, w, run_cons_iff.mpr ⟨_, [], [], hturn, rfl, rfl⟩, ?_,
      List.mem_append_right _ (List.mem_singleton.mpr rfl), hp, hst.arrived⟩
    rw [List.getElem?_set_ne (by omega), hlast]
  · refine absurd ⟨?_, ?_, ?_⟩ hclear
    · intro r hr hp
      exact hrequest ⟨r, hr, hp⟩
    · intro w hw hp
      exact hqueue ⟨w, hw, hp⟩
    · intro c hc w hw hp
      exact hhand ⟨c, hc, w, hw, hp⟩

theorem exists_stale (h : run step {} es = some (s, os)) (hclear : ¬ Clear s p) :
    ∃ es' t w, run step s (.call p :: es') = some (t, []) ∧
      t.calls[s.calls.length]? = some ⟨p, .returned (some w)⟩ ∧ ¬ Fresh t s.calls.length w := by
  obtain ⟨es₁, u, w, hu, hcall, hw, hp, hstale⟩ := exists_waiting (stamped_run h) rfl hclear
  obtain ⟨es₂, t, w', ht, hreturned, harrived⟩ := run_alone_found hcall hw hp
  refine ⟨es₁ ++ es₂, t, w', ?_, hreturned, ?_⟩
  · exact run_cons_iff.mpr ⟨_, [], [], rfl, run_append_iff.mpr ⟨u, [], [], hu, ht, rfl⟩, rfl⟩
  · rintro ⟨r, hr, hlt⟩
    rw [harrived] at hr
    exact absurd (hstale (w', r) hr) (Nat.not_le.mpr hlt)

/-! ## Which calls get a fresh stream -/

/-- Whatever happens, a call for the peer returns no stream that was opened for an earlier request. -/
def AlwaysFresh (s : State) (p : PeerId) : Prop :=
  ∀ es t os w, run step s (.call p :: es) = some (t, os) →
    t.calls[s.calls.length]? = some ⟨p, .returned (some w)⟩ → Fresh t s.calls.length w

/-- A call gets a fresh stream in every run exactly when it starts clear. -/
theorem alwaysFresh_iff (h : run step {} es = some (s, os)) : AlwaysFresh s p ↔ Clear s p := by
  constructor
  · intro hfresh
    by_contra hclear
    obtain ⟨es', t, w, hr, hreturned, hstale⟩ := exists_stale h hclear
    exact hstale (hfresh es' t [] w hr hreturned)
  · intro hclear es' t os' w hr hreturned
    have hall := run_append_iff.mpr ⟨s, os, os', h, hr, rfl⟩
    have hc := conserved_run hall
    have hresult : At t w (.returned s.calls.length) := ⟨_, hreturned, rfl⟩
    obtain ⟨a, ha, rfl⟩ := List.mem_map.mp (hc.arrived hresult)
    have hp := (hc.right _ (List.mem_of_getElem? hreturned)).result a.1 rfl
    obtain ⟨u, o, o', hcall, hrest, -⟩ := run_cons_iff.mp hr
    cases hcall
    have hsince := since_run hclear hrest
    exact ⟨a.2, ha, hsince.arrived a ha hp (Or.inr (Or.inr hresult))⟩

namespace Sample

/-- A call sends its request and finds nothing in a hundred scans. -/
def gaveUp : List Event := [.call one, .turn 0, .send 0] ++ List.replicate 200 (.turn 0)

/-- Its stream arrives for the next call. -/
def late : List Event := gaveUp ++ [.call one, .opened 0 ⟨one, 0⟩, .turn 1, .turn 1, .turn 1]

end Sample

set_option maxRecDepth 8000 in
theorem alwaysFresh_gaveUp : ∃ s os, run step {} Sample.gaveUp = some (s, os) ∧
    (AlwaysFresh s Sample.one ↔ Clear s Sample.one) := by
  obtain ⟨s, os, hr, -⟩ := exists_run step {} Sample.gaveUp
    (fun r => decide (r.1.calls = [⟨Sample.one, .returned none⟩])) (by decide)
  exact ⟨s, os, hr, alwaysFresh_iff hr⟩

set_option maxRecDepth 8000 in
/-- The second call returns the stream of the first one. -/
theorem not_fresh_late : ∃ t, run step {} Sample.late = some (t, []) ∧
    t.calls = [⟨Sample.one, .returned none⟩, ⟨Sample.one, .returned (some ⟨Sample.one, 0⟩)⟩] ∧
    ¬ Fresh t 1 ⟨Sample.one, 0⟩ := by
  refine ⟨_, rfl, rfl, ?_⟩
  rintro ⟨r, hr, hlt⟩
  obtain rfl := congrArg Prod.snd (List.mem_singleton.mp hr)
  exact absurd hlt (by decide)

end WhiteNoise.OutStreams
