import WhiteNoise.Stream.StartPoll

/-! # The order of the frames

Each frame reaches the incoming channel through a task of its own. The reader
gets the frames in order, and the final error after them, exactly when the
tasks run in the order of their frames and none is left for later.
-/

namespace WhiteNoise.Stream.StartPoll

open Wire Process

variable {R : Reader} {s s' t : StartPoll} {e : Event} {es : List Event}
  {o os : List ReadResult}

/-- A task that runs carries the next frame, the final error waits for all tasks, and no write
fails. -/
def Ordered (R : Reader) (s : StartPoll) (e : Event) : Prop :=
  (s.ends R e → s.tasks = []) ∧
    match e with
    | .deliver i => s.tasks[i]? = s.frames[s.sent.length]?
    | .written ok => ok = true
    | _ => True

instance (s : StartPoll) (e : Event) : Decidable (Ordered R s e) :=
  match e with
  | .deliver i =>
    inferInstanceAs (Decidable ((_ → _) ∧ s.tasks[i]? = s.frames[s.sent.length]?))
  | .written ok => inferInstanceAs (Decidable ((_ → _) ∧ ok = true))
  | .arrive _ | .finish | .command _ | .poll _ | .closed | .read =>
    inferInstanceAs (Decidable ((_ → _) ∧ True))

/-- The incoming channel and the counts, over all runs. -/
structure Counted (s : StartPoll) : Prop where
  open_ : s.phase ≠ .ended → s.sent.length + s.tasks.length = s.frames.length ∧
    ∀ res ∈ s.sent, ∃ b, res = .ok b
  ended : s.phase = .ended → s.sent.length + s.tasks.length = s.frames.length + 1 ∧
    ∃ err, .error err ∈ s.sent

theorem length_eraseIdx_of_get {l : List Bytes} {i : ℕ} {b : Bytes} (h : l[i]? = some b) :
    (l.eraseIdx i).length + 1 = l.length := by
  have hi : i < l.length := (List.getElem?_eq_some_iff.mp h).1
  rw [List.length_eraseIdx_of_lt hi]
  omega

theorem Counted.step (h : Counted s) (hs : step R s e = some (s', o)) : Counted s' := by
  cases step_effect hs with
  | quiet hphase htasks _ hframes hsent =>
    have hiff : s'.phase = .ended ↔ s.phase = .ended := by
      rcases hphase with hphase | ⟨hs, hs'⟩
      · rw [hphase]
      · exact ⟨fun h => absurd (Or.inl h) hs', fun h => absurd (Or.inl h) hs⟩
    constructor
    · intro hp
      rw [htasks, hframes, hsent]
      exact h.open_ (mt hiff.mpr hp)
    · intro hp
      rw [htasks, hframes, hsent]
      exact h.ended (hiff.mp hp)
  | frame b hphase hphase' htasks _ hframes hsent =>
    obtain ⟨hcount, hok⟩ := h.open_ fun hp => hphase (Or.inl hp)
    refine ⟨fun _ => ⟨?_, ?_⟩, fun hp => absurd (Or.inl hp) hphase'⟩
    · rw [htasks, hframes, hsent, List.length_append, List.length_append]
      omega
    · rw [hsent]
      exact hok
  | ended err hphase hphase' htasks _ hframes hsent =>
    obtain ⟨hcount, -⟩ := h.open_ fun hp => hphase (Or.inl hp)
    refine ⟨fun hp => absurd hphase' hp, fun _ => ⟨?_, err, ?_⟩⟩
    · rw [htasks, hframes, hsent, List.length_append, List.length_singleton]
      omega
    · rw [hsent]
      exact List.mem_append_right _ List.mem_cons_self
  | panicked hphase hphase' htasks _ hframes hsent =>
    have hne : s.phase ≠ .ended := fun hp => hphase (Or.inl hp)
    refine ⟨fun _ => ?_, fun hp => ?_⟩
    · rw [htasks, hframes, hsent]
      exact h.open_ hne
    · rw [hphase'] at hp
      cases hp
  | delivered i b hb hphase htasks _ hframes hsent =>
    have hlen := length_eraseIdx_of_get hb
    constructor
    · intro hp
      obtain ⟨hcount, hok⟩ := h.open_ (hphase ▸ hp)
      refine ⟨?_, ?_⟩
      · rw [htasks, hframes, hsent, List.length_append, List.length_singleton]
        omega
      · intro res hres
        rw [hsent] at hres
        rcases List.mem_append.mp hres with hres | hres
        · exact hok res hres
        · exact ⟨b, List.mem_singleton.mp hres⟩
    · intro hp
      obtain ⟨hcount, err, herr⟩ := h.ended (hphase ▸ hp)
      refine ⟨?_, err, ?_⟩
      · rw [htasks, hframes, hsent, List.length_append, List.length_singleton]
        omega
      · rw [hsent]
        exact List.mem_append_left _ herr
  | read res hphase htasks _ hframes hsent =>
    constructor
    · rw [hphase, htasks, hframes, hsent]
      exact h.open_
    · rw [hphase, htasks, hframes, hsent]
      exact h.ended

theorem counted_run (h : run (step R) {} es = some (s, os)) : Counted s :=
  run_invariant (fun _ _ _ _ hi hs => hi.step hs) ⟨fun _ => ⟨rfl, by simp⟩, by simp⟩ h

/-- What the reader got and what waits for it is what was sent. -/
theorem received_run (h : run (step R) {} es = some (s, os)) : os ++ s.inbox = s.sent := by
  refine run_induction (P := fun _ t os => os ++ t.inbox = t.sent) rfl ?_ h
  intro es t os e t' o ih hs
  cases step_effect hs with
  | quiet _ _ hinbox _ hsent | frame _ _ _ _ hinbox _ hsent | panicked _ _ _ hinbox _ hsent =>
    rw [hinbox, hsent, List.append_nil, ih]
  | ended err _ _ _ hinbox _ hsent =>
    rw [hinbox, hsent, List.append_nil, ← List.append_assoc, ih]
  | delivered i b _ _ _ hinbox _ hsent =>
    rw [hinbox, hsent, List.append_nil, ← List.append_assoc, ih]
  | read res _ _ hinbox _ hsent =>
    rw [hsent, ← ih, hinbox, List.append_assoc, List.singleton_append]

/-- Nothing that was sent or read is taken back, and what is over stays over. -/
theorem grows (h : run (step R) s es = some (t, os)) :
    s.sent <+: t.sent ∧ s.frames <+: t.frames ∧
      (s.Over → t.phase = s.phase ∧ t.frames = s.frames) := by
  refine run_induction (P := fun _ t _ => s.sent <+: t.sent ∧ s.frames <+: t.frames ∧
    (s.Over → t.phase = s.phase ∧ t.frames = s.frames))
    ⟨List.prefix_rfl, List.prefix_rfl, fun _ => ⟨rfl, rfl⟩⟩ ?_ h
  rintro es t os e t' o ⟨hsent₀, hframes₀, hover₀⟩ hs
  have hover (ho : s.Over) : t.Over := by
    unfold Over at *
    rwa [(hover₀ ho).1]
  cases step_effect hs with
  | quiet hphase _ _ hframes hsent =>
    refine ⟨hsent ▸ hsent₀, hframes ▸ hframes₀, fun ho => ?_⟩
    rcases hphase with hphase | ⟨hn, -⟩
    · exact ⟨hphase.trans (hover₀ ho).1, hframes.trans (hover₀ ho).2⟩
    · exact absurd (hover ho) hn
  | frame b hphase _ _ _ hframes hsent =>
    refine ⟨hsent ▸ hsent₀, ?_, fun ho => absurd (hover ho) hphase⟩
    rw [hframes]
    exact hframes₀.trans (List.prefix_append ..)
  | ended err hphase _ _ _ hframes hsent =>
    refine ⟨?_, hframes ▸ hframes₀, fun ho => absurd (hover ho) hphase⟩
    rw [hsent]
    exact hsent₀.trans (List.prefix_append ..)
  | panicked hphase _ _ _ hframes hsent =>
    exact ⟨hsent ▸ hsent₀, hframes ▸ hframes₀, fun ho => absurd (hover ho) hphase⟩
  | delivered i b _ hphase _ _ hframes hsent =>
    refine ⟨?_, hframes ▸ hframes₀, fun ho => ⟨hphase.trans (hover₀ ho).1,
      hframes.trans (hover₀ ho).2⟩⟩
    rw [hsent]
    exact hsent₀.trans (List.prefix_append ..)
  | read res hphase _ _ hframes hsent =>
    exact ⟨hsent ▸ hsent₀, hframes ▸ hframes₀, fun ho => ⟨hphase.trans (hover₀ ho).1,
      hframes.trans (hover₀ ho).2⟩⟩

/-! ## Ordered runs -/

/-- The frames that were handed over are the first ones, in order. -/
structure InOrder (s : StartPoll) : Prop where
  alive : s.phase ≠ .panicked
  open_ : s.phase ≠ .ended → ∃ rest, s.frames.map .ok = s.sent ++ rest
  ended : s.phase = .ended → s.tasks = [] ∧ ∃ err, s.sent = s.frames.map .ok ++ [.error err]

theorem InOrder.step (h : InOrder s) (hc : Counted s) (ho : Ordered R s e)
    (hs : step R s e = some (s', o)) : InOrder s' := by
  cases step_effect hs with
  | quiet hphase htasks _ hframes hsent =>
    rcases hphase with hphase | ⟨hn, hn'⟩
    · refine ⟨hphase ▸ h.alive, ?_, ?_⟩
      · rw [hphase, hframes, hsent]
        exact h.open_
      · rw [hphase, htasks, hframes, hsent]
        exact h.ended
    · refine ⟨fun hp => hn' (Or.inr hp), fun _ => ?_, fun hp => absurd (Or.inl hp) hn'⟩
      rw [hframes, hsent]
      exact h.open_ fun hp => hn (Or.inl hp)
  | frame b hn hn' htasks _ hframes hsent =>
    obtain ⟨rest, hrest⟩ := h.open_ fun hp => hn (Or.inl hp)
    refine ⟨fun hp => hn' (Or.inr hp), fun _ => ⟨rest ++ [.ok b], ?_⟩,
      fun hp => absurd (Or.inl hp) hn'⟩
    rw [hframes, hsent, List.map_append, hrest, List.append_assoc]
    rfl
  | ended err hn hphase' htasks _ hframes hsent he =>
    have hne : s.phase ≠ .ended := fun hp => hn (Or.inl hp)
    obtain ⟨rest, hrest⟩ := h.open_ hne
    have htasks₀ := ho.1 he
    have hlen := (hc.open_ hne).1
    have hlen' := congrArg List.length hrest
    rw [htasks₀, List.length_nil] at hlen
    rw [List.length_map, List.length_append] at hlen'
    obtain rfl : rest = [] := List.eq_nil_of_length_eq_zero (by omega)
    refine ⟨by simp [hphase'], fun hp => absurd hphase' hp, fun _ => ⟨htasks.trans htasks₀, err, ?_⟩⟩
    rw [hframes, hsent, hrest, List.append_nil]
  | panicked => cases ho.2
  | delivered i b hb hphase htasks _ hframes hsent =>
    have hnext : s.tasks[i]? = s.frames[s.sent.length]? := ho.2
    by_cases hp : s.phase = .ended
    · rw [(h.ended hp).1] at hb
      cases hb
    · obtain ⟨rest, hrest⟩ := h.open_ hp
      refine ⟨hphase ▸ h.alive, fun _ => ?_, fun hp' => absurd (hphase ▸ hp') hp⟩
      have hget : (s.frames.map Except.ok)[s.sent.length]? =
          some (Except.ok b : ReadResult) := by
        rw [List.getElem?_map, ← hnext, hb]
        rfl
      rw [hrest, List.getElem?_append_right (Nat.le_refl _), Nat.sub_self] at hget
      cases rest with
      | nil => cases hget
      | cons r rest =>
        obtain rfl := Option.some.inj hget
        refine ⟨rest, ?_⟩
        rw [hframes, hsent, hrest, List.append_assoc, List.singleton_append]
  | read res hphase htasks _ hframes hsent =>
    refine ⟨hphase ▸ h.alive, ?_, ?_⟩
    · rw [hphase, hframes, hsent]
      exact h.open_
    · rw [hphase, htasks, hframes, hsent]
      exact h.ended

theorem inOrder_run (hm : Meets (Ordered R) (step R) {} es)
    (h : run (step R) {} es = some (s, os)) : InOrder s := by
  have hrun := run_induction_meets (P := fun _ t _ => Counted t ∧ InOrder t)
    ⟨⟨fun _ => ⟨rfl, by simp⟩, by simp⟩, ⟨by simp, fun _ => ⟨[], rfl⟩, by simp⟩⟩ ?_ hm h
  · exact hrun.2
  · rintro es t os e t' o ⟨hc, hi⟩ ho hs
    exact ⟨hc.step hs, hi.step hc ho hs⟩

/-- The final sequence fixes what was sent before. -/
theorem sent_get {err : ReadOneError} (h : t.sent = t.frames.map .ok ++ [.error err])
    (hsent : s.sent <+: t.sent) {j : ℕ} {res : ReadResult} (hj : s.sent[j]? = some res)
    (hlt : j < t.frames.length) : (t.frames[j]?).map .ok = some res := by
  obtain ⟨rest, hrest⟩ := hsent
  have hlen : j < s.sent.length := (List.getElem?_eq_some_iff.mp hj).1
  have hget : t.sent[j]? = some res := by
    rw [← hrest, List.getElem?_append_left hlen, hj]
  rwa [h, List.getElem?_append_left (by simpa using hlt), List.getElem?_map] at hget

/-- If the reader gets the frames in order and the final error, every event was in order. -/
theorem ordered_of_sent {err : ReadOneError} (h : run (step R) {} es = some (t, os))
    (ht : t.sent = t.frames.map .ok ++ [.error err]) : Meets (Ordered R) (step R) {} es := by
  rintro pre e post s o₁ rfl hr
  obtain ⟨s₁, o₁', o₂, hr₁, hrest, -⟩ := run_append_iff.mp h
  obtain ⟨rfl, -⟩ := Prod.mk.inj (Option.some.inj (hr.symm.trans hr₁))
  obtain ⟨s', o, o', hs, hpost, -⟩ := run_cons_iff.mp hrest
  have hc := counted_run hr
  obtain ⟨hsent, hframes, -⟩ := grows hrest
  obtain ⟨hsent', hframes', hover'⟩ := grows hpost
  have hnoerr (j : ℕ) (err' : ReadOneError) (hj : s'.sent[j]? = some (.error err'))
      (hlt : j < s.frames.length) : False := by
    have hget := sent_get ht hsent' hj (Nat.lt_of_lt_of_le hlt hframes.length_le)
    cases hf : t.frames[j]? with
    | none => simp [hf] at hget
    | some b => simp [hf] at hget
  cases step_effect hs with
  | quiet _ _ _ _ _ he hkind =>
    refine ⟨fun h => by simp [he] at h, ?_⟩
    cases e with
    | deliver i => exact absurd rfl (hkind.2 i)
    | written ok =>
      cases ok with
      | true => rfl
      | false => exact absurd rfl hkind.1
    | _ => trivial
  | frame b _ _ _ _ _ _ he => exact ⟨fun h => by simp [he] at h, trivial⟩
  | ended err' hphase _ _ _ _ hsent₁ he =>
    refine ⟨fun _ => ?_, ?_⟩
    · by_contra hne
      have hcount := (hc.open_ fun hp => hphase (Or.inl hp)).1
      have hpos := List.length_pos_iff.mpr hne
      refine hnoerr s.sent.length err' ?_ (by omega)
      rw [hsent₁, List.getElem?_append_right (Nat.le_refl _), Nat.sub_self]
      rfl
    · cases e with
      | deliver i => cases he
      | written ok => cases he
      | _ => trivial
  | panicked _ hphase' =>
    have ht' : t.phase = .panicked := (hover' (Or.inr hphase')).1.trans hphase'
    obtain ⟨-, hok⟩ := (counted_run h).open_ (by simp [ht'])
    obtain ⟨b, hb⟩ := hok (.error err) (by simp [ht])
    cases hb
  | delivered i b hb hphase _ _ _ hsent₁ =>
    refine ⟨fun h => (nomatch h), ?_⟩
    have hi := (List.getElem?_eq_some_iff.mp hb).1
    by_cases hp : s.phase = .ended
    · obtain ⟨hcount, err', herr⟩ := hc.ended hp
      obtain ⟨j, hj⟩ := List.mem_iff_getElem?.mp herr
      have hj' := (List.getElem?_eq_some_iff.mp hj).1
      refine (hnoerr j err' ?_ (by omega)).elim
      rw [hsent₁, List.getElem?_append_left hj', hj]
    · have hcount := (hc.open_ hp).1
      have hlt : s.sent.length < s.frames.length := by omega
      have hj : s'.sent[s.sent.length]? = some (.ok b) := by
        rw [hsent₁, List.getElem?_append_right (Nat.le_refl _), Nat.sub_self]
        rfl
      have hget := sent_get ht hsent' hj (Nat.lt_of_lt_of_le hlt hframes.length_le)
      obtain ⟨rest, hrest⟩ := hframes
      rw [← hrest, List.getElem?_append_left hlt] at hget
      change s.tasks[i]? = s.frames[s.sent.length]?
      rw [hb]
      cases hf : s.frames[s.sent.length]? with
      | none => simp [hf] at hget
      | some b' =>
        rw [hf] at hget
        cases hget
        rfl
  | read => exact ⟨fun h => (nomatch h), trivial⟩

/-- Once `start_poll` is over and everything sent is read, the reads have yielded the frames in
order and then the final error exactly when every event was in order. -/
theorem received_iff (h : run (step R) {} es = some (s, os)) (hover : s.Over)
    (hinbox : s.inbox = []) :
    (∃ err, os = s.frames.map .ok ++ [.error err]) ↔ Meets (Ordered R) (step R) {} es := by
  have hos : os = s.sent := by
    rw [← received_run h, hinbox, List.append_nil]
  rw [hos]
  constructor
  · rintro ⟨err, herr⟩
    exact ordered_of_sent h herr
  · intro hm
    have hi := inOrder_run hm h
    rcases hover with hp | hp
    · exact (hi.ended hp).2
    · exact absurd hp hi.alive

/-! ## Two frames -/

namespace Sample

/-- Two frames arrive and are read, and the remote closes. -/
def polls : List Event :=
  [.arrive (frame [1] ++ frame [2]), .poll true, .poll true, .finish]

def reads : List Event := [.read, .read, .read]

def inOrder : List Event := polls ++ [.deliver 0, .deliver 0, .poll true] ++ reads

def swapped : List Event := polls ++ [.deliver 1, .deliver 0, .poll true] ++ reads

end Sample

/-- The tasks run in order before the end is read. -/
theorem received_inOrder : ∃ s os,
    run (step .lengthPrefixed) {} Sample.inOrder = some (s, os) ∧
    ∃ err, os = s.frames.map .ok ++ [.error err] := by
  obtain ⟨s, os, hr, hs⟩ := exists_run (step .lengthPrefixed) {} Sample.inOrder
    (fun r => decide (r.1.phase = .ended ∧ r.1.inbox = [])) (by decide)
  obtain ⟨hphase, hinbox⟩ := of_decide_eq_true hs
  have hm : Meets (Ordered .lengthPrefixed) (step .lengthPrefixed) {} Sample.inOrder :=
    Meets.of_meets (by decide)
  exact ⟨s, os, hr, (received_iff hr (Or.inl hphase) hinbox).mpr hm⟩

/-- The tasks run in the other order. -/
theorem not_received_swapped : ∃ s,
    run (step .lengthPrefixed) {} Sample.swapped =
      some (s, [.ok [2], .ok [1], .error (.io "stream read len zero")]) ∧
    s.phase = .ended ∧ s.tasks = [] ∧ s.inbox = [] ∧ s.frames = [[1], [2]] :=
  ⟨_, rfl, rfl, rfl, rfl, rfl⟩

end WhiteNoise.Stream.StartPoll
