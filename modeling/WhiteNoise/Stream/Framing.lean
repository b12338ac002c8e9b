import WhiteNoise.Stream.StartPoll

/-! # Frame synchronisation

The bytes of a partly read frame are inside the read future. A command that
wins the select drops the future, and the frames stay in step with the bytes
exactly when this never happens with bytes inside.
-/

namespace WhiteNoise.Stream.StartPoll

open Wire Process

variable {R : Reader} {s s' t : StartPoll} {e : Event} {es : List Event}
  {o os : List ReadResult} {fs : List Bytes}

/-- The event is about frames that arrive and data that is written without failure. -/
def Incoming : Event → Prop
  | .arrive _ | .command (.data _) | .poll _ | .deliver _ | .read => True
  | .written ok => ok = true
  | .finish | .command .close | .closed => False

/-- The bytes that become readable. -/
def arrived (es : List Event) : Bytes :=
  es.flatMap fun e => match e with
    | .arrive b => b
    | _ => []

/-- The bytes inside the read future that the select drops. -/
def dropped (R : Reader) (s : StartPoll) : Event → Bytes
  | .poll readFirst =>
    if s.out = [] then []
    else if readFirst then
      match R.readOne readLimit (s.held ++ s.readable) s.eof with
      | none => s.held ++ s.readable
      | some _ => []
    else s.held
  | _ => []

/-- No command wins the select while the read future holds bytes. -/
def Keeps (R : Reader) (s : StartPoll) (e : Event) : Prop := dropped R s e = []

instance (s : StartPoll) (e : Event) : Decidable (Keeps R s e) :=
  inferInstanceAs (Decidable (_ = _))

/-- What one poll does with the bytes. -/
inductive Polled (R : Reader) (s : StartPoll) (readFirst : Bool) : StartPoll → Prop
  | out (d : WrapedData) (rest : List WrapedData) (readable : Bytes) (hout : s.out = d :: rest)
      (hdrop : dropped R s (.poll readFirst) ++ readable = s.held ++ s.readable) :
      Polled R s readFirst
        (branch (some (.out d)) { s with out := rest, held := [], readable })
  | read (res : ReadResult) (rest : Bytes)
      (hread : R.readOne readLimit (s.held ++ s.readable) s.eof = some (res, rest))
      (hdrop : dropped R s (.poll readFirst) = []) :
      Polled R s readFirst (branch (some (.read res)) { s with held := [], readable := rest })
  | waits (hread : R.readOne readLimit (s.held ++ s.readable) s.eof = none)
      (hdrop : dropped R s (.poll readFirst) = []) :
      Polled R s readFirst { s with held := s.held ++ s.readable, readable := [] }

theorem polled (s : StartPoll) (readFirst : Bool) :
    Polled R s readFirst (s.poll R readFirst) := by
  cases hout : s.out with
  | nil =>
    have hdrop : dropped R s (.poll readFirst) = [] := if_pos hout
    cases hread : R.readOne readLimit (s.held ++ s.readable) s.eof with
    | none =>
      have hpoll : s.poll R readFirst =
          { s with held := s.held ++ s.readable, readable := [] } := by
        cases readFirst <;> simp [poll, select, hout, hread, branch]
      rw [hpoll]
      exact .waits hread hdrop
    | some r =>
      have hpoll : s.poll R readFirst =
          branch (some (.read r.1)) { s with held := [], readable := r.2 } := by
        cases readFirst <;> simp [poll, select, hout, hread]
      rw [hpoll]
      exact .read r.1 r.2 hread hdrop
  | cons d rest =>
    cases readFirst with
    | false =>
      have hpoll : s.poll R false =
          branch (some (.out d)) { s with out := rest, held := [], readable := s.readable } := by
        simp [poll, select, hout]
      rw [hpoll]
      exact .out d rest s.readable hout (by simp [dropped, hout])
    | true =>
      cases hread : R.readOne readLimit (s.held ++ s.readable) s.eof with
      | none =>
        have hpoll : s.poll R true =
            branch (some (.out d)) { s with out := rest, held := [], readable := [] } := by
          simp [poll, select, hout, hread]
        rw [hpoll]
        exact .out d rest [] hout (by simp [dropped, hout, hread])
      | some r =>
        have hpoll : s.poll R true =
            branch (some (.read r.1)) { s with held := [], readable := r.2 } := by
          simp [poll, select, hout, hread]
        rw [hpoll]
        exact .read r.1 r.2 hread (by simp [dropped, hout, hread])

/-! ## Runs that drop nothing -/

/-- The frames read are the first ones, and the bytes behind them are all there. -/
structure InSync (R : Reader) (fs : List Bytes) (received : Bytes) (s : StartPoll) : Prop where
  eof : s.eof = false
  phase : s.phase = .selecting ∨ s.phase = .writing
  out : ∀ d ∈ s.out, d ≠ .close
  waits : R.readOne readLimit s.held false = none
  bytes : s.frames.flatMap frame ++ (s.held ++ s.readable) = received
  frames : s.frames <+: fs

theorem readOne_nil : R.readOne readLimit [] false = none := by
  have hlen : ([0] : Bytes).length ≤ readLimit := by decide
  exact R.part hlen List.nil_prefix (by decide)

/-- The reader finds the next frame or waits for it. -/
theorem readOne_next (hfs : ∀ f ∈ fs, f ≠ [] ∧ f.length ≤ readLimit) {b : Bytes}
    (hb : b <+: fs.flatMap frame) :
    (R.readOne readLimit b false = none ∧ (b = fs.flatMap frame → fs = [])) ∨
    ∃ f fs' rest, fs = f :: fs' ∧ b = frame f ++ rest ∧ rest <+: fs'.flatMap frame ∧
      R.readOne readLimit b false = some (.ok f, rest) := by
  cases fs with
  | nil =>
    obtain rfl := List.prefix_nil.mp hb
    exact Or.inl ⟨readOne_nil, fun _ => rfl⟩
  | cons f fs =>
    obtain ⟨hne, hlen⟩ := hfs f List.mem_cons_self
    rw [List.flatMap_cons] at hb ⊢
    by_cases hf : frame f <+: b
    · obtain ⟨rest, rfl⟩ := hf
      exact Or.inr ⟨f, fs, rest, rfl, rfl, (List.prefix_append_right_inj _).mp hb,
        R.whole rest false hlen⟩
    · have hpart : b <+: frame f :=
        (List.prefix_or_prefix_of_prefix hb (List.prefix_append ..)).resolve_right hf
      refine Or.inl ⟨R.part hlen hpart fun heq => hf (heq ▸ List.prefix_rfl), fun heq => ?_⟩
      exact absurd (heq ▸ List.prefix_append ..) hf

theorem arrived_append (es es' : List Event) : arrived (es ++ es') = arrived es ++ arrived es' :=
  List.flatMap_append ..

theorem InSync.poll {received : Bytes} (h : InSync R fs received s)
    (hfs : ∀ f ∈ fs, f ≠ [] ∧ f.length ≤ readLimit) (hpre : received <+: fs.flatMap frame)
    {readFirst : Bool} (hk : Keeps R s (.poll readFirst)) (hphase : s.phase = .selecting) :
    InSync R fs received (s.poll R readFirst) := by
  obtain ⟨fs', hfs'⟩ := h.frames
  have hnext : s.held ++ s.readable <+: fs'.flatMap frame := by
    rw [← h.bytes, ← hfs', List.flatMap_append] at hpre
    exact (List.prefix_append_right_inj _).mp hpre
  have hlim : ∀ f ∈ fs', f ≠ [] ∧ f.length ≤ readLimit := by
    intro f hf
    exact hfs f (hfs' ▸ List.mem_append_right _ hf)
  have hpolled := polled (R := R) s readFirst
  generalize s.poll R readFirst = s' at hpolled ⊢
  cases hpolled with
  | out d rest readable hout hdrop =>
    have hbytes : readable = s.held ++ s.readable := by
      rwa [show dropped R s (.poll readFirst) = [] from hk, List.nil_append] at hdrop
    have hrest : ∀ d' ∈ rest, d' ≠ .close := by
      intro d' hd'
      exact h.out d' (hout ▸ List.mem_cons_of_mem _ hd')
    cases d with
    | close => exact absurd rfl (h.out .close (hout ▸ List.mem_cons_self))
    | data b =>
      refine ⟨h.eof, Or.inr rfl, hrest, readOne_nil, ?_, h.frames⟩
      rw [hbytes]
      exact h.bytes
  | read res rest hread =>
    rw [h.eof] at hread
    rcases readOne_next hlim hnext with ⟨hnone, -⟩ | ⟨f, fs'', rest', rfl, hb, -, hsome⟩
    · rw [hnone] at hread
      cases hread
    · rw [hsome] at hread
      cases hread
      obtain ⟨hne, -⟩ := hlim f List.mem_cons_self
      cases f with
      | nil => exact absurd rfl hne
      | cons x f =>
        refine ⟨h.eof, Or.inl hphase, h.out, readOne_nil, ?_, fs'', ?_⟩
        · change (s.frames ++ [x :: f]).flatMap frame ++ ([] ++ rest) = received
          rw [← h.bytes, hb, List.flatMap_append, List.append_assoc]
          simp
        · change s.frames ++ [x :: f] ++ fs'' = fs
          rw [← hfs', List.append_assoc]
          rfl
  | waits hread =>
    rw [h.eof] at hread
    refine ⟨h.eof, h.phase, h.out, hread, ?_, h.frames⟩
    rw [List.append_nil]
    exact h.bytes

theorem InSync.step {received : Bytes} (h : InSync R fs received s)
    (hfs : ∀ f ∈ fs, f ≠ [] ∧ f.length ≤ readLimit)
    (hpre : received ++ arrived [e] <+: fs.flatMap frame) (hi : Incoming e) (hk : Keeps R s e)
    (hs : step R s e = some (s', o)) : InSync R fs (received ++ arrived [e]) s' := by
  cases e with
  | arrive b =>
    simp only [StartPoll.step, h.eof] at hs
    cases hs
    refine ⟨rfl, h.phase, h.out, h.waits, ?_, h.frames⟩
    change s.frames.flatMap frame ++ (s.held ++ (s.readable ++ b)) = received ++ (b ++ [])
    rw [← h.bytes]
    simp
  | command d =>
    cases d with
    | close => cases hi
    | data b =>
      cases hs
      refine ⟨h.eof, h.phase, ?_, h.waits, by simpa [arrived] using h.bytes, h.frames⟩
      intro d hd
      rcases List.mem_append.mp hd with hd | hd
      · exact h.out d hd
      · rw [List.mem_singleton.mp hd]
        simp
  | poll readFirst =>
    simp only [StartPoll.step] at hs
    split at hs
    · next hphase =>
      cases hs
      rw [show received ++ arrived [.poll readFirst] = received from List.append_nil _] at hpre ⊢
      exact h.poll hfs hpre hk hphase
    · cases hs
  | written ok =>
    simp only [StartPoll.step] at hs
    split at hs
    · obtain rfl : ok = true := hi
      cases hs
      exact ⟨h.eof, Or.inl rfl, h.out, h.waits, by simpa [arrived] using h.bytes, h.frames⟩
    · cases hs
  | deliver i =>
    simp only [StartPoll.step] at hs
    split at hs
    · cases hs
    · cases hs
      exact ⟨h.eof, h.phase, h.out, h.waits, by simpa [arrived, send] using h.bytes, h.frames⟩
  | read =>
    simp only [StartPoll.step] at hs
    split at hs
    · cases hs
    · cases hs
      exact ⟨h.eof, h.phase, h.out, h.waits, by simpa [arrived] using h.bytes, h.frames⟩
  | finish | closed => cases hi

/-- As long as nothing is dropped, the frames read are the first ones of the byte stream. -/
theorem inSync_run (hfs : ∀ f ∈ fs, f ≠ [] ∧ f.length ≤ readLimit) (hi : ∀ e ∈ es, Incoming e)
    (hpre : arrived es <+: fs.flatMap frame) (hm : Meets (Keeps R) (step R) {} es)
    (h : run (step R) {} es = some (s, os)) : InSync R fs (arrived es) s := by
  revert hi hpre
  refine run_induction_meets (P := fun es s _ => (∀ e ∈ es, Incoming e) →
    arrived es <+: fs.flatMap frame → InSync R fs (arrived es) s) ?_ ?_ hm h
  · intro _ _
    exact ⟨rfl, Or.inl rfl, by simp, readOne_nil, rfl, List.nil_prefix⟩
  · intro es t os e t' o ih hk hs hi hpre
    rw [arrived_append] at hpre ⊢
    have hes := ih (fun e he => hi e (List.mem_append_left _ he))
      ((List.prefix_append ..).trans hpre)
    exact hes.step hfs hpre (hi e (by simp)) hk hs

/-! ## Bytes and frames -/

/-- The bytes of the frames read and those that can still become a frame. -/
def weight (s : StartPoll) : ℕ :=
  (s.frames.flatMap frame).length +
    if s.phase = .ended then 0 else s.held.length + s.readable.length

theorem poll_weight (hphase : s.phase = .selecting) (readFirst : Bool) :
    (s.poll R readFirst).weight + (dropped R s (.poll readFirst)).length ≤ s.weight := by
  have hweight : s.weight =
      (s.frames.flatMap frame).length + (s.held ++ s.readable).length := by
    rw [weight, if_neg (by simp [hphase]), List.length_append]
  have hpolled := polled (R := R) s readFirst
  rw [hweight]
  generalize s.poll R readFirst = s' at hpolled ⊢
  cases hpolled with
  | out d rest readable hout hdrop =>
    rw [← hdrop, List.length_append]
    cases d <;> simp [weight, branch] <;> omega
  | read res rest hread hdrop =>
    rw [hdrop]
    cases res with
    | error err => simp [weight, branch, send]
    | ok b =>
      cases b with
      | nil => simp [weight, branch, send]
      | cons x b =>
        have hle := R.consumes hread (List.cons_ne_nil x b)
        simp only [weight, branch, hphase, List.flatMap_append, List.length_append,
          List.flatMap_cons, List.flatMap_nil, List.append_nil, List.length_nil] at hle ⊢
        simp
        omega
  | waits hread hdrop =>
    rw [hdrop]
    simp [weight, hphase]

theorem step_weight (hs : step R s e = some (s', o)) :
    s'.weight + (dropped R s e).length ≤ s.weight + (arrived [e]).length := by
  cases e with
  | arrive b =>
    simp only [step] at hs
    split at hs
    · cases hs
    · cases hs
      by_cases hp : s.phase = .ended
      · simp [weight, dropped, hp]
      · simp [weight, dropped, arrived, hp]
        omega
  | finish | command =>
    cases hs
    exact Nat.le_refl _
  | poll readFirst =>
    simp only [step] at hs
    split at hs
    · next hphase =>
      cases hs
      exact poll_weight hphase readFirst
    · cases hs
  | written ok =>
    simp only [step] at hs
    split at hs
    · next hphase =>
      cases hs
      cases ok <;> simp [weight, dropped, arrived, hphase]
    · cases hs
  | closed =>
    simp only [step] at hs
    split at hs
    · cases hs
      simp only [weight, send, dropped, List.length_nil]
      simp
      omega
    · cases hs
  | deliver i =>
    simp only [step] at hs
    split at hs
    · cases hs
    · cases hs
      exact Nat.le_refl _
  | read =>
    simp only [step] at hs
    split at hs
    · cases hs
    · cases hs
      exact Nat.le_refl _

theorem run_weight (h : run (step R) s es = some (t, os)) :
    t.weight ≤ s.weight + (arrived es).length := by
  refine run_induction (P := fun es t _ => t.weight ≤ s.weight + (arrived es).length)
    (Nat.le_add_right ..) ?_ h
  intro es t os e t' o ih hs
  have hstep := step_weight hs
  rw [arrived_append, List.length_append]
  omega

/-- If all frames are read, nothing was dropped. -/
theorem keeps_of_frames (h : run (step R) {} es = some (t, os))
    (ht : (arrived es).length ≤ (t.frames.flatMap frame).length) :
    Meets (Keeps R) (step R) {} es := by
  rintro pre e post s o₁ rfl hr
  obtain ⟨s₁, o₁', o₂, hr₁, hrest, -⟩ := run_append_iff.mp h
  obtain ⟨rfl, -⟩ := Prod.mk.inj (Option.some.inj (hr.symm.trans hr₁))
  obtain ⟨s', o, o', hs, hpost, -⟩ := run_cons_iff.mp hrest
  have hpre := run_weight hr
  have hstep := step_weight hs
  have hweight := run_weight hpost
  have hzero : weight {} = 0 := rfl
  have hframes : (t.frames.flatMap frame).length ≤ t.weight := Nat.le_add_right ..
  have harr : (arrived (pre ++ e :: post)).length =
      (arrived pre).length + ((arrived [e]).length + (arrived post).length) := by
    rw [show pre ++ e :: post = pre ++ ([e] ++ post) from rfl, arrived_append, arrived_append,
      List.length_append, List.length_append]
  exact List.eq_nil_of_length_eq_zero (by omega)

/-- Once all frames have arrived and `start_poll` has polled for all that is readable, the frames
it has extracted are these frames exactly when it never dropped a byte. -/
theorem extracted_iff (hfs : ∀ f ∈ fs, f ≠ [] ∧ f.length ≤ readLimit)
    (hi : ∀ e ∈ es, Incoming e) (harr : arrived es = fs.flatMap frame)
    (h : run (step R) {} es = some (s, os))
    (hidle : s.phase = .ended ∨ s.phase = .selecting ∧ s.readable = []) :
    s.frames = fs ↔ Meets (Keeps R) (step R) {} es := by
  constructor
  · rintro rfl
    exact keeps_of_frames h (Nat.le_of_eq (by rw [harr]))
  · intro hm
    have hsync := inSync_run hfs hi (harr ▸ List.prefix_rfl) hm h
    obtain ⟨fs', hfs'⟩ := hsync.frames
    have hreadable : s.readable = [] := by
      rcases hidle with hp | ⟨-, hr⟩
      · rcases hsync.phase with hp' | hp' <;> simp [hp] at hp'
      · exact hr
    have hheld : s.held = fs'.flatMap frame := by
      have hbytes := hsync.bytes
      rw [harr, ← hfs', hreadable, List.append_nil, List.flatMap_append] at hbytes
      exact List.append_cancel_left hbytes
    have hlim : ∀ f ∈ fs', f ≠ [] ∧ f.length ≤ readLimit := by
      intro f hf
      exact hfs f (hfs' ▸ List.mem_append_right _ hf)
    have hpre : s.held <+: fs'.flatMap frame := ⟨[], by rw [List.append_nil, hheld]⟩
    rcases readOne_next (R := R) hlim hpre with
      ⟨-, hnil⟩ | ⟨f, fs'', rest, -, -, -, hsome⟩
    · rw [← hfs', hnil hheld, List.append_nil]
    · rw [hsync.waits] at hsome
      cases hsome

/-! ## A command in the middle of a frame -/

namespace Sample

def wholes : List Event :=
  [.arrive (frame [1]), .command (.data [9]), .poll true, .poll true, .written true,
    .arrive (frame [2]), .poll true, .poll true]

/-- The length byte of the second frame has been read when the command is taken. -/
def torn : List Event :=
  [.arrive (frame [1] ++ [1]), .poll true, .poll true, .command (.data [9]), .poll true,
    .written true, .arrive [2], .poll true]

end Sample

theorem extracted_wholes : ∃ s os,
    run (step .lengthPrefixed) {} Sample.wholes = some (s, os) ∧ s.frames = [[1], [2]] := by
  obtain ⟨s, os, hr, hs⟩ := exists_run (step .lengthPrefixed) {} Sample.wholes
    (fun r => decide (r.1.phase = .selecting ∧ r.1.readable = [])) (by decide)
  have hm : Meets (Keeps .lengthPrefixed) (step .lengthPrefixed) {} Sample.wholes :=
    Meets.of_meets (by decide)
  have harr : arrived Sample.wholes = [[1], [2]].flatMap frame := by decide
  refine ⟨s, os, hr, (extracted_iff (by decide) ?_ harr hr
    (Or.inr (of_decide_eq_true hs))).mpr hm⟩
  simp [Sample.wholes, Incoming]

theorem not_extracted_torn : ∃ s,
    run (step .lengthPrefixed) {} Sample.torn = some (s, []) ∧
    arrived Sample.torn = [[1], [2]].flatMap frame ∧ (∀ e ∈ Sample.torn, Incoming e) ∧
    s.phase = .selecting ∧ s.readable = [] ∧ s.frames = [[1]] :=
  ⟨_, rfl, rfl, by simp [Sample.torn, Incoming], rfl, rfl, rfl⟩

end WhiteNoise.Stream.StartPoll
