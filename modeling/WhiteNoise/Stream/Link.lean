import WhiteNoise.Process.Flow
import WhiteNoise.Process.Refinement
import WhiteNoise.Stream.Framing
import WhiteNoise.Stream.Order

/-! # Both ends of a substream

The loops behind the two ends of a substream write to each other. A frame is written
piece by piece, and its bytes come in at the other end in pieces of another size. If
the receiver drops no read and its tasks run in turn, its readers get what was written
at the other end, in order, and all of it once nothing is under way and the loop waits
or has seen the end of the stream.
-/

namespace WhiteNoise.Stream

open Wire Process

/-- What is not a frame by the end of the stream is an error or an empty read. -/
structure Reader.Strict (R : Reader) : Prop where
  cut : ∀ {max b res rest}, R.readOne max b false = none → R.readOne max b true = some (res, rest) →
    res = .ok [] ∨ ∃ err, res = .error err

theorem Reader.lengthPrefixed_strict : Reader.lengthPrefixed.Strict where
  cut {max b res rest} hnone h := by
    simp only [Reader.lengthPrefixed, readLengthPrefixed] at hnone h
    cases hd : Varint.decode b with
    | none =>
      simp only [hd, if_true] at h
      split at h <;> cases h
      · exact Or.inl rfl
      · exact Or.inr ⟨_, rfl⟩
    | some x =>
      simp only [hd] at hnone h
      split at hnone
      · cases hnone
      · next hmax =>
        rw [if_neg hmax] at h
        split at hnone
        · cases hnone
        · next hlen =>
          rw [if_neg hlen, if_pos trivial] at h
          cases h
          exact Or.inr ⟨_, rfl⟩

/-- The data in a command. -/
def WrapedData.bytes : WrapedData → Option Bytes
  | .data b => some b
  | .close => none

variable {R : Reader} {fs : List Bytes} {received : Bytes}

/-! ## One loop -/

namespace StartPoll

variable {s s' : StartPoll} {e : Event} {es : List Event} {o os : List ReadResult}

/-- The data that the loop is told to write. -/
def commanded (es : List Event) : List Bytes :=
  es.filterMap fun
    | .command d => d.bytes
    | _ => none

/-- The frames that the readers get. -/
def delivered (os : List ReadResult) : List Bytes := os.filterMap Except.toOption

/-- The data that the loop takes up in the event. -/
def taken (R : Reader) (s : StartPoll) : Event → Option Bytes
  | .poll readFirst =>
    match (s.select R readFirst).1 with
    | some (.out d) => d.bytes
    | _ => none
  | _ => none

/-- The select completes with a command, or it leaves the commands alone. -/
theorem select_out (readFirst : Bool) (s : StartPoll) :
    (∃ d, (s.select R readFirst).1 = some (.out d) ∧ s.out = d :: (s.select R readFirst).2.out) ∨
    (∀ d, (s.select R readFirst).1 ≠ some (.out d)) ∧ (s.select R readFirst).2.out = s.out := by
  unfold select
  split
  · next d out hout => exact Or.inl ⟨d, rfl, hout⟩
  · split
    · exact Or.inr ⟨by simp, rfl⟩
    · split
      · next d out hout => exact Or.inl ⟨d, rfl, hout⟩
      · exact Or.inr ⟨by simp, rfl⟩

theorem branch_out (ready : Option Ready) (s : StartPoll) : (s.branch ready).out = s.out := by
  unfold branch
  split <;> rfl

/-- A loop that selects again has taken up no data. -/
theorem poll_taken (readFirst : Bool) (s : StartPoll) :
    Flow (s.taken R (.poll readFirst)).toList [] (s.out.filterMap WrapedData.bytes)
      ((s.poll R readFirst).out.filterMap WrapedData.bytes) ∧
    ((s.poll R readFirst).phase = .selecting → s.taken R (.poll readFirst) = none) := by
  have hpoll : (s.poll R readFirst).out = (s.select R readFirst).2.out := branch_out _ _
  rw [hpoll]
  rcases select_out (R := R) readFirst s with ⟨d, hsel, hout⟩ | ⟨hne, hout⟩
  · have htaken : s.taken R (.poll readFirst) = d.bytes := by rw [taken, hsel]
    rw [htaken, hout]
    refine ⟨?_, fun hphase => ?_⟩
    · cases d with
      | close => exact .refl _
      | data b => exact .take [b] _
    · rw [poll, hsel] at hphase
      cases d <;> cases hphase
  · have htaken : s.taken R (.poll readFirst) = none := by
      rw [taken]
      split
      · next d hsel => exact absurd hsel (hne d)
      · rfl
    rw [htaken, hout]
    exact ⟨.refl _, fun _ => rfl⟩

/-- The data go through the queue of commands and are taken up by a loop that selects. -/
theorem step_taken (h : step R s e = some (s', o)) :
    Flow (s.taken R e).toList (commanded [e]) (s.out.filterMap WrapedData.bytes)
      (s'.out.filterMap WrapedData.bytes) ∧
    ((s.taken R e).isSome → s.phase = .selecting) ∧
    (s'.phase = .selecting → s.taken R e = none ∧ (s.phase = .selecting ∨ e = .written true)) := by
  cases e with
  | poll readFirst =>
    simp only [step] at h
    split at h
    · next hphase =>
      cases h
      obtain ⟨hflow, hnext⟩ := poll_taken (R := R) readFirst s
      exact ⟨hflow, fun _ => hphase, fun h => ⟨hnext h, Or.inl hphase⟩⟩
    · cases h
  | command d =>
    cases h
    refine ⟨?_, by simp [taken], fun h => ⟨rfl, Or.inl h⟩⟩
    rw [List.filterMap_append]
    cases d with
    | close => exact .put [] _
    | data b => exact .put [b] _
  | arrive b =>
    simp only [step] at h
    split at h <;> cases h
    exact ⟨.refl _, by simp [taken], fun h => ⟨rfl, Or.inl h⟩⟩
  | finish =>
    cases h
    exact ⟨.refl _, by simp [taken], fun h => ⟨rfl, Or.inl h⟩⟩
  | written ok =>
    simp only [step] at h
    split at h <;> cases h
    refine ⟨.refl _, by simp [taken], fun h => ⟨rfl, Or.inr ?_⟩⟩
    cases ok with
    | true => rfl
    | false => cases h
  | closed =>
    simp only [step] at h
    split at h <;> cases h
    exact ⟨.refl _, by simp [taken], by rintro ⟨⟩⟩
  | deliver i =>
    simp only [step] at h
    split at h <;> cases h
    exact ⟨.refl _, by simp [taken], fun h => ⟨rfl, Or.inl h⟩⟩
  | read =>
    simp only [step] at h
    split at h <;> cases h
    exact ⟨.refl _, by simp [taken], fun h => ⟨rfl, Or.inl h⟩⟩

/-! ## What the receiver reads -/

/-- The error that a loop sends to its readers when it closes the stream itself. -/
def activeClose : ReadResult := .error (.io "active close stream")

/-- As long as the loop runs, the bytes behind its frames are all there, and a read that it holds
has waited for more. A loop that has ended without closing the stream has left no whole frame. -/
structure Tracks (R : Reader) (fs : List Bytes) (received : Bytes) (s : StartPoll) : Prop where
  frames : s.frames <+: fs
  bytes : ¬ s.Over → s.frames.flatMap frame ++ (s.held ++ s.readable) = received
  waits : s.eof = false → R.readOne readLimit s.held false = none
  ended : s.phase = .ended → activeClose ∈ s.sent ∨ s.eof ∧ ∃ b,
    s.frames.flatMap frame ++ b = received ∧ R.readOne readLimit b false = none

theorem Tracks.poll (h : Tracks R fs received s) (hR : R.Strict)
    (hfs : ∀ f ∈ fs, f ≠ [] ∧ f.length ≤ readLimit) (hpre : received <+: fs.flatMap frame)
    {readFirst : Bool} (hk : Keeps R s (.poll readFirst)) (hphase : s.phase = .selecting) :
    Tracks R fs received (s.poll R readFirst) := by
  have hbytes := h.bytes (not_over_selecting hphase)
  obtain ⟨fs', hfs'⟩ := h.frames
  have hnext : s.held ++ s.readable <+: fs'.flatMap frame := by
    rw [← hbytes, ← hfs', List.flatMap_append] at hpre
    exact (List.prefix_append_right_inj _).mp hpre
  have hlim : ∀ f ∈ fs', f ≠ [] ∧ f.length ≤ readLimit :=
    fun f hf => hfs f (hfs' ▸ List.mem_append_right _ hf)
  have hpolled := polled (R := R) s readFirst
  generalize s.poll R readFirst = s' at hpolled ⊢
  cases hpolled with
  | out d rest readable hout hdrop =>
    have hreadable : readable = s.held ++ s.readable := by
      rwa [show dropped R s (.poll readFirst) = [] from hk, List.nil_append] at hdrop
    subst hreadable
    cases d <;> exact ⟨h.frames, fun _ => hbytes, fun _ => readOne_nil, by rintro ⟨⟩⟩
  | read res rest hread =>
    rcases readOne_next hlim hnext with ⟨hnone, -⟩ | ⟨f, fs'', rest', rfl, hb, -, -⟩
    · -- no whole frame is there, so the stream has ended
      cases heof : s.eof with
      | false =>
        rw [heof, hnone] at hread
        cases hread
      | true =>
        rw [heof] at hread
        have hleft : ∃ b, s.frames.flatMap frame ++ b = received ∧
            R.readOne readLimit b false = none := ⟨_, hbytes, hnone⟩
        rcases hR.cut hnone hread with rfl | ⟨err, rfl⟩
        · exact ⟨h.frames, fun hover => absurd (Or.inl rfl) hover, fun _ => readOne_nil,
            fun _ => Or.inr ⟨rfl, hleft⟩⟩
        · exact ⟨h.frames, fun hover => absurd (Or.inl rfl) hover, fun _ => readOne_nil,
            fun _ => Or.inr ⟨rfl, hleft⟩⟩
    · obtain ⟨hne, hlen⟩ := hlim f List.mem_cons_self
      rw [hb, R.whole rest' _ hlen] at hread
      cases hread
      cases f with
      | nil => exact absurd rfl hne
      | cons x f =>
        refine ⟨⟨fs'', ?_⟩, fun _ => ?_, fun _ => readOne_nil, fun hend => ?_⟩
        · change s.frames ++ [x :: f] ++ fs'' = fs
          rw [← hfs', List.append_assoc]
          rfl
        · change (s.frames ++ [x :: f]).flatMap frame ++ ([] ++ rest) = received
          rw [← hbytes, hb, List.flatMap_append, List.append_assoc]
          simp
        · cases hphase.symm.trans hend
  | waits hread =>
    refine ⟨h.frames, fun _ => ?_, fun heof => ?_, fun hend => ?_⟩
    · rw [List.append_nil]
      exact hbytes
    · rwa [show s.eof = false from heof] at hread
    · cases hphase.symm.trans hend

theorem Tracks.step (h : Tracks R fs received s) (hR : R.Strict)
    (hfs : ∀ f ∈ fs, f ≠ [] ∧ f.length ≤ readLimit)
    (hpre : received ++ arrived [e] <+: fs.flatMap frame) (hk : Keeps R s e)
    (hs : step R s e = some (s', o)) : Tracks R fs (received ++ arrived [e]) s' := by
  cases e with
  | arrive b =>
    simp only [StartPoll.step] at hs
    split at hs
    · cases hs
    · next heof =>
      cases hs
      refine ⟨h.frames, fun hover => ?_, h.waits, fun hend => ?_⟩
      · change s.frames.flatMap frame ++ (s.held ++ (s.readable ++ b)) = received ++ (b ++ [])
        rw [← h.bytes hover]
        simp
      · exact Or.inl ((h.ended hend).resolve_right fun hleft => heof hleft.1)
  | poll readFirst =>
    simp only [StartPoll.step] at hs
    split at hs
    · next hphase =>
      cases hs
      rw [show received ++ arrived [.poll readFirst] = received from List.append_nil _] at hpre ⊢
      exact h.poll hR hfs hpre hk hphase
    · cases hs
  | finish =>
    cases hs
    rw [show received ++ arrived [.finish] = received from List.append_nil _]
    exact ⟨h.frames, h.bytes, by rintro ⟨⟩, fun hend => (h.ended hend).imp_right fun hleft =>
      ⟨rfl, hleft.2⟩⟩
  | command d =>
    cases hs
    rw [show received ++ arrived [.command d] = received from List.append_nil _]
    exact ⟨h.frames, h.bytes, h.waits, h.ended⟩
  | written ok =>
    simp only [StartPoll.step] at hs
    split at hs
    · next hphase =>
      cases hs
      rw [show received ++ arrived [.written ok] = received from List.append_nil _]
      have hover : ¬ s.Over := by simp [Over, hphase]
      exact ⟨h.frames, fun _ => h.bytes hover, h.waits, by cases ok <;> rintro ⟨⟩⟩
    · cases hs
  | closed =>
    simp only [StartPoll.step] at hs
    split at hs
    · cases hs
      exact ⟨h.frames, fun hover => absurd (Or.inl rfl) hover, h.waits,
        fun _ => Or.inl (List.mem_append_right _ List.mem_cons_self)⟩
    · cases hs
  | deliver i =>
    simp only [StartPoll.step] at hs
    split at hs
    · cases hs
    · cases hs
      rw [show received ++ arrived [.deliver i] = received from List.append_nil _]
      exact ⟨h.frames, h.bytes, h.waits, fun hend =>
        (h.ended hend).imp_left fun hclose => List.mem_append_left _ hclose⟩
  | read =>
    simp only [StartPoll.step] at hs
    split at hs
    · cases hs
    · cases hs
      rw [show received ++ arrived [.read] = received from List.append_nil _]
      exact ⟨h.frames, h.bytes, h.waits, h.ended⟩

/-- As long as no read is dropped, the frames read are the first ones of the byte stream, also when
the stream ends or the loop does. -/
theorem tracks_run (hR : R.Strict) (hfs : ∀ f ∈ fs, f ≠ [] ∧ f.length ≤ readLimit)
    (hpre : arrived es <+: fs.flatMap frame) (hm : Meets (Keeps R) (StartPoll.step R) {} es)
    (h : run (StartPoll.step R) {} es = some (s, os)) : Tracks R fs (arrived es) s := by
  revert hpre
  refine run_induction_meets (P := fun es s _ => arrived es <+: fs.flatMap frame →
    Tracks R fs (arrived es) s) ?_ ?_ hm h
  · exact fun _ => ⟨List.nil_prefix, fun _ => rfl, fun _ => readOne_nil, by rintro ⟨⟩⟩
  · intro es t os e t' o ih hk hs hpre
    rw [arrived_append] at hpre ⊢
    exact (ih ((List.prefix_append ..).trans hpre)).step hR hfs hpre hk hs

/-- The readers wait, and so does the loop: all that has come in has been read. -/
structure Waits (s : StartPoll) : Prop where
  phase : s.phase = .selecting
  eof : s.eof = false
  readable : s.readable = []
  tasks : s.tasks = []
  inbox : s.inbox = []

/-- Once everything has come in and the loop waits or has seen the end, no frame is missing. -/
theorem Tracks.complete (h : Tracks R fs (fs.flatMap frame) s)
    (hfs : ∀ f ∈ fs, f ≠ [] ∧ f.length ≤ readLimit)
    (hend : s.Waits ∨ s.phase = .ended ∧ activeClose ∉ s.sent) : s.frames = fs := by
  have hleft : ∃ b, s.frames.flatMap frame ++ b = fs.flatMap frame ∧
      R.readOne readLimit b false = none := by
    rcases hend with hw | ⟨hphase, hclose⟩
    · have hbytes := h.bytes (not_over_selecting hw.phase)
      rw [hw.readable, List.append_nil] at hbytes
      exact ⟨s.held, hbytes, h.waits hw.eof⟩
    · exact ((h.ended hphase).resolve_left hclose).2
  obtain ⟨b, hbytes, hnone⟩ := hleft
  obtain ⟨fs', hfs'⟩ := h.frames
  have hb : b = fs'.flatMap frame := by
    rw [← hfs', List.flatMap_append] at hbytes
    exact List.append_cancel_left hbytes
  have hlim : ∀ f ∈ fs', f ≠ [] ∧ f.length ≤ readLimit :=
    fun f hf => hfs f (hfs' ▸ List.mem_append_right _ hf)
  have hpre : b <+: fs'.flatMap frame := ⟨[], by rw [List.append_nil, hb]⟩
  rcases readOne_next (R := R) hlim hpre with ⟨-, hnil⟩ | ⟨f, fs'', rest, -, -, -, hsome⟩
  · rw [← hfs', hnil hb, List.append_nil]
  · -- a whole frame that is left would have been read
    rw [hnone] at hsome
    cases hsome

theorem delivered_ok (l : List Bytes) : delivered (l.map .ok) = l := by
  rw [delivered, List.filterMap_map]
  exact List.filterMap_some

/-- The readers get the first frames, and all of them if the loop waits or has ended. -/
theorem delivered_frames (hm : Meets (Ordered R) (StartPoll.step R) {} es)
    (h : run (StartPoll.step R) {} es = some (s, os)) :
    delivered os <+: s.frames ∧ (s.Waits → os = s.frames.map .ok) ∧
      (s.phase = .ended → s.inbox = [] → ∃ err, os = s.frames.map .ok ++ [.error err]) := by
  have hread := received_run h
  have hi := inOrder_run hm h
  refine ⟨?_, fun hw => ?_, fun hp hinbox => ?_⟩
  · have hsent : delivered s.sent <+: s.frames := by
      by_cases hp : s.phase = .ended
      · obtain ⟨-, err, herr⟩ := hi.ended hp
        rw [herr, delivered, List.filterMap_append, ← delivered, delivered_ok]
        exact ⟨[], by rw [List.append_nil]; exact List.append_nil _⟩
      · obtain ⟨rest, hrest⟩ := hi.open_ hp
        refine ⟨delivered rest, ?_⟩
        rw [delivered, delivered, ← List.filterMap_append, ← hrest, ← delivered, delivered_ok]
    refine List.IsPrefix.trans ?_ hsent
    rw [← hread]
    exact (List.prefix_append ..).filterMap _
  · have hp : s.phase ≠ .ended := by
      rw [hw.phase]
      rintro ⟨⟩
    obtain ⟨rest, hrest⟩ := hi.open_ hp
    have hcount := ((counted_run h).open_ hp).1
    have hlen := congrArg List.length hrest
    rw [hw.tasks, List.length_nil] at hcount
    rw [List.length_map, List.length_append] at hlen
    obtain rfl : rest = [] := List.eq_nil_of_length_eq_zero (by omega)
    rw [hrest, ← hread, hw.inbox, List.append_nil, List.append_nil]
  · obtain ⟨-, err, herr⟩ := hi.ended hp
    refine ⟨err, ?_⟩
    rw [← herr, ← hread, hinbox, List.append_nil]

theorem commanded_append (es es' : List Event) :
    commanded (es ++ es') = commanded es ++ commanded es' :=
  List.filterMap_append ..

end StartPoll

/-! ## Two loops and the wire between them -/

inductive Side where
  | dialer
  | listener
  deriving DecidableEq

def Side.other : Side → Side
  | .dialer => .listener
  | .listener => .dialer

@[simp] theorem Side.other_other (side : Side) : side.other.other = side := by
  cases side <;> rfl

@[simp] theorem Side.other_ne (side : Side) : side.other ≠ side := by
  cases side <;> decide

/-- One end of the substream. `pending` are the bytes of the frame in `write_with_len_prefix` that
it has not written, `wire` those on their way to the other end. -/
structure Endpoint where
  loop : StartPoll := {}
  pending : Bytes := []
  wire : Bytes := []
  /-- history: the data taken up so far -/
  taken : List Bytes := []

namespace Endpoint

variable {p p' : Endpoint} {e : StartPoll.Event} {o : List ReadResult} {data : List Bytes}
  {gone : Bytes}

/-- Bytes come over the wire only, and a write is over when the whole frame is out. -/
def possible (p : Endpoint) : StartPoll.Event → Bool
  | .arrive _ => false
  | .written true => p.pending = []
  | _ => true

/-- The loop goes on to write the data. -/
def take (data : Option Bytes) (p : Endpoint) : Endpoint :=
  match data with
  | none => p
  | some b => { p with pending := frame b, taken := p.taken ++ [b] }

def step (R : Reader) (e : StartPoll.Event) (p : Endpoint) : Option (Endpoint × List ReadResult) :=
  match p.loop.step R e with
  | none => none
  | some (loop, o) => some ({ p.take (p.loop.taken R e) with loop }, o)

/-- What has been written, by the data that it comes from: `gone` has come in at the other end. -/
structure Wired (data : List Bytes) (gone : Bytes) (p : Endpoint) : Prop where
  data : p.taken ++ p.loop.out.filterMap WrapedData.bytes = data
  bytes : gone ++ p.wire ++ p.pending = p.taken.flatMap frame
  idle : p.loop.phase = .selecting → p.pending = []

theorem step_loop (h : p.step R e = some (p', o)) :
    p.loop.step R e = some (p'.loop, o) ∧
      p' = { p.take (p.loop.taken R e) with loop := p'.loop } := by
  unfold step at h
  split at h
  · cases h
  · next hs =>
    cases h
    exact ⟨hs, rfl⟩

theorem Wired.step (h : Wired data gone p) (hw : e = .written true → p.pending = [])
    (hs : p.step R e = some (p', o)) : Wired (data ++ StartPoll.commanded [e]) gone p' := by
  obtain ⟨hloop, hp'⟩ := step_loop hs
  obtain ⟨hflow, hphase, hnext⟩ := StartPoll.step_taken hloop
  generalize p'.loop = loop at hp' hflow hnext
  cases htaken : p.loop.taken R e with
  | none =>
    rw [htaken] at hp' hflow
    subst hp'
    refine ⟨?_, h.bytes, fun hsel => ?_⟩
    · have hout : loop.out.filterMap WrapedData.bytes =
          p.loop.out.filterMap WrapedData.bytes ++ StartPoll.commanded [e] := hflow.symm
      change p.taken ++ loop.out.filterMap WrapedData.bytes = _
      rw [hout, ← List.append_assoc, h.data]
    · rcases (hnext hsel).2 with hsel | he
      · exact h.idle hsel
      · exact hw he
  | some b =>
    rw [htaken] at hp' hflow hphase hnext
    subst hp'
    refine ⟨?_, ?_, fun hsel => ?_⟩
    · have hout : p.loop.out.filterMap WrapedData.bytes ++ StartPoll.commanded [e] =
          [b] ++ loop.out.filterMap WrapedData.bytes := hflow
      change p.taken ++ [b] ++ loop.out.filterMap WrapedData.bytes = _
      rw [List.append_assoc, ← hout, ← List.append_assoc, h.data]
    · have hbytes := h.bytes
      rw [h.idle (hphase rfl), List.append_nil] at hbytes
      change gone ++ p.wire ++ frame b = (p.taken ++ [b]).flatMap frame
      rw [hbytes, List.flatMap_append, List.flatMap_singleton]
    · cases (hnext hsel).1

end Endpoint

abbrev Link := Side → Endpoint

namespace Link

/-- `transfer side b` brings the bytes to that side. The stream may end for a side at any time, by
a close at the other one or with the connection. -/
inductive Event where
  | loop (side : Side) (e : StartPoll.Event)
  | write (side : Side) (n : ℕ)
  | transfer (side : Side) (b : Bytes)

/-- One event, with what the readers of a side get. -/
def step (R : Reader) (l : Link) : Event → Option (Link × List (Side × ReadResult))
  | .loop side e =>
    if (l side).possible e then
      match (l side).step R e with
      | none => none
      | some (p, o) => some (Function.update l side p, o.map (side, ·))
    else none
  | .write side n =>
    if (l side).loop.phase = .writing then
      some (Function.update l side { l side with
        pending := (l side).pending.drop n
        wire := (l side).wire ++ (l side).pending.take n }, [])
    else none
  | .transfer side b =>
    if b <+: (l side.other).wire then
      match (l side).step R (.arrive b) with
      | none => none
      | some (p, _) =>
        some (Function.update (Function.update l side p) side.other
          { l side.other with wire := (l side.other).wire.drop b.length }, [])
    else none

/-- What the event is for the loop of a side. -/
def Event.here (side : Side) : Event → Option StartPoll.Event
  | .loop side' e => if side' = side then some e else none
  | .write _ _ => none
  | .transfer side' b => if side' = side then some (.arrive b) else none

/-- What the readers of a side get. -/
def got (side : Side) (o : Side × ReadResult) : Option ReadResult :=
  if o.1 = side then some o.2 else none

variable {l l' : Link} {e : Event} {es : List Event} {o os : List (Side × ReadResult)} {side : Side}

/-- Every event, by its effect. -/
inductive Effect (R : Reader) (l : Link) : Event → Link → List (Side × ReadResult) → Prop
  | loop (side : Side) (e : StartPoll.Event) (p : Endpoint) (o : List ReadResult)
      (hpossible : (l side).possible e) (hs : (l side).step R e = some (p, o)) :
      Effect R l (.loop side e) (Function.update l side p) (o.map (side, ·))
  | write (side : Side) (n : ℕ) (hphase : (l side).loop.phase = .writing) :
      Effect R l (.write side n) (Function.update l side { l side with
        pending := (l side).pending.drop n
        wire := (l side).wire ++ (l side).pending.take n }) []
  | transfer (side : Side) (b rest : Bytes) (p : Endpoint) (hwire : (l side.other).wire = b ++ rest)
      (hs : (l side).step R (.arrive b) = some (p, [])) :
      Effect R l (.transfer side b)
        (Function.update (Function.update l side p) side.other
          { l side.other with wire := rest }) []

theorem step_effect (h : step R l e = some (l', o)) : Effect R l e l' o := by
  cases e with
  | loop side e =>
    simp only [step] at h
    split at h
    · next hpossible =>
      split at h
      · cases h
      · next hs =>
        cases h
        exact .loop side e _ _ hpossible hs
    · cases h
  | write side n =>
    simp only [step] at h
    split at h
    · next hphase =>
      cases h
      exact .write side n hphase
    · cases h
  | transfer side b =>
    simp only [step] at h
    split at h
    · next hpre =>
      split at h
      · cases h
      · next p o hs =>
        cases h
        obtain ⟨rest, hrest⟩ := hpre
        obtain rfl : o = [] := by
          have hloop := (Endpoint.step_loop hs).1
          simp only [StartPoll.step] at hloop
          split at hloop
          · cases hloop
          · exact (Prod.mk.inj (Option.some.inj hloop)).2.symm
        rw [← hrest, List.drop_left]
        exact .transfer side b rest p hrest.symm hs
    · cases h

theorem filterMap_got (o : List ReadResult) : (o.map (side, ·)).filterMap (got side) = o := by
  rw [List.filterMap_map, show got side ∘ (side, ·) = some from funext fun _ => if_pos rfl]
  exact List.filterMap_some

theorem filterMap_got_ne {side' : Side} (hne : side' ≠ side) (o : List ReadResult) :
    (o.map (side', ·)).filterMap (got side) = [] := by
  rw [List.filterMap_map, List.filterMap_eq_nil_iff]
  exact fun _ _ => if_neg hne

theorem eq_other_of_ne {side' : Side} (h : side' ≠ side) : side' = side.other := by
  cases side <;> cases side' <;> simp_all [Side.other]

/-- The loop of a side is a part of the link. -/
theorem isPart (R : Reader) (side : Side) : IsPart (step R) (StartPoll.step R)
    (fun l => (l side).loop) (Event.here side) (got side) where
  idle {l e l' o} he hstep := by
    cases step_effect hstep with
    | loop side' e p o =>
      have hne : side' ≠ side := by simpa [Event.here] using he
      exact ⟨by simp [Function.update_of_ne hne.symm], filterMap_got_ne hne o⟩
    | write side' n =>
      by_cases heq : side = side'
      · subst heq
        simp
      · simp [Function.update_of_ne heq]
    | transfer side' b rest p =>
      have hne : side' ≠ side := by simpa [Event.here] using he
      obtain rfl := eq_other_of_ne hne
      simp
  acts {l e l' o f} he hstep := by
    cases step_effect hstep with
    | loop side' e p o hpossible hs =>
      obtain ⟨rfl, rfl⟩ : side' = side ∧ e = f := by simpa [Event.here] using he
      rw [filterMap_got, Function.update_self]
      exact (Endpoint.step_loop hs).1
    | write => cases he
    | transfer side' b rest p hwire hs =>
      obtain ⟨rfl, rfl⟩ : side' = side ∧ .arrive b = f := by simpa [Event.here] using he
      rw [Function.update_of_ne (Side.other_ne side').symm, Function.update_self]
      exact (Endpoint.step_loop hs).1

theorem here_loop (side side' : Side) (e : StartPoll.Event) :
    (Event.loop side' e).here side = if side' = side then some e else none := rfl

theorem here_transfer (side side' : Side) (b : Bytes) :
    (Event.transfer side' b).here side = if side' = side then some (.arrive b) else none := rfl

/-- Nothing comes in over the wire in the event of a loop. -/
theorem arrived_loop {side' : Side} {f : StartPoll.Event} {p : Endpoint} (h : p.possible f) :
    StartPoll.arrived ((Event.loop side' f).here side).toList = [] := by
  rw [here_loop]
  split
  · cases f with
    | arrive => cases h
    | _ => rfl
  · rfl

/-- What is on its way to the other end, by what the event is for the two loops. -/
theorem wired_step {data : List Bytes} {gone : Bytes} (h : (l side).Wired data gone)
    (hstep : step R l e = some (l', o)) :
    (l' side).Wired (data ++ StartPoll.commanded (e.here side).toList)
      (gone ++ StartPoll.arrived (e.here side.other).toList) := by
  have hnone : data ++ StartPoll.commanded [] = data := List.append_nil _
  have hnil : gone ++ StartPoll.arrived [] = gone := List.append_nil _
  cases step_effect hstep with
  | loop side' f p o hpossible hs =>
    rw [arrived_loop hpossible, List.append_nil]
    rcases eq_or_ne side' side with rfl | hne
    · rw [Function.update_self, here_loop, if_pos rfl]
      refine h.step ?_ hs
      rintro rfl
      exact of_decide_eq_true hpossible
    · rw [Function.update_of_ne hne.symm, here_loop, if_neg hne]
      rwa [Option.toList_none, hnone]
  | write side' n hphase =>
    change Endpoint.Wired (data ++ StartPoll.commanded []) (gone ++ StartPoll.arrived []) _
    rw [hnone, hnil]
    rcases eq_or_ne side' side with rfl | hne
    · rw [Function.update_self]
      refine ⟨h.data, ?_, fun hsel => ?_⟩
      · change gone ++ ((l side').wire ++ (l side').pending.take n) ++ (l side').pending.drop n = _
        rw [← List.append_assoc, List.append_assoc (gone ++ _), List.take_append_drop, h.bytes]
      · cases hphase.symm.trans hsel
    · rwa [Function.update_of_ne hne.symm]
  | transfer side' b rest p hwire hs =>
    rw [here_transfer, here_transfer]
    rcases eq_or_ne side' side with rfl | hne
    · rw [if_pos rfl, if_neg (Side.other_ne side').symm, Function.update_of_ne
        (Side.other_ne side').symm, Function.update_self, Option.toList_none, hnil]
      exact h.step (by rintro ⟨⟩) hs
    · obtain rfl := eq_other_of_ne hne
      rw [Side.other_other] at hwire ⊢
      rw [if_neg hne, if_pos rfl, Function.update_self, Option.toList_none, hnone]
      refine ⟨h.data, ?_, h.idle⟩
      have hbytes := h.bytes
      rw [hwire] at hbytes
      change gone ++ (b ++ []) ++ rest ++ (l side).pending = (l side).taken.flatMap frame
      rw [← hbytes, List.append_nil, List.append_assoc gone]

theorem wired_run (side : Side) (h : run (step R) (fun _ => {}) es = some (l, os)) :
    (l side).Wired (StartPoll.commanded (es.filterMap (Event.here side)))
      (StartPoll.arrived (es.filterMap (Event.here side.other))) := by
  refine run_induction (P := fun es l _ =>
    (l side).Wired (StartPoll.commanded (es.filterMap (Event.here side)))
      (StartPoll.arrived (es.filterMap (Event.here side.other)))) ⟨rfl, rfl, fun _ => rfl⟩ ?_ h
  intro es l os e l' o ih hs
  have hlist (side : Side) : [e].filterMap (Event.here side) = (e.here side).toList := by
    cases he : e.here side with
    | none => exact List.filterMap_cons_none he
    | some f => exact List.filterMap_cons_some he
  rw [List.filterMap_append, List.filterMap_append, StartPoll.commanded_append,
    StartPoll.arrived_append, hlist, hlist]
  exact wired_step ih hs

/-! ## What comes through -/

/-- The receiver of the data drops no read in the event, and its tasks run in turn. -/
def Calm (R : Reader) (side : Side) (l : Link) (e : Event) : Prop :=
  ∀ f ∈ e.here side, StartPoll.Keeps R (l side).loop f ∧ StartPoll.Ordered R (l side).loop f

instance (side : Side) (l : Link) (e : Event) : Decidable (Calm R side l e) :=
  inferInstanceAs (Decidable (∀ f ∈ e.here side, _))

/-- All that the loop of the side was told to write has come in at the other side. -/
structure Through (l : Link) (side : Side) : Prop where
  out : (l side).loop.out = []
  pending : (l side).pending = []
  wire : (l side).wire = []

/-- What the readers of the other side have got of the data: the first ones, in order. All of them
once they are through and the loop there waits, and all of them and then an error if it has ended
without closing the stream itself. -/
structure Carried (l : Link) (side : Side) (data : List Bytes) (os : List ReadResult) : Prop where
  first : StartPoll.delivered os <+: data
  waits : l.Through side → (l side.other).loop.Waits → os = data.map .ok
  ended : l.Through side → (l side.other).loop.phase = .ended → (l side.other).loop.inbox = [] →
    StartPoll.activeClose ∉ os → ∃ err, os = data.map .ok ++ [.error err]

/-- Data that fit into a frame are carried to the other side. -/
theorem carried_run (side : Side) (hR : R.Strict)
    (h : run (step R) (fun _ => {}) es = some (l, os))
    (hcalm : Meets (Calm R side.other) (step R) (fun _ => {}) es)
    (hdata : ∀ f ∈ StartPoll.commanded (es.filterMap (Event.here side)),
      f ≠ [] ∧ f.length ≤ readLimit) :
    Carried l side (StartPoll.commanded (es.filterMap (Event.here side)))
      (os.filterMap (got side.other)) := by
  have hw := wired_run side h
  have hpart := isPart R side.other
  have hrun := hpart.run h
  have htaken : ∀ f ∈ (l side).taken, f ≠ [] ∧ f.length ≤ readLimit :=
    fun f hf => hdata f (hw.data ▸ List.mem_append_left _ hf)
  have hpre : StartPoll.arrived (es.filterMap (Event.here side.other)) <+:
      (l side).taken.flatMap frame := by
    rw [← hw.bytes, List.append_assoc]
    exact List.prefix_append ..
  have htracks := StartPoll.tracks_run hR htaken hpre
    (hpart.meets (fun hf hC => (hC _ hf).1) h hcalm) hrun
  obtain ⟨hfirst, hwaits, hended⟩ := StartPoll.delivered_frames
    (hpart.meets (fun hf hC => (hC _ hf).2) h hcalm) hrun
  have hall (hthrough : l.Through side) (hend : (l side.other).loop.Waits ∨
      (l side.other).loop.phase = .ended ∧ StartPoll.activeClose ∉ (l side.other).loop.sent) :
      (l side.other).loop.frames = StartPoll.commanded (es.filterMap (Event.here side)) := by
    have hgone := hw.bytes
    rw [hthrough.wire, hthrough.pending, List.append_nil, List.append_nil] at hgone
    rw [hgone] at htracks
    calc (l side.other).loop.frames = (l side).taken := htracks.complete htaken hend
      _ = StartPoll.commanded (es.filterMap (Event.here side)) := by
        rw [← hw.data, hthrough.out, List.filterMap_nil, List.append_nil]
  refine ⟨hfirst.trans (htracks.frames.trans ⟨_, hw.data⟩), fun hthrough hwait => ?_,
    fun hthrough hphase hinbox hclose => ?_⟩
  · rw [← hall hthrough (Or.inl hwait)]
    exact hwaits hwait
  · have hsent := StartPoll.received_run hrun
    rw [hinbox, List.append_nil] at hsent
    rw [← hall hthrough (Or.inr ⟨hphase, hsent ▸ hclose⟩)]
    exact hended hphase hinbox

/-! ## Two frames and a close -/

namespace Sample

/-- The two frames are written in three pieces and come in as five, and an answer is written
between them. Then the dialer closes the stream. -/
def twoFrames : List Event :=
  [.loop .dialer (.command (.data [1, 2, 3])), .loop .dialer (.command (.data [4, 5])),
    .loop .dialer (.poll true), .write .dialer 2, .transfer .listener [3],
    .loop .listener (.poll true), .write .dialer 2, .loop .dialer (.written true),
    .loop .dialer (.poll false), .write .dialer 3, .loop .dialer (.written true),
    .transfer .listener [1, 2], .transfer .listener [3, 2], .loop .listener (.poll false),
    .loop .listener (.deliver 0), .loop .listener .read, .loop .listener (.command (.data [6])),
    .loop .listener (.poll false), .write .listener 9, .loop .listener (.written true),
    .transfer .listener [4], .loop .listener (.poll true), .transfer .listener [5],
    .loop .dialer (.command .close), .loop .dialer (.poll true), .loop .dialer .closed,
    .loop .listener .finish, .loop .listener (.poll true), .loop .listener (.deliver 0),
    .loop .listener (.poll true), .loop .listener .read, .loop .listener .read]

end Sample

theorem carried_twoFrames : ∃ l os err,
    run (step .lengthPrefixed) (fun _ => {}) Sample.twoFrames = some (l, os) ∧
      os.filterMap (got .listener) = [.ok [1, 2, 3], .ok [4, 5], .error err] := by
  obtain ⟨l, os, hr, hl⟩ := exists_run (step .lengthPrefixed) (fun _ => {}) Sample.twoFrames
    (fun r => decide (((r.1 .dialer).loop.out = [] ∧ (r.1 .dialer).pending = [] ∧
      (r.1 .dialer).wire = []) ∧ (r.1 .listener).loop.phase = .ended ∧
      (r.1 .listener).loop.inbox = [] ∧ StartPoll.activeClose ∉ r.2.filterMap (got .listener)))
    (by decide +kernel)
  obtain ⟨⟨hout, hpending, hwire⟩, hphase, hinbox, hclose⟩ := of_decide_eq_true hl
  have hcalm : Meets (Calm .lengthPrefixed .listener) (step .lengthPrefixed) (fun _ => {})
      Sample.twoFrames := Meets.of_meets (by decide +kernel)
  obtain ⟨err, herr⟩ := (carried_run .dialer Reader.lengthPrefixed_strict hr hcalm
    (by decide +kernel)).ended ⟨hout, hpending, hwire⟩ hphase hinbox hclose
  exact ⟨l, os, err, hr, herr⟩

end Link

end WhiteNoise.Stream
