import WhiteNoise.Process.Pool
import WhiteNoise.Network.Session

/-! # The loop behind a stream

`start_poll` selects between a command to write or close and a read of the next
frame. A frame goes to the reader of the stream through a task of its own, the
final error goes directly.
-/

namespace WhiteNoise.Stream

open Wire Process

/-- A body behind its length, as `write_with_len_prefix` writes it. -/
def frame (body : Bytes) : Bytes := Varint.encode body.length ++ body

/-- The future of `upgrade::read_one`, by the bytes it has consumed and whether the stream has
ended: it is not ready, or it has a result and leaves the bytes behind it. -/
structure Reader where
  readOne : ℕ → Bytes → Bool → Option (ReadResult × Bytes)
  /-- A whole frame within the limit is read. -/
  whole : ∀ {max body} rest eof, body.length ≤ max →
    readOne max (frame body ++ rest) eof = some (.ok body, rest)
  /-- A part of it is waited for. -/
  part : ∀ {max body part}, body.length ≤ max → part <+: frame body → part ≠ frame body →
    readOne max part false = none
  /-- No frame is read from fewer bytes. -/
  consumes : ∀ {max b eof body rest}, readOne max b eof = some (.ok body, rest) → body ≠ [] →
    (frame body).length + rest.length ≤ b.length

/-- A length of up to `max` bytes, then the body. -/
def readLengthPrefixed (max : ℕ) (b : Bytes) (eof : Bool) : Option (ReadResult × Bytes) :=
  match Varint.decode b with
  | none =>
    if eof then some (if b = [] then .ok [] else .error (.io "unexpected end of file"), [])
    else none
  | some (n, rest) =>
    if max < n then some (.error (.tooLarge n max), rest)
    else if n ≤ rest.length then some (.ok (rest.take n), rest.drop n)
    else if eof then some (.error (.io "unexpected end of file"), []) else none

def Reader.lengthPrefixed : Reader where
  readOne := readLengthPrefixed
  whole {max body} rest eof h := by
    rw [readLengthPrefixed, frame, List.append_assoc, Varint.decode_encode]
    dsimp only
    rw [if_neg (Nat.not_lt.mpr h), if_pos (by simp), List.take_left, List.drop_left]
  part {max body part} h hp hne := by
    rcases List.prefix_or_prefix_of_prefix hp (List.prefix_append ..) with hlen | ⟨part, rfl⟩
    · by_cases heq : part = Varint.encode body.length
      · have hbody : body ≠ [] := by
          rintro rfl
          exact hne (by rw [heq, frame, List.append_nil])
        have hd := Varint.decode_encode body.length []
        rw [List.append_nil] at hd
        have hlt : ¬ body.length ≤ 0 := Nat.not_le.mpr (List.length_pos_iff.mpr hbody)
        simp [readLengthPrefixed, heq, hd, Nat.not_lt.mpr h, hlt]
      · simp [readLengthPrefixed, Varint.decode_part hlen heq]
    · obtain ⟨rest, rfl⟩ := (List.prefix_append_right_inj _).mp hp
      have hrest : rest ≠ [] := by
        rintro rfl
        exact hne (by rw [frame, List.append_nil])
      have hlt := List.length_pos_iff.mpr hrest
      rw [List.length_append] at h
      simp [readLengthPrefixed, Varint.decode_encode, Nat.not_lt.mpr h]
      omega
  consumes {max b eof body rest} h hne := by
    unfold readLengthPrefixed at h
    split at h
    · split at h
      · split at h
        · cases h
          exact absurd rfl hne
        · cases h
      · cases h
    · next n rest' hd =>
      have hsize := Varint.size_le_of_decode hd
      split at h
      · cases h
      · split at h
        · next hle =>
          cases h
          rw [frame, List.length_append, List.length_take_of_le hle, List.length_drop]
          change Varint.size n + n + (rest'.length - n) ≤ b.length
          omega
        · split at h <;> cases h

/-- The bound `start_poll` passes to `read_one`. -/
def readLimit : ℕ := 4096

/-- What travels over the outgoing channel of a stream. -/
inductive WrapedData where
  | close
  | data (b : Bytes)
  deriving DecidableEq

/-- Where `start_poll` is. -/
inductive Phase where
  | selecting
  /-- inside `write_with_len_prefix` -/
  | writing
  /-- inside `close` -/
  | closing
  | ended
  | panicked
  deriving DecidableEq

/-- A stream between the substream and the reader of `WrappedStream::read`. `held` are the bytes
inside the current read future, `readable` those that wait in the substream, `tasks` the frames
of the spawned tasks that have not run. -/
structure StartPoll where
  phase : Phase := .selecting
  held : Bytes := []
  readable : Bytes := []
  eof : Bool := false
  out : List WrapedData := []
  tasks : List Bytes := []
  inbox : List ReadResult := []
  /-- history: the frames read so far -/
  frames : List Bytes := []
  /-- history: what was put into the incoming channel -/
  sent : List ReadResult := []

/-- The branch with which the select completes. -/
inductive Ready where
  | out (d : WrapedData)
  | read (res : ReadResult)

namespace StartPoll

variable (R : Reader)

def send (res : ReadResult) (s : StartPoll) : StartPoll :=
  { s with inbox := s.inbox ++ [res], sent := s.sent ++ [res] }

/-- Poll both futures, in either order. The future that does not complete is dropped with what
it holds. -/
def select (readFirst : Bool) (s : StartPoll) : Option Ready × StartPoll :=
  match readFirst, s.out with
  | false, d :: out => (some (.out d), { s with out, held := [] })
  | _, out =>
    match R.readOne readLimit (s.held ++ s.readable) s.eof with
    | some (res, rest) => (some (.read res), { s with held := [], readable := rest })
    | none =>
      match out with
      | d :: out => (some (.out d), { s with out, held := [], readable := [] })
      | [] => (none, { s with held := s.held ++ s.readable, readable := [] })

/-- The body of the branch, up to where it waits or the loop turns. -/
def branch (ready : Option Ready) (s : StartPoll) : StartPoll :=
  match ready with
  | none => s
  | some (.out .close) => { s with phase := .closing }
  | some (.out (.data _)) => { s with phase := .writing }
  | some (.read (.error e)) => { s.send (.error e) with phase := .ended }
  | some (.read (.ok [])) =>
    { s.send (.error (.io "stream read len zero")) with phase := .ended }
  | some (.read (.ok (b :: bs))) =>
    { s with tasks := s.tasks ++ [b :: bs], frames := s.frames ++ [b :: bs] }

/-- One poll of the select, and the branch if it completes. -/
def poll (readFirst : Bool) (s : StartPoll) : StartPoll :=
  (s.select R readFirst).2.branch (s.select R readFirst).1

/-- What happens to a stream. The outgoing channel never ends while `start_poll` runs, since it
holds a sender itself. -/
inductive Event where
  | arrive (b : Bytes)
  | finish
  | command (d : WrapedData)
  | poll (readFirst : Bool)
  | written (ok : Bool)
  | closed
  | deliver (i : ℕ)
  | read

/-- One event, with what a reader gets. -/
def step (s : StartPoll) : Event → Option (StartPoll × List ReadResult)
  | .arrive b => if s.eof then none else some ({ s with readable := s.readable ++ b }, [])
  | .finish => some ({ s with eof := true }, [])
  | .command d => some ({ s with out := s.out ++ [d] }, [])
  | .poll readFirst =>
    if s.phase = .selecting then some (s.poll R readFirst, []) else none
  | .written ok =>
    if s.phase = .writing then
      some ({ s with phase := if ok then .selecting else .panicked }, [])
    else none
  | .closed =>
    if s.phase = .closing then
      some ({ s.send (.error (.io "active close stream")) with phase := .ended }, [])
    else none
  | .deliver i =>
    match s.tasks[i]? with
    | none => none
    | some b => some ({ s.send (.ok b) with tasks := s.tasks.eraseIdx i }, [])
  | .read =>
    match s.inbox with
    | [] => none
    | res :: inbox => some ({ s with inbox }, [res])

/-- The branch sends the final error. -/
def endsWith : Option Ready → Bool
  | some (.read (.error _)) => true
  | some (.read (.ok b)) => b = []
  | _ => false

/-- The event sends the final error. -/
def ends (s : StartPoll) : Event → Bool
  | .poll readFirst => endsWith (s.select R readFirst).1
  | .closed => true
  | _ => false

/-- `start_poll` has returned or died. -/
def Over (s : StartPoll) : Prop := s.phase = .ended ∨ s.phase = .panicked

/-- What an event can do to the frames on their way to the reader. -/
inductive Effect (s s' : StartPoll) : Event → List ReadResult → Prop
  | quiet {e} (hphase : s'.phase = s.phase ∨ ¬ s.Over ∧ ¬ s'.Over) (htasks : s'.tasks = s.tasks)
      (hinbox : s'.inbox = s.inbox) (hframes : s'.frames = s.frames) (hsent : s'.sent = s.sent)
      (he : s.ends R e = false) (hkind : e ≠ .written false ∧ ∀ i, e ≠ .deliver i) : Effect s s' e []
  | frame {readFirst} (b : Bytes) (hphase : ¬ s.Over) (hphase' : ¬ s'.Over)
      (htasks : s'.tasks = s.tasks ++ [b]) (hinbox : s'.inbox = s.inbox)
      (hframes : s'.frames = s.frames ++ [b]) (hsent : s'.sent = s.sent)
      (he : s.ends R (.poll readFirst) = false) : Effect s s' (.poll readFirst) []
  | ended {e} (err : ReadOneError) (hphase : ¬ s.Over) (hphase' : s'.phase = .ended)
      (htasks : s'.tasks = s.tasks) (hinbox : s'.inbox = s.inbox ++ [.error err])
      (hframes : s'.frames = s.frames) (hsent : s'.sent = s.sent ++ [.error err])
      (he : s.ends R e) : Effect s s' e []
  | panicked (hphase : ¬ s.Over) (hphase' : s'.phase = .panicked) (htasks : s'.tasks = s.tasks)
      (hinbox : s'.inbox = s.inbox) (hframes : s'.frames = s.frames) (hsent : s'.sent = s.sent) :
      Effect s s' (.written false) []
  | delivered (i : ℕ) (b : Bytes) (hb : s.tasks[i]? = some b) (hphase : s'.phase = s.phase)
      (htasks : s'.tasks = s.tasks.eraseIdx i) (hinbox : s'.inbox = s.inbox ++ [.ok b])
      (hframes : s'.frames = s.frames) (hsent : s'.sent = s.sent ++ [.ok b]) :
      Effect s s' (.deliver i) []
  | read (res : ReadResult) (hphase : s'.phase = s.phase) (htasks : s'.tasks = s.tasks)
      (hinbox : s.inbox = res :: s'.inbox) (hframes : s'.frames = s.frames)
      (hsent : s'.sent = s.sent) : Effect s s' .read [res]

variable {R} {s s' : StartPoll} {e : Event} {o : List ReadResult}

/-- The select leaves the frames alone. -/
theorem select_frames (readFirst : Bool) (s : StartPoll) :
    (s.select R readFirst).2.phase = s.phase ∧ (s.select R readFirst).2.tasks = s.tasks ∧
    (s.select R readFirst).2.inbox = s.inbox ∧ (s.select R readFirst).2.frames = s.frames ∧
    (s.select R readFirst).2.sent = s.sent := by
  unfold select
  split
  · exact ⟨rfl, rfl, rfl, rfl, rfl⟩
  · split
    · exact ⟨rfl, rfl, rfl, rfl, rfl⟩
    · split <;> exact ⟨rfl, rfl, rfl, rfl, rfl⟩

theorem not_over_selecting (h : s.phase = .selecting) : ¬ s.Over := by
  simp [Over, h]

theorem poll_effect (h : s.phase = .selecting) (readFirst : Bool) :
    Effect R s (s.poll R readFirst) (.poll readFirst) [] := by
  obtain ⟨hphase, htasks, hinbox, hframes, hsent⟩ := select_frames (R := R) readFirst s
  have hover := not_over_selecting h
  unfold poll
  cases hsel : (s.select R readFirst).1 with
  | none =>
    exact .quiet (Or.inl hphase) htasks hinbox hframes hsent (by simp [ends, endsWith, hsel]) (by simp)
  | some ready =>
    cases ready with
    | out d =>
      cases d with
      | close =>
        exact .quiet (Or.inr ⟨hover, by simp [branch, Over]⟩) htasks hinbox hframes hsent
          (by simp [ends, endsWith, hsel]) (by simp)
      | data b =>
        exact .quiet (Or.inr ⟨hover, by simp [branch, Over]⟩) htasks hinbox hframes hsent
          (by simp [ends, endsWith, hsel]) (by simp)
    | read res =>
      cases res with
      | error err =>
        refine .ended err hover rfl htasks ?_ hframes ?_ (by simp [ends, endsWith, hsel])
        · simp only [branch, send, hinbox]
        · simp only [branch, send, hsent]
      | ok b =>
        cases b with
        | nil =>
          refine .ended (.io "stream read len zero") hover rfl htasks ?_ hframes ?_ (by simp [ends, endsWith, hsel])
          · simp only [branch, send, hinbox]
          · simp only [branch, send, hsent]
        | cons b bs =>
          refine .frame (b :: bs) hover ?_ ?_ hinbox ?_ hsent (by simp [ends, endsWith, hsel])
          · simpa [branch, Over, hphase] using hover
          · simp only [branch, htasks]
          · simp only [branch, hframes]

/-- Every event, by its effect. -/
theorem step_effect (h : step R s e = some (s', o)) : Effect R s s' e o := by
  cases e with
  | arrive b =>
    simp only [step] at h
    split at h
    · cases h
    · cases h
      exact .quiet (Or.inl rfl) rfl rfl rfl rfl rfl (by simp)
  | finish | command d =>
    cases h
    exact .quiet (Or.inl rfl) rfl rfl rfl rfl rfl (by simp)
  | poll readFirst =>
    simp only [step] at h
    split at h
    · next hphase =>
      cases h
      exact poll_effect hphase readFirst
    · cases h
  | written ok =>
    simp only [step] at h
    split at h
    · next hphase =>
      cases h
      have hover : ¬ s.Over := by simp [Over, hphase]
      cases ok with
      | true =>
        exact .quiet (Or.inr ⟨hover, by simp [Over]⟩) rfl rfl rfl rfl rfl (by simp)
      | false => exact .panicked hover rfl rfl rfl rfl rfl
    · cases h
  | closed =>
    simp only [step] at h
    split at h
    · next hphase =>
      cases h
      exact .ended _ (by simp [Over, hphase]) rfl rfl rfl rfl rfl rfl
    · cases h
  | deliver i =>
    simp only [step] at h
    split at h
    · cases h
    · next b hb =>
      cases h
      exact .delivered i b hb rfl rfl rfl rfl rfl
  | read =>
    simp only [step] at h
    split at h
    · cases h
    · next res inbox hinbox =>
      cases h
      exact .read res rfl rfl hinbox rfl rfl

end StartPoll

end WhiteNoise.Stream
