import WhiteNoise.Circuit.Owner
import WhiteNoise.Circuit.Quest

/-! # Giving up a circuit

An access node that cannot build its half of a circuit gives it up at one of
several places of one function, and each of them has to close the session.
-/

namespace WhiteNoise.Cleanup

open Wire Process RequestLoops Candidates Quest

open Owner (SameTables sameTables_refl)

section Generic

variable [Codec] [Crypto]

/-- The acknowledgements that the run has waited for. -/
def heardOf (asked : List (Sigma Act.Res)) : List Ack :=
  asked.filterMap fun x =>
    match x with
    | ⟨.awaitAck _, ack⟩ => ack
    | _ => none

/-- The run has started the task. -/
def Starts (r : TurnRecord Unit) (t : Task) : Prop := (⟨.spawn t, ()⟩ : Sigma Act.Res) ∈ r.asked

/-- The first acknowledgement has brought the invitation, decrypted. -/
def Invited (negotiate : Negotiate) (r : TurnRecord Unit) : Prop :=
  ∃ ack, (heardOf r.asked).head? = some ack ∧ Codec.decode ack.data = some negotiate

/-- The run has opened a stream for the session. -/
def Opened (sid : String) (r : TurnRecord Unit) : Prop :=
  ∃ w, Starts r (.relayEventHandler w (some sid))

/-- The turn has ended, and no probe has been sent. -/
structure GivesUp (sid : String) (r : TurnRecord Unit) : Prop where
  ended : r.answer = some ()
  unsent : ∀ w, ¬ Starts r (.writeRelayArc w (newRelayProbe sid))

/-- The request for the list of peers has been answered. -/
def Listed (r : TurnRecord Unit) : Prop :=
  ∃ l, (⟨.getMainNets 100, some l⟩ : Sigma Act.Res) ∈ r.asked

/-- A session that is there has a stream. -/
def Attached (entry : Option Session) : Prop := entry = none ∨ ∃ w, Part w entry

/-- The others do not open the session, and they leave it a stream. They may close it. -/
structure Unopened (sid : String) (s s' : Shared) : Prop where
  absent : s.sessionMap sid = none → s'.sessionMap sid = none
  attached : Attached (s.sessionMap sid) → Attached (s'.sessionMap sid)

variable {node : Node} {rely : Shared → Shared → Prop} {s : Shared} {negotiate : Negotiate}
  {des sid : String} {peer : PeerId} {myRole otherRole : Int32} {w : WrappedStream}

/-! ## The streams of the session -/

theorem part_putSession {r : TurnRecord Unit}
    (h : Turn node rely .free (Node.putSession w sid myRole) s r) (ha : r.answer = some ()) :
    Part w (r.state.sessionMap sid) := by
  simp only [Node.putSession, Async.getSession, Prog.read_bind] at h
  obtain ⟨s₁, -, -, -, h⟩ := h
  beta_reduce at h
  cases hentry : s₁.sessionMap sid with
  | none =>
    simp only [hentry, Option.isNone_none, if_true] at h
    obtain ⟨s₂, -, -, -, hend⟩ := h
    obtain rfl : r = _ := hend
    exact ⟨_, Function.update_self .., Or.inl rfl⟩
  | some session =>
    simp only [hentry, Option.isNone_some, Bool.false_eq_true, if_false] at h
    obtain ⟨s₂, -, -, -, h⟩ := h
    cases hcurrent : s₂.sessionMap sid with
    | none =>
      simp only [hcurrent, Prog.unwrap_none, Prog.fail_bind] at h
      obtain rfl : r = _ := h
      cases ha
    | some current =>
      simp only [hcurrent, Prog.ret_bind, Prog.unwrap_some] at h
      obtain ⟨s₃, -, -, -, hend⟩ := h
      obtain rfl : r = _ := hend
      exact ⟨_, Function.update_self .., Or.inr rfl⟩

/-- An attempt ends without a stream and has started nothing, or it ends with a stream of the session
that has its handler. -/
theorem turn_opening {r : TurnRecord (Option WrappedStream)} {o : Option WrappedStream}
    (h : Turn node rely .free (Node.newSessionToPeer peer sid myRole otherRole) s r)
    (ho : r.answer = some o) :
    o = none ∧ r.asked = [⟨.newRelayStream peer, none⟩] ∨
      ∃ w, o = some w ∧ Part w (r.state.sessionMap sid) ∧
        (⟨.spawn (.relayEventHandler w (some sid)), ()⟩ : Sigma Act.Res) ∈ r.asked := by
  rw [Node.newSessionToPeer_eq] at h
  obtain ⟨s₁, r₁, -, ⟨stream, -, -, h₁, rfl⟩ | ⟨h₁, rfl⟩⟩ := turn_newRelayStream h
  · right
    simp only [writeRelayWakeArc, writeSetSessionWithRoleArc, bind_assoc] at h₁
    obtain ⟨s₂, s₃, b, r₂, -, -, h₂, rfl⟩ := turn_writeRelayArc h₁
    obtain ⟨s₄, s₅, b', r₃, -, -, h₃, rfl⟩ := turn_writeRelayArc h₂
    obtain ⟨s₆, -, -, -, h₄⟩ := h₃
    obtain ⟨s₇, heard, r₄, -, h₅, rfl⟩ := turn_awaitAck h₄
    cases heard with
    | none =>
      obtain rfl : r₄ = _ := h₅
      cases ho
    | some ack =>
      obtain ⟨s₈, r₅, -, h₆, rfl⟩ := turn_spawn h₅
      have hput : Turn node rely .free (do
          Node.putSession stream sid myRole
          return some stream) s₈ r₅ := h₆
      rcases Semantics.Amid.bind hput with ⟨r₆, -, -, rfl⟩ | ⟨r₆, ⟨⟩, r₇, h₇, hdone, hend, rfl⟩
      · cases ho
      · obtain rfl : r₇ = _ := hend
        obtain rfl : some stream = o := Option.some.inj ho
        exact ⟨stream, rfl, part_putSession h₇ hdone, by simp⟩
  · left
    obtain rfl : r₁ = _ := h₁
    exact ⟨(Option.some.inj ho).symm, rfl⟩

/-- A peer that is found has a stream of the session. -/
theorem part_tryPeers {l : List NodeInfo} {excluded : String} {i : ℕ} {invalid : List String}
    {next : PeerId} {r : TurnRecord (Option PeerId)}
    (h : Turn node rely .free (tryPeers node l excluded des sid myRole otherRole i invalid peer) s r)
    (hnext : r.answer = some (some next)) : ∃ w, Part w (r.state.sessionMap sid) := by
  induction i generalizing invalid peer s r with
  | zero =>
    obtain rfl : r = _ := h
    cases hnext
  | succ i ih =>
    have hattempt {tried : PeerId} {s : Shared} {r : TurnRecord (Option PeerId)}
        (h : Turn node rely .free
          (attempt node l excluded des sid myRole otherRole i invalid tried) s r)
        (hnext : r.answer = some (some next)) : ∃ w, Part w (r.state.sessionMap sid) := by
      rcases Semantics.Amid.bind h with ⟨r₁, -, -, rfl⟩ | ⟨r₁, o, r₂, h₁, ho, h₂, rfl⟩
      · cases hnext
      · rcases turn_opening h₁ ho with ⟨rfl, -⟩ | ⟨w, rfl, hpart, -⟩
        · exact ih (r := r₂) h₂ hnext
        · obtain rfl : r₂ = _ := h₂
          exact ⟨w, hpart⟩
    unfold tryPeers at h
    rw [Prog.call_bind] at h
    obtain ⟨s₁, index, r₁, -, h₁, rfl⟩ := turn_draws draws_randomUsize h
    rcases Semantics.Amid.bind h₁ with ⟨r₂, -, -, rfl⟩ | ⟨r₂, found, r₃, -, -, h₃, rfl⟩
    · cases hnext
    · cases found with
      | none => exact hattempt (r := r₃) h₃ hnext
      | some id =>
        rcases Semantics.Amid.unwrap h₃ with ⟨tried, -, h₄⟩ | ⟨-, rfl⟩
        · exact hattempt (r := r₃) h₄ hnext
        · cases hnext

/-- Every stream of the session gets the frame. -/
theorem starts_sendRelayTwoway {session : Session} {relay : Relay} {r : TurnRecord Unit}
    (h : Turn node rely .free (sendRelayTwoway session relay) s r) (hw : Part w (some session)) :
    Starts r (.writeRelayArc w relay) := by
  obtain ⟨_, ⟨⟩, hw⟩ := hw
  unfold sendRelayTwoway at h
  cases hearly : session.pairStream.earlyStream with
  | none =>
    rw [hearly] at h hw
    have hlater := hw.resolve_left (Option.some_ne_none w).symm
    rw [hlater] at h
    obtain ⟨s₁, r₁, -, -, rfl⟩ := turn_spawn h
    exact List.mem_cons_self
  | some early =>
    rw [hearly] at h hw
    obtain ⟨s₁, r₁, -, h₁, rfl⟩ := turn_spawn h
    rcases hw with hw | hw
    · obtain rfl := Option.some.inj hw
      exact List.mem_cons_self
    · rw [hw] at h₁
      obtain ⟨s₂, r₂, -, -, rfl⟩ := turn_spawn h₁
      exact List.mem_cons_of_mem _ List.mem_cons_self

/-! ## The second half of the circuit -/

omit [Codec] in
/-- A request that is waited for changes no session. -/
theorem calm_wait {key : String} {q : NodeRequest} :
    Calm (Node.externalSendNodeRequestAndWait key q) := by
  refine ⟨fun _ => rfl, fun s => ⟨trivial, fun _ => ⟨trivial, ?_⟩⟩⟩
  rintro (_ | ack)
  · trivial
  · trivial

theorem asked_wait {key : String} {q : NodeRequest} {r : TurnRecord Ack}
    (h : Turn node rely .free (Node.externalSendNodeRequestAndWait key q) s r) :
    ∃ receiver, r.asked = [⟨.send q, ()⟩, ⟨.awaitAck receiver, r.answer⟩] := by
  obtain ⟨s₁, -, -, -, h₁⟩ := h
  obtain ⟨s₂, r₂, -, h₂, rfl⟩ := turn_send h₁
  obtain ⟨s₃, o, r₃, -, h₃, rfl⟩ := turn_awaitAck h₂
  refine ⟨s₁.nextOneshot, ?_⟩
  cases o with
  | none =>
    obtain rfl : r₃ = _ := h₃
    rfl
  | some ack =>
    obtain rfl : r₃ = _ := h₃
    rfl

/-- A session with a stream is gone if no probe is sent after the relay has been found. -/
theorem gone_extendSession {next : PeerId} {r : TurnRecord Unit}
    (hrely : ∀ s s', rely s s' → Unopened negotiate.sessionId s s')
    (hs : Attached (s.sessionMap negotiate.sessionId))
    (h : Turn node rely .free (extendSession node negotiate next) s r)
    (hgives : GivesUp negotiate.sessionId r) :
    r.state.sessionMap negotiate.sessionId = none := by
  rcases Semantics.Amid.bind h with ⟨r₁, -, -, rfl⟩ | ⟨r₁, ack, r₂, h₁, -, h₂, rfl⟩
  · cases hgives.ended
  have hattached : Attached (r₁.state.sessionMap negotiate.sessionId) :=
    entry_calm (fun s s' hs => (hrely s s' hs).attached) calm_wait h₁ hs
  split at h₂
  · exact (turn_handleCloseSession (fun s s' hs => (hrely s s' hs).absent) h₂).2
  · simp only [Async.getSession, Prog.read_bind] at h₂
    obtain ⟨s₂, -, hs₂, -, h₃⟩ := h₂
    beta_reduce at h₃
    have hattached₂ := (hrely _ _ hs₂).attached hattached
    cases hentry : s₂.sessionMap negotiate.sessionId with
    | none =>
      rw [hentry] at h₃
      obtain rfl : r₂ = _ := h₃
      exact hentry
    | some session =>
      rw [hentry] at h₃ hattached₂
      obtain ⟨w, hw⟩ := hattached₂.resolve_left (Option.some_ne_none session)
      have hsent : Starts r₂ (.writeRelayArc w (newRelayProbe negotiate.sessionId)) :=
        starts_sendRelayTwoway h₃ hw
      exact absurd (List.mem_append_right _ hsent) (hgives.unsent w)

/-- Without the list the session stays, and with the list it is gone. -/
theorem gone_buildAsAccess {r : TurnRecord Unit}
    (hrely : ∀ s s', rely s s' → Unopened negotiate.sessionId s s')
    (h : Turn node rely .free (buildAsAccess node negotiate des) s r)
    (hgives : GivesUp negotiate.sessionId r) :
    rely s r.state ∧ r.asked = [⟨.getMainNets 100, none⟩] ∨
      Listed r ∧ r.state.sessionMap negotiate.sessionId = none := by
  simp only [buildAsAccess, Prog.call_bind] at h
  obtain ⟨s₁, o, r₁, hs₁, h₁, rfl⟩ := turn_getMainNets h
  cases o with
  | none =>
    obtain rfl : r₁ = _ := h₁
    exact Or.inl ⟨hs₁, rfl⟩
  | some l =>
    refine Or.inr ⟨⟨l, List.mem_cons_self⟩, ?_⟩
    obtain ⟨s₂, p₀, r₂, -, h₂, rfl⟩ := turn_draws draws_randomPeerId h₁
    rcases Semantics.Amid.bind h₂ with ⟨r₃, -, -, rfl⟩ | ⟨r₃, o, r₄, h₃, ho, h₄, rfl⟩
    · cases hgives.ended
    · cases o with
      | none => exact (turn_handleCloseSession (fun s s' hs => (hrely s s' hs).absent) h₄).2
      | some next =>
        refine gone_extendSession (r := r₄) hrely (Or.inr (part_tryPeers h₃ ho)) h₄
          ⟨hgives.ended, ?_⟩
        rintro w hw
        have hmem := List.mem_append_right r₃.asked hw
        exact hgives.unsent w (List.mem_cons_of_mem _ (List.mem_cons_of_mem _ hmem))

/-! ## The first half of the circuit -/

/-- What the access node does with a decrypted invitation. -/
def answerCircuit (node : Node) (peer : PeerId) (negotiate : Negotiate) (des : String) :
    Async Unit := do
  match ← Node.newSessionToPeer peer negotiate.sessionId
      SessionRole.accessRole.toI32 SessionRole.answerRole.toI32 with
  | none => Node.handleCloseSession negotiate.sessionId
  | some _ =>
    if negotiate.join = node.getId then
      match ← Async.getSession negotiate.sessionId with
      | none => return ()
      | some session =>
        sendRelayTwoway session (newRelayCircuitSuccess negotiate.sessionId)
    else
      buildAsAccess node negotiate des

/-- Neither is a list asked for nor a task started that writes a frame. -/
def Preliminary (a : Act) : Prop :=
  (∀ n, a ≠ .getMainNets n) ∧ ∀ w relay, a ≠ .spawn (.writeRelayArc w relay)

abbrev Unlisted {α : Type} (p : Async α) : Prop :=
  p.Within (fun _ => True) Preliminary fun _ => True

/-- The session to the answer client is there, and `r'` is the rest of the run. -/
structure Halfway (node : Node) (rely : Shared → Shared → Prop) (negotiate : Negotiate)
    (s' : Shared) (r r' : TurnRecord Unit) : Prop where
  part : ∃ w, Part w (s'.sessionMap negotiate.sessionId)
  rest : ∃ des, Turn node rely .free (buildAsAccess node negotiate des) s' r'
  answer : r.answer = r'.answer
  state : r.state = r'.state
  asked : ∃ before, r.asked = before ++ r'.asked ∧ ∀ x ∈ before, Preliminary x.1

omit [Codec] in
theorem unlisted_putSession : Unlisted (Node.putSession w sid myRole) := by
  simp only [Node.putSession, Async.getSession, Prog.read_bind]
  refine ⟨trivial, fun s => ?_⟩
  beta_reduce
  cases s.sessionMap sid with
  | none => exact ⟨trivial, fun _ => trivial⟩
  | some session =>
    refine ⟨trivial, fun s => ?_⟩
    beta_reduce
    cases s.sessionMap sid with
    | none => trivial
    | some session => exact ⟨trivial, fun _ => trivial⟩

omit [Codec] in
theorem unlisted_wait {key : String} {q : NodeRequest} :
    Unlisted (Node.externalSendNodeRequestAndWait key q) := by
  refine ⟨trivial, fun s => ⟨by simp [Preliminary], fun _ => ⟨by simp [Preliminary], ?_⟩⟩⟩
  rintro (_ | ack)
  · trivial
  · trivial

theorem unlisted_newSessionToPeer :
    Unlisted (Node.newSessionToPeer peer sid myRole otherRole) := by
  have hframe {α : Type} {w : WrappedStream} {relay : Relay} {g : String → Async α}
      (hg : ∀ key, Unlisted (g key)) : Unlisted (writeRelayArc w relay >>= g) :=
    ⟨by simp [Preliminary], fun _ => ⟨by simp [Preliminary], fun _ => hg _⟩⟩
  rw [Node.newSessionToPeer_eq]
  constructor
  · simp [Preliminary]
  · rintro (_ | w)
    · trivial
    · simp only [writeRelayWakeArc, writeSetSessionWithRoleArc, bind_assoc]
      apply hframe
      rintro -
      apply hframe
      rintro key
      refine ⟨trivial, fun s => ⟨by simp [Preliminary], ?_⟩⟩
      rintro (_ | ack)
      · trivial
      · refine ⟨by simp [Preliminary], fun _ => Prog.Within.bind (p := Node.putSession w sid myRole) ?_⟩
        exact unlisted_putSession.mono (fun _ h => h) (fun _ h => h) fun _ _ => trivial

/-- A handler that has opened a stream for the session and is not the sink goes on to the second
half. -/
theorem turn_answerCircuit {r : TurnRecord Unit}
    (h : Turn node rely .free (answerCircuit node peer negotiate des) s r)
    (hjoin : negotiate.join ≠ node.getId) (hopened : Opened sid r) (hended : r.answer = some ()) :
    ∃ s' r', Halfway node rely negotiate s' r r' := by
  rcases Semantics.Amid.bind h with ⟨r₁, -, -, rfl⟩ | ⟨r₁, o, r₂, h₁, ho, h₂, rfl⟩
  · cases hended
  · rcases turn_opening h₁ ho with ⟨rfl, hasked⟩ | ⟨w, rfl, hpart, -⟩
    · exfalso
      obtain ⟨w, hw⟩ := hopened
      rcases List.mem_append.mp hw with hw | hw
      · rw [hasked] at hw
        cases List.mem_singleton.mp hw
      · obtain ⟨w', hclose⟩ := (h₂.within handleCloseSession_closes).1 _ hw
        cases hclose
    · dsimp only at h₂
      rw [if_neg hjoin] at h₂
      exact ⟨_, r₂, ⟨w, hpart⟩, ⟨des, h₂⟩, rfl, rfl, r₁.asked, rfl,
        (h₁.within unlisted_newSessionToPeer).1⟩

/-- The first acknowledgement of a run that opens a stream is that of the invitation. -/
theorem turn_processPublishRequest {data : Bytes} {r : TurnRecord Unit}
    (h : Turn node rely .free (processPublishRequest node data) s r)
    (hinvited : Invited negotiate r) (hjoin : negotiate.join ≠ node.getId)
    (hopened : Opened sid r) (hended : r.answer = some ()) :
    ∃ s' r', Halfway node rely negotiate s' r r' := by
  rcases Semantics.Amid.unwrap h with ⟨encryptedNeg, -, h⟩ | ⟨-, rfl⟩
  · rw [Prog.read_bind] at h
    obtain ⟨s₁, -, -, -, h⟩ := h
    beta_reduce at h
    split at h
    · rw [Prog.read_bind] at h
      obtain ⟨s₂, -, -, -, h⟩ := h
      rcases Semantics.Amid.unwrap h with ⟨info, -, h⟩ | ⟨-, rfl⟩
      · rcases Semantics.Amid.bind h with ⟨r₁, -, -, rfl⟩ | ⟨r₁, ack, r₂, h₁, hack, h₂, rfl⟩
        · cases hended
        · obtain ⟨receiver, hasked⟩ := asked_wait h₁
          rw [hack] at hasked
          have hfirst : Codec.decode ack.data = some negotiate := by
            obtain ⟨ack', hhead, hdec⟩ := hinvited
            rw [Record.append, hasked] at hhead
            obtain rfl : ack = ack' := Option.some.inj hhead
            exact hdec
          split at h₂
          · obtain rfl : r₂ = _ := h₂
            obtain ⟨w, hw⟩ := hopened
            simp [Starts, Record.append, hasked] at hw
          · rw [hfirst, Prog.unwrap_some, Prog.ret_bind] at h₂
            have hopened₂ : Opened sid r₂ := by
              obtain ⟨w, hw⟩ := hopened
              refine ⟨w, (List.mem_append.mp hw).resolve_left ?_⟩
              simp [hasked]
            obtain ⟨s', r', hhalf⟩ := turn_answerCircuit (r := r₂) h₂ hjoin hopened₂ hended
            obtain ⟨before, hbefore, hunlisted⟩ := hhalf.asked
            refine ⟨s', r', hhalf.part, hhalf.rest, hhalf.answer, hhalf.state, r₁.asked ++ before,
              by rw [List.append_assoc, ← hbefore]; rfl, ?_⟩
            rintro x hx
            rcases List.mem_append.mp hx with hx | hx
            · exact (h₁.within unlisted_wait).1 x hx
            · exact hunlisted x hx
      · cases hended
    · obtain rfl : r = _ := h
      obtain ⟨w, hw⟩ := hopened
      cases hw
  · cases hended

/-! ## Runs that give up -/

/-- A second half that has asked for the list ends, and starts no task. -/
structure Abandoned (o : Option (List NodeInfo)) (r : TurnRecord Unit) : Prop where
  ended : r.answer = some ()
  idle : ∀ x ∈ r.asked, ∀ t, x.1 ≠ .spawn t
  asked : (⟨.getMainNets 100, o⟩ : Sigma Act.Res) ∈ r.asked

theorem exists_without_list (node : Node) (negotiate : Negotiate) (des : String) (s : Shared) :
    ∃ r, Turn node SameTables .free (buildAsAccess node negotiate des) s r ∧ Abandoned none r ∧
      r.state = s := by
  have hlist : (nodeSemantics node).reply (.getMainNets 100) (.nodeInfos none) s =
      some ⟨none, s, [], []⟩ := rfl
  refine ⟨_, Semantics.Amid.reply (sameTables_refl s) hlist rfl, ⟨rfl, ?_, List.mem_cons_self⟩, rfl⟩
  rintro x hx t
  obtain rfl := List.mem_singleton.mp hx
  rintro ⟨⟩

/-- The list is empty, and the random peers are not reached. -/
theorem exists_without_relay (node : Node) (negotiate : Negotiate) (des : String) (s : Shared) :
    ∃ r, Turn node SameTables .free (buildAsAccess node negotiate des) s r ∧
      Abandoned (some []) r := by
  obtain ⟨r₁, h₁, hr₁, hidle₁, -⟩ := @Owner.exists_tryPeers _ _ node ⟨""⟩ 3 [] negotiate.join des
    negotiate.sessionId SessionRole.accessRole.toI32 SessionRole.relayRole.toI32 s
  have hquiet (a : Act) (ha : a.Quiet) (s : Shared) :
      ∃ c x, (nodeSemantics node).reply a c s = some x := reply_of_quiet ha s
  obtain ⟨r₂, h₂, hasked₂⟩ : ∃ r, Turn node SameTables .free
      (Node.handleCloseSession negotiate.sessionId) r₁.state r ∧ ∀ x ∈ r.asked, x.1.Quiet :=
    Semantics.exists_amid_within sameTables_refl hquiet .go
      (handleCloseSession_prompt negotiate.sessionId) r₁.state
  obtain ⟨hended, -⟩ := turn_handleCloseSession (fun s s' hs hnone => by rw [hs.sessions, hnone]) h₂
  have hlist : (nodeSemantics node).reply (.getMainNets 100) (.nodeInfos (some [])) s =
      some ⟨some [], s, [], []⟩ := rfl
  have hpeer : (nodeSemantics node).reply .randomPeerId (.peer ⟨""⟩) s = some ⟨⟨""⟩, s, [], []⟩ := rfl
  unfold buildAsAccess
  simp only [Prog.call_bind]
  refine ⟨_, Semantics.Amid.reply (sameTables_refl s) hlist
    (Semantics.Amid.reply (sameTables_refl s) hpeer (Semantics.Amid.seq h₁ hr₁ h₂)),
    hended, ?_, List.mem_cons_self⟩
  rintro x hx t
  rcases List.mem_cons.mp hx with rfl | hx
  · rintro ⟨⟩
  rcases List.mem_cons.mp hx with rfl | hx
  · rintro ⟨⟩
  rcases List.mem_append.mp hx with hx | hx
  · exact hidle₁ x hx t
  · rintro heq
    have hquiet₂ := hasked₂ x hx
    rw [heq] at hquiet₂
    exact hquiet₂

/-- A request is answered, and the sessions and the streams are as before. -/
theorem exists_wait (node : Node) (key : String) (q : NodeRequest) (ack : Ack) (s : Shared) :
    ∃ r, Turn node SameTables .free (Node.externalSendNodeRequestAndWait key q) s r ∧
      r.answer = some ack ∧ r.state.sessionMap = s.sessionMap ∧ r.state.streams = s.streams := by
  let s' : Shared := { s.register key with oneshots := fun _ => .sent ack }
  have hsend : (nodeSemantics node).reply (.send q) .go (s.register key) =
      some ⟨(), s.register key, [.request q], []⟩ := rfl
  have hack : (nodeSemantics node).reply (.awaitAck s.nextOneshot) .go s' =
      some ⟨some ack, s', [], []⟩ := rfl
  have hothers : SameTables (s.register key) s' := ⟨rfl, rfl⟩
  have hwait : Turn node SameTables .free (Async.awaitAck s.nextOneshot) (s.register key) _ :=
    Semantics.Amid.reply hothers hack rfl
  exact ⟨_, .here .go (sameTables_refl s) (Semantics.Amid.reply (sameTables_refl _) hsend hwait),
    rfl, rfl, rfl⟩

/-- A session that is new is opened. -/
theorem exists_newSessionToPeer (node : Node) (w : WrappedStream) (myRole otherRole : Int32)
    (hnone : s.sessionMap sid = none) (hw : w.streamId ∉ s.streams) :
    ∃ r, Turn node SameTables .free
        (Node.newSessionToPeer w.remotePeerId sid myRole otherRole) s r ∧
      r.answer = some (some w) := by
  obtain ⟨r₁, h₁, hr₁, hsame, -⟩ : Taken node SameTables w
      (Node.offerSession w.remotePeerId sid otherRole) s :=
    exists_offerSession sameTables_refl (fun _ => ⟨rfl, rfl⟩) hw
  have hput : Turn node SameTables .free (Node.putSession w sid myRole) r₁.state
      ⟨some (), r₁.state.setEntry sid (some (Session.attach sid myRole w none)), [], [], []⟩ := by
    simp only [Node.putSession, Async.getSession, Prog.read_bind]
    refine .here .go (sameTables_refl _) ?_
    simp only [id, hsame, hnone, Option.isNone_none, if_true]
    exact .here .go (sameTables_refl _) rfl
  rw [Node.newSessionToPeer_offer]
  exact ⟨_, Semantics.Amid.seq h₁ hr₁ (Semantics.Amid.seq hput rfl rfl), rfl⟩

/-- The invitation of a registered client leads to a new session, and each second half that is
abandoned then ends a turn. -/
theorem exists_first_half {data : Bytes} {encryptedNeg : EncryptedNeg} {info : ClientInfo}
    (hdec : Codec.decode data = some encryptedNeg)
    (hclient : s.clientWnMap encryptedNeg.des = some info)
    (hnone : s.sessionMap negotiate.sessionId = none) (hjoin : negotiate.join ≠ node.getId) :
    ∃ s', (∃ w, Part w (s'.sessionMap negotiate.sessionId)) ∧ ∀ o r',
      Turn node SameTables .free (buildAsAccess node negotiate encryptedNeg.des) s' r' →
      Abandoned o r' → ∃ r, Turn node SameTables .free (processPublishRequest node data) s r ∧
        Invited negotiate r ∧ Opened negotiate.sessionId r ∧ GivesUp negotiate.sessionId r ∧
        r.state = r'.state ∧ (⟨.getMainNets 100, o⟩ : Sigma Act.Res) ∈ r.asked := by
  let ack : Ack := ⟨"", true, Codec.encode negotiate⟩
  let request := decryptRequest node
    { destination := encryptedNeg.des, cypher := encryptedNeg.cypher }
  obtain ⟨r₁, h₁, hack, hsessions, -⟩ : ∃ r, Turn node SameTables .free
      (Node.sendProxyRequestAndWait info.peerId request) s r ∧ r.answer = some ack ∧
        r.state.sessionMap = s.sessionMap ∧ r.state.streams = s.streams :=
    exists_wait node _ _ ack s
  obtain ⟨n, hn⟩ := Infinite.exists_notMem_finset r₁.state.streams.toFinset
  have hnew : r₁.state.sessionMap negotiate.sessionId = none := by rw [hsessions, hnone]
  obtain ⟨r₂, h₂, hw⟩ := exists_newSessionToPeer node ⟨info.peerId, n⟩
    SessionRole.accessRole.toI32 SessionRole.answerRole.toI32 hnew (by simpa using hn)
  obtain ⟨hpart, hstart⟩ : Part ⟨info.peerId, n⟩ (r₂.state.sessionMap negotiate.sessionId) ∧
      (⟨.spawn (.relayEventHandler ⟨info.peerId, n⟩ (some negotiate.sessionId)), ()⟩ :
        Sigma Act.Res) ∈ r₂.asked := by
    rcases turn_opening h₂ hw with ⟨⟨⟩, -⟩ | ⟨_, ⟨⟩, hopening⟩
    exact hopening
  refine ⟨r₂.state, ⟨_, hpart⟩, fun o r' h' habandoned => ?_⟩
  have hrest : Turn node SameTables .free
      (answerCircuit node info.peerId negotiate encryptedNeg.des) r₁.state (r₂.append r') := by
    refine Semantics.Amid.seq h₂ hw ?_
    dsimp only
    rw [if_neg hjoin]
    exact h'
  obtain ⟨receiver, hasked⟩ := asked_wait h₁
  refine ⟨r₁.append (r₂.append r'), ?_, ⟨ack, ?_, Codec.decode_encode _⟩,
    ⟨⟨info.peerId, n⟩, ?_⟩, ⟨habandoned.ended, ?_⟩, rfl, ?_⟩
  · simp only [processPublishRequest, hdec, Prog.unwrap_some, Prog.ret_bind, Prog.read_bind]
    refine .here .go (sameTables_refl s) ?_
    simp only [hclient, Option.isSome_some, if_true]
    refine .here .go (sameTables_refl s) ?_
    simp only [id, hclient, Prog.unwrap_some, Prog.ret_bind]
    refine Semantics.Amid.seq h₁ hack ?_
    simp only [ack, Bool.not_true, Bool.false_eq_true, if_false, Codec.decode_encode,
      Prog.unwrap_some, Prog.ret_bind]
    exact hrest
  · rw [Record.append, hasked, hack]
    rfl
  · exact List.mem_append_right _ (List.mem_append_left _ hstart)
  · rintro w' hsent
    rcases List.mem_append.mp hsent with hsent | hsent
    · exact ((h₁.within unlisted_wait).1 _ hsent).2 _ _ rfl
    · rcases List.mem_append.mp hsent with hsent | hsent
      · exact ((h₂.within unlisted_newSessionToPeer).1 _ hsent).2 _ _ rfl
      · exact habandoned.idle _ hsent _ rfl
  · exact List.mem_append_right _ (List.mem_append_right _ habandoned.asked)

/-- A turn that gives up after it has opened the session leaves it closed exactly when the list of
peers has come. The others may close the session themselves where it is. -/
theorem given_up_closed {data : Bytes} {r : TurnRecord Unit}
    (hrely : ∀ s s', rely s s' → Unopened negotiate.sessionId s s')
    (h : Turn node rely .free (processPublishRequest node data) s r)
    (hinvited : Invited negotiate r) (hjoin : negotiate.join ≠ node.getId)
    (hopened : Opened negotiate.sessionId r) (hgives : GivesUp negotiate.sessionId r) :
    (Listed r → r.state.sessionMap negotiate.sessionId = none) ∧
      ((∀ s s', rely s s' → s'.sessionMap negotiate.sessionId = none →
        s.sessionMap negotiate.sessionId = none) →
        r.state.sessionMap negotiate.sessionId = none → Listed r) := by
  obtain ⟨s', r', hhalf⟩ := turn_processPublishRequest h hinvited hjoin hopened hgives.ended
  obtain ⟨before, hasked, hunlisted⟩ := hhalf.asked
  obtain ⟨des, hrest⟩ := hhalf.rest
  have hgives' : GivesUp negotiate.sessionId r' := by
    refine ⟨hhalf.answer.symm.trans hgives.ended, ?_⟩
    rintro w hw
    apply hgives.unsent w
    rw [Starts, hasked]
    exact List.mem_append_right _ hw
  rw [hhalf.state]
  rcases gone_buildAsAccess hrely hrest hgives' with ⟨hs, hnone⟩ | ⟨⟨l, hl⟩, hgone⟩
  · constructor
    · rintro ⟨l, hl⟩
      rw [hasked, hnone] at hl
      rcases List.mem_append.mp hl with hl | hl
      · exact absurd rfl ((hunlisted _ hl).1 100)
      · cases List.mem_singleton.mp hl
    · rintro hkept hgone
      obtain ⟨w, session, hsession, -⟩ := hhalf.part
      rw [hkept _ _ hs hgone] at hsession
      cases hsession
  · refine ⟨fun _ => hgone, fun _ _ => ⟨l, ?_⟩⟩
    rw [hasked]
    exact List.mem_append_right _ hl

end Generic

/-! ## The list does not come -/

namespace Sample

def node : Node := ⟨(⟨.ed25519, List.replicate 32 7⟩ : Ideal.Keypair), none, none⟩

/-- The callee is registered at the node. -/
def state : Shared where
  clientWnMap := Function.update (fun _ => none) "callee" (some ⟨"02", ⟨"client"⟩, 1, 3600⟩)

def encryptedNeg : EncryptedNeg := ⟨"callee", [1]⟩

def data : Bytes := Codec.encode encryptedNeg

def negotiate : Negotiate := ⟨"sink", "session", "callee", []⟩

theorem join_ne : negotiate.join ≠ node.getId := by decide +kernel

/-- Each second half that is abandoned ends a turn that has opened a new session. -/
theorem exists_new_session :
    ∃ s', (∃ w, Part w (s'.sessionMap negotiate.sessionId)) ∧ ∀ o r',
      Turn node SameTables .free (buildAsAccess node negotiate encryptedNeg.des) s' r' →
      Abandoned o r' → ∃ r, Turn node SameTables .free (processPublishRequest node data) state r ∧
        Invited negotiate r ∧ Opened negotiate.sessionId r ∧ GivesUp negotiate.sessionId r ∧
        r.state = r'.state ∧ (⟨.getMainNets 100, o⟩ : Sigma Act.Res) ∈ r.asked := by
  have hclient : state.clientWnMap encryptedNeg.des = some ⟨"02", ⟨"client"⟩, 1, 3600⟩ := rfl
  exact exists_first_half (Codec.decode_encode encryptedNeg) hclient rfl join_ne

end Sample

/-- The list is empty, and the session that was opened is closed. -/
theorem given_up_closed_empty :
    ∃ r, Turn Sample.node SameTables .free (processPublishRequest Sample.node Sample.data)
        Sample.state r ∧
      GivesUp Sample.negotiate.sessionId r ∧ Opened Sample.negotiate.sessionId r ∧
      r.state.sessionMap Sample.negotiate.sessionId = none := by
  obtain ⟨s', -, hturn⟩ := Sample.exists_new_session
  obtain ⟨r', h', habandoned⟩ := exists_without_relay Sample.node Sample.negotiate
    Sample.encryptedNeg.des s'
  obtain ⟨r, h, hinvited, hopened, hgives, -, hlist⟩ := hturn _ r' h' habandoned
  have hrely (s s' : Shared) (hs : SameTables s s') : Unopened Sample.negotiate.sessionId s s' :=
    ⟨fun hnone => by rw [hs.sessions, hnone], fun hattached => by rwa [hs.sessions]⟩
  exact ⟨r, h, hgives, hopened,
    (given_up_closed hrely h hinvited Sample.join_ne hopened hgives).1 ⟨[], hlist⟩⟩

/-- Without an answer to the request for the list, a session that was not there before stays. -/
theorem not_given_up_closed :
    Sample.state.sessionMap Sample.negotiate.sessionId = none ∧
    ∃ r, Turn Sample.node SameTables .free (processPublishRequest Sample.node Sample.data)
        Sample.state r ∧
      Invited Sample.negotiate r ∧ Sample.negotiate.join ≠ Sample.node.getId ∧
      Opened Sample.negotiate.sessionId r ∧ GivesUp Sample.negotiate.sessionId r ∧
      r.state.sessionMap Sample.negotiate.sessionId ≠ none := by
  obtain ⟨s', ⟨w, session, hsession, -⟩, hturn⟩ := Sample.exists_new_session
  obtain ⟨r', h', habandoned, hstate⟩ := exists_without_list Sample.node Sample.negotiate
    Sample.encryptedNeg.des s'
  obtain ⟨r, h, hinvited, hopened, hgives, hend, -⟩ := hturn _ r' h' habandoned
  refine ⟨rfl, r, h, hinvited, Sample.join_ne, hopened, hgives, ?_⟩
  rw [hend, hstate, hsession]
  exact Option.some_ne_none session

end WhiteNoise.Cleanup
