import WhiteNoise.Circuit.Candidates
import WhiteNoise.Network.Ideal

/-! # Whose circuit is opened

A request for a new circuit names a client and a session, and comes from an
authenticated peer. The entry node looks for the client and for the session, but
it does not compare the peer with either.
-/

namespace WhiteNoise.Owner

open Wire Process RequestLoops

section Generic

variable [Codec] [Crypto]

/-- A stream is opened, the encryption of an invitation is asked for, or a message is published. -/
def Opens : Act → Prop
  | .newRelayStream _ => True
  | .send (.proxyRequest r) =>
    ∃ request, r.proxyRequest = some request ∧ request.reqtype = Reqtype.negPlainText.toI32
  | .publish _ => True
  | _ => False

/-- The client that the request names is registered by the peer, and the session begins with a stream
of the peer. -/
structure Owned (s : Shared) (newCircuit : NewCircuit) (peer : PeerId) : Prop where
  client : ∃ info, s.clientWnMap newCircuit.fromId = some info ∧ info.peerId = peer
  session : ∃ session early, s.sessionMap newCircuit.sessionId = some session ∧
    session.pairStream.earlyStream = some early ∧ early.remotePeerId = peer

/-- The request passes the checks of the code: the client is registered, and the session is there
and not full. -/
structure Admitted (s : Shared) (newCircuit : NewCircuit) : Prop where
  client : (s.clientWnMap newCircuit.fromId).isSome
  session : ∃ session, s.sessionMap newCircuit.sessionId = some session ∧ session.ready = false

/-- The others leave the clients and the sessions alone. -/
structure SameTables (s s' : Shared) : Prop where
  clients : s'.clientWnMap = s.clientWnMap
  sessions : s'.sessionMap = s.sessionMap

/-- In every run, the handler opens something only for the owner. -/
def OnlyForOwner (node : Node) (request : Request) (peer : PeerId) (s : Shared) : Prop :=
  ∀ r, Turn node SameTables .free (handleNewCircuit node request peer) s r →
    ∀ x ∈ r.asked, Opens x.1 →
      ∃ newCircuit, Codec.decode request.data = some newCircuit ∧ Owned s newCircuit peer

variable {node : Node} {request : Request} {peer : PeerId} {s : Shared} {newCircuit : NewCircuit}

/-- A request that is turned away opens nothing. -/
theorem admitted_of_opens {r : TurnRecord Bool}
    (h : Turn node SameTables .free (handleNewCircuit node request peer) s r) {x : Sigma Act.Res}
    (hx : x ∈ r.asked) :
    ∃ newCircuit, Codec.decode request.data = some newCircuit ∧ Admitted s newCircuit := by
  unfold handleNewCircuit at h
  cases hdec : (Codec.decode request.data : Option NewCircuit) with
  | none =>
    rw [hdec] at h
    obtain rfl : r = _ := h
    cases hx
  | some newCircuit =>
    refine ⟨newCircuit, rfl, ?_⟩
    rw [hdec] at h
    simp only [Async.getSession, Prog.read_bind] at h
    obtain ⟨s₁, -, hs₁, -, h⟩ := h
    beta_reduce at h
    rw [hs₁.clients] at h
    cases hclient : s.clientWnMap newCircuit.fromId with
    | none =>
      rw [hclient] at h
      obtain rfl : r = _ := h
      cases hx
    | some info =>
      rw [hclient] at h
      obtain ⟨s₂, -, hs₂, -, h⟩ := h
      have hsessions : s₂.sessionMap = s.sessionMap := hs₂.sessions.trans hs₁.sessions
      beta_reduce at h
      rw [hsessions] at h
      cases hsession : s.sessionMap newCircuit.sessionId with
      | none =>
        rw [hsession] at h
        obtain rfl : r = _ := h
        cases hx
      | some session =>
        rw [hsession] at h
        cases hready : session.ready with
        | true =>
          simp only [hready] at h
          obtain rfl : r = _ := h
          cases hx
        | false => exact ⟨by rw [hclient]; rfl, session, hsession, hready⟩

/-! ## Runs that open a stream -/

/-- The program has a run in which it opens something. -/
def CanOpen {α : Type} (node : Node) (p : Async α) (s : Shared) : Prop :=
  ∃ r, Turn node SameTables .free p s r ∧ ∃ x ∈ r.asked, Opens x.1

omit [Codec] in
theorem sameTables_refl (s : Shared) : SameTables s s := ⟨rfl, rfl⟩

/-- A peer that is not reached has been asked for a stream. -/
theorem exists_unreached (node : Node) (peer : PeerId) (sid : String) (myRole otherRole : Int32)
    (s : Shared) :
    ∃ r, Turn node SameTables .free (Node.newSessionToPeer peer sid myRole otherRole) s r ∧
      r.answer = some none ∧ r.asked = [⟨.newRelayStream peer, none⟩] := by
  have hreply : (nodeSemantics node).reply (.newRelayStream peer) (.stream none) s =
      some ⟨none, s, [], []⟩ := rfl
  exact ⟨_, Semantics.Amid.reply (sameTables_refl s) hreply rfl, rfl, rfl⟩

/-- A list without peers leads to attempts with a random one. -/
theorem exists_tryPeers {i : ℕ} {invalid : List String} {excluded des sid : String}
    {myRole otherRole : Int32} (s : Shared) :
    ∃ r, Turn node SameTables .free
        (tryPeers node [] excluded des sid myRole otherRole i invalid peer) s r ∧
      r.answer = some none ∧ (∀ x ∈ r.asked, ∀ t, x.1 ≠ .spawn t) ∧
        (0 < i → ∃ x ∈ r.asked, Opens x.1) := by
  induction i generalizing invalid s with
  | zero => exact ⟨_, rfl, rfl, by simp, by simp⟩
  | succ i ih =>
    obtain ⟨r₁, h₁, hr₁, hasked₁⟩ := exists_unreached node peer sid myRole otherRole s
    obtain ⟨r₂, h₂, hr₂, hspawn₂, -⟩ := @ih (peer.toBase58 :: invalid) r₁.state
    have hreply : (nodeSemantics node).reply .randomUsize (.usize 0) s = some ⟨0, s, [], []⟩ := rfl
    unfold tryPeers
    simp only [Prog.call_bind, List.length_nil, scanPeers, Prog.pure_eq, Prog.ret_bind]
    refine ⟨_, Semantics.Amid.reply (sameTables_refl s) hreply (Semantics.Amid.seq h₁ hr₁ h₂), hr₂,
      ?_, fun _ => ?_⟩
    · rintro x hx t
      rcases List.mem_cons.mp hx with rfl | hx
      · rintro ⟨⟩
      · rcases List.mem_append.mp hx with hx | hx
        · rw [hasked₁] at hx
          obtain rfl := List.mem_singleton.mp hx
          rintro ⟨⟩
        · exact hspawn₂ x hx t
    · refine ⟨⟨.newRelayStream peer, none⟩, List.mem_cons_of_mem _ (List.mem_append_left _ ?_), trivial⟩
      rw [hasked₁]
      exact List.mem_singleton_self _

theorem canOpen_buildAsEntry (peer : PeerId) (s : Shared) :
    CanOpen node (buildAsEntry node newCircuit peer) s := by
  obtain ⟨r₁, h₁, hr₁, -, hopens⟩ := @exists_tryPeers _ _ node peer 3 [] peer.toBase58 newCircuit.toId
    newCircuit.sessionId SessionRole.entryRole.toI32 SessionRole.sinkRole.toI32 s
  obtain ⟨x, hx, hopens⟩ := hopens (by decide)
  have hclose : (do
      Node.handleCloseSession newCircuit.sessionId
      return false : Async Bool).Within (fun _ => True) Act.Quiet fun _ => True :=
    ((handleCloseSession_prompt newCircuit.sessionId).mono (fun _ h => h) (fun _ h => h)
      fun _ _ => trivial).bind
  have hquiet (a : Act) (ha : a.Quiet) (s : Shared) :
      ∃ c x, (nodeSemantics node).reply a c s = some x := reply_of_quiet ha s
  obtain ⟨r₂, h₂, -⟩ := Semantics.exists_amid_within sameTables_refl hquiet .go hclose r₁.state
  have hlist : (nodeSemantics node).reply (.getMainNets 100) (.nodeInfos (some [])) s =
      some ⟨some [], s, [], []⟩ := rfl
  have hpeer : (nodeSemantics node).reply .randomPeerId (.peer peer) s = some ⟨peer, s, [], []⟩ := rfl
  unfold buildAsEntry
  simp only [Prog.call_bind]
  refine ⟨_, Semantics.Amid.reply (sameTables_refl s) hlist
    (Semantics.Amid.reply (sameTables_refl s) hpeer (Semantics.Amid.seq h₁ hr₁ h₂)), x, ?_, hopens⟩
  exact List.mem_cons_of_mem _ (List.mem_cons_of_mem _ (List.mem_append_left _ hx))

theorem canOpen_buildAsEntryAndAccess (info : ClientInfo) (s : Shared) :
    CanOpen node (buildAsEntryAndAccess newCircuit info) s := by
  obtain ⟨r₁, h₁, hr₁, hasked₁⟩ := exists_unreached node info.peerId
    newCircuit.sessionId SessionRole.accessRole.toI32 SessionRole.answerRole.toI32 s
  have hmem : (⟨.newRelayStream info.peerId, none⟩ : Sigma Act.Res) ∈ r₁.asked := by
    rw [hasked₁]
    exact List.mem_singleton_self _
  exact ⟨_, Semantics.Amid.seq h₁ hr₁ rfl, _, List.mem_append_left _ hmem, trivial⟩

/-- What follows the checks, with the entry of the callee. -/
def openCircuit (node : Node) (newCircuit : NewCircuit) (peer : PeerId) :
    Option ClientInfo → Async Bool
  | some toClientInfo => buildAsEntryAndAccess newCircuit toClientInfo
  | none => buildAsEntry node newCircuit peer

/-- What the checks let through can open a stream. -/
theorem canOpen_of_admitted (node : Node) (peer : PeerId)
    (hdec : Codec.decode request.data = some newCircuit)
    (h : Admitted s newCircuit) : CanOpen node (handleNewCircuit node request peer) s := by
  obtain ⟨info, hinfo⟩ := Option.isSome_iff_exists.mp h.client
  obtain ⟨session, hsession, hready⟩ := h.session
  unfold handleNewCircuit
  simp only [hdec, Async.getSession, Prog.read_bind]
  have hbuild : CanOpen node (openCircuit node newCircuit peer (s.clientWnMap newCircuit.toId)) s := by
    cases s.clientWnMap newCircuit.toId with
    | none => exact canOpen_buildAsEntry peer s
    | some toClientInfo => exact canOpen_buildAsEntryAndAccess toClientInfo s
  obtain ⟨r, hr, hopens⟩ := hbuild
  refine ⟨r, .here .go (sameTables_refl s) ?_, hopens⟩
  simp only [hinfo]
  refine .here .go (sameTables_refl s) ?_
  simp only [id, hsession, hready]
  exact .here .go (sameTables_refl s) hr

theorem not_onlyForOwner (hdec : Codec.decode request.data = some newCircuit)
    (h : Admitted s newCircuit) (howned : ¬ Owned s newCircuit peer) :
    ¬ OnlyForOwner node request peer s := by
  intro honly
  obtain ⟨r, hr, x, hx, hopens⟩ := canOpen_of_admitted node peer hdec h
  obtain ⟨newCircuit', hdec', howned'⟩ := honly r hr x hx hopens
  obtain rfl := Option.some.inj (hdec.symm.trans hdec')
  exact howned howned'

/-- The handler opens something only for the owner exactly when its checks let nobody else
through. -/
theorem onlyForOwner_iff (node : Node) (request : Request) (peer : PeerId) (s : Shared) :
    OnlyForOwner node request peer s ↔
      ∀ newCircuit, Codec.decode request.data = some newCircuit → Admitted s newCircuit →
        Owned s newCircuit peer := by
  constructor
  · intro honly newCircuit hdec h
    by_contra howned
    exact not_onlyForOwner hdec h howned honly
  · intro howned r hr x hx _
    obtain ⟨newCircuit, hdec, h⟩ := admitted_of_opens hr hx
    exact ⟨newCircuit, hdec, howned newCircuit hdec h⟩

end Generic

/-! ## Another peer -/

namespace Sample

def node : Node := ⟨(⟨.ed25519, List.replicate 32 7⟩ : Ideal.Keypair), none, none⟩

def client : PeerId := ⟨"client"⟩

def other : PeerId := ⟨"other"⟩

def fresh : NodePool := ⟨{}, [Task.body node .processProxyRequest]⟩

/-- The digest under which the client is registered. -/
def hash : String := Crypto.bs58Encode (Crypto.sha256 [1])

def newProxy : NewProxy := ⟨"60m", "02"⟩

/-- The client registers at the node and joins a session over its stream. -/
def joined : List Event :=
  [.proxyRequest ⟨client, some ⟨"", "", Reqtype.newProxy.toI32, Codec.encode newProxy⟩, none⟩,
    .thread 0 .go, .thread 0 .go, .thread 0 .go, .thread 0 .go,
    .inbound ⟨client, 0⟩,
    .frame 0 (.ok (Codec.encode (newRelaySetSession "session" SessionRole.entryRole.toI32))),
    .thread 1 .go, .thread 1 .go, .thread 1 .go]

def newCircuit : NewCircuit := ⟨hash, "callee", "session"⟩

def request : Request := ⟨"", "", Reqtype.newCircuit.toI32, Codec.encode newCircuit⟩

end Sample

/-- A reachable state in which the handler opens a stream for a peer that owns neither the client nor
the session. -/
theorem not_onlyForOwner_other : ∃ p os,
    run (nodeStep Sample.node) Sample.fresh Sample.joined = some (p, os) ∧
    Codec.decode Sample.request.data = some Sample.newCircuit ∧
    ¬ Owned p.state Sample.newCircuit Sample.other ∧
    ¬ OnlyForOwner Sample.node Sample.request Sample.other p.state := by
  obtain ⟨p, os, hr, hp⟩ := exists_run (nodeStep Sample.node) Sample.fresh Sample.joined
    (fun r => decide (r.1.state.clientWnMap Sample.hash = some ⟨"02", Sample.client, 1, 3600⟩ ∧
      r.1.state.sessionMap "session" =
        some ⟨"session", ⟨some ⟨Sample.client, 0⟩, none⟩, SessionRole.entryRole.toI32⟩))
    (by decide +kernel)
  obtain ⟨hclient, hsession⟩ := of_decide_eq_true hp
  have howned : ¬ Owned p.state Sample.newCircuit Sample.other := by
    rintro ⟨⟨info, hinfo, hpeer⟩, -⟩
    obtain rfl := Option.some.inj (hclient.symm.trans hinfo)
    exact absurd hpeer (by decide)
  have hadmitted : Admitted p.state Sample.newCircuit :=
    ⟨by rw [Sample.newCircuit, hclient]; rfl, _, hsession, rfl⟩
  have hdec : Codec.decode Sample.request.data = some Sample.newCircuit := Codec.decode_encode _
  exact ⟨p, os, hr, hdec, howned, not_onlyForOwner hdec hadmitted howned⟩

end WhiteNoise.Owner
