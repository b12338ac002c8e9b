import WhiteNoise.Circuit.Candidates
import WhiteNoise.Registry.Consistency

/-! # The search for a sink and for a relay

An entry node looks for a sink, an access node for a relay, in at most three
attempts. A scan that finds nobody leaves the peer of the attempt before, and
the test for the registered peer takes the digest of a digest.
-/

namespace WhiteNoise.Quest

open Wire Process RequestLoops Candidates

section Generic

variable [Codec] [Crypto]

/-! ## The two searches -/

/-- An entry node looks for a sink for a new circuit, an access node for a relay to the join peer. -/
inductive Search where
  | sink (newCircuit : NewCircuit) (remotePeerId : PeerId)
  | relay (negotiate : Negotiate) (des : String)

/-- What an access node does with the relay it has found. -/
def extendSession (node : Node) (negotiate : Negotiate) (next : PeerId) : Async Unit := do
  let command := sessionExpendCommand node
    { sessionId := negotiate.sessionId, peerId := negotiate.join }
  let key := fromBytesGetId (Codec.encode command)
  let command := { command with commandId := key }
  let ack ← Node.externalSendNodeRequestAndWait key (.cmdRequest ⟨next, some command⟩)
  if !ack.result then
    Node.handleCloseSession negotiate.sessionId
  else
    match ← Async.getSession negotiate.sessionId with
    | none => return ()
    | some session => sendRelayTwoway session (newRelayProbe negotiate.sessionId)

namespace Search

/-- The peer of the new circuit, or the join peer. -/
def excluded : Search → String
  | sink _ remotePeerId => remotePeerId.toBase58
  | relay negotiate _ => negotiate.join

def destination : Search → String
  | sink newCircuit _ => newCircuit.toId
  | relay _ des => des

def sessionId : Search → String
  | sink newCircuit _ => newCircuit.sessionId
  | relay negotiate _ => negotiate.sessionId

def myRole : Search → Int32
  | sink _ _ => SessionRole.entryRole.toI32
  | relay _ _ => SessionRole.accessRole.toI32

def otherRole : Search → Int32
  | sink _ _ => SessionRole.sinkRole.toI32
  | relay _ _ => SessionRole.relayRole.toI32

/-- The part of `handle_new_circuit` and of `process_publish_request` that asks for the list. -/
def program (node : Node) : Search → Async Unit
  | sink newCircuit remotePeerId => do
    let _built ← buildAsEntry node newCircuit remotePeerId
  | relay negotiate des => buildAsAccess node negotiate des

def after (node : Node) : Search → Option PeerId → Async Unit
  | sink newCircuit _, none => Node.handleCloseSession newCircuit.sessionId
  | sink newCircuit remotePeerId, some join => do
    let _built ← inviteCallee node newCircuit remotePeerId join
  | relay negotiate _, none => Node.handleCloseSession negotiate.sessionId
  | relay negotiate _, some next => extendSession node negotiate next

end Search

/-! ## Sound choices -/

/-- The entries of the list are texts of peer identities. -/
def Listed (l : List NodeInfo) : Prop :=
  ∀ info ∈ l, ∃ p, peerIdOfBase58 info.id = some p ∧ p.toBase58 = info.id

/-- The identities in the registry can be hashed. -/
def Readable (s : Shared) : Prop :=
  ∀ id hash, s.clientPeerMap id = some hash → (fromWhitenoiseToHash hash).isSome

/-- The peer may be tried: it is in the list, it is not this node, the bootstrap peer, the excluded
peer or one that has failed, and it is not registered here for the destination. -/
structure Proper (node : Node) (s : Shared) (l : List NodeInfo) (excluded des : String)
    (failed : List PeerId) (p : PeerId) : Prop where
  listed : ∃ info ∈ l, info.id = p.toBase58
  other : p.toBase58 ≠ node.getId
  bootstrap : ∀ b, node.bootPeerId = some b → p.toBase58 ≠ b.toBase58
  notExcluded : p.toBase58 ≠ excluded
  notFailed : p ∉ failed
  notRegistered : ∀ info, s.clientWnMap des = some info → info.peerId ≠ p

/-- Every attempt is with a proper peer. All attempts before it have failed. -/
def Sound (node : Node) (s : Shared) (l : List NodeInfo) (excluded des : String) :
    List PeerId → List (PeerId × Option WrappedStream) → Prop
  | _, [] => True
  | failed, (p, _) :: rest =>
    Proper node s l excluded des failed p ∧ Sound node s l excluded des (p :: failed) rest

omit [Codec] in
theorem Sound.eq_nil {node : Node} {s : Shared} {l : List NodeInfo} {excluded des : String}
    {failed : List PeerId} {attempts : List (PeerId × Option WrappedStream)}
    (h : Sound node s l excluded des failed attempts)
    (hnone : ∀ p, ¬ Proper node s l excluded des failed p) : attempts = [] := by
  cases attempts with
  | nil => rfl
  | cons x rest => exact absurd h.1 (hnone x.1)

/-- The identity is in the list and passes the tests of the code. -/
def Candidate (node : Node) (s : Shared) (l : List NodeInfo) (excluded des id : String) : Prop :=
  (∃ info ∈ l, info.id = id) ∧ usable node s.clientPeerMap excluded des id

instance {node : Node} {s : Shared} {l : List NodeInfo} {excluded des id : String} :
    Decidable (Candidate node s l excluded des id) :=
  inferInstanceAs (Decidable ((∃ info ∈ l, info.id = id) ∧ _))

/-- Three peers of the list pass the tests, and none that does is registered for the destination. -/
structure Suitable (node : Node) (s : Shared) (l : List NodeInfo) (excluded des : String) :
    Prop where
  enough : ∃ ids : List String, ids.Nodup ∧ ids.length = 3 ∧
    ∀ id ∈ ids, Candidate node s l excluded des id
  clear : ∀ id, Candidate node s l excluded des id →
    ∀ info, s.clientWnMap des = some info → info.peerId.toBase58 ≠ id

variable {node : Node} {s₀ s : Shared} {l : List NodeInfo} {excluded des sid : String}
  {myRole otherRole : Int32} {i : ℕ} {invalid : List String} {failed : List PeerId}
  {peer next : PeerId} {r : TurnRecord (Option PeerId)}

/-! ## One attempt -/

omit [Codec] in
/-- The peer of an attempt passes the tests, or nobody does and it is the last peer. -/
theorem picked_cases {ok : String → Bool} {index : UInt64} (hl : Listed l)
    (h : Picked l ok index peer next) :
    ((∃ info ∈ l, info.id = next.toBase58) ∧ ok next.toBase58) ∨
      (∀ info ∈ l, ok info.id = false) ∧ next = peer := by
  rw [Picked] at h
  split at h
  · next hnone =>
    right
    constructor
    · rintro info hinfo
      have hmem : info.id ∈ (around l (place l index) l.length).map NodeInfo.id :=
        List.mem_map_of_mem (mem_around hinfo)
      exact Bool.eq_false_iff.mpr (List.find?_eq_none.mp hnone info.id hmem)
    · exact h
  · next id hsome =>
    left
    obtain ⟨info, hmem, rfl⟩ := List.mem_map.mp (List.mem_of_find?_eq_some hsome)
    have hinfo := mem_of_mem_around hmem
    obtain ⟨p, hp, htext⟩ := hl info hinfo
    obtain rfl := Option.some.inj (h.symm.trans hp)
    rw [htext]
    exact ⟨⟨info, hinfo, rfl⟩, List.find?_some hsome⟩

omit [Codec] in
/-- A peer at the place of the index that passes the tests is picked. -/
theorem picked_place {ok : String → Bool} {index : UInt64} {info : NodeInfo} (hl : Listed l)
    (hinfo : l[place l index]? = some info) (hok : ok info.id) (h : Picked l ok index peer next) :
    next.toBase58 = info.id := by
  obtain ⟨hlt, hget⟩ := List.getElem?_eq_some_iff.mp hinfo
  have hplace : place l index % l.length = place l index := Nat.mod_eq_of_lt hlt
  have hround : around l (place l index) l.length =
      info :: around l (place l index + 1) (l.length - 1) := by
    have hsucc := around_succ (j := l.length - 1) (hplace.symm ▸ hlt)
    rw [Nat.sub_add_cancel (by omega)] at hsucc
    rw [hsucc]
    simp only [hplace, hget]
  rw [Picked, hround, List.map_cons, List.find?_cons, hok] at h
  obtain ⟨p, hp, htext⟩ := hl info (List.mem_of_getElem? hinfo)
  obtain rfl := Option.some.inj (h.symm.trans hp)
  exact htext

omit [Codec] in
/-- A peer of the list that passes the tests is proper, if nobody who does is registered for the
destination. -/
theorem proper_of_untried
    (hclear : ∀ id, Candidate node s₀ l excluded des id →
      ∀ info, s₀.clientWnMap des = some info → info.peerId.toBase58 ≠ id)
    (hfailed : invalid = failed.map PeerId.toBase58) (hlisted : ∃ info ∈ l, info.id = next.toBase58)
    (hok : untried node s₀.clientPeerMap excluded des invalid next.toBase58) :
    Proper node s₀ l excluded des failed next := by
  simp only [untried, Bool.and_eq_true, decide_eq_true_eq] at hok
  obtain ⟨hnew, husable⟩ := hok
  have htests := husable
  simp only [usable, decide_eq_true_eq, Option.all_eq_true] at htests
  refine ⟨hlisted, htests.1, htests.2.2.1, htests.2.1, ?_, ?_⟩
  · rintro hmem
    exact hnew (hfailed ▸ List.mem_map_of_mem hmem)
  · rintro info hinfo rfl
    exact hclear _ ⟨hlisted, husable⟩ info hinfo rfl

/-- With a candidate left for each attempt, every attempt is with a proper peer. -/
theorem sound_tryPeers (hl : Listed l) (hlen : l.length < 2 ^ 64)
    (hclear : ∀ id, Candidate node s₀ l excluded des id →
      ∀ info, s₀.clientWnMap des = some info → info.peerId.toBase58 ≠ id)
    (hs : s.clientPeerMap = s₀.clientPeerMap) (hfailed : invalid = failed.map PeerId.toBase58)
    (hleft : ∃ ids : List String, ids.Nodup ∧ i ≤ ids.length ∧
      ∀ id ∈ ids, Candidate node s₀ l excluded des id ∧ id ∉ invalid)
    (h : Turn node SameRegistry .free
      (tryPeers node l excluded des sid myRole otherRole i invalid peer) s r)
    (hfresh : Fresh l r) : Sound node s₀ l excluded des failed (attemptsOf r.asked) := by
  induction i generalizing invalid failed peer s r with
  | zero =>
    obtain rfl : r = _ := h
    trivial
  | succ i ih =>
    obtain ⟨ids, hnodup, hlength, hids⟩ := hleft
    have hproper {next : PeerId} {index : UInt64}
        (hpicked : Picked l (untried node s₀.clientPeerMap excluded des invalid) index peer next) :
        Proper node s₀ l excluded des failed next := by
      rcases picked_cases hl hpicked with ⟨hlisted, hok⟩ | ⟨hnone, -⟩
      · exact proper_of_untried hclear hfailed hlisted hok
      · obtain ⟨id, hid⟩ := List.exists_mem_of_length_pos (l := ids) (by omega)
        obtain ⟨⟨⟨info, hinfo, rfl⟩, husable⟩, hnew⟩ := hids id hid
        have hno := hnone info hinfo
        simp [untried, husable, hnew] at hno
    obtain ⟨index, -, hattempts⟩ := turn_tryPeers_succ hlen hs hfresh h
    cases hattempts with
    | failed hnone hanswer =>
      rw [hnone]
      trivial
    | opened next w hpicked hopened =>
      rw [hopened]
      exact ⟨hproper hpicked, trivial⟩
    | again next hpicked s' hs' r' hrun hfresh' hagain =>
      rw [hagain]
      refine ⟨hproper hpicked, ih hs' (by rw [hfailed]; rfl) ?_ hrun hfresh'⟩
      refine ⟨ids.erase next.toBase58, hnodup.erase _, ?_, ?_⟩
      · have hone : ids.length - 1 ≤ (ids.erase next.toBase58).length := List.le_length_erase
        omega
      · rintro id hid
        obtain ⟨hne, hmem⟩ := hnodup.mem_erase_iff.mp hid
        obtain ⟨hcandidate, hnew⟩ := hids id hmem
        refine ⟨hcandidate, ?_⟩
        rintro hbad
        rcases List.mem_cons.mp hbad with heq | hbad
        · exact hne heq
        · exact hnew hbad

/-- A run with all its attempts, all proper, has a candidate for each of them. -/
theorem candidates_of_sound (hl : Listed l) (hlen : l.length < 2 ^ 64)
    (hs : s.clientPeerMap = s₀.clientPeerMap)
    (hpeer : peer ∈ failed ∨ ∀ info ∈ l, peer.toBase58 ≠ info.id)
    (h : Turn node SameRegistry .free
      (tryPeers node l excluded des sid myRole otherRole i invalid peer) s r)
    (hfresh : Fresh l r) (hlength : (attemptsOf r.asked).length = i)
    (hsound : Sound node s₀ l excluded des failed (attemptsOf r.asked)) :
    ∃ ids : List String, ids.Nodup ∧ ids.length = i ∧
      ∀ id ∈ ids, Candidate node s₀ l excluded des id ∧ id ∉ invalid := by
  induction i generalizing invalid failed peer s r with
  | zero => exact ⟨[], List.nodup_nil, rfl, by simp⟩
  | succ i ih =>
    have hnext {next : PeerId} {index : UInt64}
        (hpicked : Picked l (untried node s₀.clientPeerMap excluded des invalid) index peer next)
        (hproper : Proper node s₀ l excluded des failed next) :
        Candidate node s₀ l excluded des next.toBase58 ∧ next.toBase58 ∉ invalid := by
      rcases picked_cases hl hpicked with ⟨hlisted, hok⟩ | ⟨-, rfl⟩
      · simp only [untried, Bool.and_eq_true, decide_eq_true_eq] at hok
        exact ⟨⟨hlisted, hok.2⟩, hok.1⟩
      · obtain ⟨info, hinfo, hid⟩ := hproper.listed
        rcases hpeer with hmem | hnone
        · exact absurd hmem hproper.notFailed
        · exact absurd hid.symm (hnone info hinfo)
    obtain ⟨index, -, hattempts⟩ := turn_tryPeers_succ hlen hs hfresh h
    cases hattempts with
    | failed hnone hanswer =>
      rw [hnone] at hlength
      cases hlength
    | opened next w hpicked hopened =>
      rw [hopened] at hlength hsound
      obtain rfl : 0 = i := Nat.succ.inj hlength
      obtain ⟨hcandidate, hnew⟩ := hnext hpicked hsound.1
      refine ⟨[next.toBase58], List.nodup_singleton _, rfl, ?_⟩
      rintro id hid
      obtain rfl := List.mem_singleton.mp hid
      exact ⟨hcandidate, hnew⟩
    | again next hpicked s' hs' r' hrun hfresh' hagain =>
      rw [hagain] at hlength hsound
      obtain ⟨hcandidate, hnew⟩ := hnext hpicked hsound.1
      obtain ⟨ids, hnodup, hcount, hids⟩ := ih hs' (Or.inl List.mem_cons_self) hrun hfresh'
        (Nat.succ.inj hlength) hsound.2
      refine ⟨next.toBase58 :: ids, ?_, congrArg Nat.succ hcount, ?_⟩
      · refine List.nodup_cons.mpr ⟨?_, hnodup⟩
        rintro hmem
        exact (hids _ hmem).2 List.mem_cons_self
      · rintro id hid
        rcases List.mem_cons.mp hid with rfl | hid
        · exact ⟨hcandidate, hnew⟩
        · obtain ⟨hcandidate', hnew'⟩ := hids id hid
          exact ⟨hcandidate', fun hmem => hnew' (List.mem_cons_of_mem _ hmem)⟩

/-! ## A run of failures -/

variable {p₀ : PeerId}

/-- The program has a run to an answer that changes nothing and draws no peer identity but the given
one. -/
def Watches (node : Node) (p₀ : PeerId) (s : Shared) {α : Type} (p : Async α) : Prop :=
  ∃ r, Turn node SameRegistry .free p s r ∧ r.answer.isSome ∧ r.state = s ∧
    ∀ x ∈ r.asked, x = ⟨.randomPeerId, p₀⟩

theorem watches_ret {α : Type} (a : α) : Watches node p₀ s (.ret a : Async α) :=
  ⟨_, rfl, rfl, rfl, by simp⟩

theorem watches_read {α : Type} {k : Shared → Async α} (h : Watches node p₀ s (k s)) :
    Watches node p₀ s (.atomic id k) := by
  obtain ⟨r, hrun, hrest⟩ := h
  exact ⟨r, .here .go ⟨rfl, rfl⟩ hrun, hrest⟩

theorem watches_random {α : Type} {k : PeerId → Async α} (h : Watches node p₀ s (k p₀)) :
    Watches node p₀ s (.act .randomPeerId k) := by
  obtain ⟨r, hrun, hanswer, hstate, hasked⟩ := h
  have hreply : (nodeSemantics node).reply .randomPeerId (.peer p₀) s = some ⟨p₀, s, [], []⟩ := rfl
  refine ⟨_, Semantics.Amid.reply ⟨rfl, rfl⟩ hreply hrun, hanswer, hstate, ?_⟩
  rintro x hx
  rcases List.mem_cons.mp hx with rfl | hx
  · rfl
  · exact hasked x hx

theorem Watches.bind {α β : Type} {p : Async α} {g : α → Async β} (h : Watches node p₀ s p)
    (hg : ∀ a, Watches node p₀ s (g a)) : Watches node p₀ s (p >>= g) := by
  obtain ⟨r, hrun, hanswer, hstate, hasked⟩ := h
  obtain ⟨a, ha⟩ := Option.isSome_iff_exists.mp hanswer
  obtain ⟨r', hrun', hanswer', hstate', hasked'⟩ := hg a
  refine ⟨r.append r', .seq hrun ha (hstate.symm ▸ hrun'), hanswer', hstate', ?_⟩
  rintro x hx
  rcases List.mem_append.mp hx with hx | hx
  · exact hasked x hx
  · exact hasked' x hx

theorem watches_eligible {id : String} (hs : Readable s) :
    Watches node p₀ s (eligible node invalid excluded des id) := by
  have hregistered : Watches node p₀ s (notRegistered id des) := by
    apply watches_read
    beta_reduce
    cases hid : s.clientPeerMap id with
    | none => exact watches_ret _
    | some hash =>
      obtain ⟨x, hx⟩ := Option.isSome_iff_exists.mp (hs id hash hid)
      simp only [Prog.bind_eq, Prog.ret_bind, hx, Prog.unwrap_some]
      exact watches_ret _
  have htail (p : PeerId) : Watches node p₀ s
      (if id ∉ invalid ∧ id ≠ node.getId ∧ id ≠ excluded ∧ id ≠ p.toBase58 then
        notRegistered id des
      else
        return false) := by
    split
    · exact hregistered
    · exact watches_ret _
  rw [eligible_eq]
  cases node.bootPeerId with
  | none => exact watches_random (htail p₀)
  | some p => exact htail p

theorem watches_scanPeers {j : ℕ} {index : UInt64} (hs : Readable s) (hj : 0 < j → 0 < l.length) :
    Watches node p₀ s (scanPeers node l invalid excluded des j index) := by
  induction j generalizing index with
  | zero => exact watches_ret _
  | succ j ih =>
    have hlt : (index + 1).toNat % l.length < l.length := Nat.mod_lt _ (hj (Nat.succ_pos j))
    unfold scanPeers
    simp only [List.getElem?_eq_getElem hlt, Prog.unwrap_some, Prog.ret_bind]
    apply (watches_eligible hs).bind
    rintro ok
    split
    · exact watches_ret _
    · exact ih fun _ => hj (Nat.succ_pos j)

/-- All attempts of the run have failed. -/
structure Failing (l : List NodeInfo) (i : ℕ) (r : TurnRecord (Option PeerId)) : Prop where
  answer : r.answer = some none
  fresh : Fresh l r
  attempts : (attemptsOf r.asked).length = i

theorem exists_attempt
    (h : ∃ r, Turn node SameRegistry .free (tryPeers node l excluded des sid myRole otherRole i
      (next.toBase58 :: invalid) next) s r ∧ Failing l i r) :
    ∃ r, Turn node SameRegistry .free
      (attempt node l excluded des sid myRole otherRole i invalid next) s r ∧
        Failing l (i + 1) r := by
  obtain ⟨r, hrun, hfailing⟩ := h
  have hreply : (nodeSemantics node).reply (.newRelayStream next) (.stream none) s =
      some ⟨none, s, [], []⟩ := rfl
  rw [attempt, Node.newSessionToPeer_eq]
  refine ⟨_, Semantics.Amid.reply ⟨rfl, rfl⟩ hreply hrun, hfailing.answer, ?_, ?_⟩
  · rintro p hp
    rcases List.mem_cons.mp hp with heq | hp
    · cases heq
    · exact hfailing.fresh p hp
  · change (attemptsOf r.asked).length + 1 = i + 1
    rw [hfailing.attempts]

/-- The index is drawn and the scan made, whatever is done with what it finds. -/
theorem exists_scan (index : UInt64) (hlen : l.length < 2 ^ 64) (hs : Readable s)
    (hp₀ : ∀ info ∈ l, p₀.toBase58 ≠ info.id) {g : Option String → Async (Option PeerId)}
    (hg : ∀ found : Option String, (∀ id ∈ found, ∃ info ∈ l, info.id = id) →
      ∃ r, Turn node SameRegistry .free (g found) s r ∧ Failing l i r) :
    ∃ r, Turn node SameRegistry .free
      (.act .randomUsize fun index => scanPeers node l invalid excluded des l.length index >>= g) s r ∧
        Failing l i r ∧ ∃ rest, r.asked = ⟨.randomUsize, index⟩ :: rest := by
  obtain ⟨r, hscan, hanswer, hstate, hasked⟩ : Watches node p₀ s
      (scanPeers node l invalid excluded des l.length index) := watches_scanPeers hs fun h => h
  obtain ⟨found, hfound⟩ := Option.isSome_iff_exists.mp hanswer
  have hfresh : Fresh l r := by
    rintro p hp
    cases hasked _ hp
    exact hp₀
  have hfind := turn_scanPeers hlen (Nat.mod_mod (index + 1).toNat l.length).symm rfl hscan hfresh
    hfound
  have hlisted : ∀ id ∈ found, ∃ info ∈ l, info.id = id := by
    rintro id hid
    rw [Option.mem_def.mp hid] at hfind
    obtain ⟨info, hmem, heq⟩ := List.mem_map.mp (List.mem_of_find?_eq_some hfind.symm)
    exact ⟨info, mem_of_mem_around hmem, heq⟩
  obtain ⟨r', hrun', hfailing⟩ := hg found hlisted
  have hreply : (nodeSemantics node).reply .randomUsize (.usize index) s =
      some ⟨index, s, [], []⟩ := rfl
  refine ⟨_, Semantics.Amid.reply ⟨rfl, rfl⟩ hreply
    (Semantics.Amid.seq hscan hfound (hstate.symm ▸ hrun')), ⟨hfailing.answer, ?_, ?_⟩, _, rfl⟩
  · rintro p hp
    rcases List.mem_cons.mp hp with heq | hp
    · cases heq
    · rcases List.mem_append.mp hp with hp | hp
      · exact hfresh p hp
      · exact hfailing.fresh p hp
  · change (attemptsOf (r.asked ++ r'.asked)).length = i
    rw [attemptsOf_append, looks_scanPeers.attempts hscan, List.nil_append, hfailing.attempts]

/-- Whatever the first index, all attempts may fail. -/
theorem exists_tryPeers (index : UInt64) (hl : Listed l) (hlen : l.length < 2 ^ 64)
    (hs : Readable s) (hp₀ : ∀ info ∈ l, p₀.toBase58 ≠ info.id) :
    ∃ r, Turn node SameRegistry .free
      (tryPeers node l excluded des sid myRole otherRole i invalid peer) s r ∧ Failing l i r ∧
        (0 < i → ∃ rest, r.asked = ⟨.randomUsize, index⟩ :: rest) := by
  induction i generalizing invalid peer with
  | zero =>
    refine ⟨_, rfl, ⟨rfl, ?_, rfl⟩, by simp⟩
    rintro p hp
    cases hp
  | succ i ih =>
    have hattempt (next : PeerId) : ∃ r, Turn node SameRegistry .free
        (attempt node l excluded des sid myRole otherRole i invalid next) s r ∧
          Failing l (i + 1) r := by
      apply exists_attempt
      obtain ⟨r, hrun, hfailing, -⟩ := @ih (next.toBase58 :: invalid) next
      exact ⟨r, hrun, hfailing⟩
    unfold tryPeers
    rw [Prog.call_bind]
    refine (exists_scan index hlen hs hp₀ ?_).imp fun r h => ⟨h.1, h.2.1, fun _ => h.2.2⟩
    rintro (_ | id) hlisted
    · exact hattempt peer
    · obtain ⟨info, hinfo, rfl⟩ := hlisted _ rfl
      obtain ⟨p, hp, -⟩ := hl info hinfo
      simp only [hp, Prog.unwrap_some, Prog.ret_bind]
      exact hattempt p

/-! ## Around the attempts -/

/-- The attempts stand between the request for the list and what is done after them. -/
theorem Search.program_eq (node : Node) (search : Search) : ∃ k : Option (List NodeInfo) → Async Unit,
    search.program node = .act (.getMainNets 100) k ∧
      ∀ l, k (some l) = .act .randomPeerId fun p =>
        tryPeers node l search.excluded search.destination search.sessionId search.myRole
          search.otherRole 3 [] p >>= search.after node := by
  cases search with
  | sink newCircuit remotePeerId =>
    refine ⟨_, rfl, fun l => ?_⟩
    change Prog.act _ _ = _
    congr
    funext p
    change (tryPeers node l remotePeerId.toBase58 newCircuit.toId newCircuit.sessionId
      SessionRole.entryRole.toI32 SessionRole.sinkRole.toI32 3 [] p >>= _) >>= _ = _
    rw [bind_assoc]
    congr
    funext o
    cases o with
    | none => exact (Prog.bind_assoc (Node.handleCloseSession _) _ _).trans (Prog.bind_ret _)
    | some join => rfl
  | relay negotiate des =>
    refine ⟨_, rfl, fun l => ?_⟩
    change Prog.act _ _ = _
    congr
    funext p
    change tryPeers node l negotiate.join des negotiate.sessionId SessionRole.accessRole.toI32
      SessionRole.relayRole.toI32 3 [] p >>= _ = _
    congr
    funext o
    cases o <;> rfl

/-- A request of the search itself. -/
def Seeks : Act → Prop
  | .newRelayStream _ | .randomPeerId => True
  | _ => False

abbrev Done {α : Type} (p : Async α) : Prop :=
  p.Within (fun _ => True) (fun a => ¬ Seeks a) fun _ => True

omit [Codec] in
theorem done_of_prompt {α : Type} {p : Async α} (hp : Prompt p) : Done p := by
  refine hp.mono (fun _ h => h) ?_ fun _ h => h
  rintro a ha
  cases a with
  | newRelayStream | randomPeerId => exact ha.elim
  | _ => exact not_false

omit [Codec] in
theorem done_sendRelayTwoway {session : Session} {relay : Relay} :
    Done (sendRelayTwoway session relay) := by
  unfold sendRelayTwoway
  cases session.pairStream.earlyStream <;> cases session.pairStream.laterStream
  · trivial
  · exact ⟨not_false, fun _ => trivial⟩
  · exact ⟨not_false, fun _ => trivial⟩
  · exact ⟨not_false, fun _ => ⟨not_false, fun _ => trivial⟩⟩

omit [Codec] in
theorem done_wait {α : Type} {key : String} {q : NodeRequest} {g : Ack → Async α}
    (hg : ∀ ack, Done (g ack)) : Done (Node.externalSendNodeRequestAndWait key q >>= g) := by
  refine ⟨trivial, fun s => ⟨not_false, fun _ => ⟨not_false, ?_⟩⟩⟩
  rintro (_ | ack)
  · trivial
  · exact hg ack

omit [Codec] in
theorem done_getSession {α : Type} {g : Option Session → Async α} (hg : ∀ o, Done (g o)) :
    Done (Async.getSession sid >>= g) := ⟨trivial, fun _ => hg _⟩

theorem done_after {search : Search} {o : Option PeerId} : Done (search.after node o) := by
  cases search with
  | sink newCircuit remotePeerId =>
    cases o with
    | none => exact done_of_prompt (handleCloseSession_prompt newCircuit.sessionId)
    | some join =>
      simp only [Search.after, inviteCallee, bind_assoc]
      apply done_wait
      rintro ack
      refine ⟨not_false, ?_⟩
      rintro (_ | ok)
      · trivial
      · apply done_getSession
        rintro (_ | session)
        · trivial
        · refine .bind (.bind ?_)
          exact done_sendRelayTwoway.mono (fun _ h => h) (fun _ h => h) fun _ _ => trivial
  | relay negotiate des =>
    cases o with
    | none => exact done_of_prompt (handleCloseSession_prompt negotiate.sessionId)
    | some next =>
      simp only [Search.after, extendSession]
      apply done_wait
      rintro ack
      split
      · exact done_of_prompt (handleCloseSession_prompt negotiate.sessionId)
      · apply done_getSession
        rintro (_ | session)
        · trivial
        · exact done_sendRelayTwoway

/-! ## Whole searches -/

/-- The search gets the list. -/
def Given (l : List NodeInfo) (r : TurnRecord Unit) : Prop :=
  ∃ rest, r.asked = ⟨.getMainNets 100, some l⟩ :: rest

theorem Done.attempts {α : Type} {p : Async α} {r : TurnRecord α} (hp : Done p)
    (h : Turn node SameRegistry .free p s r) : attemptsOf r.asked = [] ∧ Fresh l r := by
  have hseeks := (h.within hp).1
  constructor
  · apply attemptsOf_eq_nil
    rintro x hx peer hpeer
    have hnot := hseeks x hx
    rw [hpeer] at hnot
    exact hnot trivial
  · rintro p hp
    exact absurd trivial (hseeks _ hp)

/-- A search that gets the list makes the attempts of a run of `tryPeers`. -/
theorem turn_search {search : Search} {r : TurnRecord Unit}
    (h : Turn node SameRegistry .free (search.program node) s r) (hgiven : Given l r)
    (hfresh : Fresh l r) :
    ∃ p₀ s' r', SameRegistry s s' ∧ Turn node SameRegistry .free
      (tryPeers node l search.excluded search.destination search.sessionId search.myRole
        search.otherRole 3 [] p₀) s' r' ∧ Fresh l r' ∧ attemptsOf r.asked = attemptsOf r'.asked := by
  obtain ⟨k, hprogram, hk⟩ := search.program_eq node
  rw [hprogram] at h
  obtain ⟨s₁, o, r₁, hs₁, h₁, rfl⟩ := turn_getMainNets h
  obtain ⟨rest, hrest⟩ := hgiven
  obtain ⟨hhead, -⟩ := List.cons.inj hrest
  cases hhead
  rw [hk] at h₁
  obtain ⟨s₂, p₀, r₂, hs₂, h₂, rfl⟩ := turn_draws draws_randomPeerId h₁
  have hfresh₂ : Fresh l r₂ :=
    fun p hp => hfresh p (List.mem_cons_of_mem _ (List.mem_cons_of_mem _ hp))
  rcases Semantics.Amid.bind h₂ with ⟨r', h', hnone, rfl⟩ | ⟨r', o, r₃, h', ho, h₃, rfl⟩
  · exact ⟨p₀, s₂, r', hs₁.trans hs₂, h', hfresh₂, rfl⟩
  · obtain ⟨hattempts, -⟩ := done_after.attempts (l := l) h₃
    refine ⟨p₀, s₂, r', hs₁.trans hs₂, h', fun p hp => hfresh₂ p (List.mem_append_left _ hp), ?_⟩
    change attemptsOf (r'.asked ++ r₃.asked) = _
    rw [attemptsOf_append, hattempts, List.append_nil]

/-- Whatever the first index, all attempts of a search may fail. -/
theorem exists_search (node : Node) (search : Search) (index : UInt64) (hl : Listed l)
    (hlen : l.length < 2 ^ 64) (hs : Readable s) (hp₀ : ∀ info ∈ l, p₀.toBase58 ≠ info.id) :
    ∃ r r', Turn node SameRegistry .free (search.program node) s r ∧ Given l r ∧ Fresh l r ∧
      Turn node SameRegistry .free
        (tryPeers node l search.excluded search.destination search.sessionId search.myRole
          search.otherRole 3 [] p₀) s r' ∧ Failing l 3 r' ∧
      (∃ rest, r'.asked = ⟨.randomUsize, index⟩ :: rest) ∧
      attemptsOf r.asked = attemptsOf r'.asked := by
  obtain ⟨k, hprogram, hk⟩ := search.program_eq node
  obtain ⟨r', h', hfailing, hindex⟩ : ∃ r', Turn node SameRegistry .free
      (tryPeers node l search.excluded search.destination search.sessionId search.myRole
        search.otherRole 3 [] p₀) s r' ∧ Failing l 3 r' ∧
        (0 < 3 → ∃ rest, r'.asked = ⟨.randomUsize, index⟩ :: rest) :=
    exists_tryPeers index hl hlen hs hp₀
  obtain ⟨r₃, h₃, -⟩ : ∃ r₃, Turn node SameRegistry .free (search.after node none) r'.state r₃ ∧
      Heard r₃ := by
    refine exists_prompt ?_ node (fun _ => ⟨rfl, rfl⟩) r'.state
    cases search with
    | sink newCircuit _ => exact handleCloseSession_prompt newCircuit.sessionId
    | relay negotiate _ => exact handleCloseSession_prompt negotiate.sessionId
  obtain ⟨hattempts, hfresh₃⟩ := done_after.attempts (l := l) h₃
  have hlist : (nodeSemantics node).reply (.getMainNets 100) (.nodeInfos (some l)) s =
      some ⟨some l, s, [], []⟩ := rfl
  have hpeer : (nodeSemantics node).reply .randomPeerId (.peer p₀) s = some ⟨p₀, s, [], []⟩ := rfl
  have hrest : Turn node SameRegistry .free (k (some l)) s
      ((r'.append r₃).after ⟨.randomPeerId, p₀⟩ [] []) := by
    rw [hk]
    exact Semantics.Amid.reply ⟨rfl, rfl⟩ hpeer (Semantics.Amid.seq h' hfailing.answer h₃)
  rw [hprogram]
  refine ⟨_, r', Semantics.Amid.reply ⟨rfl, rfl⟩ hlist hrest, ⟨_, rfl⟩, ?_, h', hfailing,
    hindex (by decide), ?_⟩
  · rintro p hp
    rcases List.mem_cons.mp hp with heq | hp
    · cases heq
    · rcases List.mem_cons.mp hp with heq | hp
      · cases heq
        exact hp₀
      · rcases List.mem_append.mp hp with hp | hp
        · exact hfailing.fresh p hp
        · exact hfresh₃ p hp
  · change attemptsOf (r'.asked ++ r₃.asked) = _
    rw [attemptsOf_append, hattempts, List.append_nil]

omit [Codec] [Crypto] in
/-- An index whose place is the given one. -/
theorem exists_place {k : ℕ} (hk : k < l.length) (hlen : l.length < 2 ^ 64) :
    ∃ index, place l index = k := by
  refine ⟨UInt64.ofNat k - 1, ?_⟩
  rw [place, UInt64.sub_add_cancel, UInt64.toNat_ofNat_of_lt' (hk.trans hlen), Nat.mod_eq_of_lt hk]

/-- Every attempt of every run of a search is with a proper peer exactly if three peers of the list
pass the tests of the code and none that does is registered for the destination. -/
theorem search_sound (node : Node) (search : Search) (s : Shared) (l : List NodeInfo)
    (hl : Listed l) (hlen : l.length < 2 ^ 64) (hs : Readable s) :
    (∀ r, Turn node SameRegistry .free (search.program node) s r → Given l r → Fresh l r →
      Sound node s l search.excluded search.destination [] (attemptsOf r.asked) ∧
        ((∀ p, ¬ Proper node s l search.excluded search.destination [] p) →
          attemptsOf r.asked = [])) ↔
    Suitable node s l search.excluded search.destination := by
  constructor
  · rintro hsound
    obtain ⟨x, hx⟩ := Infinite.exists_notMem_finset (l.map NodeInfo.id).toFinset
    have hp₀ : ∀ info ∈ l, (⟨x⟩ : PeerId).toBase58 ≠ info.id := by
      rintro info hinfo rfl
      exact hx (List.mem_toFinset.mpr (List.mem_map_of_mem hinfo))
    constructor
    · obtain ⟨r, r', hrun, hgiven, hfresh, h', hfailing, -, hattempts⟩ :=
        exists_search node search 0 hl hlen hs hp₀
      obtain ⟨hsound', -⟩ := hsound r hrun hgiven hfresh
      rw [hattempts] at hsound'
      obtain ⟨ids, hnodup, hlength, hids⟩ := candidates_of_sound hl hlen rfl (Or.inr hp₀) h'
        hfailing.fresh hfailing.attempts hsound'
      exact ⟨ids, hnodup, hlength, fun id hid => (hids id hid).1⟩
    · rintro id ⟨⟨info, hinfo, rfl⟩, husable⟩ client hclient hsame
      obtain ⟨k, hk, hget⟩ := List.getElem_of_mem hinfo
      obtain ⟨index, hplace⟩ := exists_place hk hlen
      obtain ⟨r, r', hrun, hgiven, hfresh, h', hfailing, ⟨rest, hasked⟩, hattempts⟩ :=
        exists_search node search index hl hlen hs hp₀
      obtain ⟨hsound', -⟩ := hsound r hrun hgiven hfresh
      have hlength := hfailing.attempts
      rw [hattempts] at hsound'
      obtain ⟨index', ⟨rest', hasked'⟩, hfirst⟩ := turn_tryPeers_succ hlen rfl hfailing.fresh h'
      rw [hasked] at hasked'
      cases hasked'
      cases hfirst with
      | failed hnone hanswer => simp [hnone] at hlength
      | opened next w hpicked hopened => simp [hopened] at hlength
      | again next hpicked s' hs' r₂ hrun₂ hfresh₂ hagain =>
        rw [hagain] at hsound'
        have hnext : next.toBase58 = info.id := by
          refine picked_place hl ?_ ?_ hpicked
          · rw [hplace, List.getElem?_eq_getElem hk, hget]
          · simp [untried, husable]
        exact hsound'.1.notRegistered client hclient (congrArg PeerId.mk (hsame.trans hnext.symm))
  · rintro hsuitable r hrun hgiven hfresh
    obtain ⟨p₀, s', r', hs', h', hfresh', hattempts⟩ := turn_search hrun hgiven hfresh
    obtain ⟨ids, hnodup, hlength, hids⟩ := hsuitable.enough
    have hsound : Sound node s l search.excluded search.destination [] (attemptsOf r.asked) := by
      rw [hattempts]
      exact sound_tryPeers hl hlen hsuitable.clear hs'.peers rfl
        ⟨ids, hnodup, hlength.ge, fun id hid => ⟨hids id hid, by simp⟩⟩ h' hfresh'
    exact ⟨hsound, hsound.eq_nil⟩

/-! ## The registry can be read -/

/-- The text of a digest can be hashed again. -/
def Rehashable : Prop :=
  ∀ b, (fromWhitenoiseToHash (Crypto.bs58Encode (Crypto.sha256 b))).isSome

omit [Codec] in
theorem Readable.update {id : String} {hash : Option String}
    (hhash : ∀ x, hash = some x → (fromWhitenoiseToHash x).isSome) (hs : Readable s) :
    Readable { s with clientPeerMap := Function.update s.clientPeerMap id hash } := by
  rintro id' x hx
  dsimp only at hx
  rw [Function.update_apply] at hx
  split at hx
  · exact hhash x hx
  · exact hs id' x hx

theorem rehashable_newProxyHash {request : Request} {hash : String} (hre : Rehashable)
    (h : Registry.newProxyHash request = some hash) : (fromWhitenoiseToHash hash).isSome := by
  simp only [Registry.newProxyHash, fromWhitenoiseToHash, Option.bind_eq_bind,
    Option.bind_eq_some_iff, Option.some.injEq] at h
  obtain ⟨-, -, -, -, b, -, rfl⟩ := h
  exact hre b

/-- A request that registers or unregisters keeps the registry readable. -/
theorem readable_within {r : NodeProxyRequest} (hre : Rehashable) (hr : Registry.IsRegistry r) :
    (processProxyRequest node r).Within (fun f => ∀ s, Readable s → Readable (f s))
      (fun _ => True) fun _ => True := by
  rcases hr with hun | ⟨request, hreg⟩
  · rw [Registry.processProxyRequest_unregisters hun]
    constructor
    · rintro s hs
      exact hs.update nofun
    · rintro s
      beta_reduce
      cases s.clientPeerMap r.remotePeerId.toBase58 with
      | none => trivial
      | some hash => exact ⟨fun s hs => hs, fun _ => trivial⟩
  · rw [Registry.processProxyRequest_registers hreg]
    rcases Registry.handleNewProxy_cases request r.remotePeerId with hfail | ⟨msg, hash, hhash, heq⟩
    · rw [hfail]
      trivial
    · rw [heq]
      refine ⟨fun s hs => hs, fun s => ?_⟩
      beta_reduce
      split
      · exact ⟨trivial, fun _ => trivial⟩
      · constructor
        · rintro s hs
          apply hs.update
          rintro x hx
          obtain rfl := Option.some.inj hx
          exact rehashable_newProxyHash hre hhash
        · rintro -
          exact ⟨fun s hs => hs, fun _ => ⟨trivial, fun _ => trivial⟩⟩

theorem readable_kept {q : NodeProxyRequest} {r : TurnRecord Unit} (hre : Rehashable)
    (hq : Registry.IsRegistry q) (hs : Readable s)
    (h : Turn node (fun s s' => Readable s → Readable s') .free (processProxyRequest node q) s r) :
    Readable r.state := by
  refine h.state_within (fun _ _ h => h) (fun _ h => h) ?_ (readable_within hre hq) hs
  rintro a - c s x hx hs id hash hid
  rw [(reply_sameMaps hx).clientPeerMap] at hid
  exact hs id hash hid

end Generic

/-! ## A node with three peers and one with none -/

namespace Sample

def node : Node := ⟨(⟨.ed25519, List.replicate 32 7⟩ : Ideal.Keypair), none, none⟩

def peer (n : UInt8) : PeerId := ⟨Wire.Base58.encode [0, 1, n]⟩

def search : Search := .relay ⟨(peer 9).toBase58, "session", "destination", []⟩ "destination"

def three : List NodeInfo :=
  [⟨(peer 1).toBase58, []⟩, ⟨(peer 2).toBase58, []⟩, ⟨(peer 3).toBase58, []⟩]

theorem listed_three : Listed three := by
  have hpeer (n : UInt8) : peerIdOfBase58 (peer n).toBase58 = some (peer n) := by
    have hdec : Crypto.bs58Decode (peer n).toBase58 = some [0, 1, n] := Base58.decode_encode _
    rw [peerIdOfBase58, hdec]
    rfl
  simp only [Listed, three, List.forall_mem_cons]
  exact ⟨⟨_, hpeer 1, rfl⟩, ⟨_, hpeer 2, rfl⟩, ⟨_, hpeer 3, rfl⟩, by simp⟩

theorem suitable_three : Suitable node {} three search.excluded search.destination where
  enough := ⟨three.map NodeInfo.id, by decide +kernel, rfl, by decide +kernel⟩
  clear id hid info hinfo := by cases hinfo

end Sample

theorem search_sound_three :
    Suitable Sample.node {} Sample.three Sample.search.excluded Sample.search.destination ∧
    ∀ r, Turn Sample.node SameRegistry .free (Sample.search.program Sample.node) {} r →
      Given Sample.three r → Fresh Sample.three r →
      Sound Sample.node {} Sample.three Sample.search.excluded Sample.search.destination []
          (attemptsOf r.asked) ∧
        ((∀ p, ¬ Proper Sample.node {} Sample.three Sample.search.excluded
          Sample.search.destination [] p) → attemptsOf r.asked = []) := by
  constructor
  · exact Sample.suitable_three
  · exact (search_sound Sample.node Sample.search {} Sample.three Sample.listed_three (by decide)
      nofun).mpr Sample.suitable_three

/-- The list is empty, and a peer that nobody has named is tried. -/
theorem not_search_sound :
    ∃ r, Turn Sample.node SameRegistry .free (Sample.search.program Sample.node) {} r ∧
      Given [] r ∧ Fresh [] r ∧ attemptsOf r.asked ≠ [] ∧
      ¬ Sound Sample.node {} [] Sample.search.excluded Sample.search.destination []
        (attemptsOf r.asked) := by
  obtain ⟨r, r', hrun, hgiven, hfresh, -, hfailing, -, hattempts⟩ :=
    @exists_search _ _ {} [] ⟨""⟩ Sample.node Sample.search 0 nofun (by decide) nofun nofun
  have hlength := hfailing.attempts
  rw [← hattempts] at hlength
  refine ⟨r, hrun, hgiven, hfresh, ?_, ?_⟩
  · rintro hnil
    rw [hnil] at hlength
    cases hlength
  · rintro hsound
    obtain ⟨x, rest, hx⟩ := List.exists_cons_of_length_eq_add_one hlength
    rw [hx] at hsound
    obtain ⟨info, hinfo, -⟩ := hsound.1.listed
    cases hinfo

end WhiteNoise.Quest
