import WhiteNoise.Session.Turns

/-! # Choosing a peer from a list

Starting at a random place, the scan goes round the list to the first peer that
passes its tests. While the registry stays as it is, what it finds is a
function of the list and of the place.
-/

namespace WhiteNoise.Candidates

open Wire Process RequestLoops

/-! ## Going round a list -/

section Around

variable {α : Type} {l : List α} {p j : ℕ} {x : α}

/-- The `j` elements from place `p` on, going round. -/
def around (l : List α) (p j : ℕ) : List α := (List.range' p j).filterMap fun m => l[m % l.length]?

theorem around_succ (h : p % l.length < l.length) :
    around l p (j + 1) = l[p % l.length] :: around l (p + 1) j := by
  rw [around, List.range'_succ, List.filterMap_cons, List.getElem?_eq_getElem h]
  rfl

theorem mem_of_mem_around (h : x ∈ around l p j) : x ∈ l := by
  obtain ⟨m, -, hm⟩ := List.mem_filterMap.mp h
  exact List.mem_of_getElem? hm

/-- A whole round passes every element. -/
theorem mem_around (h : x ∈ l) : x ∈ around l p l.length := by
  obtain ⟨q, hq, rfl⟩ := List.getElem_of_mem h
  have hpos : 0 < l.length := Nat.lt_of_le_of_lt (Nat.zero_le q) hq
  have hlt : (q + l.length - p % l.length) % l.length < l.length := Nat.mod_lt _ hpos
  rw [around, List.mem_filterMap]
  refine ⟨p + (q + l.length - p % l.length) % l.length, ?_, ?_⟩
  · rw [List.mem_range'_1]
    omega
  · have hp : p % l.length < l.length := Nat.mod_lt _ hpos
    have hround : (p + (q + l.length - p % l.length) % l.length) % l.length = q := by
      calc (p + (q + l.length - p % l.length) % l.length) % l.length
          = (p % l.length + (q + l.length - p % l.length)) % l.length := by simp [Nat.add_mod]
        _ = (q + l.length) % l.length := by congr 1; omega
        _ = q := by rw [Nat.add_mod_right, Nat.mod_eq_of_lt hq]
    rw [hround, List.getElem?_eq_getElem hq]

end Around

section Generic

variable [Codec] [Crypto]

/-! ## The tests -/

/-- The tests of a peer that do not depend on the attempts so far: it is not this node, not the
excluded peer, not the bootstrap peer, and the digest of what it is registered under here is not the
destination. -/
def usable (node : Node) (peers : String → Option String) (excluded des id : String) : Bool :=
  id ≠ node.getId ∧ id ≠ excluded ∧ (node.bootPeerId.all fun b => id ≠ b.toBase58) ∧
    (peers id).all fun hash => fromWhitenoiseToHash hash ≠ some des

/-- The others leave the registry alone. -/
structure SameRegistry (s s' : Shared) : Prop where
  peers : s'.clientPeerMap = s.clientPeerMap
  wn : s'.clientWnMap = s.clientWnMap

/-- No random peer identity is that of a peer in the list. -/
def Fresh {α : Type} (l : List NodeInfo) (r : TurnRecord α) : Prop :=
  ∀ p, (⟨.randomPeerId, p⟩ : Sigma Act.Res) ∈ r.asked → ∀ info ∈ l, p.toBase58 ≠ info.id

variable {node : Node} {peers : String → Option String} {invalid : List String}
  {excluded des id : String} {s : Shared}

theorem turn_notRegistered {r : TurnRecord Bool} (hs : s.clientPeerMap = peers)
    (h : Turn node SameRegistry .free (notRegistered id des) s r) {ok : Bool}
    (hok : r.answer = some ok) :
    ok = (peers id).all fun hash => fromWhitenoiseToHash hash ≠ some des := by
  obtain ⟨s', -, hs', -, h'⟩ := h
  rw [← hs, ← hs'.peers]
  beta_reduce at h'
  cases hid : s'.clientPeerMap id with
  | none =>
    rw [hid] at h'
    obtain rfl : r = _ := h'
    cases hok
    rfl
  | some hash =>
    simp only [hid, Prog.bind_eq, Prog.ret_bind] at h'
    cases hhash : fromWhitenoiseToHash hash with
    | none =>
      rw [hhash] at h'
      obtain rfl : r = _ := h'
      cases hok
    | some x =>
      rw [hhash] at h'
      obtain rfl : r = _ := h'
      obtain rfl := Option.some.inj hok
      simp only [Option.all_some, hhash, bne, beq_eq_decide, ne_eq, Option.some.injEq,
        decide_not]

theorem turn_eligible {r : TurnRecord Bool} (hs : s.clientPeerMap = peers)
    (h : Turn node SameRegistry .free (eligible node invalid excluded des id) s r)
    (hfresh : ∀ p, (⟨.randomPeerId, p⟩ : Sigma Act.Res) ∈ r.asked → p.toBase58 ≠ id) {ok : Bool}
    (hok : r.answer = some ok) :
    ok = (decide (id ∉ invalid) && usable node peers excluded des id) := by
  have htail {p : PeerId} {s : Shared} {r : TurnRecord Bool} (hs : s.clientPeerMap = peers)
      (hboot : (node.bootPeerId.all fun b => id ≠ b.toBase58) = decide (id ≠ p.toBase58))
      (h : Turn node SameRegistry .free
        (if id ∉ invalid ∧ id ≠ node.getId ∧ id ≠ excluded ∧ id ≠ p.toBase58 then
          notRegistered id des
        else
          return false) s r) (hok : r.answer = some ok) :
      ok = (decide (id ∉ invalid) && usable node peers excluded des id) := by
    split at h
    · next htest =>
      rw [turn_notRegistered hs h hok, usable, hboot]
      simp [htest]
    · next htest =>
      obtain rfl : r = _ := h
      obtain rfl := Option.some.inj hok
      rw [usable, hboot]
      grind
  rw [eligible_eq] at h
  cases hboot : node.bootPeerId with
  | some b =>
    rw [hboot] at h
    exact htail hs (by simp [hboot]) h hok
  | none =>
    rw [hboot] at h
    obtain ⟨s', p, r', hs', h', rfl⟩ := turn_draws draws_randomPeerId h
    have hne : p.toBase58 ≠ id := hfresh p List.mem_cons_self
    exact htail (r := r') (hs'.peers.trans hs) (by simp [hboot, hne.symm]) h' hok

/-- A program that looks and draws peer identities. -/
abbrev Looks {α : Type} (p : Async α) : Prop :=
  p.Within (fun f => ∀ s, f s = s) (fun a => a = .randomPeerId) fun _ => True

omit [Codec] in
theorem looks_eligible : Looks (eligible node invalid excluded des id) := by
  have htail (p : PeerId) : Looks
      (if id ∉ invalid ∧ id ≠ node.getId ∧ id ≠ excluded ∧ id ≠ p.toBase58 then
        notRegistered id des
      else
        return false) := by
    split
    · constructor
      · rintro s
        rfl
      · rintro s
        beta_reduce
        cases s.clientPeerMap id with
        | none => trivial
        | some hash =>
          simp only [Prog.bind_eq, Prog.ret_bind]
          cases fromWhitenoiseToHash hash <;> trivial
    · trivial
  rw [eligible_eq]
  cases node.bootPeerId with
  | none => exact ⟨rfl, htail⟩
  | some p => exact htail p

/-- A program that leaves the registry alone. -/
abbrev Aloof {α : Type} (p : Async α) : Prop :=
  p.Within (fun f => ∀ s, SameRegistry s (f s)) (fun _ => True) fun _ => True

omit [Codec] in
theorem SameRegistry.trans {s s' s'' : Shared} (h : SameRegistry s s') (h' : SameRegistry s' s'') :
    SameRegistry s s'' := ⟨h'.peers.trans h.peers, h'.wn.trans h.wn⟩

theorem registry_aloof {α : Type} {p : Async α} {r : TurnRecord α} (hp : Aloof p)
    (h : Turn node SameRegistry .free p s r) : SameRegistry s r.state := by
  refine h.state_within (I := SameRegistry s) ?_ ?_ ?_ hp ⟨rfl, rfl⟩
  · rintro s' s'' hrely hs
    exact hs.trans hrely
  · rintro f hf s' hs
    exact hs.trans (hf s')
  · rintro a - c s' x hx hs
    exact hs.trans ⟨(reply_sameMaps hx).clientPeerMap, (reply_sameMaps hx).clientWnMap⟩

omit [Codec] in
theorem Looks.aloof {α : Type} {p : Async α} (hp : Looks p) : Aloof p := by
  refine hp.mono ?_ (fun _ _ => trivial) fun _ h => h
  rintro f hf s
  rw [hf s]
  exact ⟨rfl, rfl⟩

variable {l : List NodeInfo} {j : ℕ}

omit [Codec] in
theorem looks_scanPeers {index : UInt64} : Looks (scanPeers node l invalid excluded des j index) := by
  induction j generalizing index with
  | zero => trivial
  | succ j ih =>
    unfold scanPeers
    dsimp only
    cases l[(index + 1).toNat % l.length]? with
    | none => trivial
    | some info =>
      rw [Prog.unwrap_some, Prog.ret_bind]
      apply Prog.Within.bind
      refine looks_eligible.mono (fun _ h => h) (fun _ h => h) ?_
      rintro ok -
      split
      · trivial
      · exact ih

omit [Codec] [Crypto] in
/-- A place behind the last one is the first. -/
theorem next_place {index : UInt64} {p n : ℕ} (hn : n < 2 ^ 64) (hp : (index + 1).toNat % n = p % n)
    (hlt : p % n < n) : (UInt64.ofNat ((index + 1).toNat % n) + 1).toNat % n = (p + 1) % n := by
  rw [hp]
  have hplace : (UInt64.ofNat (p % n) + 1).toNat = p % n + 1 := by
    rw [UInt64.toNat_add, UInt64.toNat_ofNat']
    simp only [UInt64.reduceToNat]
    omega
  rw [hplace, Nat.mod_add_mod]

/-- The scan finds the first peer from its place on that passes the tests. -/
theorem turn_scanPeers {index : UInt64} {p : ℕ} {r : TurnRecord (Option String)}
    (hlen : l.length < 2 ^ 64) (hp : (index + 1).toNat % l.length = p % l.length)
    (hs : s.clientPeerMap = peers)
    (h : Turn node SameRegistry .free (scanPeers node l invalid excluded des j index) s r)
    (hfresh : Fresh l r) {found : Option String} (hfound : r.answer = some found) :
    found = ((around l p j).map NodeInfo.id).find? fun id =>
      decide (id ∉ invalid) && usable node peers excluded des id := by
  induction j generalizing index p s r with
  | zero =>
    obtain rfl : r = _ := h
    exact (Option.some.inj hfound).symm
  | succ j ih =>
    unfold scanPeers at h
    dsimp only at h
    cases hinfo : l[(index + 1).toNat % l.length]? with
    | none =>
      rw [hinfo] at h
      obtain rfl : r = _ := h
      cases hfound
    | some info =>
      obtain ⟨hlt, hget⟩ := List.getElem?_eq_some_iff.mp hinfo
      rw [hinfo, Prog.unwrap_some, Prog.ret_bind] at h
      simp only [hp] at hlt hget
      rw [around_succ hlt, List.map_cons, List.find?_cons]
      rcases Semantics.Amid.bind h with ⟨r₁, h₁, hnone, rfl⟩ | ⟨r₁, ok, r₂, h₁, hok, h₂, rfl⟩
      · cases hfound
      · have hfresh₁ (q : PeerId) (hq : (⟨.randomPeerId, q⟩ : Sigma Act.Res) ∈ r₁.asked) :
            q.toBase58 ≠ info.id :=
          hfresh q (List.mem_append_left _ hq) info (List.mem_of_getElem? hinfo)
        have htest := turn_eligible (r := r₁) hs h₁ hfresh₁ hok
        rw [hget, ← htest]
        cases ok with
        | true =>
          obtain rfl : r₂ = _ := h₂
          exact (Option.some.inj hfound).symm
        | false =>
          have hs₁ : r₁.state.clientPeerMap = peers :=
            (registry_aloof looks_eligible.aloof h₁).peers.trans hs
          have hfresh₂ : Fresh l r₂ := fun q hq => hfresh q (List.mem_append_right _ hq)
          exact ih (r := r₂) (next_place hlen hp hlt) hs₁ h₂ hfresh₂ hfound

/-! ## The attempts -/

/-- The peers that the run has tried to reach, with the streams that it got. -/
def attemptsOf (asked : List (Sigma Act.Res)) : List (PeerId × Option WrappedStream) :=
  asked.filterMap fun x =>
    match x with
    | ⟨.newRelayStream peer, stream⟩ => some (peer, stream)
    | _ => none

omit [Codec] [Crypto] in
@[simp] theorem attemptsOf_append (asked asked' : List (Sigma Act.Res)) :
    attemptsOf (asked ++ asked') = attemptsOf asked ++ attemptsOf asked' :=
  List.filterMap_append ..

omit [Codec] [Crypto] in
theorem attemptsOf_eq_nil {asked : List (Sigma Act.Res)}
    (h : ∀ x ∈ asked, ∀ peer, x.1 ≠ .newRelayStream peer) : attemptsOf asked = [] := by
  rw [attemptsOf, List.filterMap_eq_nil_iff]
  rintro x hx
  split
  · exact absurd rfl (h _ hx _)
  · rfl

theorem Looks.attempts {α : Type} {p : Async α} {r : TurnRecord α} (hp : Looks p)
    (h : Turn node SameRegistry .free p s r) : attemptsOf r.asked = [] := by
  apply attemptsOf_eq_nil
  rintro x hx peer hpeer
  have hrandom := (h.within hp).1 x hx
  rw [hpeer] at hrandom
  cases hrandom

/-- Once a stream is open, no other one is opened, and the function returns the stream. -/
theorem opened_within {w : WrappedStream} {sid : String} {myRole otherRole : Int32} :
    (do
      writeRelayWakeArc w
      let key ← writeSetSessionWithRoleArc w sid otherRole
      let receiver ← Async.registerWaiter key
      let _ack ← Async.awaitAck receiver
      Async.spawn (.relayEventHandler w (some sid))
      Node.putSession w sid myRole
      return some w : Async (Option WrappedStream)).Within (fun f => ∀ s, SameRegistry s (f s))
        (fun a => ∀ peer, a ≠ .newRelayStream peer) fun o => o.isSome := by
  have hframe {α : Type} {relay : Relay} {g : String → Async α} {Q : α → Prop}
      (hg : ∀ key, (g key).Within (fun f => ∀ s, SameRegistry s (f s))
        (fun a => ∀ peer, a ≠ .newRelayStream peer) Q) :
      (writeRelayArc w relay >>= g).Within (fun f => ∀ s, SameRegistry s (f s))
        (fun a => ∀ peer, a ≠ .newRelayStream peer) Q :=
    ⟨by simp, fun _ => ⟨by simp, fun _ => hg _⟩⟩
  have hput : (do
      Node.putSession w sid myRole
      return some w : Async (Option WrappedStream)).Within (fun f => ∀ s, SameRegistry s (f s))
        (fun a => ∀ peer, a ≠ .newRelayStream peer) fun o => o.isSome := by
    simp only [Node.putSession, Async.getSession, Prog.read_bind]
    refine ⟨fun _ => ⟨rfl, rfl⟩, fun s => ?_⟩
    beta_reduce
    cases s.sessionMap sid with
    | none => exact ⟨fun _ => ⟨rfl, rfl⟩, fun _ => rfl⟩
    | some session =>
      refine ⟨fun _ => ⟨rfl, rfl⟩, fun s => ?_⟩
      beta_reduce
      cases s.sessionMap sid with
      | none => trivial
      | some session => exact ⟨fun _ => ⟨rfl, rfl⟩, fun _ => rfl⟩
  simp only [writeRelayWakeArc, writeSetSessionWithRoleArc, bind_assoc]
  apply hframe
  rintro -
  apply hframe
  rintro key
  refine ⟨fun _ => ⟨rfl, rfl⟩, fun s => ⟨by simp, ?_⟩⟩
  rintro (_ | ack)
  · trivial
  · exact ⟨by simp, fun _ => hput⟩

/-- An attempt is one request for a stream. It returns nothing exactly when it gets none. -/
theorem turn_newSessionToPeer {peer : PeerId} {sid : String} {myRole otherRole : Int32}
    {r : TurnRecord (Option WrappedStream)}
    (h : Turn node SameRegistry .free (Node.newSessionToPeer peer sid myRole otherRole) s r) :
    SameRegistry s r.state ∧ ∃ stream, attemptsOf r.asked = [(peer, stream)] ∧
      (stream = none → r.answer = some none) ∧ (stream ≠ none → r.answer ≠ some none) := by
  rw [Node.newSessionToPeer_eq] at h
  obtain ⟨s₁, r₁, hs₁, ⟨w, -, -, h₁, rfl⟩ | ⟨h₁, rfl⟩⟩ := turn_newRelayStream h
  · have hrun : Turn node SameRegistry .free (do
        writeRelayWakeArc w
        let key ← writeSetSessionWithRoleArc w sid otherRole
        let receiver ← Async.registerWaiter key
        let _ack ← Async.awaitAck receiver
        Async.spawn (.relayEventHandler w (some sid))
        Node.putSession w sid myRole
        return some w) { s₁ with streams := w.streamId :: s₁.streams } r₁ := h₁
    obtain ⟨hasked, hanswer⟩ := hrun.within opened_within
    have haloof := registry_aloof
      (opened_within.mono (fun _ h => h) (fun _ _ => trivial) fun _ _ => trivial) hrun
    have hopened : SameRegistry s₁ { s₁ with streams := w.streamId :: s₁.streams } := ⟨rfl, rfl⟩
    refine ⟨hs₁.trans (hopened.trans haloof), some w, ?_,
      fun hw => absurd hw (Option.some_ne_none w), ?_⟩
    · rw [Record.asked_after, attemptsOf, List.filterMap_cons]
      exact congrArg _ (attemptsOf_eq_nil hasked)
    · rintro - hnone
      cases hanswer none hnone
  · obtain rfl : r₁ = _ := h₁
    refine ⟨hs₁, none, rfl, fun _ => rfl, ?_⟩
    rintro hne
    exact absurd rfl hne

/-- The place that a scan with the random index starts at. -/
def place (l : List NodeInfo) (index : UInt64) : ℕ := (index + 1).toNat % l.length

/-- The peer of the next attempt: what the scan finds, or else the last one. -/
def Picked (l : List NodeInfo) (ok : String → Bool) (index : UInt64) (peer next : PeerId) : Prop :=
  match ((around l (place l index) l.length).map NodeInfo.id).find? ok with
  | none => next = peer
  | some id => peerIdOfBase58 id = some next

/-- The tests of an attempt. -/
def untried (node : Node) (peers : String → Option String) (excluded des : String)
    (invalid : List String) (id : String) : Bool :=
  decide (id ∉ invalid) && usable node peers excluded des id

/-- What is left of a run of `tryPeers` that has drawn the index. -/
inductive Attempts (node : Node) (l : List NodeInfo) (peers : String → Option String)
    (excluded des sid : String) (myRole otherRole : Int32) (i : ℕ) (invalid : List String)
    (peer : PeerId) (index : UInt64) (r : TurnRecord (Option PeerId)) : Prop
  | failed (h : attemptsOf r.asked = []) (h' : r.answer = none)
  | opened (next : PeerId) (w : WrappedStream)
      (hpicked : Picked l (untried node peers excluded des invalid) index peer next)
      (h : attemptsOf r.asked = [(next, some w)])
  | again (next : PeerId)
      (hpicked : Picked l (untried node peers excluded des invalid) index peer next)
      (s' : Shared) (hs' : s'.clientPeerMap = peers) (r' : TurnRecord (Option PeerId))
      (hrun : Turn node SameRegistry .free (tryPeers node l excluded des sid myRole otherRole i
        (next.toBase58 :: invalid) next) s' r') (hfresh : Fresh l r')
      (h : attemptsOf r.asked = (next, none) :: attemptsOf r'.asked)

variable {sid : String} {myRole otherRole : Int32} {i : ℕ} {peer : PeerId}

/-- The attempt with the peer, and the ones after it. -/
def attempt (node : Node) (l : List NodeInfo) (excluded des sid : String) (myRole otherRole : Int32)
    (i : ℕ) (invalid : List String) (next : PeerId) : Async (Option PeerId) := do
  match ← Node.newSessionToPeer next sid myRole otherRole with
  | none => tryPeers node l excluded des sid myRole otherRole i (next.toBase58 :: invalid) next
  | some _ => return some next

theorem turn_attempt {next : PeerId} {index : UInt64} {r : TurnRecord (Option PeerId)}
    (hs : s.clientPeerMap = peers) (hfresh : Fresh l r)
    (hpicked : Picked l (untried node peers excluded des invalid) index peer next)
    (h : Turn node SameRegistry .free
      (attempt node l excluded des sid myRole otherRole i invalid next) s r) :
    Attempts node l peers excluded des sid myRole otherRole i invalid peer index r := by
  rcases Semantics.Amid.bind h with ⟨r₁, h₁, hnone, rfl⟩ | ⟨r₁, o, r₂, h₁, ho, h₂, rfl⟩
  · obtain ⟨-, stream, hattempts, hanswer, -⟩ := turn_newSessionToPeer h₁
    cases stream with
    | none =>
      rw [hanswer rfl] at hnone
      cases hnone
    | some w => exact .opened next w hpicked hattempts
  · obtain ⟨hsame, stream, hattempts, hanswer, hopened⟩ := turn_newSessionToPeer h₁
    have hfresh₂ : Fresh l r₂ := fun p hp => hfresh p (List.mem_append_right _ hp)
    cases stream with
    | none =>
      obtain rfl := Option.some.inj (ho.symm.trans (hanswer rfl))
      refine .again next hpicked r₁.state (hsame.peers.trans hs) r₂ h₂ hfresh₂ ?_
      rw [Record.append, attemptsOf_append, hattempts]
      rfl
    | some w =>
      cases o with
      | none => exact absurd ho (hopened (Option.some_ne_none w))
      | some w' =>
        obtain rfl : r₂ = _ := h₂
        refine .opened next w hpicked ?_
        rw [Record.append, attemptsOf_append, hattempts]
        rfl

theorem turn_tryPeers_succ {r : TurnRecord (Option PeerId)} (hlen : l.length < 2 ^ 64)
    (hs : s.clientPeerMap = peers) (hfresh : Fresh l r)
    (h : Turn node SameRegistry .free
      (tryPeers node l excluded des sid myRole otherRole (i + 1) invalid peer) s r) :
    ∃ index, (∃ rest, r.asked = ⟨.randomUsize, index⟩ :: rest) ∧
      Attempts node l peers excluded des sid myRole otherRole i invalid peer index r := by
  unfold tryPeers at h
  rw [Prog.call_bind] at h
  obtain ⟨s₁, index, r₁, hs₁, h₁, rfl⟩ := turn_draws draws_randomUsize h
  refine ⟨index, ⟨r₁.asked, rfl⟩, ?_⟩
  have hpeers₁ : s₁.clientPeerMap = peers := hs₁.peers.trans hs
  rcases Semantics.Amid.bind h₁ with ⟨r₂, h₂, hnone, rfl⟩ | ⟨r₂, found, r₃, h₂, hfound, h₃, rfl⟩
  · have hscan := looks_scanPeers.attempts h₂
    exact .failed hscan rfl
  · have hscan := looks_scanPeers.attempts h₂
    have hpeers₂ : r₂.state.clientPeerMap = peers :=
      (registry_aloof looks_scanPeers.aloof h₂).peers.trans hpeers₁
    have hfresh₂ : Fresh l r₂ :=
      fun p hp => hfresh p (List.mem_cons_of_mem _ (List.mem_append_left _ hp))
    have hfresh₃ : Fresh l r₃ :=
      fun p hp => hfresh p (List.mem_cons_of_mem _ (List.mem_append_right _ hp))
    have hfind : found = ((around l (place l index) l.length).map NodeInfo.id).find?
        (untried node peers excluded des invalid) :=
      turn_scanPeers hlen (Nat.mod_mod _ _).symm hpeers₁ h₂ hfresh₂ hfound
    have hrest {next : PeerId}
        (hpicked : Picked l (untried node peers excluded des invalid) index peer next)
        (h : Turn node SameRegistry .free
          (attempt node l excluded des sid myRole otherRole i invalid next) r₂.state r₃) :
        Attempts node l peers excluded des sid myRole otherRole i invalid peer index
          ((r₂.append r₃).after ⟨.randomUsize, index⟩ [] []) := by
      have hattempts : attemptsOf ((r₂.append r₃).after ⟨.randomUsize, index⟩ [] []).asked =
          attemptsOf r₃.asked := by
        change attemptsOf (r₂.asked ++ r₃.asked) = _
        rw [attemptsOf_append, hscan, List.nil_append]
      cases turn_attempt hpeers₂ hfresh₃ hpicked h with
      | failed h h' => exact .failed (hattempts.trans h) h'
      | opened next w hpicked h => exact .opened next w hpicked (hattempts.trans h)
      | again next hpicked s' hs' r' hrun hfresh h =>
        exact .again next hpicked s' hs' r' hrun hfresh (hattempts.trans h)
    cases found with
    | none =>
      have hpicked : Picked l (untried node peers excluded des invalid) index peer peer := by
        rw [Picked, ← hfind]
      exact hrest hpicked h₃
    | some id =>
      cases hnext : peerIdOfBase58 id with
      | none =>
        simp only [hnext, Prog.unwrap_none, Prog.fail_bind] at h₃
        obtain rfl : r₃ = _ := h₃
        refine .failed ?_ rfl
        change attemptsOf (r₂.asked ++ []) = []
        rw [List.append_nil, hscan]
      | some next =>
        simp only [hnext, Prog.unwrap_some, Prog.ret_bind] at h₃
        have hpicked : Picked l (untried node peers excluded des invalid) index peer next := by
          rw [Picked, ← hfind]
          exact hnext
        exact hrest hpicked h₃

end Generic

end WhiteNoise.Candidates
