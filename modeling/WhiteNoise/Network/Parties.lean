import WhiteNoise.Network.Ideal
import WhiteNoise.Network.Told

/-! # Nodes that talk to each other

Any number of nodes run the code, among peers that do as they like. Messages and
frames can be lost, delayed, reordered and repeated, but nobody speaks for
somebody else: the connections are authenticated.
-/

namespace WhiteNoise.Parties

open Wire Process

section Generic

variable [Codec] [Crypto]

/-- A message that a peer has sent. -/
structure Packet where
  src : PeerId
  request : NodeRequest

/-- What the addressee gets of the message. -/
def Packet.arrival : Packet → Option (PeerId × WhiteNoise.Event)
  | ⟨src, .proxyRequest r⟩ =>
    r.proxyRequest.map fun request => (r.remotePeerId, .proxyRequest ⟨src, some request, none⟩)
  | ⟨src, .cmdRequest r⟩ =>
    r.cmdRequest.map fun command => (r.remotePeerId, .cmdRequest ⟨src, some command⟩)
  | ⟨src, .ackRequest r⟩ => r.ackRequest.map fun ack => (r.remotePeerId, .ack src ack)

/-- One end of a substream: who has it, and what it is called there. -/
structure End where
  owner : PeerId
  streamId : ℕ
  deriving DecidableEq

/-- A frame that was written to one end. -/
structure Frame where
  writer : End
  data : Bytes

/-- The data that the frame carries. -/
def Frame.Carries (frame : Frame) (data : Bytes) : Prop :=
  ∃ relay : Relay, Codec.decode frame.data = some relay ∧ relay.type = Relaytype.data.toI32 ∧
    relay.data = data

/-- All nodes, and all that was ever sent. -/
structure Network where
  pool : PeerId → NodePool
  packets : List Packet := []
  frames : List Frame := []
  /-- what the applications have started -/
  calls : List (PeerId × Task) := []
  /-- the streams that the nodes have been given -/
  streams : List (PeerId × WrappedStream) := []
  /-- the ends that belong together -/
  links : List (End × End) := []

namespace Network

def Linked (m : Network) (a b : End) : Prop := (a, b) ∈ m.links ∨ (b, a) ∈ m.links

instance (m : Network) (a b : End) : Decidable (m.Linked a b) := inferInstanceAs (Decidable (_ ∨ _))

/-- Nothing is linked to the end yet. -/
def Free (m : Network) (a : End) : Prop := ∀ l ∈ m.links, l.1 ≠ a ∧ l.2 ≠ a

instance (m : Network) (a : End) : Decidable (m.Free a) := inferInstanceAs (Decidable (∀ _ ∈ _, _))

/-- The node has a stream to the peer that is called so. -/
def Has (m : Network) (a : End) (peer : PeerId) : Prop :=
  (a.owner, (⟨peer, a.streamId⟩ : WrappedStream)) ∈ m.streams

instance (m : Network) (a : End) (peer : PeerId) : Decidable (m.Has a peer) :=
  inferInstanceAs (Decidable (_ ∈ _))

end Network

/-- Who runs the code, and how the nodes start. -/
structure Setting where
  honest : PeerId → Bool
  node : PeerId → Node
  tasks : PeerId → List Task

inductive Event where
  /-- a node goes on by itself -/
  | own (n : PeerId) (e : WhiteNoise.Event)
  /-- the application of a node sends or reads on a circuit -/
  | use (n : PeerId) (u : Use)
  /-- a message arrives, not for the last time perhaps -/
  | deliver (k : ℕ)
  /-- a frame arrives at the other end -/
  | carry (k : ℕ) (z : End)
  /-- the other end of a substream comes in -/
  | connect (a : End) (n : PeerId) (w : WrappedStream)
  | forge (packet : Packet)
  | forgeFrame (frame : Frame)

/-- What happens at a node without another one: its threads run, it hears of gossip, a connection
or a stream breaks, the application calls. -/
def Own : WhiteNoise.Event → Bool
  | .thread _ _ | .gossip _ => true
  | .proxyRequest r => r.proxyRequest.isNone
  | .frame _ (.error _) => true
  | .call t => t.Called
  | _ => false

/-- What the step of a node sends out. -/
def packetsOf (n : PeerId) (o : List Output) : List Packet :=
  o.filterMap fun
    | .request r => some ⟨n, r⟩
    | _ => none

def framesOf (n : PeerId) (o : List Output) : List Frame :=
  o.filterMap fun
    | .write w data => some ⟨⟨n, w.streamId⟩, data⟩
    | _ => none

def callsOf (n : PeerId) : WhiteNoise.Event → List (PeerId × Task)
  | .call t => [(n, t)]
  | _ => []

/-- The streams that the step gives to the node. -/
def streamsOf (n : PeerId) (e : WhiteNoise.Event) (o : List Output) : List (PeerId × WrappedStream) :=
  (match e with
    | .inbound w => [(n, w)]
    | _ => []) ++
  o.filterMap fun
    | .opened w => some (n, w)
    | _ => none

section

variable {n k : PeerId} {e : WhiteNoise.Event} {o : List Output}

omit [Codec] [Crypto] in
theorem mem_packetsOf {packet : Packet} :
    packet ∈ packetsOf n o ↔ packet.src = n ∧ .request packet.request ∈ o := by
  rw [packetsOf, List.mem_filterMap]
  constructor
  · rintro ⟨out, hout, heq⟩
    split at heq
    · cases heq
      exact ⟨rfl, hout⟩
    · cases heq
  · rintro ⟨rfl, hout⟩
    exact ⟨_, hout, rfl⟩

omit [Codec] [Crypto] in
theorem mem_framesOf {frame : Frame} :
    frame ∈ framesOf n o ↔ ∃ w, .write w frame.data ∈ o ∧ frame.writer = ⟨n, w.streamId⟩ := by
  rw [framesOf, List.mem_filterMap]
  constructor
  · rintro ⟨out, hout, heq⟩
    split at heq
    · cases heq
      exact ⟨_, hout, rfl⟩
    · cases heq
  · rintro ⟨w, hout, hwriter⟩
    exact ⟨_, hout, congrArg (fun a => some (Frame.mk a frame.data)) hwriter.symm⟩

omit [Codec] [Crypto] in
theorem mem_streamsOf {w : WrappedStream} (h : (k, w) ∈ streamsOf n e o) :
    k = n ∧ (e = .inbound w ∨ .opened w ∈ o) := by
  rcases List.mem_append.mp h with h | h
  · split at h
    · cases List.mem_singleton.mp h
      exact ⟨rfl, Or.inl rfl⟩
    · cases h
  · obtain ⟨out, hout, heq⟩ := List.mem_filterMap.mp h
    split at heq
    · cases heq
      exact ⟨rfl, Or.inr hout⟩
    · cases heq

omit [Codec] [Crypto] in
/-- What others send is a request, a command or an acknowledgement. -/
theorem Packet.arrival_eq_some {packet : Packet} (h : packet.arrival = some (n, e)) :
    (∃ r request, packet.request = .proxyRequest r ∧ r.remotePeerId = n ∧
      r.proxyRequest = some request ∧ e = .proxyRequest ⟨packet.src, some request, none⟩) ∨
    (∃ r command, packet.request = .cmdRequest r ∧ r.remotePeerId = n ∧
      r.cmdRequest = some command ∧ e = .cmdRequest ⟨packet.src, some command⟩) ∨
    ∃ r ack, packet.request = .ackRequest r ∧ r.remotePeerId = n ∧ r.ackRequest = some ack ∧
      e = .ack packet.src ack := by
  obtain ⟨src, request⟩ := packet
  cases request with
  | proxyRequest r =>
    obtain ⟨request, hrequest, heq⟩ := Option.map_eq_some_iff.mp h
    cases heq
    exact Or.inl ⟨r, request, rfl, rfl, hrequest, rfl⟩
  | cmdRequest r =>
    obtain ⟨command, hcommand, heq⟩ := Option.map_eq_some_iff.mp h
    cases heq
    exact Or.inr (Or.inl ⟨r, command, rfl, rfl, hcommand, rfl⟩)
  | ackRequest r =>
    obtain ⟨ack, hack, heq⟩ := Option.map_eq_some_iff.mp h
    cases heq
    exact Or.inr (Or.inr ⟨r, ack, rfl, rfl, hack, rfl⟩)

end

variable (S : Setting)

namespace Network

/-- An event at a node that runs the code. -/
def act (m : Network) (n : PeerId) (e : WhiteNoise.Event) : Option Network :=
  if S.honest n then
    match nodeStep (S.node n) (m.pool n) e with
    | none => none
    | some (p, o) => some { m with
        pool := Function.update m.pool n p
        packets := m.packets ++ packetsOf n o
        frames := m.frames ++ framesOf n o
        calls := m.calls ++ callsOf n e
        streams := m.streams ++ streamsOf n e o }
  else
    none

def start : Network := { pool := fun n => Acks.start (S.node n) (S.tasks n) }

/-- One event. Peers that do not run the code say what they like in their own name. -/
def next (m : Network) : Event → Option Network
  | .own n e => if Own e then m.act S n e else none
  | .use n u =>
    if S.honest n then
      some { m with pool := Function.update m.pool n (useCircuit (m.pool n) u) }
    else none
  | .deliver k =>
    match m.packets[k]? with
    | none => none
    | some packet =>
      match packet.arrival with
      | none => none
      | some (n, e) => m.act S n e
  | .carry k z =>
    match m.frames[k]? with
    | none => none
    | some frame =>
      if m.Linked frame.writer z then m.act S z.owner (.frame z.streamId (.ok frame.data)) else none
  | .connect a n w =>
    if w.remotePeerId = a.owner ∧ m.Free a ∧ m.Free ⟨n, w.streamId⟩ ∧
        (S.honest a.owner → m.Has a n) then
      let links := (a, ⟨n, w.streamId⟩) :: m.links
      if S.honest n then
        match m.act S n (.inbound w) with
        | none => none
        | some m => some { m with links }
      else
        some { m with links }
    else
      none
  | .forge packet =>
    if S.honest packet.src then none else some { m with packets := m.packets ++ [packet] }
  | .forgeFrame frame =>
    if S.honest frame.writer.owner then none else some { m with frames := m.frames ++ [frame] }

def step (m : Network) (e : Event) : Option (Network × List Unit) := (m.next S e).map fun m => (m, [])

variable {S} {m m' : Network} {n : PeerId} {e : WhiteNoise.Event}

theorem act_eq_some (h : m.act S n e = some m') : S.honest n ∧
    ∃ p o, nodeStep (S.node n) (m.pool n) e = some (p, o) ∧
      m' = { m with
        pool := Function.update m.pool n p
        packets := m.packets ++ packetsOf n o
        frames := m.frames ++ framesOf n o
        calls := m.calls ++ callsOf n e
        streams := m.streams ++ streamsOf n e o } := by
  unfold act at h
  split at h
  · next hn =>
    split at h
    · cases h
    · next p o hs =>
      cases h
      exact ⟨hn, p, o, hs, rfl⟩
  · cases h

/-! ## What a step can do -/

/-- What happens at the node is its own affair, or what somebody has sent it. -/
inductive Bears (m : Network) (n : PeerId) : WhiteNoise.Event → Prop
  | own {e : WhiteNoise.Event} (h : Own e) : Bears m n e
  | packet {e : WhiteNoise.Event} {packet : Packet} (h : packet ∈ m.packets)
      (harrival : packet.arrival = some (n, e)) : Bears m n e
  | frame {frame : Frame} {i : ℕ} (h : frame ∈ m.frames) (hlinked : m.Linked frame.writer ⟨n, i⟩) :
      Bears m n (.frame i (.ok frame.data))
  | inbound {w : WrappedStream} : Bears m n (.inbound w)

variable (S) in
inductive Moves (m m' : Network) : Prop
  | node {n : PeerId} {e : WhiteNoise.Event} (hbears : m.Bears n e) (h : m.act S n e = some m')
  | use {n : PeerId} {u : Use}
      (hm : m' = { m with pool := Function.update m.pool n (useCircuit (m.pool n) u) })
  | accept {a : End} {n : PeerId} {w : WrappedStream} {m₁ : Network} (hw : w.remotePeerId = a.owner)
      (ha : S.honest a.owner → m.Has a n) (h : m.act S n (.inbound w) = some m₁)
      (hm : m' = { m₁ with links := (a, ⟨n, w.streamId⟩) :: m.links })
  | leave {a z : End} (hz : S.honest z.owner = false) (ha : S.honest a.owner → m.Has a z.owner)
      (hm : m' = { m with links := (a, z) :: m.links })
  | forge {packet : Packet} (h : S.honest packet.src = false)
      (hm : m' = { m with packets := m.packets ++ [packet] })
  | forgeFrame {frame : Frame} (h : S.honest frame.writer.owner = false)
      (hm : m' = { m with frames := m.frames ++ [frame] })

theorem next_moves {e : Event} (h : m.next S e = some m') : m.Moves S m' := by
  cases e with
  | own n e =>
    simp only [next] at h
    split at h
    · next hown => exact .node (.own hown) h
    · cases h
  | use n u =>
    simp only [next] at h
    split at h
    · cases h
      exact .use rfl
    · cases h
  | deliver k =>
    simp only [next] at h
    split at h
    · cases h
    · next packet hk =>
      split at h
      · cases h
      · next n e harrival => exact .node (.packet (List.mem_of_getElem? hk) harrival) h
  | carry k z =>
    simp only [next] at h
    split at h
    · cases h
    · next frame hk =>
      split at h
      · next hlinked => exact .node (.frame (List.mem_of_getElem? hk) hlinked) h
      · cases h
  | connect a n w =>
    simp only [next] at h
    split at h
    · next hguard =>
      obtain ⟨hw, -, -, ha⟩ := hguard
      split at h
      · split at h
        · cases h
        · next m₁ hact =>
          cases h
          have hlinks : m₁.links = m.links := by
            obtain ⟨-, p, o, -, rfl⟩ := act_eq_some hact
            rfl
          exact .accept hw ha hact rfl
      · next hn =>
        cases h
        exact .leave (z := ⟨n, w.streamId⟩) (Bool.eq_false_iff.mpr hn) ha rfl
    · cases h
  | forge packet =>
    simp only [next] at h
    split at h
    · cases h
    · next hn =>
      cases h
      exact .forge (Bool.eq_false_iff.mpr hn) rfl
  | forgeFrame frame =>
    simp only [next] at h
    split at h
    · cases h
    · next hn =>
      cases h
      exact .forgeFrame (Bool.eq_false_iff.mpr hn) rfl

/-- Nothing that was sent, started or linked is forgotten. -/
structure Grows (m m' : Network) : Prop where
  packets : m.packets ⊆ m'.packets
  frames : m.frames ⊆ m'.frames
  calls : m.calls ⊆ m'.calls
  links : m.links ⊆ m'.links

theorem act_grows (h : m.act S n e = some m') : m.Grows m' := by
  obtain ⟨-, p, o, -, rfl⟩ := act_eq_some h
  exact ⟨List.subset_append_left _ _, List.subset_append_left _ _, List.subset_append_left _ _,
    List.Subset.refl _⟩

omit [Codec] in
theorem Linked.mono {a z : End} (hg : m.Grows m') (h : m.Linked a z) : m'.Linked a z :=
  h.imp (hg.links ·) (hg.links ·)

omit [Codec] in
theorem Bears.mono (hg : m.Grows m') (h : m.Bears n e) : m'.Bears n e := by
  cases h with
  | own h => exact .own h
  | packet h harrival => exact .packet (hg.packets h) harrival
  | frame h hlinked => exact .frame (hg.frames h) (hlinked.mono hg)
  | inbound => exact .inbound

omit [Codec] in
theorem Bears.frame_inv {i : ℕ} {msg : Bytes} (h : m.Bears n (.frame i (.ok msg))) :
    ∃ frame ∈ m.frames, frame.data = msg ∧ m.Linked frame.writer ⟨n, i⟩ := by
  cases h with
  | own hown => cases hown
  | packet _ harrival =>
    rcases Packet.arrival_eq_some harrival with ⟨_, _, -, -, -, he⟩ | ⟨_, _, -, -, -, he⟩ |
      ⟨_, _, -, -, -, he⟩ <;> cases he
  | frame h hlinked => exact ⟨_, h, rfl, hlinked⟩

omit [Codec] in
theorem Bears.called {t : Task} (h : m.Bears n (.call t)) : t.Called := by
  cases h with
  | own hown => exact hown
  | packet _ harrival =>
    rcases Packet.arrival_eq_some harrival with ⟨_, _, -, -, -, he⟩ | ⟨_, _, -, -, -, he⟩ |
      ⟨_, _, -, -, -, he⟩ <;> cases he

/-! ## Where data come from -/

/-- The circuit can end at the node: its application has dialed it, or a frame to the node has
said so. -/
inductive EndsAt (m : Network) (n : PeerId) (sessionId : String) : Prop
  | dialed {remoteId localId : String} {now : ℕ} (h : (n, .dial remoteId) ∈ m.calls)
      (hsid : sessionId = Node.generateSessionId remoteId localId now)
  | named {frame : Frame} {z : End} {relay : Relay} {msg : SetSessionIdMsg} (h : frame ∈ m.frames)
      (hlinked : m.Linked frame.writer z) (hn : z.owner = n)
      (hrelay : Codec.decode frame.data = some relay)
      (htype : relay.type = Relaytype.setSessionId.toI32)
      (hmsg : Codec.decode relay.data = some msg) (hsid : msg.sessionId = sessionId)
      (hrole : Terminal msg.role)

/-- The circuit goes over the substream of the end: one of the two sides has said so. -/
def Goes (m : Network) (a : End) (sessionId : String) : Prop :=
  ∃ frame ∈ m.frames, (frame.writer = a ∨ m.Linked frame.writer a) ∧
    ∃ relay : Relay, ∃ msg : SetSessionIdMsg, Codec.decode frame.data = some relay ∧
      relay.type = Relaytype.setSessionId.toI32 ∧ Codec.decode relay.data = some msg ∧
      msg.sessionId = sessionId

/-- How the data of a frame have come. A stranger has written it, or a node over a substream of the
circuit of the data; the circuit ends at the node, or the data have come to it in another frame over
a substream of the circuit. -/
inductive Route (S : Setting) (m : Network) (data : Bytes) : Frame → Prop
  | stranger {frame : Frame} (h : frame ∈ m.frames) (hcarries : frame.Carries data)
      (hwriter : S.honest frame.writer.owner = false) : Route S m data frame
  | made {frame : Frame} {sessionId : String} {payload : Bytes} (h : frame ∈ m.frames)
      (hcarries : frame.Carries data)
      (hdata : data = Codec.encode ({ sessionId, data := payload } : RelayMsg))
      (hgoes : m.Goes frame.writer sessionId) (hends : m.EndsAt frame.writer.owner sessionId) :
      Route S m data frame
  | passed {frame prior : Frame} {z : End} {msg : RelayMsg} (h : frame ∈ m.frames)
      (hcarries : frame.Carries data) (hmsg : Codec.decode data = some msg)
      (hgoes : m.Goes frame.writer msg.sessionId) (hprior : Route S m data prior)
      (hlinked : m.Linked prior.writer z) (hz : z.owner = frame.writer.owner)
      (hcame : m.Goes z msg.sessionId) : Route S m data frame

variable {es : List WhiteNoise.Event} {os : List Output} {sid : String} {data : Bytes}

theorem EndsAt.mono (hg : m.Grows m') (h : m.EndsAt n sid) : m'.EndsAt n sid := by
  cases h with
  | dialed h hsid => exact .dialed (hg.calls h) hsid
  | named h hlinked hn hrelay htype hmsg hsid hrole =>
    exact .named (hg.frames h) (hlinked.mono hg) hn hrelay htype hmsg hsid hrole

theorem Goes.mono {a : End} (hg : m.Grows m') (h : m.Goes a sid) : m'.Goes a sid := by
  obtain ⟨frame, hframe, hend, hsays⟩ := h
  exact ⟨frame, hg.frames hframe, hend.imp_right (·.mono hg), hsays⟩

theorem Route.mono {frame : Frame} (hg : m.Grows m') (h : m.Route S data frame) :
    m'.Route S data frame := by
  induction h with
  | stranger h hcarries hwriter => exact .stranger (hg.frames h) hcarries hwriter
  | made h hcarries hdata hgoes hends =>
    exact .made (hg.frames h) hcarries hdata (hgoes.mono hg) (hends.mono hg)
  | passed h hcarries hmsg hgoes _ hlinked hz hcame ih =>
    exact .passed (hg.frames h) hcarries hmsg (hgoes.mono hg) ih (hlinked.mono hg) hz
      (hcame.mono hg)

/-! ## What the nodes know of each other -/

/-- The history of a node fits what the others have sent and have got of it. -/
structure Justified (m : Network) (n : PeerId) (es : List WhiteNoise.Event) (os : List Output) :
    Prop where
  informed : Informed es (m.pool n) os
  bears : ∀ e ∈ es, m.Bears n e
  calls : ∀ t, .call t ∈ es → (n, t) ∈ m.calls
  streams : ∀ w, (n, w) ∈ m.streams → Told es os (.stream w)
  sent : ∀ packet ∈ m.packets, packet.src = n → .request packet.request ∈ os
  written : ∀ w data, .write w data ∈ os → ⟨⟨n, w.streamId⟩, data⟩ ∈ m.frames

structure Sound (S : Setting) (m : Network) : Prop where
  nodes : ∀ n, S.honest n → ∃ es os, m.Justified n es os
  links : ∀ x z, m.Linked x z → S.honest z.owner → m.Has z x.owner
  routes : ∀ frame ∈ m.frames, ∀ data, frame.Carries data → m.Route S data frame

/-- The network has grown, and nothing has happened at the node. -/
theorem Justified.grow (h : m.Justified n es os) (hg : m.Grows m') (hpool : m'.pool n = m.pool n)
    (hstreams : ∀ w, (n, w) ∈ m'.streams → (n, w) ∈ m.streams)
    (hsent : ∀ packet ∈ m'.packets, packet.src = n → packet ∈ m.packets) :
    m'.Justified n es os where
  informed := hpool ▸ h.informed
  bears e he := (h.bears e he).mono hg
  calls t ht := hg.calls (h.calls t ht)
  streams w hw := h.streams w (hstreams w hw)
  sent packet hp hsrc := h.sent packet (hsent packet hp hsrc) hsrc
  written w data hw := hg.frames (h.written w data hw)

/-- The step of a node is added to its history. -/
theorem Justified.act (h : m.Justified n es os) (hbears : m.Bears n e) {p : NodePool}
    {o : List Output} (hs : nodeStep (S.node n) (m.pool n) e = some (p, o)) (hg : m.Grows m')
    (hm : m' = { m with
        pool := Function.update m.pool n p
        packets := m.packets ++ packetsOf n o
        frames := m.frames ++ framesOf n o
        calls := m.calls ++ callsOf n e
        streams := m.streams ++ streamsOf n e o }) :
    m'.Justified n (es ++ [e]) (os ++ o) := by
  constructor
  · rw [hm]
    dsimp only
    rw [Function.update_self]
    refine h.informed.step ?_ hs
    rintro t rfl
    exact hbears.called
  · intro e' he
    rcases List.mem_append.mp he with he | he
    · exact (h.bears e' he).mono hg
    · rw [List.mem_singleton.mp he]
      exact hbears.mono hg
  · intro t ht
    rcases List.mem_append.mp ht with ht | ht
    · exact hg.calls (h.calls t ht)
    · rw [hm, ← List.mem_singleton.mp ht]
      exact List.mem_append_right _ List.mem_cons_self
  · intro w hw
    rw [hm] at hw
    rcases List.mem_append.mp hw with hw | hw
    · exact (h.streams w hw).mono (List.subset_append_left _ _) (List.subset_append_left _ _)
    · obtain ⟨-, rfl | ho⟩ := mem_streamsOf hw
      · exact .inbound (List.mem_append_right _ List.mem_cons_self)
      · exact .opened (List.mem_append_right _ ho)
  · intro packet hp hsrc
    rw [hm] at hp
    rcases List.mem_append.mp hp with hp | hp
    · exact List.mem_append_left _ (h.sent packet hp hsrc)
    · exact List.mem_append_right _ (mem_packetsOf.mp hp).2
  · intro w data hw
    rcases List.mem_append.mp hw with hw | hw
    · exact hg.frames (h.written w data hw)
    · rw [hm]
      exact List.mem_append_right _ (mem_framesOf.mpr ⟨w, hw, rfl⟩)

/-- What a node has heard of a frame, the frame says. -/
theorem frame_of_told {w : WrappedStream} {relay : Relay} (hbears : ∀ e ∈ es, m.Bears n e)
    (h : .frame w relay ∈ told es os) : ∃ frame ∈ m.frames,
      m.Linked frame.writer ⟨n, w.streamId⟩ ∧ Codec.decode frame.data = some relay := by
  cases h with
  | frame hw hmsg hrelay =>
    obtain ⟨frame, hframe, rfl, hlinked⟩ := (hbears _ hmsg).frame_inv
    exact ⟨frame, hframe, hlinked, hrelay⟩

theorem endsAt_of_told (hbears : ∀ e ∈ es, m.Bears n e)
    (hcalls : ∀ t, .call t ∈ es → (n, t) ∈ m.calls) (h : WhiteNoise.Ends (told es os) sid) :
    m.EndsAt n sid := by
  rcases h with ⟨remote, me, now, hdials, hsid⟩ | ⟨w, relay, msg, hf, htype, hmsg, hsid, hrole⟩
  · cases hdials with
    | dials hcall => exact .dialed (hcalls _ hcall) hsid
  · obtain ⟨frame, hframe, hlinked, hrelay⟩ := frame_of_told hbears hf
    exact .named hframe hlinked rfl hrelay htype hmsg hsid hrole

/-- What the node knows of a stream, one of its two ends has said. -/
theorem goes_of_told {w : WrappedStream} (hbears : ∀ e ∈ es, m.Bears n e)
    (hwritten : ∀ w data, .write w data ∈ os → ⟨⟨n, w.streamId⟩, data⟩ ∈ m.frames)
    (h : WhiteNoise.Joined (told es os) w sid) : m.Goes ⟨n, w.streamId⟩ sid := by
  obtain ⟨-, relay, msg, hf | hf, hsays⟩ := h
  · obtain ⟨frame, hframe, hlinked, hrelay⟩ := frame_of_told hbears hf
    exact ⟨frame, hframe, Or.inr hlinked, relay, msg, hrelay, hsays⟩
  · cases hf with
    | written hw hrelay => exact ⟨_, hwritten _ _ hw, Or.inl rfl, relay, msg, hrelay, hsays⟩

/-- What a node may pass on or make up has a route, once it is written. -/
theorem Sound.route_of_write (hm : m.Sound S) (hg : m.Grows m') (hbears : ∀ e ∈ es, m.Bears n e)
    (hj : m'.Justified n es os) {frame : Frame} (hframe : frame ∈ m'.frames) {w : WrappedStream}
    (hw : .write w frame.data ∈ os) (hwriter : frame.writer = ⟨n, w.streamId⟩)
    (hcarries : frame.Carries data) : m'.Route S data frame := by
  obtain ⟨-, relay', hstamped, hsendable⟩ := hj.informed.proper _ hw
  obtain ⟨relay, hrelay, htype, hdata⟩ := id hcarries
  rw [hstamped, Codec.decode_encode, Option.some.injEq] at hrelay
  subst hrelay hdata
  obtain ⟨msg, hmsg, hjoined, hrelayed⟩ := hsendable htype
  have hgoes : m'.Goes frame.writer msg.sessionId := by
    rw [hwriter]
    exact goes_of_told hj.bears hj.written hjoined
  rcases hrelayed with ⟨w', v, relay, hf, htype', hdata, hid, hcame⟩ | ⟨⟨payload, hdata⟩, hends⟩
  · obtain ⟨prior, hprior, hlinked, hrelay⟩ := frame_of_told hbears hf
    have hroute := (hm.routes prior hprior _ ⟨relay, hrelay, htype', hdata⟩).mono hg
    refine .passed hframe hcarries hmsg hgoes hroute (hlinked.mono hg) (by rw [hwriter]) ?_
    rw [← hid]
    exact goes_of_told hj.bears hj.written hcame
  · refine .made hframe hcarries hdata hgoes ?_
    rw [hwriter]
    exact endsAt_of_told hj.bears hj.calls hends

theorem Sound.act (hm : m.Sound S) (hbears : m.Bears n e) (h : m.act S n e = some m') :
    m'.Sound S := by
  have hg := act_grows h
  obtain ⟨hn, p, o, hs, hm'⟩ := act_eq_some h
  constructor
  · intro k hk
    obtain ⟨es, os, hj⟩ := hm.nodes k hk
    by_cases hkn : k = n
    · subst hkn
      exact ⟨es ++ [e], os ++ o, hj.act hbears hs hg hm'⟩
    · refine ⟨es, os, hj.grow hg ?_ (fun w hw => ?_) fun packet hp hsrc => ?_⟩
      · rw [hm']
        exact Function.update_of_ne hkn _ _
      · rw [hm'] at hw
        rcases List.mem_append.mp hw with hw | hw
        · exact hw
        · exact absurd (mem_streamsOf hw).1 hkn
      · rw [hm'] at hp
        rcases List.mem_append.mp hp with hp | hp
        · exact hp
        · exact absurd (hsrc.symm.trans (mem_packetsOf.mp hp).1) hkn
  · intro x z hlinked hz
    rw [hm'] at hlinked ⊢
    exact List.mem_append_left _ (hm.links x z hlinked hz)
  · intro frame hframe data hcarries
    have hwritten := hframe
    rw [hm'] at hwritten
    rcases List.mem_append.mp hwritten with hold | hnew
    · exact (hm.routes frame hold data hcarries).mono hg
    · obtain ⟨w, hw, hwriter⟩ := mem_framesOf.mp hnew
      obtain ⟨es, os, hj⟩ := hm.nodes n hn
      have hall : ∀ e' ∈ es ++ [e], m.Bears n e' := by
        intro e' he
        rcases List.mem_append.mp he with he | he
        · exact hj.bears e' he
        · rw [List.mem_singleton.mp he]
          exact hbears
      exact hm.route_of_write hg hall (hj.act hbears hs hg hm') hframe
        (List.mem_append_right _ hw) hwriter hcarries

/-- The application of a node uses a circuit. -/
theorem Sound.use (hm : m.Sound S) {u : Use} :
    Sound S { m with pool := Function.update m.pool n (useCircuit (m.pool n) u) } := by
  have hg : m.Grows { m with pool := Function.update m.pool n (useCircuit (m.pool n) u) } :=
    ⟨List.Subset.refl _, List.Subset.refl _, List.Subset.refl _, List.Subset.refl _⟩
  refine ⟨fun k hk => ?_, hm.links, fun frame hframe data hcarries => ?_⟩
  · obtain ⟨es, os, hj⟩ := hm.nodes k hk
    refine ⟨es, os, ?_, fun e he => (hj.bears e he).mono hg, hj.calls, hj.streams, hj.sent,
      hj.written⟩
    dsimp only
    by_cases hkn : k = n
    · rw [hkn, Function.update_self]
      exact (hkn ▸ hj.informed).use u
    · rw [Function.update_of_ne hkn]
      exact hj.informed
  · exact (hm.routes frame hframe data hcarries).mono hg

/-- A link between ends of which each is to the other one's owner. -/
theorem Sound.link (hm : m.Sound S) {a z : End} (ha : S.honest a.owner → m.Has a z.owner)
    (hz : S.honest z.owner → m.Has z a.owner) :
    Sound S { m with links := (a, z) :: m.links } := by
  have hg : m.Grows { m with links := (a, z) :: m.links } :=
    ⟨List.Subset.refl _, List.Subset.refl _, List.Subset.refl _, List.subset_cons_self _ _⟩
  refine ⟨fun n hn => ?_, fun x y hlinked hy => ?_, fun frame hframe data hcarries => ?_⟩
  · obtain ⟨es, os, hj⟩ := hm.nodes n hn
    exact ⟨es, os, hj.grow hg rfl (fun _ => id) fun _ hp _ => hp⟩
  · rcases hlinked with hlinked | hlinked <;> rcases List.mem_cons.mp hlinked with heq | hold
    · cases heq
      exact hz hy
    · exact hm.links x y (Or.inl hold) hy
    · cases heq
      exact ha hy
    · exact hm.links x y (Or.inr hold) hy
  · exact (hm.routes frame hframe data hcarries).mono hg

theorem Sound.next (hm : m.Sound S) {e : Event} (h : m.next S e = some m') : m'.Sound S := by
  cases next_moves h with
  | node hbears h => exact hm.act hbears h
  | use hm' =>
    rw [hm']
    exact hm.use
  | @accept a n w m₁ hw ha hact hm' =>
    obtain ⟨-, p, o, -, hm₁⟩ := act_eq_some hact
    have hlinks : m₁.links = m.links := by rw [hm₁]
    have hstreams : m.streams ⊆ m₁.streams := by
      rw [hm₁]
      exact List.subset_append_left _ _
    rw [hm', ← hlinks]
    refine (hm.act .inbound hact).link (fun hn => hstreams (ha hn)) fun _ => ?_
    rw [Has, ← hw, hm₁]
    exact List.mem_append_right _ List.mem_cons_self
  | leave hz ha hm' =>
    rw [hm']
    exact hm.link ha fun hn => absurd hn (Bool.eq_false_iff.mp hz)
  | @forge packet hsrc hm' =>
    have hg : m.Grows m' := by
      rw [hm']
      exact ⟨List.subset_append_left _ _, List.Subset.refl _, List.Subset.refl _,
        List.Subset.refl _⟩
    rw [hm'] at hg ⊢
    refine ⟨fun n hn => ?_, hm.links, fun frame hframe data hcarries => ?_⟩
    · obtain ⟨es, os, hj⟩ := hm.nodes n hn
      refine ⟨es, os, hj.grow hg rfl (fun _ => id) fun p hp hp' => ?_⟩
      rcases List.mem_append.mp hp with hp | hp
      · exact hp
      · rw [List.mem_singleton.mp hp] at hp'
        rw [← hp', hsrc] at hn
        cases hn
    · exact (hm.routes frame hframe data hcarries).mono hg
  | @forgeFrame frame hwriter hm' =>
    have hg : m.Grows m' := by
      rw [hm']
      exact ⟨List.Subset.refl _, List.subset_append_left _ _, List.Subset.refl _,
        List.Subset.refl _⟩
    rw [hm'] at hg ⊢
    refine ⟨fun n hn => ?_, hm.links, fun frame' hframe data hcarries => ?_⟩
    · obtain ⟨es, os, hj⟩ := hm.nodes n hn
      exact ⟨es, os, hj.grow hg rfl (fun _ => id) fun _ hp _ => hp⟩
    · rcases List.mem_append.mp hframe with hold | hnew
      · exact (hm.routes frame' hold data hcarries).mono hg
      · rw [List.mem_singleton.mp hnew] at hframe hcarries ⊢
        exact .stranger hframe hcarries hwriter

theorem start_sound (h : ∀ n, ∀ t ∈ S.tasks n, t.Ready ∅) : (start S).Sound S where
  nodes n _ :=
    ⟨[], [], start_informed (h n), by simp, by simp, by simp [start], by simp [start], by simp⟩
  links x z hlinked := by rcases hlinked with h | h <;> cases h
  routes frame hframe := by cases hframe

theorem run_sound {es : List Event} {os : List Unit} (hS : ∀ n, ∀ t ∈ S.tasks n, t.Ready ∅)
    (h : run (step S) (start S) es = some (m, os)) : m.Sound S := by
  refine run_invariant (I := Sound S) ?_ (start_sound hS) h
  intro m e m' o hm hs
  obtain ⟨m₁, hnext, heq⟩ := Option.map_eq_some_iff.mp hs
  cases heq
  exact hm.next hnext

/-! ## Who acknowledges what -/

/-- The peer has asked the node for an answer under the identifier, by a message or by a frame
over a substream between the two. -/
inductive Asked (m : Network) (peer n : PeerId) : String → Prop
  | request {r : NodeProxyRequest} {request : Request} (h : ⟨peer, .proxyRequest r⟩ ∈ m.packets)
      (hn : r.remotePeerId = n) (hr : r.proxyRequest = some request) : Asked m peer n request.reqId
  | command {r : NodeCmdRequest} {command : Command} (h : ⟨peer, .cmdRequest r⟩ ∈ m.packets)
      (hn : r.remotePeerId = n) (hr : r.cmdRequest = some command) :
      Asked m peer n command.commandId
  | frame {frame : Frame} {z : End} {relay : Relay} (h : frame ∈ m.frames)
      (hlinked : m.Linked frame.writer z) (hpeer : frame.writer.owner = peer) (hn : z.owner = n)
      (hrelay : Codec.decode frame.data = some relay) : Asked m peer n relay.id

/-- What a node has been told, others have asked. -/
theorem Justified.asked (hm : m.Sound S) (hn : S.honest n) (h : m.Justified n es os)
    {peer : PeerId} {id : String} (hasks : Asks (told es os) peer id) : m.Asked peer n id := by
  rcases hasks with ⟨request, hrequest, rfl⟩ | ⟨command, hcommand, rfl⟩ | ⟨w, relay, hf, rfl, rfl⟩
  · cases hrequest with
    | request hr hq =>
      cases h.bears _ hr with
      | own hown =>
        rw [Own, hq] at hown
        cases hown
      | @packet _ packet hp harrival =>
        obtain ⟨src, req⟩ := packet
        rcases Packet.arrival_eq_some harrival with ⟨r', q', rfl, hdst, hq', he⟩ |
          ⟨_, _, -, -, -, he⟩ | ⟨_, _, -, -, -, he⟩
        · cases he
          cases hq
          exact .request hp hdst hq'
        · cases he
        · cases he
  · cases hcommand with
    | command hr hc =>
      cases h.bears _ hr with
      | own hown => cases hown
      | @packet _ packet hp harrival =>
        obtain ⟨src, req⟩ := packet
        rcases Packet.arrival_eq_some harrival with ⟨_, _, -, -, -, he⟩ |
          ⟨r', c', rfl, hdst, hc', he⟩ | ⟨_, _, -, -, -, he⟩
        · cases he
        · cases he
          cases hc
          exact .command hp hdst hc'
        · cases he
  · obtain ⟨frame, hframe, hlinked, hrelay⟩ := frame_of_told h.bears hf
    have hw : Told es os (.stream w) := by
      cases hf with
      | frame hw => exact hw
    -- the link says whose end it is, and the node has one stream under the identifier
    have heq := h.informed.one _ _ (h.streams _ (hm.links _ _ hlinked hn)) hw rfl
    refine .frame hframe hlinked ?_ rfl hrelay
    rw [← heq]

/-- Who acknowledges, and whose acknowledgements are waited for. -/
structure Honoured (S : Setting) (m : Network) : Prop where
  /-- a node acknowledges what it was asked for -/
  acks : ∀ n peer ack, S.honest n → ⟨n, .ackRequest ⟨peer, some ack⟩⟩ ∈ m.packets →
    m.Asked peer n ack.commandId
  /-- a waiter gets an acknowledgement that somebody has sent to its node -/
  waiters : ∀ n i ack, S.honest n → (m.pool n).state.oneshots i = .sent ack →
    ∃ peer, ⟨peer, .ackRequest ⟨n, some ack⟩⟩ ∈ m.packets ∧
      (S.honest peer → m.Asked n peer ack.commandId)

theorem Sound.honoured (hm : m.Sound S) : m.Honoured S := by
  have hacks (n peer : PeerId) (ack : Ack) (hn : S.honest n)
      (hp : ⟨n, .ackRequest ⟨peer, some ack⟩⟩ ∈ m.packets) : m.Asked peer n ack.commandId := by
    obtain ⟨es, os, hj⟩ := hm.nodes n hn
    exact hj.asked hm hn ((hj.informed.proper _ (hj.sent _ hp rfl)).2 ack rfl)
  refine ⟨hacks, fun n i ack hn hi => ?_⟩
  obtain ⟨es, os, hj⟩ := hm.nodes n hn
  obtain ⟨peer, hpeer⟩ := hj.informed.acks i ack hi
  cases hj.bears _ hpeer with
  | own hown => cases hown
  | @packet _ packet hp harrival =>
    obtain ⟨src, req⟩ := packet
    rcases Packet.arrival_eq_some harrival with ⟨_, _, -, -, -, he⟩ | ⟨_, _, -, -, -, he⟩ |
      ⟨r, ack', rfl, hdst, hack, he⟩
    · cases he
    · cases he
    · cases he
      obtain ⟨dst, ackRequest⟩ := r
      cases hdst
      cases hack
      exact ⟨src, hp, fun hsrc => hacks src _ ack hsrc hp⟩

/-- In every run of the network, whatever is lost, repeated or forged. -/
theorem honoured_run {es : List Event} {os : List Unit} (hS : ∀ n, ∀ t ∈ S.tasks n, t.Ready ∅)
    (h : run (step S) (start S) es = some (m, os)) : m.Honoured S :=
  (run_sound hS h).honoured

/-- Data travel along their circuit only, from its ends or from a stranger. -/
theorem data_along_circuit {es : List Event} {os : List Unit}
    (hS : ∀ n, ∀ t ∈ S.tasks n, t.Ready ∅) (h : run (step S) (start S) es = some (m, os))
    {frame : Frame} (hframe : frame ∈ m.frames) {data : Bytes} (hcarries : frame.Carries data) :
    m.Route S data frame :=
  (run_sound hS h).routes frame hframe data hcarries

end Network

end Generic

namespace Sample

def caller : PeerId := ⟨"caller"⟩

def proxy : PeerId := ⟨"proxy"⟩

def setting : Setting where
  honest n := n = caller ∨ n = proxy
  node _ := ⟨(⟨.ed25519, List.replicate 32 7⟩ : Ideal.Keypair), none, none⟩
  tasks n := if n = proxy then [.processProxyRequest] else []

/-- The caller asks the proxy for the peers of the net, and a third one makes itself heard. -/
def asks : List Event :=
  [.own caller (.call (.getMainNets 3 proxy)), .own caller (.thread 0 .go),
    .own caller (.thread 0 .go), .forge ⟨⟨"other"⟩, .ackRequest ⟨caller, some ⟨"", true, []⟩⟩⟩,
    .deliver 1, .deliver 0, .own proxy (.thread 0 .go), .own proxy (.thread 0 (.nodeInfos (some []))),
    .own proxy (.thread 0 .go), .deliver 2]

def left : PeerId := ⟨"left"⟩

def right : PeerId := ⟨"right"⟩

def relaying : Setting where
  honest n := n = proxy
  node _ := ⟨(⟨.ed25519, List.replicate 32 7⟩ : Ideal.Keypair), none, none⟩
  tasks _ := []

def joins : Bytes :=
  Codec.encode (newRelay .setSessionId
    (Codec.encode (⟨"circuit", SessionRole.relayRole.toI32⟩ : SetSessionIdMsg)))

def data : Bytes := Codec.encode ({ sessionId := "circuit", data := [0, 1, 7] } : RelayMsg)

/-- Two strangers join a session at the node, and it passes on what one of them says. -/
def relays : List Event :=
  [.connect ⟨left, 0⟩ proxy ⟨left, 0⟩, .connect ⟨right, 0⟩ proxy ⟨right, 1⟩,
    .forgeFrame ⟨⟨left, 0⟩, joins⟩, .forgeFrame ⟨⟨right, 0⟩, joins⟩,
    .forgeFrame ⟨⟨left, 0⟩, Codec.encode (newRelay .data data)⟩,
    .carry 0 ⟨proxy, 0⟩, .carry 1 ⟨proxy, 1⟩, .carry 2 ⟨proxy, 0⟩] ++
  List.replicate 5 (.own proxy (.thread 0 .go)) ++ List.replicate 4 (.own proxy (.thread 1 .go)) ++
  List.replicate 2 (.own proxy (.thread 0 .go)) ++
  [.own proxy (.thread 0 (.bytes [1])), .own proxy (.thread 0 .go)]

/-- The node has written the data. -/
def passedOn (frame : Frame) : Bool :=
  frame.writer.owner = proxy && (Codec.decode frame.data : Option Relay).any fun relay =>
    relay.type = Relaytype.data.toI32 ∧ relay.data = data

end Sample

theorem honoured_run_asks : ∃ m os,
    run (Network.step Sample.setting) (Network.start Sample.setting) Sample.asks = some (m, os) ∧
    (m.pool Sample.caller).state.oneshots 0 ≠ .empty ∧ m.Honoured Sample.setting := by
  obtain ⟨m, os, hr, hsent⟩ := exists_run (Network.step Sample.setting)
    (Network.start Sample.setting) Sample.asks
    (fun r => (r.1.pool Sample.caller).state.oneshots 0 ≠ .empty) (by decide +kernel)
  refine ⟨m, os, hr, of_decide_eq_true hsent, Network.honoured_run (fun n t ht => ?_) hr⟩
  simp only [Sample.setting] at ht
  split at ht
  · rw [List.mem_singleton.mp ht]
    trivial
  · cases ht

theorem data_along_circuit_relays : ∃ m os frame,
    run (Network.step Sample.relaying) (Network.start Sample.relaying) Sample.relays = some (m, os) ∧
    frame ∈ m.frames ∧ frame.writer.owner = Sample.proxy ∧ frame.Carries Sample.data ∧
    m.Route Sample.relaying Sample.data frame := by
  obtain ⟨m, os, hr, hframes⟩ := exists_run (Network.step Sample.relaying)
    (Network.start Sample.relaying) Sample.relays
    (fun r => r.1.frames.any Sample.passedOn) (by decide +kernel)
  obtain ⟨frame, hframe, hpassed⟩ := List.any_eq_true.mp hframes
  obtain ⟨howner, hrelay⟩ := Bool.and_eq_true_iff.mp hpassed
  obtain ⟨relay, hdecode, hdata⟩ := (Option.any_eq_true _ _).mp hrelay
  have hcarries : frame.Carries Sample.data := ⟨relay, hdecode, of_decide_eq_true hdata⟩
  exact ⟨m, os, frame, hr, hframe, of_decide_eq_true howner, hcarries,
    Network.data_along_circuit (by simp [Sample.relaying]) hr hframe hcarries⟩

end WhiteNoise.Parties
