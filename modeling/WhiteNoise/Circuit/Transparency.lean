import WhiteNoise.Circuit.SecureChannel
import WhiteNoise.Network.Ideal
import WhiteNoise.Stream.StartPoll

/-! # An established circuit is transparent

The nodes of a path of any length, with whatever other threads they run, and
the streams between them, which are reliable and in order. What one client
sends, the other one reads: each of the messages once, in order and unaltered,
in both directions at once, whatever the turns of the threads, the padding
drawn at each node and the traffic of other sessions.
-/

namespace WhiteNoise.Transparency

open Wire Process Place

section Generic

variable [Codec] [Crypto]

/-! ## The path -/

/-- The established path of a session: the caller, any number of forwarding nodes, the answer
client. The end that a direction starts from has the circuit `conn` with the transport state
`ref`, and every other node a handler for the direction. -/
structure Path where
  sid : String
  hops : ℕ
  place : ℕ → Place
  conn : Direction → CircuitConn
  ref : Direction → ℕ
  handler : Direction → ℕ → ℕ

namespace Path

variable (path : Path)

/-- The number of streams of the path. -/
def last : ℕ := path.hops + 1

/-- The `k`-th node in the direction. -/
def nth (d : Direction) (k : ℕ) : ℕ :=
  match d with
  | .toAnswer => k
  | .toCaller => path.last - k

/-- The direction a thread of a node serves as handler. -/
def role (n i : ℕ) : Option Direction :=
  if path.nth .toAnswer n ≠ 0 ∧ i = path.handler .toAnswer n then some .toAnswer
  else if path.nth .toCaller n ≠ 0 ∧ i = path.handler .toCaller n then some .toCaller
  else none

/-- The ends have the circuit, the other nodes forward in both directions, by different threads. -/
structure Laid : Prop where
  sid : ∀ n, (path.place n).sid = path.sid
  ends : ∀ d, (path.place (path.nth d 0)).End d (path.conn d) (path.ref d)
  source : ∀ d k, k < path.last → ((path.place (path.nth d (k + 1))).source d).isSome
  target : ∀ d k, k < path.last → ((path.place (path.nth d k)).target d).isSome
  handlers : ∀ n, path.handler .toAnswer n ≠ path.handler .toCaller n

end Path

/-! ## The network -/

/-- The nodes, the frames on the streams of the path, in each direction by the node they come from,
and the two clients: what each still has to send, its sending and its reading, and what it has
read. The reading in a direction is at its far end. -/
structure World where
  pools : ℕ → NodePool
  wires : Direction → ℕ → List Bytes
  unsent : Direction → List Bytes
  sender : Direction → Async Unit
  reader : Direction → Async Bytes
  results : Direction → List Bytes

/-- What happens in the network. `sendOther` and `readOther` are calls of clients on the circuits of
other sessions. -/
inductive NetEvent where
  | node (n : ℕ) (e : Event)
  | sendOther (n : ℕ) (sid : String) (message : Bytes)
  | readOther (n : ℕ) (sid : String) (buf : Bytes)
  | deliver (d : Direction) (k : ℕ)
  | send (d : Direction)
  | sending (d : Direction) (c : Choice)
  | read (d : Direction) (buf : Bytes)
  | reading (d : Direction) (c : Choice)

/-- What a read on a stream yields for a frame. -/
def received (b : Bytes) : ReadResult :=
  if b.length ≤ Stream.readLimit then .ok b else .error (.tooLarge b.length Stream.readLimit)

namespace World

variable (path : Path) (w : World)

/-- Node `n` has done something, and its frames are on the streams of the path. -/
def settle (n : ℕ) (p : NodePool) (os : List Output) : World :=
  { w with
    pools := Function.update w.pools n p
    wires := fun d => Function.update (w.wires d) (path.nth d n)
      (w.wires d (path.nth d n) ++ (path.place n).written d os) }

/-- A client of node `n` has done something. -/
def serve {α : Type} (n : ℕ) (r : Reply Shared Task Output α) : World :=
  w.settle path n
    ⟨r.state, (w.pools n).threads ++ r.spawned.map (Task.body (path.place n).node)⟩ r.outputs

/-- A client of node `n` has called something else. -/
def start (n : ℕ) (t : Thread) : Option (World × List (ℕ × Output)) :=
  if n ≤ path.last then
    some (w.settle path n ⟨(w.pools n).state, (w.pools n).threads ++ [t]⟩ [], [])
  else none

/-- One event. -/
def step (path : Path) (w : World) : NetEvent → Option (World × List (ℕ × Output))
  | .node n e =>
    if n ≤ path.last then
      match nodeStep (path.place n).node (w.pools n) e with
      | none => none
      | some (p, os) => some (w.settle path n p os, os.map (n, ·))
    else none
  | .sendOther n sid message =>
    w.start path n do
      Node.sendMessage sid message
      return none
  | .readOther n sid buf =>
    w.start path n do
      let circuitConn ← Prog.unwrap (← Async.getCircuit sid)
      let _ ← circuitConn.read buf
      return none
  | .deliver d k =>
    match w.wires d k, (path.place (path.nth d (k + 1))).source d with
    | b :: bs, some v =>
      let n := path.nth d (k + 1)
      let p : NodePool := ⟨(w.pools n).state.pushFrame v.streamId (received b), (w.pools n).threads⟩
      some ({ w with
        pools := Function.update w.pools n p
        wires := Function.update w.wires d (Function.update (w.wires d) k bs) }, [])
    | _, _ => none
  | .send d =>
    match w.unsent d, w.sender d with
    | m :: ms, .ret () =>
      some ({ w with
        unsent := Function.update w.unsent d ms
        sender := Function.update w.sender d (Node.sendMessage path.sid (sized m)) }, [])
    | _, _ => none
  | .sending d c =>
    let n := path.nth d 0
    match (nodeSemantics (path.place n).node).operate c (w.pools n).state (w.sender d) with
    | none => none
    | some r =>
      some ({ w.serve path n r with sender := Function.update w.sender d r.answer },
        r.outputs.map (n, ·))
  | .read d buf =>
    match w.reader d with
    | .ret _ =>
      some ({ w with reader := Function.update w.reader d ((path.conn d.flip).read buf) }, [])
    | _ => none
  | .reading d c =>
    let n := path.nth d path.last
    match (nodeSemantics (path.place n).node).operate c (w.pools n).state (w.reader d) with
    | none => none
    | some r =>
      let res := match r.answer with
        | .ret m => [m]
        | _ => []
      some ({ w.serve path n r with
        reader := Function.update w.reader d r.answer
        results := Function.update w.results d (w.results d ++ res) }, r.outputs.map (n, ·))

end World

/-! ## What is assumed -/

/-- The session is established along the path and nothing of it is on its way: its handlers are
about to read, all other threads are bystanders, the transport states are linked, and the
clients have not begun to send the messages. -/
structure Established (path : Path)
    (Linked : Crypto.Transport → Crypto.Transport → List (Bytes × Bytes) → Prop)
    (msgs : Direction → List Bytes) (w : World) : Prop where
  laid : path.Laid
  settled : ∀ n ≤ path.last, (path.place n).Settled (w.pools n).state
  handlers : ∀ d n, n ≤ path.last → path.nth d n ≠ 0 → ∃ v current,
    (path.place n).source d = some v ∧
      (w.pools n).threads[path.handler d n]? = some (relayEventHandler v current)
  others : ∀ n i t, n ≤ path.last → (∀ d, path.nth d n ≠ 0 → i ≠ path.handler d n) →
    (w.pools n).threads[i]? = some t → (path.place n).Bystands (path.place n).Next t
  wires : ∀ d k, w.wires d k = []
  inlet : ∀ d n, n ≤ path.last → (path.place n).inlet d (w.pools n).state = []
  arrived : ∀ d n, n ≤ path.last → (path.place n).arrived d (w.pools n).state = []
  linked : ∃ t : Direction → Crypto.Transport, ∀ d,
    (w.pools (path.nth d 0)).state.transports (path.ref d) = some (t d) ∧
      Linked (t d) (t d.flip) []
  unsent : ∀ d, w.unsent d = msgs d
  sender : ∀ d, w.sender d = .ret ()
  reader : ∀ d, ∃ m, w.reader d = .ret m
  results : ∀ d, w.results d = []

/-- What reaches the nodes is about other sessions, but for the frames of the path, which are within
the read limit; the clients read with buffers that are large enough. -/
def Calm (path : Path) (msgs : Direction → List Bytes) (w : World) : NetEvent → Prop
  | .node n e => (path.place n).EventApart e
  | .sendOther _ sid _ => sid ≠ path.sid
  | .readOther _ sid _ => sid ≠ path.sid
  | .deliver d k => ∀ b, (w.wires d k).head? = some b → b.length ≤ Stream.readLimit
  | .read d buf => ∀ m ∈ msgs d, m.length + 4 ≤ buf.length
  | _ => True

/-- Nothing of the direction can happen any more: its handlers wait for frames, nothing is to be
delivered, and its clients have nothing to send and wait for a message. -/
structure Idle (path : Path) (w : World) (d : Direction) : Prop where
  handler : ∀ n c, n ≤ path.last → path.nth d n ≠ 0 →
    w.step path (.node n (.thread (path.handler d n) c)) = none
  deliver : ∀ k < path.last, w.step path (.deliver d k) = none
  send : w.step path (.send d) = none
  sending : ∀ c, w.step path (.sending d c) = none
  read : ∀ buf, w.step path (.read d buf) = none
  reading : ∀ c, w.step path (.reading d c) = none

/-! ## Places along the path -/

namespace Path

variable {path : Path} {d : Direction} {k j n i : ℕ}

omit [Codec] in
theorem nth_le (h : k ≤ path.last) : path.nth d k ≤ path.last := by
  cases d with
  | toAnswer => exact h
  | toCaller => exact Nat.sub_le _ _

omit [Codec] in
theorem nth_nth (h : k ≤ path.last) : path.nth d (path.nth d k) = k := by
  cases d with
  | toAnswer => rfl
  | toCaller => exact Nat.sub_sub_self h

omit [Codec] in
theorem nth_inj (hk : k ≤ path.last) (hj : j ≤ path.last) (h : path.nth d k = path.nth d j) :
    k = j := by rw [← nth_nth (d := d) hk, h, nth_nth hj]

omit [Codec] in
theorem nth_last : path.nth d path.last = path.nth d.flip 0 := by
  cases d with
  | toAnswer => rfl
  | toCaller => exact Nat.sub_self _

omit [Codec] in
theorem Laid.role_iff (h : path.Laid) :
    path.role n i = some d ↔ path.nth d n ≠ 0 ∧ i = path.handler d n := by
  have hne := h.handlers n
  cases d with
  | toAnswer =>
    unfold role
    split
    · next hrole => simpa using hrole
    · next hrole =>
      split
      · simpa using hrole
      · simpa using hrole
  | toCaller =>
    unfold role
    split
    · next hrole =>
      refine iff_of_false (by simp) fun hc => hne ?_
      rw [← hrole.2, hc.2]
    · split
      · next hrole => simpa using hrole
      · next hrole => simpa using hrole

omit [Codec] in
/-- The first node of a direction has no handler for it. -/
theorem Laid.no_role (h : path.Laid) : path.role (path.nth d 0) i ≠ some d := by
  rw [Ne, h.role_iff, nth_nth (Nat.zero_le _)]
  simp

end Path

/-! ## What is on its way -/

/-- What couriers hold, what is encrypted and not yet decrypted with its messages, what is not yet
encrypted and what has been taken from the circuit; and the transport states. -/
structure Ghost where
  held : ℕ → Direction → List Bytes
  queue : Direction → List (Bytes × Bytes)
  pending : Direction → List Bytes
  taken : Direction → List Bytes
  transport : Direction → Crypto.Transport

/-- What the `k`-th node in the direction has not yet handed on, with what is behind it on the
stream that leaves it. -/
def block (path : Path) (w : World) (held : ℕ → Direction → List Bytes) (d : Direction) (k : ℕ) :
    List Bytes :=
  (w.wires d k).filterMap (payloadIn path.sid) ++
    (path.place (path.nth d k)).arrived d (w.pools (path.nth d k)).state ++
    held (path.nth d k) d ++ (path.place (path.nth d k)).inlet d (w.pools (path.nth d k)).state

/-- The nodes are staffed, and the streams between them carry payloads only. -/
structure Net (path : Path) (w : World) (held : ℕ → Direction → List Bytes) : Prop where
  staffed : ∀ n ≤ path.last, (path.place n).Staffed (path.role n) (held n) (w.pools n)
  bears : ∀ d k, ∀ b ∈ w.wires d k, (payloadIn path.sid b).isSome
  ends : ∀ d k, path.last ≤ k → w.wires d k = []

section

variable {path : Path} {w w' : World} {held : ℕ → Direction → List Bytes} {d e : Direction}
  {n k : ℕ} {p : NodePool} {os : List Output} {held' : Direction → List Bytes}

theorem block_settle (hlaid : path.Laid) (hn : n ≤ path.last) (hk : k ≤ path.last)
    (hp : (path.place n).Passes (w.pools n).state p.state os (held n) held') :
    block path (w.settle path n p os) (Function.update held n held') d k =
      block path w held d k := by
  by_cases hkn : k = path.nth d n
  · subst hkn
    have hcontent := hp.content d
    rw [emitted, hlaid.sid n] at hcontent
    simp only [block, World.settle, Path.nth_nth hn, Function.update_self, List.filterMap_append,
      List.append_assoc] at hcontent ⊢
    rw [hcontent]
  · have hne : path.nth d k ≠ n := by
      rintro rfl
      exact hkn (Path.nth_nth hk).symm
    simp only [block, World.settle, Function.update_of_ne hne, Function.update_of_ne hkn]

theorem mem_written {place : Place} {b : Bytes} (hp : ∀ o ∈ os, place.Permits o)
    (hb : b ∈ place.written d os) : (payloadIn place.sid b).isSome := by
  obtain ⟨o, ho, heq⟩ := List.mem_filterMap.mp hb
  cases o with
  | write v c =>
    dsimp only at heq
    split at heq
    · next hv =>
      cases heq
      simpa only [Permits, if_pos (place.target_guards hv)] using hp _ ho
    · cases heq
  | _ => cases heq

theorem Net.settle (h : Net path w held) (hlaid : path.Laid) (hn : n ≤ path.last)
    (hstaff : (path.place n).Staffed (path.role n) held' p)
    (hos : ∀ o ∈ os, (path.place n).Permits o) :
    Net path (w.settle path n p os) (Function.update held n held') where
  staffed m hm := by
    by_cases hmn : m = n
    · subst hmn
      simpa only [World.settle, Function.update_self] using hstaff
    · simpa only [World.settle, Function.update_of_ne hmn] using h.staffed m hm
  bears e k b hb := by
    simp only [World.settle] at hb
    by_cases hk : k = path.nth e n
    · subst hk
      rw [Function.update_self, List.mem_append] at hb
      obtain hb | hb := hb
      · exact h.bears e _ b hb
      · exact hlaid.sid n ▸ mem_written hos hb
    · rw [Function.update_of_ne hk] at hb
      exact h.bears e k b hb
  ends e k hk := by
    simp only [World.settle]
    by_cases hkn : k = path.nth e n
    · -- nothing is written beyond the end
      have hlast : path.last = path.nth e n :=
        Nat.le_antisymm (hk.trans hkn.le) (Path.nth_le hn)
      have hnone : (path.place n).target e = none := by
        have harr := (hlaid.ends e.flip).arrives
        rwa [Direction.flip_flip, ← Path.nth_last, hlast, Path.nth_nth hn] at harr
      have hwritten : (path.place n).written e os = [] := by
        rw [written, List.filterMap_eq_nil_iff]
        intro o ho
        cases o with
        | write v b => simp [hnone]
        | _ => rfl
      rw [← hkn, Function.update_self, hwritten, List.append_nil]
      exact h.ends e k hk
    · rw [Function.update_of_ne hkn]
      exact h.ends e k hk

end

/-! ## The invariant -/

/-- What has been taken from the circuit and what is on its way are the ciphertexts in flight, and
their messages are what is missing between what has been read and what is still to be
encrypted. -/
structure Inv (path : Path)
    (Linked : Crypto.Transport → Crypto.Transport → List (Bytes × Bytes) → Prop)
    (msgs : Direction → List Bytes) (w : World) (g : Ghost) : Prop where
  net : Net path w g.held
  sending : ∀ d, (path.place (path.nth d 0)).Sending d (path.conn d) (w.sender d) (g.pending d)
    (g.held (path.nth d 0) d)
  reading : ∀ d, Reading (msgs d) (path.conn d.flip) (path.ref d.flip) (w.reader d) (g.taken d)
  inOrder : ∀ d, g.taken d ++ row (block path w g.held d) path.last =
    (g.queue d).map fun x => packed x.1
  messages : ∀ d, msgs d =
    w.results d ++ (g.queue d).map Prod.snd ++ g.pending d ++ w.unsent d
  transports : ∀ d, (w.pools (path.nth d 0)).state.transports (path.ref d) = some (g.transport d)
  linked : ∀ d, Linked (g.transport d) (g.transport d.flip)
    ((g.queue d).map fun x => (x.1, sized x.2))
  sizes : ∀ d, ∀ x ∈ g.queue d, x.1.length ≤ 65535

section

variable {path : Path}
  {Linked : Crypto.Transport → Crypto.Transport → List (Bytes × Bytes) → Prop}
  {msgs : Direction → List Bytes} {w w' : World} {g : Ghost} {d : Direction} {n k : ℕ}
  {p : NodePool} {os : List Output} {held' : Direction → List Bytes}

/-- A node and perhaps its sending client have done something, and no message was encrypted. -/
theorem Inv.pass (h : Inv path Linked msgs w g) (hlaid : path.Laid) (hn : n ≤ path.last)
    (hstaff : (path.place n).Staffed (path.role n) held' p)
    (hpass : (path.place n).Passes (w.pools n).state p.state os (g.held n) held')
    {sender' : Direction → Async Unit}
    (hsend : ∀ e, (path.place (path.nth e 0)).Sending e (path.conn e) (sender' e) (g.pending e)
      (Function.update g.held n held' (path.nth e 0) e)) :
    Inv path Linked msgs { w.settle path n p os with sender := sender' }
      { g with held := Function.update g.held n held' } where
  net :=
    have hnet := h.net.settle hlaid hn hstaff hpass.outputs
    ⟨hnet.staffed, hnet.bears, hnet.ends⟩
  sending := hsend
  reading := h.reading
  inOrder e := by
    rw [← h.inOrder e]
    congr 1
    exact row_congr fun j hj => block_settle hlaid hn hj hpass
  messages := h.messages
  transports e := by
    have hold := h.transports e
    have hend := hlaid.ends e
    by_cases hne : path.nth e 0 = n
    · subst hne
      simp only [World.settle, Function.update_self]
      rw [hpass.transports _ _ hend.circuit hend.transport, hold]
    · simpa only [World.settle, Function.update_of_ne hne] using hold
  linked := h.linked
  sizes := h.sizes

/-- The handlers of node `n` have changed what they hold, which is none of its sending client's
business. -/
theorem Inv.sending_of_handlers (h : Inv path Linked msgs w g)
    (hheld : ∀ e, path.nth e 0 = n → held' e = g.held n e) (e : Direction) :
    (path.place (path.nth e 0)).Sending e (path.conn e) (w.sender e) (g.pending e)
      (Function.update g.held n held' (path.nth e 0) e) := by
  have hold := h.sending e
  by_cases hne : path.nth e 0 = n
  · rw [hne] at hold ⊢
    rw [Function.update_self, hheld e hne]
    exact hold
  · rwa [Function.update_of_ne hne]

theorem Inv.node_step (h : Inv path Linked msgs w g) (hlaid : path.Laid) (hn : n ≤ path.last)
    {e : Event} (he : (path.place n).EventApart e)
    (hs : nodeStep (path.place n).node (w.pools n) e = some (p, os)) :
    (∃ g', Inv path Linked msgs (w.settle path n p os) g') ∧
      ∀ o ∈ os, (path.place n).Permits o := by
  obtain ⟨held', hstaff, hpass, hrole⟩ := (h.net.staffed n hn).step he hs
  refine ⟨⟨_, h.pass hlaid hn hstaff hpass (h.sending_of_handlers fun e hne => ?_)⟩, hpass.outputs⟩
  exact hrole e fun j => hne ▸ hlaid.no_role

/-- Another thread has started. -/
theorem Inv.start_step (h : Inv path Linked msgs w g) (hlaid : path.Laid) {t : Thread}
    (ht : (path.place n).Bystands (path.place n).Next t) {os : List (ℕ × Output)}
    (hs : w.start path n t = some (w', os)) : (∃ g', Inv path Linked msgs w' g') ∧ os = [] := by
  unfold World.start at hs
  split at hs
  · next hn =>
    cases hs
    have hset := (h.net.staffed n hn).settled
    have hstaff := (h.net.staffed n hn).join hset
      fun u hu => (List.mem_singleton.mp hu).symm ▸ ht
    have hpass : (path.place n).Passes _ (w.pools n).state [] (g.held n) (g.held n) :=
      Moves.passes_none hset.moves_refl
    exact ⟨⟨_, h.pass hlaid hn hstaff hpass (h.sending_of_handlers fun _ _ => rfl)⟩, rfl⟩
  · cases hs

theorem step_deliver {os : List (ℕ × Output)} (hs : w.step path (.deliver d k) = some (w', os)) :
    ∃ b bs v, w.wires d k = b :: bs ∧
      (path.place (path.nth d (k + 1))).source d = some v ∧ os = [] ∧
      w' = { w with
        pools := Function.update w.pools (path.nth d (k + 1))
          ⟨(w.pools (path.nth d (k + 1))).state.pushFrame v.streamId (received b),
            (w.pools (path.nth d (k + 1))).threads⟩
        wires := Function.update w.wires d (Function.update (w.wires d) k bs) } := by
  simp only [World.step] at hs
  split at hs
  · next b bs v hw hv =>
    cases hs
    exact ⟨b, bs, v, hw, hv, rfl, rfl⟩
  · cases hs

/-- A frame reaches the next node. -/
theorem Inv.deliver_step (h : Inv path Linked msgs w g) (hlaid : path.Laid) {os : List (ℕ × Output)}
    (hcalm : ∀ b, (w.wires d k).head? = some b → b.length ≤ Stream.readLimit)
    (hs : w.step path (.deliver d k) = some (w', os)) :
    Inv path Linked msgs w' g ∧ os = [] := by
  obtain ⟨b, bs, v, hwire, hv, rfl, rfl⟩ := step_deliver hs
  have hk : k < path.last := by
    by_contra hle
    rw [h.net.ends d k (Nat.le_of_not_lt hle)] at hwire
    cases hwire
  have hn : path.nth d (k + 1) ≤ path.last := Path.nth_le hk
  obtain ⟨c, hc⟩ := Option.isSome_iff_exists.mp (h.net.bears d k b (hwire ▸ List.mem_cons_self))
  have hrec : received b = .ok b := if_pos (hcalm b (by rw [hwire]; rfl))
  have hload : load path.sid (received b) = some c := by rw [hrec]; exact hc
  have hstaff := h.net.staffed _ hn
  have harrives : (path.place (path.nth d (k + 1))).Arrives v.streamId (received b) := by
    rw [Arrives, if_pos ((path.place _).source_guards hv), hlaid.sid, hload, Option.isSome_some]
  refine ⟨?_, rfl⟩
  constructor
  case net =>
    refine ⟨fun m hm => ?_, fun e j x hx => ?_, fun e j hj => ?_⟩
    · by_cases hmn : m = path.nth d (k + 1)
      · subst hmn
        simpa only [Function.update_self] using hstaff.state (hstaff.settled.frame harrives)
      · simpa only [Function.update_of_ne hmn] using h.net.staffed m hm
    · by_cases he : e = d
      · subst he
        simp only [Function.update_self] at hx
        by_cases hj : j = k
        · subst hj
          rw [Function.update_self] at hx
          exact h.net.bears e j x (hwire ▸ List.mem_cons_of_mem _ hx)
        · rw [Function.update_of_ne hj] at hx
          exact h.net.bears e j x hx
      · simp only [Function.update_of_ne he] at hx
        exact h.net.bears e j x hx
    · by_cases he : e = d
      · subst he
        have hjk : j ≠ k := by omega
        simp only [Function.update_self, Function.update_of_ne hjk]
        exact h.net.ends e j hj
      · simp only [Function.update_of_ne he]
        exact h.net.ends e j hj
  case sending => exact h.sending
  case reading => exact h.reading
  case inOrder =>
    intro e
    rw [← h.inOrder e]
    congr 1
    have hnode (j : ℕ) (hj : j ≤ path.last) (hjk : j ≠ k + 1) :
        path.nth d j ≠ path.nth d (k + 1) := fun heq => hjk (Path.nth_inj hj hk heq)
    obtain rfl | rfl := Direction.eq_or_flip d e
    · refine row_hand hk (x := c) ?_ ?_ fun j hj hjk hjk' => ?_
      · simp only [block, Function.update_self, Function.update_of_ne (hnode k hk.le (by omega)),
          hwire, List.filterMap_cons, hc, List.cons_append]
      · simp only [block, Function.update_self, Function.update_of_ne (Nat.succ_ne_self k)]
        rw [inlet_frame hv (by rw [hlaid.sid, hload]), arrived_frame]
        simp only [List.append_assoc]
      · simp only [block, Function.update_self, Function.update_of_ne (hnode j hj hjk'),
          Function.update_of_ne hjk]
    · refine row_congr fun j hj => ?_
      simp only [block, Function.update_of_ne d.flip_ne]
      by_cases hne : path.nth d.flip j = path.nth d (k + 1)
      · rw [hne, Function.update_self, inlet_frame_flip hv, arrived_frame]
      · rw [Function.update_of_ne hne]
  case messages => exact h.messages
  case transports =>
    intro e
    by_cases hne : path.nth e 0 = path.nth d (k + 1)
    · simpa only [hne, Function.update_self, Shared.pushFrame] using h.transports e
    · simpa only [Function.update_of_ne hne] using h.transports e
  case linked => exact h.linked
  case sizes => exact h.sizes

/-! ## The sending client -/

theorem step_send {os : List (ℕ × Output)} (hs : w.step path (.send d) = some (w', os)) :
    ∃ m ms, w.unsent d = m :: ms ∧ w.sender d = .ret () ∧ os = [] ∧
      w' = { w with
        unsent := Function.update w.unsent d ms
        sender := Function.update w.sender d (Node.sendMessage path.sid (sized m)) } := by
  simp only [World.step] at hs
  split at hs
  · next m ms hm hret =>
    cases hs
    exact ⟨m, ms, hm, hret, rfl, rfl⟩
  · cases hs

theorem Inv.send_step (h : Inv path Linked msgs w g) (hlaid : path.Laid) {os : List (ℕ × Output)}
    (hs : w.step path (.send d) = some (w', os)) :
    (∃ g', Inv path Linked msgs w' g') ∧ os = [] := by
  obtain ⟨m, ms, hm, hret, rfl, rfl⟩ := step_send hs
  have hsend := h.sending d
  rw [hret] at hsend
  obtain ⟨hpending, hheld⟩ := hsend.of_ret (hlaid.ends d)
  refine ⟨⟨{ g with pending := Function.update g.pending d [m] }, ?_⟩, rfl⟩
  constructor
  case net => exact ⟨h.net.staffed, h.net.bears, h.net.ends⟩
  case sending =>
    intro e
    by_cases he : e = d
    · subst he
      simp only [Function.update_self, hheld]
      rw [← hlaid.sid (path.nth e 0)]
      exact .start m
    · simpa only [Function.update_of_ne he] using h.sending e
  case messages =>
    intro e
    by_cases he : e = d
    · subst he
      have hold := h.messages e
      rw [hm, hpending, List.append_nil] at hold
      simp only [Function.update_self]
      rw [hold, List.append_assoc _ [m] ms, List.singleton_append]
    · simpa only [Function.update_of_ne he] using h.messages e
  case reading => exact h.reading
  case inOrder => exact h.inOrder
  case transports => exact h.transports
  case linked => exact h.linked
  case sizes => exact h.sizes

theorem step_sending {c : Choice} {os : List (ℕ × Output)}
    (hs : w.step path (.sending d c) = some (w', os)) :
    ∃ r, (nodeSemantics (path.place (path.nth d 0)).node).operate c (w.pools (path.nth d 0)).state
        (w.sender d) = some r ∧ os = r.outputs.map (path.nth d 0, ·) ∧
      w' = { w.serve path (path.nth d 0) r with
        sender := Function.update w.sender d r.answer } := by
  simp only [World.step] at hs
  split at hs
  · cases hs
  · next r hr =>
    cases hs
    exact ⟨r, hr, rfl, rfl⟩

omit [Codec] in
theorem node_ne {e : Direction} (he : e ≠ d) : path.nth e 0 ≠ path.nth d 0 := by
  obtain rfl := (Direction.eq_or_flip d e).resolve_left he
  cases d <;> simp [Direction.flip, Path.nth, Path.last]

omit [Codec] in
theorem wires_settle_nil : (w.settle path n p []).wires = w.wires := by
  funext d
  simp [World.settle, written]

/-- A node has done something that leaves one direction alone. -/
theorem block_quiet {held : ℕ → Direction → List Bytes} {j : ℕ}
    (hinlet : (path.place n).inlet d p.state = (path.place n).inlet d (w.pools n).state)
    (harrived : (path.place n).arrived d p.state = (path.place n).arrived d (w.pools n).state)
    (hheld : held' d = held n d) :
    block path (w.settle path n p []) (Function.update held n held') d j =
      block path w held d j := by
  simp only [block, wires_settle_nil]
  by_cases hne : path.nth d j = n
  · simp only [hne, World.settle, Function.update_self, hinlet, harrived, hheld]
  · simp only [World.settle, Function.update_of_ne hne]

theorem block_same {held : ℕ → Direction → List Bytes} {j : ℕ}
    (hinlet : (path.place n).inlet d p.state = (path.place n).inlet d (w.pools n).state)
    (harrived : (path.place n).arrived d p.state = (path.place n).arrived d (w.pools n).state) :
    block path (w.settle path n p []) held d j = block path w held d j := by
  rw [← Function.update_eq_self n held, block_quiet hinlet harrived rfl, Function.update_eq_self]

/-- An operation that gives nothing out and starts no thread -/
theorem serve_quiet {α : Type} {r : Reply Shared Task Output α} (hos : r.outputs = [])
    (hts : r.spawned = []) :
    w.serve path n r = w.settle path n ⟨r.state, (w.pools n).threads⟩ [] := by
  simp [World.serve, hos, hts]

theorem Net.quiet {held : ℕ → Direction → List Bytes} {s : Shared} (h : Net path w held)
    (hlaid : path.Laid) (hn : n ≤ path.last) (hset : (path.place n).Settled s) :
    Net path (w.settle path n ⟨s, (w.pools n).threads⟩ []) held := by
  have hnet := h.settle hlaid hn ((h.staffed n hn).state hset) (List.forall_mem_nil _)
  rwa [Function.update_eq_self] at hnet

/-- What the sending client of a direction holds is not its node's handlers' business. -/
theorem staffed_end {held : Direction → List Bytes} {l : List Bytes} (hlaid : path.Laid)
    (h : (path.place (path.nth d 0)).Staffed (path.role (path.nth d 0)) held p) :
    (path.place (path.nth d 0)).Staffed (path.role (path.nth d 0))
      (Function.update held d l) p := by
  refine h.keep fun e i he => Function.update_of_ne ?_ _ _
  rintro rfl
  exact hlaid.no_role he

/-- What is encrypted joins what is on its way at the end. -/
theorem row_encrypted {held : ℕ → Direction → List Bytes} {c : Bytes} (hlaid : path.Laid)
    (hheld : held (path.nth d 0) d = [])
    (harrived : (path.place (path.nth d 0)).arrived d p.state =
      (path.place (path.nth d 0)).arrived d (w.pools (path.nth d 0)).state) :
    row (block path (w.settle path (path.nth d 0) p [])
      (Function.update held (path.nth d 0) (Function.update (held (path.nth d 0)) d [c])) d)
        path.last = row (block path w held d) path.last ++ [c] := by
  have hend := hlaid.ends d
  refine row_put ?_ fun j hj hj0 => ?_
  · have hnil (s : Shared) : (path.place (path.nth d 0)).inlet d s = [] := by
      simp [inlet, hend.source]
    simp only [block, wires_settle_nil]
    simp only [World.settle, Function.update_self, harrived, hnil, hheld, List.append_nil]
  · have hne : path.nth d j ≠ path.nth d 0 :=
      fun heq => hj0 (Path.nth_inj hj (Nat.zero_le _) heq)
    simp only [block, wires_settle_nil]
    simp only [World.settle, Function.update_of_ne hne]

/-- A message is encrypted. -/
theorem Inv.encrypt (h : Inv path Linked msgs w g) (hlaid : path.Laid) (hch : IdealChannel Linked)
    {r : Reply Shared Task Output (Async Unit)} {m cipher : Bytes} {t' : Crypto.Transport}
    (hpending : g.pending d = [m]) (hheld : g.held (path.nth d 0) d = []) (hos : r.outputs = [])
    (hts : r.spawned = [])
    (hstate : r.state = { (w.pools (path.nth d 0)).state with
      transports := Function.update (w.pools (path.nth d 0)).state.transports (path.ref d)
        (some t') })
    (hwrite : Crypto.transportWrite (g.transport d) (sized m) = some (t', cipher))
    (hmax : cipher.length ≤ 65535)
    (hlinked : Linked t' (g.transport d.flip)
      ((g.queue d).map (fun x => (x.1, sized x.2)) ++ [(cipher, sized m)]))
    (hnext : (path.place (path.nth d 0)).Sending d (path.conn d) r.answer [] [packed cipher]) :
    ∃ g', Inv path Linked msgs
      { w.serve path (path.nth d 0) r with sender := Function.update w.sender d r.answer } g' := by
  have hn : path.nth d 0 ≤ path.last := Path.nth_le (Nat.zero_le _)
  have hstaff := h.net.staffed _ hn
  have hset : (path.place (path.nth d 0)).Settled r.state := by
    rw [hstate]
    exact { hstaff.settled with }
  have hinlet (e : Direction) : (path.place (path.nth d 0)).inlet e r.state =
      (path.place (path.nth d 0)).inlet e (w.pools (path.nth d 0)).state := by
    rw [hstate]
    rfl
  have harrived (e : Direction) : (path.place (path.nth d 0)).arrived e r.state =
      (path.place (path.nth d 0)).arrived e (w.pools (path.nth d 0)).state := by
    rw [hstate]
    rfl
  refine ⟨{ g with
    held := Function.update g.held (path.nth d 0)
      (Function.update (g.held (path.nth d 0)) d [packed cipher])
    queue := Function.update g.queue d (g.queue d ++ [(cipher, m)])
    pending := Function.update g.pending d []
    transport := Function.update g.transport d t' }, ?_⟩
  rw [serve_quiet hos hts]
  constructor
  case net =>
    have hstaff' : (path.place (path.nth d 0)).Staffed (path.role (path.nth d 0))
        (Function.update (g.held (path.nth d 0)) d [packed cipher])
        ⟨r.state, (w.pools (path.nth d 0)).threads⟩ :=
      staffed_end hlaid (hstaff.state hset)
    have hnone : ∀ o ∈ ([] : List Output), (path.place (path.nth d 0)).Permits o :=
      List.forall_mem_nil _
    have hnet := h.net.settle hlaid hn hstaff' hnone
    exact ⟨hnet.staffed, hnet.bears, hnet.ends⟩
  case sending =>
    intro e
    by_cases he : e = d
    · subst he
      simpa only [Function.update_self] using hnext
    · have hne : path.nth e 0 ≠ path.nth d 0 := node_ne he
      simpa only [Function.update_of_ne he, Function.update_of_ne hne] using h.sending e
  case reading => exact h.reading
  case inOrder =>
    intro e
    by_cases he : e = d
    · subst he
      have hrow := h.inOrder e
      simp only [Function.update_self, List.map_append, List.map_cons, List.map_nil]
      rw [← hrow, List.append_assoc]
      congr 1
      exact row_encrypted hlaid hheld (harrived e)
    · simp only [Function.update_of_ne he]
      rw [← h.inOrder e]
      congr 1
      exact row_congr fun j _ =>
        block_quiet (hinlet e) (harrived e) (Function.update_of_ne he _ _)
  case messages =>
    intro e
    by_cases he : e = d
    · subst he
      have hold := h.messages e
      rw [hpending] at hold
      simp only [Function.update_self, List.map_append, List.map_cons, List.map_nil,
        List.append_nil]
      rw [hold, List.append_assoc (w.results e)]
      rfl
    · simpa only [World.settle, Function.update_of_ne he] using h.messages e
  case transports =>
    intro e
    by_cases he : e = d
    · subst he
      simp only [World.settle, Function.update_self, hstate]
    · have hne : path.nth e 0 ≠ path.nth d 0 := node_ne he
      simpa only [World.settle, Function.update_of_ne he, Function.update_of_ne hne]
        using h.transports e
  case linked =>
    intro e
    obtain rfl | rfl := Direction.eq_or_flip d e
    · simpa only [Function.update_self, Function.update_of_ne e.flip_ne, List.map_append,
        List.map_cons, List.map_nil] using hlinked
    · have hback := hch.write_back (Direction.flip_flip d ▸ h.linked d.flip) hwrite
      simpa only [Direction.flip_flip, Function.update_self, Function.update_of_ne d.flip_ne]
        using hback
  case sizes =>
    intro e x hx
    by_cases he : e = d
    · subst he
      simp only [Function.update_self, List.mem_append, List.mem_singleton] at hx
      obtain hx | rfl := hx
      · exact h.sizes e x hx
      · exact hmax
    · simp only [Function.update_of_ne he] at hx
      exact h.sizes e x hx

/-- One operation of a sending client -/
theorem Inv.sending_step (h : Inv path Linked msgs w g) (hlaid : path.Laid) (hch : IdealChannel Linked)
    (hfit : ∀ m ∈ msgs d, m.length ≤ Stream.readLimit) {c : Choice} {os : List (ℕ × Output)}
    (hs : w.step path (.sending d c) = some (w', os)) :
    (∃ g', Inv path Linked msgs w' g') ∧
      ∀ o ∈ os, o.1 = path.nth d 0 ∧ (path.place (path.nth d 0)).Permits o.2 := by
  obtain ⟨r, hr, rfl, rfl⟩ := step_sending hs
  have hn : path.nth d 0 ≤ path.last := Path.nth_le (Nat.zero_le _)
  have hstaff := h.net.staffed _ hn
  have hlen : ∀ m ∈ g.pending d, (sized m).length ≤ 65519 := by
    intro m hm
    have hmem : m ∈ msgs d := by
      rw [h.messages d]
      simp [hm]
    have hle := hfit m hmem
    rw [Stream.readLimit] at hle
    rw [length_sized]
    omega
  obtain ⟨inn, out, held₁, heq, hmoves, hnext⟩ | ⟨m, t', cipher, hpending, hheld, hos, hts, hstate,
    hwrite, hmax, hlinked, hnext⟩ := (h.sending d).operate hch (hlaid.ends d) hstaff.settled
      (h.transports d) (h.linked d) hlen hr
  · -- what is encrypted moves on
    have hpass := hmoves.passes_some heq
    refine ⟨⟨_, h.pass hlaid hn (p := ⟨r.state, _⟩) ?_ hpass fun e => ?_⟩, ?_⟩
    · exact staffed_end hlaid (hstaff.join hmoves.settled (bystands_spawned hmoves.spawned))
    · by_cases he : e = d
      · subst he
        simpa only [Function.update_self] using hnext
      · have hne : path.nth e 0 ≠ path.nth d 0 := node_ne he
        simpa only [Function.update_of_ne he, Function.update_of_ne hne] using h.sending e
    · intro o ho
      obtain ⟨o, ho', rfl⟩ := List.mem_map.mp ho
      exact ⟨rfl, hmoves.outputs o ho'⟩
  · have henc := h.encrypt hlaid hch hpending hheld hos hts hstate hwrite hmax hlinked hnext
    exact ⟨henc, by simp [hos]⟩

/-! ## The reading client -/

theorem step_read {buf : Bytes} {os : List (ℕ × Output)}
    (hs : w.step path (.read d buf) = some (w', os)) :
    (∃ m, w.reader d = .ret m) ∧ os = [] ∧
      w' = { w with reader := Function.update w.reader d ((path.conn d.flip).read buf) } := by
  simp only [World.step] at hs
  split at hs
  · next m hm =>
    cases hs
    exact ⟨⟨m, hm⟩, rfl, rfl⟩
  · cases hs

omit [Codec] in
theorem Reading.of_ret {ms : List Bytes} {conn : CircuitConn} {ref : ℕ} {m : Bytes}
    {taken : List Bytes} (h : Reading ms conn ref (.ret m) taken) : taken = [] := by
  generalize hp : (Prog.ret m : Async Bytes) = p at h
  cases h with
  | idle => rfl
  | wait => rfl
  | decrypt cipher =>
    simp only [decrypting, readTransport] at hp
    cases hp

theorem Inv.read_step (h : Inv path Linked msgs w g) {buf : Bytes}
    (hbuf : ∀ m ∈ msgs d, m.length + 4 ≤ buf.length) {os : List (ℕ × Output)}
    (hs : w.step path (.read d buf) = some (w', os)) : Inv path Linked msgs w' g ∧ os = [] := by
  obtain ⟨⟨m, hm⟩, rfl, rfl⟩ := step_read hs
  have htaken : g.taken d = [] := Reading.of_ret (hm ▸ h.reading d)
  refine ⟨?_, rfl⟩
  constructor
  case net => exact ⟨h.net.staffed, h.net.bears, h.net.ends⟩
  case reading =>
    intro e
    by_cases he : e = d
    · subst he
      simp only [Function.update_self, htaken]
      exact .wait fun m hm => by simpa using hbuf m hm
    · simpa only [Function.update_of_ne he] using h.reading e
  case sending => exact h.sending
  case inOrder => exact h.inOrder
  case messages => exact h.messages
  case transports => exact h.transports
  case linked => exact h.linked
  case sizes => exact h.sizes

theorem step_reading {c : Choice} {os : List (ℕ × Output)}
    (hs : w.step path (.reading d c) = some (w', os)) :
    ∃ r res, (nodeSemantics (path.place (path.nth d path.last)).node).operate c
        (w.pools (path.nth d path.last)).state (w.reader d) = some r ∧
      os = r.outputs.map (path.nth d path.last, ·) ∧
      (∀ m, r.answer = .ret m → res = [m]) ∧ ((∀ m, r.answer ≠ .ret m) → res = []) ∧
      w' = { w.serve path (path.nth d path.last) r with
        reader := Function.update w.reader d r.answer
        results := Function.update w.results d (w.results d ++ res) } := by
  simp only [World.step] at hs
  split at hs
  · cases hs
  · next r hr =>
    cases hs
    refine ⟨r, _, hr, rfl, fun m hm => ?_, fun hne => ?_, rfl⟩
    · rw [hm]
    · split
      · next m hm => exact absurd hm (hne m)
      · rfl

omit [Codec] [Crypto] in
theorem packed_injective {c c' : Bytes} (h : packed c = packed c') : c = c' := by
  simpa [packed, putU16] using congrArg (List.drop 2) h

/-- What is taken from the circuit is the head of what is on its way. -/
theorem Net.row_taken {held : ℕ → Direction → List Bytes} {b : Bytes} {bs : List Bytes}
    {s : Shared} (h : Net path w held) (hlaid : path.Laid)
    (hq : (w.pools (path.nth d.flip 0)).state.channels (path.conn d.flip).inChannel = b :: bs)
    (hs : s = { (w.pools (path.nth d.flip 0)).state with
      channels := Function.update (w.pools (path.nth d.flip 0)).state.channels
        (path.conn d.flip).inChannel bs }) :
    row (block path w held d) path.last =
      b :: row (block path (w.settle path (path.nth d.flip 0)
        ⟨s, (w.pools (path.nth d.flip 0)).threads⟩ []) held d) path.last := by
  have hlast : path.nth d path.last = path.nth d.flip 0 := Path.nth_last
  have hend := hlaid.ends d.flip
  refine row_take ?_ fun j hj => ?_
  · have hnone : (path.place (path.nth d.flip 0)).target d = none := by
      simpa using hend.arrives
    have hinlet : (path.place (path.nth d.flip 0)).inlet d s =
        (path.place (path.nth d.flip 0)).inlet d (w.pools (path.nth d.flip 0)).state := by
      rw [hs]
      rfl
    have harrived : (path.place (path.nth d.flip 0)).arrived d
        (w.pools (path.nth d.flip 0)).state = b :: bs := by
      simp [arrived, hnone, hend.circuit, hq]
    have hrest : (path.place (path.nth d.flip 0)).arrived d s = bs := by
      simp [arrived, hnone, hend.circuit, hs]
    simp only [block, wires_settle_nil, hlast, h.ends d path.last (Nat.le_refl _), harrived]
    simp only [World.settle, Function.update_self, hinlet, hrest, List.filterMap_nil,
      List.nil_append, List.cons_append]
  · have hne : path.nth d j ≠ path.nth d.flip 0 := by
      rw [← hlast]
      exact fun heq => hj.ne (Path.nth_inj hj.le (Nat.le_refl _) heq)
    simp only [block, wires_settle_nil]
    simp only [World.settle, Function.update_of_ne hne]

/-- A ciphertext is taken from the circuit. -/
theorem Inv.take (h : Inv path Linked msgs w g) (hlaid : path.Laid) {buf b : Bytes}
    {bs : List Bytes} {r : Reply Shared Task Output (Async Bytes)}
    (htaken : g.taken d = []) (hbuf : ∀ m ∈ msgs d, (sized m).length ≤ buf.length)
    (hq : (w.pools (path.nth d.flip 0)).state.channels (path.conn d.flip).inChannel = b :: bs)
    (hos : r.outputs = []) (hts : r.spawned = [])
    (hstate : r.state = { (w.pools (path.nth d.flip 0)).state with
      channels := Function.update (w.pools (path.nth d.flip 0)).state.channels
        (path.conn d.flip).inChannel bs })
    (hans : ∀ cipher, b = packed cipher → cipher.length ≤ 65535 →
      r.answer = decrypting (path.ref d.flip) cipher buf) :
    (∃ cipher, r.answer = decrypting (path.ref d.flip) cipher buf) ∧
      Inv path Linked msgs { w.serve path (path.nth d.flip 0) r with
        reader := Function.update w.reader d r.answer }
        { g with taken := Function.update g.taken d [b] } := by
  have hn : path.nth d.flip 0 ≤ path.last := Path.nth_le (Nat.zero_le _)
  have hend := hlaid.ends d.flip
  have hstaff := h.net.staffed _ hn
  have hset : (path.place (path.nth d.flip 0)).Settled r.state := by
    rw [hstate]
    exact { hstaff.settled with }
  have hinlet (e : Direction) : (path.place (path.nth d.flip 0)).inlet e r.state =
      (path.place (path.nth d.flip 0)).inlet e (w.pools (path.nth d.flip 0)).state := by
    rw [hstate]
    rfl
  have hqueue := h.inOrder d
  rw [htaken, List.nil_append, h.net.row_taken hlaid hq hstate] at hqueue
  obtain ⟨x, q', hx, hbx, -⟩ := List.map_eq_cons_iff.mp hqueue.symm
  have hanswer : r.answer = decrypting (path.ref d.flip) x.1 buf :=
    hans x.1 hbx.symm (h.sizes d x (hx ▸ List.mem_cons_self))
  refine ⟨⟨x.1, hanswer⟩, ?_⟩
  rw [serve_quiet hos hts]
  constructor
  case net =>
    have hnet := h.net.quiet hlaid hn hset
    exact ⟨hnet.staffed, hnet.bears, hnet.ends⟩
  case reading =>
    intro e
    by_cases he : e = d
    · subst he
      simp only [Function.update_self, hanswer, ← hbx]
      exact .decrypt x.1 hbuf
    · simpa only [World.settle, Function.update_of_ne he] using h.reading e
  case inOrder =>
    intro e
    obtain rfl | rfl := Direction.eq_or_flip d e
    · simp only [Function.update_self, List.singleton_append]
      exact hqueue
    · simp only [Function.update_of_ne d.flip_ne]
      rw [← h.inOrder d.flip]
      congr 1
      have harrived : (path.place (path.nth d.flip 0)).arrived d.flip r.state =
          (path.place (path.nth d.flip 0)).arrived d.flip (w.pools (path.nth d.flip 0)).state := by
        simp [arrived, hend.target]
      exact row_congr fun j _ => block_same (hinlet d.flip) harrived
  case transports =>
    intro e
    by_cases hne : path.nth e 0 = path.nth d.flip 0
    · have hold := h.transports e
      rw [hne] at hold
      simpa only [World.settle, hne, Function.update_self, hstate] using hold
    · simpa only [World.settle, Function.update_of_ne hne] using h.transports e
  case sending => exact h.sending
  case messages => exact h.messages
  case linked => exact h.linked
  case sizes => exact h.sizes

/-- A message is decrypted. -/
theorem Inv.decrypt (h : Inv path Linked msgs w g) (hlaid : path.Laid) (hch : IdealChannel Linked)
    (hfit : ∀ m ∈ msgs d, m.length ≤ Stream.readLimit) {cipher buf : Bytes} {c : Choice}
    {r : Reply Shared Task Output (Async Bytes)} (htaken : g.taken d = [packed cipher])
    (hbuf : ∀ m ∈ msgs d, (sized m).length ≤ buf.length)
    (hr : (nodeSemantics (path.place (path.nth d.flip 0)).node).operate c
      (w.pools (path.nth d.flip 0)).state (decrypting (path.ref d.flip) cipher buf) = some r) :
    ∃ m, r.answer = .ret m ∧ r.outputs = [] ∧ ∃ g', Inv path Linked msgs
      { w.serve path (path.nth d.flip 0) r with
        reader := Function.update w.reader d r.answer
        results := Function.update w.results d (w.results d ++ [m]) } g' := by
  have hn : path.nth d.flip 0 ≤ path.last := Path.nth_le (Nat.zero_le _)
  have hstaff := h.net.staffed _ hn
  -- the ciphertext is the first one in flight
  have hqueue := h.inOrder d
  rw [htaken, List.singleton_append] at hqueue
  obtain ⟨⟨cipher', m⟩, q', hx, hpacked, hrest⟩ := List.map_eq_cons_iff.mp hqueue.symm
  obtain rfl : cipher' = cipher := packed_injective hpacked
  have hmem : m ∈ msgs d := by
    rw [h.messages d, hx]
    simp
  have hlink := h.linked d
  rw [hx, List.map_cons] at hlink
  obtain ⟨u', hread, hlinked⟩ := hch.read hlink (hbuf m hmem)
  have hsmall : m.length < 2 ^ 32 := by
    have hle := hfit m hmem
    rw [Stream.readLimit] at hle
    omega
  obtain rfl := Option.some.inj
    ((operate_decrypting (h.transports d.flip) hsmall hread).symm.trans hr)
  refine ⟨m, rfl, rfl, { g with
    queue := Function.update g.queue d q'
    taken := Function.update g.taken d []
    transport := Function.update g.transport d.flip u' }, ?_⟩
  have hset : (path.place (path.nth d.flip 0)).Settled
      { (w.pools (path.nth d.flip 0)).state with
        transports := Function.update (w.pools (path.nth d.flip 0)).state.transports
          (path.ref d.flip) (some u') } := { hstaff.settled with }
  rw [serve_quiet rfl rfl]
  constructor
  case net =>
    have hnet := h.net.quiet hlaid hn hset
    exact ⟨hnet.staffed, hnet.bears, hnet.ends⟩
  case reading =>
    intro e
    by_cases he : e = d
    · subst he
      simp only [Function.update_self]
      exact .idle m
    · simpa only [World.settle, Function.update_of_ne he] using h.reading e
  case inOrder =>
    intro e
    have hrow : row (block path (w.settle path (path.nth d.flip 0)
        ⟨{ (w.pools (path.nth d.flip 0)).state with
          transports := Function.update (w.pools (path.nth d.flip 0)).state.transports
            (path.ref d.flip) (some u') }, (w.pools (path.nth d.flip 0)).threads⟩ []) g.held e)
        path.last = row (block path w g.held e) path.last :=
      row_congr fun j _ => block_same rfl rfl
    by_cases he : e = d
    · subst he
      simp only [Function.update_self, List.nil_append]
      exact hrow.trans hrest.symm
    · simp only [Function.update_of_ne he]
      rw [← h.inOrder e]
      exact congrArg _ hrow
  case messages =>
    intro e
    by_cases he : e = d
    · subst he
      have hold := h.messages e
      rw [hx] at hold
      simp only [World.settle, Function.update_self]
      rw [hold]
      simp
    · simpa only [World.settle, Function.update_of_ne he] using h.messages e
  case transports =>
    intro e
    by_cases he : e = d.flip
    · subst he
      simp only [World.settle, Function.update_self]
    · have hne : path.nth e 0 ≠ path.nth d.flip 0 := node_ne he
      simpa only [World.settle, Function.update_of_ne he, Function.update_of_ne hne]
        using h.transports e
  case linked =>
    intro e
    obtain rfl | rfl := Direction.eq_or_flip d e
    · simpa only [Function.update_self, Function.update_of_ne e.flip_ne.symm] using hlinked
    · have hback := hch.read_back (h.linked d.flip) hread
      simpa only [Direction.flip_flip, Function.update_self, Function.update_of_ne d.flip_ne,
        Function.update_of_ne d.flip_ne.symm] using hback
  case sizes =>
    intro e x hx'
    by_cases he : e = d
    · subst he
      simp only [Function.update_self] at hx'
      exact h.sizes e x (hx ▸ List.mem_cons_of_mem _ hx')
    · simp only [Function.update_of_ne he] at hx'
      exact h.sizes e x hx'
  case sending => exact h.sending

/-- One operation of a reading client -/
theorem Inv.reading_step (h : Inv path Linked msgs w g) (hlaid : path.Laid) (hch : IdealChannel Linked)
    (hfit : ∀ m ∈ msgs d, m.length ≤ Stream.readLimit) {c : Choice} {os : List (ℕ × Output)}
    (hs : w.step path (.reading d c) = some (w', os)) :
    (∃ g', Inv path Linked msgs w' g') ∧ os = [] := by
  obtain ⟨r, res, hr, rfl, hret, hnot, rfl⟩ := step_reading hs
  rw [Path.nth_last] at hr ⊢
  have hreading := h.reading d
  generalize hp : w.reader d = p at hreading hr
  generalize htaken : g.taken d = taken at hreading
  cases hreading with
  | idle m => cases hr
  | wait hbuf =>
    obtain ⟨b, bs, hq, hos, hts, hstate, hans⟩ := operate_read (hlaid.ends d.flip) hr
    obtain ⟨⟨cipher, hanswer⟩, hinv⟩ := h.take hlaid htaken hbuf hq hos hts hstate hans
    have hres : res = [] := by
      refine hnot fun m hm => ?_
      rw [hanswer, decrypting, readTransport] at hm
      cases hm
    have hsame : Function.update w.results d (w.results d ++ []) = w.results := by
      rw [List.append_nil, Function.update_eq_self]
    rw [hos, hres, hsame]
    exact ⟨⟨_, hinv⟩, rfl⟩
  | decrypt cipher hbuf =>
    obtain ⟨m, hm, hos, hinv⟩ := h.decrypt hlaid hch hfit htaken hbuf hr
    obtain rfl := hret m hm
    rw [hos]
    exact ⟨hinv, rfl⟩

/-! ## Runs -/

theorem Established.inv (h : Established path Linked msgs w) : ∃ g, Inv path Linked msgs w g := by
  obtain ⟨t, ht⟩ := h.linked
  have hempty (d : Direction) (k : ℕ) (hk : k ≤ path.last) :
      block path w (fun _ _ => []) d k = [] := by
    have hn : path.nth d k ≤ path.last := Path.nth_le hk
    simp [block, h.wires, h.arrived d _ hn, h.inlet d _ hn]
  refine ⟨⟨fun _ _ => [], fun _ => [], fun _ => [], fun _ => [], t⟩, ?_⟩
  constructor
  case net =>
    refine ⟨fun n hn => ?_, fun d k b hb => ?_, fun d k _ => h.wires d k⟩
    · constructor
      case settled => exact h.settled n hn
      case present =>
        intro i d hi
        obtain ⟨hne, rfl⟩ := h.laid.role_iff.mp hi
        obtain ⟨v, current, -, ht⟩ := h.handlers d n hn hne
        exact (List.getElem?_eq_some_iff.mp ht).1
      case single =>
        intro i j d hi hj
        exact (h.laid.role_iff.mp hi).2.trans (h.laid.role_iff.mp hj).2.symm
      case runs =>
        intro i u hu
        cases hrole : path.role n i with
        | none =>
          refine h.others n i u hn (fun d hne heq => ?_) hu
          rw [h.laid.role_iff.mpr ⟨hne, heq⟩] at hrole
          cases hrole
        | some d =>
          obtain ⟨hne, rfl⟩ := h.laid.role_iff.mp hrole
          obtain ⟨v, current, hv, hthread⟩ := h.handlers d n hn hne
          obtain rfl := Option.some.inj (hthread.symm.trans hu)
          exact ⟨v, hv, conveys_relayEventHandler hv current⟩
    · rw [h.wires d k] at hb
      cases hb
  case sending =>
    intro d
    rw [h.sender d]
    exact .carry rfl
  case reading =>
    intro d
    obtain ⟨m, hm⟩ := h.reader d
    rw [hm]
    exact .idle m
  case inOrder => exact fun d => row_nil (hempty d)
  case messages => exact fun d => by simp [h.results d, h.unsent d]
  case transports => exact fun d => (ht d).1
  case linked => exact fun d => (ht d).2
  case sizes => exact fun _ _ hx => by cases hx

theorem Inv.step (h : Inv path Linked msgs w g) (hlaid : path.Laid) (hch : IdealChannel Linked)
    (hfit : ∀ d, ∀ m ∈ msgs d, m.length ≤ Stream.readLimit) {e : NetEvent}
    (hcalm : Calm path msgs w e) {os : List (ℕ × Output)} (hs : w.step path e = some (w', os)) :
    (∃ g', Inv path Linked msgs w' g') ∧ ∀ o ∈ os, (path.place o.1).Permits o.2 := by
  have hnil {os : List (ℕ × Output)} (hos : os = []) :
      ∀ o ∈ os, (path.place o.1).Permits o.2 := hos ▸ fun _ ho => by cases ho
  cases e with
  | node n e =>
    simp only [World.step] at hs
    split at hs
    · next hn =>
      split at hs
      · cases hs
      · next p os hstep =>
        cases hs
        obtain ⟨hinv, hos⟩ := h.node_step hlaid hn hcalm hstep
        refine ⟨hinv, fun o ho => ?_⟩
        obtain ⟨o, hmem, rfl⟩ := List.mem_map.mp ho
        exact hos o hmem
    · cases hs
  | sendOther n sid message =>
    have hsid : sid ≠ (path.place n).sid := fun heq => hcalm (heq.trans (hlaid.sid n))
    have ht : (path.place n).Bystands (path.place n).Next (do
        Node.sendMessage sid message
        return none) :=
      .bind (bystands_sendMessage hsid) fun _ _ => .ret next_none
    obtain ⟨hinv, hos⟩ := h.start_step hlaid ht hs
    exact ⟨hinv, hnil hos⟩
  | readOther n sid buf =>
    have hsid : sid ≠ (path.place n).sid := fun heq => hcalm (heq.trans (hlaid.sid n))
    have ht : (path.place n).Bystands (path.place n).Next (do
        let circuitConn ← Prog.unwrap (← Async.getCircuit sid)
        let _ ← circuitConn.read buf
        return none) :=
      .bind (bystands_getCircuit hsid) fun o ho => .bind (bystands_unwrap o) fun conn hconn =>
        .bind (bystands_readConn (ho conn hconn)) fun _ _ => .ret next_none
    obtain ⟨hinv, hos⟩ := h.start_step hlaid ht hs
    exact ⟨hinv, hnil hos⟩
  | deliver d k =>
    obtain ⟨hinv, hos⟩ := h.deliver_step hlaid hcalm hs
    exact ⟨⟨g, hinv⟩, hnil hos⟩
  | send d =>
    obtain ⟨hinv, hos⟩ := h.send_step hlaid hs
    exact ⟨hinv, hnil hos⟩
  | sending d c =>
    obtain ⟨hinv, hos⟩ := h.sending_step hlaid hch (hfit d) hs
    refine ⟨hinv, fun o ho => ?_⟩
    obtain ⟨hn, hpermits⟩ := hos o ho
    exact hn ▸ hpermits
  | read d buf =>
    obtain ⟨hinv, hos⟩ := h.read_step hcalm hs
    exact ⟨⟨g, hinv⟩, hnil hos⟩
  | reading d c =>
    obtain ⟨hinv, hos⟩ := h.reading_step hlaid hch (hfit d) hs
    exact ⟨hinv, hnil hos⟩

/-- What has been read is a part of what was to be sent. -/
theorem Inv.only_sent (h : Inv path Linked msgs w g) (d : Direction) : w.results d <+: msgs d := by
  rw [h.messages d, List.append_assoc, List.append_assoc]
  exact List.prefix_append _ _

theorem Idle.sender (h : Inv path Linked msgs w g) (hlaid : path.Laid) (hidle : Idle path w d) :
    w.sender d = .ret () := by
  refine (h.sending d).stuck (s := (w.pools (path.nth d 0)).state) (hlaid.ends d) fun c => ?_
  have hc := hidle.sending c
  simp only [World.step] at hc
  split at hc
  · next hnone => exact hnone
  · cases hc

theorem Idle.reader (h : Inv path Linked msgs w g) (hlaid : path.Laid) (hidle : Idle path w d) :
    g.taken d = [] ∧
      (w.pools (path.nth d path.last)).state.channels (path.conn d.flip).inChannel = [] := by
  rw [Path.nth_last]
  refine (h.reading d).stuck (hlaid.ends d.flip) (fun m hm => ?_) fun c => ?_
  · have hread := hidle.read []
    simp only [World.step, hm] at hread
    cases hread
  · have hc := hidle.reading c
    simp only [World.step, Path.nth_last] at hc
    split at hc
    · next hnone => exact hnone
    · cases hc

theorem Idle.wires (h : Inv path Linked msgs w g) (hlaid : path.Laid) (hidle : Idle path w d) :
    w.wires d k = [] := by
  by_cases hk : k < path.last
  · obtain ⟨v, hv⟩ := Option.isSome_iff_exists.mp (hlaid.source d k hk)
    have hnone := hidle.deliver k hk
    cases hw : w.wires d k with
    | nil => rfl
    | cons b bs => simp [World.step, hw, hv] at hnone
  · exact h.net.ends d k (Nat.le_of_not_lt hk)

/-- Nothing is on its way at a place where nothing can happen. -/
theorem Idle.block (h : Inv path Linked msgs w g) (hlaid : path.Laid) (hidle : Idle path w d)
    (hk : k ≤ path.last) : block path w g.held d k = [] := by
  have hn : path.nth d k ≤ path.last := Path.nth_le hk
  have hplace : g.held (path.nth d k) d = [] ∧
      (path.place (path.nth d k)).inlet d (w.pools (path.nth d k)).state = [] := by
    by_cases hzero : k = 0
    · subst hzero
      have hsend := h.sending d
      rw [hidle.sender h hlaid] at hsend
      refine ⟨(hsend.of_ret (hlaid.ends d)).2, ?_⟩
      simp [inlet, (hlaid.ends d).source]
    · have hne : path.nth d (path.nth d k) ≠ 0 := by rwa [Path.nth_nth hk]
      refine (h.net.staffed _ hn).stuck (hlaid.role_iff.mpr ⟨hne, rfl⟩) fun c => ?_
      have hc := hidle.handler _ c hn hne
      simp only [World.step, if_pos hn] at hc
      split at hc
      · next hnone => exact hnone
      · cases hc
  have harrived : (path.place (path.nth d k)).arrived d (w.pools (path.nth d k)).state = [] := by
    obtain hlt | rfl := Nat.lt_or_eq_of_le hk
    · obtain ⟨v, hv⟩ := Option.isSome_iff_exists.mp (hlaid.target d k hlt)
      simp [arrived, hv]
    · have hq := (hidle.reader h hlaid).2
      have hnone : (path.place (path.nth d path.last)).target d = none := by
        have harr := (hlaid.ends d.flip).arrives
        rwa [Direction.flip_flip, ← Path.nth_last] at harr
      have hcircuit := (hlaid.ends d.flip).circuit
      rw [← Path.nth_last] at hcircuit
      simp only [arrived, hnone, hcircuit, hq]
  simp only [Transparency.block, hidle.wires h hlaid, harrived, hplace.1, hplace.2,
    List.filterMap_nil, List.append_nil]

/-- Where nothing can happen any more, everything has been read. -/
theorem Inv.complete (h : Inv path Linked msgs w g) (hlaid : path.Laid) (hidle : Idle path w d) :
    w.results d = msgs d := by
  have hsender := hidle.sender h hlaid
  have hpending : g.pending d = [] := by
    have hsend := h.sending d
    rw [hsender] at hsend
    exact (hsend.of_ret (hlaid.ends d)).1
  have hunsent : w.unsent d = [] := by
    have hsend := hidle.send
    cases hu : w.unsent d with
    | nil => rfl
    | cons m ms => simp [World.step, hu, hsender] at hsend
  have hqueue : g.queue d = [] := by
    have horder := h.inOrder d
    rw [(hidle.reader h hlaid).1, row_nil fun k hk => hidle.block h hlaid hk] at horder
    exact List.map_eq_nil_iff.mp horder.symm
  rw [h.messages d, hqueue, hpending, hunsent]
  simp

end

end Generic

/-! ## A path with one forwarding node -/

namespace Sample

def node : Node := ⟨(⟨.ed25519, List.replicate 32 7⟩ : Ideal.Keypair), none, none⟩

def link (i : ℕ) : WrappedStream := ⟨⟨"peer"⟩, i⟩

def conn : CircuitConn := ⟨"session", link 0, 0, some 0⟩

/-- The end that the direction starts from. -/
def ending (d : Direction) : Place where
  node := node
  sid := "session"
  session := ⟨"session", ⟨some (link 0), none⟩, SessionRole.callerRole.toI32⟩
  circuit := some conn
  source e := if e = d then none else some (link 0)
  target e := if e = d then some (link 0) else none
  source_has e w h := by
    split at h
    · cases h
    · cases h
      rfl
  target_has e w h := by
    split at h
    · cases h
      rfl
    · cases h
  sources_ne e w v h h' := by cases d <;> cases e <;> simp [Direction.flip] at h h'
  targets_ne e w v h h' := by cases d <;> cases e <;> simp [Direction.flip] at h h'
  target_or e h := by cases d <;> cases e <;> simp [Direction.flip] at h ⊢
  joins e w v h h' := by cases d <;> cases e <;> simp at h h'
  ends _ _ _ _ := ⟨Or.inr rfl, rfl⟩

def forwarding : Place where
  node := node
  sid := "session"
  session := ⟨"session", ⟨some (link 0), some (link 1)⟩, SessionRole.entryRole.toI32⟩
  circuit := none
  source e := some (link (if e = .toAnswer then 0 else 1))
  target e := some (link (if e = .toAnswer then 1 else 0))
  source_has e w h := by cases e <;> cases h <;> rfl
  target_has e w h := by cases e <;> cases h <;> rfl
  sources_ne e w v h h' := by cases e <;> cases h <;> cases h' <;> decide
  targets_ne e w v h h' := by cases e <;> cases h <;> cases h' <;> decide
  target_or e _ := by cases e <;> exact nofun
  joins e w v h h' := by
    cases e <;> cases h <;> cases h' <;> exact ⟨by decide, by decide, by decide, by decide⟩
  ends e w _ h := by cases h

def path : Path where
  sid := "session"
  hops := 1
  place n := if n = 0 then ending .toAnswer else if n = 1 then forwarding else ending .toCaller
  conn _ := conn
  ref _ := 0
  handler d n := if d = .toAnswer ↔ n = 0 then 1 else 0

/-- The maps of a node of the path. -/
def shared (place : Place) : Shared where
  sessionMap sid := if sid = "session" then some place.session else none
  circuitMap sid := if sid = "session" then place.circuit else none
  streams := [0, 1]
  nextChannel := 1
  transports i := if i = 0 then some ⟨true, ⟨[], ⟨.ed25519, []⟩⟩, none, 3⟩ else none
  nextTransport := 1

/-- One handler at the ends, two at the forwarding node. -/
def threads (n : ℕ) : List Thread :=
  (if n = 1 then [link 0, link 1] else [link 0]).map fun w => relayEventHandler w (some "session")

def msgs : Direction → List Bytes
  | .toAnswer => [[1]]
  | .toCaller => [[2]]

def world : World where
  pools n := ⟨shared (path.place n), threads n⟩
  wires _ _ := []
  unsent := msgs
  sender _ := .ret ()
  reader _ := .ret []
  results _ := []

/-- The ciphertexts are the texts with a tag of sixteen zeros. -/
def Linked (_ _ : Ideal.Handshake) (q : List (Bytes × Bytes)) : Prop :=
  ∀ x ∈ q, x.1 = x.2 ++ List.replicate 16 0 ∧ x.2.length ≤ 65519

end Sample

theorem idealChannel_sample : IdealChannel Sample.Linked where
  write {t u q m} h hm := by
    refine ⟨t, m ++ List.replicate 16 0, if_pos hm, by simp, by simp; omega, fun x hx => ?_⟩
    obtain hx | hx := List.mem_append.mp hx
    · exact h x hx
    · obtain rfl := List.mem_singleton.mp hx
      exact ⟨rfl, hm⟩
  read {t u c m q n} h hm := by
    obtain ⟨hc, hlen⟩ := h (c, m) List.mem_cons_self
    dsimp only at hc hlen
    subst hc
    refine ⟨u, ?_, fun x hx => h x (List.mem_cons_of_mem _ hx)⟩
    have htake : (m ++ List.replicate 16 (0 : UInt8)).take
        ((m ++ List.replicate 16 (0 : UInt8)).length - 16) = m := by simp
    have hroom : (m ++ List.replicate 16 (0 : UInt8)).length ≤ 65535 := by simp; omega
    change Ideal.Handshake.readText u _ n = _
    rw [Ideal.Handshake.readText]
    simp only [htake]
    exact if_pos ⟨hroom, trivial, hm⟩
  write_back h _ := h
  read_back h _ := h

/-- The three nodes -/
theorem node_cases {n : ℕ} (hn : n ≤ Sample.path.last) : n = 0 ∨ n = 1 ∨ n = 2 := by
  change n ≤ 2 at hn
  omega

theorem settled_sample {place : Place} (hsid : place.sid = "session") {later : Option WrappedStream}
    (hpair : place.session.pairStream = ⟨some (Sample.link 0), later⟩)
    (hlater : ∀ w, later = some w → w.streamId = 1)
    (hcircuit : place.circuit = none ∨ place.circuit = some Sample.conn) :
    place.Settled (Sample.shared place) where
  session := by simp [Sample.shared, hsid]
  circuit := by simp [Sample.shared, hsid]
  sessions x session hx h := by
    rw [hsid] at hx
    simp [Sample.shared, hx] at h
  circuits x conn hx h := by
    rw [hsid] at hx
    simp [Sample.shared, hx] at h
  streams w h := by
    simp only [guards, hpair, PairStream.has, Option.any_some, Bool.or_eq_true,
      decide_eq_true_eq, Option.any_eq_true] at h
    obtain rfl | ⟨v, hv, rfl⟩ := h
    · exact List.mem_cons_self
    · rw [hlater v hv]
      exact List.mem_cons_of_mem _ List.mem_cons_self
  channel mine h := by
    obtain hc | hc := hcircuit
    · cases hc.symm.trans h
    · cases hc.symm.trans h
      exact Nat.one_pos
  transport mine ref h href := by
    obtain hc | hc := hcircuit
    · cases hc.symm.trans h
    · cases hc.symm.trans h
      cases href
      exact Nat.one_pos
  acks _ _ h := by cases h
  proxyRequests _ h := by cases h
  cmdRequests _ h := by cases h
  inbox _ _ h := by cases h

theorem established_sample : Established Sample.path Sample.Linked Sample.msgs Sample.world where
  laid := {
    sid n := by
      change (if n = 0 then Sample.ending .toAnswer else
        if n = 1 then Sample.forwarding else Sample.ending .toCaller).sid = "session"
      split
      · rfl
      · split <;> rfl
    ends d := by
      cases d
      · exact ⟨rfl, rfl, rfl, rfl, rfl, rfl⟩
      · exact ⟨rfl, rfl, rfl, rfl, rfl, rfl⟩
    source d k hk := by
      change k < 2 at hk
      obtain rfl | rfl : k = 0 ∨ k = 1 := by omega
      · cases d <;> rfl
      · cases d <;> rfl
    target d k hk := by
      change k < 2 at hk
      obtain rfl | rfl : k = 0 ∨ k = 1 := by omega
      · cases d <;> rfl
      · cases d <;> rfl
    handlers n := by
      by_cases hn : n = 0 <;> simp [Sample.path, hn] }
  settled n hn := by
    obtain rfl | rfl | rfl := node_cases hn
    · exact settled_sample rfl rfl nofun (.inr rfl)
    · exact settled_sample rfl rfl (fun w hw => by cases hw; rfl) (.inl rfl)
    · exact settled_sample rfl rfl nofun (.inr rfl)
  handlers d n hn hne := by
    obtain rfl | rfl | rfl := node_cases hn
    · cases d
      · exact absurd rfl hne
      · exact ⟨_, _, rfl, rfl⟩
    · cases d
      · exact ⟨_, _, rfl, rfl⟩
      · exact ⟨_, _, rfl, rfl⟩
    · cases d
      · exact ⟨_, _, rfl, rfl⟩
      · exact absurd rfl hne
  others n i t hn hother ht := by
    have hlen : i < (Sample.threads n).length := (List.getElem?_eq_some_iff.mp ht).1
    obtain rfl | rfl | rfl := node_cases hn
    · exact absurd (Nat.lt_one_iff.mp hlen) (hother .toCaller (by decide))
    · have h0 : i ≠ 0 := hother .toAnswer (by decide)
      have h1 : i ≠ 1 := hother .toCaller (by decide)
      change i < 2 at hlen
      omega
    · exact absurd (Nat.lt_one_iff.mp hlen) (hother .toAnswer (by decide))
  wires _ _ := rfl
  inlet d n _ := by
    unfold inlet
    split <;> rfl
  arrived d n _ := by
    unfold arrived
    split <;> rfl
  linked := ⟨fun _ => ⟨true, ⟨[], ⟨.ed25519, []⟩⟩, none, 3⟩, fun _ => ⟨rfl, nofun⟩⟩
  unsent _ := rfl
  sender _ := rfl
  reader _ := ⟨[], rfl⟩
  results _ := rfl

end WhiteNoise.Transparency
