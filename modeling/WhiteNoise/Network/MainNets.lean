import WhiteNoise.Network.Ideal
import WhiteNoise.Network.Turns

/-! # The peers of the main net

A client asks its bootstrap node for peers. The bootstrap node walks the
buckets of its routing table and lists connected peers until it has as many
as were asked for; the client leaves out those that came without an address.
-/

namespace WhiteNoise.MainNets

open Wire Process

section Generic

variable [Codec] [Crypto]

/-! ## The routing table -/

inductive NodeStatus where
  | connected | disconnected
  deriving DecidableEq

/-- An entry of a bucket, its addresses as text. -/
structure KadEntry where
  peerId : PeerId
  status : NodeStatus
  addresses : List String
  deriving DecidableEq

/-- `!address_str.matches("p2p").is_empty()` -/
def hasP2p (address : String) : Bool := "p2p".toList <:+: address.toList

/-- The addresses without a p2p part. -/
def KadEntry.addrs (entry : KadEntry) : List String :=
  entry.addresses.filter fun address => !hasP2p address

def KadEntry.nodeInfo (entry : KadEntry) : NodeInfo := ⟨entry.peerId.toBase58, entry.addrs⟩

/-- The peer is connected, and it has an address without a p2p part. -/
def KadEntry.isListed (entry : KadEntry) : Bool :=
  decide (entry.status = .connected) && !entry.addrs.isEmpty

/-- One entry of the walk, with the peers found so far and their number. -/
def visit (number : Int32) (acc : List NodeInfo × Int32) (entry : KadEntry) :
    List NodeInfo × Int32 :=
  if acc.2 < number then
    match entry.status with
    | .disconnected => acc
    | .connected => (acc.1 ++ [entry.nodeInfo], acc.2 + 1)
  else acc

def getKadPeers (kbuckets : List (List KadEntry)) (number : Int32) : List NodeInfo :=
  (kbuckets.foldl (fun acc kbucket => kbucket.foldl (visit number) acc) ([], 0)).1

/-- A routing table has one entry for a peer, under an identity that can be written and read. -/
structure RoutingTable where
  kbuckets : List (List KadEntry)
  distinct : (kbuckets.flatten.map KadEntry.peerId).Nodup
  readable : ∀ entry ∈ kbuckets.flatten, peerIdOfBase58 entry.peerId.toBase58 = some entry.peerId

namespace RoutingTable

variable (table : RoutingTable)

/-- The connected entries in the order of the walk. -/
def connected : List KadEntry :=
  table.kbuckets.flatten.filter fun entry => decide (entry.status = .connected)

/-- The peers the claims of the API are about. -/
def listed : List KadEntry := table.kbuckets.flatten.filter KadEntry.isListed

/-- Those of them that are among the first ten connected entries. -/
def near : List KadEntry := (table.connected.take 10).filter KadEntry.isListed

/-- Those of them that are not. -/
def far : List KadEntry := (table.connected.drop 10).filter KadEntry.isListed

end RoutingTable

/-! ## The exchange -/

/-- `WhiteNoiseClient::get_main_net_peers`; the count is not used. -/
def Client.getMainNetPeers (bootstrapPeerId : PeerId) (_cnt : Int32) : Async (List PeerId) := do
  let peerList ← Node.getMainNets 10 bootstrapPeerId
  Prog.unwrap (peerList.peers.mapM fun x => peerIdOfBase58 x.id)

/-- The acknowledgement is one that the bootstrap node sends in a turn of its loop on the request,
whatever its other tasks do meanwhile. -/
def Serves (bootstrap : Node) (table : RoutingTable) (client : PeerId) (request : Request)
    (ack : Ack) : Prop :=
  ∃ s r, (nodeSemantics bootstrap).Amid (fun _ _ => True) .free
      (processProxyRequest bootstrap ⟨client, some request, none⟩) s r ∧
    (∀ number peers, (⟨.getMainNets number, peers⟩ : Sigma Act.Res) ∈ r.asked →
      peers = some (getKadPeers table.kbuckets number)) ∧
    .request (.ackRequest ⟨client, some ack⟩) ∈ r.outputs

/-- A call of the client that has returned the peers, its request having been served. -/
def Returns (bootstrap : Node) (table : RoutingTable) (client : Node) (cnt : Int32)
    (peers : List PeerId) : Prop :=
  ∃ s r, (nodeSemantics client).Amid (fun _ _ => True) .free
      (Client.getMainNetPeers (Crypto.peerId bootstrap.keypair) cnt) s r ∧
    (∀ receiver ack, (⟨.awaitAck receiver, some ack⟩ : Sigma Act.Res) ∈ r.asked →
      ∃ request, .request (.proxyRequest ⟨Crypto.peerId bootstrap.keypair, some request, none⟩) ∈
        r.outputs ∧ Serves bootstrap table (Crypto.peerId client.keypair) request ack) ∧
    r.answer = some peers

/-- At most `cnt` peers, all distinct, each of them listed, and as many as there are up to `cnt`. -/
structure Fulfils (table : RoutingTable) (cnt : ℕ) (peers : List PeerId) : Prop where
  bound : peers.length ≤ cnt
  distinct : peers.Nodup
  sound : ∀ peer ∈ peers, ∃ entry ∈ table.kbuckets.flatten, entry.peerId = peer ∧ entry.isListed
  exact : peers.length = min cnt table.listed.length

/-! ## The walk -/

omit [Codec] [Crypto] in
/-- With `k` peers found, the walk takes `n - k` more connected ones. -/
theorem visit_foldl {n k : ℕ} (hn : n < 2 ^ 31) (hk : k ≤ n) (es : List KadEntry)
    (found : List NodeInfo) :
    (es.foldl (visit (Int32.ofNat n)) (found, Int32.ofNat k)).1 =
      found ++ ((es.filter fun e => decide (e.status = .connected)).take (n - k)).map
        KadEntry.nodeInfo := by
  induction es generalizing found k with
  | nil => simp
  | cons e es ih =>
    have hlt : Int32.ofNat k < Int32.ofNat n ↔ k < n := by
      rw [Int32.lt_iff_toInt_lt, Int32.toInt_ofNat_of_lt (by omega), Int32.toInt_ofNat_of_lt hn]
      omega
    rw [List.foldl_cons, visit]
    by_cases hkn : k < n
    · rw [if_pos (hlt.mpr hkn)]
      cases hs : e.status with
      | disconnected =>
        dsimp only
        rw [ih hk, List.filter_cons_of_neg (by simp [hs])]
      | connected =>
        dsimp only
        have hsucc : Int32.ofNat k + 1 = Int32.ofNat (k + 1) := by rw [Int32.ofNat_add]; rfl
        obtain ⟨m, hm⟩ : ∃ m, n - k = m + 1 := ⟨n - k - 1, by omega⟩
        rw [hsucc, ih (by omega), List.filter_cons_of_pos (by simp [hs]), hm, List.take_succ_cons,
          List.map_cons, List.append_assoc, List.singleton_append]
        congr 4
        omega
    · rw [if_neg (fun h => hkn (hlt.mp h)), ih hk]
      have hzero : n - k = 0 := by omega
      rw [hzero, List.take_zero, List.take_zero]

omit [Codec] in
theorem getKadPeers_eq (table : RoutingTable) :
    getKadPeers table.kbuckets 10 = (table.connected.take 10).map KadEntry.nodeInfo := by
  have hwalk := visit_foldl (by decide : 10 < 2 ^ 31) (Nat.zero_le 10) table.kbuckets.flatten []
  rw [List.foldl_flatten] at hwalk
  exact hwalk

omit [Codec] [Crypto] in
/-- Of the peers of a list of entries that are connected, those with an address are listed. -/
theorem filter_nodeInfo {es : List KadEntry} (hes : ∀ e ∈ es, e.status = .connected) :
    (es.map KadEntry.nodeInfo).filter (fun peer => !peer.addr.isEmpty) =
      (es.filter KadEntry.isListed).map KadEntry.nodeInfo := by
  rw [List.filter_map]
  congr 1
  apply List.filter_congr
  intro e he
  simp [KadEntry.isListed, KadEntry.nodeInfo, hes e he]

omit [Codec] in
theorem mapM_nodeInfo {es : List KadEntry}
    (hes : ∀ e ∈ es, peerIdOfBase58 e.peerId.toBase58 = some e.peerId) :
    (es.map KadEntry.nodeInfo).mapM (fun x => peerIdOfBase58 x.id) =
      some (es.map KadEntry.peerId) := by
  induction es with
  | nil => rfl
  | cons e es ih =>
    have he : peerIdOfBase58 e.nodeInfo.id = some e.peerId := hes e List.mem_cons_self
    rw [List.map_cons, List.mapM_cons, he, ih fun e' he' => hes e' (List.mem_cons_of_mem _ he')]
    rfl

omit [Codec] in
/-- What the client makes of the answer: the peers of the near entries. -/
theorem peers_getKadPeers (table : RoutingTable) :
    ((getKadPeers table.kbuckets 10).filter fun peer => !peer.addr.isEmpty).mapM
        (fun x => peerIdOfBase58 x.id) =
      some (table.near.map KadEntry.peerId) := by
  have hconnected : ∀ e ∈ table.connected.take 10, e.status = .connected := by
    intro e he
    simpa using (List.mem_filter.mp (List.mem_of_mem_take he)).2
  rw [getKadPeers_eq, filter_nodeInfo hconnected]
  apply mapM_nodeInfo
  intro e he
  apply table.readable
  exact (List.mem_filter.mp (List.mem_of_mem_take (List.mem_filter.mp he).1)).1

/-! ## The two ends of the exchange -/

section

variable {bootstrap client : Node} {table : RoutingTable} {request : Request} {peer : PeerId}
  {ack : Ack} {cnt : Int32} {peers : List PeerId}

theorem Serves.ack_eq (h : Serves bootstrap table peer request ack)
    (htype : request.reqtype = Reqtype.mainNetPeers.toI32) {msg : MainNetPeers}
    (hdec : Codec.decode request.data = some msg) :
    ack = ⟨request.reqId, true,
      Codec.encode ({ peers := getKadPeers table.kbuckets msg.max } : PeersList)⟩ := by
  obtain ⟨s, r, hrun, hpeers, hack⟩ := h
  have hbody : processProxyRequest bootstrap ⟨peer, some request, none⟩ =
      handleMainNetPeers request peer := by
    simp only [processProxyRequest, htype, Prog.unwrap_some, Prog.ret_bind]
    rfl
  rw [hbody] at hrun
  simp only [handleMainNetPeers, hdec, Prog.unwrap_some, Prog.ret_bind, Prog.call_bind] at hrun
  obtain ⟨s', l, r', -, hrest, rfl⟩ := turn_getMainNets hrun
  obtain rfl : l = some (getKadPeers table.kbuckets msg.max) := hpeers msg.max l List.mem_cons_self
  obtain ⟨s'', r'', -, hend, rfl⟩ := turn_send hrest
  obtain rfl : r'' = _ := hend
  simpa [Record.after] using hack

/-- The client gets what is in the acknowledgement, but for the peers without an address. -/
theorem Returns.peers_eq (h : Returns bootstrap table client cnt peers) :
    ∃ ack : Ack, ∃ list : PeersList, Codec.decode ack.data = some list ∧
      (list.peers.filter fun peer => !peer.addr.isEmpty).mapM (fun x => peerIdOfBase58 x.id) =
        some peers ∧
      Serves bootstrap table (Crypto.peerId client.keypair)
        { Node.mainNetsRequest 10 with reqId := fromRequestGetId (Node.mainNetsRequest 10) } ack := by
  obtain ⟨s, r, hrun, hserved, hanswer⟩ := h
  simp only [Client.getMainNetPeers, Node.getMainNets, Node.sendProxyRequestAndWait,
    Node.externalSendNodeRequestAndWait, Async.registerWaiter, Async.send, Async.awaitAck,
    Prog.update_bind, Prog.call_bind, Prog.act_bind, Prog.atomic_bind] at hrun
  obtain ⟨s₁, -, -, -, hsend⟩ := hrun
  obtain ⟨s₂, r₂, -, hwait, rfl⟩ := turn_send hsend
  obtain ⟨s₃, o, r₃, -, hrest, rfl⟩ := turn_awaitAck hwait
  cases o with
  | none =>
    obtain rfl : r₃ = _ := hrest
    cases hanswer
  | some ack =>
    obtain ⟨request, hrequest, hserves⟩ := hserved s₁.nextOneshot ack (by simp)
    simp only [Prog.unwrap_some, Prog.ret_bind, bind_assoc, Prog.pure_eq] at hrest
    rcases Semantics.Amid.unwrap hrest with ⟨list, hlist, hmap⟩ | ⟨-, rfl⟩
    · cases hpeers : (list.peers.filter fun peer => !peer.addr.isEmpty).mapM
        (fun x => peerIdOfBase58 x.id) with
      | none =>
        rw [hpeers] at hmap
        obtain rfl : r₃ = _ := hmap
        cases hanswer
      | some found =>
        rw [hpeers] at hmap
        obtain rfl : r₃ = _ := hmap
        obtain rfl : found = peers := Option.some.inj hanswer
        have hreq : request =
            { Node.mainNetsRequest 10 with
              reqId := fromRequestGetId (Node.mainNetsRequest 10) } := by
          simpa using hrequest
        exact ⟨ack, list, hlist, hpeers, hreq ▸ hserves⟩
    · cases hanswer

/-- The request of the client, with its identifier. -/
theorem serves_mainNetsRequest (bootstrap : Node) (table : RoutingTable) (peer : PeerId) :
    let request := Node.mainNetsRequest 10
    let key := fromRequestGetId request
    Serves bootstrap table peer { request with reqId := key }
      ⟨key, true, Codec.encode ({ peers := getKadPeers table.kbuckets 10 } : PeersList)⟩ := by
  intro request key
  have hdec : Codec.decode request.data = some ({ max := 10 } : MainNetPeers) :=
    Codec.decode_encode _
  have hbody : processProxyRequest bootstrap ⟨peer, some { request with reqId := key }, none⟩ =
      handleMainNetPeers { request with reqId := key } peer := rfl
  rw [Serves, hbody]
  simp only [handleMainNetPeers, hdec, Prog.unwrap_some, Prog.ret_bind, Prog.call_bind]
  refine ⟨{}, _, ⟨{}, .nodeInfos (some (getKadPeers table.kbuckets 10)), _, _, trivial, trivial,
    rfl, ⟨{}, .go, _, _, trivial, trivial, rfl, rfl, rfl⟩, rfl⟩, ?_, List.mem_cons_self⟩
  rintro number peers hasked
  simp only [Record.asked_after, List.mem_cons, List.not_mem_nil, or_false] at hasked
  rcases hasked with h | h
  · cases h
    rfl
  · cases h

/-- What a call returns: the peers of the near entries, whatever count was asked for. -/
theorem returns_iff :
    Returns bootstrap table client cnt peers ↔ peers = table.near.map KadEntry.peerId := by
  constructor
  · intro h
    obtain ⟨ack, list, hlist, hpeers, hserves⟩ := h.peers_eq
    obtain rfl := hserves.ack_eq rfl (Codec.decode_encode ({ max := 10 } : MainNetPeers))
    rw [Codec.decode_encode] at hlist
    cases hlist
    rw [peers_getKadPeers] at hpeers
    exact (Option.some.inj hpeers).symm
  · rintro rfl
    let key := fromRequestGetId (Node.mainNetsRequest 10)
    let ack : Ack :=
      ⟨key, true, Codec.encode ({ peers := getKadPeers table.kbuckets 10 } : PeersList)⟩
    have hserves := serves_mainNetsRequest bootstrap table (Crypto.peerId client.keypair)
    have hlist : (Codec.decode ack.data : Option PeersList) =
        some { peers := getKadPeers table.kbuckets 10 } := Codec.decode_encode _
    rw [Returns]
    simp only [Client.getMainNetPeers, Node.getMainNets, Node.sendProxyRequestAndWait,
      Node.externalSendNodeRequestAndWait, Async.registerWaiter, Async.send, Async.awaitAck,
      Prog.update_bind, Prog.call_bind, Prog.act_bind, Prog.atomic_bind]
    let answered : Shared := { oneshots := fun _ => .sent ack }
    refine ⟨{}, _, ⟨{}, .go, trivial, trivial, ⟨{}, .go, _, _, trivial, trivial, rfl,
      ⟨answered, .go, ⟨some ack, answered, [], []⟩, ⟨some _, answered, [], [], []⟩, trivial, trivial,
        rfl, ?_, rfl⟩, rfl⟩⟩, ?_, rfl⟩
    · simp only [Prog.unwrap_some, Prog.ret_bind, hlist, Prog.pure_eq, peers_getKadPeers]
      rfl
    · rintro receiver ack' hasked
      simp only [Record.asked_after, List.mem_cons, List.not_mem_nil, or_false] at hasked
      rcases hasked with h | h
      · cases h
      · cases h
        exact ⟨_, List.mem_cons_self, hserves⟩

/-! ## The bound -/

omit [Codec] in
theorem RoutingTable.listed_eq (table : RoutingTable) : table.listed = table.near ++ table.far := by
  rw [RoutingTable.near, RoutingTable.far, ← List.filter_append, List.take_append_drop,
    RoutingTable.connected, List.filter_filter, RoutingTable.listed]
  apply List.filter_congr
  rintro e -
  simp +contextual [KadEntry.isListed]

omit [Codec] in
theorem fulfils_iff {n : ℕ} :
    Fulfils table n (table.near.map KadEntry.peerId) ↔
      table.near.length = n ∨ table.far = [] ∧ table.near.length ≤ n := by
  have hlength : table.listed.length = table.near.length + table.far.length := by
    rw [table.listed_eq, List.length_append]
  have hsub : table.near.Sublist table.kbuckets.flatten :=
    List.filter_sublist.trans ((List.take_sublist ..).trans List.filter_sublist)
  constructor
  · intro h
    have hexact := h.exact
    have hbound := h.bound
    rw [List.length_map] at hexact hbound
    rw [← List.length_eq_zero_iff]
    omega
  · intro h
    rw [← List.length_eq_zero_iff] at h
    constructor
    · rw [List.length_map]
      omega
    · exact table.distinct.sublist (hsub.map _)
    · intro peer hpeer
      obtain ⟨entry, hentry, rfl⟩ := List.mem_map.mp hpeer
      exact ⟨entry, hsub.subset hentry, rfl, (List.mem_filter.mp hentry).2⟩
    · rw [List.length_map]
      omega

/-- A call returns, and its peers are as promised exactly when `cnt` of the first ten connected
entries are listed, or no more than `cnt` of them and none behind them. -/
theorem peer_list_bound (bootstrap : Node) (table : RoutingTable) (client : Node) (cnt : Int32) :
    (∃ peers, Returns bootstrap table client cnt peers) ∧
      ∀ peers, Returns bootstrap table client cnt peers →
        (Fulfils table cnt.toNatClampNeg peers ↔
          table.near.length = cnt.toNatClampNeg ∨
            table.far = [] ∧ table.near.length ≤ cnt.toNatClampNeg) := by
  constructor
  · exact ⟨_, returns_iff.mpr rfl⟩
  · rintro peers h
    rw [returns_iff.mp h]
    exact fulfils_iff

end

end Generic

/-! ## Two peers where one was asked for -/

section Sample

def sampleKey (n : UInt8) : Ideal.Keypair := ⟨.ed25519, List.replicate 32 n⟩

def sampleNode (n : UInt8) : Node := ⟨sampleKey n, none, none⟩

def sampleEntry (n : UInt8) : KadEntry :=
  ⟨Crypto.peerId (sampleKey n), .connected, ["/ip4/127.0.0.1/tcp/3331"]⟩

def sampleTable : RoutingTable where
  kbuckets := [[sampleEntry 1], [sampleEntry 2]]
  distinct := by decide +kernel
  readable := by decide +kernel

/-- One peer is asked for, two are returned. -/
theorem not_peer_list_bound :
    Returns (sampleNode 3) sampleTable (sampleNode 4) 1
        [Crypto.peerId (sampleKey 1), Crypto.peerId (sampleKey 2)] ∧
      ¬ Fulfils sampleTable 1 [Crypto.peerId (sampleKey 1), Crypto.peerId (sampleKey 2)] := by
  constructor
  · exact returns_iff.mpr (by decide +kernel)
  · intro h
    exact absurd h.bound (by decide)

end Sample

end WhiteNoise.MainNets
