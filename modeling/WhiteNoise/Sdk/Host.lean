import WhiteNoise.Network.Ideal
import WhiteNoise.Network.Utils
import WhiteNoise.Wire.Base58

/-! # The bootstrap address of a host

A host takes the last part of the bootstrap address for the peer and cuts the
address off before the first place where it reads `p2p`, which need not be the
last component.
-/

namespace WhiteNoise.Host

open Wire

/-! ## Byte offsets in a text -/

def size (s : List Char) : ℕ := (s.map Char.utf8Size).sum

/-- `str::find`: the byte offset of the first occurrence. -/
def find (pat : List Char) : List Char → Option ℕ
  | [] => if pat = [] then some 0 else none
  | c :: s => if pat <+: c :: s then some 0 else (find pat s).map (c.utf8Size + ·)

/-- `str::split_at`: an offset that is not between two characters panics. -/
def splitAt : ℕ → List Char → Option (List Char × List Char)
  | 0, s => some ([], s)
  | _ + 1, [] => none
  | n + 1, c :: s =>
    if c.utf8Size ≤ n + 1 then
      (splitAt (n + 1 - c.utf8Size) s).map fun parts => (c :: parts.1, parts.2)
    else none

variable {pat s pre post rest : List Char} {c : Char} {k : ℕ}

@[simp] theorem size_nil : size [] = 0 := rfl

@[simp] theorem size_cons : size (c :: s) = c.utf8Size + size s := rfl

@[simp] theorem size_append : size (pre ++ post) = size pre + size post := by
  simp [size]

theorem splitAt_size : splitAt (size pre) (pre ++ rest) = some (pre, rest) := by
  induction pre with
  | nil =>
    rw [size_nil, List.nil_append, splitAt]
  | cons c pre ih =>
    have hpos := c.utf8Size_pos
    obtain ⟨n, hn⟩ : ∃ n, c.utf8Size + size pre = n + 1 := ⟨c.utf8Size + size pre - 1, by omega⟩
    have hrest : n + 1 - c.utf8Size = size pre := by omega
    rw [size_cons, hn, List.cons_append, splitAt, if_pos (by omega), hrest, ih]
    rfl

/-- No text is cut inside a character. -/
theorem splitAt_inside (hk : 0 < k) (hlt : k < c.utf8Size) :
    splitAt (size pre + k) (pre ++ c :: rest) = none := by
  induction pre with
  | nil =>
    obtain ⟨n, rfl⟩ := Nat.exists_eq_succ_of_ne_zero hk.ne'
    rw [size_nil, Nat.zero_add, List.nil_append, splitAt, if_neg (by omega)]
  | cons d pre ih =>
    have hpos := d.utf8Size_pos
    obtain ⟨n, hn⟩ : ∃ n, d.utf8Size + size pre + k = n + 1 :=
      ⟨d.utf8Size + size pre + k - 1, by omega⟩
    have hrest : n + 1 - d.utf8Size = size pre + k := by omega
    rw [size_cons, hn, List.cons_append, splitAt, if_pos (by omega), hrest, ih]
    rfl

/-- The pattern is found where it first begins in the first text. -/
theorem find_of_infix (h : pat <:+: s) :
    ∃ pre post, s = pre ++ (pat ++ post) ∧ ∀ rest, find pat (s ++ rest) = some (size pre) := by
  induction s with
  | nil =>
    obtain rfl := List.infix_nil.mp h
    refine ⟨[], [], rfl, fun rest => ?_⟩
    cases rest with
    | nil => rfl
    | cons c rest => exact if_pos List.nil_prefix
  | cons c s ih =>
    by_cases hp : pat <+: c :: s
    · obtain ⟨post, hpost⟩ := hp
      refine ⟨[], post, hpost.symm, fun rest => ?_⟩
      have hstart : pat <+: c :: (s ++ rest) :=
        ⟨post ++ rest, by rw [← List.append_assoc, hpost, List.cons_append]⟩
      rw [List.cons_append, find, if_pos hstart, size_nil]
    · have hs : pat <:+: s := (List.infix_cons_iff.mp h).resolve_left hp
      obtain ⟨pre, post, heq, hfind⟩ := ih hs
      refine ⟨c :: pre, post, by rw [List.cons_append, ← heq], fun rest => ?_⟩
      have hstart : ¬ pat <+: c :: (s ++ rest) := by
        intro hlong
        have hlen : pat.length ≤ (c :: s).length := hs.length_le.trans (Nat.le_succ _)
        exact hp (List.prefix_of_prefix_length_le hlong (List.prefix_append (c :: s) rest) hlen)
      rw [List.cons_append, find, if_neg hstart, hfind rest, Option.map_some, size_cons]

/-- A pattern that is not in the first text is found behind a character that it does not have. -/
theorem find_of_not_infix (h : ¬ pat <:+: s) (hc : c ∉ pat) (hrest : pat <+: rest) :
    find pat (s ++ c :: rest) = some (size s + c.utf8Size) := by
  have hne : pat ≠ [] := by
    rintro rfl
    exact h List.nil_infix
  induction s with
  | nil =>
    have hstart : ¬ pat <+: c :: rest := by
      rintro hlong
      obtain ⟨d, pat, rfl⟩ := List.exists_cons_of_ne_nil hne
      exact hc ((List.cons_prefix_cons.mp hlong).1 ▸ List.mem_cons_self)
    have hfind : find pat rest = some 0 := by
      cases rest with
      | nil => exact absurd (List.prefix_nil.mp hrest) hne
      | cons d rest => exact if_pos hrest
    rw [List.nil_append, find, if_neg hstart, hfind, Option.map_some, size_nil, Nat.add_comm]
  | cons d s ih =>
    rw [List.infix_cons_iff, not_or] at h
    have hstart : ¬ pat <+: d :: (s ++ c :: rest) := by
      intro hlong
      rw [← List.cons_append] at hlong
      rcases List.prefix_or_prefix_of_prefix hlong (List.prefix_append (d :: s) (c :: rest)) with
        hp | ⟨l, rfl⟩
      · exact h.1 hp
      · cases l with
        | nil => exact h.1 (by simp)
        | cons e l =>
          have hl := (List.prefix_append_right_inj _).mp hlong
          rw [(List.cons_prefix_cons.mp hl).1] at hc
          exact hc (List.mem_append_right _ List.mem_cons_self)
    rw [List.cons_append, find, if_neg hstart, ih h.2, Option.map_some, size_cons, Nat.add_assoc]

/-! ## The start of a host -/

def InBase58 (text : String) : Prop := ∀ c ∈ text.toList, c ∈ Base58.alphabet

section Generic

variable [Crypto]

/-- The parser of multiaddresses. -/
structure MultiaddrParser where
  Multiaddr : Type
  parse : String → Option Multiaddr
  /-- The component of a peer can follow every address. -/
  encapsulates : ∀ {addr peerId : String}, (parse addr).isSome → (peerIdOfBase58 peerId).isSome →
    InBase58 peerId → (parse (addr ++ "/p2p/" ++ peerId)).isSome
  /-- An address is not read from a part of its text that ends before the letters `p2p`. -/
  cut : ∀ {part rest : String}, (parse (part ++ rest)).isSome →
    "p2p".toList <:+: rest.toList → parse part ≠ parse (part ++ rest)

/-- The peer and the address that `start` reads in the bootstrap address; every unwrap can panic,
and so can the step back from the start of the text. -/
def bootstrap (M : MultiaddrParser) (bootstrapAddr : String) : Option (PeerId × M.Multiaddr) := do
  let bootstrapPeerIdStr ← (bootstrapAddr.toList.splitOn '/').getLast?
  let bootstrapPeerId ← peerIdOfBase58 (String.ofList bootstrapPeerIdStr)
  let bootstrapAddrMultiaddr ← M.parse bootstrapAddr
  match find "p2p".toList bootstrapAddr.toList with
  | none => return (bootstrapPeerId, bootstrapAddrMultiaddr)
  | some 0 => none
  | some (index + 1) =>
    let bootstrapAddrParts ← splitAt index bootstrapAddr.toList
    let bootstrapAddrMultiaddr ← M.parse (String.ofList bootstrapAddrParts.1)
    return (bootstrapPeerId, bootstrapAddrMultiaddr)

/-- The node that starts, and the addresses that are added to its routing table. -/
structure Started (M : MultiaddrParser) where
  node : Node
  addresses : List (PeerId × M.Multiaddr)

def start (M : MultiaddrParser) (keypair : Crypto.Keypair) (bootstrapAddrOption : Option String) :
    Option (Started M) :=
  match bootstrapAddrOption with
  | none => some ⟨⟨keypair, none, none⟩, []⟩
  | some bootstrapAddr =>
    (bootstrap M bootstrapAddr).map fun x => ⟨⟨keypair, none, some x.1⟩, [x]⟩

/-- The host starts with the peer as its bootstrap peer and its address as the only one in the
routing table. -/
def Bootstraps (M : MultiaddrParser) (keypair : Crypto.Keypair) (bootstrapAddr : String)
    (peer : PeerId) (addr : M.Multiaddr) : Prop :=
  start M keypair (some bootstrapAddr) = some ⟨⟨keypair, none, some peer⟩, [(peer, addr)]⟩

variable {M : MultiaddrParser} {keypair : Crypto.Keypair} {addr peerId : String} {peer : PeerId}
  {a : M.Multiaddr}

theorem bootstraps_iff_bootstrap :
    Bootstraps M keypair addr peer a ↔ bootstrap M addr = some (peer, a) := by
  rw [Bootstraps, start]
  constructor
  · intro h
    obtain ⟨x, hx, heq⟩ := Option.map_eq_some_iff.mp h
    have hlist := congrArg Started.addresses heq
    rw [hx, List.singleton_inj.mp hlist]
  · intro h
    rw [h, Option.map_some]

omit [Crypto] in
theorem toList_bootstrapAddr : (addr ++ "/p2p/" ++ peerId).toList =
    addr.toList ++ '/' :: ("p2p".toList ++ '/' :: peerId.toList) := by
  rw [String.toList_append, String.toList_append, List.append_assoc]
  rfl

omit [Crypto] in
/-- The last part is the peer. -/
theorem getLast?_parts (h : InBase58 peerId) :
    ((addr ++ "/p2p/" ++ peerId).toList.splitOn '/').getLast? = some peerId.toList := by
  have hslash : '/' ∉ peerId.toList := by
    intro hmem
    exact absurd (h _ hmem) (by decide)
  rw [toList_bootstrapAddr, ← List.cons_append, ← List.append_assoc, List.splitOn_append_cons_self,
    List.splitOn_eq_singleton hslash, List.getLast?_concat]

/-- The address is cut off where the letters are found. -/
theorem bootstrap_eq {n : ℕ} (ha : M.parse addr = some a) (hp : peerIdOfBase58 peerId = some peer)
    (h58 : InBase58 peerId)
    (hfind : find "p2p".toList (addr ++ "/p2p/" ++ peerId).toList = some (n + 1)) :
    bootstrap M (addr ++ "/p2p/" ++ peerId) =
      (splitAt n (addr ++ "/p2p/" ++ peerId).toList).bind fun parts =>
        (M.parse (String.ofList parts.1)).map fun a => (peer, a) := by
  obtain ⟨whole, hwhole⟩ := Option.isSome_iff_exists.mp
    (M.encapsulates (by rw [ha]; rfl) (by rw [hp]; rfl) h58)
  have hpeer : peerIdOfBase58 (String.ofList peerId.toList) = some peer := by
    rwa [String.ofList_toList]
  rw [bootstrap, getLast?_parts h58, hfind]
  simp only [Option.bind_eq_bind, Option.bind_some, hpeer, hwhole, Option.pure_def]
  cases splitAt n (addr ++ "/p2p/" ++ peerId).toList with
  | none => rfl
  | some parts => cases hparse : M.parse (String.ofList parts.1) <;> simp [hparse]

/-- Letters that stand in the address itself are found first. -/
theorem not_bootstraps (ha : M.parse addr = some a) (hp : peerIdOfBase58 peerId = some peer)
    (h58 : InBase58 peerId) (h : "p2p".toList <:+: addr.toList) :
    ¬ Bootstraps M keypair (addr ++ "/p2p/" ++ peerId) peer a := by
  rw [bootstraps_iff_bootstrap]
  obtain ⟨pre, post, heq, hfind⟩ := find_of_infix h
  have hfind := hfind ('/' :: ("p2p".toList ++ '/' :: peerId.toList))
  rw [← toList_bootstrapAddr] at hfind
  rcases List.eq_nil_or_concat pre with rfl | ⟨pre, c, rfl⟩
  · rw [bootstrap, getLast?_parts h58, hfind]
    simp
  · have hpos := c.utf8Size_pos
    obtain ⟨k, hk⟩ : ∃ k, c.utf8Size = k + 1 := ⟨c.utf8Size - 1, by omega⟩
    rw [List.concat_eq_append] at heq hfind
    rw [size_append, size_cons, size_nil, Nat.add_zero, hk, ← Nat.add_assoc] at hfind
    rw [bootstrap_eq ha hp h58 hfind, toList_bootstrapAddr, heq, List.append_assoc, List.append_assoc,
      List.singleton_append]
    rcases Nat.eq_zero_or_pos k with rfl | hlt
    · rw [Nat.add_zero, splitAt_size, Option.bind_some]
      intro hsome
      obtain ⟨a', ha', hpair⟩ := Option.map_eq_some_iff.mp hsome
      have haddr : addr = String.ofList pre ++ String.ofList (c :: ("p2p".toList ++ post)) := by
        rw [← String.ofList_append, ← String.ofList_toList (s := addr), heq]
        simp
      have hwhole : (M.parse
          (String.ofList pre ++ String.ofList (c :: ("p2p".toList ++ post)))).isSome := by
        rw [← haddr, ha]
        rfl
      have hletters : "p2p".toList <:+: (String.ofList (c :: ("p2p".toList ++ post))).toList := by
        rw [String.toList_ofList]
        exact ⟨[c], post, by simp⟩
      have hcut := M.cut hwhole hletters
      rw [← haddr, ha, ha'] at hcut
      exact hcut (congrArg (fun x => some x.2) hpair)
    · rw [splitAt_inside hlt (by omega)]
      simp

/-- The bootstrap address is read as it should be exactly when the letters `p2p` are not in the
address of the peer itself. -/
theorem bootstraps_iff (ha : M.parse addr = some a) (hp : peerIdOfBase58 peerId = some peer)
    (h58 : InBase58 peerId) :
    Bootstraps M keypair (addr ++ "/p2p/" ++ peerId) peer a ↔ ¬ "p2p".toList <:+: addr.toList := by
  constructor
  · intro h hmem
    exact not_bootstraps ha hp h58 hmem h
  · intro h
    have hfind := find_of_not_infix (c := '/') h (by decide)
      (List.prefix_append "p2p".toList ('/' :: peerId.toList))
    rw [← toList_bootstrapAddr] at hfind
    rw [bootstraps_iff_bootstrap, bootstrap_eq ha hp h58 hfind, toList_bootstrapAddr, splitAt_size,
      Option.bind_some, String.ofList_toList, ha, Option.map_some]

end Generic

/-! ## Addresses of a few protocols -/

namespace Sample

def number (s : List Char) : Option ℕ :=
  if s ≠ [] ∧ s.all Char.isDigit then some (s.foldl (fun n c => 10 * n + (c.toNat - 48)) 0) else none

/-- The argument is one of the protocol. -/
def argument (protocol arg : List Char) : Bool :=
  if protocol = "ip4".toList then
    (arg.splitOn '.').length = 4 && (arg.splitOn '.').all fun part => (number part).any (· < 256)
  else if protocol = "tcp".toList then (number arg).any (· < 65536)
  else if protocol = "dns4".toList then true
  else protocol = "p2p".toList && (peerIdOfBase58 (String.ofList arg)).isSome

def components : List (List Char) → Bool
  | [] => true
  | [_] => false
  | protocol :: arg :: parts => argument protocol arg && components parts

def parts : List (List Char) → Option (List (List Char))
  | [] :: parts => if components parts then some parts else none
  | _ => none

def parse (s : String) : Option (List (List Char)) := parts (s.toList.splitOn '/')

theorem components_append {l m : List (List Char)} (hl : components l) (hm : components m) :
    components (l ++ m) := by
  induction l using components.induct with
  | case1 => exact hm
  | case2 => cases hl
  | case3 protocol arg parts ih =>
    rw [components, Bool.and_eq_true] at hl
    rw [List.cons_append, List.cons_append, components, Bool.and_eq_true]
    exact ⟨hl.1, ih hl.2⟩

theorem parts_eq_some_iff {l m : List (List Char)} :
    parts l = some m ↔ l = [] :: m ∧ components m := by
  unfold parts
  split
  · split
    · next h =>
      constructor
      · intro heq
        obtain rfl := Option.some.inj heq
        exact ⟨rfl, h⟩
      · rintro ⟨heq, -⟩
        rw [(List.cons.inj heq).2]
    · next h =>
      constructor
      · intro h'
        cases h'
      · rintro ⟨heq, h'⟩
        rw [(List.cons.inj heq).2] at h
        exact absurd h' h
  · next hne =>
    constructor
    · intro h'
      cases h'
    · rintro ⟨rfl, -⟩
      exact absurd rfl (hne m)

def parser : MultiaddrParser where
  Multiaddr := List (List Char)
  parse := parse
  encapsulates {addr peerId} ha hp h58 := by
    obtain ⟨m, hm⟩ := Option.isSome_iff_exists.mp ha
    obtain ⟨hsplit, hcomponents⟩ := parts_eq_some_iff.mp hm
    have hslash : '/' ∉ peerId.toList := by
      intro hmem
      exact absurd (h58 _ hmem) (by decide)
    have hpeer : components ["p2p".toList, peerId.toList] := by
      have hp : (peerIdOfBase58 (String.ofList peerId.toList)).isSome := by
        rwa [String.ofList_toList]
      rw [components, argument, hp]
      rfl
    refine Option.isSome_iff_exists.mpr ⟨m ++ ["p2p".toList, peerId.toList],
      parts_eq_some_iff.mpr ⟨?_, components_append hcomponents hpeer⟩⟩
    rw [toList_bootstrapAddr, List.splitOn_append_cons_self, hsplit, List.splitOn_append_cons_self,
      List.splitOn_eq_singleton hslash]
    rfl
  cut {part rest} ha hletters := by
    obtain ⟨m, hm⟩ := Option.isSome_iff_exists.mp ha
    rw [hm]
    intro hpart
    have hsplit := (parts_eq_some_iff.mp hm).1.trans (parts_eq_some_iff.mp hpart).1.symm
    have htext := congrArg ['/'].intercalate hsplit
    rw [List.intercalate_splitOn, List.intercalate_splitOn, String.toList_append] at htext
    rw [List.append_right_eq_self.mp htext] at hletters
    exact absurd hletters (by decide)

/-- The peer of a key. -/
def key : Bytes := [0, 36, 8, 1, 18, 32] ++ List.replicate 32 7

def keypair : Ideal.Keypair := ⟨.ed25519, List.replicate 32 7⟩

def peer : PeerId := ⟨Base58.encode key⟩

theorem peerIdOfBase58_peer : peerIdOfBase58 (Base58.encode key) = some peer := by
  have hdec : Crypto.bs58Decode (Base58.encode key) = some key := Base58.decode_encode key
  rw [peerIdOfBase58, hdec]
  rfl

theorem inBase58_encode (b : Bytes) : InBase58 (Base58.encode b) := by
  have halphabet : ∀ d < 58, Base58.alphabet.getD d '1' ∈ Base58.alphabet := by decide
  intro c hc
  rw [Base58.toList_encode] at hc
  obtain ⟨d, hd, rfl⟩ := List.mem_map.mp hc
  exact halphabet d (Base58.encodeDigits_lt d hd)

end Sample

theorem bootstraps_local : ∃ a, Sample.parser.parse "/ip4/127.0.0.1/tcp/3331" = some a ∧
    (Bootstraps Sample.parser Sample.keypair
        ("/ip4/127.0.0.1/tcp/3331" ++ "/p2p/" ++ Base58.encode Sample.key) Sample.peer a ↔
      ¬ "p2p".toList <:+: "/ip4/127.0.0.1/tcp/3331".toList) :=
  ⟨_, rfl, bootstraps_iff rfl Sample.peerIdOfBase58_peer (Sample.inBase58_encode _)⟩

/-- The letters are in the name of the host. -/
theorem not_bootstraps_name : ∃ a, Sample.parser.parse "/dns4/p2p.example.com/tcp/3331" = some a ∧
    peerIdOfBase58 (Base58.encode Sample.key) = some Sample.peer ∧
    ¬ Bootstraps Sample.parser Sample.keypair
      ("/dns4/p2p.example.com/tcp/3331" ++ "/p2p/" ++ Base58.encode Sample.key) Sample.peer a :=
  ⟨_, rfl, Sample.peerIdOfBase58_peer,
    not_bootstraps rfl Sample.peerIdOfBase58_peer (Sample.inBase58_encode _) (by decide)⟩

end WhiteNoise.Host
