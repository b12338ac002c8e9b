import WhiteNoise.Circuit.Candidates
import WhiteNoise.Network.Ideal

/-! # The places a scan visits

The scan for a peer counts up a random machine word and takes it modulo the
length of the list, step by step. It goes round the list once and so visits
every place unless it stops at a peer; only the largest word cannot be counted
up.
-/

namespace WhiteNoise.Scan

open Wire Process Candidates

/-! ## Places going round -/

/-- The `j` places from `p` on, going round `n` places. -/
def places (n p j : ℕ) : List ℕ := (List.range' p j).map (· % n)

variable {n p j : ℕ}

theorem places_succ : places n p (j + 1) = p % n :: places n (p + 1) j := by
  rw [places, List.range'_succ, List.map_cons, places]

/-- One round visits no place twice. -/
theorem nodup_places : (places n p n).Nodup := by
  apply List.Nodup.map_on _ List.nodup_range'
  intro a ha b hb h
  rw [List.mem_range'_1] at ha hb
  exact Nat.mod_injOn_Ico p n (by simpa using ha) (by simpa using hb) h

/-- One round visits every place. -/
theorem mem_places {k : ℕ} (hk : k < n) : k ∈ places n p n := by
  have h : k ∈ (Finset.Ico p (p + n)).image (· % n) := by
    rw [Nat.image_Ico_mod]
    exact Finset.mem_range.mpr hk
  obtain ⟨m, hm, rfl⟩ := Finset.mem_image.mp h
  exact List.mem_map.mpr ⟨m, List.mem_range'_1.mpr (by simpa using hm), rfl⟩

/-! ## Visits -/

/-- One step of the scan: the word before it is counted up, the place it comes to, and whether the
peer there passed the tests. -/
structure Visit where
  index : UInt64
  place : ℕ
  passed : Bool

/-- The place that the word comes to. -/
def placeOf (l : List NodeInfo) (index : UInt64) : ℕ := (index + 1).toNat % l.length

section Generic

variable [Codec] [Crypto]

/-- The visits of a run of the scan, with `j` steps left. Each of them runs the tests of the peer at
its place; an unwrap in the tests may fail. -/
inductive Scanned (node : Node) (rely : Shared → Shared → Prop) (l : List NodeInfo)
    (invalid : List String) (excluded des : String) :
    ℕ → UInt64 → List Visit → Shared → TurnRecord (Option String) → Prop
  | ended {index s} :
    Scanned node rely l invalid excluded des 0 index [] s ⟨some none, s, [], [], []⟩
  | failed {j index s r info} (hinfo : l[placeOf l index]? = some info)
    (h : Turn node rely .free (eligible node invalid excluded des info.id) s r)
    (hr : r.answer = none) :
    Scanned node rely l invalid excluded des (j + 1) index [⟨index, placeOf l index, false⟩] s
      ⟨none, r.state, r.asked, r.outputs, r.spawned⟩
  | found {j index s r info} (hinfo : l[placeOf l index]? = some info)
    (h : Turn node rely .free (eligible node invalid excluded des info.id) s r)
    (hr : r.answer = some true) :
    Scanned node rely l invalid excluded des (j + 1) index [⟨index, placeOf l index, true⟩] s
      (r.append ⟨some (some info.id), r.state, [], [], []⟩)
  | passed {j index s r info vs r'} (hinfo : l[placeOf l index]? = some info)
    (h : Turn node rely .free (eligible node invalid excluded des info.id) s r)
    (hr : r.answer = some false)
    (h' : Scanned node rely l invalid excluded des j (UInt64.ofNat (placeOf l index)) vs r.state r') :
    Scanned node rely l invalid excluded des (j + 1) index (⟨index, placeOf l index, false⟩ :: vs) s
      (r.append r')

/-- The scan is as it should be: no word is too large to be counted up, no place is visited twice, a
scan that finds nothing has visited every place and found no peer there that passes, and the peer of
any other scan is one that passed. -/
structure Complete (l : List NodeInfo) (vs : List Visit) (r : TurnRecord (Option String)) : Prop where
  noOverflow : ∀ v ∈ vs, v.index.toNat + 1 < 2 ^ 64
  once : (vs.map Visit.place).Nodup
  every : r.answer = some none → ∀ k < l.length, ∃ v ∈ vs, v.place = k ∧ v.passed = false
  selects : ∀ id, r.answer = some (some id) →
    ∃ v ∈ vs, v.passed = true ∧ ∃ info, l[v.place]? = some info ∧ info.id = id

variable {node : Node} {rely : Shared → Shared → Prop} {l : List NodeInfo} {invalid : List String}
  {excluded des : String} {index : UInt64} {vs : List Visit} {s : Shared}
  {r : TurnRecord (Option String)}

/-- Every run has its visits. -/
theorem exists_scanned (hl : l ≠ [])
    (h : Turn node rely .free (scanPeers node l invalid excluded des j index) s r) :
    ∃ vs, Scanned node rely l invalid excluded des j index vs s r := by
  induction j generalizing index s r with
  | zero =>
    obtain rfl : r = _ := h
    exact ⟨[], .ended⟩
  | succ j ih =>
    have hlt : placeOf l index < l.length := Nat.mod_lt _ (List.length_pos_iff.mpr hl)
    have hinfo : l[placeOf l index]? = some l[placeOf l index] := List.getElem?_eq_getElem hlt
    unfold scanPeers at h
    dsimp only at h
    rw [← placeOf, hinfo, Prog.unwrap_some, Prog.ret_bind] at h
    rcases Semantics.Amid.bind h with ⟨r₁, h₁, hnone, rfl⟩ | ⟨r₁, ok, r₂, h₁, hok, h₂, rfl⟩
    · exact ⟨_, .failed hinfo h₁ hnone⟩
    · cases ok with
      | true =>
        obtain rfl : r₂ = _ := h₂
        exact ⟨_, .found hinfo h₁ hok⟩
      | false =>
        obtain ⟨vs, hvs⟩ := ih h₂
        exact ⟨_, .passed hinfo h₁ hok hvs⟩

theorem Scanned.head (h : Scanned node rely l invalid excluded des (j + 1) index vs s r) :
    ∃ v ∈ vs, v.index = index := by
  cases h <;> exact ⟨_, List.mem_cons_self, rfl⟩

/-- Behind the first one each word is a place. -/
theorem Scanned.word (h : Scanned node rely l invalid excluded des j index vs s r)
    (hlen : l.length < 2 ^ 64) (hl : l ≠ []) : ∀ v ∈ vs, v.index = index ∨ v.index.toNat < l.length := by
  induction h with
  | ended => simp
  | failed | found => simp
  | @passed j index s r info vs r' hinfo h hr h' ih =>
    intro v hv
    rcases List.mem_cons.mp hv with rfl | hv
    · exact Or.inl rfl
    · rcases ih v hv with hindex | hlt
      · right
        have hlt : placeOf l index < l.length := Nat.mod_lt _ (List.length_pos_iff.mpr hl)
        rw [hindex, UInt64.toNat_ofNat', Nat.mod_eq_of_lt (by omega)]
        exact hlt
      · exact Or.inr hlt

/-- The places are those of the round, and a scan that finds nothing goes all the way. -/
theorem Scanned.places (h : Scanned node rely l invalid excluded des j index vs s r)
    (hlen : l.length < 2 ^ 64) (hl : l ≠ []) (hp : placeOf l index = p % l.length) :
    vs.map Visit.place <+: places l.length p j ∧
      (r.answer = some none → vs.map Visit.place = places l.length p j ∧ ∀ v ∈ vs, v.passed = false) := by
  induction h generalizing p with
  | ended => exact ⟨List.nil_prefix, fun _ => ⟨rfl, by simp⟩⟩
  | failed hinfo h hr | found hinfo h hr =>
    refine ⟨?_, by simp [Record.append]⟩
    rw [places_succ, List.map_singleton, hp]
    exact ⟨_, rfl⟩
  | @passed j index s r info vs r' hinfo h hr h' ih =>
    have hlt : p % l.length < l.length := Nat.mod_lt _ (List.length_pos_iff.mpr hl)
    obtain ⟨hstart, hall⟩ := ih (next_place hlen hp hlt)
    rw [places_succ, List.map_cons, hp]
    refine ⟨(List.prefix_cons_inj _).mpr hstart, fun hnone => ?_⟩
    obtain ⟨heq, hpassed⟩ := hall hnone
    refine ⟨congrArg _ heq, ?_⟩
    intro v hv
    rcases List.mem_cons.mp hv with rfl | hv
    · rfl
    · exact hpassed v hv

theorem Scanned.selects (h : Scanned node rely l invalid excluded des j index vs s r) {id : String}
    (hid : r.answer = some (some id)) :
    ∃ v ∈ vs, v.passed = true ∧ ∃ info, l[v.place]? = some info ∧ info.id = id := by
  induction h with
  | ended => cases hid
  | failed => cases hid
  | found hinfo =>
    obtain rfl := Option.some.inj (Option.some.inj hid)
    exact ⟨_, List.mem_cons_self, rfl, _, hinfo, rfl⟩
  | passed hinfo h hr h' ih =>
    obtain ⟨v, hv, hrest⟩ := ih hid
    exact ⟨v, List.mem_cons_of_mem _ hv, hrest⟩

/-- Every scan is complete, but for the word it starts from. -/
theorem Scanned.complete (h : Scanned node rely l invalid excluded des l.length index vs s r)
    (hlen : l.length < 2 ^ 64) (hl : l ≠ []) (hindex : index.toNat + 1 < 2 ^ 64) :
    Complete l vs r := by
  obtain ⟨hstart, hall⟩ := h.places hlen hl (p := placeOf l index) (by simp [placeOf])
  constructor
  · intro v hv
    rcases h.word hlen hl v hv with rfl | hlt
    · exact hindex
    · omega
  · exact nodup_places.sublist hstart.sublist
  · intro hnone k hk
    obtain ⟨heq, hpassed⟩ := hall hnone
    have hmem : k ∈ vs.map Visit.place := heq ▸ mem_places hk
    obtain ⟨v, hv, rfl⟩ := List.mem_map.mp hmem
    exact ⟨v, hv, rfl, hpassed v hv⟩
  · intro id hid
    exact h.selects hid

theorem exists_run_scan (node : Node) (l : List NodeInfo) (invalid : List String)
    (excluded des : String) (index : UInt64) (s : Shared) :
    ∃ r, Turn node Eq .free (scanPeers node l invalid excluded des l.length index) s r := by
  have hrefl : ∀ s : Shared, Eq s s := fun _ => rfl
  have hreply (a : Act) (ha : a = .randomPeerId) (s : Shared) :
      ∃ c x, (nodeSemantics node).reply a c s = some x := by
    subst ha
    exact ⟨.peer ⟨""⟩, _, rfl⟩
  obtain ⟨r, hr, -⟩ := Semantics.exists_amid_within hrefl hreply .go looks_scanPeers s
  exact ⟨r, hr⟩

/-- Every run of the scan of the whole list is complete, whatever the others do. -/
def Completes (node : Node) (l : List NodeInfo) (invalid : List String) (excluded des : String)
    (index : UInt64) : Prop :=
  ∀ rely s r, Turn node rely .free (scanPeers node l invalid excluded des l.length index) s r →
    ∃ vs, Scanned node rely l invalid excluded des l.length index vs s r ∧ Complete l vs r

/-- The first step counts the largest word up. -/
theorem not_completes (hl : l ≠ []) (hmax : index.toNat = 2 ^ 64 - 1) :
    ¬ Completes node l invalid excluded des index := by
  intro h
  obtain ⟨r, hr⟩ := exists_run_scan node l invalid excluded des index {}
  obtain ⟨vs, hvs, hcomplete⟩ := h Eq {} r hr
  obtain ⟨j, hj⟩ := Nat.exists_eq_succ_of_ne_zero (List.length_pos_iff.mpr hl).ne'
  rw [hj] at hvs
  obtain ⟨v, hv, rfl⟩ := hvs.head
  have hlt := hcomplete.noOverflow v hv
  omega

/-- The scan of a list is complete exactly when it does not start from the largest word. -/
theorem complete_scan (hl : l ≠ []) (hlen : l.length < 2 ^ 64) :
    Completes node l invalid excluded des index ↔ index.toNat ≠ 2 ^ 64 - 1 := by
  constructor
  · intro h hmax
    exact not_completes hl hmax h
  · intro hne rely s r hr
    obtain ⟨vs, hvs⟩ := exists_scanned hl hr
    have hlt := index.toNat_lt
    exact ⟨vs, hvs, hvs.complete hlen hl (by omega)⟩

end Generic

namespace Sample

def node : Node := ⟨⟨.ed25519, List.replicate 32 7⟩, none, none⟩

def peers : List NodeInfo := [⟨"one", []⟩, ⟨"two", []⟩, ⟨"three", []⟩]

end Sample

theorem complete_scan_three :
    Completes Sample.node Sample.peers [] "caller" "callee" 5 ↔ (5 : UInt64).toNat ≠ 2 ^ 64 - 1 :=
  complete_scan (by decide) (by decide)

/-- From the largest word the first step overflows. -/
theorem not_complete_scan :
    ¬ Completes Sample.node Sample.peers [] "caller" "callee" 18446744073709551615 :=
  not_completes (by decide) (by decide)

end WhiteNoise.Scan
