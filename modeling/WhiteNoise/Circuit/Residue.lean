import WhiteNoise.Network.Turns
import WhiteNoise.Network.Connection
import WhiteNoise.Network.Ideal

/-! # What is left in the buffer of a reader

A client reads all its messages into one buffer. The text is put over what was
there before, and the message is cut out by the length in front of it, which
nobody compares with the length of the text. Two buffers tell whether bytes
behind the text are returned.
-/

namespace WhiteNoise.Residue

open Wire Process

/-! ## Cutting the message out -/

/-- The length in front of a message: the first four bytes, big endian. -/
def sizeIn (b : Bytes) : ℕ := (b.take 4).foldl (fun n d => n * 256 + d.toNat) 0

/-- What is cut out of the buffer when the text is at its start. -/
def cut (text buf : Bytes) : Option Bytes := realMessage (text ++ buf.drop text.length)

variable {text buf m : Bytes} {n : ℕ}

theorem realMessage_eq_some :
    realMessage buf = some m ↔ sizeIn buf + 4 ≤ buf.length ∧ (buf.drop 4).take (sizeIn buf) = m := by
  rw [realMessage, ← sizeIn, Option.ite_none_right_eq_some, Option.some.injEq]
  constructor
  · rintro ⟨⟨-, hle⟩, h⟩
    exact ⟨hle, h⟩
  · rintro ⟨hle, h⟩
    exact ⟨⟨by omega, hle⟩, h⟩

theorem sizeIn_append (h : 4 ≤ text.length) : sizeIn (text ++ buf) = sizeIn text := by
  rw [sizeIn, List.take_append_of_le_length h, sizeIn]

/-- The length is that of the message, and the message is whole. -/
theorem cut_whole (h : sizeIn text + 4 ≤ text.length) :
    cut text buf = some ((text.drop 4).take (sizeIn text)) := by
  have h4 : 4 ≤ text.length := by omega
  rw [cut, realMessage_eq_some, sizeIn_append h4, List.drop_append_of_le_length h4,
    List.take_append_of_le_length (by rw [List.length_drop]; omega), List.length_append]
  exact ⟨by omega, rfl⟩

/-- What is cut out is as long as the bytes in front say. -/
theorem length_cut (h : cut text buf = some m) :
    m.length = sizeIn (text ++ buf.drop text.length) := by
  obtain ⟨hle, rfl⟩ := realMessage_eq_some.mp h
  rw [List.length_take, List.length_drop]
  omega

/-- The byte behind the text is returned. -/
theorem getElem?_cut {x : UInt8} (hm : cut text (List.replicate n x) = some m)
    (h4 : 4 ≤ text.length) (hsize : text.length < sizeIn text + 4) :
    m[text.length - 4]? = some x := by
  obtain ⟨hle, rfl⟩ := realMessage_eq_some.mp hm
  rw [sizeIn_append h4] at hle ⊢
  rw [List.length_append, List.length_drop, List.length_replicate] at hle
  rw [List.getElem?_take_of_lt (by omega), List.getElem?_drop, Nat.add_sub_cancel' h4,
    List.getElem?_append_right (Nat.le_refl _), Nat.sub_self, List.drop_replicate,
    List.getElem?_replicate, if_pos (by omega)]

/-- Without all four bytes of the length the buffer has a part in it. -/
theorem sizeIn_lt (h : text.length < 4) (hn : 4 ≤ n) :
    sizeIn (text ++ (List.replicate n (0 : UInt8)).drop text.length) <
      sizeIn (text ++ (List.replicate n (1 : UInt8)).drop text.length) := by
  obtain ⟨k, rfl⟩ : ∃ k, n = k + 4 := ⟨n - 4, by omega⟩
  match text, h with
  | [], _ => simp [sizeIn, List.replicate_succ]
  | [a], _ => simp [sizeIn, List.replicate_succ]; omega
  | [a, b], _ => simp [sizeIn, List.replicate_succ]
  | [a, b, c], _ => simp [sizeIn, List.replicate_succ]
  | _ :: _ :: _ :: _ :: _, h => simp at h; omega

/-- If the length is not that of the message, two buffers tell. -/
theorem cut_differs (hsize : text.length < sizeIn text + 4)
    (h : cut text (List.replicate n 0) = some m) : cut text (List.replicate n 1) ≠ some m := by
  intro h'
  rcases Nat.lt_or_ge text.length 4 with hlt | h4
  · have hn : 4 ≤ n := by
      obtain ⟨hle, -⟩ := realMessage_eq_some.mp h
      rw [List.length_append, List.length_drop, List.length_replicate] at hle
      omega
    exact absurd ((length_cut h).symm.trans (length_cut h')) (sizeIn_lt hlt hn).ne
  · cases (getElem?_cut h h4 hsize).symm.trans (getElem?_cut h' h4 hsize)

/-! ## One call among the other tasks -/

section

variable [Codec] [Crypto]

/-- What the payload is decrypted to, in a buffer of `n` bytes. -/
def opens (s : Shared) (ref : ℕ) (n : ℕ) (payload : Bytes) : Option Bytes :=
  ((s.transports ref).bind (Crypto.transportRead · payload n)).map Prod.snd

/-- The next payload of the circuit is decrypted to the text. -/
def Delivers (conn : CircuitConn) (n : ℕ) (text : Bytes) (s : Shared) : Prop :=
  ∃ ref data rest payload, conn.transportState = some ref ∧
    s.channels conn.inChannel = data :: rest ∧ payloadOf data = some payload ∧
    opens s ref n payload = some text

/-- Others add to the channel of the circuit only, and what the transport state decrypts stays. -/
structure Feeds (conn : CircuitConn) (n : ℕ) (s s' : Shared) : Prop where
  channel : s.channels conn.inChannel <+: s'.channels conn.inChannel
  opens : ∀ ref, conn.transportState = some ref → ∀ payload text, opens s ref n payload = some text →
    opens s' ref n payload = some text

/-- A run of `CircuitConn::read` with the buffer. -/
abbrev Reads (node : Node) (conn : CircuitConn) (buf : Bytes) (s : Shared) (r : TurnRecord Bytes) :
    Prop :=
  Turn node (Feeds conn buf.length) .free (conn.read buf) s r

variable {node : Node} {conn : CircuitConn} {s s' : Shared} {r r' : TurnRecord Bytes} {ref : ℕ}
  {payload : Bytes}

omit [Codec] in
theorem Feeds.refl (conn : CircuitConn) (n : ℕ) (s : Shared) : Feeds conn n s s :=
  ⟨List.prefix_rfl, fun _ _ _ _ h => h⟩

/-- The text is put into the buffer, whatever happens before the lock is taken. -/
theorem turn_readTransport {rely : Shared → Shared → Prop}
    (hrely : ∀ s', rely s s' → opens s' ref buf.length payload = some text)
    {k : Bytes → Async Bytes} (h : Turn node rely .free (readTransport ref payload buf >>= k) s r) :
    ∃ s', Turn node rely .free (k (text ++ buf.drop text.length)) s' r := by
  obtain ⟨s', -, hs, -, h⟩ := h
  have hopens := hrely s' hs
  rw [opens, Option.map_eq_some_iff] at hopens
  obtain ⟨⟨t, text⟩, hread, rfl⟩ := hopens
  simp only [Prog.bind_eq, hread, Prog.unwrap_some, Prog.ret_bind] at h
  exact ⟨_, h⟩

theorem turn_read (hd : Delivers conn buf.length text s) (h : Reads node conn buf s r) :
    r.answer = cut text buf := by
  obtain ⟨ref, data, rest, payload, href, hchannel, hpayload, hopens⟩ := hd
  rw [Reads, CircuitConn.read, href] at h
  obtain ⟨s₁, c, x, r₁, hs₁, -, hx, h₁, rfl⟩ := h
  obtain ⟨data', rest', hdata, rfl⟩ := Shared.dequeue_eq_some hx
  have hsame : data' = data := by
    obtain ⟨more, hmore⟩ := hs₁.channel
    rw [hchannel, hdata, List.cons_append] at hmore
    exact (List.cons.inj hmore).1.symm
  subst hsame
  simp only [hpayload, Prog.bind_eq, Prog.ret_bind, Prog.unwrap_some] at h₁
  obtain ⟨s₂, h₂⟩ := turn_readTransport
    (fun s' hs => hs.opens ref href payload text (hs₁.opens ref href payload text hopens)) h₁
  rw [Record.answer_after, cut]
  cases hcut : realMessage (text ++ buf.drop text.length) with
  | none =>
    rw [hcut] at h₂
    obtain rfl : r₁ = _ := h₂
    rfl
  | some m =>
    rw [hcut] at h₂
    obtain rfl : r₁ = _ := h₂
    rfl

theorem exists_read (hd : Delivers conn buf.length text s) : ∃ r, Reads node conn buf s r := by
  obtain ⟨ref, data, rest, payload, href, hchannel, hpayload, -⟩ := hd
  have hx : Shared.reply (.nextData conn.inChannel) .go s =
      some ⟨data, { s with channels := Function.update s.channels conn.inChannel rest }, [], []⟩ := by
    rw [Shared.reply, hchannel, Shared.dequeue]
  have hunwrap {α : Type} (o : Option α) : (Prog.unwrap o : Async α).Within (fun _ => True)
      (fun _ => False) fun _ => True := by
    cases o <;> trivial
  have hrest : (readTransport ref payload buf >>= fun buf => Prog.unwrap (realMessage buf) :
      Async Bytes).Within (fun _ => True) (fun _ => False) fun _ => True := by
    refine ⟨trivial, fun s => ?_⟩
    dsimp only
    cases (s.transports ref).bind (Crypto.transportRead · payload buf.length) with
    | none => trivial
    | some read => exact hunwrap _
  have hreply (a : Act) (ha : False) (s : Shared) :
      ∃ c x, (nodeSemantics node).reply a c s = some x := ha.elim
  obtain ⟨r, hr, -⟩ := Semantics.exists_amid_within (Feeds.refl conn buf.length) hreply .go hrest
    { s with channels := Function.update s.channels conn.inChannel rest }
  simp only [Reads, CircuitConn.read, href]
  refine ⟨_, Semantics.Amid.reply (c := .go) (Feeds.refl conn buf.length s) hx (r := r) ?_⟩
  simp only [hpayload, Prog.bind_eq, Prog.ret_bind, Prog.unwrap_some]
  exact hr

/-- Both calls return, the same part of the text, whatever two buffers of `n` bytes hold. -/
def Current (node : Node) (conn : CircuitConn) (n : ℕ) (text : Bytes) (s : Shared) : Prop :=
  ∀ buf buf' : Bytes, buf.length = n → buf'.length = n →
    (∃ r, Reads node conn buf s r) ∧ ∀ r r', Reads node conn buf s r → Reads node conn buf' s r' →
      ∃ m, r.answer = some m ∧ r'.answer = some m ∧ m <:+: text

theorem not_current (hd : Delivers conn n text s) (hsize : text.length < sizeIn text + 4) :
    ¬ Current node conn n text s := by
  intro h
  have hzeros : (List.replicate n (0 : UInt8)).length = n := List.length_replicate
  have hones : (List.replicate n (1 : UInt8)).length = n := List.length_replicate
  obtain ⟨⟨r, hr⟩, hsame⟩ := h _ _ hzeros hones
  obtain ⟨r', hr'⟩ := (h _ _ hones hones).1
  obtain ⟨m, hm, hm', -⟩ := hsame r r' hr hr'
  rw [turn_read (hzeros.symm ▸ hd) hr] at hm
  rw [turn_read (hones.symm ▸ hd) hr'] at hm'
  exact cut_differs hsize hm hm'

/-- Only the current message is returned exactly when the length in front of it is one that the text
has behind it. -/
theorem read_current (hd : Delivers conn n text s) :
    Current node conn n text s ↔ sizeIn text + 4 ≤ text.length := by
  constructor
  · intro h
    by_contra hsize
    exact not_current hd (by omega) h
  · rintro hsize buf buf' rfl hbuf'
    refine ⟨exists_read hd, ?_⟩
    rintro r r' hr hr'
    rw [turn_read hd hr, turn_read (hbuf'.symm ▸ hd) hr', cut_whole hsize, cut_whole hsize]
    exact ⟨_, rfl, rfl, (List.take_prefix ..).isInfix.trans (List.drop_suffix ..).isInfix⟩

end

namespace Sample

def conn : CircuitConn := ⟨"circuit", ⟨⟨"entry"⟩, 0⟩, 0, some 0⟩

/-- A circuit on which the text comes next. -/
def state (text : Bytes) : Shared where
  channels _ := [putU16 (text.length + 16) ++ (text ++ List.replicate 16 0)]
  transports _ := some ⟨true, ⟨[], ⟨.ed25519, []⟩⟩, none, 3⟩

def node : Node := ⟨⟨.ed25519, []⟩, none, none⟩

/-- One byte behind a length of nine. -/
def short : Bytes := [0, 0, 0, 9, 65]

theorem delivers_short : Delivers conn bufLen short (state short) :=
  ⟨0, _, [], short ++ List.replicate 16 0, rfl, rfl, by decide, by decide⟩

end Sample

theorem read_current_whole : Current Sample.node Sample.conn bufLen [0, 0, 0, 1, 65]
      (Sample.state [0, 0, 0, 1, 65]) ↔ sizeIn [0, 0, 0, 1, 65] + 4 ≤ [0, 0, 0, 1, 65].length :=
  read_current ⟨0, _, [], [0, 0, 0, 1, 65] ++ List.replicate 16 0, rfl, rfl, by decide, by decide⟩

/-- Behind the byte come eight of what was in the buffer before. -/
theorem not_read_current : Delivers Sample.conn bufLen Sample.short (Sample.state Sample.short) ∧
    ¬ Current Sample.node Sample.conn bufLen Sample.short (Sample.state Sample.short) :=
  ⟨Sample.delivers_short, not_current Sample.delivers_short (by decide)⟩

end WhiteNoise.Residue
