import WhiteNoise.Network.Utils

/-! # Writing and reading on an established circuit -/

namespace WhiteNoise

open Wire Process

variable [Codec] [Crypto]

/-- `transport_state.lock().unwrap().write_message(payload, buf).unwrap()` under its lock -/
def writeTransport (ref : ℕ) (payload : Bytes) : Async Bytes := do
  let written ← Prog.update
    (fun s => match (s.transports ref).bind (Crypto.transportWrite · payload) with
      | none => s
      | some (t, _) => { s with transports := Function.update s.transports ref (some t) })
    fun s => (s.transports ref).bind (Crypto.transportWrite · payload)
  let (_, msg) ← Prog.unwrap written
  return msg

/-- Encrypt the payload and write it to the stream of the circuit. -/
def CircuitConn.write (conn : CircuitConn) (payload : Bytes) : Async Unit :=
  match conn.transportState with
  | none => pure ()
  | some ref => do
    let msg ← writeTransport ref payload
    writePayloadArc conn.outStream msg msg.length conn.id

namespace Node

/-- Write the message to the circuit of the session, once the handshake is finished. -/
def sendMessage (sessionId : String) (message : Bytes) : Async Unit := do
  let circuitConn ← Prog.unwrap (← Async.getCircuit sessionId)
  if circuitConn.transportState.isNone then return () else
  circuitConn.write message

end Node

/-! ## Reading -/

/-- `data[2..(2 + buf_len)]`, the length in the first two bytes -/
def payloadOf (data : Bytes) : Option Bytes := do
  let hi ← data[0]?
  let lo ← data[1]?
  let bufLen := hi.toNat * 256 + lo.toNat
  if 2 + bufLen ≤ data.length then some ((data.drop 2).take bufLen) else none

/-- `transport_state.lock().unwrap().read_message(&payload, buf).unwrap()` under its lock: the
buffer with the text at its start -/
def readTransport (ref : ℕ) (payload buf : Bytes) : Async Bytes := do
  let read ← Prog.update
    (fun s => match (s.transports ref).bind (Crypto.transportRead · payload buf.length) with
      | none => s
      | some (t, _) => { s with transports := Function.update s.transports ref (some t) })
    fun s => (s.transports ref).bind (Crypto.transportRead · payload buf.length)
  let (_, text) ← Prog.unwrap read
  return text ++ buf.drop text.length

/-- `buf[4..(real_size + 4)]`, the size big endian in the first four bytes -/
def realMessage (buf : Bytes) : Option Bytes :=
  let realSize := (buf.take 4).foldl (fun n b => n * 256 + b.toNat) 0
  if 4 ≤ buf.length ∧ realSize + 4 ≤ buf.length then some ((buf.drop 4).take realSize) else none

/-- Take the next payload of the circuit, decrypt it into the buffer and cut the message out. -/
def CircuitConn.read (conn : CircuitConn) (buf : Bytes) : Async Bytes :=
  match conn.transportState with
  | none => pure []
  | some ref => do
    let data ← Prog.call (Act.nextData conn.inChannel)
    let payload ← Prog.unwrap (payloadOf data)
    let buf ← readTransport ref payload buf
    Prog.unwrap (realMessage buf)

/-! ## Frames and messages behind their lengths -/

section

omit [Codec] [Crypto]

theorem payloadOf_putU16 {c : Bytes} (h : c.length < 65536) :
    payloadOf (putU16 c.length ++ c) = some c := by
  have hlen : (UInt8.ofNat (c.length / 256)).toNat * 256 + (UInt8.ofNat c.length).toNat =
      c.length := by
    simp only [UInt8.toNat_ofNat']
    omega
  simp only [payloadOf, putU16, List.cons_append, List.nil_append, List.getElem?_cons_zero,
    List.getElem?_cons_succ, hlen, Option.bind_eq_bind, Option.bind_some, List.length_cons,
    List.drop_succ_cons, List.drop_zero, List.take_length]
  rw [if_pos (by omega)]

/-- `put_u32`, big endian, of the low 32 bits -/
def putU32 (n : ℕ) : Bytes :=
  [UInt8.ofNat (n / 2 ^ 24), UInt8.ofNat (n / 2 ^ 16), UInt8.ofNat (n / 2 ^ 8), UInt8.ofNat n]

/-- A message behind its length, as the clients send it. -/
def sized (message : Bytes) : Bytes := putU32 message.length ++ message

@[simp] theorem length_sized (m : Bytes) : (sized m).length = m.length + 4 := by
  simp [sized, putU32]

/-- The message is cut out again, whatever is behind it in the buffer. -/
theorem realMessage_sized {m : Bytes} (h : m.length < 2 ^ 32) (rest : Bytes) :
    realMessage (sized m ++ rest) = some m := by
  have hsize : ((sized m ++ rest).take 4).foldl (fun n b => n * 256 + b.toNat) 0 = m.length := by
    simp only [sized, putU32, List.cons_append, List.nil_append, List.take_succ_cons,
      List.take_zero, List.foldl_cons, List.foldl_nil, UInt8.toNat_ofNat']
    omega
  have hlen : (sized m ++ rest).length = m.length + 4 + rest.length := by simp
  rw [realMessage, hsize, hlen, if_pos (by omega)]
  simp [sized, putU32]

end

end WhiteNoise
