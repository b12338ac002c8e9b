import WhiteNoise.Process.Courier
import WhiteNoise.Network.Session
import Mathlib.Data.List.Nodup

/-! # The queue of opened streams

A call for a stream to a peer sends a request and then scans the queue of opened
streams, which it shares with all other calls. A scan takes the streams out one
by one and puts those for other peers back at the end, each under a lock of its
own.
-/

namespace WhiteNoise.OutStreams

open Process

/-! ## The calls -/

/-- What a call asks of the environment: a task that sends the request for a stream, the sending,
and a pause of 50 ms. -/
inductive Op where
  | spawn (peerId : PeerId)
  | send (peerId : PeerId)
  | sleep

abbrev Op.Res : Op → Type := fun _ => Unit

/-- The functions of a call, over the shared queue. -/
abbrev Waiting := Prog (List WrappedStream) Op.Res

/-- The passes of the inner loop, from one on. -/
def scan (peerId : PeerId) (len index : ℕ) : Waiting (Option WrappedStream) :=
  if len ≤ index then return none
  else do
    let relayStreamOption ← Prog.update List.tail List.head?
    match relayStreamOption with
    | some relayStream =>
      if relayStream.remotePeerId = peerId then return some relayStream
      else do
        Prog.write (· ++ [relayStream])
        scan peerId len (index + 1)
    | none => scan peerId len (index + 1)
termination_by len - index

def waitForOutPeerRelayStream (peerId : PeerId) (waitTime : ℕ) : Waiting (Option WrappedStream) :=
  if 5000 ≤ waitTime then return none
  else do
    let len ← Prog.read List.length
    match ← scan peerId len 0 with
    | some relayStream => return some relayStream
    | none =>
      Prog.call .sleep
      waitForOutPeerRelayStream peerId (waitTime + 50)
termination_by 5000 - waitTime

def newRelayStream (peerId : PeerId) : Waiting (Option WrappedStream) := do
  Prog.call (.spawn peerId)
  waitForOutPeerRelayStream peerId 0

/-- The spawned task. -/
def sendRequest (peerId : PeerId) : Waiting (Option PeerId) := do
  Prog.call (.send peerId)
  return none

/-- Nothing is refused. A task is named by the peer of its request, and the request goes out. -/
def waiting : Semantics (List WrappedStream) Op.Res PeerId Unit PeerId where
  reply
    | .spawn peerId, _, queue => some ⟨(), queue, [], [peerId]⟩
    | .send peerId, _, queue => some ⟨(), queue, [peerId], []⟩
    | .sleep, _, queue => some ⟨(), queue, [], []⟩
  body := sendRequest

/-! ## Where a call is -/

/-- The operation a call comes to next. -/
inductive Point where
  | spawn
  | readLen (waitTime : ℕ)
  | pop (waitTime len index : ℕ)
  /-- with the stream in hand -/
  | push (waitTime len index : ℕ) (relayStream : WrappedStream)
  | sleep (waitTime : ℕ)
  | returned (relayStream : Option WrappedStream)
  deriving DecidableEq

namespace Point

/-- The head of the outer loop. -/
def wait (waitTime : ℕ) : Point := if 5000 ≤ waitTime then .returned none else .readLen waitTime

/-- The head of the inner loop. -/
def scan (waitTime len index : ℕ) : Point :=
  if len ≤ index then .sleep waitTime else .pop waitTime len index

/-- The next operation of a call for the peer: where it leaves the call and the queue, and the
task it spawns. -/
def next (peerId : PeerId) (queue : List WrappedStream) :
    Point → Option (Point × List WrappedStream × List PeerId)
  | .spawn => some (wait 0, queue, [peerId])
  | .readLen waitTime => some (scan waitTime queue.length 0, queue, [])
  | .pop waitTime len index =>
    match queue with
    | [] => some (scan waitTime len (index + 1), [], [])
    | relayStream :: queue =>
      if relayStream.remotePeerId = peerId then some (.returned (some relayStream), queue, [])
      else some (.push waitTime len index relayStream, queue, [])
  | .push waitTime len index relayStream =>
    some (scan waitTime len (index + 1), queue ++ [relayStream], [])
  | .sleep waitTime => some (wait (waitTime + 50), queue, [])
  | .returned _ => none

/-- What the outer loop does behind a scan. -/
def after (peerId : PeerId) (waitTime : ℕ) : Option WrappedStream → Waiting (Option WrappedStream)
  | some relayStream => .ret (some relayStream)
  | none => Prog.call .sleep >>= fun _ => waitForOutPeerRelayStream peerId (waitTime + 50)

/-- What a scan does with what it took out. -/
def popped (peerId : PeerId) (len index : ℕ) :
    Option WrappedStream → Waiting (Option WrappedStream)
  | some relayStream =>
    if relayStream.remotePeerId = peerId then .ret (some relayStream)
    else Prog.write (· ++ [relayStream]) >>= fun _ => OutStreams.scan peerId len (index + 1)
  | none => OutStreams.scan peerId len (index + 1)

/-- The rest of the call. -/
def rest (peerId : PeerId) : Point → Waiting (Option WrappedStream)
  | .spawn => newRelayStream peerId
  | .readLen waitTime => Prog.read List.length >>= fun len =>
      OutStreams.scan peerId len 0 >>= after peerId waitTime
  | .pop waitTime len index => Prog.update List.tail List.head? >>= fun relayStreamOption =>
      popped peerId len index relayStreamOption >>= after peerId waitTime
  | .push waitTime len index relayStream => Prog.write (· ++ [relayStream]) >>= fun _ =>
      OutStreams.scan peerId len (index + 1) >>= after peerId waitTime
  | .sleep waitTime => after peerId waitTime none
  | .returned relayStream => .ret relayStream

variable {p : PeerId} {t len index : ℕ} {queue : List WrappedStream}

theorem rest_wait : (wait t).rest p = waitForOutPeerRelayStream p t := by
  rw [waitForOutPeerRelayStream, wait]
  split
  · rfl
  · rfl

theorem rest_scan : (scan t len index).rest p = OutStreams.scan p len index >>= after p t := by
  rw [OutStreams.scan, scan]
  split
  · rfl
  · rfl

/-- One operation of the call is one step of where it is. -/
theorem operate_rest (pt : Point) :
    waiting.operate () queue (pt.rest p) =
      (pt.next p queue).map fun r => ⟨r.1.rest p, r.2.1, [], r.2.2⟩ := by
  cases pt with
  | spawn =>
    rw [next, Option.map_some, rest_wait]
    rfl
  | readLen t =>
    rw [next, Option.map_some, rest_scan]
    rfl
  | pop t len index =>
    cases queue with
    | nil =>
      rw [next, Option.map_some, rest_scan]
      rfl
    | cons relayStream queue =>
      change some (⟨(if _ then _ else _) >>= _, _, _, _⟩ : Reply _ _ _ (Waiting _)) = _
      rw [next]
      split
      · rfl
      · rfl
  | push t len index relayStream =>
    rw [next, Option.map_some, rest_scan]
    rfl
  | sleep t =>
    rw [next, Option.map_some, rest_wait]
    rfl
  | returned relayStream => rfl

/-! ## What a call holds -/

def hand : Point → Option WrappedStream
  | .push _ _ _ relayStream => some relayStream
  | _ => none

def result : Point → Option WrappedStream
  | .returned relayStream => relayStream
  | _ => none

/-- The streams that are with the call. -/
def held (pt : Point) : List WrappedStream := pt.hand.toList ++ pt.result.toList

/-- The stream in hand is for another peer, the returned one for the peer of the call. -/
structure Right (p : PeerId) (pt : Point) : Prop where
  hand : ∀ w, pt.hand = some w → w.remotePeerId ≠ p
  result : ∀ w, pt.result = some w → w.remotePeerId = p

@[simp] theorem hand_wait : (wait t).hand = none := by
  unfold wait
  split <;> rfl

@[simp] theorem result_wait : (wait t).result = none := by
  unfold wait
  split <;> rfl

@[simp] theorem hand_scan : (scan t len index).hand = none := by
  unfold scan
  split <;> rfl

@[simp] theorem result_scan : (scan t len index).result = none := by
  unfold scan
  split <;> rfl

theorem held_wait : (wait t).held = [] := by simp [held]

theorem held_scan : (scan t len index).held = [] := by simp [held]

theorem right_wait : Right p (wait t) := ⟨by simp, by simp⟩

theorem right_scan : Right p (scan t len index) := ⟨by simp, by simp⟩

variable {pt pt' : Point} {queue' : List WrappedStream} {spawned : List PeerId}

/-- An operation loses no stream and makes none. -/
theorem next_held (h : pt.next p queue = some (pt', queue', spawned)) :
    (queue' ++ pt'.held).Perm (queue ++ pt.held) := by
  cases pt with
  | spawn | sleep =>
    cases h
    rw [held_wait]
    exact List.Perm.refl _
  | readLen =>
    cases h
    rw [held_scan]
    exact List.Perm.refl _
  | pop t len index =>
    cases queue with
    | nil =>
      cases h
      rw [held_scan]
      exact List.Perm.refl _
    | cons w queue =>
      have hrotate : (queue ++ [w]).Perm (w :: queue ++ []) := by simp
      rw [next] at h
      split at h
      · cases h
        exact hrotate
      · cases h
        exact hrotate
  | push t len index w =>
    cases h
    rw [held_scan, List.append_nil]
    exact List.Perm.refl _
  | returned => cases h

theorem next_right (h : pt.next p queue = some (pt', queue', spawned)) : Right p pt' := by
  cases pt with
  | spawn | sleep =>
    cases h
    exact right_wait
  | readLen | push =>
    cases h
    exact right_scan
  | pop t len index =>
    cases queue with
    | nil =>
      cases h
      exact right_scan
    | cons w queue =>
      rw [next] at h
      split at h
      · next heq =>
        cases h
        exact ⟨by simp [hand], by simp [result, heq]⟩
      · next hne =>
        cases h
        exact ⟨by simp [hand, hne], by simp [result]⟩
  | returned => cases h

end Point

/-! ## All calls of a node -/

/-- A request for a stream, and how many calls had been made when it was sent. -/
structure NodeNewStream where
  peerId : PeerId
  calls : ℕ
  deriving DecidableEq

structure Call where
  peerId : PeerId
  point : Point
  deriving DecidableEq

/-- The queue of a node, the calls made so far, the spawned tasks that have not sent their request
and the requests for which no stream has been opened. -/
structure State where
  relayOutStreams : List WrappedStream := []
  calls : List Call := []
  tasks : List PeerId := []
  requests : List NodeNewStream := []
  /-- history: the streams that have arrived and the requests they were opened for -/
  arrived : List (WrappedStream × NodeNewStream) := []
  deriving DecidableEq

inductive Event where
  /-- of `new_relay_stream` -/
  | call (peerId : PeerId)
  /-- of `wait_for_out_peer_relay_stream` alone -/
  | wait (peerId : PeerId)
  | turn (i : ℕ)
  | send (j : ℕ)
  /-- the stream for a request is opened and arrives, in any order -/
  | opened (j : ℕ) (w : WrappedStream)
  | failed (j : ℕ)

def step (s : State) : Event → Option (State × List Unit)
  | .call p => some ({ s with calls := s.calls ++ [⟨p, .spawn⟩] }, [])
  | .wait p => some ({ s with calls := s.calls ++ [⟨p, .wait 0⟩] }, [])
  | .turn i =>
    match s.calls[i]? with
    | none => none
    | some c =>
      match c.point.next c.peerId s.relayOutStreams with
      | none => none
      | some (point, relayOutStreams, spawned) =>
        some ({ s with
          relayOutStreams
          calls := s.calls.set i { c with point }
          tasks := s.tasks ++ spawned }, [])
  | .send j =>
    match s.tasks[j]? with
    | none => none
    | some p => some ({ s with
        tasks := s.tasks.eraseIdx j
        requests := s.requests ++ [⟨p, s.calls.length⟩] }, [])
  | .opened j w =>
    match s.requests[j]? with
    | none => none
    | some r =>
      if w.remotePeerId = r.peerId ∧ ∀ a ∈ s.arrived, a.1.streamId ≠ w.streamId then
        some ({ s with
          relayOutStreams := s.relayOutStreams ++ [w]
          requests := s.requests.eraseIdx j
          arrived := s.arrived ++ [(w, r)] }, [])
      else none
  | .failed j =>
    if j < s.requests.length then some ({ s with requests := s.requests.eraseIdx j }, [])
    else none

variable {s s' : State} {e : Event} {es : List Event} {o os : List Unit}

theorem step_turn {i : ℕ} {c : Call} {pt : Point} {queue : List WrappedStream}
    {spawned : List PeerId} (hc : s.calls[i]? = some c)
    (hn : c.point.next c.peerId s.relayOutStreams = some (pt, queue, spawned)) :
    step s (.turn i) = some ({ s with
      relayOutStreams := queue
      calls := s.calls.set i ⟨c.peerId, pt⟩
      tasks := s.tasks ++ spawned }, []) := by
  simp only [step, hc, hn]

theorem step_opened {j : ℕ} {w : WrappedStream} {r : NodeNewStream} (hr : s.requests[j]? = some r)
    (hp : w.remotePeerId = r.peerId) (hid : ∀ a ∈ s.arrived, a.1.streamId ≠ w.streamId) :
    step s (.opened j w) = some ({ s with
      relayOutStreams := s.relayOutStreams ++ [w]
      requests := s.requests.eraseIdx j
      arrived := s.arrived ++ [(w, r)] }, []) := by
  simp only [step, hr]
  exact if_pos ⟨hp, hid⟩

/-- What an event can do. -/
theorem step_cases (h : step s e = some (s', o)) :
    (∃ p pt, (e = .call p ∧ pt = .spawn ∨ e = .wait p ∧ pt = .wait 0) ∧
      s' = { s with calls := s.calls ++ [⟨p, pt⟩] }) ∨
    (∃ i c pt queue spawned, e = .turn i ∧ s.calls[i]? = some c ∧
      c.point.next c.peerId s.relayOutStreams = some (pt, queue, spawned) ∧
      s' = { s with
        relayOutStreams := queue
        calls := s.calls.set i ⟨c.peerId, pt⟩
        tasks := s.tasks ++ spawned }) ∨
    (∃ j p, e = .send j ∧ s.tasks[j]? = some p ∧
      s' = { s with
        tasks := s.tasks.eraseIdx j
        requests := s.requests ++ [⟨p, s.calls.length⟩] }) ∨
    (∃ j w r, e = .opened j w ∧ s.requests[j]? = some r ∧ w.remotePeerId = r.peerId ∧
      (∀ a ∈ s.arrived, a.1.streamId ≠ w.streamId) ∧
      s' = { s with
        relayOutStreams := s.relayOutStreams ++ [w]
        requests := s.requests.eraseIdx j
        arrived := s.arrived ++ [(w, r)] }) ∨
    ∃ j, e = .failed j ∧ s' = { s with requests := s.requests.eraseIdx j } := by
  cases e with
  | call p =>
    cases h
    exact Or.inl ⟨p, _, Or.inl ⟨rfl, rfl⟩, rfl⟩
  | wait p =>
    cases h
    exact Or.inl ⟨p, _, Or.inr ⟨rfl, rfl⟩, rfl⟩
  | turn i =>
    simp only [step] at h
    split at h
    · cases h
    · next c hc =>
      split at h
      · cases h
      · next hn =>
        cases h
        exact Or.inr (Or.inl ⟨i, c, _, _, _, rfl, hc, hn, rfl⟩)
  | send j =>
    simp only [step] at h
    split at h
    · cases h
    · next p hp =>
      cases h
      exact Or.inr (Or.inr (Or.inl ⟨j, p, rfl, hp, rfl⟩))
  | opened j w =>
    simp only [step] at h
    split at h
    · cases h
    · next r hr =>
      split at h
      · next hw =>
        cases h
        exact Or.inr (Or.inr (Or.inr (Or.inl ⟨j, w, r, rfl, hr, hw.1, hw.2, rfl⟩)))
      · cases h
  | failed j =>
    simp only [step] at h
    split at h
    · cases h
      exact Or.inr (Or.inr (Or.inr (Or.inr ⟨j, rfl, rfl⟩)))
    · cases h

end WhiteNoise.OutStreams
