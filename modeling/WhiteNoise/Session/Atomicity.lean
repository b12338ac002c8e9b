import WhiteNoise.Network.Ideal
import WhiteNoise.Session.Operations

/-! # A close between the look and the write

Attaching a stream to a session looks the entry up under one lock and writes it
under another. A close that removes the entry in between makes an unwrap fail or
is undone by the write.
-/

namespace WhiteNoise.Atomicity

open Wire Process

section Generic

variable [Codec] [Crypto]

/-- The two operations that attach a stream: the end of `new_session_to_peer`, and
`handle_set_session`. -/
inductive Part where
  | put
  | set (relayId : String)

/-- An operation on one session: its kind, its stream and the role it brings. -/
structure Attaching where
  part : Part
  sid : String
  stream : WrappedStream
  role : Int32

namespace Attaching

def body (a : Attaching) : Async Unit :=
  match a.part with
  | .put => Node.putSession a.stream a.sid a.role
  | .set relayId => handleSetSession ⟨a.sid, a.role⟩ a.stream relayId

/-- The entry of a session that the operation makes. -/
def fresh (a : Attaching) : Session := Session.attach a.sid a.role a.stream none

def attached (a : Attaching) (session : Session) : Session :=
  Session.attach a.sid a.role a.stream (some session)

/-- The operation closes this session itself. -/
def closes (a : Attaching) (session : Session) : Bool :=
  match a.part with
  | .put => false
  | .set _ => Session.isRefused ⟨a.sid, a.role⟩ session

/-- The lock acquisitions up to the last write to the session map. -/
def span (a : Attaching) : ℕ :=
  match a.part with
  | .put => 3
  | .set _ => 2

end Attaching

/-- The operation and a close of its session, as two tasks of a node. -/
def pool (s : Shared) (a : Attaching) : NodePool where
  state := s
  threads := [do
    a.body
    return none, do
    Node.handleCloseSession a.sid
    return none]

/-- The entry that is left if one program runs after the other. -/
def LeftBy (node : Node) (s : Shared) (first second : Async Unit) (sid : String)
    (entry : Option Session) : Prop :=
  ∃ cs cs' r r', (nodeSemantics node).exec first cs s = some r ∧
    (nodeSemantics node).exec second cs' r.state = some r' ∧ r'.state.sessionMap sid = entry

/-- No unwrap has failed, and the entry is the one left by some order of the two. -/
def Atomic (node : Node) (s : Shared) (a : Attaching) (p : NodePool) : Prop :=
  (∀ t ∈ p.threads, t ≠ .fail) ∧
    (LeftBy node s a.body (Node.handleCloseSession a.sid) a.sid (p.state.sessionMap a.sid) ∨
      LeftBy node s (Node.handleCloseSession a.sid) a.body a.sid (p.state.sessionMap a.sid))

/-- The turns of the operation before the first turn of the close, its removal of the entry. -/
def before (turns : List ℕ) : ℕ := (turns.takeWhile (· = 0)).length

/-- There is no entry, the operation closes it itself, or the removal comes before the operation
looks or after its last write. -/
def Undivided (s : Shared) (a : Attaching) (turns : List ℕ) : Prop :=
  (s.sessionMap a.sid).all a.closes ∨ before turns = 0 ∨ a.span ≤ before turns

/-! ## One operation, seen from the session map -/

/-- Between two accesses of the operation to the session map. -/
inductive Position where
  | start | relook | insert (session : Session) | closing | joining | done | dead
  deriving DecidableEq

namespace Attaching

/-- Where the first look leads. -/
def looked (a : Attaching) : Option Session → Position
  | none => .insert a.fresh
  | some session =>
    match a.part with
    | .put => .relook
    | .set _ =>
      if session.sessionRole = SessionRole.entryRole.toI32 ∧
          a.role = SessionRole.relayRole.toI32 then
        if session.ready then .insert (a.attached session) else .closing
      else .joining

/-- The next access, as a function of the entry. -/
def next (a : Attaching) : Position × Option Session → Position × Option Session
  | (.start, entry) => (a.looked entry, entry)
  | (.relook, none) => (.dead, none)
  | (.relook, some session) => (.insert (a.attached session), some session)
  | (.insert session, _) => (.done, some session)
  | (.closing, _) => (.done, none)
  | (.joining, none) => (.dead, none)
  | (.joining, some session) => (.done, some (a.attached session))
  | (.done, entry) => (.done, entry)
  | (.dead, entry) => (.dead, entry)

/-- The operation alone, `n` turns of it. -/
def alone (a : Attaching) (entry : Option Session) (n : ℕ) : Position × Option Session :=
  a.next^[n] (.start, entry)

end Attaching

/-- Nothing is left to do to the session map, and nothing can fail. -/
def Calm : Thread → Prop
  | .ret a => a = none
  | .fail => False
  | .atomic f k => (∀ s, (f s).sessionMap = s.sessionMap) ∧ ∀ s, Calm (k s)
  | .act a k => a.Quiet ∧ ∀ r, Calm (k r)

/-- The rest of the operation. -/
def At (a : Attaching) : Position → Thread → Prop
  | .start, t => t = (do
      a.body
      return none)
  | .relook, t => t = (do
      let session ← Prog.unwrap (← Async.getSession a.sid)
      Async.insertSession a.sid (a.attached session)
      return none)
  | .insert session, t =>
    ∃ k, t = .atomic (Shared.setEntry a.sid (some session)) k ∧ ∀ s, Calm (k s)
  | .closing, t => t = (do
      Node.handleCloseSession a.sid
      return none)
  | .joining, t =>
    ∃ k, t = .atomic (Shared.joinSession a.sid a.stream) k ∧
      (∀ s, s.sessionMap a.sid = none → k s = .fail) ∧
      ∀ s, s.sessionMap a.sid ≠ none → Calm (k s)
  | .done, t => Calm t
  | .dead, t => t = .fail

variable {node : Node} {s : Shared} {a : Attaching} {t : Thread} {c : Choice} {sid : String}
  {r : Reply Shared Task Output Thread} {pos : Position} {entry : Option Session} {n : ℕ}

omit [Codec] in
theorem ended_of_ne_fail (ht : t.isEnded) (h : t ≠ .fail) : t.isDone := by
  cases t with
  | ret a => cases a with
    | none => rfl
    | some _ => cases ht
  | fail => exact absurd rfl h
  | _ => cases ht

omit [Codec] in
theorem Calm.ended (h : Calm t) (ht : t.isEnded) : t = .ret none := by
  cases t with
  | ret a => rw [show a = none from h]
  | fail => exact h.elim
  | _ => cases ht

/-- A calm task stays calm and leaves the session map alone. -/
theorem Calm.advance (h : Calm t) (hr : (nodeSemantics node).advance c s t = some r) :
    Calm r.answer ∧ r.state.sessionMap = s.sessionMap ∧ r.spawned = [] := by
  cases t with
  | ret a =>
    obtain rfl : a = none := h
    cases hr
  | fail => cases hr
  | atomic f k =>
    cases hr
    exact ⟨h.2 s, h.1 s, rfl⟩
  | act b k =>
    obtain ⟨x, hx, rfl⟩ := Semantics.advance_act hr
    obtain ⟨hs, hsp⟩ := reply_quiet h.1 hx
    exact ⟨h.2 _, by rw [hs], hsp⟩

omit [Codec] in
theorem calm_sendAck {peer : PeerId} {ack : Ack} :
    Calm (Node.sendAck peer ack >>= fun _ => .ret none) := ⟨trivial, fun _ => rfl⟩

theorem calm_writeRelayArc {w : WrappedStream} {relay : Relay} {g : String → Thread}
    (hg : ∀ key, Calm (g key)) : Calm (writeRelayArc w relay >>= g) :=
  ⟨Nat.succ_pos _, fun _ => ⟨trivial, fun _ => hg _⟩⟩

omit [Codec] in
/-- After the removal, a close has nothing more to do to the session map. -/
theorem calm_close (sid : String) : ∃ k, (Node.handleCloseSession sid >>= fun _ => Prog.ret none) =
    .atomic (Shared.setEntry sid none) k ∧ ∀ s, Calm (k s) := by
  have htail : Calm (do
      Async.removeCircuit sid
      Async.removeProbe sid
      return none) :=
    ⟨fun _ => rfl, fun _ => ⟨fun _ => rfl, fun _ => rfl⟩⟩
  obtain ⟨k, hk, hrest⟩ := Node.handleCloseSession_rest sid
    (P := fun p => Calm (p >>= fun _ => .ret none)) htail fun w p hp => ⟨trivial, fun _ => hp⟩
  rw [hk]
  exact ⟨_, rfl, hrest⟩

theorem at_insert {session : Session} {g : Unit → Thread} (hg : Calm (g ())) :
    At a (.insert session) (Async.insertSession a.sid session >>= g) :=
  ⟨fun _ => g (), rfl, fun _ => hg⟩

/-- The first access of the operation is a look. -/
theorem start_eq (a : Attaching) : ∃ k, (a.body >>= fun _ => Prog.ret none) = .atomic id k ∧
    ∀ s : Shared, At a (a.looked (s.sessionMap a.sid)) (k s) := by
  obtain ⟨part, sid, w, role⟩ := a
  cases part with
  | put =>
    simp only [Attaching.body, Node.putSession, Async.getSession, Prog.read_bind, Prog.atomic_bind]
    refine ⟨_, rfl, ?_⟩
    intro s
    cases s.sessionMap sid with
    | none => exact at_insert (g := fun _ => .ret none) rfl
    | some session =>
      simp only [Option.isNone_some, Bool.false_eq_true, if_false, Prog.atomic_bind, bind_assoc]
      rfl
  | set relayId =>
    simp only [Attaching.body, handleSetSession, Async.getSession, Prog.read_bind, Prog.atomic_bind]
    refine ⟨_, rfl, ?_⟩
    intro s
    cases s.sessionMap sid with
    | none => exact at_insert (g := fun _ => _ >>= _) calm_sendAck
    | some session =>
      simp only [Attaching.looked]
      split
      · split
        · next hready =>
          obtain ⟨later, hlater⟩ : ∃ later, session.pairStream.laterStream = some later := by
            simp only [Session.ready, Bool.and_eq_true, Option.isSome_iff_exists] at hready
            exact hready.2
          simp only [hlater, Prog.unwrap_some, Prog.ret_bind, writeDisconnectArc, bind_assoc]
          exact at_insert (calm_writeRelayArc fun _ => ⟨trivial, fun _ => calm_sendAck⟩)
        · rfl
      · simp only [Prog.update_bind, Prog.atomic_bind]
        refine ⟨_, rfl, ?_, ?_⟩
        · intro s hs
          simp [hs]
        · intro s hs
          obtain ⟨session, hs⟩ := Option.ne_none_iff_exists'.mp hs
          simp only [hs, Option.isSome_some, if_true]
          exact calm_sendAck

/-- One turn of the operation is one access to the session map. -/
theorem At.advance (h : At a pos t) (hr : (nodeSemantics node).advance c s t = some r) :
    At a (a.next (pos, s.sessionMap a.sid)).1 r.answer ∧
      r.state.sessionMap a.sid = (a.next (pos, s.sessionMap a.sid)).2 ∧ r.spawned = [] := by
  cases pos with
  | start =>
    obtain ⟨k, hk, hlook⟩ := start_eq a
    rw [show t = _ from h, Prog.pure_eq, hk] at hr
    cases hr
    exact ⟨hlook s, rfl, rfl⟩
  | relook =>
    rw [show t = _ from h] at hr
    cases hr
    cases hs : s.sessionMap a.sid with
    | none => exact ⟨by simp [hs, At, Attaching.next], hs, rfl⟩
    | some session =>
      refine ⟨?_, hs, rfl⟩
      simp only [hs, Attaching.next]
      exact at_insert rfl
  | insert session =>
    obtain ⟨k, rfl, hk⟩ := h
    cases hr
    exact ⟨hk s, Function.update_self .., rfl⟩
  | closing =>
    obtain ⟨k, hk, hcalm⟩ := calm_close a.sid
    rw [show t = _ from h, Prog.pure_eq, hk] at hr
    cases hr
    exact ⟨hcalm s, Function.update_self .., rfl⟩
  | joining =>
    obtain ⟨k, rfl, hfail, hcalm⟩ := h
    cases hr
    cases hs : s.sessionMap a.sid with
    | none => exact ⟨hfail s hs, by simp [Shared.joinSession, hs, Attaching.next], rfl⟩
    | some session =>
      refine ⟨hcalm s (by simp [hs]), ?_, rfl⟩
      simp only [Shared.joinSession, hs, Function.update_self]
      rfl
  | done =>
    obtain ⟨hc, hs, hsp⟩ := Calm.advance h hr
    exact ⟨hc, congrFun hs _, hsp⟩
  | dead =>
    rw [show t = _ from h] at hr
    cases hr

theorem At.ended (h : At a pos t) (ht : t.isEnded) : pos = .done ∨ pos = .dead := by
  cases pos with
  | start =>
    obtain ⟨k, hk, -⟩ := start_eq a
    rw [show t = _ from h, Prog.pure_eq, hk] at ht
    cases ht
  | closing =>
    obtain ⟨k, hk, -⟩ := calm_close a.sid
    rw [show t = _ from h, Prog.pure_eq, hk] at ht
    cases ht
  | relook =>
    rw [show t = _ from h] at ht
    cases ht
  | insert | joining =>
    obtain ⟨k, rfl, -⟩ := h
    cases ht
  | done => exact Or.inl rfl
  | dead => exact Or.inr rfl

/-! ## Before and after the removal -/

/-- After the removal: the operation is going to leave the entry it makes anew, or none. -/
def Kept (a : Attaching) : Position → Option Session → Prop
  | .start, entry => entry = none
  | .insert session, entry => session = a.fresh ∧ (entry = none ∨ entry = some a.fresh)
  | .closing, entry => entry = none
  | .done, entry => entry = none ∨ entry = some a.fresh
  | _, _ => False

/-- After the removal: the operation is going to fail or to bring the removed entry back. -/
def Lost : Position → Option Session → Prop
  | .relook, entry => entry = none
  | .insert session, _ => session.pairStream.laterStream.isSome
  | .joining, entry => entry = none
  | .done, entry => entry.any fun session => session.pairStream.laterStream.isSome
  | .dead, _ => True
  | _, _ => False

omit [Codec] [Crypto] in
theorem Kept.next (h : Kept a pos entry) : Kept a (a.next (pos, entry)).1 (a.next (pos, entry)).2 := by
  cases pos with
  | start =>
    obtain rfl : entry = none := h
    exact ⟨rfl, Or.inl rfl⟩
  | insert session =>
    obtain ⟨rfl, -⟩ := h
    exact Or.inr rfl
  | closing => exact Or.inl rfl
  | done => exact h
  | _ => exact h.elim

omit [Codec] [Crypto] in
theorem Lost.next (h : Lost pos entry) : Lost (a.next (pos, entry)).1 (a.next (pos, entry)).2 := by
  cases pos with
  | relook | joining =>
    obtain rfl : entry = none := h
    trivial
  | insert session => exact h
  | done => exact h
  | dead => trivial
  | _ => exact h.elim

omit [Codec] [Crypto] in
theorem alone_succ : a.alone entry (n + 1) = a.next (a.alone entry n) :=
  Function.iterate_succ_apply' ..

omit [Codec] [Crypto] in
theorem alone_done {e : Option Session} (h : a.alone entry n = (.done, e)) {m : ℕ} (hm : n ≤ m) :
    a.alone entry m = (.done, e) := by
  induction m, hm using Nat.le_induction with
  | base => exact h
  | succ m _ ih => rw [alone_succ, ih]; rfl

omit [Codec] [Crypto] in
theorem alone_two_set {relayId : String} (ha : a.part = .set relayId) (session : Session) :
    ∃ e, a.alone (some session) 2 = (.done, e) ∧ (a.closes session → e = none) := by
  change ∃ e, a.next (a.looked (some session), some session) = (.done, e) ∧ _
  simp only [Attaching.looked, Attaching.closes, ha, Session.isRefused]
  split
  · split
    · next hready => exact ⟨_, rfl, by simp [hready]⟩
    · exact ⟨_, rfl, fun _ => rfl⟩
  · next hrole => exact ⟨_, rfl, fun h => absurd ((of_decide_eq_true h).imp_right And.left) hrole⟩

omit [Codec] [Crypto] in
theorem kept_of_undivided (hu : entry.all a.closes ∨ n = 0 ∨ a.span ≤ n) :
    Kept a (a.alone entry n).1 none := by
  rcases Nat.eq_zero_or_pos n with rfl | hpos
  · exact rfl
  cases entry with
  | none =>
    rcases Nat.lt_or_ge n 2 with hlt | hge
    · obtain rfl : n = 1 := by omega
      exact ⟨rfl, Or.inl rfl⟩
    · rw [alone_done (n := 2) rfl hge]
      exact Or.inl rfl
  | some session =>
    simp only [Option.all_some] at hu
    cases hpart : a.part with
    | put =>
      have hspan : a.span = 3 := by simp only [Attaching.span, hpart]
      have hcloses : a.closes session = false := by simp only [Attaching.closes, hpart]
      have hdone : ∃ e, a.alone (some session) 3 = (.done, e) := by
        refine ⟨some (a.attached session), ?_⟩
        change a.next (a.next (a.looked (some session), some session)) = _
        simp only [Attaching.looked, hpart]
        rfl
      obtain ⟨e, he⟩ := hdone
      rw [alone_done he (by simp [hcloses] at hu; omega)]
      exact Or.inl rfl
    | set relayId =>
      have hspan : a.span = 2 := by simp only [Attaching.span, hpart]
      obtain ⟨e, he, hnone⟩ := alone_two_set hpart session
      rcases Nat.lt_or_ge n 2 with hlt | hge
      · obtain rfl : n = 1 := by omega
        have hc : a.closes session := by
          rcases hu with hu | hu | hu
          · exact hu
          · omega
          · omega
        have hlooked : a.looked (some session) = .closing := by
          simp only [Attaching.closes, hpart, Session.isRefused, decide_eq_true_eq,
            Bool.not_eq_true'] at hc
          simp [Attaching.looked, hpart, hc.1, hc.2.1, hc.2.2]
        change Kept a (a.looked (some session)) none
        rw [hlooked]
        rfl
      · rw [alone_done he hge]
        exact Or.inl rfl

omit [Codec] [Crypto] in
theorem lost_of_divided (hu : ¬ (entry.all a.closes ∨ n = 0 ∨ a.span ≤ n)) :
    Lost (a.alone entry n).1 none := by
  obtain ⟨hc, hpos, hlt⟩ := by simpa only [not_or] using hu
  cases entry with
  | none => exact absurd rfl hc
  | some session =>
    simp only [Option.all_some] at hc
    cases hpart : a.part with
    | put =>
      simp only [Attaching.span, hpart] at hlt
      have hlooked : a.looked (some session) = .relook := by simp only [Attaching.looked, hpart]
      obtain rfl | rfl : n = 1 ∨ n = 2 := by omega
      · change Lost (a.looked (some session)) none
        rw [hlooked]
        rfl
      · change Lost (a.next (a.looked (some session), some session)).1 none
        rw [hlooked]
        rfl
    | set relayId =>
      simp only [Attaching.span, hpart] at hlt
      obtain rfl : n = 1 := by omega
      change Lost (a.looked (some session)) none
      simp only [Attaching.closes, hpart, Session.isRefused, decide_eq_true_eq, Bool.not_eq_true',
        not_and, Bool.not_eq_false] at hc
      simp only [Attaching.looked, hpart]
      split
      · next hrole =>
        rw [if_pos (hc hrole.1 hrole.2)]
        rfl
      · rfl

/-! ## The two tasks -/

/-- The schedule so far, seen from the session map. -/
inductive Phase (a : Attaching) (entry : Option Session) (turns : List ℕ) (pos : Position)
    (now : Option Session) (closer : Thread) : Prop
  | unremoved (hturns : turns = List.replicate turns.length 0)
      (halone : (pos, now) = a.alone entry turns.length)
      (hcloser : closer = Node.handleCloseSession a.sid >>= fun _ => Prog.ret none)
  | removed (n : ℕ) (rest : List ℕ) (hturns : turns = List.replicate n 0 ++ 1 :: rest)
      (hcloser : Calm closer)
      (hkept : entry.all a.closes ∨ n = 0 ∨ a.span ≤ n → Kept a pos now)
      (hlost : ¬ (entry.all a.closes ∨ n = 0 ∨ a.span ≤ n) → Lost pos now)

structure Stage (a : Attaching) (entry : Option Session) (turns : List ℕ) (p : NodePool) : Prop where
  phase : ∃ t closer pos, p.threads = [t, closer] ∧ At a pos t ∧
    Phase a entry turns pos (p.state.sessionMap a.sid) closer

theorem Stage.init (s : Shared) (a : Attaching) :
    Stage a (s.sessionMap a.sid) [] (pool s a) :=
  ⟨⟨_, _, .start, rfl, rfl, .unremoved rfl rfl rfl⟩⟩

theorem Stage.turn {turns : List ℕ} {p p' : NodePool} {e : ℕ × Choice} {os : List Output}
    (h : Stage a entry turns p) (hs : (nodeSemantics node).turn p e = some (p', os)) :
    Stage a entry (turns ++ [e.1]) p' := by
  obtain ⟨t, closer, pos, hth, hat, hphase⟩ := h
  obtain ⟨u, r, hu, hr, hst, hts, -⟩ := Semantics.step_eq_some _ hs
  rw [hth] at hu hts
  match hi : e.1 with
  | 0 =>
    rw [hi] at hu hts
    obtain rfl : t = u := Option.some.inj hu
    obtain ⟨hat', hnow, hsp⟩ := hat.advance hr
    refine ⟨r.answer, closer, _, by simpa [hsp] using hts, hat', ?_⟩
    rw [hst, hnow]
    cases hphase with
    | unremoved hturns halone hcloser =>
      refine .unremoved ?_ ?_ hcloser
      · rw [List.length_append, List.length_singleton, List.replicate_succ', ← hturns]
      · rw [List.length_append, List.length_singleton, alone_succ, ← halone]
    | removed n rest hturns hcloser hkept hlost =>
      exact .removed n (rest ++ [0]) (by simp [hturns]) hcloser (fun hu => (hkept hu).next)
        fun hu => (hlost hu).next
  | 1 =>
    rw [hi] at hu hts
    obtain rfl : closer = u := Option.some.inj hu
    cases hphase with
    | unremoved hturns halone hcloser =>
      obtain ⟨k, hk, hcalm⟩ := calm_close a.sid
      rw [hcloser, hk] at hr
      cases hr
      refine ⟨t, _, pos, by simpa using hts, hat, ?_⟩
      have hnow : p'.state.sessionMap a.sid = none := by
        rw [hst]
        exact Function.update_self ..
      have hpos : pos = (a.alone entry turns.length).1 := congrArg Prod.fst halone
      rw [hnow, hpos]
      exact .removed turns.length [] (by rw [← hturns]) (hcalm _) kept_of_undivided lost_of_divided
    | removed n rest hturns hcloser hkept hlost =>
      obtain ⟨hcalm, hmap, hsp⟩ := hcloser.advance hr
      refine ⟨t, r.answer, pos, by simpa [hsp] using hts, hat, ?_⟩
      rw [hst, hmap]
      exact .removed n (rest ++ [1]) (by simp [hturns]) hcalm hkept hlost
  | i + 2 =>
    rw [hi] at hu
    cases hu

theorem reaches_stage {sched : List (ℕ × Choice)} {p : NodePool} {os : List Output}
    (h : run (nodeSemantics node).turn (pool s a) sched = some (p, os)) :
    Stage a (s.sessionMap a.sid) (sched.map Prod.fst) p := by
  refine run_induction (P := fun es t _ => Stage a (s.sessionMap a.sid) (es.map Prod.fst) t)
    (.init s a) ?_ h
  intro es t os e t' o hstage hstep
  rw [List.map_append]
  exact hstage.turn hstep

/-! ## One operation after the other -/

theorem exec_body {cs : List Choice} {r : Reply Shared Task Output (Option Unit)}
    (h : (nodeSemantics node).exec a.body cs s = some r) (hs : s.sessionMap a.sid = none) :
    r.state.sessionMap a.sid = some a.fresh := by
  obtain ⟨part, sid, w, role⟩ := a
  cases part with
  | put =>
    obtain rfl := exec_putSession h
    change Function.update s.sessionMap sid _ sid = _
    rw [Function.update_self, show s.sessionMap sid = none from hs]
    rfl
  | set relayId =>
    obtain ⟨-, -, hst⟩ := exec_handleSetSession h
    rw [show s.sessionMap sid = none from hs] at hst
    rw [hst]
    exact Function.update_self ..

theorem body_prompt : Prompt a.body := by
  unfold Attaching.body
  cases a.part with
  | put => exact putSession_prompt
  | set relayId => exact handleSetSession_prompt

theorem leftBy_closeLast_iff :
    LeftBy node s a.body (Node.handleCloseSession a.sid) a.sid entry ↔ entry = none := by
  constructor
  · rintro ⟨cs, cs', r, r', h, h', rfl⟩
    obtain ⟨-, hst, -⟩ := exec_handleCloseSession h'
    rw [hst]
    exact Function.update_self ..
  · rintro rfl
    obtain ⟨cs, r, h⟩ := (body_prompt (a := a)).exec node s
    obtain ⟨cs', r', h'⟩ := (handleCloseSession_prompt a.sid).exec node r.state
    obtain ⟨-, hst, -⟩ := exec_handleCloseSession h'
    refine ⟨cs, cs', r, r', h, h', ?_⟩
    rw [hst]
    exact Function.update_self ..

theorem leftBy_closeFirst_iff :
    LeftBy node s (Node.handleCloseSession a.sid) a.body a.sid entry ↔ entry = some a.fresh := by
  constructor
  · rintro ⟨cs, cs', r, r', h, h', rfl⟩
    obtain ⟨-, hst, -⟩ := exec_handleCloseSession h
    refine exec_body h' ?_
    rw [hst]
    exact Function.update_self ..
  · rintro rfl
    obtain ⟨cs, r, h⟩ := (handleCloseSession_prompt a.sid).exec node s
    obtain ⟨cs', r', h'⟩ := (body_prompt (a := a)).exec node r.state
    obtain ⟨-, hst, -⟩ := exec_handleCloseSession h
    refine ⟨cs, cs', r, r', h, h', exec_body h' ?_⟩
    rw [hst]
    exact Function.update_self ..

omit [Codec] [Crypto] in
theorem before_replicate (n : ℕ) (rest : List ℕ) :
    before (List.replicate n 0 ++ 1 :: rest) = n := by
  simp [before]

/-- Attaching a stream and closing the session are atomic exactly when the removal does not
divide a look at an entry from the write that follows it. -/
theorem atomic_iff_undivided (node : Node) (s : Shared) (a : Attaching)
    {sched : List (ℕ × Choice)} {p : NodePool} {os : List Output}
    (h : run (nodeSemantics node).turn (pool s a) sched = some (p, os))
    (hp : p.threads.all Prog.isEnded) :
    Atomic node s a p ↔ Undivided s a (sched.map Prod.fst) := by
  obtain ⟨t, closer, pos, hth, hat, hphase⟩ := reaches_stage h
  simp only [hth, List.all_cons, List.all_nil, Bool.and_true, Bool.and_eq_true] at hp
  rw [Atomic, leftBy_closeLast_iff, leftBy_closeFirst_iff, hth, Undivided]
  cases hphase with
  | unremoved _ _ hcloser =>
    obtain ⟨k, hk, -⟩ := calm_close a.sid
    rw [hcloser, hk] at hp
    cases hp.2
  | removed n rest hturns hcloser hkept hlost =>
    rw [hturns, before_replicate]
    constructor
    · rintro ⟨hfail, hentry⟩
      by_contra hu
      have hl := hlost hu
      rcases hat.ended hp.1 with rfl | rfl
      · rcases hentry with hentry | hentry
        · rw [hentry] at hl
          cases hl
        · rw [hentry] at hl
          cases hl
      · exact hfail t (by simp) hat
    · intro hu
      have hk := hkept hu
      rcases hat.ended hp.1 with rfl | rfl
      · refine ⟨?_, hk⟩
        rw [Calm.ended hat hp.1, hcloser.ended hp.2]
        simp
      · exact hk.elim

end Generic

/-! ## A relay node that extends a session -/

namespace Sample

def relayNode : Node := ⟨(⟨.ed25519, List.replicate 32 7⟩ : Ideal.Keypair), none, none⟩

def stream (n : ℕ) : WrappedStream := ⟨⟨"peer"⟩, n⟩

def shared : Shared where
  sessionMap sid := if sid = "session" then
    some ⟨"session", ⟨some (stream 0), none⟩, SessionRole.relayRole.toI32⟩ else none

def completion : Attaching := ⟨.put, "session", stream 1, SessionRole.relayRole.toI32⟩

/-- The completion, then the close. -/
def inTurn : List (ℕ × Choice) :=
  [(0, .go), (0, .go), (0, .go), (1, .go), (1, .go), (1, .go), (1, .go), (1, .go)]

/-- The close takes the entry between the two looks of the completion. -/
def relooking : List (ℕ × Choice) :=
  [(0, .go), (1, .go), (1, .go), (1, .go), (1, .go), (0, .go)]

/-- The close takes the entry between the second look and the write. -/
def reviving : List (ℕ × Choice) :=
  [(0, .go), (0, .go), (1, .go), (1, .go), (1, .go), (1, .go), (0, .go)]

end Sample

theorem atomic_in_turn : ∃ p os,
    run (nodeSemantics Sample.relayNode).turn (pool Sample.shared Sample.completion)
      Sample.inTurn = some (p, os) ∧ p.threads.all Prog.isEnded ∧
      Atomic Sample.relayNode Sample.shared Sample.completion p := by
  obtain ⟨p, os, hr, hp⟩ := exists_run (nodeSemantics Sample.relayNode).turn
    (pool Sample.shared Sample.completion) Sample.inTurn (fun r => r.1.threads.all Prog.isEnded)
    (by decide +kernel)
  have hu : Undivided Sample.shared Sample.completion (Sample.inTurn.map Prod.fst) :=
    Or.inr (Or.inr (by decide))
  exact ⟨p, os, hr, hp, (atomic_iff_undivided _ _ _ hr hp).mpr hu⟩

/-- The second look fails, or the closed session comes back. -/
theorem not_atomic_between :
    (∃ p os, run (nodeSemantics Sample.relayNode).turn (pool Sample.shared Sample.completion)
      Sample.relooking = some (p, os) ∧ p.threads.all Prog.isEnded ∧
      ¬ Atomic Sample.relayNode Sample.shared Sample.completion p) ∧
    ∃ p os, run (nodeSemantics Sample.relayNode).turn (pool Sample.shared Sample.completion)
      Sample.reviving = some (p, os) ∧ p.threads.all Prog.isEnded ∧
      ¬ Atomic Sample.relayNode Sample.shared Sample.completion p := by
  constructor
  · obtain ⟨p, os, hr, hp⟩ := exists_run (nodeSemantics Sample.relayNode).turn
      (pool Sample.shared Sample.completion) Sample.relooking
      (fun r => r.1.threads.all Prog.isEnded && !r.1.finished) (by decide +kernel)
    simp only [Bool.and_eq_true, Bool.not_eq_true'] at hp
    refine ⟨p, os, hr, hp.1, ?_⟩
    rintro ⟨hfail, -⟩
    have hdone : p.finished := List.all_eq_true.mpr fun t ht =>
      ended_of_ne_fail (List.all_eq_true.mp hp.1 t ht) (hfail t ht)
    simp [hp.2] at hdone
  · obtain ⟨p, os, hr, hp⟩ := exists_run (nodeSemantics Sample.relayNode).turn
      (pool Sample.shared Sample.completion) Sample.reviving
      (fun r => r.1.threads.all Prog.isEnded &&
        (r.1.state.sessionMap "session").any (·.pairStream.laterStream.isSome)) (by decide +kernel)
    simp only [Bool.and_eq_true] at hp
    refine ⟨p, os, hr, hp.1, ?_⟩
    rintro ⟨-, h | h⟩
    · have hnone : p.state.sessionMap "session" = none := leftBy_closeLast_iff.mp h
      simp [hnone] at hp
    · have hfresh : p.state.sessionMap "session" = some Sample.completion.fresh :=
        leftBy_closeFirst_iff.mp h
      rw [hfresh] at hp
      cases hp.2

end WhiteNoise.Atomicity
