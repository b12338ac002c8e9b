import WhiteNoise.Network.Ideal
import WhiteNoise.Network.Footprint

/-! # Circuits and probes without a session

A close removes the session first and its circuit and probe after it, so an
entry without a session is either on its way out or was put there when its
session had gone. No task looks for entries of the second kind again.
-/

namespace WhiteNoise.Orphans

open Wire Process

section Generic

variable [Codec] [Crypto]

/-- What a node keeps for a session beside the session itself. -/
inductive Entry where
  | circuit | probe

/-- The entry of the session is in its map. -/
def Entry.isIn (sid : String) (s : Shared) : Entry → Bool
  | circuit => (s.circuitMap sid).isSome
  | probe => (s.probeMap sid).isSome

/-- Left to run on, the program puts the session there or clears the entry: at each lock the entry
is without its session, or this is over. -/
def Mends (entry : Entry) (sid : String) {α : Type} : Async α → Prop
  | .ret _ => False
  | .fail => False
  | .atomic f k => ∀ s, s.sessionMap sid = none →
    (f s).sessionMap sid ≠ none ∨ entry.isIn sid (f s) = false ∨ Mends entry sid (k s)
  | .act _ k => ∀ r, Mends entry sid (k r)

/-- An entry is put there while its session is, or its task goes on to put the session there or to
clear the entry. -/
def InTime (p : NodePool) (e : Event) : Prop :=
  ∀ i c f k, e = .thread i c → p.threads[i]? = some (.atomic f k) → ∀ (entry : Entry) sid,
    entry.isIn sid p.state = false → entry.isIn sid (f p.state) →
      (p.state.sessionMap sid).isSome ∨ Mends entry sid (k p.state)

/-- The tasks that go around a loop. -/
def Task.isLoop : Task → Bool
  | .relayEventHandler _ _ | .processProxyRequest | .processCmdRequest | .processPublishRequest =>
    true
  | _ => false

/-- No operation is in progress: every thread has ended or waits at the head of its loop. -/
def Idle (node : Node) (p : NodePool) : Prop :=
  ∀ t ∈ p.threads, t.isEnded ∨
    ∃ task, Task.isLoop task ∧ (t = .ret (some task) ∨ t = Task.body node task)

/-- Every circuit and every probe has its session. -/
def Tidy (s : Shared) : Prop :=
  ∀ sid, ((s.circuitMap sid).isSome → (s.sessionMap sid).isSome) ∧
    ((s.probeMap sid).isSome → (s.sessionMap sid).isSome)

/-! ## What programs do to sessions and entries -/

variable {node : Node} {entry : Entry} {sid : String} {α β : Type}

/-- A removal of the session is followed by that of its entry, and the session map stays when an
entry is put there. -/
def Guarded (entry : Entry) (sid : String) : Async α → Prop
  | .ret _ => True
  | .fail => True
  | .atomic f k => (∀ s, s.sessionMap sid ≠ none →
      (f s).sessionMap sid = none → Mends entry sid (k s)) ∧
    (∀ s, entry.isIn sid s = false → entry.isIn sid (f s) → (f s).sessionMap = s.sessionMap) ∧
    ∀ s, Guarded entry sid (k s)
  | .act _ k => ∀ r, Guarded entry sid (k r)

omit [Codec] in
theorem Mends.bind {p : Async α} {g : α → Async β} (h : Mends entry sid p) :
    Mends entry sid (p >>= g) := by
  induction p with
  | ret | fail => exact h.elim
  | atomic f k ih =>
    intro s hs
    rcases h s hs with hf | hf | hf
    · exact Or.inl hf
    · exact Or.inr (Or.inl hf)
    · exact Or.inr (Or.inr (ih s hf))
  | act a k ih => exact fun r => ih r (h r)

omit [Codec] in
theorem Guarded.bind {p : Async α} {g : α → Async β} (hp : Guarded entry sid p)
    (hg : ∀ a, Guarded entry sid (g a)) : Guarded entry sid (p >>= g) := by
  induction p with
  | ret a => exact hg a
  | fail => trivial
  | atomic f k ih =>
    obtain ⟨hrem, hadd, hk⟩ := hp
    exact ⟨fun s hs hf => (hrem s hs hf).bind, hadd, fun s => ih s (hk s)⟩
  | act a k ih => exact fun r => ih r (hp r)

/-- A gentle update removes no session. -/
theorem apply_keeps {u : Update} (hu : u.Gentle) {s : Shared} (hs : s.sessionMap sid ≠ none) :
    (u.apply s).sessionMap sid ≠ none := by
  cases u with
  | session x f =>
    simp only [Update.apply]
    by_cases hx : sid = x
    · subst hx
      rw [Function.update_self, ← Option.isSome_iff_ne_none]
      exact hu _ (Option.isSome_iff_ne_none.mpr hs)
    · rwa [Function.update_of_ne hx]
  | addCircuit x stream =>
    simp only [Update.apply]
    split <;> exact hs
  | data x b =>
    simp only [Update.apply]
    split <;> exact hs
  | _ => exact hs

/-- An update that puts an entry leaves the session map alone. -/
theorem apply_adds (u : Update) {s : Shared} (hnot : entry.isIn sid s = false)
    (hin : entry.isIn sid (u.apply s)) : (u.apply s).sessionMap = s.sessionMap := by
  cases u with
  | session x f => cases entry <;> exact absurd (hnot.symm.trans hin) Bool.false_ne_true
  | addCircuit x stream =>
    simp only [Update.apply]
    split <;> rfl
  | data x b =>
    simp only [Update.apply]
    split <;> rfl
  | _ => rfl

omit [Codec] in
/-- After the session the circuit and the probe are removed. -/
theorem handleCloseSession_guarded (x : String) :
    Guarded entry sid (Node.handleCloseSession x) := by
  have htail : Guarded entry sid (do
      Async.removeCircuit x
      Async.removeProbe x) := by
    refine ⟨fun s hs hf => absurd hf hs, fun s hnot hin => rfl, fun _ => ?_⟩
    exact ⟨fun s hs hf => absurd hf hs, fun s hnot hin => rfl, fun _ => trivial⟩
  have hmends : Mends entry x (do
      Async.removeCircuit x
      Async.removeProbe x) := by
    intro s _
    cases entry with
    | circuit => exact Or.inr (Or.inl (by simp [Entry.isIn]))
    | probe => exact Or.inr (Or.inr fun s _ => Or.inr (Or.inl (by simp [Entry.isIn])))
  obtain ⟨k, hk, hrest⟩ := Node.handleCloseSession_rest x
    (P := fun p => Guarded entry sid p ∧ Mends entry x p) ⟨htail, hmends⟩ fun w p hp =>
      ⟨fun _ => hp.1, fun _ => hp.2⟩
  rw [hk]
  refine ⟨?_, fun s hnot hin => ?_, fun s => (hrest s).1⟩
  · intro s hs hf
    obtain rfl : sid = x := by
      by_contra hx
      exact hs (by simpa [Function.update_of_ne hx] using hf)
    exact (hrest s).2
  · cases entry <;> exact absurd (hnot.symm.trans hin) Bool.false_ne_true

theorem composed_guarded {p : Async α} (h : Composed p) : Guarded entry sid p := by
  induction h with
  | ret | fail => trivial
  | bind hp hg ihp ihg => exact ihp.bind ihg
  | call a => exact fun _ => trivial
  | update u hu g =>
    exact ⟨fun s hs hf => absurd hf (apply_keeps hu hs), fun s => apply_adds u, fun _ => trivial⟩
  | written stream relay hg ihg => exact fun _ _ => ihg _
  | close x => exact handleCloseSession_guarded x

/-! ## Runs -/

/-- An entry has its session, or a thread is about to mend it. -/
def Tied (entry : Entry) (sid : String) (p : NodePool) : Prop :=
  entry.isIn sid p.state → p.state.sessionMap sid ≠ none ∨ ∃ t ∈ p.threads, Mends entry sid t

/-- The threads of the pool are made of the tasks of the code, and all entries are tied. -/
structure Settled (p : NodePool) : Prop where
  guarded : ∀ t ∈ p.threads, ∀ entry sid, Guarded entry sid t
  tied : ∀ entry sid, Tied entry sid p

variable {p p' : NodePool} {e : Event} {os : List Output}

theorem body_guarded (t : Task) : Guarded entry sid (Task.body node t) :=
  composed_guarded t.body_composed

omit [Codec] in
theorem isIn_congr {s s' : Shared} (hc : s'.circuitMap = s.circuitMap)
    (hp : s'.probeMap = s.probeMap) : entry.isIn sid s' = entry.isIn sid s := by
  cases entry
  · simp only [Entry.isIn, hc]
  · simp only [Entry.isIn, hp]

/-- The threads after one of them has moved on and some tasks have been started. -/
theorem guarded_set {ts : List Thread} {i : ℕ} {t : Thread} {tasks : List Task}
    (h : ∀ t ∈ ts, ∀ entry sid, Guarded entry sid t) (ht : ∀ entry sid, Guarded entry sid t) :
    ∀ u ∈ ts.set i t ++ tasks.map (Task.body node), ∀ entry sid, Guarded entry sid u := by
  intro u hu entry sid
  rcases List.mem_append.mp hu with hu | hu
  · rcases List.mem_or_eq_of_mem_set hu with hu | rfl
    · exact h u hu entry sid
    · exact ht entry sid
  · obtain ⟨task, -, rfl⟩ := List.mem_map.mp hu
    exact body_guarded task

theorem Settled.turn {i : ℕ} {c : Choice} (h : Settled p) (hin : InTime p (.thread i c))
    (hs : nodeStep node p (.thread i c) = some (p', os)) : Settled p' := by
  obtain ⟨t, r, ht, hr, hst, hthreads, -⟩ := (nodeSemantics node).step_eq_some hs
  have hmem : t ∈ p.threads := List.mem_of_getElem? ht
  have hguard := h.guarded t hmem
  have hlt : i < p.threads.length := (List.getElem?_eq_some_iff.mp ht).1
  -- a thread that mends is another one and still there, or it is the one that moves
  have hstay {entry : Entry} {sid : String}
      (hm : ∃ u ∈ p.threads, Mends entry sid u)
      (hnext : Mends entry sid t → Mends entry sid r.answer) :
      ∃ u ∈ p'.threads, Mends entry sid u := by
    obtain ⟨u, hu, hmu⟩ := hm
    obtain ⟨j, hj⟩ := List.getElem?_of_mem hu
    by_cases hij : j = i
    · subst hij
      obtain rfl := Option.some.inj (ht.symm.trans hj)
      refine ⟨r.answer, ?_, hnext hmu⟩
      rw [hthreads]
      exact List.mem_append_left _ (List.mem_set hlt _)
    · refine ⟨u, ?_, hmu⟩
      rw [hthreads]
      apply List.mem_append_left
      exact List.mem_of_getElem? (by rwa [List.getElem?_set_ne (Ne.symm hij)])
  have hself {entry : Entry} {sid : String} (hm : Mends entry sid r.answer) :
      ∃ u ∈ p'.threads, Mends entry sid u := by
    refine ⟨r.answer, ?_, hm⟩
    rw [hthreads]
    exact List.mem_append_left _ (List.mem_set hlt _)
  cases t with
  | ret a =>
    cases a with
    | none => cases hr
    | some task =>
      cases hr
      constructor
      · rw [hthreads]
        exact guarded_set h.guarded fun _ _ => body_guarded task
      · intro entry sid hentry
        rw [hst] at hentry ⊢
        rcases h.tied entry sid hentry with hsess | hm
        · exact Or.inl hsess
        · exact Or.inr (hstay hm False.elim)
  | fail => cases hr
  | atomic f k =>
    cases hr
    constructor
    · rw [hthreads]
      exact guarded_set h.guarded fun entry sid => (hguard entry sid).2.2 _
    · intro entry sid hentry
      rw [hst] at hentry ⊢
      by_cases hgone : (f p.state).sessionMap sid = none
      · right
        by_cases hold : entry.isIn sid p.state
        · by_cases hsess : p.state.sessionMap sid = none
          · rcases h.tied entry sid hold with hsess' | hm
            · exact absurd hsess hsess'
            · apply hstay hm
              intro hmends
              rcases hmends p.state hsess with hf | hf | hf
              · exact absurd hgone hf
              · exact absurd (hf.symm.trans hentry) Bool.false_ne_true
              · exact hf
          · exact hself ((hguard entry sid).1 p.state hsess hgone)
        · rw [Bool.not_eq_true] at hold
          have hsame := (hguard entry sid).2.1 p.state hold hentry
          rcases hin i c f k rfl ht entry sid hold hentry with hsess | hm
          · rw [hsame] at hgone
            rw [hgone] at hsess
            cases hsess
          · exact hself hm
      · exact Or.inl hgone
  | act a k =>
    obtain ⟨x, hx, rfl⟩ := Semantics.advance_act hr
    have hmaps := reply_sameMaps hx
    constructor
    · rw [hthreads]
      exact guarded_set h.guarded fun entry sid => hguard entry sid _
    · intro entry sid hentry
      rw [hst] at hentry ⊢
      rw [isIn_congr hmaps.circuitMap hmaps.probeMap] at hentry
      rw [hmaps.sessionMap]
      rcases h.tied entry sid hentry with hsess | hm
      · exact Or.inl hsess
      · exact Or.inr (hstay hm fun hmends => hmends _)

theorem Settled.step (h : Settled p) (hin : InTime p e)
    (hs : nodeStep node p e = some (p', os)) : Settled p' := by
  by_cases he : ∃ i c, e = .thread i c
  · obtain ⟨i, c, rfl⟩ := he
    exact h.turn hin hs
  · obtain ⟨hsess, hcirc, hprobe, ts, hts⟩ := nodeStep_arrival (fun i c heq => he ⟨i, c, heq⟩) hs
    constructor
    · intro t ht entry sid
      rw [hts] at ht
      rcases List.mem_append.mp ht with ht | ht
      · exact h.guarded t ht entry sid
      · obtain ⟨task, -, rfl⟩ := List.mem_map.mp ht
        exact body_guarded task
    · intro entry sid hentry
      rw [isIn_congr hcirc hprobe] at hentry
      rw [hsess]
      rcases h.tied entry sid hentry with hs | ⟨t, ht, hm⟩
      · exact Or.inl hs
      · exact Or.inr ⟨t, by rw [hts]; exact List.mem_append_left _ ht, hm⟩

/-! ## At rest -/

/-- Every session has its entries, and no session is there. -/
def orphaned : Shared where
  circuitMap _ := some ⟨"", ⟨⟨""⟩, 0⟩, 0, none⟩
  probeMap _ := some ⟨"", []⟩

omit [Codec] in
theorem orphaned_isIn : entry.isIn sid orphaned := by cases entry <;> rfl

omit [Codec] in
/-- A look that goes on to end where all entries are orphaned does not mend. -/
theorem not_mends_look {k : Shared → Async α} (h : ¬ Mends entry sid (k orphaned)) :
    ¬ Mends entry sid (.atomic id k) := by
  intro hm
  rcases hm orphaned rfl with hs | hs | hs
  · exact hs rfl
  · exact absurd (hs.symm.trans orphaned_isIn) Bool.false_ne_true
  · exact h hs

/-- A task at the head of its loop mends nothing: it may end without a look at the entry. -/
theorem body_not_mends {t : Task} (ht : Task.isLoop t) : ¬ Mends entry sid (Task.body node t) := by
  cases t with
  | relayEventHandler stream current =>
    simp only [Task.body, relayEventHandler_eq]
    intro hm
    have herr := hm (.error (.io ""))
    cases current with
    | none => exact herr
    | some x => exact not_mends_look (by exact id) herr
  | processProxyRequest => exact fun hm => hm ⟨⟨""⟩, none, none⟩
  | processCmdRequest => exact fun hm => hm ⟨⟨""⟩, none⟩
  | processPublishRequest =>
    intro hm
    have hdata : Mends entry sid (do
        processPublishRequest node []
        return some Task.processPublishRequest) := hm []
    unfold processPublishRequest at hdata
    cases hdec : (Codec.decode [] : Option EncryptedNeg) with
    | none =>
      rw [hdec] at hdata
      exact hdata
    | some neg =>
      rw [hdec] at hdata
      exact not_mends_look (by exact id) hdata
  | _ => cases ht

theorem Settled.tidy (h : Settled p) (hidle : Idle node p) : Tidy p.state := by
  have hnot {entry : Entry} {sid : String} (hentry : entry.isIn sid p.state) :
      (p.state.sessionMap sid).isSome := by
    rcases h.tied entry sid hentry with hs | ⟨t, ht, hm⟩
    · exact Option.isSome_iff_ne_none.mpr hs
    · exfalso
      rcases hidle t ht with hend | ⟨task, hloop, rfl | rfl⟩
      · cases t with
        | ret | fail => exact hm
        | _ => cases hend
      · exact hm
      · exact body_not_mends hloop hm
  exact fun sid => ⟨@hnot .circuit sid, @hnot .probe sid⟩

end Generic

/-- While circuits and probes are put there in time, a node at rest has none without its session. -/
theorem no_orphans [Codec] [Crypto] (node : Node) {p p' : NodePool} {es : List Event}
    {os : List Output} (ht : ∀ t ∈ p.threads, ∃ task, t = Task.body node task)
    (h₀ : Tidy p.state) (hC : Meets InTime (nodeStep node) p es)
    (h : run (nodeStep node) p es = some (p', os)) (hidle : Idle node p') : Tidy p'.state := by
  have hstart : Settled p := by
    constructor
    · intro t hmem entry sid
      obtain ⟨task, rfl⟩ := ht t hmem
      exact body_guarded task
    · intro entry sid hentry
      left
      rw [← Option.isSome_iff_ne_none]
      cases entry with
      | circuit => exact (h₀ sid).1 hentry
      | probe => exact (h₀ sid).2 hentry
  have hend := run_induction_meets (P := fun _ p _ => Settled p) hstart
    (fun _ _ _ _ _ _ hs hin hstep => hs.step hin hstep) hC h
  exact hend.tidy hidle

/-! ## A circuit for a session that has been closed -/

namespace Sample

def callee : Node := ⟨(⟨.ed25519, List.replicate 32 7⟩ : Ideal.Keypair), none, none⟩

def stream : WrappedStream := ⟨⟨"access"⟩, 0⟩

/-- The stream joins the session as one of a callee. -/
def join (sid : String) : Event :=
  .frame 0 (.ok (Codec.encode (newRelaySetSession sid SessionRole.answerRole.toI32)))

def turns (i n : ℕ) : List Event := List.replicate n (.thread i .go)

/-- A callee with a session and its circuit, and the handler of its stream. -/
def joined : NodePool where
  state :=
    { sessionMap := fun sid => if sid = "session"
        then some ⟨"session", ⟨some stream, none⟩, SessionRole.answerRole.toI32⟩ else none
      circuitMap := fun sid => if sid = "session" then some ⟨"session", stream, 0, none⟩ else none
      nextChannel := 1 }
  threads := [Task.body callee (.relayEventHandler stream (some "session"))]

/-- The application closes the session. -/
def close : List Event := .call (.disconnectCircuit "session") :: turns 1 4

/-- The stream joins another session after the first one has been closed. -/
def joinOther : List Event := close ++ join "other" :: turns 0 6

end Sample

/-- The update puts no entry. -/
def Withdraws (f : Shared → Shared) : Prop :=
  ∀ (entry : Entry) sid s, entry.isIn sid (f s) → entry.isIn sid s

theorem withdraws_close (x : String) :
    (Node.handleCloseSession x).Within Withdraws (fun _ => True) fun _ => True := by
  have hmap {α : Type} {g : String → Option α} {sid : String}
      (h : (Function.update g x none sid).isSome) : (g sid).isSome := by
    by_cases hx : sid = x
    · subst hx
      rw [Function.update_self] at h
      cases h
    · rwa [Function.update_of_ne hx] at h
  have htail : (do
      Async.removeCircuit x
      Async.removeProbe x : Async Unit).Within Withdraws (fun _ => True) fun _ => True := by
    constructor
    · intro entry sid s hin
      cases entry with
      | circuit => exact hmap hin
      | probe => exact hin
    · intro _
      constructor
      · intro entry sid s hin
        cases entry with
        | circuit => exact hin
        | probe => exact hmap hin
      · exact fun _ => trivial
  obtain ⟨k, hk, hrest⟩ :=
    Node.handleCloseSession_rest x htail fun w p hp => ⟨trivial, fun _ => hp⟩
  rw [hk]
  refine ⟨?_, hrest⟩
  intro entry sid s hin
  cases entry <;> exact hin

/-- The turns of a thread that puts no entry and comes back to no loop. -/
theorem inTime_turns {node : Node} {p : NodePool} {i n : ℕ} {t : Thread}
    (hi : p.threads[i]? = some t)
    (ht : t.Within Withdraws (fun _ => True) fun o => o = none) :
    Meets InTime (nodeStep node) p (Sample.turns i n) := by
  induction n generalizing p t with
  | zero => exact Meets.nil
  | succ n ih =>
    apply Meets.cons
    · rintro _ _ f k ⟨⟩ hf entry sid hnot hin
      obtain rfl := Option.some.inj (hi.symm.trans hf)
      exact absurd (hnot.symm.trans (ht.1 entry sid _ hin)) Bool.false_ne_true
    · intro p' os hs
      obtain ⟨u, r, hu, hr, -, hthreads, -⟩ := (nodeSemantics node).step_eq_some hs
      obtain rfl := Option.some.inj (hi.symm.trans hu)
      have hlt : i < p.threads.length := (List.getElem?_eq_some_iff.mp hi).1
      have hnext : r.answer.Within Withdraws (fun _ => True) fun o => o = none := by
        cases t with
        | ret a =>
          obtain rfl : a = none := ht
          cases hr
        | fail => cases hr
        | atomic f k =>
          cases hr
          exact ht.2 _
        | act a k =>
          obtain ⟨x, -, rfl⟩ := Semantics.advance_act hr
          exact ht.2 _
      apply ih _ hnext
      rw [hthreads, List.getElem?_append_left (by rwa [List.length_set]),
        List.getElem?_set_self hlt]

/-- After the close the handler waits on its stream, and the close has ended. -/
theorem close_ends : ∃ p os,
    run (nodeStep Sample.callee) Sample.joined Sample.close = some (p, os) ∧
      p.threads = [Task.body Sample.callee (.relayEventHandler Sample.stream (some "session")),
        .ret none] :=
  ⟨_, _, rfl, rfl⟩

/-- A thread of the pools above is at rest. -/
theorem idle_of_threads {p : NodePool} {task : Task} (hloop : Task.isLoop task)
    (h : p.threads = [Task.body Sample.callee task, .ret none]) : Idle Sample.callee p := by
  intro t ht
  rw [h] at ht
  simp only [List.mem_cons, List.not_mem_nil, or_false] at ht
  rcases ht with rfl | rfl
  · exact Or.inr ⟨task, hloop, Or.inr rfl⟩
  · exact Or.inl rfl

theorem no_orphans_close : ∃ p os,
    run (nodeStep Sample.callee) Sample.joined Sample.close = some (p, os) ∧ Tidy p.state := by
  obtain ⟨p, os, hrun, hthreads⟩ := close_ends
  refine ⟨p, os, hrun, no_orphans Sample.callee ?_ ?_ ?_ hrun (idle_of_threads rfl hthreads)⟩
  · intro t ht
    exact ⟨_, List.mem_singleton.mp ht⟩
  · intro sid
    constructor
    · intro h
      simp only [Sample.joined] at h ⊢
      split at h
      · next hsid =>
        rw [if_pos hsid]
        rfl
      · cases h
    · intro h
      cases h
  · apply Meets.cons
    · intro i c f k h
      cases h
    rintro _ _ ⟨⟩
    apply inTime_turns rfl
    apply Prog.Within.bind
    exact (withdraws_close "session").mono (fun _ h => h) (fun _ h => h) fun _ _ => rfl

/-- The circuit of the first session is made again. -/
theorem not_tidy_joinOther : ∃ p os,
    run (nodeStep Sample.callee) Sample.joined Sample.joinOther = some (p, os) ∧
      Idle Sample.callee p ∧ ¬ Tidy p.state := by
  have hend : ∃ p os, run (nodeStep Sample.callee) Sample.joined Sample.joinOther = some (p, os) ∧
      p.threads = [Task.body Sample.callee (.relayEventHandler Sample.stream (some "session")),
        .ret none] ∧ (p.state.circuitMap "session").isSome ∧ p.state.sessionMap "session" = none :=
    ⟨_, _, rfl, rfl, rfl, rfl⟩
  obtain ⟨p, os, hrun, hthreads, hcirc, hsess⟩ := hend
  refine ⟨p, os, hrun, idle_of_threads rfl hthreads, ?_⟩
  intro h
  have hin := (h "session").1 hcirc
  rw [hsess] at hin
  cases hin

end WhiteNoise.Orphans
