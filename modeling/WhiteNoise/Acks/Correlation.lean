import WhiteNoise.Acks.Bus
import WhiteNoise.Network.Ideal

/-! # Which acknowledgement a waiter gets

A key is the digest of the request alone, and the bus holds no peer. So a
waiter is resolved by any acknowledgement with its key, whoever sends it, and
only an equal request displaces it.
-/

namespace WhiteNoise.Acks

open Wire Process

section Run

variable [Codec] [Crypto]

/-- What became of the receiver `w` of a waiter under the key `k`, in a run from `p` to `q` over
the events `es`. -/
inductive Fate (node : Node) (k : String) (w : ℕ) (p q : NodePool) (es : List Event) : Prop
  | waiting (hb : q.state.eventBus k = some w) (ho : q.state.oneshots w = .empty)
  | resolved (peer : PeerId) (ack : Ack) (he : .ack peer ack ∈ es) (hk : ack.commandId = k)
      (ho : q.state.oneshots w = .sent ack) (hb : ∀ k', q.state.eventBus k' ≠ some w)
  | dropped (mid rest : List Event) (e : Event) (t : NodePool) (os : List Output)
      (contents : Contents) (he : es = mid ++ e :: rest)
      (hr : run (nodeStep node) p mid = some (t, os)) (ht : t.state.eventBus k = some w)
      (hreg : Registers t e contents) (hk : contents.key = k)
      (ho : q.state.oneshots w = .dropped) (hb : ∀ k', q.state.eventBus k' ≠ some w)

variable {node : Node} {k : String} {w : ℕ} {p q q' : NodePool} {es : List Event} {e : Event}

theorem busStep_of {contents : Contents → Prop} {acks : PeerId → Ack → Prop} {s s' : Shared}
    (h : SameBus s s' ∨ (∃ c, contents c ∧ s' = s.register c.key) ∨
      ∃ peer ack, acks peer ack ∧ s' = s.injectAck ack) : BusStep s s' := by
  rcases h with h | ⟨c, -, h⟩ | ⟨_, ack, -, h⟩
  · exact .same h
  · exact .register _ h
  · exact .ack ack h

/-- One more event. -/
theorem Fate.step {os o : List Output} (h : Fate node k w p q es)
    (hr : run (nodeStep node) p es = some (q, os)) (hq : Bounded q) (hw : WellFormed q.state)
    (hlt : w < q.state.nextOneshot) (hs : nodeStep node q e = some (q', o)) :
    Fate node k w p q' (es ++ [e]) := by
  obtain ⟨-, hbus⟩ := nodeStep_bus hq hs
  have hany := busStep_of hbus
  cases h with
  | resolved peer ack he hk ho hb =>
    obtain ⟨ho', hb'⟩ := hany.settled hb hlt
    exact .resolved peer ack (List.mem_append_left _ he) hk (ho'.trans ho) hb'
  | dropped mid rest e' t os' contents he hr' ht hreg hk ho hb =>
    obtain ⟨ho', hb'⟩ := hany.settled hb hlt
    exact .dropped mid (rest ++ [e]) e' t os' contents (by simp [he]) hr' ht hreg hk
      (ho'.trans ho) hb'
  | waiting hb ho =>
    rcases hbus with hsame | ⟨contents, hreg, hst⟩ | ⟨peer, ack, rfl, hst⟩
    · exact .waiting (by rw [hsame.eventBus, hb]) (by rw [hsame.oneshots, ho])
    · by_cases hk : contents.key = k
      · subst hk
        refine .dropped es [] e q os contents rfl hr hb hreg rfl ?_ ?_
        · rw [hst]
          exact register_displaced hb
        · intro k' hk'
          rw [hst, register_eventBus] at hk'
          by_cases hkey : k' = contents.key
          · subst hkey
            rw [Function.update_self] at hk'
            cases hk'
            exact Nat.lt_irrefl _ hlt
          · rw [Function.update_of_ne hkey] at hk'
            exact hkey (hw.once _ _ _ hk' hb)
      · refine .waiting ?_ ?_
        · rw [hst, register_eventBus, Function.update_of_ne (Ne.symm hk), hb]
        · rw [hst, register_other, ho]
          exact fun hc => hk (hw.once _ _ _ hc hb)
    · by_cases hk : ack.commandId = k
      · subst hk
        refine .resolved peer ack (List.mem_append_right _ List.mem_cons_self) rfl ?_ ?_
        · rw [hst, injectAck_some hb]
          exact Function.update_self ..
        · intro k' hk'
          rw [hst] at hk'
          obtain rfl := hw.once _ _ _ (injectAck_eventBus_some hk') hb
          rw [injectAck_some hb] at hk'
          simp only [Function.update_self] at hk'
          cases hk'
      · refine .waiting ?_ ?_
        · rw [hst, injectAck_eventBus (Ne.symm hk), hb]
        · rw [hst, injectAck_other, ho]
          exact fun hc => hk (hw.once _ _ _ hc hb)

/-- Every run keeps the pool bounded and the bus well formed. -/
theorem run_bus {ts : List Task} {os : List Output}
    (h : run (nodeStep node) (start node ts) es = some (p, os)) :
    Bounded p ∧ WellFormed p.state := by
  refine run_invariant (I := fun p => Bounded p ∧ WellFormed p.state) ?_
    ⟨start_bounded ts, WellFormed.initial⟩ h
  rintro p e p' o ⟨hp, hw⟩ hs
  obtain ⟨hp', hbus⟩ := nodeStep_bus hp hs
  exact ⟨hp', (busStep_of hbus).wellFormed hw⟩

/-- In every run of a node, the waiter a task puts into the bus waits until an acknowledgement
with its own key arrives or a task registers an equal key, and nothing else resolves or drops
it. -/
theorem waiter_fate (node : Node) (ts : List Task) (pre : List Event) (e : Event)
    (contents : Contents) {post : List Event} {p p' q : NodePool} {o₁ o₂ o₃ : List Output}
    (h₁ : run (nodeStep node) (start node ts) pre = some (p, o₁))
    (hreg : Registers p e contents) (h₂ : nodeStep node p e = some (p', o₂))
    (h₃ : run (nodeStep node) p' post = some (q, o₃)) :
    Fate node contents.key p.state.nextOneshot p' q post := by
  obtain ⟨hp, hw⟩ := run_bus h₁
  have hst : p'.state = p.state.register contents.key := by
    obtain ⟨i, c, k, rfl, ht⟩ := hreg
    obtain ⟨t, r, ht', hr, hs, -⟩ := Semantics.step_eq_some _ h₂
    rw [ht] at ht'
    cases ht'
    cases hr
    exact hs
  have hp' : Bounded p' := (nodeStep_bus hp h₂).1
  have hw' : WellFormed p'.state := by
    rw [hst]
    exact hw.register _
  have hnext : p'.state.nextOneshot = p.state.nextOneshot + 1 := by
    rw [hst]
    rfl
  have hinit : Fate node contents.key p.state.nextOneshot p' p' [] := by
    have hb : p'.state.eventBus contents.key = some p.state.nextOneshot := by
      rw [hst]
      exact Function.update_self ..
    exact .waiting hb (hw'.waits _ _ hb)
  have hrun := run_induction (P := fun es t os => run (nodeStep node) p' es = some (t, os) ∧
    Bounded t ∧ WellFormed t.state ∧ p.state.nextOneshot < t.state.nextOneshot ∧
    Fate node contents.key p.state.nextOneshot p' t es)
    ⟨rfl, hp', hw', by omega, hinit⟩ ?_ h₃
  · exact hrun.2.2.2.2
  · rintro es t os e t' o ⟨hr, ht, hwt, hlt, hf⟩ hs
    obtain ⟨ht', hbus⟩ := nodeStep_bus ht hs
    have hrun' : run (nodeStep node) p' (es ++ [e]) = some (t', os ++ o) :=
      run_concat_iff.mpr ⟨t, os, o, hr, hs, rfl⟩
    have hstep := busStep_of hbus
    exact ⟨hrun', ht', hstep.wellFormed hwt, Nat.lt_of_lt_of_le hlt hstep.next_le,
      hf.step hr ht hwt hlt hs⟩

end Run

/-! ## A client and two servers -/

namespace Sample

def client : Node := ⟨(⟨.ed25519, List.replicate 32 7⟩ : Ideal.Keypair), none, none⟩

def server (n : UInt8) : PeerId := (⟨.ed25519, List.replicate 32 n⟩ : Ideal.Keypair).peerId

/-- What the client sends to register. -/
def request : Request :=
  client.newProxyRequest ("0" ++ Crypto.bs58Encode (Crypto.publicBytes client.keypair))

def contents : Contents := .request request

def ack : Ack := ⟨contents.key, true, []⟩

/-- The client registers at a server and waits. -/
def registering : List Event :=
  [.call (.registerProxy (server 1)), .thread 0 .go, .thread 0 .go]

/-- The client registers at a second server meanwhile. -/
def registeringTwice : List Event :=
  registering ++ [.call (.registerProxy (server 2)), .thread 1 .go, .thread 1 .go]

end Sample

theorem waiter_fate_registering : ∃ p p' q,
    (∃ o, run (nodeStep Sample.client) (start Sample.client [])
      [.call (.registerProxy (Sample.server 1))] = some (p, o)) ∧
    nodeStep Sample.client p (.thread 0 .go) = some (p', []) ∧
    (∃ o, run (nodeStep Sample.client) p' [.thread 0 .go, .ack (Sample.server 1) Sample.ack] =
      some (q, o)) ∧
    Fate Sample.client Sample.contents.key 0 p' q
      [.thread 0 .go, .ack (Sample.server 1) Sample.ack] := by
  refine ⟨_, _, _, ⟨_, rfl⟩, rfl, ⟨_, rfl⟩, ?_⟩
  exact waiter_fate Sample.client [] [.call (.registerProxy (Sample.server 1))] (.thread 0 .go)
    Sample.contents rfl ⟨0, .go, _, rfl, rfl⟩ rfl rfl

/-- A second registration drops the waiter of the first, and anyone's acknowledgement resolves
it. -/
theorem not_correlated :
    (∃ p os, run (nodeStep Sample.client) (start Sample.client []) Sample.registeringTwice =
      some (p, os) ∧ p.state.oneshots 0 = .dropped) ∧
    ∃ p os, run (nodeStep Sample.client) (start Sample.client [])
      (Sample.registering ++ [.ack (Sample.server 3) Sample.ack]) = some (p, os) ∧
      p.state.oneshots 0 = .sent Sample.ack := by
  constructor
  · obtain ⟨p, os, hr, hp⟩ := exists_run (nodeStep Sample.client) (start Sample.client [])
      Sample.registeringTwice (fun r => decide (r.1.state.oneshots 0 = .dropped))
      (by decide +kernel)
    exact ⟨p, os, hr, of_decide_eq_true hp⟩
  · obtain ⟨p, os, hr, hp⟩ := exists_run (nodeStep Sample.client) (start Sample.client [])
      (Sample.registering ++ [.ack (Sample.server 3) Sample.ack])
      (fun r => decide (r.1.state.oneshots 0 = .sent Sample.ack)) (by decide +kernel)
    exact ⟨p, os, hr, of_decide_eq_true hp⟩

end WhiteNoise.Acks
