import WhiteNoise.Network.Footprint

/-! # The event bus

The sender of a waiting task is in `event_bus` under the digest of its request.
A new waiter displaces the one under the same key, an acknowledgement takes the
one under its `command_id`, and nothing else touches the bus.
-/

namespace WhiteNoise.Acks

open Wire Process

variable [Codec] [Crypto]

/-- The bus and the receivers are the same in both states. -/
structure SameBus (s s' : Shared) : Prop where
  eventBus : s'.eventBus = s.eventBus
  oneshots : s'.oneshots = s.oneshots
  nextOneshot : s'.nextOneshot = s.nextOneshot

omit [Codec] in
theorem SameBus.refl (s : Shared) : SameBus s s := ⟨rfl, rfl, rfl⟩

/-- The event is a task putting a waiter for the contents into the bus. -/
def Registers (p : NodePool) (e : Event) (contents : Contents) : Prop :=
  ∃ i c k, e = .thread i c ∧ p.threads[i]? = some (.atomic (Shared.register contents.key) k)

/-- Only a new waiter changes the bus. -/
theorem apply_bus (u : Update) (s : Shared) :
    SameBus s (u.apply s) ∨ ∃ contents, u = .waiter contents := by
  cases u with
  | waiter contents => exact Or.inr ⟨contents, rfl⟩
  | addCircuit sid stream =>
    left
    simp only [Update.apply]
    split <;> exact ⟨rfl, rfl, rfl⟩
  | data sid b =>
    left
    simp only [Update.apply]
    split <;> exact ⟨rfl, rfl, rfl⟩
  | _ => exact Or.inl ⟨rfl, rfl, rfl⟩

omit [Codec] in
/-- The answers of the environment leave the bus alone. -/
theorem reply_bus {a : Act} {c : Choice} {s : Shared} {r : Reply Shared Task Output a.Res}
    (h : Shared.reply a c s = some r) : SameBus s r.state :=
  ⟨(reply_sameMaps h).eventBus, (reply_sameMaps h).oneshots, (reply_sameMaps h).nextOneshot⟩

/-- All threads of the pool stay within the footprint. -/
def Bounded (p : NodePool) : Prop := ∀ t ∈ p.threads, Touches t

variable {node : Node} {p p' : NodePool} {e : Event} {os : List Output}

/-- The start of a node with some tasks. -/
def start (node : Node) (ts : List Task) : NodePool := ⟨{}, ts.map (Task.body node)⟩

theorem start_bounded (ts : List Task) : Bounded (start node ts) := by
  intro t ht
  obtain ⟨task, -, rfl⟩ := List.mem_map.mp ht
  exact task.body_touches

theorem Bounded.set {p : NodePool} (h : Bounded p) {i : ℕ} {t : Thread} (ht : Touches t)
    (ts : List Task) :
    ∀ u ∈ p.threads.set i t ++ ts.map (Task.body node), Touches u := by
  intro u hu
  rcases List.mem_append.mp hu with hu | hu
  · rcases List.mem_or_eq_of_mem_set hu with hu | rfl
    · exact h u hu
    · exact ht
  · obtain ⟨task, -, rfl⟩ := List.mem_map.mp hu
    exact task.body_touches

/-- One event: the bus stays, a task puts a waiter into it, or an acknowledgement arrives. -/
theorem nodeStep_bus (hp : Bounded p) (h : nodeStep node p e = some (p', os)) :
    Bounded p' ∧ (SameBus p.state p'.state ∨
      (∃ contents, Registers p e contents ∧ p'.state = p.state.register contents.key) ∨
      ∃ peer ack, e = .ack peer ack ∧ p'.state = p.state.injectAck ack) := by
  cases e with
  | thread i c =>
    obtain ⟨t, r, ht, hr, hs, hts, rfl⟩ := Semantics.step_eq_some _ h
    have htouch : Touches t := hp t (List.mem_of_getElem? ht)
    cases t with
    | ret a =>
      cases a with
      | none => cases hr
      | some task =>
        cases hr
        refine ⟨?_, Or.inl ?_⟩
        · rw [Bounded, hts]
          exact hp.set task.body_touches []
        · rw [hs]
          exact .refl _
    | fail => cases hr
    | atomic f k =>
      cases hr
      obtain ⟨⟨u, rfl⟩, hk⟩ := htouch
      refine ⟨?_, ?_⟩
      · rw [Bounded, hts]
        exact hp.set (hk _) []
      · rcases apply_bus u p.state with hsame | ⟨contents, rfl⟩
        · left
          rw [hs]
          exact hsame
        · exact Or.inr (Or.inl ⟨contents, ⟨i, c, k, rfl, ht⟩, hs⟩)
    | act a k =>
      obtain ⟨r', hr', rfl⟩ := Semantics.advance_act hr
      refine ⟨?_, Or.inl ?_⟩
      · rw [Bounded, hts]
        exact hp.set (htouch.2 _) _
      · rw [hs]
        exact reply_bus hr'
  | ack peer ack =>
    cases h
    exact ⟨hp, Or.inr (Or.inr ⟨peer, ack, rfl, rfl⟩)⟩
  | proxyRequest | cmdRequest | gossip | frame =>
    cases h
    exact ⟨hp, Or.inl ⟨rfl, rfl, rfl⟩⟩
  | inbound stream =>
    simp only [nodeStep] at h
    split at h
    · cases h
    · cases h
      refine ⟨?_, Or.inl ⟨rfl, rfl, rfl⟩⟩
      intro t ht
      rcases List.mem_append.mp ht with ht | ht
      · exact hp t ht
      · obtain rfl := List.mem_singleton.mp ht
        exact Task.body_touches _
  | call task =>
    cases h
    refine ⟨?_, Or.inl ⟨rfl, rfl, rfl⟩⟩
    intro t ht
    rcases List.mem_append.mp ht with ht | ht
    · exact hp t ht
    · obtain rfl := List.mem_singleton.mp ht
      exact Task.body_touches _

/-! ## The operations on the bus -/

variable {s s' : Shared} {k : String} {w : ℕ} {ack : Ack}

omit [Codec]

theorem register_eventBus (key : String) :
    (s.register key).eventBus = Function.update s.eventBus key (some s.nextOneshot) := rfl

theorem register_displaced (h : s.eventBus k = some w) :
    (s.register k).oneshots w = .dropped := by
  simp only [Shared.register, h, Function.update_self]

theorem register_other (h : s.eventBus k ≠ some w) :
    (s.register k).oneshots w = s.oneshots w := by
  simp only [Shared.register]
  cases hk : s.eventBus k with
  | none => rfl
  | some old =>
    have hne : w ≠ old := by
      rintro rfl
      exact h hk
    exact Function.update_of_ne hne _ _

theorem injectAck_none (h : s.eventBus ack.commandId = none) : s.injectAck ack = s := by
  simp only [Shared.injectAck, h]

theorem injectAck_some (h : s.eventBus ack.commandId = some w) :
    s.injectAck ack =
      { s with
        eventBus := Function.update s.eventBus ack.commandId none
        oneshots := Function.update s.oneshots w (.sent ack) } := by
  simp only [Shared.injectAck, h]

theorem injectAck_other (h : s.eventBus ack.commandId ≠ some w) :
    (s.injectAck ack).oneshots w = s.oneshots w := by
  cases hk : s.eventBus ack.commandId with
  | none => rw [injectAck_none hk]
  | some w' =>
    rw [injectAck_some hk]
    have hne : w ≠ w' := by
      rintro rfl
      exact h hk
    exact Function.update_of_ne hne _ _

theorem injectAck_eventBus (hne : k ≠ ack.commandId) :
    (s.injectAck ack).eventBus k = s.eventBus k := by
  cases hk : s.eventBus ack.commandId with
  | none => rw [injectAck_none hk]
  | some w' =>
    rw [injectAck_some hk]
    exact Function.update_of_ne hne _ _

theorem injectAck_eventBus_some (h : (s.injectAck ack).eventBus k = some w) :
    s.eventBus k = some w := by
  by_cases hk : k = ack.commandId
  · subst hk
    cases hb : s.eventBus ack.commandId with
    | none =>
      rw [injectAck_none hb, hb] at h
      cases h
    | some w' =>
      rw [injectAck_some hb] at h
      simp only [Function.update_self] at h
      cases h
  · rwa [injectAck_eventBus hk] at h

theorem injectAck_nextOneshot : (s.injectAck ack).nextOneshot = s.nextOneshot := by
  unfold Shared.injectAck
  split <;> rfl

/-- Each sender on the bus was made, is there once, and its receiver still waits. -/
structure WellFormed (s : Shared) : Prop where
  made : ∀ k w, s.eventBus k = some w → w < s.nextOneshot
  once : ∀ k k' w, s.eventBus k = some w → s.eventBus k' = some w → k = k'
  waits : ∀ k w, s.eventBus k = some w → s.oneshots w = .empty
  fresh : ∀ w, s.nextOneshot ≤ w → s.oneshots w = .empty

namespace WellFormed

theorem initial : WellFormed {} :=
  ⟨fun _ _ h => (nomatch h), fun _ _ _ h => (nomatch h), fun _ _ _ => rfl, fun _ _ => rfl⟩

theorem same (h : WellFormed s) (hs : SameBus s s') : WellFormed s' := by
  obtain ⟨h₁, h₂, h₃⟩ := hs
  exact ⟨by simpa only [h₁, h₃] using h.made, by simpa only [h₁] using h.once,
    by simpa only [h₁, h₂] using h.waits, by simpa only [h₂, h₃] using h.fresh⟩

theorem register (h : WellFormed s) (key : String) : WellFormed (s.register key) := by
  have hold : ∀ k w, k ≠ key → s.eventBus k = some w → s.eventBus key ≠ some w := by
    intro k w hk hw hkey
    exact hk (h.once k key w hw hkey)
  have hnew : s.eventBus key ≠ some s.nextOneshot := by
    intro hkey
    exact Nat.lt_irrefl _ (h.made _ _ hkey)
  refine ⟨?_, ?_, ?_, ?_⟩
  · intro k w hw
    rw [register_eventBus] at hw
    by_cases hk : k = key
    · subst hk
      rw [Function.update_self] at hw
      cases hw
      exact Nat.lt_succ_self _
    · rw [Function.update_of_ne hk] at hw
      exact Nat.lt_succ_of_lt (h.made k w hw)
  · intro k k' w hw hw'
    rw [register_eventBus] at hw hw'
    by_cases hk : k = key <;> by_cases hk' : k' = key
    · rw [hk, hk']
    · subst hk
      rw [Function.update_self] at hw
      rw [Function.update_of_ne hk'] at hw'
      cases hw
      exact absurd (h.made _ _ hw') (Nat.lt_irrefl _)
    · subst hk'
      rw [Function.update_self] at hw'
      rw [Function.update_of_ne hk] at hw
      cases hw'
      exact absurd (h.made _ _ hw) (Nat.lt_irrefl _)
    · rw [Function.update_of_ne hk] at hw
      rw [Function.update_of_ne hk'] at hw'
      exact h.once k k' w hw hw'
  · intro k w hw
    rw [register_eventBus] at hw
    by_cases hk : k = key
    · subst hk
      rw [Function.update_self] at hw
      cases hw
      rw [register_other hnew]
      exact h.fresh _ (Nat.le_refl _)
    · rw [Function.update_of_ne hk] at hw
      rw [register_other (hold k w hk hw)]
      exact h.waits k w hw
  · intro w hw
    have hlt : s.nextOneshot < w := hw
    have hne : s.eventBus key ≠ some w := by
      intro hkey
      exact absurd (h.made _ _ hkey) (by omega)
    rw [register_other hne]
    exact h.fresh w (by omega)

theorem injectAck (h : WellFormed s) (ack : Ack) : WellFormed (s.injectAck ack) := by
  refine ⟨?_, ?_, ?_, ?_⟩
  · intro k w hw
    rw [injectAck_nextOneshot]
    exact h.made k w (injectAck_eventBus_some hw)
  · intro k k' w hw hw'
    exact h.once k k' w (injectAck_eventBus_some hw) (injectAck_eventBus_some hw')
  · intro k w hw
    have hold := injectAck_eventBus_some hw
    have hne : s.eventBus ack.commandId ≠ some w := by
      intro hack
      obtain rfl := h.once k _ w hold hack
      rw [injectAck_some hack] at hw
      simp only [Function.update_self] at hw
      cases hw
    rw [injectAck_other hne]
    exact h.waits k w hold
  · intro w hw
    rw [injectAck_nextOneshot] at hw
    have hne : s.eventBus ack.commandId ≠ some w := by
      intro hack
      exact absurd (h.made _ _ hack) (by omega)
    rw [injectAck_other hne]
    exact h.fresh w hw

end WellFormed

/-- What an event can do to the bus. -/
inductive BusStep (s s' : Shared) : Prop
  | same (h : SameBus s s')
  | register (key : String) (h : s' = s.register key)
  | ack (ack : Ack) (h : s' = s.injectAck ack)

namespace BusStep

theorem wellFormed (h : BusStep s s') (hw : WellFormed s) : WellFormed s' := by
  cases h with
  | same h => exact hw.same h
  | register key h =>
    rw [h]
    exact hw.register key
  | ack ack h =>
    rw [h]
    exact hw.injectAck ack

theorem next_le (h : BusStep s s') : s.nextOneshot ≤ s'.nextOneshot := by
  cases h with
  | same h => exact Nat.le_of_eq h.nextOneshot.symm
  | register key h =>
    rw [h]
    exact Nat.le_succ _
  | ack ack h => exact Nat.le_of_eq (by rw [h, injectAck_nextOneshot])

/-- A receiver whose sender is off the bus stays as it is. -/
theorem settled (h : BusStep s s') (hb : ∀ k, s.eventBus k ≠ some w) (hw : w < s.nextOneshot) :
    s'.oneshots w = s.oneshots w ∧ ∀ k, s'.eventBus k ≠ some w := by
  cases h with
  | same h => exact ⟨by rw [h.oneshots], by rwa [h.eventBus]⟩
  | register key h =>
    subst h
    refine ⟨register_other (hb _), ?_⟩
    intro k hk
    rw [register_eventBus] at hk
    by_cases hkey : k = key
    · subst hkey
      rw [Function.update_self] at hk
      cases hk
      exact Nat.lt_irrefl _ hw
    · rw [Function.update_of_ne hkey] at hk
      exact hb k hk
  | ack ack h =>
    subst h
    exact ⟨injectAck_other (hb _), fun k hk => hb k (injectAck_eventBus_some hk)⟩

end BusStep

end WhiteNoise.Acks
