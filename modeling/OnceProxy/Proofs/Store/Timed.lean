import OnceProxy.Proofs.Store.Exclusion
import OnceProxy.Proofs.Store.Operations

/-!
# Stores in time

A store with a clock. Whole operations are done one after the other, and every timer goes off when
its sleep ends.
-/

namespace OnceProxy

/-! ### Timers that go off -/

/-- The cycle after the time has come of which `late` holds. -/
def Cycle.ring (late : Nat → Bool) (c : Cycle) : Cycle :=
  if c.due?.any late then .free else c

lemma Cycle.ring_of_never {late : Nat → Bool} (h : ∀ due, late due = false) (c : Cycle) :
    c.ring late = c := by
  cases c <;> simp [ring, due?, h]

/-- Lets the timer of a slot go off if `late` holds of its time. -/
def Slot.ring (late : Nat → Bool) (s : Slot) : Slot :=
  match s.entry.timer with
  | none => s
  | some timer => if late timer.due then s.withEntry (s.entry.expire timer.generation) else s

lemma Slot.keeps_ring (late : IdempotencyKey → Nat → Bool) :
    Slot.Keeps fun s => s.ring (late s.key) := by
  intro s
  simp only [ring]
  split
  · exact ⟨rfl, rfl⟩
  · split <;> exact ⟨rfl, rfl⟩

lemma Slot.handles_ring (late : Nat → Bool) (s : Slot) : (s.ring late).handles = s.handles := by
  simp only [ring]
  split
  · rfl
  · split <;> rfl

lemma Slot.sound_ring {s : Slot} (h : s.entry.Sound) (late : Nat → Bool) :
    (s.ring late).entry.Sound := by
  simp only [ring]
  split
  · exact h
  · split
    · exact h.expire _
    · exact h

lemma Slot.cycle_ring {s : Slot} (h : s.entry.Sound) (late : Nat → Bool) :
    (s.ring late).entry.cycle = s.entry.cycle.ring late := by
  have hd := h.due?_cycle
  cases ht : s.entry.timer with
  | none =>
    rw [ht] at hd
    simp [ring, ht, Cycle.ring, hd]
  | some timer =>
    rw [ht] at hd
    have hg := h.generation_timer ht
    by_cases hl : late timer.due
    · simp [ring, ht, Cycle.ring, hd, hl, withEntry, Entry.expire_of_eq hg.symm]
    · simp [ring, ht, Cycle.ring, hd, hl]

namespace MemoryStore

/-- Lets all timers go off of whose keys and times `late` holds. -/
def ring (m : MemoryStore) (late : IdempotencyKey → Nat → Bool) : MemoryStore :=
  m.update fun s => s.ring (late s.key)

variable {m : MemoryStore}

lemma cycle_ring (h : m.Ordered) (sound : m.Sound) (late : IdempotencyKey → Nat → Bool)
    (key : IdempotencyKey) : (m.ring late).cycle key = (m.cycle key).ring (late key) := by
  rw [cycle, ring, slotOf?_update (Slot.keeps_ring late)]
  cases hs : m.slotOf? key with
  | none =>
    rw [cycle_of_none hs]
    rfl
  | some s =>
    obtain ⟨hm, rfl⟩ := (slotOf?_eq_some h).mp hs
    rw [cycle_of_mem h hm]
    exact Slot.cycle_ring (sound s hm) _

end MemoryStore

lemma Steady.ring {ttl : Nat} {m : MemoryStore} {clients : List Client}
    (h : Steady ttl m clients []) (late : IdempotencyKey → Nat → Bool) :
    Steady ttl (m.ring late) clients [] := by
  apply h.update (Slot.keeps_ring late)
  · intro s hs
    exact Slot.sound_ring (h.sound s hs) _
  · intro s hs
    rw [Slot.handles_ring]
    exact h.handles s hs
  · exact h.placed
  · exact h.below
  · intro t ht
    exact absurd ht List.not_mem_nil

/-! ### Moves -/

/-- A store at the time `now`. -/
structure TimedStore where
  now : Nat
  store : MemoryStore

/-- What happens to a store: an operation is done, the timer of a key goes off, idle entries are
dropped, or time passes. -/
inductive TimedMove where
  | operate (key : IdempotencyKey) (operation : Operation)
  | fire (key : IdempotencyKey)
  | sweep
  | wait (ms : Nat)

/-- The key for which a move draws a lease. -/
def TimedMove.draws? : TimedMove → Option IdempotencyKey
  | operate key .tryAcquire => some key
  | _ => none

namespace TimedStore

/-- A store without entries. -/
def start (ttl : Nat) : TimedStore := ⟨0, .new ttl⟩

/-- Makes a move. When time passes, every timer goes off that is due before the new time. One that is
due at the new time can go off before or after whatever happens then. -/
def step (s : TimedStore) : TimedMove → TimedStore
  | .operate key operation => { s with store := (s.store.operate s.now key operation).2 }
  | .fire key => { s with store := s.store.ring fun k due => k = key && due ≤ s.now }
  | .sweep => { s with store := s.store.evictIdle.2 }
  | .wait ms => ⟨s.now + ms, s.store.ring fun _ due => due < s.now + ms⟩

/-- Makes moves one after the other. -/
def run (s : TimedStore) (moves : List TimedMove) : TimedStore :=
  moves.foldl step s

/-- What those who use a key hear of a move, and when. -/
def hear? (s : TimedStore) (key : IdempotencyKey) : TimedMove → Option (Nat × Outcome)
  | .operate k operation =>
    if k = key then some (s.now, (s.store.operate s.now k operation).1) else none
  | _ => none

/-- What those who use a key hear of each of the moves. -/
def answers (key : IdempotencyKey) : TimedStore → List TimedMove → List (Option (Nat × Outcome))
  | _, [] => []
  | s, move :: moves => s.hear? key move :: (s.step move).answers key moves

/-- The lease that a move gets for a key. -/
def granted? (s : TimedStore) (key : IdempotencyKey) (move : TimedMove) : Option Lease :=
  match s.hear? key move with
  | some (_, .acquired lease) => lease
  | _ => none

variable {ttl : Nat} {s : TimedStore} {key : IdempotencyKey} {move : TimedMove}

lemma steady_step (h : Steady ttl s.store [] []) (move : TimedMove) :
    Steady ttl (s.step move).store [] [] := by
  cases move with
  | operate k operation =>
    obtain ⟨_, -, served⟩ := h.operate s.now k operation
    exact served.steady
  | fire k =>
    simp only [step]
    exact h.ring _
  | sweep => exact h.evictIdle
  | wait ms =>
    simp only [step]
    exact h.ring _

/-- A move gets the next lease for a key if it is to acquire the key and the key is free. -/
lemma granted?_eq_some (h : Steady ttl s.store [] []) {lease : Lease} :
    s.granted? key move = some lease ↔
      move = .operate key .tryAcquire ∧ s.store.cycle key = .free ∧ s.store.draw.1 = lease := by
  cases move with
  | operate k operation =>
    by_cases hk : k = key
    · subst hk
      cases operation with
      | tryAcquire =>
        simp only [granted?, hear?, if_true, MemoryStore.operate, h.tryAcquire_eq]
        simp
      | peek => simp [granted?, hear?, MemoryStore.operate]
      | store => simp [granted?, hear?, MemoryStore.operate]
      | release => simp [granted?, hear?, MemoryStore.operate]
    · simp [granted?, hear?, hk]
  | fire k => simp [granted?, hear?]
  | sweep => simp [granted?, hear?]
  | wait ms => simp [granted?, hear?]

end TimedStore

/-! ### The leases that are drawn -/

/-- Whoever wants to acquire a key draws a lease and takes up the entry of the key. All others act at
most on an entry that is there. -/
lemma MemoryStore.operate_cases (m : MemoryStore) (now : Nat) (key : IdempotencyKey)
    (operation : Operation) :
    (operation = .tryAcquire ∧ (m.operate now key operation).2 =
      ((m.draw.2.takeUp key).2.act now (m.draw.2.takeUp key).1 (.acquire m.draw.1)).2.giveBack
        (m.draw.2.takeUp key).1) ∨
    (operation ≠ .tryAcquire ∧ ((m.operate now key operation).2 = m ∨
      ∃ id, (m.operate now key operation).2 = (m.act now id (operation.action m.draw.1)).2)) := by
  have performed (a : Action) :
      (m.perform now key a).2 = m ∨ ∃ id, (m.perform now key a).2 = (m.act now id a).2 := by
    simp only [perform]
    split
    · exact .inl rfl
    · exact .inr ⟨_, rfl⟩
  cases operation with
  | tryAcquire => exact .inl ⟨rfl, rfl⟩
  | peek => exact .inr ⟨by simp, .inl rfl⟩
  | store lease e =>
    obtain ⟨result, store, hp, hstore⟩ := m.store_eq now key lease e
    refine .inr ⟨by simp, ?_⟩
    have hs := performed (.store lease e.encode)
    rw [hp] at hs
    simp only [operate, hstore]
    exact hs
  | release lease =>
    refine .inr ⟨by simp, ?_⟩
    simp only [operate, release_eq m now key lease]
    exact performed (.release lease)

/-- Only those who want to acquire a key use up a lease. -/
lemma MemoryStore.nextLease_operate (m : MemoryStore) (now : Nat) (key : IdempotencyKey)
    (operation : Operation) : (m.operate now key operation).2.nextLease =
      m.nextLease + if operation matches .tryAcquire then 1 else 0 := by
  rcases m.operate_cases now key operation with ⟨rfl, hm⟩ | ⟨hn, hm⟩
  · have hl : m.draw.2.lookUp key (.acquire m.draw.1) = some (m.draw.2.takeUp key) := rfl
    rw [hm]
    exact (nextLease_act _ now _ (.acquire m.draw.1)).trans (nextLease_lookUp hl)
  · have same : (m.operate now key operation).2.nextLease = m.nextLease := by
      rcases hm with hm | ⟨id, hm⟩
      · rw [hm]
      · rw [hm]
        exact m.nextLease_act now id _
    cases operation with
    | tryAcquire => exact absurd rfl hn
    | peek | store | release => simpa using same

/-- The leases are drawn in their order. -/
lemma MemoryStore.draw_of_nextLease {m m' : MemoryStore} {n k : Nat} (h : m.draw.1 = .nth n)
    (hm : m'.nextLease = m.nextLease + UInt64.ofNat k) : m'.draw.1 = .nth (n + k) := by
  have hn : m.nextLease = UInt64.ofNat (n + 1) := congrArg Lease.id h
  rw [MemoryStore.draw, Lease.nth, Lease.mk.injEq, hm, hn, ← UInt64.ofNat_add]
  congr 1
  omega

lemma TimedStore.draw_step {s : TimedStore} {n : Nat} (h : s.store.draw.1 = .nth n)
    (move : TimedMove) :
    (s.step move).store.draw.1 = .nth (n + if move.draws?.isSome then 1 else 0) := by
  cases move with
  | operate k operation =>
    apply MemoryStore.draw_of_nextLease h
    rw [step, MemoryStore.nextLease_operate]
    cases operation <;> rfl
  | fire k => exact h
  | sweep => exact h
  | wait ms => exact h

/-! ### The keys that have entries -/

namespace MemoryStore

/-- The keys that have entries. -/
def keys (m : MemoryStore) : List IdempotencyKey :=
  m.slots.map (·.key)

lemma keys_act (m : MemoryStore) (now id : Nat) (a : Action) :
    (m.act now id a).2.keys = m.keys := by
  rcases m.act_cases now id a with h | ⟨e, h⟩
  · rw [h]
  · rw [h]
    apply map_alter
    intro s
    rfl

lemma keys_takeUp_subset (m : MemoryStore) (key : IdempotencyKey) :
    (m.takeUp key).2.keys ⊆ key :: m.keys := by
  have hold (m : MemoryStore) (id : Nat) : (m.hold id).keys = m.keys := by
    apply map_alter
    intro s
    rfl
  simp only [takeUp]
  split
  · rw [hold]
    exact List.subset_cons_self key _
  · rw [hold, create_eq]
    intro k hk
    obtain ⟨s, hs, rfl⟩ := List.mem_map.mp hk
    rcases mem_add.mp hs with hs | rfl
    · exact List.mem_cons_of_mem key (List.mem_map_of_mem (mem_of_mem_makeRoom hs))
    · exact List.mem_cons_self

/-- An operation makes no entry but for its own key. -/
lemma keys_operate_subset (m : MemoryStore) (now : Nat) (key : IdempotencyKey)
    (operation : Operation) : (m.operate now key operation).2.keys ⊆ key :: m.keys := by
  have back (m : MemoryStore) (id : Nat) : (m.giveBack id).keys = m.keys := by
    apply map_alter
    intro s
    rfl
  rcases m.operate_cases now key operation with ⟨-, hm⟩ | ⟨-, hm | ⟨id, hm⟩⟩
  · rw [hm, back, keys_act]
    exact m.draw.2.keys_takeUp_subset key
  · rw [hm]
    exact List.subset_cons_self key _
  · rw [hm, keys_act]
    exact List.subset_cons_self key _

lemma keys_ring (m : MemoryStore) (late : IdempotencyKey → Nat → Bool) :
    (m.ring late).keys = m.keys := by
  rw [keys, ring, update, List.map_map]
  apply List.map_congr_left
  intro s hs
  exact (Slot.keeps_ring late s).1

end MemoryStore

end OnceProxy
