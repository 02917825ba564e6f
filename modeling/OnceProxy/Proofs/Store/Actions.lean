import OnceProxy.Proofs.Store.Cycle
import OnceProxy.Proofs.Store.Slots

/-!
# Operations on a store in two steps

Whoever uses a store first looks up the entry of a key and then does something to it. Looking up
changes no cycle, and doing something to an entry changes the cycle of its key only.
-/

namespace OnceProxy

namespace MemoryStore

/-- The cycle of a key. -/
def cycle (m : MemoryStore) (key : IdempotencyKey) : Cycle :=
  match m.slotOf? key with
  | none => .free
  | some s => s.entry.cycle

/-- The first step of an operation. Only those who want to acquire a key make an entry for it. -/
def lookUp (m : MemoryStore) (key : IdempotencyKey) : Action → Option (Nat × MemoryStore)
  | .acquire _ => some (m.takeUp key)
  | _ => m.takeUp? key

/-- The second step of an operation, on the slot that was looked up. -/
def act (m : MemoryStore) (now id : Nat) : Action → Answer × MemoryStore
  | .acquire lease =>
    (.acquired (m.tryAcquireAt now id lease).1, (m.tryAcquireAt now id lease).2)
  | .peek => (.found (m.peekAt id), m)
  | .store lease value =>
    (.stored (m.storeAt now id lease value).1, (m.storeAt now id lease value).2)
  | .release lease => (.released (m.releaseAt id lease).1, (m.releaseAt id lease).2)

/-- The answer to those who found no entry. -/
def missing : Action → Answer
  | .acquire _ => .acquired false
  | .peek => .found (.error .notObtained)
  | .store _ _ => .stored (.error .leaseLost)
  | .release _ => .released false

/-- The timers that an operation has set. -/
def timersSince (m before : MemoryStore) : List SlotTimer :=
  m.timers.filter fun t => !before.timers.contains t

/-- The key that a timer frees, with its lease. A timer that is out of date frees none. -/
def frees? (m : MemoryStore) (t : SlotTimer) : Option (IdempotencyKey × Lease) :=
  (m.slot? t.slot).bind fun s =>
    if s.entry.generation = t.timer.generation then s.entry.lease.map (s.key, ·) else none

/-- All entries are sound. -/
def Sound (m : MemoryStore) : Prop :=
  ∀ s ∈ m.slots, s.entry.Sound

variable {m : MemoryStore}

lemma cycle_of_mem (h : m.Ordered) {s : Slot} (hs : s ∈ m.slots) :
    m.cycle s.key = s.entry.cycle := by
  rw [cycle, (slotOf?_eq_some h).mpr ⟨hs, rfl⟩]

lemma cycle_of_none {key : IdempotencyKey} (h : m.slotOf? key = none) : m.cycle key = .free := by
  rw [cycle, h]

@[simp] lemma cycle_new (ttl : Nat) (key : IdempotencyKey) : (new ttl).cycle key = .free := rfl

/-! ### What changes no cycle -/

/-- The cycle of a key is that of whichever slot has the key. -/
lemma cycle_eq_iff (h : m.Ordered) {key : IdempotencyKey} {c : Cycle} :
    m.cycle key = c ↔ (∃ s ∈ m.slots, s.key = key ∧ s.entry.cycle = c) ∨
      (∀ s ∈ m.slots, s.key ≠ key) ∧ c = .free := by
  cases hs : m.slotOf? key with
  | none =>
    have hn := slotOf?_eq_none.mp hs
    rw [cycle_of_none hs]
    constructor
    · rintro rfl
      exact .inr ⟨hn, rfl⟩
    · rintro (⟨s, hm, hk, -⟩ | ⟨-, rfl⟩)
      · exact absurd hk (hn s hm)
      · rfl
  | some s =>
    obtain ⟨hm, rfl⟩ := (slotOf?_eq_some h).mp hs
    rw [cycle_of_mem h hm]
    constructor
    · rintro rfl
      exact .inl ⟨s, hm, rfl, rfl⟩
    · rintro (⟨t, ht, hk, rfl⟩ | ⟨hn, -⟩)
      · rw [← cycle_of_mem h hm, ← hk, cycle_of_mem h ht]
      · exact absurd rfl (hn s hm)

lemma cycle_withHandles (f : Nat → Nat) (id : Nat) (key : IdempotencyKey) :
    (m.update (only id (Slot.withHandles f))).cycle key = m.cycle key := by
  rw [cycle, slotOf?_update (keeps_only (Slot.keeps_withHandles f) id), cycle]
  cases m.slotOf? key with
  | none => rfl
  | some s =>
    simp only [Option.map_some, only]
    split <;> rfl

lemma cycle_hold (h : m.Ordered) (id : Nat) (key : IdempotencyKey) :
    (m.hold id).cycle key = m.cycle key := by
  rw [hold_eq h, cycle_withHandles]

lemma cycle_giveBack (h : m.Ordered) (id : Nat) (key : IdempotencyKey) :
    (m.giveBack id).cycle key = m.cycle key := by
  rw [giveBack_eq h, cycle_withHandles]

/-- Entries are dropped only while nobody holds their keys. -/
lemma cycle_evictIdle (h : m.Ordered) (sound : m.Sound) (key : IdempotencyKey) :
    m.evictIdle.2.cycle key = m.cycle key := by
  symm
  rw [cycle_eq_iff h]
  cases hs : m.evictIdle.2.slotOf? key with
  | some s =>
    obtain ⟨hm, rfl⟩ := (slotOf?_eq_some (ordered_evictIdle h)).mp hs
    exact .inl ⟨s, (mem_evictIdle.mp hm).1, rfl, (cycle_of_mem (ordered_evictIdle h) hm).symm⟩
  | none =>
    have hn := slotOf?_eq_none.mp hs
    rw [cycle_of_none hs]
    by_cases hk : ∃ s ∈ m.slots, s.key = key
    · obtain ⟨s, hm, hk⟩ := hk
      -- the slot was dropped, so it was idle and its entry empty
      have hi : s.isIdle = true := by
        by_contra hi
        exact hn s (mem_evictIdle.mpr ⟨hm, by simpa using hi⟩) hk
      have he : s.entry.phase = .empty := by
        simpa using (Bool.and_eq_true_iff.mp hi).2
      exact .inl ⟨s, hm, hk, (sound s hm).cycle_of_empty he⟩
    · push Not at hk
      exact .inr ⟨hk, rfl⟩

lemma cycle_makeRoom (h : m.Ordered) (sound : m.Sound) (key : IdempotencyKey) :
    m.makeRoom.cycle key = m.cycle key := by
  rcases makeRoom_cases m with e | e
  · rw [e]
  · rw [e, cycle_evictIdle h sound]

/-- A new entry is free, as its key was before. -/
lemma cycle_add (h : m.Ordered) {new : IdempotencyKey} (hn : ∀ s ∈ m.slots, s.key ≠ new)
    (key : IdempotencyKey) : (m.add new).cycle key = m.cycle key := by
  rw [cycle_eq_iff (ordered_add h hn)]
  cases hs : m.slotOf? key with
  | some s =>
    obtain ⟨hm, rfl⟩ := (slotOf?_eq_some h).mp hs
    exact .inl ⟨s, mem_add.mpr (.inl hm), rfl, (cycle_of_mem h hm).symm⟩
  | none =>
    rw [cycle_of_none hs]
    by_cases hk : new = key
    · exact .inl ⟨m.newSlot new, mem_add.mpr (.inr rfl), hk, rfl⟩
    · refine .inr ⟨fun s hm => ?_, rfl⟩
      rcases mem_add.mp hm with hm | rfl
      · exact slotOf?_eq_none.mp hs s hm
      · exact hk

/-! ### Doing something to an entry -/

lemma setEntry_self (h : m.Ordered) {s : Slot} (hs : s ∈ m.slots) :
    m.setEntry s.id s.entry = m := by
  have he : m.slots.map (only s.id (Slot.withEntry s.entry)) = m.slots.map id := by
    apply List.map_congr_left
    intro t ht
    by_cases hi : t.id = s.id
    · rw [only_of_eq hi, eq_of_id h ht hs hi]
      rfl
    · rw [only_of_ne hi]
      rfl
  rw [setEntry_eq h, update, he, List.map_id]

/-- What is done to a slot that is there is done to its entry. -/
lemma act_eq (h : m.Ordered) {s : Slot} (hs : s ∈ m.slots) (now : Nat) (a : Action) :
    m.act now s.id a =
      ((s.entry.act (now + m.ttl) a).1, m.setEntry s.id (s.entry.act (now + m.ttl) a).2) := by
  have hf : m.slot? s.id = some s := (slot?_eq_some h).mpr ⟨hs, rfl⟩
  cases a with
  | acquire lease => simp only [act, tryAcquireAt, hf, Entry.act]
  | peek => simp only [act, peekAt, hf, Entry.act, setEntry_self h hs]
  | store lease value =>
    simp only [act, storeAt, hf, Entry.act]
    cases s.entry.store lease value (now + m.ttl) with
    | error => simp only [setEntry_self h hs]
    | ok e => rfl
  | release lease => simp only [act, releaseAt, hf, Entry.act]

lemma cycle_setEntry (h : m.Ordered) {s : Slot} (hs : s ∈ m.slots) (e : Entry)
    (key : IdempotencyKey) :
    (m.setEntry s.id e).cycle key = if s.key = key then e.cycle else m.cycle key := by
  rw [setEntry_eq h, cycle, slotOf?_update (keeps_only (Slot.keeps_withEntry e) s.id), cycle]
  cases hf : m.slotOf? key with
  | none => rw [if_neg (slotOf?_eq_none.mp hf s hs)]; rfl
  | some t =>
    obtain ⟨ht, rfl⟩ := (slotOf?_eq_some h).mp hf
    simp only [Option.map_some]
    by_cases hi : t.id = s.id
    · rw [only_of_eq hi, eq_of_id h ht hs hi, if_pos rfl]
      rfl
    · have hk : s.key ≠ t.key := fun hk => hi <| congrArg Slot.id <|
        List.inj_on_of_nodup_map h.keys ht hs hk.symm
      rw [only_of_ne hi, if_neg hk]

/-- Whoever has looked up a key gets the answer that the cycle of the key calls for. -/
lemma answer_act (h : m.Ordered) (sound : m.Sound) {s : Slot} (hs : s ∈ m.slots) (now : Nat)
    (a : Action) : (m.act now s.id a).1 = (m.cycle s.key).answer a := by
  rw [act_eq h hs, cycle_of_mem h hs]
  exact (sound s hs).answer_act _ a

lemma cycle_act (h : m.Ordered) (sound : m.Sound) {s : Slot} (hs : s ∈ m.slots) (now : Nat)
    (a : Action) (key : IdempotencyKey) :
    (m.act now s.id a).2.cycle key =
      if s.key = key then (m.cycle s.key).after (now + m.ttl) a else m.cycle key := by
  rw [act_eq h hs, cycle_setEntry h hs, (sound s hs).cycle_act, cycle_of_mem h hs]

/-- A key that has no entry answers as if it were free. -/
lemma answer_missing {key : IdempotencyKey} {a : Action} (hl : m.lookUp key a = none) :
    m.cycle key = .free ∧ missing a = (m.cycle key).answer a ∧
      ∀ due, (m.cycle key).after due a = m.cycle key := by
  cases a with
  | acquire => cases hl
  | peek =>
    have hc := cycle_of_none (Option.map_eq_none_iff.mp hl)
    rw [hc]
    exact ⟨rfl, rfl, fun _ => rfl⟩
  | store =>
    have hc := cycle_of_none (Option.map_eq_none_iff.mp hl)
    rw [hc]
    exact ⟨rfl, rfl, fun _ => rfl⟩
  | release =>
    have hc := cycle_of_none (Option.map_eq_none_iff.mp hl)
    rw [hc]
    refine ⟨rfl, rfl, fun _ => ?_⟩
    simp [Cycle.after, Cycle.lease?]

/-- What is done to a slot changes its entry at most. -/
lemma act_cases (m : MemoryStore) (now id : Nat) (a : Action) :
    (m.act now id a).2 = m ∨ ∃ e, (m.act now id a).2 = m.setEntry id e := by
  cases a with
  | acquire lease =>
    simp only [act, tryAcquireAt]
    split
    · exact .inl rfl
    · exact .inr ⟨_, rfl⟩
  | peek => exact .inl rfl
  | store lease value =>
    simp only [act, storeAt]
    split
    · exact .inl rfl
    · split
      · exact .inl rfl
      · exact .inr ⟨_, rfl⟩
  | release lease =>
    simp only [act, releaseAt]
    split
    · exact .inl rfl
    · exact .inr ⟨_, rfl⟩

lemma expire_cases (m : MemoryStore) (id generation : Nat) :
    m.expire id generation = m ∨ ∃ e, m.expire id generation = m.setEntry id e := by
  simp only [expire]
  split
  · exact .inl rfl
  · exact .inr ⟨_, rfl⟩

/-- Only the slot whose entry was changed can have a new timer. -/
lemma mem_timersSince (h : m.Ordered) {id : Nat} {e : Entry} {t : SlotTimer}
    (ht : t ∈ (m.setEntry id e).timersSince m) : t.slot = id ∧ e.timer = some t.timer := by
  obtain ⟨hnew, hold⟩ := List.mem_filter.mp ht
  rw [setEntry_eq h] at hnew
  obtain ⟨s', hs', hst⟩ := List.mem_filterMap.mp hnew
  obtain ⟨s, hs, rfl⟩ := List.mem_map.mp hs'
  by_cases hi : s.id = id
  · rw [only_of_eq hi] at hst
    obtain ⟨timer, htimer, rfl⟩ := Option.map_eq_some_iff.mp hst
    exact ⟨hi, htimer⟩
  · rw [only_of_ne hi] at hst
    have : t ∈ m.timers := List.mem_filterMap.mpr ⟨s, hs, hst⟩
    simp [this] at hold

/-! ### The leases that are to come -/

lemma nextLease_makeRoom (m : MemoryStore) : m.makeRoom.nextLease = m.nextLease := by
  rcases m.makeRoom_cases with e | e <;> rw [e]
  rfl

lemma nextLease_lookUp {key : IdempotencyKey} {a : Action} {slot : Nat} {m' : MemoryStore}
    (h : m.lookUp key a = some (slot, m')) : m'.nextLease = m.nextLease := by
  have found (h : m.takeUp? key = some (slot, m')) : m'.nextLease = m.nextLease := by
    obtain ⟨s, -, he⟩ := Option.map_eq_some_iff.mp h
    cases he
    rfl
  cases a with
  | acquire lease =>
    simp only [lookUp, takeUp, Option.some.injEq] at h
    split at h
    · cases h
      rfl
    · cases h
      exact nextLease_makeRoom m
  | peek => exact found h
  | store => exact found h
  | release => exact found h

lemma nextLease_act (m : MemoryStore) (now id : Nat) (a : Action) :
    ((m.act now id a).2.giveBack id).nextLease = m.nextLease := by
  rcases m.act_cases now id a with h | ⟨e, h⟩
  · rw [h]
    rfl
  · rw [h]
    rfl

lemma nextLease_expire (m : MemoryStore) (id generation : Nat) :
    (m.expire id generation).nextLease = m.nextLease := by
  rcases m.expire_cases id generation with h | ⟨e, h⟩
  · rw [h]
  · rw [h]
    rfl

end MemoryStore

end OnceProxy
