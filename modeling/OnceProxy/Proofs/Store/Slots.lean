import Mathlib.Data.List.Nodup
import Mathlib.Tactic.Common
import OnceProxy.Store.Memory

/-!
# Slots of a store

The slots of a store can be told apart by their keys and by their numbers. Every operation either
changes slots where they are, drops idle ones, or adds one with a number that was never used.
-/

namespace OnceProxy

/-- A change of slots that leaves their keys and numbers alone. -/
def Slot.Keeps (change : Slot → Slot) : Prop :=
  ∀ s, (change s).key = s.key ∧ (change s).id = s.id

/-- A slot with another entry. -/
def Slot.withEntry (e : Entry) (s : Slot) : Slot :=
  { s with entry := e }

/-- A slot with another number of those who are at work on it. -/
def Slot.withHandles (f : Nat → Nat) (s : Slot) : Slot :=
  { s with handles := f s.handles }

lemma Slot.keeps_withEntry (e : Entry) : Slot.Keeps (Slot.withEntry e) :=
  fun _ => ⟨rfl, rfl⟩

lemma Slot.keeps_withHandles (f : Nat → Nat) : Slot.Keeps (Slot.withHandles f) :=
  fun _ => ⟨rfl, rfl⟩

namespace MemoryStore

/-- No two slots have one key or one number, and the next number is above those in use. -/
structure Ordered (m : MemoryStore) : Prop where
  keys : (m.slots.map (·.key)).Nodup
  ids : (m.slots.map (·.id)).Nodup
  below : ∀ s ∈ m.slots, s.id < m.nextSlot

lemma ordered_new (ttl : Nat) : (new ttl).Ordered where
  keys := List.nodup_nil
  ids := List.nodup_nil
  below _ h := absurd h List.not_mem_nil

variable {m : MemoryStore}

/-! ### Looking for a slot -/

/-- Looking for a value that no two members share finds its only member. -/
private lemma find?_eq_some_of_nodup {α : Type} [DecidableEq α] {f : Slot → α} {ss : List Slot}
    (h : (ss.map f).Nodup) {a : α} {s : Slot} :
    ss.find? (f · = a) = some s ↔ s ∈ ss ∧ f s = a := by
  constructor
  · intro e
    exact ⟨List.mem_of_find?_eq_some e, by simpa using List.find?_some e⟩
  · rintro ⟨hs, rfl⟩
    cases e : ss.find? (f · = f s) with
    | none => simpa using List.find?_eq_none.mp e s hs
    | some t =>
      have ht : f t = f s := by simpa using List.find?_some e
      rw [List.inj_on_of_nodup_map h (List.mem_of_find?_eq_some e) hs ht]

lemma slotOf?_eq_some (h : m.Ordered) {key : IdempotencyKey} {s : Slot} :
    m.slotOf? key = some s ↔ s ∈ m.slots ∧ s.key = key :=
  find?_eq_some_of_nodup h.keys

lemma slot?_eq_some (h : m.Ordered) {id : Nat} {s : Slot} :
    m.slot? id = some s ↔ s ∈ m.slots ∧ s.id = id :=
  find?_eq_some_of_nodup h.ids

lemma slotOf?_eq_none {key : IdempotencyKey} :
    m.slotOf? key = none ↔ ∀ s ∈ m.slots, s.key ≠ key := by
  simp [slotOf?]

lemma eq_of_id (h : m.Ordered) {s t : Slot} (hs : s ∈ m.slots) (ht : t ∈ m.slots)
    (e : s.id = t.id) : s = t :=
  List.inj_on_of_nodup_map h.ids hs ht e

/-! ### Changing slots -/

/-- Changes the slots of a store. -/
def update (m : MemoryStore) (change : Slot → Slot) : MemoryStore :=
  { m with slots := m.slots.map change }

/-- Changes the slot with a number, and no other. -/
def only (id : Nat) (change : Slot → Slot) (s : Slot) : Slot :=
  if s.id = id then change s else s

lemma only_of_eq {id : Nat} {s : Slot} (h : s.id = id) (change : Slot → Slot) :
    only id change s = change s := if_pos h

lemma only_of_ne {id : Nat} {s : Slot} (h : s.id ≠ id) (change : Slot → Slot) :
    only id change s = s := if_neg h

lemma keeps_only {change : Slot → Slot} (h : Slot.Keeps change) (id : Nat) :
    Slot.Keeps (only id change) := by
  intro s
  by_cases hs : s.id = id
  · rw [only_of_eq hs]
    exact h s
  · rw [only_of_ne hs]
    exact ⟨rfl, rfl⟩

lemma entry_only_withHandles (f : Nat → Nat) (id : Nat) (s : Slot) :
    (only id (Slot.withHandles f) s).entry = s.entry := by
  unfold only
  split <;> rfl

lemma handles_only_withEntry (e : Entry) (id : Nat) (s : Slot) :
    (only id (Slot.withEntry e) s).handles = s.handles := by
  unfold only
  split <;> rfl

/-- Changing a slot leaves alone what the change leaves alone. -/
lemma map_alter {α : Type} {f : Slot → α} {change : Slot → Slot} (hf : ∀ s, f (change s) = f s)
    (id : Nat) (ss : List Slot) : (alter id change ss).map f = ss.map f := by
  induction ss with
  | nil => rfl
  | cons s ss ih =>
    simp only [alter]
    split
    · simp only [List.map_cons, hf]
    · simp only [List.map_cons, ih]

/-- Slots that come before the one that is changed stay as they are. -/
lemma alter_append {id : Nat} {ss : List Slot} (h : ∀ s ∈ ss, s.id ≠ id) (change : Slot → Slot)
    (ts : List Slot) : alter id change (ss ++ ts) = ss ++ alter id change ts := by
  induction ss with
  | nil => rfl
  | cons s ss ih =>
    rw [List.forall_mem_cons] at h
    rw [List.cons_append, alter, if_neg h.1, ih h.2, List.cons_append]

lemma alter_eq_map {ss : List Slot} (h : (ss.map (·.id)).Nodup) (id : Nat)
    (change : Slot → Slot) : alter id change ss = ss.map (only id change) := by
  induction ss with
  | nil => rfl
  | cons s ss ih =>
    rw [List.map_cons, List.nodup_cons] at h
    rw [alter, List.map_cons]
    by_cases hs : s.id = id
    · -- the number is not used again in the rest
      have hss : ss.map (only id change) = ss := by
        conv_rhs => rw [← List.map_id ss]
        refine List.map_congr_left fun t ht => only_of_ne (fun e => ?_) change
        exact h.1 (List.mem_map.mpr ⟨t, ht, e.trans hs.symm⟩)
      rw [if_pos hs, only_of_eq hs, hss]
    · rw [if_neg hs, only_of_ne hs, ih h.2]

lemma setEntry_eq (h : m.Ordered) (id : Nat) (e : Entry) :
    m.setEntry id e = m.update (only id (Slot.withEntry e)) := by
  rw [update, ← alter_eq_map h.ids]
  rfl

lemma hold_eq (h : m.Ordered) (id : Nat) :
    m.hold id = m.update (only id (Slot.withHandles (· + 1))) := by
  rw [update, ← alter_eq_map h.ids]
  rfl

lemma giveBack_eq (h : m.Ordered) (id : Nat) :
    m.giveBack id = m.update (only id (Slot.withHandles (· - 1))) := by
  rw [update, ← alter_eq_map h.ids]
  rfl

lemma ordered_update (h : m.Ordered) {change : Slot → Slot} (hc : Slot.Keeps change) :
    (m.update change).Ordered := by
  have hk : (m.slots.map change).map (·.key) = m.slots.map (·.key) := by
    rw [List.map_map]
    exact List.map_congr_left fun s _ => (hc s).1
  have hi : (m.slots.map change).map (·.id) = m.slots.map (·.id) := by
    rw [List.map_map]
    exact List.map_congr_left fun s _ => (hc s).2
  refine ⟨hk ▸ h.keys, hi ▸ h.ids, ?_⟩
  intro t ht
  obtain ⟨s, hs, rfl⟩ := List.mem_map.mp ht
  rw [(hc s).2]
  exact h.below s hs

lemma slotOf?_update {change : Slot → Slot} (hc : Slot.Keeps change) (key : IdempotencyKey) :
    (m.update change).slotOf? key = (m.slotOf? key).map change := by
  rw [slotOf?, update, List.find?_map, slotOf?]
  congr 2
  funext s
  exact congrArg (decide <| · = key) (hc s).1

/-! ### Dropping slots -/

@[simp] lemma mem_evictIdle {s : Slot} :
    s ∈ m.evictIdle.2.slots ↔ s ∈ m.slots ∧ s.isIdle = false := by
  simp [evictIdle]

lemma ordered_evictIdle (h : m.Ordered) : m.evictIdle.2.Ordered where
  keys := h.keys.sublist (List.filter_sublist.map _)
  ids := h.ids.sublist (List.filter_sublist.map _)
  below s hs := h.below s (mem_evictIdle.mp hs).1

lemma makeRoom_cases (m : MemoryStore) : m.makeRoom = m ∨ m.makeRoom = m.evictIdle.2 := by
  unfold makeRoom
  split
  · exact .inr rfl
  · exact .inl rfl

lemma nextSlot_makeRoom (m : MemoryStore) : m.makeRoom.nextSlot = m.nextSlot := by
  rcases m.makeRoom_cases with e | e <;> rw [e]
  rfl

lemma mem_of_mem_makeRoom {s : Slot} (h : s ∈ m.makeRoom.slots) : s ∈ m.slots := by
  rcases m.makeRoom_cases with e | e
  · rwa [e] at h
  · rw [e] at h
    exact (mem_evictIdle.mp h).1

/-! ### Adding a slot -/

/-- The slot that is made for a key. -/
def newSlot (m : MemoryStore) (key : IdempotencyKey) : Slot :=
  ⟨key, m.nextSlot, .new, 0⟩

/-- Adds a new slot for a key. -/
def add (m : MemoryStore) (key : IdempotencyKey) : MemoryStore :=
  { m with
    nextSlot := m.nextSlot + 1
    created := m.created + 1
    slots := m.slots ++ [m.newSlot key] }

lemma create_eq (m : MemoryStore) (key : IdempotencyKey) : m.create key = m.makeRoom.add key :=
  rfl

@[simp] lemma mem_add {key : IdempotencyKey} {s : Slot} :
    s ∈ (m.add key).slots ↔ s ∈ m.slots ∨ s = m.newSlot key := by
  simp [add]

lemma ordered_add (h : m.Ordered) {key : IdempotencyKey} (hk : ∀ s ∈ m.slots, s.key ≠ key) :
    (m.add key).Ordered where
  keys := by
    rw [add, List.map_append, List.nodup_append]
    refine ⟨h.keys, by simp, ?_⟩
    rintro a ha b hb rfl
    obtain ⟨s, hs, rfl⟩ := List.mem_map.mp ha
    exact hk s hs (by simpa [newSlot] using hb)
  ids := by
    rw [add, List.map_append, List.nodup_append]
    refine ⟨h.ids, by simp, ?_⟩
    rintro a ha b hb rfl
    obtain ⟨s, hs, rfl⟩ := List.mem_map.mp ha
    exact Nat.ne_of_lt (h.below s hs) (by simpa [newSlot] using hb)
  below s hs := by
    rcases mem_add.mp hs with hs | rfl
    · exact Nat.lt_succ_of_lt (h.below s hs)
    · exact Nat.lt_succ_self _

end MemoryStore

end OnceProxy
