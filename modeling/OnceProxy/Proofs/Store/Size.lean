import OnceProxy.Proofs.Store.Actions

/-!
# The size of a store

Entries stay in a store until a cleanup drops those that nobody needs. There is one before an entry
is made if there are many entries and many new ones, and there are sweeps at any time. So the number
of entries is bounded by what the last cleanup has left, whatever clients and timers do meanwhile.
-/

namespace OnceProxy

/-- Somebody who has taken up a slot, and whether they have locked its entry. This can be a client
or the task of a timer. -/
structure Holder where
  slot : Nat
  locks : Bool
  deriving DecidableEq, Repr

/-- A store with those who have taken up slots, and the number of entries that the last cleanup has
left. -/
structure HeldStore where
  store : MemoryStore
  holders : List Holder
  left : Nat

/-- What can happen next: a lease is drawn, the slot of a key is taken up, which is made if there is
none, or only if there is one, a task of a timer takes up its slot, somebody locks the entry, does
something to it or resets it for a timer, and then unlocks it, or gives the slot back, or idle
entries are dropped. -/
inductive HeldMove where
  | draw
  | takeUp (key : IdempotencyKey)
  | find (key : IdempotencyKey)
  | wake (slot : Nat)
  | lock (slot : Nat)
  | act (slot now : Nat) (action : Action)
  | expire (slot generation : Nat)
  | giveBack (slot : Nat)
  | sweep

/-- Whether idle entries are dropped before another one is made. -/
def MemoryStore.isCrowded (m : MemoryStore) : Bool :=
  roomyUpTo < m.size && cleanupInterval ≤ m.created

namespace HeldStore

/-- A store without entries. -/
def start (ttl : Nat) : HeldStore := ⟨.new ttl, [], 0⟩

/-- Somebody takes up a slot, by which the store becomes another one. -/
def hold (s : HeldStore) (taken : Nat × MemoryStore) : HeldStore :=
  { s with store := taken.2, holders := ⟨taken.1, false⟩ :: s.holders }

/-- Whoever has locked the entry of a slot unlocks it. -/
def unlock (s : HeldStore) (id : Nat) : HeldStore :=
  { s with holders := ⟨id, false⟩ :: s.holders.erase ⟨id, true⟩ }

/-- What a move does to a store. An entry can be locked by one holder at a time. Moves that are not
possible change nothing. -/
def move (s : HeldStore) : HeldMove → HeldStore
  | .draw => { s with store := s.store.draw.2 }
  | .takeUp key => s.hold (s.store.takeUp key)
  | .find key => ((s.store.takeUp? key).map s.hold).getD s
  | .wake id => if (s.store.slot? id).isSome then s.hold (id, s.store.hold id) else s
  | .lock id =>
    if ⟨id, false⟩ ∈ s.holders ∧ ⟨id, true⟩ ∉ s.holders then
      { s with holders := ⟨id, true⟩ :: s.holders.erase ⟨id, false⟩ }
    else s
  | .act id now action =>
    if ⟨id, true⟩ ∈ s.holders then { s.unlock id with store := (s.store.act now id action).2 }
    else s
  | .expire id generation =>
    if ⟨id, true⟩ ∈ s.holders then { s.unlock id with store := s.store.expire id generation }
    else s
  | .giveBack id =>
    if ⟨id, false⟩ ∈ s.holders then
      { s with store := s.store.giveBack id, holders := s.holders.erase ⟨id, false⟩ }
    else s
  | .sweep => { s with store := s.store.evictIdle.2 }

/-- Whether a move makes a cleanup. -/
def cleans (s : HeldStore) : HeldMove → Bool
  | .takeUp key => (s.store.slotOf? key).isNone && s.store.isCrowded
  | .sweep => true
  | _ => false

/-- Makes a move, and notes what a cleanup leaves. -/
def step (s : HeldStore) (move : HeldMove) : HeldStore :=
  { s.move move with left := if s.cleans move then s.store.evictIdle.2.size else s.left }

/-- Makes moves one after the other. -/
def run (s : HeldStore) (moves : List HeldMove) : HeldStore :=
  moves.foldl step s

/-- How many have taken up a slot. -/
def count (s : HeldStore) (id : Nat) : Nat :=
  s.holders.countP (·.slot = id)

/-- Whether somebody has taken up a slot. -/
def isHeld (s : HeldStore) (id : Nat) : Bool :=
  s.holders.any (·.slot = id)

/-- Whether somebody has locked the entry of a slot. -/
def isLocked (s : HeldStore) (id : Nat) : Bool :=
  s.holders.any fun h => h.slot = id && h.locks

/-- Whether nobody needs the entry of a slot: it is empty, not locked, and only in the store. -/
def isDeserted (s : HeldStore) (x : Slot) : Bool :=
  x.entry.phase = .empty && !s.isLocked x.id && !s.isHeld x.id

end HeldStore

/-! ### Those who have taken up slots -/

/-- The slots of a store are in place for all who have taken them up, and count them. -/
structure Attended (m : MemoryStore) (count : Nat → Nat) : Prop where
  ordered : m.Ordered
  handles : ∀ x ∈ m.slots, x.handles = count x.id
  placed : ∀ id, 0 < count id → ∃ x ∈ m.slots, x.id = id

namespace Attended

open MemoryStore

variable {m : MemoryStore} {count count' : Nat → Nat} {id : Nat}

lemma update (h : Attended m count) {change : Slot → Slot} (keeps : Slot.Keeps change)
    (handles : ∀ x ∈ m.slots, (change x).handles = count' x.id)
    (placed : ∀ id, 0 < count' id → ∃ x ∈ m.slots, x.id = id) :
    Attended (m.update change) count' where
  ordered := ordered_update h.ordered keeps
  handles := by
    intro y hy
    obtain ⟨x, hx, rfl⟩ := List.mem_map.mp hy
    rw [(keeps x).2]
    exact handles x hx
  placed := by
    intro id hid
    obtain ⟨x, hx, rfl⟩ := placed id hid
    exact ⟨change x, List.mem_map_of_mem hx, (keeps x).2⟩

lemma setEntry (h : Attended m count) (id : Nat) (e : Entry) :
    Attended (m.setEntry id e) count := by
  rw [setEntry_eq h.ordered]
  apply h.update (keeps_only (Slot.keeps_withEntry e) id) _ h.placed
  intro x hx
  rw [handles_only_withEntry, h.handles x hx]

lemma hold (h : Attended m count) {x : Slot} (hx : x ∈ m.slots)
    (one : ∀ j, count' j = count j + if j = x.id then 1 else 0) :
    Attended (m.hold x.id) count' := by
  rw [hold_eq h.ordered]
  apply h.update (keeps_only (Slot.keeps_withHandles _) x.id)
  · intro y hy
    by_cases hi : y.id = x.id
    · rw [only_of_eq hi, Slot.withHandles, h.handles y hy, one, if_pos hi]
    · rw [only_of_ne hi, h.handles y hy, one, if_neg hi, Nat.add_zero]
  · intro j hj
    by_cases hi : j = x.id
    · exact ⟨x, hx, hi.symm⟩
    · rw [one, if_neg hi, Nat.add_zero] at hj
      exact h.placed j hj

lemma giveBack (h : Attended m count) (one : ∀ j, count j = count' j + if j = id then 1 else 0) :
    Attended (m.giveBack id) count' := by
  rw [giveBack_eq h.ordered]
  apply h.update (keeps_only (Slot.keeps_withHandles _) id)
  · intro y hy
    by_cases hi : y.id = id
    · rw [only_of_eq hi, Slot.withHandles, h.handles y hy, one, if_pos hi, Nat.add_sub_cancel]
    · rw [only_of_ne hi, h.handles y hy, one, if_neg hi, Nat.add_zero]
  · intro j hj
    exact h.placed j (one j ▸ Nat.add_pos_left hj _)

/-- What is dropped is not held. -/
lemma evictIdle (h : Attended m count) : Attended m.evictIdle.2 count where
  ordered := ordered_evictIdle h.ordered
  handles x hx := h.handles x (mem_evictIdle.mp hx).1
  placed id hid := by
    obtain ⟨x, hx, rfl⟩ := h.placed id hid
    rw [← h.handles x hx] at hid
    exact ⟨x, mem_evictIdle.mpr ⟨hx, by simp [Slot.isIdle, Nat.ne_of_gt hid]⟩, rfl⟩

lemma makeRoom (h : Attended m count) : Attended m.makeRoom count := by
  rcases m.makeRoom_cases with e | e
  · rwa [e]
  · rw [e]
    exact h.evictIdle

lemma add (h : Attended m count) {key : IdempotencyKey} (hn : ∀ x ∈ m.slots, x.key ≠ key) :
    Attended (m.add key) count where
  ordered := ordered_add h.ordered hn
  handles x hx := by
    rcases mem_add.mp hx with hx | rfl
    · exact h.handles x hx
    · symm
      apply Nat.eq_zero_of_not_pos
      intro hid
      obtain ⟨x, hx, hi⟩ := h.placed _ hid
      exact Nat.ne_of_lt (h.ordered.below x hx) hi
  placed id hid := by
    obtain ⟨x, hx, hi⟩ := h.placed id hid
    exact ⟨x, mem_add.mpr (.inl hx), hi⟩

end Attended

/-! ### Sizes -/

namespace MemoryStore

variable {m : MemoryStore}

lemma isCrowded_iff : m.isCrowded = true ↔ 1024 < m.size ∧ 256 ≤ m.created := by
  rw [isCrowded, Bool.and_eq_true, decide_eq_true_iff, decide_eq_true_iff]
  rfl

lemma makeRoom_of_crowded (h : m.isCrowded = true) : m.makeRoom = m.evictIdle.2 :=
  if_pos h

lemma makeRoom_of_not_crowded (h : m.isCrowded = false) : m.makeRoom = m :=
  if_neg (by simpa [isCrowded] using h)

/-- The numbers of the slots. -/
def ids (m : MemoryStore) : List Nat :=
  m.slots.map (·.id)

lemma length_ids (m : MemoryStore) : m.ids.length = m.size :=
  List.length_map _

lemma ids_hold (m : MemoryStore) (id : Nat) : (m.hold id).ids = m.ids := by
  apply map_alter
  exact fun _ => rfl

lemma ids_giveBack (m : MemoryStore) (id : Nat) : (m.giveBack id).ids = m.ids := by
  apply map_alter
  exact fun _ => rfl

lemma ids_setEntry (m : MemoryStore) (id : Nat) (e : Entry) : (m.setEntry id e).ids = m.ids := by
  apply map_alter
  exact fun _ => rfl

lemma ids_add (m : MemoryStore) (key : IdempotencyKey) :
    (m.add key).ids = m.ids ++ [m.nextSlot] := by
  simp [ids, add, newSlot]

end MemoryStore

namespace HeldStore

variable {s : HeldStore} {id : Nat}

lemma count_cons (h : Holder) (hs : List Holder) (j : Nat) :
    (h :: hs).countP (·.slot = j) = hs.countP (·.slot = j) + if j = h.slot then 1 else 0 := by
  simp [List.countP_cons, eq_comm]

lemma count_erase {h : Holder} (hm : h ∈ s.holders) (j : Nat) :
    s.count j = (s.holders.erase h).countP (·.slot = j) + if j = h.slot then 1 else 0 := by
  rw [← count_cons, count, (List.perm_cons_erase hm).countP_eq]

/-- Whoever locks or unlocks an entry has still taken up the slot. -/
lemma count_replace {locks : Bool} (hm : ⟨id, locks⟩ ∈ s.holders) (locks' : Bool) (j : Nat) :
    (⟨id, locks'⟩ :: s.holders.erase ⟨id, locks⟩ : List Holder).countP (·.slot = j) =
      s.count j := by
  rw [count_erase hm, count_cons]

/-! ### Moves that neither make entries nor drop any -/

/-- What stays when no entry comes or goes. -/
structure Calm (s t : HeldStore) : Prop where
  attended : Attended t.store t.count
  ids : t.store.ids = s.store.ids
  created : t.store.created = s.store.created
  left : t.left = s.left

namespace Calm

lemma refl (h : Attended s.store s.count) : Calm s s :=
  ⟨h, rfl, rfl, rfl⟩

lemma hold (h : Attended s.store s.count) {x : Slot} (hx : x ∈ s.store.slots) :
    Calm s (s.hold (x.id, s.store.hold x.id)) :=
  ⟨h.hold hx (count_cons _ _), s.store.ids_hold x.id, rfl, rfl⟩

lemma lock (h : Attended s.store s.count) (free : ⟨id, false⟩ ∈ s.holders) :
    Calm s { s with holders := ⟨id, true⟩ :: s.holders.erase ⟨id, false⟩ } := by
  have attended : Attended s.store fun j =>
      (⟨id, true⟩ :: s.holders.erase ⟨id, false⟩ : List Holder).countP (·.slot = j) := by
    simpa only [count_replace free] using h
  exact ⟨attended, rfl, rfl, rfl⟩

/-- What is done to an entry by whoever has locked it. -/
lemma unlock (h : Attended s.store s.count) (locked : ⟨id, true⟩ ∈ s.holders) {m : MemoryStore}
    (hm : m = s.store ∨ ∃ e, m = s.store.setEntry id e) :
    Calm s { s.unlock id with store := m } := by
  have attended (h : Attended m s.count) :
      Attended m fun j => (s.unlock id).holders.countP (·.slot = j) := by
    simpa only [HeldStore.unlock, count_replace locked] using h
  rcases hm with rfl | ⟨e, rfl⟩
  · exact ⟨attended h, rfl, rfl, rfl⟩
  · exact ⟨attended (h.setEntry id e), s.store.ids_setEntry id e, rfl, rfl⟩

lemma size_eq {t : HeldStore} (h : Calm s t) : t.store.size = s.store.size := by
  rw [← MemoryStore.length_ids, h.ids, MemoryStore.length_ids]

end Calm

/-- Entries come or go only where a slot is taken up that was not there, or in a sweep. -/
lemma calm_or_takeUp_or_sweep (h : Attended s.store s.count) (move : HeldMove) :
    Calm s (s.step move) ∨ (∃ key, move = .takeUp key ∧ s.store.slotOf? key = none) ∨
      move = .sweep := by
  -- one case for each move: only the last and an acquisition of an unknown key drop slots
  cases move with
  | draw =>
    have attended : Attended s.store.draw.2 s.count :=
      ⟨⟨h.ordered.keys, h.ordered.ids, h.ordered.below⟩, h.handles, h.placed⟩
    exact .inl ⟨attended, rfl, rfl, rfl⟩
  | takeUp key =>
    cases hs : s.store.slotOf? key with
    | none => exact .inr (.inl ⟨key, rfl, hs⟩)
    | some x =>
      have found : s.step (.takeUp key) = s.hold (x.id, s.store.hold x.id) := by
        simp [step, move, cleans, MemoryStore.takeUp, hs, hold]
      rw [found]
      exact .inl (.hold h ((MemoryStore.slotOf?_eq_some h.ordered).mp hs).1)
  | find key =>
    left
    simp only [step, move, cleans, MemoryStore.takeUp?]
    cases hs : s.store.slotOf? key with
    | none => exact .refl h
    | some x => exact .hold h ((MemoryStore.slotOf?_eq_some h.ordered).mp hs).1
  | wake id =>
    left
    simp only [step, move, cleans]
    cases hs : s.store.slot? id with
    | none => exact .refl h
    | some x =>
      obtain ⟨hx, rfl⟩ := (MemoryStore.slot?_eq_some h.ordered).mp hs
      exact .hold h hx
  | lock id =>
    left
    simp only [step, move, cleans]
    split
    · rename_i free
      exact .lock h free.1
    · exact .refl h
  | act id now action =>
    left
    simp only [step, move, cleans]
    split
    · rename_i locked
      exact .unlock h locked (s.store.act_cases now id action)
    · exact .refl h
  | expire id generation =>
    left
    simp only [step, move, cleans]
    split
    · rename_i locked
      exact .unlock h locked (s.store.expire_cases id generation)
    · exact .refl h
  | giveBack id =>
    left
    simp only [step, move, cleans]
    split
    · rename_i held
      exact ⟨h.giveBack (count_erase held), s.store.ids_giveBack id, rfl, rfl⟩
    · exact .refl h
  | sweep => exact .inr (.inr rfl)

/-! ### Growth -/

/-- What bounds the size of a store: it has grown by those entries that were made since the last
cleanup. -/
structure Small (s : HeldStore) : Prop where
  attended : Attended s.store s.count
  grown : s.store.size = s.left + s.store.created
  bounded : s.store.size ≤ max 1025 (s.left + 256)

namespace Small

lemma start (ttl : Nat) : (start ttl).Small where
  attended :=
    ⟨MemoryStore.ordered_new ttl, List.forall_mem_nil _, fun _ h => absurd h (Nat.lt_irrefl 0)⟩
  grown := rfl
  bounded := Nat.zero_le _

lemma of_calm (h : s.Small) {t : HeldStore} (calm : Calm s t) : t.Small := by
  refine ⟨calm.attended, ?_, ?_⟩
  · rw [calm.size_eq, calm.left, calm.created, h.grown]
  · rw [calm.size_eq, calm.left]
    exact h.bounded

/-- There is room for one more entry, after a cleanup if there has to be one. -/
lemma room (h : s.Small) :
    let left := if s.store.isCrowded then s.store.evictIdle.2.size else s.left
    s.store.makeRoom.size = left + s.store.makeRoom.created ∧
    s.store.makeRoom.size + 1 ≤ max 1025 (left + 256) := by
  cases crowded : s.store.isCrowded with
  | true =>
    -- idle slots are dropped, so the count starts at zero again
    rw [MemoryStore.makeRoom_of_crowded crowded]
    intro left
    refine ⟨rfl, ?_⟩
    change left + 1 ≤ max 1025 (left + 256)
    omega
  | false =>
    -- nothing is dropped: either there are few slots, or few have come since the last time
    have roomy : ¬ (1024 < s.store.size ∧ 256 ≤ s.store.created) := by
      rw [← MemoryStore.isCrowded_iff, crowded]
      decide
    have grown := h.grown
    rw [MemoryStore.makeRoom_of_not_crowded crowded]
    refine ⟨grown, ?_⟩
    change s.store.size + 1 ≤ max 1025 (s.left + 256)
    omega

lemma takeUp (h : s.Small) {key : IdempotencyKey} (hs : s.store.slotOf? key = none) :
    (s.step (.takeUp key)).Small := by
  have unknown : ∀ x ∈ s.store.makeRoom.slots, x.key ≠ key := fun x hx =>
    MemoryStore.slotOf?_eq_none.mp hs x (MemoryStore.mem_of_mem_makeRoom hx)
  have added := h.attended.makeRoom.add unknown
  have hm : s.store.makeRoom.newSlot key ∈ (s.store.makeRoom.add key).slots :=
    MemoryStore.mem_add.mpr (.inr rfl)
  obtain ⟨grown, bounded⟩ := h.room
  have made : s.step (.takeUp key) = ⟨(s.store.makeRoom.add key).hold s.store.makeRoom.nextSlot,
      ⟨s.store.makeRoom.nextSlot, false⟩ :: s.holders,
      if s.store.isCrowded then s.store.evictIdle.2.size else s.left⟩ := by
    simp [step, move, cleans, MemoryStore.takeUp, hs, hold, MemoryStore.create_eq,
      s.store.nextSlot_makeRoom]
  rw [made]
  have size : ((s.store.makeRoom.add key).hold s.store.makeRoom.nextSlot).size =
      s.store.makeRoom.size + 1 := by
    rw [← MemoryStore.length_ids, MemoryStore.ids_hold, MemoryStore.ids_add, List.length_append,
      MemoryStore.length_ids, List.length_singleton]
  refine ⟨added.hold hm (count_cons _ _), ?_, ?_⟩
  · rw [size, grown]
    rfl
  · rw [size]
    exact bounded

lemma sweep (h : s.Small) : (s.step .sweep).Small := by
  refine ⟨h.attended.evictIdle, rfl, ?_⟩
  exact Nat.le_trans (Nat.le_add_right _ 256) (Nat.le_max_right ..)

lemma step (h : s.Small) (move : HeldMove) : (s.step move).Small := by
  rcases calm_or_takeUp_or_sweep h.attended move with calm | ⟨key, rfl, unknown⟩ | rfl
  · exact h.of_calm calm
  · exact h.takeUp unknown
  · exact h.sweep

lemma run (h : s.Small) (moves : List HeldMove) : (s.run moves).Small := by
  induction moves generalizing s with
  | nil => exact h
  | cons move moves ih => exact ih (h.step move)

end Small

/-! ### What is dropped -/

lemma isHeld_iff : s.isHeld id = true ↔ 0 < s.count id := by
  rw [isHeld, count, List.any_eq_true, List.countP_pos_iff]

lemma isHeld_of_isLocked (h : s.isLocked id = true) : s.isHeld id = true := by
  obtain ⟨holder, hm, hl⟩ := List.any_eq_true.mp h
  exact List.any_eq_true.mpr ⟨holder, hm, (Bool.and_eq_true_iff.mp hl).1⟩

/-- Nobody needs an entry just if it is idle. -/
lemma isDeserted_eq_isIdle (h : Attended s.store s.count) {x : Slot} (hx : x ∈ s.store.slots) :
    s.isDeserted x = x.isIdle := by
  rw [isDeserted, Slot.isIdle, h.handles x hx]
  cases held : s.isHeld x.id with
  | true =>
    have pos := Nat.ne_of_gt (isHeld_iff.mp held)
    simp [pos]
  | false =>
    have none : s.count x.id = 0 := by
      apply Nat.eq_zero_of_not_pos
      rw [← isHeld_iff, held]
      decide
    -- whoever locks a slot also holds it
    have free : s.isLocked x.id = false := by
      by_contra locked
      have := isHeld_of_isLocked (by simpa using locked)
      rw [held] at this
      cases this
    simp [none, free]

/-- The entries that a cleanup leaves. -/
def kept (s : HeldStore) : List Slot :=
  s.store.slots.filter (! s.isDeserted ·)

lemma evictIdle_eq (h : Attended s.store s.count) :
    s.store.evictIdle = ((s.store.slots.filter s.isDeserted).length,
      { s.store with slots := s.kept, created := 0 }) := by
  have idle : s.store.slots.filter (! ·.isIdle) = s.kept :=
    List.filter_congr fun x hx => by rw [isDeserted_eq_isIdle h hx]
  have count : s.store.size - s.kept.length = (s.store.slots.filter s.isDeserted).length := by
    rw [MemoryStore.size, kept, List.length_eq_length_filter_add s.isDeserted, Nat.add_sub_cancel]
  simp only [MemoryStore.evictIdle, idle, count]

/-- After a cleanup there are those entries that it leaves and at most one that is new. -/
lemma slots_of_cleans (h : Attended s.store s.count) {move : HeldMove}
    (cleans : s.cleans move = true) :
    ∃ made, (s.step move).store.slots = s.kept ++ made ∧ ∀ x ∈ made, s.store.nextSlot ≤ x.id := by
  have left : s.store.evictIdle.2.slots = s.kept := by rw [evictIdle_eq h]
  cases move with
  | takeUp key =>
    obtain ⟨unknown, crowded⟩ := Bool.and_eq_true_iff.mp cleans
    have unknown := Option.isNone_iff_eq_none.mp unknown
    -- the new slot has a number of its own, so holding it changes no slot that is kept
    have fresh : ∀ x ∈ s.kept, x.id ≠ s.store.nextSlot := fun x hx =>
      Nat.ne_of_lt (h.ordered.below x (List.mem_filter.mp hx).1)
    have store : (s.step (.takeUp key)).store =
        (s.store.evictIdle.2.add key).hold s.store.nextSlot := by
      simp only [HeldStore.step, move, hold, MemoryStore.takeUp, unknown, MemoryStore.create_eq,
        MemoryStore.makeRoom_of_crowded crowded]
    refine ⟨[⟨key, s.store.nextSlot, .new, 1⟩], ?_, by simp⟩
    rw [store, MemoryStore.hold, MemoryStore.add, left, MemoryStore.alter_append fresh]
    exact congrArg (s.kept ++ ·) (if_pos rfl)
  | sweep => exact ⟨[], by rw [List.append_nil]; exact left, List.forall_mem_nil _⟩
  | draw | find | wake | lock | act | expire | giveBack => cases cleans

/-- No other move drops an entry. -/
lemma ids_of_not_cleans (h : Attended s.store s.count) {move : HeldMove}
    (cleans : s.cleans move = false) : s.store.ids <+: (s.step move).store.ids := by
  rcases calm_or_takeUp_or_sweep h move with calm | ⟨key, rfl, unknown⟩ | rfl
  · exact calm.ids ▸ List.prefix_rfl
  · have roomy : s.store.isCrowded = false := by simpa [HeldStore.cleans, unknown] using cleans
    simp only [step, move, hold, MemoryStore.takeUp, unknown]
    rw [MemoryStore.ids_hold, MemoryStore.create_eq, MemoryStore.makeRoom_of_not_crowded roomy,
      MemoryStore.ids_add]
    exact List.prefix_append ..
  · cases cleans

end HeldStore

/-- A store stays small. Whatever clients, timers and sweeps do, and whoever has taken up entries,
there are never more than 1025 entries or 256 more than the last cleanup has left. A cleanup drops
just those entries that are empty, not locked, and held by nobody but the store, and counts them. No
other move drops any. -/
theorem run_stays_small (ttl : Nat) (moves : List HeldMove) :
    let s := (HeldStore.start ttl).run moves
    s.store.size ≤ max 1025 (s.left + 256) ∧
    s.store.evictIdle = ((s.store.slots.filter s.isDeserted).length,
      { s.store with slots := s.kept, created := 0 }) ∧
    ∀ move,
      (s.cleans move = true → (s.step move).left = s.kept.length ∧
        ∃ made, (s.step move).store.slots = s.kept ++ made ∧
          ∀ x ∈ made, s.store.nextSlot ≤ x.id) ∧
      (s.cleans move = false → (s.step move).left = s.left ∧
        s.store.ids <+: (s.step move).store.ids) := by
  intro s
  have small : s.Small := (HeldStore.Small.start ttl).run moves
  have dropped := HeldStore.evictIdle_eq small.attended
  refine ⟨small.bounded, dropped, fun move => ⟨fun cleans => ?_, fun cleans => ?_⟩⟩
  · refine ⟨?_, HeldStore.slots_of_cleans small.attended cleans⟩
    rw [HeldStore.step, if_pos cleans, dropped]
    rfl
  · refine ⟨?_, HeldStore.ids_of_not_cleans small.attended cleans⟩
    rw [HeldStore.step, cleans, if_neg (by decide)]

/-- Of four entries one is used, one is locked, one is held, and one is deserted. -/
def visitors : List HeldMove :=
  let key (name : String) : IdempotencyKey := ⟨"a", "GET", name⟩
  [.draw, .takeUp (key "used"), .lock 0, .act 0 0 (.acquire ⟨1⟩), .giveBack 0,
    .takeUp (key "locked"), .lock 1, .takeUp (key "held"), .takeUp (key "deserted"), .giveBack 3]

theorem run_stays_small_visitors :
    let s := (HeldStore.start 5).run visitors
    s.store.size = 4 ∧ s.store.size ≤ max 1025 (s.left + 256) ∧
    s.cleans .sweep = true ∧ s.kept.map (·.id) = [0, 1, 2] ∧ s.store.evictIdle.1 = 1 ∧
    (s.step .sweep).left = 3 ∧ s.cleans (.find ⟨"a", "GET", "held"⟩) = false ∧
    s.store.ids <+: (s.step (.find ⟨"a", "GET", "held"⟩)).store.ids := by
  intro s
  obtain ⟨bounded, dropped, moves⟩ := run_stays_small 5 visitors
  have size : s.store.size = 4 := by decide
  have cleans : s.cleans .sweep = true := by decide
  have keeps : s.cleans (.find ⟨"a", "GET", "held"⟩) = false := by decide
  have kept : s.kept.map (·.id) = [0, 1, 2] := by decide
  obtain ⟨left, -⟩ := (moves .sweep).1 cleans
  refine ⟨size, bounded, cleans, kept, ?_, ?_, keeps, ((moves _).2 keeps).2⟩
  · have one : (s.store.slots.filter s.isDeserted).length = 1 := by decide
    exact (congrArg Prod.fst dropped).trans one
  · have three : s.kept.length = 3 := by simpa using congrArg List.length kept
    exact left.trans three

end OnceProxy
