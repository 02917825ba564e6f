import OnceProxy.Proofs.Envelope.ReadBack
import OnceProxy.Proofs.Store.Operations

/-!
# How long entries last

If every timer goes off when its sleep ends, a lease holds its key for the TTL and no longer, and a
value is kept for the TTL from when it was stored. Whatever is done without success moves no end.
-/

namespace OnceProxy

namespace MemoryStore

/-- Nothing is to be found for a key, and whoever wants to acquire it does. -/
def IsFree (m : MemoryStore) (now : Nat) (key : IdempotencyKey) : Prop :=
  m.peek key = .error .notObtained ∧ (m.tryAcquire now key).1 = some m.draw.1

/-- Somebody is at work on a key, and nobody else can acquire it. -/
def IsPending (m : MemoryStore) (now : Nat) (key : IdempotencyKey) : Prop :=
  m.peek key = .ok none ∧ (m.tryAcquire now key).1 = none

/-- An envelope is to be found for a key, and nobody can acquire it. -/
def IsReady (m : MemoryStore) (now : Nat) (key : IdempotencyKey) (e : Envelope) : Prop :=
  m.peek key = .ok (some e) ∧ (m.tryAcquire now key).1 = none

/-- A timer is set if it is that of an entry. -/
lemma mem_timers {m : MemoryStore} {t : SlotTimer} :
    t ∈ m.timers ↔ ∃ s ∈ m.slots, s.id = t.slot ∧ s.entry.timer = some t.timer := by
  constructor
  · intro ht
    obtain ⟨s, hs, hst⟩ := List.mem_filterMap.mp ht
    obtain ⟨timer, htimer, rfl⟩ := Option.map_eq_some_iff.mp hst
    exact ⟨s, hs, rfl, htimer⟩
  · rintro ⟨s, hs, hi, htimer⟩
    apply List.mem_filterMap.mpr
    refine ⟨s, hs, ?_⟩
    rw [htimer, hi]
    rfl

variable {m : MemoryStore}

/-- The timers of a store are those of its slots. -/
lemma timers_eq (m : MemoryStore) :
    m.timers = (m.slots.map fun s => s.entry.timer.map fun t => ⟨s.id, t⟩).reduceOption := by
  show _ = List.filterMap id _
  rw [timers, List.filterMap_map]
  rfl

lemma timers_hold (m : MemoryStore) (id : Nat) : (m.hold id).timers = m.timers := by
  rw [timers_eq, timers_eq, hold, map_alter]
  intro s
  rfl

lemma timers_giveBack (m : MemoryStore) (id : Nat) : (m.giveBack id).timers = m.timers := by
  rw [timers_eq, timers_eq, giveBack, map_alter]
  intro s
  rfl

lemma timers_evictIdle_subset (m : MemoryStore) : m.evictIdle.2.timers ⊆ m.timers := by
  intro t ht
  obtain ⟨s, hs, htimer⟩ := mem_timers.mp ht
  exact mem_timers.mpr ⟨s, (mem_evictIdle.mp hs).1, htimer⟩

/-- Looking up sets no timer. -/
lemma timers_lookUp_subset {key : IdempotencyKey} {action : Action} {slot : Nat} {m' : MemoryStore}
    (hl : m.lookUp key action = some (slot, m')) : m'.timers ⊆ m.timers := by
  have found (hl : m.takeUp? key = some (slot, m')) : m'.timers ⊆ m.timers := by
    obtain ⟨s, -, he⟩ := Option.map_eq_some_iff.mp hl
    cases he
    exact fun t ht => by rwa [timers_hold] at ht
  cases action with
  | acquire lease =>
    simp only [lookUp, takeUp, Option.some.injEq] at hl
    split at hl
    · cases hl
      exact fun t ht => by rwa [timers_hold] at ht
    · cases hl
      intro t ht
      rw [timers_hold] at ht
      obtain ⟨s, hs, hi, htimer⟩ := mem_timers.mp ht
      -- the entry that is made has no timer
      rcases mem_add.mp hs with hs | rfl
      · exact mem_timers.mpr ⟨s, mem_of_mem_makeRoom hs, hi, htimer⟩
      · cases htimer
  | peek => exact found hl
  | store => exact found hl
  | release => exact found hl

/-- A timer that goes off is no longer set, and no other timer is set thereby. -/
lemma timers_expire (ordered : m.Ordered) (sound : m.Sound) {t u : SlotTimer}
    (hu : u ∈ (m.expire t.slot t.timer.generation).timers) : u ∈ m.timers ∧ u ≠ t := by
  cases hf : m.slot? t.slot with
  | none =>
    -- the slot is gone, so its timers are no longer set
    have he : m.expire t.slot t.timer.generation = m := by simp only [expire, hf]
    rw [he] at hu
    refine ⟨hu, ?_⟩
    rintro rfl
    obtain ⟨s, hs, hi, -⟩ := mem_timers.mp hu
    simpa [hi] using List.find?_eq_none.mp hf s hs
  | some s =>
    obtain ⟨hs, hi⟩ := (slot?_eq_some ordered).mp hf
    have he : m.expire t.slot t.timer.generation =
        m.update (only s.id (Slot.withEntry (s.entry.expire t.timer.generation))) := by
      simp only [expire, hf, ← setEntry_eq ordered, hi]
    rw [he] at hu
    obtain ⟨x', hx', hxi, htimer⟩ := mem_timers.mp hu
    obtain ⟨x, hx, rfl⟩ := List.mem_map.mp hx'
    by_cases hxs : x.id = s.id
    · rw [only_of_eq hxs] at hxi htimer
      have hxs := eq_of_id ordered hx hs hxs
      subst hxs
      have ht : (x.entry.expire t.timer.generation).timer = some u.timer := htimer
      by_cases hg : x.entry.generation = t.timer.generation
      · -- the entry is reset, and then it has no timer
        rw [Entry.expire_of_eq hg] at ht
        cases ht
      · rw [Entry.expire_of_ne hg] at ht
        -- a timer of another generation than the entry is none of its timers
        refine ⟨mem_timers.mpr ⟨x, hx, hxi, ht⟩, ?_⟩
        rintro rfl
        exact hg ((sound x hx).generation_timer ht).symm
    · rw [only_of_ne hxs] at hxi htimer
      refine ⟨mem_timers.mpr ⟨x, hx, hxi, htimer⟩, ?_⟩
      rintro rfl
      exact hxs (hxi.trans hi.symm)

end MemoryStore

namespace Steady

variable {ttl : Nat} {m : MemoryStore} {clients : List Client} {tasks : List SlotTimer}
  {key : IdempotencyKey}

/-! ### What shows of a cycle -/

lemma isFree (h : Steady ttl m clients tasks) (hc : m.cycle key = .free) (now : Nat) :
    m.IsFree now key := by
  obtain ⟨value, hvalue, hpeek⟩ := h.peek_eq key
  rw [hc] at hvalue
  cases hvalue
  constructor
  · exact Outcome.found.inj hpeek
  · rw [h.tryAcquire_eq, if_pos hc]

lemma isPending (h : Steady ttl m clients tasks) {lease : Lease} {due : Nat}
    (hc : m.cycle key = .held lease due) (now : Nat) : m.IsPending now key := by
  obtain ⟨value, hvalue, hpeek⟩ := h.peek_eq key
  rw [hc] at hvalue
  cases hvalue
  constructor
  · exact Outcome.found.inj hpeek
  · rw [h.tryAcquire_eq, hc]
    rfl

lemma isReady (h : Steady ttl m clients tasks) {lease : Lease} {e : Envelope} {due : Nat}
    (hc : m.cycle key = .ready lease e.encode due) (fits : e.Fits) (now : Nat) :
    m.IsReady now key e := by
  obtain ⟨value, hvalue, hpeek⟩ := h.peek_eq key
  rw [hc] at hvalue
  cases hvalue
  have found : m.peek key = (Envelope.decode e.encode).map some := Outcome.found.inj hpeek
  constructor
  · rw [found, Envelope.decode_encode fits]
    rfl
  · rw [h.tryAcquire_eq, hc]
    rfl

/-- The end of a cycle is the time of a timer that is set. -/
lemma exists_timer (h : Steady ttl m clients tasks) {due : Nat}
    (hd : (m.cycle key).due? = some due) : ∃ t ∈ m.timers, t.timer.due = due := by
  cases hs : m.slotOf? key with
  | none =>
    rw [MemoryStore.cycle_of_none hs] at hd
    cases hd
  | some s =>
    obtain ⟨hm, rfl⟩ := (MemoryStore.slotOf?_eq_some h.ordered).mp hs
    rw [MemoryStore.cycle_of_mem h.ordered hm, (h.sound s hm).due?_cycle] at hd
    obtain ⟨timer, htimer, rfl⟩ := Option.map_eq_some_iff.mp hd
    exact ⟨⟨s.id, timer⟩, MemoryStore.mem_timers.mpr ⟨s, hm, rfl, htimer⟩, rfl⟩

end Steady

/-! ### Timers that go off in time -/

/-- Time does not pass the end of the sleep of a timer that is set. -/
def StoreMove.Awaits (s : StoreState) : StoreMove → Prop
  | wait ms => ∀ t ∈ s.store.timers, s.now + ms ≤ t.timer.due
  | _ => True

instance (s : StoreState) (move : StoreMove) : Decidable (move.Awaits s) :=
  match move with
  | .wait ms => inferInstanceAs (Decidable (∀ t ∈ s.store.timers, s.now + ms ≤ t.timer.due))
  | .join | .call _ _ _ | .lookUp _ | .act _ | .quit _ | .fire _ | .sweep => isTrue trivial

namespace StoreState

open MemoryStore

variable {ttl : Nat} {s : StoreState}

/-- Moves by which every timer goes off when its sleep ends. Moves at that very time can come
before. -/
def Punctual : StoreState → List StoreMove → Prop
  | _, [] => True
  | s, move :: moves => move.Awaits s ∧ (s.step move).Punctual moves

instance decidablePunctual : (s : StoreState) → (moves : List StoreMove) →
    Decidable (s.Punctual moves)
  | _, [] => isTrue trivial
  | s, move :: moves =>
    have := decidablePunctual (s.step move) moves
    inferInstanceAs (Decidable (move.Awaits s ∧ (s.step move).Punctual moves))

/-- No cycle is overdue. -/
def OnTime (s : StoreState) : Prop :=
  ∀ key due, (s.store.cycle key).due? = some due → s.now ≤ due

/-- Whatever a move adds to the log happens now. -/
lemma log_step (s : StoreState) (move : StoreMove) :
    ∃ events, (s.step move).log = s.log ++ events ∧ ∀ e ∈ events, e.time = s.now := by
  have nothing {t : StoreState} (hl : t.log = s.log) :
      ∃ events, t.log = s.log ++ events ∧ ∀ e ∈ events, e.time = s.now :=
    ⟨[], by rw [hl, List.append_nil], fun e he => absurd he List.not_mem_nil⟩
  have heard {t : StoreState} {i : Nat} (h : s.Heard i t) :
      ∃ events, t.log = s.log ++ events ∧ ∀ e ∈ events, e.time = s.now := by
    cases h with
    | nothing _ _ hl => exact nothing hl
    | found _ _ _ _ _ _ hl => exact nothing hl
    | answered c key action answer _ _ _ _ _ hl =>
      refine ⟨_, hl, ?_⟩
      intro e he
      rw [List.mem_singleton.mp he]
  cases move with
  | join => exact nothing rfl
  | call i key operation => exact nothing (log_call s i key operation)
  | lookUp i => exact heard (heard_lookUp s i)
  | act i => exact heard (heard_act s i)
  | quit i => exact nothing (log_quit s i)
  | fire t =>
    simp only [step, fire]
    split
    · refine ⟨_, rfl, ?_⟩
      intro e he
      obtain ⟨⟨key, lease⟩, -, rfl⟩ := List.mem_map.mp he
      rfl
    · exact nothing rfl
  | sweep => exact nothing rfl
  | wait ms => exact nothing rfl

lemma now_step (s : StoreState) (move : StoreMove) :
    (s.step move).now = s.now ∨ ∃ ms, move = .wait ms := by
  have heard {t : StoreState} {i : Nat} (h : s.Heard i t) : t.now = s.now := by
    cases h with
    | nothing hn => exact hn
    | found _ _ _ _ hn => exact hn
    | answered _ _ _ _ _ _ _ hn => exact hn
  cases move with
  | join => exact .inl rfl
  | call i key operation =>
    left
    simp only [step, call]
    split <;> rfl
  | lookUp i => exact .inl (heard (heard_lookUp s i))
  | act i => exact .inl (heard (heard_act s i))
  | quit i =>
    left
    simp only [step, quit]
    split <;> rfl
  | fire t =>
    left
    simp only [step, fire]
    split <;> rfl
  | sweep => exact .inl rfl
  | wait ms => exact .inr ⟨ms, rfl⟩

namespace OnTime

lemma start (ttl : Nat) : (start ttl).OnTime := by
  intro key due hd
  cases hd

/-- What begins now is not overdue, and waiting lets nothing become overdue. -/
lemma step (h : s.OnTime) (valid : s.Valid ttl) {move : StoreMove} (awaits : move.Awaits s) :
    (s.step move).OnTime := by
  intro key due hd
  rcases s.now_step move with hn | ⟨ms, rfl⟩
  · obtain ⟨events, hlog, htime⟩ := s.log_step move
    rw [hn]
    rw [(valid.step move).cycles, hlog] at hd
    rcases due?_cycleOf_append hd with ⟨e, he, rfl⟩ | hd
    · rw [htime e he]
      exact Nat.le_add_right _ _
    · rw [← valid.cycles] at hd
      exact h key due hd
  · obtain ⟨t, ht, rfl⟩ := valid.steady.exists_timer hd
    exact awaits t ht

lemma run (h : s.OnTime) (valid : s.Valid ttl) {moves : List StoreMove}
    (punctual : s.Punctual moves) : (s.run moves).OnTime := by
  induction moves generalizing s with
  | nil => exact h
  | cons move moves ih => exact ih (h.step valid punctual.1) (valid.step move) punctual.2

end OnTime

/-! ### Timers that are set can go off -/

/-- Every timer that is set sleeps, so that it can go off when its sleep ends. -/
def Armed (s : StoreState) : Prop :=
  ∀ t ∈ s.store.timers, t ∈ s.tasks

namespace Armed

lemma start (ttl : Nat) : (start ttl).Armed := by
  intro t ht
  cases ht

lemma step (h : s.Armed) (valid : s.Valid ttl) (move : StoreMove) : (s.step move).Armed := by
  cases move with
  | join => exact h
  | call i key operation =>
    simp only [StoreState.step, call]
    split <;> exact h
  | lookUp i =>
    simp only [StoreState.step, lookUp]
    split
    · split
      · rename_i hl
        intro t ht
        exact h t (timers_lookUp_subset hl ht)
      · exact h
    · exact h
  | act i =>
    simp only [StoreState.step, act]
    split
    · rename_i key action slot hi
      intro t ht
      have ht : t ∈ (s.store.act s.now slot action).2.timers := by
        rwa [timers_giveBack] at ht
      apply List.mem_append.mpr
      -- a timer that was not set before is among those that start to sleep
      by_cases hold : t ∈ s.store.timers
      · exact .inl (h t hold)
      · exact .inr (List.mem_filter.mpr ⟨ht, by simpa using hold⟩)
    · exact h
  | quit i =>
    simp only [StoreState.step, quit]
    split
    · intro t ht
      have ht : t ∈ s.store.timers := by rwa [timers_giveBack] at ht
      exact h t ht
    · exact h
    · exact h
  | fire t =>
    simp only [StoreState.step, fire]
    split
    · intro u hu
      -- the timer that goes off is taken off the sleeping ones, but it is set no longer
      obtain ⟨hu, hne⟩ := timers_expire valid.steady.ordered valid.steady.sound hu
      exact (List.mem_erase_of_ne hne).mpr (h u hu)
    · exact h
  | sweep =>
    intro t ht
    exact h t (s.store.timers_evictIdle_subset ht)
  | wait ms => exact h

lemma run (h : s.Armed) (valid : s.Valid ttl) (moves : List StoreMove) : (s.run moves).Armed := by
  induction moves generalizing s with
  | nil => exact h
  | cons move moves ih => exact ih (h.step valid move) (valid.step move)

end Armed

/-! ### When cycles are over -/

section

variable {key : IdempotencyKey} {before after : List Event} {e : Event} {c : Cycle} {lease : Lease}
  {due : Nat}

/-- A cycle lasts until it is due, unless its lease is released or stores a value. -/
lemma Valid.lasts (valid : s.Valid ttl) (hlog : s.log = before ++ e :: after)
    (hc : cycleOf ttl key (before ++ [e]) = c) (hl : c.lease? = some lease)
    (hd : c.due? = some due)
    (unused : ∀ d ∈ after, d.key = key → d.released? ≠ some lease ∧
      ∀ value, d.stored? = some (lease, value) → ∀ old, c ≠ .held lease old) :
    s.store.cycle key = c ∨
      due ≤ s.now ∧ ∃ d ∈ after, d.key = key ∧ d.expired? = some lease := by
  have legal := valid.legal
  rw [hlog, List.append_cons] at legal
  rw [valid.cycles, hlog, List.append_cons]
  -- of what can end the cycle, a release and a store are excluded
  rcases legal.stays hc hl with hs | ⟨d, hm, hk, hr | ⟨hx, due', hle, hd'⟩ | ⟨value, old, hs, hold⟩⟩
  · exact .inl hs
  · exact absurd hr (unused d hm hk).1
  · rw [hd] at hd'
    cases hd'
    have hpast : d.time ≤ s.now := by
      apply valid.past
      rw [hlog]
      exact List.mem_append_right _ (List.mem_cons_of_mem e hm)
    exact .inr ⟨Nat.le_trans hle hpast, d, hm, hk, hx⟩
  · exact absurd hold ((unused d hm hk).2 value hs old)

/-- When a cycle was due its key is free, until it is granted anew. -/
lemma Valid.free_of_due (valid : s.Valid ttl) (onTime : s.OnTime)
    (hlog : s.log = before ++ e :: after) (hc : cycleOf ttl key (before ++ [e]) = c)
    (hl : c.lease? = some lease) (hd : c.due? = some due)
    (unused : ∀ d ∈ after, d.key = key → d.released? ≠ some lease ∧
      ∀ value, d.stored? = some (lease, value) → ∀ old, c ≠ .held lease old)
    (late : due < s.now) (unclaimed : ∀ d ∈ after, d.key = key → d.granted? = none) :
    s.store.cycle key = .free := by
  rcases valid.lasts hlog hc hl hd unused with hs | ⟨-, d, hm, hk, hx⟩
  · rw [← hs] at hd
    exact absurd (onTime key due hd) (Nat.not_le_of_lt late)
  · obtain ⟨a, b, rfl⟩ := List.append_of_mem hm
    have hlog : s.log = (before ++ e :: a) ++ d :: b := by simp [hlog]
    have legal := valid.legal
    rw [hlog] at legal
    rw [valid.cycles, hlog]
    apply legal.free_of_ended hk (Event.ended?_eq_some.mpr (.inr hx))
    intro x hx
    exact unclaimed x (List.mem_append_right _ (List.mem_cons_of_mem d hx))

/-- How long a lease lasts that was granted. -/
lemma Valid.lasts_granted (valid : s.Valid ttl) (onTime : s.OnTime)
    (hlog : s.log = before ++ e :: after) (hk : e.key = key) (hg : e.granted? = some lease)
    (unused : ∀ d ∈ after, d.key = key →
      d.released? ≠ some lease ∧ ∀ value, d.stored? ≠ some (lease, value)) :
    (s.now < e.time + ttl →
      s.store.cycle key = .held lease (e.time + ttl) ∧ s.store.IsPending s.now key) ∧
    (e.time + ttl < s.now → (∀ d ∈ after, d.key = key → d.granted? = none) →
      s.store.cycle key = .free ∧ s.store.IsFree s.now key) := by
  have legal := valid.legal
  rw [hlog, List.append_cons] at legal
  have hc := (legal.of_append.granted_eq hk hg).2
  -- stated anew, as a stored value would matter to a cycle that is held
  have unused : ∀ d ∈ after, d.key = key → d.released? ≠ some lease ∧
      ∀ value, d.stored? = some (lease, value) →
        ∀ old, Cycle.held lease (e.time + ttl) ≠ .held lease old := by
    intro d hd hkd
    exact ⟨(unused d hd hkd).1, fun value hs => absurd hs ((unused d hd hkd).2 value)⟩
  constructor
  · intro early
    rcases valid.lasts hlog hc rfl rfl unused with hs | ⟨hle, -⟩
    · exact ⟨hs, valid.steady.isPending hs s.now⟩
    · exact absurd hle (Nat.not_le_of_lt early)
  · intro late unclaimed
    have hs := valid.free_of_due onTime hlog hc rfl rfl unused late unclaimed
    exact ⟨hs, valid.steady.isFree hs s.now⟩

/-- How long a value lasts that was stored. -/
lemma Valid.lasts_stored (valid : s.Valid ttl) (onTime : s.OnTime)
    (hlog : s.log = before ++ e :: after) (hk : e.key = key) {value : List UInt8}
    (hst : e.stored? = some (lease, value))
    (unused : ∀ d ∈ after, d.key = key → d.released? ≠ some lease) :
    (s.now ≤ e.time + ttl →
      (s.store.cycle key = .ready lease value (e.time + ttl) ∧
        ∀ envelope, envelope.Fits → value = envelope.encode →
          s.store.IsReady s.now key envelope) ∨
      s.now = e.time + ttl ∧ ∃ d ∈ after, d.key = key ∧ d.expired? = some lease) ∧
    (e.time + ttl < s.now → (∀ d ∈ after, d.key = key → d.granted? = none) →
      s.store.cycle key = .free ∧ s.store.IsFree s.now key) := by
  have legal := valid.legal
  rw [hlog, List.append_cons] at legal
  have hc := legal.of_append.ready_of_stored hk hst
  -- a cycle that is ready is not held, so another store does not matter
  have unused : ∀ d ∈ after, d.key = key → d.released? ≠ some lease ∧
      ∀ other, d.stored? = some (lease, other) →
        ∀ old, Cycle.ready lease value (e.time + ttl) ≠ .held lease old := by
    intro d hd hkd
    exact ⟨unused d hd hkd, fun _ _ _ h => nomatch h⟩
  constructor
  · intro early
    rcases valid.lasts hlog hc rfl rfl unused with hs | ⟨hle, hx⟩
    · left
      refine ⟨hs, ?_⟩
      rintro envelope fits rfl
      exact valid.steady.isReady hs fits s.now
    · -- not after the end, and not before: the timer went off at this very time
      exact .inr ⟨Nat.le_antisymm early hle, hx⟩
  · intro late unclaimed
    have hs := valid.free_of_due onTime hlog hc rfl rfl unused late unclaimed
    exact ⟨hs, valid.steady.isFree hs s.now⟩

/-- A move that neither grants nor stores nor ends a lease leaves the cycle of a key as it is. -/
lemma Valid.cycle_step_of_quiet (valid : s.Valid ttl) {move : StoreMove}
    (quiet : ∀ d ∈ (s.step move).log.drop s.log.length, d.Quiet key) :
    (s.step move).store.cycle key = s.store.cycle key := by
  have valid' := valid.step move
  have legal := valid'.legal
  obtain ⟨events, hlog, -⟩ := s.log_step move
  rw [hlog, List.drop_left] at quiet
  rw [hlog] at legal
  rw [valid'.cycles, hlog, legal.quiet_append quiet, valid.cycles]

end

end StoreState

/-- Entries last for exactly the TTL. Suppose that timers go off when their sleep ends, as they
always can. From the time when a lease is granted, its key is pending until the TTL is over, unless
the lease stores a value or is released, and free afterwards, unless it is granted anew. From the
time when a value is stored, the envelope is to be found until the TTL is over, unless the lease is
released, and the key is free afterwards, unless it is granted anew. What happens meanwhile to this
key or others makes no difference, and what is neither a grant nor a store nor the end of a lease
leaves the cycle of a key and its end as they are. -/
theorem run_lasts_for_ttl (ttl : Nat) (moves : List StoreMove)
    (punctual : (StoreState.start ttl).Punctual moves) (key : IdempotencyKey) :
    let s := (StoreState.start ttl).run moves
    (∀ t ∈ s.store.timers, t ∈ s.tasks) ∧
    (∀ before e after, s.log = before ++ e :: after → e.key = key →
      (∀ lease, e.granted? = some lease →
        (∀ d ∈ after, d.key = key →
          d.released? ≠ some lease ∧ ∀ value, d.stored? ≠ some (lease, value)) →
        (s.now < e.time + ttl →
          s.store.cycle key = .held lease (e.time + ttl) ∧ s.store.IsPending s.now key) ∧
        (e.time + ttl < s.now → (∀ d ∈ after, d.key = key → d.granted? = none) →
          s.store.cycle key = .free ∧ s.store.IsFree s.now key)) ∧
      (∀ lease value, e.stored? = some (lease, value) →
        (∀ d ∈ after, d.key = key → d.released? ≠ some lease) →
        (s.now ≤ e.time + ttl →
          (s.store.cycle key = .ready lease value (e.time + ttl) ∧
            ∀ envelope, envelope.Fits → value = envelope.encode →
              s.store.IsReady s.now key envelope) ∨
          s.now = e.time + ttl ∧ ∃ d ∈ after, d.key = key ∧ d.expired? = some lease) ∧
        (e.time + ttl < s.now → (∀ d ∈ after, d.key = key → d.granted? = none) →
          s.store.cycle key = .free ∧ s.store.IsFree s.now key))) ∧
    (∀ move, (∀ d ∈ (s.step move).log.drop s.log.length, d.Quiet key) →
      (s.step move).store.cycle key = s.store.cycle key) := by
  intro s
  have valid : s.Valid ttl := (StoreState.Valid.start ttl).run moves
  have onTime : s.OnTime := (StoreState.OnTime.start ttl).run (.start ttl) punctual
  refine ⟨(StoreState.Armed.start ttl).run (.start ttl) moves, ?_, ?_⟩
  · intro before e after hlog hk
    constructor
    · intro lease hg unused
      exact valid.lasts_granted onTime hlog hk hg unused
    · intro lease value hst unused
      exact valid.lasts_stored onTime hlog hk hst unused
  · intro move quiet
    exact valid.cycle_step_of_quiet quiet

/-- A client acquires a key, stores an envelope after a while, and waits until it is gone. -/
def errand : List StoreMove :=
  let key : IdempotencyKey := ⟨"", "", ""⟩
  [.join, .call 0 key .tryAcquire, .lookUp 0, .act 0, .wait 4,
    .call 0 key (.store ⟨1⟩ ⟨200, [], [], "text/plain"⟩), .lookUp 0, .act 0, .wait 5,
    .fire ⟨0, ⟨2, 9⟩⟩, .wait 1]

theorem run_lasts_for_ttl_errand :
    let key : IdempotencyKey := ⟨"", "", ""⟩
    let e : Envelope := ⟨200, [], [], "text/plain"⟩
    let early := (StoreState.start 5).run (errand.take 5)
    let later := (StoreState.start 5).run (errand.take 9)
    let late := (StoreState.start 5).run errand
    (StoreState.start 5).Punctual errand ∧ e.Fits ∧
      (early.now = 4 ∧ early.store.IsPending 4 key) ∧
      (later.now = 9 ∧ later.store.IsReady 9 key e) ∧
      (late.now = 10 ∧ late.store.IsFree 10 key) := by
  intro key e early later late
  have fits : e.Fits := ⟨by decide, fun h hh => absurd hh List.not_mem_nil, by decide, by decide⟩
  have punctual : (StoreState.start 5).Punctual errand := by decide +kernel
  let granted : Event := ⟨0, key, .answered 0 (.acquire ⟨1⟩) (.acquired true)⟩
  let stored : Event := ⟨4, key, .answered 0 (.store ⟨1⟩ e.encode) (.stored (.ok ()))⟩
  let expired : Event := ⟨9, key, .expired ⟨1⟩⟩
  -- the log of the errand so far, one event longer each time
  have pending : early.store.IsPending early.now key := by
    have h := (run_lasts_for_ttl 5 (errand.take 5) (by decide +kernel) key).2.1 [] granted []
      (by decide +kernel) rfl
    exact ((h.1 ⟨1⟩ rfl (by simp)).1 (by decide)).2
  have ready : later.store.IsReady later.now key e := by
    have h := (run_lasts_for_ttl 5 (errand.take 9) (by decide +kernel) key).2.1 [granted] stored []
      (by decide +kernel) rfl
    rcases (h.2 ⟨1⟩ e.encode rfl (by simp)).1 (by decide) with hr | ⟨-, d, hd, -⟩
    · exact hr.2 e fits rfl
    · cases hd
  have free : late.store.IsFree late.now key := by
    have h := (run_lasts_for_ttl 5 errand punctual key).2.1 [granted] stored [expired]
      (by decide +kernel) rfl
    exact ((h.2 ⟨1⟩ e.encode rfl (by decide)).2 (by decide) (by decide)).2
  exact ⟨punctual, fits, ⟨rfl, pending⟩, ⟨rfl, ready⟩, ⟨rfl, free⟩⟩

/-- At the very end of the TTL an envelope is gone if the timer comes before whoever looks for it. -/
theorem exists_lapse_at_end :
    let key : IdempotencyKey := ⟨"", "", ""⟩
    let e : Envelope := ⟨200, [], [], "text/plain"⟩
    let s := (StoreState.start 5).run (errand.take 10)
    (StoreState.start 5).Punctual (errand.take 10) ∧
    ∃ granted stored expired, s.log = [granted, stored, expired] ∧
      stored.key = key ∧ stored.stored? = some (⟨1⟩, e.encode) ∧ expired.released? = none ∧
      s.now = stored.time + 5 ∧ ¬ s.store.IsReady s.now key e := by
  intro key e s
  let granted : Event := ⟨0, key, .answered 0 (.acquire ⟨1⟩) (.acquired true)⟩
  let stored : Event := ⟨4, key, .answered 0 (.store ⟨1⟩ e.encode) (.stored (.ok ()))⟩
  let expired : Event := ⟨9, key, .expired ⟨1⟩⟩
  have absent : s.store.peek key = .error .notObtained := rfl
  refine ⟨by decide +kernel, granted, stored, expired, by decide +kernel, rfl, rfl, rfl, rfl, ?_⟩
  rintro ⟨ready, -⟩
  rw [absent] at ready
  cases ready

end OnceProxy
