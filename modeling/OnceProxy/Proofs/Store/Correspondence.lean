import OnceProxy.Proofs.Store.Isolation
import OnceProxy.Proofs.Store.Records

/-!
# Entries and records that correspond

A cycle of an entry has a record that says the same of it. Whole operations keep the entries in
memory and the shared records in correspondence and get the same answers from both, as long as
nobody comes at the very moment when an entry ends or releases what is stored already. Leases are
matched by a bijection `ρ : Equiv.Perm Lease`.
-/

namespace OnceProxy

open RecordStore

/-! ### Backends in time -/

/-- What can happen to a store by itself: the timer of a key goes off, idle entries are dropped, or
time passes. -/
inductive Tick where
  | fire (key : IdempotencyKey)
  | sweep
  | wait (ms : Nat)
  deriving DecidableEq

/-- How much time passes. -/
def Tick.ms : Tick → Nat
  | wait ms => ms
  | _ => 0

/-- A backend, and what happens by itself to its states at a time. -/
structure TimedBackend (σ : Type) extends Backend σ where
  tick : σ → Nat → Tick → σ

namespace TimedBackend

/-- Entries in memory. When time passes, every timer goes off that is due before the new time. One
that is due at the new time can go off before or after whatever happens then. -/
def memory : TimedBackend MemoryStore where
  toBackend := Backend.memory
  tick m now
    | .fire key => m.ring fun k due => k = key && due ≤ now
    | .sweep => m.evictIdle.2
    | .wait ms => m.ring fun _ due => due < now + ms

/-- Shared records, which need no timers. -/
def records : TimedBackend RecordStore where
  toBackend := Backend.records
  tick r _ _ := r

end TimedBackend

lemma Backend.operate_memory (m : MemoryStore) (now : Nat) (key : IdempotencyKey)
    (operation : Operation) : Backend.memory.operate m now key operation =
      m.operate now key operation := by
  cases operation <;> rfl

/-! ### Records of cycles -/

namespace Cycle

/-- The record that says the same as a cycle, at an address. -/
def record? (ρ : Equiv.Perm Lease) (address : String) : Cycle → Option Record
  | free => none
  | held lease due => some ⟨address, pendingRecord (ρ lease), due⟩
  | ready _ value due => some ⟨address, value, due⟩

/-- Whether a lease has stored what a cycle keeps. -/
def isSpent (lease : Lease) : Cycle → Bool
  | ready holder _ _ => holder = lease
  | _ => false

variable {ρ : Equiv.Perm Lease} {address : String} {c : Cycle} {p q : Nat → Bool} {now later : Nat}

lemma ring_ring (h : ∀ due, p due → q due) : (c.ring p).ring q = c.ring q := by
  by_cases hp : c.due?.any p
  · have hq : c.due?.any q := by
      cases hd : c.due? with
      | none => rw [hd] at hp; exact hp
      | some due =>
        rw [hd] at hp
        exact h due hp
    simp only [ring, if_pos hp, if_pos hq]
    rfl
  · simp only [ring, if_neg hp]

lemma of_due?_ring {due : Nat} (h : (c.ring p).due? = some due) :
    c.due? = some due ∧ p due = false := by
  unfold ring at h
  split at h
  · cases h
  · rename_i hp
    rw [h] at hp
    exact ⟨h, by simpa using hp⟩

lemma of_ring_eq_ready {lease : Lease} {value : List UInt8} {due : Nat}
    (h : c.ring p = ready lease value due) : c = ready lease value due := by
  unfold ring at h
  split at h
  · cases h
  · exact h

/-- A cycle has the value that it had, or the one that was stored. -/
lemma of_after_eq_ready {action : Action} {lease : Lease} {value : List UInt8} {due d : Nat}
    (h : c.after due action = ready lease value d) :
    c = ready lease value d ∨ action = .store lease value := by
  -- a ready cycle was ready before, or its value was stored just now
  cases action with
  | acquire own => cases c <;> first | exact .inl h | cases h
  | peek => cases c <;> exact .inl h
  | store own new =>
    cases c with
    | free => exact .inl h
    | held holder old =>
      simp only [after] at h
      split at h
      · cases h
        exact .inr rfl
      · cases h
    | ready => exact .inl h
  | release own =>
    rw [after_release] at h
    split at h
    · cases h
    · exact .inl h

lemma isSpent_iff {lease : Lease} :
    c.isSpent lease = true ↔ ∃ value due, c = ready lease value due := by
  cases c <;> simp [isSpent]

lemma isSpent_ring {lease : Lease} (h : (c.ring p).isSpent lease = true) :
    c.isSpent lease = true := by
  obtain ⟨value, due, hc⟩ := isSpent_iff.mp h
  exact isSpent_iff.mpr ⟨value, due, of_ring_eq_ready hc⟩

/-- A lease has stored before, or does so now. -/
lemma isSpent_after {due : Nat} {action : Action} {lease : Lease}
    (h : (c.after due action).isSpent lease = true) :
    c.isSpent lease = true ∨
      ∃ value, action = .store lease value ∧ c.answer action = .stored (.ok ()) := by
  obtain ⟨value, d, hc⟩ := isSpent_iff.mp h
  rcases of_after_eq_ready hc with rfl | rfl
  · exact .inl (isSpent_iff.mpr ⟨value, d, rfl⟩)
  · cases c with
    | free => cases hc
    | held holder old =>
      by_cases hl : holder = lease
      · exact .inr ⟨value, rfl, by rw [answer, if_pos hl]⟩
      · rw [after, if_neg hl] at hc
        cases hc
    | ready => exact .inl h

/-- A cycle that is not due yet has not ended. -/
lemma ring_of_early (h : ∀ due, c.due? = some due → now < due) : c.ring (· ≤ now) = c := by
  cases c with
  | free => rfl
  | held lease due => simp [ring, due?, h due rfl]
  | ready lease value due => simp [ring, due?, h due rfl]

/-- A record expires when its cycle ends. -/
lemma record?_ring (le : now ≤ later) :
    ((c.ring (· ≤ now)).record? ρ address).filter (later < ·.expires) =
      (c.ring (· ≤ later)).record? ρ address := by
  -- a record that is due by then is dropped, whether the timers rang before or not
  have ended (d : Nat) (x : Record) (hx : x.expires = d) :
      (if d ≤ now then none else some x).filter (later < ·.expires) =
        if d ≤ later then none else some x := by
    by_cases hn : d ≤ now
    · simp [hn, Nat.le_trans hn le]
    · by_cases hl : d ≤ later
      · simp [hn, hl, hx]
      · simp [hn, hl, hx, Nat.lt_of_not_le hl]
  cases c with
  | free => rfl
  | held lease due =>
    have hring (t : Nat) : ((held lease due).ring (· ≤ t)).record? ρ address =
        if due ≤ t then none else some ⟨address, pendingRecord (ρ lease), due⟩ := by
      by_cases ht : due ≤ t <;> simp [ring, due?, record?, ht]
    rw [hring, hring]
    exact ended due _ rfl
  | ready lease value due =>
    have hring (t : Nat) : ((ready lease value due).ring (· ≤ t)).record? ρ address =
        if due ≤ t then none else some ⟨address, value, due⟩ := by
      by_cases ht : due ≤ t <;> simp [ring, due?, record?, ht]
    rw [hring, hring]
    exact ended due _ rfl

end Cycle

/-! ### Correspondence -/

/-- The entries of some keys and the shared records correspond at a time, if cycles that are due
count as over. -/
structure Agrees (ttl : Nat) (ρ : Equiv.Perm Lease) (keys : Set IdempotencyKey) (now : Nat)
    (m : MemoryStore) (r : RecordStore) : Prop where
  steady : Steady ttl m [] []
  ttl : r.ttl = ttl
  tidy : r.Tidy
  early : ∀ key due, (m.cycle key).due? = some due → now ≤ due
  plain : ∀ key lease value due, m.cycle key = .ready lease value due →
    value.head? ≠ some pendingTag
  same : ∀ key ∈ keys, r.record? now key.recordKey =
    ((m.cycle key).ring (· ≤ now)).record? ρ key.recordKey

/-- An operation answers what the cycle of its key calls for when an action is done, but for the
names of leases, and leaves the record that says the same as the cycle does then. -/
structure Follows (ttl : Nat) (ρ : Equiv.Perm Lease) (now : Nat) (m : MemoryStore)
    (key : IdempotencyKey) (action : Action) (outcome : Outcome) (r : RecordStore) : Prop where
  outcome : outcome = (((m.cycle key).answer action).outcome m.draw.1).rename ρ
  record : r.record? now key.recordKey =
    ((m.cycle key).after (now + ttl) action).record? ρ key.recordKey

namespace Agrees

variable {ttl : Nat} {ρ : Equiv.Perm Lease} {keys : Set IdempotencyKey} {now : Nat}
  {m : MemoryStore} {r : RecordStore} {key : IdempotencyKey}

lemma start (ttl : Nat) (ρ : Equiv.Perm Lease) (keys : Set IdempotencyKey)
    (leases : Nat → Lease) : Agrees ttl ρ keys 0 (.new ttl) ⟨ttl, leases, 0, []⟩ where
  steady := .start ttl
  ttl := rfl
  tidy := List.nodup_nil
  early _ _ hd := nomatch hd
  plain _ _ _ _ hc := nomatch hc
  same _ _ := rfl

/-- Timers that go off keep the correspondence, if only those do whose time has come and all those
whose time is over. -/
lemma ring (h : Agrees ttl ρ keys now m r) (p : IdempotencyKey → Nat → Bool) {later : Nat}
    (le : now ≤ later) (come : ∀ k due, p k due → due ≤ later)
    (stays : ∀ k due, now ≤ due → p k due = false → later ≤ due) :
    Agrees ttl ρ keys later (m.ring p) r := by
  have cycle (k : IdempotencyKey) := MemoryStore.cycle_ring h.steady.ordered h.steady.sound p k
  constructor
  · exact h.steady.ring p
  · exact h.ttl
  · exact h.tidy
  · intro k due hd
    rw [cycle] at hd
    obtain ⟨hd, hp⟩ := Cycle.of_due?_ring hd
    exact stays k due (h.early k due hd) hp
  · intro k lease value due hc
    rw [cycle] at hc
    exact h.plain k lease value due (Cycle.of_ring_eq_ready hc)
  · intro k hk
    rw [cycle, Cycle.ring_ring (by simpa using come k), h.tidy.record?_later le, h.same k hk,
      Cycle.record?_ring le]

/-- Cycles that stay as they are keep the correspondence. -/
lemma of_cycle_eq {m' : MemoryStore} (h : Agrees ttl ρ keys now m r) (steady : Steady ttl m' [] [])
    (cycle : ∀ k, m'.cycle k = m.cycle k) : Agrees ttl ρ keys now m' r where
  steady := steady
  ttl := h.ttl
  tidy := h.tidy
  early k due hd := h.early k due (cycle k ▸ hd)
  plain k lease value due hc := h.plain k lease value due (cycle k ▸ hc)
  same k hk := by rw [cycle, h.same k hk]

/-- What happens by itself keeps the correspondence. -/
lemma tick (h : Agrees ttl ρ keys now m r) (tick : Tick) :
    Agrees ttl ρ keys (now + tick.ms) (TimedBackend.memory.tick m now tick)
      (TimedBackend.records.tick r now tick) := by
  cases tick with
  | fire k =>
    refine h.ring (fun k' due => k' = k && due ≤ now) (Nat.le_refl now) ?_ fun k' due le _ => le
    intro k' due hp
    simp only [Bool.and_eq_true, decide_eq_true_eq] at hp
    exact hp.2
  | sweep =>
    exact h.of_cycle_eq h.steady.evictIdle
      (MemoryStore.cycle_evictIdle h.steady.ordered h.steady.sound)
  | wait ms =>
    refine h.ring (fun _ due => due < now + ms) (Nat.le_add_right now ms) ?_ ?_
    · intro k due hp
      exact Nat.le_of_lt (of_decide_eq_true hp)
    · intro k due _ hp
      exact Nat.le_of_not_lt (of_decide_eq_false hp)

/-- The lifetime of records is the TTL. -/
lemma lifetime_eq (h : Agrees ttl ρ keys now m r) (pos : 0 < ttl) : r.lifetime = ttl := by
  rw [RecordStore.lifetime, h.ttl]
  exact Nat.max_eq_right pos

/-! ### What the record of a key says -/

section

variable (h : Agrees ttl ρ keys now m r) (hk : key ∈ keys)
  (timely : (m.cycle key).due? ≠ some now)
include h timely

lemma late {due : Nat} (hd : (m.cycle key).due? = some due) : now < due := by
  apply Nat.lt_of_le_of_ne (h.early key due hd)
  rintro rfl
  exact timely hd

include hk

lemma record?_eq : r.record? now key.recordKey = (m.cycle key).record? ρ key.recordKey := by
  rw [h.same key hk, Cycle.ring_of_early fun due hd => h.late timely hd]

/-- A lease holds the record of a key just if it holds the key. -/
lemma holds_iff {lease : Lease} :
    r.Holds now key.recordKey (ρ lease) ↔ ∃ due, m.cycle key = .held lease due := by
  have hx := h.record?_eq hk timely
  cases hc : m.cycle key with
  | free =>
    rw [hc] at hx
    simp only [reduceCtorEq, exists_false, iff_false]
    exact not_holds_of_record? hx
  | held holder due =>
    rw [hc] at hx
    rw [holds_iff_of_record? hx, pendingRecord_inj, EmbeddingLike.apply_eq_iff_eq]
    simp
  | ready holder value due =>
    rw [hc] at hx
    rw [holds_iff_of_record? hx]
    simp only [reduceCtorEq, exists_false, iff_false]
    rintro rfl
    exact h.plain key holder _ due hc rfl

/-- A lease that does not hold the record of a key does not have the key, unless it has stored. -/
lemma lease?_ne {lease : Lease} (lacks : ¬ r.Holds now key.recordKey (ρ lease))
    (unspent : (m.cycle key).isSpent lease = false) : (m.cycle key).lease? ≠ some lease := by
  rw [h.holds_iff hk timely, not_exists] at lacks
  cases hc : m.cycle key with
  | free => nofun
  | held holder due =>
    rintro ⟨⟩
    exact lacks due hc
  | ready holder value due =>
    rintro ⟨⟩
    simp [hc, Cycle.isSpent] at unspent

variable {outcome : Outcome} {r' : RecordStore}

lemma tryAcquire_follows (pos : 0 < ttl) (drawn : r.draw.1 = ρ m.draw.1)
    (effect : Effect r now key .tryAcquire outcome r') :
    Follows ttl ρ now m key (.acquire m.draw.1) outcome r' := by
  -- the cycle and the record tell the same of the key
  have hx := h.record?_eq hk timely
  cases effect with
  | granted free =>
    have hc : m.cycle key = .free := by
      rw [hx] at free
      cases hc : m.cycle key with
      | free => rfl
      | held | ready => rw [hc] at free; cases free
    constructor
    · rw [hc, drawn]
      rfl
    · have lifetime : r.draw.2.lifetime = ttl := h.lifetime_eq pos
      rw [hc, record?_write_self, lifetime, drawn]
      rfl
  | refused taken =>
    rw [hx] at taken
    constructor
    · cases hc : m.cycle key with
      | free => rw [hc] at taken; exact absurd rfl taken
      | held | ready => rfl
    · rw [record?_draw, hx]
      cases hc : m.cycle key with
      | free => rw [hc] at taken; exact absurd rfl taken
      | held | ready => rfl

lemma peek_follows (effect : Effect r now key .peek outcome r') :
    Follows ttl ρ now m key .peek outcome r' := by
  have hx := h.record?_eq hk timely
  cases effect with
  | found =>
    constructor
    · -- each phase of the cycle is a form of the record
      cases hc : m.cycle key with
      | free =>
        rw [hc] at hx
        rw [peek_of_none hx]
        rfl
      | held lease due =>
        rw [peek_of_holds ((h.holds_iff hk timely).mpr ⟨due, hc⟩)]
        rfl
      | ready lease value due =>
        rw [hc] at hx
        rw [peek_of_plain hx (h.plain key lease value due hc)]
        rfl
    · rw [hx]
      cases m.cycle key <;> rfl

lemma store_follows (pos : 0 < ttl) {lease : Lease} {e : Envelope}
    (unspent : (m.cycle key).isSpent lease = false)
    (effect : Effect r now key (.store (ρ lease) e) outcome r') :
    Follows ttl ρ now m key (.store lease e.encode) outcome r' := by
  cases effect with
  | stored _ _ holds =>
    obtain ⟨due, hc⟩ := (h.holds_iff hk timely).mp holds
    constructor
    · simp [hc, Cycle.answer, Answer.outcome, Outcome.rename]
    · rw [hc, record?_write_self, h.lifetime_eq pos]
      simp [Cycle.after, Cycle.record?]
  | lost _ _ lacks =>
    have hne := h.lease?_ne hk timely lacks unspent
    constructor
    · rw [Cycle.answer_store_of_ne hne]
      rfl
    · rw [h.record?_eq hk timely, Cycle.after_store_of_ne hne]

lemma release_follows {lease : Lease} (unspent : (m.cycle key).isSpent lease = false)
    (effect : Effect r now key (.release (ρ lease)) outcome r') :
    Follows ttl ρ now m key (.release lease) outcome r' := by
  cases effect with
  | released _ holds =>
    obtain ⟨due, hc⟩ := (h.holds_iff hk timely).mp holds
    constructor
    · simp [Cycle.answer_release, Answer.outcome, Outcome.rename]
    · have hl : (m.cycle key).lease? = some lease := by
        rw [hc]
        rfl
      rw [record?_remove_self, Cycle.after_release, if_pos hl]
      rfl
  | kept _ lacks =>
    have hne := h.lease?_ne hk timely lacks unspent
    constructor
    · simp [Cycle.answer_release, Answer.outcome, Outcome.rename]
    · rw [h.record?_eq hk timely, Cycle.after_release, if_neg hne]

lemma follows (pos : 0 < ttl) {operation : Operation}
    (drawn : operation = .tryAcquire → r.draw.1 = ρ m.draw.1)
    (unspent : ∀ lease ∈ operation.lease?, (m.cycle key).isSpent lease = false)
    (effect : Effect r now key (operation.rename ρ) outcome r') :
    Follows ttl ρ now m key (operation.action m.draw.1) outcome r' := by
  cases operation with
  | tryAcquire => exact h.tryAcquire_follows hk timely pos (drawn rfl) effect
  | peek => exact h.peek_follows hk timely effect
  | store lease e => exact h.store_follows hk timely pos (unspent lease rfl) effect
  | release lease => exact h.release_follows hk timely (unspent lease rfl) effect

end

/-- An operation that does to the record of its key what it does to the cycle keeps the
correspondence. -/
lemma served (h : Agrees ttl ρ keys now m r) (pos : 0 < ttl)
    (apart : Set.InjOn IdempotencyKey.recordKey keys) (hk : key ∈ keys)
    (timely : (m.cycle key).due? ≠ some now) {operation operation' : Operation}
    {done : Answer × MemoryStore} {outcome : Outcome} {r' : RecordStore}
    (served : Steady.Served ttl m [] [] now key (operation.action m.draw.1) done)
    (effect : Effect r now key operation' outcome r')
    (own : r'.record? now key.recordKey =
      ((m.cycle key).after (now + ttl) (operation.action m.draw.1)).record? ρ key.recordKey) :
    Agrees ttl ρ keys now done.2 r' := by
  -- the TTL is not zero, so that what begins now is not due at once
  have late {due : Nat}
      (hd : ((m.cycle key).after (now + ttl) (operation.action m.draw.1)).due? = some due) :
      now < due := by
    rcases Cycle.due?_after hd with rfl | hd
    · exact Nat.lt_add_of_pos_right pos
    · exact h.late timely hd
  constructor
  · exact served.steady
  · exact effect.ttl_eq.trans h.ttl
  · exact effect.tidy h.tidy
  · intro k due hd
    rw [served.cycle] at hd
    split at hd
    · exact Nat.le_of_lt (late hd)
    · exact h.early k due hd
  · intro k lease value due hc
    rw [served.cycle] at hc
    split at hc
    · rcases Cycle.of_after_eq_ready hc with hc | ha
      · exact h.plain key lease value due hc
      · -- what is stored is the bytes of an envelope
        cases operation with
        | store own e =>
          cases ha
          exact head?_encode e
        | tryAcquire | peek | release => cases ha
    · exact h.plain k lease value due hc
  · intro k hk'
    rw [served.cycle]
    split
    · rename_i hkk
      subst hkk
      rw [own, Cycle.ring_of_early fun due hd => late hd]
    · rename_i hkk
      -- keys of one address are the same, so this one has a record of its own
      have hne : k.recordKey ≠ key.recordKey := fun e => hkk (apart hk' hk e).symm
      rw [effect.record?_of_ne hne, h.same k hk']

/-- An operation gets the same answer from the entries in memory and from the shared records, but for
the names of leases, and keeps the correspondence, unless the caller has stored already. -/
lemma operate (h : Agrees ttl ρ keys now m r) (pos : 0 < ttl)
    (apart : Set.InjOn IdempotencyKey.recordKey keys) (hk : key ∈ keys)
    (timely : (m.cycle key).due? ≠ some now) {operation : Operation}
    (drawn : operation = .tryAcquire → r.draw.1 = ρ m.draw.1)
    (unspent : ∀ lease ∈ operation.lease?, (m.cycle key).isSpent lease = false) :
    (Backend.records.operate r now key (operation.rename ρ)).1 =
        (Backend.memory.operate m now key operation).1.rename ρ ∧
      Agrees ttl ρ keys now (Backend.memory.operate m now key operation).2
        (Backend.records.operate r now key (operation.rename ρ)).2 := by
  obtain ⟨answer, houtcome, served⟩ := h.steady.operate now key operation
  have hanswer : answer = (m.cycle key).answer (operation.action m.draw.1) := served.answer
  have effect := r.effect now key (operation.rename ρ)
  have follows := h.follows hk timely pos drawn unspent effect
  rw [Backend.operate_memory, houtcome, hanswer]
  exact ⟨follows.outcome, h.served pos apart hk timely served effect follows.record⟩

/-- Whoever has stored already cannot store again, in memory or among shared records, and changes
nothing. -/
lemma operate_spent (h : Agrees ttl ρ keys now m r) (hk : key ∈ keys)
    (timely : (m.cycle key).due? ≠ some now) {lease : Lease}
    (spent : (m.cycle key).isSpent lease = true) (e : Envelope) :
    (Backend.memory.operate m now key (.store lease e)).1 = .stored (.error .alreadyStored) ∧
      (Backend.records.operate r now key (.store (ρ lease) e)).1 = .stored (.error .leaseLost) ∧
      Agrees ttl ρ keys now (Backend.memory.operate m now key (.store lease e)).2
        (Backend.records.operate r now key (.store (ρ lease) e)).2 := by
  obtain ⟨value, due, hc⟩ := Cycle.isSpent_iff.mp spent
  -- the record holds the value, and no longer the lease
  have lacks : ¬ r.Holds now key.recordKey (ρ lease) := by
    rw [h.holds_iff hk timely, hc]
    rintro ⟨_, ⟨⟩⟩
  have hr : Backend.records.operate r now key (.store (ρ lease) e) =
      (.stored (.error .leaseLost), r) := by
    simp only [Backend.operate, Backend.records, RecordStore.store, if_neg (show ¬ _ = _ from lacks)]
  obtain ⟨answer, houtcome, served⟩ := h.steady.operate now key (.store lease e)
  have hanswer : answer = (m.cycle key).answer (.store lease e.encode) := served.answer
  rw [hr, Backend.operate_memory, houtcome, hanswer]
  refine ⟨by simp [hc, Cycle.answer, Answer.outcome], rfl, h.of_cycle_eq served.steady ?_⟩
  intro k
  rw [served.cycle]
  split
  · rename_i hk
    subst hk
    rw [hc]
    rfl
  · rfl

end Agrees

/-! ### Names for the leases -/

/-- If no lease is drawn twice, a bijection takes those that are drawn in memory to those that are
drawn for shared records. -/
lemma exists_renaming {leases : Nat → Lease} {n : Nat}
    (distinct : Set.InjOn leases (Set.Iio n)) :
    ∃ ρ : Equiv.Perm Lease, ∀ k < n, ρ (.nth k) = leases k := by
  have shared : ((List.range' 0 n).map leases).Nodup := by
    apply List.Nodup.map_on _ (List.nodup_range' _)
    intro d hd e he
    exact distinct (by simpa using hd) (by simpa using he)
  -- there are no more leases than numbers of 64 bits, so as many of the own numbers differ
  have few : n ≤ 2 ^ 64 := by
    have ids : ((List.range' 0 n).map fun k => (leases k).id.toNat).Nodup := by
      have hid : Function.Injective fun lease : Lease => lease.id.toNat := by
        intro a b hab
        exact congrArg Lease.mk (UInt64.toNat_inj.mp hab)
      have := shared.map hid
      rwa [List.map_map] at this
    have sub : ((List.range' 0 n).map fun k => (leases k).id.toNat) ⊆ List.range (2 ^ 64) := by
      intro x hx
      obtain ⟨k, -, rfl⟩ := List.mem_map.mp hx
      exact List.mem_range.mpr (leases k).id.toNat_lt
    simpa using (List.subperm_of_subset ids sub).length_le
  have own : ((List.range' 0 n).map Lease.nth).Nodup :=
    TimedStore.nodup_nth (by rwa [Nat.zero_add])
  obtain ⟨ρ, hρ⟩ := exists_perm_map own shared (by simp)
  refine ⟨ρ, ?_⟩
  intro k hk
  rw [List.map_map, List.map_inj_left] at hρ
  exact (hρ k (by simpa using hk)).symm

end OnceProxy
