import Mathlib.Tactic.Common
import OnceProxy.Store.Memory

/-!
# Cycles of an entry

What an entry answers is settled by its cycle: nobody holds it, a lease holds it until some time,
or a lease has stored a value that lasts until some time. Generations and timers only serve to end
cycles at the right moment.
-/

namespace OnceProxy

/-- What is done to an entry. -/
inductive Action where
  | acquire (lease : Lease)
  | peek
  | store (lease : Lease) (value : List UInt8)
  | release (lease : Lease)
  deriving DecidableEq, Repr

/-- What an entry answers. -/
inductive Answer where
  | acquired (won : Bool)
  | found (value : Except ProxyError (Option (List UInt8)))
  | stored (result : Except ProxyError Unit)
  | released (held : Bool)
  deriving DecidableEq, Repr

/-- How far the cycle of a key is, and when it ends. -/
inductive Cycle where
  | free
  | held (lease : Lease) (due : Nat)
  | ready (lease : Lease) (value : List UInt8) (due : Nat)
  deriving DecidableEq, Repr

namespace Cycle

/-- The lease of a cycle. -/
def lease? : Cycle → Option Lease
  | free => none
  | held lease _ => some lease
  | ready lease _ _ => some lease

/-- When a cycle ends by itself. -/
def due? : Cycle → Option Nat
  | free => none
  | held _ due => some due
  | ready _ _ due => some due

/-- The answer to an action. -/
def answer : Cycle → Action → Answer
  | c, .acquire _ => .acquired (c = free)
  | free, .peek => .found (.error .notObtained)
  | held _ _, .peek => .found (.ok none)
  | ready _ value _, .peek => .found (.ok (some value))
  | free, .store _ _ => .stored (.error .leaseLost)
  | held holder _, .store lease _ =>
    .stored (if holder = lease then .ok () else .error .leaseLost)
  | ready holder _ _, .store lease _ =>
    .stored (.error (if holder = lease then .alreadyStored else .leaseLost))
  | c, .release lease => .released (c.lease? = some lease)

/-- The cycle after an action, by which it lasts until `due` if it is given a new end. -/
def after (due : Nat) : Cycle → Action → Cycle
  | free, .acquire lease => held lease due
  | held holder old, .store lease value =>
    if holder = lease then ready lease value due else held holder old
  | c, .release lease => if c.lease? = some lease then free else c
  | c, _ => c

variable (c : Cycle) (due : Nat) (lease : Lease)

lemma answer_release : c.answer (.release lease) = .released (c.lease? = some lease) := by
  cases c <;> rfl

lemma after_release :
    c.after due (.release lease) = if c.lease? = some lease then free else c := by
  cases c <;> rfl

variable {c due lease}

/-- Whoever wants to store with another lease than that of the cycle has lost the lease. -/
lemma answer_store_of_ne (h : c.lease? ≠ some lease) (value : List UInt8) :
    c.answer (.store lease value) = .stored (.error .leaseLost) := by
  cases c with
  | free => rfl
  | held holder old =>
    have hne : holder ≠ lease := fun e => h (congrArg some e)
    simp [answer, hne]
  | ready holder kept old =>
    have hne : holder ≠ lease := fun e => h (congrArg some e)
    simp [answer, hne]

lemma after_store_of_ne (h : c.lease? ≠ some lease) (value : List UInt8) :
    c.after due (.store lease value) = c := by
  cases c with
  | free => rfl
  | held holder old => exact if_neg fun e => h (congrArg some e)
  | ready => rfl

/-- An action gives a cycle the new end, or leaves its end alone. -/
lemma due?_after {action : Action} {d : Nat} (h : (c.after due action).due? = some d) :
    d = due ∨ c.due? = some d := by
  -- only an acquisition of a free cycle and a store by its holder set a new time
  cases action with
  | acquire lease =>
    cases c with
    | free => cases h; exact .inl rfl
    | held => exact .inr h
    | ready => exact .inr h
  | peek => cases c <;> exact .inr h
  | store lease value =>
    cases c with
    | free => exact .inr h
    | held holder old =>
      simp only [after] at h
      split at h
      · cases h
        exact .inl rfl
      · exact .inr h
    | ready => exact .inr h
  | release lease =>
    rw [after_release] at h
    split at h
    · cases h
    · exact .inr h

end Cycle

namespace Entry

/-- The cycle of an entry. -/
def cycle (e : Entry) : Cycle :=
  match e.phase, e.lease, e.value, e.timer with
  | .pending, some lease, _, some timer => .held lease timer.due
  | .ready, some lease, some value, some timer => .ready lease value timer.due
  | _, _, _, _ => .free

/-- The entries that can come about: whatever is not empty has a lease and a timer of its own
generation, and has a value as soon as it is ready. -/
inductive Sound : Entry → Prop where
  | empty (generation : Nat) : Sound ⟨.empty, none, none, generation, none⟩
  | pending (lease : Lease) (generation due : Nat) :
    Sound ⟨.pending, some lease, none, generation, some ⟨generation, due⟩⟩
  | ready (lease : Lease) (value : List UInt8) (generation due : Nat) :
    Sound ⟨.ready, some lease, some value, generation, some ⟨generation, due⟩⟩

lemma sound_new : new.Sound :=
  .empty 0

lemma sound_reset (e : Entry) : e.reset.Sound :=
  .empty _

@[simp] lemma cycle_new : new.cycle = .free := rfl

@[simp] lemma cycle_reset (e : Entry) : e.reset.cycle = .free := rfl

variable {e : Entry}

lemma Sound.cycle_of_empty (h : e.Sound) (he : e.phase = .empty) : e.cycle = .free := by
  cases h with
  | empty => rfl
  | pending => cases he
  | ready => cases he

lemma Sound.lease?_cycle (h : e.Sound) : e.cycle.lease? = e.lease := by
  cases h <;> rfl

lemma Sound.due?_cycle (h : e.Sound) : e.cycle.due? = e.timer.map (·.due) := by
  cases h <;> rfl

lemma Sound.generation_timer (h : e.Sound) {timer : Timer} (ht : e.timer = some timer) :
    timer.generation = e.generation := by
  cases h with
  | empty => cases ht
  | pending => cases ht; rfl
  | ready => cases ht; rfl

lemma Sound.lease_of_timer (h : e.Sound) {timer : Timer} (ht : e.timer = some timer) :
    ∃ lease, e.lease = some lease := by
  cases h with
  | empty => cases ht
  | pending lease => exact ⟨lease, rfl⟩
  | ready lease => exact ⟨lease, rfl⟩

/-! ### Actions -/

/-- Does something to an entry, which then lasts until `due` if it is given a new end. -/
def act (e : Entry) (due : Nat) : Action → Answer × Entry
  | .acquire lease => ((.acquired (e.tryAcquire lease due).1), (e.tryAcquire lease due).2)
  | .peek => (.found e.peek, e)
  | .store lease value =>
    match e.store lease value due with
    | .error error => (.stored (.error error), e)
    | .ok e => (.stored (.ok ()), e)
  | .release lease => (.released (e.release lease).1, (e.release lease).2)

/-- An entry answers as its cycle says. -/
lemma Sound.answer_act (h : e.Sound) (due : Nat) (a : Action) :
    (e.act due a).1 = e.cycle.answer a := by
  -- over the forms of a sound entry, as the answer depends on the phase and on the holder
  cases a with
  | acquire lease => cases h <;> rfl
  | peek => cases h <;> rfl
  | store lease value =>
    cases h with
    | empty => rfl
    | pending holder generation old =>
      by_cases hl : holder = lease
      · simp [act, Entry.store, cycle, Cycle.answer, hl]
      · simp [act, Entry.store, cycle, Cycle.answer, hl]
    | ready holder value generation old =>
      by_cases hl : holder = lease
      · simp [act, Entry.store, cycle, Cycle.answer, hl]
      · simp [act, Entry.store, cycle, Cycle.answer, hl]
  | release lease =>
    simp only [act, Entry.release, Cycle.answer, h.lease?_cycle]
    by_cases hl : e.lease = some lease
    · rw [if_pos hl, decide_eq_true hl]
    · rw [if_neg hl, decide_eq_false hl]

/-- An action moves an entry on as it does the cycle. -/
lemma Sound.cycle_act (h : e.Sound) (due : Nat) (a : Action) :
    (e.act due a).2.cycle = e.cycle.after due a := by
  cases a with
  | acquire lease => cases h <;> rfl
  | peek => cases h <;> rfl
  | store lease value =>
    cases h with
    | empty => rfl
    | pending holder generation old =>
      by_cases hl : holder = lease
      · simp [act, Entry.store, cycle, Cycle.after, schedule, hl]
      · simp [act, Entry.store, cycle, Cycle.after, hl]
    | ready holder value generation old =>
      by_cases hl : holder = lease
      · simp [act, Entry.store, cycle, Cycle.after, hl]
      · simp [act, Entry.store, cycle, Cycle.after, hl]
  | release lease =>
    rw [Cycle.after_release, h.lease?_cycle, act, Entry.release]
    split <;> rfl

lemma Sound.act (h : e.Sound) (due : Nat) (a : Action) : (e.act due a).2.Sound := by
  cases a with
  | acquire lease =>
    cases h with
    | empty generation => exact .pending lease (generation + 1) due
    | pending holder generation old => exact .pending holder generation old
    | ready holder value generation old => exact .ready holder value generation old
  | peek => exact h
  | store lease value =>
    cases h with
    | empty generation => exact .empty generation
    | pending holder generation old =>
      by_cases hl : holder = lease
      · simpa [Entry.act, Entry.store, schedule, hl] using .ready lease value (generation + 1) due
      · simpa [Entry.act, Entry.store, hl] using .pending holder generation old
    | ready holder held generation old =>
      by_cases hl : holder = lease
      · simpa [Entry.act, Entry.store, hl] using .ready lease held generation old
      · simpa [Entry.act, Entry.store, hl] using .ready holder held generation old
  | release lease =>
    -- whatever a released entry held, it is reset to an empty one
    simp only [Entry.act, Entry.release]
    split
    · exact sound_reset e
    · exact h

/-- An action that changes an entry at all takes it to a later generation. -/
lemma Sound.act_eq_or_lt (h : e.Sound) (due : Nat) (a : Action) :
    (e.act due a).2 = e ∨ e.generation < (e.act due a).2.generation := by
  cases a with
  | acquire lease =>
    cases h with
    | empty generation => exact .inr (Nat.lt_succ_self _)
    | pending => exact .inl rfl
    -- only an empty entry can be acquired, and that counts as a change
    | ready => exact .inl rfl
  | peek => exact .inl rfl
  | store lease value =>
    simp only [Entry.act, Entry.store]
    split
    · exact .inl rfl
    · rename_i he
      split at he
      · cases he
      · split at he
        · cases he
        · cases he
          exact .inr (Nat.lt_succ_self _)
  | release lease =>
    simp only [Entry.act, Entry.release]
    split
    · exact .inr (Nat.lt_succ_self _)
    · exact .inl rfl

/-! ### Timers -/

lemma expire_of_eq {generation : Nat} (h : e.generation = generation) :
    e.expire generation = e.reset :=
  if_pos h

lemma expire_of_ne {generation : Nat} (h : e.generation ≠ generation) : e.expire generation = e :=
  if_neg h

lemma Sound.expire (h : e.Sound) (generation : Nat) : (e.expire generation).Sound := by
  unfold Entry.expire
  split
  · exact sound_reset e
  · exact h

lemma expire_eq_or_lt (e : Entry) (generation : Nat) :
    e.expire generation = e ∨ e.generation < (e.expire generation).generation := by
  unfold Entry.expire
  split
  · exact .inr (Nat.lt_succ_self _)
  · exact .inl rfl

end Entry

end OnceProxy
