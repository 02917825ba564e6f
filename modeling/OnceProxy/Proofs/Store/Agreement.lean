import OnceProxy.Proofs.Store.Correspondence

/-!
# Memory and shared records answer alike

Whoever uses a store cannot tell whether its entries are in memory or among shared records. There
are two exceptions. Keys can have one address if a method has a colon in it, and a lease that has
stored already can only be released in memory.
-/

namespace OnceProxy

/-- What somebody asks of a store. A lease is named by the number of the attempt that got it. -/
inductive Demand where
  | tryAcquire
  | peek
  | store (attempt : Nat) (envelope : Envelope)
  | release (attempt : Nat)

/-- The operation that is asked for, if the attempts so far got these leases. Nothing can be done
with an attempt that got none. -/
def Demand.operation? (leases : List (Option Lease)) : Demand → Option Operation
  | tryAcquire => some .tryAcquire
  | peek => some .peek
  | store n e => leases[n]?.join.map (.store · e)
  | release n => leases[n]?.join.map .release

/-- The lease that is to be released. -/
def Operation.released? : Operation → Option Lease
  | release lease => some lease
  | _ => none

namespace Outcome

/-- What an attempt got. -/
def attempts : Outcome → List (Option Lease)
  | acquired lease => [lease]
  | _ => []

/-- Answers from two stores that mean the same. Their leases may have other names, and what is wrong
with a store may be worded otherwise. -/
def Matches : Outcome → Outcome → Prop
  | acquired lease, acquired lease' => lease.isSome = lease'.isSome
  | found result, found result' => result = result'
  | stored result, stored result' => result.isOk = result'.isOk
  | released, released => True
  | _, _ => False

end Outcome

/-- A store at the time `now`, and what the attempts to acquire keys have got so far. -/
structure Dialogue (σ : Type) where
  now : Nat
  store : σ
  leases : List (Option Lease)

/-- What happens next: somebody asks for something, or something happens by itself. -/
inductive DialogueMove where
  | ask (key : IdempotencyKey) (demand : Demand)
  | pass (tick : Tick)

/-- The key that somebody asks for. -/
def DialogueMove.key? : DialogueMove → Option IdempotencyKey
  | ask key _ => some key
  | pass _ => none

/-- Whether a move is an attempt to acquire a key. -/
def DialogueMove.isAttempt : DialogueMove → Bool
  | ask _ .tryAcquire => true
  | _ => false

namespace Dialogue

section

variable {σ : Type}

/-- Nobody has asked for anything. -/
def start (store : σ) : Dialogue σ := ⟨0, store, []⟩

/-- What is heard of a move. -/
def hear? (b : TimedBackend σ) (s : Dialogue σ) : DialogueMove → Option Outcome
  | .ask key demand => (demand.operation? s.leases).map fun operation =>
    (b.operate s.store s.now key operation).1
  | .pass _ => none

/-- Makes a move. What cannot be done changes nothing. -/
def step (b : TimedBackend σ) (s : Dialogue σ) : DialogueMove → Dialogue σ
  | .ask key demand =>
    match demand.operation? s.leases with
    | none => s
    | some operation =>
      let done := b.operate s.store s.now key operation
      { s with store := done.2, leases := s.leases ++ done.1.attempts }
  | .pass tick => { s with now := s.now + tick.ms, store := b.tick s.store s.now tick }

/-- What is heard of each of the moves. -/
def answers (b : TimedBackend σ) : Dialogue σ → List DialogueMove → List (Option Outcome)
  | _, [] => []
  | s, move :: moves => s.hear? b move :: (s.step b move).answers b moves

end

/-! ### Conditions on the moves -/

/-- Nobody asks for a key at the moment when its entry is due. -/
def IsTimely (s : Dialogue MemoryStore) : DialogueMove → Prop
  | .ask key _ => (s.store.cycle key).due? ≠ some s.now
  | .pass _ => True

/-- Nobody releases a key with the lease that has stored what its entry keeps. -/
def IsUnspent (s : Dialogue MemoryStore) : DialogueMove → Prop
  | .ask key demand => ∀ lease ∈ (demand.operation? s.leases).bind Operation.released?,
    (s.store.cycle key).isSpent lease = false
  | .pass _ => True

/-- Something holds whenever one of the moves is made. -/
def Always (p : Dialogue MemoryStore → DialogueMove → Prop) :
    Dialogue MemoryStore → List DialogueMove → Prop
  | _, [] => True
  | s, move :: moves => p s move ∧ (s.step .memory move).Always p moves

instance decidableIsTimely : (s : Dialogue MemoryStore) → DecidablePred s.IsTimely
  | s, .ask key _ => inferInstanceAs (Decidable ((s.store.cycle key).due? ≠ some s.now))
  | _, .pass _ => isTrue trivial

instance decidableIsUnspent : (s : Dialogue MemoryStore) → DecidablePred s.IsUnspent
  | s, .ask key demand => inferInstanceAs (Decidable
    (∀ lease ∈ (demand.operation? s.leases).bind Operation.released?,
      (s.store.cycle key).isSpent lease = false))
  | _, .pass _ => isTrue trivial

instance decidableAlways (p : Dialogue MemoryStore → DialogueMove → Prop)
    [(s : Dialogue MemoryStore) → DecidablePred (p s)] :
    (s : Dialogue MemoryStore) → (moves : List DialogueMove) → Decidable (s.Always p moves)
  | _, [] => isTrue trivial
  | s, move :: moves =>
    have := decidableAlways p (s.step .memory move) moves
    inferInstanceAs (Decidable (p s move ∧ (s.step .memory move).Always p moves))

end Dialogue

/-! ### Two stores in step -/

/-- The same is asked for, but for the names of leases. -/
lemma Demand.operation?_map (ρ : Equiv.Perm Lease) (leases : List (Option Lease))
    (demand : Demand) : demand.operation? (leases.map (Option.map ρ)) =
      (demand.operation? leases).map (Operation.rename ρ) := by
  have join (n : Nat) : (leases.map (Option.map ρ))[n]?.join = leases[n]?.join.map ρ := by
    rw [List.getElem?_map]
    cases leases[n]? <;> rfl
  cases demand with
  | tryAcquire => rfl
  | peek => rfl
  | store n e =>
    simp only [operation?, join, Option.map_map]
    rfl
  | release n =>
    simp only [operation?, join, Option.map_map]
    rfl

lemma Demand.isAttempt_eq {leases : List (Option Lease)} {demand : Demand}
    {operation : Operation} (ho : demand.operation? leases = some operation)
    (key : IdempotencyKey) :
    (DialogueMove.ask key demand).isAttempt = operation.isAttempt := by
  cases demand with
  | tryAcquire | peek =>
    cases ho
    rfl
  | store | release =>
    obtain ⟨lease, -, rfl⟩ := Option.map_eq_some_iff.mp ho
    rfl

/-- Only attempts to acquire a key are counted as such. -/
lemma Backend.length_attempts {σ : Type} (b : Backend σ) (s : σ) (now : Nat)
    (key : IdempotencyKey) (operation : Operation) :
    (b.operate s now key operation).1.attempts.length =
      if operation.isAttempt then 1 else 0 := by
  cases operation <;> rfl

/-- Leases are drawn in memory in their order, one for each attempt. -/
lemma Backend.draw_operate_memory {m : MemoryStore} {n : Nat} (h : m.draw.1 = .nth n) (now : Nat)
    (key : IdempotencyKey) (operation : Operation) :
    (memory.operate m now key operation).2.draw.1 =
      .nth (n + (memory.operate m now key operation).1.attempts.length) := by
  apply MemoryStore.draw_of_nextLease h
  rw [length_attempts, operate_memory, MemoryStore.nextLease_operate]
  cases operation <;> rfl

lemma TimedBackend.draw_tick_memory (m : MemoryStore) (now : Nat) (tick : Tick) :
    (memory.tick m now tick).draw.1 = m.draw.1 := by
  cases tick <;> rfl

/-- An answer means the same with other names for the leases. -/
lemma Outcome.matches_rename (ρ : Equiv.Perm Lease) (outcome : Outcome) :
    outcome.Matches (outcome.rename ρ) := by
  cases outcome with
  | acquired lease => simp [Matches, rename]
  | found | stored | released => trivial

lemma Outcome.attempts_rename (ρ : Equiv.Perm Lease) (outcome : Outcome) :
    (outcome.rename ρ).attempts = outcome.attempts.map (Option.map ρ) := by
  cases outcome <;> rfl

namespace Dialogue

/-- Every attempt is counted. -/
lemma length_leases_step {σ : Type} (b : TimedBackend σ) (s : Dialogue σ) (move : DialogueMove) :
    (s.step b move).leases.length = s.leases.length + if move.isAttempt then 1 else 0 := by
  cases move with
  | pass tick => rfl
  | ask key demand =>
    cases ho : demand.operation? s.leases with
    | none =>
      cases demand with
      | tryAcquire | peek => cases ho
      | store | release => simp [step, ho, DialogueMove.isAttempt]
    | some operation =>
      rw [Demand.isAttempt_eq ho key, ← Backend.length_attempts b.toBackend s.store s.now key]
      simp only [step, ho, List.length_append]

/-- The two stores are in step: their entries and records correspond, and their leases, which are
drawn in their order. -/
structure InStep (ttl : Nat) (ρ : Equiv.Perm Lease) (keys : Set IdempotencyKey)
    (leases : Nat → Lease) (s : Dialogue MemoryStore) (t : Dialogue RecordStore) : Prop where
  now : t.now = s.now
  agrees : Agrees ttl ρ keys s.now s.store t.store
  named : t.leases = s.leases.map (Option.map ρ)
  next : s.store.draw.1 = .nth s.leases.length
  drawn : t.store.drawn = s.leases.length
  source : t.store.leases = leases

namespace InStep

variable {ttl : Nat} {ρ : Equiv.Perm Lease} {keys : Set IdempotencyKey} {leases : Nat → Lease}
  {s : Dialogue MemoryStore} {t : Dialogue RecordStore} {key : IdempotencyKey}

lemma start (ttl : Nat) (ρ : Equiv.Perm Lease) (keys : Set IdempotencyKey)
    (leases : Nat → Lease) :
    InStep ttl ρ keys leases (start (.new ttl)) (start ⟨ttl, leases, 0, []⟩) where
  now := rfl
  agrees := .start ttl ρ keys leases
  named := rfl
  next := rfl
  drawn := rfl
  source := rfl

/-- An operation is answered alike, and keeps the stores in step. -/
lemma operate (h : InStep ttl ρ keys leases s t) (pos : 0 < ttl)
    (apart : Set.InjOn IdempotencyKey.recordKey keys) (hk : key ∈ keys)
    (timely : (s.store.cycle key).due? ≠ some s.now) {operation : Operation}
    (named : operation = .tryAcquire → ρ (.nth s.leases.length) = leases s.leases.length)
    (unspent : ∀ lease ∈ operation.released?, (s.store.cycle key).isSpent lease = false) :
    let done := Backend.memory.operate s.store s.now key operation
    let done' := Backend.records.operate t.store s.now key (operation.rename ρ)
    done.1.Matches done'.1 ∧
      InStep ttl ρ keys leases ⟨s.now, done.2, s.leases ++ done.1.attempts⟩
        ⟨s.now, done'.2, t.leases ++ done'.1.attempts⟩ := by
  intro done done'
  have effect := t.store.effect s.now key (operation.rename ρ)
  have next : t.store.draw.1 = leases s.leases.length := by
    rw [RecordStore.draw, h.source, h.drawn]
  obtain ⟨matched, attempts, agrees⟩ : done.1.Matches done'.1 ∧
      done'.1.attempts = done.1.attempts.map (Option.map ρ) ∧
      Agrees ttl ρ keys s.now done.2 done'.2 := by
    -- a store with a lease that has stored already fails in both, with different words
    by_cases spent : ∃ lease ∈ operation.lease?, (s.store.cycle key).isSpent lease = true
    · obtain ⟨lease, hl, spent⟩ := spent
      cases operation with
      | tryAcquire | peek => cases hl
      | store own e =>
        cases hl
        obtain ⟨hm, hr, agrees⟩ := h.agrees.operate_spent hk timely spent e
        simp only [done, done', Operation.rename, hm, hr]
        exact ⟨rfl, rfl, agrees⟩
      | release own =>
        cases hl
        rw [unspent lease rfl] at spent
        cases spent
    · have unspent : ∀ lease ∈ operation.lease?, (s.store.cycle key).isSpent lease = false := by
        simpa using spent
      have drawn : operation = .tryAcquire → t.store.draw.1 = ρ s.store.draw.1 := by
        intro ho
        rw [next, h.next, named ho]
      obtain ⟨hr, agrees⟩ := h.agrees.operate pos apart hk timely drawn unspent
      simp only [done, done', hr]
      exact ⟨done.1.matches_rename ρ, done.1.attempts_rename ρ, agrees⟩
  refine ⟨matched, rfl, agrees, ?_, ?_, ?_, ?_⟩
  · rw [attempts, h.named, List.map_append]
  · rw [List.length_append]
    exact Backend.draw_operate_memory h.next s.now key operation
  · rw [effect.drawn_eq, h.drawn, List.length_append, Backend.length_attempts]
    cases operation <;> rfl
  · exact effect.leases_eq.trans h.source

/-- A move is answered alike, and keeps the stores in step. -/
lemma step (h : InStep ttl ρ keys leases s t) (pos : 0 < ttl)
    (apart : Set.InjOn IdempotencyKey.recordKey keys) {move : DialogueMove}
    (asked : ∀ key demand, move = .ask key demand → key ∈ keys) (timely : s.IsTimely move)
    (unspent : s.IsUnspent move)
    (named : move.isAttempt → ρ (.nth s.leases.length) = leases s.leases.length) :
    Option.Rel Outcome.Matches (s.hear? .memory move) (t.hear? .records move) ∧
      InStep ttl ρ keys leases (s.step .memory move) (t.step .records move) := by
  cases move with
  | pass tick =>
    refine ⟨.none, ?_⟩
    constructor
    · exact congrArg (· + tick.ms) h.now
    · exact h.agrees.tick tick
    · exact h.named
    · exact (TimedBackend.draw_tick_memory s.store s.now tick).trans h.next
    · exact h.drawn
    · exact h.source
  | ask key demand =>
    have hk := asked key demand rfl
    -- the demand names leases by their numbers, so it becomes the same operation up to the renaming
    have same := demand.operation?_map ρ s.leases
    rw [← h.named] at same
    cases ho : demand.operation? s.leases with
    | none =>
      rw [ho] at same
      simp only [hear?, Dialogue.step, ho, same]
      exact ⟨.none, h⟩
    | some operation =>
      rw [ho] at same
      have released : ∀ lease ∈ operation.released?,
          (s.store.cycle key).isSpent lease = false := by
        intro lease hl
        apply unspent lease
        rw [ho]
        exact hl
      have attempt : operation = .tryAcquire →
          ρ (.nth s.leases.length) = leases s.leases.length := by
        intro hop
        apply named
        rw [Demand.isAttempt_eq ho key, hop]
        rfl
      obtain ⟨matched, instep⟩ := h.operate pos apart hk timely attempt released
      simp only [hear?, Dialogue.step, ho, same, h.now]
      exact ⟨.some matched, instep⟩

/-- All moves are answered alike. -/
lemma answers (h : InStep ttl ρ keys leases s t) (pos : 0 < ttl)
    (apart : Set.InjOn IdempotencyKey.recordKey keys) {moves : List DialogueMove}
    (asked : ∀ key demand, .ask key demand ∈ moves → key ∈ keys)
    (timely : s.Always IsTimely moves) (unspent : s.Always IsUnspent moves)
    (named : ∀ n < s.leases.length + moves.countP DialogueMove.isAttempt,
      ρ (.nth n) = leases n) :
    List.Forall₂ (Option.Rel Outcome.Matches) (s.answers .memory moves)
      (t.answers .records moves) := by
  -- along the dialogue, both stores in step
  induction moves generalizing s t with
  | nil => exact .nil
  | cons move moves ih =>
    rw [List.countP_cons] at named
    have first : move.isAttempt → ρ (.nth s.leases.length) = leases s.leases.length := by
      intro ha
      apply named
      rw [if_pos ha]
      omega
    have asked' (key : IdempotencyKey) (demand : Demand) (he : move = .ask key demand) :
        key ∈ keys := asked key demand (he ▸ List.mem_cons_self)
    obtain ⟨matched, instep⟩ := h.step pos apart asked' timely.1 unspent.1 first
    refine .cons matched (ih instep ?_ timely.2 unspent.2 ?_)
    · intro key demand hm
      exact asked key demand (List.mem_cons_of_mem move hm)
    · intro n hn
      rw [length_leases_step] at hn
      exact named n (by omega)

end InStep

end Dialogue

/-- Memory and shared records, which draw leases from a sequence, give answers to all moves that
match. -/
def AnswerAlike (ttl : Nat) (leases : Nat → Lease) (moves : List DialogueMove) : Prop :=
  List.Forall₂ (Option.Rel Outcome.Matches)
    ((Dialogue.start (.new ttl)).answers .memory moves)
    ((Dialogue.start ⟨ttl, leases, 0, []⟩).answers .records moves)

/-- Memory and shared records answer alike. Suppose that entries last for a positive time, that no
lease is drawn twice for shared records, that the keys in use have different addresses, that nobody
asks for a key at the very moment when its entry is due, and that nobody releases a key with the
lease that has stored what is kept for the key. Whatever else is asked, at whatever times and with
whatever leases were granted before, all answers match. -/
theorem answers_match (ttl : Nat) (leases : Nat → Lease) (moves : List DialogueMove)
    (pos : 0 < ttl)
    (distinct : Set.InjOn leases (Set.Iio (moves.countP DialogueMove.isAttempt)))
    (apart : Set.InjOn IdempotencyKey.recordKey {key | key ∈ moves.filterMap DialogueMove.key?})
    (timely : (Dialogue.start (.new ttl)).Always Dialogue.IsTimely moves)
    (unspent : (Dialogue.start (.new ttl)).Always Dialogue.IsUnspent moves) :
    AnswerAlike ttl leases moves := by
  obtain ⟨ρ, named⟩ := exists_renaming distinct
  have instep := Dialogue.InStep.start ttl ρ {key | key ∈ moves.filterMap DialogueMove.key?} leases
  apply instep.answers pos apart _ timely unspent
  · intro n hn
    apply named n
    simpa [Dialogue.start] using hn
  · intro key demand hm
    exact List.mem_filterMap.mpr ⟨_, hm, rfl⟩

/-- Two callers share a key. The one that gets it stores an envelope, tries to do so again, and when
the entry is gone the other one acquires the key and gives it up. -/
def sharedKey : List DialogueMove :=
  let key : IdempotencyKey := ⟨"a", "GET", "k"⟩
  let e : Envelope := ⟨200, [], [], "text/plain"⟩
  [.ask key .tryAcquire, .pass (.wait 3), .ask key .tryAcquire, .ask key (.store 0 e),
    .ask key (.store 0 e), .pass (.wait 4), .ask key .peek, .pass (.wait 2), .pass .sweep,
    .ask key .tryAcquire, .ask key (.release 0), .ask key (.release 2), .ask key .peek]

theorem answers_match_sharedKey :
    0 < 5 ∧ Set.InjOn Lease.nth (Set.Iio (sharedKey.countP DialogueMove.isAttempt)) ∧
    Set.InjOn IdempotencyKey.recordKey {key | key ∈ sharedKey.filterMap DialogueMove.key?} ∧
    (Dialogue.start (.new 5)).Always Dialogue.IsTimely sharedKey ∧
    (Dialogue.start (.new 5)).Always Dialogue.IsUnspent sharedKey ∧
    AnswerAlike 5 .nth sharedKey := by
  have distinct : Set.InjOn Lease.nth (Set.Iio (sharedKey.countP DialogueMove.isAttempt)) :=
    Lease.injOn_nth (by decide +kernel)
  have apart : Set.InjOn IdempotencyKey.recordKey
      {key | key ∈ sharedKey.filterMap DialogueMove.key?} := by
    have same : ∀ key ∈ sharedKey.filterMap DialogueMove.key?, key = ⟨"a", "GET", "k"⟩ := by
      decide +kernel
    intro k hk k' hk' _
    rw [same k hk, same k' hk']
  have timely : (Dialogue.start (.new 5)).Always Dialogue.IsTimely sharedKey := by decide +kernel
  have unspent : (Dialogue.start (.new 5)).Always Dialogue.IsUnspent sharedKey := by
    decide +kernel
  exact ⟨by decide, distinct, apart, timely, unspent,
    answers_match 5 .nth sharedKey (by decide) distinct apart timely unspent⟩

/-- A caller releases what it has stored, and looks for it. -/
def secondThoughts : List DialogueMove :=
  let key : IdempotencyKey := ⟨"a", "GET", "k"⟩
  [.ask key .tryAcquire, .ask key (.store 0 ⟨200, [], [], "text/plain"⟩), .ask key (.release 0),
    .ask key .peek]

/-- Two keys with one address. -/
def oneAddress : List DialogueMove :=
  [.ask ⟨"a", "GET:x", "k"⟩ .tryAcquire, .ask ⟨"a", "GET", "x:k"⟩ .tryAcquire]

/-- What was stored can be released in memory only, and keys with one address are told apart in
memory only. -/
theorem not_answer_alike :
    (Set.InjOn Lease.nth (Set.Iio (secondThoughts.countP DialogueMove.isAttempt)) ∧
      (Dialogue.start (.new 5)).Always Dialogue.IsTimely secondThoughts ∧
      ¬ AnswerAlike 5 .nth secondThoughts) ∧
    (Set.InjOn Lease.nth (Set.Iio (oneAddress.countP DialogueMove.isAttempt)) ∧
      (Dialogue.start (.new 5)).Always Dialogue.IsTimely oneAddress ∧
      ¬ AnswerAlike 5 .nth oneAddress) := by
  refine ⟨⟨Lease.injOn_nth (by decide +kernel), by decide +kernel, ?_⟩,
    ⟨Lease.injOn_nth (by decide +kernel), by decide +kernel, ?_⟩⟩
  · have memory : (Dialogue.start (.new 5)).answers .memory secondThoughts =
        [some (.acquired (some (.nth 0))), some (.stored (.ok ())), some .released,
          some (.found (.error .notObtained))] := by decide +kernel
    have records : (Dialogue.start ⟨5, .nth, 0, []⟩).answers .records secondThoughts =
        [some (.acquired (some (.nth 0))), some (.stored (.ok ())), some .released,
          some (.found (.ok (some ⟨200, [], [], "text/plain"⟩)))] := by decide +kernel
    -- the last answers differ: the entry was reset, and the record stays
    rw [AnswerAlike, memory, records]
    simp [Outcome.Matches]
  · have memory : (Dialogue.start (.new 5)).answers .memory oneAddress =
        [some (.acquired (some (.nth 0))), some (.acquired (some (.nth 1)))] := by decide +kernel
    have records : (Dialogue.start ⟨5, .nth, 0, []⟩).answers .records oneAddress =
        [some (.acquired (some (.nth 0))), some (.acquired none)] := by decide +kernel
    -- the keys are two entries, but one record
    rw [AnswerAlike, memory, records]
    simp [Outcome.Matches]

end OnceProxy
