import OnceProxy.Proofs.Store.Whole

/-!
# What an operation does to a key

A whole operation answers what the cycle of its key calls for. It moves that cycle on, and no other.
-/

namespace OnceProxy

/-- What an operation answers. -/
inductive Outcome where
  | acquired (lease : Option Lease)
  | found (result : Except ProxyError (Option Envelope))
  | stored (result : Except ProxyError Unit)
  | released
  deriving DecidableEq, Repr

/-- What those hear of the answer to an action who did it with a lease that was drawn for them. -/
def Answer.outcome (lease : Lease) : Answer → Outcome
  | acquired won => .acquired (if won then some lease else none)
  | found value => .found (value.bind fun
    | none => .ok none
    | some bytes => (Envelope.decode bytes).map some)
  | stored result => .stored result
  | released _ => .released

namespace MemoryStore

/-- Does an operation. -/
def operate (m : MemoryStore) (now : Nat) (key : IdempotencyKey) :
    Operation → Outcome × MemoryStore
  | .tryAcquire => (.acquired (m.tryAcquire now key).1, (m.tryAcquire now key).2)
  | .peek => (.found (m.peek key), m)
  | .store lease e => (.stored (m.store now key lease e).1, (m.store now key lease e).2)
  | .release lease => (.released, m.release key lease)

end MemoryStore

namespace Steady

open MemoryStore

variable {ttl : Nat} {m : MemoryStore} {clients : List Client} {tasks : List SlotTimer}

/-- A client that does nothing can go. -/
lemma leave (h : Steady ttl m (clients ++ [.idle]) tasks) : Steady ttl m clients tasks where
  ttl := h.ttl
  ordered := h.ordered
  sound := h.sound
  handles s hs := by
    rw [h.handles s hs, List.countP_append]
    rfl
  placed key action slot hm := h.placed key action slot (List.mem_append_left _ hm)
  below := h.below
  current := h.current

/-- What becomes of a store from which somebody got an answer to an action on a key: it is steady,
and the cycle of the key has called for the answer and moved on. -/
structure Served (ttl : Nat) (m : MemoryStore) (clients : List Client) (tasks : List SlotTimer)
    (now : Nat) (key : IdempotencyKey) (action : Action) (done : Answer × MemoryStore) : Prop where
  steady : Steady ttl done.2 clients tasks
  answer : done.1 = (m.cycle key).answer action
  cycle : ∀ k, done.2.cycle k = if key = k then (m.cycle key).after (now + ttl) action else m.cycle k

/-- Somebody comes, looks up a key, acts on what was found and goes. -/
lemma served_of_lookUp (h : Steady ttl m clients tasks) (key : IdempotencyKey) (action : Action)
    {slot : Nat} {m' : MemoryStore} (hl : m.lookUp key action = some (slot, m')) (now : Nat) :
    Served ttl m clients tasks now key action
      ((m'.act now slot action).1, (m'.act now slot action).2.giveBack slot) := by
  -- a client joins for the time of the operation, and leaves again afterwards
  have hi : (clients ++ [Client.idle])[clients.length]? = some .idle := by simp
  obtain ⟨found, cycles⟩ := h.join.lookUp hi rfl hl
  have hi' : ((clients ++ [Client.idle]).set clients.length (.holding key action slot))[
      clients.length]? = some (.holding key action slot) :=
    List.getElem?_set_self (by simp)
  obtain ⟨steady, hanswer, hcycle⟩ := found.act hi' now
  have back : ((clients ++ [Client.idle]).set clients.length (.holding key action slot)).set
      clients.length .idle = clients ++ [.idle] := by
    rw [List.set_set]
    simp
  rw [back] at steady
  constructor
  · exact steady.leave.tasks_subset fun t ht => List.mem_append_left _ ht
  · rw [hanswer, cycles]
  · intro k
    rw [hcycle k, cycles, cycles]

/-- To act on an entry without taking it up comes to the same. -/
lemma served_perform (h : Steady ttl m clients tasks) (key : IdempotencyKey) (action : Action)
    (hl : m.lookUp key action = m.takeUp? key) (now : Nat) :
    Served ttl m clients tasks now key action (m.perform now key action) := by
  cases hs : m.slotOf? key with
  | none =>
    have hp : m.perform now key action = (missing action, m) := by
      simp only [perform, hs]
    have hn : m.lookUp key action = none := by
      rw [hl, takeUp?, hs]
      rfl
    -- what is answered where there is no entry is what an empty one answers
    obtain ⟨-, hanswer, hafter⟩ := answer_missing hn
    rw [hp]
    constructor
    · exact h
    · exact hanswer
    · intro k
      by_cases hk : key = k
      · rw [if_pos hk, hafter, hk]
      · rw [if_neg hk]
  | some s =>
    have hp : m.perform now key action = m.act now s.id action := by
      simp only [perform, hs]
    have hm := ((slotOf?_eq_some h.ordered).mp hs).1
    have hf : m.lookUp key action = some (s.id, m.hold s.id) := by
      rw [hl, takeUp?, hs]
      rfl
    have served := h.served_of_lookUp key action hf now
    rw [(act_hold h.ordered hm now action).1, (act_hold h.ordered hm now action).2] at served
    rw [hp]
    exact served

/-- To acquire a key is to draw a lease, to look up the key and to act on what was found. -/
lemma served_tryAcquire (h : Steady ttl m clients tasks) (now : Nat) (key : IdempotencyKey) :
    ∃ won, (m.tryAcquire now key).1 = (if won then some m.draw.1 else none) ∧
      Served ttl m clients tasks now key (.acquire m.draw.1)
        (.acquired won, (m.tryAcquire now key).2) := by
  have served := h.draw.served_of_lookUp key (.acquire m.draw.1) rfl now
  exact ⟨_, rfl, served.steady, served.answer, served.cycle⟩

/-- An operation does what its action does, and answers accordingly. -/
lemma operate (h : Steady ttl m clients tasks) (now : Nat) (key : IdempotencyKey)
    (operation : Operation) :
    ∃ answer, (m.operate now key operation).1 = answer.outcome m.draw.1 ∧
      Served ttl m clients tasks now key (operation.action m.draw.1)
        (answer, (m.operate now key operation).2) := by
  -- only an acquisition can make an entry
  cases operation with
  | tryAcquire =>
    obtain ⟨won, hwon, served⟩ := h.served_tryAcquire now key
    exact ⟨.acquired won, congrArg Outcome.acquired hwon, served⟩
  | peek =>
    have served := h.served_perform key .peek rfl now
    obtain ⟨value, hp, hpeek⟩ := m.peek_eq now key
    rw [hp] at served
    exact ⟨.found value, congrArg Outcome.found hpeek, served⟩
  | store lease e =>
    have served := h.served_perform key (.store lease e.encode) rfl now
    obtain ⟨result, store, hp, hstore⟩ := m.store_eq now key lease e
    rw [hp] at served
    refine ⟨.stored result, ?_, ?_⟩
    · simp only [MemoryStore.operate, hstore, Answer.outcome]
    · simp only [MemoryStore.operate, hstore]
      exact served
  | release lease =>
    have served := h.served_perform key (.release lease) rfl now
    refine ⟨(m.perform now key (.release lease)).1, ?_, ?_⟩
    · simp only [served.answer, Cycle.answer_release, MemoryStore.operate, Answer.outcome]
    · simp only [MemoryStore.operate, release_eq m now key lease]
      exact served

/-- What is found for a key is what its cycle calls for. -/
lemma peek_eq (h : Steady ttl m clients tasks) (key : IdempotencyKey) :
    ∃ value, Answer.found value = (m.cycle key).answer .peek ∧
      Outcome.found (m.peek key) = (Answer.found value).outcome m.draw.1 := by
  obtain ⟨answer, houtcome, served⟩ := h.operate 0 key .peek
  have hanswer : answer = (m.cycle key).answer .peek := served.answer
  cases answer with
  | found value => exact ⟨value, hanswer, houtcome⟩
  | acquired | stored | released => cases houtcome

/-- A key can be acquired just if it is free. -/
lemma tryAcquire_eq (h : Steady ttl m clients tasks) (now : Nat) (key : IdempotencyKey) :
    (m.tryAcquire now key).1 = if m.cycle key = .free then some m.draw.1 else none := by
  obtain ⟨won, hwon, served⟩ := h.served_tryAcquire now key
  have hanswer : Answer.acquired won = .acquired (m.cycle key = .free) := served.answer
  cases hanswer
  rw [hwon]
  simp

end Steady

end OnceProxy
