import OnceProxy.Proofs.Store.Traffic

/-!
# Whole operations

The three steps of an operation, if nothing comes between them, do what the whole operation does.
-/

namespace OnceProxy

namespace MemoryStore

/-! ### Holding a slot meanwhile -/

lemma alter_alter {id : Nat} {f g : Slot → Slot} (hg : ∀ s, (g s).id = s.id) (ss : List Slot) :
    alter id f (alter id g ss) = alter id (fun s => f (g s)) ss := by
  induction ss with
  | nil => rfl
  | cons s ss ih =>
    simp only [alter]
    split
    · rename_i hi
      simp only [alter, hg, if_pos hi]
    · rename_i hi
      simp only [alter, if_neg hi, ih]

/-- It makes no difference to hold a slot while its entry changes. -/
lemma giveBack_setEntry_hold (m : MemoryStore) (id : Nat) (e : Entry) :
    ((m.hold id).setEntry id e).giveBack id = m.setEntry id e := by
  simp only [hold, setEntry, giveBack, alter_alter, implies_true, Nat.add_sub_cancel]

/-- What an action does to the entry of a key, without taking it up. No entry is made. -/
def perform (m : MemoryStore) (now : Nat) (key : IdempotencyKey) (a : Action) :
    Answer × MemoryStore :=
  match m.slotOf? key with
  | none => (missing a, m)
  | some s => m.act now s.id a

lemma peek_eq (m : MemoryStore) (now : Nat) (key : IdempotencyKey) :
    ∃ value, m.perform now key .peek = (.found value, m) ∧
      m.peek key = value.bind fun
        | none => .ok none
        | some bytes => (Envelope.decode bytes).map some := by
  unfold perform MemoryStore.peek
  cases m.slotOf? key with
  | none => exact ⟨_, rfl, rfl⟩
  | some s =>
    refine ⟨_, rfl, ?_⟩
    simp only
    cases m.peekAt s.id with
    | error => rfl
    | ok value =>
      cases value with
      | none => rfl
      | some bytes =>
        simp only [bind, Except.bind]
        cases Envelope.decode bytes <;> rfl

lemma store_eq (m : MemoryStore) (now : Nat) (key : IdempotencyKey) (lease : Lease)
    (e : Envelope) : ∃ result store,
      m.perform now key (.store lease e.encode) = (.stored result, store) ∧
      m.store now key lease e = (result, store) := by
  unfold perform MemoryStore.store
  cases m.slotOf? key with
  | none => exact ⟨_, _, rfl, rfl⟩
  | some s => exact ⟨_, _, rfl, rfl⟩

lemma release_eq (m : MemoryStore) (now : Nat) (key : IdempotencyKey) (lease : Lease) :
    m.release key lease = (m.perform now key (.release lease)).2 := by
  unfold perform MemoryStore.release
  cases m.slotOf? key <;> rfl

variable {m : MemoryStore}

lemma act_hold (h : m.Ordered) {s : Slot} (hs : s ∈ m.slots) (now : Nat) (a : Action) :
    ((m.hold s.id).act now s.id a).1 = (m.act now s.id a).1 ∧
      ((m.hold s.id).act now s.id a).2.giveBack s.id = (m.act now s.id a).2 := by
  have held : (m.hold s.id).Ordered := by
    rw [hold_eq h]
    exact ordered_update h (keeps_only (Slot.keeps_withHandles _) _)
  -- the handle that is counted while the key is in use is given back at the end
  have hm : s.withHandles (· + 1) ∈ (m.hold s.id).slots := by
    rw [hold_eq h]
    exact List.mem_map.mpr ⟨s, hs, only_of_eq rfl _⟩
  have he : (m.hold s.id).act now s.id a = ((s.entry.act (now + m.ttl) a).1,
      (m.hold s.id).setEntry s.id (s.entry.act (now + m.ttl) a).2) := act_eq held hm now a
  rw [he, act_eq h hs, giveBack_setEntry_hold]
  exact ⟨rfl, rfl⟩

end MemoryStore

namespace StoreState

open MemoryStore

variable {s : StoreState} {i : Nat} {key : IdempotencyKey} {action : Action}

lemma lookUp_of_none (hi : s.clients[i]? = some (.asking key action))
    (hl : s.store.lookUp key action = none) :
    s.lookUp i = { s with
      clients := s.clients.set i .idle
      log := s.log ++ [⟨s.now, key, .answered i action (missing action)⟩] } := by
  simp only [lookUp, hi, hl]

lemma lookUp_of_some (hi : s.clients[i]? = some (.asking key action)) {slot : Nat}
    {m : MemoryStore} (hl : s.store.lookUp key action = some (slot, m)) :
    s.lookUp i = { s with store := m, clients := s.clients.set i (.holding key action slot) } := by
  simp only [lookUp, hi, hl]

lemma act_of_idle (hi : s.clients[i]? = some .idle) : s.act i = s := by
  simp only [act, hi]

lemma act_of_holding {slot : Nat} (hi : s.clients[i]? = some (.holding key action slot)) :
    s.act i = { s with
      store := (s.store.act s.now slot action).2.giveBack slot
      tasks := s.tasks ++ (s.store.act s.now slot action).2.timersSince s.store
      clients := s.clients.set i .idle
      log := s.log ++ [⟨s.now, key, .answered i action (s.store.act s.now slot action).1⟩] } := by
  simp only [act, hi]

/-- What becomes of the entries, and what is answered, when a client that has asked for something
looks it up and acts at once. -/
def Yields (s : StoreState) (i : Nat) (key : IdempotencyKey) (action : Action) (answer : Answer)
    (store : MemoryStore) : Prop :=
  let t := (s.lookUp i).act i
  t.store = store ∧ t.log = s.log ++ [⟨s.now, key, .answered i action answer⟩]

lemma yields_of_none (hi : s.clients[i]? = some (.asking key action))
    (hl : s.store.lookUp key action = none) :
    s.Yields i key action (missing action) s.store := by
  have hlt := (List.getElem?_eq_some_iff.mp hi).1
  unfold Yields
  rw [lookUp_of_none hi hl, act_of_idle (List.getElem?_set_self hlt)]
  exact ⟨rfl, rfl⟩

lemma yields_of_some (hi : s.clients[i]? = some (.asking key action)) {slot : Nat}
    {m : MemoryStore} (hl : s.store.lookUp key action = some (slot, m)) :
    s.Yields i key action (m.act s.now slot action).1
      ((m.act s.now slot action).2.giveBack slot) := by
  have hlt := (List.getElem?_eq_some_iff.mp hi).1
  have hset : (s.clients.set i (.holding key action slot))[i]? = some (.holding key action slot) :=
    List.getElem?_set_self hlt
  unfold Yields
  rw [lookUp_of_some hi hl, act_of_holding hset]
  exact ⟨rfl, rfl⟩

/-- A client that makes no entry acts on the one that is there as if it were not held. -/
lemma yields_of_takeUp? (ordered : s.store.Ordered)
    (hi : s.clients[i]? = some (.asking key action))
    (hl : s.store.lookUp key action = s.store.takeUp? key) :
    s.Yields i key action (s.store.perform s.now key action).1
      (s.store.perform s.now key action).2 := by
  unfold perform
  cases hx : s.store.slotOf? key with
  | none =>
    refine yields_of_none hi ?_
    rw [hl, takeUp?, hx]
    rfl
  | some x =>
    have hm := ((slotOf?_eq_some ordered).mp hx).1
    have hfound : s.store.lookUp key action = some (x.id, s.store.hold x.id) := by
      rw [hl, takeUp?, hx]
      rfl
    have hy := yields_of_some hi hfound
    rw [(act_hold ordered hm s.now action).1, (act_hold ordered hm s.now action).2] at hy
    exact hy

/-- If nothing comes between the three steps of an operation, they do what the whole operation
does. -/
theorem run_whole {ttl : Nat} (valid : s.Valid ttl) (hi : s.clients[i]? = some .idle)
    (key : IdempotencyKey) (operation : Operation) :
    let t := s.run [.call i key operation, .lookUp i, .act i]
    ∃ answer, t.log =
      s.log ++ [⟨s.now, key, .answered i (operation.action s.store.draw.1) answer⟩] ∧
      match operation with
      | .tryAcquire => ∃ won, answer = .acquired won ∧
        s.store.tryAcquire s.now key = (if won then some s.store.draw.1 else none, t.store)
      | .peek => ∃ value, answer = .found value ∧ t.store = s.store ∧
        s.store.peek key = value.bind fun
          | none => .ok none
          | some bytes => (Envelope.decode bytes).map some
      | .store lease e => ∃ result, answer = .stored result ∧
        s.store.store s.now key lease e = (result, t.store)
      | .release lease => s.store.release key lease = t.store := by
  have hask (t : StoreState) (hc : t.clients = s.clients) (action : Action) :
      (t.ask i key action).clients[i]? = some (.asking key action) :=
    List.getElem?_set_self (hc ▸ (List.getElem?_eq_some_iff.mp hi).1)
  -- all operations but `tryAcquire` only look the entry up, and act on it if it is there
  have yields (action : Action) (hl : s.store.lookUp key action = s.store.takeUp? key) :
      (s.ask i key action).Yields i key action (s.store.perform s.now key action).1
        (s.store.perform s.now key action).2 :=
    yields_of_takeUp? (s := s.ask i key action) valid.steady.ordered (hask s rfl action) hl
  simp only [run, List.foldl_cons, List.foldl_nil, step]
  cases operation with
  | tryAcquire =>
    have hcall : s.call i key .tryAcquire = s.draw.ask i key (.acquire s.store.draw.1) := by
      simp only [call, hi]
    obtain ⟨hs, hl⟩ := yields_of_some (hask s.draw rfl (.acquire s.store.draw.1)) rfl
    rw [hcall]
    refine ⟨_, hl, _, rfl, ?_⟩
    rw [hs]
    rfl
  | peek =>
    have hcall : s.call i key .peek = s.ask i key .peek := by simp only [call, hi]
    obtain ⟨hs, hl⟩ := yields .peek rfl
    obtain ⟨value, hp, hpeek⟩ := s.store.peek_eq s.now key
    rw [hp] at hs hl
    rw [hcall]
    exact ⟨_, hl, value, rfl, hs, hpeek⟩
  | store lease e =>
    have hcall : s.call i key (.store lease e) = s.ask i key (.store lease e.encode) := by
      simp only [call, hi]
    obtain ⟨hs, hl⟩ := yields (.store lease e.encode) rfl
    obtain ⟨result, store, hp, hstore⟩ := s.store.store_eq s.now key lease e
    rw [hp] at hs hl
    rw [hcall]
    exact ⟨_, hl, result, rfl, hs ▸ hstore⟩
  | release lease =>
    have hcall : s.call i key (.release lease) = s.ask i key (.release lease) := by
      simp only [call, hi]
    obtain ⟨hs, hl⟩ := yields (.release lease) rfl
    rw [hcall]
    exact ⟨_, hl, (s.store.release_eq s.now key lease).trans hs.symm⟩

end StoreState

end OnceProxy
