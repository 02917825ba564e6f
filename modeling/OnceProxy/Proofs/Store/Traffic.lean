import OnceProxy.Proofs.Store.Actions
import OnceProxy.Proofs.Store.History

/-!
# Traffic at a store

Clients come and use a store at the same time. An operation is called, then the entry of its
key is looked up, and then something is done to the entry; between these steps anything else can
happen. A timer is a task of its own, which goes off at some time after it is due, even if it is out
of date by then.
-/

namespace OnceProxy

/-- What clients call. -/
inductive Operation where
  | tryAcquire
  | peek
  | store (lease : Lease) (envelope : Envelope)
  | release (lease : Lease)
  deriving DecidableEq

/-- The action of an operation. To acquire a key takes a lease. -/
def Operation.action (lease : Lease) : Operation → Action
  | tryAcquire => .acquire lease
  | peek => .peek
  | store holder envelope => .store holder envelope.encode
  | release holder => .release holder

/-- How far a client is: it does nothing, it has called an operation on a key, or it has looked up
the slot of the key. -/
inductive Client where
  | idle
  | asking (key : IdempotencyKey) (action : Action)
  | holding (key : IdempotencyKey) (action : Action) (slot : Nat)

/-- The slot that a client has looked up. -/
def Client.slot? : Client → Option Nat
  | holding _ _ slot => some slot
  | _ => none

namespace Client

@[simp] lemma slot?_idle : idle.slot? = none := rfl

@[simp] lemma slot?_asking (key : IdempotencyKey) (action : Action) :
    (asking key action).slot? = none := rfl

@[simp] lemma slot?_holding (key : IdempotencyKey) (action : Action) (slot : Nat) :
    (holding key action slot).slot? = some slot := rfl

/-- One client that changes changes what is counted. -/
lemma countP_set {clients : List Client} {i : Nat} {c : Client}
    (hi : clients[i]? = some c) (c' : Client) (p : Client → Bool) :
    (clients.set i c').countP p + (if p c then 1 else 0) =
      clients.countP p + if p c' then 1 else 0 := by
  obtain ⟨hlt, rfl⟩ := List.getElem?_eq_some_iff.mp hi
  have hle : (if p clients[i] then 1 else 0) ≤ clients.countP p := by
    split
    · exact List.countP_pos_iff.mpr ⟨_, List.getElem_mem hlt, by assumption⟩
    · exact Nat.zero_le _
  rw [List.countP_set hlt]
  omega

end Client

/-- A store at the time `now`, with the timers that have been set and have not gone off, the
clients, the number of leases that have been drawn, and what has happened so far. -/
structure StoreState where
  now : Nat
  store : MemoryStore
  tasks : List SlotTimer
  clients : List Client
  draws : Nat
  log : List Event

/-- What can happen next. -/
inductive StoreMove where
  | join
  | call (client : Nat) (key : IdempotencyKey) (operation : Operation)
  | lookUp (client : Nat)
  | act (client : Nat)
  | quit (client : Nat)
  | fire (task : SlotTimer)
  | sweep
  | wait (ms : Nat)

namespace StoreState

/-- A store without entries and clients. -/
def start (ttl : Nat) : StoreState :=
  ⟨0, .new ttl, [], [], 0, []⟩

/-- A client that did nothing asks for something to be done to the entry of a key. -/
def ask (s : StoreState) (i : Nat) (key : IdempotencyKey) (action : Action) : StoreState :=
  { s with clients := s.clients.set i (.asking key action) }

/-- Draws a lease. -/
def draw (s : StoreState) : StoreState :=
  { s with store := s.store.draw.2, draws := s.draws + 1 }

/-- A client calls an operation. To acquire a key it draws a lease first. -/
def call (s : StoreState) (i : Nat) (key : IdempotencyKey) (operation : Operation) : StoreState :=
  match s.clients[i]?, operation with
  | some .idle, .tryAcquire => s.draw.ask i key (.acquire s.store.draw.1)
  | some .idle, .peek => s.ask i key .peek
  | some .idle, .store lease envelope => s.ask i key (.store lease envelope.encode)
  | some .idle, .release lease => s.ask i key (.release lease)
  | _, _ => s

/-- A client looks up the entry of the key that it has asked for. -/
def lookUp (s : StoreState) (i : Nat) : StoreState :=
  match s.clients[i]? with
  | some (.asking key action) =>
    match s.store.lookUp key action with
    | some (slot, store) =>
      { s with store, clients := s.clients.set i (.holding key action slot) }
    | none =>
      { s with
        clients := s.clients.set i .idle
        log := s.log ++ [⟨s.now, key, .answered i action (MemoryStore.missing action)⟩] }
  | _ => s

/-- A client does something to the entry that it has looked up. -/
def act (s : StoreState) (i : Nat) : StoreState :=
  match s.clients[i]? with
  | some (.holding key action slot) =>
    let done := s.store.act s.now slot action
    { s with
      store := done.2.giveBack slot
      tasks := s.tasks ++ done.2.timersSince s.store
      clients := s.clients.set i .idle
      log := s.log ++ [⟨s.now, key, .answered i action done.1⟩] }
  | _ => s

/-- A client gives up what it has called. -/
def quit (s : StoreState) (i : Nat) : StoreState :=
  match s.clients[i]? with
  | some (.holding _ _ slot) =>
    { s with store := s.store.giveBack slot, clients := s.clients.set i .idle }
  | some (.asking _ _) => { s with clients := s.clients.set i .idle }
  | _ => s

/-- A timer goes off, if it is due. -/
def fire (s : StoreState) (t : SlotTimer) : StoreState :=
  if t ∈ s.tasks ∧ t.timer.due ≤ s.now then
    { s with
      store := s.store.expire t.slot t.timer.generation
      tasks := s.tasks.erase t
      log := s.log ++ (s.store.frees? t).toList.map fun (key, lease) =>
        ⟨s.now, key, .expired lease⟩ }
  else s

/-- Makes a move. Those that are not possible change nothing. -/
def step (s : StoreState) : StoreMove → StoreState
  | .join => { s with clients := s.clients ++ [.idle] }
  | .call i key operation => s.call i key operation
  | .lookUp i => s.lookUp i
  | .act i => s.act i
  | .quit i => s.quit i
  | .fire t => s.fire t
  | .sweep => { s with store := s.store.evictIdle.2 }
  | .wait ms => { s with now := s.now + ms }

/-- Makes moves one after the other. -/
def run (s : StoreState) (moves : List StoreMove) : StoreState :=
  moves.foldl step s

end StoreState

/-! ### What a client hears -/

/-- Whether an answer is one to an action. -/
def Answer.Suits : Answer → Action → Prop
  | acquired _, .acquire _ => True
  | found _, .peek => True
  | stored _, .store _ _ => True
  | released _, .release _ => True
  | _, _ => False

lemma MemoryStore.suits_missing (action : Action) : (missing action).Suits action := by
  cases action <;> trivial

lemma MemoryStore.suits_act (m : MemoryStore) (now id : Nat) (action : Action) :
    (m.act now id action).1.Suits action := by
  cases action <;> trivial

namespace StoreState

/-- What comes of a step that a client makes after its call: nothing, or it has found a slot, or it
has an answer. -/
inductive Heard (s : StoreState) (i : Nat) (t : StoreState) : Prop where
  | nothing (hn : t.now = s.now) (hc : t.clients = s.clients) (hl : t.log = s.log)
  | found (key : IdempotencyKey) (action : Action) (slot : Nat)
    (hi : s.clients[i]? = some (.asking key action)) (hn : t.now = s.now)
    (hc : t.clients = s.clients.set i (.holding key action slot)) (hl : t.log = s.log)
  | answered (c : Client) (key : IdempotencyKey) (action : Action) (answer : Answer)
    (hi : s.clients[i]? = some c)
    (hw : c = .asking key action ∨ ∃ slot, c = .holding key action slot)
    (suits : answer.Suits action) (hn : t.now = s.now) (hc : t.clients = s.clients.set i .idle)
    (hl : t.log = s.log ++ [⟨s.now, key, .answered i action answer⟩])

lemma heard_lookUp (s : StoreState) (i : Nat) : s.Heard i (s.lookUp i) := by
  unfold lookUp
  split
  · rename_i key action hi
    split
    · rename_i slot m hl
      exact .found key action slot hi rfl rfl rfl
    · exact .answered _ key action _ hi (.inl rfl) (MemoryStore.suits_missing action) rfl rfl rfl
  · exact .nothing rfl rfl rfl

lemma heard_act (s : StoreState) (i : Nat) : s.Heard i (s.act i) := by
  unfold act
  split
  · rename_i key action slot hi
    exact .answered _ key action _ hi (.inr ⟨slot, rfl⟩) (MemoryStore.suits_act _ _ _ action) rfl
      rfl rfl
  · exact .nothing rfl rfl rfl

lemma log_call (s : StoreState) (i : Nat) (key : IdempotencyKey) (operation : Operation) :
    (s.call i key operation).log = s.log := by
  unfold call
  split <;> rfl

lemma clients_call (s : StoreState) (i : Nat) (key : IdempotencyKey) (operation : Operation) :
    (s.call i key operation).clients = s.clients ∨ ∃ lease, (s.call i key operation).clients =
      s.clients.set i (.asking key (operation.action lease)) := by
  unfold call
  split
  · exact .inr ⟨s.store.draw.1, rfl⟩
  · exact .inr ⟨s.store.draw.1, rfl⟩
  · exact .inr ⟨s.store.draw.1, rfl⟩
  · exact .inr ⟨s.store.draw.1, rfl⟩
  · exact .inl rfl

lemma clients_quit (s : StoreState) (i : Nat) : (s.quit i).clients = s.clients.set i .idle := by
  unfold quit
  split
  · rfl
  · rfl
  · rename_i holds asks
    -- the client is idle already, so that making it idle changes nothing
    apply List.ext_getElem?
    intro j
    rw [List.getElem?_set]
    split
    · rename_i hij
      subst hij
      cases hi : s.clients[i]? with
      | none => simp [List.getElem?_eq_none_iff.mp hi]
      | some c =>
        cases c with
        | idle => simp [(List.getElem?_eq_some_iff.mp hi).1]
        | asking key action => exact absurd hi (asks key action)
        | holding key action slot => exact absurd hi (holds key action slot)
    · rfl

lemma clients_fire (s : StoreState) (t : SlotTimer) : (s.fire t).clients = s.clients := by
  unfold fire
  split <;> rfl

lemma log_quit (s : StoreState) (i : Nat) : (s.quit i).log = s.log := by
  unfold quit
  split <;> rfl

lemma log_fire (s : StoreState) (t : SlotTimer) :
    ∃ events, (s.fire t).log = s.log ++ events ∧
      ∀ e ∈ events, ∃ lease, e.what = .expired lease := by
  unfold fire
  split
  · refine ⟨_, rfl, ?_⟩
    intro e he
    obtain ⟨⟨key, lease⟩, -, rfl⟩ := List.mem_map.mp he
    exact ⟨lease, rfl⟩
  · exact ⟨[], (List.append_nil _).symm, fun e he => absurd he List.not_mem_nil⟩

end StoreState

/-! ### What holds the entries together -/

/-- What ties the slots of a store to the clients at work on them and to the timers: a slot that is
looked up stays, and no timer can reset an entry that has moved on since it was set. -/
structure Steady (ttl : Nat) (m : MemoryStore) (clients : List Client) (tasks : List SlotTimer) :
    Prop where
  ttl : m.ttl = ttl
  ordered : m.Ordered
  sound : m.Sound
  handles : ∀ s ∈ m.slots, s.handles = clients.countP (·.slot? = some s.id)
  placed : ∀ key action slot, Client.holding key action slot ∈ clients →
    ∃ s ∈ m.slots, s.key = key ∧ s.id = slot
  below : ∀ t ∈ tasks, t.slot < m.nextSlot
  current : ∀ t ∈ tasks, ∀ s ∈ m.slots, s.id = t.slot → t.timer.generation ≤ s.entry.generation ∧
    (t.timer.generation = s.entry.generation → s.entry.timer = some t.timer)

namespace Steady

variable {ttl : Nat} {m : MemoryStore} {clients : List Client} {tasks : List SlotTimer}

lemma start (ttl : Nat) : Steady ttl (.new ttl) [] [] where
  ttl := rfl
  ordered := MemoryStore.ordered_new ttl
  sound _ h := absurd h List.not_mem_nil
  handles _ h := absurd h List.not_mem_nil
  placed _ _ _ h := absurd h List.not_mem_nil
  below _ h := absurd h List.not_mem_nil
  current _ h := absurd h List.not_mem_nil

/-! ### Clients that change -/

lemma join (h : Steady ttl m clients tasks) : Steady ttl m (clients ++ [.idle]) tasks where
  ttl := h.ttl
  ordered := h.ordered
  sound := h.sound
  handles s hs := by
    rw [List.countP_append, h.handles s hs]
    rfl
  placed key action slot hm := by
    rcases List.mem_append.mp hm with hm | hm
    · exact h.placed key action slot hm
    · cases List.mem_singleton.mp hm
  below := h.below
  current := h.current

/-- A client that looks up nothing and gives nothing back. -/
lemma set_idle (h : Steady ttl m clients tasks) {i : Nat} {c c' : Client}
    (hi : clients[i]? = some c) (hc : c.slot? = none) (hc' : c'.slot? = none) :
    Steady ttl m (clients.set i c') tasks where
  ttl := h.ttl
  ordered := h.ordered
  sound := h.sound
  handles s hs := by
    have hn := Client.countP_set hi c' (·.slot? = some s.id)
    simp only [hc, hc', reduceCtorEq, decide_false] at hn
    exact (h.handles s hs).trans hn.symm
  placed key action slot hm := by
    rcases List.mem_or_eq_of_mem_set hm with hm | rfl
    · exact h.placed key action slot hm
    · cases hc'
  below := h.below
  current := h.current

/-- What has to be known of a change of slots. -/
lemma update {clients' : List Client} {tasks' : List SlotTimer} (h : Steady ttl m clients tasks)
    {change : Slot → Slot} (keeps : Slot.Keeps change)
    (sound : ∀ s ∈ m.slots, (change s).entry.Sound)
    (handles : ∀ s ∈ m.slots, (change s).handles = clients'.countP (·.slot? = some s.id))
    (placed : ∀ key action slot, Client.holding key action slot ∈ clients' →
      ∃ s ∈ m.slots, s.key = key ∧ s.id = slot)
    (below : ∀ t ∈ tasks', t.slot < m.nextSlot)
    (current : ∀ t ∈ tasks', ∀ s ∈ m.slots, s.id = t.slot →
      t.timer.generation ≤ (change s).entry.generation ∧
      (t.timer.generation = (change s).entry.generation →
        (change s).entry.timer = some t.timer)) :
    Steady ttl (m.update change) clients' tasks' where
  ttl := h.ttl
  ordered := MemoryStore.ordered_update h.ordered keeps
  sound := by
    intro t ht
    obtain ⟨s, hs, rfl⟩ := List.mem_map.mp ht
    exact sound s hs
  handles := by
    intro t ht
    obtain ⟨s, hs, rfl⟩ := List.mem_map.mp ht
    rw [(keeps s).2]
    exact handles s hs
  placed := by
    intro key action slot hc
    obtain ⟨s, hs, hk, hi⟩ := placed key action slot hc
    exact ⟨change s, List.mem_map_of_mem hs, (keeps s).1.trans hk, (keeps s).2.trans hi⟩
  below := below
  current := by
    intro t ht s' hs' hi
    obtain ⟨s, hs, rfl⟩ := List.mem_map.mp hs'
    rw [(keeps s).2] at hi
    exact current t ht s hs hi

lemma hold (h : Steady ttl m clients tasks) {i : Nat} {c : Client} (hi : clients[i]? = some c)
    (hc : c.slot? = none) {s : Slot} (hs : s ∈ m.slots) (action : Action) :
    Steady ttl (m.hold s.id) (clients.set i (.holding s.key action s.id)) tasks := by
  rw [MemoryStore.hold_eq h.ordered]
  -- a handle is added: the entries, and so the cycles and the timers, stay as they are
  refine h.update (MemoryStore.keeps_only (Slot.keeps_withHandles _) _) ?_ ?_ ?_ h.below ?_
  · intro t ht
    rw [MemoryStore.entry_only_withHandles]
    exact h.sound t ht
  · intro t ht
    have hn := Client.countP_set hi (.holding s.key action s.id) (·.slot? = some t.id)
    -- the client is counted with this slot now, and was counted with none
    by_cases e : t.id = s.id
    · rw [MemoryStore.only_of_eq e, Slot.withHandles, h.handles t ht]
      simp only [hc, Client.slot?_holding, e, reduceCtorEq, decide_false, decide_true] at hn
      rw [e]
      exact hn.symm
    · rw [MemoryStore.only_of_ne e, h.handles t ht]
      simpa [hc, Ne.symm e] using hn.symm
  · intro key a slot hm
    rcases List.mem_or_eq_of_mem_set hm with hm | hm
    · exact h.placed key a slot hm
    · cases hm
      exact ⟨s, hs, rfl, rfl⟩
  · intro t ht x hx
    rw [MemoryStore.entry_only_withHandles]
    exact h.current t ht x hx

lemma giveBack (h : Steady ttl m clients tasks) {i : Nat} {key : IdempotencyKey} {action : Action}
    {slot : Nat} (hi : clients[i]? = some (.holding key action slot)) :
    Steady ttl (m.giveBack slot) (clients.set i .idle) tasks := by
  rw [MemoryStore.giveBack_eq h.ordered]
  -- a handle is given back: the entries stay as they are
  refine h.update (MemoryStore.keeps_only (Slot.keeps_withHandles _) _) ?_ ?_ ?_ h.below ?_
  · intro t ht
    rw [MemoryStore.entry_only_withHandles]
    exact h.sound t ht
  · intro t ht
    have hn := Client.countP_set hi .idle (·.slot? = some t.id)
    -- the client was counted with this slot, and is counted with none now
    by_cases e : t.id = slot
    · rw [MemoryStore.only_of_eq e, Slot.withHandles, h.handles t ht]
      simp only [Client.slot?_holding, Client.slot?_idle, e, reduceCtorEq, decide_false,
        decide_true] at hn
      rw [e, ← Nat.add_zero (List.countP _ (clients.set i .idle))]
      exact Nat.sub_eq_of_eq_add hn.symm
    · rw [MemoryStore.only_of_ne e, h.handles t ht]
      simpa [Ne.symm e] using hn.symm
  · intro k a x hm
    rcases List.mem_or_eq_of_mem_set hm with hm | hm
    · exact h.placed k a x hm
    · cases hm
  · intro t ht x hx
    rw [MemoryStore.entry_only_withHandles]
    exact h.current t ht x hx

/-! ### Entries that change -/

/-- Timers that are forgotten do not matter. -/
lemma tasks_subset (h : Steady ttl m clients tasks) {tasks' : List SlotTimer}
    (ht : ∀ t ∈ tasks', t ∈ tasks) : Steady ttl m clients tasks' :=
  { h with
    below := fun t hm => h.below t (ht t hm)
    current := fun t hm => h.current t (ht t hm) }

/-- An entry that changes gets a later generation, so that timers which were set before do nothing
to it. -/
lemma setEntry {tasks' : List SlotTimer} (h : Steady ttl m clients tasks) {s : Slot}
    (hs : s ∈ m.slots) {e : Entry} (sound : e.Sound)
    (later : e = s.entry ∨ s.entry.generation < e.generation)
    (ht : ∀ t ∈ tasks', t ∈ tasks ∨ t.slot = s.id ∧ e.timer = some t.timer) :
    Steady ttl (m.setEntry s.id e) clients tasks' := by
  rw [MemoryStore.setEntry_eq h.ordered]
  have key (x : Slot) (hx : x ∈ m.slots) (hi : x.id = s.id) :
      (MemoryStore.only s.id (Slot.withEntry e) x).entry = e := by
    rw [MemoryStore.only_of_eq hi, Slot.withEntry]
  have other (x : Slot) (hi : x.id ≠ s.id) :
      (MemoryStore.only s.id (Slot.withEntry e) x).entry = x.entry := by
    rw [MemoryStore.only_of_ne hi]
  refine h.update (MemoryStore.keeps_only (Slot.keeps_withEntry e) s.id) ?_ ?_ h.placed ?_ ?_
  · intro x hx
    by_cases hi : x.id = s.id
    · rw [key x hx hi]
      exact sound
    · rw [other x hi]
      exact h.sound x hx
  · intro x hx
    rw [MemoryStore.handles_only_withEntry]
    exact h.handles x hx
  · intro t hm
    rcases ht t hm with hm | ⟨hi, -⟩
    · exact h.below t hm
    · exact hi ▸ h.ordered.below s hs
  · intro t hm x hx hxt
    by_cases hi : x.id = s.id
    · rw [key x hx hi]
      rcases ht t hm with hm | ⟨-, he⟩
      · -- a timer that was set before is current only if nothing has changed
        have hc := h.current t hm s hs (hi ▸ hxt)
        rcases later with rfl | hlt
        · exact hc
        · exact ⟨by omega, by omega⟩
      · -- a new timer is that of the new entry
        exact ⟨Nat.le_of_eq (sound.generation_timer he), fun _ => he⟩
    · rw [other x hi]
      rcases ht t hm with hm | ⟨hts, -⟩
      · exact h.current t hm x hx hxt
      · exact absurd (hxt.trans hts) hi

/-- Dropping idle entries drops nothing that somebody is at work on. -/
lemma evictIdle (h : Steady ttl m clients tasks) : Steady ttl m.evictIdle.2 clients tasks where
  ttl := h.ttl
  ordered := MemoryStore.ordered_evictIdle h.ordered
  sound s hs := h.sound s (MemoryStore.mem_evictIdle.mp hs).1
  handles s hs := h.handles s (MemoryStore.mem_evictIdle.mp hs).1
  placed key action slot hc := by
    obtain ⟨s, hs, hk, hi⟩ := h.placed key action slot hc
    have hp : 0 < clients.countP (·.slot? = some s.id) :=
      List.countP_pos_iff.mpr ⟨_, hc, by simp [hi]⟩
    rw [← h.handles s hs] at hp
    exact ⟨s, MemoryStore.mem_evictIdle.mpr ⟨hs, by simp [Slot.isIdle, Nat.ne_of_gt hp]⟩, hk, hi⟩
  below := h.below
  current t ht s hs := h.current t ht s (MemoryStore.mem_evictIdle.mp hs).1

lemma makeRoom (h : Steady ttl m clients tasks) : Steady ttl m.makeRoom clients tasks := by
  rcases m.makeRoom_cases with e | e
  · rwa [e]
  · rw [e]
    exact h.evictIdle

/-- A new slot has a number that nobody knows yet. -/
lemma add (h : Steady ttl m clients tasks) {key : IdempotencyKey}
    (hn : ∀ s ∈ m.slots, s.key ≠ key) : Steady ttl (m.add key) clients tasks where
  ttl := h.ttl
  ordered := MemoryStore.ordered_add h.ordered hn
  sound s hs := by
    rcases MemoryStore.mem_add.mp hs with hs | rfl
    · exact h.sound s hs
    · exact Entry.sound_new
  handles s hs := by
    rcases MemoryStore.mem_add.mp hs with hs | rfl
    · exact h.handles s hs
    · symm
      apply List.countP_eq_zero.mpr
      intro c hc
      cases c with
      | idle => simp
      | asking => simp
      | holding k a slot =>
        obtain ⟨s, hs, -, rfl⟩ := h.placed k a slot hc
        simpa [MemoryStore.newSlot] using Nat.ne_of_lt (h.ordered.below s hs)
  placed k a slot hc := by
    obtain ⟨s, hs, hk, hi⟩ := h.placed k a slot hc
    exact ⟨s, MemoryStore.mem_add.mpr (.inl hs), hk, hi⟩
  below t ht := Nat.lt_succ_of_lt (h.below t ht)
  current t ht s hs hi := by
    rcases MemoryStore.mem_add.mp hs with hs | rfl
    · exact h.current t ht s hs hi
    · exact absurd hi (Nat.ne_of_gt (h.below t ht))

/-! ### The steps of an operation -/

lemma draw (h : Steady ttl m clients tasks) : Steady ttl m.draw.2 clients tasks :=
  ⟨h.ttl, ⟨h.ordered.keys, h.ordered.ids, h.ordered.below⟩, h.sound, h.handles, h.placed, h.below,
    h.current⟩

/-- What a client that wants to look up the slot of a key finds. -/
lemma lookUp (h : Steady ttl m clients tasks) {i : Nat} {c : Client} (hi : clients[i]? = some c)
    (hc : c.slot? = none) {key : IdempotencyKey} {action : Action} {slot : Nat} {m' : MemoryStore}
    (hl : m.lookUp key action = some (slot, m')) :
    Steady ttl m' (clients.set i (.holding key action slot)) tasks ∧
      ∀ k, m'.cycle k = m.cycle k := by
  -- a slot that is there is held, which changes no cycle
  have found {s : Slot} (hs : m.slotOf? key = some s) :
      Steady ttl (m.hold s.id) (clients.set i (.holding key action s.id)) tasks ∧
        ∀ k, (m.hold s.id).cycle k = m.cycle k := by
    obtain ⟨hm, rfl⟩ := (MemoryStore.slotOf?_eq_some h.ordered).mp hs
    exact ⟨h.hold hi hc hm action, MemoryStore.cycle_hold h.ordered s.id⟩
  cases action with
  | acquire lease =>
    simp only [MemoryStore.lookUp, Option.some.injEq] at hl
    unfold MemoryStore.takeUp at hl
    split at hl
    · rename_i s hs
      cases hl
      exact found hs
    · rename_i hs
      cases hl
      -- there is no slot for the key, and dropping slots makes none
      have hn : ∀ s ∈ m.makeRoom.slots, s.key ≠ key := by
        intro s hs'
        exact MemoryStore.slotOf?_eq_none.mp hs s (MemoryStore.mem_of_mem_makeRoom hs')
      have ha := h.makeRoom.add hn
      have hm : m.makeRoom.newSlot key ∈ (m.makeRoom.add key).slots :=
        MemoryStore.mem_add.mpr (.inr rfl)
      rw [MemoryStore.create_eq, ← m.nextSlot_makeRoom]
      refine ⟨ha.hold hi hc hm (.acquire lease), ?_⟩
      intro k
      rw [MemoryStore.cycle_hold ha.ordered, MemoryStore.cycle_add h.makeRoom.ordered hn,
        MemoryStore.cycle_makeRoom h.ordered h.sound]
  | peek =>
    obtain ⟨s, hs, he⟩ := Option.map_eq_some_iff.mp hl
    cases he
    exact found hs
  | store =>
    obtain ⟨s, hs, he⟩ := Option.map_eq_some_iff.mp hl
    cases he
    exact found hs
  | release =>
    obtain ⟨s, hs, he⟩ := Option.map_eq_some_iff.mp hl
    cases he
    exact found hs

/-- What becomes of the store when a client acts on the slot that it has looked up. -/
lemma act (h : Steady ttl m clients tasks) {i : Nat} {key : IdempotencyKey} {action : Action}
    {slot : Nat} (hi : clients[i]? = some (.holding key action slot)) (now : Nat) :
    Steady ttl ((m.act now slot action).2.giveBack slot) (clients.set i .idle)
        (tasks ++ (m.act now slot action).2.timersSince m) ∧
      (m.act now slot action).1 = (m.cycle key).answer action ∧
      ∀ k, ((m.act now slot action).2.giveBack slot).cycle k =
        if key = k then (m.cycle key).after (now + ttl) action else m.cycle k := by
  obtain ⟨s, hs, rfl, rfl⟩ := h.placed key action slot (List.mem_of_getElem? hi)
  have he := MemoryStore.act_eq h.ordered hs now action
  have hsound := h.sound s hs
  -- first the entry changes, while the slot is still held
  have ha : Steady ttl (m.act now s.id action).2 clients
      (tasks ++ (m.act now s.id action).2.timersSince m) := by
    rw [he]
    apply h.setEntry hs (hsound.act _ action) (hsound.act_eq_or_lt _ action)
    intro t ht
    rcases List.mem_append.mp ht with ht | ht
    · exact .inl ht
    · exact .inr (MemoryStore.mem_timersSince h.ordered ht)
  refine ⟨ha.giveBack hi, MemoryStore.answer_act h.ordered h.sound hs now action, ?_⟩
  intro k
  rw [MemoryStore.cycle_giveBack ha.ordered, MemoryStore.cycle_act h.ordered h.sound hs, h.ttl]

/-- What becomes of the store when a timer goes off: the key that it frees was due. -/
lemma expire (h : Steady ttl m clients tasks) {t : SlotTimer} (ht : t ∈ tasks) :
    Steady ttl (m.expire t.slot t.timer.generation) clients (tasks.erase t) ∧
      match m.frees? t with
      | none => ∀ k, (m.expire t.slot t.timer.generation).cycle k = m.cycle k
      | some (key, lease) =>
        (m.cycle key).lease? = some lease ∧ (m.cycle key).due? = some t.timer.due ∧
          ∀ k, (m.expire t.slot t.timer.generation).cycle k =
            if key = k then .free else m.cycle k := by
  -- the slot may be gone; otherwise the timer counts just if its entry has not changed since
  cases hf : m.slot? t.slot with
  | none =>
    have he : m.expire t.slot t.timer.generation = m := by simp only [MemoryStore.expire, hf]
    have hn : m.frees? t = none := by simp only [MemoryStore.frees?, hf, Option.bind_none]
    rw [he, hn]
    exact ⟨h.tasks_subset fun _ => List.mem_of_mem_erase, fun _ => rfl⟩
  | some s =>
    obtain ⟨hs, hi⟩ := (MemoryStore.slot?_eq_some h.ordered).mp hf
    have he : m.expire t.slot t.timer.generation =
        m.setEntry s.id (s.entry.expire t.timer.generation) := by
      simp only [MemoryStore.expire, hf, hi]
    rw [he]
    refine ⟨h.setEntry hs ((h.sound s hs).expire _) (s.entry.expire_eq_or_lt _)
      fun t ht => .inl (List.mem_of_mem_erase ht), ?_⟩
    by_cases hg : s.entry.generation = t.timer.generation
    · -- the timer is the one that is set, so a lease is held
      have htimer := (h.current t ht s hs hi).2 hg.symm
      obtain ⟨lease, hlease⟩ := (h.sound s hs).lease_of_timer htimer
      have hfree : m.frees? t = some (s.key, lease) := by
        simp only [MemoryStore.frees?, hf, Option.bind_some, if_pos hg, hlease, Option.map_some]
      rw [hfree]
      refine ⟨?_, ?_, fun k => ?_⟩
      · rw [MemoryStore.cycle_of_mem h.ordered hs, (h.sound s hs).lease?_cycle, hlease]
      · rw [MemoryStore.cycle_of_mem h.ordered hs, (h.sound s hs).due?_cycle, htimer]
        rfl
      · rw [MemoryStore.cycle_setEntry h.ordered hs, Entry.expire, if_pos hg, Entry.cycle_reset]
    · have hfree : m.frees? t = none := by
        simp only [MemoryStore.frees?, hf, Option.bind_some, if_neg hg]
      rw [hfree]
      intro k
      rw [Entry.expire, if_neg hg, MemoryStore.setEntry_self h.ordered hs]

end Steady

/-! ### Every run is legal -/

namespace StoreState

/-- What holds in every state: what has happened is legal, and tells the cycles of all keys. -/
structure Valid (ttl : Nat) (s : StoreState) : Prop where
  steady : Steady ttl s.store s.clients s.tasks
  cycles : ∀ key, s.store.cycle key = cycleOf ttl key s.log
  legal : Legal ttl s.log
  past : ∀ e ∈ s.log, e.time ≤ s.now

namespace Valid

variable {ttl : Nat} {s : StoreState}

lemma start (ttl : Nat) : (start ttl).Valid ttl where
  steady := .start ttl
  cycles _ := rfl
  legal := .nil
  past _ h := absurd h List.not_mem_nil

/-- Something happens now, and moves the cycles accordingly. -/
lemma snoc (h : s.Valid ttl) {m : MemoryStore} {clients : List Client} {tasks : List SlotTimer}
    (steady : Steady ttl m clients tasks) {key : IdempotencyKey} {what : Happened}
    (fits : Event.Fits (s.store.cycle key) ⟨s.now, key, what⟩)
    (cycles : ∀ k, m.cycle k = Event.move ttl k (s.store.cycle k) ⟨s.now, key, what⟩) :
    Valid ttl { s with store := m, clients, tasks, log := s.log ++ [⟨s.now, key, what⟩] } where
  steady := steady
  cycles k := by
    rw [cycleOf_snoc, ← h.cycles]
    exact cycles k
  legal := h.legal.snoc h.past (h.cycles key ▸ fits)
  past e he := by
    rcases List.mem_append.mp he with he | he
    · exact h.past e he
    · exact Nat.le_of_eq (congrArg Event.time (List.mem_singleton.mp he))

lemma draw (h : s.Valid ttl) : s.draw.Valid ttl :=
  ⟨h.steady.draw, h.cycles, h.legal, h.past⟩

lemma ask (h : s.Valid ttl) {i : Nat} (hi : s.clients[i]? = some .idle) (key : IdempotencyKey)
    (action : Action) : (s.ask i key action).Valid ttl :=
  ⟨h.steady.set_idle hi rfl rfl, h.cycles, h.legal, h.past⟩

lemma call (h : s.Valid ttl) (i : Nat) (key : IdempotencyKey) (operation : Operation) :
    (s.call i key operation).Valid ttl := by
  unfold StoreState.call
  split
  · rename_i hi
    exact h.draw.ask hi key _
  · rename_i hi
    exact h.ask hi key _
  · rename_i hi
    exact h.ask hi key _
  · rename_i hi
    exact h.ask hi key _
  · exact h

lemma lookUp (h : s.Valid ttl) (i : Nat) : (s.lookUp i).Valid ttl := by
  unfold StoreState.lookUp
  split
  · rename_i key action hi
    split
    · rename_i slot m hl
      obtain ⟨steady, cycles⟩ := h.steady.lookUp hi rfl hl
      exact ⟨steady, fun k => (cycles k).trans (h.cycles k), h.legal, h.past⟩
    · rename_i hl
      obtain ⟨hfree, hanswer, hafter⟩ := MemoryStore.answer_missing hl
      refine h.snoc (h.steady.set_idle hi rfl rfl) hanswer fun k => ?_
      rw [Event.move_answered]
      split
      · rename_i hk
        rw [← hk, hafter]
      · rfl
  · exact h

lemma act (h : s.Valid ttl) (i : Nat) : (s.act i).Valid ttl := by
  unfold StoreState.act
  split
  · rename_i key action slot hi
    obtain ⟨steady, hanswer, hcycle⟩ := h.steady.act hi s.now
    refine h.snoc steady hanswer fun k => ?_
    rw [hcycle k, Event.move_answered]
    split
    · rename_i hk
      rw [hk]
    · rfl
  · exact h

lemma quit (h : s.Valid ttl) (i : Nat) : (s.quit i).Valid ttl := by
  unfold StoreState.quit
  split
  · rename_i hi
    refine ⟨h.steady.giveBack hi, fun k => ?_, h.legal, h.past⟩
    rw [MemoryStore.cycle_giveBack h.steady.ordered]
    exact h.cycles k
  · rename_i hi
    exact ⟨h.steady.set_idle hi rfl rfl, h.cycles, h.legal, h.past⟩
  · exact h

lemma fire (h : s.Valid ttl) (t : SlotTimer) : (s.fire t).Valid ttl := by
  unfold StoreState.fire
  split
  · rename_i ht
    obtain ⟨steady, hf⟩ := h.steady.expire ht.1
    cases hk : s.store.frees? t with
    | none =>
      rw [hk] at hf
      simp only [Option.toList_none, List.map_nil, List.append_nil]
      exact ⟨steady, fun k => (hf k).trans (h.cycles k), h.legal, h.past⟩
    | some freed =>
      obtain ⟨key, lease⟩ := freed
      rw [hk] at hf
      obtain ⟨hlease, hdue, hcycle⟩ := hf
      refine h.snoc steady ⟨hlease, t.timer.due, ht.2, hdue⟩ fun k => ?_
      exact hcycle k
  · exact h

lemma step (h : s.Valid ttl) (move : StoreMove) : (s.step move).Valid ttl := by
  cases move with
  | join => exact ⟨h.steady.join, h.cycles, h.legal, h.past⟩
  | call i key operation => exact h.call i key operation
  | lookUp i => exact h.lookUp i
  | act i => exact h.act i
  | quit i => exact h.quit i
  | fire t => exact h.fire t
  | sweep =>
    refine ⟨h.steady.evictIdle, fun k => ?_, h.legal, h.past⟩
    exact (MemoryStore.cycle_evictIdle h.steady.ordered h.steady.sound k).trans (h.cycles k)
  | wait ms => exact ⟨h.steady, h.cycles, h.legal, fun e he => Nat.le_add_right_of_le (h.past e he)⟩

lemma run (h : s.Valid ttl) (moves : List StoreMove) : (s.run moves).Valid ttl := by
  induction moves generalizing s with
  | nil => exact h
  | cons move moves ih => exact ih (h.step move)

end Valid

end StoreState

end OnceProxy
