import OnceProxy.Envelope.Codec
import OnceProxy.Store.Entry
import OnceProxy.Store.Key

/-!
# Entries in memory

The entries of all keys. They are made when they are asked for, and dropped when they are empty and
nobody is at work on them. Whoever takes up an entry and acts on it does so in two steps.
-/

namespace OnceProxy

/-- The place of a key in a store. Its number is never given to another place, and `handles` counts
those who are at work on it outside the store. -/
structure Slot where
  key : IdempotencyKey
  id : Nat
  entry : Entry
  handles : Nat
  deriving DecidableEq, Repr

/-- An entry that nobody uses. -/
def Slot.isIdle (s : Slot) : Bool :=
  s.handles = 0 && s.entry.phase = .empty

/-- A timer of a slot. -/
structure SlotTimer where
  slot : Nat
  timer : Timer
  deriving DecidableEq, Repr

/-- The entries of all keys. `created` counts those that were made since idle ones were last
dropped. -/
structure MemoryStore where
  ttl : Nat
  nextLease : UInt64
  nextSlot : Nat
  created : Nat
  slots : List Slot
  deriving DecidableEq, Repr

namespace MemoryStore

/-- A store without entries. -/
def new (ttl : Nat) : MemoryStore := ⟨ttl, 1, 0, 0, []⟩

/-- Up to this size idle entries are left alone. -/
def roomyUpTo : Nat := 1024

/-- So many entries are made before idle ones are dropped again. -/
def cleanupInterval : Nat := 256

/-! ### Slots -/

/-- The slot of a key. -/
def slotOf? (m : MemoryStore) (key : IdempotencyKey) : Option Slot :=
  m.slots.find? (·.key = key)

/-- The slot with a number. -/
def slot? (m : MemoryStore) (id : Nat) : Option Slot :=
  m.slots.find? (·.id = id)

/-- Changes the slot with a number. -/
def alter (id : Nat) (change : Slot → Slot) : List Slot → List Slot
  | [] => []
  | s :: ss => if s.id = id then change s :: ss else s :: alter id change ss

/-- Puts an entry into the slot with a number. -/
def setEntry (m : MemoryStore) (id : Nat) (e : Entry) : MemoryStore :=
  { m with slots := alter id (fun s => { s with entry := e }) m.slots }

/-- How many entries there are. -/
def size (m : MemoryStore) : Nat :=
  m.slots.length

/-- Drops the idle entries, and counts them. -/
def evictIdle (m : MemoryStore) : Nat × MemoryStore :=
  let kept := m.slots.filter (! ·.isIdle)
  (m.size - kept.length, { m with slots := kept, created := 0 })

/-- Drops idle entries if there are many entries and many new ones. -/
def makeRoom (m : MemoryStore) : MemoryStore :=
  if roomyUpTo < m.size && cleanupInterval ≤ m.created then m.evictIdle.2 else m

/-- Adds an entry for a key that has none. -/
def create (m : MemoryStore) (key : IdempotencyKey) : MemoryStore :=
  let m := m.makeRoom
  { m with
    nextSlot := m.nextSlot + 1
    created := m.created + 1
    slots := m.slots ++ [⟨key, m.nextSlot, .new, 0⟩] }

/-- Keeps a slot in place until it is given back. -/
def hold (m : MemoryStore) (id : Nat) : MemoryStore :=
  { m with slots := alter id (fun s => { s with handles := s.handles + 1 }) m.slots }

/-- Takes up the slot of a key, which is made if there is none. -/
def takeUp (m : MemoryStore) (key : IdempotencyKey) : Nat × MemoryStore :=
  match m.slotOf? key with
  | some s => (s.id, m.hold s.id)
  | none => (m.nextSlot, (m.create key).hold m.nextSlot)

/-- Takes up the slot of a key, if it has one. -/
def takeUp? (m : MemoryStore) (key : IdempotencyKey) : Option (Nat × MemoryStore) :=
  (m.slotOf? key).map fun s => (s.id, m.hold s.id)

/-- Gives a slot back. -/
def giveBack (m : MemoryStore) (id : Nat) : MemoryStore :=
  { m with slots := alter id (fun s => { s with handles := s.handles - 1 }) m.slots }

/-! ### Actions on a slot that was taken up -/

/-- Draws the next lease. -/
def draw (m : MemoryStore) : Lease × MemoryStore :=
  (⟨m.nextLease⟩, { m with nextLease := m.nextLease + 1 })

/-- Tries to give a slot to a lease. -/
def tryAcquireAt (m : MemoryStore) (now id : Nat) (lease : Lease) : Bool × MemoryStore :=
  match m.slot? id with
  | none => (false, m)
  | some s =>
    let (won, e) := s.entry.tryAcquire lease (now + m.ttl)
    (won, m.setEntry id e)

/-- The bytes in a slot. -/
def peekAt (m : MemoryStore) (id : Nat) : Except ProxyError (Option (List UInt8)) :=
  match m.slot? id with
  | none => .error .notObtained
  | some s => s.entry.peek

/-- Stores bytes in a slot. -/
def storeAt (m : MemoryStore) (now id : Nat) (lease : Lease) (value : List UInt8) :
    Except ProxyError Unit × MemoryStore :=
  match m.slot? id with
  | none => (.error .leaseLost, m)
  | some s =>
    match s.entry.store lease value (now + m.ttl) with
    | .error e => (.error e, m)
    | .ok e => (.ok (), m.setEntry id e)

/-- Releases a slot. -/
def releaseAt (m : MemoryStore) (id : Nat) (lease : Lease) : Bool × MemoryStore :=
  match m.slot? id with
  | none => (false, m)
  | some s =>
    let (held, e) := s.entry.release lease
    (held, m.setEntry id e)

/-! ### Timers -/

/-- The timers that are set. -/
def timers (m : MemoryStore) : List SlotTimer :=
  m.slots.filterMap fun s => s.entry.timer.map fun t => ⟨s.id, t⟩

/-- What a timer of a slot does when it goes off. -/
def expire (m : MemoryStore) (id generation : Nat) : MemoryStore :=
  match m.slot? id with
  | none => m
  | some s => m.setEntry id (s.entry.expire generation)

/-! ### Whole operations -/

/-- Makes the caller the one that works on a key, if nobody does. Every call uses up a lease. -/
def tryAcquire (m : MemoryStore) (now : Nat) (key : IdempotencyKey) :
    Option Lease × MemoryStore :=
  let (lease, m) := m.draw
  let (id, m) := m.takeUp key
  let (won, m) := m.tryAcquireAt now id lease
  (if won then some lease else none, m.giveBack id)

/-- The answer to a key, or nothing while somebody is at work on it. -/
def peek (m : MemoryStore) (key : IdempotencyKey) : Except ProxyError (Option Envelope) :=
  match m.slotOf? key with
  | none => .error .notObtained
  | some s => do
    match ← m.peekAt s.id with
    | none => return none
    | some value => return some (← Envelope.decode value)

/-- Keeps the answer of the one that holds the key. -/
def store (m : MemoryStore) (now : Nat) (key : IdempotencyKey) (lease : Lease) (e : Envelope) :
    Except ProxyError Unit × MemoryStore :=
  match m.slotOf? key with
  | none => (.error .leaseLost, m)
  | some s => m.storeAt now s.id lease e.encode

/-- Gives up a key. Whoever does not hold it changes nothing. -/
def release (m : MemoryStore) (key : IdempotencyKey) (lease : Lease) : MemoryStore :=
  match m.slotOf? key with
  | none => m
  | some s => (m.releaseAt s.id lease).2

end MemoryStore

end OnceProxy
