import OnceProxy.Envelope.Codec
import OnceProxy.Number.Bytes
import OnceProxy.Store.Entry
import OnceProxy.Store.Key

/-!
# Entries as shared records

A key has no record, a record that names the lease which holds it, or the record of its answer.
Records expire on their own.
-/

namespace OnceProxy

/-- A byte string under an address, until it expires. -/
structure Record where
  address : String
  bytes : List UInt8
  expires : Nat
  deriving DecidableEq, Repr

/-- Records that several proxies share. Each operation is one step. Leases are drawn from a
sequence, which is to have no repetitions. -/
structure RecordStore where
  ttl : Nat
  leases : Nat → Lease
  drawn : Nat
  records : List Record

namespace RecordStore

/-! ### Records -/

/-- What the record of a key starts with while somebody is at work on it. The records of answers are
maps and start with another byte. -/
def pendingTag : UInt8 := 0

/-- The record of a key that a lease holds. -/
def pendingRecord (lease : Lease) : List UInt8 :=
  pendingTag :: Bytes.bigEndian 8 lease.id.toNat

/-- What the record of a key says: nothing yet, or the answer. -/
def readRecord : Option (List UInt8) → Except ProxyError (Option Envelope)
  | none => .error .notObtained
  | some bytes =>
    if bytes.head? = some pendingTag then .ok none
    else (Envelope.decode bytes).map some

/-- The record at an address, if it has not expired. -/
def read? (r : RecordStore) (now : Nat) (address : String) : Option (List UInt8) :=
  (r.records.find? fun x => x.address = address && now < x.expires).map (·.bytes)

/-- Takes the record away from an address. -/
def remove (r : RecordStore) (address : String) : RecordStore :=
  { r with records := r.records.filter (·.address ≠ address) }

/-- How long a record lasts: never less than a millisecond. -/
def lifetime (r : RecordStore) : Nat :=
  max 1 r.ttl

/-- Puts a record at an address. -/
def write (r : RecordStore) (now : Nat) (address : String) (bytes : List UInt8) : RecordStore :=
  { r with records := ⟨address, bytes, now + r.lifetime⟩ :: (r.remove address).records }

/-! ### Operations -/

/-- Draws the next lease. -/
def draw (r : RecordStore) : Lease × RecordStore :=
  (r.leases r.drawn, { r with drawn := r.drawn + 1 })

/-- Makes the caller the one that works on a key, if it has no record. -/
def tryAcquire (r : RecordStore) (now : Nat) (key : IdempotencyKey) :
    Option Lease × RecordStore :=
  let (lease, r) := r.draw
  match r.read? now key.recordKey with
  | some _ => (none, r)
  | none => (some lease, r.write now key.recordKey (pendingRecord lease))

/-- The answer to a key, or nothing while somebody is at work on it. -/
def peek (r : RecordStore) (now : Nat) (key : IdempotencyKey) :
    Except ProxyError (Option Envelope) :=
  readRecord (r.read? now key.recordKey)

/-- Keeps the answer of the one whose record the key has. -/
def store (r : RecordStore) (now : Nat) (key : IdempotencyKey) (lease : Lease) (e : Envelope) :
    Except ProxyError Unit × RecordStore :=
  if r.read? now key.recordKey = some (pendingRecord lease) then
    (.ok (), r.write now key.recordKey e.encode)
  else (.error .leaseLost, r)

/-- Takes away the record of a key, if it is that of the lease. -/
def release (r : RecordStore) (now : Nat) (key : IdempotencyKey) (lease : Lease) : RecordStore :=
  if r.read? now key.recordKey = some (pendingRecord lease) then r.remove key.recordKey else r

end RecordStore

end OnceProxy
