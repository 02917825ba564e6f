import OnceProxy.Proxy.Error

/-!
# Entries

The state of one key: empty, held by a lease, or ready with an answer. An entry that is not empty
has a timer, which empties it.
-/

namespace OnceProxy

/-- Shows that its owner holds an entry. A store gives out each lease once. -/
structure Lease where
  id : UInt64
  deriving DecidableEq, Repr

/-- How far an entry is: nobody is at work, somebody is, or the answer is there. -/
inductive Phase where
  | empty
  | pending
  | ready
  deriving DecidableEq, Repr

/-- The time at which an entry is to be reset, if it still has the generation of then. -/
structure Timer where
  generation : Nat
  due : Nat
  deriving DecidableEq, Repr

/-- All that is known of one key. The generation grows with every reset and every new timer, so a
timer that is out of date can be told by its generation. It grows without bound; as it counts the
changes of one entry, a word of 64 bits makes no difference before 2^64 of them. -/
structure Entry where
  phase : Phase
  lease : Option Lease
  value : Option (List UInt8)
  generation : Nat
  timer : Option Timer
  deriving DecidableEq, Repr

namespace Entry

/-- An entry that nothing has happened to. -/
def new : Entry := ⟨.empty, none, none, 0, none⟩

/-- Ends the cycle of an entry. -/
def reset (e : Entry) : Entry :=
  ⟨.empty, none, none, e.generation + 1, none⟩

/-- Sets the only timer of an entry. -/
def schedule (due : Nat) (e : Entry) : Entry :=
  { e with generation := e.generation + 1, timer := some ⟨e.generation + 1, due⟩ }

/-- Gives an empty entry to a lease until `due`. -/
def tryAcquire (lease : Lease) (due : Nat) (e : Entry) : Bool × Entry :=
  match e.phase with
  | .empty =>
    let taken := { e with phase := .pending, lease := some lease }
    (true, if e.timer.isNone then taken.schedule due else taken)
  | _ => (false, e)

/-- The answer, or nothing while somebody is at work on it. -/
def peek (e : Entry) : Except ProxyError (Option (List UInt8)) :=
  match e.phase with
  | .empty => .error .notObtained
  | .pending => .ok none
  | .ready => .ok e.value

/-- Keeps the answer of the holder until `due`. -/
def store (lease : Lease) (value : List UInt8) (due : Nat) (e : Entry) :
    Except ProxyError Entry :=
  if e.lease ≠ some lease then .error .leaseLost
  else if e.phase ≠ .pending then .error .alreadyStored
  else .ok (schedule due { e with phase := .ready, value := some value })

/-- Ends the cycle of the holder. Whoever does not hold the entry changes nothing. -/
def release (lease : Lease) (e : Entry) : Bool × Entry :=
  if e.lease = some lease then (true, e.reset) else (false, e)

/-- What a timer does when it goes off. One of an earlier generation does nothing. -/
def expire (generation : Nat) (e : Entry) : Entry :=
  if e.generation = generation then e.reset else e

@[simp] theorem phase_reset (e : Entry) : e.reset.phase = .empty := rfl

@[simp] theorem generation_reset (e : Entry) : e.reset.generation = e.generation + 1 := rfl

@[simp] theorem generation_schedule (due : Nat) (e : Entry) :
    (e.schedule due).generation = e.generation + 1 := rfl

@[simp] theorem timer_schedule (due : Nat) (e : Entry) :
    (e.schedule due).timer = some ⟨e.generation + 1, due⟩ := rfl

end Entry

end OnceProxy
