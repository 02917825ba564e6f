import OnceProxy.Proxy.Exchange

/-!
# Timelines

All exchanges of a proxy that keeps its entries in memory, with a clock that stands still while
there is anything to do and then moves on to the next time that something waits for. What is due at
the same time goes in the order in which the waits began.
-/

namespace OnceProxy

open Http

/-- An origin that gives the replies of a list in turn. The last of them is also that to all further
calls. -/
def Origin.inTurn (replies : List Reply) : Origin := fun n _ =>
  match replies[n]? with
  | some r => r
  | none => replies.getLastD ⟨0, .error ""⟩

/-- A job that is being done, with the number of its request. -/
structure Visit where
  id : Nat
  job : Job
  stage : Stage

/-- A request that has been answered. -/
structure Departure where
  id : Nat
  time : Nat
  response : Response

/-- Idle entries are dropped every so often. -/
structure Sweep where
  every : Nat
  due : Nat
  deriving DecidableEq, Repr

/-- The state of a proxy at the time `now`, with what the origin does with the n-th call. Requests
are numbered as they come in. -/
structure Timeline where
  config : Config
  origin : Origin
  now : Nat
  arrivals : Nat
  shared : Shared MemoryStore
  visits : List Visit
  departures : List Departure
  sweep : Option Sweep

/-- What can happen. -/
inductive Happening where
  | visit (id : Nat)
  | timer (slot generation : Nat)
  | sweep

/-- Something that is to happen, with the time when waiting for it began. -/
structure Pending where
  due : Nat
  since : Nat
  what : Happening

/-- The wait of a visit. -/
def Visit.pending? (c : Config) (v : Visit) : Option Pending := do
  return ⟨← v.stage.due? c, ← v.stage.since?, .visit v.id⟩

/-- Whether one wait ends before another. -/
def Pending.before (a b : Pending) : Bool :=
  a.due < b.due || (a.due = b.due && a.since < b.since)

namespace Timeline

/-- A proxy to which nothing has happened. -/
def new (config : Config) (origin : Origin) : Timeline :=
  ⟨config, origin, 0, 0, ⟨.new config.cacheTtl, []⟩, [], [], none⟩

/-- The entries. -/
def store (t : Timeline) : MemoryStore :=
  t.shared.store

/-- Replaces the entries. -/
def withStore (t : Timeline) (m : MemoryStore) : Timeline :=
  { t with shared := { t.shared with store := m } }

/-! ### What is to happen -/

/-- All waits. -/
def pendings (t : Timeline) : List Pending :=
  t.visits.filterMap (Visit.pending? t.config) ++
    (t.store.timers.map fun s =>
      ⟨s.timer.due, s.timer.due - t.store.ttl, .timer s.slot s.timer.generation⟩) ++
    (t.sweep.map fun s => ⟨s.due, s.due - s.every, .sweep⟩).toList

/-- The first wait that ends, of equals the first in the list. -/
def first? : List Pending → Option Pending
  | [] => none
  | a :: as =>
    match first? as with
    | none => some a
    | some b => some (if b.before a then b else a)

/-! ### What happens -/

/-- Lets a visit go on until it has to wait, and sees it off if it is over. -/
def proceed (t : Timeline) (id : Nat) : Timeline :=
  match t.visits.find? (·.id = id) with
  | none => t
  | some v =>
    let (stage, shared) :=
      v.stage.run Backend.memory t.config t.origin t.now v.job t.shared
    let others := t.visits.filter (·.id ≠ id)
    match stage with
    | .ended result =>
      { t with
        shared
        visits := others
        departures := ⟨id, t.now, v.job.response result⟩ :: t.departures }
    | stage => { t with shared, visits := others ++ [{ v with stage }] }

/-- Lets something happen. -/
def happen (t : Timeline) : Happening → Timeline
  | .visit id => t.proceed id
  | .timer slot generation => t.withStore (t.store.expire slot generation)
  | .sweep =>
    { t.withStore t.store.evictIdle.2 with
      sweep := t.sweep.map fun s => { s with due := t.now + max 1 s.every } }

/-- Lets things happen in their order until none is due at the time `limit` or `stop` holds. -/
def runWith (stop : Timeline → Bool) (limit : Nat) : Nat → Timeline → Timeline
  | 0, t => t
  | fuel + 1, t =>
    if stop t then t
    else
      match first? t.pendings with
      | none => t
      | some p =>
        if p.due ≤ limit then
          runWith stop limit fuel ({ t with now := max t.now p.due }.happen p.what)
        else t

/-- A bound on how many things can happen until `limit`. -/
def bound (t : Timeline) (limit : Nat) : Nat :=
  t.visits.foldl (fun n v => n + 2 * v.stage.stepsLeft t.config) t.store.timers.length +
    (limit + 1 - t.now)

/-- Lets all that is due happen. -/
def settle (t : Timeline) : Timeline :=
  runWith (fun _ => false) t.now (t.bound t.now) t

/-- Waits until a time. -/
def waitUntil (t : Timeline) (time : Nat) : Timeline :=
  { runWith (fun _ => false) time (t.bound time) t with now := time }

/-- Waits for a number of milliseconds. -/
def wait (t : Timeline) (ms : Nat) : Timeline :=
  t.waitUntil (t.now + ms)

/-- Waits until the time leaves the remainder `offset`. -/
def align (t : Timeline) (ms offset : Nat) : Timeline :=
  t.wait ((offset + (ms - t.now % ms)) % ms)

/-! ### Requests -/

/-- Takes in a request, at a time in seconds by which tokens are judged, and tells its number. -/
def enter [UrlRules] (t : Timeline) (clock : UInt64) (r : Request) : Nat × Timeline :=
  let id := t.arrivals
  let t := { t with arrivals := id + 1 }
  match examine t.config clock r with
  | .answered response => (id, { t with departures := ⟨id, t.now, response⟩ :: t.departures })
  | .admitted job =>
    let here : Timeline := { t with visits := t.visits ++ [⟨id, job, .arrived⟩] }
    (id, (here.proceed id).settle)

/-- The answer to a request. -/
def departure? (t : Timeline) (id : Nat) : Option Departure :=
  t.departures.find? (·.id = id)

/-- The time until which a visit can last. -/
def horizon (t : Timeline) (id : Nat) : Nat :=
  match t.visits.find? (·.id = id) with
  | none => t.now
  | some v => t.now + v.stage.stepsLeft t.config * (t.config.pollInterval + t.config.requestTimeout)

/-- Waits until a request is answered. -/
def join (t : Timeline) (id : Nat) : Timeline :=
  let limit := t.horizon id
  (runWith (fun t => (t.departure? id).isSome) limit (t.bound limit) t).settle

/-- Drops a request that is not answered yet. -/
def abort (t : Timeline) (id : Nat) : Timeline :=
  match t.visits.find? (·.id = id) with
  | none => t
  | some v =>
    let shared := v.stage.abandon Backend.memory t.now v.job t.shared
    { t with visits := t.visits.filter (·.id ≠ id), shared }.settle

/-! ### Entries -/

/-- Does something with the entries. -/
def act {α : Type} (t : Timeline) (action : MemoryStore → α × MemoryStore) : α × Timeline :=
  let (answer, m) := action t.store
  (answer, (t.withStore m).settle)

/-- Starts to drop idle entries every so often. -/
def startSweep (t : Timeline) (every : Nat) : Timeline :=
  { t with sweep := some ⟨every, t.now + every⟩ }

/-- Stops dropping idle entries. -/
def stopSweep (t : Timeline) : Timeline :=
  { t with sweep := none }

end Timeline

end OnceProxy
