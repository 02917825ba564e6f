import OnceProxy.Proofs.Store.Exclusion
import OnceProxy.Proxy.Exchange

/-!
# Traffic at a proxy

Requests come to a proxy at any time, and each of them makes its steps whenever it gets a turn.
Whatever it wants of the store it does in the three steps of a client. A request can be dropped at
any time; a lease that it holds is then released in its place.
-/

namespace OnceProxy

open Http

deriving instance DecidableEq for Reply
deriving instance DecidableEq for Stage

/-- What is left of a request: it is being served, or it was dropped and its lease is to be
released, or nothing is left. -/
inductive Course where
  | serving (stage : Stage)
  | clearing (lease : Lease)
  | gone
  deriving DecidableEq

/-- A request that has come in. -/
structure Visitor where
  job : Job
  course : Course
  deriving DecidableEq

namespace Course

/-- What a request wants of the store next. -/
def operation? : Course → Option Operation
  | serving .arrived => some .tryAcquire
  | serving (.looking (_ + 1)) => some .peek
  | serving (.storing lease envelope) => some (.store lease envelope)
  | serving (.releasing lease _) => some (.release lease)
  | clearing lease => some (.release lease)
  | _ => none

/-- What is left of a request that is dropped. -/
def dropped (stage : Stage) : Course :=
  match stage.abandoned? with
  | some lease => clearing lease
  | none => gone

end Course

/-- The response to a request that came to an end. -/
def responseOf : Except ProxyError Envelope → Response
  | .ok e => e.render
  | .error e => e.render

/-- What can be seen of a proxy: what happens to its entries, the calls that it starts, and the
responses that it gives. -/
inductive Sign where
  | event (event : Event)
  | called (time visitor : Nat) (key : IdempotencyKey) (lease : Lease) (call : OriginCall)
  | responded (time visitor : Nat) (key : IdempotencyKey) (response : Response)
  deriving DecidableEq

namespace Sign

/-- What happened to an entry. -/
def event? : Sign → Option Event
  | event e => some e
  | _ => none

/-- The call that was started. -/
def call? : Sign → Option OriginCall
  | called _ _ _ _ call => some call
  | _ => none

lemma mem_events {log : List Sign} {e : Event} : e ∈ log.filterMap event? ↔ .event e ∈ log := by
  constructor
  · intro h
    obtain ⟨x, hx, he⟩ := List.mem_filterMap.mp h
    cases x with
    | event => cases he; exact hx
    | called => cases he
    | responded => cases he
  · intro h
    exact List.mem_filterMap.mpr ⟨_, h, rfl⟩

/-- What can be seen when a request gets to a stage. -/
def reached (time visitor : Nat) (job : Job) : Stage → List Sign
  | .calling lease _ _ => [.called time visitor job.key lease job.call]
  | .ended result => [.responded time visitor job.key (responseOf result)]
  | _ => []

end Sign

/-- A store that has given an answer to an action, as seen by the one who acted. -/
def Backend.answering (action : Action) (answer : Answer) : Backend Unit where
  tryAcquire _ _ _ :=
    match action, answer with
    | .acquire lease, .acquired true => (some lease, ())
    | _, _ => (none, ())
  peek _ _ _ :=
    match answer with
    | .found (.ok (some value)) => (Envelope.decode value).map some
    | .found (.ok none) => .ok none
    | .found (.error e) => .error e
    | _ => .error .notObtained
  store _ _ _ _ _ :=
    match answer with
    | .stored result => (result, ())
    | _ => (.error .leaseLost, ())
  release _ _ _ _ := ()

/-- A proxy with its entries, the calls that were made, the requests that have come in and what has
been seen so far. Each request is a client of the entries. -/
structure ProxyState where
  config : Config
  origin : Origin
  entries : StoreState
  calls : List OriginCall
  visitors : List Visitor
  log : List Sign

/-- What can happen next. -/
inductive ProxyMove where
  | arrive (job : Job)
  | call (visitor : Nat)
  | lookUp (visitor : Nat)
  | act (visitor : Nat)
  | proceed (visitor : Nat)
  | drop (visitor : Nat)
  | fire (task : SlotTimer)
  | sweep
  | wait (ms : Nat)
  deriving DecidableEq

namespace ProxyState

/-- A proxy to which nothing has happened. -/
def start (config : Config) (origin : Origin) : ProxyState :=
  ⟨config, origin, .start config.cacheTtl, [], [], []⟩

/-- Lets something happen to the entries. -/
def withEntries (s : ProxyState) (entries : StoreState) : ProxyState :=
  { s with
    entries
    log := s.log ++ (entries.log.drop s.entries.log.length).map .event }

/-- Lets a request make its next step, with what it hears from the store. -/
def advance (s : ProxyState) (i : Nat) (b : Backend Unit) : ProxyState :=
  match s.visitors[i]? with
  | some ⟨job, .serving stage⟩ =>
    let next := stage.step b s.config s.origin s.entries.now job ⟨(), s.calls⟩
    { s with
      visitors := s.visitors.set i ⟨job, .serving next.1⟩
      calls := next.2.calls
      log := s.log ++ Sign.reached s.entries.now i job next.1 }
  | some ⟨job, .clearing _⟩ => { s with visitors := s.visitors.set i ⟨job, .gone⟩ }
  | _ => s

/-- Lets something happen to the entries that may be an answer to a request. -/
def hear (s : ProxyState) (i : Nat) (entries : StoreState) : ProxyState :=
  match entries.log.drop s.entries.log.length with
  | [⟨_, _, .answered _ action answer⟩] =>
    (s.withEntries entries).advance i (.answering action answer)
  | _ => s.withEntries entries

/-- A request comes in. -/
def arrive (s : ProxyState) (job : Job) : ProxyState :=
  { s.withEntries (s.entries.step .join) with
    visitors := s.visitors ++ [⟨job, .serving .arrived⟩] }

/-- A request calls the operation that it wants of the store. -/
def call (s : ProxyState) (i : Nat) : ProxyState :=
  match s.visitors[i]? with
  | none => s
  | some v =>
    match v.course.operation? with
    | none => s
    | some operation => s.withEntries (s.entries.call i v.job.key operation)

/-- A request that wants nothing of the store goes on, if it does not have to wait. -/
def proceed (s : ProxyState) (i : Nat) : ProxyState :=
  match s.visitors[i]? with
  | some ⟨_, .serving stage⟩ =>
    if (Course.serving stage).operation?.isNone ∧ stage.isReady s.config s.entries.now then
      s.advance i (.answering .peek (.acquired false))
    else s
  | _ => s

/-- A request is dropped. -/
def drop (s : ProxyState) (i : Nat) : ProxyState :=
  match s.visitors[i]? with
  | some ⟨job, .serving stage⟩ =>
    { s.withEntries (s.entries.quit i) with
      visitors := s.visitors.set i ⟨job, .dropped stage⟩ }
  | _ => s

/-- Makes a move. Those that are not possible change nothing. -/
def step (s : ProxyState) : ProxyMove → ProxyState
  | .arrive job => s.arrive job
  | .call i => s.call i
  | .lookUp i => s.hear i (s.entries.lookUp i)
  | .act i => s.hear i (s.entries.act i)
  | .proceed i => s.proceed i
  | .drop i => s.drop i
  | .fire t => s.withEntries (s.entries.fire t)
  | .sweep => s.withEntries (s.entries.step .sweep)
  | .wait ms => s.withEntries (s.entries.step (.wait ms))

/-- Makes moves one after the other. -/
def run (s : ProxyState) (moves : List ProxyMove) : ProxyState :=
  moves.foldl step s

lemma run_append (s : ProxyState) (a b : List ProxyMove) : s.run (a ++ b) = (s.run a).run b :=
  List.foldl_append

end ProxyState

end OnceProxy
