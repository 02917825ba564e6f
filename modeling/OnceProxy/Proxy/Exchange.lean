import OnceProxy.Proxy.Gate
import OnceProxy.Store.Backend

/-!
# Exchanges

How a job is done. The first one for a key makes the call and stores the answer; the others look for
the answer at intervals. A step of an exchange is one operation on the store or the end of one wait,
so exchanges can be interleaved at every point where they may have to wait.
-/

namespace OnceProxy

/-- What an origin does with a call: after some time it answers, or it fails. -/
structure Reply where
  delay : Nat
  result : Except String OriginResponse

/-- What becomes of the n-th call, counted from zero. -/
abbrev Origin := Nat → OriginCall → Reply

/-- How far an exchange is. It has just come in; it follows another one, about to look for the
answer or at rest since some time, with so many attempts left; it leads, and calls the origin since
some time, stores the answer, or gives up its key; or it is over. -/
inductive Stage where
  | arrived
  | looking (left : Nat)
  | resting (left since : Nat)
  | calling (lease : Lease) (since : Nat) (reply : Reply)
  | storing (lease : Lease) (envelope : Envelope)
  | releasing (lease : Lease) (error : ProxyError)
  | ended (result : Except ProxyError Envelope)

/-- What exchanges share: the store, and the calls that have been made. -/
structure Shared (σ : Type) where
  store : σ
  calls : List OriginCall

namespace Stage

variable {σ : Type}

/-- The time when a call ends, by an answer or because it takes too long. -/
def callEnd (c : Config) (since : Nat) (reply : Reply) : Nat :=
  since + min reply.delay c.requestTimeout

/-- The time that an exchange waits for. -/
def due? (c : Config) : Stage → Option Nat
  | resting _ since => some (since + c.pollInterval)
  | calling _ since reply => some (callEnd c since reply)
  | _ => none

/-- Whether an exchange is over. -/
def hasEnded : Stage → Bool
  | ended _ => true
  | _ => false

/-- Whether an exchange can make a step. -/
def isReady (c : Config) (now : Nat) (s : Stage) : Bool :=
  !s.hasEnded && (s.due? c).all (· ≤ now)

/-- The time when a wait began. -/
def since? : Stage → Option Nat
  | resting _ since => some since
  | calling _ since _ => some since
  | _ => none

/-- What comes after a call. -/
def afterCall (c : Config) (job : Job) (lease : Lease) (reply : Reply) : Stage :=
  if c.requestTimeout < reply.delay then releasing lease (.origin "upstream request timed out")
  else
    match reply.result with
    | .error text => releasing lease (.origin text)
    | .ok response =>
      match job.envelope response with
      | .ok e => storing lease e
      | .error e => releasing lease e

/-- Makes a step at the time `now`. -/
def step (b : Backend σ) (c : Config) (origin : Origin) (now : Nat) (job : Job) (s : Stage)
    (w : Shared σ) : Stage × Shared σ :=
  match s with
  | arrived =>
    match b.tryAcquire w.store now job.key with
    | (some lease, store) =>
      (calling lease now (origin w.calls.length job.call), ⟨store, w.calls ++ [job.call]⟩)
    | (none, store) => (looking c.pollAttempts, { w with store })
  | looking 0 => (ended (.error .timeout), w)
  | looking (left + 1) =>
    match b.peek w.store now job.key with
    | .error e => (ended (.error e), w)
    | .ok (some e) => (ended (.ok e), w)
    | .ok none => (resting left now, w)
  | resting left _ => (looking left, w)
  | calling lease _ reply => (afterCall c job lease reply, w)
  | storing lease e =>
    match b.store w.store now job.key lease e with
    | (.ok (), store) => (ended (.ok e), { w with store })
    | (.error err, store) => (releasing lease err, { w with store })
  | releasing lease err =>
    (ended (.error err), { w with store := b.release w.store now job.key lease })
  | ended result => (ended result, w)

/-- How many steps an exchange can still make. -/
def stepsLeft (c : Config) : Stage → Nat
  | arrived => 2 * c.pollAttempts + 4
  | looking left => 2 * left + 1
  | resting left _ => 2 * left + 2
  | calling .. => 3
  | storing .. => 2
  | releasing .. => 1
  | ended _ => 0

theorem stepsLeft_afterCall_lt (c : Config) (job : Job) (lease : Lease) (reply : Reply) :
    (afterCall c job lease reply).stepsLeft c < 3 := by
  unfold afterCall
  split
  · simp [stepsLeft]
  · split
    · simp [stepsLeft]
    · split <;> simp [stepsLeft]

theorem stepsLeft_step_lt (b : Backend σ) (c : Config) (origin : Origin) (now : Nat) (job : Job)
    {s : Stage} (w : Shared σ) (h : s.hasEnded = false) :
    (step b c origin now job s w).1.stepsLeft c < s.stepsLeft c := by
  match s with
  | arrived => simp only [step]; split <;> simp only [stepsLeft] <;> omega
  | looking 0 => simp [step, stepsLeft]
  | looking (left + 1) => simp only [step]; split <;> simp only [stepsLeft] <;> omega
  | resting left _ => simp [step, stepsLeft]
  | calling lease _ reply => exact stepsLeft_afterCall_lt c job lease reply
  | storing lease e => simp only [step]; split <;> simp only [stepsLeft] <;> omega
  | releasing lease err => simp [step, stepsLeft]
  | ended _ => simp [hasEnded] at h

/-- Makes steps until the exchange has to wait or is over. -/
def run (b : Backend σ) (c : Config) (origin : Origin) (now : Nat) (job : Job) (s : Stage)
    (w : Shared σ) : Stage × Shared σ :=
  if _h : s.isReady c now = true then
    let next := step b c origin now job s w
    run b c origin now job next.1 next.2
  else (s, w)
termination_by s.stepsLeft c
decreasing_by
  simp only [isReady, Bool.and_eq_true, Bool.not_eq_eq_eq_not, Bool.not_true] at _h
  exact stepsLeft_step_lt b c origin now job w _h.1

/-- The lease that is to be released when an exchange is dropped. One that is giving up its key is
already at it. -/
def abandoned? : Stage → Option Lease
  | calling lease _ _ => some lease
  | storing lease _ => some lease
  | _ => none

/-- Drops an exchange. -/
def abandon (b : Backend σ) (now : Nat) (job : Job) (s : Stage) (w : Shared σ) : Shared σ :=
  match s.abandoned? with
  | some lease => { w with store := b.release w.store now job.key lease }
  | none => w

end Stage

end OnceProxy
