import OnceProxy.Proofs.Proxy.Gate
import OnceProxy.Proofs.Proxy.Leases
import OnceProxy.Proofs.Store.Addresses
import OnceProxy.Proofs.Store.Agreement
import OnceProxy.Proxy.Timeline

/-!
# A proxy with any store

Requests come to a proxy at any time, and each of them makes its steps whenever it gets a turn. A
step wants one operation of the store, or none. So all that matters of a store is what it answers.
-/

namespace OnceProxy

open Http

deriving instance DecidableEq for Departure

/-- What can be seen of a proxy from outside: a call that it makes for a request, and a response. -/
inductive Sighting where
  | called (id time : Nat) (call : OriginCall)
  | departed (departure : Departure)
  deriving DecidableEq

/-- What can be seen when a visit has got to its stage. -/
def Visit.reached (v : Visit) (time : Nat) : List Sighting :=
  match v.stage with
  | .calling .. => [.called v.id time v.job.call]
  | .ended result => [.departed ⟨v.id, time, v.job.response result⟩]
  | _ => []

/-- The lease that a visit has. -/
def Visit.lease? (v : Visit) : Option Lease :=
  (Course.serving v.stage).lease?

/-- A proxy at the time `now`, and all that has been seen of it. Requests are numbered as they come
in. -/
structure Service (σ : Type) where
  now : Nat
  arrivals : Nat
  shared : Shared σ
  visits : List Visit
  seen : List Sighting

/-- What happens next: a request comes in, at a time in seconds by which tokens are judged, or a
visit may go on, or something happens to the store by itself. -/
inductive ServiceMove where
  | arrive (clock : UInt64) (request : Request)
  | proceed (visit : Nat)
  | pass (tick : Tick)

/-- Whether the method of the request that comes in is a token. -/
def ServiceMove.isLegal : ServiceMove → Bool
  | arrive _ request => isToken request.method
  | _ => true

namespace Service

variable {σ : Type}

/-- A proxy to which nothing has happened. -/
def start (store : σ) : Service σ := ⟨0, 0, ⟨store, []⟩, [], []⟩

/-- A request comes in, and is answered at once or begins a visit. -/
def arrive [UrlRules] (c : Config) (s : Service σ) (clock : UInt64) (request : Request) :
    Service σ :=
  match examine c clock request with
  | .answered response =>
    { s with
      arrivals := s.arrivals + 1
      seen := s.seen ++ [.departed ⟨s.arrivals, s.now, response⟩] }
  | .admitted job =>
    { s with
      arrivals := s.arrivals + 1
      visits := s.visits ++ [⟨s.arrivals, job, .arrived⟩] }

/-- A visit makes a step. -/
def advance (b : TimedBackend σ) (c : Config) (o : Origin) (s : Service σ) (i : Nat) (v : Visit) :
    Service σ :=
  let next := v.stage.step b.toBackend c o s.now v.job s.shared
  let v : Visit := { v with stage := next.1 }
  { s with
    shared := next.2
    visits := s.visits.set i v
    seen := s.seen ++ v.reached s.now }

/-- Makes a move. A visit that has to wait, or is over, stays as it is. -/
def step [UrlRules] (b : TimedBackend σ) (c : Config) (o : Origin) (s : Service σ) :
    ServiceMove → Service σ
  | .arrive clock request => s.arrive c clock request
  | .proceed i =>
    match s.visits[i]? with
    | none => s
    | some v => if v.stage.isReady c s.now then s.advance b c o i v else s
  | .pass tick =>
    { s with
      now := s.now + tick.ms
      shared := { s.shared with store := b.tick s.shared.store s.now tick } }

/-- Makes moves one after the other. -/
def run [UrlRules] (b : TimedBackend σ) (c : Config) (o : Origin) (s : Service σ)
    (moves : List ServiceMove) : Service σ :=
  moves.foldl (step b c o) s

/-- No visit wants anything of the store at the very moment when the entry of its key is due. -/
def IsTimely (s : Service MemoryStore) : ServiceMove → Prop
  | .proceed i => ∀ v ∈ s.visits[i]?, (Course.serving v.stage).operation?.isNone ∨
    (s.shared.store.cycle v.job.key).due? ≠ some s.now
  | _ => True

/-- All moves are made in time. -/
def Timely [UrlRules] (c : Config) (o : Origin) : Service MemoryStore → List ServiceMove → Prop
  | _, [] => True
  | s, move :: moves => s.IsTimely move ∧ (s.step .memory c o move).Timely c o moves

instance decidableIsTimely (s : Service MemoryStore) : DecidablePred s.IsTimely
  | .proceed i => inferInstanceAs (Decidable (∀ v ∈ s.visits[i]?,
    (Course.serving v.stage).operation?.isNone ∨
      (s.shared.store.cycle v.job.key).due? ≠ some s.now))
  | .arrive _ _ => isTrue trivial
  | .pass _ => isTrue trivial

instance decidableTimely [UrlRules] (c : Config) (o : Origin) :
    (s : Service MemoryStore) → (moves : List ServiceMove) → Decidable (s.Timely c o moves)
  | _, [] => isTrue trivial
  | s, move :: moves =>
    have := decidableTimely c o (s.step .memory c o move) moves
    inferInstanceAs (Decidable (s.IsTimely move ∧ (s.step .memory c o move).Timely c o moves))

/-- A visit has a lease. -/
def Has (s : Service σ) (i : Nat) (lease : Lease) : Prop :=
  ∃ v, s.visits[i]? = some v ∧ v.lease? = some lease

end Service

/-! ### What a step wants of the store -/

namespace Stage

/-- How many leases are drawn in the next step. -/
def draws : Stage → Nat
  | arrived => 1
  | _ => 0

lemma draws_of_idle {s : Stage} (ho : (Course.serving s).operation? = none) : s.draws = 0 := by
  cases s with
  | arrived => cases ho
  | looking | resting | calling | storing | releasing | ended => rfl

lemma draws_of_operation {s : Stage} {operation : Operation}
    (ho : (Course.serving s).operation? = some operation) :
    s.draws = if operation.isAttempt then 1 else 0 := by
  match s with
  | arrived | looking (left + 1) | storing .. | releasing .. =>
    cases ho
    rfl
  | looking 0 | resting .. | calling .. | ended .. => cases ho

lemma eq_arrived {s : Stage} (ho : (Course.serving s).operation? = some .tryAcquire) :
    s = arrived := by
  match s with
  | arrived => rfl
  | looking 0 | looking (left + 1) | resting .. | calling .. | storing .. | releasing ..
  | ended .. => cases ho

/-- A request does nothing with a lease but its own. -/
lemma lease?_of_operation {s : Stage} {operation : Operation} {lease : Lease}
    (ho : (Course.serving s).operation? = some operation) (hl : operation.lease? = some lease) :
    (Course.serving s).lease? = some lease := by
  match s with
  | arrived | looking (left + 1) =>
    cases ho
    cases hl
  | storing own e =>
    cases ho
    exact hl
  | releasing own error =>
    cases ho
    exact hl
  | looking 0 | resting .. | calling .. | ended .. => cases ho

section

variable {σ : Type} (b : Backend σ) (c : Config) (o : Origin) (now : Nat) (job : Job)

/-- A step does the operation that it wants of the store, and nothing else to it. -/
lemma store_step (s : Stage) (w : Shared σ) : (s.step b c o now job w).2.store =
    match (Course.serving s).operation? with
    | none => w.store
    | some operation => (b.operate w.store now job.key operation).2 := by
  -- a stage performs the one operation that it asks for, or none
  match s with
  | arrived =>
    simp only [step, Course.operation?, Backend.operate]
    split
    · rename_i h
      rw [h]
    · rename_i h
      rw [h]
  | looking 0 => rfl
  | looking (left + 1) =>
    simp only [step, Course.operation?, Backend.operate]
    split <;> rfl
  | resting left since => rfl
  | calling lease since reply => rfl
  | storing lease e =>
    simp only [step, Course.operation?, Backend.operate]
    split
    · rename_i h
      rw [h]
    · rename_i h
      rw [h]
  | releasing lease error => rfl
  | ended result => rfl

/-- Leases are drawn in memory in their order. -/
lemma draw_step_memory {s : Stage} {w : Shared MemoryStore} {n : Nat}
    (h : w.store.draw.1 = .nth n) :
    (s.step Backend.memory c o now job w).2.store.draw.1 = .nth (n + s.draws) := by
  rw [store_step]
  cases ho : (Course.serving s).operation? with
  | none => rwa [draws_of_idle ho]
  | some operation =>
    rw [draws_of_operation ho, ← Backend.length_attempts Backend.memory w.store now job.key]
    exact Backend.draw_operate_memory h now job.key operation

lemma drawn_step_records (s : Stage) (w : Shared RecordStore) :
    (s.step Backend.records c o now job w).2.store.drawn = w.store.drawn + s.draws := by
  rw [store_step]
  cases ho : (Course.serving s).operation? with
  | none => rw [draws_of_idle ho, Nat.add_zero]
  | some operation =>
    rw [draws_of_operation ho]
    exact (w.store.effect now job.key operation).drawn_eq

lemma leases_step_records (s : Stage) (w : Shared RecordStore) :
    (s.step Backend.records c o now job w).2.store.leases = w.store.leases := by
  rw [store_step]
  cases (Course.serving s).operation? with
  | none => rfl
  | some operation => exact (w.store.effect now job.key operation).leases_eq

/-- A request that stores an envelope is over. -/
lemma step_of_stored {s : Stage} {w : Shared σ} {lease : Lease} {e : Envelope}
    (ho : (Course.serving s).operation? = some (.store lease e))
    (hok : (b.operate w.store now job.key (.store lease e)).1 = .stored (.ok ())) :
    (s.step b c o now job w).1 = ended (.ok e) := by
  match s with
  | storing own e' =>
    cases ho
    have hok : (b.store w.store now job.key lease e).1 = .ok () := Outcome.stored.inj hok
    simp only [step]
    generalize b.store w.store now job.key lease e = done at hok ⊢
    obtain ⟨result, store⟩ := done
    subst hok
    rfl
  | looking 0 | looking (left + 1) => cases ho
  | arrived | resting .. | calling .. | releasing .. | ended .. => cases ho

/-- A request has the lease that it had, or the one that it is granted. -/
lemma lease?_step {s : Stage} {w : Shared σ} {lease : Lease}
    (h : (Course.serving (s.step b c o now job w).1).lease? = some lease) :
    (Course.serving s).lease? = some lease ∨
      s = arrived ∧ (b.tryAcquire w.store now job.key).1 = some lease := by
  -- a lease comes with an acquisition only, and it is kept until it stores or is released
  match s with
  | arrived =>
    simp only [step] at h
    split at h
    · rename_i hg
      cases h
      exact .inr ⟨rfl, by rw [hg]⟩
    · cases h
  | looking 0 => cases h
  | looking (left + 1) =>
    simp only [step] at h
    split at h <;> cases h
  | resting left since => cases h
  | calling own since reply =>
    left
    simp only [step] at h
    rcases afterCall_cases c job own reply with ⟨error, ha⟩ | ⟨response, e, -, -, ha⟩
    · rw [ha] at h
      exact h
    · rw [ha] at h
      exact h
  | storing own e =>
    simp only [step] at h
    split at h
    · cases h
    · exact .inl h
  | releasing own error => cases h
  | ended result => cases h

end

/-- Gives leases other names. -/
def rename (ρ : Equiv.Perm Lease) : Stage → Stage
  | calling lease since reply => calling (ρ lease) since reply
  | storing lease e => storing (ρ lease) e
  | releasing lease error => releasing (ρ lease) error
  | s => s

section

variable (ρ : Equiv.Perm Lease)

lemma operation?_rename (s : Stage) : (Course.serving (s.rename ρ)).operation? =
    ((Course.serving s).operation?).map (Operation.rename ρ) := by
  match s with
  | looking 0 => rfl
  | looking (left + 1) => rfl
  | arrived | resting .. | calling .. | storing .. | releasing .. | ended .. => rfl

lemma draws_rename (s : Stage) : (s.rename ρ).draws = s.draws := by
  cases s <;> rfl

lemma isReady_rename (c : Config) (now : Nat) (s : Stage) :
    (s.rename ρ).isReady c now = s.isReady c now := by
  cases s <;> rfl

lemma afterCall_rename (c : Config) (job : Job) (lease : Lease) (reply : Reply) :
    afterCall c job (ρ lease) reply = (afterCall c job lease reply).rename ρ := by
  unfold afterCall
  split
  · rfl
  · split
    · rfl
    · split <;> rfl

variable {σ τ : Type} {b : Backend σ} {b' : Backend τ} {s : Stage} {w : Shared σ} {w' : Shared τ}

/-- Where two stores answer the same but for the names of leases, a step leads to the same stage but
for the names of leases, and the same calls are made. -/
lemma step_rename (c : Config) (o : Origin) (now : Nat) (job : Job) (calls : w'.calls = w.calls)
    (heard : ∀ operation ∈ (Course.serving s).operation?,
      (b'.operate w'.store now job.key (operation.rename ρ)).1 =
        (b.operate w.store now job.key operation).1.rename ρ) :
    ((s.rename ρ).step b' c o now job w').1 = (s.step b c o now job w).1.rename ρ ∧
      ((s.rename ρ).step b' c o now job w').2.calls = (s.step b c o now job w).2.calls := by
  match s with
  | arrived =>
    have granted : (b'.tryAcquire w'.store now job.key).1 =
        (b.tryAcquire w.store now job.key).1.map ρ := Outcome.acquired.inj (heard _ rfl)
    simp only [step, rename]
    generalize b.tryAcquire w.store now job.key = got at granted ⊢
    generalize b'.tryAcquire w'.store now job.key = got' at granted ⊢
    obtain ⟨lease?, store⟩ := got
    obtain ⟨lease?', store'⟩ := got'
    subst granted
    cases lease? with
    | none => exact ⟨rfl, calls⟩
    | some lease => simp only [Option.map_some, calls, and_true]
  | looking 0 => exact ⟨rfl, calls⟩
  | looking (left + 1) =>
    have found : b'.peek w'.store now job.key = b.peek w.store now job.key :=
      Outcome.found.inj (heard _ rfl)
    simp only [step, rename, found]
    split
    · exact ⟨rfl, calls⟩
    · exact ⟨rfl, calls⟩
    · exact ⟨rfl, calls⟩
  | resting left since => exact ⟨rfl, calls⟩
  | calling lease since reply => exact ⟨afterCall_rename ρ c job lease reply, calls⟩
  | storing lease e =>
    -- of a store only the result is heard, which has no lease in it
    have stored : (b'.store w'.store now job.key (ρ lease) e).1 =
        (b.store w.store now job.key lease e).1 := Outcome.stored.inj (heard _ rfl)
    simp only [step, rename]
    generalize b.store w.store now job.key lease e = done at stored ⊢
    generalize b'.store w'.store now job.key (ρ lease) e = done' at stored ⊢
    obtain ⟨result, store⟩ := done
    obtain ⟨result', store'⟩ := done'
    subst stored
    cases result' with
    | error error => exact ⟨rfl, calls⟩
    | ok => exact ⟨rfl, calls⟩
  | releasing lease error => exact ⟨rfl, calls⟩
  | ended result => exact ⟨rfl, calls⟩

end

end Stage

/-- Gives the leases of a visit other names. -/
def Visit.rename (ρ : Equiv.Perm Lease) (v : Visit) : Visit :=
  { v with stage := v.stage.rename ρ }

lemma Visit.reached_rename (ρ : Equiv.Perm Lease) (v : Visit) (time : Nat) :
    (v.rename ρ).reached time = v.reached time := by
  obtain ⟨id, job, stage⟩ := v
  cases stage <;> rfl

namespace Service

variable {σ : Type} {b : TimedBackend σ} {c : Config} {o : Origin} {s : Service σ} {i j : Nat}
  {v w : Visit}

/-- Only the visit that makes a step changes. -/
lemma visit_advance (hi : s.visits[i]? = some v) (hj : (s.advance b c o i v).visits[j]? = some w) :
    (j = i ∧ w = { v with stage := (v.stage.step b.toBackend c o s.now v.job s.shared).1 }) ∨
      j ≠ i ∧ s.visits[j]? = some w := by
  by_cases hij : j = i
  · subst hij
    left
    rw [advance, List.getElem?_set_self (List.getElem?_eq_some_iff.mp hi).1] at hj
    cases hj
    exact ⟨rfl, rfl⟩
  · right
    rw [advance, List.getElem?_set_ne (Ne.symm hij)] at hj
    exact ⟨hij, hj⟩

/-- If a visit gets to the same stage in two proxies but for the names of leases, then all visits are
the same and the same is seen. -/
lemma advance_rename {τ : Type} (b : TimedBackend σ) (b' : TimedBackend τ) {t : Service τ}
    {ρ : Equiv.Perm Lease} (now : t.now = s.now)
    (visits : t.visits = s.visits.map (Visit.rename ρ)) (seen : t.seen = s.seen)
    (stage : ((v.stage.rename ρ).step b'.toBackend c o t.now v.job t.shared).1 =
      (v.stage.step b.toBackend c o s.now v.job s.shared).1.rename ρ) :
    (t.advance b' c o i (v.rename ρ)).visits =
        (s.advance b c o i v).visits.map (Visit.rename ρ) ∧
      (t.advance b' c o i (v.rename ρ)).seen = (s.advance b c o i v).seen := by
  rw [now] at stage
  have visit : ({ v.rename ρ with
      stage := ((v.stage.rename ρ).step b'.toBackend c o s.now v.job t.shared).1 } : Visit) =
      Visit.rename ρ { v with
        stage := (v.stage.step b.toBackend c o s.now v.job s.shared).1 } := by
    rw [stage]
    rfl
  constructor
  · rw [advance, advance, visits, now, List.map_set]
    exact congrArg ((s.visits.map (Visit.rename ρ)).set i) visit
  · rw [advance, advance, seen, now]
    -- what is seen of the new stage is seen of the renamed one
    have reached := congrArg (Visit.reached · s.now) visit
    exact congrArg (s.seen ++ ·) (reached.trans (Visit.reached_rename ρ _ s.now))

/-- A request that comes in has no lease. -/
lemma visit_arrive [UrlRules] {clock : UInt64} {request : Request} {lease : Lease}
    (hj : (s.arrive c clock request).visits[j]? = some w) (hl : w.lease? = some lease) :
    s.visits[j]? = some w := by
  unfold arrive at hj
  split at hj
  · exact hj
  · rcases Nat.lt_or_ge j s.visits.length with hlt | hge
    · rwa [List.getElem?_append_left hlt] at hj
    · rw [List.getElem?_append_right hge] at hj
      have hw := List.mem_singleton.mp (List.mem_of_getElem? hj)
      rw [hw] at hl
      cases hl

/-- A visit has the lease that it had, or the one that it is granted. -/
lemma has_advance {lease : Lease} (hi : s.visits[i]? = some v)
    (h : (s.advance b c o i v).Has j lease) :
    s.Has j lease ∨ j = i ∧ v.stage = .arrived ∧
      (b.tryAcquire s.shared.store s.now v.job.key).1 = some lease := by
  obtain ⟨w, hj, hl⟩ := h
  rcases visit_advance hi hj with ⟨rfl, rfl⟩ | ⟨-, hj⟩
  · rcases Stage.lease?_step b.toBackend c o s.now v.job hl with hl | granted
    · exact .inl ⟨v, hi, hl⟩
    · exact .inr ⟨rfl, granted⟩
  · exact .inl ⟨w, hj, hl⟩

/-! ### How many leases are drawn -/

lemma drawn_advance (t : Service RecordStore) (i : Nat) (v : Visit) :
    (t.advance .records c o i v).shared.store.drawn = t.shared.store.drawn + v.stage.draws :=
  Stage.drawn_step_records c o t.now v.job v.stage t.shared

lemma le_drawn_step [UrlRules] (t : Service RecordStore) (move : ServiceMove) :
    t.shared.store.drawn ≤ (t.step .records c o move).shared.store.drawn := by
  cases move with
  | arrive clock request =>
    simp only [step, arrive]
    split <;> exact Nat.le_refl _
  | proceed i =>
    simp only [step]
    split
    · exact Nat.le_refl _
    · split
      · rw [drawn_advance]
        exact Nat.le_add_right _ _
      · exact Nat.le_refl _
  | pass tick => exact Nat.le_refl _

lemma le_drawn_run [UrlRules] (t : Service RecordStore) (moves : List ServiceMove) :
    t.shared.store.drawn ≤ (t.run .records c o moves).shared.store.drawn := by
  induction moves generalizing t with
  | nil => exact Nat.le_refl _
  | cons move moves ih => exact Nat.le_trans (t.le_drawn_step move) (ih (t.step .records c o move))

end Service

end OnceProxy
