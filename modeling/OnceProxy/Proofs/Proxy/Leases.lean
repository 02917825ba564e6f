import OnceProxy.Proofs.Proxy.Turns

/-!
# Whose a lease is

A request stores and releases with no other lease than the one that was granted to it. As no lease
is granted twice, nobody else does so with this lease.
-/

namespace OnceProxy

/-- The lease that an action uses. -/
def Action.uses? : Action → Option Lease
  | store lease _ => some lease
  | release lease => some lease
  | _ => none

/-- The lease that a request has. -/
def Course.lease? : Course → Option Lease
  | serving (.calling lease _ _) => some lease
  | serving (.storing lease _) => some lease
  | serving (.releasing lease _) => some lease
  | clearing lease => some lease
  | _ => none

lemma Course.lease?_dropped {stage : Stage} {lease : Lease}
    (h : (dropped stage).lease? = some lease) : (serving stage).lease? = some lease := by
  cases stage <;> first | exact h | cases h

section

variable {c : Config} {o : Origin} {now i : Nat} {calls calls' : List OriginCall} {job : Job}
  {course course' : Course} {action : Action} {answer : Answer} {signs : List Sign}
  {stage stage' : Stage} {lease : Lease}

/-- A request gets its lease when it is granted its key. -/
lemma Turn.lease?_cases
    (h : Turn c o now i calls job course action answer course' signs calls')
    (hl : course'.lease? = some lease) :
    course.lease? = some lease ∨ action = .acquire lease ∧ answer = .acquired true := by
  cases h with
  | leads => cases hl; exact .inr ⟨rfl, rfl⟩
  | loses => exact .inl hl
  | _ => cases hl

lemma Turn.lease?_of_uses
    (h : Turn c o now i calls job course action answer course' signs calls')
    (hu : action.uses? = some lease) : course.lease? = some lease := by
  cases h with
  | stores => exact hu
  | loses => exact hu
  | releases => exact hu
  | clears => exact hu
  | misses => cases hu
  | _ => cases hu

lemma Pace.lease?_eq (h : Pace c now i job stage stage' signs) :
    (Course.serving stage').lease? = (Course.serving stage).lease? := by
  cases h <;> rfl

end

namespace ProxyState

/-- A request was granted a lease for a key. -/
def GrantedTo (s : ProxyState) (i : Nat) (key : IdempotencyKey) (lease : Lease) : Prop :=
  ∃ time, .event ⟨time, key, .answered i (.acquire lease) (.acquired true)⟩ ∈ s.log

/-- Requests have and use only leases that were granted to them. -/
structure Owned (s : ProxyState) : Prop where
  holds : ∀ (i : Nat) job course lease, s.visitors[i]? = some ⟨job, course⟩ →
    course.lease? = some lease → s.GrantedTo i job.key lease
  uses : ∀ time key i action answer lease,
    .event ⟨time, key, .answered i action answer⟩ ∈ s.log → action.uses? = some lease →
    s.GrantedTo i key lease

namespace Owned

variable {s t : ProxyState} {move : ProxyMove}

lemma start (config : Config) (origin : Origin) : (start config origin).Owned where
  holds _ _ _ _ hi := by cases hi
  uses _ _ _ _ _ _ he := by cases he

lemma step (h : s.Owned) (change : s.Change move t) : t.Owned := by
  -- the log is only extended, so that what was granted stays granted
  have still {i : Nat} {key : IdempotencyKey} {lease : Lease} (hg : s.GrantedTo i key lease) :
      t.GrantedTo i key lease := by
    obtain ⟨time, hm⟩ := hg
    obtain ⟨signs, hl⟩ := change.log_eq
    exact ⟨time, hl ▸ List.mem_append_left signs hm⟩
  constructor
  · intro i job course lease hi hlease
    cases change.came hi with
    | same _ hs => exact still (h.holds i job course lease hs hlease)
    | new => cases hlease
    | turn course₀ _ action answer signs calls hs turn he =>
      rcases turn.lease?_cases hlease with hlease | ⟨rfl, rfl⟩
      · exact still (h.holds i job course₀ lease hs hlease)
      · exact ⟨_, he⟩
    | pace stage _ signs hs pace =>
      rw [pace.lease?_eq] at hlease
      exact still (h.holds i job _ lease hs hlease)
    | dropped stage hs => exact still (h.holds i job _ lease hs (Course.lease?_dropped hlease))
  · intro time key i action answer lease he hu
    rcases change.answered he with he | ⟨job, course, course', signs, calls, -, hi, rfl, -, turn, -⟩
    · exact still (h.uses time key i action answer lease he hu)
    · exact still (h.holds i job course lease hi (turn.lease?_of_uses hu))

lemma run (config : Config) (origin : Origin) (moves : List ProxyMove) :
    ((ProxyState.start config origin).run moves).Owned :=
  (run_induction (.start config origin) (.start config origin)
    (fun _ move valid h => h.step (valid.linked.step move).2) moves).2

end Owned

/-! ### One owner -/

/-- The entries of a proxy are run by moves of the traffic there. -/
lemma entries_run (s : ProxyState) (moves : List ProxyMove) :
    ∃ storeMoves, (s.run moves).entries = s.entries.run storeMoves := by
  induction moves generalizing s with
  | nil => exact ⟨[], rfl⟩
  | cons move moves ih =>
    obtain ⟨storeMoves, hrest⟩ := ih (s.step move)
    rw [s.entries_step] at hrest
    cases hm : s.storeMove? move with
    | none =>
      rw [hm] at hrest
      exact ⟨storeMoves, hrest⟩
    | some m =>
      rw [hm] at hrest
      exact ⟨m :: storeMoves, hrest⟩

/-- While the numbers of leases last, each is granted to one request, for one key. -/
lemma GrantedTo.unique {config : Config} {origin : Origin} {moves : List ProxyMove}
    (hd : ((start config origin).run moves).entries.draws < 2 ^ 64) {i j : Nat}
    {key key' : IdempotencyKey} {lease : Lease}
    (hi : ((start config origin).run moves).GrantedTo i key lease)
    (hj : ((start config origin).run moves).GrantedTo j key' lease) : i = j ∧ key = key' := by
  have valid := (Valid.start config origin).run moves
  obtain ⟨storeMoves, he⟩ := (start config origin).entries_run moves
  generalize (start config origin).run moves = s at hd hi hj valid he
  rw [he] at hd
  have nodup := ((StoreState.Fresh.start config.cacheTtl).run storeMoves
    (Nat.le_of_lt hd)).nodup_granted
  have hlog : (StoreState.run (.start config.cacheTtl) storeMoves).log = s.entries.log :=
    congrArg StoreState.log he.symm
  rw [hlog] at nodup
  obtain ⟨time, hi⟩ := hi
  obtain ⟨time', hj⟩ := hj
  have hi := valid.events ▸ Sign.mem_events.mpr hi
  have hj := valid.events ▸ Sign.mem_events.mpr hj
  cases eq_of_granted nodup hi hj rfl rfl
  exact ⟨rfl, rfl⟩

/-- While a request has no answer, its lease neither stores anything nor is released. -/
lemma GrantedTo.unused {config : Config} {origin : Origin} {moves : List ProxyMove}
    (hd : ((start config origin).run moves).entries.draws < 2 ^ 64) {i : Nat}
    {key : IdempotencyKey} {lease : Lease}
    (hi : ((start config origin).run moves).GrantedTo i key lease) {signs : List Sign}
    (silent : Silent i signs) (seen : ∀ x ∈ signs, x ∈ ((start config origin).run moves).log)
    {e : Event} (he : .event e ∈ signs) :
    e.released? ≠ some lease ∧ ∀ value, e.stored? ≠ some (lease, value) := by
  have unused {time j : Nat} {k : IdempotencyKey} {action : Action} {answer : Answer}
      (he : .event ⟨time, k, .answered j action answer⟩ ∈ signs) : action.uses? ≠ some lease := by
    intro hu
    -- whoever uses the lease owns it, and this request has done nothing
    have hj := (Owned.run config origin moves).uses _ _ _ _ _ lease (seen _ he) hu
    obtain ⟨rfl, -⟩ := hj.unique hd hi
    exact silent _ _ _ _ he
  constructor
  · intro hr
    obtain ⟨j, hj⟩ := Event.eq_of_released hr
    rw [hj] at he
    exact unused he rfl
  · intro value hs
    obtain ⟨j, hj⟩ := Event.eq_of_stored hs
    rw [hj] at he
    exact unused he rfl

end ProxyState

end OnceProxy
