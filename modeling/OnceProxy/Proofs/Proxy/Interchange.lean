import OnceProxy.Proofs.Proxy.Service

/-!
# Memory or shared records

Nobody who makes requests can tell whether a proxy keeps its entries in memory or among shared
records. Both give the same answers to whatever a request does, as a request stores and releases
with its own lease only, and gives no key up after it has stored.
-/

namespace OnceProxy

open Http

/-! ### Leases that have stored -/

lemma Steady.isSpent_operate {ttl : Nat} {m : MemoryStore} {now : Nat} {key k : IdempotencyKey}
    {operation : Operation} {lease : Lease} (h : Steady ttl m [] [])
    (hs : ((Backend.memory.operate m now key operation).2.cycle k).isSpent lease = true) :
    (m.cycle k).isSpent lease = true ∨ ∃ e, operation = .store lease e ∧
      (Backend.memory.operate m now key operation).1 = .stored (.ok ()) := by
  rw [Backend.operate_memory] at hs ⊢
  obtain ⟨answer, houtcome, served⟩ := h.operate now key operation
  have hanswer : answer = (m.cycle key).answer (operation.action m.draw.1) := served.answer
  rw [served.cycle] at hs
  split at hs
  · rename_i hk
    subst hk
    rcases Cycle.isSpent_after hs with hs | ⟨value, ha, hok⟩
    · exact .inl hs
    · cases operation with
      | store own e =>
        cases ha
        exact .inr ⟨e, rfl, by rw [houtcome, hanswer, hok]; rfl⟩
      | tryAcquire | peek | release => cases ha
  · exact .inl hs

lemma TimedBackend.isSpent_tick_memory {ttl : Nat} {m : MemoryStore} {now : Nat} {tick : Tick}
    {k : IdempotencyKey} {lease : Lease} (h : Steady ttl m [] [])
    (hs : ((memory.tick m now tick).cycle k).isSpent lease = true) :
    (m.cycle k).isSpent lease = true := by
  cases tick with
  | fire key =>
    rw [memory, MemoryStore.cycle_ring h.ordered h.sound] at hs
    exact Cycle.isSpent_ring hs
  | sweep =>
    rw [memory, MemoryStore.cycle_evictIdle h.ordered h.sound] at hs
    exact hs
  | wait ms =>
    rw [memory, MemoryStore.cycle_ring h.ordered h.sound] at hs
    exact Cycle.isSpent_ring hs

namespace Service

/-! ### Whose a lease is -/

section

variable {s : Service MemoryStore} {c : Config} {o : Origin} {i j n : Nat} {v : Visit}
  {lease : Lease}

/-- A visit has the lease that it had, or the next one, which it is granted as its key is free. -/
lemma has_advance_memory {ttl : Nat} (steady : Steady ttl s.shared.store [] [])
    (next : s.shared.store.draw.1 = .nth n) (hi : s.visits[i]? = some v)
    (h : (s.advance .memory c o i v).Has j lease) :
    s.Has j lease ∨ j = i ∧ v.stage = .arrived ∧ lease = .nth n ∧
      s.shared.store.cycle v.job.key = .free := by
  rcases has_advance hi h with h | ⟨rfl, arrived, granted⟩
  · exact .inl h
  · have granted : (s.shared.store.tryAcquire s.now v.job.key).1 = some lease := granted
    rw [steady.tryAcquire_eq, next] at granted
    split at granted
    · rename_i free
      exact .inr ⟨rfl, arrived, (Option.some.inj granted).symm, free⟩
    · cases granted

/-- A lease stores in the step by which its visit ends. -/
lemma isSpent_advance {ttl : Nat} {key : IdempotencyKey} (steady : Steady ttl s.shared.store [] [])
    (hs : ((s.advance .memory c o i v).shared.store.cycle key).isSpent lease = true) :
    (s.shared.store.cycle key).isSpent lease = true ∨ v.lease? = some lease ∧
      (Course.serving (v.stage.step Backend.memory c o s.now v.job s.shared).1).lease? = none := by
  have store : (s.advance .memory c o i v).shared.store = _ :=
    Stage.store_step Backend.memory c o s.now v.job v.stage s.shared
  rw [store] at hs
  cases ho : (Course.serving v.stage).operation? with
  | none =>
    rw [ho] at hs
    exact .inl hs
  | some operation =>
    rw [ho] at hs
    rcases steady.isSpent_operate hs with hs | ⟨e, rfl, hok⟩
    · exact .inl hs
    · right
      constructor
      · exact Stage.lease?_of_operation ho rfl
      · rw [Stage.step_of_stored Backend.memory c o s.now v.job ho hok]
        rfl

end

/-- Every lease that a visit has was drawn before, no two visits have the same, and no visit that
still has its lease has stored with it. -/
structure Owned (s : Service MemoryStore) (drawn : Nat) : Prop where
  drawn : ∀ i lease, s.Has i lease → ∃ d < drawn, lease = .nth d
  one : ∀ i j lease, s.Has i lease → s.Has j lease → i = j
  unspent : ∀ (i : Nat) v lease, s.visits[i]? = some v → v.lease? = some lease →
    (s.shared.store.cycle v.job.key).isSpent lease = false

namespace Owned

variable {s : Service MemoryStore} {c : Config} {o : Origin} {n i : Nat} {v : Visit}

lemma start (ttl : Nat) : (start (.new ttl)).Owned 0 where
  drawn _ _ := by rintro ⟨v, ⟨⟩, -⟩
  one _ _ _ := by rintro ⟨v, ⟨⟩, -⟩
  unspent _ _ _ hi := nomatch hi

lemma advance (h : s.Owned n) {ttl : Nat} (steady : Steady ttl s.shared.store [] [])
    (next : s.shared.store.draw.1 = .nth n) (hi : s.visits[i]? = some v)
    (fresh : v.stage = .arrived → ∀ d < n, Lease.nth d ≠ .nth n) :
    (s.advance .memory c o i v).Owned (n + v.stage.draws) := by
  have has {j : Nat} {lease : Lease} (hj : (s.advance .memory c o i v).Has j lease) :=
    has_advance_memory steady next hi hj
  constructor
  · intro j lease hj
    rcases has hj with hj | ⟨-, arrived, rfl, -⟩
    · obtain ⟨d, hd, he⟩ := h.drawn j lease hj
      exact ⟨d, Nat.lt_add_right _ hd, he⟩
    · refine ⟨n, ?_, rfl⟩
      rw [arrived]
      exact Nat.lt_succ_self n
  · -- a lease that is drawn only now is nobody's yet
    have apart {j : Nat} (hj : s.Has j (.nth n)) (arrived : v.stage = .arrived) : False := by
      obtain ⟨d, hd, he⟩ := h.drawn j _ hj
      exact fresh arrived d hd he.symm
    intro j k lease hj hk
    rcases has hj with hj' | ⟨rfl, arrived, rfl, -⟩
    · rcases has hk with hk' | ⟨-, arrived, rfl, -⟩
      · exact h.one j k lease hj' hk'
      · exact (apart hj' arrived).elim
    · rcases has hk with hk' | ⟨rfl, -⟩
      · exact (apart hk' arrived).elim
      · rfl
  · intro j w lease hj hl
    rw [Bool.eq_false_iff]
    intro hs
    rcases visit_advance hi hj with ⟨rfl, rfl⟩ | ⟨hne, hj'⟩
    · -- a lease is spent by a store of its owner, whose request ends with that
      rcases isSpent_advance steady hs with hs | ⟨-, ended⟩
      · rcases has ⟨_, hj, hl⟩ with ⟨v', hi', hl'⟩ | ⟨-, -, -, free⟩
        · rw [hi] at hi'
          cases hi'
          rw [h.unspent j v lease hi hl'] at hs
          cases hs
        · rw [free] at hs
          cases hs
      · have hl : (Course.serving (v.stage.step Backend.memory c o s.now v.job s.shared).1).lease? =
            some lease := hl
        rw [ended] at hl
        cases hl
    · rcases isSpent_advance steady hs with hs | ⟨own, -⟩
      · rw [h.unspent j w lease hj' hl] at hs
        cases hs
      · exact hne (h.one j i lease ⟨w, hj', hl⟩ ⟨v, hi, own⟩)

/-- Nothing changes as to leases while visits that have one stay as they are and nothing more is
stored. -/
lemma of_visits (h : s.Owned n) {t : Service MemoryStore}
    (visits : ∀ (j : Nat) w lease, t.visits[j]? = some w → w.lease? = some lease →
      s.visits[j]? = some w)
    (spent : ∀ key lease, (t.shared.store.cycle key).isSpent lease = true →
      (s.shared.store.cycle key).isSpent lease = true) : t.Owned n := by
  have has {j : Nat} {lease : Lease} : t.Has j lease → s.Has j lease := by
    rintro ⟨w, hj, hl⟩
    exact ⟨w, visits j w lease hj hl, hl⟩
  constructor
  · intro j lease hj
    exact h.drawn j lease (has hj)
  · intro j k lease hj hk
    exact h.one j k lease (has hj) (has hk)
  · intro j w lease hj hl
    rw [Bool.eq_false_iff]
    intro hs
    have hs := spent w.job.key lease hs
    rw [h.unspent j w lease (visits j w lease hj hl) hl] at hs
    cases hs

lemma arrive [UrlRules] (h : s.Owned n) (c : Config) (clock : UInt64) (request : Request) :
    (s.arrive c clock request).Owned n := by
  apply h.of_visits
  · intro j w lease hj hl
    exact visit_arrive hj hl
  · intro key lease hs
    unfold Service.arrive at hs
    split at hs <;> exact hs

end Owned

/-! ### Two proxies in step -/

/-- A proxy that has its entries in memory and one that has shared records are in step: what has
been seen of them is the same, and so is what goes on, but for the names of leases. -/
structure InStep (c : Config) (ρ : Equiv.Perm Lease) (leases : Nat → Lease)
    (s : Service MemoryStore) (t : Service RecordStore) : Prop where
  now : t.now = s.now
  arrivals : t.arrivals = s.arrivals
  calls : t.shared.calls = s.shared.calls
  visits : t.visits = s.visits.map (Visit.rename ρ)
  seen : t.seen = s.seen
  legal : ∀ v ∈ s.visits, isToken v.job.key.method = true
  agrees : Agrees c.cacheTtl ρ {key | isToken key.method = true} s.now s.shared.store t.shared.store
  source : t.shared.store.leases = leases
  next : s.shared.store.draw.1 = .nth t.shared.store.drawn
  owned : s.Owned t.shared.store.drawn

namespace InStep

variable {c : Config} {o : Origin} {ρ : Equiv.Perm Lease} {leases : Nat → Lease}
  {s : Service MemoryStore} {t : Service RecordStore} {i : Nat} {v : Visit}

lemma start (c : Config) (ρ : Equiv.Perm Lease) (leases : Nat → Lease) :
    InStep c ρ leases (start (.new c.cacheTtl)) (start ⟨c.cacheTtl, leases, 0, []⟩) where
  now := rfl
  arrivals := rfl
  calls := rfl
  visits := rfl
  seen := rfl
  legal _ hv := nomatch hv
  agrees := .start c.cacheTtl ρ _ leases
  source := rfl
  next := rfl
  owned := .start c.cacheTtl

/-- What a visit wants of the store is answered alike. -/
lemma operate (h : InStep c ρ leases s t) (pos : 0 < c.cacheTtl) (hi : s.visits[i]? = some v)
    {operation : Operation} (ho : (Course.serving v.stage).operation? = some operation)
    (timely : (s.shared.store.cycle v.job.key).due? ≠ some s.now)
    (named : v.stage = .arrived → ρ (.nth t.shared.store.drawn) = leases t.shared.store.drawn) :
    let done := Backend.memory.operate s.shared.store s.now v.job.key operation
    let done' := Backend.records.operate t.shared.store s.now v.job.key (operation.rename ρ)
    done'.1 = done.1.rename ρ ∧
      Agrees c.cacheTtl ρ {key | isToken key.method = true} s.now done.2 done'.2 := by
  apply h.agrees.operate pos IdempotencyKey.injOn_recordKey
    (h.legal v (List.mem_of_getElem? hi)) timely
  · rintro rfl
    rw [RecordStore.draw, h.source, h.next, named (Stage.eq_arrived ho)]
  · intro lease hl
    exact h.owned.unspent i v lease hi (Stage.lease?_of_operation ho hl)

/-- A visit gets to the same stage, makes the same calls and leaves entries and records that
correspond. -/
lemma stage_step (h : InStep c ρ leases s t) (pos : 0 < c.cacheTtl) (hi : s.visits[i]? = some v)
    (timely : (Course.serving v.stage).operation?.isNone ∨
      (s.shared.store.cycle v.job.key).due? ≠ some s.now)
    (named : v.stage = .arrived → ρ (.nth t.shared.store.drawn) = leases t.shared.store.drawn) :
    let next := v.stage.step Backend.memory c o s.now v.job s.shared
    let next' := (v.stage.rename ρ).step Backend.records c o t.now v.job t.shared
    next'.1 = next.1.rename ρ ∧ next'.2.calls = next.2.calls ∧
      Agrees c.cacheTtl ρ {key | isToken key.method = true} s.now next.2.store next'.2.store := by
  -- if the stage asks for an operation, then both stores answer alike
  have answered {operation : Operation}
      (ho : (Course.serving v.stage).operation? = some operation) := by
    rw [ho] at timely
    exact h.operate pos hi ho (timely.resolve_left nofun) named
  intro next next'
  have same : next' = (v.stage.rename ρ).step Backend.records c o s.now v.job t.shared := by
    rw [← h.now]
  rw [same]
  obtain ⟨stage, calls⟩ := Stage.step_rename ρ c o s.now v.job h.calls
    fun operation ho => (answered ho).1
  refine ⟨stage, calls, ?_⟩
  rw [Stage.store_step, Stage.store_step, Stage.operation?_rename]
  cases ho : (Course.serving v.stage).operation? with
  | none => exact h.agrees
  | some operation => exact (answered ho).2

/-- A visit makes the same step in both proxies. -/
lemma advance (h : InStep c ρ leases s t) (pos : 0 < c.cacheTtl) (hi : s.visits[i]? = some v)
    (timely : (Course.serving v.stage).operation?.isNone ∨
      (s.shared.store.cycle v.job.key).due? ≠ some s.now)
    (named : v.stage = .arrived → ρ (.nth t.shared.store.drawn) = leases t.shared.store.drawn)
    (fresh : v.stage = .arrived → ∀ d < t.shared.store.drawn,
      Lease.nth d ≠ .nth t.shared.store.drawn) :
    InStep c ρ leases (s.advance .memory c o i v) (t.advance .records c o i (v.rename ρ)) := by
  obtain ⟨stage, calls, agrees⟩ := h.stage_step pos hi timely named
  obtain ⟨visits, seen⟩ := advance_rename .memory .records h.now h.visits h.seen stage
  have drawn : (t.advance .records c o i (v.rename ρ)).shared.store.drawn =
      t.shared.store.drawn + v.stage.draws := by
    rw [drawn_advance]
    exact congrArg (t.shared.store.drawn + ·) (v.stage.draws_rename ρ)
  constructor
  · exact h.now
  · exact h.arrivals
  · exact calls
  · exact visits
  · exact seen
  · intro w hw
    rcases List.mem_or_eq_of_mem_set hw with hw | rfl
    · exact h.legal w hw
    · exact h.legal v (List.mem_of_getElem? hi)
  · exact agrees
  · exact (Stage.leases_step_records c o t.now v.job _ t.shared).trans h.source
  · rw [drawn]
    exact Stage.draw_step_memory c o s.now v.job h.next
  · rw [drawn]
    exact h.owned.advance h.agrees.steady h.next hi fresh

lemma arrive [UrlRules] (h : InStep c ρ leases s t) (clock : UInt64) {request : Request}
    (legal : isToken request.method = true) :
    InStep c ρ leases (s.arrive c clock request) (t.arrive c clock request) := by
  have owned := h.owned.arrive c clock request
  unfold Service.arrive at owned ⊢
  split
  · rename_i response he
    simp only [he] at owned
    exact { h with
      arrivals := congrArg (· + 1) h.arrivals
      seen := by simp only [h.seen, h.arrivals, h.now]
      owned }
  · rename_i job he
    simp only [he] at owned
    have legal (v : Visit) (hv : v ∈ s.visits ++ [(⟨s.arrivals, job, .arrived⟩ : Visit)]) :
        isToken v.job.key.method = true := by
      rcases List.mem_append.mp hv with hv | hv
      · exact h.legal v hv
      · obtain ⟨agent, -, hj⟩ := examine_eq_admitted_iff.mp he
        rw [List.mem_singleton.mp hv, Job.key_of_ofRequest hj]
        exact legal
    have visits : t.visits ++ [⟨t.arrivals, job, .arrived⟩] =
        List.map (Visit.rename ρ) (s.visits ++ [⟨s.arrivals, job, .arrived⟩]) := by
      rw [h.visits, h.arrivals, List.map_append]
      rfl
    exact { h with arrivals := congrArg (· + 1) h.arrivals, visits, legal, owned }

/-- A move is the same in both proxies, if no lease is drawn twice. -/
lemma step [UrlRules] (h : InStep c ρ leases s t) (pos : 0 < c.cacheTtl) {move : ServiceMove}
    (legal : move.isLegal = true) (timely : s.IsTimely move) {n : Nat}
    (drawn : (t.step .records c o move).shared.store.drawn ≤ n)
    (distinct : Set.InjOn leases (Set.Iio n)) (named : ∀ d < n, ρ (.nth d) = leases d) :
    InStep c ρ leases (s.step .memory c o move) (t.step .records c o move) := by
  cases move with
  | arrive clock request => exact h.arrive clock legal
  | proceed i =>
    have same : t.visits[i]? = s.visits[i]?.map (Visit.rename ρ) := by
      rw [h.visits, List.getElem?_map]
    cases hi : s.visits[i]? with
    | none =>
      rw [hi] at same
      simp only [Service.step, hi, same]
      exact h
    | some v =>
      rw [hi] at same
      have ready : (v.rename ρ).stage.isReady c t.now = v.stage.isReady c s.now := by
        rw [h.now]
        exact v.stage.isReady_rename ρ c s.now
      simp only [Service.step, hi, same, Option.map_some, ready] at drawn ⊢
      split
      · rename_i hr
        rw [if_pos hr] at drawn
        -- an arrived request draws a lease, and the run draws no more than `n`
        have few : v.stage = .arrived → t.shared.store.drawn < n := by
          intro arrived
          have one : (v.rename ρ).stage.draws = 1 := by
            rw [Visit.rename, arrived]
            rfl
          rwa [drawn_advance, one] at drawn
        refine h.advance pos hi (timely v hi) (fun arrived => named _ (few arrived)) ?_
        intro arrived d hd he
        have few := few arrived
        -- two draws of the same number would be two equal leases
        have hl : leases d = leases t.shared.store.drawn := by
          rw [← named d (Nat.lt_trans hd few), he, named _ few]
        exact Nat.ne_of_lt hd (distinct (Nat.lt_trans hd few) few hl)
      · exact h
  | pass tick =>
    exact { h with
      now := congrArg (· + tick.ms) h.now
      agrees := h.agrees.tick tick
      next := (TimedBackend.draw_tick_memory s.shared.store s.now tick).trans h.next
      owned := h.owned.of_visits (fun _ _ _ hj _ => hj) fun _ _ hs =>
        TimedBackend.isSpent_tick_memory h.agrees.steady hs }

/-- All moves are the same in both proxies. -/
lemma run [UrlRules] (h : InStep c ρ leases s t) (pos : 0 < c.cacheTtl) {moves : List ServiceMove}
    (legal : ∀ move ∈ moves, move.isLegal = true) (timely : s.Timely c o moves) {n : Nat}
    (drawn : (t.run .records c o moves).shared.store.drawn ≤ n)
    (distinct : Set.InjOn leases (Set.Iio n)) (named : ∀ d < n, ρ (.nth d) = leases d) :
    InStep c ρ leases (s.run .memory c o moves) (t.run .records c o moves) := by
  induction moves generalizing s t with
  | nil => exact h
  | cons move moves ih =>
    have first : (t.step .records c o move).shared.store.drawn ≤ n :=
      Nat.le_trans ((t.step .records c o move).le_drawn_run moves) drawn
    have instep := h.step pos (legal move List.mem_cons_self) timely.1 first distinct named
    apply ih instep _ timely.2 drawn
    intro move' hm
    exact legal move' (List.mem_cons_of_mem move hm)

end InStep

end Service

/-- Nobody can tell where a proxy has its entries. Suppose that entries last for a positive time,
that no lease is drawn twice for shared records, that the methods of all requests are tokens, and
that no request does anything with its entry at the very moment when the entry is due. Whatever
requests come in and whatever the origin does, at whatever times, and whenever idle entries are
dropped, the proxy makes the same calls and gives the same responses at the same times with its
entries in memory as with shared records. -/
theorem seen_alike [UrlRules] (c : Config) (o : Origin) (leases : Nat → Lease)
    (moves : List ServiceMove)
    (pos : 0 < c.cacheTtl)
    (distinct : Set.InjOn leases (Set.Iio ((Service.start ⟨c.cacheTtl, leases, 0, []⟩).run .records
      c o moves).shared.store.drawn))
    (legal : ∀ move ∈ moves, move.isLegal = true)
    (timely : (Service.start (.new c.cacheTtl)).Timely c o moves) :
    let memory := (Service.start (.new c.cacheTtl)).run .memory c o moves
    let records := (Service.start ⟨c.cacheTtl, leases, 0, []⟩).run .records c o moves
    records.seen = memory.seen ∧ records.shared.calls = memory.shared.calls := by
  intro memory records
  obtain ⟨ρ, named⟩ := exists_renaming distinct
  have instep := (Service.InStep.start c ρ leases).run pos legal timely (Nat.le_refl _) distinct
    named
  exact ⟨instep.seen, instep.calls⟩

/-- A proxy that keeps what it stores for five milliseconds. -/
def shortTerm : Config := ⟨"", 0, 9, 1, 5, 9, none, [], ⟨[], []⟩, [], []⟩

/-- An origin that takes two milliseconds to say `hi`. -/
def unhurried : Origin := fun _ _ => ⟨2, .ok ⟨200, .empty, [104, 105]⟩⟩

/-- Of two requests with a key one makes the call, and the other one finds its answer. A third one
comes when the answer is gone. A request without a key is answered at once. -/
def encore : List ServiceMove :=
  let host : HeaderMap := HeaderMap.empty.append forwardedHost ⟨[97], by decide⟩
  let request : Request :=
    ⟨"POST", .ofString "/a", host.append idempotencyKeyHeader ⟨[107], by decide⟩, []⟩
  [.arrive 0 request, .arrive 0 request, .arrive 0 { request with headers := host }, .proceed 0,
    .proceed 1, .proceed 1, .pass (.wait 2), .proceed 0, .proceed 0, .proceed 1, .proceed 1,
    .pass .sweep, .pass (.wait 6), .arrive 0 request, .proceed 2]

theorem seen_alike_encore :
    let memory := (Service.start (.new 5)).run .memory shortTerm unhurried encore
    let records := (Service.start ⟨5, .nth, 0, []⟩).run .records shortTerm unhurried encore
    0 < shortTerm.cacheTtl ∧ Set.InjOn Lease.nth (Set.Iio records.shared.store.drawn) ∧
    (∀ move ∈ encore, move.isLegal = true) ∧
    (Service.start (.new 5)).Timely shortTerm unhurried encore ∧
    memory.seen.length = 5 ∧
    records.seen = memory.seen ∧ records.shared.calls = memory.shared.calls := by
  intro memory records
  have distinct : Set.InjOn Lease.nth (Set.Iio records.shared.store.drawn) :=
    Lease.injOn_nth (by decide +kernel)
  have legal : ∀ move ∈ encore, move.isLegal = true := by decide +kernel
  have timely : (Service.start (.new 5)).Timely shortTerm unhurried encore := by decide +kernel
  exact ⟨by decide, distinct, legal, timely, by decide +kernel,
    seen_alike shortTerm unhurried .nth encore (by decide) distinct legal timely⟩

end OnceProxy
