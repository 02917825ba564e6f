import OnceProxy.Proofs.Proxy.Leases

/-!
# Locks that are left behind

A request to which a lease was granted has it until an envelope is stored with it or it is released.
If the request is dropped before, the release is left to be done in its place. There is one gap: a
request that is dropped while it releases its lease leaves its lock to the timer.
-/

namespace OnceProxy

/-- Whether an action has settled what becomes of a lease: an envelope was stored with it, or it was
released. -/
def Answer.Settles (answer : Answer) (lease : Lease) : Action → Prop
  | .store holder _ => holder = lease ∧ answer = .stored (.ok ())
  | .release holder => holder = lease
  | _ => False

/-- A key whose lease is settled is not held with it any longer. -/
lemma Cycle.not_held_of_settles {c : Cycle} {lease : Lease} {a : Action}
    (hl : c.lease? = some lease) (settles : (c.answer a).Settles lease a) (due due' : Nat) :
    c.after due a ≠ .held lease due' := by
  -- what settles a lease is its store or its release
  cases a with
  | acquire => exact absurd settles id
  | peek => exact absurd settles id
  | store holder value =>
    obtain ⟨rfl, answered⟩ := settles
    cases c with
    | free => cases hl
    | held own old =>
      cases hl
      simp [after]
    | ready own old until_ => simp [after]
  | release holder =>
    have hh : holder = lease := settles
    rw [after_release, hh, if_pos hl]
    simp

/-- Where the event of an answer has settled what becomes of a lease, its key is not held with it. -/
lemma Legal.not_held_of_settles {ttl : Nat} {key : IdempotencyKey} {log : List Event}
    {time i due : Nat} {action : Action} {answer : Answer} {lease : Lease}
    (h : Legal ttl (log ++ [⟨time, key, .answered i action answer⟩]))
    (hc : cycleOf ttl key log = .held lease due) (settles : answer.Settles lease action)
    (due' : Nat) :
    cycleOf ttl key (log ++ [⟨time, key, .answered i action answer⟩]) ≠ .held lease due' := by
  have fits : answer = (cycleOf ttl key log).answer action := (snoc_iff.mp h).2.2
  rw [fits, hc] at settles
  rw [cycleOf_snoc, Event.move_answered, if_pos rfl, hc]
  exact Cycle.not_held_of_settles rfl settles _ _

/-- Where time has run out a key is free, so that one that is held was held before. -/
lemma held_of_expired {ttl : Nat} {key : IdempotencyKey} {log events : List Event} {lease : Lease}
    {due : Nat} (expired : ∀ e ∈ events, ∃ own, e.what = .expired own)
    (hc : cycleOf ttl key (log ++ events) = .held lease due) :
    cycleOf ttl key log = .held lease due := by
  induction events using List.reverseRecOn with
  | nil => rwa [List.append_nil] at hc
  | append_singleton events e ih =>
    rw [← List.append_assoc, cycleOf_snoc] at hc
    obtain ⟨own, hw⟩ := expired e (by simp)
    by_cases hk : e.key = key
    · simp [Event.move, hk, hw] at hc
    · rw [Event.move_of_ne hk] at hc
      exact ih (fun d hd => expired d (List.mem_append_left _ hd)) hc

section

variable {c : Config} {o : Origin} {now i : Nat} {calls calls' : List OriginCall} {job : Job}
  {course course' : Course} {action : Action} {answer : Answer} {signs : List Sign} {lease : Lease}

/-- A request that has a lease still has it after its turn, or has settled what becomes of it. -/
lemma Turn.settles_or (h : Turn c o now i calls job course action answer course' signs calls')
    (hl : course.lease? = some lease) :
    course'.lease? = some lease ∨ answer.Settles lease action := by
  cases h with
  | stores => exact .inr ⟨Option.some.inj hl, rfl⟩
  | loses => exact .inl hl
  | releases => exact .inr (Option.some.inj hl)
  | clears => exact .inr (Option.some.inj hl)
  | _ => cases hl

/-- A request that is granted a lease has it after its turn. -/
lemma Turn.has_of_granted
    (h : Turn c o now i calls job course action answer course' signs calls')
    (hg : Event.granted? ⟨now, job.key, .answered i action answer⟩ = some lease) :
    course'.lease? = some lease := by
  cases h with
  | leads => exact hg
  | _ => cases hg

/-- Whoever is dropped while it calls or stores leaves its lease to be released. Whoever is dropped
while it releases its lease does not. -/
lemma Course.lease?_dropped_or {stage : Stage} (hl : (serving stage).lease? = some lease) :
    (dropped stage).lease? = some lease ∨ ∃ error, stage = .releasing lease error := by
  cases stage with
  | calling => exact .inl hl
  | storing => exact .inl hl
  | releasing own error =>
    cases hl
    exact .inr ⟨error, rfl⟩
  | _ => cases hl

end

namespace ProxyState

/-- A request has a lease for a key: it works with it, or releases it, or was dropped and left it to
be released in its place. -/
def Has (s : ProxyState) (i : Nat) (key : IdempotencyKey) (lease : Lease) : Prop :=
  ∃ job course, s.visitors[i]? = some ⟨job, course⟩ ∧ job.key = key ∧ course.lease? = some lease

/-- A request has stored an envelope with a lease, or the lease was released for it. -/
def HasSettled (s : ProxyState) (i : Nat) (key : IdempotencyKey) (lease : Lease) : Prop :=
  ∃ time action answer, .event ⟨time, key, .answered i action answer⟩ ∈ s.log ∧
    answer.Settles lease action

/-- A request is releasing its lease. -/
def IsReleasing (s : ProxyState) (i : Nat) (lease : Lease) : Prop :=
  ∃ job error, s.visitors[i]? = some ⟨job, .serving (.releasing lease error)⟩

/-- A request was dropped by one of the moves while it was releasing its lease. -/
def DroppedReleasing (s : ProxyState) (moves : List ProxyMove) (i : Nat) (lease : Lease) : Prop :=
  ∃ before after, moves = before ++ .drop i :: after ∧ (s.run before).IsReleasing i lease

section

variable {s t : ProxyState} {move : ProxyMove} {moves : List ProxyMove} {i : Nat}
  {key : IdempotencyKey} {lease : Lease}

lemma HasSettled.still (h : s.HasSettled i key lease) (change : s.Change move t) :
    t.HasSettled i key lease := by
  obtain ⟨time, action, answer, he, settles⟩ := h
  obtain ⟨signs, hl⟩ := change.log_eq
  refine ⟨time, action, answer, ?_, settles⟩
  rw [hl]
  exact List.mem_append_left signs he

lemma DroppedReleasing.still (h : s.DroppedReleasing moves i lease) (move : ProxyMove) :
    s.DroppedReleasing (moves ++ [move]) i lease := by
  obtain ⟨before, after, rfl, releasing⟩ := h
  exact ⟨before, after ++ [move], by simp, releasing⟩

/-- A request that has a lease keeps it in a move, or settles what becomes of it, or is dropped
while it is releasing it. -/
lemma Has.step (h : s.Has i key lease) (change : s.Change move t) :
    t.Has i key lease ∨
    (∃ action answer, answer.Settles lease action ∧
      .event ⟨s.entries.now, key, .answered i action answer⟩ ∈ t.log ∧
      t.entries.log = s.entries.log ++ [⟨s.entries.now, key, .answered i action answer⟩]) ∨
    move = .drop i ∧ s.IsReleasing i lease := by
  obtain ⟨job, course, hi, rfl, hl⟩ := h
  have hlt := (List.getElem?_eq_some_iff.mp hi).1
  have other {j : Nat} {v : Visitor} (hij : j ≠ i) (hv : t.visitors = s.visitors.set j v) :
      t.Has i job.key lease :=
    ⟨job, course, by rw [hv, List.getElem?_set_ne hij, hi], rfl, hl⟩
  have own {course' : Course} (hv : t.visitors = s.visitors.set i ⟨job, course'⟩)
      (hl' : course'.lease? = some lease) : t.Has i job.key lease :=
    ⟨job, course', by rw [hv, List.getElem?_set_self hlt], rfl, hl'⟩
  cases change with
  | quiet arrivals events _ hv =>
    left
    exact ⟨job, course, by rw [hv, List.getElem?_append_left hlt, hi], rfl, hl⟩
  | heard j job' _ course' action answer signs hj turn hv hlog he =>
    by_cases hij : j = i
    · subst hij
      rw [hi] at hj
      cases hj
      -- a turn settles the lease, or the request keeps it
      rcases turn.settles_or hl with hl' | settles
      · exact .inl (own hv hl')
      · refine .inr (.inl ⟨action, answer, settles, ?_, he⟩)
        rw [hlog]
        exact List.mem_append_right _ List.mem_cons_self
    · exact .inl (other hij hv)
  | went j job' stage stage' signs hj pace hv =>
    by_cases hij : j = i
    · subst hij
      rw [hi] at hj
      cases hj
      exact .inl (own hv (pace.lease?_eq.trans hl))
    · exact .inl (other hij hv)
  | dropped j job' stage hj hv _ _ _ hm =>
    by_cases hij : j = i
    · subst hij
      rw [hi] at hj
      cases hj
      -- dropping hands the lease on to a task, unless it is just being released
      rcases Course.lease?_dropped_or hl with hl' | ⟨error, rfl⟩
      · exact .inl (own hv hl')
      · exact .inr (.inr ⟨hm, job, error, hi⟩)
    · exact .inl (other hij hv)

/-- A lease that was granted was granted before, or its request has just got it. -/
lemma Change.granted (change : s.Change move t) (h : t.GrantedTo i key lease) :
    s.GrantedTo i key lease ∨ t.Has i key lease := by
  obtain ⟨time, he⟩ := h
  rcases change.answered he with he | ⟨job, course, course', signs, calls, -, -, rfl, ht, turn, -⟩
  · exact .inl ⟨time, he⟩
  · exact .inr ⟨job, course', ht, rfl, turn.has_of_granted rfl⟩

/-- A key that is held was held with the same lease before, or a request has just got its lease. -/
lemma Change.held (change : s.Change move t) {ttl due : Nat} (legal : Legal ttl t.entries.log)
    (hc : cycleOf ttl key t.entries.log = .held lease due) :
    cycleOf ttl key s.entries.log = .held lease due ∨ ∃ i, t.Has i key lease := by
  cases change with
  | quiet arrivals events expired _ _ _ he =>
    left
    rw [he] at hc
    exact held_of_expired expired hc
  | heard j job course course' action answer signs hj turn hv _ he =>
    rw [he] at hc legal
    by_cases hk : job.key = key
    · -- the cycle was held before, or it is granted by this turn
      have hm := legal.moves hk
      rw [hc] at hm
      generalize hw : cycleOf ttl key s.entries.log = was at hm
      cases hm with
      | granted _ _ hg =>
        refine .inr ⟨j, job, course', ?_, hk, turn.has_of_granted hg⟩
        rw [hv, List.getElem?_set_self (List.getElem?_eq_some_iff.mp hj).1]
      | same => exact .inl rfl
    · left
      rwa [Legal.cycleOf_snoc_of_ne hk] at hc
  | went _ _ _ _ _ _ _ _ _ _ he =>
    left
    rwa [he] at hc
  | dropped _ _ _ _ _ _ _ he =>
    left
    rwa [he] at hc

end

/-- What has become of all leases that were granted by the end of a run, and why keys are held. -/
structure Accounted (start : ProxyState) (moves : List ProxyMove) : Prop where
  granted : ∀ i key lease, (start.run moves).GrantedTo i key lease →
    (start.run moves).Has i key lease ∨ (start.run moves).HasSettled i key lease ∨
      start.DroppedReleasing moves i lease
  held : ∀ key lease due, (start.run moves).entries.store.cycle key = .held lease due →
    (∃ i, (start.run moves).Has i key lease) ∨ ∃ i, start.DroppedReleasing moves i lease

namespace Accounted

variable {start : ProxyState} {moves : List ProxyMove}

lemma nil (config : Config) (origin : Origin) : Accounted (ProxyState.start config origin) [] where
  granted := by
    rintro i key lease ⟨time, he⟩
    cases he
  held := by
    intro key lease due hc
    cases hc

lemma snoc (h : start.Accounted moves) (valid : (start.run moves).Valid) (move : ProxyMove) :
    start.Accounted (moves ++ [move]) := by
  have hrun : start.run (moves ++ [move]) = (start.run moves).step move :=
    start.run_append moves [move]
  have change := (valid.linked.step move).2
  have valid' := valid.step move
  -- the one case in which nobody is left with the lease
  have gap {i : Nat} {lease : Lease} (hm : move = .drop i)
      (releasing : (start.run moves).IsReleasing i lease) :
      start.DroppedReleasing (moves ++ [move]) i lease :=
    ⟨moves, [], by rw [hm], releasing⟩
  constructor
  · intro i key lease hg
    rw [hrun] at hg ⊢
    rcases change.granted hg with hg | has
    · rcases h.granted i key lease hg with has | settled | dropped
      · -- the owner goes on, settles the lease or is dropped
        rcases has.step change with has | ⟨action, answer, settles, he, -⟩ | ⟨hm, releasing⟩
        · exact .inl has
        · exact .inr (.inl ⟨_, action, answer, he, settles⟩)
        · exact .inr (.inr (gap hm releasing))
      · exact .inr (.inl (settled.still change))
      · exact .inr (.inr (dropped.still move))
    · exact .inl has
  · intro key lease due hc
    rw [hrun] at hc ⊢
    have legal := valid'.entries.legal
    rw [valid'.entries.cycles] at hc
    rw [((start.run moves).config_step move).1] at hc legal
    rcases change.held legal hc with held | has
    · rcases h.held key lease due ((valid.entries.cycles key).trans held) with
        ⟨i, has⟩ | ⟨i, dropped⟩
      · rcases has.step change with has | ⟨action, answer, settles, -, he⟩ | ⟨hm, releasing⟩
        · exact .inl ⟨i, has⟩
        · rw [he] at legal hc
          exact absurd hc (legal.not_held_of_settles held settles due)
        · exact .inr ⟨i, gap hm releasing⟩
      · exact .inr ⟨i, dropped.still move⟩
    · exact .inl has

lemma run (config : Config) (origin : Origin) (moves : List ProxyMove) :
    Accounted (ProxyState.start config origin) moves := by
  induction moves using List.reverseRecOn with
  | nil => exact .nil config origin
  | append_singleton moves move ih => exact ih.snoc ((Valid.start config origin).run moves) move

end Accounted

end ProxyState

/-- No lock is left behind, but in one case. In every run a request to which a lease was granted
still has it, or it is left to be released in its place, or an envelope was stored with it, or it was
released, unless the request was dropped while it was releasing the lease itself. So a key that is
held is held for somebody who has the lease, or else for such a request. -/
theorem run_leaves_no_lock (config : Config) (origin : Origin) (moves : List ProxyMove) :
    let start := ProxyState.start config origin
    let s := start.run moves
    (∀ i key lease, s.GrantedTo i key lease →
      s.Has i key lease ∨ s.HasSettled i key lease ∨ start.DroppedReleasing moves i lease) ∧
    ∀ key lease due, s.entries.store.cycle key = .held lease due →
      (∃ i, s.Has i key lease) ∨ ∃ i, start.DroppedReleasing moves i lease := by
  intro start s
  have accounted := ProxyState.Accounted.run config origin moves
  exact ⟨accounted.granted, accounted.held⟩

/-- A request with nothing in it. -/
def bareJob : Job := ⟨⟨"", "", ""⟩, ⟨"", "", .empty, []⟩, "", "", false⟩

/-- A request whose call fails, and which is dropped while it waits to release its lease. -/
def forsaken : ProxyState :=
  (ProxyState.start ⟨"", 0, 9, 1, 5, 0, none, [], ⟨[], []⟩, [], []⟩ fun _ _ => ⟨0, .error ""⟩).run
    [.arrive bareJob, .call 0, .lookUp 0, .act 0, .proceed 0, .call 0, .drop 0]

/-- In that case a lock is left behind: the request is gone, nobody has its lease, nothing was stored
or released, and the key is held until the timer goes off. -/
theorem exists_lock_left_behind :
    forsaken.visitors = [⟨bareJob, .gone⟩] ∧ forsaken.GrantedTo 0 bareJob.key ⟨1⟩ ∧
      (∀ i key lease, ¬ forsaken.Has i key lease ∧ ¬ forsaken.HasSettled i key lease) ∧
      forsaken.entries.store.cycle bareJob.key = .held ⟨1⟩ 5 := by
  have visitors : forsaken.visitors = [⟨bareJob, .gone⟩] := rfl
  have log : forsaken.log =
      [.event ⟨0, bareJob.key, .answered 0 (.acquire ⟨1⟩) (.acquired true)⟩,
        .called 0 0 bareJob.key ⟨1⟩ bareJob.call] := by decide
  refine ⟨visitors, ⟨0, by simp [log]⟩, ?_, by decide⟩
  -- the only request is gone, and no answer in the log settles anything
  intro i key lease
  constructor
  · rintro ⟨job, course, hi, -, hl⟩
    rw [visitors] at hi
    cases List.mem_singleton.mp (List.mem_of_getElem? hi)
    cases hl
  · rintro ⟨time, action, answer, he, settles⟩
    rw [log] at he
    simp only [List.mem_cons, Sign.event.injEq, Event.mk.injEq, Happened.answered.injEq,
      reduceCtorEq, List.not_mem_nil, or_false] at he
    obtain ⟨-, -, -, rfl, -⟩ := he
    exact settles

end OnceProxy
