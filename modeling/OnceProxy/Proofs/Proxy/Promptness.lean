import OnceProxy.Proofs.Proxy.Abandonment
import OnceProxy.Proofs.Store.Lifetime

/-!
# Locks of slow calls

In a prompt run only calls and sleeps take time: whoever can make a step makes it before time goes
on. A request that calls then keeps its lock if entries last longer than a call can take. If they
last just as long, the lock can be lost at the very end of the call, unless timers go off last.
-/

namespace OnceProxy

/-! ### Runs that do not waste time -/

/-- Whether a request has nothing to do before a time. -/
def Course.awaits (c : Config) (time : Nat) : Course → Bool
  | serving stage => stage.hasEnded || (stage.due? c).any (time ≤ ·)
  | clearing _ => false
  | gone => true

/-- No request has anything to do before a time. -/
def ProxyState.Idle (s : ProxyState) (time : Nat) : Prop :=
  ∀ v ∈ s.visitors, v.course.awaits s.config time = true

instance (s : ProxyState) (time : Nat) : Decidable (s.Idle time) :=
  inferInstanceAs (Decidable (∀ v ∈ s.visitors, v.course.awaits s.config time = true))

/-- Time goes on only as far as no request has anything to do. -/
def ProxyMove.Prompt (s : ProxyState) : ProxyMove → Prop
  | wait ms => s.Idle (s.entries.now + ms)
  | _ => True

/-- A timer goes off only when no request has anything left to do at that time. -/
def ProxyMove.Yields (s : ProxyState) : ProxyMove → Prop
  | fire _ => s.Idle (s.entries.now + 1)
  | _ => True

instance (s : ProxyState) : DecidablePred (ProxyMove.Prompt s)
  | .wait ms => inferInstanceAs (Decidable (s.Idle (s.entries.now + ms)))
  | .arrive _ | .call _ | .lookUp _ | .act _ | .proceed _ | .drop _ | .fire _ | .sweep =>
    isTrue trivial

instance (s : ProxyState) : DecidablePred (ProxyMove.Yields s)
  | .fire _ => inferInstanceAs (Decidable (s.Idle (s.entries.now + 1)))
  | .arrive _ | .call _ | .lookUp _ | .act _ | .proceed _ | .drop _ | .wait _ | .sweep =>
    isTrue trivial

namespace ProxyState

/-- Something holds of every move of a run in the state in which it is made. -/
def Throughout (P : ProxyState → ProxyMove → Prop) : ProxyState → List ProxyMove → Prop
  | _, [] => True
  | s, move :: moves => P s move ∧ (s.step move).Throughout P moves

instance decidableThroughout (P : ProxyState → ProxyMove → Prop)
    [(s : ProxyState) → DecidablePred (P s)] : (s : ProxyState) → (moves : List ProxyMove) →
    Decidable (s.Throughout P moves)
  | _, [] => isTrue trivial
  | s, move :: moves =>
    have := decidableThroughout P (s.step move) moves
    inferInstanceAs (Decidable (P s move ∧ (s.step move).Throughout P moves))

lemma Throughout.and {P Q : ProxyState → ProxyMove → Prop} {s : ProxyState}
    {moves : List ProxyMove} (hP : s.Throughout P moves) (hQ : s.Throughout Q moves) :
    s.Throughout (fun t move => P t move ∧ Q t move) moves := by
  induction moves generalizing s with
  | nil => trivial
  | cons move moves ih => exact ⟨⟨hP.1, hQ.1⟩, ih hP.2 hQ.2⟩

lemma Throughout.of_forall {P : ProxyMove → Prop} {s : ProxyState} {moves : List ProxyMove}
    (h : ∀ move ∈ moves, P move) : s.Throughout (fun _ => P) moves := by
  induction moves generalizing s with
  | nil => trivial
  | cons move moves ih =>
    exact ⟨h move List.mem_cons_self, ih fun m hm => h m (List.mem_cons_of_mem move hm)⟩

lemma Throughout.of_imp {P : ProxyState → ProxyMove → Prop} {p : Prop} {s : ProxyState}
    {moves : List ProxyMove} (h : p → s.Throughout P moves) :
    s.Throughout (fun t move => p → P t move) moves := by
  induction moves generalizing s with
  | nil => trivial
  | cons move moves ih => exact ⟨fun hp => (h hp).1, ih fun hp => (h hp).2⟩

/-- What every move of a kind keeps holds at the end of every run of such moves. -/
lemma throughout_induction {P : ProxyState → ProxyMove → Prop} {Q : ProxyState → Prop}
    {s : ProxyState} (valid : s.Valid) (hQ : Q s)
    (step : ∀ t move, t.Valid → P t move → Q t → Q (t.step move)) {moves : List ProxyMove}
    (h : s.Throughout P moves) : Q (s.run moves) := by
  induction moves generalizing s with
  | nil => exact hQ
  | cons move moves ih => exact ih (valid.step move) (step s move valid h.1 hQ) h.2

/-- Time goes on only when somebody waits. -/
lemma now_step (s : ProxyState) (move : ProxyMove) :
    (s.step move).entries.now = s.entries.now ∨ ∃ ms, move = .wait ms := by
  rw [s.entries_step]
  cases hm : s.storeMove? move with
  | none => exact .inl rfl
  | some m =>
    rcases s.entries.now_step m with hn | ⟨ms, rfl⟩
    · exact .inl hn
    · right
      cases move with
      | wait => exact ⟨_, rfl⟩
      | call i =>
        obtain ⟨v, -, hm⟩ := Option.bind_eq_some_iff.mp hm
        obtain ⟨operation, -, hm⟩ := Option.bind_eq_some_iff.mp hm
        cases hm
      | drop i =>
        simp only [storeMove?] at hm
        split at hm <;> cases hm
      | _ => cases hm

end ProxyState

/-! ### How long a lease lasts -/

/-- A request that has a lease is in time: it calls, and its call ends in time, or as much of the
lease is left as entries last longer than calls. -/
def Course.InTime (c : Config) (now due : Nat) : Course → Prop
  | serving (.calling _ since reply) =>
    due = since + c.cacheTtl ∧ now ≤ Stage.callEnd c since reply
  | _ => now + (c.cacheTtl - c.requestTimeout) ≤ due

section

variable {c : Config} {now due : Nat} {course : Course} {lease : Lease}

lemma Stage.callEnd_le (c : Config) (since : Nat) (reply : Reply) :
    callEnd c since reply ≤ since + c.requestTimeout :=
  Nat.add_le_add_left (Nat.min_le_right _ _) since

/-- As long as a request is in time, so much of its lease is left. -/
lemma Course.InTime.left (h : course.InTime c now due) (enough : c.requestTimeout ≤ c.cacheTtl) :
    now + (c.cacheTtl - c.requestTimeout) ≤ due := by
  unfold InTime at h
  split at h
  · rename_i since reply
    have := Stage.callEnd_le c since reply
    omega
  · exact h

/-- A request that has a lease and nothing to do waits for its call. -/
lemma Course.awaits_of_lease {time : Nat} (h : course.awaits c time = true)
    (hl : course.lease? = some lease) :
    ∃ since reply, course = serving (.calling lease since reply) ∧
      time ≤ Stage.callEnd c since reply := by
  cases course with
  | serving stage =>
    cases stage with
    | calling holder since reply =>
      cases hl
      refine ⟨since, reply, rfl, ?_⟩
      simpa [awaits, Stage.hasEnded, Stage.due?] using h
    | storing | releasing => cases h
    | arrived | looking | resting | ended => cases hl
  | clearing => cases h
  | gone => cases hl

/-- Waiting for the call keeps a request in time. -/
lemma Course.InTime.wait (h : course.InTime c now due) (hl : course.lease? = some lease)
    {time : Nat} (idle : course.awaits c time = true) : course.InTime c time due := by
  obtain ⟨since, reply, rfl, hle⟩ := awaits_of_lease idle hl
  exact ⟨h.1, hle⟩

/-- The lease of a request that is in time is not over: it would have to last no longer than a call,
and then the call would have to be over as well. -/
lemma Course.InTime.lt_due (h : course.InTime c now due) (hl : course.lease? = some lease)
    (enough : c.requestTimeout ≤ c.cacheTtl)
    (last : c.requestTimeout = c.cacheTtl → course.awaits c (now + 1) = true) : now < due := by
  rcases Nat.eq_or_lt_of_le enough with he | hlt
  · have := (h.wait hl (last he)).left enough
    omega
  · have := h.left enough
    omega

/-- Whoever does not use the lease of a key that is held leaves the key as it is. -/
lemma Cycle.after_held {action : Action} (hu : action.uses? = none) (lease : Lease)
    (due due' : Nat) : (held lease due).after due' action = .held lease due := by
  cases action with
  | acquire | peek => rfl
  | store | release => cases hu

end

section

variable {c : Config} {o : Origin} {now i due : Nat} {calls calls' : List OriginCall} {job : Job}
  {course course' : Course} {action : Action} {answer : Answer} {signs : List Sign}
  {stage stage' : Stage} {lease : Lease}

/-- A call that has just begun is in time. -/
lemma Turn.inTime_of_granted
    (h : Turn c o now i calls job course action answer course' signs calls')
    (hg : Event.granted? ⟨now, job.key, .answered i action answer⟩ = some lease) :
    course'.InTime c now (now + c.cacheTtl) := by
  cases h with
  | leads => exact ⟨rfl, Nat.le_add_right now _⟩
  | _ => cases hg

/-- A request that is about to store loses its lease only if the key is not held with it. -/
lemma Turn.lease?_eq_none (h : Turn c o now i calls job course action answer course' signs calls')
    (hl : course.lease? = some lease) (fits : answer = (Cycle.held lease due).answer action) :
    course'.lease? = none := by
  cases h with
  | stores | releases | clears => rfl
  | loses own e error =>
    cases hl
    simp [Cycle.answer] at fits
  | _ => cases hl

lemma Pace.inTime (h : Pace c now i job stage stage' signs)
    (hl : (Course.serving stage).lease? = some lease)
    (enough : c.requestTimeout ≤ c.cacheTtl) (hi : (Course.serving stage).InTime c now due) :
    (Course.serving stage').InTime c now due := by
  cases h with
  | givesUp | wakes => cases hl
  | fails | returns => exact hi.left enough

/-- A request that is dropped leaves as much of its lease as it had. -/
lemma Course.InTime.dropped (h : (serving stage).InTime c now due)
    (enough : c.requestTimeout ≤ c.cacheTtl) : (Course.dropped stage).InTime c now due := by
  cases stage <;> exact h.left enough

end

namespace ProxyState

/-! ### Locks that are kept -/

/-- Every request that has a lease holds its key with it and is in time, and no other request has a
lease for the key. -/
structure Guarded (s : ProxyState) : Prop where
  held : ∀ (i : Nat) job course lease, s.visitors[i]? = some ⟨job, course⟩ →
    course.lease? = some lease →
    ∃ due, cycleOf s.config.cacheTtl job.key s.entries.log = .held lease due ∧
      course.InTime s.config s.entries.now due
  sole : ∀ i j key lease lease', s.Has i key lease → s.Has j key lease' → i = j

/-- Whoever has a lease had it before, or has just been granted it. -/
lemma Change.had {s t : ProxyState} {move : ProxyMove} (change : s.Change move t) {i : Nat}
    {key : IdempotencyKey} {lease : Lease} (h : t.Has i key lease) :
    s.Has i key lease ∨ t.entries.log =
      s.entries.log ++ [⟨s.entries.now, key, .answered i (.acquire lease) (.acquired true)⟩] := by
  obtain ⟨job, course, hi, rfl, hl⟩ := h
  cases change.came hi with
  | same _ hb => exact .inl ⟨job, course, hb, rfl, hl⟩
  | new => cases hl
  | turn before _ action answer signs calls hb turn _ he =>
    rcases turn.lease?_cases hl with hl | ⟨rfl, rfl⟩
    · exact .inl ⟨job, before, hb, rfl, hl⟩
    · exact .inr he
  | pace stage stage' signs hb pace => exact .inl ⟨job, _, hb, rfl, pace.lease?_eq.symm.trans hl⟩
  | dropped stage hb => exact .inl ⟨job, _, hb, rfl, Course.lease?_dropped hl⟩

/-- A key that is held stays so when timers go off: its time is not over. -/
lemma held_append_of_inTime {s : ProxyState}
    (enough : s.config.requestTimeout ≤ s.config.cacheTtl) {i : Nat} {job : Job}
    {course : Course} {lease : Lease} {due : Nat} {events : List Event}
    (hi : s.visitors[i]? = some ⟨job, course⟩) (hl : course.lease? = some lease)
    (hc : cycleOf s.config.cacheTtl job.key s.entries.log = .held lease due)
    (inTime : course.InTime s.config s.entries.now due)
    (legal : Legal s.config.cacheTtl (s.entries.log ++ events))
    (expired : ∀ e ∈ events, ∃ lease, e.what = .expired lease)
    (past : ∀ e ∈ events, e.time ≤ s.entries.now)
    (last : events ≠ [] → s.config.requestTimeout = s.config.cacheTtl →
      s.Idle (s.entries.now + 1)) :
    cycleOf s.config.cacheTtl job.key (s.entries.log ++ events) = .held lease due := by
  rcases legal.held_append hc with hc | ⟨e, he, -, hend⟩
  · exact hc
  · obtain ⟨own, hw⟩ := expired e he
    -- timers neither release nor store, and it is too early for this one
    rcases hend with hr | ⟨-, hle⟩ | ⟨value, hs⟩
    · simp [Event.released?, hw] at hr
    · have hlt := inTime.lt_due hl enough fun heq =>
        last (List.ne_nil_of_mem he) heq _ (List.mem_of_getElem? hi)
      have := past e he
      omega
    · simp [Event.stored?, hw] at hs

namespace Guarded

variable {s t : ProxyState} {move : ProxyMove}

lemma start (config : Config) (origin : Origin) : (start config origin).Guarded where
  held _ _ _ _ hi := by cases hi
  sole _ _ _ _ _ hi := by
    obtain ⟨_, _, hi, -⟩ := hi
    cases hi

/-- When time goes on as far as nobody has anything to do, all locks are kept. -/
lemma wait (h : s.Guarded) {ms : Nat} (idle : s.Idle (s.entries.now + ms)) :
    (s.step (.wait ms)).Guarded where
  held i job course lease hi hl := by
    obtain ⟨due, hc, inTime⟩ := h.held i job course lease hi hl
    exact ⟨due, hc, inTime.wait hl (idle _ (List.mem_of_getElem? hi))⟩
  sole := h.sole

/-- A key that is held stays so when another request hears an answer. -/
lemma held_of_heard (h : s.Guarded) {i j : Nat} {job job' : Job} {course course' course'' : Course}
    {lease : Lease} {due time : Nat} {action : Action} {answer : Answer} {signs : List Sign}
    {calls : List OriginCall}
    (hi : s.visitors[i]? = some ⟨job, course⟩) (hl : course.lease? = some lease)
    (hc : cycleOf s.config.cacheTtl job.key s.entries.log = .held lease due)
    (hj : s.visitors[j]? = some ⟨job', course'⟩) (hij : j ≠ i)
    (turn : Turn s.config s.origin s.entries.now j s.calls job' course' action answer course'' signs
      calls) :
    cycleOf s.config.cacheTtl job.key
      (s.entries.log ++ [⟨time, job'.key, .answered j action answer⟩]) = .held lease due := by
  by_cases hk : job'.key = job.key
  · have hu : action.uses? = none := by
      rw [Option.eq_none_iff_forall_ne_some]
      intro own hu
      exact hij (h.sole j i job.key own lease ⟨job', course', hj, hk, turn.lease?_of_uses hu⟩
        ⟨job, course, hi, rfl, hl⟩)
    rw [cycleOf_snoc, Event.move_answered, if_pos hk, hc, Cycle.after_held hu]
  · rw [Legal.cycleOf_snoc_of_ne hk, hc]

/-- A request that hears an answer either has just been granted its key or gives up its lease. -/
lemma held_of_own (h : s.Guarded) {i : Nat} {job : Job} {course course' : Course} {lease : Lease}
    {action : Action} {answer : Answer} {signs : List Sign} {calls : List OriginCall}
    (hi : s.visitors[i]? = some ⟨job, course⟩)
    (turn : Turn s.config s.origin s.entries.now i s.calls job course action answer course' signs
      calls) (hl : course'.lease? = some lease)
    (legal : Legal s.config.cacheTtl
      (s.entries.log ++ [⟨s.entries.now, job.key, .answered i action answer⟩])) :
    ∃ due, cycleOf s.config.cacheTtl job.key
        (s.entries.log ++ [⟨s.entries.now, job.key, .answered i action answer⟩]) =
          .held lease due ∧ course'.InTime s.config s.entries.now due := by
  rcases turn.lease?_cases hl with hold | ⟨rfl, rfl⟩
  · obtain ⟨due, hc, -⟩ := h.held i job course lease hi hold
    have fits : answer = (cycleOf s.config.cacheTtl job.key s.entries.log).answer action :=
      (Legal.snoc_iff.mp legal).2.2
    rw [hc] at fits
    rw [turn.lease?_eq_none hold fits] at hl
    cases hl
  · exact ⟨_, (legal.granted_eq rfl rfl).2, turn.inTime_of_granted rfl⟩

/-- A lock is kept when others make their moves. -/
lemma held_or_heard (h : s.Guarded) (change : s.Change move t)
    (enough : s.config.requestTimeout ≤ s.config.cacheTtl)
    (last : s.config.requestTimeout = s.config.cacheTtl → move.Yields s)
    (legal : Legal s.config.cacheTtl t.entries.log)
    (past : ∀ e ∈ t.entries.log, e.time ≤ s.entries.now) {i : Nat} {job : Job} {course : Course}
    {lease : Lease} (hi : s.visitors[i]? = some ⟨job, course⟩) (hl : course.lease? = some lease) :
    (∃ due, cycleOf s.config.cacheTtl job.key t.entries.log = .held lease due ∧
      course.InTime s.config s.entries.now due) ∨
    ∃ course' action answer signs, t.visitors[i]? = some ⟨job, course'⟩ ∧
      Turn s.config s.origin s.entries.now i s.calls job course action answer course' signs
        t.calls ∧
      t.entries.log = s.entries.log ++ [⟨s.entries.now, job.key, .answered i action answer⟩] := by
  obtain ⟨due, hc, inTime⟩ := h.held i job course lease hi hl
  cases change with
  | quiet arrivals events expired _ _ _ he fired =>
    rw [he] at legal past ⊢
    refine .inl ⟨due, ?_, inTime⟩
    apply held_append_of_inTime enough hi hl hc inTime legal expired
    · intro e hm
      exact past e (List.mem_append_right _ hm)
    · intro hne heq
      obtain ⟨e, hm⟩ := List.exists_mem_of_ne_nil events hne
      obtain ⟨task, rfl⟩ := fired e hm
      exact last heq
  | heard j job' course₀ course' action answer signs hj turn hv _ he =>
    by_cases hij : j = i
    · subst hij
      cases hi.symm.trans hj
      refine .inr ⟨course', action, answer, signs, ?_, turn, he⟩
      rw [hv, List.getElem?_set_self (List.getElem?_eq_some_iff.mp hj).1]
    · rw [he]
      exact .inl ⟨due, h.held_of_heard hi hl hc hj hij turn, inTime⟩
  | went _ _ _ _ _ _ _ _ _ _ he => exact .inl ⟨due, he ▸ hc, inTime⟩
  | dropped _ _ _ _ _ _ _ he => exact .inl ⟨due, he ▸ hc, inTime⟩

/-- Whoever has a lease after a move holds its key with it and is in time. -/
lemma held_step (h : s.Guarded) (change : s.Change move t)
    (enough : s.config.requestTimeout ≤ s.config.cacheTtl)
    (last : s.config.requestTimeout = s.config.cacheTtl → move.Yields s)
    (legal : Legal s.config.cacheTtl t.entries.log)
    (past : ∀ e ∈ t.entries.log, e.time ≤ s.entries.now) {i : Nat} {job : Job} {course : Course}
    {lease : Lease} (hi : t.visitors[i]? = some ⟨job, course⟩) (hl : course.lease? = some lease) :
    ∃ due, cycleOf s.config.cacheTtl job.key t.entries.log = .held lease due ∧
      course.InTime s.config s.entries.now due := by
  have kept {before : Course} (hb : s.visitors[i]? = some ⟨job, before⟩)
      (hlb : before.lease? = some lease)
      (inTime : ∀ due, before.InTime s.config s.entries.now due →
        course.InTime s.config s.entries.now due) :
      ∃ due, cycleOf s.config.cacheTtl job.key t.entries.log = .held lease due ∧
        course.InTime s.config s.entries.now due := by
    rcases h.held_or_heard change enough last legal past hb hlb with
      ⟨due, hc, hin⟩ | ⟨course', action, answer, signs, ht, turn, he⟩
    · exact ⟨due, hc, inTime due hin⟩
    · cases hi.symm.trans ht
      rw [he] at legal ⊢
      exact h.held_of_own hb turn hl legal
  cases change.came hi with
  | same _ hb => exact kept hb hl fun _ => id
  | new => cases hl
  | turn before _ action answer signs calls hb turn _ he =>
    rw [he] at legal ⊢
    exact h.held_of_own hb turn hl legal
  | pace stage stage' signs hb pace =>
    have hlb := pace.lease?_eq.symm.trans hl
    exact kept hb hlb fun due => pace.inTime hlb enough
  | dropped stage hb =>
    exact kept hb (Course.lease?_dropped hl) fun due hin => hin.dropped enough

/-- No two requests have leases for a key after a move: whoever is granted a key has found it free,
so that nobody else has a lease for it. -/
lemma sole_step (h : s.Guarded) (change : s.Change move t)
    (legal : Legal s.config.cacheTtl t.entries.log) {i j : Nat} {key : IdempotencyKey}
    {lease lease' : Lease} (hi : t.Has i key lease) (hj : t.Has j key lease') : i = j := by
  have alone {i j : Nat} {lease lease' : Lease} (has : s.Has i key lease)
      (he : t.entries.log = s.entries.log ++
        [⟨s.entries.now, key, .answered j (.acquire lease') (.acquired true)⟩]) : False := by
    obtain ⟨job, course, hv, rfl, hl⟩ := has
    obtain ⟨due, hc, -⟩ := h.held i job course lease hv hl
    rw [he] at legal
    rw [(legal.granted_eq rfl rfl).1] at hc
    cases hc
  rcases change.had hi with hi | hi
  · rcases change.had hj with hj | hj
    · exact h.sole i j key lease lease' hi hj
    · exact (alone hi hj).elim
  · rcases change.had hj with hj | hj
    · exact (alone hj hi).elim
    · rw [hi] at hj
      cases List.append_cancel_left hj
      rfl

lemma step (h : s.Guarded) (valid : s.Valid)
    (enough : s.config.requestTimeout ≤ s.config.cacheTtl) (prompt : move.Prompt s)
    (last : s.config.requestTimeout = s.config.cacheTtl → move.Yields s) :
    (s.step move).Guarded := by
  rcases s.now_step move with hn | ⟨ms, rfl⟩
  · have change := (valid.linked.step move).2
    have legal := (valid.step move).entries.legal
    have past := (valid.step move).entries.past
    have hconfig := (s.config_step move).1
    rw [hconfig] at legal
    rw [hn] at past
    refine ⟨fun i job course lease hi hl => ?_, fun i j key lease lease' hi hj => ?_⟩
    · rw [hconfig, hn]
      exact h.held_step change enough last legal past hi hl
    · exact h.sole_step change legal hi hj
  · exact h.wait prompt

end Guarded

/-- No envelope was refused by the store. -/
def NothingLost (s : ProxyState) : Prop :=
  ∀ time key i lease value error,
    .event ⟨time, key, .answered i (.store lease value) (.stored (.error error))⟩ ∉ s.log

lemma NothingLost.step {s : ProxyState} {move : ProxyMove} (h : s.NothingLost)
    (guarded : s.Guarded) (valid : s.Valid) : (s.step move).NothingLost := by
  have change := (valid.linked.step move).2
  have legal := (valid.step move).entries.legal
  rw [(s.config_step move).1] at legal
  intro time key i lease value error hm
  rcases change.answered hm with
    hm | ⟨job, course, course', signs, calls, -, hi, rfl, -, turn, he⟩
  · exact h _ _ _ _ _ _ hm
  · -- whoever is about to store has its key
    obtain ⟨due, hc, -⟩ := guarded.held i job course lease hi (turn.lease?_of_uses rfl)
    rw [he] at legal
    have fits : Answer.stored (.error error) =
        (cycleOf s.config.cacheTtl job.key s.entries.log).answer (.store lease value) :=
      (Legal.snoc_iff.mp legal).2.2
    rw [hc] at fits
    simp [Cycle.answer] at fits

end ProxyState

/-- Locks are kept while calls run. Suppose that entries last at least as long as calls can take,
and that only calls and sleeps take time; if entries last just as long as calls can take, suppose as
well that timers go off last of all that happens at a time. Then whoever has a lease holds its key
with it, two calls for a key never run at the same time, and no envelope is refused by the store. -/
theorem prompt_run_keeps_locks (config : Config) (origin : Origin) (moves : List ProxyMove)
    (enough : config.requestTimeout ≤ config.cacheTtl)
    (prompt : (ProxyState.start config origin).Throughout ProxyMove.Prompt moves)
    (last : config.requestTimeout = config.cacheTtl →
      (ProxyState.start config origin).Throughout ProxyMove.Yields moves) :
    let s := (ProxyState.start config origin).run moves
    (∀ i key lease, s.Has i key lease →
      ∃ due, s.entries.store.cycle key = .held lease due ∧ s.entries.now ≤ due) ∧
    (∀ (i j : Nat) job job' lease lease' since since' reply reply',
      s.visitors[i]? = some ⟨job, .serving (.calling lease since reply)⟩ →
      s.visitors[j]? = some ⟨job', .serving (.calling lease' since' reply')⟩ →
      job.key = job'.key → i = j) ∧
    ∀ time key i lease value error,
      .event ⟨time, key, .answered i (.store lease value) (.stored (.error error))⟩ ∉ s.log := by
  intro s
  obtain ⟨hconfig, guarded, nothingLost⟩ : s.config = config ∧ s.Guarded ∧ s.NothingLost := by
    -- along the run, as long as everybody is prompt
    refine ProxyState.throughout_induction (Q := fun t =>
      t.config = config ∧ t.Guarded ∧ t.NothingLost) (.start config origin)
      ⟨rfl, .start config origin, fun _ _ _ _ _ _ => List.not_mem_nil⟩ ?_
      (prompt.and (.of_imp last))
    rintro t move valid ⟨prompt, last⟩ ⟨hconfig, guarded, nothingLost⟩
    rw [← hconfig] at enough last
    exact ⟨(t.config_step move).1.trans hconfig, guarded.step valid enough prompt last,
      nothingLost.step guarded valid⟩
  have valid : s.Valid := (ProxyState.Valid.start config origin).run moves
  rw [← hconfig] at enough
  refine ⟨?_, ?_, nothingLost⟩
  · rintro i key lease ⟨job, course, hi, rfl, hl⟩
    obtain ⟨due, hc, inTime⟩ := guarded.held i job course lease hi hl
    exact ⟨due, (valid.entries.cycles _).trans hc,
      (Nat.le_add_right _ _).trans (inTime.left enough)⟩
  · intro i j job job' lease lease' since since' reply reply' hi hj hk
    exact guarded.sole i j job.key lease lease' ⟨job, _, hi, rfl, rfl⟩ ⟨job', _, hj, hk.symm, rfl⟩

/-- The settings where no variables are set. Entries last just as long as calls can take. -/
def standard : Config :=
  ⟨"0.0.0.0", 8080, 10000, 100, 10000, 1048576, none, [], ⟨[], []⟩, [], []⟩

lemma ofVars_nil : Config.ofVars [] = .ok standard := rfl

/-- An answer that comes when the time for it is over. -/
def lateReply : Reply := ⟨10000, .ok ⟨200, .empty, [104, 105]⟩⟩

/-- An origin that answers late. -/
def slow : Origin := fun _ _ => lateReply

/-- A request calls until it gets an answer at the last moment. -/
def slowCall : List ProxyMove :=
  [.arrive bareJob, .call 0, .lookUp 0, .act 0, .wait 10000]

/-- The request stores the answer, another one comes in and finds it, and then the timer goes
off. -/
def justInTime : List ProxyMove :=
  slowCall ++ [.proceed 0, .arrive bareJob, .call 1, .lookUp 1, .act 1, .call 0, .lookUp 0, .act 0,
    .call 1, .lookUp 1, .act 1, .fire ⟨0, ⟨1, 10000⟩⟩]

theorem prompt_run_keeps_locks_justInTime :
    let start := ProxyState.start standard slow
    standard.requestTimeout ≤ standard.cacheTtl ∧
    start.Throughout ProxyMove.Prompt justInTime ∧ start.Throughout ProxyMove.Yields justInTime ∧
    (start.run slowCall).Has 0 bareJob.key ⟨1⟩ ∧
    (∃ due, (start.run slowCall).entries.store.cycle bareJob.key = .held ⟨1⟩ due ∧ 10000 ≤ due) ∧
    ∀ time key i lease value error,
      .event ⟨time, key, .answered i (.store lease value) (.stored (.error error))⟩ ∉
        (start.run justInTime).log := by
  intro start
  have enough : standard.requestTimeout ≤ standard.cacheTtl := Nat.le_refl _
  have prompt : start.Throughout ProxyMove.Prompt justInTime := by decide +kernel
  have last : start.Throughout ProxyMove.Yields justInTime := by decide +kernel
  have has : (start.run slowCall).Has 0 bareJob.key ⟨1⟩ := ⟨bareJob, _, rfl, rfl, rfl⟩
  have held := (prompt_run_keeps_locks standard slow slowCall enough (by decide +kernel)
    fun _ => by decide +kernel).1 0 bareJob.key ⟨1⟩ has
  exact ⟨enough, prompt, last, has, held,
    (prompt_run_keeps_locks standard slow justInTime enough prompt fun _ => last).2.2⟩

/-- The timer goes off first, so that another request comes in and calls as well. -/
def overtaking : List ProxyMove :=
  slowCall ++ [.fire ⟨0, ⟨1, 10000⟩⟩, .arrive bareJob, .call 1, .lookUp 1, .act 1]

/-- Where entries last just as long as calls can take, as they do if no variables are set, a lock
can be lost: if the timer of the entry goes off before its request makes its step at the end of its
call, another request calls for the key as well, and the envelope of the first is refused. -/
theorem exists_lock_lost_in_prompt_run :
    Config.ofVars [] = .ok standard ∧ standard.invalid? = none ∧
    ¬ standard.cacheTtl < standard.requestTimeout ∧
    (ProxyState.start standard slow).Throughout ProxyMove.Prompt
      (overtaking ++ [.proceed 0, .call 0, .lookUp 0, .act 0]) ∧
    ((ProxyState.start standard slow).run overtaking).visitors =
      [⟨bareJob, .serving (.calling ⟨1⟩ 0 lateReply)⟩,
        ⟨bareJob, .serving (.calling ⟨2⟩ 10000 lateReply)⟩] ∧
    .event ⟨10000, bareJob.key, .answered 0
        (.store ⟨1⟩ (Envelope.encode ⟨200, [], [104, 105], "text/plain"⟩))
        (.stored (.error .leaseLost))⟩ ∈
      ((ProxyState.start standard slow).run
        (overtaking ++ [.proceed 0, .call 0, .lookUp 0, .act 0])).log :=
  ⟨ofVars_nil, rfl, by decide, by decide +kernel, by decide +kernel, by decide +kernel⟩

end OnceProxy
