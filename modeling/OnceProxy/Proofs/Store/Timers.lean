import OnceProxy.Proofs.Store.Cycle

/-!
# Timers that come too late

A timer is a task that sleeps and then resets its entry. Whoever sets another timer or resets the
entry stops the task, but that can be too late for a task whose sleep is over. Such a task goes off
at some time or other, and must not harm what has come of the entry since.
-/

namespace OnceProxy

/-- A task for a timer, with the number of things that had happened to the entry by the time when
it was spawned. -/
structure Task where
  timer : Timer
  spawned : Nat
  deriving DecidableEq, Repr

/-- Something that happened to an entry: it answered an action, or a task went off, which has reset
it or not. -/
inductive Deed where
  | answered (action : Action) (answer : Answer)
  | wentOff (reset : Bool)
  deriving DecidableEq, Repr

/-- Whether an action was done with success. To look does not count. -/
def Answer.succeeds : Answer → Bool
  | acquired won => won
  | found _ => false
  | stored result => result.isOk
  | released held => held

/-- Whether an entry was acquired, stored to, released or reset. -/
def Deed.changes : Deed → Bool
  | answered _ answer => answer.succeeds
  | wentOff reset => reset

/-- An entry at the time `now`, with the tasks that were spawned and have not gone off, and what has
happened so far. -/
structure EntryState where
  now : Nat
  entry : Entry
  tasks : List Task
  deeds : List Deed

/-- What can happen next to an entry. -/
inductive EntryMove where
  | act (action : Action)
  | fire (task : Task)
  | wait (ms : Nat)

namespace EntryState

/-- An entry that nothing has happened to. -/
def start : EntryState := ⟨0, .new, [], []⟩

/-- The task that is spawned when the entry becomes another one: it is that of the new timer. -/
def spawn (s : EntryState) (e : Entry) : List Task :=
  if e.timer = s.entry.timer then []
  else (e.timer.map fun timer => ⟨timer, s.deeds.length + 1⟩).toList

/-- Somebody does something to the entry, whose cycles last for `ttl`. -/
def act (ttl : Nat) (s : EntryState) (action : Action) : EntryState :=
  let done := s.entry.act (s.now + ttl) action
  { s with
    entry := done.2
    tasks := s.tasks ++ s.spawn done.2
    deeds := s.deeds ++ [.answered action done.1] }

/-- A task goes off, if its sleep is over. -/
def fire (s : EntryState) (t : Task) : EntryState :=
  if t ∈ s.tasks ∧ t.timer.due ≤ s.now then
    let e := s.entry.expire t.timer.generation
    { s with
      entry := e
      tasks := s.tasks.erase t
      deeds := s.deeds ++ [.wentOff (e ≠ s.entry)] }
  else s

/-- Makes a move. Those that are not possible change nothing. -/
def step (ttl : Nat) (s : EntryState) : EntryMove → EntryState
  | .act action => s.act ttl action
  | .fire t => s.fire t
  | .wait ms => { s with now := s.now + ms }

/-- Makes moves one after the other. -/
def run (ttl : Nat) (s : EntryState) (moves : List EntryMove) : EntryState :=
  moves.foldl (step ttl) s

end EntryState

/-! ### Generations count changes -/

namespace Entry

variable {e : Entry}

/-- An action that is done with success takes an entry to the next generation, and no other action
does. -/
lemma Sound.generation_act (h : e.Sound) (due : Nat) (a : Action) :
    (e.act due a).2.generation = e.generation + if (e.act due a).1.succeeds then 1 else 0 := by
  -- what succeeds resets or schedules, once, and what fails changes nothing
  cases a with
  | acquire lease => cases h <;> rfl
  | peek => rfl
  | store lease value =>
    cases h with
    | empty => rfl
    | pending holder generation old =>
      by_cases hl : holder = lease
      · simp [Entry.act, Entry.store, schedule, Answer.succeeds, Except.isOk, Except.toBool, hl]
      · simp [Entry.act, Entry.store, Answer.succeeds, Except.isOk, Except.toBool, hl]
    | ready holder held generation old =>
      by_cases hl : holder = lease
      · simp [Entry.act, Entry.store, Answer.succeeds, Except.isOk, Except.toBool, hl]
      · simp [Entry.act, Entry.store, Answer.succeeds, Except.isOk, Except.toBool, hl]
  | release lease =>
    by_cases hl : e.lease = some lease
    · simp [Entry.act, Entry.release, Answer.succeeds, hl]
    · simp [Entry.act, Entry.release, Answer.succeeds, hl]

lemma generation_expire (e : Entry) (generation : Nat) :
    (e.expire generation).generation =
      e.generation + if e.expire generation ≠ e then 1 else 0 := by
  by_cases h : e.generation = generation
  · have hne : e.reset ≠ e := by
      intro he
      have := congrArg Entry.generation he
      simp at this
    rw [expire_of_eq h, if_pos hne, generation_reset]
  · simp [expire_of_ne h]

end Entry

namespace EntryState

/-- The generation of an entry counts its changes, and that of a task the changes up to the one by
which it was spawned. -/
structure Counted (s : EntryState) : Prop where
  sound : s.entry.Sound
  entry : s.entry.generation = s.deeds.countP Deed.changes
  known : ∀ t ∈ s.tasks, t.spawned ≤ s.deeds.length
  tasks : ∀ t ∈ s.tasks, t.timer.generation = (s.deeds.take t.spawned).countP Deed.changes

namespace Counted

variable {s : EntryState}

lemma start : start.Counted where
  sound := Entry.sound_new
  entry := rfl
  known _ ht := absurd ht List.not_mem_nil
  tasks _ ht := absurd ht List.not_mem_nil

lemma mem_spawn {e : Entry} {t : Task} (ht : t ∈ s.spawn e) :
    e.timer = some t.timer ∧ t.spawned = s.deeds.length + 1 := by
  simp only [spawn] at ht
  split at ht
  · cases ht
  · obtain ⟨timer, htimer, rfl⟩ := Option.map_eq_some_iff.mp (Option.mem_toList.mp ht)
    exact ⟨htimer, rfl⟩

/-- What happens next keeps the count. -/
lemma snoc (h : s.Counted) {e : Entry} {tasks : List Task} {d : Deed} (sound : e.Sound)
    (generation : e.generation = s.entry.generation + if d.changes then 1 else 0)
    (ht : ∀ t ∈ tasks, t ∈ s.tasks ∨ t ∈ s.spawn e) :
    Counted { s with entry := e, tasks, deeds := s.deeds ++ [d] } := by
  have count : e.generation = (s.deeds ++ [d]).countP Deed.changes := by
    rw [generation, h.entry, List.countP_append, List.countP_singleton]
  constructor
  · exact sound
  · exact count
  · intro t hm
    simp only [List.length_append, List.length_singleton]
    rcases ht t hm with hm | hm
    · exact Nat.le_succ_of_le (h.known t hm)
    · exact Nat.le_of_eq (mem_spawn hm).2
  · intro t hm
    -- a task that is spawned now knows all deeds, this one included
    rcases ht t hm with hm | hm
    · rw [List.take_append_of_le_length (h.known t hm)]
      exact h.tasks t hm
    · obtain ⟨htimer, hspawned⟩ := mem_spawn hm
      rw [List.take_of_length_le (by simp [hspawned]), ← count]
      exact sound.generation_timer htimer

lemma step (h : s.Counted) (ttl : Nat) (move : EntryMove) : (s.step ttl move).Counted := by
  cases move with
  | act action =>
    apply h.snoc (h.sound.act _ action) (h.sound.generation_act _ action)
    intro t ht
    exact List.mem_append.mp ht
  | fire t =>
    simp only [EntryState.step, fire]
    split
    · apply h.snoc (h.sound.expire _)
      · simpa [Deed.changes] using s.entry.generation_expire t.timer.generation
      · intro u hu
        exact .inl (List.mem_of_mem_erase hu)
    · exact h
  | wait ms => exact ⟨h.sound, h.entry, h.known, h.tasks⟩

lemma run (h : s.Counted) (ttl : Nat) (moves : List EntryMove) : (s.run ttl moves).Counted := by
  induction moves generalizing s with
  | nil => exact h
  | cons move moves ih => exact ih (h.step ttl move)

/-- A task has the generation of the entry just if nothing has changed since it was spawned. -/
lemma generation_eq_iff (h : s.Counted) {t : Task} (ht : t ∈ s.tasks) :
    s.entry.generation = t.timer.generation ↔
      ∀ d ∈ s.deeds.drop t.spawned, d.changes = false := by
  have hsplit : s.deeds.countP Deed.changes =
      (s.deeds.take t.spawned).countP Deed.changes +
        (s.deeds.drop t.spawned).countP Deed.changes := by
    rw [← List.countP_append, List.take_append_drop]
  rw [h.entry, h.tasks t ht, hsplit, Nat.add_eq_left, List.countP_eq_zero]
  simp

end Counted

end EntryState

/-- Timers spare later cycles. Whatever is done to an entry, and whenever tasks go off whose sleep
is over, a task resets the entry just if nobody has acquired, stored to or released it and no task
has reset it since the task was spawned. Otherwise the task leaves the entry as it was. The
generation is the number of these changes, so that one of 64 bits does as long as there are fewer of
them. -/
theorem run_spares_later_cycles (ttl : Nat) (moves : List EntryMove) :
    let s := EntryState.start.run ttl moves
    s.entry.generation = s.deeds.countP Deed.changes ∧
    ∀ t ∈ s.tasks, t.timer.due ≤ s.now →
      ((∃ d ∈ s.deeds.drop t.spawned, d.changes = true) →
        (s.step ttl (.fire t)).entry = s.entry) ∧
      ((∀ d ∈ s.deeds.drop t.spawned, d.changes = false) →
        (s.step ttl (.fire t)).entry = s.entry.reset) := by
  intro s
  have counted : s.Counted := EntryState.Counted.start.run ttl moves
  refine ⟨counted.entry, ?_⟩
  intro t ht due
  have hfire : (s.step ttl (.fire t)).entry = s.entry.expire t.timer.generation := by
    simp only [EntryState.step, EntryState.fire, if_pos (And.intro ht due)]
  rw [hfire]
  constructor
  · -- a change since the task was spawned has raised the generation
    rintro ⟨d, hd, hc⟩
    apply Entry.expire_of_ne
    intro same
    have hn := (counted.generation_eq_iff ht).mp same d hd
    rw [hc] at hn
    cases hn
  · intro quiet
    exact Entry.expire_of_eq ((counted.generation_eq_iff ht).mpr quiet)

/-- An entry is released and acquired anew, and then the sleep of both tasks is over. -/
def reacquisition : List EntryMove :=
  [.act (.acquire ⟨1⟩), .act (.release ⟨1⟩), .act (.acquire ⟨2⟩), .act .peek, .wait 5]

theorem run_spares_later_cycles_reacquired :
    let s := EntryState.start.run 5 reacquisition
    let old : Task := ⟨⟨1, 5⟩, 1⟩
    let new : Task := ⟨⟨3, 5⟩, 3⟩
    (old ∈ s.tasks ∧ old.timer.due ≤ s.now ∧
      (∃ d ∈ s.deeds.drop old.spawned, d.changes = true) ∧
      (s.step 5 (.fire old)).entry = s.entry) ∧
    (new ∈ s.tasks ∧ new.timer.due ≤ s.now ∧
      (∀ d ∈ s.deeds.drop new.spawned, d.changes = false) ∧
      (s.step 5 (.fire new)).entry = s.entry.reset) := by
  intro s old new
  have h := (run_spares_later_cycles 5 reacquisition).2
  have hold : old ∈ s.tasks := by decide
  have hnew : new ∈ s.tasks := by decide
  have changed : ∃ d ∈ s.deeds.drop old.spawned, d.changes = true := by decide
  have quiet : ∀ d ∈ s.deeds.drop new.spawned, d.changes = false := by decide
  refine ⟨⟨hold, by decide, changed, ?_⟩, ⟨hnew, by decide, quiet, ?_⟩⟩
  · exact (h old hold (by decide)).1 changed
  · exact (h new hnew (by decide)).2 quiet

end OnceProxy
