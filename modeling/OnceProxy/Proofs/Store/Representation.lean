import OnceProxy.Proofs.Store.Timers

/-!
# What the fields of an entry say of one another

Every operation changes some fields of an entry, and whoever sets another timer or resets the entry
tells the task of the timer to stop. That task may end at any time, or go off before it does. Still
the fields always fit together, and an entry that is not empty has one task that can reset it, which
nobody has told to stop.
-/

namespace OnceProxy

/-- An entry with its tasks, and those of them that were told to stop. -/
structure WatchedState extends EntryState where
  told : List Task

/-- What can happen next to an entry whose tasks can be stopped. -/
inductive WatchedMove where
  | act (action : Action)
  | fire (task : Task)
  | stop (task : Task)
  | wait (ms : Nat)

namespace WatchedState

/-- An entry that nothing has happened to. -/
def start : WatchedState := ⟨.start, []⟩

/-- The tasks that are told to stop when the entry becomes another one: those of the timer that is
taken away. -/
def dismissed (s : WatchedState) (e : Entry) : List Task :=
  if e.timer = s.entry.timer then [] else s.tasks.filter fun t => s.entry.timer = some t.timer

/-- Makes a move. A task that goes off tells nobody to stop, and only those stop that were told to.
Moves that are not possible change nothing. -/
def step (ttl : Nat) (s : WatchedState) : WatchedMove → WatchedState
  | .act action =>
    let t := s.toEntryState.act ttl action
    { t with told := s.told ++ s.dismissed t.entry }
  | .fire task => { s.toEntryState.fire task with told := s.told }
  | .stop task => if task ∈ s.told then { s with tasks := s.tasks.erase task } else s
  | .wait ms => { s with now := s.now + ms }

/-- Makes moves one after the other. -/
def run (ttl : Nat) (s : WatchedState) (moves : List WatchedMove) : WatchedState :=
  moves.foldl (step ttl) s

end WatchedState

/-! ### Fields of sound entries -/

namespace Entry.Sound

variable {e : Entry}

lemma phase_eq_empty_iff (h : e.Sound) : e.phase = .empty ↔ e.lease = none := by
  cases h <;> simp

lemma lease_eq_none_iff (h : e.Sound) : e.lease = none ↔ e.timer = none := by
  cases h <;> simp

lemma isSome_value_iff (h : e.Sound) : e.value.isSome ↔ e.phase = .ready := by
  cases h <;> simp

lemma peek_of_ready (h : e.Sound) (ready : e.phase = .ready) :
    ∃ value, e.peek = .ok (some value) := by
  cases h with
  | empty => cases ready
  | pending => cases ready
  | ready lease value => exact ⟨value, rfl⟩

end Entry.Sound

/-! ### Tasks -/

/-- Of the tasks of an entry none but the last can be that of its timer. The others are of earlier
generations. -/
def Arranged (e : Entry) (tasks : List Task) : Prop :=
  ∃ old current, tasks = old ++ current ∧ current.map (·.timer) = e.timer.toList ∧
    ∀ t ∈ old, t.timer.generation < e.generation

namespace Arranged

variable {e : Entry} {tasks : List Task} {t : Task}

lemma earlier_or_timer (h : Arranged e tasks) (ht : t ∈ tasks) :
    t.timer.generation < e.generation ∨ e.timer = some t.timer := by
  obtain ⟨old, current, rfl, timers, earlier⟩ := h
  rcases List.mem_append.mp ht with ht | ht
  · exact .inl (earlier t ht)
  · have := List.mem_map_of_mem (f := (·.timer)) ht
    rw [timers] at this
    exact .inr (Option.mem_toList.mp this)

lemma generation_le (h : Arranged e tasks) (sound : e.Sound) (ht : t ∈ tasks) :
    t.timer.generation ≤ e.generation := by
  rcases h.earlier_or_timer ht with earlier | timer
  · exact Nat.le_of_lt earlier
  · exact Nat.le_of_eq (sound.generation_timer timer)

/-- The task of the timer stays when another one ends. -/
lemma erase (h : Arranged e tasks) (sound : e.Sound) (earlier : t.timer.generation < e.generation) :
    Arranged e (tasks.erase t) := by
  obtain ⟨old, current, rfl, timers, older⟩ := h
  have absent : t ∉ current := by
    intro ht
    have := List.mem_map_of_mem (f := (·.timer)) ht
    rw [timers] at this
    have := sound.generation_timer (Option.mem_toList.mp this)
    omega
  refine ⟨old.erase t, current, ?_, timers, fun u hu => older u (List.mem_of_mem_erase hu)⟩
  rw [List.erase_append]
  split
  · rfl
  · rename_i absent'
    rw [List.erase_of_not_mem absent, List.erase_of_not_mem absent']

/-- All other tasks than that of the timer are of earlier generations. -/
lemma exists_task (h : Arranged e tasks) {timer : Timer} (ht : e.timer = some timer) :
    ∃ t ∈ tasks, t.timer = timer ∧ ∀ u ∈ tasks.erase t, u.timer.generation < e.generation := by
  obtain ⟨old, current, rfl, timers, earlier⟩ := h
  rw [ht, Option.toList_some] at timers
  obtain ⟨t, rfl, rfl⟩ := List.map_eq_singleton_iff.mp timers
  have others : ((old ++ [t]).erase t).Perm old := by
    simpa using (List.perm_append_singleton t old).erase t
  exact ⟨t, by simp, rfl, fun u hu => earlier u (others.mem_iff.mp hu)⟩

/-- An entry that gets a new timer gets a task for it. -/
lemma append_spawn {s : EntryState} (h : Arranged s.entry s.tasks) (sound : s.entry.Sound)
    (sound' : e.Sound) (later : s.entry.generation < e.generation) :
    Arranged e (s.tasks ++ s.spawn e) := by
  refine ⟨s.tasks, s.spawn e, rfl, ?_, fun t ht => ?_⟩
  · cases ht : e.timer with
    | none => simp [EntryState.spawn, ht]
    | some timer =>
      have fresh : s.entry.timer ≠ some timer := by
        intro ht'
        have := sound.generation_timer ht'
        have := sound'.generation_timer ht
        omega
      simp [EntryState.spawn, ht, fresh.symm]
  · exact Nat.lt_of_le_of_lt (h.generation_le sound ht) later

/-- A task that goes off resets the entry and leaves it without a timer, or is of an earlier
generation. -/
lemma expire (h : Arranged e tasks) (sound : e.Sound) (ht : t ∈ tasks) :
    Arranged (e.expire t.timer.generation) (tasks.erase t) := by
  by_cases same : e.generation = t.timer.generation
  · rw [Entry.expire_of_eq same]
    refine ⟨tasks.erase t, [], (List.append_nil _).symm, rfl, fun u hu => ?_⟩
    exact Nat.lt_succ_of_le (h.generation_le sound (List.mem_of_mem_erase hu))
  · rw [Entry.expire_of_ne same]
    exact h.erase sound (Nat.lt_of_le_of_ne (h.generation_le sound ht) (Ne.symm same))

end Arranged

namespace WatchedState

/-- What ties an entry to its tasks. Whoever is told to stop is of an earlier generation. -/
structure Tended (s : WatchedState) : Prop where
  counted : s.Counted
  tasks : Arranged s.entry s.tasks
  told : ∀ t ∈ s.told, t.timer.generation < s.entry.generation

namespace Tended

variable {s : WatchedState}

lemma start : start.Tended where
  counted := .start
  tasks := ⟨[], [], rfl, rfl, List.forall_mem_nil _⟩
  told := List.forall_mem_nil _

/-- An action leaves the entry alone, or all tasks of before are of earlier generations. -/
lemma act (h : s.Tended) (ttl : Nat) (action : Action) : (s.step ttl (.act action)).Tended := by
  have sound := h.counted.sound
  refine ⟨h.counted.step ttl (.act action), ?_, ?_⟩
  · change Arranged (s.entry.act (s.now + ttl) action).2 (s.tasks ++ s.spawn _)
    -- an action that changes the entry makes all tasks that were spawned before obsolete
    rcases sound.act_eq_or_lt (s.now + ttl) action with same | later
    · rw [same]
      simpa [EntryState.spawn] using h.tasks
    · exact h.tasks.append_spawn sound (sound.act _ action) later
  · change ∀ t ∈ s.told ++ s.dismissed (s.entry.act (s.now + ttl) action).2,
      t.timer.generation < (s.entry.act (s.now + ttl) action).2.generation
    rcases sound.act_eq_or_lt (s.now + ttl) action with same | later
    · rw [same]
      simpa [dismissed] using h.told
    · intro t ht
      rcases List.mem_append.mp ht with ht | ht
      · exact Nat.lt_trans (h.told t ht) later
      · have ht : t ∈ s.tasks := by
          simp only [dismissed] at ht
          split at ht
          · cases ht
          · exact (List.mem_filter.mp ht).1
        exact Nat.lt_of_le_of_lt (h.tasks.generation_le sound ht) later

lemma fire (h : s.Tended) (ttl : Nat) (t : Task) : (s.step ttl (.fire t)).Tended := by
  have sound := h.counted.sound
  have counted := h.counted.step ttl (.fire t)
  simp only [step, EntryState.step, EntryState.fire] at counted ⊢
  split at counted
  · rename_i due
    rw [if_pos due]
    refine ⟨counted, h.tasks.expire sound due.1, fun u hu => ?_⟩
    rcases s.entry.expire_eq_or_lt t.timer.generation with same | later
    · rw [same]
      exact h.told u hu
    · exact Nat.lt_trans (h.told u hu) later
  · rename_i due
    rw [if_neg due]
    exact h

lemma stop (h : s.Tended) (ttl : Nat) (t : Task) : (s.step ttl (.stop t)).Tended := by
  simp only [step]
  split
  · rename_i ht
    obtain ⟨sound, entry, known, tasks⟩ := h.counted
    refine ⟨⟨sound, entry, ?_, ?_⟩, h.tasks.erase sound (h.told t ht), h.told⟩
    · exact fun u hu => known u (List.mem_of_mem_erase hu)
    · exact fun u hu => tasks u (List.mem_of_mem_erase hu)
  · exact h

lemma step (h : s.Tended) (ttl : Nat) (move : WatchedMove) : (s.step ttl move).Tended := by
  cases move with
  | act action => exact h.act ttl action
  | fire t => exact h.fire ttl t
  | stop t => exact h.stop ttl t
  | wait ms => exact ⟨h.counted.step ttl (.wait ms), h.tasks, h.told⟩

lemma run (h : s.Tended) (ttl : Nat) (moves : List WatchedMove) : (s.run ttl moves).Tended := by
  induction moves generalizing s with
  | nil => exact h
  | cons move moves ih => exact ih (h.step ttl move)

end Tended

/-- What becomes of the entry if a task goes off after some time. -/
lemma entry_wait_fire (ttl : Nat) (s : WatchedState) (t : Task) (ms : Nat) :
    (s.run ttl [.wait ms, .fire t]).entry =
      if t ∈ s.tasks ∧ t.timer.due ≤ s.now + ms then s.entry.expire t.timer.generation
      else s.entry := by
  simp only [run, List.foldl_cons, List.foldl_nil, step, EntryState.fire]
  split <;> rfl

/-- The timer of an entry is a task that goes on. -/
lemma Tended.exists_task {s : WatchedState} (h : s.Tended) {timer : Timer}
    (ht : s.entry.timer = some timer) : ∃ t ∈ s.tasks, t.timer = timer ∧ t ∉ s.told ∧
      ∀ u ∈ s.tasks.erase t, u.timer.generation < s.entry.generation := by
  obtain ⟨t, hm, rfl, others⟩ := h.tasks.exists_task ht
  refine ⟨t, hm, rfl, fun told => ?_, others⟩
  have earlier := h.told t told
  rw [h.counted.sound.generation_timer ht] at earlier
  exact Nat.lt_irrefl _ earlier

end WatchedState

/-- The fields of an entry always fit together. Whatever is done to it, and whenever tasks go off or
stop, an entry is empty just if it has no lease, and just if it has no timer; it has a value just if
it is ready, and then this is found. The timer of an entry is a task of its generation that nobody
has told to stop, and all other tasks are of earlier generations. So one task resets the entry when
its time has come, unless it is empty, and no other task ever does. The generation is the number of
changes, so that one of 64 bits does as long as there are fewer of them. -/
theorem run_keeps_fields_together (ttl : Nat) (moves : List WatchedMove) :
    let s := WatchedState.start.run ttl moves
    let e := s.entry
    ((e.phase = .empty ↔ e.lease = none) ∧ (e.lease = none ↔ e.timer = none) ∧
      (e.value.isSome ↔ e.phase = .ready) ∧
      (e.phase = .ready → ∃ value, e.peek = .ok (some value))) ∧
    (∀ timer, e.timer = some timer → timer.generation = e.generation ∧
      ∃ t ∈ s.tasks, t.timer = timer ∧ t ∉ s.told ∧
        ∀ u ∈ s.tasks.erase t, u.timer.generation < e.generation) ∧
    (e.timer = none → ∀ t ∈ s.tasks, t.timer.generation < e.generation) ∧
    (e.phase ≠ .empty → ∃ t ∈ s.tasks, t ∉ s.told ∧
      (∀ ms, t.timer.due ≤ s.now + ms → (s.run ttl [.wait ms, .fire t]).entry = e.reset) ∧
      ∀ u ∈ s.tasks.erase t, ∀ ms, (s.run ttl [.wait ms, .fire u]).entry = e) ∧
    e.generation = s.deeds.countP Deed.changes := by
  intro s e
  have tended : s.Tended := WatchedState.Tended.start.run ttl moves
  have sound : e.Sound := tended.counted.sound
  refine ⟨⟨sound.phase_eq_empty_iff, sound.lease_eq_none_iff, sound.isSome_value_iff,
    sound.peek_of_ready⟩, ?_, ?_, ?_, tended.counted.entry⟩
  · intro timer ht
    exact ⟨sound.generation_timer ht, tended.exists_task ht⟩
  · intro ht t hm
    -- a task is that of the timer, or it is from an earlier generation
    apply (tended.tasks.earlier_or_timer hm).resolve_right
    intro ht'
    rw [ht] at ht'
    cases ht'
  · intro busy
    -- an entry that is not empty has a lease, and so a timer
    have timed : e.timer ≠ none := by
      rwa [Ne, ← sound.lease_eq_none_iff, ← sound.phase_eq_empty_iff]
    obtain ⟨timer, ht⟩ := Option.ne_none_iff_exists'.mp timed
    obtain ⟨t, hm, rfl, going, others⟩ := tended.exists_task ht
    refine ⟨t, hm, going, ?_, ?_⟩
    · intro ms due
      rw [WatchedState.entry_wait_fire, if_pos ⟨hm, due⟩]
      exact Entry.expire_of_eq (sound.generation_timer ht).symm
    · intro u hu ms
      rw [WatchedState.entry_wait_fire]
      split
      · exact Entry.expire_of_ne (Nat.ne_of_gt (others u hu))
      · rfl

/-- An entry is acquired, released, acquired anew and stored to. Then the sleep of all tasks is
over, and one of those that were told to stop has stopped. -/
def handover : List WatchedMove :=
  [.act (.acquire ⟨1⟩), .act (.release ⟨1⟩), .act (.acquire ⟨2⟩), .act (.store ⟨2⟩ [7]), .wait 5,
    .stop ⟨⟨1, 5⟩, 1⟩]

theorem run_keeps_fields_together_handover :
    let s := WatchedState.start.run 5 handover
    let e := s.entry
    let late : Task := ⟨⟨3, 5⟩, 3⟩
    let last : Task := ⟨⟨4, 5⟩, 4⟩
    e.phase = .ready ∧ (∃ value, e.peek = .ok (some value)) ∧ e.phase ≠ .empty ∧
    e.timer = some last.timer ∧ s.tasks = [late, last] ∧ late ∈ s.told ∧ last ∉ s.told ∧
    late.timer.generation < e.generation ∧
    (s.run 5 [.wait 0, .fire late]).entry = e ∧
    (s.run 5 [.wait 0, .fire last]).entry = e.reset := by
  intro s e late last
  obtain ⟨⟨-, -, -, found⟩, timed, -, resets, -⟩ := run_keeps_fields_together 5 handover
  have ready : e.phase = .ready := by decide
  have busy : e.phase ≠ .empty := by decide
  have timer : e.timer = some last.timer := by decide
  have tasks : s.tasks = [late, last] := by decide
  have told : late ∈ s.told := by decide
  obtain ⟨t, ht, going, reset, spare⟩ := resets busy
  obtain rfl : t = last := by
    rw [tasks, List.mem_cons, List.mem_singleton] at ht
    exact ht.resolve_left fun he => going (he ▸ told)
  have other : late ∈ s.tasks.erase last := by decide
  have earlier : late.timer.generation < e.generation := by
    obtain ⟨-, u, hu, hut, -, earlier⟩ := timed last.timer timer
    rw [tasks, List.mem_cons, List.mem_singleton] at hu
    rcases hu with rfl | rfl
    · cases hut
    · exact earlier late other
  exact ⟨ready, found ready, busy, timer, tasks, told, going, earlier, spare late other 0,
    reset 0 (by decide)⟩

end OnceProxy
