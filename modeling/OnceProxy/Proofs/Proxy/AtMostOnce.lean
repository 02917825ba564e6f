import OnceProxy.Proofs.Proxy.Turns

/-!
# At most one call in a cycle

A call is started only by a request that has just acquired its key, so that between two calls for a
key the lease of the first one was ended. A request that was refused never starts a call.
-/

namespace OnceProxy

/-- The leases with which calls for a key were started. -/
def callLeases (key : IdempotencyKey) (log : List Sign) : List Lease :=
  log.flatMap fun
    | .called _ _ k lease _ => if k = key then [lease] else []
    | _ => []

namespace Sign

/-- A request was refused its key. -/
def Refuses (i : Nat) (s : Sign) : Prop :=
  ∃ time key lease, s = .event ⟨time, key, .answered i (.acquire lease) (.acquired false)⟩

/-- A request has started a call. -/
def CalledBy (i : Nat) (s : Sign) : Prop :=
  ∃ time key lease call, s = .called time i key lease call

end Sign

section

variable {c : Config} {o : Origin} {now i : Nat} {calls calls' : List OriginCall} {job : Job}
  {course course' : Course} {action : Action} {answer : Answer} {signs : List Sign}
  {stage stage' : Stage}

/-- Only a request that is granted its key starts a call, and it does so at once. -/
lemma Turn.leads_or (h : Turn c o now i calls job course action answer course' signs calls') :
    (∃ lease, action = .acquire lease ∧ answer = .acquired true ∧
      signs = [.called now i job.key lease job.call]) ∨
    (Event.granted? ⟨now, job.key, .answered i action answer⟩ = none ∧
      ∀ j, ∀ s ∈ signs, ¬ s.CalledBy j) := by
  cases h with
  | leads lease => exact .inl ⟨lease, rfl, rfl, rfl⟩
  | follows | rests | loses | clears => exact .inr ⟨rfl, by simp⟩
  | replays | misses | stores | releases => exact .inr ⟨rfl, by simp [Sign.CalledBy]⟩

lemma Turn.arrived (h : Turn c o now i calls job course action answer course' signs calls')
    {lease : Lease} (ha : action = .acquire lease) : course = .serving .arrived := by
  cases h <;> first | rfl | cases ha

lemma Turn.tells (h : Turn c o now i calls job course action answer course' signs calls') {x : Sign}
    (hx : x ∈ Sign.event ⟨now, job.key, .answered i action answer⟩ :: signs) (j : Nat) :
    (x.Refuses j → j = i ∧ (∃ lease, action = .acquire lease) ∧ answer = .acquired false) ∧
      (x.CalledBy j → j = i ∧ (∃ lease, action = .acquire lease) ∧ answer = .acquired true) := by
  rcases List.mem_cons.mp hx with rfl | hs
  · refine ⟨?_, by simp [Sign.CalledBy]⟩
    rintro ⟨time, key, lease, he⟩
    cases he
    exact ⟨rfl, ⟨lease, rfl⟩, rfl⟩
  · constructor
    · rintro ⟨time, key, lease, rfl⟩
      have he := Sign.mem_events.mpr hs
      rw [h.events_eq] at he
      cases he
    · rintro ⟨time, key, lease, call, rfl⟩
      rcases h.leads_or with ⟨own, rfl, rfl, rfl⟩ | ⟨-, hn⟩
      · cases List.mem_singleton.mp hs
        exact ⟨rfl, ⟨lease, rfl⟩, rfl⟩
      · exact absurd ⟨time, key, lease, call, rfl⟩ (hn j _ hs)

lemma Turn.not_arrived (h : Turn c o now i calls job course action answer course' signs calls') :
    course' ≠ .serving .arrived := by
  cases h <;> simp

lemma Pace.not_arrived (h : Pace c now i job stage stage' signs) : stage' ≠ .arrived := by
  cases h <;> simp

lemma Pace.not_refused (h : Pace c now i job stage stage' signs) (j : Nat) :
    ∀ s ∈ signs, ¬ s.Refuses j := by
  cases h <;> simp [Sign.Refuses]

lemma Pace.not_called (h : Pace c now i job stage stage' signs) (j : Nat) :
    ∀ s ∈ signs, ¬ s.CalledBy j := by
  cases h <;> simp [Sign.CalledBy]

end

namespace ProxyState

/-! ### Calls and grants -/

/-- A call that is started at once by the request that was granted the key. -/
def StartsCall (granted called : Sign) : Prop :=
  ∃ time i key lease call, called = .called time i key lease call ∧
    granted = .event ⟨time, key, .answered i (.acquire lease) (.acquired true)⟩

/-- Every call was started at once by the request that was granted the key. -/
def CallsAreGranted : List Sign → Prop :=
  Preceded (fun x => ∃ i, x.CalledBy i) StartsCall

lemma callsAreGranted_step {s t : ProxyState} {move : ProxyMove} (h : CallsAreGranted s.log)
    (change : s.Change move t) :
    CallsAreGranted t.log := by
  have event (e : Event) : ¬ ∃ i, (Sign.event e).CalledBy i := by simp [Sign.CalledBy]
  cases change with
  | quiet arrivals events _ _ _ hl =>
    rw [hl]
    apply h.append
    apply Preceded.of_not
    intro x hx
    obtain ⟨e, -, rfl⟩ := List.mem_map.mp hx
    exact event e
  | heard i job course course' action answer signs _ turn _ hl =>
    rw [hl]
    -- only a turn that grants the lease starts a call, and its event stands right before
    rcases turn.leads_or with ⟨lease, rfl, rfl, rfl⟩ | ⟨-, hn⟩
    · exact h.append (.pair (event _) ⟨_, i, job.key, lease, job.call, rfl, rfl⟩)
    · apply h.append
      apply Preceded.of_not
      intro x hx
      rcases List.mem_cons.mp hx with rfl | hx
      · exact event _
      · exact fun ⟨j, hj⟩ => hn j x hx hj
  | went i job stage stage' signs _ pace _ _ hl =>
    rw [hl]
    exact h.append (.of_not fun x hx ⟨j, hj⟩ => pace.not_called j x hx hj)
  | dropped i job stage _ _ _ hl =>
    rw [hl]
    exact h

/-- As many calls are started for a key as leases are granted for it. -/
lemma callLeases_step {key : IdempotencyKey} {s t : ProxyState} {move : ProxyMove}
    (h : callLeases key s.log = grants key s.entries.log) (change : s.Change move t) :
    callLeases key t.log = grants key t.entries.log := by
  have append (signs : List Sign) :
      callLeases key (s.log ++ signs) = callLeases key s.log ++ callLeases key signs :=
    List.flatMap_append
  -- signs among which no call starts have no leases of calls
  have none {signs : List Sign} (hs : ∀ j, ∀ s ∈ signs, ¬ s.CalledBy j) :
      callLeases key signs = [] := by
    apply List.flatMap_eq_nil_iff.mpr
    intro x hx
    cases x with
    | event => rfl
    | called time j k lease call => exact absurd ⟨time, k, lease, call, rfl⟩ (hs j _ hx)
    | responded => rfl
  cases change with
  | quiet arrivals events expired _ _ hl he =>
    -- timers end leases, and grant none
    have hg : grants key events = [] := by
      apply List.flatMap_eq_nil_iff.mpr
      intro e hm
      obtain ⟨lease, hw⟩ := expired e hm
      simp [Event.granted?, hw]
    have hc : callLeases key (events.map .event) = [] := by
      apply none
      intro j x hx
      obtain ⟨e, -, rfl⟩ := List.mem_map.mp hx
      simp [Sign.CalledBy]
    rw [hl, he, append, h, hc, grants, grants, List.flatMap_append]
    exact congrArg _ hg.symm
  | heard i job course course' action answer signs _ turn _ hl he =>
    rw [hl, he, append, grants_snoc, h]
    rcases turn.leads_or with ⟨lease, rfl, rfl, rfl⟩ | ⟨hg, hn⟩
    · simp [callLeases, Event.granted?]
    · rw [hg, none]
      · simp
      · intro j x hx
        rcases List.mem_cons.mp hx with rfl | hx
        · simp [Sign.CalledBy]
        · exact hn j x hx
  | went i job stage stage' signs _ pace _ _ hl he =>
    rw [hl, he, append, h, none pace.not_called, List.append_nil]
  | dropped i job stage _ _ _ hl he => rw [hl, he, h]

/-! ### Requests that were refused -/

/-- A request that has heard whether it gets its key has left its first stage, and if it was refused
it has started no call. -/
structure Apart (s : ProxyState) : Prop where
  heard : ∀ i, (∃ x ∈ s.log, x.Refuses i ∨ x.CalledBy i) →
    ∃ v, s.visitors[i]? = some v ∧ v.course ≠ .serving .arrived
  apart : ∀ i, (∃ x ∈ s.log, x.Refuses i) → ¬ ∃ x ∈ s.log, x.CalledBy i

namespace Apart

variable {s t : ProxyState} {move : ProxyMove}

/-- Nothing is added that tells whether a request got its key. -/
lemma of_append (h : s.Apart) {signs : List Sign} (hl : t.log = s.log ++ signs)
    (hs : ∀ x ∈ signs, ∀ i, ¬ x.Refuses i ∧ ¬ x.CalledBy i)
    (hv : ∀ (i : Nat) (v : Visitor), s.visitors[i]? = some v → v.course ≠ .serving .arrived →
      ∃ w, t.visitors[i]? = some w ∧ w.course ≠ .serving .arrived) : t.Apart where
  heard := by
    rintro i ⟨x, hx, hi⟩
    rw [hl] at hx
    rcases List.mem_append.mp hx with hx | hx
    · -- what has been heard before was heard by a request that is no longer new
      obtain ⟨v, hv', hc⟩ := h.heard i ⟨x, hx, hi⟩
      exact hv i v hv' hc
    · rcases hi with hi | hi
      · exact absurd hi (hs x hx i).1
      · exact absurd hi (hs x hx i).2
  apart := by
    rintro i ⟨x, hx, hr⟩ ⟨y, hy, hc⟩
    rw [hl] at hx hy
    rcases List.mem_append.mp hx with hx | hx
    · rcases List.mem_append.mp hy with hy | hy
      · exact h.apart i ⟨x, hx, hr⟩ ⟨y, hy, hc⟩
      · exact (hs y hy i).2 hc
    · exact (hs x hx i).1 hr

lemma step (h : s.Apart) (change : s.Change move t) : t.Apart := by
  have set {i : Nat} {w : Visitor} (hw : w.course ≠ .serving .arrived) (j : Nat) (v : Visitor)
      (hj : s.visitors[j]? = some v) (hv : v.course ≠ .serving .arrived) :
      ∃ u, (s.visitors.set i w)[j]? = some u ∧ u.course ≠ .serving .arrived := by
    by_cases hij : i = j
    · subst hij
      exact ⟨w, by rw [List.getElem?_set_self (List.getElem?_eq_some_iff.mp hj).1], hw⟩
    · exact ⟨v, by rw [List.getElem?_set_ne hij, hj], hv⟩
  cases change with
  | quiet arrivals events expired hv _ hl =>
    refine h.of_append hl (fun x hx i => ?_) fun i v hi hc => ⟨v, ?_, hc⟩
    · obtain ⟨e, he, rfl⟩ := List.mem_map.mp hx
      obtain ⟨lease, hw⟩ := expired e he
      refine ⟨?_, by simp [Sign.CalledBy]⟩
      rintro ⟨time, key, own, he⟩
      cases he
      cases hw
    · rw [hv, List.getElem?_append_left (List.getElem?_eq_some_iff.mp hi).1, hi]
  | heard i job course course' action answer signs hi turn hv hl =>
    have hset := set (i := i) (w := ⟨job, course'⟩) turn.not_arrived
    rw [← hv] at hset
    -- a request that hears whether it gets its key has not heard it before
    have first {lease : Lease} (ha : action = .acquire lease) (x : Sign) (hx : x ∈ s.log) :
        ¬ (x.Refuses i ∨ x.CalledBy i) := by
      intro hr
      obtain ⟨v, hv, hc⟩ := h.heard i ⟨x, hx, hr⟩
      rw [hi] at hv
      cases hv
      exact hc (turn.arrived ha)
    constructor
    · rintro j ⟨x, hx, hj⟩
      rw [hl] at hx
      rcases List.mem_append.mp hx with hx | hx
      · obtain ⟨v, hv, hc⟩ := h.heard j ⟨x, hx, hj⟩
        exact hset j v hv hc
      · obtain rfl : j = i := by
          rcases hj with hj | hj
          · exact ((turn.tells hx j).1 hj).1
          · exact ((turn.tells hx j).2 hj).1
        refine ⟨⟨job, course'⟩, ?_, turn.not_arrived⟩
        rw [hv, List.getElem?_set_self (List.getElem?_eq_some_iff.mp hi).1]
    · rintro j ⟨x, hx, hr⟩ ⟨y, hy, hc⟩
      rw [hl] at hx hy
      rcases List.mem_append.mp hx with hxs | hxt
      · rcases List.mem_append.mp hy with hys | hyt
        · exact h.apart j ⟨x, hxs, hr⟩ ⟨y, hys, hc⟩
        · obtain ⟨rfl, ⟨lease, ha⟩, -⟩ := (turn.tells hyt j).2 hc
          exact first ha x hxs (.inl hr)
      · obtain ⟨rfl, ⟨lease, ha⟩, hf⟩ := (turn.tells hxt j).1 hr
        rcases List.mem_append.mp hy with hys | hyt
        · exact first ha y hys (.inr hc)
        · obtain ⟨-, -, ht⟩ := (turn.tells hyt j).2 hc
          rw [hf] at ht
          cases ht
  | went i job stage stage' signs hi pace hv _ hl =>
    have hset := set (i := i) (w := ⟨job, .serving stage'⟩) (by simpa using pace.not_arrived)
    rw [← hv] at hset
    exact h.of_append hl (fun x hx j => ⟨pace.not_refused j x hx, pace.not_called j x hx⟩) hset
  | dropped i job stage hi hv _ hl =>
    have hset := set (i := i) (w := ⟨job, .dropped stage⟩)
      (Course.dropped_ne_serving stage .arrived)
    rw [← hv] at hset
    exact h.of_append (hl.trans (List.append_nil _).symm) (fun x hx => absurd hx List.not_mem_nil)
      hset

end Apart

lemma Apart.start (config : Config) (origin : Origin) : (start config origin).Apart where
  heard _ := by
    rintro ⟨x, hx, -⟩
    exact absurd hx List.not_mem_nil
  apart _ := by
    rintro ⟨x, hx, -⟩
    exact absurd hx List.not_mem_nil

/-! ### Every run -/

/-- What has been shown of every move, of every run. -/
lemma run_calls (config : Config) (origin : Origin) (moves : List ProxyMove) :
    let s := (start config origin).run moves
    s.Valid ∧ CallsAreGranted s.log ∧ (∀ key, callLeases key s.log = grants key s.entries.log) ∧
      s.Apart := by
  refine run_induction (P := fun s => CallsAreGranted s.log ∧
    (∀ key, callLeases key s.log = grants key s.entries.log) ∧ s.Apart) (.start config origin)
    ⟨.of_not fun x hx => absurd hx List.not_mem_nil, fun key => rfl, .start config origin⟩ ?_ moves
  · rintro t move valid ⟨granted, count, apart⟩
    have change := (valid.linked.step move).2
    exact ⟨callsAreGranted_step granted change, fun key => callLeases_step (count key) change,
      apart.step change⟩

end ProxyState

/-- At most one call in a cycle. In every run of a proxy, between two calls for a key the lease with
which the first one was started was ended, by a release or because its time was over. So there is at
most one call more than the entry of the key was reset, and a request that was refused its key never
starts a call. -/
theorem run_calls_once_per_cycle (config : Config) (origin : Origin) (moves : List ProxyMove) :
    let s := (ProxyState.start config origin).run moves
    (∀ a b c key time i lease call time' i' lease' call',
      s.log = a ++ .called time i key lease call :: b ++ .called time' i' key lease' call' :: c →
      ∃ e, .event e ∈ b ∧ e.key = key ∧ e.ended? = some lease) ∧
    (∀ key, (callLeases key s.log).length ≤
      1 + (ends key (s.log.filterMap Sign.event?)).length) ∧
    (∀ i, (∃ x ∈ s.log, x.Refuses i) → ¬ ∃ x ∈ s.log, x.CalledBy i) ∧
    s.log.filterMap Sign.call? = s.calls := by
  intro s
  obtain ⟨valid, granted, count, apart⟩ := ProxyState.run_calls config origin moves
  have legal := valid.entries.legal
  refine ⟨?_, ?_, apart.apart, valid.calls⟩
  · intro a b c key time i lease call time' i' lease' call' he
    -- right before each of the two calls the key is granted to the caller
    obtain ⟨a', _, rfl, ⟨_, _, _, _, _, hc, rfl⟩⟩ :=
      granted a _ _ (he.trans (List.append_assoc ..)) ⟨i, time, key, lease, call, rfl⟩
    cases hc
    rw [he] at granted
    obtain ⟨b', _, rfl, ⟨_, _, _, _, _, hc, rfl⟩⟩ :=
      granted.after ⟨i', time', key, lease', call', rfl⟩ (by simp [ProxyState.StartsCall])
    cases hc
    -- in the log of the entries the two grants have an end of the first lease between them
    have he' := congrArg (List.filterMap Sign.event?) he
    simp only [List.filterMap_append, List.filterMap_cons, Sign.event?, List.append_assoc,
      List.cons_append, List.nil_append] at he'
    rw [valid.events] at he'
    rw [he', ← List.cons_append, ← List.append_assoc] at legal
    obtain ⟨e, hm, hk, hend⟩ := legal.ended_between rfl rfl rfl rfl
    exact ⟨e, List.mem_append_left _ (Sign.mem_events.mp hm), hk, hend⟩
  · intro key
    rw [valid.events, count key, legal.length_grants, Nat.add_comm]
    apply Nat.add_le_add_right
    -- as many calls as grants, and as many grants as ends, but for one that is held
    cases (cycleOf _ key _).lease? with
    | none => exact Nat.zero_le 1
    | some lease => exact Nat.le_refl 1

/-- Two requests with one key, of which the first fails before the second one gets a turn. -/
def relay : ProxyState :=
  let job : Job := ⟨⟨"", "", ""⟩, ⟨"", "", .empty, []⟩, "", "", false⟩
  (ProxyState.start ⟨"", 0, 9, 1, 5, 0, none, [], ⟨[], []⟩, [], []⟩ fun _ _ => ⟨0, .error ""⟩).run
    [.arrive job, .arrive job, .call 0, .lookUp 0, .act 0, .proceed 0, .call 0, .lookUp 0, .act 0,
      .call 1, .lookUp 1, .act 1]

theorem run_calls_once_per_cycle_relay :
    let key : IdempotencyKey := ⟨"", "", ""⟩
    let granted (i : Nat) (lease : Lease) : Sign :=
      .event ⟨0, key, .answered i (.acquire lease) (.acquired true)⟩
    let between : List Sign :=
      [.event ⟨0, key, .answered 0 (.release ⟨1⟩) (.released true)⟩,
        .responded 0 0 key (ProxyError.origin "").render, granted 1 ⟨2⟩]
    relay.log = [granted 0 ⟨1⟩] ++ .called 0 0 key ⟨1⟩ ⟨"", "", .empty, []⟩ :: between ++
      .called 0 1 key ⟨2⟩ ⟨"", "", .empty, []⟩ :: [] ∧
    ∃ e, .event e ∈ between ∧ e.key = key ∧ e.ended? = some ⟨1⟩ := by
  intro key granted between
  have he : relay.log = [granted 0 ⟨1⟩] ++ .called 0 0 key ⟨1⟩ ⟨"", "", .empty, []⟩ :: between ++
      .called 0 1 key ⟨2⟩ ⟨"", "", .empty, []⟩ :: [] := by
    decide
  exact ⟨he, (run_calls_once_per_cycle _ _ _).1 _ _ _ _ _ _ _ _ _ _ _ _ he⟩

end OnceProxy
