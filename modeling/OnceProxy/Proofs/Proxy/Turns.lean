import OnceProxy.Proofs.Proxy.Traffic

/-!
# The turns of a request

What a single move can do: a request hears an answer and makes the step that belongs to it, or it
makes a step of its own, or it is dropped, or no request takes part.
-/

namespace OnceProxy

/-! ### What stands before something -/

/-- A list that is cut at one of its members and ends in another list. -/
lemma split_append {α : Type} {l m a b : List α} {x : α} (h : l ++ m = a ++ x :: b) :
    (∃ b', l = a ++ x :: b') ∨ ∃ a', a = l ++ a' ∧ m = a' ++ x :: b := by
  rcases List.append_eq_append_iff.mp h with ⟨a', rfl, hm⟩ | ⟨c, rfl, hc⟩
  · exact .inr ⟨a', rfl, hm⟩
  · cases c with
    | nil => exact .inr ⟨[], by simp, by simpa using hc.symm⟩
    | cons y c =>
      simp only [List.cons_append, List.cons.injEq] at hc
      exact .inl ⟨c, by rw [hc.1]⟩

/-- What stands in a list of which one member was changed: a member that was not changed, or the
new one. -/
lemma getElem?_set_or {α : Type} {l : List α} {i j : Nat} {v w x : α} (hj : l[j]? = some v)
    (hi : (l.set j w)[i]? = some x) : j ≠ i ∧ l[i]? = some x ∨ j = i ∧ w = x := by
  by_cases hij : j = i
  · subst hij
    rw [List.getElem?_set_self (List.getElem?_eq_some_iff.mp hj).1] at hi
    exact .inr ⟨rfl, by simpa using hi⟩
  · rw [List.getElem?_set_ne hij] at hi
    exact .inl ⟨hij, hi⟩

/-- Right before everything of a kind stands something that is related to it. -/
def Preceded {α : Type} (P : α → Prop) (R : α → α → Prop) (l : List α) : Prop :=
  ∀ a x b, l = a ++ x :: b → P x → ∃ a' y, a = a' ++ [y] ∧ R y x

namespace Preceded

variable {α : Type} {P : α → Prop} {R : α → α → Prop} {l m : List α}

lemma of_not (h : ∀ x ∈ l, ¬ P x) : Preceded P R l := by
  rintro a x b rfl hx
  exact absurd hx (h x (List.mem_append_right a List.mem_cons_self))

lemma pair {x y : α} (hy : ¬ P y) (h : R y x) : Preceded P R [y, x] := by
  intro a z b he hz
  match a with
  | [] =>
    cases he
    exact absurd hz hy
  | [w] =>
    cases he
    exact ⟨[], y, rfl, h⟩
  | w :: w' :: a => simp at he

lemma append (hl : Preceded P R l) (hm : Preceded P R m) : Preceded P R (l ++ m) := by
  intro a x b he hx
  rcases split_append he with ⟨b', hb⟩ | ⟨a', rfl, ha⟩
  · exact hl a x b' hb hx
  · obtain ⟨d, y, rfl, hR⟩ := hm a' x b ha hx
    exact ⟨l ++ d, y, (List.append_assoc ..).symm, hR⟩

/-- What has to stand right before something comes after all that it cannot be. -/
lemma after {a b c : List α} {x y : α} (h : Preceded P R (a ++ y :: b ++ x :: c)) (hx : P x)
    (hy : ¬ R y x) : ∃ b' z, b = b' ++ [z] ∧ R z x := by
  obtain ⟨d, z, hd, hR⟩ := h _ x c rfl hx
  rcases List.eq_nil_or_concat' b with rfl | ⟨b', w, rfl⟩
  · cases (List.append_inj' hd rfl).2
    exact absurd hR hy
  · rw [← List.cons_append, ← List.append_assoc] at hd
    cases (List.append_inj' hd rfl).2
    exact ⟨b', z, rfl, hR⟩

end Preceded

/-! ### What a request wants and what its client does -/

lemma Course.dropped_ne_serving (stage stage' : Stage) : dropped stage ≠ serving stage' := by
  unfold dropped
  split <;> simp

/-- Whether a request wants an action. -/
def Course.Wants (c : Course) : Action → Prop
  | .acquire _ => c = serving .arrived
  | .peek => ∃ left, c = serving (.looking (left + 1))
  | .store lease value => ∃ e, c = serving (.storing lease e) ∧ value = e.encode
  | .release lease => c = clearing lease ∨ ∃ error, c = serving (.releasing lease error)

lemma Course.wants_action {c : Course} {operation : Operation}
    (h : c.operation? = some operation) (lease : Lease) : c.Wants (operation.action lease) := by
  unfold operation? at h
  split at h
  · cases h
    rfl
  · rename_i left
    cases h
    exact ⟨left, rfl⟩
  · rename_i holder envelope
    cases h
    exact ⟨envelope, rfl, rfl⟩
  · rename_i holder error
    cases h
    exact .inr ⟨error, rfl⟩
  · cases h
    exact .inl rfl
  · cases h

/-- Whether a client does what its request wants, for the key of the request. -/
def Client.WorksFor (v : Visitor) : Client → Prop
  | idle => True
  | asking key action => key = v.job.key ∧ v.course.Wants action
  | holding key action _ => key = v.job.key ∧ v.course.Wants action

lemma Client.idle_of_operation {v : Visitor} {c : Client} (works : c.WorksFor v)
    (ho : v.course.operation? = none) : c = .idle := by
  have not_wants (action : Action) : ¬ v.course.Wants action := by
    intro wants
    cases action with
    | acquire => rw [wants] at ho; cases ho
    | peek => obtain ⟨left, h⟩ := wants; rw [h] at ho; cases ho
    | store => obtain ⟨e, h, -⟩ := wants; rw [h] at ho; cases ho
    | release =>
      rcases wants with h | ⟨error, h⟩
      · rw [h] at ho; cases ho
      · rw [h] at ho; cases ho
  cases c with
  | idle => rfl
  | asking key action => exact absurd works.2 (not_wants action)
  | holding key action slot => exact absurd works.2 (not_wants action)

/-! ### What a request makes of an answer -/

/-- What comes after a call: its lease is released, or an envelope of the answer is stored. -/
lemma Stage.afterCall_cases (c : Config) (job : Job) (lease : Lease) (reply : Reply) :
    (∃ error, afterCall c job lease reply = releasing lease error) ∨
      ∃ response e, reply.result = .ok response ∧ job.envelope response = .ok e ∧
        afterCall c job lease reply = storing lease e := by
  unfold afterCall
  split
  · exact .inl ⟨_, rfl⟩
  · split
    · exact .inl ⟨_, rfl⟩
    · rename_i response hr
      split
      · rename_i e he
        exact .inr ⟨response, e, hr, he, rfl⟩
      · exact .inl ⟨_, rfl⟩

/-- The step that a request makes when it hears an answer: the course after it, what can be seen of
it, and the calls that are made then. -/
inductive Turn (c : Config) (o : Origin) (now i : Nat) (calls : List OriginCall) (job : Job) :
    Course → Action → Answer → Course → List Sign → List OriginCall → Prop where
  | leads (lease : Lease) :
    Turn c o now i calls job (.serving .arrived) (.acquire lease) (.acquired true)
      (.serving (.calling lease now (o calls.length job.call)))
      [.called now i job.key lease job.call] (calls ++ [job.call])
  | follows (lease : Lease) :
    Turn c o now i calls job (.serving .arrived) (.acquire lease) (.acquired false)
      (.serving (.looking c.pollAttempts)) [] calls
  | rests (left : Nat) :
    Turn c o now i calls job (.serving (.looking (left + 1))) .peek (.found (.ok none))
      (.serving (.resting left now)) [] calls
  | replays (left : Nat) (value : List UInt8) (e : Envelope) (he : Envelope.decode value = .ok e) :
    Turn c o now i calls job (.serving (.looking (left + 1))) .peek (.found (.ok (some value)))
      (.serving (.ended (.ok e))) [.responded now i job.key e.render] calls
  | misses (left : Nat) (answer : Answer) (error : ProxyError)
    (told : answer = .found (.error error) ∨
      ∃ value, answer = .found (.ok (some value)) ∧ Envelope.decode value = .error error) :
    Turn c o now i calls job (.serving (.looking (left + 1))) .peek answer
      (.serving (.ended (.error error))) [.responded now i job.key error.render] calls
  | stores (lease : Lease) (e : Envelope) :
    Turn c o now i calls job (.serving (.storing lease e)) (.store lease e.encode)
      (.stored (.ok ())) (.serving (.ended (.ok e))) [.responded now i job.key e.render] calls
  | loses (lease : Lease) (e : Envelope) (error : ProxyError) :
    Turn c o now i calls job (.serving (.storing lease e)) (.store lease e.encode)
      (.stored (.error error)) (.serving (.releasing lease error)) [] calls
  | releases (lease : Lease) (error : ProxyError) (answer : Answer) :
    Turn c o now i calls job (.serving (.releasing lease error)) (.release lease) answer
      (.serving (.ended (.error error))) [.responded now i job.key error.render] calls
  | clears (lease : Lease) (answer : Answer) :
    Turn c o now i calls job (.clearing lease) (.release lease) answer .gone [] calls

/-- The step that a request makes on its own: the stage after it and what can be seen of it. -/
inductive Pace (c : Config) (now i : Nat) (job : Job) : Stage → Stage → List Sign → Prop where
  | givesUp :
    Pace c now i job (.looking 0) (.ended (.error .timeout))
      [.responded now i job.key ProxyError.timeout.render]
  | wakes (left since : Nat) : Pace c now i job (.resting left since) (.looking left) []
  | fails (lease : Lease) (since : Nat) (reply : Reply) (error : ProxyError)
    (due : Stage.callEnd c since reply ≤ now)
    (he : Stage.afterCall c job lease reply = .releasing lease error) :
    Pace c now i job (.calling lease since reply) (.releasing lease error) []
  | returns (lease : Lease) (since : Nat) (reply : Reply) (response : OriginResponse)
    (e : Envelope) (due : Stage.callEnd c since reply ≤ now)
    (hr : reply.result = .ok response) (he : job.envelope response = .ok e) :
    Pace c now i job (.calling lease since reply) (.storing lease e) []

section

variable {c : Config} {o : Origin} {now i : Nat} {calls calls' : List OriginCall} {job : Job}
  {course course' : Course} {action : Action} {answer : Answer} {signs : List Sign}
  {stage stage' : Stage}

lemma Turn.events_eq (h : Turn c o now i calls job course action answer course' signs calls') :
    signs.filterMap Sign.event? = [] := by
  cases h <;> rfl

lemma Turn.calls_eq (h : Turn c o now i calls job course action answer course' signs calls') :
    calls' = calls ++ signs.filterMap Sign.call? := by
  cases h with
  | leads => rfl
  | _ => exact (List.append_nil _).symm

lemma Pace.events_eq (h : Pace c now i job stage stage' signs) :
    signs.filterMap Sign.event? = [] := by
  cases h <;> rfl

lemma Pace.calls_eq (h : Pace c now i job stage stage' signs) :
    signs.filterMap Sign.call? = [] := by
  cases h <;> rfl

end

namespace ProxyState

/-- What becomes of a proxy when a request makes a step. -/
def after (s : ProxyState) (i : Nat) (job : Job) (course : Course) (signs : List Sign)
    (calls : List OriginCall) : ProxyState :=
  { s with visitors := s.visitors.set i ⟨job, course⟩, calls, log := s.log ++ signs }

lemma advance_serving {s : ProxyState} {i : Nat} {job : Job} {stage : Stage}
    (hi : s.visitors[i]? = some ⟨job, .serving stage⟩) (b : Backend Unit) :
    s.advance i b =
      let next := stage.step b s.config s.origin s.entries.now job ⟨(), s.calls⟩
      s.after i job (.serving next.1) (Sign.reached s.entries.now i job next.1) next.2.calls := by
  rw [advance, hi]
  rfl

/-- A request that hears an answer to what it wants takes one of its turns. -/
lemma exists_turn {s : ProxyState} {i : Nat} {job : Job} {course : Course} {action : Action}
    {answer : Answer} (hi : s.visitors[i]? = some ⟨job, course⟩) (wants : course.Wants action)
    (suits : answer.Suits action) :
    ∃ course' signs calls,
      Turn s.config s.origin s.entries.now i s.calls job course action answer course' signs calls ∧
        s.advance i (.answering action answer) = s.after i job course' signs calls := by
  -- the course tells what is asked for, and the action what can be answered
  cases action with
  | acquire lease =>
    cases wants
    rw [advance_serving hi]
    cases answer with
    | acquired won =>
      cases won with
      | true => exact ⟨_, _, _, .leads lease, rfl⟩
      | false => exact ⟨_, _, _, .follows lease, rfl⟩
    | found => cases suits
    | stored => cases suits
    | released => cases suits
  | peek =>
    obtain ⟨left, rfl⟩ := wants
    rw [advance_serving hi]
    cases answer with
    | acquired => cases suits
    | found value =>
      cases value with
      | error e => exact ⟨_, _, _, .misses left _ e (.inl rfl), rfl⟩
      | ok value =>
        cases value with
        | none => exact ⟨_, _, _, .rests left, rfl⟩
        | some value =>
          simp only [Stage.step, Backend.answering]
          -- what is found has to be decoded, and that can fail
          cases he : Envelope.decode value with
          | error e => exact ⟨_, _, _, .misses left _ e (.inr ⟨value, rfl, he⟩), rfl⟩
          | ok e => exact ⟨_, _, _, .replays left value e he, rfl⟩
    | stored => cases suits
    | released => cases suits
  | store lease value =>
    obtain ⟨e, rfl, rfl⟩ := wants
    rw [advance_serving hi]
    cases answer with
    | acquired => cases suits
    | found => cases suits
    | stored result =>
      cases result with
      | error error => exact ⟨_, _, _, .loses lease e error, rfl⟩
      | ok => exact ⟨_, _, _, .stores lease e, rfl⟩
    | released => cases suits
  | release lease =>
    rcases wants with rfl | ⟨error, rfl⟩
    · -- the task of a dropped request releases the lease, and goes on with nothing
      refine ⟨_, _, _, .clears lease answer, ?_⟩
      rw [advance, hi, after, List.append_nil]
    · rw [advance_serving hi]
      exact ⟨_, _, _, .releases lease error answer, rfl⟩

/-- A request that goes on by itself moves at its own pace. -/
lemma exists_pace {s : ProxyState} {i : Nat} {job : Job} {stage : Stage}
    (hi : s.visitors[i]? = some ⟨job, .serving stage⟩)
    (ho : (Course.serving stage).operation? = none)
    (hr : stage.isReady s.config s.entries.now = true) (b : Backend Unit) :
    ∃ stage' signs, Pace s.config s.entries.now i job stage stage' signs ∧
      s.advance i b = s.after i job (.serving stage') signs s.calls := by
  rw [advance_serving hi]
  -- without a question to the entries, the stage alone tells what comes next
  match stage with
  | .arrived => cases ho
  | .looking 0 => exact ⟨_, _, .givesUp, rfl⟩
  | .looking (left + 1) => cases ho
  | .resting left since => exact ⟨_, _, .wakes left since, rfl⟩
  | .calling lease since reply =>
    -- the call has returned, or the time for it is over
    have due : Stage.callEnd s.config since reply ≤ s.entries.now := by
      simpa [Stage.isReady, Stage.hasEnded, Stage.due?] using hr
    simp only [Stage.step]
    rcases Stage.afterCall_cases s.config job lease reply with
      ⟨error, he⟩ | ⟨response, e, hr, he, ha⟩
    · rw [he]
      exact ⟨_, _, .fails lease since reply error due he, rfl⟩
    · rw [ha]
      exact ⟨_, _, .returns lease since reply response e due hr he, rfl⟩
  | .storing lease e => cases ho
  | .releasing lease error => cases ho
  | .ended result => simp [Stage.isReady, Stage.hasEnded] at hr

/-! ### What a move does -/

/-- What a move can change: no request takes part, or one hears an answer, goes on by itself or is
dropped. -/
inductive Change (s : ProxyState) (move : ProxyMove) (t : ProxyState) : Prop where
  | quiet (arrivals : List Job) (events : List Event)
    (expired : ∀ e ∈ events, ∃ lease, e.what = .expired lease)
    (hv : t.visitors = s.visitors ++ arrivals.map fun job => ⟨job, .serving .arrived⟩)
    (hc : t.calls = s.calls) (hl : t.log = s.log ++ events.map .event)
    (he : t.entries.log = s.entries.log ++ events)
    (fired : ∀ e ∈ events, ∃ task, move = .fire task)
  | heard (i : Nat) (job : Job) (course course' : Course) (action : Action) (answer : Answer)
    (signs : List Sign) (hi : s.visitors[i]? = some ⟨job, course⟩)
    (turn : Turn s.config s.origin s.entries.now i s.calls job course action answer course' signs
      t.calls)
    (hv : t.visitors = s.visitors.set i ⟨job, course'⟩)
    (hl : t.log = s.log ++ .event ⟨s.entries.now, job.key, .answered i action answer⟩ :: signs)
    (he : t.entries.log =
      s.entries.log ++ [⟨s.entries.now, job.key, .answered i action answer⟩])
  | went (i : Nat) (job : Job) (stage stage' : Stage) (signs : List Sign)
    (hi : s.visitors[i]? = some ⟨job, .serving stage⟩)
    (pace : Pace s.config s.entries.now i job stage stage' signs)
    (hv : t.visitors = s.visitors.set i ⟨job, .serving stage'⟩)
    (hc : t.calls = s.calls) (hl : t.log = s.log ++ signs)
    (he : t.entries.log = s.entries.log)
  | dropped (i : Nat) (job : Job) (stage : Stage)
    (hi : s.visitors[i]? = some ⟨job, .serving stage⟩)
    (hv : t.visitors = s.visitors.set i ⟨job, .dropped stage⟩)
    (hc : t.calls = s.calls) (hl : t.log = s.log) (he : t.entries.log = s.entries.log)
    (hm : move = .drop i)

lemma Change.refl (s : ProxyState) (move : ProxyMove) : s.Change move s :=
  .quiet [] [] (fun _ he => absurd he List.not_mem_nil) (List.append_nil _).symm rfl
    (List.append_nil _).symm (List.append_nil _).symm fun _ he => absurd he List.not_mem_nil

/-- Every request has a client, which works for it. -/
structure Linked (s : ProxyState) : Prop where
  length : s.entries.clients.length = s.visitors.length
  works : ∀ (i : Nat) (v : Visitor) (c : Client), s.visitors[i]? = some v →
    s.entries.clients[i]? = some c → c.WorksFor v

lemma withEntries_of_append {s : ProxyState} {t : StoreState} {events : List Event}
    (h : t.log = s.entries.log ++ events) :
    s.withEntries t = { s with entries := t, log := s.log ++ events.map .event } := by
  rw [withEntries, h, List.drop_left]

namespace Linked

variable {s t : ProxyState} {move : ProxyMove}

lemma start (config : Config) (origin : Origin) : (start config origin).Linked where
  length := rfl
  works _ _ _ hv := by cases hv

/-- Where no client and no request changes, they stay linked. -/
lemma of_eq (h : s.Linked) (hc : t.entries.clients = s.entries.clients)
    (hv : t.visitors = s.visitors) : t.Linked where
  length := by rw [hc, hv, h.length]
  works i v c := by
    rw [hc, hv]
    exact h.works i v c

/-- A client that changes still has to work for its request. -/
lemma set_client (h : s.Linked) {i : Nat} {c : Client}
    (hc : t.entries.clients = s.entries.clients.set i c) (hv : t.visitors = s.visitors)
    (works : ∀ v, s.visitors[i]? = some v → c.WorksFor v) : t.Linked where
  length := by rw [hc, hv, List.length_set, h.length]
  works j v d hj hd := by
    rw [hv] at hj
    rw [hc, List.getElem?_set] at hd
    split at hd
    · rename_i hij
      subst hij
      split at hd
      · cases hd
        exact works v hj
      · cases hd
    · exact h.works j v d hj hd

/-- A request whose client has nothing to do may change. -/
lemma set_visitor (h : s.Linked) {i : Nat} {v : Visitor}
    (hc : t.entries.clients = s.entries.clients)
    (hi : ∀ c, s.entries.clients[i]? = some c → c = .idle)
    (hv : t.visitors = s.visitors.set i v) : t.Linked where
  length := by rw [hc, hv, List.length_set, h.length]
  works j w d hj hd := by
    rw [hc] at hd
    rw [hv, List.getElem?_set] at hj
    split at hj
    · rename_i hij
      subst hij
      rw [hi d hd]
      trivial
    · exact h.works j w d hj hd

/-- A request may change when its client becomes idle. -/
lemma set_both (h : s.Linked) {i : Nat} {v : Visitor}
    (hc : t.entries.clients = s.entries.clients.set i .idle)
    (hv : t.visitors = s.visitors.set i v) : t.Linked where
  length := by rw [hc, hv, List.length_set, List.length_set, h.length]
  works j w d hj hd := by
    rw [hc, List.getElem?_set] at hd
    rw [hv, List.getElem?_set] at hj
    by_cases hij : i = j
    · rw [if_pos hij] at hd
      split at hd
      · cases hd
        trivial
      · cases hd
    · rw [if_neg hij] at hd hj
      exact h.works j w d hj hd

lemma visitor_of_client (h : s.Linked) {i : Nat} {c : Client}
    (hi : s.entries.clients[i]? = some c) : ∃ v, s.visitors[i]? = some v ∧ c.WorksFor v := by
  obtain ⟨hlt, -⟩ := List.getElem?_eq_some_iff.mp hi
  rw [h.length] at hlt
  exact ⟨s.visitors[i], List.getElem?_eq_getElem hlt,
    h.works i _ c (List.getElem?_eq_getElem hlt) hi⟩

/-- A request that wants nothing of the store has a client that is idle. -/
lemma idle_client (h : s.Linked) {i : Nat} {v : Visitor} (hi : s.visitors[i]? = some v)
    (ho : v.course.operation? = none) : s.entries.clients[i]? = some .idle := by
  obtain ⟨hlt, -⟩ := List.getElem?_eq_some_iff.mp hi
  rw [← h.length] at hlt
  have hc := List.getElem?_eq_getElem hlt
  rw [hc, Client.idle_of_operation (h.works i v _ hi hc) ho]

/-- A move that no request takes part in. -/
lemma quiet (h : s.Linked) {e : StoreState} {events : List Event}
    (hc : e.clients = s.entries.clients) (hl : e.log = s.entries.log ++ events)
    (expired : ∀ e ∈ events, ∃ lease, e.what = .expired lease)
    (fired : ∀ e ∈ events, ∃ task, move = .fire task) :
    (s.withEntries e).Linked ∧ s.Change move (s.withEntries e) := by
  rw [withEntries_of_append hl]
  exact ⟨h.of_eq hc rfl, .quiet [] events expired (List.append_nil _).symm rfl rfl hl fired⟩

/-- A move that no request takes part in and by which nothing happens to the entries. -/
lemma silent (h : s.Linked) {e : StoreState} (hc : e.clients = s.entries.clients)
    (hl : e.log = s.entries.log) :
    (s.withEntries e).Linked ∧ s.Change move (s.withEntries e) :=
  h.quiet hc (hl.trans (List.append_nil _).symm) (fun _ he => absurd he List.not_mem_nil)
    fun _ he => absurd he List.not_mem_nil

/-- What a request hears is an answer to what it wants. -/
lemma hear (h : s.Linked) {i : Nat} {e : StoreState} (heard : s.entries.Heard i e) :
    (s.hear i e).Linked ∧ s.Change move (s.hear i e) := by
  cases heard with
  | nothing hn hc hl =>
    have he : s.hear i e = s.withEntries e := by
      rw [ProxyState.hear, hl, List.drop_length]
    rw [he]
    exact h.silent hc hl
  | found key action slot hi hn hc hl =>
    have he : s.hear i e = s.withEntries e := by
      rw [ProxyState.hear, hl, List.drop_length]
    rw [he, withEntries_of_append (hl.trans (List.append_nil _).symm)]
    refine ⟨h.set_client hc rfl fun v hv => ?_,
      .quiet [] [] (fun e he => absurd he List.not_mem_nil) (List.append_nil _).symm rfl rfl
        (hl.trans (List.append_nil _).symm) fun e he => absurd he List.not_mem_nil⟩
    -- the client has found its slot, and still works on the same question
    have works := h.works i v _ hv hi
    exact works
  | answered c key action answer hi hw suits hn hc hl =>
    obtain ⟨⟨job, course⟩, hv, works⟩ := h.visitor_of_client hi
    -- the answer is to the question of the request that the client belongs to
    obtain ⟨rfl, wants⟩ : key = job.key ∧ course.Wants action := by
      rcases hw with rfl | ⟨slot, rfl⟩
      · exact works
      · exact works
    have he : s.hear i e = (s.withEntries e).advance i (.answering action answer) := by
      rw [ProxyState.hear, hl, List.drop_left]
    have hv' : (s.withEntries e).visitors[i]? = some ⟨job, course⟩ := hv
    obtain ⟨course', signs, calls, turn, ht⟩ := exists_turn hv' wants suits
    rw [he, ht]
    have hn' : (s.withEntries e).entries.now = s.entries.now := hn
    rw [hn'] at turn
    refine ⟨h.set_both hc rfl,
      .heard i job course course' action answer signs hv turn rfl ?_ hl⟩
    rw [withEntries_of_append hl]
    exact List.append_assoc ..

lemma arrive (h : s.Linked) (job : Job) :
    (s.arrive job).Linked ∧ s.Change (.arrive job) (s.arrive job) := by
  have hl : (s.entries.step .join).log = s.entries.log ++ [] := (List.append_nil _).symm
  rw [ProxyState.arrive, withEntries_of_append hl]
  refine ⟨⟨?_, fun i v c hv hc => ?_⟩,
    .quiet [job] [] (fun e he => absurd he List.not_mem_nil) rfl rfl rfl hl
      fun e he => absurd he List.not_mem_nil⟩
  · simp [StoreState.step, h.length]
  · have hc : (s.entries.clients ++ [.idle])[i]? = some c := hc
    have hv : (s.visitors ++ [⟨job, .serving .arrived⟩])[i]? = some v := hv
    rw [List.getElem?_append] at hc
    split at hc
    · rename_i hlt
      rw [List.getElem?_append_left (h.length ▸ hlt)] at hv
      exact h.works i v c hv hc
    · rw [List.mem_singleton.mp (List.mem_of_getElem? hc)]
      trivial

lemma call (h : s.Linked) (i : Nat) : (s.call i).Linked ∧ s.Change (.call i) (s.call i) := by
  unfold ProxyState.call
  split
  · exact ⟨h, .refl s _⟩
  · rename_i v hv
    split
    · exact ⟨h, .refl s _⟩
    · rename_i operation ho
      have hl := (s.entries.log_call i v.job.key operation).trans (List.append_nil _).symm
      rw [withEntries_of_append hl]
      refine ⟨?_, .quiet [] [] (fun e he => absurd he List.not_mem_nil) (List.append_nil _).symm rfl
        rfl hl fun e he => absurd he List.not_mem_nil⟩
      rcases s.entries.clients_call i v.job.key operation with hc | ⟨lease, hc⟩
      · exact h.of_eq hc rfl
      · refine h.set_client hc rfl fun w hw => ?_
        rw [hv] at hw
        cases hw
        exact ⟨rfl, Course.wants_action ho lease⟩

lemma proceed (h : s.Linked) (i : Nat) :
    (s.proceed i).Linked ∧ s.Change (.proceed i) (s.proceed i) := by
  unfold ProxyState.proceed
  split
  · rename_i job stage hv
    split
    · rename_i hready
      have ho := Option.isNone_iff_eq_none.mp hready.1
      obtain ⟨stage', signs, pace, ht⟩ :=
        exists_pace hv ho hready.2 (.answering .peek (.acquired false))
      rw [ht]
      refine ⟨h.set_visitor rfl (fun c hc => ?_) rfl, .went i job stage stage' signs hv pace rfl rfl
        rfl rfl⟩
      exact Client.idle_of_operation (h.works i _ c hv hc) ho
    · exact ⟨h, .refl s _⟩
  · exact ⟨h, .refl s _⟩

lemma drop (h : s.Linked) (i : Nat) : (s.drop i).Linked ∧ s.Change (.drop i) (s.drop i) := by
  unfold ProxyState.drop
  split
  · rename_i job stage hv
    have hl := (s.entries.log_quit i).trans (List.append_nil _).symm
    rw [withEntries_of_append hl]
    refine ⟨?_, .dropped i job stage hv rfl rfl (List.append_nil _) (s.entries.log_quit i) rfl⟩
    exact h.set_both (s.entries.clients_quit i) rfl
  · exact ⟨h, .refl s _⟩

/-- Every move keeps requests and clients linked, and is one of the changes. -/
lemma step (h : s.Linked) (move : ProxyMove) :
    (s.step move).Linked ∧ s.Change move (s.step move) := by
  cases move with
  | arrive job => exact h.arrive job
  | call i => exact h.call i
  | lookUp i => exact h.hear (s.entries.heard_lookUp i)
  | act i => exact h.hear (s.entries.heard_act i)
  | proceed i => exact h.proceed i
  | drop i => exact h.drop i
  | fire t =>
    obtain ⟨events, hl, expired⟩ := s.entries.log_fire t
    exact h.quiet (s.entries.clients_fire t) hl expired fun e he => ⟨t, rfl⟩
  | sweep =>
    exact h.silent rfl rfl
  | wait ms =>
    exact h.silent rfl rfl

end Linked

/-! ### What a change means for one request -/

/-- Nothing that can be seen is an answer to a request. -/
def Silent (i : Nat) (signs : List Sign) : Prop :=
  ∀ time key action answer, .event ⟨time, key, .answered i action answer⟩ ∉ signs

lemma Silent.append {i : Nat} {a b : List Sign} (ha : Silent i a) (hb : Silent i b) :
    Silent i (a ++ b) := by
  intro time key action answer h
  rcases List.mem_append.mp h with h | h
  · exact ha time key action answer h
  · exact hb time key action answer h

/-- Signs of a turn or a pace are no answers. -/
lemma Silent.of_events_eq {i : Nat} {signs : List Sign} (h : signs.filterMap Sign.event? = []) :
    Silent i signs := by
  intro time key action answer hm
  have hm := Sign.mem_events.mpr hm
  rw [h] at hm
  cases hm

/-- Where a request goes in a move. -/
inductive Goes (s : ProxyState) (move : ProxyMove) (t : ProxyState) (i : Nat) (job : Job)
    (course : Course) : Prop where
  | stays (signs : List Sign) (ht : t.visitors[i]? = some ⟨job, course⟩)
    (hl : t.log = s.log ++ signs) (silent : Silent i signs)
  | turns (course' : Course) (action : Action) (answer : Answer) (signs : List Sign)
    (turn : Turn s.config s.origin s.entries.now i s.calls job course action answer course' signs
      t.calls)
    (ht : t.visitors[i]? = some ⟨job, course'⟩)
    (hl : t.log = s.log ++ .event ⟨s.entries.now, job.key, .answered i action answer⟩ :: signs)
  | paces (stage stage' : Stage) (signs : List Sign) (hc : course = .serving stage)
    (pace : Pace s.config s.entries.now i job stage stage' signs)
    (ht : t.visitors[i]? = some ⟨job, .serving stage'⟩) (hl : t.log = s.log ++ signs)
  | drops (stage : Stage) (hc : course = .serving stage) (hm : move = .drop i)
    (ht : t.visitors[i]? = some ⟨job, .dropped stage⟩)

/-- How a request comes to be where it is after a move. -/
inductive Came (s t : ProxyState) (i : Nat) (job : Job) : Course → Prop where
  | same (course : Course) (hi : s.visitors[i]? = some ⟨job, course⟩) : Came s t i job course
  | new (hi : s.visitors[i]? = none) : Came s t i job (.serving .arrived)
  | turn (course course' : Course) (action : Action) (answer : Answer) (signs : List Sign)
    (calls : List OriginCall) (hi : s.visitors[i]? = some ⟨job, course⟩)
    (turn : Turn s.config s.origin s.entries.now i s.calls job course action answer course' signs
      calls)
    (hm : .event ⟨s.entries.now, job.key, .answered i action answer⟩ ∈ t.log)
    (he : t.entries.log =
      s.entries.log ++ [⟨s.entries.now, job.key, .answered i action answer⟩]) :
    Came s t i job course'
  | pace (stage stage' : Stage) (signs : List Sign)
    (hi : s.visitors[i]? = some ⟨job, .serving stage⟩)
    (pace : Pace s.config s.entries.now i job stage stage' signs) : Came s t i job (.serving stage')
  | dropped (stage : Stage) (hi : s.visitors[i]? = some ⟨job, .serving stage⟩) :
    Came s t i job (.dropped stage)

namespace Change

variable {s t : ProxyState} {move : ProxyMove}

lemma log_eq (h : s.Change move t) : ∃ signs, t.log = s.log ++ signs := by
  cases h with
  | quiet _ _ _ _ _ hl => exact ⟨_, hl⟩
  | heard _ _ _ _ _ _ _ _ _ _ hl => exact ⟨_, hl⟩
  | went _ _ _ _ _ _ _ _ _ hl => exact ⟨_, hl⟩
  | dropped _ _ _ _ _ _ hl => exact ⟨[], hl.trans (List.append_nil _).symm⟩

lemma goes (h : s.Change move t) {i : Nat} {job : Job} {course : Course}
    (hi : s.visitors[i]? = some ⟨job, course⟩) : s.Goes move t i job course := by
  have hlt := (List.getElem?_eq_some_iff.mp hi).1
  cases h with
  | quiet arrivals events expired hv _ hl =>
    refine .stays (events.map .event) ?_ hl ?_
    · rw [hv, List.getElem?_append_left hlt, hi]
    · intro time key action answer hm
      obtain ⟨e, hm, he⟩ := List.mem_map.mp hm
      cases he
      obtain ⟨lease, hw⟩ := expired _ hm
      cases hw
  | heard j job' c c' action answer signs hj turn hv hl =>
    -- what another request does is silent about this one
    by_cases hij : j = i
    · subst hij
      rw [hi] at hj
      cases hj
      exact .turns c' action answer signs turn (by rw [hv, List.getElem?_set_self hlt]) hl
    · refine .stays _ (by rw [hv, List.getElem?_set_ne hij, hi]) hl ?_
      intro time key action' answer' hm
      rcases List.mem_cons.mp hm with he | hm
      · cases he
        exact hij rfl
      · exact Silent.of_events_eq turn.events_eq _ _ _ _ hm
  | went j job' stage stage' signs hj pace hv _ hl =>
    by_cases hij : j = i
    · subst hij
      rw [hi] at hj
      cases hj
      exact .paces stage stage' signs rfl pace (by rw [hv, List.getElem?_set_self hlt]) hl
    · exact .stays signs (by rw [hv, List.getElem?_set_ne hij, hi]) hl
        (.of_events_eq pace.events_eq)
  | dropped j job' stage hj hv _ hl _ hm =>
    by_cases hij : j = i
    · subst hij
      rw [hi] at hj
      cases hj
      exact .drops stage rfl hm (by rw [hv, List.getElem?_set_self hlt])
    · exact .stays [] (by rw [hv, List.getElem?_set_ne hij, hi])
        (hl.trans (List.append_nil _).symm) (by simp [Silent])

lemma came (h : s.Change move t) {i : Nat} {job : Job} {course : Course}
    (hi : t.visitors[i]? = some ⟨job, course⟩) : s.Came t i job course := by
  cases h with
  | quiet arrivals events _ hv =>
    rw [hv, List.getElem?_append] at hi
    split at hi
    · exact .same course hi
    · -- there was no such request before, so it has just arrived
      rename_i hlt
      obtain ⟨new, -, hnew⟩ := List.mem_map.mp (List.mem_of_getElem? hi)
      cases hnew
      exact .new (List.getElem?_eq_none_iff.mpr (Nat.not_lt.mp hlt))
  | heard j job' c c' action answer signs hj turn hv hl he =>
    rw [hv] at hi
    rcases getElem?_set_or hj hi with ⟨-, hi⟩ | ⟨rfl, heq⟩
    · exact .same course hi
    · cases heq
      refine .turn c course action answer signs t.calls hj turn ?_ he
      rw [hl]
      exact List.mem_append_right _ List.mem_cons_self
  | went j job' stage stage' signs hj pace hv =>
    rw [hv] at hi
    rcases getElem?_set_or hj hi with ⟨-, hi⟩ | ⟨rfl, he⟩
    · exact .same course hi
    · cases he
      exact .pace stage stage' signs hj pace
  | dropped j job' stage hj hv =>
    rw [hv] at hi
    rcases getElem?_set_or hj hi with ⟨-, hi⟩ | ⟨rfl, he⟩
    · exact .same course hi
    · cases he
      exact .dropped stage hj

/-- An answer that was given by a move was heard by a request, which made a turn of it. Nothing else
happened to the entries then. -/
lemma answered (h : s.Change move t) {time i : Nat} {key : IdempotencyKey} {action : Action}
    {answer : Answer} (he : .event ⟨time, key, .answered i action answer⟩ ∈ t.log) :
    .event ⟨time, key, .answered i action answer⟩ ∈ s.log ∨
      ∃ job course course' signs calls, time = s.entries.now ∧
        s.visitors[i]? = some ⟨job, course⟩ ∧ key = job.key ∧ t.visitors[i]? = some ⟨job, course'⟩ ∧
        Turn s.config s.origin s.entries.now i s.calls job course action answer course' signs
          calls ∧
        t.entries.log = s.entries.log ++ [⟨s.entries.now, key, .answered i action answer⟩] := by
  cases h with
  | quiet arrivals events expired _ _ hl =>
    rw [hl] at he
    rcases List.mem_append.mp he with he | he
    · exact .inl he
    · obtain ⟨e, hm, he⟩ := List.mem_map.mp he
      cases he
      obtain ⟨lease, hw⟩ := expired _ hm
      cases hw
  | heard j job course course' _ _ signs hj turn hv hl hlog =>
    rw [hl] at he
    rcases List.mem_append.mp he with he | he
    · exact .inl he
    · rcases List.mem_cons.mp he with he | he
      · cases he
        refine .inr ⟨job, course, course', signs, t.calls, rfl, hj, rfl, ?_, turn, hlog⟩
        rw [hv, List.getElem?_set_self (List.getElem?_eq_some_iff.mp hj).1]
      · exact absurd he (Silent.of_events_eq turn.events_eq _ _ _ _)
  | went j job stage stage' signs _ pace _ _ hl =>
    rw [hl] at he
    rcases List.mem_append.mp he with he | he
    · exact .inl he
    · exact absurd he (Silent.of_events_eq pace.events_eq _ _ _ _)
  | dropped j job stage _ _ _ hl =>
    rw [hl] at he
    exact .inl he

end Change

/-! ### Every run -/

section

variable (s : ProxyState)

lemma entries_advance (i : Nat) (b : Backend Unit) : (s.advance i b).entries = s.entries := by
  unfold advance
  split <;> rfl

lemma entries_hear (i : Nat) (e : StoreState) : (s.hear i e).entries = e := by
  unfold hear
  split
  · rw [entries_advance]
    rfl
  · rfl

/-- The move of the traffic at the entries that a move stands for. -/
def storeMove? : ProxyMove → Option StoreMove
  | .arrive _ => some .join
  | .call i => do
    let v ← s.visitors[i]?
    let operation ← v.course.operation?
    return .call i v.job.key operation
  | .lookUp i => some (.lookUp i)
  | .act i => some (.act i)
  | .proceed _ => none
  | .drop i =>
    match s.visitors[i]? with
    | some ⟨_, .serving _⟩ => some (.quit i)
    | _ => none
  | .fire t => some (.fire t)
  | .sweep => some .sweep
  | .wait ms => some (.wait ms)

lemma entries_step (move : ProxyMove) :
    (s.step move).entries = (s.storeMove? move).elim s.entries s.entries.step := by
  cases move with
  | call i =>
    simp only [step, call, storeMove?]
    cases s.visitors[i]? with
    | none => rfl
    | some v =>
      simp only [Option.bind_eq_bind, Option.bind_some]
      cases v.course.operation? <;> rfl
  | lookUp i => exact s.entries_hear i _
  | act i => exact s.entries_hear i _
  | proceed i =>
    simp only [step, proceed]
    split
    · split
      · exact s.entries_advance i _
      · rfl
    · rfl
  | drop i =>
    simp only [step, drop, storeMove?]
    cases s.visitors[i]? with
    | none => rfl
    | some v =>
      obtain ⟨job, course⟩ := v
      cases course <;> rfl
  | _ => rfl

end

lemma config_step (s : ProxyState) (move : ProxyMove) :
    (s.step move).config = s.config ∧ (s.step move).origin = s.origin := by
  have advance (t : ProxyState) (i : Nat) (b : Backend Unit) :
      (t.advance i b).config = t.config ∧ (t.advance i b).origin = t.origin := by
    unfold ProxyState.advance
    split <;> exact ⟨rfl, rfl⟩
  have hear (i : Nat) (e : StoreState) :
      (s.hear i e).config = s.config ∧ (s.hear i e).origin = s.origin := by
    unfold ProxyState.hear
    split
    · exact advance (s.withEntries e) i _
    · exact ⟨rfl, rfl⟩
  cases move with
  | call i =>
    simp only [step, call]
    split
    · exact ⟨rfl, rfl⟩
    · split <;> exact ⟨rfl, rfl⟩
  | lookUp i => exact hear i _
  | act i => exact hear i _
  | proceed i =>
    simp only [step, proceed]
    split
    · split
      · exact advance s i _
      · exact ⟨rfl, rfl⟩
    · exact ⟨rfl, rfl⟩
  | drop i => simp only [step, drop]; split <;> exact ⟨rfl, rfl⟩
  | _ => exact ⟨rfl, rfl⟩

lemma config_run (s : ProxyState) (moves : List ProxyMove) : (s.run moves).config = s.config := by
  induction moves generalizing s with
  | nil => rfl
  | cons move moves ih => exact (ih (s.step move)).trans (s.config_step move).1

/-- What holds in every state: the entries are in order, and what can be seen tells what happened to
them and which calls were made. -/
structure Valid (s : ProxyState) : Prop where
  linked : s.Linked
  entries : s.entries.Valid s.config.cacheTtl
  events : s.log.filterMap Sign.event? = s.entries.log
  calls : s.log.filterMap Sign.call? = s.calls

lemma Valid.start (config : Config) (origin : Origin) : (start config origin).Valid where
  linked := .start config origin
  entries := .start config.cacheTtl
  events := rfl
  calls := rfl

lemma Valid.step {s : ProxyState} (h : s.Valid) (move : ProxyMove) : (s.step move).Valid := by
  obtain ⟨linked, change⟩ := h.linked.step move
  have hmap (events : List Event) :
      (events.map Sign.event).filterMap Sign.event? = events ∧
        (events.map Sign.event).filterMap Sign.call? = [] := by
    simp [List.filterMap_map, Function.comp_def, Sign.event?, Sign.call?]
  refine ⟨linked, ?_, ?_, ?_⟩
  · rw [(s.config_step move).1, s.entries_step]
    cases s.storeMove? move with
    | none => exact h.entries
    | some m => exact h.entries.step m
  · cases change with
    | quiet arrivals events _ _ _ hl he =>
      rw [hl, he, List.filterMap_append, h.events, (hmap events).1]
    | heard i job course course' action answer signs _ turn _ hl he =>
      rw [hl, he, List.filterMap_append, h.events, List.filterMap_cons, turn.events_eq]
      rfl
    | went i job stage stage' signs _ pace _ _ hl he =>
      rw [hl, he, List.filterMap_append, h.events, pace.events_eq, List.append_nil]
    | dropped i job stage _ _ _ hl he => rw [hl, he, h.events]
  · cases change with
    | quiet arrivals events _ _ hc hl =>
      rw [hl, hc, List.filterMap_append, h.calls, (hmap events).2, List.append_nil]
    | heard i job course course' action answer signs _ turn _ hl =>
      rw [hl, turn.calls_eq, List.filterMap_append, h.calls]
      rfl
    | went i job stage stage' signs _ pace _ hc hl =>
      rw [hl, hc, List.filterMap_append, h.calls, pace.calls_eq, List.append_nil]
    | dropped i job stage _ _ hc hl => rw [hl, hc, h.calls]

lemma Valid.run {s : ProxyState} (h : s.Valid) (moves : List ProxyMove) : (s.run moves).Valid := by
  induction moves generalizing s with
  | nil => exact h
  | cons move moves ih => exact ih (h.step move)

/-- What every move keeps holds at the end of every run. -/
lemma run_induction {P : ProxyState → Prop} {s : ProxyState} (h : s.Valid) (hP : P s)
    (step : ∀ t move, t.Valid → P t → P (t.step move)) (moves : List ProxyMove) :
    (s.run moves).Valid ∧ P (s.run moves) := by
  induction moves generalizing s with
  | nil => exact ⟨h, hP⟩
  | cons move moves ih => exact ih (h.step move) (step s move h hP)

end ProxyState

end OnceProxy
