import OnceProxy.Proofs.Proxy.Promptness
import OnceProxy.Proofs.Proxy.Replay

/-!
# Requests that follow

A request that was refused its key looks for the answer at intervals. In the end it is told the
envelope that was stored for the key, or that its time is over; but if the lease for which it was
refused is ended before, it is told that nobody is at work on the key.
-/

namespace OnceProxy

/-! ### What is said of a key that is not ready -/

/-- To look for an answer fails only where nobody holds the key. -/
lemma Cycle.free_of_peek {c : Cycle} {error : ProxyError}
    (h : Answer.found (.error error) = c.answer .peek) : c = .free ∧ error = .notObtained := by
  cases c with
  | free =>
    cases h
    exact ⟨rfl, rfl⟩
  | held => cases h
  | ready => cases h

/-- What is found was stored. -/
lemma Cycle.ready_of_peek {c : Cycle} {value : List UInt8}
    (h : Answer.found (.ok (some value)) = c.answer .peek) :
    ∃ lease due, c = .ready lease value due := by
  cases c with
  | free => cases h
  | held => cases h
  | ready lease value due =>
    cases h
    exact ⟨lease, due, rfl⟩

/-- If a key is free some time after it was refused, the lease for which it was refused was
ended. -/
lemma Legal.ended_of_refused {ttl : Nat} {key : IdempotencyKey} {a b : List Event} {time i : Nat}
    {lease : Lease}
    (h : Legal ttl (a ++ ⟨time, key, .answered i (.acquire lease) (.acquired false)⟩ :: b))
    (free : cycleOf ttl key
      (a ++ ⟨time, key, .answered i (.acquire lease) (.acquired false)⟩ :: b) = .free) :
    ∃ held, (cycleOf ttl key a).lease? = some held ∧ ∃ e ∈ b, e.key = key ∧
      e.ended? = some held := by
  have fits : Answer.acquired false = (cycleOf ttl key a).answer (.acquire lease) := h.split.2.2
  obtain ⟨held, hheld⟩ : ∃ held, (cycleOf ttl key a).lease? = some held := by
    cases hc : cycleOf ttl key a with
    | free => rw [hc] at fits; cases fits
    | held own due => exact ⟨own, rfl⟩
    | ready own value due => exact ⟨own, rfl⟩
  refine ⟨held, hheld, ?_⟩
  rcases h.lease?_append hheld with hl | ⟨e, he, hk, hend⟩
  · rw [free] at hl
    cases hl
  · rcases List.mem_cons.mp he with rfl | he
    · cases hend
    · exact ⟨e, he, hk, hend⟩

/-! ### The course of a request that was refused -/

/-- Whether a request looks for the answer of another one, or did so. -/
def Course.Follows : Course → Prop
  | serving (.looking _) | serving (.resting _ _) | serving (.ended _) | gone => True
  | _ => False

section

variable {c : Config} {o : Origin} {now i : Nat} {calls calls' : List OriginCall} {job : Job}
  {course course' : Course} {action : Action} {answer : Answer} {signs : List Sign}
  {stage stage' : Stage}

lemma Turn.follows_of (h : Turn c o now i calls job course action answer course' signs calls')
    (hf : course.Follows) : course'.Follows := by
  cases h with
  | rests | replays | misses => trivial
  | _ => cases hf

lemma Turn.eq_of_refused (h : Turn c o now i calls job course action answer course' signs calls')
    {lease : Lease} (ha : action = .acquire lease) (hn : answer = .acquired false) :
    course' = .serving (.looking c.pollAttempts) ∧ signs = [] := by
  cases h with
  | leads => cases hn
  | follows => exact ⟨rfl, rfl⟩
  | _ => cases ha

lemma Pace.follows_of (h : Pace c now i job stage stage' signs)
    (hf : (Course.serving stage).Follows) : (Course.serving stage').Follows := by
  cases h with
  | givesUp | wakes => trivial
  | fails | returns => cases hf

lemma Course.Follows.dropped (hf : (serving stage).Follows) : (Course.dropped stage).Follows := by
  cases stage with
  | arrived | calling | storing | releasing => cases hf
  | looking | resting | ended => trivial

/-- Only the request that hears an answer is told anything thereby, and nothing else can be seen
then. -/
lemma Turn.responded_eq (h : Turn c o now i calls job course action answer course' signs calls')
    {time j : Nat} {key : IdempotencyKey} {response : Http.Response}
    (hm : .responded time j key response ∈ signs) :
    signs = [.responded time j key response] ∧ j = i ∧ key = job.key := by
  cases h with
  | leads => cases List.mem_singleton.mp hm
  | follows | rests | loses | clears => cases hm
  | replays | misses | stores | releases =>
    cases List.mem_singleton.mp hm
    exact ⟨rfl, rfl, rfl⟩

/-- What a request that follows is told when it looks for the answer. -/
lemma Turn.told (h : Turn c o now i calls job course action answer course' signs calls')
    (hf : course.Follows) {time j : Nat} {key : IdempotencyKey} {response : Http.Response}
    (hm : .responded time j key response ∈ signs) :
    action = .peek ∧ (response.status = 200 ∨ ∃ error, response = error.render ∧
      (answer = .found (.error error) ∨
        ∃ value, answer = .found (.ok (some value)) ∧ Envelope.decode value = .error error)) := by
  cases h with
  | rests => cases hm
  | replays left value e he =>
    cases List.mem_singleton.mp hm
    exact ⟨rfl, .inl rfl⟩
  | misses left answer error told =>
    cases List.mem_singleton.mp hm
    exact ⟨rfl, .inr ⟨error, rfl, told⟩⟩
  | _ => cases hf

/-- A request that goes on by itself and follows is told that its time is over. -/
lemma Pace.told (h : Pace c now i job stage stage' signs) {time j : Nat} {key : IdempotencyKey}
    {response : Http.Response} (hm : .responded time j key response ∈ signs) :
    signs = [.responded time j key response] ∧ j = i ∧ key = job.key ∧
      response = ProxyError.timeout.render := by
  cases h with
  | givesUp =>
    cases List.mem_singleton.mp hm
    exact ⟨rfl, rfl, rfl, rfl⟩
  | wakes | fails | returns => cases hm

end

namespace ProxyState

/-- Every request that was refused its key follows. -/
def Followers (s : ProxyState) : Prop :=
  ∀ time i key lease, .event ⟨time, key, .answered i (.acquire lease) (.acquired false)⟩ ∈ s.log →
    ∃ job course, s.visitors[i]? = some ⟨job, course⟩ ∧ job.key = key ∧ course.Follows

lemma Followers.step {s t : ProxyState} {move : ProxyMove} (h : s.Followers)
    (change : s.Change move t) : t.Followers := by
  intro time i key lease he
  rcases change.answered he with he | ⟨job, course, course', signs, calls, -, hi, rfl, ht, turn, -⟩
  · obtain ⟨job, course, hi, rfl, hf⟩ := h time i key lease he
    cases change.goes hi with
    | stays signs ht => exact ⟨job, course, ht, rfl, hf⟩
    | turns course' action answer signs turn ht => exact ⟨job, course', ht, rfl, turn.follows_of hf⟩
    | paces stage stage' signs hc pace ht =>
      subst hc
      exact ⟨job, _, ht, rfl, pace.follows_of hf⟩
    | drops stage hc _ ht =>
      subst hc
      exact ⟨job, _, ht, rfl, hf.dropped⟩
  · refine ⟨job, course', ht, rfl, ?_⟩
    rw [(turn.eq_of_refused rfl rfl).1]
    trivial

/-- What a request that was refused its key may be told: an envelope, that its time is over, or that
nobody is at work on the key, if the lease for which it was refused was ended since. -/
def Told (ttl : Nat) (key : IdempotencyKey) (before since : List Sign) (response : Http.Response) :
    Prop :=
  response.status = 200 ∨ response = ProxyError.timeout.render ∨
    response = ProxyError.notObtained.render ∧
      ∃ held, (cycleOf ttl key (before.filterMap Sign.event?)).lease? = some held ∧
        ∃ e, .event e ∈ since ∧ e.key = key ∧ e.ended? = some held

lemma Told.append {ttl : Nat} {key : IdempotencyKey} {before since : List Sign}
    {response : Http.Response} (h : Told ttl key before since response) (more : List Sign) :
    Told ttl key before (since ++ more) response := by
  rcases h with good | late | ⟨rfl, held, hheld, e, he, hend⟩
  · exact .inl good
  · exact .inr (.inl late)
  · exact .inr (.inr ⟨rfl, held, hheld, e, List.mem_append_left more he, hend⟩)

/-- Every request that was refused its key and has a response was told one of these things. -/
def FollowersTold (s : ProxyState) : Prop :=
  ∀ a b c time i key lease time' key' response,
    s.log = a ++ .event ⟨time, key, .answered i (.acquire lease) (.acquired false)⟩ :: b ++
      .responded time' i key' response :: c →
    key' = key ∧ Told s.config.cacheTtl key a b response

/-- A request that follows is told one of these things when it hears an answer. -/
lemma told_of_heard {s : ProxyState} (valid : s.Valid) (followers : s.Followers)
    (genuine : s.Genuine) (fits : s.origin.Fits) {a b : List Sign} {time i : Nat}
    {key : IdempotencyKey} {lease : Lease}
    (hl : s.log = a ++ .event ⟨time, key, .answered i (.acquire lease) (.acquired false)⟩ :: b)
    {job : Job} {course course' : Course} {action : Action} {answer : Answer} {signs : List Sign}
    {calls : List OriginCall} (hi : s.visitors[i]? = some ⟨job, course⟩)
    (turn : Turn s.config s.origin s.entries.now i s.calls job course action answer course' signs
      calls)
    (legal : Legal s.config.cacheTtl
      (s.entries.log ++ [⟨s.entries.now, job.key, .answered i action answer⟩]))
    {time' : Nat} {key' : IdempotencyKey} {response : Http.Response}
    (hm : .responded time' i key' response ∈ signs) :
    key' = key ∧ Told s.config.cacheTtl key a b response := by
  -- the request follows, so that it can only have looked
  obtain ⟨_, _, hi', rfl, hf⟩ := followers time i key lease (by simp [hl])
  rw [hi] at hi'
  cases hi'
  obtain ⟨-, -, rfl⟩ := turn.responded_eq hm
  obtain ⟨rfl, told⟩ := turn.told hf hm
  refine ⟨rfl, ?_⟩
  have hevents : s.entries.log = a.filterMap Sign.event? ++
      ⟨time, job.key, .answered i (.acquire lease) (.acquired false)⟩ ::
        b.filterMap Sign.event? := by
    rw [← valid.events, hl, List.filterMap_append]
    rfl
  have answered : answer = (cycleOf s.config.cacheTtl job.key s.entries.log).answer .peek :=
    (Legal.snoc_iff.mp legal).2.2
  rcases told with good | ⟨error, rfl, rfl | ⟨value, rfl, hd⟩⟩
  · exact .inl good
  · -- the entry is empty now, and was held when the request was refused
    obtain ⟨free, rfl⟩ := Cycle.free_of_peek answered
    rw [hevents] at legal free
    obtain ⟨held, hheld, e, he, hk, hend⟩ := legal.of_append.ended_of_refused free
    exact .inr (.inr ⟨rfl, held, hheld, e, Sign.mem_events.mp he, hk, hend⟩)
  · -- what is found was stored, so that it can be decoded
    obtain ⟨own, due, hc⟩ := Cycle.ready_of_peek answered
    rw [← valid.events] at hc
    obtain ⟨job', e, -, makes, rfl⟩ := genuine.makes_of_ready valid (List.append_nil _).symm hc
    rw [Envelope.decode_encode (fits job' e makes)] at hd
    cases hd

/-- How a response comes to be given: it was given before, or it is given last of all, to a request
that heard an answer or to one of which the time is over. -/
inductive Responds (s t : ProxyState) (a : List Sign) (i : Nat) (key : IdempotencyKey)
    (response : Http.Response) : Prop where
  | before (time : Nat) (c' : List Sign) (hl : s.log = a ++ .responded time i key response :: c')
  | hears (time : Nat) (job : Job) (course course' : Course) (action : Action) (answer : Answer)
    (signs : List Sign) (hi : s.visitors[i]? = some ⟨job, course⟩) (hk : key = job.key)
    (turn : Turn s.config s.origin s.entries.now i s.calls job course action answer course' signs
      t.calls)
    (hm : .responded time i key response ∈ signs)
    (ha : a = s.log ++ [.event ⟨s.entries.now, job.key, .answered i action answer⟩])
    (he : t.entries.log =
      s.entries.log ++ [⟨s.entries.now, job.key, .answered i action answer⟩])
  | givesUp (job : Job) (course : Course) (hi : s.visitors[i]? = some ⟨job, course⟩)
    (hk : key = job.key) (hr : response = ProxyError.timeout.render) (ha : a = s.log)

lemma Change.responds {s t : ProxyState} {move : ProxyMove} (change : s.Change move t)
    {a c : List Sign} {time i : Nat} {key : IdempotencyKey} {response : Http.Response}
    (hlog : t.log = a ++ .responded time i key response :: c) :
    s.Responds t a i key response := by
  cases change with
  | quiet arrivals events _ _ _ hl =>
    rw [hl] at hlog
    rcases split_append hlog with ⟨c', hold⟩ | ⟨a', -, ha⟩
    · exact .before time c' hold
    · have hm : Sign.responded time i key response ∈ events.map .event := by simp [ha]
      obtain ⟨e, -, he⟩ := List.mem_map.mp hm
      cases he
  | heard j job course course' action answer signs hj turn _ hl he =>
    rw [hl] at hlog
    rcases split_append hlog with ⟨c', hold⟩ | ⟨a', hab, ha⟩
    · exact .before time c' hold
    · cases a' with
      | nil => cases ha
      | cons x rest =>
        simp only [List.cons_append, List.cons.injEq] at ha
        obtain ⟨rfl, hs⟩ := ha
        have hm : Sign.responded time i key response ∈ signs := by simp [hs]
        obtain ⟨hsingle, rfl, rfl⟩ := turn.responded_eq hm
        obtain rfl : rest = [] := by
          rw [hsingle] at hs
          cases rest <;> simp_all
        exact .hears time job course course' action answer signs hj rfl turn hm hab he
  | went j job stage stage' signs hj pace _ _ hl =>
    rw [hl] at hlog
    rcases split_append hlog with ⟨c', hold⟩ | ⟨a', hab, ha⟩
    · exact .before time c' hold
    · have hm : Sign.responded time i key response ∈ signs := by simp [ha]
      obtain ⟨rfl, rfl, rfl, rfl⟩ := pace.told hm
      obtain rfl : a' = [] := by cases a' <;> simp_all
      exact .givesUp job _ hj rfl rfl (hab.trans (List.append_nil _))
  | dropped j job stage _ _ _ hl => exact .before time c (hl.symm.trans hlog)

lemma FollowersTold.step {s : ProxyState} {move : ProxyMove} (h : s.FollowersTold)
    (valid : s.Valid) (followers : s.Followers) (genuine : s.Genuine) (fits : s.origin.Fits) :
    (s.step move).FollowersTold := by
  have change := (valid.linked.step move).2
  have legal := (valid.step move).entries.legal
  have hconfig := (s.config_step move).1
  rw [hconfig] at legal
  intro a b c time i key lease time' key' response hlog
  rw [hconfig]
  cases change.responds hlog with
  | before time' c' hl => exact h _ _ _ _ _ _ _ _ _ _ hl
  | hears time' job course course' action answer signs hi hk turn hm ha he =>
    rw [he] at legal
    rcases split_append ha.symm with ⟨b', hlog'⟩ | ⟨a', -, heq⟩
    · obtain ⟨hk, told⟩ := told_of_heard valid followers genuine fits hlog' hi turn legal hm
      obtain rfl : b = b' ++ [.event ⟨s.entries.now, job.key, .answered i action answer⟩] := by
        rw [hlog'] at ha
        simpa using ha
      exact ⟨hk, told.append _⟩
    · -- whoever is refused its key is not told anything yet
      cases a' with
      | nil =>
        cases heq
        rw [(turn.eq_of_refused rfl rfl).2] at hm
        cases hm
      | cons => simp at heq
  | givesUp job course hi hk hr ha =>
    obtain ⟨_, _, hi', rfl, -⟩ := followers time i key lease (by simp [← ha])
    cases hi.symm.trans hi'
    exact ⟨hk, .inr (.inl hr)⟩

/-! ### How long a request follows -/

/-- A request that was refused its key looks for the answer so often that it is through by a
deadline, or has a response. -/
inductive Polling (s : ProxyState) (i : Nat) (key : IdempotencyKey) (deadline : Nat) : Prop where
  | looks (job : Job) (left : Nat) (hi : s.visitors[i]? = some ⟨job, .serving (.looking left)⟩)
    (hk : job.key = key) (budget : s.entries.now + left * s.config.pollInterval ≤ deadline)
  | rests (job : Job) (left since : Nat)
    (hi : s.visitors[i]? = some ⟨job, .serving (.resting left since)⟩) (hk : job.key = key)
    (budget : since + (left + 1) * s.config.pollInterval ≤ deadline)
    (awake : s.entries.now ≤ since + s.config.pollInterval)
  | ended (time : Nat) (response : Http.Response) (hm : .responded time i key response ∈ s.log)

namespace Polling

variable {s t : ProxyState} {move : ProxyMove} {i deadline : Nat} {key : IdempotencyKey}

/-- Time does not go on while a request can look for the answer, nor beyond the end of its rest. -/
lemma wait (h : s.Polling i key deadline) {ms : Nat} (idle : s.Idle (s.entries.now + ms)) :
    (s.step (.wait ms)).Polling i key deadline := by
  cases h with
  | looks job left hi =>
    cases idle _ (List.mem_of_getElem? hi)
  | rests job left since hi hk budget =>
    have awake : s.entries.now + ms ≤ since + s.config.pollInterval := by
      simpa [Course.awaits, Stage.hasEnded, Stage.due?] using idle _ (List.mem_of_getElem? hi)
    exact .rests job left since hi hk budget awake
  | ended time response hm => exact .ended time response (List.mem_append_left _ hm)

/-- Every step that a request makes leaves it with as many attempts as it has time for. -/
lemma advance (h : s.Polling i key deadline) (change : s.Change move t) (hd : move ≠ .drop i)
    (hn : t.entries.now = s.entries.now) (hconfig : t.config = s.config) :
    t.Polling i key deadline := by
  -- a request that is answered is at its end
  have told {time : Nat} {response : Http.Response} {signs : List Sign} {more : List Sign}
      (hl : t.log = s.log ++ signs ++ more) (hm : .responded time i key response ∈ more) :
      t.Polling i key deadline :=
    .ended time response (hl ▸ List.mem_append_right _ hm)
  cases h with
  | looks job left hi hk budget =>
    subst hk
    cases change.goes hi with
    | stays signs ht => exact .looks job left ht rfl (by rwa [hn, hconfig])
    | turns course' action answer signs turn ht hl =>
      rw [List.append_cons] at hl
      generalize t.calls = calls at turn
      cases turn with
      | rests left =>
        -- one look less is left, and the rest until the next one begins
        refine .rests job left s.entries.now ht rfl (by rwa [hconfig]) ?_
        rw [hn]
        exact Nat.le_add_right _ _
      | replays => exact told hl (List.mem_singleton_self _)
      | misses => exact told hl (List.mem_singleton_self _)
    | paces stage stage' signs hc pace ht hl =>
      cases hc
      cases pace with
      | givesUp => exact .ended _ _ (hl ▸ List.mem_append_right _ (List.mem_singleton_self _))
    | drops _ _ hm => exact absurd hm hd
  | rests job left since hi hk budget awake =>
    subst hk
    cases change.goes hi with
    | stays signs ht => exact .rests job left since ht rfl (by rwa [hconfig]) (by rwa [hn, hconfig])
    | turns course' action answer signs turn => cases turn
    | paces stage stage' signs hc pace ht =>
      cases hc
      cases pace with
      | wakes =>
        refine .looks job left ht rfl ?_
        rw [hn, hconfig]
        -- the rest is over in time, so that it costs one interval
        rw [Nat.succ_mul] at budget
        omega
    | drops _ _ hm => exact absurd hm hd
  | ended time response hm =>
    obtain ⟨signs, hl⟩ := change.log_eq
    exact .ended time response (hl ▸ List.mem_append_left _ hm)

end Polling

/-- A request that is refused its key is through, or has a response, when it has made all its
attempts. -/
def Persistent (s : ProxyState) (i : Nat) : Prop :=
  ∀ time key lease,
    .event ⟨time, key, .answered i (.acquire lease) (.acquired false)⟩ ∈ s.log →
    s.Polling i key (time + s.config.pollAttempts * s.config.pollInterval)

lemma Persistent.step {s : ProxyState} {move : ProxyMove} {i : Nat} (h : s.Persistent i)
    (valid : s.Valid) (prompt : move.Prompt s) (hd : move ≠ .drop i) :
    (s.step move).Persistent i := by
  intro time key lease he
  rcases s.now_step move with hn | ⟨ms, rfl⟩
  · have change := (valid.linked.step move).2
    have hconfig := (s.config_step move).1
    rw [hconfig]
    rcases change.answered he with
      he | ⟨job, course, course', signs, calls, rfl, hi, rfl, ht, turn, -⟩
    · exact (h time key lease he).advance change hd hn hconfig
    · rw [(turn.eq_of_refused rfl rfl).1] at ht
      refine .looks job _ ht rfl ?_
      rw [hn, hconfig]
  · have hlog : (s.step (.wait ms)).log = s.log := by
      simp [ProxyState.step, withEntries, StoreState.step]
    rw [hlog] at he
    exact (h time key lease he).wait prompt

/-! ### Every run -/

/-- What has been shown of every move, of every run. -/
lemma run_followers (config : Config) (origin : Origin) (fits : origin.Fits)
    (moves : List ProxyMove) :
    let s := (start config origin).run moves
    s.Followers ∧ s.FollowersTold := by
  have h := run_induction (P := fun s => s.origin = origin ∧ s.Genuine ∧
    s.Followers ∧ s.FollowersTold) (.start config origin)
    ⟨rfl, .start config origin, ?_, ?_⟩ ?_ moves
  · exact h.2.2.2
  · intro time i key lease he
    cases he
  · intro a b c time i key lease time' key' response hl
    simp [start] at hl
  · rintro t move valid ⟨ho, genuine, followers, told⟩
    have change := (valid.linked.step move).2
    rw [← ho] at fits
    exact ⟨(t.config_step move).2.trans ho, genuine.step move change, followers.step change,
      told.step valid followers genuine fits⟩

lemma run_persistent (config : Config) (origin : Origin) {moves : List ProxyMove} {i : Nat}
    (prompt : (start config origin).Throughout ProxyMove.Prompt moves) (stays : .drop i ∉ moves) :
    ((start config origin).run moves).Persistent i := by
  refine throughout_induction (Q := fun s => s.Persistent i) (.start config origin) ?_ ?_
    (prompt.and (.of_forall fun move hm => ne_of_mem_of_not_mem hm stays))
  · intro time key lease he
    cases he
  · rintro t move valid ⟨prompt, hd⟩ h
    exact h.step valid prompt hd

end ProxyState

/-- What requests are told that follow. In every run, a request that was refused its key and has a
response was told the envelope that was stored in the last cycle of the key, or that its time is
over, or that nobody is at work on the key; and this last only if the lease for which it was refused
was ended in between, by a release or because its time was over. If only calls and sleeps take time
and the request is not dropped, it has a response as soon as it has made all its attempts. -/
theorem run_answers_followers (config : Config) (origin : Origin) (fits : origin.Fits)
    (moves : List ProxyMove) :
    let s := (ProxyState.start config origin).run moves
    (∀ a b c time i key lease time' key' response,
      s.log = a ++ .event ⟨time, key, .answered i (.acquire lease) (.acquired false)⟩ :: b ++
        .responded time' i key' response :: c →
      key' = key ∧
      ((∃ own e, StoredIn key own e ((a ++
          .event ⟨time, key, .answered i (.acquire lease) (.acquired false)⟩ :: b).filterMap
            Sign.event?) ∧ response = e.render) ∨
        response = ProxyError.timeout.render ∨
        response = ProxyError.notObtained.render ∧
          ∃ held, (cycleOf config.cacheTtl key (a.filterMap Sign.event?)).lease? = some held ∧
            ∃ e, .event e ∈ b ∧ e.key = key ∧ e.ended? = some held)) ∧
    ∀ time i key lease,
      .event ⟨time, key, .answered i (.acquire lease) (.acquired false)⟩ ∈ s.log →
      (ProxyState.start config origin).Throughout ProxyMove.Prompt moves → .drop i ∉ moves →
      time + config.pollAttempts * config.pollInterval < s.entries.now →
      ∃ time' response, .responded time' i key response ∈ s.log := by
  intro s
  have hconfig : s.config = config := ProxyState.config_run _ moves
  constructor
  · intro a b c time i key lease time' key' response hl
    have followers := ProxyState.run_followers config origin fits moves
    obtain ⟨rfl, told⟩ := followers.2 _ _ _ _ _ _ _ _ _ _ hl
    rw [hconfig] at told
    refine ⟨rfl, ?_⟩
    -- what is answered with 200 is an envelope that was stored
    rcases told with good | late | missing
    · obtain ⟨valid, ho, genuine, answers⟩ := ProxyState.run_answers config origin moves
      rw [← ho] at fits
      obtain ⟨own, -, e, stored, -, -, rfl⟩ :=
        genuine.storedIn_of_good valid answers fits hl good
      exact .inl ⟨own, e, stored, rfl⟩
    · exact .inr (.inl late)
    · exact .inr (.inr missing)
  · intro time i key lease he prompt stays late
    have persistent : s.Persistent i := ProxyState.run_persistent config origin prompt stays
    rw [← hconfig] at late
    -- whoever still looks or rests is within the budget, which is used up
    cases persistent time key lease he with
    | looks job left _ _ budget => omega
    | rests job left since _ _ budget awake =>
      rw [Nat.succ_mul] at budget
      omega
    | ended time' response hm => exact ⟨time', response, hm⟩

/-- A request makes a call, another one looks for its answer and finds it the second time, and then
time goes on. -/
def company : List ProxyMove :=
  [.arrive bareJob, .arrive bareJob, .call 0, .lookUp 0, .act 0, .call 1, .lookUp 1, .act 1,
    .call 1, .lookUp 1, .act 1, .proceed 0, .call 0, .lookUp 0, .act 0, .wait 1, .proceed 1,
    .call 1, .lookUp 1, .act 1, .wait 9]

theorem run_answers_followers_company :
    let config : Config := ⟨"", 0, 9, 1, 5, 0, none, [], ⟨[], []⟩, [], []⟩
    let start := ProxyState.start config greeter
    let s := start.run company
    let e : Envelope := ⟨200, [], [104, 105], "text/plain"⟩
    let refused : Sign := .event ⟨0, bareJob.key, .answered 1 (.acquire ⟨2⟩) (.acquired false)⟩
    let before : List Sign :=
      [.event ⟨0, bareJob.key, .answered 0 (.acquire ⟨1⟩) (.acquired true)⟩,
        .called 0 0 bareJob.key ⟨1⟩ bareJob.call]
    let between : List Sign :=
      [.event ⟨0, bareJob.key, .answered 1 .peek (.found (.ok none))⟩,
        .event ⟨0, bareJob.key, .answered 0 (.store ⟨1⟩ e.encode) (.stored (.ok ()))⟩,
        .responded 0 0 bareJob.key e.render,
        .event ⟨1, bareJob.key, .answered 1 .peek (.found (.ok (some e.encode)))⟩]
    greeter.Fits ∧
    s.log = before ++ refused :: between ++ .responded 1 1 bareJob.key e.render :: [] ∧
    ((∃ own e', StoredIn bareJob.key own e' ((before ++ refused :: between).filterMap Sign.event?) ∧
        e.render = e'.render) ∨
      e.render = ProxyError.timeout.render ∨
      e.render = ProxyError.notObtained.render ∧
        ∃ held, (cycleOf 5 bareJob.key (before.filterMap Sign.event?)).lease? = some held ∧
          ∃ d, .event d ∈ between ∧ d.key = bareJob.key ∧ d.ended? = some held) ∧
    start.Throughout ProxyMove.Prompt company ∧ .drop 1 ∉ company ∧
    0 + config.pollAttempts * config.pollInterval < s.entries.now ∧
    ∃ time response, .responded time 1 bareJob.key response ∈ s.log := by
  intro config start s e refused before between
  have hl : s.log =
      before ++ refused :: between ++ .responded 1 1 bareJob.key e.render :: [] := by
    decide +kernel
  have he : refused ∈ s.log := by simp [hl]
  have prompt : start.Throughout ProxyMove.Prompt company := by decide +kernel
  have stays : .drop 1 ∉ company := by decide
  have late : 0 + config.pollAttempts * config.pollInterval < s.entries.now := by decide +kernel
  have h := run_answers_followers config greeter fits_greeter company
  exact ⟨fits_greeter, hl, (h.1 _ _ _ _ _ _ _ _ _ _ hl).2, prompt, stays, late,
    h.2 0 1 bareJob.key ⟨2⟩ he prompt stays late⟩

/-- A request makes a call, which fails, and another one looks for its answer afterwards. -/
def disappointment : List ProxyMove :=
  [.arrive bareJob, .arrive bareJob, .call 0, .lookUp 0, .act 0, .call 1, .lookUp 1, .act 1,
    .proceed 0, .call 0, .lookUp 0, .act 0, .call 1, .lookUp 1, .act 1]

/-- A request that follows is told neither an envelope nor that its time is over, but that nobody is
at work on its key, if the one it follows releases its lease before it looks for the answer. -/
theorem exists_follower_not_obtained :
    let s := (ProxyState.start ⟨"", 0, 9, 1, 5, 0, none, [], ⟨[], []⟩, [], []⟩
      fun _ _ => ⟨0, .error ""⟩).run disappointment
    s.log =
      [.event ⟨0, bareJob.key, .answered 0 (.acquire ⟨1⟩) (.acquired true)⟩,
        .called 0 0 bareJob.key ⟨1⟩ bareJob.call,
        .event ⟨0, bareJob.key, .answered 1 (.acquire ⟨2⟩) (.acquired false)⟩,
        .event ⟨0, bareJob.key, .answered 0 (.release ⟨1⟩) (.released true)⟩,
        .responded 0 0 bareJob.key (ProxyError.origin "").render,
        .event ⟨0, bareJob.key, .answered 1 .peek (.found (.error .notObtained))⟩,
        .responded 0 1 bareJob.key ProxyError.notObtained.render] ∧
    ProxyError.notObtained.render ≠ ProxyError.timeout.render ∧
    ∀ e : Envelope, ProxyError.notObtained.render ≠ e.render := by
  refine ⟨by decide +kernel, by decide +kernel, ?_⟩
  intro e he
  exact ProxyError.status_render_ne .notObtained (congrArg Http.Response.status he)

end OnceProxy
