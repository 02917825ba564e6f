import OnceProxy.Proofs.Envelope.ReadBack
import OnceProxy.Proofs.Proxy.Leases

/-!
# Identical replay

Whoever gets a good response to a key gets the rendering of the one envelope that was stored in the
cycle of the key: the request that stored it renders the envelope itself, and all others render what
they read back from its bytes.
-/

namespace OnceProxy

/-- An envelope that comes of a call for a job. -/
def Origin.Makes (o : Origin) (job : Job) (e : Envelope) : Prop :=
  ∃ n response, (o n job.call).result = .ok response ∧ job.envelope response = .ok e

/-- An origin whose answers can be kept: the parts of their envelopes have lengths of 64 bits. -/
def Origin.Fits (o : Origin) : Prop :=
  ∀ job e, o.Makes job e → e.Fits

open Http in
lemma ProxyError.status_render_ne (e : ProxyError) : e.render.status ≠ 200 := by
  cases e <;> simp [render, status, Response.ofText]

namespace ProxyState

/-! ### Envelopes come from the origin -/

/-- What requests are about to store, and what was stored, comes of calls. -/
structure Genuine (s : ProxyState) : Prop where
  calling : ∀ (i : Nat) job lease since reply,
    s.visitors[i]? = some ⟨job, .serving (.calling lease since reply)⟩ →
    ∃ n, reply = s.origin n job.call
  storing : ∀ (i : Nat) job lease e,
    s.visitors[i]? = some ⟨job, .serving (.storing lease e)⟩ → s.origin.Makes job e
  stored : ∀ time key i lease value,
    .event ⟨time, key, .answered i (.store lease value) (.stored (.ok ()))⟩ ∈ s.log →
    ∃ job e, job.key = key ∧ s.origin.Makes job e ∧ value = e.encode

namespace Genuine

variable {s t : ProxyState}

lemma start (config : Config) (origin : Origin) : (start config origin).Genuine where
  calling _ _ _ _ _ hi := by cases hi
  storing _ _ _ _ hi := by cases hi
  stored _ _ _ _ _ he := by cases he

lemma step (h : s.Genuine) (move : ProxyMove) (change : s.Change move (s.step move)) :
    (s.step move).Genuine := by
  have ho := (s.config_step move).2
  generalize s.step move = t at change ho
  constructor
  · intro i job lease since reply hi
    rw [ho]
    -- whoever calls now called before, or was granted its lease by this turn
    have came := change.came hi
    generalize hc : Course.serving (.calling lease since reply) = course at came
    cases came with
    | same course hi =>
      subst hc
      exact h.calling i job lease since reply hi
    | new => cases hc
    | turn course course' action answer signs calls hi turn =>
      subst hc
      cases turn with
      | leads lease => exact ⟨_, rfl⟩
    | pace stage stage' signs hi pace =>
      cases hc
      cases pace
    | dropped stage hi =>
      exact absurd hc.symm (Course.dropped_ne_serving stage _)
  · intro i job lease e hi
    rw [ho]
    -- whoever stores now stored before, or its call has just returned
    have came := change.came hi
    generalize hc : Course.serving (.storing lease e) = course at came
    cases came with
    | same course hi =>
      subst hc
      exact h.storing i job lease e hi
    | new => cases hc
    | turn course course' action answer signs calls hi turn =>
      subst hc
      cases turn
    | pace stage stage' signs hi pace =>
      cases hc
      cases pace with
      | returns _ since reply response _ due hr he =>
        obtain ⟨n, rfl⟩ := h.calling i job lease since reply hi
        exact ⟨n, response, hr, he⟩
    | dropped stage hi =>
      exact absurd hc.symm (Course.dropped_ne_serving stage _)
  · intro time key i lease value he
    rw [ho]
    -- a store that succeeds is the turn of a request that was about to store
    rcases change.answered he with he | ⟨job, course, course', signs, calls, -, hi, rfl, -, turn, -⟩
    · exact h.stored time key i lease value he
    · cases turn with
      | stores _ e => exact ⟨job, e, rfl, h.storing i job lease e hi, rfl⟩

end Genuine

/-! ### What is seen before a good response -/

/-- A good response. -/
def IsGood (x : Sign) : Prop :=
  ∃ time i key response, x = .responded time i key response ∧ response.status = 200

/-- A good response that is given at once by a request that has stored its envelope or has found
it. -/
def Answers (o : Origin) (before response : Sign) : Prop :=
  ∃ time i key e, response = .responded time i key e.render ∧
    ((∃ lease job, o.Makes job e ∧
      before = .event ⟨time, key, .answered i (.store lease e.encode) (.stored (.ok ()))⟩) ∨
    ∃ value, Envelope.decode value = .ok e ∧
      before = .event ⟨time, key, .answered i .peek (.found (.ok (some value)))⟩)

lemma goodAreAnswers_step {s t : ProxyState} {move : ProxyMove}
    (h : Preceded IsGood (Answers s.origin) s.log)
    (genuine : s.Genuine) (change : s.Change move t) :
    Preceded IsGood (Answers s.origin) t.log := by
  have event (e : Event) : ¬ IsGood (.event e) := by simp [IsGood]
  have failed (time i : Nat) (key : IdempotencyKey) (error : ProxyError) :
      ¬ IsGood (.responded time i key error.render) := by
    rintro ⟨_, _, _, response, he, hs⟩
    cases he
    exact error.status_render_ne hs
  have failing (e : Event) (time i : Nat) (key : IdempotencyKey) (error : ProxyError) :
      Preceded IsGood (Answers s.origin) [.event e, .responded time i key error.render] := by
    apply Preceded.of_not
    intro x hx
    rcases List.mem_cons.mp hx with rfl | hx
    · exact event e
    · rw [List.mem_singleton.mp hx]
      exact failed time i key error
  cases change with
  | quiet arrivals events _ _ _ hl =>
    rw [hl]
    apply h.append
    apply Preceded.of_not
    intro x hx
    obtain ⟨e, -, rfl⟩ := List.mem_map.mp hx
    exact event e
  | heard i job course course' action answer signs hi turn _ hl =>
    rw [hl]
    refine h.append ?_
    generalize t.calls = calls at turn
    -- two of the turns answer with an envelope, which was found or has just been stored
    cases turn with
    | leads | follows | rests | loses | clears => exact .of_not (by simp [IsGood])
    | replays left value e he => exact .pair (event _) ⟨_, _, _, e, rfl, .inr ⟨value, he, rfl⟩⟩
    | stores lease e =>
      exact .pair (event _)
        ⟨_, _, _, e, rfl, .inl ⟨lease, job, genuine.storing i job lease e hi, rfl⟩⟩
    | misses left _ error => exact failing _ _ _ _ error
    | releases lease error => exact failing _ _ _ _ error
  | went i job stage stage' signs _ pace _ _ hl =>
    rw [hl]
    apply h.append
    apply Preceded.of_not
    intro x hx
    cases pace with
    | givesUp =>
      rw [List.mem_singleton.mp hx]
      exact failed _ _ _ .timeout
    | wakes | fails | returns => cases hx
  | dropped i job stage _ _ _ hl =>
    rw [hl]
    exact h

/-! ### Every run -/

/-- What has been shown of every move, of every run. -/
lemma run_answers (config : Config) (origin : Origin) (moves : List ProxyMove) :
    let s := (start config origin).run moves
    s.Valid ∧ s.origin = origin ∧ s.Genuine ∧ Preceded IsGood (Answers s.origin) s.log := by
  refine run_induction (P := fun s => s.origin = origin ∧ s.Genuine ∧
    Preceded IsGood (Answers s.origin) s.log) (.start config origin)
    ⟨rfl, .start config origin, ?_⟩ ?_ moves
  · exact .of_not fun x hx => absurd hx List.not_mem_nil
  · rintro t move valid ⟨ho, genuine, answers⟩
    have change := (valid.linked.step move).2
    have hsame := (t.config_step move).2
    refine ⟨hsame.trans ho, genuine.step move change, ?_⟩
    rw [hsame]
    exact goodAreAnswers_step answers genuine change

/-- When a good response is given its key is ready with the bytes of the envelope. -/
lemma ready_of_good {s : ProxyState} (valid : s.Valid)
    (answers : Preceded IsGood (Answers s.origin) s.log) (fits : s.origin.Fits) {a b : List Sign}
    {time i : Nat} {key : IdempotencyKey} {response : Http.Response}
    (hl : s.log = a ++ .responded time i key response :: b) (good : response.status = 200) :
    Legal s.config.cacheTtl (a.filterMap Sign.event?) ∧ ∃ lease value due e,
      cycleOf s.config.cacheTtl key (a.filterMap Sign.event?) = .ready lease value due ∧
        Envelope.decode value = .ok e ∧ response = e.render := by
  obtain ⟨a', y, rfl, _, _, _, e, he, before⟩ :=
    answers a _ b hl ⟨time, i, key, response, rfl, good⟩
  cases he
  have legal := valid.entries.legal
  rw [← valid.events, hl, List.filterMap_append] at legal
  have legal := legal.of_append
  refine ⟨legal, ?_⟩
  rw [List.filterMap_append] at legal ⊢
  rcases before with ⟨lease, job, makes, rfl⟩ | ⟨value, hd, rfl⟩
  · exact ⟨lease, _, _, e, legal.ready_of_stored rfl rfl,
      Envelope.decode_encode (fits job e makes), rfl⟩
  · obtain ⟨lease, due, hc⟩ := Legal.ready_of_found legal
    exact ⟨lease, value, due, e, hc, hd, rfl⟩

end ProxyState

/-- An envelope was stored in the last cycle of a key: the key was granted to a lease, then the
lease stored the envelope, and nothing else was granted, ended or stored for the key since. -/
def StoredIn (key : IdempotencyKey) (lease : Lease) (e : Envelope) (log : List Event) : Prop :=
  ∃ before granted between stored after, log = before ++ granted :: between ++ stored :: after ∧
    granted.key = key ∧ granted.granted? = some lease ∧
    stored.key = key ∧ stored.stored? = some (lease, e.encode) ∧
    ∀ d ∈ between ++ after, d.Quiet key

lemma Legal.storedIn {ttl : Nat} {key : IdempotencyKey} {log : List Event} (h : Legal ttl log)
    {lease : Lease} {e : Envelope} {due : Nat}
    (hc : cycleOf ttl key log = .ready lease e.encode due) : StoredIn key lease e log := by
  obtain ⟨a, stored, after, old, rfl, hk, hs, hheld, -, hafter⟩ := h.ready_origin hc
  obtain ⟨before, granted, between, rfl, hkg, hg, -, hbetween⟩ := h.of_append.held_origin hheld
  refine ⟨before, granted, between, stored, after, rfl, hkg, hg, hk, hs, ?_⟩
  intro d hd
  rcases List.mem_append.mp hd with hd | hd
  · exact hbetween d hd
  · exact hafter d hd

namespace ProxyState

variable {s : ProxyState} {key : IdempotencyKey}

/-- What a key is ready with came of a call for the key. -/
lemma Genuine.makes_of_ready (genuine : s.Genuine) (valid : s.Valid) {a b : List Sign}
    {lease : Lease} {value : List UInt8} {due : Nat} (hl : s.log = a ++ b)
    (hc : cycleOf s.config.cacheTtl key (a.filterMap Sign.event?) = .ready lease value due) :
    ∃ job e, job.key = key ∧ s.origin.Makes job e ∧ value = e.encode := by
  have legal := valid.entries.legal
  rw [← valid.events, hl, List.filterMap_append] at legal
  obtain ⟨before, stored, after, _, hsplit, rfl, hs, -⟩ := legal.of_append.ready_origin hc
  obtain ⟨client, hstored⟩ := Event.eq_of_stored hs
  have hm : .event stored ∈ s.log := by
    have hm : stored ∈ a.filterMap Sign.event? := by simp [hsplit]
    rw [hl]
    exact List.mem_append_left _ (Sign.mem_events.mp hm)
  rw [hstored] at hm
  exact genuine.stored _ _ _ _ _ hm

/-- Whoever gets a good response gets the rendering of the envelope that was stored in the last
cycle of the key, and that came of a call for it. -/
lemma Genuine.storedIn_of_good (genuine : s.Genuine) (valid : s.Valid)
    (answers : Preceded IsGood (Answers s.origin) s.log) (fits : s.origin.Fits) {a b : List Sign}
    {time i : Nat} {response : Http.Response}
    (hl : s.log = a ++ .responded time i key response :: b) (good : response.status = 200) :
    ∃ lease job e, StoredIn key lease e (a.filterMap Sign.event?) ∧ job.key = key ∧
      s.origin.Makes job e ∧ response = e.render := by
  obtain ⟨legal, lease, value, due, e, hc, hd, rfl⟩ := ready_of_good valid answers fits hl good
  obtain ⟨job, e', hk, makes, rfl⟩ := genuine.makes_of_ready valid hl hc
  rw [Envelope.decode_encode (fits job e' makes)] at hd
  cases hd
  exact ⟨lease, job, e, legal.storedIn hc, hk, makes, rfl⟩

end ProxyState

/-- Identical replay. In every run of a proxy, whoever gets a good response to a key gets the
rendering of the envelope that was stored in the present cycle of the key, by the lease that the key
was granted to, and that came of a call for the key. So all good responses to a key are the same
until its lease is ended. The request that stores with a lease is the one that it was granted to, as
long as the numbers of leases last. -/
theorem run_replays_identical (config : Config) (origin : Origin) (fits : origin.Fits)
    (moves : List ProxyMove) :
    let s := (ProxyState.start config origin).run moves
    (∀ a b time i key response, s.log = a ++ .responded time i key response :: b →
      response.status = 200 →
      ∃ lease job e, StoredIn key lease e (a.filterMap Sign.event?) ∧
        job.key = key ∧ origin.Makes job e ∧ response = e.render) ∧
    (∀ a b c key time i response time' i' response',
      s.log = a ++ .responded time i key response :: b ++ .responded time' i' key response' :: c →
      response.status = 200 → response'.status = 200 →
      (∀ e, .event e ∈ b → e.key = key → e.ended? = none) → response' = response) ∧
    (s.entries.draws < 2 ^ 64 → ∀ time i time' i' key key' lease value,
      .event ⟨time, key, .answered i (.acquire lease) (.acquired true)⟩ ∈ s.log →
      .event ⟨time', key', .answered i' (.store lease value) (.stored (.ok ()))⟩ ∈ s.log →
      i' = i ∧ key' = key) := by
  intro s
  obtain ⟨valid, ho, genuine, answers⟩ := ProxyState.run_answers config origin moves
  rw [← ho] at fits
  refine ⟨?_, ?_, ?_⟩
  · intro a b time i key response hl good
    rw [← ho]
    exact genuine.storedIn_of_good valid answers fits hl good
  · intro a b c key time i response time' i' response' hl good good' same
    rw [List.append_assoc] at hl
    obtain ⟨-, lease, value, due, e, hc, hd, rfl⟩ :=
      ProxyState.ready_of_good valid answers fits hl good
    rw [← List.append_assoc] at hl
    obtain ⟨legal, lease', value', due', e', hc', hd', rfl⟩ :=
      ProxyState.ready_of_good valid answers fits hl good'
    rw [List.filterMap_append] at legal hc'
    -- nothing ends the cycle in between, so that it is still ready with the same envelope
    rcases legal.ready_append hc with hready | ⟨d, hd, hk, hend⟩
    · rw [hready] at hc'
      cases hc'
      rw [hd] at hd'
      cases hd'
      rfl
    · have hm : .event d ∈ b := by
        rcases List.mem_cons.mp (Sign.mem_events.mp hd) with he | hm
        · cases he
        · exact hm
      have hn := same d hm hk
      rcases hend with he | ⟨he, -⟩
      · rw [Event.ended?_eq_some.mpr (.inl he)] at hn
        cases hn
      · rw [Event.ended?_eq_some.mpr (.inr he)] at hn
        cases hn
  · intro hd time i time' i' key key' lease value hg hs
    have owned := ProxyState.Owned.run config origin moves
    exact ProxyState.GrantedTo.unique hd (owned.uses _ _ _ _ _ lease hs rfl) ⟨time, hg⟩

/-- An origin that answers every call with the same text. -/
def greeter : Origin := fun _ _ => ⟨0, .ok ⟨200, .empty, [104, 105]⟩⟩

lemma envelope_greeter (job : Job) :
    job.envelope ⟨200, .empty, [104, 105]⟩ = .ok ⟨200, [], [104, 105], "text/plain"⟩ := by
  have hheaders (e : Envelope) : e.withHeaders .empty job.allowList = e := rfl
  have hbody (mask : List String) :
      (Envelope.new 200).project [104, 105] mask = .ok [104, 105] := by
    unfold Envelope.project
    split
    · rfl
    · rw [if_neg (by decide), if_neg (by decide)]
  rw [Job.envelope, if_pos (by decide), hheaders, Envelope.withBody, hbody]
  rfl

lemma fits_greeter : greeter.Fits := by
  rintro job e ⟨n, response, hr, he⟩
  cases hr
  rw [envelope_greeter] at he
  cases he
  exact ⟨by decide, fun h hh => absurd hh List.not_mem_nil, by decide, by decide⟩

/-- A request that makes a call, and another one that finds its answer. -/
def echo : ProxyState :=
  let job : Job := ⟨⟨"", "", ""⟩, ⟨"", "", .empty, []⟩, "", "", false⟩
  (ProxyState.start ⟨"", 0, 9, 1, 5, 0, none, [], ⟨[], []⟩, [], []⟩ greeter).run
    [.arrive job, .arrive job, .call 0, .lookUp 0, .act 0, .call 1, .lookUp 1, .act 1, .proceed 0,
      .call 0, .lookUp 0, .act 0, .call 1, .lookUp 1, .act 1]

theorem run_replays_identical_echo :
    let key : IdempotencyKey := ⟨"", "", ""⟩
    let e : Envelope := ⟨200, [], [104, 105], "text/plain"⟩
    let before : List Sign :=
      [.event ⟨0, key, .answered 0 (.acquire ⟨1⟩) (.acquired true)⟩,
        .called 0 0 key ⟨1⟩ ⟨"", "", .empty, []⟩,
        .event ⟨0, key, .answered 1 (.acquire ⟨2⟩) (.acquired false)⟩,
        .event ⟨0, key, .answered 0 (.store ⟨1⟩ e.encode) (.stored (.ok ()))⟩]
    let between : List Sign := [.event ⟨0, key, .answered 1 .peek (.found (.ok (some e.encode)))⟩]
    greeter.Fits ∧
    echo.log =
      before ++ .responded 0 0 key e.render :: between ++ .responded 0 1 key e.render :: [] ∧
    e.render.status = 200 ∧
    ∃ lease job e', StoredIn key lease e' (before.filterMap Sign.event?) ∧ job.key = key ∧
      greeter.Makes job e' ∧ e.render = e'.render := by
  intro key e before between
  have he : echo.log =
      before ++ .responded 0 0 key e.render :: between ++ .responded 0 1 key e.render :: [] := by
    decide +kernel
  have h := (run_replays_identical _ greeter fits_greeter _).1 before _ 0 0 key e.render
    (he.trans (List.append_assoc ..)) rfl
  exact ⟨fits_greeter, he, rfl, h⟩

end OnceProxy
