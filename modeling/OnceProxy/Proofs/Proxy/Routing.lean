import OnceProxy.Proofs.Proxy.Admission

/-!
# Where requests go

The gate lets requests through, a table of routes says what serves them, and an exchange is begun
for those that make sense. Whatever passes the gate and is not for the banner is proxied: it is told
what is wrong with it, or it is answered by its exchange. The banner has one path, but not one
method: what serves `GET` serves `HEAD` as well.
-/

namespace OnceProxy

open Http

/-! ### The table of routes -/

/-- What serves the methods of a path. What serves `GET` serves `HEAD` as well, unasked. -/
structure MethodRoutes where
  get : Route
  others : Route

/-- What serves a method. -/
def MethodRoutes.find (m : MethodRoutes) (method : String) : Route :=
  if method = "GET" ∨ method = "HEAD" then m.get else m.others

/-- The paths that have routes of their own, and what serves all other paths. -/
structure RouteTable where
  paths : List (String × MethodRoutes)
  others : Route

/-- What serves a request. -/
def RouteTable.find (t : RouteTable) (r : Request) : Route :=
  match t.paths.lookup r.target.path with
  | some m => m.find r.method
  | none => t.others

/-- The routes of the proxy. -/
def routeTable : RouteTable := ⟨[("/", ⟨.banner, .exchange⟩)], .exchange⟩

lemma routeTable_find (r : Request) : routeTable.find r =
    if r.target.path = "/" ∧ (r.method = "GET" ∨ r.method = "HEAD") then .banner
    else .exchange := by
  by_cases path : r.target.path = "/"
  · simp only [routeTable, RouteTable.find, path, List.lookup_cons_self, MethodRoutes.find,
      true_and]
  · have elsewhere : (r.target.path == "/") = false := beq_eq_false_iff_ne.mpr path
    simp only [routeTable, RouteTable.find, List.lookup_cons, List.lookup_nil, elsewhere, path,
      false_and, if_false]

/-- The table says where requests go. -/
lemma Route.of_eq (r : Request) : Route.of r = routeTable.find r := by
  rw [routeTable_find, Route.of]
  simp [Job.isAtRoot]

/-! ### What gets to an exchange -/

section

variable {c : Config} {clock : UInt64} {r : Request} {agent : String} {e : ProxyError}

/-- What goes wrong goes wrong in the first part or in the second one. -/
lemma error_of_bind {α β : Type} {x : Except ProxyError α} {f : α → Except ProxyError β}
    (h : x >>= f = .error e) : x = .error e ∨ ∃ a, x = .ok a ∧ f a = .error e := by
  cases x with
  | error e' =>
    cases h
    exact .inl rfl
  | ok a => exact .inr ⟨a, rfl, h⟩

/-- Of what makes no sense either the target or the key is missing. -/
lemma Job.ofRequest_cases [UrlRules] (h : Job.ofRequest c agent r = .error e) :
    originUrl c r = .error e ∨
    ∃ url, originUrl c r = .ok url ∧ r.headerText idempotencyKeyHeader = "" ∧
      e = .missingHeader idempotencyKeyHeader.text := by
  unfold ofRequest at h
  rcases error_of_bind h with unresolved | ⟨url, resolved, rest⟩
  · exact .inl unresolved
  · right
    simp only [bind, Except.bind] at rest
    split at rest
    · rename_i keyless
      cases rest
      exact ⟨url, resolved, String.isEmpty_iff.mp keyless, rfl⟩
    · cases rest

lemma variableUrl_eq_error {name : String} (h : variableUrl c name = .error e) :
    ∃ text, e = .validation text := by
  rw [variableUrl] at h
  split at h
  · cases h
  · cases h
    exact ⟨_, rfl⟩

lemma hostUrl_eq_error (h : hostUrl r = .error e) : ∃ text, e = .validation text := by
  rw [hostUrl] at h
  split at h
  · cases h
    exact ⟨_, rfl⟩
  · cases h

/-- What is wrong with the URL of a request is a matter of validation. -/
lemma originUrl_eq_error [UrlRules] (h : originUrl c r = .error e) :
    ∃ text, e = .validation text := by
  rw [originUrl] at h
  split at h
  · rcases error_of_bind h with unknown | ⟨url, -, invalid⟩
    · exact variableUrl_eq_error unknown
    · beta_reduce at invalid
      split at invalid <;> cases invalid
      exact ⟨_, rfl⟩
  · rcases error_of_bind h with hostless | ⟨url, -, invalid⟩
    · exact hostUrl_eq_error hostless
    · beta_reduce at invalid
      split at invalid <;> cases invalid
      exact ⟨_, rfl⟩

/-- What is wrong with a request that is let in is a matter of validation. -/
lemma Job.ofRequest_eq_error [UrlRules] (h : Job.ofRequest c agent r = .error e) :
    ∃ text, e = .validation text := by
  rcases Job.ofRequest_cases h with unresolved | ⟨-, -, -, rfl⟩
  · exact originUrl_eq_error unresolved
  · exact ⟨_, rfl⟩

/-- What gets to an exchange begins it, or it is told what is wrong with it. -/
lemma examine_of_reaches [UrlRules] (h : Reaches c clock r agent) : examine c clock r =
    match Job.ofRequest c agent r with
    | .ok job => .admitted job
    | .error e => .answered (.sent (Job.isAtRoot r) e.render) := by
  obtain ⟨hget, hhead⟩ := Route.ne_of_exchange h.routed
  cases hj : Job.ofRequest c agent r <;>
    simp only [examine, hget, hhead, Bool.false_eq_true, if_false, passage_eq_some h.passed,
      Nat.not_lt.mpr h.small, hj]

/-- What passes the gate and is not for the banner gets to an exchange, if it is small enough. -/
lemma reaches_of_passage {caller : Option String} (passed : passage c clock r = .ok caller)
    (small : r.body.length ≤ c.maxBodyBytes) (routed : routeTable.find r = .exchange) :
    ∃ agent, caller = some agent ∧ Reaches c clock r agent := by
  rw [← Route.of_eq] at routed
  cases caller with
  | none =>
    rw [Route.of_eq_banner passed] at routed
    cases routed
  | some agent => exact ⟨agent, rfl, passed, routed, small⟩

end

/-! ### What requests are answered -/

/-- The moves that wait, or give a turn to one visit. -/
def GatewayMove.IsTurnOf (i : Nat) : GatewayMove → Prop
  | serve (.proceed j) => j = i
  | serve (.pass (.wait _)) => True
  | _ => False

/-- A response is the one that the gate has for its request, or it tells how the visit of the
request ended. -/
def Departure.Accounted [UrlRules] (c : Config) (requests : List (UInt64 × Request))
    (d : Departure) : Prop :=
  ∃ clock r, requests[d.id]? = some (clock, r) ∧
    (examine c clock r = .answered d.response ∨
      ∃ job result, examine c clock r = .admitted job ∧ d.response = job.response result)

lemma Departure.Accounted.append [UrlRules] {c : Config} {requests : List (UInt64 × Request)}
    {d : Departure} (h : d.Accounted c requests) (more : List (UInt64 × Request)) :
    d.Accounted c (requests ++ more) := by
  obtain ⟨clock, r, hr, he⟩ := h
  have hlt : d.id < requests.length := (List.getElem?_eq_some_iff.mp hr).1
  exact ⟨clock, r, by rwa [List.getElem?_append_left hlt], he⟩

lemma Stage.eq_ended {s : Stage} (h : s.hasEnded = true) : ∃ result, s = ended result := by
  cases s with
  | ended result => exact ⟨result, rfl⟩
  | arrived | looking | resting | calling | storing | releasing => cases h

lemma Visit.eq_of_departed {v : Visit} {time : Nat} {d : Departure}
    (h : .departed d ∈ v.reached time) :
    d.id = v.id ∧ ∃ result, d.response = v.job.response result := by
  obtain ⟨id, job, stage⟩ := v
  cases stage with
  | ended result =>
    cases List.mem_singleton.mp h
    exact ⟨rfl, result, rfl⟩
  | calling lease since reply => cases List.mem_singleton.mp h
  | arrived | looking | resting | storing | releasing => exact absurd h List.not_mem_nil

namespace Gateway

/-- A request has the number of those that came in before it. -/
lemma Accounted.getElem?_arrivals [UrlRules] {σ : Type} {c : Config}
    {done : List (UInt64 × Request)} {g : Gateway σ} (h : Accounted c done g)
    (came : UInt64 × Request) (more : List (UInt64 × Request)) :
    (done ++ came :: more)[g.service.arrivals]? = some came := by
  rw [h.arrivals, List.getElem?_append_right (Nat.le_refl _), Nat.sub_self]
  rfl

/-- All responses are accounted for, and how a visit ended has been told. -/
structure Answers [UrlRules] {σ : Type} (c : Config) (requests : List (UInt64 × Request))
    (g : Gateway σ) : Prop where
  accounted : Accounted c requests g
  departed : ∀ d, .departed d ∈ g.service.seen → d.Accounted c requests
  ended : ∀ v ∈ g.service.visits, ∀ result, v.stage = .ended result →
    ∃ time, .departed ⟨v.id, time, v.job.response result⟩ ∈ g.service.seen

namespace Answers

variable [UrlRules] {σ : Type} {b : TimedBackend σ} {c : Config} {o : Origin}
  {requests : List (UInt64 × Request)} {g : Gateway σ}

lemma start (c : Config) (store : σ) : Answers c [] (Gateway.start store) where
  accounted := .start c store
  departed _ hd := absurd hd List.not_mem_nil
  ended _ hv := absurd hv List.not_mem_nil

lemma arrive (h : Answers c requests g) (clock : UInt64) (r : Request) :
    Answers c (requests ++ [(clock, r)]) { g with service := g.service.arrive c clock r } := by
  have accounted := h.accounted.arrive clock r
  unfold Service.arrive at accounted ⊢
  split
  · rename_i response he
    simp only [he] at accounted
    refine ⟨accounted, fun d hd => ?_, fun v hv result hs => ?_⟩
    · rcases List.mem_append.mp hd with hd | hd
      · exact (h.departed d hd).append _
      · -- the response just given is that of the request that has just come
        cases List.mem_singleton.mp hd
        exact ⟨clock, r, h.accounted.getElem?_arrivals (clock, r) [], .inl he⟩
    · obtain ⟨time, hd⟩ := h.ended v hv result hs
      exact ⟨time, List.mem_append_left _ hd⟩
  · rename_i job he
    simp only [he] at accounted
    refine ⟨accounted, fun d hd => (h.departed d hd).append _, fun v hv result hs => ?_⟩
    rcases List.mem_append.mp hv with hv | hv
    · exact h.ended v hv result hs
    · rw [List.mem_singleton.mp hv] at hs
      cases hs

lemma advance (h : Answers c requests g) {i : Nat} {v : Visit}
    (hi : g.service.visits[i]? = some v) :
    Answers c requests { g with service := g.service.advance b c o i v } := by
  obtain ⟨clock, r, hr, he⟩ := h.accounted.visits v (List.mem_of_getElem? hi)
  refine ⟨h.accounted.advance hi, fun d hd => ?_, fun w hw result hs => ?_⟩
  · rcases List.mem_append.mp hd with hd | hd
    · exact h.departed d hd
    · obtain ⟨hid, result, hresult⟩ := Visit.eq_of_departed hd
      exact ⟨clock, r, by rw [hid, hr], .inr ⟨v.job, result, he, hresult⟩⟩
  · rcases List.mem_or_eq_of_mem_set hw with hw | rfl
    · obtain ⟨time, hd⟩ := h.ended w hw result hs
      exact ⟨time, List.mem_append_left _ hd⟩
    · refine ⟨g.service.now, List.mem_append_right _ ?_⟩
      rw [Visit.reached, hs]
      exact List.mem_singleton_self _

lemma drop (h : Answers c requests g) (i : Nat) : Answers c requests (g.drop i) := by
  have accounted := h.accounted.drop i
  unfold Gateway.drop at accounted ⊢
  split
  · exact h
  · rename_i v hi
    simp only [hi] at accounted
    exact ⟨accounted, h.departed, fun w hw => h.ended w (List.mem_of_mem_eraseIdx hw)⟩

lemma clear (h : Answers c requests g) (i : Nat) : Answers c requests (g.clear b i) := by
  have accounted := h.accounted.clear (b := b) i
  unfold Gateway.clear at accounted ⊢
  split
  · exact h
  · rename_i r hi
    simp only [hi] at accounted
    exact ⟨accounted, h.departed, h.ended⟩

lemma step (h : Answers c requests g) (move : GatewayMove) :
    Answers c (requests ++ move.request?.toList) (g.step b c o move) := by
  match move with
  | .serve (.arrive clock r) => exact h.arrive clock r
  | .serve (.proceed i) =>
    show Answers c (requests ++ []) _
    rw [List.append_nil]
    simp only [Gateway.step, Service.step]
    split
    · exact h
    · rename_i v hi
      split
      · exact h.advance hi
      · exact h
  | .serve (.pass tick) =>
    exact ⟨h.accounted.step _, fun d hd => (h.departed d hd).append _, h.ended⟩
  | .drop i => exact (List.append_nil requests).symm ▸ h.drop i
  | .clear i => exact (List.append_nil requests).symm ▸ h.clear i

lemma run (h : Answers c requests g) (moves : List GatewayMove) :
    Answers c (requests ++ requestsOf moves) (g.run b c o moves) := by
  induction moves generalizing requests g with
  | nil => rwa [requestsOf, List.filterMap_nil, List.append_nil]
  | cons move moves ih =>
    rw [Accounted.requestsOf_cons, ← List.append_assoc]
    exact ih (h.step move)

section

variable {id : Nat} {clock : UInt64} {r : Request} {d : Departure}

/-- A request that is answered at once is told nothing else. -/
lemma response_of_answered (h : Answers c requests g) (came : requests[id]? = some (clock, r))
    {response : Response} (examined : examine c clock r = .answered response)
    (hd : .departed d ∈ g.service.seen) (hid : d.id = id) : d.response = response := by
  obtain ⟨clock', r', hr, he⟩ := h.departed d hd
  rw [hid, came] at hr
  cases hr
  rw [examined] at he
  rcases he with he | ⟨job, result, he, -⟩
  · exact (Admission.answered.inj he).symm
  · cases he

/-- A request with a visit is told how it ended. -/
lemma response_of_admitted (h : Answers c requests g) (came : requests[id]? = some (clock, r))
    {job : Job} (examined : examine c clock r = .admitted job)
    (hd : .departed d ∈ g.service.seen) (hid : d.id = id) :
    ∃ result, d.response = job.response result := by
  obtain ⟨clock', r', hr, he⟩ := h.departed d hd
  rw [hid, came] at hr
  cases hr
  rw [examined] at he
  rcases he with he | ⟨job', result, he, hresult⟩
  · cases he
  · cases he
    exact ⟨result, hresult⟩

lemma job_of_admitted (h : Answers c requests g) (came : requests[id]? = some (clock, r))
    {job : Job} (examined : examine c clock r = .admitted job) {v : Visit}
    (hv : v ∈ g.service.visits) (hid : v.id = id) : v.job = job := by
  obtain ⟨clock', r', hr, he⟩ := h.accounted.visits v hv
  rw [hid, came] at hr
  cases hr
  exact Admission.admitted.inj (he.symm.trans examined)

end

end Answers

/-! #### Turns -/

section

variable [UrlRules] {σ : Type} (b : TimedBackend σ) (c : Config) (o : Origin) (g : Gateway σ)

/-- What has been seen is not forgotten. -/
lemma seen_step (move : GatewayMove) :
    g.service.seen <+: (g.step b c o move).service.seen := by
  match move with
  | .serve (.arrive clock r) =>
    simp only [step, Service.step, Service.arrive]
    split
    · exact List.prefix_append _ _
    · exact List.prefix_rfl
  | .serve (.proceed i) =>
    simp only [step, Service.step]
    split
    · exact List.prefix_rfl
    · split
      · exact List.prefix_append _ _
      · exact List.prefix_rfl
  | .serve (.pass tick) => exact List.prefix_rfl
  | .drop i =>
    simp only [step, drop]
    split <;> exact List.prefix_rfl
  | .clear i =>
    simp only [step, clear]
    split <;> exact List.prefix_rfl

lemma seen_run (moves : List GatewayMove) :
    g.service.seen <+: (g.run b c o moves).service.seen := by
  induction moves generalizing g with
  | nil => exact List.prefix_rfl
  | cons move moves ih => exact (g.seen_step b c o move).trans (ih (g.step b c o move))

/-- A visit that is not over gets a turn when it has waited long enough. -/
lemma exists_turn {i : Nat} {v : Visit} (hi : g.service.visits[i]? = some v)
    (live : v.stage.hasEnded = false) :
    ∃ ms, let w : Gateway σ := g.step b c o (.serve (.pass (.wait ms)))
      w.service.visits[i]? = some v ∧
        w.step b c o (.serve (.proceed i)) =
          { w with service := w.service.advance b c o i v } := by
  refine ⟨(v.stage.due? c).getD 0 - g.service.now, hi, ?_⟩
  have ready : v.stage.isReady c (g.service.now + ((v.stage.due? c).getD 0 - g.service.now)) =
      true := by
    rw [Stage.isReady, live]
    cases v.stage.due? c with
    | none => rfl
    | some due =>
      simp only [Option.getD_some, Option.all_some, Bool.not_false, Bool.true_and,
        decide_eq_true_eq]
      omega
  simp only [step, Service.step, hi, Tick.ms, ready, if_true]

end

/-- A visit ends after some turns of its own, whatever else is going on. -/
lemma Answers.exists_turns [UrlRules] {σ : Type} {b : TimedBackend σ} {c : Config} {o : Origin}
    {requests : List (UInt64 × Request)} {g : Gateway σ} (h : Answers c requests g) {i : Nat}
    {v : Visit} (hi : g.service.visits[i]? = some v) :
    ∃ turns, (∀ move ∈ turns, move.IsTurnOf i) ∧ ∃ time result,
      .departed ⟨v.id, time, v.job.response result⟩ ∈ (g.run b c o turns).service.seen := by
  -- on the steps that are left: a wait and a turn take one of them
  induction hn : v.stage.stepsLeft c using Nat.strongRecOn generalizing requests g v with
  | ind n ih =>
    subst hn
    cases live : v.stage.hasEnded with
    | true =>
      obtain ⟨result, hs⟩ := Stage.eq_ended live
      obtain ⟨time, told⟩ := h.ended v (List.mem_of_getElem? hi) result hs
      exact ⟨[], fun move hm => absurd hm List.not_mem_nil, time, result, told⟩
    | false =>
      obtain ⟨ms, hw, turn⟩ := g.exists_turn b c o hi live
      have after := (h.step (b := b) (o := o) (.serve (.pass (.wait ms)))).step (b := b) (o := o)
        (.serve (.proceed i))
      rw [turn] at after
      obtain ⟨turns, own, told⟩ := ih _ (Stage.stepsLeft_step_lt _ _ _ _ _ _ live) after
        (List.getElem?_set_self (List.getElem?_eq_some_iff.mp hw).1) rfl
      refine ⟨.serve (.pass (.wait ms)) :: .serve (.proceed i) :: turns, ?_, ?_⟩
      · intro move hm
        rcases List.mem_cons.mp hm with rfl | hm
        · exact trivial
        rcases List.mem_cons.mp hm with rfl | hm
        · exact rfl
        · exact own move hm
      · rw [← turn] at told
        exact told

end Gateway

/-- Whatever passes the gate is proxied, unless it is too large or asks for the banner, by `GET /`
or `HEAD /`. Let requests come in, be waited for and be dropped, for whatever store, both before and
after it comes in. It comes from an agent and finds an exchange. Either something is wrong with it
and it is told so, at once, and told nothing else. Or it begins a visit with its job, whatever it is
answered says how this visit ended, with an envelope or with an error, and as long as it is not
dropped its visit needs no more than turns of its own to end. -/
theorem run_proxies_all_but_banner [UrlRules] {σ : Type} (b : TimedBackend σ) (c : Config)
    (o : Origin) (store : σ) (before after : List GatewayMove) (clock : UInt64) (r : Request)
    (caller : Option String) (passed : passage c clock r = .ok caller)
    (small : r.body.length ≤ c.maxBodyBytes)
    (other : ¬ (r.target.path = "/" ∧ (r.method = "GET" ∨ r.method = "HEAD"))) :
    let g := (Gateway.start store).run b c o before
    let id := g.service.arrivals
    let arrived : Gateway σ := g.step b c o (.serve (.arrive clock r))
    let later := arrived.run b c o after
    routeTable.find r = .exchange ∧
    ∃ agent, caller = some agent ∧ Reaches c clock r agent ∧
      ((∃ text response, Job.ofRequest c agent r = .error (.validation text) ∧
          response = .sent (Job.isAtRoot r) (ProxyError.validation text).render ∧
          .departed ⟨id, g.service.now, response⟩ ∈ later.service.seen ∧
          ∀ d, .departed d ∈ later.service.seen → d.id = id → d.response = response) ∨
        ∃ job, Job.ofRequest c agent r = .ok job ∧
          arrived.service.visits = g.service.visits ++ [⟨id, job, .arrived⟩] ∧
          (∀ d, .departed d ∈ later.service.seen → d.id = id →
            ∃ result, d.response = job.response result) ∧
          ∀ i v, later.service.visits[i]? = some v → v.id = id → v.job = job ∧
            ∃ turns, (∀ move ∈ turns, move.IsTurnOf i) ∧ ∃ time result,
              .departed ⟨id, time, job.response result⟩ ∈
                (later.run b c o turns).service.seen) := by
  intro g id arrived later
  have routed : routeTable.find r = .exchange := by rw [routeTable_find, if_neg other]
  obtain ⟨agent, rfl, reaches⟩ := reaches_of_passage passed small routed
  refine ⟨routed, agent, rfl, reaches, ?_⟩
  have answers := (Gateway.Answers.start c store).run (b := b) (o := o) before
  -- whatever comes later, the numbers of the requests before stay theirs
  have answers' : Gateway.Answers c (requestsOf before ++ [(clock, r)] ++ requestsOf after) later :=
    (answers.step (.serve (.arrive clock r))).run after
  -- the request has its number among all that have come in
  have came : (requestsOf before ++ [(clock, r)] ++ requestsOf after)[id]? = some (clock, r) := by
    rw [List.append_assoc]
    exact answers.accounted.getElem?_arrivals (clock, r) (requestsOf after)
  have examined := examine_of_reaches reaches
  cases hj : Job.ofRequest c agent r with
  | error e =>
    left
    obtain ⟨text, rfl⟩ := Job.ofRequest_eq_error hj
    simp only [hj] at examined
    let response : Response := .sent (Job.isAtRoot r) (ProxyError.validation text).render
    have told : .departed ⟨id, g.service.now, response⟩ ∈ arrived.service.seen := by
      simp only [arrived, Gateway.step, Service.step, Service.arrive, examined]
      exact List.mem_append_right _ (List.mem_singleton_self _)
    exact ⟨text, response, rfl, rfl, (arrived.seen_run b c o after).mem told,
      fun d => answers'.response_of_answered came examined⟩
  | ok job =>
    right
    simp only [hj] at examined
    refine ⟨job, rfl, ?_, fun d => answers'.response_of_admitted came examined, ?_⟩
    · simp only [arrived, Gateway.step, Service.step, Service.arrive, examined]
      rfl
    · intro i v hi hid
      obtain rfl := answers'.job_of_admitted came examined (List.mem_of_getElem? hi) hid
      rw [← hid]
      exact ⟨rfl, answers'.exists_turns hi⟩

/-- A proxy that lets in everybody. -/
def openHouse : Config := ⟨"", 0, 9, 1, 5, 9, none, [], ⟨[], []⟩, [], []⟩

/-- A request for the path of the banner, by a method that the banner does not serve. -/
def doorstep : Request := { stranger with target := .ofString "/" }

/-- The request makes its call, waits for the answer and stores it. -/
def welcomed : List GatewayMove :=
  [.serve (.proceed 0), .serve (.pass (.wait 2)), .serve (.proceed 0), .serve (.proceed 0)]

theorem run_proxies_all_but_banner_doorstep :
    let origin : Origin := fun _ _ => ⟨2, .ok ⟨200, .empty, [104, 105]⟩⟩
    let start : Gateway MemoryStore := .start (.new 5)
    let arrived : Gateway MemoryStore := start.step .memory openHouse origin
      (.serve (.arrive 0 doorstep))
    let later := arrived.run .memory openHouse origin welcomed
    passage openHouse 0 doorstep = .ok (some anonymous) ∧
    doorstep.body.length ≤ openHouse.maxBodyBytes ∧
    ¬ (doorstep.target.path = "/" ∧ (doorstep.method = "GET" ∨ doorstep.method = "HEAD")) ∧
    routeTable.find doorstep = .exchange ∧
    later.service.shared.calls.length = 1 ∧ later.service.seen.length = 2 ∧
    ∃ job, Job.ofRequest openHouse anonymous doorstep = .ok job ∧
      ∀ d, .departed d ∈ later.service.seen → d.id = 0 →
        ∃ result, d.response = job.response result := by
  intro origin start arrived later
  have passed : passage openHouse 0 doorstep = .ok (some anonymous) := rfl
  have small : doorstep.body.length ≤ openHouse.maxBodyBytes := by decide
  have other : ¬ (doorstep.target.path = "/" ∧
      (doorstep.method = "GET" ∨ doorstep.method = "HEAD")) := by decide
  have sensible : (Job.ofRequest openHouse anonymous doorstep).toBool = true := by decide +kernel
  obtain ⟨routed, agent, known, -, ⟨text, -, wrong, -⟩ | ⟨job, hj, -, told, -⟩⟩ :=
    run_proxies_all_but_banner .memory openHouse origin (.new 5) [] welcomed 0 doorstep _ passed
      small other
  · cases known
    rw [wrong] at sensible
    cases sensible
  · cases known
    exact ⟨passed, small, other, routed, by decide +kernel, by decide +kernel, job, hj, told⟩

/-- The request by a method that the banner is not meant to serve, but serves. -/
def nod : Request := { doorstep with method := "HEAD" }

/-- A request that is not `GET /`, passes the gate, is small, and has a target and a key, can be
answered by the banner all the same. No visit begins for it, and no call is made. -/
theorem exists_passed_not_proxied :
    ¬ (nod.target.path = "/" ∧ nod.method = "GET") ∧
    passage openHouse 0 nod = .ok (some anonymous) ∧ nod.body.length ≤ openHouse.maxBodyBytes ∧
    (∃ job, Job.ofRequest openHouse anonymous nod = .ok job) ∧
    ∀ (o : Origin) (store : MemoryStore),
      let g : Gateway MemoryStore :=
        (Gateway.start store).run .memory openHouse o [.serve (.arrive 0 nod)]
      g.service.seen = [.departed ⟨0, 0, banner.withoutBody⟩] ∧ g.service.visits = [] ∧
        g.service.shared.calls = [] := by
  have sensible : (Job.ofRequest openHouse anonymous nod).toBool = true := by decide +kernel
  refine ⟨by decide, rfl, by decide, ?_, fun o store => ⟨rfl, rfl, rfl⟩⟩
  cases hj : Job.ofRequest openHouse anonymous nod with
  | ok job => exact ⟨job, rfl⟩
  | error e =>
    rw [hj] at sensible
    cases sensible

end OnceProxy
