import OnceProxy.Proofs.Proxy.Routing

/-!
# Requests that leave no trace

Many requests are done with before they get to an exchange: those for the banner, those of unknown
or unlisted callers, those with too large a body, without a target or without a key. They leave
nothing behind but their responses. A proxy to which they never came is the same, but for the
numbers of the other requests.
-/

namespace OnceProxy

open Http

/-! ### What is done with at the gate -/

/-- A request asks for the banner in the one way that needs no token. -/
def AsksForBanner (r : Request) : Prop :=
  r.target.path = "/" ∧ r.method = "GET"

/-- The response to a request that the gate does not let through. -/
def gateResponse (r : Request) (e : ProxyError) : Response :=
  if Job.isAtRoot r && r.method == "HEAD" then e.render.withLength.withoutBody
  else e.render.withLength

/-- A request is done with before it gets to an exchange, for one of these reasons, and answered
so. -/
inductive Dismissed [UrlRules] (c : Config) (clock : UInt64) (r : Request) : Response → Prop where
  | banner (asked : AsksForBanner r) : Dismissed c clock r banner
  | unknown (unasked : ¬ AsksForBanner r) (cause : AuthError)
    (nobody : agentOf c clock r = .error (.auth cause)) :
    Dismissed c clock r (gateResponse r (.auth cause))
  | forbidden (unasked : ¬ AsksForBanner r) (agent : String)
    (known : agentOf c clock r = .ok agent)
    (unlisted : c.allowAgents ≠ [] ∧ agent ∉ c.allowAgents) :
    Dismissed c clock r (gateResponse r (.forbidden agent))
  | tooLarge (agent : String) (passed : passage c clock r = .ok (some agent))
    (routed : routeTable.find r = .exchange) (large : c.maxBodyBytes < r.body.length) :
    Dismissed c clock r (.sent (Job.isAtRoot r) tooLarge)
  | noTarget (agent : String) (reaches : Reaches c clock r agent) (e : ProxyError)
    (unresolved : originUrl c r = .error e) :
    Dismissed c clock r (.sent (Job.isAtRoot r) e.render)
  | noKey (agent : String) (reaches : Reaches c clock r agent) (url : String)
    (resolved : originUrl c r = .ok url) (keyless : r.headerText idempotencyKeyHeader = "") :
    Dismissed c clock r
      (.sent (Job.isAtRoot r) (ProxyError.missingHeader idempotencyKeyHeader.text).render)

section

variable {c : Config} {clock : UInt64} {r : Request} {agent : String} {e : ProxyError}

lemma asksForBanner_iff :
    AsksForBanner r ↔ (Job.isAtRoot r && r.method == "GET") = true := by
  simp [AsksForBanner, Job.isAtRoot]

/-- What a request is that does not ask for the banner: it is let through just if it shows who sends
it, and if this agent is let in. -/
lemma passage_of_unasked (unasked : ¬ AsksForBanner r) : passage c clock r =
    match authenticate c clock r with
    | .ok agent => .ok (some agent)
    | .error e => .error e := by
  rw [passage, Bool.eq_false_iff.mpr (asksForBanner_iff.not.mp unasked)]
  rfl

lemma authenticate_of_unknown {cause : AuthError}
    (h : agentOf c clock r = .error (.auth cause)) :
    authenticate c clock r = .error (.auth cause) := by
  rw [authenticate, h]
  rfl

lemma authenticate_of_unlisted (h : agentOf c clock r = .ok agent)
    (unlisted : c.allowAgents ≠ [] ∧ agent ∉ c.allowAgents) :
    authenticate c clock r = .error (.forbidden agent) := by
  have outside : (!c.allowAgents.isEmpty && !c.allowAgents.contains agent) = true := by
    simpa using unlisted
  simp only [authenticate, h, bind, Except.bind, outside, if_true]
  rfl

/-- Who is not let in is unknown, or is known and not listed. -/
lemma authenticate_cases (h : authenticate c clock r = .error e) :
    (∃ cause, e = .auth cause ∧ agentOf c clock r = .error (.auth cause)) ∨
      ∃ agent, e = .forbidden agent ∧ agentOf c clock r = .ok agent ∧
        c.allowAgents ≠ [] ∧ agent ∉ c.allowAgents := by
  -- either the token is wrong, or its agent is not in the list
  cases ha : agentOf c clock r with
  | error e' =>
    left
    rw [authenticate, ha] at h
    cases h
    rw [agentOf] at ha
    split at ha
    · cases ha
    · split at ha
      · cases ha
      · cases ha
        exact ⟨_, rfl, rfl⟩
  | ok agent =>
    right
    by_cases listed : c.allowAgents ≠ [] → agent ∈ c.allowAgents
    · rw [authenticate_eq_ok_iff.mpr ⟨ha, listed⟩] at h
      cases h
    · have unlisted := Classical.not_imp.mp listed
      rw [authenticate_of_unlisted ha unlisted] at h
      cases h
      exact ⟨agent, rfl, rfl, unlisted⟩

variable [UrlRules]

lemma Job.ofRequest_of_unresolved (h : originUrl c r = .error e) :
    Job.ofRequest c agent r = .error e := by
  rw [ofRequest, h]
  rfl

lemma Job.ofRequest_of_keyless {url : String} (h : originUrl c r = .ok url)
    (keyless : r.headerText idempotencyKeyHeader = "") :
    Job.ofRequest c agent r = .error (.missingHeader idempotencyKeyHeader.text) := by
  simp only [ofRequest, h, bind, Except.bind, keyless]
  rfl

lemma examine_of_asked (asked : AsksForBanner r) : examine c clock r = .answered banner := by
  simp only [examine, asksForBanner_iff.mp asked, if_true]

lemma examine_of_stopped (unasked : ¬ AsksForBanner r) (h : authenticate c clock r = .error e) :
    examine c clock r = .answered (gateResponse r e) := by
  rw [asksForBanner_iff, Bool.not_eq_true] at unasked
  simp only [examine, unasked, Bool.false_eq_true, if_false, h, gateResponse]

/-- What serves `GET` at the path of the banner serves `HEAD` there too. -/
lemma examine_of_passed_banner (passed : passage c clock r = .ok (some agent))
    (routed : routeTable.find r = .banner) :
    examine c clock r = .answered banner.withoutBody := by
  have unasked : (Job.isAtRoot r && r.method == "GET") = false := by
    rw [Bool.eq_false_iff]
    intro asked
    rw [passage, if_pos asked] at passed
    cases passed
  have head : (Job.isAtRoot r && r.method == "HEAD") = true := by
    rw [← Route.of_eq] at routed
    by_contra head
    rw [Route.of, Bool.and_or_distrib_left, unasked, Bool.eq_false_iff.mpr head] at routed
    cases routed
  simp only [examine, unasked, Bool.false_eq_true, if_false, passage_eq_some passed, head, if_true]

lemma examine_of_large (passed : passage c clock r = .ok (some agent))
    (routed : routeTable.find r = .exchange) (large : c.maxBodyBytes < r.body.length) :
    examine c clock r = .answered (.sent (Job.isAtRoot r) tooLarge) := by
  rw [← Route.of_eq] at routed
  obtain ⟨hget, hhead⟩ := Route.ne_of_exchange routed
  simp only [examine, hget, hhead, Bool.false_eq_true, if_false, passage_eq_some passed, large,
    if_true]

lemma examine_of_dismissed {response : Response} (h : Dismissed c clock r response) :
    examine c clock r = .answered response := by
  cases h with
  | banner asked => exact examine_of_asked asked
  | unknown unasked cause nobody =>
    exact examine_of_stopped unasked (authenticate_of_unknown nobody)
  | forbidden unasked agent known unlisted =>
    exact examine_of_stopped unasked (authenticate_of_unlisted known unlisted)
  | tooLarge agent passed routed large => exact examine_of_large passed routed large
  | noTarget agent reaches e unresolved =>
    rw [examine_of_reaches reaches, Job.ofRequest_of_unresolved unresolved]
  | noKey agent reaches url resolved keyless =>
    rw [examine_of_reaches reaches, Job.ofRequest_of_keyless resolved keyless]

variable (c clock r) in
/-- There are three ways for a request to go: it is dismissed, it asks for the banner in the way
that needs a token, or it gets to an exchange and makes sense there. -/
lemma examine_cases : (∃ response, Dismissed c clock r response) ∨
    (∃ agent, passage c clock r = .ok (some agent) ∧ routeTable.find r = .banner) ∨
    ∃ agent job, Reaches c clock r agent ∧ Job.ofRequest c agent r = .ok job := by
  -- through the gates one after the other: banner, token, list, route, size, target and key
  by_cases asked : AsksForBanner r
  · exact .inl ⟨_, .banner asked⟩
  cases ha : authenticate c clock r with
  | error e =>
    rcases authenticate_cases ha with ⟨cause, rfl, nobody⟩ | ⟨agent, rfl, known, unlisted⟩
    · exact .inl ⟨_, .unknown asked cause nobody⟩
    · exact .inl ⟨_, .forbidden asked agent known unlisted⟩
  | ok agent =>
    have passed : passage c clock r = .ok (some agent) := by rw [passage_of_unasked asked, ha]
    cases routed : routeTable.find r with
    | banner => exact .inr (.inl ⟨agent, passed, rfl⟩)
    | exchange =>
      rcases Nat.lt_or_ge c.maxBodyBytes r.body.length with large | small
      · exact .inl ⟨_, .tooLarge agent passed routed large⟩
      have reaches : Reaches c clock r agent := ⟨passed, (Route.of_eq r).trans routed, small⟩
      cases hj : Job.ofRequest c agent r with
      | ok job => exact .inr (.inr ⟨agent, job, reaches, hj⟩)
      | error e =>
        rcases Job.ofRequest_cases hj with unresolved | ⟨url, resolved, keyless, -⟩
        · exact .inl ⟨_, .noTarget agent reaches e unresolved⟩
        · exact .inl ⟨_, .noKey agent reaches url resolved keyless⟩

/-- What is dismissed was let through for an exchange, or was not let through with an agent. -/
lemma Dismissed.routed {response : Response} (h : Dismissed c clock r response)
    (passed : passage c clock r = .ok (some agent)) : routeTable.find r = .exchange := by
  cases h with
  | banner asked =>
    rw [passage, if_pos (asksForBanner_iff.mp asked)] at passed
    cases passed
  | unknown unasked cause nobody =>
    rw [passage_of_unasked unasked, authenticate_of_unknown nobody] at passed
    cases passed
  | forbidden unasked agent' known unlisted =>
    rw [passage_of_unasked unasked, authenticate_of_unlisted known unlisted] at passed
    cases passed
  | tooLarge agent' passed' routed large => exact routed
  | noTarget agent' reaches e unresolved => rw [← Route.of_eq, reaches.routed]
  | noKey agent' reaches url resolved keyless => rw [← Route.of_eq, reaches.routed]

/-- Whether a request is dismissed. -/
def dismisses (c : Config) (clock : UInt64) (r : Request) : Bool :=
  match passage c clock r with
  | .ok (some _) =>
    match routeTable.find r, examine c clock r with
    | .exchange, .answered _ => true
    | _, _ => false
  | _ => true

lemma dismisses_iff : dismisses c clock r = true ↔ ∃ response, Dismissed c clock r response := by
  constructor
  · intro h
    rcases examine_cases c clock r with
      dismissed | ⟨agent, passed, routed⟩ | ⟨agent, job, reaches, hj⟩
    · exact dismissed
    · simp only [dismisses, passed, routed, Bool.false_eq_true] at h
    · have routed : routeTable.find r = .exchange := by rw [← Route.of_eq, reaches.routed]
      simp only [dismisses, reaches.passed, routed, examine_of_reaches reaches, hj,
        Bool.false_eq_true] at h
  · rintro ⟨response, dismissed⟩
    unfold dismisses
    split
    · rename_i agent passed
      rw [dismissed.routed passed, examine_of_dismissed dismissed]
    · rfl

end

/-! ### Without the requests that are dismissed -/

/-- A request is dismissed. -/
def IsDismissed [UrlRules] (c : Config) (came : UInt64 × Request) : Prop :=
  ∃ response, Dismissed c came.1 came.2 response

instance decidableIsDismissed [UrlRules] (c : Config) : DecidablePred (IsDismissed c) := fun came =>
  decidable_of_iff (dismisses c came.1 came.2 = true) dismisses_iff

/-- A move remains, unless a request comes in that is dismissed. -/
def GatewayMove.Remains [UrlRules] (c : Config) (move : GatewayMove) : Prop :=
  ∀ came ∈ move.request?, ¬ IsDismissed c came

instance GatewayMove.decidableRemains [UrlRules] (c : Config) :
    DecidablePred (GatewayMove.Remains c) :=
  fun move => inferInstanceAs (Decidable (∀ came ∈ move.request?, ¬ IsDismissed c came))

/-- The request with a number remains. -/
def RemainsAt [UrlRules] (c : Config) (requests : List (UInt64 × Request)) (id : Nat) : Prop :=
  ∃ came ∈ requests[id]?, ¬ IsDismissed c came

instance decidableRemainsAt [UrlRules] (c : Config) (requests : List (UInt64 × Request)) :
    DecidablePred (RemainsAt c requests) := fun id =>
  inferInstanceAs (Decidable (∃ came ∈ requests[id]?, ¬ IsDismissed c came))

/-- The number that a request has among those that remain. -/
def rank [UrlRules] (c : Config) (requests : List (UInt64 × Request)) (id : Nat) : Nat :=
  ((requests.take id).filter fun came => ¬ IsDismissed c came).length

/-- What passes a filter is found behind all that passes it before. -/
lemma getElem?_filter {α : Type} {p : α → Bool} {l : List α} {i : Nat} {a : α}
    (h : l[i]? = some a) (passes : p a = true) :
    (l.filter p)[((l.take i).filter p).length]? = some a := by
  obtain ⟨hlt, rfl⟩ := List.getElem?_eq_some_iff.mp h
  have parted : l.filter p = (l.take i).filter p ++ l[i] :: (l.drop (i + 1)).filter p := by
    rw [← List.filter_cons_of_pos passes, ← List.drop_eq_getElem_cons hlt, ← List.filter_append,
      List.take_append_drop]
  rw [parted, List.getElem?_append_right (Nat.le_refl _), Nat.sub_self]
  rfl

section

variable [UrlRules] {c : Config} {requests : List (UInt64 × Request)} {id id' : Nat}
  {came : UInt64 × Request}

lemma rank_succ_of_remains (h : requests[id]? = some came) (remains : ¬ IsDismissed c came) :
    rank c requests (id + 1) = rank c requests id + 1 := by
  rw [rank, List.take_add_one, h, List.filter_append, List.length_append]
  simp [rank, remains]

lemma rank_succ_of_dismissed (h : requests[id]? = some came) (dismissed : IsDismissed c came) :
    rank c requests (id + 1) = rank c requests id := by
  rw [rank, List.take_add_one, h, List.filter_append, List.length_append]
  simp [rank, dismissed]

lemma rank_mono (h : id ≤ id') : rank c requests id ≤ rank c requests id' :=
  ((List.take_sublist_take_left h).filter _).length_le

lemma rank_lt (remains : RemainsAt c requests id) (h : id < id') :
    rank c requests id < rank c requests id' := by
  obtain ⟨came, hr, remains⟩ := remains
  have next := rank_succ_of_remains hr remains
  have le : rank c requests (id + 1) ≤ rank c requests id' := rank_mono h
  omega

/-- Requests that remain are told apart by their new numbers. -/
lemma rank_inj (remains : RemainsAt c requests id) (remains' : RemainsAt c requests id') :
    rank c requests id = rank c requests id' ↔ id = id' := by
  constructor
  · intro h
    rcases Nat.lt_trichotomy id id' with lt | same | lt
    · exact absurd h (Nat.ne_of_lt (rank_lt remains lt))
    · exact same
    · exact absurd h.symm (Nat.ne_of_lt (rank_lt remains' lt))
  · rintro rfl
    rfl

/-- A request that remains is found at its new number. -/
lemma getElem?_rank (h : requests[id]? = some came) (remains : ¬ IsDismissed c came) :
    (requests.filter fun came => ¬ IsDismissed c came)[rank c requests id]? = some came :=
  getElem?_filter h (decide_eq_true remains)

/-- What is not dismissed begins an exchange, or is told the head of the banner. -/
lemma examine_of_remains {clock : UInt64} {r : Request} (remains : ¬ IsDismissed c (clock, r)) :
    (r.target.path = "/" ∧ r.method = "HEAD" ∧
      examine c clock r = .answered banner.withoutBody) ∨
      ∃ job, examine c clock r = .admitted job := by
  rcases examine_cases c clock r with
    dismissed | ⟨agent, passed, routed⟩ | ⟨agent, job, reaches, hj⟩
  · exact absurd dismissed remains
  · left
    have told := examine_of_passed_banner passed routed
    rw [routeTable_find] at routed
    split at routed
    · rename_i asked
      have head := asked.2.resolve_left fun get => remains ⟨_, .banner ⟨asked.1, get⟩⟩
      exact ⟨asked.1, head, told⟩
    · cases routed
  · exact .inr ⟨job, examine_eq_admitted_iff.mpr ⟨agent, reaches, hj⟩⟩

/-- A request that asks for a job is not dismissed. -/
lemma Asks.remains {job : Job} (h : Asks c requests id job) : RemainsAt c requests id := by
  obtain ⟨clock, r, hr, admitted⟩ := h
  refine ⟨(clock, r), hr, ?_⟩
  rintro ⟨response, dismissed⟩
  rw [examine_of_dismissed dismissed] at admitted
  cases admitted

end

/-- The requests that come in are those that remain, where the others do not come. -/
lemma requestsOf_remaining [UrlRules] (c : Config) (moves : List GatewayMove) :
    requestsOf (moves.filter fun move => move.Remains c) =
      (requestsOf moves).filter fun came => ¬ IsDismissed c came := by
  rw [requestsOf, requestsOf, List.filterMap_filter, List.filter_filterMap]
  refine List.filterMap_congr fun move _ => ?_
  cases hm : move.request? with
  | none => simp
  | some came =>
    by_cases dismissed : IsDismissed c came <;>
      simp [GatewayMove.Remains, hm, dismissed, Option.filter]

/-! #### Other numbers -/

/-- The request for which something is seen. -/
def Sighting.id : Sighting → Nat
  | called id _ _ => id
  | departed d => d.id

/-- Gives a request another number. -/
def Sighting.renumber (ρ : Nat → Nat) : Sighting → Sighting
  | called id time call => called (ρ id) time call
  | departed d => departed { d with id := ρ d.id }

/-- Gives a request another number. -/
def Visit.renumber (ρ : Nat → Nat) (v : Visit) : Visit :=
  { v with id := ρ v.id }

/-- Gives a request another number. -/
def Remnant.renumber (ρ : Nat → Nat) (r : Remnant) : Remnant :=
  { r with id := ρ r.id }

/-- Gives a request another number. -/
def Use.renumber (ρ : Nat → Nat) (use : Use) : Use :=
  { use with id := ρ use.id }

@[simp] lemma Visit.stage_renumber (ρ : Nat → Nat) (v : Visit) : (v.renumber ρ).stage = v.stage :=
  rfl

lemma Visit.reached_renumber (ρ : Nat → Nat) (v : Visit) (time : Nat) :
    (v.renumber ρ).reached time = (v.reached time).map (Sighting.renumber ρ) := by
  obtain ⟨id, job, stage⟩ := v
  cases stage <;> rfl

lemma Visit.id_of_reached {v : Visit} {time : Nat} {s : Sighting} (h : s ∈ v.reached time) :
    s.id = v.id := by
  obtain ⟨id, job, stage⟩ := v
  cases stage with
  | calling lease since reply =>
    cases List.mem_singleton.mp h
    rfl
  | ended result =>
    cases List.mem_singleton.mp h
    rfl
  | arrived | looking | resting | storing | releasing => exact absurd h List.not_mem_nil

/-- All that is seen of the visit of a request remains if the request does. -/
lemma Visit.filter_reached [UrlRules] {c : Config} {requests : List (UInt64 × Request)} {v : Visit}
    (remains : RemainsAt c requests v.id) (time : Nat) :
    ((v.reached time).filter fun s => RemainsAt c requests s.id) = v.reached time := by
  refine List.filter_eq_self.mpr fun s hs => decide_eq_true ?_
  rwa [Visit.id_of_reached hs]

lemma Sighting.id_renumber (ρ : Nat → Nat) (s : Sighting) : (s.renumber ρ).id = ρ s.id := by
  cases s <;> rfl

lemma Sighting.renumber_inj [UrlRules] {c : Config} {requests : List (UInt64 × Request)}
    {s t : Sighting} (remains : RemainsAt c requests s.id)
    (remains' : RemainsAt c requests t.id)
    (same : s.renumber (rank c requests) = t.renumber (rank c requests)) : s = t := by
  -- ranks tell remaining requests apart, and renumbering keeps all the rest
  have numbers := congrArg Sighting.id same
  rw [id_renumber, id_renumber, rank_inj remains remains'] at numbers
  cases s with
  | called id time call =>
    cases t with
    | called id' time' call' =>
      obtain ⟨-, rfl, rfl⟩ := called.inj same
      rw [show id = id' from numbers]
    | departed d' => cases same
  | departed d =>
    cases t with
    | called id' time' call' => cases same
    | departed d' =>
      obtain ⟨id, time, response⟩ := d
      obtain ⟨id', time', response'⟩ := d'
      obtain ⟨-, rfl, rfl⟩ := Departure.mk.inj (departed.inj same)
      rw [show id = id' from numbers]

namespace Gateway

variable {σ : Type}

/-- A proxy as it would be if the requests that are dismissed had never come. -/
def without [UrlRules] (c : Config) (requests : List (UInt64 × Request)) (g : Gateway σ) :
    Gateway σ where
  service :=
    { now := g.service.now
      arrivals := rank c requests g.service.arrivals
      shared := g.service.shared
      visits := g.service.visits.map (Visit.renumber (rank c requests))
      seen := (g.service.seen.filter fun s => RemainsAt c requests s.id).map
        (Sighting.renumber (rank c requests)) }
  remnants := g.remnants.map (Remnant.renumber (rank c requests))

section

variable [UrlRules] {b : TimedBackend σ} {c : Config} {o : Origin} {g : Gateway σ}
  {requests done more : List (UInt64 × Request)} {clock : UInt64} {r : Request}

@[simp] lemma now_without : (g.without c requests).service.now = g.service.now := rfl

@[simp] lemma visits_without : (g.without c requests).service.visits =
    g.service.visits.map (Visit.renumber (rank c requests)) := rfl

/-- A request that is dismissed is counted and answered, and changes nothing else. -/
lemma step_of_dismissed {response : Response} (dismissed : Dismissed c clock r response) :
    g.step b c o (.serve (.arrive clock r)) =
      let told : Sighting := .departed ⟨g.service.arrivals, g.service.now, response⟩
      { g with
        service := { g.service with
          arrivals := g.service.arrivals + 1
          seen := g.service.seen ++ [told] } } := by
  simp only [step, Service.step, Service.arrive, examine_of_dismissed dismissed]

lemma without_skip (came : requests[g.service.arrivals]? = some (clock, r))
    (dismissed : IsDismissed c (clock, r)) :
    (g.step b c o (.serve (.arrive clock r))).without c requests = g.without c requests := by
  have gone : ¬ RemainsAt c requests g.service.arrivals := by
    rintro ⟨came', hr, remains⟩
    rw [came] at hr
    cases hr
    exact remains dismissed
  have number := rank_succ_of_dismissed came dismissed
  obtain ⟨response, dismissed⟩ := dismissed
  have unseen : [Sighting.departed ⟨g.service.arrivals, g.service.now, response⟩].filter
      (fun s => RemainsAt c requests s.id) = [] := by simp [Sighting.id, gone]
  rw [step_of_dismissed dismissed]
  simp only [without, number, List.filter_append, unseen, List.append_nil]

lemma arrive_without (came : requests[g.service.arrivals]? = some (clock, r))
    (remains : ¬ IsDismissed c (clock, r)) :
    (g.without c requests).step b c o (.serve (.arrive clock r)) =
      (g.step b c o (.serve (.arrive clock r))).without c requests := by
  have number := rank_succ_of_remains came remains
  have stays : RemainsAt c requests g.service.arrivals := ⟨_, came, remains⟩
  simp only [step, Service.step, Service.arrive]
  split
  · rename_i response he
    have seen : (.departed ⟨g.service.arrivals, g.service.now, response⟩ : Sighting).id =
        g.service.arrivals := rfl
    simp only [without, number, List.filter_append, List.map_append]
    simp [stays, seen, Sighting.renumber]
  · simp only [without, number, List.map_append]
    rfl

lemma advance_without {i : Nat} {v : Visit} (remains : RemainsAt c requests v.id) :
    ({ g.without c requests with
      service := (g.without c requests).service.advance b c o i
        (v.renumber (rank c requests)) } : Gateway σ) =
      ({ g with service := g.service.advance b c o i v } : Gateway σ).without c requests := by
  -- what is seen of the visit is seen of a request that remains
  let w : Visit := { v with
    stage := (v.stage.step b.toBackend c o g.service.now v.job g.service.shared).1 }
  have seen : ((w.reached g.service.now).filter fun s => RemainsAt c requests s.id).map
      (Sighting.renumber (rank c requests)) =
        (w.renumber (rank c requests)).reached g.service.now := by
    rw [Visit.filter_reached (v := w) remains, Visit.reached_renumber]
  simp only [without, Service.advance, List.filter_append, List.map_append, List.map_set]
  rw [seen]
  rfl

lemma drop_without (i : Nat) :
    (g.without c requests).drop i = (g.drop i).without c requests := by
  simp only [drop, without, List.getElem?_map]
  cases g.service.visits[i]? with
  | none => rfl
  | some v =>
    simp only [Option.map_some, List.map_append, List.eraseIdx_map, Visit.remnant?, Visit.renumber]
    cases v.stage.abandoned? <;> rfl

lemma clear_without (i : Nat) :
    (g.without c requests).clear b i = (g.clear b i).without c requests := by
  simp only [clear, without, List.getElem?_map]
  cases g.remnants[i]? with
  | none => rfl
  | some r =>
    simp only [Option.map_some, List.eraseIdx_map]
    rfl

lemma proceed_without (h : Accounted c done g) (all : requests = done ++ more) (i : Nat) :
    (g.without c requests).step b c o (.serve (.proceed i)) =
      (g.step b c o (.serve (.proceed i))).without c requests := by
  simp only [step, Service.step, visits_without, now_without, List.getElem?_map]
  cases hi : g.service.visits[i]? with
  | none => rfl
  | some v =>
    have remains : RemainsAt c requests v.id :=
      all ▸ ((h.visits v (List.mem_of_getElem? hi)).append more).remains
    by_cases ready : v.stage.isReady c g.service.now = true
    · simp only [Option.map_some, Visit.stage_renumber, ready, if_true]
      exact advance_without remains
    · simp only [Option.map_some, Visit.stage_renumber, ready]
      rfl

/-- What is done next is done with or without the requests that are dismissed. -/
lemma step_without (h : Accounted c done g) {move : GatewayMove}
    (all : requests = done ++ (move.request?.toList ++ more)) (remains : move.Remains c) :
    (g.without c requests).step b c o move = (g.step b c o move).without c requests := by
  match move with
  | .serve (.arrive clock r) =>
    refine arrive_without ?_ (remains _ rfl)
    rw [all]
    exact h.getElem?_arrivals (clock, r) more
  | .serve (.proceed i) => exact proceed_without h all i
  | .serve (.pass tick) => rfl
  | .drop i => exact drop_without i
  | .clear i => exact clear_without i

lemma use?_without (move : GatewayMove) :
    (g.without c requests).use? c move =
      (g.use? c move).map (Use.renumber (rank c requests)) := by
  match move with
  | .serve (.arrive clock r) => rfl
  | .serve (.proceed i) =>
    simp only [use?, visits_without, now_without, List.getElem?_map]
    cases g.service.visits[i]? with
    | none => rfl
    | some v =>
      by_cases ready : v.stage.isReady c g.service.now = true
      · simp only [Option.map_some, Visit.stage_renumber, ready, if_true]
        cases (Course.serving v.stage).operation? <;> rfl
      · simp only [Option.map_some, Visit.stage_renumber, ready]
        rfl
  | .serve (.pass tick) => rfl
  | .drop i => rfl
  | .clear i =>
    simp only [use?, without, List.getElem?_map]
    cases g.remnants[i]? <;> rfl

/-- A move that does not remain is a request that comes in and is dismissed. -/
lemma without_step (h : Accounted c done g) {move : GatewayMove}
    (all : requests = done ++ (move.request?.toList ++ more)) (gone : ¬ move.Remains c) :
    (g.step b c o move).without c requests = g.without c requests ∧ g.use? c move = none := by
  match move with
  | .serve (.arrive clock r) =>
    refine ⟨without_skip ?_ ?_, rfl⟩
    · rw [all]
      exact h.getElem?_arrivals (clock, r) more
    · by_contra remains
      exact gone fun came hc => by rwa [← Option.some.inj hc]
  | .serve (.proceed _) | .serve (.pass _) | .drop _ | .clear _ =>
    exact absurd (fun came hc => nomatch hc) gone

/-- A run without the requests that are dismissed is the same run without them. -/
lemma run_without (h : Accounted c done g) (moves : List GatewayMove)
    (all : requests = done ++ requestsOf moves) :
    (g.without c requests).run b c o (moves.filter fun move => move.Remains c) =
      (g.run b c o moves).without c requests := by
  -- numbers are ranks among all requests, also those that come later
  induction moves generalizing done g with
  | nil => rfl
  | cons move moves ih =>
    rw [Accounted.requestsOf_cons] at all
    have after := ih (h.step (b := b) (o := o) move) (all.trans (List.append_assoc ..).symm)
    by_cases remains : move.Remains c
    · rw [List.filter_cons, if_pos (decide_eq_true remains)]
      rw [← step_without h all remains] at after
      exact after
    · rw [List.filter_cons, if_neg (decide_eq_true_iff.not.mpr remains)]
      rw [(without_step h all remains).1] at after
      exact after

lemma uses_without (h : Accounted c done g) (moves : List GatewayMove)
    (all : requests = done ++ requestsOf moves) :
    (g.without c requests).uses b c o (moves.filter fun move => move.Remains c) =
      (g.uses b c o moves).map (Use.renumber (rank c requests)) := by
  induction moves generalizing done g with
  | nil => rfl
  | cons move moves ih =>
    rw [Accounted.requestsOf_cons] at all
    have after := ih (h.step (b := b) (o := o) move) (all.trans (List.append_assoc ..).symm)
    rw [uses, List.map_append, ← after]
    by_cases remains : move.Remains c
    · rw [List.filter_cons, if_pos (decide_eq_true remains), uses, use?_without,
        step_without h all remains]
      cases g.use? c move <;> rfl
    · obtain ⟨same, unused⟩ := without_step (b := b) (o := o) h all remains
      rw [List.filter_cons, if_neg (decide_eq_true_iff.not.mpr remains), same, unused]
      rfl

/-- What is seen for a request that remains is seen for its new number. -/
lemma mem_seen_without {s : Sighting} (remains : RemainsAt c requests s.id) :
    s.renumber (rank c requests) ∈ (g.without c requests).service.seen ↔ s ∈ g.service.seen := by
  have hs : s ∈ (g.service.seen.filter fun s => RemainsAt c requests s.id) ↔
      s ∈ g.service.seen := by
    rw [List.mem_filter, decide_eq_true_iff]
    exact and_iff_left remains
  rw [← hs]
  constructor
  · intro h
    obtain ⟨t, ht, same⟩ := List.mem_map.mp h
    have remains' := decide_eq_true_iff.mp (List.mem_filter.mp ht).2
    rwa [← Sighting.renumber_inj remains' remains same]
  · exact List.mem_map_of_mem

end

end Gateway

/-- Requests that are dismissed leave no trace. Let requests come in, be waited for and be dropped,
for whatever store, and let the same happen without those requests that are dismissed: that ask for
the banner, have no token or one of an agent that is not let in, are too large, or have no target or
no key. The others come in their order, and what is seen of them, all calls and responses with their
times, is the same but for their numbers. The store is the same and was used in the same way, and it
is used for none but the requests that remain. A request that is dismissed is answered at once and
nothing else happens, whatever else is going on. What remains begins an exchange, or is told the
head of the banner. -/
theorem run_forgets_dismissed [UrlRules] {σ : Type} (b : TimedBackend σ) (c : Config) (o : Origin)
    (store : σ) (moves : List GatewayMove) :
    let others := moves.filter fun move => move.Remains c
    let g := (Gateway.start store).run b c o moves
    let g' := (Gateway.start store).run b c o others
    let uses := (Gateway.start store).uses b c o moves
    let requests := requestsOf moves
    let number := rank c requests
    requestsOf others = (requests.filter fun came => ¬ IsDismissed c came) ∧
    (∀ id came, requests[id]? = some came → ¬ IsDismissed c came →
      (requestsOf others)[number id]? = some came ∧
      ∀ time response, .departed ⟨number id, time, response⟩ ∈ g'.service.seen ↔
        .departed ⟨id, time, response⟩ ∈ g.service.seen) ∧
    (∀ id id', RemainsAt c requests id → RemainsAt c requests id' →
      (number id = number id' ↔ id = id')) ∧
    g'.service.seen = (g.service.seen.filter fun s => RemainsAt c requests s.id).map
      (Sighting.renumber number) ∧
    g'.service.shared = g.service.shared ∧
    (Gateway.start store).uses b c o others = uses.map (Use.renumber number) ∧
    (∀ use ∈ uses, RemainsAt c requests use.id) ∧
    (∀ move, (∀ tick, move ≠ .serve (.pass tick)) →
      (g.step b c o move).service.shared.store = g.used b (g.use? c move)) ∧
    (∀ clock r response, Dismissed c clock r response →
      g.step b c o (.serve (.arrive clock r)) =
        let told : Sighting := .departed ⟨g.service.arrivals, g.service.now, response⟩
        { g with
          service := { g.service with
            arrivals := g.service.arrivals + 1
            seen := g.service.seen ++ [told] } }) ∧
    (∀ clock r, ¬ IsDismissed c (clock, r) →
      (r.target.path = "/" ∧ r.method = "HEAD" ∧
        examine c clock r = .answered banner.withoutBody) ∨
        ∃ job, examine c clock r = .admitted job) := by
  intro others g g' uses requests number
  have accounted := Gateway.Accounted.start c store
  -- the shorter run is the longer one, without what is seen of dismissed requests
  have run : g' = g.without c requests := Gateway.run_without accounted moves rfl
  have arrived : requestsOf others = requests.filter fun came => ¬ IsDismissed c came :=
    requestsOf_remaining c moves
  refine ⟨arrived, fun id came hr remains => ⟨?_, fun time response => ?_⟩,
    fun id id' => rank_inj, congrArg (·.service.seen) run, congrArg (·.service.shared) run,
    Gateway.uses_without accounted moves rfl, fun use hu => ?_, fun move => g.store_step b c o move,
    fun clock r response => Gateway.step_of_dismissed, fun clock r => ?_⟩
  · rw [arrived]
    exact getElem?_rank hr remains
  · rw [run]
    exact Gateway.mem_seen_without (s := .departed ⟨id, time, response⟩) ⟨came, hr, remains⟩
  · obtain ⟨job, asks, -⟩ := accounted.uses moves use hu
    exact asks.remains
  · exact examine_of_remains

/-- While a request makes its call and another one follows it, requests come in for the banner,
without a target, without a key and with too large a body. -/
def bystanders : List GatewayMove :=
  [.serve (.arrive 0 stranger), .serve (.proceed 0),
    .serve (.arrive 0 { stranger with method := "GET", target := .ofString "/" }),
    .serve (.arrive 0 { stranger with headers := .empty }),
    .serve (.arrive 0 { stranger with headers := .ofList [header forwardedHost "a"] }),
    .serve (.arrive 0 { stranger with body := List.replicate 10 0 }),
    .serve (.arrive 0 stranger), .serve (.proceed 1), .serve (.pass (.wait 2)),
    .serve (.proceed 0), .serve (.proceed 0), .serve (.proceed 1)]

theorem run_forgets_dismissed_bystanders :
    let start : Gateway MemoryStore := .start (.new 5)
    let origin : Origin := fun _ _ => ⟨2, .ok ⟨200, .empty, [104, 105]⟩⟩
    let others := bystanders.filter fun move => move.Remains openHouse
    let g := start.run .memory openHouse origin bystanders
    let g' := start.run .memory openHouse origin others
    (requestsOf bystanders).map (fun came => decide (IsDismissed openHouse came)) =
      [false, true, true, true, true, false] ∧
    g.service.seen.map Sighting.id = [0, 1, 2, 3, 4, 0, 5] ∧
    g'.service.seen.map Sighting.id = [0, 0, 1] ∧ g'.service.shared = g.service.shared ∧
    ∀ time response, .departed ⟨1, time, response⟩ ∈ g'.service.seen ↔
      .departed ⟨5, time, response⟩ ∈ g.service.seen := by
  intro start origin others g g'
  obtain ⟨-, told, -, -, same, -⟩ :=
    run_forgets_dismissed .memory openHouse origin (.new 5) bystanders
  have came : (requestsOf bystanders)[5]? = some (0, stranger) := rfl
  have remains : ¬ IsDismissed openHouse (0, stranger) := by decide +kernel
  have number : rank openHouse (requestsOf bystanders) 5 = 1 := by decide +kernel
  refine ⟨by decide +kernel, by decide +kernel, by decide +kernel, same, ?_⟩
  have last := (told 5 _ came remains).2
  rwa [number] at last

end OnceProxy
