import Mathlib.Tactic.Common
import OnceProxy.Proxy.Gate

/-!
# Who passes the gate

A request either asks for the banner and passes unasked, or it has to bear a token. Where it goes
from there is decided for a second time, behind the gate. Both decisions agree: what passes unasked
gets nowhere but to the banner.
-/

namespace OnceProxy

open Http

/-! ### The jobs of requests -/

/-- The key of a job is that of its request. -/
lemma Job.key_of_ofRequest [UrlRules] {c : Config} {agent : String} {request : Request} {job : Job}
    (h : ofRequest c agent request = .ok job) :
    job.key = ⟨agent, request.method, request.headerText idempotencyKeyHeader⟩ := by
  unfold ofRequest at h
  cases hu : originUrl c request with
  | error e =>
    rw [hu] at h
    cases h
  | ok url =>
    rw [hu] at h
    simp only [bind, Except.bind] at h
    split at h
    · cases h
    · cases h
      rfl

/-! ### Tokens -/

/-- A request bears a token: it is accepted at the time `clock` for the first value of the
authorization header. -/
def Bears (keys : TrustedKeys) (clock : UInt64) (r : Request) (t : Token) : Prop :=
  ∃ value text, r.headers.get? proxyAuthorization = some value ∧ value.toString? = some text ∧
    keys.verifyBearer text clock = .ok t

section

variable {keys : TrustedKeys} {c : Config} {clock : UInt64} {r : Request} {t t' : Token}
  {agent : String}

/-- Without a header there is no token. -/
lemma verifyBearer_empty : keys.verifyBearer "" clock = .error .missingBearer := by
  have missing : Token.bytesOfBearer "" = .error .missingBearer := rfl
  rw [TrustedKeys.verifyBearer, missing]
  rfl

lemma verifyBearer_eq_ok_iff :
    keys.verifyBearer ((r.headers.text? proxyAuthorization).getD "") clock = .ok t ↔
      Bears keys clock r t := by
  constructor
  · -- without a header that is text the bearer is empty, and no token
    intro h
    cases hv : r.headers.get? proxyAuthorization with
    | none =>
      rw [HeaderMap.text?, hv, Option.bind_none, Option.getD_none, verifyBearer_empty] at h
      cases h
    | some value =>
      rw [HeaderMap.text?, hv, Option.bind_some] at h
      cases ht : value.toString? with
      | none =>
        rw [ht, Option.getD_none, verifyBearer_empty] at h
        cases h
      | some text =>
        rw [ht, Option.getD_some] at h
        exact ⟨value, text, hv, ht, h⟩
  · rintro ⟨value, text, hv, ht, h⟩
    rwa [HeaderMap.text?, hv, Option.bind_some, ht, Option.getD_some]

/-- A request does not bear two tokens. -/
lemma Bears.unique (h : Bears keys clock r t) (h' : Bears keys clock r t') : t = t' := by
  rw [← verifyBearer_eq_ok_iff] at h h'
  exact Except.ok.inj (h.symm.trans h')

/-- Where there are keys, a request comes from the agent that its token names. -/
lemma agentOf_eq_ok_iff (keyed : c.trustedKeys.isEmpty = false) :
    agentOf c clock r = .ok agent ↔ ∃ t, Bears c.trustedKeys clock r t ∧ t.message = agent := by
  simp only [← verifyBearer_eq_ok_iff]
  rw [agentOf, keyed, if_neg Bool.false_ne_true]
  split
  · rename_i t ht
    simp only [ht, Except.ok.injEq, exists_eq_left']
  · rename_i e he
    simp only [he, reduceCtorEq, false_and, exists_false]

lemma authenticate_eq_ok_iff : authenticate c clock r = .ok agent ↔
    agentOf c clock r = .ok agent ∧ (c.allowAgents ≠ [] → agent ∈ c.allowAgents) := by
  unfold authenticate
  cases agentOf c clock r with
  | error e => simp [bind, Except.bind]
  | ok a =>
    by_cases outside : (!c.allowAgents.isEmpty && !c.allowAgents.contains a) = true
    · rw [Except.ok.injEq]
      simp only [bind, Except.bind, outside, if_true]
      have unlisted : c.allowAgents ≠ [] ∧ a ∉ c.allowAgents := by simpa using outside
      constructor
      · intro h
        cases h
      · rintro ⟨rfl, listed⟩
        exact absurd (listed unlisted.1) unlisted.2
    · rw [Except.ok.injEq]
      simp only [bind, Except.bind, outside]
      have listed : c.allowAgents ≠ [] → a ∈ c.allowAgents := by simpa using outside
      constructor
      · intro h
        cases h
        exact ⟨rfl, listed⟩
      · rintro ⟨rfl, -⟩
        rfl

end

/-! ### The gate and the way behind it -/

/-- What the gate lets through, with the agent that it comes from. Whoever asks for the banner is
not asked for a token. -/
def passage (c : Config) (clock : UInt64) (r : Request) : Except ProxyError (Option String) :=
  if Job.isAtRoot r && r.method == "GET" then .ok none
  else
    match authenticate c clock r with
    | .ok agent => .ok (some agent)
    | .error e => .error e

/-- Where a request goes that has passed the gate. -/
inductive Route where
  | banner
  | exchange

/-- The banner answers to two methods. -/
def Route.of (r : Request) : Route :=
  if Job.isAtRoot r && (r.method == "GET" || r.method == "HEAD") then .banner else .exchange

/-- A request gets to an exchange, on behalf of an agent. -/
structure Reaches (c : Config) (clock : UInt64) (r : Request) (agent : String) : Prop where
  passed : passage c clock r = .ok (some agent)
  routed : Route.of r = .exchange
  small : r.body.length ≤ c.maxBodyBytes

variable {c : Config} {clock : UInt64} {r : Request} {agent : String}

/-- What passes without an agent asks for the banner. -/
lemma Route.of_eq_banner (h : passage c clock r = .ok none) : Route.of r = .banner := by
  unfold passage at h
  split at h
  · rename_i unasked
    rw [Bool.and_eq_true] at unasked
    rw [Route.of, unasked.1, unasked.2]
    rfl
  · split at h <;> cases h

/-- A request passes with an agent just if it shows to come from this agent. -/
lemma passage_eq_some (h : passage c clock r = .ok (some agent)) :
    authenticate c clock r = .ok agent := by
  unfold passage at h
  split at h
  · cases h
  · split at h
    · rename_i agent' known
      cases h
      exact known
    · cases h

/-! #### What becomes of requests -/

/-- A request for the banner is answered at once. -/
lemma examine_of_banner [UrlRules] (h : Route.of r = .banner) :
    ∃ response, examine c clock r = .answered response := by
  unfold examine
  simp only
  split
  · exact ⟨_, rfl⟩
  · rename_i hget
    have hhead : (Job.isAtRoot r && r.method == "HEAD") = true := by
      by_contra hhead
      rw [Route.of, Bool.and_or_distrib_left, Bool.eq_false_iff.mpr hget,
        Bool.eq_false_iff.mpr hhead] at h
      cases h
    rw [hhead]
    split <;> exact ⟨_, rfl⟩

/-- A request for an exchange is neither of those that ask for the banner. -/
lemma Route.ne_of_exchange (h : Route.of r = .exchange) :
    (Job.isAtRoot r && r.method == "GET") = false ∧
      (Job.isAtRoot r && r.method == "HEAD") = false := by
  rw [← Bool.or_eq_false_iff, ← Bool.and_or_distrib_left, Bool.eq_false_iff]
  intro hroot
  rw [Route.of, if_pos hroot] at h
  cases h

lemma passage_of_exchange (h : Route.of r = .exchange) :
    passage c clock r =
      match authenticate c clock r with
      | .ok agent => .ok (some agent)
      | .error e => .error e := by
  rw [passage, (Route.ne_of_exchange h).1]
  rfl

/-- Just those get to an exchange that ask for one, are small enough, and bear a token of an agent
that is let in. -/
lemma reaches_iff (keyed : c.trustedKeys.isEmpty = false) : Reaches c clock r agent ↔
    Route.of r = .exchange ∧ r.body.length ≤ c.maxBodyBytes ∧
      ∃ t, Bears c.trustedKeys clock r t ∧ t.message = agent ∧
        (c.allowAgents ≠ [] → t.message ∈ c.allowAgents) := by
  constructor
  · intro h
    obtain ⟨known, listed⟩ := authenticate_eq_ok_iff.mp (passage_eq_some h.passed)
    obtain ⟨t, bears, rfl⟩ := (agentOf_eq_ok_iff keyed).mp known
    exact ⟨h.routed, h.small, t, bears, rfl, listed⟩
  · rintro ⟨routed, small, t, bears, rfl, listed⟩
    have known := authenticate_eq_ok_iff.mpr ⟨(agentOf_eq_ok_iff keyed).mpr ⟨t, bears, rfl⟩, listed⟩
    refine ⟨?_, routed, small⟩
    rw [passage_of_exchange routed, known]

/-- Jobs are made just of the requests that get to an exchange. -/
lemma examine_eq_admitted_iff [UrlRules] {job : Job} : examine c clock r = .admitted job ↔
    ∃ agent, Reaches c clock r agent ∧ Job.ofRequest c agent r = .ok job := by
  constructor
  · intro h
    cases route : Route.of r with
    | banner =>
      obtain ⟨response, he⟩ := examine_of_banner route
      rw [he] at h
      cases h
    | exchange =>
      -- it has to show who sends it, to be small enough, and to make sense
      obtain ⟨hget, hhead⟩ := Route.ne_of_exchange route
      simp only [examine, hget, hhead, Bool.false_eq_true, if_false] at h
      split at h
      · cases h
      · rename_i agent known
        split at h
        · cases h
        · rename_i small
          have passed : passage c clock r = .ok (some agent) := by
            rw [passage_of_exchange route, known]
          split at h
          · rename_i job' hj
            cases h
            exact ⟨agent, ⟨passed, route, Nat.le_of_not_lt small⟩, hj⟩
          · cases h
  · rintro ⟨agent, ⟨passed, routed, small⟩, hj⟩
    obtain ⟨hget, hhead⟩ := Route.ne_of_exchange routed
    simp only [examine, hget, hhead, passage_eq_some passed, Nat.not_lt.mpr small, hj,
      Bool.false_eq_true, if_false]

end OnceProxy
