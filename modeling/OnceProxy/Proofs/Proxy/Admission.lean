import OnceProxy.Proofs.Auth.Verification
import OnceProxy.Proofs.Proxy.Service

/-!
# What is done for whom

Whatever a proxy does with its store, and every call that it makes, it does for a request that was
let in. So where there are keys it does nothing for requests without a token, and what it does for
one agent is never done to the entries of another one. This holds for all stores, and whether
requests are waited for or dropped.
-/

namespace OnceProxy

open Http

/-! ### Requests that may be dropped -/

/-- Something that is done with the store, for the request with a number. -/
structure Use where
  id : Nat
  key : IdempotencyKey
  operation : Operation
  deriving DecidableEq

/-- A release that is still to be done for a request that was dropped. -/
structure Remnant where
  id : Nat
  key : IdempotencyKey
  lease : Lease

/-- What is left of a visit that is dropped. -/
def Visit.remnant? (v : Visit) : Option Remnant :=
  v.stage.abandoned?.map fun lease => ⟨v.id, v.job.key, lease⟩

/-- A proxy of which the requests may be dropped, and the releases that are still to be done for
those that were. -/
structure Gateway (σ : Type) where
  service : Service σ
  remnants : List Remnant

/-- What happens next: a move of the proxy, or a visit is dropped, or what is left of one is done
away with. -/
inductive GatewayMove where
  | serve (move : ServiceMove)
  | drop (visit : Nat)
  | clear (remnant : Nat)

namespace GatewayMove

/-- The request that comes in, with the time by which its token is judged. -/
def request? : GatewayMove → Option (UInt64 × Request)
  | serve (.arrive clock request) => some (clock, request)
  | _ => none

/-- No request without a token comes in. -/
def Credible (keys : TrustedKeys) : GatewayMove → Prop
  | serve (.arrive clock request) => ∃ t, Bears keys clock request t
  | _ => True

instance decidableCredible (keys : TrustedKeys) : DecidablePred (Credible keys)
  | serve (.arrive clock request) =>
    match h : keys.verifyBearer ((request.headers.text? proxyAuthorization).getD "") clock with
    | .ok t => isTrue ⟨t, verifyBearer_eq_ok_iff.mp h⟩
    | .error e => isFalse fun ⟨t, bears⟩ => by
      rw [← verifyBearer_eq_ok_iff, h] at bears
      cases bears
  | serve (.proceed _) => isTrue trivial
  | serve (.pass _) => isTrue trivial
  | drop _ => isTrue trivial
  | clear _ => isTrue trivial

end GatewayMove

/-- The requests that come in, in their order. -/
def requestsOf (moves : List GatewayMove) : List (UInt64 × Request) :=
  moves.filterMap GatewayMove.request?

namespace Gateway

variable {σ : Type}

/-- A proxy to which nothing has happened. -/
def start (store : σ) : Gateway σ := ⟨.start store, []⟩

/-- A visit is dropped. -/
def drop (g : Gateway σ) (i : Nat) : Gateway σ :=
  match g.service.visits[i]? with
  | none => g
  | some v =>
    { service := { g.service with visits := g.service.visits.eraseIdx i }
      remnants := g.remnants ++ v.remnant?.toList }

/-- What is left of a visit is done away with. -/
def clear (b : TimedBackend σ) (g : Gateway σ) (i : Nat) : Gateway σ :=
  match g.remnants[i]? with
  | none => g
  | some r =>
    let store := b.release g.service.shared.store g.service.now r.key r.lease
    { service := { g.service with shared := { g.service.shared with store } }
      remnants := g.remnants.eraseIdx i }

/-- Makes a move. -/
def step [UrlRules] (b : TimedBackend σ) (c : Config) (o : Origin) (g : Gateway σ) :
    GatewayMove → Gateway σ
  | .serve move => { g with service := g.service.step b c o move }
  | .drop i => g.drop i
  | .clear i => g.clear b i

/-- Makes moves one after the other. -/
def run [UrlRules] (b : TimedBackend σ) (c : Config) (o : Origin) (g : Gateway σ)
    (moves : List GatewayMove) : Gateway σ :=
  moves.foldl (step b c o) g

/-- What a move does with the store. -/
def use? (c : Config) (g : Gateway σ) : GatewayMove → Option Use
  | .serve (.proceed i) =>
    match g.service.visits[i]? with
    | none => none
    | some v =>
      if v.stage.isReady c g.service.now then
        (Course.serving v.stage).operation?.map fun operation => ⟨v.id, v.job.key, operation⟩
      else none
  | .clear i => g.remnants[i]?.map fun r => ⟨r.id, r.key, .release r.lease⟩
  | _ => none

/-- All that moves do with the store. -/
def uses [UrlRules] (b : TimedBackend σ) (c : Config) (o : Origin) :
    Gateway σ → List GatewayMove → List Use
  | _, [] => []
  | g, move :: moves => (g.use? c move).toList ++ (g.step b c o move).uses b c o moves

/-- The store when it has been used, or has not. -/
def used (b : TimedBackend σ) (g : Gateway σ) : Option Use → σ
  | some use => (b.operate g.service.shared.store g.service.now use.key use.operation).2
  | none => g.service.shared.store

/-- But for what happens by itself, the store changes by its uses only. -/
lemma store_step [UrlRules] (b : TimedBackend σ) (c : Config) (o : Origin) (g : Gateway σ)
    (move : GatewayMove) (busy : ∀ tick, move ≠ .serve (.pass tick)) :
    (g.step b c o move).service.shared.store = g.used b (g.use? c move) := by
  -- only a turn of a request and a task that releases a lease use the entries
  match move with
  | .serve (.arrive clock request) =>
    simp only [step, Service.step, Service.arrive]
    split <;> rfl
  | .serve (.proceed i) =>
    simp only [step, Service.step, use?]
    cases hi : g.service.visits[i]? with
    | none => rfl
    | some v =>
      by_cases ready : v.stage.isReady c g.service.now = true
      · simp only [ready, if_true, Service.advance, Stage.store_step]
        cases (Course.serving v.stage).operation? <;> rfl
      · simp only [ready]
        rfl
  | .serve (.pass tick) => exact absurd rfl (busy tick)
  | .drop i =>
    simp only [step, drop]
    split <;> rfl
  | .clear i =>
    simp only [step, clear, use?]
    cases g.remnants[i]? <;> rfl

end Gateway

/-! ### Where things come from -/

/-- The call that can be seen. -/
def Sighting.call? : Sighting → Option OriginCall
  | called _ _ call => some call
  | departed _ => none

/-- The request with a number, of those that came in, asks for a job. -/
def Asks [UrlRules] (c : Config) (requests : List (UInt64 × Request)) (id : Nat) (job : Job) :
    Prop :=
  ∃ clock request, requests[id]? = some (clock, request) ∧
    examine c clock request = .admitted job

/-- The request with a number, of those that came in, bears a token. -/
def BearsAt (keys : TrustedKeys) (requests : List (UInt64 × Request)) (id : Nat) (t : Token) :
    Prop :=
  ∃ clock request, requests[id]? = some (clock, request) ∧ Bears keys clock request t

section

variable {c : Config} {keys : TrustedKeys} {requests more : List (UInt64 × Request)} {id : Nat}
  {job : Job} {t t' : Token}

lemma Asks.append [UrlRules] (h : Asks c requests id job) (more : List (UInt64 × Request)) :
    Asks c (requests ++ more) id job := by
  obtain ⟨clock, request, hr, he⟩ := h
  have hlt : id < requests.length := (List.getElem?_eq_some_iff.mp hr).1
  exact ⟨clock, request, by rwa [List.getElem?_append_left hlt], he⟩

lemma BearsAt.unique (h : BearsAt keys requests id t) (h' : BearsAt keys requests id t') :
    t = t' := by
  obtain ⟨clock, request, hr, bears⟩ := h
  obtain ⟨clock', request', hr', bears'⟩ := h'
  cases hr.symm.trans hr'
  exact bears.unique bears'

/-- A job is for the agent that the token of its request names. -/
lemma Asks.bears [UrlRules] (keyed : c.trustedKeys.isEmpty = false) (h : Asks c requests id job) :
    ∃ t, BearsAt c.trustedKeys requests id t ∧ (c.allowAgents ≠ [] → t.message ∈ c.allowAgents) ∧
      job.key.agent = t.message := by
  obtain ⟨clock, request, hr, he⟩ := h
  obtain ⟨agent, reaches, hj⟩ := examine_eq_admitted_iff.mp he
  obtain ⟨-, -, t, bears, rfl, listed⟩ := (reaches_iff keyed).mp reaches
  exact ⟨t, ⟨clock, request, hr, bears⟩, listed, by rw [Job.key_of_ofRequest hj]⟩

end

/-- What is called when a visit has got to its stage. -/
def Stage.calls (job : Job) : Stage → List OriginCall
  | calling .. => [job.call]
  | _ => []

lemma Visit.call?_reached (v : Visit) (time : Nat) :
    (v.reached time).filterMap Sighting.call? = v.stage.calls v.job := by
  obtain ⟨id, job, stage⟩ := v
  cases stage <;> rfl

lemma Visit.eq_of_called {v : Visit} {time time' id : Nat} {call : OriginCall}
    (h : .called id time' call ∈ v.reached time) : id = v.id ∧ call = v.job.call := by
  obtain ⟨id', job, stage⟩ := v
  cases stage with
  | calling lease since reply =>
    cases List.mem_singleton.mp h
    exact ⟨rfl, rfl⟩
  | ended result => cases List.mem_singleton.mp h
  | arrived | looking | resting | storing | releasing => exact absurd h List.not_mem_nil

/-- A step makes the call that it leads to. -/
lemma Stage.calls_step {σ : Type} (b : Backend σ) (c : Config) (o : Origin) (now : Nat) (job : Job)
    (s : Stage) (w : Shared σ) :
    (s.step b c o now job w).2.calls = w.calls ++ (s.step b c o now job w).1.calls job := by
  match s with
  | arrived =>
    simp only [step]
    split
    · rfl
    · exact (List.append_nil _).symm
  | looking 0 => exact (List.append_nil _).symm
  | looking (left + 1) =>
    simp only [step]
    split <;> exact (List.append_nil _).symm
  | resting left since => exact (List.append_nil _).symm
  | calling lease since reply =>
    simp only [step]
    rcases afterCall_cases c job lease reply with ⟨error, ha⟩ | ⟨response, e, -, -, ha⟩
    · rw [ha]
      exact (List.append_nil _).symm
    · rw [ha]
      exact (List.append_nil _).symm
  | storing lease e =>
    simp only [step]
    split <;> exact (List.append_nil _).symm
  | releasing lease error => exact (List.append_nil _).symm
  | ended result => exact (List.append_nil _).symm

namespace Gateway

/-- All visits, remnants and calls come from requests that asked for their jobs. -/
structure Accounted [UrlRules] {σ : Type} (c : Config) (requests : List (UInt64 × Request))
    (g : Gateway σ) : Prop where
  arrivals : g.service.arrivals = requests.length
  visits : ∀ v ∈ g.service.visits, Asks c requests v.id v.job
  remnants : ∀ r ∈ g.remnants, ∃ job, Asks c requests r.id job ∧ job.key = r.key
  called : ∀ id time call, .called id time call ∈ g.service.seen →
    ∃ job, Asks c requests id job ∧ job.call = call
  calls : g.service.seen.filterMap Sighting.call? = g.service.shared.calls

namespace Accounted

variable [UrlRules] {σ : Type} {b : TimedBackend σ} {c : Config} {o : Origin}
  {requests : List (UInt64 × Request)} {g : Gateway σ}

lemma start (c : Config) (store : σ) : Accounted c [] (Gateway.start store) where
  arrivals := rfl
  visits _ hv := absurd hv List.not_mem_nil
  remnants _ hr := absurd hr List.not_mem_nil
  called _ _ _ hc := absurd hc List.not_mem_nil
  calls := rfl

/-- A request that comes in can ask for a job. -/
lemma arrive (h : Accounted c requests g) (clock : UInt64) (request : Request) :
    Accounted c (requests ++ [(clock, request)])
      { g with service := g.service.arrive c clock request } := by
  -- what was asked before is still asked, as requests only come in at the end
  have remnants r (hr : r ∈ g.remnants) :
      ∃ job, Asks c (requests ++ [(clock, request)]) r.id job ∧ job.key = r.key := by
    obtain ⟨job, asks, hk⟩ := h.remnants r hr
    exact ⟨job, asks.append _, hk⟩
  have called id time call (hc : .called id time call ∈ g.service.seen) :
      ∃ job, Asks c (requests ++ [(clock, request)]) id job ∧ job.call = call := by
    obtain ⟨job, asks, hj⟩ := h.called id time call hc
    exact ⟨job, asks.append _, hj⟩
  have arrivals : g.service.arrivals + 1 = (requests ++ [(clock, request)]).length := by
    rw [List.length_append, h.arrivals]
    rfl
  unfold Service.arrive
  split
  · refine ⟨arrivals, fun v hv => (h.visits v hv).append _, remnants, ?_, ?_⟩
    · intro id time call hc
      rcases List.mem_append.mp hc with hc | hc
      · exact called id time call hc
      · cases List.mem_singleton.mp hc
    · rw [List.filterMap_append, h.calls]
      exact List.append_nil _
  · rename_i job he
    refine ⟨arrivals, ?_, remnants, called, h.calls⟩
    intro v hv
    rcases List.mem_append.mp hv with hv | hv
    · exact (h.visits v hv).append _
    · rw [List.mem_singleton.mp hv, h.arrivals]
      exact ⟨clock, request, by rw [List.getElem?_concat_length], he⟩

/-- A visit that makes a step keeps its job, and its call is that of the job. -/
lemma advance (h : Accounted c requests g) {i : Nat} {v : Visit}
    (hi : g.service.visits[i]? = some v) :
    Accounted c requests { g with service := g.service.advance b c o i v } := by
  have asks := h.visits v (List.mem_of_getElem? hi)
  refine ⟨h.arrivals, ?_, h.remnants, ?_, ?_⟩
  · intro w hw
    rcases List.mem_or_eq_of_mem_set hw with hw | rfl
    · exact h.visits w hw
    · exact asks
  · intro id time call hc
    rcases List.mem_append.mp hc with hc | hc
    · exact h.called id time call hc
    · obtain ⟨rfl, rfl⟩ := Visit.eq_of_called hc
      exact ⟨v.job, asks, rfl⟩
  · simp only [Service.advance]
    rw [List.filterMap_append, h.calls, Visit.call?_reached, Stage.calls_step]

lemma drop (h : Accounted c requests g) (i : Nat) : Accounted c requests (g.drop i) := by
  unfold Gateway.drop
  split
  · exact h
  · rename_i v hi
    refine ⟨h.arrivals, fun w hw => h.visits w (List.mem_of_mem_eraseIdx hw), ?_, h.called, h.calls⟩
    intro r hr
    rcases List.mem_append.mp hr with hr | hr
    · exact h.remnants r hr
    · obtain ⟨lease, -, rfl⟩ := Option.map_eq_some_iff.mp (Option.mem_toList.mp hr)
      exact ⟨v.job, h.visits v (List.mem_of_getElem? hi), rfl⟩

lemma clear (h : Accounted c requests g) (i : Nat) : Accounted c requests (g.clear b i) := by
  unfold Gateway.clear
  split
  · exact h
  · exact ⟨h.arrivals, h.visits, fun r hr => h.remnants r (List.mem_of_mem_eraseIdx hr), h.called,
      h.calls⟩

lemma proceed (h : Accounted c requests g) (i : Nat) :
    Accounted c requests { g with service := g.service.step b c o (.proceed i) } := by
  simp only [Service.step]
  split
  · exact h
  · rename_i v hi
    split
    · exact h.advance hi
    · exact h

lemma step (h : Accounted c requests g) (move : GatewayMove) :
    Accounted c (requests ++ move.request?.toList) (g.step b c o move) := by
  match move with
  | .serve (.arrive clock request) => exact h.arrive clock request
  | .serve (.proceed i) => exact (List.append_nil requests).symm ▸ h.proceed i
  | .serve (.pass tick) =>
    show Accounted c (requests ++ []) _
    rw [List.append_nil]
    exact ⟨h.arrivals, h.visits, h.remnants, h.called, h.calls⟩
  | .drop i => exact (List.append_nil requests).symm ▸ h.drop i
  | .clear i => exact (List.append_nil requests).symm ▸ h.clear i

/-- What is done with the store is done for a request, to the entry that it asked for. -/
lemma asks_of_use (h : Accounted c requests g) {move : GatewayMove} {use : Use}
    (hu : g.use? c move = some use) :
    ∃ job, Asks c requests use.id job ∧ job.key = use.key := by
  match move with
  | .serve (.proceed i) =>
    simp only [use?] at hu
    split at hu
    · cases hu
    · rename_i v hi
      split at hu
      · obtain ⟨operation, -, rfl⟩ := Option.map_eq_some_iff.mp hu
        exact ⟨v.job, h.visits v (List.mem_of_getElem? hi), rfl⟩
      · cases hu
  | .clear i =>
    obtain ⟨r, hr, rfl⟩ := Option.map_eq_some_iff.mp hu
    exact h.remnants r (List.mem_of_getElem? hr)
  | .serve (.arrive clock request) => cases hu
  | .serve (.pass tick) => cases hu
  | .drop i => cases hu

omit [UrlRules] in
lemma requestsOf_cons (move : GatewayMove) (moves : List GatewayMove) :
    requestsOf (move :: moves) = move.request?.toList ++ requestsOf moves := by
  cases h : move.request? with
  | none => exact List.filterMap_cons_none h
  | some request => exact List.filterMap_cons_some h

lemma run (h : Accounted c requests g) (moves : List GatewayMove) :
    Accounted c (requests ++ requestsOf moves) (g.run b c o moves) := by
  induction moves generalizing requests g with
  | nil => rwa [requestsOf, List.filterMap_nil, List.append_nil]
  | cons move moves ih =>
    rw [requestsOf_cons, ← List.append_assoc]
    exact ih (h.step move)

lemma uses (h : Accounted c requests g) (moves : List GatewayMove) :
    ∀ use ∈ g.uses b c o moves,
      ∃ job, Asks c (requests ++ requestsOf moves) use.id job ∧ job.key = use.key := by
  induction moves generalizing requests g with
  | nil =>
    intro use hu
    exact absurd hu List.not_mem_nil
  | cons move moves ih =>
    intro use hu
    rw [requestsOf_cons]
    rcases List.mem_append.mp hu with hu | hu
    · obtain ⟨job, asks, hk⟩ := h.asks_of_use (Option.mem_toList.mp hu)
      exact ⟨job, asks.append _, hk⟩
    · rw [← List.append_assoc]
      exact ih (h.step move) use hu

end Accounted

/-! ### Requests without a token -/

/-- Two proxies that differ only in the numbers of their requests and in what was seen. -/
structure Alike {σ : Type} (g g' : Gateway σ) : Prop where
  now : g'.service.now = g.service.now
  shared : g'.service.shared = g.service.shared
  visits : g'.service.visits.map (fun v => (v.job, v.stage)) =
    g.service.visits.map fun v => (v.job, v.stage)
  remnants : g'.remnants.map (fun r => (r.key, r.lease)) =
    g.remnants.map fun r => (r.key, r.lease)

/-- In two lists with the same images there are elements with the same image at the same place. -/
lemma getElem?_of_map_eq {α β : Type} {f : α → β} {l l' : List α} (h : l'.map f = l.map f)
    (i : Nat) : (l[i]? = none ∧ l'[i]? = none) ∨
      ∃ a a', l[i]? = some a ∧ l'[i]? = some a' ∧ f a' = f a := by
  have hi : (l'.map f)[i]? = (l.map f)[i]? := by rw [h]
  rw [List.getElem?_map, List.getElem?_map] at hi
  cases ha : l[i]? with
  | none =>
    rw [ha] at hi
    exact .inl ⟨rfl, Option.map_eq_none_iff.mp hi⟩
  | some a =>
    rw [ha] at hi
    obtain ⟨a', ha', same⟩ := Option.map_eq_some_iff.mp hi
    exact .inr ⟨a, a', rfl, ha', same⟩

namespace Alike

variable {σ : Type} {b : TimedBackend σ} {c : Config} {o : Origin} {g g' : Gateway σ}

lemma arrive [UrlRules] (h : Alike g g') (clock : UInt64) (request : Request) :
    Alike { g with service := g.service.arrive c clock request }
      { g' with service := g'.service.arrive c clock request } := by
  unfold Service.arrive
  split
  · exact ⟨h.now, h.shared, h.visits, h.remnants⟩
  · refine ⟨h.now, h.shared, ?_, h.remnants⟩
    simp only [List.map_append, h.visits, List.map_cons, List.map_nil]

lemma advance (h : Alike g g') (i : Nat) {v v' : Visit}
    (same : (v'.job, v'.stage) = (v.job, v.stage)) :
    Alike { g with service := g.service.advance b c o i v }
      { g' with service := g'.service.advance b c o i v' } := by
  obtain ⟨hjob, hstage⟩ := Prod.mk.inj same
  have next : v'.stage.step b.toBackend c o g'.service.now v'.job g'.service.shared =
      v.stage.step b.toBackend c o g.service.now v.job g.service.shared := by
    rw [hjob, hstage, h.now, h.shared]
  constructor
  · exact h.now
  · exact congrArg Prod.snd next
  · simp only [Service.advance, List.map_set, h.visits]
    rw [next, hjob]
  · exact h.remnants

lemma drop (h : Alike g g') (i : Nat) : Alike (g.drop i) (g'.drop i) := by
  unfold Gateway.drop
  rcases getElem?_of_map_eq h.visits i with ⟨hv, hv'⟩ | ⟨v, v', hv, hv', same⟩
  · rw [hv, hv']
    exact h
  · rw [hv, hv']
    obtain ⟨hjob, hstage⟩ := Prod.mk.inj same
    refine ⟨h.now, h.shared, ?_, ?_⟩
    · rw [← List.eraseIdx_map, h.visits, List.eraseIdx_map]
    · simp only [List.map_append, h.remnants, Visit.remnant?, hjob, hstage]
      cases v.stage.abandoned? <;> rfl

lemma clear (h : Alike g g') (i : Nat) : Alike (g.clear b i) (g'.clear b i) := by
  unfold Gateway.clear
  rcases getElem?_of_map_eq h.remnants i with ⟨hr, hr'⟩ | ⟨r, r', hr, hr', same⟩
  · rw [hr, hr']
    exact h
  · rw [hr, hr']
    obtain ⟨hkey, hlease⟩ := Prod.mk.inj same
    refine ⟨h.now, ?_, h.visits, ?_⟩
    · simp only [h.shared, h.now, hkey, hlease]
    · rw [← List.eraseIdx_map, h.remnants, List.eraseIdx_map]

lemma step [UrlRules] (h : Alike g g') (move : GatewayMove) :
    Alike (g.step b c o move) (g'.step b c o move) := by
  match move with
  | .serve (.arrive clock request) => exact h.arrive clock request
  | .serve (.proceed i) =>
    simp only [Gateway.step, Service.step]
    rcases getElem?_of_map_eq h.visits i with ⟨hv, hv'⟩ | ⟨v, v', hv, hv', same⟩
    · rw [hv, hv']
      exact h
    · rw [hv, hv']
      simp only [(Prod.mk.inj same).2, h.now]
      split
      · exact h.advance i same
      · exact h
  | .serve (.pass tick) =>
    refine ⟨?_, ?_, h.visits, h.remnants⟩
    · simp only [Gateway.step, Service.step, h.now]
    · simp only [Gateway.step, Service.step, h.now, h.shared]
  | .drop i => exact h.drop i
  | .clear i => exact h.clear i

/-- A request without a token leaves nothing behind but its answer. -/
lemma skip [UrlRules] (keyed : c.trustedKeys.isEmpty = false) (h : Alike g g') {move : GatewayMove}
    (idle : ¬ move.Credible c.trustedKeys) : Alike (g.step b c o move) g' := by
  match move with
  | .serve (.arrive clock request) =>
    simp only [Gateway.step, Service.step, Service.arrive]
    split
    · exact ⟨h.now, h.shared, h.visits, h.remnants⟩
    · rename_i job he
      obtain ⟨agent, reaches, -⟩ := examine_eq_admitted_iff.mp he
      obtain ⟨-, -, t, bears, -⟩ := (reaches_iff keyed).mp reaches
      exact absurd ⟨t, bears⟩ idle
  | .serve (.proceed _) => exact absurd trivial idle
  | .serve (.pass _) => exact absurd trivial idle
  | .drop _ => exact absurd trivial idle
  | .clear _ => exact absurd trivial idle

lemma run [UrlRules] (keyed : c.trustedKeys.isEmpty = false) (h : Alike g g')
    (moves : List GatewayMove) :
    Alike (g.run b c o moves)
      (g'.run b c o (moves.filter (GatewayMove.Credible c.trustedKeys))) := by
  induction moves generalizing g g' with
  | nil => exact h
  | cons move moves ih =>
    by_cases credible : move.Credible c.trustedKeys
    · rw [List.filter_cons, if_pos (decide_eq_true credible)]
      exact ih (h.step move)
    · rw [List.filter_cons, if_neg (decide_eq_true_iff.not.mpr credible)]
      exact ih (h.skip keyed credible)

end Alike

end Gateway

/-- Where there are keys, whatever is done for a request is done on behalf of the agent that its
token names. Jobs are made just of the requests that get to an exchange, and these are the requests
for an exchange, of a body that is not too large, with a token of an agent that is let in. What
passes the gate without a token gets to the banner. The key of a job is a key of its agent. Now let
requests come in, be waited for and be dropped, for whatever store. All that is done with the store
is done for requests with tokens, to entries of the agents that these name. What is done for
different agents is done to different entries, in memory as well as among shared records. All calls
are made for requests with tokens. Without the other requests, the store and the calls would be the
same. -/
theorem run_admits_verified [UrlRules] {σ : Type} (b : TimedBackend σ) (c : Config) (o : Origin)
    (store : σ) (moves : List GatewayMove) (keyed : c.trustedKeys.isEmpty = false) :
    let g := (Gateway.start store).run b c o moves
    let uses := (Gateway.start store).uses b c o moves
    let requests := requestsOf moves
    (∀ clock r job, examine c clock r = .admitted job ↔
      ∃ agent, Reaches c clock r agent ∧ Job.ofRequest c agent r = .ok job) ∧
    (∀ clock r, passage c clock r = .ok none → Route.of r = .banner) ∧
    (∀ clock r agent, Reaches c clock r agent ↔
      Route.of r = .exchange ∧ r.body.length ≤ c.maxBodyBytes ∧
        ∃ t, Bears c.trustedKeys clock r t ∧ t.message = agent ∧
          (c.allowAgents ≠ [] → t.message ∈ c.allowAgents)) ∧
    (∀ agent r job, Job.ofRequest c agent r = .ok job →
      job.key = ⟨agent, r.method, r.headerText idempotencyKeyHeader⟩) ∧
    (∀ use ∈ uses, ∃ t, BearsAt c.trustedKeys requests use.id t ∧
      (c.allowAgents ≠ [] → t.message ∈ c.allowAgents) ∧ use.key.agent = t.message) ∧
    (∀ use ∈ uses, ∀ use' ∈ uses, ∀ t t', BearsAt c.trustedKeys requests use.id t →
      BearsAt c.trustedKeys requests use'.id t' → t.message ≠ t'.message →
        use.key ≠ use'.key ∧ use.key.recordKey ≠ use'.key.recordKey) ∧
    (∀ move, (∀ tick, move ≠ .serve (.pass tick)) →
      (g.step b c o move).service.shared.store = g.used b (g.use? c move)) ∧
    (∀ id time call, .called id time call ∈ g.service.seen →
      ∃ t, BearsAt c.trustedKeys requests id t) ∧
    g.service.seen.filterMap Sighting.call? = g.service.shared.calls ∧
    ((Gateway.start store).run b c o
      (moves.filter (GatewayMove.Credible c.trustedKeys))).service.shared = g.service.shared := by
  intro g uses requests
  have accounted : Gateway.Accounted c requests g := (Gateway.Accounted.start c store).run moves
  -- whoever uses an entry has borne a token, and the key tells its agent
  have owned : ∀ use ∈ uses, ∃ t, BearsAt c.trustedKeys requests use.id t ∧
      (c.allowAgents ≠ [] → t.message ∈ c.allowAgents) ∧ use.key.agent = t.message := by
    intro use hu
    obtain ⟨job, asks, hk⟩ := (Gateway.Accounted.start c store).uses moves use hu
    obtain ⟨t, bears, listed, agent⟩ := asks.bears keyed
    exact ⟨t, bears, listed, by rw [← hk, agent]⟩
  refine ⟨fun clock r job => examine_eq_admitted_iff, fun clock r => Route.of_eq_banner,
    fun clock r agent => reaches_iff keyed, fun agent r job => Job.key_of_ofRequest, owned, ?_,
    fun move => g.store_step b c o move, ?_, accounted.calls, ?_⟩
  · intro use hu use' hu' t t' bears bears' distinct
    obtain ⟨own, hown, -, agent⟩ := owned use hu
    obtain ⟨own', hown', -, agent'⟩ := owned use' hu'
    cases bears.unique hown
    cases bears'.unique hown'
    -- a request bears one token, so that the keys have different agents
    have agents : use.key.agent ≠ use'.key.agent := by rwa [agent, agent']
    exact ⟨fun hk => agents (by rw [hk]), IdempotencyKey.recordKey_ne agents⟩
  · intro id time call hc
    obtain ⟨job, asks, -⟩ := accounted.called id time call hc
    obtain ⟨t, bears, -⟩ := asks.bears keyed
    exact ⟨t, bears⟩
  · have same : Gateway.Alike (Gateway.start store) (Gateway.start store) := ⟨rfl, rfl, rfl, rfl⟩
    exact (same.run keyed moves).shared

/-- A proxy that lets in one agent. -/
def doorkeeper : Config := ⟨"", 0, 9, 1, 5, 9, none, ["a"], ⟨[], [porterKey]⟩, [], []⟩

/-- A header with a text. -/
def header (name : HeaderName) (text : String) : HeaderName × HeaderValue :=
  (name, (HeaderValue.ofString? text).getD ⟨[], rfl⟩)

/-- A request without a token. -/
def stranger : Request :=
  ⟨"POST", .ofString "/a", .ofList [header forwardedHost "a", header idempotencyKeyHeader "k"], []⟩

/-- The same request with a token. -/
def holder : Request :=
  let (name, value) := header proxyAuthorization pass.bearer
  { stranger with headers := stranger.headers.append name value }

/-- The request with the token is dropped while its call is made. -/
def deserted : List GatewayMove :=
  [.serve (.arrive 1700000000 stranger), .serve (.arrive 1700000000 holder), .serve (.proceed 0),
    .drop 0, .serve (.pass (.wait 1)), .clear 0]

theorem run_admits_verified_deserted :
    let start : Gateway MemoryStore := .start (.new 5)
    let origin : Origin := fun _ _ => ⟨2, .error ""⟩
    let uses := start.uses .memory doorkeeper origin deserted
    doorkeeper.trustedKeys.isEmpty = false ∧
    uses = [⟨1, ⟨"a", "POST", "k"⟩, .tryAcquire⟩, ⟨1, ⟨"a", "POST", "k"⟩, .release (.nth 0)⟩] ∧
    (∀ use ∈ uses, ∃ t, BearsAt doorkeeper.trustedKeys (requestsOf deserted) use.id t ∧
      (doorkeeper.allowAgents ≠ [] → t.message ∈ doorkeeper.allowAgents) ∧
      use.key.agent = t.message) := by
  intro start origin uses
  have keyed : doorkeeper.trustedKeys.isEmpty = false := rfl
  refine ⟨keyed, by decide +kernel, ?_⟩
  exact (run_admits_verified .memory doorkeeper origin (.new 5) deserted keyed).2.2.2.2.1

end OnceProxy
