import OnceProxy.Proofs.Proxy.AtMostOnce
import OnceProxy.Proofs.Proxy.Leases
import OnceProxy.Proofs.Proxy.Settling

/-!
# Answers that are kept

When a request that still has its key gets a final answer whose body can be projected, it stores the
envelope unless its time runs out before. Then no call is started for the key until the envelope is
due.
-/

namespace OnceProxy

/-! ### Envelopes that can be made -/

namespace Envelope

/-- Whether the mask can be applied to a body, if it has to be at all. -/
def Projects (e : Envelope) (body : List UInt8) (mask : List String) : Prop :=
  300 ≤ e.status ∨ mask = [] ∨
    if occursIn "application/json".toList e.mime.toList then ∃ v, Json.Value.ofBytes body = .ok v
    else if occursIn "application/cbor".toList e.mime.toList then
      ∃ v, Cbor.Value.ofBytes body = .ok v
    else True

lemma exists_maskJson_iff (body : List UInt8) (mask : List String) :
    (∃ kept, maskJson body mask = .ok kept) ↔ ∃ v, Json.Value.ofBytes body = .ok v := by
  unfold maskJson
  cases Json.Value.ofBytes body with
  | ok v => exact ⟨fun _ => ⟨v, rfl⟩, fun _ => ⟨_, rfl⟩⟩
  | error => constructor <;> rintro ⟨v, hv⟩ <;> cases hv

lemma exists_maskCbor_iff (body : List UInt8) (mask : List String) :
    (∃ kept, maskCbor body mask = .ok kept) ↔ ∃ v, Cbor.Value.ofBytes body = .ok v := by
  unfold maskCbor
  cases Cbor.Value.ofBytes body with
  | ok v => exact ⟨fun _ => ⟨v, rfl⟩, fun _ => ⟨_, rfl⟩⟩
  | error => constructor <;> rintro ⟨v, hv⟩ <;> cases hv

lemma exists_project_iff (e : Envelope) (body : List UInt8) (mask : List String) :
    (∃ kept, e.project body mask = .ok kept) ↔ e.Projects body mask := by
  unfold project Projects
  rw [← or_assoc]
  split
  · rename_i skip
    exact ⟨fun _ => .inl skip, fun _ => ⟨body, rfl⟩⟩
  · rename_i skip
    rw [or_iff_right skip]
    split
    · exact exists_maskJson_iff body mask
    · split
      · exact exists_maskCbor_iff body mask
      · exact ⟨fun _ => trivial, fun _ => ⟨body, rfl⟩⟩

lemma exists_withBody_iff (e : Envelope) (body : List UInt8) (mask : String) :
    (∃ e', e.withBody body mask = .ok e') ↔ e.Projects body (Text.commaList mask) := by
  rw [← exists_project_iff, withBody]
  cases e.project body (Text.commaList mask) with
  | ok kept => exact ⟨fun _ => ⟨kept, rfl⟩, fun _ => ⟨_, rfl⟩⟩
  | error => constructor <;> rintro ⟨v, hv⟩ <;> cases hv

end Envelope

/-- What is kept of the headers of an answer. -/
def Job.head (job : Job) (r : OriginResponse) : Envelope :=
  (Envelope.new r.status).withHeaders r.headers job.allowList

/-- An envelope is made of just those answers that are final and whose bodies can be projected. -/
lemma Job.exists_envelope_iff (job : Job) (r : OriginResponse) :
    (∃ e, job.envelope r = .ok e) ↔
      isFinal r.status ∧ (job.head r).Projects r.body (Text.commaList job.mask) := by
  rw [← Envelope.exists_withBody_iff, envelope, head]
  split
  · rename_i final
    exact ⟨fun h => ⟨final, h⟩, fun h => h.2⟩
  · rename_i final
    constructor
    · rintro ⟨e, he⟩
      cases he
    · intro h
      exact absurd h.1 final

namespace ProxyState

variable {s : ProxyState} {i : Nat} {job : Job} {lease : Lease} {since : Nat} {reply : Reply}
  {response : OriginResponse} {e : Envelope}

/-- A request that gets an answer of which an envelope can be made is about to store it. -/
lemma storing_of_returns (hi : s.visitors[i]? = some ⟨job, .serving (.calling lease since reply)⟩)
    (due : Stage.callEnd s.config since reply ≤ s.entries.now)
    (fast : reply.delay ≤ s.config.requestTimeout) (hr : reply.result = .ok response)
    (he : job.envelope response = .ok e) :
    (s.step (.proceed i)).Storing i job lease e ∧ (s.step (.proceed i)).log = s.log ∧
      (s.step (.proceed i)).entries = s.entries := by
  have ready : Stage.isReady s.config s.entries.now (.calling lease since reply) = true := by
    simpa [Stage.isReady, Stage.hasEnded, Stage.due?] using due
  have next : Stage.afterCall s.config job lease reply = .storing lease e := by
    simp only [Stage.afterCall, if_neg (Nat.not_lt.mpr fast), hr, he]
  have hstep : s.step (.proceed i) = s.after i job (.serving (.storing lease e)) [] s.calls := by
    rw [step, proceed, hi]
    simp only [Course.operation?, Option.isNone_none, ready, and_self, if_true]
    rw [advance_serving hi]
    simp only [Stage.step, next]
    rfl
  rw [hstep]
  refine ⟨?_, List.append_nil s.log, rfl⟩
  exact List.getElem?_set_self (List.getElem?_eq_some_iff.mp hi).1

/-- What holds since an envelope was stored: it is ready until it is due, and before that no call
for the key is started. -/
structure Keeps (t : ProxyState) (key : IdempotencyKey) (lease : Lease) (e : Envelope) (time : Nat)
    (after : List Sign) : Prop where
  ready : t.entries.store.cycle key = .ready lease e.encode (time + t.config.cacheTtl) ∨
    ∃ d, .event d ∈ after ∧ d.key = key ∧ d.expired? = some lease ∧
      time + t.config.cacheTtl ≤ d.time
  calls : ∀ time' j lease' call, .called time' j key lease' call ∈ after →
    time + t.config.cacheTtl ≤ time'

lemma keeps_of_stored {t : ProxyState} (valid : t.Valid) (granted : CallsAreGranted t.log)
    {before after : List Sign} {time : Nat} {key : IdempotencyKey}
    (hl : t.log = before ++
      .event ⟨time, key, .answered i (.store lease e.encode) (.stored (.ok ()))⟩ :: after)
    (unused : ∀ d, .event d ∈ after → d.released? ≠ some lease) :
    t.Keeps key lease e time after := by
  have hevents := valid.events
  rw [hl, List.filterMap_append] at hevents
  have legal := valid.entries.legal
  rw [← hevents] at legal
  constructor
  · rw [valid.entries.cycles, ← hevents]
    -- the lease is not released, so that the cycle lasts until it expires
    rcases legal.kept rfl rfl fun d hd => unused d (Sign.mem_events.mp hd) with
      ready | ⟨d, hd, hk, hx, hle⟩
    · exact .inl ready
    · exact .inr ⟨d, Sign.mem_events.mp hd, hk, hx, hle⟩
  · intro time' j lease' call hm
    obtain ⟨x, y, rfl⟩ := List.append_of_mem hm
    -- the key is granted right before the call, and this is after the envelope was stored
    rw [hl, ← List.cons_append, ← List.append_assoc] at granted
    obtain ⟨x', _, rfl, ⟨_, _, _, _, _, hc, rfl⟩⟩ :=
      granted.after ⟨j, time', key, lease', call, rfl⟩ (by simp [StartsCall])
    cases hc
    simp only [List.filterMap_append, List.filterMap_cons, Sign.event?, List.append_assoc,
      List.cons_append, List.nil_append] at legal
    rw [← List.cons_append, ← List.append_assoc] at legal
    exact legal.due_le_of_granted rfl rfl
      (fun d hd => unused d (by simp [Sign.mem_events.mp hd])) rfl rfl

/-- An envelope is not stored only if the time of the lease ran out before. -/
lemma expired_of_lost {t : ProxyState} (valid : t.Valid) {past before after : List Sign}
    {time due : Nat} {key : IdempotencyKey} {error : ProxyError}
    (hl : t.log = past ++ (before ++
      .event ⟨time, key, .answered i (.store lease e.encode) (.stored (.error error))⟩ :: after))
    (held : cycleOf t.config.cacheTtl key (past.filterMap Sign.event?) = .held lease due)
    (unused : ∀ d, .event d ∈ before →
      d.released? ≠ some lease ∧ ∀ value, d.stored? ≠ some (lease, value)) :
    ∃ d, .event d ∈ before ∧ d.key = key ∧ d.expired? = some lease ∧ due ≤ d.time := by
  have legal := valid.entries.legal
  rw [← valid.events, hl, List.filterMap_append, List.filterMap_append, ← List.append_assoc]
    at legal
  rcases legal.store_answer held fun d hd => unused d (Sign.mem_events.mp hd) with
    hstored | ⟨d, hd, hk, hx, hle⟩
  · cases hstored
  · exact ⟨d, Sign.mem_events.mp hd, hk, hx, hle⟩

end ProxyState

/-- Answers that are kept. If a request still has its key when it gets a final answer whose body
can be projected, and is not dropped but gets its turns, then it stores the envelope of the answer
unless its time runs out before. The envelope is ready until it is due, and before that no call for
the key is started, as long as the numbers of leases last. -/
theorem run_keeps_final_answers (config : Config) (origin : Origin) (moves later : List ProxyMove)
    (i : Nat) (job : Job) (lease : Lease) (since : Nat) (reply : Reply) (response : OriginResponse)
    (due : Nat) :
    let s := (ProxyState.start config origin).run moves
    let t := (s.step (.proceed i)).run later
    s.visitors[i]? = some ⟨job, .serving (.calling lease since reply)⟩ →
    Stage.callEnd config since reply ≤ s.entries.now →
    reply.delay ≤ config.requestTimeout → reply.result = .ok response →
    Job.isFinal response.status = true →
    (job.head response).Projects response.body (Text.commaList job.mask) →
    s.entries.store.cycle job.key = .held lease due →
    [.call i, .lookUp i, .act i].Sublist later → .drop i ∉ later → t.entries.draws < 2 ^ 64 →
    ∃ e more, job.envelope response = .ok e ∧ t.log = s.log ++ more ∧
      ((∃ before d after, more = before ++ .event d :: after ∧ ProxyState.Silent i before ∧
        d.key = job.key ∧ d.expired? = some lease ∧ due ≤ d.time) ∨
      ∃ before time after, more = before ++
        .event ⟨time, job.key, .answered i (.store lease e.encode) (.stored (.ok ()))⟩ :: after ∧
        t.Keeps job.key lease e time after) := by
  intro s t hi hdue fast hr final projects held turns stays fresh
  obtain ⟨e, he⟩ := (job.exists_envelope_iff response).mpr ⟨final, projects⟩
  have valid : s.Valid := (ProxyState.run_calls config origin moves).1
  have hconfig : s.config = config := ProxyState.config_run _ moves
  obtain ⟨storing, hlog, hentries⟩ := ProxyState.storing_of_returns hi (hconfig ▸ hdue)
    (hconfig ▸ fast) hr he
  -- the client of the request is idle, so all of its turns are needed
  have idle : (s.step (.proceed i)).entries.clients[i]? = some .idle := by
    rw [hentries]
    exact valid.linked.idle_client hi rfl
  have silent : ProxyState.Silent i [] := fun _ _ _ _ => List.not_mem_nil
  obtain ⟨more, hl, settled⟩ := storing.run (valid.step _) silent idle turns stays
  rw [hlog] at hl
  rw [List.nil_append] at settled
  refine ⟨e, more, he, hl, ?_⟩
  obtain ⟨whole, ht⟩ : ∃ whole, t = (ProxyState.start config origin).run whole :=
    ⟨moves ++ .proceed i :: later, (ProxyState.run_append _ moves (.proceed i :: later)).symm⟩
  obtain ⟨valid', granted, -⟩ := ht ▸ ProxyState.run_calls config origin whole
  -- the lease is that of the request, and nobody else has it
  have hgranted : t.GrantedTo i job.key lease := by
    obtain ⟨time, hm⟩ := (ProxyState.Owned.run config origin moves).holds i job _ lease hi rfl
    exact ⟨time, hl ▸ List.mem_append_left more hm⟩
  have unused {signs : List Sign} (silent : ProxyState.Silent i signs)
      (seen : ∀ x ∈ signs, x ∈ more) {d : Event} (hd : .event d ∈ signs) :
      d.released? ≠ some lease ∧ ∀ value, d.stored? ≠ some (lease, value) := by
    have seen (x : Sign) (hx : x ∈ signs) : x ∈ t.log := hl ▸ List.mem_append_right _ (seen x hx)
    rw [ht] at fresh hgranted seen
    exact hgranted.unused fresh silent seen hd
  cases settled with
  | stored before after time _ early late =>
    refine .inr ⟨before, time, after, rfl, ?_⟩
    rw [← List.append_assoc] at hl
    apply ProxyState.keeps_of_stored valid' granted hl
    intro d hd
    exact (unused late (fun x hx => by simp [hx]) hd).1
  -- a store that fails has lost its lease, which then has expired
  | lost before after time error early =>
    have hcycle : cycleOf t.config.cacheTtl job.key (s.log.filterMap Sign.event?) =
        .held lease due := by
      have hsame : t.config = s.config := by rw [hconfig, ht, ProxyState.config_run]; rfl
      rw [hsame, valid.events, ← valid.entries.cycles, held]
    obtain ⟨d, hd, hexpired⟩ := ProxyState.expired_of_lost valid' hl hcycle fun d hd =>
      unused early (fun x hx => by simp [hx]) hd
    obtain ⟨first, rest, rfl⟩ := List.append_of_mem hd
    refine .inl ⟨first, d, _, List.append_assoc .., ?_, hexpired⟩
    intro time key action answer hm
    exact early time key action answer (List.mem_append_left _ hm)

/-- An answer with a JSON body. -/
def jsonAnswer (body : String) : OriginResponse :=
  ⟨200, .insert .empty Http.contentType ⟨Text.Utf8.ofString "application/json", by decide⟩,
    Text.Utf8.ofString body⟩

/-- A request that keeps one member of a JSON body. -/
def selective : Job := ⟨⟨"", "", ""⟩, ⟨"", "", .empty, []⟩, "", "id", false⟩

/-- Two requests with one key, of which the first waits for an answer. -/
def pending (body : String) : ProxyState :=
  (ProxyState.start ⟨"", 0, 9, 1, 5, 0, none, [], ⟨[], []⟩, [], []⟩ fun _ _ =>
    ⟨0, .ok (jsonAnswer body)⟩).run
    [.arrive selective, .arrive selective, .call 0, .lookUp 0, .act 0]

theorem run_keeps_final_answers_selective :
    let response := jsonAnswer "\x7b\"id\":7,\"no\":8\x7d"
    let s := pending "\x7b\"id\":7,\"no\":8\x7d"
    let later : List ProxyMove := [.call 0, .call 1, .lookUp 0, .lookUp 1, .act 1, .act 0, .wait 9]
    let t := (s.step (.proceed 0)).run later
    s.visitors[0]? = some ⟨selective, .serving (.calling ⟨1⟩ 0 ⟨0, .ok response⟩)⟩ ∧
    Job.isFinal response.status = true ∧
    (selective.head response).Projects response.body (Text.commaList selective.mask) ∧
    s.entries.store.cycle selective.key = .held ⟨1⟩ 5 ∧
    [.call 0, .lookUp 0, .act 0].Sublist later ∧ .drop 0 ∉ later ∧ t.entries.draws < 2 ^ 64 ∧
    ∃ e more, selective.envelope response = .ok e ∧ t.log = s.log ++ more ∧
      ((∃ before d after, more = before ++ .event d :: after ∧ ProxyState.Silent 0 before ∧
        d.key = selective.key ∧ d.expired? = some ⟨1⟩ ∧ 5 ≤ d.time) ∨
      ∃ before time after, more = before ++ .event
        ⟨time, selective.key, .answered 0 (.store ⟨1⟩ e.encode) (.stored (.ok ()))⟩ :: after ∧
        t.Keeps selective.key ⟨1⟩ e time after) := by
  intro response s later t
  have projects : (selective.head response).Projects response.body
      (Text.commaList selective.mask) :=
    ((selective.exists_envelope_iff response).mp
      ⟨⟨200, [], Text.Utf8.ofString "\x7b\"id\":7\x7d", "application/json"⟩, by decide +kernel⟩).2
  have held : s.entries.store.cycle selective.key = .held ⟨1⟩ 5 := by decide
  have turns : [.call 0, .lookUp 0, .act 0].Sublist later := by decide
  have stays : .drop 0 ∉ later := by decide
  have fresh : t.entries.draws < 2 ^ 64 := by decide +kernel
  exact ⟨rfl, by decide, projects, held, turns, stays, fresh,
    run_keeps_final_answers _ _ _ later 0 selective ⟨1⟩ 0 ⟨0, .ok response⟩ response 5 rfl
      (by decide) (by decide) rfl (by decide) projects held turns stays fresh⟩

/-- A final answer is not always kept. If the mask cannot be applied to its body the lease is
released, and the next request makes another call. If the time of the lease runs out before the
envelope is stored, nothing is stored either. -/
theorem exists_final_answer_not_kept :
    let response := jsonAnswer "not json"
    let s := pending "not json"
    let t := (s.step (.proceed 0)).run [.call 0, .lookUp 0, .act 0, .call 1, .lookUp 1, .act 1]
    let late := ((pending "\x7b\x7d").step (.proceed 0)).run
      [.wait 5, .fire ⟨0, 1, 5⟩, .call 0, .lookUp 0, .act 0]
    (s.visitors[0]? = some ⟨selective, .serving (.calling ⟨1⟩ 0 ⟨0, .ok response⟩)⟩ ∧
      Job.isFinal response.status = true ∧ s.entries.store.cycle selective.key = .held ⟨1⟩ 5 ∧
      t.log.filterMap Sign.event? =
        [⟨0, selective.key, .answered 0 (.acquire ⟨1⟩) (.acquired true)⟩,
          ⟨0, selective.key, .answered 0 (.release ⟨1⟩) (.released true)⟩,
          ⟨0, selective.key, .answered 1 (.acquire ⟨2⟩) (.acquired true)⟩] ∧
      t.log.filterMap Sign.call? = [selective.call, selective.call] ∧ t.entries.now = 0) ∧
    (selective.head (jsonAnswer "\x7b\x7d")).Projects (jsonAnswer "\x7b\x7d").body
      (Text.commaList selective.mask) ∧
    ∀ e ∈ late.log.filterMap Sign.event?, e.stored? = none := by
  intro response s t late
  refine ⟨⟨rfl, by decide, by decide, by decide +kernel, by decide +kernel, by decide +kernel⟩, ?_,
    by decide +kernel⟩
  exact ((selective.exists_envelope_iff _).mp
    ⟨⟨200, [], Text.Utf8.ofString "\x7b\x7d", "application/json"⟩, by decide +kernel⟩).2

end OnceProxy
