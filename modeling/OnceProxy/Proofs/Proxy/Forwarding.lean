import Mathlib.Data.List.Forall2
import OnceProxy.Proofs.Http.ContentLength
import OnceProxy.Proofs.Http.HeaderMap
import OnceProxy.Proofs.Settings.Tables
import OnceProxy.Proxy.Job

/-!
# Calls to origins

A call carries the headers of its request in the same order, without those that are meant for the
proxy. Values that name header variables are replaced by those of the variables, once. The body
stays behind where the method is safe, but the length that the headers tell of it does not.
-/

namespace OnceProxy

open Http

/-! ### Header variables -/

/-- A table of header variables. Each name says that it is one, and stands there once. -/
structure IsHeaderTable (vars : List (String × HeaderValue)) : Prop where
  named : ∀ e ∈ vars, Config.startsWith "HEADER_" e.1 = true
  distinct : (vars.map (·.1)).Nodup

/-- Settings have a table of header variables. -/
lemma Config.isHeaderTable_of_ofVars {given : List (String × String)} {c : Config}
    (h : ofVars given = .ok c) : IsHeaderTable c.headerVars := by
  have made := (madeOf_of_ofVars h).tables.headers
  have names : (ofFamily .header (Table.ofList given)).map (·.1) = c.headerVars.map (·.1) := by
    rw [← List.forall₂_eq_eq_eq, List.forall₂_map_left_iff, List.forall₂_map_right_iff]
    exact made.imp fun _ _ hev => hev.1.symm
  constructor
  · intro e he
    have hm : e.1 ∈ c.headerVars.map (·.1) := List.mem_map_of_mem he
    rw [← names] at hm
    obtain ⟨f, hf, hn⟩ := List.mem_map.mp hm
    rw [← hn]
    exact (mem_ofFamily.mp hf).2
  · rw [← names]
    exact ((Table.sorted_ofList given).filter _).nodup

/-! ### Forwarded headers -/

variable {vars : List (String × HeaderValue)} {name : HeaderName} {m : HeaderMap}

/-- A value is sent on as that of the variable of which it is the name, as text and as a whole. It is
sent on as it is if it is the name of none; a value with bytes that are no text never is a name. -/
def SentAs (vars : List (String × HeaderValue)) (v w : HeaderValue) : Prop :=
  (∃ name, v.toString? = some name ∧ (name, w) ∈ vars) ∨
    w = v ∧ ∀ e ∈ vars, v.toString? ≠ some e.1

lemma sentAs_substitute (table : IsHeaderTable vars) (v : HeaderValue) :
    SentAs vars v (substitute vars v) := by
  unfold substitute
  split
  · rename_i name hv
    split
    · cases hw : Table.get? name vars with
      | none =>
        refine .inr ⟨rfl, fun e he hname => ?_⟩
        cases hv.symm.trans hname
        have hsome := (Table.get?_eq_some_iff table.distinct).mpr he
        rw [hw] at hsome
        cases hsome
      | some w => exact .inl ⟨name, hv, (Table.get?_eq_some_iff table.distinct).mp hw⟩
    · rename_i start
      -- a name in the table would start like one
      refine .inr ⟨rfl, fun e he hname => start ?_⟩
      cases hv.symm.trans hname
      exact table.named e he
  · rename_i hv
    exact .inr ⟨rfl, fun e _ hname => by rw [hv] at hname; cases hname⟩

lemma toList_forwardHeaders (m : HeaderMap) (vars : List (String × HeaderValue)) :
    (forwardHeaders m vars).toList =
      (m.toList.filter fun h => h.1.text ∉ strippedHeaders).map
        fun h => (h.1, substitute vars h.2) := by
  rw [← HeaderMap.toList_ofList_map m (fun name => name.text ∉ strippedHeaders)]
  congr 1
  rw [HeaderMap.ofList, List.foldl_map, List.foldl_filter, forwardHeaders]
  congr 1
  funext m h
  simp

/-- Of a name that is not stripped all values are sent on. -/
lemma values_forwardHeaders (h : name.text ∉ strippedHeaders) :
    (forwardHeaders m vars).values name = (m.values name).map (substitute vars) := by
  have named : ∀ h' ∈ m.toList,
      (decide (h'.1 = name) && decide (h'.1.text ∉ strippedHeaders)) = decide (h'.1 = name) := by
    intro h' _
    by_cases hn : h'.1 = name <;> simp [hn, h]
  rw [HeaderMap.values_eq, toList_forwardHeaders, List.filter_map, List.map_map,
    HeaderMap.values_eq, List.map_map, List.filter_filter]
  exact congrArg _ (List.filter_congr named)

/-- A call has the headers of its request in their order, without the stripped names, each value as
it is sent on. -/
theorem forwards_headers (headers : HeaderMap) {vars : List (String × HeaderValue)}
    (table : IsHeaderTable vars) :
    List.Forall₂ (fun h sent => sent.1 = h.1 ∧ SentAs vars h.2 sent.2)
      (headers.toList.filter fun h => h.1.text ∉ strippedHeaders)
      (forwardHeaders headers vars).toList := by
  rw [toList_forwardHeaders, List.forall₂_map_right_iff, List.forall₂_same]
  exact fun h _ => ⟨rfl, sentAs_substitute table h.2⟩

/-- Settings with two header variables, of which one has the name of the other for its value. -/
def chained : List (String × String) :=
  [("HEADER_SECRET", "s3"), ("URL_A", "http://a"), ("HEADER_KEY", "HEADER_SECRET")]

/-- The table of these variables. -/
def chain : List (String × HeaderValue) :=
  [("HEADER_KEY", ⟨Text.Utf8.ofString "HEADER_SECRET", by decide⟩),
    ("HEADER_SECRET", ⟨[115, 51], by decide⟩)]

/-- Headers with names of variables and what is like them. -/
def mingled : HeaderMap :=
  .ofList
    [(⟨"accept", by decide⟩, ⟨Text.Utf8.ofString "HEADER_KEY", by decide⟩),
      (⟨"host", by decide⟩, ⟨Text.Utf8.ofString "HEADER_SECRET", by decide⟩),
      (⟨"x-a", by decide⟩, ⟨Text.Utf8.ofString "HEADER_SECRET", by decide⟩),
      (⟨"accept", by decide⟩, ⟨Text.Utf8.ofString "HEADER_KEYS", by decide⟩),
      (⟨"x-a", by decide⟩, ⟨[230], by decide⟩)]

theorem forwards_headers_mingled :
    (∃ c, Config.ofVars chained = .ok c ∧ c.headerVars = chain) ∧ IsHeaderTable chain ∧
    List.Forall₂ (fun h sent => sent.1 = h.1 ∧ SentAs chain h.2 sent.2)
      (mingled.toList.filter fun h => h.1.text ∉ strippedHeaders)
      [(⟨"accept", by decide⟩, ⟨Text.Utf8.ofString "HEADER_SECRET", by decide⟩),
        (⟨"accept", by decide⟩, ⟨Text.Utf8.ofString "HEADER_KEYS", by decide⟩),
        (⟨"x-a", by decide⟩, ⟨[115, 51], by decide⟩), (⟨"x-a", by decide⟩, ⟨[230], by decide⟩)] := by
  have settings : ∃ c, Config.ofVars chained = .ok c ∧ c.headerVars = chain := ⟨_, rfl, rfl⟩
  have table : IsHeaderTable chain := by
    obtain ⟨c, hc, he⟩ := settings
    exact he ▸ Config.isHeaderTable_of_ofVars hc
  exact ⟨settings, table, forwards_headers mingled table⟩

/-! ### Forwarded bodies -/

/-- The call of a job has the headers of its request as they are sent on, and its body if the method is
not safe. -/
lemma Job.call_of_ofRequest [UrlRules] {c : Config} {agent : String} {r : Request} {job : Job}
    (h : ofRequest c agent r = .ok job) :
    job.call.headers = forwardHeaders r.headers c.headerVars ∧
      job.call.body = if isSafe r.method then [] else r.body := by
  obtain ⟨url, -, h⟩ := ok_of_bind h
  simp only at h
  split at h
  · cases h
  · cases h
    exact ⟨rfl, rfl⟩

lemma startsWith_of_states {v : HeaderValue} {n : Nat} {s : String} (h : v.States n)
    (hs : v.toString? = some s) : Config.startsWith Config.Family.header.start s = false := by
  obtain ⟨nonempty, digits, -⟩ := h
  obtain ⟨b, bs, hb⟩ := List.exists_cons_of_ne_nil nonempty
  have below : b.toNat < 58 :=
    Nat.lt_succ_of_le (Json.isDigit_iff.mp (digits b (hb ▸ List.mem_cons_self))).2
  have other : ∀ k < 58, ('H' == Char.ofNat k) = false := by decide
  unfold HeaderValue.toString? at hs
  split at hs
  · cases hs
    rw [Config.startsWith, String.toList_ofList, hb, List.map_cons]
    change ('H' == Char.ofNat b.toNat && _) = false
    rw [other _ below, Bool.false_and]
  · cases hs

/-- A number is the name of no header variable. -/
lemma substitute_of_states {v : HeaderValue} {n : Nat} (h : v.States n) : substitute vars v = v := by
  unfold substitute
  split
  · rename_i s hs
    rw [startsWith_of_states h hs]
    rfl
  · rfl

lemma values_call_contentLength {c : Config} {r : Request}
    (stated : r.headers.StatesLength r.body.length) :
    (forwardHeaders r.headers c.headerVars).values contentLength =
      r.headers.values contentLength := by
  rw [values_forwardHeaders (by decide)]
  conv_rhs => rw [← List.map_id (r.headers.values contentLength)]
  exact List.map_congr_left fun v hv => substitute_of_states (stated v hv)

/-- Let the length that the headers of a request tell, if they tell one, be that of its body. Then the
call for it tells the length of the body that it carries, if it tells one, unless the method is safe
and the request has both a body and its length. -/
theorem Job.call_states_length_iff [UrlRules] {c : Config} {agent : String} {r : Request}
    {job : Job} (h : ofRequest c agent r = .ok job)
    (stated : r.headers.StatesLength r.body.length) :
    job.call.headers.StatesLength job.call.body.length ↔
      ¬ (isSafe r.method = true ∧ r.body ≠ [] ∧ r.headers.values contentLength ≠ []) := by
  obtain ⟨headers, body⟩ := Job.call_of_ofRequest h
  rw [HeaderMap.StatesLength, headers, body, values_call_contentLength stated]
  constructor
  · -- a safe method drops the body, so that a length can only be zero
    rintro consistent ⟨safe, nonempty, told⟩
    obtain ⟨v, hv⟩ := List.exists_mem_of_ne_nil _ told
    have none := consistent v hv
    rw [if_pos safe] at none
    exact nonempty (List.length_eq_zero_iff.mp ((stated v hv).unique none))
  · intro rest v hv
    split
    · rename_i safe
      have empty : r.body = [] := by
        by_contra nonempty
        exact rest ⟨safe, nonempty, List.ne_nil_of_mem hv⟩
      have states := stated v hv
      rwa [empty] at states
    · exact stated v hv

/-- Settings with header variables. -/
def postOffice : Config := ⟨"", 0, 9, 1, 5, 9, none, [], ⟨[], []⟩, [], chain⟩

/-- A request with a body of three bytes and its length. -/
def parcel (method : String) : Request where
  method := method
  target := .ofString "/a"
  headers := .ofList
    [(forwardedHost, ⟨[98], by decide⟩), (idempotencyKeyHeader, ⟨[109], by decide⟩),
      (contentLength, ⟨[51], by decide⟩),
      (⟨"authorization", by decide⟩, ⟨Text.Utf8.ofString "HEADER_KEY", by decide⟩)]
  body := [97, 98, 99]

/-- The job of this request. -/
def parcelJob (method : String) (body : List UInt8) : Job where
  key := ⟨"ANON", method, "m"⟩
  call := ⟨method, "https://b/a", forwardHeaders (parcel method).headers chain, body⟩
  allowList := ""
  mask := ""
  atRoot := false

theorem Job.call_states_length_iff_parcel :
    let job := parcelJob "POST" (parcel "POST").body
    ofRequest postOffice "ANON" (parcel "POST") = .ok job ∧ (parcel "POST").headers.StatesLength 3 ∧
    job.call.headers.values contentLength = [⟨[51], by decide⟩] ∧
    job.call.headers.StatesLength job.call.body.length := by
  intro job
  have made : ofRequest postOffice "ANON" (parcel "POST") = .ok job := by decide +kernel
  have stated : (parcel "POST").headers.StatesLength (parcel "POST").body.length := by
    decide +kernel
  refine ⟨made, stated, by decide +kernel, (Job.call_states_length_iff made stated).mpr ?_⟩
  rintro ⟨safe, -⟩
  exact absurd safe (by decide)

/-- The same request by a safe method makes a call without the body, but with its length. -/
theorem Job.exists_call_without_stated_body :
    let job := parcelJob "GET" []
    ofRequest postOffice "ANON" (parcel "GET") = .ok job ∧
    (parcel "GET").headers.StatesLength (parcel "GET").body.length ∧
    job.call.headers.values contentLength = [⟨[51], by decide⟩] ∧ job.call.body.length = 0 ∧
    ¬ job.call.headers.StatesLength job.call.body.length := by
  intro job
  refine ⟨?_, ?_, ?_, rfl, ?_⟩ <;> decide +kernel

end OnceProxy
