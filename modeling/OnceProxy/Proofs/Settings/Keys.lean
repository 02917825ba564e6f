import OnceProxy.Proofs.Auth.Verification
import OnceProxy.Proofs.Proxy.Gate
import OnceProxy.Proofs.Settings.Tables
import OnceProxy.Proofs.Text.Base64Url
import OnceProxy.Proofs.Text.ByteOrder
import OnceProxy.Proofs.Text.Trimming
import OnceProxy.Startup

/-!
# Variables that count

Every variable with a key is read, or the proxy does not start. So a single one of them, even a
blank one, is enough that nobody is taken for the anonymous agent.
-/

namespace OnceProxy

open Http

namespace Config

/-- A list is made of the variables of which the names start in one way. Each of these variables
makes one item, and the items are in the bytewise order of the names. Of several variables with one
name the last counts. -/
def MadeFrom {β : Type} (given : List (String × String)) (start : String)
    (makes : String × String → β → Prop) (items : List β) : Prop :=
  ∃ vars : List (String × String),
    vars.Pairwise (fun e f => Text.Utf8.ofString e.1 < Text.Utf8.ofString f.1) ∧
    (∀ name value, (name, value) ∈ vars ↔
      Table.Last given name value ∧ startsWith start name = true) ∧
    List.Forall₂ makes vars items

/-- The name of a variable with a key. -/
def IsKeyName (name : String) : Prop :=
  startsWith "ECDSA_PUB_KEY" name = true ∨ startsWith "ED25519_PUB_KEY" name = true

section

variable {β : Type} {given : List (String × String)} {start : String}
  {makes : String × String → β → Prop} {items : List β} {name value : String} {c : Config}

lemma madeFrom_of_family {f : Family}
    (h : List.Forall₂ makes (ofFamily f (Table.ofList given)) items) :
    MadeFrom given f.start makes items := by
  refine ⟨ofFamily f (Table.ofList given), ?_, ?_, h⟩
  · exact ((Table.sorted_ofList given).filter _).imp Text.Utf8.ofString_lt_iff.mpr
  · intro name value
    rw [mem_ofFamily, Table.mem_ofList_iff]

/-- Every variable makes an item. -/
lemma MadeFrom.exists_item (h : MadeFrom given start makes items)
    (last : Table.Last given name value) (hs : startsWith start name = true) :
    ∃ item ∈ items, makes (name, value) item := by
  obtain ⟨vars, -, members, made⟩ := h
  have hm := (members name value).mpr ⟨last, hs⟩
  -- the induction is on how the items were made, with the variables in their order
  clear members
  induction made with
  | nil => cases hm
  | cons head _ ih =>
    rcases List.mem_cons.mp hm with rfl | hm
    · exact ⟨_, List.mem_cons_self, head⟩
    · obtain ⟨item, hitem, makes⟩ := ih hm
      exact ⟨item, List.mem_cons_of_mem _ hitem, makes⟩

/-- No item is made of nothing. -/
lemma MadeFrom.eq_nil (h : MadeFrom given start makes items)
    (none : ∀ e ∈ given, startsWith start e.1 = false) : items = [] := by
  obtain ⟨vars, -, members, made⟩ := h
  cases made with
  | nil => rfl
  | @cons e _ _ _ _ _ =>
    obtain ⟨last, hs⟩ := (members e.1 e.2).mp List.mem_cons_self
    rw [none _ last.mem] at hs
    cases hs

lemma isEmpty_iff_of_ofVars (h : ofVars given = .ok c) :
    c.trustedKeys.isEmpty = true ↔ ∀ e ∈ given, ¬ IsKeyName e.1 := by
  have made := madeOf_of_ofVars h
  have ecdsa : MadeFrom given "ECDSA_PUB_KEY" _ _ := madeFrom_of_family made.tables.ecdsa
  have ed25519 : MadeFrom given "ED25519_PUB_KEY" _ _ := madeFrom_of_family made.tables.ed25519
  rw [TrustedKeys.isEmpty, Bool.and_eq_true, List.isEmpty_iff, List.isEmpty_iff]
  constructor
  · rintro ⟨noEcdsa, noEd25519⟩ e he named
    obtain ⟨value, last⟩ := Table.exists_last (List.mem_map_of_mem he)
    rcases named with hs | hs
    · obtain ⟨key, hk, -⟩ := ecdsa.exists_item last hs
      exact List.not_mem_nil (noEcdsa ▸ hk)
    · obtain ⟨key, hk, -⟩ := ed25519.exists_item last hs
      exact List.not_mem_nil (noEd25519 ▸ hk)
  · intro unnamed
    constructor
    · exact ecdsa.eq_nil fun e he => Bool.eq_false_iff.mpr fun hs => unnamed e he (.inl hs)
    · exact ed25519.eq_nil fun e he => Bool.eq_false_iff.mpr fun hs => unnamed e he (.inr hs)

/-! ### Blank keys -/

lemma trimChars_of_isAllBlank (h : Text.isAllBlank value = true) :
    Text.trimChars value.toList = [] := by
  rw [Text.trimChars_eq_iff]
  have trimmed : Text.IsTrimmed [] := by simp [Text.IsTrimmed]
  exact ⟨⟨value.toList, [], List.all_eq_true.mp h, List.forall_mem_nil _, by simp⟩, trimmed⟩

/-- A blank text is that of no bytes. -/
lemma keyBytes_of_isAllBlank (h : Text.isAllBlank value = true) : keyBytes value = .ok [] := by
  have empty : Base64Url.decode [] = .ok [] := Base64Url.decode_encode []
  rw [keyBytes, trimChars_of_isAllBlank h, Text.Utf8.encode, List.flatMap_nil, empty]
  rfl

/-- No bytes are no key of either kind. -/
lemma not_key_of_isAllBlank (h : Text.isAllBlank value = true) :
    (∀ key, parseEcdsaKey value ≠ .ok key) ∧ ∀ key, parseEd25519Key value ≠ .ok key := by
  have empty := keyBytes_of_isAllBlank h
  constructor
  · intro key hk
    rw [parseEcdsaKey, empty] at hk
    cases hk
  · intro key hk
    rw [parseEd25519Key, empty] at hk
    cases hk

lemma ofVars_ne_of_blank (last : Table.Last given name value) (named : IsKeyName name)
    (blank : Text.isAllBlank value = true) : ∃ e, ofVars given = .error e := by
  cases h : ofVars given with
  | error e => exact ⟨e, rfl⟩
  | ok c =>
    have made := madeOf_of_ofVars h
    obtain ⟨noEcdsa, noEd25519⟩ := not_key_of_isAllBlank blank
    rcases named with hs | hs
    · obtain ⟨key, -, hk⟩ := (madeFrom_of_family made.tables.ecdsa).exists_item last hs
      exact absurd hk (noEcdsa key)
    · obtain ⟨key, -, hk⟩ := (madeFrom_of_family made.tables.ed25519).exists_item last hs
      exact absurd hk (noEd25519 key)

end

/-- The proxy starts with the settings of its variables. -/
lemma ofVars_of_start [Url.ForeignNames] {reach : RecordAddress → Option NetworkError}
    {given : List (String × String)} {c : Config} (h : start reach given = .ok c) :
    ofVars given = .ok c := by
  unfold start at h
  obtain ⟨c', hc, h⟩ := ok_of_bind h
  rw [mapError_eq_ok_iff] at hc
  cases hi : c'.invalid? with
  | some text =>
    rw [hi] at h
    cases h
  | none =>
    rw [hi] at h
    cases hr : c'.redisUrl with
    | none =>
      rw [hr] at h
      cases h
      exact hc
    | some url =>
      rw [hr] at h
      obtain ⟨address, -, h⟩ := ok_of_bind h
      cases h
      exact hc

end Config

/-- No variable is dropped. The keys and tables of the settings are made of the variables of their
families, one entry of each variable, in the bytewise order of the names; so there are keys just if
the name of some variable is that of a key. If there is such a variable, then either the proxy does
not start, or it starts with keys, and nobody is taken for the anonymous agent: a request comes from
an agent just if it bears a token of this agent, and without a token no job is made of it. A
variable with a blank key keeps the proxy from starting. -/
theorem Config.ofVars_drops_none [UrlRules] [Url.ForeignNames] (given : List (String × String)) :
    (∀ c, ofVars given = .ok c →
      MadeFrom given "ECDSA_PUB_KEY" (fun e key => parseEcdsaKey e.2 = .ok key)
        c.trustedKeys.ecdsa ∧
      MadeFrom given "ED25519_PUB_KEY" (fun e key => parseEd25519Key e.2 = .ok key)
        c.trustedKeys.ed25519 ∧
      MadeFrom given "URL_" (fun e entry => entry = e) c.urlVars ∧
      MadeFrom given "HEADER_"
        (fun e entry => entry.1 = e.1 ∧ HeaderValue.ofString? e.2 = some entry.2) c.headerVars ∧
      (c.trustedKeys.isEmpty = true ↔ ∀ e ∈ given, ¬ IsKeyName e.1)) ∧
    ((∃ e ∈ given, IsKeyName e.1) → ∀ reach,
      (∃ e, start reach given = .error e) ∨
      ∃ c, start reach given = .ok c ∧ ofVars given = .ok c ∧ c.trustedKeys.isEmpty = false ∧
        (∀ clock r agent, agentOf c clock r = .ok agent ↔
          ∃ t, Bears c.trustedKeys clock r t ∧ t.message = agent) ∧
        ∀ clock r job, examine c clock r = .admitted job →
          ∃ t, Bears c.trustedKeys clock r t ∧ job.key.agent = t.message) ∧
    (∀ name value, Table.Last given name value → IsKeyName name →
      Text.isAllBlank value = true → ∃ e, ofVars given = .error e) := by
  refine ⟨?_, ?_, fun name value => ofVars_ne_of_blank⟩
  · intro c h
    have made := (madeOf_of_ofVars h).tables
    refine ⟨madeFrom_of_family made.ecdsa, madeFrom_of_family made.ed25519, ?_,
      madeFrom_of_family made.headers, isEmpty_iff_of_ofVars h⟩
    apply madeFrom_of_family (f := .url)
    rw [← made.urls]
    exact List.forall₂_same.mpr fun _ _ => rfl
  · rintro ⟨e, he, named⟩ reach
    cases hs : start reach given with
    | error e => exact .inl ⟨e, rfl⟩
    | ok c =>
      have h := ofVars_of_start hs
      -- one key is enough for the gate to ask for a token
      have keyed : c.trustedKeys.isEmpty = false := by
        rw [Bool.eq_false_iff, Ne, isEmpty_iff_of_ofVars h]
        exact fun unnamed => unnamed e he named
      refine .inr ⟨c, rfl, h, keyed, fun clock r agent => agentOf_eq_ok_iff keyed, ?_⟩
      intro clock r job admitted
      obtain ⟨agent, reaches, hj⟩ := examine_eq_admitted_iff.mp admitted
      obtain ⟨-, -, t, bears, rfl, -⟩ := (reaches_iff keyed).mp reaches
      exact ⟨t, bears, by rw [Job.key_of_ofRequest hj]⟩

/-- Variables with two keys, one of which was blank at first. -/
def household : List (String × String) :=
  [("ED25519_PUB_KEY_B", "iojj3XQJ8ZX9UtstPLpdcspnCb8dlBIb83SIAbQPb1w"), ("HEADER_A", "x"),
    ("ED25519_PUB_KEY_A", " "), ("URL_A", "http://a"),
    ("ED25519_PUB_KEY_A", " iojj3XQJ8ZX9UtstPLpdcspnCb8dlBIb83SIAbQPb1w")]

/-- The settings that they make. -/
def householder : Config where
  host := "0.0.0.0"
  port := 8080
  requestTimeout := 10000
  pollInterval := 100
  cacheTtl := 10000
  maxBodyBytes := 1048576
  redisUrl := none
  allowAgents := []
  trustedKeys := ⟨[], [porterKey, porterKey]⟩
  urlVars := [("URL_A", "http://a")]
  headerVars := [("HEADER_A", ⟨[120], rfl⟩)]

theorem Config.ofVars_drops_none_household :
    ofVars household = .ok householder ∧
    MadeFrom household "ED25519_PUB_KEY" (fun e key => parseEd25519Key e.2 = .ok key)
      [porterKey, porterKey] ∧
    (∃ e ∈ household, IsKeyName e.1) ∧ start (fun _ => none) household = .ok householder ∧
    householder.trustedKeys.isEmpty = false ∧
    (∀ clock r agent, agentOf householder clock r = .ok agent ↔
      ∃ t, Bears householder.trustedKeys clock r t ∧ t.message = agent) ∧
    Table.Last (household.take 3) "ED25519_PUB_KEY_A" " " ∧
    ∃ e, ofVars (household.take 3) = .error e := by
  have h : ofVars household = .ok householder := by decide +kernel
  have started : start (fun _ => none) household = .ok householder := by decide +kernel
  have named : IsKeyName "ED25519_PUB_KEY_A" := .inr (by decide)
  have member : ∃ e ∈ household, IsKeyName e.1 := ⟨("ED25519_PUB_KEY_A", " "), by decide, named⟩
  have last : Table.Last (household.take 3) "ED25519_PUB_KEY_A" " " :=
    ⟨household.take 2, [], rfl, nofun⟩
  obtain ⟨made, guarded, -⟩ := ofVars_drops_none household
  obtain ⟨-, -, blank⟩ := ofVars_drops_none (household.take 3)
  refine ⟨h, (made householder h).2.1, member, started, ?_⟩
  rcases guarded member fun _ => none with ⟨e, he⟩ | ⟨c, hc, -, keyed, agents, -⟩
  · rw [started] at he
    cases he
  · rw [started] at hc
    cases hc
    exact ⟨keyed, agents, last, blank _ _ last named (by decide)⟩

end OnceProxy
