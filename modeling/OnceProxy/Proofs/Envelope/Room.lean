import Mathlib.Data.List.Dedup
import OnceProxy.Proofs.Envelope.Rendering

/-!
# Room for the headers of a response

An envelope that does not come from an answer can have any number of headers, and a response has
room for many names, but not for any number of them. If there is room, then the response replays the
envelope.
-/

namespace OnceProxy.Envelope

open Http

/-- The name under which a stored header stands, if both the name and the value are legal. -/
def legalName? (s : String × String) : Option HeaderName :=
  (HeaderValue.ofString? s.2).bind fun _ => HeaderName.ofString? s.1

/-- The names of a response that are there before its length is told, each of them once. -/
def namesOf (e : Envelope) : List HeaderName :=
  (contentType :: e.headers.filterMap legalName?).dedup

section

variable {limit : HeaderLimit} {m a : HeaderMap} {s : String × String} {name : HeaderName}
  {l : List (String × String)} {names : List HeaderName} {bound : Nat}

/-! ### Names that are added -/

lemma mem_names_addHeader :
    name ∈ (addHeader m s).names ↔ name ∈ m.names ∨ legalName? s = some name := by
  unfold addHeader
  split
  · rename_i n value hn hv
    rw [HeaderMap.mem_names_append, legalName?, hv, Option.bind_some, hn, Option.some.injEq,
      eq_comm]
  · rename_i illegal
    have none : legalName? s ≠ some name := by
      intro h
      obtain ⟨value, hv, hn⟩ := Option.bind_eq_some_iff.mp h
      exact illegal name value hn hv
    rw [or_iff_left none]

lemma mem_names_foldl_addHeader :
    name ∈ (l.foldl addHeader m).names ↔ name ∈ m.names ∨ name ∈ l.filterMap legalName? := by
  induction l generalizing m with
  | nil => simp
  | cons s l ih =>
    rw [List.foldl_cons, ih, mem_names_addHeader, or_assoc, List.mem_filterMap, List.mem_filterMap,
      List.exists_mem_cons_iff]

/-! ### Headers that find room -/

lemma eq_of_addHeader? (h : addHeader? limit m s = some a) : a = addHeader m s := by
  unfold addHeader? at h
  unfold addHeader
  split at h
  · exact HeaderMap.eq_of_ifRoom h
  · exact (Option.some.inj h).symm

/-- Where a few names are all that there will be, a header finds room. -/
lemma addHeader?_of_few (admits : limit.Admits bound) (few : names.length < bound)
    (among : m.names ⊆ names) : addHeader? limit m s = some (addHeader m s) := by
  unfold addHeader? addHeader
  split
  · exact HeaderMap.ifRoom_of_few admits few among
  · rfl

lemma eq_of_foldlM_addHeader? (h : l.foldlM (addHeader? limit) m = some a) :
    a = l.foldl addHeader m := by
  induction l generalizing m with
  | nil => exact (Option.some.inj h).symm
  | cons s l ih =>
    rw [List.foldlM_cons] at h
    obtain ⟨next, hs, h⟩ := Option.bind_eq_some_iff.mp h
    rw [List.foldl_cons, ← eq_of_addHeader? hs]
    exact ih h

lemma foldlM_addHeader?_of_few (admits : limit.Admits bound) (few : names.length < bound)
    (among : m.names ⊆ names) (legal : l.filterMap legalName? ⊆ names) :
    l.foldlM (addHeader? limit) m = some (l.foldl addHeader m) := by
  induction l generalizing m with
  | nil => rfl
  | cons s l ih =>
    rw [List.foldlM_cons, addHeader?_of_few admits few among, List.foldl_cons]
    apply ih
    · intro n hn
      rcases mem_names_addHeader.mp hn with hm | hs
      · exact among hm
      · exact legal (List.mem_filterMap.mpr ⟨s, List.mem_cons_self, hs⟩)
    · intro n hn
      obtain ⟨t, ht, hl⟩ := List.mem_filterMap.mp hn
      exact legal (List.mem_filterMap.mpr ⟨t, List.mem_cons_of_mem s ht, hl⟩)

end

variable {limit : HeaderLimit} {e : Envelope} {r : Response}

/-- The names are those of the stored headers, and that of the media type. -/
lemma mem_names_insert_foldl {name : HeaderName} :
    name ∈ ((e.headers.foldl addHeader .empty).insert contentType e.mimeValue).names ↔
      name ∈ e.namesOf := by
  have empty : name ∉ HeaderMap.empty.names := List.not_mem_nil
  rw [HeaderMap.mem_names_insert, mem_names_foldl_addHeader, or_iff_right empty, namesOf,
    List.mem_dedup, List.mem_cons, or_comm]

/-! ### Responses that find room -/

/-- The length of a body is told last, when all other names are there. -/
lemma exists_ifRoom_of_render? (h : e.render? limit = some r) :
    ∃ headers, ((e.headers.foldl addHeader .empty).insert contentType e.mimeValue).ifRoom limit
        (·.insert contentLength (numberValue e.body.length)) = some headers ∧
      r = { status := 200, headers, body := e.body } := by
  obtain ⟨stored, hs, h⟩ := Option.bind_eq_some_iff.mp h
  obtain ⟨typed, ht, h⟩ := Option.bind_eq_some_iff.mp h
  obtain ⟨headers, hh, h⟩ := Option.bind_eq_some_iff.mp h
  cases h
  rw [HeaderMap.eq_of_ifRoom ht, eq_of_foldlM_addHeader? hs] at hh
  exact ⟨headers, hh, rfl⟩

lemma eq_of_render? (h : e.render? limit = some r) : r = e.render := by
  obtain ⟨headers, hh, rfl⟩ := exists_ifRoom_of_render? h
  rw [render, ← HeaderMap.eq_of_ifRoom hh]

lemma render?_of_few {bound : Nat} (admits : limit.Admits bound) (few : e.namesOf.length < bound) :
    e.render? limit = some e.render := by
  -- no map on the way has a name that the last one has not
  have typed : ((e.headers.foldl addHeader .empty).insert contentType e.mimeValue).names ⊆
      e.namesOf := fun _ => mem_names_insert_foldl.mp
  have stored : (e.headers.foldl addHeader .empty).names ⊆ e.namesOf := fun _ hn =>
    typed (HeaderMap.mem_names_insert.mpr (.inl hn))
  have legal : e.headers.filterMap legalName? ⊆ e.namesOf := fun _ hn =>
    stored (mem_names_foldl_addHeader.mpr (.inr hn))
  rw [render?, foldlM_addHeader?_of_few admits few (List.nil_subset _) legal]
  simp only [Option.bind_eq_bind, Option.bind_some, HeaderMap.ifRoom_of_few admits few stored,
    HeaderMap.ifRoom_of_few admits few typed]
  rfl

lemma length_lt_of_render? (h : e.render? limit = some r) : e.namesOf.length < 24576 := by
  obtain ⟨headers, hh, -⟩ := exists_ifRoom_of_render? h
  apply HeaderMap.length_lt_of_ifRoom hh (List.nodup_dedup _)
  exact fun _ => mem_names_insert_foldl.mpr

/-- The response of an envelope, if there is one, replays the envelope, whatever this holds. There
is one unless the names of the legal headers and that of the media type are so many that they can
fill a table, which fewer than 6554 names never do. There is none if they are 24576 or more, however
they fall on the places of a table. -/
theorem render?_replays (limit : HeaderLimit) (e : Envelope) :
    (∀ r, e.render? limit = some r → e.Replays r) ∧
    (∀ bound, limit.Admits bound → e.namesOf.length < bound → ∃ r, e.render? limit = some r) ∧
    limit.Admits 6554 ∧
    (24576 ≤ e.namesOf.length → e.render? limit = none) := by
  refine ⟨?_, ?_, limit.roomy, ?_⟩
  · intro r h
    rw [eq_of_render? h]
    exact replays_render e
  · intro bound admits few
    exact ⟨_, render?_of_few admits few⟩
  · intro many
    by_contra h
    obtain ⟨r, h⟩ := Option.ne_none_iff_exists'.mp h
    exact absurd (length_lt_of_render? h) (Nat.not_lt_of_le many)

theorem render?_replays_forged :
    forged.namesOf.length = 3 ∧ ∃ r, forged.render? .even = some r ∧ forged.Replays r := by
  obtain ⟨replays, room, -⟩ := render?_replays .even forged
  have names : forged.namesOf.length = 3 := by decide +kernel
  obtain ⟨r, h⟩ := room 24576 HeaderLimit.admits_even (by rw [names]; decide)
  exact ⟨names, r, h, replays r h⟩

/-! ### No room -/

/-- An envelope whose headers have more names than there is room for. -/
def crowd : Envelope :=
  ⟨200, (List.range 24576).map fun n => (n.repr, ""), [], "text/plain"⟩

/-- A number of a few digits is a name. -/
lemma isName_repr {n : Nat} (h : n < 10 ^ 5) : isName n.repr = true := by
  have digits : ∀ c ∈ n.repr.toList, isNameChar c = true := by
    intro c hc
    rw [Nat.toList_repr] at hc
    have digit : c.isDigit = true := Nat.isDigit_of_mem_toDigits (by decide) (by decide) hc
    rw [isNameChar, digit, Bool.true_or, Bool.true_or]
  have length : n.repr.length ≤ maxNameLength :=
    Nat.le_trans ((Nat.length_repr_le_iff (by decide)).mpr h) (by decide)
  rw [isName, String.isEmpty_eq_false_iff.mpr Nat.repr_ne_empty, decide_eq_true length,
    List.all_eq_true.mpr digits]
  rfl

lemma legalName?_repr {n : Nat} (h : n < 10 ^ 5) :
    legalName? (n.repr, "") = some ⟨n.repr, isName_repr h⟩ := by
  have value : HeaderValue.ofString? "" = some ⟨[], rfl⟩ := rfl
  simp only [legalName?, value, Option.bind_some]
  exact HeaderName.ofString?_text ⟨n.repr, isName_repr h⟩

/-- The names of the crowd are too many, as no two numbers have the same digits. -/
lemma length_namesOf_crowd : 24576 ≤ crowd.namesOf.length := by
  have texts : (crowd.headers.filterMap legalName?).map (·.text) =
      (List.range 24576).map Nat.repr := by
    rw [List.map_filterMap, crowd, List.filterMap_map, ← List.filterMap_eq_map]
    apply List.filterMap_congr
    intro n hn
    have few : n < 10 ^ 5 := Nat.lt_trans (List.mem_range.mp hn) (by decide)
    rw [Function.comp_apply, legalName?_repr few]
    rfl
  have distinct : (crowd.headers.filterMap legalName?).Nodup := by
    apply List.Nodup.of_map (·.text)
    rw [texts]
    apply List.nodup_range.map
    intro m n h
    -- the digits of a number, read as a number again, give it back
    have digits : Nat.toDigits 10 m = Nat.toDigits 10 n := by
      rw [← Nat.toList_repr, ← Nat.toList_repr, h]
    simpa using congrArg (Nat.ofDigitChars 10 · 0) digits
  have among : crowd.headers.filterMap legalName? ⊆ crowd.namesOf := fun _ hn =>
    List.mem_dedup.mpr (List.mem_cons_of_mem _ hn)
  calc
    24576 = ((crowd.headers.filterMap legalName?).map (·.text)).length := by
      rw [texts, List.length_map, List.length_range]
    _ = (crowd.headers.filterMap legalName?).length := List.length_map _
    _ ≤ crowd.namesOf.length := (List.subperm_of_subset distinct among).length_le

/-- For the crowd there is no response, however the names fall on the places of a table. -/
theorem not_exists_render?_crowd :
    crowd.headers.length = 24576 ∧ ¬ ∃ limit r, crowd.render? limit = some r := by
  constructor
  · rw [crowd, List.length_map, List.length_range]
  · rintro ⟨limit, r, h⟩
    exact absurd (length_lt_of_render? h) (Nat.not_lt_of_le length_namesOf_crowd)

end OnceProxy.Envelope
