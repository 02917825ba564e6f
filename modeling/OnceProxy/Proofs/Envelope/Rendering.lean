import OnceProxy.Proofs.Envelope.Headers
import OnceProxy.Proofs.Http.ContentLength
import OnceProxy.Proxy.Job

/-!
# Responses from any envelope

An envelope need not come from an answer of an origin: its headers may be illegal, may be repeated,
and may themselves tell the type or the length of a body. Its response is sound all the same. What it
says of an answer that was chunked is another matter: the coding of the transfer is kept like any
other header, although the length of the body is told as well.
-/

namespace OnceProxy

open Http

namespace Envelope

/-! ### Stored headers -/

/-- A stored header stands under a name if the name is written there, in whatever case its letters
are, with a legal value. -/
def StandsUnder (name : HeaderName) (s : String × String) : Prop :=
  String.ofList (s.1.toList.map Char.toLower) = name.text ∧
    (Text.Utf8.ofString s.2).all isValueByte = true

instance (name : HeaderName) : DecidablePred (StandsUnder name) := fun _ =>
  inferInstanceAs (Decidable (_ ∧ _))

/-- The bytes of the values that are stored under a name. -/
def storedValues (e : Envelope) (name : HeaderName) : List (List UInt8) :=
  (e.headers.filter (StandsUnder name)).map fun s => Text.Utf8.ofString s.2

/-- The bytes of the media type, or of the default one if it is no legal value. -/
def mediaBytes (e : Envelope) : List UInt8 :=
  if (Text.Utf8.ofString e.mime).all isValueByte then Text.Utf8.ofString e.mime
  else Text.Utf8.ofString defaultMime

variable {e : Envelope} {m : HeaderMap} {name : HeaderName}

lemma standsUnder_iff {s : String × String} :
    StandsUnder name s ↔
      HeaderName.ofString? s.1 = some name ∧ ∃ value, HeaderValue.ofString? s.2 = some value := by
  simp only [HeaderName.ofString?_eq_some_iff, HeaderValue.ofString?_eq_some_iff]
  constructor
  · rintro ⟨hn, legal⟩
    exact ⟨hn, ⟨_, legal⟩, rfl⟩
  · rintro ⟨hn, value, hv⟩
    exact ⟨hn, hv ▸ value.legal⟩

/-- A stored header is added to the values of the name that it stands under. -/
lemma values_addHeader (m : HeaderMap) (s : String × String) (name : HeaderName) :
    ((addHeader m s).values name).map (·.bytes) = (m.values name).map (·.bytes) ++
      if StandsUnder name s then [Text.Utf8.ofString s.2] else [] := by
  unfold addHeader
  split
  · rename_i n value hn hv
    rw [HeaderMap.values_append, List.map_append]
    by_cases h : n = name
    · have stands : StandsUnder name s := standsUnder_iff.mpr ⟨h ▸ hn, value, hv⟩
      simp [h, stands, HeaderValue.ofString?_eq_some_iff.mp hv]
    · have stands : ¬ StandsUnder name s := fun hs =>
        h (Option.some.inj (hn.symm.trans (standsUnder_iff.mp hs).1))
      simp [h, stands]
  · rename_i illegal
    have stands : ¬ StandsUnder name s := by
      intro hs
      obtain ⟨hn, value, hv⟩ := standsUnder_iff.mp hs
      exact illegal name value hn hv
    simp [stands]

lemma values_foldl_addHeader (m : HeaderMap) (l : List (String × String)) (name : HeaderName) :
    ((l.foldl addHeader m).values name).map (·.bytes) = (m.values name).map (·.bytes) ++
      (l.filter (StandsUnder name)).map fun s => Text.Utf8.ofString s.2 := by
  induction l generalizing m with
  | nil => simp
  | cons s l ih =>
    rw [List.foldl_cons, ih, values_addHeader, List.append_assoc]
    by_cases hs : StandsUnder name s <;> simp [hs]

lemma bytes_mimeValue (e : Envelope) : e.mimeValue.bytes = e.mediaBytes := by
  rw [mimeValue, mediaBytes, HeaderValue.ofString?, HeaderValue.ofBytes?]
  split <;> rfl

/-! ### Responses -/

/-- The length that the response of an envelope tells is that of its body. -/
lemma values_render_contentLength (e : Envelope) :
    e.render.headers.values contentLength = [numberValue e.body.length] := by
  rw [render, HeaderMap.values_insert, if_pos rfl]

lemma values_render_contentType (e : Envelope) :
    e.render.headers.values contentType = [e.mimeValue] := by
  rw [render, HeaderMap.values_insert, if_neg contentType_ne_contentLength.symm,
    HeaderMap.values_insert, if_pos rfl]

/-- All other headers of the response are those that are stored. -/
lemma values_render (e : Envelope) (type : name ≠ contentType) (length : name ≠ contentLength) :
    (e.render.headers.values name).map (·.bytes) = e.storedValues name := by
  rw [render, HeaderMap.values_insert, if_neg length.symm, HeaderMap.values_insert,
    if_neg type.symm, values_foldl_addHeader, HeaderMap.values_empty]
  rfl

/-- A response replays an envelope. Its status is 200, and its body is the one that is stored. It
tells the length and the type of the body just once each, whatever the stored headers say of them.
Under any other name stand the legal values that are stored under it, in the order in which they are
stored. -/
structure Replays (e : Envelope) (r : Response) : Prop where
  status : r.status = 200
  body : r.body = e.body
  length : ∃ v, r.headers.values contentLength = [v] ∧ v.States e.body.length
  type : (r.headers.values contentType).map (·.bytes) = [e.mediaBytes]
  others : ∀ name, name ≠ contentType → name ≠ contentLength →
    (r.headers.values name).map (·.bytes) = e.storedValues name

/-- The response of an envelope replays it, whatever the envelope holds. -/
lemma replays_render (e : Envelope) : e.Replays e.render where
  status := rfl
  body := rfl
  length := ⟨_, values_render_contentLength e, states_numberValue _⟩
  type := by rw [values_render_contentType, List.map_singleton, bytes_mimeValue]
  others := fun _ type length => values_render e type length

/-- An envelope with headers that no answer leaves in one. -/
def forged : Envelope :=
  ⟨404, [("X-Trace", "1"), ("Content-Length", "999"), ("bad header", "2"), ("CONTENT-TYPE", "a/b"),
    ("x-trace", "\n"), ("x-tRACE", "3")], [110, 111], "a\nb"⟩

example :
    forged.render.headers.toList.map (fun h => (h.1.text, h.2.bytes)) =
      [("x-trace", [49]), ("x-trace", [51]), ("content-length", [50]),
        ("content-type", Text.Utf8.ofString "text/plain")] := by
  decide +kernel

/-! ### Framing -/

variable {job : Job} {r : OriginResponse}

/-- What was captured stands under the name that it had. -/
lemma standsUnder_of_stored {h : HeaderName × HeaderValue} {s : String × String}
    (hs : stored? h = some s) : StandsUnder name s ↔ h.1 = name := by
  obtain ⟨text, ht, rfl⟩ := Option.map_eq_some_iff.mp hs
  rw [standsUnder_iff, HeaderName.ofString?_text, HeaderValue.ofString?_of_toString? ht]
  simp

/-- The body of an answer has no part in the headers that are kept. -/
lemma headers_of_envelope (h : job.envelope r = .ok e) :
    e.headers =
      (r.headers.toList.filter (Captures (allowedNames job.allowList))).filterMap stored? := by
  rw [Job.envelope] at h
  split at h
  · obtain ⟨kept, -, rfl⟩ := ok_of_map h
    exact headers_foldl_withHeader _ (new r.status) r.headers.toList
  · cases h

/-- Nothing stands under a name just if nothing is captured of this name. -/
lemma storedValues_eq_nil_iff (h : job.envelope r = .ok e) :
    e.storedValues name = [] ↔
      ∀ v ∈ r.headers.values name, ¬ Captures (allowedNames job.allowList) (name, v) := by
  rw [storedValues, List.map_eq_nil_iff, List.filter_eq_nil_iff, headers_of_envelope h]
  constructor
  · intro none v hv captured
    obtain ⟨text, ht⟩ := Option.isSome_iff_exists.mp captured.1
    have stored : stored? (name, v) = some (name.text, text) := by rw [stored?, ht]; rfl
    have kept : (name, v) ∈ r.headers.toList.filter (Captures (allowedNames job.allowList)) :=
      List.mem_filter.mpr ⟨HeaderMap.mem_values_iff.mp hv, decide_eq_true captured⟩
    apply none _ (List.mem_filterMap.mpr ⟨_, kept, stored⟩)
    exact decide_eq_true ((standsUnder_of_stored stored).mpr rfl)
  · intro none s hs stands
    obtain ⟨⟨n, v⟩, kept, stored⟩ := List.mem_filterMap.mp hs
    obtain ⟨hm, captured⟩ := List.mem_filter.mp kept
    obtain rfl := (standsUnder_of_stored stored).mp (of_decide_eq_true stands)
    exact none v (HeaderMap.mem_values_iff.mpr hm) (of_decide_eq_true captured)

end Envelope

/-- The header with the coding in which a body is transferred. -/
def Http.transferEncoding : HeaderName := ⟨"transfer-encoding", by decide⟩

open Envelope

/-- The response of an answer that is kept always tells the length of its body. It tells no coding of
the transfer as well just if the answer told none that is text, or if the allow-list has items and
this header is none of them. -/
theorem Job.framing_of_kept {job : Job} {r : OriginResponse} {e : Envelope}
    (h : job.envelope r = .ok e) :
    (∃ v, e.render.headers.values contentLength = [v] ∧ v.States e.body.length) ∧
    (e.render.headers.values transferEncoding = [] ↔
      (∀ v ∈ r.headers.values transferEncoding, v.toString? = none) ∨
        (allowedNames job.allowList ≠ [] ∧
          transferEncoding.text ∉ allowedNames job.allowList)) := by
  have type : transferEncoding ≠ contentType := by decide
  have length : transferEncoding ≠ contentLength := by decide
  refine ⟨⟨_, values_render_contentLength e, states_numberValue _⟩, ?_⟩
  rw [← List.map_eq_nil_iff, values_render e type length, storedValues_eq_nil_iff h]
  constructor
  · intro none
    -- a coding that is listed is kept unless its value is no text
    by_cases listed : allowedNames job.allowList = [] ∨
        transferEncoding.text ∈ allowedNames job.allowList
    · left
      intro v hv
      by_contra text
      exact none v hv ⟨Option.isSome_iff_ne_none.mpr text, type, length, listed⟩
    · exact .inr (not_or.mp listed)
  · rintro (untold | ⟨items, unlisted⟩) v hv ⟨text, -, -, listed⟩
    · rw [untold v hv] at text
      cases text
    · exact listed.elim items unlisted

/-- An answer that came in chunks. -/
def chunked : OriginResponse where
  status := 201
  headers := .ofList
    [(transferEncoding, ⟨Text.Utf8.ofString "chunked", by decide⟩),
      (contentType, ⟨Text.Utf8.ofString "application/json; q=1", by decide⟩),
      (⟨"etag", by decide⟩, ⟨[55], by decide⟩)]
  body := Text.Utf8.ofString "\x7b\"id\":7,\"no\":8\x7d"

/-- A request that keeps one member of the body, and the headers of an allow-list. -/
def choosy (allowList : String) : Job :=
  ⟨⟨"", "", ""⟩, ⟨"", "", .empty, []⟩, allowList, "id", false⟩

theorem Job.framing_of_kept_etag :
    let e : Envelope := ⟨201, [("etag", "7")], Text.Utf8.ofString "\x7b\"id\":7\x7d",
      "application/json; q=1"⟩
    (choosy "ETag, Content-Type").envelope chunked = .ok e ∧
    (∃ v, e.render.headers.values contentLength = [v] ∧ v.States 8) ∧
    e.render.headers.values transferEncoding = [] := by
  intro e
  have kept : (choosy "ETag, Content-Type").envelope chunked = .ok e := by decide +kernel
  obtain ⟨length, uncoded⟩ := Job.framing_of_kept kept
  exact ⟨kept, length, uncoded.mpr (.inr (by decide +kernel))⟩

/-- Without an allow-list the response of an answer that came in chunks has two framings: it tells
the length of its body and says that it comes in chunks, too. -/
theorem Job.exists_two_framings :
    ∃ e, (choosy "").envelope chunked = .ok e ∧
      e.render.headers.values contentLength = [numberValue e.body.length] ∧
      e.render.headers.values transferEncoding =
        [⟨Text.Utf8.ofString "chunked", by decide⟩] := by
  refine ⟨⟨201, [("transfer-encoding", "chunked"), ("etag", "7")],
    Text.Utf8.ofString "\x7b\"id\":7\x7d", "application/json; q=1"⟩, ?_, ?_, ?_⟩ <;> decide +kernel

end OnceProxy
