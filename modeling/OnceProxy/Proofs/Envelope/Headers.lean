import OnceProxy.Proofs.Envelope.ReadBack
import OnceProxy.Proofs.Http.HeaderMap

/-!
# Replayed headers

The headers of an answer that are captured are those that its replay carries, in the order of the
answer, with the type and the length of the body after them. Nothing is lost on the way through the
bytes of the envelope, and nothing that was captured is illegal in the response.
-/

namespace OnceProxy

open Http

/-- Headers whose number and lengths are of 64 bits. -/
structure Http.HeaderMap.Fits (m : HeaderMap) : Prop where
  count : m.toList.length < wordLimit
  names : ∀ h ∈ m.toList, (Text.Utf8.ofString h.1.text).length < wordLimit
  values : ∀ h ∈ m.toList, h.2.bytes.length < wordLimit

namespace Envelope

/-- A header is captured for replay if its value is text, if it tells neither the type nor the length
of the body, and if its name is allowed. All names are allowed by a list without items. -/
def Captures (allowed : List String) (h : HeaderName × HeaderValue) : Prop :=
  h.2.toString?.isSome ∧ h.1 ≠ contentType ∧ h.1 ≠ contentLength ∧
    (allowed = [] ∨ h.1.text ∈ allowed)

instance (allowed : List String) : DecidablePred (Captures allowed) := fun _ =>
  inferInstanceAs (Decidable (_ ∧ _))

/-- The media type that headers tell: the last one that is text, and plain text if there is none. -/
def mediaType (m : HeaderMap) : HeaderValue :=
  ((m.values contentType).filter (·.toString?.isSome)).getLast?.getD defaultMimeValue

/-- A header as an envelope holds it, if its value is text. -/
def stored? (h : HeaderName × HeaderValue) : Option (String × String) :=
  h.2.toString?.map (h.1.text, ·)

variable {allowed : List String} {h : HeaderName × HeaderValue} {e : Envelope}

/-! ### Capturing -/

lemma keeps_iff {name : HeaderName} :
    keeps allowed name = true ↔
      name ≠ contentType ∧ name ≠ contentLength ∧ (allowed = [] ∨ name.text ∈ allowed) := by
  simp [keeps, and_assoc]

lemma headers_withHeader :
    (e.withHeader allowed h).headers =
      e.headers ++ ([h].filter (Captures allowed)).filterMap stored? := by
  cases ht : h.2.toString? with
  | none => simp [withHeader, Captures, ht]
  | some value =>
    simp only [withHeader, ht]
    split
    · rename_i hn
      simp [Captures, hn]
    split
    · rename_i hk
      have hc : Captures allowed h := ⟨by rw [ht]; rfl, keeps_iff.mp hk⟩
      simp [hc, stored?, ht]
    · rename_i hk
      have hc : ¬ Captures allowed h := fun hc => hk (keeps_iff.mpr hc.2)
      simp [hc]

lemma mime_withHeader :
    (e.withHeader allowed h).mime =
      (if h.1 = contentType then h.2.toString? else none).getD e.mime := by
  unfold withHeader
  split
  · rename_i ht
    simp [ht]
  · rename_i value ht
    split
    · simp [ht]
    · split <;> rfl

section

variable (allowed) (e) (l : List (HeaderName × HeaderValue))

lemma headers_foldl_withHeader :
    (l.foldl (withHeader allowed) e).headers =
      e.headers ++ (l.filter (Captures allowed)).filterMap stored? := by
  induction l generalizing e with
  | nil => simp
  | cons h l ih =>
    rw [List.foldl_cons, ih, headers_withHeader, List.append_assoc, ← List.filterMap_append,
      ← List.filter_append, List.singleton_append]

lemma mime_foldl_withHeader :
    (l.foldl (withHeader allowed) e).mime =
      (((l.filter (·.1 = contentType)).map (·.2)).filterMap (·.toString?)).getLast?.getD
        e.mime := by
  induction l using List.reverseRecOn with
  | nil => rfl
  | append_singleton l h ih =>
    -- the last media type wins, so the induction takes the headers from the end
    rw [List.foldl_append, List.foldl_cons, List.foldl_nil, mime_withHeader, ih]
    by_cases hn : h.1 = contentType
    · cases ht : h.2.toString? <;> simp [hn, ht]
    · simp [hn]

end

/-! ### Replaying -/

lemma contentType_ne_contentLength : contentType ≠ contentLength := by decide

lemma addHeader_of_stored {m : HeaderMap} {s : String × String} (hs : stored? h = some s) :
    addHeader m s = m.append h.1 h.2 := by
  obtain ⟨value, ht, rfl⟩ := Option.map_eq_some_iff.mp hs
  simp only [addHeader, HeaderName.ofString?_text, HeaderValue.ofString?_of_toString? ht]

/-- What was captured is added to the response as it was in the answer. -/
lemma foldl_addHeader {l : List (HeaderName × HeaderValue)}
    (hl : ∀ h ∈ l, h.2.toString?.isSome) (m : HeaderMap) :
    (l.filterMap stored?).foldl addHeader m = l.foldl (fun m (n, v) => m.append n v) m := by
  induction l generalizing m with
  | nil => rfl
  | cons h l ih =>
    obtain ⟨value, ht⟩ := Option.isSome_iff_exists.mp (hl h List.mem_cons_self)
    have hs : stored? h = some (h.1.text, value) := by rw [stored?, ht]; rfl
    rw [List.filterMap_cons_some hs, List.foldl_cons, addHeader_of_stored hs, List.foldl_cons]
    exact ih (fun h' hh => hl h' (List.mem_cons_of_mem h hh)) _

lemma mimeValue_eq (vs : List HeaderValue)
    (hm : e.mime = (vs.filterMap (·.toString?)).getLast?.getD defaultMime) :
    e.mimeValue = (vs.filter (·.toString?.isSome)).getLast?.getD defaultMimeValue := by
  rw [mimeValue, hm]
  clear hm
  induction vs using List.reverseRecOn with
  | nil => rfl
  | append_singleton vs v ih =>
    cases ht : v.toString? with
    | none => simpa [ht] using ih
    | some s => simp [ht, HeaderValue.ofString?_of_toString? ht]

/-- An envelope with the headers of an answer and a body. -/
def capture (status : UInt16) (headers : HeaderMap) (allowList : String) (body : List UInt8) :
    Envelope :=
  { (new status).withHeaders headers allowList with body := body }

section

variable {headers : HeaderMap} {body : List UInt8} (status : UInt16) (allowList : String)

lemma headers_capture :
    (capture status headers allowList body).headers =
      (headers.toList.filter (Captures (allowedNames allowList))).filterMap stored? :=
  headers_foldl_withHeader _ (new status) headers.toList

lemma mime_capture :
    (capture status headers allowList body).mime =
      ((headers.values contentType).filterMap (·.toString?)).getLast?.getD defaultMime := by
  rw [HeaderMap.values_eq]
  exact mime_foldl_withHeader _ (new status) headers.toList

/-- What is stored of a header comes from a header of the answer. -/
lemma exists_of_mem_capture {s : String × String}
    (hs : s ∈ (capture status headers allowList body).headers) :
    ∃ h ∈ headers.toList, stored? h = some s := by
  rw [headers_capture] at hs
  obtain ⟨h, hm, hs⟩ := List.mem_filterMap.mp hs
  exact ⟨h, (List.mem_filter.mp hm).1, hs⟩

lemma fits_capture (fits : headers.Fits) (hb : body.length < wordLimit) :
    (capture status headers allowList body).Fits where
  headers := by
    rw [headers_capture]
    exact Nat.lt_of_le_of_lt ((List.length_filterMap_le _ _).trans (List.length_filter_le _ _))
      fits.count
  texts := by
    intro s hs
    obtain ⟨h, hm, hs⟩ := exists_of_mem_capture status allowList hs
    obtain ⟨value, ht, rfl⟩ := Option.map_eq_some_iff.mp hs
    refine ⟨fits.names h hm, ?_⟩
    rw [HeaderValue.bytes_of_toString? ht]
    exact fits.values h hm
  body := hb
  mime := by
    rw [mime_capture]
    cases hl : ((headers.values contentType).filterMap (·.toString?)).getLast? with
    | none => decide
    | some s =>
      obtain ⟨v, hv, ht⟩ := List.mem_filterMap.mp (List.mem_of_getLast? hl)
      rw [HeaderMap.values_eq] at hv
      obtain ⟨h, hm, rfl⟩ := List.mem_map.mp hv
      rw [Option.getD_some, HeaderValue.bytes_of_toString? ht]
      exact fits.values h (List.mem_filter.mp hm).1

end

/-- The replay of an answer carries just the captured headers in the order of the answer, then the
media type, then the length of the body. Every header that was stored is legal in it. -/
theorem replays_captured (status : UInt16) (headers : HeaderMap) (allowList : String)
    (body : List UInt8) (fits : headers.Fits) (hb : body.length < wordLimit) :
    ∃ e, decode (capture status headers allowList body).encode = .ok e ∧
      e.render.headers.toList =
        headers.toList.filter (Captures (allowedNames allowList)) ++
          [(contentType, mediaType headers), (contentLength, numberValue body.length)] ∧
      ∀ s ∈ e.headers, (HeaderName.ofString? s.1).isSome ∧ (HeaderValue.ofString? s.2).isSome := by
  refine ⟨_, decode_encode (fits_capture status allowList fits hb), ?_, ?_⟩
  · have captured : ∀ h ∈ headers.toList.filter (Captures (allowedNames allowList)),
        Captures (allowedNames allowList) h :=
      fun h hh => of_decide_eq_true (List.mem_filter.mp hh).2
    -- a captured pair is a legal header, so adding it never skips
    have stored : ((capture status headers allowList body).headers.foldl addHeader .empty).toList =
        headers.toList.filter (Captures (allowedNames allowList)) := by
      rw [headers_capture, foldl_addHeader fun h hh => (captured h hh).1]
      exact HeaderMap.toList_ofList_filter headers _
    have type : (capture status headers allowList body).mimeValue = mediaType headers :=
      mimeValue_eq _ (mime_capture status allowList)
    -- none of the kept names is one of the two that the answer writes itself
    have typed : (((capture status headers allowList body).headers.foldl addHeader .empty).insert
        contentType (capture status headers allowList body).mimeValue).toList =
        headers.toList.filter (Captures (allowedNames allowList)) ++
          [(contentType, mediaType headers)] := by
      rw [HeaderMap.toList_insert_of_ne, stored, type]
      rw [stored]
      exact fun p hp => (captured p hp).2.1
    rw [render, HeaderMap.toList_insert_of_ne, typed, List.append_assoc]
    · rfl
    · rw [typed]
      intro p hp
      rcases List.mem_append.mp hp with hp | hp
      · exact (captured p hp).2.2.1
      · rw [List.mem_singleton.mp hp]
        exact contentType_ne_contentLength
  · intro s hs
    obtain ⟨h, -, hs⟩ := exists_of_mem_capture status allowList hs
    obtain ⟨value, ht, rfl⟩ := Option.map_eq_some_iff.mp hs
    rw [HeaderName.ofString?_text, HeaderValue.ofString?_of_toString? ht]
    exact ⟨rfl, rfl⟩

/-- Headers with repeated names, one of them with a value that is no text. -/
def crumbs : HeaderMap :=
  .ofList
    [(⟨"set-cookie", by decide⟩, ⟨[97, 61, 49], by decide⟩), (contentType, ⟨[97, 47, 98], by decide⟩),
      (⟨"server", by decide⟩, ⟨[120], by decide⟩), (⟨"set-cookie", by decide⟩, ⟨[233], by decide⟩),
      (contentLength, ⟨[53], by decide⟩), (⟨"vary", by decide⟩, ⟨[42], by decide⟩),
      (⟨"set-cookie", by decide⟩, ⟨[98, 9, 50], by decide⟩), (contentType, ⟨[255], by decide⟩)]

theorem replays_captured_crumbs :
    crumbs.Fits ∧ ([111, 107] : List UInt8).length < wordLimit ∧
    ∃ e, decode (capture 201 crumbs " Vary,, SET-cookie" [111, 107]).encode = .ok e ∧
      e.render.headers.toList =
        [(⟨"set-cookie", by decide⟩, ⟨[97, 61, 49], by decide⟩),
          (⟨"set-cookie", by decide⟩, ⟨[98, 9, 50], by decide⟩),
          (⟨"vary", by decide⟩, ⟨[42], by decide⟩), (contentType, ⟨[97, 47, 98], by decide⟩),
          (contentLength, ⟨[50], by decide⟩)] ∧
      ∀ s ∈ e.headers, (HeaderName.ofString? s.1).isSome ∧ (HeaderValue.ofString? s.2).isSome := by
  have fits : crumbs.Fits := ⟨by decide, by decide, by decide⟩
  have short : ([111, 107] : List UInt8).length < wordLimit := by decide
  have h := replays_captured 201 crumbs " Vary,, SET-cookie" [111, 107] fits short
  have kept : crumbs.toList.filter (Captures (allowedNames " Vary,, SET-cookie")) ++
      [(contentType, mediaType crumbs), (contentLength, numberValue 2)] =
      [(⟨"set-cookie", by decide⟩, ⟨[97, 61, 49], by decide⟩),
        (⟨"set-cookie", by decide⟩, ⟨[98, 9, 50], by decide⟩),
        (⟨"vary", by decide⟩, ⟨[42], by decide⟩), (contentType, ⟨[97, 47, 98], by decide⟩),
        (contentLength, ⟨[50], by decide⟩)] := by
    decide +kernel
  exact ⟨fits, short, kept ▸ h⟩

end Envelope

end OnceProxy
