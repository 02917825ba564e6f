import OnceProxy.Auth.Token
import OnceProxy.Proofs.Text.Base64Url
import OnceProxy.Proofs.Text.Trimming
import OnceProxy.Proofs.Text.Utf8

/-!
# Reading back authorization values

The bytes that an authorization value was made of are read back from it, and from no other value
than those that have more blanks after the scheme or at the end.
-/

namespace OnceProxy

namespace Base64Url

/-- The characters of a text of symbols. -/
lemma toList_encodeString (s : List UInt8) :
    (encodeString s).toList = (sextets s).map fun n => Char.ofNat (symbol n).toNat := by
  rw [encodeString, String.toList_ofList, encode, List.map_map]
  rfl

/-- Symbols are no blanks. -/
lemma isBlank_symbol {n : Nat} (h : n < 64) :
    Text.isBlank (Char.ofNat (symbol n).toNat) = false := by
  revert n
  decide +kernel

/-- Symbols are characters of one byte. -/
lemma encodeChar_symbol {n : Nat} (h : n < 64) :
    Text.Utf8.encodeChar (Char.ofNat (symbol n).toNat) = [symbol n] := by
  revert n
  decide +kernel

lemma trimChars_encodeString (s : List UInt8) :
    Text.trimChars (encodeString s).toList = (encodeString s).toList := by
  apply Text.trimChars_eq_self
  intro c hc
  rw [toList_encodeString] at hc
  obtain ⟨n, hn, rfl⟩ := List.mem_map.mp hc
  exact isBlank_symbol (lt_of_mem_sextets hn)

/-- The text of a byte string as a string has the same bytes. -/
lemma ofString_encodeString (s : List UInt8) :
    Text.Utf8.ofString (encodeString s) = encode s := by
  rw [Text.Utf8.ofString, toList_encodeString, Text.Utf8.encode, List.flatMap_map, encode,
    ← List.flatMap_singleton' ((sextets s).map symbol), List.flatMap_map]
  apply List.flatMap_congr
  intro n hn
  exact encodeChar_symbol (lt_of_mem_sextets hn)

/-! ### Texts of byte strings -/

/-- The symbols in the order of their numbers. -/
def alphabet : List Char :=
  ['A', 'B', 'C', 'D', 'E', 'F', 'G', 'H', 'I', 'J', 'K', 'L', 'M',
    'N', 'O', 'P', 'Q', 'R', 'S', 'T', 'U', 'V', 'W', 'X', 'Y', 'Z',
    'a', 'b', 'c', 'd', 'e', 'f', 'g', 'h', 'i', 'j', 'k', 'l', 'm',
    'n', 'o', 'p', 'q', 'r', 's', 't', 'u', 'v', 'w', 'x', 'y', 'z',
    '0', '1', '2', '3', '4', '5', '6', '7', '8', '9', '-', '_']

/-- What can be wrong with a text: it has a padding sign or another character that is no symbol, it
is as long as no text of bytes is, or bits are set after the last byte. -/
inductive Faulty (cs : List Char) : Prop where
  | padded (h : '=' ∈ cs)
  | foreign (c : Char) (h : c ∈ cs) (hc : c ∉ alphabet)
  | cut (h : cs.length % 4 = 1)
  | loose (h : ¬ Tight (cs.map alphabet.idxOf))

/-- The symbol of a number has its place in the alphabet. -/
lemma idxOf_symbol {n : Nat} (h : n < 64) :
    Char.ofNat (symbol n).toNat ∈ alphabet ∧
      alphabet.idxOf (Char.ofNat (symbol n).toNat) = n := by
  revert n
  decide +kernel

lemma alphabet_eq : alphabet = (List.range 64).map fun n => Char.ofNat (symbol n).toNat := by
  decide +kernel

/-- The characters of the alphabet are the symbols of their places. -/
lemma symbol_idxOf {c : Char} (h : c ∈ alphabet) :
    alphabet.idxOf c < 64 ∧ Char.ofNat (symbol (alphabet.idxOf c)).toNat = c := by
  have listed := h
  rw [alphabet_eq] at listed
  obtain ⟨n, hn, rfl⟩ := List.mem_map.mp listed
  have hn := List.mem_range.mp hn
  rw [(idxOf_symbol hn).2]
  exact ⟨hn, rfl⟩

/-- The texts of byte strings are those without a fault. -/
lemma not_faulty_iff {cs : List Char} :
    ¬ Faulty cs ↔ ∃ data, cs = (encodeString data).toList := by
  constructor
  · intro sound
    -- three of the four faults bound the symbols one by one, the last what the tail leaves over
    have symbols : ∀ c ∈ cs, c ∈ alphabet := by
      intro c hc
      by_contra foreign
      exact sound (.foreign c hc foreign)
    generalize hns : cs.map alphabet.idxOf = ns
    have small : ∀ n ∈ ns, n < 64 := by
      intro n hn
      rw [← hns] at hn
      obtain ⟨c, hc, rfl⟩ := List.mem_map.mp hn
      exact (symbol_idxOf (symbols c hc)).1
    have length : ns.length % 4 ≠ 1 := by
      rw [← hns, List.length_map]
      exact fun cut => sound (.cut cut)
    have tight : Tight ns := by
      by_contra loose
      exact sound (.loose (hns ▸ loose))
    refine ⟨bytes ns, ?_⟩
    rw [toList_encodeString, sextets_bytes small length tight, ← hns, List.map_map]
    exact ((List.map_congr_left fun c hc => (symbol_idxOf (symbols c hc)).2).trans
      (List.map_id cs)).symm
  · rintro ⟨data, rfl⟩
    have symbols : ∀ c ∈ (encodeString data).toList, c ∈ alphabet := by
      intro c hc
      rw [toList_encodeString] at hc
      obtain ⟨n, hn, rfl⟩ := List.mem_map.mp hc
      exact (idxOf_symbol (lt_of_mem_sextets hn)).1
    rintro (padded | ⟨c, hc, foreign⟩ | cut | loose)
    · exact absurd (symbols _ padded) (by decide +kernel)
    · exact foreign (symbols c hc)
    · rw [toList_encodeString, List.length_map] at cut
      exact length_sextets_ne data cut
    · apply loose
      -- the symbols of an encoding stand for its sextets again
      have numbers : (encodeString data).toList.map alphabet.idxOf = sextets data := by
        rw [toList_encodeString, List.map_map]
        exact (List.map_congr_left fun n hn => (idxOf_symbol (lt_of_mem_sextets hn)).2).trans
          (List.map_id _)
      rw [numbers]
      exact tight_sextets data

end Base64Url

/-! ### Authorization values -/

namespace Token

variable {header other : String} {data : List UInt8}

/-- What an authorization value without the scheme is found to be. -/
lemma bytesOfBearer_of_no_scheme (h : ¬ bearerScheme <+: header.toList) :
    bytesOfBearer header = .error .missingBearer := by
  rw [bytesOfBearer, if_neg (by rwa [List.isPrefixOf_iff_prefix])]

/-- What is found after the scheme. -/
lemma bytesOfBearer_of_scheme {text : List Char} (h : header.toList = bearerScheme ++ text) :
    bytesOfBearer header = (Base64Url.decode (Text.Utf8.encode (Text.trimChars text))).mapError
      fun e => .decode s!"base64: {e.message}" := by
  have hscheme : bearerScheme.isPrefixOf header.toList = true := by
    rw [List.isPrefixOf_iff_prefix, h]
    exact List.prefix_append _ _
  simp only [bytesOfBearer]
  rw [if_pos hscheme, h, List.drop_left]

/-- The bytes in a text are those that it was made of. -/
lemma decode_encode_eq_ok_iff {cs : List Char} :
    Base64Url.decode (Text.Utf8.encode cs) = .ok data ↔
      cs = (Base64Url.encodeString data).toList := by
  rw [Base64Url.decode_eq_ok_iff, ← Base64Url.ofString_encodeString, Text.Utf8.ofString]
  constructor
  · intro h
    have := congrArg Text.Utf8.decode? h
    rwa [Text.Utf8.decode?_encode, Text.Utf8.decode?_encode, Option.some.injEq] at this
  · rintro rfl
    rfl

lemma bytesOfBearer_eq_ok_iff : bytesOfBearer header = .ok data ↔
    ∃ text, header.toList = bearerScheme ++ text ∧
      Text.trimChars text = (Base64Url.encodeString data).toList := by
  by_cases hp : bearerScheme <+: header.toList
  · obtain ⟨text, htext⟩ := hp
    simp only [bytesOfBearer_of_scheme htext.symm, mapError_eq_ok_iff, decode_encode_eq_ok_iff,
      ← htext, List.append_cancel_left_eq, exists_eq_left']
  · rw [bytesOfBearer_of_no_scheme hp]
    constructor
    · intro h
      cases h
    · rintro ⟨text, htext, -⟩
      exact absurd ⟨text, htext.symm⟩ hp

/-- The bytes that an authorization value was made of are read back from it. -/
lemma bytesOfBearer_bearerOfBytes (data : List UInt8) :
    bytesOfBearer (bearerOfBytes data) = .ok data := by
  have framed : (bearerOfBytes data).toList =
      bearerScheme ++ (Base64Url.encodeString data).toList := by
    rw [bearerOfBytes, String.toList_append, String.toList_ofList]
  exact bytesOfBearer_eq_ok_iff.mpr ⟨_, framed, Base64Url.trimChars_encodeString data⟩

/-- The text after the scheme is at fault, or the value can be read. -/
lemma bytesOfBearer_eq_decode_iff : (∃ cause, bytesOfBearer header = .error (.decode cause)) ↔
    ∃ text, header.toList = bearerScheme ++ text ∧ Base64Url.Faulty (Text.trimChars text) := by
  by_cases hp : bearerScheme <+: header.toList
  · obtain ⟨text, htext⟩ := hp
    have read := bytesOfBearer_of_scheme htext.symm
    have sound : ¬ Base64Url.Faulty (Text.trimChars text) ↔
        ∃ data, bytesOfBearer header = .ok data := by
      simp only [Base64Url.not_faulty_iff, read, mapError_eq_ok_iff, decode_encode_eq_ok_iff]
    simp only [← htext, List.append_cancel_left_eq, exists_eq_left']
    rw [← not_iff_not, sound, read]
    cases Base64Url.decode (Text.Utf8.encode (Text.trimChars text)) with
    | error e => simp [Except.mapError]
    | ok data => simp [Except.mapError]
  · rw [bytesOfBearer_of_no_scheme hp]
    constructor
    · rintro ⟨cause, h⟩
      cases h
    · rintro ⟨text, htext, -⟩
      exact absurd ⟨text, htext.symm⟩ hp

lemma bytesOfBearer_eq_missing_iff :
    bytesOfBearer header = .error .missingBearer ↔ ¬ bearerScheme <+: header.toList := by
  constructor
  · rintro h ⟨text, htext⟩
    rw [bytesOfBearer_of_scheme htext.symm] at h
    cases hd : Base64Url.decode (Text.Utf8.encode (Text.trimChars text)) with
    | error e =>
      rw [hd] at h
      cases h
    | ok data =>
      rw [hd] at h
      cases h
  · exact bytesOfBearer_of_no_scheme

end Token

/-- Authorization values are read exactly. The bytes in a value are found just if it is the scheme
and then a text that, when it is trimmed, is the unpadded base64url text of these bytes. So two
values with the same bytes differ only in the blanks around that text. A padding sign, a character
that is no symbol, a length that no text of bytes has, or bits that are set after the last byte are
each the reason why a value with the scheme cannot be decoded, and there are no other reasons. A
value without the scheme, and no other, is told to have none. -/
theorem Token.bytesOfBearer_exact (header : String) :
    (∀ data, bytesOfBearer header = .ok data ↔
      ∃ text, header.toList = bearerScheme ++ text ∧
        Text.trimChars text = (Base64Url.encodeString data).toList) ∧
    (∀ data other, bytesOfBearer header = .ok data → bytesOfBearer other = .ok data →
      ∃ text text', header.toList = bearerScheme ++ text ∧ other.toList = bearerScheme ++ text' ∧
        Text.Surrounds (Base64Url.encodeString data).toList text ∧
        Text.Surrounds (Base64Url.encodeString data).toList text') ∧
    ((∃ cause, bytesOfBearer header = .error (.decode cause)) ↔
      ∃ text, header.toList = bearerScheme ++ text ∧
        Base64Url.Faulty (Text.trimChars text)) ∧
    (bytesOfBearer header = .error .missingBearer ↔ ¬ bearerScheme <+: header.toList) := by
  refine ⟨fun data => bytesOfBearer_eq_ok_iff, ?_, bytesOfBearer_eq_decode_iff,
    bytesOfBearer_eq_missing_iff⟩
  intro data other h h'
  obtain ⟨text, htext, trimmed⟩ := bytesOfBearer_eq_ok_iff.mp h
  obtain ⟨text', htext', trimmed'⟩ := bytesOfBearer_eq_ok_iff.mp h'
  exact ⟨text, text', htext, htext', (Text.trimChars_eq_iff.mp trimmed).1,
    (Text.trimChars_eq_iff.mp trimmed').1⟩

/-- Two values with the same bytes, one of them among blanks of several kinds. -/
theorem Token.bytesOfBearer_exact_spacious :
    let header := "Bearer \t\u3000AQI\u2028 "
    bytesOfBearer header = .ok [1, 2] ∧ bytesOfBearer "Bearer AQI" = .ok [1, 2] ∧
    (∃ text text', header.toList = bearerScheme ++ text ∧
      "Bearer AQI".toList = bearerScheme ++ text' ∧
      Text.Surrounds (Base64Url.encodeString [1, 2]).toList text ∧
      Text.Surrounds (Base64Url.encodeString [1, 2]).toList text') := by
  intro header
  have spacious : bytesOfBearer header = .ok [1, 2] := by decide +kernel
  have plain : bytesOfBearer "Bearer AQI" = .ok [1, 2] := by decide +kernel
  exact ⟨spacious, plain, (bytesOfBearer_exact header).2.1 _ _ spacious plain⟩

end OnceProxy
