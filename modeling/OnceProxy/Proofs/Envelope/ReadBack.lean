import OnceProxy.Envelope.Codec
import OnceProxy.Proofs.Cbor.ReadBack

/-!
# Reading back envelopes

An envelope is read back from its bytes, whatever stands after them, if its parts have lengths of
64 bits.
-/

namespace OnceProxy.Envelope

open Cbor

/-- An envelope whose parts have lengths of 64 bits. -/
structure Fits (e : Envelope) : Prop where
  headers : e.headers.length < wordLimit
  texts : ∀ h ∈ e.headers, (Text.Utf8.ofString h.1).length < wordLimit ∧
    (Text.Utf8.ofString h.2).length < wordLimit
  body : e.body.length < wordLimit
  mime : (Text.Utf8.ofString e.mime).length < wordLimit

/-! ### Fields -/

lemma ofName?_name (f : Field) : Field.ofName? (Text.Utf8.ofString f.name) = some f := by
  cases f <;> decide

lemma length_name (f : Field) : (Text.Utf8.ofString f.name).length ≤ nameLimit := by
  cases f <;> decide

lemma readField_append (f : Field) (o : Nat) (r : List UInt8) :
    readField ⟨o, encodeText f.name ++ r⟩ =
      .ok (some f, ⟨o + (encodeText f.name).length, r⟩) := by
  have hname := ofName?_name f
  have hlen := length_name f
  have htext : Text.Utf8.decode? (Text.Utf8.ofString f.name) = some f.name.toList :=
    Text.Utf8.decode?_encode f.name.toList
  generalize hs : Text.Utf8.ofString f.name = s at hname hlen htext
  have hw : s.length < wordLimit := Nat.lt_of_le_of_lt hlen (by decide)
  have hr : Head.read ⟨o, (Head.text (some s.length)).encode ++ (s ++ r)⟩ =
      .ok (.text (some s.length), ⟨o + (Head.text (some s.length)).encode.length, s ++ r⟩) :=
    read_encodeArgument (by omega) hw rfl o (s ++ r)
  rw [encodeText, hs, List.append_assoc, readField]
  simp only [readUntagged_of_read hr (by simp), bind, Except.bind]
  rw [if_neg (Nat.not_lt.mpr hlen)]
  simp only [pure, Except.pure, readBytes_append, htext, Option.isNone_some, Bool.false_eq_true,
    if_false, hname, List.length_append, Nat.add_assoc]

/-! ### Headers -/

lemma readHeader_append {h : String × String} (h₁ : (Text.Utf8.ofString h.1).length < wordLimit)
    (h₂ : (Text.Utf8.ofString h.2).length < wordLimit) (o : Nat) (r : List UInt8) :
    readHeader ⟨o, encodeHeader h ++ r⟩ = .ok (h, ⟨o + (encodeHeader h).length, r⟩) := by
  simp only [readHeader, encodeHeader, List.append_assoc, bind, Except.bind,
    readSequence_append (show 2 < wordLimit by decide), Sequence.element, Sequence.next,
    readText_append h₁, readText_append h₂, pure, Except.pure, List.length_append, Nat.add_assoc]

lemma readHeaders_append {hs : List (String × String)} (hn : hs.length < wordLimit)
    (ht : ∀ h ∈ hs, (Text.Utf8.ofString h.1).length < wordLimit ∧
      (Text.Utf8.ofString h.2).length < wordLimit) (o : Nat) (r : List UInt8) :
    readHeaders ⟨o, (Head.array (some hs.length)).encode ++ (hs.flatMap encodeHeader ++ r)⟩ =
      .ok (hs, ⟨o + ((Head.array (some hs.length)).encode.length +
        (hs.flatMap encodeHeader).length), r⟩) := by
  have hitems (o : Nat) (r : List UInt8) :
      readCounted readHeader hs.length ⟨o, hs.flatMap encodeHeader ++ r⟩ =
        .ok (hs, ⟨o + (hs.flatMap encodeHeader).length, r⟩) :=
    readCounted_append (fun h hm o r => readHeader_append (ht h hm).1 (ht h hm).2 o r) o r
  simp only [readHeaders, readSequence_append hn, bind, Except.bind, readItems, hitems,
    Nat.add_assoc]

/-! ### Envelopes -/

/-- An envelope is read back from its bytes, whatever stands after them. -/
theorem read_encode {e : Envelope} (h : e.Fits) (o : Nat) (r : List UInt8) :
    read ⟨o, e.encode ++ r⟩ = .ok (e, ⟨o + e.encode.length, r⟩) := by
  have hmap (r : List UInt8) : Head.read ⟨o, (Head.map (some 4)).encode ++ r⟩ =
      .ok (.map (some 4), ⟨o + (Head.map (some 4)).encode.length, r⟩) :=
    read_encodeArgument (show 5 ≤ 6 by omega) (show 4 < wordLimit by decide) rfl o r
  have hstatus : UInt16.ofNat e.status.toNat = e.status := UInt16.ofNat_toNat
  have hread (o : Nat) (r : List UInt8) :=
    readBelow_append (UInt16.toNat_lt e.status) (show 2 ^ 16 ≤ wordLimit by decide) "u16" o r
  simp only [read, encode, List.append_assoc, readUntagged_of_read (hmap _) (by simp), bind,
    Except.bind, readCountedFields, readField_append, readInto, Partial.empty,
    Option.isSome_none, Bool.false_eq_true, if_false, pure, Except.pure, hread,
    readHeaders_append h.headers h.texts, readByteString_append h.body, readText_append h.mime,
    Partial.complete, hstatus, List.length_append, Nat.add_assoc]

/-- What is decoded from the bytes of an envelope is the envelope. -/
theorem decode_encode {e : Envelope} (h : e.Fits) : decode e.encode = .ok e := by
  have hr := read_encode h 0 []
  rw [List.append_nil] at hr
  rw [decode, hr]

/-- An envelope is decoded from its bytes, and bytes that stand after them do not matter. It may be
any envelope, also one that no answer leads to. -/
theorem decode_encode_append (e : Envelope) (h : e.Fits) (s : List UInt8) :
    decode (e.encode ++ s) = .ok e := by
  rw [decode, read_encode h 0 s]

/-- An envelope that no answer leads to: its header is not legal, and it has no media type. -/
def oddity : Envelope := ⟨0, [("", "é\n"), ("", "")], [0xFF], ""⟩

theorem decode_encode_append_oddity :
    oddity.Fits ∧ decode (oddity.encode ++ [0xA4]) = .ok oddity := by
  have texts : ∀ h ∈ oddity.headers, (Text.Utf8.ofString h.1).length < wordLimit ∧
      (Text.Utf8.ofString h.2).length < wordLimit := by decide
  have fits : oddity.Fits := ⟨by decide, texts, by decide, by decide⟩
  exact ⟨fits, decode_encode_append oddity fits [0xA4]⟩

end OnceProxy.Envelope
