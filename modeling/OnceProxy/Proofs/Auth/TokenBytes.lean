import OnceProxy.Auth.Token
import OnceProxy.Proofs.Cbor.Truncation

/-!
# The bytes of a token

A token is read back from its bytes if its parts have lengths of 64 bits. These bytes have to be
there as a whole, and nothing may stand after them. What a signature covers can be taken neither for
the payload of another signature nor for the beginning of one, and never for a token.
-/

namespace OnceProxy.Token

open Cbor

/-- A token whose parts have lengths of 64 bits. -/
structure Fits (t : Token) : Prop where
  message : (Text.Utf8.ofString t.message).length < wordLimit
  signature : t.signature.length < wordLimit

/-- A token is read back from its bytes, whatever stands after them. -/
lemma read_encode {t : Token} (h : t.Fits) (o : Nat) (r : List UInt8) :
    read ⟨o, t.encode ++ r⟩ = .ok (t, ⟨o + t.encode.length, r⟩) := by
  have hexpiry : UInt64.ofNat t.expireAt.toNat = t.expireAt := UInt64.ofNat_toNat
  simp only [read, encode, List.append_assoc, bind, Except.bind,
    readSequence_append (show 3 < wordLimit by decide), Sequence.element, Sequence.next,
    readUnsigned_append t.expireAt.toNat_lt, readText_append h.message,
    readByteString_append h.signature, pure, Except.pure, hexpiry, List.length_append,
    Nat.add_assoc]

/-- Whichever part of a token is cut, the parts before it are read and then the input is over. -/
lemma read_part {t : Token} (h : t.Fits) {p q : List UInt8} (hp : p ++ q = t.encode) (hq : q ≠ [])
    (o : Nat) : read ⟨o, p⟩ = .error .endOfInput := by
  have array (r : List UInt8) := readSequence_append (show 3 < wordLimit by decide) o r
  have expiry (o : Nat) (r : List UInt8) := readUnsigned_append t.expireAt.toNat_lt o r
  have message (o : Nat) (r : List UInt8) := readText_append h.message o r
  simp only [encode, List.append_assoc] at hp
  rcases part_cases hp with ⟨m, hcut, hm⟩ | ⟨p₁, rfl, hp₁⟩
  · simp only [read, readSequence_part hcut hm, bind, Except.bind]
  rcases part_cases hp₁ with ⟨m, hcut, hm⟩ | ⟨p₂, rfl, hp₂⟩
  · simp only [read, array, Sequence.element, Sequence.next, readUnsigned_part hcut hm, bind,
      Except.bind]
  rcases part_cases hp₂ with ⟨m, hcut, hm⟩ | ⟨p₃, rfl, hp₃⟩
  · simp only [read, array, expiry, Sequence.element, Sequence.next,
      readText_part h.message hcut hm, bind, Except.bind, pure, Except.pure]
  · simp only [read, array, expiry, message, Sequence.element, Sequence.next,
      readByteString_part h.signature hp₃ hq, bind, Except.bind, pure, Except.pure]

lemma decode_encode {t : Token} (h : t.Fits) : decode t.encode = .ok t := by
  have hr := read_encode h 0 []
  rw [List.append_nil] at hr
  rw [decode, hr]
  rfl

/-- The bytes of a token are just enough. The token is read back from them, bytes that stand after
them are counted and refused, and if some of them are missing the input is over too early. -/
theorem decode_framing (t : Token) (h : t.Fits) :
    decode t.encode = .ok t ∧
    (∀ s, s ≠ [] → decode (t.encode ++ s) =
      .error (.decode s!"{s.length} trailing bytes after token")) ∧
    (∀ p, p <+: t.encode → p ≠ t.encode →
      decode p = .error (.decode ReadError.endOfInput.message)) := by
  refine ⟨decode_encode h, ?_, ?_⟩
  · intro s hs
    rw [decode, read_encode h 0 s]
    simp only
    rw [if_neg (by simpa using hs)]
  · rintro p ⟨q, hp⟩ hne
    have hq : q ≠ [] := by
      rintro rfl
      rw [List.append_nil] at hp
      exact hne hp
    rw [decode, read_part h hp hq 0]

/-- A token whose agent has a character of two bytes. -/
def stub : Token := ⟨500, "é", [7]⟩

theorem decode_framing_stub :
    stub.Fits ∧ decode stub.encode = .ok stub ∧
    [0xFF, 0] ≠ ([] : List UInt8) ∧
    decode (stub.encode ++ [0xFF, 0]) = .error (.decode "2 trailing bytes after token") ∧
    [0x83, 0x19, 1, 0xF4, 0x62, 0xC3] <+: stub.encode ∧
    [0x83, 0x19, 1, 0xF4, 0x62, 0xC3] ≠ stub.encode ∧
    decode [0x83, 0x19, 1, 0xF4, 0x62, 0xC3] = .error (.decode ReadError.endOfInput.message) := by
  have fits : stub.Fits := ⟨by decide, by decide⟩
  have surplus : [0xFF, 0] ≠ ([] : List UInt8) := by decide
  have within : [0x83, 0x19, 1, 0xF4, 0x62, 0xC3] <+: stub.encode := by decide
  have short : [0x83, 0x19, 1, 0xF4, 0x62, 0xC3] ≠ stub.encode := by decide
  obtain ⟨whole, longer, shorter⟩ := decode_framing stub fits
  exact ⟨fits, whole, surplus, longer _ surplus, within, short, shorter _ within short⟩

/-! ### What is signed -/

section

variable {e₁ e₂ : UInt64} {m₁ m₂ : String} {s t : List UInt8}

/-- The expiry of a payload is found at its beginning, and the agent right after it. -/
lemma expiry_of_payload_append (h : payload e₁ m₁ ++ s = payload e₂ m₂ ++ t) :
    e₁ = e₂ ∧ encodeText m₁ ++ s = encodeText m₂ ++ t := by
  simp only [payload, List.append_assoc, List.append_cancel_left_eq] at h
  have first := readUnsigned_append e₁.toNat_lt 0 (encodeText m₁ ++ s)
  rw [h, readUnsigned_append e₂.toNat_lt] at first
  obtain ⟨hexpiry, hinput⟩ := Prod.mk.inj (Except.ok.inj first)
  exact ⟨UInt64.toNat_inj.mp hexpiry.symm, (Input.mk.inj hinput).2.symm⟩

/-- Where a payload ends can be told, whatever stands after it. -/
lemma payload_append_inj (h₁ : (Text.Utf8.ofString m₁).length < wordLimit)
    (h₂ : (Text.Utf8.ofString m₂).length < wordLimit)
    (h : payload e₁ m₁ ++ s = payload e₂ m₂ ++ t) : e₁ = e₂ ∧ m₁ = m₂ ∧ s = t := by
  obtain ⟨hexpiry, htext⟩ := expiry_of_payload_append h
  have agent := readText_append h₁ 0 s
  rw [htext, readText_append h₂] at agent
  obtain ⟨hagent, hinput⟩ := Prod.mk.inj (Except.ok.inj agent)
  exact ⟨hexpiry, hagent.symm, (Input.mk.inj hinput).2.symm⟩

end

/-- A signature binds the expiry and the agent. Whatever lengths and numbers stand in it, no payload
is the beginning of another one, so no two payloads have the same bytes. Nor is a payload the
beginning of a token, or a token that of a payload. Of the texts only the one of the longer payload
has to have a length of 64 bits, as all texts have that are held in memory. -/
theorem payload_prefix_free :
    (∀ e₁ e₂ m₁ m₂, (Text.Utf8.ofString m₂).length < wordLimit →
      payload e₁ m₁ <+: payload e₂ m₂ → e₁ = e₂ ∧ m₁ = m₂) ∧
    (∀ e m (t : Token), ¬ payload e m <+: t.encode ∧ ¬ t.encode <+: payload e m) := by
  constructor
  · rintro e₁ e₂ m₁ m₂ h₂ ⟨s, h⟩
    rw [← List.append_nil (payload e₂ m₂)] at h
    obtain ⟨-, htext⟩ := expiry_of_payload_append h
    rw [List.append_nil] at htext
    have h₁ : (Text.Utf8.ofString m₁).length < wordLimit := lt_of_encodeText_append h₂ htext
    obtain ⟨hexpiry, hagent, -⟩ := payload_append_inj h₁ h₂ h
    exact ⟨hexpiry, hagent⟩
  · -- their first bytes tell arrays of two and of three apart
    intro e m t
    constructor
    · rintro ⟨s, h⟩
      cases (List.cons.inj h).1
    · rintro ⟨s, h⟩
      cases (List.cons.inj h).1

/-- The payload of an agent is not the beginning of that of an agent with a longer name. -/
theorem payload_prefix_free_stub :
    (Text.Utf8.ofString "é").length < wordLimit ∧
    payload 500 "é" <+: payload 500 "é" ∧ (500 : UInt64) = 500 ∧ "é" = "é" ∧
    ¬ payload 500 "é" <+: stub.encode ∧
    (Text.Utf8.ofString "éa").length < wordLimit ∧ ¬ payload 500 "é" <+: payload 500 "éa" := by
  have fits : (Text.Utf8.ofString "é").length < wordLimit := by decide
  have longer : (Text.Utf8.ofString "éa").length < wordLimit := by decide
  obtain ⟨binds, apart⟩ := payload_prefix_free
  obtain ⟨expiry, agent⟩ := binds 500 500 "é" "é" fits List.prefix_rfl
  refine ⟨fits, List.prefix_rfl, expiry, agent, (apart 500 "é" stub).1, longer, ?_⟩
  intro within
  exact absurd (binds 500 500 "é" "éa" longer within).2 (by decide)

end OnceProxy.Token
