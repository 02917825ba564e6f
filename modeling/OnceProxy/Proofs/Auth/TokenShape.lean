import OnceProxy.Proofs.Auth.TokenBytes
import OnceProxy.Proofs.Cbor.Items

/-!
# The shape of accepted tokens

What is accepted as a token is the head of an array, under any number of tags, with three items
after it and then nothing. The head need not announce three: it may announce more elements than
there are, or leave them to a stop code that never comes. Exactly where it announces three, and no
string has an open end within an open end, are the bytes a well-formed array of three, as the bytes
that tokens are written as always are.
-/

namespace OnceProxy

namespace Cbor

section

variable {nested : Bool} {k : Nat} {n : Option Nat} {data s u : List UInt8}

/-- If items make up the rest of the bytes, a well-formed array counts all of them. -/
lemma count_of_item (ht : Tags data s) (hs : (Head.array n).Starts s u) (hi : Items nested k u [])
    (h : Item false data []) : n = some k ∧ Items false k u [] := by
  induction ht with
  | nil =>
    cases h with
    | mk hs' h =>
      obtain ⟨rfl, rfl⟩ := hs.unique hs'
      cases h with
      | array h =>
        -- both rows start at the same byte and end at the last one, so they are equally long
        obtain ⟨d, rfl, hd⟩ | ⟨d, rfl, hd⟩ := hi.split h
        all_goals
          obtain ⟨rfl, -⟩ := hd.eq_of_nil
          exact ⟨rfl, h⟩
      | openArray h =>
        -- an open end would need a stop code after the last item
        obtain ⟨d, -, hd⟩ | ⟨d, -, hd⟩ := hi.split h
        · cases hd.eq_of_stop.2
        · cases hd.eq_of_nil.2
  | cons ht' _ ih =>
    cases h with
    | mk hs' h =>
      obtain ⟨rfl, rfl⟩ := ht'.unique hs'
      cases h with
      | tag h => exact ih hs h

lemma taggedArray_of_count (ht : Tags data s) (hs : (Head.array (some k)).Starts s u)
    (hi : Items false k u []) : TaggedArray k data := by
  induction ht with
  | nil => exact .counted hs hi
  | cons ht' _ ih => exact .tag ht' (ih hs)

end

/-- An array gives an element only if none is left out of its announced number. -/
lemma element_of_items {α : Type} {item : Input → Except ReadError (α × Input)}
    {ofByte : UInt8 → Except ReadError α} (hitem : TakesItem item) {place size : Nat}
    {n : Option Nat} {i j : Input} {a : α} {s : Sequence}
    (h : (Sequence.items n).element item ofByte place size i = .ok (a, s, j)) :
    Item true i.rest j.rest ∧ ∃ m : Option Nat, s = .items m ∧ n = m.map (· + 1) := by
  obtain ⟨⟨next, s', l⟩, hnext, h⟩ := ok_of_bind h
  cases next with
  | none => cases h
  | some b =>
    cases h
    -- an announced element, or one before the end of an open array
    match n with
    | some 0 => cases hnext
    | some (m + 1) =>
      obtain ⟨⟨b, l⟩, hb, hnext⟩ := ok_of_bind hnext
      cases hnext
      exact ⟨(hitem hb).item, some m, rfl, rfl⟩
    | none =>
      obtain ⟨⟨head, l⟩, hr, hnext⟩ := ok_of_bind hnext
      simp only at hnext
      split at hnext
      · cases hnext
      · obtain ⟨⟨b, l⟩, hb, hnext⟩ := ok_of_bind hnext
        cases hnext
        exact ⟨(Plain.of_unread hr (hitem hb)).item, none, rfl, rfl⟩

lemma element_of_bytes_ne_ok {α : Type} {item : Input → Except ReadError (α × Input)}
    {wanted : String} {place size : Nat} {s : List UInt8} {i : Input} {x : α × Sequence × Input} :
    (Sequence.bytes s).element item (refuseByte wanted) place size i ≠ .ok x := by
  intro h
  cases s <;> cases h

lemma element_of_bytes {α : Type} {item : Input → Except ReadError (α × Input)}
    {ofByte : UInt8 → Except ReadError α} {place size : Nat} {s : List UInt8} {t : Sequence}
    {i j : Input} {a : α}
    (h : (Sequence.bytes s).element item ofByte place size i = .ok (a, t, j)) :
    ∃ r, t = .bytes r := by
  obtain ⟨⟨next, t', l⟩, hnext, h⟩ := ok_of_bind h
  cases s with
  | nil =>
    cases hnext
    cases h
  | cons b r =>
    obtain ⟨b', -, hnext⟩ := ok_of_bind hnext
    cases hnext
    cases h
    exact ⟨r, rfl⟩

lemma array_of_readSequence {i j : Input} {n : Option Nat}
    (h : readSequence i = .ok (.items n, j)) :
    ∃ s, Tags i.rest s ∧ (Head.array n).Starts s j.rest := by
  obtain ⟨⟨head, o, l⟩, hr, h⟩ := ok_of_bind h
  obtain ⟨m, ht, hm⟩ := tags_of_readUntagged hr
  simp only at h
  split at h
  · cases h
    exact ⟨m.rest, ht, starts_of_read hm rfl⟩
  · obtain ⟨⟨s, m⟩, -, h⟩ := ok_of_bind h
    cases h
  · cases h

end Cbor

namespace Token

open Cbor

/-- Three items are taken from the array, so its head announces no fewer. -/
lemma shape_of_read {i j : Input} {t : Token} (h : read i = .ok (t, j)) :
    ∃ s n u, Tags i.rest s ∧ (Head.array n).Starts s u ∧ Items true 3 u j.rest ∧
      ∀ m, n = some m → 3 ≤ m := by
  obtain ⟨⟨sequence, l⟩, hseq, h⟩ := ok_of_bind h
  obtain ⟨⟨expiry, s₁, l₁⟩, hexpiry, h⟩ := ok_of_bind h
  obtain ⟨⟨agent, s₂, l₂⟩, hagent, h⟩ := ok_of_bind h
  obtain ⟨⟨signature, s₃, l₃⟩, hsignature, h⟩ := ok_of_bind h
  cases h
  cases sequence with
  | bytes s =>
    -- a byte string holds no text, so that its second element fails
    obtain ⟨r, rfl⟩ := element_of_bytes hexpiry
    exact absurd hagent element_of_bytes_ne_ok
  | items n =>
    obtain ⟨s, ht, hs⟩ := array_of_readSequence hseq
    obtain ⟨h₁, n₁, rfl, rfl⟩ := element_of_items takesItem_readUnsigned hexpiry
    obtain ⟨h₂, n₂, rfl, rfl⟩ := element_of_items takesItem_readText hagent
    obtain ⟨h₃, n₃, rfl, rfl⟩ := element_of_items takesItem_readByteString hsignature
    refine ⟨s, _, l.rest, ht, hs, .cons h₁ (.cons h₂ (.cons h₃ .nil)), ?_⟩
    intro m hm
    cases n₃ with
    | none => cases hm
    | some k =>
      cases hm
      exact Nat.le_add_left 3 k

/-- An accepted token is three items behind the head of an array which announces no fewer. It is a
well-formed item exactly if it is an array of three, and exactly if the head announces three and the
items are well-formed. -/
theorem decode_shape {data : List UInt8} {t : Token} (h : decode data = .ok t) :
    ∃ s n u, Tags data s ∧ (Head.array n).Starts s u ∧ Items true 3 u [] ∧
      (∀ m, n = some m → 3 ≤ m) ∧
      (Item false data [] ↔ TaggedArray 3 data) ∧
      (Item false data [] ↔ n = some 3 ∧ Items false 3 u []) := by
  unfold decode at h
  split at h
  · cases h
  · rename_i j hread
    split at h
    · rename_i hempty
      obtain ⟨s, n, u, ht, hs, hi, hn⟩ := shape_of_read hread
      rw [List.isEmpty_iff.mp hempty] at hi
      -- well-formed bytes announce as many items as were taken
      have counted : Item false data [] → n = some 3 ∧ Items false 3 u [] := count_of_item ht hs hi
      have array : n = some 3 ∧ Items false 3 u [] → TaggedArray 3 data := by
        rintro ⟨rfl, hi'⟩
        exact taggedArray_of_count ht hs hi'
      refine ⟨s, n, u, ht, hs, hi, hn, ⟨fun h => array (counted h), TaggedArray.item⟩, ?_⟩
      exact ⟨counted, fun h => (array h).item⟩
    · cases h

/-- A tagged array whose stop code never comes. Its text has an open end within an open end. -/
def loose : List UInt8 := [0xC1, 0x9F, 0x01, 0x7F, 0x7F, 0x61, 0x61, 0xFF, 0xFF, 0x40]

theorem decode_shape_loose :
    decode loose = .ok ⟨1, "a", []⟩ ∧
    ∃ s n u, Tags loose s ∧ (Head.array n).Starts s u ∧ Items true 3 u [] ∧
      (∀ m, n = some m → 3 ≤ m) ∧
      (Item false loose [] ↔ TaggedArray 3 loose) ∧
      (Item false loose [] ↔ n = some 3 ∧ Items false 3 u []) := by
  have accepted : decode loose = .ok ⟨1, "a", []⟩ := by decide +kernel
  exact ⟨accepted, decode_shape accepted⟩

lemma three_items : Items false 3 [0x01, 0x61, 0x61, 0x40] [] := by
  have number : (Head.positive 1).Starts [0x01, 0x61, 0x61, 0x40] [0x61, 0x61, 0x40] :=
    @Head.Starts.short _ 0 1 _ rfl (by decide)
  have text : (Head.text (some 1)).Starts [0x61, 0x61, 0x40] [0x61, 0x40] :=
    @Head.Starts.short _ 3 1 _ rfl (by decide)
  have bytes : (Head.bytes (some 0)).Starts [0x40] [] :=
    @Head.Starts.short _ 2 0 _ rfl (by decide)
  exact .cons (.mk number .positive) (.cons (.mk text (.text (.whole (p := [0x61]))))
    (.cons (.mk bytes (.bytes (.whole (p := [])))) .nil))

/-- Accepted are an array of three which announces four, and one without the stop code it needs.
Neither is a well-formed item, let alone an array of three. -/
theorem exists_accepted_malformed :
    (decode [0x84, 0x01, 0x61, 0x61, 0x40] = .ok ⟨1, "a", []⟩ ∧
      ¬ (Item false [0x84, 0x01, 0x61, 0x61, 0x40] [] ∧
        TaggedArray 3 [0x84, 0x01, 0x61, 0x61, 0x40])) ∧
    (decode [0x9F, 0x01, 0x61, 0x61, 0x40] = .ok ⟨1, "a", []⟩ ∧
      ¬ (Item false [0x9F, 0x01, 0x61, 0x61, 0x40] [] ∧
        TaggedArray 3 [0x9F, 0x01, 0x61, 0x61, 0x40])) := by
  have four : (Head.array (some 4)).Starts [0x84, 0x01, 0x61, 0x61, 0x40]
      [0x01, 0x61, 0x61, 0x40] := @Head.Starts.short _ 4 4 _ rfl (by decide)
  have endless : (Head.array none).Starts [0x9F, 0x01, 0x61, 0x61, 0x40]
      [0x01, 0x61, 0x61, 0x40] := @Head.Starts.openEnd _ 4 _ rfl
  refine ⟨⟨by decide +kernel, ?_⟩, ⟨by decide +kernel, ?_⟩⟩
  · rintro ⟨h, -⟩
    cases (count_of_item .nil four three_items h).1
  · rintro ⟨h, -⟩
    cases (count_of_item .nil endless three_items h).1

end Token

end OnceProxy
