import Mathlib.Data.String.Basic
import OnceProxy.Proofs.Text.Utf8

/-!
# The order of texts

Texts are in the order of their bytes: the bytes of two characters differ first where one of them is
less, and the bytes of no character start those of another one.
-/

namespace OnceProxy.Text.Utf8

/-- Bytes are compared one by one as long as they are the same. -/
lemma cons_lt_cons_of_le {n m : Nat} (hm : m < 256) (hle : n ≤ m) {s t : List UInt8}
    (ht : n = m → s < t) : UInt8.ofNat n :: s < UInt8.ofNat m :: t := by
  rw [List.cons_lt_cons_iff, UInt8.lt_iff_toNat_lt, toNat_ofNat_of_lt hm,
    toNat_ofNat_of_lt (Nat.lt_of_le_of_lt hle hm)]
  rcases Nat.lt_or_eq_of_le hle with hlt | rfl
  · exact .inl hlt
  · exact .inr ⟨rfl, ht rfl⟩

/-- The bytes of a character are less than those of a greater one, whatever stands after them. -/
lemma encodeChar_append_lt {c d : Char} (h : c < d) (r r' : List UInt8) :
    encodeChar c ++ r < encodeChar d ++ r' := by
  have hlt : c.toNat < d.toNat := h
  have hd := toNat_bounds d
  simp only [encodeChar]
  generalize c.toNat = n at hlt
  generalize d.toNat = m at hlt hd
  split_ifs <;> simp only [List.cons_append, List.nil_append] <;>
    -- the first bytes tell the lengths, and not all bytes of one length can be the same
    repeat (first | (refine cons_lt_cons_of_le (by omega) (by omega) ?_; intro h) | omega)

lemma encode_lt {a b : List Char} (h : a < b) : encode a < encode b := by
  induction a generalizing b with
  | nil =>
    cases b with
    | nil => exact absurd h (List.lt_irrefl _)
    | cons d b =>
      obtain ⟨x, s, hx⟩ := List.exists_cons_of_ne_nil (encodeChar_ne_nil d)
      rw [encode_cons, hx]
      exact List.nil_lt_cons _ _
  | cons c a ih =>
    cases b with
    | nil => cases h
    | cons d b =>
      rw [encode_cons, encode_cons]
      rcases List.cons_lt_cons_iff.mp h with hlt | ⟨rfl, hlt⟩
      · exact encodeChar_append_lt hlt _ _
      · exact List.append_left_lt (ih hlt)

/-- One text comes before another just if its bytes do. -/
theorem ofString_lt_iff {s t : String} : ofString s < ofString t ↔ s < t := by
  constructor
  · intro h
    rcases lt_trichotomy s t with hlt | rfl | hgt
    · exact hlt
    · exact absurd h (List.lt_irrefl _)
    · exact absurd h (List.lt_asymm (encode_lt (String.lt_iff_toList_lt.mp hgt)))
  · intro h
    exact encode_lt (String.lt_iff_toList_lt.mp h)

end OnceProxy.Text.Utf8
