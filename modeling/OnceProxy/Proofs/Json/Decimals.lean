import OnceProxy.Json.Value
import OnceProxy.Proofs.Json.Numbers

/-!
# Numbers as they are written

Every number is written as a literal, an integer as one of the same value.
-/

namespace OnceProxy.Json

open Text

/-! ### Digits -/

section

variable {cs : List Char}

lemma isDigit_ofNat {c : Char} (h : c.isDigit) :
    Utf8.encodeChar c = [UInt8.ofNat c.toNat] ∧ isDigit (UInt8.ofNat c.toNat) ∧
      digit (UInt8.ofNat c.toNat) = c.toNat - 48 := by
  have bounds : 48 ≤ c.toNat ∧ c.toNat ≤ 57 := Char.isDigit_iff_toNat.mp h
  have hn : (UInt8.ofNat c.toNat).toNat = c.toNat := Utf8.toNat_ofNat_of_lt (by omega)
  refine ⟨Utf8.encodeChar_of_lt (by omega), ?_, ?_⟩
  · rw [isDigit_iff, hn]
    exact bounds
  · rw [digit, hn]

lemma isDigit_encode (h : ∀ c ∈ cs, c.isDigit) : ∀ b ∈ Utf8.encode cs, isDigit b := by
  intro b hb
  obtain ⟨c, hc, hb⟩ := List.mem_flatMap.mp hb
  obtain ⟨he, hd, -⟩ := isDigit_ofNat (h c hc)
  rw [he, List.mem_singleton] at hb
  rwa [hb]

lemma encode_ne_nil (h : cs ≠ []) : Utf8.encode cs ≠ [] := by
  obtain ⟨c, cs, rfl⟩ := List.exists_cons_of_ne_nil h
  rw [Utf8.encode_cons]
  exact List.append_ne_nil_of_left_ne_nil (Utf8.encodeChar_ne_nil c) _

lemma foldl_addDigit_encode (h : ∀ c ∈ cs, c.isDigit) (n : Nat) :
    (Utf8.encode cs).foldl addDigit n = Nat.ofDigitChars 10 cs n := by
  induction cs generalizing n with
  | nil => rfl
  | cons c cs ih =>
    rw [List.forall_mem_cons] at h
    obtain ⟨he, -, hd⟩ := isDigit_ofNat h.1
    rw [Utf8.encode_cons, he, List.singleton_append, List.foldl_cons, addDigit, hd, ih h.2,
      Nat.ofDigitChars_cons]
    rfl

end

lemma isDigit_toDigits (n : Nat) : ∀ c ∈ Nat.toDigits 10 n, c.isDigit := fun _ =>
  Nat.isDigit_of_mem_toDigits (by decide) (by decide)

lemma ofDigits_toDigits (n : Nat) : ofDigits (Utf8.encode (Nat.toDigits 10 n)) = n := by
  rw [ofDigits, foldl_addDigit_encode (isDigit_toDigits n), Nat.ofDigitChars_ten_toDigits]

/-- A number but zero is written without a zero before it. -/
lemma head?_toDigits {n : Nat} (hn : n ≠ 0) : (Nat.toDigits 10 n).head? ≠ some '0' := by
  induction n using Nat.strongRecOn with
  | ind n ih =>
    rw [Nat.toDigits_eq_if (by decide)]
    split
    · rw [List.head?_singleton, Ne, Option.some.injEq, Nat.digitChar_eq_zero]
      exact hn
    · rw [List.head?_append]
      have hlow := ih (n / 10) (by omega) (by omega)
      obtain ⟨c, cs, hc⟩ := List.exists_cons_of_ne_nil (Nat.toDigits_ne_nil (b := 10) (n := n / 10))
      rw [hc] at hlow ⊢
      exact hlow

/-! ### Literals of characters -/

/-- The literal with the given digits. -/
def Literal.ofChars (negative : Bool) (whole fraction : List Char) (exponent : Option Exponent)
    (hw : ∀ c ∈ whole, c.isDigit) (hn : whole ≠ []) (hz : whole.head? = some '0' → whole = ['0'])
    (hf : ∀ c ∈ fraction, c.isDigit) : Literal where
  negative := negative
  whole := Utf8.encode whole
  fraction := Utf8.encode fraction
  exponent := exponent
  isDigit_whole := isDigit_encode hw
  whole_ne_nil := encode_ne_nil hn
  eq_zero_of_leading h := by
    obtain ⟨c, cs, rfl⟩ := List.exists_cons_of_ne_nil hn
    obtain ⟨he, -⟩ := isDigit_ofNat (hw c (List.mem_cons_self ..))
    rw [Utf8.encode_cons, he, List.singleton_append, List.head?_cons, Option.some.injEq] at h
    have hc : c.toNat = 48 := by
      have := congrArg UInt8.toNat h
      have := Char.isDigit_iff_toNat.mp (hw c (List.mem_cons_self ..))
      rwa [Utf8.toNat_ofNat_of_lt (by simp at this; omega)] at *
    have hc : c = '0' := Char.toNat_inj.mp hc
    rw [hz (by rw [hc]; rfl)]
    rfl
  isDigit_fraction := isDigit_encode hf

lemma eq_zero_of_head?_toDigits {n : Nat} (h : (Nat.toDigits 10 n).head? = some '0') :
    Nat.toDigits 10 n = ['0'] := by
  by_cases hn : n = 0
  · rw [hn, Nat.toDigits_zero]
  · exact absurd h (head?_toDigits hn)

lemma encode_eq_nil_iff {cs : List Char} : Utf8.encode cs = [] ↔ cs = [] := by
  refine ⟨fun h => ?_, fun h => by rw [h]; rfl⟩
  by_contra hn
  exact encode_ne_nil hn h

lemma Literal.text_ofChars {negative : Bool} {whole fraction : List Char}
    {exponent : Option Exponent} {hw hn hz hf} :
    (ofChars negative whole fraction exponent hw hn hz hf).text =
      Utf8.encode ((if negative then ['-'] else []) ++ (whole ++
        ((if fraction = [] then [] else ['.']) ++ fraction))) ++
        exponent.elim [] Exponent.text := by
  have sign : Utf8.encode (if negative then ['-'] else []) = if negative then [45] else [] := by
    cases negative <;> rfl
  simp only [text, tail, ofChars, Utf8.encode_append, sign, encode_eq_nil_iff, List.append_assoc]
  by_cases hf : fraction = []
  · simp only [if_pos hf]
    rfl
  · simp only [if_neg hf]
    rfl

/-! ### Integers -/

lemma toList_toString (n : ℤ) :
    (toString n).toList = (if n < 0 then ['-'] else []) ++ Nat.toDigits 10 n.natAbs := by
  cases n with
  | ofNat m =>
    change (Nat.repr m).toList = _
    simp [Nat.repr_eq_ofList_toDigits]
  | negSucc m =>
    change ("-" ++ Nat.repr (m + 1)).toList = _
    simp [Nat.repr_eq_ofList_toDigits, Int.negSucc_lt_zero, String.toList_append]

/-- The literal that an integer is written as. -/
def Literal.ofInt (n : ℤ) : Literal :=
  .ofChars (n < 0) (Nat.toDigits 10 n.natAbs) [] none (isDigit_toDigits _) Nat.toDigits_ne_nil
    eq_zero_of_head?_toDigits nofun

namespace Literal

lemma text_ofInt (n : ℤ) : (ofInt n).text = Utf8.encode (toString n).toList := by
  rw [ofInt, text_ofChars, toList_toString]
  simp

lemma isInteger_ofInt (n : ℤ) : (ofInt n).IsInteger := ⟨rfl, rfl⟩

lemma ofDigits_ofInt (n : ℤ) : ofDigits (ofInt n).whole = n.natAbs := ofDigits_toDigits _

lemma integer_ofInt (n : ℤ) : (ofInt n).integer = n := by
  rw [integer, ofDigits_ofInt]
  change (if decide (n < 0) then _ else _) = n
  split
  · rename_i h
    have := of_decide_eq_true h
    omega
  · rename_i h
    have := of_decide_eq_false (Bool.eq_false_iff.mpr h)
    omega

end Literal

/-! ### Floats -/

lemma isDigit_zeros (n : Nat) : ∀ c ∈ List.replicate n '0', c.isDigit := fun c hc => by
  rw [List.eq_of_mem_replicate hc]
  rfl

/-- The exponent that is written for a power of ten. -/
def Exponent.ofInt (n : ℤ) : Exponent where
  mark := 101
  sign := some (if n < 0 then 45 else 43)
  digits := Utf8.encode (Nat.toDigits 10 n.natAbs)
  isMark_mark := rfl
  isSign_sign b hb := by
    cases hb
    split <;> rfl
  isDigit_digits := isDigit_encode (isDigit_toDigits _)
  digits_ne_nil := encode_ne_nil Nat.toDigits_ne_nil

lemma Exponent.text_ofInt (n : ℤ) :
    (ofInt n).text =
      Utf8.encode ('e' :: ((if n < 0 then [] else ['+']) ++ (toString n).toList)) := by
  rw [toList_toString]
  by_cases h : n < 0
  · simp only [text, ofInt, h, if_true, List.nil_append, Utf8.encode_cons, Utf8.encode_append]
    rfl
  · simp only [text, ofInt, h, if_false, List.nil_append, Utf8.encode_cons, Utf8.encode_append]
    rfl

/-- Digits of which the first is not zero. -/
structure Significant (ds : List Char) : Prop where
  isDigit : ∀ c ∈ ds, c.isDigit
  ne_nil : ds ≠ []
  lead : ds.head? ≠ some '0'

/-- Characters that write a number. -/
def IsLiteral (cs : List Char) : Prop := ∃ l : Literal, l.text = Utf8.encode cs

namespace Significant

variable {ds : List Char} (h : Significant ds) (negative : Bool)

include h

lemma not_lead_take {n : Nat} (hn : (ds.take n).head? = some '0') : False := by
  rw [List.head?_take] at hn
  split at hn
  · cases hn
  · exact h.lead hn

lemma isDigit_take (n : Nat) : ∀ c ∈ ds.take n, c.isDigit :=
  fun c hc => h.isDigit c (List.mem_of_mem_take hc)

lemma isDigit_drop (n : Nat) : ∀ c ∈ ds.drop n, c.isDigit :=
  fun c hc => h.isDigit c (List.mem_of_mem_drop hc)

lemma take_ne_nil {n : Nat} (hn : 0 < n) : ds.take n ≠ [] := by
  rw [Ne, List.take_eq_nil_iff]
  rintro (h0 | hnil)
  · omega
  · exact h.ne_nil hnil

lemma whole (n : Nat) :
    IsLiteral ((if negative then ['-'] else []) ++ ds ++ List.replicate n '0' ++ ['.', '0']) := by
  refine ⟨.ofChars negative (ds ++ List.replicate n '0') ['0'] none
    (List.forall_mem_append.mpr ⟨h.isDigit, isDigit_zeros n⟩) (by simp [h.ne_nil]) (fun hlead => ?_)
    (by simp), ?_⟩
  · obtain ⟨c, cs, rfl⟩ := List.exists_cons_of_ne_nil h.ne_nil
    exact absurd hlead h.lead
  · rw [Literal.text_ofChars]
    simp

lemma pointed {n : Nat} (hn : 0 < n) (hlt : n < ds.length) :
    IsLiteral ((if negative then ['-'] else []) ++ ds.take n ++ '.' :: ds.drop n) := by
  have hdrop : ds.drop n ≠ [] := by
    rw [Ne, List.drop_eq_nil_iff]
    omega
  refine ⟨.ofChars negative (ds.take n) (ds.drop n) none (h.isDigit_take n) (h.take_ne_nil hn)
    (fun hlead => (h.not_lead_take hlead).elim) (h.isDigit_drop n), ?_⟩
  rw [Literal.text_ofChars, if_neg hdrop]
  simp

lemma small (n : Nat) :
    IsLiteral ((if negative then ['-'] else []) ++ '0' :: '.' :: List.replicate n '0' ++ ds) := by
  refine ⟨.ofChars negative ['0'] (List.replicate n '0' ++ ds) none (by simp) (by simp)
    (fun _ => rfl) (List.forall_mem_append.mpr ⟨isDigit_zeros n, h.isDigit⟩), ?_⟩
  rw [Literal.text_ofChars]
  simp [h.ne_nil]

lemma scientific (e : ℤ) :
    IsLiteral ((if negative then ['-'] else []) ++ ds.take 1 ++
      (if ds.length = 1 then [] else '.' :: ds.drop 1) ++
      'e' :: (if e < 0 then [] else ['+']) ++ (toString e).toList) := by
  -- one digit is written with no point, and the grammar wants digits after one
  have fraction : (if ds.drop 1 = [] then [] else ['.']) ++ ds.drop 1 =
      if ds.length = 1 then [] else '.' :: ds.drop 1 := by
    have hpos := List.length_pos_iff.mpr h.ne_nil
    have hiff : ds.drop 1 = [] ↔ ds.length = 1 := by
      rw [List.drop_eq_nil_iff]
      omega
    by_cases hlen : ds.length = 1
    · rw [if_pos (hiff.mpr hlen), hiff.mpr hlen, if_pos hlen]
      rfl
    · rw [if_neg (hiff.not.mpr hlen), if_neg hlen]
      rfl
  refine ⟨.ofChars negative (ds.take 1) (ds.drop 1) (some (.ofInt e)) (h.isDigit_take 1)
    (h.take_ne_nil Nat.one_pos) (fun hlead => (h.not_lead_take hlead).elim) (h.isDigit_drop 1), ?_⟩
  rw [Literal.text_ofChars, Option.elim_some, Exponent.text_ofInt, ← Utf8.encode_append, fraction]
  simp

end Significant

/-- The zero that is written for a float. -/
def Literal.zero (negative : Bool) : Literal :=
  .ofChars negative ['0'] ['0'] none (by simp) (by simp) (fun _ => rfl) (by simp)

lemma Literal.value_zero (negative : Bool) : (zero negative).value = 0 := by
  have hd : Json.ofDigits (Utf8.encode ['0'] ++ Utf8.encode ['0']) = 0 := rfl
  simp only [value, zero, ofChars, hd, Nat.cast_zero, mul_zero, zero_mul]

/-- A float is written as a literal, and zero as one of no value. -/
lemma exists_literal_of_float (x : Binary64) :
    ∃ l : Literal, l.text = Utf8.encode (floatText x) ∧ (x.magnitude = 0 → l.value = 0) := by
  have zero : x.magnitude = 0 → (x.shortest .even).digits = 0 := fun h => by
    rw [Binary64.shortest, if_pos h]
  unfold floatText
  simp only
  generalize x.shortest .even = d at zero ⊢
  have hds : (toString d.digits).toList = Nat.toDigits 10 d.digits := by
    rw [Nat.toString_eq_ofList_toDigits, String.toList_ofList]
  rw [hds]
  by_cases hz : d.digits = 0
  · rw [if_pos hz]
    refine ⟨.zero x.isNegative, ?_, fun _ => Literal.value_zero _⟩
    rw [Literal.zero, Literal.text_ofChars]
    simp
  rw [if_neg hz]
  -- any layout will do, for the float is not zero
  suffices h : IsLiteral _ from h.imp fun l hl => ⟨hl, fun hx => absurd (zero hx) hz⟩
  have h : Significant (Nat.toDigits 10 d.digits) :=
    ⟨isDigit_toDigits _, Nat.toDigits_ne_nil, head?_toDigits hz⟩
  generalize Nat.toDigits 10 d.digits = ds at h ⊢
  generalize hpoint : (ds.length : ℤ) + d.exponent = point
  split
  · exact h.whole x.isNegative _
  split
  · exact h.pointed x.isNegative (by omega) (by omega)
  split
  · exact h.small x.isNegative _
  · have plus : (if 0 < point then ['+'] else []) = if point - 1 < 0 then [] else ['+'] := by
      split <;> split <;> first | rfl | omega
    rw [plus]
    exact h.scientific x.isNegative (point - 1)

end OnceProxy.Json
