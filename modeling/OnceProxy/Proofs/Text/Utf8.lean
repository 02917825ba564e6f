import Mathlib.Tactic.Common
import OnceProxy.Text.Utf8

/-!
# Reading back what was written in UTF-8

A character is read back from its bytes, whatever stands after them, and from no part of them. So
text can be read in parts that end anywhere, if the bytes of a character that was cut are kept for
the next part. Nothing but the bytes of a character is read as one.
-/

namespace OnceProxy.Text.Utf8

/-! ### Bytes -/

lemma toNat_ofNat_of_lt {n : Nat} (h : n < 256) : (UInt8.ofNat n).toNat = n := by
  rw [UInt8.toNat_ofNat']
  exact Nat.mod_eq_of_lt h

/-- The number of bytes that a first byte announces, by its number. -/
lemma length?_ofNat {n : Nat} (h : n < 256) :
    length? (UInt8.ofNat n) =
      if n < 0x80 then some 1
      else if 0xC2 ≤ n ∧ n ≤ 0xDF then some 2
      else if 0xE0 ≤ n ∧ n ≤ 0xEF then some 3
      else if 0xF0 ≤ n ∧ n ≤ 0xF4 then some 4
      else none := by
  simp [length?, UInt8.lt_iff_toNat_lt, UInt8.le_iff_toNat_le, toNat_ofNat_of_lt h]

lemma continues_ofNat {n : Nat} (h : n < 64) : continues (UInt8.ofNat (0x80 + n)) = true := by
  have hn : (UInt8.ofNat (0x80 + n)).toNat = 0x80 + n := toNat_ofNat_of_lt (by omega)
  simp only [continues, Bool.and_eq_true, decide_eq_true_eq, UInt8.le_iff_toNat_le, hn]
  exact ⟨by simp, by simp; omega⟩

/-- Which second bytes may follow a first byte, by their numbers. -/
lemma seconds_ofNat {n k : Nat} (hn : n < 256) (hk : k < 64) :
    seconds (UInt8.ofNat n) (UInt8.ofNat (0x80 + k)) = true ↔
      (n = 0xE0 → 0x20 ≤ k) ∧ (n = 0xED → k < 0x20) ∧ (n = 0xF0 → 0x10 ≤ k) ∧
        (n = 0xF4 → k < 0x10) := by
  have hc : continues (UInt8.ofNat (0x80 + k)) = true := continues_ofNat hk
  have differs (m : Nat) (hm : m < 256) (h : n ≠ m) :
      (UInt8.ofNat n == UInt8.ofNat m) = false := by
    rw [beq_eq_false_iff_ne, Ne, ← UInt8.toNat_inj, toNat_ofNat_of_lt hn, toNat_ofNat_of_lt hm]
    exact h
  unfold seconds
  -- the four leading bytes after which not every continuation stands
  by_cases e1 : n = 0xE0
  · simp [e1, UInt8.le_iff_toNat_le]
    omega
  by_cases e2 : n = 0xED
  · simp [e2, UInt8.le_iff_toNat_le]
    omega
  by_cases e3 : n = 0xF0
  · simp [e3, UInt8.le_iff_toNat_le]
    omega
  by_cases e4 : n = 0xF4
  · simp [e4, UInt8.le_iff_toNat_le]
    omega
  have d1 : (UInt8.ofNat n == 0xE0) = false := differs 0xE0 (by omega) e1
  have d2 : (UInt8.ofNat n == 0xED) = false := differs 0xED (by omega) e2
  have d3 : (UInt8.ofNat n == 0xF0) = false := differs 0xF0 (by omega) e3
  have d4 : (UInt8.ofNat n == 0xF4) = false := differs 0xF4 (by omega) e4
  simp only [d1, d2, d3, d4, hc, e1, e2, e3, e4, Bool.false_eq_true, if_false, false_implies,
    and_self]

/-! ### Reading one character -/

section

variable {a b c d : UInt8} {r : List UInt8}

lemma next?_one (h : length? a = some 1) : next? (a :: r) = some (Char.ofNat a.toNat, r) := by
  simp only [next?, h]

lemma next?_two (h : length? a = some 2) :
    next? (a :: b :: r) =
      if seconds a b then some (Char.ofNat (a.toNat % 32 * 64 + b.toNat % 64), r) else none := by
  simp only [next?, h]
  rfl

lemma next?_three (h : length? a = some 3) :
    next? (a :: b :: c :: r) =
      if seconds a b && continues c then
        some (Char.ofNat (a.toNat % 16 * 4096 + b.toNat % 64 * 64 + c.toNat % 64), r)
      else none := by
  simp only [next?, h]
  rfl

lemma next?_four (h : length? a = some 4) :
    next? (a :: b :: c :: d :: r) =
      if seconds a b && continues c && continues d then
        some (Char.ofNat (a.toNat % 8 * 262144 + b.toNat % 64 * 4096 + c.toNat % 64 * 64 +
          d.toNat % 64), r)
      else none := by
  simp only [next?, h]
  rfl

end

/-- The numbers of characters leave out the surrogates. -/
lemma toNat_bounds (c : Char) : c.toNat < 0xD800 ∨ 0xDFFF < c.toNat ∧ c.toNat < 0x110000 :=
  c.valid

/-- A character is read back from its bytes, whatever stands after them. -/
lemma next?_encodeChar (c : Char) (r : List UInt8) : next? (encodeChar c ++ r) = some (c, r) := by
  have hb := toNat_bounds c
  have hc : Char.ofNat c.toNat = c := Char.ofNat_toNat c
  generalize hn : c.toNat = n at hb hc
  simp only [encodeChar, hn]
  by_cases h1 : n < 0x80
  · have hl : length? (UInt8.ofNat n) = some 1 := by
      rw [length?_ofNat (by omega), if_pos h1]
    rw [if_pos h1, List.singleton_append, next?_one hl, toNat_ofNat_of_lt (by omega), hc]
  rw [if_neg h1]
  by_cases h2 : n < 0x800
  · have hl : length? (UInt8.ofNat (0xC0 + n / 64)) = some 2 := by
      rw [length?_ofNat (by omega), if_neg (by omega), if_pos (by omega)]
    have hs : seconds (UInt8.ofNat (0xC0 + n / 64)) (UInt8.ofNat (0x80 + n % 64)) = true := by
      rw [seconds_ofNat (by omega) (by omega)]
      omega
    have he : (0xC0 + n / 64) % 32 * 64 + (0x80 + n % 64) % 64 = n := by omega
    rw [if_pos h2, List.cons_append, List.cons_append, List.nil_append, next?_two hl, if_pos hs,
      toNat_ofNat_of_lt (by omega), toNat_ofNat_of_lt (by omega), he, hc]
  rw [if_neg h2]
  by_cases h3 : n < 0x10000
  · have hl : length? (UInt8.ofNat (0xE0 + n / 4096)) = some 3 := by
      rw [length?_ofNat (by omega), if_neg (by omega), if_neg (by omega), if_pos (by omega)]
    -- neither an overlong form nor a surrogate, since `n` is a character of three bytes
    have hs : seconds (UInt8.ofNat (0xE0 + n / 4096)) (UInt8.ofNat (0x80 + n / 64 % 64)) =
        true := by
      rw [seconds_ofNat (by omega) (by omega)]
      omega
    have hk : continues (UInt8.ofNat (0x80 + n % 64)) = true := continues_ofNat (by omega)
    have he : (0xE0 + n / 4096) % 16 * 4096 + (0x80 + n / 64 % 64) % 64 * 64 +
        (0x80 + n % 64) % 64 = n := by omega
    rw [if_pos h3]
    simp only [List.cons_append, List.nil_append]
    rw [next?_three hl, hs, hk, Bool.and_self, if_pos rfl, toNat_ofNat_of_lt (by omega),
      toNat_ofNat_of_lt (by omega), toNat_ofNat_of_lt (by omega), he, hc]
  · have hl : length? (UInt8.ofNat (0xF0 + n / 262144)) = some 4 := by
      rw [length?_ofNat (by omega), if_neg (by omega), if_neg (by omega), if_neg (by omega),
        if_pos (by omega)]
    have hs : seconds (UInt8.ofNat (0xF0 + n / 262144))
        (UInt8.ofNat (0x80 + n / 4096 % 64)) = true := by
      rw [seconds_ofNat (by omega) (by omega)]
      omega
    have hk : continues (UInt8.ofNat (0x80 + n / 64 % 64)) = true := continues_ofNat (by omega)
    have hm : continues (UInt8.ofNat (0x80 + n % 64)) = true := continues_ofNat (by omega)
    have he : (0xF0 + n / 262144) % 8 * 262144 + (0x80 + n / 4096 % 64) % 64 * 4096 +
        (0x80 + n / 64 % 64) % 64 * 64 + (0x80 + n % 64) % 64 = n := by omega
    rw [if_neg h3]
    simp only [List.cons_append, List.nil_append]
    rw [next?_four hl, hs, hk, hm, Bool.and_self, Bool.and_self, if_pos rfl,
      toNat_ofNat_of_lt (by omega), toNat_ofNat_of_lt (by omega), toNat_ofNat_of_lt (by omega),
      toNat_ofNat_of_lt (by omega), he, hc]

/-- What stands after a character does not matter. -/
lemma next?_append {s : List UInt8} {c : Char} {r : List UInt8} (h : next? s = some (c, r))
    (t : List UInt8) : next? (s ++ t) = some (c, r ++ t) := by
  cases s with
  | nil => cases h
  | cons a s =>
    unfold next? at h
    split at h
    · cases h
    · rename_i a' s' he
      cases he
      split at h
      · rename_i hl
        cases h
        exact next?_one hl
      · rename_i b s hl
        split at h
        · rename_i hs
          cases h
          rw [List.cons_append, List.cons_append, next?_two hl, if_pos hs]
          rfl
        · cases h
      · rename_i b c' s hl
        split at h
        · rename_i hs
          cases h
          rw [List.cons_append, List.cons_append, List.cons_append, next?_three hl, if_pos hs]
          rfl
        · cases h
      · rename_i b c' d s hl
        split at h
        · rename_i hs
          cases h
          rw [List.cons_append, List.cons_append, List.cons_append, List.cons_append, next?_four hl,
            if_pos hs]
          rfl
        · cases h
      · cases h

/-- A character is not read from a part of its bytes. -/
lemma next?_part {p q : List UInt8} {c : Char} (h : p ++ q = encodeChar c) (hq : q ≠ []) :
    next? p = none := by
  cases hp : next? p with
  | none => rfl
  | some found =>
    have hc := next?_encodeChar c []
    rw [List.append_nil, ← h, next?_append (c := found.1) (r := found.2) hp] at hc
    simp only [Option.some.injEq, Prod.mk.injEq, List.append_eq_nil_iff] at hc
    exact absurd hc.2.2 hq

lemma length_encodeChar (c : Char) : (encodeChar c).length ≤ 4 := by
  simp only [encodeChar]
  repeat' split
  all_goals simp

lemma mem_encodeChar {c : Char} {b : UInt8} (h : b ∈ encodeChar c) :
    c.toNat < 0x80 ∧ b.toNat = c.toNat ∨ 0x80 ≤ c.toNat ∧ 0x80 ≤ b.toNat := by
  have hc := toNat_bounds c
  simp only [encodeChar] at h
  split at h
  · rw [List.mem_singleton.mp h, toNat_ofNat_of_lt (by omega)]
    exact .inl ⟨by omega, rfl⟩
  have high (n : Nat) (h₁ : 0x80 ≤ n) (h₂ : n < 256) : 0x80 ≤ (UInt8.ofNat n).toNat := by
    rw [toNat_ofNat_of_lt h₂]
    exact h₁
  refine .inr ⟨by omega, ?_⟩
  split at h
  · simp only [List.mem_cons, List.not_mem_nil, or_false] at h
    rcases h with rfl | rfl <;> exact high _ (by omega) (by omega)
  split at h
  · simp only [List.mem_cons, List.not_mem_nil, or_false] at h
    rcases h with rfl | rfl | rfl <;> exact high _ (by omega) (by omega)
  · simp only [List.mem_cons, List.not_mem_nil, or_false] at h
    rcases h with rfl | rfl | rfl | rfl <;> exact high _ (by omega) (by omega)

lemma encodeChar_ne_nil (c : Char) : encodeChar c ≠ [] := by
  simp only [encodeChar]
  repeat' split
  all_goals simp

/-! ### Text -/

lemma encodeChar_of_lt {c : Char} (h : c.toNat < 0x80) : encodeChar c = [UInt8.ofNat c.toNat] :=
  if_pos h

lemma encode_cons (c : Char) (cs : List Char) : encode (c :: cs) = encodeChar c ++ encode cs :=
  List.flatMap_cons

lemma encode_append (a b : List Char) : encode (a ++ b) = encode a ++ encode b :=
  List.flatMap_append

lemma decodeRun_of_some {s : List UInt8} {c : Char} {r : List UInt8} (h : next? s = some (c, r)) :
    decodeRun s = (c :: (decodeRun r).1, (decodeRun r).2) := by
  rw [decodeRun]
  split
  · rename_i hn
    rw [h] at hn
    cases hn
  · rename_i c' r' hn
    rw [h] at hn
    cases hn
    rfl

lemma decodeRun_of_none {s : List UInt8} (h : next? s = none) : decodeRun s = ([], s) := by
  rw [decodeRun]
  split
  · rfl
  · rename_i hn
    rw [h] at hn
    cases hn

/-- Text that is cut anywhere is read up to the character that was cut, of which at most three bytes
are left. -/
lemma decodeRun_part {cs : List Char} {p q : List UInt8} (h : p ++ q = encode cs) :
    ∃ cs₁ cs₂ rest, decodeRun p = (cs₁, rest) ∧ cs = cs₁ ++ cs₂ ∧ rest ++ q = encode cs₂ ∧
      rest.length ≤ 3 ∧ next? rest = none := by
  induction cs generalizing p with
  | nil =>
    obtain ⟨rfl, rfl⟩ := List.append_eq_nil_iff.mp h
    exact ⟨[], [], [], decodeRun_of_none rfl, rfl, rfl, Nat.zero_le 3, rfl⟩
  | cons c cs ih =>
    have hcut := h
    rw [encode_cons] at hcut
    rcases List.append_eq_append_iff.mp hcut with ⟨m, hc, hq⟩ | ⟨m, hp, hm⟩
    · -- the cut is within the first character, or right after it
      by_cases hm : m = []
      · subst hm
        rw [List.append_nil] at hc
        rw [List.nil_append] at hq
        have hn : next? p = some (c, []) := by
          rw [← hc]
          simpa using next?_encodeChar c []
        refine ⟨[c], cs, [], ?_, rfl, hq, Nat.zero_le 3, rfl⟩
        rw [decodeRun_of_some hn, decodeRun_of_none rfl]
      · have hn := next?_part hc.symm hm
        refine ⟨[], c :: cs, p, decodeRun_of_none hn, rfl, h, ?_, hn⟩
        have hlen := length_encodeChar c
        rw [hc, List.length_append] at hlen
        have := List.length_pos_iff.mpr hm
        omega
    · obtain ⟨cs₁, cs₂, rest, hd, hcs, hr, hlen, hn⟩ := ih hm.symm
      have hp' : next? p = some (c, m) := by
        rw [hp]
        exact next?_encodeChar c m
      refine ⟨c :: cs₁, cs₂, rest, ?_, by rw [hcs]; rfl, hr, hlen, hn⟩
      rw [decodeRun_of_some hp', hd]

/-- Where no character can be read there is no text. -/
lemma eq_nil_of_next?_encode {cs : List Char} (h : next? (encode cs) = none) : cs = [] := by
  cases cs with
  | nil => rfl
  | cons c cs =>
    rw [encode_cons, next?_encodeChar] at h
    cases h

/-- A text is cut in one way only after a number of bytes. -/
lemma append_inj {a b c d : List Char} (hl : (encode a).length = (encode b).length)
    (h : a ++ c = b ++ d) : a = b ∧ c = d := by
  -- characters take bytes, so texts of one length are cut at one place
  have no_bytes {cs : List Char} (h : (encode cs).length = 0) : cs = [] := by
    apply eq_nil_of_next?_encode
    rw [List.length_eq_zero_iff.mp h]
    rfl
  rcases List.append_eq_append_iff.mp h with ⟨e, rfl, rfl⟩ | ⟨e, rfl, rfl⟩
  · rw [encode_append, List.length_append] at hl
    rw [no_bytes (by omega : (encode e).length = 0)]
    simp
  · rw [encode_append, List.length_append] at hl
    rw [no_bytes (by omega : (encode e).length = 0)]
    simp

/-- Text is read back from its bytes. -/
theorem decode?_encode (cs : List Char) : decode? (encode cs) = some cs := by
  obtain ⟨cs₁, cs₂, rest, hd, hcs, hr, -, hn⟩ := decodeRun_part (List.append_nil (encode cs))
  rw [List.append_nil] at hr
  subst hr
  obtain rfl := eq_nil_of_next?_encode hn
  rw [decode?, hd, hcs, List.append_nil]
  rfl

/-! ### Reading is exact -/

lemma toNat_charOfNat {n : Nat} (h : n < 0xD800 ∨ 0xDFFF < n ∧ n < 0x110000) :
    (Char.ofNat n).toNat = n := by
  have valid : n.isValidChar := h
  rw [Char.ofNat, dif_pos valid]
  rfl

lemma length?_cases {b : UInt8} {n : Nat} (h : length? b = some n) :
    (n = 1 ∧ b.toNat < 0x80) ∨ (n = 2 ∧ 0xC2 ≤ b.toNat ∧ b.toNat ≤ 0xDF) ∨
      (n = 3 ∧ 0xE0 ≤ b.toNat ∧ b.toNat ≤ 0xEF) ∨
      (n = 4 ∧ 0xF0 ≤ b.toNat ∧ b.toNat ≤ 0xF4) := by
  have hb := length?_ofNat b.toNat_lt
  rw [UInt8.ofNat_toNat, h] at hb
  split_ifs at hb <;> cases hb <;> omega

lemma continues_bounds {b : UInt8} (h : continues b = true) :
    0x80 ≤ b.toNat ∧ b.toNat ≤ 0xBF := by
  simpa [continues, UInt8.le_iff_toNat_le] using h

lemma seconds_bounds {a b : UInt8} (h : seconds a b = true) :
    0x80 ≤ b.toNat ∧ b.toNat ≤ 0xBF ∧ (a.toNat = 0xE0 → 0xA0 ≤ b.toNat) ∧
      (a.toNat = 0xED → b.toNat < 0xA0) ∧ (a.toNat = 0xF0 → 0x90 ≤ b.toNat) ∧
      (a.toNat = 0xF4 → b.toNat < 0x90) := by
  have hc : 0x80 ≤ b.toNat ∧ b.toNat ≤ 0xBF := by
    unfold seconds at h
    split_ifs at h <;> simp [continues, UInt8.le_iff_toNat_le] at h <;> omega
  have hb : b = UInt8.ofNat (0x80 + (b.toNat - 0x80)) := by
    rw [Nat.add_sub_cancel' hc.1, UInt8.ofNat_toNat]
  rw [← UInt8.ofNat_toNat (x := a), hb, seconds_ofNat a.toNat_lt (by omega)] at h
  omega

/-- What was read as a character is its bytes. -/
lemma eq_of_next? {s : List UInt8} {c : Char} {r : List UInt8} (h : next? s = some (c, r)) :
    s = encodeChar c ++ r := by
  have same {b : UInt8} {n : Nat} (hn : n = b.toNat) : UInt8.ofNat n = b := by
    rw [hn, UInt8.ofNat_toNat]
  cases s with
  | nil => cases h
  | cons a s =>
    unfold next? at h
    split at h
    · cases h
    · rename_i he
      cases he
      split at h
      · rename_i hl
        have ha := length?_cases hl
        cases h
        rw [encodeChar, toNat_charOfNat (by omega)]
        rw [if_pos (by omega), same rfl]
        rfl
      · rename_i b s hl
        have ha := length?_cases hl
        split at h
        · rename_i hs
          have hb := seconds_bounds hs
          cases h
          change _ = encodeChar (Char.ofNat (a.toNat % 32 * 64 + b.toNat % 64)) ++ _
          rw [encodeChar, toNat_charOfNat (by omega)]
          rw [if_neg (by omega), if_pos (by omega), same (b := a) (by omega), same (b := b) (by omega)]
          rfl
        · cases h
      · rename_i b c' s hl
        have ha := length?_cases hl
        split at h
        · rename_i hs
          rw [Bool.and_eq_true] at hs
          have hb := seconds_bounds hs.1
          have hc := continues_bounds hs.2
          cases h
          change _ = encodeChar
            (Char.ofNat (a.toNat % 16 * 4096 + b.toNat % 64 * 64 + c'.toNat % 64)) ++ _
          rw [encodeChar, toNat_charOfNat (by omega)]
          rw [if_neg (by omega), if_neg (by omega), if_pos (by omega), same (b := a) (by omega),
            same (b := b) (by omega), same (b := c') (by omega)]
          rfl
        · cases h
      · rename_i b c' d s hl
        have ha := length?_cases hl
        split at h
        · rename_i hs
          rw [Bool.and_eq_true, Bool.and_eq_true] at hs
          have hb := seconds_bounds hs.1.1
          have hc := continues_bounds hs.1.2
          have hd := continues_bounds hs.2
          cases h
          change _ = encodeChar (Char.ofNat
            (a.toNat % 8 * 262144 + b.toNat % 64 * 4096 + c'.toNat % 64 * 64 + d.toNat % 64)) ++ _
          rw [encodeChar, toNat_charOfNat (by omega)]
          rw [if_neg (by omega), if_neg (by omega), if_neg (by omega), same (b := a) (by omega),
            same (b := b) (by omega), same (b := c') (by omega), same (b := d) (by omega)]
          rfl
        · cases h
      · cases h

/-- What was read as a run of characters is their bytes. -/
lemma eq_of_decodeRun {s : List UInt8} {cs : List Char} {r : List UInt8}
    (h : decodeRun s = (cs, r)) : s = encode cs ++ r := by
  induction hl : s.length using Nat.strongRecOn generalizing s cs with
  | ind len ih =>
    subst hl
    cases hn : next? s with
    | none =>
      rw [decodeRun_of_none hn] at h
      cases h
      rfl
    | some found =>
      obtain ⟨c, t⟩ := found
      rw [decodeRun_of_some hn] at h
      cases h
      rw [eq_of_next? hn, encode_cons, List.append_assoc, ← ih _ (next?_length hn) rfl rfl]

end OnceProxy.Text.Utf8
