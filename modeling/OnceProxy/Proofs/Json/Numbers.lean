import Mathlib.Algebra.Order.Field.Rat
import Mathlib.Tactic.NormNum
import OnceProxy.Json.Reader
import OnceProxy.Proofs.Input
import OnceProxy.Proofs.Text.Utf8

/-!
# Numbers in JSON texts

Number literals and their exact values. The reader takes whole literals. It finds the value of an
integer literal from `-2 ^ 63` up to `2 ^ 64`, but makes a float of minus zero.
-/

namespace OnceProxy.Json

/-- No byte with the property comes first. -/
def Stops (p : UInt8 → Bool) (s : List UInt8) : Prop := ∀ b ∈ s.head?, p b = false

/-- The number before another digit, with that digit. -/
def addDigit (n : Nat) (b : UInt8) : Nat := 10 * n + digit b

/-- The number that digits write, highest first. -/
def ofDigits (s : List UInt8) : Nat := s.foldl addDigit 0

/-- The mark before an exponent. -/
def isMark (b : UInt8) : Bool := b == 101 || b == 69

/-- The sign of an exponent. -/
def isSign (b : UInt8) : Bool := b == 43 || b == 45

/-- The exponent of a number, from its mark on. -/
@[ext]
structure Exponent where
  mark : UInt8
  sign : Option UInt8
  digits : List UInt8
  isMark_mark : isMark mark
  isSign_sign : ∀ b ∈ sign, isSign b
  isDigit_digits : ∀ b ∈ digits, isDigit b
  digits_ne_nil : digits ≠ []

namespace Exponent

/-- The bytes of an exponent. -/
def text (e : Exponent) : List UInt8 := e.mark :: e.sign.toList ++ e.digits

/-- The power of ten that an exponent stands for. -/
def value (e : Exponent) : ℤ := if e.sign = some 45 then -ofDigits e.digits else ofDigits e.digits

end Exponent

/-- A number as it is written. Where no digits follow a point there is no point. -/
@[ext]
structure Literal where
  negative : Bool
  whole : List UInt8
  fraction : List UInt8
  exponent : Option Exponent
  isDigit_whole : ∀ b ∈ whole, isDigit b
  whole_ne_nil : whole ≠ []
  eq_zero_of_leading : whole.head? = some 48 → whole = [48]
  isDigit_fraction : ∀ b ∈ fraction, isDigit b

namespace Literal

/-- The bytes of a number after its whole digits. -/
def tail (l : Literal) : List UInt8 :=
  (if l.fraction = [] then [] else [46]) ++ (l.fraction ++ l.exponent.elim [] Exponent.text)

/-- The bytes of a number. -/
def text (l : Literal) : List UInt8 := (if l.negative then [45] else []) ++ (l.whole ++ l.tail)

/-- The number that a literal stands for. -/
def value (l : Literal) : ℚ :=
  (if l.negative then -1 else 1) * ofDigits (l.whole ++ l.fraction) *
    10 ^ (l.exponent.elim 0 Exponent.value - l.fraction.length)

/-- A number without point and exponent. -/
def IsInteger (l : Literal) : Prop := l.fraction = [] ∧ l.exponent = none

/-- The whole part of a number, with its sign. -/
def integer (l : Literal) : ℤ := if l.negative then -ofDigits l.whole else ofDigits l.whole

/-- What stands after a number does not go on with it. -/
def Ends (l : Literal) (r : List UInt8) : Prop :=
  Stops isDigit r ∧
    (l.exponent = none → Stops isMark r ∧ (l.fraction = [] → Stops (· == 46) r))

lemma IsInteger.value_eq {l : Literal} (h : l.IsInteger) : l.value = l.integer := by
  obtain ⟨hf, he⟩ := h
  simp only [value, integer, hf, he, List.append_nil]
  cases l.negative <;> simp

end Literal

/-- The integers that a value holds as integers. -/
def InRange (n : ℤ) : Prop := -0x8000000000000000 ≤ n ∧ n < wordLimit

/-- What a number is read as. -/
inductive Literal.Reads (l : Literal) : Value → Prop
  | integer : l.IsInteger → InRange l.integer → (l.negative → l.integer ≠ 0) →
      l.Reads (.integer l.integer)
  | minusZero : l.IsInteger → l.negative → l.integer = 0 → l.Reads (.float (Binary64.ofInt 0).neg)
  | float {x : Binary64} : ¬ (l.IsInteger ∧ InRange l.integer) → l.Reads (.float x)

/-! ### Where runs of bytes end -/

section

variable {p : UInt8 → Bool} {a b r s : List UInt8}

lemma Stops.takeWhile_append (hr : Stops p r) (ha : ∀ c ∈ a, p c) :
    (a ++ r).takeWhile p = a ∧ (a ++ r).dropWhile p = r := by
  rw [List.takeWhile_append_of_pos ha, List.dropWhile_append_of_pos ha]
  cases r with
  | nil => simp
  | cons c r => simp [hr c rfl]

lemma Stops.dropWhile_eq (hr : Stops p r) : r.dropWhile p = r :=
  (hr.takeWhile_append (a := []) nofun).2

/-- A run of bytes is known with what stands after it. -/
lemma Stops.append_inj (hr : Stops p r) (ha : ∀ c ∈ a, p c) (hb : ∀ c ∈ b, p c) (hs : Stops p s)
    (h : a ++ r = b ++ s) : a = b ∧ r = s := by
  obtain ⟨ha, hr⟩ := hr.takeWhile_append ha
  obtain ⟨hb, hs⟩ := hs.takeWhile_append hb
  rw [h] at ha hr
  exact ⟨ha.symm.trans hb, hr.symm.trans hs⟩

lemma stops_dropWhile (p : UInt8 → Bool) (s : List UInt8) : Stops p (s.dropWhile p) := by
  intro b hb
  have := List.head?_dropWhile_not p s
  rw [hb] at this
  simpa using this

lemma not_atDigit {i : Input} (h : ¬ atDigit i = true) : Stops isDigit i.rest := by
  intro b hb
  simp only [atDigit, Input.next?] at h
  rw [hb] at h
  simpa using h

end

/-! ### One way to write a literal -/

lemma isDigit_iff {b : UInt8} : isDigit b = true ↔ 48 ≤ b.toNat ∧ b.toNat ≤ 57 := by
  simp [isDigit, UInt8.le_iff_toNat_le]

lemma not_isDigit {b c : UInt8} (h : c.toNat < 48 ∨ 57 < c.toNat) (hb : isDigit b) :
    (b == c) = false := by
  rw [beq_eq_false_iff_ne]
  rintro rfl
  have := isDigit_iff.mp hb
  omega

lemma isSign_of_isDigit {b : UInt8} (h : isDigit b) : isSign b = false := by
  simp only [isSign, not_isDigit (c := 43) (by decide) h, not_isDigit (c := 45) (by decide) h,
    Bool.or_self]

/-- A run of digits starts with no byte that a digit is not. -/
lemma stops_digits {p : UInt8 → Bool} {s r : List UInt8} (hp : ∀ b, isDigit b → p b = false)
    (hs : ∀ b ∈ s, isDigit b) (hn : s ≠ []) : Stops p (s ++ r) := by
  obtain ⟨c, cs, rfl⟩ := List.exists_cons_of_ne_nil hn
  intro b hb
  cases hb
  exact hp c (hs c (List.mem_cons_self ..))

lemma Exponent.text_append_inj {d e : Exponent} {r s : List UInt8} (h : d.text ++ r = e.text ++ s)
    (hr : Stops isDigit r) (hs : Stops isDigit s) : d = e ∧ r = s := by
  have sign (e : Exponent) : ∀ b ∈ e.sign.toList, isSign b := by
    simpa using e.isSign_sign
  have digits (e : Exponent) (r : List UInt8) : Stops isSign (e.digits ++ r) :=
    stops_digits (fun _ => isSign_of_isDigit) e.isDigit_digits e.digits_ne_nil
  simp only [text, List.cons_append, List.append_assoc, List.cons.injEq] at h
  obtain ⟨hm, h⟩ := h
  -- each part ends where the next byte is not of its kind, so it is cut off the same way
  obtain ⟨hsign, h⟩ := (digits d r).append_inj (sign d) (sign e) (digits e s) h
  obtain ⟨hdigits, h⟩ := hr.append_inj d.isDigit_digits e.isDigit_digits hs h
  have hsign : d.sign = e.sign := by
    simpa using congrArg List.head? hsign
  exact ⟨Exponent.ext hm hsign hdigits, h⟩

namespace Literal

variable {l m : Literal} {r s : List UInt8}

lemma stops_exponent {p : UInt8 → Bool} (hp : ∀ b, isMark b → p b = false)
    (hr : l.exponent = none → Stops p r) : Stops p (l.exponent.elim [] Exponent.text ++ r) := by
  cases he : l.exponent with
  | none => exact hr he
  | some e =>
    intro b hb
    cases hb
    exact hp _ e.isMark_mark

lemma mark_cases {b : UInt8} (h : isMark b) : b = 101 ∨ b = 69 := by
  simpa [isMark] using h

lemma Ends.stops_fraction (h : l.Ends r) :
    Stops (· == 46) (l.fraction ++ (l.exponent.elim [] Exponent.text ++ r)) := by
  by_cases hf : l.fraction = []
  · rw [hf, List.nil_append]
    refine stops_exponent (fun b hb => ?_) fun he => (h.2 he).2 hf
    rcases mark_cases hb with rfl | rfl <;> rfl
  · exact stops_digits (fun b => not_isDigit (by decide)) l.isDigit_fraction hf

lemma Ends.stops_scale (h : l.Ends r) :
    Stops isDigit (l.exponent.elim [] Exponent.text ++ r) := by
  refine stops_exponent (fun b hb => ?_) fun _ => h.1
  rcases mark_cases hb with rfl | rfl <;> rfl

lemma Ends.stops_tail (h : l.Ends r) : Stops isDigit (l.tail ++ r) := by
  unfold tail
  split
  · rename_i hf
    rw [hf, List.nil_append, List.nil_append]
    exact h.stops_scale
  · intro b hb
    cases hb
    rfl

lemma Ends.exponent_eq (hr : l.Ends r) (hs : m.Ends s)
    (h : l.exponent.elim [] Exponent.text ++ r = m.exponent.elim [] Exponent.text ++ s) :
    l.exponent = m.exponent ∧ r = s := by
  -- what stands after a literal without exponent starts with no mark
  have marked {l : Literal} {r s : List UInt8} (hr : l.Ends r) (hl : l.exponent = none)
      (e : Exponent) (h : r = e.text ++ s) : False := by
    have hm := (hr.2 hl).1 e.mark (by rw [h]; rfl)
    rw [e.isMark_mark] at hm
    cases hm
  cases hl : l.exponent with
  | none =>
    cases hm : m.exponent with
    | none =>
      rw [hl, hm] at h
      exact ⟨rfl, h⟩
    | some e =>
      rw [hl, hm] at h
      exact (marked hr hl e h).elim
  | some d =>
    cases hm : m.exponent with
    | none =>
      rw [hl, hm] at h
      exact (marked hs hm d h.symm).elim
    | some e =>
      rw [hl, hm] at h
      obtain ⟨rfl, hrs⟩ := Exponent.text_append_inj h hr.1 hs.1
      exact ⟨rfl, hrs⟩

/-- A literal is known from its bytes and what stands after them. -/
lemma text_append_inj (h : l.text ++ r = m.text ++ s) (hr : l.Ends r) (hs : m.Ends s) :
    l = m ∧ r = s := by
  have sign (l : Literal) : ∀ b ∈ (if l.negative then [45] else []), (b == (45 : UInt8)) := by
    cases l.negative <;> simp
  have whole (l : Literal) (r : List UInt8) : Stops (· == 45) (l.whole ++ (l.tail ++ r)) :=
    stops_digits (fun b => not_isDigit (by decide)) l.isDigit_whole l.whole_ne_nil
  have point (l : Literal) : ∀ b ∈ (if l.fraction = [] then [] else [46]), (b == (46 : UInt8)) := by
    by_cases hf : l.fraction = [] <;> simp [hf]
  simp only [text, List.append_assoc] at h
  -- from left to right, the sign, the whole digits, the point, the fraction and the exponent
  obtain ⟨hn, h⟩ := (whole l r).append_inj (sign l) (sign m) (whole m s) h
  obtain ⟨hw, h⟩ := hr.stops_tail.append_inj l.isDigit_whole m.isDigit_whole hs.stops_tail h
  simp only [tail, List.append_assoc] at h
  obtain ⟨-, h⟩ := hr.stops_fraction.append_inj (point l) (point m) hs.stops_fraction h
  obtain ⟨hf, h⟩ := hr.stops_scale.append_inj l.isDigit_fraction m.isDigit_fraction hs.stops_scale h
  have hn : l.negative = m.negative := by
    cases hl : l.negative <;> cases hm : m.negative <;> simp_all
  obtain ⟨he, h⟩ := hr.exponent_eq hs h
  exact ⟨Literal.ext hn hw hf he, h⟩

end Literal

/-! ### Reading numbers -/

lemma le_foldl_addDigit (s : List UInt8) (n : Nat) : n ≤ s.foldl addDigit n := by
  induction s generalizing n with
  | nil => exact Nat.le_refl n
  | cons b s ih =>
    have := ih (addDigit n b)
    simp only [addDigit, List.foldl_cons] at *
    omega

/-- Digits are taken to the last, or up to one that would carry the number too far. -/
lemma takeDigits_cases {n : Nat} (hn : n < wordLimit) (s : List UInt8) :
    ∃ a t, s = a ++ t ∧ (∀ b ∈ a, isDigit b) ∧ takeDigits n s = (a.foldl addDigit n, a.length) ∧
      a.foldl addDigit n < wordLimit ∧
      (¬ Stops isDigit t → wordLimit ≤ (a ++ t.takeWhile isDigit).foldl addDigit n) := by
  induction s generalizing n with
  | nil => exact ⟨[], [], rfl, nofun, rfl, hn, fun h => (h nofun).elim⟩
  | cons b s ih =>
    by_cases hb : isDigit b ∧ 10 * n + digit b < wordLimit
    · obtain ⟨a, t, rfl, ha, hr, hl⟩ := ih hb.2
      refine ⟨b :: a, t, rfl, List.forall_mem_cons.mpr ⟨hb.1, ha⟩, ?_, hl⟩
      rw [takeDigits, if_pos hb, hr]
      rfl
    · -- stops at a byte that is no digit, or at the digit that would pass the word
      refine ⟨[], b :: s, rfl, nofun, by rw [takeDigits, if_neg hb]; rfl, hn, fun h => ?_⟩
      have hd : isDigit b := by
        by_contra hd
        exact h fun c hc => by cases hc; simpa using hd
      have hlimit : wordLimit ≤ addDigit n b := by
        simp only [hd, true_and, not_lt] at hb
        exact hb
      rw [List.nil_append, List.takeWhile_cons, if_pos hd, List.foldl_cons]
      exact hlimit.trans (le_foldl_addDigit _ _)

/-- The digits of an integer that is small enough are all taken. -/
lemma takeDigits_append {a r : List UInt8} {n : Nat} (ha : ∀ b ∈ a, isDigit b)
    (hr : Stops isDigit r) (hn : a.foldl addDigit n < wordLimit) :
    takeDigits n (a ++ r) = (a.foldl addDigit n, a.length) := by
  have hlt := (le_foldl_addDigit a n).trans_lt hn
  obtain ⟨b, t, hs, hb, hd, -, hl⟩ := takeDigits_cases hlt (a ++ r)
  have whole := hr.takeWhile_append ha
  by_cases ht : Stops isDigit t
  · rw [hd, (hr.append_inj ha hb ht hs).1]
  · have := hl ht
    rw [← List.takeWhile_append_of_pos hb, ← hs, whole.1] at this
    omega

lemma floatValue_cases {negative : Bool} {n : Nat} {e : Int} {i j : Input} {v : Value}
    (h : floatValue negative n e i = .ok (v, j)) : (∃ x, v = .float x) ∧ i = j := by
  unfold floatValue at h
  split at h
  · cases h
    exact ⟨⟨_, rfl⟩, rfl⟩
  · cases h

lemma rest_skipWhile (p : UInt8 → Bool) (i : Input) : (skipWhile p i).rest = i.rest.dropWhile p :=
  Input.rest_skip_takeWhile p i

lemma isDigit_append_takeWhile {a : List UInt8} (ha : ∀ b ∈ a, isDigit b) (t : List UInt8) :
    ∀ b ∈ a ++ t.takeWhile isDigit, isDigit b :=
  List.forall_mem_append.mpr ⟨ha, fun b => List.all_eq_true.mp List.all_takeWhile b⟩

lemma takeExponent_cases (n : Nat) (s : List UInt8) :
    ∃ a t, s = a ++ t ∧ (∀ b ∈ a, isDigit b) ∧ (takeExponent n s).2 = a.length := by
  induction s generalizing n with
  | nil => exact ⟨[], [], rfl, nofun, rfl⟩
  | cons b s ih =>
    by_cases hb : isDigit b ∧ 10 * n + digit b < 0x80000000
    · obtain ⟨a, t, rfl, ha, hr⟩ := ih (10 * n + digit b)
      refine ⟨b :: a, t, rfl, List.forall_mem_cons.mpr ⟨hb.1, ha⟩, ?_⟩
      rw [takeExponent, if_pos hb]
      simp [hr]
    · exact ⟨[], b :: s, rfl, nofun, by rw [takeExponent, if_neg hb]; rfl⟩

lemma sign_of_skip (i : Input) :
    ∃ sign : Option UInt8, (∀ b ∈ sign, isSign b) ∧
      i.rest = sign.toList ++
        (if i.next? == some 43 || i.next? == some 45 then i.skip 1 else i).rest := by
  split
  · rename_i h
    rcases Bool.or_eq_true_iff.mp h with h | h
    · refine ⟨some 43, by simp [isSign], ?_⟩
      exact Input.rest_of_next? (eq_of_beq h)
    · refine ⟨some 45, by simp [isSign], ?_⟩
      exact Input.rest_of_next? (eq_of_beq h)
  · exact ⟨none, nofun, rfl⟩

lemma ne_nil_of_next? {i : Input} {b : UInt8} {a r : List UInt8} (hi : i.next? = some b)
    (hb : isDigit b) (h : i.rest = a ++ r) (hr : Stops isDigit r) : a ≠ [] := by
  rintro rfl
  rw [List.nil_append] at h
  have := hr b (by rw [← h]; exact hi)
  rw [hb] at this
  cases this

lemma exponent_of_read {negative : Bool} {n : Nat} {e : Int} {i j : Input} {v : Value} {b : UInt8}
    (h : readExponent negative n e i = .ok (v, j)) (hi : i.next? = some b) (hb : isMark b) :
    ∃ e : Exponent, i.rest = e.text ++ j.rest ∧ Stops isDigit j.rest ∧ ∃ x, v = .float x := by
  unfold readExponent at h
  simp only at h
  obtain ⟨sign, hsign, hskip⟩ := sign_of_skip (i.skip 1)
  generalize (if (i.skip 1).next? == some 43 || (i.skip 1).next? == some 45 then (i.skip 1).skip 1
    else i.skip 1) = i₂ at h hskip
  split at h
  · cases h
  rename_i c hc
  split at h
  · cases h
  rename_i hdigit
  -- an exponent too large to count is skipped to its last digit
  obtain ⟨a, t, hs, ha, hk⟩ := takeExponent_cases 0 i₂.rest
  have hj : (i₂.skip (takeExponent 0 i₂.rest).2).rest = t := by
    rw [hk]
    exact Input.rest_skip_length hs
  -- the digits, with those that are taken and those that are skipped
  have digits : ∃ ds, i₂.rest = ds ++ j.rest ∧ (∀ b ∈ ds, isDigit b) ∧ Stops isDigit j.rest ∧
      ∃ x, v = .float x := by
    split at h
    · split at h
      · cases h
      · cases h
        rw [rest_skipWhile, hj]
        refine ⟨a ++ t.takeWhile isDigit, ?_, ?_, stops_dropWhile isDigit t, _, rfl⟩
        · rw [hs, List.append_assoc, List.takeWhile_append_dropWhile]
        · exact isDigit_append_takeWhile ha t
    · rename_i hstop
      obtain ⟨hx, rfl⟩ := floatValue_cases h
      exact ⟨a, by rw [hj, hs], ha, not_atDigit hstop, hx⟩
  obtain ⟨ds, hds, hd, hr, hx⟩ := digits
  have hn : ds ≠ [] := ne_nil_of_next? hc (by simpa using hdigit) hds hr
  refine ⟨⟨b, sign, ds, hb, hsign, hd, hn⟩, ?_, hr, hx⟩
  rw [Input.rest_of_next? hi, hskip, hds]
  simp [Exponent.text]

/-- Without a mark there is no exponent. -/
lemma stops_isMark {i : Input} (h₁ : i.next? ≠ some 101) (h₂ : i.next? ≠ some 69) :
    Stops isMark i.rest := by
  intro b hb
  rw [isMark, beq_eq_false_iff_ne.mpr, beq_eq_false_iff_ne.mpr, Bool.or_self]
  · rintro rfl
    exact h₂ hb
  · rintro rfl
    exact h₁ hb

lemma scale_of_read {negative : Bool} {n : Nat} {e : Int} {i j : Input} {v : Value}
    (h : readScale negative n e i = .ok (v, j)) (hi : Stops isDigit i.rest) :
    ∃ e : Option Exponent, i.rest = e.elim [] Exponent.text ++ j.rest ∧ Stops isDigit j.rest ∧
      (e = none → Stops isMark j.rest) ∧ ∃ x, v = .float x := by
  unfold readScale at h
  split at h
  case h_3 h₁ h₂ =>
    obtain ⟨hx, rfl⟩ := floatValue_cases h
    exact ⟨none, rfl, hi, fun _ => stops_isMark h₁ h₂, hx⟩
  all_goals
    rename_i hi
    obtain ⟨e, he, hr, hx⟩ := exponent_of_read h hi rfl
    exact ⟨some e, he, hr, nofun, hx⟩

lemma fraction_of_read {negative : Bool} {n : Nat} {e : Int} {i j : Input} {v : Value}
    (h : readFraction negative n e i = .ok (v, j)) (hn : n < wordLimit) (hi : i.next? = some 46) :
    ∃ (fraction : List UInt8) (e : Option Exponent), fraction ≠ [] ∧ (∀ b ∈ fraction, isDigit b) ∧
      i.rest = 46 :: fraction ++ e.elim [] Exponent.text ++ j.rest ∧ Stops isDigit j.rest ∧
      (e = none → Stops isMark j.rest) ∧ ∃ x, v = .float x := by
  unfold readFraction at h
  obtain ⟨a, t, hs, ha, hd, -⟩ := takeDigits_cases hn (i.skip 1).rest
  simp only [hd] at h
  have hj : ((i.skip 1).skip a.length).rest = t := Input.rest_skip_length hs
  rw [Input.rest_of_next? hi, hs]
  split at h
  · -- a digit is left, for the next one would not fit the word: the reader skips the others
    rename_i hdigit
    obtain ⟨e, he, hr⟩ := scale_of_read h (by rw [rest_skipWhile]; exact stops_dropWhile _ _)
    rw [rest_skipWhile, hj] at he
    refine ⟨a ++ t.takeWhile isDigit, e, ?_, ?_, ?_, hr⟩
    · obtain ⟨b, hb, hbd⟩ := (Option.any_eq_true ..).mp hdigit
      have hn := ne_nil_of_next? hb hbd (List.takeWhile_append_dropWhile).symm (stops_dropWhile _ _)
      rw [hj] at hn
      exact List.append_ne_nil_of_right_ne_nil _ hn
    · exact isDigit_append_takeWhile ha t
    · rw [List.cons_append, List.cons_append, List.append_assoc, ← he, List.append_assoc,
        List.takeWhile_append_dropWhile]
  · rename_i hstop
    split at h
    · cases h
    · rename_i hk
      obtain ⟨e, he, hr⟩ := scale_of_read h (not_atDigit hstop)
      rw [hj] at he
      refine ⟨a, e, List.length_eq_zero_iff.not.mp hk, ha, ?_, hr⟩
      rw [he, List.cons_append, List.cons_append, List.append_assoc]

lemma offset_skipWhile (p : UInt8 → Bool) (i : Input) :
    (skipWhile p i).offset - i.offset = (i.rest.takeWhile p).length :=
  Nat.add_sub_cancel_left ..

lemma takeWhile_eq_nil_iff_stops {p : UInt8 → Bool} {s : List UInt8} :
    s.takeWhile p = [] ↔ Stops p s := by
  cases s with
  | nil => simp [Stops]
  | cons b s => simp [Stops, List.takeWhile_cons]

/-- The whole digits of a number are read to the last. If any is dropped, they write `2 ^ 64` or
more. -/
lemma whole_of_read {i : Input} {b : UInt8} (hi : i.next? = some b) (hb : isDigit b) {n k : Nat}
    (hk : (if b = 48 then (0, 1) else takeDigits 0 i.rest) = (n, k))
    (hz : ¬ (b = 48 ∧ atDigit (i.skip k))) :
    n < wordLimit ∧ ∃ whole, i.rest = whole ++ (skipWhile isDigit (i.skip k)).rest ∧
      (∀ c ∈ whole, isDigit c) ∧ (whole.head? = some 48 → whole = [48]) ∧
      if (skipWhile isDigit (i.skip k)).offset - (i.skip k).offset = 0 then n = ofDigits whole
      else wordLimit ≤ ofDigits whole := by
  rw [offset_skipWhile, rest_skipWhile]
  -- a leading zero is the whole number, and the reader refuses a digit after it
  by_cases hb' : b = 48
  · subst hb'
    cases hk
    have hstop : Stops isDigit (i.skip 1).rest := not_atDigit fun h => hz ⟨rfl, h⟩
    have hnil := takeWhile_eq_nil_iff_stops.mpr hstop
    refine ⟨by decide, [48], ?_, by simp [isDigit], fun _ => rfl, ?_⟩
    · rw [hstop.dropWhile_eq]
      exact Input.rest_of_next? hi
    · rw [if_pos (by rw [hnil]; rfl)]
      rfl
  · rw [if_neg hb'] at hk
    obtain ⟨a, t, hs, ha, hd, hlt, hl⟩ := takeDigits_cases (n := 0) (by decide) i.rest
    rw [hd] at hk
    cases hk
    have hj : (i.skip a.length).rest = t := Input.rest_skip_length hs
    have hrest : i.rest = (a ++ t.takeWhile isDigit) ++ t.dropWhile isDigit := by
      rw [hs, List.append_assoc, List.takeWhile_append_dropWhile]
    rw [hj]
    refine ⟨hlt, a ++ t.takeWhile isDigit, hrest, ?_, fun hhead => ?_, ?_⟩
    · exact isDigit_append_takeWhile ha t
    · have : i.next? = some 48 := by rw [Input.next?, hrest, List.head?_append, hhead]; rfl
      rw [hi] at this
      cases this
      exact absurd rfl hb'
    · -- no digit skipped means that the word holds them all
      split
      · rename_i hnil
        rw [List.length_eq_zero_iff.mp hnil, List.append_nil]
        rfl
      · rename_i hnil
        exact hl fun hstop => hnil (by rw [takeWhile_eq_nil_iff_stops.mpr hstop]; rfl)

/-- An integer literal below `2 ^ 64` is read as its value, where a value holds it. -/
lemma Literal.IsInteger.reads {l : Literal} (h : l.IsInteger) (hn : ofDigits l.whole < wordLimit) :
    l.Reads (integerValue l.negative (ofDigits l.whole)) := by
  have integer : l.integer = if l.negative then -(ofDigits l.whole : ℤ) else ofDigits l.whole := rfl
  unfold integerValue
  cases hl : l.negative with
  | false =>
    rw [hl, if_neg Bool.false_ne_true] at integer
    rw [← integer]
    refine .integer h ?_ (by rw [hl]; nofun)
    rw [integer]
    exact ⟨by omega, by omega⟩
  | true =>
    rw [hl, if_pos rfl] at integer
    simp only [Bool.not_true, Bool.false_eq_true, if_false]
    split
    · -- negative numbers go down to the least signed word; `-0` and those below it become floats
      rw [← integer]
      exact .integer h (by rw [integer]; exact ⟨by omega, by omega⟩) fun _ => by omega
    · by_cases hz : ofDigits l.whole = 0
      · rw [hz]
        exact .minusZero h hl (by omega)
      · refine .float fun hr => ?_
        have := hr.2.1
        omega

lemma Literal.not_inRange {l : Literal} (h : wordLimit ≤ ofDigits l.whole) :
    ¬ InRange l.integer := by
  simp only [InRange, Literal.integer, wordLimit] at *
  split <;> omega

/-- What is read as a number is a literal there. -/
lemma number_of_read {negative : Bool} {i j : Input} {v : Value}
    (h : readNumber negative i = .ok (v, j)) :
    ∃ l : Literal, l.negative = negative ∧ i.rest = l.whole ++ l.tail ++ j.rest ∧ l.Ends j.rest ∧
      l.Reads v := by
  unfold readNumber at h
  split at h
  · cases h
  rename_i b hi
  split at h
  · cases h
  rename_i hb
  have hb : isDigit b := by simpa using hb
  generalize hk : (if b = 48 then (0, 1) else takeDigits 0 i.rest) = p at h
  obtain ⟨n, k⟩ := p
  simp only at h
  split at h
  · cases h
  rename_i hz
  obtain ⟨hlt, whole, hrest, hdigits, hlead, hvalue⟩ := whole_of_read hi hb hk hz
  have hstop : Stops isDigit (skipWhile isDigit (i.skip k)).rest := by
    rw [rest_skipWhile]
    exact stops_dropWhile _ _
  generalize skipWhile isDigit (i.skip k) = long at h hrest hvalue hstop
  have hn : whole ≠ [] := ne_nil_of_next? hi hb hrest hstop
  -- with a fraction or an exponent the number is no integer
  have exponent {c : UInt8} {e : ℤ} (hc : isMark c) (hl : long.next? = some c)
      (h : readExponent negative n e long = .ok (v, j)) :
      ∃ l : Literal, l.negative = negative ∧ i.rest = l.whole ++ l.tail ++ j.rest ∧ l.Ends j.rest ∧
        l.Reads v := by
    obtain ⟨e, he, hr, x, rfl⟩ := exponent_of_read h hl hc
    refine ⟨⟨negative, whole, [], some e, hdigits, hn, hlead, nofun⟩, rfl, ?_, ⟨hr, nofun⟩, ?_⟩
    · rw [hrest, he, List.append_assoc]
      rfl
    · exact .float fun h => by cases h.1.2
  split at h
  · rename_i hl
    obtain ⟨fraction, e, hf, hfd, he, hr, hm, x, rfl⟩ := fraction_of_read h hlt hl
    refine ⟨⟨negative, whole, fraction, e, hdigits, hn, hlead, hfd⟩, rfl, ?_, ?_, ?_⟩
    · rw [hrest, he]
      simp [Literal.tail, hf]
    · exact ⟨hr, fun h => ⟨hm h, fun h => absurd h hf⟩⟩
    · exact .float fun h => hf h.1.1
  · exact exponent rfl (by assumption) h
  · exact exponent rfl (by assumption) h
  · rename_i h₁ h₂ h₃
    let l : Literal := ⟨negative, whole, [], none, hdigits, hn, hlead, nofun⟩
    have hl : l.IsInteger := ⟨rfl, rfl⟩
    have ends : l.Ends long.rest := by
      refine ⟨hstop, fun _ => ⟨stops_isMark h₂ h₃, fun _ b hb => beq_eq_false_iff_ne.mpr ?_⟩⟩
      rintro rfl
      exact h₁ hb
    have htext : i.rest = l.whole ++ l.tail ++ long.rest := by
      rw [hrest]
      exact congrArg (· ++ _) (List.append_nil whole).symm
    split at h
    · rename_i hd
      rw [if_pos hd] at hvalue
      cases h
      subst hvalue
      exact ⟨l, rfl, htext, ends, hl.reads hlt⟩
    · rename_i hd
      rw [if_neg hd] at hvalue
      obtain ⟨⟨x, rfl⟩, rfl⟩ := floatValue_cases h
      exact ⟨l, rfl, htext, ends, .float fun hr => Literal.not_inRange hvalue hr.2⟩

/-- An integer literal is read, if it is written in less than `2 ^ 64`. -/
lemma Literal.IsInteger.read {l : Literal} (h : l.IsInteger) {r : List UInt8} (hr : l.Ends r)
    (hn : ofDigits l.whole < wordLimit) (o : Nat) :
    ∃ p, readNumber l.negative ⟨o, l.whole ++ r⟩ =
      .ok (integerValue l.negative (ofDigits l.whole), ⟨p, r⟩) := by
  obtain ⟨b, ds, hb⟩ := List.exists_cons_of_ne_nil l.whole_ne_nil
  have hd : isDigit b := l.isDigit_whole b (hb ▸ List.mem_cons_self ..)
  have hi : Input.next? ⟨o, l.whole ++ r⟩ = some b := by rw [hb]; rfl
  have hk : (if b = 48 then (0, 1) else takeDigits 0 (l.whole ++ r)) =
      (ofDigits l.whole, l.whole.length) := by
    split
    · rename_i hz
      rw [l.eq_zero_of_leading (by rw [hb, hz]; rfl)]
      rfl
    · exact takeDigits_append l.isDigit_whole hr.1 hn
  have hj : Input.skip l.whole.length ⟨o, l.whole ++ r⟩ = ⟨o + l.whole.length, r⟩ := by
    rw [Input.skip, List.drop_left]
  have hstop : ¬ atDigit ⟨o + l.whole.length, r⟩ = true := by
    rw [atDigit, Option.any_eq_true]
    rintro ⟨c, hc, hd⟩
    rw [hr.1 c hc] at hd
    cases hd
  have hlong : skipWhile isDigit ⟨o + l.whole.length, r⟩ = ⟨o + l.whole.length, r⟩ := by
    rw [skipWhile, takeWhile_eq_nil_iff_stops.mpr hr.1]
    rfl
  refine ⟨o + l.whole.length, ?_⟩
  obtain ⟨hm, hp⟩ := hr.2 h.2
  unfold readNumber
  simp only [hi, hd, hk, hj, hlong, hstop, Nat.sub_self, and_false, if_false, if_true,
    Bool.not_true, Bool.false_eq_true]
  split
  · rename_i hc
    cases hp h.1 _ hc
  · rename_i hc
    cases hm _ hc
  · rename_i hc
    cases hm _ hc
  · rfl

end OnceProxy.Json
