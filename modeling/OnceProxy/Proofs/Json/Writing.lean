import OnceProxy.Proofs.Json.Decimals
import OnceProxy.Proofs.Json.Reading

/-!
# What is written

The bytes of a value are the text of a tree that says it. A value without floats is read back from
them.
-/

namespace OnceProxy.Json

open Text

/-- What a number is written for: the integer of its value, or a float, which is zero only if the
number is. -/
inductive Literal.Shows (l : Literal) : Value → Prop
  | integer {n : ℤ} : l.IsInteger → l.integer = n → l.Shows (.integer n)
  | float {x : Binary64} : (x.magnitude = 0 → l.value = 0) → l.Shows (.float x)

/-- A value without floats. -/
inductive Value.Integral : Value → Prop
  | null : Integral .null
  | bool {b : Bool} : Integral (.bool b)
  | integer {n : ℤ} : Integral (.integer n)
  | string {s : String} : Integral (.string s)
  | array {vs : List Value} : (∀ v ∈ vs, Integral v) → Integral (.array vs)
  | object {ms : List (String × Value)} : (∀ m ∈ ms, Integral m.2) → Integral (.object ms)

/-- What stands after a value goes on with no number. -/
def Halts (r : List UInt8) : Prop := ∀ l : Literal, l.Ends r

/-! ### Bytes -/

section

variable {b : UInt8} {r : List UInt8}

lemma halts_nil : Halts [] := fun _ => ⟨nofun, fun _ => ⟨nofun, fun _ => nofun⟩⟩

lemma halts_cons (hd : isDigit b = false) (hm : isMark b = false) (hp : (b == 46) = false) :
    Halts (b :: r) := fun _ =>
  ⟨fun c hc => by cases hc; exact hd, fun _ => ⟨fun c hc => by cases hc; exact hm,
    fun _ c hc => by cases hc; exact hp⟩⟩

/-- The bytes of a member. -/
def encodeMember (m : String × Value) : List UInt8 :=
  Utf8.encode (quote m.1) ++ 58 :: m.2.encode

/-- The bytes of elements or members that are not the first. -/
def encodeRest {α : Type} (encode : α → List UInt8) (as : List α) : List UInt8 :=
  as.flatMap fun a => 44 :: encode a

lemma encode_renderElements (v : Value) (vs : List Value) :
    Utf8.encode (renderElements (v :: vs)) = v.encode ++ encodeRest Value.encode vs := by
  induction vs generalizing v with
  | nil => simp [renderElements, encodeRest, Value.encode]
  | cons w vs ih =>
    rw [renderElements, Utf8.encode_append, Utf8.encode_cons, ih w]
    · rfl
    · nofun

lemma encode_renderMembers (m : String × Value) (ms : List (String × Value)) :
    Utf8.encode (renderMembers (m :: ms)) = encodeMember m ++ encodeRest encodeMember ms := by
  have member (m : String × Value) :
      encodeMember m = Utf8.encode (quote m.1 ++ ':' :: m.2.render) := by
    rw [Utf8.encode_append, Utf8.encode_cons]
    rfl
  induction ms generalizing m with
  | nil => simp [renderMembers, encodeRest, member]
  | cons n ms ih =>
    rw [renderMembers, Utf8.encode_append, Utf8.encode_cons, Utf8.encode_append, Utf8.encode_cons,
      ih n]
    · simp only [encodeMember, encodeRest, List.flatMap_cons, List.append_assoc, List.cons_append]
      rfl
    · nofun

lemma encode_array (vs : List Value) :
    (Value.array vs).encode = 91 :: (Utf8.encode (renderElements vs) ++ [93]) := by
  rw [Value.encode, Value.render, Utf8.encode_append]
  rfl

lemma encode_object (ms : List (String × Value)) :
    (Value.object ms).encode = 123 :: (Utf8.encode (renderMembers ms) ++ [125]) := by
  rw [Value.encode, Value.render, Utf8.encode_append]
  rfl

lemma halts_comma : Halts (44 :: r) := halts_cons rfl rfl rfl

lemma halts_encodeRest {α : Type} {encode : α → List UInt8} {as : List α} (h : Halts (b :: r)) :
    Halts (encodeRest encode as ++ b :: r) := by
  cases as with
  | nil => exact h
  | cons a as => exact halts_comma

end

/-! ### What is written is spelled -/

/-- The bytes of a value spell a tree that says it. -/
def Value.Spelled (v : Value) : Prop :=
  ∃ t : Tree, t.Says Literal.Shows v ∧ ∀ r, Halts r → Spells t (v.encode ++ r) r

section

variable {vs : List Value} {ms : List (String × Value)}

lemma elements_encodeRest (h : ∀ v ∈ vs, v.Spelled) :
    ∃ ts, List.Forall₂ (Tree.Says Literal.Shows) ts vs ∧
      ∀ r, Elements false ts (encodeRest Value.encode vs ++ 93 :: r) r := by
  induction vs with
  | nil => exact ⟨[], .nil, fun r => .close rfl⟩
  | cons v vs ih =>
    rw [List.forall_mem_cons] at h
    obtain ⟨t, hsaid, ht⟩ := h.1
    obtain ⟨ts, hsay, hts⟩ := ih h.2
    refine ⟨t :: ts, .cons hsaid hsay, fun r => ?_⟩
    have head := ht (encodeRest Value.encode vs ++ 93 :: r) (halts_encodeRest (halts_cons rfl rfl rfl))
    rw [← List.append_assoc] at head
    exact .next rfl head (hts r)

lemma elements_encode (h : ∀ v ∈ vs, v.Spelled) :
    ∃ ts, List.Forall₂ (Tree.Says Literal.Shows) ts vs ∧
      ∀ r, Elements true ts (Utf8.encode (renderElements vs) ++ 93 :: r) r := by
  cases vs with
  | nil => exact ⟨[], .nil, fun r => .close rfl⟩
  | cons v vs =>
    rw [List.forall_mem_cons] at h
    obtain ⟨t, hsaid, ht⟩ := h.1
    obtain ⟨ts, hsay, hts⟩ := elements_encodeRest h.2
    refine ⟨t :: ts, .cons hsaid hsay, fun r => ?_⟩
    rw [encode_renderElements, List.append_assoc]
    exact .first (ht _ (halts_encodeRest (halts_cons rfl rfl rfl))) (hts r)

lemma member_encode {n : String} {v : Value} {t : Tree}
    (ht : ∀ r, Halts r → Spells t (v.encode ++ r) r) {r : List UInt8} (hr : Halts r) :
    Member n t (encodeMember (n, v) ++ r) r := by
  obtain ⟨s, hs, hq⟩ := quoted_quote n (58 :: v.encode ++ r)
  rw [encodeMember, List.append_assoc, hs]
  exact .mk rfl hq rfl (ht r hr)

lemma members_encodeRest (h : ∀ m ∈ ms, m.2.Spelled) :
    ∃ raw, List.Forall₂ (fun t v => t.1 = v.1 ∧ Tree.Says Literal.Shows t.2 v.2) raw ms ∧
      ∀ r, Members false raw (encodeRest encodeMember ms ++ 125 :: r) r := by
  induction ms with
  | nil => exact ⟨[], .nil, fun r => .close rfl⟩
  | cons m ms ih =>
    rw [List.forall_mem_cons] at h
    obtain ⟨t, hsaid, ht⟩ := h.1
    obtain ⟨raw, hsay, hraw⟩ := ih h.2
    refine ⟨(m.1, t) :: raw, .cons ⟨rfl, hsaid⟩ hsay, fun r => ?_⟩
    have head := member_encode (n := m.1) ht (r := encodeRest encodeMember ms ++ 125 :: r)
      (halts_encodeRest (halts_cons rfl rfl rfl))
    rw [← List.append_assoc] at head
    exact .next rfl head (hraw r)

lemma members_encode (h : ∀ m ∈ ms, m.2.Spelled) :
    ∃ raw, List.Forall₂ (fun t v => t.1 = v.1 ∧ Tree.Says Literal.Shows t.2 v.2) raw ms ∧
      ∀ r, Members true raw (Utf8.encode (renderMembers ms) ++ 125 :: r) r := by
  cases ms with
  | nil => exact ⟨[], .nil, fun r => .close rfl⟩
  | cons m ms =>
    rw [List.forall_mem_cons] at h
    obtain ⟨t, hsaid, ht⟩ := h.1
    obtain ⟨raw, hsay, hraw⟩ := members_encodeRest h.2
    refine ⟨(m.1, t) :: raw, .cons ⟨rfl, hsaid⟩ hsay, fun r => ?_⟩
    rw [encode_renderMembers, List.append_assoc]
    exact .first (member_encode ht (halts_encodeRest (halts_cons rfl rfl rfl))) (hraw r)

end

lemma Literal.dropWhile_text (l : Literal) (r : List UInt8) :
    (l.text ++ r).dropWhile isBlank = l.text ++ r := by
  obtain ⟨b, q, hb, hl⟩ := l.leadOf_text
  rw [hb]
  refine List.dropWhile_cons_of_neg fun hblank => ?_
  simp only [isBlank, Bool.or_eq_true, beq_iff_eq] at hblank
  rcases hblank with ((rfl | rfl) | rfl) | rfl <;> exact absurd hl (by decide)

lemma Value.spelled {d : Nat} {v : Value} (h : v.Within d) : v.Spelled := by
  induction h with
  | null => exact ⟨.null, .null, fun r _ => .null rfl⟩
  | @bool _ b =>
    cases b with
    | true => exact ⟨.bool true, .bool, fun r _ => .true rfl⟩
    | false => exact ⟨.bool false, .bool, fun r _ => .false rfl⟩
  | @integer _ n _ =>
    -- a number ends before whatever may follow a value, so any rest will do
    refine ⟨.number (.ofInt n),
      .number (.integer (Literal.isInteger_ofInt n) (Literal.integer_ofInt n)), fun r hr => ?_⟩
    refine .number ?_ (hr _)
    rw [Value.encode, Value.render, ← Literal.text_ofInt, Literal.dropWhile_text]
  | @float _ x =>
    obtain ⟨l, hl, hx⟩ := exists_literal_of_float x
    refine ⟨.number l, .number (.float hx), fun r hr => .number ?_ (hr l)⟩
    rw [Value.encode, Value.render, ← hl, Literal.dropWhile_text]
  | @string _ s =>
    refine ⟨.string s, .string, fun r _ => ?_⟩
    obtain ⟨t, ht, hq⟩ := quoted_quote s r
    rw [Value.encode, Value.render, ht]
    exact .string rfl hq
  | array _ ih =>
    obtain ⟨ts, hsay, hts⟩ := elements_encode ih
    refine ⟨.array ts, .array hsay, fun r _ => ?_⟩
    rw [encode_array, List.cons_append, List.append_assoc]
    exact .array rfl (hts r)
  | object hs _ ih =>
    obtain ⟨raw, hsay, hraw⟩ := members_encode ih
    obtain ⟨hnames, hsaid⟩ := forall₂_members.mpr hsay
    refine ⟨.object raw, ?_, fun r _ => ?_⟩
    · have := Tree.Says.object hnames hsaid
      rwa [hs.ofList_eq] at this
    · rw [encode_object, List.cons_append, List.append_assoc]
      exact .object rfl (hraw r)

/-! ### What is written is read back -/

lemma next?_skipBlanks {b : UInt8} {i : Input} {r : List UInt8} (h : Mark b i.rest r) :
    (skipBlanks i).next? = some b := by
  rw [Input.next?, dropWhile_skipBlanks, h]
  rfl

lemma skipBlanks_skipBlanks (i : Input) : skipBlanks (skipBlanks i) = skipBlanks i := by
  have hstop : Stops isBlank (skipBlanks i).rest := by
    rw [dropWhile_skipBlanks]
    exact stops_dropWhile _ _
  generalize skipBlanks i = j at hstop
  rw [skipBlanks, skipWhile, takeWhile_eq_nil_iff_stops.mpr hstop]
  rfl

/-- A value is read from its first byte on, whether or not the blanks before it are skipped. -/
lemma read_skipBlanks (d : Nat) (i : Input) : Value.read d (skipBlanks i) = Value.read d i := by
  rw [Value.read.eq_def, Value.read.eq_def d i]
  simp only [skipBlanks_skipBlanks]

lemma Value.Spelled.mark {v : Value} (h : v.Spelled) {r : List UInt8} (hr : Halts r) :
    ∃ b q, Mark b (v.encode ++ r) q ∧ b ≠ 93 := by
  obtain ⟨t, -, ht⟩ := h
  obtain ⟨b, q, hb, -⟩ := (ht r hr).lead
  refine ⟨b, q, hb, ?_⟩
  rintro rfl
  exact (ht r hr).not_mark_close hb

section

variable {read : Input → Result (Value × Input)} {n : Nat} {b : UInt8} {q r s : List UInt8}
  {v : Value} {vs : List Value} {ms : List (String × Value)}

lemma readElements_first (hs : Mark b s q) (hb : b ≠ 93) (o : Nat) :
    readElements read (n + 1) true ⟨o, s⟩ = readElement read n (skipBlanks ⟨o, s⟩) := by
  rw [readElements]
  simp only [next?_skipBlanks (i := ⟨o, s⟩) hs]
  rfl

lemma readElements_next (hs : Mark b s q) (hb : b ≠ 93) (o : Nat) :
    readElements read (n + 1) false ⟨o, 44 :: s⟩ = readElement read n (skipBlanks ⟨o + 1, s⟩) := by
  have hcomma : skipBlanks ⟨o, 44 :: s⟩ = ⟨o, 44 :: s⟩ := rfl
  have hafter : Input.skip 1 ⟨o, 44 :: s⟩ = ⟨o + 1, s⟩ := rfl
  rw [readElements, hcomma, hafter]
  simp only [next?_skipBlanks (i := ⟨o + 1, s⟩) hs]
  rfl

lemma length_le_encodeRest {α : Type} (encode : α → List UInt8) (as : List α) :
    as.length ≤ (encodeRest encode as).length := by
  induction as with
  | nil => exact Nat.le_refl 0
  | cons a as ih =>
    simp only [encodeRest, List.flatMap_cons, List.length_append, List.length_cons] at ih ⊢
    omega

/-- A reader finds the value in its bytes, maybe after blanks. -/
structure ReadsBack (read : Input → Result (Value × Input)) (v : Value) : Prop where
  spelled : v.Spelled
  read_skipBlanks (i : Input) : read (skipBlanks i) = read i
  read_encode {r : List UInt8} (hr : Halts r) (o : Nat) :
    ∃ p, read ⟨o, v.encode ++ r⟩ = .ok (v, ⟨p, r⟩)

lemma readElement_encode (h : ReadsBack read v) (hr : Halts r) (o : Nat) :
    ∃ p, ∀ n vs j, readElements read n false ⟨p, r⟩ = .ok (vs, j) →
      readElement read n (skipBlanks ⟨o, v.encode ++ r⟩) = .ok (v :: vs, j) := by
  obtain ⟨p, hp⟩ := h.read_encode hr o
  refine ⟨p, fun n vs j hj => ?_⟩
  simp only [readElement, h.read_skipBlanks, hp, bind, Except.bind, hj]
  rfl

lemma readElements_encodeRest (h : ∀ v ∈ vs, ReadsBack read v) (hn : vs.length < n) (o : Nat) :
    ∃ p, readElements read n false ⟨o, encodeRest Value.encode vs ++ 93 :: r⟩ =
      .ok (vs, ⟨p, r⟩) := by
  induction vs generalizing n o with
  | nil =>
    obtain ⟨n, rfl⟩ := Nat.exists_eq_succ_of_ne_zero (Nat.ne_of_gt hn)
    exact ⟨o + 1, rfl⟩
  | cons v vs ih =>
    obtain ⟨n, rfl⟩ := Nat.exists_eq_succ_of_ne_zero (Nat.ne_of_gt (Nat.zero_lt_of_lt hn))
    rw [List.forall_mem_cons] at h
    have halts : Halts (encodeRest Value.encode vs ++ 93 :: r) :=
      halts_encodeRest (halts_cons rfl rfl rfl)
    -- the value after the comma starts with no bracket, so the reader goes on
    obtain ⟨b, q, hb, hne⟩ := h.1.spelled.mark halts
    obtain ⟨p, hread⟩ := readElement_encode h.1 halts (o + 1)
    obtain ⟨p', hp'⟩ := ih h.2 (Nat.lt_of_succ_lt_succ hn) p
    refine ⟨p', ?_⟩
    rw [encodeRest, List.flatMap_cons, ← encodeRest, List.cons_append, List.cons_append,
      List.append_assoc, readElements_next hb hne]
    exact hread n vs _ hp'

lemma readElements_encode (h : ∀ v ∈ vs, ReadsBack read v)
    (hn : (Utf8.encode (renderElements vs) ++ 93 :: r).length < n) (o : Nat) :
    ∃ p, readElements read n true ⟨o, Utf8.encode (renderElements vs) ++ 93 :: r⟩ =
      .ok (vs, ⟨p, r⟩) := by
  obtain ⟨n, rfl⟩ := Nat.exists_eq_succ_of_ne_zero (Nat.ne_of_gt (Nat.zero_lt_of_lt hn))
  cases vs with
  | nil => exact ⟨o + 1, rfl⟩
  | cons v vs =>
    rw [List.forall_mem_cons] at h
    have halts : Halts (encodeRest Value.encode vs ++ 93 :: r) :=
      halts_encodeRest (halts_cons rfl rfl rfl)
    -- the fuel counts bytes, and every item after the first takes one at least
    have fuel : vs.length < n := by
      have := length_le_encodeRest Value.encode vs
      rw [encode_renderElements] at hn
      simp only [List.length_append, List.length_cons] at hn
      omega
    obtain ⟨b, q, hb, hne⟩ := h.1.spelled.mark halts
    obtain ⟨p, hread⟩ := readElement_encode h.1 halts o
    obtain ⟨p', hp'⟩ := readElements_encodeRest (r := r) h.2 fuel p
    refine ⟨p', ?_⟩
    rw [encode_renderElements, List.append_assoc, readElements_first hb hne]
    exact hread n vs _ hp'

lemma readMember_encode {m : String × Value} (h : ReadsBack read m.2) (hr : Halts r) (o : Nat) :
    ∃ s p, encodeMember m ++ r = 34 :: s ∧ ∀ n ms o',
      readMembers read n false ⟨p, r⟩ = .ok (ms, o') →
      readMember read n ⟨o, s⟩ = .ok (m :: ms, o') := by
  obtain ⟨s, hs, hq⟩ := quoted_quote m.1 (58 :: m.2.encode ++ r)
  obtain ⟨p, hp⟩ := hq.read o
  obtain ⟨p', hp'⟩ := h.read_encode hr (p + 1)
  refine ⟨s, p', by rw [encodeMember, List.append_assoc, hs], fun n ms j hj => ?_⟩
  have hcolon : readColon ⟨p, 58 :: m.2.encode ++ r⟩ = .ok ⟨p + 1, m.2.encode ++ r⟩ := rfl
  simp only [readMember, hp, bind, Except.bind, hcolon, hp', hj]
  rw [String.ofList_toList]
  rfl

lemma readMembers_encodeRest (h : ∀ m ∈ ms, ReadsBack read m.2) (hn : ms.length < n) (o : Nat) :
    ∃ p, readMembers read n false ⟨o, encodeRest encodeMember ms ++ 125 :: r⟩ =
      .ok (ms, ⟨p, r⟩) := by
  induction ms generalizing n o with
  | nil =>
    obtain ⟨n, rfl⟩ := Nat.exists_eq_succ_of_ne_zero (Nat.ne_of_gt hn)
    exact ⟨o + 1, rfl⟩
  | cons m ms ih =>
    obtain ⟨n, rfl⟩ := Nat.exists_eq_succ_of_ne_zero (Nat.ne_of_gt (Nat.zero_lt_of_lt hn))
    rw [List.forall_mem_cons] at h
    have halts : Halts (encodeRest encodeMember ms ++ 125 :: r) :=
      halts_encodeRest (halts_cons rfl rfl rfl)
    obtain ⟨s, p, hs, hread⟩ := readMember_encode h.1 halts (o + 1 + 1)
    obtain ⟨p', hp'⟩ := ih h.2 (Nat.lt_of_succ_lt_succ hn) p
    refine ⟨p', ?_⟩
    rw [encodeRest, List.flatMap_cons, ← encodeRest, List.cons_append, List.cons_append,
      List.append_assoc, hs]
    exact hread n ms _ hp'

lemma readMembers_encode (h : ∀ m ∈ ms, ReadsBack read m.2)
    (hn : (Utf8.encode (renderMembers ms) ++ 125 :: r).length < n) (o : Nat) :
    ∃ p, readMembers read n true ⟨o, Utf8.encode (renderMembers ms) ++ 125 :: r⟩ =
      .ok (ms, ⟨p, r⟩) := by
  obtain ⟨n, rfl⟩ := Nat.exists_eq_succ_of_ne_zero (Nat.ne_of_gt (Nat.zero_lt_of_lt hn))
  cases ms with
  | nil => exact ⟨o + 1, rfl⟩
  | cons m ms =>
    rw [List.forall_mem_cons] at h
    have halts : Halts (encodeRest encodeMember ms ++ 125 :: r) :=
      halts_encodeRest (halts_cons rfl rfl rfl)
    have fuel : ms.length < n := by
      have := length_le_encodeRest encodeMember ms
      rw [encode_renderMembers] at hn
      simp only [List.length_append, List.length_cons] at hn
      omega
    obtain ⟨s, p, hs, hread⟩ := readMember_encode h.1 halts (o + 1)
    obtain ⟨p', hp'⟩ := readMembers_encodeRest (r := r) h.2 fuel p
    refine ⟨p', ?_⟩
    rw [encode_renderMembers, List.append_assoc, hs]
    exact hread n ms _ hp'

end

/-! ### Values -/

section

variable (d o : Nat) (s : List UInt8)

lemma read_string :
    Value.read d ⟨o, 34 :: s⟩ = (do
      let (x, i) ← readString ⟨o + 1, s⟩
      return (.string x, i)) := by
  rw [Value.read.eq_def]
  rfl

lemma read_array :
    Value.read (d + 1) ⟨o, 91 :: s⟩ = (do
      let (vs, i) ← readElements (Value.read d) (s.length + 1) true ⟨o + 1, s⟩
      return (.array vs, i)) := by
  rw [Value.read.eq_def]
  rfl

lemma read_object :
    Value.read (d + 1) ⟨o, 123 :: s⟩ = (do
      let (ms, i) ← readMembers (Value.read d) (s.length + 1) true ⟨o + 1, s⟩
      return (.object (Table.ofList ms), i)) := by
  rw [Value.read.eq_def]
  rfl

lemma read_minus : Value.read d ⟨o, 45 :: s⟩ = readNumber true ⟨o + 1, s⟩ := by
  rw [Value.read.eq_def]
  rfl

lemma read_digit {b : UInt8} (hb : isDigit b) :
    Value.read d ⟨o, b :: s⟩ = readNumber false ⟨o, b :: s⟩ := by
  have hblank : isBlank b = false := by
    simp only [isBlank, not_isDigit (c := 32) (by decide) hb, not_isDigit (c := 10) (by decide) hb,
      not_isDigit (c := 9) (by decide) hb, not_isDigit (c := 13) (by decide) hb, Bool.or_self]
  have hself : skipBlanks ⟨o, b :: s⟩ = ⟨o, b :: s⟩ := by
    rw [skipBlanks, skipWhile, List.takeWhile_cons_of_neg (by simp [hblank])]
    rfl
  rw [Value.read.eq_def]
  simp only [hself, Input.next?, List.head?_cons]
  split
  case h_1 hc => cases hc
  case h_9 hc =>
    cases hc
    exact if_pos hb
  all_goals
    rename_i hc
    cases hc
    exact absurd hb (by decide)

end

lemma integerValue_ofInt {n : ℤ} (h : InRange n) :
    integerValue (Literal.ofInt n).negative (ofDigits (Literal.ofInt n).whole) = .integer n := by
  have hneg : (Literal.ofInt n).negative = decide (n < 0) := rfl
  obtain ⟨hlow, hhigh⟩ := h
  rw [Literal.ofDigits_ofInt, hneg, integerValue]
  by_cases hn : n < 0
  · rw [decide_eq_true hn, if_neg (by simp), if_pos (by omega)]
    congr 1
    omega
  · rw [decide_eq_false hn, if_pos (by simp)]
    congr 1
    omega

lemma read_encode_integer {n : ℤ} (h : InRange n) {r : List UInt8} (hr : Halts r) (d o : Nat) :
    ∃ p, Value.read d ⟨o, (Value.integer n).encode ++ r⟩ = .ok (.integer n, ⟨p, r⟩) := by
  have small : ofDigits (Literal.ofInt n).whole < wordLimit := by
    obtain ⟨hlow, hhigh⟩ := h
    simp only [Literal.ofDigits_ofInt, wordLimit] at *
    omega
  have htail : (Literal.ofInt n).tail = [] := rfl
  have hread := (Literal.isInteger_ofInt n).read (hr _) small
  rw [integerValue_ofInt h] at hread
  rw [Value.encode, Value.render, ← Literal.text_ofInt, Literal.text, htail, List.append_nil]
  generalize hl : Literal.ofInt n = l at hread
  cases hneg : l.negative with
  -- the sign is read before the number, and both must give the integer back
  | true =>
    rw [hneg] at hread
    obtain ⟨p, hp⟩ := hread (o + 1)
    exact ⟨p, (read_minus d o _).trans hp⟩
  | false =>
    rw [hneg] at hread
    obtain ⟨p, hp⟩ := hread o
    obtain ⟨b, ds, hb⟩ := List.exists_cons_of_ne_nil l.whole_ne_nil
    have hd : isDigit b := l.isDigit_whole b (hb ▸ List.mem_cons_self ..)
    rw [hb] at hp ⊢
    exact ⟨p, (read_digit d o _ hd).trans hp⟩

/-- What is written for members is read as the table of them, in any order and of any names. -/
lemma read_encode_object {d : Nat} {ms : List (String × Value)}
    (h : ∀ m ∈ ms, ReadsBack (Value.read d) m.2) (r : List UInt8) (o : Nat) :
    ∃ p, Value.read (d + 1) ⟨o, (Value.object ms).encode ++ r⟩ =
      .ok (.object (Table.ofList ms), ⟨p, r⟩) := by
  obtain ⟨p, hp⟩ := readMembers_encode (r := r) h (Nat.lt_succ_self _) (o + 1)
  refine ⟨p, ?_⟩
  rw [encode_object, List.cons_append, List.append_assoc, List.singleton_append, read_object, hp]
  rfl

/-- A value without floats is read back from its bytes, whatever stands after them. -/
lemma Value.readsBack {d : Nat} {v : Value} (h : v.Within d) (hv : v.Integral) :
    ReadsBack (Value.read d) v := by
  refine ⟨Value.spelled h, read_skipBlanks d, ?_⟩
  induction h with
  | null =>
    intro r _ o
    rw [Value.read.eq_def]
    exact ⟨o + 1 + 1 + 1 + 1, rfl⟩
  | @bool _ b =>
    intro r _ o
    rw [Value.read.eq_def]
    cases b with
    | true => exact ⟨o + 1 + 1 + 1 + 1, rfl⟩
    | false => exact ⟨o + 1 + 1 + 1 + 1 + 1, rfl⟩
  | integer hn => exact fun hr o => read_encode_integer hn hr _ o
  | float => cases hv
  | @string d s =>
    intro r _ o
    obtain ⟨t, ht, hq⟩ := quoted_quote s r
    obtain ⟨p, hp⟩ := hq.read (o + 1)
    refine ⟨p, ?_⟩
    rw [Value.encode, Value.render, ht, read_string, hp, String.ofList_toList]
    rfl
  | @array d vs hvs ih =>
    intro r _ o
    cases hv with
    | array hv =>
      have parts : ∀ v ∈ vs, ReadsBack (Value.read d) v := fun v hm =>
        ⟨Value.spelled (hvs v hm), read_skipBlanks d, ih v hm (hv v hm)⟩
      obtain ⟨p, hp⟩ := readElements_encode (r := r) parts (Nat.lt_succ_self _) (o + 1)
      refine ⟨p, ?_⟩
      rw [encode_array, List.cons_append, List.append_assoc, List.singleton_append, read_array, hp]
      rfl
  | @object d ms hs hms ih =>
    intro r _ o
    cases hv with
    | object hv =>
      have parts : ∀ m ∈ ms, ReadsBack (Value.read d) m.2 := fun m hm =>
        ⟨Value.spelled (hms m hm), read_skipBlanks d, ih m hm (hv m hm)⟩
      have hr := read_encode_object parts r o
      rwa [hs.ofList_eq] at hr

/-- A value without floats is read from its bytes. -/
theorem ofBytes_encode {v : Value} (h : v.Within depthLimit) (hv : v.Integral) :
    Value.ofBytes v.encode = .ok v := by
  obtain ⟨p, hp⟩ := (Value.readsBack h hv).read_encode halts_nil 0
  rw [List.append_nil] at hp
  rw [Value.ofBytes, hp]
  rfl

/-- What is written for members without floats is read as the table of them. -/
theorem ofBytes_encode_object {ms : List (String × Value)}
    (h : ∀ m ∈ ms, m.2.Within (depthLimit - 1) ∧ m.2.Integral) :
    Value.ofBytes (Value.object ms).encode = .ok (.object (Table.ofList ms)) := by
  have parts : ∀ m ∈ ms, ReadsBack (Value.read (depthLimit - 1)) m.2 :=
    fun m hm => Value.readsBack (h m hm).1 (h m hm).2
  obtain ⟨p, hp⟩ := read_encode_object parts [] 0
  rw [List.append_nil] at hp
  rw [Value.ofBytes, show depthLimit = depthLimit - 1 + 1 from rfl, hp]
  rfl

end OnceProxy.Json
