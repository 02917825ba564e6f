import OnceProxy.Proofs.Json.Numbers
import OnceProxy.Proofs.Json.Strings

/-!
# The grammar of JSON texts

Values as they are written, apart from any reader: numbers by their digits, objects with all members
in the order of the text, also several of one name. Every relation here is between bytes and what is
left of them: `Spells t s r` says that `s` starts with the text of `t`, and that `r` stands after it.
The grammar is unambiguous, so the bytes settle what they spell.
-/

namespace OnceProxy.Json

/-- A value as it is written. -/
inductive Tree where
  | null
  | bool (b : Bool)
  | number (l : Literal)
  | string (s : String)
  | array (ts : List Tree)
  | object (members : List (String × Tree))

/-- After blanks stands the byte `b`. -/
def Mark (b : UInt8) (s r : List UInt8) : Prop := s.dropWhile isBlank = b :: r

mutual

/-- The bytes start with the text of a value, maybe after blanks. -/
inductive Spells : Tree → List UInt8 → List UInt8 → Prop
  | null {s r : List UInt8} : Mark 110 s (117 :: 108 :: 108 :: r) → Spells .null s r
  | true {s r : List UInt8} : Mark 116 s (114 :: 117 :: 101 :: r) → Spells (.bool true) s r
  | false {s r : List UInt8} :
      Mark 102 s (97 :: 108 :: 115 :: 101 :: r) → Spells (.bool false) s r
  | number {l : Literal} {s r : List UInt8} :
      s.dropWhile isBlank = l.text ++ r → l.Ends r → Spells (.number l) s r
  | string {x : String} {s t r : List UInt8} :
      Mark 34 s t → Quoted x.toList t r → Spells (.string x) s r
  | array {ts : List Tree} {s t r : List UInt8} :
      Mark 91 s t → Elements true ts t r → Spells (.array ts) s r
  | object {ms : List (String × Tree)} {s t r : List UInt8} :
      Mark 123 s t → Members true ms t r → Spells (.object ms) s r

/-- The bytes start with the elements of an array, up to its end. A comma stands before each of them
but the first of the array. -/
inductive Elements : Bool → List Tree → List UInt8 → List UInt8 → Prop
  | close {first : Bool} {s r : List UInt8} : Mark 93 s r → Elements first [] s r
  | first {t : Tree} {ts : List Tree} {s u r : List UInt8} :
      Spells t s u → Elements false ts u r → Elements true (t :: ts) s r
  | next {t : Tree} {ts : List Tree} {s u w r : List UInt8} :
      Mark 44 s u → Spells t u w → Elements false ts w r → Elements false (t :: ts) s r

/-- The bytes start with the members of an object, up to its end. A comma stands before each of them
but the first of the object. -/
inductive Members : Bool → List (String × Tree) → List UInt8 → List UInt8 → Prop
  | close {first : Bool} {s r : List UInt8} : Mark 125 s r → Members first [] s r
  | first {n : String} {t : Tree} {ms : List (String × Tree)} {s u r : List UInt8} :
      Member n t s u → Members false ms u r → Members true ((n, t) :: ms) s r
  | next {n : String} {t : Tree} {ms : List (String × Tree)} {s u w r : List UInt8} :
      Mark 44 s u → Member n t u w → Members false ms w r → Members false ((n, t) :: ms) s r

/-- The bytes start with a name, a colon and a value. -/
inductive Member : String → Tree → List UInt8 → List UInt8 → Prop
  | mk {n : String} {t : Tree} {s u v w r : List UInt8} :
      Mark 34 s u → Quoted n.toList u v → Mark 58 v w → Spells t w r → Member n t s r

end

/-- The bytes as a whole are the text of a value, with blanks around it. -/
def Tree.Text (t : Tree) (s : List UInt8) : Prop :=
  ∃ r, Spells t s r ∧ r.dropWhile isBlank = []

/-! ### The grammar is unambiguous -/

section

variable {t t' : Tree} {b b' : UInt8} {s r r' : List UInt8}

lemma Mark.unique (h : Mark b s r) (h' : Mark b' s r') : b = b' ∧ r = r' :=
  List.cons.inj (h.symm.trans h')

/-- The byte that a value of this kind starts with; for numbers, a digit that stands for all. -/
def Tree.lead : Tree → UInt8
  | .null => 110
  | .bool true => 116
  | .bool false => 102
  | .number _ => 48
  | .string _ => 34
  | .array _ => 91
  | .object _ => 123

/-- The byte that stands for the values that start with `b`. -/
def leadOf (b : UInt8) : UInt8 := if b = 45 ∨ isDigit b then 48 else b

lemma Literal.leadOf_text (l : Literal) : ∃ b q, l.text = b :: q ∧ leadOf b = 48 := by
  obtain ⟨b, q, hb⟩ := List.exists_cons_of_ne_nil l.whole_ne_nil
  have hd : isDigit b := l.isDigit_whole b (hb ▸ List.mem_cons_self ..)
  cases hn : l.negative with
  | true => exact ⟨45, l.whole ++ l.tail, by rw [text, hn]; rfl, rfl⟩
  | false => exact ⟨b, q ++ l.tail, by rw [text, hn, hb]; rfl, if_pos (.inr hd)⟩

/-- The first byte after the blanks settles the kind of a value. -/
lemma Spells.lead (h : Spells t s r) : ∃ b q, Mark b s q ∧ leadOf b = t.lead := by
  cases h with
  | null h => exact ⟨_, _, h, rfl⟩
  | true h => exact ⟨_, _, h, rfl⟩
  | false h => exact ⟨_, _, h, rfl⟩
  | number h _ =>
    obtain ⟨b, q, hb, hl⟩ := Literal.leadOf_text _
    exact ⟨b, q ++ r, h.trans (by rw [hb]; rfl), hl⟩
  | string h _ => exact ⟨_, _, h, rfl⟩
  | array h _ => exact ⟨_, _, h, rfl⟩
  | object h _ => exact ⟨_, _, h, rfl⟩

lemma Spells.lead_eq (h : Spells t s r) (h' : Spells t' s r') : t.lead = t'.lead := by
  obtain ⟨b, q, hb, hl⟩ := h.lead
  obtain ⟨b', q', hb', hl'⟩ := h'.lead
  rw [← hl, ← hl', (hb.unique hb').1]

/-- No value starts with the end of an array. -/
lemma Spells.not_mark_close (h : Spells t s r) (h' : Mark 93 s r') : False := by
  obtain ⟨b, q, hb, hl⟩ := h.lead
  rw [(hb.unique h').1] at hl
  cases t with
  | bool b => cases b <;> cases hl
  | _ => cases hl

end

mutual

/-- The bytes settle which value they spell, and where it ends. -/
theorem Spells.unique {t t' : Tree} {s r r' : List UInt8} :
    Spells t s r → Spells t' s r' → t = t' ∧ r = r'
  | .null h, h' => by
    -- the first byte after the blanks says which constructor spelled the text
    have hl := (Spells.null h).lead_eq h'
    cases h' with
    | null h' =>
      cases (h.unique h').2
      exact ⟨rfl, rfl⟩
    | _ => cases hl
  | .true h, h' => by
    have hl := (Spells.true h).lead_eq h'
    cases h' with
    | true h' =>
      cases (h.unique h').2
      exact ⟨rfl, rfl⟩
    | _ => cases hl
  | .false h, h' => by
    have hl := (Spells.false h).lead_eq h'
    cases h' with
    | false h' =>
      cases (h.unique h').2
      exact ⟨rfl, rfl⟩
    | _ => cases hl
  | .number h he, h' => by
    have hl := (Spells.number h he).lead_eq h'
    cases h' with
    | number h' he' =>
      obtain ⟨rfl, rfl⟩ := Literal.text_append_inj (h.symm.trans h') he he'
      exact ⟨rfl, rfl⟩
    | _ => cases hl
  | .string h hq, h' => by
    have hl := (Spells.string h hq).lead_eq h'
    cases h' with
    | string h' hq' =>
      obtain ⟨-, rfl⟩ := h.unique h'
      obtain ⟨hx, rfl⟩ := hq.unique hq'
      exact ⟨congrArg _ (String.toList_injective hx), rfl⟩
    | _ => cases hl
  | .array h hs, h' => by
    have hl := (Spells.array h hs).lead_eq h'
    cases h' with
    | array h' hs' =>
      obtain ⟨-, rfl⟩ := h.unique h'
      obtain ⟨rfl, rfl⟩ := hs.unique hs'
      exact ⟨rfl, rfl⟩
    | _ => cases hl
  | .object h hs, h' => by
    have hl := (Spells.object h hs).lead_eq h'
    cases h' with
    | object h' hs' =>
      obtain ⟨-, rfl⟩ := h.unique h'
      obtain ⟨rfl, rfl⟩ := hs.unique hs'
      exact ⟨rfl, rfl⟩
    | _ => cases hl
termination_by structural h => h

theorem Elements.unique {first : Bool} {ts ts' : List Tree} {s r r' : List UInt8} :
    Elements first ts s r → Elements first ts' s r' → ts = ts' ∧ r = r'
  | .close h, .close h' => ⟨rfl, (h.unique h').2⟩
  -- a closing bracket starts no value and is no comma
  | .close h, .first h' _ => (h'.not_mark_close h).elim
  | .close h, .next h' _ _ => absurd (h.unique h').1 (by decide)
  | .first h _, .close h' => (h.not_mark_close h').elim
  | .first h hs, .first h' hs' => by
    obtain ⟨rfl, rfl⟩ := h.unique h'
    obtain ⟨rfl, rfl⟩ := hs.unique hs'
    exact ⟨rfl, rfl⟩
  | .next h _ _, .close h' => absurd (h.unique h').1 (by decide)
  | .next hm h hs, .next hm' h' hs' => by
    obtain ⟨-, rfl⟩ := hm.unique hm'
    obtain ⟨rfl, rfl⟩ := h.unique h'
    obtain ⟨rfl, rfl⟩ := hs.unique hs'
    exact ⟨rfl, rfl⟩
termination_by structural h => h

theorem Members.unique {first : Bool} {ms ms' : List (String × Tree)} {s r r' : List UInt8} :
    Members first ms s r → Members first ms' s r' → ms = ms' ∧ r = r'
  | .close h, .close h' => ⟨rfl, (h.unique h').2⟩
  | .close h, .first (.mk h' _ _ _) _ => absurd (h.unique h').1 (by decide)
  | .close h, .next h' _ _ => absurd (h.unique h').1 (by decide)
  | .first (.mk h _ _ _) _, .close h' => absurd (h.unique h').1 (by decide)
  | .first h hs, .first h' hs' => by
    obtain ⟨rfl, rfl, rfl⟩ := h.unique h'
    obtain ⟨rfl, rfl⟩ := hs.unique hs'
    exact ⟨rfl, rfl⟩
  | .next h _ _, .close h' => absurd (h.unique h').1 (by decide)
  | .next hm h hs, .next hm' h' hs' => by
    obtain ⟨-, rfl⟩ := hm.unique hm'
    obtain ⟨rfl, rfl, rfl⟩ := h.unique h'
    obtain ⟨rfl, rfl⟩ := hs.unique hs'
    exact ⟨rfl, rfl⟩
termination_by structural h => h

theorem Member.unique {n n' : String} {t t' : Tree} {s r r' : List UInt8} :
    Member n t s r → Member n' t' s r' → n = n' ∧ t = t' ∧ r = r'
  | .mk h hn hc hv, .mk h' hn' hc' hv' => by
    obtain ⟨-, rfl⟩ := h.unique h'
    obtain ⟨hn, rfl⟩ := hn.unique hn'
    obtain ⟨-, rfl⟩ := hc.unique hc'
    obtain ⟨rfl, rfl⟩ := hv.unique hv'
    exact ⟨String.toList_injective hn, rfl, rfl⟩
termination_by structural h => h

end

/-- A text spells one value. -/
theorem Tree.Text.unique {t t' : Tree} {s : List UInt8} (h : t.Text s) (h' : t'.Text s) : t = t' := by
  obtain ⟨r, h, -⟩ := h
  obtain ⟨r', h', -⟩ := h'
  exact (h.unique h').1

end OnceProxy.Json
