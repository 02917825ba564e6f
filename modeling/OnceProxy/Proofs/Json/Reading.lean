import OnceProxy.Proofs.Json.Meaning

/-!
# The reader takes what is spelled

What the reader accepts as a value is the text of one, and what it leaves is what stands after that
text. It finds what the text says.
-/

namespace OnceProxy.Json

/-- A value as readers give it: arrays and objects nest no deeper than `d`, integers are in range, and
the names of members ascend. -/
inductive Value.Within : Nat → Value → Prop
  | null {d : Nat} : Within d .null
  | bool {d : Nat} {b : Bool} : Within d (.bool b)
  | integer {d : Nat} {n : ℤ} : InRange n → Within d (.integer n)
  | float {d : Nat} {x : Binary64} : Within d (.float x)
  | string {d : Nat} {s : String} : Within d (.string s)
  | array {d : Nat} {vs : List Value} : (∀ v ∈ vs, Within d v) → Within (d + 1) (.array vs)
  | object {d : Nat} {ms : List (String × Value)} :
      Table.Sorted ms → (∀ m ∈ ms, Within d m.2) → Within (d + 1) (.object ms)

/-! ### Blanks -/

section

variable {b : UInt8} {s r : List UInt8}

lemma dropWhile_skipBlanks (i : Input) : (skipBlanks i).rest = i.rest.dropWhile isBlank :=
  rest_skipWhile isBlank i

lemma mark_of_next? {i : Input} (h : (skipBlanks i).next? = some b) :
    Mark b i.rest ((skipBlanks i).skip 1).rest := by
  rw [Mark, ← dropWhile_skipBlanks]
  exact Input.rest_of_next? h

lemma dropWhile_blanks (s : List UInt8) :
    (s.dropWhile isBlank).dropWhile isBlank = s.dropWhile isBlank :=
  (stops_dropWhile isBlank s).dropWhile_eq

lemma Mark.of_blanks (h : Mark b (s.dropWhile isBlank) r) : Mark b s r := by
  rwa [Mark, dropWhile_blanks] at h

/-- Blanks may stand before a value. -/
lemma Spells.of_blanks {t : Tree} (h : Spells t (s.dropWhile isBlank) r) : Spells t s r := by
  cases h with
  | null h => exact .null h.of_blanks
  | true h => exact .true h.of_blanks
  | false h => exact .false h.of_blanks
  | number h he =>
    rw [dropWhile_blanks] at h
    exact .number h he
  | string h hq => exact .string h.of_blanks hq
  | array h hs => exact .array h.of_blanks hs
  | object h hs => exact .object h.of_blanks hs

end

/-! ### Parts -/

/-- What is read is the text of a value, and the value is what the text says. -/
def Sound (read : Input → Result (Value × Input)) (d : Nat) : Prop :=
  ∀ {i j : Input} {v : Value}, read i = .ok (v, j) →
    ∃ t : Tree, Spells t i.rest j.rest ∧ t.Says Literal.Reads v ∧ v.Within d

section

variable {read : Input → Result (Value × Input)} {d n : Nat} {first : Bool} {i j : Input}

lemma ident_of_read {bs : List UInt8} (h : readIdent bs i = .ok j) : i.rest = bs ++ j.rest := by
  induction bs generalizing i with
  | nil =>
    cases h
    rfl
  | cons b bs ih =>
    unfold readIdent at h
    split at h
    · cases h
    · rename_i c hc
      split at h
      · rename_i hb
        rw [Input.rest_of_next? hc, ih h, hb]
        rfl
      · cases h

lemma mark_of_readIdent {b : UInt8} {bs : List UInt8} (hi : (skipBlanks i).next? = some b)
    (h : readIdent bs ((skipBlanks i).skip 1) = .ok j) : Mark b i.rest (bs ++ j.rest) :=
  ident_of_read h ▸ mark_of_next? hi

/-- Reads an element, and those after it. -/
def readElement (read : Input → Result (Value × Input)) (n : Nat) (i : Input) :
    Result (List Value × Input) := do
  let (v, i) ← read i
  let (vs, i) ← readElements read n false i
  return (v :: vs, i)

/-- Reads a member after its quote, and those after it. -/
def readMember (read : Input → Result (Value × Input)) (n : Nat) (i : Input) :
    Result (List (String × Value) × Input) := do
  let (name, i) ← readString i
  let (v, i) ← read (← readColon i)
  let (ms, i) ← readMembers read n false i
  return ((name, v) :: ms, i)

lemma elements_of_read (hread : Sound read d) {vs : List Value}
    (h : readElements read n first i = .ok (vs, j)) :
    ∃ ts, Elements first ts i.rest j.rest ∧ List.Forall₂ (Tree.Says Literal.Reads) ts vs ∧
      ∀ v ∈ vs, v.Within d := by
  induction n generalizing first i vs with
  | zero => cases h
  | succ n ih =>
    -- what is read after an opening bracket and after a comma alike
    have item {k : Input} (h : readElement read n (skipBlanks k) = .ok (vs, j)) :
        ∃ t ts u, Spells t k.rest u ∧ Elements false ts u j.rest ∧
          List.Forall₂ (Tree.Says Literal.Reads) (t :: ts) vs ∧ ∀ v ∈ vs, v.Within d := by
      obtain ⟨⟨v, i₁⟩, hv, h⟩ := ok_of_bind h
      obtain ⟨⟨ws, i₂⟩, hs, h⟩ := ok_of_bind h
      cases h
      obtain ⟨t, ht, hsaid, hw⟩ := hread hv
      obtain ⟨ts, hts, hsay, hws⟩ := ih hs
      rw [dropWhile_skipBlanks] at ht
      exact ⟨t, ts, _, ht.of_blanks, hts, .cons hsaid hsay, List.forall_mem_cons.mpr ⟨hw, hws⟩⟩
    unfold readElements at h
    simp only at h
    split at h
    · cases h
    · rename_i hi
      cases h
      exact ⟨[], .close (mark_of_next? hi), .nil, nofun⟩
    rename_i b _ hi
    split at h
    · rename_i hfirst
      subst hfirst
      obtain ⟨t, ts, u, ht, hts, hsay⟩ := item h
      exact ⟨t :: ts, .first ht hts, hsay⟩
    rename_i hfirst
    obtain rfl : first = false := by simpa using hfirst
    split at h
    · cases h
    rename_i hcomma
    -- a comma is followed by an item, for a closing bracket there is refused
    obtain rfl : b = 44 := by simpa using hcomma
    split at h
    · cases h
    · cases h
    · obtain ⟨t, ts, u, ht, hts, hsay⟩ := item h
      exact ⟨t :: ts, .next (mark_of_next? hi) ht hts, hsay⟩

lemma mark_of_readColon (h : readColon i = .ok j) : Mark 58 i.rest j.rest := by
  unfold readColon at h
  simp only at h
  split at h
  · cases h
  · rename_i hi
    cases h
    exact mark_of_next? hi
  · cases h

/-- The members of a tree are those of a value, one by one. -/
abbrev SayMembers (raw : List (String × Tree)) (ms : List (String × Value)) : Prop :=
  List.Forall₂ (fun t v => t.1 = v.1 ∧ t.2.Says Literal.Reads v.2) raw ms

lemma members_of_read (hread : Sound read d) {ms : List (String × Value)}
    (h : readMembers read n first i = .ok (ms, j)) :
    ∃ raw, Members first raw i.rest j.rest ∧ SayMembers raw ms ∧ ∀ m ∈ ms, m.2.Within d := by
  induction n generalizing first i ms with
  | zero => cases h
  | succ n ih =>
    have item {k : Input} (hk : (skipBlanks k).next? = some 34)
        (h : readMember read n ((skipBlanks k).skip 1) = .ok (ms, j)) :
        ∃ name t raw u, Member name t k.rest u ∧ Members false raw u j.rest ∧
          SayMembers ((name, t) :: raw) ms ∧ ∀ m ∈ ms, m.2.Within d := by
      obtain ⟨⟨name, i₁⟩, hn, h⟩ := ok_of_bind h
      obtain ⟨i₂, hc, h⟩ := ok_of_bind h
      obtain ⟨⟨v, i₃⟩, hv, h⟩ := ok_of_bind h
      obtain ⟨⟨ws, i₄⟩, hs, h⟩ := ok_of_bind h
      cases h
      obtain ⟨t, ht, hsaid, hw⟩ := hread hv
      obtain ⟨raw, hraw, hsay, hws⟩ := ih hs
      have member : Member name t k.rest i₃.rest :=
        .mk (mark_of_next? hk) (quoted_of_read hn) (mark_of_readColon hc) ht
      exact ⟨name, t, raw, _, member, hraw, .cons ⟨rfl, hsaid⟩ hsay,
        List.forall_mem_cons.mpr ⟨hw, hws⟩⟩
    unfold readMembers at h
    simp only at h
    split at h
    · cases h
    · rename_i hi
      cases h
      exact ⟨[], .close (mark_of_next? hi), .nil, nofun⟩
    rename_i b _ hi
    split at h
    · rename_i hfirst
      subst hfirst
      split at h
      · rename_i hquote
        subst hquote
        obtain ⟨name, t, raw, u, ht, hraw, hsay⟩ := item hi h
        exact ⟨(name, t) :: raw, .first ht hraw, hsay⟩
      · cases h
    rename_i hfirst
    obtain rfl : first = false := by simpa using hfirst
    split at h
    · cases h
    rename_i hcomma
    obtain rfl : b = 44 := by simpa using hcomma
    split at h
    · cases h
    · rename_i hquote
      obtain ⟨name, t, raw, u, ht, hraw, hsay⟩ := item hquote h
      exact ⟨(name, t) :: raw, .next (mark_of_next? hi) ht hraw, hsay⟩
    · cases h
    · cases h

end

/-! ### Values -/

lemma Literal.Reads.within {l : Literal} {v : Value} (h : l.Reads v) (d : Nat) : v.Within d := by
  cases h with
  | integer _ hr _ => exact .integer hr
  | minusZero => exact .float
  | float => exact .float

/-- What is read as a value is spelled there. -/
lemma sound_read (d : Nat) : Sound (Value.read d) d := by
  induction d using Nat.strongRecOn with
  | ind d ih =>
    intro i j v h
    unfold Value.read at h
    simp only at h
    split at h
    · cases h
    · rename_i hi
      obtain ⟨k, hk, h⟩ := ok_of_bind h
      cases h
      exact ⟨.null, .null (mark_of_readIdent hi hk), .null, .null⟩
    · rename_i hi
      obtain ⟨k, hk, h⟩ := ok_of_bind h
      cases h
      exact ⟨.bool true, .true (mark_of_readIdent hi hk), .bool, .bool⟩
    · rename_i hi
      obtain ⟨k, hk, h⟩ := ok_of_bind h
      cases h
      exact ⟨.bool false, .false (mark_of_readIdent hi hk), .bool, .bool⟩
    · rename_i hi
      obtain ⟨l, hneg, hl, he, hr⟩ := number_of_read h
      refine ⟨.number l, .number ?_ he, .number hr, hr.within d⟩
      rw [mark_of_next? hi, hl, Literal.text, if_pos hneg]
      simp
    · rename_i hi
      obtain ⟨⟨s, k⟩, hk, h⟩ := ok_of_bind h
      cases h
      exact ⟨.string s, .string (mark_of_next? hi) (quoted_of_read hk), .string, .string⟩
    · rename_i hi
      -- the depth left is what the recursion goes down on
      cases d with
      | zero => cases h
      | succ d =>
        obtain ⟨⟨vs, k⟩, hk, h⟩ := ok_of_bind h
        cases h
        obtain ⟨ts, hts, hsay, hw⟩ := elements_of_read (ih d (Nat.lt_succ_self d)) hk
        exact ⟨.array ts, .array (mark_of_next? hi) hts, .array hsay, .array hw⟩
    · rename_i hi
      cases d with
      | zero => cases h
      | succ d =>
        obtain ⟨⟨ms, k⟩, hk, h⟩ := ok_of_bind h
        cases h
        obtain ⟨raw, hraw, hsay, hw⟩ := members_of_read (ih d (Nat.lt_succ_self d)) hk
        obtain ⟨hnames, hsaid⟩ := forall₂_members.mpr hsay
        refine ⟨.object raw, .object (mark_of_next? hi) hraw, .object hnames hsaid, ?_⟩
        exact .object (Table.sorted_ofList ms) fun m hm => hw m (Table.mem_of_mem_ofList hm)
    · split at h
      · obtain ⟨l, hneg, hl, he, hr⟩ := number_of_read h
        refine ⟨.number l, .number ?_ he, .number hr, hr.within d⟩
        rw [← dropWhile_skipBlanks, hl, Literal.text, hneg]
        simp
      · cases h

/-- A text that is read spells what is read. -/
theorem text_of_read {s : List UInt8} {v : Value} (h : Value.ofBytes s = .ok v) :
    ∃ t : Tree, t.Text s ∧ t.Says Literal.Reads v ∧ v.Within depthLimit := by
  obtain ⟨⟨w, i⟩, hw, h⟩ := ok_of_bind h
  obtain ⟨t, ht, hsaid, hwithin⟩ := sound_read depthLimit hw
  simp only at h
  split at h
  · rename_i hempty
    cases h
    refine ⟨t, ⟨i.rest, ht, ?_⟩, hsaid, hwithin⟩
    rw [← dropWhile_skipBlanks]
    exact List.isEmpty_iff.mp hempty
  · cases h

end OnceProxy.Json
