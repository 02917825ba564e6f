import OnceProxy.Json.Reader
import OnceProxy.Proofs.Input
import OnceProxy.Proofs.Text.Utf8

/-!
# Strings in JSON texts

What stands between the quotes of a string, and the text that it spells. The reader accepts just
this, and finds the text.
-/

namespace OnceProxy.Json

open Text

/-- Four hexadecimal digits. -/
inductive Hex : Nat → List UInt8 → List UInt8 → Prop
  | mk {a b c d : UInt8} {k l m n : Nat} {r : List UInt8} :
      hexDigit? a = some k → hexDigit? b = some l → hexDigit? c = some m → hexDigit? d = some n →
      Hex (k * 4096 + l * 256 + m * 16 + n) (a :: b :: c :: d :: r) r

/-- The code of a character: four hexadecimal digits, or two surrogates for a character above
U+FFFF. -/
inductive Code : Char → List UInt8 → List UInt8 → Prop
  | single {n : Nat} {s r : List UInt8} :
      Hex n s r → ¬ (0xD800 ≤ n ∧ n ≤ 0xDFFF) → Code (Char.ofNat n) s r
  | pair {m n : Nat} {s t r : List UInt8} :
      Hex m s (92 :: 117 :: t) → 0xD800 ≤ m ∧ m ≤ 0xDBFF → Hex n t r → 0xDC00 ≤ n ∧ n ≤ 0xDFFF →
      Code (Char.ofNat ((m - 0xD800) * 1024 + (n - 0xDC00) + 0x10000)) s r

/-- The character that a letter after a backslash stands for. -/
def shortEscape? : UInt8 → Option Char
  | 34 => some '"'
  | 92 => some '\\'
  | 47 => some '/'
  | 98 => some (Char.ofNat 8)
  | 102 => some (Char.ofNat 12)
  | 110 => some '\n'
  | 114 => some '\r'
  | 116 => some '\t'
  | _ => none

/-- What stands after a backslash for one character. -/
inductive Escape : Char → List UInt8 → List UInt8 → Prop
  | short {c : Char} {b : UInt8} {r : List UInt8} : shortEscape? b = some c → Escape c (b :: r) r
  | code {c : Char} {s r : List UInt8} : Code c s r → Escape c (117 :: s) r

/-- A character that stands for itself in a string. -/
def IsPlain (c : Char) : Prop := 32 ≤ c.toNat ∧ c ≠ '"' ∧ c ≠ '\\'

/-- What stands after the first quote of a string, with the last quote. -/
inductive Quoted : List Char → List UInt8 → List UInt8 → Prop
  | close {r : List UInt8} : Quoted [] (34 :: r) r
  | plain {c : Char} {cs : List Char} {s r : List UInt8} :
      IsPlain c → Quoted cs s r → Quoted (c :: cs) (Utf8.encodeChar c ++ s) r
  | escape {c : Char} {cs : List Char} {s t r : List UInt8} :
      Escape c s t → Quoted cs t r → Quoted (c :: cs) (92 :: s) r

/-! ### Escapes -/

lemma Hex.read {n : Nat} {s r : List UInt8} (h : Hex n s r) (o : Nat) :
    readHex ⟨o, s⟩ = .ok (n, ⟨o + 4, r⟩) := by
  cases h with
  | mk ha hb hc hd => simp only [readHex, ha, hb, hc, hd, Input.skip, List.drop_succ_cons, List.drop_zero]

lemma hex_of_read {n : Nat} {i j : Input} (h : readHex i = .ok (n, j)) : Hex n i.rest j.rest := by
  unfold readHex at h
  split at h
  · rename_i hi
    split at h
    · cases h
      simp only [Input.skip, hi, List.drop_succ_cons, List.drop_zero]
      constructor <;> assumption
    · cases h
  · cases h

lemma Code.read {c : Char} {s r : List UInt8} (h : Code c s r) (o : Nat) :
    ∃ p, readCode ⟨o, s⟩ = .ok (c, ⟨p, r⟩) := by
  cases h with
  | single hs hn =>
    refine ⟨o + 4, ?_⟩
    simp only [readCode, hs.read, bind, Except.bind]
    rw [if_neg (by omega), if_neg (by omega)]
    rfl
  | pair hs hm ht hn =>
    have mark (b : UInt8) (o : Nat) (s : List UInt8) :
        readSurrogateMark b ⟨o, b :: s⟩ = .ok ⟨o + 1, s⟩ := if_pos rfl
    refine ⟨o + 4 + 1 + 1 + 4, ?_⟩
    simp only [readCode, hs.read, bind, Except.bind]
    rw [if_neg (by omega), if_pos hm]
    simp only [mark, ht.read, if_pos hn]
    rfl

lemma rest_of_readSurrogateMark {b : UInt8} {i j : Input} (h : readSurrogateMark b i = .ok j) :
    i.rest = b :: j.rest := by
  unfold readSurrogateMark at h
  split at h
  · cases h
  · rename_i c hi
    split at h
    · rename_i hc
      cases h
      rw [Input.rest_of_next? hi, hc]
    · cases h

lemma code_of_read {c : Char} {i j : Input} (h : readCode i = .ok (c, j)) :
    Code c i.rest j.rest := by
  obtain ⟨⟨n, i₁⟩, hn, h⟩ := ok_of_bind h
  have first : Hex n i.rest i₁.rest := hex_of_read hn
  simp only at h
  split at h
  · cases h
  split at h
  · -- a high half wants the low one right after it, in a second escape
    rename_i high
    obtain ⟨i₂, h₂, h⟩ := ok_of_bind h
    obtain ⟨i₃, h₃, h⟩ := ok_of_bind h
    obtain ⟨⟨m, i₄⟩, hm, h⟩ := ok_of_bind h
    rw [rest_of_readSurrogateMark h₂, rest_of_readSurrogateMark h₃] at first
    simp only at h
    split at h
    · rename_i low
      simp only [pure, Except.pure, Except.ok.injEq, Prod.mk.injEq] at h
      obtain ⟨rfl, rfl⟩ := h
      exact .pair first high (hex_of_read hm) low
    · cases h
  · cases h
    exact .single first (by omega)

lemma Escape.read {c : Char} {s r : List UInt8} (h : Escape c s r) (o : Nat) :
    ∃ p, readEscape ⟨o, s⟩ = .ok (c, ⟨p, r⟩) := by
  cases h with
  | short hb =>
    refine ⟨o + 1, ?_⟩
    unfold shortEscape? at hb
    split at hb <;> cases hb <;> rfl
  | code hc => exact hc.read (o + 1)

lemma escape_of_read {c : Char} {i j : Input} (h : readEscape i = .ok (c, j)) :
    Escape c i.rest j.rest := by
  have short {b : UInt8} (hi : i.next? = some b) (hb : shortEscape? b = some c)
      (hj : i.skip 1 = j) : Escape c i.rest j.rest := by
    rw [Input.rest_of_next? hi, hj]
    exact .short hb
  unfold readEscape at h
  simp only at h
  split at h
  -- the four-digit escape; the short ones are read from the table
  case h_10 hi =>
    rw [Input.rest_of_next? hi]
    exact .code (code_of_read h)
  case h_1 => cases h
  case h_11 => cases h
  all_goals
    rename_i hi
    cases h
    exact short hi rfl rfl

lemma Escape.length_lt {c : Char} {s r : List UInt8} (h : Escape c s r) : r.length < s.length := by
  have hex {n : Nat} {s r : List UInt8} (h : Hex n s r) : s.length = r.length + 4 := by
    cases h
    rfl
  cases h with
  | short => simp
  | code hc =>
    cases hc with
    | single hs =>
      have := hex hs
      simp
      omega
    | pair hs _ ht =>
      have := hex hs
      have := hex ht
      simp at *
      omega

/-! ### Plain characters -/

lemma isPlain_iff {b : UInt8} :
    Json.isPlain b = true ↔ 32 ≤ b.toNat ∧ b.toNat ≠ 34 ∧ b.toNat ≠ 92 := by
  simp [Json.isPlain, UInt8.le_iff_toNat_le, ← UInt8.toNat_inj, and_assoc]

lemma IsPlain.iff_toNat {c : Char} : IsPlain c ↔ 32 ≤ c.toNat ∧ c.toNat ≠ 34 ∧ c.toNat ≠ 92 := by
  have eq (d : Char) : c = d ↔ c.toNat = d.toNat := Char.toNat_inj.symm
  simp only [IsPlain, Ne, eq]
  rfl

lemma IsPlain.iff_bytes {c : Char} : IsPlain c ↔ ∀ b ∈ Utf8.encodeChar c, Json.isPlain b := by
  rw [IsPlain.iff_toNat]
  constructor
  · intro h b hb
    rw [isPlain_iff]
    have := Utf8.mem_encodeChar hb
    omega
  · intro h
    obtain ⟨b, hb⟩ := List.exists_mem_of_ne_nil _ (Utf8.encodeChar_ne_nil c)
    have plain := isPlain_iff.mp (h b hb)
    have := Utf8.mem_encodeChar hb
    omega

/-! ### Reading strings -/

lemma textOfPieces_plain {c : Char} {cs : List Char} {w : List UInt8} {ps : List Piece} {p : Nat}
    (o : Nat) (h : textOfPieces (.plain p w :: ps) = .ok cs) :
    textOfPieces (.plain o (Utf8.encodeChar c ++ w) :: ps) = .ok (c :: cs) := by
  simp only [textOfPieces, Utf8.decodeRun_of_some (Utf8.next?_encodeChar c w)] at h ⊢
  split at h
  · rename_i hw
    obtain ⟨ds, hds, rfl⟩ := ok_of_map h
    rw [hw]
    simp only [hds, Except.map, List.cons_append]
  · cases h

lemma readPieces_plain {e s : List UInt8} {n o : Nat} {ps : List Piece} {j : Input}
    (he : ∀ b ∈ e, isPlain b)
    (h : readPieces (n + 1) ⟨o + e.length, s⟩ =
      .ok (.plain (o + e.length) (s.takeWhile isPlain) :: ps, j)) :
    readPieces (n + 1) ⟨o, e ++ s⟩ = .ok (.plain o ((e ++ s).takeWhile isPlain) :: ps, j) := by
  -- the run of plain bytes gets longer at its front, and what follows it stays
  have hw : (e ++ s).takeWhile isPlain = e ++ s.takeWhile isPlain := List.takeWhile_append_of_pos he
  have hj : Input.skip ((e ++ s).takeWhile isPlain).length ⟨o, e ++ s⟩ =
      Input.skip (s.takeWhile isPlain).length ⟨o + e.length, s⟩ := by
    rw [hw, List.length_append]
    simp only [Input.skip, List.drop_append, List.drop_of_length_le (Nat.le_add_right ..),
      List.nil_append, Nat.add_sub_cancel_left, Nat.add_assoc]
  simp only [readPieces] at h ⊢
  rw [hj]
  split at h
  · cases h
  · cases h
    rfl
  · obtain ⟨⟨c, i₁⟩, hc, h⟩ := ok_of_bind h
    obtain ⟨⟨qs, i₂⟩, hq, h⟩ := ok_of_bind h
    cases h
    simp only [hc, hq, bind, Except.bind]
    rfl
  · cases h

lemma readPieces_escape {s : List UInt8} {n o : Nat} {c : Char} {ps : List Piece} {i j : Input}
    (hc : readEscape ⟨o + 1, s⟩ = .ok (c, i)) (hp : readPieces n i = .ok (ps, j)) :
    readPieces (n + 1) ⟨o, 92 :: s⟩ = .ok (.plain o [] :: .escaped c :: ps, j) := by
  have hw : (92 :: s).takeWhile isPlain = [] := rfl
  have hi : Input.skip 1 (Input.skip 0 ⟨o, 92 :: s⟩) = ⟨o + 1, s⟩ := rfl
  have hnext : Input.next? (Input.skip 0 ⟨o, 92 :: s⟩) = some 92 := rfl
  simp only [readPieces, hw, List.length_nil, hnext, hi, hc, hp, bind, Except.bind]
  rfl

/-- What is quoted is read as pieces, the first of them the bytes at its start that stand for
themselves, and the text of the pieces is what is quoted. -/
lemma Quoted.readPieces {cs : List Char} {s r : List UInt8} (h : Quoted cs s r) {n : Nat}
    (hn : s.length ≤ n) (o : Nat) :
    ∃ ps p, Json.readPieces (n + 1) ⟨o, s⟩ =
        .ok (.plain o (s.takeWhile Json.isPlain) :: ps, ⟨p, r⟩) ∧
      textOfPieces (.plain o (s.takeWhile Json.isPlain) :: ps) = .ok cs := by
  induction h generalizing n o with
  | @close r =>
    refine ⟨[], o + 1, rfl, ?_⟩
    change textOfPieces [.plain o []] = _
    rw [textOfPieces, Utf8.decodeRun_of_none rfl]
    rfl
  | @plain c cs s r hc _ ih =>
    have plain := IsPlain.iff_bytes.mp hc
    have shorter : s.length ≤ n := by
      rw [List.length_append] at hn
      omega
    obtain ⟨ps, p, hr, ht⟩ := ih shorter (o + (Utf8.encodeChar c).length)
    refine ⟨ps, p, readPieces_plain plain hr, ?_⟩
    rw [List.takeWhile_append_of_pos plain]
    exact textOfPieces_plain o ht
  | @escape c cs s t r hc _ ih =>
    have shorter := hc.length_lt
    obtain ⟨m, rfl⟩ : ∃ m, n = m + 1 := Nat.exists_eq_succ_of_ne_zero (by simp at hn; omega)
    obtain ⟨q, hq⟩ := hc.read (o + 1)
    obtain ⟨ps, p, hr, ht⟩ := ih (n := m) (by simp at hn; omega) q
    -- the empty run before the escape decodes to no character
    refine ⟨.escaped c :: .plain q (t.takeWhile Json.isPlain) :: ps, p, ?_, ?_⟩
    · exact readPieces_escape hq hr
    · change textOfPieces (.plain o [] :: _) = _
      rw [textOfPieces, Utf8.decodeRun_of_none rfl]
      simp only [textOfPieces] at ht ⊢
      rw [ht]
      rfl

/-- What stands after a quote is read as the string that it quotes. -/
lemma Quoted.read {cs : List Char} {s r : List UInt8} (h : Quoted cs s r) (o : Nat) :
    ∃ p, readString ⟨o, s⟩ = .ok (String.ofList cs, ⟨p, r⟩) := by
  obtain ⟨ps, p, hr, ht⟩ := h.readPieces (Nat.le_refl s.length) o
  refine ⟨p, ?_⟩
  simp only [readString, hr, ht, bind, Except.bind]
  rfl

/-- No two strings stand at one place. -/
lemma Quoted.unique {cs ds : List Char} {s r t : List UInt8} (h : Quoted cs s r)
    (h' : Quoted ds s t) : cs = ds ∧ r = t := by
  obtain ⟨p, hp⟩ := h.read 0
  obtain ⟨q, hq⟩ := h'.read 0
  rw [hp] at hq
  simp only [Except.ok.injEq, Prod.mk.injEq, Input.mk.injEq] at hq
  exact ⟨String.ofList_injective hq.1, hq.2.2⟩

lemma quoted_of_plain {cs ds : List Char} {s r : List UInt8}
    (hp : ∀ b ∈ Utf8.encode cs, Json.isPlain b) (h : Quoted ds s r) :
    Quoted (cs ++ ds) (Utf8.encode cs ++ s) r := by
  induction cs with
  | nil => exact h
  | cons c cs ih =>
    rw [Utf8.encode_cons, List.forall_mem_append] at hp
    rw [Utf8.encode_cons, List.append_assoc]
    exact .plain (IsPlain.iff_bytes.mpr hp.1) (ih hp.2)

lemma quoted_of_readPieces {n : Nat} {i j : Input} {ps : List Piece} {cs : List Char}
    (h : readPieces n i = .ok (ps, j)) (ht : textOfPieces ps = .ok cs) :
    Quoted cs i.rest j.rest := by
  induction n generalizing i ps cs with
  | zero => cases h
  | succ n ih =>
    simp only [readPieces] at h
    generalize hw : i.rest.takeWhile isPlain = w at h
    have plain : ∀ b ∈ w, isPlain b := by
      rw [← hw]
      exact fun b => List.all_eq_true.mp List.all_takeWhile b
    have rest : i.rest = w ++ (i.skip w.length).rest := by
      rw [← hw, Input.rest_skip_takeWhile, List.takeWhile_append_dropWhile]
    -- the pieces start with the bytes that stand for themselves
    have start {qs : List Piece} (h : textOfPieces (.plain i.offset w :: qs) = .ok cs) :
        ∃ ds es, w = Utf8.encode ds ∧ textOfPieces qs = .ok es ∧ cs = ds ++ es := by
      simp only [textOfPieces] at h
      split at h
      · rename_i ds hd
        obtain ⟨es, he, rfl⟩ := ok_of_map h
        exact ⟨ds, es, by simpa using Utf8.eq_of_decodeRun hd, he, rfl⟩
      · cases h
    split at h
    · cases h
    · rename_i hi
      cases h
      obtain ⟨ds, es, rfl, he, rfl⟩ := start ht
      cases he
      rw [rest, Input.rest_of_next? hi]
      exact quoted_of_plain plain .close
    · rename_i hi
      obtain ⟨⟨c, i₁⟩, hc, h⟩ := ok_of_bind h
      obtain ⟨⟨qs, i₂⟩, hq, h⟩ := ok_of_bind h
      cases h
      obtain ⟨ds, es, rfl, he, rfl⟩ := start ht
      -- the character of the escape, then those of the pieces after it
      obtain ⟨fs, hf, rfl⟩ := ok_of_map he
      rw [rest, Input.rest_of_next? hi]
      exact quoted_of_plain plain (.escape (escape_of_read hc) (ih hq hf))
    · cases h

/-- What is read as a string is quoted there. -/
lemma quoted_of_read {i j : Input} {s : String} (h : readString i = .ok (s, j)) :
    Quoted s.toList i.rest j.rest := by
  obtain ⟨⟨ps, i₁⟩, hp, h⟩ := ok_of_bind h
  obtain ⟨cs, ht, h⟩ := ok_of_bind h
  cases h
  rw [String.toList_ofList]
  exact quoted_of_readPieces hp ht

/-! ### Writing strings -/

lemma hex_of_digits {k : Nat} (hk : k < 32) (r : List UInt8) :
    Hex k (48 :: 48 :: UInt8.ofNat (Nat.digitChar (k / 16)).toNat ::
      UInt8.ofNat (Nat.digitChar (k % 16)).toNat :: r) r := by
  have digit (n : Fin 16) : hexDigit? (UInt8.ofNat (Nat.digitChar n).toNat) = some n.val := by
    revert n
    decide
  have h := Hex.mk (r := r) (a := 48) (b := 48) (k := 0) (l := 0) rfl rfl
    (digit ⟨k / 16, by omega⟩) (digit ⟨k % 16, by omega⟩)
  have hk' : 0 * 4096 + 0 * 256 + k / 16 * 16 + k % 16 = k := by omega
  rwa [hk'] at h

lemma quoted_quoteChar {c : Char} {cs : List Char} {s r : List UInt8} (h : Quoted cs s r) :
    Quoted (c :: cs) (Utf8.encode (quoteChar c) ++ s) r := by
  have short {b : UInt8} (hb : shortEscape? b = some c) : Quoted (c :: cs) (92 :: b :: s) r :=
    .escape (.short hb) h
  have eq {n : Nat} (hn : c.toNat = n) : c = Char.ofNat n := by rw [← hn, Char.ofNat_toNat]
  unfold quoteChar
  simp only
  split
  · rename_i hc
    exact short (b := 34) (by rw [hc]; rfl)
  split
  · rename_i hc
    exact short (b := 92) (by rw [hc]; rfl)
  split
  · rename_i hc
    exact short (b := 98) (by rw [eq hc]; rfl)
  split
  · rename_i hc
    exact short (b := 116) (by rw [eq hc]; rfl)
  split
  · rename_i hc
    exact short (b := 110) (by rw [eq hc]; rfl)
  split
  · rename_i hc
    exact short (b := 102) (by rw [eq hc]; rfl)
  split
  · rename_i hc
    exact short (b := 114) (by rw [eq hc]; rfl)
  split
  · rename_i hc
    -- a control character without a short escape is written with its code
    have code := Code.single (hex_of_digits hc s) (by omega)
    rw [Char.ofNat_toNat] at code
    have ascii (n : Fin 16) : (Nat.digitChar n).toNat < 0x80 := by
      revert n
      decide
    have high := Utf8.encodeChar_of_lt (ascii ⟨c.toNat / 16, by omega⟩)
    have low := Utf8.encodeChar_of_lt (ascii ⟨c.toNat % 16, by omega⟩)
    simp only [Utf8.encode_cons, high, low]
    exact .escape (.code code) h
  · have plain : IsPlain c := by
      rw [IsPlain.iff_toNat]
      refine ⟨by omega, fun hn => ?_, fun hn => ?_⟩ <;> exact absurd (eq hn) (by assumption)
    rw [Utf8.encode_cons, List.append_assoc]
    exact .plain plain h

/-- A string is written in quotes. -/
lemma quoted_quote (s : String) (r : List UInt8) :
    ∃ t, Utf8.encode (quote s) ++ r = 34 :: t ∧ Quoted s.toList t r := by
  refine ⟨Utf8.encode (s.toList.flatMap quoteChar) ++ 34 :: r, ?_, ?_⟩
  · simp only [quote, Utf8.encode_cons, Utf8.encode_append, List.append_assoc]
    rfl
  · induction s.toList with
    | nil => exact .close
    | cons c cs ih =>
      rw [List.flatMap_cons, Utf8.encode_append, List.append_assoc]
      exact quoted_quoteChar ih


end OnceProxy.Json
