import OnceProxy.Proofs.Cbor.WellFormed

/-!
# Reading back items of any kind

Items without floats and without big numbers are read back from their bytes, whatever stands after
them, if they do not nest too deep.
-/

namespace OnceProxy.Cbor

/-- Items without floats and without tags for big numbers, whose numbers and lengths are of 64 bits.
Arrays, maps and tags nest up to the given depth. -/
inductive Value.Within : Nat → Value → Prop
  | integer {d : Nat} {n : Int} : -wordLimit ≤ n → n < wordLimit → Within d (.integer n)
  | bytes {d : Nat} {s : List UInt8} : s.length < wordLimit → Within d (.bytes s)
  | text {d : Nat} {s : String} :
      (Text.Utf8.ofString s).length < wordLimit → Within d (.text s)
  | bool {d : Nat} {b : Bool} : Within d (.bool b)
  | null {d : Nat} : Within d .null
  | tag {d n : Nat} {v : Value} :
      n < wordLimit → n ≠ 2 → n ≠ 3 → Within d v → Within (d + 1) (.tag n v)
  | array {d : Nat} {vs : List Value} :
      vs.length < wordLimit → (∀ v ∈ vs, Within d v) → Within (d + 1) (.array vs)
  | map {d : Nat} {entries : List (Value × Value)} :
      entries.length < wordLimit → (∀ e ∈ entries, Within d e.1) → (∀ e ∈ entries, Within d e.2) →
      Within (d + 1) (.map entries)

lemma encodeValues_eq (vs : List Value) : encodeValues vs = vs.flatMap Value.encode := by
  induction vs with
  | nil => rfl
  | cons v vs ih => rw [encodeValues, ih, List.flatMap_cons]

/-- The bytes of an entry of a map. -/
def encodeEntry (e : Value × Value) : List UInt8 := e.1.encode ++ e.2.encode

lemma encodeEntries_eq (es : List (Value × Value)) : encodeEntries es = es.flatMap encodeEntry := by
  induction es with
  | nil => rfl
  | cons e es ih => rw [encodeEntries, ih, List.flatMap_cons, encodeEntry]

/-! ### Heads -/

section

variable {n : Nat} (o : Nat) (r : List UInt8)

lemma read_ofInt {n : Int} (hl : -wordLimit ≤ n) (hu : n < wordLimit) :
    Head.read ⟨o, (Head.ofInt n).encode ++ r⟩ =
      .ok (Head.ofInt n, ⟨o + (Head.ofInt n).encode.length, r⟩) := by
  unfold Head.ofInt
  split
  · exact read_encodeArgument (by omega) (by omega) rfl o r
  · exact read_encodeArgument (by omega) (by omega) rfl o r

lemma read_encode_simple (hn : n < 24) :
    Head.read ⟨o, (Head.simple n).encode ++ r⟩ =
      .ok (.simple n, ⟨o + (Head.simple n).encode.length, r⟩) := by
  simp only [Head.encode, if_pos hn]
  exact read_simple hn o r

lemma read_encode_tag (hn : n < wordLimit) :
    Head.read ⟨o, (Head.tag n).encode ++ r⟩ =
      .ok (.tag n, ⟨o + (Head.tag n).encode.length, r⟩) :=
  read_encodeArgument (Nat.le_refl 6) hn rfl o r

lemma read_encode_bytes (hn : n < wordLimit) :
    Head.read ⟨o, (Head.bytes (some n)).encode ++ r⟩ =
      .ok (.bytes (some n), ⟨o + (Head.bytes (some n)).encode.length, r⟩) :=
  read_encodeArgument (by omega) hn rfl o r

lemma read_encode_text (hn : n < wordLimit) :
    Head.read ⟨o, (Head.text (some n)).encode ++ r⟩ =
      .ok (.text (some n), ⟨o + (Head.text (some n)).encode.length, r⟩) :=
  read_encodeArgument (by omega) hn rfl o r

lemma read_encode_array (hn : n < wordLimit) :
    Head.read ⟨o, (Head.array (some n)).encode ++ r⟩ =
      .ok (.array (some n), ⟨o + (Head.array (some n)).encode.length, r⟩) :=
  read_encodeArgument (by omega) hn rfl o r

lemma read_encode_map (hn : n < wordLimit) :
    Head.read ⟨o, (Head.map (some n)).encode ++ r⟩ =
      .ok (.map (some n), ⟨o + (Head.map (some n)).encode.length, r⟩) :=
  read_encodeArgument (by omega) hn rfl o r

end

/-- The head of an item is read first, and put back it is the item again. -/
lemma Value.Within.exists_head {d : Nat} {v : Value} (h : v.Within d) (o : Nat) (r : List UInt8) :
    ∃ head s, Head.read ⟨o, v.encode ++ r⟩ = .ok (head, ⟨o + head.encode.length, s⟩) ∧
      head.encode ++ s = v.encode ++ r := by
  cases h with
  | integer hl hu => exact ⟨_, r, read_ofInt o r hl hu, rfl⟩
  | bool => exact ⟨_, r, read_encode_simple o r (by split <;> omega), rfl⟩
  | null => exact ⟨_, r, read_encode_simple o r (by omega), rfl⟩
  | bytes hs =>
    simp only [encode, encodeBytes, List.append_assoc]
    exact ⟨_, _, read_encode_bytes o _ hs, rfl⟩
  | text hs =>
    simp only [encode, encodeText, List.append_assoc]
    exact ⟨_, _, read_encode_text o _ hs, rfl⟩
  | tag hn _ _ _ =>
    simp only [encode, List.append_assoc]
    exact ⟨_, _, read_encode_tag o _ hn, rfl⟩
  | array hn _ =>
    simp only [encode, List.append_assoc]
    exact ⟨_, _, read_encode_array o _ hn, rfl⟩
  | map hn _ _ =>
    simp only [encode, List.append_assoc]
    exact ⟨_, _, read_encode_map o _ hn, rfl⟩

/-! ### Items -/

/-- The entries of a map are read back if their keys and values are. -/
lemma readCounted_entries {item : Input → Except ReadError (Value × Input)}
    {entries : List (Value × Value)}
    (hk : ∀ e ∈ entries, ∀ o r,
      item ⟨o, e.1.encode ++ r⟩ = .ok (e.1, ⟨o + e.1.encode.length, r⟩))
    (hv : ∀ e ∈ entries, ∀ o r,
      item ⟨o, e.2.encode ++ r⟩ = .ok (e.2, ⟨o + e.2.encode.length, r⟩))
    (o : Nat) (r : List UInt8) :
    readCounted
      (fun i => do
        let (k, i) ← item i
        let (v, i) ← item i
        return ((k, v), i)) entries.length ⟨o, entries.flatMap encodeEntry ++ r⟩ =
      .ok (entries, ⟨o + (entries.flatMap encodeEntry).length, r⟩) := by
  apply readCounted_append
  intro e he o r
  simp only [encodeEntry, List.append_assoc, hk e he, hv e he, bind, Except.bind, pure,
    Except.pure, List.length_append, Nat.add_assoc]

/-- An item is read back from its bytes, whatever stands after them. -/
theorem Value.read_encode {d : Nat} {v : Value} (h : v.Within d) (o : Nat) (r : List UInt8) :
    Value.read d ⟨o, v.encode ++ r⟩ = .ok (v, ⟨o + v.encode.length, r⟩) := by
  induction h generalizing o r with
  | integer hl hu =>
    rename_i n
    have hr := read_ofInt o r hl hu
    rw [encode, Value.read]
    -- negative numbers are written by their distance from -1
    by_cases hn : 0 ≤ n
    · rw [Head.ofInt, if_pos hn] at hr ⊢
      simp only [hr, bind, Except.bind, pure, Except.pure, Int.toNat_of_nonneg hn]
    · have he : -1 - ((-1 - n).toNat : Int) = n := by omega
      rw [Head.ofInt, if_neg hn] at hr ⊢
      simp only [hr, bind, Except.bind, pure, Except.pure, he]
  | bool =>
    rename_i b
    rw [encode, Value.read]
    cases b <;> simp [read_encode_simple o r, bind, Except.bind, pure, Except.pure]
  | null =>
    rw [encode, Value.read]
    simp [read_encode_simple o r, bind, Except.bind, pure, Except.pure]
  | bytes hs =>
    rename_i s
    have hseg := segments_of_fill (k := byteSink) (s := []) (read_encode_bytes o (s ++ r) hs) (by simp)
      rfl (fill_byteSink s [] r o _)
    rw [encode, encodeBytes, List.append_assoc, Value.read]
    simp only [read_encode_bytes o (s ++ r) hs, bind, Except.bind, unread_eq, hseg, pure,
      Except.pure, List.nil_append, List.length_append, Nat.add_assoc]
  | text hs =>
    rename_i x
    generalize hx : Text.Utf8.ofString x = s at hs
    have htext : [] ++ s = Text.Utf8.encode x.toList := hx.symm
    have hseg := segments_of_fill (k := textSink) (s := ⟨[], []⟩) (read_encode_text o (s ++ r) hs)
      (by simp) rfl (fill_textSink htext rfl [] o _ r)
    rw [encode, encodeText, hx, List.append_assoc, Value.read]
    simp only [read_encode_text o (s ++ r) hs, bind, Except.bind, unread_eq, hseg, pure,
      Except.pure, List.nil_append, List.length_append, Nat.add_assoc, String.ofList_toList]
  | tag hn h2 h3 hv ih =>
    rename_i d t v
    rw [encode, List.append_assoc, Value.read]
    obtain ⟨head, s, hr, hs⟩ := hv.exists_head (o + (Head.tag t).encode.length) r
    -- the head of the tagged value is read ahead, and put back as it was
    have back : head.unread ⟨o + (Head.tag t).encode.length + head.encode.length, s⟩ =
        ⟨o + (Head.tag t).encode.length, v.encode ++ r⟩ := by
      rw [unread_eq, hs]
    have other (n : Nat) : ¬ ((t = 2 ∨ t = 3) ∧ n ≤ 16) := by omega
    simp only [read_encode_tag o _ hn, hr, bind, Except.bind, other, if_false, back, ih]
    rw [List.length_append, ← Nat.add_assoc]
    split <;> rfl
  | array hn _ ih =>
    rename_i vs _
    rw [encode, encodeValues_eq, List.append_assoc, Value.read]
    simp only [read_encode_array o _ hn, bind, Except.bind, readItems, readCounted_append ih,
      pure, Except.pure, List.length_append, Nat.add_assoc]
  | map hn _ _ ihk ihv =>
    have items := readCounted_entries ihk ihv
    rw [encode, encodeEntries_eq, List.append_assoc, Value.read]
    simp only [bind, Except.bind, pure, Except.pure] at items
    simp only [read_encode_map o _ hn, bind, Except.bind, readItems, items, pure, Except.pure,
      List.length_append, Nat.add_assoc]

end OnceProxy.Cbor
