import OnceProxy.Proofs.Cbor.ReadBack

/-!
# Data items that are cut short

The bytes of a head, a text or a byte string are not read if some of them are missing at the end.
Whatever is cut off, what is reported is that the input is over.
-/

namespace OnceProxy.Cbor

open Bytes

/-- What is cut short within two pieces is cut within the first, or it is all of the first and is
cut within the second. -/
lemma part_cases {p q s t : List UInt8} (h : p ++ q = s ++ t) :
    (∃ m, p ++ m = s ∧ m ≠ []) ∨ ∃ p', p = s ++ p' ∧ p' ++ q = t := by
  rcases List.append_eq_append_iff.mp h with ⟨m, hs, ht⟩ | ⟨m, hp, hm⟩
  · by_cases hm : m = []
    · subst hm
      rw [List.append_nil] at hs
      rw [List.nil_append] at ht
      exact .inr ⟨[], by rw [hs, List.append_nil], ht⟩
    · exact .inl ⟨m, hs.symm, hm⟩
  · exact .inr ⟨m, hp, hm.symm⟩

lemma length_lt_of_part {p q s : List UInt8} (h : p ++ q = s) (hq : q ≠ []) :
    p.length < s.length := by
  have := List.length_pos_iff.mpr hq
  rw [← h, List.length_append]
  omega

/-! ### Heads -/

/-- `w` tells the width of the argument, as in `read_long`. -/
lemma read_long_part {major n : Nat} (w : Nat) (hw : w ≤ 3) (hm : major ≤ 6) {p q : List UInt8}
    (h : p ++ q = bigEndian (1 <<< w) n) (hq : q ≠ []) (o : Nat) :
    Head.read ⟨o, UInt8.ofNat (major * 32 + (24 + w)) :: p⟩ = .error .endOfInput := by
  obtain ⟨-, hinfo⟩ := first_parts (show major ≤ 7 by omega) (show 24 + w < 32 by omega)
  have hlen := length_lt_of_part h hq
  rw [length_bigEndian] at hlen
  have hbytes : readBytes (1 <<< w) ⟨o + 1, p⟩ = .error .endOfInput := readBytes_part hlen
  simp only [Head.read, hinfo]
  rw [if_neg (by omega), if_neg (by omega), if_neg (by omega), Nat.add_sub_cancel_left, hbytes]

lemma read_encodeArgument_part {major n : Nat} (hm : major ≤ 6) {p q : List UInt8}
    (h : p ++ q = encodeArgument major n) (hq : q ≠ []) (o : Nat) :
    Head.read ⟨o, p⟩ = .error .endOfInput := by
  cases p with
  | nil => rfl
  | cons b p =>
    unfold encodeArgument at h
    split at h
    · obtain ⟨-, hnil⟩ := List.cons.inj h
      exact absurd (List.append_eq_nil_iff.mp hnil).2 hq
    split at h
    · obtain ⟨rfl, hp⟩ := List.cons.inj h
      exact read_long_part 0 (by omega) hm hp hq o
    split at h
    · obtain ⟨rfl, hp⟩ := List.cons.inj h
      exact read_long_part 1 (by omega) hm hp hq o
    split at h
    · obtain ⟨rfl, hp⟩ := List.cons.inj h
      exact read_long_part 2 (by omega) hm hp hq o
    · obtain ⟨rfl, hp⟩ := List.cons.inj h
      exact read_long_part 3 (by omega) hm hp hq o

lemma readUntagged_of_error {i : Input} {e : ReadError} (h : Head.read i = .error e) :
    readUntagged i = .error e := by
  rw [readUntagged]
  split
  · rename_i he
    rw [h] at he
    cases he
    rfl
  · rename_i he
    rw [h] at he
    cases he
  · rename_i he
    rw [h] at he
    cases he

lemma readInteger_of_error {i : Input} {e : ReadError} (h : Head.read i = .error e) :
    readInteger i = .error e := by
  rw [readInteger]
  split
  · rename_i he
    rw [h] at he
    cases he
    rfl
  all_goals
    rename_i he
    rw [h] at he
    cases he

lemma readUnsigned_part {n : Nat} {p q : List UInt8} (h : p ++ q = (Head.positive n).encode)
    (hq : q ≠ []) (o : Nat) : readUnsigned ⟨o, p⟩ = .error .endOfInput := by
  have hr : Head.read ⟨o, p⟩ = .error .endOfInput := read_encodeArgument_part (by omega) h hq o
  simp only [readUnsigned, readInteger_of_error hr, bind, Except.bind]

lemma readSequence_part {n : Nat} {p q : List UInt8} (h : p ++ q = (Head.array (some n)).encode)
    (hq : q ≠ []) (o : Nat) : readSequence ⟨o, p⟩ = .error .endOfInput := by
  have hr : Head.read ⟨o, p⟩ = .error .endOfInput := read_encodeArgument_part (by omega) h hq o
  simp only [readSequence, readUntagged_of_error hr, bind, Except.bind]

/-! ### Strings -/

section

variable {σ : Type} {k : Sink σ}

/-- The fault of a string that stands in one piece is that of its segment. -/
lemma segments_of_fill_error {i j : Input} {head : Head} {n : Nat} {s : σ} {e : ReadError}
    (hr : Head.read i = .ok (head, j)) (hstop : head ≠ .stop)
    (hopens : k.opens head = some (some n)) (hfill : k.fill i.offset n s j = .error e) :
    k.segments 0 s i = .error e := by
  rw [Sink.segments]
  split
  · rename_i he
    rw [hr] at he
    cases he
  · rename_i he
    rw [hr] at he
    cases he
    rw [if_neg (fun h => hstop h.1), if_neg (fun h => hstop h.1)]
    split
    · rename_i ho
      rw [hopens] at ho
      cases ho
    · rename_i ho
      rw [hopens] at ho
      cases ho
    · rename_i ho
      rw [hopens] at ho
      cases ho
      split
      · rename_i hf
        rw [hfill] at hf
        cases hf
        rfl
      · rename_i hf
        rw [hfill] at hf
        cases hf

end

lemma fill_byteSink_part {unread : Nat} {s : List UInt8} (h : s.length < unread)
    (acc : List UInt8) (at_ o : Nat) :
    byteSink.fill at_ unread acc ⟨o, s⟩ = .error .endOfInput := by
  induction unread using Nat.strongRecOn generalizing s acc o with
  | ind unread ih =>
    obtain ⟨n, hpos, hle, hstep⟩ := fill_step (k := byteSink) (show 0 < unread by omega) acc
    rcases Nat.lt_or_ge s.length n with hlen | hlen
    · exact (hstep at_ o s).1 hlen
    · rw [(hstep at_ o s).2 hlen _ rfl]
      refine ih _ (by omega) ?_ _ _
      rw [List.length_drop]
      omega

/-- Up to where a text is cut there is no fault in its characters. -/
lemma fill_textSink_part {cs : List Char} {p q carried : List UInt8}
    (h : carried ++ (p ++ q) = Text.Utf8.encode cs) (hq : q ≠ []) (text : List Char) (at_ o : Nat) :
    textSink.fill at_ (p ++ q).length ⟨text, carried⟩ ⟨o, p⟩ = .error .endOfInput := by
  induction hl : p.length using Nat.strongRecOn generalizing p carried cs text o with
  | ind len ih =>
    subst hl
    have hpart := length_lt_of_part (p := p) rfl hq
    obtain ⟨n, hpos, hle, hstep⟩ :=
      fill_step (k := textSink) (show 0 < (p ++ q).length by omega) ⟨text, carried⟩
    -- either the next chunk is already too long, or it is read as in the whole text
    rcases Nat.lt_or_ge p.length n with hlen | hlen
    · exact (hstep at_ o p).1 hlen
    · have hcut : (carried ++ p.take n) ++ (p.drop n ++ q) = Text.Utf8.encode cs := by
        rw [← h, List.append_assoc, ← List.append_assoc (p.take n), List.take_append_drop]
      obtain ⟨cs₁, cs₂, rest, hd, -, hrest, hshort, -⟩ := Text.Utf8.decodeRun_part hcut
      have htake : textSink.take ⟨text, carried⟩ at_ (p.take n) = .ok ⟨text ++ cs₁, rest⟩ := by
        simp only [textSink, hd]
        rw [if_neg (by omega)]
      have hdrop : (p.drop n).length = p.length - n := List.length_drop
      have hleft : (p ++ q).length - n = (p.drop n ++ q).length := by
        rw [List.length_append, List.length_append, hdrop]
        omega
      rw [(hstep at_ o p).2 hlen _ htake, hleft]
      exact ih _ (by omega) hrest _ _ rfl

lemma readByteString_part {s p q : List UInt8} (hs : s.length < wordLimit)
    (h : p ++ q = encodeBytes s) (hq : q ≠ []) (o : Nat) :
    readByteString ⟨o, p⟩ = .error .endOfInput := by
  rcases part_cases h with ⟨m, hp, hm⟩ | ⟨p', rfl, hp'⟩
  · have hr : Head.read ⟨o, p⟩ = .error .endOfInput :=
      read_encodeArgument_part (by omega) hp hm o
    simp only [readByteString, readUntagged_of_error hr, bind, Except.bind]
  · have hr : Head.read ⟨o, (Head.bytes (some s.length)).encode ++ p'⟩ =
        .ok (.bytes (some s.length), ⟨o + (Head.bytes (some s.length)).encode.length, p'⟩) :=
      read_encodeArgument (by omega) hs rfl o p'
    have hseg := segments_of_fill_error (k := byteSink) (s := []) hr (by simp) rfl
      (fill_byteSink_part (length_lt_of_part hp' hq) [] o _)
    simp only [readByteString, readUntagged_of_read hr (by simp), bind, Except.bind, unread_eq,
      hseg]

lemma readText_part {x : String} {p q : List UInt8}
    (hx : (Text.Utf8.ofString x).length < wordLimit) (h : p ++ q = encodeText x) (hq : q ≠ [])
    (o : Nat) : readText ⟨o, p⟩ = .error .endOfInput := by
  rcases part_cases h with ⟨m, hp, hm⟩ | ⟨p', rfl, hp'⟩
  · have hr : Head.read ⟨o, p⟩ = .error .endOfInput :=
      read_encodeArgument_part (by omega) hp hm o
    simp only [readText, readUntagged_of_error hr, bind, Except.bind]
  · rw [← hp'] at hx ⊢
    have hr : Head.read ⟨o, (Head.text (some (p' ++ q).length)).encode ++ p'⟩ =
        .ok (.text (some (p' ++ q).length),
          ⟨o + (Head.text (some (p' ++ q).length)).encode.length, p'⟩) :=
      read_encodeArgument (by omega) hx rfl o p'
    have hcs : [] ++ (p' ++ q) = Text.Utf8.encode x.toList := hp'
    have hseg := segments_of_fill_error (k := textSink) (s := ⟨[], []⟩) hr (by simp) rfl
      (fill_textSink_part hcs hq [] o _)
    simp only [readText, readUntagged_of_read hr (by simp), bind, Except.bind, unread_eq, hseg]

end OnceProxy.Cbor
