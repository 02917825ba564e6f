import Mathlib.Tactic.Common
import Mathlib.Tactic.Ring
import OnceProxy.Cbor.Value
import OnceProxy.Proofs.Text.Utf8

/-!
# Reading back data items

Heads, texts and byte strings are read back from their bytes, whatever stands after them, as long as
their lengths fit into 64 bits.
-/

namespace OnceProxy

/-- Numbers are read back from as many bytes as they need. -/
lemma Bytes.ofBigEndian_bigEndian (width n : Nat) :
    ofBigEndian (bigEndian width n) = n % 256 ^ width := by
  have fold (width m n : Nat) : (bigEndian width n).foldl (fun k b => k * 256 + b.toNat) m =
      m * 256 ^ width + n % 256 ^ width := by
    induction width generalizing m with
    | zero => simp [bigEndian, Nat.mod_one]
    | succ w ih =>
      have hb : (UInt8.ofNat (n / Nat.pow 256 w % 256)).toNat = n / 256 ^ w % 256 :=
        Text.Utf8.toNat_ofNat_of_lt (Nat.mod_lt _ (by omega))
      rw [bigEndian, List.foldl_cons, ih, hb, Nat.pow_succ, Nat.mod_mul]
      ring
  rw [ofBigEndian, fold, Nat.zero_mul, Nat.zero_add]

namespace Cbor

open Bytes

lemma readBytes_append (s r : List UInt8) (o : Nat) :
    readBytes s.length ⟨o, s ++ r⟩ = .ok (s, ⟨o + s.length, r⟩) := by
  simp [readBytes, Input.skip]

/-! ### Heads -/

/-- The major type and the rest of a first byte are found again. -/
lemma first_parts {major info : Nat} (hm : major ≤ 7) (hi : info < 32) :
    (UInt8.ofNat (major * 32 + info)).toNat / 32 = major ∧
    (UInt8.ofNat (major * 32 + info)).toNat % 32 = info := by
  have hb : (UInt8.ofNat (major * 32 + info)).toNat = major * 32 + info :=
    Text.Utf8.toNat_ofNat_of_lt (by omega)
  omega

section

variable {major n : Nat} {head : Head}

lemma read_short (hm : major ≤ 6) (hn : n < 24) (hh : Head.ofArgument major (some n) = some head)
    (o : Nat) (r : List UInt8) :
    Head.read ⟨o, UInt8.ofNat (major * 32 + n) :: r⟩ = .ok (head, ⟨o + 1, r⟩) := by
  obtain ⟨hmajor, hinfo⟩ := first_parts (show major ≤ 7 by omega) (show n < 32 by omega)
  have hbytes := readBytes_append [] r (o + 1)
  rw [List.nil_append, List.length_nil] at hbytes
  simp only [Head.read, hmajor, hinfo]
  rw [if_neg (by omega), if_neg (by omega), if_pos hn, hbytes]
  simp only [if_neg (show major ≠ 7 by omega), if_pos hn, hh]

/-- `w` tells the width of the argument, which is one byte, or two, or four, or eight. -/
lemma read_long {w : Nat} (hw : w ≤ 3) (hm : major ≤ 6) {s : List UInt8} (hs : s.length = 1 <<< w)
    (hh : Head.ofArgument major (some (ofBigEndian s)) = some head) (o : Nat) (r : List UInt8) :
    Head.read ⟨o, UInt8.ofNat (major * 32 + (24 + w)) :: (s ++ r)⟩ =
      .ok (head, ⟨o + 1 + 1 <<< w, r⟩) := by
  obtain ⟨hmajor, hinfo⟩ := first_parts (show major ≤ 7 by omega) (show 24 + w < 32 by omega)
  have hbytes := readBytes_append s r (o + 1)
  rw [hs] at hbytes
  simp only [Head.read, hmajor, hinfo]
  rw [if_neg (by omega), if_neg (by omega), if_neg (by omega), Nat.add_sub_cancel_left, hbytes]
  simp only [if_neg (show major ≠ 7 by omega), if_neg (show ¬ 24 + w < 24 by omega), hh]

lemma read_bigEndian (w : Nat) (hw : w ≤ 3) (hm : major ≤ 6) (hn : n < 256 ^ (1 <<< w))
    (hh : Head.ofArgument major (some n) = some head) (o : Nat) (r : List UInt8) :
    Head.read ⟨o, UInt8.ofNat (major * 32 + (24 + w)) :: (bigEndian (1 <<< w) n ++ r)⟩ =
      .ok (head, ⟨o + 1 + 1 <<< w, r⟩) := by
  rw [← Nat.mod_eq_of_lt hn, ← ofBigEndian_bigEndian] at hh
  exact read_long hw hm (length_bigEndian _ n) hh o r

lemma read_encodeArgument (hm : major ≤ 6) (hn : n < wordLimit)
    (hh : Head.ofArgument major (some n) = some head) (o : Nat) (r : List UInt8) :
    Head.read ⟨o, encodeArgument major n ++ r⟩ =
      .ok (head, ⟨o + (encodeArgument major n).length, r⟩) := by
  unfold encodeArgument
  split
  · exact read_short hm ‹_› hh o r
  split
  · exact read_bigEndian 0 (by omega) hm ‹_› hh o r
  split
  · exact read_bigEndian 1 (by omega) hm ‹_› hh o r
  split
  · exact read_bigEndian 2 (by omega) hm ‹_› hh o r
  · exact read_bigEndian 3 (by omega) hm hn hh o r

end

/-! ### Items -/

/-- A head that was read is the first one that is no tag. -/
lemma readUntagged_of_read {i j : Input} {head : Head} (h : Head.read i = .ok (head, j))
    (hn : ∀ n, head ≠ .tag n) : readUntagged i = .ok (head, i.offset, j) := by
  rw [readUntagged]
  split
  · rename_i he
    rw [h] at he
    cases he
  · rename_i n k he
    rw [h] at he
    cases he
    exact absurd rfl (hn n)
  · rename_i he
    rw [h] at he
    cases he
    rfl

/-- What is put back after it was read is the input from before. -/
lemma unread_eq {head : Head} {o : Nat} {r : List UInt8} :
    head.unread ⟨o + head.encode.length, r⟩ = ⟨o, head.encode ++ r⟩ := by
  rw [Head.unread, Nat.add_sub_cancel]

lemma readInteger_of_read {i j : Input} {n : Nat} (h : Head.read i = .ok (.positive n, j)) :
    readInteger i = .ok ((false, n), j) := by
  rw [readInteger]
  split
  · rename_i he
    rw [h] at he
    cases he
  · rename_i he
    rw [h] at he
    cases he
    rfl
  · rename_i he
    rw [h] at he
    cases he
  · rename_i he
    rw [h] at he
    cases he
  · rename_i hp _ _ he
    rw [h] at he
    cases he
    exact absurd rfl (hp n)

lemma readUnsigned_append {n : Nat} (hn : n < wordLimit) (o : Nat) (r : List UInt8) :
    readUnsigned ⟨o, (Head.positive n).encode ++ r⟩ =
      .ok (n, ⟨o + (Head.positive n).encode.length, r⟩) := by
  have hr : Head.read ⟨o, (Head.positive n).encode ++ r⟩ =
      .ok (.positive n, ⟨o + (Head.positive n).encode.length, r⟩) :=
    read_encodeArgument (Nat.zero_le 6) hn rfl o r
  simp only [readUnsigned, readInteger_of_read hr, bind, Except.bind]
  rw [if_neg (by simp), if_neg (Nat.not_le.mpr hn)]
  rfl

lemma readBelow_append {n limit : Nat} (hn : n < limit) (hl : limit ≤ wordLimit) (wanted : String)
    (o : Nat) (r : List UInt8) :
    readBelow limit wanted ⟨o, (Head.positive n).encode ++ r⟩ =
      .ok (n, ⟨o + (Head.positive n).encode.length, r⟩) := by
  have hw : n < wordLimit := Nat.lt_of_lt_of_le hn hl
  simp only [readBelow, readUnsigned_append hw, bind, Except.bind]
  rw [if_neg (Nat.not_le.mpr hn)]
  rfl

/-! ### Strings -/

lemma readBytes_take {s : List UInt8} {n : Nat} (hn : n ≤ s.length) (o : Nat) :
    readBytes n ⟨o, s⟩ = .ok (s.take n, ⟨o + n, s.drop n⟩) := by
  have h := readBytes_append (s.take n) (s.drop n) o
  rwa [List.length_take, Nat.min_eq_left hn, List.take_append_drop] at h

lemma readBytes_part {n : Nat} {i : Input} (h : i.rest.length < n) :
    readBytes n i = .error .endOfInput := by
  simp only [readBytes, List.length_take]
  rw [if_pos (by omega)]

section

variable {σ : Type} {k : Sink σ}

/-- A segment is taken in part by part, as long as the parts are there. -/
lemma fill_step {unread : Nat} (hu : 0 < unread) (state : σ) :
    ∃ n, 0 < n ∧ n ≤ unread ∧ ∀ at_ o s,
      (s.length < n → k.fill at_ unread state ⟨o, s⟩ = .error .endOfInput) ∧
      (n ≤ s.length → ∀ next, k.take state at_ (s.take n) = .ok next →
        k.fill at_ unread state ⟨o, s⟩ = k.fill at_ (unread - n) next ⟨o + n, s.drop n⟩) := by
  refine ⟨max 1 (min (k.room state) unread), by omega, by omega, fun at_ o s => ⟨?_, ?_⟩⟩
  · intro hlen
    rw [Sink.fill, if_neg (by omega)]
    simp only [readBytes_part (i := ⟨o, s⟩) hlen, bind, Except.bind]
  · intro hlen next htake
    rw [Sink.fill, if_neg (by omega)]
    simp only [readBytes_take hlen, htake, bind, Except.bind]

/-- A string with bytes after it is taken in part by part. -/
lemma fill_step_append {s : List UInt8} (hs : s ≠ []) (state : σ) :
    ∃ n, 0 < n ∧ n ≤ s.length ∧ ∀ (at_ o : Nat) (r : List UInt8) (next : σ),
      k.take state at_ (s.take n) = .ok next →
      k.fill at_ s.length state ⟨o, s ++ r⟩ =
        k.fill at_ (s.drop n).length next ⟨o + n, s.drop n ++ r⟩ := by
  obtain ⟨n, hpos, hle, hstep⟩ := fill_step (k := k) (List.length_pos_iff.mpr hs) state
  refine ⟨n, hpos, hle, fun at_ o r next htake => ?_⟩
  have hlen : n ≤ (s ++ r).length := by
    rw [List.length_append]
    omega
  have hpart : k.take state at_ ((s ++ r).take n) = .ok next := by
    rwa [List.take_append_of_le_length hle]
  rw [(hstep at_ o (s ++ r)).2 hlen next hpart, List.drop_append_of_le_length hle,
    List.length_drop]

lemma fill_nil (at_ : Nat) (state : σ) (i : Input) :
    k.fill at_ 0 state i = (k.ends state at_).map (·, i) := by
  rw [Sink.fill, if_pos rfl]

/-- A string that stands in one piece is one segment. -/
lemma segments_of_fill {i j l : Input} {head : Head} {n : Nat} {s t : σ}
    (hr : Head.read i = .ok (head, j)) (hstop : head ≠ .stop)
    (hopens : k.opens head = some (some n)) (hfill : k.fill i.offset n s j = .ok (t, l)) :
    k.segments 0 s i = .ok (t, l) := by
  rw [Sink.segments]
  split
  · rename_i he
    rw [hr] at he
    cases he
  · rename_i he
    rw [hr] at he
    cases he
    rw [if_neg (fun h => hstop h.1), if_neg (fun h => hstop h.1)]
    split
    · rename_i ho
      rw [hopens] at ho
      cases ho
    · rename_i ho
      rw [hopens] at ho
      cases ho
    · rename_i ho
      rw [hopens] at ho
      cases ho
      split
      · rename_i hf
        rw [hfill] at hf
        cases hf
      · rename_i hf
        rw [hfill] at hf
        cases hf
        rfl

end

lemma fill_byteSink (s acc r : List UInt8) (at_ o : Nat) :
    byteSink.fill at_ s.length acc ⟨o, s ++ r⟩ = .ok (acc ++ s, ⟨o + s.length, r⟩) := by
  induction hl : s.length using Nat.strongRecOn generalizing s acc o with
  | ind len ih =>
    subst hl
    by_cases hs : s = []
    · subst hs
      rw [List.length_nil, fill_nil]
      simp [byteSink, Except.map]
    · obtain ⟨n, hpos, hle, hstep⟩ := fill_step_append (k := byteSink) hs acc
      have hlen : (s.drop n).length = s.length - n := List.length_drop
      rw [hstep at_ o r _ rfl, ih _ (by omega) (s.drop n) _ _ rfl, List.append_assoc,
        List.take_append_drop, hlen, Nat.add_assoc, Nat.add_sub_cancel' hle]

/-- Text is taken in whatever the parts are: what is carried over is the start of the character that
was cut. -/
lemma fill_textSink {cs : List Char} {s carried : List UInt8}
    (hs : carried ++ s = Text.Utf8.encode cs) (hn : Text.Utf8.next? carried = none)
    (text : List Char) (at_ o : Nat) (r : List UInt8) :
    textSink.fill at_ s.length ⟨text, carried⟩ ⟨o, s ++ r⟩ =
      .ok (⟨text ++ cs, []⟩, ⟨o + s.length, r⟩) := by
  -- on the bytes that are left: a chunk may end inside a character, whose bytes are carried on
  induction hl : s.length using Nat.strongRecOn generalizing s carried cs text o with
  | ind len ih =>
    subst hl
    by_cases he : s = []
    · subst he
      rw [List.append_nil] at hs
      subst hs
      obtain rfl := Text.Utf8.eq_nil_of_next?_encode hn
      rw [List.length_nil, fill_nil]
      simp [textSink, Except.map, Text.Utf8.encode]
    · obtain ⟨n, hpos, hle, hstep⟩ := fill_step_append (k := textSink) he ⟨text, carried⟩
      -- what is carried and the next chunk start the encoding of the same text
      have hcut : (carried ++ s.take n) ++ s.drop n = Text.Utf8.encode cs := by
        rw [List.append_assoc, List.take_append_drop, hs]
      obtain ⟨cs₁, cs₂, rest, hd, rfl, hrest, hlen, hnext⟩ := Text.Utf8.decodeRun_part hcut
      have htake : textSink.take ⟨text, carried⟩ at_ (s.take n) = .ok ⟨text ++ cs₁, rest⟩ := by
        simp only [textSink, hd]
        rw [if_neg (by omega)]
      have hdrop : (s.drop n).length = s.length - n := List.length_drop
      rw [hstep at_ o r _ htake, ih _ (by omega) hrest hnext (text ++ cs₁) _ rfl, hdrop,
        List.append_assoc, Nat.add_assoc, Nat.add_sub_cancel' hle]

lemma readByteString_append {s : List UInt8} (hs : s.length < wordLimit) (o : Nat)
    (r : List UInt8) :
    readByteString ⟨o, encodeBytes s ++ r⟩ = .ok (s, ⟨o + (encodeBytes s).length, r⟩) := by
  have hr : Head.read ⟨o, (Head.bytes (some s.length)).encode ++ (s ++ r)⟩ =
      .ok (.bytes (some s.length), ⟨o + (Head.bytes (some s.length)).encode.length, s ++ r⟩) :=
    read_encodeArgument (by omega) hs rfl o (s ++ r)
  have hseg := segments_of_fill (k := byteSink) (s := []) hr (by simp) rfl
    (fill_byteSink s [] r o _)
  rw [encodeBytes, List.append_assoc, readByteString]
  simp only [readUntagged_of_read hr (by simp), bind, Except.bind, unread_eq, hseg,
    List.nil_append, List.length_append, Nat.add_assoc]

lemma readText_append {x : String} (hx : (Text.Utf8.ofString x).length < wordLimit) (o : Nat)
    (r : List UInt8) :
    readText ⟨o, encodeText x ++ r⟩ = .ok (x, ⟨o + (encodeText x).length, r⟩) := by
  generalize hs : Text.Utf8.ofString x = s at hx
  have hr : Head.read ⟨o, (Head.text (some s.length)).encode ++ (s ++ r)⟩ =
      .ok (.text (some s.length), ⟨o + (Head.text (some s.length)).encode.length, s ++ r⟩) :=
    read_encodeArgument (by omega) hx rfl o (s ++ r)
  have hx' : [] ++ s = Text.Utf8.encode x.toList := hs.symm
  have hseg := segments_of_fill (k := textSink) (s := ⟨[], []⟩) hr (by simp) rfl
    (fill_textSink hx' rfl [] o _ r)
  rw [encodeText, hs, List.append_assoc, readText]
  simp only [readUntagged_of_read hr (by simp), bind, Except.bind, unread_eq, hseg,
    List.nil_append, List.length_append, Nat.add_assoc, pure, Except.pure, String.ofList_toList]

/-! ### Lengths -/

lemma length_encodeArgument_le (major n : Nat) : (encodeArgument major n).length ≤ 9 := by
  unfold encodeArgument
  split_ifs <;> simp

lemma length_encodeArgument_of_le {n : Nat} (h : wordLimit ≤ n) (major : Nat) :
    (encodeArgument major n).length = 9 := by
  have wide : 0x100000000 ≤ n := Nat.le_trans (by decide) h
  rw [encodeArgument, if_neg (by omega), if_neg (by omega), if_neg (by omega), if_neg (by omega),
    List.length_cons, length_bigEndian]

/-- What a text begins with is no longer than it, also where its own head would not tell its
length. -/
lemma lt_of_encodeText_append {x y : String} {s : List UInt8}
    (hy : (Text.Utf8.ofString y).length < wordLimit) (h : encodeText x ++ s = encodeText y) :
    (Text.Utf8.ofString x).length < wordLimit := by
  by_contra hx
  have head := length_encodeArgument_of_le (Nat.le_of_not_lt hx) 3
  have head' := length_encodeArgument_le 3 (Text.Utf8.ofString y).length
  have hlength := congrArg List.length h
  simp only [encodeText, Head.encode, encodeLength, List.length_append, head] at hlength
  omega

/-! ### Arrays -/

lemma readCounted_append {α : Type} {item : Input → Except ReadError (α × Input)}
    {encode : α → List UInt8} {as : List α}
    (h : ∀ a ∈ as, ∀ o r, item ⟨o, encode a ++ r⟩ = .ok (a, ⟨o + (encode a).length, r⟩))
    (o : Nat) (r : List UInt8) :
    readCounted item as.length ⟨o, as.flatMap encode ++ r⟩ =
      .ok (as, ⟨o + (as.flatMap encode).length, r⟩) := by
  induction as generalizing o with
  | nil => rfl
  | cons a as ih =>
    have ha := h a List.mem_cons_self o (as.flatMap encode ++ r)
    have has := ih (fun b hb => h b (List.mem_cons_of_mem a hb)) (o + (encode a).length)
    simp only [List.length_cons, readCounted, List.flatMap_cons, List.append_assoc, bind,
      Except.bind, ha, has, pure, Except.pure, List.length_append, Nat.add_assoc]

lemma readSequence_append {n : Nat} (hn : n < wordLimit) (o : Nat) (r : List UInt8) :
    readSequence ⟨o, (Head.array (some n)).encode ++ r⟩ =
      .ok (.items (some n), ⟨o + (Head.array (some n)).encode.length, r⟩) := by
  have hr : Head.read ⟨o, (Head.array (some n)).encode ++ r⟩ =
      .ok (.array (some n), ⟨o + (Head.array (some n)).encode.length, r⟩) :=
    read_encodeArgument (by omega) hn rfl o r
  simp only [readSequence, readUntagged_of_read hr (by simp), bind, Except.bind, pure, Except.pure]

end Cbor

end OnceProxy
