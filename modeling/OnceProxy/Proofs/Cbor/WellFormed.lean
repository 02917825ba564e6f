import OnceProxy.Proofs.Cbor.ReadBack

/-!
# Well-formed data items

The grammar of data items, apart from any reader of them. Every relation here is between bytes and
what is left of them: `Item s r` says that `s` starts with one item, and that `r` stands after it.
The grammar is unambiguous, so the bytes settle where an item ends.
-/

namespace OnceProxy.Cbor

open Bytes

/-- The major type of what starts with a head, and the argument, which an open end does without.
Simple values, floats and stop codes share the last major type and are told apart otherwise. -/
def Head.majorType? : Head → Option (Nat × Option Nat)
  | .positive n => some (0, some n)
  | .negative n => some (1, some n)
  | .bytes n => some (2, n)
  | .text n => some (3, n)
  | .array n => some (4, n)
  | .map n => some (5, n)
  | .tag n => some (6, some n)
  | .simple _ => none
  | .float _ => none
  | .stop => none

/-- The bytes start with some form of the head of an item. The first byte holds the major type and
either the argument, or the width of the argument that follows, or the mark of an open end. -/
inductive Head.Starts : Head → List UInt8 → List UInt8 → Prop
  | short {head : Head} {major n : Nat} {r : List UInt8} :
      head.majorType? = some (major, some n) → n < 24 →
      Starts head (UInt8.ofNat (major * 32 + n) :: r) r
  | long {head : Head} {major w : Nat} {s r : List UInt8} :
      head.majorType? = some (major, some (ofBigEndian s)) → w ≤ 3 → s.length = 2 ^ w →
      Starts head (UInt8.ofNat (major * 32 + (24 + w)) :: (s ++ r)) r
  | openEnd {head : Head} {major : Nat} {r : List UInt8} :
      head.majorType? = some (major, none) →
      Starts head (UInt8.ofNat (major * 32 + 31) :: r) r
  | simple {n : Nat} {r : List UInt8} :
      n < 24 → Starts (.simple n) (UInt8.ofNat (0xE0 + n) :: r) r
  | wideSimple {n : Nat} {r : List UInt8} :
      32 ≤ n → n < 256 → Starts (.simple n) (0xF8 :: UInt8.ofNat n :: r) r
  | half {s r : List UInt8} :
      s.length = 2 → Starts (.float (.ofHalf (ofBigEndian s))) (0xF9 :: (s ++ r)) r
  | single {s r : List UInt8} :
      s.length = 4 → Starts (.float (.ofSingle (ofBigEndian s))) (0xFA :: (s ++ r)) r
  | double {s r : List UInt8} :
      s.length = 8 → Starts (.float ⟨UInt64.ofNat (ofBigEndian s)⟩) (0xFB :: (s ++ r)) r

/-- The segments of a string with an open end, up to its stop code. A segment has an open end of its
own only where these may be `nested`, which well-formed items do not allow. -/
inductive Segments (nested : Bool) (kind : Option Nat → Head) : List UInt8 → List UInt8 → Prop
  | stop {r : List UInt8} : Segments nested kind (0xFF :: r) r
  | part {s p t r : List UInt8} :
      (kind (some p.length)).Starts s (p ++ t) → Segments nested kind t r →
      Segments nested kind s r
  | inner {s t u r : List UInt8} :
      nested = true → (kind none).Starts s t → Segments nested kind t u →
      Segments nested kind u r → Segments nested kind s r

/-- What stands after the head of a string with the given length. -/
inductive StringContent (nested : Bool) (kind : Option Nat → Head) :
    Option Nat → List UInt8 → List UInt8 → Prop
  | whole {p r : List UInt8} : StringContent nested kind (some p.length) (p ++ r) r
  | segments {s r : List UInt8} :
      Segments nested kind s r → StringContent nested kind none s r

mutual

/-- The bytes start with a data item, which is well-formed unless strings are `nested`. -/
inductive Item (nested : Bool) : List UInt8 → List UInt8 → Prop
  | mk {head : Head} {s t r : List UInt8} :
      head.Starts s t → Content nested head t r → Item nested s r

/-- What stands after a head and belongs to the same item. -/
inductive Content (nested : Bool) : Head → List UInt8 → List UInt8 → Prop
  | positive {n : Nat} {r : List UInt8} : Content nested (.positive n) r r
  | negative {n : Nat} {r : List UInt8} : Content nested (.negative n) r r
  | bytes {n : Option Nat} {s r : List UInt8} :
      StringContent nested .bytes n s r → Content nested (.bytes n) s r
  | text {n : Option Nat} {s r : List UInt8} :
      StringContent nested .text n s r → Content nested (.text n) s r
  | array {n : Nat} {s r : List UInt8} :
      Items nested n s r → Content nested (.array (some n)) s r
  | openArray {n : Nat} {s r : List UInt8} :
      Items nested n s (0xFF :: r) → Content nested (.array none) s r
  | map {n : Nat} {s r : List UInt8} :
      Items nested (2 * n) s r → Content nested (.map (some n)) s r
  | openMap {n : Nat} {s r : List UInt8} :
      Items nested (2 * n) s (0xFF :: r) → Content nested (.map none) s r
  | tag {n : Nat} {s r : List UInt8} : Item nested s r → Content nested (.tag n) s r
  | simple {n : Nat} {r : List UInt8} : Content nested (.simple n) r r
  | float {x : Binary64} {r : List UInt8} : Content nested (.float x) r r

/-- The bytes start with the given number of items. -/
inductive Items (nested : Bool) : Nat → List UInt8 → List UInt8 → Prop
  | nil {r : List UInt8} : Items nested 0 r r
  | cons {n : Nat} {s t r : List UInt8} :
      Item nested s t → Items nested n t r → Items nested (n + 1) s r

end

/-- The bytes start with tags. -/
inductive Tags : List UInt8 → List UInt8 → Prop
  | nil {s : List UInt8} : Tags s s
  | cons {n : Nat} {s t r : List UInt8} : (Head.tag n).Starts s t → Tags t r → Tags s r

/-- The bytes as a whole are one well-formed item which is, under any number of tags, an array of
`k` elements. -/
inductive TaggedArray (k : Nat) : List UInt8 → Prop
  | counted {s t : List UInt8} :
      (Head.array (some k)).Starts s t → Items false k t [] → TaggedArray k s
  | openEnd {s t : List UInt8} :
      (Head.array none).Starts s t → Items false k t [0xFF] → TaggedArray k s
  | tag {n : Nat} {s t : List UInt8} :
      (Head.tag n).Starts s t → TaggedArray k t → TaggedArray k s

lemma TaggedArray.item {k : Nat} {s : List UInt8} (h : TaggedArray k s) : Item false s [] := by
  induction h with
  | counted hs hi => exact .mk hs (.array hi)
  | openEnd hs hi => exact .mk hs (.openArray hi)
  | tag hs _ ih => exact .mk hs (.tag ih)

/-! ### Heads are unambiguous -/

lemma Head.ofArgument_of_majorType? {head : Head} {major : Nat} {n : Option Nat}
    (h : head.majorType? = some (major, n)) :
    major ≤ 6 ∧ Head.ofArgument major n = some head := by
  cases head <;> cases h <;> exact ⟨by omega, rfl⟩

lemma read_openEnd {major : Nat} {head : Head} (hm : major ≤ 6)
    (hh : Head.ofArgument major none = some head) (o : Nat) (r : List UInt8) :
    Head.read ⟨o, UInt8.ofNat (major * 32 + 31) :: r⟩ = .ok (head, ⟨o + 1, r⟩) := by
  obtain ⟨hmajor, hinfo⟩ := first_parts (show major ≤ 7 by omega) (show 31 < 32 by omega)
  simp only [Head.read, hmajor, hinfo, hh, if_neg (show major ≠ 7 by omega)]
  rfl

lemma read_simple {n : Nat} (hn : n < 24) (o : Nat) (r : List UInt8) :
    Head.read ⟨o, UInt8.ofNat (7 * 32 + n) :: r⟩ = .ok (.simple n, ⟨o + 1, r⟩) := by
  obtain ⟨hmajor, hinfo⟩ := first_parts (Nat.le_refl 7) (show n < 32 by omega)
  have hbytes := readBytes_append [] r (o + 1)
  rw [List.nil_append, List.length_nil] at hbytes
  simp only [Head.read, hmajor, hinfo]
  rw [if_neg (by omega), if_neg (by omega), if_pos hn, hbytes]
  simp only [if_pos hn]
  rfl

/-- `w` tells the width of the argument, as in `read_long`. -/
lemma read_wide {w : Nat} (hw : w ≤ 3) {s : List UInt8} (hs : s.length = 1 <<< w) (o : Nat)
    (r : List UInt8) :
    Head.read ⟨o, UInt8.ofNat (7 * 32 + (24 + w)) :: (s ++ r)⟩ =
      .ok (Head.ofSimple (1 <<< w) (ofBigEndian s), ⟨o + 1 + 1 <<< w, r⟩) := by
  obtain ⟨hmajor, hinfo⟩ := first_parts (Nat.le_refl 7) (show 24 + w < 32 by omega)
  have hbytes := readBytes_append s r (o + 1)
  rw [hs] at hbytes
  simp only [Head.read, hmajor, hinfo]
  rw [if_neg (by omega), if_neg (by omega), if_neg (by omega), Nat.add_sub_cancel_left, hbytes]
  simp only [if_neg (show ¬ 24 + w < 24 by omega)]
  rfl

/-- A head is read in all its forms. -/
lemma read_of_starts {head : Head} {s r : List UInt8} (h : head.Starts s r) (o : Nat) :
    ∃ p, Head.read ⟨o, s⟩ = .ok (head, ⟨p, r⟩) := by
  cases h with
  | short hm hn =>
    obtain ⟨hle, hh⟩ := Head.ofArgument_of_majorType? hm
    exact ⟨_, read_short hle hn hh o r⟩
  | long hm hw hs =>
    obtain ⟨hle, hh⟩ := Head.ofArgument_of_majorType? hm
    exact ⟨_, read_long hw hle (by rw [hs, Nat.one_shiftLeft]) hh o r⟩
  | openEnd hm =>
    obtain ⟨hle, hh⟩ := Head.ofArgument_of_majorType? hm
    exact ⟨_, read_openEnd hle hh o r⟩
  | simple hn => exact ⟨_, read_simple hn o r⟩
  | wideSimple hlo hhi =>
    rename_i n
    have hn : ofBigEndian [UInt8.ofNat n] = n := by
      simp [ofBigEndian, Nat.mod_eq_of_lt hhi]
    have hr := read_wide (w := 0) (by omega) (s := [UInt8.ofNat n]) rfl o r
    rw [hn] at hr
    exact ⟨_, hr⟩
  | half hs => exact ⟨_, read_wide (w := 1) (by omega) hs o r⟩
  | single hs => exact ⟨_, read_wide (w := 2) (by omega) hs o r⟩
  | double hs => exact ⟨_, read_wide (w := 3) (by omega) hs o r⟩

lemma Head.Starts.unique {h h' : Head} {s r r' : List UInt8} (hs : h.Starts s r)
    (hs' : h'.Starts s r') : h = h' ∧ r = r' := by
  obtain ⟨p, hr⟩ := read_of_starts hs 0
  obtain ⟨p', hr'⟩ := read_of_starts hs' 0
  rw [hr] at hr'
  cases hr'
  exact ⟨rfl, rfl⟩

/-- No item starts with a stop code. -/
lemma Head.Starts.ne_stop {h : Head} {s r t : List UInt8} (hs : h.Starts s t) : s ≠ 0xFF :: r := by
  intro he
  obtain ⟨p, hr⟩ := read_of_starts hs 0
  have hstop : Head.read ⟨0, 0xFF :: r⟩ = .ok (.stop, ⟨1, r⟩) := rfl
  rw [he, hstop] at hr
  obtain rfl : Head.stop = h := congrArg Prod.fst (Except.ok.inj hr)
  cases hs <;> contradiction

/-! ### What is written is well-formed -/

lemma Head.encode_of_majorType? {head : Head} {major : Nat} {n : Option Nat}
    (h : head.majorType? = some (major, n)) : head.encode = encodeLength major n := by
  cases head <;> cases h <;> rfl

lemma Head.starts_bigEndian {head : Head} {major n w : Nat}
    (h : head.majorType? = some (major, some n)) (hw : w ≤ 3) (hn : n < 256 ^ 2 ^ w)
    (r : List UInt8) :
    head.Starts (UInt8.ofNat (major * 32 + (24 + w)) :: (bigEndian (2 ^ w) n ++ r)) r := by
  rw [← Nat.mod_eq_of_lt hn, ← ofBigEndian_bigEndian] at h
  exact .long h hw (length_bigEndian _ n)

/-- The shortest form of a head is one of its forms. -/
lemma Head.starts_encode {head : Head} {major : Nat} {n : Option Nat}
    (h : head.majorType? = some (major, n)) (hn : ∀ k, n = some k → k < wordLimit)
    (r : List UInt8) : head.Starts (head.encode ++ r) r := by
  rw [Head.encode_of_majorType? h]
  cases n with
  | none => exact .openEnd h
  | some n =>
    rw [encodeLength, encodeArgument]
    split
    · exact .short h ‹_›
    split
    · exact Head.starts_bigEndian (w := 0) h (by omega) ‹_› r
    split
    · exact Head.starts_bigEndian (w := 1) h (by omega) ‹_› r
    split
    · exact Head.starts_bigEndian (w := 2) h (by omega) ‹_› r
    · exact Head.starts_bigEndian (w := 3) h (by omega) (hn n rfl) r

/-! ### Items are unambiguous -/

section

variable {n m : Bool} {kind : Option Nat → Head} {s r r' : List UInt8}

lemma Segments.unique (hk : kind.Injective) (h : Segments n kind s r) (h' : Segments m kind s r') :
    r = r' := by
  -- along the first row: the next head tells how the second one goes on
  induction h generalizing r' with
  | stop =>
    cases h' with
    | stop => rfl
    | part hs _ => exact absurd rfl hs.ne_stop
    | inner _ hs _ _ => exact absurd rfl hs.ne_stop
  | part hs _ ih =>
    cases h' with
    | stop => exact absurd rfl hs.ne_stop
    | part hs' h' =>
      obtain ⟨hh, ht⟩ := hs.unique hs'
      have hlen := Option.some.inj (hk hh)
      obtain ⟨-, rfl⟩ := List.append_inj ht hlen
      exact ih h'
    | inner _ hs' _ _ => exact absurd (hk (hs.unique hs').1) (by simp)
  | inner _ hs _ _ ih ih' =>
    cases h' with
    | stop => exact absurd rfl hs.ne_stop
    | part hs' _ => exact absurd (hk (hs.unique hs').1) (by simp)
    | inner _ hs' h' h'' =>
      obtain ⟨-, rfl⟩ := hs.unique hs'
      obtain rfl := ih h'
      exact ih' h''

lemma StringContent.unique (hk : kind.Injective) {l : Option Nat}
    (h : StringContent n kind l s r) (h' : StringContent m kind l s r') : r = r' := by
  cases h with
  | whole =>
    generalize hl : some _ = l at h'
    generalize hs : _ ++ r = s at h'
    cases h' with
    | whole => exact (List.append_inj hs (Option.some.inj hl)).2
    | segments => cases hl
  | segments h =>
    cases h' with
    | segments h' => exact h.unique hk h'

lemma Head.bytes_injective : Function.Injective Head.bytes := fun _ _ h => by cases h; rfl

lemma Head.text_injective : Function.Injective Head.text := fun _ _ h => by cases h; rfl

lemma Item.ne_stop {t : List UInt8} (h : Item n s t) : s ≠ 0xFF :: r := by
  cases h with
  | mk hs _ => exact hs.ne_stop

lemma Item.ne_nil {t : List UInt8} (h : Item n s t) : s ≠ [] := by
  rintro rfl
  cases h with
  | mk hs _ => cases hs

end

section

variable {n m : Bool} {k l : Nat} {s r r' : List UInt8}

lemma Items.eq_of_nil (h : Items n k [] r) : k = 0 ∧ r = [] := by
  cases h with
  | nil => exact ⟨rfl, rfl⟩
  | cons h _ => exact absurd rfl h.ne_nil

lemma Items.eq_of_stop (h : Items n k (0xFF :: s) r) : k = 0 ∧ r = 0xFF :: s := by
  cases h with
  | nil => exact ⟨rfl, rfl⟩
  | cons h _ => exact absurd rfl h.ne_stop

/-- Of two rows of items from the same bytes, the longer one goes on where the other ends. -/
def Extends (n m : Bool) (k l : Nat) (r r' : List UInt8) : Prop :=
  (∃ d, k = l + d ∧ Items n d r' r) ∨ ∃ d, l = k + d ∧ Items m d r r'

lemma Extends.eq (h : Extends n m k k r r') : r = r' := by
  obtain ⟨d, hd, hi⟩ | ⟨d, hd, hi⟩ := h
  all_goals
    obtain rfl : d = 0 := by omega
    cases hi
    rfl

lemma Extends.eq_of_stop (h : Extends n m k l (0xFF :: r) (0xFF :: r')) : r = r' := by
  obtain ⟨d, -, hi⟩ | ⟨d, -, hi⟩ := h
  · exact (List.cons.inj hi.eq_of_stop.2).2
  · exact (List.cons.inj hi.eq_of_stop.2).2.symm

end

mutual

/-- The bytes settle where an item ends, also if only one of two readings lets open ends nest. -/
theorem Item.unique {n m : Bool} {s r r' : List UInt8} : Item n s r → Item m s r' → r = r'
  | .mk hs h, .mk hs' h' => by
    obtain ⟨rfl, rfl⟩ := hs.unique hs'
    exact h.unique h'

theorem Content.unique {n m : Bool} {head : Head} {s r r' : List UInt8} :
    Content n head s r → Content m head s r' → r = r'
  | .positive, .positive => rfl
  | .negative, .negative => rfl
  | .bytes h, .bytes h' => h.unique Head.bytes_injective h'
  | .text h, .text h' => h.unique Head.text_injective h'
  | .array h, .array h' => (h.split h').eq
  | .openArray h, .openArray h' => (h.split h').eq_of_stop
  | .map h, .map h' => (h.split h').eq
  | .openMap h, .openMap h' => (h.split h').eq_of_stop
  | .tag h, .tag h' => h.unique h'
  | .simple, .simple => rfl
  | .float, .float => rfl

/-- Two rows of items from the same bytes agree as far as both go. -/
theorem Items.split {n m : Bool} {k l : Nat} {s r r' : List UInt8} :
    Items n k s r → Items m l s r' → Extends n m k l r r'
  | .nil, h' => .inr ⟨l, (Nat.zero_add l).symm, h'⟩
  | .cons h hs, .nil => .inl ⟨_, (Nat.zero_add _).symm, .cons h hs⟩
  | .cons h hs, .cons h' hs' => by
    obtain rfl := h.unique h'
    obtain ⟨d, rfl, hd⟩ | ⟨d, rfl, hd⟩ := hs.split hs'
    · exact .inl ⟨d, by omega, hd⟩
    · exact .inr ⟨d, by omega, hd⟩

end

end OnceProxy.Cbor
