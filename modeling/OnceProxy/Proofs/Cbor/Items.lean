import OnceProxy.Proofs.Cbor.WellFormed
import OnceProxy.Proofs.Input

/-!
# Readers take whole items

What a reader accepts is one item of the grammar, and what it leaves is what stands after that item.
The readers let open ends nest in strings; apart from this the items are well-formed.
-/

namespace OnceProxy.Cbor

open Bytes

/-! ### Heads -/

lemma readBytes_cases {n : Nat} {i j : Input} {s : List UInt8} (h : readBytes n i = .ok (s, j)) :
    s.length = n ∧ i.rest = s ++ j.rest := by
  simp only [readBytes] at h
  split at h
  · cases h
  · cases h
    have := List.length_take_le n i.rest
    exact ⟨by omega, (List.take_append_drop n i.rest).symm⟩

lemma Head.majorType?_of_ofArgument {major : Nat} {n : Option Nat} {head : Head} (hm : major ≤ 6)
    (h : Head.ofArgument major n = some head) : head.majorType? = some (major, n) := by
  match major, hm with
  | 0, _ | 1, _ | 6, _ =>
    obtain ⟨k, rfl, rfl⟩ := Option.map_eq_some_iff.mp h
    rfl
  | 2, _ | 3, _ | 4, _ | 5, _ =>
    cases h
    rfl

/-- What is read as a head starts an item, or ends one, or has the last major type. -/
lemma read_cases {i j : Input} {head : Head} (h : Head.read i = .ok (head, j)) :
    (head.majorType?.isSome ∧ head.Starts i.rest j.rest) ∨
    (head = .stop ∧ i.rest = 0xFF :: j.rest) ∨ ∃ width n, head = .ofSimple width n := by
  unfold Head.read at h
  split at h
  · cases h
  · rename_i b r hi
    rw [hi]
    have hlt : b.toNat < 256 := b.toNat_lt
    have hb : UInt8.ofNat (b.toNat / 32 * 32 + b.toNat % 32) = b := by
      rw [Nat.div_add_mod', UInt8.ofNat_toNat]
    simp only at h
    split at h
    -- a stop code, or an open end
    · rename_i hinfo
      rw [hinfo] at hb
      split at h
      · rename_i hmajor
        cases h
        rw [hmajor] at hb
        exact .inr (.inl ⟨rfl, by rw [← hb]; rfl⟩)
      · split at h
        · rename_i hh
          cases h
          have hm := Head.majorType?_of_ofArgument (by omega) hh
          rw [← hb]
          exact .inl ⟨by simp [hm], .openEnd hm⟩
        · cases h
    split at h
    · cases h
    split at h
    · cases h
    · rename_i hread
      obtain ⟨hlen, hr⟩ := readBytes_cases hread
      split at h
      · cases h
        exact .inr (.inr ⟨_, _, rfl⟩)
      split at h
      · rename_i hmajor _ _ hh
        cases h
        have hm := Head.majorType?_of_ofArgument (by omega) hh
        rw [← hb, show r = _ from hr]
        refine .inl ⟨by simp [hm], ?_⟩
        -- the argument is in the first byte, or in the bytes after it
        by_cases hinfo : b.toNat % 32 < 24
        · simp only [if_pos hinfo] at hm hlen
          rw [List.length_eq_zero_iff.mp hlen]
          exact .short hm hinfo
        · simp only [if_neg hinfo] at hm hlen
          rw [show b.toNat % 32 = 24 + (b.toNat % 32 - 24) by omega]
          exact .long hm (by omega) (by rw [hlen, Nat.one_shiftLeft])
      · cases h

lemma majorType?_ofSimple (width n : Nat) : (Head.ofSimple width n).majorType? = none := by
  unfold Head.ofSimple
  split <;> rfl

lemma starts_of_read {i j : Input} {head : Head} (h : Head.read i = .ok (head, j))
    (hm : head.majorType?.isSome) : head.Starts i.rest j.rest := by
  obtain ⟨-, hs⟩ | ⟨rfl, -⟩ | ⟨width, n, rfl⟩ := read_cases h
  · exact hs
  · cases hm
  · rw [majorType?_ofSimple] at hm
    cases hm

lemma rest_of_read_stop {i j : Input} (h : Head.read i = .ok (.stop, j)) :
    i.rest = 0xFF :: j.rest := by
  obtain ⟨hm, -⟩ | ⟨-, hr⟩ | ⟨width, n, hs⟩ := read_cases h
  · cases hm
  · exact hr
  · unfold Head.ofSimple at hs
    split at hs <;> cases hs

lemma ofBigEndian_lt (s : List UInt8) : ofBigEndian s < 256 ^ s.length := by
  have fold (s : List UInt8) (n : Nat) :
      s.foldl (fun n b => n * 256 + b.toNat) n < (n + 1) * 256 ^ s.length := by
    induction s generalizing n with
    | nil => simp
    | cons b s ih =>
      have hb : b.toNat < 256 := b.toNat_lt
      calc (b :: s).foldl (fun n b => n * 256 + b.toNat) n
        _ < (n * 256 + b.toNat + 1) * 256 ^ s.length := ih _
        _ ≤ ((n + 1) * 256) * 256 ^ s.length := Nat.mul_le_mul_right _ (by omega)
        _ = (n + 1) * 256 ^ (b :: s).length := by
          rw [List.length_cons, Nat.pow_succ, Nat.mul_assoc, Nat.mul_comm 256]
  simpa [ofBigEndian] using fold s 0

lemma Head.Starts.lt_wordLimit {head : Head} {major n : Nat} {s t : List UInt8}
    (h : head.Starts s t) (hm : head.majorType? = some (major, some n)) : n < wordLimit := by
  cases h with
  | short hm' hn =>
    rw [hm] at hm'
    cases hm'
    exact Nat.lt_trans hn (by decide)
  | long hm' hw hs =>
    rename_i w s
    rw [hm] at hm'
    cases hm'
    -- at most eight bytes follow the first one
    calc ofBigEndian s
      _ < 256 ^ 2 ^ w := hs ▸ ofBigEndian_lt s
      _ ≤ 256 ^ 2 ^ 3 :=
        Nat.pow_le_pow_right (by omega) (Nat.pow_le_pow_right (by omega) hw)
      _ = wordLimit := by decide
  | openEnd hm' =>
    rw [hm] at hm'
    cases hm'
  | _ => cases hm

/-- A head that was read and put back is read again. -/
lemma read_unread {i j : Input} {head : Head} (h : Head.read i = .ok (head, j))
    (hm : head.majorType?.isSome) : ∃ o, Head.read (head.unread j) = .ok (head, ⟨o, j.rest⟩) := by
  obtain ⟨⟨major, n⟩, hm'⟩ := Option.isSome_iff_exists.mp hm
  apply read_of_starts
  apply Head.starts_encode hm'
  rintro k rfl
  exact (starts_of_read h hm).lt_wordLimit hm'

/-! ### Strings -/

/-- A sink for the strings of one kind: their heads open its segments, and no other heads do. -/
structure Sink.Gathers {σ : Type} (k : Sink σ) (kind : Option Nat → Head) : Prop where
  opens : ∀ {head n}, k.opens head = some n → head = kind n
  major : ∀ n, (kind n).majorType?.isSome
  injective : kind.Injective

lemma Head.eq_of_opensBytes {head : Head} {n : Option Nat} (h : head.opensBytes = some n) :
    head = .bytes n := by
  cases head <;> cases h
  rfl

lemma Head.eq_of_opensText {head : Head} {n : Option Nat} (h : head.opensText = some n) :
    head = .text n := by
  cases head <;> cases h
  rfl

lemma byteSink_gathers : byteSink.Gathers .bytes :=
  ⟨Head.eq_of_opensBytes, fun _ => rfl, Head.bytes_injective⟩

lemma textSink_gathers : textSink.Gathers .text :=
  ⟨Head.eq_of_opensText, fun _ => rfl, Head.text_injective⟩

lemma bignumSink_gathers : bignumSink.Gathers .bytes :=
  ⟨Head.eq_of_opensBytes, fun _ => rfl, Head.bytes_injective⟩

section

variable {σ : Type} {k : Sink σ} {kind : Option Nat → Head} {s t : σ} {i j l : Input}

lemma rest_of_fill {at_ unread : Nat} (h : k.fill at_ unread s i = .ok (t, j)) :
    ∃ p : List UInt8, p.length = unread ∧ i.rest = p ++ j.rest := by
  -- on the bytes that are still to be taken, chunk by chunk
  induction unread using Nat.strongRecOn generalizing s i with
  | ind unread ih =>
    unfold Sink.fill at h
    split at h
    · cases he : k.ends s at_ with
      | error e =>
        rw [he] at h
        cases h
      | ok v =>
        rw [he] at h
        cases h
        exact ⟨[], by simp [*], rfl⟩
    · obtain ⟨⟨q, l⟩, hread, h⟩ := ok_of_bind h
      obtain ⟨v, -, h⟩ := ok_of_bind h
      obtain ⟨hlen, hi⟩ := readBytes_cases hread
      obtain ⟨p, hp, hl⟩ := ih _ (by omega) h
      refine ⟨q ++ p, ?_, by rw [hi, hl, List.append_assoc]⟩
      rw [List.length_append]
      omega

/-- The stop codes of so many open ends are still to come. -/
def OpenEnds (kind : Option Nat → Head) : Nat → List UInt8 → List UInt8 → Prop
  | 0, s, r => s = r
  | n + 1, s, r => ∃ t, Segments true kind s t ∧ OpenEnds kind n t r

lemma OpenEnds.part {n : Nat} {s p t r : List UInt8} (hs : (kind (some p.length)).Starts s (p ++ t))
    (h : OpenEnds kind (n + 1) t r) : OpenEnds kind (n + 1) s r := by
  obtain ⟨u, hu, h⟩ := h
  exact ⟨u, .part hs hu, h⟩

lemma OpenEnds.inner {n : Nat} {s t r : List UInt8} (hs : (kind none).Starts s t)
    (h : OpenEnds kind (n + 2) t r) : OpenEnds kind (n + 1) s r := by
  obtain ⟨u, hu, v, hv, h⟩ := h
  exact ⟨v, .inner rfl hs hu hv, h⟩

lemma openEnds_of_segments (hk : k.Gathers kind) {nested : Nat}
    (h : k.segments (nested + 1) s i = .ok (t, j)) :
    OpenEnds kind (nested + 1) i.rest j.rest := by
  -- on the bytes that are left, of which each head takes some; the depth goes up and down
  induction hl : i.rest.length using Nat.strongRecOn generalizing nested s i with
  | ind len ih =>
    subst hl
    unfold Sink.segments at h
    split at h
    · cases h
    · rename_i hr
      have hlen := Head.length_of_read hr
      split at h
      · rename_i hstop
        -- a stop code ends the innermost open string, which is the outermost or not
        obtain ⟨rfl, hn⟩ := hstop
        cases h
        rw [hn]
        exact ⟨_, rest_of_read_stop hr ▸ .stop, rfl⟩
      split at h
      · rename_i hstop
        obtain ⟨rfl, hn⟩ := hstop
        obtain ⟨m, rfl⟩ : ∃ m, nested = m + 1 := ⟨nested - 1, by omega⟩
        exact ⟨_, rest_of_read_stop hr ▸ .stop, ih _ hlen h rfl⟩
      split at h
      · cases h
      · rename_i ho
        cases hk.opens ho
        exact .inner (starts_of_read hr (hk.major none)) (ih _ hlen h rfl)
      · rename_i n ho
        cases hk.opens ho
        split at h
        · cases h
        · rename_i hfill
          rw [if_neg (Nat.succ_ne_zero nested)] at h
          obtain ⟨p, rfl, hp⟩ := rest_of_fill hfill
          have := Sink.length_of_fill hfill
          have hs := starts_of_read hr (hk.major _)
          rw [hp] at hs
          exact .part hs (ih _ (by omega) h rfl)

lemma content_of_segments (hk : k.Gathers kind) {n : Option Nat}
    (hr : Head.read i = .ok (kind n, l)) (h : k.segments 0 s i = .ok (t, j)) :
    StringContent true kind n l.rest j.rest := by
  unfold Sink.segments at h
  split at h
  · cases h
  · rename_i hr'
    rw [hr] at hr'
    cases hr'
    split at h
    · omega
    split at h
    · omega
    split at h
    · cases h
    · rename_i ho
      -- an open end at the start, or a string in one piece
      obtain rfl := hk.injective (hk.opens ho)
      obtain ⟨u, hu, rfl⟩ := openEnds_of_segments hk h
      exact .segments hu
    · rename_i ho
      obtain rfl := hk.injective (hk.opens ho)
      split at h
      · cases h
      · rename_i hfill
        cases h
        obtain ⟨p, rfl, hp⟩ := rest_of_fill hfill
        rw [hp]
        exact .whole

/-- The readers of strings put the head back before they take in the segments. -/
lemma content_of_unread (hk : k.Gathers kind) {n : Option Nat}
    (hr : Head.read i = .ok (kind n, l)) (h : k.segments 0 s ((kind n).unread l) = .ok (t, j)) :
    StringContent true kind n l.rest j.rest := by
  obtain ⟨o, hr'⟩ := read_unread hr (hk.major n)
  exact content_of_segments (l := ⟨o, l.rest⟩) hk hr' h

end

/-! ### Items -/

/-- The bytes start with an item that is neither a simple value nor a float. -/
def Plain (s r : List UInt8) : Prop :=
  ∃ (head : Head) (t : List UInt8),
    head.majorType?.isSome ∧ head.Starts s t ∧ Content true head t r

lemma Plain.item {s r : List UInt8} (h : Plain s r) : Item true s r := by
  obtain ⟨head, t, -, hs, hc⟩ := h
  exact .mk hs hc

lemma Plain.of_read {i j : Input} {head : Head} {r : List UInt8} (hr : Head.read i = .ok (head, j))
    (hm : head.majorType?.isSome) (hc : Content true head j.rest r) : Plain i.rest r :=
  ⟨head, j.rest, hm, starts_of_read hr hm, hc⟩

lemma Plain.tags {s t r : List UInt8} (h : Tags s t) (ht : Plain t r) : Plain s r := by
  induction h with
  | nil => exact ht
  | cons hs _ ih => exact ⟨.tag _, _, rfl, hs, .tag (ih ht).item⟩

lemma toNat_lt_of_starts {head : Head} {b : UInt8} {s t : List UInt8}
    (h : head.Starts (b :: s) t) (hm : head.majorType?.isSome) : b.toNat < 0xE0 := by
  have first {major k : Nat} {n : Option Nat} (hm : head.majorType? = some (major, n))
      (hk : k < 32) : (UInt8.ofNat (major * 32 + k)).toNat < 0xE0 := by
    have hle := (Head.ofArgument_of_majorType? hm).1
    have hmajor := (first_parts (show major ≤ 7 by omega) hk).1
    omega
  cases h with
  | short hm' hn => exact first hm' (by omega)
  | long hm' hw _ => exact first hm' (by omega)
  | openEnd hm' => exact first hm' (by omega)
  | _ => cases hm

lemma Head.encode_of_majorType?_eq_none {head : Head} (h : head.majorType? = none) :
    ∃ b s, head.encode = b :: s ∧ 0xE0 ≤ b.toNat := by
  cases head with
  | simple n =>
    simp only [Head.encode]
    split
    · refine ⟨_, _, rfl, ?_⟩
      rw [Text.Utf8.toNat_ofNat_of_lt (by omega)]
      omega
    · exact ⟨_, _, rfl, by decide⟩
  | float x =>
    simp only [Head.encode]
    split <;> exact ⟨_, _, rfl, by decide⟩
  | stop => exact ⟨_, _, rfl, by decide⟩
  | _ => cases h

/-- An item that was found after its head was put back is one with the head as it was written. -/
lemma Plain.of_unread {i j : Input} {head : Head} {r : List UInt8}
    (hr : Head.read i = .ok (head, j)) (h : Plain (head.unread j).rest r) : Plain i.rest r := by
  obtain ⟨head', t, hm', hs, hc⟩ := h
  have hm : head.majorType?.isSome := by
    rw [Option.isSome_iff_ne_none]
    intro hm
    obtain ⟨b, s, he, hb⟩ := Head.encode_of_majorType?_eq_none hm
    rw [Head.unread, he] at hs
    exact absurd (toNat_lt_of_starts hs hm') (by omega)
  obtain ⟨o, hr'⟩ := read_unread hr hm
  obtain ⟨p, hr''⟩ := read_of_starts hs (head.unread j).offset
  rw [hr'] at hr''
  cases hr''
  exact ⟨head, j.rest, hm, starts_of_read hr hm, hc⟩

/-- Tags are passed over on the way to the head that is found. -/
lemma tags_of_readUntagged {i j : Input} {head : Head} {o : Nat}
    (h : readUntagged i = .ok (head, o, j)) :
    ∃ l : Input, Tags i.rest l.rest ∧ Head.read l = .ok (head, j) := by
  induction hl : i.rest.length using Nat.strongRecOn generalizing i with
  | ind len ih =>
    subst hl
    unfold readUntagged at h
    split at h
    · cases h
    · rename_i hr
      obtain ⟨l, ht, hl⟩ := ih _ (Head.length_of_read hr) h rfl
      exact ⟨l, .cons (starts_of_read hr rfl) ht, hl⟩
    · rename_i hr
      cases h
      exact ⟨i, .nil, hr⟩

/-- What the reader accepts is an item. -/
def TakesItem {α : Type} (item : Input → Except ReadError (α × Input)) : Prop :=
  ∀ ⦃i j a⦄, item i = .ok (a, j) → Plain i.rest j.rest

lemma takesItem_readInteger : TakesItem readInteger := by
  intro i j a h
  -- on the bytes, since a tag is followed by another item
  induction hl : i.rest.length using Nat.strongRecOn generalizing i with
  | ind len ih =>
    subst hl
    unfold readInteger at h
    split at h
    · cases h
    · rename_i hr
      cases h
      exact .of_read hr rfl .positive
    · rename_i hr
      cases h
      exact .of_read hr rfl .negative
    · rename_i k hr
      split at h
      · -- the tags of big numbers need a byte string, and all others are skipped
        obtain ⟨⟨head, l⟩, hl, h⟩ := ok_of_bind h
        cases head with
        | bytes n =>
          obtain ⟨⟨s, m⟩, hseg, h⟩ := ok_of_bind h
          cases h
          have hc := content_of_unread bignumSink_gathers hl hseg
          exact .of_read hr rfl (.tag (.mk (starts_of_read hl rfl) (.bytes hc)))
        | _ => cases h
      · have hk := ih _ (Head.length_of_read hr) h rfl
        exact .of_read hr rfl (.tag hk.item)
    · cases h

lemma takesItem_readUnsigned : TakesItem readUnsigned := by
  intro i j a h
  obtain ⟨⟨⟨negative, n⟩, l⟩, hr, h⟩ := ok_of_bind h
  simp only at h
  split at h
  · cases h
  split at h
  · cases h
  · cases h
    exact takesItem_readInteger hr

lemma takesItem_readBelow (limit : Nat) (wanted : String) : TakesItem (readBelow limit wanted) := by
  intro i j a h
  obtain ⟨⟨n, l⟩, hr, h⟩ := ok_of_bind h
  simp only at h
  split at h
  · cases h
  · cases h
    exact takesItem_readUnsigned hr

lemma takesItem_readText : TakesItem readText := by
  intro i j a h
  obtain ⟨⟨head, o, l⟩, hr, h⟩ := ok_of_bind h
  obtain ⟨m, ht, hm⟩ := tags_of_readUntagged hr
  refine .tags ht ?_
  simp only at h
  split at h
  · obtain ⟨⟨s, m⟩, hseg, h⟩ := ok_of_bind h
    cases h
    exact .of_read hm rfl (.text (content_of_unread textSink_gathers hm hseg))
  · cases h

/-! ### Arrays -/

section

variable {α : Type} {item : Input → Except ReadError (α × Input)} {i j : Input} {as : List α}

lemma items_of_readCounted (hitem : TakesItem item) {n : Nat}
    (h : readCounted item n i = .ok (as, j)) : Items true n i.rest j.rest := by
  induction n generalizing i as with
  | zero =>
    cases h
    exact .nil
  | succ n ih =>
    obtain ⟨⟨a, l⟩, ha, h⟩ := ok_of_bind h
    obtain ⟨⟨bs, m⟩, hbs, h⟩ := ok_of_bind h
    cases h
    exact .cons (hitem ha).item (ih hbs)

lemma items_of_readUntilStop (hitem : TakesItem item) {n : Nat}
    (h : readUntilStop item n i = .ok (as, j)) : ∃ k, Items true k i.rest (0xFF :: j.rest) := by
  induction n generalizing i as with
  | zero => cases h
  | succ n ih =>
    obtain ⟨⟨head, l⟩, hr, h⟩ := ok_of_bind h
    simp only at h
    split at h
    · rename_i hstop
      subst hstop
      cases h
      exact ⟨0, rest_of_read_stop hr ▸ .nil⟩
    · obtain ⟨⟨a, m⟩, ha, h⟩ := ok_of_bind h
      obtain ⟨⟨bs, m'⟩, hbs, h⟩ := ok_of_bind h
      cases h
      obtain ⟨k, hk⟩ := ih hbs
      exact ⟨k + 1, .cons (Plain.of_unread hr (hitem ha)).item hk⟩

lemma content_of_readItems (hitem : TakesItem item) {n : Option Nat}
    (h : readItems item n i = .ok (as, j)) : Content true (.array n) i.rest j.rest := by
  cases n with
  | some n => exact .array (items_of_readCounted hitem h)
  | none =>
    obtain ⟨k, hk⟩ := items_of_readUntilStop hitem h
    exact .openArray hk

end

lemma takesItem_readByteString : TakesItem readByteString := by
  intro i j a h
  obtain ⟨⟨head, o, l⟩, hr, h⟩ := ok_of_bind h
  obtain ⟨m, ht, hm⟩ := tags_of_readUntagged hr
  refine .tags ht ?_
  simp only at h
  split at h
  · exact .of_read hm rfl (.bytes (content_of_unread byteSink_gathers hm h))
  · obtain ⟨⟨ns, m⟩, hns, h⟩ := ok_of_bind h
    cases h
    exact .of_read hm rfl (content_of_readItems (takesItem_readBelow 256 "u8") hns)
  · cases h

end OnceProxy.Cbor
