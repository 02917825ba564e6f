import Mathlib.Data.List.Basic
import Mathlib.Tactic.Common
import OnceProxy.Base64Url
import OnceProxy.Proofs.Input

/-!
# Reading back base64url

The text of a byte string is read back as the byte string: its symbols tell the six-bit numbers that
they were made of, and these leave no bits over. No other text is read as this byte string.
-/

namespace OnceProxy.Base64Url

/-! ### Six-bit numbers -/

lemma lt_of_mem_sextets {s : List UInt8} {n : Nat} (h : n ∈ sextets s) : n < 64 := by
  have small (b : UInt8) : b.toNat < 256 := b.toNat_lt
  induction s using sextets.induct with
  | case1 a b c r ih =>
    have ha := small a
    have hb := small b
    have hc := small c
    simp only [sextets, List.mem_cons] at h
    rcases h with rfl | rfl | rfl | rfl | h
    · omega
    · omega
    · omega
    · omega
    · exact ih h
  | case2 a b =>
    have ha := small a
    have hb := small b
    simp only [sextets, List.mem_cons, List.not_mem_nil, or_false] at h
    omega
  | case3 a =>
    have ha := small a
    simp only [sextets, List.mem_cons, List.not_mem_nil, or_false] at h
    omega
  | case4 => cases h

/-- Six-bit numbers hold all bits of the bytes that they were made of. -/
lemma bytes_sextets (s : List UInt8) : bytes (sextets s) = s := by
  -- the three bytes of a group, each put together from two neighbouring sextets
  have first (a b : UInt8) :
      UInt8.ofNat (a.toNat / 4 * 4 + (a.toNat % 4 * 16 + b.toNat / 16) / 16) = a := by
    have hb := b.toNat_lt
    rw [show a.toNat / 4 * 4 + (a.toNat % 4 * 16 + b.toNat / 16) / 16 = a.toNat by omega]
    exact UInt8.ofNat_toNat
  have second (a b : UInt8) (k : Nat) (hk : k < 4) :
      UInt8.ofNat ((a.toNat % 4 * 16 + b.toNat / 16) % 16 * 16 + (b.toNat % 16 * 4 + k) / 4) =
        b := by
    have hb := b.toNat_lt
    rw [show (a.toNat % 4 * 16 + b.toNat / 16) % 16 * 16 + (b.toNat % 16 * 4 + k) / 4 = b.toNat by
      omega]
    exact UInt8.ofNat_toNat
  have third (b c : UInt8) :
      UInt8.ofNat ((b.toNat % 16 * 4 + c.toNat / 64) % 4 * 64 + c.toNat % 64) = c := by
    have hc := c.toNat_lt
    rw [show (b.toNat % 16 * 4 + c.toNat / 64) % 4 * 64 + c.toNat % 64 = c.toNat by omega]
    exact UInt8.ofNat_toNat
  induction s using sextets.induct with
  | case1 a b c r ih =>
    have hc : c.toNat / 64 < 4 := by
      have := c.toNat_lt
      omega
    simp only [sextets, bytes, first, second a b _ hc, third, ih]
  | case2 a b =>
    have hlast := second a b 0 (by omega)
    rw [Nat.add_zero] at hlast
    simp only [sextets, bytes, first, hlast]
  | case3 a =>
    have hfirst := first a 0
    rw [UInt8.toNat_zero, Nat.zero_div, Nat.add_zero] at hfirst
    simp only [sextets, bytes, hfirst]
  | case4 => rfl

/-- No byte string leaves a single symbol over. -/
lemma length_sextets_ne (s : List UInt8) : (sextets s).length % 4 ≠ 1 := by
  induction s using sextets.induct with
  | case1 a b c r ih =>
    simp only [sextets, List.length_cons]
    omega
  | case2 a b => simp [sextets]
  | case3 a => simp [sextets]
  | case4 => simp [sextets]

/-! ### Bits that fill no byte -/

/-- Whole groups do not matter for what is left over. -/
lemma tight_append {front : List Nat} (hf : front.length % 4 = 0) (back : List Nat) :
    Tight (front ++ back) ↔ Tight back := by
  -- whole groups in front change neither the last sextet nor how many are left over
  have hl : (front ++ back).length % 4 = back.length % 4 := by
    rw [List.length_append]
    omega
  unfold Tight
  rw [hl, List.getLast?_append]
  cases hb : back.getLast? with
  | none =>
    rw [List.getLast?_eq_none_iff.mp hb]
    exact Iff.rfl
  | some n => exact Iff.rfl

lemma tight_sextets (s : List UInt8) : Tight (sextets s) := by
  induction s using sextets.induct with
  | case1 a b c r ih =>
    change Tight ([_, _, _, _] ++ sextets r)
    exact (tight_append (by simp) (sextets r)).mpr ih
  | case2 a b =>
    change b.toNat % 16 * 4 % 4 = 0
    omega
  | case3 a =>
    change a.toNat % 4 * 16 % 16 = 0
    omega
  | case4 => trivial

/-! ### Symbols -/

lemma symbol_ne_pad {n : Nat} (h : n < 64) : symbol n ≠ pad := by
  intro he
  have hv := value?_symbol h
  rw [he] at hv
  cases hv

lemma readSymbols_map {ns : List Nat} (h : ∀ n ∈ ns, n < 64) (offset : Nat) :
    readSymbols offset (ns.map symbol) = .ok ns := by
  induction ns generalizing offset with
  | nil => rfl
  | cons n ns ih =>
    have hn := value?_symbol (h n List.mem_cons_self)
    have hns := ih (fun m hm => h m (List.mem_cons_of_mem n hm)) (offset + 1)
    rw [List.map_cons, readSymbols, hn]
    simp only [hns, Except.map]

lemma readTail_map {ns : List Nat} (h : ∀ n ∈ ns, n < 64) (start i : Nat) :
    readTail start i none (ns.map symbol) = .ok (ns, none) := by
  induction ns generalizing i with
  | nil => rfl
  | cons n ns ih =>
    have hn := h n List.mem_cons_self
    have hns := ih (fun m hm => h m (List.mem_cons_of_mem n hm)) (i + 1)
    rw [List.map_cons, readTail, if_neg (symbol_ne_pad hn)]
    simp only [value?_symbol hn, hns, Except.map]

/-! ### Texts -/

/-- The text of a byte string is read back as the byte string. -/
theorem decode_encode (s : List UInt8) : decode (encode s) = .ok s := by
  generalize hns : sextets s = ns
  have small : ∀ n ∈ ns, n < 64 := fun n hn => lt_of_mem_sextets (hns ▸ hn)
  have tight : Tight ns := hns ▸ tight_sextets s
  have length : ns.length % 4 ≠ 1 := hns ▸ length_sextets_ne s
  have content : bytes ns = s := hns ▸ bytes_sextets s
  generalize hstart : (ns.length - 1) / 8 * 8 = start
  -- the last group may be cut short, so it is decoded apart from those before it
  have hfront := readSymbols_map (fun n hn => small n (List.mem_of_mem_take (i := start) hn)) 0
  have hback := readTail_map (fun n hn => small n (List.mem_of_mem_drop (i := start) hn)) start 0
  have htight : Tight (ns.drop start) := by
    have hgroups : (ns.take start).length % 4 = 0 := by
      rw [List.length_take]
      omega
    rw [← tight_append hgroups, List.take_append_drop]
    exact tight
  simp only [decode, encode, hns, List.length_map, hstart, ← List.map_take, ← List.map_drop, bind,
    Except.bind, hfront, hback]
  rw [if_neg length]
  simp only [pure, Except.pure, htight, Option.isSome_none, Bool.false_eq_true, if_false,
    not_true_eq_false, List.take_append_drop, content]

/-! ### Texts that are read -/

lemma symbol_of_value? {b : UInt8} {n : Nat} (h : value? b = some n) : n < 64 ∧ symbol n = b := by
  have back {k : Nat} (hk : k = b.toNat) : UInt8.ofNat k = b := hk ▸ UInt8.ofNat_toNat
  simp only [value?] at h
  split at h
  · cases h
    exact ⟨by omega, by rw [symbol, if_pos (by omega)]; exact back (by omega)⟩
  split at h
  · cases h
    exact ⟨by omega, by rw [symbol, if_neg (by omega), if_pos (by omega)]; exact back (by omega)⟩
  split at h
  · cases h
    refine ⟨by omega, ?_⟩
    rw [symbol, if_neg (by omega), if_neg (by omega), if_pos (by omega)]
    exact back (by omega)
  split at h
  · cases h
    exact ⟨by decide, UInt8.toNat_inj.mp (by simp_all [symbol])⟩
  split at h
  · cases h
    exact ⟨by decide, UInt8.toNat_inj.mp (by simp_all [symbol])⟩
  · cases h

/-- The numbers that are read are those of the symbols. -/
lemma map_of_readSymbols {offset : Nat} {s : List UInt8} {ns : List Nat}
    (h : readSymbols offset s = .ok ns) : (∀ n ∈ ns, n < 64) ∧ ns.map symbol = s := by
  induction s generalizing offset ns with
  | nil =>
    cases h
    exact ⟨nofun, rfl⟩
  | cons b s ih =>
    rw [readSymbols] at h
    split at h
    · cases h
    · rename_i n hn
      cases hs : readSymbols (offset + 1) s with
      | error e =>
        rw [hs] at h
        cases h
      | ok ms =>
        rw [hs] at h
        cases h
        obtain ⟨hb, rfl⟩ := symbol_of_value? hn
        obtain ⟨small, rfl⟩ := ih hs
        exact ⟨List.forall_mem_cons.mpr ⟨hb, small⟩, rfl⟩

/-- Padding is not forgotten. -/
lemma isSome_of_readTail {start i p : Nat} {s : List UInt8} {ns : List Nat} {q : Option Nat}
    (h : readTail start i (some p) s = .ok (ns, q)) : q.isSome = true := by
  induction s generalizing i with
  | nil =>
    cases h
    rfl
  | cons b s ih =>
    rw [readTail] at h
    split at h
    · split at h
      · cases h
      · exact ih h
    · cases h

lemma map_of_readTail {start i : Nat} {s : List UInt8} {ns : List Nat}
    (h : readTail start i none s = .ok (ns, none)) : (∀ n ∈ ns, n < 64) ∧ ns.map symbol = s := by
  induction s generalizing i ns with
  | nil =>
    cases h
    exact ⟨nofun, rfl⟩
  | cons b s ih =>
    rw [readTail] at h
    split at h
    · split at h
      · cases h
      · -- padding once seen is reported, and here none was
        cases isSome_of_readTail h
    · dsimp only at h
      split at h
      · cases h
      · rename_i n hn
        cases hs : readTail start (i + 1) none s with
        | error e =>
          rw [hs] at h
          cases h
        | ok r =>
          obtain ⟨ms, q⟩ := r
          rw [hs] at h
          cases h
          obtain ⟨hb, rfl⟩ := symbol_of_value? hn
          obtain ⟨small, rfl⟩ := ih hs
          exact ⟨List.forall_mem_cons.mpr ⟨hb, small⟩, rfl⟩

/-- Bytes hold all of the six-bit numbers that they were made of, if these leave nothing over. -/
lemma sextets_bytes {ns : List Nat} (small : ∀ n ∈ ns, n < 64) (length : ns.length % 4 ≠ 1)
    (tight : Tight ns) : sextets (bytes ns) = ns := by
  have byte {n : Nat} (h : n < 256) : (UInt8.ofNat n).toNat = n := by
    rw [UInt8.toNat_ofNat']
    exact Nat.mod_eq_of_lt h
  induction ns using bytes.induct with
  | case1 a b c d r ih =>
    simp only [List.forall_mem_cons] at small
    obtain ⟨ha, hb, hc, hd, small⟩ := small
    have groups : [a, b, c, d].length % 4 = 0 := by simp
    have rest := ih small
      (by simpa only [List.length_cons, Nat.add_assoc, Nat.add_mod_right] using length)
      ((tight_append groups r).mp tight)
    simp only [bytes, sextets, rest]
    rw [byte (by omega), byte (by omega), byte (by omega)]
    simp only [List.cons.injEq, and_true]
    omega
  | case2 a b c =>
    simp only [List.forall_mem_cons] at small
    have hc : c % 4 = 0 := tight
    simp only [bytes, sextets]
    rw [byte (by omega), byte (by omega)]
    simp only [List.cons.injEq, and_true]
    omega
  | case3 a b =>
    simp only [List.forall_mem_cons] at small
    have hb : b % 16 = 0 := tight
    simp only [bytes, sextets]
    rw [byte (by omega)]
    simp only [List.cons.injEq, and_true]
    omega
  | case4 ns h1 h2 h3 =>
    -- of these only a lone sextet gets here, and no length allows it
    match ns with
    | [] => rfl
    | [a] => exact absurd rfl length
    | [a, b] => exact absurd rfl (h3 a b)
    | [a, b, c] => exact absurd rfl (h2 a b c)
    | a :: b :: c :: d :: r => exact absurd rfl (h1 a b c d r)

/-- What is read is made of six-bit numbers that leave nothing over. -/
lemma exists_of_decode {s data : List UInt8} (h : decode s = .ok data) :
    ∃ ns : List Nat, (∀ n ∈ ns, n < 64) ∧ ns.length % 4 ≠ 1 ∧ Tight ns ∧ ns.map symbol = s ∧
      bytes ns = data := by
  simp only [decode] at h
  split at h
  · cases h
  rename_i length
  obtain ⟨front, hfront, h⟩ := ok_of_bind h
  obtain ⟨⟨back, padAt⟩, hback, h⟩ := ok_of_bind h
  split at h
  · cases h
  rename_i unpadded
  rw [Option.not_isSome_iff_eq_none] at unpadded
  split at h
  · cases h
  rename_i tight
  cases h
  dsimp only at unpadded tight
  subst unpadded
  obtain ⟨smallFront, front_eq⟩ := map_of_readSymbols hfront
  obtain ⟨smallBack, back_eq⟩ := map_of_readTail hback
  have whole : (front ++ back).map symbol = s := by
    rw [List.map_append, front_eq, back_eq, List.take_append_drop]
  -- the tail starts at a whole group, so what it leaves over is what the text does
  have groups : front.length % 4 = 0 := by
    rw [← List.length_map (f := symbol), front_eq, List.length_take]
    omega
  refine ⟨front ++ back, ?_, ?_, ?_, whole, rfl⟩
  · exact fun n hn => (List.mem_append.mp hn).elim (smallFront n) (smallBack n)
  · rwa [← List.length_map (f := symbol), whole]
  · exact (tight_append groups back).mpr (not_not.mp tight)

/-- Just the text of a byte string is read as the byte string. -/
theorem decode_eq_ok_iff {s data : List UInt8} : decode s = .ok data ↔ s = encode data := by
  constructor
  · intro h
    obtain ⟨ns, small, length, tight, rfl, rfl⟩ := exists_of_decode h
    rw [encode, sextets_bytes small length tight]
  · rintro rfl
    exact decode_encode data

end OnceProxy.Base64Url
