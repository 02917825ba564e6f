import Mathlib.Tactic.Common
import OnceProxy.Auth.Keys

/-!
# Tokens that are accepted

A token is checked in a fixed order: it has to be read, to be current, to have a signature of the
right shape, and to be signed by one of the keys. Which key it is, in which place it stands and how
often does not matter.
-/

namespace OnceProxy

/-! ### The checks of a scheme -/

/-- Tokens that cannot be read are reported as such. -/
lemma Token.eq_of_decode_error {data : List UInt8} {e : AuthError}
    (h : Token.decode data = .error e) : ∃ cause, e = .decode cause := by
  unfold decode at h
  split at h
  · cases h
    exact ⟨_, rfl⟩
  · split at h
    · cases h
    · cases h
      exact ⟨_, rfl⟩

namespace Scheme

/-- Words are added like numbers, up to the greatest word. -/
lemma toNat_saturatingAdd (a b : UInt64) :
    (saturatingAdd a b).toNat = min (a.toNat + b.toNat) 0xFFFFFFFFFFFFFFFF := by
  have ha := a.toNat_lt
  have hb := b.toNat_lt
  unfold saturatingAdd
  split
  · rename_i h
    rw [UInt64.lt_iff_toNat_lt, UInt64.toNat_add] at h
    simp only [UInt64.reduceToNat]
    omega
  · rename_i h
    rw [UInt64.lt_iff_toNat_lt, UInt64.toNat_add] at h
    rw [UInt64.toNat_add]
    omega

/-- A token is over more than ten seconds after the time that it tells. -/
lemma isExpired_iff (t : Token) (now : UInt64) :
    isExpired t now = true ↔ t.expireAt.toNat + 10 < now.toNat := by
  have hn := now.toNat_lt
  have drift : permittedDrift.toNat = 10 := rfl
  rw [isExpired, decide_eq_true_iff, UInt64.lt_iff_toNat_lt, toNat_saturatingAdd, drift]
  omega

/-- What is found of the token in `data`, one check after the other. -/
inductive Verdict {K S : Type} (scheme : Scheme K S) (keys : List K) (data : List UInt8)
    (now : UInt64) : Except AuthError Token → Prop where
  | unread (cause : String) (read : Token.decode data = .error (.decode cause)) :
    Verdict scheme keys data now (.error (.decode cause))
  | expired (t : Token) (read : Token.decode data = .ok t)
    (late : t.expireAt.toNat + 10 < now.toNat) :
    Verdict scheme keys data now (.error (.expired t.expireAt))
  | misshapen (t : Token) (read : Token.decode data = .ok t)
    (current : now.toNat ≤ t.expireAt.toNat + 10) (shape : scheme.signature? t.signature = none) :
    Verdict scheme keys data now (.error (.invalidSignature s!"{scheme.name}: signature error"))
  | unmatched (t : Token) (g : S) (read : Token.decode data = .ok t)
    (current : now.toNat ≤ t.expireAt.toNat + 10) (shape : scheme.signature? t.signature = some g)
    (foreign : ∀ key ∈ keys, scheme.holds key (Token.payload t.expireAt t.message) g = false) :
    Verdict scheme keys data now (.error .noMatchingKey)
  | accepted (t : Token) (g : S) (read : Token.decode data = .ok t)
    (current : now.toNat ≤ t.expireAt.toNat + 10) (shape : scheme.signature? t.signature = some g)
    (signed : ∃ key ∈ keys, scheme.holds key (Token.payload t.expireAt t.message) g = true) :
    Verdict scheme keys data now (.ok t)

section

variable {K S : Type} {scheme : Scheme K S} {keys keys' : List K} {data : List UInt8}
  {now : UInt64} {r r' : Except AuthError Token} {t : Token}

lemma isExpired_eq_false (current : now.toNat ≤ t.expireAt.toNat + 10) :
    isExpired t now = false := by
  rw [← Bool.not_eq_true, isExpired_iff]
  exact Nat.not_lt.mpr current

/-- Verification finds what there is to be found. -/
lemma Verdict.verify_eq (h : scheme.Verdict keys data now r) :
    scheme.verify keys data now = r := by
  -- the verdicts are the branches, in the order in which they are tried
  cases h with
  | unread cause read => simp only [verify, read, bind, Except.bind]
  | expired t read late =>
    simp only [verify, read, (isExpired_iff t now).mpr late, bind, Except.bind]
    rfl
  | misshapen t read current shape =>
    simp only [verify, read, isExpired_eq_false current, shape, bind, Except.bind]
    rfl
  | unmatched t g read current shape foreign =>
    have none : (keys.any fun key =>
        scheme.holds key (Token.payload t.expireAt t.message) g) = false := by
      simpa using foreign
    simp only [verify, read, isExpired_eq_false current, shape, bind, Except.bind, none]
    rfl
  | accepted t g read current shape signed =>
    have some : (keys.any fun key =>
        scheme.holds key (Token.payload t.expireAt t.message) g) = true :=
      List.any_eq_true.mpr signed
    simp only [verify, read, isExpired_eq_false current, shape, bind, Except.bind, some]
    rfl

/-- There is always something to be found. -/
lemma exists_verdict (scheme : Scheme K S) (keys : List K) (data : List UInt8) (now : UInt64) :
    ∃ r, scheme.Verdict keys data now r := by
  cases read : Token.decode data with
  | error e =>
    obtain ⟨cause, rfl⟩ := Token.eq_of_decode_error read
    exact ⟨_, .unread cause read⟩
  | ok t =>
    rcases Nat.lt_or_ge (t.expireAt.toNat + 10) now.toNat with late | current
    · exact ⟨_, .expired t read late⟩
    · cases shape : scheme.signature? t.signature with
      | none => exact ⟨_, .misshapen t read current shape⟩
      | some g =>
        by_cases signed : ∃ key ∈ keys,
            scheme.holds key (Token.payload t.expireAt t.message) g = true
        · exact ⟨_, .accepted t g read current shape signed⟩
        · refine ⟨_, .unmatched t g read current shape fun key hk => ?_⟩
          rw [← Bool.not_eq_true]
          exact fun holds => signed ⟨key, hk, holds⟩

lemma verify_eq_iff : scheme.verify keys data now = r ↔ scheme.Verdict keys data now r := by
  constructor
  · obtain ⟨r', verdict⟩ := exists_verdict scheme keys data now
    rintro rfl
    rwa [verdict.verify_eq]
  · exact Verdict.verify_eq

lemma verify_eq_ok_iff : scheme.verify keys data now = .ok t ↔
    Token.decode data = .ok t ∧ now.toNat ≤ t.expireAt.toNat + 10 ∧
      ∃ g, scheme.signature? t.signature = some g ∧
        ∃ key ∈ keys, scheme.holds key (Token.payload t.expireAt t.message) g = true := by
  rw [verify_eq_iff]
  constructor
  · intro h
    cases h with
    | accepted _ g read current shape signed => exact ⟨read, current, g, shape, signed⟩
  · rintro ⟨read, current, g, shape, signed⟩
    exact .accepted t g read current shape signed

/-- Only the keys count, not their order or number. -/
lemma verify_congr (same : ∀ key, key ∈ keys' ↔ key ∈ keys) :
    scheme.verify keys' data now = scheme.verify keys data now := by
  have any (p : K → Bool) : keys'.any p = keys.any p := by
    rw [Bool.eq_iff_iff, List.any_eq_true, List.any_eq_true]
    exact exists_congr fun key => and_congr_left' (same key)
  simp only [verify, any]

end

end Scheme

/-! ### The keys in use -/

/-- A public key of either scheme. -/
abbrev AnyKey := Secp256k1.Point ⊕ Ed25519.PublicKey

/-- Whether a key validates the signature of a token. The signature covers the expiry and the agent
of the token: their bytes for Ed25519, and the digest of these for ECDSA. -/
def AnyKey.Validates (t : Token) : AnyKey → Prop
  | .inl key => ∃ g, Secp256k1.Signature.ofBytes? t.signature = some g ∧
    key.verifies (Sha3.digest (Token.payload t.expireAt t.message)) g = true
  | .inr key => key.verifies (Token.payload t.expireAt t.message) t.signature = true

namespace TrustedKeys

/-- The keys that tokens are checked with: the ECDSA keys if there are any, or else the others. -/
def inUse (keys : TrustedKeys) : List AnyKey :=
  if keys.ecdsa = [] then keys.ed25519.map .inr else keys.ecdsa.map .inl

/-- Whether bytes have the shape of a signature of the scheme in use. -/
def Shapes (keys : TrustedKeys) (signature : List UInt8) : Prop :=
  if keys.ecdsa = [] then signature.length = 64
  else ∃ g, Secp256k1.Signature.ofBytes? signature = some g

/-- What is found of the token in `data` with keys of both schemes. -/
inductive Verdict (keys : TrustedKeys) (data : List UInt8) (now : UInt64) :
    Except AuthError Token → Prop where
  | keyless (hk : keys.inUse = []) : Verdict keys data now (.error .noPublicKey)
  | ecdsa (hk : keys.ecdsa ≠ []) (r : Except AuthError Token)
    (verdict : ecdsaScheme.Verdict keys.ecdsa data now r) : Verdict keys data now r
  | ed25519 (hk : keys.ecdsa = []) (hk' : keys.ed25519 ≠ []) (r : Except AuthError Token)
    (verdict : ed25519Scheme.Verdict keys.ed25519 data now r) : Verdict keys data now r

variable {keys keys' : TrustedKeys} {data : List UInt8} {now : UInt64}
  {r : Except AuthError Token} {t : Token}

/-! #### Which keys are in use -/

@[simp] lemma inl_mem_inUse {key : Secp256k1.Point} : .inl key ∈ keys.inUse ↔ key ∈ keys.ecdsa := by
  by_cases hk : keys.ecdsa = [] <;> simp [inUse, hk]

@[simp] lemma inr_mem_inUse {key : Ed25519.PublicKey} :
    .inr key ∈ keys.inUse ↔ keys.ecdsa = [] ∧ key ∈ keys.ed25519 := by
  by_cases hk : keys.ecdsa = [] <;> simp [inUse, hk]

lemma inUse_eq_nil : keys.inUse = [] ↔ keys.ecdsa = [] ∧ keys.ed25519 = [] := by
  by_cases hk : keys.ecdsa = [] <;> simp [inUse, hk]

/-- Keys of one scheme are in use only where there are keys of that scheme. -/
lemma ecdsa_eq_nil_iff (same : ∀ key, key ∈ keys'.inUse ↔ key ∈ keys.inUse) :
    keys'.ecdsa = [] ↔ keys.ecdsa = [] := by
  rw [List.eq_nil_iff_forall_not_mem, List.eq_nil_iff_forall_not_mem]
  refine forall_congr' fun key => not_congr ?_
  rw [← inl_mem_inUse, ← inl_mem_inUse]
  exact same (.inl key)

/-! #### What is checked with them -/

lemma verify_of_ecdsa (hk : keys.ecdsa ≠ []) :
    keys.verify data now = ecdsaScheme.verify keys.ecdsa data now := by
  simp [verify, verifyWith, hk]

lemma verify_of_ed25519 (hk : keys.ecdsa = []) (hk' : keys.ed25519 ≠ []) :
    keys.verify data now = ed25519Scheme.verify keys.ed25519 data now := by
  simp [verify, verifyWith, hk, hk']

lemma verify_of_inUse (hk : keys.inUse = []) : keys.verify data now = .error .noPublicKey := by
  obtain ⟨hecdsa, hed25519⟩ := inUse_eq_nil.mp hk
  simp [verify, verifyWith, hecdsa, hed25519]

/-- There are no keys at all, or ECDSA keys, or else Ed25519 keys. -/
lemma cases_inUse (keys : TrustedKeys) :
    keys.inUse = [] ∨ keys.ecdsa ≠ [] ∨ keys.ecdsa = [] ∧ keys.ed25519 ≠ [] := by
  rw [inUse_eq_nil]
  tauto

lemma verify_eq_iff : keys.verify data now = r ↔ keys.Verdict data now r := by
  constructor
  · rintro rfl
    rcases keys.cases_inUse with hk | hk | ⟨hk, hk'⟩
    · rw [verify_of_inUse hk]
      exact .keyless hk
    · exact .ecdsa hk _ (Scheme.verify_eq_iff.mp (verify_of_ecdsa hk).symm)
    · exact .ed25519 hk hk' _ (Scheme.verify_eq_iff.mp (verify_of_ed25519 hk hk').symm)
  · intro h
    cases h with
    | keyless hk => exact verify_of_inUse hk
    | ecdsa hk _ verdict => rw [verify_of_ecdsa hk, verdict.verify_eq]
    | ed25519 hk hk' _ verdict => rw [verify_of_ed25519 hk hk', verdict.verify_eq]

/-- Some ECDSA key holds for a signature just if it is of the right shape and some key in use
validates it. -/
lemma holds_ecdsa_iff (hk : keys.ecdsa ≠ []) :
    (∃ g, ecdsaScheme.signature? t.signature = some g ∧
      ∃ key ∈ keys.ecdsa, ecdsaScheme.holds key (Token.payload t.expireAt t.message) g = true) ↔
    keys.Shapes t.signature ∧ ∃ key ∈ keys.inUse, key.Validates t := by
  rw [Shapes, if_neg hk]
  constructor
  · rintro ⟨g, shape, key, hm, holds⟩
    exact ⟨⟨g, shape⟩, .inl key, inl_mem_inUse.mpr hm, g, shape, holds⟩
  · rintro ⟨-, key | key, hm, validates⟩
    · obtain ⟨g, shape, holds⟩ := validates
      exact ⟨g, shape, key, inl_mem_inUse.mp hm, holds⟩
    · exact absurd (inr_mem_inUse.mp hm).1 hk

lemma holds_ed25519_iff (hk : keys.ecdsa = []) :
    (∃ g, ed25519Scheme.signature? t.signature = some g ∧
      ∃ key ∈ keys.ed25519, ed25519Scheme.holds key (Token.payload t.expireAt t.message) g = true) ↔
    keys.Shapes t.signature ∧ ∃ key ∈ keys.inUse, key.Validates t := by
  have shape_iff (g : List UInt8) : ed25519Scheme.signature? t.signature = some g ↔
      t.signature.length = 64 ∧ t.signature = g := by
    simp only [ed25519Scheme, Option.ite_none_right_eq_some, Option.some.injEq]
  rw [Shapes, if_pos hk]
  constructor
  · rintro ⟨g, shape, key, hm, holds⟩
    obtain ⟨length, rfl⟩ := (shape_iff g).mp shape
    exact ⟨length, .inr key, inr_mem_inUse.mpr ⟨hk, hm⟩, holds⟩
  · rintro ⟨length, key | key, hm, validates⟩
    · rw [inl_mem_inUse, hk] at hm
      cases hm
    · exact ⟨t.signature, (shape_iff _).mpr ⟨length, rfl⟩, key, (inr_mem_inUse.mp hm).2, validates⟩

lemma verify_eq_ok_iff : keys.verify data now = .ok t ↔
    keys.inUse ≠ [] ∧ Token.decode data = .ok t ∧ now.toNat ≤ t.expireAt.toNat + 10 ∧
      keys.Shapes t.signature ∧ ∃ key ∈ keys.inUse, key.Validates t := by
  rcases keys.cases_inUse with hk | hk | ⟨hk, hk'⟩
  · rw [verify_of_inUse hk]
    constructor
    · intro h
      cases h
    · intro h
      exact absurd hk h.1
  · have some : keys.inUse ≠ [] := fun h => hk (inUse_eq_nil.mp h).1
    rw [verify_of_ecdsa hk, Scheme.verify_eq_ok_iff, holds_ecdsa_iff hk, ne_eq,
      eq_false some, not_false_iff, true_and]
  · have some : keys.inUse ≠ [] := fun h => hk' (inUse_eq_nil.mp h).2
    rw [verify_of_ed25519 hk hk', Scheme.verify_eq_ok_iff, holds_ed25519_iff hk, ne_eq,
      eq_false some, not_false_iff, true_and]

lemma verify_congr (same : ∀ key, key ∈ keys'.inUse ↔ key ∈ keys.inUse) :
    keys'.verify data now = keys.verify data now := by
  have hsame := ecdsa_eq_nil_iff same
  -- which scheme is in use depends only on which keys there are
  rcases keys.cases_inUse with hk | hk | ⟨hk, hk'⟩
  · have hnil : keys'.inUse = [] := by
      rw [List.eq_nil_iff_forall_not_mem]
      intro key hm
      rw [same key, hk] at hm
      cases hm
    rw [verify_of_inUse hk, verify_of_inUse hnil]
  · rw [verify_of_ecdsa hk, verify_of_ecdsa (hsame.not.mpr hk)]
    exact Scheme.verify_congr fun key => by rw [← inl_mem_inUse, same, inl_mem_inUse]
  · have hnil := hsame.mpr hk
    have members (key : Ed25519.PublicKey) : key ∈ keys'.ed25519 ↔ key ∈ keys.ed25519 := by
      have := same (.inr key)
      rw [inr_mem_inUse, inr_mem_inUse] at this
      tauto
    have some : keys'.ed25519 ≠ [] := by
      obtain ⟨key, hm⟩ := List.exists_mem_of_ne_nil _ hk'
      exact List.ne_nil_of_mem ((members key).mpr hm)
    rw [verify_of_ed25519 hk hk', verify_of_ed25519 hnil some]
    exact Scheme.verify_congr members

/-- More keys in use accept all tokens that fewer keys accept. -/
lemma verify_mono (more : keys.inUse ⊆ keys'.inUse) (h : keys.verify data now = .ok t) :
    keys'.verify data now = .ok t := by
  obtain ⟨some, read, current, shape, key, hm, validates⟩ := verify_eq_ok_iff.mp h
  refine verify_eq_ok_iff.mpr ⟨?_, read, current, ?_, key, more hm, validates⟩
  · exact List.ne_nil_of_mem (more hm)
  · -- the key that validates the token tells which scheme is in use
    cases key with
    | inl key =>
      have hk : keys'.ecdsa ≠ [] := List.ne_nil_of_mem (inl_mem_inUse.mp (more hm))
      obtain ⟨g, hg, -⟩ := validates
      rw [Shapes, if_neg hk]
      exact ⟨g, hg⟩
    | inr key =>
      rw [Shapes, if_pos (inr_mem_inUse.mp hm).1] at shape
      rwa [Shapes, if_pos (inr_mem_inUse.mp (more hm)).1]

end TrustedKeys

/-- Tokens that are accepted are just the valid ones. A token is accepted if there are keys at all,
its bytes can be read, it is not over for more than ten seconds, its signature has the shape of the
scheme in use, and one of the keys in use validates it. Otherwise the first of these that fails is
reported. What is found depends only on which keys are in use, not on their order and number, and
more keys in use accept all tokens that fewer keys accept. -/
theorem verify_accepts_valid (keys : TrustedKeys) (data : List UInt8) (now : UInt64) :
    (∀ r, keys.verify data now = r ↔ keys.Verdict data now r) ∧
    (∀ t, keys.verify data now = .ok t ↔
      keys.inUse ≠ [] ∧ Token.decode data = .ok t ∧ now.toNat ≤ t.expireAt.toNat + 10 ∧
        keys.Shapes t.signature ∧ ∃ key ∈ keys.inUse, key.Validates t) ∧
    (∀ keys' : TrustedKeys, (∀ key, key ∈ keys'.inUse ↔ key ∈ keys.inUse) →
      keys'.verify data now = keys.verify data now) ∧
    (∀ (keys' : TrustedKeys) (t : Token), keys.inUse ⊆ keys'.inUse →
      keys.verify data now = .ok t → keys'.verify data now = .ok t) := by
  refine ⟨fun r => TrustedKeys.verify_eq_iff, fun t => TrustedKeys.verify_eq_ok_iff, ?_, ?_⟩
  · intro keys' same
    exact TrustedKeys.verify_congr same
  · intro keys' t more h
    exact TrustedKeys.verify_mono more h

/-- The public key that the token below is signed for. -/
def porterKey : Ed25519.PublicKey :=
  (Ed25519.PublicKey.ofBytes?
    [138, 136, 227, 221, 116, 9, 241, 149, 253, 82, 219, 45, 60, 186, 93, 114, 202, 103, 9, 191,
     29, 148, 18, 27, 243, 116, 136, 1, 180, 15, 111, 92]).getD ⟨[], .zero⟩

/-- A token that `porterKey` validates. -/
def pass : Token where
  expireAt := 1699999990
  message := "a"
  signature :=
    [241, 208, 210, 205, 179, 235, 11, 202, 106, 11, 216, 60, 13, 233, 202, 212, 74, 39, 169, 118,
     53, 250, 17, 30, 218, 73, 136, 63, 206, 193, 212, 117, 65, 143, 222, 166, 34, 169, 96, 241,
     55, 174, 108, 119, 26, 86, 225, 240, 64, 151, 170, 132, 53, 248, 137, 187, 73, 66, 49, 119,
     149, 138, 47, 13]

theorem verify_accepts_valid_pass :
    let keys : TrustedKeys := ⟨[], [porterKey]⟩
    let more : TrustedKeys := ⟨[], [porterKey, porterKey]⟩
    keys.verify pass.encode 1700000000 = .ok pass ∧ keys.inUse ⊆ more.inUse ∧
    more.verify pass.encode 1700000000 = .ok pass ∧
    (∀ key, key ∈ more.inUse ↔ key ∈ keys.inUse) ∧
    more.verify pass.encode 1700000001 = keys.verify pass.encode 1700000001 := by
  intro keys more
  have valid : keys.verify pass.encode 1700000000 = .ok pass := by decide +kernel
  have same (key : AnyKey) : key ∈ more.inUse ↔ key ∈ keys.inUse := by
    simp [TrustedKeys.inUse, keys, more]
  have subset : keys.inUse ⊆ more.inUse := fun key => (same key).mpr
  obtain ⟨-, -, -, mono⟩ := verify_accepts_valid keys pass.encode 1700000000
  obtain ⟨-, -, congr, -⟩ := verify_accepts_valid keys pass.encode 1700000001
  exact ⟨valid, subset, mono more pass subset valid, same, congr more same⟩

end OnceProxy
