import OnceProxy.Proofs.Auth.Bearer
import OnceProxy.Proofs.Auth.TokenBytes
import OnceProxy.Proofs.Auth.Verification

/-!
# Tokens that are minted

A token that a signer makes travels in an authorization value, and whoever trusts the public key of
the signer gets back from it what was signed. Of the arithmetic of the two schemes it is only asked
that a public key accepts what its own signer has signed.
-/

namespace OnceProxy

/-! ### Signatures over secp256k1 -/

namespace Secp256k1

open Bytes

/-- Numbers modulo the order are read back from their bytes if they are not zero. -/
lemma scalar?_bigEndian {s : Scalar} (h : s ≠ 0) : scalar? (bigEndian 32 s.val) = some s := by
  have hlt : s.val < order := s.isLt
  have hn : s.val ≠ 0 := fun h0 => h (Fin.ext h0)
  have hbytes : ofBigEndian (bigEndian 32 s.val) = s.val := by
    rw [ofBigEndian_bigEndian]
    exact Nat.mod_eq_of_lt (Nat.lt_of_lt_of_le hlt (by decide))
  simp only [scalar?, hbytes]
  rw [dif_pos hlt, if_neg hn]

/-- A signature is read back from its 64 bytes if neither of its numbers is zero. -/
lemma Signature.ofBytes?_toBytes {g : Signature} (hr : g.r ≠ 0) (hs : g.s ≠ 0) :
    ofBytes? g.toBytes = some g := by
  have hlen : g.toBytes.length = 64 := by simp [toBytes]
  have htake : g.toBytes.take 32 = bigEndian 32 g.r.val := List.take_left' (length_bigEndian 32 _)
  have hdrop : g.toBytes.drop 32 = bigEndian 32 g.s.val := List.drop_left' (length_bigEndian 32 _)
  rw [ofBytes?, if_pos hlen, htake, hdrop, scalar?_bigEndian hr, scalar?_bigEndian hs]
  rfl

lemma neg_ne_zero {s : Scalar} (h : s ≠ 0) : -s ≠ 0 := by
  have hlt : s.val < order := s.isLt
  have hn : s.val ≠ 0 := fun h0 => h (Fin.ext h0)
  intro h0
  have hval : (order - s.val) % order = 0 := congrArg Fin.val h0
  rw [Nat.mod_eq_of_lt (by omega)] at hval
  omega

/-- Signing makes no zeros. -/
lemma ne_zero_of_sign? {secret : Scalar} {digest : List UInt8} {g : Signature}
    (h : sign? secret digest = some g) : g.r ≠ 0 ∧ g.s ≠ 0 := by
  simp only [sign?, Option.bind_eq_bind, Option.bind_eq_some_iff] at h
  obtain ⟨k, -, h⟩ := h
  rw [Option.ite_none_left_eq_some, not_or] at h
  obtain ⟨⟨hr, hs⟩, hg⟩ := h
  cases hg
  refine ⟨hr, ?_⟩
  dsimp only
  split
  · exact neg_ne_zero hs
  · exact hs

end Secp256k1

/-! ### Signers -/

/-- The secret of a signer, of either scheme. -/
inductive SigningKey where
  | ecdsa (secret : Secp256k1.Scalar)
  | ed25519 (seed : List UInt8)

/-- What is signed is a signature of the digest of the payload. -/
lemma signEcdsa_of_sign? {secret : Secp256k1.Scalar} {expireAt : UInt64} {message : String}
    {g : Secp256k1.Signature}
    (h : Secp256k1.sign? secret (Sha3.digest (Token.payload expireAt message)) = some g) :
    signEcdsa secret expireAt message = .ok ⟨expireAt, message, g.toBytes⟩ := by
  -- unfolded as a function: at arguments, the kernel would start to compute the signature
  have unfolded : signEcdsa = fun secret expireAt message =>
      (Secp256k1.sign? secret (Sha3.digest (Token.payload expireAt message))).elim
        (.error (.signing "signature error")) fun g => .ok ⟨expireAt, message, g.toBytes⟩ := by
    delta signEcdsa
    funext secret expireAt message
    cases Secp256k1.sign? secret (Sha3.digest (Token.payload expireAt message)) with
    | none => rfl
    | some g => rfl
  rw [unfolded]
  dsimp only
  rw [h, Option.elim_some]

lemma length_sign (seed message : List UInt8) : (Ed25519.sign seed message).length = 64 := by
  simp [Ed25519.sign, Ed25519.Point.encode]

namespace SigningKey

/-- The public key of a signer. -/
def publicKey? : SigningKey → Option AnyKey
  | .ecdsa secret => some (.inl (Secp256k1.publicPoint secret))
  | .ed25519 seed => (Ed25519.PublicKey.ofBytes? (Ed25519.publicKey seed)).map .inr

/-- The token that a signer makes for an agent. -/
def mint : SigningKey → UInt64 → String → Except AuthError Token
  | .ecdsa secret, expireAt, message => signEcdsa secret expireAt message
  | .ed25519 seed, expireAt, message => .ok (signEd25519 seed expireAt message)

/-- What the arithmetic of a scheme promises: a payload can be signed, and the public key of the
signer accepts the signature for the same bytes. -/
def AcceptsOwn (payload : List UInt8) : SigningKey → Prop
  | .ecdsa secret => ∃ g, Secp256k1.sign? secret (Sha3.digest payload) = some g ∧
    (Secp256k1.publicPoint secret).verifies (Sha3.digest payload) g = true
  | .ed25519 seed => ∀ key, Ed25519.PublicKey.ofBytes? (Ed25519.publicKey seed) = some key →
    key.verifies payload (Ed25519.sign seed payload) = true

variable {k : SigningKey} {key : AnyKey} {keys : TrustedKeys} {expireAt now : UInt64}
  {message : String}

/-- What a signer makes says what it was asked to say, in 64 bytes of the right shape, and its
public key validates it. -/
lemma exists_mint (own : k.publicKey? = some key) (trusted : key ∈ keys.inUse)
    (accepts : k.AcceptsOwn (Token.payload expireAt message)) :
    ∃ t, k.mint expireAt message = .ok t ∧ t.expireAt = expireAt ∧ t.message = message ∧
      t.signature.length = 64 ∧ keys.Shapes t.signature ∧ key.Validates t := by
  cases k with
  | ecdsa secret =>
    obtain ⟨g, hsign, holds⟩ := accepts
    obtain rfl := Option.some.inj own
    obtain ⟨hr, hs⟩ := Secp256k1.ne_zero_of_sign? hsign
    have shape := Secp256k1.Signature.ofBytes?_toBytes hr hs
    -- an ECDSA key is in use, so these keys are the ones that count
    have hk : keys.ecdsa ≠ [] := List.ne_nil_of_mem (TrustedKeys.inl_mem_inUse.mp trusted)
    refine ⟨⟨expireAt, message, g.toBytes⟩, ?_, rfl, rfl, ?_, ?_, g, shape, holds⟩
    · exact signEcdsa_of_sign? hsign
    · simp [Secp256k1.Signature.toBytes]
    · rw [TrustedKeys.Shapes, if_neg hk]
      exact ⟨g, shape⟩
  | ed25519 seed =>
    obtain ⟨key, hkey, rfl⟩ := Option.map_eq_some_iff.mp own
    have length := length_sign seed (Token.payload expireAt message)
    refine ⟨⟨expireAt, message, Ed25519.sign seed (Token.payload expireAt message)⟩, rfl, rfl, rfl,
      length, ?_, accepts key hkey⟩
    rw [TrustedKeys.Shapes, if_pos (TrustedKeys.inr_mem_inUse.mp trusted).1]
    exact length

end SigningKey

/-- Minted tokens are accepted. A signer of either scheme makes a token for any agent and any time.
The bytes in the authorization value of the token are those of the token, and until ten seconds
after its time they are accepted by all sets of keys whose keys in use are of the scheme of the
signer and have its public key among them. What is found is the token itself, with the time, the
agent and the signature that it was made of. -/
theorem minted_tokens_verify (k : SigningKey) (key : AnyKey) (own : k.publicKey? = some key)
    (keys : TrustedKeys) (trusted : key ∈ keys.inUse) (expireAt now : UInt64)
    (current : now.toNat ≤ expireAt.toNat + 10) (message : String)
    (fits : (Text.Utf8.ofString message).length < wordLimit)
    (accepts : k.AcceptsOwn (Token.payload expireAt message)) :
    ∃ t, k.mint expireAt message = .ok t ∧ t.expireAt = expireAt ∧ t.message = message ∧
      t.signature.length = 64 ∧ Token.bytesOfBearer t.bearer = .ok t.encode ∧
      keys.verify t.encode now = .ok t ∧ keys.verifyBearer t.bearer now = .ok t := by
  obtain ⟨t, made, rfl, rfl, length, shape, validates⟩ :=
    SigningKey.exists_mint own trusted accepts
  -- the token is read back, and then the gates of verification are passed one by one
  have whole : Token.decode t.encode = .ok t := by
    apply Token.decode_encode
    exact ⟨fits, by rw [length]; decide⟩
  have bytes : Token.bytesOfBearer t.bearer = .ok t.encode :=
    Token.bytesOfBearer_bearerOfBytes t.encode
  have accepted : keys.verify t.encode now = .ok t :=
    TrustedKeys.verify_eq_ok_iff.mpr
      ⟨List.ne_nil_of_mem trusted, whole, current, shape, key, trusted, validates⟩
  refine ⟨t, made, rfl, rfl, length, bytes, accepted, ?_⟩
  rw [TrustedKeys.verifyBearer, bytes]
  exact accepted

/-- The signer of `pass`. -/
def porter : SigningKey := .ed25519 (List.replicate 32 1)

theorem minted_tokens_verify_porter :
    porter.publicKey? = some (.inr porterKey) ∧
    .inr porterKey ∈ (⟨[], [porterKey, porterKey]⟩ : TrustedKeys).inUse ∧
    (1700000000 : UInt64).toNat ≤ (1699999990 : UInt64).toNat + 10 ∧
    (Text.Utf8.ofString "a").length < wordLimit ∧
    porter.AcceptsOwn (Token.payload 1699999990 "a") ∧
    ∃ t, porter.mint 1699999990 "a" = .ok t ∧ t.expireAt = 1699999990 ∧ t.message = "a" ∧
      t.signature.length = 64 ∧ Token.bytesOfBearer t.bearer = .ok t.encode ∧
      (⟨[], [porterKey, porterKey]⟩ : TrustedKeys).verify t.encode 1700000000 = .ok t ∧
      (⟨[], [porterKey, porterKey]⟩ : TrustedKeys).verifyBearer t.bearer 1700000000 = .ok t := by
  have key : Ed25519.PublicKey.ofBytes? (Ed25519.publicKey (List.replicate 32 1)) =
      some porterKey := by
    decide +kernel
  have own : porter.publicKey? = some (.inr porterKey) := by
    rw [porter, SigningKey.publicKey?, key, Option.map_some]
  have trusted : .inr porterKey ∈ (⟨[], [porterKey, porterKey]⟩ : TrustedKeys).inUse := by
    simp [TrustedKeys.inUse]
  have current : (1700000000 : UInt64).toNat ≤ (1699999990 : UInt64).toNat + 10 := by decide
  have fits : (Text.Utf8.ofString "a").length < wordLimit := by decide
  have accepts : porter.AcceptsOwn (Token.payload 1699999990 "a") := by
    intro key' hkey'
    rw [key] at hkey'
    obtain rfl := Option.some.inj hkey'
    decide +kernel
  refine ⟨own, trusted, current, fits, accepts, ?_⟩
  exact minted_tokens_verify porter _ own _ trusted 1699999990 1700000000 current "a" fits accepts

end OnceProxy
