import OnceProxy.Http.Message
import OnceProxy.Proofs.Json.Numbers

/-!
# Lengths in headers

A header states the length of a body by decimal digits. The length that the proxy puts in a header
is the one that it states.
-/

namespace OnceProxy.Http

open Json

/-- A header value states a number if it consists of decimal digits of this number. Zeros in front
do not matter. -/
def HeaderValue.States (v : HeaderValue) (n : Nat) : Prop :=
  v.bytes ≠ [] ∧ (∀ b ∈ v.bytes, isDigit b) ∧ ofDigits v.bytes = n

instance (v : HeaderValue) (n : Nat) : Decidable (v.States n) :=
  inferInstanceAs (Decidable (_ ∧ _))

/-- Whatever length headers state, it is this one. -/
def HeaderMap.StatesLength (m : HeaderMap) (n : Nat) : Prop :=
  ∀ v ∈ m.values contentLength, v.States n

instance (m : HeaderMap) (n : Nat) : Decidable (m.StatesLength n) :=
  inferInstanceAs (Decidable (∀ _ ∈ _, _))

lemma HeaderValue.States.unique {v : HeaderValue} {m n : Nat} (hm : v.States m) (hn : v.States n) :
    m = n :=
  hm.2.2.symm.trans hn.2.2

lemma digit_ofNat {n : Nat} (h : n < 10) :
    isDigit (UInt8.ofNat (48 + n)) ∧ digit (UInt8.ofNat (48 + n)) = n := by
  revert n
  decide

/-- A length is stated by its decimal digits. -/
lemma states_numberValue (n : Nat) : (numberValue n).States n := by
  change decimal n ≠ [] ∧ (∀ b ∈ decimal n, isDigit b) ∧ ofDigits (decimal n) = n
  induction n using Nat.strongRecOn with
  | ind n ih =>
    rw [decimal]
    split
    · rename_i h
      obtain ⟨hd, hn⟩ := digit_ofNat h
      refine ⟨List.cons_ne_nil _ _, by simpa using hd, ?_⟩
      rw [ofDigits, List.foldl_cons, addDigit, hn]
      simp
    · rename_i h
      obtain ⟨hd, hn⟩ := digit_ofNat (Nat.mod_lt n (by decide : 0 < 10))
      obtain ⟨-, digits, value⟩ := ih (n / 10) (by omega)
      refine ⟨List.append_ne_nil_of_right_ne_nil _ (List.cons_ne_nil _ _), ?_, ?_⟩
      · intro b hb
        rcases List.mem_append.mp hb with hb | hb
        · exact digits b hb
        · rwa [List.mem_singleton.mp hb]
      · rw [ofDigits, List.foldl_append, ← ofDigits, value, List.foldl_cons, List.foldl_nil,
          addDigit, hn]
        exact Nat.div_add_mod n 10

end OnceProxy.Http
