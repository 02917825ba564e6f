import Mathlib.Data.Set.Function
import OnceProxy.Http.Header
import OnceProxy.Proofs.Text.Utf8
import OnceProxy.Store.Key

/-!
# Addresses that differ

The parts of an address are told apart by colons. A number has no colon in it, the length of the
agent says where its name ends, and the name of a method has no colon either. So keys whose methods
can stand in requests have different addresses.
-/

namespace OnceProxy

namespace Http

/-- A character that may stand in a token. -/
def isTokenChar (c : Char) : Bool :=
  isNameChar c || c.isUpper

/-- A token, as the method of every request is one. -/
def isToken (s : String) : Bool :=
  !s.isEmpty && s.toList.all isTokenChar

lemma colon_notMem_of_isToken {s : String} (h : isToken s = true) : ':' ∉ s.toList := by
  intro hm
  have hall : s.toList.all isTokenChar = true := by
    rw [isToken, Bool.and_eq_true] at h
    exact h.2
  have hc : isTokenChar ':' = true := List.all_eq_true.mp hall ':' hm
  exact absurd hc (by decide)

end Http

/-! ### Parts of texts -/

/-- A text is cut in one way only at the first place of a character. -/
lemma cut_inj {α : Type} {a b c d : List α} {x : α} (ha : x ∉ a) (hb : x ∉ b)
    (h : a ++ x :: c = b ++ x :: d) : a = b ∧ c = d := by
  rcases List.append_eq_append_iff.mp h with ⟨e, rfl, he⟩ | ⟨e, rfl, he⟩
  · -- were one part longer, then it would hold the mark itself
    cases e with
    | nil => exact ⟨(List.append_nil a).symm, (List.cons.inj he).2⟩
    | cons y e =>
      cases he
      exact absurd (List.mem_append_right a List.mem_cons_self) hb
  · cases e with
    | nil => exact ⟨List.append_nil b, (List.cons.inj he).2.symm⟩
    | cons y e =>
      cases he
      exact absurd (List.mem_append_right b List.mem_cons_self) ha

lemma colon_notMem_repr (n : Nat) : ':' ∉ n.repr.toList := by
  rw [Nat.toList_repr]
  intro h
  have := Nat.isDigit_of_mem_toDigits (by decide) (by decide) h
  exact absurd this (by decide)

namespace IdempotencyKey

lemma toList_recordKey (k : IdempotencyKey) : k.recordKey.toList = "idempotency:".toList ++
    ((Text.Utf8.ofString k.agent).length.repr.toList ++ ':' ::
      (k.agent.toList ++ ':' :: (k.method.toList ++ ':' :: k.key.toList))) := by
  simp only [recordKey, storageKey, display, String.toList_append, List.append_assoc]
  rfl

variable {k k' : IdempotencyKey}

/-- The length in front of an address tells where the agent ends. -/
lemma parts_of_recordKey_eq (h : k.recordKey = k'.recordKey) : k.agent = k'.agent ∧
    k.method.toList ++ ':' :: k.key.toList = k'.method.toList ++ ':' :: k'.key.toList := by
  have hlist := congrArg String.toList h
  rw [toList_recordKey, toList_recordKey, List.append_cancel_left_eq] at hlist
  obtain ⟨hlength, hlist⟩ := cut_inj (colon_notMem_repr _) (colon_notMem_repr _) hlist
  have hbytes : (Text.Utf8.ofString k.agent).length = (Text.Utf8.ofString k'.agent).length := by
    rw [Nat.toList_repr, Nat.toList_repr] at hlength
    simpa using congrArg (Nat.ofDigitChars 10 · 0) hlength
  obtain ⟨hagent, hlist⟩ := Text.Utf8.append_inj hbytes hlist
  exact ⟨String.toList_inj.mp hagent, (List.cons.inj hlist).2⟩

/-- Keys of different agents have different addresses. -/
lemma recordKey_ne (h : k.agent ≠ k'.agent) : k.recordKey ≠ k'.recordKey :=
  fun hk => h (parts_of_recordKey_eq hk).1

/-- Keys whose methods are tokens have different addresses. -/
lemma injOn_recordKey : Set.InjOn recordKey {k | Http.isToken k.method = true} := by
  intro k hk k' hk' h
  obtain ⟨hagent, hlist⟩ := parts_of_recordKey_eq h
  obtain ⟨hmethod, hkey⟩ := cut_inj (Http.colon_notMem_of_isToken hk)
    (Http.colon_notMem_of_isToken hk') hlist
  rw [String.toList_inj] at hmethod hkey
  cases k
  cases k'
  simp only at hagent hmethod hkey
  rw [hagent, hmethod, hkey]

/-- Keys with the same flat address have the same address among shared records. -/
lemma recordKey_eq_iff : k.recordKey = k'.recordKey ↔ k.storageKey = k'.storageKey := by
  rw [recordKey, recordKey, String.append_right_inj]

/-- No address is that of two keys, whatever colons and digits there are in the names of agents and
in what callers chose. If the methods of two keys are tokens, the flat addresses of the keys are the
same just if their agents, their methods and what their callers chose are, and so are their
addresses among shared records. -/
theorem address_eq_iff (k k' : IdempotencyKey) (hk : Http.isToken k.method = true)
    (hk' : Http.isToken k'.method = true) :
    (k.storageKey = k'.storageKey ↔
      k.agent = k'.agent ∧ k.method = k'.method ∧ k.key = k'.key) ∧
    (k.recordKey = k'.recordKey ↔
      k.agent = k'.agent ∧ k.method = k'.method ∧ k.key = k'.key) := by
  rw [recordKey_eq_iff, and_self, ← recordKey_eq_iff]
  constructor
  · intro h
    rw [injOn_recordKey hk hk' h]
    exact ⟨rfl, rfl, rfl⟩
  · rintro ⟨hagent, hmethod, hkey⟩
    simp only [recordKey, storageKey, display, hagent, hmethod, hkey]

/-- Two keys that look the same where the length of the agent is not shown. -/
def lookalikes : IdempotencyKey × IdempotencyKey :=
  (⟨"4:é", "GET", "a:PUT:4:b"⟩, ⟨"4:é:GET:a", "PUT", "4:b"⟩)

theorem address_eq_iff_lookalikes :
    let (k, k') := lookalikes
    Http.isToken k.method = true ∧ Http.isToken k'.method = true ∧
    (k.storageKey = k'.storageKey ↔
      k.agent = k'.agent ∧ k.method = k'.method ∧ k.key = k'.key) ∧
    k.display = k'.display ∧ k.storageKey ≠ k'.storageKey ∧ k.recordKey ≠ k'.recordKey := by
  have token : Http.isToken lookalikes.1.method = true := by decide
  have token' : Http.isToken lookalikes.2.method = true := by decide
  have apart : lookalikes.1.key ≠ lookalikes.2.key := by decide
  obtain ⟨flat, shared⟩ := address_eq_iff lookalikes.1 lookalikes.2 token token'
  exact ⟨token, token', flat, by decide, fun h => apart (flat.mp h).2.2,
    fun h => apart (shared.mp h).2.2⟩

end IdempotencyKey

end OnceProxy
