import Mathlib.Tactic.Common
import OnceProxy.Input

/-!
# Readers and their input

What a reader that succeeds has done step by step, and what it finds at the next byte.
-/

namespace OnceProxy

lemma ok_of_bind {ε α β : Type} {x : Except ε α} {f : α → Except ε β} {b : β}
    (h : x >>= f = .ok b) : ∃ a, x = .ok a ∧ f a = .ok b := by
  cases x with
  | error e => cases h
  | ok a => exact ⟨a, rfl, h⟩

lemma ok_of_map {ε α β : Type} {x : Except ε α} {f : α → β} {b : β} (h : x.map f = .ok b) :
    ∃ a, x = .ok a ∧ f a = b := by
  cases x with
  | error e => cases h
  | ok a =>
    cases h
    exact ⟨a, rfl, rfl⟩

lemma mapError_eq_ok_iff {ε ε' α : Type} {x : Except ε α} {f : ε → ε'} {a : α} :
    x.mapError f = .ok a ↔ x = .ok a := by
  cases x with
  | error e => simp [Except.mapError]
  | ok b => simp [Except.mapError]

namespace Input

lemma rest_of_next? {i : Input} {b : UInt8} (h : i.next? = some b) :
    i.rest = b :: (i.skip 1).rest := by
  obtain ⟨o, s⟩ := i
  cases s with
  | nil => cases h
  | cons a s =>
    cases h
    rfl

lemma rest_skip_length {i : Input} {a t : List UInt8} (h : i.rest = a ++ t) :
    (i.skip a.length).rest = t := by
  rw [skip, h]
  exact List.drop_left

lemma rest_skip_takeWhile (p : UInt8 → Bool) (i : Input) :
    (i.skip (i.rest.takeWhile p).length).rest = i.rest.dropWhile p := by
  change i.rest.drop _ = _
  induction i.rest with
  | nil => rfl
  | cons b s ih =>
    rw [List.takeWhile_cons, List.dropWhile_cons]
    split
    · exact ih
    · rfl

end Input

end OnceProxy
