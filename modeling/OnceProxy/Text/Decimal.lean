/-!
# Numbers in settings

Decimal numbers with a limit.
-/

namespace OnceProxy.Text

/-- Why a text is no number of the wanted size. -/
inductive NumberError where
  | empty
  | invalidDigit
  | tooLarge
  deriving DecidableEq, Repr

/-- The wording of a number error. -/
def NumberError.message : NumberError → String
  | .empty => "cannot parse integer from empty string"
  | .invalidDigit => "invalid digit found in string"
  | .tooLarge => "number too large to fit in target type"

/-- Reads decimal digits after the number `acc`; the first fault from the left is the answer. -/
def readDigits (limit acc : Nat) : List Char → Except NumberError Nat
  | [] => .ok acc
  | c :: cs =>
    if !c.isDigit then .error .invalidDigit
    else
      let n := 10 * acc + (c.toNat - 48)
      if n < limit then readDigits limit n cs else .error .tooLarge

/-- Reads a number below `limit`: decimal digits, with at most one plus sign in front. -/
def readNumber (limit : Nat) (s : String) : Except NumberError Nat :=
  match s.toList with
  | [] => .error .empty
  | ['+'] => .error .invalidDigit
  | '+' :: cs => readDigits limit 0 cs
  | cs => readDigits limit 0 cs

theorem readDigits_lt {limit acc n : Nat} {cs : List Char} (hacc : acc < limit)
    (h : readDigits limit acc cs = .ok n) : n < limit := by
  induction cs generalizing acc with
  | nil => simp [readDigits] at h; omega
  | cons c cs ih =>
    simp only [readDigits] at h
    split at h
    · simp at h
    · split at h
      · exact ih ‹_› h
      · simp at h

end OnceProxy.Text
