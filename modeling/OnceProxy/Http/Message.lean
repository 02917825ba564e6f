import OnceProxy.Http.Header

/-!
# Responses

The answers that the proxy gives.
-/

namespace OnceProxy.Http

/-- The answer to a request. -/
structure Response where
  status : Nat
  headers : HeaderMap
  body : List UInt8
  deriving DecidableEq

/-- The media type of plain text in UTF-8. -/
def plainText : HeaderValue :=
  ⟨Text.Utf8.ofString "text/plain; charset=utf-8", by decide⟩

/-- The decimal digits of a number. -/
def decimal (n : Nat) : List UInt8 :=
  if n < 10 then [UInt8.ofNat (48 + n)] else decimal (n / 10) ++ [UInt8.ofNat (48 + n % 10)]

theorem isValueByte_digit {n : Nat} (h : n < 10) : isValueByte (UInt8.ofNat (48 + n)) = true := by
  revert n
  decide

theorem decimal_legal (n : Nat) : (decimal n).all isValueByte = true := by
  induction n using Nat.strongRecOn with
  | ind n ih =>
    unfold decimal
    split
    · simp only [List.all_cons, isValueByte_digit ‹_›, List.all_nil, Bool.and_true]
    · simp only [List.all_append, Bool.and_eq_true, List.all_cons, List.all_nil, Bool.and_true]
      exact ⟨ih _ (by omega), isValueByte_digit (by omega)⟩

/-- The digits of a number as a header value. -/
def numberValue (n : Nat) : HeaderValue := ⟨decimal n, decimal_legal n⟩

/-- A response of plain text. -/
def Response.ofText (status : Nat) (text : String) : Response where
  status := status
  headers := .insert .empty contentType plainText
  body := Text.Utf8.ofString text

end OnceProxy.Http
