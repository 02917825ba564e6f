/-!
# Input

What is left to read of a byte string, with the number of bytes before it.
-/

namespace OnceProxy

/-- The bytes that are left to read, and the place of the first of them in the whole. -/
structure Input where
  offset : Nat
  rest : List UInt8
  deriving DecidableEq, Repr

namespace Input

/-- The input after its first `n` bytes. -/
def skip (n : Nat) (i : Input) : Input :=
  ⟨i.offset + n, i.rest.drop n⟩

/-- The next byte, if there is one. -/
def next? (i : Input) : Option UInt8 :=
  i.rest.head?

/-- The place after the next byte, or the end of the input. -/
def afterNext (i : Input) : Nat :=
  i.offset + min 1 i.rest.length

@[simp] theorem length_skip (n : Nat) (i : Input) :
    (i.skip n).rest.length = i.rest.length - n := by
  simp [skip]

end Input

end OnceProxy
