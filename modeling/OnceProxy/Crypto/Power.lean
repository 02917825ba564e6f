/-!
# Powers

Sums of copies of one element, and powers, by doubling and squaring.
-/

namespace OnceProxy

/-- The sum of `k` copies of an element, by doubling and adding. -/
def multiple {P : Type} (zero : P) (add : P → P → P) (k : Nat) (p : P) : P :=
  if k = 0 then zero
  else
    let half := multiple zero add (k / 2) p
    let double := add half half
    if k % 2 = 0 then double else add double p
termination_by k

/-- The product of `e` copies of an element. -/
def power {α : Type} [Mul α] (one x : α) (e : Nat) : α :=
  multiple one (· * ·) e x

end OnceProxy
