import Mathlib.Data.Option.Basic
import Mathlib.Data.List.Forall2
import OnceProxy.Proofs.Json.Grammar
import OnceProxy.Proofs.Table

/-!
# What texts say

The values that trees stand for, and the parts of both at the same paths.
-/

namespace OnceProxy.Json

/-- A tree says a value; `number` tells what a number says. An object says the last member of each
name. -/
inductive Tree.Says (number : Literal → Value → Prop) : Tree → Value → Prop
  | null : Says number .null .null
  | bool {b : Bool} : Says number (.bool b) (.bool b)
  | number {l : Literal} {v : Value} : number l v → Says number (.number l) v
  | string {s : String} : Says number (.string s) (.string s)
  | array {ts : List Tree} {vs : List Value} :
      List.Forall₂ (Says number) ts vs → Says number (.array ts) (.array vs)
  | object {raw : List (String × Tree)} {ms : List (String × Value)} :
      raw.map Prod.fst = ms.map Prod.fst →
      List.Forall₂ (Says number) (raw.map Prod.snd) (ms.map Prod.snd) →
      Says number (.object raw) (.object (Table.ofList ms))

/-- A step from a value to one of its parts. -/
inductive Step where
  | member (name : String)
  | element (i : Nat)
  deriving DecidableEq, Repr

/-- The part of a tree that a step leads to. Of several members of one name the last counts. -/
def Tree.child? : Tree → Step → Option Tree
  | .object ms, .member name => Table.get? name ms.reverse
  | .array ts, .element i => ts[i]?
  | _, _ => none

/-- The part of a tree that a path leads to. -/
def Tree.get? (t : Tree) (path : List Step) : Option Tree := path.foldlM Tree.child? t

/-- The part of a value that a step leads to. -/
def Value.child? : Value → Step → Option Value
  | .object ms, .member name => Table.get? name ms
  | .array vs, .element i => vs[i]?
  | _, _ => none

/-- The part of a value that a path leads to. -/
def Value.get? (v : Value) (path : List Step) : Option Value := path.foldlM Value.child? v

/-! ### Paths -/

section

variable {α β : Type} {R : α → β → Prop} {raw : List (String × α)} {ms : List (String × β)}

lemma forall₂_members :
    raw.map Prod.fst = ms.map Prod.fst ∧ List.Forall₂ R (raw.map Prod.snd) (ms.map Prod.snd) ↔
      List.Forall₂ (fun a b => a.1 = b.1 ∧ R a.2 b.2) raw ms := by
  induction raw generalizing ms with
  | nil => cases ms <;> simp
  | cons m raw ih =>
    cases ms with
    | nil => simp
    | cons n ms =>
      simp only [List.map_cons, List.cons.injEq, List.forall₂_cons, ← ih]
      tauto

lemma rel_get? (h : List.Forall₂ (fun a b => a.1 = b.1 ∧ R a.2 b.2) raw ms) (name : String) :
    Option.Rel R (Table.get? name raw) (Table.get? name ms) := by
  induction h with
  | nil => exact .none
  | cons h _ ih =>
    rw [Table.get?_cons, Table.get?_cons, h.1]
    split
    · exact .some h.2
    · exact ih

lemma rel_getElem? {as : List α} {bs : List β} (h : List.Forall₂ R as bs) (i : Nat) :
    Option.Rel R as[i]? bs[i]? := by
  induction h generalizing i with
  | nil => exact .none
  | cons h _ ih =>
    cases i with
    | zero => exact .some h
    | succ i => exact ih i

end

variable {number : Literal → Value → Prop} {t : Tree} {v : Value}

/-- Numbers have no parts. -/
def Atomic (number : Literal → Value → Prop) : Prop := ∀ l v s, number l v → v.child? s = none

lemma Tree.Says.child? (hn : Atomic number) (h : Says number t v) (s : Step) :
    Option.Rel (Says number) (t.child? s) (v.child? s) := by
  cases h with
  | null => exact .none
  | bool => exact .none
  | string => exact .none
  | number h =>
    rw [hn _ _ s h]
    exact .none
  | array h =>
    cases s with
    | member => exact .none
    | element i => exact rel_getElem? h i
  | object hnames h =>
    cases s with
    | element => exact .none
    | member name =>
      rw [Value.child?, Table.get?_ofList]
      exact rel_get? (List.rel_reverse (forall₂_members.mp ⟨hnames, h⟩)) name

/-- The part of a tree at a path says the part of the value at this path. -/
lemma Tree.Says.get? (hn : Atomic number) (h : Says number t v) (path : List Step) :
    Option.Rel (Says number) (t.get? path) (v.get? path) := by
  induction path generalizing t v with
  | nil => exact .some h
  | cons s path ih =>
    simp only [Tree.get?, Value.get?, List.foldlM_cons]
    have hs := h.child? hn s
    generalize t.child? s = u, v.child? s = w at hs ⊢
    cases hs with
    | none => exact .none
    | some h => exact ih h

end OnceProxy.Json
