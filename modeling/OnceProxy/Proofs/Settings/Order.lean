import OnceProxy.Config
import OnceProxy.Proofs.Table

/-!
# The order of variables

Settings are known from the last variable of each name. Where in the list these stand makes no
difference, neither to the settings nor to what is reported of several faults.
-/

namespace OnceProxy.Config

variable {given given' : List (String × String)}

/-- Settings are made of the last variables of the names. -/
lemma ofVars_congr (h : ∀ name value, Table.Last given name value ↔ Table.Last given' name value) :
    ofVars given = ofVars given' := by
  rw [ofVars, ofVars, Table.ofList_congr h]

lemma ofVars_of_perm (distinct : (given.map (·.1)).Nodup) (perm : given.Perm given') :
    ofVars given = ofVars given' := by
  apply ofVars_congr
  intro name value
  rw [Table.last_iff_mem distinct,
    Table.last_iff_mem ((perm.map (·.1)).nodup_iff.mp distinct), perm.mem_iff]

/-- Settings do not depend on the order of the variables. Two lists with the same last variables
make the same settings, or there is the same fault in both of them. So a permutation of variables
with different names changes nothing, and all variables but the last of each name can be left out.
Sorting the last variables by name, in whatever order they come, makes the table that all is read
from. -/
theorem ofVars_order_free :
    (∀ given given' : List (String × String),
      (∀ name value, Table.Last given name value ↔ Table.Last given' name value) →
        ofVars given = ofVars given') ∧
    (∀ given given' : List (String × String), (given.map (·.1)).Nodup → given.Perm given' →
      ofVars given = ofVars given') ∧
    (∀ given, ofVars given = ofVars (Table.keepLast given)) ∧
    ∀ given vars : List (String × String), (vars.map (·.1)).Nodup →
      (∀ name value, (name, value) ∈ vars ↔ Table.Last given name value) →
        vars.mergeSort (fun e f => e.1 ≤ f.1) = Table.ofList given := by
  refine ⟨fun given given' => ofVars_congr, fun given given' => ofVars_of_perm, ?_, ?_⟩
  · intro given
    exact ofVars_congr fun name value => Table.last_keepLast.symm
  · intro given vars distinct last
    exact Table.mergeSort_eq_ofList distinct last

/-- Several variables are at fault, two of them with one name. -/
def faulty : List (String × String) :=
  [("PORT", "x"), ("HEADER_B", "\n"), ("HEADER_A", "\n"), ("PORT", "1")]

theorem ofVars_order_free_faulty :
    let last := [("HEADER_B", "\n"), ("HEADER_A", "\n"), ("PORT", "1")]
    Table.keepLast faulty = last ∧ (last.map (·.1)).Nodup ∧ last.Perm last.reverse ∧
    ofVars faulty = ofVars last ∧ ofVars last = ofVars last.reverse ∧
    ofVars last.reverse = .error (.invalidHeader "HEADER_A") := by
  intro last
  obtain ⟨-, perm, keep, -⟩ := ofVars_order_free
  have distinct : (last.map (·.1)).Nodup := by decide
  have reversed : last.Perm last.reverse := (List.reverse_perm last).symm
  exact ⟨by decide, distinct, reversed, keep faulty, perm _ _ distinct reversed,
    by decide +kernel⟩

end OnceProxy.Config
