import OnceProxy.Proofs.Text.Trimming
import OnceProxy.Text.CommaList

/-!
# Items of comma lists

A comma ends one item and starts the next, so the items of a list are those before a comma and those
after it. They are trimmed and not empty, and blanks that are put around them make no difference.
-/

namespace OnceProxy.Text

/-- What an item of a comma list is like. -/
structure IsItem (cs : List Char) : Prop where
  nonempty : cs ≠ []
  uncut : ',' ∉ cs
  trimmed : IsTrimmed cs

variable {a b cs before after item : List Char}

lemma not_mem_of_isBlank (h : ∀ c ∈ cs, isBlank c = true) : ',' ∉ cs := fun hm =>
  absurd (h ',' hm) (by decide)

/-! ### Texts between commas -/

lemma splitCommas_eq_splitOn (cs : List Char) : splitCommas cs = cs.splitOn ',' := by
  induction cs with
  | nil => rfl
  | cons c cs ih =>
    rw [splitCommas, ih, List.splitOn_cons_eq_if_modifyHead]
    cases hs : cs.splitOn ',' with
    | nil => exact absurd hs (List.splitOn_ne_nil ',' cs)
    | cons p ps => simp only [beq_iff_eq, List.modifyHead_cons]

/-- What holds of texts without a comma, and of two texts with a comma between them if it holds of
both, holds of every text. -/
lemma induction_on_commas {P : List Char → Prop} (piece : ∀ cs, ',' ∉ cs → P cs)
    (join : ∀ a b, P a → P b → P (a ++ ',' :: b)) (cs : List Char) : P cs := by
  by_cases h : ',' ∈ cs
  · obtain ⟨a, b, hcs, ha⟩ := List.eq_append_cons_of_mem h
    rw [hcs]
    exact join a b (piece a ha) (induction_on_commas piece join b)
  · exact piece cs h
termination_by cs.length
decreasing_by
  rw [hcs, List.length_append, List.length_cons]
  omega

/-- The items before a comma come first, then those after it. -/
lemma listItems_append (a b : List Char) :
    listItems (a ++ ',' :: b) = listItems a ++ listItems b := by
  simp only [listItems, splitCommas_eq_splitOn, List.splitOn_append_cons_self, List.map_append,
    List.filter_append]

/-- A text without a comma is one item at most. -/
lemma listItems_of_uncut (h : ',' ∉ cs) :
    listItems cs = if trimChars cs = [] then [] else [trimChars cs] := by
  rw [listItems, splitCommas_eq_splitOn, List.splitOn_eq_singleton h]
  split
  · rename_i empty
    simp [empty]
  · rename_i nonempty
    simp [nonempty]

lemma listItems_of_isItem (h : IsItem cs) : listItems cs = [cs] := by
  rw [listItems_of_uncut h.uncut, h.trimmed.trimChars_eq, if_neg h.nonempty]

lemma isItem_of_mem_listItems (h : item ∈ listItems cs) : IsItem item := by
  induction cs using induction_on_commas with
  | piece cs uncut =>
    rw [listItems_of_uncut uncut] at h
    split at h
    · cases h
    · rename_i nonempty
      obtain rfl := List.mem_singleton.mp h
      obtain ⟨_, _, -, -, hcs⟩ := surrounds_trimChars cs
      refine ⟨nonempty, fun hm => uncut ?_, isTrimmed_trimChars cs⟩
      rw [hcs]
      exact List.mem_append_left _ (List.mem_append_right _ hm)
  | join a b iha ihb =>
    rw [listItems_append] at h
    exact (List.mem_append.mp h).elim iha ihb

/-- Blanks around a text make no difference to its items. -/
lemma listItems_of_blanks (hb : ∀ c ∈ before, isBlank c = true)
    (ha : ∀ c ∈ after, isBlank c = true) : listItems (before ++ cs ++ after) = listItems cs := by
  have none : ∀ c ∈ ([] : List Char), isBlank c = true := List.forall_mem_nil _
  induction cs using induction_on_commas generalizing before after with
  | piece cs uncut =>
    have uncut' : ',' ∉ before ++ cs ++ after := by
      simp [uncut, not_mem_of_isBlank hb, not_mem_of_isBlank ha]
    rw [listItems_of_uncut uncut', listItems_of_uncut uncut, trimChars_of_blanks hb ha]
  -- blanks are no commas, so those in front go to the first part and the others to the last
  | join a b iha ihb =>
    calc listItems (before ++ (a ++ ',' :: b) ++ after)
      _ = listItems ((before ++ a ++ []) ++ ',' :: ([] ++ b ++ after)) := by
        simp only [List.append_assoc, List.cons_append, List.nil_append]
      _ = listItems a ++ listItems b := by rw [listItems_append, iha hb none, ihb none ha]
      _ = listItems (a ++ ',' :: b) := (listItems_append a b).symm

lemma listItems_trimChars (cs : List Char) : listItems (trimChars cs) = listItems cs := by
  obtain ⟨before, after, hb, ha, hcs⟩ := surrounds_trimChars cs
  conv_rhs => rw [hcs, listItems_of_blanks hb ha]

/-! ### Lists in strings -/

lemma commaList_append (a b : String) : commaList (a ++ "," ++ b) = commaList a ++ commaList b := by
  have text : (a ++ "," ++ b).toList = a.toList ++ ',' :: b.toList := by simp
  rw [commaList, text, listItems_append, List.map_append]
  rfl

lemma isItem_of_mem_commaList {s item : String} (h : item ∈ commaList s) : IsItem item.toList := by
  obtain ⟨cs, hcs, rfl⟩ := List.mem_map.mp h
  rw [String.toList_ofList]
  exact isItem_of_mem_listItems hcs

lemma commaList_trim (s : String) : commaList (trim s) = commaList s := by
  rw [commaList, trim, String.toList_ofList, listItems_trimChars]
  rfl

/-- An item as it stands in a list, with what stands before and after it. -/
structure ListedItem where
  before : String
  item : String
  after : String

/-- The text of an item in a list. -/
def ListedItem.text (l : ListedItem) : String :=
  l.before ++ l.item ++ l.after

/-- Only blanks stand around the item. -/
structure ListedItem.Proper (l : ListedItem) : Prop where
  before : isAllBlank l.before = true
  item : IsItem l.item.toList
  after : isAllBlank l.after = true

lemma ListedItem.Proper.commaList_text {l : ListedItem} (h : l.Proper) :
    commaList l.text = [l.item] := by
  have before := List.all_eq_true.mp h.before
  have after := List.all_eq_true.mp h.after
  rw [commaList, text, String.toList_append, String.toList_append, listItems_of_blanks before after,
    listItems_of_isItem h.item, List.map_singleton, String.ofList_toList]

/-- Items that are written with commas between them are read back. -/
lemma commaList_intercalate {ls : List ListedItem} (h : ∀ l ∈ ls, l.Proper) :
    commaList (",".intercalate (ls.map ListedItem.text)) = ls.map (·.item) := by
  induction ls with
  | nil => rfl
  | cons l ls ih =>
    rw [List.forall_mem_cons] at h
    cases ls with
    | nil => exact h.1.commaList_text
    | cons k ls =>
      rw [List.map_cons, List.map_cons, String.intercalate_cons_cons, commaList_append,
        h.1.commaList_text, ← List.map_cons, ih h.2]
      rfl

end OnceProxy.Text
