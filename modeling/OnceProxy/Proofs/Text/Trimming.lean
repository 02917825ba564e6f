import Mathlib.Data.List.TakeWhile
import Mathlib.Tactic.Common
import OnceProxy.Text.Blank

/-!
# Trimming

What is left of a text that is trimmed neither starts nor ends with a blank, and around it stood
nothing but blanks. By this it is known.
-/

namespace OnceProxy.Text

/-- Nothing but blanks stands around the core of a text. -/
def Surrounds (core cs : List Char) : Prop :=
  ∃ before after, (∀ c ∈ before, isBlank c = true) ∧ (∀ c ∈ after, isBlank c = true) ∧
    cs = before ++ core ++ after

/-- A text neither starts nor ends with a blank. -/
def IsTrimmed (cs : List Char) : Prop :=
  (∀ c ∈ cs.head?, isBlank c = false) ∧ ∀ c ∈ cs.getLast?, isBlank c = false

variable {cs before after core : List Char}

lemma dropWhile_isBlank_append (hb : ∀ c ∈ before, isBlank c = true)
    (hc : ∀ c ∈ cs.head?, isBlank c = false) : (before ++ cs).dropWhile isBlank = cs := by
  rw [List.dropWhile_append_of_pos hb]
  cases cs with
  | nil => rfl
  | cons c cs => rw [List.dropWhile_cons_of_neg (by simp [hc c rfl])]

/-- What is left after the blanks at the start does not start with one. -/
lemma head?_dropWhile_isBlank (cs : List Char) :
    ∀ c ∈ (cs.dropWhile isBlank).head?, isBlank c = false := by
  intro c hc
  have := List.head?_dropWhile_not isBlank cs
  rw [Option.mem_def] at hc
  rw [hc] at this
  exact this

lemma surrounds_trimChars (cs : List Char) : Surrounds (trimChars cs) cs := by
  have blank {ds : List Char} : ∀ c ∈ ds.takeWhile isBlank, isBlank c = true :=
    List.all_eq_true.mp List.all_takeWhile
  refine ⟨cs.takeWhile isBlank, ((cs.dropWhile isBlank).reverse.takeWhile isBlank).reverse,
    blank, fun c hc => blank c (List.mem_reverse.mp hc), ?_⟩
  rw [trimChars, List.append_assoc, ← List.reverse_append, List.takeWhile_append_dropWhile,
    List.reverse_reverse, List.takeWhile_append_dropWhile]

lemma isTrimmed_trimChars (cs : List Char) : IsTrimmed (trimChars cs) := by
  have within : trimChars cs <+: cs.dropWhile isBlank := by
    rw [trimChars, ← List.reverse_suffix, List.reverse_reverse]
    exact List.dropWhile_suffix _
  obtain ⟨rest, hrest⟩ := within
  constructor
  · intro c hc
    apply head?_dropWhile_isBlank cs c
    rw [← hrest, List.head?_append, Option.mem_def.mp hc]
    rfl
  · rw [trimChars, List.getLast?_reverse]
    exact head?_dropWhile_isBlank _

/-- A text is trimmed to what is trimmed and stands among blanks in it. -/
theorem trimChars_eq_iff : trimChars cs = core ↔ Surrounds core cs ∧ IsTrimmed core := by
  constructor
  · rintro rfl
    exact ⟨surrounds_trimChars cs, isTrimmed_trimChars cs⟩
  · rintro ⟨⟨before, after, hb, ha, rfl⟩, start, last⟩
    have hafter : ∀ c ∈ after.reverse, isBlank c = true := fun c hc => ha c (List.mem_reverse.mp hc)
    -- with nothing left, the blanks before and after run into each other
    cases core with
    | nil =>
      have blank : ∀ c ∈ before ++ [] ++ after, isBlank c = true := by
        intro c hc
        rw [List.append_nil] at hc
        exact (List.mem_append.mp hc).elim (hb c) (ha c)
      rw [trimChars, List.dropWhile_eq_nil_iff.mpr blank]
      rfl
    | cons c core =>
      rw [trimChars, List.append_assoc, dropWhile_isBlank_append hb (by simpa using start),
        List.reverse_append, dropWhile_isBlank_append hafter (by rwa [List.head?_reverse]),
        List.reverse_reverse]

lemma IsTrimmed.trimChars_eq (h : IsTrimmed cs) : trimChars cs = cs :=
  trimChars_eq_iff.mpr ⟨⟨[], [], List.forall_mem_nil _, List.forall_mem_nil _, by simp⟩, h⟩

/-- There is nothing to trim where there are no blanks. -/
lemma trimChars_eq_self (h : ∀ c ∈ cs, isBlank c = false) : trimChars cs = cs := by
  apply IsTrimmed.trimChars_eq
  constructor
  · intro c hc
    exact h c (List.mem_of_head? hc)
  · intro c hc
    exact h c (List.mem_of_getLast? hc)

/-- Blanks that are put around a text are trimmed with those that it has. -/
lemma trimChars_of_blanks (hb : ∀ c ∈ before, isBlank c = true)
    (ha : ∀ c ∈ after, isBlank c = true) : trimChars (before ++ cs ++ after) = trimChars cs := by
  obtain ⟨b, a, blank, blank', hcs⟩ := surrounds_trimChars cs
  rw [trimChars_eq_iff]
  refine ⟨⟨before ++ b, a ++ after, ?_, ?_, ?_⟩, isTrimmed_trimChars cs⟩
  · intro c hc
    exact (List.mem_append.mp hc).elim (hb c) (blank c)
  · intro c hc
    exact (List.mem_append.mp hc).elim (blank' c) (ha c)
  · conv_lhs => rw [hcs]
    simp only [List.append_assoc]

end OnceProxy.Text
