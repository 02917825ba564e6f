import Mathlib.Data.String.Basic
import OnceProxy.Table

/-!
# Sorted tables

Tables whose names ascend, each of them once, are known from the entries that they hold. The table
of a list holds the last entry of each name, so it does not matter in which order these come.
-/

namespace OnceProxy.Table

variable {α β : Type} {es fs : List (String × α)}

/-- The names ascend. -/
def Sorted (es : List (String × α)) : Prop := es.Pairwise (·.1 < ·.1)

lemma mem_insert {name : String} {v : α} {e : String × α} (h : e ∈ insert name v es) :
    e = (name, v) ∨ e ∈ es := by
  induction es with
  | nil => exact .inl (List.mem_singleton.mp h)
  | cons f es ih =>
    unfold insert at h
    split at h
    · grind
    split at h
    · grind
    · grind

lemma Sorted.insert (h : Sorted es) (name : String) (v : α) : Sorted (insert name v es) := by
  induction es with
  | nil => exact List.pairwise_singleton ..
  | cons f es ih =>
    obtain ⟨hf, hes⟩ := List.pairwise_cons.mp h
    unfold Table.insert
    split
    · rename_i heq
      exact List.pairwise_cons.mpr ⟨fun e he => heq ▸ hf e he, hes⟩
    split
    · rename_i hlt
      refine List.pairwise_cons.mpr ⟨fun e he => ?_, h⟩
      rcases List.mem_cons.mp he with rfl | he
      · exact hlt
      · exact hlt.trans (hf e he)
    · rename_i hne hlt
      refine List.pairwise_cons.mpr ⟨fun e he => ?_, ih hes⟩
      rcases mem_insert he with rfl | he
      · exact (not_lt.mp hlt).lt_of_ne (Ne.symm hne)
      · exact hf e he

lemma Sorted.filter (h : Sorted es) (p : String × α → Bool) : Sorted (es.filter p) :=
  List.Pairwise.filter p h

lemma Sorted.nodup (h : Sorted es) : (es.map (·.1)).Nodup :=
  List.pairwise_map.mpr (h.imp fun hlt => hlt.ne)

lemma get?_eq_none_of_forall_ne {name : String} (h : ∀ e ∈ es, e.1 ≠ name) : get? name es = none := by
  induction es with
  | nil => rfl
  | cons e es ih =>
    rw [List.forall_mem_cons] at h
    rw [get?, if_neg h.1, ih h.2]

lemma get?_cons (name : String) (e : String × α) (es : List (String × α)) :
    get? name (e :: es) = if e.1 = name then some e.2 else get? name es :=
  rfl

lemma get?_eq_some_iff {name : String} {v : α} (h : (es.map (·.1)).Nodup) :
    get? name es = some v ↔ (name, v) ∈ es := by
  induction es with
  | nil => simp [get?]
  | cons e es ih =>
    rw [List.map_cons, List.nodup_cons] at h
    rw [get?_cons, List.mem_cons, Prod.ext_iff]
    split
    · rename_i hn
      subst hn
      have fresh : (e.1, v) ∉ es := fun hm => h.1 (List.mem_map.mpr ⟨_, hm, rfl⟩)
      simp [fresh, eq_comm]
    · rename_i hn
      rw [ih h.2]
      simp [Ne.symm hn]

lemma get?_append (name : String) (es fs : List (String × α)) :
    get? name (es ++ fs) = (get? name es).or (get? name fs) := by
  induction es with
  | nil => rfl
  | cons e es ih =>
    rw [List.cons_append, get?_cons, get?_cons, ih]
    split <;> rfl

lemma get?_filter (p : String → Bool) (name : String) (es : List (String × α)) :
    get? name (es.filter fun e => p e.1) = if p name then get? name es else none := by
  induction es with
  | nil => simp [get?]
  | cons e es ih =>
    rw [List.filter_cons]
    split
    · rw [get?_cons, get?_cons, ih]
      split
      · rename_i hp he
        rw [← he, if_pos hp]
      · rfl
    · rename_i hp
      rw [ih, get?_cons]
      split
      · rename_i hname
        rw [if_neg fun he => hp (by rw [he]; exact hname)]
      · rfl

lemma Sorted.get?_of_lt {name : String} (h : Sorted es) (hn : ∀ e ∈ es.head?, name < e.1) :
    get? name es = none := by
  apply get?_eq_none_of_forall_ne
  cases es with
  | nil => nofun
  | cons f es =>
    have hf := hn f rfl
    obtain ⟨hmin, -⟩ := List.pairwise_cons.mp h
    exact List.forall_mem_cons.mpr ⟨hf.ne', fun e he => (hf.trans (hmin e he)).ne'⟩

/-- A sorted table is known from what its names hold. -/
lemma Sorted.ext (h : Sorted es) (h' : Sorted fs) (he : ∀ name, get? name es = get? name fs) :
    es = fs := by
  -- a name below all of the other table is missing there
  have first {e : String × α} {es fs : List (String × α)} (h' : Sorted fs)
      (he : ∀ name, get? name (e :: es) = get? name fs) (hlt : ∀ f ∈ fs.head?, e.1 < f.1) :
      False := by
    have := he e.1
    rw [h'.get?_of_lt hlt, get?_cons, if_pos rfl] at this
    cases this
  induction es generalizing fs with
  | nil =>
    cases fs with
    | nil => rfl
    | cons f fs => exact (first h (fun name => (he name).symm) nofun).elim
  | cons e es ih =>
    obtain ⟨hmin, hes⟩ := List.pairwise_cons.mp h
    cases fs with
    | nil => exact (first h' he nofun).elim
    | cons f fs =>
      obtain ⟨hmin', hfs⟩ := List.pairwise_cons.mp h'
      have hname : e.1 = f.1 := by
        rcases lt_trichotomy e.1 f.1 with hlt | heq | hlt
        · exact (first h' he fun g hg => by cases hg; exact hlt).elim
        · exact heq
        · exact (first h (fun name => (he name).symm) fun g hg => by cases hg; exact hlt).elim
      have hvalue : e.2 = f.2 := by
        have := he e.1
        rw [get?_cons, get?_cons, if_pos rfl, if_pos hname.symm] at this
        exact Option.some.inj this
      -- both heads hold one name, so neither tail has it and the tails agree on all names
      have rest : es = fs := ih hes hfs fun name => by
        by_cases hn : e.1 = name
        · subst hn
          rw [get?_eq_none_of_forall_ne fun g hg => (hmin g hg).ne',
            get?_eq_none_of_forall_ne fun g hg => hname ▸ (hmin' g hg).ne']
        · have := he name
          rwa [get?_cons, get?_cons, if_neg hn, if_neg (hname ▸ hn)] at this
      rw [rest, Prod.ext hname hvalue]

lemma get?_foldl_insert (name : String) (l es : List (String × α)) :
    get? name (l.foldl (fun es e => Table.insert e.1 e.2 es) es) =
      (get? name l.reverse).or (get? name es) := by
  induction l generalizing es with
  | nil => rfl
  | cons e l ih =>
    rw [List.foldl_cons, ih, get?_insert, List.reverse_cons, get?_append, get?_cons]
    cases get? name l.reverse with
    | some v => rfl
    | none =>
      by_cases h : e.1 = name
      · simp [h]
      · simp [h, Ne.symm h, get?]

/-- The table of a list holds the last entry of each name. -/
lemma get?_ofList (name : String) (l : List (String × α)) :
    get? name (ofList l) = get? name l.reverse := by
  rw [ofList, get?_foldl_insert, get?, Option.or_none]

lemma sorted_ofList (l : List (String × α)) : Sorted (ofList l) := by
  have fold (es : List (String × α)) (h : Sorted es) :
      Sorted (l.foldl (fun es e => Table.insert e.1 e.2 es) es) := by
    induction l generalizing es with
    | nil => exact h
    | cons e l ih => exact ih _ (h.insert _ _)
  exact fold [] List.Pairwise.nil

/-- Where each name stands once, the last entry of a name is the first. -/
lemma Sorted.get?_reverse (h : Sorted es) (name : String) : get? name es.reverse = get? name es := by
  induction es with
  | nil => rfl
  | cons e es ih =>
    obtain ⟨hmin, hes⟩ := List.pairwise_cons.mp h
    rw [List.reverse_cons, get?_append, ih hes, get?_cons, get?_cons]
    by_cases hn : e.1 = name
    · subst hn
      rw [get?_eq_none_of_forall_ne fun g hg => (hmin g hg).ne', if_pos rfl, if_pos rfl]
      rfl
    · rw [if_neg hn, if_neg hn, get?, Option.or_none]

lemma Sorted.ofList_eq (h : Sorted es) : ofList es = es :=
  (sorted_ofList es).ext h fun name => by rw [get?_ofList, h.get?_reverse]

section

variable {l l' : List (String × α)} {name : String} {v : α}

/-! ### The last entries of a list -/

/-- The last entry of a name in a list. -/
def Last (l : List (String × α)) (name : String) (v : α) : Prop :=
  ∃ before after, l = before ++ (name, v) :: after ∧ ∀ e ∈ after, e.1 ≠ name

lemma get?_eq_some_split : get? name l = some v ↔
    ∃ before after, l = before ++ (name, v) :: after ∧ ∀ e ∈ before, e.1 ≠ name := by
  induction l with
  | nil => simp [get?]
  | cons e l ih =>
    rw [get?_cons]
    split
    · rename_i hn
      constructor
      · intro h
        exact ⟨[], l, by rw [← hn, ← Option.some.inj h]; rfl, List.forall_mem_nil _⟩
      · rintro ⟨before, after, hl, distinct⟩
        cases before with
        | nil =>
          cases hl
          rfl
        | cons f before =>
          cases hl
          exact absurd hn (distinct e List.mem_cons_self)
    · rename_i hn
      rw [ih]
      constructor
      · rintro ⟨before, after, rfl, distinct⟩
        exact ⟨e :: before, after, rfl, List.forall_mem_cons.mpr ⟨hn, distinct⟩⟩
      · rintro ⟨before, after, hl, distinct⟩
        cases before with
        | nil =>
          cases hl
          exact absurd rfl hn
        | cons f before =>
          cases hl
          exact ⟨before, after, rfl, (List.forall_mem_cons.mp distinct).2⟩

lemma last_iff : Last l name v ↔ get? name l.reverse = some v := by
  rw [get?_eq_some_split]
  constructor
  · rintro ⟨before, after, rfl, distinct⟩
    exact ⟨after.reverse, before.reverse, by simp, by simpa using distinct⟩
  · rintro ⟨before, after, hl, distinct⟩
    refine ⟨after.reverse, before.reverse, ?_, by simpa using distinct⟩
    rw [← List.reverse_reverse l, hl]
    simp

/-- The table of a list holds the last entries of the names. -/
lemma mem_ofList_iff : (name, v) ∈ ofList l ↔ Last l name v := by
  rw [← get?_eq_some_iff (sorted_ofList l).nodup, get?_ofList, last_iff]

lemma ofList_congr (h : ∀ name v, Last l name v ↔ Last l' name v) : ofList l = ofList l' := by
  apply (sorted_ofList l).ext (sorted_ofList l')
  intro name
  apply Option.ext
  intro v
  rw [get?_ofList, get?_ofList, ← last_iff, ← last_iff, h]

/-- Every name that stands in a list has a last entry there. -/
lemma exists_last (h : name ∈ l.map (·.1)) : ∃ v, Last l name v := by
  induction l with
  | nil => cases h
  | cons e l ih =>
    by_cases hl : name ∈ l.map (·.1)
    · obtain ⟨v, before, after, rfl, distinct⟩ := ih hl
      exact ⟨v, e :: before, after, rfl, distinct⟩
    · have he : name = e.1 := (List.mem_cons.mp h).resolve_right hl
      subst he
      exact ⟨e.2, [], l, rfl, fun f hf hn => hl (List.mem_map.mpr ⟨f, hf, hn⟩)⟩

lemma Last.mem (h : Last l name v) : (name, v) ∈ l := by
  obtain ⟨before, after, rfl, -⟩ := h
  exact List.mem_append_right _ List.mem_cons_self

lemma mem_of_mem_ofList {e : String × α} (h : e ∈ ofList l) : e ∈ l :=
  (mem_ofList_iff.mp h).mem

/-- Where no two entries have one name, every entry is the last of its name. -/
lemma last_iff_mem (distinct : (l.map (·.1)).Nodup) : Last l name v ↔ (name, v) ∈ l := by
  have distinct' : (l.reverse.map (·.1)).Nodup := by
    rw [List.map_reverse]
    exact List.pairwise_reverse.mpr (distinct.imp Ne.symm)
  rw [last_iff, get?_eq_some_iff distinct', List.mem_reverse]

/-- What is left of a list when every entry goes that another one of its name comes after. -/
def keepLast : List (String × α) → List (String × α)
  | [] => []
  | e :: l => if e.1 ∈ l.map (·.1) then keepLast l else e :: keepLast l

lemma last_keepLast : Last (keepLast l) name v ↔ Last l name v := by
  have same : get? name (keepLast l).reverse = get? name l.reverse := by
    induction l with
    | nil => rfl
    | cons e l ih =>
      rw [keepLast]
      split
      · rename_i later
        rw [ih, List.reverse_cons, get?_append, get?_cons]
        split
        · rename_i hn
          obtain ⟨w, hw⟩ := exists_last later
          rw [hn, last_iff] at hw
          rw [hw, Option.some_or]
        · rw [get?, Option.or_none]
      · rw [List.reverse_cons, List.reverse_cons, get?_append, get?_append, ih]
  rw [last_iff, last_iff, same]

/-- To sort the last entries by their names makes the table, in whatever order they come. -/
lemma mergeSort_eq_ofList (distinct : (l.map (·.1)).Nodup)
    (h : ∀ name v, (name, v) ∈ l ↔ Last l' name v) :
    l.mergeSort (fun a b => a.1 ≤ b.1) = ofList l' := by
  have perm := List.mergeSort_perm l fun a b => a.1 ≤ b.1
  have distinct' : ((l.mergeSort fun a b => a.1 ≤ b.1).map (·.1)).Nodup :=
    (perm.map (·.1)).nodup_iff.mpr distinct
  have sorted : Sorted (l.mergeSort fun a b => a.1 ≤ b.1) := by
    have weakly := @List.pairwise_mergeSort _ (fun a b : String × α => decide (a.1 ≤ b.1))
      (fun a b c hab hbc => by simpa using le_trans (by simpa using hab) (by simpa using hbc))
      (fun a b => by simpa using le_total a.1 b.1) l
    refine (weakly.and (List.pairwise_map.mp distinct')).imp ?_
    rintro a b ⟨hle, hne⟩
    exact (of_decide_eq_true hle).lt_of_ne hne
  apply sorted.ext (sorted_ofList l')
  intro name
  apply Option.ext
  intro v
  rw [get?_eq_some_iff distinct', perm.mem_iff, h, last_iff, get?_ofList]

end

end OnceProxy.Table
