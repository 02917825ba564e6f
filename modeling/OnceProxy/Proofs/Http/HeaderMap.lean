import Mathlib.Data.List.Basic
import Mathlib.Data.List.Perm.Subperm
import Mathlib.Data.List.Induction
import Mathlib.Tactic.Common
import OnceProxy.Http.Header

/-!
# Header maps as lists

Headers that are read off a map and added to an empty one again come in the same order, also if some
of them are left out on the way.
-/

namespace OnceProxy.Http

/-! ### Names and values -/

lemma toLower_of_isNameChar {c : Char} (h : isNameChar c = true) : c.toLower = c := by
  have upper : ∀ n < 91, 65 ≤ n → isNameChar (Char.ofNat n) = false := by decide
  unfold Char.toLower
  split
  · rename_i hc
    have hn := upper c.toNat (Nat.lt_succ_of_le hc.2) hc.1
    rw [Char.ofNat_toNat, h] at hn
    cases hn
  · rfl

/-- A name is read from a text just if the text is the name, in whatever case its letters are. -/
lemma HeaderName.ofString?_eq_some_iff {s : String} {name : HeaderName} :
    ofString? s = some name ↔ String.ofList (s.toList.map Char.toLower) = name.text := by
  simp only [ofString?]
  constructor
  · intro h
    split at h
    · cases h
      rfl
    · cases h
  · intro h
    simp only [h, name.legal, dite_true]

/-- A name is read back from its text. -/
lemma HeaderName.ofString?_text (n : HeaderName) : ofString? n.text = some n := by
  have legal := n.legal
  rw [isName, Bool.and_eq_true, List.all_eq_true] at legal
  have lower : n.text.toList.map Char.toLower = n.text.toList := by
    conv_rhs => rw [← List.map_id n.text.toList]
    exact List.map_congr_left fun c hc => toLower_of_isNameChar (legal.2 c hc)
  rw [ofString?_eq_some_iff, lower, String.ofList_toList]

lemma encodeChar_of_isTextByte {b : UInt8} (h : HeaderValue.isTextByte b = true) :
    Text.Utf8.encodeChar (Char.ofNat b.toNat) = [b] := by
  have bytes : ∀ n < 256, HeaderValue.isTextByte (UInt8.ofNat n) = true →
      Text.Utf8.encodeChar (Char.ofNat (UInt8.ofNat n).toNat) = [UInt8.ofNat n] := by decide +kernel
  have hb := bytes b.toNat b.toNat_lt
  rw [UInt8.ofNat_toNat] at hb
  exact hb h

/-- The text of a value has the bytes of the value. -/
lemma HeaderValue.bytes_of_toString? {v : HeaderValue} {s : String} (h : v.toString? = some s) :
    Text.Utf8.ofString s = v.bytes := by
  unfold toString? at h
  split at h
  · rename_i text
    cases h
    rw [List.all_eq_true] at text
    rw [Text.Utf8.ofString, String.toList_ofList, Text.Utf8.encode, List.flatMap_map]
    conv_rhs => rw [← List.flatMap_singleton' v.bytes]
    exact List.flatMap_congr fun b hb => encodeChar_of_isTextByte (text b hb)
  · cases h

/-- A value is read from a text just if it has the bytes of the text. -/
lemma HeaderValue.ofString?_eq_some_iff {s : String} {value : HeaderValue} :
    ofString? s = some value ↔ Text.Utf8.ofString s = value.bytes := by
  rw [ofString?, ofBytes?]
  constructor
  · intro h
    split at h
    · cases h
      rfl
    · cases h
  · intro h
    simp only [h, value.legal, dite_true]

/-- A value that is text is read back from its text. -/
lemma HeaderValue.ofString?_of_toString? {v : HeaderValue} {s : String}
    (h : v.toString? = some s) : ofString? s = some v :=
  ofString?_eq_some_iff.mpr (bytes_of_toString? h)

/-- No map is full that has fewer names than this. -/
def HeaderLimit.Admits (limit : HeaderLimit) (bound : Nat) : Prop :=
  ∀ m : HeaderMap, m.groups.length < bound → limit.isFull m = false

/-- Where the names fall evenly, a map is not full before it must be. -/
lemma HeaderLimit.admits_even : even.Admits 24576 :=
  fun _ h => decide_eq_false (Nat.not_le_of_lt h)

namespace HeaderMap

variable {m : HeaderMap} {name : HeaderName} {value : HeaderValue}

/-- The names of the headers, each of them once. -/
def names (m : HeaderMap) : List HeaderName := m.groups.map (·.name)

lemma mem_names_iff : name ∈ m.names ↔ ∃ value, (name, value) ∈ m.toList := by
  simp only [names, toList, List.mem_map, List.mem_flatMap, Prod.mk.injEq]
  constructor
  · rintro ⟨g, hg, rfl⟩
    exact ⟨g.first, g, hg, g.first, List.mem_cons_self, rfl, rfl⟩
  · rintro ⟨value, g, hg, -, -, hn, -⟩
    exact ⟨g, hg, hn⟩

lemma values_eq_find? (m : HeaderMap) (name : HeaderName) :
    m.values name = ((m.groups.find? (·.name = name)).map HeaderGroup.values).getD [] := by
  rw [values]
  cases m.groups.find? (·.name = name) <;> rfl

/-- The values of a name are those that stand with it among all headers. -/
lemma values_eq (m : HeaderMap) (name : HeaderName) :
    m.values name = (m.toList.filter (·.1 = name)).map (·.2) := by
  have groups (gs : List HeaderGroup) (distinct : (gs.map (·.name)).Nodup) :
      ((gs.find? (·.name = name)).map (·.values)).getD [] =
        ((gs.flatMap fun g => g.values.map (g.name, ·)).filter (·.1 = name)).map (·.2) := by
    induction gs with
    | nil => rfl
    | cons g gs ih =>
      rw [List.map_cons, List.nodup_cons] at distinct
      by_cases hg : g.name = name
      · -- the names of all other groups differ from this one
        have rest (g') (hg' : g' ∈ gs) : g'.name ≠ name := fun he =>
          distinct.1 (List.mem_map.mpr ⟨g', hg', he.trans hg.symm⟩)
        simpa [hg, List.filter_flatMap, List.filter_map, Function.comp_def]
          using fun g' hg' _ _ => rest g' hg'
      · simpa [hg, List.filter_map, Function.comp_def] using ih distinct.2
  rw [values_eq_find?, toList, ← groups m.groups m.distinct]

lemma mem_values_iff : value ∈ m.values name ↔ (name, value) ∈ m.toList := by
  simp [values_eq]

/-! ### Values that are added -/

@[simp] lemma values_empty (name : HeaderName) : empty.values name = [] := rfl

section

variable {change : HeaderGroup → HeaderGroup} {new : HeaderGroup}

lemma find?_alter (hc : ∀ g, (change g).name = g.name) (hn : new.name = name)
    (gs : List HeaderGroup) (other : HeaderName) :
    (alter name change new gs).find? (·.name = other) =
      if name = other then some (((gs.find? (·.name = name)).map change).getD new)
      else gs.find? (·.name = other) := by
  induction gs with
  | nil =>
    rw [alter, List.find?_singleton, hn]
    simp
  | cons g gs ih =>
    rw [alter]
    by_cases hg : g.name = name
    · by_cases ho : name = other <;> simp [hg, hc, ho]
    · rw [if_neg hg, List.find?_cons, List.find?_cons, List.find?_cons, ih]
      by_cases ho : g.name = other
      · have hne : ¬ name = other := fun he => hg (ho.trans he.symm)
        simp [ho, hne]
      · simp [hg, ho]

lemma values_of_groups {a : HeaderMap} (h : a.groups = alter name change new m.groups)
    (hc : ∀ g, (change g).name = g.name) (hn : new.name = name) (other : HeaderName) :
    a.values other =
      if name = other then (((m.groups.find? (·.name = name)).map change).getD new).values
      else m.values other := by
  rw [values_eq_find?, h, find?_alter hc hn]
  split
  · rfl
  · rw [values_eq_find?]

end

/-- A value that is added comes after those that its name has; other names keep theirs. -/
lemma values_append (m : HeaderMap) (name : HeaderName) (value : HeaderValue)
    (other : HeaderName) :
    (m.append name value).values other =
      m.values other ++ if name = other then [value] else [] := by
  rw [values_of_groups (a := m.append name value) (m := m) rfl (fun _ => rfl) rfl]
  split
  · rename_i h
    rw [← h, values_eq_find?]
    cases m.groups.find? (·.name = name) <;> rfl
  · rw [List.append_nil]

/-- A value that is inserted is the only one of its name; other names keep theirs. -/
lemma values_insert (m : HeaderMap) (name : HeaderName) (value : HeaderValue)
    (other : HeaderName) :
    (m.insert name value).values other = if name = other then [value] else m.values other := by
  rw [values_of_groups (a := m.insert name value) (m := m) rfl (fun _ => rfl) rfl]
  split
  · cases m.groups.find? (·.name = name) <;> rfl
  · rfl

/-- Whether a value is added or replaces others, its name is all that is new. -/
lemma mem_names_of_groups {change : HeaderGroup → HeaderGroup} {new : HeaderGroup} {a : HeaderMap}
    (h : a.groups = alter name change new m.groups) (hc : ∀ g, (change g).name = g.name)
    (hn : new.name = name) {other : HeaderName} :
    other ∈ a.names ↔ other ∈ m.names ∨ other = name := by
  rw [names, h, map_name_alter hc hn]
  split
  · rename_i known
    constructor
    · exact .inl
    · rintro (hm | rfl)
      · exact hm
      · exact known
  · rw [List.mem_append, List.mem_singleton]
    rfl

lemma mem_names_append {other : HeaderName} :
    other ∈ (m.append name value).names ↔ other ∈ m.names ∨ other = name :=
  mem_names_of_groups (a := m.append name value) (m := m) rfl (fun _ => rfl) rfl

lemma mem_names_insert {other : HeaderName} :
    other ∈ (m.insert name value).names ↔ other ∈ m.names ∨ other = name :=
  mem_names_of_groups (a := m.insert name value) (m := m) rfl (fun _ => rfl) rfl

/-! ### Room -/

section

variable {limit : HeaderLimit} {change : HeaderMap → HeaderMap} {a : HeaderMap}
  {names : List HeaderName} {bound : Nat}

/-- There is room in a map whose names are among a few. -/
lemma ifRoom_of_few (admits : limit.Admits bound) (few : names.length < bound)
    (among : m.names ⊆ names) : m.ifRoom limit change = some (change m) := by
  have le := (List.subperm_of_subset m.distinct among).length_le
  rw [List.length_map] at le
  rw [ifRoom, admits m (Nat.lt_of_le_of_lt le few), if_neg Bool.false_ne_true]

lemma eq_of_ifRoom (h : m.ifRoom limit change = some a) : a = change m := by
  rw [ifRoom] at h
  split at h
  · cases h
  · exact (Option.some.inj h).symm

/-- Of the names of a map that had room there are not too many. -/
lemma length_lt_of_ifRoom (h : m.ifRoom limit change = some a) (distinct : names.Nodup)
    (among : names ⊆ m.names) : names.length < 24576 := by
  by_contra many
  have le := (List.subperm_of_subset distinct among).length_le
  rw [HeaderMap.names, List.length_map] at le
  rw [ifRoom, limit.full m (Nat.le_trans (Nat.le_of_not_lt many) le), if_pos rfl] at h
  cases h

end

/-! ### New names -/

section

variable {change : HeaderGroup → HeaderGroup} {new : HeaderGroup} {gs : List HeaderGroup}

lemma alter_append (h : name ∉ gs.map (·.name)) (hs : List HeaderGroup) :
    alter name change new (gs ++ hs) = gs ++ alter name change new hs := by
  induction gs with
  | nil => rfl
  | cons g gs ih =>
    rw [List.map_cons, List.mem_cons, not_or] at h
    rw [List.cons_append, alter, if_neg (Ne.symm h.1), ih h.2, List.cons_append]

lemma alter_of_notMem (h : name ∉ gs.map (·.name)) :
    alter name change new gs = gs ++ [new] := by
  have ha : alter name change new (gs ++ []) = gs ++ alter name change new [] := alter_append h []
  rwa [List.append_nil] at ha

end

lemma toList_of_groups {a : HeaderMap} {g : HeaderGroup} (h : a.groups = m.groups ++ [g]) :
    a.toList = m.toList ++ g.values.map (g.name, ·) := by
  rw [toList, h, List.flatMap_append, List.flatMap_singleton, toList]

/-- A name that is new comes last. -/
lemma toList_insert_of_ne (h : ∀ p ∈ m.toList, p.1 ≠ name) :
    (m.insert name value).toList = m.toList ++ [(name, value)] := by
  apply toList_of_groups (g := ⟨name, value, []⟩)
  apply alter_of_notMem
  intro hm
  obtain ⟨v, hv⟩ := mem_names_iff.mp hm
  exact h _ hv rfl

/-- The values of a new name make one group. -/
lemma groups_foldl_append (h : name ∉ m.names) (value : HeaderValue) (more : List HeaderValue) :
    ((value :: more).foldl (fun m v => m.append name v) m).groups =
      m.groups ++ [⟨name, value, more⟩] := by
  induction more using List.reverseRecOn with
  | nil => exact alter_of_notMem h
  | append_singleton more v ih =>
    rw [← List.cons_append, List.foldl_append, List.foldl_cons, List.foldl_nil]
    show alter _ _ _ _ = _
    rw [ih, alter_append h, alter, if_pos rfl]

lemma toList_foldl_append (h : name ∉ m.names) (vs : List HeaderValue) :
    (vs.foldl (fun m v => m.append name v) m).toList = m.toList ++ vs.map (name, ·) := by
  cases vs with
  | nil => simp
  | cons v vs => exact toList_of_groups (groups_foldl_append h v vs)

/-! ### Lists that came from maps -/

/-- Headers that are read off a map, some of them left out, are added to an empty map in the same
order. -/
theorem toList_ofList_filter (m : HeaderMap) (p : HeaderName × HeaderValue → Bool) :
    (ofList (m.toList.filter p)).toList = m.toList.filter p := by
  -- along the groups: the names of those to come are not yet in the map
  have groups (gs : List HeaderGroup) (distinct : (gs.map (·.name)).Nodup) (a : HeaderMap)
      (apart : ∀ g ∈ gs, g.name ∉ a.names) :
      (((gs.flatMap fun g => g.values.map (g.name, ·)).filter p).foldl
        (fun m h => m.append h.1 h.2) a).toList =
      a.toList ++ (gs.flatMap fun g => g.values.map (g.name, ·)).filter p := by
    induction gs generalizing a with
    | nil => simp
    | cons g gs ih =>
      rw [List.map_cons, List.nodup_cons] at distinct
      have hg := apart g List.mem_cons_self
      have hlist := toList_foldl_append hg (g.values.filter fun v => p (g.name, v))
      rw [List.flatMap_cons, List.filter_append, List.foldl_append, List.filter_map,
        List.foldl_map, ih distinct.2, Function.comp_def, hlist, List.append_assoc]
      intro g' hg' hm
      obtain ⟨v, hv⟩ := mem_names_iff.mp hm
      rw [Function.comp_def, hlist, List.mem_append] at hv
      rcases hv with hv | hv
      · exact apart g' (List.mem_cons_of_mem g hg') (mem_names_iff.mpr ⟨v, hv⟩)
      · obtain ⟨w, -, he⟩ := List.mem_map.mp hv
        exact distinct.1 (List.mem_map.mpr ⟨g', hg', (congrArg Prod.fst he).symm⟩)
  exact (groups m.groups m.distinct empty fun _ _ => List.not_mem_nil).trans (List.nil_append _)

/-- The map with each value changed. -/
def mapValues (f : HeaderValue → HeaderValue) (m : HeaderMap) : HeaderMap where
  groups := m.groups.map fun g => ⟨g.name, f g.first, g.more.map f⟩
  distinct := by
    rw [List.map_map]
    exact m.distinct

lemma toList_mapValues (f : HeaderValue → HeaderValue) (m : HeaderMap) :
    (m.mapValues f).toList = m.toList.map fun h => (h.1, f h.2) := by
  simp [toList, mapValues, List.flatMap_map, List.map_flatMap, HeaderGroup.values,
    Function.comp_def]

/-- Headers that are read off a map, those of some names left out and each value changed, are added to an
empty map in the same order. -/
lemma toList_ofList_map (m : HeaderMap) (p : HeaderName → Bool) (f : HeaderValue → HeaderValue) :
    (ofList ((m.toList.filter fun h => p h.1).map fun h => (h.1, f h.2))).toList =
      (m.toList.filter fun h => p h.1).map fun h => (h.1, f h.2) := by
  have hl : (m.toList.filter fun h => p h.1).map (fun h => (h.1, f h.2)) =
      (m.mapValues f).toList.filter fun h => p h.1 := by
    rw [toList_mapValues, List.filter_map]
    rfl
  rw [hl, toList_ofList_filter]

end HeaderMap

end OnceProxy.Http
