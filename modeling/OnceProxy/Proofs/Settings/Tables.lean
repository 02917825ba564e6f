import Mathlib.Data.List.Forall2
import OnceProxy.Config
import OnceProxy.Proofs.Input
import OnceProxy.Proofs.Table

/-!
# Variables and their families

The start of its name tells what a variable is for. The tables of settings hold what was read from
the variables of each family, one entry for each of them, in the same order. None is left out: one
that cannot be read is a reason not to start.
-/

namespace OnceProxy.Config

open Http

/-! ### Families -/

lemma startsWith_iff {start s : String} :
    startsWith start s = true ↔ start.toList <+: s.toList :=
  List.isPrefixOf_iff_prefix

/-- No name starts like those of two families. -/
lemma Family.eq_of_startsWith {f g : Family} {name : String}
    (hf : startsWith f.start name = true) (hg : startsWith g.start name = true) : f = g := by
  have apart {f g : Family} (h : f.start.toList <+: g.start.toList) : f = g := by
    revert h
    cases f <;> cases g <;> decide
  rw [startsWith_iff] at hf hg
  rcases List.prefix_or_prefix_of_prefix hf hg with h | h
  · exact apart h
  · exact (apart h).symm

lemma family?_eq_some_iff {name : String} {f : Family} :
    family? name = some f ↔ startsWith f.start name = true := by
  have known {f : Family} (h : family? name = some f) : startsWith f.start name = true := by
    simpa using List.find?_some h
  constructor
  · exact known
  · intro h
    have listed : f ∈ [Family.ecdsaKey, .ed25519Key, .url, .header] := by cases f <;> decide
    obtain ⟨g, hg⟩ := Option.isSome_iff_exists.mp
      (List.find?_isSome (p := fun f => startsWith f.start name).mpr ⟨f, listed, h⟩)
    have hg : family? name = some g := hg
    -- no name starts as two families do, so the first found is the one
    rw [hg, Family.eq_of_startsWith (known hg) h]

/-- The variables of a family. -/
def ofFamily (f : Family) (vars : List (String × String)) : List (String × String) :=
  vars.filter fun e => family? e.1 = some f

lemma mem_ofFamily {f : Family} {vars : List (String × String)} {e : String × String} :
    e ∈ ofFamily f vars ↔ e ∈ vars ∧ startsWith f.start e.1 = true := by
  rw [ofFamily, List.mem_filter, decide_eq_true_iff, family?_eq_some_iff]

/-! ### Tables -/

/-- What tables hold that were made of variables. -/
structure Tables.Hold (vars : List (String × String)) (t : Tables) : Prop where
  ecdsa : List.Forall₂ (fun e key => parseEcdsaKey e.2 = .ok key) (ofFamily .ecdsaKey vars) t.ecdsa
  ed25519 : List.Forall₂ (fun e key => parseEd25519Key e.2 = .ok key) (ofFamily .ed25519Key vars)
    t.ed25519
  urls : t.urls = ofFamily .url vars
  headers : List.Forall₂ (fun e v => v.1 = e.1 ∧ HeaderValue.ofString? e.2 = some v.2)
    (ofFamily .header vars) t.headers

namespace Tables

variable {vars more : List (String × String)} {t t' : Tables} {e : String × String}

/-- A variable that is read gets to the end of the table of its family. -/
lemma Hold.add (h : t.Hold vars) (he : t.add e = .ok t') : t'.Hold (vars ++ [e]) := by
  obtain ⟨name, value⟩ := e
  -- a variable goes to the table of its family and to no other
  have grows (f : Family) : ofFamily f (vars ++ [(name, value)]) =
      ofFamily f vars ++ if family? name = some f then [(name, value)] else [] := by
    rw [ofFamily, List.filter_append]
    by_cases hf : family? name = some f <;> simp [ofFamily, hf]
  obtain ⟨ecdsa, ed25519, urls, headers⟩ := h
  simp only [Tables.add] at he
  cases hf : family? name with
  | none =>
    rw [hf] at he
    cases he
    constructor <;> simpa [grows, hf]
  | some f =>
    simp only [hf] at grows he
    cases f with
    | ecdsaKey =>
      dsimp only at he
      split at he
      · rename_i key hkey
        cases he
        refine ⟨?_, by simpa [grows], by simpa [grows], by simpa [grows]⟩
        rw [grows, if_pos rfl]
        exact List.rel_append ecdsa (.cons hkey .nil)
      · cases he
    | ed25519Key =>
      dsimp only at he
      split at he
      · rename_i key hkey
        cases he
        refine ⟨by simpa [grows], ?_, by simpa [grows], by simpa [grows]⟩
        rw [grows, if_pos rfl]
        exact List.rel_append ed25519 (.cons hkey .nil)
      · cases he
    | url =>
      cases he
      refine ⟨by simpa [grows], by simpa [grows], ?_, by simpa [grows]⟩
      rw [grows, if_pos rfl, urls]
    | header =>
      dsimp only at he
      split at he
      · rename_i v hv
        cases he
        refine ⟨by simpa [grows], by simpa [grows], by simpa [grows], ?_⟩
        rw [grows, if_pos rfl]
        exact List.rel_append headers (.cons ⟨rfl, hv⟩ .nil)
      · cases he

lemma Hold.foldlM (h : t.Hold vars) (run : more.foldlM Tables.add t = .ok t') :
    t'.Hold (vars ++ more) := by
  induction more generalizing vars t with
  | nil =>
    cases run
    rwa [List.append_nil]
  | cons e more ih =>
    rw [List.foldlM_cons] at run
    obtain ⟨u, hu, run⟩ := ok_of_bind run
    rw [List.append_cons]
    exact ih (h.add hu) run

end Tables

lemma hold_of_tables {vars : List (String × String)} {t : Tables} (h : tables vars = .ok t) :
    t.Hold vars := by
  have nothing : Tables.Hold [] ⟨[], [], [], []⟩ := ⟨.nil, .nil, rfl, .nil⟩
  exact nothing.foldlM h

/-! ### Settings -/

/-- What settings were read from. -/
structure MadeOf (vars : List (String × String)) (c : Config) : Prop where
  requestTimeout : ∃ n, number vars "REQUEST_TIMEOUT" wordLimit 10000 = .ok n ∧
    c.requestTimeout = max 1000 n
  pollInterval : ∃ n, number vars "POLL_INTERVAL" wordLimit 100 = .ok n ∧
    c.pollInterval = max 10 n
  tables : Tables.Hold vars
    ⟨c.trustedKeys.ecdsa, c.trustedKeys.ed25519, c.urlVars, c.headerVars⟩

lemma madeOf_of_ofVars {given : List (String × String)} {c : Config} (h : ofVars given = .ok c) :
    MadeOf (Table.ofList given) c := by
  obtain ⟨requestTimeout, hrequest, h⟩ := ok_of_bind h
  obtain ⟨pollInterval, hpoll, h⟩ := ok_of_bind h
  obtain ⟨_, -, h⟩ := ok_of_bind h
  obtain ⟨t, ht, h⟩ := ok_of_bind h
  obtain ⟨_, -, h⟩ := ok_of_bind h
  obtain ⟨_, -, h⟩ := ok_of_bind h
  cases h
  exact ⟨⟨requestTimeout, hrequest, rfl⟩, ⟨pollInterval, hpoll, rfl⟩, hold_of_tables ht⟩

end OnceProxy.Config
