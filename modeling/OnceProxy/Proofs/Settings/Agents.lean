import OnceProxy.Proofs.Settings.Tables
import OnceProxy.Proofs.Text.CommaList

/-!
# Agents in settings

The agents that are let in are the items of a comma list. This list is trimmed before it is read,
which makes no difference, and every agent counts once.
-/

namespace OnceProxy.Config

open Text

variable {items : List String} {agent : String}

lemma mem_agentSet : agent ∈ agentSet items ↔ agent ∈ items := by
  have names : (items.map (·, ())).map (·.1) = items := by
    rw [List.map_map]
    exact List.map_id items
  constructor
  · intro h
    obtain ⟨⟨name, v⟩, he, rfl⟩ := List.mem_map.mp h
    have := List.mem_map_of_mem (f := (·.1)) (Table.mem_of_mem_ofList he)
    rwa [names] at this
  · intro h
    rw [← names] at h
    obtain ⟨v, last⟩ := Table.exists_last h
    exact List.mem_map.mpr ⟨(agent, v), Table.mem_ofList_iff.mpr last, rfl⟩

lemma agentSet_ascending (items : List String) : (agentSet items).Pairwise (· < ·) :=
  List.pairwise_map.mpr (Table.sorted_ofList _)

/-- A list is read from the trimmed value of its variable as from the value itself. -/
lemma commaList_setting? (vars : List (String × String)) (name : String) :
    commaList ((setting? vars name).getD "") = commaList ((Table.get? name vars).getD "") := by
  cases hv : Table.get? name vars with
  | none => simp only [setting?, hv, Option.map_none, Option.filter_none]
  | some value =>
    rw [Option.getD_some, ← commaList_trim value, setting?, hv, Option.map_some, Option.filter_some]
    split
    · rw [Option.getD_some]
    · rename_i h
      have empty : trim value = "" := by simpa using h
      rw [empty, Option.getD_none]

lemma allowAgents_of_ofVars {given : List (String × String)} {c : Config}
    (h : ofVars given = .ok c) : c.allowAgents =
      agentSet (commaList ((setting? (Table.ofList given) "ALLOW_AGENTS").getD "")) := by
  obtain ⟨_, -, h⟩ := ok_of_bind h
  obtain ⟨_, -, h⟩ := ok_of_bind h
  obtain ⟨_, -, h⟩ := ok_of_bind h
  obtain ⟨_, -, h⟩ := ok_of_bind h
  obtain ⟨_, -, h⟩ := ok_of_bind h
  obtain ⟨_, -, h⟩ := ok_of_bind h
  cases h
  rfl

/-- Agents are let in if they are items of the last list that was given. -/
lemma mem_allowAgents_iff {given : List (String × String)} {c : Config}
    (h : ofVars given = .ok c) : agent ∈ c.allowAgents ↔
      ∃ value, Table.Last given "ALLOW_AGENTS" value ∧ agent ∈ commaList value := by
  rw [allowAgents_of_ofVars h, mem_agentSet, commaList_setting?, Table.get?_ofList]
  simp only [Table.last_iff]
  cases Table.get? "ALLOW_AGENTS" given.reverse with
  | none => simp [commaList, listItems, splitCommas]
  | some value => simp

/-- A comma list is read item by item: the items of two lists with a comma between them are those
of the first and then those of the second. Items are not empty, have no comma and no blanks at their
ends, and all such items are read back when they are written with commas between them, with whatever
blanks around the commas. The agents that are let in are the items of the last list that was given,
in order, each once. -/
theorem commaLists_read_alike :
    (∀ a b : String, commaList (a ++ "," ++ b) = commaList a ++ commaList b) ∧
    (∀ s, ∀ item ∈ commaList s, IsItem item.toList) ∧
    (∀ ls : List ListedItem, (∀ l ∈ ls, l.Proper) →
      commaList (",".intercalate (ls.map ListedItem.text)) = ls.map (·.item)) ∧
    ∀ given c, ofVars given = .ok c →
      c.allowAgents.Pairwise (· < ·) ∧ ∀ agent, agent ∈ c.allowAgents ↔
        ∃ value, Table.Last given "ALLOW_AGENTS" value ∧ agent ∈ commaList value := by
  refine ⟨commaList_append, fun s item => isItem_of_mem_commaList, fun ls => commaList_intercalate,
    ?_⟩
  intro given c accepted
  constructor
  · rw [allowAgents_of_ofVars accepted]
    exact agentSet_ascending _
  · intro agent
    exact mem_allowAgents_iff accepted

/-- Two lists of agents, of which the last one counts. -/
def guestLists : List (String × String) :=
  [("ALLOW_AGENTS", "carol"), ("PORT", "1"), ("ALLOW_AGENTS", "\u3000bob , alice,,bob\u0085")]

theorem commaLists_read_alike_guests :
    let listed : List ListedItem := [⟨"\u3000", "bob", " "⟩, ⟨" ", "al ice", "\t"⟩]
    (∀ l ∈ listed, l.Proper) ∧
    ",".intercalate (listed.map ListedItem.text) = "\u3000bob , al ice\t" ∧
    commaList "\u3000bob , al ice\t" = ["bob", "al ice"] ∧
    (∀ item ∈ commaList "\u3000bob , al ice\t", IsItem item.toList) ∧
    Table.Last guestLists "ALLOW_AGENTS" "\u3000bob , alice,,bob\u0085" ∧
    ∃ c, ofVars guestLists = .ok c ∧ c.allowAgents = ["alice", "bob"] ∧ "bob" ∈ c.allowAgents := by
  intro listed
  obtain ⟨-, items, joined, agents⟩ := commaLists_read_alike
  have bob : IsItem "bob".toList :=
    ⟨by decide, by decide, isTrimmed_trimChars "bob".toList⟩
  have alIce : IsItem "al ice".toList :=
    ⟨by decide, by decide, isTrimmed_trimChars "al ice".toList⟩
  have proper : ∀ l ∈ listed, l.Proper := by
    simp only [listed, List.forall_mem_cons]
    exact ⟨⟨by decide, bob, by decide⟩, ⟨by decide, alIce, by decide⟩, List.forall_mem_nil _⟩
  have text : ",".intercalate (listed.map ListedItem.text) = "\u3000bob , al ice\t" := by decide
  have read : (ofVars guestLists).map (·.allowAgents) = .ok ["alice", "bob"] := by decide +kernel
  have last : Table.Last guestLists "ALLOW_AGENTS" "\u3000bob , alice,,bob\u0085" :=
    ⟨guestLists.take 2, [], rfl, nofun⟩
  refine ⟨proper, text, text ▸ joined listed proper, items _, last, ?_⟩
  cases accepted : ofVars guestLists with
  | error e =>
    rw [accepted] at read
    cases read
  | ok c =>
    rw [accepted] at read
    refine ⟨c, rfl, Except.ok.inj read, ?_⟩
    exact ((agents guestLists c accepted).2 "bob").mpr ⟨_, last, by decide⟩

end OnceProxy.Config
