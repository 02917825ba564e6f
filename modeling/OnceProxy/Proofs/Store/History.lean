import Mathlib.Data.List.Induction
import OnceProxy.Proofs.Store.Cycle

/-!
# Histories of a store

A history lists in order what happened to the keys of a store: answers to actions, and cycles that
ended because their time was over. It is legal if every answer is the one that the cycle of its key
calls for. What a legal history says about one key does not depend on the other keys.
-/

namespace OnceProxy

/-- What happened to a key: a client had an answer to an action, or the time of a lease was over. -/
inductive Happened where
  | answered (client : Nat) (action : Action) (answer : Answer)
  | expired (lease : Lease)
  deriving DecidableEq, Repr

/-- Something that happened to a key at a time. -/
structure Event where
  time : Nat
  key : IdempotencyKey
  what : Happened
  deriving DecidableEq, Repr

namespace Event

/-- The lease that was granted. -/
def granted? (e : Event) : Option Lease :=
  match e.what with
  | .answered _ (.acquire lease) (.acquired true) => some lease
  | _ => none

/-- The lease that was released with effect. -/
def released? (e : Event) : Option Lease :=
  match e.what with
  | .answered _ (.release lease) (.released true) => some lease
  | _ => none

/-- The lease whose time was over. -/
def expired? (e : Event) : Option Lease :=
  match e.what with
  | .expired lease => some lease
  | _ => none

/-- The lease that was released or whose time was over. -/
def ended? (e : Event) : Option Lease :=
  e.released?.or e.expired?

/-- The value that was stored, with the lease that stored it. -/
def stored? (e : Event) : Option (Lease × List UInt8) :=
  match e.what with
  | .answered _ (.store lease value) (.stored (.ok ())) => some (lease, value)
  | _ => none

/-- The cycle of a key after an event, if cycles last for `ttl`. -/
def move (ttl : Nat) (key : IdempotencyKey) (c : Cycle) (e : Event) : Cycle :=
  if e.key = key then
    match e.what with
    | .answered _ action _ => c.after (e.time + ttl) action
    | .expired _ => .free
  else c

/-- What an event that fits a cycle is like: an answer is the one that the cycle calls for, and only
a lease whose time is over expires. -/
def Fits (c : Cycle) (e : Event) : Prop :=
  match e.what with
  | .answered _ action answer => answer = c.answer action
  | .expired lease => c.lease? = some lease ∧ ∃ due ≤ e.time, c.due? = some due

lemma ended?_eq_some {e : Event} {lease : Lease} :
    e.ended? = some lease ↔ e.released? = some lease ∨ e.expired? = some lease := by
  obtain ⟨time, key, what⟩ := e
  cases what with
  | expired => simp [ended?, released?, expired?]
  | answered => simp [ended?, expired?]

lemma eq_of_stored {e : Event} {lease : Lease} {value : List UInt8}
    (h : e.stored? = some (lease, value)) :
    ∃ i, e = ⟨e.time, e.key, .answered i (.store lease value) (.stored (.ok ()))⟩ := by
  obtain ⟨time, key, what⟩ := e
  unfold stored? at h
  split at h
  · rename_i i own held hw
    cases h
    simp only at hw
    subst hw
    exact ⟨i, rfl⟩
  · cases h

lemma eq_of_released {e : Event} {lease : Lease} (h : e.released? = some lease) :
    ∃ i, e = ⟨e.time, e.key, .answered i (.release lease) (.released true)⟩ := by
  obtain ⟨time, key, what⟩ := e
  unfold released? at h
  split at h
  · rename_i i own hw
    cases h
    simp only at hw
    subst hw
    exact ⟨i, rfl⟩
  · cases h

lemma released?_of_expired {e : Event} {lease : Lease} (h : e.expired? = some lease) :
    e.released? = none := by
  obtain ⟨time, key, what⟩ := e
  cases what with
  | expired => rfl
  | answered => cases h

end Event

/-- The cycle of a key at the end of a history. -/
def cycleOf (ttl : Nat) (key : IdempotencyKey) (log : List Event) : Cycle :=
  log.foldl (Event.move ttl key) .free

/-- Histories in which every event fits the cycle of its key and time does not go back. -/
inductive Legal (ttl : Nat) : List Event → Prop where
  | nil : Legal ttl []
  | snoc {log : List Event} {e : Event} (h : Legal ttl log) (past : ∀ d ∈ log, d.time ≤ e.time)
    (fits : e.Fits (cycleOf ttl e.key log)) : Legal ttl (log ++ [e])

variable {ttl : Nat} {key : IdempotencyKey}

lemma cycleOf_snoc (log : List Event) (e : Event) :
    cycleOf ttl key (log ++ [e]) = e.move ttl key (cycleOf ttl key log) := by
  simp [cycleOf]

lemma Event.move_of_ne {e : Event} (h : e.key ≠ key) (c : Cycle) : e.move ttl key c = c :=
  if_neg h

lemma Event.move_answered (time client : Nat) (k : IdempotencyKey) (action : Action)
    (answer : Answer) (c : Cycle) :
    Event.move ttl key c ⟨time, k, .answered client action answer⟩ =
      if k = key then c.after (time + ttl) action else c := rfl

namespace Legal

lemma of_append {a b : List Event} (h : Legal ttl (a ++ b)) : Legal ttl a := by
  induction b using List.reverseRecOn with
  | nil => simpa using h
  | append_singleton b e ih =>
    rw [← List.append_assoc] at h
    generalize hl : a ++ b ++ [e] = log at h
    cases h with
    | nil => simp at hl
    | snoc h =>
      obtain ⟨rfl, -⟩ := List.append_inj' hl rfl
      exact ih h

lemma snoc_iff {log : List Event} {e : Event} :
    Legal ttl (log ++ [e]) ↔
      Legal ttl log ∧ (∀ d ∈ log, d.time ≤ e.time) ∧ e.Fits (cycleOf ttl e.key log) := by
  constructor
  · intro h
    generalize hl : log ++ [e] = l at h
    cases h with
    | nil => simp at hl
    | snoc h past fits =>
      obtain ⟨rfl, he⟩ := List.append_inj' hl rfl
      cases he
      exact ⟨h, past, fits⟩
  · rintro ⟨h, past, fits⟩
    exact h.snoc past fits

/-- What a legal history says of one of its events. -/
lemma split {a b : List Event} {e : Event} (h : Legal ttl (a ++ e :: b)) :
    Legal ttl a ∧ (∀ d ∈ a, d.time ≤ e.time) ∧ e.Fits (cycleOf ttl e.key a) := by
  rw [List.append_cons] at h
  exact snoc_iff.mp h.of_append

end Legal

/-! ### When cycles are due -/

/-- An event gives a cycle an end that is `ttl` later, or leaves its end alone. -/
lemma Event.due?_move {c : Cycle} {e : Event} {due : Nat}
    (h : (e.move ttl key c).due? = some due) : due = e.time + ttl ∨ c.due? = some due := by
  by_cases hk : e.key = key
  · cases hw : e.what with
    | expired lease =>
      simp only [Event.move, if_pos hk, hw] at h
      cases h
    | answered client action answer =>
      simp only [Event.move, if_pos hk, hw] at h
      exact Cycle.due?_after h
  · rw [Event.move_of_ne hk] at h
    exact .inr h

/-- The end of a cycle was set by one of the last events, or is that of before. -/
lemma due?_cycleOf_append {log events : List Event} {due : Nat}
    (h : (cycleOf ttl key (log ++ events)).due? = some due) :
    (∃ e ∈ events, due = e.time + ttl) ∨ (cycleOf ttl key log).due? = some due := by
  induction events using List.reverseRecOn with
  | nil => exact .inr (by rwa [List.append_nil] at h)
  | append_singleton events e ih =>
    rw [← List.append_assoc, cycleOf_snoc] at h
    rcases Event.due?_move h with rfl | h
    · exact .inl ⟨e, by simp, rfl⟩
    · rcases ih h with ⟨d, hd, rfl⟩ | h
      · exact .inl ⟨d, List.mem_append_left _ hd, rfl⟩
      · exact .inr h

/-! ### What an event does to the cycle of its key -/

/-- The ways in which an event moves the cycle of its key. -/
inductive Event.Moves (ttl : Nat) (c : Cycle) (e : Event) : Cycle → Prop where
  | granted (lease : Lease) (was : c = .free) (hg : e.granted? = some lease)
    (he : e.ended? = none) (hs : e.stored? = none) : Moves ttl c e (.held lease (e.time + ttl))
  | stored (lease : Lease) (value : List UInt8) (due : Nat) (was : c = .held lease due)
    (hg : e.granted? = none) (he : e.ended? = none) (hs : e.stored? = some (lease, value)) :
    Moves ttl c e (.ready lease value (e.time + ttl))
  | ended (lease : Lease) (was : c.lease? = some lease) (hg : e.granted? = none)
    (he : e.ended? = some lease) (hs : e.stored? = none)
    (late : e.released? = none → ∃ due ≤ e.time, c.due? = some due) : Moves ttl c e .free
  | same (hg : e.granted? = none) (he : e.ended? = none) (hs : e.stored? = none) : Moves ttl c e c

/-- An event that fits the cycle of its key moves it in one of these ways. -/
lemma Event.Fits.moves {c : Cycle} {e : Event} (fits : e.Fits c) :
    e.Moves ttl c (e.move ttl e.key c) := by
  obtain ⟨time, k, what⟩ := e
  -- an event moves a cycle as its action does, which an answer of the cycle tells
  cases what with
  | expired lease =>
    simp only [Event.move, if_true]
    exact .ended lease fits.1 rfl rfl rfl fun _ => fits.2
  | answered client action answer =>
    simp only [Event.Fits] at fits
    subst fits
    simp only [Event.move, if_true]
    cases action with
    | acquire lease =>
      cases c with
      | free => exact .granted lease rfl rfl rfl rfl
      | held => exact .same rfl rfl rfl
      | ready => exact .same rfl rfl rfl
    | peek => cases c <;> exact .same rfl rfl rfl
    | store lease value =>
      cases c with
      | free => exact .same rfl rfl rfl
      | held holder due =>
        by_cases hl : holder = lease
        · subst hl
          simp only [Cycle.after, Cycle.answer, if_true]
          exact .stored holder value due rfl rfl rfl rfl
        · simp only [Cycle.after, Cycle.answer, if_neg hl]
          exact .same rfl rfl rfl
      | ready holder old due => exact .same rfl rfl rfl
    | release lease =>
      by_cases hl : c.lease? = some lease
      · rw [Cycle.after_release, Cycle.answer_release, if_pos hl, decide_eq_true hl]
        refine .ended lease hl rfl rfl rfl ?_
        intro h
        cases h
      · rw [Cycle.after_release, Cycle.answer_release, if_neg hl, decide_eq_false hl]
        exact .same rfl rfl rfl

/-- Nothing is granted, ended or stored for a key. -/
def Event.Quiet (key : IdempotencyKey) (e : Event) : Prop :=
  e.key = key → e.granted? = none ∧ e.ended? = none ∧ e.stored? = none

/-- The leases that were granted for a key. -/
def grants (key : IdempotencyKey) (log : List Event) : List Lease :=
  log.flatMap fun e => if e.key = key then e.granted?.toList else []

/-- The leases of a key that were ended. -/
def ends (key : IdempotencyKey) (log : List Event) : List Lease :=
  log.flatMap fun e => if e.key = key then e.ended?.toList else []

lemma grants_snoc (log : List Event) (e : Event) :
    grants key (log ++ [e]) = grants key log ++ if e.key = key then e.granted?.toList else [] := by
  simp [grants]

lemma ends_snoc (log : List Event) (e : Event) :
    ends key (log ++ [e]) = ends key log ++ if e.key = key then e.ended?.toList else [] := by
  simp [ends]

namespace Legal

lemma cycleOf_snoc_of_ne {e : Event} (hk : e.key ≠ key) (log : List Event) :
    cycleOf ttl key (log ++ [e]) = cycleOf ttl key log := by
  rw [cycleOf_snoc, Event.move_of_ne hk]

lemma moves {log : List Event} {e : Event} (h : Legal ttl (log ++ [e])) (hk : e.key = key) :
    e.Moves ttl (cycleOf ttl key log) (cycleOf ttl key (log ++ [e])) := by
  subst hk
  rw [cycleOf_snoc]
  exact (snoc_iff.mp h).2.2.moves

/-- The lease of a key stays until it is ended. -/
lemma lease?_append {a b : List Event} {lease : Lease} (h : Legal ttl (a ++ b))
    (hl : (cycleOf ttl key a).lease? = some lease) :
    (cycleOf ttl key (a ++ b)).lease? = some lease ∨
      ∃ e ∈ b, e.key = key ∧ e.ended? = some lease := by
  -- on the later events, the last one first: it either ends the lease or leaves it
  induction b using List.reverseRecOn with
  | nil => exact .inl (by rwa [List.append_nil])
  | append_singleton b e ih =>
    rw [← List.append_assoc] at h ⊢
    rcases ih h.of_append with ih | ⟨d, hd, ih⟩
    · by_cases hk : e.key = key
      · generalize hc : cycleOf ttl key (a ++ b ++ [e]) = c
        have hm := hc ▸ h.moves hk
        cases hm with
        -- nothing is granted while a lease is held
        | granted new was => simp [was, Cycle.lease?] at ih
        | stored new value due was => exact .inl (by simpa [was, Cycle.lease?] using ih)
        | ended old was _ he =>
          rw [ih] at was
          cases was
          exact .inr ⟨e, by simp, hk, he⟩
        | same => exact .inl ih
      · exact .inl (by rwa [cycleOf_snoc_of_ne hk])
    · exact .inr ⟨d, List.mem_append_left _ hd, ih⟩

lemma granted_eq {log : List Event} {e : Event} {lease : Lease} (h : Legal ttl (log ++ [e]))
    (hk : e.key = key) (hg : e.granted? = some lease) :
    cycleOf ttl key log = .free ∧ cycleOf ttl key (log ++ [e]) = .held lease (e.time + ttl) := by
  generalize hc : cycleOf ttl key (log ++ [e]) = c
  have hm := hc ▸ h.moves hk
  cases hm with
  | granted new was hn =>
    rw [hg] at hn
    cases hn
    exact ⟨was, rfl⟩
  | stored _ _ _ _ hn => rw [hg] at hn; cases hn
  | ended _ _ hn => rw [hg] at hn; cases hn
  | same hn => rw [hg] at hn; cases hn

/-- Before a key is granted again its lease is ended. -/
lemma ended_between {a b c : List Event} {g g' : Event} {lease lease' : Lease}
    (h : Legal ttl (a ++ g :: b ++ g' :: c)) (hk : g.key = key) (hk' : g'.key = key)
    (hg : g.granted? = some lease) (hg' : g'.granted? = some lease') :
    ∃ e ∈ b, e.key = key ∧ e.ended? = some lease := by
  rw [List.append_cons (a ++ g :: b)] at h
  have hlast := h.of_append
  have hfirst : Legal ttl (a ++ [g] ++ b) := by
    rw [← List.append_cons]
    exact hlast.of_append
  have hl : (cycleOf ttl key (a ++ [g])).lease? = some lease := by
    rw [(hfirst.of_append.granted_eq hk hg).2]
    rfl
  rcases hfirst.lease?_append hl with hl | he
  · rw [← List.append_cons, (hlast.granted_eq hk' hg').1] at hl
    cases hl
  · exact he

/-! ### Counting -/

/-- Every lease that was granted for a key was ended, but for the one that it has. -/
lemma length_grants {log : List Event} (h : Legal ttl log) :
    (grants key log).length =
      (ends key log).length + (cycleOf ttl key log).lease?.toList.length := by
  -- from the end: each grant is of a free cycle, and each end of one that is held
  induction log using List.reverseRecOn with
  | nil => rfl
  | append_singleton log e ih =>
    have ih := ih h.of_append
    rw [grants_snoc, ends_snoc, List.length_append, List.length_append]
    by_cases hk : e.key = key
    · rw [if_pos hk, if_pos hk]
      generalize hc : cycleOf ttl key (log ++ [e]) = c
      have hm := hc ▸ h.moves hk
      cases hm with
      | granted lease was hg he =>
        rw [was] at ih
        simpa [hg, he, Cycle.lease?] using ih
      | stored lease value due was hg he =>
        rw [was] at ih
        simpa [hg, he, Cycle.lease?] using ih
      | ended lease was hg he =>
        rw [was] at ih
        simpa [hg, he, Cycle.lease?] using ih
      | same hg he => simpa [hg, he] using ih
    · rw [if_neg hk, if_neg hk, cycleOf_snoc_of_ne hk]
      exact ih

/-! ### How a cycle came about -/

/-- Where nothing is granted, ended or stored, a cycle stays the same, and so does its end. -/
lemma quiet_append {a b : List Event} (h : Legal ttl (a ++ b)) (quiet : ∀ e ∈ b, e.Quiet key) :
    cycleOf ttl key (a ++ b) = cycleOf ttl key a := by
  induction b using List.reverseRecOn with
  | nil => rw [List.append_nil]
  | append_singleton b e ih =>
    rw [← List.append_assoc] at h ⊢
    have hsame := ih h.of_append fun d hd => quiet d (List.mem_append_left _ hd)
    by_cases hk : e.key = key
    · obtain ⟨hg, he, hs⟩ := quiet e (by simp) hk
      rw [← hsame]
      generalize hc : cycleOf ttl key (a ++ b ++ [e]) = c
      have hm := hc ▸ h.moves hk
      -- whatever moves a cycle would be no quiet event
      cases hm with
      | granted _ _ hn => rw [hg] at hn; cases hn
      | stored _ _ _ _ _ _ hn => rw [hs] at hn; cases hn
      | ended _ _ _ hn => rw [he] at hn; cases hn
      | same => rfl
    · rwa [cycleOf_snoc_of_ne hk]

/-- The cycle of a key began with an event, after which nothing was granted, ended or stored. -/
lemma exists_last {log : List Event} (h : Legal ttl log) (hc : cycleOf ttl key log ≠ .free) :
    ∃ a e b, log = a ++ e :: b ∧ e.key = key ∧ ¬ e.Quiet key ∧
      cycleOf ttl key (a ++ [e]) = cycleOf ttl key log ∧ ∀ d ∈ b, d.Quiet key := by
  induction log using List.reverseRecOn with
  | nil => exact absurd rfl hc
  | append_singleton log e ih =>
    by_cases hq : e.Quiet key
    · -- the cycle began before this event
      have hsame : cycleOf ttl key (log ++ [e]) = cycleOf ttl key log :=
        h.quiet_append fun d hd => by rwa [List.mem_singleton.mp hd]
      rw [hsame] at hc ⊢
      obtain ⟨a, d, b, rfl, hd, hnq, hcycle, hb⟩ := ih h.of_append hc
      refine ⟨a, d, b ++ [e], by simp, hd, hnq, hcycle, ?_⟩
      intro x hx
      rcases List.mem_append.mp hx with hx | hx
      · exact hb x hx
      · rwa [List.mem_singleton.mp hx]
    · -- an event of another key is quiet, so this one is of the key, and it is the last
      have hk : e.key = key := by
        by_contra hk
        exact hq fun h => absurd h hk
      exact ⟨log, e, [], rfl, hk, hq, rfl, fun d hd => absurd hd List.not_mem_nil⟩

/-- A key that is held was granted. -/
lemma held_origin {log : List Event} (h : Legal ttl log) {lease : Lease} {due : Nat}
    (hc : cycleOf ttl key log = .held lease due) :
    ∃ a e b, log = a ++ e :: b ∧ e.key = key ∧ e.granted? = some lease ∧ due = e.time + ttl ∧
      ∀ d ∈ b, d.Quiet key := by
  have hne : cycleOf ttl key log ≠ .free := by simp [hc]
  obtain ⟨a, e, b, rfl, hk, hnq, hcycle, hb⟩ := h.exists_last hne
  rw [List.append_cons] at h
  have hm := h.of_append.moves hk
  rw [hcycle, hc] at hm
  generalize hw : cycleOf ttl key a = was at hm
  cases hm with
  | granted _ _ hg => exact ⟨a, e, b, rfl, hk, hg, rfl, hb⟩
  | same hg he hs => exact absurd (fun _ => ⟨hg, he, hs⟩) hnq

/-- A key that is ready was held by its lease when the value was stored. -/
lemma ready_origin {log : List Event} (h : Legal ttl log) {lease : Lease} {value : List UInt8}
    {due : Nat} (hc : cycleOf ttl key log = .ready lease value due) :
    ∃ a e b old, log = a ++ e :: b ∧ e.key = key ∧ e.stored? = some (lease, value) ∧
      cycleOf ttl key a = .held lease old ∧ due = e.time + ttl ∧ ∀ d ∈ b, d.Quiet key := by
  have hne : cycleOf ttl key log ≠ .free := by simp [hc]
  obtain ⟨a, e, b, rfl, hk, hnq, hcycle, hb⟩ := h.exists_last hne
  rw [List.append_cons] at h
  have hm := h.of_append.moves hk
  rw [hcycle, hc] at hm
  generalize hw : cycleOf ttl key a = was at hm
  cases hm with
  | stored _ _ old hold _ _ hs => exact ⟨a, e, b, old, rfl, hk, hs, hw.trans hold, rfl, hb⟩
  | same hg he hs => exact absurd (fun _ => ⟨hg, he, hs⟩) hnq

/-- A key is ready with what was just stored. -/
lemma ready_of_stored {log : List Event} {e : Event} {lease : Lease} {value : List UInt8}
    (h : Legal ttl (log ++ [e])) (hk : e.key = key) (hs : e.stored? = some (lease, value)) :
    cycleOf ttl key (log ++ [e]) = .ready lease value (e.time + ttl) := by
  generalize hc : cycleOf ttl key (log ++ [e]) = c
  have hm := hc ▸ h.moves hk
  cases hm with
  | granted _ _ _ _ hn => rw [hs] at hn; cases hn
  | stored _ _ _ _ _ _ hn => rw [hs] at hn; cases hn; rfl
  | ended _ _ _ _ hn => rw [hs] at hn; cases hn
  | same _ _ hn => rw [hs] at hn; cases hn

/-- A key is ready with what was just found. -/
lemma ready_of_found {log : List Event} {time i : Nat} {value : List UInt8}
    (h : Legal ttl (log ++ [⟨time, key, .answered i .peek (.found (.ok (some value)))⟩])) :
    ∃ lease due, cycleOf ttl key
      (log ++ [⟨time, key, .answered i .peek (.found (.ok (some value)))⟩]) =
        .ready lease value due := by
  have fits : Answer.found (.ok (some value)) = (cycleOf ttl key log).answer .peek :=
    (snoc_iff.mp h).2.2
  rw [cycleOf_snoc, Event.move_answered, if_pos rfl]
  cases hc : cycleOf ttl key log with
  | free => rw [hc] at fits; cases fits
  | held lease due => rw [hc] at fits; cases fits
  | ready lease held due =>
    rw [hc] at fits
    cases fits
    exact ⟨lease, due, rfl⟩

/-- The cycle of a key stays the same until its lease is ended, by a release or when it is due, or
stores a value. -/
lemma stays {a b : List Event} (h : Legal ttl (a ++ b)) {c : Cycle} {lease : Lease}
    (hc : cycleOf ttl key a = c) (hl : c.lease? = some lease) :
    cycleOf ttl key (a ++ b) = c ∨ ∃ e ∈ b, e.key = key ∧
      (e.released? = some lease ∨
        (e.expired? = some lease ∧ ∃ due ≤ e.time, c.due? = some due) ∨
        ∃ value due, e.stored? = some (lease, value) ∧ c = .held lease due) := by
  induction b using List.reverseRecOn with
  | nil => exact .inl (by rwa [List.append_nil])
  | append_singleton b e ih =>
    rw [← List.append_assoc] at h ⊢
    rcases ih h.of_append with ih | ⟨d, hd, ih⟩
    · by_cases hk : e.key = key
      · generalize hc' : cycleOf ttl key (a ++ b ++ [e]) = c'
        have hm := hc' ▸ h.moves hk
        rw [ih] at hm
        cases hm with
        -- the cycle is held, so it is not granted
        | granted new was =>
          rw [was] at hl
          cases hl
        | stored own value due was _ _ hs =>
          rw [was] at hl
          cases hl
          exact .inr ⟨e, by simp, hk, .inr (.inr ⟨value, due, hs, was⟩)⟩
        | ended own was _ he _ late =>
          rw [hl] at was
          cases was
          refine .inr ⟨e, by simp, hk, ?_⟩
          -- an end is a release, or an expiry when the cycle was due
          rcases Event.ended?_eq_some.mp he with he | he
          · exact .inl he
          · exact .inr (.inl ⟨he, late (Event.released?_of_expired he)⟩)
        | same => exact .inl rfl
      · exact .inl (by rwa [cycleOf_snoc_of_ne hk])
    · exact .inr ⟨d, List.mem_append_left _ hd, ih⟩

/-- A key that is held stays so until its lease is ended, by a release or when it is due, or stores
a value. -/
lemma held_append {a b : List Event} (h : Legal ttl (a ++ b)) {lease : Lease} {due : Nat}
    (hc : cycleOf ttl key a = .held lease due) :
    cycleOf ttl key (a ++ b) = .held lease due ∨ ∃ e ∈ b, e.key = key ∧
      (e.released? = some lease ∨ e.expired? = some lease ∧ due ≤ e.time ∨
        ∃ value, e.stored? = some (lease, value)) := by
  rcases h.stays hc rfl with hs | ⟨e, he, hk, hr | ⟨hx, _, hle, hd⟩ | ⟨value, _, hs, -⟩⟩
  · exact .inl hs
  · exact .inr ⟨e, he, hk, .inl hr⟩
  · cases hd
    exact .inr ⟨e, he, hk, .inr (.inl ⟨hx, hle⟩)⟩
  · exact .inr ⟨e, he, hk, .inr (.inr ⟨value, hs⟩)⟩

/-- A key that is ready stays so until its lease is ended, by a release or when it is due. -/
lemma ready_append {a b : List Event} (h : Legal ttl (a ++ b)) {lease : Lease}
    {value : List UInt8} {due : Nat} (hc : cycleOf ttl key a = .ready lease value due) :
    cycleOf ttl key (a ++ b) = .ready lease value due ∨ ∃ e ∈ b, e.key = key ∧
      (e.released? = some lease ∨ e.expired? = some lease ∧ due ≤ e.time) := by
  rcases h.stays hc rfl with hs | ⟨e, he, hk, hr | ⟨hx, _, hle, hd⟩ | ⟨_, _, _, hn⟩⟩
  · exact .inl hs
  · exact .inr ⟨e, he, hk, .inl hr⟩
  · cases hd
    exact .inr ⟨e, he, hk, .inr ⟨hx, hle⟩⟩
  · cases hn

/-- A key that is free stays so until it is granted. -/
lemma free_append {a b : List Event} (h : Legal ttl (a ++ b)) (hc : cycleOf ttl key a = .free)
    (unclaimed : ∀ e ∈ b, e.key = key → e.granted? = none) :
    cycleOf ttl key (a ++ b) = .free := by
  induction b using List.reverseRecOn with
  | nil => rwa [List.append_nil]
  | append_singleton b e ih =>
    rw [← List.append_assoc] at h ⊢
    have hfree := ih h.of_append fun d hd => unclaimed d (List.mem_append_left _ hd)
    by_cases hk : e.key = key
    · have hg := unclaimed e (by simp) hk
      generalize hc' : cycleOf ttl key (a ++ b ++ [e]) = c'
      have hm := hc' ▸ h.moves hk
      rw [hfree] at hm
      -- a free cycle can be granted only, and nothing is granted
      cases hm with
      | granted _ _ hn => rw [hg] at hn; cases hn
      | stored _ _ _ was => cases was
      | ended _ was => cases was
      | same => rfl
    · rwa [cycleOf_snoc_of_ne hk]

/-- A key whose lease was ended is free until it is granted anew. -/
lemma free_of_ended {a b : List Event} {e : Event} {lease : Lease} (h : Legal ttl (a ++ e :: b))
    (hk : e.key = key) (he : e.ended? = some lease)
    (unclaimed : ∀ d ∈ b, d.key = key → d.granted? = none) :
    cycleOf ttl key (a ++ e :: b) = .free := by
  rw [List.append_cons] at h ⊢
  apply h.free_append _ unclaimed
  generalize hc : cycleOf ttl key (a ++ [e]) = c
  have hm := hc ▸ h.of_append.moves hk
  cases hm with
  | granted _ _ _ hn => rw [he] at hn; cases hn
  | stored _ _ _ _ _ hn => rw [he] at hn; cases hn
  | ended => rfl
  | same _ hn => rw [he] at hn; cases hn

/-! ### Values that are kept -/

/-- A lease that holds a key stores its value there, unless it was ended or has stored before. -/
lemma store_answer {a b c : List Event} {time i due : Nat} {lease : Lease} {value : List UInt8}
    {answer : Answer}
    (h : Legal ttl (a ++ b ++ ⟨time, key, .answered i (.store lease value) answer⟩ :: c))
    (hc : cycleOf ttl key a = .held lease due)
    (unused : ∀ e ∈ b, e.released? ≠ some lease ∧ ∀ value, e.stored? ≠ some (lease, value)) :
    answer = .stored (.ok ()) ∨
      ∃ e ∈ b, e.key = key ∧ e.expired? = some lease ∧ due ≤ e.time := by
  obtain ⟨hab, -, fits⟩ := h.split
  rcases hab.held_append hc with hheld | ⟨e, he, hk, hr | hx | ⟨value, hs⟩⟩
  · left
    have fits : answer = (cycleOf ttl key (a ++ b)).answer (.store lease value) := fits
    rw [fits, hheld]
    simp [Cycle.answer]
  · exact absurd hr (unused e he).1
  · exact .inr ⟨e, he, hk, hx⟩
  · exact absurd hs ((unused e he).2 value)

/-- A value that was stored is kept until it is due, unless its lease is released. -/
lemma kept {a b : List Event} {e : Event} {lease : Lease} {value : List UInt8}
    (h : Legal ttl (a ++ e :: b)) (hk : e.key = key) (hs : e.stored? = some (lease, value))
    (unused : ∀ d ∈ b, d.released? ≠ some lease) :
    cycleOf ttl key (a ++ e :: b) = .ready lease value (e.time + ttl) ∨
      ∃ d ∈ b, d.key = key ∧ d.expired? = some lease ∧ e.time + ttl ≤ d.time := by
  rw [List.append_cons] at h ⊢
  rcases h.ready_append (h.of_append.ready_of_stored hk hs) with hready | ⟨d, hd, hkd, hr | hx⟩
  · exact .inl hready
  · exact absurd hr (unused d hd)
  · exact .inr ⟨d, hd, hkd, hx⟩

/-- While a value is kept its key is not granted. -/
lemma due_le_of_granted {a b c : List Event} {e g : Event} {lease lease' : Lease}
    {value : List UInt8} (h : Legal ttl (a ++ e :: b ++ g :: c)) (hk : e.key = key)
    (hs : e.stored? = some (lease, value)) (unused : ∀ d ∈ b, d.released? ≠ some lease)
    (hkg : g.key = key) (hg : g.granted? = some lease') : e.time + ttl ≤ g.time := by
  obtain ⟨hab, past, -⟩ := h.split
  rcases hab.kept hk hs unused with hready | ⟨d, hd, -, -, hle⟩
  · rw [List.append_cons (a ++ e :: b)] at h
    rw [(h.of_append.granted_eq hkg hg).1] at hready
    cases hready
  · exact Nat.le_trans hle (past d (List.mem_append_right _ (List.mem_cons_of_mem e hd)))

end Legal

end OnceProxy
