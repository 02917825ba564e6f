import Mathlib.Data.List.ReduceOption
import Mathlib.GroupTheory.GroupAction.MultipleTransitivity
import OnceProxy.Proofs.Store.Timed

/-!
# Keys that know nothing of each other

Whoever uses one key of a store cannot tell what is done to the other keys, nor when idle entries
are dropped. The answers are those of a store that nobody else uses, but for the numbers of the
leases, which bijections `ρ : Equiv.Perm Lease` rename.
-/

namespace OnceProxy

/-! ### Renaming of leases -/

/-- Renames the lease of an action. -/
def Action.rename (ρ : Equiv.Perm Lease) : Action → Action
  | acquire lease => acquire (ρ lease)
  | peek => peek
  | store lease value => store (ρ lease) value
  | release lease => release (ρ lease)

/-- Renames the lease with which an operation is called. -/
def Operation.rename (ρ : Equiv.Perm Lease) : Operation → Operation
  | tryAcquire => tryAcquire
  | peek => peek
  | store lease e => store (ρ lease) e
  | release lease => release (ρ lease)

/-- Renames the lease that was acquired. -/
def Outcome.rename (ρ : Equiv.Perm Lease) : Outcome → Outcome
  | acquired lease => acquired (lease.map ρ)
  | found result => found result
  | stored result => stored result
  | released => released

namespace Cycle

/-- Renames the lease of a cycle. -/
def rename (ρ : Equiv.Perm Lease) : Cycle → Cycle
  | free => free
  | held lease due => held (ρ lease) due
  | ready lease value due => ready (ρ lease) value due

variable (ρ : Equiv.Perm Lease) (c : Cycle)

@[simp] lemma rename_eq_free : c.rename ρ = free ↔ c = free := by
  cases c <;> simp [rename]

@[simp] lemma lease?_rename : (c.rename ρ).lease? = c.lease?.map ρ := by
  cases c <;> rfl

@[simp] lemma due?_rename : (c.rename ρ).due? = c.due? := by
  cases c <;> rfl

lemma rename_ring (late : Nat → Bool) : (c.rename ρ).ring late = (c.ring late).rename ρ := by
  simp only [ring, due?_rename]
  split <;> rfl

/-- Whoever acts with a lease that is renamed gets the same answer from a cycle that is renamed. -/
lemma answer_rename (a : Action) : (c.rename ρ).answer (a.rename ρ) = c.answer a := by
  cases a with
  | acquire lease => cases c <;> simp [Action.rename, answer]
  | peek => cases c <;> rfl
  | store lease value => cases c <;> simp [Action.rename, answer, rename]
  | release lease =>
    simp only [Action.rename, answer_release, lease?_rename]
    cases c.lease? <;> simp

lemma after_rename (due : Nat) (a : Action) :
    (c.rename ρ).after due (a.rename ρ) = (c.after due a).rename ρ := by
  cases a with
  | acquire lease => cases c <;> rfl
  | peek => cases c <;> rfl
  | store lease value =>
    cases c with
    | free => rfl
    | held holder old =>
      simp only [Action.rename, rename, after, EmbeddingLike.apply_eq_iff_eq]
      split <;> rfl
    | ready => rfl
  | release lease =>
    have hl : (c.rename ρ).lease? = some (ρ lease) ↔ c.lease? = some lease := by
      cases hc : c.lease? <;> simp [hc]
    simp only [Action.rename, after_release, hl]
    split <;> rfl

variable {ρ} {operation : Operation} {lease lease' : Lease}

/-- An operation moves a cycle that is renamed on to the same cycle renamed. What is drawn for it
matters only if the cycle is free. -/
lemma after_operation_rename (h : operation = .tryAcquire → c = free → lease' = ρ lease)
    (due : Nat) : (c.rename ρ).after due ((operation.rename ρ).action lease') =
      (c.after due (operation.action lease)).rename ρ := by
  cases operation with
  | tryAcquire =>
    cases c with
    | free =>
      rw [h rfl rfl]
      rfl
    | held => rfl
    | ready => rfl
  | peek => exact c.after_rename ρ due .peek
  | store lease e => exact c.after_rename ρ due (.store lease e.encode)
  | release lease => exact c.after_rename ρ due (.release lease)

/-- An operation has the same outcome on a cycle that is renamed. -/
lemma outcome_rename (h : operation = .tryAcquire → c = free → lease' = ρ lease) :
    ((c.rename ρ).answer ((operation.rename ρ).action lease')).outcome lease' =
      ((c.answer (operation.action lease)).outcome lease).rename ρ := by
  cases operation with
  | tryAcquire =>
    cases c with
    | free =>
      rw [h rfl rfl]
      rfl
    | held => rfl
    | ready => rfl
  | peek => cases c <;> rfl
  | store lease e =>
    have same := c.answer_rename ρ (.store lease e.encode)
    rw [Operation.action, ← same]
    cases c <;> rfl
  | release lease => rfl

end Cycle

/-! ### Moves that concern a key -/

namespace TimedMove

/-- What is left of a move for somebody who uses only one key, and other leases. -/
def alone (ρ : Equiv.Perm Lease) (key : IdempotencyKey) : TimedMove → Option TimedMove
  | operate k operation => if k = key then some (operate k (operation.rename ρ)) else none
  | fire k => if k = key then some (fire k) else none
  | sweep => none
  | wait ms => some (wait ms)

variable {ρ : Equiv.Perm Lease} {key : IdempotencyKey} {move : TimedMove}

/-- The moves that concern a key, each with what is left of it. -/
inductive Leaves (ρ : Equiv.Perm Lease) (key : IdempotencyKey) : TimedMove → TimedMove → Prop where
  | operate (operation : Operation) :
    Leaves ρ key (operate key operation) (operate key (operation.rename ρ))
  | fire : Leaves ρ key (fire key) (fire key)
  | wait (ms : Nat) : Leaves ρ key (wait ms) (wait ms)

/-- The moves that do not concern a key. -/
inductive Foreign (key : IdempotencyKey) : TimedMove → Prop where
  | operate (k : IdempotencyKey) (operation : Operation) (hk : k ≠ key) :
    Foreign key (operate k operation)
  | fire (k : IdempotencyKey) (hk : k ≠ key) : Foreign key (fire k)
  | sweep : Foreign key sweep

lemma leaves_of_alone {left : TimedMove} (h : move.alone ρ key = some left) :
    Leaves ρ key move left := by
  cases move with
  | operate k operation =>
    simp only [alone, Option.ite_none_right_eq_some, Option.some.injEq] at h
    obtain ⟨rfl, rfl⟩ := h
    exact .operate operation
  | fire k =>
    simp only [alone, Option.ite_none_right_eq_some, Option.some.injEq] at h
    obtain ⟨rfl, rfl⟩ := h
    exact .fire
  | sweep => cases h
  | wait ms =>
    cases h
    exact .wait ms

lemma foreign_of_alone (h : move.alone ρ key = none) : Foreign key move := by
  cases move with
  | operate k operation =>
    simp only [alone, ite_eq_right_iff, reduceCtorEq, imp_false] at h
    exact .operate k operation h
  | fire k =>
    simp only [alone, ite_eq_right_iff, reduceCtorEq, imp_false] at h
    exact .fire k h
  | sweep => exact .sweep
  | wait ms => cases h

lemma Leaves.draws?_eq {left : TimedMove} (h : Leaves ρ key move left) :
    left.draws? = if move.draws? = some key then some key else none := by
  cases h with
  | operate operation => cases operation <;> simp [draws?, Operation.rename]
  | fire => rfl
  | wait ms => rfl

lemma Foreign.draws?_ne (h : Foreign key move) : move.draws? ≠ some key := by
  cases h with
  | operate k operation hk => cases operation <;> simp [draws?, hk]
  | fire k => nofun
  | sweep => nofun

/-- What is left of moves for somebody who uses only one key, and other leases for each move. -/
def own (ρ : Nat → Equiv.Perm Lease) (key : IdempotencyKey) (moves : List TimedMove) :
    List TimedMove :=
  (moves.mapIdx fun n move => move.alone (ρ n) key).reduceOption

lemma own_cons (ρ : Nat → Equiv.Perm Lease) (key : IdempotencyKey) (move : TimedMove)
    (moves : List TimedMove) : own ρ key (move :: moves) =
      (move.alone (ρ 0) key).toList ++ own (fun n => ρ (n + 1)) key moves := by
  rw [own, List.mapIdx_cons]
  cases move.alone (ρ 0) key <;> rfl

lemma exists_leaves {ρ : Nat → Equiv.Perm Lease} {left : TimedMove} {moves : List TimedMove}
    (h : left ∈ own ρ key moves) : ∃ π move, Leaves π key move left := by
  rw [own, List.reduceOption_mem_iff, List.mem_mapIdx] at h
  obtain ⟨n, hn, ha⟩ := h
  exact ⟨ρ n, moves[n], leaves_of_alone ha⟩

end TimedMove

/-- Renames the leases in what is heard of each move. -/
def renamed (ρ : Nat → Equiv.Perm Lease) (answers : List (Option (Nat × Outcome))) :
    List (Option (Nat × Outcome)) :=
  answers.mapIdx fun n => Option.map (Prod.map id (Outcome.rename (ρ (n + 1))))

lemma renamed_cons (ρ : Nat → Equiv.Perm Lease) (answer : Option (Nat × Outcome))
    (answers : List (Option (Nat × Outcome))) : renamed ρ (answer :: answers) =
      answer.map (Prod.map id (Outcome.rename (ρ 1))) :: renamed (fun n => ρ (n + 1)) answers :=
  List.mapIdx_cons

/-! ### Names for the leases -/

namespace TimedStore

variable {ttl : Nat} {key : IdempotencyKey} {s : TimedStore} {d : Nat}

/-- The renamings before and after each of the moves fit what is granted: every lease that is
granted for a key becomes the one that is drawn next if nobody uses other keys, `d` being drawn
before. A renaming changes only when a lease is granted for the key. -/
def Names (key : IdempotencyKey) :
    TimedStore → Nat → (Nat → Equiv.Perm Lease) → List TimedMove → Prop
  | _, _, _, [] => True
  | s, d, ρ, move :: moves =>
    (s.granted? key move = none → ρ 1 = ρ 0) ∧
    (∀ lease, s.granted? key move = some lease → ρ 1 lease = .nth d) ∧
    Names key (s.step move) (d + if move.draws? = some key then 1 else 0) (fun n => ρ (n + 1)) moves

lemma Names.kept {ρ : Nat → Equiv.Perm Lease} {moves : List TimedMove} (h : Names key s d ρ moves)
    {n : Nat} {move : TimedMove} (hn : moves[n]? = some move)
    (hg : (s.run (moves.take n)).granted? key move = none) : ρ (n + 1) = ρ n := by
  induction moves generalizing s d ρ n with
  | nil => cases hn
  | cons first moves ih =>
    cases n with
    | zero =>
      cases hn
      exact h.1 hg
    | succ n => exact ih h.2.2 hn hg

/-- There are such renamings, whatever is granted. -/
lemma exists_names (key : IdempotencyKey) (s : TimedStore) (d : Nat) (ρ₀ : Equiv.Perm Lease)
    (moves : List TimedMove) : ∃ ρ, ρ 0 = ρ₀ ∧ Names key s d ρ moves := by
  induction moves generalizing s d ρ₀ with
  | nil => exact ⟨fun _ => ρ₀, rfl, trivial⟩
  | cons move moves ih =>
    obtain ⟨ρ₁, kept, named⟩ : ∃ ρ₁ : Equiv.Perm Lease, (s.granted? key move = none → ρ₁ = ρ₀) ∧
        ∀ lease, s.granted? key move = some lease → ρ₁ lease = .nth d := by
      cases s.granted? key move with
      | none => exact ⟨ρ₀, fun _ => rfl, nofun⟩
      | some lease =>
        refine ⟨Equiv.swap lease (.nth d), nofun, ?_⟩
        rintro _ ⟨⟩
        exact Equiv.swap_apply_left lease (.nth d)
    obtain ⟨ρ, rfl, names⟩ := ih (s.step move) (d + if move.draws? = some key then 1 else 0) ρ₁
    exact ⟨fun n => n.casesOn ρ₀ ρ, rfl, kept, named, names⟩

/-- The leases that are drawn for a key. -/
def drawn (key : IdempotencyKey) : TimedStore → List TimedMove → List Lease
  | _, [] => []
  | s, move :: moves =>
    (if move.draws? = some key then [s.store.draw.1] else []) ++ (s.step move).drawn key moves

lemma drawn_cons_of_eq {move : TimedMove} (hk : move.draws? = some key) (moves : List TimedMove) :
    s.drawn key (move :: moves) = s.store.draw.1 :: (s.step move).drawn key moves := by
  rw [drawn, if_pos hk]
  rfl

lemma drawn_cons_of_ne {move : TimedMove} (hk : move.draws? ≠ some key) (moves : List TimedMove) :
    s.drawn key (move :: moves) = (s.step move).drawn key moves := by
  rw [drawn, if_neg hk]
  rfl

/-- The leases for one key are some of those that are drawn. -/
lemma drawn_sublist (h : s.store.draw.1 = .nth d) (moves : List TimedMove) :
    (s.drawn key moves).Sublist
      ((List.range' d (moves.countP (·.draws?.isSome))).map Lease.nth) := by
  -- on the moves: each draw takes the next number, whichever key it is for
  induction moves generalizing s d with
  | nil => exact List.nil_sublist _
  | cons move moves ih =>
    have hs := ih (draw_step h move)
    by_cases hk : move.draws? = some key
    · have hd : move.draws?.isSome := by rw [hk, Option.isSome_some]
      rw [if_pos hd] at hs
      rw [drawn_cons_of_eq hk, List.countP_cons, if_pos hd, List.range'_succ, List.map_cons, h]
      exact hs.cons_cons _
    · rw [drawn_cons_of_ne hk, List.countP_cons]
      by_cases hd : move.draws?.isSome
      · rw [if_pos hd] at hs
        rw [if_pos hd, List.range'_succ, List.map_cons]
        exact hs.cons _
      · rw [if_neg hd] at hs
        rw [if_neg hd]
        exact hs

lemma nodup_nth {n k : Nat} (few : n + k ≤ 2 ^ 64) :
    ((List.range' n k).map Lease.nth).Nodup := by
  apply List.Nodup.map_on _ (List.nodup_range' _)
  intro d hd e he hde
  simp only [List.mem_range'_1] at hd he
  exact Lease.nth_inj (by omega) (by omega) hde

/-- If nothing is drawn twice, one renaming will do for all moves. -/
lemma names_of_map (steady : Steady ttl s.store [] []) {ρ : Equiv.Perm Lease}
    {moves : List TimedMove}
    (h : (s.drawn key moves).map ρ =
      (List.range' d (s.drawn key moves).length).map Lease.nth) :
    Names key s d (fun _ => ρ) moves := by
  induction moves generalizing s d with
  | nil => trivial
  | cons move moves ih =>
    have steady' := steady_step steady move
    by_cases hk : move.draws? = some key
    · rw [drawn_cons_of_eq hk, List.length_cons, List.range'_succ] at h
      -- the renaming gives the lease that is drawn the next number of the key
      obtain ⟨hfirst, hrest⟩ := List.cons.inj h
      refine ⟨fun _ => rfl, ?_, ?_⟩
      · intro lease hg
        obtain ⟨-, -, rfl⟩ := (granted?_eq_some steady).mp hg
        exact hfirst
      · rw [if_pos hk]
        exact ih steady' hrest
    · rw [drawn_cons_of_ne hk] at h
      refine ⟨fun _ => rfl, ?_, ?_⟩
      · intro lease hg
        obtain ⟨rfl, -, -⟩ := (granted?_eq_some steady).mp hg
        exact absurd rfl hk
      · rw [if_neg hk]
        exact ih steady' h

end TimedStore

/-- There is a bijection between any two lists of one length in which nothing comes twice. -/
lemma exists_perm_map {α : Type} [DecidableEq α] {l l' : List α} (h : l.Nodup) (h' : l'.Nodup)
    (hl : l.length = l'.length) : ∃ ρ : Equiv.Perm α, l' = l.map ρ := by
  let x : Fin l.length ↪ α := ⟨l.get, List.nodup_iff_injective_get.mp h⟩
  let y : Fin l.length ↪ α :=
    ⟨fun i => l'.get (i.cast hl), (List.nodup_iff_injective_get.mp h').comp (Fin.cast_injective hl)⟩
  have := Equiv.Perm.isMultiplyPretransitive α l.length
  obtain ⟨ρ, hρ⟩ := MulAction.exists_smul_eq (Equiv.Perm α) x y
  refine ⟨ρ, ?_⟩
  apply List.ext_get
  · simp [hl]
  · intro i hi hi'
    have := congrArg (fun z : Fin l.length ↪ α => z ⟨i, hl ▸ hi⟩) hρ
    simpa [x, y] using this.symm

/-- If the numbers of leases do not run out, one renaming will do for all moves. -/
lemma TimedStore.exists_names_of_few (ttl : Nat) (key : IdempotencyKey) {moves : List TimedMove}
    (few : moves.countP (·.draws?.isSome) ≤ 2 ^ 64) :
    ∃ ρ : Equiv.Perm Lease, Names key (start ttl) 0 (fun _ => ρ) moves := by
  have sub : ((start ttl).drawn key moves).Sublist
      ((List.range' 0 (moves.countP (·.draws?.isSome))).map Lease.nth) := drawn_sublist rfl moves
  have hl : ((start ttl).drawn key moves).length ≤ 2 ^ 64 := by
    refine Nat.le_trans sub.length_le ?_
    simpa using few
  have shared := sub.nodup (nodup_nth (by rwa [Nat.zero_add]))
  have own : ((List.range' 0 ((start ttl).drawn key moves).length).map Lease.nth).Nodup :=
    nodup_nth (by rwa [Nat.zero_add])
  obtain ⟨ρ, hρ⟩ := exists_perm_map shared own (by simp)
  exact ⟨ρ, names_of_map (.start ttl) hρ.symm⟩

/-! ### A store of one's own -/

namespace TimedStore

variable {ttl : Nat} {ρ : Equiv.Perm Lease} {key : IdempotencyKey} {s t : TimedStore}
  {move left : TimedMove}

/-- One store shows of a key what another one shows, but for the names of leases. -/
structure Mirrors (ttl : Nat) (ρ : Equiv.Perm Lease) (key : IdempotencyKey) (s t : TimedStore) :
    Prop where
  now : t.now = s.now
  cycle : t.store.cycle key = (s.store.cycle key).rename ρ
  shared : Steady ttl s.store [] []
  own : Steady ttl t.store [] []

namespace Mirrors

lemma start (ttl : Nat) (ρ : Equiv.Perm Lease) (key : IdempotencyKey) :
    Mirrors ttl ρ key (start ttl) (start ttl) where
  now := rfl
  cycle := rfl
  shared := .start ttl
  own := .start ttl

/-- When a lease is granted, no other lease counts any more, so that all can get new names. -/
lemma change (h : Mirrors ttl ρ key s t) {ρ' : Equiv.Perm Lease}
    (kept : s.granted? key move = none → ρ' = ρ) :
    Mirrors ttl ρ' key s t ∧ move.alone ρ key = move.alone ρ' key := by
  cases hg : s.granted? key move with
  | none =>
    rw [kept hg]
    exact ⟨h, rfl⟩
  | some lease =>
    obtain ⟨rfl, hc, -⟩ := (granted?_eq_some h.shared).mp hg
    have free := h.cycle
    rw [hc] at free
    exact ⟨⟨h.now, by rw [free, hc]; rfl, h.shared, h.own⟩, rfl⟩

/-- What does not concern the key does not show. -/
lemma skip (h : Mirrors ttl ρ key s t) (foreign : move.Foreign key) :
    Mirrors ttl ρ key (s.step move) t ∧ s.hear? key move = none := by
  have quiet (hn : (s.step move).now = s.now)
      (hc : (s.step move).store.cycle key = s.store.cycle key) :
      Mirrors ttl ρ key (s.step move) t :=
    ⟨h.now.trans hn.symm, by rw [hc, h.cycle], steady_step h.shared move, h.own⟩
  cases foreign with
  | operate k operation hk =>
    obtain ⟨_, -, served⟩ := h.shared.operate s.now k operation
    refine ⟨quiet rfl ?_, if_neg hk⟩
    exact (served.cycle key).trans (if_neg hk)
  | fire k hk =>
    refine ⟨quiet rfl ?_, rfl⟩
    simp only [step]
    rw [MemoryStore.cycle_ring h.shared.ordered h.shared.sound]
    exact Cycle.ring_of_never (by simp [hk.symm]) _
  | sweep =>
    refine ⟨quiet rfl ?_, rfl⟩
    exact MemoryStore.cycle_evictIdle h.shared.ordered h.shared.sound key

/-- What concerns the key does the same to both stores, if it gets the same lease. -/
lemma follow (h : Mirrors ttl ρ key s t) (leaves : TimedMove.Leaves ρ key move left)
    (hd : ∀ lease, s.granted? key move = some lease → t.store.draw.1 = ρ lease) :
    Mirrors ttl ρ key (s.step move) (t.step left) ∧
      t.hear? key left = (s.hear? key move).map (Prod.map id (Outcome.rename ρ)) := by
  -- the two stores agree if they do on the time and on the cycle of the key
  have both (hn : (t.step left).now = (s.step move).now)
      (hc : (t.step left).store.cycle key = ((s.step move).store.cycle key).rename ρ) :
      Mirrors ttl ρ key (s.step move) (t.step left) :=
    ⟨hn, hc, steady_step h.shared move, steady_step h.own left⟩
  have ring (late : IdempotencyKey → Nat → Bool) :
      (t.store.ring late).cycle key = ((s.store.ring late).cycle key).rename ρ := by
    rw [MemoryStore.cycle_ring h.own.ordered h.own.sound, h.cycle, Cycle.rename_ring,
      MemoryStore.cycle_ring h.shared.ordered h.shared.sound]
  cases leaves with
  | operate operation =>
    -- a grant is what gives a lease, so the renaming has to fit then
    have hlease : operation = .tryAcquire → s.store.cycle key = .free →
        t.store.draw.1 = ρ s.store.draw.1 := by
      rintro rfl hc
      exact hd _ ((granted?_eq_some h.shared).mpr ⟨rfl, hc, rfl⟩)
    obtain ⟨answer, houtcome, served⟩ := h.shared.operate s.now key operation
    obtain ⟨answer', houtcome', served'⟩ := h.own.operate t.now key (operation.rename ρ)
    have hanswer : answer = (s.store.cycle key).answer (operation.action s.store.draw.1) :=
      served.answer
    have hanswer' : answer' =
        (t.store.cycle key).answer ((operation.rename ρ).action t.store.draw.1) := served'.answer
    constructor
    · apply both h.now
      have hcycle := served.cycle key
      have hcycle' := served'.cycle key
      rw [if_pos rfl] at hcycle hcycle'
      simp only [step]
      rw [hcycle', hcycle, h.cycle, h.now, Cycle.after_operation_rename _ hlease]
    · simp only [hear?, if_true, Option.map_some, Prod.map_apply, id]
      rw [houtcome', houtcome, hanswer', hanswer, h.cycle, Cycle.outcome_rename _ hlease, h.now]
  | fire =>
    refine ⟨both h.now ?_, rfl⟩
    simp only [step, h.now]
    exact ring _
  | wait ms =>
    refine ⟨both ?_ ?_, rfl⟩
    · simp only [step, h.now]
    · simp only [step, h.now]
      exact ring _

/-- Those who use the key hear the same. -/
lemma answers {ρ : Nat → Equiv.Perm Lease} (h : Mirrors ttl (ρ 0) key s t) {d : Nat}
    (hd : t.store.draw.1 = .nth d) {moves : List TimedMove} (names : Names key s d ρ moves) :
    (t.answers key (TimedMove.own ρ key moves)).reduceOption =
      (renamed ρ (s.answers key moves)).reduceOption := by
  -- along the moves, those of other keys left out in the run on its own
  induction moves generalizing s t d ρ with
  | nil => rfl
  | cons move moves ih =>
    obtain ⟨kept, named, names⟩ := names
    obtain ⟨h, halone⟩ := h.change kept
    rw [TimedMove.own_cons, halone, TimedStore.answers, renamed_cons]
    cases ha : move.alone (ρ 1) key with
    | none =>
      have foreign := TimedMove.foreign_of_alone ha
      obtain ⟨hs, hh⟩ := h.skip foreign
      rw [if_neg foreign.draws?_ne] at names
      rw [hh]
      exact ih hs hd names
    | some left =>
      have leaves := TimedMove.leaves_of_alone ha
      have granted : ∀ lease, s.granted? key move = some lease → t.store.draw.1 = ρ 1 lease :=
        fun lease hg => hd.trans (named lease hg).symm
      obtain ⟨hs, hh⟩ := h.follow leaves granted
      have hd' := draw_step hd left
      have hn : (if left.draws?.isSome then 1 else 0) =
          if move.draws? = some key then 1 else 0 := by
        rw [leaves.draws?_eq]
        by_cases hk : move.draws? = some key <;> simp [hk]
      rw [hn] at hd'
      have hrest := ih hs hd' names
      rw [Option.toList_some, List.singleton_append, TimedStore.answers, hh]
      cases s.hear? key move with
      | none => exact hrest
      | some heard => exact congrArg (List.cons _) hrest

end Mirrors

/-! ### Nothing to drop -/

/-- The only entry is that of a key. -/
structure Own (ttl : Nat) (key : IdempotencyKey) (s : TimedStore) : Prop where
  steady : Steady ttl s.store [] []
  keys : s.store.keys ⊆ [key]

lemma Own.size_le_one (h : s.Own ttl key) : s.store.size ≤ 1 := by
  have hp : s.store.keys.Subperm [key] := List.subperm_of_subset h.steady.ordered.keys h.keys
  simpa [MemoryStore.keys, MemoryStore.size] using hp.length_le

lemma Own.step (h : s.Own ttl key) {move left : TimedMove}
    (leaves : TimedMove.Leaves ρ key move left) : (s.step left).Own ttl key := by
  refine ⟨steady_step h.steady left, ?_⟩
  cases leaves with
  | operate operation =>
    intro k hk
    rcases List.mem_cons.mp (s.store.keys_operate_subset s.now key _ hk) with rfl | hk
    · exact List.mem_cons_self
    · exact h.keys hk
  | fire =>
    simp only [TimedStore.step, MemoryStore.keys_ring]
    exact h.keys
  | wait ms =>
    simp only [TimedStore.step, MemoryStore.keys_ring]
    exact h.keys

lemma Own.run (h : s.Own ttl key) {lefts : List TimedMove}
    (leaves : ∀ left ∈ lefts, ∃ ρ move, TimedMove.Leaves ρ key move left) :
    (s.run lefts).Own ttl key := by
  induction lefts generalizing s with
  | nil => exact h
  | cons left lefts ih =>
    obtain ⟨ρ, move, hm⟩ := leaves left List.mem_cons_self
    exact ih (h.step hm) fun left hl => leaves left (List.mem_cons_of_mem _ hl)

end TimedStore

/-- Keys are isolated. Whatever is done to a store, whenever its idle entries are dropped, and
whatever time passes: those who use a key hear the same at the same times as if only what they do
were done, at the same times, to a new store, but for the names of leases. That store never has more
than the one entry, so that nothing is ever dropped. The leases get other names only when one is
granted for the key, and not even then unless the numbers of leases run out and begin anew. -/
theorem answers_isolated (ttl : Nat) (moves : List TimedMove) (key : IdempotencyKey) :
    ∃ ρ : Nat → Equiv.Perm Lease,
      ((TimedStore.start ttl).answers key (TimedMove.own ρ key moves)).reduceOption =
        (renamed ρ ((TimedStore.start ttl).answers key moves)).reduceOption ∧
      (∀ n, ((TimedStore.start ttl).run ((TimedMove.own ρ key moves).take n)).store.size ≤ 1) ∧
      (∀ n move, moves[n]? = some move →
        ((TimedStore.start ttl).run (moves.take n)).granted? key move = none → ρ (n + 1) = ρ n) ∧
      (moves.countP (·.draws?.isSome) ≤ 2 ^ 64 → ∀ n, ρ n = ρ 0) := by
  obtain ⟨ρ, names, constant⟩ : ∃ ρ, TimedStore.Names key (.start ttl) 0 ρ moves ∧
      (moves.countP (·.draws?.isSome) ≤ 2 ^ 64 → ∀ n, ρ n = ρ 0) := by
    -- with few draws no number comes back, so that one renaming does for the whole run
    by_cases few : moves.countP (·.draws?.isSome) ≤ 2 ^ 64
    · obtain ⟨ρ, names⟩ := TimedStore.exists_names_of_few ttl key few
      exact ⟨fun _ => ρ, names, fun _ _ => rfl⟩
    · obtain ⟨ρ, -, names⟩ := TimedStore.exists_names key (.start ttl) 0 1 moves
      exact ⟨ρ, names, fun h => absurd h few⟩
  refine ⟨ρ, ?_, ?_, ?_, constant⟩
  · exact (TimedStore.Mirrors.start ttl (ρ 0) key).answers rfl names
  · intro n
    have start : (TimedStore.start ttl).Own ttl key := ⟨.start ttl, List.nil_subset _⟩
    apply (start.run _).size_le_one
    intro left hl
    exact TimedMove.exists_leaves (List.mem_of_mem_take hl)
  · intro n move hn hg
    exact names.kept hn hg

/-- A key is used while another one is, and idle entries are dropped now and then. -/
example :
    let key : IdempotencyKey := ⟨"", "", "a"⟩
    let other : IdempotencyKey := ⟨"", "", "b"⟩
    let e : Envelope := ⟨200, [], [], "text/plain"⟩
    ((TimedStore.start 5).answers key
      [.operate other .tryAcquire, .operate key .tryAcquire, .wait 3, .sweep,
        .operate key (.store ⟨2⟩ e), .operate other (.release ⟨1⟩), .sweep, .operate key .peek,
        .wait 6, .operate key .peek, .sweep, .operate key .tryAcquire]).reduceOption =
      [(0, .acquired (some ⟨2⟩)), (3, .stored (.ok ())), (3, .found (.ok (some e))),
        (9, .found (.error .notObtained)), (9, .acquired (some ⟨3⟩))] := by
  decide +kernel

end OnceProxy
