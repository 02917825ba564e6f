import Mathlib.Algebra.Group.Nat.Defs
import Mathlib.Data.List.Nodup
import Mathlib.Data.List.Pairwise
import Mathlib.Data.Set.Function
import Mathlib.Order.Interval.Set.Defs
import OnceProxy.Proofs.Store.Traffic

/-!
# Mutual exclusion

However many clients use a store, and in whatever order their steps and those of the timers come, a
key has at most one lease at a time, nobody else gets the key meanwhile, and no lease is granted
twice.
-/

namespace OnceProxy

/-- The lease that a drawn number stands for. -/
def Lease.nth (d : Nat) : Lease := ⟨UInt64.ofNat (d + 1)⟩

lemma Lease.nth_inj {d e : Nat} (hd : d < 2 ^ 64) (he : e < 2 ^ 64) (h : nth d = nth e) :
    d = e := by
  have h : (UInt64.ofNat (d + 1)).toNat = (UInt64.ofNat (e + 1)).toNat := by
    rw [(Lease.mk.injEq _ _).mp h]
  simp only [UInt64.toNat_ofNat'] at h
  omega

lemma Lease.injOn_nth {n : Nat} (few : n ≤ 2 ^ 64) : Set.InjOn nth (Set.Iio n) := by
  intro d hd e he
  exact nth_inj (Nat.lt_of_lt_of_le hd few) (Nat.lt_of_lt_of_le he few)

/-- The lease that an action asks for. -/
def Action.wants? : Action → Option Lease
  | acquire lease => some lease
  | _ => none

namespace Client

/-- The lease that a client is asking for. -/
def wants? : Client → Option Lease
  | idle => none
  | asking _ action => action.wants?
  | holding _ action _ => action.wants?

@[simp] lemma wants?_idle : idle.wants? = none := rfl

@[simp] lemma wants?_asking (key : IdempotencyKey) (action : Action) :
    (asking key action).wants? = action.wants? := rfl

@[simp] lemma wants?_holding (key : IdempotencyKey) (action : Action) (slot : Nat) :
    (holding key action slot).wants? = action.wants? := rfl

end Client

/-- All leases that were granted. -/
def granted (log : List Event) : List Lease :=
  log.filterMap Event.granted?

lemma granted_append (a b : List Event) : granted (a ++ b) = granted a ++ granted b :=
  List.filterMap_append

lemma granted_eq_nil {log : List Event} (h : ∀ e ∈ log, e.granted? = none) : granted log = [] :=
  List.filterMap_eq_nil_iff.mpr h

/-- Where no image comes twice, only one member has a given image. -/
lemma eq_of_nodup_filterMap {α β : Type} {f : α → Option β} {l : List α}
    (h : (l.filterMap f).Nodup) {a b : α} (ha : a ∈ l) (hb : b ∈ l) {x : β} (hfa : f a = some x)
    (hfb : f b = some x) : a = b := by
  by_contra hne
  have symm : Std.Symm fun a b : α => ∀ x, f a = some x → ∀ y, f b = some y → x ≠ y :=
    ⟨fun _ _ hab x hx y hy => (hab y hy x hx).symm⟩
  exact (List.pairwise_filterMap.mp h).forall ha hb hne x hfa x hfb rfl

/-- If no lease is granted twice, only one event grants a lease. -/
lemma eq_of_granted {log : List Event} (h : (granted log).Nodup) {d e : Event} (hd : d ∈ log)
    (he : e ∈ log) {lease : Lease} (hgd : d.granted? = some lease) (hge : e.granted? = some lease) :
    d = e :=
  eq_of_nodup_filterMap h hd he hgd hge

/-- An answer grants no other lease than the one that was asked for. -/
lemma count_granted_answered (time client : Nat) (key : IdempotencyKey) (action : Action)
    (answer : Answer) (lease : Lease) :
    (granted [⟨time, key, .answered client action answer⟩]).count lease ≤
      if action.wants? = some lease then 1 else 0 := by
  generalize he : (⟨time, key, .answered client action answer⟩ : Event) = e
  cases hg : e.granted? with
  | none => simp [granted, hg]
  | some own =>
    -- what is granted is what was asked for
    have hw : action.wants? = some own := by
      rw [← he] at hg
      unfold Event.granted? at hg
      split at hg
      · rename_i hw
        cases hg
        cases hw
        rfl
      · cases hg
    simp only [granted, List.filterMap_cons, hg, List.filterMap_nil, hw, Option.some.injEq,
      List.count_singleton, beq_iff_eq]
    exact Nat.le_refl _

/-- Takes account of an event in a list of the leases of a key that were granted and not ended. -/
def Event.account (key : IdempotencyKey) (leases : List Lease) (e : Event) : List Lease :=
  if e.key = key then
    match e.granted?, e.ended? with
    | some lease, _ => lease :: leases
    | none, some lease => leases.erase lease
    | none, none => leases
  else leases

/-- The leases that were granted for a key and not ended so far. -/
def live (key : IdempotencyKey) (log : List Event) : List Lease :=
  log.foldl (Event.account key) []

/-! ### Live leases -/

/-- In a legal history a key has the lease of its cycle, and no other. -/
lemma Legal.live_eq {ttl : Nat} {key : IdempotencyKey} {log : List Event} (h : Legal ttl log) :
    live key log = (cycleOf ttl key log).lease?.toList := by
  induction log using List.reverseRecOn with
  | nil => rfl
  | append_singleton log e ih =>
    have hs : live key (log ++ [e]) = Event.account key (live key log) e := by simp [live]
    rw [hs, ih h.of_append, Event.account]
    by_cases hk : e.key = key
    · rw [if_pos hk]
      generalize hc : cycleOf ttl key (log ++ [e]) = c
      have hm := hc ▸ h.moves hk
      -- along the log: the account is opened and closed with the cycle
      cases hm with
      | granted lease was hg =>
        rw [was, hg]
        rfl
      | stored lease value due was hg he =>
        rw [was, hg, he]
        rfl
      | ended lease was hg he =>
        rw [was, hg, he]
        simp [Cycle.lease?]
      | same hg he => rw [hg, he]
    · rw [if_neg hk, cycleOf_snoc_of_ne hk]

/-- Whoever tries to acquire a key while it has a live lease gets nothing. -/
lemma Legal.refused {ttl : Nat} {a b : List Event} {time client : Nat} {key : IdempotencyKey}
    {lease : Lease} {answer : Answer}
    (h : Legal ttl (a ++ ⟨time, key, .answered client (.acquire lease) answer⟩ :: b))
    (hl : live key a ≠ []) : answer = .acquired false := by
  obtain ⟨ha, -, fits⟩ := h.split
  rw [ha.live_eq] at hl
  cases hc : cycleOf ttl key a with
  | free => simp [hc, Cycle.lease?] at hl
  | held => simpa [Event.Fits, hc, Cycle.answer] using fits
  | ready => simpa [Event.Fits, hc, Cycle.answer] using fits

/-! ### Leases are fresh -/

namespace StoreState

/-- How often a lease was granted or is being asked for. -/
def uses (s : StoreState) (lease : Lease) : Nat :=
  (granted s.log).count lease + s.clients.countP (·.wants? = some lease)

/-- Every lease in use was drawn, and is used once. -/
structure Fresh (s : StoreState) : Prop where
  next : (⟨s.store.nextLease⟩ : Lease) = .nth s.draws
  once : ∀ lease, s.uses lease ≤ 1
  drawn : ∀ lease, 0 < s.uses lease → ∃ d < s.draws, lease = .nth d

namespace Fresh

variable {s t : StoreState}

lemma start (ttl : Nat) : (start ttl).Fresh := by
  have hu (lease : Lease) : (StoreState.start ttl).uses lease = 0 := rfl
  refine ⟨rfl, ?_, ?_⟩
  · intro lease
    rw [hu lease]
    exact Nat.zero_le 1
  · intro lease hl
    rw [hu lease] at hl
    exact absurd hl (Nat.lt_irrefl 0)

/-- Where nothing is drawn, nothing can become less fresh. -/
lemma of_le (h : s.Fresh) (hn : t.store.nextLease = s.store.nextLease) (hd : t.draws = s.draws)
    (hu : ∀ lease, t.uses lease ≤ s.uses lease) : t.Fresh where
  next := by rw [hn, hd, h.next]
  once lease := Nat.le_trans (hu lease) (h.once lease)
  drawn lease hl := hd ▸ h.drawn lease (Nat.lt_of_lt_of_le hl (hu lease))

/-- A client that moves on, where no lease is drawn, and what happens at that time. -/
lemma uses_set {i : Nat} {c c' : Client} (hi : s.clients[i]? = some c)
    (hc : t.clients = s.clients.set i c') {events : List Event} (hl : t.log = s.log ++ events)
    (hu : ∀ lease, (granted events).count lease + (if c'.wants? = some lease then 1 else 0) ≤
      if c.wants? = some lease then 1 else 0) (lease : Lease) : t.uses lease ≤ s.uses lease := by
  have hs := Client.countP_set hi c' (·.wants? = some lease)
  have hle := hu lease
  simp only [decide_eq_true_eq] at hs
  rw [uses, uses, hc, hl, granted_append, List.count_append]
  omega

/-- A lease that is drawn has never been used. -/
lemma uses_nth (h : s.Fresh) (hd : s.draws < 2 ^ 64) : s.uses (.nth s.draws) = 0 := by
  by_contra hpos
  obtain ⟨d, hds, he⟩ := h.drawn _ (Nat.pos_of_ne_zero hpos)
  have := Lease.nth_inj hd (Nat.lt_trans hds hd) he
  omega

lemma draw_ask (h : s.Fresh) {i : Nat} (hi : s.clients[i]? = some .idle) (key : IdempotencyKey)
    (hd : s.draws < 2 ^ 64) : (s.draw.ask i key (.acquire s.store.draw.1)).Fresh := by
  have hl : s.store.draw.1 = .nth s.draws := h.next
  -- the client comes to use the lease that is drawn, and nothing else changes
  have hu (lease : Lease) : (s.draw.ask i key (.acquire s.store.draw.1)).uses lease =
      s.uses lease + if lease = .nth s.draws then 1 else 0 := by
    have hs := Client.countP_set hi (.asking key (.acquire s.store.draw.1))
      (·.wants? = some lease)
    rw [hl] at hs
    simp only [Client.wants?_asking, Client.wants?_idle, Action.wants?, Option.some.injEq,
      decide_eq_true_eq, reduceCtorEq, decide_false, Bool.false_eq_true, if_false, Nat.add_zero,
      eq_comm (b := lease)] at hs
    rw [uses, uses, Nat.add_assoc, ← hs, hl]
    rfl
  constructor
  · have hn : (⟨s.store.nextLease⟩ : Lease) = ⟨UInt64.ofNat (s.draws + 1)⟩ := h.next
    rw [Lease.mk.injEq] at hn
    rw [Lease.nth, Lease.mk.injEq]
    simp [ask, draw, MemoryStore.draw, hn, UInt64.ofNat_add]
  · intro lease
    rw [hu]
    split
    · rename_i he
      -- fewer than 2^64 have been drawn, so that this one was not used before
      exact Nat.le_of_eq (by rw [he, h.uses_nth hd])
    · exact h.once lease
  · intro lease hpos
    rw [hu] at hpos
    by_cases he : lease = .nth s.draws
    · exact ⟨s.draws, Nat.lt_succ_self _, he⟩
    · rw [if_neg he] at hpos
      obtain ⟨d, hds, he⟩ := h.drawn lease hpos
      exact ⟨d, Nat.lt_succ_of_lt hds, he⟩

lemma ask (h : s.Fresh) {i : Nat} (hi : s.clients[i]? = some .idle) (key : IdempotencyKey)
    {action : Action} (ha : (Client.asking key action).wants? = none) :
    (s.ask i key action).Fresh := by
  refine h.of_le rfl rfl (uses_set hi rfl (List.append_nil _).symm fun lease => ?_)
  rw [ha]
  simp [granted]

lemma call (h : s.Fresh) (i : Nat) (key : IdempotencyKey) (operation : Operation)
    (hd : (s.call i key operation).draws ≤ 2 ^ 64) : (s.call i key operation).Fresh := by
  revert hd
  unfold StoreState.call
  split
  · rename_i hi
    exact fun hd => h.draw_ask hi key hd
  · rename_i hi
    exact fun _ => h.ask hi key rfl
  · rename_i hi
    exact fun _ => h.ask hi key rfl
  · rename_i hi
    exact fun _ => h.ask hi key rfl
  · exact fun _ => h

lemma lookUp (h : s.Fresh) (i : Nat) : (s.lookUp i).Fresh := by
  unfold StoreState.lookUp
  split
  · rename_i key action hi
    split
    · rename_i slot m hl
      refine h.of_le (MemoryStore.nextLease_lookUp hl) rfl
        (uses_set hi rfl (List.append_nil _).symm fun lease => ?_)
      exact Nat.le_of_eq (Nat.zero_add _)
    · exact h.of_le rfl rfl
        (uses_set hi rfl rfl fun lease => count_granted_answered _ _ _ _ _ lease)
  · exact h

lemma act (h : s.Fresh) (i : Nat) : (s.act i).Fresh := by
  unfold StoreState.act
  split
  · rename_i key action slot hi
    exact h.of_le (MemoryStore.nextLease_act ..) rfl
      (uses_set hi rfl rfl fun lease => count_granted_answered _ _ _ _ _ lease)
  · exact h

lemma quit (h : s.Fresh) (i : Nat) : (s.quit i).Fresh := by
  unfold StoreState.quit
  split
  · rename_i hi
    refine h.of_le rfl rfl (uses_set hi rfl (List.append_nil _).symm fun lease => ?_)
    simp [granted]
  · rename_i hi
    refine h.of_le rfl rfl (uses_set hi rfl (List.append_nil _).symm fun lease => ?_)
    simp [granted]
  · exact h

lemma fire (h : s.Fresh) (t : SlotTimer) : (s.fire t).Fresh := by
  unfold StoreState.fire
  split
  · refine h.of_le (MemoryStore.nextLease_expire ..) rfl fun lease => Nat.le_of_eq ?_
    rw [uses, uses, granted_append, @granted_eq_nil (List.map _ _), List.append_nil]
    intro e he
    obtain ⟨_, -, rfl⟩ := List.mem_map.mp he
    rfl
  · exact h

/-- Every move keeps leases fresh, as long as their numbers last. -/
lemma step (h : s.Fresh) (move : StoreMove) (hd : (s.step move).draws ≤ 2 ^ 64) :
    (s.step move).Fresh := by
  cases move with
  | join =>
    refine h.of_le rfl rfl fun lease => Nat.le_of_eq ?_
    rw [uses, uses, StoreState.step, List.countP_append]
    rfl
  | call i key operation => exact h.call i key operation hd
  | lookUp i => exact h.lookUp i
  | act i => exact h.act i
  | quit i => exact h.quit i
  | fire t => exact h.fire t
  | sweep => exact h.of_le rfl rfl fun _ => Nat.le_refl _
  | wait ms => exact h.of_le rfl rfl fun _ => Nat.le_refl _

end Fresh

lemma draws_step (s : StoreState) (move : StoreMove) : s.draws ≤ (s.step move).draws := by
  cases move with
  | join => exact Nat.le_refl s.draws
  | call i key operation =>
    simp only [step, call]
    split
    · exact Nat.le_succ s.draws
    all_goals exact Nat.le_refl s.draws
  | lookUp i =>
    simp only [step, lookUp]
    split
    · split <;> exact Nat.le_refl s.draws
    · exact Nat.le_refl s.draws
  | act i => simp only [step, act]; split <;> exact Nat.le_refl s.draws
  | quit i => simp only [step, quit]; split <;> exact Nat.le_refl s.draws
  | fire t => simp only [step, fire]; split <;> exact Nat.le_refl s.draws
  | sweep => exact Nat.le_refl s.draws
  | wait ms => exact Nat.le_refl s.draws

lemma draws_run (s : StoreState) (moves : List StoreMove) : s.draws ≤ (s.run moves).draws := by
  induction moves generalizing s with
  | nil => exact Nat.le_refl s.draws
  | cons move moves ih => exact Nat.le_trans (s.draws_step move) (ih (s.step move))

/-- Every run keeps leases fresh, as long as their numbers last. -/
lemma Fresh.run {s : StoreState} (h : s.Fresh) (moves : List StoreMove)
    (hd : (s.run moves).draws ≤ 2 ^ 64) : (s.run moves).Fresh := by
  induction moves generalizing s with
  | nil => exact h
  | cons move moves ih =>
    exact ih (h.step move (Nat.le_trans ((s.step move).draws_run moves) hd)) hd

/-- No lease is granted twice. -/
lemma Fresh.nodup_granted {s : StoreState} (h : s.Fresh) : (granted s.log).Nodup :=
  List.nodup_iff_count_le_one.mpr fun lease =>
    Nat.le_trans (Nat.le_add_right _ _) (h.once lease)

end StoreState

/-- Mutual exclusion. Whatever clients and timers do, a key has at most one lease that was granted
and not ended, and this is the lease of its entry. While there is one, whoever tries to acquire the
key is refused. No lease is granted twice before the numbers of leases run out. -/
theorem run_exclusive (ttl : Nat) (moves : List StoreMove) :
    let s := (StoreState.start ttl).run moves
    (∀ key, (live key s.log).length ≤ 1 ∧ live key s.log = (s.store.cycle key).lease?.toList) ∧
    (∀ before after time key client lease answer,
      s.log = before ++ ⟨time, key, .answered client (.acquire lease) answer⟩ :: after →
      live key before ≠ [] → answer = .acquired false) ∧
    (s.draws < 2 ^ 64 → (granted s.log).Nodup) := by
  intro s
  have valid : s.Valid ttl := (StoreState.Valid.start ttl).run moves
  refine ⟨?_, ?_, ?_⟩
  · intro key
    have hl : live key s.log = _ := valid.legal.live_eq
    rw [← valid.cycles] at hl
    refine ⟨?_, hl⟩
    -- a cycle is held by one lease at most
    rw [hl]
    cases (s.store.cycle key).lease? with
    | none => exact Nat.zero_le 1
    | some lease => exact Nat.le_refl 1
  · intro before after time key client lease answer he hl
    exact (he ▸ valid.legal).refused hl
  · intro hd
    exact ((StoreState.Fresh.start ttl).run moves (Nat.le_of_lt hd)).nodup_granted

/-- Two clients that try to acquire one key at the same time. -/
def rivalry : List StoreMove :=
  let key : IdempotencyKey := ⟨"", "", ""⟩
  [.join, .join, .call 0 key .tryAcquire, .call 1 key .tryAcquire, .lookUp 0, .lookUp 1, .act 1,
    .act 0]

theorem run_exclusive_rivalry :
    let s := (StoreState.start 5).run rivalry
    s.log = [⟨0, ⟨"", "", ""⟩, .answered 1 (.acquire ⟨2⟩) (.acquired true)⟩] ++
      ⟨0, ⟨"", "", ""⟩, .answered 0 (.acquire ⟨1⟩) (.acquired false)⟩ :: [] ∧
    live ⟨"", "", ""⟩ s.log = [⟨2⟩] ∧ (live ⟨"", "", ""⟩ s.log).length ≤ 1 ∧
    Answer.acquired false = .acquired false ∧ s.draws < 2 ^ 64 ∧ (granted s.log).Nodup := by
  have h := run_exclusive 5 rivalry
  have hlog : ((StoreState.start 5).run rivalry).log =
      [⟨0, ⟨"", "", ""⟩, .answered 1 (.acquire ⟨2⟩) (.acquired true)⟩] ++
        ⟨0, ⟨"", "", ""⟩, .answered 0 (.acquire ⟨1⟩) (.acquired false)⟩ :: [] := by decide
  have hd : ((StoreState.start 5).run rivalry).draws < 2 ^ 64 := by decide
  exact ⟨hlog, by decide, (h.1 _).1, h.2.1 _ _ _ _ _ _ _ hlog (by decide), hd, h.2.2 hd⟩

end OnceProxy
