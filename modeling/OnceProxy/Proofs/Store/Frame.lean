import OnceProxy.Proofs.Store.Lifetime
import OnceProxy.Proofs.Store.Shared
import OnceProxy.Proofs.Store.Timers

/-!
# What changes nothing

Whatever fails, in memory or among shared records, leaves all entries as they are, with their ends.
A lease whose time is over is not that of any entry again, so that all that is done with it fails.
-/

namespace OnceProxy

/-! ### Entries in memory -/

namespace Event

/-- The lease with which somebody wanted to store or to release. -/
def uses? (e : Event) : Option Lease :=
  match e.what with
  | .answered _ (.store lease _) _ => some lease
  | .answered _ (.release lease) _ => some lease
  | _ => none

/-- Something was done without success. -/
def Fails (e : Event) : Prop :=
  ∃ client action answer, e.what = .answered client action answer ∧ answer.succeeds = false

variable {e : Event} {c : Cycle} {lease : Lease}

/-- What is done without success neither grants nor ends a lease, nor stores a value. -/
lemma Fails.quiet (h : e.Fails) (key : IdempotencyKey) : e.Quiet key := by
  obtain ⟨time, k, what⟩ := e
  obtain ⟨client, action, answer, rfl, fails⟩ := h
  intro _
  cases answer with
  | acquired won =>
    cases fails
    cases action <;> exact ⟨rfl, rfl, rfl⟩
  | found value => cases action <;> exact ⟨rfl, rfl, rfl⟩
  | stored result =>
    cases result with
    | error error => cases action <;> exact ⟨rfl, rfl, rfl⟩
    | ok => cases fails
  | released held =>
    cases fails
    cases action <;> exact ⟨rfl, rfl, rfl⟩

/-- Whoever uses another lease than that of the entry has no success. -/
lemma Fits.fails (fits : e.Fits c) (hu : e.uses? = some lease) (hl : c.lease? ≠ some lease) :
    e.Fails := by
  obtain ⟨time, key, what⟩ := e
  cases what with
  | expired => cases hu
  | answered client action answer =>
    refine ⟨client, action, answer, rfl, ?_⟩
    have hanswer : answer = c.answer action := fits
    rw [hanswer]
    cases action with
    | acquire | peek => cases hu
    | store own value =>
      cases hu
      rw [Cycle.answer_store_of_ne hl]
      rfl
    | release own =>
      cases hu
      simp [Cycle.answer_release, Answer.succeeds, hl]

end Event

namespace Legal

variable {ttl : Nat} {key : IdempotencyKey} {lease : Lease}

/-- A key has the lease that it had, or one that was granted since. -/
lemma lease?_origin {a b : List Event} (h : Legal ttl (a ++ b))
    (hl : (cycleOf ttl key (a ++ b)).lease? = some lease) :
    (cycleOf ttl key a).lease? = some lease ∨
      ∃ e ∈ b, e.key = key ∧ e.granted? = some lease := by
  induction b using List.reverseRecOn with
  | nil => exact .inl (by rwa [List.append_nil] at hl)
  | append_singleton b e ih =>
    rw [← List.append_assoc] at h hl
    -- the lease was held before this event, so the earlier ones tell where it comes from
    have older (hl : (cycleOf ttl key (a ++ b)).lease? = some lease) :
        (cycleOf ttl key a).lease? = some lease ∨
          ∃ d ∈ b ++ [e], d.key = key ∧ d.granted? = some lease := by
      rcases ih h.of_append hl with hl | ⟨d, hd, hg⟩
      · exact .inl hl
      · exact .inr ⟨d, List.mem_append_left _ hd, hg⟩
    by_cases hk : e.key = key
    · generalize hc : cycleOf ttl key (a ++ b ++ [e]) = c at hl
      have hm := hc ▸ h.moves hk
      cases hm with
      | granted own was hg =>
        cases hl
        exact .inr ⟨e, by simp, hk, hg⟩
      | stored own value due was =>
        cases hl
        exact older (by rw [was]; rfl)
      | ended => cases hl
      | same => exact older hl
    · rw [cycleOf_snoc_of_ne hk] at hl
      exact older hl

/-- A lease that is ended is that of its key. -/
lemma lease?_of_ended {log : List Event} {e : Event} (h : Legal ttl (log ++ [e]))
    (hx : e.ended? = some lease) : (cycleOf ttl e.key log).lease? = some lease := by
  generalize hc : cycleOf ttl e.key (log ++ [e]) = c
  have hm := hc ▸ h.moves rfl
  cases hm with
  | granted _ _ _ hn => rw [hx] at hn; cases hn
  | stored _ _ _ _ _ hn => rw [hx] at hn; cases hn
  | ended own was _ hn =>
    rw [hx] at hn
    cases hn
    exact was
  | same _ hn => rw [hx] at hn; cases hn

/-- If no lease is granted twice, a lease that was ended is not that of any key again. -/
lemma lease?_ne_of_ended {log : List Event} (h : Legal ttl log) (once : (granted log).Nodup)
    {e : Event} (he : e ∈ log) (hx : e.ended? = some lease) :
    (cycleOf ttl key log).lease? ≠ some lease := by
  intro hl
  obtain ⟨a, b, rfl⟩ := List.append_of_mem he
  have nobody (k : IdempotencyKey) : (cycleOf ttl k []).lease? ≠ some lease := nofun
  have hae : Legal ttl (a ++ [e]) := by
    rw [List.append_cons] at h
    exact h.of_append
  -- the lease was held when it was ended, so it was granted before
  obtain ⟨g, hg, hgk, hgl⟩ :=
    (lease?_origin (a := []) hae.of_append (hae.lease?_of_ended hx)).resolve_left (nobody _)
  by_cases hk : key = e.key
  · -- the lease would have been granted again since it was ended
    subst hk
    have free : cycleOf ttl e.key (a ++ [e]) = .free :=
      hae.free_of_ended rfl hx fun d hd => absurd hd List.not_mem_nil
    rw [List.append_cons] at h hl
    rcases h.lease?_origin hl with hl | ⟨g', hg', -, hgl'⟩
    · rw [free] at hl
      cases hl
    · rw [granted_append] at once
      apply List.disjoint_of_nodup_append once (a := lease)
      · exact List.mem_filterMap.mpr ⟨g, hg, hgl⟩
      · exact List.mem_filterMap.mpr ⟨g', List.mem_cons_of_mem e hg', hgl'⟩
  · -- it would have been granted for another key
    obtain ⟨g', hg', hgk', hgl'⟩ := (lease?_origin (a := []) h hl).resolve_left (nobody _)
    have same := eq_of_granted once (List.mem_append_left _ hg) hg' hgl hgl'
    rw [same, hgk'] at hgk
    exact hk hgk

end Legal

namespace StoreState

variable {ttl : Nat} {s : StoreState} {move : StoreMove}

/-- A move by which nobody gets anything but failures leaves all cycles as they are. -/
lemma Valid.cycle_step_of_fails (valid : s.Valid ttl)
    (fails : ∀ d ∈ (s.step move).log.drop s.log.length, d.Fails) (key : IdempotencyKey) :
    (s.step move).store.cycle key = s.store.cycle key :=
  valid.cycle_step_of_quiet fun d hd => (fails d hd).quiet key

/-- Whoever uses another lease than that of the entry fails. -/
lemma Valid.fails_of_uses (valid : s.Valid ttl) {e : Event} (hlog : (s.step move).log = s.log ++ [e])
    {lease : Lease} (hu : e.uses? = some lease) (hl : (s.store.cycle e.key).lease? ≠ some lease) :
    e.Fails := by
  have legal := (valid.step move).legal
  rw [hlog] at legal
  rw [valid.cycles] at hl
  exact (Legal.snoc_iff.mp legal).2.2.fails hu hl

end StoreState

/-! ### Shared records -/

/-- An answer to an operation that has changed nothing. -/
def Outcome.isIdle : Outcome → Bool
  | acquired lease => lease.isNone
  | found _ => true
  | stored result => !result.isOk
  | released => false

namespace RecordStore

variable {r r' : RecordStore} {now : Nat} {key : IdempotencyKey} {operation : Operation}
  {outcome : Outcome}

/-- An operation that fails leaves all records as they are, and so does one with a lease that does
not hold the key. -/
lemma Effect.records_eq (h : Effect r now key operation outcome r')
    (idle : outcome.isIdle ∨
      ∃ lease, operation.lease? = some lease ∧ ¬ r.Holds now key.recordKey lease) :
    r'.records = r.records := by
  cases h with
  | granted => simp [Outcome.isIdle, Operation.lease?] at idle
  | refused => rfl
  | found => rfl
  | stored lease e holds =>
    simp [Outcome.isIdle, Operation.lease?, Except.isOk, Except.toBool, holds] at idle
  | lost => rfl
  | released lease holds => simp [Outcome.isIdle, Operation.lease?, holds] at idle
  | kept => rfl

end RecordStore

/-- A lease that was granted holds nothing after the time when its record was to expire. -/
lemma RecordState.Told.not_holds_of_expired {s : RecordState} (h : s.Told)
    (once : s.granted.Nodup) {e : RecordEvent} (he : e ∈ s.log) {lease : Lease}
    (hg : e.granted? = some lease) (late : s.expires e ≤ s.now) (key : IdempotencyKey) :
    ¬ s.Holds key lease := by
  intro holds
  obtain ⟨d, hd, -, hgd, hlt⟩ := h.exists_grant holds
  rw [eq_of_nodup_filterMap once hd he hgd hg] at hlt
  exact Nat.not_lt_of_le late hlt

/-- What fails changes nothing, after any run of a store in memory and after any run of shared
records. A step by which nobody gets anything but failures leaves all cycles as they are, with their
ends; a failed acquisition, whatever is found, a failed store and a release by another lease than
that of the entry are such failures, and so is every use of another lease. A lease that was ended is
not that of any entry again, so that its user cannot change the cycles of others. The same holds of
shared records: these failures leave all of them as they are, and a lease holds nothing any more
after the time when its record was to expire. -/
theorem failures_change_nothing (ttl : Nat) (moves : List StoreMove) (ttls : Nat → Nat)
    (leases : Nat → Lease) (recordMoves : List RecordMove)
    (few : ((StoreState.start ttl).run moves).draws ≤ 2 ^ 64)
    (distinct : Set.InjOn leases
      (Set.Iio ((RecordState.start ttls leases).run recordMoves).store.drawn)) :
    let s := (StoreState.start ttl).run moves
    let r := (RecordState.start ttls leases).run recordMoves
    ((∀ move, (∀ d ∈ (s.step move).log.drop s.log.length, d.Fails) →
        ∀ key, (s.step move).store.cycle key = s.store.cycle key) ∧
      (∀ move e lease, (s.step move).log = s.log ++ [e] → e.uses? = some lease →
        (s.store.cycle e.key).lease? ≠ some lease →
        e.Fails ∧ ∀ key, (s.step move).store.cycle key = s.store.cycle key) ∧
      ∀ e ∈ s.log, ∀ lease, e.ended? = some lease →
        ∀ key, (s.store.cycle key).lease? ≠ some lease) ∧
    (∀ proxy key operation,
      let done := Backend.records.operate (r.usedBy proxy) r.now key operation
      (done.1.isIdle ∨ ∃ lease, operation.lease? = some lease ∧ ¬ r.Holds key lease) →
        done.2.records = r.store.records) ∧
    ∀ e ∈ r.log, ∀ lease, e.granted? = some lease → r.expires e ≤ r.now →
      ∀ key, ¬ r.Holds key lease := by
  intro s r
  have valid : s.Valid ttl := (StoreState.Valid.start ttl).run moves
  have fresh : s.Fresh := (StoreState.Fresh.start ttl).run moves few
  have told : r.Told := (RecordState.Told.start ttls leases).run recordMoves
  have once : r.granted.Nodup := by
    apply told.nodup_granted
    rw [RecordState.leases_run]
    exact distinct
  refine ⟨⟨?_, ?_, ?_⟩, ?_, ?_⟩
  · intro move fails
    exact valid.cycle_step_of_fails fails
  · intro move e lease hlog hu hl
    -- a lease that does not hold its key is refused
    have fails := valid.fails_of_uses hlog hu hl
    refine ⟨fails, ?_⟩
    apply valid.cycle_step_of_fails
    intro d hd
    rw [hlog, List.drop_left, List.mem_singleton] at hd
    exact hd ▸ fails
  · intro e he lease hx key
    rw [valid.cycles]
    exact valid.legal.lease?_ne_of_ended fresh.nodup_granted he hx
  · intro proxy key operation done idle
    exact ((r.usedBy proxy).effect r.now key operation).records_eq idle
  · intro e he lease hg late
    exact told.not_holds_of_expired once he hg late

/-- A client acquires a key and is late: another one has acquired the key by the time when it wants
to store. -/
def lateness : List StoreMove :=
  let key : IdempotencyKey := ⟨"", "", ""⟩
  [.join, .join, .call 0 key .tryAcquire, .lookUp 0, .act 0, .wait 5, .fire ⟨0, ⟨1, 5⟩⟩,
    .call 1 key .tryAcquire, .lookUp 1, .act 1,
    .call 0 key (.store ⟨1⟩ ⟨200, [], [], "text/plain"⟩), .lookUp 0]

/-- The same among proxies that share records. -/
def sharedLateness : List RecordMove :=
  let key : IdempotencyKey := ⟨"a", "GET", "k"⟩
  [.operate 0 key .tryAcquire, .wait 5, .operate 1 key .tryAcquire]

theorem failures_change_nothing_late :
    let s := (StoreState.start 5).run lateness
    let r := (RecordState.start (fun _ => 5) .nth).run sharedLateness
    let key : IdempotencyKey := ⟨"", "", ""⟩
    let key' : IdempotencyKey := ⟨"a", "GET", "k"⟩
    let e : Envelope := ⟨200, [], [], "text/plain"⟩
    s.draws ≤ 2 ^ 64 ∧ Set.InjOn Lease.nth (Set.Iio r.store.drawn) ∧
    s.store.cycle key = .held ⟨2⟩ 10 ∧ (s.step (.act 0)).store.cycle key = .held ⟨2⟩ 10 ∧
    r.Holds key' (.nth 1) ∧
    (Backend.records.operate (r.usedBy 0) r.now key' (.store (.nth 0) e)).2.records =
      r.store.records ∧
    (Backend.records.operate (r.usedBy 0) r.now key' (.release (.nth 0))).2.records =
      r.store.records := by
  intro s r key key' e
  have few : s.draws ≤ 2 ^ 64 := by decide +kernel
  have distinct : Set.InjOn Lease.nth (Set.Iio r.store.drawn) :=
    Lease.injOn_nth (by decide +kernel)
  obtain ⟨⟨-, stranger, ended⟩, same, expired⟩ :=
    failures_change_nothing 5 lateness _ _ sharedLateness few distinct
  have late : (s.store.cycle key).lease? ≠ some ⟨1⟩ :=
    ended ⟨5, key, .expired ⟨1⟩⟩ (by decide +kernel) ⟨1⟩ rfl key
  have lacks : ¬ r.Holds key' (.nth 0) :=
    expired ⟨0, 0, key', .tryAcquire, .acquired (some (.nth 0))⟩ (by decide +kernel) (.nth 0) rfl
      (by decide +kernel) key'
  have cycle : s.store.cycle key = .held ⟨2⟩ 10 := by decide +kernel
  have holds : r.Holds key' (.nth 1) := by
    unfold RecordState.Holds RecordStore.Holds
    decide +kernel
  refine ⟨few, distinct, cycle, ?_, holds, ?_, ?_⟩
  · rw [← cycle]
    exact (stranger (.act 0) ⟨5, key, .answered 0 (.store ⟨1⟩ e.encode) (.stored (.error .leaseLost))⟩
      ⟨1⟩ (by decide +kernel) rfl late).2 key
  · exact same 0 key' (.store (.nth 0) e) (.inr ⟨_, rfl, lacks⟩)
  · exact same 0 key' (.release (.nth 0)) (.inr ⟨_, rfl, lacks⟩)

end OnceProxy
