import OnceProxy.Proofs.Envelope.ReadBack
import OnceProxy.Proofs.Store.Exclusion
import OnceProxy.Proofs.Store.Records

/-!
# Records that several proxies share

Any number of proxies, each with a TTL of its own, use the same records. Every operation is one step,
and records expire in between. An address has one holder at most, only the holder can store, and what
was stored stays until it expires.
-/

namespace OnceProxy

/-- An operation that a proxy did on a key, and the answer that it got. -/
structure RecordEvent where
  time : Nat
  proxy : Nat
  key : IdempotencyKey
  operation : Operation
  outcome : Outcome
  deriving DecidableEq

namespace RecordEvent

/-- The lease that was granted. -/
def granted? (e : RecordEvent) : Option Lease :=
  match e.outcome with
  | .acquired lease => lease
  | _ => none

/-- The envelope that was stored, with the lease that stored it. -/
def stored? (e : RecordEvent) : Option (Lease × Envelope) :=
  match e.operation, e.outcome with
  | .store lease envelope, .stored (.ok ()) => some (lease, envelope)
  | _, _ => none

lemma eq_of_stored {e : RecordEvent} {lease : Lease} {envelope : Envelope}
    (h : e.stored? = some (lease, envelope)) : e.operation = .store lease envelope := by
  unfold stored? at h
  split at h
  · rename_i hop _
    cases h
    exact hop
  · cases h

end RecordEvent

/-- Records that proxies share, at the time `now`, with the TTL of each proxy and what has happened
so far. -/
structure RecordState where
  now : Nat
  ttls : Nat → Nat
  store : RecordStore
  log : List RecordEvent

/-- What can happen next: a proxy does an operation, or time passes. -/
inductive RecordMove where
  | operate (proxy : Nat) (key : IdempotencyKey) (operation : Operation)
  | wait (ms : Nat)

namespace RecordState

open RecordStore

/-- No records yet. Leases are drawn from a sequence by whichever proxy needs one. -/
def start (ttls : Nat → Nat) (leases : Nat → Lease) : RecordState :=
  ⟨0, ttls, ⟨0, leases, 0, []⟩, []⟩

/-- The records, as a proxy uses them. -/
def usedBy (s : RecordState) (proxy : Nat) : RecordStore :=
  { s.store with ttl := s.ttls proxy }

/-- Makes a move. -/
def step (s : RecordState) : RecordMove → RecordState
  | .operate proxy key operation =>
    let done := Backend.records.operate (s.usedBy proxy) s.now key operation
    { s with store := done.2, log := s.log ++ [⟨s.now, proxy, key, operation, done.1⟩] }
  | .wait ms => { s with now := s.now + ms }

/-- Makes moves one after the other. -/
def run (s : RecordState) (moves : List RecordMove) : RecordState :=
  moves.foldl step s

/-- The record at an address, if it has not expired. -/
def record? (s : RecordState) (address : String) : Option Record :=
  s.store.record? s.now address

/-- A lease holds a key if the record of the key names it. -/
def Holds (s : RecordState) (key : IdempotencyKey) (lease : Lease) : Prop :=
  s.store.Holds s.now key.recordKey lease

/-- What is found for a key. -/
def peek (s : RecordState) (key : IdempotencyKey) : Except ProxyError (Option Envelope) :=
  s.store.peek s.now key

/-- When the record expires that an event has put down. -/
def expires (s : RecordState) (e : RecordEvent) : Nat :=
  e.time + max 1 (s.ttls e.proxy)

/-- An envelope was stored for the address of a key, and its record has not expired. -/
def Keeps (s : RecordState) (key : IdempotencyKey) (envelope : Envelope) : Prop :=
  ∃ e ∈ s.log, ∃ lease, e.stored? = some (lease, envelope) ∧
    e.key.recordKey = key.recordKey ∧ s.now < s.expires e

/-- All leases that were granted. -/
def granted (s : RecordState) : List Lease :=
  s.log.filterMap RecordEvent.granted?

/-! ### What an event does to the records -/

/-- What an event leaves at the address of its key: the record of the lease that was granted, or that
of the envelope that was stored, or no record, or what was there. -/
inductive Leaves (s : RecordState) (e : RecordEvent) : Option Record → Prop where
  | granted (lease : Lease) (hg : e.granted? = some lease) (hs : e.stored? = none)
    (was : s.record? e.key.recordKey = none) :
    Leaves s e (some ⟨e.key.recordKey, pendingRecord lease, s.expires e⟩)
  | stored (lease : Lease) (envelope : Envelope) (hg : e.granted? = none)
    (hs : e.stored? = some (lease, envelope)) (hu : e.operation.lease? = some lease)
    (was : s.Holds e.key lease) :
    Leaves s e (some ⟨e.key.recordKey, envelope.encode, s.expires e⟩)
  | released (lease : Lease) (hg : e.granted? = none) (hs : e.stored? = none)
    (hu : e.operation.lease? = some lease) (was : s.Holds e.key lease) : Leaves s e none
  | same (hg : e.granted? = none) (hs : e.stored? = none) :
    Leaves s e (s.record? e.key.recordKey)

/-- What an operation does to the records is what its event leaves. -/
lemma leaves_of_effect {s : RecordState} {proxy : Nat} {key : IdempotencyKey}
    {operation : Operation} {outcome : Outcome} {r : RecordStore}
    (effect : Effect (s.usedBy proxy) s.now key operation outcome r) :
    s.Leaves ⟨s.now, proxy, key, operation, outcome⟩ (r.record? s.now key.recordKey) := by
  cases effect with
  | granted free =>
    rw [record?_write_self]
    exact .granted _ rfl rfl free
  | refused => exact .same rfl rfl
  | found => exact .same rfl rfl
  | stored lease envelope holds =>
    rw [record?_write_self]
    exact .stored lease envelope rfl rfl rfl holds
  | lost => exact .same rfl rfl
  | released lease holds =>
    rw [record?_remove_self]
    exact .released lease rfl rfl rfl holds
  | kept => exact .same rfl rfl

/-- What an operation that grants a lease has drawn. -/
lemma drawn_of_effect {r r' : RecordStore} {now : Nat} {key : IdempotencyKey}
    {operation : Operation} {outcome : Outcome} (effect : Effect r now key operation outcome r')
    (time proxy : Nat) :
    let e : RecordEvent := ⟨time, proxy, key, operation, outcome⟩
    r'.drawn = r.drawn ∧ e.granted? = none ∨
      r'.drawn = r.drawn + 1 ∧ ∀ lease ∈ e.granted?, lease = r.leases r.drawn := by
  cases effect with
  | granted => exact .inr ⟨rfl, fun lease h => (Option.some.inj h).symm⟩
  | refused => exact .inr ⟨rfl, nofun⟩
  | found | stored | lost | released | kept => exact .inl ⟨rfl, rfl⟩

/-- What becomes of the records when an event happens. -/
structure Did (s : RecordState) (e : RecordEvent) (t : RecordState) : Prop where
  now : t.now = s.now
  ttls : t.ttls = s.ttls
  log : t.log = s.log ++ [e]
  tidy : s.store.Tidy → t.store.Tidy
  leases : t.store.leases = s.store.leases
  drawn : t.store.drawn = s.store.drawn ∧ e.granted? = none ∨
    t.store.drawn = s.store.drawn + 1 ∧ ∀ lease ∈ e.granted?, lease = s.store.leases s.store.drawn
  here : s.Leaves e (t.record? e.key.recordKey)
  elsewhere : ∀ a, a ≠ e.key.recordKey → t.record? a = s.record? a

/-- A move is an event, or nothing but waiting. -/
lemma step_cases (s : RecordState) (move : RecordMove) :
    (∃ proxy key operation outcome, move = .operate proxy key operation ∧
      s.Did ⟨s.now, proxy, key, operation, outcome⟩ (s.step move)) ∨
    ∃ ms, move = .wait ms ∧ s.step move = { s with now := s.now + ms } := by
  cases move with
  | wait ms => exact .inr ⟨ms, rfl, rfl⟩
  | operate proxy key operation =>
    left
    have effect := (s.usedBy proxy).effect s.now key operation
    refine ⟨proxy, key, operation, _, rfl, rfl, rfl, rfl, effect.tidy, effect.leases_eq, ?_, ?_, ?_⟩
    · exact drawn_of_effect effect s.now proxy
    · exact leaves_of_effect effect
    · intro a ha
      exact effect.record?_of_ne ha s.now

/-! ### What the log tells -/

/-- What the log tells of the records. Every record was put down by an event. A lease that was
granted and not used since holds its key until the record expires, and an envelope that was stored
is there until its record expires. Leases are granted in the order in which they are drawn. -/
structure Told (s : RecordState) : Prop where
  tidy : s.store.Tidy
  origin : ∀ a x, s.record? a = some x → ∃ e ∈ s.log, e.key.recordKey = a ∧
    ((∃ lease, e.granted? = some lease ∧ x = ⟨a, pendingRecord lease, s.expires e⟩) ∨
      ∃ lease envelope, e.stored? = some (lease, envelope) ∧
        x = ⟨a, envelope.encode, s.expires e⟩)
  unused : ∀ before e after lease, s.log = before ++ e :: after → e.granted? = some lease →
    s.now < s.expires e →
    (∀ d ∈ after, d.key.recordKey = e.key.recordKey → d.operation.lease? ≠ some lease) →
    s.record? e.key.recordKey = some ⟨e.key.recordKey, pendingRecord lease, s.expires e⟩
  stored : ∀ e ∈ s.log, ∀ lease envelope, e.stored? = some (lease, envelope) →
    s.now < s.expires e →
    s.record? e.key.recordKey = some ⟨e.key.recordKey, envelope.encode, s.expires e⟩
  drawn : s.granted.Sublist ((List.range s.store.drawn).map s.store.leases)

namespace Told

variable {s t : RecordState} {e : RecordEvent}

lemma start (ttls : Nat → Nat) (leases : Nat → Lease) : (start ttls leases).Told where
  tidy := List.nodup_nil
  origin _ _ hx := nomatch hx
  unused before _ _ _ hl := absurd hl.symm (List.append_ne_nil_of_right_ne_nil before nofun)
  stored _ he := absurd he List.not_mem_nil
  drawn := List.nil_sublist _

/-- An event leaves the record of an envelope where it is. -/
lemma stored_stays (did : s.Did e t) {a : String} {envelope : Envelope} {due : Nat}
    (hx : s.record? a = some ⟨a, envelope.encode, due⟩) :
    t.record? a = some ⟨a, envelope.encode, due⟩ := by
  have nobody {lease : Lease} : ¬ s.store.Holds s.now a lease := by
    rw [holds_iff_of_record? hx]
    exact encode_ne_pendingRecord envelope lease
  by_cases ha : a = e.key.recordKey
  · subst ha
    generalize hy : t.record? e.key.recordKey = y
    have here := hy ▸ did.here
    cases here with
    | granted _ _ _ was => rw [hx] at was; cases was
    | stored _ _ _ _ _ was => exact absurd was nobody
    | released _ _ _ _ was => exact absurd was nobody
    | same => exact hx
  · rw [did.elsewhere a ha, hx]

/-- An event leaves the record of a lease where it is, unless the lease is used. -/
lemma unused_stays (did : s.Did e t) {a : String} {lease : Lease} {due : Nat}
    (hx : s.record? a = some ⟨a, pendingRecord lease, due⟩)
    (unused : e.key.recordKey = a → e.operation.lease? ≠ some lease) :
    t.record? a = some ⟨a, pendingRecord lease, due⟩ := by
  by_cases ha : a = e.key.recordKey
  · subst ha
    have holder {lease' : Lease} (hu : e.operation.lease? = some lease') : ¬ s.Holds e.key lease' := by
      intro was
      rw [pendingRecord_inj.mp ((holds_iff_of_record? hx).mp was)] at unused
      exact unused rfl hu
    generalize hy : t.record? e.key.recordKey = y
    have here := hy ▸ did.here
    cases here with
    | granted _ _ _ was => rw [hx] at was; cases was
    | stored _ _ _ _ hu was => exact absurd was (holder hu)
    | released _ _ _ hu was => exact absurd was (holder hu)
    | same => exact hx
  · rw [did.elsewhere a ha, hx]

/-- What happens keeps the log true. -/
lemma did (h : s.Told) (did : s.Did e t) : t.Told := by
  have hexp (d : RecordEvent) : t.expires d = s.expires d := by
    rw [expires, did.ttls]
    rfl
  constructor
  · exact did.tidy h.tidy
  · intro a x hx
    simp only [hexp, did.log]
    have old (hx : s.record? a = some x) := h.origin a x hx
    by_cases ha : a = e.key.recordKey
    · subst ha
      generalize hy : t.record? e.key.recordKey = y at hx
      -- a record comes from the last grant or store of its address, which may be this one
      have here := hy ▸ did.here
      cases here with
      | granted lease hg =>
        cases hx
        exact ⟨e, by simp, rfl, .inl ⟨lease, hg, rfl⟩⟩
      | stored lease envelope _ hs =>
        cases hx
        exact ⟨e, by simp, rfl, .inr ⟨lease, envelope, hs, rfl⟩⟩
      | released => cases hx
      | same =>
        obtain ⟨d, hd, hk⟩ := old hx
        exact ⟨d, List.mem_append_left _ hd, hk⟩
    · rw [did.elsewhere a ha] at hx
      obtain ⟨d, hd, hk⟩ := old hx
      exact ⟨d, List.mem_append_left _ hd, hk⟩
  · intro before d after lease hl hg hlt unused
    rw [hexp, did.now] at hlt
    rw [hexp]
    rw [did.log] at hl
    rcases List.eq_nil_or_concat after with rfl | ⟨after, last, rfl⟩
    · -- the lease was granted just now
      obtain ⟨-, hd⟩ := List.append_inj' hl rfl
      cases hd
      generalize hy : t.record? e.key.recordKey = y
      have here := hy ▸ did.here
      cases here with
      | granted own hn =>
        rw [hg] at hn
        cases hn
        rfl
      | stored _ _ hn => rw [hg] at hn; cases hn
      | released _ hn => rw [hg] at hn; cases hn
      | same hn => rw [hg] at hn; cases hn
    · rw [List.concat_eq_append, ← List.cons_append, ← List.append_assoc] at hl
      obtain ⟨hlog, hlast⟩ := List.append_inj' hl rfl
      cases hlast
      -- the grant is older, so its record is there by hypothesis, and this event leaves it there
      apply unused_stays did
      · apply h.unused before d after lease hlog hg hlt
        intro x hx
        exact unused x (by simp [hx])
      · intro hk
        exact unused e (by simp) hk
  · intro d hd lease envelope hs hlt
    rw [hexp, did.now] at hlt
    rw [hexp]
    rw [did.log] at hd
    rcases List.mem_append.mp hd with hd | hd
    · exact stored_stays did (h.stored d hd lease envelope hs hlt)
    · -- the envelope was stored just now
      cases List.mem_singleton.mp hd
      generalize hy : t.record? e.key.recordKey = y
      have here := hy ▸ did.here
      cases here with
      | granted _ _ hn => rw [hs] at hn; cases hn
      | stored own held _ hn =>
        rw [hs] at hn
        cases hn
        rfl
      | released _ _ hn => rw [hs] at hn; cases hn
      | same _ hn => rw [hs] at hn; cases hn
  · rw [granted, did.log, List.filterMap_append, did.leases]
    rcases did.drawn with ⟨hd, hg⟩ | ⟨hd, hg⟩
    · rw [hd]
      simpa [hg, granted] using h.drawn
    · rw [hd, List.range_succ, List.map_append]
      -- what is granted is what is drawn, and that is drawn once
      apply h.drawn.append
      cases hl : e.granted? with
      | none => simp [hl]
      | some lease => simp [hl, hg lease hl]

/-- Waiting makes records expire, and nothing else. -/
lemma wait (h : s.Told) (ms : Nat) : Told { s with now := s.now + ms } := by
  have later (a : String) : record? { s with now := s.now + ms } a =
      (s.record? a).filter (s.now + ms < ·.expires) :=
    h.tidy.record?_later (Nat.le_add_right _ _)
  constructor
  · exact h.tidy
  · intro a x hx
    rw [later, Option.filter_eq_some_iff] at hx
    exact h.origin a x hx.1
  · intro before e after lease hl hg hlt unused
    have hx := h.unused before e after lease hl hg (Nat.lt_of_add_right_lt hlt) unused
    rw [later, hx]
    exact Option.filter_some_pos (decide_eq_true hlt)
  · intro e he lease envelope hs hlt
    have hx := h.stored e he lease envelope hs (Nat.lt_of_add_right_lt hlt)
    rw [later, hx]
    exact Option.filter_some_pos (decide_eq_true hlt)
  · exact h.drawn

lemma step (h : s.Told) (move : RecordMove) : (s.step move).Told := by
  rcases s.step_cases move with ⟨_, _, _, _, -, did⟩ | ⟨ms, -, hs⟩
  · exact h.did did
  · rw [hs]
    exact h.wait ms

lemma run (h : s.Told) (moves : List RecordMove) : (s.run moves).Told := by
  induction moves generalizing s with
  | nil => exact h
  | cons move moves ih => exact ih (h.step move)

/-! ### Holders -/

/-- A record that names a lease was put down when the lease was granted. -/
lemma exists_grant (h : s.Told) {key : IdempotencyKey} {lease : Lease} (holds : s.Holds key lease) :
    ∃ e ∈ s.log, e.key.recordKey = key.recordKey ∧ e.granted? = some lease ∧
      s.now < s.expires e := by
  obtain ⟨due, hx⟩ := holds_iff.mp holds
  obtain ⟨e, he, hk, ⟨own, hg, hown⟩ | ⟨_, envelope, _, henv⟩⟩ := h.origin _ _ hx
  · obtain ⟨-, -, hlt⟩ := of_record? hx
    obtain ⟨-, hbytes, rfl⟩ := (Record.mk.injEq ..).mp hown
    exact ⟨e, he, hk, pendingRecord_inj.mp hbytes ▸ hg, hlt⟩
  · exact absurd ((Record.mk.injEq ..).mp henv).2.1.symm (encode_ne_pendingRecord envelope lease)

/-- If no lease is drawn twice, none is granted twice. -/
lemma nodup_granted (h : s.Told) (distinct : Set.InjOn s.store.leases (Set.Iio s.store.drawn)) :
    s.granted.Nodup := by
  apply h.drawn.nodup
  apply List.Nodup.map_on _ List.nodup_range
  intro m hm n hn
  exact distinct (List.mem_range.mp hm) (List.mem_range.mp hn)

/-! ### What is found -/

variable {key : IdempotencyKey} {envelope : Envelope}
  (fits : ∀ e ∈ s.log, ∀ lease envelope, e.stored? = some (lease, envelope) → envelope.Fits)
include fits

/-- What was stored is found until it expires. -/
lemma peek_of_keeps (h : s.Told) (keeps : s.Keeps key envelope) :
    s.peek key = .ok (some envelope) := by
  obtain ⟨e, he, lease, hs, hk, hlt⟩ := keeps
  have hx := h.stored e he lease envelope hs hlt
  rw [hk] at hx
  have hpeek := peek_of_plain hx (head?_encode envelope)
  rw [Envelope.decode_encode (fits e he lease envelope hs)] at hpeek
  exact hpeek

omit fits in
/-- A key has no record, or a lease holds it, or it has the record of an envelope. -/
lemma record?_cases (h : s.Told) (key : IdempotencyKey) :
    s.record? key.recordKey = none ∨ (∃ lease, s.Holds key lease) ∨
      ∃ envelope, s.Keeps key envelope := by
  cases hx : s.record? key.recordKey with
  | none => exact .inl rfl
  | some x =>
    right
    obtain ⟨e, he, hk, ⟨lease, -, rfl⟩ | ⟨lease, envelope, hs, rfl⟩⟩ := h.origin _ _ hx
    · exact .inl ⟨lease, (holds_iff_of_record? hx).mpr rfl⟩
    · exact .inr ⟨envelope, e, he, lease, hs, hk, (of_record? hx).2.2⟩

/-- No kind of record is taken for another. -/
lemma peek_iff (h : s.Told) (key : IdempotencyKey) :
    (∀ error, s.peek key = .error error ↔
      s.record? key.recordKey = none ∧ error = .notObtained) ∧
    (s.peek key = .ok none ↔ ∃ lease, s.Holds key lease) ∧
    ∀ envelope, s.peek key = .ok (some envelope) ↔ s.Keeps key envelope := by
  have ofNone (hn : s.record? key.recordKey = none) : s.peek key = .error .notObtained :=
    peek_of_none hn
  have ofHolds (hh : ∃ lease, s.Holds key lease) : s.peek key = .ok none := by
    obtain ⟨lease, holds⟩ := hh
    exact peek_of_holds holds
  -- the record of a key is missing, pending or ready, and each of them is seen in its own way
  have cases := h.record?_cases key
  refine ⟨?_, ?_, ?_⟩
  · intro error
    constructor
    · intro hp
      rcases cases with hn | hh | ⟨envelope, keeps⟩
      · rw [ofNone hn] at hp
        cases hp
        exact ⟨hn, rfl⟩
      · rw [ofHolds hh] at hp
        cases hp
      · rw [h.peek_of_keeps fits keeps] at hp
        cases hp
    · rintro ⟨hn, rfl⟩
      exact ofNone hn
  · refine ⟨?_, ofHolds⟩
    intro hp
    rcases cases with hn | hh | ⟨envelope, keeps⟩
    · rw [ofNone hn] at hp
      cases hp
    · exact hh
    · rw [h.peek_of_keeps fits keeps] at hp
      cases hp
  · intro envelope
    refine ⟨?_, h.peek_of_keeps fits⟩
    intro hp
    rcases cases with hn | hh | ⟨other, keeps⟩
    · rw [ofNone hn] at hp
      cases hp
    · rw [ofHolds hh] at hp
      cases hp
    · rw [h.peek_of_keeps fits keeps] at hp
      cases hp
      exact keeps

end Told

/-! ### Runs -/

lemma leases_run (s : RecordState) (moves : List RecordMove) :
    (s.run moves).store.leases = s.store.leases := by
  induction moves generalizing s with
  | nil => rfl
  | cons move moves ih =>
    refine (ih (s.step move)).trans ?_
    rcases s.step_cases move with ⟨_, _, _, _, -, did⟩ | ⟨ms, -, hs⟩
    · exact did.leases
    · rw [hs]

/-- Every event comes of a move. -/
lemma mem_log_run {s : RecordState} {moves : List RecordMove} {e : RecordEvent}
    (he : e ∈ (s.run moves).log) : e ∈ s.log ∨ .operate e.proxy e.key e.operation ∈ moves := by
  induction moves generalizing s with
  | nil => exact .inl he
  | cons move moves ih =>
    rcases ih he with he | he
    · rcases s.step_cases move with ⟨_, _, _, _, rfl, did⟩ | ⟨ms, -, hs⟩
      · rw [did.log] at he
        rcases List.mem_append.mp he with he | he
        · exact .inl he
        · rw [List.mem_singleton.mp he]
          exact .inr List.mem_cons_self
      · rw [hs] at he
        exact .inl he
    · exact .inr (List.mem_cons_of_mem move he)

end RecordState

open RecordState in
/-- Records that any number of proxies share, each with a TTL of its own. At every moment a key has
one holder at most. This is a lease that was granted once, for this address, and whose record has
not expired; and every lease that was granted holds its key until its record expires, unless it is
used before. To store succeeds just for the holder. An envelope that was stored has its record until
this expires, whatever is done meanwhile. What is found for a key is an error just if it has no
record, nothing just if somebody holds it, and an envelope just if this was stored and its record
has not expired. -/
theorem run_shared (ttls : Nat → Nat) (leases : Nat → Lease) (moves : List RecordMove)
    (distinct : Set.InjOn leases (Set.Iio ((start ttls leases).run moves).store.drawn))
    (fits : ∀ proxy key lease envelope,
      .operate proxy key (.store lease envelope) ∈ moves → envelope.Fits) :
    let s := (start ttls leases).run moves
    (∀ key lease, s.Holds key lease → (∀ other, s.Holds key other → other = lease) ∧
      ∃ before e after, s.log = before ++ e :: after ∧ e.key.recordKey = key.recordKey ∧
        e.granted? = some lease ∧ s.now < s.expires e ∧
        ∀ d ∈ before ++ after, d.granted? ≠ some lease) ∧
    (∀ before e after lease, s.log = before ++ e :: after → e.granted? = some lease →
      s.now < s.expires e →
      (∀ d ∈ after, d.key.recordKey = e.key.recordKey → d.operation.lease? ≠ some lease) →
      s.Holds e.key lease) ∧
    (∀ proxy key lease envelope,
      (Backend.records.operate (s.usedBy proxy) s.now key (.store lease envelope)).1 =
        .stored (.ok ()) ↔ s.Holds key lease) ∧
    (∀ e ∈ s.log, ∀ lease envelope, e.stored? = some (lease, envelope) → s.now < s.expires e →
      s.record? e.key.recordKey = some ⟨e.key.recordKey, envelope.encode, s.expires e⟩) ∧
    (∀ key,
      (∀ error, s.peek key = .error error ↔
        s.record? key.recordKey = none ∧ error = .notObtained) ∧
      (s.peek key = .ok none ↔ ∃ lease, s.Holds key lease) ∧
      ∀ envelope, s.peek key = .ok (some envelope) ↔ s.Keeps key envelope) := by
  intro s
  have told : s.Told := (Told.start ttls leases).run moves
  have nodup : s.granted.Nodup := by
    apply told.nodup_granted
    rw [leases_run]
    exact distinct
  -- an envelope that is stored comes from one of the moves
  have logged (e : RecordEvent) (he : e ∈ s.log) (lease : Lease) (envelope : Envelope)
      (hs : e.stored? = some (lease, envelope)) : envelope.Fits := by
    rcases mem_log_run he with he | he
    · cases he
    · rw [RecordEvent.eq_of_stored hs] at he
      exact fits _ _ _ _ he
  refine ⟨?_, ?_, ?_, told.stored, told.peek_iff logged⟩
  · intro key lease holds
    refine ⟨fun other hother => hother.unique holds, ?_⟩
    obtain ⟨e, he, hk, hg, hlt⟩ := told.exists_grant holds
    obtain ⟨before, after, hl⟩ := List.append_of_mem he
    refine ⟨before, e, after, hl, hk, hg, hlt, ?_⟩
    intro d hd hgd
    -- the lease stands in the log once, so no other event grants it
    rw [RecordState.granted, hl, List.filterMap_append, List.filterMap_cons_some hg, List.nodup_middle,
      List.nodup_cons, ← List.filterMap_append] at nodup
    exact nodup.1 (List.mem_filterMap.mpr ⟨d, hd, hgd⟩)
  · intro before e after lease hl hg hlt unused
    exact RecordStore.holds_iff.mpr ⟨_, told.unused before e after lease hl hg hlt unused⟩
  · intro proxy key lease envelope
    exact (s.usedBy proxy).stored_iff s.now key lease envelope

/-- Two proxies that try to acquire one key. The one that gets it stores an envelope, which the
other one finds. Then this one acquires another key. -/
def sharing : List RecordMove :=
  let key : IdempotencyKey := ⟨"a", "GET", "k"⟩
  [.operate 0 key .tryAcquire, .operate 1 key .tryAcquire, .wait 3,
    .operate 0 key (.store (.nth 0) ⟨200, [], [], "text/plain"⟩), .wait 4, .operate 1 key .peek,
    .operate 1 ⟨"a", "POST", "k"⟩ .tryAcquire]

theorem run_shared_sharing :
    let s := (RecordState.start (fun proxy => 5 + proxy) .nth).run sharing
    let e : Envelope := ⟨200, [], [], "text/plain"⟩
    Set.InjOn Lease.nth (Set.Iio s.store.drawn) ∧
    (∀ proxy key lease envelope,
      .operate proxy key (.store lease envelope) ∈ sharing → envelope.Fits) ∧
    s.now = 7 ∧ s.Holds ⟨"a", "POST", "k"⟩ (.nth 2) ∧
    (∀ other, s.Holds ⟨"a", "POST", "k"⟩ other → other = .nth 2) ∧
    s.peek ⟨"a", "GET", "k"⟩ = .ok (some e) ∧ s.peek ⟨"a", "POST", "k"⟩ = .ok none := by
  intro s e
  have distinct : Set.InjOn Lease.nth (Set.Iio s.store.drawn) :=
    Lease.injOn_nth (by decide +kernel)
  have fits : ∀ proxy key lease envelope,
      .operate proxy key (.store lease envelope) ∈ sharing → envelope.Fits := by
    intro proxy key lease envelope hm
    simp only [sharing, List.mem_cons, RecordMove.operate.injEq, Operation.store.injEq,
      reduceCtorEq, and_false, List.not_mem_nil, or_false, false_or] at hm
    obtain ⟨-, -, -, rfl⟩ := hm
    exact ⟨by decide, fun h hh => absurd hh List.not_mem_nil, by decide, by decide⟩
  obtain ⟨single, -, -, -, found⟩ := run_shared _ _ sharing distinct fits
  have holds : s.Holds ⟨"a", "POST", "k"⟩ (.nth 2) := by
    unfold RecordState.Holds RecordStore.Holds
    decide +kernel
  have keeps : s.Keeps ⟨"a", "GET", "k"⟩ e := by
    refine ⟨⟨3, 0, ⟨"a", "GET", "k"⟩, .store (.nth 0) e, .stored (.ok ())⟩, ?_, .nth 0, rfl, rfl, ?_⟩
    · decide +kernel
    · decide +kernel
  exact ⟨distinct, fits, by decide +kernel, holds, (single _ _ holds).1,
    ((found _).2.2 e).mpr keeps, (found _).2.1.mpr ⟨_, holds⟩⟩

end OnceProxy
