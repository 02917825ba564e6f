import OnceProxy.Proofs.Proxy.Abandonment
import OnceProxy.Proofs.Proxy.Replay
import OnceProxy.Proofs.Settings.Times
import OnceProxy.Proofs.Store.Lifetime

/-!
# When a follower looks

An exchange that was refused its key, and then makes every step as soon as it can, looks for the
answer at equal intervals, until there is something else to be seen than that somebody is at work
on the key, or until it has no attempt left. Of the entries, nothing matters to it but what they
show at these times.
-/

namespace OnceProxy

/-! ### What an entry shows -/

/-- What an entry shows to whoever looks for the answer. -/
inductive Standing where
  | empty
  | pending
  | ready (e : Envelope)
  deriving DecidableEq

namespace Standing

/-- What a look finds. -/
def found : Standing → Except ProxyError (Option Envelope)
  | empty => .error .notObtained
  | pending => .ok none
  | ready e => .ok (some e)

/-- What a follower is told that sees it; one that sees nothing new goes on. -/
def told? : Standing → Option (Except ProxyError Envelope)
  | empty => some (.error .notObtained)
  | pending => none
  | ready e => some (.ok e)

lemma told?_ne_timeout (s : Standing) : s.told? ≠ some (.error .timeout) := by
  cases s <;> rintro ⟨⟩

/-- Either all of the first standings of a history are pending, or there is a first that is not. -/
lemma pending_or_first (history : Nat → Standing) (n : Nat) :
    (∀ i < n, history i = .pending) ∨
      ∃ i < n, (∀ j < i, history j = .pending) ∧ ∃ result, (history i).told? = some result := by
  induction n with
  | zero => exact .inl nofun
  | succ n ih =>
    rcases ih with all | ⟨i, hi, first⟩
    · cases hn : history n with
      | empty => exact .inr ⟨n, Nat.lt_succ_self n, all, _, by rw [hn]; rfl⟩
      | ready e => exact .inr ⟨n, Nat.lt_succ_self n, all, _, by rw [hn]; rfl⟩
      | pending =>
        left
        intro i hi
        rcases Nat.lt_succ_iff_lt_or_eq.mp hi with hi | rfl
        · exact all i hi
        · exact hn
    · exact .inr ⟨i, Nat.lt_succ_of_lt hi, first⟩

end Standing

/-- In every run of a proxy whose answers can be kept, the entry of a key is empty, pending or
ready. -/
theorem ProxyState.exists_standing (config : Config) (origin : Origin) (fits : origin.Fits)
    (moves : List ProxyMove) (key : IdempotencyKey) :
    ∃ standing : Standing,
      ((start config origin).run moves).entries.store.peek key = standing.found := by
  obtain ⟨valid, ho, genuine, -⟩ := run_answers config origin moves
  rw [← ho] at fits
  generalize (start config origin).run moves = s at valid genuine fits ⊢
  have steady := valid.entries.steady
  cases hc : s.entries.store.cycle key with
  | free => exact ⟨.empty, (steady.isFree hc s.entries.now).1⟩
  | held lease due => exact ⟨.pending, (steady.isPending hc s.entries.now).1⟩
  | ready lease value due =>
    have cycles := valid.entries.cycles key
    rw [hc, ← valid.events] at cycles
    obtain ⟨job, e, -, makes, rfl⟩ :=
      genuine.makes_of_ready valid (List.append_nil _).symm cycles.symm
    exact ⟨.ready e, (steady.isReady hc (fits job e makes) s.entries.now).1⟩

namespace Stage

variable {σ : Type}

/-! ### The way of an exchange -/

/-- The time of the next step, from a time on: at once, or when the wait is over. -/
def wakesAt (c : Config) (now : Nat) (s : Stage) : Nat :=
  (s.due? c).elim now (max now)

/-- The way of an exchange that makes every step as soon as it can, if `shared` tells at every time
what it shares with others: the stages, each with the time from which on the exchange is there. -/
def way (b : Backend σ) (c : Config) (origin : Origin) (job : Job) (shared : Nat → Shared σ)
    (now : Nat) (s : Stage) : List (Nat × Stage) :=
  (now, s) ::
    if _h : s.hasEnded = true then []
    else
      let time := s.wakesAt c now
      way b c origin job shared time (s.step b c origin time job (shared time)).1
termination_by s.stepsLeft c
decreasing_by
  exact stepsLeft_step_lt b c origin _ job _ (Bool.eq_false_of_not_eq_true _h)

/-- Whether an exchange is about to look for the answer. -/
def looks : Stage → Bool
  | looking (_ + 1) => true
  | _ => false

/-- The times on a way when the exchange looks for the answer. -/
def lookTimes (way : List (Nat × Stage)) : List Nat :=
  (way.filter fun p => p.2.looks).map (·.1)

/-- What comes after a look that finds something, an error or nothing yet. -/
def afterLook (left now : Nat) : Except ProxyError (Option Envelope) → Stage
  | .error e => ended (.error e)
  | .ok (some e) => ended (.ok e)
  | .ok none => resting left now

lemma afterLook_found {standing : Standing} {result : Except ProxyError Envelope}
    (told : standing.told? = some result) (left now : Nat) :
    afterLook left now standing.found = .ended result := by
  cases standing with
  | empty =>
    cases told
    rfl
  | pending => cases told
  | ready e =>
    cases told
    rfl

section

variable (b : Backend σ) (c : Config) (origin : Origin) (job : Job) (shared : Nat → Shared σ)
  (now : Nat)

lemma step_looking (left : Nat) (w : Shared σ) :
    (step b c origin now job (.looking (left + 1)) w).1 =
      afterLook left now (b.peek w.store now job.key) := by
  simp only [step]
  split
  all_goals rename_i h; rw [h]; rfl

lemma way_ended (result : Except ProxyError Envelope) :
    way b c origin job shared now (.ended result) = [(now, .ended result)] := by
  rw [way]
  rfl

variable {b c origin job shared now} {s : Stage} in
lemma way_of_not_ended (h : s.hasEnded = false) :
    way b c origin job shared now s =
      (now, s) :: way b c origin job shared (s.wakesAt c now)
        (s.step b c origin (s.wakesAt c now) job (shared (s.wakesAt c now))).1 := by
  rw [way, dif_neg (Bool.eq_false_iff.mp h)]

lemma way_resting (left : Nat) :
    way b c origin job shared now (.resting left now) =
      (now, .resting left now) ::
        way b c origin job shared (now + c.pollInterval) (.looking left) := by
  have awakes : wakesAt c now (.resting left now) = now + c.pollInterval :=
    Nat.max_eq_right (Nat.le_add_right ..)
  rw [way_of_not_ended rfl, awakes]
  rfl

lemma way_looking_zero :
    way b c origin job shared now (.looking 0) =
      [(now, .looking 0), (now, .ended (.error .timeout))] := by
  rw [way_of_not_ended rfl]
  exact congrArg _ (way_ended ..)

lemma way_looking_succ (left : Nat) :
    way b c origin job shared now (.looking (left + 1)) =
      (now, .looking (left + 1)) :: way b c origin job shared now
        (afterLook left now (b.peek (shared now).store now job.key)) := by
  rw [way_of_not_ended rfl, ← step_looking b c origin]
  rfl

end

/-! ### The looks of a follower -/

section

variable {b : Backend σ} {c : Config} (origin : Origin) {job : Job} {shared : Nat → Shared σ}
  {t : Nat}

/-- Nothing that is not seen by a look makes a difference. -/
lemma way_looking_congr {other : Nat → Shared σ} {left : Nat}
    (same : ∀ i < left,
      b.peek (other (t + i * c.pollInterval)).store (t + i * c.pollInterval) job.key =
        b.peek (shared (t + i * c.pollInterval)).store (t + i * c.pollInterval) job.key) :
    way b c origin job other t (.looking left) = way b c origin job shared t (.looking left) := by
  -- on the looks that are left: only what each of them finds matters
  induction left generalizing t with
  | zero => rw [way_looking_zero, way_looking_zero]
  | succ left ih =>
    have now := same 0 (Nat.succ_pos left)
    simp only [Nat.zero_mul, Nat.add_zero] at now
    rw [way_looking_succ, way_looking_succ, now]
    congr 1
    cases b.peek (shared t).store t job.key with
    | error e => rw [afterLook, way_ended, way_ended]
    | ok found =>
      cases found with
      | some e => rw [afterLook, way_ended, way_ended]
      | none =>
        rw [afterLook, way_resting, way_resting, ih]
        intro i hi
        rw [Nat.add_assoc, Nat.add_comm c.pollInterval, ← Nat.succ_mul]
        exact same (i + 1) (Nat.succ_lt_succ hi)

variable {history : Nat → Standing}
  (shows : ∀ time, b.peek (shared time).store time job.key = (history time).found)

include shows

/-- As long as nothing but pending is seen, an attempt goes with every interval. -/
lemma exists_way_of_pending {n : Nat}
    (pending : ∀ i < n, history (t + i * c.pollInterval) = .pending) (left : Nat) :
    ∃ before, way b c origin job shared t (.looking (n + left)) =
        before ++ way b c origin job shared (t + n * c.pollInterval) (.looking left) ∧
      lookTimes before = (List.range n).map fun i => t + i * c.pollInterval := by
  -- on the looks that find the entry pending: each is followed by a rest
  induction n generalizing t with
  | zero => exact ⟨[], by simp, rfl⟩
  | succ n ih =>
    have later (i : Nat) :
        t + c.pollInterval + i * c.pollInterval = t + (i + 1) * c.pollInterval := by
      rw [Nat.add_assoc, Nat.add_comm c.pollInterval, ← Nat.succ_mul]
    have now : history t = .pending := by simpa using pending 0 (Nat.succ_pos n)
    obtain ⟨before, hway, looked⟩ := ih (t := t + c.pollInterval) fun i hi => by
      rw [later]
      exact pending (i + 1) (Nat.succ_lt_succ hi)
    refine ⟨(t, .looking (n + left + 1)) :: (t, .resting (n + left) t) :: before, ?_, ?_⟩
    · rw [Nat.succ_add, way_looking_succ, shows, now, Standing.found, afterLook, way_resting,
        hway, later]
      rfl
    · rw [List.range_succ_eq_map, List.map_cons, List.map_map]
      simp only [lookTimes, looks] at looked ⊢
      simp [looked, later, Function.comp_def]

/-- A follower is through at the first look that sees something else. -/
lemma way_of_told {i attempts : Nat} (hi : i < attempts) {result : Except ProxyError Envelope}
    (pending : ∀ j < i, history (t + j * c.pollInterval) = .pending)
    (told : (history (t + i * c.pollInterval)).told? = some result) :
    lookTimes (way b c origin job shared t (.looking attempts)) =
        (List.range (i + 1)).map (fun j => t + j * c.pollInterval) ∧
      (way b c origin job shared t (.looking attempts)).getLast? =
        some (t + i * c.pollInterval, .ended result) := by
  obtain ⟨left, rfl⟩ := Nat.exists_eq_add_of_lt hi
  obtain ⟨before, hway, looked⟩ := exists_way_of_pending origin shows pending (left + 1)
  rw [Nat.add_assoc, hway, way_looking_succ, shows, afterLook_found told, way_ended]
  constructor
  · rw [List.range_succ, List.map_append, ← looked]
    simp [lookTimes, looks]
  · simp

/-- A follower that sees nothing new has no attempt left in the end. -/
lemma way_of_pending {attempts : Nat}
    (pending : ∀ i < attempts, history (t + i * c.pollInterval) = .pending) :
    lookTimes (way b c origin job shared t (.looking attempts)) =
        (List.range attempts).map (fun i => t + i * c.pollInterval) ∧
      (way b c origin job shared t (.looking attempts)).getLast? =
        some (t + attempts * c.pollInterval, .ended (.error .timeout)) := by
  obtain ⟨before, hway, looked⟩ := exists_way_of_pending origin shows pending 0
  rw [Nat.add_zero, way_looking_zero] at hway
  rw [hway, ← looked]
  constructor
  · simp [lookTimes, looks]
  · simp

/-- A follower that has an attempt is through after the last of some looks. -/
lemma exists_way_end {attempts : Nat} (some : 0 < attempts) :
    ∃ n ≤ attempts, 0 < n ∧
      lookTimes (way b c origin job shared t (.looking attempts)) =
        (List.range n).map (fun i => t + i * c.pollInterval) ∧
      ∃ i ≤ attempts, ∃ result,
        (way b c origin job shared t (.looking attempts)).getLast? =
          .some (t + i * c.pollInterval, .ended result) ∧
        (result = .error .timeout →
          ∀ i < attempts, history (t + i * c.pollInterval) = .pending) := by
  rcases Standing.pending_or_first (fun i => history (t + i * c.pollInterval)) attempts with
    pending | ⟨i, hi, pending, result, told⟩
  · obtain ⟨looked, last⟩ := way_of_pending origin shows pending
    exact ⟨attempts, Nat.le_refl _, some, looked, attempts, Nat.le_refl _, _, last,
      fun _ => pending⟩
  · obtain ⟨looked, last⟩ := way_of_told origin shows hi pending told
    refine ⟨i + 1, hi, Nat.succ_pos i, looked, i, Nat.le_of_lt hi, result, last, ?_⟩
    rintro rfl
    exact absurd told (Standing.told?_ne_timeout _)

end

end Stage

open Stage in
/-- Followers poll exactly. Let settings be accepted, and let the entry of a key have any standing
at any time. A follower that starts at the time `t`, whose looks take no time and whose sleeps take
one poll interval, looks for the answer only at `t` and then after every interval, no more often
than it has attempts; what is there at other times makes no difference to it. At the first of these
times at which the entry is not pending it is through, with the envelope if the entry is ready, and
with an error if it is empty. It is told that its time is over just if the entry is pending at all
of them. In any case it is through within the request timeout, or within one poll interval if this
is longer. There is at least one attempt, and with one more the attempts would take longer than the
request timeout, unless their number is the largest of 32 bits. No time is too large for a machine
word, the poll interval is not zero, and machine words give the same number of attempts. -/
theorem follower_polls_exactly {σ : Type} {given : List (String × String)} {c : Config}
    (accepted : Config.ofVars given = .ok c) (b : Backend σ) (origin : Origin) (job : Job)
    (shared : Nat → Shared σ) {history : Nat → Standing}
    (shows : ∀ time, b.peek (shared time).store time job.key = (history time).found) (t : Nat) :
    let time (i : Nat) := t + i * c.pollInterval
    let way := way b c origin job shared t (.looking c.pollAttempts)
    (∃ n ≤ c.pollAttempts, 0 < n ∧ lookTimes way = (List.range n).map time) ∧
    (∀ other : Nat → Shared σ,
      (∀ i < c.pollAttempts, b.peek (other (time i)).store (time i) job.key =
        b.peek (shared (time i)).store (time i) job.key) →
      Stage.way b c origin job other t (.looking c.pollAttempts) = way) ∧
    (∀ i < c.pollAttempts, (∀ j < i, history (time j) = .pending) →
      ∀ result, (history (time i)).told? = some result →
        lookTimes way = (List.range (i + 1)).map time ∧
        way.getLast? = some (time i, .ended result)) ∧
    ((∀ i < c.pollAttempts, history (time i) = .pending) →
      lookTimes way = (List.range c.pollAttempts).map time ∧
      way.getLast? = some (time c.pollAttempts, .ended (.error .timeout))) ∧
    ((∃ finish, way.getLast? = some (finish, .ended (.error .timeout))) ↔
      ∀ i < c.pollAttempts, history (time i) = .pending) ∧
    (∃ finish result, way.getLast? = some (finish, .ended result) ∧
      finish ≤ t + max c.requestTimeout c.pollInterval) ∧
    1 ≤ c.pollAttempts ∧ c.pollAttempts < 2 ^ 32 ∧
    (c.requestTimeout / c.pollInterval < 2 ^ 32 →
      c.requestTimeout < (c.pollAttempts + 1) * c.pollInterval) ∧
    c.requestTimeout < 2 ^ 64 ∧ c.pollInterval < 2 ^ 64 ∧ 0 < c.pollInterval ∧
    (Config.pollAttemptsInWords (.ofNat 128 c.requestTimeout)
      (.ofNat 128 c.pollInterval)).toNat = c.pollAttempts := by
  intro time way
  have request := Config.requestTimeout_bounds accepted
  have poll := Config.pollInterval_bounds accepted
  have pos : 0 < c.pollInterval := by omega
  have attempts := c.one_le_pollAttempts
  obtain ⟨n, hn, some, looked, i, hi, result, last, late⟩ :=
    exists_way_end (t := t) origin shows attempts
  refine ⟨⟨n, hn, some, looked⟩, fun other same => way_looking_congr origin same, ?_,
    fun pending => way_of_pending origin shows pending, ⟨?_, ?_⟩, ⟨time i, result, last, ?_⟩,
    attempts, c.pollAttempts_lt, Config.lt_succ_pollAttempts_mul pos, request.2, poll.2, pos, ?_⟩
  · intro i hi pending result told
    exact way_of_told origin shows hi pending told
  · rintro ⟨finish, h⟩
    cases h.symm.trans last
    exact late rfl
  · intro pending
    exact ⟨_, (way_of_pending origin shows pending).2⟩
  · apply Nat.add_le_add_left
    calc i * c.pollInterval
      _ ≤ c.pollAttempts * c.pollInterval := Nat.mul_le_mul_right _ hi
      _ ≤ max c.requestTimeout c.pollInterval := Config.pollAttempts_mul_le pos
  · -- the numbers of milliseconds fit into 64 bits, so that dividing 128 of them is exact
    have wide : wordLimit ≤ 2 ^ 128 := by decide
    rw [Config.toNat_pollAttemptsInWords, BitVec.toNat_ofNat, BitVec.toNat_ofNat,
      Nat.mod_eq_of_lt (request.2.trans_le wide), Nat.mod_eq_of_lt (poll.2.trans_le wide)]
    rfl

/-- Somebody holds the key of a job, and stores the answer just when a follower looks the third
time. -/
def meanwhile (time : Nat) : Shared MemoryStore :=
  let held := ((MemoryStore.new 1000).tryAcquire 0 bareJob.key).2
  ⟨if time < 605 then held else
    (held.store 605 bareJob.key ⟨1⟩ ⟨200, [], [104, 105], "text/plain"⟩).2, []⟩

open Stage in
theorem follower_polls_exactly_meanwhile :
    let given := [("POLL_INTERVAL", " 300"), ("REQUEST_TIMEOUT", "1000")]
    let c : Config := ⟨"0.0.0.0", 8080, 1000, 300, 1000, 1048576, none, [], ⟨[], []⟩, [], []⟩
    let e : Envelope := ⟨200, [], [104, 105], "text/plain"⟩
    let history (time : Nat) : Standing := if time < 605 then .pending else .ready e
    let way := way Backend.memory c greeter bareJob meanwhile 5 (.looking c.pollAttempts)
    Config.ofVars given = .ok c ∧
    (∀ time, Backend.memory.peek (meanwhile time).store time bareJob.key =
      (history time).found) ∧
    c.pollAttempts = 3 ∧ lookTimes way = [5, 305, 605] ∧
    way.getLast? = some (605, .ended (.ok e)) := by
  intro given c e history way
  have accepted : Config.ofVars given = .ok c := by decide +kernel
  have shows (time : Nat) : Backend.memory.peek (meanwhile time).store time bareJob.key =
      (history time).found := by
    show (meanwhile time).store.peek bareJob.key = (history time).found
    by_cases early : time < 605
    · simp only [meanwhile, history, if_pos early]
      decide +kernel
    · simp only [meanwhile, history, if_neg early]
      decide +kernel
  obtain ⟨-, -, told, -⟩ :=
    follower_polls_exactly accepted Backend.memory greeter bareJob meanwhile shows 5
  exact ⟨accepted, shows, by decide, told 2 (by decide) (by decide) (.ok e) rfl⟩

end OnceProxy
