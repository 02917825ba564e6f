import OnceProxy.Proofs.Settings.Tables

/-!
# Times in settings

Times are numbers of 64 bits, and those that are too short are made longer. So the poll interval is
never zero, and the attempts of a follower can be counted in machine words. Together they take no
longer than the request timeout, or than one poll interval if this is longer.
-/

namespace OnceProxy

lemma Text.lt_of_readNumber {limit n : Nat} {s : String} (pos : 0 < limit)
    (h : readNumber limit s = .ok n) : n < limit := by
  unfold readNumber at h
  split at h
  · cases h
  · cases h
  · exact readDigits_lt pos h
  · exact readDigits_lt pos h

namespace Config

lemma number_lt {vars : List (String × String)} {name : String} {limit default n : Nat}
    (hd : default < limit) (h : number vars name limit default = .ok n) : n < limit := by
  unfold number at h
  split at h
  · cases h
    exact hd
  · exact Text.lt_of_readNumber (Nat.zero_lt_of_lt hd) (mapError_eq_ok_iff.mp h)

section

variable {given : List (String × String)} {c : Config}

lemma requestTimeout_bounds (accepted : ofVars given = .ok c) :
    1000 ≤ c.requestTimeout ∧ c.requestTimeout < wordLimit := by
  obtain ⟨n, hn, he⟩ := (madeOf_of_ofVars accepted).requestTimeout
  have hlt := number_lt (by decide) hn
  rw [he]
  exact ⟨Nat.le_max_left .., Nat.max_lt.mpr ⟨by decide, hlt⟩⟩

lemma pollInterval_bounds (accepted : ofVars given = .ok c) :
    10 ≤ c.pollInterval ∧ c.pollInterval < wordLimit := by
  obtain ⟨n, hn, he⟩ := (madeOf_of_ofVars accepted).pollInterval
  have hlt := number_lt (by decide) hn
  rw [he]
  exact ⟨Nat.le_max_left .., Nat.max_lt.mpr ⟨by decide, hlt⟩⟩

end

/-! ### The number of attempts -/

section

variable (c : Config)

lemma one_le_pollAttempts : 1 ≤ c.pollAttempts :=
  Nat.le_max_left ..

lemma pollAttempts_lt : c.pollAttempts < 2 ^ 32 := by
  simp only [pollAttempts]
  omega

variable {c} (pos : 0 < c.pollInterval)

include pos

lemma pollAttempts_eq :
    c.pollAttempts = max 1 (min (2 ^ 32 - 1) (c.requestTimeout / c.pollInterval)) := by
  rw [pollAttempts, Nat.max_eq_right pos]
  rfl

/-- The attempts are over before the request timeout is, unless there is one that had to be. -/
lemma pollAttempts_mul_le :
    c.pollAttempts * c.pollInterval ≤ max c.requestTimeout c.pollInterval := by
  have fits := Nat.div_mul_le_self c.requestTimeout c.pollInterval
  rw [pollAttempts_eq pos]
  -- an interval longer than the timeout still gives one attempt
  by_cases h : c.requestTimeout / c.pollInterval = 0
  · rw [h, Nat.min_zero, Nat.max_zero, Nat.one_mul]
    exact Nat.le_max_right ..
  · have some : 1 ≤ min (2 ^ 32 - 1) (c.requestTimeout / c.pollInterval) :=
      Nat.le_min.mpr ⟨by decide, Nat.pos_of_ne_zero h⟩
    rw [Nat.max_eq_right some]
    calc min (2 ^ 32 - 1) (c.requestTimeout / c.pollInterval) * c.pollInterval
      _ ≤ c.requestTimeout / c.pollInterval * c.pollInterval :=
        Nat.mul_le_mul_right _ (Nat.min_le_right ..)
      _ ≤ c.requestTimeout := fits
      _ ≤ max c.requestTimeout c.pollInterval := Nat.le_max_left ..

/-- One more attempt would take too long, unless there are as many attempts as can be counted. -/
lemma lt_succ_pollAttempts_mul (h : c.requestTimeout / c.pollInterval < 2 ^ 32) :
    c.requestTimeout < (c.pollAttempts + 1) * c.pollInterval := by
  have most : c.requestTimeout / c.pollInterval ≤ c.pollAttempts := by
    rw [pollAttempts_eq pos, Nat.min_eq_right (Nat.le_sub_one_of_lt h)]
    exact Nat.le_max_right ..
  calc c.requestTimeout
    _ < (c.requestTimeout / c.pollInterval + 1) * c.pollInterval := by
      rw [Nat.mul_comm]
      exact Nat.lt_mul_div_succ _ pos
    _ ≤ (c.pollAttempts + 1) * c.pollInterval :=
      Nat.mul_le_mul_right _ (Nat.succ_le_succ most)

end

/-- The number of attempts in machine words: times have 128 bits, and the number is cut to 32. -/
def pollAttemptsInWords (requestTimeout pollInterval : BitVec 128) : BitVec 32 :=
  let attempts := requestTimeout / (if pollInterval < 1 then 1 else pollInterval)
  (if attempts < 1 then 1 else if 0xFFFFFFFF < attempts then 0xFFFFFFFF else attempts).setWidth 32

lemma toNat_pollAttemptsInWords (requestTimeout pollInterval : BitVec 128) :
    (pollAttemptsInWords requestTimeout pollInterval).toNat =
      max 1 (min 0xFFFFFFFF (requestTimeout.toNat / max 1 pollInterval.toNat)) := by
  have one : (1 : BitVec 128).toNat = 1 := rfl
  have most : (0xFFFFFFFF : BitVec 128).toNat = 0xFFFFFFFF := rfl
  have divisor : (if pollInterval < 1 then 1 else pollInterval).toNat =
      max 1 pollInterval.toNat := by
    simp only [apply_ite BitVec.toNat, BitVec.lt_def, one]
    grind
  rw [pollAttemptsInWords, ← divisor, ← BitVec.toNat_udiv]
  generalize requestTimeout / _ = attempts
  have clamped : (if attempts < 1 then 1 else if 0xFFFFFFFF < attempts then 0xFFFFFFFF
      else attempts).toNat = max 1 (min 0xFFFFFFFF attempts.toNat) := by
    simp only [apply_ite BitVec.toNat, BitVec.lt_def, one, most]
    grind
  rw [BitVec.toNat_setWidth, clamped]
  exact Nat.mod_eq_of_lt (by omega)

end Config

end OnceProxy
