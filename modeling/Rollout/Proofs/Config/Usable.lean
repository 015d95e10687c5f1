import Rollout.Proofs.Config.Written
/-!
# Usable configurations

A configuration is usable when it meets six conditions, and a text is accepted exactly when what it
writes, filled in, is usable. Otherwise the first condition that is not met is reported. Of an
accepted configuration every number reaches the lock service and the timers as it was written.
-/

namespace Rollout

theorem Duration.millis_ofSecs (n : UInt64) : (ofSecs n).millis = 1000 * n.toNat := by
  simp only [millis, ofSecs]
  omega

namespace Config

inductive Condition where
  | frequency
  | retry
  | outlasting
  | range
  | owner
  | timeout
  deriving DecidableEq, Repr

namespace Condition

/-- The conditions as they are checked. -/
def order : List Condition := [.frequency, .retry, .outlasting, .range, .owner, .timeout]

/-- The setting that a condition is about. -/
def setting : Condition → String
  | .frequency => "deployment_updater.update_frequency_in_seconds"
  | .retry => "deployment_updater.lock_retry_interval_in_seconds"
  | .outlasting | .range => "deployment_updater.lock_ttl_in_seconds"
  | .owner => "deployment_updater.lock_owner"
  | .timeout => "instances_reporter.timeout_in_seconds"

end Condition

def Meets (c : Config) : Condition → Prop
  | .frequency => 1 ≤ c.updater.frequency.toNat
  | .retry => 1 ≤ c.updater.retry.toNat
  | .outlasting => c.updater.retry.toNat < c.updater.ttl.toNat
  | .range => (c.updater.ttl.toNat : Int) ≤ Int64.maxValue.toInt
  | .owner => ∃ ch ∈ c.updater.owner.toList, ¬ Text.isBlankChar ch
  | .timeout => 1 ≤ c.reporter.timeout.toNat

/-- What is reported of a condition that is not met. -/
def report (c : Config) : Condition → Violation
  | .frequency => .frequencyZero
  | .retry => .retryZero
  | .outlasting => .ttlTooShort c.updater.ttl c.updater.retry
  | .range => .ttlTooLong c.updater.ttl
  | .owner => .ownerBlank
  | .timeout => .timeoutZero

/-- The condition is not met, and all those checked before it are. -/
def Misses (c : Config) (k : Condition) : Prop :=
  ¬ c.Meets k ∧ ∃ before after, Condition.order = before ++ k :: after ∧ ∀ j ∈ before, c.Meets j

/-- The request for the lock and the intervals are those of the configuration. -/
structure Carried (c : Config) : Prop where
  ttl : c.lockSettings.lockRequest.ttlInSeconds.toInt = c.updater.ttl.toNat
  outlasts : (c.lockSettings.retry.secs.toNat : Int) <
    c.lockSettings.lockRequest.ttlInSeconds.toInt
  resource : c.lockSettings.lockRequest.resource =
    some ⟨c.updater.key, c.updater.owner, "", ResourceKind.lock.number⟩
  intervals : ∀ d ∈ [c.updateInterval, c.reporterTimeout, c.lockSettings.ttl,
    c.lockSettings.retry], 0 < d.millis

variable {c : Config}

instance : DecidablePred c.Meets
  | .frequency => inferInstanceAs (Decidable (1 ≤ _))
  | .retry => inferInstanceAs (Decidable (1 ≤ _))
  | .outlasting => inferInstanceAs (Decidable (_ < _))
  | .range => inferInstanceAs (Decidable (_ ≤ _))
  | .owner => inferInstanceAs (Decidable (∃ ch ∈ _, ¬ Text.isBlankChar ch = true))
  | .timeout => inferInstanceAs (Decidable (1 ≤ _))

private theorem eq_zero_iff_not_pos {n : UInt64} : n = 0 ↔ ¬ 1 ≤ n.toNat := by
  rw [← UInt64.toNat_inj, UInt64.toNat_zero]
  omega

theorem violation?_eq (c : Config) :
    c.violation? = (Condition.order.find? fun k => ¬ c.Meets k).map c.report := by
  have hfrequency : c.updater.frequency = 0 ↔ ¬ c.Meets .frequency := eq_zero_iff_not_pos
  have hretry : c.updater.retry = 0 ↔ ¬ c.Meets .retry := eq_zero_iff_not_pos
  have houtlasting : c.updater.ttl ≤ c.updater.retry ↔ ¬ c.Meets .outlasting := by
    rw [Meets, UInt64.le_iff_toNat_le, Nat.not_lt]
  have hrange : Int64.maxValue.toNatClampNeg < c.updater.ttl.toNat ↔ ¬ c.Meets .range := by
    rw [Meets, Int.not_le]
    exact Int.ofNat_lt.symm
  have howner : Text.isBlank c.updater.owner ↔ ¬ c.Meets .owner := by
    simp [Meets, Text.isBlank]
  have htimeout : c.reporter.timeout = 0 ↔ ¬ c.Meets .timeout := eq_zero_iff_not_pos
  have hfind (k : Condition) (ks : List Condition) :
      ((k :: ks).find? fun k => ¬ c.Meets k).map c.report =
        if ¬ c.Meets k then some (c.report k)
        else (ks.find? fun k => ¬ c.Meets k).map c.report := by
    by_cases hk : c.Meets k <;> simp [hk]
  simp only [violation?, hfrequency, hretry, houtlasting, hrange, howner, htimeout,
    Condition.order, hfind, List.find?_nil, Option.map_none, report]

theorem violation?_eq_none_iff : c.violation? = none ↔ ∀ k, c.Meets k := by
  rw [violation?_eq, Option.map_eq_none_iff, List.find?_eq_none]
  constructor
  · intro h k
    simpa using h k (by cases k <;> decide)
  · intro h k _
    simpa using h k

theorem violation?_eq_some_iff {v : Violation} :
    c.violation? = some v ↔ ∃ k, c.Misses k ∧ c.report k = v := by
  simp only [violation?_eq, Option.map_eq_some_iff, List.find?_eq_some_iff_append, Misses,
    decide_eq_true_eq, Bool.not_eq_true', decide_eq_false_iff_not, Decidable.not_not]

-- Four conditions are not met, and the first of them is reported.
example : violation? ⟨"", ⟨1, " ", "", 0, 0, true⟩, none, ⟨"", 0⟩⟩ = some .retryZero := by decide

theorem message_report (k : Condition) :
    ∃ rest, (c.report k).message = k.setting ++ rest := by
  have hopened : "deployment_updater.lock_ttl_in_seconds (" =
      "deployment_updater.lock_ttl_in_seconds" ++ " (" := by decide +kernel
  cases k with
  | frequency | retry | timeout =>
    exact ⟨" must be greater than 0", by simp only [report]; decide +kernel⟩
  | outlasting | range =>
    dsimp only [report, Condition.setting]
    unfold Violation.message
    dsimp only [toString]
    rw [hopened]
    simp only [String.append_assoc]
    exact ⟨_, rfl⟩
  | owner =>
    exact ⟨" must not be empty", by simp only [report]; decide +kernel⟩

theorem ttl_lockRequest (h : c.Meets .range) :
    c.lockSettings.lockRequest.ttlInSeconds.toInt = c.updater.ttl.toNat := by
  have h : (c.updater.ttl.toNat : Int) ≤ 9223372036854775807 := h
  have hcut : min c.updater.ttl.toNat Int64.maxValue.toNatClampNeg = c.updater.ttl.toNat :=
    Nat.min_eq_left (Int.ofNat_le.mp h)
  change (Int64.ofNat (min c.updater.ttl.toNat Int64.maxValue.toNatClampNeg)).toInt = _
  rw [hcut]
  exact Int64.toInt_ofNat_of_lt (by omega)

theorem carried_of_meets (h : ∀ k, c.Meets k) : c.Carried := by
  have houtlasting : c.updater.retry.toNat < c.updater.ttl.toNat := h .outlasting
  have httl := ttl_lockRequest (h .range)
  refine ⟨httl, ?_, rfl, ?_⟩
  · rw [httl]
    exact Int.ofNat_lt.mpr houtlasting
  · simp only [List.forall_mem_cons, List.not_mem_nil, false_implies, implies_true, and_true]
    have hpos {n : UInt64} (hn : 1 ≤ n.toNat) : 0 < (Duration.ofSecs n).millis := by
      rw [Duration.millis_ofSecs]
      omega
    exact ⟨hpos (h .frequency), hpos (h .timeout), hpos (by omega), hpos (h .retry)⟩

variable {env : Environment} {text : String}

theorem parse_eq_malformed_iff :
    parse env text = .error .malformed ↔ ¬ ∃ w : Written, w.Of text := by
  unfold parse
  cases hdecode : decode? env text with
  | none =>
    simp only [true_iff]
    rintro ⟨w, hw⟩
    obtain ⟨c, hc⟩ := hw.exists_fills env
    cases hdecode.symm.trans (decode?_eq_some_iff.mpr ⟨w, hw, hc⟩)
  | some c =>
    obtain ⟨w, hw, -⟩ := decode?_eq_some_iff.mp hdecode
    refine ⟨fun h => ?_, fun h => absurd ⟨w, hw⟩ h⟩
    cases hviolation : c.violation? <;> simp [hviolation] at h

theorem parse_eq_ok_iff_decode? :
    parse env text = .ok c ↔ decode? env text = some c ∧ c.violation? = none := by
  unfold parse
  cases decode? env text with
  | none => simp
  | some c' =>
    cases hviolation : c'.violation? with
    | none =>
      simp only [hviolation, Except.ok.injEq, Option.some.injEq]
      exact ⟨fun h => ⟨h, h ▸ hviolation⟩, fun h => h.1⟩
    | some v =>
      simp only [hviolation, reduceCtorEq, Option.some.injEq, false_iff, not_and]
      rintro rfl hnone
      cases hnone.symm.trans hviolation

theorem parse_eq_ok_iff : parse env text = .ok c ↔
    ∃ w : Written, w.Of text ∧ w.Fills env c ∧ ∀ k, c.Meets k := by
  rw [parse_eq_ok_iff_decode?, decode?_eq_some_iff, violation?_eq_none_iff]
  simp only [← exists_and_right, and_assoc]

theorem parse_eq_invalid_iff {v : Violation} : parse env text = .error (.invalid v) ↔
    ∃ (w : Written) (c : Config) (k : Condition),
      w.Of text ∧ w.Fills env c ∧ c.Misses k ∧ c.report k = v := by
  have hinvalid : parse env text = .error (.invalid v) ↔
      ∃ c, decode? env text = some c ∧ c.violation? = some v := by
    unfold parse
    cases decode? env text with
    | none => simp
    | some c => cases hviolation : c.violation? <;> simp [hviolation]
  simp only [hinvalid, decode?_eq_some_iff, violation?_eq_some_iff]
  constructor
  · rintro ⟨c, ⟨w, hw, hc⟩, k, hk, hv⟩
    exact ⟨w, c, k, hw, hc, hk, hv⟩
  · rintro ⟨w, c, k, hw, hc, hk, hv⟩
    exact ⟨c, ⟨w, hw, hc⟩, k, hk, hv⟩

/-- No text is refused for the largest time to live: its document has no larger integer. -/
theorem parse_ne_ttlTooLong {ttl : UInt64} :
    parse env text ≠ .error (.invalid (.ttlTooLong ttl)) := by
  intro h
  obtain ⟨w, c, k, hw, hc, ⟨hmiss, -⟩, hreport⟩ := parse_eq_invalid_iff.mp h
  cases k <;> cases hreport
  apply hmiss
  rw [Meets, hc.updater.ttl]
  exact hw.ttl_le

/-- A text that leaves all of it to defaults is refused for one reason alone: the host has a name
that cannot be seen. -/
theorem meets_defaults {w : Written} (hc : w.Fills env c) (hupdater : w.updater = none)
    (htimeout : w.reporter.timeout = none) :
    (∀ k, c.Meets k) ↔
      ∀ name, env.hostname = some name → ∃ ch ∈ name.toList, ¬ Text.isBlankChar ch := by
  have hu := hc.updater
  have ht := hc.reporter.timeout
  rw [hupdater] at hu
  rw [htimeout] at ht
  have howner : c.Meets .owner ↔
      ∀ name, env.hostname = some name → ∃ ch ∈ name.toList, ¬ Text.isBlankChar ch := by
    rw [Meets, hu.owner]
    cases env.hostname with
    | none =>
      refine ⟨fun _ name hname => (by cases hname), fun _ => ⟨'d', ?_, by decide⟩⟩
      change 'd' ∈ ("deployd-" ++ env.processId).toList
      rw [String.toList_append]
      exact List.mem_append_left _ (by decide)
    | some name => simp [UpdaterConfig.Written.empty]
  rw [← howner]
  refine ⟨fun h => h .owner, fun h k => ?_⟩
  cases k with
  | owner => exact h
  | frequency => rw [Meets, hu.frequency]; decide
  | retry => rw [Meets, hu.retry]; decide
  | outlasting => rw [Meets, hu.retry, hu.ttl]; decide
  | range => rw [Meets, hu.ttl]; decide
  | timeout => rw [Meets, ht]; decide

/-- A text is accepted exactly when it is a document that, with the rest filled in, is usable. If
it is not usable, the first condition that it does not meet is reported, and the report starts with
the setting at fault. What is accepted reaches the lock service and the timers unchanged. -/
theorem parse_usable (env : Environment) (text : String) :
    (parse env text = .error .malformed ↔ ¬ ∃ w : Written, w.Of text) ∧
    (∀ c, parse env text = .ok c ↔
      ∃ w : Written, w.Of text ∧ w.Fills env c ∧ ∀ k, c.Meets k) ∧
    (∀ v, parse env text = .error (.invalid v) ↔
      ∃ (w : Written) (c : Config) (k : Condition),
        w.Of text ∧ w.Fills env c ∧ c.Misses k ∧ c.report k = v) ∧
    (∀ (c : Config) (k : Condition), ∃ rest, (c.report k).message = k.setting ++ rest) ∧
    ∀ c, parse env text = .ok c → c.Carried := by
  refine ⟨parse_eq_malformed_iff, fun c => parse_eq_ok_iff, fun v => parse_eq_invalid_iff,
    fun c k => message_report k, fun c hc => ?_⟩
  obtain ⟨w, -, -, hmeets⟩ := parse_eq_ok_iff.mp hc
  exact carried_of_meets hmeets

/-- The largest numbers that a text can write, and an owner that it does not. -/
theorem parse_usable_sample :
    let text := "data_dir = \"/d\"\n[deployment_updater]\n" ++
      "lock_ttl_in_seconds = 9223372036854775807\n" ++
      "lock_retry_interval_in_seconds = 9223372036854775806\n" ++
      "[instances_reporter]\nurl = \"u\"\n"
    ∃ c, parse ⟨none, "7"⟩ text = .ok c ∧
      c.lockSettings.lockRequest.ttlInSeconds.toInt = 9223372036854775807 ∧
      c.lockSettings.lockRequest.resource = some ⟨"cc-deployment-updater", "deployd-7", "", 1⟩ ∧
      ∃ w : Written, w.Of text ∧ w.Fills ⟨none, "7"⟩ c ∧ ∀ k, c.Meets k := by
  intro text
  obtain ⟨-, haccepts, -, -, hcarried⟩ := parse_usable ⟨none, "7"⟩ text
  let c : Config := ⟨"/d",
    ⟨5, "deployd-7", "cc-deployment-updater", 9223372036854775807, 9223372036854775806, true⟩,
    none, ⟨"u", 5⟩⟩
  have hc : parse ⟨none, "7"⟩ text = .ok c :=
    parse_eq_ok_iff_decode?.mpr ⟨by decide +kernel, by decide⟩
  exact ⟨c, hc, (hcarried c hc).ttl, (hcarried c hc).resource, (haccepts c).mp hc⟩

end Config
end Rollout
