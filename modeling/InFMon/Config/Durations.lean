import InFMon.Config.Validate

/-! # Durations as validated and as used

`parse_duration_str` of `config/validate.rs` reads a duration in milliseconds, and `parse_duration` of
`lifecycle.rs` reads it again for use. They agree, in every build and without an overflow, exactly on the
strings whose duration in milliseconds has 64 bits. -/

namespace InFMon.Frontend

open Checks

/-! ### Products and durations -/

/-- `overflow-checks` of the profile that a build uses. -/
inductive OverflowChecks where
  | off
  | on
  deriving DecidableEq, Repr

/-- `*` of `u64`: an overflow wraps around, or panics if it is checked for. -/
def OverflowChecks.mul (checks : OverflowChecks) (a b : UInt64) : Option UInt64 :=
  match checks with
  | .off => some (a * b)
  | .on => if a.toNat * b.toNat < 2 ^ 64 then some (a * b) else none

/-- `std::time::Duration`. -/
structure Duration where
  secs : UInt64
  nanos : UInt32
  nanos_lt : nanos.toNat < 1000000000
  deriving DecidableEq, Repr

namespace Duration

/-- `Duration::from_secs`. -/
def fromSecs (secs : UInt64) : Duration := ⟨secs, 0, by decide⟩

/-- The milliseconds below a second in nanoseconds, without an overflow. -/
theorem toNat_submillis (ms : UInt64) :
    ((ms % 1000).toUInt32 * 1000000).toNat = ms.toNat % 1000 * 1000000 := by
  rw [UInt32.toNat_mul, UInt64.toNat_toUInt32, UInt64.toNat_mod]
  have hlt : ms.toNat % 1000 < 1000 := Nat.mod_lt _ (by decide)
  have h1000 : (1000 : UInt64).toNat = 1000 := rfl
  have hmillion : (1000000 : UInt32).toNat = 1000000 := rfl
  rw [h1000, hmillion]
  omega

/-- `Duration::from_millis`. -/
def fromMillis (ms : UInt64) : Duration :=
  ⟨ms / 1000, (ms % 1000).toUInt32 * 1000000, by rw [toNat_submillis]; omega⟩

/-- `Duration::as_millis`. -/
def asMillis (d : Duration) : ℕ := d.secs.toNat * 1000 + d.nanos.toNat / 1000000

/-- Seconds in milliseconds. -/
theorem asMillis_fromSecs (secs : UInt64) : (fromSecs secs).asMillis = secs.toNat * 1000 := by
  simp [asMillis, fromSecs]

/-- Milliseconds are kept. -/
theorem asMillis_fromMillis (ms : UInt64) : (fromMillis ms).asMillis = ms.toNat := by
  have hsecs : (fromMillis ms).secs.toNat = ms.toNat / 1000 := UInt64.toNat_div ms 1000
  have hnanos : (fromMillis ms).nanos.toNat = ms.toNat % 1000 * 1000000 := toNat_submillis ms
  unfold asMillis
  rw [hsecs, hnanos, Nat.mul_div_cancel _ (by decide)]
  exact Nat.div_add_mod' ms.toNat 1000

end Duration

/-! ### The two parsers -/

/-- `parse_duration_str` in a build. -/
def parseDurationStrIn (checks : OverflowChecks) (s : String) : Option (Option UInt64) :=
  let s := trim s.toList
  match stripSuffix ['m', 's'] s with
  | some ms => some (parseU64 (trim ms))
  | none =>
    match stripSuffix ['h'] s with
    | some h => (parseU64 (trim h)).mapM (checks.mul · 3600000)
    | none =>
      match stripSuffix ['m'] s with
      | some m => (parseU64 (trim m)).mapM (checks.mul · 60000)
      | none =>
        match stripSuffix ['s'] s with
        | some secs => (parseU64 (trim secs)).mapM (checks.mul · 1000)
        | none => some (if s.all Char.isDigit && !s.isEmpty then parseU64 s else none)

/-- `parse_duration` in a build. -/
def parseDuration (checks : OverflowChecks) (s : String) : Option (Option Duration) :=
  let s := trim s.toList
  match stripSuffix ['m', 's'] s with
  | some ms => some ((parseU64 (trim ms)).map Duration.fromMillis)
  | none =>
    match stripSuffix ['h'] s with
    | some h => (parseU64 (trim h)).mapM fun v => (checks.mul v 3600).map Duration.fromSecs
    | none =>
      match stripSuffix ['m'] s with
      | some m => (parseU64 (trim m)).mapM fun v => (checks.mul v 60).map Duration.fromSecs
      | none =>
        match stripSuffix ['s'] s with
        | some secs => some ((parseU64 (trim secs)).map Duration.fromSecs)
        -- no digits at all are no number either
        | none => some (if s.all Char.isDigit then (parseU64 s).map Duration.fromMillis else none)

/-! ### What a string denotes -/

/-- The units of a duration. -/
inductive DurationUnit where
  | ms
  | h
  | m
  | s
  deriving DecidableEq, Repr

namespace DurationUnit

/-- A unit in milliseconds. -/
def millis : DurationUnit → UInt64
  | .ms => 1
  | .h => 3600000
  | .m => 60000
  | .s => 1000

/-- A number of units as the duration that is used. -/
def duration (checks : OverflowChecks) (v : UInt64) : DurationUnit → Option Duration
  | .ms => some (.fromMillis v)
  | .h => (checks.mul v 3600).map .fromSecs
  | .m => (checks.mul v 60).map .fromSecs
  | .s => some (.fromSecs v)

end DurationUnit

/-- The number and the unit of a duration. -/
def splitDuration (s : String) : Option (UInt64 × DurationUnit) :=
  let s := trim s.toList
  match stripSuffix ['m', 's'] s with
  | some ms => (parseU64 (trim ms)).map (·, .ms)
  | none =>
    match stripSuffix ['h'] s with
    | some h => (parseU64 (trim h)).map (·, .h)
    | none =>
      match stripSuffix ['m'] s with
      | some m => (parseU64 (trim m)).map (·, .m)
      | none =>
        match stripSuffix ['s'] s with
        | some secs => (parseU64 (trim secs)).map (·, .s)
        | none => if s.all Char.isDigit then (parseU64 s).map (·, .ms) else none

/-- A product with one never overflows. -/
theorem OverflowChecks.mul_one (checks : OverflowChecks) (v : UInt64) : checks.mul v 1 = some v := by
  have hv : v * 1 = v := UInt64.mul_one v
  cases checks with
  | off => rw [mul, hv]
  | on => rw [mul, if_pos (by simpa using v.toNat_lt), hv]

/-- A product with the unit as the factor. -/
theorem mapM_map_unit {α : Type} (f : UInt64 × DurationUnit → Option α) (unit : DurationUnit)
    (x : Option UInt64) : (x.map (·, unit)).mapM f = x.mapM fun v => f (v, unit) := by
  cases x with
  | none => rfl
  | some v => rfl

/-- A value that needs no product. -/
theorem mapM_some {α β : Type} (f : α → β) (x : Option α) :
    (x.mapM fun v => some (f v)) = some (x.map f) := by
  cases x with
  | none => rfl
  | some v => rfl

/-- The validator multiplies the number by its unit in milliseconds. -/
theorem parseDurationStrIn_eq (checks : OverflowChecks) (s : String) :
    parseDurationStrIn checks s = (splitDuration s).mapM fun d => checks.mul d.1 d.2.millis := by
  unfold parseDurationStrIn splitDuration
  generalize trim s.toList = cs
  dsimp only
  cases stripSuffix ['m', 's'] cs with
  | some ms =>
    simp only [mapM_map_unit, DurationUnit.millis, OverflowChecks.mul_one]
    rw [mapM_some, Option.map_id']
  | none =>
    cases stripSuffix ['h'] cs with
    | some h => simp only [mapM_map_unit, DurationUnit.millis]
    | none =>
      cases stripSuffix ['m'] cs with
      | some m => simp only [mapM_map_unit, DurationUnit.millis]
      | none =>
        cases stripSuffix ['s'] cs with
        | some secs => simp only [mapM_map_unit, DurationUnit.millis]
        | none =>
          cases cs with
          | nil => rfl
          | cons c cs =>
            rw [List.isEmpty_cons, Bool.not_false, Bool.and_true]
            dsimp only
            split
            · simp only [mapM_map_unit, DurationUnit.millis, OverflowChecks.mul_one]
              rw [mapM_some, Option.map_id']
            · rfl

/-- The other parser makes a duration of the number and its unit. -/
theorem parseDuration_eq (checks : OverflowChecks) (s : String) :
    parseDuration checks s = (splitDuration s).mapM fun d => d.2.duration checks d.1 := by
  unfold parseDuration splitDuration
  generalize trim s.toList = cs
  dsimp only
  cases stripSuffix ['m', 's'] cs with
  | some ms => simp only [mapM_map_unit, DurationUnit.duration, mapM_some]
  | none =>
    cases stripSuffix ['h'] cs with
    | some h => simp only [mapM_map_unit, DurationUnit.duration]
    | none =>
      cases stripSuffix ['m'] cs with
      | some m => simp only [mapM_map_unit, DurationUnit.duration]
      | none =>
        cases stripSuffix ['s'] cs with
        | some secs => simp only [mapM_map_unit, DurationUnit.duration, mapM_some]
        | none =>
          dsimp only
          split
          · simp only [mapM_map_unit, DurationUnit.duration, mapM_some]
          · rfl

/-- Without checks the validator is the one that `validate_config` uses. -/
theorem parseDurationStrIn_off (s : String) :
    parseDurationStrIn .off s = some (parseDurationStr s) := by
  unfold parseDurationStrIn parseDurationStr
  generalize trim s.toList = cs
  dsimp only
  cases stripSuffix ['m', 's'] cs with
  | some ms => rfl
  | none =>
    cases stripSuffix ['h'] cs with
    | some h => exact mapM_some (· * 3600000) (parseU64 (trim h))
    | none =>
      cases stripSuffix ['m'] cs with
      | some m => exact mapM_some (· * 60000) (parseU64 (trim m))
      | none =>
        cases stripSuffix ['s'] cs with
        | some secs => exact mapM_some (· * 1000) (parseU64 (trim secs))
        | none => rfl

/-! ### Agreement -/

/-- In every build both parsers return, accept the string or not, and mean the same milliseconds. -/
def DurationsAgree (s : String) : Prop :=
  ∀ checks, ∃ v d, parseDurationStrIn checks s = some v ∧ parseDuration checks s = some d ∧
    v.map UInt64.toNat = d.map Duration.asMillis

/-- The duration has 64 bits in milliseconds. -/
def DurationFits (s : String) : Prop :=
  ∀ v unit, splitDuration s = some (v, unit) → v.toNat * unit.millis.toNat < 2 ^ 64

/-- A product that fits does not depend on the build. -/
theorem OverflowChecks.mul_of_lt (checks : OverflowChecks) {a b : UInt64}
    (h : a.toNat * b.toNat < 2 ^ 64) : checks.mul a b = some (a * b) := by
  cases checks with
  | off => rfl
  | on => rw [mul, if_pos h]

/-- If the milliseconds fit, the duration that is used has as many. -/
theorem DurationUnit.asMillis_of_fits (checks : OverflowChecks) {v : UInt64} {unit : DurationUnit}
    (h : v.toNat * unit.millis.toNat < 2 ^ 64) :
    ∃ d, unit.duration checks v = some d ∧ d.asMillis = v.toNat * unit.millis.toNat := by
  -- a product in seconds is smaller than the one in milliseconds
  have hsmall {k : UInt64} (hk : k.toNat * 1000 = unit.millis.toNat) :
      checks.mul v k = some (v * k) ∧
        (Duration.fromSecs (v * k)).asMillis = v.toNat * unit.millis.toNat := by
    have hlt : v.toNat * k.toNat < 2 ^ 64 := by
      rw [← hk, ← Nat.mul_assoc] at h
      omega
    refine ⟨checks.mul_of_lt hlt, ?_⟩
    rw [Duration.asMillis_fromSecs, UInt64.toNat_mul, Nat.mod_eq_of_lt hlt, Nat.mul_assoc, hk]
  cases unit with
  | ms => exact ⟨.fromMillis v, rfl, by simp [Duration.asMillis_fromMillis, millis]⟩
  | h =>
    obtain ⟨hmul, hmillis⟩ := hsmall (k := 3600) rfl
    exact ⟨_, by rw [duration, hmul, Option.map_some], hmillis⟩
  | m =>
    obtain ⟨hmul, hmillis⟩ := hsmall (k := 60) rfl
    exact ⟨_, by rw [duration, hmul, Option.map_some], hmillis⟩
  | s => exact ⟨.fromSecs v, rfl, Duration.asMillis_fromSecs v⟩

/-- The parsers agree on a string when its milliseconds have 64 bits. -/
theorem durationsAgree_iff (s : String) : DurationsAgree s ↔ DurationFits s := by
  constructor
  · intro h v unit hsplit
    -- the build that checks for overflows has found none
    obtain ⟨ms, -, hms, -⟩ := h .on
    rw [parseDurationStrIn_eq, hsplit] at hms
    by_contra hlarge
    have hpanic : (some (v, unit)).mapM (fun d => OverflowChecks.on.mul d.1 d.2.millis) = none := by
      have hnone : OverflowChecks.on.mul v unit.millis = none := if_neg hlarge
      exact congrArg (Option.map some) hnone
    rw [hpanic] at hms
    cases hms
  · intro h checks
    rw [parseDurationStrIn_eq, parseDuration_eq]
    cases hsplit : splitDuration s with
    | none => exact ⟨none, none, rfl, rfl, rfl⟩
    | some d =>
      have hfits := h d.1 d.2 hsplit
      obtain ⟨used, hused, hmillis⟩ := DurationUnit.asMillis_of_fits checks hfits
      refine ⟨some (d.1 * d.2.millis), some used, ?_, ?_, ?_⟩
      · exact congrArg (Option.map some) (checks.mul_of_lt hfits)
      · exact congrArg (Option.map some) hused
      · rw [Option.map_some, Option.map_some, hmillis, UInt64.toNat_mul, Nat.mod_eq_of_lt hfits]

/-- A duration that fits is validated in the same way in every build. -/
theorem DurationFits.parseDurationStrIn_eq {s : String} (h : DurationFits s)
    (checks : OverflowChecks) : parseDurationStrIn checks s = some (parseDurationStr s) := by
  rw [← parseDurationStrIn_off, Frontend.parseDurationStrIn_eq, Frontend.parseDurationStrIn_eq]
  cases hsplit : splitDuration s with
  | none => rfl
  | some d =>
    have hmul : checks.mul d.1 d.2.millis = OverflowChecks.off.mul d.1 d.2.millis :=
      checks.mul_of_lt (h d.1 d.2 hsplit)
    exact congrArg (Option.map some) hmul

/-- A duration that is validated and fits is used as it is. -/
theorem DurationFits.used {s : String} (h : DurationFits s) {ms : UInt64}
    (hms : parseDurationStr s = some ms) (checks : OverflowChecks) :
    ∃ d, parseDuration checks s = some (some d) ∧ d.asMillis = ms.toNat := by
  obtain ⟨v, used, hv, hused, hmillis⟩ := (durationsAgree_iff s).mpr h checks
  obtain rfl : v = some ms := by
    rw [h.parseDurationStrIn_eq, hms] at hv
    exact (Option.some.inj hv).symm
  cases used with
  | none => cases hmillis
  | some d => exact ⟨d, hused, (Option.some.inj hmillis).symm⟩

/-! ### The durations in use -/

/-- `FrontendConfig::default`. -/
def FrontendConfig.default : FrontendConfig where
  pollingIntervalMs := 1000
  startupTimeout := "5s"
  shutdownGraceMs := 2000

/-- `ExporterConfig`. -/
structure ExporterConfig where
  kind : String
  name : String
  queueDepth : ℕ
  exportTimeout : Duration
  extra : String → Option String

/-- The time that `start` waits for the back end. -/
def startupTimeout (checks : OverflowChecks) (config : Config) : Option Duration :=
  (parseDuration checks (config.frontend.getD .default).startupTimeout).map fun d =>
    d.getD (.fromSecs 5)

/-- `entry_to_exporter_config`, with `serde_yaml::to_string`. -/
def entryToExporterConfig (checks : OverflowChecks) (yamlToString : YamlValue → Option String)
    (entry : ExporterEntry) : Option ExporterConfig :=
  let extra := fun k => (entry.extra k).map fun v =>
    match v with
    | .string s => s
    | value => String.ofList (trim ((yamlToString value).getD "").toList)
  (parseDuration checks entry.exportTimeout).map fun d =>
    { kind := entry.kind
      name := entry.name
      queueDepth := entry.queueDepth
      exportTimeout := d.getD (.fromMillis 800)
      extra := extra }

/-- A duration that is read and not zero is valid. -/
theorem validateDuration_ok_iff {value : String} {invalid zero : ValidationError} :
    validateDuration value invalid zero = .ok () ↔
      ∃ ms, parseDurationStr value = some ms ∧ ms ≠ 0 := by
  unfold validateDuration
  cases parseDurationStr value with
  | none => simp
  | some ms => simp [reject_ok_iff]

/-- The exporters of a valid configuration are valid. -/
theorem validateExporter_of_validateExporters {entries : List ExporterEntry} {i : ℕ}
    {names : List String} (h : validateExporters i names entries = .ok ()) :
    ∀ entry ∈ entries, ∃ j, validateExporter entry j = .ok () := by
  induction entries generalizing i names with
  | nil => simp
  | cons entry entries ih =>
    simp only [validateExporters, bind_ok_iff] at h
    obtain ⟨hentry, -, hentries⟩ := h
    intro e he
    rcases List.mem_cons.mp he with rfl | he
    · exact ⟨i, hentry⟩
    · exact ih hentries e he

/-- The timeout of a valid exporter is a positive duration. -/
theorem exportTimeout_of_validateConfig {config : Config} (h : validateConfig config = .ok ())
    {entry : ExporterEntry} (hentry : entry ∈ config.exporters.getD []) :
    ∃ ms, parseDurationStr entry.exportTimeout = some ms ∧ ms ≠ 0 := by
  simp only [validateConfig, bind_ok_iff] at h
  obtain ⟨-, -, -, hexporters⟩ := h
  cases hnone : config.exporters with
  | none => simp [hnone] at hentry
  | some entries =>
    rw [hnone] at hexporters hentry
    obtain ⟨j, hvalid⟩ := validateExporter_of_validateExporters hexporters entry hentry
    simp only [validateExporter, bind_ok_iff] at hvalid
    obtain ⟨-, -, -, -, -, -, hduration, -⟩ := hvalid
    exact validateDuration_ok_iff.mp hduration

/-- The startup timeout of a valid configuration is a positive duration. -/
theorem startupTimeout_of_validateConfig {config : Config} (h : validateConfig config = .ok ()) :
    ∃ ms, parseDurationStr (config.frontend.getD .default).startupTimeout = some ms ∧ ms ≠ 0 := by
  simp only [validateConfig, bind_ok_iff] at h
  obtain ⟨hfrontend, -⟩ := h
  cases hnone : config.frontend with
  -- the default is not validated, but is five seconds
  | none => exact ⟨5000, by decide +kernel, by decide⟩
  | some cfg =>
    rw [hnone] at hfrontend
    change validateFrontend cfg = .ok () at hfrontend
    simp only [validateFrontend, bind_ok_iff] at hfrontend
    exact validateDuration_ok_iff.mp hfrontend.2.2

/-- **Durations are used as validated.** The two parsers agree on a string, in every build and without an
overflow, exactly when its milliseconds fit in 64 bits. If they fit, a valid configuration with this
timeout is used with the positive duration that was validated. -/
theorem durations_agree_exactly (s : String) :
    (DurationsAgree s ↔ DurationFits s) ∧
    (DurationFits s → ∀ (checks : OverflowChecks) (config : Config),
      validateConfig config = .ok () →
      ((config.frontend.getD .default).startupTimeout = s →
        ∃ ms d, parseDurationStr s = some ms ∧ 0 < ms.toNat ∧
          startupTimeout checks config = some d ∧ d.asMillis = ms.toNat) ∧
      ∀ yamlToString, ∀ entry ∈ config.exporters.getD [], entry.exportTimeout = s →
        ∃ ms cfg, parseDurationStr s = some ms ∧ 0 < ms.toNat ∧
          entryToExporterConfig checks yamlToString entry = some cfg ∧
          cfg.exportTimeout.asMillis = ms.toNat) := by
  have hpos {ms : UInt64} (h : ms ≠ 0) : 0 < ms.toNat :=
    Nat.pos_of_ne_zero fun hzero => h (UInt64.toNat_inj.mp hzero)
  refine ⟨durationsAgree_iff s, fun hfits checks config hvalid => ⟨?_, ?_⟩⟩
  · rintro rfl
    obtain ⟨ms, hms, hne⟩ := startupTimeout_of_validateConfig hvalid
    obtain ⟨d, hd, hmillis⟩ := hfits.used hms checks
    refine ⟨ms, d, hms, hpos hne, ?_, hmillis⟩
    rw [startupTimeout, hd, Option.map_some, Option.getD_some]
  · rintro yamlToString entry hentry rfl
    obtain ⟨ms, hms, hne⟩ := exportTimeout_of_validateConfig hvalid hentry
    obtain ⟨d, hd, hmillis⟩ := hfits.used hms checks
    have hused : ∃ cfg, entryToExporterConfig checks yamlToString entry = some cfg ∧
        cfg.exportTimeout = d :=
      ⟨_, by rw [entryToExporterConfig, hd, Option.map_some], rfl⟩
    obtain ⟨cfg, hcfg, rfl⟩ := hused
    exact ⟨ms, cfg, hms, hpos hne, hcfg, hmillis⟩

/-- A configuration of a startup timeout. -/
def configWithTimeout (startupTimeout : String) : Config where
  frontend := some { FrontendConfig.default with startupTimeout := startupTimeout }
  flowRules := []
  exporters := none
  logging := none

/-- Two minutes are waited for two minutes. -/
theorem durations_agree_two_minutes : ∃ ms d, parseDurationStr "2m" = some ms ∧ 0 < ms.toNat ∧
    startupTimeout .off (configWithTimeout "2m") = some d ∧ d.asMillis = ms.toNat := by
  have hvalid : validateConfig (configWithTimeout "2m") = .ok () := by decide +kernel
  have hfits : DurationFits "2m" := by
    intro v unit hsplit
    have htwo : splitDuration "2m" = some (2, .m) := by decide +kernel
    rw [htwo, Option.some.injEq, Prod.mk.injEq] at hsplit
    obtain ⟨rfl, rfl⟩ := hsplit
    decide
  exact ((durations_agree_exactly "2m").2 hfits .off (configWithTimeout "2m") hvalid).1 rfl

/-- Some 585 million years are validated as 384 milliseconds, or with a panic, and waited for in full. -/
theorem long_timeout_validated_as_short :
    let s := "18446744073709552s"
    validateConfig (configWithTimeout s) = .ok () ∧ parseDurationStr s = some 384 ∧
    (startupTimeout .off (configWithTimeout s)).map Duration.asMillis = some 18446744073709552000 ∧
    parseDurationStrIn .on s = none ∧ ¬ DurationsAgree s := by
  intro s
  have hpanic : parseDurationStrIn .on s = none := by decide +kernel
  refine ⟨by decide +kernel, by decide +kernel, by decide +kernel, hpanic, fun h => ?_⟩
  obtain ⟨ms, -, hms, -⟩ := h .on
  rw [hpanic] at hms
  cases hms

end InFMon.Frontend
