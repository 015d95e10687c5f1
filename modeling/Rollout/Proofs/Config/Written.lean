import Rollout.Config.Reading
import Rollout.Proofs.Toml
/-!
# What a text writes of a configuration

A text writes some of the settings and leaves others to their defaults. What it writes does not
depend on where the daemon runs, and its numbers are the ones written, of any size. A configuration
is what a text writes with the rest filled in, and no number changes on the way to 64 bits.
-/

namespace Rollout

namespace Toml

def IsText (v : Toml) (s : String) : Prop := v = .string s

def IsTruth (v : Toml) (b : Bool) : Prop := v = .boolean b

def IsNumber (v : Toml) (n : Nat) : Prop := v = .integer n

def IsPort (v : Toml) (p : UInt16) : Prop := v = .integer p.toNat

end Toml

/-- What is written of an updater. -/
structure UpdaterConfig.Written where
  frequency : Option Nat
  owner : Option String
  key : Option String
  ttl : Option Nat
  retry : Option Nat
  stopOthers : Option Bool
  deriving DecidableEq, Repr

/-- What is written of a reporter. -/
structure ReporterConfig.Written where
  url : String
  timeout : Option Nat
  deriving DecidableEq, Repr

/-- What is written of a configuration. -/
structure Config.Written where
  dataDir : String
  updater : Option UpdaterConfig.Written
  locket : Option Locket
  reporter : ReporterConfig.Written
  deriving DecidableEq, Repr

/-! ## Sections -/

namespace Section

variable {α β : Type}

/-- A field is absent where nothing is written, and has a value for what is written. -/
def Spells (s : Section) (index : Nat) (name : String) (reads : Toml → β → Prop) :
    Option β → Prop
  | none => s.find? index name = none
  | some b => ∃ v, s.find? index name = some v ∧ reads v b

/-- The value is the default where nothing is written, and what is written fills it otherwise. -/
def Filled (default : α) (fills : β → α → Prop) : Option β → α → Prop
  | none, a => a = default
  | some b, a => fills b a

/-- A value is a section in which this is written. -/
def Holds (within : β → Section → Prop) (v : Toml) (b : β) : Prop :=
  ∃ s, ofToml? v = some s ∧ within b s

end Section

/-- Each field has a name in a table, and a place in an array. -/
structure UpdaterConfig.Written.In (w : UpdaterConfig.Written) (s : Section) : Prop where
  frequency : s.Spells 0 "update_frequency_in_seconds" Toml.IsNumber w.frequency
  owner : s.Spells 1 "lock_owner" Toml.IsText w.owner
  key : s.Spells 2 "lock_key" Toml.IsText w.key
  ttl : s.Spells 3 "lock_ttl_in_seconds" Toml.IsNumber w.ttl
  retry : s.Spells 4 "lock_retry_interval_in_seconds" Toml.IsNumber w.retry
  stopOthers : s.Spells 5 "stop_non_web_processes" Toml.IsTruth w.stopOthers

structure Locket.In (l : Locket) (s : Section) : Prop where
  host : s.Spells 0 "host" Toml.IsText (some l.host)
  port : s.Spells 1 "port" Toml.IsPort (some l.port)
  caFile : s.Spells 2 "ca_file" Toml.IsText (some l.caFile)
  certFile : s.Spells 3 "cert_file" Toml.IsText (some l.certFile)
  keyFile : s.Spells 4 "key_file" Toml.IsText (some l.keyFile)

structure ReporterConfig.Written.In (w : ReporterConfig.Written) (s : Section) : Prop where
  url : s.Spells 0 "url" Toml.IsText (some w.url)
  timeout : s.Spells 1 "timeout_in_seconds" Toml.IsNumber w.timeout

structure Config.Written.In (w : Config.Written) (s : Section) : Prop where
  dataDir : s.Spells 0 "data_dir" Toml.IsText (some w.dataDir)
  updater : s.Spells 1 "deployment_updater" (Section.Holds UpdaterConfig.Written.In) w.updater
  locket : s.Spells 2 "locket" (Section.Holds Locket.In) w.locket
  reporter : s.Spells 3 "instances_reporter" (Section.Holds ReporterConfig.Written.In)
    (some w.reporter)

/-- The text is a document in which this is written. -/
def Config.Written.Of (w : Config.Written) (text : String) : Prop :=
  ∃ es, Toml.parse? text = some es ∧ w.In (.named es)

/-! ## Defaults -/

namespace UpdaterConfig.Written

/-- Nothing is written of the updater. -/
def empty : UpdaterConfig.Written := ⟨none, none, none, none, none, none⟩

structure Fills (w : UpdaterConfig.Written) (owner : String) (c : UpdaterConfig) : Prop where
  frequency : c.frequency.toNat = w.frequency.getD 5
  owner : c.owner = w.owner.getD owner
  key : c.key = w.key.getD "cc-deployment-updater"
  ttl : c.ttl.toNat = w.ttl.getD 15
  retry : c.retry.toNat = w.retry.getD 1
  stopOthers : c.stopOthers = w.stopOthers.getD true

end UpdaterConfig.Written

structure ReporterConfig.Written.Fills (w : ReporterConfig.Written) (c : ReporterConfig) :
    Prop where
  url : c.url = w.url
  timeout : c.timeout.toNat = w.timeout.getD 5

/-- A section about the updater that is not there is one that leaves everything out. -/
structure Config.Written.Fills (w : Config.Written) (env : Environment) (c : Config) : Prop where
  dataDir : c.dataDir = w.dataDir
  updater : (w.updater.getD .empty).Fills (env.hostname.getD ("deployd-" ++ env.processId))
    c.updater
  locket : c.locket = w.locket
  reporter : w.reporter.Fills c.reporter

/-! ## Reading -/

namespace Toml

variable {v : Toml}

theorem text?_eq_some_iff {s : String} : v.text? = some s ↔ v.IsText s := by
  cases v <;> simp [text?, IsText]

theorem truth?_eq_some_iff {b : Bool} : v.truth? = some b ↔ v.IsTruth b := by
  cases v <;> simp [truth?, IsTruth]

theorem natural?_eq_some_iff (h : v.Fits) {n : UInt64} :
    v.natural? = some n ↔ v.IsNumber n.toNat := by
  cases h with
  | integer i _ high =>
    have high : i ≤ 9223372036854775807 := high
    simp only [natural?, IsNumber, Toml.integer.injEq]
    split
    · have hsize : (UInt64.ofNat i.toNat).toNat = i.toNat :=
        UInt64.toNat_ofNat_of_lt' (by simp only [UInt64.size]; omega)
      rw [Option.some.injEq, ← UInt64.toNat_inj, hsize]
      omega
    · simp only [reduceCtorEq, false_iff]
      omega
  | _ => simp [natural?, IsNumber]

theorem port?_eq_some_iff {p : UInt16} : v.port? = some p ↔ v.IsPort p := by
  cases v with
  | integer i =>
    have hp := p.toNat_lt
    simp only [port?, IsPort, Toml.integer.injEq]
    split
    · have hsize : (UInt16.ofNat i.toNat).toNat = i.toNat :=
        UInt16.toNat_ofNat_of_lt' (by simp only [UInt16.size]; omega)
      rw [Option.some.injEq, ← UInt16.toNat_inj, hsize]
      omega
    · simp only [reduceCtorEq, false_iff]
      omega
  | _ => simp [port?, IsPort]

end Toml

namespace Section

variable {α β : Type} {s : Section} {index : Nat} {name : String} {read : Toml → Option α} {a : α}

section Filling

variable {reads : Toml → β → Prop} (fills : β → α → Prop)

theorem required_eq_some_iff (hread : ∀ v, s.find? index name = some v →
      (read v = some a ↔ ∃ b, reads v b ∧ fills b a)) :
    s.required index name read = some a ↔
      ∃ b, s.Spells index name reads (some b) ∧ fills b a := by
  rw [required, Option.bind_eq_some_iff]
  constructor
  · rintro ⟨v, hv, ha⟩
    obtain ⟨b, hb, hfills⟩ := (hread v hv).mp ha
    exact ⟨b, ⟨v, hv, hb⟩, hfills⟩
  · rintro ⟨b, ⟨v, hv, hb⟩, hfills⟩
    exact ⟨v, hv, (hread v hv).mpr ⟨b, hb, hfills⟩⟩

theorem withDefault_eq_some_iff {default : α} (hread : ∀ v, s.find? index name = some v →
      (read v = some a ↔ ∃ b, reads v b ∧ fills b a)) :
    s.withDefault index name default read = some a ↔
      ∃ x, s.Spells index name reads x ∧ Filled default fills x a := by
  unfold withDefault
  constructor
  · intro ha
    split at ha
    · rename_i hnone
      cases ha
      exact ⟨none, hnone, rfl⟩
    · rename_i v hv
      obtain ⟨b, hb, hfills⟩ := (hread v hv).mp ha
      exact ⟨some b, ⟨v, hv, hb⟩, hfills⟩
  · rintro ⟨_ | b, hx, ha⟩
    · rw [show s.find? index name = none from hx]
      exact congrArg some ha.symm
    · obtain ⟨v, hv, hb⟩ := hx
      rw [hv]
      exact (hread v hv).mpr ⟨b, hb, ha⟩

end Filling

/-! Where a value is written as what it is, filling is nothing but taking the default. -/

section Plain

variable {reads : Toml → β → Prop} (spelling : α → β)

theorem required_plain {reads : Toml → α → Prop}
    (hread : ∀ v, read v = some a ↔ reads v a) :
    s.required index name read = some a ↔ s.Spells index name reads (some a) := by
  rw [required, Option.bind_eq_some_iff]
  exact exists_congr fun v => and_congr_right fun _ => hread v

theorem withDefault_plain (hinj : ∀ a b, spelling a = spelling b → a = b) {default : α}
    (hread : ∀ v, s.find? index name = some v → (read v = some a ↔ reads v (spelling a))) :
    s.withDefault index name default read = some a ↔
      ∃ x, s.Spells index name reads x ∧ spelling a = x.getD (spelling default) := by
  rw [withDefault_eq_some_iff (fun b a => spelling a = b)]
  · refine exists_congr fun x => and_congr_right fun _ => ?_
    cases x with
    | none => exact ⟨congrArg spelling, hinj a default⟩
    | some b => rfl
  · intro v hv
    rw [hread v hv]
    exact ⟨fun h => ⟨_, h, rfl⟩, fun ⟨_, h, heq⟩ => heq ▸ h⟩

theorem optional_plain {reads : Toml → α → Prop} {x : Option α}
    (hread : ∀ v a, read v = some a ↔ reads v a) :
    s.withDefault index name none (fun v => (read v).map some) = some x ↔
      s.Spells index name reads x := by
  rw [withDefault_eq_some_iff (fun b x => x = some b)]
  · constructor
    · rintro ⟨_ | b, hb, rfl⟩ <;> exact hb
    · intro hx
      exact ⟨x, hx, by cases x <;> rfl⟩
  · intro v _
    simp only [Option.map_eq_some_iff, hread, eq_comm]

end Plain

/-- The bound on integers passes from a value to the fields of the section that it is. -/
theorem fits_of_find? {v x : Toml} (h : v.Fits) (hs : ofToml? v = some s)
    (hx : s.find? index name = some x) : x.Fits := by
  cases h <;> cases hs
  case datetime => cases hx
  case array vs all => exact all x (List.mem_of_getElem? hx)
  case inline es all => exact Toml.fits_of_lookup all hx
  case table origin es all => exact Toml.fits_of_lookup all hx
  case tables ts all =>
    obtain ⟨es, hes, rfl⟩ := List.mem_map.mp (List.mem_of_getElem? hx)
    exact .table _ _ (all es hes)

theorem fits_of_named {es : Toml.Entries} {v : Toml} (h : Toml.AllFit es)
    (hv : (named es).find? index name = some v) : v.Fits :=
  Toml.fits_of_lookup h hv

theorem withDefault_text_iff {default t : String} :
    s.withDefault index name default Toml.text? = some t ↔
      ∃ x, s.Spells index name Toml.IsText x ∧ t = x.getD default :=
  withDefault_plain id (fun _ _ h => h) fun _ _ => Toml.text?_eq_some_iff

theorem withDefault_truth_iff {default b : Bool} :
    s.withDefault index name default Toml.truth? = some b ↔
      ∃ x, s.Spells index name Toml.IsTruth x ∧ b = x.getD default :=
  withDefault_plain id (fun _ _ h => h) fun _ _ => Toml.truth?_eq_some_iff

theorem withDefault_number_iff {v : Toml} (h : v.Fits) (hs : ofToml? v = some s) {default n : UInt64} :
    s.withDefault index name default Toml.natural? = some n ↔
      ∃ x, s.Spells index name Toml.IsNumber x ∧ n.toNat = x.getD default.toNat :=
  withDefault_plain UInt64.toNat (fun _ _ => UInt64.toNat_inj.mp) fun _ hx =>
    Toml.natural?_eq_some_iff (fits_of_find? h hs hx)

theorem Spells.getD_le {v : Toml} (h : v.Fits) (hs : ofToml? v = some s) {x : Option Nat}
    (hx : s.Spells index name Toml.IsNumber x) (default : Nat)
    (hdefault : (default : Int) ≤ Int64.maxValue.toInt) :
    (x.getD default : Int) ≤ Int64.maxValue.toInt := by
  cases x with
  | none => exact hdefault
  | some m =>
    obtain ⟨u, hu, hm⟩ := hx
    cases hm
    cases fits_of_find? h hs hu with
    | integer _ _ high => exact high

end Section

theorem UpdaterConfig.ofToml?_eq_some_iff {owner : String} {v : Toml} (h : v.Fits)
    {c : UpdaterConfig} :
    ofToml? owner v = some c ↔ ∃ w, Section.Holds Written.In v w ∧ w.Fills owner c := by
  simp only [ofToml?, Option.bind_eq_bind, Option.bind_eq_some_iff, Option.pure_def,
    Option.some.injEq]
  constructor
  · rintro ⟨s, hs, f, hf, o, ho, k, hk, t, ht, r, hr, b, hb, rfl⟩
    obtain ⟨f', hf', hf⟩ := (Section.withDefault_number_iff h hs).mp hf
    obtain ⟨o', ho', ho⟩ := Section.withDefault_text_iff.mp ho
    obtain ⟨k', hk', hk⟩ := Section.withDefault_text_iff.mp hk
    obtain ⟨t', ht', ht⟩ := (Section.withDefault_number_iff h hs).mp ht
    obtain ⟨r', hr', hr⟩ := (Section.withDefault_number_iff h hs).mp hr
    obtain ⟨b', hb', hb⟩ := Section.withDefault_truth_iff.mp hb
    exact ⟨⟨f', o', k', t', r', b'⟩, ⟨s, hs, hf', ho', hk', ht', hr', hb'⟩,
      hf, ho, hk, ht, hr, hb⟩
  · rintro ⟨w, ⟨s, hs, hw⟩, hfills⟩
    exact ⟨s, hs, _, (Section.withDefault_number_iff h hs).mpr ⟨_, hw.frequency, hfills.frequency⟩,
      _, Section.withDefault_text_iff.mpr ⟨_, hw.owner, hfills.owner⟩,
      _, Section.withDefault_text_iff.mpr ⟨_, hw.key, hfills.key⟩,
      _, (Section.withDefault_number_iff h hs).mpr ⟨_, hw.ttl, hfills.ttl⟩,
      _, (Section.withDefault_number_iff h hs).mpr ⟨_, hw.retry, hfills.retry⟩,
      _, Section.withDefault_truth_iff.mpr ⟨_, hw.stopOthers, hfills.stopOthers⟩, rfl⟩

theorem Locket.ofToml?_eq_some_iff {v : Toml} {l : Locket} :
    ofToml? v = some l ↔ Section.Holds In v l := by
  simp only [ofToml?, Option.bind_eq_bind, Option.bind_eq_some_iff, Option.pure_def,
    Option.some.injEq, Section.required_plain fun _ => Toml.text?_eq_some_iff,
    Section.required_plain fun _ => Toml.port?_eq_some_iff]
  constructor
  · rintro ⟨s, hs, _, hhost, _, hport, _, hca, _, hcert, _, hkey, rfl⟩
    exact ⟨s, hs, hhost, hport, hca, hcert, hkey⟩
  · rintro ⟨s, hs, hl⟩
    exact ⟨s, hs, _, hl.host, _, hl.port, _, hl.caFile, _, hl.certFile, _, hl.keyFile, rfl⟩

theorem ReporterConfig.ofToml?_eq_some_iff {v : Toml} (h : v.Fits) {c : ReporterConfig} :
    ofToml? v = some c ↔ ∃ w, Section.Holds Written.In v w ∧ w.Fills c := by
  simp only [ofToml?, Option.bind_eq_bind, Option.bind_eq_some_iff, Option.pure_def,
    Option.some.injEq, Section.required_plain fun _ => Toml.text?_eq_some_iff]
  constructor
  · rintro ⟨s, hs, u, hu, t, ht, rfl⟩
    obtain ⟨t', ht', ht⟩ := (Section.withDefault_number_iff h hs).mp ht
    exact ⟨⟨u, t'⟩, ⟨s, hs, hu, ht'⟩, rfl, ht⟩
  · rintro ⟨w, ⟨s, hs, hw⟩, hfills⟩
    exact ⟨s, hs, _, hw.url, _,
      (Section.withDefault_number_iff h hs).mpr ⟨_, hw.timeout, hfills.timeout⟩, by rw [← hfills.url]⟩

namespace UpdaterConfig.Written

variable {owner : String} {c : UpdaterConfig}

theorem fills_empty_iff : empty.Fills owner c ↔ c = .ofOwner owner := by
  constructor
  · rintro ⟨hfrequency, howner, hkey, httl, hretry, hstop⟩
    cases c
    rw [ofOwner, UpdaterConfig.mk.injEq]
    exact ⟨UInt64.toNat_inj.mp hfrequency, howner, hkey, UInt64.toNat_inj.mp httl,
      UInt64.toNat_inj.mp hretry, hstop⟩
  · rintro rfl
    exact ⟨rfl, rfl, rfl, rfl, rfl, rfl⟩

theorem filled_iff {x : Option Written} :
    Section.Filled (.ofOwner owner) (·.Fills owner ·) x c ↔ (x.getD .empty).Fills owner c := by
  cases x with
  | none => exact fills_empty_iff.symm
  | some w => rfl

end UpdaterConfig.Written

namespace Config

variable {env : Environment} {text : String} {es : Toml.Entries} {c : Config} {w : Written}

private theorem updater_iff (h : Toml.AllFit es) {index : Nat} {name owner : String}
    {u : UpdaterConfig} :
    (Section.named es).withDefault index name (.ofOwner owner) (UpdaterConfig.ofToml? owner) =
        some u ↔
      ∃ x, (Section.named es).Spells index name (Section.Holds UpdaterConfig.Written.In) x ∧
        (x.getD .empty).Fills owner u :=
  (Section.withDefault_eq_some_iff (UpdaterConfig.Written.Fills · owner) fun _ hv =>
    UpdaterConfig.ofToml?_eq_some_iff (Section.fits_of_named h hv)).trans
    (exists_congr fun _ => and_congr_right fun _ => UpdaterConfig.Written.filled_iff)

private theorem reporter_iff (h : Toml.AllFit es) {index : Nat} {name : String}
    {r : ReporterConfig} :
    (Section.named es).required index name ReporterConfig.ofToml? = some r ↔
      ∃ w, (Section.named es).Spells index name (Section.Holds ReporterConfig.Written.In)
        (some w) ∧ w.Fills r :=
  Section.required_eq_some_iff ReporterConfig.Written.Fills fun _ hv =>
    ReporterConfig.ofToml?_eq_some_iff (Section.fits_of_named h hv)

theorem ofEntries?_eq_some_iff (h : Toml.AllFit es) :
    ofEntries? env es = some c ↔ ∃ w : Written, w.In (.named es) ∧ w.Fills env c := by
  simp only [ofEntries?, Option.bind_eq_bind, Option.bind_eq_some_iff, Option.pure_def,
    Option.some.injEq, Section.required_plain fun _ => Toml.text?_eq_some_iff,
    Section.optional_plain fun _ _ => Locket.ofToml?_eq_some_iff, updater_iff h, reporter_iff h]
  constructor
  · rintro ⟨d, hd, u, ⟨u', hu', hu⟩, l, hl, r, ⟨r', hr', hr⟩, rfl⟩
    exact ⟨⟨d, u', l, r'⟩, ⟨hd, hu', hl, hr'⟩, rfl, hu, rfl, hr⟩
  · rintro ⟨w, hw, hfills⟩
    exact ⟨_, hw.dataDir, _, ⟨_, hw.updater, hfills.updater⟩, _, hw.locket,
      _, ⟨_, hw.reporter, hfills.reporter⟩, by rw [← hfills.dataDir, ← hfills.locket]⟩

theorem decode?_eq_some_iff :
    decode? env text = some c ↔ ∃ w : Written, w.Of text ∧ w.Fills env c := by
  rw [decode?, Option.bind_eq_some_iff]
  constructor
  · rintro ⟨es, hes, hc⟩
    obtain ⟨w, hw, hfills⟩ := (ofEntries?_eq_some_iff (Toml.allFit_of_parse? hes)).mp hc
    exact ⟨w, ⟨es, hes, hw⟩, hfills⟩
  · rintro ⟨w, ⟨es, hes, hw⟩, hfills⟩
    exact ⟨es, hes, (ofEntries?_eq_some_iff (Toml.allFit_of_parse? hes)).mpr ⟨w, hw, hfills⟩⟩

end Config

/-! ## Numbers fit -/

private theorem exists_toNat {n : Nat} (h : (n : Int) ≤ Int64.maxValue.toInt) :
    ∃ m : UInt64, m.toNat = n := by
  have h : (n : Int) ≤ 9223372036854775807 := h
  exact ⟨UInt64.ofNat n, UInt64.toNat_ofNat_of_lt' (by simp only [UInt64.size]; omega)⟩

theorem Section.Holds.exists_updater {v : Toml} {w : UpdaterConfig.Written} (h : v.Fits)
    (hw : Holds UpdaterConfig.Written.In v w) (owner : String) : ∃ c, w.Fills owner c := by
  obtain ⟨s, hs, hw⟩ := hw
  obtain ⟨frequency, hfrequency⟩ := exists_toNat (hw.frequency.getD_le h hs 5 (by decide))
  obtain ⟨ttl, httl⟩ := exists_toNat (hw.ttl.getD_le h hs 15 (by decide))
  obtain ⟨retry, hretry⟩ := exists_toNat (hw.retry.getD_le h hs 1 (by decide))
  exact ⟨⟨frequency, _, _, ttl, retry, _⟩, hfrequency, rfl, rfl, httl, hretry, rfl⟩

theorem Section.Holds.exists_reporter {v : Toml} {w : ReporterConfig.Written} (h : v.Fits)
    (hw : Holds ReporterConfig.Written.In v w) : ∃ c, w.Fills c := by
  obtain ⟨s, hs, hw⟩ := hw
  obtain ⟨timeout, htimeout⟩ := exists_toNat (hw.timeout.getD_le h hs 5 (by decide))
  exact ⟨⟨_, timeout⟩, rfl, htimeout⟩

namespace Config

variable {text : String} {w : Written}

/-- What a text writes can be filled in wherever the daemon runs: no number is too large. -/
theorem Written.Of.exists_fills (h : w.Of text) (env : Environment) : ∃ c, w.Fills env c := by
  obtain ⟨es, hes, hw⟩ := h
  have hall : Toml.AllFit es := Toml.allFit_of_parse? hes
  obtain ⟨u, hu⟩ : ∃ u, (w.updater.getD .empty).Fills
      (env.hostname.getD ("deployd-" ++ env.processId)) u := by
    cases hupdater : w.updater with
    | none => exact ⟨_, UpdaterConfig.Written.fills_empty_iff.mpr rfl⟩
    | some w' =>
      obtain ⟨v, hv, hw'⟩ := hupdater ▸ hw.updater
      exact hw'.exists_updater (Section.fits_of_named hall hv) _
  obtain ⟨v, hv, hw'⟩ := hw.reporter
  obtain ⟨r, hr⟩ := hw'.exists_reporter (Section.fits_of_named hall hv)
  exact ⟨⟨w.dataDir, u, w.locket, r⟩, rfl, hu, rfl, hr⟩

theorem Written.Of.ttl_le (h : w.Of text) :
    ((w.updater.getD .empty).ttl.getD 15 : Int) ≤ Int64.maxValue.toInt := by
  obtain ⟨es, hes, hw⟩ := h
  cases hupdater : w.updater with
  | none => decide
  | some w' =>
    obtain ⟨v, hv, s, hs, hw'⟩ := hupdater ▸ hw.updater
    exact hw'.ttl.getD_le (Section.fits_of_named (Toml.allFit_of_parse? hes) hv) hs 15 (by decide)

end Config
end Rollout
