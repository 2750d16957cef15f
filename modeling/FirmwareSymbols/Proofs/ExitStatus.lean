import FirmwareSymbols.CommandLine.Run
import FirmwareSymbols.Proofs.WrittenReports
import FirmwareSymbols.Proofs.WrittenSettings

/-!
# What a run of the command line answers

A run answers in three ways at once: by its exit code, by what it prints
and, if JSON is wanted, by the load address in what it prints. It fails if
it has no settings or no image to work with, or if its search fails;
otherwise it recovers a load address or none. The three answers agree with
that and so with each other, for all options, all files and all budgets.

The options change settings after these have been checked, and a run
checks them again. The second check always passes, because the options
leave alone what the check looks at.

## Main definitions

* `Options.Fails`: why a run cannot be completed.
* `Options.Recovers`: the load address, if any, that a run recovers.
* `Outcome.Tells`: an outcome says what was recovered.

## Main results

* `Options.valid_of_config`: the settings of a run have no defect.
* `Options.fails_or_recovers`: a run fails, or it tells what it recovers.
* `Options.runWithin_answers`: what a run answers.
-/

namespace FirmwareSymbols

namespace Status

theorem code_eq_zero_iff {status : Status} : status.code = 0 ↔ status = .found := by
  cases status <;> decide

theorem code_eq_one_iff {status : Status} : status.code = 1 ↔ status = .failed := by
  cases status <;> decide

theorem code_eq_two_iff {status : Status} : status.code = 2 ↔ status = .notFound := by
  cases status <;> decide

theorem eq_notFound_iff {status : Status} :
    status = .notFound ↔ status ≠ .failed ∧ status ≠ .found := by
  cases status <;> decide

end Status

/-! ## What an outcome says -/

namespace Outcome

/-- A text is a JSON object in which the load address is the number that was recovered, or no number if
none was. -/
def Announces (text : String) (load : Option UInt32) : Prop :=
  ∃ members, Json.parse? text = some (.object members) ∧
    ∀ literal, members.lookup (some "load_address") = some (.number literal) ↔
      ∃ address, load = some address ∧ literal = Nat.toDigits 10 address.toNat

/-- What an outcome says if a load address is recovered or none is. -/
structure Tells (outcome : Outcome) (json : Bool) (load : Option UInt32) : Prop where
  completed : outcome.status ≠ .failed
  found_iff : outcome.status = .found ↔ load.isSome
  announces : json = true → Announces outcome.standardOutput load

/-- A line with one written object on it announces what the object says about the load address. -/
theorem announces_line {layout : Json.Layout} (hblank : layout.Blank)
    {members : List (Option String × Json)} (hwell : (Json.object members).WellFormed)
    {load : Option UInt32}
    (hload : ∀ literal, members.lookup (some "load_address") = some (.number literal) ↔
      ∃ address, load = some address ∧ literal = Nat.toDigits 10 address.toNat) :
    Announces (lines [String.ofList (Json.write layout 0 (.object members))]) load := by
  refine ⟨members, ?_, hload⟩
  have hline : lines [String.ofList (Json.write layout 0 (.object members))] =
      String.ofList (Json.write layout 0 (.object members)) ++ "\n" := by
    simp [lines, String.join]
  rw [hline]
  exact Json.parse?_write hblank hwell (by simp [Json.isBlank])

/-- An optional address is written as a number if there is one. -/
theorem ofOption_eq_number_iff {load : Option UInt32} {literal : List Char} :
    some (Json.ofOption (fun address => .ofNat address.toNat) load) = some (.number literal) ↔
      ∃ address, load = some address ∧ literal = Nat.toDigits 10 address.toNat := by
  cases load with
  | none => simp [Json.ofOption]
  | some address => simp [Json.ofOption, Json.ofNat, eq_comm]

theorem Tells.of_found {outcome : Outcome} {json : Bool} {address : UInt32}
    (hstatus : outcome.status = .found)
    (hwritten : json = true → Announces outcome.standardOutput (some address)) :
    outcome.Tells json (some address) :=
  ⟨by simp [hstatus], iff_of_true hstatus rfl, hwritten⟩

theorem Tells.of_notFound {outcome : Outcome} {json : Bool} (hstatus : outcome.status = .notFound)
    (hwritten : json = true → Announces outcome.standardOutput none) : outcome.Tells json none :=
  ⟨by simp [hstatus], iff_of_false (by simp [hstatus]) nofun, hwritten⟩

end Outcome

/-! ## Reading files -/

/-- Why a file gives no settings. -/
inductive Files.LacksSettings (files : Files) (name : String) : Prop where
  /-- The file cannot be read. -/
  | unreadable {obstacle : Obstacle} (hfile : files name = .error obstacle)
  /-- The file is not UTF-8. -/
  | noText {contents : Array UInt8} (hfile : files name = .ok contents)
    (htext : Utf8.decode? contents.toList = none)
  /-- The text does not say settings. -/
  | noSettings {contents : Array UInt8} {text : String} (hfile : files name = .ok contents)
    (htext : Utf8.decode? contents.toList = some text)
    (hsettings : (Json.parse? text).bind Config.ofJson? = none)
  /-- The settings have a defect. -/
  | defective {contents : Array UInt8} {text : String} {config : Config}
    (hfile : files name = .ok contents) (htext : Utf8.decode? contents.toList = some text)
    (hsettings : (Json.parse? text).bind Config.ofJson? = some config) (hdefect : ¬ config.Valid)

/-- Why a file gives no image. -/
inductive Files.LacksImage (files : Files) (limit : UInt64) (name : String) : Prop where
  /-- The file cannot be read. -/
  | unreadable {obstacle : Obstacle} (hfile : files name = .error obstacle)
  /-- The file is larger than the limit. -/
  | tooLarge {contents : Array UInt8} (hfile : files name = .ok contents)
    (hlarge : limit.toNat < contents.size)

namespace Files

theorem lacksSettings_iff {files : Files} {name : String} :
    files.LacksSettings name ↔ ∃ fault, files.loadConfig name = .error fault := by
  have hrefused : ∀ text fault, Config.ofText text = .error fault →
      ∀ config, (Json.parse? text).bind Config.ofJson? = some config → ¬ config.Valid := by
    intro text fault herror config hsettings hvalid
    rw [Config.ofText_eq_ok_iff.2 ⟨hsettings, hvalid⟩] at herror
    cases herror
  constructor
  · intro hlacks
    cases hload : files.loadConfig name with
    | error fault => exact ⟨fault, rfl⟩
    | ok config =>
        exfalso
        unfold loadConfig at hload
        cases hlacks with
        | unreadable hfile => simp [hfile] at hload
        | noText hfile htext => simp [hfile, htext] at hload
        | noSettings hfile htext hsettings =>
            simp only [hfile, htext, Config.ofText_eq_ok_iff, hsettings] at hload
            cases hload.1
        | defective hfile htext hsettings hdefect =>
            simp only [hfile, htext, Config.ofText_eq_ok_iff, hsettings] at hload
            obtain ⟨hsame, hvalid⟩ := hload
            exact hdefect (Option.some.inj hsame ▸ hvalid)
  · rintro ⟨fault, hload⟩
    unfold loadConfig at hload
    cases hfile : files name with
    | error obstacle => exact .unreadable hfile
    | ok contents =>
        cases htext : Utf8.decode? contents.toList with
        | none => exact .noText hfile htext
        | some text =>
            simp only [hfile, htext] at hload
            cases hsettings : (Json.parse? text).bind Config.ofJson? with
            | none => exact .noSettings hfile htext hsettings
            | some config =>
                exact .defective hfile htext hsettings (hrefused text fault hload config hsettings)

theorem valid_of_loadConfig {files : Files} {name : String} {config : Config}
    (h : files.loadConfig name = .ok config) : config.Valid := by
  unfold loadConfig at h
  split at h
  · cases h
  · split at h
    · cases h
    · exact (Config.ofText_eq_ok_iff.1 h).2

theorem lacksImage_iff {files : Files} {limit : UInt64} {name : String} :
    files.LacksImage limit name ↔ ∃ fault, files.loadImage limit name = .error fault := by
  unfold loadImage
  constructor
  · rintro (hfile | ⟨hfile, hlarge⟩)
    · simp [hfile]
    · simp [hfile, hlarge]
  · rintro ⟨fault, hload⟩
    cases hfile : files name with
    | error obstacle => exact .unreadable hfile
    | ok contents =>
        simp only [hfile] at hload
        split at hload
        · exact .tooLarge hfile ‹_›
        · cases hload

end Files

/-! ## What a run works with -/

/-- Settings without a defect are not refused. -/
theorem Analyzer.ofConfig_eq {config : Config} (h : config.Valid) :
    ofConfig config = .ok ⟨config, h⟩ := by
  unfold ofConfig
  split
  · rename_i defect hdefect
    rw [Config.defect?_eq_none_iff.2 h] at hdefect
    cases hdefect
  · rfl

namespace Options

/-- The settings and the image that a run works with. -/
structure Reads (options : Options) (files : Files) (config : Config) (image : Image) : Prop where
  config_eq : options.config files = .ok config
  image_eq : files.loadImage options.maxFileSize options.firmware = .ok image

variable {options : Options} {files : Files} {config : Config} {image : Image}

/-- What a run works with is settled by its options and files. -/
theorem Reads.unique {config' : Config} {image' : Image} (h : options.Reads files config image)
    (h' : options.Reads files config' image') : config = config' ∧ image = image' :=
  ⟨Except.ok.inj (h.config_eq.symm.trans h'.config_eq),
    Except.ok.inj (h.image_eq.symm.trans h'.image_eq)⟩

/-- Only the file of settings can keep a run from having settings. -/
theorem exists_config_eq_error_iff :
    (∃ failure, options.config files = .error failure) ↔
      ∃ name, options.configFile = some name ∧ files.LacksSettings name := by
  unfold config
  cases options.configFile with
  | none => simp [pure, Except.pure]
  | some name =>
      simp only [Option.some.injEq, exists_eq_left', Files.lacksSettings_iff]
      cases files.loadConfig name with
      | ok base => simp [Failure.during, bind, Except.bind, pure, Except.pure]
      | error fault => simp [Failure.during, bind, Except.bind]

/-- The options change no setting that could be a defect. -/
theorem valid_override_iff : (options.override config).Valid ↔ config.Valid := Iff.rfl

/-- The settings of a run have no defect. -/
theorem valid_of_config (h : options.config files = .ok config) : config.Valid := by
  unfold Options.config at h
  cases hfile : options.configFile with
  | none =>
      simp only [hfile, pure, Except.pure, Except.ok.injEq] at h
      exact h ▸ valid_override_iff.2 (Config.valid_forRelease .v5)
  | some name =>
      cases hload : files.loadConfig name with
      | error fault => simp [hfile, hload, Failure.during, bind, Except.bind] at h
      | ok base =>
          simp only [hfile, hload, Failure.during, bind, Except.bind, pure, Except.pure,
            Except.ok.injEq] at h
          exact h ▸ valid_override_iff.2 (Files.valid_of_loadConfig hload)

/-! ## What a run recovers -/

/-- The load address that the search of a run gives: what the probe answers, or what stands in the
report of the analysis. -/
def recover (options : Options) (config : Config) (image : Image) (budget : Budget) :
    Except Fault (Option UInt32) :=
  if options.quick then
    config.quickProbe image budget config.knownAddresses
  else
    (config.analyze .probeFirst image budget).map fun report => report.bind (·.loadAddress)

/-- A run that is completed recovers a load address or none. -/
def Recovers (options : Options) (files : Files) (budget : Config → Budget)
    (load : Option UInt32) : Prop :=
  ∃ config image, options.Reads files config image ∧
    options.recover config image (budget config) = .ok load

/-- Why a run cannot be completed. -/
inductive Fails (options : Options) (files : Files) (budget : Config → Budget) : Prop where
  /-- The file of settings gives none. -/
  | settings {name : String} (hname : options.configFile = some name)
    (hlacks : files.LacksSettings name)
  /-- The firmware file gives no image. -/
  | image (hlacks : files.LacksImage options.maxFileSize options.firmware)
  /-- The search fails. -/
  | search {config : Config} {image : Image} {fault : Fault}
    (hreads : options.Reads files config image)
    (hfault : options.recover config image (budget config) = .error fault)

variable {budget : Config → Budget}

theorem Recovers.unique {load load' : Option UInt32} (h : options.Recovers files budget load)
    (h' : options.Recovers files budget load') : load = load' := by
  obtain ⟨config, image, hreads, hload⟩ := h
  obtain ⟨config', image', hreads', hload'⟩ := h'
  obtain ⟨rfl, rfl⟩ := hreads.unique hreads'
  exact Except.ok.inj (hload.symm.trans hload')

/-- A run that fails recovers nothing. -/
theorem Fails.not_recovers (h : options.Fails files budget) (load : Option UInt32) :
    ¬ options.Recovers files budget load := by
  rintro ⟨config, image, hreads, hload⟩
  cases h with
  | settings hname hlacks =>
      obtain ⟨failure, hfailure⟩ := exists_config_eq_error_iff.2 ⟨_, hname, hlacks⟩
      rw [hreads.config_eq] at hfailure
      cases hfailure
  | image hlacks =>
      obtain ⟨fault, hfault⟩ := Files.lacksImage_iff.1 hlacks
      rw [hreads.image_eq] at hfault
      cases hfault
  | search hreads' hfault =>
      obtain ⟨rfl, rfl⟩ := hreads.unique hreads'
      rw [hload] at hfault
      cases hfault

/-! ## What a search says -/

theorem tells_reportProbe (options : Options) (load : Option UInt32) :
    (options.reportProbe load).Tells options.json load := by
  have hwritten : Outcome.Announces (Outcome.lines [(Json.ofMembers
      [("load_address", .ofOption (fun address => .ofNat address.toNat) load)]).compactText])
      load := by
    refine Outcome.announces_line Json.Layout.blank_compact ?_ fun literal =>
      Outcome.ofOption_eq_number_iff
    refine Json.wellFormed_ofMembers ?_
    have hload := Json.wellFormed_ofOption fun address (_ : address ∈ load) =>
      Json.wellFormed_ofNat address.toNat
    simp [hload]
  unfold reportProbe
  cases load with
  | none =>
      cases options.json with
      | false => exact .of_notFound rfl fun h => absurd h Bool.false_ne_true
      | true => exact .of_notFound rfl fun _ => hwritten
  | some address =>
      cases options.json with
      | false => exact .of_found rfl fun h => absurd h Bool.false_ne_true
      | true => exact .of_found rfl fun _ => hwritten

theorem tells_reportAnalysis (options : Options) (report : Option Report) :
    (options.reportAnalysis report).Tells options.json (report.bind (·.loadAddress)) := by
  unfold reportAnalysis
  cases report with
  | none =>
      have hwritten : Outcome.Announces (Outcome.lines
          [(Json.ofMembers [("symbol_table", .null)]).compactText]) none := by
        refine Outcome.announces_line Json.Layout.blank_compact ?_ fun literal => ?_
        · exact Json.wellFormed_ofMembers (by simp [Json.WellFormed.null])
        · simp [List.lookup_cons]
      cases options.json with
      | false => exact .of_notFound rfl fun h => absurd h Bool.false_ne_true
      | true => exact .of_notFound rfl fun _ => hwritten
  | some report =>
      have hwritten : Outcome.Announces (Outcome.lines [report.toJson.prettyText]) report.loadAddress := by
        exact Outcome.announces_line Json.Layout.blank_pretty report.wellFormed_toJson fun literal =>
          Outcome.ofOption_eq_number_iff
      show Outcome.Tells _ _ report.loadAddress
      dsimp only
      cases hload : report.loadAddress with
      | none =>
          rw [hload] at hwritten
          cases options.json with
          | false => exact .of_notFound rfl fun h => absurd h Bool.false_ne_true
          | true => exact .of_notFound rfl fun _ => hwritten
      | some address =>
          rw [hload] at hwritten
          cases options.json with
          | false => exact .of_found rfl fun h => absurd h Bool.false_ne_true
          | true => exact .of_found rfl fun _ => hwritten

/-- A run tells what its search recovers. -/
theorem tells_of_recover {budget : Budget} {load : Option UInt32}
    (h : options.recover config image budget = .ok load) :
    ∃ outcome, options.examine config image budget = .ok outcome ∧
      outcome.Tells options.json load := by
  unfold recover at h
  unfold examine
  split at h
  · rw [if_pos ‹_›, h]
    exact ⟨_, rfl, tells_reportProbe options load⟩
  · rw [if_neg ‹_›]
    cases hreport : config.analyze .probeFirst image budget with
    | error fault => simp [hreport, Except.map] at h
    | ok report =>
        simp only [hreport, Except.map, Except.ok.injEq] at h
        exact ⟨_, rfl, h ▸ tells_reportAnalysis options report⟩

theorem examine_of_recover {budget : Budget} {fault : Fault}
    (h : options.recover config image budget = .error fault) :
    options.examine config image budget = .error fault := by
  unfold recover at h
  unfold examine
  split at h
  · rw [if_pos ‹_›, h]
    rfl
  · rw [if_neg ‹_›]
    cases hreport : config.analyze .probeFirst image budget with
    | error fault' => simpa [hreport, Except.map] using h
    | ok report => simp [hreport, Except.map] at h

/-! ## Whole runs -/

/-- A run with settings has only an image left to read, since the second check of the settings passes. -/
theorem attempt_eq_bind (h : options.config files = .ok config) (budget : Config → Budget) :
    options.attempt files budget =
      (Failure.during (some ("loading " ++ options.firmware))
        (files.loadImage options.maxFileSize options.firmware)).bind fun image =>
          Failure.during none (options.examine config image (budget config)) := by
  simp only [attempt, h, Analyzer.ofConfig_eq (valid_of_config h), bind, Except.bind, Failure.during]

/-- A run fails or tells what it recovers. -/
theorem fails_or_recovers (options : Options) (files : Files) (budget : Config → Budget) :
    (options.Fails files budget ∧ ∃ failure, options.attempt files budget = .error failure) ∨
      ∃ load outcome, options.Recovers files budget load ∧
        options.attempt files budget = .ok outcome ∧ outcome.Tells options.json load := by
  cases hconfig : options.config files with
  | error failure =>
      obtain ⟨name, hname, hlacks⟩ := exists_config_eq_error_iff.1 ⟨failure, hconfig⟩
      refine .inl ⟨.settings hname hlacks, failure, ?_⟩
      simp only [attempt, hconfig, bind, Except.bind]
  | ok config =>
      cases himage : files.loadImage options.maxFileSize options.firmware with
      | error fault =>
          refine .inl ⟨.image (Files.lacksImage_iff.2 ⟨fault, himage⟩), ?_⟩
          rw [attempt_eq_bind hconfig, himage]
          exact ⟨_, rfl⟩
      | ok image =>
          have hreads : options.Reads files config image := ⟨hconfig, himage⟩
          have hattempt : options.attempt files budget =
              Failure.during none (options.examine config image (budget config)) := by
            rw [attempt_eq_bind hconfig, himage]
            rfl
          rw [hattempt]
          cases hrecover : options.recover config image (budget config) with
          | error fault =>
              rw [examine_of_recover hrecover]
              exact .inl ⟨.search hreads hrecover, _, rfl⟩
          | ok load =>
              obtain ⟨outcome, houtcome, htells⟩ := tells_of_recover hrecover
              rw [houtcome]
              exact .inr ⟨load, outcome, ⟨config, image, hreads, hrecover⟩, rfl, htells⟩

/-- Exit code and output agree with what a run recovers, for all options, files and budgets. The run exits
with 1 and prints nothing if and only if it fails; it exits with 0 if and only if it recovers a load address,
and with 2 in all other cases. A run for JSON that does not fail prints one object; the load address in it is
a number if and only if the run exits with 0, and then it is the one that was recovered. -/
theorem runWithin_answers (options : Options) (files : Files) (budget : Config → Budget) :
    ((options.runWithin files budget).status.code = 1 ↔ options.Fails files budget) ∧
    (options.Fails files budget → (options.runWithin files budget).standardOutput = "") ∧
    ((options.runWithin files budget).status.code = 0 ↔
      ∃ load, options.Recovers files budget (some load)) ∧
    ((options.runWithin files budget).status.code = 2 ↔
      ¬ options.Fails files budget ∧ ¬ ∃ load, options.Recovers files budget (some load)) ∧
    (options.json = true → (options.runWithin files budget).status.code ≠ 1 →
      ∃ members,
        Json.parse? (options.runWithin files budget).standardOutput = some (.object members) ∧
        ((∃ literal, members.lookup (some "load_address") = some (.number literal)) ↔
          (options.runWithin files budget).status.code = 0) ∧
        ∀ load, options.Recovers files budget (some load) →
          members.lookup (some "load_address") = some (.ofNat load.toNat)) := by
  rw [Ne, Status.code_eq_zero_iff, Status.code_eq_one_iff, Status.code_eq_two_iff]
  rcases options.fails_or_recovers files budget with
    ⟨hfails, failure, hattempt⟩ | ⟨load, outcome, hrecovers, hattempt, htells⟩
  · have hrun : options.runWithin files budget =
        { status := .failed, errors := ["error: " ++ failure.message] } := by
      rw [runWithin, hattempt]
    have hnone : ¬ ∃ load, options.Recovers files budget (some load) :=
      fun ⟨load, hload⟩ => hfails.not_recovers _ hload
    rw [hrun]
    exact ⟨iff_of_true rfl hfails, fun _ => rfl, iff_of_false nofun hnone,
      iff_of_false nofun fun h => h.1 hfails, fun _ hcode => absurd rfl hcode⟩
  · have hrun : options.runWithin files budget = outcome := by rw [runWithin, hattempt]
    have hcompletes : ¬ options.Fails files budget := fun hfails => hfails.not_recovers _ hrecovers
    have hfound : (∃ load, options.Recovers files budget (some load)) ↔ outcome.status = .found := by
      rw [htells.found_iff, Option.isSome_iff_exists]
      exact ⟨fun ⟨address, h⟩ => ⟨address, hrecovers.unique h⟩,
        fun ⟨address, h⟩ => ⟨address, h ▸ hrecovers⟩⟩
    rw [hrun]
    refine ⟨iff_of_false htells.completed hcompletes, fun h => absurd h hcompletes, hfound.symm,
      ?_, ?_⟩
    · rw [hfound, Status.eq_notFound_iff, and_iff_right htells.completed, and_iff_right hcompletes]
    · intro hjson _
      obtain ⟨members, hparse, hnumber⟩ := htells.announces hjson
      refine ⟨members, hparse, ?_, fun address haddress => ?_⟩
      · rw [htells.found_iff, Option.isSome_iff_exists]
        constructor
        · rintro ⟨literal, hliteral⟩
          obtain ⟨address, haddress, _⟩ := (hnumber literal).1 hliteral
          exact ⟨address, haddress⟩
        · rintro ⟨address, haddress⟩
          exact ⟨_, (hnumber _).2 ⟨address, haddress, rfl⟩⟩
      · exact (hnumber _).2 ⟨address, hrecovers.unique haddress, rfl⟩

/-- A run whose firmware file is missing fails. -/
example : (({ firmware := "image.bin" } : Options).run fun _ => .error .missing).status.code = 1 :=
  rfl

end Options

end FirmwareSymbols
