import FirmwareSymbols.Config.Text
import FirmwareSymbols.Proofs.WrittenRecords

/-!
# Written settings are read back

The text of settings names all of them, so none keeps its default when the
text is read. What is read are the settings that were written, whatever
their values; only then are they checked. So the text of settings gives
them back exactly if they have no defect, and otherwise it is refused for
the defect that the settings have.

## Main results

* `Config.restores`: settings are read back from their written form.
* `Config.ofText_eq_ok_iff`: which texts are accepted.
* `Config.ofText_toText`: what the text of settings gives.
-/

namespace FirmwareSymbols

namespace Config

/-- Settings are read back from their written form, with or without a defect. -/
theorem restores (config : Config) : Json.Restores toJson ofJson? config := by
  have hrelease := config.release.restores
  have hbyteOrder := Json.restores_option config.byteOrder
    (fun order => by nofun) fun order _ => order.restores
  have hminTableRun := Json.restores_uint64 config.minTableRun
  have hcheckCount := Json.restores_uint64 config.checkCount
  have hmaxNameLength := Json.restores_uint64 config.maxNameLength
  have hmaxStringGap := Json.restores_uint64 config.maxStringGap
  have hknownAddresses := Json.restores_list config.knownAddresses
    fun address _ => Json.restores_uint32 address
  have hanchorNames := Json.restores_list config.anchorNames
    fun name _ => Json.restores_text name
  have hparallelScan := Json.restores_bool config.parallelScan
  have htimeBudget := Json.restores_option config.timeBudgetMillis
    (fun limit => by nofun) fun limit _ => Json.restores_uint64 limit
  constructor
  · refine Json.wellFormed_ofMembers ?_
    simp only [List.forall_mem_cons]
    exact ⟨hrelease.wellFormed, hbyteOrder.wellFormed, hminTableRun.wellFormed,
      hcheckCount.wellFormed, hmaxNameLength.wellFormed, hmaxStringGap.wellFormed,
      hknownAddresses.wellFormed, hanchorNames.wellFormed, hparallelScan.wellFormed,
      htimeBudget.wellFormed, fun _ h => absurd h List.not_mem_nil⟩
  · rw [ofJson?, toJson, Json.fields?_ofMembers]
    · simp only [Option.bind_some, List.map_cons, List.map_nil, ofFields?, Json.defaulted?,
        hrelease.read_write, hbyteOrder.read_write, hminTableRun.read_write, hcheckCount.read_write,
        hmaxNameLength.read_write, hmaxStringGap.read_write, hknownAddresses.read_write,
        hanchorNames.read_write, hparallelScan.read_write, htimeBudget.read_write,
        Option.bind_eq_bind, Option.pure_def]
    · rfl
    · decide

/-- A check fails for the first defect of the settings and for nothing else. -/
theorem validate_eq_error_iff {config : Config} {fault : Fault} :
    config.validate = .error fault ↔
      ∃ defect, config.defect? = some defect ∧ fault = .invalidConfig defect.reason := by
  rw [validate]
  cases config.defect? with
  | none => simp
  | some defect => simp [eq_comm]

/-- A text of settings is accepted if it says settings without a defect. -/
theorem ofText_eq_ok_iff {text : String} {config : Config} :
    ofText text = .ok config ↔
      (Json.parse? text).bind ofJson? = some config ∧ config.Valid := by
  rw [ofText]
  cases (Json.parse? text).bind ofJson? with
  | none => simp
  | some read =>
      rw [Option.some.injEq]
      cases hcheck : read.validate with
      | ok _ =>
          simp only [hcheck, Except.ok.injEq]
          constructor
          · rintro rfl
            exact ⟨rfl, valid_of_validate hcheck⟩
          · exact fun h => h.1
      | error fault =>
          obtain ⟨defect, hdefect, _⟩ := validate_eq_error_iff.1 hcheck
          simp only [hcheck, reduceCtorEq, false_iff]
          rintro ⟨rfl, hvalid⟩
          rw [defect?_eq_none_iff.2 hvalid] at hdefect
          cases hdefect

/-- The text of settings gives back the settings that were written if they pass the check. If they do not,
the text is refused for the same defect. -/
theorem ofText_toText (config : Config) :
    ofText config.toText = config.validate.map (fun _ => config) ∧
    ∀ fault, config.validate = .error fault ↔
      ∃ defect, config.defect? = some defect ∧ fault = .invalidConfig defect.reason := by
  refine ⟨?_, fun fault => validate_eq_error_iff⟩
  rw [ofText, toText, config.restores.parse?_text.2]
  cases hcheck : config.validate with
  | error fault => simp [hcheck, Except.map]
  | ok _ => simp [hcheck, Except.map]

end Config

end FirmwareSymbols
