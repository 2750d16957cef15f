import FirmwareSymbols.Proofs.Exhaustion
import FirmwareSymbols.Proofs.FirstTable
import FirmwareSymbols.Proofs.WellFormed

/-!
# What the strategies agree on

An image can be asked for its load address in three ways: by a scan, which
only correlates the two tables, by an analysis, which probes the known
addresses first, and by the probe alone. All three read the same symbol
table, and the first two the same string table. They differ in the load
address only, and there the analysis says what the probe says, or else
what the scan says.

## Main results

* `Config.readSymbols_cases`: the three outcomes of the stage that all
  three begin with.
* `Config.findLoad_probeFirst`: what the probe changes.
* `strategies_agree`: how the three answers are related.
-/

namespace FirmwareSymbols

/-! ## Reports with a probed address -/

/-- The report with the answer of a probe in the place of its load address, if the probe has found
one. -/
def Report.prefer (report : Report) : Option UInt32 → Report
  | none => report
  | some load => { report with loadAddress := some load, loadSource := some .knownAddress }

namespace Config

variable {config : Config} {image : Image}

/-- A load address that the probe finds takes the place of any other, and nothing else changes. -/
theorem reportOf_prefer (config : Config) (table : SymbolTable) (strings : Option StringTable)
    (load : Option (UInt32 × LoadSource)) (probed : Option UInt32) :
    config.reportOf table strings ((probed.map (·, .knownAddress)).or load) =
      (config.reportOf table strings load).prefer probed := by
  cases probed with
  | none => rfl
  | some address => rfl

/-! ## The stages without a budget -/

/-- The symbol table without a budget: no room for a record, no table, or a table. -/
theorem readSymbols_cases (config : Config) (image : Image) :
    (image.size < config.release.recordSize ∧
      config.readSymbols image .unbounded =
        .error (.shortImage image.size config.release.recordSize)) ∨
    (config.release.recordSize ≤ image.size ∧
      ∃ table, config.readSymbols image .unbounded = .ok table) := by
  rw [readSymbols_eq_bind]
  rcases Nat.lt_or_ge image.size config.release.recordSize with hshort | hroom
  · rw [findTable_eq_error_iff.2 ⟨hshort, rfl⟩]
    exact .inl ⟨hshort, rfl⟩
  · refine .inr ⟨hroom, ?_⟩
    cases hfound : config.findTable image .unbounded with
    | error fault =>
        have hshort := (findTable_eq_error_iff.1 hfound).1
        omega
    | ok extent => exact ⟨extent.map (config.tableIn image), rfl⟩

/-- A correlation without a budget has an answer, be it that there is no load address. -/
theorem exists_findLoad_correlate (config : Config) (image : Image) (symbols : List Symbol)
    (names : List Name) :
    ∃ load, config.findLoad .correlate image .unbounded symbols names = .ok load := by
  rw [findLoad_eq_bind, correlate_unbounded]
  exact ⟨_, rfl⟩

/-- Probing first gives the answer of the probe, or else that of the correlation. -/
theorem findLoad_probeFirst {budget : Budget} {symbols : List Symbol} {names : List Name}
    {load : Option (UInt32 × LoadSource)}
    (h : config.findLoad .correlate image budget symbols names = .ok load) :
    config.findLoad .probeFirst image budget symbols names =
      .ok (((image.probe symbols (config.requiredCount symbols.length)
        config.knownAddresses).map (·, .knownAddress)).or load) := by
  rw [findLoad_eq_bind] at h ⊢
  dsimp only [knownLoad] at h ⊢
  cases image.probe symbols (config.requiredCount symbols.length) config.knownAddresses with
  | none => exact h
  | some address => rfl

/-- The two strategies and the probe, given the symbol table that they read. -/
theorem exists_report_of_readSymbols {table : SymbolTable}
    (h : config.readSymbols image .unbounded = .ok (some table)) :
    ∃ report, config.analyze .correlate image .unbounded = .ok (some report) ∧
      config.analyze .probeFirst image .unbounded =
        .ok (some (report.prefer (image.probe table.symbols
          (config.requiredCount table.symbols.length) config.knownAddresses))) ∧
      ∀ candidates, config.quickProbe image .unbounded candidates =
        .ok (image.probe table.symbols
          (config.requiredCount table.symbols.length) candidates) := by
  obtain ⟨load, hload⟩ := config.exists_findLoad_correlate image table.symbols
    (((config.stringsBeside image table).map (·.names)).getD [])
  refine ⟨config.reportOf table (config.stringsBeside image table) load, ?_, ?_, ?_⟩
  · exact analyze_eq_some_iff.2 ⟨table, load, h, hload, rfl⟩
  · rw [← reportOf_prefer]
    exact analyze_eq_some_iff.2 ⟨table, _, h, findLoad_probeFirst hload, rfl⟩
  · intro candidates
    rw [quickProbe_eq_bind, h]
    rfl

end Config

/-! ## The three answers -/

/-- How a scan, an analysis and a probe of the known addresses are related, for all settings without a
budget and all images. They fail together, and only if the image has no room for a record. A scan finds
no table exactly if an analysis finds none, and then the probe has no answer. Otherwise the analysis
reports what the scan reports, but for the load address if the probe finds one. -/
theorem strategies_agree (analyzer : Analyzer) (image : Image)
    (hfree : analyzer.config.timeBudgetMillis = none) :
    (∀ fault,
      (analyzer.scan image = .error fault ↔
        image.size < analyzer.config.release.recordSize ∧
          fault = .shortImage image.size analyzer.config.release.recordSize) ∧
      (analyzer.analyze image = .error fault ↔ analyzer.scan image = .error fault) ∧
      (analyzer.quickProbe image analyzer.config.knownAddresses = .error fault ↔
        analyzer.scan image = .error fault)) ∧
    (analyzer.scan image = .ok none ↔ analyzer.analyze image = .ok none) ∧
    (analyzer.scan image = .ok none →
      analyzer.quickProbe image analyzer.config.knownAddresses = .ok none) ∧
    ∀ scanned, analyzer.scan image = .ok (some scanned) →
      ∃ probed, analyzer.quickProbe image analyzer.config.knownAddresses = .ok probed ∧
        analyzer.analyze image = .ok (some (scanned.prefer probed)) := by
  have hbudget : analyzer.config.budget = .unbounded := by rw [Config.budget, hfree]; rfl
  simp only [Analyzer.scan, Analyzer.analyze, Analyzer.quickProbe, hbudget]
  rcases analyzer.config.readSymbols_cases image with ⟨hshort, hread⟩ | ⟨hroom, table, hread⟩
  · -- no room for a record: the stage that all three begin with fails
    have hfault : ∀ strategy, analyzer.config.analyze strategy image .unbounded =
        .error (.shortImage image.size analyzer.config.release.recordSize) := by
      intro strategy
      rw [Config.analyze_eq_bind, hread]
      rfl
    rw [Config.quickProbe_eq_bind, hfault, hfault, hread]
    simp [Except.bind, hshort, eq_comm]
  · cases table with
    | none =>
        have hnone : ∀ strategy,
            analyzer.config.analyze strategy image .unbounded = .ok none := by
          intro strategy
          rw [Config.analyze_eq_bind, hread]
          rfl
        rw [Config.quickProbe_eq_bind, hnone, hnone, hread]
        simp [Except.bind, Nat.not_lt.2 hroom]
    | some table =>
        obtain ⟨report, hscan, hanalyze, hprobe⟩ := Config.exists_report_of_readSymbols hread
        rw [hscan, hanalyze, hprobe]
        simp [Nat.not_lt.2 hroom]

/-- In the small layout the probe finds the address that the scan correlates, and the analysis says that
it was known. -/
theorem strategies_agree_sample :
    Analyzer.ofTwo.config.timeBudgetMillis = none ∧
      Analyzer.ofTwo.scan Linked.sample.image = .ok (some Linked.sample.report) ∧
      Analyzer.ofTwo.quickProbe Linked.sample.image Analyzer.ofTwo.config.knownAddresses =
        .ok (some 0x10000) ∧
      Analyzer.ofTwo.analyze Linked.sample.image =
        .ok (some (Linked.sample.report.prefer (some 0x10000))) := by
  have hscan : Analyzer.ofTwo.scan Linked.sample.image = .ok (some Linked.sample.report) :=
    Linked.apparent_sample.analyze_eq Linked.lawful_sample (by decide)
  obtain ⟨probed, hprobe, hanalyze⟩ :=
    (strategies_agree Analyzer.ofTwo Linked.sample.image rfl).2.2.2 _ hscan
  have hsame : Linked.sample.report.prefer probed =
      { Linked.sample.report with loadSource := some .knownAddress } := by
    rw [Linked.analyze_sample] at hanalyze
    exact (Option.some.inj (Except.ok.inj hanalyze)).symm
  have hprobed : probed = some 0x10000 := by
    cases probed with
    | none => exact absurd (congrArg Report.loadSource hsame) (by decide)
    | some load => exact congrArg Report.loadAddress hsame
  rw [hprobed] at hprobe hanalyze
  exact ⟨rfl, hscan, hprobe, hanalyze⟩

end FirmwareSymbols
