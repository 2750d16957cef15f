import FirmwareSymbols.Proofs.DecodedTable
import FirmwareSymbols.Proofs.Recovery

/-!
# What every report satisfies

A report is put together from stages that may each find nothing. This
file says what holds of it however they end: the symbols are those of the
reported extent, none lost and none twice, each of them plausible; and
the optional parts are present together or missing together.

## Main results

* `Config.wellFormed_of_analyze`: every report of an analysis is
  well-formed, whatever its budget.
* `report_wellFormed`: so are the reports of `scan` and of `analyze`.
-/

namespace FirmwareSymbols

/-- A report as it should be: what an analysis with some settings may say of an image. -/
structure Report.WellFormed (report : Report) (config : Config) (strategy : Strategy)
    (image : Image) : Prop where
  release_eq : report.release = config.release
  -- no record of the extent is lost or taken twice
  whole : report.release.recordSize ∣ report.symbolTable.length
  count : report.symbols.length = report.symbolTable.length / report.release.recordSize
  minRun_le : config.minTableRun.toNat ≤ report.symbols.length
  arranged : (report.symbols.map (·.offset)).Perm
    (report.symbolTable.slots report.release.recordSize)
  inside : ∀ s ∈ report.symbols, s.offset + report.release.recordSize ≤ image.size
  -- every symbol is plausible
  named : ∀ s ∈ report.symbols, s.nameAddress ≠ 0
  defined : report.release = .v5 → ∀ s ∈ report.symbols, s.destAddress ≠ 0
  typed : ∀ s ∈ report.symbols,
    s.typeCode ∈ [0x05, 0x07, 0x09, 0x11] ∨ report.release = .v6 ∧ s.typeCode = 0x03
  functions : ∀ s ∈ report.symbols, s.isFunction = true ↔ s.typeCode = 0x05
  -- the optional parts go together
  names_eq_nil_iff : report.names = [] ↔ report.stringTable = none
  loadAddress_iff : report.loadAddress.isSome = true ↔ report.loadSource.isSome = true
  known : report.loadSource = some .knownAddress →
    strategy = .probeFirst ∧ ∃ load before after, report.loadAddress = some load ∧
      config.knownAddresses = before ++ load :: after ∧
      image.passesProbe report.symbols
        (min report.symbols.length config.checkCount.toNat) load = true ∧
      ∀ other ∈ before, image.passesProbe report.symbols
        (min report.symbols.length config.checkCount.toNat) other = false
  correlated : report.loadSource = some .correlated → report.names ≠ []

/-! ## The stages -/

theorem Release.mem_typeCodes_iff {release : Release} {code : UInt8} :
    code ∈ release.typeCodes ↔
      code ∈ [0x05, 0x07, 0x09, 0x11] ∨ release = .v6 ∧ code = 0x03 := by
  cases release with
  | v5 => simp [typeCodes]
  | v6 => simp [typeCodes, or_comm]

/-- A correlation needs names. -/
theorem names_ne_nil_of_correlate {budget : Budget} {symbols : List Symbol} {names : List Name}
    {count : Nat} {load : UInt32} (h : correlate budget symbols names count = .ok (some load)) :
    names ≠ [] := by
  rintro rfl
  obtain ⟨_, _, tail, _, htail, hload⟩ := exists_stretches_of_correlate h
  obtain ⟨_, name, _, hname, _⟩ := loadAddress?_eq_some_iff.1 hload
  rw [List.suffix_nil.1 htail] at hname
  cases hname

namespace Config

variable {config : Config} {image : Image} {budget : Budget}

/-- A table that is read is the first one of the image. -/
theorem isFirstTable_of_readSymbols {table : SymbolTable}
    (h : config.readSymbols image budget = .ok (some table)) :
    config.release.IsFirstTable image config.minTableRun.toNat table.extent ∧
      ∃ order, table.symbols = config.release.decodeTable image order table.extent := by
  obtain ⟨extent, hextent, rfl⟩ := readSymbols_eq_some_iff.1 h
  have hfirst := (Budget.keeps_findTable config image).eq_ok hextent
  exact ⟨(findTable_eq_some_iff.1 hfirst).2, _, rfl⟩

/-- A string table that is read has entries. -/
theorem names_stringsBeside_eq_nil_iff (config : Config) (image : Image) (table : SymbolTable) :
    ((config.stringsBeside image table).map (·.names)).getD [] = [] ↔
      (config.stringsBeside image table).map (·.extent) = none := by
  cases hstrings : config.stringsBeside image table with
  | none => simp
  | some strings =>
      obtain ⟨spans, hspans, hentries, _⟩ := readNames_entries hstrings
      rw [Option.map_some, Option.getD_some, hentries]
      cases spans with
      | nil => exact absurd rfl hspans
      | cons s rest => simp [Image.entries]

/-- Every report of an analysis is well-formed, whatever its budget. -/
theorem wellFormed_of_analyze {strategy : Strategy} {report : Report}
    (h : config.analyze strategy image budget = .ok (some report)) :
    report.WellFormed config strategy image := by
  obtain ⟨table, load, htable, hload, rfl⟩ := analyze_eq_some_iff.1 h
  obtain ⟨hfirst, order, hsymbols⟩ := isFirstTable_of_readSymbols htable
  obtain ⟨hslots, hwhole, hrun⟩ := hfirst.length_slots
  have harranged := hfirst.offset_perm order
  have hadmits : ∀ s ∈ table.symbols, config.release.Admits s := by
    intro s hs
    rw [hsymbols] at hs
    exact hfirst.admits_symbols hs
  rw [← hsymbols] at harranged
  have hcount : table.symbols.length = table.extent.length / config.release.recordSize := by
    rw [← hslots, ← harranged.length_eq, List.length_map]
  refine
    { release_eq := rfl
      whole := hwhole
      count := hcount
      minRun_le := hcount ▸ hrun
      arranged := harranged
      inside := ?_
      named := fun s hs => (hadmits s hs).named
      defined := fun hv5 s hs => (hadmits s hs).defined hv5
      typed := fun s hs => Release.mem_typeCodes_iff.1 (hadmits s hs).typed
      functions := fun s hs => (hadmits s hs).isFunction_iff
      names_eq_nil_iff := config.names_stringsBeside_eq_nil_iff image table
      loadAddress_iff := ?_
      known := ?_
      correlated := ?_ }
  · intro s hs
    have hslot := harranged.mem_iff.1 (List.mem_map_of_mem (f := Symbol.offset) hs)
    exact Release.fits_of_recordAt (hfirst.recordAt_slot hslot)
  · show (load.map (·.1)).isSome = true ↔ (load.map (·.2)).isSome = true
    rw [Option.isSome_map, Option.isSome_map]
  · intro hsource
    obtain ⟨⟨address, source⟩, rfl, rfl⟩ := Option.map_eq_some_iff.1 hsource
    rcases findLoad_eq_some_iff.1 hload with ⟨_, hknown⟩ | ⟨hcorrelated, _⟩
    · obtain ⟨hstrategy, hpasses, before, after, hlist, hrefused⟩ :=
        knownLoad_eq_some_iff.1 hknown
      exact ⟨hstrategy, address, before, after, rfl, hlist, hpasses, hrefused⟩
    · cases hcorrelated
  · intro hsource
    obtain ⟨⟨address, source⟩, rfl, rfl⟩ := Option.map_eq_some_iff.1 hsource
    rcases findLoad_eq_some_iff.1 hload with ⟨hknown, _⟩ | ⟨_, _, hfound⟩
    · cases hknown
    · exact names_ne_nil_of_correlate hfound

end Config

/-! ## Reports of an analyzer -/

/-- Every report of `scan` or of `analyze` is well-formed, and no behaviour of a clock changes that. -/
theorem report_wellFormed (analyzer : Analyzer) (image : Image) (report : Report) :
    (analyzer.scan image = .ok (some report) →
      report.WellFormed analyzer.config .correlate image) ∧
    (analyzer.analyze image = .ok (some report) →
      report.WellFormed analyzer.config .probeFirst image) ∧
    ∀ strategy budget, analyzer.config.analyze strategy image budget = .ok (some report) →
      report.WellFormed analyzer.config strategy image := by
  refine ⟨?_, ?_, ?_⟩
  · intro hscan
    exact Config.wellFormed_of_analyze hscan
  · intro hanalyze
    exact Config.wellFormed_of_analyze hanalyze
  · intro strategy budget hrun
    exact Config.wellFormed_of_analyze hrun

/-- The load address of the small layout is also a known one, which is found first if it is probed for. -/
theorem Linked.analyze_sample :
    Analyzer.ofTwo.analyze sample.image =
      .ok (some { sample.report with loadSource := some .knownAddress }) := by
  have hscan := apparent_sample.analyze_eq lawful_sample (by decide)
  obtain ⟨table, load, htable, _, hreport⟩ := Config.analyze_eq_some_iff.1 hscan
  have hsymbols : table.symbols = sample.report.symbols := by rw [hreport]; rfl
  refine Config.analyze_eq_some_iff.2 ⟨table, some (0x10000, .knownAddress), htable, ?_, ?_⟩
  · refine Config.findLoad_eq_some_iff.2 (.inl ⟨rfl, ?_⟩)
    rw [hsymbols]
    refine Config.knownLoad_eq_some_iff.2 ⟨rfl, by decide +kernel, [0x80002000], _, rfl, ?_⟩
    intro other hother
    rw [List.mem_singleton.1 hother]
    decide +kernel
  · -- nothing but the load address and its source depend on how it was found
    have hother : Analyzer.ofTwo.config.reportOf table
        (Analyzer.ofTwo.config.stringsBeside sample.image table)
        (some (0x10000, .knownAddress)) =
      { Analyzer.ofTwo.config.reportOf table
          (Analyzer.ofTwo.config.stringsBeside sample.image table) load with
        loadAddress := some 0x10000, loadSource := some .knownAddress } := rfl
    rw [hother, ← hreport]
    rfl

/-- The reports of the small layout: the one correlates the load address, the other knows it. -/
theorem report_wellFormed_sample :
    Analyzer.ofTwo.scan Linked.sample.image = .ok (some Linked.sample.report) ∧
      Linked.sample.report.WellFormed Analyzer.ofTwo.config .correlate Linked.sample.image ∧
      Analyzer.ofTwo.analyze Linked.sample.image =
        .ok (some { Linked.sample.report with loadSource := some .knownAddress }) ∧
      ({ Linked.sample.report with loadSource := some .knownAddress } : Report).WellFormed
        Analyzer.ofTwo.config .probeFirst Linked.sample.image := by
  have hscan : Analyzer.ofTwo.scan Linked.sample.image = .ok (some Linked.sample.report) :=
    Linked.apparent_sample.analyze_eq Linked.lawful_sample (by decide)
  have hanalyze := Linked.analyze_sample
  exact ⟨hscan, (report_wellFormed _ _ _).1 hscan, hanalyze,
    (report_wellFormed _ _ _).2.1 hanalyze⟩

end FirmwareSymbols
