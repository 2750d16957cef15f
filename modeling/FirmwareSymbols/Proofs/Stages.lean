import FirmwareSymbols.Analysis

/-!
# The stages of an analysis

Each operation runs one stage, stops if the stage reports a fault, and
hands its answer to the next stage. Written as such a chain, a property of
the stages carries over to the whole; read backward, the chain says which
stage each part of a report comes from.

## Main results

* `Config.readSymbols_eq_bind`, `Config.findLoad_eq_bind`,
  `Config.analyze_eq_bind`: the operations as chains.
* `Config.analyze_eq_some_iff`: the parts of a report.
* `Config.findLoad_eq_some_iff`: where its load address comes from.
-/

namespace FirmwareSymbols

namespace Config

variable {config : Config} {image : Image} {budget : Budget}

/-! ## Operations as chains -/

/-- The end of the run is read off its start, which is all that the scan contributes. -/
theorem findTable_eq_bind (config : Config) (image : Image) (budget : Budget) :
    config.findTable image budget =
      if image.size < config.release.recordSize then
        .error (.shortImage image.size config.release.recordSize)
      else if image.size < config.release.recordSize * config.minTableRun.toNat then
        .ok none
      else
        (config.findStart image budget
            (image.size - config.release.recordSize * config.minTableRun.toNat + 1)).bind
          fun start => .ok (start.map fun start => ⟨start, config.release.runEnd image start⟩) := by
  rw [findTable]
  split
  · rfl
  · split
    · rfl
    · cases config.findStart image budget
          (image.size - config.release.recordSize * config.minTableRun.toNat + 1) with
      | error fault => rfl
      | ok start => cases start <;> rfl

/-- The symbol table that lies in an extent. -/
def tableIn (config : Config) (image : Image) (extent : Span) : SymbolTable :=
  let order := config.byteOrder.getD (config.release.detectOrder image extent.start)
  ⟨extent, order, config.release.decodeTable image order extent⟩

theorem readSymbols_eq_bind (config : Config) (image : Image) (budget : Budget) :
    config.readSymbols image budget =
      (config.findTable image budget).bind fun extent =>
        .ok (extent.map (config.tableIn image)) := by
  rw [readSymbols]
  cases config.findTable image budget with
  | error fault => rfl
  | ok extent => cases extent <;> rfl

theorem quickProbe_eq_bind (config : Config) (image : Image) (budget : Budget)
    (candidates : List UInt32) :
    config.quickProbe image budget candidates =
      (config.readSymbols image budget).bind fun table =>
        .ok (table.bind fun table => image.probe table.symbols
          (config.requiredCount table.symbols.length) candidates) := by
  rw [quickProbe]
  cases config.readSymbols image budget with
  | error fault => rfl
  | ok table => cases table <;> rfl

/-- What the probe of known addresses contributes to a strategy. -/
def knownLoad (config : Config) (strategy : Strategy) (image : Image) (symbols : List Symbol) :
    Option UInt32 :=
  match strategy with
  | .correlate => none
  | .probeFirst =>
    image.probe symbols (config.requiredCount symbols.length) config.knownAddresses

theorem findLoad_eq_bind (config : Config) (strategy : Strategy) (image : Image)
    (budget : Budget) (symbols : List Symbol) (names : List Name) :
    config.findLoad strategy image budget symbols names =
      match config.knownLoad strategy image symbols with
      | some load => .ok (some (load, .knownAddress))
      | none =>
        (correlate budget symbols names (config.requiredCount symbols.length)).bind
          fun load => .ok (load.map (·, .correlated)) := by
  cases strategy with
  | correlate =>
      dsimp only [findLoad, knownLoad]
      cases correlate budget symbols names (config.requiredCount symbols.length) <;> rfl
  | probeFirst =>
      dsimp only [findLoad, knownLoad]
      cases image.probe symbols (config.requiredCount symbols.length) config.knownAddresses with
      | some load => rfl
      | none =>
          cases correlate budget symbols names (config.requiredCount symbols.length) <;> rfl

/-- The string table that an analysis looks for beside a symbol table. -/
def stringsBeside (config : Config) (image : Image) (table : SymbolTable) : Option StringTable :=
  config.readNames image (config.requiredCount table.symbols.length)

/-- The report of an analysis, given what its stages have found. -/
def reportOf (config : Config) (table : SymbolTable) (strings : Option StringTable)
    (load : Option (UInt32 × LoadSource)) : Report :=
  { release := config.release
    symbolTable := table.extent
    byteOrder := table.byteOrder
    symbols := table.symbols
    stringTable := strings.map (·.extent)
    names := (strings.map (·.names)).getD []
    loadAddress := load.map (·.1)
    loadSource := load.map (·.2) }

theorem analyze_eq_bind (config : Config) (strategy : Strategy) (image : Image)
    (budget : Budget) :
    config.analyze strategy image budget =
      (config.readSymbols image budget).bind fun
        | none => .ok none
        | some table =>
          let strings := config.stringsBeside image table
          (config.findLoad strategy image budget table.symbols
            ((strings.map (·.names)).getD [])).bind fun load =>
              .ok (some (config.reportOf table strings load)) := by
  rw [analyze]
  cases config.readSymbols image budget with
  | error fault => rfl
  | ok table =>
      cases table with
      | none => rfl
      | some table =>
          dsimp only [Except.bind, stringsBeside]
          cases config.findLoad strategy image budget table.symbols _ <;> rfl

/-! ## Where the parts come from -/

theorem bind_eq_ok_iff {α β : Type} {answer : Except Fault α} {next : α → Except Fault β}
    {value : β} :
    answer.bind next = .ok value ↔ ∃ middle, answer = .ok middle ∧ next middle = .ok value := by
  cases answer with
  | error fault => simp [Except.bind]
  | ok middle => simp [Except.bind]

theorem readSymbols_eq_some_iff {table : SymbolTable} :
    config.readSymbols image budget = .ok (some table) ↔
      ∃ extent, config.findTable image budget = .ok (some extent) ∧
        table = config.tableIn image extent := by
  rw [readSymbols_eq_bind, bind_eq_ok_iff]
  constructor
  · rintro ⟨extent, hextent, htable⟩
    obtain ⟨extent, rfl, rfl⟩ := Option.map_eq_some_iff.1 (Except.ok.inj htable)
    exact ⟨extent, hextent, rfl⟩
  · rintro ⟨extent, hextent, rfl⟩
    exact ⟨some extent, hextent, rfl⟩

/-- A report is made of one table, of the strings beside it and of one answer about the load
address. -/
theorem analyze_eq_some_iff {strategy : Strategy} {report : Report} :
    config.analyze strategy image budget = .ok (some report) ↔
      ∃ table load, config.readSymbols image budget = .ok (some table) ∧
        config.findLoad strategy image budget table.symbols
          (((config.stringsBeside image table).map (·.names)).getD []) = .ok load ∧
        report = config.reportOf table (config.stringsBeside image table) load := by
  rw [analyze_eq_bind, bind_eq_ok_iff]
  constructor
  · rintro ⟨table, htable, hreport⟩
    cases table with
    | none => cases hreport
    | some table =>
        obtain ⟨load, hload, hreport⟩ := bind_eq_ok_iff.1 hreport
        exact ⟨table, load, htable, hload, (Option.some.inj (Except.ok.inj hreport)).symm⟩
  · rintro ⟨table, load, htable, hload, rfl⟩
    exact ⟨some table, htable, bind_eq_ok_iff.2 ⟨load, hload, rfl⟩⟩

/-- The probe contributes the first of the known addresses that passes, to a strategy that probes. -/
theorem knownLoad_eq_some_iff {strategy : Strategy} {symbols : List Symbol} {load : UInt32} :
    config.knownLoad strategy image symbols = some load ↔
      strategy = .probeFirst ∧
        image.passesProbe symbols (config.requiredCount symbols.length) load = true ∧
        ∃ before after, config.knownAddresses = before ++ load :: after ∧
          ∀ other ∈ before,
            image.passesProbe symbols (config.requiredCount symbols.length) other = false := by
  cases strategy with
  | correlate => simp [knownLoad]
  | probeFirst =>
      rw [knownLoad, Image.probe, List.find?_eq_some_iff_append]
      simp

/-- A load address is reported with the stage that it comes from: the probe, or else the correlation. -/
theorem findLoad_eq_some_iff {strategy : Strategy} {symbols : List Symbol} {names : List Name}
    {load : UInt32} {source : LoadSource} :
    config.findLoad strategy image budget symbols names = .ok (some (load, source)) ↔
      (source = .knownAddress ∧ config.knownLoad strategy image symbols = some load) ∨
      (source = .correlated ∧ config.knownLoad strategy image symbols = none ∧
        correlate budget symbols names (config.requiredCount symbols.length) =
          .ok (some load)) := by
  rw [findLoad_eq_bind]
  cases config.knownLoad strategy image symbols with
  | some known => simp [and_comm, eq_comm]
  | none =>
      simp only [reduceCtorEq, and_false, true_and, false_or]
      rw [bind_eq_ok_iff]
      constructor
      · rintro ⟨found, hfound, heq⟩
        obtain ⟨found, rfl, hpair⟩ := Option.map_eq_some_iff.1 (Except.ok.inj heq)
        cases hpair
        exact ⟨rfl, hfound⟩
      · rintro ⟨rfl, hfound⟩
        exact ⟨some load, hfound, rfl⟩

/-- A load address that is reported as correlated is the answer of the correlation. -/
theorem correlate_of_findLoad {strategy : Strategy} {symbols : List Symbol} {names : List Name}
    {load : UInt32}
    (h : config.findLoad strategy image budget symbols names = .ok (some (load, .correlated))) :
    correlate budget symbols names (config.requiredCount symbols.length) = .ok (some load) := by
  rcases findLoad_eq_some_iff.1 h with ⟨hsource, _⟩ | ⟨_, _, hfound⟩
  · cases hsource
  · exact hfound

end Config

end FirmwareSymbols
