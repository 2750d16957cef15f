import FirmwareSymbols.Proofs.WrittenRecords
import FirmwareSymbols.Report.Text

/-!
# Written reports are read back

A report nests records in lists and optional values, and all of its parts
are read back from their written form. Offsets and lengths are read if they
are below `2 ^ 64`, as those of every file are: a report of which one is
larger has a text, but no report is read from it.

## Main definitions

* `Report.FitsWords`: the reports whose offsets and lengths are 64-bit
  numbers.

## Main results

* `Report.wellFormed_toJson`: every report has a text.
* `Report.restores`: reports are read back from their written form.
* `Report.fitsWords_of_ofJson?`: only such reports are read at all.
* `Report.ofText_written`: both texts of a report give it back.
-/

namespace FirmwareSymbols

/-! ## Offsets and lengths -/

/-- A span between 64-bit offsets. -/
structure Span.FitsWords (s : Span) : Prop where
  start : s.start < UInt64.size
  stop : s.stop < UInt64.size

/-- An entry of the string table with a 64-bit offset and length. -/
structure Name.FitsWords (name : Name) : Prop where
  address : name.address < UInt64.size
  length : name.length < UInt64.size

/-- A report whose offsets and lengths are 64-bit numbers. -/
structure Report.FitsWords (report : Report) : Prop where
  symbolTable : report.symbolTable.FitsWords
  symbols : ∀ s ∈ report.symbols, s.offset < UInt64.size
  stringTable : ∀ s ∈ report.stringTable, s.FitsWords
  names : ∀ name ∈ report.names, name.FitsWords

/-! ## The texts of reports -/

theorem Span.wellFormed_toJson (s : Span) : s.toJson.WellFormed := by
  refine Json.wellFormed_ofMembers ?_
  simp [Json.wellFormed_ofNat]

theorem Symbol.wellFormed_toJson (s : Symbol) : s.toJson.WellFormed := by
  refine Json.wellFormed_ofMembers ?_
  have hnameLength := Json.wellFormed_ofOption fun length (_ : length ∈ s.nameLength) =>
    Json.wellFormed_ofNat length.toNat
  simp [Json.wellFormed_ofNat, hnameLength]

theorem Name.wellFormed_toJson (name : Name) : name.toJson.WellFormed := by
  refine Json.wellFormed_ofMembers ?_
  have hbytes := Json.wellFormed_ofList fun byte (_ : byte ∈ name.bytes) =>
    Json.wellFormed_ofNat byte.toNat
  simp [Json.wellFormed_ofNat, hbytes]

theorem LoadSource.restores (source : LoadSource) : Json.Restores toJson ofJson? source :=
  Json.restores_variant source.lookup_spellings

/-- Every report has a text, whatever its offsets are. -/
theorem Report.wellFormed_toJson (report : Report) : report.toJson.WellFormed := by
  refine Json.wellFormed_ofMembers ?_
  have hsymbols := Json.wellFormed_ofList fun s (_ : s ∈ report.symbols) => s.wellFormed_toJson
  have hstringTable := Json.wellFormed_ofOption fun s (_ : s ∈ report.stringTable) =>
    s.wellFormed_toJson
  have hnames := Json.wellFormed_ofList fun name (_ : name ∈ report.names) =>
    name.wellFormed_toJson
  have hloadAddress := Json.wellFormed_ofOption fun load (_ : load ∈ report.loadAddress) =>
    Json.wellFormed_ofNat load.toNat
  have hloadSource := Json.wellFormed_ofOption fun source (_ : source ∈ report.loadSource) =>
    source.restores.wellFormed
  simp [report.release.restores.wellFormed, report.symbolTable.wellFormed_toJson,
    report.byteOrder.restores.wellFormed, hsymbols, hstringTable, hnames, hloadAddress, hloadSource]

/-! ## From reports to their written form and back -/

theorem Span.restores {s : Span} (h : s.FitsWords) : Json.Restores toJson ofJson? s := by
  refine ⟨s.wellFormed_toJson, ?_⟩
  have hstart := Json.restores_offset h.start
  have hstop := Json.restores_offset h.stop
  rw [ofJson?, toJson, Json.fields?_ofMembers]
  · simp only [Option.bind_eq_bind, Option.bind_some, List.map_cons, List.map_nil,
      Json.required?, hstart.read_write, hstop.read_write, Option.pure_def]
  · rfl
  · decide

theorem Symbol.restores {s : Symbol} (h : s.offset < UInt64.size) :
    Json.Restores toJson ofJson? s := by
  refine ⟨s.wellFormed_toJson, ?_⟩
  have hoffset := Json.restores_offset h
  have hnameAddress := Json.restores_uint32 s.nameAddress
  have hdestAddress := Json.restores_uint32 s.destAddress
  have hnameLength := Json.restores_option s.nameLength (fun length => by nofun)
    fun length _ => Json.restores_uint32 length
  have hflags := Json.restores_uint32 s.flags
  have htypeCode := Json.restores_uint8 s.typeCode
  rw [ofJson?, toJson, Json.fields?_ofMembers]
  · simp only [Option.bind_eq_bind, Option.bind_some, List.map_cons, List.map_nil,
      Json.required?, Json.optional?, hoffset.read_write, hnameAddress.read_write,
      hdestAddress.read_write, hnameLength.read_write, hflags.read_write, htypeCode.read_write,
      Option.pure_def]
  · rfl
  · decide

theorem Name.restores {name : Name} (h : name.FitsWords) : Json.Restores toJson ofJson? name := by
  refine ⟨name.wellFormed_toJson, ?_⟩
  have haddress := Json.restores_offset h.address
  have hbytes := Json.restores_list name.bytes fun byte _ => Json.restores_uint8 byte
  have hlength := Json.restores_offset h.length
  rw [ofJson?, toJson, Json.fields?_ofMembers]
  · simp only [Option.bind_eq_bind, Option.bind_some, List.map_cons, List.map_nil,
      Json.required?, haddress.read_write, hbytes.read_write, hlength.read_write,
      Option.pure_def]
  · rfl
  · decide

/-- Reports are read back from their written form. -/
theorem Report.restores {report : Report} (h : report.FitsWords) :
    Json.Restores toJson ofJson? report := by
  refine ⟨report.wellFormed_toJson, ?_⟩
  have hrelease := report.release.restores
  have hsymbolTable := Span.restores h.symbolTable
  have hbyteOrder := report.byteOrder.restores
  have hsymbols := Json.restores_list report.symbols fun s hs => Symbol.restores (h.symbols s hs)
  have hstringTable := Json.restores_option report.stringTable (fun s => by nofun)
    fun s hs => Span.restores (h.stringTable s hs)
  have hnames := Json.restores_list report.names fun name hname => Name.restores (h.names name hname)
  have hloadAddress := Json.restores_option report.loadAddress (fun load => by nofun)
    fun load _ => Json.restores_uint32 load
  have hloadSource := Json.restores_option report.loadSource (fun source => by nofun)
    fun source _ => source.restores
  rw [ofJson?, toJson, Json.fields?_ofMembers]
  · simp only [Option.bind_eq_bind, Option.bind_some, List.map_cons, List.map_nil,
      Json.required?, Json.optional?, hrelease.read_write, hsymbolTable.read_write,
      hbyteOrder.read_write, hsymbols.read_write, hstringTable.read_write, hnames.read_write,
      hloadAddress.read_write, hloadSource.read_write, Option.pure_def]
  · rfl
  · decide

/-! ## What is read at all -/

/-- An offset or a length that is read is a 64-bit number. -/
theorem Json.offset?_lt {value : Json} {n : Nat} (h : value.offset? = some n) :
    n < UInt64.size := by
  unfold offset? nat? at h
  split at h
  · obtain ⟨m, _, hbelow⟩ := Option.bind_eq_some_iff.1 h
    unfold Numeral.below? at hbelow
    split at hbelow
    · cases hbelow
      assumption
    · cases hbelow
  · cases h

/-- What holds of everything that a reader answers holds of all items of a list that it reads. -/
theorem Json.forall_of_listOf? {α : Type} {read : Json → Option α} {P : α → Prop}
    (hread : ∀ value x, read value = some x → P x) {value : Json} {xs : List α}
    (h : value.listOf? read = some xs) : ∀ x ∈ xs, P x := by
  unfold listOf? at h
  split at h
  · rename_i items
    induction items generalizing xs with
    | nil =>
        cases h
        simp
    | cons item items ih =>
        rw [List.mapM_cons] at h
        simp only [Option.bind_eq_bind, Option.bind_eq_some_iff, Option.pure_def,
          Option.some.injEq] at h
        obtain ⟨x, hx, more, hmore, rfl⟩ := h
        exact List.forall_mem_cons.2 ⟨hread item x hx, ih hmore⟩
  · cases h

/-- What holds of everything that a reader answers holds of an optional field that it reads. -/
theorem Json.forall_of_optional? {α : Type} {read : Json → Option α} {P : α → Prop}
    (hread : ∀ value x, read value = some x → P x) {field : Option Json} {answer : Option α}
    (h : optional? read field = some answer) : ∀ x ∈ answer, P x := by
  unfold optional? option? at h
  split at h
  · cases h
    simp
  · split at h
    · cases h
      simp
    · obtain ⟨x, hx, rfl⟩ := Option.map_eq_some_iff.1 h
      simpa using hread _ x hx

theorem Json.of_required? {α : Type} {read : Json → Option α} {P : α → Prop}
    (hread : ∀ value x, read value = some x → P x) {field : Option Json} {x : α}
    (h : required? read field = some x) : P x := by
  obtain ⟨value, _, hx⟩ := Option.bind_eq_some_iff.1 h
  exact hread value x hx

theorem Span.fitsWords_of_ofJson? {value : Json} {s : Span} (h : ofJson? value = some s) :
    s.FitsWords := by
  unfold ofJson? at h
  obtain ⟨fields, _, hfields⟩ := Option.bind_eq_some_iff.1 h
  split at hfields
  · simp only [Option.bind_eq_bind, Option.bind_eq_some_iff, Option.pure_def,
      Option.some.injEq] at hfields
    obtain ⟨start, hstart, stop, hstop, rfl⟩ := hfields
    exact ⟨Json.of_required? (fun _ _ => Json.offset?_lt) hstart,
      Json.of_required? (fun _ _ => Json.offset?_lt) hstop⟩
  · cases hfields

theorem Symbol.fitsWords_of_ofJson? {value : Json} {s : Symbol} (h : ofJson? value = some s) :
    s.offset < UInt64.size := by
  unfold ofJson? at h
  obtain ⟨fields, _, hfields⟩ := Option.bind_eq_some_iff.1 h
  split at hfields
  · obtain ⟨offset, hoffset, hrest⟩ := Option.bind_eq_some_iff.1 hfields
    simp only [Option.bind_eq_bind, Option.bind_eq_some_iff, Option.pure_def,
      Option.some.injEq] at hrest
    obtain ⟨_, _, _, _, _, _, _, _, _, _, rfl⟩ := hrest
    exact Json.of_required? (fun _ _ => Json.offset?_lt) hoffset
  · cases hfields

theorem Name.fitsWords_of_ofJson? {value : Json} {name : Name} (h : ofJson? value = some name) :
    name.FitsWords := by
  unfold ofJson? at h
  obtain ⟨fields, _, hfields⟩ := Option.bind_eq_some_iff.1 h
  split at hfields
  · simp only [Option.bind_eq_bind, Option.bind_eq_some_iff, Option.pure_def,
      Option.some.injEq] at hfields
    obtain ⟨address, haddress, bytes, _, length, hlength, rfl⟩ := hfields
    exact ⟨Json.of_required? (fun _ _ => Json.offset?_lt) haddress,
      Json.of_required? (fun _ _ => Json.offset?_lt) hlength⟩
  · cases hfields

namespace Report

/-- Every report that is read has 64-bit offsets and lengths. -/
theorem fitsWords_of_ofJson? {value : Json} {report : Report} (h : ofJson? value = some report) :
    report.FitsWords := by
  unfold ofJson? at h
  obtain ⟨fields, _, hfields⟩ := Option.bind_eq_some_iff.1 h
  split at hfields
  · simp only [Option.bind_eq_bind, Option.bind_eq_some_iff, Option.pure_def,
      Option.some.injEq] at hfields
    obtain ⟨_, _, symbolTable, hsymbolTable, _, _, symbols, hsymbols, stringTable, hstringTable,
      names, hnames, _, _, _, _, rfl⟩ := hfields
    exact
      { symbolTable := Json.of_required? (fun _ _ => Span.fitsWords_of_ofJson?) hsymbolTable
        symbols := Json.of_required?
          (fun _ _ => Json.forall_of_listOf? fun _ _ => Symbol.fitsWords_of_ofJson?) hsymbols
        stringTable := Json.forall_of_optional? (fun _ _ => Span.fitsWords_of_ofJson?) hstringTable
        names := Json.of_required?
          (fun _ _ => Json.forall_of_listOf? fun _ _ => Name.fitsWords_of_ofJson?) hnames }
  · cases hfields

/-! ## The texts of a report -/

theorem ofText_eq_ok_iff {text : String} {report : Report} :
    ofText text = .ok report ↔ (Json.parse? text).bind ofJson? = some report := by
  rw [ofText]
  cases (Json.parse? text).bind ofJson? with
  | none => simp
  | some read => simp

/-- A report that is read from any text has 64-bit offsets and lengths. -/
theorem fitsWords_of_ofText {text : String} {report : Report} (h : ofText text = .ok report) :
    report.FitsWords := by
  obtain ⟨value, _, hvalue⟩ := Option.bind_eq_some_iff.1 (ofText_eq_ok_iff.1 h)
  exact fitsWords_of_ofJson? hvalue

/-- Both texts of a report give it back, if its offsets and lengths are 64-bit numbers; otherwise they give
no such report. So a report that has been read from one of its texts is written as the same two texts. -/
theorem ofText_written (report : Report) :
    (ofText report.toJson.compactText = .ok report ↔ report.FitsWords) ∧
    (ofText report.toJson.prettyText = .ok report ↔ report.FitsWords) ∧
    ∀ again, report.FitsWords →
      (ofText report.toJson.compactText = .ok again ∨
        ofText report.toJson.prettyText = .ok again) →
      again.toJson.compactText = report.toJson.compactText ∧
        again.toJson.prettyText = report.toJson.prettyText := by
  have hback : report.FitsWords → ofText report.toJson.compactText = .ok report ∧
      ofText report.toJson.prettyText = .ok report := by
    intro hfits
    have htexts := (restores hfits).parse?_text
    exact ⟨ofText_eq_ok_iff.2 htexts.1, ofText_eq_ok_iff.2 htexts.2⟩
  refine ⟨⟨fitsWords_of_ofText, fun hfits => (hback hfits).1⟩,
    ⟨fitsWords_of_ofText, fun hfits => (hback hfits).2⟩, ?_⟩
  intro again hfits hagain
  obtain ⟨hcompact, hpretty⟩ := hback hfits
  have hsame : again = report := by
    rcases hagain with hread | hread
    · exact Except.ok.inj (hread.symm.trans hcompact)
    · exact Except.ok.inj (hread.symm.trans hpretty)
  rw [hsame]
  exact ⟨rfl, rfl⟩

/-- A report of one symbol and one name, with a part of every kind. -/
def ofOne : Report :=
  { release := .v6
    symbolTable := ⟨0x400, 0x414⟩
    byteOrder := .little
    symbols := [⟨0x400, 0x80002010, 0x80000100, none, 0x500, 5⟩]
    stringTable := some ⟨0x10, 0x15⟩
    names := [⟨0x10, [0x62, 0x7a, 0x65, 0x72, 0x6f], 8⟩]
    loadAddress := some 0x80002000
    loadSource := some .correlated }

/-- The report of one symbol is read back from both of its texts. -/
theorem ofText_ofOne :
    ofOne.FitsWords ∧ ofText ofOne.toJson.compactText = .ok ofOne ∧
      ofText ofOne.toJson.prettyText = .ok ofOne := by
  have hfits : ofOne.FitsWords :=
    { symbolTable := ⟨by decide, by decide⟩
      symbols := by decide
      stringTable := fun s hs => by
        cases hs
        exact ⟨by decide, by decide⟩
      names := fun name hname => by
        rw [List.mem_singleton.1 hname]
        exact ⟨by decide, by decide⟩ }
  have hwritten := ofText_written ofOne
  exact ⟨hfits, hwritten.1.2 hfits, hwritten.2.1.2 hfits⟩

end Report

end FirmwareSymbols
