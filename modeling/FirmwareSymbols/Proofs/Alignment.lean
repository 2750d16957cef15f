import FirmwareSymbols.Proofs.Correlation
import FirmwareSymbols.Proofs.Exhaustion
import FirmwareSymbols.Proofs.LocatedNames
import FirmwareSymbols.Proofs.SymbolOrder
import Mathlib.Data.List.Chain

/-!
# Why equal lengths mean equal names

A correlation compares lengths only. In both tables, however, the length
of an entry is its distance to the next one: symbols are sorted before
they are measured, and names are measured where they lie. Two stretches
that begin at a distance and agree in their lengths therefore keep that
distance, entry by entry.

## Main results

* `Release.isChain_decodeTable`, `Image.Runs.isChain_entries`: the
  lengths of the two tables are distances.
* `aligned_of_runAgrees`: stretches that agree stay aligned.
* `Config.alignedAt_of_analyze`: a correlated load address aligns the two
  tables of its report.
-/

namespace FirmwareSymbols

/-! ## Lengths as distances -/

/-- The length of a symbol's name is the distance to the name of the next one. -/
def Symbol.Reaches (s next : Symbol) : Prop :=
  s.nameAddress ≤ next.nameAddress ∧ s.nameLength = some (next.nameAddress - s.nameAddress)

/-- The length of an entry is the distance to the next one. -/
def Name.Reaches (name next : Name) : Prop := name.address + name.length = next.address

theorem Symbol.Reaches.toNat_eq {s next : Symbol} {length : UInt32} (h : s.Reaches next)
    (hlength : s.nameLength = some length) :
    next.nameAddress.toNat = s.nameAddress.toNat + length.toNat := by
  obtain ⟨hle, hdistance⟩ := h
  rw [hdistance] at hlength
  cases hlength
  rw [UInt32.toNat_sub_of_le _ _ hle]
  have : s.nameAddress.toNat ≤ next.nameAddress.toNat := UInt32.le_iff_toNat_le.1 hle
  omega

namespace Symbol

theorem head?_withLengths (symbols : List Symbol) :
    (withLengths symbols).head?.map nameAddress = symbols.head?.map nameAddress := by
  fun_cases withLengths symbols with
  | case1 => rfl
  | case2 => rfl

/-- The lengths that are set on a sorted list are distances. -/
theorem isChain_withLengths {symbols : List Symbol}
    (hsorted : symbols.Pairwise fun s next => s.nameAddress ≤ next.nameAddress) :
    (withLengths symbols).IsChain Reaches := by
  fun_induction withLengths symbols with
  | case1 s next rest ih =>
      obtain ⟨hfirst, hrest⟩ := List.pairwise_cons.1 hsorted
      have hhead := head?_withLengths (next :: rest)
      cases hmeasured : withLengths (next :: rest) with
      | nil => exact List.isChain_singleton _
      | cons t others =>
          rw [hmeasured] at hhead
          have haddress : t.nameAddress = next.nameAddress := Option.some.inj hhead
          refine List.isChain_cons_cons.2 ⟨?_, hmeasured ▸ ih hrest⟩
          rw [Reaches, haddress]
          exact ⟨hfirst next (List.mem_cons_self ..), rfl⟩
  | case2 short hshort =>
      cases short with
      | nil => exact List.isChain_nil
      | cons s rest =>
          cases rest with
          | nil => exact List.isChain_singleton s
          | cons next rest => exact absurd rfl (hshort s next rest)

end Symbol

theorem Release.isChain_decodeTable (release : Release) (image : Image) (order : ByteOrder)
    (table : Span) : (release.decodeTable image order table).IsChain Symbol.Reaches :=
  Symbol.isChain_withLengths (Symbol.pairwise_sortByName _)

theorem Image.Runs.isChain_entries {image : Image} {bound lo : Nat} {spans : List Span}
    (h : image.Runs bound lo spans) : (image.entries bound spans).IsChain Name.Reaches := by
  induction spans generalizing lo with
  | nil => exact List.isChain_nil
  | cons s rest ih =>
      obtain ⟨hfirst, hrest⟩ := h
      cases rest with
      | nil => exact List.isChain_singleton _
      | cons t others =>
          refine List.isChain_cons_cons.2 ⟨?_, ih hrest⟩
          have hle := hrest.1.le_start
          have hnonempty := hfirst.nonempty
          show s.start + (t.start - s.start) = t.start
          omega

/-! ## Stretches stay aligned -/

theorem runAgrees_succ_iff {count : Nat} {symbols : List Symbol} {names : List Name} :
    runAgrees (count + 1) symbols names = true ↔
      ∃ s symbols' name names', symbols = s :: symbols' ∧ names = name :: names' ∧
        lengthAgrees s name = true ∧ runAgrees count symbols' names' = true := by
  cases symbols with
  | nil => simp [runAgrees]
  | cons s symbols =>
      cases names with
      | nil => simp [runAgrees]
      | cons name names => simp [runAgrees]

/-- A pair implies the load address at which the symbol's name is loaded from where the entry lies. -/
theorem impliedLoad?_eq_some_iff {s : Symbol} {name : Name} {load : UInt32} :
    impliedLoad? s name = some load ↔ s.nameAddress.toNat = load.toNat + name.address := by
  have hlt := s.nameAddress.toNat_lt_size
  rw [impliedLoad?]
  by_cases hle : name.address ≤ s.nameAddress.toNat
  · rw [if_pos hle, Option.some.injEq]
    constructor
    · intro heq
      rw [← heq, UInt32.toNat_ofNat_of_lt' (by omega)]
      omega
    · intro heq
      rw [heq, Nat.add_sub_cancel, UInt32.ofNat_toNat]
  · rw [if_neg hle]
    constructor
    · intro hnone
      cases hnone
    · intro heq
      omega

theorem loadAddress?_eq_some_iff {count : Nat} {symbols : List Symbol} {names : List Name}
    {load : UInt32} :
    loadAddress? count symbols names = some load ↔
      ∃ s name, symbols.head? = some s ∧ names.head? = some name ∧
        runAgrees count symbols names = true ∧
        s.nameAddress.toNat = load.toNat + name.address := by
  cases symbols with
  | nil => simp [loadAddress?]
  | cons s symbols =>
      cases names with
      | nil => simp [loadAddress?]
      | cons name names =>
          rw [loadAddress?]
          by_cases hagree : runAgrees count (s :: symbols) (name :: names) = true
          · rw [if_pos hagree, impliedLoad?_eq_some_iff]
            simp [hagree]
          · rw [if_neg hagree]
            simp [hagree]

/-- Stretches that begin at a distance and agree in their lengths keep that distance. -/
theorem aligned_of_runAgrees {count load : Nat} {symbols : List Symbol} {names : List Name}
    (hsymbols : symbols.IsChain Symbol.Reaches) (hnames : names.IsChain Name.Reaches)
    (hagree : runAgrees count symbols names = true)
    (hhead : ∀ s name, symbols.head? = some s → names.head? = some name →
      s.nameAddress.toNat = load + name.address) :
    ∀ k, k < count → ∃ s name, symbols[k]? = some s ∧ names[k]? = some name ∧
      s.nameAddress.toNat = load + name.address := by
  induction count generalizing symbols names with
  | zero => exact fun k hk => absurd hk (Nat.not_lt_zero k)
  | succ count ih =>
      obtain ⟨s, symbols, name, names, rfl, rfl, hlength, hrest⟩ := runAgrees_succ_iff.1 hagree
      have hfirst := hhead s name rfl rfl
      intro k hk
      cases k with
      | zero => exact ⟨s, name, rfl, rfl, hfirst⟩
      | succ k =>
          refine ih hsymbols.tail hnames.tail hrest ?_ k (Nat.lt_of_succ_lt_succ hk)
          -- the next pair is at the same distance, because the lengths are distances
          intro next nextName hnext hnextName
          obtain ⟨symbols, rfl⟩ := List.head?_eq_some_iff.1 hnext
          obtain ⟨names, rfl⟩ := List.head?_eq_some_iff.1 hnextName
          have hreach := (List.isChain_cons_cons.1 hsymbols).1
          have hreachName := (List.isChain_cons_cons.1 hnames).1
          rw [hreach.toNat_eq hreach.2, hfirst, ← hreachName]
          rw [lengthAgrees, hreach.2, Option.all_some, beq_iff_eq] at hlength
          omega

/-- The answer of a correlation comes from stretches of the two tables that agree. -/
theorem exists_stretches_of_correlate {budget : Budget} {symbols : List Symbol}
    {names : List Name} {count : Nat} {load : UInt32}
    (h : correlate budget symbols names count = .ok (some load)) :
    0 < count ∧ ∃ stretch tail, stretch <:+ symbols ∧ tail <:+ names ∧
      loadAddress? count stretch tail = some load := by
  have hfree := (Budget.keeps_correlate symbols names count).eq_ok h
  rw [correlate_unbounded] at hfree
  by_cases hzero : count = 0
  · rw [if_pos hzero] at hfree
    cases hfree
  · rw [if_neg hzero] at hfree
    exact ⟨Nat.pos_of_ne_zero hzero, exists_suffixes_of_firstPair (Except.ok.inj hfree)⟩

/-! ## Aligned tables -/

/-- An entry is a maximal null-free run of the image, and it could be the name of a function. -/
def Image.HoldsName (image : Image) (maxLength : Nat) (name : Name) : Prop :=
  ∃ stop, image.IsRun ⟨name.address, stop⟩ ∧ name.bytes = image.slice ⟨name.address, stop⟩ ∧
    isFunctionName maxLength name.bytes = true

/-- From one symbol and one name on, `count` symbols of a report have their names, at a load address,
where the image holds their counterparts. -/
structure Report.AlignedAt (report : Report) (image : Image) (maxLength : Nat) (load : UInt32)
    (count si ti : Nat) : Prop where
  symbols_le : si + count ≤ report.symbols.length
  names_le : ti + count ≤ report.names.length
  aligned : ∀ k, k < count → ∃ s name,
    report.symbols[si + k]? = some s ∧ report.names[ti + k]? = some name ∧
      s.nameAddress.toNat = load.toNat + name.address ∧ image.HoldsName maxLength name

theorem Image.HoldsName.isPrintable {image : Image} {maxLength : Nat} {name : Name}
    (h : image.HoldsName maxLength name) :
    (image.get? name.address).any FirmwareSymbols.isPrintable = true := by
  obtain ⟨stop, hrun, hbytes, hname⟩ := h
  obtain ⟨hne, _, hall⟩ := isFunctionName_iff.1 hname
  have hnonempty : name.address < stop := hrun.nonempty
  have hfirst : name.bytes[0]? = image.get? name.address := by
    rw [hbytes, slice, getElem?_window, if_pos (by show 0 < stop - name.address; omega)]
    rfl
  rw [← hfirst]
  cases hlist : name.bytes with
  | nil => exact absurd hlist hne
  | cons byte rest =>
      have hbyte := hall byte (by rw [hlist]; exact List.mem_cons_self ..)
      rw [isNameByte, Bool.and_eq_true] at hbyte
      exact hbyte.1

/-- Symbols that are aligned pass a probe of the load address. -/
theorem Report.AlignedAt.passesProbe {report : Report} {image : Image} {maxLength : Nat}
    {load : UInt32} {count si ti : Nat} (h : report.AlignedAt image maxLength load count si ti)
    (hpos : 0 < count) : image.passesProbe (report.symbols.drop si) count load = true := by
  refine Image.passesProbe_iff.2 ⟨?_, ?_⟩
  · have hle := h.symbols_le
    rw [ne_eq, List.drop_eq_nil_iff]
    omega
  · intro s hs
    obtain ⟨k, hk⟩ := List.mem_iff_getElem?.1 hs
    rw [List.getElem?_take] at hk
    by_cases hlt : k < count
    · rw [if_pos hlt, List.getElem?_drop] at hk
      obtain ⟨t, name, ht, _, haddress, hname⟩ := h.aligned k hlt
      rw [hk] at ht
      cases ht
      have hle : load ≤ s.nameAddress := UInt32.le_iff_toNat_le.2 (by omega)
      have hoffset : s.nameOffset? load = some name.address := by
        rw [Symbol.nameOffset?, if_pos hle, haddress, Nat.add_sub_cancel_left]
      rw [Image.showsName, hoffset, Option.bind_some]
      exact hname.isPrintable
    · rw [if_neg hlt] at hk
      cases hk

/-- The names that an analysis decodes beside a symbol table. -/
theorem Config.names_stringsBeside (config : Config) (image : Image) (table : SymbolTable) :
    (((config.stringsBeside image table).map (·.names)).getD []).IsChain Name.Reaches ∧
      ∀ name ∈ ((config.stringsBeside image table).map (·.names)).getD [],
        image.HoldsName config.maxNameLength.toNat name := by
  cases hstrings : config.stringsBeside image table with
  | none => exact ⟨List.isChain_nil, fun name hmem => absurd hmem List.not_mem_nil⟩
  | some strings =>
      obtain ⟨spans, _, hentries, _, hruns, hall⟩ := readNames_entries hstrings
      rw [Option.map_some, Option.getD_some, hentries]
      refine ⟨hruns.isChain_entries, ?_⟩
      intro name hmem
      obtain ⟨s, hs, haddress, hbytes⟩ := Image.mem_entries hmem
      obtain ⟨hrun, hname⟩ := hall s hs
      refine ⟨s.stop, ?_, ?_, ?_⟩
      · rwa [haddress]
      · rw [hbytes, haddress]
      · rwa [hbytes]

/-- Both tables of a report measure distances, and its names are runs of the image; so a correlated
load address aligns them. -/
theorem Config.alignedAt_of_analyze {config : Config} {strategy : Strategy} {image : Image}
    {budget : Budget} {report : Report} {load : UInt32}
    (hrun : config.analyze strategy image budget = .ok (some report))
    (hload : report.loadAddress = some load) (hsource : report.loadSource = some .correlated) :
    0 < config.requiredCount report.symbols.length ∧
      ∃ si ti, report.AlignedAt image config.maxNameLength.toNat load
        (config.requiredCount report.symbols.length) si ti := by
  obtain ⟨table, found, htable, hfound, rfl⟩ := analyze_eq_some_iff.1 hrun
  obtain ⟨extent, _, rfl⟩ := readSymbols_eq_some_iff.1 htable
  obtain rfl : found = some (load, .correlated) := by
    cases found with
    | none => cases hload
    | some pair =>
        obtain ⟨address, source⟩ := pair
        cases hload
        cases hsource
        rfl
  obtain ⟨hpos, stretch, tail, hstretch, htail, hpair⟩ :=
    exists_stretches_of_correlate (correlate_of_findLoad hfound)
  refine ⟨hpos, ?_⟩
  -- the stretches are tails of the two tables, and both tables are chains of distances
  obtain ⟨first, firstName, hfirst, hfirstName, hagree, hdistance⟩ :=
    loadAddress?_eq_some_iff.1 hpair
  have hhead : ∀ s name, stretch.head? = some s → tail.head? = some name →
      s.nameAddress.toNat = load.toNat + name.address := by
    intro s name hs hname
    rw [hfirst] at hs
    rw [hfirstName] at hname
    cases hs
    cases hname
    exact hdistance
  obtain ⟨hnames, hheld⟩ := names_stringsBeside config image (config.tableIn image extent)
  have hsymbols := config.release.isChain_decodeTable image
    (config.tableIn image extent).byteOrder extent
  have hkeep := aligned_of_runAgrees (hsymbols.suffix hstretch) (hnames.suffix htail) hagree hhead
  obtain ⟨hsymbolsLe, hnamesLe, _⟩ := runAgrees_iff.1 hagree
  obtain ⟨before, hbefore⟩ := hstretch
  obtain ⟨above, habove⟩ := htail
  refine ⟨before.length, above.length, ?_, ?_, ?_⟩
  · show _ ≤ (config.tableIn image extent).symbols.length
    rw [← hbefore, List.length_append]
    exact Nat.add_le_add_left hsymbolsLe _
  · show _ ≤ (((config.stringsBeside image (config.tableIn image extent)).map (·.names)).getD
      []).length
    rw [← habove, List.length_append]
    exact Nat.add_le_add_left hnamesLe _
  · intro k hk
    obtain ⟨s, name, hs, hname, haddress⟩ := hkeep k hk
    refine ⟨s, name, ?_, ?_, haddress, hheld name ?_⟩
    · show (config.tableIn image extent).symbols[_]? = some s
      rw [← hbefore, List.getElem?_append_right (Nat.le_add_right _ _), Nat.add_sub_cancel_left]
      exact hs
    · show (((config.stringsBeside image (config.tableIn image extent)).map (·.names)).getD
        [])[_]? = some name
      rw [← habove, List.getElem?_append_right (Nat.le_add_right _ _), Nat.add_sub_cancel_left]
      exact hname
    · rw [← habove]
      exact List.mem_append_right _ (List.mem_of_getElem? hname)

end FirmwareSymbols
