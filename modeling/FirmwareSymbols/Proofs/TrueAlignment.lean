import FirmwareSymbols.Proofs.FirstPair
import FirmwareSymbols.Proofs.RunList
import FirmwareSymbols.Proofs.SlotSymbols

/-!
# Completeness of the correlation

If the symbols of a table do have their names in the string table, all at
one load address, then a correlation has an answer. The pair of the first
symbol and its own name always agrees, so the answer comes from the first
symbol. It may come from an earlier string, though: one that happens to
begin a stretch of the same lengths is taken instead, and since it lies
lower in the image, the load address that it implies is higher.

## Main results

* `Image.tiled_namesWithin`: what splitting a span gives.
* `stretchesAgree_of_alignedFrom`: tables that are aligned agree in their
  lengths.
* `correlate_of_alignedFrom`: an alignment is found unless an earlier
  string shadows it.
-/

namespace FirmwareSymbols

/-! ## Entries of a span -/

/-- Entries as splitting a span leaves them: none is empty, and each but the last reaches to the next one. -/
structure Name.Tiled (names : List Name) : Prop where
  reaches : names.IsChain Name.Reaches
  nonempty : ∀ name ∈ names, 0 < name.length

/-- Entries that tile lie one above the other. -/
theorem Name.Tiled.pairwise {names : List Name} (h : Name.Tiled names) :
    names.Pairwise fun name next => name.address < next.address := by
  have hascending : names.IsChain fun name next => name.address < next.address := by
    refine List.IsChain.imp_of_mem_imp (fun name next hname _ hreach => ?_) h.reaches
    have hnonempty := h.nonempty name hname
    rw [Name.Reaches] at hreach
    omega
  exact List.isChain_iff_pairwise.1 hascending

theorem Name.Tiled.address_lt {names : List Name} (h : Name.Tiled names) {i j : Nat}
    {name next : Name} (hname : names[i]? = some name) (hnext : names[j]? = some next)
    (hlt : i < j) : name.address < next.address := by
  obtain ⟨hi, rfl⟩ := List.getElem?_eq_some_iff.1 hname
  obtain ⟨hj, rfl⟩ := List.getElem?_eq_some_iff.1 hnext
  exact List.pairwise_iff_getElem.1 h.pairwise i j hi hj hlt

theorem Name.Tiled.address_le {names : List Name} (h : Name.Tiled names) {i j : Nat}
    {name next : Name} (hname : names[i]? = some name) (hnext : names[j]? = some next)
    (hle : i ≤ j) : name.address ≤ next.address := by
  rcases Nat.eq_or_lt_of_le hle with rfl | hlt
  · rw [hname, Option.some.injEq] at hnext
    exact Nat.le_of_eq (congrArg Name.address hnext)
  · exact Nat.le_of_lt (h.address_lt hname hnext hlt)

namespace Image

variable {image : Image}

theorem lt_entryStop {bound lo : Nat} {spans : List Span} (h : image.Runs bound lo spans)
    {offset : Nat} (hlo : offset < lo) : offset < image.entryStop bound spans := by
  cases spans with
  | nil =>
      have hle := h.1
      rw [entryStop]
      split <;> omega
  | cons s rest =>
      have hstart := h.1.le_start
      show offset < s.start
      omega

theorem Runs.tiled_entries {bound lo : Nat} {spans : List Span} (h : image.Runs bound lo spans) :
    Name.Tiled (image.entries bound spans) := by
  refine ⟨h.isChain_entries, ?_⟩
  induction spans generalizing lo with
  | nil => exact fun name hname => absurd hname List.not_mem_nil
  | cons s rest ih =>
      obtain ⟨hfirst, hrest⟩ := h
      intro name hname
      rcases List.mem_cons.1 hname with rfl | hname
      · have hstop := lt_entryStop hrest hfirst.nonempty
        show 0 < image.entryStop bound rest - s.start
        omega
      · exact ih hrest name hname

/-- A span that begins behind the end of the image has no entries, and neither has one that ends before
it begins. -/
theorem namesWithin_eq_nil {table : Span} (hlt : min table.stop image.size < table.start) :
    image.namesWithin table = [] := by
  have hnone : image.name? table.start (min table.stop image.size) = none := by
    rw [name?, (stringWithin?_eq_none_iff (Nat.min_le_right _ _)).2 (clear_of_le (Nat.le_of_lt hlt))]
    rfl
  rw [namesWithin, namesFrom]
  split
  · rfl
  · next hsome =>
      rw [hnone] at hsome
      cases hsome

/-- Whatever span an image is split in, the entries tile. -/
theorem tiled_namesWithin (image : Image) (table : Span) :
    Name.Tiled (image.namesWithin table) := by
  have hsize : min table.stop image.size ≤ image.size := Nat.min_le_right _ _
  rcases Nat.lt_or_ge (min table.stop image.size) table.start with hlt | hge
  · rw [namesWithin_eq_nil hlt]
    exact ⟨List.isChain_nil, fun name hname => absurd hname List.not_mem_nil⟩
  · obtain ⟨spans, hruns⟩ := exists_runs hge hsize
    rw [namesWithin, namesFrom_eq_entries hsize spans _ _ hruns]
    exact hruns.tiled_entries

end Image

/-! ## Aligned tables -/

/-- From an entry on the entries are the names of all the symbols, at a load address. -/
def AlignedFrom (symbols : List Symbol) (names : List Name) (load : UInt32) (t : Nat) : Prop :=
  ∀ k s, symbols[k]? = some s →
    ∃ name, names[t + k]? = some name ∧ s.nameAddress.toNat = load.toNat + name.address

section Aligned

variable {symbols : List Symbol} {names : List Name} {load : UInt32} {t count : Nat}

theorem rel_of_isChain {α : Type} {R : α → α → Prop} {list : List α} (h : list.IsChain R) {i : Nat}
    {a b : α} (ha : list[i]? = some a) (hb : list[i + 1]? = some b) : R a b := by
  obtain ⟨hi, rfl⟩ := List.getElem?_eq_some_iff.1 hb
  obtain ⟨_, rfl⟩ := List.getElem?_eq_some_iff.1 ha
  exact List.isChain_iff_getElem.1 h i hi

/-- A symbol that is followed by another one is as long as its entry. -/
theorem AlignedFrom.length_eq (h : AlignedFrom symbols names load t)
    (hsymbols : symbols.IsChain Symbol.Reaches) (hnames : names.IsChain Name.Reaches) {k : Nat}
    {s next : Symbol} {name : Name} (hs : symbols[k]? = some s)
    (hnext : symbols[k + 1]? = some next) (hname : names[t + k]? = some name) :
    s.nameLength = some (next.nameAddress - s.nameAddress) ∧
      (next.nameAddress - s.nameAddress).toNat = name.length := by
  obtain ⟨own, hown, haddress⟩ := h k s hs
  obtain ⟨nextName, hnextName, hnextAddress⟩ := h (k + 1) next hnext
  rw [hname] at hown
  cases hown
  rw [← Nat.add_assoc] at hnextName
  have hreach := rel_of_isChain hsymbols hs hnext
  have hreachName : name.address + name.length = nextName.address :=
    rel_of_isChain hnames hname hnextName
  have hdistance := hreach.toNat_eq hreach.2
  exact ⟨hreach.2, by omega⟩

/-- Tables that are aligned agree in their lengths: those of the symbols are the distances of their names, and
the last symbol has none. -/
theorem stretchesAgree_of_alignedFrom (hsymbols : Symbol.Measured symbols)
    (hnames : names.IsChain Name.Reaches) (h : AlignedFrom symbols names load t)
    (hpos : 0 < count) (hcount : count ≤ symbols.length) :
    StretchesAgree symbols names count 0 t := by
  refine ⟨by omega, ?_, ?_⟩
  · have hlast : symbols[count - 1]? = some symbols[count - 1] :=
      List.getElem?_eq_getElem (by omega)
    obtain ⟨name, hname, _⟩ := h _ _ hlast
    obtain ⟨hlt, _⟩ := List.getElem?_eq_some_iff.1 hname
    omega
  · intro k s name length hk hs hname hlength
    rw [Nat.zero_add] at hs
    cases hnext : symbols[k + 1]? with
    | none =>
        have hnone := hsymbols.last s <| by
          rw [List.getLast?_eq_getElem?, ← hs]
          have := List.getElem?_eq_none_iff.1 hnext
          congr 1
          omega
        rw [hlength] at hnone
        cases hnone
    | some next =>
        obtain ⟨hmeasured, heq⟩ := h.length_eq hsymbols.reaches hnames hs hnext hname
        rw [hlength] at hmeasured
        rw [Option.some.inj hmeasured, heq]

/-- At or before its own name, whatever agrees with the first symbol implies a load address with it. -/
theorem AlignedFrom.exists_implied (h : AlignedFrom symbols names load t)
    (hsymbols : Symbol.Measured symbols) (htwo : 2 ≤ symbols.length) (hnames : Name.Tiled names)
    (hpos : 0 < count) {ti : Nat} (hle : ti ≤ t)
    (hagree : StretchesAgree symbols names count 0 ti) :
    ∃ implied, PairImplies symbols names count 0 ti implied := by
  have hfirst : symbols[0]? = some symbols[0] := List.getElem?_eq_getElem (by omega)
  have hsecond : symbols[0 + 1]? = some symbols[1] := List.getElem?_eq_getElem (by omega)
  obtain ⟨own, hown, haddress⟩ := h 0 _ hfirst
  obtain ⟨hlength, _⟩ := h.length_eq hsymbols.reaches hnames.reaches hfirst hsecond hown
  have hinside := hagree.names_le
  have hname : names[ti]? = some names[ti] := List.getElem?_eq_getElem (by omega)
  have hbelow := hnames.address_le hname hown hle
  have hword := symbols[0].nameAddress.toNat_lt_size
  refine ⟨.ofNat (symbols[0].nameAddress.toNat - names[ti].address), hpos, hagree, _, _, _, hfirst,
    hname, hlength, by omega, by omega, UInt32.toNat_ofNat_of_lt' (by omega)⟩

/-- A lower name implies a higher load address. -/
theorem AlignedFrom.load_le (h : AlignedFrom symbols names load t) (hnames : Name.Tiled names)
    {ti : Nat} (hle : ti ≤ t) {found : UInt32}
    (himplies : PairImplies symbols names count 0 ti found) :
    load ≤ found ∧ (found = load ↔ ti = t) := by
  obtain ⟨s, name, _, hs, hname, _, _, _, hfound⟩ := himplies.implied
  obtain ⟨own, hown, haddress⟩ := h 0 s hs
  rw [UInt32.le_iff_toNat_le, ← UInt32.toNat_inj]
  rcases Nat.eq_or_lt_of_le hle with rfl | hlt
  · rw [Nat.add_zero, hname] at hown
    cases hown
    omega
  · have hbelow := hnames.address_lt hname hown hlt
    omega

/-- Symbols that are aligned are found at their load address, or at a higher one that comes from an earlier
entry at which a stretch of the same lengths begins. -/
theorem correlate_of_alignedFrom (hsymbols : Symbol.Measured symbols) (htwo : 2 ≤ symbols.length)
    (hnames : Name.Tiled names) (h : AlignedFrom symbols names load t) (hpos : 0 < count)
    (hcount : count ≤ symbols.length) :
    ∃ found, correlate .unbounded symbols names count = .ok (some found) ∧ load ≤ found ∧
      (found = load ↔ ∀ ti, ti < t → ¬ StretchesAgree symbols names count 0 ti) := by
  have hagree := stretchesAgree_of_alignedFrom hsymbols hnames.reaches h hpos hcount
  obtain ⟨own, hown⟩ := h.exists_implied hsymbols htwo hnames hpos (Nat.le_refl t) hagree
  cases hpair : everyPair count symbols names with
  | none => exact absurd hown (everyPair_eq_none_iff.1 hpair 0 t own)
  | some found =>
      obtain ⟨si, ti, himplies, hleast⟩ := everyPair_eq_some_iff.1 hpair
      -- the least pair is not behind that of the first symbol and its name
      obtain ⟨rfl, hle⟩ : si = 0 ∧ ti ≤ t := by
        have := hleast 0 t own hown
        omega
      obtain ⟨hload, hexact⟩ := h.load_le hnames hle himplies
      refine ⟨found, by rw [correlate_eq_everyPair, hpair], hload, hexact.trans ⟨?_, ?_⟩⟩
      · rintro rfl tj hlt hearlier
        obtain ⟨other, hother⟩ :=
          h.exists_implied hsymbols htwo hnames hpos (Nat.le_of_lt hlt) hearlier
        have := hleast 0 tj other hother
        omega
      · intro hnone
        refine Nat.le_antisymm hle (Nat.le_of_not_lt fun hlt => ?_)
        exact hnone ti hlt himplies.agree

end Aligned

/-- The names `ls`, `cd` and `bz`, each with two nulls behind it, and a table with symbols for the last two. -/
def evenNames : Image := .ofList
  [0x6C, 0x73, 0, 0, 0x63, 0x64, 0, 0, 0x62, 0x7A, 0, 0,
   0, 0, 0, 0, 0x10, 0, 0, 0x04, 0x10, 0x01, 0, 0, 0, 0, 0x05, 0,
   0, 0, 0, 0, 0x10, 0, 0, 0x08, 0x10, 0x01, 0, 0, 0, 0, 0x05, 0]

theorem decodeTable_evenNames :
    Release.v5.decodeTable evenNames .big ⟨12, 44⟩ =
      [⟨12, 0x10000004, 0x10010000, some 4, 0x0500, 0x05⟩,
       ⟨28, 0x10000008, 0x10010000, none, 0x0500, 0x05⟩] := by
  rw [Release.decodeTable, Symbol.sortByName, List.mergeSort_of_pairwise (by decide +kernel)]
  decide +kernel

theorem namesWithin_evenNames :
    evenNames.namesWithin ⟨0, 10⟩ =
      [⟨0, [0x6C, 0x73], 4⟩, ⟨4, [0x63, 0x64], 4⟩, ⟨8, [0x62, 0x7A], 3⟩] := by
  decide +kernel

theorem alignedFrom_evenNames :
    AlignedFrom (Release.v5.decodeTable evenNames .big ⟨12, 44⟩) (evenNames.namesWithin ⟨0, 10⟩)
      0x10000000 1 := by
  rw [decodeTable_evenNames, namesWithin_evenNames]
  intro k s hs
  match k with
  | 0 => exact ⟨_, rfl, by cases hs; rfl⟩
  | 1 => exact ⟨_, rfl, by cases hs; rfl⟩

/-- The names of the two symbols are found one name too low: `ls` is as long as `cd`. -/
theorem correlate_of_alignedFrom_evenNames :
    AlignedFrom (Release.v5.decodeTable evenNames .big ⟨12, 44⟩) (evenNames.namesWithin ⟨0, 10⟩)
        0x10000000 1 ∧
      ∃ found, correlate .unbounded (Release.v5.decodeTable evenNames .big ⟨12, 44⟩)
          (evenNames.namesWithin ⟨0, 10⟩) 2 = .ok (some found) ∧ 0x10000000 < found := by
  have hlength : (Release.v5.decodeTable evenNames .big ⟨12, 44⟩).length = 2 := by
    rw [decodeTable_evenNames]
    rfl
  obtain ⟨found, hfound, hle, hexact⟩ := correlate_of_alignedFrom
    (Release.v5.symbolsOf_decodeTable evenNames .big ⟨12, 44⟩).measured (by rw [hlength])
    (evenNames.tiled_namesWithin ⟨0, 10⟩) alignedFrom_evenNames (show 0 < 2 by decide)
    (by rw [hlength])
  refine ⟨alignedFrom_evenNames, found, hfound, Std.lt_of_le_of_ne hle fun heq => ?_⟩
  refine hexact.1 heq.symm 0 (by decide) ((runAgrees_drop_iff (by decide)).1 ?_)
  rw [decodeTable_evenNames, namesWithin_evenNames]
  decide

end FirmwareSymbols
