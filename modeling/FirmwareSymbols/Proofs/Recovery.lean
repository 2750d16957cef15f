import FirmwareSymbols.Proofs.Exhaustion
import FirmwareSymbols.Proofs.Linked.Names
import FirmwareSymbols.Proofs.Linked.Symbols

/-!
# What a scan recovers

A scan undoes the work of the linker: from the bytes of an image alone it
recovers where the tables are, what the records say, the names and their
lengths, and the address at which the image is loaded. The lengths of both
tables agree from the first entry on, so the correlation is decided by the
first pair that it tries.

## Main results

* `Linked.Apparent.analyze_eq`: a correlation reports the whole layout.
* `scan_recovers_layout`: so does a scan, unless its budget runs out.
* `correlated_load_address`: what a correlated load address guarantees of
  any image.
-/

namespace FirmwareSymbols

namespace Linked

variable {fw : Linked} {config : Config}

/-! ## The two tables agree -/

theorem length_symbolsOf (fw : Linked) (ps : List Placement) :
    (fw.symbolsOf ps).length = ps.length := by
  fun_induction symbolsOf fw ps with
  | case1 => rfl
  | case2 p => rfl
  | case3 p q rest ih => rw [List.length_cons, List.length_cons, ih]

/-- The symbols and the names of entries have the same lengths, as far as they have any. -/
theorem runAgrees_place (fw : Linked) {entries : List Entry} {offset count : Nat}
    (haddress : ∀ p ∈ place offset entries, fw.load.toNat + p.offset < UInt32.size)
    (hcount : count ≤ entries.length) :
    runAgrees count (fw.symbolsOf (place offset entries)) (namesOf (place offset entries)) =
      true := by
  induction entries generalizing offset count with
  | nil =>
      rw [Nat.le_zero.1 hcount]
      rfl
  | cons entry rest ih =>
      cases count with
      | zero => rfl
      | succ count =>
          cases rest with
          | nil =>
              rw [Nat.le_zero.1 (Nat.le_of_succ_le_succ hcount)]
              rfl
          | cons next rest =>
              have hrest := @ih (offset + entry.size) count
                (fun p hp => haddress p (List.mem_cons_of_mem _ hp))
                (Nat.le_of_succ_le_succ hcount)
              have hbound : fw.load.toNat + (offset + entry.size) < UInt32.size :=
                haddress ⟨offset + entry.size, next⟩
                  (List.mem_cons_of_mem _ (List.mem_cons_self ..))
              have hlength : (UInt32.ofNat entry.size).toNat = entry.size :=
                UInt32.toNat_ofNat_of_lt' (show entry.size < UInt32.size by omega)
              refine Bool.and_eq_true_iff.2 ⟨?_, hrest⟩
              show ((UInt32.ofNat entry.size).toNat == entry.size) = true
              rw [hlength]
              exact beq_self_eq_true entry.size

/-- The first pair that a correlation tries decides it. -/
theorem Lawful.correlate_eq (h : fw.Lawful config)
    (hcount : 0 < config.requiredCount fw.entries.length) :
    correlate .unbounded (fw.symbolsOf fw.placed) (namesOf fw.placed)
      (config.requiredCount fw.entries.length) = .ok (some fw.load) := by
  have haddress : ∀ p ∈ place fw.below.length fw.entries, fw.load.toNat + p.offset < UInt32.size :=
    fun p hp => (h.addressed p hp).2
  have hagree := fw.runAgrees_place haddress
    (show config.requiredCount fw.entries.length ≤ fw.entries.length from Nat.min_le_left ..)
  obtain ⟨entry, next, rest, hentries⟩ := h.exists_entries
  rw [correlate_unbounded, if_neg (by omega), placed]
  rw [hentries] at haddress hagree hcount ⊢
  have hfirst : fw.load.toNat + fw.below.length < UInt32.size :=
    haddress ⟨fw.below.length, entry⟩ (List.mem_cons_self ..)
  have hnext : fw.load.toNat + (fw.below.length + entry.size) < UInt32.size :=
    haddress ⟨fw.below.length + entry.size, next⟩
      (List.mem_cons_of_mem _ (List.mem_cons_self ..))
  have hlength : entry.size = (UInt32.ofNat entry.size).toNat :=
    (UInt32.toNat_ofNat_of_lt' (show entry.size < UInt32.size by omega)).symm
  have hvalue : (fw.nameAddress ⟨fw.below.length, entry⟩).toNat =
      fw.load.toNat + fw.below.length := UInt32.toNat_ofNat_of_lt' hfirst
  refine congrArg Except.ok (firstPair_of_loadAddress? rfl hlength ?_)
  exact loadAddress?_eq_some_iff.2 ⟨_, _, rfl, rfl, hagree, hvalue⟩

/-! ## The whole report -/

/-- An analysis that only correlates reports the whole layout. -/
theorem Apparent.analyze_eq (hclear : fw.Apparent config) (h : fw.Lawful config)
    (hcount : 0 < config.requiredCount fw.entries.length) :
    config.analyze .correlate fw.image .unbounded = .ok (some fw.report) := by
  have hlength : (fw.symbolsOf fw.placed).length = fw.entries.length := by
    rw [length_symbolsOf, placed, length_place]
  have hstrings : config.stringsBeside fw.image
      ⟨fw.tableExtent, fw.order, fw.symbolsOf fw.placed⟩ =
        some ⟨⟨fw.below.length, fw.namesStop⟩, namesOf fw.placed⟩ := by
    rw [Config.stringsBeside, hlength, hclear.readNames_eq h hcount]
  refine Config.analyze_eq_some_iff.2
    ⟨⟨fw.tableExtent, fw.order, fw.symbolsOf fw.placed⟩, some (fw.load, .correlated),
      hclear.readSymbols_eq h, ?_, ?_⟩
  · rw [hstrings, Config.findLoad_eq_bind, hlength]
    show (correlate .unbounded (fw.symbolsOf fw.placed) (namesOf fw.placed)
      (config.requiredCount fw.entries.length)).bind _ = _
    rw [h.correlate_eq hcount]
    rfl
  · rw [hstrings, Config.reportOf, h.release_eq]
    rfl

end Linked

/-! ## A small layout -/

/-- Two names whose records come in the other order. -/
def Linked.sample : Linked where
  release := .v6
  order := .big
  load := 0x10000
  below := []
  entries := [⟨[0x6c, 0x73], 2, 0x20000, 0x05⟩, ⟨[0x63, 0x64], 1, 0, 0x09⟩]
  between := [0]
  table := [⟨4, [0x63, 0x64], 1, 0, 0x09⟩, ⟨0, [0x6c, 0x73], 2, 0x20000, 0x05⟩]
  above := [0]

/-- Settings for an image of two symbols. -/
def Analyzer.ofTwo : Analyzer :=
  ⟨{ release := .v6, minTableRun := 2, anchorNames := ["cd"] }, by decide⟩

namespace Linked

theorem lawful_sample : sample.Lawful Analyzer.ofTwo.config where
  release_eq := rfl
  two_le := by decide
  minRun_le := by decide
  opens := .inl rfl
  isName := by decide
  padded := by decide
  arranged := by decide
  typed := by decide
  defined := by decide
  addressed := by decide

theorem apparent_sample : sample.Apparent Analyzer.ofTwo.config where
  starts := by decide +kernel
  least := by decide +kernel
  ends := by decide +kernel
  order := by decide +kernel
  anchored := ⟨1, ⟨4, [0x63, 0x64], 1, 0, 0x09⟩, ⟨4, "cd"⟩, rfl, by decide +kernel, rfl,
    .inl fun byte hbyte => absurd hbyte List.not_mem_nil⟩
  closedAbove := by
    intro s hrun hbehind _
    have htext := hrun.text s.start (Nat.le_refl _) hrun.nonempty
    have hclear : ∀ offset, offset < 13 → 7 ≤ offset → sample.image.isText offset = false := by
      decide +kernel
    refine .inl ?_
    show 4 < s.start - 6
    rcases Nat.lt_or_ge s.start 13 with hlt | hge
    · rw [hclear s.start hlt hbehind] at htext
      cases htext
    · omega

end Linked

/-! ## Scans -/

theorem Analyzer.requiredCount_pos (analyzer : Analyzer) {available : Nat}
    (h : 0 < available) : 0 < analyzer.config.requiredCount available := by
  have hcheck : analyzer.config.checkCount.toNat ≠ 0 :=
    fun hzero => analyzer.valid.2.1 (UInt64.toNat_inj.1 hzero)
  show 0 < min available analyzer.config.checkCount.toNat
  omega

/-- A scan of a linked image reports the layout that the linker was given: both tables with all their
entries in the order of the names, the byte order and the load address. A budget can only keep it
from answering. -/
theorem scan_recovers_layout {analyzer : Analyzer} {fw : Linked}
    (hlawful : fw.Lawful analyzer.config) (hclear : fw.Apparent analyzer.config) :
    (analyzer.config.timeBudgetMillis = none →
      analyzer.scan fw.image = .ok (some fw.report)) ∧
    ∀ budget,
      analyzer.config.analyze .correlate fw.image budget = .ok (some fw.report) ∨
        budget.Exhausts (analyzer.config.analyze .correlate fw.image budget) := by
  have hpos : 0 < fw.entries.length := Nat.lt_of_lt_of_le Nat.two_pos hlawful.two_le
  have hanswer := hclear.analyze_eq hlawful (analyzer.requiredCount_pos hpos)
  constructor
  · intro hnone
    rw [Analyzer.scan, Config.budget, hnone]
    exact hanswer
  · intro budget
    have hkept : budget.Keeps (analyzer.config.analyze .correlate fw.image budget)
        (analyzer.config.analyze .correlate fw.image .unbounded) :=
      Budget.keeps_analyze analyzer.config .correlate fw.image
    rw [hanswer] at hkept
    exact hkept.answer

/-- The names `ls` and `cd`, whose records come in the other order, are recovered. -/
theorem scan_recovers_sample :
    Linked.sample.Lawful Analyzer.ofTwo.config ∧ Linked.sample.Apparent Analyzer.ofTwo.config ∧
      Analyzer.ofTwo.scan Linked.sample.image = .ok (some Linked.sample.report) :=
  ⟨Linked.lawful_sample, Linked.apparent_sample,
    (scan_recovers_layout Linked.lawful_sample Linked.apparent_sample).1 rfl⟩

/-- A correlated load address is right for as many neighbouring entries as have to agree: there are a
symbol and a name from which on each symbol has its name exactly where the image, loaded at that
address, holds a whole string, which could be the name of a function. So a probe accepts the address
for these symbols. -/
theorem correlated_load_address {analyzer : Analyzer} {image : Image} {report : Report}
    {load : UInt32}
    (hrun : analyzer.scan image = .ok (some report) ∨ analyzer.analyze image = .ok (some report))
    (hload : report.loadAddress = some load) (hsource : report.loadSource = some .correlated) :
    ∃ si ti,
      report.AlignedAt image analyzer.config.maxNameLength.toNat load
        (min report.symbols.length analyzer.config.checkCount.toNat) si ti ∧
      image.passesProbe (report.symbols.drop si)
        (min report.symbols.length analyzer.config.checkCount.toNat) load = true := by
  have haligned : 0 < analyzer.config.requiredCount report.symbols.length ∧
      ∃ si ti, report.AlignedAt image analyzer.config.maxNameLength.toNat load
        (analyzer.config.requiredCount report.symbols.length) si ti := by
    rcases hrun with hscan | hanalyze
    · exact Config.alignedAt_of_analyze hscan hload hsource
    · exact Config.alignedAt_of_analyze hanalyze hload hsource
  obtain ⟨hpos, si, ti, hat⟩ := haligned
  exact ⟨si, ti, hat, hat.passesProbe hpos⟩

/-- The load address of the small layout is correlated, and its two names are aligned. -/
theorem correlated_load_address_sample :
    Analyzer.ofTwo.scan Linked.sample.image = .ok (some Linked.sample.report) ∧
      ∃ si ti,
        Linked.sample.report.AlignedAt Linked.sample.image 255 0x10000 2 si ti ∧
        Linked.sample.image.passesProbe (Linked.sample.report.symbols.drop si) 2 0x10000 =
          true := by
  have hscan : Analyzer.ofTwo.scan Linked.sample.image = .ok (some Linked.sample.report) :=
    Linked.apparent_sample.analyze_eq Linked.lawful_sample (by decide)
  exact ⟨hscan, correlated_load_address (.inl hscan) rfl rfl⟩

end FirmwareSymbols
