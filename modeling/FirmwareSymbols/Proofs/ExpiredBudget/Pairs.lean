import FirmwareSymbols.Proofs.DetectedOrder
import FirmwareSymbols.Proofs.ExpiredBudget

/-!
# Correlations whose budget has run out

A correlation has one counter for all symbols, and what it counts are the
pairs of a symbol and an entry of equal length. In the order in which they
come, which is that of the symbols and for one symbol that of the entries,
they are the candidates of one search. So the correlation stops as a scan
does: at the first reading, unless a pair before it implies a load address
or there are too few pairs to come so far.

## Main definitions

* `equalPairs`: the pairs that a correlation counts.
* `PairsStopAt`: what a correlation answers if it stops at an iteration.

## Main results

* `mem_equalPairs_iff`, `pairwise_equalPairs`: which pairs are counted, and
  in which order.
* `correlateFrom_expired`: the counter goes on from symbol to symbol.
* `length_equalPairs_of_uniform`: how many pairs there are if all entries
  are equally long.
* `pairsStopAt_of_orFault`: what the correlation answers.
* `expired_answers`: what both searches answer.
-/

namespace FirmwareSymbols

/-! ## Searches through a part of a list -/

/-- Tests that agree on a list find the same in it. -/
theorem findSome?_congr_of_mem {α β : Type} {f g : α → Option β} {list : List α}
    (h : ∀ a ∈ list, f a = g a) : list.findSome? f = list.findSome? g := by
  rw [← Function.id_comp f, ← List.findSome?_map, List.map_congr_left h, List.findSome?_map,
    Function.id_comp]

/-- A search through the first `n` elements finds the first answer if it is among theirs. -/
theorem findSome?_take_eq_some_iff {α β : Type} {f : α → Option β} {list : List α} {n : Nat}
    {b : β} :
    (list.take n).findSome? f = some b ↔
      ∃ before a after, list = before ++ a :: after ∧ before.length < n ∧ f a = some b ∧
        ∀ c ∈ before, f c = none := by
  rw [List.findSome?_eq_some_iff]
  constructor
  · rintro ⟨before, a, after, hsplit, ha, hbefore⟩
    have hlength := congrArg List.length hsplit
    rw [List.length_take, List.length_append, List.length_cons] at hlength
    refine ⟨before, a, after ++ list.drop n, ?_, by omega, ha, hbefore⟩
    rw [← List.cons_append, ← List.append_assoc, ← hsplit, List.take_append_drop]
  · rintro ⟨before, a, after, rfl, hlt, ha, hbefore⟩
    obtain ⟨room, hroom⟩ : ∃ room, n - before.length = room + 1 :=
      ⟨n - before.length - 1, by omega⟩
    refine ⟨before, a, after.take room, ?_, ha, hbefore⟩
    rw [List.take_append, List.take_of_length_le (Nat.le_of_lt hlt), hroom, List.take_succ_cons]

/-! ## Pairs of equal length -/

/-- Whether the symbol and the entry at two places have the same length. -/
def lengthsEqual (symbols : List Symbol) (names : List Name) (si ti : Nat) : Bool :=
  (symbols[si]?.bind Symbol.nameLength).any fun length =>
    names[ti]?.any (·.length == length.toNat)

/-- The places of the symbols and entries of equal length, symbol by symbol and, for one symbol, entry by
entry. -/
def equalPairs (symbols : List Symbol) (names : List Name) : List (Nat × Nat) :=
  (List.range symbols.length).flatMap fun si =>
    ((List.range names.length).filter (lengthsEqual symbols names si)).map fun ti => (si, ti)

theorem lengthsEqual_iff {symbols : List Symbol} {names : List Name} {si ti : Nat} :
    lengthsEqual symbols names si ti = true ↔
      ∃ s name length, symbols[si]? = some s ∧ names[ti]? = some name ∧
        s.nameLength = some length ∧ length.toNat = name.length := by
  rw [lengthsEqual, Option.any_eq_true]
  simp only [Option.bind_eq_some_iff, Option.any_eq_true, beq_iff_eq]
  constructor
  · rintro ⟨length, ⟨s, hs, hlength⟩, name, hname, heq⟩
    exact ⟨s, name, length, hs, hname, hlength, heq.symm⟩
  · rintro ⟨s, name, length, hs, hname, hlength, heq⟩
    exact ⟨length, ⟨s, hs, hlength⟩, name, hname, heq.symm⟩

/-- All pairs of equal length are counted, and no others. -/
theorem mem_equalPairs_iff {symbols : List Symbol} {names : List Name} {si ti : Nat} :
    (si, ti) ∈ equalPairs symbols names ↔
      ∃ s name length, symbols[si]? = some s ∧ names[ti]? = some name ∧
        s.nameLength = some length ∧ length.toNat = name.length := by
  simp only [equalPairs, List.mem_flatMap, List.mem_map, List.mem_filter, List.mem_range,
    lengthsEqual_iff, Prod.mk.injEq]
  constructor
  · rintro ⟨_, _, _, ⟨_, hequal⟩, rfl, rfl⟩
    exact hequal
  · rintro ⟨s, name, length, hs, hname, hequal⟩
    exact ⟨si, (List.getElem?_eq_some_iff.1 hs).1, ti,
      ⟨(List.getElem?_eq_some_iff.1 hname).1, s, name, length, hs, hname, hequal⟩, rfl, rfl⟩

theorem equalPairs_eq_nil {symbols : List Symbol} {names : List Name}
    (hempty : symbols = [] ∨ names = []) : equalPairs symbols names = [] := by
  rw [List.eq_nil_iff_forall_not_mem]
  rintro ⟨si, ti⟩ hpair
  obtain ⟨s, name, _, hs, hname, _⟩ := mem_equalPairs_iff.1 hpair
  rcases hempty with rfl | rfl
  · cases hs
  · cases hname

/-- The pairs come in the order of the symbols and, for one symbol, of the entries. -/
theorem pairwise_equalPairs (symbols : List Symbol) (names : List Name) :
    (equalPairs symbols names).Pairwise fun pair next =>
      pair.1 < next.1 ∨ pair.1 = next.1 ∧ pair.2 < next.2 := by
  rw [equalPairs, List.pairwise_flatMap]
  constructor
  · intro si _
    rw [List.pairwise_map]
    exact (List.pairwise_lt_range.filter _).imp fun hlt => .inr ⟨rfl, hlt⟩
  · refine List.pairwise_lt_range.imp fun {si sj} hlt => ?_
    intro pair hpair next hnext
    obtain ⟨ti, _, rfl⟩ := List.mem_map.1 hpair
    obtain ⟨tj, _, rfl⟩ := List.mem_map.1 hnext
    exact .inl hlt

/-- A pair that implies a load address has equal lengths. -/
theorem PairImplies.mem_equalPairs {symbols : List Symbol} {names : List Name}
    {count si ti : Nat} {load : UInt32} (h : PairImplies symbols names count si ti load) :
    (si, ti) ∈ equalPairs symbols names := by
  obtain ⟨s, name, length, hs, hname, hlength, _⟩ := h.implied
  refine mem_equalPairs_iff.2 ⟨s, name, length, hs, hname, hlength, ?_⟩
  exact h.agree.lengths 0 s name length h.pos hs hname hlength

/-! ## Pairs of stretches -/

/-- The stretches that a correlation compares, in its order. -/
def stretchPairs (symbols : List Symbol) (names : List Name) :
    List (List Symbol × List Name) :=
  symbols.tails.flatMap fun stretch => (counterparts names stretch).map (stretch, ·)

theorem tails_eq_map_drop {α : Type} (list : List α) :
    list.tails = (List.range (list.length + 1)).map list.drop := by
  induction list with
  | nil => rfl
  | cons a rest ih =>
      rw [List.tails, ih, List.length_cons, List.range_succ_eq_map (n := rest.length + 1),
        List.map_cons, List.map_map]
      rfl

/-- The tails that begin with an entry of some length, told by their places. -/
theorem tailsOfLength_eq_map_drop (length : Nat) (names : List Name) :
    tailsOfLength length names =
      ((List.range names.length).filter fun ti => names[ti]?.any (·.length == length)).map
        names.drop := by
  have hlast : names[names.length]?.any (·.length == length) = false := by
    rw [List.getElem?_eq_none (Nat.le_refl _)]
    rfl
  rw [tailsOfLength, tails_eq_map_drop, List.filter_map, List.range_succ, List.filter_append]
  simp only [Function.comp_def, List.head?_drop, List.filter_singleton, hlast]
  simp

/-- The counterparts of a stretch, told by their places. -/
theorem counterparts_drop (symbols : List Symbol) (names : List Name) (si : Nat) :
    counterparts names (symbols.drop si) =
      ((List.range names.length).filter (lengthsEqual symbols names si)).map names.drop := by
  have hfirst : counterparts names (symbols.drop si) =
      ((symbols[si]?.bind Symbol.nameLength).map fun length =>
        tailsOfLength length.toNat names).getD [] := by
    rw [← List.head?_drop]
    cases symbols.drop si <;> rfl
  rw [hfirst, show lengthsEqual symbols names si = fun ti => _ from funext fun ti => rfl]
  simp only [lengthsEqual]
  cases symbols[si]?.bind Symbol.nameLength with
  | none => simp
  | some length => exact tailsOfLength_eq_map_drop length.toNat names

/-- The stretches are those that begin at the pairs of equal length. -/
theorem stretchPairs_eq_map (symbols : List Symbol) (names : List Name) :
    stretchPairs symbols names =
      (equalPairs symbols names).map fun pair =>
        (symbols.drop pair.1, names.drop pair.2) := by
  have hlast : counterparts names (symbols.drop symbols.length) = [] := by
    rw [List.drop_length]
    rfl
  rw [stretchPairs, tails_eq_map_drop, List.flatMap_map, List.range_succ, List.flatMap_append,
    List.flatMap_singleton, hlast, List.map_nil, List.append_nil, equalPairs, List.map_flatMap]
  congr 1
  funext si
  rw [counterparts_drop, List.map_map, List.map_map]
  rfl

/-- If all entries have one length, each symbol of this length makes a pair with every one of them. -/
theorem length_equalPairs_of_uniform {symbols : List Symbol} {names : List Name} {length : UInt32}
    (huniform : ∀ name ∈ names, name.length = length.toNat) :
    (equalPairs symbols names).length =
      symbols.countP (fun s => s.nameLength == some length) * names.length := by
  have hcounterparts : ∀ s rest, (counterparts names (s :: rest)).length =
      if s.nameLength == some length then names.length else 0 := by
    intro s rest
    have hpair : ∀ ti ∈ List.range names.length,
        lengthsEqual (s :: rest) names 0 ti = (s.nameLength == some length) := by
      intro ti hti
      have hentry := List.getElem?_eq_getElem (List.mem_range.1 hti)
      have hlength := huniform _ (List.getElem_mem (List.mem_range.1 hti))
      rw [lengthsEqual, List.getElem?_cons_zero, Option.bind_some]
      simp only [hentry, Option.any_some, hlength]
      cases s.nameLength with
      | none => rfl
      | some own =>
          rw [Option.any_some, Bool.eq_iff_iff, beq_iff_eq, beq_iff_eq, Option.some.injEq,
            UInt32.toNat_inj, eq_comm]
    have hdrop := counterparts_drop (s :: rest) names 0
    rw [List.drop_zero] at hdrop
    rw [hdrop, List.length_map, List.filter_congr hpair]
    split
    · rename_i hsame
      rw [hsame, List.filter_true, List.length_range]
    · rename_i hother
      rw [Bool.not_eq_true] at hother
      rw [hother, List.filter_false, List.length_nil]
  have hstretches : (stretchPairs symbols names).length =
      symbols.countP (fun s => s.nameLength == some length) * names.length := by
    induction symbols with
    | nil => rw [List.countP_nil, Nat.zero_mul]; rfl
    | cons s rest ih =>
        have hsplit : stretchPairs (s :: rest) names =
            (counterparts names (s :: rest)).map (s :: rest, ·) ++ stretchPairs rest names := rfl
        rw [hsplit, List.length_append, List.length_map, hcounterparts, ih, List.countP_cons]
        split
        · rw [Nat.succ_mul, Nat.add_comm]
        · rw [Nat.zero_add, Nat.add_zero]
  rw [← hstretches, stretchPairs_eq_map, List.length_map]

/-- If all entries lie above all names of the symbols, no pair implies a load address. -/
theorem not_pairImplies_of_above {symbols : List Symbol} {names : List Name} {bound : Nat}
    (hsymbols : ∀ s ∈ symbols, s.nameAddress.toNat < bound)
    (hnames : ∀ name ∈ names, bound ≤ name.address) (count si ti : Nat) (load : UInt32) :
    ¬ PairImplies symbols names count si ti load := by
  intro himplies
  obtain ⟨s, name, _, hs, hname, _, _, hle, _⟩ := himplies.implied
  have hlow := hsymbols s (List.mem_of_getElem? hs)
  have hhigh := hnames name (List.mem_of_getElem? hname)
  omega

/-! ## The counter of a correlation -/

/-- The pairs of one symbol are tried up to the first reading. -/
theorem firstSome_counterparts (clock : Search → Nat → Nat) {interval done : Nat}
    (hdone : done < interval) (count : Nat) (stretch : List Symbol) (tails : List (List Name)) :
    ((Budget.expired clock).counter .correlation interval).firstSome
        (fun k => (tails.toArray[k]?).bind (loadAddress? count stretch)) done 0
        tails.toArray.size =
      orFault (.searchExhausted "load_address_resolve" interval (clock .correlation interval))
        (done + tails.length < interval)
        ((tails.take (interval - 1 - done)).findSome? (loadAddress? count stretch)) := by
  have htests := firstSomeFrom_getElem? (loadAddress? count stretch) tails 0
    (min tails.length (interval - 1 - done))
  rw [List.drop_zero, Nat.min_comm, ← List.take_eq_take_min] at htests
  simp only [List.getElem?_toArray, List.size_toArray]
  rw [Counter.firstSome_expired _ hdone, Nat.min_comm, htests]
  rfl

/-- The counter goes on from symbol to symbol, so all pairs of stretches are one search. -/
theorem correlateFrom_expired (clock : Search → Nat → Nat) {interval : Nat} (names : List Name)
    (count : Nat) {done : Nat} (hdone : done < interval) (symbols : List Symbol) :
    correlateFrom ((Budget.expired clock).counter .correlation interval) (lengthIndex names)
        count done symbols =
      orFault (.searchExhausted "load_address_resolve" interval (clock .correlation interval))
        (done + (stretchPairs symbols names).length < interval)
        (((stretchPairs symbols names).take (interval - 1 - done)).findSome? fun pair =>
          loadAddress? count pair.1 pair.2) := by
  induction symbols generalizing done with
  | nil =>
      rw [show stretchPairs [] names = [] from rfl, List.take_nil, List.findSome?_nil, orFault,
        List.length_nil, Nat.add_zero, if_pos hdone]
      rfl
  | cons s rest ih =>
      -- the pairs of the first symbol come first, and the others begin where its count ends
      have hsplit : stretchPairs (s :: rest) names =
          (counterparts names (s :: rest)).map (s :: rest, ·) ++ stretchPairs rest names := rfl
      rw [Budget.correlateFrom_cons, getD_map_lengthIndex names s rest]
      dsimp only
      rw [firstSome_counterparts clock hdone, List.size_toArray, hsplit, List.take_append,
        List.findSome?_append, ← List.map_take, List.findSome?_map, List.length_append,
        List.length_map, ← Nat.add_assoc]
      simp only [Function.comp_def]
      cases ((counterparts names (s :: rest)).take (interval - 1 - done)).findSome?
          (loadAddress? count (s :: rest)) with
      | some load => rfl
      | none =>
          rw [Option.none_or, orFault]
          by_cases hgoes : done + (counterparts names (s :: rest)).length < interval
          · rw [if_pos hgoes, Nat.sub_sub (interval - 1)]
            exact ih hgoes
          · have hstop : interval - 1 - done - (counterparts names (s :: rest)).length = 0 := by
              omega
            rw [if_neg hgoes, hstop, List.take_zero, List.findSome?_nil, orFault, if_neg (by omega)]
            rfl

/-! ## The answer of a correlation -/

/-- What a correlation answers that would stop with a fault at an iteration, the pairs of equal length
being counted from one on: the load address of the first pair that implies one if that pair comes before,
the fault if there is a pair for that iteration and none before it implies a load address, and nothing if
there is neither. -/
structure PairsStopAt (symbols : List Symbol) (names : List Name) (count : Nat) (budget : Budget)
    (iteration : Nat) (fault : Fault) : Prop where
  found : ∀ load, correlate budget symbols names count = .ok (some load) ↔
    ∃ before si ti after, equalPairs symbols names = before ++ (si, ti) :: after ∧
      before.length + 1 < iteration ∧ PairImplies symbols names count si ti load ∧
      ∀ pair ∈ before, ∀ other, ¬ PairImplies symbols names count pair.1 pair.2 other
  fails : ∀ other, correlate budget symbols names count = .error other ↔
    other = fault ∧ iteration ≤ (equalPairs symbols names).length ∧
      ∀ pair ∈ (equalPairs symbols names).take (iteration - 1),
        ∀ load, ¬ PairImplies symbols names count pair.1 pair.2 load
  nothing : correlate budget symbols names count = .ok none ↔
    (equalPairs symbols names).length < iteration ∧
      ∀ si ti load, ¬ PairImplies symbols names count si ti load

/-- What a pair of equal length answers. -/
theorem loadAddress?_eq_pairLoad? {symbols : List Symbol} {names : List Name} {count : Nat}
    (hpos : 0 < count) {pair : Nat × Nat} (hpair : pair ∈ equalPairs symbols names) :
    loadAddress? count (symbols.drop pair.1) (names.drop pair.2) =
      pairLoad? count (symbols.drop pair.1) (names.drop pair.2) := by
  obtain ⟨s, name, length, hs, _, hlength, _⟩ := mem_equalPairs_iff.1 hpair
  rw [pairLoad?, List.head?_drop, hs, Option.bind_some, hlength, if_neg]
  rintro (hzero | hnone)
  · omega
  · cases hnone

/-- A correlation is one search over the pairs of equal length, up to the first reading. -/
theorem correlate_expired (clock : Search → Nat → Nat) {count : Nat} (hpos : 0 < count)
    (symbols : List Symbol) (names : List Name) :
    correlate (.expired clock) symbols names count =
      orFault (.searchExhausted "load_address_resolve" defaultInterval
          (clock .correlation defaultInterval))
        ((equalPairs symbols names).length < defaultInterval)
        (((equalPairs symbols names).take (defaultInterval - 1)).findSome? fun pair =>
          pairLoad? count (symbols.drop pair.1) (names.drop pair.2)) := by
  have hcounted : (((equalPairs symbols names).take (defaultInterval - 1)).findSome? fun pair =>
      loadAddress? count (symbols.drop pair.1) (names.drop pair.2)) =
      ((equalPairs symbols names).take (defaultInterval - 1)).findSome? fun pair =>
        pairLoad? count (symbols.drop pair.1) (names.drop pair.2) :=
    findSome?_congr_of_mem fun pair hpair =>
      loadAddress?_eq_pairLoad? hpos (List.mem_of_mem_take hpair)
  have hsearch := correlateFrom_expired clock names count (show 0 < defaultInterval by decide)
    symbols
  rw [stretchPairs_eq_map, List.length_map, ← List.map_take, List.findSome?_map, Nat.zero_add,
    Nat.sub_zero] at hsearch
  simp only [Function.comp_def, hcounted] at hsearch
  rw [correlate]
  split
  · -- without symbols or names no pair is counted, and a search through no pairs comes to its end
    rename_i hidle
    simp only [Bool.or_eq_true, List.isEmpty_iff, beq_iff_eq] at hidle
    rw [equalPairs_eq_nil (hidle.resolve_right (Nat.ne_of_gt hpos))]
    rfl
  · exact hsearch

/-- A correlation stops where its search over the pairs of equal length stops. -/
theorem pairsStopAt_of_orFault {symbols : List Symbol} {names : List Name} {count iteration : Nat}
    {budget : Budget} {fault : Fault} (hiteration : 0 < iteration)
    (hsearch : correlate budget symbols names count =
      orFault fault ((equalPairs symbols names).length < iteration)
        (((equalPairs symbols names).take (iteration - 1)).findSome? fun pair =>
          pairLoad? count (symbols.drop pair.1) (names.drop pair.2))) :
    PairsStopAt symbols names count budget iteration fault := by
  refine ⟨fun load => ?_, fun other => ?_, ?_⟩
  · rw [hsearch, orFault_eq_some_iff, findSome?_take_eq_some_iff]
    simp only [Prod.exists, pairLoad?_drop_eq_some_iff, pairLoad?_drop_eq_none_iff,
      Nat.lt_sub_iff_add_lt]
  · rw [hsearch, orFault_eq_error_iff, List.findSome?_eq_none_iff]
    simp only [pairLoad?_drop_eq_none_iff, Nat.not_lt]
    constructor
    · exact fun ⟨hnone, hpast, hsame⟩ => ⟨hsame, hpast, hnone⟩
    · exact fun ⟨hsame, hpast, hnone⟩ => ⟨hnone, hpast, hsame⟩
  · rw [hsearch, orFault_eq_none_iff, List.findSome?_eq_none_iff]
    simp only [pairLoad?_drop_eq_none_iff]
    constructor
    · rintro ⟨hnone, hall⟩
      refine ⟨hall, fun si ti load himplies => ?_⟩
      rw [List.take_of_length_le (by omega)] at hnone
      exact hnone (si, ti) himplies.mem_equalPairs load himplies
    · exact fun ⟨hall, hnone⟩ => ⟨fun pair _ => hnone pair.1 pair.2, hall⟩

/-- What searches answer whose budget has run out before they begin. -/
theorem expired_answers (clock : Search → Nat → Nat) :
    (∀ (config : Config) (image : Image), config.release.recordSize ≤ image.size →
      config.release.recordSize * config.minTableRun.toNat ≤ image.size →
        (config.parallelScan = false → config.StopsAt image (.expired clock) 1024
          (.searchExhausted "symbol_table_scan" 1024 (clock .sequentialScan 1024))) ∧
        (config.parallelScan = true → config.StopsAt image (.expired clock) 4096
          (.searchExhausted "symbol_table_scan" 4096 (clock (.blockScan 0) 4096)))) ∧
    ∀ (symbols : List Symbol) (names : List Name) (count : Nat), 0 < count →
      (∀ si ti, (si, ti) ∈ equalPairs symbols names ↔
        ∃ s name length, symbols[si]? = some s ∧ names[ti]? = some name ∧
          s.nameLength = some length ∧ length.toNat = name.length) ∧
      ((equalPairs symbols names).Pairwise fun pair next =>
        pair.1 < next.1 ∨ pair.1 = next.1 ∧ pair.2 < next.2) ∧
      PairsStopAt symbols names count (.expired clock) 1024
        (.searchExhausted "load_address_resolve" 1024 (clock .correlation 1024)) :=
  ⟨fun _ _ hrecord hroom => Config.stopsAt_findTable clock hrecord hroom,
    fun symbols names _ hpos => ⟨fun _ _ => mem_equalPairs_iff, pairwise_equalPairs symbols names,
      pairsStopAt_of_orFault (by decide) (correlate_expired clock hpos symbols names)⟩⟩

/-! ## Both sides of a reading -/

/-- An image of nulls. -/
def nulls (size : Nat) : Image := .ofList (List.replicate size 0)

theorem size_nulls (size : Nat) : (nulls size).size = size := List.length_replicate

/-- No table begins in an image of nulls. -/
theorem not_beginsTable_nulls (release : Release) {size count offset : Nat} (hcount : 0 < count) :
    ¬ release.BeginsTable (nulls size) count offset := by
  intro hbegins
  have hrecord := hbegins.records 0 hcount
  rw [Release.recordAt, Image.window_eq, nulls, Image.toList_ofList, List.drop_replicate,
    List.take_replicate] at hrecord
  obtain ⟨hlength, _, hname, _⟩ := Release.accepts_iff.1 hrecord
  rw [List.length_replicate] at hlength
  rw [hlength] at hname
  apply hname
  cases release <;> rfl

/-- Symbols with a length of four and a low name address. -/
def lowSymbols (m : Nat) : List Symbol := List.replicate m ⟨12, 3, 0x10010000, some 4, 0x0500, 0x05⟩

/-- Names of four bytes that lie above the name addresses. -/
def highNames (n : Nat) : List Name := List.replicate n ⟨4, [0x63, 0x64], 4⟩

/-- All pairs have equal lengths. -/
theorem length_equalPairs_low (m n : Nat) :
    (equalPairs (lowSymbols m) (highNames n)).length = m * n := by
  have huniform : ∀ name ∈ highNames n, name.length = (4 : UInt32).toNat := fun name hname => by
    rw [(List.mem_replicate.1 hname).2]
    rfl
  rw [length_equalPairs_of_uniform huniform, lowSymbols, highNames, List.countP_replicate,
    List.length_replicate]
  rfl

/-- No pair implies a load address. -/
theorem not_pairImplies_low (m n count si ti : Nat) (load : UInt32) :
    ¬ PairImplies (lowSymbols m) (highNames n) count si ti load := by
  have hsymbols : ∀ s ∈ lowSymbols m, s.nameAddress.toNat < 4 := fun s hs => by
    rw [(List.mem_replicate.1 hs).2]
    decide
  have hnames : ∀ name ∈ highNames n, 4 ≤ name.address := fun name hname => by
    rw [(List.mem_replicate.1 hname).2]
  exact not_pairImplies_of_above hsymbols hnames count si ti load

/-- Without any time left a table at the first candidate is found, and so is the load address that the
first pair implies. Where there is no table, an image with 1023 candidates is scanned to its end in one go,
and a block of 4095 candidates to its end, while one candidate more makes the scan fail. Where no pair
implies a load address, 1023 pairs are tried, and 1024 make the correlation fail. -/
theorem expired_answers_ownNames :
    Release.v5.recordSize ≤ Release.ownNames.size ∧
      Release.v5.recordSize * 3 ≤ Release.ownNames.size ∧
      Config.findTable { minTableRun := 3 } Release.ownNames (.expired fun _ _ => 0) =
        .ok (some ⟨0, 48⟩) ∧
      Release.v5.IsFirstTable Release.ownNames 3 ⟨0, 48⟩ ∧ 0 < 1 ∧
      (∃ load, correlate (.expired fun _ _ => 0)
        [⟨12, 0x10000004, 0x10010000, some 4, 0x0500, 0x05⟩] [⟨4, [0x63, 0x64], 4⟩] 1 =
          .ok (some load)) ∧
      Config.findTable { minTableRun := 3, parallelScan := false } (nulls 1070)
        (.expired fun _ _ => 0) = .ok none ∧
      Config.findTable { minTableRun := 3, parallelScan := false } (nulls 1071)
        (.expired fun _ _ => 0) = .error (.searchExhausted "symbol_table_scan" 1024 0) ∧
      Config.findTable { minTableRun := 3 } (nulls 4142) (.expired fun _ _ => 0) = .ok none ∧
      Config.findTable { minTableRun := 3 } (nulls 4143) (.expired fun _ _ => 0) =
        .error (.searchExhausted "symbol_table_scan" 4096 0) ∧
      correlate (.expired fun _ _ => 0) (lowSymbols 31) (highNames 33) 1 = .ok none ∧
      correlate (.expired fun _ _ => 0) (lowSymbols 32) (highNames 32) 1 =
        .error (.searchExhausted "load_address_resolve" 1024 0) := by
  have hrecord : Release.v5.recordSize ≤ Release.ownNames.size := by decide +kernel
  have hroom : Release.v5.recordSize * 3 ≤ Release.ownNames.size := by decide +kernel
  have hfound : Config.findTable { minTableRun := 3 } Release.ownNames (.expired fun _ _ => 0) =
      .ok (some ⟨0, 48⟩) := by decide +kernel
  obtain ⟨hscan, hpairs⟩ := expired_answers fun _ _ => 0
  have hload := hpairs [⟨12, 0x10000004, 0x10010000, some 4, 0x0500, 0x05⟩]
    [⟨4, [0x63, 0x64], 4⟩] 1 (by decide)
  -- in an image of nulls only the number of candidates decides
  have hnone : ∀ size offset, ¬ Release.v5.BeginsTable (nulls size) 3 offset := fun size offset =>
    not_beginsTable_nulls .v5 (by decide)
  have hcandidates : ∀ config : Config, config.release.recordSize * config.minTableRun.toNat = 48 →
      ∀ size, config.candidates (nulls size) = size - 48 + 1 := fun config hrun size => by
    rw [Config.candidates, size_nulls, hrun]
  have hinOrder := fun size (hsize : 48 ≤ (nulls size).size) =>
    (hscan { minTableRun := 3, parallelScan := false } (nulls size)
      (Nat.le_trans (by decide) hsize) hsize).1 rfl
  have hblocks := fun size (hsize : 48 ≤ (nulls size).size) =>
    (hscan { minTableRun := 3 } (nulls size) (Nat.le_trans (by decide) hsize) hsize).2 rfl
  refine ⟨hrecord, hroom, hfound, ?_, by decide, ⟨0x10000000, ?_⟩, ?_, ?_, ?_, ?_, ?_, ?_⟩
  · exact ((((hscan { minTableRun := 3 } _ hrecord hroom).2 rfl).found _).1 hfound).1
  · exact (hload.2.2.found _).2 ⟨[], 0, 0, [], by decide +kernel, by decide,
      pairLoad?_drop_eq_some_iff.1 (by decide +kernel), fun _ hearlier =>
        absurd hearlier List.not_mem_nil⟩
  · refine (hinOrder 1070 (by rw [size_nulls]; decide)).nothing.2 ⟨?_, hnone 1070⟩
    rw [hcandidates _ rfl]
    decide
  · refine ((hinOrder 1071 (by rw [size_nulls]; decide)).fails _).2 ⟨rfl, ?_,
      fun table hfirst => absurd hfirst.begins (hnone 1071 _)⟩
    rw [hcandidates _ rfl]
  · refine (hblocks 4142 (by rw [size_nulls]; decide)).nothing.2 ⟨?_, hnone 4142⟩
    rw [hcandidates _ rfl]
    decide
  · refine ((hblocks 4143 (by rw [size_nulls]; decide)).fails _).2 ⟨rfl, ?_,
      fun table hfirst => absurd hfirst.begins (hnone 4143 _)⟩
    rw [hcandidates _ rfl]
  · refine (hpairs _ _ 1 (by decide)).2.2.nothing.2 ⟨?_, not_pairImplies_low 31 33 1⟩
    rw [length_equalPairs_low]
    decide
  · refine ((hpairs _ _ 1 (by decide)).2.2.fails _).2 ⟨rfl, ?_,
      fun pair _ => not_pairImplies_low 32 32 1 _ _⟩
    rw [length_equalPairs_low]

end FirmwareSymbols
