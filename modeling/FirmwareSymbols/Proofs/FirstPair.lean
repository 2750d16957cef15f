import FirmwareSymbols.Proofs.Alignment

/-!
# The first pair of a correlation

A correlation looks up the strings of a symbol's length in an index and
passes over symbols without a length. That saves time and changes nothing:
it answers what two plain loops over all symbols and all strings answer,
which is the load address of the lexicographically least pair that implies
one.

## Main results

* `everyPair_eq_some_iff`, `everyPair_eq_none_iff`: the two loops.
* `firstPair_eq_everyPair`: nothing is lost by the index.
* `correlate_leastPair`: what a correlation answers.
-/

namespace FirmwareSymbols

/-! ## Pairs of places -/

/-- From a symbol and an entry on both tables have `count` entries, and each of these symbols that has a
length has that of the entry beside it. -/
structure StretchesAgree (symbols : List Symbol) (names : List Name) (count si ti : Nat) :
    Prop where
  symbols_le : si + count ≤ symbols.length
  names_le : ti + count ≤ names.length
  lengths : ∀ k s name length, k < count → symbols[si + k]? = some s →
    names[ti + k]? = some name → s.nameLength = some length → length.toNat = name.length

/-- A symbol and an entry imply a load address: stretches that are not empty agree from there on, the symbol
has a length, and the entry does not lie above the symbol's name. -/
structure PairImplies (symbols : List Symbol) (names : List Name) (count si ti : Nat)
    (load : UInt32) : Prop where
  pos : 0 < count
  agree : StretchesAgree symbols names count si ti
  implied : ∃ s name length, symbols[si]? = some s ∧ names[ti]? = some name ∧
    s.nameLength = some length ∧ name.address < UInt32.size ∧
    name.address ≤ s.nameAddress.toNat ∧ load.toNat = s.nameAddress.toNat - name.address

/-- What the plain loops answer for one pair of stretches. -/
def pairLoad? (count : Nat) (stretch : List Symbol) (tail : List Name) : Option UInt32 :=
  if count = 0 ∨ stretch.head?.bind Symbol.nameLength = none then none
  else loadAddress? count stretch tail

/-- The plain loops: symbol by symbol and, for one symbol, entry by entry, without an index. -/
def everyPair (count : Nat) (symbols : List Symbol) (names : List Name) : Option UInt32 :=
  symbols.tails.findSome? fun stretch => names.tails.findSome? (pairLoad? count stretch)

/-! ## Searches over tails -/

/-- A search over the tails of a list finds the first place that has an answer. -/
theorem findSome?_tails_eq_some_iff {α β : Type} {f : List α → Option β} {list : List α} {b : β} :
    list.tails.findSome? f = some b ↔
      ∃ i, f (list.drop i) = some b ∧ ∀ j, j < i → f (list.drop j) = none := by
  induction list with
  | nil =>
      rw [List.tails, List.findSome?_singleton]
      constructor
      · exact fun h => ⟨0, h, fun j hj => absurd hj (Nat.not_lt_zero j)⟩
      · rintro ⟨i, h, _⟩
        rwa [List.drop_nil] at h
  | cons a rest ih =>
      rw [List.tails, List.findSome?_cons]
      cases hfirst : f (a :: rest) with
      | some c =>
          constructor
          · rintro heq
            exact ⟨0, hfirst.trans heq, fun j hj => absurd hj (Nat.not_lt_zero j)⟩
          · rintro ⟨i, hi, hbefore⟩
            cases i with
            | zero => rwa [List.drop_zero, hfirst] at hi
            | succ i =>
                have hnone := hbefore 0 (Nat.succ_pos i)
                rw [List.drop_zero, hfirst] at hnone
                cases hnone
      | none =>
          rw [ih]
          constructor
          · rintro ⟨i, hi, hbefore⟩
            refine ⟨i + 1, hi, fun j hj => ?_⟩
            cases j with
            | zero => exact hfirst
            | succ j => exact hbefore j (Nat.lt_of_succ_lt_succ hj)
          · rintro ⟨i, hi, hbefore⟩
            cases i with
            | zero =>
                rw [List.drop_zero, hfirst] at hi
                cases hi
            | succ i => exact ⟨i, hi, fun j hj => hbefore (j + 1) (Nat.succ_lt_succ hj)⟩

theorem findSome?_tails_eq_none_iff {α β : Type} {f : List α → Option β} {list : List α} :
    list.tails.findSome? f = none ↔ ∀ i, f (list.drop i) = none := by
  rw [List.findSome?_eq_none_iff]
  constructor
  · exact fun h i => h _ ((List.mem_tails _ _).2 (List.drop_suffix i list))
  · intro h tail htail
    rw [List.suffix_iff_eq_drop.1 ((List.mem_tails _ _).1 htail)]
    exact h _

/-- Leaving out elements that have no answer does not change a search. -/
theorem findSome?_filter_of_none {α β : Type} {p : α → Bool} {f : α → Option β} (list : List α)
    (h : ∀ a, p a = false → f a = none) : (list.filter p).findSome? f = list.findSome? f := by
  induction list with
  | nil => rfl
  | cons a rest ih =>
      cases hp : p a with
      | true =>
          rw [List.filter_cons_of_pos hp, List.findSome?_cons, List.findSome?_cons, ih]
      | false =>
          rw [List.filter_cons_of_neg (by rw [hp]; exact Bool.false_ne_true), ih,
            List.findSome?_cons, h a hp]

/-! ## The plain loops -/

theorem runAgrees_drop_iff {symbols : List Symbol} {names : List Name} {count si ti : Nat}
    (hpos : 0 < count) :
    runAgrees count (symbols.drop si) (names.drop ti) = true ↔
      StretchesAgree symbols names count si ti := by
  rw [runAgrees_iff, List.length_drop, List.length_drop]
  constructor
  · rintro ⟨hsymbols, hnames, hall⟩
    refine ⟨by omega, by omega, fun k s name length hk hs hname hlength => ?_⟩
    have hpair : ((symbols.drop si).zip (names.drop ti))[k]? = some (s, name) := by
      rw [List.getElem?_zip_eq_some, List.getElem?_drop, List.getElem?_drop]
      exact ⟨hs, hname⟩
    have hagrees := hall (s, name) <| List.mem_of_getElem? <| by
      rw [List.getElem?_take, if_pos hk]
      exact hpair
    rw [lengthAgrees, hlength, Option.all_some, beq_iff_eq] at hagrees
    exact hagrees
  · intro h
    have hsymbols := h.symbols_le
    have hnames := h.names_le
    refine ⟨by omega, by omega, fun pair hpair => ?_⟩
    obtain ⟨k, hk⟩ := List.mem_iff_getElem?.1 hpair
    rw [List.getElem?_take] at hk
    by_cases hlt : k < count
    · rw [if_pos hlt, List.getElem?_zip_eq_some, List.getElem?_drop, List.getElem?_drop] at hk
      rw [lengthAgrees]
      cases hlength : pair.1.nameLength with
      | none => rfl
      | some length =>
          exact beq_iff_eq.2 (h.lengths k pair.1 pair.2 length hlt hk.1 hk.2 hlength)
    · rw [if_neg hlt] at hk
      cases hk

/-- What a pair of stretches answers, told by where they begin. -/
theorem pairLoad?_drop_eq_some_iff {symbols : List Symbol} {names : List Name}
    {count si ti : Nat} {load : UInt32} :
    pairLoad? count (symbols.drop si) (names.drop ti) = some load ↔
      PairImplies symbols names count si ti load := by
  rw [pairLoad?, List.head?_drop]
  by_cases hidle : count = 0 ∨ symbols[si]?.bind Symbol.nameLength = none
  · rw [if_pos hidle]
    constructor
    · intro h
      cases h
    · rintro ⟨hpos, _, s, name, length, hs, _, hlength, _⟩
      rcases hidle with hzero | hnone
      · omega
      · rw [hs, Option.bind_some, hlength] at hnone
        cases hnone
  · obtain ⟨hcount, hmeasured⟩ := not_or.1 hidle
    have hpos : 0 < count := Nat.pos_of_ne_zero hcount
    rw [if_neg hidle, loadAddress?_eq_some_iff, List.head?_drop, List.head?_drop]
    constructor
    · rintro ⟨s, name, hs, hname, hagree, hload⟩
      obtain ⟨length, hlength⟩ := Option.ne_none_iff_exists'.1 hmeasured
      rw [hs, Option.bind_some] at hlength
      have hlt := s.nameAddress.toNat_lt_size
      exact ⟨hpos, (runAgrees_drop_iff hpos).1 hagree, s, name, length, hs, hname, hlength,
        by omega, by omega, by omega⟩
    · rintro ⟨_, hagree, s, name, length, hs, hname, _, _, hle, hload⟩
      exact ⟨s, name, hs, hname, (runAgrees_drop_iff hpos).2 hagree, by omega⟩

theorem pairLoad?_drop_eq_none_iff {symbols : List Symbol} {names : List Name}
    {count si ti : Nat} :
    pairLoad? count (symbols.drop si) (names.drop ti) = none ↔
      ∀ load, ¬ PairImplies symbols names count si ti load := by
  simp only [Option.eq_none_iff_forall_ne_some, ne_eq, pairLoad?_drop_eq_some_iff]

theorem everyPair_eq_none_iff {symbols : List Symbol} {names : List Name} {count : Nat} :
    everyPair count symbols names = none ↔
      ∀ si ti load, ¬ PairImplies symbols names count si ti load := by
  simp only [everyPair, findSome?_tails_eq_none_iff, pairLoad?_drop_eq_none_iff]

/-- The plain loops answer for the lexicographically least pair that implies a load address. -/
theorem everyPair_eq_some_iff {symbols : List Symbol} {names : List Name} {count : Nat}
    {load : UInt32} :
    everyPair count symbols names = some load ↔
      ∃ si ti, PairImplies symbols names count si ti load ∧
        ∀ sj tj other, PairImplies symbols names count sj tj other →
          si < sj ∨ si = sj ∧ ti ≤ tj := by
  simp only [everyPair, findSome?_tails_eq_some_iff, findSome?_tails_eq_none_iff,
    pairLoad?_drop_eq_some_iff, pairLoad?_drop_eq_none_iff]
  constructor
  · rintro ⟨si, ⟨ti, himplies, hbeforeName⟩, hbeforeSymbol⟩
    refine ⟨si, ti, himplies, fun sj tj other hother => ?_⟩
    rcases Nat.lt_trichotomy si sj with hlt | rfl | hgt
    · exact .inl hlt
    · refine .inr ⟨rfl, Nat.le_of_not_lt fun hlt => ?_⟩
      exact hbeforeName tj hlt other hother
    · exact absurd hother (hbeforeSymbol sj hgt tj other)
  · rintro ⟨si, ti, himplies, hleast⟩
    refine ⟨si, ⟨ti, himplies, fun tj hlt other hother => ?_⟩,
      fun sj hlt tj other hother => ?_⟩
    · have := hleast si tj other hother
      omega
    · have := hleast sj tj other hother
      omega

/-! ## The index -/

/-- An entry of another length than the symbol's implies nothing. -/
theorem loadAddress?_eq_none {count : Nat} {s : Symbol} {rest : List Symbol} {tail : List Name}
    {length : UInt32} (hpos : 0 < count) (hlength : s.nameLength = some length)
    (hne : (tail.head?.any (·.length == length.toNat)) = false) :
    loadAddress? count (s :: rest) tail = none := by
  cases tail with
  | nil => rfl
  | cons name names =>
      obtain ⟨count, rfl⟩ := Nat.exists_eq_succ_of_ne_zero (Nat.ne_of_gt hpos)
      rw [List.head?_cons, Option.any_some] at hne
      have hdiffers : lengthAgrees s name = false := by
        rw [lengthAgrees, hlength, Option.all_some, BEq.comm]
        exact hne
      rw [loadAddress?, runAgrees, hdiffers, Bool.false_and, if_neg Bool.false_ne_true]

/-- For one stretch of symbols, the entries that the index holds answer as all entries do. -/
theorem findSome?_counterparts {count : Nat} (hpos : 0 < count) (names : List Name)
    (stretch : List Symbol) :
    (counterparts names stretch).findSome? (loadAddress? count stretch) =
      names.tails.findSome? (pairLoad? count stretch) := by
  have hidle : stretch.head?.bind Symbol.nameLength = none →
      names.tails.findSome? (pairLoad? count stretch) = none := by
    intro hnone
    rw [List.findSome?_eq_none_iff]
    intro tail _
    rw [pairLoad?, if_pos (.inr hnone)]
  cases stretch with
  | nil => rw [hidle rfl]; rfl
  | cons s rest =>
      cases hlength : s.nameLength with
      | none =>
          rw [hidle hlength, counterparts, hlength]
          rfl
      | some length =>
          have hmeasured : pairLoad? count (s :: rest) = loadAddress? count (s :: rest) := by
            funext tail
            rw [pairLoad?, if_neg]
            rintro (hzero | hnone)
            · omega
            · rw [List.head?_cons, Option.bind_some, hlength] at hnone
              cases hnone
          rw [counterparts, hlength, Option.map_some, Option.getD_some, tailsOfLength, hmeasured]
          exact findSome?_filter_of_none _ fun tail hne => loadAddress?_eq_none hpos hlength hne

/-- The search with an index answers what the plain loops answer. -/
theorem firstPair_eq_everyPair {count : Nat} (hpos : 0 < count) (symbols : List Symbol)
    (names : List Name) : firstPair count symbols names = everyPair count symbols names := by
  rw [firstPair, everyPair]
  congr 1
  funext stretch
  exact findSome?_counterparts hpos names stretch

/-- Without a budget a correlation answers what the plain loops answer. -/
theorem correlate_eq_everyPair (symbols : List Symbol) (names : List Name) (count : Nat) :
    correlate .unbounded symbols names count = .ok (everyPair count symbols names) := by
  rw [correlate_unbounded]
  by_cases hzero : count = 0
  · have hnone : everyPair count symbols names = none :=
      everyPair_eq_none_iff.2 fun si ti load himplies => absurd hzero (Nat.ne_of_gt himplies.pos)
    rw [if_pos hzero, hnone]
  · rw [if_neg hzero, firstPair_eq_everyPair (Nat.pos_of_ne_zero hzero)]

/-- A correlation answers what two plain loops over all pairs answer: the load address of the
lexicographically least pair that implies one, or none if no pair does. -/
theorem correlate_leastPair (symbols : List Symbol) (names : List Name) (count : Nat) :
    correlate .unbounded symbols names count = .ok (everyPair count symbols names) ∧
    (∀ load, correlate .unbounded symbols names count = .ok (some load) ↔
      ∃ si ti, PairImplies symbols names count si ti load ∧
        ∀ sj tj other, PairImplies symbols names count sj tj other →
          si < sj ∨ si = sj ∧ ti ≤ tj) ∧
    (correlate .unbounded symbols names count = .ok none ↔
      ∀ si ti load, ¬ PairImplies symbols names count si ti load) := by
  refine ⟨correlate_eq_everyPair symbols names count, fun load => ?_, ?_⟩
  · rw [correlate_eq_everyPair, Except.ok.injEq, everyPair_eq_some_iff]
  · rw [correlate_eq_everyPair, Except.ok.injEq, everyPair_eq_none_iff]

end FirmwareSymbols
