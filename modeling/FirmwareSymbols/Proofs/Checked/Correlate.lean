import FirmwareSymbols.Proofs.Checked
import FirmwareSymbols.Proofs.CountedPairs

/-!
# The correlation, step by step

The correlation of the two tables once more, with steps that can be
trapped. Pairs are pairs of places in the two tables, and a stretch is cut
from a table only if the table goes on for that long.

The pairs are counted in a word, and their number is no size of anything:
it may be as large as the product of the lengths of the tables. How large a
word is left open here. Whatever its greatest value, a correlation is
trapped if and only if it comes to a pair that the word has no room for.

## Main results

* `Checked.runMatches_eq`: the comparison of two stretches.
* `Checked.tryPlaces_eq`, `Checked.correlateFrom_eq`: the pairs of one
  symbol and of all symbols.
* `Checked.correlate_eq`: the correlation.
-/

namespace FirmwareSymbols

namespace Checked

/-! ## Stretches -/

/-- Whether `count` entries agree from two places in the tables on. -/
def runMatches (symbols : List Symbol) (names : List Name) (si ti count : Nat) : Checked Bool := do
  let symbolsStop ← add si count
  if symbols.length < symbolsStop then .ok false
  else do
    let namesStop ← add ti count
    if names.length < namesStop then .ok false
    else do
      let stretch ← part symbols si symbolsStop
      let counterpart ← part names ti namesStop
      .ok ((stretch.zip counterpart).all fun pair => lengthAgrees pair.1 pair.2)

/-- The load address at which a symbol's name would be loaded from where an entry lies. There is none
if the place of the entry is no address or lies behind the address of the name. -/
def impliedLoad? (s : Symbol) (name : Name) : Option UInt32 :=
  if name.address < 4294967296 then
    if UInt32.ofNat name.address ≤ s.nameAddress then
      some (s.nameAddress - UInt32.ofNat name.address)
    else none
  else none

/-- The places of the entries of a length, the first of which is at `i`. -/
def placesFrom (length i : Nat) : List Name → List Nat
  | [] => []
  | name :: rest =>
    if name.length = length then i :: placesFrom length (i + 1) rest
    else placesFrom length (i + 1) rest

/-- The places that a symbol is compared with. -/
def placesOf (names : List Name) (s : Symbol) : List Nat :=
  (s.nameLength.map fun length => placesFrom length.toNat 0 names).getD []

variable {symbols : List Symbol} {names : List Name} {si ti count : Nat}

theorem runMatches_eq (hsymbols : symbols.length < sliceLimit) (hnames : names.length < sliceLimit)
    (hsi : si < symbols.length) (hti : ti < names.length) (hcount : count ≤ symbols.length) :
    runMatches symbols names si ti count =
      .ok (runAgrees count (symbols.drop si) (names.drop ti)) := by
  have hroom := room
  have hiff := @runAgrees_iff count (symbols.drop si) (names.drop ti)
  rw [List.length_drop, List.length_drop] at hiff
  rw [runMatches, add_eq (by omega), ok_bind]
  by_cases hs : symbols.length < si + count
  · have hfalse : runAgrees count (symbols.drop si) (names.drop ti) = false := by
      rw [Bool.eq_false_iff, Ne, hiff]
      omega
    rw [if_pos hs, hfalse]
  · rw [if_neg hs, add_eq (by omega), ok_bind]
    by_cases ht : names.length < ti + count
    · have hfalse : runAgrees count (symbols.drop si) (names.drop ti) = false := by
        rw [Bool.eq_false_iff, Ne, hiff]
        omega
      rw [if_pos ht, hfalse]
    · have hzip : ((symbols.drop si).zip (names.drop ti)).take count =
          ((symbols.drop si).take count).zip ((names.drop ti).take count) := List.take_zipWith
      rw [if_neg ht, part_eq (by omega) (by omega), ok_bind, part_eq (by omega) (by omega), ok_bind,
        Nat.add_sub_cancel_left, Nat.add_sub_cancel_left, ← hzip]
      congr 1
      rw [Bool.eq_iff_iff, List.all_eq_true, hiff]
      constructor
      · intro hall
        exact ⟨by omega, by omega, hall⟩
      · rintro ⟨_, _, hall⟩
        exact hall

theorem impliedLoad?_eq (s : Symbol) (name : Name) :
    impliedLoad? s name = FirmwareSymbols.impliedLoad? s name := by
  have hlt : s.nameAddress.toNat < 4294967296 := s.nameAddress.toNat_lt_size
  rw [impliedLoad?, FirmwareSymbols.impliedLoad?]
  by_cases haddress : name.address < 4294967296
  · have hvalue : (UInt32.ofNat name.address).toNat = name.address :=
      UInt32.toNat_ofNat_of_lt' haddress
    rw [if_pos haddress]
    by_cases hle : name.address ≤ s.nameAddress.toNat
    · have hword : UInt32.ofNat name.address ≤ s.nameAddress := by
        rw [UInt32.le_iff_toNat_le, hvalue]
        exact hle
      rw [if_pos hword, if_pos hle]
      congr 1
      apply UInt32.toNat_inj.1
      rw [UInt32.toNat_sub_of_le _ _ hword, hvalue, UInt32.toNat_ofNat_of_lt' (show _ < 4294967296 by omega)]
    · have hword : ¬ UInt32.ofNat name.address ≤ s.nameAddress := by
        rw [UInt32.le_iff_toNat_le, hvalue]
        exact hle
      rw [if_neg hword, if_neg hle]
  · rw [if_neg haddress, if_neg (by omega)]

/-- The entries at the places of a length begin the tails that the index has for it. -/
theorem map_drop_placesFrom (length : Nat) (names : List Name) (front : List Name) :
    (placesFrom length front.length names).map (front ++ names).drop = tailsOfLength length names := by
  induction names generalizing front with
  | nil => rfl
  | cons name rest ih =>
      have hrest := ih (front ++ [name])
      rw [List.length_append, List.length_singleton, List.append_assoc] at hrest
      rw [placesFrom, tailsOfLength_cons]
      split
      · rw [List.map_cons, List.drop_left]
        exact congrArg _ hrest
      · exact hrest

theorem lt_of_mem_placesFrom {length i place : Nat} {names : List Name}
    (h : place ∈ placesFrom length i names) : place < i + names.length := by
  induction names generalizing i with
  | nil => cases h
  | cons name rest ih =>
      rw [placesFrom] at h
      rw [List.length_cons]
      split at h
      · rcases List.mem_cons.1 h with rfl | h
        · omega
        · have := ih h
          omega
      · have := ih h
        omega

theorem lt_of_mem_placesOf {s : Symbol} {place : Nat} (h : place ∈ placesOf names s) :
    place < names.length := by
  rw [placesOf] at h
  cases hlength : s.nameLength with
  | none =>
      rw [hlength] at h
      cases h
  | some length =>
      rw [hlength] at h
      have := lt_of_mem_placesFrom h
      omega

/-- The places that a symbol is compared with stand for the stretches that the index gives. -/
theorem map_drop_placesOf (names : List Name) (s : Symbol) (rest : List Symbol) :
    (placesOf names s).map names.drop = counterparts names (s :: rest) := by
  rw [placesOf, counterparts]
  cases s.nameLength with
  | none => rfl
  | some length => exact map_drop_placesFrom length.toNat names []

/-! ## Pairs -/

/-- Counts one more in a word with a greatest value. -/
def countTo (greatest counted : Nat) : Checked Nat :=
  if counted < greatest then .ok (counted + 1) else .error .overflow

/-- Tries the pairs of one symbol and some places, and counts each before it is tried. If none of them
decides the search, it goes on with what has been counted. -/
def tryPlaces (greatest : Nat) (counter : Counter) (symbols : List Symbol) (names : List Name)
    (count si : Nat) (s : Symbol) (counted : Nat) :
    List Nat → Checked (Step Nat (Except Fault (Option UInt32)))
  | [] => .ok (.again counted)
  | ti :: rest => do
    let counted ← countTo greatest counted
    match counter.check counted with
    | .error fault => .ok (.done (.error fault))
    | .ok () => do
      let agreed ← runMatches symbols names si ti count
      if agreed then do
        let name ← entry names ti
        match impliedLoad? s name with
        | some load => .ok (.done (.ok (some load)))
        | none => tryPlaces greatest counter symbols names count si s counted rest
      else tryPlaces greatest counter symbols names count si s counted rest

/-- Tries all pairs whose symbol is at a place from `si` on. -/
def correlateFrom (greatest : Nat) (counter : Counter) (symbols : List Symbol)
    (names : List Name) (count si counted : Nat) :
    List Symbol → Checked (Except Fault (Option UInt32))
  | [] => .ok (.ok none)
  | s :: rest => do
    let tried ← tryPlaces greatest counter symbols names count si s counted (placesOf names s)
    match tried with
    | .again counted => correlateFrom greatest counter symbols names count (si + 1) counted rest
    | .done answer => .ok answer

/-- The load address of the first pair of a symbol and a string from which on `count` entries agree. -/
def correlate (greatest : Nat) (budget : Budget) (symbols : List Symbol) (names : List Name)
    (count : Nat) : Checked (Except Fault (Option UInt32)) :=
  if symbols.isEmpty || names.isEmpty || count == 0 then .ok (.ok none)
  else
    correlateFrom greatest (budget.counter .correlation defaultInterval) symbols names count 0 0
      symbols

/-- What is left to do when a search has given an answer. -/
def outcomeOf (counted : Nat) : Except Fault (Option UInt32) → Step Nat (Except Fault (Option UInt32))
  | .ok none => .again counted
  | decided => .done decided

/-- What a search answers that has counted so many pairs, if a word has room for their number. -/
def ifCounted {α : Type} (greatest : Nat) (answer : α) (pairs : Nat) : Checked α :=
  if pairs ≤ greatest then .ok answer else .error .overflow

theorem ifCounted_bind {α β : Type} (greatest : Nat) (answer : α) (pairs : Nat) (f : α → β) :
    (ifCounted greatest answer pairs >>= fun answer => .ok (f answer)) =
      ifCounted greatest (f answer) pairs := by
  rw [ifCounted, ifCounted]
  split <;> rfl

section Pairs

variable {greatest : Nat} (counter : Counter) (hsymbols : symbols.length < sliceLimit)
  (hnames : names.length < sliceLimit) (hcount : count ≤ symbols.length)

include hsymbols hnames hcount

/-- The pairs of one symbol. -/
theorem tryPlaces_eq {s : Symbol} {stretch : List Symbol} (hstretch : symbols.drop si = s :: stretch)
    (hsi : si < symbols.length) {done : Nat} (hdone : done ≤ greatest) (places : List Nat)
    (hplaces : ∀ place ∈ places, place < names.length) :
    tryPlaces greatest counter symbols names count si s done places =
      let searched := counter.searchList
        (fun place => loadAddress? count (s :: stretch) (names.drop place)) done places
      ifCounted greatest (outcomeOf searched.2 searched.1) searched.2 := by
  induction places generalizing done with
  | nil => exact (if_pos hdone).symm
  | cons place rest ih =>
      obtain ⟨hplace, hrest⟩ := List.forall_mem_cons.1 hplaces
      have hentry : names[place]? = some names[place] := List.getElem?_eq_getElem hplace
      have hdrop : names.drop place = names[place] :: names.drop (place + 1) :=
        List.drop_eq_getElem_cons hplace
      rw [tryPlaces, countTo]
      by_cases hroom : done < greatest
      · have hnext := ih hroom hrest
        rw [if_pos hroom, ok_bind, Counter.searchList_cons]
        cases counter.check (done + 1) with
        | error fault => exact (if_pos hroom).symm
        | ok _ =>
            show (runMatches symbols names si place count >>= fun agreed => _) = _
            rw [runMatches_eq hsymbols hnames hsi hplace hcount, ok_bind, hstretch, hdrop,
              loadAddress?]
            cases runAgrees count (s :: stretch) (names[place] :: names.drop (place + 1)) with
            | false => exact hnext
            | true =>
                show (entry names place >>= fun name => _) = _
                rw [entry_eq hentry, ok_bind, impliedLoad?_eq, if_pos rfl]
                cases FirmwareSymbols.impliedLoad? s names[place] with
                | none => exact hnext
                | some load => exact (if_pos hroom).symm
      · -- the word is full, and the search goes on to count at least this pair
        have hmore : ¬ (counter.searchList
            (fun place => loadAddress? count (s :: stretch) (names.drop place)) done
            (place :: rest)).2 ≤ greatest := by
          have := @Counter.lt_searchList _ _ counter
            (fun place => loadAddress? count (s :: stretch) (names.drop place)) done place rest
          omega
        rw [if_neg hroom]
        exact (if_neg hmore).symm

/-- All pairs of the symbols that are left. -/
theorem correlateFrom_eq (front stretch : List Symbol) (hsplit : symbols = front ++ stretch)
    {done : Nat} (hdone : done ≤ greatest) :
    correlateFrom greatest counter symbols names count front.length done stretch =
      let searched := counter.searchList (fun pair => loadAddress? count pair.1 pair.2) done
        (stretchPairs stretch names)
      ifCounted greatest searched.1 searched.2 := by
  induction stretch generalizing front done with
  | nil => exact (if_pos hdone).symm
  | cons s rest ih =>
      have hstretch : symbols.drop front.length = s :: rest := by
        rw [hsplit, List.drop_left]
      have hsi : front.length < symbols.length := by
        rw [hsplit, List.length_append, List.length_cons]
        omega
      have htried := tryPlaces_eq counter hsymbols hnames hcount hstretch hsi hdone
        (placesOf names s) fun place hplace => lt_of_mem_placesOf hplace
      have hpairs : stretchPairs (s :: rest) names =
          (counterparts names (s :: rest)).map (s :: rest, ·) ++ stretchPairs rest names := rfl
      have hrest := fun reached => @ih (front ++ [s]) (by rw [hsplit, List.append_assoc]; rfl) reached
      rw [List.length_append, List.length_singleton] at hrest
      rw [correlateFrom, htried, hpairs, Counter.searchList_append, ← map_drop_placesOf names s rest,
        List.map_map, Counter.searchList_map]
      simp only [Function.comp_def]
      have hreached := @Counter.le_searchList _ _ counter
        fun pair : List Symbol × List Name => loadAddress? count pair.1 pair.2
      generalize counter.searchList
        (fun place => loadAddress? count (s :: rest) (names.drop place)) done
        (placesOf names s) = searched
      obtain ⟨answer, reached⟩ := searched
      by_cases hroom : reached ≤ greatest
      · rw [ifCounted, if_pos hroom, ok_bind]
        cases answer with
        | error fault => exact (if_pos hroom).symm
        | ok hit =>
            cases hit with
            | none => exact hrest reached hroom
            | some load => exact (if_pos hroom).symm
      · rw [ifCounted, if_neg hroom]
        cases answer with
        | error fault => exact (if_neg hroom).symm
        | ok hit =>
            cases hit with
            | some load => exact (if_neg hroom).symm
            | none =>
                have hmore := hreached reached (stretchPairs rest names)
                exact (if_neg fun hle => hroom (Nat.le_trans hmore hle)).symm

/-- The correlation is trapped if and only if the word has no room for its pairs. -/
theorem correlate_eq (budget : Budget) :
    correlate greatest budget symbols names count =
      ifCounted greatest (FirmwareSymbols.correlate budget symbols names count)
        (countedPairs budget symbols names count) := by
  rw [correlate, FirmwareSymbols.correlate]
  split
  · rename_i hidle
    simp only [Bool.or_eq_true, List.isEmpty_iff, beq_iff_eq, or_assoc] at hidle
    rw [countedPairs_eq_zero budget hidle]
    exact (if_pos (Nat.zero_le _)).symm
  · rename_i hbusy
    simp only [Bool.or_eq_true, List.isEmpty_iff, beq_iff_eq, not_or] at hbusy
    have hsearch := correlateFrom_eq (budget.counter .correlation defaultInterval) hsymbols hnames
      hcount [] symbols rfl (Nat.zero_le greatest)
    rw [correlateFrom_eq_searchList, countedPairs_eq_searchList budget hbusy.2]
    exact hsearch

end Pairs

end Checked

end FirmwareSymbols
