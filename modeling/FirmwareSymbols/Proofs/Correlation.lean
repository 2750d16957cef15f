import FirmwareSymbols.LoadAddress.Correlate
import Mathlib.Data.List.Infix

/-!
# The pairs that a correlation tries

A correlation looks its pairs up in an index and counts them against a
budget. Without a budget it is a search over all pairs of a stretch of
symbols and a stretch of names that begin with equal lengths, in the order
of the symbols and, for one symbol, in the order of the names.

## Main results

* `LengthIndex.getD_extend`: what the index holds.
* `correlate_unbounded`: a correlation as a search over pairs.
-/

namespace FirmwareSymbols

/-! ## The index -/

/-- The tails of a list of names that begin with a name of some length, in order. -/
def tailsOfLength (length : Nat) (names : List Name) : List (List Name) :=
  names.tails.filter fun tail => tail.head?.any (·.length == length)

theorem tailsOfLength_nil (length : Nat) : tailsOfLength length [] = [] := rfl

theorem tailsOfLength_cons (length : Nat) (name : Name) (rest : List Name) :
    tailsOfLength length (name :: rest) =
      if name.length = length then (name :: rest) :: tailsOfLength length rest
      else tailsOfLength length rest := by
  rw [tailsOfLength, List.tails, List.filter_cons, List.head?_cons, Option.any_some]
  by_cases heq : name.length = length
  · rw [if_pos heq, if_pos (by rw [heq]; exact beq_self_eq_true length)]
    rfl
  · rw [if_neg heq, if_neg (by simpa using heq)]
    rfl

/-- The new tails come behind those that are there. -/
theorem LengthIndex.getD_extend (index : LengthIndex) (names : List Name) (length : Nat) :
    (index.extend names).getD length #[] =
      index.getD length #[] ++ (tailsOfLength length names).toArray := by
  induction names generalizing index with
  | nil => rw [extend, tailsOfLength_nil, Array.append_empty]
  | cons name rest ih =>
      rw [extend, ih, tailsOfLength_cons, Std.HashMap.getD_alter]
      by_cases heq : name.length = length
      · rw [if_pos (by rw [heq]; exact beq_self_eq_true length), if_pos heq, heq, Option.getD_some,
          ← Std.HashMap.getD_eq_getD_getElem?]
        simp
      · rw [if_neg (by simpa using heq), if_neg heq]

theorem getD_lengthIndex (names : List Name) (length : Nat) :
    (lengthIndex names).getD length #[] = (tailsOfLength length names).toArray := by
  rw [lengthIndex, LengthIndex.getD_extend, Std.HashMap.getD_empty, Array.empty_append]

/-! ## The search -/

/-- The stretches of names that a stretch of symbols is compared with. -/
def counterparts (names : List Name) : List Symbol → List (List Name)
  | [] => []
  | s :: _ => (s.nameLength.map fun length => tailsOfLength length.toNat names).getD []

/-- The index holds the stretches that a symbol is compared with. -/
theorem getD_map_lengthIndex (names : List Name) (s : Symbol) (rest : List Symbol) :
    (s.nameLength.map fun length => (lengthIndex names).getD length.toNat #[]).getD #[] =
      (counterparts names (s :: rest)).toArray := by
  rw [counterparts]
  cases s.nameLength with
  | none => rfl
  | some length => exact getD_lengthIndex names length.toNat

/-- The load address of the first pair of stretches of which `count` entries agree. -/
def firstPair (count : Nat) (symbols : List Symbol) (names : List Name) : Option UInt32 :=
  symbols.tails.findSome? fun stretch =>
    (counterparts names stretch).findSome? (loadAddress? count stretch)

/-- A search by place is a search through a part of the list. -/
theorem firstSomeFrom_getElem? {α β : Type} (f : α → Option β) (tests : List α) (first count : Nat) :
    firstSomeFrom (fun k => (tests[k]?).bind f) first count =
      ((tests.drop first).take count).findSome? f := by
  induction count generalizing first with
  | zero => rfl
  | succ count ih =>
      rw [firstSomeFrom, ih]
      by_cases hlt : first < tests.length
      · rw [List.drop_eq_getElem_cons hlt, List.take_succ_cons, List.findSome?_cons,
          List.getElem?_eq_getElem hlt, Option.bind_some]
        cases f tests[first] <;> rfl
      · rw [List.getElem?_eq_none (by omega), List.drop_eq_nil_of_le (by omega),
          List.drop_eq_nil_of_le (by omega), List.take_nil, List.take_nil]
        rfl

theorem correlateFrom_unbounded (names : List Name) (count done : Nat) (symbols : List Symbol) :
    correlateFrom (Budget.unbounded.counter .correlation defaultInterval) (lengthIndex names)
      count done symbols = .ok (firstPair count symbols names) := by
  induction symbols generalizing done with
  | nil => rfl
  | cons s rest ih =>
      have htails := getD_map_lengthIndex names s rest
      have htest := firstSomeFrom_getElem? (loadAddress? count (s :: rest))
        (counterparts names (s :: rest)) 0 (counterparts names (s :: rest)).length
      rw [List.drop_zero, List.take_length] at htest
      rw [correlateFrom]
      simp only [htails, Counter.firstSome_unbounded (show
        (Budget.unbounded.counter .correlation defaultInterval).reading = none from rfl),
        List.getElem?_toArray, List.size_toArray, htest]
      rw [firstPair, List.tails, List.findSome?_cons]
      cases (counterparts names (s :: rest)).findSome? (loadAddress? count (s :: rest)) with
      | none => exact ih _
      | some load => rfl

theorem counterparts_nil (symbols : List Symbol) : counterparts [] symbols = [] := by
  cases symbols with
  | nil => rfl
  | cons s rest =>
      rw [counterparts]
      cases s.nameLength with
      | none => rfl
      | some length => rfl

theorem firstPair_nil (count : Nat) (symbols : List Symbol) :
    firstPair count symbols [] = none := by
  rw [firstPair, List.findSome?_eq_none_iff]
  intro stretch _
  rw [counterparts_nil]
  rfl

/-- Without a budget a correlation is the search over all pairs, unless nothing has to agree. -/
theorem correlate_unbounded (symbols : List Symbol) (names : List Name) (count : Nat) :
    correlate .unbounded symbols names count =
      .ok (if count = 0 then none else firstPair count symbols names) := by
  rw [correlate, correlateFrom_unbounded]
  cases symbols with
  | nil => simp [show firstPair count [] names = none from rfl]
  | cons s rest =>
      cases names with
      | nil => simp [firstPair_nil]
      | cons name names =>
          by_cases hzero : count = 0
          · simp [hzero]
          · simp [hzero]

/-! ## The pair that is found -/

theorem mem_tailsOfLength {length : Nat} {names tail : List Name}
    (h : tail ∈ tailsOfLength length names) : tail <:+ names :=
  (List.mem_tails _ _).1 (List.mem_filter.1 h).1

theorem suffix_of_mem_counterparts {symbols : List Symbol} {names tail : List Name}
    (h : tail ∈ counterparts names symbols) : tail <:+ names := by
  cases symbols with
  | nil => cases h
  | cons s rest =>
      rw [counterparts] at h
      cases hlength : s.nameLength with
      | none =>
          rw [hlength] at h
          cases h
      | some length =>
          rw [hlength] at h
          exact mem_tailsOfLength h

/-- An answer comes from stretches of the two tables. -/
theorem exists_suffixes_of_firstPair {count : Nat} {symbols : List Symbol} {names : List Name}
    {load : UInt32} (h : firstPair count symbols names = some load) :
    ∃ stretch tail, stretch <:+ symbols ∧ tail <:+ names ∧
      loadAddress? count stretch tail = some load := by
  obtain ⟨stretch, hstretch, hfound⟩ := List.exists_of_findSome?_eq_some h
  obtain ⟨tail, htail, hload⟩ := List.exists_of_findSome?_eq_some hfound
  exact ⟨stretch, tail, (List.mem_tails _ _).1 hstretch, suffix_of_mem_counterparts htail, hload⟩

/-- The two tables as a whole are the first pair, if their first lengths are equal. -/
theorem firstPair_of_loadAddress? {count : Nat} {s : Symbol} {symbols : List Symbol} {name : Name}
    {names : List Name} {length load : UInt32} (hlength : s.nameLength = some length)
    (hequal : name.length = length.toNat)
    (hload : loadAddress? count (s :: symbols) (name :: names) = some load) :
    firstPair count (s :: symbols) (name :: names) = some load := by
  have hhead : counterparts (name :: names) (s :: symbols) =
      (name :: names) :: tailsOfLength length.toNat names := by
    rw [counterparts, hlength, Option.map_some, Option.getD_some, tailsOfLength_cons,
      if_pos hequal]
  rw [firstPair, List.tails, List.findSome?_cons, hhead, List.findSome?_cons, hload]

end FirmwareSymbols
