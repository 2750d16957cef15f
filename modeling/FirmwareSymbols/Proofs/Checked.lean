import FirmwareSymbols.Proofs.NullFreeRun

/-!
# Arithmetic and indexing that can fail

The searches are written with natural numbers and with reads that have no
value outside the image. A processor has words of 64 bits and stops where
a sum does not fit one, where a difference would be negative, and where
an element or a slice is read that is not there. In `Checked` each of
these is a `Trap`, so that a search can be written once more, one step of
the processor after the other, and shown never to be trapped.

## Main definitions

* `Checked`: a computation that may be trapped.
* `Checked.add`, `Checked.sub`, `Checked.entry`, `Checked.part`: the steps
  that can fail.
* `Checked.loop`: a step that is repeated until it gives an answer.

## Main results

* `Checked.loop_eq`: a loop whose steps are not trapped and come closer to
  the end computes what each of its steps preserves.
* `Checked.reach_null`, `Checked.reach_text`, `Checked.lastIndex?_window`:
  searches in a slice of an image.
-/

namespace FirmwareSymbols

/-- Why a processor cannot take a step. -/
inductive Trap where
  /-- An element that is not there is read. -/
  | index
  /-- A slice is taken that begins behind its end or ends outside. -/
  | slice
  /-- A sum or a product does not fit a word. -/
  | overflow
  /-- A difference is negative. -/
  | underflow
  /-- A loop does not come closer to its end. -/
  | endless
deriving DecidableEq, Repr

/-- A computation that may be trapped. -/
abbrev Checked : Type → Type := Except Trap

namespace Checked

/-! ## Words -/

/-- The least number that does not fit a word. -/
def wordLimit : Nat := 18446744073709551616

/-- The least number of bytes that no slice has. -/
def sliceLimit : Nat := 9223372036854775808

/-- There is room in a word for the lengths of two slices, and in a slice for a block of any search. -/
theorem room : sliceLimit + sliceLimit ≤ wordLimit ∧ 131072 ≤ sliceLimit := by decide

/-- The sum of two words. -/
def add (a b : Nat) : Checked Nat := if a + b < wordLimit then .ok (a + b) else .error .overflow

/-- The product of two words. -/
def mul (a b : Nat) : Checked Nat := if a * b < wordLimit then .ok (a * b) else .error .overflow

/-- The difference of two words. -/
def sub (a b : Nat) : Checked Nat := if b ≤ a then .ok (a - b) else .error .underflow

/-- The difference of two addresses. -/
def subAddress (a b : UInt32) : Checked UInt32 := if b ≤ a then .ok (a - b) else .error .underflow

/-- The sum of two words, if it is one. -/
def add? (a b : Nat) : Option Nat := if a + b < wordLimit then some (a + b) else none

/-- The product of two words, if it is one. -/
def mul? (a b : Nat) : Option Nat := if a * b < wordLimit then some (a * b) else none

/-- The difference of two words, if it is one. -/
def sub? (a b : Nat) : Option Nat := if b ≤ a then some (a - b) else none

/-- The product of two words, or the greatest word if the product is none. -/
def saturatingMul (a b : Nat) : Nat := min (a * b) (wordLimit - 1)

theorem add_eq {a b : Nat} (h : a + b < wordLimit) : add a b = .ok (a + b) := if_pos h

theorem mul_eq {a b : Nat} (h : a * b < wordLimit) : mul a b = .ok (a * b) := if_pos h

theorem sub_eq {a b : Nat} (h : b ≤ a) : sub a b = .ok (a - b) := if_pos h

theorem subAddress_eq {a b : UInt32} (h : b ≤ a) : subAddress a b = .ok (a - b) := if_pos h

@[simp] theorem ok_bind {α β : Type} (value : α) (next : α → Checked β) :
    (Except.ok value >>= next : Checked β) = next value := rfl

/-! ## Lists and slices -/

section Lists

variable {α : Type}

/-- An element of a list. -/
def entry (list : List α) (i : Nat) : Checked α :=
  match list[i]? with
  | some value => .ok value
  | none => .error .index

/-- The elements `[lo, hi)` of a list. -/
def part (list : List α) (lo hi : Nat) : Checked (List α) :=
  if lo ≤ hi ∧ hi ≤ list.length then .ok ((list.drop lo).take (hi - lo)) else .error .slice

theorem entry_eq {list : List α} {i : Nat} {value : α} (h : list[i]? = some value) :
    entry list i = .ok value := by
  rw [entry, h]

theorem part_eq {list : List α} {lo hi : Nat} (hle : lo ≤ hi) (hhi : hi ≤ list.length) :
    part list lo hi = .ok ((list.drop lo).take (hi - lo)) :=
  if_pos ⟨hle, hhi⟩

/-- The place of the last element with a property. -/
def lastIndex? (p : α → Bool) (list : List α) : Option Nat :=
  greatestBelow (fun i => list[i]?.any p) list.length

end Lists

/-- The bytes `[lo, hi)` of an image. -/
def slice (image : Image) (lo hi : Nat) : Checked (List UInt8) := part image.toList lo hi

/-- The bytes `[lo, hi)` of an image, if they are there. -/
def slice? (image : Image) (lo hi : Nat) : Option (List UInt8) :=
  if lo ≤ hi ∧ hi ≤ image.size then some (image.window lo (hi - lo)) else none

variable {image : Image}

theorem slice_eq {lo hi : Nat} (hle : lo ≤ hi) (hhi : hi ≤ image.size) :
    slice image lo hi = .ok (image.window lo (hi - lo)) := by
  have hlength : hi ≤ image.toList.length := hhi
  rw [slice, part_eq hle hlength, Image.window_eq]

/-- The bytes of a span that lies in the image. -/
theorem slice_span {s : Span} (hle : s.start ≤ s.stop) (hhi : s.stop ≤ image.size) :
    slice image s.start s.stop = .ok (image.slice s) :=
  slice_eq hle hhi

theorem slice?_eq {lo hi : Nat} (hle : lo ≤ hi) (hhi : hi ≤ image.size) :
    slice? image lo hi = some (image.window lo (hi - lo)) :=
  if_pos ⟨hle, hhi⟩

/-- The place behind which a search ends that began at `lo`: where it found something, counted from
`lo`, or else at `hi`. -/
def reach (lo hi : Nat) : Option Nat → Checked Nat
  | some found => add lo found
  | none => .ok hi

/-! ## Searches in a slice -/

theorem window_succ {lo count : Nat} (hlo : lo < image.size) :
    ∃ byte, image.get? lo = some byte ∧
      image.window lo (count + 1) = byte :: image.window (lo + 1) count := by
  have hlength : lo < image.toList.length := hlo
  refine ⟨image.toList[lo], ?_, ?_⟩
  · show image.bytes[lo]? = _
    exact Array.getElem?_eq_getElem hlo
  · rw [Image.window_eq, List.drop_eq_getElem_cons hlength, List.take_succ_cons, Image.window_eq]

/-- A search in a slice gives the distance from its beginning. -/
theorem findIdx?_window (q : UInt8 → Bool) {lo count : Nat} (hinside : lo + count ≤ image.size) :
    (image.window lo count).findIdx? q =
      (leastFrom (fun i => (image.get? i).any q) lo count).map (· - lo) := by
  induction count generalizing lo with
  | zero =>
      rw [Image.window_eq, List.take_zero]
      rfl
  | succ count ih =>
      obtain ⟨byte, hbyte, hwindow⟩ := @window_succ image lo count (by omega)
      rw [hwindow, List.findIdx?_cons, leastFrom, hbyte, Option.any_some, ih (by omega)]
      split
      · rw [Option.map_some, Nat.sub_self]
      · cases hfound : leastFrom (fun i => (image.get? i).any q) (lo + 1) count with
        | none => rfl
        | some found =>
            have hlo := (leastFrom_eq_some_iff.1 hfound).1
            rw [Option.map_some, Option.map_some, Option.map_some]
            congr 1
            omega

theorem isNull_eq_any (i : Nat) : image.isNull i = (image.get? i).any (· == 0) := by
  unfold Image.isNull
  cases image.get? i <;> rfl

theorem isText_eq_any (i : Nat) : image.isText i = (image.get? i).any (· != 0) := by
  unfold Image.isText
  cases image.get? i <;> rfl

/-- A search through the slice `[lo, hi)` ends where the search through the image does. -/
theorem reach_findIdx? {q : UInt8 → Bool} {p : Nat → Bool} {lo hi : Nat}
    (hp : ∀ i, p i = (image.get? i).any q) (hle : lo ≤ hi) (hhi : hi ≤ image.size)
    (hsize : image.size < sliceLimit) :
    reach lo hi ((image.window lo (hi - lo)).findIdx? q) = .ok ((image.firstWithin p lo hi).getD hi) := by
  have hroom := room
  obtain rfl : p = fun i => (image.get? i).any q := funext hp
  rw [findIdx?_window q (by omega), Image.firstWithin, Nat.min_eq_left hhi]
  cases hfound : leastFrom (fun i => (image.get? i).any q) lo (hi - lo) with
  | none => rfl
  | some found =>
      obtain ⟨hlo, hlt, _⟩ := leastFrom_eq_some_iff.1 hfound
      show add lo (found - lo) = .ok found
      rw [add_eq (by omega)]
      congr 1
      omega

/-- The search for a null in a slice ends at the terminator. -/
theorem reach_null {lo hi : Nat} (hle : lo ≤ hi) (hhi : hi ≤ image.size)
    (hsize : image.size < sliceLimit) :
    reach lo hi ((image.window lo (hi - lo)).findIdx? (· == 0)) = .ok (image.terminator lo hi) :=
  reach_findIdx? isNull_eq_any hle hhi hsize

/-- The search for text in a slice ends at the next text. -/
theorem reach_text {lo hi : Nat} (hle : lo ≤ hi) (hhi : hi ≤ image.size)
    (hsize : image.size < sliceLimit) :
    reach lo hi ((image.window lo (hi - lo)).findIdx? (· != 0)) = .ok (image.nextText lo hi) :=
  reach_findIdx? isText_eq_any hle hhi hsize

theorem greatestBelow_congr {p q : Nat → Bool} {n : Nat} (h : ∀ i, i < n → p i = q i) :
    greatestBelow p n = greatestBelow q n := by
  induction n with
  | zero => rfl
  | succ n ih =>
      rw [greatestBelow, greatestBelow, h n (Nat.lt_succ_self n),
        ih fun i hi => h i (Nat.lt_succ_of_lt hi)]

/-- A search from the end of the slice `[0, hi)`. -/
theorem lastIndex?_window {q : UInt8 → Bool} {p : Nat → Bool} {hi : Nat}
    (hp : ∀ i, p i = (image.get? i).any q) (hhi : hi ≤ image.size) :
    lastIndex? q (image.window 0 hi) = greatestBelow p hi := by
  have hlength : (image.window 0 hi).length = hi := Image.length_window (by omega)
  rw [lastIndex?, hlength]
  apply greatestBelow_congr
  intro i hi
  rw [Image.getElem?_window, if_pos hi, Nat.zero_add, hp]

/-! ## Loops -/

/-- What one step of a loop comes to. -/
inductive Step (σ α : Type) where
  /-- The loop goes on. -/
  | again (state : σ)
  /-- The loop is over. -/
  | done (answer : α)

/-- Repeats a step until the loop is over. A number says how far the end is at most. -/
def loop {σ α : Type} (distance : σ → Nat) (step : σ → Checked (Step σ α)) (state : σ) : Checked α :=
  match step state with
  | .error trap => .error trap
  | .ok (.done answer) => .ok answer
  | .ok (.again next) =>
    if distance next < distance state then loop distance step next else .error .endless
termination_by distance state

/-- If no step is trapped, each comes closer to the end, and all agree on what the loop computes, then
the loop computes it. -/
theorem loop_eq {σ α : Type} {distance : σ → Nat} {step : σ → Checked (Step σ α)}
    (Holds : σ → Prop) (value : σ → α)
    (hstep : ∀ state, Holds state →
      step state = .ok (.done (value state)) ∨
        ∃ next, step state = .ok (.again next) ∧ distance next < distance state ∧ Holds next ∧
          value next = value state)
    {state : σ} (h : Holds state) : loop distance step state = .ok (value state) := by
  fun_induction loop distance step state with
  | case1 state trap htrap =>
      rcases hstep state h with hdone | ⟨next, hagain, _⟩
      · rw [hdone] at htrap
        cases htrap
      · rw [hagain] at htrap
        cases htrap
  | case2 state answer hanswer =>
      rcases hstep state h with hdone | ⟨next, hagain, _⟩
      · rw [hdone] at hanswer
        cases hanswer
        rfl
      · rw [hagain] at hanswer
        cases hanswer
  | case3 state next hnext hcloser ih =>
      rcases hstep state h with hdone | ⟨next', hagain, _, hholds, hvalue⟩
      · rw [hdone] at hnext
        cases hnext
      · rw [hagain] at hnext
        cases hnext
        rw [ih hholds, hvalue]
  | case4 state next hnext hfar =>
      rcases hstep state h with hdone | ⟨next', hagain, hcloser, _⟩
      · rw [hdone] at hnext
        cases hnext
      · rw [hagain] at hnext
        cases hnext
        exact absurd hcloser hfar

end Checked

end FirmwareSymbols
