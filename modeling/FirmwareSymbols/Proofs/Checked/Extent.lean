import FirmwareSymbols.Proofs.Checked
import FirmwareSymbols.Proofs.LocatedNames

/-!
# The extent of the string table, step by step

The anchor and the two walks once more, with steps that can be trapped. A
walk measures the gap between a name and the one it took before. The
difference is not negative, because the backward walk goes on from the
start of a run, so the run before it ends there at the latest, and the
forward walk goes on from the end of one.

## Main results

* `Checked.anchor?_eq`: the anchor.
* `Checked.stringAt?_eq`, `Checked.stringFrom?_eq`: the nearest string in
  either direction.
* `Checked.growBack_eq`, `Checked.growForward_eq`: the walks.
* `Checked.locate_eq`: the table that they find.
-/

namespace FirmwareSymbols

namespace Checked

variable {image : Image} {limits : TableLimits}

/-! ## The anchor -/

/-- The first of some names that stands in the image between two nulls. Room is made for the name with
both nulls before it is looked for. -/
def anchor? (image : Image) : List String → Checked (Option Anchor)
  | [] => .ok none
  | name :: rest =>
    if name = "" then anchor? image rest
    else do
      let _capacity ← add (Utf8.encode name).length 2
      match image.find? (0 :: (Utf8.encode name ++ [0])) with
      | some found => do
        let offset ← add found 1
        .ok (some ⟨offset, name⟩)
      | none => anchor? image rest

theorem anchor?_eq (hsize : image.size < sliceLimit) {names : List String}
    (hnames : ∀ name ∈ names, (Utf8.encode name).length < sliceLimit) :
    anchor? image names = .ok (image.anchor? names) := by
  have hroom := room
  induction names with
  | nil => rfl
  | cons name rest ih =>
      obtain ⟨hname, hrest⟩ := List.forall_mem_cons.1 hnames
      rw [anchor?, Image.anchor?]
      split
      · exact ih hrest
      · rw [add_eq (by omega), ok_bind]
        cases hfound : image.find? (0 :: (Utf8.encode name ++ [0])) with
        | none => exact ih hrest
        | some found =>
            have hlt := (Image.find?_eq_some_iff.1 hfound).1
            show (add found 1 >>= fun offset => _) = _
            rw [add_eq (by omega)]
            rfl

/-! ## The nearest string -/

/-- The place behind the last hit of a search, or the beginning of the image. -/
def behindLast : Option Nat → Checked Nat
  | some last => add last 1
  | none => .ok 0

/-- The last null-free run that begins at or before an offset. -/
def stringAt? (image : Image) (offset : Nat) : Checked (Option Span) :=
  if image.size = 0 then .ok none
  else do
    let top ← sub image.size 1
    let bound ← add (min offset top) 1
    let upTo ← slice image 0 bound
    match lastIndex? (· != 0) upTo with
    | none => .ok none
    | some last => do
      let below ← slice image 0 last
      let start ← behindLast (lastIndex? (· == 0) below)
      let behind ← slice image last image.size
      let stop ← reach last image.size (behind.findIdx? (· == 0))
      .ok (some ⟨start, stop⟩)

/-- The null-free run that begins some bytes behind an offset, if there are any such bytes. -/
def stringBehind (image : Image) (offset : Nat) : Option Nat → Checked (Option Span)
  | none => .ok none
  | some skipped => do
    let start ← add offset skipped
    let behind ← slice image start image.size
    let stop ← reach start image.size (behind.findIdx? (· == 0))
    .ok (some ⟨start, stop⟩)

/-- The first null-free run at or after an offset. -/
def stringFrom? (image : Image) (offset : Nat) : Checked (Option Span) :=
  match slice? image offset image.size with
  | none => .ok none
  | some tail => stringBehind image offset (tail.findIdx? (· != 0))

section Strings

variable (hsize : image.size < sliceLimit)

include hsize

theorem behindLast_eq {last : Nat} (hlast : last ≤ image.size) :
    behindLast (greatestBelow image.isNull last) =
      .ok ((greatestBelow image.isNull last).elim 0 (· + 1)) := by
  have hroom := room
  cases hfound : greatestBelow image.isNull last with
  | none => rfl
  | some null =>
      have hlt := (greatestBelow_eq_some_iff.1 hfound).1
      exact add_eq (by omega)

theorem stringAt?_eq (offset : Nat) :
    stringAt? image offset = .ok (image.stringBefore? (offset + 1)) := by
  have hroom := room
  rw [stringAt?, Image.stringBefore?]
  by_cases hempty : image.size = 0
  · rw [if_pos hempty, hempty, Nat.min_zero]
    rfl
  · have hbound : min offset (image.size - 1) + 1 = min (offset + 1) image.size := by omega
    rw [if_neg hempty, sub_eq (by omega), ok_bind, add_eq (by omega), ok_bind, hbound,
      slice_eq (by omega) (by omega), ok_bind, Nat.sub_zero,
      lastIndex?_window isText_eq_any (by omega)]
    cases hfound : greatestBelow image.isText (min (offset + 1) image.size) with
    | none => rfl
    | some last =>
        have hlt := (greatestBelow_eq_some_iff.1 hfound).1
        show (slice image 0 last >>= fun below => _) = _
        rw [slice_eq (by omega) (by omega), ok_bind, Nat.sub_zero,
          lastIndex?_window isNull_eq_any (by omega), behindLast_eq hsize (by omega), ok_bind,
          slice_eq (by omega) (by omega), ok_bind,
          reach_null (by omega) (by omega) hsize, ok_bind]
        rfl

theorem stringFrom?_eq (offset : Nat) :
    stringFrom? image offset = .ok (image.stringFrom? offset) := by
  have hroom := room
  rw [stringFrom?, Image.stringFrom?, Image.stringWithin?, Image.firstWithin, Nat.min_self]
  by_cases hinside : offset ≤ image.size
  · have hsearch : (image.window offset (image.size - offset)).findIdx? (· != 0) =
        (leastFrom image.isText offset (image.size - offset)).map (· - offset) := by
      rw [findIdx?_window _ (by omega), funext isText_eq_any]
    rw [slice?_eq hinside (by omega)]
    show stringBehind image offset ((image.window offset (image.size - offset)).findIdx? _) = _
    rw [hsearch]
    cases hfound : leastFrom image.isText offset (image.size - offset) with
    | none => rfl
    | some start =>
        obtain ⟨hlo, hlt, _⟩ := leastFrom_eq_some_iff.1 hfound
        have hstart : offset + (start - offset) = start := by omega
        show (add offset (start - offset) >>= fun start => _) = _
        rw [add_eq (by omega), ok_bind, hstart, slice_eq (by omega) (by omega), ok_bind,
          reach_null (by omega) (by omega) hsize, ok_bind]
        rfl
  · have hnone : slice? image offset image.size = none := if_neg fun h => hinside h.1
    rw [hnone, Nat.sub_eq_zero_of_le (by omega)]
    rfl

end Strings

/-! ## The walks -/

/-- Whether few enough bytes lie between two spans, the earlier one first. -/
def isNear (limits : TableLimits) (earlier later : Span) : Checked Bool := do
  let gap ← sub later.start earlier.stop
  .ok (decide (gap ≤ limits.maxGap))

/-- Whether a span is near the one taken last, if any was. -/
def isNearTaken (near : Span → Checked Bool) (taken : List Span) : Checked Bool :=
  match taken.head? with
  | none => .ok true
  | some last => near last

/-- Whether the bytes of a span could be the name of a function. -/
def isName (limits : TableLimits) (image : Image) (s : Span) : Checked Bool := do
  let bytes ← slice image s.start s.stop
  .ok (isFunctionName limits.maxNameLength bytes)

/-- Takes one more span and goes on, if the span is near and a name. -/
def takeOne {σ : Type} (limits : TableLimits) (image : Image) (near : Span → Checked Bool)
    (taken : List Span) (s : Span) (next : σ) : Checked (Step (List Span × σ) Growth) := do
  let nearby ← isNearTaken near taken
  if nearby then do
    let named ← isName limits image s
    if named then .ok (.again (s :: taken, next)) else .ok (.done ⟨taken, true⟩)
  else .ok (.done ⟨taken, true⟩)

/-- One step of the backward walk, to the string at or before a cursor. There is no cursor left at the
beginning of the image. -/
def backStep (limits : TableLimits) (image : Image) :
    List Span × Option Nat → Checked (Step (List Span × Option Nat) Growth)
  | (taken, none) => .ok (.done ⟨taken, false⟩)
  | (taken, some cursor) => do
    let found ← stringAt? image cursor
    match found with
    | none => .ok (.done ⟨taken, false⟩)
    | some s => takeOne limits image (isNear limits s) taken s (sub? s.start 1)

/-- The bound of a cursor: the offsets up to the cursor lie below it. -/
def boundOf (cursor : Option Nat) : Nat := cursor.elim 0 (· + 1)

/-- Takes the names before an anchor. -/
def growBack (limits : TableLimits) (image : Image) (anchor : Nat) : Checked Growth :=
  loop (fun state => boundOf state.2) (backStep limits image) ([], sub? anchor 1)

/-- One step of the forward walk, to the string at or after a cursor. -/
def forwardStep (limits : TableLimits) (image : Image) :
    List Span × Nat → Checked (Step (List Span × Nat) Growth)
  | (taken, cursor) => do
    let found ← stringFrom? image cursor
    match found with
    | none => .ok (.done ⟨taken, false⟩)
    | some s => takeOne limits image (isNear limits · s) taken s s.stop

/-- Takes the names from an anchor on. -/
def growForward (limits : TableLimits) (image : Image) (anchor : Nat) : Checked Growth :=
  loop (fun state => image.size - state.2) (forwardStep limits image) ([], anchor)

/-- The table around the name that begins at an anchor. -/
def locate (limits : TableLimits) (image : Image) (anchor : Nat) :
    Checked (Option LocatedTable) := do
  let back ← growBack limits image anchor
  if back.stopped && decide (back.names.length < limits.required) then .ok none
  else do
    let forward ← growForward limits image anchor
    let names := back.names ++ forward.names.reverse
    if names.length < limits.required then .ok none
    else
      .ok <|
        match names.head?, names.getLast? with
        | some first, some last => some ⟨⟨first.start, last.stop⟩, names⟩
        | _, _ => none

theorem boundOf_sub? (start : Nat) : boundOf (sub? start 1) = start := by
  cases start with
  | zero => rfl
  | succ start => rfl

theorem isNear_eq {earlier later : Span} (h : earlier.stop ≤ later.start) :
    isNear limits earlier later = .ok (limits.isNear earlier later) := by
  rw [isNear, sub_eq h]
  rfl

theorem isName_eq {s : Span} (hle : s.start ≤ s.stop) (hinside : s.stop ≤ image.size) :
    isName limits image s = .ok (limits.isName image s) := by
  rw [isName, slice_span hle hinside]
  rfl

/-- A span that is compared with the one taken last only is taken if it is near and a name. -/
theorem takeOne_eq {σ : Type} (limits : TableLimits) {near : Span → Checked Bool}
    {nearby : Span → Bool} {taken : List Span} {s : Span} (next : σ)
    (hnear : ∀ last, taken.head? = some last → near last = .ok (nearby last))
    (hle : s.start ≤ s.stop) (hinside : s.stop ≤ image.size) :
    takeOne limits image near taken s next =
      .ok (if taken.head?.all nearby && limits.isName image s then .again (s :: taken, next)
        else .done ⟨taken, true⟩) := by
  have htaken : isNearTaken near taken = .ok (taken.head?.all nearby) := by
    rw [isNearTaken]
    cases hhead : taken.head? with
    | none => rfl
    | some last => exact hnear last hhead
  rw [takeOne, htaken, ok_bind]
  cases taken.head?.all nearby with
  | false => rfl
  | true =>
      show (isName limits image s >>= fun named => _) = _
      rw [isName_eq hle hinside, ok_bind]
      cases limits.isName image s <;> rfl

/-- The backward walk goes on below the start of the name it took last, where no run is cut. -/
def Rests (image : Image) (state : List Span × Option Nat) : Prop :=
  ∀ last, state.1.head? = some last →
    last.start = boundOf state.2 ∧ image.Boundary last.start

section Walks

variable (hsize : image.size < sliceLimit)

include hsize

/-- What a step of the backward walk does: it is not trapped, it lowers the bound, and it does not
change what the walk comes to. -/
theorem backStep_eq (limits : TableLimits) (state : List Span × Option Nat)
    (hrests : Rests image state) :
    backStep limits image state =
        .ok (.done (limits.growBack image state.1 (boundOf state.2))) ∨
      ∃ next, backStep limits image state = .ok (.again next) ∧
        boundOf next.2 < boundOf state.2 ∧ Rests image next ∧
        limits.growBack image next.1 (boundOf next.2) =
          limits.growBack image state.1 (boundOf state.2) := by
  obtain ⟨taken, cursor⟩ := state
  cases cursor with
  | none =>
      left
      have hnone : image.stringBefore? 0 = none := by
        rw [Image.stringBefore?, Nat.zero_min]
        rfl
      have hend : limits.growBack image taken 0 = ⟨taken, (image.stringBefore? 0).isSome⟩ :=
        TableLimits.growBack_of_foreign fun s hs => by rw [hnone] at hs; cases hs
      show _ = Except.ok (Step.done (limits.growBack image taken 0))
      rw [hend, hnone]
      rfl
  | some cursor =>
      show _ = Except.ok (Step.done (limits.growBack image taken (cursor + 1))) ∨ _
      cases hfound : image.stringBefore? (cursor + 1) with
      | none =>
          left
          have hend := @TableLimits.growBack_of_foreign limits image taken (cursor + 1)
            fun s hs => by rw [hfound] at hs; cases hs
          rw [hend, backStep, stringAt?_eq hsize, ok_bind, hfound]
          rfl
      | some s =>
          obtain ⟨hrun, hbelow, _⟩ := Image.stringBefore?_eq_some_iff.1 hfound
          have hnear : ∀ last, taken.head? = some last →
              isNear limits s last = .ok (limits.isNear s last) := by
            intro last hlast
            obtain ⟨hstart, hboundary⟩ := hrests last hlast
            have hbound : last.start = cursor + 1 := hstart
            exact isNear_eq (hrun.stop_le_of_boundary (by omega) hboundary)
          have hback : backStep limits image (taken, some cursor) =
              takeOne limits image (isNear limits s) taken s (sub? s.start 1) := by
            rw [backStep, stringAt?_eq hsize, ok_bind, hfound]
          rw [hback, takeOne_eq limits _ hnear (Nat.le_of_lt hrun.nonempty) hrun.inside]
          cases hok : taken.head?.all (limits.isNear s) && limits.isName image s with
          | false =>
              left
              have hend := @TableLimits.growBack_of_foreign limits image taken (cursor + 1)
                fun t ht => by rw [hfound] at ht; cases ht; exact hok
              rw [hend, hfound]
              rfl
          | true =>
              obtain ⟨hnearby, hname⟩ := Bool.and_eq_true_iff.1 hok
              refine .inr ⟨(s :: taken, sub? s.start 1), rfl, ?_, ?_, ?_⟩
              · show boundOf (sub? s.start 1) < cursor + 1
                rw [boundOf_sub?]
                exact hbelow
              · intro last hlast
                obtain rfl : s = last := Option.some.inj hlast
                exact ⟨(boundOf_sub? s.start).symm, hrun.boundary_start⟩
              · show limits.growBack image (s :: taken) (boundOf (sub? s.start 1)) = _
                rw [boundOf_sub?]
                exact (TableLimits.growBack_step hfound hnearby hname).symm

theorem growBack_eq (limits : TableLimits) (anchor : Nat) :
    growBack limits image anchor = .ok (limits.growBack image [] anchor) := by
  have hfirst : Rests image ([], sub? anchor 1) := fun last hlast => by cases hlast
  rw [growBack, loop_eq (Rests image) _ (backStep_eq hsize limits) hfirst, boundOf_sub?]

/-- What a step of the forward walk does: it is not trapped, it moves up, and it does not change what
the walk comes to. The walk goes on at the end of the name it took last. -/
theorem forwardStep_eq (limits : TableLimits) (state : List Span × Nat)
    (hrests : ∀ last, state.1.head? = some last → last.stop = state.2) :
    forwardStep limits image state = .ok (.done (limits.growForward image state.1 state.2)) ∨
      ∃ next, forwardStep limits image state = .ok (.again next) ∧
        image.size - next.2 < image.size - state.2 ∧
        (∀ last, next.1.head? = some last → last.stop = next.2) ∧
        limits.growForward image next.1 next.2 = limits.growForward image state.1 state.2 := by
  obtain ⟨taken, cursor⟩ := state
  cases hfound : image.stringFrom? cursor with
  | none =>
      left
      have hend := @TableLimits.growForward_of_foreign limits image taken cursor
        fun s hs => by rw [hfound] at hs; cases hs
      rw [hend, forwardStep, stringFrom?_eq hsize, ok_bind, hfound]
      rfl
  | some s =>
      obtain ⟨hstart, hnonempty, hinside⟩ := Image.stringFrom?_bounds hfound
      have hnear : ∀ last, taken.head? = some last →
          isNear limits last s = .ok (limits.isNear last s) := by
        intro last hlast
        have hstop : last.stop = cursor := hrests last hlast
        exact isNear_eq (by omega)
      have hforward : forwardStep limits image (taken, cursor) =
          takeOne limits image (isNear limits · s) taken s s.stop := by
        rw [forwardStep, stringFrom?_eq hsize, ok_bind, hfound]
      have htaken := takeOne_eq limits s.stop hnear (Nat.le_of_lt hnonempty) hinside
      rw [hforward, htaken]
      cases hok : taken.head?.all (limits.isNear · s) && limits.isName image s with
      | false =>
          left
          have hend := @TableLimits.growForward_of_foreign limits image taken cursor
            fun t ht => by rw [hfound] at ht; cases ht; exact hok
          rw [hend, hfound]
          rfl
      | true =>
          obtain ⟨hnearby, hname⟩ := Bool.and_eq_true_iff.1 hok
          refine .inr ⟨(s :: taken, s.stop), rfl, ?_, ?_, ?_⟩
          · show image.size - s.stop < image.size - cursor
            omega
          · intro last hlast
            obtain rfl : s = last := Option.some.inj hlast
            rfl
          · exact (TableLimits.growForward_step hfound hnearby hname).symm

theorem growForward_eq (limits : TableLimits) (anchor : Nat) :
    growForward limits image anchor = .ok (limits.growForward image [] anchor) := by
  have hfirst : ∀ last, ([] : List Span).head? = some last → last.stop = anchor :=
    fun last hlast => by cases hlast
  rw [growForward, loop_eq _ _ (forwardStep_eq hsize limits) hfirst]

theorem locate_eq (limits : TableLimits) (anchor : Nat) :
    locate limits image anchor = .ok (limits.locate image anchor) := by
  rw [locate, growBack_eq hsize, ok_bind, growForward_eq hsize, TableLimits.locate]
  split
  · rfl
  · rw [ok_bind]
    dsimp only
    split <;> rfl

end Walks

end Checked

end FirmwareSymbols
