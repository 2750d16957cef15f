import FirmwareSymbols.Proofs.LocatedNames
import FirmwareSymbols.Proofs.RunList
import Mathlib.Data.List.Chain

/-!
# The gaps between located names

Each of the two walks that locate a string table compares a name with the
one it took before, so within a walk neighbouring names lie near each
other. The first name of a walk has nothing to be compared with. The
forward walk begins at the anchor; the backward walk begins below it, and
nothing compares the name that it takes first with the anchor. The gap in
which the two walks meet is therefore not bounded.

## Main results

* `Image.Runs.isChain_separates`: nulls, and only nulls, lie between
  neighbouring runs.
* `TableLimits.growBack_isChain`, `TableLimits.growForward_isChain`: the
  bound within a walk.
* `TableLimits.gaps_of_locate`: the gaps of a located table.
* `TableLimits.gap_at_anchor`: a gap at the anchor that is too wide.
-/

namespace FirmwareSymbols

namespace Image

variable {image : Image}

/-- Between two spans lies at least one byte, and all bytes between them are null. -/
structure Separates (image : Image) (s t : Span) : Prop where
  apart : s.stop < t.start
  nulls : ∀ offset, s.stop ≤ offset → offset < t.start → image.isNull offset = true

/-- Below a null no run reaches the end of an interval. -/
theorem Runs.stop_lt {lo hi : Nat} {spans : List Span} (h : image.Runs hi lo spans)
    (hnull : image.isNull (hi - 1) = true) : ∀ s ∈ spans, s.stop < hi := by
  intro s hs
  obtain ⟨_, hnonempty, hstop, htext⟩ := h.text s hs
  exact Nat.lt_of_le_of_ne hstop (AllText.stop_ne htext hnonempty hnull)

/-- Neighbouring runs of an interval are separated by nulls. -/
theorem Runs.isChain_separates {lo hi : Nat} {spans : List Span} (h : image.Runs hi lo spans)
    (hsize : hi ≤ image.size) : spans.IsChain image.Separates := by
  induction spans generalizing lo with
  | nil => exact List.isChain_nil
  | cons s rest ih =>
      have hordered := h.pairwise
      obtain ⟨hfirst, hrest⟩ := h
      cases rest with
      | nil => exact List.isChain_singleton s
      | cons t rest =>
          refine List.isChain_cons_cons.2 ⟨?_, ih hrest⟩
          obtain ⟨hnext, _⟩ := hrest
          have hnonempty := hnext.nonempty
          have hstop := hnext.stop_le
          constructor
          · exact (List.pairwise_cons.1 hordered).1 t List.mem_cons_self
          · intro offset hge hlt
            exact isNull_of_isText_eq_false (by omega) (hnext.clear offset hge hlt)

end Image

namespace TableLimits

variable {limits : TableLimits} {image : Image}

/-! ## The bound within a walk -/

theorem isNear_of_head?_all {p : Span → Bool} {taken : List Span}
    (h : taken.head?.all p = true) : ∀ t ∈ taken.head?, p t = true := by
  intro t ht
  rw [Option.mem_def.1 ht] at h
  exact h

/-- The backward walk keeps neighbouring names near each other. -/
theorem growBack_isChain (limits : TableLimits) (image : Image) (taken : List Span) (bound : Nat)
    (h : taken.IsChain fun s t => limits.isNear s t = true) :
    (limits.growBack image taken bound).names.IsChain fun s t => limits.isNear s t = true := by
  fun_induction growBack limits image taken bound with
  | case1 => exact h
  | case2 taken bound s hsome hok ih =>
      apply ih
      rw [Bool.and_eq_true] at hok
      exact h.cons (isNear_of_head?_all hok.1)
  | case3 => exact h

/-- So does the forward walk, whose names come with the highest one first. -/
theorem growForward_isChain (limits : TableLimits) (image : Image) (taken : List Span)
    (offset : Nat) (h : taken.IsChain fun s t => limits.isNear t s = true) :
    (limits.growForward image taken offset).names.IsChain
      fun s t => limits.isNear t s = true := by
  fun_induction growForward limits image taken offset with
  | case1 => exact h
  | case2 taken offset s hsome hok ih =>
      apply ih
      rw [Bool.and_eq_true] at hok
      exact h.cons (isNear_of_head?_all hok.1)
  | case3 => exact h

/-! ## The gaps of a table -/

/-- A located table is what the two walks take, each with its own gaps bounded. -/
theorem exists_walks_of_locate {anchor : Nat} {table : LocatedTable}
    (hanchor : image.Boundary anchor) (hsize : anchor ≤ image.size)
    (hlocated : limits.locate image anchor = some table) :
    ∃ lo hi below above, table.names = below ++ above ∧
      image.Runs anchor lo below ∧ image.Runs hi anchor above ∧
      (below.IsChain fun s t => limits.isNear s t = true) ∧
      (above.IsChain fun s t => limits.isNear s t = true) := by
  obtain ⟨_, hnames, _⟩ := locate_eq_some_iff.1 hlocated
  obtain ⟨lo, below, hback, _, hbelow, _⟩ := growBack_runs limits [] anchor hanchor hsize
  obtain ⟨hi, above, hforward, _, _, habove, _⟩ :=
    growForward_runs limits [] anchor hanchor hsize
  have hnearBelow := growBack_isChain limits image [] anchor List.isChain_nil
  have hnearAbove := growForward_isChain limits image [] anchor List.isChain_nil
  rw [hback, List.append_nil] at hnearBelow hnames
  rw [hforward, List.append_nil, List.isChain_reverse] at hnearAbove
  rw [hforward, List.append_nil, List.reverse_reverse] at hnames
  exact ⟨lo, hi, below, above, hnames, hbelow, habove, hnearBelow, hnearAbove⟩

/-- Neighbouring names of a table that is located at an anchor are separated by nulls only, by at least
one, and by no more than is permitted unless the anchor lies between them. -/
theorem gaps_of_locate {names : List String} {anchor : Anchor} {table : LocatedTable}
    (hanchor : image.anchor? names = some anchor)
    (hlocated : limits.locate image anchor.offset = some table) :
    table.names.IsChain fun s t =>
      image.Separates s t ∧
        (t.start - s.stop ≤ limits.maxGap ∨
          s.stop < anchor.offset ∧ anchor.offset ≤ t.start) := by
  obtain ⟨hpos, hnull⟩ := Image.isNull_of_anchor? hanchor
  have hinside := Image.lt_size_of_isNull hnull
  have hboundary : image.Boundary anchor.offset := Image.boundary_of_isNull_pred hnull
  have hsize : anchor.offset ≤ image.size := by omega
  obtain ⟨hstop, hruns, _⟩ := locate_runs hboundary hsize hlocated
  obtain ⟨lo, hi, below, above, hnames, hbelow, habove, hnearBelow, hnearAbove⟩ :=
    exists_walks_of_locate hboundary hsize hlocated
  have hnear : table.names.IsChain fun s t =>
      t.start - s.stop ≤ limits.maxGap ∨ s.stop < anchor.offset ∧ anchor.offset ≤ t.start := by
    rw [hnames]
    apply List.IsChain.append
    · exact hnearBelow.imp fun s t h => .inl (of_decide_eq_true h)
    · exact hnearAbove.imp fun s t h => .inl (of_decide_eq_true h)
    · -- this is the pair that neither walk compares
      intro s hs t ht
      have hlast := hbelow.stop_lt hnull s (List.mem_of_getLast? hs)
      obtain ⟨hfirst, _⟩ := habove.text t (List.mem_of_head? ht)
      exact .inr ⟨hlast, hfirst⟩
  have hseparate := hruns.isChain_separates hstop
  rw [List.isChain_iff_getElem]
  intro i hi
  exact ⟨hseparate.getElem i hi, hnear.getElem i hi⟩

/-! ## A gap at the anchor -/

/-- At least one name, and at most four nulls between neighbours. -/
def narrow : TableLimits := ⟨1, 255, 4⟩

/-- The names `ls`, `cd` and `bzero`, the last one behind five nulls. -/
def strayNames : Image :=
  .ofList [0, 0x6c, 0x73, 0, 0x63, 0x64, 0, 0, 0, 0, 0, 0x62, 0x7a, 0x65, 0x72, 0x6f, 0]

/-- The table that is located around `bzero` has all three names. -/
def strayTable : LocatedTable := ⟨⟨1, 16⟩, [⟨1, 3⟩, ⟨4, 6⟩, ⟨11, 16⟩]⟩

theorem gaps_strayNames :
    strayNames.anchor? ["bzero"] = some ⟨11, "bzero"⟩ ∧
      narrow.locate strayNames 11 = some strayTable ∧
      strayTable.names.IsChain fun s t =>
        strayNames.Separates s t ∧ (t.start - s.stop ≤ 4 ∨ s.stop < 11 ∧ 11 ≤ t.start) := by
  have hanchor : strayNames.anchor? ["bzero"] = some ⟨11, "bzero"⟩ := by decide +kernel
  have hlocated : narrow.locate strayNames 11 = some strayTable := by decide +kernel
  exact ⟨hanchor, hlocated, gaps_of_locate hanchor hlocated⟩

/-- The name `cd` is taken although more nulls than are permitted separate it from the anchor. -/
theorem gap_at_anchor :
    strayNames.anchor? ["bzero"] = some ⟨11, "bzero"⟩ ∧
      narrow.locate strayNames 11 = some strayTable ∧
      ¬ strayTable.names.IsChain fun s t =>
        strayNames.Separates s t ∧ t.start - s.stop ≤ narrow.maxGap := by
  refine ⟨by decide +kernel, by decide +kernel, ?_⟩
  intro hchain
  have hgap : 11 - 6 ≤ 4 := (hchain.getElem 1 (by decide)).2
  omega

end TableLimits

end FirmwareSymbols
