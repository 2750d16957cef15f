import FirmwareSymbols.Proofs.NameGaps
import Mathlib.Data.List.Induction

/-!
# The longest blocks at an anchor

What the two walks take can be said without a walk. Among all the runs of
an image below an anchor, the backward walk takes the longest block that
ends with the last one; among those from the anchor on, the forward walk
takes the longest block that begins with the first one. Whether there is
a table then depends on how long the two blocks are, and on whether the
backward block reaches down to the first run of the image.

## Main results

* `TableLimits.growBack_of_runs`, `TableLimits.growForward_of_runs`: a
  walk takes runs that are names and lie near each other.
* `TableLimits.growBack_longestEnd`,
  `TableLimits.growForward_longestBeginning`: what the walks take.
* `TableLimits.locate_eq_some_iff_of_meetAt`: when a table is located.
* `TableLimits.locate_longestBlocks`: the specification of the search.
-/

namespace FirmwareSymbols

/-! ## Walks over given runs -/

namespace TableLimits

variable {limits : TableLimits} {image : Image}

/-- The backward walk takes the runs of an interval if they are names and each lies near the next. -/
theorem growBack_of_runs (limits : TableLimits) {lo : Nat} (hlo : image.Boundary lo)
    (spans : List Span) :
    ∀ (taken : List Span) (bound : Nat), image.Boundary bound → bound ≤ image.size →
      image.Runs bound lo spans → (∀ s ∈ spans, limits.isName image s = true) →
      (spans ++ taken).IsChain (fun s t => limits.isNear s t = true) →
      limits.growBack image taken bound =
        limits.growBack image (spans ++ taken) ((spans.head?.map Span.start).getD bound) := by
  -- the walk takes the last run first
  induction spans using List.reverseRecOn with
  | nil =>
      intro taken bound _ _ _ _ _
      rfl
  | append_singleton spans s ih =>
      intro taken bound hbound hsize hruns hnames hchain
      have hrun : image.IsRun s := hruns.isRun hlo hbound hsize s (by simp)
      have hfound := hruns.stringBefore?_concat hrun
      obtain ⟨hleft, hfirst, _⟩ := hruns.split
      have hstart : s.start < bound := Nat.lt_of_lt_of_le hfirst.nonempty hfirst.stop_le
      rw [List.append_assoc, List.singleton_append] at hchain ⊢
      have hnear : taken.head?.all (limits.isNear s) = true := by
        cases taken with
        | nil => rfl
        | cons t rest => exact (List.isChain_append_cons_cons.1 hchain).2.1
      have hrest := ih (s :: taken) s.start hrun.boundary_start (by omega) hleft
        (fun t ht => hnames t (List.mem_append_left _ ht)) hchain
      rw [growBack_step hfound hnear (hnames s (by simp)), hrest]
      cases spans with
      | nil => rfl
      | cons t rest => rfl

/-- The forward walk takes the runs of an interval if they are names and each lies near the next. -/
theorem growForward_of_runs (limits : TableLimits) {hi : Nat} (hhi : image.Boundary hi)
    (hsize : hi ≤ image.size) (spans : List Span) :
    ∀ (taken : List Span) (offset : Nat), image.Boundary offset → image.Runs hi offset spans →
      (∀ s ∈ spans, limits.isName image s = true) →
      (taken.reverse ++ spans).IsChain (fun s t => limits.isNear s t = true) →
      limits.growForward image taken offset =
        limits.growForward image (spans.reverse ++ taken)
          ((spans.getLast?.map Span.stop).getD offset) := by
  induction spans with
  | nil =>
      intro taken offset _ _ _ _
      rfl
  | cons s rest ih =>
      intro taken offset hoffset hruns hnames hchain
      have hrun : image.IsRun s := hruns.isRun hoffset hhi hsize s (List.mem_cons_self ..)
      obtain ⟨hfirst, hruns⟩ := hruns
      have hfound : image.stringFrom? offset = some s := by
        refine (Image.stringWithin?_eq_some_iff (Nat.le_refl _)).2 ?_
        exact { hfirst with stop_le := hrun.inside, closes := hrun.closes }
      have hnear : taken.head?.all (limits.isNear · s) = true := by
        cases taken with
        | nil => rfl
        | cons t others =>
            rw [List.reverse_cons, List.append_assoc, List.singleton_append] at hchain
            exact (List.isChain_append_cons_cons.1 hchain).2.1
      have hrest := ih (s :: taken) s.stop (Image.boundary_of_closes hrun.closes) hruns
        (fun t ht => hnames t (List.mem_cons_of_mem s ht)) (by simpa using hchain)
      rw [growForward_step hfound hnear (hnames s (List.mem_cons_self ..)), hrest,
        List.reverse_cons, List.append_assoc, List.singleton_append]
      cases rest with
      | nil => rfl
      | cons t others =>
          rw [List.getLast?_cons_cons,
            List.getLast?_eq_some_getLast (List.cons_ne_nil t others)]
          rfl

/-! ## Blocks -/

/-- Neighbouring runs that may make up a table: each could be the name of a function, and no more bytes
than are permitted lie between one and the next. -/
structure IsBlock (limits : TableLimits) (image : Image) (spans : List Span) : Prop where
  names : ∀ s ∈ spans, limits.isName image s = true
  near : spans.IsChain fun s t => t.start - s.stop ≤ limits.maxGap

/-- The longest block that ends with the last one of some runs. -/
structure LongestEnd (limits : TableLimits) (image : Image) (spans block : List Span) : Prop where
  isSuffix : block <:+ spans
  isBlock : limits.IsBlock image block
  longest : ∀ other, other <:+ spans → limits.IsBlock image other → other.length ≤ block.length

/-- The longest block that begins with the first one of some runs. -/
structure LongestBeginning (limits : TableLimits) (image : Image) (spans block : List Span) :
    Prop where
  isPrefix : block <+: spans
  isBlock : limits.IsBlock image block
  longest : ∀ other, other <+: spans → limits.IsBlock image other → other.length ≤ block.length

theorem nil_isBlock (limits : TableLimits) (image : Image) : limits.IsBlock image [] :=
  ⟨fun _ hs => absurd hs List.not_mem_nil, List.isChain_nil⟩

theorem IsBlock.isChain_isNear {spans : List Span} (h : limits.IsBlock image spans) :
    spans.IsChain fun s t => limits.isNear s t = true :=
  h.near.imp fun _ _ hnear => decide_eq_true hnear

/-- A run that the backward walk would take goes in front of a block. -/
theorem IsBlock.cons {spans : List Span} {s : Span} (h : limits.IsBlock image spans)
    (hok : (spans.head?.all (limits.isNear s) && limits.isName image s) = true) :
    limits.IsBlock image (s :: spans) := by
  rw [Bool.and_eq_true] at hok
  constructor
  · intro t ht
    rcases List.mem_cons.1 ht with rfl | ht
    · exact hok.2
    · exact h.names t ht
  · exact h.near.cons fun t ht => of_decide_eq_true (isNear_of_head?_all hok.1 t ht)

/-- A run that the forward walk would take goes behind a block. -/
theorem IsBlock.concat {spans : List Span} {s : Span} (h : limits.IsBlock image spans)
    (hok : (spans.getLast?.all (limits.isNear · s) && limits.isName image s) = true) :
    limits.IsBlock image (spans ++ [s]) := by
  rw [Bool.and_eq_true] at hok
  constructor
  · intro t ht
    rcases List.mem_append.1 ht with ht | ht
    · exact h.names t ht
    · rw [List.mem_singleton.1 ht]
      exact hok.2
  · refine h.near.append (List.isChain_singleton s) fun t ht u hu => ?_
    rw [List.head?_singleton, Option.mem_def, Option.some.injEq] at hu
    subst hu
    rw [Option.mem_def.1 ht, Option.all_some] at hok
    exact of_decide_eq_true hok.1

/-! ## What the walks take -/

/-- The backward walk takes the longest block, and it is stopped unless that block holds all runs. -/
theorem growBack_longestEnd {bound : Nat} {below back : List Span} (hbound : image.Boundary bound)
    (hsize : bound ≤ image.size) (hruns : image.Runs bound 0 below)
    (hback : limits.LongestEnd image below back) :
    (limits.growBack image [] bound).names = back ∧
      ((limits.growBack image [] bound).stopped = true ↔ back ≠ below) := by
  obtain ⟨rest, rfl⟩ := hback.isSuffix
  have hall := hruns.isRun (.inl rfl) hbound hsize
  obtain ⟨start, hrest, hwalk⟩ : ∃ start, image.Runs start 0 rest ∧
      limits.growBack image [] bound = limits.growBack image back start := by
    cases back with
    | nil => exact ⟨bound, by rwa [List.append_nil] at hruns, rfl⟩
    | cons s others =>
        obtain ⟨hleft, hright⟩ := hruns.split
        have hrun := hall s (by simp)
        refine ⟨s.start, hleft, ?_⟩
        rw [growBack_of_runs limits hrun.boundary_start (s :: others) [] bound hbound hsize hright
          hback.isBlock.names (by rw [List.append_nil]; exact hback.isBlock.isChain_isNear),
          List.append_nil]
        rfl
  have hfound := hrest.stringBefore?_eq fun s hs => hall s (List.mem_append_left _ hs)
  rw [hwalk, growBack_of_foreign, hfound]
  · refine ⟨rfl, ?_⟩
    show rest.getLast?.isSome = true ↔ back ≠ rest ++ back
    rw [List.getLast?_isSome, ne_eq, ne_eq, List.self_eq_append_left]
  · -- otherwise the block would go on with that run
    intro s hs
    rw [hfound] at hs
    obtain ⟨front, rfl⟩ := List.getLast?_eq_some_iff.1 hs
    by_contra hok
    rw [Bool.not_eq_false] at hok
    have hlonger := hback.longest (s :: back) ⟨front, by simp⟩ (hback.isBlock.cons hok)
    rw [List.length_cons] at hlonger
    omega

/-- The forward walk takes the longest block. -/
theorem growForward_longestBeginning {offset : Nat} {above front : List Span}
    (hoffset : image.Boundary offset) (hruns : image.Runs image.size offset above)
    (hfront : limits.LongestBeginning image above front) :
    (limits.growForward image [] offset).names = front.reverse := by
  obtain ⟨rest, rfl⟩ := hfront.isPrefix
  have hend : image.Boundary image.size := Image.boundary_size image
  have hall := hruns.isRun hoffset hend (Nat.le_refl _)
  -- the block fills the interval that the other runs leave
  obtain ⟨hi, hhi, hsize, hblock⟩ : ∃ hi, image.Boundary hi ∧ hi ≤ image.size ∧
      image.Runs hi offset front := by
    cases rest with
    | nil => exact ⟨image.size, hend, Nat.le_refl _, by rwa [List.append_nil] at hruns⟩
    | cons t others =>
        have hrun := hall t (by simp)
        exact ⟨t.start, hrun.boundary_start, Nat.le_of_lt hrun.start_lt_size, hruns.split.1⟩
  have hrest : image.Runs image.size ((front.getLast?.map Span.stop).getD offset) rest := by
    cases hlast : front.getLast? with
    | none =>
        rw [List.getLast?_eq_none_iff.1 hlast] at hruns
        exact hruns
    | some last => exact hruns.of_append hlast
  rw [growForward_of_runs limits hhi hsize front [] offset hoffset hblock hfront.isBlock.names
    hfront.isBlock.isChain_isNear, List.append_nil, growForward_of_foreign]
  -- otherwise the block would go on with that run
  intro t ht
  rw [hrest.stringFrom?_eq] at ht
  obtain ⟨others, rfl⟩ := List.head?_eq_some_iff.1 ht
  by_contra hok
  rw [Bool.not_eq_false, List.head?_reverse] at hok
  have hlonger := hfront.longest (front ++ [t]) ⟨others, by simp⟩ (hfront.isBlock.concat hok)
  rw [List.length_append, List.length_singleton] at hlonger
  omega

/-! ## The table at an anchor -/

/-- All runs of an image, those that begin below an anchor and those that begin from it on, and the longest
blocks that meet there. -/
structure MeetAt (limits : TableLimits) (image : Image) (anchor : Nat)
    (below above back front : List Span) : Prop where
  listsBelow : image.ListsRuns 0 anchor below
  listsAbove : image.ListsRuns anchor image.size above
  longestEnd : limits.LongestEnd image below back
  longestBeginning : limits.LongestBeginning image above front

theorem exists_longest_suffix {α : Type} {p : List α → Prop} (hnil : p []) (list : List α) :
    ∃ block, block <:+ list ∧ p block ∧
      ∀ other, other <:+ list → p other → other.length ≤ block.length := by
  induction list with
  | nil => exact ⟨[], List.suffix_refl [], hnil, fun other hother _ => hother.length_le⟩
  | cons a rest ih =>
      by_cases hwhole : p (a :: rest)
      · exact ⟨a :: rest, List.suffix_refl _, hwhole, fun other hother _ => hother.length_le⟩
      · obtain ⟨block, hblock, hp, hlongest⟩ := ih
        refine ⟨block, hblock.trans (List.suffix_cons a rest), hp, fun other hother hpother => ?_⟩
        rcases List.suffix_cons_iff.1 hother with rfl | hother
        · exact absurd hpother hwhole
        · exact hlongest other hother hpother

theorem exists_longest_prefix {α : Type} {p : List α → Prop} (hnil : p []) (list : List α) :
    ∃ block, block <+: list ∧ p block ∧
      ∀ other, other <+: list → p other → other.length ≤ block.length := by
  obtain ⟨block, hblock, hp, hlongest⟩ :=
    exists_longest_suffix (p := fun reversed => p reversed.reverse) hnil list.reverse
  refine ⟨block.reverse, ?_, hp, fun other hother hpother => ?_⟩
  · rwa [← List.reverse_suffix, List.reverse_reverse]
  · have hle := hlongest other.reverse (List.reverse_suffix.2 hother)
      (by rwa [List.reverse_reverse])
    rwa [List.length_reverse] at hle ⊢

/-- At every boundary of an image two blocks meet. -/
theorem exists_meetAt (limits : TableLimits) {anchor : Nat} (hanchor : image.Boundary anchor)
    (hsize : anchor ≤ image.size) :
    ∃ below above back front, limits.MeetAt image anchor below above back front := by
  obtain ⟨below, hbelow⟩ := Image.exists_runs (Nat.zero_le anchor) hsize
  obtain ⟨above, habove⟩ := Image.exists_runs hsize (Nat.le_refl image.size)
  obtain ⟨back, hsuffix, hback, hlongestBack⟩ :=
    exists_longest_suffix (limits.nil_isBlock image) below
  obtain ⟨front, hbegins, hfront, hlongestFront⟩ :=
    exists_longest_prefix (limits.nil_isBlock image) above
  exact ⟨below, above, back, front, hbelow.listsRuns (.inl rfl) hanchor hsize,
    habove.listsRuns hanchor (Image.boundary_size image) (Nat.le_refl _),
    ⟨hsuffix, hback, hlongestBack⟩, ⟨hbegins, hfront, hlongestFront⟩⟩

section MeetAt

variable {anchor : Nat} {below above back front : List Span}

/-- Which blocks meet at an anchor does not depend on how many names make a table. -/
theorem MeetAt.withRequired (h : limits.MeetAt image anchor below above back front)
    (required : Nat) :
    ({ limits with required } : TableLimits).MeetAt image anchor below above back front := by
  have hblock : ∀ spans, ({ limits with required } : TableLimits).IsBlock image spans →
      limits.IsBlock image spans := fun _ hspans => ⟨hspans.names, hspans.near⟩
  refine ⟨h.listsBelow, h.listsAbove, ?_, ?_⟩
  · exact ⟨h.longestEnd.isSuffix, ⟨h.longestEnd.isBlock.names, h.longestEnd.isBlock.near⟩,
      fun other hother hspans => h.longestEnd.longest other hother (hblock other hspans)⟩
  · exact ⟨h.longestBeginning.isPrefix,
      ⟨h.longestBeginning.isBlock.names, h.longestBeginning.isBlock.near⟩,
      fun other hother hspans => h.longestBeginning.longest other hother (hblock other hspans)⟩

/-- The blocks that meet at an anchor do not overlap. -/
theorem MeetAt.pairwise (h : limits.MeetAt image anchor below above back front) :
    (back ++ front).Pairwise fun s t => s.stop < t.start := by
  have hback := h.longestEnd.isSuffix
  have hfront := h.longestBeginning.isPrefix
  refine List.pairwise_append.2 ⟨h.listsBelow.ordered.sublist hback.sublist,
    h.listsAbove.ordered.sublist hfront.sublist, fun s hs t ht => ?_⟩
  obtain ⟨hrun, _, hbelow⟩ := (h.listsBelow.mem_iff s).1 (hback.subset hs)
  obtain ⟨hother, habove, _⟩ := (h.listsAbove.mem_iff t).1 (hfront.subset ht)
  exact hother.not_start_inside hrun.text (by omega)

/-- When a table is located, and which one. -/
theorem locate_eq_some_iff_of_meetAt (h : limits.MeetAt image anchor below above back front)
    (hanchor : image.Boundary anchor) (hsize : anchor ≤ image.size) (table : LocatedTable) :
    limits.locate image anchor = some table ↔
      limits.required ≤ back.length + front.length ∧
        (back = below ∨ limits.required ≤ back.length) ∧
        table.names = back ++ front ∧
        ∃ first last, (back ++ front).head? = some first ∧
          (back ++ front).getLast? = some last ∧ table.extent = ⟨first.start, last.stop⟩ := by
  have hruns := (Image.listsRuns_iff (Nat.zero_le _) (.inl rfl) hanchor hsize).1 h.listsBelow
  have hrunsAbove := (Image.listsRuns_iff hsize hanchor
    (Image.boundary_size image) (Nat.le_refl _)).1 h.listsAbove
  obtain ⟨hback, hstopped⟩ := growBack_longestEnd hanchor hsize hruns h.longestEnd
  have hfront := growForward_longestBeginning hanchor hrunsAbove h.longestBeginning
  have hreach : (back ≠ below → limits.required ≤ back.length) ↔
      (back = below ∨ limits.required ≤ back.length) := by
    rw [ne_eq, ← or_iff_not_imp_left]
  rw [locate_eq_some_iff, hstopped, hback, hfront, List.reverse_reverse, hreach]
  constructor
  · rintro ⟨hback, hnames, hcount, hends⟩
    rw [hnames] at hcount hends
    rw [List.length_append] at hcount
    exact ⟨hcount, hback, hnames, hends⟩
  · rintro ⟨hcount, hback, hnames, hends⟩
    rw [hnames, List.length_append]
    exact ⟨hback, rfl, hcount, hends⟩

/-- Whether a table is located at an anchor, which one, and that asking for fewer names never changes it.
The anchor may be any offset behind a null, or the beginning of the image. -/
theorem locate_longestBlocks (limits : TableLimits)
    (hanchor : anchor = 0 ∨ image.isNull (anchor - 1) = true) :
    (∃ below above back front, limits.MeetAt image anchor below above back front) ∧
    ∀ below above back front, limits.MeetAt image anchor below above back front →
      ((limits.locate image anchor).isSome = true ↔
        back ++ front ≠ [] ∧ limits.required ≤ back.length + front.length ∧
          (back = below ∨ limits.required ≤ back.length)) ∧
      (∀ table, limits.locate image anchor = some table →
        table.names = back ++ front ∧ (table.names.Pairwise fun s t => s.stop < t.start) ∧
          ∃ first last, table.names.head? = some first ∧ table.names.getLast? = some last ∧
            table.extent = ⟨first.start, last.stop⟩) ∧
      ∀ fewer table, fewer ≤ limits.required → limits.locate image anchor = some table →
        ({ limits with required := fewer } : TableLimits).locate image anchor = some table := by
  have hboundary : image.Boundary anchor := hanchor.imp_right fun hnull =>
    .inl (Image.isText_eq_false_of_isNull hnull)
  have hsize : anchor ≤ image.size := by
    rcases hanchor with hzero | hnull
    · omega
    · have := Image.lt_size_of_isNull hnull
      omega
  refine ⟨limits.exists_meetAt hboundary hsize, fun below above back front hmeet => ?_⟩
  have hlocate := locate_eq_some_iff_of_meetAt hmeet hboundary hsize
  refine ⟨?_, fun table hlocated => ?_, fun fewer table hfewer hlocated => ?_⟩
  · rw [Option.isSome_iff_exists]
    constructor
    · rintro ⟨table, hlocated⟩
      obtain ⟨hcount, hreach, _, first, _, hfirst, _⟩ := (hlocate table).1 hlocated
      refine ⟨?_, hcount, hreach⟩
      intro hnil
      rw [hnil] at hfirst
      cases hfirst
    · rintro ⟨hne, hcount, hreach⟩
      have hhead := List.head?_eq_some_head hne
      have hlast := List.getLast?_eq_some_getLast hne
      exact ⟨⟨⟨_, _⟩, back ++ front⟩, (hlocate _).2 ⟨hcount, hreach, rfl, _, _, hhead, hlast, rfl⟩⟩
  · obtain ⟨_, _, hnames, hends⟩ := (hlocate table).1 hlocated
    rw [hnames]
    exact ⟨rfl, hmeet.pairwise, hends⟩
  · obtain ⟨hcount, hreach, hnames, hends⟩ := (hlocate table).1 hlocated
    exact (locate_eq_some_iff_of_meetAt (hmeet.withRequired fewer) hboundary hsize _).2
      ⟨Nat.le_trans hfewer hcount, hreach.imp_right (Nat.le_trans hfewer), hnames, hends⟩

end MeetAt

/-- At `cd` the block of `ls` meets the block of the other two names. The format string below it could not be
the name of a function, so one name must do for the backward walk, and none would do as well. -/
theorem locate_longestBlocks_openNames :
    openNames.isNull (7 - 1) = true ∧
      ∃ below above back front,
        (⟨1, 255, 4⟩ : TableLimits).MeetAt openNames 7 below above back front ∧
          back ++ front = [⟨3, 5⟩, ⟨7, 9⟩, ⟨10, 12⟩] ∧
          locate ⟨0, 255, 4⟩ openNames 7 = some ⟨⟨3, 12⟩, back ++ front⟩ := by
  have hnull : openNames.isNull (7 - 1) = true := by decide +kernel
  have hlocated : locate ⟨1, 255, 4⟩ openNames 7 =
      some ⟨⟨3, 12⟩, [⟨3, 5⟩, ⟨7, 9⟩, ⟨10, 12⟩]⟩ := by decide +kernel
  obtain ⟨⟨below, above, back, front, hmeet⟩, hall⟩ :=
    locate_longestBlocks ⟨1, 255, 4⟩ (.inr hnull)
  obtain ⟨_, htable, hfewer⟩ := hall below above back front hmeet
  have hnames := (htable _ hlocated).1
  refine ⟨hnull, below, above, back, front, hmeet, hnames.symm, ?_⟩
  rw [← hnames]
  exact hfewer 0 _ (Nat.zero_le 1) hlocated

end TableLimits

end FirmwareSymbols
