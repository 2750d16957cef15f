import FirmwareSymbols.Proofs.Linked.Names

/-!
# Which anchor is found

A name counts as an anchor only with a null on either side, so that it is
a whole string of the image and no part of a longer one. Of the names to
look for, the first in their order that has such a place is taken, at its
least place; a later name may well lie below it.

A place with a null in front of it is a boundary of the runs. The two
walks that grow a table begin there, one on either side: the forward walk
at the name itself and the backward walk at a string that ends before it.

## Main definitions

* `Image.Delimits`: a name has a place between two nulls.
* `Image.IsFirstAnchor`: the anchor that ought to be found.

## Main results

* `Image.anchor?_eq_some_iff`, `Image.anchor?_eq_none_iff`: which anchor
  is found.
* `Image.Delimits.stringFrom?_eq`: the name is a run of the image.
* `Image.anchor?_exact`: what an anchor is and what lies beside it.
-/

namespace FirmwareSymbols

/-- Every name has bytes, except the empty one. -/
theorem Utf8.encode_ne_nil {text : String} (hne : text ≠ "") : Utf8.encode text ≠ [] := by
  have hchars : text.toList ≠ [] := by
    rw [ne_eq, String.toList_eq_nil_iff]
    exact hne
  obtain ⟨c, rest, hcons⟩ := List.exists_cons_of_ne_nil hchars
  have hbytes : String.utf8EncodeChar c ≠ [] := by
    rw [← List.length_pos_iff, String.length_utf8EncodeChar]
    exact c.utf8Size_pos
  rw [Utf8.encode, hcons, List.flatMap_cons]
  exact List.append_ne_nil_of_left_ne_nil hbytes _

namespace Image

variable {image : Image}

/-! ## Places between two nulls -/

/-- A name stands at an offset of the image, with a null in front of it and one behind it. -/
structure Delimits (image : Image) (name : String) (offset : Nat) : Prop where
  pos : 0 < offset
  opens : image.isNull (offset - 1) = true
  bytes : image.window offset (Utf8.encode name).length = Utf8.encode name
  closes : image.isNull (offset + (Utf8.encode name).length) = true

theorem holds_iff_window_eq {bytes : List UInt8} {offset : Nat} :
    image.holds bytes offset = true ↔ image.window offset bytes.length = bytes := by
  refine ⟨window_of_holds, fun hwindow => holds_iff.2 fun k hk => ?_⟩
  have hbyte := image.getElem?_window offset bytes.length k
  rw [hwindow, if_pos hk] at hbyte
  exact hbyte.symm

/-- The bytes that are looked for begin one offset before the name. -/
theorem holds_delimited_iff {name : String} {offset : Nat} :
    image.holds (0 :: (Utf8.encode name ++ [0])) offset = true ↔
      image.Delimits name (offset + 1) := by
  rw [holds, Bool.and_eq_true, beq_iff_eq, holds_append, ← isNull_iff, holds_iff_window_eq]
  simp only [holds, Bool.and_true, beq_iff_eq, ← isNull_iff]
  constructor
  · rintro ⟨hopens, hbytes, hcloses⟩
    exact ⟨Nat.succ_pos offset, hopens, hbytes, hcloses⟩
  · rintro ⟨_, hopens, hbytes, hcloses⟩
    exact ⟨hopens, hbytes, hcloses⟩

theorem find?_delimited_eq_some_iff {name : String} {offset : Nat} :
    image.find? (0 :: (Utf8.encode name ++ [0])) = some offset ↔
      image.Delimits name (offset + 1) ∧
        ∀ place, image.Delimits name place → offset + 1 ≤ place := by
  rw [find?_eq_some_iff, holds_delimited_iff]
  constructor
  · rintro ⟨_, hdelimits, hleast⟩
    refine ⟨hdelimits, fun place hplace => ?_⟩
    have hpos := hplace.pos
    rcases Nat.lt_or_ge (place - 1) offset with hlt | hge
    · have hholds := hleast (place - 1) hlt
      rw [← Nat.sub_add_cancel hpos] at hplace
      rw [holds_delimited_iff.2 hplace] at hholds
      cases hholds
    · omega
  · rintro ⟨hdelimits, hleast⟩
    refine ⟨lt_size_of_isNull hdelimits.opens, hdelimits, fun k hk => ?_⟩
    have hnot : ¬ image.holds (0 :: (Utf8.encode name ++ [0])) k = true := by
      intro hholds
      have := hleast (k + 1) (holds_delimited_iff.1 hholds)
      omega
    simpa using hnot

theorem find?_delimited_eq_none_iff {name : String} :
    image.find? (0 :: (Utf8.encode name ++ [0])) = none ↔
      ∀ place, ¬ image.Delimits name place := by
  constructor
  · intro hnone place hplace
    rw [find?, leastFrom_eq_none_iff] at hnone
    have hpos := hplace.pos
    have hinside := lt_size_of_isNull hplace.opens
    have hholds := hnone (place - 1) (Nat.zero_le _) (by omega)
    rw [← Nat.sub_add_cancel hpos] at hplace
    rw [holds_delimited_iff.2 hplace] at hholds
    cases hholds
  · intro hnone
    rw [Option.eq_none_iff_forall_ne_some]
    intro offset hfound
    exact hnone _ (find?_delimited_eq_some_iff.1 hfound).1

/-! ## The first anchor -/

/-- The first of some names that has a place between two nulls, where empty names do not count, at the
least such place. -/
structure IsFirstAnchor (image : Image) (names : List String) (anchor : Anchor) : Prop where
  first : ∃ before after, names = before ++ anchor.name :: after ∧
    ∀ name ∈ before, name ≠ "" → ∀ place, ¬ image.Delimits name place
  nonempty : anchor.name ≠ ""
  delimits : image.Delimits anchor.name anchor.offset
  least : ∀ place, image.Delimits anchor.name place → anchor.offset ≤ place

/-- A name that has no place can be left out at the front. -/
theorem isFirstAnchor_cons_iff {name : String} {rest : List String} {anchor : Anchor}
    (hnone : name ≠ "" → ∀ place, ¬ image.Delimits name place) :
    image.IsFirstAnchor (name :: rest) anchor ↔ image.IsFirstAnchor rest anchor := by
  constructor
  · rintro ⟨⟨before, after, hnames, hbefore⟩, hne, hdelimits, hleast⟩
    cases before with
    | nil =>
        obtain ⟨rfl, _⟩ := List.cons.inj hnames
        exact absurd hdelimits (hnone hne _)
    | cons other before =>
        obtain ⟨_, hrest⟩ := List.cons.inj hnames
        exact ⟨⟨before, after, hrest, fun n hn => hbefore n (List.mem_cons_of_mem _ hn)⟩, hne,
          hdelimits, hleast⟩
  · rintro ⟨⟨before, after, rfl, hbefore⟩, hne, hdelimits, hleast⟩
    refine ⟨⟨name :: before, after, rfl, fun n hn => ?_⟩, hne, hdelimits, hleast⟩
    rcases List.mem_cons.1 hn with rfl | hn
    · exact hnone
    · exact hbefore n hn

theorem anchor?_eq_some_iff {names : List String} {anchor : Anchor} :
    image.anchor? names = some anchor ↔ image.IsFirstAnchor names anchor := by
  induction names with
  | nil =>
      refine iff_of_false nofun fun h => ?_
      obtain ⟨before, after, hnames, _⟩ := h.first
      exact List.append_ne_nil_of_right_ne_nil before (List.cons_ne_nil _ _) hnames.symm
  | cons name rest ih =>
      rw [anchor?]
      by_cases hempty : name = ""
      · rw [if_pos hempty, ih, isFirstAnchor_cons_iff fun hne => absurd hempty hne]
      · rw [if_neg hempty]
        cases hfound : image.find? (0 :: (Utf8.encode name ++ [0])) with
        | none =>
            have hnone := find?_delimited_eq_none_iff.1 hfound
            rw [isFirstAnchor_cons_iff fun _ => hnone]
            exact ih
        | some offset =>
            obtain ⟨hdelimits, hleast⟩ := find?_delimited_eq_some_iff.1 hfound
            simp only [Option.some.injEq]
            constructor
            · rintro rfl
              exact ⟨⟨[], rest, rfl, fun n hn => absurd hn List.not_mem_nil⟩, hempty, hdelimits,
                hleast⟩
            · rintro ⟨⟨before, after, hnames, hbefore⟩, hne, hplace, hfirst⟩
              cases before with
              | nil =>
                  obtain ⟨rfl, _⟩ := List.cons.inj hnames
                  have hle := hleast _ hplace
                  have hge := hfirst _ hdelimits
                  rw [Nat.le_antisymm hle hge]
              | cons other before =>
                  -- a name in front of the anchor has no place, but this one has
                  obtain ⟨rfl, _⟩ := List.cons.inj hnames
                  exact absurd hdelimits (hbefore name List.mem_cons_self hempty _)

theorem anchor?_eq_none_iff {names : List String} :
    image.anchor? names = none ↔
      ∀ name ∈ names, name ≠ "" → ∀ place, ¬ image.Delimits name place := by
  induction names with
  | nil => exact iff_of_true rfl fun name hname => absurd hname List.not_mem_nil
  | cons name rest ih =>
      rw [anchor?, List.forall_mem_cons]
      by_cases hempty : name = ""
      · rw [if_pos hempty, ih]
        exact ⟨fun h => ⟨fun hne => absurd hempty hne, h⟩, fun h => h.2⟩
      · rw [if_neg hempty]
        cases hfound : image.find? (0 :: (Utf8.encode name ++ [0])) with
        | none =>
            have hnone := find?_delimited_eq_none_iff.1 hfound
            exact ih.trans ⟨fun h => ⟨fun _ => hnone, h⟩, fun h => h.2⟩
        | some offset =>
            obtain ⟨hdelimits, _⟩ := find?_delimited_eq_some_iff.1 hfound
            exact iff_of_false (Option.some_ne_none _) fun h => h.1 hempty _ hdelimits

/-! ## What lies beside an anchor -/

/-- The run from an anchor on is the name itself, unless the name has a null in it. -/
theorem Delimits.stringFrom?_eq {name : String} {offset : Nat} (h : image.Delimits name offset)
    (hne : name ≠ "") (hnull : (0 : UInt8) ∉ Utf8.encode name) :
    image.stringFrom? offset = some ⟨offset, offset + (Utf8.encode name).length⟩ := by
  have htext := allText_of_holds (holds_iff_window_eq.2 h.bytes) hnull
  have hlength := List.length_pos_iff.2 (Utf8.encode_ne_nil hne)
  have hinside := lt_size_of_isNull h.closes
  refine (stringWithin?_eq_some_iff (Nat.le_refl _)).2 ?_
  exact
    { le_start := Nat.le_refl _
      clear := clear_of_le (Nat.le_refl _)
      nonempty := Nat.lt_add_of_pos_right hlength
      text := htext
      stop_le := Nat.le_of_lt hinside
      closes := .inr h.closes }

/-- A string that begins before a null ends there at the latest. -/
theorem stop_lt_of_stringBefore? {offset : Nat} {s : Span}
    (hnull : image.isNull (offset - 1) = true) (h : image.stringBefore? offset = some s) :
    s.stop < offset := by
  obtain ⟨hrun, hstart, _⟩ := stringBefore?_eq_some_iff.1 h
  have hle := hrun.stop_le_of_boundary hstart (boundary_of_isNull_pred hnull)
  exact Nat.lt_of_le_of_ne hle (hrun.text.stop_ne hrun.nonempty hnull)

end Image

/-- The anchor is the first name in the order of the list, empty names left out, that has a place between
two nulls, and it is taken at the least such place; there is no anchor exactly if no name has such a place.
The anchor is never at the beginning of the image, and a null stands in front of it. If the name has no null
in it, the string from the anchor on is the name. The string before the anchor ends before it; so the strings
at which the two walks of a table begin have no byte in common, and neither have any that they take. -/
theorem Image.anchor?_exact (image : Image) (names : List String) :
    (∀ anchor, image.anchor? names = some anchor ↔ image.IsFirstAnchor names anchor) ∧
    (image.anchor? names = none ↔
      ∀ name ∈ names, name ≠ "" → ∀ place, ¬ image.Delimits name place) ∧
    ∀ anchor, image.anchor? names = some anchor →
      0 < anchor.offset ∧ image.isNull (anchor.offset - 1) = true ∧
      ((0 : UInt8) ∉ Utf8.encode anchor.name →
        image.stringFrom? anchor.offset =
          some ⟨anchor.offset, anchor.offset + (Utf8.encode anchor.name).length⟩) ∧
      (∀ below, image.stringAt? (anchor.offset - 1) = some below → below.stop < anchor.offset) ∧
      ∀ limits : TableLimits,
        (∀ s ∈ (limits.growBack image [] anchor.offset).names, s.stop < anchor.offset) ∧
        ∀ s ∈ (limits.growForward image [] anchor.offset).names, anchor.offset ≤ s.start := by
  refine ⟨fun anchor => anchor?_eq_some_iff, anchor?_eq_none_iff, fun anchor hanchor => ?_⟩
  have hfirst := anchor?_eq_some_iff.1 hanchor
  have hpos := hfirst.delimits.pos
  have hnull := hfirst.delimits.opens
  have hboundary := boundary_of_isNull_pred hnull
  have hinside := lt_size_of_isNull hnull
  refine ⟨hpos, hnull, hfirst.delimits.stringFrom?_eq hfirst.nonempty, fun below hbelow => ?_,
    fun limits => ⟨fun s hs => ?_, fun s hs => ?_⟩⟩
  · rw [stringAt?, Nat.sub_add_cancel hpos] at hbelow
    exact stop_lt_of_stringBefore? hnull hbelow
  · obtain ⟨lo, taken, hnames, _, hruns, _⟩ :=
      TableLimits.growBack_runs limits [] anchor.offset hboundary (by omega)
    rw [hnames, List.append_nil] at hs
    exact hruns.stop_lt hnull s hs
  · obtain ⟨hi, taken, hnames, _, _, hruns, _⟩ :=
      TableLimits.growForward_runs limits [] anchor.offset hboundary (by omega)
    rw [hnames, List.append_nil, List.mem_reverse] at hs
    exact (hruns.text s hs).1

/-- The name `xbzero`, of which the name `bzero` behind it is a part. -/
def suffixNames : Image :=
  .ofList [0, 0x78, 0x62, 0x7a, 0x65, 0x72, 0x6f, 0, 0x62, 0x7a, 0x65, 0x72, 0x6f, 0]

/-- The anchor is the second of the names to look for, and not where it is a part of a longer one. -/
theorem Image.anchor?_exact_suffixNames :
    suffixNames.anchor? ["bfill", "bzero"] = some ⟨8, "bzero"⟩ ∧
      (0 : UInt8) ∉ Utf8.encode "bzero" ∧ suffixNames.stringFrom? 8 = some ⟨8, 13⟩ ∧
      suffixNames.stringAt? 7 = some ⟨1, 7⟩ ∧ (⟨1, 7⟩ : Span).stop < 8 := by
  have hanchor : suffixNames.anchor? ["bfill", "bzero"] = some ⟨8, "bzero"⟩ := by decide +kernel
  have hnull : (0 : UInt8) ∉ Utf8.encode "bzero" := by decide +kernel
  have hbelow : suffixNames.stringAt? 7 = some ⟨1, 7⟩ := by decide +kernel
  obtain ⟨_, _, hname, hends, _⟩ :=
    (Image.anchor?_exact suffixNames ["bfill", "bzero"]).2.2 _ hanchor
  exact ⟨hanchor, hnull, hname hnull, hbelow, hends _ hbelow⟩

end FirmwareSymbols
