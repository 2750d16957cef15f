import FirmwareSymbols.Proofs.Linked
import FirmwareSymbols.Proofs.LongestBlock

/-!
# Names that stand in an image

Entries that stand in an image one behind the other, each a name with its
padding, are the null-free runs of the part that holds them. From any of
these names both walks take just these: backward to the first one, if
nothing below it is taken, and forward to the last one, if nothing behind
it is. Nothing is asked of the rest of the image.

## Main definitions

* `Image.Stores`: some entries stand in an image from an offset on.
* `lastStop`: where the last name ends.

## Main results

* `runs_place`: the names of entries are runs.
* `Image.Stores.locate_eq`: the table that is located around a name.
* `Image.Stores.readNames_eq`: the names that are read are the entries.
-/

namespace FirmwareSymbols

/-! ## Bytes as runs -/

namespace Image

variable {image : Image}

/-- A byte of a block is a byte of the image. -/
theorem exists_byte_of_holds {bytes : List UInt8} {offset place : Nat}
    (h : image.holds bytes offset = true) (hlo : offset ≤ place)
    (hhi : place < offset + bytes.length) :
    ∃ byte ∈ bytes, image.get? place = some byte := by
  have hplace : place - offset < bytes.length := by omega
  have hbyte := get?_of_holds h hplace
  rw [show offset + (place - offset) = place by omega, List.getElem?_eq_getElem hplace] at hbyte
  exact ⟨_, List.getElem_mem hplace, hbyte⟩

theorem clear_of_holds {bytes : List UInt8} {offset : Nat}
    (h : image.holds bytes offset = true) (hzero : ∀ byte ∈ bytes, byte = 0) :
    image.Clear offset (offset + bytes.length) := by
  intro place hlo hhi
  obtain ⟨byte, hmem, hbyte⟩ := exists_byte_of_holds h hlo hhi
  rw [hzero byte hmem] at hbyte
  exact isText_eq_false_of_isNull (isNull_iff.2 hbyte)

theorem clear_of_nulls {padding offset : Nat}
    (h : image.holds (List.replicate padding 0) offset = true) :
    image.Clear offset (offset + padding) := by
  have hclear := clear_of_holds h fun byte hbyte => (List.mem_replicate.1 hbyte).2
  rwa [List.length_replicate] at hclear

theorem allText_of_holds {bytes : List UInt8} {offset : Nat}
    (h : image.holds bytes offset = true) (hne : (0 : UInt8) ∉ bytes) :
    image.AllText offset (offset + bytes.length) := by
  intro place hlo hhi
  obtain ⟨byte, hmem, hbyte⟩ := exists_byte_of_holds h hlo hhi
  refine isText_of_isNull_eq_false (Array.getElem?_eq_some_iff.1 hbyte).1 ?_
  rw [Bool.eq_false_iff]
  intro hnull
  rw [isNull_iff.1 hnull, Option.some.injEq] at hbyte
  rw [hbyte] at hne
  exact hne hmem

end Image

theorem length_flatMap_bytes (entry : Entry) (rest : List Entry) :
    ((entry :: rest).flatMap Entry.bytes).length =
      entry.size + (rest.flatMap Entry.bytes).length := by
  rw [List.flatMap_cons, List.length_append, Entry.length_bytes]

variable {image : Image}

/-- Entries that stand in an image, one behind the other: each begins with its name and goes on with
nulls. -/
theorem holds_entry {entry : Entry} {rest : List Entry} {offset : Nat}
    (h : image.holds ((entry :: rest).flatMap Entry.bytes) offset = true) :
    image.holds entry.name offset = true ∧
      image.holds (List.replicate entry.padding 0) (offset + entry.name.length) = true ∧
      image.holds (rest.flatMap Entry.bytes) (offset + entry.size) = true := by
  rw [List.flatMap_cons, Image.holds_append, Entry.length_bytes, Entry.bytes,
    Image.holds_append] at h
  exact ⟨h.1.1, h.1.2, h.2⟩

theorem isNull_of_padding {padding offset : Nat} (hpos : 0 < padding)
    (h : image.holds (List.replicate padding 0) offset = true) : image.isNull offset = true := by
  have hbyte := Image.get?_of_holds h (show 0 < (List.replicate padding 0).length by simpa)
  rw [Nat.add_zero, List.getElem?_replicate, if_pos hpos] at hbyte
  exact Image.isNull_iff.2 hbyte

/-- The names of entries are the runs of the part that holds them. -/
theorem runs_place {maxLength : Nat} {entries : List Entry} {offset : Nat}
    (hname : ∀ e ∈ entries, isFunctionName maxLength e.name = true)
    (hpadded : ∀ e ∈ entries, 1 ≤ e.padding)
    (h : image.holds (entries.flatMap Entry.bytes) offset = true) :
    image.Runs (offset + (entries.flatMap Entry.bytes).length) offset
      ((place offset entries).map Placement.span) := by
  induction entries generalizing offset with
  | nil => exact ⟨Nat.le_refl _, Image.clear_of_le (Nat.le_refl _)⟩
  | cons entry rest ih =>
      obtain ⟨hentry, hpadding, hrest⟩ := holds_entry h
      have hruns := ih (fun e he => hname e (List.mem_cons_of_mem entry he))
        (fun e he => hpadded e (List.mem_cons_of_mem entry he)) hrest
      have hself := hname entry (List.mem_cons_self ..)
      have hpos := hpadded entry (List.mem_cons_self ..)
      have hsize : entry.size = entry.name.length + entry.padding := rfl
      have hclear := Image.clear_of_nulls hpadding
      rw [Nat.add_assoc, ← hsize] at hclear
      rw [length_flatMap_bytes, ← Nat.add_assoc]
      refine ⟨⟨Nat.le_refl _, Image.clear_of_le (Nat.le_refl _), ?_, ?_, ?_, .inr ?_⟩, ?_⟩
      · have := List.length_pos_iff.2 (isFunctionName_iff.1 hself).1
        show offset < offset + entry.name.length
        omega
      · exact Image.allText_of_holds hentry (not_mem_of_isFunctionName hself)
      · show offset + entry.name.length ≤ _
        omega
      · exact isNull_of_padding hpos hpadding
      · refine hruns.extend ?_ hclear
        show offset + entry.name.length ≤ _
        omega

/-- Neighbouring names are as far apart as the padding between them. -/
theorem isChain_place {limits : TableLimits} {entries : List Entry} {offset : Nat}
    (hgap : ∀ e ∈ entries, e.padding ≤ limits.maxGap) :
    ((place offset entries).map Placement.span).IsChain
      (fun s t => limits.isNear s t = true) := by
  induction entries generalizing offset with
  | nil => exact List.isChain_nil
  | cons entry rest ih =>
      have hrest := @ih (offset + entry.size) fun e he => hgap e (List.mem_cons_of_mem entry he)
      cases rest with
      | nil => exact List.isChain_singleton _
      | cons next rest =>
          refine List.isChain_cons_cons.2 ⟨?_, hrest⟩
          have hself := hgap entry (List.mem_cons_self ..)
          refine decide_eq_true ?_
          show offset + entry.size - (offset + entry.name.length) ≤ limits.maxGap
          rw [Entry.size]
          omega

theorem slice_place {entries : List Entry} {offset : Nat}
    (h : image.holds (entries.flatMap Entry.bytes) offset = true) :
    ∀ p ∈ place offset entries, image.slice p.span = p.entry.name := by
  induction entries generalizing offset with
  | nil => exact fun p hp => absurd hp List.not_mem_nil
  | cons entry rest ih =>
      obtain ⟨hentry, _, hrest⟩ := holds_entry h
      intro p hp
      rcases List.mem_cons.1 hp with rfl | hp
      · have hlength : (Placement.span ⟨offset, entry⟩).length = entry.name.length :=
          Nat.add_sub_cancel_left ..
        rw [Image.slice, hlength]
        exact Image.window_of_holds hentry
      · exact ih hrest p hp

/-- The names that a span of the image decodes to are the entries. -/
theorem entries_place {entries : List Entry} {offset bound : Nat}
    (hpadded : ∀ e ∈ entries, 1 ≤ e.padding)
    (h : image.holds (entries.flatMap Entry.bytes) offset = true)
    (hbound : (place offset entries).getLast?.map (fun p => p.span.stop) = some bound) :
    image.entries bound ((place offset entries).map Placement.span) =
      Linked.namesOf (place offset entries) := by
  induction entries generalizing offset with
  | nil => rfl
  | cons entry rest ih =>
      obtain ⟨_, hpadding, hrest⟩ := holds_entry h
      have hslice := slice_place h ⟨offset, entry⟩ (List.mem_cons_self ..)
      cases rest with
      | nil =>
          cases hbound
          have hnull := isNull_of_padding (hpadded entry (List.mem_cons_self ..)) hpadding
          have hstop : image.entryStop (offset + entry.name.length) [] - offset =
              entry.name.length + 1 := by
            rw [Image.entryStop, if_pos (Image.isNull_iff.1 hnull)]
            omega
          show [Name.mk offset (image.slice (Placement.span ⟨offset, entry⟩))
            (image.entryStop (offset + entry.name.length) [] - offset)] = _
          rw [hslice, hstop]
          rfl
      | cons next rest =>
          have hnext := ih (fun e he => hpadded e (List.mem_cons_of_mem entry he)) hrest hbound
          show Name.mk offset (image.slice (Placement.span ⟨offset, entry⟩))
            (offset + entry.size - offset) :: image.entries bound
              ((place (offset + entry.size) (next :: rest)).map Placement.span) = _
          rw [hslice, Nat.add_sub_cancel_left, hnext]
          rfl

theorem boundary_of_getLast? {bytes : List UInt8} {offset : Nat}
    (h : image.holds bytes offset = true) (hlast : bytes.getLast? = some 0) :
    image.Boundary (offset + bytes.length) := by
  have hne : bytes ≠ [] := by
    rintro rfl
    cases hlast
  have hpos := List.length_pos_iff.2 hne
  have hbyte := Image.get?_of_holds h (show bytes.length - 1 < bytes.length by omega)
  rw [← List.getLast?_eq_getElem?, hlast] at hbyte
  refine Image.boundary_of_isNull_pred (Image.isNull_iff.2 ?_)
  rw [show offset + bytes.length - 1 = offset + (bytes.length - 1) by omega]
  exact hbyte

/-- Where the last of some entries ends, without its padding. -/
def lastStop (offset : Nat) (entries : List Entry) : Nat :=
  ((place offset entries).getLast?.map fun p => p.span.stop).getD offset

/-- Some entries stand in an image from an offset on, and no run reaches across this offset. The names
could be names of functions, and their padding is not too long. -/
structure Image.Stores (image : Image) (config : Config) (lo : Nat) (entries : List Entry) :
    Prop where
  stored : image.holds (entries.flatMap Entry.bytes) lo = true
  opens : image.Boundary lo
  nonempty : entries ≠ []
  isName : ∀ e ∈ entries, isFunctionName config.maxNameLength.toNat e.name = true
  padded : ∀ e ∈ entries, 1 ≤ e.padding ∧ e.padding ≤ config.maxStringGap.toNat

namespace Image.Stores

variable {config : Config} {lo : Nat} {entries : List Entry}

/-! ### The entries as runs -/

theorem runs (h : image.Stores config lo entries) :
    image.Runs (lo + (entries.flatMap Entry.bytes).length) lo
      ((place lo entries).map Placement.span) :=
  runs_place h.isName (fun e he => (h.padded e he).1) h.stored

theorem isName_span (h : image.Stores config lo entries) (required : Nat) :
    ∀ s ∈ (place lo entries).map Placement.span,
      (config.tableLimits required).isName image s = true := by
  intro s hs
  obtain ⟨p, hp, rfl⟩ := List.mem_map.1 hs
  show isFunctionName config.maxNameLength.toNat (image.slice p.span) = true
  rw [slice_place h.stored p hp]
  exact h.isName p.entry (mem_place hp).1

theorem isChain_span (h : image.Stores config lo entries) (required : Nat) :
    ((place lo entries).map Placement.span).IsChain
      (fun s t => (config.tableLimits required).isNear s t = true) :=
  isChain_place fun e he => (h.padded e he).2

theorem getLast?_stored (h : image.Stores config lo entries) :
    (entries.flatMap Entry.bytes).getLast? = some 0 := by
  obtain ⟨front, last, hsplit⟩ : ∃ front last, entries = front ++ [last] :=
    ⟨_, _, (List.dropLast_append_getLast h.nonempty).symm⟩
  have hpadded := (h.padded last (by rw [hsplit]; simp)).1
  have hpadding : (List.replicate last.padding (0 : UInt8)).getLast? = some 0 := by
    rw [List.getLast?_replicate, if_neg (by omega)]
  rw [hsplit, List.flatMap_append, List.flatMap_singleton, Entry.bytes, List.getLast?_append,
    List.getLast?_append, hpadding]
  rfl

theorem boundary_stop (h : image.Stores config lo entries) :
    image.Boundary (lo + (entries.flatMap Entry.bytes).length) :=
  boundary_of_getLast? h.stored h.getLast?_stored

theorem stop_le_size (h : image.Stores config lo entries) :
    lo + (entries.flatMap Entry.bytes).length ≤ image.size := by
  refine le_size_of_holds h.stored ?_
  intro hnil
  have hlast := h.getLast?_stored
  rw [hnil] at hlast
  cases hlast

theorem place_ne_nil (h : image.Stores config lo entries) : place lo entries ≠ [] := by
  have hlength := length_place lo entries
  have hpos := List.length_pos_iff.2 h.nonempty
  exact List.length_pos_iff.1 (by omega)

theorem head?_spans (h : image.Stores config lo entries) :
    ∃ first, ((place lo entries).map Placement.span).head? = some first ∧ first.start = lo := by
  obtain ⟨entry, rest, rfl⟩ := List.exists_cons_of_ne_nil h.nonempty
  exact ⟨Placement.span ⟨lo, entry⟩, rfl, rfl⟩

theorem getLast?_place (h : image.Stores config lo entries) :
    (place lo entries).getLast?.map (fun p => p.span.stop) = some (lastStop lo entries) := by
  rw [lastStop, List.getLast?_eq_some_getLast h.place_ne_nil]
  rfl

theorem getLast?_spans (h : image.Stores config lo entries) :
    ∃ last, ((place lo entries).map Placement.span).getLast? = some last ∧
      last.stop = lastStop lo entries := by
  obtain ⟨p, hp, hstop⟩ := Option.map_eq_some_iff.1 h.getLast?_place
  refine ⟨p.span, ?_, hstop⟩
  rw [List.getLast?_map, hp]
  rfl

theorem lastStop_le_size (h : image.Stores config lo entries) :
    lastStop lo entries ≤ image.size := by
  obtain ⟨last, hlast, hstop⟩ := h.getLast?_spans
  rw [← hstop]
  exact Nat.le_trans (h.runs.behind hlast).1 h.stop_le_size

/-- Behind the last name there is only its padding. -/
theorem clear_behind (h : image.Stores config lo entries) :
    lastStop lo entries ≤ lo + (entries.flatMap Entry.bytes).length ∧
      image.Clear (lastStop lo entries) (lo + (entries.flatMap Entry.bytes).length) := by
  obtain ⟨last, hlast, hstop⟩ := h.getLast?_spans
  rw [← hstop]
  exact h.runs.behind hlast

/-! ### The walks -/

section Walks

variable {left right : List Placement} {p : Placement} (required : Nat)

/-- What the backward walk takes from a name on are the names below it, if it does not take the run
below the first one. -/
theorem growBack_eq (h : image.Stores config lo entries) (hsplit : place lo entries = left ++ p :: right)
    (hforeign : ∀ s, image.stringBefore? lo = some s →
      ((left.map Placement.span).head?.all ((config.tableLimits required).isNear s) &&
        (config.tableLimits required).isName image s) = false) :
    (config.tableLimits required).growBack image [] p.offset =
      ⟨left.map Placement.span, (image.stringBefore? lo).isSome⟩ := by
  have hruns := h.runs
  have hnames := h.isName_span required
  have hchain := h.isChain_span required
  rw [hsplit, List.map_append, List.map_cons] at hruns hnames hchain
  have hrun : image.IsRun p.span := hruns.isRun h.opens h.boundary_stop h.stop_le_size _ (by simp)
  have hstart : ((left.map Placement.span).head?.map Span.start).getD p.offset = lo := by
    obtain ⟨first, hfirst, hlo⟩ := h.head?_spans
    rw [hsplit] at hfirst
    cases left with
    | nil =>
        cases hfirst
        exact hlo
    | cons q rest =>
        cases hfirst
        exact hlo
  have hwalk := TableLimits.growBack_of_runs (config.tableLimits required) h.opens
    (left.map Placement.span) [] p.offset hrun.boundary_start
    (Nat.le_of_lt hrun.start_lt_size) hruns.split.1
    (fun s hs => hnames s (List.mem_append_left _ hs))
    (by rw [List.append_nil]; exact hchain.left_of_append)
  rw [hwalk, hstart, List.append_nil, TableLimits.growBack_of_foreign hforeign]

/-- What the forward walk takes from a name on are this name and the names behind it, if it does not
take the run behind the last one. -/
theorem growForward_eq (h : image.Stores config lo entries)
    (hsplit : place lo entries = left ++ p :: right)
    (hforeign : ∀ s, image.stringFrom? (lastStop lo entries) = some s →
      (decide (s.start - lastStop lo entries ≤ config.maxStringGap.toNat) &&
        (config.tableLimits required).isName image s) = false) :
    ((config.tableLimits required).growForward image [] p.offset).names =
      ((p :: right).map Placement.span).reverse := by
  have hruns := h.runs
  have hnames := h.isName_span required
  have hchain := h.isChain_span required
  obtain ⟨last, hlast, hstop⟩ := h.getLast?_spans
  rw [hsplit, List.map_append] at hruns hnames hchain hlast
  rw [List.map_cons, List.getLast?_append_cons, ← List.map_cons] at hlast
  have hrun : image.IsRun p.span := hruns.isRun h.opens h.boundary_stop h.stop_le_size _ (by simp)
  have hwalk := TableLimits.growForward_of_runs (config.tableLimits required)
    h.boundary_stop h.stop_le_size ((p :: right).map Placement.span) [] p.offset
    hrun.boundary_start hruns.split.2 (fun s hs => hnames s (List.mem_append_right _ hs))
    hchain.right_of_append
  rw [hwalk, hlast, Option.map_some, Option.getD_some, hstop, List.append_nil,
    TableLimits.growForward_of_foreign]
  intro s hs
  rw [List.head?_reverse, hlast, Option.all_some, TableLimits.isNear, hstop]
  exact hforeign s hs

/-- Around a name of the entries the whole part that holds them is located, if neither walk takes what
lies beside it, and if the backward walk has taken as many names as are required where it is stopped. -/
theorem locate_eq (h : image.Stores config lo entries) (hsplit : place lo entries = left ++ p :: right)
    (hbelow : ∀ s, image.stringBefore? lo = some s →
      ((left.map Placement.span).head?.all ((config.tableLimits required).isNear s) &&
        (config.tableLimits required).isName image s) = false)
    (habove : ∀ s, image.stringFrom? (lastStop lo entries) = some s →
      (decide (s.start - lastStop lo entries ≤ config.maxStringGap.toNat) &&
        (config.tableLimits required).isName image s) = false)
    (hstopped : (image.stringBefore? lo).isSome = true → required ≤ left.length)
    (hmany : required ≤ entries.length) :
    (config.tableLimits required).locate image p.offset =
      some ⟨⟨lo, lastStop lo entries⟩, (place lo entries).map Placement.span⟩ := by
  have hback := h.growBack_eq required hsplit hbelow
  have hforward := h.growForward_eq required hsplit habove
  refine TableLimits.locate_eq_some_iff.2 ⟨?_, ?_, ?_, ?_⟩
  · rw [hback, List.length_map]
    exact hstopped
  · rw [hback, hforward, List.reverse_reverse, ← List.map_append, ← hsplit]
  · rw [List.length_map, length_place]
    exact hmany
  · obtain ⟨first, hfirst, hstart⟩ := h.head?_spans
    obtain ⟨last, hlast, hstop⟩ := h.getLast?_spans
    exact ⟨first, last, hfirst, hlast, by rw [hstart, hstop]⟩

/-- The part that holds the entries decodes to them. -/
theorem namesWithin_eq (h : image.Stores config lo entries) :
    image.namesWithin ⟨lo, lastStop lo entries⟩ = Linked.namesOf (place lo entries) := by
  obtain ⟨first, hfirst, hstart⟩ := h.head?_spans
  obtain ⟨last, hlast, hstop⟩ := h.getLast?_spans
  have hruns : image.Runs (lastStop lo entries) lo ((place lo entries).map Placement.span) := by
    have htrimmed := h.runs.trim hfirst hlast
    rwa [hstart, hstop] at htrimmed
  rw [namesWithin_eq_entries h.lastStop_le_size hruns]
  exact entries_place (fun e he => (h.padded e he).1) h.stored h.getLast?_place

/-- If such a table is located around the anchor, its entries are what is read. -/
theorem readNames_eq (h : image.Stores config lo entries) {anchor : Anchor}
    (hanchor : image.anchor? config.anchorNames = some anchor)
    (hlocated : (config.tableLimits required).locate image anchor.offset =
      some ⟨⟨lo, lastStop lo entries⟩, (place lo entries).map Placement.span⟩) :
    config.readNames image required =
      some ⟨⟨lo, lastStop lo entries⟩, Linked.namesOf (place lo entries)⟩ := by
  simp only [Config.readNames, hanchor, Option.bind_eq_bind, Option.bind_some, hlocated,
    h.namesWithin_eq]
  rfl

end Walks

end Image.Stores

end FirmwareSymbols
