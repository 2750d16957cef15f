import FirmwareSymbols.Proofs.TrueAlignment

/-!
# Splitting a span loses nothing

A span may begin in padding, end inside a name or at its terminator, or go
beyond the image. Whatever it is, its entries lie one behind the other,
what they leave out is null, and they can be written down again: each name
followed by its padding gives back the bytes of the image.

## Main definitions

* `Image.TiledBy`: what it means for entries to tile an interval.

## Main results

* `Image.Runs.tiledBy_entries`: the entries of an interval tile it.
* `Image.TiledBy.eq_entries`: nothing else does.
* `Image.TiledBy.flatMap_written`: entries that tile can be written down
  again.
* `Image.namesWithin_tiles`: splitting a span.
-/

namespace FirmwareSymbols

namespace Name

/-- First offset behind the bytes of an entry. -/
def stop (name : Name) : Nat := name.address + name.bytes.length

/-- An entry as it is stored: its bytes, and nulls up to its length. -/
def written (name : Name) : List UInt8 := name.bytes ++ List.replicate name.padding 0

/-- Where the bytes of an entry are stored. -/
def extent (name : Name) : Span := ⟨name.address, name.stop⟩

end Name

namespace Image

variable {image : Image}

/-- Some entries tile `[lo, hi)`. The last one has the null behind the interval for its terminator, if
there is one. -/
structure TiledBy (image : Image) (lo hi : Nat) (names : List Name) : Prop where
  /-- The entries lie one above the other, -/
  ascending : names.Pairwise fun name next => name.address < next.address
  /-- inside the interval. -/
  inside : ∀ name ∈ names, lo ≤ name.address ∧ name.address < hi ∧ name.stop ≤ hi
  /-- Each entry has bytes, -/
  nonempty : ∀ name ∈ names, name.bytes ≠ []
  /-- none of them null. -/
  nullFree : ∀ name ∈ names, 0 ∉ name.bytes
  /-- They are those of the image at its address, -/
  stored : ∀ name ∈ names, image.window name.address name.bytes.length = name.bytes
  /-- and no byte that follows them belongs to them. -/
  closed : ∀ name ∈ names, name.stop = hi ∨ image.get? name.stop = some 0
  /-- The length of an entry counts its bytes. -/
  fits : ∀ name ∈ names, name.bytes.length ≤ name.length
  /-- It measures the distance to the next entry, -/
  reaches : names.IsChain Name.Reaches
  /-- or to the end of the interval. -/
  reachesEnd : ∀ last, names.getLast? = some last →
    last.address + last.length = if image.get? hi = some 0 then hi + 1 else hi
  /-- What belongs to no entry is null. -/
  padded : ∀ offset, lo ≤ offset → offset < hi →
    (∀ name ∈ names, ¬ (name.address ≤ offset ∧ offset < name.stop)) →
    image.get? offset = some 0

/-! ## The entries of an interval -/

theorem length_slice {s : Span} (hle : s.start ≤ s.stop) (hinside : s.stop ≤ image.size) :
    (image.slice s).length = s.stop - s.start :=
  length_window (by simp only [Span.length]; omega)

theorem not_mem_slice {s : Span} (htext : image.AllText s.start s.stop) :
    0 ∉ image.slice s := by
  intro hmem
  obtain ⟨k, hk⟩ := List.mem_iff_getElem?.1 hmem
  rw [slice, getElem?_window] at hk
  split at hk
  · next hlt =>
      have hnull := isText_eq_false_of_isNull (isNull_iff.2 hk)
      rw [Span.length] at hlt
      rw [htext (s.start + k) (by omega) (by omega)] at hnull
      cases hnull
  · cases hk

theorem get?_of_isText_eq_false {offset : Nat} (hlt : offset < image.size)
    (h : image.isText offset = false) : image.get? offset = some 0 :=
  isNull_iff.1 (isNull_of_isText_eq_false hlt h)

theorem tiledBy_nil {lo hi : Nat} (hsize : hi ≤ image.size) (hclear : image.Clear lo hi) :
    image.TiledBy lo hi [] := by
  refine
    { ascending := List.Pairwise.nil
      inside := by simp
      nonempty := by simp
      nullFree := by simp
      stored := by simp
      closed := by simp
      fits := by simp
      reaches := List.isChain_nil
      reachesEnd := by simp
      padded := fun offset hlo hhi _ => ?_ }
  exact get?_of_isText_eq_false (by omega) (hclear offset hlo hhi)

/-- The entry of the first run stands before those of the others. -/
theorem FirstRun.tiledBy_cons {lo hi : Nat} {s : Span} {rest : List Span}
    (hfirst : image.FirstRun lo hi s) (hrest : image.Runs hi s.stop rest) (hsize : hi ≤ image.size)
    (h : image.TiledBy s.stop hi (image.entries hi rest)) :
    image.TiledBy lo hi (image.entries hi (s :: rest)) := by
  have hruns : image.Runs hi lo (s :: rest) := ⟨hfirst, hrest⟩
  have hstart := hfirst.le_start
  have hnonempty := hfirst.nonempty
  have hstop := hfirst.stop_le
  have hlength : (image.slice s).length = s.stop - s.start :=
    length_slice (Nat.le_of_lt hnonempty) (by omega)
  have hend : s.start + (image.slice s).length = s.stop := by omega
  have hfits : s.stop - 1 < image.entryStop hi rest := lt_entryStop hrest (by omega)
  refine
    { ascending := hruns.tiled_entries.pairwise
      reaches := hruns.isChain_entries
      inside := List.forall_mem_cons.2 ⟨⟨hstart, by simp only; omega, ?_⟩, fun name hname => ?_⟩
      nonempty := List.forall_mem_cons.2 ⟨?_, h.nonempty⟩
      nullFree := List.forall_mem_cons.2 ⟨not_mem_slice hfirst.text, h.nullFree⟩
      stored := List.forall_mem_cons.2 ⟨?_, h.stored⟩
      closed := List.forall_mem_cons.2 ⟨?_, h.closed⟩
      fits := List.forall_mem_cons.2 ⟨?_, h.fits⟩
      reachesEnd := ?_
      padded := ?_ }
  · show s.start + (image.slice s).length ≤ hi
    omega
  · obtain ⟨hle, hinside⟩ := h.inside name hname
    exact ⟨by omega, hinside⟩
  · intro hnil
    simp only at hnil
    rw [hnil, List.length_nil] at hlength
    omega
  · show image.window s.start (image.slice s).length = image.slice s
    rw [hlength]
    rfl
  · show s.start + (image.slice s).length = hi ∨ _
    rw [Name.stop]
    simp only [hend]
    exact hfirst.closes.imp id isNull_iff.1
  · show (image.slice s).length ≤ image.entryStop hi rest - s.start
    omega
  · intro last hlast
    cases rest with
    | nil =>
        cases hlast
        show s.start + (image.entryStop hi [] - s.start) = image.entryStop hi []
        omega
    | cons t others => exact h.reachesEnd last (by simpa [entries] using hlast)
  · intro offset hlo hhi hother
    obtain ⟨hself, hothers⟩ := List.forall_mem_cons.1 hother
    rcases Nat.lt_or_ge offset s.start with hbelow | habove
    · exact get?_of_isText_eq_false (by omega) (hfirst.clear offset hlo hbelow)
    · refine h.padded offset ?_ hhi hothers
      simp only [Name.stop, hend] at hself
      omega

/-- The entries of an interval tile it. -/
theorem Runs.tiledBy_entries {lo hi : Nat} {spans : List Span} (h : image.Runs hi lo spans)
    (hsize : hi ≤ image.size) : image.TiledBy lo hi (image.entries hi spans) := by
  induction spans generalizing lo with
  | nil => exact tiledBy_nil hsize h.2
  | cons s rest ih => exact h.1.tiledBy_cons h.2 hsize (ih h.2)

/-! ## Taking a tiling apart -/

namespace TiledBy

variable {lo hi : Nat} {name : Name} {rest : List Name}

/-- Behind an entry come the entries that its length makes room for. -/
theorem le_address (h : image.TiledBy lo hi (name :: rest)) :
    ∀ other ∈ rest, name.address + name.length ≤ other.address := by
  cases rest with
  | nil => simp
  | cons next others =>
      have hreach : name.address + name.length = next.address :=
        (List.isChain_cons_cons.1 h.reaches).1
      have hbehind := (List.pairwise_cons.1 (List.pairwise_cons.1 h.ascending).2).1
      refine List.forall_mem_cons.2 ⟨Nat.le_of_eq hreach, fun other hother => ?_⟩
      have hlt := hbehind other hother
      omega

theorem tail (h : image.TiledBy lo hi (name :: rest)) : image.TiledBy name.stop hi rest := by
  obtain ⟨⟨hlo, _, _⟩, hinside⟩ := List.forall_mem_cons.1 h.inside
  have hfits := (List.forall_mem_cons.1 h.fits).1
  refine
    { ascending := (List.pairwise_cons.1 h.ascending).2
      inside := fun other hother => ?_
      nonempty := (List.forall_mem_cons.1 h.nonempty).2
      nullFree := (List.forall_mem_cons.1 h.nullFree).2
      stored := (List.forall_mem_cons.1 h.stored).2
      closed := (List.forall_mem_cons.1 h.closed).2
      fits := (List.forall_mem_cons.1 h.fits).2
      reaches := h.reaches.tail
      reachesEnd := fun last hlast => ?_
      padded := fun offset hge hlt hothers => ?_ }
  · have hbehind := h.le_address other hother
    exact ⟨by rw [Name.stop]; omega, (hinside other hother).2⟩
  · exact h.reachesEnd last (by rw [List.getLast?_cons, hlast]; rfl)
  · refine h.padded offset (by rw [Name.stop] at hge; omega) hlt ?_
    exact List.forall_mem_cons.2 ⟨by omega, hothers⟩

/-- The first entry of a tiling stands where the first run of the interval does. -/
theorem firstRun (h : image.TiledBy lo hi (name :: rest)) (hsize : hi ≤ image.size) :
    image.FirstRun lo hi name.extent := by
  obtain ⟨hlo, hlt, hstop⟩ := (List.forall_mem_cons.1 h.inside).1
  have hbytes := List.length_pos_iff.2 (List.forall_mem_cons.1 h.nonempty).1
  have hstored := (List.forall_mem_cons.1 h.stored).1
  have hnulls := (List.forall_mem_cons.1 h.nullFree).1
  have hend : name.stop = name.address + name.bytes.length := rfl
  refine
    { le_start := hlo
      clear := fun offset hge hbelow => ?_
      nonempty := show name.address < name.stop by omega
      text := fun offset hge hbelow => ?_
      stop_le := hstop
      closes := (List.forall_mem_cons.1 h.closed).1.imp id isNull_iff.2 }
  · -- the bytes of the entries all lie above
    refine isText_eq_false_of_isNull (isNull_iff.2 (h.padded offset hge ?_ ?_))
    · exact Nat.lt_trans hbelow hlt
    · have hbehind := h.le_address
      refine List.forall_mem_cons.2 ⟨?_, fun other hother hin => ?_⟩
      · exact fun hin => absurd hin.1 (Nat.not_le_of_lt hbelow)
      · have := hbehind other hother
        have : offset < name.address := hbelow
        omega
  · refine isText_of_isNull_eq_false (Nat.lt_of_lt_of_le hbelow (Nat.le_trans hstop hsize)) ?_
    cases hnull : image.isNull offset with
    | false => rfl
    | true =>
        have hge : name.address ≤ offset := hge
        have hbelow : offset < name.stop := hbelow
        have hbyte := getElem?_window image name.address name.bytes.length (offset - name.address)
        rw [hstored, if_pos (by omega), Nat.add_sub_cancel' hge, isNull_iff.1 hnull] at hbyte
        exact absurd (List.mem_of_getElem? hbyte) hnulls

/-- The length of an entry is what is left up to the next one. -/
theorem entryStop_eq (h : image.TiledBy lo hi (name :: rest)) :
    image.entryStop hi (rest.map Name.extent) = name.address + name.length := by
  cases rest with
  | nil => exact (h.reachesEnd name rfl).symm
  | cons next others => exact (List.isChain_cons_cons.1 h.reaches).1.symm

/-- Entries that tile an interval are the entries of its runs. -/
theorem eq_entries {names : List Name} (hle : lo ≤ hi) (hsize : hi ≤ image.size)
    (h : image.TiledBy lo hi names) :
    image.Runs hi lo (names.map Name.extent) ∧ names = image.entries hi (names.map Name.extent) := by
  induction names generalizing lo with
  | nil =>
      refine ⟨⟨hle, fun offset hlo hhi => ?_⟩, rfl⟩
      exact isText_eq_false_of_isNull (isNull_iff.2 (h.padded offset hlo hhi (by simp)))
  | cons name rest ih =>
      have hstop := (List.forall_mem_cons.1 h.inside).1.2.2
      have hstored := (List.forall_mem_cons.1 h.stored).1
      obtain ⟨hruns, heq⟩ := ih hstop h.tail
      refine ⟨⟨h.firstRun hsize, hruns⟩, ?_⟩
      have hbytes : image.slice name.extent = name.bytes := by
        show image.window name.address (name.stop - name.address) = name.bytes
        rw [Name.stop, Nat.add_sub_cancel_left, hstored]
      have hlength : image.entryStop hi (rest.map Name.extent) - name.address = name.length := by
        rw [h.entryStop_eq, Nat.add_sub_cancel_left]
      show name :: rest = ⟨name.address, image.slice name.extent,
        image.entryStop hi (rest.map Name.extent) - name.address⟩ ::
          image.entries hi (rest.map Name.extent)
      rw [hbytes, hlength, ← heq]

/-! ## Writing a tiling down -/

/-- What follows the bytes of an entry up to its length is null. -/
theorem get?_padding (h : image.TiledBy lo hi (name :: rest)) {offset : Nat}
    (hge : name.stop ≤ offset) (hlt : offset < name.address + name.length) :
    image.get? offset = some 0 := by
  obtain ⟨hlo, _, hstop⟩ := (List.forall_mem_cons.1 h.inside).1
  rcases Nat.lt_or_ge offset hi with hinside | hbehind
  · refine h.padded offset (by rw [Name.stop] at hge; omega) hinside ?_
    refine List.forall_mem_cons.2 ⟨by omega, fun other hother => ?_⟩
    have := h.le_address other hother
    omega
  · -- only the terminator of the last entry lies behind the interval
    cases rest with
    | nil =>
        have hend := h.reachesEnd name rfl
        split at hend
        · next hnull =>
            have heq : offset = hi := by omega
            rw [heq, hnull]
        · omega
    | cons next others =>
        have hreach : name.address + name.length = next.address :=
          (List.isChain_cons_cons.1 h.reaches).1
        have hnext := (h.inside next (by simp)).2.1
        omega

/-- An entry is stored as it is written. -/
theorem written_eq (h : image.TiledBy lo hi (name :: rest)) :
    name.written = image.window name.address name.length := by
  have hfits := (List.forall_mem_cons.1 h.fits).1
  have hstored := (List.forall_mem_cons.1 h.stored).1
  have hlength : name.length = name.bytes.length + name.padding := by
    rw [Name.padding]
    omega
  rw [Name.written, hlength, window_append, hstored]
  refine congrArg (name.bytes ++ ·) (List.ext_getElem? fun k => ?_)
  rw [getElem?_window, List.getElem?_replicate]
  split
  · exact (h.get?_padding (Nat.le_add_right _ _) (by rw [Name.stop]; omega)).symm
  · rfl

/-- Entries that tile an interval give back the image when they are written one behind the other, from
the first of them to the end of the last. -/
theorem flatMap_written (h : image.TiledBy lo hi (name :: rest)) {last : Name}
    (hlast : (name :: rest).getLast? = some last) :
    (name :: rest).flatMap Name.written =
      image.window name.address (last.address + last.length - name.address) := by
  induction rest generalizing lo name with
  | nil =>
      obtain rfl : name = last := by simpa using hlast
      rw [List.flatMap_singleton, h.written_eq, Nat.add_sub_cancel_left]
  | cons next others ih =>
      have hreach : name.address + name.length = next.address :=
        (List.isChain_cons_cons.1 h.reaches).1
      have hlast' : (next :: others).getLast? = some last := by simpa using hlast
      have hle : next.address ≤ last.address := by
        rcases List.mem_cons.1 (List.mem_of_getLast? hlast') with rfl | hmem
        · exact Nat.le_refl _
        · exact Nat.le_of_lt ((List.pairwise_cons.1 h.tail.ascending).1 last hmem)
      have hsum : last.address + last.length - name.address =
          name.length + (last.address + last.length - next.address) := by
        omega
      rw [List.flatMap_cons, ih h.tail hlast', h.written_eq, hsum, window_append, hreach]

end TiledBy

/-! ## Splitting a span -/

/-- The entries of a span tile it as far as the image goes, and no other list of entries does. -/
theorem namesWithin_eq_iff {table : Span} {names : List Name} :
    image.namesWithin table = names ↔
      image.TiledBy table.start (min table.stop image.size) names := by
  have hsize : min table.stop image.size ≤ image.size := Nat.min_le_right _ _
  rcases Nat.lt_or_ge (min table.stop image.size) table.start with hlt | hge
  · rw [namesWithin_eq_nil hlt]
    constructor
    · rintro rfl
      exact tiledBy_nil hsize (clear_of_le (Nat.le_of_lt hlt))
    · intro h
      cases names with
      | nil => rfl
      | cons name rest =>
          have hinside := (List.forall_mem_cons.1 h.inside).1
          omega
  · obtain ⟨spans, hruns⟩ := exists_runs hge hsize
    have hentries : image.namesWithin table = image.entries (min table.stop image.size) spans := by
      rw [namesWithin, namesFrom_eq_entries hsize spans _ _ hruns]
      rfl
    constructor
    · rintro rfl
      rw [hentries]
      exact hruns.tiledBy_entries hsize
    · intro h
      obtain ⟨hown, hnames⟩ := h.eq_entries hge hsize
      rw [namesWithin, namesFrom_eq_entries hsize _ _ _ hown, hnames.symm]
      rfl

/-- Splitting a span gives the entries that tile it as far as the image goes, and no other list of
entries does. If there are any, the first one begins at the first byte of the span that is not null, and
writing them one behind the other gives back the image from there to the end of the last one. -/
theorem namesWithin_tiles (image : Image) (table : Span) :
    (∀ names, image.namesWithin table = names ↔
      image.TiledBy table.start (min table.stop image.size) names) ∧
    ∀ first last, (image.namesWithin table).head? = some first →
      (image.namesWithin table).getLast? = some last →
      image.isText first.address = true ∧
      (∀ offset, table.start ≤ offset → offset < first.address → image.get? offset = some 0) ∧
      last.address + last.length ≤ image.size ∧
      (image.namesWithin table).flatMap Name.written =
        image.window first.address (last.address + last.length - first.address) := by
  refine ⟨fun names => namesWithin_eq_iff, fun first last hfirst hlast => ?_⟩
  have hsize : min table.stop image.size ≤ image.size := Nat.min_le_right _ _
  have h : image.TiledBy table.start (min table.stop image.size) (image.namesWithin table) :=
    namesWithin_eq_iff.1 rfl
  have hend := h.reachesEnd last hlast
  generalize image.namesWithin table = names at h hfirst hlast ⊢
  cases names with
  | nil => cases hfirst
  | cons name rest =>
      obtain rfl : name = first := by simpa using hfirst
      have hrun := h.firstRun hsize
      have hinside := (List.forall_mem_cons.1 h.inside).1.2.1
      refine ⟨hrun.text _ (Nat.le_refl _) hrun.nonempty, fun offset hge hlt => ?_, ?_,
        h.flatMap_written hlast⟩
      · exact get?_of_isText_eq_false (by omega) (hrun.clear offset hge hlt)
      · split at hend
        · next hnull =>
            have := lt_size_of_isNull (isNull_iff.2 hnull)
            omega
        · omega

/-- Padding, the name `ls`, more padding than it needs, and the name `cd` with its terminator. -/
def paddedNames : Image := .ofList [0, 0x6c, 0x73, 0, 0, 0x63, 0x64, 0]

/-- The span that ends with the last name is written down again with its terminator. -/
theorem namesWithin_tiles_paddedNames :
    paddedNames.namesWithin ⟨0, 7⟩ = [⟨1, [0x6c, 0x73], 4⟩, ⟨5, [0x63, 0x64], 3⟩] ∧
      (paddedNames.namesWithin ⟨0, 7⟩).flatMap Name.written = paddedNames.window 1 7 := by
  have hnames : paddedNames.namesWithin ⟨0, 7⟩ =
      [⟨1, [0x6c, 0x73], 4⟩, ⟨5, [0x63, 0x64], 3⟩] := by decide +kernel
  have htiles := (namesWithin_tiles paddedNames ⟨0, 7⟩).2 ⟨1, [0x6c, 0x73], 4⟩ ⟨5, [0x63, 0x64], 3⟩
    (by rw [hnames]; rfl) (by rw [hnames]; rfl)
  exact ⟨hnames, htiles.2.2.2⟩

end Image

end FirmwareSymbols
