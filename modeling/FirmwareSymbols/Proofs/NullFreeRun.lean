import FirmwareSymbols.StringTable

/-!
# The null-free runs of an image

The strings of an image are its maximal null-free runs. The searches for
them go upward and downward, clip at different ends and skip padding; this
file says what each of them finds in terms of the runs alone, and how the
runs of neighbouring intervals fit together.

## Main results

* `Image.stringWithin?_eq_some_iff`, `Image.stringWithin?_eq_none_iff`:
  the upward search.
* `Image.stringBefore?_eq_some_iff`, `Image.stringBefore?_eq_none_iff`:
  the downward search.
* `Image.Runs.append`, `Image.Runs.split`: the runs of an interval
  are those of its parts, unless a run is cut.
* `Image.Runs.isRun`: between two boundaries all runs are maximal.
-/

namespace FirmwareSymbols

namespace Image

variable {image : Image}

/-! ## Text and nulls -/

theorem isNull_iff {offset : Nat} : image.isNull offset = true ↔ image.get? offset = some 0 := by
  unfold isNull
  cases image.get? offset with
  | none => simp
  | some byte => simp

theorem isText_eq_false_of_isNull {offset : Nat} (h : image.isNull offset = true) :
    image.isText offset = false := by
  unfold isText
  rw [isNull_iff.1 h]
  rfl

theorem lt_size_of_isNull {offset : Nat} (h : image.isNull offset = true) :
    offset < image.size := by
  by_cases hlt : offset < image.size
  · exact hlt
  · have hnone : image.get? offset = none :=
      Array.getElem?_eq_none (by unfold size at hlt; omega)
    rw [isNull_iff, hnone] at h
    cases h

/-- Beyond the end of the image is no text. -/
theorem isText_eq_false_of_size_le {offset : Nat} (h : image.size ≤ offset) :
    image.isText offset = false :=
  Bool.eq_false_iff.2 fun htext => absurd (lt_size_of_isText htext) (Nat.not_lt.2 h)

/-- Inside the image a byte is either text or null. -/
theorem isNull_eq_not_isText {offset : Nat} (h : offset < image.size) :
    image.isNull offset = !image.isText offset := by
  have hsome : image.get? offset = some image.bytes[offset] := Array.getElem?_eq_getElem h
  unfold isNull isText
  rw [hsome]
  show (image.bytes[offset] == 0) = !(image.bytes[offset] != 0)
  rw [bne, Bool.not_not]

theorem isText_of_isNull_eq_false {offset : Nat} (hlt : offset < image.size)
    (h : image.isNull offset = false) : image.isText offset = true := by
  rw [isNull_eq_not_isText hlt] at h
  simpa using h

theorem isNull_of_isText_eq_false {offset : Nat} (hlt : offset < image.size)
    (h : image.isText offset = false) : image.isNull offset = true := by
  rw [isNull_eq_not_isText hlt, h]
  rfl

/-- No offset of `[lo, hi)` has text. -/
def Clear (image : Image) (lo hi : Nat) : Prop :=
  ∀ offset, lo ≤ offset → offset < hi → image.isText offset = false

/-- Every offset of `[lo, hi)` has text. -/
def AllText (image : Image) (lo hi : Nat) : Prop :=
  ∀ offset, lo ≤ offset → offset < hi → image.isText offset = true

theorem clear_of_le {lo hi : Nat} (h : hi ≤ lo) : image.Clear lo hi := by
  intro offset hlo hhi
  omega

theorem Clear.append {lo mid hi : Nat} (hleft : image.Clear lo mid)
    (hright : image.Clear mid hi) : image.Clear lo hi := by
  intro offset hlo hhi
  rcases Nat.lt_or_ge offset mid with hlt | hge
  · exact hleft offset hlo hlt
  · exact hright offset hge hhi

/-- Text does not end behind a null. -/
theorem AllText.stop_ne {lo stop hi : Nat} (h : image.AllText lo stop) (hlt : lo < stop)
    (hnull : image.isNull (hi - 1) = true) : stop ≠ hi := by
  rintro rfl
  have hlast := h (stop - 1) (by omega) (by omega)
  rw [isText_eq_false_of_isNull hnull] at hlast
  cases hlast

/-! ## Bounded searches -/

theorem firstWithin_eq_some_iff {p : Nat → Bool} {lo hi offset : Nat} (hhi : hi ≤ image.size) :
    image.firstWithin p lo hi = some offset ↔
      lo ≤ offset ∧ offset < hi ∧ p offset = true ∧
        ∀ k, lo ≤ k → k < offset → p k = false := by
  rw [firstWithin, Nat.min_eq_left hhi, leastFrom_eq_some_iff]
  constructor
  · rintro ⟨hlo, hlt, hp, hbelow⟩
    exact ⟨hlo, by omega, hp, hbelow⟩
  · rintro ⟨hlo, hlt, hp, hbelow⟩
    exact ⟨hlo, by omega, hp, hbelow⟩

theorem firstWithin_eq_none_iff {p : Nat → Bool} {lo hi : Nat} (hhi : hi ≤ image.size) :
    image.firstWithin p lo hi = none ↔ ∀ k, lo ≤ k → k < hi → p k = false := by
  rw [firstWithin, Nat.min_eq_left hhi, leastFrom_eq_none_iff]
  constructor
  · intro hnone k hlo hlt
    exact hnone k hlo (by omega)
  · intro hnone k hlo hlt
    exact hnone k hlo (by omega)

/-- Where a bounded search stops that takes the bound for an answer. -/
theorem getD_firstWithin_eq_iff {p : Nat → Bool} {lo hi stop : Nat} (hlo : lo ≤ hi)
    (hhi : hi ≤ image.size) :
    (image.firstWithin p lo hi).getD hi = stop ↔
      lo ≤ stop ∧ stop ≤ hi ∧ (∀ k, lo ≤ k → k < stop → p k = false) ∧
        (stop = hi ∨ p stop = true) := by
  cases hfound : image.firstWithin p lo hi with
  | none =>
      have hnone := (firstWithin_eq_none_iff hhi).1 hfound
      rw [Option.getD_none]
      constructor
      · rintro rfl
        exact ⟨hlo, Nat.le_refl _, hnone, .inl rfl⟩
      · rintro ⟨hge, hle, _, hstop⟩
        rcases hstop with heq | hp
        · exact heq.symm
        · rcases Nat.lt_or_ge stop hi with hlt | hge'
          · rw [hnone stop hge hlt] at hp
            cases hp
          · omega
  | some first =>
      obtain ⟨hge, hlt, hp, hbelow⟩ := (firstWithin_eq_some_iff hhi).1 hfound
      rw [Option.getD_some]
      constructor
      · rintro rfl
        exact ⟨hge, by omega, hbelow, .inr hp⟩
      · rintro ⟨hge', hle, hbelow', hstop⟩
        -- neither position can lie below the other one
        rcases Nat.lt_trichotomy first stop with hlt' | heq | hgt
        · rw [hbelow' first hge hlt'] at hp
          cases hp
        · exact heq
        · rcases hstop with heq | hp'
          · omega
          · rw [hbelow stop hge' hgt] at hp'
            cases hp'

theorem terminator_eq_iff {lo hi stop : Nat} (hlo : lo ≤ hi) (hhi : hi ≤ image.size) :
    image.terminator lo hi = stop ↔
      lo ≤ stop ∧ stop ≤ hi ∧ image.AllText lo stop ∧
        (stop = hi ∨ image.isNull stop = true) := by
  rw [terminator, getD_firstWithin_eq_iff hlo hhi]
  constructor
  · rintro ⟨hge, hle, hbelow, hstop⟩
    refine ⟨hge, hle, fun offset hoff hlt => ?_, hstop⟩
    exact isText_of_isNull_eq_false (by omega) (hbelow offset hoff hlt)
  · rintro ⟨hge, hle, htext, hstop⟩
    refine ⟨hge, hle, fun offset hoff hlt => ?_, hstop⟩
    rw [isNull_eq_not_isText (by omega), htext offset hoff hlt]
    rfl

theorem nextText_eq_iff {lo hi next : Nat} (hlo : lo ≤ hi) (hhi : hi ≤ image.size) :
    image.nextText lo hi = next ↔
      lo ≤ next ∧ next ≤ hi ∧ image.Clear lo next ∧
        (next = hi ∨ image.isText next = true) :=
  getD_firstWithin_eq_iff hlo hhi

/-! ## The upward search -/

/-- The first null-free run of `[lo, hi)`, which may be cut at both ends. -/
structure FirstRun (image : Image) (lo hi : Nat) (s : Span) : Prop where
  le_start : lo ≤ s.start
  clear : image.Clear lo s.start
  nonempty : s.start < s.stop
  text : image.AllText s.start s.stop
  stop_le : s.stop ≤ hi
  closes : s.stop = hi ∨ image.isNull s.stop = true

theorem stringWithin?_eq_some_iff {lo hi : Nat} {s : Span} (hhi : hi ≤ image.size) :
    image.stringWithin? lo hi = some s ↔ image.FirstRun lo hi s := by
  unfold stringWithin?
  constructor
  · intro hfound
    obtain ⟨start, hstart, rfl⟩ := Option.map_eq_some_iff.1 hfound
    obtain ⟨hge, hlt, htext, hbelow⟩ := (firstWithin_eq_some_iff hhi).1 hstart
    obtain ⟨hle, hstop, hall, hclose⟩ := (terminator_eq_iff (Nat.le_of_lt hlt) hhi).1 rfl
    exact ⟨hge, hbelow, lt_terminator htext hlt, hall, hstop, hclose⟩
  · intro h
    have hlt : s.start < hi := Nat.lt_of_lt_of_le h.nonempty h.stop_le
    have hfirst : image.firstWithin image.isText lo hi = some s.start :=
      (firstWithin_eq_some_iff hhi).2
        ⟨h.le_start, hlt, h.text _ (Nat.le_refl _) h.nonempty, h.clear⟩
    have hstop : image.terminator s.start hi = s.stop :=
      (terminator_eq_iff (Nat.le_of_lt hlt) hhi).2
        ⟨Nat.le_of_lt h.nonempty, h.stop_le, h.text, h.closes⟩
    rw [hfirst, Option.map_some, hstop]

theorem stringWithin?_eq_none_iff {lo hi : Nat} (hhi : hi ≤ image.size) :
    image.stringWithin? lo hi = none ↔ image.Clear lo hi := by
  rw [stringWithin?, Option.map_eq_none_iff]
  exact firstWithin_eq_none_iff hhi

/-! ## Maximal runs and boundaries -/

/-- A maximal null-free run of the image. -/
structure IsRun (image : Image) (s : Span) : Prop where
  nonempty : s.start < s.stop
  inside : s.stop ≤ image.size
  text : image.AllText s.start s.stop
  opens : s.start = 0 ∨ image.isNull (s.start - 1) = true
  closes : s.stop = image.size ∨ image.isNull s.stop = true

theorem IsRun.start_lt_size {s : Span} (h : image.IsRun s) : s.start < image.size :=
  Nat.lt_of_lt_of_le h.nonempty h.inside

/-- No run has text on both sides of an offset. -/
def Boundary (image : Image) (offset : Nat) : Prop :=
  offset = 0 ∨ image.isText (offset - 1) = false ∨ image.isText offset = false

theorem boundary_of_isNull_pred {offset : Nat} (h : image.isNull (offset - 1) = true) :
    image.Boundary offset :=
  .inr (.inl (isText_eq_false_of_isNull h))

theorem IsRun.boundary_start {s : Span} (h : image.IsRun s) : image.Boundary s.start := by
  rcases h.opens with hzero | hnull
  · exact .inl hzero
  · exact boundary_of_isNull_pred hnull

theorem boundary_size (image : Image) : image.Boundary image.size :=
  .inr (.inr (isText_eq_false_of_size_le (Nat.le_refl _)))

theorem boundary_of_closes {offset : Nat}
    (h : offset = image.size ∨ image.isNull offset = true) : image.Boundary offset := by
  rcases h with rfl | hnull
  · exact boundary_size image
  · exact .inr (.inr (isText_eq_false_of_isNull hnull))

/-- Text that begins below a boundary ends there at the latest. -/
theorem AllText.stop_le_of_boundary {start stop bound : Nat} (h : image.AllText start stop)
    (hstart : start < bound) (hbound : image.Boundary bound) : stop ≤ bound := by
  rcases Nat.lt_or_ge bound stop with hlt | hge
  · rcases hbound with hzero | hleft | hright
    · omega
    · rw [h (bound - 1) (by omega) (by omega)] at hleft
      cases hleft
    · rw [h bound (Nat.le_of_lt hstart) hlt] at hright
      cases hright
  · exact hge

theorem IsRun.stop_le_of_boundary {s : Span} {bound : Nat} (h : image.IsRun s)
    (hstart : s.start < bound) (hbound : image.Boundary bound) : s.stop ≤ bound :=
  h.text.stop_le_of_boundary hstart hbound

/-- What the upward search finds from a boundary on is a maximal run. -/
theorem FirstRun.isRun {lo hi : Nat} {s : Span} (h : image.FirstRun lo hi s)
    (hlo : image.Boundary lo) (hhi : image.Boundary hi) (hsize : hi ≤ image.size) :
    image.IsRun s := by
  have hnonempty := h.nonempty
  have hstop := h.stop_le
  refine ⟨hnonempty, by omega, h.text, ?_, ?_⟩
  · rcases Nat.eq_zero_or_pos s.start with hzero | hpos
    · exact .inl hzero
    · refine .inr (isNull_of_isText_eq_false (by omega) ?_)
      rcases Nat.lt_or_ge lo s.start with hlt | hge
      · exact h.clear (s.start - 1) (by omega) (by omega)
      · have heq : s.start = lo := Nat.le_antisymm hge h.le_start
        rcases hlo with hzero | hleft | hright
        · omega
        · rw [heq]
          exact hleft
        · rw [← heq, h.text s.start (Nat.le_refl _) hnonempty] at hright
          cases hright
  · rcases h.closes with heq | hnull
    · rcases Nat.lt_or_ge s.stop image.size with hlt | hge
      · refine .inr (isNull_of_isText_eq_false hlt ?_)
        rcases hhi with hzero | hleft | hright
        · omega
        · rw [← heq, h.text (s.stop - 1) (by omega) (by omega)] at hleft
          cases hleft
        · rw [heq]
          exact hright
      · exact .inl (by omega)
    · exact .inr hnull

/-! ## The downward search -/

/-- The text that ends at an offset of the image begins at its start or behind a null. -/
theorem elim_greatestBelow_isNull_eq_iff {last start : Nat} (hlast : last ≤ image.size) :
    (greatestBelow image.isNull last).elim 0 (· + 1) = start ↔
      start ≤ last ∧ image.AllText start last ∧
        (start = 0 ∨ image.isNull (start - 1) = true) := by
  cases hfound : greatestBelow image.isNull last with
  | none =>
      have hnone := greatestBelow_eq_none_iff.1 hfound
      rw [Option.elim_none]
      constructor
      · rintro rfl
        refine ⟨Nat.zero_le _, fun offset _ hlt => ?_, .inl rfl⟩
        exact isText_of_isNull_eq_false (by omega) (hnone offset hlt)
      · rintro ⟨hle, _, hopen⟩
        rcases hopen with hzero | hnull
        · exact hzero.symm
        · rcases Nat.eq_zero_or_pos start with hzero | hpos
          · exact hzero.symm
          · rw [hnone (start - 1) (by omega)] at hnull
            cases hnull
  | some null =>
      obtain ⟨hlt, hnull, habove⟩ := greatestBelow_eq_some_iff.1 hfound
      rw [Option.elim_some]
      constructor
      · rintro rfl
        refine ⟨hlt, fun offset hoff hlt' => ?_, .inr (by simpa using hnull)⟩
        exact isText_of_isNull_eq_false (by omega) (habove offset (by omega) hlt')
      · rintro ⟨hle, htext, hopen⟩
        -- the null lies below the text, and no other null lies between them
        have hbelow : null < start := by
          rcases Nat.lt_or_ge null start with hlt' | hge
          · exact hlt'
          · have := htext null hge hlt
            rw [isText_eq_false_of_isNull hnull] at this
            cases this
        rcases hopen with hzero | hnull'
        · omega
        · rcases Nat.lt_or_ge null (start - 1) with hlt' | hge
          · rw [habove (start - 1) hlt' (by omega)] at hnull'
            cases hnull'
          · omega

theorem stringBefore?_eq_some_iff {bound : Nat} {s : Span} :
    image.stringBefore? bound = some s ↔
      image.IsRun s ∧ s.start < bound ∧ image.Clear s.stop bound := by
  unfold stringBefore?
  constructor
  · intro hfound
    obtain ⟨last, hlast, rfl⟩ := Option.map_eq_some_iff.1 hfound
    obtain ⟨hlt, htext, habove⟩ := greatestBelow_eq_some_iff.1 hlast
    have hinside : last < image.size := by omega
    obtain ⟨_, hstop, hright, hclose⟩ :=
      (terminator_eq_iff (Nat.le_of_lt hinside) (Nat.le_refl _)).1 rfl
    obtain ⟨hstart, hleft, hopen⟩ :=
      (elim_greatestBelow_isNull_eq_iff (Nat.le_of_lt hinside)).1 rfl
    have hbehind := lt_terminator htext hinside
    refine ⟨⟨Nat.lt_of_le_of_lt hstart hbehind, hstop, ?_, hopen, hclose⟩, ?_, ?_⟩
    · intro offset hge hoff
      rcases Nat.lt_or_ge offset last with hlt' | hge'
      · exact hleft offset hge hlt'
      · exact hright offset hge' hoff
    · exact Nat.lt_of_le_of_lt hstart (by omega)
    · intro offset hge hoff
      replace hge : image.terminator last image.size ≤ offset := hge
      rcases Nat.lt_or_ge offset image.size with hlt' | hge'
      · exact habove offset (by omega) (by omega)
      · exact isText_eq_false_of_size_le hge'
  · rintro ⟨hrun, hstart, hclear⟩
    have hnonempty := hrun.nonempty
    have hinside := hrun.inside
    -- the last text below the bound is the run's last byte, or the byte before the bound
    have hlast : greatestBelow image.isText (min bound image.size) =
        some (min s.stop bound - 1) := by
      refine greatestBelow_eq_some_iff.2 ⟨by omega, hrun.text _ (by omega) (by omega), ?_⟩
      intro k hk hlt
      exact hclear k (by omega) (by omega)
    have hopens : (greatestBelow image.isNull (min s.stop bound - 1)).elim 0 (· + 1) =
        s.start := by
      refine (elim_greatestBelow_isNull_eq_iff (by omega)).2 ⟨by omega, ?_, hrun.opens⟩
      exact fun offset hge hlt => hrun.text offset hge (by omega)
    have hcloses : image.terminator (min s.stop bound - 1) image.size = s.stop := by
      refine (terminator_eq_iff (by omega) (Nat.le_refl _)).2 ⟨by omega, hinside, ?_, hrun.closes⟩
      exact fun offset hge hlt => hrun.text offset (by omega) hlt
    rw [hlast, Option.map_some, hopens, hcloses]

theorem stringBefore?_eq_none_iff {bound : Nat} :
    image.stringBefore? bound = none ↔ image.Clear 0 bound := by
  rw [stringBefore?, Option.map_eq_none_iff, greatestBelow_eq_none_iff]
  constructor
  · intro hnone offset _ hlt
    rcases Nat.lt_or_ge offset image.size with hinside | hsize
    · exact hnone offset (by omega)
    · exact isText_eq_false_of_size_le hsize
  · intro hclear offset hlt
    exact hclear offset (Nat.zero_le _) (by omega)

/-! ## The runs of an interval -/

/-- Some spans are the null-free runs of `[lo, hi)`, in order. -/
def Runs (image : Image) (hi : Nat) : Nat → List Span → Prop
  | lo, [] => lo ≤ hi ∧ image.Clear lo hi
  | lo, s :: rest => image.FirstRun lo hi s ∧ image.Runs hi s.stop rest

/-- Each run takes up at least one offset. -/
theorem Runs.add_length_le {lo hi : Nat} {spans : List Span} (h : image.Runs hi lo spans) :
    lo + spans.length ≤ hi := by
  induction spans generalizing lo with
  | nil => exact h.1
  | cons s rest ih =>
      have hstart := h.1.le_start
      have hnonempty := h.1.nonempty
      have hrest := ih h.2
      rw [List.length_cons]
      omega

theorem Runs.le {lo hi : Nat} {spans : List Span} (h : image.Runs hi lo spans) : lo ≤ hi :=
  Nat.le_of_add_right_le h.add_length_le

/-- Padding in front of an interval adds no run. -/
theorem Runs.extend {lo mid hi : Nat} {spans : List Span} (hle : lo ≤ mid)
    (hclear : image.Clear lo mid) (h : image.Runs hi mid spans) : image.Runs hi lo spans := by
  cases spans with
  | nil => exact ⟨Nat.le_trans hle h.1, hclear.append h.2⟩
  | cons s rest =>
      obtain ⟨hfirst, hrest⟩ := h
      refine ⟨?_, hrest⟩
      exact
        { hfirst with
          le_start := Nat.le_trans hle hfirst.le_start
          clear := hclear.append hfirst.clear }

/-- The runs of two neighbouring intervals make up those of both, unless a run is cut between them. -/
theorem Runs.append {lo mid hi : Nat} {left right : List Span} (hmid : image.Boundary mid)
    (hsize : hi ≤ image.size) (hleft : image.Runs mid lo left)
    (hright : image.Runs hi mid right) : image.Runs hi lo (left ++ right) := by
  have hle := hright.le
  induction left generalizing lo with
  | nil => exact hright.extend hleft.1 hleft.2
  | cons s rest ih =>
      obtain ⟨hfirst, hrest⟩ := hleft
      have hnonempty := hfirst.nonempty
      have hstop := hfirst.stop_le
      refine ⟨{ hfirst with stop_le := by omega, closes := ?_ }, ih hrest⟩
      rcases hfirst.closes with heq | hnull
      · rcases hmid with hzero | hbefore | hbehind
        · omega
        · rw [← heq, hfirst.text (s.stop - 1) (by omega) (by omega)] at hbefore
          cases hbefore
        · rcases Nat.lt_or_ge mid image.size with hlt | hge
          · exact .inr (heq ▸ isNull_of_isText_eq_false hlt hbehind)
          · exact .inl (by omega)
      · exact .inr hnull

/-- An interval may be cut where one of its runs begins. -/
theorem Runs.split {lo hi : Nat} {left right : List Span} {s : Span}
    (h : image.Runs hi lo (left ++ s :: right)) :
    image.Runs s.start lo left ∧ image.Runs hi s.start (s :: right) := by
  induction left generalizing lo with
  | nil =>
      obtain ⟨hfirst, hrest⟩ := h
      refine ⟨⟨hfirst.le_start, hfirst.clear⟩, ?_, hrest⟩
      exact { hfirst with le_start := Nat.le_refl _, clear := clear_of_le (Nat.le_refl _) }
  | cons t left ih =>
      obtain ⟨hfirst, hrest⟩ := h
      obtain ⟨hleft, hright⟩ := ih hrest
      have hle := hleft.le
      refine ⟨⟨{ hfirst with stop_le := hle, closes := ?_ }, hleft⟩, hright⟩
      rcases hfirst.closes with heq | hnull
      · have := hright.1.nonempty
        have := hright.1.stop_le
        omega
      · exact .inr hnull

/-- Between two boundaries every run is maximal. -/
theorem Runs.isRun {lo hi : Nat} {spans : List Span} (h : image.Runs hi lo spans)
    (hlo : image.Boundary lo) (hhi : image.Boundary hi) (hsize : hi ≤ image.size) :
    ∀ s ∈ spans, image.IsRun s := by
  induction spans generalizing lo with
  | nil => exact fun s hs => absurd hs List.not_mem_nil
  | cons t rest ih =>
      obtain ⟨hfirst, hrest⟩ := h
      have hrun := hfirst.isRun hlo hhi hsize
      intro s hs
      rcases List.mem_cons.1 hs with rfl | hs
      · exact hrun
      · exact ih hrest (boundary_of_closes hrun.closes) s hs

theorem Runs.trim_stop {lo hi : Nat} {spans : List Span} {last : Span}
    (h : image.Runs hi lo spans) (hlast : spans.getLast? = some last) :
    image.Runs last.stop lo spans := by
  induction spans generalizing lo with
  | nil => cases hlast
  | cons s rest ih =>
      obtain ⟨hfirst, hrest⟩ := h
      cases rest with
      | nil =>
          obtain rfl : s = last := by simpa using hlast
          refine ⟨{ hfirst with stop_le := Nat.le_refl _, closes := .inl rfl }, ?_⟩
          exact ⟨Nat.le_refl _, clear_of_le (Nat.le_refl _)⟩
      | cons t rest =>
          have hnext := ih hrest (by rwa [List.getLast?_cons_cons] at hlast)
          refine ⟨{ hfirst with stop_le := hnext.le, closes := ?_ }, hnext⟩
          rcases hfirst.closes with heq | hnull
          · have := hrest.1.le_start
            have := hrest.1.nonempty
            have := hrest.1.stop_le
            omega
          · exact .inr hnull

/-- Behind some of its first runs an interval has the other ones. -/
theorem Runs.of_append {lo hi : Nat} {left right : List Span} {last : Span}
    (h : image.Runs hi lo (left ++ right)) (hlast : left.getLast? = some last) :
    image.Runs hi last.stop right := by
  induction left generalizing lo with
  | nil => cases hlast
  | cons s rest ih =>
      obtain ⟨hfirst, hrest⟩ := h
      cases rest with
      | nil =>
          obtain rfl : s = last := by simpa using hlast
          exact hrest
      | cons t rest => exact ih hrest (by rwa [List.getLast?_cons_cons] at hlast)

/-- Behind its last run an interval has no runs. -/
theorem Runs.behind {lo hi : Nat} {spans : List Span} {last : Span}
    (h : image.Runs hi lo spans) (hlast : spans.getLast? = some last) :
    image.Runs hi last.stop [] := by
  rw [← List.append_nil spans] at h
  exact h.of_append hlast

/-- The runs of an interval are those of the part from the first run to the end of the last one. -/
theorem Runs.trim {lo hi : Nat} {spans : List Span} {first last : Span}
    (h : image.Runs hi lo spans) (hfirst : spans.head? = some first)
    (hlast : spans.getLast? = some last) : image.Runs last.stop first.start spans := by
  have hstop := h.trim_stop hlast
  cases spans with
  | nil => cases hfirst
  | cons s rest =>
      obtain rfl : s = first := by simpa using hfirst
      obtain ⟨hrun, hrest⟩ := hstop
      refine ⟨?_, hrest⟩
      exact { hrun with le_start := Nat.le_refl _, clear := clear_of_le (Nat.le_refl _) }

end Image

end FirmwareSymbols
