import FirmwareSymbols.Proofs.RunList

/-!
# From one string to the next

A string is looked for downward or upward from an offset. The two searches
differ if the offset lies inside a run: the downward search answers the
whole run, and the upward search cuts off what lies below the offset. But
from the end of a run upward, and from the offset in front of a run
downward, the search begins outside of any other run, so nothing is cut.
Each of these two steps leads to a neighbour, and the other one leads back.
Repeated until there is no neighbour, a step visits every run on its side,
one after the other.

## Main definitions

* `Image.IsLastRun`, `Image.IsFirstRest`: what the two searches find.
* `Image.Neighbours`: two runs with nothing but nulls between them.
* `Image.stringBehind?`, `Image.stringInFront?`: a step upward and a step
  downward.
* `Visits`: the spans that a repeated step visits.

## Main results

* `Image.exists_isRun_of_isText`, `Image.isText_eq_false_iff`: all text of
  an image is in its maximal runs.
* `Image.stringAt?_eq_some_iff`, `Image.stringFrom?_eq_some_iff`: the two
  searches, told by the maximal runs.
* `Image.IsRun.stringBehind?_eq_some_iff`,
  `Image.IsRun.stringInFront?_eq_some_iff`: both steps lead from neighbour
  to neighbour.
* `Image.visits_stringBehind?_iff`, `Image.IsRun.visits_stringInFront?_iff`:
  what the repeated steps visit.
* `Image.stringSteps_inverse`: the specification of both searches.
-/

namespace FirmwareSymbols

namespace Image

variable {image : Image}

/-! ## What a search finds -/

/-- A maximal run that begins at or before an offset, such that no other one begins between them. -/
structure IsLastRun (image : Image) (offset : Nat) (s : Span) : Prop where
  isRun : image.IsRun s
  start_le : s.start ≤ offset
  last : ∀ t, image.IsRun t → t.start ≤ offset → t.start ≤ s.start

/-- From the first text at or after an offset to the end of the maximal run that has this text. -/
structure IsFirstRest (image : Image) (offset : Nat) (s : Span) : Prop where
  le_start : offset ≤ s.start
  clear : image.Clear offset s.start
  ofRun : ∃ r, image.IsRun r ∧ r.start ≤ s.start ∧ s.start < r.stop ∧ s.stop = r.stop

/-- All text belongs to a maximal run. -/
theorem exists_isRun_of_isText {place : Nat} (h : image.isText place = true) :
    ∃ r, image.IsRun r ∧ r.start ≤ place ∧ place < r.stop := by
  cases hfound : image.stringBefore? (place + 1) with
  | none =>
      have hclear := stringBefore?_eq_none_iff.1 hfound
      rw [hclear place (Nat.zero_le _) (Nat.lt_succ_self _)] at h
      cases h
  | some r =>
      obtain ⟨hrun, hstart, hclear⟩ := stringBefore?_eq_some_iff.1 hfound
      refine ⟨r, hrun, Nat.le_of_lt_succ hstart, Nat.lt_of_not_le fun hle => ?_⟩
      rw [hclear place hle (Nat.lt_succ_self _)] at h
      cases h

/-- There is no text at a place exactly if all runs that have begun by then have ended. -/
theorem isText_eq_false_iff {place : Nat} :
    image.isText place = false ↔ ∀ r, image.IsRun r → r.start ≤ place → r.stop ≤ place := by
  constructor
  · intro hplace r hr hstart
    refine Nat.le_of_not_lt fun hlt => ?_
    rw [hr.text place hstart hlt] at hplace
    cases hplace
  · intro hall
    refine Bool.eq_false_iff.2 fun htext => ?_
    obtain ⟨r, hr, hstart, hstop⟩ := exists_isRun_of_isText htext
    exact absurd hstop (Nat.not_lt.2 (hall r hr hstart))

/-- Every run begins before the end of the image. -/
theorem IsRun.start_le_min_iff {s : Span} {offset : Nat} (h : image.IsRun s) :
    s.start ≤ min offset (image.size - 1) ↔ s.start ≤ offset := by
  have := h.start_lt_size
  omega

theorem stringAt?_eq_some_iff {offset : Nat} {s : Span} :
    image.stringAt? offset = some s ↔ image.IsLastRun (min offset (image.size - 1)) s := by
  rw [stringAt?, stringBefore?_eq_some_iff]
  constructor
  · rintro ⟨hrun, hstart, hclear⟩
    refine ⟨hrun, hrun.start_le_min_iff.2 (Nat.le_of_lt_succ hstart), fun t ht hle => ?_⟩
    -- a run that began later would begin behind this one, where no text is
    refine Nat.le_of_not_lt fun hlt => ?_
    have hbehind := ht.not_start_inside hrun.text hlt
    have hoffset := ht.start_le_min_iff.1 hle
    have hnone := hclear t.start (Nat.le_of_lt hbehind) (Nat.lt_succ_of_le hoffset)
    have hended := isText_eq_false_iff.1 hnone t ht (Nat.le_refl _)
    exact absurd ht.nonempty (Nat.not_lt.2 hended)
  · rintro ⟨hrun, hstart, hlast⟩
    refine ⟨hrun, Nat.lt_succ_of_le (hrun.start_le_min_iff.1 hstart), fun place hplace hlt => ?_⟩
    -- all runs that have begun by then begin before this one ends, so they end there as well
    refine isText_eq_false_iff.2 fun t ht hle => Nat.le_trans ?_ hplace
    have hbefore := hlast t ht (ht.start_le_min_iff.2 (by omega))
    exact ht.stop_le_of_boundary (Nat.lt_of_le_of_lt hbefore hrun.nonempty)
      (boundary_of_closes hrun.closes)

theorem stringAt?_eq_none_iff {offset : Nat} :
    image.stringAt? offset = none ↔
      ∀ s, image.IsRun s → ¬ s.start ≤ min offset (image.size - 1) := by
  rw [stringAt?, stringBefore?_eq_none_iff]
  constructor
  · intro hclear s hs hle
    have hoffset := hs.start_le_min_iff.1 hle
    have hnone := hclear s.start (Nat.zero_le _) (Nat.lt_succ_of_le hoffset)
    have hended := isText_eq_false_iff.1 hnone s hs (Nat.le_refl _)
    exact absurd hs.nonempty (Nat.not_lt.2 hended)
  · intro hnone place _ hlt
    refine isText_eq_false_iff.2 fun s hs hle => ?_
    exact absurd (hs.start_le_min_iff.2 (by omega)) (hnone s hs)

theorem stringFrom?_eq_some_iff {offset : Nat} {s : Span} :
    image.stringFrom? offset = some s ↔ image.IsFirstRest offset s := by
  rw [stringFrom?, stringWithin?_eq_some_iff (Nat.le_refl _)]
  constructor
  · intro h
    have hbegins := h.text s.start (Nat.le_refl _) h.nonempty
    obtain ⟨r, hr, hstart, hstop⟩ := exists_isRun_of_isText hbegins
    -- neither end lies behind the other one
    have hle : r.stop ≤ s.stop := hr.stop_le_of_boundary
      (Nat.lt_of_le_of_lt hstart h.nonempty) (boundary_of_closes h.closes)
    have hge : s.stop ≤ r.stop := h.text.stop_le_of_boundary hstop (boundary_of_closes hr.closes)
    exact ⟨h.le_start, h.clear, r, hr, hstart, hstop, Nat.le_antisymm hge hle⟩
  · rintro ⟨hle, hclear, r, hr, hstart, hstop, heq⟩
    refine
      { le_start := hle
        clear := hclear
        nonempty := heq ▸ hstop
        text := fun place hplace hlt => ?_
        stop_le := heq ▸ hr.inside
        closes := heq ▸ hr.closes }
    exact hr.text place (Nat.le_trans hstart hplace) (heq ▸ hlt)

theorem stringFrom?_eq_none_iff {offset : Nat} :
    image.stringFrom? offset = none ↔ ∀ place, offset ≤ place → image.isText place = false := by
  rw [stringFrom?, stringWithin?_eq_none_iff (Nat.le_refl _)]
  constructor
  · intro hclear place hplace
    rcases Nat.lt_or_ge place image.size with hinside | hsize
    · exact hclear place hplace hinside
    · exact isText_eq_false_of_size_le hsize
  · exact fun hnone place hplace _ => hnone place hplace

/-! ## Neighbours -/

/-- Two maximal runs with nothing but nulls between them, the lower one first. -/
structure Neighbours (image : Image) (s t : Span) : Prop where
  lower : image.IsRun s
  upper : image.IsRun t
  stop_le : s.stop ≤ t.start
  clear : image.Clear s.stop t.start

/-- The first string from the end of a span on. -/
def stringBehind? (image : Image) (s : Span) : Option Span := image.stringFrom? s.stop

/-- The last string that begins in front of a span. -/
def stringInFront? (image : Image) (s : Span) : Option Span :=
  if s.start = 0 then none else image.stringAt? (s.start - 1)

theorem stringInFront?_of_pos {s : Span} (hpos : 0 < s.start) :
    image.stringInFront? s = image.stringAt? (s.start - 1) :=
  if_neg (Nat.ne_of_gt hpos)

theorem stringInFront?_eq (image : Image) (s : Span) :
    image.stringInFront? s = image.stringBefore? s.start := by
  rcases Nat.eq_zero_or_pos s.start with hzero | hpos
  · rw [stringInFront?, if_pos hzero, hzero, stringBefore?, Nat.zero_min]
    rfl
  · rw [stringInFront?_of_pos hpos, stringAt?, Nat.sub_add_cancel hpos]

theorem IsRun.stringBehind?_eq_some_iff {s t : Span} (hs : image.IsRun s) :
    image.stringBehind? s = some t ↔ image.Neighbours s t := by
  rw [stringBehind?, stringFrom?, stringWithin?_eq_some_iff (Nat.le_refl _)]
  constructor
  · intro h
    have ht : image.IsRun t :=
      h.isRun (boundary_of_closes hs.closes) (boundary_size image) (Nat.le_refl _)
    exact ⟨hs, ht, h.le_start, h.clear⟩
  · intro h
    exact
      { le_start := h.stop_le
        clear := h.clear
        nonempty := h.upper.nonempty
        text := h.upper.text
        stop_le := h.upper.inside
        closes := h.upper.closes }

theorem IsRun.stringInFront?_eq_some_iff {s t : Span} (ht : image.IsRun t) :
    image.stringInFront? t = some s ↔ image.Neighbours s t := by
  rw [stringInFront?_eq, stringBefore?_eq_some_iff]
  constructor
  · rintro ⟨hs, hstart, hclear⟩
    exact ⟨hs, ht, hs.stop_le_of_boundary hstart ht.boundary_start, hclear⟩
  · intro h
    exact ⟨h.lower, Nat.lt_of_lt_of_le h.lower.nonempty h.stop_le, h.clear⟩

/-- Between the beginnings of two neighbours lies only the lower one. -/
theorem Neighbours.runs {s t : Span} (h : image.Neighbours s t) :
    image.Runs t.start s.start [s] := by
  have hinside := h.upper.start_lt_size
  have hstop := h.stop_le
  refine ⟨?_, hstop, h.clear⟩
  exact
    { le_start := Nat.le_refl _
      clear := clear_of_le (Nat.le_refl _)
      nonempty := h.lower.nonempty
      text := h.lower.text
      stop_le := hstop
      closes := h.lower.closes.imp_left fun heq => by omega }

end Image

/-! ## Repeated steps -/

/-- The spans that a step leads to if it is repeated from a span until it leads nowhere. -/
def Visits (step : Span → Option Span) : Span → List Span → Prop
  | s, [] => step s = none
  | s, t :: rest => step s = some t ∧ Visits step t rest

instance decidableVisits (step : Span → Option Span) :
    ∀ s visited, Decidable (Visits step s visited)
  | s, [] => inferInstanceAs (Decidable (step s = none))
  | s, t :: rest =>
    have := decidableVisits step t rest
    inferInstanceAs (Decidable (step s = some t ∧ Visits step t rest))

namespace Image

variable {image : Image}

/-- Upward all runs behind a span are visited. -/
theorem visits_stringBehind?_iff {s : Span} {visited : List Span} (hstop : s.stop ≤ image.size) :
    Visits image.stringBehind? s visited ↔ image.Runs image.size s.stop visited := by
  induction visited generalizing s with
  | nil =>
      show image.stringFrom? s.stop = none ↔ s.stop ≤ image.size ∧ image.Clear s.stop image.size
      rw [stringFrom?, stringWithin?_eq_none_iff (Nat.le_refl _)]
      exact ⟨fun hclear => ⟨hstop, hclear⟩, And.right⟩
  | cons t rest ih =>
      show image.stringFrom? s.stop = some t ∧ Visits image.stringBehind? t rest ↔
        image.FirstRun s.stop image.size t ∧ image.Runs image.size t.stop rest
      rw [stringFrom?, stringWithin?_eq_some_iff (Nat.le_refl _)]
      exact and_congr_right fun hfirst => ih hfirst.stop_le

/-- Downward all runs in front of a run are visited, the highest first. -/
theorem IsRun.visits_stringInFront?_iff {s : Span} {visited : List Span} (hs : image.IsRun s) :
    Visits image.stringInFront? s visited ↔ image.Runs s.start 0 visited.reverse := by
  induction visited generalizing s with
  | nil =>
      show image.stringInFront? s = none ↔ 0 ≤ s.start ∧ image.Clear 0 s.start
      rw [stringInFront?_eq, stringBefore?_eq_none_iff]
      exact ⟨fun hclear => ⟨Nat.zero_le _, hclear⟩, And.right⟩
  | cons t rest ih =>
      have hsize : s.start ≤ image.size := Nat.le_of_lt hs.start_lt_size
      rw [List.reverse_cons]
      constructor
      · rintro ⟨hstep, hrest⟩
        have hnext : image.Neighbours t s := hs.stringInFront?_eq_some_iff.1 hstep
        have hbelow : image.Runs t.start 0 rest.reverse := (ih hnext.lower).1 hrest
        exact hbelow.append hnext.lower.boundary_start hsize hnext.runs
      · intro h
        have ht : image.IsRun t := h.isRun (.inl rfl) hs.boundary_start hsize t (by simp)
        have hstep : image.stringInFront? s = some t := by
          rw [stringInFront?_eq]
          exact h.stringBefore?_concat ht
        exact ⟨hstep, (ih ht).2 h.split.1⟩

theorem IsRun.exists_visits_stringBehind? {s : Span} (hs : image.IsRun s) :
    ∃ above, image.ListsRuns s.stop image.size above ∧
      ∀ visited, Visits image.stringBehind? s visited ↔ visited = above := by
  obtain ⟨above, hlist, hruns⟩ := exists_listsRuns hs.inside (boundary_of_closes hs.closes)
    (boundary_size image) (Nat.le_refl _)
  exact ⟨above, hlist, fun visited => (visits_stringBehind?_iff hs.inside).trans (hruns visited)⟩

theorem IsRun.exists_visits_stringInFront? {s : Span} (hs : image.IsRun s) :
    ∃ below, image.ListsRuns 0 s.start below ∧
      ∀ visited, Visits image.stringInFront? s visited ↔ visited = below.reverse := by
  obtain ⟨below, hlist, hruns⟩ := exists_listsRuns (Nat.zero_le s.start) (.inl rfl)
    hs.boundary_start (Nat.le_of_lt hs.start_lt_size)
  refine ⟨below, hlist, fun visited => ?_⟩
  rw [hs.visits_stringInFront?_iff, hruns, List.reverse_eq_iff]

/-- The downward search finds the last maximal run that begins at or before an offset, or before the end of
the image if the offset lies beyond it; the upward search finds the first text at or after an offset and
the rest of its run. Either search finds nothing only if there is nothing of the kind. Seen from a maximal
run, the run that follows is found from the end of the run on, and from the offset in front of that one the
run is found again; likewise for the run that goes before. Repeated until nothing is found, a step upward
visits all maximal runs behind a run, from the lowest to the highest, and a step downward all in front of
it, from the highest to the lowest. -/
theorem stringSteps_inverse (image : Image) :
    (∀ offset,
      (∀ s, image.stringAt? offset = some s ↔
        image.IsLastRun (min offset (image.size - 1)) s) ∧
      (image.stringAt? offset = none ↔
        ∀ s, image.IsRun s → ¬ s.start ≤ min offset (image.size - 1)) ∧
      (∀ s, image.stringFrom? offset = some s ↔ image.IsFirstRest offset s) ∧
      (image.stringFrom? offset = none ↔
        ∀ place, offset ≤ place → image.isText place = false)) ∧
    ∀ s, image.IsRun s →
      (∀ t, image.stringFrom? s.stop = some t →
        image.IsRun t ∧ 0 < t.start ∧ image.stringAt? (t.start - 1) = some s) ∧
      (∀ r, 0 < s.start → image.stringAt? (s.start - 1) = some r →
        image.IsRun r ∧ image.stringFrom? r.stop = some s) ∧
      (∃ above, image.ListsRuns s.stop image.size above ∧
        ∀ visited, Visits image.stringBehind? s visited ↔ visited = above) ∧
      ∃ below, image.ListsRuns 0 s.start below ∧
        ∀ visited, Visits image.stringInFront? s visited ↔ visited = below.reverse := by
  refine ⟨fun offset => ⟨fun s => stringAt?_eq_some_iff, stringAt?_eq_none_iff,
    fun s => stringFrom?_eq_some_iff, stringFrom?_eq_none_iff⟩, fun s hs => ⟨?_, ?_,
    hs.exists_visits_stringBehind?, hs.exists_visits_stringInFront?⟩⟩
  · intro t ht
    have hnext : image.Neighbours s t := hs.stringBehind?_eq_some_iff.1 ht
    have hpos : 0 < t.start :=
      Nat.lt_of_lt_of_le (Nat.zero_lt_of_lt hs.nonempty) hnext.stop_le
    rw [← stringInFront?_of_pos hpos]
    exact ⟨hnext.upper, hpos, hnext.upper.stringInFront?_eq_some_iff.2 hnext⟩
  · intro r hpos hr
    rw [← stringInFront?_of_pos hpos] at hr
    have hnext : image.Neighbours r s := hs.stringInFront?_eq_some_iff.1 hr
    exact ⟨hnext.lower, hnext.lower.stringBehind?_eq_some_iff.2 hnext⟩

/-- Three names, one at the beginning of the image and one at its end, with several nulls between two. -/
def gappedNames : Image :=
  .ofList [0x6c, 0x73, 0, 0x63, 0x70, 0, 0, 0, 0x6d, 0x76]

/-- From the name in the middle the other two are found, which are all names beside it, and from either of
them it is found again. -/
theorem stringSteps_inverse_gappedNames :
    gappedNames.IsRun ⟨3, 5⟩ ∧
    gappedNames.stringFrom? 5 = some ⟨8, 10⟩ ∧ gappedNames.stringAt? 7 = some ⟨3, 5⟩ ∧
    gappedNames.stringAt? 2 = some ⟨0, 2⟩ ∧ gappedNames.stringFrom? 2 = some ⟨3, 5⟩ ∧
    Visits gappedNames.stringBehind? ⟨3, 5⟩ [⟨8, 10⟩] ∧ gappedNames.ListsRuns 5 10 [⟨8, 10⟩] ∧
    Visits gappedNames.stringInFront? ⟨3, 5⟩ [⟨0, 2⟩] ∧ gappedNames.ListsRuns 0 3 [⟨0, 2⟩] := by
  obtain ⟨hsearches, hsteps⟩ := stringSteps_inverse gappedNames
  have hmiddle : gappedNames.stringAt? 4 = some ⟨3, 5⟩ := by decide
  have hrun : gappedNames.IsRun ⟨3, 5⟩ := (((hsearches 4).1 _).1 hmiddle).isRun
  obtain ⟨hup, hdown, ⟨above, habove, hvisited⟩, below, hbelow, hvisitedBelow⟩ := hsteps _ hrun
  have hbehind : gappedNames.stringFrom? 5 = some ⟨8, 10⟩ := by decide
  have hbefore : gappedNames.stringAt? 2 = some ⟨0, 2⟩ := by decide
  have hvisits : Visits gappedNames.stringBehind? ⟨3, 5⟩ [⟨8, 10⟩] := by decide
  have hvisitsBelow : Visits gappedNames.stringInFront? ⟨3, 5⟩ [⟨0, 2⟩] := by decide
  obtain rfl : [⟨8, 10⟩] = above := (hvisited _).1 hvisits
  obtain rfl : [⟨0, 2⟩] = below := by
    rw [← List.reverse_reverse below, ← (hvisitedBelow _).1 hvisitsBelow]
    rfl
  exact ⟨hrun, hbehind, (hup _ hbehind).2.2, hbefore, (hdown _ (by decide) hbefore).2, hvisits,
    habove, hvisitsBelow, hbelow⟩

end Image

end FirmwareSymbols
