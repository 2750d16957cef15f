import FirmwareSymbols.Proofs.NullFreeRun
import Mathlib.Data.List.Basic
import Mathlib.Data.List.Perm.Basic

/-!
# The list of all runs

The null-free runs of an interval were given step by step: the first one,
and the runs behind it. Between two boundaries this is the list of all
maximal runs of the image that begin in the interval, and there is exactly
one such list.

## Main results

* `Image.exists_runs`: every interval has its runs.
* `Image.listsRuns_iff`: they are all the maximal runs that begin there.
* `Image.Runs.stringBefore?_eq`, `Image.Runs.stringFrom?_eq`: which of them
  the two searches find.
-/

namespace FirmwareSymbols

namespace Image

variable {image : Image}

/-- Some spans are all the maximal runs that begin in `[lo, hi)`, from the lowest to the highest. -/
structure ListsRuns (image : Image) (lo hi : Nat) (spans : List Span) : Prop where
  mem_iff : ∀ s, s ∈ spans ↔ image.IsRun s ∧ lo ≤ s.start ∧ s.start < hi
  ordered : spans.Pairwise fun s t => s.stop < t.start

/-- Every interval of the image has its runs. -/
theorem exists_runs {lo hi : Nat} (hle : lo ≤ hi) (hsize : hi ≤ image.size) :
    ∃ spans, image.Runs hi lo spans := by
  -- each run that is found takes away at least one offset
  induction hroom : hi - lo using Nat.strongRecOn generalizing lo with
  | ind room ih =>
      cases hfound : image.stringWithin? lo hi with
      | none => exact ⟨[], hle, (stringWithin?_eq_none_iff hsize).1 hfound⟩
      | some s =>
          have hfirst := (stringWithin?_eq_some_iff hsize).1 hfound
          have hstart := hfirst.le_start
          have hnonempty := hfirst.nonempty
          have hstop := hfirst.stop_le
          obtain ⟨rest, hrest⟩ := ih (hi - s.stop) (by omega) hstop rfl
          exact ⟨s :: rest, hfirst, hrest⟩

/-- No maximal run begins inside another one. -/
theorem IsRun.not_start_inside {s : Span} (h : image.IsRun s) {lo hi : Nat}
    (htext : image.AllText lo hi) (hlo : lo < s.start) : hi < s.start := by
  rcases Nat.lt_or_ge hi s.start with hlt | hge
  · exact hlt
  · rcases h.opens with hzero | hnull
    · omega
    · rw [isNull_eq_not_isText (by have := h.start_lt_size; omega),
        htext (s.start - 1) (by omega) (by omega)] at hnull
      cases hnull

theorem IsRun.stop_le_of_start_eq {s t : Span} (hs : image.IsRun s) (ht : image.IsRun t)
    (hstart : s.start = t.start) : s.stop ≤ t.stop := by
  have hnonempty := ht.nonempty
  refine hs.stop_le_of_boundary (by omega) (boundary_of_closes ht.closes)

/-- A maximal run is told by where it begins. -/
theorem IsRun.eq_of_start_eq {s t : Span} (hs : image.IsRun s) (ht : image.IsRun t)
    (hstart : s.start = t.start) : s = t := by
  have hstop := Nat.le_antisymm (hs.stop_le_of_start_eq ht hstart)
    (ht.stop_le_of_start_eq hs hstart.symm)
  cases s
  cases t
  cases hstart
  cases hstop
  rfl

/-- No maximal run that begins in an interval is left out of its runs. -/
theorem Runs.mem_of_isRun {lo hi : Nat} {spans : List Span} (h : image.Runs hi lo spans)
    (hall : ∀ s ∈ spans, image.IsRun s) {t : Span} (ht : image.IsRun t) (hlo : lo ≤ t.start)
    (hhi : t.start < hi) : t ∈ spans := by
  have htext := ht.text t.start (Nat.le_refl _) ht.nonempty
  induction spans generalizing lo with
  | nil =>
      rw [h.2 t.start hlo hhi] at htext
      cases htext
  | cons s rest ih =>
      obtain ⟨hfirst, hrest⟩ := h
      rcases Nat.lt_trichotomy t.start s.start with hbelow | hsame | habove
      · rw [hfirst.clear t.start hlo hbelow] at htext
        cases htext
      · have hrun := hall s List.mem_cons_self
        rw [ht.eq_of_start_eq hrun hsame]
        exact List.mem_cons_self
      · have hbehind := ht.not_start_inside hfirst.text habove
        exact List.mem_cons_of_mem s
          (ih hrest (fun u hu => hall u (List.mem_cons_of_mem s hu)) (Nat.le_of_lt hbehind))

/-- The runs of an interval are text inside it. -/
theorem Runs.text {lo hi : Nat} {spans : List Span} (h : image.Runs hi lo spans) :
    ∀ s ∈ spans, lo ≤ s.start ∧ s.start < s.stop ∧ s.stop ≤ hi ∧
      image.AllText s.start s.stop := by
  induction spans generalizing lo with
  | nil => exact fun s hs => absurd hs List.not_mem_nil
  | cons t rest ih =>
      obtain ⟨hfirst, hrest⟩ := h
      have hstart := hfirst.le_start
      have hnonempty := hfirst.nonempty
      intro s hs
      rcases List.mem_cons.1 hs with rfl | hs
      · exact ⟨hstart, hnonempty, hfirst.stop_le, hfirst.text⟩
      · obtain ⟨hle, hinside⟩ := ih hrest s hs
        exact ⟨by omega, hinside⟩

/-- Each run of an interval ends below the beginning of every later one. -/
theorem Runs.pairwise {lo hi : Nat} {spans : List Span} (h : image.Runs hi lo spans) :
    spans.Pairwise fun s t => s.stop < t.start := by
  induction spans generalizing lo with
  | nil => exact List.Pairwise.nil
  | cons s rest ih =>
      obtain ⟨hfirst, hrest⟩ := h
      refine List.pairwise_cons.2 ⟨fun t ht => ?_, ih hrest⟩
      obtain ⟨hstart, hnonempty, hstop, htext⟩ := hrest.text t ht
      -- the byte behind a run is null unless the interval ends there
      rcases hfirst.closes with heq | hnull
      · omega
      · apply Nat.lt_of_le_of_ne hstart
        intro heq
        have hbyte := htext t.start (Nat.le_refl _) hnonempty
        rw [← heq, isText_eq_false_of_isNull hnull] at hbyte
        cases hbyte

theorem Runs.listsRuns {lo hi : Nat} {spans : List Span} (h : image.Runs hi lo spans)
    (hlo : image.Boundary lo) (hhi : image.Boundary hi) (hsize : hi ≤ image.size) :
    image.ListsRuns lo hi spans := by
  have hall := h.isRun hlo hhi hsize
  refine ⟨fun s => ⟨fun hs => ?_, fun hs => ?_⟩, h.pairwise⟩
  · obtain ⟨hstart, hnonempty, hstop, _⟩ := h.text s hs
    exact ⟨hall s hs, hstart, by omega⟩
  · exact h.mem_of_isRun hall hs.1 hs.2.1 hs.2.2

/-- There is only one list of all runs. -/
theorem ListsRuns.unique {lo hi : Nat} {spans others : List Span}
    (h : image.ListsRuns lo hi spans) (hothers : image.ListsRuns lo hi others) :
    spans = others := by
  have hnodup : ∀ list : List Span, image.ListsRuns lo hi list → list.Nodup := by
    intro list hlist
    refine hlist.ordered.imp_of_mem fun hs _ hlt heq => ?_
    have hnonempty := ((hlist.mem_iff _).1 hs).1.nonempty
    rw [heq] at hlt hnonempty
    omega
  have hperm : spans.Perm others := by
    refine (List.perm_ext_iff_of_nodup (hnodup _ h) (hnodup _ hothers)).2 fun s => ?_
    rw [h.mem_iff, hothers.mem_iff]
  refine hperm.eq_of_pairwise ?_ h.ordered hothers.ordered
  intro s t hs ht hlt hgt
  have hnonempty := ((h.mem_iff s).1 hs).1.nonempty
  have := ((hothers.mem_iff t).1 ht).1.nonempty
  omega

/-- Between two boundaries the runs of an interval are all the maximal runs that begin there. -/
theorem listsRuns_iff {lo hi : Nat} {spans : List Span} (hle : lo ≤ hi)
    (hlo : image.Boundary lo) (hhi : image.Boundary hi) (hsize : hi ≤ image.size) :
    image.ListsRuns lo hi spans ↔ image.Runs hi lo spans := by
  constructor
  · intro h
    obtain ⟨others, hothers⟩ := exists_runs hle hsize
    rw [h.unique (hothers.listsRuns hlo hhi hsize)]
    exact hothers
  · exact fun h => h.listsRuns hlo hhi hsize

/-- Between two boundaries there is one list of runs, and it is the list of all maximal runs. -/
theorem exists_listsRuns {lo hi : Nat} (hle : lo ≤ hi) (hlo : image.Boundary lo)
    (hhi : image.Boundary hi) (hsize : hi ≤ image.size) :
    ∃ spans, image.ListsRuns lo hi spans ∧
      ∀ others, image.Runs hi lo others ↔ others = spans := by
  obtain ⟨spans, hspans⟩ := exists_runs hle hsize
  have hlist := hspans.listsRuns hlo hhi hsize
  refine ⟨spans, hlist, fun others => ⟨fun h => (h.listsRuns hlo hhi hsize).unique hlist, ?_⟩⟩
  rintro rfl
  exact hspans

/-! ## The ends of a list of runs -/

/-- From the end of an interval the downward search finds its last run. -/
theorem Runs.stringBefore?_concat {lo hi : Nat} {spans : List Span} {s : Span}
    (h : image.Runs hi lo (spans ++ [s])) (hrun : image.IsRun s) :
    image.stringBefore? hi = some s := by
  obtain ⟨_, hfirst, _, hclear⟩ := h.split
  have hstart : s.start < hi := Nat.lt_of_lt_of_le hfirst.nonempty hfirst.stop_le
  exact stringBefore?_eq_some_iff.2 ⟨hrun, hstart, hclear⟩

/-- Below a bound the downward search finds the last run of the image. -/
theorem Runs.stringBefore?_eq {bound : Nat} {spans : List Span} (h : image.Runs bound 0 spans)
    (hall : ∀ s ∈ spans, image.IsRun s) : image.stringBefore? bound = spans.getLast? := by
  rcases List.eq_nil_or_concat' spans with rfl | ⟨front, s, rfl⟩
  · exact stringBefore?_eq_none_iff.2 h.2
  · rw [h.stringBefore?_concat (hall s (by simp)), List.getLast?_concat]

/-- From an offset on the upward search finds the first run. -/
theorem Runs.stringFrom?_eq {offset : Nat} {spans : List Span}
    (h : image.Runs image.size offset spans) : image.stringFrom? offset = spans.head? := by
  cases spans with
  | nil => exact (stringWithin?_eq_none_iff (Nat.le_refl _)).2 h.2
  | cons s rest => exact (stringWithin?_eq_some_iff (Nat.le_refl _)).2 h.1

end Image

end FirmwareSymbols
