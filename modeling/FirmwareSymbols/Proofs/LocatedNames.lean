import FirmwareSymbols.Analysis
import FirmwareSymbols.Proofs.NullFreeRun
import Mathlib.Data.List.Forall2

/-!
# The names of a located table

The string table is found by two walks that go outward from an anchor, and
then it is split again from its extent alone. This file joins the two:
both walks take runs that follow each other, and splitting the extent
gives back the runs that were taken.

## Main results

* `Image.namesFrom_eq_entries`: splitting an interval gives one entry for
  each of its runs.
* `TableLimits.growBack_runs`, `TableLimits.growForward_runs`: what a walk
  takes are the runs of an interval.
* `TableLimits.locate_runs`: what is located are the runs of the extent.
* `TableLimits.namesWithin_of_locate`: splitting the extent gives back the
  names that were located.
* `Config.readNames_entries`: the decoded table has one entry for each of
  them.
-/

namespace FirmwareSymbols

namespace Image

variable {image : Image}

/-! ## Splitting an interval -/

/-- Where an entry ends: where the next run begins, or with the interval, or behind the null that
follows the interval. -/
def entryStop (image : Image) (bound : Nat) : List Span → Nat
  | [] => if image.get? bound = some 0 then bound + 1 else bound
  | t :: _ => t.start

/-- The entries of an interval that ends at a bound, given its runs. -/
def entries (image : Image) (bound : Nat) : List Span → List Name
  | [] => []
  | s :: rest =>
    ⟨s.start, image.slice s, image.entryStop bound rest - s.start⟩ :: image.entries bound rest

theorem mem_entries {bound : Nat} {spans : List Span} {name : Name}
    (h : name ∈ image.entries bound spans) :
    ∃ s ∈ spans, name.address = s.start ∧ name.bytes = image.slice s := by
  induction spans with
  | nil => cases h
  | cons s rest ih =>
      rw [entries] at h
      rcases List.mem_cons.1 h with rfl | hrest
      · exact ⟨s, List.mem_cons_self .., rfl, rfl⟩
      · obtain ⟨t, ht, heq⟩ := ih hrest
        exact ⟨t, List.mem_cons_of_mem s ht, heq⟩

theorem length_entries (image : Image) (bound : Nat) (spans : List Span) :
    (image.entries bound spans).length = spans.length := by
  induction spans with
  | nil => rfl
  | cons s rest ih => rw [entries, List.length_cons, List.length_cons, ih]

/-- An entry is that of a span: it begins where the span does and holds all of its bytes. -/
structure IsEntryOf (image : Image) (name : Name) (s : Span) : Prop where
  address : name.address = s.start
  bytes : name.bytes = image.slice s
  whole : name.address + name.bytes.length = s.stop

/-- Each span of the image gives one entry, which is its own. -/
theorem forall₂_isEntryOf_entries (bound : Nat) (spans : List Span)
    (h : ∀ s ∈ spans, image.IsRun s) :
    List.Forall₂ image.IsEntryOf (image.entries bound spans) spans := by
  induction spans with
  | nil => exact List.Forall₂.nil
  | cons s rest ih =>
      have hrun := h s List.mem_cons_self
      have hnonempty := hrun.nonempty
      have hinside := hrun.inside
      have hlength : (image.slice s).length = s.stop - s.start :=
        length_window (by simp only [Span.length]; omega)
      refine List.Forall₂.cons ⟨rfl, rfl, ?_⟩ (ih fun t ht => h t (List.mem_cons_of_mem s ht))
      show s.start + (image.slice s).length = s.stop
      omega

/-- The text behind a run of an interval is the next run, or there is none up to the bound. -/
theorem Runs.nextText_eq {lo hi : Nat} {spans : List Span} (h : image.Runs hi lo spans)
    (hsize : hi ≤ image.size) :
    image.nextText lo hi = (spans.head?.map Span.start).getD hi := by
  rw [nextText_eq_iff h.le hsize]
  cases spans with
  | nil => exact ⟨h.1, Nat.le_refl _, h.2, .inl rfl⟩
  | cons t rest =>
      obtain ⟨hfirst, _⟩ := h
      have hnonempty := hfirst.nonempty
      have hstop := hfirst.stop_le
      exact ⟨hfirst.le_start, show t.start ≤ hi by omega, hfirst.clear,
        .inr (hfirst.text t.start (Nat.le_refl _) hnonempty)⟩

/-- The search for the next entry may as well begin at the next text. -/
theorem Runs.from_nextText {lo hi : Nat} {spans : List Span} (h : image.Runs hi lo spans)
    (hsize : hi ≤ image.size) : image.Runs hi (image.nextText lo hi) spans := by
  rw [h.nextText_eq hsize]
  cases spans with
  | nil => exact ⟨Nat.le_refl _, clear_of_le (Nat.le_refl _)⟩
  | cons t rest =>
      obtain ⟨hfirst, hrest⟩ := h
      refine ⟨?_, hrest⟩
      exact { hfirst with le_start := Nat.le_refl _, clear := clear_of_le (Nat.le_refl _) }

/-- The place of the next entry, as the walk over an interval computes it. -/
theorem Runs.stop_eq {lo hi : Nat} {spans : List Span} (h : image.Runs hi lo spans)
    (hsize : hi ≤ image.size) :
    (if image.nextText lo hi = hi ∧ image.get? hi = some 0 then hi + 1
      else image.nextText lo hi) = image.entryStop hi spans := by
  rw [h.nextText_eq hsize]
  cases spans with
  | nil => simp [entryStop]
  | cons t rest =>
      obtain ⟨hfirst, _⟩ := h
      have hnonempty := hfirst.nonempty
      have hstop := hfirst.stop_le
      have hne : ¬ t.start = hi := by omega
      simp [entryStop, hne]

/-- Splitting an interval gives one entry for each of its runs, in order. -/
theorem namesFrom_eq_entries {hi : Nat} (hsize : hi ≤ image.size) (spans : List Span) :
    ∀ (lo : Nat) (read : List Name), image.Runs hi lo spans →
      image.namesFrom hi read lo = read.reverse ++ image.entries hi spans := by
  induction spans with
  | nil =>
      intro lo read h
      have hnone : image.name? lo hi = none := by
        rw [name?, (stringWithin?_eq_none_iff hsize).2 h.2]
        rfl
      rw [namesFrom]
      split
      · rw [entries, List.append_nil]
      · rename_i hsome
        rw [hnone] at hsome
        cases hsome
  | cons s rest ih =>
      intro lo read h
      obtain ⟨hfirst, hrest⟩ := h
      have hname : image.name? lo hi =
          some (⟨s.start, image.slice s, image.entryStop hi rest - s.start⟩,
            image.nextText s.stop hi) := by
        rw [name?, (stringWithin?_eq_some_iff hsize).2 hfirst, Option.map_some,
          ← hrest.stop_eq hsize]
      rw [namesFrom]
      split
      · rename_i hnone
        rw [hname] at hnone
        cases hnone
      · rename_i name next hsome
        rw [hname] at hsome
        obtain ⟨rfl, rfl⟩ := Prod.mk.inj (Option.some.inj hsome)
        rw [ih _ _ (hrest.from_nextText hsize), entries]
        simp

/-- The entries of a span that its runs fill. -/
theorem namesWithin_eq_entries {table : Span} {spans : List Span}
    (hsize : table.stop ≤ image.size) (h : image.Runs table.stop table.start spans) :
    image.namesWithin table = image.entries table.stop spans := by
  rw [namesWithin, Nat.min_eq_left hsize, namesFrom_eq_entries hsize spans _ _ h]
  rfl

/-! ## The anchor -/

/-- An anchor stands behind a null of the image. -/
theorem isNull_of_anchor? {names : List String} {anchor : Anchor}
    (h : image.anchor? names = some anchor) :
    0 < anchor.offset ∧ image.isNull (anchor.offset - 1) = true := by
  induction names with
  | nil => cases h
  | cons name rest ih =>
      rw [anchor?] at h
      split at h
      · exact ih h
      · split at h
        · rename_i offset hfind
          obtain ⟨_, hholds, _⟩ := find?_eq_some_iff.1 hfind
          have hzero := holds_iff.1 hholds 0 (by simp)
          cases h
          exact ⟨Nat.succ_pos offset, isNull_iff.2 (by simpa using hzero)⟩
        · exact ih h

end Image

namespace TableLimits

variable {limits : TableLimits} {image : Image}

/-! ## The two walks -/

/-- One step of the backward walk. -/
theorem growBack_step {taken : List Span} {bound : Nat} {s : Span}
    (hfound : image.stringBefore? bound = some s)
    (hnear : taken.head?.all (limits.isNear s) = true) (hname : limits.isName image s = true) :
    limits.growBack image taken bound = limits.growBack image (s :: taken) s.start := by
  rw [growBack]
  split
  · rename_i hnone
    rw [hfound] at hnone
    cases hnone
  · rename_i t hsome
    rw [hfound] at hsome
    cases hsome
    rw [hnear, hname]
    rfl

/-- Where the backward walk ends. -/
theorem growBack_of_foreign {taken : List Span} {bound : Nat}
    (hforeign : ∀ s, image.stringBefore? bound = some s →
      (taken.head?.all (limits.isNear s) && limits.isName image s) = false) :
    limits.growBack image taken bound = ⟨taken, (image.stringBefore? bound).isSome⟩ := by
  rw [growBack]
  split
  · rename_i hnone
    rw [hnone]
    rfl
  · rename_i s hsome
    rw [hforeign s hsome, hsome]
    rfl

/-- One step of the forward walk. -/
theorem growForward_step {taken : List Span} {offset : Nat} {s : Span}
    (hfound : image.stringFrom? offset = some s)
    (hnear : taken.head?.all (limits.isNear · s) = true)
    (hname : limits.isName image s = true) :
    limits.growForward image taken offset = limits.growForward image (s :: taken) s.stop := by
  rw [growForward]
  split
  · rename_i hnone
    rw [hfound] at hnone
    cases hnone
  · rename_i t hsome
    rw [hfound] at hsome
    cases hsome
    rw [hnear, hname]
    rfl

/-- Where the forward walk ends. -/
theorem growForward_of_foreign {taken : List Span} {offset : Nat}
    (hforeign : ∀ s, image.stringFrom? offset = some s →
      (taken.head?.all (limits.isNear · s) && limits.isName image s) = false) :
    limits.growForward image taken offset = ⟨taken, (image.stringFrom? offset).isSome⟩ := by
  rw [growForward]
  split
  · rename_i hnone
    rw [hnone]
    rfl
  · rename_i s hsome
    rw [hforeign s hsome, hsome]
    rfl

/-- What the backward walk takes below a boundary are the runs of an interval that ends there. -/
theorem growBack_runs (limits : TableLimits) (taken : List Span) (bound : Nat) (hbound : image.Boundary bound)
    (hsize : bound ≤ image.size) :
    ∃ lo new, (limits.growBack image taken bound).names = new ++ taken ∧
      image.Boundary lo ∧ image.Runs bound lo new ∧
      ∀ s ∈ new, limits.isName image s = true := by
  fun_induction growBack limits image taken bound with
  | case1 taken bound hnone =>
      refine ⟨bound, [], rfl, hbound, ⟨Nat.le_refl _, ?_⟩, fun s hs => absurd hs List.not_mem_nil⟩
      exact Image.clear_of_le (Nat.le_refl _)
  | case2 taken bound s hsome hok ih =>
      obtain ⟨hrun, hstart, hclear⟩ := Image.stringBefore?_eq_some_iff.1 hsome
      have hstop := hrun.stop_le_of_boundary hstart hbound
      obtain ⟨lo, new, hnames, hlo, hruns, hall⟩ := ih hrun.boundary_start (by omega)
      have hone : image.Runs bound s.start [s] := by
        refine ⟨⟨Nat.le_refl _, Image.clear_of_le (Nat.le_refl _), hrun.nonempty, hrun.text,
          hstop, ?_⟩, hstop, hclear⟩
        rcases hrun.closes with heq | hnull
        · exact .inl (by omega)
        · exact .inr hnull
      refine ⟨lo, new ++ [s], ?_, hlo, hruns.append hrun.boundary_start hsize hone, ?_⟩
      · rw [hnames, List.append_assoc]
        rfl
      · intro t ht
        rcases List.mem_append.1 ht with ht | ht
        · exact hall t ht
        · rw [List.mem_singleton.1 ht]
          simp only [Bool.and_eq_true] at hok
          exact hok.2
  | case3 taken bound s hsome hok =>
      refine ⟨bound, [], rfl, hbound, ⟨Nat.le_refl _, ?_⟩, fun s hs => absurd hs List.not_mem_nil⟩
      exact Image.clear_of_le (Nat.le_refl _)

/-- What the forward walk takes from a boundary on are the runs of an interval that begins there. -/
theorem growForward_runs (limits : TableLimits) (taken : List Span) (offset : Nat) (hoffset : image.Boundary offset)
    (hsize : offset ≤ image.size) :
    ∃ hi new, (limits.growForward image taken offset).names = new.reverse ++ taken ∧
      image.Boundary hi ∧ hi ≤ image.size ∧ image.Runs hi offset new ∧
      ∀ s ∈ new, limits.isName image s = true := by
  fun_induction growForward limits image taken offset with
  | case1 taken offset hnone =>
      refine ⟨offset, [], rfl, hoffset, hsize, ⟨Nat.le_refl _, ?_⟩, fun s hs => absurd hs List.not_mem_nil⟩
      exact Image.clear_of_le (Nat.le_refl _)
  | case2 taken offset s hsome hok ih =>
      have hfirst := (Image.stringWithin?_eq_some_iff (Nat.le_refl _)).1 hsome
      have hrun := hfirst.isRun hoffset (Image.boundary_size image) (Nat.le_refl _)
      obtain ⟨hi, new, hnames, hhi, hle, hruns, hall⟩ :=
        ih (Image.boundary_of_closes hrun.closes) hrun.inside
      have hstop := hruns.le
      refine ⟨hi, s :: new, ?_, hhi, hle, ⟨?_, hruns⟩, ?_⟩
      · rw [hnames, List.reverse_cons, List.append_assoc]
        rfl
      · refine { hfirst with stop_le := hstop, closes := ?_ }
        rcases hrun.closes with heq | hnull
        · exact .inl (by omega)
        · exact .inr hnull
      · intro t ht
        rcases List.mem_cons.1 ht with rfl | ht
        · simp only [Bool.and_eq_true] at hok
          exact hok.2
        · exact hall t ht
  | case3 taken offset s hsome hok =>
      refine ⟨offset, [], rfl, hoffset, hsize, ⟨Nat.le_refl _, ?_⟩, fun s hs => absurd hs List.not_mem_nil⟩
      exact Image.clear_of_le (Nat.le_refl _)

/-! ## The located table -/

/-- The outcome of both walks, if a table is located. -/
theorem locate_eq_some_iff {anchor : Nat} {table : LocatedTable} :
    limits.locate image anchor = some table ↔
      ((limits.growBack image [] anchor).stopped = true →
        limits.required ≤ (limits.growBack image [] anchor).names.length) ∧
      table.names = (limits.growBack image [] anchor).names ++
        (limits.growForward image [] anchor).names.reverse ∧
      limits.required ≤ table.names.length ∧
      ∃ first last, table.names.head? = some first ∧ table.names.getLast? = some last ∧
        table.extent = ⟨first.start, last.stop⟩ := by
  unfold locate
  dsimp only
  generalize limits.growBack image [] anchor = back
  generalize limits.growForward image [] anchor = forward
  by_cases hstuck : (back.stopped && decide (back.names.length < limits.required)) = true
  · -- the backward walk was stopped too early
    rw [if_pos hstuck]
    simp only [Bool.and_eq_true, decide_eq_true_eq] at hstuck
    constructor
    · intro h
      cases h
    · rintro ⟨henough, _⟩
      have := henough hstuck.1
      omega
  · rw [if_neg hstuck]
    simp only [Bool.and_eq_true, decide_eq_true_eq] at hstuck
    have henough : back.stopped = true → limits.required ≤ back.names.length :=
      fun hstopped => Nat.le_of_not_lt fun hlt => hstuck ⟨hstopped, hlt⟩
    generalize hnames : back.names ++ forward.names.reverse = names
    by_cases hfew : names.length < limits.required
    · rw [if_pos hfew]
      constructor
      · intro h
        cases h
      · rintro ⟨_, heq, hcount, _⟩
        rw [heq] at hcount
        omega
    · rw [if_neg hfew]
      cases hfirst : names.head? with
      | none =>
          simp only [reduceCtorEq, false_iff, not_and, not_exists]
          intro _ heq _ first last hhead
          rw [heq, hfirst] at hhead
          cases hhead
      | some first =>
          cases hlast : names.getLast? with
          | none =>
              simp only [reduceCtorEq, false_iff, not_and, not_exists]
              intro _ heq _ first' last _ htail
              rw [heq, hlast] at htail
              cases htail
          | some last =>
              simp only [Option.some.injEq]
              constructor
              · rintro rfl
                exact ⟨henough, rfl, Nat.le_of_not_lt hfew, first, last, hfirst, hlast, rfl⟩
              · rintro ⟨_, heq, _, first', last', hhead, htail, hextent⟩
                rw [heq, hfirst] at hhead
                rw [heq, hlast] at htail
                cases hhead
                cases htail
                cases table
                simp only at heq hextent
                rw [heq, hextent]

/-- A table that is located at a boundary consists of the runs of its extent. They are maximal, and
each could be the name of a function. -/
theorem locate_runs {anchor : Nat} {table : LocatedTable} (hanchor : image.Boundary anchor)
    (hsize : anchor ≤ image.size) (h : limits.locate image anchor = some table) :
    table.extent.stop ≤ image.size ∧
      image.Runs table.extent.stop table.extent.start table.names ∧
      ∀ s ∈ table.names, image.IsRun s ∧ limits.isName image s = true := by
  obtain ⟨_, hnames, _, first, last, hfirst, hlast, hextent⟩ := locate_eq_some_iff.1 h
  obtain ⟨lo, below, hback, hlo, hbelow, hbelowNames⟩ :=
    growBack_runs limits [] anchor hanchor hsize
  obtain ⟨hi, above, hforward, hhi, hle, habove, haboveNames⟩ :=
    growForward_runs limits [] anchor hanchor hsize
  rw [hback, hforward, List.append_nil, List.append_nil, List.reverse_reverse] at hnames
  have hruns : image.Runs hi lo table.names := by
    rw [hnames]
    exact hbelow.append hanchor hle habove
  have hall := hruns.isRun hlo hhi hle
  have htrim := hruns.trim hfirst hlast
  rw [hextent]
  refine ⟨(hall last (List.mem_of_getLast? hlast)).inside, htrim, ?_⟩
  intro s hs
  refine ⟨hall s hs, ?_⟩
  rw [hnames] at hs
  rcases List.mem_append.1 hs with hs | hs
  · exact hbelowNames s hs
  · exact haboveNames s hs

/-- Splitting the extent of a located table gives back its names, one entry for each and in the same
order: none is skipped, merged with another or cut off. The anchor may be any offset behind a null, or
the beginning of the image. -/
theorem namesWithin_of_locate {anchor : Nat} {table : LocatedTable}
    (hanchor : anchor = 0 ∨ image.isNull (anchor - 1) = true)
    (hlocated : limits.locate image anchor = some table) :
    List.Forall₂ image.IsEntryOf (image.namesWithin table.extent) table.names ∧
      limits.required ≤ (image.namesWithin table.extent).length ∧
      ∀ name ∈ image.namesWithin table.extent,
        isFunctionName limits.maxNameLength name.bytes = true := by
  have hboundary : image.Boundary anchor := by
    rcases hanchor with hzero | hnull
    · exact .inl hzero
    · exact Image.boundary_of_isNull_pred hnull
  have hsize : anchor ≤ image.size := by
    rcases hanchor with hzero | hnull
    · omega
    · have := Image.lt_size_of_isNull hnull
      omega
  obtain ⟨hstop, hruns, hall⟩ := locate_runs hboundary hsize hlocated
  have hentries := Image.namesWithin_eq_entries hstop hruns
  have hown : List.Forall₂ image.IsEntryOf (image.namesWithin table.extent) table.names := by
    rw [hentries]
    exact Image.forall₂_isEntryOf_entries _ _ fun s hs => (hall s hs).1
  refine ⟨hown, ?_, ?_⟩
  · rw [hown.length_eq]
    exact (locate_eq_some_iff.1 hlocated).2.2.1
  · intro name hname
    rw [hentries] at hname
    obtain ⟨s, hs, _, hbytes⟩ := Image.mem_entries hname
    rw [hbytes]
    exact (hall s hs).2

/-- A format string, and behind it the names `ls`, `cd` and `bz`, of which no null ends the last. -/
def openNames : Image := .ofList [0x25, 0x64, 0, 0x6c, 0x73, 0, 0, 0x63, 0x64, 0, 0x62, 0x7a]

/-- Around `cd` all three names are located, and its extent splits into them. -/
theorem namesWithin_openNames :
    openNames.isNull (7 - 1) = true ∧
      locate ⟨1, 255, 4⟩ openNames 7 = some ⟨⟨3, 12⟩, [⟨3, 5⟩, ⟨7, 9⟩, ⟨10, 12⟩]⟩ ∧
      openNames.namesWithin ⟨3, 12⟩ =
        [⟨3, [0x6c, 0x73], 4⟩, ⟨7, [0x63, 0x64], 3⟩, ⟨10, [0x62, 0x7a], 2⟩] ∧
      List.Forall₂ openNames.IsEntryOf (openNames.namesWithin ⟨3, 12⟩)
        [⟨3, 5⟩, ⟨7, 9⟩, ⟨10, 12⟩] := by
  have hnull : openNames.isNull (7 - 1) = true := by decide +kernel
  have hlocated : locate ⟨1, 255, 4⟩ openNames 7 =
      some ⟨⟨3, 12⟩, [⟨3, 5⟩, ⟨7, 9⟩, ⟨10, 12⟩]⟩ := by decide +kernel
  exact ⟨hnull, hlocated, by decide +kernel, (namesWithin_of_locate (.inr hnull) hlocated).1⟩

end TableLimits

namespace Config

/-- The decoded string table has one entry for each name that was located, and it has some: each is a
maximal run of the image that could be the name of a function. -/
theorem readNames_entries {config : Config} {image : Image} {required : Nat}
    {table : StringTable} (h : config.readNames image required = some table) :
    ∃ spans, spans ≠ [] ∧ table.names = image.entries table.extent.stop spans ∧
      table.extent.stop ≤ image.size ∧
      image.Runs table.extent.stop table.extent.start spans ∧
      ∀ s ∈ spans, image.IsRun s ∧
        isFunctionName config.maxNameLength.toNat (image.slice s) = true := by
  simp only [readNames, Option.bind_eq_bind, Option.bind_eq_some_iff] at h
  obtain ⟨anchor, hanchor, located, hlocated, htable⟩ := h
  cases htable
  obtain ⟨hpos, hnull⟩ := Image.isNull_of_anchor? hanchor
  have hinside := Image.lt_size_of_isNull hnull
  obtain ⟨hsize, hruns, hall⟩ := TableLimits.locate_runs
    (Image.boundary_of_isNull_pred hnull) (by omega) hlocated
  obtain ⟨_, _, _, first, _, hfirst, _⟩ := TableLimits.locate_eq_some_iff.1 hlocated
  refine ⟨located.names, ?_, Image.namesWithin_eq_entries hsize hruns, hsize, hruns, hall⟩
  intro hnil
  rw [hnil] at hfirst
  cases hfirst

end Config

end FirmwareSymbols
