import FirmwareSymbols.Proofs.StoredNames

/-!
# The string table of a linked image

The names of a layout stand in its image one behind the other. From any of
them both walks take just these: backward to the first name, where nothing
near is left to take, and forward to the last one.

## Main results

* `Linked.Lawful.stores`: where the names of a layout stand.
* `Linked.Apparent.readNames_eq`: the string table decodes to the names of
  the layout.
-/

namespace FirmwareSymbols

namespace Linked

variable {fw : Linked} {config : Config}

/-! ## The part that holds the names -/

theorem Lawful.boundary_below (h : fw.Lawful config) : fw.image.Boundary fw.below.length := by
  rcases h.opens with hnil | hlast
  · rw [hnil]
    exact .inl rfl
  · have hboundary := boundary_of_getLast? fw.holds_parts.1 hlast
    rwa [Nat.zero_add] at hboundary

theorem Lawful.stores (h : fw.Lawful config) :
    fw.image.Stores config fw.below.length fw.entries where
  stored := fw.holds_parts.2.1
  opens := h.boundary_below
  nonempty := by
    obtain ⟨first, next, rest, hentries⟩ := h.exists_entries
    rw [hentries]
    exact List.cons_ne_nil _ _
  isName := h.isName
  padded := h.padded

/-! ## The walks over the layout -/

/-- A foreign run is not taken if its gap is one that the walk looks at. -/
theorem Foreign.refused {gap required : Nat} {s : Span} {near : Bool}
    (h : fw.Foreign config gap s) (hnear : near = true → gap ≤ config.maxStringGap.toNat) :
    (near && (config.tableLimits required).isName fw.image s) = false := by
  rcases h with hfar | hname
  · cases near with
    | false => rfl
    | true =>
        have := hnear rfl
        omega
  · show (near && isFunctionName config.maxNameLength.toNat (fw.image.slice s)) = false
    rw [hname, Bool.and_false]

/-- Below the first name there is nothing that the backward walk takes, and if it is stopped there, it has
taken as many names as have to agree. -/
theorem Lawful.closedBelow (h : fw.Lawful config) {left right : List Placement} {p : Placement}
    (hsplit : fw.placed = left ++ p :: right) (hbelow : fw.ClosedBelow config left.length)
    (hcount : 0 < config.requiredCount fw.entries.length) (required : Nat) :
    (∀ s, fw.image.stringBefore? fw.below.length = some s →
      ((left.map Placement.span).head?.all ((config.tableLimits required).isNear s) &&
        (config.tableLimits required).isName fw.image s) = false) ∧
      ((fw.image.stringBefore? fw.below.length).isSome = true →
        config.requiredCount fw.entries.length ≤ left.length) := by
  rcases hbelow with hzero | ⟨henough, hforeign⟩
  · have hclear : fw.image.Clear 0 fw.below.length := by
      have := Image.clear_of_holds fw.holds_parts.1 hzero
      rwa [Nat.zero_add] at this
    have hnone := Image.stringBefore?_eq_none_iff.2 hclear
    rw [hnone]
    refine ⟨fun s hs => ?_, fun hsome => absurd hsome Bool.false_ne_true⟩
    cases hs
  · refine ⟨fun s hs => ?_, fun _ => henough⟩
    obtain ⟨hother, hbefore, hclear⟩ := Image.stringBefore?_eq_some_iff.1 hs
    have hstop := hother.stop_le_of_boundary hbefore h.boundary_below
    refine (hforeign s hother hstop hclear).refused fun hnear => ?_
    cases left with
    | nil =>
        have hnone : config.requiredCount fw.entries.length ≤ 0 := henough
        omega
    | cons q rest =>
        have hfirst : q.offset = fw.below.length := by
          obtain ⟨first, hhead, hstart⟩ := h.stores.head?_spans
          rw [show place fw.below.length fw.entries = fw.placed from rfl, hsplit] at hhead
          cases hhead
          exact hstart
        rw [← hfirst]
        exact of_decide_eq_true hnear

/-- Behind the last name there is nothing that the forward walk takes. -/
theorem Lawful.closedAbove (h : fw.Lawful config) (habove : fw.ClosedAbove config)
    (required : Nat) :
    ∀ s, fw.image.stringFrom? fw.namesStop = some s →
      (decide (s.start - fw.namesStop ≤ config.maxStringGap.toNat) &&
        (config.tableLimits required).isName fw.image s) = false := by
  intro s hs
  have hfirst := (Image.stringWithin?_eq_some_iff (Nat.le_refl _)).1 hs
  have hruns := h.stores.runs
  obtain ⟨last, hlast, hstop⟩ := h.stores.getLast?_spans
  obtain ⟨hle, hclear⟩ : fw.namesStop ≤ fw.stringsStop ∧
      fw.image.Clear fw.namesStop fw.stringsStop := h.stores.clear_behind
  have hclosed : fw.image.Boundary fw.namesStop := by
    have hrun := hruns.isRun h.stores.opens h.stores.boundary_stop h.stores.stop_le_size last
      (List.mem_of_getLast? hlast)
    rw [show fw.namesStop = last.stop from hstop.symm]
    exact Image.boundary_of_closes hrun.closes
  have hother : fw.image.IsRun s := hfirst.isRun hclosed
    (Image.boundary_size fw.image) (Nat.le_refl _)
  have hbehind : fw.stringsStop ≤ s.start := by
    rcases Nat.lt_or_ge s.start fw.stringsStop with hlt | hge
    · have htext := hfirst.text s.start (Nat.le_refl _) hfirst.nonempty
      rw [hclear s.start hfirst.le_start hlt] at htext
      cases htext
    · exact hge
  have hgap : fw.image.Clear fw.stringsStop s.start :=
    fun offset hlo hhi => hfirst.clear offset (Nat.le_trans hle hlo) hhi
  exact (habove s hother hbehind hgap).refused of_decide_eq_true

/-- From a name of the layout the whole string table is located. -/
theorem Apparent.locate_eq (hclear : fw.Apparent config) (h : fw.Lawful config)
    (hcount : 0 < config.requiredCount fw.entries.length) :
    ∃ anchor, fw.image.anchor? config.anchorNames = some anchor ∧
      (config.tableLimits (config.requiredCount fw.entries.length)).locate fw.image
        anchor.offset =
          some ⟨⟨fw.below.length, fw.namesStop⟩, fw.placed.map Placement.span⟩ := by
  obtain ⟨a, p, anchor, hp, hanchor, hoffset, hbelow⟩ := hclear.anchored
  obtain ⟨ha, rfl⟩ := List.getElem?_eq_some_iff.1 hp
  have hsplit : fw.placed = fw.placed.take a ++ fw.placed[a] :: fw.placed.drop (a + 1) := by
    rw [← List.drop_eq_getElem_cons ha, List.take_append_drop]
  have hleft : (fw.placed.take a).length = a := by
    rw [List.length_take]
    omega
  rw [← hleft] at hbelow
  obtain ⟨hforeign, hstopped⟩ := h.closedBelow hsplit hbelow hcount
    (config.requiredCount fw.entries.length)
  refine ⟨anchor, hanchor, ?_⟩
  rw [hoffset]
  exact h.stores.locate_eq _ hsplit hforeign (h.closedAbove hclear.closedAbove _) hstopped
    (Nat.min_le_left _ _)

/-- The second half of an analysis recovers the string table. -/
theorem Apparent.readNames_eq (hclear : fw.Apparent config) (h : fw.Lawful config)
    (hcount : 0 < config.requiredCount fw.entries.length) :
    config.readNames fw.image (config.requiredCount fw.entries.length) =
      some ⟨⟨fw.below.length, fw.namesStop⟩, namesOf fw.placed⟩ := by
  obtain ⟨anchor, hanchor, hlocated⟩ := hclear.locate_eq h hcount
  exact h.stores.readNames_eq _ hanchor hlocated

end Linked

end FirmwareSymbols
