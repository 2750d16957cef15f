import FirmwareSymbols.CommandLine.Run
import Mathlib.Data.List.Basic

/-!
# Addresses from the command line

A probe tries its candidates in order, so their order is a preference.
The addresses on the command line come behind those of the settings, and
one that is a candidate already is not added again. The candidate that a
probe answers with is the first that passes, and a repeated candidate is
never the first; so leaving repetitions out changes no answer, and no
address on the command line displaces one that the settings name.

## Main definitions

* `FirstOccurrences`: what is new in a second list of addresses.

## Main results

* `exists_mergeAddresses_eq_append`: what is added to a list of addresses.
* `find?_mergeAddresses`: repetitions do not matter to a search.
* `Options.knownAddresses_override`: the candidates of a run.
-/

namespace FirmwareSymbols

/-! ## What is new in a list -/

/-- The addresses of `more` that are not among `addresses`, each once, in the order in which they first
occur in `more`. -/
structure FirstOccurrences (addresses more fresh : List UInt32) : Prop where
  mem_iff : ∀ a, a ∈ fresh ↔ a ∈ more ∧ a ∉ addresses
  inOrder : fresh.Pairwise fun a b => more.idxOf a < more.idxOf b

section FirstOccurrences

variable {addresses more fresh : List UInt32} {a : UInt32}

theorem FirstOccurrences.nodup (h : FirstOccurrences addresses more fresh) : fresh.Nodup :=
  h.inOrder.imp fun hlt heq => absurd hlt (by rw [heq]; exact Nat.lt_irrefl _)

/-- There is only one list of what is new. -/
theorem FirstOccurrences.unique {other : List UInt32} (h : FirstOccurrences addresses more fresh)
    (hother : FirstOccurrences addresses more other) : fresh = other := by
  have hperm : fresh.Perm other := by
    rw [List.perm_ext_iff_of_nodup h.nodup hother.nodup]
    intro a
    rw [h.mem_iff, hother.mem_iff]
  exact hperm.eq_of_pairwise (fun _ _ _ _ hab hba => absurd hab (Nat.lt_asymm hba)) h.inOrder
    hother.inOrder

theorem firstOccurrences_nil (addresses : List UInt32) : FirstOccurrences addresses [] [] :=
  ⟨fun a => by simp, List.Pairwise.nil⟩

/-- An address in front delays the first occurrences of all others alike. -/
theorem inOrder_cons (hne : a ∉ fresh)
    (h : fresh.Pairwise fun b c => more.idxOf b < more.idxOf c) :
    fresh.Pairwise fun b c => (a :: more).idxOf b < (a :: more).idxOf c := by
  refine h.imp_of_mem fun {b c} hb hc hlt => ?_
  have hba : a ≠ b := fun heq => hne (heq ▸ hb)
  have hca : a ≠ c := fun heq => hne (heq ▸ hc)
  rw [List.idxOf_cons_ne _ hba, List.idxOf_cons_ne _ hca]
  exact Nat.succ_lt_succ hlt

/-- An address that is known already is not new. -/
theorem FirstOccurrences.cons_known (h : FirstOccurrences addresses more fresh)
    (ha : a ∈ addresses) : FirstOccurrences addresses (a :: more) fresh := by
  have hne : a ∉ fresh := fun hmem => ((h.mem_iff a).1 hmem).2 ha
  refine ⟨fun b => ?_, inOrder_cons hne h.inOrder⟩
  rw [h.mem_iff, List.mem_cons]
  constructor
  · rintro ⟨hmore, hb⟩
    exact ⟨.inr hmore, hb⟩
  · rintro ⟨rfl | hmore, hb⟩
    · exact absurd ha hb
    · exact ⟨hmore, hb⟩

/-- Any other address is new, and it is known from there on. -/
theorem FirstOccurrences.cons_new (h : FirstOccurrences (addresses ++ [a]) more fresh)
    (ha : a ∉ addresses) : FirstOccurrences addresses (a :: more) (a :: fresh) := by
  have hne : a ∉ fresh := fun hmem => ((h.mem_iff a).1 hmem).2 (by simp)
  constructor
  · intro b
    rw [List.mem_cons, List.mem_cons, h.mem_iff, List.mem_append, List.mem_singleton, not_or]
    constructor
    · rintro (rfl | ⟨hmore, hb, _⟩)
      · exact ⟨.inl rfl, ha⟩
      · exact ⟨.inr hmore, hb⟩
    · rintro ⟨rfl | hmore, hb⟩
      · exact .inl rfl
      · by_cases heq : b = a
        · exact .inl heq
        · exact .inr ⟨hmore, hb, heq⟩
  · refine List.pairwise_cons.2 ⟨fun b hb => ?_, inOrder_cons hne h.inOrder⟩
    have hba : a ≠ b := fun heq => hne (heq ▸ hb)
    rw [List.idxOf_cons_self, List.idxOf_cons_ne _ hba]
    exact Nat.succ_pos _

end FirstOccurrences

/-! ## Merged lists -/

/-- The loop tests membership in the list that it extends. -/
theorem mergeAddresses_cons (addresses more : List UInt32) (a : UInt32) :
    mergeAddresses addresses (a :: more) =
      mergeAddresses (if a ∈ addresses then addresses else addresses ++ [a]) more := by
  rw [mergeAddresses, List.foldl_cons, mergeAddresses]
  simp only [List.contains_iff_mem]

/-- What is added to a list of addresses is what is new, and nothing else changes. -/
theorem exists_mergeAddresses_eq_append (addresses more : List UInt32) :
    ∃ fresh, mergeAddresses addresses more = addresses ++ fresh ∧
      FirstOccurrences addresses more fresh := by
  induction more generalizing addresses with
  | nil => exact ⟨[], (List.append_nil _).symm, firstOccurrences_nil addresses⟩
  | cons a more ih =>
      rw [mergeAddresses_cons]
      by_cases ha : a ∈ addresses
      · rw [if_pos ha]
        obtain ⟨fresh, hmerged, hfresh⟩ := ih addresses
        exact ⟨fresh, hmerged, hfresh.cons_known ha⟩
      · rw [if_neg ha]
        obtain ⟨fresh, hmerged, hfresh⟩ := ih (addresses ++ [a])
        refine ⟨a :: fresh, ?_, hfresh.cons_new ha⟩
        rw [hmerged, List.append_assoc, List.singleton_append]

/-- A search for the first address with a property does not notice that repetitions are left out. -/
theorem find?_mergeAddresses (p : UInt32 → Bool) (addresses more : List UInt32) :
    (mergeAddresses addresses more).find? p = (addresses ++ more).find? p := by
  induction more generalizing addresses with
  | nil => rw [List.append_nil]; rfl
  | cons a more ih =>
      rw [mergeAddresses_cons, ih]
      by_cases ha : a ∈ addresses
      · rw [if_pos ha, List.find?_append, List.find?_append]
        cases hfound : addresses.find? p with
        | some b => rfl
        | none =>
            -- the known address has been tried before, so it cannot pass now
            have hfails : ¬ p a = true := List.find?_eq_none.1 hfound a ha
            rw [List.find?_cons_of_neg hfails]
      · rw [if_neg ha, List.append_assoc, List.singleton_append]

namespace Options

/-! ## The candidates of a run -/

/-- The settings that the options of a run change: those in a file, or the defaults. -/
def StartsFrom (options : Options) (files : Files) (base : Config) : Prop :=
  (options.configFile = none ∧ base = {}) ∨
    ∃ name, options.configFile = some name ∧ files.loadConfig name = .ok base

theorem config_eq_ok_iff {options : Options} {files : Files} {config : Config} :
    options.config files = .ok config ↔
      ∃ base, options.StartsFrom files base ∧ config = options.override base := by
  unfold Options.config StartsFrom
  cases options.configFile with
  | none => simp [pure, Except.pure, eq_comm]
  | some name =>
      cases hload : files.loadConfig name with
      | ok base => simp [hload, Failure.during, bind, Except.bind, pure, Except.pure, eq_comm]
      | error fault => simp [hload, Failure.during, bind, Except.bind]

/-- The candidates of a run are those of the settings as they are, followed by what is new on the command
line. A probe of them answers what it answers for both lists one behind the other; so it never answers with
an address of the command line where one of the settings passes. -/
theorem knownAddresses_override (options : Options) (base : Config) :
    (∃ fresh, (options.override base).knownAddresses = base.knownAddresses ++ fresh ∧
      ∀ other, FirstOccurrences base.knownAddresses options.knownAddresses other ↔
        other = fresh) ∧
    (∀ (image : Image) symbols count,
      image.probe symbols count (options.override base).knownAddresses =
        image.probe symbols count (base.knownAddresses ++ options.knownAddresses)) ∧
    (∀ (image : Image) symbols count load,
      image.probe symbols count base.knownAddresses = some load →
      image.probe symbols count (options.override base).knownAddresses = some load) ∧
    ∀ files config, options.config files = .ok config ↔
      ∃ settings, options.StartsFrom files settings ∧ config = options.override settings := by
  obtain ⟨fresh, hmerged, hfresh⟩ :=
    exists_mergeAddresses_eq_append base.knownAddresses options.knownAddresses
  have hprobe : ∀ (image : Image) symbols count,
      image.probe symbols count (options.override base).knownAddresses =
        image.probe symbols count (base.knownAddresses ++ options.knownAddresses) :=
    fun image symbols count => find?_mergeAddresses _ _ _
  refine ⟨⟨fresh, hmerged, fun other => ⟨fun h => h.unique hfresh, ?_⟩⟩, hprobe, ?_,
    fun files config => config_eq_ok_iff⟩
  · rintro rfl
    exact hfresh
  · intro image symbols count load hfound
    rw [hprobe, Image.probe, List.find?_append, ← Image.probe, hfound]
    rfl

/-- An image with one name in it, at offset 4. -/
def shortNames : Image := .ofList [0, 0, 0, 0, 0x6c, 0x73, 0x6f, 0x66, 0]

/-- A symbol whose name is at that offset if the image is loaded at `0x1000`. -/
def lateSymbol : Symbol :=
  { offset := 0, nameAddress := 0x1004, destAddress := 0x2000, nameLength := none, flags := 0x500,
    typeCode := 5 }

/-- A command line that names a known address and, twice, another one at which the probe would pass. -/
def eager : Options := { firmware := "vx.bin", knownAddresses := [0xfff, 0x1000, 0xfff] }

theorem knownAddresses_override_eager :
    (∃ fresh, (eager.override {}).knownAddresses = ({} : Config).knownAddresses ++ fresh ∧
      ∀ other, FirstOccurrences ({} : Config).knownAddresses eager.knownAddresses other ↔
        other = fresh) ∧
    shortNames.probe [lateSymbol] 1 ({} : Config).knownAddresses = some 0x1000 ∧
    shortNames.probe [lateSymbol] 1 (eager.override {}).knownAddresses = some 0x1000 := by
  have hbase : shortNames.probe [lateSymbol] 1 ({} : Config).knownAddresses = some 0x1000 := by
    decide
  obtain ⟨hfresh, _, hkept, _⟩ := knownAddresses_override eager {}
  exact ⟨hfresh, hbase, hkept _ _ _ _ hbase⟩

example : (eager.override {}).knownAddresses =
    [0x80002000, 0x10000, 0x1000, 0xf2003fe4, 0x100000, 0x107fe0, 0xfff] := by decide

end Options

end FirmwareSymbols
