import FirmwareSymbols.Proofs.WrittenSettings
import Mathlib.Data.List.Nodup

/-!
# Settings that a text names

A text need not name all settings. The ones it names get the values that it
says and all others keep their defaults, in whatever order the settings are
named and whatever else the text says between them. The check comes last: it
looks at the settings as they are then, defaults included.

A setting that is named twice is refused before any value is read; other
members may be there as often as they like.

## Main definitions

* `Setting`: one of the settings, with its name and its written value.
* `Config.overriding`: default settings, some of which are replaced.
* `Config.Mentions`: the members of an object that names some settings.

## Main results

* `Config.fields?_of_mentions`: what is found of the settings.
* `Config.ofFields?_overriding`: what is made of it.
* `Config.ofText_overriding`: what a text gives that names some settings.
-/

namespace FirmwareSymbols

/-! ## The settings one by one -/

/-- One of the settings. -/
inductive Setting where
  | release
  | byteOrder
  | minTableRun
  | checkCount
  | maxNameLength
  | maxStringGap
  | knownAddresses
  | anchorNames
  | parallelScan
  | timeBudgetMillis
deriving DecidableEq, Repr

namespace Setting

/-- All settings, in the order in which they are written. -/
def all : List Setting :=
  [release, byteOrder, minTableRun, checkCount, maxNameLength, maxStringGap, knownAddresses,
    anchorNames, parallelScan, timeBudgetMillis]

/-- What a setting is called in a text. -/
def name : Setting → String
  | release => "version"
  | byteOrder => "endian"
  | minTableRun => "min_table_run"
  | checkCount => "check_count"
  | maxNameLength => "max_name_len"
  | maxStringGap => "max_string_gap"
  | knownAddresses => "known_addresses"
  | anchorNames => "anchor_names"
  | parallelScan => "parallel_scan"
  | timeBudgetMillis => "time_budget_ms"

/-- The written form of the value that a setting has. -/
def written (config : Config) : Setting → Json
  | release => config.release.toJson
  | byteOrder => .ofOption ByteOrder.toJson config.byteOrder
  | minTableRun => .ofNat config.minTableRun.toNat
  | checkCount => .ofNat config.checkCount.toNat
  | maxNameLength => .ofNat config.maxNameLength.toNat
  | maxStringGap => .ofNat config.maxStringGap.toNat
  | knownAddresses => .ofList (fun address => .ofNat address.toNat) config.knownAddresses
  | anchorNames => .ofList .ofString config.anchorNames
  | parallelScan => .bool config.parallelScan
  | timeBudgetMillis => .ofOption (fun limit => .ofNat limit.toNat) config.timeBudgetMillis

theorem mem_all (s : Setting) : s ∈ all := by
  cases s <;> decide

theorem map_name_all : all.map name = Config.fieldNames := rfl

theorem name_mem_fieldNames (s : Setting) : s.name ∈ Config.fieldNames := by
  rw [← map_name_all]
  exact List.mem_map_of_mem s.mem_all

theorem nodup_map_name_all : (all.map name).Nodup := by decide

theorem name_injective {s t : Setting} (h : s.name = t.name) : s = t :=
  List.inj_on_of_nodup_map nodup_map_name_all s.mem_all t.mem_all h

/-- The member of an object that names a setting. -/
def member (config : Config) (s : Setting) : String × Json := (s.name, s.written config)

/-- Settings are written as the members of all of them. -/
theorem toJson_eq_ofMembers (config : Config) : config.toJson = .ofMembers (all.map (member config)) :=
  rfl

theorem wellFormed_written (config : Config) (s : Setting) : (s.written config).WellFormed := by
  have hwhole := config.restores.wellFormed
  rw [toJson_eq_ofMembers] at hwhole
  cases hwhole with
  | object hvalues =>
      exact hvalues _ (List.mem_map_of_mem (List.mem_map_of_mem s.mem_all))

end Setting

namespace Config

/-! ## Settings and defaults -/

/-- The default settings, of which the chosen ones are replaced. -/
def overriding (config : Config) (chosen : Setting → Bool) : Config where
  release := if chosen .release then config.release else ({} : Config).release
  byteOrder := if chosen .byteOrder then config.byteOrder else ({} : Config).byteOrder
  minTableRun := if chosen .minTableRun then config.minTableRun else ({} : Config).minTableRun
  checkCount := if chosen .checkCount then config.checkCount else ({} : Config).checkCount
  maxNameLength := if chosen .maxNameLength then config.maxNameLength else ({} : Config).maxNameLength
  maxStringGap := if chosen .maxStringGap then config.maxStringGap else ({} : Config).maxStringGap
  knownAddresses :=
    if chosen .knownAddresses then config.knownAddresses else ({} : Config).knownAddresses
  anchorNames := if chosen .anchorNames then config.anchorNames else ({} : Config).anchorNames
  parallelScan := if chosen .parallelScan then config.parallelScan else ({} : Config).parallelScan
  timeBudgetMillis :=
    if chosen .timeBudgetMillis then config.timeBudgetMillis else ({} : Config).timeBudgetMillis

/-- What is found of the chosen settings: their values, and nothing of the others. -/
def found (config : Config) (chosen : Setting → Bool) (s : Setting) : Option Json :=
  if chosen s then some (s.written config) else none

end Config

/-- A field keeps its default if its value is not there. -/
theorem Json.Restores.defaulted? {α : Type} {write : α → Json} {read : Json → Option α} {value : α}
    (h : Restores write read value) (default : α) (there : Bool) :
    Json.defaulted? default read (if there then some (write value) else none) =
      some (if there then value else default) := by
  cases there with
  | false => rfl
  | true => exact h.read_write

namespace Config

/-- The values that are found replace defaults, and nothing else does. -/
theorem ofFields?_overriding (config : Config) (chosen : Setting → Bool) :
    ofFields? {} (Setting.all.map (config.found chosen)) = some (config.overriding chosen) := by
  have hbyteOrder := Json.restores_option config.byteOrder
    (fun order => by nofun) fun order _ => order.restores
  have hknownAddresses := Json.restores_list config.knownAddresses
    fun address _ => Json.restores_uint32 address
  have hanchorNames := Json.restores_list config.anchorNames
    fun name _ => Json.restores_text name
  have htimeBudget := Json.restores_option config.timeBudgetMillis
    (fun limit => by nofun) fun limit _ => Json.restores_uint64 limit
  simp only [Setting.all, List.map_cons, List.map_nil, found, Setting.written, ofFields?,
    config.release.restores.defaulted?, hbyteOrder.defaulted?,
    (Json.restores_uint64 config.minTableRun).defaulted?,
    (Json.restores_uint64 config.checkCount).defaulted?,
    (Json.restores_uint64 config.maxNameLength).defaulted?,
    (Json.restores_uint64 config.maxStringGap).defaulted?, hknownAddresses.defaulted?,
    hanchorNames.defaulted?, (Json.restores_bool config.parallelScan).defaulted?,
    htimeBudget.defaulted?, Option.bind_eq_bind, Option.bind_some, Option.pure_def]
  rfl

/-! ## Objects that name settings -/

/-- The members of an object that names the chosen settings once each, in any order, with the values that
they have in a configuration, and that has any other members between them. -/
structure Mentions (config : Config) (chosen : Setting → Bool) (members : List (String × Json)) :
    Prop where
  known : (members.filter fun member => member.1 ∈ fieldNames).Perm
    ((Setting.all.filter chosen).map (Setting.member config))
  wellFormed : ∀ member ∈ members, member.1 ∉ fieldNames → member.2.WellFormed

variable {config : Config} {chosen : Setting → Bool} {members : List (String × Json)}

/-- A member with the name of a setting is the member of a chosen setting. -/
theorem Mentions.exists_setting (h : config.Mentions chosen members) {member : String × Json}
    (hmember : member ∈ members) (hname : member.1 ∈ fieldNames) :
    ∃ s, chosen s = true ∧ s.member config = member := by
  have hknown : member ∈ members.filter fun member => member.1 ∈ fieldNames :=
    List.mem_filter.2 ⟨hmember, decide_eq_true hname⟩
  obtain ⟨s, hs, hsame⟩ := List.mem_map.1 (h.known.mem_iff.1 hknown)
  exact ⟨s, (List.mem_filter.1 hs).2, hsame⟩

/-- All values are well formed, so there are texts of the object. -/
theorem Mentions.values_wellFormed (h : config.Mentions chosen members) :
    ∀ member ∈ members, member.2.WellFormed := by
  intro member hmember
  by_cases hname : member.1 ∈ fieldNames
  · obtain ⟨s, _, rfl⟩ := h.exists_setting hmember hname
    exact s.wellFormed_written config
  · exact h.wellFormed member hmember hname

/-- No setting is named twice. -/
theorem Mentions.nodup_known (h : config.Mentions chosen members) :
    ((members.filter fun member => member.1 ∈ fieldNames).map (·.1)).Nodup := by
  rw [(h.known.map _).nodup_iff, List.map_map]
  exact Setting.nodup_map_name_all.sublist (List.filter_sublist.map Setting.name)

/-- For a field that is known, only the known members count. -/
theorem lookup_known {field : String} (hfield : field ∈ fieldNames)
    (members : List (String × Json)) :
    ((members.filter fun member => member.1 ∈ fieldNames).map
        fun member => (some member.1, member.2)).lookup (some field) =
      (members.map fun member => (some member.1, member.2)).lookup (some field) := by
  induction members with
  | nil => rfl
  | cons first members ih =>
      by_cases hknown : first.1 ∈ fieldNames
      · rw [List.filter_cons, if_pos (decide_eq_true hknown), List.map_cons, List.map_cons,
          List.lookup_cons, List.lookup_cons, ih]
      · have hother : field ≠ first.1 := fun hsame => hknown (hsame ▸ hfield)
        rw [List.filter_cons, if_neg (by simpa using hknown), List.map_cons, List.lookup_cons,
          beq_false_of_ne (by simpa using hother), ih]

/-- Of each setting is found what the object says, and nothing if it does not name the setting. -/
theorem Mentions.lookup_eq_found (h : config.Mentions chosen members) (s : Setting) :
    (members.map fun member => (some member.1, member.2)).lookup (some s.name) =
      config.found chosen s := by
  rw [← lookup_known s.name_mem_fieldNames, found]
  by_cases hchosen : chosen s = true
  · have hmember : s.member config ∈ members.filter fun member => member.1 ∈ fieldNames :=
      h.known.mem_iff.2 (List.mem_map_of_mem (List.mem_filter.2 ⟨s.mem_all, hchosen⟩))
    rw [if_pos hchosen]
    exact Json.lookup_ofMembers h.nodup_known hmember
  · rw [if_neg hchosen, List.lookup_eq_none_iff]
    intro named hnamed
    obtain ⟨member, hmember, rfl⟩ := List.mem_map.1 hnamed
    obtain ⟨hthere, hknown⟩ := List.mem_filter.1 hmember
    obtain ⟨t, ht, rfl⟩ := h.exists_setting hthere (of_decide_eq_true hknown)
    have hother : s.name ≠ t.name := by
      intro hsame
      rw [Setting.name_injective hsame] at hchosen
      exact hchosen ht
    simpa [Setting.member] using hother

/-- The fields of an object are what is found of the settings. -/
theorem fields?_of_mentions (h : config.Mentions chosen members) :
    Json.fields? fieldNames true (.ofMembers members) =
      some (Setting.all.map (config.found chosen)) := by
  have hnames : (members.filter fun member => member.1 ∈ fieldNames).map (·.1) =
      (members.map (·.1)).filter (· ∈ fieldNames) := by
    rw [List.filter_map]
    rfl
  have hok : Json.membersOk fieldNames (members.map fun member => (some member.1, member.2)) =
      true := by
    refine Json.membersOk_ofMembers_iff.2 fun field hfield => ?_
    rw [← List.count_filter (p := (· ∈ fieldNames)) (decide_eq_true hfield), ← hnames]
    exact List.nodup_iff_count.1 h.nodup_known field
  rw [Json.ofMembers, Json.fields?, if_pos hok, ← Setting.map_name_all, List.map_map]
  congr 1
  exact List.map_congr_left fun s _ => h.lookup_eq_found s

/-- What is read from an object that names some settings. -/
theorem ofJson?_of_mentions (h : config.Mentions chosen members) :
    ofJson? (.ofMembers members) = some (config.overriding chosen) := by
  rw [ofJson?, fields?_of_mentions h, Option.bind_some, ofFields?_overriding]

/-- Nothing is read from an object that names a setting twice. -/
theorem ofJson?_eq_none {field : String} (hfield : field ∈ fieldNames)
    (htwice : 2 ≤ (members.map (·.1)).count field) : ofJson? (.ofMembers members) = none := by
  have hnot : ¬ Json.membersOk fieldNames
      (members.map fun member => (some member.1, member.2)) = true := by
    intro hok
    have honce := Json.membersOk_ofMembers_iff.1 hok field hfield
    omega
  rw [ofJson?, Json.ofMembers, Json.fields?, if_neg hnot, Option.bind_none]

/-- An object with well formed values has a text in every layout. A text of an object that names some of the
settings once each gives the default settings of which these are replaced, if they pass the check, and is
refused for their defect if they do not. A text of an object that names one of the settings twice is
refused as no text of settings. -/
theorem ofText_overriding :
    (∀ members : List (String × Json), (∀ member ∈ members, member.2.WellFormed) →
      ∀ layout : Json.Layout, layout.Blank →
        Json.parse? (String.ofList ((Json.ofMembers members).write layout 0)) =
          some (.ofMembers members)) ∧
    (∀ (config : Config) (chosen : Setting → Bool) (members : List (String × Json)),
      config.Mentions chosen members →
        (∀ member ∈ members, member.2.WellFormed) ∧
        ∀ text, Json.parse? text = some (.ofMembers members) →
          ((config.overriding chosen).Valid → ofText text = .ok (config.overriding chosen)) ∧
          (¬ (config.overriding chosen).Valid → ∃ defect,
            (config.overriding chosen).defect? = some defect ∧
              ofText text = .error (.invalidConfig defect.reason))) ∧
    ∀ (members : List (String × Json)) (field : String), field ∈ fieldNames →
      2 ≤ (members.map (·.1)).count field →
        ∀ text, Json.parse? text = some (.ofMembers members) →
          ∃ detail, ofText text = .error (.serialization detail) := by
  refine ⟨fun members hvalues layout hblank => ?_, fun config chosen members hmentions =>
    ⟨hmentions.values_wellFormed, fun text htext => ⟨fun hvalid => ?_, fun hdefect => ?_⟩⟩,
    fun members field hfield htwice text htext => ?_⟩
  · have hread : Json.parse? (String.ofList ((Json.ofMembers members).write layout 0) ++ "") =
        some (.ofMembers members) :=
      Json.parse?_write hblank (Json.wellFormed_ofMembers hvalues) (by simp)
    rwa [String.append_empty] at hread
  · rw [ofText_eq_ok_iff, htext, Option.bind_some, ofJson?_of_mentions hmentions]
    exact ⟨rfl, hvalid⟩
  · rw [← defect?_eq_none_iff] at hdefect
    obtain ⟨defect, hdefect⟩ := Option.ne_none_iff_exists'.1 hdefect
    refine ⟨defect, hdefect, ?_⟩
    have hcheck := validate_eq_error_iff.2 ⟨defect, hdefect, rfl⟩
    rw [ofText, htext, Option.bind_some, ofJson?_of_mentions hmentions]
    simp only [hcheck]
  · rw [ofText, htext, Option.bind_some, ofJson?_eq_none hfield htwice]
    exact ⟨_, rfl⟩

/-- The members of an object that names two settings, in an order of its own, with two comments. -/
def sparse (run : UInt64) : List (String × Json) :=
  [("comment", .list [.null]), ("min_table_run", .ofNat run.toNat), ("comment", .ofString "x"),
    ("version", .ofString "V6")]

theorem mentions_sparse (run : UInt64) :
    Mentions { release := .v6, minTableRun := run } (fun s => s = .release ∨ s = .minTableRun)
      (sparse run) where
  known := by
    have hknown : ((sparse run).filter fun member => member.1 ∈ fieldNames) =
        [("min_table_run", .ofNat run.toNat), ("version", .ofString "V6")] := by
      simp [sparse, fieldNames]
    rw [hknown]
    exact .swap _ _ []
  wellFormed := by
    simp only [sparse, List.forall_mem_cons]
    exact ⟨fun _ => .list fun item hitem => List.mem_singleton.1 hitem ▸ .null,
      fun _ => Json.wellFormed_ofNat _, fun _ => .string _, fun _ => .string _,
      fun _ h => absurd h List.not_mem_nil⟩

/-- The two settings are read with the defaults of all others, or refused for the one with a defect; with one
of them named twice the text is refused at once. -/
theorem ofText_overriding_sparse :
    ofText (Json.ofMembers (sparse 3)).compactText = .ok { release := .v6, minTableRun := 3 } ∧
      ofText (Json.ofMembers (sparse 1)).compactText =
        .error (.invalidConfig "min_table_run must be at least 2 (got 1)") ∧
      ∃ detail, ofText (Json.ofMembers (("version", .ofString "V5") :: sparse 3)).compactText =
        .error (.serialization detail) := by
  obtain ⟨htexts, hnamed, htwice⟩ := ofText_overriding
  obtain ⟨hvalues, hread⟩ := hnamed _ _ _ (mentions_sparse 3)
  obtain ⟨hshort, hrefused⟩ := hnamed _ _ _ (mentions_sparse 1)
  have hmore : ∀ member ∈ ("version", Json.ofString "V5") :: sparse 3, member.2.WellFormed :=
    List.forall_mem_cons.2 ⟨.string _, hvalues⟩
  refine ⟨?_, ?_, ?_⟩
  · exact (hread _ (htexts _ hvalues _ Json.Layout.blank_compact)).1 (by decide)
  · obtain ⟨defect, hdefect, hanswer⟩ :=
      (hrefused _ (htexts _ hshort _ Json.Layout.blank_compact)).2 (by decide)
    cases hdefect
    exact hanswer
  · exact htwice _ "version" (by decide) (by decide) _
      (htexts _ hmore _ Json.Layout.blank_compact)

end Config

end FirmwareSymbols
