import FirmwareSymbols.Budget
import FirmwareSymbols.Release
import FirmwareSymbols.Word

/-!
# Settings of an analysis

The thresholds of the searches are heuristic, so each of them is a
setting. The defaults suit common images. A `Config` may hold any values;
the ones that no search can work with are its `Config.Defect`s.

## Main results

* `Config.defect?_eq_none_iff`: a configuration has no defect exactly when
  it is `Config.Valid`.
-/

namespace FirmwareSymbols

/-- The settings of an analysis. -/
structure Config where
  /-- The layout of the symbol records. -/
  release : Release := .v5
  /-- The byte order, if it is known beforehand and need not be detected. -/
  byteOrder : Option ByteOrder := none
  /-- Records in a row that make a symbol table. -/
  minTableRun : UInt64 := 10
  /-- Entries of the tables that must agree, if there are as many. -/
  checkCount : UInt64 := 100
  /-- Bytes of the longest name that is accepted. -/
  maxNameLength : UInt64 := 255
  /-- Nulls that may separate neighbouring names. -/
  maxStringGap : UInt64 := 4
  /-- Load addresses to probe, in this order. -/
  knownAddresses : List UInt32 :=
    [0x80002000, 0x10000, 0x1000, 0xf2003fe4, 0x100000, 0x107fe0]
  /-- Names to look for in the string table, in this order. -/
  anchorNames : List String := ["bzero", "usrInit", "bfill"]
  /-- Whether the scan for the symbol table goes block by block. -/
  parallelScan : Bool := true
  /-- Milliseconds that the searches may take. -/
  timeBudgetMillis : Option UInt64 := none
deriving DecidableEq, Repr, Inhabited

namespace Config

/-- The default settings for a release line. -/
def forRelease (release : Release) : Config := { release }

/-- The number of entries that must agree among `available` ones. -/
def requiredCount (config : Config) (available : Nat) : Nat :=
  min available config.checkCount.toNat

/-- The budget that the settings give to one analysis. -/
def budget (config : Config) : Budget := .ofMillis config.timeBudgetMillis

/-! ## Defects -/

/-- A setting that no search can work with. -/
inductive Defect where
  /-- Fewer than two records would make a table, so byte order could not be told. -/
  | shortRun (records : UInt64)
  /-- No entry at all would have to agree. -/
  | noCheck
  /-- There is no name to look for. -/
  | noAnchor
deriving DecidableEq, Repr

/-- What is wrong, in prose. -/
def Defect.reason : Defect → String
  | shortRun records =>
    "min_table_run must be at least 2 (got " ++ toString records.toNat ++ ")"
  | noCheck => "check_count must be non-zero"
  | noAnchor => "anchor_names must contain at least one name"

/-- The first defect of a configuration. -/
def defect? (config : Config) : Option Defect :=
  if config.minTableRun < 2 then some (.shortRun config.minTableRun)
  else if config.checkCount = 0 then some .noCheck
  else if config.anchorNames.all (· == "") then some .noAnchor
  else none

/-- A configuration that the searches can work with. -/
def Valid (config : Config) : Prop :=
  2 ≤ config.minTableRun ∧ config.checkCount ≠ 0 ∧ ∃ name ∈ config.anchorNames, name ≠ ""

instance (config : Config) : Decidable config.Valid := by
  unfold Valid
  infer_instance

/-- A configuration has no defect exactly when it is valid. -/
theorem defect?_eq_none_iff {config : Config} : config.defect? = none ↔ config.Valid := by
  unfold defect? Valid
  split
  · rename_i short
    simp only [reduceCtorEq, false_iff, not_and]
    exact fun long => absurd short (UInt64.not_lt.2 long)
  · split
    · simp_all
    · split
      · rename_i _ nameless
        have : ∀ name ∈ config.anchorNames, name = "" := by simpa using nameless
        simp only [reduceCtorEq, false_iff]
        rintro ⟨_, _, name, mem, ne⟩
        exact ne (this name mem)
      · rename_i long check named
        simp only [true_iff]
        exact ⟨UInt64.not_lt.1 long, check, by simpa using named⟩

/-- Refuses a configuration that has a defect. -/
def validate (config : Config) : Except Fault Unit :=
  match config.defect? with
  | some defect => .error (.invalidConfig defect.reason)
  | none => .ok ()

theorem valid_of_validate {config : Config} (h : config.validate = .ok ()) : config.Valid := by
  unfold validate at h
  split at h
  · cases h
  · exact defect?_eq_none_iff.1 ‹_›

theorem valid_forRelease (release : Release) : (forRelease release).Valid := by
  cases release <;> decide

end Config

end FirmwareSymbols
