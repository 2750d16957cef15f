import FirmwareSymbols.Fault
import FirmwareSymbols.LoadAddress.Probe
import FirmwareSymbols.Report
import FirmwareSymbols.Signature
import FirmwareSymbols.Text.Utf8

/-!
# Handing symbols to a host

The recovery knows no disassembler. A `Host` is whatever takes the
recovered symbols: it answers one call at a time from a state of its own,
may refuse any call, and may have its own way to demangle names. A report is
handed over by moving the image to its load address and then creating a
function or a label for each symbol, in the order of the records.

## Main definitions

* `Host`: the calls, and what a host does with them.
* `Symbol.calls`: the calls that one symbol asks for.
* `Report.apply`: hands a report to a host.
* `Host.traced`: the same host, which also keeps the calls it was given.
-/

namespace FirmwareSymbols

/-! ## Hosts -/

/-- What a host can be asked to do. Addresses are those of the loaded image. -/
inductive HostCall where
  /-- Move the image so that its first byte lies at an address. -/
  | rebase (load : UInt32)
  /-- Create a function. -/
  | createFunction (address : UInt32) (name : String)
  /-- Create a label. -/
  | createLabel (address : UInt32) (name : String)
  /-- Attach a comment. -/
  | setComment (address : UInt32) (comment : String)
deriving DecidableEq, Repr

/-- A host with states of a type. -/
structure Host (σ : Type) where
  /-- Does what it is asked, or refuses it with a fault. The state may change either way. -/
  respond : HostCall → σ → Except Fault Unit × σ
  /-- Demangles a name, if the name is mangled and the host knows how. -/
  demangle : String → σ → Option Signature

namespace Host

variable {σ : Type}

/-- Makes calls in turn, up to the first that is refused. -/
def perform (host : Host σ) : List HostCall → σ → Except Fault Unit × σ
  | [], state => (.ok (), state)
  | call :: rest, state =>
    match host.respond call state with
    | (.ok (), state) => host.perform rest state
    | (.error fault, state) => (.error fault, state)

/-- The same host, which also keeps each call it was given and whether it did what it was asked, the
latest call first. -/
def traced (host : Host σ) : Host (σ × List (HostCall × Bool)) where
  respond call := fun (state, trace) =>
    let (outcome, state) := host.respond call state
    (outcome, state, (call, outcome matches .ok ()) :: trace)
  demangle name := fun (state, _) => host.demangle name state

end Host

/-! ## Symbols -/

namespace Symbol

/-- The name of a symbol in an image that is loaded at an address. It cannot be read if its address
lies outside the image, if it is empty, or if no null ends it. -/
def name? (s : Symbol) (image : Image) (load : UInt32) : Option String := do
  let offset ← s.nameOffset? load
  let bytes ← image.cString? offset
  if bytes.isEmpty || bytes.length == image.size - offset then none
  else some (Utf8.decodeLossy bytes)

/-- The calls that a symbol asks for. A function gets its demangled name, a label its own; if the name
was demangled, the whole signature becomes a comment. -/
def calls (s : Symbol) (name : String) (signature : Option Signature) : List HostCall :=
  let create :=
    if s.isFunction then .createFunction s.destAddress ((signature.map (·.name)).getD name)
    else .createLabel s.destAddress name
  create :: (signature.map fun parts => HostCall.setComment s.destAddress parts.full).toList

end Symbol

/-! ## Reports -/

/-- What became of the symbols of a report. -/
structure ApplySummary where
  /-- Symbols that became functions. -/
  functions : Nat := 0
  /-- Symbols that became labels. -/
  labels : Nat := 0
  /-- Symbols without an address or without a name that can be read. -/
  skipped : Nat := 0
  /-- Symbols that the host refused. -/
  failed : Nat := 0
deriving DecidableEq, Repr

namespace ApplySummary

/-- One more symbol, of which the host has made a function or a label or which it has refused. -/
def count (summary : ApplySummary) (s : Symbol) (outcome : Except Fault Unit) : ApplySummary :=
  match outcome with
  | .error _ => { summary with failed := summary.failed + 1 }
  | .ok () =>
    if s.isFunction then { summary with functions := summary.functions + 1 }
    else { summary with labels := summary.labels + 1 }

/-- One more symbol that the host was not bothered with. -/
def skip (summary : ApplySummary) : ApplySummary := { summary with skipped := summary.skipped + 1 }

end ApplySummary

namespace Host

variable {σ : Type}

/-- Hands one symbol to a host, unless it has no address or no name. -/
def applySymbol (host : Host σ) (image : Image) (load : UInt32) (summary : ApplySummary)
    (state : σ) (s : Symbol) : ApplySummary × σ :=
  match if s.destAddress = 0 then none else s.name? image load with
  | none => (summary.skip, state)
  | some name =>
    let (outcome, state) := host.perform (s.calls name (host.demangle name state)) state
    (summary.count s outcome, state)

/-- Hands symbols to a host, one after the other. -/
def applySymbols (host : Host σ) (image : Image) (load : UInt32) (summary : ApplySummary) (state : σ) :
    List Symbol → ApplySummary × σ
  | [] => (summary, state)
  | s :: rest =>
    let (summary, state) := host.applySymbol image load summary state s
    host.applySymbols image load summary state rest

end Host

namespace Report

variable {σ : Type}

/-- Hands a report to a host. A symbol that the host refuses is counted and passed over; a missing load
address or a refusal to move the image ends the attempt. -/
def apply (report : Report) (image : Image) (host : Host σ) (state : σ) :
    Except Fault ApplySummary × σ :=
  match report.loadAddress with
  | none => (.error .noLoadAddress, state)
  | some load =>
    match host.respond (.rebase load) state with
    | (.error fault, state) => (.error fault, state)
    | (.ok (), state) =>
      let (summary, state) := host.applySymbols image load {} state report.inTableOrder
      (.ok summary, state)

end Report

end FirmwareSymbols
