import FirmwareSymbols.Proofs.ReadableNames
import FirmwareSymbols.Proofs.SymbolOrder

/-!
# What a host is told

A host answers from a state of its own and may refuse any call, so what it
is told depends on what it has answered so far. The relation `Host.Takes`
says this for one symbol, case by case and without a loop: which calls are
made, which of them were accepted, and what became of the symbol.
`Host.TakesAll` threads the states of the host through a list of symbols.
Handing over a report is one such thread behind a single rebase.

## Main results

* `Symbol.inOffsetOrder_sortByOffset`: the order of the symbols.
* `Host.TakesAll.applySymbols_eq`: handing over symbols follows the
  relation, whatever the host answers.
* `Report.apply_replays`: every way in which handing over a report can go.
-/

namespace FirmwareSymbols

/-! ## The order of the symbols -/

namespace Symbol

/-- The symbols of a list by the place of their records, those of one place in the order of the list. -/
structure InOffsetOrder (symbols ordered : List Symbol) : Prop where
  perm : ordered.Perm symbols
  ascending : ordered.Pairwise fun s next => s.offset ≤ next.offset
  stable : ∀ offset, ordered.filter (·.offset == offset) = symbols.filter (·.offset == offset)

theorem inOffsetOrder_sortByOffset (symbols : List Symbol) :
    InOffsetOrder symbols (sortByOffset symbols) := by
  refine ⟨List.mergeSort_perm _ _, pairwise_sortByOffset symbols, fun place => ?_⟩
  refine filter_sortBy offset symbols fun a b ha hb => ?_
  rw [beq_iff_eq] at ha hb
  exact Nat.le_of_eq (ha.trans hb.symm)

end Symbol

/-! ## One symbol -/

/-- What can become of a symbol. -/
inductive Fate where
  /-- The host was not bothered with it. -/
  | skipped
  /-- The host refused a call. -/
  | failed
  /-- A function. -/
  | function
  /-- A label. -/
  | label
deriving DecidableEq, Repr

namespace Symbol

/-- What a symbol becomes if no call is refused. -/
def kind (s : Symbol) : Fate := if s.isFunction then .function else .label

/-- The call that creates a symbol. A label keeps its own name even if that was demangled. -/
def creation (s : Symbol) (name : String) (signature : Option Signature) : HostCall :=
  if s.isFunction then .createFunction s.destAddress ((signature.map (·.name)).getD name)
  else .createLabel s.destAddress name

theorem calls_eq (s : Symbol) (name : String) (signature : Option Signature) :
    s.calls name signature = s.creation name signature ::
      (signature.map fun parts => HostCall.setComment s.destAddress parts.full).toList := rfl

@[simp] theorem creation_ne_rebase (s : Symbol) (name : String) (signature : Option Signature)
    (load : UInt32) : s.creation name signature ≠ .rebase load := by
  unfold creation
  split <;> exact HostCall.noConfusion

end Symbol

namespace Host

variable {σ : Type} {host : Host σ} {image : Image} {load : UInt32}

/-- What becomes of one symbol that is handed to a host in some state, which calls the host is given
and whether it accepts them, and the state it is left in. -/
inductive Takes (host : Host σ) (image : Image) (load : UInt32) (s : Symbol) :
    σ → Fate → List (HostCall × Bool) → σ → Prop
  /-- It has no address. -/
  | missing {state : σ} : s.destAddress = 0 → Takes host image load s state .skipped [] state
  /-- Its name cannot be read. -/
  | unreadable {state : σ} : s.Unreadable image load →
      Takes host image load s state .skipped [] state
  /-- It is not created, and nothing more is asked. -/
  | refused {state after : σ} {name : String} {fault : Fault} :
      s.destAddress ≠ 0 → s.HasName image load name →
      host.respond (s.creation name (host.demangle name state)) state = (.error fault, after) →
      Takes host image load s state .failed
        [(s.creation name (host.demangle name state), false)] after
  /-- It is created under a name that is not mangled. -/
  | plain {state after : σ} {name : String} :
      s.destAddress ≠ 0 → s.HasName image load name →
      host.demangle name state = none →
      host.respond (s.creation name none) state = (.ok (), after) →
      Takes host image load s state s.kind [(s.creation name none, true)] after
  /-- It is created, and its signature becomes a comment. -/
  | commented {state middle after : σ} {name : String} {parts : Signature} :
      s.destAddress ≠ 0 → s.HasName image load name →
      host.demangle name state = some parts →
      host.respond (s.creation name (some parts)) state = (.ok (), middle) →
      host.respond (.setComment s.destAddress parts.full) middle = (.ok (), after) →
      Takes host image load s state s.kind
        [(s.creation name (some parts), true), (.setComment s.destAddress parts.full, true)] after
  /-- It is created, but the comment is refused. -/
  | uncommented {state middle after : σ} {name : String} {parts : Signature} {fault : Fault} :
      s.destAddress ≠ 0 → s.HasName image load name →
      host.demangle name state = some parts →
      host.respond (s.creation name (some parts)) state = (.ok (), middle) →
      host.respond (.setComment s.destAddress parts.full) middle = (.error fault, after) →
      Takes host image load s state .failed
        [(s.creation name (some parts), true), (.setComment s.destAddress parts.full, false)] after

/-- A symbol always has some fate. -/
theorem exists_takes (host : Host σ) (image : Image) (load : UInt32) (s : Symbol) (state : σ) :
    ∃ fate calls after, host.Takes image load s state fate calls after := by
  by_cases hdest : s.destAddress = 0
  · exact ⟨_, _, _, .missing hdest⟩
  by_cases hunreadable : s.Unreadable image load
  · exact ⟨_, _, _, .unreadable hunreadable⟩
  obtain ⟨name, hname⟩ := Symbol.exists_hasName hunreadable
  cases hcreate : host.respond (s.creation name (host.demangle name state)) state with
  | mk outcome middle =>
      cases outcome with
      | error fault => exact ⟨_, _, _, .refused hdest hname hcreate⟩
      | ok _ =>
          cases hdemangle : host.demangle name state with
          | none =>
              rw [hdemangle] at hcreate
              exact ⟨_, _, _, .plain hdest hname hdemangle hcreate⟩
          | some parts =>
              rw [hdemangle] at hcreate
              cases hcomment : host.respond (.setComment s.destAddress parts.full) middle with
              | mk outcome after =>
                  cases outcome with
                  | error fault =>
                      exact ⟨_, _, _, .uncommented hdest hname hdemangle hcreate hcomment⟩
                  | ok _ =>
                      exact ⟨_, _, _, .commented hdest hname hdemangle hcreate hcomment⟩

end Host

namespace ApplySummary

/-- One more symbol with a fate. -/
def add (summary : ApplySummary) : Fate → ApplySummary
  | .skipped => { summary with skipped := summary.skipped + 1 }
  | .failed => { summary with failed := summary.failed + 1 }
  | .function => { summary with functions := summary.functions + 1 }
  | .label => { summary with labels := summary.labels + 1 }

/-- Each symbol is counted once, as what it has become. -/
structure Counts (summary : ApplySummary) (fates : List Fate) : Prop where
  functions : summary.functions = fates.count .function
  labels : summary.labels = fates.count .label
  skipped : summary.skipped = fates.count .skipped
  failed : summary.failed = fates.count .failed

theorem count_ok (summary : ApplySummary) (s : Symbol) :
    summary.count s (.ok ()) = summary.add s.kind := by
  by_cases hfunction : s.isFunction = true
  · simp [count, Symbol.kind, add, hfunction]
  · simp [count, Symbol.kind, add, hfunction]

theorem Counts.append {summary : ApplySummary} {fates : List Fate} (h : summary.Counts fates)
    (fate : Fate) : (summary.add fate).Counts (fates ++ [fate]) := by
  have hfunctions := h.functions
  have hlabels := h.labels
  have hskipped := h.skipped
  have hfailed := h.failed
  cases fate <;> constructor <;> simp [add, List.count_append, *]

theorem counts_foldl (fates : List Fate) : ∀ {summary : ApplySummary} {before : List Fate},
    summary.Counts before → (fates.foldl add summary).Counts (before ++ fates) := by
  induction fates with
  | nil =>
      intro summary before h
      rwa [List.append_nil]
  | cons fate rest ih =>
      intro summary before h
      have hrest := ih (h.append fate)
      rwa [List.append_assoc] at hrest

theorem Counts.total {summary : ApplySummary} {fates : List Fate} (h : summary.Counts fates) :
    summary.functions + summary.labels + summary.skipped + summary.failed = fates.length := by
  rw [h.functions, h.labels, h.skipped, h.failed]
  clear h
  induction fates with
  | nil => rfl
  | cons fate rest ih =>
      rw [List.length_cons, ← ih]
      cases fate <;> simp <;> omega

end ApplySummary

namespace Host

variable {σ : Type} {host : Host σ} {image : Image} {load : UInt32}

/-- The program does what the relation says. -/
theorem Takes.applySymbol_eq {s : Symbol} {state after : σ} {fate : Fate}
    {calls : List (HostCall × Bool)} (h : host.Takes image load s state fate calls after)
    (summary : ApplySummary) :
    host.applySymbol image load summary state s = (summary.add fate, after) := by
  have hread : ∀ {name}, s.destAddress ≠ 0 → s.HasName image load name →
      (if s.destAddress = 0 then none else s.name? image load) = some name := by
    intro name hdest hname
    rw [if_neg hdest]
    exact Symbol.name?_eq_some_iff.2 hname
  unfold applySymbol
  cases h with
  | missing hdest =>
      rw [if_pos hdest]
      rfl
  | unreadable hunreadable =>
      rw [Symbol.name?_eq_none_iff.2 hunreadable, ite_self]
      rfl
  | refused hdest hname hcreate =>
      rw [hread hdest hname]
      simp only [Symbol.calls_eq, perform, hcreate]
      rfl
  | plain hdest hname hdemangle hcreate =>
      rw [hread hdest hname]
      simp only [Symbol.calls_eq, perform, hdemangle, hcreate, Option.map_none, Option.toList_none,
        ApplySummary.count_ok]
  | commented hdest hname hdemangle hcreate hcomment =>
      rw [hread hdest hname]
      simp only [Symbol.calls_eq, perform, hdemangle, hcreate, hcomment, Option.map_some,
        Option.toList_some, ApplySummary.count_ok]
  | uncommented hdest hname hdemangle hcreate hcomment =>
      rw [hread hdest hname]
      simp only [Symbol.calls_eq, perform, hdemangle, hcreate, hcomment, Option.map_some,
        Option.toList_some]
      rfl

theorem traced_accepts {call : HostCall} {state after : σ}
    (h : host.respond call state = (.ok (), after)) (trace : List (HostCall × Bool)) :
    host.traced.respond call (state, trace) = (.ok (), after, (call, true) :: trace) := by
  simp only [traced, h]

theorem traced_refuses {call : HostCall} {state after : σ} {fault : Fault}
    (h : host.respond call state = (.error fault, after)) (trace : List (HostCall × Bool)) :
    host.traced.respond call (state, trace) = (.error fault, after, (call, false) :: trace) := by
  simp only [traced, h]

/-- A host that keeps its calls takes a symbol in the same way, and keeps these calls. -/
theorem Takes.traced {s : Symbol} {state after : σ} {fate : Fate}
    {calls : List (HostCall × Bool)} (h : host.Takes image load s state fate calls after)
    (trace : List (HostCall × Bool)) :
    host.traced.Takes image load s (state, trace) fate calls (after, calls.reverse ++ trace) := by
  cases h with
  | missing hdest => exact .missing hdest
  | unreadable hunreadable => exact .unreadable hunreadable
  | refused hdest hname hcreate =>
      exact .refused hdest hname (traced_refuses hcreate trace)
  | plain hdest hname hdemangle hcreate =>
      exact .plain hdest hname hdemangle (traced_accepts hcreate trace)
  | commented hdest hname hdemangle hcreate hcomment =>
      exact .commented hdest hname hdemangle (traced_accepts hcreate trace)
        (traced_accepts hcomment _)
  | uncommented hdest hname hdemangle hcreate hcomment =>
      exact .uncommented hdest hname hdemangle (traced_accepts hcreate trace)
        (traced_refuses hcomment _)

/-- No symbol moves the image. -/
theorem Takes.ne_rebase {s : Symbol} {state after : σ} {fate : Fate}
    {calls : List (HostCall × Bool)} (h : host.Takes image load s state fate calls after) :
    ∀ event ∈ calls, ∀ other, event.1 ≠ .rebase other := by
  cases h with
  | missing => simp
  | unreadable => simp
  | refused => simp
  | plain => simp
  | commented => simp
  | uncommented => simp

/-! ## Many symbols -/

/-- Symbols are taken one after the other, each in the state that the last one has left. -/
inductive TakesAll (host : Host σ) (image : Image) (load : UInt32) :
    List Symbol → σ → List Fate → List (List (HostCall × Bool)) → σ → Prop
  | done {state : σ} : TakesAll host image load [] state [] [] state
  | next {s : Symbol} {rest : List Symbol} {state middle after : σ} {fate : Fate}
      {fates : List Fate} {calls : List (HostCall × Bool)}
      {events : List (List (HostCall × Bool))} :
      host.Takes image load s state fate calls middle →
      TakesAll host image load rest middle fates events after →
      TakesAll host image load (s :: rest) state (fate :: fates) (calls :: events) after

theorem exists_takesAll (host : Host σ) (image : Image) (load : UInt32) (symbols : List Symbol) :
    ∀ state, ∃ fates events after, host.TakesAll image load symbols state fates events after := by
  induction symbols with
  | nil => exact fun state => ⟨[], [], state, .done⟩
  | cons s rest ih =>
      intro state
      obtain ⟨fate, calls, middle, hfirst⟩ := host.exists_takes image load s state
      obtain ⟨fates, events, after, hrest⟩ := ih middle
      exact ⟨_, _, _, .next hfirst hrest⟩

section

variable {symbols : List Symbol} {state after : σ} {fates : List Fate}
  {events : List (List (HostCall × Bool))}

theorem TakesAll.length_fates (h : host.TakesAll image load symbols state fates events after) :
    fates.length = symbols.length := by
  induction h with
  | done => rfl
  | next _ _ ih => rw [List.length_cons, List.length_cons, ih]

theorem TakesAll.ne_rebase (h : host.TakesAll image load symbols state fates events after) :
    ∀ event ∈ events.flatten, ∀ other, event.1 ≠ .rebase other := by
  induction h with
  | done => exact fun event hevent => absurd hevent List.not_mem_nil
  | next hfirst _ ih =>
      intro event hevent
      rw [List.flatten_cons] at hevent
      rcases List.mem_append.1 hevent with hcalls | hrest
      · exact hfirst.ne_rebase event hcalls
      · exact ih event hrest

/-- Handing over symbols does what the relation says. -/
theorem TakesAll.applySymbols_eq (h : host.TakesAll image load symbols state fates events after)
    (summary : ApplySummary) :
    host.applySymbols image load summary state symbols =
      (fates.foldl ApplySummary.add summary, after) := by
  induction h generalizing summary with
  | done => rfl
  | next hfirst _ ih =>
      simp only [applySymbols, hfirst.applySymbol_eq, ih, List.foldl_cons]

/-- A host that keeps its calls takes the symbols in the same way. -/
theorem TakesAll.traced (h : host.TakesAll image load symbols state fates events after)
    (trace : List (HostCall × Bool)) :
    host.traced.TakesAll image load symbols (state, trace) fates events
      (after, events.flatten.reverse ++ trace) := by
  induction h generalizing trace with
  | done => exact .done
  | @next _ _ _ _ _ _ _ calls _ hfirst _ ih =>
      have hrest := ih (calls.reverse ++ trace)
      rw [List.flatten_cons, List.reverse_append, List.append_assoc]
      exact .next (hfirst.traced trace) hrest

end

end Host

/-! ## A report -/

namespace Report

variable {σ : Type} {report : Report} {image : Image} {host : Host σ} {load : UInt32}
  {state middle after : σ}

theorem apply_of_none (h : report.loadAddress = none) :
    report.apply image host state = (.error .noLoadAddress, state) := by
  simp only [apply, h]

theorem apply_of_refused {fault : Fault} (h : report.loadAddress = some load)
    (hrebase : host.respond (.rebase load) state = (.error fault, after)) :
    report.apply image host state = (.error fault, after) := by
  simp only [apply, h, hrebase]

theorem apply_of_takesAll {fates : List Fate} {events : List (List (HostCall × Bool))}
    (h : report.loadAddress = some load)
    (hrebase : host.respond (.rebase load) state = (.ok (), middle))
    (htakes : host.TakesAll image load report.inTableOrder middle fates events after) :
    report.apply image host state = (.ok (fates.foldl ApplySummary.add {}), after) := by
  simp only [apply, h, hrebase, htakes.applySymbols_eq]

/-- A host that keeps its calls is handed a report like any other. -/
theorem apply_traced (report : Report) (image : Image) (host : Host σ) (state : σ)
    (trace : List (HostCall × Bool)) :
    (report.apply image host.traced (state, trace)).1 = (report.apply image host state).1 ∧
      (report.apply image host.traced (state, trace)).2.1 =
        (report.apply image host state).2 := by
  cases hload : report.loadAddress with
  | none =>
      rw [apply_of_none hload, apply_of_none hload]
      exact ⟨rfl, rfl⟩
  | some load =>
      cases hrebase : host.respond (.rebase load) state with
      | mk outcome middle =>
          cases outcome with
          | error fault =>
              rw [apply_of_refused hload hrebase,
                apply_of_refused hload (Host.traced_refuses hrebase trace)]
              exact ⟨rfl, rfl⟩
          | ok _ =>
              obtain ⟨fates, events, after, htakes⟩ :=
                host.exists_takesAll image load report.inTableOrder middle
              rw [apply_of_takesAll hload hrebase htakes,
                apply_of_takesAll hload (Host.traced_accepts hrebase trace) (htakes.traced _)]
              exact ⟨rfl, rfl⟩

/-- Every way in which a report can be handed to a host, whatever the host answers and when. Without a
load address the host is not called at all. Otherwise it is asked to move the image, once and first;
if it refuses, that is the end and the answer. If it does not, each symbol is taken in the order of
the records, and each is counted once, as what it has become. -/
theorem apply_replays (report : Report) (image : Image) (host : Host σ) (state : σ) :
    (report.loadAddress = none →
      report.apply image host.traced (state, []) =
        (.error (.malformed "cannot apply symbols without a load address"), state, [])) ∧
    (∀ load fault after, report.loadAddress = some load →
      host.respond (.rebase load) state = (.error fault, after) →
      report.apply image host.traced (state, []) =
        (.error fault, after, [(.rebase load, false)])) ∧
    (∀ load middle, report.loadAddress = some load →
      host.respond (.rebase load) state = (.ok (), middle) →
      ∃ ordered fates events after summary,
        Symbol.InOffsetOrder report.symbols ordered ∧
        host.TakesAll image load ordered middle fates events after ∧
        report.apply image host.traced (state, []) =
          (.ok summary, after, ((.rebase load, true) :: events.flatten).reverse) ∧
        (∀ event ∈ events.flatten, ∀ other, event.1 ≠ .rebase other) ∧
        summary.Counts fates ∧
        summary.functions + summary.labels + summary.skipped + summary.failed =
          report.symbols.length) ∧
    (report.apply image host.traced (state, [])).1 = (report.apply image host state).1 ∧
    (report.apply image host.traced (state, [])).2.1 = (report.apply image host state).2 := by
  refine ⟨?_, ?_, ?_, report.apply_traced image host state []⟩
  · intro hload
    exact apply_of_none hload
  · intro load fault after hload hrebase
    exact apply_of_refused hload (Host.traced_refuses hrebase [])
  · intro load middle hload hrebase
    obtain ⟨fates, events, after, htakes⟩ :=
      host.exists_takesAll image load report.inTableOrder middle
    have horder := Symbol.inOffsetOrder_sortByOffset report.symbols
    have hcounts : (fates.foldl ApplySummary.add {}).Counts ([] ++ fates) :=
      ApplySummary.counts_foldl fates ⟨rfl, rfl, rfl, rfl⟩
    refine ⟨_, fates, events, after, _, horder, htakes, ?_, htakes.ne_rebase, hcounts, ?_⟩
    · rw [List.reverse_cons]
      exact apply_of_takesAll hload (Host.traced_accepts hrebase []) (htakes.traced _)
    · rw [hcounts.total, List.nil_append, htakes.length_fates]
      exact horder.perm.length_eq

end Report

/-! ## A small report -/

/-- A host that takes no comments. It knows one mangled name. -/
def Host.terse : Host Unit where
  respond
    | .setComment .., state => (.error (.host "no comments"), state)
    | _, state => (.ok (), state)
  demangle name _ := if name = "f" then some ⟨none, "f", some "int", "f(int)"⟩ else none

/-- The names `f` and `g`. -/
def twoNames : Image := .ofList [0x66, 0x00, 0x67, 0x00]

/-- A function that will be commented, a label, and a symbol without a name. -/
def Report.ofThree : Report where
  release := .v5
  symbolTable := ⟨16, 64⟩
  byteOrder := .big
  symbols :=
    [⟨32, 0x1000, 0x2000, some 2, 0x0500, 0x05⟩, ⟨16, 0x1002, 0x2004, some 2, 0x0700, 0x07⟩,
      ⟨48, 0x1004, 0x2008, none, 0x0700, 0x07⟩]
  stringTable := none
  names := []
  loadAddress := some 0x1000
  loadSource := some .knownAddress

theorem Report.inTableOrder_ofThree :
    ofThree.inTableOrder =
      [⟨16, 0x1002, 0x2004, some 2, 0x0700, 0x07⟩, ⟨32, 0x1000, 0x2000, some 2, 0x0500, 0x05⟩,
        ⟨48, 0x1004, 0x2008, none, 0x0700, 0x07⟩] := by
  simp [inTableOrder, Symbol.sortByOffset, ofThree, List.mergeSort,
    List.MergeSort.Internal.splitInTwo]

/-- The label is created first, the function cannot be commented, and the last symbol is skipped. -/
theorem Report.apply_replays_ofThree :
    ofThree.loadAddress = some 0x1000 ∧ Host.terse.respond (.rebase 0x1000) () = (.ok (), ()) ∧
      (ofThree.apply twoNames Host.terse.traced ((), [])).2.2.reverse =
        [(.rebase 0x1000, true), (.createLabel 0x2004 "g", true),
          (.createFunction 0x2000 "f", true), (.setComment 0x2000 "f(int)", false)] ∧
      ∃ ordered fates events after summary,
        Symbol.InOffsetOrder ofThree.symbols ordered ∧
        Host.terse.TakesAll twoNames 0x1000 ordered () fates events after ∧
        ofThree.apply twoNames Host.terse.traced ((), []) =
          (.ok summary, after, ((.rebase 0x1000, true) :: events.flatten).reverse) ∧
        summary.Counts fates := by
  obtain ⟨ordered, fates, events, after, summary, horder, htakes, happly, _, hcounts, _⟩ :=
    (ofThree.apply_replays twoNames Host.terse ()).2.2.1 0x1000 () rfl rfl
  refine ⟨rfl, rfl, ?_, ordered, fates, events, after, summary, horder, htakes, happly, hcounts⟩
  show (Host.terse.traced.applySymbols twoNames 0x1000 {} ((), [(.rebase 0x1000, true)])
    ofThree.inTableOrder).2.2.reverse = _
  rw [inTableOrder_ofThree]
  decide +kernel

end FirmwareSymbols
