import FirmwareSymbols.Proofs.Stages

/-!
# What a budget can do to an answer

A budget is checked inside loops that stop early, by counters that do not
know of each other. Whatever the clock says to each of them, an operation
with a budget gives the answer that it gives without one, or it reports
that a clock reading was past the limit. It never gives another answer.

The relation between the two runs is `Budget.Keeps`. It holds of each
counted search and passes through everything that is done with the
result of a search, so each operation inherits it from the ones it calls.

## Main results

* `Budget.Keeps.bind`: the relation passes through the next stage.
* `Budget.keeps_firstSome`: it holds of a counted search.
* `Budget.keeps_findTable`, `Budget.keeps_correlate`: of both searches,
  block by block and symbol by symbol.
* `Budget.keeps_analyze`, `Budget.keeps_quickProbe`: of the analyses.
-/

namespace FirmwareSymbols

namespace Budget

variable {α β : Type} {budget : Budget}

/-! ## The relation between two runs -/

/-- What the clock says to a search at an iteration, if anybody asks it. -/
def reading? : Budget → Search → Nat → Option Nat
  | unbounded, _, _ => none
  | bounded reading, search, iteration => reading search iteration

/-- An answer that reports a clock reading of a search past the limit. -/
def Exhausts (budget : Budget) (answer : Except Fault α) : Prop :=
  ∃ search iteration elapsed, budget.reading? search iteration = some elapsed ∧
    answer = .error (.searchExhausted search.operation iteration elapsed)

/-- The answer with a budget is the answer without one or reports that the budget ran out, and the
answer without one reports no such thing. -/
structure Keeps (budget : Budget) (limited unlimited : Except Fault α) : Prop where
  answer : limited = unlimited ∨ budget.Exhausts limited
  unlimited : ∀ operation iterations elapsed,
    unlimited ≠ .error (.searchExhausted operation iterations elapsed)

theorem Keeps.ok (value : α) : budget.Keeps (.ok value) (.ok value) :=
  ⟨.inl rfl, fun _ _ _ hbad => by cases hbad⟩

/-- An answer that is given within a budget is the answer without one. -/
theorem Keeps.eq_ok {limited unlimited : Except Fault α} (h : budget.Keeps limited unlimited)
    {value : α} (hvalue : limited = .ok value) : unlimited = .ok value := by
  rcases h.answer with hsame | ⟨_, _, _, _, hfault⟩
  · rw [← hsame, hvalue]
  · rw [hvalue] at hfault
    cases hfault

theorem Exhausts.bind {answer : Except Fault α} (h : budget.Exhausts answer)
    (next : α → Except Fault β) : budget.Exhausts (answer.bind next) := by
  obtain ⟨search, iteration, elapsed, hreading, hanswer⟩ := h
  exact ⟨search, iteration, elapsed, hreading, by rw [hanswer]; rfl⟩

/-- The relation passes through the next stage, which may have a budget of its own. -/
theorem Keeps.bind {limited unlimited : Except Fault α} (h : budget.Keeps limited unlimited)
    {next next' : α → Except Fault β} (hnext : ∀ value, budget.Keeps (next value) (next' value)) :
    budget.Keeps (limited.bind next) (unlimited.bind next') := by
  constructor
  · rcases h.answer with hsame | hexhausts
    · rw [hsame]
      cases unlimited with
      | error fault => exact .inl rfl
      | ok value => exact (hnext value).answer
    · exact .inr (hexhausts.bind next)
  · intro operation iterations elapsed hbad
    cases unlimited with
    | error fault =>
        have hfault : fault = .searchExhausted operation iterations elapsed := by
          simpa [Except.bind] using hbad
        exact h.unlimited operation iterations elapsed (by rw [hfault])
    | ok value => exact (hnext value).unlimited operation iterations elapsed hbad

theorem Keeps.map {limited unlimited : Except Fault α} (h : budget.Keeps limited unlimited)
    (f : α → β) :
    budget.Keeps (limited.bind fun value => .ok (f value))
      (unlimited.bind fun value => .ok (f value)) :=
  h.bind fun value => Keeps.ok (f value)

/-! ## Counted searches -/

/-- A counter fails only at a reading of the clock that is past the limit. -/
theorem exhausts_of_check {search : Search} {interval iteration : Nat} {fault : Fault}
    (h : (budget.counter search interval).check iteration = .error fault) :
    budget.Exhausts (.error fault : Except Fault α) := by
  cases budget with
  | unbounded => cases h
  | bounded reading =>
      by_cases hdue : iteration % max interval 1 = 0
      · cases hreading : reading search iteration with
        | none => simp [Counter.check, Budget.counter, hdue, hreading] at h
        | some elapsed =>
            simp only [Counter.check, Budget.counter, hdue, hreading, if_true] at h
            cases h
            exact ⟨search, iteration, elapsed, hreading, rfl⟩
      · simp [Counter.check, Budget.counter, hdue] at h

theorem keeps_firstSome (search : Search) (interval : Nat) (test : Nat → Option α)
    (done candidate count : Nat) :
    budget.Keeps
      ((budget.counter search interval).firstSome test done candidate count)
      ((unbounded.counter search interval).firstSome test done candidate count) := by
  have hfree : (unbounded.counter search interval).reading = none := rfl
  rw [Counter.firstSome_unbounded hfree]
  induction count generalizing done candidate with
  | zero => exact Keeps.ok none
  | succ count ih =>
      rw [Counter.firstSome, firstSomeFrom]
      cases hcheck : (budget.counter search interval).check (done + 1) with
      | error fault => exact ⟨.inr (exhausts_of_check hcheck), fun _ _ _ hbad => by cases hbad⟩
      | ok _ =>
          cases test candidate with
          | some answer => exact Keeps.ok (some answer)
          | none =>
              rw [Option.none_or]
              exact ih (done + 1) (candidate + 1)

/-! ## The scan for the symbol table -/

/-- A fault in one block competes with the hits of the others, but the lowest block that has either is
the one with the first hit, or it is faulty. -/
theorem keeps_scanBlocks (test : Nat → Bool) (candidates index blocks : Nat) :
    budget.Keeps (scanBlocks budget test candidates index blocks)
      (scanBlocks .unbounded test candidates index blocks) := by
  induction blocks generalizing index with
  | zero => exact Keeps.ok none
  | succ blocks ih =>
      rw [scanBlocks_succ, scanBlocks_succ]
      refine Keeps.bind (keeps_firstSome _ _ _ _ _ _) fun hit => ?_
      cases hit with
      | none => exact ih (index + 1)
      | some offset => exact Keeps.ok (some offset)

theorem keeps_findStart (config : Config) (image : Image) (candidates : Nat) :
    budget.Keeps (config.findStart image budget candidates)
      (config.findStart image .unbounded candidates) := by
  unfold Config.findStart
  split
  · exact keeps_scanBlocks _ _ _ _
  · exact keeps_firstSome _ _ _ _ _ _

theorem keeps_findTable (config : Config) (image : Image) :
    budget.Keeps (config.findTable image budget) (config.findTable image .unbounded) := by
  rw [Config.findTable_eq_bind, Config.findTable_eq_bind]
  split
  · exact ⟨.inl rfl, fun _ _ _ hbad => by cases hbad⟩
  · split
    · exact Keeps.ok none
    · exact (keeps_findStart config image _).map _

/-! ## The correlation -/

theorem correlateFrom_cons (counter : Counter) (index : LengthIndex) (count done : Nat)
    (s : Symbol) (rest : List Symbol) :
    correlateFrom counter index count done (s :: rest) =
      let tails := (s.nameLength.map fun length => index.getD length.toNat #[]).getD #[]
      (counter.firstSome (fun k => (tails[k]?).bind (loadAddress? count (s :: rest)))
          done 0 tails.size).bind fun
        | none => correlateFrom counter index count (done + tails.size) rest
        | some load => .ok (some load) := by
  rw [correlateFrom]
  dsimp only
  split
  · rename_i heq
    rw [heq]
    rfl
  · rename_i decided hne
    cases hsearch : counter.firstSome _ done 0 _ with
    | error fault => rfl
    | ok hit =>
        cases hit with
        | none => exact absurd hsearch hne
        | some load => rfl

theorem keeps_correlateFrom (index : LengthIndex) (count done : Nat) (symbols : List Symbol) :
    budget.Keeps
      (correlateFrom (budget.counter .correlation defaultInterval) index count done symbols)
      (correlateFrom (unbounded.counter .correlation defaultInterval) index count done symbols) := by
  induction symbols generalizing done with
  | nil => exact Keeps.ok none
  | cons s rest ih =>
      rw [correlateFrom_cons, correlateFrom_cons]
      refine Keeps.bind (keeps_firstSome _ _ _ _ _ _) fun load => ?_
      cases load with
      | none => exact ih _
      | some load => exact Keeps.ok (some load)

theorem keeps_correlate (symbols : List Symbol) (names : List Name) (count : Nat) :
    budget.Keeps (correlate budget symbols names count)
      (correlate .unbounded symbols names count) := by
  unfold correlate
  split
  · exact Keeps.ok none
  · exact keeps_correlateFrom _ _ _ _

/-! ## Analyses -/

theorem keeps_readSymbols (config : Config) (image : Image) :
    budget.Keeps (config.readSymbols image budget) (config.readSymbols image .unbounded) := by
  rw [Config.readSymbols_eq_bind, Config.readSymbols_eq_bind]
  exact (keeps_findTable config image).map _

theorem keeps_quickProbe (config : Config) (image : Image) (candidates : List UInt32) :
    budget.Keeps (config.quickProbe image budget candidates)
      (config.quickProbe image .unbounded candidates) := by
  rw [Config.quickProbe_eq_bind, Config.quickProbe_eq_bind]
  exact (keeps_readSymbols config image).map _

theorem keeps_findLoad (config : Config) (strategy : Strategy) (image : Image)
    (symbols : List Symbol) (names : List Name) :
    budget.Keeps (config.findLoad strategy image budget symbols names)
      (config.findLoad strategy image .unbounded symbols names) := by
  rw [Config.findLoad_eq_bind, Config.findLoad_eq_bind]
  cases config.knownLoad strategy image symbols with
  | some load => exact Keeps.ok _
  | none => exact (keeps_correlate symbols names _).map _

theorem keeps_analyze (config : Config) (strategy : Strategy) (image : Image) :
    budget.Keeps (config.analyze strategy image budget)
      (config.analyze strategy image .unbounded) := by
  rw [Config.analyze_eq_bind, Config.analyze_eq_bind]
  refine Keeps.bind (keeps_readSymbols config image) fun table => ?_
  cases table with
  | none => exact Keeps.ok none
  | some table => exact (keeps_findLoad config strategy image table.symbols _).map _

end Budget

/-! ## All operations -/

namespace Analyzer

/-- The analyzer with the same settings but without a budget. -/
def unlimited (analyzer : Analyzer) : Analyzer :=
  ⟨{ analyzer.config with timeBudgetMillis := none }, analyzer.valid⟩

theorem scan_unlimited (analyzer : Analyzer) (image : Image) :
    analyzer.unlimited.scan image = analyzer.config.analyze .correlate image .unbounded := rfl

theorem analyze_unlimited (analyzer : Analyzer) (image : Image) :
    analyzer.unlimited.analyze image = analyzer.config.analyze .probeFirst image .unbounded := rfl

theorem quickProbe_unlimited (analyzer : Analyzer) (image : Image) (candidates : List UInt32) :
    analyzer.unlimited.quickProbe image candidates =
      analyzer.config.quickProbe image .unbounded candidates := rfl

end Analyzer

/-- No budget changes an answer. Whatever the clock says to each counter at each of its iterations,
every search and every analysis gives the answer that it gives without a budget or reports a reading
past the limit; and without a budget none of them reports one. -/
theorem answers_survive_budget (budget : Budget) (config : Config) (image : Image) :
    (∀ parallel, budget.Keeps
      ({ config with parallelScan := parallel }.findTable image budget)
      ({ config with parallelScan := parallel }.findTable image .unbounded)) ∧
    (∀ symbols names count, budget.Keeps
      (correlate budget symbols names count) (correlate .unbounded symbols names count)) ∧
    (∀ strategy, budget.Keeps
      (config.analyze strategy image budget) (config.analyze strategy image .unbounded)) ∧
    (∀ candidates, budget.Keeps
      (config.quickProbe image budget candidates)
      (config.quickProbe image .unbounded candidates)) ∧
    (∀ analyzer : Analyzer,
      analyzer.config.budget.Keeps (analyzer.scan image) (analyzer.unlimited.scan image) ∧
      analyzer.config.budget.Keeps (analyzer.analyze image) (analyzer.unlimited.analyze image) ∧
      ∀ candidates, analyzer.config.budget.Keeps (analyzer.quickProbe image candidates)
        (analyzer.unlimited.quickProbe image candidates)) := by
  refine ⟨fun parallel => Budget.keeps_findTable _ image, Budget.keeps_correlate,
    fun strategy => Budget.keeps_analyze config strategy image,
    fun candidates => Budget.keeps_quickProbe config image candidates, fun analyzer => ?_⟩
  rw [Analyzer.scan_unlimited, Analyzer.analyze_unlimited]
  refine ⟨Budget.keeps_analyze _ _ image, Budget.keeps_analyze _ _ image, fun candidates => ?_⟩
  rw [Analyzer.quickProbe_unlimited]
  exact Budget.keeps_quickProbe _ image candidates

end FirmwareSymbols
