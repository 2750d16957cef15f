import FirmwareSymbols.Host
import FirmwareSymbols.Mangled.Vocabulary
import FirmwareSymbols.Proofs.PrintedSignature

/-!
# Names of operators

The name of an operator may hold spaces outside brackets, and its symbol
may hold brackets that do not match. The search for a name spares a space
directly behind the word `operator`, and no other; and it takes the symbols
for brackets like all others. So it finds `operator new` and `operator int`,
but neither the name of an operator that stands apart from its template
arguments, nor that of a conversion to a type of several words, nor, behind
a return type, that of an operator whose symbol closes a bracket.

## Main definitions

* `Signature.OperatorName`: the name of an operator as it is printed.
* `Signature.OperatorName.Kept`: what has to hold for it to be found.

## Main results

* `Signature.parse_operatorName_iff`: a printed signature of an operator is
  parsed into its parts, and its function is created under its name, if and
  only if the name is one of those that are kept.
-/

namespace FirmwareSymbols

namespace Signature

open Text (Nested brackets parentheses)

/-! ## Names of operators as they are printed -/

/-- The operators that are no conversions, as they are written behind the word `operator`. -/
def operatorTexts : List String := Mangled.operators.map (·.2)

/-- Those among them that close a bracket which they do not open. -/
def closingOperators : List String := [">", ">>", ">=", ">>=", "->", "->*"]

/-- The type of a conversion as it is printed. -/
structure IsTarget (text : List Char) : Prop where
  nonempty : text ≠ []
  trimmed : Text.Trimmed text
  nested : Nested brackets text

/-- What is printed behind an operator: nothing, or its template arguments, which may stand apart. -/
inductive IsArguments : List Char → Prop
  | nothing : IsArguments []
  | attached {inner : List Char} (hinner : Nested brackets inner) :
      IsArguments ('<' :: (inner ++ ['>']))
  | apart {inner : List Char} (hinner : Nested brackets inner) :
      IsArguments (' ' :: '<' :: (inner ++ ['>']))

/-- An operator, either one with a fixed text or a conversion to a type. -/
inductive Operator where
  | fixed (text : String) (known : text ∈ operatorTexts)
  | conversion (target : String) (wellFormed : IsTarget target.toList)

/-- The text of an operator behind the word `operator`. -/
def Operator.text : Operator → String
  | fixed text _ => text
  | conversion target _ => " " ++ target

/-- The name of an operator, with the scope in front of it and template arguments behind it. -/
structure OperatorName where
  scope : String
  operator : Operator
  arguments : String
  scope_nested : Nested brackets scope.toList
  isArguments : IsArguments arguments.toList

/-- The name as it is printed. -/
def OperatorName.text (name : OperatorName) : String :=
  name.scope ++ "operator" ++ name.operator.text ++ name.arguments

theorem OperatorName.toList_text (name : OperatorName) :
    name.text.toList = name.scope.toList ++
      ("operator".toList ++ (name.operator.text.toList ++ name.arguments.toList)) := by
  simp only [OperatorName.text, String.toList_append, List.append_assoc]

/-! ## Names that are kept -/

/-- The word `operator` stands before every space of a text outside its brackets. -/
def SpacesSpared (text : List Char) : Prop :=
  ∀ before behind, OuterSpace text before behind → "operator".toList <:+ before

/-- The operator closes a bracket that it does not open. -/
def Operator.Closes : Operator → Prop
  | fixed text _ => text ∈ closingOperators
  | conversion _ _ => False

/-- The search does not stop behind the operator: template arguments of a fixed one do not stand apart, and
a conversion has no space that is not spared but the first. -/
def Operator.Spares (arguments : List Char) : Operator → Prop
  | fixed _ _ => arguments.head? ≠ some ' '
  | conversion target _ => SpacesSpared (target.toList ++ arguments)

/-- The name of an operator is found behind a return type. -/
structure OperatorName.Kept (name : OperatorName) (returnType : Option String) : Prop where
  operator : name.operator.Spares name.arguments.toList
  /-- While a bracket stands open, spaces of the scope do not count. -/
  scope : ¬ name.operator.Closes → SpacesSpared name.scope.toList
  /-- The space behind the return type counts, and it is not spared. -/
  returnType : ∀ text, returnType = some text →
    ¬ name.operator.Closes ∧ ¬ "operator".toList <:+ text.toList

/-! ## The pieces of a name -/

/-- A word without spaces does not reach over a space. -/
theorem operator_suffix_iff {front rest : List Char} :
    "operator".toList <:+ front ++ ' ' :: rest ↔ "operator".toList <:+ rest := by
  have hspace : ' ' :: rest <:+ front ++ ' ' :: rest := List.suffix_append front (' ' :: rest)
  constructor
  · intro hword
    -- either the word lies behind the space, or it holds the space
    rcases List.suffix_or_suffix_of_suffix hword hspace with hshorter | hlonger
    · rcases List.suffix_cons_iff.1 hshorter with heq | hrest
      · exact absurd (List.cons.inj heq).1 (by decide)
      · exact hrest
    · exact absurd (hlonger.subset List.mem_cons_self) (by decide)
  · exact fun hword => hword.trans ((List.suffix_cons ' ' rest).trans hspace)

/-- What a return type leaves in front of a name does not matter to the spaces of the name. -/
theorem operator_suffix_inFront_iff {returnType : Option String} {before : List Char} :
    "operator".toList <:+ inFront returnType ++ before ↔ "operator".toList <:+ before := by
  cases returnType with
  | none => exact Iff.rfl
  | some text =>
      have hfront : inFront (some text) ++ before = text.toList ++ ' ' :: before := by simp [inFront]
      rw [hfront, operator_suffix_iff]

theorem nested_angles {inner : List Char} (hinner : Nested brackets inner) :
    Nested brackets ('<' :: (inner ++ ['>'])) :=
  .group (by simp [brackets]) hinner .nil

theorem nested_of_isArguments {arguments : List Char} (h : IsArguments arguments) :
    Nested brackets arguments := by
  cases h with
  | nothing => exact .nil
  | attached hinner => exact nested_angles hinner
  | apart hinner => exact .plain (by simp [brackets]) (nested_angles hinner)

theorem last_of_isArguments {arguments : List Char} {c : Char} (h : IsArguments arguments)
    (hc : arguments.getLast? = some c) : Text.isBlank c = false := by
  have hangle : ∀ front : List Char, (front ++ ['>']).getLast? = some c → Text.isBlank c = false := by
    intro front hc
    rw [List.getLast?_concat] at hc
    cases hc
    rfl
  cases h with
  | nothing => cases hc
  | @attached inner hinner => exact hangle ('<' :: inner) hc
  | @apart inner hinner => exact hangle (' ' :: '<' :: inner) hc

/-- Template arguments stay whole. -/
theorem staysWhole_angles {front inner : List Char} (hinner : Nested brackets inner) :
    StaysWhole front ('<' :: (inner ++ ['>'])) 0 := by
  have hopen : ∀ front depth, StaysWhole front ['<'] depth := fun front depth =>
    staysWhole_singleton.2 fun hspace => absurd hspace (by decide)
  have hclose : ∀ front depth, StaysWhole front ['>'] depth := fun front depth =>
    staysWhole_singleton.2 fun hspace => absurd hspace (by decide)
  have hinside : StaysWhole (front ++ ['<']) inner (depthBefore ['>'] 0) :=
    staysWhole_of_pos hinner (by decide)
  rw [← List.singleton_append, staysWhole_append, staysWhole_append]
  exact ⟨hopen _ _, hinside, hclose _ _⟩

theorem staysWhole_of_isArguments {front arguments : List Char} (h : IsArguments arguments) :
    StaysWhole front arguments 0 ↔ (arguments.head? = some ' ' → "operator".toList <:+ front) := by
  cases h with
  | nothing => simp [staysWhole_nil]
  | attached hinner => simp [staysWhole_angles hinner]
  | @apart inner hinner =>
      have hangles := depthBefore_of_nested (nested_angles hinner) 0
      rw [← List.singleton_append, staysWhole_append, hangles, staysWhole_singleton]
      simp [staysWhole_angles hinner]

/-! ## The texts of operators -/

/-- No text of an operator has a space behind its first character, none ends with an `r` or a blank, and
those that close a bracket are the ones listed. -/
theorem operatorTexts_shape : ∀ text ∈ operatorTexts, ' ' ∉ text.toList.tail ∧
    text.toList.getLast?.any (fun c => c != 'r' && !Text.isBlank c) = true ∧
    (depthBefore text.toList 0 = 0 ↔ text ∉ closingOperators) := by
  decide

theorem staysWhole_operator {front : List Char} (depth : Nat) :
    StaysWhole front "operator".toList depth := by
  intro before behind hsplit
  have hmem : ' ' ∈ "operator".toList := by
    rw [hsplit]
    simp
  exact absurd hmem (by decide)

/-- The only space in the text of an operator stands behind the word `operator`. -/
theorem staysWhole_operatorText {front : List Char} {text : String} (h : text ∈ operatorTexts)
    (depth : Nat) : StaysWhole (front ++ "operator".toList) text.toList depth := by
  intro before behind hsplit _
  cases before with
  | nil =>
      rw [List.append_nil]
      exact List.suffix_append _ _
  | cons c before =>
      have hmem : ' ' ∈ text.toList.tail := by
        rw [hsplit]
        simp
      exact absurd hmem (operatorTexts_shape text h).1

/-- The text of an operator does not end like the word `operator`. -/
theorem not_operator_suffix {front : List Char} {text : String} (h : text ∈ operatorTexts) :
    ¬ "operator".toList <:+ front ++ text.toList := by
  rintro ⟨rest, heq⟩
  obtain ⟨c, hc, hshape⟩ := (Option.any_eq_true _ _).1 (operatorTexts_shape text h).2.1
  have hlast : (rest ++ "operator".toList).getLast? = some 'r' := by
    rw [List.getLast?_append]
    rfl
  rw [heq, List.getLast?_append, hc, Option.some_or] at hlast
  cases hlast
  simp at hshape

namespace Operator

theorem toList_text_conversion (target : String) (h : IsTarget target.toList) :
    (conversion target h).text.toList = ' ' :: target.toList := by
  have hspace : " ".toList = [' '] := rfl
  simp [text, hspace]

theorem closes_iff (operator : Operator) :
    operator.Closes ↔ depthBefore operator.text.toList 0 ≠ 0 := by
  cases operator with
  | fixed text known =>
      exact not_not.symm.trans (not_congr (operatorTexts_shape text known).2.2.symm)
  | conversion target wellFormed =>
      have hplain : Nested brackets (' ' :: target.toList) :=
        .plain (by simp [brackets]) wellFormed.nested
      rw [toList_text_conversion, depthBefore_of_nested hplain]
      simp [Closes]

/-- No blank ends the text of an operator. -/
theorem exists_last_text (operator : Operator) :
    ∃ c, operator.text.toList.getLast? = some c ∧ Text.isBlank c = false := by
  cases operator with
  | fixed text known =>
      obtain ⟨c, hc, hshape⟩ := (Option.any_eq_true _ _).1 (operatorTexts_shape text known).2.1
      exact ⟨c, hc, by simpa using (Bool.and_eq_true_iff.1 hshape).2⟩
  | conversion target wellFormed =>
      have hlast := List.getLast?_eq_some_getLast wellFormed.nonempty
      refine ⟨_, ?_, wellFormed.trimmed.last _ hlast⟩
      rw [toList_text_conversion, ← List.singleton_append, List.getLast?_append, hlast, Option.some_or]

/-- Where the search does not stop behind the word `operator`. -/
theorem staysWhole_iff_spares (operator : Operator) {front arguments : List Char}
    (h : IsArguments arguments) :
    StaysWhole (front ++ "operator".toList) (operator.text.toList ++ arguments) 0 ↔
      operator.Spares arguments := by
  have hnested := nested_of_isArguments h
  cases operator with
  | fixed text known =>
      have hsuffix : ¬ "operator".toList <:+ (front ++ "operator".toList) ++ text.toList :=
        not_operator_suffix known
      rw [staysWhole_append, staysWhole_of_isArguments h]
      constructor
      · exact fun hwhole hspace => hsuffix (hwhole.2 hspace)
      · exact fun hspares => ⟨staysWhole_operatorText known _, fun hspace => absurd hspace hspares⟩
  | conversion target wellFormed =>
      -- the space in front of the type is spared, and only those behind it are left
      have hfirst : StaysWhole (front ++ "operator".toList) [' ']
          (depthBefore (target.toList ++ arguments) 0) :=
        staysWhole_singleton.2 fun _ _ => List.suffix_append front _
      rw [toList_text_conversion, List.cons_append, ← List.singleton_append, staysWhole_append,
        staysWhole_iff_of_nested (wellFormed.nested.append hnested)]
      simp only [hfirst, true_and, List.append_assoc, List.singleton_append, Spares, SpacesSpared]
      simp only [← List.append_assoc, operator_suffix_iff]

end Operator

/-! ## The name of an operator -/

namespace OperatorName

theorem text_ne_empty (name : OperatorName) : name.text ≠ "" := by
  rw [← String.toList_inj.ne, toList_text]
  simp

theorem last_text (name : OperatorName) (c : Char) (hc : name.text.toList.getLast? = some c) :
    Text.isBlank c = false := by
  obtain ⟨last, hlast, hblank⟩ := name.operator.exists_last_text
  rw [toList_text, List.getLast?_append, List.getLast?_append, List.getLast?_append, hlast,
    Option.or_assoc, Option.or_assoc, Option.some_or] at hc
  cases harguments : name.arguments.toList.getLast? with
  | none =>
      rw [harguments] at hc
      cases hc
      exact hblank
  | some d =>
      rw [harguments] at hc
      cases hc
      exact last_of_isArguments name.isArguments harguments

/-- Only the text of the operator leaves brackets open in front of the name. -/
theorem depthBefore_behind (name : OperatorName) :
    depthBefore ("operator".toList ++ (name.operator.text.toList ++ name.arguments.toList)) 0 =
      depthBefore name.operator.text.toList 0 := by
  have hword : Nested brackets "operator".toList := .of_plain _ (by decide)
  rw [depthBefore_append, depthBefore_append,
    depthBefore_of_nested (nested_of_isArguments name.isArguments), depthBefore_of_nested hword]

/-- Where the search does not stop in front of the word `operator`. -/
theorem staysWhole_scope_iff (name : OperatorName) (returnType : Option String) :
    StaysWhole (inFront returnType) name.scope.toList (depthBefore name.operator.text.toList 0) ↔
      (¬ name.operator.Closes → SpacesSpared name.scope.toList) := by
  rw [name.operator.closes_iff, not_not]
  by_cases hdepth : depthBefore name.operator.text.toList 0 = 0
  · rw [hdepth, staysWhole_iff_of_nested name.scope_nested]
    simp only [SpacesSpared, operator_suffix_inFront_iff, forall_const]
  · have hwhole : StaysWhole (inFront returnType) name.scope.toList
        (depthBefore name.operator.text.toList 0) :=
      staysWhole_of_pos name.scope_nested (Nat.pos_of_ne_zero hdepth)
    simp [hwhole, hdepth]

/-- The search finds the names that are kept. -/
theorem splitName_eq_iff_kept (name : OperatorName) (returnType : Option String) :
    (splitName 0 [] (inFront returnType ++ name.text.toList).reverse).1 = name.text.toList ↔
      name.Kept returnType := by
  have hcloses : depthBefore name.text.toList 0 = 0 ↔ ¬ name.operator.Closes := by
    rw [name.operator.closes_iff, not_not, toList_text, depthBefore_append,
      depthBefore_of_nested name.scope_nested, depthBefore_behind]
  rw [splitName_eq_name_iff, hcloses, toList_text, staysWhole_append, staysWhole_append,
    depthBefore_behind, staysWhole_scope_iff, name.operator.staysWhole_iff_spares name.isArguments]
  constructor
  · exact fun h => ⟨h.1.2.2, h.1.1, h.2⟩
  · exact fun h => ⟨⟨h.scope, staysWhole_operator _, h.operator⟩, h.returnType⟩

end OperatorName

/-! ## Signatures of operators -/

/-- The call by which a function is created carries its name as it was parsed. -/
theorem head?_calls_eq_iff {s : Symbol} (hs : s.isFunction = true) (raw name : String)
    (signature : Signature) :
    (s.calls raw (some signature)).head? = some (.createFunction s.destAddress name) ↔
      signature.name = name := by
  simp [Symbol.calls, hs]

/-- The signature of an operator is parsed into the parts that it was printed from, and the function is
created under the whole name of the operator, if and only if the name is one of those that are kept. The
parameters are never lost. -/
theorem parse_operatorName_iff (name : OperatorName) {returnType : Option String} {parameters : String}
    {words : List String} (hreturn : ∀ text, returnType = some text → IsReturnType text)
    (hparameters : Nested parentheses parameters.toList)
    (hwords : ∀ word ∈ words, word.toList ∈ qualifiers) :
    (parse (printed returnType name.text parameters words) =
        { returnType := returnType
          name := name.text
          parameters := some parameters
          full := printed returnType name.text parameters words } ↔
      name.Kept returnType) ∧
    (∀ (s : Symbol) (raw : String), s.isFunction = true →
      ((s.calls raw (some (parse (printed returnType name.text parameters words)))).head? =
          some (.createFunction s.destAddress name.text) ↔
        name.Kept returnType)) ∧
    (parse (printed returnType name.text parameters words)).parameters = some parameters := by
  rw [parse_printed_eq_assemble hparameters hwords, ← name.splitName_eq_iff_kept returnType]
  have hassemble := assemble_eq_iff hreturn name.text_ne_empty name.last_text (some parameters.toList)
    (printed returnType name.text parameters words)
  rw [Option.map_some, String.ofList_toList] at hassemble
  refine ⟨hassemble, fun s raw hs => ?_, by simp [assemble]⟩
  rw [head?_calls_eq_iff hs]
  exact name_assemble_iff name.text_ne_empty name.last_text _ _

/-- A comparison that is a template in a class template. -/
def comparison : OperatorName where
  scope := "A<int>::"
  operator := .fixed "==" (by decide)
  arguments := "<char>"
  scope_nested :=
    (Nested.of_plain "A".toList (by decide)).append
      ((nested_angles (.of_plain "int".toList (by decide))).append (.of_plain "::".toList (by decide)))
  isArguments := .attached (.of_plain "char".toList (by decide))

theorem parse_operatorName_comparison :
    parse (printed (some "bool") "A<int>::operator==<char>" "char const*" ["const"]) =
        { returnType := some "bool"
          name := "A<int>::operator==<char>"
          parameters := some "char const*"
          full := "bool A<int>::operator==<char>(char const*) const" } ∧
      comparison.Kept (some "bool") := by
  have hattached : comparison.arguments.toList.head? ≠ some ' ' := by decide
  have hopen : "==" ∉ closingOperators := by decide
  have hkept : comparison.Kept (some "bool") := by
    refine ⟨hattached, fun _ before behind hspace => ?_, fun text htext => ?_⟩
    · exact absurd hspace (not_outerSpace (by decide) before behind)
    · cases htext
      exact ⟨hopen, by decide⟩
  have hreturn : ∀ text, some "bool" = some text → IsReturnType text := by
    intro text htext
    cases htext
    exact ⟨by decide, by decide⟩
  exact ⟨(parse_operatorName_iff comparison hreturn (.of_plain "char const*".toList (by decide))
    (by decide)).1.2 hkept, hkept⟩

/-- Names that are lost: that of an operator which stands apart from its template arguments, that of a
conversion to a type of two words, and, behind a return type, that of an operator which closes a bracket. -/
theorem parse_operatorName_lost :
    parse (printed (some "bool") "operator< <int>" "A<int>" []) =
        { returnType := some "bool operator<"
          name := "<int>"
          parameters := some "A<int>"
          full := "bool operator< <int>(A<int>)" } ∧
      parse (printed none "Foo::operator char const*" "" ["const"]) =
        { returnType := some "Foo::operator char"
          name := "const*"
          parameters := some ""
          full := "Foo::operator char const*() const" } ∧
      parse (printed (some "bool") "operator>" "A<int>" []) =
        { returnType := none
          name := "bool operator>"
          parameters := some "A<int>"
          full := "bool operator>(A<int>)" } := by
  decide +kernel

end Signature

end FirmwareSymbols
