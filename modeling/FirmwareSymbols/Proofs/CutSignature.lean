import FirmwareSymbols.Proofs.Nesting

/-!
# Cutting a signature loses nothing

The parts of a signature are pieces of its text: cutting drops the
parentheses around the parameters, blanks, and the qualifiers at the end,
and nothing else, whatever the text is.

The name begins behind the last space outside brackets, unless the word
`operator` stands before that space: then the search begins again with what
stands before the space. The relation `Signature.Searches` states this rule
as it is, with one step for each time the search begins again, so that a
search that is related to an outcome has come to an end. All searches are.

## Main results

* `Signature.searches_splitName`: every search for a name ends.
* `Signature.exists_cut_assemble`, `Signature.exists_cut_parse`: what the
  parts of a signature are cut from.
* `Signature.parse_lossless`: what a signature is cut from.
-/

namespace FirmwareSymbols

namespace Signature

open Text (Nested brackets parentheses)

/-! ## Where a name is cut off -/

/-- Nothing is lost where a name is cut off. -/
theorem splitName_append (depth : Nat) (name before : List Char) :
    (splitName depth name before).1.reverse ++ (splitName depth name before).2 =
      name.reverse ++ before := by
  fun_induction splitName depth name before with
  | case1 => rfl
  | case2 depth name c before _ ih => simpa using ih
  | case3 depth name c before _ _ ih => simpa using ih
  | case4 => rfl
  | case5 depth name c before _ _ _ ih => simpa using ih

/-- The nearest space outside brackets in a text that is read backward: what stands behind it, and in
reverse what stands before it. -/
def outerSpace? (depth : Nat) (behind : List Char) : List Char → Option (List Char × List Char)
  | [] => none
  | c :: before =>
    if c = '>' ∨ c = ')' then outerSpace? (depth + 1) (c :: behind) before
    else if c = '<' ∨ c = '(' then outerSpace? (depth - 1) (c :: behind) before
    else if c = ' ' ∧ depth = 0 then some (behind, before)
    else outerSpace? depth (c :: behind) before

/-- The search for the name at the end of a text in reverse, and its outcome: the name and, in reverse,
what stands before it. -/
inductive Searches : List Char → List Char × List Char → Prop
  /-- There is no space outside brackets. -/
  | whole {text : List Char} : outerSpace? 0 [] text = none → Searches text (text.reverse, [])
  /-- The name begins behind the nearest one. -/
  | cut {text behind before : List Char} : outerSpace? 0 [] text = some (behind, before) →
      ¬ operatorReversed <+: before → Searches text (behind, ' ' :: before)
  /-- The nearest one belongs to the name of an operator. -/
  | again {text behind before name rest : List Char} :
      outerSpace? 0 [] text = some (behind, before) → operatorReversed <+: before →
      Searches before (name, rest) → Searches text (name ++ ' ' :: behind, rest)

theorem length_lt_of_outerSpace? {depth : Nat} {behind text behind' before : List Char}
    (h : outerSpace? depth behind text = some (behind', before)) : before.length < text.length := by
  fun_induction outerSpace? depth behind text with
  | case1 => cases h
  | case2 depth behind c text _ ih => exact Nat.lt_succ_of_lt (ih h)
  | case3 depth behind c text _ _ ih => exact Nat.lt_succ_of_lt (ih h)
  | case4 =>
      cases h
      exact Nat.lt_succ_self _
  | case5 depth behind c text _ _ _ ih => exact Nat.lt_succ_of_lt (ih h)

/-- What the search has read already ends the name. -/
theorem splitName_eq (depth : Nat) (name text : List Char) :
    splitName depth name text = ((splitName depth [] text).1 ++ name, (splitName depth [] text).2) := by
  induction text generalizing depth name with
  | nil => rfl
  | cons c text ih =>
      rw [splitName, splitName]
      split
      · rw [ih _ (c :: name), ih _ [c]]
        simp
      · split
        · rw [ih _ (c :: name), ih _ [c]]
          simp
        · split
          · rfl
          · rw [ih _ (c :: name), ih _ [c]]
            simp

/-- Up to the nearest space outside brackets the search has no choice. -/
theorem splitName_outerSpace (depth : Nat) (name text : List Char) :
    splitName depth name text =
      match outerSpace? depth name text with
      | none => (text.reverse ++ name, [])
      | some (behind, before) =>
        if operatorReversed <+: before then splitName 0 (' ' :: behind) before
        else (behind, ' ' :: before) := by
  fun_induction outerSpace? depth name text with
  | case1 => rfl
  | case2 depth behind c text hclose ih =>
      rw [splitName, if_pos hclose, ih]
      simp
  | case3 depth behind c text hclose hopen ih =>
      rw [splitName, if_neg hclose, if_pos hopen, ih]
      simp
  | case4 depth behind c text hclose hopen hspace =>
      obtain ⟨rfl, rfl⟩ := hspace
      rw [splitName, if_neg hclose, if_neg hopen]
      by_cases hword : operatorReversed <+: text
      · simp [hword]
      · simp [hword]
  | case5 depth behind c text hclose hopen hspace ih =>
      rw [splitName, if_neg hclose, if_neg hopen, if_neg fun h => hspace ⟨h.1, h.2.1⟩, ih]
      simp

/-- Every search ends. -/
theorem searches_splitName (text : List Char) : Searches text (splitName 0 [] text) := by
  -- a search that begins again is left with a shorter text
  induction hlength : text.length using Nat.strongRecOn generalizing text with
  | ind length ih =>
      rw [splitName_outerSpace]
      cases hspace : outerSpace? 0 [] text with
      | none =>
          rw [List.append_nil]
          exact .whole hspace
      | some cut =>
          obtain ⟨behind, before⟩ := cut
          by_cases hword : operatorReversed <+: before
          · have hshorter := length_lt_of_outerSpace? hspace
            have hagain := ih before.length (by omega) before rfl
            simp only [if_pos hword]
            rw [splitName_eq]
            exact .again hspace hword hagain
          · simp only [if_neg hword]
            exact .cut hspace hword

/-! ## The parts of a text -/

/-- A signature from what stands before the parameters, in reverse. -/
def assemble (head : List Char) (parameters : Option (List Char)) (text : String) : Signature :=
  let (name, before) := splitName 0 [] (Text.trimLeft head)
  let returnType := Text.trim before.reverse
  { returnType := if returnType.isEmpty then none else some (String.ofList returnType)
    name := String.ofList name
    parameters := parameters.map String.ofList
    full := text }

theorem parse_eq_of_some {text : String} {inside before : List Char}
    (h : parameters? text.toList.reverse = some (inside, before)) :
    parse text = assemble before (some inside) text := by
  rw [parse, h]
  rfl

theorem parse_eq_of_none {text : String} (h : parameters? text.toList.reverse = none) :
    parse text = assemble text.toList.reverse none text := by
  rw [parse, h]
  rfl

/-- Only blanks are left out around a name and a return type. -/
theorem exists_cut_assemble (head : List Char) (parameters : Option (List Char)) (text : String) :
    ∃ front between behind, Text.Blank front ∧ Text.Blank between ∧ Text.Blank behind ∧
      head.reverse = front ++ (((assemble head parameters text).returnType.getD "").toList ++
        (between ++ ((assemble head parameters text).name.toList ++ behind))) := by
  obtain ⟨behind, hbehind, hhead⟩ := Text.exists_trimLeft head
  have hcut := splitName_append 0 [] (Text.trimLeft head)
  rw [assemble]
  generalize splitName 0 [] (Text.trimLeft head) = cut at hcut ⊢
  obtain ⟨name, before⟩ := cut
  obtain ⟨front, between, hfront, hbetween, hbefore⟩ := Text.exists_trim before.reverse
  have hreturn : ((if (Text.trim before.reverse).isEmpty then none
      else some (String.ofList (Text.trim before.reverse))).getD "").toList = Text.trim before.reverse := by
    cases Text.trim before.reverse with
    | nil => rfl
    | cons c rest => simp
  refine ⟨front, between, behind.reverse, hfront, hbetween, hbehind.reverse, ?_⟩
  have hwhole : head = behind ++ (name.reverse ++ before) := by
    rw [hhead]
    exact congrArg (behind ++ ·) hcut.symm
  rw [hwhole, List.reverse_append, List.reverse_append, List.reverse_reverse, hbefore]
  simp only [hreturn, String.toList_ofList, List.append_assoc]

/-- What may stand behind parameters: blanks and qualifiers. -/
def IsTail (tail : List Char) : Prop :=
  ∃ words, Text.Spaced words tail ∧ ∀ word ∈ words, word ∈ qualifiers

/-- What a text holds behind its name: nothing, or the parameters in parentheses and a tail. -/
def Encloses : Option String → List Char → Prop
  | none, rest => rest = []
  | some parameters, rest =>
    ∃ tail, rest = '(' :: (parameters.toList ++ ')' :: tail) ∧ IsTail tail ∧ ')' ∉ tail ∧
      Nested parentheses parameters.toList

/-- What the parts of a signature are cut from. -/
theorem exists_cut_parse (text : String) :
    ∃ front between behind rest, Text.Blank front ∧ Text.Blank between ∧ Text.Blank behind ∧
      Encloses (parse text).parameters rest ∧
      text.toList = front ++ (((parse text).returnType.getD "").toList ++
        (between ++ ((parse text).name.toList ++ (behind ++ rest)))) := by
  cases hparameters : parameters? text.toList.reverse with
  | none =>
      obtain ⟨front, between, behind, hfront, hbetween, hbehind, hhead⟩ :=
        exists_cut_assemble text.toList.reverse none text
      rw [List.reverse_reverse] at hhead
      rw [parse_eq_of_none hparameters]
      refine ⟨front, between, behind, [], hfront, hbetween, hbehind, rfl, ?_⟩
      rw [List.append_nil]
      exact hhead
  | some cut =>
      obtain ⟨inside, before⟩ := cut
      obtain ⟨tail, hreversed, hclose, hwords, hinside⟩ := parameters?_eq_some_iff.1 hparameters
      obtain ⟨front, between, behind, hfront, hbetween, hbehind, hhead⟩ :=
        exists_cut_assemble before (some inside) text
      have htext : text.toList = before.reverse ++ '(' :: (inside ++ ')' :: tail.reverse) := by
        rw [← List.reverse_reverse text.toList, hreversed]
        simp
      have htail : IsTail tail.reverse := ⟨_, Text.words_eq_iff.1 rfl, hwords⟩
      rw [parse_eq_of_some hparameters]
      refine ⟨front, between, behind, '(' :: (inside ++ ')' :: tail.reverse), hfront, hbetween, hbehind,
        ⟨tail.reverse, by simp, htail, by simpa using hclose, by simpa using hinside⟩, ?_⟩
      rw [htext, hhead]
      simp only [List.append_assoc]

/-- A signature has the parameters that are found in its text. -/
theorem parameters_parse_eq_none_iff {text : String} :
    (parse text).parameters = none ↔ parameters? text.toList.reverse = none := by
  cases hparameters : parameters? text.toList.reverse with
  | none => simp [parse_eq_of_none hparameters, assemble]
  | some cut => simp [parse_eq_of_some hparameters, assemble]

/-- Some word of a text is no qualifier. -/
theorem exists_spaced_not_mem_iff {tail : List Char} :
    (∃ words, Text.Spaced words tail ∧ ∃ word ∈ words, word ∉ qualifiers) ↔
      ∃ word ∈ Text.words tail, word ∉ qualifiers := by
  constructor
  · rintro ⟨words, hspaced, hforeign⟩
    rwa [Text.words_eq_iff.2 hspaced]
  · exact fun hforeign => ⟨_, Text.words_eq_iff.1 rfl, hforeign⟩

/-- Cutting a signature loses no character but blanks, the parentheses around the parameters, and the
qualifiers behind them. There are no parameters if and only if the text has no closing parenthesis, if a
word behind the last one is no qualifier, or if no parenthesis matches that one. Every search for a name
ends. -/
theorem parse_lossless (text : String) :
    (∃ front between behind rest, Text.Blank front ∧ Text.Blank between ∧ Text.Blank behind ∧
      Encloses (parse text).parameters rest ∧
      text.toList = front ++ (((parse text).returnType.getD "").toList ++
        (between ++ ((parse text).name.toList ++ (behind ++ rest))))) ∧
    ((parse text).parameters = none ↔
      ')' ∉ text.toList ∨ ∃ front tail, text.toList = front ++ ')' :: tail ∧ ')' ∉ tail ∧
        ((∃ words, Text.Spaced words tail ∧ ∃ word ∈ words, word ∉ qualifiers) ∨
          ∀ before inside, front = before ++ '(' :: inside → ¬ Nested parentheses inside)) ∧
    ∀ reversed, Searches reversed (splitName 0 [] reversed) := by
  refine ⟨exists_cut_parse text, ?_, searches_splitName⟩
  rw [parameters_parse_eq_none_iff, parameters?_eq_none_iff]
  simp only [exists_spaced_not_mem_iff]

end Signature

end FirmwareSymbols
