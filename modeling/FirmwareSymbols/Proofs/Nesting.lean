import FirmwareSymbols.Proofs.SpacedWords
import FirmwareSymbols.Signature

/-!
# Nested brackets

Brackets are matched by counting them from the end of a text. The relation
`Text.Nested` says which texts are properly nested without counting, and
the search for the parenthesis that opens the parameters of a signature is
put in its terms: between the two parentheses the text is nested, and no
other parenthesis can be found.

## Main results

* `Signature.toOpening_eq_some_iff`: the parenthesis that opens.
* `Signature.parameters?_eq_some_iff`, `Signature.parameters?_eq_none_iff`:
  which parameters a text has, and when it has none.
-/

namespace FirmwareSymbols

namespace Text

/-- A text in which brackets of some kinds are properly nested. -/
inductive Nested (kinds : List (Char × Char)) : List Char → Prop
  | nil : Nested kinds []
  /-- A character that is no bracket. -/
  | plain {c : Char} {rest : List Char} (hc : ∀ kind ∈ kinds, c ≠ kind.1 ∧ c ≠ kind.2)
      (hrest : Nested kinds rest) : Nested kinds (c :: rest)
  /-- A bracket, what stands in it, and the bracket that closes it. -/
  | group {opening closing : Char} {inner rest : List Char} (hkind : (opening, closing) ∈ kinds)
      (hinner : Nested kinds inner) (hrest : Nested kinds rest) :
      Nested kinds (opening :: (inner ++ closing :: rest))

/-- Round brackets only. -/
def parentheses : List (Char × Char) := [('(', ')')]

/-- The brackets of names: those of parameters and those of template arguments. -/
def brackets : List (Char × Char) := [('<', '>'), ('(', ')')]

theorem Nested.append {kinds : List (Char × Char)} {front rest : List Char}
    (hfront : Nested kinds front) (hrest : Nested kinds rest) : Nested kinds (front ++ rest) := by
  induction hfront with
  | nil => exact hrest
  | plain hc _ ih => exact .plain hc ih
  | group hkind hinner _ _ ih => simpa using Nested.group hkind hinner ih

/-- A text without brackets. -/
theorem Nested.of_plain {kinds : List (Char × Char)} (text : List Char)
    (h : text.all (fun c => kinds.all fun kind => c != kind.1 && c != kind.2) = true) :
    Nested kinds text := by
  induction text with
  | nil => exact .nil
  | cons c text ih =>
      rw [List.all_cons, Bool.and_eq_true] at h
      exact .plain (by simpa using h.1) (ih h.2)

end Text

namespace Signature

open Text (Nested parentheses)

/-! ## The parenthesis that opens -/

theorem toOpening_append {depth : Nat} {inside before within front : List Char}
    (h : toOpening depth inside before = some (within, front)) :
    within.reverse ++ '(' :: front = inside.reverse ++ before := by
  fun_induction toOpening depth inside before with
  | case1 => cases h
  | case2 depth inside before ih => simpa using ih h
  | case3 inside before =>
      cases h
      rfl
  | case4 inside before _ depth ih => simpa using ih h
  | case5 depth inside c before _ _ ih => simpa using ih h

theorem toOpening_closing (depth : Nat) (inside before : List Char) :
    toOpening depth inside (')' :: before) = toOpening (depth + 1) (')' :: inside) before := rfl

theorem toOpening_opening (depth : Nat) (inside before : List Char) :
    toOpening (depth + 1) inside ('(' :: before) = toOpening depth ('(' :: inside) before := rfl

/-- The search passes over what is nested. -/
theorem toOpening_of_nested {inner : List Char} (h : Nested parentheses inner) (depth : Nat)
    (inside before : List Char) :
    toOpening depth inside (inner.reverse ++ before) = toOpening depth (inner ++ inside) before := by
  induction h generalizing depth inside before with
  | nil => rfl
  | @plain c rest hc _ ih =>
      obtain ⟨hopen, hclose⟩ := hc ('(', ')') (by simp [parentheses])
      rw [List.reverse_cons, List.append_assoc, ih]
      simp [toOpening, hopen, hclose]
  | @group opening closing inner rest hkind _ _ ihInner ihRest =>
      obtain ⟨rfl, rfl⟩ : opening = '(' ∧ closing = ')' := by simpa [parentheses] using hkind
      have hreverse : ('(' :: (inner ++ ')' :: rest)).reverse ++ before =
          rest.reverse ++ ')' :: (inner.reverse ++ '(' :: before) := by simp
      rw [hreverse, ihRest, toOpening_closing, ihInner, toOpening_opening]
      simp

/-- A text that would be nested if as many parentheses stood open in front of it. -/
def Owes : Nat → List Char → Prop
  | 0, text => Nested parentheses text
  | depth + 1, text =>
    ∃ first rest, text = first ++ ')' :: rest ∧ Nested parentheses first ∧ Owes depth rest

theorem Owes.plain {depth : Nat} {text : List Char} {c : Char} (hopen : c ≠ '(') (hclose : c ≠ ')')
    (h : Owes depth text) : Owes depth (c :: text) := by
  have hc : ∀ kind ∈ parentheses, c ≠ kind.1 ∧ c ≠ kind.2 := by simpa [parentheses] using ⟨hopen, hclose⟩
  cases depth with
  | zero => exact Nested.plain hc h
  | succ depth =>
      obtain ⟨first, rest, rfl, hfirst, hrest⟩ := h
      exact ⟨c :: first, rest, rfl, .plain hc hfirst, hrest⟩

/-- One of the parentheses that stand open is written. -/
theorem Owes.opened {depth : Nat} {text : List Char} (h : Owes (depth + 1) text) :
    Owes depth ('(' :: text) := by
  obtain ⟨first, rest, rfl, hfirst, hrest⟩ := h
  have hkind : ('(', ')') ∈ parentheses := by simp [parentheses]
  cases depth with
  | zero => exact Nested.group hkind hfirst hrest
  | succ depth =>
      obtain ⟨second, behind, rfl, hsecond, hbehind⟩ := hrest
      exact ⟨'(' :: (first ++ ')' :: second), behind, by simp, .group hkind hfirst hsecond, hbehind⟩

theorem nested_of_toOpening {depth : Nat} {inside before within front : List Char}
    (howes : Owes depth inside) (h : toOpening depth inside before = some (within, front)) :
    Nested parentheses within := by
  fun_induction toOpening depth inside before with
  | case1 => cases h
  | case2 depth inside before ih => exact ih ⟨[], inside, rfl, .nil, howes⟩ h
  | case3 inside before =>
      cases h
      exact howes
  | case4 inside before _ depth ih => exact ih howes.opened h
  | case5 depth inside c before hclose hopen ih => exact ih (howes.plain hopen hclose) h

/-- The search finds the parenthesis behind which the text is nested. -/
theorem toOpening_eq_some_iff {before within front : List Char} :
    toOpening 0 [] before = some (within, front) ↔
      before = within.reverse ++ '(' :: front ∧ Nested parentheses within := by
  constructor
  · intro h
    have hnil : Owes 0 [] := Nested.nil
    exact ⟨(toOpening_append h).symm, nested_of_toOpening hnil h⟩
  · rintro ⟨rfl, hwithin⟩
    rw [toOpening_of_nested hwithin, List.append_nil]
    rfl

/-! ## Parameters -/

theorem bne_closing_of_not_mem {tail : List Char} (h : ')' ∉ tail) :
    ∀ c ∈ tail, (c != ')') = true := by
  intro c hc
  rw [bne_iff_ne]
  rintro rfl
  exact h hc

/-- Only what stands behind the last closing parenthesis of a text tells whether it ends parameters. -/
theorem parameters?_of_close {tail before : List Char} (htail : ')' ∉ tail) :
    parameters? (tail ++ ')' :: before) =
      if (Text.words tail.reverse).all qualifiers.contains then toOpening 0 [] before else none := by
  have htake : (tail ++ ')' :: before).takeWhile (· != ')') = tail := by
    rw [List.takeWhile_append_of_pos (bne_closing_of_not_mem htail)]
    simp
  have hdrop : (tail ++ ')' :: before).dropWhile (· != ')') = ')' :: before := by
    rw [List.dropWhile_append_of_pos (bne_closing_of_not_mem htail)]
    simp
  rw [parameters?, htake, hdrop]

theorem parameters?_of_not_mem {reversed : List Char} (h : ')' ∉ reversed) :
    parameters? reversed = none := by
  have hnone : (reversed ++ []).dropWhile (· != ')') = [] :=
    List.dropWhile_append_of_pos (bne_closing_of_not_mem h)
  rw [List.append_nil] at hnone
  rw [parameters?, hnone]

theorem all_qualifiers_iff {words : List (List Char)} :
    words.all qualifiers.contains = true ↔ ∀ word ∈ words, word ∈ qualifiers := by
  simp

/-- A text with parameters, in reverse: what stands behind them, the parameters, and what stands before
them. -/
theorem parameters?_eq_some_iff {reversed inside before : List Char} :
    parameters? reversed = some (inside, before) ↔
      ∃ tail, reversed = tail ++ ')' :: (inside.reverse ++ '(' :: before) ∧ ')' ∉ tail ∧
        (∀ word ∈ Text.words tail.reverse, word ∈ qualifiers) ∧ Nested parentheses inside := by
  constructor
  · intro h
    by_cases hclose : ')' ∈ reversed
    · obtain ⟨tail, rest, rfl, htail⟩ := List.eq_append_cons_of_mem hclose
      rw [parameters?_of_close htail] at h
      split at h
      · next hwords =>
          obtain ⟨hrest, hinside⟩ := toOpening_eq_some_iff.1 h
          exact ⟨tail, by rw [hrest], htail, all_qualifiers_iff.1 hwords, hinside⟩
      · cases h
    · rw [parameters?_of_not_mem hclose] at h
      cases h
  · rintro ⟨tail, rfl, htail, hwords, hinside⟩
    rw [parameters?_of_close htail, if_pos (all_qualifiers_iff.2 hwords)]
    exact toOpening_eq_some_iff.2 ⟨rfl, hinside⟩

/-- A text without parameters: it has no closing parenthesis, a word behind the last one is no
qualifier, or no parenthesis matches it. -/
theorem parameters?_eq_none_iff {text : List Char} :
    parameters? text.reverse = none ↔
      ')' ∉ text ∨ ∃ front tail, text = front ++ ')' :: tail ∧ ')' ∉ tail ∧
        ((∃ word ∈ Text.words tail, word ∉ qualifiers) ∨
          ∀ before inside, front = before ++ '(' :: inside → ¬ Nested parentheses inside) := by
  constructor
  · intro hnone
    by_cases hclose : ')' ∈ text
    · obtain ⟨tail, front, hreversed, htail⟩ := List.eq_append_cons_of_mem (List.mem_reverse.2 hclose)
      rw [hreversed, parameters?_of_close htail] at hnone
      refine .inr ⟨front.reverse, tail.reverse, ?_, by simpa using htail, ?_⟩
      · rw [← List.reverse_reverse text, hreversed]
        simp
      · split at hnone
        · refine .inr fun before inside hfront hinside => ?_
          have hsplit : front = inside.reverse ++ '(' :: before.reverse := by
            rw [← List.reverse_reverse front, hfront]
            simp
          rw [toOpening_eq_some_iff.2 ⟨hsplit, hinside⟩] at hnone
          cases hnone
        · next hwords =>
            rw [all_qualifiers_iff] at hwords
            simpa using Or.inl hwords
    · exact .inl hclose
  · rintro (hclose | ⟨front, tail, rfl, htail, hwhy⟩)
    · exact parameters?_of_not_mem (by simpa using hclose)
    · have hreversed : (front ++ ')' :: tail).reverse = tail.reverse ++ ')' :: front.reverse := by simp
      rw [hreversed, parameters?_of_close (by simpa using htail), List.reverse_reverse]
      rcases hwhy with ⟨word, hword, hforeign⟩ | hopen
      · rw [if_neg fun hall => hforeign (all_qualifiers_iff.1 hall word hword)]
      · split
        · cases hfound : toOpening 0 [] front.reverse with
          | none => rfl
          | some cut =>
              obtain ⟨hfront, hinside⟩ := toOpening_eq_some_iff.1 hfound
              refine absurd hinside (hopen cut.2.reverse cut.1 ?_)
              rw [← List.reverse_reverse front, hfront]
              simp
        · rfl

end Signature

end FirmwareSymbols
