import FirmwareSymbols.Proofs.CutSignature
import Mathlib.Data.List.Induction
import Mathlib.Data.List.Infix

/-!
# Printed signatures

A demangler prints the return type of a function, its name, its parameters
in parentheses, and its qualifiers. The search for the name reads such a
text backward and counts brackets, so what it does with a piece of the text
depends only on how many brackets stand open behind the piece. A piece that
stays whole is passed over; the name is found if it stays whole and if no
bracket stands open in front of it.

## Main results

* `Signature.splitName_of_staysWhole`: a piece that is passed over.
* `Signature.splitName_eq_name_iff`: when the name is found.
* `Signature.staysWhole_iff_of_nested`: which nested texts stay whole.
* `Signature.parse_printed`: a printed signature is parsed into the parts
  that it was printed from.
-/

namespace FirmwareSymbols

namespace Signature

open Text (Nested brackets parentheses)

/-! ## Passing over a piece of text -/

/-- The depth of brackets in front of a character, from the depth behind it. -/
def depthStep (c : Char) (depth : Nat) : Nat :=
  if c = '>' ∨ c = ')' then depth + 1 else if c = '<' ∨ c = '(' then depth - 1 else depth

/-- The depth of brackets in front of a text, from the depth behind it. -/
def depthBefore (text : List Char) (depth : Nat) : Nat := text.foldr depthStep depth

/-- The search for the name does not stop inside a text: every space that it comes to outside brackets
stands behind the word `operator`. -/
def StaysWhole (front text : List Char) (depth : Nat) : Prop :=
  ∀ before behind, text = before ++ ' ' :: behind → depthBefore behind depth = 0 →
    "operator".toList <:+ front ++ before

@[simp] theorem depthBefore_nil (depth : Nat) : depthBefore [] depth = depth := rfl

@[simp] theorem depthBefore_cons (c : Char) (text : List Char) (depth : Nat) :
    depthBefore (c :: text) depth = depthStep c (depthBefore text depth) := rfl

@[simp] theorem depthBefore_append (first second : List Char) (depth : Nat) :
    depthBefore (first ++ second) depth = depthBefore first (depthBefore second depth) :=
  List.foldr_append

theorem operatorReversed_prefix_iff {text : List Char} :
    operatorReversed <+: text.reverse ↔ "operator".toList <:+ text :=
  List.reverse_prefix

/-- One step of the search. -/
theorem splitName_cons (depth : Nat) (name before : List Char) (c : Char) :
    splitName depth name (c :: before) =
      if c = ' ' ∧ depth = 0 ∧ ¬ operatorReversed <+: before then (name, c :: before)
      else splitName (depthStep c depth) (c :: name) before := by
  rw [splitName, depthStep]
  by_cases hclose : c = '>' ∨ c = ')'
  · have hspace : c ≠ ' ' := by rcases hclose with rfl | rfl <;> decide
    simp [hclose, hspace]
  · by_cases hopen : c = '<' ∨ c = '('
    · have hspace : c ≠ ' ' := by rcases hopen with rfl | rfl <;> decide
      simp [hclose, hopen, hspace]
    · simp [hclose, hopen]

theorem length_le_splitName (depth : Nat) (name before : List Char) :
    name.length ≤ (splitName depth name before).1.length := by
  rw [splitName_eq]
  simp

/-- A text stays whole if its parts do. -/
theorem staysWhole_append {front first second : List Char} {depth : Nat} :
    StaysWhole front (first ++ second) depth ↔
      StaysWhole front first (depthBefore second depth) ∧ StaysWhole (front ++ first) second depth := by
  constructor
  · intro h
    constructor
    · rintro before behind rfl hdepth
      refine h before (behind ++ second) (by simp) ?_
      rw [depthBefore_append, hdepth]
    · rintro before behind rfl hdepth
      have hword := h (first ++ before) behind (by simp) hdepth
      rwa [← List.append_assoc] at hword
  · rintro ⟨hfirst, hsecond⟩ before behind hsplit hdepth
    rcases List.append_eq_append_iff.1 hsplit with ⟨rest, rfl, rfl⟩ | ⟨rest, rfl, hrest⟩
    · have hword := hsecond rest behind rfl hdepth
      rwa [List.append_assoc] at hword
    · rcases List.cons_eq_append_iff.1 hrest with ⟨rfl, rfl⟩ | ⟨rest, rfl, rfl⟩
      · have hword := hsecond [] behind rfl hdepth
        simpa using hword
      · refine hfirst before rest rfl ?_
        rwa [depthBefore_append] at hdepth

theorem staysWhole_nil (front : List Char) (depth : Nat) : StaysWhole front [] depth := by
  intro before behind hsplit
  simp at hsplit

theorem staysWhole_singleton {front : List Char} {c : Char} {depth : Nat} :
    StaysWhole front [c] depth ↔ (c = ' ' → depth = 0 → "operator".toList <:+ front) := by
  constructor
  · rintro h rfl hdepth
    simpa using h [] [] rfl hdepth
  · intro h before behind hsplit hdepth
    rcases List.cons_eq_append_iff.1 hsplit with ⟨rfl, hcons⟩ | ⟨rest, rfl, hnil⟩
    · obtain ⟨rfl, rfl⟩ : ' ' = c ∧ behind = [] := by simpa using hcons
      simpa using h rfl hdepth
    · simp at hnil

/-- The search stops at a character of a text unless the text stays whole there. -/
theorem splitName_concat (depth : Nat) (name front text : List Char) (c : Char) :
    splitName depth name (front ++ (text ++ [c])).reverse =
      if c = ' ' ∧ depth = 0 ∧ ¬ "operator".toList <:+ front ++ text then
        (name, c :: (front ++ text).reverse)
      else splitName (depthStep c depth) (c :: name) (front ++ text).reverse := by
  have hreverse : (front ++ (text ++ [c])).reverse = c :: (front ++ text).reverse := by simp
  rw [hreverse, splitName_cons]
  simp only [operatorReversed_prefix_iff]

/-- The search passes over a text that stays whole. -/
theorem splitName_of_staysWhole {front text : List Char} {depth : Nat}
    (h : StaysWhole front text depth) (name : List Char) :
    splitName depth name (front ++ text).reverse =
      splitName (depthBefore text depth) (text ++ name) front.reverse := by
  induction text using List.reverseRecOn generalizing depth name with
  | nil => simp
  | append_singleton text c ih =>
      obtain ⟨hrest, hlast⟩ := staysWhole_append.1 h
      have hstop : ¬ (c = ' ' ∧ depth = 0 ∧ ¬ "operator".toList <:+ front ++ text) := fun hspace =>
        hspace.2.2 (staysWhole_singleton.1 hlast hspace.1 hspace.2.1)
      rw [splitName_concat, if_neg hstop]
      simpa using ih hrest (c :: name)

/-- The search stops in a text that does not stay whole. -/
theorem length_splitName_lt {front text : List Char} {depth : Nat}
    (h : ¬ StaysWhole front text depth) (name : List Char) :
    (splitName depth name (front ++ text).reverse).1.length < (text ++ name).length := by
  induction text using List.reverseRecOn generalizing depth name with
  | nil => exact absurd (staysWhole_nil front depth) h
  | append_singleton text c ih =>
      rw [splitName_concat]
      split
      · simp
        omega
      · next hstop =>
          have hrest : ¬ StaysWhole front text (depthStep c depth) := fun hrest =>
            h (staysWhole_append.2 ⟨hrest, staysWhole_singleton.2 fun hspace hdepth =>
              not_not.1 fun hword => hstop ⟨hspace, hdepth, hword⟩⟩)
          simpa using ih hrest (c :: name)

/-! ## Nested texts -/

/-- A space of a text outside its brackets, with what stands before and behind it. -/
structure OuterSpace (text before behind : List Char) : Prop where
  split : text = before ++ ' ' :: behind
  before_nested : Nested brackets before
  behind_nested : Nested brackets behind

section Kinds

variable {opening closing : Char}

theorem mem_brackets (h : (opening, closing) ∈ brackets) :
    (opening = '<' ∧ closing = '>') ∨ (opening = '(' ∧ closing = ')') := by
  simpa [brackets] using h

theorem ne_space_of_mem_brackets (h : (opening, closing) ∈ brackets) :
    opening ≠ ' ' ∧ closing ≠ ' ' := by
  rcases mem_brackets h with ⟨rfl, rfl⟩ | ⟨rfl, rfl⟩ <;> decide

theorem depthStep_opening (h : (opening, closing) ∈ brackets) (depth : Nat) :
    depthStep opening depth = depth - 1 := by
  rcases mem_brackets h with ⟨rfl, rfl⟩ | ⟨rfl, rfl⟩ <;> rfl

theorem depthStep_closing (h : (opening, closing) ∈ brackets) (depth : Nat) :
    depthStep closing depth = depth + 1 := by
  rcases mem_brackets h with ⟨rfl, rfl⟩ | ⟨rfl, rfl⟩ <;> rfl

end Kinds

theorem depthStep_of_plain {c : Char} (hc : ∀ kind ∈ brackets, c ≠ kind.1 ∧ c ≠ kind.2) (depth : Nat) :
    depthStep c depth = depth := by
  simp [brackets] at hc
  simp [depthStep, hc]

/-- Nested brackets do not count. -/
theorem depthBefore_of_nested {text : List Char} (h : Nested brackets text) (depth : Nat) :
    depthBefore text depth = depth := by
  induction h generalizing depth with
  | nil => rfl
  | plain hc _ ih => rw [depthBefore_cons, ih, depthStep_of_plain hc]
  | group hkind _ _ ihInner ihRest =>
      rw [depthBefore_cons, depthBefore_append, depthBefore_cons, ihRest, ihInner,
        depthStep_opening hkind, depthStep_closing hkind, Nat.add_sub_cancel]

/-- Inside nested brackets the depth does not fall below the depth behind them. -/
theorem le_depthBefore_of_nested {text : List Char} (h : Nested brackets text) {front rest : List Char}
    (hsplit : text = front ++ rest) (depth : Nat) : depth ≤ depthBefore rest depth := by
  induction h generalizing front rest depth with
  | nil =>
      obtain ⟨rfl, rfl⟩ := List.append_eq_nil_iff.1 hsplit.symm
      exact Nat.le_refl _
  | plain hc hrest ih =>
      rcases List.cons_eq_append_iff.1 hsplit with ⟨rfl, rfl⟩ | ⟨front, rfl, rfl⟩
      · exact Nat.le_of_eq (depthBefore_of_nested (.plain hc hrest) depth).symm
      · exact ih rfl depth
  | @group opening closing inner behind hkind hinner hbehind ihInner ihBehind =>
      have hclosed : depthStep closing (depthBefore behind depth) = depth + 1 := by
        rw [depthBefore_of_nested hbehind, depthStep_closing hkind]
      rcases List.cons_eq_append_iff.1 hsplit with ⟨rfl, rfl⟩ | ⟨front, rfl, hrest⟩
      · exact Nat.le_of_eq (depthBefore_of_nested (.group hkind hinner hbehind) depth).symm
      · rcases List.append_eq_append_iff.1 hrest with ⟨others, rfl, hothers⟩ | ⟨others, rfl, rfl⟩
        · rcases List.cons_eq_append_iff.1 hothers with ⟨rfl, rfl⟩ | ⟨others, rfl, rfl⟩
          · rw [depthBefore_cons, hclosed]
            exact Nat.le_succ depth
          · exact ihBehind rfl depth
        · have hdeeper := ihInner rfl (depth + 1)
          rw [depthBefore_append, depthBefore_cons, hclosed]
          omega

theorem nested_of_depthBefore_le {before behind : List Char} {depth : Nat}
    (h : Nested brackets (before ++ ' ' :: behind)) (hdepth : depthBefore behind depth ≤ depth) :
    Nested brackets before ∧ Nested brackets behind := by
  generalize hsplit : before ++ ' ' :: behind = text at h
  induction h generalizing before with
  | nil => simp at hsplit
  | plain hc hrest ih =>
      rcases List.cons_eq_append_iff.1 hsplit.symm with ⟨rfl, hcons⟩ | ⟨before, rfl, hothers⟩
      · cases hcons
        exact ⟨.nil, hrest⟩
      · obtain ⟨hbefore, hbehind⟩ := ih hothers.symm
        exact ⟨.plain hc hbefore, hbehind⟩
  | @group opening closing inner rest hkind hinner hrest ihInner ihRest =>
      obtain ⟨hopening, hclosing⟩ := ne_space_of_mem_brackets hkind
      rcases List.cons_eq_append_iff.1 hsplit.symm with ⟨rfl, hcons⟩ | ⟨before, rfl, hothers⟩
      · exact absurd (List.cons.inj hcons).1.symm hopening
      · rcases List.append_eq_append_iff.1 hothers with ⟨others, rfl, hcons⟩ | ⟨others, rfl, hcons⟩
        · rcases List.cons_eq_append_iff.1 hcons with ⟨rfl, hspace⟩ | ⟨others, rfl, hnext⟩
          · exact absurd (List.cons.inj hspace).1.symm hclosing
          · obtain ⟨hbefore, hbehind⟩ := ihRest hnext.symm
            exact ⟨.group hkind hinner hbefore, hbehind⟩
        · -- the bracket that is closed behind the space stands open there
          rcases List.cons_eq_append_iff.1 hcons with ⟨rfl, hspace⟩ | ⟨others, rfl, rfl⟩
          · exact absurd (List.cons.inj hspace).1 hclosing
          · have hinside : before ++ ' ' :: others = (before ++ [' ']) ++ others := by simp
            have hdeeper := le_depthBefore_of_nested hinner hinside (depth + 1)
            rw [depthBefore_append, depthBefore_cons, depthBefore_of_nested hrest,
              depthStep_closing hkind] at hdepth
            omega

/-- A space in a nested text stands outside the brackets unless some stand open behind it. -/
theorem outerSpace_of_depthBefore_le {text before behind : List Char} {depth : Nat}
    (h : Nested brackets text) (hsplit : text = before ++ ' ' :: behind)
    (hdepth : depthBefore behind depth ≤ depth) : OuterSpace text before behind := by
  rw [hsplit] at h
  obtain ⟨hbefore, hbehind⟩ := nested_of_depthBefore_le h hdepth
  exact ⟨hsplit, hbefore, hbehind⟩

/-- A nested text stays whole if the word `operator` stands before each of its spaces outside brackets. -/
theorem staysWhole_iff_of_nested {front text : List Char} (h : Nested brackets text) :
    StaysWhole front text 0 ↔
      ∀ before behind, OuterSpace text before behind → "operator".toList <:+ front ++ before := by
  constructor
  · intro hwhole before behind hspace
    exact hwhole before behind hspace.split (depthBefore_of_nested hspace.behind_nested 0)
  · intro hspaces before behind hsplit hdepth
    exact hspaces before behind (outerSpace_of_depthBefore_le h hsplit (Nat.le_of_eq hdepth))

/-- A nested text without a space outside brackets stays whole in any brackets. -/
theorem staysWhole_of_nested {front text : List Char} (h : Nested brackets text)
    (hspaces : ∀ before behind, ¬ OuterSpace text before behind) (depth : Nat) :
    StaysWhole front text depth := by
  intro before behind hsplit hdepth
  have hle : depthBefore behind depth ≤ depth := by omega
  exact absurd (outerSpace_of_depthBefore_le h hsplit hle) (hspaces before behind)

/-- A nested text stays whole while brackets stand open behind it. -/
theorem staysWhole_of_pos {front text : List Char} {depth : Nat} (h : Nested brackets text)
    (hdepth : 0 < depth) : StaysWhole front text depth := by
  intro before behind hsplit hbehind
  have hpieces : text = (before ++ [' ']) ++ behind := by simp [hsplit]
  have hle := le_depthBefore_of_nested h hpieces depth
  omega

/-! ## What is printed -/

/-- What is printed in front of a name. -/
def inFront (returnType : Option String) : List Char := returnType.elim [] (·.toList ++ [' '])

/-- The name is found behind a return type if it stays whole, no bracket stands open in front of it, and
the return type does not end in the word `operator`. -/
theorem splitName_eq_name_iff {returnType : Option String} {name : List Char} :
    (splitName 0 [] (inFront returnType ++ name).reverse).1 = name ↔
      StaysWhole (inFront returnType) name 0 ∧
        ∀ text, returnType = some text →
          depthBefore name 0 = 0 ∧ ¬ "operator".toList <:+ text.toList := by
  by_cases hwhole : StaysWhole (inFront returnType) name 0
  · rw [splitName_of_staysWhole hwhole, List.append_nil]
    cases returnType with
    | none => simpa [inFront, splitName] using hwhole
    | some text =>
        have hreverse : (inFront (some text)).reverse = ' ' :: text.toList.reverse := by simp [inFront]
        rw [hreverse, splitName_cons]
        simp only [operatorReversed_prefix_iff]
        by_cases hstop : depthBefore name 0 = 0 ∧ ¬ "operator".toList <:+ text.toList
        · rw [if_pos ⟨trivial, hstop⟩]
          refine ⟨fun _ => ⟨hwhole, fun other heq => ?_⟩, fun _ => rfl⟩
          cases heq
          exact hstop
        · rw [if_neg fun h => hstop h.2]
          have hlonger := length_le_splitName (depthStep ' ' (depthBefore name 0)) (' ' :: name)
            text.toList.reverse
          constructor
          · intro heq
            rw [heq, List.length_cons] at hlonger
            omega
          · exact fun h => absurd (h.2 text rfl) hstop
  · have hshorter := length_splitName_lt hwhole []
    constructor
    · intro heq
      rw [heq, List.append_nil] at hshorter
      exact absurd hshorter (Nat.lt_irrefl _)
    · exact fun h => absurd h.1 hwhole

/-- A signature as it is printed. -/
def printed (returnType : Option String) (name parameters : String) (words : List String) : String :=
  returnType.elim "" (· ++ " ") ++ name ++ "(" ++ parameters ++ ")" ++
    String.join (words.map (" " ++ ·))

theorem toList_printed (returnType : Option String) (name parameters : String) (words : List String) :
    (printed returnType name parameters words).toList =
      inFront returnType ++ (name.toList ++ '(' :: (parameters.toList ++
        ')' :: words.flatMap fun word => ' ' :: word.toList)) := by
  have hspace : " ".toList = [' '] := rfl
  have hopen : "(".toList = ['('] := rfl
  have hclose : ")".toList = [')'] := rfl
  cases returnType with
  | none => simp [printed, inFront, List.flatMap_map, hspace, hopen, hclose]
  | some text => simp [printed, inFront, List.flatMap_map, hspace, hopen, hclose]

/-- A return type as it is printed: it has no blanks around it. -/
def IsReturnType (text : String) : Prop := text ≠ "" ∧ Text.Trimmed text.toList

theorem isWord_of_mem_qualifiers {word : List Char} (h : word ∈ qualifiers) : Text.IsWord word := by
  have hall : ∀ word ∈ qualifiers, Text.IsWord word := by decide
  exact hall word h

theorem not_mem_of_mem_qualifiers {word : List Char} (h : word ∈ qualifiers) : ')' ∉ word := by
  have hall : ∀ word ∈ qualifiers, ')' ∉ word := by decide
  exact hall word h

/-- The qualifiers of a signature are the words behind its parameters. -/
theorem spaced_qualifiers {words : List String} (hwords : ∀ word ∈ words, word.toList ∈ qualifiers) :
    Text.Spaced (words.map String.toList) (words.flatMap fun word => ' ' :: word.toList) := by
  induction words with
  | nil => exact .blanks (by simp [Text.Blank])
  | cons word rest ih =>
      obtain ⟨hword, hrest⟩ := List.forall_mem_cons.1 hwords
      have hends : ∀ c, (rest.flatMap fun word => ' ' :: word.toList).head? = some c →
          Text.isBlank c = true := by
        cases rest with
        | nil => simp
        | cons next rest =>
            intro c hc
            obtain rfl : ' ' = c := by simpa using hc
            rfl
      exact @Text.Spaced.word [' '] _ _ _ (by simp [Text.Blank]; rfl) (isWord_of_mem_qualifiers hword) hends
        (ih hrest)

theorem not_mem_qualifiers {words : List String} (hwords : ∀ word ∈ words, word.toList ∈ qualifiers) :
    ')' ∉ words.flatMap fun word => ' ' :: word.toList := by
  intro hmem
  obtain ⟨word, hword, hclose⟩ := List.mem_flatMap.1 hmem
  rcases List.mem_cons.1 hclose with hspace | hclose
  · exact absurd hspace (by decide)
  · exact not_mem_of_mem_qualifiers (hwords word hword) hclose

/-! ## Reading what is printed -/

section Printed

variable {returnType : Option String} {name parameters : String} {words : List String}

/-- The parameters of what is printed. -/
theorem parse_printed_eq_assemble (hparameters : Nested parentheses parameters.toList)
    (hwords : ∀ word ∈ words, word.toList ∈ qualifiers) :
    parse (printed returnType name parameters words) =
      assemble (inFront returnType ++ name.toList).reverse (some parameters.toList)
        (printed returnType name parameters words) := by
  refine parse_eq_of_some (parameters?_eq_some_iff.2 ?_)
  refine ⟨(words.flatMap fun word => ' ' :: word.toList).reverse, ?_, ?_, ?_, hparameters⟩
  · rw [toList_printed]
    simp
  · simpa using not_mem_qualifiers hwords
  · rw [List.reverse_reverse, Text.words_eq_iff.2 (spaced_qualifiers hwords)]
    simpa using hwords

theorem trimLeft_printed (hne : name ≠ "")
    (hlast : ∀ c, name.toList.getLast? = some c → Text.isBlank c = false) :
    Text.trimLeft (inFront returnType ++ name.toList).reverse =
      (inFront returnType ++ name.toList).reverse := by
  refine Text.trimLeft_eq_self fun c hc => hlast c ?_
  have hnonempty : name.toList ≠ [] := by simpa using hne
  rwa [List.head?_reverse, List.getLast?_append, List.getLast?_eq_some_getLast hnonempty,
    Option.some_or, ← List.getLast?_eq_some_getLast hnonempty] at hc

/-- The name is reported if it is found. -/
theorem name_assemble_iff (hne : name ≠ "")
    (hlast : ∀ c, name.toList.getLast? = some c → Text.isBlank c = false)
    (inside : Option (List Char)) (full : String) :
    (assemble (inFront returnType ++ name.toList).reverse inside full).name = name ↔
      (splitName 0 [] (inFront returnType ++ name.toList).reverse).1 = name.toList := by
  have hname : (assemble (inFront returnType ++ name.toList).reverse inside full).name =
      String.ofList (splitName 0 [] (inFront returnType ++ name.toList).reverse).1 := by
    rw [assemble, trimLeft_printed hne hlast]
  rw [hname, ← String.toList_inj, String.toList_ofList]

/-- If the name is reported, so is the return type. -/
theorem assemble_eq_iff (hreturn : ∀ text, returnType = some text → IsReturnType text)
    (hne : name ≠ "") (hlast : ∀ c, name.toList.getLast? = some c → Text.isBlank c = false)
    (inside : Option (List Char)) (full : String) :
    assemble (inFront returnType ++ name.toList).reverse inside full =
        ⟨returnType, name, inside.map String.ofList, full⟩ ↔
      (splitName 0 [] (inFront returnType ++ name.toList).reverse).1 = name.toList := by
  constructor
  · exact fun heq => (name_assemble_iff hne hlast inside full).1 (congrArg Signature.name heq)
  · intro hfound
    have hcut := splitName_append 0 [] (inFront returnType ++ name.toList).reverse
    rw [assemble, trimLeft_printed hne hlast]
    generalize splitName 0 [] (inFront returnType ++ name.toList).reverse = cut at hcut hfound ⊢
    obtain ⟨found, before⟩ := cut
    simp only at hfound hcut ⊢
    have hbefore : before.reverse = inFront returnType := by
      rw [hfound, List.reverse_append] at hcut
      rw [List.append_cancel_left hcut, List.reverse_reverse]
    rw [hfound, hbefore, String.ofList_toList]
    congr 1
    cases returnType with
    | none => rfl
    | some text =>
        obtain ⟨hnonempty, htrimmed⟩ := hreturn text rfl
        have htext : Text.trim (inFront (some text)) = text.toList :=
          @Text.trim_append [] _ [' '] (by simp [Text.Blank]) htrimmed (by simp [Text.Blank]; rfl)
        rw [htext]
        simp [hnonempty]

end Printed

/-! ## Names without outer spaces -/

/-- The name of a function as it is printed: its brackets are properly nested, no space stands outside
them, and no blank ends it. -/
structure IsName (name : List Char) : Prop where
  nonempty : name ≠ []
  last : ∀ c, name.getLast? = some c → Text.isBlank c = false
  nested : Nested brackets name
  spaces : ∀ before behind, ¬ OuterSpace name before behind

/-- A text has no space outside brackets if brackets stand open behind all of its spaces. -/
theorem not_outerSpace {text : List Char}
    (h : ∀ rest ∈ text.tails, rest.head? = some ' ' → depthBefore rest 0 ≠ 0)
    (before behind : List Char) : ¬ OuterSpace text before behind := by
  intro hspace
  refine h (' ' :: behind) ?_ rfl (depthBefore_of_nested hspace.behind_nested 0)
  rw [List.mem_tails, hspace.split]
  exact List.suffix_append before (' ' :: behind)

/-- A signature is parsed into the parts that it was printed from. -/
theorem parse_printed {returnType : Option String} {name parameters : String} {words : List String}
    (hname : IsName name.toList)
    (hreturn : ∀ text, returnType = some text →
      IsReturnType text ∧ ¬ "operator".toList <:+ text.toList)
    (hparameters : Nested parentheses parameters.toList)
    (hwords : ∀ word ∈ words, word.toList ∈ qualifiers) :
    parse (printed returnType name parameters words) =
      { returnType := returnType
        name := name
        parameters := some parameters
        full := printed returnType name parameters words } := by
  have hne : name ≠ "" := by simpa using hname.nonempty
  have hfound : (splitName 0 [] (inFront returnType ++ name.toList).reverse).1 = name.toList := by
    refine splitName_eq_name_iff.2 ⟨staysWhole_of_nested hname.nested hname.spaces 0, ?_⟩
    intro text htext
    exact ⟨depthBefore_of_nested hname.nested 0, (hreturn text htext).2⟩
  rw [parse_printed_eq_assemble hparameters hwords,
    (assemble_eq_iff (fun text htext => (hreturn text htext).1) hne hname.last _ _).2 hfound]
  simp

/-- A function template whose arguments hold spaces, with a function type for a parameter. -/
theorem parse_printed_template :
    parse (printed (some "std::pair<int, int>") "make<std::pair<int, int> >" "void (*)(int)" ["const"]) =
      { returnType := some "std::pair<int, int>"
        name := "make<std::pair<int, int> >"
        parameters := some "void (*)(int)"
        full := "std::pair<int, int> make<std::pair<int, int> >(void (*)(int)) const" } := by
  have hangle : ('<', '>') ∈ brackets := by simp [brackets]
  have hround : ('(', ')') ∈ parentheses := by simp [parentheses]
  refine parse_printed ⟨by decide, ?_, ?_, not_outerSpace (by decide)⟩ ?_ ?_ (by decide)
  · intro c hc
    obtain rfl : '>' = c := Option.some.inj hc
    rfl
  · exact (Nested.of_plain "make".toList (by decide)).append
      (.group hangle
        ((Nested.of_plain "std::pair".toList (by decide)).append
          (.group hangle (.of_plain "int, int".toList (by decide))
            (.of_plain " ".toList (by decide))))
        .nil)
  · intro text htext
    cases htext
    exact ⟨⟨by decide, by decide⟩, by decide⟩
  · exact (Nested.of_plain "void ".toList (by decide)).append
      (.group hround (.of_plain "*".toList (by decide))
        (.group hround (.of_plain "int".toList (by decide)) .nil))

end Signature

end FirmwareSymbols
