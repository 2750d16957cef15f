import FirmwareSymbols.Text.Blank

/-!
# Words and blanks

A text is its words with blanks around them. The relation `Text.Spaced`
says so without a scan; splitting a text into words gives the only words
that it can have.

## Main results

* `Text.words_eq_iff`: the words of a text.
* `Text.exists_trim`: what trimming leaves out.
* `Text.trim_append`: what trimming gives back.
-/

namespace FirmwareSymbols

namespace Text

/-- A text that holds nothing but blanks. -/
def Blank (text : List Char) : Prop := ∀ c ∈ text, isBlank c = true

/-- A word: at least one character, and no blank. -/
structure IsWord (word : List Char) : Prop where
  nonempty : word ≠ []
  solid : ∀ c ∈ word, isBlank c = false

theorem isWord_iff {word : List Char} : IsWord word ↔ word ≠ [] ∧ word.all (!isBlank ·) = true := by
  simp only [List.all_eq_true, Bool.not_eq_true']
  exact ⟨fun h => ⟨h.nonempty, h.solid⟩, fun h => ⟨h.1, h.2⟩⟩

instance (word : List Char) : Decidable (IsWord word) := decidable_of_iff' _ isWord_iff

/-- Some words make up a text, with blanks around them. -/
inductive Spaced : List (List Char) → List Char → Prop
  /-- Blanks make up no word. -/
  | blanks {text : List Char} (hblank : Blank text) : Spaced [] text
  /-- A word begins behind blanks, and it ends at a blank or with the text. -/
  | word {front word rest : List Char} {words : List (List Char)} (hfront : Blank front)
      (hword : IsWord word) (hends : ∀ c, rest.head? = some c → isBlank c = true)
      (hrest : Spaced words rest) : Spaced (word :: words) (front ++ (word ++ rest))

/-! ## The words of a text -/

theorem Spaced.cons_blank {words : List (List Char)} {text : List Char} {c : Char}
    (hc : isBlank c = true) (h : Spaced words text) : Spaced words (c :: text) := by
  cases h with
  | blanks hblank => exact .blanks (List.forall_mem_cons.2 ⟨hc, hblank⟩)
  | word hfront hword hends hrest =>
      exact .word (List.forall_mem_cons.2 ⟨hc, hfront⟩) hword hends hrest

theorem spaced_wordsOnto {word : List Char} (hsolid : ∀ c ∈ word, isBlank c = false)
    (text : List Char) : Spaced (wordsOnto word text) (word.reverse ++ text) := by
  have hword : word ≠ [] → IsWord word.reverse := fun hne =>
    ⟨by simpa using hne, fun c hc => hsolid c (List.mem_reverse.1 hc)⟩
  induction text generalizing word with
  | nil =>
      cases word with
      | nil => exact .blanks (by simp [Blank])
      | cons c word =>
          refine @Spaced.word [] _ _ _ (by simp [Blank]) (hword (by simp)) (by simp) ?_
          exact .blanks (by simp [Blank])
  | cons c rest ih =>
      by_cases hc : isBlank c = true
      · have hrest : Spaced (wordsOnto [] rest) (c :: rest) := (ih (by simp) (by simp)).cons_blank hc
        cases word with
        | nil => simpa [wordsOnto, hc] using hrest
        | cons d word =>
            have hends : ∀ first, (c :: rest).head? = some first → isBlank first = true := by
              simpa using hc
            simpa [wordsOnto, hc] using
              @Spaced.word [] _ _ _ (by simp [Blank]) (hword (by simp)) hends hrest
      · have hsolid' : ∀ d ∈ c :: word, isBlank d = false :=
          List.forall_mem_cons.2 ⟨by simpa using hc, hsolid⟩
        have hlonger := ih hsolid' fun _ => ⟨by simp, fun d hd => hsolid' d (List.mem_reverse.1 hd)⟩
        simpa [wordsOnto, hc] using hlonger

theorem wordsOnto_append {text : List Char} (hsolid : ∀ c ∈ text, isBlank c = false)
    (word rest : List Char) : wordsOnto word (text ++ rest) = wordsOnto (text.reverse ++ word) rest := by
  induction text generalizing word with
  | nil => rfl
  | cons c text ih =>
      obtain ⟨hc, htext⟩ := List.forall_mem_cons.1 hsolid
      simp [wordsOnto, hc, ih htext]

theorem words_append_of_blank {front : List Char} (hfront : Blank front) (rest : List Char) :
    words (front ++ rest) = words rest := by
  induction front with
  | nil => rfl
  | cons c front ih =>
      obtain ⟨hc, hrest⟩ := List.forall_mem_cons.1 hfront
      simpa [words, wordsOnto, hc] using ih hrest

theorem words_append_of_isWord {word rest : List Char} (hword : IsWord word)
    (hends : ∀ c, rest.head? = some c → isBlank c = true) :
    words (word ++ rest) = word :: words rest := by
  rw [words, wordsOnto_append hword.solid, List.append_nil]
  cases rest with
  | nil => simp [words, wordsOnto, hword.nonempty]
  | cons c rest => simp [words, wordsOnto, hends c rfl, hword.nonempty]

/-- The words of a text are the only ones that make it up. -/
theorem words_eq_iff {text : List Char} {others : List (List Char)} :
    words text = others ↔ Spaced others text := by
  constructor
  · rintro rfl
    exact spaced_wordsOnto (by simp) text
  · intro h
    induction h with
    | blanks hblank =>
        rename_i text
        have hnone := words_append_of_blank hblank []
        rwa [List.append_nil] at hnone
    | word hfront hword hends hrest ih =>
        rw [words_append_of_blank hfront, words_append_of_isWord hword hends, ih]

/-! ## Trimming -/

/-- A text with no blank at either end. -/
structure Trimmed (text : List Char) : Prop where
  first : ∀ c, text.head? = some c → isBlank c = false
  last : ∀ c, text.getLast? = some c → isBlank c = false

theorem trimmed_iff {text : List Char} :
    Trimmed text ↔ text.head?.all (!isBlank ·) = true ∧ text.getLast?.all (!isBlank ·) = true := by
  simp only [Option.all_eq_true, Bool.not_eq_true']
  exact ⟨fun h => ⟨h.first, h.last⟩, fun h => ⟨h.1, h.2⟩⟩

instance (text : List Char) : Decidable (Trimmed text) := decidable_of_iff' _ trimmed_iff

theorem blank_takeWhile (text : List Char) : Blank (text.takeWhile isBlank) :=
  List.all_eq_true.1 List.all_takeWhile

theorem Blank.reverse {text : List Char} (h : Blank text) : Blank text.reverse :=
  fun c hc => h c (List.mem_reverse.1 hc)

theorem trimLeft_append_of_blank {front : List Char} (hfront : Blank front) (rest : List Char) :
    trimLeft (front ++ rest) = trimLeft rest :=
  List.dropWhile_append_of_pos hfront

/-- A text that begins with no blank stays as it is. -/
theorem trimLeft_eq_self {text : List Char} (hfirst : ∀ c, text.head? = some c → isBlank c = false) :
    trimLeft text = text := by
  cases text with
  | nil => rfl
  | cons c rest => simp [trimLeft, hfirst c rfl]

theorem exists_trimLeft (text : List Char) :
    ∃ front, Blank front ∧ text = front ++ trimLeft text :=
  ⟨text.takeWhile isBlank, blank_takeWhile text, List.takeWhile_append_dropWhile.symm⟩

/-- Trimming leaves out blanks at both ends. -/
theorem exists_trim (text : List Char) :
    ∃ front behind, Blank front ∧ Blank behind ∧ text = front ++ (trim text ++ behind) := by
  obtain ⟨front, hfront, htext⟩ := exists_trimLeft text
  obtain ⟨behind, hbehind, hrest⟩ := exists_trimLeft (trimLeft text).reverse
  refine ⟨front, behind.reverse, hfront, hbehind.reverse, ?_⟩
  have hback : trimLeft text = trim text ++ behind.reverse := by
    rw [← List.reverse_reverse (trimLeft text), hrest, List.reverse_append]
    rfl
  rw [← hback]
  exact htext

/-- Trimming takes blanks off a trimmed text. -/
theorem trim_append {front text behind : List Char} (hfront : Blank front) (htext : Trimmed text)
    (hbehind : Blank behind) : trim (front ++ (text ++ behind)) = text := by
  have hback : trimRight (text ++ behind) = text := by
    have hlast : trimLeft text.reverse = text.reverse :=
      trimLeft_eq_self fun c hc => htext.last c (by rwa [List.head?_reverse] at hc)
    have hreversed := trimLeft_append_of_blank hbehind.reverse text.reverse
    rw [hlast] at hreversed
    rw [trimRight, List.reverse_append]
    exact (congrArg List.reverse hreversed).trans (List.reverse_reverse text)
  cases text with
  | nil =>
      have hnone : trimLeft (front ++ behind) = [] := by
        have h := trimLeft_append_of_blank
          (fun c hc => (List.mem_append.1 hc).elim (hfront c) (hbehind c)) ([] : List Char)
        rwa [List.append_nil] at h
      rw [List.nil_append, trim, hnone]
      rfl
  | cons c rest =>
      have hfirst : trimLeft (c :: rest ++ behind) = c :: rest ++ behind :=
        trimLeft_eq_self (by simpa using htext.first c rfl)
      rw [trim, trimLeft_append_of_blank hfront, hfirst, hback]

end Text

end FirmwareSymbols
