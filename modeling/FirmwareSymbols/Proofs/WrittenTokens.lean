import FirmwareSymbols.Json.Print
import FirmwareSymbols.Json.Token

/-!
# Written tokens are read back

A number has no end of its own: it goes on as long as it can. So the text
of a number is that token only in front of a character that cannot continue
a number. A quoted string ends with its quote, and every character that
could be taken for something else inside it is escaped. All other tokens
are fixed words.

## Main definitions

* `Json.EndsNumber`: a text before which a number ends.
* `Json.IsNumber`: the literals of numbers.
* `Json.pieceOf`: how an escaped character is read.

## Main results

* `Json.number?_append`: a number ends before a character that cannot
  continue one.
* `Json.isNumber_toDigits`: decimal digits are a literal.
* `Json.string?_quote`: a quoted string is read back.
* `Json.Token.scanOnto_eq`, `Json.Token.scanOnto_blanks`: one step of
  scanning a text.
-/

namespace FirmwareSymbols

namespace Json

/-! ## Numbers -/

/-- Whether a character can stand behind a digit in a number. -/
def continuesNumber (c : Char) : Bool := c.isDigit || c == '.' || c == 'e' || c == 'E'

/-- A text whose first character, if it has one, does not continue a number. -/
def EndsNumber (text : List Char) : Prop := ∀ c rest, text = c :: rest → continuesNumber c = false

theorem EndsNumber.nil : EndsNumber [] := fun _ _ h => by cases h

theorem EndsNumber.cons {c : Char} {rest : List Char} (h : continuesNumber c = false) :
    EndsNumber (c :: rest) := by
  rintro _ _ ⟨⟩
  exact h

theorem EndsNumber.takeWhile {text : List Char} (h : EndsNumber text) :
    text.takeWhile Char.isDigit = [] ∧ text.dropWhile Char.isDigit = text := by
  cases text with
  | nil => exact ⟨rfl, rfl⟩
  | cons c rest =>
      have hc := h c rest rfl
      simp only [continuesNumber, Bool.or_eq_false_iff] at hc
      simp [hc.1.1.1]

variable {rest : List Char}

theorem digits?_append (hrest : EndsNumber rest) {text digits left : List Char}
    (h : digits? text = some (digits, left)) :
    digits? (text ++ rest) = some (digits, left ++ rest) := by
  unfold digits? at h
  split at h
  · cases h
  · rename_i hsome
    cases h
    have hkept : (text ++ rest).takeWhile Char.isDigit = text.takeWhile Char.isDigit ∧
        (text ++ rest).dropWhile Char.isDigit = text.dropWhile Char.isDigit ++ rest := by
      clear hsome
      induction text with
      | nil => simpa using hrest.takeWhile
      | cons c text ih =>
          by_cases hc : c.isDigit = true
          · simpa [hc] using ih
          · simp [hc]
    rw [digits?, hkept.1, hkept.2, if_neg hsome]

theorem wholePart?_append (hrest : EndsNumber rest) {text digits left : List Char}
    (h : wholePart? text = some (digits, left)) :
    wholePart? (text ++ rest) = some (digits, left ++ rest) := by
  unfold wholePart? at h
  split at h
  · cases h
    rfl
  · rename_i hzero
    have hkept := digits?_append hrest h
    cases text with
    | nil => cases h
    | cons c text =>
        have hc : c ≠ '0' := fun hc => hzero text (by rw [hc])
        rw [List.cons_append, wholePart?, ← List.cons_append, hkept]
        simpa using hc

/-- What stands behind a mark is read in front of `rest` as it is read alone, if that holds of the part
without its mark. -/
theorem map_mark_append {part : List Char → Option (List Char × List Char)}
    (hpart : ∀ {text digits left}, part text = some (digits, left) →
      part (text ++ rest) = some (digits, left ++ rest))
    {mark : Char} {text digits left : List Char}
    (h : (part text).map (fun answer => (mark :: answer.1, answer.2)) = some (digits, left)) :
    (part (text ++ rest)).map (fun answer => (mark :: answer.1, answer.2)) =
      some (digits, left ++ rest) := by
  obtain ⟨⟨ds, behind⟩, hdigits, heq⟩ := Option.map_eq_some_iff.1 h
  cases heq
  rw [hpart hdigits]
  rfl

theorem fraction?_append (hrest : EndsNumber rest) {text digits left : List Char}
    (h : fraction? text = some (digits, left)) :
    fraction? (text ++ rest) = some (digits, left ++ rest) := by
  unfold fraction? at h
  split at h
  · exact map_mark_append (digits?_append hrest) h
  · rename_i hpoint
    cases h
    cases text with
    | nil =>
        rw [List.nil_append, fraction?]
        rintro more rfl
        exact absurd (hrest '.' more rfl) (by decide)
    | cons c text =>
        rw [List.cons_append, fraction?]
        rintro more heq
        cases heq
        exact hpoint text rfl

theorem exponentDigits?_append (hrest : EndsNumber rest) {text digits left : List Char}
    (h : exponentDigits? text = some (digits, left)) :
    exponentDigits? (text ++ rest) = some (digits, left ++ rest) := by
  unfold exponentDigits? at h
  split at h
  · exact map_mark_append (digits?_append hrest) h
  · exact map_mark_append (digits?_append hrest) h
  · rename_i hplus hminus
    have hkept := digits?_append hrest h
    cases text with
    | nil => cases h
    | cons c text =>
        rw [List.cons_append, exponentDigits?, ← List.cons_append, hkept]
        · rintro more heq
          cases heq
          exact hplus text rfl
        · rintro more heq
          cases heq
          exact hminus text rfl

theorem exponent?_append (hrest : EndsNumber rest) {text digits left : List Char}
    (h : exponent? text = some (digits, left)) :
    exponent? (text ++ rest) = some (digits, left ++ rest) := by
  unfold exponent? at h
  split at h
  · exact map_mark_append (exponentDigits?_append hrest) h
  · exact map_mark_append (exponentDigits?_append hrest) h
  · rename_i hsmall hcapital
    cases h
    cases text with
    | nil =>
        rw [List.nil_append, exponent?]
        · rintro more rfl
          exact absurd (hrest 'e' more rfl) (by decide)
        · rintro more rfl
          exact absurd (hrest 'E' more rfl) (by decide)
    | cons c text =>
        rw [List.cons_append, exponent?]
        · rintro more heq
          cases heq
          exact hsmall text rfl
        · rintro more heq
          cases heq
          exact hcapital text rfl

theorem magnitude?_append (hrest : EndsNumber rest) {text literal left : List Char}
    (h : magnitude? text = some (literal, left)) :
    magnitude? (text ++ rest) = some (literal, left ++ rest) := by
  simp only [magnitude?, Option.bind_eq_bind, Option.bind_eq_some_iff, Option.pure_def,
    Option.some.injEq, Prod.mk.injEq] at h
  obtain ⟨⟨whole, behind⟩, hwhole, ⟨fraction, behind'⟩, hfraction, ⟨exponent, behind''⟩, hexponent,
    rfl, rfl⟩ := h
  simp only [magnitude?, wholePart?_append hrest hwhole, fraction?_append hrest hfraction,
    exponent?_append hrest hexponent, Option.bind_eq_bind, Option.bind_some, Option.pure_def]

/-- A number ends before a character that cannot continue one. -/
theorem number?_append (hrest : EndsNumber rest) {text literal left : List Char}
    (h : number? text = some (literal, left)) :
    number? (text ++ rest) = some (literal, left ++ rest) := by
  unfold number? at h
  split at h
  · exact map_mark_append (magnitude?_append hrest) h
  · rename_i hminus
    have hkept := magnitude?_append hrest h
    cases text with
    | nil => cases h
    | cons c text =>
        rw [List.cons_append, number?, ← List.cons_append, hkept]
        rintro more heq
        cases heq
        exact hminus text rfl

/-- A literal of a number: all of it is one number. -/
def IsNumber (literal : List Char) : Prop := number? literal = some (literal, [])

/-- The first character of a number is a digit or a minus sign. -/
theorem IsNumber.exists_cons {literal : List Char} (h : IsNumber literal) :
    ∃ c more, literal = c :: more ∧ (c.isDigit = true ∨ c = '-') := by
  cases literal with
  | nil => cases h
  | cons c more =>
      refine ⟨c, more, rfl, ?_⟩
      by_cases hminus : c = '-'
      · exact .inr hminus
      · left
        cases hdigit : c.isDigit with
        | true => rfl
        | false =>
            have hzero : c ≠ '0' := by
              rintro rfl
              cases hdigit
            simp [IsNumber, number?, magnitude?, wholePart?, digits?, hminus, hzero, hdigit] at h

/-- A positive number is not written with a zero in front. -/
theorem exists_toDigits_eq_cons {n : Nat} (hpos : 0 < n) :
    ∃ c more, Nat.toDigits 10 n = c :: more ∧ c ≠ '0' := by
  induction n using Nat.strongRecOn with
  | ind n ih =>
      rw [Nat.toDigits_eq_if (by decide)]
      split
      · refine ⟨_, _, rfl, ?_⟩
        rw [Ne, Nat.digitChar_eq_zero]
        omega
      · obtain ⟨c, more, hfront, hc⟩ := ih (n / 10) (by omega) (by omega)
        exact ⟨c, more ++ [Nat.digitChar (n % 10)], by rw [hfront]; rfl, hc⟩

/-- The decimal digits of a number are a literal. -/
theorem isNumber_toDigits (n : Nat) : IsNumber (Nat.toDigits 10 n) := by
  have hall : ∀ c ∈ Nat.toDigits 10 n, c.isDigit = true :=
    fun c hc => Nat.isDigit_of_mem_toDigits (by decide) (by decide) hc
  rcases Nat.eq_zero_or_pos n with rfl | hpos
  · rfl
  · obtain ⟨c, more, hdigits, hzero⟩ := exists_toDigits_eq_cons hpos
    rw [hdigits] at hall ⊢
    have hminus : c ≠ '-' := by
      rintro rfl
      exact absurd (hall '-' (by simp)) (by decide)
    have hwhole : digits? (c :: more) = some (c :: more, []) := by
      have htake : (c :: more ++ []).takeWhile Char.isDigit = c :: more ++ [] :=
        List.takeWhile_append_of_pos hall
      have hdrop : (c :: more ++ []).dropWhile Char.isDigit = [] :=
        List.dropWhile_append_of_pos hall
      rw [List.append_nil] at htake hdrop
      rw [digits?, htake, hdrop]
      rfl
    simp [IsNumber, number?, magnitude?, wholePart?, hminus, hzero, hwhole, fraction?, exponent?]

/-! ## Strings -/

/-- The escape of a control character holds its number. -/
theorem hexadecimal?_escape : ∀ n, n < 0x20 →
    Numeral.hexadecimal? ['0', '0', Nat.digitChar (n / 16), Nat.digitChar (n % 16)] = some n := by
  decide

/-- The piece as which an escaped character is read. -/
def pieceOf (c : Char) : Piece :=
  if c.toNat < 0x20 ∧ c ∉ ['\x08', '\t', '\n', '\x0c', '\r'] then .unit c.toNat else .char c

/-- A character that needs no escape is read as itself. -/
theorem pieces?_plain {c : Char} (hquote : c ≠ '"') (hescape : c ≠ '\\') (hplain : ¬ c.toNat < 0x20)
    (read : List Piece) (text : List Char) :
    pieces? read (c :: text) = pieces? (.char c :: read) text := by
  rw [pieces?, if_neg hplain]
  · exact hquote
  · exact fun _ _ _ _ _ h _ => hescape h
  · exact fun _ _ h _ => hescape h

/-- An escaped character is read as its piece. -/
theorem pieces?_escape (c : Char) (read : List Piece) (text : List Char) :
    pieces? read (escape c ++ text) = pieces? (pieceOf c :: read) text := by
  unfold escape
  split
  case h_8 =>
    rename_i hquote hescape hbs htab hline hfeed hreturn
    have hspecial : c ∉ ['\x08', '\t', '\n', '\x0c', '\r'] := by
      simp only [List.mem_cons, List.not_mem_nil, or_false, not_or]
      exact ⟨hbs, htab, hline, hfeed, hreturn⟩
    by_cases hcontrol : c.toNat < 0x20
    · have hunit := hexadecimal?_escape c.toNat hcontrol
      simp only [if_pos hcontrol, List.cons_append, List.nil_append, pieces?, hunit]
      rw [pieceOf, if_pos ⟨hcontrol, hspecial⟩]
    · rw [if_neg hcontrol, pieceOf, if_neg (fun h => hcontrol h.1), List.cons_append, List.nil_append,
        pieces?_plain hquote hescape hcontrol]
  all_goals rfl

/-- A text is read as the pieces of its characters, up to the quote. -/
theorem pieces?_flatMap_escape (chars : List Char) (read : List Piece) (text : List Char) :
    pieces? read (chars.flatMap escape ++ '"' :: text) =
      some ((chars.map pieceOf).reverse ++ read, text) := by
  induction chars generalizing read with
  | nil => rfl
  | cons c chars ih =>
      rw [List.flatMap_cons, List.append_assoc, pieces?_escape, ih]
      simp

/-- A unit that is no half of a surrogate pair stands for its character. -/
theorem resolve_unit {value : Nat} (hhigh : isHighHalf value = false)
    (hlow : isLowHalf value = false) (rest : List Piece) :
    resolve (.unit value :: rest) = (resolve rest).map (Char.ofNat value :: ·) := by
  cases rest with
  | nil => simp [resolve, hhigh, hlow]
  | cons piece rest => cases piece <;> simp [resolve, hhigh, hlow]

/-- The pieces of a text stand for its characters. -/
theorem resolve_map_pieceOf (chars : List Char) : resolve (chars.map pieceOf) = some chars := by
  induction chars with
  | nil => rfl
  | cons c chars ih =>
      rw [List.map_cons, pieceOf]
      split
      · rename_i hcontrol
        rw [resolve_unit _ _, ih, Option.map_some, Char.ofNat_toNat]
        · simp [isHighHalf]; omega
        · simp [isLowHalf]; omega
      · rw [resolve, ih, Option.map_some]

/-- A quoted string is read back, whether or not it has a text. -/
theorem string?_quote (text : Option String) (rest : List Char) :
    Token.next? (quote text ++ rest) = some (.string text, rest) := by
  cases text with
  | none => rfl
  | some text =>
      have hpieces := pieces?_flatMap_escape text.toList [] rest
      rw [quote, List.cons_append, List.append_assoc, List.singleton_append, Token.next?, string?,
        hpieces]
      simp [resolve_map_pieceOf]

/-! ## Tokens -/

namespace Token

/-- A blank begins no token. -/
theorem next?_of_isBlank {c : Char} (hc : isBlank c = true) (text : List Char) :
    next? (c :: text) = none := by
  simp only [isBlank, Bool.or_eq_true, beq_iff_eq] at hc
  rcases hc with ((rfl | rfl) | rfl) | rfl <;> rfl

/-- A number is the token of its literal. -/
theorem next?_number {literal : List Char} (h : IsNumber literal) {rest : List Char}
    (hrest : EndsNumber rest) :
    next? (literal ++ rest) = some (.number literal, rest) := by
  have hnumber := number?_append hrest h
  obtain ⟨c, more, rfl, hc⟩ := h.exists_cons
  rw [List.cons_append] at hnumber ⊢
  unfold next?
  split
  case h_11 =>
    rw [hnumber]
    rfl
  all_goals
    -- no other token begins with a digit or a minus sign
    rename_i hother
    rw [(List.cons.inj hother).1] at hc
    exact absurd hc (by decide)

/-- Scanning passes over the first token and goes on behind it. -/
theorem scanOnto_eq (read : List Token) {text left : List Char} {token : Token}
    (h : next? text = some (token, left)) :
    scanOnto read text = scanOnto (token :: read) left := by
  have hfirst : text.dropWhile isBlank = text := by
    cases text with
    | nil => rfl
    | cons c text =>
        cases hc : isBlank c with
        | true =>
            rw [next?_of_isBlank hc] at h
            cases h
        | false => simp [hc]
  rw [scanOnto]
  split
  · rename_i hblanks
    rw [hfirst] at hblanks
    subst hblanks
    cases h
  · rename_i hblanks
    rw [hfirst] at hblanks
    subst hblanks
    split
    · rename_i htoken
      rw [h] at htoken
      cases htoken
      rfl
    · rename_i htoken
      rw [h] at htoken
      cases htoken

/-- Blanks between tokens are passed over. -/
theorem scanOnto_blanks (read : List Token) {blanks : List Char}
    (hblanks : ∀ c ∈ blanks, isBlank c = true) (text : List Char) :
    scanOnto read (blanks ++ text) = scanOnto read text := by
  have hsame : (blanks ++ text).dropWhile isBlank = text.dropWhile isBlank :=
    List.dropWhile_append_of_pos hblanks
  rw [scanOnto, scanOnto, hsame]

end Token

end Json

end FirmwareSymbols
