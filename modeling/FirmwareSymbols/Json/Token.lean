import FirmwareSymbols.Text.Numeral

/-!
# Tokens of JSON text

A JSON text is a sequence of tokens with blanks between them. Each token
is recognised by its first character, and a string or a number extends as
far as it can.

## Main definitions

* `Json.Token`: the tokens.
* `Json.Token.scan?`: the tokens of a text, if it is a sequence of them.

## Main results

* `Json.Token.length_next?_lt`: a token takes at least one character.
-/

namespace FirmwareSymbols

namespace Json

/-- A token of a JSON text. -/
inductive Token where
  /-- The bracket that opens a list. -/
  | openList
  /-- The bracket that closes a list. -/
  | closeList
  /-- The brace that opens an object. -/
  | openObject
  /-- The brace that closes an object. -/
  | closeObject
  /-- The comma between two items or members. -/
  | comma
  /-- The colon between a key and its value. -/
  | colon
  /-- The literal `null`. -/
  | null
  /-- One of the literals `true` and `false`. -/
  | bool (value : Bool)
  /-- A number, as it is written. -/
  | number (literal : List Char)
  /-- A string, or no text where the string holds half of a surrogate pair. -/
  | string (text : Option String)
deriving DecidableEq, Repr

/-- The characters that may stand between tokens. -/
def isBlank (c : Char) : Bool := c == ' ' || c == '\t' || c == '\n' || c == '\r'

/-! ## Strings -/

/-- One element of a string: a character that stands for itself or that has an escape of its own, or a
16-bit unit given by number. -/
inductive Piece where
  /-- A character. -/
  | char (c : Char)
  /-- A unit given by four hexadecimal digits. -/
  | unit (value : Nat)
deriving DecidableEq, Repr

/-- Whether a unit is the first half of a surrogate pair. -/
def isHighHalf (unit : Nat) : Bool := 0xd800 ≤ unit && unit < 0xdc00

/-- Whether a unit is the second half of a surrogate pair. -/
def isLowHalf (unit : Nat) : Bool := 0xdc00 ≤ unit && unit < 0xe000

/-- The characters of a string. There are none if half of a surrogate pair stands alone. -/
def resolve : List Piece → Option (List Char)
  | [] => some []
  | .char c :: rest => (resolve rest).map (c :: ·)
  | .unit high :: .unit low :: rest =>
    if isHighHalf high && isLowHalf low then
      (resolve rest).map
        (Char.ofNat (0x10000 + (high - 0xd800) * 0x400 + (low - 0xdc00)) :: ·)
    else if isHighHalf high || isLowHalf high then none
    else (resolve (.unit low :: rest)).map (Char.ofNat high :: ·)
  | .unit value :: rest =>
    if isHighHalf value || isLowHalf value then none
    else (resolve rest).map (Char.ofNat value :: ·)

/-- The character that a one-letter escape stands for. -/
def escaped? : Char → Option Char
  | '"' => some '"'
  | '\\' => some '\\'
  | '/' => some '/'
  | 'b' => some '\x08'
  | 'f' => some '\x0c'
  | 'n' => some '\n'
  | 'r' => some '\r'
  | 't' => some '\t'
  | _ => none

/-- The pieces of a string up to its closing quote, the latest first, behind those that have been read;
the text behind the quote comes along. Control characters may not stand for themselves. -/
def pieces? (read : List Piece) : List Char → Option (List Piece × List Char)
  | '"' :: rest => some (read, rest)
  | '\\' :: 'u' :: a :: b :: c :: d :: rest =>
    match Numeral.hexadecimal? [a, b, c, d] with
    | some unit => pieces? (.unit unit :: read) rest
    | none => none
  | '\\' :: c :: rest =>
    match escaped? c with
    | some c => pieces? (.char c :: read) rest
    | none => none
  | c :: rest => if c.toNat < 0x20 then none else pieces? (.char c :: read) rest
  | [] => none

/-- The token of a string from behind its opening quote. -/
def string? (text : List Char) : Option (Token × List Char) :=
  (pieces? [] text).map fun (read, rest) =>
    (.string ((resolve read.reverse).map String.ofList), rest)

/-! ## Numbers -/

/-- The digits at the beginning of a text, if there are any, and the text behind them. -/
def digits? (text : List Char) : Option (List Char × List Char) :=
  if (text.takeWhile Char.isDigit).isEmpty then none
  else some (text.takeWhile Char.isDigit, text.dropWhile Char.isDigit)

/-- The whole part of a number: a zero alone, or digits that do not begin with one. -/
def wholePart? : List Char → Option (List Char × List Char)
  | '0' :: rest => some (['0'], rest)
  | text => digits? text

/-- The fraction of a number, which may be missing. -/
def fraction? : List Char → Option (List Char × List Char)
  | '.' :: rest => (digits? rest).map fun (ds, rest) => ('.' :: ds, rest)
  | text => some ([], text)

/-- The digits of an exponent, which may have a sign. -/
def exponentDigits? : List Char → Option (List Char × List Char)
  | '+' :: rest => (digits? rest).map fun (ds, rest) => ('+' :: ds, rest)
  | '-' :: rest => (digits? rest).map fun (ds, rest) => ('-' :: ds, rest)
  | text => digits? text

/-- The exponent of a number, which may be missing. -/
def exponent? : List Char → Option (List Char × List Char)
  | 'e' :: rest => (exponentDigits? rest).map fun (ds, rest) => ('e' :: ds, rest)
  | 'E' :: rest => (exponentDigits? rest).map fun (ds, rest) => ('E' :: ds, rest)
  | text => some ([], text)

/-- The literal of a number without a sign. -/
def magnitude? (text : List Char) : Option (List Char × List Char) := do
  let (whole, rest) ← wholePart? text
  let (fraction, rest) ← fraction? rest
  let (exponent, rest) ← exponent? rest
  return (whole ++ fraction ++ exponent, rest)

/-- The literal of a number. -/
def number? : List Char → Option (List Char × List Char)
  | '-' :: rest => (magnitude? rest).map fun (literal, rest) => ('-' :: literal, rest)
  | text => magnitude? text

/-! ## Progress -/

/-- The text behind a string is shorter than the text from its first character on. -/
theorem length_pieces?_lt {read out : List Piece} {text rest : List Char}
    (h : pieces? read text = some (out, rest)) : rest.length < text.length := by
  fun_induction pieces? read text with
  | case1 => cases h; simp
  | case2 read a b c d text unit _ ih => have := ih h; simp only [List.length_cons]; omega
  | case3 => cases h
  | case4 read c text _ _ _ ih => have := ih h; simp only [List.length_cons]; omega
  | case5 => cases h
  | case6 => cases h
  | case7 read c text _ _ _ _ ih => have := ih h; simp only [List.length_cons]; omega
  | case8 => cases h

/-- The text behind some digits is shorter than the text from the first one on. -/
theorem length_digits?_lt {text digits rest : List Char} (h : digits? text = some (digits, rest)) :
    rest.length < text.length := by
  unfold digits? at h
  split at h
  · cases h
  · rename_i nonempty
    cases h
    have whole := congrArg List.length (List.takeWhile_append_dropWhile (p := Char.isDigit) (l := text))
    rw [List.length_append] at whole
    have : 0 < (text.takeWhile Char.isDigit).length := by
      cases ht : text.takeWhile Char.isDigit with
      | nil => simp [ht] at nonempty
      | cons => simp
    omega

theorem length_wholePart?_lt {text digits rest : List Char}
    (h : wholePart? text = some (digits, rest)) : rest.length < text.length := by
  unfold wholePart? at h
  split at h
  · cases h; simp
  · exact length_digits?_lt h

theorem length_fraction?_le {text fraction rest : List Char}
    (h : fraction? text = some (fraction, rest)) : rest.length ≤ text.length := by
  unfold fraction? at h
  split at h
  · obtain ⟨⟨ds, left⟩, hd, heq⟩ := Option.map_eq_some_iff.1 h
    cases heq
    have := length_digits?_lt hd
    simp only [List.length_cons]; omega
  · cases h; simp

theorem length_exponentDigits?_lt {text exponent rest : List Char}
    (h : exponentDigits? text = some (exponent, rest)) : rest.length < text.length := by
  unfold exponentDigits? at h
  split at h
  · obtain ⟨⟨ds, left⟩, hd, heq⟩ := Option.map_eq_some_iff.1 h
    cases heq
    have := length_digits?_lt hd
    simp only [List.length_cons]; omega
  · obtain ⟨⟨ds, left⟩, hd, heq⟩ := Option.map_eq_some_iff.1 h
    cases heq
    have := length_digits?_lt hd
    simp only [List.length_cons]; omega
  · exact length_digits?_lt h

theorem length_exponent?_le {text exponent rest : List Char}
    (h : exponent? text = some (exponent, rest)) : rest.length ≤ text.length := by
  unfold exponent? at h
  split at h
  · obtain ⟨⟨ds, left⟩, hd, heq⟩ := Option.map_eq_some_iff.1 h
    cases heq
    have := length_exponentDigits?_lt hd
    simp only [List.length_cons]; omega
  · obtain ⟨⟨ds, left⟩, hd, heq⟩ := Option.map_eq_some_iff.1 h
    cases heq
    have := length_exponentDigits?_lt hd
    simp only [List.length_cons]; omega
  · cases h; simp

theorem length_magnitude?_lt {text literal rest : List Char}
    (h : magnitude? text = some (literal, rest)) : rest.length < text.length := by
  simp only [magnitude?, Option.bind_eq_bind, Option.bind_eq_some_iff, Option.pure_def,
    Option.some.injEq, Prod.mk.injEq] at h
  obtain ⟨⟨whole, r₁⟩, h₁, ⟨fraction, r₂⟩, h₂, ⟨exponent, r₃⟩, h₃, -, rfl⟩ := h
  exact Nat.lt_of_le_of_lt (length_exponent?_le h₃)
    (Nat.lt_of_le_of_lt (length_fraction?_le h₂) (length_wholePart?_lt h₁))

theorem length_number?_lt {text literal rest : List Char}
    (h : number? text = some (literal, rest)) : rest.length < text.length := by
  unfold number? at h
  split at h
  · obtain ⟨⟨ds, left⟩, hd, heq⟩ := Option.map_eq_some_iff.1 h
    cases heq
    have := length_magnitude?_lt hd
    simp only [List.length_cons]; omega
  · exact length_magnitude?_lt h

namespace Token

/-! ## Scanning -/

/-- The token at the beginning of a text that does not begin with a blank. -/
def next? : List Char → Option (Token × List Char)
  | '[' :: rest => some (openList, rest)
  | ']' :: rest => some (closeList, rest)
  | '\x7b' :: rest => some (openObject, rest)
  | '\x7d' :: rest => some (closeObject, rest)
  | ',' :: rest => some (comma, rest)
  | ':' :: rest => some (colon, rest)
  | '"' :: rest => string? rest
  | 'n' :: 'u' :: 'l' :: 'l' :: rest => some (null, rest)
  | 't' :: 'r' :: 'u' :: 'e' :: rest => some (bool true, rest)
  | 'f' :: 'a' :: 'l' :: 's' :: 'e' :: rest => some (bool false, rest)
  | text => (number? text).map fun (literal, rest) => (number literal, rest)

/-- A token takes at least one character. -/
theorem length_next?_lt {text rest : List Char} {token : Token}
    (h : next? text = some (token, rest)) : rest.length < text.length := by
  unfold next? at h
  split at h
  case h_7 =>
    obtain ⟨⟨read, left⟩, hp, heq⟩ := Option.map_eq_some_iff.1 h
    cases heq
    have := length_pieces?_lt hp
    simp only [List.length_cons]; omega
  case h_11 =>
    obtain ⟨⟨literal, left⟩, hn, heq⟩ := Option.map_eq_some_iff.1 h
    cases heq
    exact length_number?_lt hn
  all_goals
    cases h
    simp only [List.length_cons]; omega

/-- The tokens of a text, the latest first, behind those that have been read. -/
def scanOnto (read : List Token) (text : List Char) : Option (List Token) :=
  match _blanks : text.dropWhile isBlank with
  | [] => some read
  | c :: rest =>
    match _token : next? (c :: rest) with
    | some (token, left) => scanOnto (token :: read) left
    | none => none
termination_by text.length
decreasing_by
  have shorter := length_next?_lt _token
  have := (List.dropWhile_suffix isBlank (l := text)).length_le
  rw [_blanks] at this
  omega

/-- The tokens of a text, if it is a sequence of tokens with blanks between them. -/
def scan? (text : List Char) : Option (List Token) := (scanOnto [] text).map List.reverse

end Token

end Json

end FirmwareSymbols
