/-!
# Blanks

The characters with the Unicode property `White_Space`, and the words that
they separate.
-/

namespace FirmwareSymbols

namespace Text

/-- The code points with the property `White_Space`, as ranges with both ends included. -/
def blankRanges : List (Nat × Nat) :=
  [ (0x0009, 0x000d), (0x0020, 0x0020), (0x0085, 0x0085), (0x00a0, 0x00a0), (0x1680, 0x1680),
    (0x2000, 0x200a), (0x2028, 0x2029), (0x202f, 0x202f), (0x205f, 0x205f), (0x3000, 0x3000) ]

/-- Whether a character is blank. -/
def isBlank (c : Char) : Bool :=
  blankRanges.any fun (low, high) => low ≤ c.toNat && c.toNat ≤ high

/-- A text without the blanks in front. -/
def trimLeft (text : List Char) : List Char := text.dropWhile isBlank

/-- A text without the blanks at its end. -/
def trimRight (text : List Char) : List Char := (text.reverse.dropWhile isBlank).reverse

/-- A text without the blanks at either end. -/
def trim (text : List Char) : List Char := trimRight (trimLeft text)

/-- The words of a text, which blanks separate. The current word comes in reverse. -/
def wordsOnto (word : List Char) : List Char → List (List Char)
  | [] => if word.isEmpty then [] else [word.reverse]
  | c :: rest =>
    if isBlank c then
      if word.isEmpty then wordsOnto [] rest else word.reverse :: wordsOnto [] rest
    else
      wordsOnto (c :: word) rest

/-- The words of a text, which blanks separate. -/
def words (text : List Char) : List (List Char) := wordsOnto [] text

end Text

end FirmwareSymbols
