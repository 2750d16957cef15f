/-!
# Byte order and 32-bit words

Addresses and flag words are stored in the image as four bytes whose
order depends on the processor the image was built for. A `ByteOrder`
says which end comes first; it reads four bytes as a word and writes a
word as four bytes.

## Main results

* `ByteOrder.word?_bytes`, `ByteOrder.bytes_of_word?`: reading what was
  written gives the word back, and writing what was read the bytes, in
  either order.
* `ByteOrder.word?_isSome_iff`: a word is read from exactly four bytes.
* `ByteOrder.word?_reverse`: reversing the bytes exchanges the two
  orders.
-/

namespace FirmwareSymbols

/-- Which end of a word is stored first. -/
inductive ByteOrder where
  /-- The least significant byte comes first. -/
  | little
  /-- The most significant byte comes first. -/
  | big
deriving DecidableEq, Repr

namespace ByteOrder

/-! ## Text -/

/-- The name of a byte order in prose. -/
def text : ByteOrder → String
  | little => "little"
  | big => "big"

/-- The byte order a user names: `little`, `le`, `big` or `be`, in any mixture of ASCII cases. A name
that is none of these is refused with a message that quotes its lower-case form. -/
def ofText (name : String) : Except String ByteOrder :=
  let lower := name.map Char.toLower
  if lower = "little" ∨ lower = "le" then .ok little
  else if lower = "big" ∨ lower = "be" then .ok big
  else .error ("unknown endianness '" ++ lower ++ "'")

/-! ## Words -/

/-- The value of four bytes, most significant first. -/
def wordOf (b₃ b₂ b₁ b₀ : UInt8) : UInt32 :=
  UInt32.ofNat (((b₃.toNat * 256 + b₂.toNat) * 256 + b₁.toNat) * 256 + b₀.toNat)

/-- The word stored in exactly four bytes. -/
def word? : ByteOrder → List UInt8 → Option UInt32
  | little, [a, b, c, d] => some (wordOf d c b a)
  | big, [a, b, c, d] => some (wordOf a b c d)
  | _, _ => none

/-- Byte `k` of a word, counted from the least significant end. -/
def byteOf (word : UInt32) (k : Nat) : UInt8 :=
  UInt8.ofNat (word.toNat >>> (8 * k))

/-- The four bytes a word is stored in. -/
def bytes : ByteOrder → UInt32 → List UInt8
  | little, w => [byteOf w 0, byteOf w 1, byteOf w 2, byteOf w 3]
  | big, w => [byteOf w 3, byteOf w 2, byteOf w 1, byteOf w 0]

theorem wordOf_byteOf (w : UInt32) :
    wordOf (byteOf w 3) (byteOf w 2) (byteOf w 1) (byteOf w 0) = w := by
  apply UInt32.toNat_inj.1
  have hw := w.toNat_lt
  simp only [wordOf, byteOf, UInt32.toNat_ofNat', UInt8.toNat_ofNat']
  omega

@[simp] theorem word?_bytes (order : ByteOrder) (w : UInt32) :
    order.word? (order.bytes w) = some w := by
  cases order <;> simp [word?, bytes, wordOf_byteOf]

@[simp] theorem length_bytes (order : ByteOrder) (w : UInt32) : (order.bytes w).length = 4 := by
  cases order <;> rfl

theorem byteOf_wordOf (b₃ b₂ b₁ b₀ : UInt8) :
    byteOf (wordOf b₃ b₂ b₁ b₀) 0 = b₀ ∧ byteOf (wordOf b₃ b₂ b₁ b₀) 1 = b₁ ∧
      byteOf (wordOf b₃ b₂ b₁ b₀) 2 = b₂ ∧ byteOf (wordOf b₃ b₂ b₁ b₀) 3 = b₃ := by
  have h₃ := b₃.toNat_lt
  have h₂ := b₂.toNat_lt
  have h₁ := b₁.toNat_lt
  have h₀ := b₀.toNat_lt
  simp only [← UInt8.toNat_inj, wordOf, byteOf, UInt32.toNat_ofNat', UInt8.toNat_ofNat',
    Nat.shiftRight_eq_div_pow]
  omega

/-- A word is read from four bytes and from no other number of bytes. -/
theorem word?_isSome_iff {order : ByteOrder} {stored : List UInt8} :
    (order.word? stored).isSome ↔ stored.length = 4 := by
  match order, stored with
  | _, [] => simp [word?]
  | _, [_] => simp [word?]
  | _, [_, _] => simp [word?]
  | _, [_, _, _] => simp [word?]
  | little, [_, _, _, _] => simp [word?]
  | big, [_, _, _, _] => simp [word?]
  | _, _ :: _ :: _ :: _ :: _ :: _ => simp [word?]

/-- Writing what was read gives the bytes back. -/
theorem bytes_of_word? {order : ByteOrder} {stored : List UInt8} {w : UInt32}
    (h : order.word? stored = some w) : order.bytes w = stored := by
  match order, stored with
  | _, [] => simp [word?] at h
  | _, [_] => simp [word?] at h
  | _, [_, _] => simp [word?] at h
  | _, [_, _, _] => simp [word?] at h
  | little, [a, b, c, d] =>
    cases h
    simp [bytes, byteOf_wordOf]
  | big, [a, b, c, d] =>
    cases h
    simp [bytes, byteOf_wordOf]
  | _, _ :: _ :: _ :: _ :: _ :: _ => simp [word?] at h

/-- The other byte order. -/
def swap : ByteOrder → ByteOrder
  | little => big
  | big => little

/-- Reversing the stored bytes exchanges the two orders. -/
theorem word?_reverse (order : ByteOrder) (stored : List UInt8) :
    order.swap.word? stored.reverse = order.word? stored := by
  match stored with
  | [] => cases order <;> rfl
  | [_] => cases order <;> rfl
  | [_, _] => cases order <;> rfl
  | [_, _, _] => cases order <;> rfl
  | [_, _, _, _] => cases order <;> rfl
  | a :: b :: c :: d :: e :: rest =>
    have long : ∀ (o : ByteOrder) (l : List UInt8), l.length ≠ 4 → o.word? l = none := by
      intro o l hl
      simpa using mt (@word?_isSome_iff o l).1 hl
    rw [long _ _ (by simp), long _ _ (by simp)]

end ByteOrder

end FirmwareSymbols
