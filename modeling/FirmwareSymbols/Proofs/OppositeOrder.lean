import FirmwareSymbols.Proofs.DecodedTable
import FirmwareSymbols.Proofs.DetectedOrder

/-!
# Tables in the opposite byte order

A linker for a processor of the other byte order stores the same
addresses with their bytes reversed, but the type signatures, which are
read as bytes, in the same way. Where the addresses of some records are
reversed, the scan therefore sees the same run of records, the detection
sees the two halves of a name address exchanged, and the decoder, told
the other order, reads the same addresses.

## Main results

* `Release.opposite_reverseAddresses`: what reversing the addresses of
  some records does to each byte of the image.
* `Release.Opposite.startsRun_eq`, `Release.Opposite.runEnd_eq`: the scan
  does not see it.
* `Release.Opposite.detectOrder_iff`: the detection does, if the first two
  records agree in exactly one half.
* `Release.Opposite.decodeTable_eq`: the symbols in the other order.
* `Release.reverseAddresses_symmetric`: all of this for one image.
-/

namespace FirmwareSymbols

/-! ## Words -/

theorem reverse_eq_zeroWord_iff {stored : List UInt8} :
    stored.reverse = zeroWord ↔ stored = zeroWord := by
  rw [List.reverse_eq_iff]
  rfl

namespace ByteOrder

/-- The word that is stored as the bytes of a word in reverse. -/
def reverseBytes (word : UInt32) : UInt32 :=
  wordOf (byteOf word 0) (byteOf word 1) (byteOf word 2) (byteOf word 3)

theorem reverseBytes_wordOf (b₃ b₂ b₁ b₀ : UInt8) :
    reverseBytes (wordOf b₃ b₂ b₁ b₀) = wordOf b₀ b₁ b₂ b₃ := by
  obtain ⟨h₀, h₁, h₂, h₃⟩ := byteOf_wordOf b₃ b₂ b₁ b₀
  rw [reverseBytes, h₀, h₁, h₂, h₃]

theorem reverseBytes_reverseBytes (word : UInt32) : reverseBytes (reverseBytes word) = word := by
  rw [reverseBytes.eq_1 word, reverseBytes_wordOf, wordOf_byteOf]

/-- The other order reads the word in reverse. -/
theorem word?_swap (order : ByteOrder) (stored : List UInt8) :
    order.swap.word? stored = (order.word? stored).map reverseBytes := by
  match order, stored with
  | little, [a, b, c, d] => exact congrArg some (reverseBytes_wordOf d c b a).symm
  | big, [a, b, c, d] => exact congrArg some (reverseBytes_wordOf a b c d).symm
  | little, [] | little, [_] | little, [_, _] | little, [_, _, _]
  | little, _ :: _ :: _ :: _ :: _ :: _ => rfl
  | big, [] | big, [_] | big, [_, _] | big, [_, _, _] | big, _ :: _ :: _ :: _ :: _ :: _ => rfl

end ByteOrder

/-! ## Symbols -/

namespace Symbol

/-- The symbol with its flag word in reverse. -/
def reverseFlags (s : Symbol) : Symbol := { s with flags := ByteOrder.reverseBytes s.flags }

/-- The flag words of functions are each other's reverse. -/
theorem isFunction_reverseFlags (s : Symbol) : s.reverseFlags.isFunction = s.isFunction := by
  have hbig : ∀ word, ByteOrder.reverseBytes word = 0x0500 ↔ word = 0x050000 := by
    intro word
    constructor
    · intro h
      rw [← ByteOrder.reverseBytes_reverseBytes word, h]
      decide
    · rintro rfl
      decide
  have hlittle : ∀ word, ByteOrder.reverseBytes word = 0x050000 ↔ word = 0x0500 := by
    intro word
    constructor
    · intro h
      rw [← ByteOrder.reverseBytes_reverseBytes word, h]
      decide
    · rintro rfl
      decide
  simp [isFunction, functionFlags, reverseFlags, hbig, hlittle, Bool.or_comm]

theorem sortByName_map_reverseFlags (symbols : List Symbol) :
    sortByName (symbols.map reverseFlags) = (sortByName symbols).map reverseFlags := by
  unfold sortByName
  rw [List.map_mergeSort (f := reverseFlags) (s := fun a b => a.nameAddress ≤ b.nameAddress)]
  exact fun _ _ _ _ => rfl

theorem withLengths_map_reverseFlags (symbols : List Symbol) :
    withLengths (symbols.map reverseFlags) = (withLengths symbols).map reverseFlags := by
  fun_induction withLengths symbols with
  | case1 s next rest ih =>
      rw [List.map_cons, List.map_cons, List.map_cons, ← List.map_cons, ← ih]
      rfl
  | case2 short hshort =>
      cases short with
      | nil => rfl
      | cons s rest =>
          cases rest with
          | nil => rfl
          | cons next rest => exact absurd rfl (hshort s next rest)

end Symbol

/-! ## Images with reversed words -/

namespace Image

/-- The image with the four bytes at an offset in reverse. -/
def reverseWord (image : Image) (offset : Nat) : Image :=
  .ofList (image.toList.take offset ++ (image.window offset 4).reverse
    ++ image.toList.drop (offset + 4))

theorem window_congr {image other : Image} {offset count : Nat}
    (h : ∀ i, offset ≤ i → i < offset + count → other.get? i = image.get? i) :
    other.window offset count = image.window offset count := by
  apply List.ext_getElem?
  intro k
  rw [getElem?_window, getElem?_window]
  by_cases hk : k < count
  · rw [if_pos hk, if_pos hk, h _ (by omega) (by omega)]
  · rw [if_neg hk, if_neg hk]

variable {image : Image} {offset : Nat}

theorem toList_reverseWord (image : Image) (offset : Nat) :
    (image.reverseWord offset).toList =
      image.toList.take offset ++ ((image.window offset 4).reverse
        ++ image.toList.drop (offset + 4)) := by
  rw [reverseWord, toList_ofList, List.append_assoc]

theorem size_reverseWord (h : offset + 4 ≤ image.size) :
    (image.reverseWord offset).size = image.size := by
  have hlength : image.toList.length = image.size := rfl
  show (image.reverseWord offset).toList.length = image.size
  rw [toList_reverseWord, List.length_append, List.length_append, List.length_reverse,
    length_window h, List.length_take, List.length_drop]
  omega

theorem window_reverseWord (h : offset + 4 ≤ image.size) :
    (image.reverseWord offset).window offset 4 = (image.window offset 4).reverse := by
  have hlength : image.toList.length = image.size := rfl
  rw [window_eq, toList_reverseWord, List.drop_left' (by rw [List.length_take]; omega),
    List.take_left' (by rw [List.length_reverse, length_window h])]

/-- No other byte changes. -/
theorem get?_reverseWord (h : offset + 4 ≤ image.size) {i : Nat}
    (houtside : i < offset ∨ offset + 4 ≤ i) :
    (image.reverseWord offset).get? i = image.get? i := by
  have hlength : image.toList.length = image.size := rfl
  have hbyte : ∀ shown : Image, shown.get? i = shown.toList[i]? :=
    fun shown => Array.getElem?_toList.symm
  have hbefore : (image.toList.take offset).length = offset := by
    rw [List.length_take]
    omega
  have hreversed : (image.window offset 4).reverse.length = 4 := by
    rw [List.length_reverse, length_window h]
  rw [hbyte, hbyte, toList_reverseWord]
  rcases houtside with hbelow | habove
  · rw [List.getElem?_append_left (by omega), List.getElem?_take, if_pos hbelow]
  · rw [List.getElem?_append_right (by omega), List.getElem?_append_right (by omega),
      List.getElem?_drop, hbefore, hreversed]
    congr 1
    omega

end Image

namespace Release

/-- The image with both addresses of each of `count` records reversed. -/
def reverseAddresses (release : Release) (image : Image) (offset : Nat) : Nat → Image
  | 0 => image
  | count + 1 =>
    release.reverseAddresses ((image.reverseWord (offset + 4)).reverseWord (offset + 8))
      (offset + release.recordSize) count

/-- One image is like another, but both addresses of each of `count` records are reversed. -/
structure Opposite (release : Release) (image other : Image) (offset count : Nat) : Prop where
  fits : offset + count * release.recordSize ≤ image.size
  size_eq : other.size = image.size
  name : ∀ k, k < count →
    other.window (offset + k * release.recordSize + 4) 4 =
      (image.window (offset + k * release.recordSize + 4) 4).reverse
  dest : ∀ k, k < count →
    other.window (offset + k * release.recordSize + 8) 4 =
      (image.window (offset + k * release.recordSize + 8) 4).reverse
  elsewhere : ∀ i,
    (∀ k, k < count →
      i < offset + k * release.recordSize + 4 ∨ offset + k * release.recordSize + 12 ≤ i) →
    other.get? i = image.get? i

variable {release : Release} {image other : Image} {offset count : Nat}

/-- Reversing the addresses of the first record does what it says to that record, and nothing to any
other byte. -/
theorem opposite_one (hfits : offset + release.recordSize ≤ image.size) :
    release.Opposite image ((image.reverseWord (offset + 4)).reverseWord (offset + 8)) offset 1 := by
  have hsize := release.signatureSize_add_twelve_le
  have hname : (image.reverseWord (offset + 4)).size = image.size := Image.size_reverseWord (by omega)
  have hdest : offset + 8 + 4 ≤ (image.reverseWord (offset + 4)).size := by omega
  refine
    { fits := by omega
      size_eq := (Image.size_reverseWord hdest).trans hname
      name := ?_
      dest := ?_
      elsewhere := ?_ }
  · intro k hk
    obtain rfl : k = 0 := by omega
    rw [Nat.zero_mul, Nat.add_zero, ← Image.window_reverseWord (by omega)]
    exact Image.window_congr fun i _ hi => Image.get?_reverseWord hdest (.inl (by omega))
  · intro k hk
    obtain rfl : k = 0 := by omega
    rw [Nat.zero_mul, Nat.add_zero, Image.window_reverseWord hdest]
    congr 1
    exact Image.window_congr fun i hi _ => Image.get?_reverseWord (by omega) (.inr (by omega))
  · intro i hi
    have hout := hi 0 Nat.one_pos
    rw [Nat.zero_mul, Nat.add_zero] at hout
    rw [Image.get?_reverseWord hdest (by omega), Image.get?_reverseWord (by omega) (by omega)]

/-- Reversing the addresses of the first record and then those of the others reverses all of them. -/
theorem Opposite.cons {between : Image} (hfirst : release.Opposite image between offset 1)
    (hrest : release.Opposite between other (offset + release.recordSize) count) :
    release.Opposite image other offset (count + 1) := by
  have hsize := release.signatureSize_add_twelve_le
  have hshift : ∀ k, offset + (k + 1) * release.recordSize =
      offset + release.recordSize + k * release.recordSize := by
    intro k
    rw [Nat.succ_mul]
    omega
  -- the first record lies below those of the rest, and these above it
  have hbelow : ∀ i, i < offset + release.recordSize → other.get? i = between.get? i :=
    fun i hi => hrest.elsewhere i fun k _ => .inl (by omega)
  have habove : ∀ i, offset + release.recordSize ≤ i → between.get? i = image.get? i := by
    intro i hi
    refine hfirst.elsewhere i fun k hk => .inr ?_
    obtain rfl : k = 0 := by omega
    omega
  refine
    { fits := ?_
      size_eq := hrest.size_eq.trans hfirst.size_eq
      name := ?_
      dest := ?_
      elsewhere := ?_ }
  · have := hrest.fits
    rw [hfirst.size_eq] at this
    rw [hshift]
    exact this
  · intro k hk
    cases k with
    | zero =>
        have hname := hfirst.name 0 Nat.one_pos
        rw [← hname]
        exact Image.window_congr fun i _ hi => hbelow i (by omega)
    | succ k =>
        rw [hshift, hrest.name k (by omega)]
        congr 1
        exact Image.window_congr fun i hi _ => habove i (by omega)
  · intro k hk
    cases k with
    | zero =>
        have hdest := hfirst.dest 0 Nat.one_pos
        rw [← hdest]
        exact Image.window_congr fun i _ hi => hbelow i (by omega)
    | succ k =>
        rw [hshift, hrest.dest k (by omega)]
        congr 1
        exact Image.window_congr fun i hi _ => habove i (by omega)
  · intro i hi
    rw [hrest.elsewhere i fun k hk => by rw [← hshift]; exact hi (k + 1) (by omega)]
    refine hfirst.elsewhere i fun k hk => ?_
    obtain rfl : k = 0 := by omega
    exact hi 0 (by omega)

theorem opposite_reverseAddresses (hfits : offset + count * release.recordSize ≤ image.size) :
    release.Opposite image (release.reverseAddresses image offset count) offset count := by
  induction count generalizing image offset with
  | zero =>
      exact
        { fits := hfits
          size_eq := rfl
          name := fun k hk => absurd hk (Nat.not_lt_zero k)
          dest := fun k hk => absurd hk (Nat.not_lt_zero k)
          elsewhere := fun _ _ => rfl }
  | succ count ih =>
      rw [Nat.succ_mul] at hfits
      have hfirst := @opposite_one release image offset (by omega)
      refine hfirst.cons (ih ?_)
      rw [hfirst.size_eq]
      omega

namespace Opposite

/-! ## What stays the same -/

theorem get?_of_ge (h : release.Opposite image other offset count) {i : Nat}
    (hi : offset + count * release.recordSize ≤ i) : other.get? i = image.get? i := by
  have hsize := release.signatureSize_add_twelve_le
  refine h.elsewhere i fun k hk => .inr ?_
  have hrecords := Nat.mul_le_mul_right release.recordSize (Nat.succ_le_of_lt hk)
  rw [Nat.succ_mul] at hrecords
  omega

/-- Inside a record only the addresses change. -/
theorem get?_of_slot (h : release.Opposite image other offset count) {k i : Nat}
    (hlow : offset + k * release.recordSize ≤ i)
    (hhigh : i < offset + k * release.recordSize + release.recordSize)
    (hout : i < offset + k * release.recordSize + 4 ∨ offset + k * release.recordSize + 12 ≤ i) :
    other.get? i = image.get? i := by
  refine h.elsewhere i fun j _ => ?_
  have hsize := release.signatureSize_add_twelve_le
  rcases Nat.lt_trichotomy j k with hlt | rfl | hgt
  · have hrecords := Nat.mul_le_mul_right release.recordSize (Nat.succ_le_of_lt hlt)
    rw [Nat.succ_mul] at hrecords
    exact .inr (by omega)
  · exact hout
  · have hrecords := Nat.mul_le_mul_right release.recordSize (Nat.succ_le_of_lt hgt)
    rw [Nat.succ_mul] at hrecords
    exact .inl (by omega)

theorem fits_slot (h : release.Opposite image other offset count) {k : Nat} (hk : k < count) :
    offset + k * release.recordSize + release.recordSize ≤ image.size := by
  have hfits := h.fits
  have hrecords := Nat.mul_le_mul_right release.recordSize (Nat.succ_le_of_lt hk)
  rw [Nat.succ_mul] at hrecords
  omega

/-- Behind the records every window is the same. -/
theorem window_of_ge (h : release.Opposite image other offset count) {i size : Nat}
    (hi : offset + count * release.recordSize ≤ i) : other.window i size = image.window i size :=
  Image.window_congr fun _ hlow _ => h.get?_of_ge (Nat.le_trans hi hlow)

/-! ## Records and runs -/

/-- Whether the bytes at a slot are a record does not depend on the order of their addresses. -/
theorem recordAt_slot (h : release.Opposite image other offset count) {k : Nat} (hk : k < count) :
    release.recordAt other (offset + k * release.recordSize) =
      release.recordAt image (offset + k * release.recordSize) := by
  have hsize := release.signatureSize_add_twelve_le
  have hfits := h.fits_slot hk
  have hname := h.name k hk
  have hdest := h.dest k hk
  have hsame : ∀ {distance size}, distance + size ≤ release.recordSize →
      (distance + size ≤ 4 ∨ 12 ≤ distance) →
      other.window (offset + k * release.recordSize + distance) size =
        image.window (offset + k * release.recordSize + distance) size := by
    intro distance size hinside hout
    exact Image.window_congr fun i hlow hhigh => h.get?_of_slot (k := k) (by omega) (by omega) (by omega)
  have hlength : ∀ {shown : Image}, shown.size = image.size →
      (shown.window (offset + k * release.recordSize) release.recordSize).length =
        release.recordSize := by
    intro shown hshown
    exact Image.length_window (by omega)
  have hreserved := @hsame 0 4 (by omega) (.inl (by omega))
  have hsignature := @hsame (release.recordSize - release.signatureSize) release.signatureSize
    (by omega) (.inr (by omega))
  have hrest : release.recordSize - (release.recordSize - release.signatureSize) =
      release.signatureSize := by omega
  rw [Bool.eq_iff_iff, recordAt, recordAt, accepts_iff, accepts_iff, hlength h.size_eq, hlength rfl,
    field_window (by omega), field_window (by omega), field_window (by omega),
    field_window (by omega), field_window (by omega), field_window (by omega), drop_window,
    drop_window, hrest, hreserved, hsignature, hname, hdest, Ne, reverse_eq_zeroWord_iff, Ne,
    reverse_eq_zeroWord_iff]

theorem recordAt_eq (h : release.Opposite image other offset count) (k : Nat) :
    release.recordAt other (offset + k * release.recordSize) =
      release.recordAt image (offset + k * release.recordSize) := by
  rcases Nat.lt_or_ge k count with hlt | hge
  · exact h.recordAt_slot hlt
  · have hrecords := Nat.mul_le_mul_right release.recordSize hge
    rw [recordAt, recordAt, h.window_of_ge (by omega)]

/-- The halves of a name address are exchanged and each is reversed. -/
theorem window_half (h : release.Opposite image other offset count) {k : Nat} (hk : k < count) :
    other.window (offset + k * release.recordSize + 4) 2 =
        (image.window (offset + k * release.recordSize + 6) 2).reverse ∧
      other.window (offset + k * release.recordSize + 6) 2 =
        (image.window (offset + k * release.recordSize + 4) 2).reverse := by
  have hsize := release.signatureSize_add_twelve_le
  have hfits := h.fits_slot hk
  have hother := h.size_eq
  have hname := h.name k hk
  rw [image.window_append _ 2 2, other.window_append _ 2 2, List.reverse_append] at hname
  exact List.append_inj hname (by
    rw [Image.length_window (by omega), List.length_reverse, Image.length_window (by omega)])

/-- A half is kept where the other half was. -/
theorem keepsHalf_iff (h : release.Opposite image other offset count) {n : Nat} (hn : n ≤ count) :
    (release.KeepsHalf other 4 offset n ↔ release.KeepsHalf image 6 offset n) ∧
      (release.KeepsHalf other 6 offset n ↔ release.KeepsHalf image 4 offset n) := by
  have hcongr : ∀ {new old},
      (∀ k, k < count → other.window (offset + k * release.recordSize + new) 2 =
        (image.window (offset + k * release.recordSize + old) 2).reverse) →
      (release.KeepsHalf other new offset n ↔ release.KeepsHalf image old offset n) := by
    intro new old hwindow
    apply forall₂_congr
    intro k hk
    have hfirst := hwindow 0 (by omega)
    rw [Nat.zero_mul, Nat.add_zero] at hfirst
    rw [hwindow k (by omega), hfirst, List.reverse_inj]
  exact ⟨hcongr fun k hk => (h.window_half hk).1, hcongr fun k hk => (h.window_half hk).2⟩

theorem startsRun_eq (h : release.Opposite image other offset count) {minRun : Nat}
    (hrun : minRun ≤ count) :
    release.startsRun other minRun offset = release.startsRun image minRun offset := by
  obtain ⟨hfirst, hsecond⟩ := h.keepsHalf_iff hrun
  rw [Bool.eq_iff_iff, startsRun_iff, startsRun_iff]
  constructor
  · intro hbegins
    refine ⟨fun k hk => (h.recordAt_eq k).symm.trans (hbegins.records k hk), fun hv5 => ?_⟩
    rw [← hfirst, ← hsecond]
    exact (hbegins.half hv5).symm
  · intro hbegins
    refine ⟨fun k hk => (h.recordAt_eq k).trans (hbegins.records k hk), fun hv5 => ?_⟩
    rw [hfirst, hsecond]
    exact (hbegins.half hv5).symm

theorem runEnd_eq (h : release.Opposite image other offset count) :
    release.runEnd other offset = release.runEnd image offset := by
  obtain ⟨reached, hend, hrecords⟩ := exists_runEnd release image offset
  have hclosed := recordAt_runEnd release image offset
  rw [hend] at hclosed ⊢
  rw [runEnd_eq_iff]
  exact ⟨fun k hk => (h.recordAt_eq k).trans (hrecords k hk), (h.recordAt_eq reached).trans hclosed⟩

/-! ## The detection -/

/-- The detection answers for the half in which the other image is steady. -/
theorem detectOrder_eq_big_iff (h : release.Opposite image other offset count) (hcount : 2 ≤ count) :
    release.detectOrder other offset = .big ↔ release.KeepsHalf image 6 offset 2 := by
  have hrecords := Nat.mul_le_mul_right release.recordSize hcount
  have hfits := h.fits
  rw [Release.detectOrder_eq_big_iff (by rw [h.size_eq]; omega), (h.keepsHalf_iff hcount).1]

/-- The other order is detected if the first two name addresses agree in exactly one of their halves,
and the same one if they agree in both or in neither. -/
theorem detectOrder_iff (h : release.Opposite image other offset count) (hcount : 2 ≤ count) :
    (¬ (release.KeepsHalf image 4 offset 2 ↔ release.KeepsHalf image 6 offset 2) →
      release.detectOrder other offset = (release.detectOrder image offset).swap) ∧
    ((release.KeepsHalf image 4 offset 2 ↔ release.KeepsHalf image 6 offset 2) →
      release.detectOrder other offset = release.detectOrder image offset) := by
  have hrecords := Nat.mul_le_mul_right release.recordSize hcount
  have hfits := h.fits
  have hhere : release.detectOrder image offset = .big ↔ release.KeepsHalf image 4 offset 2 :=
    Release.detectOrder_eq_big_iff (by omega)
  have hthere := h.detectOrder_eq_big_iff hcount
  rw [← hhere, ← hthere]
  cases release.detectOrder image offset <;> cases release.detectOrder other offset <;>
    simp [ByteOrder.swap]

/-! ## The symbols -/

/-- Reading the stored bytes in reverse, and in the other order, gives the same word. -/
theorem word?_of_reverse {order : ByteOrder} {i : Nat}
    (hreversed : other.window i 4 = (image.window i 4).reverse) :
    other.word? order.swap i = image.word? order i := by
  rw [Image.word?, hreversed, ByteOrder.word?_reverse]
  rfl

/-- Reading the same bytes in the other order gives the word in reverse. -/
theorem word?_of_same {order : ByteOrder} {i : Nat} (hsame : other.window i 4 = image.window i 4) :
    other.word? order.swap i = (image.word? order i).map ByteOrder.reverseBytes := by
  rw [Image.word?, hsame, ByteOrder.word?_swap]
  rfl

/-- A slot of the other image, read in the other order, holds the same symbol but for its flags. -/
theorem decode?_slot (h : release.Opposite image other offset count) (order : ByteOrder) {k : Nat}
    (hk : k < count) :
    release.decode? other order.swap (offset + k * release.recordSize) =
      (release.decode? image order (offset + k * release.recordSize)).map Symbol.reverseFlags := by
  have hsize := release.signatureSize_add_twelve_le
  have hsigned : 4 ≤ release.signatureSize := by cases release <;> decide
  have hflags : other.window (offset + k * release.recordSize + release.recordSize - 4) 4 =
      image.window (offset + k * release.recordSize + release.recordSize - 4) 4 :=
    Image.window_congr fun i hlow hhigh => h.get?_of_slot (k := k) (by omega) (by omega) (by omega)
  have htype : other.get? (offset + k * release.recordSize + release.recordSize - 2) =
      image.get? (offset + k * release.recordSize + release.recordSize - 2) :=
    h.get?_of_slot (k := k) (by omega) (by omega) (by omega)
  simp only [decode?, word?_of_reverse (h.name k hk), word?_of_reverse (h.dest k hk),
    word?_of_same hflags, htype]
  cases image.word? order (offset + k * release.recordSize + 4) with
  | none => rfl
  | some nameAddress =>
      cases image.word? order (offset + k * release.recordSize + 8) with
      | none => rfl
      | some destAddress =>
          cases image.word? order (offset + k * release.recordSize + release.recordSize - 4) with
          | none => rfl
          | some flags =>
              cases image.get? (offset + k * release.recordSize + release.recordSize - 2) <;> rfl

theorem decodeTable_eq (h : release.Opposite image other offset count) (order : ByteOrder) :
    release.decodeTable other order.swap ⟨offset, offset + count * release.recordSize⟩ =
      (release.decodeTable image order ⟨offset, offset + count * release.recordSize⟩).map
        Symbol.reverseFlags := by
  have hslots : ∀ i ∈ List.range' offset count release.recordSize,
      release.decode? other order.swap i =
        (release.decode? image order i).map Symbol.reverseFlags := by
    intro i hi
    obtain ⟨k, hk, rfl⟩ := List.mem_range'.1 hi
    rw [Nat.mul_comm]
    exact h.decode?_slot order hk
  rw [decodeTable, decodeTable, Span.slots_whole release.recordSize_pos,
    List.filterMap_congr hslots, ← List.map_filterMap, Symbol.sortByName_map_reverseFlags,
    Symbol.withLengths_map_reverseFlags]

end Opposite

/-- Images that differ in the byte order of the addresses of some records only: the scan finds the same
run there, the detection changes its answer exactly if it sees one half and not the other repeat, and
the decoder, told the other order, finds the same symbols, of which only the flag words are read in
reverse, with the same functions among them. -/
theorem reverseAddresses_symmetric (release : Release) (image : Image) (offset count : Nat)
    (hfits : offset + count * release.recordSize ≤ image.size) :
    let other := release.reverseAddresses image offset count
    let table : Span := ⟨offset, offset + count * release.recordSize⟩
    (∀ minRun, minRun ≤ count →
      release.startsRun other minRun offset = release.startsRun image minRun offset) ∧
    release.runEnd other offset = release.runEnd image offset ∧
    (2 ≤ count →
      (¬ (release.KeepsHalf image 4 offset 2 ↔ release.KeepsHalf image 6 offset 2) →
        release.detectOrder other offset = (release.detectOrder image offset).swap) ∧
      ((release.KeepsHalf image 4 offset 2 ↔ release.KeepsHalf image 6 offset 2) →
        release.detectOrder other offset = release.detectOrder image offset)) ∧
    ∀ order : ByteOrder,
      release.decodeTable other order.swap table =
        (release.decodeTable image order table).map Symbol.reverseFlags ∧
      (release.decodeTable other order.swap table).map Symbol.isFunction =
        (release.decodeTable image order table).map Symbol.isFunction := by
  intro other table
  have hopposite : release.Opposite image other offset count := opposite_reverseAddresses hfits
  refine ⟨fun minRun hrun => hopposite.startsRun_eq hrun, hopposite.runEnd_eq,
    fun hcount => hopposite.detectOrder_iff hcount, fun order => ?_⟩
  have htable := hopposite.decodeTable_eq order
  refine ⟨htable, ?_⟩
  rw [htable, List.map_map]
  exact List.map_congr_left fun s _ => s.isFunction_reverseFlags

/-- Three functions with names of their own, stored in little endian order, are found and decoded as
well with their addresses in big endian order. -/
theorem reverseAddresses_ownNames :
    0 + 3 * v5.recordSize ≤ ownNames.size ∧
      v5.startsRun (v5.reverseAddresses ownNames 0 3) 3 0 = true ∧
      v5.detectOrder (v5.reverseAddresses ownNames 0 3) 0 = .big ∧
      (v5.decodeTable (v5.reverseAddresses ownNames 0 3) .big ⟨0, 48⟩).map Symbol.nameAddress =
        [0x80002410, 0x80002420, 0x80002430] := by
  have hfits : 0 + 3 * v5.recordSize ≤ ownNames.size := by decide +kernel
  obtain ⟨hstarts, _, hdetect, hdecode⟩ := reverseAddresses_symmetric v5 ownNames 0 3 hfits
  refine ⟨hfits, ?_, ?_, ?_⟩
  · rw [hstarts 3 (by decide)]
    decide +kernel
  · have hone : ¬ (v5.KeepsHalf ownNames 4 0 2 ↔ v5.KeepsHalf ownNames 6 0 2) := by
      rw [← isSteady_iff, ← isSteady_iff]
      decide +kernel
    rw [(hdetect (by decide)).1 hone]
    decide +kernel
  · have htable := (hdecode .little).1
    change v5.decodeTable _ .big ⟨0, 48⟩ = _ at htable
    rw [htable, List.map_map, decodeTable, Symbol.sortByName,
      List.mergeSort_of_pairwise (by decide +kernel)]
    decide +kernel

end Release

end FirmwareSymbols
