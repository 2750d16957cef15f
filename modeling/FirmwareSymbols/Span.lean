/-!
# Spans of offsets

A `Span` is a half-open interval `[start, stop)` of offsets into an
image: the extent of a table, of a name, of a string. A span whose stop
does not lie beyond its start is empty.
-/

namespace FirmwareSymbols

/-- The half-open interval `[start, stop)` of offsets. -/
structure Span where
  /-- First offset of the span. -/
  start : Nat
  /-- First offset behind the span. -/
  stop : Nat
deriving DecidableEq, Repr, Inhabited

namespace Span

/-- Number of offsets in the span. -/
def length (s : Span) : Nat := s.stop - s.start

/-- Whether the span holds no offset. -/
def isEmpty (s : Span) : Bool := s.length == 0

/-- Whether the span holds an offset. -/
def contains (s : Span) (offset : Nat) : Bool :=
  decide (s.start ≤ offset) && decide (offset < s.stop)

/-- Every `stride`-th offset of the span, from its start on; a stride of zero counts as one. -/
def slots (s : Span) (stride : Nat) : List Nat :=
  let step := max stride 1
  List.range' s.start ((s.length + step - 1) / step) step

/-- The slots of a span are its offsets at a whole number of strides from the start. -/
theorem mem_slots_iff {s : Span} {stride o : Nat} :
    o ∈ s.slots stride ↔ o < s.stop ∧ ∃ k, o = s.start + max stride 1 * k := by
  have pos : 0 < max stride 1 := by omega
  simp only [slots, List.mem_range']
  constructor
  · rintro ⟨k, hk, rfl⟩
    refine ⟨?_, k, rfl⟩
    have := (Nat.lt_div_iff_mul_lt pos).1 hk
    rw [Nat.mul_comm] at this
    unfold length at this
    omega
  · rintro ⟨hlt, k, rfl⟩
    refine ⟨k, (Nat.lt_div_iff_mul_lt pos).2 ?_, rfl⟩
    rw [Nat.mul_comm]
    unfold length
    omega

theorem pairwise_slots (s : Span) (stride : Nat) : (s.slots stride).Pairwise (· < ·) :=
  List.pairwise_lt_range' _ (by omega)

/-- A span of a whole number of strides has as many slots. -/
theorem slots_whole {start stride : Nat} (pos : 0 < stride) (count : Nat) :
    (Span.mk start (start + count * stride)).slots stride = List.range' start count stride := by
  have step : max stride 1 = stride := by omega
  have length : (Span.mk start (start + count * stride)).length = count * stride :=
    Nat.add_sub_cancel_left start _
  have strides : (count * stride + stride - 1) / stride = count := by
    rw [Nat.add_sub_assoc pos, Nat.mul_comm, Nat.mul_add_div pos,
      Nat.div_eq_of_lt (by omega), Nat.add_zero]
  rw [slots, step, length, strides]

end Span

end FirmwareSymbols
