import ProtocolFakes.Text.Byte

/-!
# Source ranges

A source range is a span of a document: the byte offset where it starts and its
length in bytes.  Offsets are absolute within the document, so a range can be
used to patch it.

Offsets and lengths are 64-bit.  The end of a range may lie beyond the largest
offset: `stop` then answers the largest offset, and `stop?` answers nothing.
The bounds are part of the type, so no statement about ranges has to assume
them.
-/

namespace ProtocolFakes

set_option autoImplicit false

/-! ## Offsets -/

/-- The largest byte offset and the largest length: the largest number of 64 bits. -/
abbrev maxOffset : Nat := 18446744073709551615

/-- The nearest offset to a number. -/
def clampOffset (n : Nat) : Nat := min n maxOffset

theorem clampOffset_le (n : Nat) : clampOffset n ≤ maxOffset := Nat.min_le_right ..

theorem clampOffset_of_le {n : Nat} (h : n ≤ maxOffset) : clampOffset n = n := Nat.min_eq_left h

/-! ## Ranges -/

/-- A span of source text: a byte offset and a byte length. -/
@[ext] structure SourceRange where
  location : Nat
  length : Nat
  location_le : location ≤ maxOffset := by decide
  length_le : length ≤ maxOffset := by decide
  deriving DecidableEq

namespace SourceRange

instance : Inhabited SourceRange := ⟨{ location := 0, length := 0 }⟩

/-- The range with the given location and length, each brought below the
largest offset. -/
def clamped (location length : Nat) : SourceRange where
  location := clampOffset location
  length := clampOffset length
  location_le := clampOffset_le _
  length_le := clampOffset_le _

/-- The range with the given location and length, if both are offsets. -/
def ofNats? (location length : Nat) : Option SourceRange :=
  if h : location ≤ maxOffset ∧ length ≤ maxOffset then
    some ⟨location, length, h.1, h.2⟩
  else none

/-- The range from `start` up to `stop`; empty when `stop` is not behind
`start`. -/
def ofBounds (start stop : Nat) : SourceRange := clamped start (stop - start)

/-- The empty range at an offset. -/
def emptyAt (location : Nat) : SourceRange := clamped location 0

/-- The exclusive end, at most the largest offset. -/
def stop (r : SourceRange) : Nat := clampOffset (r.location + r.length)

/-- The exclusive end, if it is an offset. -/
def stop? (r : SourceRange) : Option Nat :=
  if r.location + r.length ≤ maxOffset then some (r.location + r.length) else none

/-- A range that covers no text. -/
def isEmpty (r : SourceRange) : Bool := r.length == 0

/-- The smallest range that covers two ranges. -/
def envelope (r s : SourceRange) : SourceRange :=
  ofBounds (min r.location s.location) (max r.stop s.stop)

/-- The smallest range that covers every range of a list; an empty list has
none. -/
def envelopeOf? : List SourceRange → Option SourceRange
  | [] => none
  | r :: rs => some (rs.foldl envelope r)

/-- Whether a range lies within another; an empty range on either boundary
does. -/
def encloses (outer inner : SourceRange) : Bool :=
  decide (outer.location ≤ inner.location) && decide (inner.stop ≤ outer.stop)

/-- The range moved forward by `base` bytes. -/
def shift (base : Nat) (r : SourceRange) : SourceRange := clamped (r.location + base) r.length

/-- The text that a range covers, if it is in bounds and cuts no character. -/
def slice? (r : SourceRange) (source : String) : Option String :=
  (Text.sliceBytes? r.location r.stop source.toList).map String.ofList

/-- A range is written as its start and its end. -/
instance : ToString SourceRange := ⟨fun r => s!"{r.location}..{r.stop}"⟩

end SourceRange

end ProtocolFakes
