import Mathlib.Algebra.Group.Nat.Defs

/-!
# Target layouts

Sizes and alignments of the scalar types of a target: sizes in bits, alignments
in bytes. The source keeps four tables and picks one from the target triple.
-/

namespace Fisics

inductive TargetEndianness
  | little
  | big
  deriving DecidableEq, Inhabited

structure TargetLayout where
  charBits : Nat
  shortBits : Nat
  intBits : Nat
  longBits : Nat
  longLongBits : Nat
  pointerBits : Nat
  charAlign : Nat
  shortAlign : Nat
  intAlign : Nat
  longAlign : Nat
  longLongAlign : Nat
  pointerAlign : Nat
  bitfieldUnitBits : Nat
  bitfieldUnitAlign : Nat
  endianness : TargetEndianness
  deriving DecidableEq, Inhabited

/-- `layout_lp64_fp80`, and the other tables with a 64-bit `long` as far as the
integer types go. -/
def layoutLp64 : TargetLayout where
  charBits := 8
  shortBits := 16
  intBits := 32
  longBits := 64
  longLongBits := 64
  pointerBits := 64
  charAlign := 1
  shortAlign := 2
  intAlign := 4
  longAlign := 8
  longLongAlign := 8
  pointerAlign := 8
  bitfieldUnitBits := 32
  bitfieldUnitAlign := 4
  endianness := .little

def layoutLlp64 : TargetLayout :=
  { layoutLp64 with longBits := 32, longAlign := 4 }

end Fisics
