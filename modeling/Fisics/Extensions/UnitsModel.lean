import Mathlib.Data.Fintype.Pi
import Mathlib.Algebra.Ring.Int.Defs

/-!
# Dimensions

A vector of eight exponents in signed bytes, `units_model.c`. Sums and differences
are checked in each exponent.
-/

namespace Fisics

structure Dim8 where
  e : Fin 8 → Int8
  deriving DecidableEq

def checkedCastI8 (value : Int) : Option Int8 :=
  if value < -128 ∨ 127 < value then none else some (Int8.ofInt value)

def dimZero : Dim8 := ⟨fun _ => 0⟩

def dimIsDimensionless (dim : Dim8) : Bool := decide (∀ i, dim.e i = 0)

/-- The loop of `fisics_dim_add` and `fisics_dim_sub`. -/
def dimCombine (op : Int → Int → Int) (a b : Dim8) : Option Dim8 :=
  if ∀ i, (checkedCastI8 (op (a.e i).toInt (b.e i).toInt)).isSome then
    some ⟨fun i => (checkedCastI8 (op (a.e i).toInt (b.e i).toInt)).getD 0⟩
  else none

def dimAdd : Dim8 → Dim8 → Option Dim8 := dimCombine (· + ·)

def dimSub : Dim8 → Dim8 → Option Dim8 := dimCombine (· - ·)

-- Exponents as integers

def Dim8.exponents (dim : Dim8) : Fin 8 → ℤ := fun i => (dim.e i).toInt

def FitsDim8 (v : Fin 8 → ℤ) : Prop := ∀ i, -128 ≤ v i ∧ v i ≤ 127

instance (v : Fin 8 → ℤ) : Decidable (FitsDim8 v) := inferInstanceAs (Decidable (∀ _, _))

theorem Dim8.exponents_injective : Function.Injective Dim8.exponents := by
  rintro ⟨a⟩ ⟨b⟩ h
  congr
  funext i
  exact Int8.toInt_inj.mp (congrFun h i)

theorem Dim8.exponents_inj {a b : Dim8} : a.exponents = b.exponents ↔ a = b :=
  Dim8.exponents_injective.eq_iff

@[simp] theorem exponents_dimZero : dimZero.exponents = 0 := rfl

theorem checkedCastI8_fits (h : -128 ≤ z ∧ z ≤ 127) : checkedCastI8 z = some (Int8.ofInt z) :=
  if_neg (by omega)

theorem checkedCastI8_isSome : (checkedCastI8 z).isSome ↔ -128 ≤ z ∧ z ≤ 127 := by
  unfold checkedCastI8
  split
  · exact iff_of_false nofun (by omega)
  · exact iff_of_true rfl (by omega)

theorem dimCombine_exponents (op : Int → Int → Int) (a b : Dim8) :
    (dimCombine op a b).map Dim8.exponents =
      if FitsDim8 fun i => op (a.exponents i) (b.exponents i) then
        some fun i => op (a.exponents i) (b.exponents i)
      else none := by
  have hfits : (∀ i, (checkedCastI8 (op (a.e i).toInt (b.e i).toInt)).isSome) ↔
      FitsDim8 fun i => op (a.exponents i) (b.exponents i) :=
    forall_congr' fun i => checkedCastI8_isSome
  unfold dimCombine
  by_cases h : FitsDim8 fun i => op (a.exponents i) (b.exponents i)
  · rw [if_pos h, if_pos (hfits.mpr h), Option.map_some]
    congr
    funext i
    have hi := h i
    show (((checkedCastI8 (op (a.exponents i) (b.exponents i))).getD 0).toInt : ℤ) = _
    rw [checkedCastI8_fits hi, Option.getD_some]
    exact Int8.toInt_ofInt_of_le hi.1 (by omega)
  · rw [if_neg h, if_neg (mt hfits.mp h), Option.map_none]

end Fisics
