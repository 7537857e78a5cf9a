import Mathlib.Algebra.Order.Floor.Ring
import Mathlib.Data.Rat.Floor
import Mathlib.Order.WithBot
import Mathlib.Tactic.Positivity

/-!
# Numbers as Python has them

An integer has any size, a float is a binary64. Two integers are added exactly; otherwise both
become floats, which an integer may be too large for, and the sum is rounded to the nearest float,
ties to even. Numbers are compared by value, whatever their types are.
-/

namespace Workbay

/-! ## Binary64 -/

/-- The nearest integer, ties to even. -/
def roundHalfEven (q : ℚ) : Int :=
  if q - ⌊q⌋ < 1 / 2 then ⌊q⌋
  else if 1 / 2 < q - ⌊q⌋ then ⌊q⌋ + 1
  else if ⌊q⌋ % 2 = 0 then ⌊q⌋ else ⌊q⌋ + 1

/-- A power of two. -/
def powerOfTwo (e : Int) : ℚ :=
  if 0 ≤ e then ((2 ^ e.toNat : Nat) : ℚ) else 1 / ((2 ^ (-e).toNat : Nat) : ℚ)

/-- The distance between the binary64 around a value. -/
def ulp (q : ℚ) : ℚ :=
  let e : Int := (q.num.natAbs.log2 : Int) - (q.den.log2 : Int)
  powerOfTwo (max (-1074) ((if powerOfTwo e ≤ |q| then e else e - 1) - 52))

/-- The binary64 nearest to a value; `none` when it is too large. -/
def binary64 (q : ℚ) : Option ℚ :=
  let x := (roundHalfEven (q / ulp q) : ℚ) * ulp q
  if |x| < powerOfTwo 1024 then some x else none

theorem powerOfTwo_pos (e : Int) : 0 < powerOfTwo e := by
  unfold powerOfTwo
  split <;> positivity

theorem roundHalfEven_nonneg {q : ℚ} (h : 0 ≤ q) : 0 ≤ roundHalfEven q := by
  have hfloor : 0 ≤ ⌊q⌋ := Int.floor_nonneg.mpr h
  unfold roundHalfEven
  split_ifs <;> omega

theorem binary64_nonneg {q x : ℚ} (hq : 0 ≤ q) (h : binary64 q = some x) : 0 ≤ x := by
  unfold binary64 at h
  simp only at h
  split at h
  · obtain rfl := Option.some.inj h
    have hulp : 0 < ulp q := powerOfTwo_pos _
    have hround : 0 ≤ roundHalfEven (q / ulp q) := roundHalfEven_nonneg (div_nonneg hq hulp.le)
    exact mul_nonneg (Int.cast_nonneg hround) hulp.le
  · cases h

example : binary64 (2 ^ 53 + 1) = some (2 ^ 53) := by decide +kernel
example : binary64 (2 ^ 1024 - 2 ^ 970) = none := by decide +kernel

/-! ## Numbers -/

/-- A number. A float that is not finite is `inf`: the sums of numbers that are not negative give
no other. -/
inductive Number where
  | int (n : Int)
  | float (q : ℚ)
  | inf
deriving DecidableEq

namespace Number

/-- The value of a number. -/
def value : Number → WithTop ℚ
  | int n => ((n : ℚ) : WithTop ℚ)
  | float q => (q : WithTop ℚ)
  | inf => ⊤

instance : Preorder Number := Preorder.lift value

instance : DecidableLE Number := fun a b => inferInstanceAs (Decidable (a.value ≤ b.value))

instance : DecidableLT Number := fun a b => inferInstanceAs (Decidable (a.value < b.value))

variable {a b : Number}

theorem le_iff : a ≤ b ↔ a.value ≤ b.value := Iff.rfl

theorem lt_iff : a < b ↔ a.value < b.value := Iff.rfl

/-- `math.isfinite`, which fails on an integer that is too large for a float -/
def isFinite : Number → Bool
  | int n => (binary64 n).isSome
  | float _ => true
  | inf => false

/-- An integer that is too large for a float. -/
def isTooLarge : Number → Bool
  | int n => (binary64 n).isNone
  | _ => false

theorem isFinite_iff : a.isFinite = true ↔ a ≠ inf ∧ a.isTooLarge = false := by
  cases a <;> simp [isFinite, isTooLarge]

/-- The number as a float; `none` when it is too large. -/
def toFloat : Number → Option Number
  | int n => (binary64 n).map float
  | a => some a

/-- The sum of two floats. -/
def addFloat : Number → Number → Number
  | float x, float y => ((binary64 (x + y)).map float).getD inf
  | _, _ => inf

/-- `a + b`; `none` when an integer is too large to become a float. -/
def add? : Number → Number → Option Number
  | int a, int b => some (int (a + b))
  | a, b =>
    match a.toFloat, b.toFloat with
    | some x, some y => some (addFloat x y)
    | _, _ => none

/-- `min(a, b)` -/
def min (a b : Number) : Number := if b < a then b else a

/-- `max(a, b)` -/
def max (a b : Number) : Number := if a < b then b else a

theorem min_le_right (a b : Number) : min a b ≤ b := by
  unfold min
  split
  · exact le_refl b
  · rename_i h
    exact not_lt.mp (show ¬ b.value < a.value from h)

theorem le_min {c : Number} (ha : c ≤ a) (hb : c ≤ b) : c ≤ min a b := by
  unfold min
  split
  · exact hb
  · exact ha

theorem le_max_left (a b : Number) : a ≤ max a b := by
  unfold max
  split
  · rename_i h
    exact h.le
  · exact le_refl a

theorem int_nonneg {n : Int} : int 0 ≤ int n ↔ 0 ≤ n := by
  rw [le_iff]
  simp [value]

theorem float_nonneg {q : ℚ} : int 0 ≤ float q ↔ 0 ≤ q := by
  rw [le_iff]
  simp [value]

theorem toFloat_nonneg {x : Number} (ha : int 0 ≤ a) (h : a.toFloat = some x) : int 0 ≤ x := by
  cases a with
  | int n =>
    obtain ⟨q, hq, rfl⟩ := Option.map_eq_some_iff.mp h
    have hn : (0 : ℚ) ≤ n := Int.cast_nonneg (int_nonneg.mp ha)
    exact float_nonneg.mpr (binary64_nonneg hn hq)
  | float q =>
    obtain rfl := Option.some.inj h
    exact ha
  | inf =>
    obtain rfl := Option.some.inj h
    exact ha

theorem addFloat_nonneg (ha : int 0 ≤ a) (hb : int 0 ≤ b) : int 0 ≤ addFloat a b := by
  unfold addFloat
  split
  · rename_i x y
    cases hsum : binary64 (x + y) with
    | none => exact le_iff.mpr le_top
    | some q =>
      exact float_nonneg.mpr
        (binary64_nonneg (add_nonneg (float_nonneg.mp ha) (float_nonneg.mp hb)) hsum)
  · exact le_iff.mpr le_top

theorem add?_nonneg {c : Number} (ha : int 0 ≤ a) (hb : int 0 ≤ b) (h : add? a b = some c) :
    int 0 ≤ c := by
  unfold add? at h
  split at h
  · obtain rfl := Option.some.inj h
    exact int_nonneg.mpr (add_nonneg (int_nonneg.mp ha) (int_nonneg.mp hb))
  · split at h
    · rename_i x y hx hy
      obtain rfl := Option.some.inj h
      exact addFloat_nonneg (toFloat_nonneg ha hx) (toFloat_nonneg hb hy)
    · cases h

end Number

end Workbay

/-!
## Floats that need not be finite

What arithmetic on floats gives when a value is infinite or no number at all.
-/

namespace Workbay

/-- A binary64. -/
inductive Binary64 where
  | finite (q : ℚ)
  | infinite (negative : Bool)
  | nan
deriving DecidableEq

namespace Binary64

/-- The float nearest to a value. -/
def ofRat (q : ℚ) : Binary64 :=
  match binary64 q with
  | some x => finite x
  | none => infinite (decide (q < 0))

/-- `x - y` -/
def sub : Binary64 → Binary64 → Binary64
  | finite x, finite y => ofRat (x - y)
  | nan, _ => nan
  | _, nan => nan
  | infinite m, infinite n => if m = n then nan else infinite m
  | infinite m, finite _ => infinite m
  | finite _, infinite n => infinite (!n)

/-- `x > 0.0` -/
def isPositive : Binary64 → Bool
  | finite q => decide (0 < q)
  | infinite negative => !negative
  | nan => false

/-- `bool(x)` -/
def isTruthy : Binary64 → Bool
  | finite q => decide (q ≠ 0)
  | _ => true

end Binary64

end Workbay
