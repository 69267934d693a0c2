import Mathlib.Algebra.Order.Field.Basic
import Mathlib.Tactic.Common

/-!
# Doubles with exact arithmetic

`XReal R` has the values of a floating-point type without rounding: the elements of an ordered field, two
infinities and a value that is not a number. There is one zero. A comparison with `nan` is false.
-/

/-- A double with an exact value. -/
inductive XReal (R : Type) where
  | nan
  | negInf
  | fin (x : R)
  | posInf
deriving DecidableEq, Repr

namespace XReal

variable {R : Type} [Field R] [LinearOrder R]

/-- The infinity with the sign of `x`. -/
def infOf (x : R) : XReal R := if x < 0 then .negInf else .posInf

/-- `-x` -/
def neg : XReal R → XReal R
  | .nan => .nan
  | .negInf => .posInf
  | .fin x => .fin (-x)
  | .posInf => .negInf

/-- `x + y` -/
def add : XReal R → XReal R → XReal R
  | .nan, _ | _, .nan => .nan
  | .posInf, .negInf | .negInf, .posInf => .nan
  | .posInf, _ | _, .posInf => .posInf
  | .negInf, _ | _, .negInf => .negInf
  | .fin x, .fin y => .fin (x + y)

/-- `x - y` -/
def sub (x y : XReal R) : XReal R := add x (neg y)

/-- The product of an infinity and a value. -/
def scaleInf (positive : Bool) (x : R) : XReal R :=
  if x = 0 then .nan else if positive then infOf x else infOf (-x)

/-- `x * y` -/
def mul : XReal R → XReal R → XReal R
  | .nan, _ | _, .nan => .nan
  | .fin x, .fin y => .fin (x * y)
  | .fin x, .posInf | .posInf, .fin x => scaleInf true x
  | .fin x, .negInf | .negInf, .fin x => scaleInf false x
  | .posInf, .posInf | .negInf, .negInf => .posInf
  | .posInf, .negInf | .negInf, .posInf => .negInf

/-- `x / y` -/
def div : XReal R → XReal R → XReal R
  | .nan, _ | _, .nan => .nan
  | .fin x, .fin y => if y = 0 then (if x = 0 then .nan else infOf x) else .fin (x / y)
  | .fin _, _ => .fin 0
  | .posInf, .fin y => infOf y
  | .negInf, .fin y => neg (infOf y)
  | _, _ => .nan

/-- `sqrt`, for a root of non-negative values. -/
def sqrt (root : R → R) : XReal R → XReal R
  | .fin x => if x < 0 then .nan else .fin (root x)
  | .posInf => .posInf
  | _ => .nan

/-- `x < y` -/
def lt : XReal R → XReal R → Bool
  | .fin x, .fin y => decide (x < y)
  | .fin _, .posInf | .negInf, .fin _ | .negInf, .posInf => true
  | _, _ => false

/-- `x <= y` -/
def le : XReal R → XReal R → Bool
  | .fin x, .fin y => decide (x ≤ y)
  | .nan, _ | _, .nan => false
  | .negInf, _ | _, .posInf => true
  | _, _ => false

omit [Field R] in
lemma lt_irrefl (x : XReal R) : lt x x = false := by
  cases x with
  | fin x => exact decide_eq_false (not_lt.mpr (le_refl x))
  | nan => rfl
  | negInf => rfl
  | posInf => rfl

omit [Field R] in
lemma lt_trans {x y z : XReal R} (hxy : lt x y = true) (hyz : lt y z = true) : lt x z = true := by
  cases x with
  | nan => cases hxy
  | posInf => cases hxy
  | negInf =>
    cases y with
    | fin y => cases z <;> first | rfl | cases hyz
    | posInf => cases hyz
    | nan => cases hxy
    | negInf => cases hxy
  | fin x =>
    cases y with
    | fin y =>
      cases z with
      | fin z => exact decide_eq_true ((of_decide_eq_true hxy).trans (of_decide_eq_true hyz))
      | posInf => rfl
      | nan => cases hyz
      | negInf => cases hyz
    | posInf => cases hyz
    | nan => cases hxy
    | negInf => cases hxy

omit [Field R] in
lemma le_trans {x y z : XReal R} (hxy : le x y = true) (hyz : le y z = true) : le x z = true := by
  cases x with
  | nan => cases hxy
  | negInf =>
    cases z with
    | nan => cases y <;> cases hyz
    | _ => rfl
  | posInf =>
    cases y with
    | posInf => exact hyz
    | _ => cases hxy
  | fin x =>
    cases y with
    | nan => cases hxy
    | negInf => cases hxy
    | posInf =>
      cases z with
      | posInf => rfl
      | _ => cases hyz
    | fin y =>
      cases z with
      | fin z => exact decide_eq_true ((of_decide_eq_true hxy).trans (of_decide_eq_true hyz))
      | posInf => rfl
      | _ => cases hyz

omit [Field R] in
lemma le_of_not_lt {x y : XReal R} (hx : x ≠ .nan) (hy : y ≠ .nan) (hlt : ¬lt y x = true) :
    le x y = true := by
  cases x with
  | nan => exact absurd rfl hx
  | negInf =>
    cases y with
    | nan => exact absurd rfl hy
    | _ => rfl
  | posInf =>
    cases y with
    | nan => exact absurd rfl hy
    | posInf => rfl
    | _ => exact absurd rfl hlt
  | fin x =>
    cases y with
    | nan => exact absurd rfl hy
    | negInf => exact absurd rfl hlt
    | posInf => rfl
    | fin y =>
      have hle : ¬y < x := of_decide_eq_false (Bool.eq_false_iff.mpr hlt)
      exact decide_eq_true (not_lt.mp hle)

/-! ## Operations with a finite value -/

omit [LinearOrder R] in
lemma sub_fin_ne_nan {x : XReal R} (hx : x ≠ .nan) (a : R) : sub x (.fin a) ≠ .nan := by
  cases x with
  | nan => exact absurd rfl hx
  | _ => simp [sub, neg, add]

lemma div_fin_ne_nan {x : XReal R} (hx : x ≠ .nan) {s : R} (hs : s ≠ 0) : div x (.fin s) ≠ .nan := by
  cases x with
  | nan => exact absurd rfl hx
  | fin x =>
    show (if s = 0 then (if x = 0 then .nan else infOf x) else XReal.fin (x / s)) ≠ .nan
    rw [if_neg hs]
    simp
  | posInf =>
    show infOf s ≠ .nan
    unfold infOf
    split_ifs <;> simp
  | negInf =>
    show neg (infOf s) ≠ .nan
    unfold infOf
    split_ifs <;> simp [neg]

section

variable [IsStrictOrderedRing R]

lemma add_le_add_left {x y : XReal R} (h : le x y = true) (a : R) :
    le (add (.fin a) x) (add (.fin a) y) = true := by
  cases x with
  | nan => cases h
  | negInf =>
    cases y with
    | nan => cases h
    | _ => rfl
  | posInf =>
    cases y with
    | posInf => rfl
    | _ => cases h
  | fin x =>
    cases y with
    | nan => cases h
    | negInf => cases h
    | posInf => rfl
    | fin y =>
      have hle : x ≤ y := of_decide_eq_true h
      exact decide_eq_true (add_le_add_right hle a)

lemma mul_le_mul_right {x y : R} (h : x ≤ y) {s : R} (hs : 0 ≤ s) :
    le (mul (.fin x) (.fin s)) (mul (.fin y) (.fin s)) = true :=
  decide_eq_true (mul_le_mul_of_nonneg_right h hs)

end

/-! ## Values that are not exceptions -/

lemma div_fin {x y : R} (hy : y ≠ 0) : div (.fin x) (.fin y) = .fin (x / y) := if_neg hy

/-- Zero by zero is not a number. -/
lemma div_zero_zero : div (.fin (0 : R)) (.fin 0) = .nan := (if_pos rfl).trans (if_pos rfl)

lemma sqrt_fin (root : R → R) {x : R} (hx : 0 ≤ x) : sqrt root (.fin x) = .fin (root x) :=
  if_neg (not_lt.mpr hx)

/-! ## The operators -/

instance : Zero (XReal R) := ⟨.fin 0⟩
instance : NatCast (XReal R) := ⟨fun n => .fin n⟩
instance : Top (XReal R) := ⟨.posInf⟩
instance : Bot (XReal R) := ⟨.negInf⟩
instance : LT (XReal R) := ⟨fun x y => lt x y = true⟩
instance : DecidableLT (XReal R) := fun x y => inferInstanceAs (Decidable (lt x y = true))
instance : Add (XReal R) := ⟨add⟩
instance : Sub (XReal R) := ⟨sub⟩
instance : Neg (XReal R) := ⟨neg⟩
instance : Mul (XReal R) := ⟨mul⟩
instance : Div (XReal R) := ⟨div⟩

end XReal
