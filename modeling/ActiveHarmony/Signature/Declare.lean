import ActiveHarmony.Lib.FloatFormat
import ActiveHarmony.Strategy.ExhaustiveReject
import ActiveHarmony.Wire.RoundTrip

/-!
# Declared ranges

`hsignature_int`, `hsignature_real` and `hsignature_enum` put ranges into a signature, and the functions of
the ranges compute on them with the numbers of the machine. A `long` that overflows, a division by zero and a
`double` that is too great for an `unsigned long` have no result. The declarators compare the bounds and the
names but not the steps, so a signature can hold ranges that have no grid.
-/

namespace ActiveHarmony

variable (K : Type) [Field K] [LinearOrder K] [FloorRing K]

/-! ## Numbers of the machine -/

/-- The format of `double`. -/
def binary64 : FloatFormat where
  fraction := 52
  emin := -1074
  emax := 1024

/-- `double`. -/
structure Double where
  val : XReal K
  rounded : binary64.ofXReal val = val

/-- `long`. -/
structure Long where
  val : ℤ
  isLong : IsLong val

namespace Machine

variable {K}

attribute [local instance] two_atLeastTwo in
/-- The conversion to `unsigned long`. -/
def toULong : XReal K → Option ℕ
  | .fin x => if -1 < x ∧ x < 2 ^ 64 then some ⌊x⌋.toNat else none
  | _ => none

attribute [local instance] two_atLeastTwo in
/-- The rounding of `hrange_int_index` and `hrange_real_index`. -/
def nearestIndex (idx : XReal K) (maxIdx : ℕ) : Option ℕ :=
  let idx := binary64.add idx (.fin (1 / 2))
  let idx := if idx.lt (.fin 0) then .fin 0 else idx
  let idx := if (binary64.ofExact (maxIdx : K)).lt idx then binary64.ofExact (maxIdx : K) else idx
  toULong idx

/-- `hrange_int_max_idx`. -/
def hrangeIntMaxIdx (min max step : ℤ) : Option ℕ :=
  if ¬IsLong (max - min) then none
  else if step = 0 then none
  else if ¬IsLong ((max - min).tdiv step) then none
  else some ((max - min).tdiv step % 2 ^ 64).toNat

variable (K) in
/-- `hrange_int_index`. -/
def hrangeIntIndex (min max step val : ℤ) : Option ℕ := do
  let maxIdx ← hrangeIntMaxIdx min max step
  if ¬IsLong (val - min) then none
  else
    let idx := binary64.ofExact ((val - min : ℤ) : K)
    let idx := binary64.div idx (binary64.ofExact (step : K))
    nearestIndex idx maxIdx

variable (K) in
/-- `hrange_int_nearest`; the sum is `unsigned long`. -/
def hrangeIntNearest (min max step val : ℤ) : Option ℤ := do
  let idx ← hrangeIntIndex K min max step val
  some (Int.bmod (min + idx * step) (2 ^ 64))

/-- `hrange_real_max_idx`. -/
def hrangeRealMaxIdx (min max step : XReal K) : Option ℕ :=
  if XReal.lt (.fin 0) step then toULong (binary64.div (binary64.sub max min) step)
  else some 0

/-- `hrange_real_index`. -/
def hrangeRealIndex (min max step val : XReal K) : Option ℕ := do
  let maxIdx ← hrangeRealMaxIdx min max step
  if step = .fin 0 then none
  else
    let idx := binary64.sub val min
    let idx := binary64.div idx step
    nearestIndex idx maxIdx

/-- `hrange_real_nearest`. -/
def hrangeRealNearest (min max step val : XReal K) : Option (XReal K) :=
  if XReal.lt (.fin 0) step then do
    let idx ← hrangeRealIndex min max step val
    some (binary64.add min (binary64.mul (binary64.ofExact (idx : K)) step))
  else
    let val := if val.lt min then min else val
    let val := if max.lt val then max else val
    some val

/-- `hrange_max_idx`. -/
def hrangeMaxIdx : HBounds (Double K) → Option ℕ
  | .int min max step => hrangeIntMaxIdx min max step
  | .real min max step => hrangeRealMaxIdx min.val max.val step.val
  | .str set => some (if set.length = 0 then 2 ^ 64 - 1 else set.length - 1)
  | .unknown => some 0

end Machine

/-! ## Declarators -/

variable {K} {V : Type}

/-- `hrange_find`, the place of the range. -/
def hrangeFind (sig : HSignature V) (name : Bytes) : Option ℕ :=
  sig.range.findIdx? fun range => range.name = some name

/-- `hrange_add`. The new range is at the end and has no type. -/
def hrangeAdd (sig : HSignature V) (name : Bytes) : Option (HSignature V × ℕ) :=
  if (hrangeFind sig name).isSome then none
  else some ({ sig with range := sig.range ++ [⟨some name, .unknown⟩] }, sig.range.length)

/-- Writes the type and the bounds of a range. -/
def setBounds (sig : HSignature V) (i : ℕ) (bounds : HBounds V) : HSignature V :=
  { sig with range := sig.range.modify i fun range => { range with bounds := bounds } }

/-- `hsignature_int`. -/
def hsignatureInt (sig : HSignature V) (name : Bytes) (min max step : Long) : HSignature V × ℤ :=
  if max.val < min.val then (sig, -1)
  else
    match hrangeAdd sig name with
    | none => (sig, -1)
    | some (sig, i) => (setBounds sig i (.int min.val max.val step.val), 0)

/-- `hsignature_real`. -/
def hsignatureReal (sig : HSignature (Double K)) (name : Bytes) (min max step : Double K) :
    HSignature (Double K) × ℤ :=
  if max.val.lt min.val then (sig, -1)
  else
    match hrangeAdd sig name with
    | none => (sig, -1)
    | some (sig, i) => (setBounds sig i (.real min max step), 0)

/-- The part of `hsignature_enum` that adds the value to a range. -/
def enumAdd (sig : HSignature V) (i : ℕ) (value : Bytes) : HSignature V × ℤ :=
  match sig.range[i]? with
  | some ⟨_, .str set⟩ =>
    if value ∈ set then (sig, -1) else (setBounds sig i (.str (set ++ [value])), 0)
  | _ => (sig, -1)

/-- `hsignature_enum`. -/
def hsignatureEnum (sig : HSignature V) (name value : Bytes) : HSignature V × ℤ :=
  match hrangeFind sig name with
  | some i => enumAdd sig i value
  | none =>
    match hrangeAdd sig name with
    | none => (sig, -1)
    | some (sig, i) => enumAdd (setBounds sig i (.str [])) i value

variable (K) in
/-- The calls that declare ranges. -/
inductive Declaration where
  | int (name : Bytes) (min max step : Long)
  | real (name : Bytes) (min max step : Double K)
  | enum (name value : Bytes)

/-- One call and its return value. -/
def declare (sig : HSignature (Double K)) : Declaration K → HSignature (Double K) × ℤ
  | .int name min max step => hsignatureInt sig name min max step
  | .real name min max step => hsignatureReal sig name min max step
  | .enum name value => hsignatureEnum sig name value

/-- The signature after the calls. -/
def declareAll (calls : List (Declaration K)) : HSignature (Double K) :=
  calls.foldl (fun sig call => (declare sig call).1) ⟨none, []⟩

end ActiveHarmony
