import ActiveHarmony.Config.Hcfg
import Mathlib.Data.Int.Notation

/-!
# Points, performances, signatures and messages

The data structures that clients and sessions exchange. `V` stands for the C type `double`.
Arrays with their length fields are lists.
-/

namespace ActiveHarmony

variable (V : Type)

/-- `hval_t`. -/
inductive HVal where
  | unknown
  | int (i : ℤ)
  | real (r : V)
  | str (s : Option Bytes)
deriving DecidableEq, Repr

/-- `hpoint_t`; `n` is the length of `val`. -/
structure HPoint where
  id : ℤ
  val : List (HVal V)
deriving DecidableEq, Repr

/-- `HPOINT_INITIALIZER`. -/
def hpointInitializer : HPoint V := { id := -1, val := [] }

/-- `hperf_t`; `n` is the length of `p`. -/
structure HPerf where
  p : List V
deriving DecidableEq, Repr

/-- The type and the bounds of a range. The strings of an enumeration are never `NULL`:
`hsignature_enum` stores copies. -/
inductive HBounds where
  | unknown
  | int (min max step : ℤ)
  | real (min max step : V)
  | str (set : List Bytes)
deriving DecidableEq, Repr

/-- `hrange_t`. -/
structure HRange where
  name : Option Bytes
  bounds : HBounds V
deriving DecidableEq, Repr

/-- `hsignature_t`. -/
structure HSignature where
  name : Option Bytes
  range : List (HRange V)
deriving DecidableEq, Repr

/-- `hsession_t`. -/
structure HSession where
  sig : HSignature V
  cfg : Hcfg
deriving DecidableEq, Repr

/-- `hmesg_type`. -/
inductive HMesgType where
  | unknown | session | join | getcfg | setcfg | best | fetch | report | restart
deriving DecidableEq, Repr

/-- `hmesg_status`. -/
inductive HMesgStatus where
  | unknown | req | ok | fail | busy
deriving DecidableEq, Repr

/-- The union `data` of `hmesg_t`, with the member written last. -/
inductive HMesgData where
  | none
  | session (s : HSession V)
  | join (sig : HSignature V)
  | point (pt : HPoint V)
  | report (candId : ℤ) (perf : HPerf V)
  | string (s : Option Bytes)
deriving DecidableEq, Repr

/-- `hmesg_t`, without its buffer. -/
structure HMesg where
  dest : ℤ
  type : HMesgType
  status : HMesgStatus
  srcId : Option Bytes
  data : HMesgData V
deriving DecidableEq, Repr

end ActiveHarmony
