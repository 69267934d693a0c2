import ActiveHarmony.Lib.ArrayFill
import ActiveHarmony.Wire.Framing

/-!
# Decodes that fail

`hmesg_deserialize` stores the type, the status and the lengths of a message before it has read what
they describe. Here the deserializers are modelled with the memory that they allocate, and the `*_fini`
functions with the pointers that they pass to `free`. `releasable_iff` says for which texts
`hmesg_scrub` then releases nothing that this decode did not allocate.

Of every structure there are only the fields that its `*_fini` function looks at. `mem buf` tells
whether `malloc` succeeds when `buf` is left to read: no two of the calls see the same text.
-/

namespace ActiveHarmony

namespace Raw

open TextScan

/-! ## Structures and their release -/

/-- `hval_type`. -/
inductive HValType where
  | unknown | int | real | str
deriving DecidableEq, Repr

/-- `hrange_t`. `cells` are the strings of `set` that were written. -/
structure HRange where
  name : Ptr
  type : HValType
  set : Ptr
  setLen : ℤ
  cells : List Ptr
deriving DecidableEq, Repr

/-- `HRANGE_INITIALIZER`. -/
def hrangeInitializer : HRange :=
  { name := .null, type := .unknown, set := .null, setLen := 0, cells := [] }

/-- `hsignature_t`. `cells` are the ranges that were written. -/
structure HSignature where
  name : Ptr
  range : Ptr
  rangeLen : ℤ
  cells : List HRange
deriving DecidableEq, Repr

/-- `HSIGNATURE_INITIALIZER`. -/
def hsignatureInitializer : HSignature :=
  { name := .null, range := .null, rangeLen := 0, cells := [] }

/-- `hsession_t`. -/
structure HSession where
  sig : HSignature
  cfg : Ptr
deriving DecidableEq, Repr

/-- `hpoint_t`. `strs` are the strings among the values. -/
structure HPoint where
  n : ℤ
  val : Ptr
  memlevel : ℤ
  strs : List Ptr
deriving DecidableEq, Repr

/-- `HPOINT_INITIALIZER`. -/
def hpointInitializer : HPoint := { n := 0, val := .null, memlevel := 0, strs := [] }

/-- `hpoint_fini`. -/
def hpointFini (pt : HPoint) : List Ptr :=
  if pt.n > 0 then (if pt.memlevel = 1 then pt.strs else []) ++ [pt.val] else []

/-- The union `data` of `hmesg_t`: what its bytes are when they are read as one of its members. -/
structure HMesgData where
  session : HSession
  join : HSignature
  point : HPoint
  perf : Ptr
deriving DecidableEq, Repr

/-- `hmesg_t`. -/
structure HMesg where
  type : HMesgType
  status : HMesgStatus
  data : HMesgData
deriving DecidableEq, Repr

/-- `HMESG_INITIALIZER`. -/
def hmesgInitializer : HMesg where
  type := .unknown
  status := .unknown
  data :=
    { session := { sig := hsignatureInitializer, cfg := .null }, join := hsignatureInitializer,
      point := hpointInitializer, perf := .null }

/-- A pointer that was there before. -/
def stalePtr (p : Ptr) : Ptr := if p = .null then .null else .stray

def HRange.stale (range : HRange) : HRange :=
  { range with name := stalePtr range.name, set := stalePtr range.set,
               cells := range.cells.map stalePtr }

def HSignature.stale (sig : HSignature) : HSignature :=
  { sig with name := stalePtr sig.name, range := stalePtr sig.range,
             cells := sig.cells.map HRange.stale }

def HPoint.stale (pt : HPoint) : HPoint :=
  { pt with val := stalePtr pt.val, strs := pt.strs.map stalePtr }

/-- A message before it is used again: whatever it points to, the next decode did not allocate it. -/
def HMesg.stale (mesg : HMesg) : HMesg :=
  { mesg with data :=
    { session := { sig := mesg.data.session.sig.stale, cfg := stalePtr mesg.data.session.cfg },
      join := mesg.data.join.stale, point := mesg.data.point.stale,
      perf := stalePtr mesg.data.perf } }

/-! ## Deserializers -/

variable {V : Type} (fmt : LaFormat V) (mem : Bytes → Bool)

/-- `stralloc`. -/
def stralloc (k : ℕ) (str : Option Bytes) (buf : Bytes) : Ptr × ℕ :=
  if str ≠ none ∧ mem buf = true then (.block k, k + 1) else (.null, k)

/-- The label and the name at the front of a range or a signature. -/
def nameDeserialize (label : Bytes) (k : ℕ) (buf : Bytes) : Ptr × ℕ × Option Bytes :=
  match literal label buf with
  | none => (.null, k, none)
  | some (_, buf) =>
    match scanstrSerial buf with
    | none => (.null, k, none)
    | some (str, buf) =>
      let (name, k) := stralloc mem k str buf
      (name, k, if name = .null then none else some buf)

/-- `realloc` of an array that has no cells yet, if it is to have some. -/
def growArray (k : ℕ) (len : ℤ) (buf : Bytes) : Option (Ptr × ℕ) :=
  if 0 < len then if mem buf then some (.block k, k + 1) else none else some (.null, k)

/-- One round of the loop over the strings of a range. -/
def setDeserialize (k : ℕ) (buf : Bytes) : Option Ptr × ℕ × Option Bytes :=
  match scanstrSerial buf with
  | none => (none, k, none)
  | some (str, buf) =>
    let (s, k) := stralloc mem k str buf
    (some s, k, if s = .null then none else some buf)

/-- Three numbers. -/
def three {α : Type} (p : Scanner α) : Scanner Unit := do
  let _ ← p
  let _ ← p
  let _ ← p
  return ()

/-- The strings of an enumeration. -/
def strDeserialize (range : HRange) (k : ℕ) (buf : Bytes) : HRange × ℕ × Option Bytes :=
  match scanD buf with
  | none => (range, k, none)
  | some (setLen, buf) =>
    match growArray mem k setLen buf with
    | none => ({ range with setLen := setLen }, k, none)
    | some (set, k) =>
      -- the cells are allocated, and not written
      let r := fill (setDeserialize mem) setLen.toNat k buf
      ({ range with setLen := setLen, set := set, cells := r.1 }, r.2)

/-- The type and the bounds part of `hrange_deserialize`. -/
def boundsDeserialize (range : HRange) (k : ℕ) (buf : Bytes) : HRange × ℕ × Option Bytes :=
  match word 3 buf with
  | none => (range, k, none)
  | some (typeStr, buf) =>
    if typeStr = cstr "INT" then
      ({ range with type := .int }, k, (three scanLd buf).map Prod.snd)
    else if typeStr = cstr "REL" then
      ({ range with type := .real }, k, (three (scanLa fmt) buf).map Prod.snd)
    else if typeStr = cstr "STR" then strDeserialize mem { range with type := .str } k buf
    else (range, k, none)

/-- `hrange_deserialize`, into `HRANGE_INITIALIZER`. -/
def hrangeDeserialize (k : ℕ) (buf : Bytes) : HRange × ℕ × Option Bytes :=
  match nameDeserialize mem (cstr "range:") k buf with
  | (name, k, none) => ({ hrangeInitializer with name := name }, k, none)
  | (name, k, some buf) => boundsDeserialize fmt mem { hrangeInitializer with name := name } k buf

/-- One round of the loop over the ranges: the cell is initialized first. -/
def rangeDeserialize (k : ℕ) (buf : Bytes) : Option HRange × ℕ × Option Bytes :=
  (some (hrangeDeserialize fmt mem k buf).1, (hrangeDeserialize fmt mem k buf).2)

/-- `hsignature_deserialize`, into `HSIGNATURE_INITIALIZER`. -/
def hsignatureDeserialize (k : ℕ) (buf : Bytes) : HSignature × ℕ × Option Bytes :=
  match nameDeserialize mem (cstr "sig:") k buf with
  | (name, k, none) => ({ hsignatureInitializer with name := name }, k, none)
  | (name, k, some buf) =>
    match scanD buf with
    | none => ({ hsignatureInitializer with name := name }, k, none)
    | some (rangeLen, buf) =>
      match growArray mem k rangeLen buf with
      | none => ({ hsignatureInitializer with name := name, rangeLen := rangeLen }, k, none)
      | some (range, k) =>
        let r := fill (rangeDeserialize fmt mem) rangeLen.toNat k buf
        ({ name := name, range := range, rangeLen := rangeLen, cells := r.1 }, r.2)

/-- The start of `hcfg_deserialize`. -/
def hcfgHeader : Scanner (ℕ × ℕ) := do
  literal (cstr "hcfg:")
  let kcount ← scanU
  let logsize ← scanU
  return (kcount, logsize)

/-- `hcfg_deserialize`. The table owns what its functions allocate, whether or not they fail. -/
def hcfgDeserialize (buf : Bytes) : Option Bytes :=
  match hcfgHeader buf with
  | none => none
  | some (_, rest) =>
    if mem rest then (ActiveHarmony.hcfgDeserialize hcfgAlloc buf).map Prod.snd else none

/-- `hsession_init` and `hsession_deserialize`. Nobody looks at the result of the first. -/
def hsessionDeserialize (k : ℕ) (buf : Bytes) : HSession × ℕ × Option Bytes :=
  let (cfg, k) := if mem buf then (Ptr.block k, k + 1) else (Ptr.null, k)
  match literal (cstr "session:") buf with
  | none => ({ sig := hsignatureInitializer, cfg := cfg }, k, none)
  | some (_, buf) =>
    let (sig, k, out) := hsignatureDeserialize fmt mem k buf
    ({ sig := sig, cfg := cfg }, k, out.bind (hcfgDeserialize mem))

/-- The start of `hpoint_deserialize`: the length of the array, unless the id is negative. -/
def hpointHeader : Scanner (Option ℤ) := do
  literal (cstr "hpoint:")
  let id ← scanD
  if id ≥ 0 then
    let n ← scanD
    return some n
  else return none

/-- `hpoint_deserialize`, into `HPOINT_INITIALIZER`. -/
def hpointDeserialize (k : ℕ) (buf : Bytes) : HPoint × ℕ × Option Bytes :=
  match hpointHeader buf with
  | none => (hpointInitializer, k, none)
  | some (none, buf) => (hpointInitializer, k, some buf)
  | some (some n, buf) =>
    if n = 0 then (hpointInitializer, k, some buf)
    else if mem buf then
      ({ hpointInitializer with n := n, val := .block k }, k + 1,
        (times (hvalDeserialize fmt) n.toNat buf).map Prod.snd)
    else (hpointInitializer, k, none)

/-- The text in front of a performance: the id of its point, and how many numbers there are. -/
def perfHeader : Scanner ℤ := do
  let _ ← scanD
  literal (cstr "perf:")
  scanD

/-- The REPORT part of `hmesg_deserialize`, with `hperf_deserialize`. -/
def hperfDeserialize (perf : Ptr) (k : ℕ) (buf : Bytes) : Ptr × ℕ × Option Bytes :=
  match perfHeader buf with
  | none => (perf, k, none)
  | some (n, buf) =>
    if mem buf then (.block k, k + 1, (times (scanLa fmt) n.toNat buf).map Prod.snd)
    else (.null, k, none)

/-- The payload part of `hmesg_deserialize`. -/
def hmesgDeserializeData (type : HMesgType) (status : HMesgStatus) (data : HMesgData) (buf : Bytes) :
    HMesgData × Option Bytes :=
  if status = .fail then (data, (scanstrSerial buf).map Prod.snd)
  else
    match type with
    | .session =>
      if status = .req then
        let r := hsessionDeserialize fmt mem 0 buf
        ({ data with session := r.1 }, r.2.2)
      else (data, some buf)
    | .join =>
      let r := hsignatureDeserialize fmt mem 0 buf
      ({ data with join := r.1 }, r.2.2)
    | .getcfg | .setcfg => (data, (scanstrSerial buf).map Prod.snd)
    | .best | .fetch =>
      if status = .ok ∨ status = .busy then
        let r := hpointDeserialize fmt mem 0 buf
        ({ data with point := r.1 }, r.2.2)
      else (data, some buf)
    | .report =>
      if status = .req then
        let r := hperfDeserialize fmt mem data.perf 0 buf
        ({ data with perf := r.1 }, r.2.2)
      else (data, some buf)
    | .restart => (data, some buf)
    | .unknown => (data, none)

/-- The texts that stand for the type and the status, behind the destination and in front of the name
of the sender: the format is ` :%d:%3s:%3s:`. -/
def mesgHeader : Scanner (Bytes × Bytes) := do
  literal (cstr ":")
  let _ ← scanD
  exactly (cstr ":")
  let typeStr ← word 3
  exactly (cstr ":")
  let statusStr ← word 3
  exactly (cstr ":")
  let _ ← scanstrSerial
  return (typeStr, statusStr)

/-- The part of `hmesg_deserialize` that starts at the destination. -/
def hmesgDeserializeBody (mesg : HMesg) (buf : Bytes) : HMesg × Option Bytes :=
  match mesgHeader buf with
  | none => (mesg, none)
  | some ((typeStr, statusStr), buf) =>
    match hmesgTypeOfStr typeStr with
    | none => (mesg, none)
    | some type =>
      match hmesgStatusOfStr statusStr with
      -- the type is stored all the same
      | none => ({ mesg with type := type }, none)
      | some status =>
        let r := hmesgDeserializeData fmt mem type status mesg.data buf
        ({ type := type, status := status, data := r.1 }, r.2)

/-- `hmesg_deserialize`: the message, and what follows it if all was read. -/
def hmesgDeserialize (mesg : HMesg) (buf : Bytes) : HMesg × Option Bytes :=
  match hmesgDeserializeHeader buf with
  | none => (mesg, none)
  | some _ => hmesgDeserializeBody fmt mem mesg (buf.drop hmesgHdrlen)

/-! ## What the texts have to have -/

/-- A string of which there is a copy. -/
def copied : Scanner Unit := fun buf =>
  match scanstrSerial buf with
  | some (some _, rest) => if mem rest then some ((), rest) else none
  | _ => none

/-- A label and a name of which there is a copy. -/
def named (label : Bytes) : Scanner Unit := do
  literal label
  copied mem

/-- Memory for an array. -/
def room (len : ℤ) : Scanner Unit := fun buf =>
  if 0 < len ∧ mem buf = false then none else some ((), buf)

variable {mem} {k : ℕ} {buf : Bytes}

lemma room_eq {len : ℤ} : room mem len buf =
    (growArray mem k len buf).map fun _ => ((), buf) := by
  unfold room growArray
  by_cases hlen : 0 < len
  · rw [if_pos hlen]
    cases hmem : mem buf with
    | false =>
      rw [if_pos ⟨hlen, rfl⟩]
      rfl
    | true =>
      rw [if_neg fun h => Bool.false_ne_true h.2.symm]
      rfl
  · rw [if_neg hlen, if_neg fun h => hlen h.1]
    rfl

/-! ## Enumerations -/

end Raw

end ActiveHarmony
