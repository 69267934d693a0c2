import ActiveHarmony.Wire.Serialize

/-!
# Deserializers

The `*_deserialize` functions. A deserializer is a scanner: it starts at `buf + total` and
returns what follows the bytes it counts into `total`. Strings are taken out of the text; the
NUL bytes that `scanstr_serial` writes behind them lie in the part already counted.
-/

namespace ActiveHarmony

open TextScan

/-- A number as `strtol` returns it. -/
def clampLong (z : ℤ) : ℤ := max (-2 ^ 63) (min z (2 ^ 63 - 1))

/-- `%d`: the `long` read is cut to an `int`. -/
def scanD : Scanner ℤ := do
  let z ← integer
  return (clampLong z).bmod (2 ^ 32)

/-- `%ld`. -/
def scanLd : Scanner ℤ := do
  let z ← integer
  return clampLong z

/-- `%u`: the `unsigned long` read is cut to an `unsigned int`. -/
def scanU : Scanner ℕ := do
  let z ← integer
  return if 2 ^ 64 ≤ z.natAbs then 2 ^ 32 - 1 else (z % 2 ^ 32).toNat

/-- `scanstr_serial`. -/
def scanstrSerial : Scanner (Option Bytes) := fun buf =>
  match scanU buf with
  | none => none
  | some (_, []) => none
  | some (len, c :: buf) =>
    -- the quotation mark of the format `%u"`
    if c ≠ 34 then none
    else if len = 0 ∧ buf.head? = some 48 then some (none, buf.drop 2)
    else if len < buf.length ∧ buf[len]? = some 34 then
      some (some (buf.take len), buf.drop (len + 1))
    else none

/-- `scanstr_serial` into memory of its own: `stralloc` of `NULL` fails. -/
def scanstrAlloc : Scanner Bytes := do
  match ← scanstrSerial with
  | some str => return str
  | none => failure

variable {V : Type} (fmt : LaFormat V)

/-- `%la`. -/
def scanLa : Scanner V := fun buf => fmt.scan (skipSpace buf)

/-- `hval_deserialize`. -/
def hvalDeserialize : Scanner (HVal V) := do
  literal (cstr "hval:")
  let typeStr ← word 3
  if typeStr = cstr "INT" then
    let i ← scanLd
    return .int i
  else if typeStr = cstr "REL" then
    let r ← scanLa fmt
    return .real r
  else if typeStr = cstr "STR" then
    let s ← scanstrSerial
    return .str s
  else failure

/-- `hpoint_deserialize`, into a point that equals `HPOINT_INITIALIZER`. -/
def hpointDeserialize : Scanner (HPoint V) := do
  literal (cstr "hpoint:")
  let id ← scanD
  if id ≥ 0 then
    let n ← scanD
    let val ← times (hvalDeserialize fmt) n.toNat
    return { id := id, val := val }
  else return { hpointInitializer V with id := id }

/-- `hperf_deserialize`. -/
def hperfDeserialize : Scanner (HPerf V) := do
  literal (cstr "perf:")
  let n ← scanD
  let p ← times (scanLa fmt) n.toNat
  return { p := p }

/-- The type and the bounds part of `hrange_deserialize`. -/
def hboundsDeserialize : Scanner (HBounds V) := do
  let typeStr ← word 3
  if typeStr = cstr "INT" then
    let min ← scanLd
    let max ← scanLd
    let step ← scanLd
    return .int min max step
  else if typeStr = cstr "REL" then
    let min ← scanLa fmt
    let max ← scanLa fmt
    let step ← scanLa fmt
    return .real min max step
  else if typeStr = cstr "STR" then
    let setLen ← scanD
    let set ← times scanstrAlloc setLen.toNat
    return .str set
  else failure

/-- `hrange_deserialize`. -/
def hrangeDeserialize : Scanner (HRange V) := do
  literal (cstr "range:")
  let name ← scanstrAlloc
  let bounds ← hboundsDeserialize fmt
  return { name := some name, bounds := bounds }

/-- `hsignature_deserialize`. -/
def hsignatureDeserialize : Scanner (HSignature V) := do
  literal (cstr "sig:")
  let name ← scanstrAlloc
  let rangeLen ← scanD
  let range ← times (hrangeDeserialize fmt) rangeLen.toNat
  return { name := some name, range := range }

/-- The loop of `hcfg_deserialize`, with `kcount` pairs left to read. -/
def hcfgDeserializeLoop : ℕ → Hcfg → Scanner Hcfg
  | 0, cfg => return cfg
  | kcount + 1, cfg => do
    let key ← scanstrSerial
    let val ← scanstrSerial
    match key with
    | none => failure
    | some key =>
      match hcfgSet cfg key val with
      | none => failure
      | some (ret, cfg) => if ret < 0 then failure else hcfgDeserializeLoop kcount cfg

/-- `hcfg_deserialize`. -/
def hcfgDeserialize (cfg : Hcfg) : Scanner Hcfg := do
  literal (cstr "hcfg:")
  let kcount ← scanU
  let logsize ← scanU
  match hashResize cfg logsize with
  | none => failure
  | some cfg => hcfgDeserializeLoop kcount cfg

/-- `hsession_deserialize`, after `hsession_init`. -/
def hsessionDeserialize : Scanner (HSession V) := do
  literal (cstr "session:")
  let sig ← hsignatureDeserialize fmt
  let cfg ← hcfgDeserialize hcfgAlloc
  return { sig := sig, cfg := cfg }

/-- The type with the given three letters. -/
def hmesgTypeOfStr (typeStr : Bytes) : Option HMesgType :=
  if typeStr = cstr "UNK" then some .unknown
  else if typeStr = cstr "SES" then some .session
  else if typeStr = cstr "JOI" then some .join
  else if typeStr = cstr "QRY" then some .getcfg
  else if typeStr = cstr "INF" then some .setcfg
  else if typeStr = cstr "BST" then some .best
  else if typeStr = cstr "FET" then some .fetch
  else if typeStr = cstr "REP" then some .report
  else if typeStr = cstr "RES" then some .restart
  else none

/-- The status with the given three letters. -/
def hmesgStatusOfStr (statusStr : Bytes) : Option HMesgStatus :=
  if statusStr = cstr "REQ" then some .req
  else if statusStr = cstr "ACK" then some .ok
  else if statusStr = cstr "ERR" then some .fail
  else if statusStr = cstr "BSY" then some .busy
  else none

/-- The payload part of `hmesg_deserialize`. -/
def hmesgDeserializeData (type : HMesgType) (status : HMesgStatus) : Scanner (HMesgData V) :=
  if status = .fail then do
    let s ← scanstrSerial
    return .string s
  else
    match type with
    | .session =>
      if status = .req then do
        let sess ← hsessionDeserialize fmt
        return .session sess
      else return .none
    | .join => do
      let sig ← hsignatureDeserialize fmt
      return .join sig
    | .getcfg | .setcfg => do
      let s ← scanstrSerial
      return .string s
    | .best | .fetch =>
      if status = .ok ∨ status = .busy then do
        let pt ← hpointDeserialize fmt
        return .point pt
      else return .none
    | .report =>
      if status = .req then do
        let candId ← scanD
        let perf ← hperfDeserialize fmt
        return .report candId perf
      else return .none
    | .restart => return .none
    | .unknown => failure

/-- A literal text without white space before it, as it stands inside a format. -/
def exactly (l : Bytes) : Scanner Unit := fun buf =>
  if l.isPrefixOf buf then some ((), buf.drop l.length) else none

/-- What `hmesg_deserialize` reads after the header: the format is ` :%d:%3s:%3s:`. -/
def hmesgDeserializeBody : Scanner (HMesg V) := do
  literal (cstr ":")
  let dest ← scanD
  exactly (cstr ":")
  let typeStr ← word 3
  exactly (cstr ":")
  let statusStr ← word 3
  exactly (cstr ":")
  let srcId ← scanstrSerial
  match hmesgTypeOfStr typeStr, hmesgStatusOfStr statusStr with
  | some type, some status =>
    let data ← hmesgDeserializeData fmt type status
    return { dest := dest, type := type, status := status, srcId := srcId, data := data }
  | _, _ => failure

end ActiveHarmony
