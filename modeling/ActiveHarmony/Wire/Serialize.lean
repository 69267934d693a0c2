import ActiveHarmony.Data
import ActiveHarmony.Lib.TextScan
import Mathlib.Data.List.ReduceOption

/-!
# Serializers

The `*_serialize` functions of `hutil.c`, `hval.c`, `hpoint.c`, `hperf.c`, `hsignature.c`,
`hcfg.c`, `hsession.c` and `hmesg.c`. A serializer returns the bytes it prints, or `none` where
the source returns -1. The buffer is taken to be large enough: `hmesg_serialize` starts over
with a larger one as long as it is not.
-/

namespace ActiveHarmony

open TextScan

/-- `INT_MAX`. -/
def intMax : ℕ := 2 ^ 31 - 1

/-- The `%la` conversion of `printf` and `scanf`, assumed to be exact: a printed number followed
by a blank is read back as the same number. -/
structure LaFormat (V : Type) where
  print : V → Bytes
  scan : Scanner V
  print_head : ∀ v, ∃ c cs, print v = c :: cs ∧ isSpace c = false
  scan_print : ∀ v rest, scan (print v ++ blank :: rest) = some (v, blank :: rest)

/-- `snprintf_serial`: `vsnprintf` fails if the text is longer than an `int` can count. -/
def snprintfSerial (text : Bytes) : Option Bytes := if text.length ≤ intMax then some text else none

/-- `printstr_serial`. -/
def printstrSerial : Option Bytes → Option Bytes
  | none => snprintfSerial (cstr "0\"0\" ")
  | some str => snprintfSerial (decimal (str.length % 2 ^ 32) ++ (cstr "\"" ++ (str ++ cstr "\" ")))

variable {V : Type} (fmt : LaFormat V)

/-- `hval_serialize`. -/
def hvalSerialize : HVal V → Option Bytes
  | .int i => do
    let type ← snprintfSerial (cstr "hval:" ++ (cstr "INT" ++ [blank]))
    let value ← snprintfSerial (decimalInt i ++ [blank])
    return type ++ value
  | .real r => do
    let type ← snprintfSerial (cstr "hval:" ++ (cstr "REL" ++ [blank]))
    let value ← snprintfSerial (fmt.print r ++ [blank])
    return type ++ value
  | .str s => do
    let type ← snprintfSerial (cstr "hval:" ++ (cstr "STR" ++ [blank]))
    let value ← printstrSerial s
    return type ++ value
  | .unknown => none

/-- `hpoint_serialize`. -/
def hpointSerialize (pt : HPoint V) : Option Bytes := do
  let id ← snprintfSerial (cstr "hpoint:" ++ (decimalInt pt.id ++ [blank]))
  if pt.id ≥ 0 then
    let n ← snprintfSerial (decimalInt pt.val.length ++ [blank])
    let vals ← pt.val.mapM (hvalSerialize fmt)
    return id ++ (n ++ vals.flatten)
  else return id

/-- `hperf_serialize`. -/
def hperfSerialize (perf : HPerf V) : Option Bytes := do
  let n ← snprintfSerial (cstr "perf:" ++ ([blank] ++ (decimalInt perf.p.length ++ [blank])))
  let ps ← perf.p.mapM fun p => snprintfSerial (fmt.print p ++ [blank])
  return n ++ ps.flatten

/-- The type and the bounds part of `hrange_serialize`. -/
def hboundsSerialize : HBounds V → Option Bytes
  | .int min max step => do
    let type ← snprintfSerial (cstr "INT" ++ [blank])
    let bounds ← snprintfSerial (decimalInt min ++ [blank] ++ (decimalInt max ++ [blank] ++
      (decimalInt step ++ [blank])))
    return type ++ bounds
  | .real min max step => do
    let type ← snprintfSerial (cstr "REL" ++ [blank])
    let bounds ← snprintfSerial (fmt.print min ++ [blank] ++ (fmt.print max ++ [blank] ++
      (fmt.print step ++ [blank])))
    return type ++ bounds
  | .str set => do
    let type ← snprintfSerial (cstr "STR" ++ [blank])
    let setLen ← snprintfSerial (decimalInt set.length ++ [blank])
    let strs ← set.mapM fun str => printstrSerial (some str)
    return type ++ (setLen ++ strs.flatten)
  | .unknown => none

/-- `hrange_serialize`. -/
def hrangeSerialize (range : HRange V) : Option Bytes := do
  let head ← snprintfSerial (cstr "range:" ++ [blank])
  let name ← printstrSerial range.name
  let bounds ← hboundsSerialize fmt range.bounds
  return head ++ (name ++ bounds)

/-- `hsignature_serialize`. -/
def hsignatureSerialize (sig : HSignature V) : Option Bytes := do
  let head ← snprintfSerial (cstr "sig:" ++ [blank])
  let name ← printstrSerial sig.name
  let rangeLen ← snprintfSerial (decimalInt sig.range.length ++ [blank])
  let ranges ← sig.range.mapM (hrangeSerialize fmt)
  return head ++ (name ++ (rangeLen ++ ranges.flatten))

/-- One round of the loop of `hcfg_serialize`, for a cell that is not empty. -/
def keyvalSerialize (entry : KeyVal) : Option Bytes := do
  let key ← printstrSerial (some entry.key)
  let val ← printstrSerial (some entry.val)
  return key ++ val

/-- `hcfg_serialize`. -/
def hcfgSerialize (cfg : Hcfg) : Option Bytes := do
  let head ← snprintfSerial (cstr "hcfg:" ++ (decimal cfg.count ++ [blank] ++
    (decimal cfg.logsize ++ [blank])))
  let entries ← (cfg.hash.take (1 <<< cfg.logsize)).reduceOption.mapM keyvalSerialize
  return head ++ entries.flatten

/-- `hsession_serialize`. -/
def hsessionSerialize (sess : HSession V) : Option Bytes := do
  let head ← snprintfSerial (cstr "session:" ++ [blank])
  let sig ← hsignatureSerialize fmt sess.sig
  let cfg ← hcfgSerialize sess.cfg
  return head ++ (sig ++ cfg)

/-- The three letters of a message type. -/
def HMesgType.str : HMesgType → Bytes
  | .unknown => cstr "UNK"
  | .session => cstr "SES"
  | .join => cstr "JOI"
  | .getcfg => cstr "QRY"
  | .setcfg => cstr "INF"
  | .best => cstr "BST"
  | .fetch => cstr "FET"
  | .report => cstr "REP"
  | .restart => cstr "RES"

/-- The three letters of a message status. `HMESG_STATUS_UNKNOWN` has none. -/
def HMesgStatus.str : HMesgStatus → Option Bytes
  | .req => some (cstr "REQ")
  | .ok => some (cstr "ACK")
  | .fail => some (cstr "ERR")
  | .busy => some (cstr "BSY")
  | .unknown => none

/-- The payload part of `hmesg_serialize`. Where the source would read a member of the union
that was not written last, the result is `none`. -/
def hmesgSerializeData (mesg : HMesg V) : Option Bytes :=
  if mesg.status = .fail then
    match mesg.data with
    | .string s => printstrSerial s
    | _ => none
  else
    match mesg.type with
    | .session =>
      if mesg.status = .req then
        match mesg.data with
        | .session sess => hsessionSerialize fmt sess
        | _ => none
      else some []
    | .join =>
      match mesg.data with
      | .join sig => hsignatureSerialize fmt sig
      | _ => none
    | .getcfg | .setcfg =>
      match mesg.data with
      | .string s => printstrSerial s
      | _ => none
    | .best | .fetch =>
      if mesg.status = .ok ∨ mesg.status = .busy then
        match mesg.data with
        | .point pt => hpointSerialize fmt pt
        | _ => none
      else some []
    | .report =>
      if mesg.status = .req then
        match mesg.data with
        | .report candId perf => do
          let id ← snprintfSerial (decimalInt candId ++ [blank])
          let perf ← hperfSerialize fmt perf
          return id ++ perf
        | _ => none
      else some []
    | .restart => some []
    | .unknown => none

/-- What `hmesg_serialize` prints after the header. -/
def hmesgSerializeBody (mesg : HMesg V) : Option Bytes := do
  let statusStr ← mesg.status.str
  let head ← snprintfSerial (cstr ":" ++ (decimalInt mesg.dest ++ (cstr ":" ++ (mesg.type.str ++
    (cstr ":" ++ (statusStr ++ cstr ":"))))))
  let srcId ← printstrSerial mesg.srcId
  let data ← hmesgSerializeData fmt mesg
  return head ++ (srcId ++ data)

/-- `HMESG_HDRLEN`. -/
def hmesgHdrlen : ℕ := 10

/-- `HMESG_MAGIC` in network byte order. -/
def hmesgMagic : Bytes := [0x52, 0x61, 0x79, 0x7c]

/-- `HMESG_VERSION`. -/
def hmesgVersion : ℕ := 0x05

/-- `%04d` of a number that is not negative. -/
def printD4 (n : ℕ) : Bytes := List.replicate (4 - (decimal n).length) 48 ++ decimal n

/-- The header: `snprintf` into `HMESG_HDRLEN + 1` bytes keeps the first ten, and the magic
number replaces the first four. -/
def hmesgHeader (total : ℕ) : Bytes :=
  hmesgMagic ++ ((cstr "XXXX" ++ (printD4 total ++ cstr "05")).take hmesgHdrlen).drop 4

/-- `hmesg_serialize`: the bytes of the whole message; their number is the value returned. The
message is not accepted if that number does not fit an `int`. -/
def hmesgSerialize (mesg : HMesg V) : Option Bytes := do
  let body ← hmesgSerializeBody fmt mesg
  let total := hmesgHdrlen + body.length
  if total ≤ intMax then return hmesgHeader total ++ body else none

end ActiveHarmony
