import ActiveHarmony.Wire.RoundTrip
import Mathlib.Algebra.BigOperators.Group.List.Basic

/-!
# Message framing

The header has a decimal field of four characters for the length of the message and a
hexadecimal one of two characters for the version. `mesg_recv` splits a stream by the length it
reads there. `HMesg.textLength` counts the bytes of a message body from the message itself, and
`split_iff_textLength_le` says that headers are read back, and streams are split, exactly if
every message has less than ten thousand bytes.
-/

namespace ActiveHarmony

open TextScan

/-! ## Reading the header -/

/-- `%4d`: white space does not count for the width. -/
def scanD4 : Scanner ℤ := fun buf =>
  let buf := skipSpace buf
  (scanD (buf.take 4)).map fun r => (r.1, r.2 ++ buf.drop 4)

/-- The value of a hexadecimal digit. -/
def hexDigit (c : UInt8) : Option ℕ :=
  if 48 ≤ c ∧ c ≤ 57 then some (c.toNat - 48)
  else if 97 ≤ c ∧ c ≤ 102 then some (c.toNat - 87)
  else if 65 ≤ c ∧ c ≤ 70 then some (c.toNat - 55)
  else none

/-- The value of the hexadecimal digits at the front, after digits of value `acc`. -/
def hexFrom (acc : ℕ) : Bytes → ℕ × Bytes
  | [] => (acc, [])
  | c :: cs =>
    match hexDigit c with
    | some d => hexFrom (acc * 16 + d) cs
    | none => (acc, c :: cs)

/-- `%2x`. A prefix `0x` leaves no room for a digit. -/
def scanX2 : Scanner ℕ := fun buf =>
  let buf := skipSpace buf
  let signed := sign (buf.take 2)
  match signed.2 with
  | [] => none
  | c :: cs =>
    if (hexDigit c).isNone then none
    else
      let r := hexFrom 0 (c :: cs)
      some (if signed.1 then (2 ^ 32 - r.1) % 2 ^ 32 else r.1, r.2 ++ buf.drop 2)

/-- The format `%4d%2x`. -/
def scanHeader : Scanner (ℤ × ℕ) := do
  let msglen ← scanD4
  let msgver ← scanX2
  return (msglen, msgver)

/-- The part of `mesg_recv` that looks at the header: the length of the next message. -/
def mesgRecvHeader (stream : Bytes) : Option ℤ :=
  let hdr := stream.take hmesgHdrlen
  if hdr.take 4 ≠ hmesgMagic then none
  else
    match scanHeader (hdr.drop 4) with
    | none => none
    | some ((msglen, msgver), _) => if msgver ≠ hmesgVersion then none else some msglen

/-- The part of `mesg_recv` that takes one message off the stream. -/
def mesgRecvFrame : Scanner Bytes := fun stream =>
  match mesgRecvHeader stream with
  | none => none
  | some msglen =>
    if stream.length < msglen.toNat then none
    else some (stream.take msglen.toNat, stream.drop msglen.toNat)

/-- The part of `hmesg_deserialize` that verifies the header: the version, if it is accepted. -/
def hmesgDeserializeHeader (buf : Bytes) : Option ℕ :=
  if buf.take 4 ≠ hmesgMagic then none
  else
    match scanHeader (buf.drop 4) with
    | none => none
    | some ((_, msgver), _) => if msgver ≠ hmesgVersion then none else some msgver

/-! ## The length of a message -/

variable {V : Type} (fmt : LaFormat V)

/-- The bytes of a string. -/
def strLength : Option Bytes → ℕ
  | none => 5
  | some str => (decimal str.length).length + str.length + 3

/-- The bytes of a number and its blank. -/
def intLength (z : ℤ) : ℕ := (decimalInt z).length + 1

def HVal.textLength : HVal V → ℕ
  | .int i => 9 + intLength i
  | .real r => 9 + ((fmt.print r).length + 1)
  | .str s => 9 + strLength s
  | .unknown => 0

def HPoint.textLength (pt : HPoint V) : ℕ :=
  7 + intLength pt.id +
    if pt.id ≥ 0 then intLength pt.val.length + (pt.val.map (HVal.textLength fmt)).sum else 0

def HPerf.textLength (perf : HPerf V) : ℕ :=
  6 + intLength perf.p.length + (perf.p.map fun p => (fmt.print p).length + 1).sum

def HBounds.textLength : HBounds V → ℕ
  | .int min max step => 4 + (intLength min + intLength max + intLength step)
  | .real min max step =>
    4 + ((fmt.print min).length + (fmt.print max).length + (fmt.print step).length + 3)
  | .str set => 4 + intLength set.length + (set.map fun str => strLength (some str)).sum
  | .unknown => 0

def HRange.textLength (range : HRange V) : ℕ :=
  7 + strLength range.name + range.bounds.textLength fmt

def HSignature.textLength (sig : HSignature V) : ℕ :=
  5 + strLength sig.name + intLength sig.range.length + (sig.range.map (HRange.textLength fmt)).sum

def Hcfg.textLength (cfg : Hcfg) : ℕ :=
  5 + ((decimal cfg.count).length + 1) + ((decimal cfg.logsize).length + 1) +
    ((cfg.hash.take (2 ^ cfg.logsize)).reduceOption.map
      fun entry => strLength (some entry.key) + strLength (some entry.val)).sum

/-- The bytes of the payload a message carries. -/
def HMesgData.textLength : HMesgData V → ℕ
  | .none => 0
  | .session sess => 9 + sess.sig.textLength fmt + sess.cfg.textLength
  | .join sig => sig.textLength fmt
  | .point pt => pt.textLength fmt
  | .report candId perf => intLength candId + perf.textLength fmt
  | .string s => strLength s

/-- The bytes of the body of a message. -/
def HMesg.textLength (mesg : HMesg V) : ℕ :=
  10 + (decimalInt mesg.dest).length + strLength mesg.srcId +
    if carriesData mesg.type mesg.status then mesg.data.textLength fmt else 0

/-! ## Serializers print as many bytes as counted -/

variable {fmt}

lemma length_printstrSerial {s : Option Bytes} {e : Bytes} (h : printstrSerial s = some e) :
    e.length = strLength s := by
  cases s with
  | none =>
    rcases snprintfSerial_eq_some h with ⟨rfl, -⟩
    rfl
  | some str =>
    rcases snprintfSerial_eq_some h with ⟨rfl, hle⟩
    have hstr : str.length % 2 ^ 32 = str.length := by
      simp only [List.length_append] at hle
      unfold intMax at hle
      exact Nat.mod_eq_of_lt (by omega)
    rw [hstr]
    simp only [List.length_append, strLength]
    show _ + (1 + (_ + 2)) = _
    omega

/-- The bytes of repeated parts. -/
lemma length_flatten_mapM {α : Type} {enc : α → Option Bytes} {n : α → ℕ} {xs : List α}
    {es : List Bytes} (hes : xs.mapM enc = some es)
    (h : ∀ x ∈ xs, ∀ e, enc x = some e → e.length = n x) :
    es.flatten.length = (xs.map n).sum := by
  induction xs generalizing es with
  | nil =>
    rw [List.mapM_nil] at hes
    cases hes
    rfl
  | cons x xs ih =>
    rw [List.mapM_cons] at hes
    rcases bind_eq_some hes with ⟨e, he, hes⟩
    rcases bind_eq_some hes with ⟨es', hes', heq⟩
    cases heq
    rw [List.flatten_cons, List.length_append, h x List.mem_cons_self e he,
      ih hes' fun y hy => h y (List.mem_cons_of_mem x hy)]
    rfl

lemma length_hvalSerialize {val : HVal V} {e : Bytes} (h : hvalSerialize fmt val = some e) :
    e.length = val.textLength fmt := by
  have hhead : ∀ t : Bytes, t.length = 3 → (cstr "hval:" ++ (t ++ [blank])).length = 9 := by
    intro t ht
    rw [List.length_append, List.length_append, ht]
    rfl
  cases val with
  | unknown => cases h
  | int i =>
    rcases bind_eq_some h with ⟨type, htype, h⟩
    rcases bind_eq_some h with ⟨value, hvalue, h⟩
    rcases snprintfSerial_eq_some htype with ⟨rfl, -⟩
    rcases snprintfSerial_eq_some hvalue with ⟨rfl, -⟩
    cases h
    rw [List.length_append, hhead _ rfl, List.length_append]
    rfl
  | real r =>
    rcases bind_eq_some h with ⟨type, htype, h⟩
    rcases bind_eq_some h with ⟨value, hvalue, h⟩
    rcases snprintfSerial_eq_some htype with ⟨rfl, -⟩
    rcases snprintfSerial_eq_some hvalue with ⟨rfl, -⟩
    cases h
    rw [List.length_append, hhead _ rfl, List.length_append]
    rfl
  | str s =>
    rcases bind_eq_some h with ⟨type, htype, h⟩
    rcases bind_eq_some h with ⟨value, hvalue, h⟩
    rcases snprintfSerial_eq_some htype with ⟨rfl, -⟩
    cases h
    rw [List.length_append, hhead _ rfl, length_printstrSerial hvalue]
    rfl

lemma length_hpointSerialize {pt : HPoint V} {e : Bytes} (h : hpointSerialize fmt pt = some e) :
    e.length = pt.textLength fmt := by
  rcases bind_eq_some h with ⟨id, hid, h⟩
  rcases snprintfSerial_eq_some hid with ⟨rfl, -⟩
  unfold HPoint.textLength intLength
  by_cases hpos : pt.id ≥ 0
  · rw [if_pos hpos] at h ⊢
    rcases bind_eq_some h with ⟨n, hn, h⟩
    rcases bind_eq_some h with ⟨vals, hvals, h⟩
    rcases snprintfSerial_eq_some hn with ⟨rfl, -⟩
    cases h
    have hsum := length_flatten_mapM hvals fun v _ e he => length_hvalSerialize he
    simp only [List.length_append, hsum]
    rfl
  · rw [if_neg hpos] at h ⊢
    cases h
    simp only [List.length_append]
    rfl

lemma length_hperfSerialize {perf : HPerf V} {e : Bytes} (h : hperfSerialize fmt perf = some e) :
    e.length = perf.textLength fmt := by
  rcases bind_eq_some h with ⟨n, hn, h⟩
  rcases bind_eq_some h with ⟨ps, hps, h⟩
  rcases snprintfSerial_eq_some hn with ⟨rfl, -⟩
  cases h
  have hsum := length_flatten_mapM (n := fun p => (fmt.print p).length + 1) hps
    fun p _ e he => by
      rcases snprintfSerial_eq_some he with ⟨rfl, -⟩
      rw [List.length_append]
      rfl
  unfold HPerf.textLength intLength
  simp only [List.length_append, hsum]
  show 5 + (1 + _) + _ = _
  simp only [List.length_singleton]
  omega

lemma length_hboundsSerialize {bounds : HBounds V} {e : Bytes}
    (h : hboundsSerialize fmt bounds = some e) : e.length = bounds.textLength fmt := by
  have hhead : ∀ t : Bytes, t.length = 3 → (t ++ [blank]).length = 4 := by
    intro t ht
    rw [List.length_append, ht]
    rfl
  cases bounds with
  | unknown => cases h
  | int min max step =>
    rcases bind_eq_some h with ⟨type, htype, h⟩
    rcases bind_eq_some h with ⟨value, hvalue, h⟩
    rcases snprintfSerial_eq_some htype with ⟨rfl, -⟩
    rcases snprintfSerial_eq_some hvalue with ⟨rfl, -⟩
    cases h
    rw [List.length_append, hhead _ rfl]
    simp only [List.length_append, List.length_singleton, HBounds.textLength, intLength]
    omega
  | real min max step =>
    rcases bind_eq_some h with ⟨type, htype, h⟩
    rcases bind_eq_some h with ⟨value, hvalue, h⟩
    rcases snprintfSerial_eq_some htype with ⟨rfl, -⟩
    rcases snprintfSerial_eq_some hvalue with ⟨rfl, -⟩
    cases h
    rw [List.length_append, hhead _ rfl]
    simp only [List.length_append, List.length_singleton, HBounds.textLength]
    omega
  | str set =>
    rcases bind_eq_some h with ⟨type, htype, h⟩
    rcases bind_eq_some h with ⟨setLen, hsetLen, h⟩
    rcases bind_eq_some h with ⟨strs, hstrs, h⟩
    rcases snprintfSerial_eq_some htype with ⟨rfl, -⟩
    rcases snprintfSerial_eq_some hsetLen with ⟨rfl, -⟩
    cases h
    have hsum := length_flatten_mapM (n := fun str => strLength (some str)) hstrs
      fun s _ e he => length_printstrSerial he
    rw [List.length_append, hhead _ rfl]
    simp only [List.length_append, List.length_singleton, HBounds.textLength, intLength, hsum]
    omega

lemma length_hrangeSerialize {range : HRange V} {e : Bytes}
    (h : hrangeSerialize fmt range = some e) : e.length = range.textLength fmt := by
  rcases bind_eq_some h with ⟨head, hhead, h⟩
  rcases bind_eq_some h with ⟨name, hname, h⟩
  rcases bind_eq_some h with ⟨bs, hbounds, h⟩
  rcases snprintfSerial_eq_some hhead with ⟨rfl, -⟩
  cases h
  simp only [List.length_append, length_printstrSerial hname, length_hboundsSerialize hbounds,
    HRange.textLength]
  show 7 + _ = _
  omega

lemma length_hsignatureSerialize {sig : HSignature V} {e : Bytes}
    (h : hsignatureSerialize fmt sig = some e) : e.length = sig.textLength fmt := by
  rcases bind_eq_some h with ⟨head, hhead, h⟩
  rcases bind_eq_some h with ⟨name, hname, h⟩
  rcases bind_eq_some h with ⟨rangeLen, hlen, h⟩
  rcases bind_eq_some h with ⟨rs, hranges, h⟩
  rcases snprintfSerial_eq_some hhead with ⟨rfl, -⟩
  rcases snprintfSerial_eq_some hlen with ⟨rfl, -⟩
  cases h
  have hsum := length_flatten_mapM (n := HRange.textLength fmt) hranges
    fun r _ e he => length_hrangeSerialize he
  simp only [List.length_append, length_printstrSerial hname, hsum, HSignature.textLength,
    intLength, List.length_singleton]
  show 4 + 1 + _ = _
  omega

lemma length_hcfgSerialize {cfg : Hcfg} {e : Bytes} (h : hcfgSerialize cfg = some e) :
    e.length = cfg.textLength := by
  rcases bind_eq_some h with ⟨head, hhead, h⟩
  rcases bind_eq_some h with ⟨strs, hstrs, h⟩
  rcases snprintfSerial_eq_some hhead with ⟨rfl, -⟩
  cases h
  rw [Nat.one_shiftLeft] at hstrs
  have hsum := length_flatten_mapM
    (n := fun entry : KeyVal => strLength (some entry.key) + strLength (some entry.val)) hstrs
    fun entry _ e he => by
      rcases bind_eq_some he with ⟨k, hkey, he⟩
      rcases bind_eq_some he with ⟨v, hval, heq⟩
      cases heq
      rw [List.length_append, length_printstrSerial hkey, length_printstrSerial hval]
  simp only [List.length_append, hsum, Hcfg.textLength, List.length_singleton]
  show 5 + _ + _ = _
  omega

lemma length_hmesgSerializeData {mesg : HMesg V} {e : Bytes}
    (h : hmesgSerializeData fmt mesg = some e) :
    e.length = if carriesData mesg.type mesg.status then mesg.data.textLength fmt else 0 := by
  rcases mesg with ⟨dest, type, status, srcId, data⟩
  unfold hmesgSerializeData at h
  unfold carriesData
  have hnone : some [] = some e → e.length = 0 := by rintro ⟨⟩; rfl
  by_cases hfail : status = .fail
  · simp only [hfail, if_true, decide_true, Bool.true_or] at h ⊢
    cases data with
    | string s => exact length_printstrSerial h
    | _ => cases h
  simp only [hfail, if_false, decide_false, Bool.false_or] at h ⊢
  cases type with
  | unknown => cases h
  | restart => exact hnone h
  | session =>
    by_cases hreq : status = .req
    · simp only [hreq, if_true, decide_true] at h ⊢
      cases data with
      | session sess =>
        rcases bind_eq_some h with ⟨head, hhead, h⟩
        rcases bind_eq_some h with ⟨s, hsig, h⟩
        rcases bind_eq_some h with ⟨c, hcfg, h⟩
        rcases snprintfSerial_eq_some hhead with ⟨rfl, -⟩
        cases h
        simp only [List.length_append, length_hsignatureSerialize hsig,
          length_hcfgSerialize hcfg, HMesgData.textLength]
        show 9 + _ = _
        omega
      | _ => cases h
    · simp only [hreq, if_false, decide_false, Bool.false_eq_true] at h ⊢
      exact hnone h
  | join =>
    cases data with
    | join sig => exact length_hsignatureSerialize h
    | _ => cases h
  | getcfg =>
    cases data with
    | string s => exact length_printstrSerial h
    | _ => cases h
  | setcfg =>
    cases data with
    | string s => exact length_printstrSerial h
    | _ => cases h
  | best =>
    by_cases hok : status = .ok ∨ status = .busy
    · simp only [hok, if_true] at h
      rw [if_pos (by simpa using hok)]
      cases data with
      | point pt => exact length_hpointSerialize h
      | _ => cases h
    · simp only [hok, if_false] at h
      rw [if_neg (by simpa using hok)]
      exact hnone h
  | fetch =>
    by_cases hok : status = .ok ∨ status = .busy
    · simp only [hok, if_true] at h
      rw [if_pos (by simpa using hok)]
      cases data with
      | point pt => exact length_hpointSerialize h
      | _ => cases h
    · simp only [hok, if_false] at h
      rw [if_neg (by simpa using hok)]
      exact hnone h
  | report =>
    by_cases hreq : status = .req
    · simp only [hreq, if_true, decide_true] at h ⊢
      cases data with
      | report candId perf =>
        rcases bind_eq_some h with ⟨id, hid, h⟩
        rcases bind_eq_some h with ⟨ps, hperf, h⟩
        rcases snprintfSerial_eq_some hid with ⟨rfl, -⟩
        cases h
        rw [List.length_append, List.length_append, length_hperfSerialize hperf]
        rfl
      | _ => cases h
    · simp only [hreq, if_false, decide_false, Bool.false_eq_true] at h ⊢
      exact hnone h

/-- The body of an accepted message has the length counted from the message. -/
theorem length_hmesgSerializeBody {mesg : HMesg V} {body : Bytes}
    (h : hmesgSerializeBody fmt mesg = some body) : body.length = mesg.textLength fmt := by
  rcases bind_eq_some h with ⟨statusStr, hstatus, h⟩
  rcases bind_eq_some h with ⟨head, hhead, h⟩
  rcases bind_eq_some h with ⟨src, hsrc, h⟩
  rcases bind_eq_some h with ⟨data, hdata, heq⟩
  rcases snprintfSerial_eq_some hhead with ⟨rfl, -⟩
  cases heq
  simp only [List.length_append, length_printstrSerial hsrc, length_hmesgSerializeData hdata,
    (letters_str mesg.type).1, (letters_statusStr hstatus).1, HMesg.textLength]
  show 1 + (_ + (1 + (3 + (1 + (3 + 1))))) + _ = _
  omega

/-! ## Headers of short and of long messages -/

/-- The first field of the header holds lengths of at most four digits. -/
lemma length_printD4 {total : ℕ} (htotal : total < 10000) : (printD4 total).length = 4 := by
  have hle : (decimal total).length ≤ 4 := (length_decimal_le_iff (by omega)).mpr htotal
  unfold printD4
  rw [List.length_append, List.length_replicate]
  omega

/-- The header of a message of less than ten thousand bytes. -/
lemma hmesgHeader_of_lt {total : ℕ} (htotal : total < 10000) :
    hmesgHeader total = hmesgMagic ++ (printD4 total ++ cstr "05") := by
  have hlen := length_printD4 htotal
  have hfit : (cstr "XXXX" ++ (printD4 total ++ cstr "05")).length ≤ hmesgHdrlen := by
    rw [List.length_append, List.length_append, hlen]
    decide
  unfold hmesgHeader
  rw [List.take_of_length_le hfit]
  rfl

/-- The two fields of such a header are read back. -/
lemma scanHeader_of_lt {total : ℕ} (htotal : total < 10000) (rest : Bytes) :
    scanHeader (printD4 total ++ (cstr "05" ++ rest)) = some (((total : ℤ), hmesgVersion), rest) := by
  have hlen := length_printD4 htotal
  have hint : IsInt total := isInt_natCast (by unfold intMax; omega)
  have hread : integer (printD4 total) = some ((total : ℤ), []) := by
    have hzeros := @integer_zeros_decimal [] (4 - (decimal total).length) total
      (by simp [NoDigit])
    rwa [List.append_nil] at hzeros
  have hd : scanD (printD4 total) = some ((total : ℤ), []) := by
    unfold scanD
    rw [bind_eq_of_eq_some hread, clampLong_of_isLong hint.isLong]
    have hcut : (total : ℤ).bmod (2 ^ 32) = total := by
      unfold IsInt at hint
      rw [Int.bmod_def]
      omega
    rw [hcut]
    rfl
  -- the field starts with a digit, so no white space is skipped
  have hskip : skipSpace (printD4 total ++ (cstr "05" ++ rest)) = printD4 total ++ (cstr "05" ++ rest) := by
    rcases List.exists_cons_of_ne_nil (show printD4 total ≠ [] by
      intro hnil; rw [hnil] at hlen; cases hlen) with ⟨c, cs, hcs⟩
    have hc : isDigit c = true := by
      have hmem : c ∈ printD4 total := by rw [hcs]; exact List.mem_cons_self
      unfold printD4 at hmem
      rcases List.mem_append.mp hmem with hzero | hdec
      · rw [List.eq_of_mem_replicate hzero]
        decide
      · exact decimal_isDigit total c hdec
    rw [hcs, List.cons_append]
    exact @skipSpace_append [] _ spaces_nil _ (isDigit_not_isSpace hc)
  have hd4 : scanD4 (printD4 total ++ (cstr "05" ++ rest))
      = some ((total : ℤ), cstr "05" ++ rest) := by
    unfold scanD4
    simp only [hskip, List.take_left' hlen, List.drop_left' hlen, hd]
    rfl
  unfold scanHeader
  rw [bind_eq_of_eq_some hd4]
  rfl

/-- `%4d` never reads a number above 9999. -/
lemma scanD4_le {buf rest : Bytes} {z : ℤ} (h : scanD4 buf = some (z, rest)) : z ≤ 9999 := by
  unfold scanD4 at h
  rcases Option.map_eq_some_iff.mp h with ⟨⟨n, r⟩, hscan, heq⟩
  rw [← (Prod.mk.inj heq).1]
  rcases Option.bind_eq_some_iff.mp hscan with ⟨⟨m, r'⟩, hint, hcut⟩
  have hlt := integer_natAbs_lt hint
  have hlen : ((skipSpace buf).take 4).length ≤ 4 := List.length_take_le 4 _
  have hpow : 10 ^ ((skipSpace buf).take 4).length ≤ 10 ^ 4 := Nat.pow_le_pow_right (by omega) hlen
  have hm : m.natAbs < 10000 := lt_of_lt_of_le hlt hpow
  have hn : (clampLong m).bmod (2 ^ 32) = n := (Prod.mk.inj (Option.some.inj hcut)).1
  have hisInt : IsInt m := by unfold IsInt; omega
  rw [clampLong_of_isLong hisInt.isLong, Int.bmod_def] at hn
  show n ≤ 9999
  omega

/-- Whatever `mesg_recv` reads, it is no length above 9999. -/
lemma mesgRecvHeader_le {stream : Bytes} {z : ℤ} (h : mesgRecvHeader stream = some z) :
    z ≤ 9999 := by
  unfold mesgRecvHeader at h
  by_cases hmagic : (stream.take hmesgHdrlen).take 4 ≠ hmesgMagic
  · simp only [if_pos hmagic] at h
    cases h
  · simp only [if_neg hmagic] at h
    cases hscan : scanHeader ((stream.take hmesgHdrlen).drop 4) with
    | none => rw [hscan] at h; cases h
    | some r =>
      rcases r with ⟨⟨msglen, msgver⟩, rest⟩
      rw [hscan] at h
      by_cases hver : msgver ≠ hmesgVersion
      · simp only [if_pos hver] at h
        cases h
      · simp only [if_neg hver] at h
        cases h
        rcases Option.bind_eq_some_iff.mp hscan with ⟨⟨z', r'⟩, hd4, htail⟩
        rcases Option.bind_eq_some_iff.mp htail with ⟨⟨v', r''⟩, -, heq⟩
        rw [← (Prod.mk.inj (Prod.mk.inj (Option.some.inj heq)).1).1]
        exact scanD4_le hd4

/-- Both readers accept the header of a short message, with its length and version. -/
lemma headers_of_lt {total : ℕ} (htotal : total < 10000) (rest : Bytes) :
    mesgRecvHeader (hmesgHeader total ++ rest) = some (total : ℤ) ∧
      hmesgDeserializeHeader (hmesgHeader total ++ rest) = some hmesgVersion := by
  have hlen := length_hmesgHeader total
  have hmagic : (hmesgHeader total).take 4 = hmesgMagic := rfl
  have hfields : (hmesgHeader total).drop 4 = printD4 total ++ cstr "05" := by
    rw [hmesgHeader_of_lt htotal]
    rfl
  constructor
  · unfold mesgRecvHeader
    have hscan := scanHeader_of_lt htotal []
    rw [List.append_nil, ← hfields] at hscan
    simp only [List.take_left' hlen, hmagic, hscan]
    rfl
  · unfold hmesgDeserializeHeader
    have hscan := scanHeader_of_lt htotal rest
    rw [← List.append_assoc, ← hfields] at hscan
    have hle : 4 ≤ (hmesgHeader total).length := by rw [hlen]; decide
    simp only [List.take_append_of_le_length hle, List.drop_append_of_le_length hle, hmagic, hscan]
    rfl

/-! ## Splitting a stream -/

/-- An accepted message is its header followed by its body. -/
lemma hmesgSerialize_eq_some {mesg : HMesg V} {frame : Bytes}
    (h : hmesgSerialize fmt mesg = some frame) :
    frame.length = hmesgHdrlen + mesg.textLength fmt ∧
      ∃ body, frame = hmesgHeader frame.length ++ body := by
  rcases bind_eq_some h with ⟨body, hbody, h⟩
  by_cases htotal : hmesgHdrlen + body.length ≤ intMax
  · simp only [htotal, if_true] at h
    cases h
    have hlen : (hmesgHeader (hmesgHdrlen + body.length) ++ body).length
        = hmesgHdrlen + body.length := by
      rw [List.length_append, length_hmesgHeader]
    rw [hlen, length_hmesgSerializeBody hbody]
    exact ⟨rfl, body, rfl⟩
  · simp only [htotal, if_false] at h
    cases h

/-- A message whose header is read as its length is taken off the stream. -/
lemma mesgRecvFrame_append {frame rest : Bytes}
    (h : mesgRecvHeader (frame ++ rest) = some (frame.length : ℤ)) :
    mesgRecvFrame (frame ++ rest) = some (frame, rest) := by
  unfold mesgRecvFrame
  simp only [h, Int.toNat_natCast]
  rw [if_neg (by rw [List.length_append]; omega), List.take_left, List.drop_left]

lemma times_mesgRecvFrame {frames : List Bytes}
    (h : ∀ frame ∈ frames, ∀ rest, mesgRecvHeader (frame ++ rest) = some (frame.length : ℤ)) :
    times mesgRecvFrame frames.length frames.flatten = some (frames, []) := by
  induction frames with
  | nil => rfl
  | cons frame frames ih =>
    have htail := ih fun f hf => h f (List.mem_cons_of_mem frame hf)
    have hhead := mesgRecvFrame_append (h frame List.mem_cons_self frames.flatten)
    rw [List.flatten_cons, List.length_cons, times, bind_eq_of_eq_some hhead,
      bind_eq_of_eq_some htail]
    rfl

/-- Serialized messages correspond to the messages one by one. -/
lemma forall₂_of_mapM {α β : Type} {enc : α → Option β} {xs : List α} {es : List β}
    (hes : xs.mapM enc = some es) : List.Forall₂ (fun x e => enc x = some e) xs es := by
  induction xs generalizing es with
  | nil =>
    rw [List.mapM_nil] at hes
    cases hes
    exact .nil
  | cons x xs ih =>
    rw [List.mapM_cons] at hes
    rcases bind_eq_some hes with ⟨e, he, hes⟩
    rcases bind_eq_some hes with ⟨es', hes', heq⟩
    cases heq
    exact .cons he (ih hes')

/-- The headers of serialized messages are read back and their concatenation is split at the
message boundaries, exactly if every message has less than ten thousand bytes. -/
theorem split_iff_textLength_lt (mesgs : List (HMesg V)) (frames : List Bytes)
    (h : mesgs.mapM (hmesgSerialize fmt) = some frames) :
    ((∀ frame ∈ frames, ∀ rest, mesgRecvHeader (frame ++ rest) = some (frame.length : ℤ) ∧
        hmesgDeserializeHeader (frame ++ rest) = some hmesgVersion) ∧
      times mesgRecvFrame frames.length frames.flatten = some (frames, [])) ↔
    ∀ mesg ∈ mesgs, hmesgHdrlen + mesg.textLength fmt < 10000 := by
  have hall := forall₂_of_mapM h
  constructor
  · rintro ⟨hheaders, -⟩ mesg hmesg
    rcases List.mem_iff_getElem.mp hmesg with ⟨i, hi, rfl⟩
    have hi' : i < frames.length := hall.length_eq ▸ hi
    have hser := List.Forall₂.get hall hi hi'
    have hread := (hheaders frames[i] (List.getElem_mem hi') []).1
    have hlen := (hmesgSerialize_eq_some hser).1
    have hle := mesgRecvHeader_le hread
    simp only [List.get_eq_getElem] at hlen
    omega
  · intro hshort
    have hheaders : ∀ frame ∈ frames, ∀ rest,
        mesgRecvHeader (frame ++ rest) = some (frame.length : ℤ) ∧
          hmesgDeserializeHeader (frame ++ rest) = some hmesgVersion := by
      intro frame hframe rest
      rcases List.mem_iff_getElem.mp hframe with ⟨i, hi, rfl⟩
      have hi' : i < mesgs.length := hall.length_eq.symm ▸ hi
      have hser := List.Forall₂.get hall hi' hi
      rcases hmesgSerialize_eq_some hser with ⟨hlen, body, hbody⟩
      have hlt := hshort mesgs[i] (List.getElem_mem hi')
      simp only [List.get_eq_getElem] at hlen hbody
      have hread := headers_of_lt (show frames[i].length < 10000 by rw [hlen]; exact hlt) (body ++ rest)
      rwa [← List.append_assoc, ← hbody] at hread
    exact ⟨hheaders, times_mesgRecvFrame fun frame hframe rest => (hheaders frame hframe rest).1⟩

/-- Two short messages in a row. -/
theorem split_session_and_restart : ∃ frames,
    [sessionRequest, ⟨0, .restart, .req, some (cstr "a:b"), .none⟩].mapM
      (hmesgSerialize powerOfTwoFormat) = some frames ∧
    ((∀ frame ∈ frames, ∀ rest, mesgRecvHeader (frame ++ rest) = some (frame.length : ℤ) ∧
        hmesgDeserializeHeader (frame ++ rest) = some hmesgVersion) ∧
      times mesgRecvFrame frames.length frames.flatten = some (frames, [])) := by
  have haccept : ([sessionRequest, ⟨0, .restart, .req, some (cstr "a:b"), .none⟩].mapM
    (hmesgSerialize powerOfTwoFormat)).isSome = true := by decide +kernel
  rcases Option.isSome_iff_exists.mp haccept with ⟨frames, hframes⟩
  exact ⟨frames, hframes, (split_iff_textLength_lt _ frames hframes).mpr (by decide +kernel)⟩

/-- An answer that carries a configuration value. -/
def valueMesg (val : Bytes) : HMesg ℤ where
  dest := 0
  type := .setcfg
  status := .req
  srcId := none
  data := .string (some val)

lemma textLength_valueMesg (val : Bytes) :
    (valueMesg val).textLength powerOfTwoFormat = 19 + (decimal val.length).length + val.length := by
  show 10 + 1 + 5 + ((decimal val.length).length + val.length + 3) = _
  omega

/-- A value of moderate length is accepted. -/
lemma valueMesg_accepted {val : Bytes} (hval : val.length < 100000) :
    ∃ frame, hmesgSerialize powerOfTwoFormat (valueMesg val) = some frame := by
  have hdigits : (decimal val.length).length ≤ 5 := (length_decimal_le_iff (by omega)).mpr hval
  have hmod : val.length % 2 ^ 32 = val.length := Nat.mod_eq_of_lt (by omega)
  have hstr : ∃ e, printstrSerial (some val) = some e := by
    refine ⟨_, if_pos ?_⟩
    rw [hmod]
    simp only [List.length_append]
    show _ + (1 + (_ + 2)) ≤ 2 ^ 31 - 1
    omega
  rcases hstr with ⟨e, he⟩
  have hdata : hmesgSerializeData powerOfTwoFormat (valueMesg val) = some e := he
  have hbody : ∃ body, hmesgSerializeBody powerOfTwoFormat (valueMesg val) = some body := by
    refine ⟨cstr ":0:INF:REQ:" ++ (cstr "0\"0\" " ++ e), ?_⟩
    show (hmesgSerializeData powerOfTwoFormat (valueMesg val) >>= fun data =>
      pure (cstr ":0:INF:REQ:" ++ (cstr "0\"0\" " ++ data))) = _
    rw [hdata]
    rfl
  rcases hbody with ⟨body, hbody⟩
  have hlen := length_hmesgSerializeBody hbody
  rw [textLength_valueMesg] at hlen
  refine ⟨hmesgHeader (hmesgHdrlen + body.length) ++ body,
    Option.bind_eq_some_iff.mpr ⟨body, hbody, if_pos ?_⟩⟩
  show 10 + body.length ≤ 2 ^ 31 - 1
  omega

/-- A message of 10000 bytes, with a value of 9967 letters, is accepted, and its header is not
read back. -/
theorem header_not_read_back : ¬ ∀ (mesg : HMesg ℤ) (frame : Bytes),
    hmesgSerialize powerOfTwoFormat mesg = some frame → ∀ rest,
      mesgRecvHeader (frame ++ rest) = some (frame.length : ℤ) ∧
        hmesgDeserializeHeader (frame ++ rest) = some hmesgVersion := by
  intro hall
  have hval : (List.replicate 9967 (65 : UInt8)).length = 9967 := List.length_replicate
  rcases valueMesg_accepted (show (List.replicate 9967 (65 : UInt8)).length < 100000 by
    rw [hval]; decide) with ⟨frame, hframe⟩
  have hlen := (hmesgSerialize_eq_some hframe).1
  rw [textLength_valueMesg, hval, show (decimal 9967).length = 4 by decide] at hlen
  have hle := mesgRecvHeader_le (hall _ frame hframe []).1
  rw [hlen] at hle
  revert hle
  decide

end ActiveHarmony
