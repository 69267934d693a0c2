import ActiveHarmony.Wire.InPlace

/-!
# Messages as C strings

The strings of a C program have no NUL, so the bytes of a serialized message have none either:
`hmesgSerialize_terminated`. A function that is given the buffer of `hmesg_serialize` may take its length
with `strlen`.
-/

namespace ActiveHarmony

open TextScan

/-! ## Strings without NUL -/

/-- `NULL`, or a string. -/
def NulFree (s : Option Bytes) : Prop := ∀ str, s = some str → 0 ∉ str

variable {V : Type}

def HVal.NulFree : HVal V → Prop
  | .str s => ActiveHarmony.NulFree s
  | _ => True

def HBounds.NulFree : HBounds V → Prop
  | .str set => ∀ str ∈ set, 0 ∉ str
  | _ => True

structure HRange.NulFree (range : HRange V) : Prop where
  name : ActiveHarmony.NulFree range.name
  bounds : range.bounds.NulFree

structure HSignature.NulFree (sig : HSignature V) : Prop where
  name : ActiveHarmony.NulFree sig.name
  range : ∀ range ∈ sig.range, range.NulFree

def Hcfg.NulFree (cfg : Hcfg) : Prop := ∀ entry ∈ cfg.hash.reduceOption, 0 ∉ entry.key ∧ 0 ∉ entry.val

/-- Of a point only the values that are sent count. -/
def HMesgData.NulFree : HMesgData V → Prop
  | .session sess => sess.sig.NulFree ∧ sess.cfg.NulFree
  | .join sig => sig.NulFree
  | .point pt => ∀ v ∈ pt.sent.val, v.NulFree
  | .string s => ActiveHarmony.NulFree s
  | _ => True

structure HMesg.NulFree (mesg : HMesg V) : Prop where
  srcId : ActiveHarmony.NulFree mesg.srcId
  data : carriesData mesg.type mesg.status = true → mesg.data.NulFree

lemma nulFree_of_isSome {s : Option Bytes} (h : s.isSome = false) : NulFree s := by
  rintro str rfl
  cases h

/-- Without strings there is nothing to be said about them. -/
lemma HMesg.nulFree_of_hasString {mesg : HMesg V} (h : mesg.hasString = false) : mesg.NulFree := by
  obtain ⟨hsrcId, hdata⟩ := Bool.or_eq_false_iff.mp h
  refine ⟨nulFree_of_isSome hsrcId, fun hcarries => ?_⟩
  rw [hcarries, Bool.true_and] at hdata
  revert hdata
  cases mesg.data with
  | session sess =>
    intro hdata
    cases hdata
  | join sig =>
    intro hdata
    cases hdata
  | point pt =>
    intro hdata v hv
    have hno := Bool.eq_false_iff.mpr (List.any_eq_false.mp hdata v hv)
    cases v with
    | str s => exact nulFree_of_isSome hno
    | _ => trivial
  | string s => exact nulFree_of_isSome
  | _ => exact fun _ => trivial

/-! ## Serializers print texts -/

variable {fmt : LaFormat V}

/-- A byte that none of the printed items has is not in the printed list. -/
lemma flatten_mapM_not_mem {α : Type} {c : UInt8} {enc : α → Option Bytes} {xs : List α}
    {es : List Bytes} (hes : xs.mapM enc = some es) (h : ∀ x ∈ xs, ∀ e, enc x = some e → c ∉ e) :
    c ∉ es.flatten := by
  induction xs generalizing es with
  | nil =>
    rw [List.mapM_nil] at hes
    cases hes
    exact List.not_mem_nil
  | cons x xs ih =>
    rw [List.mapM_cons] at hes
    obtain ⟨e, he, hes⟩ := bind_eq_some hes
    obtain ⟨es', hes', heq⟩ := bind_eq_some hes
    cases heq
    rw [List.flatten_cons, List.mem_append, not_or]
    exact ⟨h x List.mem_cons_self e he, ih hes' fun y hy => h y (List.mem_cons_of_mem x hy)⟩

lemma printstrSerial_terminated {s : Option Bytes} {e : Bytes} (h : printstrSerial s = some e)
    (hs : NulFree s) : 0 ∉ e := by
  cases s with
  | none =>
    obtain ⟨rfl, -⟩ := snprintfSerial_eq_some h
    decide
  | some str =>
    obtain ⟨rfl, -⟩ := snprintfSerial_eq_some h
    simp only [List.mem_append, not_or]
    exact ⟨decimal_terminated _, by decide, hs str rfl, by decide⟩

lemma hvalSerialize_terminated (hla : fmt.Textual) {v : HVal V} {e : Bytes}
    (h : hvalSerialize fmt v = some e) (hv : v.NulFree) : 0 ∉ e := by
  cases v with
  | unknown => cases h
  | int i =>
    obtain ⟨type, htype, h⟩ := bind_eq_some h
    obtain ⟨value, hvalue, heq⟩ := bind_eq_some h
    obtain ⟨rfl, -⟩ := snprintfSerial_eq_some htype
    obtain ⟨rfl, -⟩ := snprintfSerial_eq_some hvalue
    cases heq
    simp only [List.mem_append, not_or]
    exact ⟨by decide, decimalInt_terminated i, by decide⟩
  | real r =>
    obtain ⟨type, htype, h⟩ := bind_eq_some h
    obtain ⟨value, hvalue, heq⟩ := bind_eq_some h
    obtain ⟨rfl, -⟩ := snprintfSerial_eq_some htype
    obtain ⟨rfl, -⟩ := snprintfSerial_eq_some hvalue
    cases heq
    simp only [List.mem_append, not_or]
    exact ⟨by decide, hla.print_terminated r, by decide⟩
  | str s =>
    obtain ⟨type, htype, h⟩ := bind_eq_some h
    obtain ⟨value, hvalue, heq⟩ := bind_eq_some h
    obtain ⟨rfl, -⟩ := snprintfSerial_eq_some htype
    cases heq
    rw [List.mem_append, not_or]
    exact ⟨by decide, printstrSerial_terminated hvalue hv⟩

lemma hpointSerialize_terminated (hla : fmt.Textual) {pt : HPoint V} {e : Bytes}
    (h : hpointSerialize fmt pt = some e) (hpt : ∀ v ∈ pt.sent.val, v.NulFree) : 0 ∉ e := by
  obtain ⟨id, hid, h⟩ := bind_eq_some h
  obtain ⟨rfl, -⟩ := snprintfSerial_eq_some hid
  have hhead : 0 ∉ cstr "hpoint:" ++ (decimalInt pt.id ++ [blank]) := by
    simp only [List.mem_append, not_or]
    exact ⟨by decide, decimalInt_terminated pt.id, by decide⟩
  unfold HPoint.sent at hpt
  by_cases hpos : pt.id ≥ 0
  · rw [if_pos hpos] at h hpt
    obtain ⟨n, hn, h⟩ := bind_eq_some h
    obtain ⟨vals, hvals, heq⟩ := bind_eq_some h
    obtain ⟨rfl, -⟩ := snprintfSerial_eq_some hn
    cases heq
    have hval := flatten_mapM_not_mem hvals fun v hv e he => hvalSerialize_terminated hla he (hpt v hv)
    simp only [List.mem_append, not_or] at hhead ⊢
    exact ⟨hhead, ⟨decimalInt_terminated _, by decide⟩, hval⟩
  · rw [if_neg hpos] at h
    cases h
    exact hhead

lemma hperfSerialize_terminated (hla : fmt.Textual) {perf : HPerf V} {e : Bytes}
    (h : hperfSerialize fmt perf = some e) : 0 ∉ e := by
  obtain ⟨n, hn, h⟩ := bind_eq_some h
  obtain ⟨ps, hps, heq⟩ := bind_eq_some h
  obtain ⟨rfl, -⟩ := snprintfSerial_eq_some hn
  cases heq
  have hperf := flatten_mapM_not_mem hps fun v _ e he => by
    obtain ⟨rfl, -⟩ := snprintfSerial_eq_some he
    rw [List.mem_append, not_or]
    exact ⟨hla.print_terminated v, by decide⟩
  simp only [List.mem_append, not_or]
  exact ⟨⟨by decide, by decide, decimalInt_terminated _, by decide⟩, hperf⟩

lemma hboundsSerialize_terminated (hla : fmt.Textual) {bounds : HBounds V} {e : Bytes}
    (h : hboundsSerialize fmt bounds = some e) (hbounds : bounds.NulFree) : 0 ∉ e := by
  have hblank : 0 ∉ [blank] := by decide
  cases bounds with
  | unknown => cases h
  | int min max step =>
    obtain ⟨type, htype, h⟩ := bind_eq_some h
    obtain ⟨value, hvalue, heq⟩ := bind_eq_some h
    obtain ⟨rfl, -⟩ := snprintfSerial_eq_some htype
    obtain ⟨rfl, -⟩ := snprintfSerial_eq_some hvalue
    cases heq
    simp only [List.mem_append, not_or]
    exact ⟨⟨by decide, hblank⟩, ⟨decimalInt_terminated min, hblank⟩, ⟨decimalInt_terminated max, hblank⟩,
      decimalInt_terminated step, hblank⟩
  | real min max step =>
    obtain ⟨type, htype, h⟩ := bind_eq_some h
    obtain ⟨value, hvalue, heq⟩ := bind_eq_some h
    obtain ⟨rfl, -⟩ := snprintfSerial_eq_some htype
    obtain ⟨rfl, -⟩ := snprintfSerial_eq_some hvalue
    cases heq
    simp only [List.mem_append, not_or]
    exact ⟨⟨by decide, hblank⟩, ⟨hla.print_terminated min, hblank⟩, ⟨hla.print_terminated max, hblank⟩,
      hla.print_terminated step, hblank⟩
  | str set =>
    obtain ⟨type, htype, h⟩ := bind_eq_some h
    obtain ⟨setLen, hsetLen, h⟩ := bind_eq_some h
    obtain ⟨strs, hstrs, heq⟩ := bind_eq_some h
    obtain ⟨rfl, -⟩ := snprintfSerial_eq_some htype
    obtain ⟨rfl, -⟩ := snprintfSerial_eq_some hsetLen
    cases heq
    have hset := flatten_mapM_not_mem hstrs fun str hstr e he => printstrSerial_terminated he <| by
      rintro str' ⟨⟩
      exact hbounds str hstr
    simp only [List.mem_append, not_or]
    exact ⟨⟨by decide, hblank⟩, ⟨decimalInt_terminated _, hblank⟩, hset⟩

lemma hrangeSerialize_terminated (hla : fmt.Textual) {range : HRange V} {e : Bytes}
    (h : hrangeSerialize fmt range = some e) (hrange : range.NulFree) : 0 ∉ e := by
  obtain ⟨head, hhead, h⟩ := bind_eq_some h
  obtain ⟨name, hname, h⟩ := bind_eq_some h
  obtain ⟨bs, hbounds, heq⟩ := bind_eq_some h
  obtain ⟨rfl, -⟩ := snprintfSerial_eq_some hhead
  cases heq
  simp only [List.mem_append, not_or]
  exact ⟨⟨by decide, by decide⟩, printstrSerial_terminated hname hrange.name,
    hboundsSerialize_terminated hla hbounds hrange.bounds⟩

lemma hsignatureSerialize_terminated (hla : fmt.Textual) {sig : HSignature V} {e : Bytes}
    (h : hsignatureSerialize fmt sig = some e) (hsig : sig.NulFree) : 0 ∉ e := by
  obtain ⟨head, hhead, h⟩ := bind_eq_some h
  obtain ⟨name, hname, h⟩ := bind_eq_some h
  obtain ⟨rangeLen, hlen, h⟩ := bind_eq_some h
  obtain ⟨rs, hranges, heq⟩ := bind_eq_some h
  obtain ⟨rfl, -⟩ := snprintfSerial_eq_some hhead
  obtain ⟨rfl, -⟩ := snprintfSerial_eq_some hlen
  cases heq
  have hrange := flatten_mapM_not_mem hranges fun r hr e he =>
    hrangeSerialize_terminated hla he (hsig.range r hr)
  simp only [List.mem_append, not_or]
  exact ⟨⟨by decide, by decide⟩, printstrSerial_terminated hname hsig.name,
    ⟨decimalInt_terminated _, by decide⟩, hrange⟩

lemma hcfgSerialize_terminated {cfg : Hcfg} {e : Bytes} (h : hcfgSerialize cfg = some e)
    (hcfg : cfg.NulFree) : 0 ∉ e := by
  obtain ⟨head, hhead, h⟩ := bind_eq_some h
  obtain ⟨strs, hstrs, heq⟩ := bind_eq_some h
  obtain ⟨rfl, -⟩ := snprintfSerial_eq_some hhead
  cases heq
  have hpairs := flatten_mapM_not_mem hstrs fun entry hentry e he => by
    have hmem : entry ∈ cfg.hash.reduceOption := by
      rw [List.reduceOption_mem_iff] at hentry ⊢
      exact List.mem_of_mem_take hentry
    obtain ⟨k, hkey, he⟩ := bind_eq_some he
    obtain ⟨v, hval, heq⟩ := bind_eq_some he
    cases heq
    obtain ⟨hfreeKey, hfreeVal⟩ := hcfg entry hmem
    rw [List.mem_append, not_or]
    constructor
    · refine printstrSerial_terminated hkey ?_
      rintro str ⟨⟩
      exact hfreeKey
    · refine printstrSerial_terminated hval ?_
      rintro str ⟨⟩
      exact hfreeVal
  simp only [List.mem_append, not_or]
  exact ⟨⟨by decide, ⟨decimal_terminated _, by decide⟩, decimal_terminated _, by decide⟩, hpairs⟩

lemma hsessionSerialize_terminated (hla : fmt.Textual) {sess : HSession V} {e : Bytes}
    (h : hsessionSerialize fmt sess = some e) (hsig : sess.sig.NulFree) (hcfg : sess.cfg.NulFree) :
    0 ∉ e := by
  obtain ⟨head, hhead, h⟩ := bind_eq_some h
  obtain ⟨s, hs, h⟩ := bind_eq_some h
  obtain ⟨c, hc, heq⟩ := bind_eq_some h
  obtain ⟨rfl, -⟩ := snprintfSerial_eq_some hhead
  cases heq
  simp only [List.mem_append, not_or]
  exact ⟨⟨by decide, by decide⟩, hsignatureSerialize_terminated hla hs hsig,
    hcfgSerialize_terminated hc hcfg⟩

lemma hmesgSerializeData_terminated (hla : fmt.Textual) {mesg : HMesg V} {e : Bytes}
    (h : hmesgSerializeData fmt mesg = some e)
    (hdata : carriesData mesg.type mesg.status = true → mesg.data.NulFree) : 0 ∉ e := by
  obtain ⟨dest, type, status, srcId, data⟩ := mesg
  unfold hmesgSerializeData at h
  have hempty : some [] = some e → 0 ∉ e := by
    rintro ⟨⟩
    exact List.not_mem_nil
  by_cases hfail : status = .fail
  · rw [if_pos hfail] at h
    have hfree := hdata (by simp [carriesData, hfail])
    cases data with
    | string s => exact printstrSerial_terminated h hfree
    | _ => cases h
  rw [if_neg hfail] at h
  cases type with
  | unknown => cases h
  | restart => exact hempty h
  | session =>
    dsimp only at h
    split_ifs at h with hreq
    · have hfree := hdata (by simp [carriesData, hreq])
      cases data with
      | session sess => exact hsessionSerialize_terminated hla h hfree.1 hfree.2
      | _ => cases h
    · exact hempty h
  | join =>
    have hfree := hdata (by simp [carriesData])
    cases data with
    | join sig => exact hsignatureSerialize_terminated hla h hfree
    | _ => cases h
  | getcfg | setcfg =>
    have hfree := hdata (by simp [carriesData])
    cases data with
    | string s => exact printstrSerial_terminated h hfree
    | _ => cases h
  | best | fetch =>
    dsimp only at h
    split_ifs at h with hok
    · have hfree := hdata (by simpa [carriesData, hfail] using hok)
      cases data with
      | point pt => exact hpointSerialize_terminated hla h hfree
      | _ => cases h
    · exact hempty h
  | report =>
    dsimp only at h
    split_ifs at h
    · cases data with
      | report candId perf =>
        obtain ⟨id, hid, h⟩ := bind_eq_some h
        obtain ⟨ps, hperf, heq⟩ := bind_eq_some h
        obtain ⟨rfl, -⟩ := snprintfSerial_eq_some hid
        cases heq
        rw [List.mem_append, List.mem_append, not_or, not_or]
        exact ⟨⟨decimalInt_terminated _, by decide⟩, hperfSerialize_terminated hla hperf⟩
      | _ => cases h
    · exact hempty h

/-- The bytes of a short message have no NUL. -/
theorem hmesgSerialize_terminated (hla : fmt.Textual) {mesg : HMesg V} {frame : Bytes}
    (hframe : hmesgSerialize fmt mesg = some frame) (hshort : frame.length < 10000)
    (hmesg : mesg.NulFree) : 0 ∉ frame := by
  obtain ⟨-, body, hbody⟩ := hmesgSerialize_eq_some hframe
  have hdrop := hmesgSerialize_drop hframe
  rw [hbody, List.drop_left' (length_hmesgHeader _)] at hdrop
  obtain ⟨statusStr, hstatus, h⟩ := bind_eq_some hdrop
  obtain ⟨head, hhead, h⟩ := bind_eq_some h
  obtain ⟨src, hsrc, h⟩ := bind_eq_some h
  obtain ⟨data, hser, heq⟩ := bind_eq_some h
  obtain ⟨rfl, -⟩ := snprintfSerial_eq_some hhead
  have htype : 0 ∉ mesg.type.str := by cases mesg.type <;> decide
  have hstatusStr : 0 ∉ statusStr := by
    revert hstatus
    cases mesg.status with
    | unknown =>
      intro hnone
      cases hnone
    | _ =>
      rintro ⟨⟩
      decide
  have hcolon : 0 ∉ cstr ":" := by decide
  have hsrcId := printstrSerial_terminated hsrc hmesg.srcId
  have hdata := hmesgSerializeData_terminated hla hser hmesg.data
  rw [hbody, ← Option.some.inj heq, hmesgHeader_of_lt hshort]
  simp only [List.mem_append, not_or]
  refine ⟨⟨by decide, fun hmem => ?_, by decide⟩, ⟨hcolon, decimalInt_terminated _, hcolon, htype, hcolon,
    hstatusStr, hcolon⟩, hsrcId, hdata⟩
  exact absurd (printD4_isDigit _ 0 hmem) (by decide)

end ActiveHarmony
