import ActiveHarmony.Config.Refinement
import ActiveHarmony.Wire.Deserialize

/-!
# Round trip of message bodies

Every value that a serializer accepts is read back by its deserializer. The lemmas follow the
nesting of the format: numbers and strings, values, points, performances, ranges, signatures,
configurations, sessions, messages.
-/

namespace ActiveHarmony

open TextScan

/-! ## Values of the C types -/

/-- The number is an `int`. -/
def IsInt (z : ℤ) : Prop := -2 ^ 31 ≤ z ∧ z < 2 ^ 31

/-- The number is a `long`. -/
def IsLong (z : ℤ) : Prop := -2 ^ 63 ≤ z ∧ z < 2 ^ 63

instance (z : ℤ) : Decidable (IsInt z) := inferInstanceAs (Decidable (_ ∧ _))

instance (z : ℤ) : Decidable (IsLong z) := inferInstanceAs (Decidable (_ ∧ _))

lemma isInt_natCast {n : ℕ} (hn : n ≤ intMax) : IsInt n := by
  unfold intMax at hn
  unfold IsInt
  omega

lemma clampLong_of_isLong {z : ℤ} (hz : IsLong z) : clampLong z = z := by
  unfold clampLong
  unfold IsLong at hz
  omega

lemma IsInt.isLong {z : ℤ} (hz : IsInt z) : IsLong z := by
  unfold IsInt at hz
  unfold IsLong
  omega

lemma snprintfSerial_eq_some {text e : Bytes} (h : snprintfSerial text = some e) :
    e = text ∧ text.length ≤ intMax := by
  unfold snprintfSerial at h
  by_cases hlen : text.length ≤ intMax
  · rw [if_pos hlen] at h
    exact ⟨(Option.some.inj h).symm, hlen⟩
  · rw [if_neg hlen] at h
    cases h

/-! ## Numbers and strings -/

/-- An `int` is read by `%d` whatever non-digit follows it. -/
lemma scanD_decimalInt {z : ℤ} (hz : IsInt z) {ws rest : Bytes} (hws : Spaces ws)
    (hrest : NoDigit rest) : scanD (ws ++ (decimalInt z ++ rest)) = some (z, rest) := by
  have hcut : (clampLong z).bmod (2 ^ 32) = z := by
    rw [clampLong_of_isLong hz.isLong]
    unfold IsInt at hz
    rw [Int.bmod_def]
    omega
  unfold scanD
  rw [bind_eq_of_eq_some (integer_decimalInt z hws hrest), hcut]
  rfl

theorem reads_scanD {z : ℤ} (hz : IsInt z) : Reads scanD (decimalInt z ++ [blank]) z := by
  intro ws rest hws
  rw [List.append_assoc, List.singleton_append]
  exact scanD_decimalInt hz hws noDigit_blank

theorem reads_scanLd {z : ℤ} (hz : IsLong z) : Reads scanLd (decimalInt z ++ [blank]) z := by
  refine (reads_integer z).bind_pure z ?_
  rw [clampLong_of_isLong hz]

/-- A number below `2 ^ 32` is read by `%u` whatever non-digit follows it. -/
lemma scanU_decimal {n : ℕ} (hn : n < 2 ^ 32) {ws rest : Bytes} (hws : Spaces ws)
    (hrest : NoDigit rest) : scanU (ws ++ (decimal n ++ rest)) = some (n, rest) := by
  unfold scanU
  rw [bind_eq_of_eq_some (integer_decimal n hws hrest), Int.natAbs_natCast, if_neg (by omega)]
  have hcut : ((n : ℤ) % 2 ^ 32).toNat = n := by omega
  rw [hcut]
  rfl

theorem reads_scanU {n : ℕ} (hn : n < 2 ^ 32) : Reads scanU (decimal n ++ [blank]) n := by
  intro ws rest hws
  rw [List.append_assoc, List.singleton_append]
  exact scanU_decimal hn hws noDigit_blank

/-- A string is read back whatever bytes it has, and `NULL` is told apart from the empty string. -/
theorem reads_scanstrSerial {s : Option Bytes} {e : Bytes} (h : printstrSerial s = some e) :
    Reads scanstrSerial e s := by
  intro ws rest hws
  cases s with
  | none =>
    rcases snprintfSerial_eq_some h with ⟨rfl, -⟩
    have hlen := @scanU_decimal 0 (by decide) _ (cstr "\"0\" " ++ rest) hws
      (noDigit_cons (by decide))
    have htext : cstr "0\"0\" " ++ rest = decimal 0 ++ (cstr "\"0\" " ++ rest) := rfl
    rw [htext, scanstrSerial, hlen]
    rfl
  | some str =>
    rcases snprintfSerial_eq_some h with ⟨rfl, hle⟩
    have hstr : str.length < 2 ^ 31 := by
      simp only [List.length_append] at hle
      unfold intMax at hle
      omega
    rw [Nat.mod_eq_of_lt (by omega)]
    have hlen := @scanU_decimal str.length (by omega) _ (34 :: (str ++ (34 :: blank :: rest)))
      hws (noDigit_cons (by decide))
    have htext : decimal str.length ++ (cstr "\"" ++ (str ++ cstr "\" ")) ++ rest
        = decimal str.length ++ (34 :: (str ++ (34 :: blank :: rest))) := by
      rw [List.append_assoc, List.append_assoc, List.append_assoc]
      rfl
    rw [htext, scanstrSerial, hlen]
    -- the byte after the opening quotation mark is not taken for the mark of `NULL`
    have hnull : ¬ (str.length = 0 ∧ (str ++ (34 :: blank :: rest)).head? = some 48) := by
      rintro ⟨hnil, hhead⟩
      rw [List.length_eq_zero_iff.mp hnil] at hhead
      cases hhead
    have hquote : str.length < (str ++ (34 :: blank :: rest)).length ∧
        (str ++ (34 :: blank :: rest))[str.length]? = some 34 := by
      refine ⟨by simp, ?_⟩
      rw [List.getElem?_append_right (le_refl _), Nat.sub_self]
      rfl
    show (if (34 : UInt8) ≠ 34 then none else if str.length = 0 ∧ _ then _ else
      if str.length < (str ++ (34 :: blank :: rest)).length ∧ _ then _ else none) = _
    rw [if_neg (by simp), if_neg hnull, if_pos hquote, List.take_left,
      ← List.drop_drop, List.drop_left]
    rfl

theorem reads_scanstrAlloc {str e : Bytes} (h : printstrSerial (some str) = some e) :
    Reads scanstrAlloc e str := (reads_scanstrSerial h).bind_pure str rfl

variable {V : Type} {fmt : LaFormat V}

theorem reads_scanLa (v : V) : Reads (scanLa fmt) (fmt.print v ++ [blank]) v := by
  intro ws rest hws
  rcases fmt.print_head v with ⟨c, cs, hcs, hc⟩
  have hskip : skipSpace (ws ++ (fmt.print v ++ blank :: rest)) = fmt.print v ++ blank :: rest := by
    rw [hcs, List.cons_append, skipSpace_append hws hc]
  rw [List.append_assoc, List.singleton_append, scanLa, hskip]
  exact fmt.scan_print v rest

/-- Splitting a successful sequence of serializers. -/
lemma bind_eq_some {α β : Type} {x : Option α} {f : α → Option β} {b : β}
    (h : (x >>= f) = some b) : ∃ a, x = some a ∧ f a = some b := Option.bind_eq_some_iff.mp h

/-! ## Values, points and performances -/

/-- The numbers of a value are those of its C type. -/
def HVal.Fits : HVal V → Prop
  | .int i => IsLong i
  | _ => True

theorem reads_hvalDeserialize {val : HVal V} {e : Bytes} (hfits : val.Fits)
    (h : hvalSerialize fmt val = some e) : Reads (hvalDeserialize fmt) e val := by
  have hlit : cstr "hval:" = 104 :: cstr "val:" := rfl
  cases val with
  | unknown => cases h
  | int i =>
    rcases bind_eq_some h with ⟨type, htype, h⟩
    rcases bind_eq_some h with ⟨value, hvalue, h⟩
    rcases snprintfSerial_eq_some htype with ⟨rfl, -⟩
    rcases snprintfSerial_eq_some hvalue with ⟨rfl, -⟩
    cases h
    rw [List.append_assoc]
    refine Reads.literal_tight hlit (by decide) ?_
    refine (reads_word (w := cstr "INT") (n := 3) (by decide) (by decide) (by decide)).bind ?_
    exact (reads_scanLd hfits).continues.bind_pure _ rfl
  | real r =>
    rcases bind_eq_some h with ⟨type, htype, h⟩
    rcases bind_eq_some h with ⟨value, hvalue, h⟩
    rcases snprintfSerial_eq_some htype with ⟨rfl, -⟩
    rcases snprintfSerial_eq_some hvalue with ⟨rfl, -⟩
    cases h
    rw [List.append_assoc]
    refine Reads.literal_tight hlit (by decide) ?_
    refine (reads_word (w := cstr "REL") (n := 3) (by decide) (by decide) (by decide)).bind ?_
    exact (reads_scanLa r).continues.bind_pure _ rfl
  | str s =>
    rcases bind_eq_some h with ⟨type, htype, h⟩
    rcases bind_eq_some h with ⟨value, hvalue, h⟩
    rcases snprintfSerial_eq_some htype with ⟨rfl, -⟩
    cases h
    rw [List.append_assoc]
    refine Reads.literal_tight hlit (by decide) ?_
    refine (reads_word (w := cstr "STR") (n := 3) (by decide) (by decide) (by decide)).bind ?_
    exact (reads_scanstrSerial hvalue).continues.bind_pure _ rfl

/-- The numbers of a point are those of its C types. -/
structure HPoint.Fits (pt : HPoint V) : Prop where
  id : IsInt pt.id
  length : pt.val.length ≤ intMax
  val : ∀ v ∈ pt.val, v.Fits

/-- A point with a negative id is sent without its values. -/
def HPoint.sent (pt : HPoint V) : HPoint V :=
  if pt.id ≥ 0 then pt else { hpointInitializer V with id := pt.id }

theorem reads_hpointDeserialize {pt : HPoint V} {e : Bytes} (hfits : pt.Fits)
    (h : hpointSerialize fmt pt = some e) : Reads (hpointDeserialize fmt) e pt.sent := by
  have hlit : cstr "hpoint:" = 104 :: cstr "point:" := rfl
  rcases bind_eq_some h with ⟨id, hid, h⟩
  rcases snprintfSerial_eq_some hid with ⟨rfl, -⟩
  unfold HPoint.sent
  by_cases hpos : pt.id ≥ 0
  · rw [if_pos hpos] at h ⊢
    rcases bind_eq_some h with ⟨n, hn, h⟩
    rcases bind_eq_some h with ⟨vals, hvals, h⟩
    rcases snprintfSerial_eq_some hn with ⟨rfl, -⟩
    cases h
    have hval := Continues.times (p := hvalDeserialize fmt) (d := fun v => v) hvals
      fun v hv e he => (reads_hvalDeserialize (hfits.val v hv) he).continues
    rw [List.map_id'] at hval
    rw [List.append_assoc]
    refine Reads.literal_tight hlit (by decide) ((reads_scanD hfits.id).bind ?_)
    rw [if_pos hpos]
    refine (reads_scanD (isInt_natCast hfits.length)).continues.bind ?_
    rw [Int.toNat_natCast]
    exact hval.bind_pure pt rfl
  · rw [if_neg hpos] at h ⊢
    cases h
    refine Reads.literal_tight hlit (by decide) ((reads_scanD hfits.id).bind_pure _ ?_)
    rw [if_neg hpos]

/-- The number of performances is an `int`. -/
def HPerf.Fits (perf : HPerf V) : Prop := perf.p.length ≤ intMax

theorem reads_hperfDeserialize {perf : HPerf V} {e : Bytes} (hfits : perf.Fits)
    (h : hperfSerialize fmt perf = some e) : Reads (hperfDeserialize fmt) e perf := by
  rcases bind_eq_some h with ⟨n, hn, h⟩
  rcases bind_eq_some h with ⟨ps, hps, h⟩
  rcases snprintfSerial_eq_some hn with ⟨rfl, -⟩
  cases h
  have hp := Continues.times (p := scanLa fmt) (d := fun v => v) hps fun v _ e he => by
    rcases snprintfSerial_eq_some he with ⟨rfl, -⟩
    exact (reads_scanLa v).continues
  rw [List.map_id'] at hp
  rw [List.append_assoc, List.append_assoc]
  refine Reads.literal (show cstr "perf:" = 112 :: cstr "erf:" from rfl) (by decide) spaces_blank ?_
  refine (reads_scanD (isInt_natCast hfits)).bind ?_
  rw [Int.toNat_natCast]
  exact hp.bind_pure perf rfl

/-! ## Ranges and signatures -/

/-- The numbers of the bounds are those of their C types. -/
def HBounds.Fits : HBounds V → Prop
  | .int min max step => IsLong min ∧ IsLong max ∧ IsLong step
  | .str set => set.length ≤ intMax
  | _ => True

theorem reads_hboundsDeserialize {bounds : HBounds V} {e : Bytes} (hfits : bounds.Fits)
    (h : hboundsSerialize fmt bounds = some e) : Reads (hboundsDeserialize fmt) e bounds := by
  cases bounds with
  | unknown => cases h
  | int min max step =>
    rcases bind_eq_some h with ⟨type, htype, h⟩
    rcases bind_eq_some h with ⟨value, hvalue, h⟩
    rcases snprintfSerial_eq_some htype with ⟨rfl, -⟩
    rcases snprintfSerial_eq_some hvalue with ⟨rfl, -⟩
    cases h
    refine (reads_word (w := cstr "INT") (n := 3) (by decide) (by decide) (by decide)).bind ?_
    refine (reads_scanLd hfits.1).continues.bind ?_
    refine (reads_scanLd hfits.2.1).continues.bind ?_
    exact (reads_scanLd hfits.2.2).continues.bind_pure _ rfl
  | real min max step =>
    rcases bind_eq_some h with ⟨type, htype, h⟩
    rcases bind_eq_some h with ⟨value, hvalue, h⟩
    rcases snprintfSerial_eq_some htype with ⟨rfl, -⟩
    rcases snprintfSerial_eq_some hvalue with ⟨rfl, -⟩
    cases h
    refine (reads_word (w := cstr "REL") (n := 3) (by decide) (by decide) (by decide)).bind ?_
    refine (reads_scanLa min).continues.bind ?_
    refine (reads_scanLa max).continues.bind ?_
    exact (reads_scanLa step).continues.bind_pure _ rfl
  | str set =>
    rcases bind_eq_some h with ⟨type, htype, h⟩
    rcases bind_eq_some h with ⟨setLen, hsetLen, h⟩
    rcases bind_eq_some h with ⟨strs, hstrs, h⟩
    rcases snprintfSerial_eq_some htype with ⟨rfl, -⟩
    rcases snprintfSerial_eq_some hsetLen with ⟨rfl, -⟩
    cases h
    have hset := Continues.times (p := scanstrAlloc) (d := fun s => s) hstrs
      fun s _ e he => (reads_scanstrAlloc he).continues
    rw [List.map_id'] at hset
    refine (reads_word (w := cstr "STR") (n := 3) (by decide) (by decide) (by decide)).bind ?_
    refine (reads_scanD (isInt_natCast hfits)).continues.bind ?_
    rw [Int.toNat_natCast]
    exact hset.bind_pure _ rfl

/-- The range has a name, and its numbers are those of their C types. -/
structure HRange.Fits (range : HRange V) : Prop where
  name : range.name.isSome
  bounds : range.bounds.Fits

theorem reads_hrangeDeserialize {range : HRange V} {e : Bytes} (hfits : range.Fits)
    (h : hrangeSerialize fmt range = some e) : Reads (hrangeDeserialize fmt) e range := by
  rcases range with ⟨_ | str, bounds⟩
  · cases hfits.name
  rcases bind_eq_some h with ⟨head, hhead, h⟩
  rcases bind_eq_some h with ⟨name, hname, h⟩
  rcases bind_eq_some h with ⟨bs, hbounds, h⟩
  rcases snprintfSerial_eq_some hhead with ⟨rfl, -⟩
  cases h
  rw [List.append_assoc]
  refine Reads.literal (show cstr "range:" = 114 :: cstr "ange:" from rfl) (by decide) spaces_blank ?_
  refine (reads_scanstrAlloc hname).bind ?_
  exact (reads_hboundsDeserialize hfits.bounds hbounds).continues.bind_pure _ rfl

/-- The signature has a name, and its parts are as the C types and `hsignature_add` make them. -/
structure HSignature.Fits (sig : HSignature V) : Prop where
  name : sig.name.isSome
  length : sig.range.length ≤ intMax
  range : ∀ r ∈ sig.range, r.Fits

theorem reads_hsignatureDeserialize {sig : HSignature V} {e : Bytes} (hfits : sig.Fits)
    (h : hsignatureSerialize fmt sig = some e) : Reads (hsignatureDeserialize fmt) e sig := by
  rcases sig with ⟨_ | str, ranges⟩
  · cases hfits.name
  rcases bind_eq_some h with ⟨head, hhead, h⟩
  rcases bind_eq_some h with ⟨name, hname, h⟩
  rcases bind_eq_some h with ⟨rangeLen, hlen, h⟩
  rcases bind_eq_some h with ⟨rs, hranges, h⟩
  rcases snprintfSerial_eq_some hhead with ⟨rfl, -⟩
  rcases snprintfSerial_eq_some hlen with ⟨rfl, -⟩
  cases h
  have hrange := Continues.times (p := hrangeDeserialize fmt) (d := fun r => r) hranges
    fun r hr e he => (reads_hrangeDeserialize (hfits.range r hr) he).continues
  rw [List.map_id'] at hrange
  rw [List.append_assoc]
  refine Reads.literal (show cstr "sig:" = 115 :: cstr "ig:" from rfl) (by decide) spaces_blank ?_
  refine (reads_scanstrAlloc hname).bind ?_
  refine (reads_scanD (isInt_natCast hfits.length)).continues.bind ?_
  rw [Int.toNat_natCast]
  exact hrange.bind_pure _ rfl

/-! ## Configurations and sessions -/

/-- The pairs are inserted one by one; every insert has room. -/
lemma continues_hcfgDeserializeLoop : ∀ (es : List KeyVal) (strs : List Bytes) (cfg : Hcfg),
    es.mapM keyvalSerialize = some strs → cfg.Valid →
    cfg.count + es.length ≤ 2 ^ configMaxLogsize →
    ∃ cfg', Continues (hcfgDeserializeLoop es.length cfg) strs.flatten cfg' ∧
      ∀ key, hcfgGet cfg' key = es.foldl
        (fun cur e => if e.fold = foldCase key then some e.val else cur) (hcfgGet cfg key) := by
  intro es
  induction es with
  | nil =>
    intro strs cfg hstrs _ _
    rw [List.mapM_nil] at hstrs
    cases hstrs
    exact ⟨cfg, Continues.pure cfg, fun _ => rfl⟩
  | cons e es ih =>
    intro strs cfg hstrs hv hroom
    rw [List.mapM_cons] at hstrs
    rcases bind_eq_some hstrs with ⟨str, hstr, hstrs⟩
    rcases bind_eq_some hstrs with ⟨strs', hstrs', heq⟩
    cases heq
    rcases bind_eq_some hstr with ⟨k, hkey, hstr⟩
    rcases bind_eq_some hstr with ⟨v, hval, heq⟩
    cases heq
    rw [List.length_cons] at hroom
    rcases hashInsert_spec hv (show SafeInsert cfg e.key from Or.inr (by omega)) e.val with
      ⟨cfg₁, hins, hv₁, hget₁⟩
    have hcnt := (hashInsert_fields hins).2
    rcases ih strs' cfg₁ hstrs' hv₁ (by omega) with ⟨cfg', hread, hget'⟩
    refine ⟨cfg', ?_, fun key => ?_⟩
    · rw [List.flatten_cons, List.append_assoc]
      refine (reads_scanstrSerial hkey).continues.bind ?_
      refine (reads_scanstrSerial hval).continues.bind ?_
      have hset : hcfgSet cfg e.key (some e.val) = some (0, cfg₁) := hins
      simp only [hset]
      exact hread
    · rw [hget', hget₁, List.foldl_cons]
      simp only [KeyVal.fold, eq_comm]

/-- A configuration is read back into one that answers every key alike. -/
theorem reads_hcfgDeserialize {cfg : Hcfg} {e : Bytes} (hcfg : InsertOnly cfg)
    (h : hcfgSerialize cfg = some e) : ∃ cfg', Reads (hcfgDeserialize hcfgAlloc) e cfg' ∧
      ∀ key, hcfgGet cfg' key = hcfgGet cfg key := by
  rcases hcfg.valid with ⟨hv, hge⟩
  rcases bind_eq_some h with ⟨head, hhead, h⟩
  rcases bind_eq_some h with ⟨strs, hstrs, h⟩
  rcases snprintfSerial_eq_some hhead with ⟨rfl, -⟩
  cases h
  rw [Nat.one_shiftLeft, List.take_of_length_le hv.length_eq.le] at hstrs
  have hcount : cfg.count ≤ 2 ^ configMaxLogsize := by
    rw [hv.count_eq]
    exact le_trans (LinearProbe.load_le _ _) (Nat.pow_le_pow_right (by omega) hv.logsize_le)
  have hsmall : 2 ^ configMaxLogsize < 2 ^ 32 := by decide
  have hlogsize : cfg.logsize < 2 ^ 32 := lt_of_le_of_lt hv.logsize_le (by decide)
  rcases hashResize_alloc hge hv.logsize_le with ⟨cfg₀, hres, hv₀, hcnt₀, hget₀⟩
  rcases continues_hcfgDeserializeLoop cfg.entries strs cfg₀ hstrs hv₀
    (by rw [hcnt₀, hv.length_entries]; omega) with ⟨cfg', hread, hget⟩
  refine ⟨cfg', ?_, fun key => ?_⟩
  · rw [List.append_assoc, List.append_assoc]
    refine Reads.literal_tight (show cstr "hcfg:" = 104 :: cstr "cfg:" from rfl) (by decide) ?_
    refine (reads_scanU (by omega)).bind ?_
    refine (reads_scanU hlogsize).continues.bind ?_
    rw [hres, ← hv.length_entries]
    exact hread
  · rw [hget, hget₀, hv.get_eq_foldl]

/-- The signature fits and the configuration was built by inserts only. -/
structure HSession.Fits (sess : HSession V) : Prop where
  sig : sess.sig.Fits
  cfg : InsertOnly sess.cfg

theorem reads_hsessionDeserialize {sess : HSession V} {e : Bytes} (hfits : sess.Fits)
    (h : hsessionSerialize fmt sess = some e) : ∃ sess', Reads (hsessionDeserialize fmt) e sess' ∧
      sess'.sig = sess.sig ∧ ∀ key, hcfgGet sess'.cfg key = hcfgGet sess.cfg key := by
  rcases bind_eq_some h with ⟨head, hhead, h⟩
  rcases bind_eq_some h with ⟨s, hsig, h⟩
  rcases bind_eq_some h with ⟨c, hcfg, h⟩
  rcases snprintfSerial_eq_some hhead with ⟨rfl, -⟩
  cases h
  rcases reads_hcfgDeserialize hfits.cfg hcfg with ⟨cfg', hread, hget⟩
  refine ⟨{ sig := sess.sig, cfg := cfg' }, ?_, rfl, hget⟩
  rw [List.append_assoc]
  refine Reads.literal (show cstr "session:" = 115 :: cstr "ession:" from rfl) (by decide) spaces_blank ?_
  refine (reads_hsignatureDeserialize hfits.sig hsig).bind ?_
  exact hread.continues.bind_pure _ rfl

/-! ## Messages -/

/-- The payload is one its C types and the makers of signatures and configurations allow. -/
def HMesgData.Fits : HMesgData V → Prop
  | .session sess => sess.Fits
  | .join sig => sig.Fits
  | .point pt => pt.Fits
  | .report candId perf => IsInt candId ∧ perf.Fits
  | _ => True

/-- Whether messages of the type and status carry a payload. -/
def carriesData (type : HMesgType) (status : HMesgStatus) : Bool :=
  status = .fail ||
    match type with
    | .session | .report => status = .req
    | .best | .fetch => status = .ok || status = .busy
    | .join | .getcfg | .setcfg => true
    | .restart | .unknown => false

/-- The payload read back: a point with a negative id has lost its values, and a configuration
answers every key alike. -/
def HMesgData.SameAs : HMesgData V → HMesgData V → Prop
  | .session sess, .session sess' =>
    sess'.sig = sess.sig ∧ ∀ key, hcfgGet sess'.cfg key = hcfgGet sess.cfg key
  | .point pt, .point pt' => pt' = pt.sent
  | data, data' => data' = data

theorem continues_hmesgDeserializeData {mesg : HMesg V} {e : Bytes} (hfits : mesg.data.Fits)
    (h : hmesgSerializeData fmt mesg = some e) :
    ∃ data', Continues (hmesgDeserializeData fmt mesg.type mesg.status) e data' ∧
      (carriesData mesg.type mesg.status = true → mesg.data.SameAs data') := by
  rcases mesg with ⟨dest, type, status, srcId, data⟩
  unfold hmesgSerializeData at h
  unfold hmesgDeserializeData carriesData
  by_cases hfail : status = .fail
  · simp only [hfail, if_true] at h ⊢
    cases data with
    | string s => exact ⟨.string s, (reads_scanstrSerial h).continues.bind_pure _ rfl, fun _ => rfl⟩
    | _ => cases h
  simp only [hfail, if_false, decide_false, Bool.false_or] at h ⊢
  -- a message that carries nothing is read without looking at the text
  have hempty : some [] = some e → Continues (pure HMesgData.none : Scanner (HMesgData V)) e .none := by
    rintro ⟨⟩
    exact Continues.pure _
  have hstring : ∀ s, printstrSerial s = some e → Continues (do
      let s ← scanstrSerial
      return (HMesgData.string s : HMesgData V)) e (.string s) :=
    fun s hs => (reads_scanstrSerial hs).continues.bind_pure _ rfl
  have hpoint : ∀ pt : HPoint V, pt.Fits → hpointSerialize fmt pt = some e → Continues (do
      let pt ← hpointDeserialize fmt
      return (HMesgData.point pt : HMesgData V)) e (.point pt.sent) :=
    fun pt hpt hs => (reads_hpointDeserialize hpt hs).continues.bind_pure _ rfl
  cases type with
  | unknown => cases h
  | restart => exact ⟨.none, hempty h, by simp⟩
  | session =>
    by_cases hreq : status = .req
    · simp only [hreq, if_true] at h ⊢
      cases data with
      | session sess =>
        rcases reads_hsessionDeserialize hfits h with ⟨sess', hread, hsame⟩
        exact ⟨.session sess', hread.continues.bind_pure _ rfl, fun _ => hsame⟩
      | _ => cases h
    · simp only [hreq, if_false] at h ⊢
      exact ⟨.none, hempty h, by simp⟩
  | join =>
    cases data with
    | join sig =>
      exact ⟨.join sig, (reads_hsignatureDeserialize hfits h).continues.bind_pure _ rfl, fun _ => rfl⟩
    | _ => cases h
  | getcfg =>
    cases data with
    | string s => exact ⟨.string s, hstring s h, fun _ => rfl⟩
    | _ => cases h
  | setcfg =>
    cases data with
    | string s => exact ⟨.string s, hstring s h, fun _ => rfl⟩
    | _ => cases h
  | best =>
    by_cases hok : status = .ok ∨ status = .busy
    · simp only [hok, if_true] at h ⊢
      cases data with
      | point pt => exact ⟨.point pt.sent, hpoint pt hfits h, fun _ => rfl⟩
      | _ => cases h
    · simp only [hok, if_false] at h ⊢
      exact ⟨.none, hempty h, fun hc => absurd (by simpa using hc) hok⟩
  | fetch =>
    by_cases hok : status = .ok ∨ status = .busy
    · simp only [hok, if_true] at h ⊢
      cases data with
      | point pt => exact ⟨.point pt.sent, hpoint pt hfits h, fun _ => rfl⟩
      | _ => cases h
    · simp only [hok, if_false] at h ⊢
      exact ⟨.none, hempty h, fun hc => absurd (by simpa using hc) hok⟩
  | report =>
    by_cases hreq : status = .req
    · simp only [hreq, if_true] at h ⊢
      cases data with
      | report candId perf =>
        rcases bind_eq_some h with ⟨id, hid, h⟩
        rcases bind_eq_some h with ⟨ps, hperf, h⟩
        rcases snprintfSerial_eq_some hid with ⟨rfl, -⟩
        cases h
        refine ⟨.report candId perf, ?_, fun _ => rfl⟩
        refine (reads_scanD hfits.1).continues.bind ?_
        exact (reads_hperfDeserialize hfits.2 hperf).continues.bind_pure _ rfl
      | _ => cases h
    · simp only [hreq, if_false] at h ⊢
      exact ⟨.none, hempty h, by simp⟩

lemma hmesgTypeOfStr_str (type : HMesgType) : hmesgTypeOfStr type.str = some type := by
  cases type <;> decide

lemma hmesgStatusOfStr_str {status : HMesgStatus} {str : Bytes} (h : status.str = some str) :
    hmesgStatusOfStr str = some status := by
  cases status <;> cases h <;> decide

/-- The type and the status are words of three letters. -/
lemma letters_str (type : HMesgType) :
    type.str.length = 3 ∧ Solid type.str = true := by
  cases type <;> decide

lemma letters_statusStr {status : HMesgStatus} {str : Bytes} (h : status.str = some str) :
    str.length = 3 ∧ Solid str = true := by
  cases status <;> cases h <;> decide

lemma exactly_append (l rest : Bytes) : exactly l (l ++ rest) = some ((), rest) := by
  unfold exactly
  rw [if_pos (by rw [List.isPrefixOf_iff_prefix]; exact List.prefix_append ..), List.drop_left]

/-- The destination and the payload are those of the C types. -/
structure HMesg.Fits (mesg : HMesg V) : Prop where
  dest : IsInt mesg.dest
  data : mesg.data.Fits

/-- Whatever the payload is, it is read behind the fixed part. -/
lemma hmesgDeserializeBody_head {mesg : HMesg V} {body : Bytes} (hdest : IsInt mesg.dest)
    (h : hmesgSerializeBody fmt mesg = some body) : ∃ data, hmesgSerializeData fmt mesg = some data ∧
      hmesgDeserializeBody fmt body = (hmesgDeserializeData fmt mesg.type mesg.status (blank :: data)).map
        fun r => ({ mesg with data := r.1 }, r.2) := by
  rcases bind_eq_some h with ⟨statusStr, hstatus, h⟩
  rcases bind_eq_some h with ⟨head, hhead, h⟩
  rcases bind_eq_some h with ⟨src, hsrc, h⟩
  rcases bind_eq_some h with ⟨data, hdata, heq⟩
  rcases snprintfSerial_eq_some hhead with ⟨rfl, -⟩
  cases heq
  rcases letters_str mesg.type with ⟨htlen, htspace⟩
  rcases letters_statusStr hstatus with ⟨hslen, hsspace⟩
  refine ⟨data, hdata, ?_⟩
  -- the fields of the fixed part, one after the other
  have hcolon : ∀ rest, NoDigit (cstr ":" ++ rest) := fun rest => noDigit_cons (by decide)
  have hfirst : ∀ rest, literal (cstr ":") (cstr ":" ++ rest) = some ((), rest) := by
    intro rest
    have hskip : skipSpace (cstr ":" ++ rest) = cstr ":" ++ rest :=
      @skipSpace_append [] _ spaces_nil _ (by decide)
    unfold literal
    simp only [hskip]
    exact exactly_append (cstr ":") rest
  have hdest : ∀ rest, scanD (decimalInt mesg.dest ++ (cstr ":" ++ rest))
      = some (mesg.dest, cstr ":" ++ rest) :=
    fun rest => scanD_decimalInt hdest spaces_nil (hcolon rest)
  have htype := fun rest => @word_append rest _ _ (by decide) htlen htspace
  have hstat := fun rest => @word_append rest _ _ (by decide) hslen hsspace
  have hsrcId : scanstrSerial (src ++ data) = some (mesg.srcId, blank :: data) :=
    reads_scanstrSerial hsrc [] data spaces_nil
  simp only [List.append_assoc]
  unfold hmesgDeserializeBody
  rw [bind_eq_of_eq_some (hfirst _), bind_eq_of_eq_some (hdest _),
    bind_eq_of_eq_some (exactly_append _ _), bind_eq_of_eq_some (htype _),
    bind_eq_of_eq_some (exactly_append _ _), bind_eq_of_eq_some (hstat _),
    bind_eq_of_eq_some (exactly_append _ _), bind_eq_of_eq_some hsrcId, hmesgTypeOfStr_str,
    hmesgStatusOfStr_str hstatus]
  show (hmesgDeserializeData fmt mesg.type mesg.status (blank :: data)).bind _ = _
  cases hmesgDeserializeData fmt mesg.type mesg.status (blank :: data) with
  | none => rfl
  | some r => rfl

/-- A printed body is read back. -/
theorem hmesgDeserializeBody_serializeBody {mesg : HMesg V} {body : Bytes} (hfits : mesg.Fits)
    (h : hmesgSerializeBody fmt mesg = some body) :
    ∃ mesg' rest, hmesgDeserializeBody fmt body = some (mesg', rest) ∧
      mesg'.dest = mesg.dest ∧ mesg'.type = mesg.type ∧ mesg'.status = mesg.status ∧
      mesg'.srcId = mesg.srcId ∧
      (carriesData mesg.type mesg.status = true → mesg.data.SameAs mesg'.data) := by
  rcases hmesgDeserializeBody_head hfits.dest h with ⟨data, hdata, hread⟩
  rcases continues_hmesgDeserializeData hfits.data hdata with ⟨data', hdata', hsame⟩
  have hpayload := hdata' []
  rw [List.append_nil] at hpayload
  refine ⟨{ mesg with data := data' }, [blank], ?_, rfl, rfl, rfl, rfl, hsame⟩
  rw [hread, hpayload]
  rfl

lemma length_decimal_pos (n : ℕ) : 0 < (decimal n).length := by
  rcases decimal_head n with ⟨c, cs, hcs, -⟩
  rw [hcs, List.length_cons]
  omega

/-- The header has ten bytes whatever the length printed in it. -/
lemma length_hmesgHeader (total : ℕ) : (hmesgHeader total).length = hmesgHdrlen := by
  have hpos := length_decimal_pos total
  unfold hmesgHeader printD4 hmesgHdrlen
  simp only [List.length_append, List.length_drop, List.length_take, List.length_replicate]
  show 4 + (min 10 (4 + (4 - (decimal total).length + (decimal total).length + 2)) - 4) = 10
  omega

/-- A serialized message is its header and its body. -/
lemma hmesgSerialize_drop {mesg : HMesg V} {bytes : Bytes} (h : hmesgSerialize fmt mesg = some bytes) :
    hmesgSerializeBody fmt mesg = some (bytes.drop hmesgHdrlen) := by
  rcases bind_eq_some h with ⟨body, hbody, h⟩
  by_cases htotal : hmesgHdrlen + body.length ≤ intMax
  · simp only [htotal, if_true] at h
    cases h
    have hdrop : (hmesgHeader (hmesgHdrlen + body.length) ++ body).drop hmesgHdrlen = body := by
      exact List.drop_left' (length_hmesgHeader _)
    rw [hdrop]
    exact hbody
  · simp only [htotal, if_false] at h
    cases h

/-- Reading the body of a serialized message gives the same message. -/
theorem hmesgDeserializeBody_hmesgSerialize (mesg : HMesg V) (hfits : mesg.Fits) (bytes : Bytes)
    (h : hmesgSerialize fmt mesg = some bytes) :
    ∃ mesg' rest, hmesgDeserializeBody fmt (bytes.drop hmesgHdrlen) = some (mesg', rest) ∧
      mesg'.dest = mesg.dest ∧ mesg'.type = mesg.type ∧ mesg'.status = mesg.status ∧
      mesg'.srcId = mesg.srcId ∧
      (carriesData mesg.type mesg.status = true → mesg.data.SameAs mesg'.data) :=
  hmesgDeserializeBody_serializeBody hfits (hmesgSerialize_drop h)

/-! ## An example session

The doubles `2 ^ e` and their `%la` texts make a format that prints and scans exactly. -/

/-- `%la` on the powers of two, given by their exponents: `0x1p+3` is 8. -/
def powerOfTwoFormat : LaFormat ℤ where
  print e := cstr "0x1p" ++ ((if e < 0 then 45 else 43) :: decimal e.natAbs)
  scan := do
    exactly (cstr "0x1p")
    integer
  print_head e := ⟨48, _, rfl, by decide⟩
  scan_print e rest := by
    rw [List.append_assoc, bind_eq_of_eq_some (exactly_append _ _), List.cons_append]
    by_cases he : e < 0
    · have hint := @integer_decimalInt [] (blank :: rest) e spaces_nil noDigit_blank
      rw [decimalInt, if_pos he] at hint
      rw [if_pos he]
      exact hint
    · have hskip : skipSpace (43 :: (decimal e.natAbs ++ blank :: rest))
          = 43 :: (decimal e.natAbs ++ blank :: rest) :=
        @skipSpace_append [] _ spaces_nil _ (by decide)
      have hsign : sign (43 :: (decimal e.natAbs ++ blank :: rest))
          = (false, decimal e.natAbs ++ blank :: rest) := rfl
      rw [if_neg he]
      unfold integer
      simp only [hskip, hsign, digits_decimal _ noDigit_blank]
      show some ((e.natAbs : ℤ), blank :: rest) = some (e, blank :: rest)
      rw [Int.natAbs_of_nonneg (by omega)]

/-- The store with the strategy of a session set. -/
def strategyCfg : Hcfg :=
  ((hcfgSet hcfgAlloc (cstr "SESSION_STRATEGY") (some (cstr "nm.so"))).map Prod.snd).getD hcfgAlloc

lemma strategyCfg_insertOnly : InsertOnly strategyCfg :=
  @InsertOnly.set _ _ (cstr "SESSION_STRATEGY") (cstr "nm.so") 0 .alloc (by decide +kernel)

/-- A request for a session with one range of each type. -/
def sessionRequest : HMesg ℤ where
  dest := -1
  type := .session
  status := .req
  srcId := none
  data := .session
    { sig :=
        { name := some (cstr "blocked \"loop\"")
          range := [{ name := some (cstr "tile"), bounds := .int (-8) 64 4 },
            { name := some (cstr ""), bounds := .real (-1) 3 (-2) },
            { name := some (cstr "order"), bounds := .str [cstr "", cstr "0", cstr "i j"] }] }
      cfg := strategyCfg }

lemma sessionRequest_fits : sessionRequest.Fits where
  dest := by decide
  data :=
    { sig :=
        { name := rfl
          length := by decide
          range := by
            intro r hr
            simp only [List.mem_cons, List.not_mem_nil, or_false] at hr
            rcases hr with rfl | rfl | rfl
            · exact ⟨rfl, by decide, by decide, by decide⟩
            · exact ⟨rfl, trivial⟩
            · exact ⟨rfl, by show (_ : ℕ) ≤ intMax; decide⟩ }
      cfg := strategyCfg_insertOnly }

/-- The session request is accepted and read back. -/
theorem sessionRequest_roundTrip : ∃ bytes, hmesgSerialize powerOfTwoFormat sessionRequest = some bytes ∧
    ∃ mesg' rest, hmesgDeserializeBody powerOfTwoFormat (bytes.drop hmesgHdrlen) = some (mesg', rest) ∧
      mesg'.dest = -1 ∧ mesg'.type = .session ∧ mesg'.status = .req ∧ mesg'.srcId = none ∧
      (carriesData .session .req = true → sessionRequest.data.SameAs mesg'.data) := by
  have haccept : (hmesgSerialize powerOfTwoFormat sessionRequest).isSome = true := by decide +kernel
  rcases Option.isSome_iff_exists.mp haccept with ⟨bytes, hbytes⟩
  exact ⟨bytes, hbytes,
    hmesgDeserializeBody_hmesgSerialize sessionRequest sessionRequest_fits bytes hbytes⟩

end ActiveHarmony
