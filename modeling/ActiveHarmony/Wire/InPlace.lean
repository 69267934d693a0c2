import ActiveHarmony.Lib.EditScan
import ActiveHarmony.Wire.Reception

/-!
# Deserializers and their buffer

`scanstr_serial` ends a string by a NUL that it writes over the quotation mark behind it. Here the
deserializers are modelled with the buffer that they read from and write to. They return what they return
without it, and `hmesgDeserializeInPlace_marks` says that they leave a NUL in the buffer of a message
exactly if one of its strings is not `NULL`.
-/

namespace ActiveHarmony

open TextScan

/-! ## The deserializers -/

/-- `scanstr_serial`, at `total` in the buffer. -/
def scanstrSerialInPlace : Editor (Option Bytes) := fun s =>
  let (buf, total) := s
  match scanU (buf.drop total) with
  | none => none
  | some (_, []) => none
  | some (len, c :: rest) =>
    if c ≠ 34 then none
    else
      -- `buf += count`
      let pos := buf.length - rest.length
      if len = 0 ∧ rest.head? = some 48 then some (none, (buf, pos + 2))
      else if len < rest.length ∧ rest[len]? = some 34 then
        some (some (rest.take len), (buf.set (pos + len) 0, pos + len + 1))
      else none

/-- `scanstr_serial` and `stralloc`. -/
def scanstrAllocInPlace : Editor Bytes := do
  match ← scanstrSerialInPlace with
  | some str => return str
  | none => failure

variable {V : Type} (fmt : LaFormat V)

/-- `hval_deserialize`. -/
def hvalDeserializeInPlace : Editor (HVal V) := do
  reading (literal (cstr "hval:"))
  let typeStr ← reading (word 3)
  if typeStr = cstr "INT" then
    let i ← reading scanLd
    return .int i
  else if typeStr = cstr "REL" then
    let r ← reading (scanLa fmt)
    return .real r
  else if typeStr = cstr "STR" then
    let s ← scanstrSerialInPlace
    return .str s
  else failure

/-- `hpoint_deserialize`. -/
def hpointDeserializeInPlace : Editor (HPoint V) := do
  reading (literal (cstr "hpoint:"))
  let id ← reading scanD
  if id ≥ 0 then
    let n ← reading scanD
    let val ← timesEditor (hvalDeserializeInPlace fmt) n.toNat
    return { id := id, val := val }
  else return { hpointInitializer V with id := id }

/-- The type and the bounds part of `hrange_deserialize`. -/
def hboundsDeserializeInPlace : Editor (HBounds V) := do
  let typeStr ← reading (word 3)
  if typeStr = cstr "INT" then
    let min ← reading scanLd
    let max ← reading scanLd
    let step ← reading scanLd
    return .int min max step
  else if typeStr = cstr "REL" then
    let min ← reading (scanLa fmt)
    let max ← reading (scanLa fmt)
    let step ← reading (scanLa fmt)
    return .real min max step
  else if typeStr = cstr "STR" then
    let setLen ← reading scanD
    let set ← timesEditor scanstrAllocInPlace setLen.toNat
    return .str set
  else failure

/-- `hrange_deserialize`. -/
def hrangeDeserializeInPlace : Editor (HRange V) := do
  reading (literal (cstr "range:"))
  let name ← scanstrAllocInPlace
  let bounds ← hboundsDeserializeInPlace fmt
  return { name := some name, bounds := bounds }

/-- `hsignature_deserialize`. -/
def hsignatureDeserializeInPlace : Editor (HSignature V) := do
  reading (literal (cstr "sig:"))
  let name ← scanstrAllocInPlace
  let rangeLen ← reading scanD
  let range ← timesEditor (hrangeDeserializeInPlace fmt) rangeLen.toNat
  return { name := some name, range := range }

/-- The loop of `hcfg_deserialize`. -/
def hcfgDeserializeLoopInPlace : ℕ → Hcfg → Editor Hcfg
  | 0, cfg => return cfg
  | kcount + 1, cfg => do
    let key ← scanstrSerialInPlace
    let val ← scanstrSerialInPlace
    match key with
    | none => failure
    | some key =>
      match hcfgSet cfg key val with
      | none => failure
      | some (ret, cfg) => if ret < 0 then failure else hcfgDeserializeLoopInPlace kcount cfg

/-- `hcfg_deserialize`. -/
def hcfgDeserializeInPlace (cfg : Hcfg) : Editor Hcfg := do
  reading (literal (cstr "hcfg:"))
  let kcount ← reading scanU
  let logsize ← reading scanU
  match hashResize cfg logsize with
  | none => failure
  | some cfg => hcfgDeserializeLoopInPlace kcount cfg

/-- `hsession_deserialize`, after `hsession_init`. -/
def hsessionDeserializeInPlace : Editor (HSession V) := do
  reading (literal (cstr "session:"))
  let sig ← hsignatureDeserializeInPlace fmt
  let cfg ← hcfgDeserializeInPlace hcfgAlloc
  return { sig := sig, cfg := cfg }

/-- The payload part of `hmesg_deserialize`. -/
def hmesgDeserializeDataInPlace (type : HMesgType) (status : HMesgStatus) : Editor (HMesgData V) :=
  if status = .fail then do
    let s ← scanstrSerialInPlace
    return .string s
  else
    match type with
    | .session =>
      if status = .req then do
        let sess ← hsessionDeserializeInPlace fmt
        return .session sess
      else return .none
    | .join => do
      let sig ← hsignatureDeserializeInPlace fmt
      return .join sig
    | .getcfg | .setcfg => do
      let s ← scanstrSerialInPlace
      return .string s
    | .best | .fetch =>
      if status = .ok ∨ status = .busy then do
        let pt ← hpointDeserializeInPlace fmt
        return .point pt
      else return .none
    | .report =>
      if status = .req then do
        let candId ← reading scanD
        let perf ← reading (hperfDeserialize fmt)
        return .report candId perf
      else return .none
    | .restart => return .none
    | .unknown => failure

/-- What `hmesg_deserialize` reads after the header. -/
def hmesgDeserializeBodyInPlace : Editor (HMesg V) := do
  reading (literal (cstr ":"))
  let dest ← reading scanD
  reading (exactly (cstr ":"))
  let typeStr ← reading (word 3)
  reading (exactly (cstr ":"))
  let statusStr ← reading (word 3)
  reading (exactly (cstr ":"))
  let srcId ← scanstrSerialInPlace
  match hmesgTypeOfStr typeStr, hmesgStatusOfStr statusStr with
  | some type, some status =>
    let data ← hmesgDeserializeDataInPlace fmt type status
    return { dest := dest, type := type, status := status, srcId := srcId, data := data }
  | _, _ => failure

/-- `hmesg_deserialize`: the message, and the buffer it leaves. -/
def hmesgDeserializeInPlace (buf : Bytes) : Option (HMesg V × Bytes) :=
  match hmesgDeserializeHeader buf with
  | none => none
  | some _ => (hmesgDeserializeBodyInPlace fmt (buf, hmesgHdrlen)).map fun r => (r.1, r.2.1)

/-- `mesg_recv`: with the message, what its bytes are in the buffer afterwards. -/
def mesgRecvInPlace (stack : Bytes) (peek : Recv) (as : List Recv) :
    Option (ℤ × Option (HMesg V × Bytes) × List Recv) :=
  match peek with
  | .intr => some (-1, none, as)
  | .error => some (-1, none, as)
  | .data seen =>
    if seen = [] then some (0, none, as)
    else
      match peekedLength (peekedHeader stack seen) with
      | none => some (-1, none, as)
      | some msglen =>
        match socketRead (msglen % 2 ^ 32).toNat as with
        | none => none
        | some (none, as) => some (-1, none, as)
        | some (some buf, as) =>
          if buf = [] then some (0, none, as)
          else if (buf.length : ℤ) < msglen then some (-1, none, as)
          else
            match hmesgDeserializeInPlace fmt buf with
            | none => some (-1, none, as)
            | some (mesg, buf) => some (1, some (mesg, buf), as)

/-! ## The same values are read -/

/-- `%la` prints no NUL, and leaves the end of the text it scans. -/
structure LaFormat.Textual (fmt : LaFormat V) : Prop where
  print_terminated : ∀ v, 0 ∉ fmt.print v
  scan_suffixed : Suffixed fmt.scan

lemma suffixed_scanD : Suffixed scanD := suffixed_integer.bind fun _ => Suffixed.pure _

lemma suffixed_scanLd : Suffixed scanLd := suffixed_integer.bind fun _ => Suffixed.pure _

lemma suffixed_scanU : Suffixed scanU := suffixed_integer.bind fun _ => Suffixed.pure _

lemma suffixed_exactly (l : Bytes) : Suffixed (exactly l) := by
  intro buf a rest h
  unfold exactly at h
  split_ifs at h
  cases h
  exact List.drop_suffix _ _

/-- The part of a buffer in front of what is left is not read again. -/
lemma drop_set_length_sub {buf rest : Bytes} {k n : ℕ} (h : rest <:+ buf) (hk : k < n) :
    (buf.set (buf.length - rest.length + k) 0).drop (buf.length - rest.length + n) = rest.drop n := by
  rw [List.drop_set_of_lt (by omega), ← List.drop_drop, ← List.suffix_iff_eq_drop.mp h]

lemma scanstrSerial_tracks : Tracks scanstrSerialInPlace scanstrSerial := by
  rintro ⟨buf, total⟩
  unfold scanstrSerialInPlace scanstrSerial
  dsimp only
  cases hlen : scanU (buf.drop total) with
  | none => rfl
  | some r =>
    obtain ⟨len, _ | ⟨c, rest⟩⟩ := r
    · rfl
    have hsuffix : rest <:+ buf := (List.suffix_cons c rest).trans
      ((suffixed_scanU _ _ _ hlen).trans (List.drop_suffix total buf))
    have hdrop : buf.drop (buf.length - rest.length + 2) = rest.drop 2 := by
      rw [← List.drop_drop, ← List.suffix_iff_eq_drop.mp hsuffix]
    dsimp only
    split_ifs
    · rfl
    · exact congrArg (fun text => some (none, text)) hdrop
    · exact congrArg (fun text => some (some (rest.take len), text))
        (drop_set_length_sub hsuffix (Nat.lt_succ_self len))
    · rfl

lemma scanstrAlloc_tracks : Tracks scanstrAllocInPlace scanstrAlloc := by
  refine Tracks.bind scanstrSerial_tracks fun str => ?_
  cases str with
  | none => exact Tracks.failure
  | some str => exact Tracks.pure str

variable {fmt}

lemma suffixed_scanLa (hla : fmt.Textual) : Suffixed (scanLa fmt) := fun buf v rest h =>
  (hla.scan_suffixed _ v rest h).trans (skipSpace_suffix buf)

lemma suffixed_hperfDeserialize (hla : fmt.Textual) : Suffixed (hperfDeserialize fmt) :=
  (suffixed_literal _).bind fun _ => Suffixed.bind suffixed_scanD fun n =>
    ((suffixed_scanLa hla).times n.toNat).bind fun _ => Suffixed.pure _

lemma hvalDeserialize_tracks (hla : fmt.Textual) :
    Tracks (hvalDeserializeInPlace fmt) (hvalDeserialize fmt) := by
  refine (Tracks.reading (suffixed_literal _)).bind fun _ => ?_
  refine (Tracks.reading (suffixed_word 3)).bind fun typeStr => ?_
  split_ifs
  · exact (Tracks.reading suffixed_scanLd).bind fun _ => Tracks.pure _
  · exact (Tracks.reading (suffixed_scanLa hla)).bind fun _ => Tracks.pure _
  · exact Tracks.bind scanstrSerial_tracks fun _ => Tracks.pure _
  · exact Tracks.failure

lemma hpointDeserialize_tracks (hla : fmt.Textual) :
    Tracks (hpointDeserializeInPlace fmt) (hpointDeserialize fmt) := by
  refine (Tracks.reading (suffixed_literal _)).bind fun _ => ?_
  refine (Tracks.reading suffixed_scanD).bind fun id => ?_
  split_ifs
  · refine (Tracks.reading suffixed_scanD).bind fun n => ?_
    exact ((hvalDeserialize_tracks hla).times n.toNat).bind fun _ => Tracks.pure _
  · exact Tracks.pure _

lemma hboundsDeserialize_tracks (hla : fmt.Textual) :
    Tracks (hboundsDeserializeInPlace fmt) (hboundsDeserialize fmt) := by
  have hld := Tracks.reading suffixed_scanLd
  have hreal := Tracks.reading (suffixed_scanLa hla)
  refine (Tracks.reading (suffixed_word 3)).bind fun typeStr => ?_
  split_ifs
  · exact hld.bind fun _ => hld.bind fun _ => hld.bind fun _ => Tracks.pure _
  · exact hreal.bind fun _ => hreal.bind fun _ => hreal.bind fun _ => Tracks.pure _
  · refine (Tracks.reading suffixed_scanD).bind fun setLen => ?_
    exact (Tracks.times scanstrAlloc_tracks setLen.toNat).bind fun _ => Tracks.pure _
  · exact Tracks.failure

lemma hrangeDeserialize_tracks (hla : fmt.Textual) :
    Tracks (hrangeDeserializeInPlace fmt) (hrangeDeserialize fmt) := by
  refine (Tracks.reading (suffixed_literal _)).bind fun _ => ?_
  refine Tracks.bind scanstrAlloc_tracks fun name => ?_
  exact (hboundsDeserialize_tracks hla).bind fun _ => Tracks.pure _

lemma hsignatureDeserialize_tracks (hla : fmt.Textual) :
    Tracks (hsignatureDeserializeInPlace fmt) (hsignatureDeserialize fmt) := by
  refine (Tracks.reading (suffixed_literal _)).bind fun _ => ?_
  refine Tracks.bind scanstrAlloc_tracks fun name => ?_
  refine (Tracks.reading suffixed_scanD).bind fun rangeLen => ?_
  exact ((hrangeDeserialize_tracks hla).times rangeLen.toNat).bind fun _ => Tracks.pure _

lemma hcfgDeserializeLoop_tracks (kcount : ℕ) (cfg : Hcfg) :
    Tracks (hcfgDeserializeLoopInPlace kcount cfg) (hcfgDeserializeLoop kcount cfg) := by
  induction kcount generalizing cfg with
  | zero => exact Tracks.pure cfg
  | succ kcount ih =>
    refine Tracks.bind scanstrSerial_tracks fun key => Tracks.bind scanstrSerial_tracks fun val => ?_
    cases key with
    | none => exact Tracks.failure
    | some key =>
      dsimp only
      cases hcfgSet cfg key val with
      | none => exact Tracks.failure
      | some r =>
        dsimp only
        split_ifs
        · exact Tracks.failure
        · exact ih r.2

lemma hcfgDeserialize_tracks (cfg : Hcfg) : Tracks (hcfgDeserializeInPlace cfg) (hcfgDeserialize cfg) := by
  refine (Tracks.reading (suffixed_literal _)).bind fun _ => ?_
  refine (Tracks.reading suffixed_scanU).bind fun kcount => ?_
  refine (Tracks.reading suffixed_scanU).bind fun logsize => ?_
  cases hashResize cfg logsize with
  | none => exact Tracks.failure
  | some cfg => exact hcfgDeserializeLoop_tracks kcount cfg

lemma hsessionDeserialize_tracks (hla : fmt.Textual) :
    Tracks (hsessionDeserializeInPlace fmt) (hsessionDeserialize fmt) := by
  refine (Tracks.reading (suffixed_literal _)).bind fun _ => ?_
  refine (hsignatureDeserialize_tracks hla).bind fun sig => ?_
  exact (hcfgDeserialize_tracks hcfgAlloc).bind fun _ => Tracks.pure _

lemma hmesgDeserializeData_tracks (hla : fmt.Textual) (type : HMesgType) (status : HMesgStatus) :
    Tracks (hmesgDeserializeDataInPlace fmt type status) (hmesgDeserializeData fmt type status) := by
  have hstring : Tracks (scanstrSerialInPlace >>= fun s => pure (HMesgData.string s : HMesgData V))
      (scanstrSerial >>= fun s => pure (HMesgData.string s)) :=
    Tracks.bind scanstrSerial_tracks fun _ => Tracks.pure _
  have hpoint : Tracks (hpointDeserializeInPlace fmt >>= fun pt => pure (HMesgData.point pt))
      (hpointDeserialize fmt >>= fun pt => pure (HMesgData.point pt)) :=
    (hpointDeserialize_tracks hla).bind fun _ => Tracks.pure _
  unfold hmesgDeserializeDataInPlace hmesgDeserializeData
  by_cases hfail : status = .fail
  · rw [if_pos hfail, if_pos hfail]
    exact hstring
  rw [if_neg hfail, if_neg hfail]
  cases type with
  | unknown => exact Tracks.failure
  | restart => exact Tracks.pure _
  | session =>
    dsimp only
    split_ifs
    · exact (hsessionDeserialize_tracks hla).bind fun _ => Tracks.pure _
    · exact Tracks.pure _
  | join => exact (hsignatureDeserialize_tracks hla).bind fun _ => Tracks.pure _
  | getcfg => exact hstring
  | setcfg => exact hstring
  | best =>
    dsimp only
    split_ifs
    · exact hpoint
    · exact Tracks.pure _
  | fetch =>
    dsimp only
    split_ifs
    · exact hpoint
    · exact Tracks.pure _
  | report =>
    dsimp only
    split_ifs
    · refine (Tracks.reading suffixed_scanD).bind fun candId => ?_
      exact (Tracks.reading (suffixed_hperfDeserialize hla)).bind fun _ => Tracks.pure _
    · exact Tracks.pure _

lemma hmesgDeserializeBody_tracks (hla : fmt.Textual) :
    Tracks (hmesgDeserializeBodyInPlace fmt) (hmesgDeserializeBody fmt) := by
  have hcolon := Tracks.reading (suffixed_exactly (cstr ":"))
  have hword := Tracks.reading (suffixed_word 3)
  refine (Tracks.reading (suffixed_literal _)).bind fun _ => ?_
  refine (Tracks.reading suffixed_scanD).bind fun dest => hcolon.bind fun _ => ?_
  refine hword.bind fun typeStr => hcolon.bind fun _ => ?_
  refine hword.bind fun statusStr => hcolon.bind fun _ => ?_
  refine Tracks.bind scanstrSerial_tracks fun srcId => ?_
  cases hmesgTypeOfStr typeStr with
  | none => exact Tracks.failure
  | some type =>
    cases hmesgStatusOfStr statusStr with
    | none => exact Tracks.failure
    | some status => exact (hmesgDeserializeData_tracks hla type status).bind fun _ => Tracks.pure _

/-- The message does not depend on what is written into the buffer. -/
theorem hmesgDeserializeInPlace_fst (hla : fmt.Textual) (buf : Bytes) :
    (hmesgDeserializeInPlace fmt buf).map Prod.fst = hmesgDeserialize fmt buf := by
  unfold hmesgDeserializeInPlace hmesgDeserialize
  cases hmesgDeserializeHeader buf with
  | none => rfl
  | some version =>
    dsimp only
    rw [← hmesgDeserializeBody_tracks hla (buf, hmesgHdrlen), Option.map_map, Option.map_map]
    rfl

theorem mesgRecvInPlace_fst (hla : fmt.Textual) (stack : Bytes) (peek : Recv) (as : List Recv) :
    (mesgRecvInPlace fmt stack peek as).map (fun r => (r.1, r.2.1.map Prod.fst, r.2.2)) =
      mesgRecv fmt stack peek as := by
  unfold mesgRecvInPlace mesgRecv
  cases peek with
  | intr => rfl
  | error => rfl
  | data seen =>
    dsimp only
    split_ifs
    · rfl
    cases peekedLength (peekedHeader stack seen) with
    | none => rfl
    | some msglen =>
      dsimp only
      cases socketRead (msglen % 2 ^ 32).toNat as with
      | none => rfl
      | some r =>
        obtain ⟨_ | buf, as⟩ := r
        · rfl
        dsimp only
        split_ifs
        · rfl
        · rfl
        · rw [← hmesgDeserializeInPlace_fst hla buf]
          cases hmesgDeserializeInPlace fmt buf with
          | none => rfl
          | some r => rfl

/-! ## Strings in messages -/

/-- The value is a string that is not `NULL`. -/
def HVal.hasString : HVal V → Bool
  | .str s => s.isSome
  | _ => false

/-- The payload has a string that is not `NULL`: a signature has its name, and a session its signature. -/
def HMesgData.hasString : HMesgData V → Bool
  | .session _ => true
  | .join _ => true
  | .point pt => pt.sent.val.any HVal.hasString
  | .string s => s.isSome
  | _ => false

/-- The message is sent with a string that is not `NULL`. -/
def HMesg.hasString (mesg : HMesg V) : Bool :=
  mesg.srcId.isSome || (carriesData mesg.type mesg.status && mesg.data.hasString)

lemma HPoint.sent_sent (pt : HPoint V) : pt.sent.sent = pt.sent := by
  by_cases hid : pt.id ≥ 0
  · have hsent : pt.sent = pt := if_pos hid
    rw [hsent, hsent]
  · have hsent : pt.sent = { hpointInitializer V with id := pt.id } := if_neg hid
    rw [hsent]
    exact if_neg hid

lemma HMesgData.SameAs.hasString_eq {data data' : HMesgData V} (h : data.SameAs data') :
    data'.hasString = data.hasString := by
  cases data with
  | session sess =>
    cases data' with
    | session sess' => rfl
    | _ => cases h
  | point pt =>
    cases data' with
    | point pt' =>
      have hpt : pt' = pt.sent := h
      show pt'.sent.val.any HVal.hasString = pt.sent.val.any HVal.hasString
      rw [hpt, pt.sent_sent]
    | _ => cases h
  | none => rw [show data' = .none from h]
  | join sig => rw [show data' = .join sig from h]
  | report candId perf => rw [show data' = .report candId perf from h]
  | string s => rw [show data' = .string s from h]

/-! ## What is written -/

lemma scanstrSerialInPlace_marks : Marks 0 scanstrSerialInPlace fun s => s.isSome = true := by
  rintro ⟨buf, total⟩ str ⟨buf', total'⟩ h
  unfold scanstrSerialInPlace at h
  dsimp only at h
  cases hlen : scanU (buf.drop total) with
  | none =>
    rw [hlen] at h
    cases h
  | some r =>
    obtain ⟨len, _ | ⟨c, rest⟩⟩ := r
    · rw [hlen] at h
      cases h
    have hsuffix : rest <:+ buf := (List.suffix_cons c rest).trans
      ((suffixed_scanU _ _ _ hlen).trans (List.drop_suffix total buf))
    have hle := hsuffix.length_le
    rw [hlen] at h
    dsimp only at h
    split_ifs at h with hquote hnull hstr
    · cases h
      exact ⟨fun hsome => absurd hsome Bool.false_ne_true, fun _ => rfl⟩
    · cases h
      refine ⟨fun _ => ?_, fun hnot => absurd rfl hnot⟩
      have hlt : buf.length - rest.length + len < buf.length := by omega
      exact ⟨List.length_set, List.mem_iff_getElem?.mpr ⟨_, List.getElem?_set_self hlt⟩⟩

lemma scanstrAllocInPlace_marks : Marks 0 scanstrAllocInPlace fun _ => True := by
  intro s a s' h
  obtain ⟨⟨str, s₁⟩, hscan, hrest⟩ := Option.bind_eq_some_iff.mp h
  cases str with
  | none => cases hrest
  | some str =>
    cases hrest
    exact ⟨fun _ => (scanstrSerialInPlace_marks s (some a) s' hscan).1 rfl, fun hnot => absurd trivial hnot⟩

variable (fmt)

lemma hvalDeserializeInPlace_marks : Marks 0 (hvalDeserializeInPlace fmt) fun v => v.hasString = true := by
  refine (Marks.reading _).after fun _ => (Marks.reading _).after fun typeStr => ?_
  split_ifs
  · exact (Marks.reading _).map fun _ => by simp [HVal.hasString]
  · exact (Marks.reading _).map fun _ => by simp [HVal.hasString]
  · exact Marks.map scanstrSerialInPlace_marks fun _ => Iff.rfl
  · exact Marks.failure

lemma hpointDeserializeInPlace_marks :
    Marks 0 (hpointDeserializeInPlace fmt) fun pt => pt.sent.val.any HVal.hasString = true := by
  refine (Marks.reading _).after fun _ => (Marks.reading _).after fun id => ?_
  by_cases hid : id ≥ 0
  · rw [if_pos hid]
    refine (Marks.reading _).after fun n => ?_
    refine ((hvalDeserializeInPlace_marks fmt).times n.toNat).map fun val => ?_
    unfold HPoint.sent
    rw [if_pos hid, List.any_eq_true]
  · rw [if_neg hid]
    refine Marks.pure ?_
    unfold HPoint.sent
    rw [if_neg hid]
    exact Bool.false_ne_true

lemma hboundsDeserializeInPlace_keeps : Keeps 0 (hboundsDeserializeInPlace fmt) := by
  have hld := @Keeps.reading _ 0 scanLd
  have hreal := @Keeps.reading _ 0 (scanLa fmt)
  refine (Keeps.reading _).bind fun typeStr => ?_
  split_ifs
  · exact hld.bind fun _ => hld.bind fun _ => hld.bind fun _ => Keeps.pure _
  · exact hreal.bind fun _ => hreal.bind fun _ => hreal.bind fun _ => Keeps.pure _
  · refine (Keeps.reading _).bind fun setLen => ?_
    exact ((Marks.keeps scanstrAllocInPlace_marks).times setLen.toNat).bind fun _ => Keeps.pure _
  · exact Keeps.failure

lemma hrangeDeserializeInPlace_keeps : Keeps 0 (hrangeDeserializeInPlace fmt) := by
  refine (Keeps.reading _).bind fun _ => (Marks.keeps scanstrAllocInPlace_marks).bind fun name => ?_
  exact (hboundsDeserializeInPlace_keeps fmt).bind fun _ => Keeps.pure _

lemma hcfgDeserializeLoopInPlace_keeps (kcount : ℕ) (cfg : Hcfg) :
    Keeps 0 (hcfgDeserializeLoopInPlace kcount cfg) := by
  have hstr := Marks.keeps scanstrSerialInPlace_marks
  induction kcount generalizing cfg with
  | zero => exact Keeps.pure cfg
  | succ kcount ih =>
    refine hstr.bind fun key => hstr.bind fun val => ?_
    cases key with
    | none => exact Keeps.failure
    | some key =>
      dsimp only
      cases hcfgSet cfg key val with
      | none => exact Keeps.failure
      | some r =>
        dsimp only
        split_ifs
        · exact Keeps.failure
        · exact ih r.2

lemma hcfgDeserializeInPlace_keeps (cfg : Hcfg) : Keeps 0 (hcfgDeserializeInPlace cfg) := by
  refine (Keeps.reading _).bind fun _ => (Keeps.reading _).bind fun kcount => ?_
  refine (Keeps.reading _).bind fun logsize => ?_
  cases hashResize cfg logsize with
  | none => exact Keeps.failure
  | some cfg => exact hcfgDeserializeLoopInPlace_keeps kcount cfg

/-- The name of a signature is always written behind. -/
lemma hsignatureDeserializeInPlace_marks : Marks 0 (hsignatureDeserializeInPlace fmt) fun _ => True := by
  refine (Marks.reading _).after fun _ => Marks.bind_always scanstrAllocInPlace_marks fun name => ?_
  refine (Keeps.reading _).bind fun rangeLen => ?_
  exact ((hrangeDeserializeInPlace_keeps fmt).times rangeLen.toNat).bind fun _ => Keeps.pure _

lemma hsessionDeserializeInPlace_marks : Marks 0 (hsessionDeserializeInPlace fmt) fun _ => True := by
  refine (Marks.reading _).after fun _ => (hsignatureDeserializeInPlace_marks fmt).bind_always fun sig => ?_
  exact (hcfgDeserializeInPlace_keeps hcfgAlloc).bind fun _ => Keeps.pure _

lemma hmesgDeserializeDataInPlace_marks (type : HMesgType) (status : HMesgStatus) :
    Marks 0 (hmesgDeserializeDataInPlace fmt type status) fun data =>
      carriesData type status = true ∧ data.hasString = true := by
  have hnone : Marks 0 (pure HMesgData.none : Editor (HMesgData V)) fun data =>
      carriesData type status = true ∧ data.hasString = true := Marks.pure fun h => Bool.false_ne_true h.2
  have hstring (hcarries : carriesData type status = true) :
      Marks 0 (scanstrSerialInPlace >>= fun s => pure (HMesgData.string s : HMesgData V)) fun data =>
        carriesData type status = true ∧ data.hasString = true :=
    Marks.map scanstrSerialInPlace_marks fun s => and_iff_right hcarries
  have hpoint (hcarries : carriesData type status = true) :
      Marks 0 (hpointDeserializeInPlace fmt >>= fun pt => pure (HMesgData.point pt)) fun data =>
        carriesData type status = true ∧ data.hasString = true :=
    (hpointDeserializeInPlace_marks fmt).map fun pt => and_iff_right hcarries
  unfold hmesgDeserializeDataInPlace
  by_cases hfail : status = .fail
  · rw [if_pos hfail]
    exact hstring (by simp [carriesData, hfail])
  rw [if_neg hfail]
  cases type with
  | unknown => exact Marks.failure
  | restart => exact hnone
  | session =>
    dsimp only
    split_ifs with hreq
    · exact (hsessionDeserializeInPlace_marks fmt).map fun sess => by
        simp [carriesData, hreq, HMesgData.hasString]
    · exact hnone
  | join =>
    exact (hsignatureDeserializeInPlace_marks fmt).map fun sig => by
      simp [carriesData, HMesgData.hasString]
  | getcfg => exact hstring (by simp [carriesData])
  | setcfg => exact hstring (by simp [carriesData])
  | best =>
    dsimp only
    split_ifs with hok
    · exact hpoint (by simpa [carriesData, hfail] using hok)
    · exact hnone
  | fetch =>
    dsimp only
    split_ifs with hok
    · exact hpoint (by simpa [carriesData, hfail] using hok)
    · exact hnone
  | report =>
    dsimp only
    split_ifs
    · refine (Marks.reading _).after fun candId => (Marks.reading _).map fun perf => ?_
      simp [HMesgData.hasString]
    · exact hnone

lemma hmesgDeserializeBodyInPlace_marks :
    Marks 0 (hmesgDeserializeBodyInPlace fmt) fun mesg => mesg.hasString = true := by
  refine (Marks.reading _).after fun _ => (Marks.reading _).after fun dest => ?_
  refine (Marks.reading _).after fun _ => (Marks.reading _).after fun typeStr => ?_
  refine (Marks.reading _).after fun _ => (Marks.reading _).after fun statusStr => ?_
  refine (Marks.reading _).after fun _ => ?_
  have hrefused : Marks 0 (scanstrSerialInPlace >>= fun _ => (failure : Editor (HMesg V)))
      fun mesg => mesg.hasString = true := by
    intro s a s' h
    obtain ⟨r, -, hfail⟩ := Option.bind_eq_some_iff.mp h
    cases hfail
  cases hmesgTypeOfStr typeStr with
  | none => exact hrefused
  | some type =>
    cases hmesgStatusOfStr statusStr with
    | none => exact hrefused
    | some status =>
      have hdata := hmesgDeserializeDataInPlace_marks fmt type status
      refine Marks.pair scanstrSerialInPlace_marks hdata fun srcId data => ?_
      unfold HMesg.hasString
      rw [Bool.or_eq_true, Bool.and_eq_true]

variable {fmt}

/-! ## Messages in their buffer -/

/-- The numbers of a point and of a report are those of their C types. -/
def HMesgData.InRange : HMesgData V → Prop
  | .point pt => pt.Fits
  | .report candId perf => IsInt candId ∧ perf.Fits
  | _ => True

structure HMesg.InRange (mesg : HMesg V) : Prop where
  dest : IsInt mesg.dest
  data : mesg.data.InRange

/-- A message that carries nothing is read without looking at the text. -/
lemma hmesgDeserializeData_uncarried {mesg : HMesg V} {e : Bytes} (h : hmesgSerializeData fmt mesg = some e)
    (hno : carriesData mesg.type mesg.status = false) (buf : Bytes) :
    hmesgDeserializeData fmt mesg.type mesg.status buf = some (.none, buf) := by
  obtain ⟨dest, type, status, srcId, data⟩ := mesg
  have hfail : status ≠ .fail := by
    rintro rfl
    cases hno
  unfold hmesgSerializeData at h
  unfold hmesgDeserializeData
  rw [if_neg hfail] at h ⊢
  cases type with
  | unknown => cases h
  | restart => rfl
  | session => exact congrFun (if_neg (by simpa [carriesData, hfail] using hno)) buf
  | join => simp [carriesData] at hno
  | getcfg => simp [carriesData] at hno
  | setcfg => simp [carriesData] at hno
  | best => exact congrFun (if_neg (by simpa [carriesData, hfail] using hno)) buf
  | fetch => exact congrFun (if_neg (by simpa [carriesData, hfail] using hno)) buf
  | report => exact congrFun (if_neg (by simpa [carriesData, hfail] using hno)) buf

/-- A session or a signature that is read has a string. -/
lemma hmesgDeserializeData_session {status : HMesgStatus} {buf rest : Bytes} {data : HMesgData V}
    (hfail : status ≠ .fail) (hreq : status = .req)
    (h : hmesgDeserializeData fmt .session status buf = some (data, rest)) : data.hasString = true := by
  unfold hmesgDeserializeData at h
  rw [if_neg hfail] at h
  dsimp only at h
  rw [if_pos hreq] at h
  obtain ⟨r, -, heq⟩ := bind_eq_some h
  cases heq
  rfl

lemma hmesgDeserializeData_join {status : HMesgStatus} {buf rest : Bytes} {data : HMesgData V}
    (hfail : status ≠ .fail) (h : hmesgDeserializeData fmt .join status buf = some (data, rest)) :
    data.hasString = true := by
  unfold hmesgDeserializeData at h
  rw [if_neg hfail] at h
  obtain ⟨r, -, heq⟩ := bind_eq_some h
  cases heq
  rfl

/-- Only requests for sessions carry sessions, and only messages to join carry signatures. -/
lemma hmesgSerializeData_session {dest : ℤ} {type : HMesgType} {status : HMesgStatus} {srcId : Option Bytes}
    {sess : HSession V} {e : Bytes} (hcarries : carriesData type status = true)
    (h : hmesgSerializeData fmt ⟨dest, type, status, srcId, .session sess⟩ = some e) :
    type = .session ∧ status = .req := by
  cases type <;> cases status <;> first | exact ⟨rfl, rfl⟩ | exact absurd hcarries (by decide) | cases h

lemma hmesgSerializeData_join {dest : ℤ} {type : HMesgType} {status : HMesgStatus} {srcId : Option Bytes}
    {sig : HSignature V} {e : Bytes} (hcarries : carriesData type status = true)
    (h : hmesgSerializeData fmt ⟨dest, type, status, srcId, .join sig⟩ = some e) :
    type = .join ∧ status ≠ .fail := by
  cases type <;> cases status <;> first | exact ⟨rfl, by decide⟩ | exact absurd hcarries (by decide) | cases h

/-- A payload that is sent has a string if the one that is read has one. Without strings it is read. -/
lemma hmesgDeserializeData_hasString {mesg : HMesg V} {e : Bytes} (hdata : mesg.data.InRange)
    (h : hmesgSerializeData fmt mesg = some e) (hcarries : carriesData mesg.type mesg.status = true) :
    (∀ data' rest, hmesgDeserializeData fmt mesg.type mesg.status (blank :: e) = some (data', rest) →
      data'.hasString = mesg.data.hasString) ∧
    (mesg.data.hasString = false →
      ∃ r, hmesgDeserializeData fmt mesg.type mesg.status (blank :: e) = some r) := by
  by_cases hfits : mesg.data.Fits
  · obtain ⟨data', hread, hsame⟩ := continues_hmesgDeserializeData hfits h
    have hpayload := hread []
    rw [List.append_nil] at hpayload
    refine ⟨fun data'' rest h => ?_, fun _ => ⟨_, hpayload⟩⟩
    rw [hpayload] at h
    cases h
    exact (hsame hcarries).hasString_eq
  obtain ⟨dest, type, status, srcId, data⟩ := mesg
  cases data with
  | none => exact absurd trivial hfits
  | string s => exact absurd trivial hfits
  | point pt => exact absurd hdata hfits
  | report candId perf => exact absurd hdata hfits
  | session sess =>
    obtain ⟨rfl, rfl⟩ := hmesgSerializeData_session hcarries h
    refine ⟨fun data' rest hread => hmesgDeserializeData_session (by decide) rfl hread, fun hno => ?_⟩
    cases hno
  | join sig =>
    obtain ⟨rfl, hfail⟩ := hmesgSerializeData_join hcarries h
    refine ⟨fun data' rest hread => hmesgDeserializeData_join hfail hread, fun hno => ?_⟩
    cases hno

/-- Decoding a short message leaves its bytes as they are if it has no string. If it has one, and is decoded,
there is a NUL in them. -/
theorem hmesgDeserializeInPlace_marks (hla : fmt.Textual) {mesg : HMesg V} (hrange : mesg.InRange)
    {frame : Bytes} (hframe : hmesgSerialize fmt mesg = some frame) (hshort : frame.length < 10000) :
    (mesg.hasString = false → ∃ mesg', hmesgDeserializeInPlace fmt frame = some (mesg', frame)) ∧
    (mesg.hasString = true → ∀ mesg' buf', hmesgDeserializeInPlace fmt frame = some (mesg', buf') →
      Marked 0 frame buf') := by
  obtain ⟨-, body, hbody⟩ := hmesgSerialize_eq_some hframe
  obtain ⟨data, hdata, hread⟩ := hmesgDeserializeBody_head hrange.dest (hmesgSerialize_drop hframe)
  have hheader := (headers_of_lt hshort body).2
  rw [← hbody] at hheader
  have hrun : hmesgDeserializeInPlace fmt frame =
      (hmesgDeserializeBodyInPlace fmt (frame, hmesgHdrlen)).map fun r => (r.1, r.2.1) := by
    unfold hmesgDeserializeInPlace
    rw [hheader]
  have htracks := hmesgDeserializeBody_tracks hla (frame, hmesgHdrlen)
  rw [hread] at htracks
  -- what is read has a string if what was sent has one
  have hsame : ∀ mesg' s', hmesgDeserializeBodyInPlace fmt (frame, hmesgHdrlen) = some (mesg', s') →
      mesg'.hasString = mesg.hasString := by
    intro mesg' s' hdecode
    rw [hdecode] at htracks
    obtain ⟨⟨data', rest⟩, hpayload, heq⟩ := Option.map_eq_some_iff.mp htracks.symm
    obtain rfl : { mesg with data := data' } = mesg' := (Prod.mk.inj heq).1
    unfold HMesg.hasString
    cases hcarries : carriesData mesg.type mesg.status with
    | false => rfl
    | true => rw [(hmesgDeserializeData_hasString hrange.data hdata hcarries).1 data' _ hpayload]
  constructor
  · intro hno
    obtain ⟨r, hpayload⟩ : ∃ r, hmesgDeserializeData fmt mesg.type mesg.status (blank :: data) = some r := by
      cases hcarries : carriesData mesg.type mesg.status with
      | false => exact ⟨_, hmesgDeserializeData_uncarried hdata hcarries _⟩
      | true =>
        have hfree := (Bool.or_eq_false_iff.mp hno).2
        rw [hcarries] at hfree
        exact (hmesgDeserializeData_hasString hrange.data hdata hcarries).2 hfree
    rw [hpayload] at htracks
    obtain ⟨⟨mesg', buf', total'⟩, hdecode, -⟩ := Option.map_eq_some_iff.mp htracks
    have hfree : ¬ mesg'.hasString = true := by
      rw [hsame _ _ hdecode, hno]
      exact Bool.false_ne_true
    have hkeep : buf' = frame := (hmesgDeserializeBodyInPlace_marks fmt _ _ _ hdecode).2 hfree
    refine ⟨mesg', ?_⟩
    rw [hrun, hdecode, ← hkeep]
    rfl
  · intro hyes mesg' buf' hres
    rw [hrun] at hres
    obtain ⟨⟨mesg'', buf'', total''⟩, hdecode, heq⟩ := Option.map_eq_some_iff.mp hres
    cases heq
    exact (hmesgDeserializeBodyInPlace_marks fmt _ _ _ hdecode).1 ((hsame _ _ hdecode).trans hyes)

end ActiveHarmony
