import ActiveHarmony.Strategy.ExhaustiveReject
import ActiveHarmony.Wire.SerializeBuffer

/-!
# The pages of `httpsvr.c` that are sent in chunks

`http_send_overview` and `http_send_refresh` print one record after the other into `sendbuf`, and send what is
in it when the next record does not fit.
-/

namespace ActiveHarmony

open TextScan PrintBuffer

/-- `sizeof(sendbuf)`. -/
def sendbufSize : ℕ := 8192

/-- The conversions `%lf` and `%.17lf`. -/
structure HttpFormat (V : Type) where
  lf : V → Bytes
  lf17 : V → Bytes
  lf_terminated : ∀ v, 0 ∉ lf v
  lf17_terminated : ∀ v, 0 ∉ lf17 v

/-- `struct timeval`. -/
structure Timeval where
  sec : ℤ
  usec : ℕ
deriving DecidableEq, Repr

/-- `http_log_t`. -/
structure HttpLog (V : Type) where
  stamp : Timeval
  pt : HPoint V
  perf : V
deriving DecidableEq, Repr

/-- The fields of `session_state_t` that the pages show; `log_len` is the length of `log`, and `status` is
its two bits. -/
structure HttpSession (V : Type) where
  name : Option Bytes
  start : Timeval
  clientLen : ℤ
  reported : ℤ
  best : HPoint V
  bestPerf : V
  sig : HSignature V
  paused : Bool
  converged : Bool
  log : List (HttpLog V)
deriving DecidableEq, Repr

/-- `%ld%03ld`, of the seconds and the milliseconds. -/
def Timeval.text (tv : Timeval) : Bytes :=
  decimalInt tv.sec ++
    (List.replicate (3 - (decimal (tv.usec / 1000)).length) 48 ++ decimal (tv.usec / 1000))

/-- `status_string`. -/
def statusString {V : Type} (sess : HttpSession V) : Bytes :=
  if sess.paused then cstr "Paused"
  else if sess.converged then cstr "Converged"
  else cstr "Searching"

variable {V : Type} (fmt : HttpFormat V)

/-! ## The records of the overview -/

/-- The first part of a record. -/
def overviewHead (name : Bytes) (sess : HttpSession V) : Bytes :=
  name ++ (cstr ":" ++ (sess.start.text ++ (cstr ":" ++ (decimalInt sess.clientLen ++
    (cstr ":" ++ (decimalInt sess.reported ++ cstr ":"))))))

/-- A value, if it has a type. -/
def overviewVal : HVal V → Option Bytes
  | .int i => some (decimalInt i)
  | .real r => some (fmt.lf r)
  | .str s => some (cstr "\"" ++ (s.getD (cstr "(null)") ++ cstr "\""))
  | .unknown => none

/-- What is printed if there is something to print. -/
def snprintfSome : Option Bytes → Printer UInt8 ℕ
  | some text => snprintfInto text
  | none => pure 0

/-- The loop over the values; there is a blank in front of all but the first. -/
def overviewValsAppend : Bool → List (HVal V) → Printer UInt8 ℕ
  | _, [] => pure 0
  | first, v :: vs => do
    let sep ← snprintfSome (if first then none else some [blank])
    let val ← snprintfSome (overviewVal fmt v)
    let rest ← overviewValsAppend false vs
    return sep + val + rest

/-- The best point in a record. -/
def overviewBestAppend (best : HPoint V) : Printer UInt8 ℕ :=
  if best.id = -1 then snprintfInto (cstr "&lt;unknown&gt;") else overviewValsAppend fmt true best.val

/-- A record of `http_send_overview`. -/
def overviewAppend (entry : Bytes × HttpSession V) : Printer UInt8 ℕ := do
  let head ← snprintfInto (overviewHead entry.1 entry.2)
  let best ← overviewBestAppend fmt entry.2.best
  let bar ← snprintfInto (cstr "|")
  return head + best + bar

/-- The text of the values. -/
def overviewVals : Bool → List (HVal V) → Bytes
  | _, [] => []
  | first, v :: vs =>
    ((if first then none else some [blank]) : Option Bytes).getD [] ++
      ((overviewVal fmt v).getD [] ++ overviewVals false vs)

/-- The text of the best point. -/
def overviewBest (best : HPoint V) : Bytes :=
  if best.id = -1 then cstr "&lt;unknown&gt;" else overviewVals fmt true best.val

/-- The text of a record. -/
def overviewText (entry : Bytes × HttpSession V) : Bytes :=
  overviewHead entry.1 entry.2 ++ (overviewBest fmt entry.2.best ++ cstr "|")

/-! ## The records of a session -/

/-- A value of `report_append`; a string is shown by its index. A value without a type has none, and here also
a string that is in no range of strings. -/
def reportVal : HRange V → HVal V → Option Bytes
  | _, .int i => some (decimalInt i ++ cstr ",")
  | _, .real r => some (fmt.lf17 r ++ cstr ",")
  | ⟨_, .str set⟩, .str (some s) => some (decimal (hrangeStrIndex set s) ++ cstr ",")
  | _, _ => none

/-- The loop over the ranges of `report_append`. -/
def reportValsAppend : List (HRange V) → List (HVal V) → Printer UInt8 ℕ
  | [], _ => pure 0
  | range :: ranges, v :: vs =>
    match reportVal fmt range v with
    | some text => do
      let count ← snprintfInto text
      let rest ← reportValsAppend ranges vs
      return count + rest
    | none => failure
  | _ :: _, [] => failure

/-- The point in `report_append`. -/
def reportPointAppend (ranges : List (HRange V)) (pt : HPoint V) (perf : V) : Printer UInt8 ℕ :=
  if pt.id = -1 then printAll (fun _ => snprintfInto (cstr ",")) ranges
  else do
    let vals ← reportValsAppend fmt ranges pt.val
    let last ← snprintfInto (fmt.lf perf)
    return vals + last

/-- `report_append`. -/
def reportAppend (ranges : List (HRange V)) (tv : Option Timeval) (pt : HPoint V) (perf : V) :
    Printer UInt8 ℕ := do
  let stamp ← snprintfSome (tv.map fun tv => tv.text ++ cstr ",")
  let point ← reportPointAppend fmt ranges pt perf
  return stamp + point

/-- The text of the values, if all of them have one. -/
def reportVals : List (HRange V) → List (HVal V) → Option Bytes
  | [], _ => some []
  | range :: ranges, v :: vs =>
    match reportVal fmt range v with
    | some text => (reportVals ranges vs).map fun rest => text ++ rest
    | none => none
  | _ :: _, [] => none

/-- The text of the point. -/
def reportPoint (ranges : List (HRange V)) (pt : HPoint V) (perf : V) : Option Bytes :=
  if pt.id = -1 then some (ranges.map fun _ => cstr ",").flatten
  else (reportVals fmt ranges pt.val).map fun vals => vals ++ fmt.lf perf

/-- The text of `report_append`. -/
def reportText (ranges : List (HRange V)) (tv : Option Timeval) (pt : HPoint V) (perf : V) : Option Bytes :=
  (reportPoint fmt ranges pt perf).map fun point => (tv.map fun tv => tv.text ++ cstr ",").getD [] ++ point

/-- A record of `http_send_refresh`. -/
def trialAppend (ranges : List (HRange V)) (entry : HttpLog V) : Printer UInt8 ℕ := do
  let head ← snprintfInto (cstr "|trial:")
  let report ← reportAppend fmt ranges (some entry.stamp) entry.pt entry.perf
  return head + report

/-- The text of a record. -/
def trialText (ranges : List (HRange V)) (entry : HttpLog V) : Option Bytes :=
  (reportText fmt ranges (some entry.stamp) entry.pt entry.perf).map (cstr "|trial:" ++ ·)

/-- The first conversion of the header. -/
def refreshHead (sess : HttpSession V) (idx : ℤ) (now : Timeval) : Bytes :=
  cstr "time:" ++ (now.text ++ (cstr "|status:" ++ (statusString sess ++ (cstr "|clients:" ++
    (decimalInt sess.clientLen ++ (cstr "|index:" ++ decimalInt idx))))))

/-- The header of `http_send_refresh`. -/
def headerAppend (sess : HttpSession V) (idx : ℤ) (now : Timeval) : Printer UInt8 ℕ := do
  let head ← snprintfInto (refreshHead sess idx now)
  let label ← snprintfInto (cstr "|best:")
  let report ← reportAppend fmt sess.sig.range none sess.best sess.bestPerf
  return head + label + report

/-- The text of the header. -/
def headerText (sess : HttpSession V) (idx : ℤ) (now : Timeval) : Option Bytes :=
  (reportText fmt sess.sig.range none sess.best sess.bestPerf).map
    fun report => refreshHead sess idx now ++ (cstr "|best:" ++ report)

/-! ## The pages -/

/-- A page: how its loop ends, the return value, the texts given to `opt_http_write`, and `sendbuf`. -/
structure Page where
  stop : Stop
  ret : ℤ
  sent : List Bytes
  sendbuf : Bytes
deriving DecidableEq, Repr

/-- The element of an array at an `int`, or nothing outside of it. -/
def elementAt {α : Type} (array : List α) (i : ℤ) : Option α := if i < 0 then none else array[i.toNat]?

/-- What is in `sendbuf` is sent at the end. -/
def sendRest (s : Sending UInt8) : Page :=
  match textOf 0 s.cursor.cells with
  | none => ⟨.overflow, -1, s.sent, s.cursor.cells⟩
  | some chunk => ⟨.done, 0, s.sent ++ [chunk], s.cursor.cells⟩

/-- The page ends with an error. -/
def sendFail (stop : Stop) (sent : List Bytes) (sendbuf : Bytes) : Page :=
  ⟨stop, -1, sent ++ [cstr "FAIL"], sendbuf⟩

/-- The session list as the overview reads it. -/
def overviewRead (slist : List (HttpSession V)) (i : ℤ) : Option (Option (Bytes × HttpSession V)) :=
  (elementAt slist i).map fun sess => sess.name.map fun name => (name, sess)

/-- `http_send_overview`. There is no result for want of fuel. -/
def httpSendOverview (fuel : ℕ) (slist : List (HttpSession V)) (sendbuf : Bytes) : Option Page :=
  (sendItems 0 sendbufSize (overviewAppend fmt) (overviewRead slist) slist.length fuel 0
    ⟨⟨sendbuf.set 0 0, 0, sendbufSize⟩, 0, []⟩).map fun res =>
    match res with
    | (.done, s) => if s.cursor.cells.head? = some 0 then ⟨.done, 0, s.sent, s.cursor.cells⟩ else sendRest s
    -- Corner Case: No room for any session data.  Error out.
    | (.full, s) => sendFail .full s.sent s.cursor.cells
    | (stop, s) => ⟨stop, -1, s.sent, s.cursor.cells⟩

/-- The log of a session as `http_send_refresh` reads it. -/
def refreshRead (log : List (HttpLog V)) (i : ℤ) : Option (Option (HttpLog V)) := (elementAt log i).map some

/-- `http_send_refresh`, from the index on; `gettimeofday` does not fail. -/
def httpSendRefresh (fuel : ℕ) (sess : HttpSession V) (idx : ℤ) (now : Timeval) (sendbuf : Bytes) :
    Option Page :=
  match headerAppend fmt sess idx now ⟨sendbuf, 0, sendbufSize⟩ with
  | none => some ⟨.overflow, -1, [], sendbuf⟩
  | some (none, c) => some (sendFail .failed [] c.cells)
  | some (some total, c) =>
    (sendItems 0 sendbufSize (trialAppend fmt sess.sig.range) (refreshRead sess.log) sess.log.length fuel idx
      ⟨c, total, []⟩).map fun res =>
      match res with
      | (.done, s) => sendRest s
      | (stop, s) => sendFail stop s.sent s.cursor.cells

/-! ## What is appended -/

/-- The text is printed, unless it is longer than an `int` can count. -/
def Renders (p : Printer UInt8 ℕ) (text : Bytes) : Prop := text.length ≤ intMax → Prints 0 p (some text)

variable {p q r : Printer UInt8 ℕ} {t u v : Bytes} {fmt}

lemma renders_snprintf (text : Bytes) : Renders (snprintfInto text) text := by
  intro hle
  have h := prints_snprintf text
  unfold snprintfSerial at h
  rw [if_pos hle] at h
  exact h

lemma renders_nil : Renders (pure 0) [] := fun _ => prints_nil

lemma Renders.append (hp : Renders p t) (hq : Renders q u) :
    Renders (do let m ← p; let n ← q; return m + n) (t ++ u) := by
  intro hle
  rw [List.length_append] at hle
  exact (hp (by omega)).append (hq (by omega))

lemma Renders.append₃ (hp : Renders p t) (hq : Renders q u) (hr : Renders r v) :
    Renders (do let l ← p; let m ← q; let n ← r; return l + m + n) (t ++ (u ++ v)) := by
  intro hle
  rw [List.length_append, List.length_append] at hle
  exact (hp (by omega)).append₃ (hq (by omega)) (hr (by omega))

lemma renders_some (text : Option Bytes) : Renders (snprintfSome text) (text.getD []) := by
  cases text with
  | none => exact renders_nil
  | some text => exact renders_snprintf text

lemma renders_overviewVals (first : Bool) (vals : List (HVal V)) :
    Renders (overviewValsAppend fmt first vals) (overviewVals fmt first vals) := by
  induction vals generalizing first with
  | nil => exact renders_nil
  | cons v vs ih => exact (renders_some _).append₃ (renders_some _) (ih false)

lemma renders_overview (entry : Bytes × HttpSession V) :
    Renders (overviewAppend fmt entry) (overviewText fmt entry) := by
  have hbest : Renders (overviewBestAppend fmt entry.2.best) (overviewBest fmt entry.2.best) := by
    unfold overviewBestAppend overviewBest
    split_ifs
    · exact renders_snprintf _
    · exact renders_overviewVals true _
  exact (renders_snprintf _).append₃ hbest (renders_snprintf _)

lemma renders_reportVals {ranges : List (HRange V)} {vals : List (HVal V)} {text : Bytes}
    (h : reportVals fmt ranges vals = some text) : Renders (reportValsAppend fmt ranges vals) text := by
  induction ranges generalizing vals text with
  | nil =>
    cases h
    exact renders_nil
  | cons range ranges ih =>
    cases vals with
    | nil => cases h
    | cons v vs =>
      rw [reportVals] at h
      rw [reportValsAppend]
      cases hval : reportVal fmt range v with
      | none =>
        rw [hval] at h
        cases h
      | some head =>
        rw [hval] at h
        obtain ⟨rest, hrest, rfl⟩ := Option.map_eq_some_iff.mp h
        exact (renders_snprintf head).append (ih hrest)

lemma renders_commas (ranges : List (HRange V)) :
    Renders (printAll (fun _ => snprintfInto (cstr ",")) ranges) (ranges.map fun _ => cstr ",").flatten := by
  induction ranges with
  | nil => exact renders_nil
  | cons range ranges ih => exact (renders_snprintf _).append ih

lemma renders_report {ranges : List (HRange V)} {tv : Option Timeval} {pt : HPoint V} {perf : V}
    {text : Bytes} (h : reportText fmt ranges tv pt perf = some text) :
    Renders (reportAppend fmt ranges tv pt perf) text := by
  obtain ⟨point, hpoint, rfl⟩ := Option.map_eq_some_iff.mp h
  apply (renders_some _).append
  unfold reportPoint at hpoint
  unfold reportPointAppend
  by_cases hid : pt.id = -1
  · rw [if_pos hid] at hpoint ⊢
    cases hpoint
    exact renders_commas ranges
  · rw [if_neg hid] at hpoint ⊢
    obtain ⟨vals, hvals, rfl⟩ := Option.map_eq_some_iff.mp hpoint
    exact (renders_reportVals hvals).append (renders_snprintf _)

lemma renders_trial {ranges : List (HRange V)} {entry : HttpLog V} {text : Bytes}
    (h : trialText fmt ranges entry = some text) : Renders (trialAppend fmt ranges entry) text := by
  obtain ⟨report, hreport, rfl⟩ := Option.map_eq_some_iff.mp h
  exact (renders_snprintf _).append (renders_report hreport)

lemma renders_header {sess : HttpSession V} {idx : ℤ} {now : Timeval} {text : Bytes}
    (h : headerText fmt sess idx now = some text) : Renders (headerAppend fmt sess idx now) text := by
  obtain ⟨report, hreport, rfl⟩ := Option.map_eq_some_iff.mp h
  exact (renders_snprintf _).append₃ (renders_snprintf _) (renders_report hreport)

/-! ## The texts are C strings -/

/-- A string of a value is a C string. -/
def HVal.Terminated : HVal V → Prop
  | .str (some s) => 0 ∉ s
  | _ => True

/-- The strings of a session are C strings. -/
structure HttpSession.Terminated (sess : HttpSession V) : Prop where
  name : ∀ name, sess.name = some name → 0 ∉ name
  best : ∀ v ∈ sess.best.val, v.Terminated

lemma Timeval.text_terminated (tv : Timeval) : 0 ∉ tv.text := by
  unfold Timeval.text
  simp only [List.mem_append, List.mem_replicate, not_or, not_and]
  exact ⟨decimalInt_terminated _, fun _ => by decide, decimal_terminated _⟩

lemma overviewHead_terminated {name : Bytes} (hname : 0 ∉ name) (sess : HttpSession V) :
    0 ∉ overviewHead name sess := by
  have hcolon : 0 ∉ cstr ":" := by decide
  unfold overviewHead
  simp only [List.mem_append, not_or]
  exact ⟨hname, hcolon, sess.start.text_terminated, hcolon, decimalInt_terminated _, hcolon,
    decimalInt_terminated _, hcolon⟩

lemma overviewVal_terminated {v : HVal V} (hv : v.Terminated) : 0 ∉ (overviewVal fmt v).getD [] := by
  have hquote : 0 ∉ cstr "\"" := by decide
  cases v with
  | unknown => exact List.not_mem_nil
  | int i => exact decimalInt_terminated i
  | real r => exact fmt.lf_terminated r
  | str s =>
    show 0 ∉ cstr "\"" ++ (s.getD (cstr "(null)") ++ cstr "\"")
    simp only [List.mem_append, not_or]
    refine ⟨hquote, ?_, hquote⟩
    cases s with
    | none => decide
    | some s => exact hv

lemma overviewVals_terminated {vals : List (HVal V)} (h : ∀ v ∈ vals, v.Terminated) (first : Bool) :
    0 ∉ overviewVals fmt first vals := by
  induction vals generalizing first with
  | nil => exact List.not_mem_nil
  | cons v vs ih =>
    rw [overviewVals]
    simp only [List.mem_append, not_or]
    have hvs := ih fun w hw => h w (List.mem_cons_of_mem v hw)
    refine ⟨?_, overviewVal_terminated (h v List.mem_cons_self), hvs _⟩
    cases first
    all_goals decide

lemma overviewText_terminated {sess : HttpSession V} {name : Bytes} (h : sess.Terminated)
    (hname : sess.name = some name) : 0 ∉ overviewText fmt (name, sess) := by
  unfold overviewText overviewBest
  simp only [List.mem_append, not_or]
  refine ⟨overviewHead_terminated (h.name name hname) sess, ?_, by decide⟩
  split_ifs
  · decide
  · exact overviewVals_terminated h.best true

lemma reportVal_terminated {range : HRange V} {v : HVal V} {text : Bytes}
    (h : reportVal fmt range v = some text) : 0 ∉ text := by
  have hcomma : 0 ∉ cstr "," := by decide
  unfold reportVal at h
  split at h
  all_goals cases h
  all_goals simp only [List.mem_append, not_or]
  · exact ⟨decimalInt_terminated _, hcomma⟩
  · exact ⟨fmt.lf17_terminated _, hcomma⟩
  · exact ⟨decimal_terminated _, hcomma⟩

lemma reportVals_terminated {ranges : List (HRange V)} {vals : List (HVal V)} {text : Bytes}
    (h : reportVals fmt ranges vals = some text) : 0 ∉ text := by
  induction ranges generalizing vals text with
  | nil =>
    cases h
    exact List.not_mem_nil
  | cons range ranges ih =>
    cases vals with
    | nil => cases h
    | cons v vs =>
      rw [reportVals] at h
      cases hval : reportVal fmt range v with
      | none =>
        rw [hval] at h
        cases h
      | some head =>
        rw [hval] at h
        obtain ⟨rest, hrest, rfl⟩ := Option.map_eq_some_iff.mp h
        rw [List.mem_append]
        rintro (hmem | hmem)
        · exact reportVal_terminated hval hmem
        · exact ih hrest hmem

lemma reportText_terminated {ranges : List (HRange V)} {tv : Option Timeval} {pt : HPoint V} {perf : V}
    {text : Bytes} (h : reportText fmt ranges tv pt perf = some text) : 0 ∉ text := by
  have hcomma : 0 ∉ cstr "," := by decide
  obtain ⟨point, hpoint, rfl⟩ := Option.map_eq_some_iff.mp h
  rw [List.mem_append, not_or]
  constructor
  · cases tv with
    | none => exact List.not_mem_nil
    | some tv =>
      show 0 ∉ tv.text ++ cstr ","
      rw [List.mem_append, not_or]
      exact ⟨tv.text_terminated, hcomma⟩
  · unfold reportPoint at hpoint
    split_ifs at hpoint
    · cases hpoint
      rw [List.mem_flatten]
      rintro ⟨comma, hmem, hzero⟩
      obtain ⟨range, -, rfl⟩ := List.mem_map.mp hmem
      exact hcomma hzero
    · obtain ⟨vals, hvals, rfl⟩ := Option.map_eq_some_iff.mp hpoint
      rw [List.mem_append, not_or]
      exact ⟨reportVals_terminated hvals, fmt.lf_terminated perf⟩

lemma trialText_terminated {ranges : List (HRange V)} {entry : HttpLog V} {text : Bytes}
    (h : trialText fmt ranges entry = some text) : 0 ∉ text := by
  obtain ⟨report, hreport, rfl⟩ := Option.map_eq_some_iff.mp h
  rw [List.mem_append, not_or]
  exact ⟨by decide, reportText_terminated hreport⟩

lemma headerText_terminated {sess : HttpSession V} {idx : ℤ} {now : Timeval} {text : Bytes}
    (h : headerText fmt sess idx now = some text) : 0 ∉ text := by
  have hstatus : 0 ∉ statusString sess := by
    unfold statusString
    split_ifs
    all_goals decide
  obtain ⟨report, hreport, rfl⟩ := Option.map_eq_some_iff.mp h
  unfold refreshHead
  simp only [List.mem_append, not_or]
  exact ⟨⟨by decide, now.text_terminated, by decide, hstatus, by decide, decimalInt_terminated _, by decide,
    decimalInt_terminated _⟩, by decide, reportText_terminated hreport⟩

/-! ## What is sent -/

/-- The chunks are the pieces, some of them together, and none of them cut. -/
def ChunksOf (pieces chunks : List Bytes) : Prop :=
  ∃ groups : List (List Bytes), groups.flatten = pieces ∧ groups.map List.flatten = chunks

lemma ChunksOf.flatten {pieces chunks : List Bytes} (h : ChunksOf pieces chunks) :
    chunks.flatten = pieces.flatten := by
  obtain ⟨groups, rfl, rfl⟩ := h
  exact List.flatten_flatten.symm

/-- The sessions of the list that have a name. -/
def namedSessions (slist : List (HttpSession V)) : List (Bytes × HttpSession V) :=
  (slist.map fun sess => sess.name.map fun name => (name, sess)).reduceOption

lemma mem_namedSessions {slist : List (HttpSession V)} {entry : Bytes × HttpSession V}
    (h : entry ∈ namedSessions slist) : entry.2 ∈ slist ∧ entry.2.name = some entry.1 := by
  unfold namedSessions at h
  rw [List.reduceOption_mem_iff] at h
  obtain ⟨sess, hsess, hentry⟩ := List.mem_map.mp h
  obtain ⟨name, hname, rfl⟩ := Option.map_eq_some_iff.mp hentry
  exact ⟨hsess, hname⟩

lemma elementAt_add {α : Type} (array : List α) (n k : ℕ) :
    elementAt array ((n : ℤ) + k) = array[n + k]? := by
  unfold elementAt
  rw [if_neg (by omega)]
  congr 1

lemma short_le_intMax {text : Bytes} (h : text.length < sendbufSize) : text.length ≤ intMax := by
  unfold sendbufSize at h
  unfold intMax
  omega

lemma overview_fitsIn {entry : Bytes × HttpSession V} (hterm : entry.2.Terminated)
    (hname : entry.2.name = some entry.1) (hshort : (overviewText fmt entry).length < sendbufSize) :
    FitsIn 0 sendbufSize (overviewAppend fmt entry) (overviewText fmt entry) where
  prints := renders_overview entry (short_le_intMax hshort)
  free := overviewText_terminated hterm hname
  ne_nil := by
    unfold overviewText
    simp [cstr]
  fits := hshort

lemma trial_fitsIn {ranges : List (HRange V)} {entry : HttpLog V} {text : Bytes}
    (h : trialText fmt ranges entry = some text) (hshort : text.length < sendbufSize) :
    FitsIn 0 sendbufSize (trialAppend fmt ranges entry) text where
  prints := renders_trial h (short_le_intMax hshort)
  free := trialText_terminated h
  ne_nil := by
    obtain ⟨report, -, rfl⟩ := Option.map_eq_some_iff.mp h
    simp [cstr]
  fits := hshort

variable {sendbuf : Bytes}

/-- Nothing is in the buffer of the overview at first. -/
lemma buffered_nil (hbuf : sendbuf.length = sendbufSize) :
    PrintBuffer.Buffered 0 sendbufSize [] ⟨⟨sendbuf.set 0 0, 0, sendbufSize⟩, 0, []⟩ where
  length := List.length_set.trans hbuf
  pos := rfl
  left := rfl
  fits := by decide
  total := rfl
  holds := rfl
  ends := List.getElem?_set_self (by rw [hbuf]; decide)
  free := List.not_mem_nil

/-- The chunks of the overview are its records. -/
lemma httpSendOverview_chunks (hbuf : sendbuf.length = sendbufSize) {slist : List (HttpSession V)}
    {fuel : ℕ} (hfuel : 2 * slist.length < fuel) (hterm : ∀ sess ∈ slist, sess.Terminated)
    (hshort : ∀ entry ∈ namedSessions slist, (overviewText fmt entry).length < sendbufSize) :
    ∃ page, httpSendOverview fmt fuel slist sendbuf = some page ∧ page.ret = 0 ∧
      ChunksOf ((namedSessions slist).map (overviewText fmt)) page.sent := by
  have hitems : ∀ entry ∈ namedSessions slist,
      FitsIn 0 sendbufSize (overviewAppend fmt entry) (overviewText fmt entry) := by
    intro entry hentry
    obtain ⟨hmem, hname⟩ := mem_namedSessions hentry
    exact overview_fitsIn (hterm _ hmem) hname (hshort entry hentry)
  have hread : ∀ (k : ℕ) item,
      (slist.map fun sess => sess.name.map fun name => (name, sess))[k]? = some item →
      overviewRead slist (0 + k) = some item := by
    intro k item hk
    rw [List.getElem?_map] at hk
    have hat := elementAt_add slist 0 k
    rw [Nat.zero_add] at hat
    unfold overviewRead
    rw [← hk]
    exact congrArg (Option.map _) hat
  obtain ⟨s, groups, last, hrun, hsent, htexts, hlast⟩ :=
    sendItems_spec [] hitems hread (by rw [List.length_map, zero_add]) (by rwa [List.length_map])
      (buffered_nil hbuf)
  rw [List.nil_append] at hsent htexts
  unfold httpSendOverview
  rw [hrun, Option.map_some]
  dsimp only
  by_cases hnil : last.flatten = []
  · -- Then no record was printed at all.
    have hempty : last = [] := by
      rw [List.eq_nil_iff_forall_not_mem]
      intro text htext
      have hmem : text ∈ (namedSessions slist).map (overviewText fmt) := by
        have hmem := List.mem_append_right groups.flatten htext
        rw [htexts] at hmem
        exact hmem
      obtain ⟨entry, hentry, rfl⟩ := List.mem_map.mp hmem
      exact (hitems entry hentry).ne_nil (List.flatten_eq_nil_iff.mp hnil _ htext)
    rw [if_pos (hlast.head_iff.mpr hnil)]
    refine ⟨_, rfl, rfl, groups, ?_, hsent.symm⟩
    rw [hempty, List.append_nil] at htexts
    exact htexts
  · rw [if_neg fun hzero => hnil (hlast.head_iff.mp hzero)]
    unfold sendRest
    rw [textOf_append hlast.free hlast.holds hlast.ends]
    refine ⟨_, rfl, rfl, groups ++ [last], ?_, ?_⟩
    · rw [List.flatten_append, List.flatten_singleton]
      exact htexts
    · rw [List.map_append, hsent]
      rfl

/-- The chunks of a session are its header and its records. -/
lemma httpSendRefresh_chunks (hbuf : sendbuf.length = sendbufSize) {sess : HttpSession V} {idx fuel : ℕ}
    {now : Timeval} {header : Bytes} {texts : HttpLog V → Bytes} (hidx : idx ≤ sess.log.length)
    (hfuel : 2 * sess.log.length < fuel) (hheader : headerText fmt sess idx now = some header)
    (hshort : header.length < sendbufSize)
    (htrial : ∀ entry ∈ sess.log.drop idx, trialText fmt sess.sig.range entry = some (texts entry) ∧
      (texts entry).length < sendbufSize) :
    ∃ page, httpSendRefresh fmt fuel sess idx now sendbuf = some page ∧ page.ret = 0 ∧
      ChunksOf (header :: (sess.log.drop idx).map texts) page.sent := by
  have hne : header ≠ [] := by
    obtain ⟨report, -, rfl⟩ := Option.map_eq_some_iff.mp hheader
    simp [cstr]
  obtain ⟨c, hprint, hbuffered⟩ := buffered_fresh hbuf (renders_header hheader (short_le_intMax hshort))
    (headerText_terminated hheader) hne hshort []
  have hgroup : header = [header].flatten := List.flatten_singleton.symm
  have hitems : ∀ entry ∈ ((sess.log.drop idx).map some).reduceOption,
      FitsIn 0 sendbufSize (trialAppend fmt sess.sig.range entry) (texts entry) := by
    intro entry hentry
    rw [List.reduceOption_mem_iff] at hentry
    obtain ⟨entry', hmem, heq⟩ := List.mem_map.mp hentry
    cases heq
    obtain ⟨htext, hlt⟩ := htrial entry hmem
    exact trial_fitsIn htext hlt
  have hread : ∀ (k : ℕ) item, ((sess.log.drop idx).map some)[k]? = some item →
      refreshRead sess.log (idx + k) = some item := by
    intro k item hk
    rw [List.getElem?_map, List.getElem?_drop] at hk
    unfold refreshRead
    rw [elementAt_add]
    exact hk
  have hn : (sess.log.length : ℤ) = idx + ((sess.log.drop idx).map some).length := by
    rw [List.length_map, List.length_drop]
    omega
  have henough : 2 * ((sess.log.drop idx).map some).length < fuel := by
    rw [List.length_map, List.length_drop]
    omega
  rw [hgroup] at hbuffered
  obtain ⟨s, groups, last, hrun, hsent, htexts, hlast⟩ := sendItems_spec _ hitems hread hn henough hbuffered
  rw [← hgroup] at hrun
  unfold httpSendRefresh
  rw [hprint]
  dsimp only
  rw [hrun, Option.map_some]
  unfold sendRest
  dsimp only
  rw [textOf_append hlast.free hlast.holds hlast.ends]
  refine ⟨_, rfl, rfl, groups ++ [last], ?_, ?_⟩
  · have hall : ((sess.log.drop idx).map some).reduceOption = sess.log.drop idx := by
      unfold List.reduceOption
      rw [List.filterMap_map]
      exact List.filterMap_some
    rw [List.flatten_append, List.flatten_singleton, htexts, hall]
    rfl
  · rw [List.map_append, hsent]
    rfl

/-- Both pages: the chunks are the header and the records, each whole, once and in order. -/
theorem http_chunks_whole (fmt : HttpFormat V) {sendbuf : Bytes} (hbuf : sendbuf.length = sendbufSize) :
    (∀ (slist : List (HttpSession V)) (fuel : ℕ), 2 * slist.length < fuel →
      (∀ sess ∈ slist, sess.Terminated) →
      (∀ entry ∈ namedSessions slist, (overviewText fmt entry).length < sendbufSize) →
      ∃ page, httpSendOverview fmt fuel slist sendbuf = some page ∧ page.ret = 0 ∧
        ChunksOf ((namedSessions slist).map (overviewText fmt)) page.sent) ∧
    (∀ (sess : HttpSession V) (idx fuel : ℕ) (now : Timeval) (header : Bytes) (texts : HttpLog V → Bytes),
      idx ≤ sess.log.length → 2 * sess.log.length < fuel → headerText fmt sess idx now = some header →
      header.length < sendbufSize →
      (∀ entry ∈ sess.log.drop idx, trialText fmt sess.sig.range entry = some (texts entry) ∧
        (texts entry).length < sendbufSize) →
      ∃ page, httpSendRefresh fmt fuel sess idx now sendbuf = some page ∧ page.ret = 0 ∧
        ChunksOf (header :: (sess.log.drop idx).map texts) page.sent) := by
  constructor
  · intro slist fuel hfuel hterm hshort
    exact httpSendOverview_chunks hbuf hfuel hterm hshort
  · intro sess idx fuel now header texts hidx hfuel hheader hshort htrial
    exact httpSendRefresh_chunks hbuf hidx hfuel hheader hshort htrial

/-! ## A session with one trial -/

/-- Whole numbers as reals. -/
def wholeHttpFormat : HttpFormat ℤ where
  lf r := decimalInt r ++ cstr ".000000"
  lf17 r := decimalInt r ++ cstr ".00000000000000000"
  lf_terminated r := by
    rw [List.mem_append, not_or]
    exact ⟨decimalInt_terminated r, by decide⟩
  lf17_terminated r := by
    rw [List.mem_append, not_or]
    exact ⟨decimalInt_terminated r, by decide⟩

/-- A session with one range and one trial. -/
def tileSession : HttpSession ℤ where
  name := some (cstr "gemm")
  start := ⟨12, 345000⟩
  clientLen := 1
  reported := 1
  best := { id := 1, val := [.int 8] }
  bestPerf := 3
  sig := { name := some (cstr "gemm"), range := [{ name := some (cstr "tile"), bounds := .int 1 64 1 }] }
  paused := false
  converged := false
  log := [⟨⟨13, 7000⟩, { id := 1, val := [.int 8] }, 3⟩]

lemma tileSession_terminated : tileSession.Terminated where
  name name h := by
    cases h
    decide
  best v hv := by
    cases List.mem_singleton.mp hv
    trivial

theorem tileSession_chunks :
    (∃ page, httpSendOverview wholeHttpFormat 5 [tileSession, { tileSession with name := none }]
        (List.replicate sendbufSize 32) = some page ∧ page.ret = 0 ∧
      ChunksOf [cstr "gemm:12345:1:1:8|"] page.sent) ∧
    (∃ page, httpSendRefresh wholeHttpFormat 3 tileSession 0 ⟨14, 0⟩
        (List.replicate sendbufSize 32) = some page ∧ page.ret = 0 ∧
      ChunksOf [cstr "time:14000|status:Searching|clients:1|index:0|best:8,3.000000",
        cstr "|trial:13007,8,3.000000"] page.sent) := by
  obtain ⟨hoverview, hrefresh⟩ :=
    http_chunks_whole wholeHttpFormat (List.length_replicate (n := sendbufSize) (a := 32))
  constructor
  · have hterm : ∀ sess ∈ [tileSession, { tileSession with name := none }], sess.Terminated := by
      intro sess hsess
      obtain rfl | hsess := List.mem_cons.mp hsess
      · exact tileSession_terminated
      · cases List.mem_singleton.mp hsess
        exact { name := fun name h => (by cases h), best := tileSession_terminated.best }
    exact hoverview _ 5 (by decide) hterm (by decide)
  · have htrial : ∀ entry ∈ tileSession.log.drop 0,
        trialText wholeHttpFormat tileSession.sig.range entry = some (cstr "|trial:13007,8,3.000000") ∧
          (cstr "|trial:13007,8,3.000000").length < sendbufSize := by
      intro entry hentry
      cases List.mem_singleton.mp hentry
      decide
    exact hrefresh tileSession 0 3 ⟨14, 0⟩ _ (fun _ => cstr "|trial:13007,8,3.000000") (by decide) (by decide)
      (by decide) (by decide) htrial

end ActiveHarmony
