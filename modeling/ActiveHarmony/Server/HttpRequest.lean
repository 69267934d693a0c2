import ActiveHarmony.Lib.BoundedBuffer
import ActiveHarmony.Server.Http
import ActiveHarmony.Server.HttpSend

/-!
# Requests to `httpsvr.c`

`http_request_handle` sends the page that a request asks for. The request names a session, and an index
into its log.
-/

namespace ActiveHarmony

open BoundedBuffer PrintBuffer TextScan Delimited

/-! ## What a request is about -/

/-- `atoi`: the `long` of `strtol` is cut to an `int`. -/
def atoiInt (s : Bytes) : ℤ := ((integer s).map fun r => (clampLong r.1).bmod (2 ^ 32)).getD 0

/-- `session_state_t`, with the fields that requests use. -/
structure HttpEntry (V : Type) extends HttpSession V where
  fd : ℤ
  client : List ℤ
  strategy : Option Bytes
deriving DecidableEq, Repr

variable {V : Type}

/-- The loop of `find_session`, over the indices. There is no result if there is no entry at one of them. -/
def findSessionFrom (slist : List (HttpEntry V)) (name : Bytes) : List ℕ → Option (Option ℕ)
  | [] => some none
  | i :: indices =>
    match elementAt slist i with
    | none => none
    | some sess => if sess.name = some name then some (some i) else findSessionFrom slist name indices

/-- `find_session`. -/
def findSession (slist : List (HttpEntry V)) (name : Bytes) : Option (Option ℕ) :=
  findSessionFrom slist name (List.range slist.length)

/-- The path of a request, and behind the first `?` the name and behind the first `&` the argument. -/
def splitRequest (req : Bytes) : Bytes × Option (Bytes × Option Bytes) :=
  match breakAt (cstr "?") req with
  | none => (req, none)
  | some (path, query) =>
    match breakAt (cstr "&") query with
    | none => (path, some (query, none))
    | some (name, arg) => (path, some (name, some arg))

/-! ## What a page does -/

/-- The content types of the responses. -/
inductive HttpContent where
  | html | text | javascript | css
deriving DecidableEq, Repr

/-- What is written to a socket, and what becomes of other connections. -/
inductive HttpEvent where
  /-- The status line and the headers. -/
  | header (content : HttpContent)
  /-- `http_chunk_send`. -/
  | chunk (data : Bytes)
  /-- `session_setcfg`, with the text of its message. -/
  | setcfg (fd : ℤ) (text : Bytes)
  | restart (fd : ℤ)
  | closeClient (fd : ℤ)
deriving DecidableEq, Repr

/-- The end of `http_request_handle`: whether all reads of the session list and the logs were inside of
them, the return value, what was written, and the list. -/
structure HttpReply (V : Type) where
  inside : Bool
  ret : ℤ
  events : List HttpEvent
  slist : List (HttpEntry V)
deriving DecidableEq, Repr

/-- A response in chunks; the last one is empty. -/
def respond (slist : List (HttpEntry V)) (content : HttpContent) (chunks : List Bytes) : HttpReply V :=
  ⟨true, 0, .header content :: (chunks ++ [[]]).map .chunk, slist⟩

/-- The response of a page printed into `sendbuf`. A read outside of the list or the log ends it. -/
def respondPage (slist : List (HttpEntry V)) (page : Page) : HttpReply V :=
  if page.stop = .outside then ⟨false, -1, .header .text :: page.sent.map .chunk, slist⟩
  else respond slist .text page.sent

/-- The response to a request for a session that was found or not. -/
def respondSession (slist : List (HttpEntry V)) (found : Option ℕ)
    (page : ℕ → HttpEntry V → Option (HttpReply V)) : Option (HttpReply V) :=
  match found with
  | none => some (respond slist .text [cstr "FAIL"])
  | some i =>
    match elementAt slist i with
    | none => some ⟨false, -1, [.header .text], slist⟩
    | some sess => page i sess

/-- The response to a command that was sent to the session. -/
def respondOk (slist : List (HttpEntry V)) (events : List HttpEvent) : HttpReply V :=
  ⟨true, 0, .header .text :: (events ++ [.chunk (cstr "OK"), .chunk []]), slist⟩

/-! ## The page of a session -/

/-- The letter of a type, if there is one. -/
def rangeLetter : HBounds V → Option Bytes
  | .unknown => none
  | .int .. => some (cstr "i")
  | .real .. => some (cstr "r")
  | .str .. => some (cstr "s")

/-- A range in `http_send_init`. -/
def initRangeAppend (range : HRange V) : Printer UInt8 ℕ :=
  match rangeLetter range.bounds with
  | none => failure
  | some letter => do
    let head ← snprintfInto (range.name.getD (cstr "(null)") ++ (cstr ";" ++ letter))
    let set ← printAll (fun s => snprintfInto (cstr ";" ++ s))
      (match range.bounds with | .str set => set | _ => [])
    return head + set

/-- The loop over the ranges; there is a comma in front of all but the first. -/
def initRangesAppend : Bool → List (HRange V) → Printer UInt8 ℕ
  | _, [] => pure 0
  | first, range :: ranges => do
    let sep ← snprintfSome (if first then none else some (cstr ","))
    let head ← initRangeAppend range
    let rest ← initRangesAppend false ranges
    return sep + head + rest

/-- What `http_send_init` prints. -/
def initAppend (sess : HttpEntry V) : Printer UInt8 ℕ := do
  let head ← snprintfInto (cstr "sig:")
  let ranges ← initRangesAppend true sess.sig.range
  let strat ← snprintfInto (cstr "|strat:" ++ sess.strategy.getD (cstr "(null)"))
  return head + ranges + strat

/-- `http_send_init`. -/
def httpSendInit (sess : HttpEntry V) (sendbuf : Bytes) : Page :=
  match initAppend sess ⟨sendbuf, 0, sendbufSize⟩ with
  | none => ⟨.overflow, -1, [], sendbuf⟩
  | some (none, c) => sendFail .failed [] c.cells
  | some (some total, c) =>
    if total ≥ sendbufSize then sendFail .full [] c.cells else sendRest ⟨c, total, []⟩

/-! ## Closing a session -/

/-- The loop over the cells of one entry in `client_close`. -/
def HttpEntry.lose (sess : HttpEntry V) (fd : ℤ) : HttpEntry V :=
  if fd ∈ sess.client then
    { sess with
      client := sess.client.set (sess.client.findIdx (· = fd)) (-1), clientLen := sess.clientLen - 1 }
  else sess

/-- One round of the loop over the list in `client_close`. -/
def loseAt (fd : ℤ) (slist : List (HttpEntry V)) (i : ℕ) : Option (List (HttpEntry V)) :=
  (elementAt slist i).map fun sess => slist.set i (sess.lose fd)

/-- The loops of `client_close` over the list. -/
def clientCloseIn (slist : List (HttpEntry V)) (fd : ℤ) : Option (List (HttpEntry V)) :=
  (List.range slist.length).foldlM (loseAt fd) slist

/-- One round of the loop of `session_close`, over the cells of the entry at `idx`. -/
def closeClientAt (idx : ℕ) (state : List (HttpEntry V) × List HttpEvent) (j : ℕ) :
    Option (List (HttpEntry V) × List HttpEvent) :=
  (elementAt state.1 idx).bind fun sess =>
    let fd := sess.client.getD j (-1)
    if fd = -1 then some state
    else (clientCloseIn state.1 fd).map fun slist => (slist, state.2 ++ [.closeClient fd])

/-- `session_close`. The strategy is freed too. -/
def sessionCloseIn (slist : List (HttpEntry V)) (idx : ℕ) (sess : HttpEntry V) :
    Option (List (HttpEntry V) × List HttpEvent) :=
  ((List.range sess.client.length).foldlM (closeClientAt idx)
    (slist.set idx { sess with name := none, strategy := none }, [])).map fun state =>
      (state.1.modify idx fun sess => { sess with sig := ⟨none, []⟩ }, state.2)

/-! ## The requests -/

/-- `html_file`, without the contents. -/
def htmlFile : List (Bytes × HttpContent) :=
  [(cstr "overview.cgi", .html), (cstr "overview.js", .javascript), (cstr "session-view.cgi", .html),
    (cstr "session-view.js", .javascript), (cstr "common.js", .javascript),
    (cstr "activeharmony.css", .css), (cstr "jquery.min.js", .javascript),
    (cstr "jquery.flot.min.js", .javascript),
    (cstr "jquery.flot.time.min.js", .javascript), (cstr "jquery.flot.resize.min.js", .javascript),
    (cstr "jquery.flot.selection.min.js", .javascript), (cstr "excanvas.min.js", .javascript)]

/-- The message of `session_setcfg`. -/
def setcfgText (key : Bytes) (val : Option Bytes) : Bytes := key ++ (cstr "=" ++ val.getD [])

/-- The C string at `req + 1`. Behind an empty path stands the name, or else what follows the request. -/
def pathTail (path : Bytes) (name : Option Bytes) (behind : Bytes) : Bytes :=
  match path with
  | _ :: rest => rest
  | [] => name.getD behind

/-- The page of `/kill`. -/
def killPage (slist : List (HttpEntry V)) (i : ℕ) (sess : HttpEntry V) : HttpReply V :=
  match sessionCloseIn slist i sess with
  | none => ⟨false, -1, [.header .text], slist⟩
  | some (slist, events) => respondOk slist events

variable (fmt : HttpFormat V)

/-- The branches of `http_request_handle`. The contents of the files are given, and `behind` is the text
behind the request. -/
def httpRespond (files : Bytes → Bytes) (fuel : ℕ) (slist : List (HttpEntry V)) (now : Timeval)
    (sendbuf behind path : Bytes) (name arg : Option Bytes) (found : Option ℕ) : Option (HttpReply V) :=
  if path = cstr "/" then some (respond slist .html [files (cstr "overview.cgi")])
  else if path = cstr "/session-list" then
    (httpSendOverview fmt fuel (slist.map HttpEntry.toHttpSession) sendbuf).map (respondPage slist)
  else if path = cstr "/init" then
    respondSession slist found fun _ sess => some (respondPage slist (httpSendInit sess sendbuf))
  else if path = cstr "/refresh" then
    respondSession slist found fun _ sess =>
      (httpSendRefresh fmt fuel sess.toHttpSession ((arg.map atoiInt).getD 0) now sendbuf).map
        (respondPage slist)
  else if path = cstr "/kill" then respondSession slist found fun i sess => some (killPage slist i sess)
  else if path = cstr "/pause" then
    respondSession slist found fun _ sess =>
      some (respondOk slist [.setcfg sess.fd (setcfgText cfgkeySessionPaused (some (cstr "1")))])
  else if path = cstr "/resume" then
    respondSession slist found fun _ sess =>
      some (respondOk slist [.setcfg sess.fd (setcfgText cfgkeySessionPaused (some (cstr "0")))])
  else if path = cstr "/restart" then
    respondSession slist found fun _ sess =>
      some (respondOk slist [.setcfg sess.fd (setcfgText cfgkeyInitPoint arg), .restart sess.fd])
  else
    match htmlFile.find? fun file => file.1 = pathTail path name behind with
    | some (filename, content) => some (respond slist content [files filename])
    | none => some ⟨true, -1, [], slist⟩

/-- `http_request_handle`. There is no result for want of fuel. -/
def httpRequestHandle (files : Bytes → Bytes) (fuel : ℕ) (slist : List (HttpEntry V)) (now : Timeval)
    (sendbuf behind req : Bytes) : Option (HttpReply V) :=
  match splitRequest req with
  | (path, none) => httpRespond fmt files fuel slist now sendbuf behind path none none none
  | (path, some (name, arg)) =>
    match findSession slist name with
    | none => some ⟨false, -1, [], slist⟩
    | some found => httpRespond fmt files fuel slist now sendbuf behind path (some name) arg found

/-! ## What can be printed -/

/-- The values of a point, if each of them can be printed. -/
def reportValsSerial : List (HRange V) → List (HVal V) → Option Bytes
  | [], _ => some []
  | range :: ranges, v :: vs =>
    match reportVal fmt range v with
    | some text => do
      let head ← snprintfSerial text
      let rest ← reportValsSerial ranges vs
      return head ++ rest
    | none => none
  | _ :: _, [] => none

/-- A point, if it can be printed. -/
def reportPointSerial (ranges : List (HRange V)) (pt : HPoint V) (perf : V) : Option Bytes :=
  if pt.id = -1 then do
    let commas ← ranges.mapM fun _ => snprintfSerial (cstr ",")
    return commas.flatten
  else do
    let vals ← reportValsSerial fmt ranges pt.val
    let last ← snprintfSerial (fmt.lf perf)
    return vals ++ last

/-- The header of `http_send_refresh`, if it can be printed. -/
def headerSerial (sess : HttpSession V) (idx : ℤ) (now : Timeval) : Option Bytes := do
  let head ← snprintfSerial (refreshHead sess idx now)
  let label ← snprintfSerial (cstr "|best:")
  let report ← reportPointSerial fmt sess.sig.range sess.best sess.bestPerf
  return head ++ (label ++ report)

variable {fmt}

lemma prints_reportVals (ranges : List (HRange V)) (vals : List (HVal V)) :
    Prints 0 (reportValsAppend fmt ranges vals) (reportValsSerial fmt ranges vals) := by
  induction ranges generalizing vals with
  | nil => exact prints_nil
  | cons range ranges ih =>
    cases vals with
    | nil => exact prints_failure
    | cons v vs =>
      rw [reportValsAppend, reportValsSerial]
      cases reportVal fmt range v with
      | none => exact prints_failure
      | some text => exact (prints_snprintf text).append (ih vs)

lemma prints_reportPoint (ranges : List (HRange V)) (pt : HPoint V) (perf : V) :
    Prints 0 (reportPointAppend fmt ranges pt perf) (reportPointSerial fmt ranges pt perf) := by
  unfold reportPointAppend reportPointSerial
  split_ifs
  · exact prints_printAll _ fun _ _ => prints_snprintf _
  · exact (prints_reportVals ranges pt.val).append (prints_snprintf _)

lemma prints_header (fmt : HttpFormat V) (sess : HttpSession V) (idx : ℤ) (now : Timeval) :
    Prints 0 (headerAppend fmt sess idx now) (headerSerial fmt sess idx now) := by
  have hreport : Prints 0 (reportAppend fmt sess.sig.range none sess.best sess.bestPerf)
      (reportPointSerial fmt sess.sig.range sess.best sess.bestPerf) := by
    unfold reportAppend
    show Prints 0 (pure 0 >>= fun stamp => _ >>= fun point => pure (stamp + point)) _
    simp only [pure_bind, Nat.zero_add, bind_pure]
    exact prints_reportPoint _ _ _
  exact (prints_snprintf _).append₃ (prints_snprintf _) hreport

/-! ## Where the pages read -/

lemma elementAt_some {α : Type} (array : List α) {i : ℤ} (h0 : 0 ≤ i) (hi : i < array.length) :
    ∃ x, elementAt array i = some x ∧ array[i.toNat]? = some x := by
  unfold elementAt
  rw [if_neg (by omega), List.getElem?_eq_getElem (by omega)]
  exact ⟨_, rfl, rfl⟩

lemma elementAt_neg {α : Type} (array : List α) {i : ℤ} (h : i < 0) : elementAt array i = none := if_pos h

/-- A search ended at the first entry that there is. -/
def Found (slist : List (HttpEntry V)) (found : Option ℕ) (sess : Option (HttpEntry V)) : Prop :=
  (found = none ∧ sess = none) ∨ ∃ i entry, found = some i ∧ slist[i]? = some entry ∧ sess = some entry

/-- The name is looked for in the entries of the list only. -/
lemma findSessionFrom_spec (name : Bytes) (pre post : List (HttpEntry V)) :
    ∃ found, findSessionFrom (pre ++ post) name (List.range' pre.length post.length) = some found ∧
      Found (pre ++ post) found (post.find? fun sess => sess.name = some name) := by
  induction post generalizing pre with
  | nil => exact ⟨none, rfl, Or.inl ⟨rfl, rfl⟩⟩
  | cons sess post ih =>
    have hat : (pre ++ sess :: post)[pre.length]? = some sess := by
      rw [List.getElem?_append_right (le_refl _), Nat.sub_self]
      rfl
    have helem := elementAt_add (pre ++ sess :: post) pre.length 0
    rw [Nat.cast_zero, add_zero, Nat.add_zero, hat] at helem
    rw [List.length_cons, List.range'_succ, findSessionFrom, helem]
    dsimp only
    by_cases hname : sess.name = some name
    · -- `strcmp` is the test of the search, and the first entry that passes it is taken.
      rw [if_pos hname, List.find?_cons_of_pos (by exact decide_eq_true hname)]
      exact ⟨_, rfl, Or.inr ⟨pre.length, sess, rfl, hat, rfl⟩⟩
    · have hnext := ih (pre ++ [sess])
      rw [List.append_assoc, List.length_append, List.length_singleton] at hnext
      rw [if_neg hname, List.find?_cons_of_neg (by simpa using hname)]
      exact hnext

lemma findSession_spec (slist : List (HttpEntry V)) (name : Bytes) :
    ∃ found, findSession slist name = some found ∧
      Found slist found (slist.find? fun sess => sess.name = some name) := by
  unfold findSession
  rw [List.range_eq_range']
  exact findSessionFrom_spec name [] slist

lemma sendRest_stop (s : Sending UInt8) : (sendRest s).stop ≠ .outside := by
  unfold sendRest
  cases textOf 0 s.cursor.cells with
  | none => exact fun h => by cases h
  | some chunk => exact fun h => by cases h

variable {sendbuf : Bytes}

/-- The overview reads entries of the list only. -/
lemma httpSendOverview_inside (fmt : HttpFormat V) (sendbuf : Bytes) {slist : List (HttpSession V)}
    {fuel : ℕ} (hfuel : 2 * slist.length < fuel) :
    ∃ page, httpSendOverview fmt fuel slist sendbuf = some page ∧ page.stop ≠ .outside := by
  obtain ⟨stop, s, hrun, hinside⟩ : ∃ stop s, sendItems 0 sendbufSize (overviewAppend fmt)
      (overviewRead slist) slist.length fuel 0 ⟨⟨sendbuf.set 0 0, 0, sendbufSize⟩, 0, []⟩ = some (stop, s) ∧
        ((∀ j, 0 ≤ j → j < (slist.length : ℤ) → overviewRead slist j ≠ none) → stop ≠ .outside) := by
    apply sendItems_ends
    rw [if_pos rfl]
    omega
  have hstop : stop ≠ .outside := by
    apply hinside
    intro j hj hlt hnone
    obtain ⟨sess, hat, -⟩ := elementAt_some slist hj hlt
    unfold overviewRead at hnone
    rw [hat] at hnone
    cases hnone
  unfold httpSendOverview
  rw [hrun]
  cases stop with
  | outside => exact absurd rfl hstop
  | done =>
    refine ⟨_, rfl, ?_⟩
    dsimp only
    split_ifs
    · exact fun h => by cases h
    · exact sendRest_stop s
  | full => exact ⟨_, rfl, fun h => by cases h⟩
  | failed => exact ⟨_, rfl, fun h => by cases h⟩
  | overflow => exact ⟨_, rfl, fun h => by cases h⟩

/-- `http_send_refresh` reads in front of the log just when the index is negative and the header can be
printed. -/
lemma httpSendRefresh_outside_iff (fmt : HttpFormat V) (hbuf : sendbuf.length = sendbufSize)
    {sess : HttpSession V} {fuel : ℕ} (hfuel : 2 * sess.log.length + 1 < fuel) (idx : ℤ) (now : Timeval) :
    ∃ page, httpSendRefresh fmt fuel sess idx now sendbuf = some page ∧
      (page.stop = .outside ↔ idx < 0 ∧ headerSerial fmt sess idx now ≠ none) := by
  obtain ⟨c, hprint, hwrote⟩ := prints_header fmt sess idx now ⟨sendbuf, 0, sendbufSize⟩ (by
    intro _
    exact (Nat.zero_add _).le.trans hbuf.ge)
  unfold httpSendRefresh
  rw [hprint]
  cases hheader : headerSerial fmt sess idx now with
  | none =>
    refine ⟨_, rfl, ?_, ?_⟩
    · intro h
      cases h
    · rintro ⟨-, h⟩
      exact absurd rfl h
  | some header =>
    dsimp only [Option.map_some]
    by_cases hidx : idx < 0
    · obtain ⟨fuel, rfl⟩ : ∃ m, fuel = m + 1 := ⟨fuel - 1, by omega⟩
      have hread : refreshRead sess.log idx = none := by
        unfold refreshRead
        rw [elementAt_neg _ hidx]
        rfl
      -- The first round reads `sess->log[idx]`.
      rw [sendItems, if_neg (by omega), hread]
      exact ⟨_, rfl, fun _ => ⟨hidx, fun h => by cases h⟩, fun _ => rfl⟩
    · obtain ⟨stop, s, hrun, hinside⟩ : ∃ stop s, sendItems 0 sendbufSize (trialAppend fmt sess.sig.range)
          (refreshRead sess.log) sess.log.length fuel idx ⟨c, header.length, []⟩ = some (stop, s) ∧
            ((∀ j, idx ≤ j → j < (sess.log.length : ℤ) → refreshRead sess.log j ≠ none) →
              stop ≠ .outside) := by
        apply sendItems_ends
        split_ifs
        all_goals omega
      have hstop : stop ≠ .outside := by
        apply hinside
        intro j hj hlt hnone
        obtain ⟨entry, hat, -⟩ := elementAt_some sess.log (by omega) hlt
        unfold refreshRead at hnone
        rw [hat] at hnone
        cases hnone
      rw [hrun]
      refine ⟨_, rfl, fun h => ?_, fun h => absurd h.1 hidx⟩
      cases stop with
      | outside => exact absurd rfl hstop
      | done => exact absurd h (sendRest_stop s)
      | full => cases h
      | failed => cases h
      | overflow => cases h

/-! ## Closing a session reads the list only -/

lemma loseAt_spec {n : ℕ} (fd : ℤ) {slist : List (HttpEntry V)} (hlen : slist.length = n) {i : ℕ}
    (hi : i < n) :
    ∃ slist', loseAt fd slist i = some slist' ∧ slist'.length = n := by
  obtain ⟨sess, hat, -⟩ := elementAt_some slist (i := i) (by omega) (by omega)
  refine ⟨slist.set i (sess.lose fd), ?_, List.length_set.trans hlen⟩
  unfold loseAt
  rw [hat]
  rfl

lemma clientCloseIn_spec (slist : List (HttpEntry V)) (fd : ℤ) :
    ∃ slist', clientCloseIn slist fd = some slist' ∧ slist'.length = slist.length :=
  foldlM_spec (P := fun l : List (HttpEntry V) => l.length = slist.length)
    (fun _ hlen _ hi => loseAt_spec fd hlen (List.mem_range.mp hi)) rfl

lemma sessionCloseIn_some {slist : List (HttpEntry V)} {idx : ℕ} (hidx : idx < slist.length)
    (sess : HttpEntry V) :
    ∃ out, sessionCloseIn slist idx sess = some out := by
  have hstep : ∀ state : List (HttpEntry V) × List HttpEvent, state.1.length = slist.length →
      ∀ j ∈ List.range sess.client.length,
        ∃ state', closeClientAt idx state j = some state' ∧ state'.1.length = slist.length := by
    intro state hlen j _
    obtain ⟨entry, hat, -⟩ := elementAt_some state.1 (i := idx) (by omega) (by omega)
    unfold closeClientAt
    rw [hat, Option.bind_some]
    dsimp only
    by_cases hfd : entry.client.getD j (-1) = -1
    · rw [if_pos hfd]
      exact ⟨state, rfl, hlen⟩
    · obtain ⟨slist', hclose, hlen'⟩ := clientCloseIn_spec state.1 (entry.client.getD j (-1))
      rw [if_neg hfd, hclose]
      exact ⟨_, rfl, hlen'.trans hlen⟩
  obtain ⟨state, hfold, -⟩ := foldlM_spec hstep
    (s := (slist.set idx { sess with name := none, strategy := none }, [])) List.length_set
  unfold sessionCloseIn
  rw [hfold]
  exact ⟨_, rfl⟩

lemma killPage_inside {slist : List (HttpEntry V)} {idx : ℕ} {sess : HttpEntry V}
    (h : slist[idx]? = some sess) :
    (killPage slist idx sess).inside = true := by
  obtain ⟨out, hclose⟩ := sessionCloseIn_some (List.getElem?_eq_some_iff.mp h).1 sess
  unfold killPage
  rw [hclose]
  rfl

/-! ## The requests that read in front of a log -/

lemma respondPage_inside (slist : List (HttpEntry V)) (page : Page) :
    (respondPage slist page).inside = false ↔ page.stop = .outside := by
  unfold respondPage
  split_ifs with h
  · exact ⟨fun _ => h, fun _ => rfl⟩
  · exact ⟨fun hfalse => Bool.noConfusion hfalse, fun hout => absurd hout h⟩

lemma httpSendInit_stop (sess : HttpEntry V) (sendbuf : Bytes) :
    (httpSendInit sess sendbuf).stop ≠ .outside := by
  unfold httpSendInit
  split
  · exact fun h => by cases h
  · exact fun h => by cases h
  · split_ifs
    · exact fun h => by cases h
    · exact sendRest_stop _

variable {slist : List (HttpEntry V)} {found : Option ℕ} {sess : Option (HttpEntry V)}

/-- A response for a session reads outside just when the page of the session does. -/
lemma respondSession_inside (hfound : Found slist found sess)
    {page : ℕ → HttpEntry V → Option (HttpReply V)}
    {P : HttpEntry V → Prop} (hpage : ∀ i entry, slist[i]? = some entry →
      ∃ reply, page i entry = some reply ∧ (reply.inside = false ↔ P entry)) :
    ∃ reply, respondSession slist found page = some reply ∧
      (reply.inside = false ↔ ∃ entry ∈ sess, P entry) := by
  rcases hfound with ⟨rfl, rfl⟩ | ⟨i, entry, rfl, hat, rfl⟩
  · refine ⟨_, rfl, fun h => Bool.noConfusion h, ?_⟩
    rintro ⟨entry, hentry, -⟩
    cases hentry
  · have helem := elementAt_add slist i 0
    rw [Nat.cast_zero, add_zero, Nat.add_zero, hat] at helem
    obtain ⟨reply, hreply, hinside⟩ := hpage i entry hat
    refine ⟨reply, ?_, hinside.trans ⟨fun h => ⟨entry, rfl, h⟩, ?_⟩⟩
    · unfold respondSession
      dsimp only
      rw [helem]
      exact hreply
    · rintro ⟨entry', hentry, h⟩
      cases hentry
      exact h

/-- The same for a page that reads nothing else. -/
lemma respondSession_plain (hfound : Found slist found sess) {page : ℕ → HttpEntry V → HttpReply V}
    (hpage : ∀ i entry, slist[i]? = some entry → (page i entry).inside = true) :
    ∃ reply, respondSession slist found (fun i entry => some (page i entry)) = some reply ∧
      reply.inside = true := by
  have hreply : ∀ (i : ℕ) (entry : HttpEntry V), slist[i]? = some entry →
      ∃ reply, some (page i entry) = some reply ∧ (reply.inside = false ↔ False) := by
    intro i entry hat
    refine ⟨_, rfl, fun h => ?_, fun h => h.elim⟩
    rw [hpage i entry hat] at h
    exact Bool.noConfusion h
  obtain ⟨reply, hreply, hinside⟩ := respondSession_inside hfound hreply
  refine ⟨reply, hreply, ?_⟩
  cases hcase : reply.inside with
  | true => rfl
  | false =>
    obtain ⟨_, _, hno⟩ := hinside.mp hcase
    exact hno.elim

/-- Only `/refresh` reads outside: with a negative index, when the header can be printed. -/
lemma httpRespond_inside (fmt : HttpFormat V) (hbuf : sendbuf.length = sendbufSize) {fuel : ℕ}
    (hlist : 2 * slist.length < fuel)
    (hlog : ∀ entry ∈ slist, 2 * entry.log.length + 1 < fuel) (hfound : Found slist found sess)
    (files : Bytes → Bytes) (now : Timeval) (behind path : Bytes) (name arg : Option Bytes) :
    ∃ reply, httpRespond fmt files fuel slist now sendbuf behind path name arg found = some reply ∧
      (reply.inside = false ↔ path = cstr "/refresh" ∧ ∃ entry ∈ sess, (arg.map atoiInt).getD 0 < 0 ∧
        headerSerial fmt entry.toHttpSession ((arg.map atoiInt).getD 0) now ≠ none) := by
  by_cases hrefresh : path = cstr "/refresh"
  · subst hrefresh
    have hpage : ∀ (i : ℕ) (entry : HttpEntry V), slist[i]? = some entry → ∃ reply,
        (httpSendRefresh fmt fuel entry.toHttpSession ((arg.map atoiInt).getD 0) now sendbuf).map
          (respondPage slist) = some reply ∧ (reply.inside = false ↔ (arg.map atoiInt).getD 0 < 0 ∧
            headerSerial fmt entry.toHttpSession ((arg.map atoiInt).getD 0) now ≠ none) := by
      intro i entry hat
      obtain ⟨page, hpage, hstop⟩ := httpSendRefresh_outside_iff fmt hbuf
        (hlog entry (List.mem_of_getElem? hat)) ((arg.map atoiInt).getD 0) now
      rw [hpage]
      exact ⟨_, rfl, (respondPage_inside slist page).trans hstop⟩
    obtain ⟨reply, hreply, hinside⟩ := respondSession_inside hfound hpage
    refine ⟨reply, ?_, hinside.trans ⟨fun h => ⟨rfl, h⟩, fun h => h.2⟩⟩
    unfold httpRespond
    rw [if_neg (by decide), if_neg (by decide), if_neg (by decide), if_pos rfl]
    exact hreply
  · obtain ⟨reply, hreply, hinside⟩ : ∃ reply,
        httpRespond fmt files fuel slist now sendbuf behind path name arg found = some reply ∧
          reply.inside = true := by
      unfold httpRespond
      rw [if_neg hrefresh]
      split_ifs
      · exact ⟨_, rfl, rfl⟩
      · obtain ⟨page, hpage, hstop⟩ := httpSendOverview_inside fmt sendbuf
          (show 2 * (slist.map HttpEntry.toHttpSession).length < fuel by rwa [List.length_map])
        rw [hpage]
        refine ⟨_, rfl, ?_⟩
        exact Bool.of_not_eq_false fun h => hstop ((respondPage_inside slist page).mp h)
      · apply respondSession_plain hfound
        intro i entry hat
        exact Bool.of_not_eq_false fun h => httpSendInit_stop entry sendbuf
          ((respondPage_inside slist _).mp h)
      · exact respondSession_plain hfound fun i entry hat => killPage_inside hat
      · exact respondSession_plain hfound fun i entry hat => rfl
      · exact respondSession_plain hfound fun i entry hat => rfl
      · exact respondSession_plain hfound fun i entry hat => rfl
      · split
        · exact ⟨_, rfl, rfl⟩
        · exact ⟨_, rfl, rfl⟩
    refine ⟨reply, hreply, fun h => ?_, fun h => absurd h.1 hrefresh⟩
    rw [hinside] at h
    exact Bool.noConfusion h

/-- The request is a refresh of a session, from a negative index, whose header can be printed. -/
def ReadsBefore (fmt : HttpFormat V) (slist : List (HttpEntry V)) (now : Timeval) (req : Bytes) : Prop :=
  ∃ name arg entry, splitRequest req = (cstr "/refresh", some (name, some arg)) ∧
    slist.find? (fun sess => sess.name = some name) = some entry ∧ atoiInt arg < 0 ∧
      headerSerial fmt entry.toHttpSession (atoiInt arg) now ≠ none

lemma httpRequestHandle_outside (fmt : HttpFormat V) (hbuf : sendbuf.length = sendbufSize) {fuel : ℕ}
    (hlist : 2 * slist.length < fuel)
    (hlog : ∀ entry ∈ slist, 2 * entry.log.length + 1 < fuel) (files : Bytes → Bytes) (now : Timeval)
    (behind req : Bytes) :
    ∃ reply, httpRequestHandle fmt files fuel slist now sendbuf behind req = some reply ∧
      (reply.inside = false ↔ ReadsBefore fmt slist now req) := by
  unfold httpRequestHandle ReadsBefore
  obtain ⟨path, _ | ⟨name, arg⟩⟩ := splitRequest req
  · obtain ⟨reply, hreply, hinside⟩ := httpRespond_inside fmt hbuf hlist hlog
      (Or.inl ⟨rfl, rfl⟩) files now behind path none none
    refine ⟨reply, hreply, hinside.trans ⟨?_, ?_⟩⟩
    · rintro ⟨-, entry, hentry, -⟩
      cases hentry
    · rintro ⟨name, arg, entry, heq, -⟩
      cases heq
  · obtain ⟨found, hfind, hfound⟩ := findSession_spec slist name
    dsimp only
    rw [hfind]
    obtain ⟨reply, hreply, hinside⟩ := httpRespond_inside fmt hbuf hlist hlog hfound files now
      behind path (some name) arg
    refine ⟨reply, hreply, hinside.trans ⟨?_, ?_⟩⟩
    · rintro ⟨rfl, entry, hentry, hneg, hheader⟩
      cases arg with
      | none => exact absurd hneg (by decide)
      | some arg => exact ⟨name, arg, entry, rfl, hentry, hneg, hheader⟩
    · rintro ⟨name', arg', entry, heq, hentry, hneg, hheader⟩
      cases heq
      exact ⟨rfl, entry, hentry, hneg, hheader⟩

/-- All reads of a request are inside of the session list and of the logs, unless it is a refresh from a
negative index. -/
theorem httpRequestHandle_inside_iff (fmt : HttpFormat V) {slist : List (HttpEntry V)} {sendbuf : Bytes}
    {fuel : ℕ} (hbuf : sendbuf.length = sendbufSize) (hlist : 2 * slist.length < fuel)
    (hlog : ∀ entry ∈ slist, 2 * entry.log.length + 1 < fuel) (files : Bytes → Bytes) (now : Timeval)
    (behind req : Bytes) :
    ∃ reply, httpRequestHandle fmt files fuel slist now sendbuf behind req = some reply ∧
      (reply.inside = true ↔ ¬ReadsBefore fmt slist now req) := by
  obtain ⟨reply, hreply, hinside⟩ :=
    httpRequestHandle_outside fmt hbuf hlist hlog files now behind req
  refine ⟨reply, hreply, ?_⟩
  rw [← hinside, Bool.not_eq_false]

/-! ## A session in the list -/

/-- The session in the list. -/
def tileEntry : HttpEntry ℤ :=
  { tileSession with fd := 5, client := [7, -1], strategy := some (cstr "pro.so") }

lemma tileEntry_log : ∀ entry ∈ [tileEntry], 2 * entry.log.length + 1 < 5 := by decide

/-- A refresh that continues behind the first trial. -/
theorem httpRequestHandle_continues :
    ∃ reply, httpRequestHandle wholeHttpFormat (fun _ => []) 5 [tileEntry] ⟨14, 0⟩
      (List.replicate sendbufSize 32) [] (cstr "/refresh?gemm&1") = some reply ∧ reply.inside = true := by
  obtain ⟨reply, hreply, hinside⟩ := httpRequestHandle_inside_iff wholeHttpFormat
    (List.length_replicate (n := sendbufSize) (a := 32)) (by decide) tileEntry_log (fun _ => []) ⟨14, 0⟩ []
    (cstr "/refresh?gemm&1")
  refine ⟨reply, hreply, hinside.mpr ?_⟩
  rintro ⟨name, arg, entry, hsplit, -, hneg, -⟩
  have hreq : splitRequest (cstr "/refresh?gemm&1") =
      (cstr "/refresh", some (cstr "gemm", some (cstr "1"))) := by
    decide
  rw [hreq] at hsplit
  cases hsplit
  exact absurd hneg (by decide)

/-- A refresh that starts in front of the log. -/
theorem httpRequestHandle_negative :
    ∃ reply, httpRequestHandle wholeHttpFormat (fun _ => []) 5 [tileEntry] ⟨14, 0⟩
      (List.replicate sendbufSize 32) [] (cstr "/refresh?gemm&-1") = some reply ∧ reply.inside = false := by
  obtain ⟨reply, hreply, hinside⟩ := httpRequestHandle_outside wholeHttpFormat
    (List.length_replicate (n := sendbufSize) (a := 32)) (by decide) tileEntry_log (fun _ => []) ⟨14, 0⟩ []
    (cstr "/refresh?gemm&-1")
  refine ⟨reply, hreply, hinside.mpr ⟨cstr "gemm", cstr "-1", tileEntry, by decide, rfl, by decide, ?_⟩⟩
  decide

end ActiveHarmony
