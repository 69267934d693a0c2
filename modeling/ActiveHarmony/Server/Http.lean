import ActiveHarmony.Lib.Delimited
import ActiveHarmony.Wire.Framing
import Mathlib.Data.List.TakeWhile

/-!
# HTTP requests

The server reads the requests of a browser with `http_request_recv`, one or more of them whenever the
connection is readable. `requests_delivered_iff` says for which arrivals of their bytes all requests
are handled.
-/

namespace ActiveHarmony

open Delimited

/-- CRLF CRLF. -/
def httpDelim : Bytes := [13, 10, 13, 10]

/-- The size of the buffer of `handle_http_socket`. -/
def httpBuflen : ℕ := 4096

/-- The pointer `*data` into the buffer. -/
structure HttpData where
  /-- `*data - buf` -/
  off : ℕ
  /-- The C string at `*data`. -/
  text : Bytes
deriving DecidableEq, Repr

/-- Why `http_request_recv` returns `NULL`. -/
inductive HttpStop where
  /-- `recv` failed: there is no more to read now. -/
  | again
  | closed
deriving DecidableEq, Repr

/-- The bytes a connection still has, after a `recv` that asked for `space` bytes. -/
def afterRecv (space : ℕ) (chunk : Bytes) (conn : List Bytes) : List Bytes :=
  if chunk.length ≤ space then conn else chunk.drop space :: conn

lemma sum_afterRecv (space : ℕ) (chunk : Bytes) (conn : List Bytes) :
    ((afterRecv space chunk conn).map List.length).sum + min space chunk.length =
      chunk.length + (conn.map List.length).sum := by
  unfold afterRecv
  by_cases hle : chunk.length ≤ space
  · rw [if_pos hle]
    omega
  · rw [if_neg hle, List.map_cons, List.sum_cons, List.length_drop]
    omega

/-- `http_request_recv`: the next request. The connection has the chunks it gives to the calls of
`recv`; a chunk that is larger than what is asked for is given in parts, and an empty one means that
the peer closed the connection. -/
def httpRequestRecv (data : HttpData) (conn : List Bytes) :
    Except HttpStop (Bytes × HttpData × List Bytes) :=
  match breakAt httpDelim data.text with
  | some (req, rest) => .ok (req, ⟨data.off + req.length + httpDelim.length, rest⟩, conn)
  | none =>
    if data.off = 0 ∧ data.text.length = httpBuflen - 1 then
      -- the buffer is full
      .ok (data.text, ⟨data.text.length, []⟩, conn)
    else
      match conn with
      | [] => .error .again
      | chunk :: conn =>
        -- the text has been moved to the front of the buffer
        let space := httpBuflen - (data.text.length + 1)
        if _h : chunk.take space = [] then
          if data.text = [] then .error .closed
          else .ok (data.text, ⟨data.text.length, []⟩, chunk :: conn)
        else
          httpRequestRecv ⟨0, (data.text ++ chunk.take space).takeWhile (· ≠ 0)⟩
            (afterRecv space chunk conn)
termination_by (conn.map List.length).sum
decreasing_by
  have hpos := List.length_pos_iff.mpr _h
  rw [List.length_take] at hpos
  have hsum := sum_afterRecv (httpBuflen - (data.text.length + 1)) chunk conn
  rw [List.map_cons, List.sum_cons]
  omega

/-- What is left to read, in the buffer and on the connection. -/
def HttpData.left (data : HttpData) (conn : List Bytes) : ℕ :=
  data.text.length + (conn.map List.length).sum

/-- A request takes something away. -/
lemma httpRequestRecv_left {data data' : HttpData} {conn conn' : List Bytes} {req : Bytes}
    (h : httpRequestRecv data conn = .ok (req, data', conn')) : data'.left conn' < data.left conn := by
  fun_induction httpRequestRecv data conn with
  | case1 data conn a rest hbreak =>
    cases h
    have hlen := congrArg List.length (breakAt_eq_some hbreak)
    rw [List.length_append, List.length_append] at hlen
    have hdelim : httpDelim.length = 4 := rfl
    unfold HttpData.left
    dsimp only
    omega
  | case2 data conn hbreak hfull =>
    cases h
    have hlen := hfull.2
    unfold httpBuflen at hlen
    unfold HttpData.left
    dsimp only
    rw [List.length_nil]
    omega
  | case3 => cases h
  | case4 => cases h
  | case5 data hbreak hfull chunk conn space hempty htext =>
    cases h
    have hpos := List.length_pos_iff.mpr htext
    unfold HttpData.left
    dsimp only
    rw [List.length_nil]
    omega
  | case6 data hbreak hfull chunk conn space hempty ih =>
    have hlt := ih h
    have htext := (List.takeWhile_prefix (· ≠ 0) (l := data.text ++ chunk.take space)).length_le
    have hsum := sum_afterRecv space chunk conn
    rw [List.length_append, List.length_take] at htext
    unfold HttpData.left at hlt ⊢
    dsimp only at hlt
    rw [List.map_cons, List.sum_cons]
    omega

/-- The loop of `handle_http_socket`: the requests it receives, and why it ends. -/
def httpRequests (data : HttpData) (conn : List Bytes) : List Bytes × HttpStop :=
  match _h : httpRequestRecv data conn with
  | .error stop => ([], stop)
  | .ok (req, data', conn') =>
    let r := httpRequests data' conn'
    (req :: r.1, r.2)
termination_by data.left conn
decreasing_by exact httpRequestRecv_left _h

/-- `handle_http_socket`, when the connection is readable: the requests it passes on, and whether it
closes the connection. Its pointer is `NULL` at the start, so the buffer is taken as empty. -/
def handleHttpSocket (conn : List Bytes) : List Bytes × Bool :=
  let r := httpRequests ⟨0, []⟩ conn
  (r.1, r.2 == .closed)

/-! ## What a request is made into -/

/-- `uri_decode` -/
def uriDecode : Bytes → Bytes
  | 37 :: hi :: lo :: rest =>
    match hexDigit hi, hexDigit lo with
    | some h, some l => (h * 16 + l).toUInt8 :: uriDecode rest
    | _, _ => 37 :: uriDecode (hi :: lo :: rest)
  | c :: rest => c :: uriDecode rest
  | [] => []

/-- What `handle_http_socket` does about a request. -/
inductive HttpCall where
  /-- `http_request_handle`; it is a 404 if that fails. -/
  | handle (uri : Bytes)
  | error (code : ℕ) (req : Bytes)
  | ignore
deriving DecidableEq, Repr

/-- The methods that are not implemented. -/
def httpUnimplemented : List Bytes :=
  ["OPTIONS ", "HEAD ", "POST ", "PUT ", "DELETE ", "TRACE ", "CONNECT "].map cstr

/-- The body of the loop of `handle_http_socket`. A decoded NUL ends the URI. -/
def httpCall (req : Bytes) : HttpCall :=
  if cstr "GET " <+: req then
    match breakAt (cstr " ") (req.drop 4) with
    | none => .error 400 req
    | some (uri, _) => .handle ((uriDecode uri).takeWhile (· ≠ 0))
  else if httpUnimplemented.any fun method => method.isPrefixOf req then .error 501 req
  else .ignore

/-- `uri_decode` writes over the text that it decodes, so the requests behind it stay. -/
lemma length_uriDecode_le (uri : Bytes) : (uriDecode uri).length ≤ uri.length := by
  fun_induction uriDecode uri with
  | case1 hi lo rest h hh l hl ih =>
    rw [List.length_cons, List.length_cons, List.length_cons, List.length_cons]
    omega
  | case2 hi lo rest hnone ih => exact Nat.succ_le_succ ih
  | case3 c rest hne ih => exact Nat.succ_le_succ ih
  | case4 => exact le_refl _

/-! ## Deliveries -/

/-- An HTTP request, without the CRLF CRLF that ends it. It fits the buffer. -/
structure IsRequest (r : Bytes) : Prop where
  delim : IsRecord httpDelim r
  noNul : 0 ∉ r
  fits : r.length + httpDelim.length < httpBuflen

/-- The chunks come from an open connection, and are text. -/
def Flowing (conn : List Bytes) : Prop := ∀ chunk ∈ conn, chunk ≠ [] ∧ 0 ∉ chunk

lemma takeWhile_noNul {text : Bytes} (h : 0 ∉ text) : text.takeWhile (· ≠ 0) = text := by
  rw [List.takeWhile_eq_self_iff]
  intro c hc
  apply decide_eq_true
  intro hzero
  rw [hzero] at hc
  exact h hc

lemma take_afterRecv (space : ℕ) (chunk : Bytes) (conn : List Bytes) :
    chunk.take space ++ (afterRecv space chunk conn).flatten = chunk ++ conn.flatten := by
  unfold afterRecv
  by_cases hle : chunk.length ≤ space
  · rw [if_pos hle, List.take_of_length_le hle]
  · rw [if_neg hle, List.flatten_cons, ← List.append_assoc, List.take_append_drop]

lemma Flowing.afterRecv {chunk : Bytes} {conn : List Bytes} (h : Flowing (chunk :: conn)) (space : ℕ) :
    Flowing (afterRecv space chunk conn) := by
  unfold ActiveHarmony.afterRecv
  by_cases hle : chunk.length ≤ space
  · rw [if_pos hle]
    exact fun c hc => h c (List.mem_cons_of_mem _ hc)
  · rw [if_neg hle]
    intro c hc
    obtain rfl | hc := List.mem_cons.mp hc
    · constructor
      · intro hnil
        exact hle (List.drop_eq_nil_iff.mp hnil)
      · intro hzero
        exact (h chunk List.mem_cons_self).2 (List.mem_of_mem_drop hzero)
    · exact h c (List.mem_cons_of_mem _ hc)

lemma noNul_append_take {data : HttpData} {chunk : Bytes} {conn : List Bytes}
    (hconn : Flowing (chunk :: conn)) (htext : 0 ∉ data.text) (space : ℕ) :
    0 ∉ data.text ++ chunk.take space := by
  intro hzero
  obtain hzero | hzero := List.mem_append.mp hzero
  · exact htext hzero
  · exact (hconn chunk List.mem_cons_self).2 (List.mem_of_mem_take hzero)

/-- A request that is not cut off is what comes first, up to its CRLF CRLF. -/
lemma httpRequestRecv_bytes {data data' : HttpData} {conn conn' : List Bytes} {req : Bytes}
    (hconn : Flowing conn) (htext : 0 ∉ data.text)
    (h : httpRequestRecv data conn = .ok (req, data', conn')) (hshort : req.length < httpBuflen - 1) :
    data.text ++ conn.flatten = req ++ (httpDelim ++ (data'.text ++ conn'.flatten)) ∧
      0 ∉ data'.text ∧ Flowing conn' := by
  fun_induction httpRequestRecv data conn with
  | case1 data conn a rest hbreak =>
    cases h
    have hsplit := breakAt_eq_some hbreak
    refine ⟨?_, ?_, hconn⟩
    · rw [hsplit, List.append_assoc, List.append_assoc]
    · intro hzero
      apply htext
      rw [hsplit]
      exact List.mem_append_right _ (List.mem_append_right _ hzero)
  | case2 data conn hbreak hfull =>
    cases h
    have hlen := hfull.2
    omega
  | case3 => cases h
  | case4 => cases h
  | case5 data hbreak hfull chunk conn space hempty hne =>
    cases h
    -- nothing was asked for
    obtain hspace | hnil := List.take_eq_nil_iff.mp hempty
    · have hdef : space = httpBuflen - (data.text.length + 1) := rfl
      omega
    · exact absurd hnil (hconn chunk List.mem_cons_self).1
  | case6 data hbreak hfull chunk conn space hempty ih =>
    have hnoNul := noNul_append_take hconn htext space
    obtain ⟨hbytes, hrest⟩ := ih (hconn.afterRecv space)
      (by rw [takeWhile_noNul hnoNul]; exact hnoNul) h
    refine ⟨?_, hrest⟩
    rw [← hbytes, takeWhile_noNul hnoNul, List.append_assoc, take_afterRecv]
    rfl

/-- The bytes of an event are its requests, and what is left in the buffer at its end. -/
lemma httpRequests_bytes {data : HttpData} {conn : List Bytes} (hconn : Flowing conn)
    (htext : 0 ∉ data.text) (hshort : ∀ req ∈ (httpRequests data conn).1, req.length < httpBuflen - 1) :
    ∃ lost, data.text ++ conn.flatten = join httpDelim (httpRequests data conn).1 ++ lost := by
  fun_induction httpRequests data conn with
  | case1 data conn stop hstop => exact ⟨_, rfl⟩
  | case2 data conn req data' conn' hreq r ih =>
    obtain ⟨hbytes, htext', hconn'⟩ :=
      httpRequestRecv_bytes hconn htext hreq (hshort req List.mem_cons_self)
    obtain ⟨lost, hlost⟩ := ih hconn' htext' fun q hq => hshort q (List.mem_cons_of_mem _ hq)
    refine ⟨lost, ?_⟩
    rw [join_cons, hbytes, hlost, List.append_assoc, List.append_assoc]

/-- While the next request is not complete there is room for more of it. -/
lemma take_space_ne_nil {data : HttpData} {chunk : Bytes} {conn : List Bytes} {r more : Bytes}
    (hconn : Flowing (chunk :: conn)) (hr : IsRequest r)
    (hbytes : data.text ++ (chunk :: conn).flatten = r ++ (httpDelim ++ more))
    (hbreak : breakAt httpDelim data.text = none) :
    chunk.take (httpBuflen - (data.text.length + 1)) ≠ [] := by
  intro hempty
  obtain hspace | hnil := List.take_eq_nil_iff.mp hempty
  · have hlt := hr.fits
    obtain ⟨b, hsome, -⟩ := hr.delim.breakAt_text hbytes (by omega)
    rw [hbreak] at hsome
    cases hsome
  · exact (hconn chunk List.mem_cons_self).1 hnil

/-- The next request is received, however it arrives. -/
lemma httpRequestRecv_request {data : HttpData} {conn : List Bytes} {r more : Bytes}
    (hconn : Flowing conn) (htext : 0 ∉ data.text) (hr : IsRequest r)
    (hbytes : data.text ++ conn.flatten = r ++ (httpDelim ++ more)) :
    ∃ data' conn', httpRequestRecv data conn = .ok (r, data', conn') ∧
      data'.text ++ conn'.flatten = more := by
  fun_induction httpRequestRecv data conn with
  | case1 data conn a rest hbreak =>
    have hall := breakAt_append hbreak conn.flatten
    rw [hbytes, hr.delim.breakAt more] at hall
    obtain ⟨rfl, hmore⟩ := Prod.mk.inj (Option.some.inj hall)
    exact ⟨_, _, rfl, hmore.symm⟩
  | case2 data conn hbreak hfull =>
    have hlt := hr.fits
    have hlen := hfull.2
    obtain ⟨b, hsome, -⟩ := hr.delim.breakAt_text hbytes (by omega)
    rw [hbreak] at hsome
    cases hsome
  | case3 data hbreak hfull =>
    have hwhole := congrArg List.length hbytes
    rw [List.flatten_nil, List.append_nil, List.length_append, List.length_append] at hwhole
    obtain ⟨b, hsome, -⟩ := hr.delim.breakAt_text hbytes (by omega)
    rw [hbreak] at hsome
    cases hsome
  | case4 data hbreak hfull chunk conn space hempty hnil =>
    exact absurd hempty (take_space_ne_nil hconn hr hbytes hbreak)
  | case5 data hbreak hfull chunk conn space hempty hne =>
    exact absurd hempty (take_space_ne_nil hconn hr hbytes hbreak)
  | case6 data hbreak hfull chunk conn space hempty ih =>
    have hnoNul := noNul_append_take hconn htext space
    apply ih (hconn.afterRecv space)
    · rw [takeWhile_noNul hnoNul]
      exact hnoNul
    · rw [takeWhile_noNul hnoNul, List.append_assoc, take_afterRecv]
      exact hbytes

/-- When nothing is left, the event ends. -/
lemma httpRequests_nil {data : HttpData} {conn : List Bytes} (hconn : Flowing conn)
    (hbytes : data.text ++ conn.flatten = []) : (httpRequests data conn).1 = [] := by
  obtain ⟨htext, hflat⟩ := List.append_eq_nil_iff.mp hbytes
  have hnil : conn = [] := by
    apply List.eq_nil_iff_forall_not_mem.mpr
    intro chunk hchunk
    exact (hconn chunk hchunk).1 (List.flatten_eq_nil_iff.mp hflat chunk hchunk)
  have hstop : httpRequestRecv data conn = .error .again := by
    rw [httpRequestRecv.eq_def, htext, hnil]
    have hbreak : breakAt httpDelim [] = none := rfl
    rw [hbreak]
    dsimp only
    rw [if_neg]
    intro hfull
    exact absurd hfull.2 (by decide)
  rw [httpRequests]
  split
  · rfl
  · next req data' conn' hreq =>
    rw [hstop] at hreq
    cases hreq

/-- An event that has whole requests passes them all on. -/
lemma httpRequests_join {qs : List Bytes} (hqs : ∀ q ∈ qs, IsRequest q) {data : HttpData}
    {conn : List Bytes} (hconn : Flowing conn) (htext : 0 ∉ data.text)
    (hbytes : data.text ++ conn.flatten = join httpDelim qs) : (httpRequests data conn).1 = qs := by
  induction qs generalizing data conn with
  | nil => exact httpRequests_nil hconn hbytes
  | cons q qs ih =>
    have hq := hqs q List.mem_cons_self
    rw [join_cons] at hbytes
    obtain ⟨data', conn', hrecv, hmore⟩ := httpRequestRecv_request hconn htext hq hbytes
    have hfits := hq.fits
    have hdelim : httpDelim.length = 4 := rfl
    obtain ⟨-, htext', hconn'⟩ := httpRequestRecv_bytes hconn htext hrecv (by omega)
    have hrest := ih (fun q hq => hqs q (List.mem_cons_of_mem _ hq)) hconn' htext' hmore
    rw [httpRequests]
    split
    · next stop hstop =>
      rw [hrecv] at hstop
      cases hstop
    · next req data'' conn'' hreq =>
      rw [hrecv] at hreq
      obtain ⟨rfl, rfl, rfl⟩ : q = req ∧ data' = data'' ∧ conn' = conn'' := by
        cases hreq
        exact ⟨rfl, rfl, rfl⟩
      dsimp only
      rw [hrest]

/-! ## All events of a connection -/

/-- The requests passed on, when the connection is readable some times. -/
def httpDelivered (events : List (List Bytes)) : List Bytes :=
  (events.map fun conn => (handleHttpSocket conn).1).flatten

@[simp] lemma httpDelivered_cons (conn : List Bytes) (events : List (List Bytes)) :
    httpDelivered (conn :: events) = (handleHttpSocket conn).1 ++ httpDelivered events := rfl

/-- Each event ends where a request ends. -/
def EndsWithRequests (events : List (List Bytes)) : Prop :=
  ∀ conn ∈ events, ∃ qs, (∀ q ∈ qs, IsRequest q) ∧ conn.flatten = join httpDelim qs

lemma httpDelivered_of_endsWithRequests {events : List (List Bytes)}
    (hflow : ∀ conn ∈ events, Flowing conn) (h : EndsWithRequests events) :
    (∀ q ∈ httpDelivered events, IsRequest q) ∧
      events.flatten.flatten = join httpDelim (httpDelivered events) := by
  induction events with
  | nil => exact ⟨fun q hq => absurd hq List.not_mem_nil, rfl⟩
  | cons conn events ih =>
    obtain ⟨qs, hqs, hbytes⟩ := h conn List.mem_cons_self
    have hdelivered : (handleHttpSocket conn).1 = qs :=
      httpRequests_join hqs (hflow conn List.mem_cons_self) List.not_mem_nil hbytes
    obtain ⟨hrequests, hrest⟩ := ih (fun c hc => hflow c (List.mem_cons_of_mem _ hc))
      fun c hc => h c (List.mem_cons_of_mem _ hc)
    rw [httpDelivered_cons, hdelivered]
    constructor
    · intro q hq
      obtain hq | hq := List.mem_append.mp hq
      · exact hqs q hq
      · exact hrequests q hq
    · rw [List.flatten_cons, List.flatten_append, join_append, hbytes, hrest]

/-- What the events deliver is no longer than their bytes, and as long as these only if nothing is left
in the buffer. -/
lemma httpDelivered_bytes {events : List (List Bytes)} (hflow : ∀ conn ∈ events, Flowing conn)
    (hrequests : ∀ q ∈ httpDelivered events, IsRequest q) :
    (join httpDelim (httpDelivered events)).length ≤ events.flatten.flatten.length ∧
      (events.flatten.flatten.length ≤ (join httpDelim (httpDelivered events)).length →
        EndsWithRequests events) := by
  induction events with
  | nil => exact ⟨le_refl _, fun _ conn hconn => absurd hconn List.not_mem_nil⟩
  | cons conn events ih =>
    rw [httpDelivered_cons] at hrequests
    obtain ⟨hle, hends⟩ := ih (fun c hc => hflow c (List.mem_cons_of_mem _ hc))
      fun q hq => hrequests q (List.mem_append_right _ hq)
    have hfirst : ∀ q ∈ (handleHttpSocket conn).1, IsRequest q :=
      fun q hq => hrequests q (List.mem_append_left _ hq)
    have hdelim : httpDelim.length = 4 := rfl
    obtain ⟨lost, hlost⟩ := @httpRequests_bytes ⟨0, []⟩ conn (hflow conn List.mem_cons_self)
      List.not_mem_nil fun q hq => by
        have hfits := (hfirst q hq).fits
        omega
    have hsplit : conn.flatten = join httpDelim (handleHttpSocket conn).1 ++ lost := hlost
    have hlen := congrArg List.length hsplit
    rw [List.length_append] at hlen
    rw [httpDelivered_cons, join_append, List.flatten_cons, List.flatten_append, List.length_append,
      List.length_append]
    refine ⟨by omega, ?_⟩
    intro hge c hc
    obtain rfl | hc := List.mem_cons.mp hc
    · have hnil : lost = [] := List.eq_nil_of_length_eq_zero (by omega)
      refine ⟨_, hfirst, ?_⟩
      rw [hsplit, hnil, List.append_nil]
    · exact hends (by omega) c hc

/-- The bytes of requests are text. -/
lemma noNul_join {rs : List Bytes} (hrs : ∀ r ∈ rs, IsRequest r) : 0 ∉ join httpDelim rs := by
  induction rs with
  | nil => exact List.not_mem_nil
  | cons r rs ih =>
    rw [join_cons]
    intro hzero
    obtain hzero | hzero := List.mem_append.mp hzero
    · exact (hrs r List.mem_cons_self).noNul hzero
    · obtain hzero | hzero := List.mem_append.mp hzero
      · exact absurd hzero (by decide)
      · exact ih (fun r hr => hrs r (List.mem_cons_of_mem _ hr)) hzero

/-- The requests passed on are those that were sent, exactly if each time the connection is readable the
bytes that are there are whole requests. -/
theorem requests_delivered_iff (reqs : List Bytes) (hreqs : ∀ r ∈ reqs, IsRequest r)
    (events : List (List Bytes)) (hchunks : ∀ conn ∈ events, ∀ chunk ∈ conn, chunk ≠ [])
    (hstream : events.flatten.flatten = join httpDelim reqs) :
    httpDelivered events = reqs ↔ EndsWithRequests events := by
  have hflow : ∀ conn ∈ events, Flowing conn := by
    intro conn hconn chunk hchunk
    refine ⟨hchunks conn hconn chunk hchunk, ?_⟩
    intro hzero
    apply noNul_join hreqs
    rw [← hstream]
    exact List.mem_flatten_of_mem (List.mem_flatten_of_mem hconn hchunk) hzero
  constructor
  · intro hdelivered
    apply (httpDelivered_bytes hflow (by rw [hdelivered]; exact hreqs)).2
    rw [hdelivered, hstream]
  · intro hends
    obtain ⟨hrequests, hbytes⟩ := httpDelivered_of_endsWithRequests hflow hends
    apply join_injective (by decide) (fun r hr => (hrequests r hr).delim) fun r hr => (hreqs r hr).delim
    rw [← hbytes, hstream]

/-- A request for the list of sessions. -/
def listRequest : Bytes := cstr "GET /session-list HTTP/1.1\r\nHost: ah"

lemma isRequest_listRequest : IsRequest listRequest where
  delim := by
    show breakAt httpDelim (listRequest ++ httpDelim) = some (listRequest, [])
    decide +kernel
  noNul := by decide
  fits := by decide

/-- Two requests in three chunks, of which the first two are there at once. -/
theorem two_requests_delivered :
    httpDelivered [[(join httpDelim [listRequest]).take 7, (join httpDelim [listRequest]).drop 7],
      [join httpDelim [listRequest]]] = [listRequest, listRequest] := by
  have hreqs : ∀ r ∈ [listRequest], IsRequest r := by
    intro r hr
    obtain rfl := List.mem_singleton.mp hr
    exact isRequest_listRequest
  have hreqs' : ∀ r ∈ [listRequest, listRequest], IsRequest r := by
    intro r hr
    obtain rfl | hr := List.mem_cons.mp hr
    · exact isRequest_listRequest
    · exact hreqs r hr
  apply (requests_delivered_iff _ hreqs' _ (by decide) (by decide)).mpr
  intro conn hconn
  refine ⟨[listRequest], hreqs, ?_⟩
  revert conn
  decide

/-- A request that comes in two events is lost. -/
theorem split_request_lost :
    IsRequest listRequest ∧
      [[(join httpDelim [listRequest]).take 7], [(join httpDelim [listRequest]).drop 7]].flatten.flatten =
        join httpDelim [listRequest] ∧
      httpDelivered [[(join httpDelim [listRequest]).take 7], [(join httpDelim [listRequest]).drop 7]] =
        [listRequest.drop 7] ∧
      httpCall listRequest = .handle (cstr "/session-list") ∧
      httpCall (listRequest.drop 7) = .ignore := by
  refine ⟨isRequest_listRequest, ?_, ?_, ?_, ?_⟩ <;> decide +kernel

end ActiveHarmony
