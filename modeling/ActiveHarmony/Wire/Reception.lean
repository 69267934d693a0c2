import ActiveHarmony.Wire.Framing

/-!
# Receiving a message in pieces

`mesg_recv` reads the body of a message with `socket_read`, which asks for bytes until it has them
all, but it looks at the header with one `recv`. `reception_iff` says for which deliveries the message
is received as if all its bytes had been there at once.
-/

namespace ActiveHarmony

open TextScan

/-- What a call of `recv` does. -/
inductive Recv where
  /-- A signal interrupts it. -/
  | intr
  | error
  /-- It returns bytes, or none at the end of the stream. -/
  | data (chunk : Bytes)
deriving DecidableEq, Repr

/-- `socket_read`: the bytes read, unless it fails. The list has what its calls of `recv` do; a call
that may return more bytes than asked for returns the others next time. -/
def socketRead : ℕ → List Recv → Option (Option Bytes × List Recv)
  | _, [] => none
  | datalen, .intr :: as => socketRead datalen as
  | _, .error :: as => some (none, as)
  | datalen, .data chunk :: as =>
    if chunk = [] then some (some [], as)
    else if chunk.length < datalen then
      (socketRead (datalen - chunk.length) as).map fun r => (r.1.map (chunk ++ ·), r.2)
    else if chunk.length = datalen then some (some chunk, as)
    else some (some (chunk.take datalen), .data (chunk.drop datalen) :: as)

variable {V : Type} (fmt : LaFormat V)

/-- `hmesg_deserialize`. -/
def hmesgDeserialize (buf : Bytes) : Option (HMesg V) :=
  match hmesgDeserializeHeader buf with
  | none => none
  | some _ => (hmesgDeserializeBody fmt (buf.drop hmesgHdrlen)).map Prod.fst

/-- The local array `hdr` of `mesg_recv`: what `recv` saw, and behind it what was on the stack. -/
def peekedHeader (stack seen : Bytes) : Bytes :=
  (seen.take (hmesgHdrlen + 1) ++ stack.drop seen.length).take hmesgHdrlen

/-- The checks of `mesg_recv` on the header: the length of the message. -/
def peekedLength (hdr : Bytes) : Option ℤ :=
  if hdr.take 4 ≠ hmesgMagic then none
  else
    -- the text ends at the first NUL
    match scanHeader ((hdr.drop 4).takeWhile (· ≠ 0)) with
    | none => none
    | some ((msglen, msgver), _) => if msgver ≠ hmesgVersion then none else some msglen

/-- `mesg_recv`: its return value and the message. `peek` is what its first `recv` does, which takes no
bytes off the stream, and `stack` is what the array for the header held before. -/
def mesgRecv (stack : Bytes) (peek : Recv) (as : List Recv) :
    Option (ℤ × Option (HMesg V) × List Recv) :=
  match peek with
  | .intr => some (-1, none, as)
  | .error => some (-1, none, as)
  | .data seen =>
    if seen = [] then some (0, none, as)
    else
      match peekedLength (peekedHeader stack seen) with
      | none => some (-1, none, as)
      | some msglen =>
        match socketRead (msglen % 2 ^ 32).toNat as with
        | none => none
        | some (none, as) => some (-1, none, as)
        | some (some buf, as) =>
          if buf = [] then some (0, none, as)
          else if (buf.length : ℤ) < msglen then some (-1, none, as)
          else
            match hmesgDeserialize fmt buf with
            | none => some (-1, none, as)
            | some mesg => some (1, some mesg, as)

/-! ## Deliveries -/

/-- The bytes arrive in chunks, with signals between them. -/
inductive Delivers : Bytes → List Recv → Prop
  | nil : Delivers [] []
  | intr {bytes : Bytes} {as : List Recv} : Delivers bytes as → Delivers bytes (.intr :: as)
  | data {chunk bytes : Bytes} {as : List Recv} :
      chunk ≠ [] → Delivers bytes as → Delivers (chunk ++ bytes) (.data chunk :: as)

/-- What the first `recv` may do: it sees bytes that are there, at most the eleven it asks for. -/
def Peeks (bytes : Bytes) (peek : Recv) : Prop :=
  peek = .intr ∨ ∃ seen, peek = .data seen ∧ seen ≠ [] ∧ seen <+: bytes ∧ seen.length ≤ hmesgHdrlen + 1

/-- `socket_read` takes the bytes it is asked for, in whatever pieces they come. -/
lemma socketRead_delivers {bytes rest : Bytes} {as : List Recv} (hbytes : bytes ≠ [])
    (h : Delivers (bytes ++ rest) as) :
    ∃ as', socketRead bytes.length as = some (some bytes, as') ∧ Delivers rest as' := by
  generalize hall : bytes ++ rest = all at h
  induction h generalizing bytes with
  | nil => exact absurd (List.append_eq_nil_iff.mp hall).1 hbytes
  | intr _ ih => exact ih hbytes hall
  | @data chunk bytes' as hchunk h ih =>
    rw [socketRead, if_neg hchunk]
    by_cases hlt : chunk.length < bytes.length
    · -- more is needed
      obtain ⟨more, rfl, rfl⟩ : ∃ more, bytes = chunk ++ more ∧ more ++ rest = bytes' := by
        rcases List.append_eq_append_iff.mp hall with ⟨more, hleft, hright⟩ | ⟨more, hleft, hright⟩
        · have hlen := congrArg List.length hleft
          rw [List.length_append] at hlen
          omega
        · exact ⟨more, hleft, hright.symm⟩
      have hmore : more ≠ [] := by
        intro hnil
        rw [hnil, List.append_nil] at hlt
        omega
      obtain ⟨as', hread, hrest⟩ := ih hmore rfl
      rw [if_pos hlt, List.length_append, Nat.add_sub_cancel_left, hread]
      exact ⟨as', rfl, hrest⟩
    · obtain ⟨more, rfl, rfl⟩ : ∃ more, chunk = bytes ++ more ∧ rest = more ++ bytes' := by
        rcases List.append_eq_append_iff.mp hall with ⟨more, hleft, hright⟩ | ⟨more, hleft, hright⟩
        · exact ⟨more, hleft, hright⟩
        · have hlen := congrArg List.length hleft
          rw [List.length_append] at hlen
          have hnil : more = [] := List.eq_nil_of_length_eq_zero (by omega)
          subst hnil
          exact ⟨[], by rw [hleft, List.append_nil, List.append_nil], hright.symm⟩
      rw [if_neg hlt]
      by_cases hmore : more = []
      · subst hmore
        rw [List.append_nil, if_pos rfl]
        exact ⟨as, rfl, h⟩
      · have hpos := List.length_pos_iff.mpr hmore
        rw [if_neg (by rw [List.length_append]; omega), List.take_left, List.drop_left]
        exact ⟨_, rfl, Delivers.data hmore h⟩

/-! ## The header -/

lemma printD4_isDigit (total : ℕ) : ∀ c ∈ printD4 total, isDigit c = true := by
  intro c hc
  unfold printD4 at hc
  rw [List.mem_append] at hc
  rcases hc with hc | hc
  · rw [List.eq_of_mem_replicate hc]
    decide
  · exact decimal_isDigit total c hc

/-- A text of digits is one number. -/
lemma digitsFrom_digits {w : Bytes} (hw : ∀ c ∈ w, isDigit c = true) (acc : ℕ) :
    (digitsFrom acc w).2 = [] := by
  induction w generalizing acc with
  | nil => rfl
  | cons c w ih =>
    rw [digitsFrom, if_pos (hw c List.mem_cons_self)]
    exact ih (fun d hd => hw d (List.mem_cons_of_mem c hd)) _

/-- Up to four digits are all read by `%4d`. -/
lemma scanD4_digits {w rest : Bytes} (hw : ∀ c ∈ w, isDigit c = true) (hlen : w.length ≤ 4)
    (hrest : w.length = 4 ∨ rest = []) :
    scanD4 (w ++ rest) = none ∨ ∃ z, scanD4 (w ++ rest) = some (z, rest) := by
  by_cases hnil : w = []
  · left
    subst hnil
    have hempty : rest = [] := by
      rcases hrest with hfull | hempty
      · cases hfull
      · exact hempty
    rw [hempty]
    rfl
  · right
    obtain ⟨c, cs, rfl⟩ := List.exists_cons_of_ne_nil hnil
    have hc := hw c List.mem_cons_self
    have hskip : ∀ more, skipSpace (c :: cs ++ more) = c :: cs ++ more := fun more =>
      @skipSpace_append [] _ spaces_nil _ (isDigit_not_isSpace hc)
    have htake : (c :: cs ++ rest).take 4 = c :: cs := by
      rcases hrest with hfull | hempty
      · exact List.take_left' hfull
      · rw [hempty, List.append_nil]
        exact List.take_of_length_le hlen
    have hdrop : (c :: cs ++ rest).drop 4 = rest := by
      rcases hrest with hfull | hempty
      · exact List.drop_left' hfull
      · rw [hempty, List.append_nil]
        exact List.drop_eq_nil_of_le hlen
    -- the number goes up to the end of the field
    have hint : ∃ z, integer (c :: cs) = some (z, []) := by
      have hself := hskip []
      rw [List.append_nil] at hself
      unfold integer
      rw [hself, sign_of_isDigit hc]
      refine ⟨((digitsFrom 0 (c :: cs)).1 : ℤ), ?_⟩
      dsimp only
      rw [digits, if_pos hc, ← digitsFrom_digits hw 0]
      rfl
    obtain ⟨z, hz⟩ := hint
    refine ⟨(clampLong z).bmod (2 ^ 32), ?_⟩
    unfold scanD4
    rw [hskip rest]
    dsimp only
    rw [htake, hdrop]
    unfold scanD
    rw [bind_eq_of_eq_some hz]
    rfl

/-- The first bytes of a header, without the last one, are not accepted when zeros follow. -/
lemma scanHeader_short {w : Bytes} (hw : ∀ c ∈ w, isDigit c = true) (hlen : w.length = 4) {n : ℕ}
    (hn : n < 6) {z : ℤ} {msgver : ℕ} {rest : Bytes}
    (h : scanHeader ((w ++ cstr "05").take n) = some ((z, msgver), rest)) : msgver ≠ hmesgVersion := by
  obtain ⟨⟨z', rest'⟩, hd4, h⟩ := Option.bind_eq_some_iff.mp h
  obtain ⟨⟨msgver', rest''⟩, hx2, heq⟩ := Option.bind_eq_some_iff.mp h
  obtain rfl : msgver' = msgver := (Prod.mk.inj (Prod.mk.inj (Option.some.inj heq)).1).2
  by_cases hfour : n ≤ 4
  · -- there is no version
    have htake : (w ++ cstr "05").take n = w.take n ++ [] := by
      rw [List.append_nil, List.take_append_of_le_length (by omega)]
    have hdigits : ∀ c ∈ w.take n, isDigit c = true := fun c hc => hw c (List.mem_of_mem_take hc)
    rw [htake] at hd4
    rcases scanD4_digits hdigits (by rw [List.length_take]; omega) (Or.inr rfl) with hnone | ⟨y, hsome⟩
    · rw [hnone] at hd4
      cases hd4
    · rw [hsome] at hd4
      cases hd4
      cases hx2
  · -- the version is 0
    obtain rfl : n = 5 := by omega
    have htake : (w ++ cstr "05").take 5 = w ++ cstr "0" := by
      rw [show 5 = w.length + 1 by omega, List.take_length_add_append]
      rfl
    rw [htake] at hd4
    rcases scanD4_digits hw (by omega) (Or.inl hlen) with hnone | ⟨y, hsome⟩
    · rw [hnone] at hd4
      cases hd4
    · rw [hsome] at hd4
      cases hd4
      have hzero : scanX2 (cstr "0") = some (0, []) := by decide
      rw [hzero] at hx2
      cases hx2
      decide

lemma takeWhile_digits {w : Bytes} (hw : ∀ c ∈ w, c ≠ 0) (n : ℕ) :
    (w ++ List.replicate n 0).takeWhile (· ≠ 0) = w := by
  rw [List.takeWhile_append_of_pos (fun c hc => decide_eq_true (hw c hc))]
  have hzeros : (List.replicate n (0 : UInt8)).takeWhile (· ≠ 0) = [] := by
    cases n with
    | zero => rfl
    | succ n => rw [List.replicate_succ]; rfl
  rw [hzeros, List.append_nil]

/-- The fields of a header have no NUL. -/
lemma fields_ne_zero (total : ℕ) : ∀ c ∈ printD4 total ++ cstr "05", c ≠ 0 := by
  intro c hc
  rw [List.mem_append] at hc
  rcases hc with hc | hc
  · rintro rfl
    exact absurd (printD4_isDigit total 0 hc) (by decide)
  · intro hzero
    rw [hzero] at hc
    exact absurd hc (by decide)

/-- A whole header is accepted. -/
lemma peekedLength_header {total : ℕ} (htotal : total < 10000) :
    peekedLength (hmesgHeader total) = some (total : ℤ) := by
  have hscan := scanHeader_of_lt htotal []
  have htake := takeWhile_digits (fields_ne_zero total) 0
  rw [List.replicate_zero, List.append_nil] at htake
  rw [List.append_nil] at hscan
  unfold peekedLength
  rw [hmesgHeader_of_lt htotal]
  have hmagic : (hmesgMagic ++ (printD4 total ++ cstr "05")).take 4 = hmesgMagic := rfl
  rw [if_neg (not_not_intro hmagic)]
  have hdrop : (hmesgMagic ++ (printD4 total ++ cstr "05")).drop 4 = printD4 total ++ cstr "05" := rfl
  rw [hdrop, htake, hscan]
  rfl

/-- The front of a header, with zeros behind it, is not. -/
lemma peekedLength_short {total n : ℕ} (htotal : total < 10000) (hn : n < hmesgHdrlen) :
    peekedLength ((hmesgHeader total).take n ++ List.replicate (hmesgHdrlen - n) 0) = none := by
  have hlen := length_hmesgHeader total
  have hfields : (hmesgHeader total).drop 4 = printD4 total ++ cstr "05" := by
    rw [hmesgHeader_of_lt htotal]
    rfl
  unfold hmesgHdrlen at hn hlen
  unfold peekedLength
  by_cases hfour : n < 4
  · -- a zero in the magic number
    have hzero : (0 : UInt8) ∈ ((hmesgHeader total).take n ++ List.replicate (hmesgHdrlen - n) 0).take 4 := by
      refine List.mem_iff_getElem?.mpr ⟨n, ?_⟩
      rw [List.getElem?_take_of_lt hfour, List.getElem?_append_right (by rw [List.length_take]; omega),
        List.getElem?_replicate_of_lt]
      rw [List.length_take]
      unfold hmesgHdrlen
      omega
    rw [if_pos]
    intro hmagic
    rw [hmagic] at hzero
    revert hzero
    decide
  · have hdrop : ((hmesgHeader total).take n ++ List.replicate (hmesgHdrlen - n) 0).drop 4 =
        (printD4 total ++ cstr "05").take (n - 4) ++ List.replicate (hmesgHdrlen - n) 0 := by
      rw [List.drop_append_of_le_length (by rw [List.length_take]; omega), List.drop_take, hfields]
    have htext : ((printD4 total ++ cstr "05").take (n - 4) ++
        List.replicate (hmesgHdrlen - n) 0).takeWhile (· ≠ 0) = (printD4 total ++ cstr "05").take (n - 4) :=
      takeWhile_digits (fun c hc => fields_ne_zero total c (List.mem_of_mem_take hc)) (hmesgHdrlen - n)
    rw [hdrop, htext]
    split_ifs
    · rfl
    · cases hscan : scanHeader ((printD4 total ++ cstr "05").take (n - 4)) with
      | none => rfl
      | some r =>
        obtain ⟨⟨msglen, msgver⟩, rest⟩ := r
        have hver := scanHeader_short (printD4_isDigit total) (length_printD4 htotal)
          (show n - 4 < 6 by omega) hscan
        dsimp only
        rw [if_pos hver]

/-! ## Peeking at a header -/

section
variable {frame body rest seen : Bytes}

lemma peekedHeader_whole (hbody : frame = hmesgHeader frame.length ++ body) (hstart : seen <+: frame ++ rest)
    (hwhole : hmesgHdrlen ≤ seen.length) (stack : Bytes) :
    peekedHeader stack seen = hmesgHeader frame.length := by
  have hheader := length_hmesgHeader frame.length
  have htake := List.prefix_iff_eq_take.mp hstart
  rw [hbody, List.append_assoc] at htake
  unfold peekedHeader
  rw [List.take_append_of_le_length (by rw [List.length_take]; omega), List.take_take,
    Nat.min_eq_left (by omega), htake, List.take_take, Nat.min_eq_left hwhole, List.take_left' hheader]

/-- A header that is cut off, on a stack of zeros. -/
lemma peekedHeader_short (hbody : frame = hmesgHeader frame.length ++ body) (hstart : seen <+: frame ++ rest)
    (hless : seen.length < hmesgHdrlen) :
    peekedHeader (List.replicate (hmesgHdrlen + 1) 0) seen =
      (hmesgHeader frame.length).take seen.length ++ List.replicate (hmesgHdrlen - seen.length) 0 := by
  have hheader := length_hmesgHeader frame.length
  have hcut : seen = (hmesgHeader frame.length).take seen.length := by
    rw [hbody, List.append_assoc] at hstart
    have htake := List.prefix_iff_eq_take.mp hstart
    rwa [List.take_append_of_le_length (by omega)] at htake
  unfold peekedHeader
  rw [List.take_of_length_le (show seen.length ≤ hmesgHdrlen + 1 by omega), List.drop_replicate,
    List.take_append, List.take_of_length_le hless.le, List.take_replicate, Nat.min_eq_left (by omega),
    ← hcut]

/-- A short message is read as a whole. -/
lemma socketRead_frame (hbody : frame = hmesgHeader frame.length ++ body) (hshort : frame.length < 10000)
    {as : List Recv} (has : Delivers (frame ++ rest) as) :
    frame ≠ [] ∧ ∃ as', socketRead ((frame.length : ℤ) % 2 ^ 32).toNat as = some (some frame, as') ∧
      Delivers rest as' := by
  have hpos : frame ≠ [] := by
    intro hnil
    have hlen := congrArg List.length hbody
    rw [hnil, List.length_append, length_hmesgHeader, List.length_nil] at hlen
    unfold hmesgHdrlen at hlen
    omega
  have hmod : ((frame.length : ℤ) % 2 ^ 32).toNat = frame.length := by omega
  rw [hmod]
  exact ⟨hpos, socketRead_delivers hpos has⟩

end

/-! ## Messages -/

/-- A short serialized message is decoded. -/
lemma hmesgDeserialize_frame {mesg : HMesg V} (hfits : mesg.Fits) {frame : Bytes}
    (hframe : hmesgSerialize fmt mesg = some frame) (hshort : frame.length < 10000) :
    ∃ mesg', hmesgDeserialize fmt frame = some mesg' := by
  obtain ⟨-, body, hbody⟩ := hmesgSerialize_eq_some hframe
  obtain ⟨mesg', rest, hread, -⟩ := hmesgDeserializeBody_serializeBody hfits (hmesgSerialize_drop hframe)
  have hheader := (headers_of_lt hshort body).2
  rw [← hbody] at hheader
  unfold hmesgDeserialize
  rw [hheader, hread]
  exact ⟨mesg', rfl⟩

/-- However the bytes of a message arrive, it is received as if they had been there at once, whatever was
on the stack before, exactly if the first `recv` is not interrupted and sees the whole header. -/
theorem reception_iff (mesg : HMesg V) (hfits : mesg.Fits) (frame rest : Bytes)
    (hframe : hmesgSerialize fmt mesg = some frame) (hshort : frame.length ≤ 9999) (peek : Recv)
    (hpeek : Peeks (frame ++ rest) peek) (as : List Recv) (has : Delivers (frame ++ rest) as) :
    (∀ stack : Bytes, stack.length = hmesgHdrlen + 1 →
      ∃ mesg' as', mesgRecv fmt stack peek as = some (1, some mesg', as') ∧
        hmesgDeserialize fmt frame = some mesg' ∧ Delivers rest as') ↔
      ∃ seen, peek = .data seen ∧ hmesgHdrlen ≤ seen.length := by
  have hlt : frame.length < 10000 := by omega
  obtain ⟨-, body, hbody⟩ := hmesgSerialize_eq_some hframe
  constructor
  · intro h
    have hzeros := h (List.replicate (hmesgHdrlen + 1) 0) List.length_replicate
    obtain ⟨mesg', as', hrecv, -⟩ := hzeros
    rcases hpeek with rfl | ⟨seen, rfl, hseen, hstart, -⟩
    · cases hrecv
    · refine ⟨seen, rfl, ?_⟩
      by_contra hless
      rw [not_le] at hless
      have hnone := peekedLength_short hlt hless
      rw [← peekedHeader_short hbody hstart hless] at hnone
      unfold mesgRecv at hrecv
      dsimp only at hrecv
      rw [if_neg hseen, hnone] at hrecv
      cases hrecv
  · intro ⟨seen, hpeek', hwhole⟩ stack _
    subst hpeek'
    obtain ⟨seen', heq, hseen, hstart, -⟩ := hpeek.resolve_left Recv.noConfusion
    obtain rfl := Recv.data.inj heq
    obtain ⟨hpos, as', hread, hrest⟩ := socketRead_frame hbody hlt has
    obtain ⟨mesg', hmesg'⟩ := hmesgDeserialize_frame fmt hfits hframe hlt
    refine ⟨mesg', as', ?_, hmesg', hrest⟩
    unfold mesgRecv
    dsimp only
    rw [if_neg hseen, peekedHeader_whole hbody hstart hwhole, peekedLength_header hlt]
    dsimp only
    rw [hread]
    dsimp only
    rw [if_neg hpos, if_neg (lt_irrefl _), hmesg']

/-- A request to restart a session. -/
def restartRequest : HMesg ℤ := ⟨0, .restart, .req, some (cstr "a:b"), .none⟩

/-- Its 28 bytes. -/
def restartFrame : Bytes := hmesgMagic ++ cstr "002805:0:RES:REQ:3\"a:b\" "

lemma restartRequest_fits : restartRequest.Fits := ⟨by decide, trivial⟩

lemma hmesgSerialize_restartRequest :
    hmesgSerialize powerOfTwoFormat restartRequest = some restartFrame := by decide +kernel

/-- The request comes in two pieces of 12 and 16 bytes, with a signal between them, and the stack holds
the start of an earlier one. -/
theorem restart_in_two_pieces :
    ∃ mesg' as', mesgRecv powerOfTwoFormat (restartFrame.take 11) (.data (restartFrame.take 11))
        [.data (restartFrame.take 12), .intr, .data (restartFrame.drop 12)] = some (1, some mesg', as') ∧
      hmesgDeserialize powerOfTwoFormat restartFrame = some mesg' ∧ Delivers [] as' := by
  have hpeek : Peeks (restartFrame ++ []) (.data (restartFrame.take 11)) :=
    Or.inr ⟨_, rfl, by decide, by decide, by decide⟩
  have has : Delivers (restartFrame ++ [])
      [.data (restartFrame.take 12), .intr, .data (restartFrame.drop 12)] :=
    @Delivers.data (restartFrame.take 12) _ _ (by decide)
      (.intr (@Delivers.data (restartFrame.drop 12) [] [] (by decide) .nil))
  exact (reception_iff powerOfTwoFormat restartRequest restartRequest_fits restartFrame []
    hmesgSerialize_restartRequest (by decide) _ hpeek _ has).mpr ⟨_, rfl, by decide⟩ _ (by decide)

/-- The request is refused if its first four bytes come alone, or if a signal arrives before the first
byte. -/
theorem restart_not_received : ∃ stack : Bytes, stack.length = hmesgHdrlen + 1 ∧
    (Peeks restartFrame (.data (restartFrame.take 4)) ∧
      Delivers restartFrame [.data (restartFrame.take 4), .data (restartFrame.drop 4)] ∧
      mesgRecv powerOfTwoFormat stack (.data (restartFrame.take 4))
          [.data (restartFrame.take 4), .data (restartFrame.drop 4)] =
        some (-1, none, [.data (restartFrame.take 4), .data (restartFrame.drop 4)])) ∧
    Peeks restartFrame .intr ∧ Delivers restartFrame [.data restartFrame] ∧
      mesgRecv powerOfTwoFormat stack .intr [.data restartFrame] =
        some (-1, none, [.data restartFrame]) := by
  refine ⟨List.replicate 11 0, rfl, ⟨?_, ?_, ?_⟩, Or.inl rfl, ?_, rfl⟩
  · exact Or.inr ⟨_, rfl, by decide, by decide, by decide⟩
  · exact @Delivers.data (restartFrame.take 4) _ _ (by decide)
      (@Delivers.data (restartFrame.drop 4) [] [] (by decide) .nil)
  · have hlen : peekedLength (peekedHeader (List.replicate 11 0) (restartFrame.take 4)) = none := by
      decide +kernel
    unfold mesgRecv
    dsimp only
    rw [hlen, if_neg (by decide)]
  · exact @Delivers.data restartFrame [] [] (by decide) .nil

end ActiveHarmony
