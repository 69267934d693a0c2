import ActiveHarmony.Wire.Terminated

/-!
# The code generation helper

`codegen-helper.c` receives the messages of a session, which decodes them, and writes the buffer they were
received into to files for the code server. `mesg_write` takes a message to end at the first NUL of the
buffer, and decoding has put one behind every string: `forward_iff` says that a message that arrives is
forwarded unchanged exactly if it has no string. The first message of a session is serialized again before
it is written, and nothing of it is lost (`mesgWrite_serialized`).
-/

namespace ActiveHarmony

namespace CodegenHelper

open TextScan

/-! ## The loop of the helper -/

/-- `strlen`. -/
def strlen (mem : Bytes) : ℕ := (mem.takeWhile (· ≠ 0)).length

/-- `mesg_write`, where no call fails: the bytes it writes. `msglen` is an `unsigned short`. -/
def mesgWrite (mem : Bytes) : Bytes := mem.take (strlen mem % 2 ^ 16)

variable {V : Type} (fmt : LaFormat V)

/-- A message on the socket, in the loop of `main`: the bytes written to its file, unless the helper gives
up. Behind the message the buffer has the NUL of `mesg_recv`, and what was there before. -/
def forward (stack behind : Bytes) (peek : Recv) (as : List Recv) : Option (Option Bytes × List Recv) :=
  (mesgRecvInPlace fmt stack peek as).map fun r =>
    (if r.1 < 1 then none else r.2.1.map fun m => mesgWrite (m.2 ++ 0 :: behind), r.2.2)

/-- A round of the loop: the array for the header, the buffer behind the message, and the first `recv`. -/
structure Round where
  stack : Bytes
  behind : Bytes
  peek : Recv

/-- Rounds with a message on the socket: the files written, up to the round in which the helper gives up. -/
def forwardLoop : List Round → List Recv → Option (List Bytes × List Recv)
  | [], as => some ([], as)
  | round :: rounds, as =>
    match forward fmt round.stack round.behind round.peek as with
    | none => none
    | some (none, as) => some ([], as)
    | some (some file, as) => (forwardLoop rounds as).map fun r => (file :: r.1, r.2)

/-! ## Writing a buffer -/

lemma strlen_text {text : Bytes} (htext : 0 ∉ text) (behind : Bytes) :
    strlen (text ++ 0 :: behind) = text.length := by
  have hpass : ∀ c ∈ text, decide (c ≠ 0) = true := fun c hc =>
    decide_eq_true fun hzero => htext (hzero ▸ hc)
  unfold strlen
  rw [List.takeWhile_append_of_pos hpass, List.takeWhile_cons_of_neg (by simp), List.append_nil]

/-- A text is written as it is. -/
theorem mesgWrite_text {text : Bytes} (htext : 0 ∉ text) (hlen : text.length < 2 ^ 16) (behind : Bytes) :
    mesgWrite (text ++ 0 :: behind) = text := by
  rw [mesgWrite, strlen_text htext, Nat.mod_eq_of_lt hlen, List.take_left]

/-- What is behind a NUL is not written. -/
theorem length_mesgWrite_lt {buf : Bytes} (hzero : 0 ∈ buf) (behind : Bytes) :
    (mesgWrite (buf ++ behind)).length < buf.length := by
  obtain ⟨text, rest, rfl, htext⟩ := List.eq_append_cons_of_mem hzero
  rw [List.append_assoc, List.cons_append, mesgWrite, strlen_text htext]
  calc _ ≤ text.length % 2 ^ 16 := List.length_take_le _ _
    _ ≤ text.length := Nat.mod_le _ _
    _ < (text ++ 0 :: rest).length := by
      rw [List.length_append, List.length_cons]
      omega

variable {fmt} {mesg : HMesg V} {frame rest : Bytes} {as : List Recv}

/-- What `init_comm` does with the first message of a session: it is serialized, which leaves its bytes in the
buffer, and written. All of it is written, whatever its strings are. -/
theorem mesgWrite_serialized (hla : fmt.Textual) (hmesg : mesg.NulFree)
    (hframe : hmesgSerialize fmt mesg = some frame) (hshort : frame.length ≤ 9999) (behind : Bytes) :
    mesgWrite (frame ++ 0 :: behind) = frame :=
  mesgWrite_text (hmesgSerialize_terminated hla hframe (by omega) hmesg) (by omega) behind

/-! ## Forwarding a message -/

/-- A message whose header is seen has its bytes in its file, or it has a string. -/
theorem forward_whole (hla : fmt.Textual) (hrange : mesg.InRange)
    (hframe : hmesgSerialize fmt mesg = some frame) (hshort : frame.length ≤ 9999) {seen : Bytes}
    (hstart : seen <+: frame ++ rest) (hwhole : hmesgHdrlen ≤ seen.length)
    (has : Delivers (frame ++ rest) as) (stack behind : Bytes) :
    ∃ file as', forward fmt stack behind (.data seen) as = some (file, as') ∧ Delivers rest as' ∧
      (file = some frame ↔ mesg.hasString = false) := by
  have hlt : frame.length < 10000 := by omega
  obtain ⟨-, body, hbody⟩ := hmesgSerialize_eq_some hframe
  obtain ⟨hpos, as', hread, hrest⟩ := socketRead_frame hbody hlt has
  obtain ⟨hkeep, hmark⟩ := hmesgDeserializeInPlace_marks hla hrange hframe hlt
  have hseen : seen ≠ [] := by
    rintro rfl
    exact absurd hwhole (by decide)
  have hrecv : mesgRecvInPlace fmt stack (.data seen) as =
      (hmesgDeserializeInPlace fmt frame).elim (some (-1, none, as')) fun r => some (1, some r, as') := by
    unfold mesgRecvInPlace
    dsimp only
    rw [if_neg hseen, peekedHeader_whole hbody hstart hwhole, peekedLength_header hlt]
    dsimp only
    rw [hread]
    dsimp only
    rw [if_neg hpos, if_neg (lt_irrefl _)]
    cases hmesgDeserializeInPlace fmt frame with
    | none => rfl
    | some r => rfl
  cases hstring : mesg.hasString with
  | false =>
    obtain ⟨mesg', hdecode⟩ := hkeep hstring
    rw [hdecode] at hrecv
    refine ⟨_, as', by rw [forward, hrecv]; rfl, hrest, iff_of_true ?_ rfl⟩
    exact congrArg some
      (mesgWrite_serialized hla (HMesg.nulFree_of_hasString hstring) hframe hshort behind)
  | true =>
    cases hdecode : hmesgDeserializeInPlace fmt frame with
    | none =>
      rw [hdecode] at hrecv
      refine ⟨none, as', by rw [forward, hrecv]; rfl, hrest, iff_of_false ?_ (by decide)⟩
      intro heq
      cases heq
    | some r =>
      rw [hdecode] at hrecv
      refine ⟨_, as', by rw [forward, hrecv]; rfl, hrest, iff_of_false (fun heq => ?_) (by decide)⟩
      -- the file ends at the end of a string
      obtain ⟨hlen, hzero⟩ := hmark hstring r.1 r.2 hdecode
      have hless := length_mesgWrite_lt hzero (0 :: behind)
      have hfile : mesgWrite (r.2 ++ 0 :: behind) = frame := Option.some.inj heq
      rw [hfile, hlen] at hless
      exact lt_irrefl _ hless

/-- If the first `recv` does not see the whole header, the helper gives up unless the stack makes up for
it. -/
lemma forward_short (hframe : hmesgSerialize fmt mesg = some frame) (hshort : frame.length ≤ 9999)
    {peek : Recv} (hpeek : Peeks (frame ++ rest) peek)
    (hpart : ¬ ∃ seen, peek = .data seen ∧ hmesgHdrlen ≤ seen.length) (behind : Bytes) :
    forward fmt (List.replicate (hmesgHdrlen + 1) 0) behind peek as = some (none, as) := by
  obtain ⟨-, body, hbody⟩ := hmesgSerialize_eq_some hframe
  obtain rfl | ⟨seen, rfl, hseen, hstart, -⟩ := hpeek
  · rfl
  have hless : seen.length < hmesgHdrlen := by
    by_contra hle
    exact hpart ⟨seen, rfl, not_lt.mp hle⟩
  have hnone := peekedLength_short (show frame.length < 10000 by omega) hless
  rw [← peekedHeader_short hbody hstart hless] at hnone
  unfold forward mesgRecvInPlace
  dsimp only
  rw [if_neg hseen, hnone]
  rfl

/-- However a message of at most 9999 bytes arrives, the file written for it has its bytes, whatever was on
the stack and in the buffer before, exactly if the first `recv` sees the whole header and the message has no
string. -/
theorem forward_iff (hla : fmt.Textual) (mesg : HMesg V) (hrange : mesg.InRange) (frame rest : Bytes)
    (hframe : hmesgSerialize fmt mesg = some frame) (hshort : frame.length ≤ 9999) (peek : Recv)
    (hpeek : Peeks (frame ++ rest) peek) (as : List Recv) (has : Delivers (frame ++ rest) as) :
    (∀ stack behind : Bytes, stack.length = hmesgHdrlen + 1 →
      ∃ as', forward fmt stack behind peek as = some (some frame, as') ∧ Delivers rest as') ↔
      (∃ seen, peek = .data seen ∧ hmesgHdrlen ≤ seen.length) ∧ mesg.hasString = false := by
  by_cases hseen : ∃ seen, peek = .data seen ∧ hmesgHdrlen ≤ seen.length
  · rw [and_iff_right hseen]
    obtain ⟨seen, rfl, hwhole⟩ := hseen
    obtain ⟨seen', heq, -, hstart, -⟩ := hpeek.resolve_left Recv.noConfusion
    obtain rfl := Recv.data.inj heq
    have hforward := forward_whole hla hrange hframe hshort hstart hwhole has
    constructor
    · intro h
      obtain ⟨as', hunchanged, -⟩ := h (List.replicate (hmesgHdrlen + 1) 0) [] List.length_replicate
      obtain ⟨file, as'', hfile, -, hiff⟩ := hforward (List.replicate (hmesgHdrlen + 1) 0) []
      rw [hunchanged] at hfile
      cases hfile
      exact hiff.mp rfl
    · intro hno stack behind _
      obtain ⟨file, as', hfile, hrest, hiff⟩ := hforward stack behind
      rw [hiff.mpr hno] at hfile
      exact ⟨as', hfile, hrest⟩
  · refine iff_of_false (fun h => ?_) fun h => hseen h.1
    obtain ⟨as', hunchanged, -⟩ := h (List.replicate (hmesgHdrlen + 1) 0) [] List.length_replicate
    rw [forward_short hframe hshort hpeek hseen] at hunchanged
    cases hunchanged

/-! ## Messages with a point -/

/-- The numbers of `powerOfTwoFormat` are texts. -/
lemma powerOfTwoFormat_textual : powerOfTwoFormat.Textual where
  print_terminated e := by
    show 0 ∉ cstr "0x1p" ++ ((if e < 0 then 45 else 43) :: decimal e.natAbs)
    rw [List.mem_append, List.mem_cons, not_or, not_or]
    refine ⟨by decide, ?_, decimal_terminated _⟩
    split_ifs <;> decide
  scan_suffixed := (suffixed_exactly _).bind fun _ => suffixed_integer

/-- A point for the code server: three numbers. -/
def tilePoint : HMesg ℤ :=
  ⟨0, .fetch, .ok, none, .point { id := 7, val := [.int 64, .int (-8), .real 3] }⟩

/-- Its bytes. -/
def tileFrame : Bytes :=
  hmesgMagic ++ cstr "007705:0:FET:ACK:0\"0\" hpoint:7 3 hval:INT 64 hval:INT -8 hval:REL 0x1p+3 "

lemma tilePoint_inRange : tilePoint.InRange := by
  refine ⟨by decide, by decide, by decide, fun v hv => ?_⟩
  obtain rfl | rfl | rfl : v = .int 64 ∨ v = .int (-8) ∨ v = .real 3 := by simpa using hv
  · show IsLong 64
    decide
  · show IsLong (-8)
    decide
  · trivial

lemma hmesgSerialize_tilePoint : hmesgSerialize powerOfTwoFormat tilePoint = some tileFrame := by
  decide +kernel

/-- The point comes in two pieces, and is forwarded as it was sent: behind it the buffer has the end of
another message. -/
theorem forward_tilePoint :
    ∃ as', forward powerOfTwoFormat (List.replicate 11 48) (cstr "REL 0x1p+9 ") (.data (tileFrame.take 11))
      [.data (tileFrame.take 40), .intr, .data (tileFrame.drop 40)] = some (some tileFrame, as') ∧
      Delivers [] as' := by
  have hpeek : Peeks (tileFrame ++ []) (.data (tileFrame.take 11)) :=
    Or.inr ⟨_, rfl, by decide, by decide, by decide⟩
  have has : Delivers (tileFrame ++ [])
      [.data (tileFrame.take 40), .intr, .data (tileFrame.drop 40)] :=
    @Delivers.data (tileFrame.take 40) _ _ (by decide)
      (.intr (@Delivers.data (tileFrame.drop 40) [] [] (by decide) .nil))
  exact (forward_iff powerOfTwoFormat_textual tilePoint tilePoint_inRange tileFrame []
    hmesgSerialize_tilePoint (by decide) _ hpeek _ has).mpr ⟨⟨_, rfl, by decide⟩, rfl⟩ _ _ rfl

/-- A point with the order of the loops as a string. -/
def orderPoint : HMesg ℤ :=
  ⟨0, .fetch, .ok, none, .point { id := 7, val := [.str (some (cstr "ijk")), .int 64] }⟩

/-- Its bytes. -/
def orderFrame : Bytes :=
  hmesgMagic ++ cstr "006505:0:FET:ACK:0\"0\" hpoint:7 2 hval:STR 3\"ijk\" hval:INT 64 "

/-- It arrives at once and is decoded, but its file ends with the letters of the string. -/
theorem forward_orderPoint :
    hmesgSerialize powerOfTwoFormat orderPoint = some orderFrame ∧ orderFrame.length = 65 ∧
      Peeks orderFrame (.data (orderFrame.take 11)) ∧ Delivers orderFrame [.data orderFrame] ∧
      forward powerOfTwoFormat (List.replicate 11 0) [] (.data (orderFrame.take 11)) [.data orderFrame] =
        some (some (hmesgMagic ++ cstr "006505:0:FET:ACK:0\"0\" hpoint:7 2 hval:STR 3\"ijk"), []) := by
  refine ⟨by decide +kernel, by decide, Or.inr ⟨_, rfl, by decide, by decide, by decide⟩, ?_, ?_⟩
  · exact @Delivers.data orderFrame [] [] (by decide) .nil
  · decide +kernel

/-! ## A run of the loop -/

/-- The first `recv` of each round sees the header of its message. -/
inductive SeesHeaders : List Bytes → List Round → Prop
  | nil : SeesHeaders [] []
  | cons {frame : Bytes} {frames : List Bytes} {seen : Bytes} {round : Round} {rounds : List Round} :
      round.peek = .data seen → seen <+: frame ++ frames.flatten → hmesgHdrlen ≤ seen.length →
      SeesHeaders frames rounds → SeesHeaders (frame :: frames) (round :: rounds)

/-- In a run, the files are the messages exactly if none of these has a string. -/
theorem forwardLoop_files (hla : fmt.Textual) (sents : List (HMesg V × Bytes))
    (hsents : ∀ s ∈ sents, s.1.InRange ∧ hmesgSerialize fmt s.1 = some s.2 ∧ s.2.length ≤ 9999)
    (rounds : List Round) (hrounds : SeesHeaders (sents.map Prod.snd) rounds) (as : List Recv)
    (has : Delivers (sents.map Prod.snd).flatten as) :
    ∃ files as', forwardLoop fmt rounds as = some (files, as') ∧
      (files = sents.map Prod.snd ↔ ∀ s ∈ sents, s.1.hasString = false) := by
  induction sents generalizing rounds as with
  | nil =>
    cases hrounds
    exact ⟨[], as, rfl, iff_of_true rfl fun s hs => absurd hs List.not_mem_nil⟩
  | cons s sents ih =>
    obtain ⟨hrange, hframe, hshort⟩ := hsents s List.mem_cons_self
    rw [List.map_cons] at hrounds has ⊢
    rw [List.flatten_cons] at has
    cases hrounds with
    | @cons _ _ seen round rounds hpeek hstart hwhole hrounds =>
      obtain ⟨file, as₁, hforward, hrest, hfile⟩ :=
        forward_whole hla hrange hframe hshort hstart hwhole has round.stack round.behind
      rw [List.forall_mem_cons, ← hfile, forwardLoop, hpeek, hforward]
      cases file with
      | none => exact ⟨[], as₁, rfl, iff_of_false (List.cons_ne_nil _ _).symm fun h => nomatch h.1⟩
      | some file =>
        obtain ⟨files, as', hloop, hfiles⟩ :=
          ih (fun t ht => hsents t (List.mem_cons_of_mem s ht)) rounds hrounds as₁ hrest
        refine ⟨file :: files, as', by dsimp only; rw [hloop]; rfl, ?_⟩
        rw [← hfiles, List.cons.injEq, Option.some.injEq]

end CodegenHelper

end ActiveHarmony
