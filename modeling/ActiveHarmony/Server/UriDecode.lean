import ActiveHarmony.Lib.BoundedBuffer
import ActiveHarmony.Server.Http

/-!
# Decoding a URI in place

`uri_decode` reads the request with one pointer and writes over it with another.
-/

namespace ActiveHarmony

open BoundedBuffer

/-! ## Decoding in place -/

/-- Store a byte at a position that was already read. -/
def storeRead (mem : Bytes) (head tail : ℕ) (c : UInt8) : Option Bytes :=
  if tail ≤ head then write mem tail c else none

/-- The value of the two digits behind a percent sign; the second byte is only read behind a first digit. -/
def hexPair (mem : Bytes) (head : ℕ) : Option (Option ℕ) :=
  (read mem (head + 1)).bind fun hi =>
    match hexDigit hi with
    | none => some none
    | some h => (read mem (head + 2)).map fun lo => (hexDigit lo).map fun l => h * 16 + l

/-- The byte that one round stores, and how many bytes it reads behind `*head`. -/
def uriByte (mem : Bytes) (head : ℕ) (c : UInt8) : Option (UInt8 × ℕ) :=
  if c = 37 then
    (hexPair mem head).map fun pair =>
      match pair with
      | some val => (val.toUInt8, 2)
      | none => (c, 0)
  else some (c, 0)

lemma length_storeRead {mem mem' : Bytes} {head tail : ℕ} {c : UInt8}
    (h : storeRead mem head tail c = some mem') :
    mem'.length = mem.length := by
  unfold storeRead at h
  split_ifs at h
  exact length_write h

/-- `uri_decode`, with its two pointers. A read outside of the buffer has no result, and neither has a store
in front of `head`. -/
def uriDecodeFrom (mem : Bytes) (head tail : ℕ) : Option Bytes :=
  match _hread : read mem head with
  | none => none
  | some c =>
    if c = 0 then storeRead mem head tail 0
    else
      match uriByte mem head c with
      | none => none
      | some (d, n) =>
        match _hstore : storeRead mem head tail d with
        | none => none
        | some mem' => uriDecodeFrom mem' (head + n + 1) (tail + 1)
termination_by mem.length - head
decreasing_by
  have hlt := lt_of_read _hread
  have hlen := length_storeRead _hstore
  omega

/-- What has been read and not written over is a gap in front of `head`. -/
lemma storeRead_window (done rest window : Bytes) (hne : window ≠ []) {head : ℕ} (d : UInt8)
    (hhead : done.length ≤ head) :
    ∃ gap, gap.length + 1 = window.length ∧
      storeRead (done ++ (window ++ rest)) head done.length d = some (done ++ [d] ++ (gap ++ rest)) := by
  cases window with
  | nil => exact absurd rfl hne
  | cons g gap =>
    refine ⟨gap, rfl, ?_⟩
    unfold storeRead
    rw [if_pos hhead, List.cons_append, write_append, List.append_assoc]
    rfl

/-- What stands at `head`. -/
lemma read_window (done gap text : Bytes) (k : ℕ) :
    BoundedBuffer.read (done ++ (gap ++ text)) (done.length + gap.length + k) = text[k]? := by
  unfold BoundedBuffer.read
  rw [← List.append_assoc, ← List.length_append, List.getElem?_append_right (Nat.le_add_right _ _)]
  congr 1
  omega

section
variable (done gap behind : Bytes)

/-- Two digits behind a percent sign are read. -/
lemma hexPair_digits {hi lo : UInt8} {h l : ℕ} (hhi : hexDigit hi = some h) (hlo : hexDigit lo = some l)
    (c : UInt8) (rest : Bytes) :
    hexPair (done ++ (gap ++ c :: hi :: lo :: rest)) (done.length + gap.length) =
      some (some (h * 16 + l)) := by
  unfold hexPair
  rw [read_window, read_window]
  show (match hexDigit hi with | none => _ | some h => _) = _
  rw [hhi]
  show some ((hexDigit lo).map _) = _
  rw [hlo]
  rfl

/-- What stands behind a percent sign is looked at up to the terminator only. -/
lemma hexPair_other {text : Bytes} (hno : ∀ hi lo rest h l, text = hi :: lo :: rest → hexDigit hi = some h →
    hexDigit lo = some l → False) (c : UInt8) :
    hexPair (done ++ (gap ++ c :: (text ++ 0 :: behind))) (done.length + gap.length) = some none := by
  unfold hexPair
  rw [read_window, read_window]
  cases text with
  | nil => rfl
  | cons hi text =>
    show (match hexDigit hi with | none => _ | some h => _) = _
    cases hhi : hexDigit hi with
    | none => rfl
    | some h =>
      cases text with
      | nil => rfl
      | cons lo rest =>
        show some ((hexDigit lo).map _) = _
        cases hlo : hexDigit lo with
        | none => rfl
        | some l => exact (hno hi lo rest h l rfl hhi hlo).elim

end

/-- One round that reads the bytes `read` and stores one. -/
lemma uriDecodeFrom_step (done gap rest : Bytes) {c d : UInt8} {more : Bytes} (hc : c ≠ 0)
    (hbyte : uriByte (done ++ (gap ++ c :: (more ++ rest))) (done.length + gap.length) c =
      some (d, more.length)) :
    ∃ gap', gap'.length = gap.length + more.length ∧
      uriDecodeFrom (done ++ (gap ++ c :: (more ++ rest))) (done.length + gap.length) done.length =
        uriDecodeFrom (done ++ [d] ++ (gap' ++ rest)) ((done ++ [d]).length + gap'.length)
          (done ++ [d]).length := by
  have hread := read_window done gap (c :: (more ++ rest)) 0
  rw [Nat.add_zero] at hread
  have hcells : gap ++ c :: (more ++ rest) = (gap ++ c :: more) ++ rest := by simp
  obtain ⟨gap', hlen, hstore⟩ := storeRead_window done rest (gap ++ c :: more) (by simp) d
    (Nat.le_add_right done.length gap.length)
  rw [← hcells] at hstore
  rw [List.length_append, List.length_cons] at hlen
  refine ⟨gap', by omega, ?_⟩
  rw [uriDecodeFrom]
  split
  · next hnone =>
    rw [hnone] at hread
    cases hread
  · next c' hsome =>
    rw [hsome] at hread
    cases hread
    rw [if_neg hc, hbyte]
    dsimp only
    split
    · next hnone =>
      rw [hnone] at hstore
      cases hstore
    · next mem' hsome' =>
      rw [hsome'] at hstore
      cases hstore
      have hhead : done.length + gap.length + more.length + 1 = (done ++ [d]).length + gap'.length := by
        rw [List.length_append, List.length_singleton]
        omega
      rw [hhead, List.length_append, List.length_singleton]

/-- A round that copies a byte. -/
lemma uriDecodeFrom_copy (done gap behind : Bytes) (c : UInt8) (text : Bytes) (hc : c ≠ 0)
    (hno : ∀ hi lo rest h l, c = 37 → text = hi :: lo :: rest → hexDigit hi = some h →
      hexDigit lo = some l → False) :
    ∃ gap', gap'.length = gap.length ∧
      uriDecodeFrom (done ++ (gap ++ c :: (text ++ 0 :: behind))) (done.length + gap.length) done.length =
        uriDecodeFrom (done ++ [c] ++ (gap' ++ (text ++ 0 :: behind))) ((done ++ [c]).length + gap'.length)
          (done ++ [c]).length := by
  have hbyte : uriByte (done ++ (gap ++ c :: ([] ++ (text ++ 0 :: behind)))) (done.length + gap.length) c =
      some (c, ([] : Bytes).length) := by
    unfold uriByte
    by_cases h37 : c = 37
    · rw [if_pos h37, List.nil_append]
      rw [hexPair_other done gap behind fun hi lo rest h l => hno hi lo rest h l h37]
      rfl
    · rw [if_neg h37]
      rfl
  exact uriDecodeFrom_step done gap (text ++ 0 :: behind) hc hbyte

/-- The terminator is stored behind what was decoded. -/
lemma uriDecodeFrom_end (done gap behind : Bytes) :
    ∃ rest, rest.length = gap.length ∧
      uriDecodeFrom (done ++ (gap ++ 0 :: behind)) (done.length + gap.length) done.length =
        some (done ++ [0] ++ (rest ++ behind)) := by
  have hread := read_window done gap (0 :: behind) 0
  rw [Nat.add_zero] at hread
  obtain ⟨rest, hlen, hstore⟩ := storeRead_window done behind (gap ++ [0]) (by simp) 0
    (Nat.le_add_right done.length gap.length)
  rw [List.append_assoc] at hstore
  rw [List.length_append, List.length_singleton] at hlen
  refine ⟨rest, Nat.succ.inj hlen, ?_⟩
  rw [uriDecodeFrom]
  split
  · next hnone => cases hread.symm.trans hnone
  · next c hsome =>
    cases hread.symm.trans hsome
    rw [if_pos rfl]
    exact hstore

/-- A text is decoded up to its terminator. -/
lemma uriDecodeFrom_text (text : Bytes) (htext : 0 ∉ text) (done gap behind : Bytes) :
    ∃ rest, (uriDecode text).length + rest.length = gap.length + text.length ∧
      uriDecodeFrom (done ++ (gap ++ (text ++ 0 :: behind))) (done.length + gap.length) done.length =
        some (done ++ (uriDecode text ++ 0 :: (rest ++ behind))) := by
  -- `done` is what was stored, and `gap` what was read since and not written over.
  fun_induction uriDecode text generalizing done gap with
  | case1 hi lo rest h l hlo hhi ih =>
    have hbyte : uriByte (done ++ (gap ++ 37 :: ([hi, lo] ++ (rest ++ 0 :: behind))))
        (done.length + gap.length) 37 =
        some ((h * 16 + l).toUInt8, [hi, lo].length) := by
      unfold uriByte
      rw [if_pos rfl]
      show (hexPair (done ++ (gap ++ 37 :: hi :: lo :: (rest ++ 0 :: behind))) _).map _ = _
      rw [hexPair_digits done gap hhi hlo]
      rfl
    obtain ⟨gap', hlen, hstep⟩ := uriDecodeFrom_step done gap (rest ++ 0 :: behind) (by decide) hbyte
    have hrest : 0 ∉ rest := by
      intro hmem
      apply htext
      exact List.mem_cons_of_mem _ (List.mem_cons_of_mem _ (List.mem_cons_of_mem _ hmem))
    obtain ⟨left, hcount, hrun⟩ := ih hrest (done ++ [(h * 16 + l).toUInt8]) gap'
    refine ⟨left, ?_, ?_⟩
    · simp only [List.length_cons, List.length_nil] at hlen ⊢
      omega
    · exact hstep.trans (hrun.trans (by simp))
  | case2 hi lo rest hnone ih =>
    -- The two characters are no digits, and are read again as characters of their own.
    obtain ⟨gap', hlen, hstep⟩ := uriDecodeFrom_copy done gap behind 37 (hi :: lo :: rest) (by decide)
      (fun hi' lo' rest' h l _ heq hhi hlo => by
        cases heq
        exact hnone h l hhi hlo)
    obtain ⟨left, hcount, hrun⟩ := ih (fun hmem => htext (List.mem_cons_of_mem _ hmem)) (done ++ [37]) gap'
    refine ⟨left, ?_, ?_⟩
    · rw [List.length_cons, List.length_cons]
      omega
    · exact hstep.trans (hrun.trans (by simp))
  | case3 c rest hne ih =>
    obtain ⟨gap', hlen, hstep⟩ := uriDecodeFrom_copy done gap behind c rest
      (fun hzero => htext (hzero ▸ List.mem_cons_self))
      (fun hi lo rest' h l h37 heq _ _ => hne hi lo rest' h37 heq)
    obtain ⟨left, hcount, hrun⟩ := ih (fun hmem => htext (List.mem_cons_of_mem _ hmem)) (done ++ [c]) gap'
    refine ⟨left, ?_, ?_⟩
    · rw [List.length_cons, List.length_cons]
      omega
    · exact hstep.trans (hrun.trans (by simp))
  | case4 =>
    obtain ⟨left, hlen, hrun⟩ := uriDecodeFrom_end done gap behind
    refine ⟨left, ?_, ?_⟩
    · rw [List.length_nil]
      omega
    · exact hrun.trans (by simp)

/-! ## Encodings -/

/-- An encoding of a text: every percent sign in it is written as a percent sign and two digits, and so
may be any other byte. -/
inductive Encodes : Bytes → Bytes → Prop
  | nil : Encodes [] []
  | plain {c : UInt8} {text uri : Bytes} : c ≠ 37 → Encodes text uri → Encodes (c :: text) (c :: uri)
  | escaped {c hi lo : UInt8} {text uri : Bytes} : hexDigit hi = some (c.toNat / 16) →
      hexDigit lo = some (c.toNat % 16) → Encodes text uri → Encodes (c :: text) (37 :: hi :: lo :: uri)

lemma Encodes.uriDecode_eq {text uri : Bytes} (h : Encodes text uri) : uriDecode uri = text := by
  induction h with
  | nil => rfl
  | plain hc _ ih =>
    rw [uriDecode, ih]
    intro hi lo rest h37
    exact absurd h37 hc
  | escaped hhi hlo _ ih =>
    rw [uriDecode, hhi, hlo]
    dsimp only
    rw [ih, Nat.div_add_mod']
    congr 1
    exact UInt8.ofNat_toNat

lemma Encodes.terminated {text uri : Bytes} (h : Encodes text uri) (htext : 0 ∉ text) : 0 ∉ uri := by
  induction h with
  | nil => exact htext
  | plain _ _ ih =>
    rw [List.mem_cons, not_or] at htext ⊢
    exact ⟨htext.1, ih htext.2⟩
  | escaped hhi hlo _ ih =>
    rw [List.mem_cons, not_or] at htext
    simp only [List.mem_cons, not_or]
    refine ⟨by decide, ?_, ?_, ih htext.2⟩
    · rintro rfl
      cases hhi
    · rintro rfl
      cases hlo

/-- `uri_decode` of the buffer. -/
def uriDecodeBuf (buf : Bytes) : Option Bytes := uriDecodeFrom buf 0 0

lemma uriDecodeBuf_text {text : Bytes} (htext : 0 ∉ text) (behind : Bytes) :
    ∃ rest, (uriDecode text).length + rest.length = text.length ∧
      uriDecodeBuf (text ++ 0 :: behind) = some (uriDecode text ++ 0 :: (rest ++ behind)) := by
  obtain ⟨rest, hlen, hrun⟩ := uriDecodeFrom_text text htext [] [] behind
  refine ⟨rest, ?_, hrun⟩
  rw [List.length_nil, Nat.zero_add] at hlen
  exact hlen

/-- An encoding is decoded to the text, and every text is decoded inside of its own cells. -/
theorem uriDecode_undoes (behind : Bytes) :
    (∀ text uri : Bytes, 0 ∉ text → Encodes text uri →
      ∃ rest, uriDecodeBuf (uri ++ 0 :: behind) = some (text ++ 0 :: (rest ++ behind))) ∧
    (∀ uri : Bytes, 0 ∉ uri → ∃ rest, (uriDecode uri).length + rest.length = uri.length ∧
      uriDecodeBuf (uri ++ 0 :: behind) = some (uriDecode uri ++ 0 :: (rest ++ behind))) := by
  constructor
  · intro text uri htext henc
    obtain ⟨rest, -, hrun⟩ := uriDecodeBuf_text (henc.terminated htext) behind
    rw [henc.uriDecode_eq] at hrun
    exact ⟨rest, hrun⟩
  · intro uri huri
    exact uriDecodeBuf_text huri behind

/-- A request whose separators and percent signs are encoded. -/
theorem uriDecode_undoes_request :
    (∃ rest, uriDecodeBuf (cstr "/a%3F50%25%2b" ++ [0]) = some (cstr "/a?50%+" ++ 0 :: (rest ++ []))) ∧
    (∃ rest, (uriDecode (cstr "a%4")).length + rest.length = 3 ∧
      uriDecodeBuf (cstr "a%4" ++ [0]) = some (uriDecode (cstr "a%4") ++ 0 :: (rest ++ []))) := by
  obtain ⟨hdecode, hany⟩ := uriDecode_undoes []
  constructor
  · apply hdecode _ _ (by decide)
    apply Encodes.plain (by decide)
    apply Encodes.plain (by decide)
    apply Encodes.escaped (by decide) (by decide)
    apply Encodes.plain (by decide)
    apply Encodes.plain (by decide)
    apply Encodes.escaped (by decide) (by decide)
    exact Encodes.escaped (by decide) (by decide) .nil
  · exact hany (cstr "a%4") (by decide)

end ActiveHarmony
