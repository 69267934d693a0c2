import Mathlib.Algebra.Order.Ring.Nat
import Mathlib.Data.List.Basic
import Mathlib.Tactic.Common
import Mathlib.Tactic.Positivity
import Mathlib.Tactic.Ring

/-!
# Printing and scanning text

Texts are lists of bytes. A `Scanner` reads a value from the front of a text and returns what
follows it, in the manner of `sscanf`.

A token is printed with a blank after it, and a scanner of the token skips blanks before the
token and stops in front of the blank behind it. `Reads p e a` says that `p` reads the token
`e` as `a`; `Continues p e a` says the same of a possibly empty sequence of tokens that is
entered at the blank left by the token before. Both compose along `bind`, so that the round
trip of a nested format follows its structure.
-/

namespace TextScan

/-- The bytes of a text. -/
abbrev Text := List UInt8

/-- The blank that ends a token. -/
def blank : UInt8 := 32

/-- White space in the "C" locale. -/
def isSpace (c : UInt8) : Bool := c == 32 || (9 ≤ c && c ≤ 13)

/-- Decimal digits. -/
def isDigit (c : UInt8) : Bool := 48 ≤ c && c ≤ 57

/-! ## Decimal numbers -/

/-- The digit of a number below ten. -/
def digit (d : ℕ) : UInt8 := (48 + d).toUInt8

/-- The last `fuel` decimal digits. -/
def decimalAux : ℕ → ℕ → Text
  | 0, _ => []
  | fuel + 1, n => if n < 10 then [digit n] else decimalAux fuel (n / 10) ++ [digit (n % 10)]

/-- A number in decimal. -/
def decimal (n : ℕ) : Text := decimalAux (n + 1) n

/-- A signed number in decimal. -/
def decimalInt (z : ℤ) : Text := if z < 0 then 45 :: decimal z.natAbs else decimal z.natAbs

lemma digit_toNat {d : ℕ} (hd : d < 10) : (digit d).toNat = 48 + d := by
  unfold digit
  rw [Nat.toUInt8_eq, UInt8.toNat_ofNat']
  omega

lemma isDigit_digit {d : ℕ} (hd : d < 10) : isDigit (digit d) = true := by
  have hval := digit_toNat hd
  unfold isDigit
  simp only [Bool.and_eq_true, decide_eq_true_eq, UInt8.le_iff_toNat_le, UInt8.reduceToNat]
  omega

lemma isDigit_not_isSpace {c : UInt8} (hc : isDigit c = true) : isSpace c = false := by
  unfold isDigit at hc
  unfold isSpace
  simp only [Bool.and_eq_true, decide_eq_true_eq, UInt8.le_iff_toNat_le, UInt8.reduceToNat] at hc
  simp only [Bool.or_eq_false_iff, beq_eq_false_iff_ne, ne_eq, Bool.and_eq_false_iff,
    decide_eq_false_iff_not, UInt8.le_iff_toNat_le, UInt8.reduceToNat, ← UInt8.toNat_inj]
  omega

/-- A decimal number starts with a digit. -/
lemma decimalAux_head (fuel n : ℕ) :
    ∃ c cs, decimalAux (fuel + 1) n = c :: cs ∧ isDigit c = true := by
  induction fuel generalizing n with
  | zero =>
    by_cases hn : n < 10
    · exact ⟨digit n, [], by rw [decimalAux, if_pos hn], isDigit_digit hn⟩
    · refine ⟨digit (n % 10), [], ?_, isDigit_digit (Nat.mod_lt n (by omega))⟩
      rw [decimalAux, if_neg hn]
      rfl
  | succ fuel ih =>
    by_cases hn : n < 10
    · exact ⟨digit n, [], by rw [decimalAux, if_pos hn], isDigit_digit hn⟩
    · rcases ih (n / 10) with ⟨c, cs, hcs, hc⟩
      refine ⟨c, cs ++ [digit (n % 10)], ?_, hc⟩
      rw [decimalAux, if_neg hn, hcs]
      rfl

lemma decimal_head (n : ℕ) : ∃ c cs, decimal n = c :: cs ∧ isDigit c = true :=
  decimalAux_head n n

/-- A number has at most `k` digits if and only if it is below `10 ^ k`. -/
lemma length_decimalAux_le_iff {fuel n k : ℕ} (hfuel : n < fuel) (hk : 0 < k) :
    (decimalAux fuel n).length ≤ k ↔ n < 10 ^ k := by
  induction fuel generalizing n k with
  | zero => omega
  | succ fuel ih =>
    rw [decimalAux]
    by_cases hn : n < 10
    · rw [if_pos hn, List.length_singleton]
      have hpow : 10 ^ 1 ≤ 10 ^ k := Nat.pow_le_pow_right (by omega) hk
      omega
    · rw [if_neg hn, List.length_append, List.length_singleton]
      rcases Nat.exists_eq_succ_of_ne_zero (Nat.pos_iff_ne_zero.mp hk) with ⟨j, rfl⟩
      rw [Nat.succ_eq_add_one, Nat.add_le_add_iff_right, pow_succ]
      rcases Nat.eq_zero_or_pos j with rfl | hj
      · -- a number of two digits does not fit in one
        rcases fuel with _ | fuel
        · omega
        · rcases decimalAux_head fuel (n / 10) with ⟨c, cs, hcs, -⟩
          rw [hcs, List.length_cons]
          omega
      · rw [ih (by omega) hj]
        omega

lemma length_decimal_le_iff {n k : ℕ} (hk : 0 < k) : (decimal n).length ≤ k ↔ n < 10 ^ k :=
  length_decimalAux_le_iff (Nat.lt_succ_self n) hk

lemma decimal_isDigit (n : ℕ) : ∀ c ∈ decimal n, isDigit c = true := by
  have haux : ∀ fuel m, ∀ c ∈ decimalAux fuel m, isDigit c = true := by
    intro fuel
    induction fuel with
    | zero => intro m c hc; cases hc
    | succ fuel ih =>
      intro m c hc
      rw [decimalAux] at hc
      by_cases hm : m < 10
      · rw [if_pos hm, List.mem_singleton] at hc
        rw [hc]
        exact isDigit_digit hm
      · rw [if_neg hm, List.mem_append, List.mem_singleton] at hc
        rcases hc with hc | rfl
        · exact ih _ c hc
        · exact isDigit_digit (Nat.mod_lt m (by omega))
  exact haux (n + 1) n

/-! ## Scanners -/

/-- Read a value from the front of a text. -/
abbrev Scanner (α : Type) := StateT Text Option α

/-- The value of the digits at the front, after digits of value `acc`. -/
def digitsFrom (acc : ℕ) : Text → ℕ × Text
  | [] => (acc, [])
  | c :: cs => if isDigit c then digitsFrom (acc * 10 + (c.toNat - 48)) cs else (acc, c :: cs)

/-- Skip white space. -/
def skipSpace (buf : Text) : Text := buf.dropWhile isSpace

/-- Read at least one digit. -/
def digits : Scanner ℕ
  | [] => none
  | c :: cs => if isDigit c then some (digitsFrom 0 (c :: cs)) else none

/-- Read an optional sign; `true` for a minus. -/
def sign : Text → Bool × Text
  | [] => (false, [])
  | c :: cs => if c = 45 then (true, cs) else if c = 43 then (false, cs) else (false, c :: cs)

/-- Skip white space and read a signed decimal number. -/
def integer : Scanner ℤ := fun buf =>
  let signed := sign (skipSpace buf)
  (digits signed.2).map fun r => (if signed.1 then -(r.1 : ℤ) else (r.1 : ℤ), r.2)

/-- Skip white space and match a literal text. -/
def literal (l : Text) : Scanner Unit := fun buf =>
  let buf := skipSpace buf
  if l.isPrefixOf buf then some ((), buf.drop l.length) else none

/-- Skip white space and read at most `n` bytes up to white space. -/
def word (n : ℕ) : Scanner Text := fun buf =>
  let buf := skipSpace buf
  let w := (buf.take n).takeWhile fun c => !isSpace c
  if w.isEmpty then none else some (w, buf.drop w.length)

/-- Read `n` values in a row. -/
def times {α : Type} (p : Scanner α) : ℕ → Scanner (List α)
  | 0 => pure []
  | n + 1 => do
    let a ← p
    let as ← times p n
    pure (a :: as)

variable {α β : Type} {p : Scanner α} {q : α → Scanner β} {e f ws rest : Text} {a : α} {b : β}

lemma bind_eq_of_eq_some {buf : Text} (h : p buf = some (a, rest)) : (p >>= q) buf = q a rest := by
  show (p buf).bind (fun r => q r.1 r.2) = q a rest
  rw [h]
  rfl

/-! ## What a scanner reads -/

/-- A text of white space only. -/
def Spaces (ws : Text) : Prop := ∀ c ∈ ws, isSpace c = true

lemma spaces_nil : Spaces [] := by simp [Spaces]

lemma spaces_blank : Spaces [blank] := by simp [Spaces, blank, isSpace]

/-- White space is skipped up to the first other byte. -/
lemma skipSpace_append (hws : Spaces ws) {c : UInt8} (hc : isSpace c = false) :
    skipSpace (ws ++ c :: rest) = c :: rest := by
  unfold skipSpace
  rw [List.dropWhile_append_of_pos hws, List.dropWhile_cons_of_neg (by simp [hc])]

/-- `p` reads the token `e`, with white space before it, as `a`, and leaves its last blank. -/
def Reads (p : Scanner α) (e : Text) (a : α) : Prop :=
  ∀ ws rest, Spaces ws → p (ws ++ (e ++ rest)) = some (a, blank :: rest)

/-- `p`, entered at a blank, reads the tokens `e` as `a` and leaves the last blank. -/
def Continues (p : Scanner α) (e : Text) (a : α) : Prop :=
  ∀ rest, p (blank :: (e ++ rest)) = some (a, blank :: rest)

lemma Reads.continues (h : Reads p e a) : Continues p e a :=
  fun rest => h [blank] rest spaces_blank

lemma Continues.pure (a : α) : Continues (pure a) [] a := fun _ => rfl

theorem Continues.bind (hp : Continues p e a) (hq : Continues (q a) f b) :
    Continues (p >>= q) (e ++ f) b := by
  intro rest
  have hread := hp (f ++ rest)
  rw [← List.append_assoc] at hread
  rw [bind_eq_of_eq_some hread]
  exact hq rest

theorem Reads.bind (hp : Reads p e a) (hq : Continues (q a) f b) :
    Reads (p >>= q) (e ++ f) b := by
  intro ws rest hws
  have hread := hp ws (f ++ rest) hws
  rw [← List.append_assoc e] at hread
  rw [bind_eq_of_eq_some hread]
  exact hq rest

/-- A scanner followed by a computation on its result. -/
lemma Reads.bind_pure (hp : Reads p e a) (b : β) (hb : q a = Pure.pure b) :
    Reads (p >>= q) e b := by
  have hbind := hp.bind (q := q) (f := []) (b := b) (by rw [hb]; exact Continues.pure b)
  rwa [List.append_nil] at hbind

lemma Continues.bind_pure (hp : Continues p e a) (b : β) (hb : q a = Pure.pure b) :
    Continues (p >>= q) e b := by
  have hbind := hp.bind (q := q) (f := []) (b := b) (by rw [hb]; exact Continues.pure b)
  rwa [List.append_nil] at hbind

/-- A literal in front of a token, with or without white space between them. -/
theorem Reads.literal {l sep : Text} {r : Scanner β} {c : UInt8} {cs : Text} (hl : l = c :: cs)
    (hc : isSpace c = false) (hsep : Spaces sep) (hr : Reads r f b) :
    Reads (literal l >>= fun _ => r) (l ++ (sep ++ f)) b := by
  intro ws rest hws
  have hskip : skipSpace (ws ++ ((l ++ (sep ++ f)) ++ rest)) = l ++ (sep ++ (f ++ rest)) := by
    rw [hl, List.cons_append, List.cons_append, skipSpace_append hws hc]
    simp
  have hlit : TextScan.literal l (ws ++ ((l ++ (sep ++ f)) ++ rest))
      = some ((), sep ++ (f ++ rest)) := by
    unfold TextScan.literal
    simp only [hskip]
    rw [if_pos (by rw [List.isPrefixOf_iff_prefix]; exact List.prefix_append ..),
      List.drop_left]
  rw [bind_eq_of_eq_some hlit]
  exact hr sep rest hsep

/-- A literal directly in front of a token. -/
lemma Reads.literal_tight {l : Text} {r : Scanner β} {c : UInt8} {cs : Text} (hl : l = c :: cs)
    (hc : isSpace c = false) (hr : Reads r f b) :
    Reads (TextScan.literal l >>= fun _ => r) (l ++ f) b :=
  Reads.literal hl hc spaces_nil hr

/-- Repeated tokens, printed by a function `enc` that may fail. -/
theorem Continues.times {γ : Type} {enc : γ → Option Text} {d : γ → α} {xs : List γ}
    {es : List Text} (hes : xs.mapM enc = some es)
    (h : ∀ x ∈ xs, ∀ e, enc x = some e → Continues p e (d x)) :
    Continues (times p xs.length) es.flatten (xs.map d) := by
  induction xs generalizing es with
  | nil =>
    rw [List.mapM_nil] at hes
    cases hes
    exact Continues.pure []
  | cons x xs ih =>
    rw [List.mapM_cons, Option.bind_eq_bind, Option.bind_eq_some_iff] at hes
    rcases hes with ⟨e, he, hes⟩
    rw [Option.bind_eq_bind, Option.bind_eq_some_iff] at hes
    rcases hes with ⟨es', hes', heq⟩
    cases heq
    have htail := ih hes' fun y hy => h y (List.mem_cons_of_mem x hy)
    rw [List.flatten_cons]
    exact (h x List.mem_cons_self e he).bind (htail.bind_pure (d x :: xs.map d) rfl)

/-! ## Reading numbers back -/

/-- The text does not go on with a digit. -/
def NoDigit (rest : Text) : Prop := ∀ c cs, rest = c :: cs → isDigit c = false

lemma noDigit_cons {c : UInt8} (hc : isDigit c = false) : NoDigit (c :: rest) := by
  intro c' cs heq
  cases heq
  exact hc

lemma digitsFrom_noDigit {acc : ℕ} (hrest : NoDigit rest) : digitsFrom acc rest = (acc, rest) := by
  cases rest with
  | nil => rfl
  | cons c cs =>
    have hc := hrest c cs rfl
    rw [digitsFrom, if_neg (by simp [hc])]

/-- Reading the digits of `n` after those of `acc`. -/
lemma digitsFrom_decimalAux {fuel n : ℕ} (hfuel : n < fuel) (acc : ℕ) (rest : Text) :
    digitsFrom acc (decimalAux fuel n ++ rest)
      = digitsFrom (acc * 10 ^ (decimalAux fuel n).length + n) rest := by
  induction fuel generalizing n acc rest with
  | zero => omega
  | succ fuel ih =>
    by_cases hn : n < 10
    · have hd := digit_toNat hn
      rw [decimalAux, if_pos hn, List.singleton_append, digitsFrom, if_pos (isDigit_digit hn), hd,
        List.length_singleton, pow_one, Nat.add_sub_cancel_left]
    · have hmod : n % 10 < 10 := Nat.mod_lt n (by omega)
      rw [decimalAux, if_neg hn, List.append_assoc, ih (by omega), List.singleton_append,
        digitsFrom, if_pos (isDigit_digit hmod), digit_toNat hmod, List.length_append,
        List.length_singleton, pow_succ, Nat.add_sub_cancel_left]
      congr 1
      have hdiv : n = n / 10 * 10 + n % 10 := by omega
      calc (acc * 10 ^ (decimalAux fuel (n / 10)).length + n / 10) * 10 + n % 10
          = acc * (10 ^ (decimalAux fuel (n / 10)).length * 10) + (n / 10 * 10 + n % 10) := by ring
        _ = acc * (10 ^ (decimalAux fuel (n / 10)).length * 10) + n := by rw [← hdiv]

theorem digits_decimal (n : ℕ) (hrest : NoDigit rest) :
    digits (decimal n ++ rest) = some (n, rest) := by
  rcases decimal_head n with ⟨c, cs, hcs, hc⟩
  have hread := digitsFrom_decimalAux (Nat.lt_succ_self n) 0 rest
  rw [Nat.zero_mul, Nat.zero_add, digitsFrom_noDigit hrest] at hread
  have hread' : digitsFrom 0 (decimal n ++ rest) = (n, rest) := hread
  rw [hcs, List.cons_append] at hread' ⊢
  rw [digits, if_pos hc, hread']

lemma sign_of_isDigit {c : UInt8} {cs : Text} (hc : isDigit c = true) :
    sign (c :: cs) = (false, c :: cs) := by
  have h45 : c ≠ 45 := by rintro rfl; revert hc; decide
  have h43 : c ≠ 43 := by rintro rfl; revert hc; decide
  rw [sign, if_neg h45, if_neg h43]

theorem integer_decimal (n : ℕ) (hws : Spaces ws) (hrest : NoDigit rest) :
    integer (ws ++ (decimal n ++ rest)) = some ((n : ℤ), rest) := by
  rcases decimal_head n with ⟨c, cs, hcs, hc⟩
  have hskip : skipSpace (ws ++ (decimal n ++ rest)) = decimal n ++ rest := by
    rw [hcs, List.cons_append, skipSpace_append hws (isDigit_not_isSpace hc)]
  have hsign : sign (decimal n ++ rest) = (false, decimal n ++ rest) := by
    rw [hcs, List.cons_append, sign_of_isDigit hc]
  unfold integer
  simp only [hskip, hsign, digits_decimal n hrest]
  rfl

/-- A printed number is read back, whatever non-digit follows it. -/
theorem integer_decimalInt (z : ℤ) (hws : Spaces ws) (hrest : NoDigit rest) :
    integer (ws ++ (decimalInt z ++ rest)) = some (z, rest) := by
  unfold decimalInt
  by_cases hz : z < 0
  · rw [if_pos hz]
    have hskip : skipSpace (ws ++ (45 :: decimal z.natAbs ++ rest))
        = 45 :: (decimal z.natAbs ++ rest) := skipSpace_append hws (by decide)
    unfold integer
    simp only [hskip, sign, if_true, digits_decimal _ hrest, Option.map_some]
    congr 2
    omega
  · rw [if_neg hz, integer_decimal _ hws hrest]
    congr 2
    omega

lemma noDigit_blank : NoDigit (blank :: rest) := noDigit_cons (by decide)

/-- A printed number with its blank is a token. -/
theorem reads_integer (z : ℤ) : Reads integer (decimalInt z ++ [blank]) z := by
  intro ws rest hws
  rw [List.append_assoc, List.singleton_append]
  exact integer_decimalInt z hws noDigit_blank

/-- A text without white space. -/
def Solid (w : Text) : Bool := w.all fun c => !isSpace c

lemma Solid.isSpace_eq {w : Text} (hw : Solid w = true) : ∀ c ∈ w, isSpace c = false := by
  intro c hc
  have hall := List.all_eq_true.mp hw c hc
  simpa using hall

/-- A short printable word with its blank is a token. -/
theorem reads_word {w : Text} {n : ℕ} (hne : w ≠ []) (hlen : w.length ≤ n)
    (hsolid : Solid w = true) : Reads (word n) (w ++ [blank]) w := by
  intro ws rest hws
  have hw := Solid.isSpace_eq hsolid
  rcases List.exists_cons_of_ne_nil hne with ⟨c, cs, rfl⟩
  have hc : isSpace c = false := hw c List.mem_cons_self
  have hskip : skipSpace (ws ++ ((c :: cs) ++ [blank] ++ rest)) = (c :: cs) ++ blank :: rest := by
    rw [List.append_assoc, List.singleton_append, List.cons_append, skipSpace_append hws hc]
  have htake : (((c :: cs) ++ blank :: rest).take n).takeWhile (fun c => !isSpace c) = c :: cs := by
    rw [List.take_append, List.take_of_length_le hlen,
      List.takeWhile_append_of_pos (fun x hx => by simp [hw x hx])]
    rcases n - (c :: cs).length with _ | k
    · simp
    · rw [List.take_succ_cons, List.takeWhile_cons_of_neg (by decide), List.append_nil]
  unfold word
  simp only [hskip, htake, List.isEmpty_cons, Bool.false_eq_true, if_false, List.drop_left]

/-- A word as long as the field is read whatever follows it. -/
lemma word_append {w : Text} {n : ℕ} (hn : 0 < n) (hlen : w.length = n)
    (hsolid : Solid w = true) : word n (w ++ rest) = some (w, rest) := by
  have hw := Solid.isSpace_eq hsolid
  have hne : w ≠ [] := by
    rintro rfl
    rw [List.length_nil] at hlen
    omega
  rcases List.exists_cons_of_ne_nil hne with ⟨c, cs, rfl⟩
  have hskip : skipSpace ((c :: cs) ++ rest) = (c :: cs) ++ rest :=
    @skipSpace_append [] _ spaces_nil _ (hw c List.mem_cons_self)
  have htake : (((c :: cs) ++ rest).take n).takeWhile (fun c => !isSpace c) = c :: cs := by
    have hall := @List.takeWhile_append_of_pos _ (fun c => !isSpace c) _ []
      (fun x (hx : x ∈ c :: cs) => by simp [hw x hx])
    rw [← hlen, List.take_left]
    rwa [List.append_nil, List.takeWhile_nil, List.append_nil] at hall
  unfold word
  simp only [hskip, htake, List.isEmpty_cons, Bool.false_eq_true, if_false, List.drop_left]

/-! ## Numbers in fields of a fixed width -/

/-- Leading zeros do not change the number. -/
lemma digitsFrom_zeros (k : ℕ) (cs : Text) :
    digitsFrom 0 (List.replicate k 48 ++ cs) = digitsFrom 0 cs := by
  induction k with
  | zero => rfl
  | succ k ih =>
    rw [List.replicate_succ, List.cons_append, digitsFrom, if_pos (by decide)]
    exact ih

theorem integer_zeros_decimal (k n : ℕ) (hrest : NoDigit rest) :
    integer (List.replicate k 48 ++ (decimal n ++ rest)) = some ((n : ℤ), rest) := by
  cases k with
  | zero => exact integer_decimal n spaces_nil hrest
  | succ k =>
    have hskip : skipSpace (48 :: (List.replicate k 48 ++ (decimal n ++ rest)))
        = 48 :: (List.replicate k 48 ++ (decimal n ++ rest)) :=
      @skipSpace_append [] _ spaces_nil _ (by decide)
    have hsign := @sign_of_isDigit 48 (List.replicate k 48 ++ (decimal n ++ rest))
      (by decide)
    have hread : digitsFrom 0 (48 :: (List.replicate k 48 ++ (decimal n ++ rest))) = (n, rest) := by
      have hzeros := digitsFrom_zeros (k + 1) (decimal n ++ rest)
      rw [List.replicate_succ, List.cons_append] at hzeros
      have hdec := digitsFrom_decimalAux (Nat.lt_succ_self n) 0 rest
      rw [Nat.zero_mul, Nat.zero_add, digitsFrom_noDigit hrest] at hdec
      rw [hzeros]
      exact hdec
    rw [List.replicate_succ, List.cons_append]
    unfold integer
    simp only [hskip, hsign]
    rw [digits, if_pos (by decide), hread]
    rfl

/-- Digits of a text of length `k` have a value below `10 ^ k`. -/
lemma digitsFrom_lt (acc : ℕ) (buf : Text) :
    (digitsFrom acc buf).1 < (acc + 1) * 10 ^ buf.length := by
  induction buf generalizing acc with
  | nil => simp [digitsFrom]
  | cons c cs ih =>
    rw [digitsFrom]
    by_cases hc : isDigit c = true
    · rw [if_pos hc]
      have hval : c.toNat - 48 ≤ 9 := by
        unfold isDigit at hc
        simp only [Bool.and_eq_true, decide_eq_true_eq, UInt8.le_iff_toNat_le,
          UInt8.reduceToNat] at hc
        omega
      calc (digitsFrom (acc * 10 + (c.toNat - 48)) cs).1
          < (acc * 10 + (c.toNat - 48) + 1) * 10 ^ cs.length := ih _
        _ ≤ ((acc + 1) * 10) * 10 ^ cs.length := Nat.mul_le_mul_right _ (by omega)
        _ = (acc + 1) * 10 ^ (c :: cs).length := by rw [List.length_cons, pow_succ]; ring
    · rw [if_neg hc]
      calc acc < acc + 1 := Nat.lt_succ_self acc
        _ ≤ (acc + 1) * 10 ^ (c :: cs).length := Nat.le_mul_of_pos_right _ (by positivity)

lemma length_sign_le (buf : Text) : (sign buf).2.length ≤ buf.length := by
  cases buf with
  | nil => exact le_refl _
  | cons c cs =>
    rw [sign]
    split_ifs
    · exact Nat.le_succ _
    · exact Nat.le_succ _
    · exact le_refl _

/-- A number read from a text of length `k` has at most `k` digits. -/
theorem integer_natAbs_lt {buf : Text} {z : ℤ} (h : integer buf = some (z, rest)) :
    z.natAbs < 10 ^ buf.length := by
  unfold integer at h
  rcases Option.map_eq_some_iff.mp h with ⟨⟨n, r⟩, hdigits, heq⟩
  have hn : n < 10 ^ (sign (skipSpace buf)).2.length := by
    cases htext : (sign (skipSpace buf)).2 with
    | nil => rw [htext] at hdigits; cases hdigits
    | cons c cs =>
      rw [htext, digits] at hdigits
      by_cases hc : isDigit c = true
      · rw [if_pos hc] at hdigits
        have hlt := digitsFrom_lt 0 (c :: cs)
        rwa [Option.some.inj hdigits, Nat.zero_add, one_mul] at hlt
      · rw [if_neg hc] at hdigits
        cases hdigits
  have hlen : (sign (skipSpace buf)).2.length ≤ buf.length :=
    le_trans (length_sign_le _) (List.dropWhile_sublist _).length_le
  have hpow : 10 ^ (sign (skipSpace buf)).2.length ≤ 10 ^ buf.length :=
    Nat.pow_le_pow_right (by omega) hlen
  have habs : z.natAbs = n := by
    rw [← (Prod.mk.inj heq).1]
    by_cases hs : (sign (skipSpace buf)).1 = true
    · rw [if_pos hs]; omega
    · rw [if_neg hs]; omega
  omega

/-! ## Numbers in C strings -/

lemma decimal_terminated (n : ℕ) : 0 ∉ decimal n := by
  intro hmem
  exact absurd (decimal_isDigit n 0 hmem) (by decide)

lemma decimalInt_terminated (z : ℤ) : 0 ∉ decimalInt z := by
  unfold decimalInt
  split_ifs
  · rw [List.mem_cons]
    rintro (hminus | hmem)
    · cases hminus
    · exact decimal_terminated _ hmem
  · exact decimal_terminated _

/-! ## What is left of a text -/

lemma digitsFrom_suffix (acc : ℕ) (buf : Text) : (digitsFrom acc buf).2 <:+ buf := by
  induction buf generalizing acc with
  | nil => exact List.suffix_refl []
  | cons c cs ih =>
    rw [digitsFrom]
    split_ifs
    · exact (ih _).trans (List.suffix_cons c cs)
    · exact List.suffix_refl _

lemma digits_suffix {buf : Text} {n : ℕ} (h : digits buf = some (n, rest)) : rest <:+ buf := by
  cases buf with
  | nil => cases h
  | cons c cs =>
    rw [digits] at h
    split_ifs at h
    have hsuffix := digitsFrom_suffix 0 (c :: cs)
    rw [Option.some.inj h] at hsuffix
    exact hsuffix

lemma sign_suffix (buf : Text) : (sign buf).2 <:+ buf := by
  cases buf with
  | nil => exact List.suffix_refl []
  | cons c cs =>
    rw [sign]
    split_ifs
    · exact List.suffix_cons c cs
    · exact List.suffix_cons c cs
    · exact List.suffix_refl _

lemma integer_suffix {buf : Text} {z : ℤ} (h : integer buf = some (z, rest)) : rest <:+ buf := by
  unfold integer at h
  obtain ⟨⟨n, tail⟩, hdigits, heq⟩ := Option.map_eq_some_iff.mp h
  cases heq
  exact (digits_suffix hdigits).trans ((sign_suffix _).trans (List.dropWhile_suffix _))

end TextScan
