import Mathlib.Algebra.Order.Ring.Nat
import Mathlib.Data.List.Basic
import Mathlib.Tactic.Common

/-!
# C strings

A C string is the list of its bytes without the terminating NUL; a `char *` that may be
`NULL` is an `Option`. Case is folded as in the "C" locale.
-/

namespace ActiveHarmony

/-- The bytes of a C string, without the terminating NUL. -/
abbrev Bytes := List UInt8

/-- The bytes of an (ASCII) string literal. -/
def cstr (s : String) : Bytes := s.toList.map fun c => c.toNat.toUInt8

/-- `tolower` in the "C" locale. -/
def tolower (c : UInt8) : UInt8 := if 65 ≤ c && c ≤ 90 then c + 32 else c

/-- A key with its letters folded to lower case; keys are compared ignoring case. -/
def foldCase (key : Bytes) : Bytes := key.map tolower

/-- `strcasecmp(a, b) == 0`. -/
def strcaseEq (a b : Bytes) : Bool := foldCase a == foldCase b

@[simp] lemma strcaseEq_iff {a b : Bytes} : strcaseEq a b = true ↔ foldCase a = foldCase b := by
  simp [strcaseEq]

/-- A plain `char`, signed here, converted to `unsigned int`. -/
def charToUnsigned (c : UInt8) : ℕ := if c < 128 then c.toNat else 2 ^ 32 - 256 + c.toNat

end ActiveHarmony
