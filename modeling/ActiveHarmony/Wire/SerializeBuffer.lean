import ActiveHarmony.Lib.PrintBuffer
import ActiveHarmony.Wire.RoundTrip

/-!
# Serializing into the buffer of a message

The `*_serialize` functions with the buffer they print into. `hmesg_serialize` measures and prints in one pass,
and makes a second one into a larger buffer if the first did not fit.
-/

namespace ActiveHarmony

open TextScan PrintBuffer

/-! ## The encoders -/

/-- `snprintf_serial`. -/
def snprintfInto (text : Bytes) : Printer UInt8 ℕ := print 0 intMax text

variable {V : Type} (fmt : LaFormat V)

/-- `realloc`: what was not in the smaller buffer is anything. -/
def realloc (fresh : ℕ → UInt8) (buf : Bytes) (size : ℕ) : Bytes :=
  (List.range size).map fun i => buf.getD i (fresh i)

lemma prints_snprintf (text : Bytes) : Prints 0 (snprintfInto text) (snprintfSerial text) :=
  prints_print 0 intMax text

variable {fmt} {mesg : HMesg V} (fresh : ℕ → UInt8) {buf body : Bytes}

lemma length_realloc (size : ℕ) : (realloc fresh buf size).length = size := by
  unfold realloc
  rw [List.length_map, List.length_range]

end ActiveHarmony
