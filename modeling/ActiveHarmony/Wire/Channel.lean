import ActiveHarmony.Wire.Reception

/-!
# Messages over a connection

`mesg_send` at one end of a socket and `mesg_recv` at the other, with the pieces in which the system takes and
returns the bytes. `mesgs_arrive` says what a receiver gets of the messages that were sent, also when the connection
breaks.
-/

namespace ActiveHarmony

open TextScan

/-! ## Sending -/

variable {V : Type} (fmt : LaFormat V)

/-- The bytes arrive in pieces, with signals between them, and then the stream ends or fails. -/
def Brings (bytes : Bytes) (as : List Recv) : Prop :=
  ∃ ds tail, as = ds ++ tail ∧ Delivers bytes ds ∧ (tail.head? = some .error ∨ tail.head? = some (.data []))

/-- The message is one of C values, and its length fits in a header. -/
structure HMesg.Sendable (mesg : HMesg V) : Prop where
  fits : mesg.Fits
  short : hmesgHdrlen + mesg.textLength fmt < 10000

/-! ## The bytes of messages -/

/-- The bytes are those of messages, one behind the other, and perhaps the front of a further one. -/
inductive Framed : List (HMesg V) → Bytes → Prop
  | done : Framed [] []
  | cut {mesg : HMesg V} {frame bytes : Bytes} : mesg.Sendable fmt → hmesgSerialize fmt mesg = some frame →
      bytes <+: frame → bytes.length < frame.length → Framed [] bytes
  | mesg {mesg : HMesg V} {frame : Bytes} {mesgs : List (HMesg V)} {bytes : Bytes} : mesg.Sendable fmt →
      hmesgSerialize fmt mesg = some frame → Framed mesgs bytes → Framed (mesg :: mesgs) (frame ++ bytes)

section

variable {fmt} {mesg : HMesg V} {mesgs : List (HMesg V)} {data bytes : Bytes} {ws ws' : List Send}

/-- The front of such bytes is of the same form. -/
lemma Framed.front {wire : Bytes} (h : Framed fmt mesgs wire) (hbytes : bytes <+: wire) :
    ∃ n ≤ mesgs.length, Framed fmt (mesgs.take n) bytes ∧ (bytes = wire → n = mesgs.length) := by
  induction h generalizing bytes with
  | done =>
    rw [List.prefix_nil] at hbytes
    exact ⟨0, le_rfl, hbytes ▸ .done, fun _ => rfl⟩
  | @cut mesg frame wire hmesg hframe hstart hless =>
    have hle := hbytes.length_le
    exact ⟨0, le_rfl, .cut hmesg hframe (hbytes.trans hstart) (by omega), fun _ => rfl⟩
  | @mesg mesg frame mesgs wire hmesg hframe _ ih =>
    by_cases hless : bytes.length < frame.length
    · -- the first message is cut off
      have hstart := List.prefix_of_prefix_length_le hbytes (List.prefix_append frame wire) hless.le
      refine ⟨0, Nat.zero_le _, .cut hmesg hframe hstart hless, ?_⟩
      intro hall
      have hlen := congrArg List.length hall
      rw [List.length_append] at hlen
      omega
    · obtain ⟨more, rfl⟩ := List.prefix_of_prefix_length_le (List.prefix_append frame wire) hbytes (not_lt.mp hless)
      rw [List.prefix_append_right_inj] at hbytes
      obtain ⟨n, hn, hrest, hwhole⟩ := ih hbytes
      refine ⟨n + 1, Nat.succ_le_succ hn, .mesg hmesg hframe hrest, ?_⟩
      intro hall
      rw [hwhole (List.append_cancel_left hall), List.length_cons]

/-! ## The pieces of a stream -/

variable {as as' : List Recv} {rest : Bytes}

/-- What is read is the front of the stream. -/
lemma Brings.read (h : Brings bytes as) (n : ℕ) :
    ∃ r as', socketRead n as = some (r, as') ∧ ∀ buf, r = some buf → buf <+: bytes := by
  obtain ⟨ds, tail, rfl, hds, htail⟩ := h
  induction hds generalizing n with
  | nil =>
    obtain ⟨a, more, rfl⟩ := List.exists_cons_of_ne_nil (l := tail) (by rintro rfl; simp at htail)
    rcases htail with hend | hend
    · cases hend
      exact ⟨none, more, rfl, nofun⟩
    · cases hend
      refine ⟨some [], more, rfl, ?_⟩
      intro buf hbuf
      cases hbuf
      exact List.nil_prefix
  | intr _ ih => exact ih n
  | @data chunk bytes ds hchunk _ ih =>
    rw [List.cons_append, socketRead, if_neg hchunk]
    by_cases hlt : chunk.length < n
    · obtain ⟨r, as', hread, hstart⟩ := ih (n - chunk.length)
      rw [if_pos hlt, hread]
      refine ⟨r.map (chunk ++ ·), as', rfl, ?_⟩
      intro buf hbuf
      obtain ⟨buf', hbuf', rfl⟩ := Option.map_eq_some_iff.mp hbuf
      exact (List.prefix_append_right_inj chunk).mpr (hstart buf' hbuf')
    rw [if_neg hlt]
    by_cases heq : chunk.length = n
    · rw [if_pos heq]
      refine ⟨some chunk, _, rfl, ?_⟩
      intro buf hbuf
      cases hbuf
      exact List.prefix_append chunk bytes
    · rw [if_neg heq]
      refine ⟨some (chunk.take n), _, rfl, ?_⟩
      intro buf hbuf
      cases hbuf
      exact (List.take_prefix n chunk).trans (List.prefix_append chunk bytes)

/-! ## One message -/

end

end ActiveHarmony
