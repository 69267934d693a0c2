import Mathlib.Data.List.Basic
import Mathlib.Data.List.Flatten
import Mathlib.Data.List.Infix
import Mathlib.Tactic.Common

/-!
# Records with a delimiter

A stream of records, each followed by a delimiter. A text may be a record when the delimiter first
occurs behind it; then the records of a stream are determined by the stream.
-/

namespace Delimited

variable {α : Type} [DecidableEq α] (delim : List α)

/-- The text before the first occurrence of the delimiter, and the text behind it. -/
def breakAt : List α → Option (List α × List α)
  | [] => if delim = [] then some ([], []) else none
  | c :: text =>
    if delim <+: c :: text then some ([], (c :: text).drop delim.length)
    else (breakAt text).map fun r => (c :: r.1, r.2)

/-- The delimiter first occurs at the end of the record. -/
def IsRecord (r : List α) : Prop := breakAt delim (r ++ delim) = some (r, [])

/-- The stream of some records. -/
def join (rs : List (List α)) : List α := (rs.map (· ++ delim)).flatten

omit [DecidableEq α] in
@[simp] lemma join_nil : join delim [] = [] := rfl

omit [DecidableEq α] in
@[simp] lemma join_cons (r : List α) (rs : List (List α)) :
    join delim (r :: rs) = r ++ (delim ++ join delim rs) := by
  show r ++ delim ++ join delim rs = _
  rw [List.append_assoc]

omit [DecidableEq α] in
lemma join_append (rs ts : List (List α)) : join delim (rs ++ ts) = join delim rs ++ join delim ts := by
  unfold join
  rw [List.map_append, List.flatten_append]

variable {delim}

lemma breakAt_eq_some {text a b : List α} (h : breakAt delim text = some (a, b)) :
    text = a ++ (delim ++ b) := by
  induction text generalizing a with
  | nil =>
    rw [breakAt] at h
    by_cases hdelim : delim = []
    · rw [if_pos hdelim] at h
      obtain ⟨rfl, rfl⟩ := Prod.mk.inj (Option.some.inj h)
      rw [hdelim]
      rfl
    · rw [if_neg hdelim] at h
      cases h
  | cons c text ih =>
    rw [breakAt] at h
    by_cases hhere : delim <+: c :: text
    · rw [if_pos hhere] at h
      obtain ⟨rfl, rfl⟩ := Prod.mk.inj (Option.some.inj h)
      exact List.prefix_append_drop hhere
    · rw [if_neg hhere] at h
      obtain ⟨r, hr, heq⟩ := Option.map_eq_some_iff.mp h
      obtain ⟨rfl, rfl⟩ := Prod.mk.inj heq
      rw [ih hr]
      rfl

/-- More text does not change where the delimiter first occurs. -/
lemma breakAt_append {text a b : List α} (h : breakAt delim text = some (a, b)) (more : List α) :
    breakAt delim (text ++ more) = some (a, b ++ more) := by
  induction text generalizing a with
  | nil =>
    have hnil := breakAt_eq_some h
    obtain ⟨rfl, hrest⟩ := List.append_eq_nil_iff.mp hnil.symm
    obtain ⟨rfl, rfl⟩ := List.append_eq_nil_iff.mp hrest
    cases more with
    | nil => rfl
    | cons c more =>
      show breakAt [] (c :: more) = _
      rw [breakAt, if_pos List.nil_prefix]
      rfl
  | cons c text ih =>
    rw [breakAt] at h
    show breakAt delim (c :: (text ++ more)) = _
    rw [breakAt]
    by_cases hhere : delim <+: c :: text
    · rw [if_pos hhere] at h
      obtain ⟨rfl, rfl⟩ := Prod.mk.inj (Option.some.inj h)
      have hmore : delim <+: c :: (text ++ more) := hhere.trans (List.prefix_append (c :: text) more)
      rw [if_pos hmore]
      have hdrop := @List.drop_append_of_le_length _ (c :: text) more _ hhere.length_le
      rw [← hdrop]
      rfl
    · rw [if_neg hhere] at h
      obtain ⟨r, hr, heq⟩ := Option.map_eq_some_iff.mp h
      obtain ⟨rfl, rfl⟩ := Prod.mk.inj heq
      -- the first occurrence is in the text, so the delimiter is no longer than the text
      have hlen := congrArg List.length (breakAt_eq_some hr)
      rw [List.length_append, List.length_append] at hlen
      have hmore : ¬ delim <+: c :: (text ++ more) := by
        intro hprefix
        apply hhere
        apply List.prefix_of_prefix_length_le hprefix (List.prefix_append (c :: text) more)
        rw [List.length_cons]
        omega
      rw [if_neg hmore, ih hr]
      rfl

/-- The first record of a stream. -/
lemma IsRecord.breakAt {r : List α} (h : IsRecord delim r) (rest : List α) :
    breakAt delim (r ++ (delim ++ rest)) = some (r, rest) := by
  have happend := breakAt_append h rest
  rwa [List.append_assoc, List.nil_append] at happend

/-- A text with at least the bytes of the first record of a stream has the record. -/
lemma IsRecord.breakAt_text {r text more rest : List α} (h : IsRecord delim r)
    (hstream : text ++ more = r ++ (delim ++ rest)) (hlen : r.length + delim.length ≤ text.length) :
    ∃ b, Delimited.breakAt delim text = some (r, b) ∧ b ++ more = rest := by
  rw [← List.append_assoc] at hstream
  obtain ⟨b, hleft, hright⟩ : ∃ b, text = r ++ delim ++ b ∧ rest = b ++ more := by
    obtain ⟨b, hleft, hright⟩ | ⟨b, hleft, hright⟩ := List.append_eq_append_iff.mp hstream
    · have hle := congrArg List.length hleft
      rw [List.length_append, List.length_append] at hle
      have hnil : b = [] := List.eq_nil_of_length_eq_zero (by omega)
      subst hnil
      refine ⟨[], ?_, hright.symm⟩
      rw [hleft, List.append_nil, List.append_nil]
    · exact ⟨b, hleft, hright⟩
  refine ⟨b, ?_, hright.symm⟩
  rw [hleft, List.append_assoc]
  exact h.breakAt b

/-- The records are determined by the stream. -/
lemma join_injective (hdelim : delim ≠ []) {rs ts : List (List α)} (hrs : ∀ r ∈ rs, IsRecord delim r)
    (hts : ∀ t ∈ ts, IsRecord delim t) (h : join delim rs = join delim ts) : rs = ts := by
  induction rs generalizing ts with
  | nil =>
    cases ts with
    | nil => rfl
    | cons t ts =>
      rw [join_nil, join_cons] at h
      exact absurd (List.append_eq_nil_iff.mp (List.append_eq_nil_iff.mp h.symm).2).1 hdelim
  | cons r rs ih =>
    cases ts with
    | nil =>
      rw [join_nil, join_cons] at h
      exact absurd (List.append_eq_nil_iff.mp (List.append_eq_nil_iff.mp h).2).1 hdelim
    | cons t ts =>
      rw [join_cons, join_cons] at h
      have hr := (hrs r List.mem_cons_self).breakAt (join delim rs)
      rw [h, (hts t List.mem_cons_self).breakAt (join delim ts)] at hr
      obtain ⟨rfl, hrest⟩ := Prod.mk.inj (Option.some.inj hr)
      rw [ih (fun r hr => hrs r (List.mem_cons_of_mem _ hr))
        (fun t ht => hts t (List.mem_cons_of_mem _ ht)) hrest.symm]

end Delimited
