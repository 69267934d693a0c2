import Mathlib.Algebra.Order.Ring.Nat
import Mathlib.Data.List.Basic
import Mathlib.Data.List.DropRight
import Mathlib.Tactic.Common

/-!
# Buffers with checked accesses

A buffer is the list of its cells. An access outside of it has no result, so that a program with a
result has made none. The loops here are those of programs on terminated strings: a loop that goes on
while a test holds stays inside of a buffer whose last cell fails the test.
-/

namespace BoundedBuffer

variable {α : Type}

/-! ## Accesses and loops -/

/-- Read a cell. -/
def read (mem : List α) (i : ℕ) : Option α := mem[i]?

/-- Write a cell. -/
def write (mem : List α) (i : ℕ) (c : α) : Option (List α) :=
  if i < mem.length then some (mem.set i c) else none

lemma lt_of_read {mem : List α} {i : ℕ} {c : α} (h : read mem i = some c) : i < mem.length := by
  unfold read at h
  exact (List.getElem?_eq_some_iff.mp h).1

lemma length_write {mem mem' : List α} {i : ℕ} {c : α} (h : write mem i c = some mem') :
    mem'.length = mem.length := by
  unfold write at h
  split_ifs at h
  cases h
  exact List.length_set

/-- `while (p(*i)) ++i;` -/
def skipWhile (p : α → Bool) (mem : List α) (i : ℕ) : Option ℕ :=
  match _h : read mem i with
  | none => none
  | some c => if p c then skipWhile p mem (i + 1) else some i
termination_by mem.length - i
decreasing_by
  have hlt := lt_of_read _h
  omega

/-- `while (i < fin && p(*i)) ++i;` -/
def skipBelow (p : α → Bool) (mem : List α) (fin i : ℕ) : Option ℕ :=
  if i < fin then
    match read mem i with
    | none => none
    | some c => if p c then skipBelow p mem fin (i + 1) else some i
  else some i
termination_by fin - i

/-- `while (p(*i)) { *i = f(*i); ++i; }` -/
def mapWhile (p : α → Bool) (f : α → α) (mem : List α) (i : ℕ) : Option (List α × ℕ) :=
  match _h : read mem i with
  | none => none
  | some c => if p c then mapWhile p f (mem.set i (f c)) (i + 1) else some (mem, i)
termination_by mem.length - i
decreasing_by
  have hlt := lt_of_read _h
  rw [List.length_set]
  omega

/-- `while (n--) *(i++) = z;` -/
def fill (z : α) (mem : List α) (i : ℕ) : ℕ → Option (List α)
  | 0 => some mem
  | n + 1 => (write mem i z).bind fun mem => fill z mem (i + 1) n

/-- `do *(i--) = z; while (p(*i));`, which at the first cell reads before the buffer. -/
def fillBack (z : α) (p : α → Bool) (mem : List α) : ℕ → Option (List α)
  | 0 => none
  | i + 1 =>
    (write mem (i + 1) z).bind fun mem =>
      (read mem i).bind fun c => if p c then fillBack z p mem i else some mem

/-! ## The size of the buffer stays -/

lemma length_mapWhile {p : α → Bool} {f : α → α} {mem mem' : List α} {i j : ℕ}
    (h : mapWhile p f mem i = some (mem', j)) : mem'.length = mem.length := by
  fun_induction mapWhile p f mem i with
  | case1 => cases h
  | case2 mem i c _ _ ih => rw [ih h, List.length_set]
  | case3 =>
    cases h
    rfl

lemma length_fill {z : α} {mem mem' : List α} {i n : ℕ} (h : fill z mem i n = some mem') :
    mem'.length = mem.length := by
  induction n generalizing mem i with
  | zero =>
    cases h
    rfl
  | succ n ih =>
    obtain ⟨mem₁, hwrite, hrest⟩ := Option.bind_eq_some_iff.mp h
    rw [ih hrest, length_write hwrite]

lemma length_fillBack {z : α} {p : α → Bool} {mem mem' : List α} {i : ℕ}
    (h : fillBack z p mem i = some mem') : mem'.length = mem.length := by
  induction i generalizing mem with
  | zero => cases h
  | succ i ih =>
    obtain ⟨mem₁, hwrite, hrest⟩ := Option.bind_eq_some_iff.mp h
    obtain ⟨c, -, htest⟩ := Option.bind_eq_some_iff.mp hrest
    by_cases hc : p c = true
    · rw [if_pos hc] at htest
      rw [ih htest, length_write hwrite]
    · rw [if_neg hc] at htest
      cases htest
      exact length_write hwrite

/-! ## Loops with a result -/

/-- A loop has a result when each of its rounds has one and keeps the invariant. -/
lemma foldlM_spec {σ : Type} {f : σ → α → Option σ} {l : List α} {P : σ → Prop}
    (hstep : ∀ s, P s → ∀ x ∈ l, ∃ s', f s x = some s' ∧ P s') {s : σ} (hs : P s) :
    ∃ s', l.foldlM f s = some s' ∧ P s' := by
  induction l generalizing s with
  | nil => exact ⟨s, rfl, hs⟩
  | cons x l ih =>
    obtain ⟨s₁, hf, hs₁⟩ := hstep s hs x List.mem_cons_self
    obtain ⟨s₂, hl, hs₂⟩ := ih (fun s hs y hy => hstep s hs y (List.mem_cons_of_mem _ hy)) hs₁
    refine ⟨s₂, ?_, hs₂⟩
    rw [List.foldlM_cons, hf]
    exact hl

/-! ## Accesses inside of the buffer -/

lemma read_of_lt {mem : List α} {i : ℕ} (h : i < mem.length) : ∃ c, read mem i = some c :=
  ⟨mem[i], List.getElem?_eq_getElem h⟩

lemma write_of_lt {mem : List α} {i : ℕ} (h : i < mem.length) (c : α) :
    write mem i c = some (mem.set i c) := if_pos h

lemma read_append (pre post : List α) (c : α) : read (pre ++ c :: post) pre.length = some c := by
  unfold read
  rw [List.getElem?_append_right (le_refl _), Nat.sub_self]
  rfl

lemma set_append (pre post : List α) (c d : α) :
    (pre ++ c :: post).set pre.length d = pre ++ d :: post := by
  rw [List.set_append_right _ _ (le_refl _), Nat.sub_self]
  rfl

lemma write_append (pre post : List α) (c d : α) :
    write (pre ++ c :: post) pre.length d = some (pre ++ d :: post) := by
  unfold write
  rw [if_pos, set_append]
  rw [List.length_append, List.length_cons]
  omega

lemma read_end (mem : List α) : read mem mem.length = none := by
  unfold read
  exact List.getElem?_eq_none (le_refl _)

/-! ## The loops stop in front of the terminator -/

section
variable {p : α → Bool} {z : α} (hz : p z = false) (pre l post : List α)
include hz

lemma skipWhile_terminated :
    skipWhile p (pre ++ (l ++ z :: post)) pre.length = some (pre.length + (l.takeWhile p).length) := by
  induction l generalizing pre with
  | nil =>
    rw [skipWhile]
    split
    · next hread =>
      rw [List.nil_append, read_append] at hread
      cases hread
    · next c hread =>
      rw [List.nil_append, read_append] at hread
      cases hread
      rw [hz]
      rfl
  | cons c l ih =>
    rw [skipWhile]
    split
    · next hread =>
      rw [List.cons_append, read_append] at hread
      cases hread
    · next d hread =>
      rw [List.cons_append, read_append] at hread
      cases hread
      by_cases hc : p c = true
      · have hnext := ih (pre ++ [c])
        rw [List.append_assoc, List.length_append, List.length_singleton] at hnext
        rw [if_pos hc, List.takeWhile_cons_of_pos hc, List.length_cons]
        show skipWhile p (pre ++ ([c] ++ (l ++ z :: post))) (pre.length + 1) = _
        rw [hnext]
        congr 1
        omega
      · rw [if_neg hc, List.takeWhile_cons_of_neg hc]
        rfl

lemma mapWhile_terminated (f : α → α) :
    mapWhile p f (pre ++ (l ++ z :: post)) pre.length =
      some (pre ++ ((l.takeWhile p).map f ++ (l.dropWhile p ++ z :: post)),
        pre.length + (l.takeWhile p).length) := by
  induction l generalizing pre with
  | nil =>
    rw [mapWhile]
    split
    · next hread =>
      rw [List.nil_append, read_append] at hread
      cases hread
    · next c hread =>
      rw [List.nil_append, read_append] at hread
      cases hread
      rw [hz]
      rfl
  | cons c l ih =>
    rw [mapWhile]
    split
    · next hread =>
      rw [List.cons_append, read_append] at hread
      cases hread
    · next d hread =>
      rw [List.cons_append, read_append] at hread
      cases hread
      by_cases hc : p c = true
      · have hnext := ih (pre ++ [f c])
        rw [List.append_assoc, List.length_append, List.length_singleton] at hnext
        rw [if_pos hc, List.cons_append, set_append, List.takeWhile_cons_of_pos hc,
          List.dropWhile_cons_of_pos hc]
        show mapWhile p f (pre ++ ([f c] ++ (l ++ z :: post))) (pre.length + 1) = _
        rw [hnext, List.append_assoc, List.map_cons, List.length_cons]
        congr 2
        omega
      · rw [if_neg hc, List.takeWhile_cons_of_neg hc, List.dropWhile_cons_of_neg hc]
        rfl

end

/-- Below a bound the loop stops there, or in front of it. -/
lemma skipBelow_append (p : α → Bool) (pre l post : List α) :
    skipBelow p (pre ++ (l ++ post)) (pre.length + l.length) pre.length =
      some (pre.length + (l.takeWhile p).length) := by
  induction l generalizing pre with
  | nil =>
    rw [skipBelow, if_neg (by simp)]
    rfl
  | cons c l ih =>
    have hlt : pre.length < pre.length + (c :: l).length := by
      rw [List.length_cons]
      omega
    rw [skipBelow, if_pos hlt, List.cons_append, read_append]
    by_cases hc : p c = true
    · have hnext := ih (pre ++ [c])
      rw [List.append_assoc, List.length_append, List.length_singleton] at hnext
      rw [List.takeWhile_cons_of_pos hc, List.length_cons, List.length_cons]
      simp only [hc, if_true]
      show skipBelow p (pre ++ ([c] ++ (l ++ post))) _ _ = _
      rw [show pre.length + (l.length + 1) = pre.length + 1 + l.length by omega, hnext]
      congr 1
      omega
    · rw [List.takeWhile_cons_of_neg hc]
      simp only [hc]
      rfl

lemma skipBelow_of_ge (p : α → Bool) (mem : List α) {fin i : ℕ} (h : fin ≤ i) :
    skipBelow p mem fin i = some i := by
  rw [skipBelow, if_neg (by omega)]

lemma le_skipBelow {p : α → Bool} {mem : List α} {fin i j : ℕ} (h : skipBelow p mem fin i = some j) :
    i ≤ j := by
  fun_induction skipBelow p mem fin i with
  | case1 => cases h
  | case2 i _ c _ _ ih => exact le_trans (Nat.le_succ i) (ih h)
  | case3 =>
    cases h
    exact le_refl _
  | case4 =>
    cases h
    exact le_refl _

lemma fill_append (z : α) (pre gap post : List α) :
    fill z (pre ++ (gap ++ post)) pre.length gap.length =
      some (pre ++ (List.replicate gap.length z ++ post)) := by
  induction gap generalizing pre with
  | nil => rfl
  | cons c gap ih =>
    have hnext := ih (pre ++ [z])
    rw [List.append_assoc, List.length_append, List.length_singleton] at hnext
    rw [List.length_cons, fill, List.cons_append, write_append, Option.bind_some]
    show fill z (pre ++ ([z] ++ (gap ++ post))) (pre.length + 1) gap.length = _
    rw [hnext, List.append_assoc, List.replicate_succ]
    rfl

/-- Going back over the cells that pass the test, the loop stops at the first one that fails it. -/
lemma fillBack_append {p : α → Bool} {y : α} (hy : p y = false) (z x : α) (pre v post : List α) :
    ∃ n, (v.rdropWhile p).length + n = v.length ∧
      fillBack z p (pre ++ y :: (v ++ x :: post)) (pre.length + 1 + v.length) =
        some (pre ++ y :: (v.rdropWhile p ++ (List.replicate n z ++ z :: post))) := by
  induction v using List.reverseRecOn generalizing x post with
  | nil =>
    refine ⟨0, rfl, ?_⟩
    have hwrite := write_append (pre ++ [y]) post x z
    rw [List.append_assoc, List.append_assoc, List.length_append, List.length_singleton] at hwrite
    show fillBack z p (pre ++ ([y] ++ x :: post)) (pre.length + 1) = _
    rw [fillBack, hwrite, Option.bind_some]
    show (read (pre ++ y :: z :: post) pre.length).bind _ = _
    rw [read_append, Option.bind_some, hy]
    rfl
  | append_singleton v c ih =>
    have hlen : pre.length + 1 + (v ++ [c]).length = (pre ++ y :: (v ++ [c])).length := by
      simp only [List.length_append, List.length_cons, List.length_nil]
      omega
    have hlast : (pre ++ y :: (v ++ [c])).length = (pre ++ y :: v).length + 1 := by
      simp only [List.length_append, List.length_cons, List.length_nil]
      omega
    have hwrite := write_append (pre ++ y :: (v ++ [c])) post x z
    have hread := read_append (pre ++ y :: v) (z :: post) c
    have hmem : pre ++ y :: (v ++ [c]) ++ z :: post = pre ++ y :: v ++ c :: z :: post := by simp
    have hstart : pre ++ y :: (v ++ [c] ++ x :: post) = pre ++ y :: (v ++ [c]) ++ x :: post := by simp
    rw [hstart, hlen, hlast, fillBack, ← hlast, hwrite, Option.bind_some, hmem, hread, Option.bind_some]
    by_cases hc : p c = true
    · obtain ⟨n, hcount, hrest⟩ := ih c (z :: post)
      refine ⟨n + 1, ?_, ?_⟩
      · rw [List.rdropWhile_concat_pos _ _ _ hc, List.length_append, List.length_singleton]
        omega
      · have hat : (pre ++ y :: v).length = pre.length + 1 + v.length := by
          simp only [List.length_append, List.length_cons]
          omega
        have hcells : pre ++ y :: v ++ c :: z :: post = pre ++ y :: (v ++ c :: z :: post) := by simp
        rw [if_pos hc, List.rdropWhile_concat_pos _ _ _ hc, hat, hcells, hrest, List.replicate_succ',
          List.append_assoc]
        rfl
    · refine ⟨0, ?_, ?_⟩
      · rw [List.rdropWhile_concat_neg _ _ _ hc]
        rfl
      · rw [if_neg hc, List.rdropWhile_concat_neg _ _ _ hc]
        simp

end BoundedBuffer
