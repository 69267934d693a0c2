import Mathlib.Algebra.BigOperators.Group.List.Basic
import Mathlib.Algebra.Order.Ring.Nat
import Mathlib.Data.List.Forall2
import Mathlib.Data.List.Nodup
import Mathlib.Tactic.Ring

/-!
# Odometers

A row of wheels with different numbers of positions, the first one turning fastest. Turning the
odometer moves the first wheel; a wheel that turns over moves the next one. The row counts from 0
up to the product of the numbers of positions, and then starts again.
-/

namespace Odometer

/-- The number that a row of wheels shows; `sizes` are their numbers of positions. -/
def value : List ℕ → List ℕ → ℕ
  | s :: sizes, d :: digits => d + s * value sizes digits
  | _, _ => 0

/-- One turn, and whether some wheel moved without turning over. -/
def next : List ℕ → List ℕ → List ℕ × Bool
  | s :: sizes, d :: digits =>
    if d + 1 < s then ((d + 1) :: digits, true)
    else (0 :: (next sizes digits).1, (next sizes digits).2)
  | _, _ => ([], false)

/-- Every wheel shows one of its positions. -/
abbrev Within (digits sizes : List ℕ) : Prop := List.Forall₂ (· < ·) digits sizes

variable {sizes digits : List ℕ}

lemma value_replicate_zero (sizes : List ℕ) (n : ℕ) : value sizes (List.replicate n 0) = 0 := by
  induction sizes generalizing n with
  | nil => rfl
  | cons s sizes ih =>
    cases n with
    | zero => rfl
    | succ n => rw [List.replicate_succ, value, ih, Nat.mul_zero]

lemma within_zero (h : ∀ s ∈ sizes, 0 < s) : Within (List.replicate sizes.length 0) sizes := by
  induction sizes with
  | nil => exact .nil
  | cons s sizes ih =>
    exact .cons (h s List.mem_cons_self) (ih fun t ht => h t (List.mem_cons_of_mem s ht))

theorem value_lt (h : Within digits sizes) : value sizes digits < sizes.prod := by
  induction h with
  | nil => exact Nat.one_pos
  | @cons d s digits sizes hd _ ih =>
    rw [value, List.prod_cons]
    calc d + s * value sizes digits < s + s * value sizes digits := by omega
      _ = s * (value sizes digits + 1) := by ring
      _ ≤ s * sizes.prod := Nat.mul_le_mul_left s ih

lemma next_within (h : Within digits sizes) : Within (next sizes digits).1 sizes := by
  induction h with
  | nil => exact .nil
  | @cons d s digits sizes hd htail ih =>
    rw [next]
    by_cases hroom : d + 1 < s
    · rw [if_pos hroom]
      exact .cons hroom htail
    · rw [if_neg hroom]
      exact .cons (by omega) ih

/-- A turn counts one up, or starts again after the last number. -/
theorem next_value (h : Within digits sizes) :
    (next sizes digits).2 = decide (value sizes digits + 1 < sizes.prod) ∧
      value sizes (next sizes digits).1
        = if value sizes digits + 1 < sizes.prod then value sizes digits + 1 else 0 := by
  induction h with
  | nil => exact ⟨rfl, rfl⟩
  | @cons d s digits sizes hd htail ih =>
    have hlt := value_lt htail
    rw [next]
    by_cases hroom : d + 1 < s
    · -- the first wheel moves
      have hmore : value (s :: sizes) (d :: digits) + 1 < (s :: sizes).prod := by
        rw [value, List.prod_cons]
        calc d + s * value sizes digits + 1 < s + s * value sizes digits := by omega
          _ = s * (value sizes digits + 1) := by ring
          _ ≤ s * sizes.prod := Nat.mul_le_mul_left s hlt
      rw [if_pos hroom, if_pos hmore]
      refine ⟨(decide_eq_true hmore).symm, ?_⟩
      rw [value, value]
      omega
    · -- the first wheel turns over, and the others count one up
      rw [if_neg hroom]
      have hs : d + 1 = s := by omega
      have hvalue : value (s :: sizes) (d :: digits) + 1 = s * (value sizes digits + 1) := by
        rw [value, Nat.mul_add, Nat.mul_one]
        omega
      have hiff : value (s :: sizes) (d :: digits) + 1 < (s :: sizes).prod
          ↔ value sizes digits + 1 < sizes.prod := by
        rw [hvalue, List.prod_cons]
        exact Nat.mul_lt_mul_left (by omega)
      refine ⟨by rw [ih.1]; exact decide_eq_decide.mpr hiff.symm, ?_⟩
      simp only [hiff]
      rw [value, ih.2, hvalue]
      by_cases hmore : value sizes digits + 1 < sizes.prod
      · rw [if_pos hmore, if_pos hmore, Nat.zero_add]
      · rw [if_neg hmore, if_neg hmore, Nat.mul_zero]

/-- The last number is the one with all wheels in their last position. -/
theorem last_iff (h : Within digits sizes) :
    List.Forall₂ (fun d s => d + 1 = s) digits sizes ↔ value sizes digits + 1 = sizes.prod := by
  induction h with
  | nil => exact ⟨fun _ => rfl, fun _ => .nil⟩
  | @cons d s digits sizes hd htail ih =>
    have hlt := value_lt htail
    rw [List.forall₂_cons, ih, value, List.prod_cons]
    constructor
    · intro hlast
      rw [← hlast.2, Nat.mul_add, Nat.mul_one]
      omega
    · intro hlast
      have hle : s * (value sizes digits + 1) ≤ s * sizes.prod := Nat.mul_le_mul_left s hlt
      rw [Nat.mul_add, Nat.mul_one] at hle
      have hd' : d + 1 = s := by omega
      refine ⟨hd', ?_⟩
      have hmul : s * (value sizes digits + 1) = s * sizes.prod := by
        rw [Nat.mul_add, Nat.mul_one]
        omega
      exact Nat.eq_of_mul_eq_mul_left (by omega) hmul

/-! ## All rows in order -/

/-- The lists with one entry of each column, the first column fastest. -/
def product {α : Type*} : List (List α) → List (List α)
  | [] => [[]]
  | column :: columns => (product columns).flatMap fun rest => column.map (· :: rest)

/-- The rows of wheels in the order in which the odometer shows them. -/
def rows (sizes : List ℕ) : List (List ℕ) := product (sizes.map List.range)

section Product

variable {α β : Type*} {columns : List (List α)}

lemma length_product (columns : List (List α)) :
    (product columns).length = (columns.map List.length).prod := by
  induction columns with
  | nil => rfl
  | cons column columns ih =>
    rw [product, List.length_flatMap]
    simp only [List.length_map]
    rw [List.map_const', List.sum_replicate_nat, ih, List.map_cons, List.prod_cons, Nat.mul_comm]

lemma mem_product {row : List α} : row ∈ product columns ↔ List.Forall₂ (· ∈ ·) row columns := by
  induction columns generalizing row with
  | nil =>
    rw [product, List.mem_singleton, List.forall₂_nil_right_iff]
  | cons column columns ih =>
    rw [product, List.mem_flatMap]
    constructor
    · intro ⟨rest, hrest, hrow⟩
      obtain ⟨x, hx, rfl⟩ := List.mem_map.mp hrow
      exact .cons hx (ih.mp hrest)
    · intro h
      cases h with
      | @cons x _ rest _ hx hrest => exact ⟨rest, ih.mpr hrest, List.mem_map.mpr ⟨x, hx, rfl⟩⟩

lemma nodup_product (h : ∀ column ∈ columns, column.Nodup) : (product columns).Nodup := by
  induction columns with
  | nil => exact List.nodup_singleton _
  | cons column columns ih =>
    have hrest := ih fun c hc => h c (List.mem_cons_of_mem column hc)
    rw [product, List.nodup_flatMap]
    constructor
    · intro rest _
      exact (h column List.mem_cons_self).map fun _ _ heq => (List.cons.inj heq).1
    · apply hrest.imp
      intro rest rest' hne row hrow hrow'
      obtain ⟨x, -, rfl⟩ := List.mem_map.mp hrow
      obtain ⟨y, -, heq⟩ := List.mem_map.mp hrow'
      exact hne (List.cons.inj heq).2.symm

/-- An entry of a concatenation of lists of one length. -/
lemma getElem?_flatMap {l : List β} {f : β → List α} {n d : ℕ} (hlen : ∀ y ∈ l, (f y).length = n)
    (hd : d < n) (j : ℕ) : (l.flatMap f)[d + n * j]? = (l[j]?).bind fun y => (f y)[d]? := by
  induction l generalizing j with
  | nil => rfl
  | cons y l ih =>
    have hy := hlen y List.mem_cons_self
    rw [List.flatMap_cons]
    cases j with
    | zero =>
      rw [Nat.mul_zero, Nat.add_zero, List.getElem?_append_left (hy.symm ▸ hd)]
      rfl
    | succ j =>
      have hle : (f y).length ≤ d + n * (j + 1) := by
        rw [hy, Nat.mul_succ]
        omega
      have hsub : d + n * (j + 1) - (f y).length = d + n * j := by
        rw [hy, Nat.mul_succ]
        omega
      rw [List.getElem?_append_right hle, hsub, List.getElem?_cons_succ]
      exact ih (fun z hz => hlen z (List.mem_cons_of_mem y hz)) j

end Product

lemma length_rows (sizes : List ℕ) : (rows sizes).length = sizes.prod := by
  unfold rows
  rw [length_product, List.map_map]
  simp [Function.comp_def]

/-- Going round a list several times. -/
lemma map_mod_range {α : Type*} (l : List α) (p : ℕ) :
    (List.range (p * l.length)).map (fun k => l[k % l.length]?) = (List.replicate p l).flatten.map some := by
  induction p with
  | zero => rw [Nat.zero_mul]; rfl
  | succ p ih =>
    have hround : (List.range l.length).map (fun k => l[(p * l.length + k) % l.length]?) = l.map some := by
      apply List.ext_getElem?
      intro k
      rw [List.getElem?_map, List.getElem?_map]
      by_cases hk : k < l.length
      · rw [List.getElem?_range hk, Option.map_some, Nat.mul_comm, Nat.mul_add_mod, Nat.mod_eq_of_lt hk,
          List.getElem?_eq_getElem hk]
        rfl
      · rw [List.getElem?_eq_none (by rw [List.length_range]; omega), List.getElem?_eq_none (by omega)]
        rfl
    rw [Nat.succ_mul, List.range_add, List.map_append, ih, List.map_map, List.replicate_succ',
      List.flatten_append, List.map_append]
    congr 1
    rw [List.flatten_singleton]
    exact hround

/-- The odometer shows the rows in order. -/
theorem rows_getElem?_value (h : Within digits sizes) :
    (rows sizes)[value sizes digits]? = some digits := by
  induction h with
  | nil => rfl
  | @cons d s digits sizes hd htail ih =>
    have hlen : ∀ rest ∈ rows sizes, ((List.range s).map (· :: rest)).length = s := by
      intro rest _
      rw [List.length_map, List.length_range]
    have hentry := getElem?_flatMap hlen hd (value sizes digits)
    rw [ih] at hentry
    refine hentry.trans ?_
    rw [Option.bind_some, List.getElem?_map, List.getElem?_range hd]
    rfl

end Odometer
