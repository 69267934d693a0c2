import Mathlib.Order.Lattice
import Mathlib.Order.OrderDual
import Mathlib.Data.List.Basic

/-!
# Positions of least and greatest entries

`LeastAt cost l i` says that the entry of `l` at `i` has the least cost of all.
-/

namespace ArgMin

variable {α β : Type*} [LinearOrder β]

/-- The entry at `i` has the least cost. -/
def LeastAt (cost : α → β) (l : List α) (i : ℕ) : Prop :=
  ∃ x, l[i]? = some x ∧ ∀ y ∈ l, cost x ≤ cost y

/-- The entry at `i` has the greatest cost. -/
def GreatestAt (cost : α → β) (l : List α) (i : ℕ) : Prop :=
  ∃ x, l[i]? = some x ∧ ∀ y ∈ l, cost y ≤ cost x

/-- The least cost of the entries before `k` is at `i`. -/
def LeastBelow (cost : α → β) (l : List α) (k i : ℕ) : Prop :=
  ∃ x, l[i]? = some x ∧ ∀ j < k, ∀ y, l[j]? = some y → cost x ≤ cost y

/-- The greatest cost of the entries before `k` is at `i`. -/
def GreatestBelow (cost : α → β) (l : List α) (k i : ℕ) : Prop :=
  ∃ x, l[i]? = some x ∧ ∀ j < k, ∀ y, l[j]? = some y → cost y ≤ cost x

variable {cost : α → β} {l : List α} {k i : ℕ} {x : α}

lemma LeastBelow.keep (h : LeastBelow cost l k i) {y : α} (hy : l[i]? = some y) (hx : l[k]? = some x)
    (hle : cost y ≤ cost x) : LeastBelow cost l (k + 1) i := by
  obtain ⟨y', hy', hall⟩ := h
  obtain rfl := Option.some.inj (hy.symm.trans hy')
  refine ⟨y, hy, ?_⟩
  intro j hj z hz
  obtain hlt | rfl := Nat.lt_succ_iff_lt_or_eq.mp hj
  · exact hall j hlt z hz
  · rw [← Option.some.inj (hx.symm.trans hz)]
    exact hle

lemma LeastBelow.move (h : LeastBelow cost l k i) {y : α} (hy : l[i]? = some y) (hx : l[k]? = some x)
    (hlt : cost x ≤ cost y) : LeastBelow cost l (k + 1) k := by
  obtain ⟨y', hy', hall⟩ := h
  obtain rfl := Option.some.inj (hy.symm.trans hy')
  refine ⟨x, hx, ?_⟩
  intro j hj z hz
  obtain hbelow | rfl := Nat.lt_succ_iff_lt_or_eq.mp hj
  · exact hlt.trans (hall j hbelow z hz)
  · rw [Option.some.inj (hx.symm.trans hz)]

lemma GreatestBelow.keep (h : GreatestBelow cost l k i) {y : α} (hy : l[i]? = some y)
    (hx : l[k]? = some x) (hle : cost x ≤ cost y) : GreatestBelow cost l (k + 1) i :=
  @LeastBelow.keep α (OrderDual β) _ cost l k i x h y hy hx hle

lemma GreatestBelow.move (h : GreatestBelow cost l k i) {y : α} (hy : l[i]? = some y)
    (hx : l[k]? = some x) (hlt : cost y ≤ cost x) : GreatestBelow cost l (k + 1) k :=
  @LeastBelow.move α (OrderDual β) _ cost l k i x h y hy hx hlt

lemma LeastBelow.leastAt (h : LeastBelow cost l k i) (hk : l.length ≤ k) : LeastAt cost l i := by
  obtain ⟨x, hx, hall⟩ := h
  refine ⟨x, hx, ?_⟩
  intro y hy
  obtain ⟨j, hj⟩ := List.mem_iff_getElem?.mp hy
  obtain ⟨hlt, -⟩ := List.getElem?_eq_some_iff.mp hj
  exact hall j (by omega) y hj

lemma GreatestBelow.greatestAt (h : GreatestBelow cost l k i) (hk : l.length ≤ k) :
    GreatestAt cost l i :=
  @LeastBelow.leastAt α (OrderDual β) _ cost l k i h hk

/-! ## Entries that change -/

/-- No entry at a position of `s` has a lower cost than the one at `i`. -/
def LeastAmong (cost : α → β) (l : List α) (s : List ℕ) (i : ℕ) : Prop :=
  ∃ x, l[i]? = some x ∧ ∀ j ∈ s, ∀ y, l[j]? = some y → cost x ≤ cost y

variable {s : List ℕ} {y : α} {f : α → α}

lemma LeastAmong.nil (hx : l[i]? = some x) : LeastAmong cost l [] i :=
  ⟨x, hx, nofun⟩

/-- A change that keeps the cost. -/
lemma LeastAmong.modify_same (h : LeastAmong cost l s i) (k : ℕ) (hf : ∀ x, cost (f x) = cost x) :
    LeastAmong cost (l.modify k f) s i := by
  have hcost : ∀ {j : ℕ} {z}, (l.modify k f)[j]? = some z → ∃ y, l[j]? = some y ∧ cost z = cost y := by
    intro j z hz
    rw [List.getElem?_modify, Option.map_eq_map] at hz
    obtain ⟨y, hy, rfl⟩ := Option.map_eq_some_iff.mp hz
    refine ⟨y, hy, ?_⟩
    split_ifs
    · exact hf y
    · rfl
  obtain ⟨x, hx, hall⟩ := h
  obtain ⟨x', hx'⟩ : ∃ x', (l.modify k f)[i]? = some x' := by
    rw [List.getElem?_modify, hx]
    exact ⟨_, rfl⟩
  refine ⟨x', hx', ?_⟩
  intro j hj z hz
  obtain ⟨x₀, hxs, hsame⟩ := hcost hx'
  obtain ⟨y, hy, hz⟩ := hcost hz
  rw [hsame, hz, Option.some.inj (hxs.symm.trans hx)]
  exact hall j hj y hy

/-- An entry at another position changes. -/
lemma LeastAmong.modify_other (h : LeastAmong cost l s i) {k : ℕ} (hk : k ∉ s) (hne : k ≠ i) :
    LeastAmong cost (l.modify k f) s i := by
  obtain ⟨x, hx, hall⟩ := h
  refine ⟨x, ?_, ?_⟩
  · rw [List.getElem?_modify_ne f l hne]
    exact hx
  · intro j hj y hy
    have hkj : k ≠ j := fun heq => hk (heq ▸ hj)
    rw [List.getElem?_modify_ne f l hkj] at hy
    exact hall j hj y hy

/-- The entry at `i` changes, and is not worse than those of `s`. -/
lemma LeastAmong.modify_self (hx : l[i]? = some x) (hi : i ∉ s)
    (hle : ∀ j ∈ s, ∀ y, l[j]? = some y → cost (f x) ≤ cost y) : LeastAmong cost (l.modify i f) s i := by
  refine ⟨f x, ?_, ?_⟩
  · rw [List.getElem?_modify_eq, hx]
    rfl
  · intro j hj y hy
    have hij : i ≠ j := fun heq => hi (heq ▸ hj)
    rw [List.getElem?_modify_ne f l hij] at hy
    exact hle j hj y hy

/-- One more position, with an entry that is not better. -/
lemma LeastAmong.keep (h : LeastAmong cost l s i) {k : ℕ} (hx : l[i]? = some x) (hy : l[k]? = some y)
    (hle : cost x ≤ cost y) : LeastAmong cost l (s ++ [k]) i := by
  obtain ⟨x', hx', hall⟩ := h
  obtain rfl := Option.some.inj (hx.symm.trans hx')
  refine ⟨x, hx, ?_⟩
  intro j hj z hz
  obtain hj | hj := List.mem_append.mp hj
  · exact hall j hj z hz
  · rw [List.mem_singleton.mp hj, hy] at hz
    rw [← Option.some.inj hz]
    exact hle

/-- One more position, with an entry that is not worse. -/
lemma LeastAmong.move (h : LeastAmong cost l s i) {k : ℕ} (hx : l[i]? = some x) (hy : l[k]? = some y)
    (hle : cost y ≤ cost x) : LeastAmong cost l (s ++ [k]) k := by
  obtain ⟨x', hx', hall⟩ := h
  obtain rfl := Option.some.inj (hx.symm.trans hx')
  refine ⟨y, hy, ?_⟩
  intro j hj z hz
  obtain hj | hj := List.mem_append.mp hj
  · exact hle.trans (hall j hj z hz)
  · rw [List.mem_singleton.mp hj, hy] at hz
    rw [Option.some.inj hz]

lemma LeastAmong.leastAt (h : LeastAmong cost l s i) (hs : ∀ j < l.length, j ∈ s) : LeastAt cost l i := by
  obtain ⟨x, hx, hall⟩ := h
  refine ⟨x, hx, ?_⟩
  intro y hy
  obtain ⟨j, hj⟩ := List.mem_iff_getElem?.mp hy
  obtain ⟨hlt, -⟩ := List.getElem?_eq_some_iff.mp hj
  exact hall j (hs j hlt) y hj

/-! ## Folds -/

/-- A fold that keeps the better of two entries at each step finds one of least cost. -/
lemma foldl_least {pick : α → α → α} {x : α} {l : List α} (hpick : ∀ y ∈ x :: l, ∀ z ∈ l,
    (pick y z = y ∧ cost y ≤ cost z) ∨ (pick y z = z ∧ cost z ≤ cost y)) :
    l.foldl pick x ∈ x :: l ∧ ∀ y ∈ x :: l, cost (l.foldl pick x) ≤ cost y := by
  induction l generalizing x with
  | nil =>
    refine ⟨List.mem_cons_self, ?_⟩
    intro y hy
    rw [List.mem_singleton.mp hy]
    exact le_rfl
  | cons z l ih =>
    rw [List.foldl_cons]
    have hstep := hpick x List.mem_cons_self z List.mem_cons_self
    have hkept : pick x z ∈ [x, z] ∧ ∀ y ∈ [x, z], cost (pick x z) ≤ cost y := by
      obtain ⟨heq, hle⟩ | ⟨heq, hle⟩ := hstep
      · rw [heq]
        simp [hle]
      · rw [heq]
        simp [hle]
    have hrest : ∀ y ∈ pick x z :: l, y ∈ x :: z :: l := by
      intro y hy
      obtain rfl | hy := List.mem_cons.mp hy
      · obtain hx | hz := List.mem_cons.mp hkept.1
        · rw [hx]
          exact List.mem_cons_self
        · rw [List.mem_singleton.mp hz]
          exact List.mem_cons_of_mem x List.mem_cons_self
      · exact List.mem_cons_of_mem x (List.mem_cons_of_mem z hy)
    obtain ⟨hmem, hleast⟩ := @ih (pick x z)
      (fun y hy w hw => hpick y (hrest y hy) w (List.mem_cons_of_mem z hw))
    refine ⟨hrest _ hmem, ?_⟩
    intro y hy
    have hfirst := hleast (pick x z) List.mem_cons_self
    obtain rfl | hy := List.mem_cons.mp hy
    · exact hfirst.trans (hkept.2 y List.mem_cons_self)
    · obtain rfl | hy := List.mem_cons.mp hy
      · exact hfirst.trans (hkept.2 y (List.mem_cons_of_mem x List.mem_cons_self))
      · exact hleast y (List.mem_cons_of_mem _ hy)

/-- A fold that keeps the greater of two entries at each step finds one of greatest cost. -/
lemma foldl_greatest {pick : α → α → α} {x : α} {l : List α} (hpick : ∀ y ∈ x :: l, ∀ z ∈ l,
    (pick y z = y ∧ cost z ≤ cost y) ∨ (pick y z = z ∧ cost y ≤ cost z)) :
    l.foldl pick x ∈ x :: l ∧ ∀ y ∈ x :: l, cost y ≤ cost (l.foldl pick x) :=
  @foldl_least α (OrderDual β) _ cost pick x l hpick

end ArgMin
