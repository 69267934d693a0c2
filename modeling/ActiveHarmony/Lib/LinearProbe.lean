import Mathlib.Data.Finset.Card
import Mathlib.Data.Nat.Find
import Mathlib.Data.Finset.Range
import Mathlib.Logic.Function.Basic
import Mathlib.Tactic.Common

/-!
# Open addressing with linear probing

A table is a function from cell numbers below `n` to optional entries. An entry of key `k`
belongs to the *home* cell of `k` and is stored at the first free cell from there, going
round at the end of the table.

* `dist n h p` counts the steps from `h` to `p` going round, and `walk n h j` goes `j` steps;
* `scan` is the probe loop: it stops at the first cell that satisfies a predicate;
* `Sound` is the invariant of such a table: keys are distinct, and no free cell lies between
  the home of an entry and the entry.

`find_eq_of_stored` and `find_free` say what a probe for a key returns in a sound table;
`Sound.put`, `Sound.replace` and `Sound.clear` say which updates keep the table sound.
Clearing a cell is the delicate one: `Sound.clear` needs that no other entry's chain crosses it.
`load` counts the taken cells, and `rehash_spec` says that placing entries one by one into a
table with enough room gives a sound table of exactly the old and the new entries.
-/

namespace LinearProbe

/-! ## Going round the table -/

/-- The number of steps from cell `h` to cell `p` in a table of `n` cells. -/
def dist (n h p : ℕ) : ℕ := if h ≤ p then p - h else p + n - h

/-- The cell reached from `h` after `j` steps. -/
def walk (n h j : ℕ) : ℕ := if h + j < n then h + j else h + j - n

variable {n h p q j : ℕ}

lemma dist_lt (hh : h < n) (hp : p < n) : dist n h p < n := by
  unfold dist; split_ifs <;> omega

lemma walk_lt (hh : h < n) (hj : j < n) : walk n h j < n := by
  unfold walk; split_ifs <;> omega

lemma dist_walk (hh : h < n) (hj : j < n) : dist n h (walk n h j) = j := by
  unfold dist walk; split_ifs <;> omega

lemma walk_dist (hh : h < n) (hp : p < n) : walk n h (dist n h p) = p := by
  unfold dist walk; split_ifs <;> omega

lemma walk_zero (hh : h < n) : walk n h 0 = h := by
  unfold walk; split_ifs <;> omega

/-- Stepping by one modulo the table size. -/
lemma walk_succ (hh : h < n) (hj : j < n) : (walk n h j + 1) % n = walk n h (j + 1) := by
  have hw : walk n h j < n := walk_lt hh hj
  by_cases hlast : walk n h j + 1 = n
  · rw [hlast, Nat.mod_self]
    unfold walk at hlast ⊢; split_ifs at hlast ⊢ <;> omega
  · rw [Nat.mod_eq_of_lt (by omega)]
    unfold walk at hlast ⊢; split_ifs at hlast ⊢ <;> omega

/-! ## The probe loop -/

/-- Probe at most `fuel` cells from `idx` on, and return the first one that stops the probe. -/
def scan (stop : ℕ → Bool) (n : ℕ) : ℕ → ℕ → Option ℕ
  | 0, _ => none
  | fuel + 1, idx => if stop idx then some idx else scan stop n fuel ((idx + 1) % n)

/-- After `j` steps without a stop, the probe goes on from the `j`-th cell. -/
lemma scan_walk (stop : ℕ → Bool) (hh : h < n) :
    ∀ fuel j, j + fuel = n → (∀ i < j, stop (walk n h i) = false) →
      (∀ p, scan stop n fuel (walk n h j) = some p ↔
        ∃ i < n, p = walk n h i ∧ stop (walk n h i) = true ∧
          ∀ i' < i, stop (walk n h i') = false) := by
  intro fuel
  induction fuel with
  | zero =>
    intro j hj hpre p
    simp only [scan, reduceCtorEq, false_iff, not_exists, not_and]
    intro i hi _ hstop
    rw [hpre i (by omega)] at hstop
    cases hstop
  | succ fuel ih =>
    intro j hj hpre p
    by_cases hs : stop (walk n h j) = true
    · simp only [scan, hs, if_true, Option.some.injEq]
      constructor
      · rintro rfl
        exact ⟨j, by omega, rfl, hs, hpre⟩
      · rintro ⟨i, hi, rfl, hstop, hfirst⟩
        -- both `i` and `j` are the first stopping step
        rcases lt_trichotomy i j with hlt | heq | hgt
        · rw [hpre i hlt] at hstop; cases hstop
        · rw [heq]
        · rw [hfirst j hgt] at hs; cases hs
    · have hs' : stop (walk n h j) = false := by simpa using hs
      have hstep : scan stop n (fuel + 1) (walk n h j)
          = scan stop n fuel (walk n h (j + 1)) := by
        rw [← walk_succ hh (by omega)]
        simp only [scan, hs', Bool.false_eq_true, if_false]
      rw [hstep]
      refine ih (j + 1) (by omega) (fun i hi => ?_) p
      rcases Nat.lt_succ_iff_lt_or_eq.mp hi with hlt | rfl
      · exact hpre i hlt
      · exact hs'

/-- A probe of the whole table from `h` returns the first stopping cell. -/
theorem scan_eq_some_iff (stop : ℕ → Bool) (hh : h < n) :
    scan stop n n h = some p ↔
      p < n ∧ stop p = true ∧ ∀ q < n, dist n h q < dist n h p → stop q = false := by
  have hscan := scan_walk stop hh n 0 (by omega) (by simp) p
  rw [walk_zero hh] at hscan
  rw [hscan]
  constructor
  · rintro ⟨i, hi, rfl, hstop, hfirst⟩
    refine ⟨walk_lt hh hi, hstop, fun q hq hlt => ?_⟩
    rw [dist_walk hh hi] at hlt
    have := hfirst (dist n h q) hlt
    rwa [walk_dist hh hq] at this
  · rintro ⟨hp, hstop, hfirst⟩
    refine ⟨dist n h p, dist_lt hh hp, (walk_dist hh hp).symm, ?_, fun i hi => ?_⟩
    · rwa [walk_dist hh hp]
    · have hin : i < n := lt_trans hi (dist_lt hh hp)
      exact hfirst _ (walk_lt hh hin) (by rwa [dist_walk hh hin])

/-- The probe finds a cell as soon as one stops it. -/
theorem scan_isSome (stop : ℕ → Bool) (hh : h < n) (hp : p < n) (hs : stop p = true) :
    ∃ q, scan stop n n h = some q := by
  have hex : ∃ d, ∃ q < n, dist n h q = d ∧ stop q = true := ⟨_, p, hp, rfl, hs⟩
  obtain ⟨q, hq, hd, hstop⟩ := Nat.find_spec hex
  refine ⟨q, (scan_eq_some_iff stop hh).mpr ⟨hq, hstop, fun r hr hlt => ?_⟩⟩
  by_contra hne
  exact Nat.find_min hex (hd ▸ hlt) ⟨r, hr, rfl, by simpa using hne⟩

/-! ## Sound tables -/

variable {α κ : Type*} [DecidableEq κ] (key : α → κ) (home : κ → ℕ)

/-- The probe predicate of a lookup: a free cell, or an entry of key `k`. -/
def stopAt (cell : ℕ → Option α) (k : κ) (i : ℕ) : Bool :=
  match cell i with
  | none => true
  | some e => decide (key e = k)

/-- `k` is stored in the table, by the entry `e`. -/
def Stored (cell : ℕ → Option α) (n : ℕ) (k : κ) (e : α) : Prop :=
  ∃ p < n, cell p = some e ∧ key e = k

/-- Keys are distinct, and every cell between the home of an entry and the entry is taken. -/
structure Sound (cell : ℕ → Option α) (n : ℕ) : Prop where
  distinct : ∀ p < n, ∀ q < n, ∀ e f, cell p = some e → cell q = some f → key e = key f → p = q
  chained : ∀ p < n, ∀ e, cell p = some e →
    ∀ q < n, dist n (home (key e)) q < dist n (home (key e)) p → cell q ≠ none

variable {key home} {cell : ℕ → Option α} {k : κ} {e : α}

lemma stopAt_eq_false_iff {i : ℕ} :
    stopAt key cell k i = false ↔ ∃ f, cell i = some f ∧ key f ≠ k := by
  unfold stopAt
  cases cell i <;> simp

/-- In a sound table the probe for a stored key ends at its entry. -/
theorem find_eq_of_stored (hs : Sound key home cell n) (hh : home k < n) (hp : p < n)
    (hc : cell p = some e) (hk : key e = k) :
    scan (stopAt key cell k) n n (home k) = some p := by
  rw [scan_eq_some_iff _ hh]
  refine ⟨hp, by simp [stopAt, hc, hk], fun q hq hlt => ?_⟩
  rw [stopAt_eq_false_iff]
  obtain ⟨f, hf⟩ := Option.ne_none_iff_exists'.mp (hs.chained p hp e hc q hq (by rwa [hk]))
  refine ⟨f, hf, fun hkf => ?_⟩
  have hqp := hs.distinct q hq p hp f e hf hc (hkf.trans hk.symm)
  rw [hqp] at hlt
  exact lt_irrefl _ hlt

/-- Whatever a probe for `k` returns is free or holds `k`. -/
theorem find_spec (hh : home k < n)
    (hf : scan (stopAt key cell k) n n (home k) = some p) :
    p < n ∧ (cell p = none ∨ ∃ f, cell p = some f ∧ key f = k) ∧
      ∀ q < n, dist n (home k) q < dist n (home k) p → cell q ≠ none := by
  obtain ⟨hp, hstop, hfirst⟩ := (scan_eq_some_iff _ hh).mp hf
  refine ⟨hp, ?_, fun q hq hlt hnone => ?_⟩
  · unfold stopAt at hstop
    cases hc : cell p with
    | none => exact Or.inl rfl
    | some f => exact Or.inr ⟨f, rfl, by simpa [hc] using hstop⟩
  · obtain ⟨f, hcf, -⟩ := stopAt_eq_false_iff.mp (hfirst q hq hlt)
    rw [hnone] at hcf
    cases hcf

/-- A probe for a key that is not stored finds a free cell, if there is one. -/
theorem find_free (hh : home k < n) (hfree : ∃ q < n, cell q = none)
    (hmiss : ∀ e, ¬ Stored key cell n k e) :
    ∃ p < n, scan (stopAt key cell k) n n (home k) = some p ∧ cell p = none := by
  obtain ⟨q, hq, hcq⟩ := hfree
  obtain ⟨p, hf⟩ := scan_isSome (stopAt key cell k) hh hq (by simp [stopAt, hcq])
  obtain ⟨hp, hcase, -⟩ := find_spec hh hf
  refine ⟨p, hp, hf, ?_⟩
  rcases hcase with hnone | ⟨f, hcf, hkf⟩
  · exact hnone
  · exact absurd ⟨p, hp, hcf, hkf⟩ (hmiss f)

/-- In a full table a probe for a key that is not stored fails. -/
theorem find_full (hh : home k < n) (hfull : ∀ q < n, cell q ≠ none)
    (hmiss : ∀ e, ¬ Stored key cell n k e) :
    scan (stopAt key cell k) n n (home k) = none := by
  cases hf : scan (stopAt key cell k) n n (home k) with
  | none => rfl
  | some p =>
    obtain ⟨hp, hnone | ⟨f, hcf, hkf⟩, -⟩ := find_spec hh hf
    · exact absurd hnone (hfull p hp)
    · exact absurd ⟨p, hp, hcf, hkf⟩ (hmiss f)

/-! ## Updates that keep a table sound -/

omit [DecidableEq κ] in
lemma sound_empty : Sound key home (fun _ => none) n :=
  ⟨by simp, by simp⟩

omit [DecidableEq κ] in
/-- Filling a free cell that ends the chain of a new key. -/
theorem Sound.put (hs : Sound key home cell n) (hfree : cell p = none)
    (hchain : ∀ q < n, dist n (home (key e)) q < dist n (home (key e)) p → cell q ≠ none)
    (hmiss : ∀ f, ¬ Stored key cell n (key e) f) :
    Sound key home (Function.update cell p (some e)) n := by
  constructor
  · intro a ha b hb x y hx hy hxy
    by_cases hap : a = p <;> by_cases hbp : b = p
    · omega
    · subst hap
      rw [Function.update_self, Option.some.injEq] at hx
      rw [Function.update_of_ne hbp] at hy
      exact absurd ⟨b, hb, hy, by rw [hx, hxy]⟩ (hmiss y)
    · subst hbp
      rw [Function.update_self, Option.some.injEq] at hy
      rw [Function.update_of_ne hap] at hx
      exact absurd ⟨a, ha, hx, by rw [hy, hxy]⟩ (hmiss x)
    · rw [Function.update_of_ne hap] at hx
      rw [Function.update_of_ne hbp] at hy
      exact hs.distinct a ha b hb x y hx hy hxy
  · intro a ha x hx q hq hlt
    by_cases hqp : q = p
    · rw [hqp, Function.update_self]; simp
    rw [Function.update_of_ne hqp]
    by_cases hap : a = p
    · subst hap
      rw [Function.update_self, Option.some.injEq] at hx
      subst hx
      exact hchain q hq hlt
    · rw [Function.update_of_ne hap] at hx
      exact hs.chained a ha x hx q hq hlt

omit [DecidableEq κ] in
/-- Overwriting an entry by one of the same key. -/
theorem Sound.replace (hs : Sound key home cell n) {f : α} (hp : p < n) (hc : cell p = some e)
    (hk : key f = key e) : Sound key home (Function.update cell p (some f)) n := by
  -- every entry of the new table has an old entry of the same key at its cell
  have hold : ∀ a < n, ∀ x, Function.update cell p (some f) a = some x →
      ∃ y, cell a = some y ∧ key y = key x := by
    intro a _ x hx
    by_cases hap : a = p
    · subst hap
      rw [Function.update_self, Option.some.injEq] at hx
      exact ⟨e, hc, by rw [← hx, hk]⟩
    · rw [Function.update_of_ne hap] at hx
      exact ⟨x, hx, rfl⟩
  constructor
  · intro a ha b hb x y hx hy hxy
    obtain ⟨x', hx', hkx⟩ := hold a ha x hx
    obtain ⟨y', hy', hky⟩ := hold b hb y hy
    exact hs.distinct a ha b hb x' y' hx' hy' (by rw [hkx, hky, hxy])
  · intro a ha x hx q hq hlt
    obtain ⟨x', hx', hkx⟩ := hold a ha x hx
    by_cases hqp : q = p
    · rw [hqp, Function.update_self]; simp
    · rw [Function.update_of_ne hqp]
      exact hs.chained a ha x' hx' q hq (by rwa [hkx])

/-- The chain of some entry outside cell `p` crosses `p`. -/
def Crossed (key : α → κ) (home : κ → ℕ) (cell : ℕ → Option α) (n p : ℕ) : Prop :=
  ∃ q < n, q ≠ p ∧ ∃ f ∈ cell q, dist n (home (key f)) p < dist n (home (key f)) q

instance : Decidable (Crossed key home cell n p) :=
  inferInstanceAs (Decidable (∃ q < n, q ≠ p ∧
    ∃ f ∈ cell q, dist n (home (key f)) p < dist n (home (key f)) q))

omit [DecidableEq κ] in
/-- Emptying a cell that no other chain crosses. -/
theorem Sound.clear (hs : Sound key home cell n) (hcross : ¬ Crossed key home cell n p) :
    Sound key home (Function.update cell p none) n := by
  have hold : ∀ a x, Function.update cell p none a = some x → a ≠ p ∧ cell a = some x := by
    intro a x hx
    by_cases hap : a = p
    · rw [hap, Function.update_self] at hx
      cases hx
    · rw [Function.update_of_ne hap] at hx
      exact ⟨hap, hx⟩
  constructor
  · intro a ha b hb x y hx hy hxy
    exact hs.distinct a ha b hb x y (hold a x hx).2 (hold b y hy).2 hxy
  · intro a ha x hx q hq hlt
    obtain ⟨hap, hca⟩ := hold a x hx
    have hqp : q ≠ p := fun heq => hcross ⟨a, ha, hap, x, hca, heq ▸ hlt⟩
    rw [Function.update_of_ne hqp]
    exact hs.chained a ha x hca q hq hlt

omit [DecidableEq κ] in
/-- What is stored after filling or overwriting a cell. -/
lemma stored_update_some {f g : α} {k : κ} (hp : p < n) :
    Stored key (Function.update cell p (some f)) n k g ↔
      (g = f ∧ key f = k) ∨ ∃ q < n, q ≠ p ∧ cell q = some g ∧ key g = k := by
  constructor
  · rintro ⟨q, hq, hc, hk⟩
    by_cases hqp : q = p
    · subst hqp
      rw [Function.update_self, Option.some.injEq] at hc
      subst hc
      exact Or.inl ⟨rfl, hk⟩
    · rw [Function.update_of_ne hqp] at hc
      exact Or.inr ⟨q, hq, hqp, hc, hk⟩
  · rintro (⟨rfl, hk⟩ | ⟨q, hq, hqp, hc, hk⟩)
    · exact ⟨p, hp, Function.update_self .., hk⟩
    · exact ⟨q, hq, by rwa [Function.update_of_ne hqp], hk⟩

omit [DecidableEq κ] in
/-- What is stored after emptying a cell. -/
lemma stored_update_none {g : α} {k : κ} :
    Stored key (Function.update cell p none) n k g ↔
      ∃ q < n, q ≠ p ∧ cell q = some g ∧ key g = k := by
  constructor
  · rintro ⟨q, hq, hc, hk⟩
    have hqp : q ≠ p := by
      rintro rfl
      rw [Function.update_self] at hc
      cases hc
    exact ⟨q, hq, hqp, by rwa [Function.update_of_ne hqp] at hc, hk⟩
  · rintro ⟨q, hq, hqp, hc, hk⟩
    exact ⟨q, hq, by rwa [Function.update_of_ne hqp], hk⟩

omit [DecidableEq κ] in
/-- Writing an entry where its key is stored, or at a free cell when it is not stored, changes
what is stored under that key only. -/
theorem Sound.stored_write (hs : Sound key home cell n) {f : α} (hp : p < n)
    (hcell : ∀ g, cell p = some g → key g = key e)
    (hmiss : cell p = none → ∀ g, ¬ Stored key cell n (key e) g) :
    Stored key (Function.update cell p (some e)) n k f ↔
      (f = e ∧ key e = k) ∨ (k ≠ key e ∧ Stored key cell n k f) := by
  rw [stored_update_some hp]
  constructor
  · rintro (hnew | ⟨q, hq, hqp, hc, hk⟩)
    · exact Or.inl hnew
    · refine Or.inr ⟨fun hke => ?_, q, hq, hc, hk⟩
      cases hcp : cell p with
      | none => exact hmiss hcp f ⟨q, hq, hc, hk.trans hke⟩
      | some g =>
        have hkg : key f = key g := by rw [hk, hke, hcell g hcp]
        exact hqp (hs.distinct q hq p hp f g hc hcp hkg)
  · rintro (hnew | ⟨hke, q, hq, hc, hk⟩)
    · exact Or.inl hnew
    · refine Or.inr ⟨q, hq, ?_, hc, hk⟩
      rintro rfl
      exact hke (hk.symm.trans (hcell f hc))

/-! ## The number of taken cells -/

/-- How many of the first `n` cells are taken. -/
def load (cell : ℕ → Option α) (n : ℕ) : ℕ :=
  ((Finset.range n).filter fun i => (cell i).isSome).card

omit [DecidableEq κ] in
lemma load_empty : load (fun _ => (none : Option α)) n = 0 := by
  simp [load]

lemma load_le (cell : ℕ → Option α) (n : ℕ) : load cell n ≤ n := by
  have hle := Finset.card_filter_le (Finset.range n) fun i => (cell i).isSome
  rwa [Finset.card_range] at hle

/-- A table that is not full has a free cell. -/
lemma exists_free (hlt : load cell n < n) : ∃ q < n, cell q = none := by
  by_contra hall
  have hfull : (Finset.range n).filter (fun i => (cell i).isSome) = Finset.range n := by
    refine Finset.filter_true_of_mem fun i hi => ?_
    rw [Option.isSome_iff_ne_none]
    exact fun hnone => hall ⟨i, Finset.mem_range.mp hi, hnone⟩
  rw [load, hfull, Finset.card_range] at hlt
  exact lt_irrefl _ hlt

lemma load_eq_iff_full : load cell n = n ↔ ∀ q < n, cell q ≠ none := by
  constructor
  · intro heq q hq hnone
    have hmem : q ∈ (Finset.range n).filter fun i => (cell i).isSome := by
      rw [Finset.eq_of_subset_of_card_le (Finset.filter_subset _ _)
        (by rw [Finset.card_range]; exact heq.ge)]
      exact Finset.mem_range.mpr hq
    simp [hnone] at hmem
  · intro hfull
    by_contra hne
    obtain ⟨q, hq, hnone⟩ := exists_free (lt_of_le_of_ne (load_le cell n) hne)
    exact hfull q hq hnone

lemma load_put {f : α} (hp : p < n) (hfree : cell p = none) :
    load (Function.update cell p (some f)) n = load cell n + 1 := by
  have hset : (Finset.range n).filter (fun i => (Function.update cell p (some f) i).isSome)
      = insert p ((Finset.range n).filter fun i => (cell i).isSome) := by
    ext i
    by_cases hip : i = p
    · subst hip; simp [hp]
    · simp [hip]
  rw [load, hset, Finset.card_insert_of_notMem (by simp [hfree]), load]

lemma load_replace {f : α} (hc : cell p = some e) :
    load (Function.update cell p (some f)) n = load cell n := by
  unfold load
  congr 1
  ext i
  by_cases hip : i = p
  · subst hip; simp [hc]
  · simp [hip]

lemma load_clear (hp : p < n) (hc : cell p = some e) :
    load (Function.update cell p none) n + 1 = load cell n := by
  have hset : (Finset.range n).filter (fun i => (cell i).isSome)
      = insert p ((Finset.range n).filter fun i => (Function.update cell p none i).isSome) := by
    ext i
    by_cases hip : i = p
    · subst hip; simp [hp, hc]
    · simp [hip]
  rw [load, load, hset, Finset.card_insert_of_notMem (by simp)]

/-! ## Rehashing -/

/-- Place an entry at the first free cell from its home, without looking at keys. -/
def place (key : α → κ) (home : κ → ℕ) (n : ℕ) (cell : ℕ → Option α) (e : α) :
    Option (ℕ → Option α) :=
  (scan (fun i => (cell i).isNone) n n (home (key e))).map fun p => Function.update cell p (some e)

omit [DecidableEq κ] in
/-- One placement into a table with room, of an entry with a new key. -/
lemma place_spec (hs : Sound key home cell n) (hh : home (key e) < n) (hroom : load cell n < n)
    (hmiss : ∀ f, ¬ Stored key cell n (key e) f) :
    ∃ cell', place key home n cell e = some cell' ∧ Sound key home cell' n ∧
      load cell' n = load cell n + 1 ∧
      ∀ k f, Stored key cell' n k f ↔ (f = e ∧ key e = k) ∨ Stored key cell n k f := by
  obtain ⟨q, hq, hcq⟩ := exists_free hroom
  obtain ⟨p, hscan⟩ := scan_isSome (fun i => (cell i).isNone) hh hq (by simp [hcq])
  obtain ⟨hp, hstop, hfirst⟩ := (scan_eq_some_iff _ hh).mp hscan
  have hfree : cell p = none := by simpa using hstop
  refine ⟨Function.update cell p (some e), by rw [place, hscan]; rfl, ?_, load_put hp hfree, ?_⟩
  · refine hs.put hfree (fun q hq hlt hnone => ?_) hmiss
    have := hfirst q hq hlt
    simp [hnone] at this
  · intro k f
    rw [stored_update_some hp]
    constructor
    · rintro (hnew | ⟨q, hq, -, hc, hk⟩)
      · exact Or.inl hnew
      · exact Or.inr ⟨q, hq, hc, hk⟩
    · rintro (hnew | ⟨q, hq, hc, hk⟩)
      · exact Or.inl hnew
      · refine Or.inr ⟨q, hq, ?_, hc, hk⟩
        rintro rfl
        rw [hfree] at hc
        cases hc

omit [DecidableEq κ] in
/-- Placing entries of pairwise distinct new keys one by one, with room for all of them. -/
theorem rehash_spec (hhome : ∀ k, home k < n) :
    ∀ (es : List α) (cell : ℕ → Option α), Sound key home cell n → (es.map key).Nodup →
      (∀ e ∈ es, ∀ f, ¬ Stored key cell n (key e) f) → load cell n + es.length ≤ n →
      ∃ cell', es.foldlM (place key home n) cell = some cell' ∧ Sound key home cell' n ∧
        load cell' n = load cell n + es.length ∧
        ∀ k f, Stored key cell' n k f ↔ (f ∈ es ∧ key f = k) ∨ Stored key cell n k f := by
  intro es
  induction es with
  | nil =>
    intro cell hs _ _ _
    exact ⟨cell, rfl, hs, rfl, by simp⟩
  | cons e es ih =>
    intro cell hs hnd hnew hroom
    rw [List.map_cons, List.nodup_cons] at hnd
    rw [List.length_cons] at hroom
    obtain ⟨cell₁, hplace, hs₁, hload₁, hst₁⟩ := place_spec hs (hhome (key e)) (by omega)
      (hnew e (List.mem_cons_self ..))
    have hnew₁ : ∀ f ∈ es, ∀ g, ¬ Stored key cell₁ n (key f) g := by
      intro f hf g hg
      rcases (hst₁ _ _).mp hg with ⟨-, hk⟩ | hold
      · exact hnd.1 (hk ▸ List.mem_map_of_mem hf)
      · exact hnew f (List.mem_cons_of_mem _ hf) g hold
    obtain ⟨cell₂, hfold, hs₂, hload₂, hst₂⟩ := ih cell₁ hs₁ hnd.2 hnew₁ (by omega)
    refine ⟨cell₂, ?_, hs₂, by rw [hload₂, hload₁, List.length_cons]; omega, fun k f => ?_⟩
    · rw [List.foldlM_cons, hplace]; exact hfold
    · rw [hst₂, hst₁, List.mem_cons]
      constructor
      · rintro (⟨hf, hk⟩ | ⟨rfl, hk⟩ | hold)
        · exact Or.inl ⟨Or.inr hf, hk⟩
        · exact Or.inl ⟨Or.inl rfl, hk⟩
        · exact Or.inr hold
      · rintro (⟨rfl | hf, hk⟩ | hold)
        · exact Or.inr (Or.inl ⟨rfl, hk⟩)
        · exact Or.inl ⟨hf, hk⟩
        · exact Or.inr (Or.inr hold)

omit [DecidableEq κ] in
/-- One placement into a table with room takes one more cell, whatever is in the table. -/
lemma place_load (hh : home (key e) < n) (hroom : load cell n < n) :
    ∃ cell', place key home n cell e = some cell' ∧ load cell' n = load cell n + 1 := by
  obtain ⟨q, hq, hcq⟩ := exists_free hroom
  obtain ⟨p, hscan⟩ := scan_isSome (fun i => (cell i).isNone) hh hq (by simp [hcq])
  obtain ⟨hp, hstop, -⟩ := (scan_eq_some_iff _ hh).mp hscan
  have hfree : cell p = none := by simpa using hstop
  exact ⟨Function.update cell p (some e), by rw [place, hscan]; rfl, load_put hp hfree⟩

variable (key) in
omit [DecidableEq κ] in
/-- Placing entries one by one, with room for all of them. -/
theorem rehash_load (hhome : ∀ k, home k < n) (es : List α) (cell : ℕ → Option α)
    (hroom : load cell n + es.length ≤ n) :
    ∃ cell', es.foldlM (place key home n) cell = some cell' ∧ load cell' n = load cell n + es.length := by
  induction es generalizing cell with
  | nil => exact ⟨cell, rfl, rfl⟩
  | cons e es ih =>
    rw [List.length_cons] at hroom
    obtain ⟨cell₁, hplace, hload₁⟩ := place_load (hhome (key e)) (by omega : load cell n < n)
    obtain ⟨cell₂, hfold, hload₂⟩ := ih cell₁ (by omega)
    refine ⟨cell₂, ?_, by rw [hload₂, hload₁, List.length_cons]; omega⟩
    rw [List.foldlM_cons, hplace]
    exact hfold

end LinearProbe
