import ActiveHarmony.Lib.RingBuffer
import ActiveHarmony.Session.Ledger
import Mathlib.Algebra.BigOperators.Group.Finset.Basic
import Mathlib.Algebra.Order.BigOperators.Group.Finset
import Mathlib.Data.Int.Interval

/-!
# Who holds a slot

`held` counts the places that hold a slot: cells of the ready ring, cells of wait lists, and
clients. `Custody` is the invariant that all results on trials rest on: a slot in use is held
once, or is being moved, or has been lost; `Step.custody` is its step lemma.
-/

namespace ActiveHarmony

/-! ## Conditions along a run -/

/-- Every act of the trace was allowed after the acts before it. -/
def Along (ok : List Act → Act → Prop) (trace : List Act) : Prop :=
  ∀ pre a post, trace = pre ++ a :: post → ok pre a

variable {ok ok' : List Act → Act → Prop} {pre trace : List Act} {a : Act}

lemma Along.nil : Along ok [] := by
  intro pre a post h
  exact absurd h (by simp)

lemma Along.left {as : List Act} (h : Along ok (pre ++ as)) : Along ok pre := by
  intro pre' a post heq
  exact h pre' a (post ++ as) (by rw [heq, List.append_assoc, List.cons_append])

lemma Along.mono (h : Along ok trace) (himp : ∀ pre a, ok pre a → ok' pre a) : Along ok' trace :=
  fun pre a post heq => himp pre a (h pre a post heq)

lemma Along.concat (h : Along ok pre) (ha : ok pre a) : Along ok (pre ++ [a]) := by
  intro pre' a' post heq
  rcases List.eq_nil_or_concat post with rfl | ⟨post', b, rfl⟩
  · rcases List.append_inj' heq rfl with ⟨rfl, hsame⟩
    obtain rfl : a = a' := List.head_eq_of_cons_eq hsame
    exact ha
  · have heq' : pre ++ [a] = (pre' ++ a' :: post') ++ [b] := by
      rw [heq, List.concat_eq_append, List.append_assoc, List.cons_append]
    exact h pre' a' post' (List.append_inj' heq' rfl).1

lemma Along.last (h : Along ok (pre ++ [a])) : ok pre a := h pre a [] rfl

lemma Along.getLast? (h : Along ok trace) (hlast : trace.getLast? = some a) :
    ok trace.dropLast a := by
  rcases List.getLast?_eq_some_iff.mp hlast with ⟨pre, rfl⟩
  rw [List.dropLast_concat]
  exact h.last

/-- A step does at most one act. -/
lemma Ledger.Step.acts {n : ℕ} {L L' : Ledger} {as : List Act} (h : L.Step n as L') :
    as = [] ∨ ∃ a, as = [a] := by
  cases h <;> simp

/-- What holds at the start and is kept by every step holds along a run. -/
theorem Ledger.Run.invariant {n : ℕ} {L L' : Ledger} {I : List Act → Ledger → Prop}
    (hstart : I [] L)
    (hstep : ∀ {pre as : List Act} {L L' : Ledger},
      I pre L → L.Step n as L' → Along ok (pre ++ as) → I (pre ++ as) L')
    (hrun : L.Run n trace L') (hok : Along ok trace) : I trace L' := by
  induction hrun with
  | nil => exact hstart
  | snoc _ hlast ih => exact hstep (ih hok.left) hlast hok

/-! ## Places -/

/-- What an act does to the slots that clients hold. -/
def clientStep (slots : List ℕ) : Act → List ℕ
  | .deliver i _ => i :: slots
  | .report _ (some i) => slots.erase i
  | _ => slots

/-- The slots that clients have fetched and not reported since. -/
def clientSlots (trace : List Act) : List ℕ := trace.foldl clientStep []

@[simp] lemma clientSlots_nil : clientSlots [] = [] := rfl

@[simp] lemma clientSlots_concat :
    clientSlots (pre ++ [a]) = clientStep (clientSlots pre) a := by
  unfold clientSlots
  rw [List.foldl_append]
  rfl

/-- The layers of a stack of `n`, with their direction. -/
def layers (n : ℕ) : Finset ℤ :=
  ((Finset.range (2 * n + 1)).image fun k : ℕ => (k : ℤ) - n).filter (· ≠ 0)

lemma mem_layers {n : ℕ} {c : ℤ} : c ∈ layers n ↔ IsLayer n c := by
  unfold layers IsLayer
  rw [Finset.mem_filter, Finset.mem_image]
  refine ⟨?_, fun h => ⟨⟨(c + n).toNat, Finset.mem_range.mpr (by omega), by omega⟩, h.1⟩⟩
  rintro ⟨⟨k, hk, rfl⟩, hne⟩
  have := Finset.mem_range.mp hk
  exact ⟨hne, by omega⟩

/-- The number of wait list cells that hold slot `i`. -/
def waiting (n : ℕ) (wait : ℤ → WaitList) (i : ℕ) : ℕ :=
  ∑ c ∈ layers n, (wait c).cells.count (i : ℤ)

/-- The number of places that hold slot `i`. -/
def held (n : ℕ) (ring : List ℤ) (wait : ℤ → WaitList) (clients : List ℕ) (i : ℕ) : ℕ :=
  ring.count (i : ℤ) + waiting n wait i + clients.count i

/-- 1 if `plugin_workflow` is moving slot `i`. A trial that a callback chose is still in its
wait list when its answer is looked at. -/
def Ctl.moving : Ctl → ℕ → ℕ
  | .idle, _ => 0
  | .loop j _, i => if j = i then 1 else 0
  | .trans j _ _ none, i => if j = i then 1 else 0
  | .trans _ _ _ (some _), _ => 0

/-- 1 if slot `i` holds a point. -/
def used (ids : List ℤ) (i : ℕ) : ℕ := if (ids[i]?).getD (-1) = -1 then 0 else 1

/-- Changing one list of a family changes the count by the difference. -/
lemma waiting_update {n : ℕ} {wait : ℤ → WaitList} {c : ℤ} {l : WaitList} (hc : IsLayer n c)
    (i : ℕ) : waiting n (Function.update wait c l) i + (wait c).cells.count (i : ℤ)
      = waiting n wait i + l.cells.count (i : ℤ) := by
  have hmem := mem_layers.mpr hc
  unfold waiting
  rw [← Finset.add_sum_erase _ _ hmem, ← Finset.add_sum_erase (layers n) _ hmem]
  have hrest : ∑ k ∈ (layers n).erase c, (Function.update wait c l k).cells.count (i : ℤ)
      = ∑ k ∈ (layers n).erase c, (wait k).cells.count (i : ℤ) := by
    refine Finset.sum_congr rfl fun k hk => ?_
    rw [Function.update_of_ne (Finset.ne_of_mem_erase hk)]
  rw [hrest, Function.update_self]
  omega

/-- One list of a family holds no more than all of them. -/
lemma count_le_waiting {n : ℕ} (wait : ℤ → WaitList) {c : ℤ} (hc : IsLayer n c) (i : ℕ) :
    (wait c).cells.count (i : ℤ) ≤ waiting n wait i :=
  Finset.single_le_sum (f := fun c => (wait c).cells.count (i : ℤ)) (fun _ _ => Nat.zero_le _)
    (mem_layers.mpr hc)

/-- A slot that is held nowhere is in no list. -/
lemma nowhere_of_held {n i : ℕ} {ring : List ℤ} {wait : ℤ → WaitList} {clients : List ℕ}
    (h : held n ring wait clients i = 0) :
    (i : ℤ) ∉ ring ∧ i ∉ clients ∧ ∀ c, IsLayer n c → (i : ℤ) ∉ (wait c).cells := by
  unfold held at h
  refine ⟨fun hmem => ?_, fun hmem => ?_, fun c hc hmem => ?_⟩
  · have := List.count_pos_iff.mpr hmem
    omega
  · have := List.count_pos_iff.mpr hmem
    omega
  · have := List.count_pos_iff.mpr hmem
    have := count_le_waiting wait hc i
    omega

/-- Writing a cell exchanges one element for another. -/
lemma count_set_add {α : Type*} [DecidableEq α] {l : List α} {k : ℕ} {old : α}
    (h : l[k]? = some old) (new x : α) :
    (l.set k new).count x + (if old = x then 1 else 0)
      = l.count x + (if new = x then 1 else 0) := by
  rcases List.getElem?_eq_some_iff.mp h with ⟨hlt, hold⟩
  rw [List.count_set hlt, hold]
  simp only [beq_iff_eq]
  by_cases hx : old = x
  · have hpos : 0 < l.count x := List.count_pos_iff.mpr (hx ▸ hold ▸ List.getElem_mem hlt)
    rw [if_pos hx]
    omega
  · rw [if_neg hx]
    omega

lemma used_set {ids : List ℤ} {i : ℕ} (hi : i < ids.length) (id : ℤ) (j : ℕ) :
    used (ids.set i id) j = if i = j then (if id = -1 then 0 else 1) else used ids j := by
  unfold used
  by_cases hij : i = j
  · subst hij
    rw [List.getElem?_set_self hi, if_pos rfl]
    rfl
  · rw [List.getElem?_set_ne hij, if_neg hij]

lemma used_le_one (ids : List ℤ) (i : ℕ) : used ids i ≤ 1 := by
  unfold used
  split_ifs <;> omega

lemma used_of_getElem? {ids : List ℤ} {i : ℕ} {id : ℤ} (h : ids[i]? = some id) :
    used ids i = if id = -1 then 0 else 1 := by
  unfold used
  rw [h]
  rfl

lemma lt_of_used {ids : List ℤ} {i : ℕ} (h : used ids i ≠ 0) : i < ids.length := by
  by_contra hge
  apply h
  unfold used
  rw [List.getElem?_eq_none (not_lt.mp hge)]
  rfl

/-- The number of slots in use. -/
def usedCount (ids : List ℤ) : ℤ := ids.countP (· ≠ -1)

lemma usedCount_set {ids : List ℤ} {i : ℕ} (hi : i < ids.length) (id : ℤ) :
    usedCount (ids.set i id) + used ids i = usedCount ids + (if id = -1 then 0 else 1) := by
  unfold usedCount
  rw [List.countP_set hi, used_of_getElem? (List.getElem?_eq_getElem hi)]
  by_cases hx : ids[i] = -1
  · by_cases hid : id = -1 <;> simp [hx, hid]
  · have hpos : 0 < ids.countP (· ≠ -1) :=
      List.countP_pos_iff.mpr ⟨ids[i], List.getElem_mem hi, by simpa using hx⟩
    have hx' : decide (ids[i] ≠ -1) = true := decide_eq_true hx
    by_cases hid : id = -1
    · have hid' : decide (id ≠ -1) = false := decide_eq_false (not_not.mpr hid)
      rw [hx', hid', if_neg hx, if_pos hid]
      simp only [if_true, Bool.false_eq_true, if_false]
      omega
    · have hid' : decide (id ≠ -1) = true := decide_eq_true hid
      rw [hx', hid', if_neg hx, if_neg hid]
      simp only [if_true]
      omega

/-! ## Wait lists -/

/-- The first `len` cells of a wait list hold slots and the others are marked. -/
structure WaitList.Ok (l : WaitList) : Prop where
  len_le : l.len ≤ l.cells.length
  slot : ∀ p < l.len, ∃ i : ℕ, l.cells[p]? = some (i : ℤ)
  mark : ∀ p, l.len ≤ p → p < l.cells.length → l.cells[p]? = some (-1)

variable {l : WaitList} {p : ℕ}

lemma WaitList.ok_empty : WaitList.Ok { cells := [], len := 0 } where
  len_le := le_refl _
  slot := fun p hp => absurd hp (Nat.not_lt_zero p)
  mark := fun p _ hp => absurd hp (Nat.not_lt_zero p)

/-- A mark is no slot. -/
lemma mark_ne_slot (i : ℕ) : (-1 : ℤ) ≠ i := by omega

lemma WaitList.count_grown (l : WaitList) (i : ℕ) :
    l.grown.cells.count (i : ℤ) = l.cells.count (i : ℤ) := by
  unfold grown
  split_ifs
  · unfold grow
    rw [List.count_append, List.count_replicate, if_neg (by simp),
      Nat.add_zero]
  · rfl

lemma WaitList.Ok.grown (h : l.Ok) : l.grown.Ok := by
  unfold WaitList.grown
  split_ifs with hfull
  · unfold grow
    refine ⟨?_, fun p hp => ?_, fun p hle hlt => ?_⟩
    · rw [List.length_append]
      exact le_add_right h.len_le
    · rcases h.slot p hp with ⟨i, hi⟩
      exact ⟨i, by rw [List.getElem?_append_left (lt_of_lt_of_le hp h.len_le), hi]⟩
    · -- the new cells are all the cells behind `len`
      have hge : l.cells.length ≤ p := hfull ▸ hle
      rw [List.length_append, List.length_replicate] at hlt
      rw [List.getElem?_append_right hge, List.getElem?_replicate, if_pos (by omega)]
  · exact h

/-- There is always room after `array_grow`. -/
lemma WaitList.Ok.room (h : l.Ok) : l.grown.cells[l.grown.len]? = some (-1) := by
  apply h.grown.mark _ (le_refl _)
  unfold WaitList.grown
  split_ifs with hfull
  · unfold grow
    simp only [List.length_append, List.length_replicate]
    split_ifs <;> omega
  · exact lt_of_le_of_ne h.len_le hfull

lemma WaitList.Ok.append (h : l.Ok) (hroom : l.cells[l.len]? = some (-1)) (i : ℕ) :
    (l.append i).Ok := by
  have hlt := (List.getElem?_eq_some_iff.mp hroom).1
  unfold WaitList.append
  refine ⟨?_, fun p hp => ?_, fun p hle hp => ?_⟩
  · simp only [List.length_set]
    omega
  · by_cases heq : l.len = p
    · exact ⟨i, by rw [← heq, List.getElem?_set_self hlt]⟩
    · rcases h.slot p (by simp only at hp; omega) with ⟨j, hj⟩
      exact ⟨j, by rw [List.getElem?_set_ne heq, hj]⟩
  · simp only [List.length_set] at hle hp
    rw [List.getElem?_set_ne (by omega)]
    exact h.mark p (by omega) hp

lemma WaitList.count_append (hroom : l.cells[l.len]? = some (-1)) (i j : ℕ) :
    (l.append i).cells.count (j : ℤ) = l.cells.count (j : ℤ) + (if i = j then 1 else 0) := by
  have hset := count_set_add hroom (i : ℤ) (j : ℤ)
  rw [if_neg (mark_ne_slot j)] at hset
  simp only [Nat.cast_inj] at hset
  exact hset

/-- The last element of a wait list that is not empty. -/
lemma WaitList.Ok.last (h : l.Ok) (hp : p < l.len) :
    ∃ k : ℕ, l.cells[l.len - 1]? = some (k : ℤ) := h.slot (l.len - 1) (by omega)

lemma WaitList.remove_eq {k : ℤ} (hk : l.cells[l.len - 1]? = some k) (p : ℕ) :
    l.remove p = { cells := (l.cells.set p k).set (l.len - 1) (-1), len := l.len - 1 } := by
  unfold WaitList.remove
  simp only [hk]
  rfl

lemma WaitList.Ok.remove (h : l.Ok) (hp : p < l.len) : (l.remove p).Ok := by
  rcases h.last hp with ⟨k, hk⟩
  have hlen := h.len_le
  rw [WaitList.remove_eq hk]
  refine ⟨?_, fun r hr => ?_, fun r hle hr => ?_⟩
  · simp only [List.length_set]
    omega
  · simp only at hr
    rw [List.getElem?_set_ne (by omega)]
    by_cases hrp : p = r
    · exact ⟨k, by rw [hrp, List.getElem?_set_self (by omega)]⟩
    · rw [List.getElem?_set_ne hrp]
      exact h.slot r (by omega)
  · simp only [List.length_set] at hle hr
    by_cases hlast : l.len - 1 = r
    · rw [hlast, List.getElem?_set_self (by rw [List.length_set]; omega)]
    · rw [List.getElem?_set_ne hlast, List.getElem?_set_ne (by omega)]
      exact h.mark r (by omega) hr

lemma WaitList.Ok.count_remove (h : l.Ok) (hp : p < l.len) {i : ℕ}
    (hi : l.cells[p]? = some (i : ℤ)) (j : ℕ) :
    (l.remove p).cells.count (j : ℤ) + (if i = j then 1 else 0) = l.cells.count (j : ℤ) := by
  rcases h.last hp with ⟨k, hk⟩
  rw [WaitList.remove_eq hk]
  -- the last element is copied to `p`, and then overwritten with a mark
  have hcopy := count_set_add hi (k : ℤ) (j : ℤ)
  have hlast : (l.cells.set p (k : ℤ))[l.len - 1]? = some (k : ℤ) := by
    by_cases heq : p = l.len - 1
    · rw [← heq, List.getElem?_set_self (by have := h.len_le; omega)]
    · rw [List.getElem?_set_ne heq, hk]
  have hmark := count_set_add hlast (-1) (j : ℤ)
  rw [if_neg (mark_ne_slot j)] at hmark
  simp only [Nat.cast_inj] at hcopy hmark
  show ((l.cells.set p (k : ℤ)).set (l.len - 1) (-1)).count (j : ℤ) + _ = _
  omega

/-! ## Custody -/

/-- The ready ring and the wait lists are well formed, and every slot in use is held once, or is
being moved, or is one of the `lost`. -/
structure Custody (n : ℕ) (clients : List ℕ) (L : Ledger) (q : List ℤ) (lost : List ℕ) :
    Prop where
  ring : Ring.Holds (-1) L.ring L.head L.tail q
  ring_len : L.ring.length = L.ids.length
  slots : ∀ x ∈ q, ∃ i : ℕ, x = i
  wait : ∀ c, (L.wait c).Ok
  once : ∀ i, held n L.ring L.wait clients i + L.ctl.moving i + lost.count i = used L.ids i
  len : L.len = usedCount L.ids

variable {n i : ℕ} {clients lost : List ℕ} {L : Ledger} {q : List ℤ} {c id : ℤ}

lemma custody_initial {cap : ℕ} (hcap : 0 < cap) :
    Custody n [] (Ledger.initial cap) [] [] where
  ring := Ring.holds_empty hcap
  ring_len := by simp [Ledger.initial]
  slots := by simp
  wait := fun _ => WaitList.ok_empty
  once := by
    intro i
    have hring : (List.replicate cap (-1 : ℤ)).count (i : ℤ) = 0 := by simp [List.count_replicate]
    have hused : used (List.replicate cap (-1)) i = 0 := by
      unfold used
      rw [List.getElem?_replicate]
      split_ifs <;> simp_all
    simp [held, waiting, Ledger.initial, hring, hused, Ctl.moving]
  len := by simp [Ledger.initial, usedCount, List.countP_replicate]

lemma Custody.set_poll (h : Custody n clients L q lost) (poll : Bool) :
    Custody n clients { L with poll := poll } q lost :=
  ⟨h.ring, h.ring_len, h.slots, h.wait, h.once, h.len⟩

/-- Going on with the same slot. -/
lemma Custody.set_ctl (h : Custody n clients L q lost) {ctl : Ctl}
    (hmove : ∀ j, ctl.moving j = L.ctl.moving j) :
    Custody n clients { L with ctl := ctl } q lost := by
  refine ⟨h.ring, h.ring_len, h.slots, h.wait, fun j => ?_, h.len⟩
  have := h.once j
  rw [hmove j]
  exact this

/-- Stopping in the middle of a move loses the slot. -/
lemma Custody.lose (h : Custody n clients L q lost)
    (hmove : ∀ j, L.ctl.moving j = if i = j then 1 else 0) :
    Custody n clients { L with ctl := .idle } q (i :: lost) := by
  refine ⟨h.ring, h.ring_len, h.slots, h.wait, fun j => ?_, h.len⟩
  have := h.once j
  rw [hmove j] at this
  simp only [Ctl.moving, List.count_cons, beq_iff_eq]
  omega

/-- A slot that is being moved, or held, is in use. -/
lemma Custody.used_of_moving (h : Custody n clients L q lost) (hmove : L.ctl.moving i = 1) :
    used L.ids i = 1 ∧ held n L.ring L.wait clients i = 0 := by
  have := h.once i
  have := used_le_one L.ids i
  omega

/-- A new point in a free slot. -/
lemma Custody.start (h : Custody n clients L q lost) (hidle : L.ctl = .idle)
    (hfree : L.ids[i]? = some (-1)) (hid : id ≠ -1) (c : ℤ) :
    Custody n clients { L with ids := L.ids.set i id, len := L.len + 1, ctl := .loop i c }
      q lost := by
  have hi := (List.getElem?_eq_some_iff.mp hfree).1
  have hfree' : used L.ids i = 0 := by rw [used_of_getElem? hfree, if_pos rfl]
  refine ⟨h.ring, ?_, h.slots, h.wait, fun j => ?_, ?_⟩
  · rw [List.length_set]
    exact h.ring_len
  · have hj := h.once j
    rw [hidle] at hj
    simp only [Ctl.moving, used_set hi, if_neg hid] at hj ⊢
    by_cases hij : i = j
    · subst hij
      rw [if_pos rfl, if_pos rfl]
      omega
    · rw [if_neg hij, if_neg hij]
      exact hj
  · have hlen := usedCount_set hi id
    rw [hfree', if_neg hid] at hlen
    simp only [h.len]
    push_cast at hlen
    omega

/-- Nothing changes when a free slot is left without a point. -/
lemma Custody.stay (h : Custody n clients L q lost) (hfree : L.ids[i]? = some (-1)) :
    Custody n clients { L with ids := L.ids.set i (-1) } q lost := by
  have hsame : L.ids.set i (-1) = L.ids := by
    rcases List.getElem?_eq_some_iff.mp hfree with ⟨hi, heq⟩
    rw [← heq]
    exact List.set_getElem_self hi
  rw [hsame]
  exact h

/-- Another point in a slot in use. -/
lemma Custody.refill (h : Custody n clients L q lost) (hused : used L.ids i = 1)
    (hid : id ≠ -1) : Custody n clients { L with ids := L.ids.set i id } q lost := by
  have hi : i < L.ids.length := lt_of_used (by omega)
  refine ⟨h.ring, ?_, h.slots, h.wait, fun j => ?_, ?_⟩
  · rw [List.length_set]
    exact h.ring_len
  · have hj := h.once j
    simp only [used_set hi, if_neg hid]
    by_cases hij : i = j
    · subst hij
      rw [if_pos rfl]
      omega
    · rw [if_neg hij]
      exact hj
  · have hlen := usedCount_set hi id
    rw [hused, if_neg hid] at hlen
    have := h.len
    simp only
    push_cast at hlen
    omega

/-- Entering the wait list of a layer. -/
lemma Custody.enterWait (h : Custody n clients L q lost) (hc : IsLayer n c)
    (hmove : ∀ j, L.ctl.moving j = if i = j then 1 else 0) :
    Custody n clients { L with
      wait := Function.update L.wait c ((L.wait c).grown.append i), ctl := .idle } q lost := by
  have hroom := (h.wait c).room
  refine ⟨h.ring, h.ring_len, h.slots, fun k => ?_, fun j => ?_, h.len⟩
  · by_cases hk : k = c
    · simp only [hk, Function.update_self]
      exact (h.wait c).grown.append hroom i
    · simp only [Function.update_of_ne hk]
      exact h.wait k
  · have hj := h.once j
    rw [hmove j] at hj
    have hwait := @waiting_update n L.wait c ((L.wait c).grown.append i) hc j
    rw [WaitList.count_append hroom, WaitList.count_grown] at hwait
    simp only [held, Ctl.moving] at hj ⊢
    omega

/-- Leaving the wait list of a layer, as a callback decided. -/
lemma Custody.leaveWait (h : Custody n clients L q lost) (hc : IsLayer n c)
    (hmove : ∀ j, L.ctl.moving j = 0) {p : ℕ} (hp : p < (L.wait c).len)
    (hi : (L.wait c).cells[p]? = some (i : ℤ)) (c' : ℤ) :
    Custody n clients (L.resume (some p) i c c') q lost := by
  refine ⟨h.ring, h.ring_len, h.slots, fun k => ?_, fun j => ?_, h.len⟩
  · by_cases hk : k = c
    · rw [hk]
      simp only [Ledger.resume, Function.update_self]
      exact (h.wait c).remove hp
    · simp only [Ledger.resume, Function.update_of_ne hk]
      exact h.wait k
  · have hj := h.once j
    rw [hmove j] at hj
    have hwait := @waiting_update n L.wait c ((L.wait c).remove p) hc j
    have hremove := (h.wait c).count_remove hp hi j
    simp only [held, Ledger.resume, Ctl.moving] at hj ⊢
    omega

/-- The strategy takes the trial back. -/
lemma Custody.finish (h : Custody n clients L q lost)
    (hmove : ∀ j, L.ctl.moving j = if i = j then 1 else 0) :
    Custody n clients { L with ids := L.ids.set i (-1), len := L.len - 1, ctl := .idle }
      q lost := by
  have hused := h.used_of_moving (i := i) (by rw [hmove i, if_pos rfl])
  have hi : i < L.ids.length := lt_of_used (by omega)
  refine ⟨h.ring, ?_, h.slots, h.wait, fun j => ?_, ?_⟩
  · rw [List.length_set]
    exact h.ring_len
  · have hj := h.once j
    rw [hmove j] at hj
    simp only [used_set hi, if_true, Ctl.moving] at hj ⊢
    by_cases hij : i = j
    · subst hij
      rw [if_pos rfl] at hj ⊢
      omega
    · rw [if_neg hij] at hj ⊢
      exact hj
  · have hlen := usedCount_set hi (-1)
    rw [hused.1, if_pos rfl] at hlen
    have := h.len
    simp only
    push_cast at hlen
    omega

/-- No slot is in the ready queue twice. -/
lemma Custody.nodup (h : Custody n clients L q lost) : q.Nodup := by
  rw [List.nodup_iff_count_le_one]
  intro x
  by_cases hx : x ∈ q
  · rcases h.slots x hx with ⟨i, rfl⟩
    have honce := h.once i
    have := used_le_one L.ids i
    unfold held at honce
    rw [← h.ring.count_eq (mark_ne_slot i).symm]
    omega
  · rw [List.count_eq_zero_of_not_mem hx]
    exact Nat.zero_le 1

/-- The ready queue has room for a slot that is being moved. -/
theorem Custody.tail_marked (h : Custody n clients L q lost) (hmove : L.ctl.moving i = 1) :
    L.ring[L.tail]? = some (-1) := by
  rw [h.ring.tail_marked_iff, h.ring_len]
  -- `i` and the slots of the queue are different slots
  have hnot : (i : ℤ) ∉ q := by
    have := (h.used_of_moving hmove).2
    unfold held at this
    rw [← List.count_eq_zero, ← h.ring.count_eq (mark_ne_slot i).symm]
    omega
  have hnodup : ((i : ℤ) :: q).Nodup := List.nodup_cons.mpr ⟨hnot, h.nodup⟩
  have hsub : (i : ℤ) :: q ⊆ (List.range L.ids.length).map (fun j : ℕ => (j : ℤ)) := by
    intro x hx
    have hslot : ∃ j : ℕ, x = j ∧ used L.ids j ≠ 0 := by
      rcases List.mem_cons.mp hx with rfl | hx
      · exact ⟨i, rfl, by have := (h.used_of_moving hmove).1; omega⟩
      · rcases h.slots x hx with ⟨j, rfl⟩
        have hpos := List.count_pos_iff.mpr hx
        rw [← h.ring.count_eq (mark_ne_slot j).symm] at hpos
        have := h.once j
        unfold held at this
        exact ⟨j, rfl, by omega⟩
    rcases hslot with ⟨j, rfl, hj⟩
    exact List.mem_map.mpr ⟨j, List.mem_range.mpr (lt_of_used hj), rfl⟩
  have hle := (List.subperm_of_subset hnodup hsub).length_le
  rw [List.length_map, List.length_range, List.length_cons] at hle
  omega

/-- Entering the ready queue. -/
lemma Custody.enqueue (h : Custody n clients L q lost)
    (hmove : ∀ j, L.ctl.moving j = if i = j then 1 else 0) (hmark : L.ring[L.tail]? = some (-1)) :
    Custody n clients { L with
      ring := L.ring.set L.tail (i : ℤ), tail := (L.tail + 1) % L.ring.length, ctl := .idle }
      (q ++ [(i : ℤ)]) lost := by
  refine ⟨h.ring.push hmark (mark_ne_slot i).symm, ?_, fun x hx => ?_, h.wait, fun j => ?_, h.len⟩
  · rw [List.length_set]
    exact h.ring_len
  · rcases List.mem_append.mp hx with hx | hx
    · exact h.slots x hx
    · exact ⟨i, List.mem_singleton.mp hx⟩
  · have hj := h.once j
    rw [hmove j] at hj
    have hring := count_set_add hmark (i : ℤ) (j : ℤ)
    rw [if_neg (mark_ne_slot j)] at hring
    simp only [Nat.cast_inj] at hring
    simp only [held, Ctl.moving] at hj ⊢
    omega

/-- A client fetches the first slot of the ready queue. -/
lemma Custody.deliver (h : Custody n clients L q lost) {idx : ℤ}
    (hidx : L.ring[L.head]? = some idx) (hpos : 0 ≤ idx) :
    ∃ q', q = idx :: q' ∧ Custody n (idx.toNat :: clients) { L with
      ring := L.ring.set L.head (-1), head := (L.head + 1) % L.ring.length } q' lost := by
  have hhead := h.ring.head_eq
  rw [hidx] at hhead
  cases q with
  | nil =>
    rw [Option.some.inj hhead] at hpos
    exact absurd hpos (by decide)
  | cons x q =>
    obtain rfl : idx = x := Option.some.inj hhead
    refine ⟨q, rfl, h.ring.pop, ?_, fun x hx => h.slots x (List.mem_cons_of_mem _ hx), h.wait,
      fun j => ?_, h.len⟩
    · rw [List.length_set]
      exact h.ring_len
    · have hj := h.once j
      rcases h.slots idx List.mem_cons_self with ⟨i, rfl⟩
      have hring := count_set_add hidx (-1) (j : ℤ)
      rw [if_neg (mark_ne_slot j)] at hring
      simp only [Nat.cast_inj] at hring
      simp only [held, List.count_cons, beq_iff_eq, Int.toNat_natCast] at hj ⊢
      omega

/-- A client reports a slot it holds. -/
lemma Custody.report (h : Custody n clients L q lost) (hidle : L.ctl = .idle)
    (hi : i ∈ clients) (c : ℤ) :
    Custody n (clients.erase i) { L with ctl := .loop i c } q lost := by
  refine ⟨h.ring, h.ring_len, h.slots, h.wait, fun j => ?_, h.len⟩
  have hj := h.once j
  rw [hidle] at hj
  have hpos := List.count_pos_iff.mpr hi
  simp only [held, Ctl.moving, List.count_erase, beq_iff_eq] at hj ⊢
  by_cases hij : i = j
  · subst hij
    rw [if_pos rfl]
    omega
  · rw [if_neg hij]
    omega

/-- There is a free slot as long as not all slots are in use. -/
theorem Custody.exists_free (h : Custody n clients L q lost) (hroom : L.len < L.ids.length) :
    ∃ id ∈ L.ids, id = -1 := by
  by_contra hnone
  push Not at hnone
  have hall : L.ids.countP (· ≠ -1) = L.ids.length :=
    List.countP_eq_length.mpr fun id hid => by simpa using hnone id hid
  have hlen := h.len
  unfold usedCount at hlen
  rw [hall] at hlen
  omega

/-! ## The invariant of a run -/

/-- The slots that entered the ready queue, in this order. -/
def enqueued (trace : List Act) : List ℕ :=
  trace.filterMap fun a => match a with
    | .enqueue i => some i
    | _ => none

/-- The slots that clients fetched, in this order. -/
def delivered (trace : List Act) : List ℕ :=
  trace.filterMap fun a => match a with
    | .deliver i _ => some i
    | _ => none

/-- The errors of an array that is full. -/
def CoreError.IsOverflow (e : CoreError) : Prop :=
  e = .pointOverflow ∨ e = .readyOverflow ∨ e = .waitAppend

/-- While an answer is looked at, it is the last act of the trace; a trial that a callback chose
is where the callback found it. -/
def Ledger.Answered (n : ℕ) (trace : List Act) (L : Ledger) : Prop :=
  match L.ctl with
  | .trans i c st none => IsLayer n c ∧ trace.getLast? = some (.layer c i 0 st)
  | .trans i c st (some p) =>
    IsLayer n c ∧ trace.getLast? = some (.callback c p i st) ∧
      p < (L.wait c).len ∧ (L.wait c).cells[p]? = some (i : ℤ)
  | _ => True

/-- The acts after which custody is kept. The strategy leaves an id in a slot exactly if it gives
a point, clients report what they hold, and callbacks do not answer WAIT. -/
def Sound (pre : List Act) : Act → Prop
  | .generate _ _ ret st id => ret = 0 ∧ st ≠ .wait ↔ id ≠ -1
  | .rejected _ _ _ _ id => id ≠ -1
  | .callback _ _ _ st => st ≠ .wait
  | .report _ (some i) => i ∈ clientSlots pre
  | _ => True

/-- The last act was the call of a layer. -/
def afterLayer (pre : List Act) : Prop :=
  ∃ c i ret st, pre.getLast? = some (.layer c i ret st)

/-- The acts after which no trial is dropped: no call fails, layers do not refuse a trial that is
being analyzed, and the strategy gives another point for a trial that a layer refused. -/
def Lossless (pre : List Act) : Act → Prop
  | .layer c _ ret st => ret = 0 ∧ st ≠ .unknown ∧ ¬ (c < 0 ∧ st = .reject)
  | .rejected _ _ ret st _ => ret = 0 ∧ st ≠ .wait ∨ ¬ afterLayer pre
  | .analyzed _ ret => ret = 0
  | _ => True

/-- The invariant of a run: custody, first in first out, and no overflow. -/
structure Accounted (n : ℕ) (trace : List Act) (L : Ledger) (q : List ℤ) (lost : List ℕ) :
    Prop where
  custody : Custody n (clientSlots trace) L q lost
  answered : L.Answered n trace
  order : enqueued trace = delivered trace ++ q.map Int.toNat
  safe : ∀ e, .raised e ∈ trace → ¬ e.IsOverflow

variable {L' : Ledger} {q' : List ℤ} {lost' : List ℕ} {as : List Act} {st : FlowStatus}
  {pos : Option ℕ}

lemma answered_of_idle (h : L.ctl = .idle) : L.Answered n trace := by
  unfold Ledger.Answered
  rw [h]
  trivial

lemma Accounted.next (h : Accounted n pre L q lost)
    (hcustody : Custody n (as.foldl clientStep (clientSlots pre)) L' q' lost')
    (hanswered : L'.Answered n (pre ++ as))
    (horder : q.map Int.toNat ++ enqueued as = delivered as ++ q'.map Int.toNat)
    (hsafe : ∀ e, .raised e ∈ as → ¬ e.IsOverflow) : Accounted n (pre ++ as) L' q' lost' where
  custody := by
    unfold clientSlots at hcustody ⊢
    rw [List.foldl_append]
    exact hcustody
  answered := hanswered
  order := by
    have horder' := h.order
    unfold enqueued delivered at horder horder' ⊢
    rw [List.filterMap_append, List.filterMap_append, horder', List.append_assoc, horder,
      List.append_assoc]
  safe := fun e he => (List.mem_append.mp he).elim (h.safe e) (hsafe e)

/-- A trial whose answer is looked at goes on. -/
lemma Custody.resume (h : Custody n clients L q lost) (hctl : L.ctl = .trans i c st pos)
    (hans : L.Answered n trace) (c' : ℤ) :
    Custody n clients (L.resume pos i c c') q lost := by
  cases pos with
  | none => exact h.set_ctl fun j => by rw [hctl]; rfl
  | some p =>
    unfold Ledger.Answered at hans
    rw [hctl] at hans
    exact h.leaveWait hans.1 (fun j => by rw [hctl]; rfl) hans.2.2.1 hans.2.2.2 c'

/-- A trial whose answer is looked at goes nowhere: a layer's is lost, and a callback's stays in
its wait list. -/
lemma Custody.stop (h : Custody n clients L q lost) (hctl : L.ctl = .trans i c st pos) :
    ∃ lost', Custody n clients { L with ctl := .idle } q lost' ∧ (pos ≠ none → lost' = lost) := by
  cases pos with
  | none =>
    exact ⟨i :: lost, h.lose (fun j => by rw [hctl]; rfl), fun hpos => absurd rfl hpos⟩
  | some p =>
    exact ⟨lost, h.set_ctl (fun j => by rw [hctl]; rfl), fun _ => rfl⟩

lemma Custody.used_of_answer (h : Custody n clients L q lost) (hctl : L.ctl = .trans i c st pos)
    (hans : L.Answered n trace) : used L.ids i = 1 := by
  cases pos with
  | none => exact (h.used_of_moving (by rw [hctl]; exact if_pos rfl)).1
  | some p =>
    unfold Ledger.Answered at hans
    rw [hctl] at hans
    have hmem : (i : ℤ) ∈ (L.wait c).cells := List.mem_of_getElem? hans.2.2.2
    have hpos := List.count_pos_iff.mpr hmem
    have hle := count_le_waiting L.wait hans.1 i
    have honce := h.once i
    have := used_le_one L.ids i
    unfold held at honce
    omega

/-- A trial dropped after an answer was the trial of a layer's answer, if it was lost at all. -/
lemma Accounted.dropped (h : Accounted n pre L q lost) (hctl : L.ctl = .trans i c st pos)
    (hlossless : Along Lossless pre)
    (hbad : afterLayer pre → st ≠ .unknown ∧ ¬ (c < 0 ∧ st = .reject) → False) : pos ≠ none := by
  intro hnone
  have hans := h.answered
  unfold Ledger.Answered at hans
  rw [hctl, hnone] at hans
  have hlayer := hlossless.getLast? hans.2
  exact hbad ⟨c, i, 0, st, hans.2⟩ hlayer.2

/-- One step keeps the books: the queue moves on, and slots are only lost by a lossy answer. -/
theorem Ledger.Step.accounted (hstep : L.Step n as L') (h : Accounted n pre L q lost)
    (hsound : Along Sound (pre ++ as)) :
    ∃ q' lost', Accounted n (pre ++ as) L' q' lost' ∧
      (Along Lossless (pre ++ as) → lost' = lost) := by
  -- the queue stays as it is, unless the act says otherwise
  have hsame : q.map Int.toNat ++ [] = [] ++ q.map Int.toNat := List.append_nil _
  have hquiet : ∀ a : Act, (∀ e, a ≠ .raised e) → ∀ e, .raised e ∈ [a] → ¬ e.IsOverflow :=
    fun a ha e he => absurd (List.mem_singleton.mp he).symm (ha e)
  cases hstep with
  | @generateFail i ret id st hidle hfree hret =>
    have hid : id = -1 := not_not.mp fun hne => hret (hsound.last.mpr hne).1
    subst hid
    exact ⟨q, lost, h.next (h.custody.stay hfree) (answered_of_idle hidle) hsame
      (hquiet _ (by simp)), fun _ => rfl⟩
  | @generateWait i id hidle hfree =>
    have hid : id = -1 := not_not.mp fun hne => (hsound.last.mpr hne).2 rfl
    subst hid
    exact ⟨q, lost, h.next ((h.custody.stay hfree).set_poll false) (answered_of_idle hidle) hsame
      (hquiet _ (by simp)), fun _ => rfl⟩
  | generateGo hidle hfree hst =>
    have hid := hsound.last.mp ⟨rfl, hst⟩
    exact ⟨q, lost, h.next (h.custody.start hidle hfree hid 1) trivial hsame
      (hquiet _ (by simp)), fun _ => rfl⟩
  | pointOverflow hidle hroom hfull =>
    rcases h.custody.exists_free hroom with ⟨id, hid, hfree⟩
    exact absurd hfree (hfull id hid)
  | @layerFail i c ret st hctl hc hret =>
    exact ⟨q, i :: lost, h.next (h.custody.lose fun j => by rw [hctl]; rfl) trivial hsame
      (hquiet _ (by simp)), fun hlossless => absurd hlossless.last.1 hret⟩
  | layer hctl hc =>
    exact ⟨q, lost, h.next (h.custody.set_ctl fun j => by rw [hctl]; rfl)
      ⟨hc, List.getLast?_concat⟩ hsame (hquiet _ (by simp)), fun _ => rfl⟩
  | @callback c p cell st hidle hc hp hcell =>
    rcases (h.custody.wait c).slot p hp with ⟨i, hi⟩
    obtain rfl : cell = i := Option.some.inj (hcell.symm.trans hi)
    exact ⟨q, lost, h.next (h.custody.set_ctl fun j => by rw [hidle]; rfl)
      ⟨hc, List.getLast?_concat, hp, hi⟩ hsame (hquiet _ (by simp)), fun _ => rfl⟩
  | emptyWaitlist hidle =>
    refine ⟨q, lost, h.next h.custody (answered_of_idle hidle) hsame ?_, fun _ => rfl⟩
    intro e he
    cases List.mem_singleton.mp he
    simp [CoreError.IsOverflow]
  | @accept i c pos hctl =>
    exact ⟨q, lost, h.next (h.custody.resume hctl h.answered (c + 1)) trivial hsame (by simp),
      fun _ => rfl⟩
  | @turn i c st pos hctl hst =>
    exact ⟨q, lost, h.next (h.custody.resume hctl h.answered (-c)) trivial hsame (by simp),
      fun _ => rfl⟩
  | @wait i c pos hctl hroom =>
    -- a callback does not answer WAIT, so the trial is in no wait list yet
    have hans := h.answered
    unfold Ledger.Answered at hans
    rw [hctl] at hans
    cases pos with
    | some p => exact absurd rfl (hsound.left.getLast? hans.2.1)
    | none =>
      exact ⟨q, lost, h.next (h.custody.enterWait hans.1 fun j => by rw [hctl]; rfl) trivial
        hsame (by simp), fun _ => rfl⟩
  | @waitAppend i c cell pos hctl hcell hne =>
    rw [(h.custody.wait c).room] at hcell
    exact absurd (Option.some.inj hcell).symm hne
  | unknown hctl =>
    rcases h.custody.stop hctl with ⟨lost', hcustody, hlost⟩
    refine ⟨q, lost', h.next hcustody trivial hsame ?_, fun hlossless => hlost ?_⟩
    · intro e he
      cases List.mem_singleton.mp he
      simp [CoreError.IsOverflow]
    · exact h.dropped hctl hlossless.left fun _ hgood => hgood.1 rfl
  | rejectInAnalysis hctl hneg =>
    rcases h.custody.stop hctl with ⟨lost', hcustody, hlost⟩
    refine ⟨q, lost', h.next hcustody trivial hsame ?_, fun hlossless => hlost ?_⟩
    · intro e he
      cases List.mem_singleton.mp he
      simp [CoreError.IsOverflow]
    · exact h.dropped hctl hlossless.left fun _ hgood => hgood.2 ⟨hneg, rfl⟩
  | rejectedFail hctl hneg hi hret =>
    have hrefill := h.custody.refill (h.custody.used_of_answer hctl h.answered) hsound.last
    rcases hrefill.stop hctl with ⟨lost', hcustody, hlost⟩
    refine ⟨q, lost', h.next hcustody trivial hsame (hquiet _ (by simp)), fun hlossless => hlost ?_⟩
    exact h.dropped hctl hlossless.left fun hafter _ =>
      hlossless.last.elim (fun hgood => hret hgood.1) (fun hnot => hnot hafter)
  | rejectedWait hctl hneg hi =>
    have hrefill := (h.custody.refill (h.custody.used_of_answer hctl h.answered)
      hsound.last).set_poll false
    rcases hrefill.stop hctl with ⟨lost', hcustody, hlost⟩
    refine ⟨q, lost', h.next hcustody trivial hsame (hquiet _ (by simp)), fun hlossless => hlost ?_⟩
    exact h.dropped hctl hlossless.left fun hafter _ =>
      hlossless.last.elim (fun hgood => hgood.2 rfl) (fun hnot => hnot hafter)
  | rejectedGo hctl hneg hi hst =>
    have hrefill := h.custody.refill (h.custody.used_of_answer hctl h.answered) hsound.last
    exact ⟨q, lost, h.next (hrefill.resume hctl h.answered 1) trivial hsame
      (hquiet _ (by simp)), fun _ => rfl⟩
  | @analyzedFail i ret hctl hret =>
    exact ⟨q, i :: lost, h.next (h.custody.lose fun j => by rw [hctl]; rfl) trivial hsame
      (hquiet _ (by simp)), fun hlossless => absurd hlossless.last hret⟩
  | analyzed hctl hi =>
    exact ⟨q, lost, h.next ((h.custody.finish fun j => by rw [hctl]; rfl).set_poll true) trivial
      hsame (hquiet _ (by simp)), fun _ => rfl⟩
  | @enqueue i c hctl hc hmark =>
    refine ⟨q ++ [(i : ℤ)], lost, h.next (h.custody.enqueue (fun j => by rw [hctl]; rfl) hmark)
      trivial ?_ (hquiet _ (by simp)), fun _ => rfl⟩
    rw [List.map_append]
    rfl
  | @readyOverflow i c cell hctl hc hcell hne =>
    have hmark := h.custody.tail_marked (i := i) (by rw [hctl]; exact if_pos rfl)
    rw [hmark] at hcell
    exact absurd (Option.some.inj hcell).symm hne
  | deliver hidle hidx hpos hid =>
    rcases h.custody.deliver hidx hpos with ⟨q', rfl, hcustody⟩
    exact ⟨q', lost, h.next hcustody (answered_of_idle hidle) (List.append_nil _)
      (hquiet _ (by simp)), fun _ => rfl⟩
  | busy hidle =>
    exact ⟨q, lost, h.next h.custody (answered_of_idle hidle) hsame (hquiet _ (by simp)),
      fun _ => rfl⟩
  | report hidle hi hlt =>
    exact ⟨q, lost, h.next (h.custody.report hidle hsound.last _) trivial hsame
      (hquiet _ (by simp)), fun _ => rfl⟩
  | reportNone hidle hnone =>
    exact ⟨q, lost, h.next h.custody (answered_of_idle hidle) hsame (hquiet _ (by simp)),
      fun _ => rfl⟩
  | rougePoint hidle =>
    refine ⟨q, lost, h.next h.custody (answered_of_idle hidle) hsame ?_, fun _ => rfl⟩
    intro e he
    cases List.mem_singleton.mp he
    simp [CoreError.IsOverflow]
  | init hidle =>
    exact ⟨q, lost, h.next h.custody (answered_of_idle hidle) hsame (hquiet _ (by simp)),
      fun _ => rfl⟩

lemma accounted_initial {cap : ℕ} (hcap : 0 < cap) :
    Accounted n [] (Ledger.initial cap) [] [] where
  custody := custody_initial hcap
  answered := trivial
  order := rfl
  safe := fun _ he => absurd he List.not_mem_nil

variable {σ V W : Type} {P : Plugins σ V W} {s : Sess σ V W} {alive : Bool}

/-- The books of a reachable session. -/
theorem Reachable.accounted [Top W] (h : Reachable P alive s) (hsound : Along Sound s.trace) :
    ∃ q lost, Accounted P.lstack.length s.trace (s.ledger .idle) q lost ∧
      (Along Lossless s.trace → lost = []) := by
  rcases reachable_run h with ⟨cap, hcap, hrun⟩
  refine Ledger.Run.invariant
    (I := fun trace L => ∃ q lost, Accounted P.lstack.length trace L q lost ∧
      (Along Lossless trace → lost = [])) ?_ ?_ hrun hsound
  · exact ⟨[], [], accounted_initial hcap, fun _ => rfl⟩
  · intro pre as L L' hI hstep hok
    rcases hI with ⟨q, lost, haccounted, hlost⟩
    rcases hstep.accounted haccounted hok with ⟨q', lost', haccounted', hlost'⟩
    refine ⟨q', lost', haccounted', fun hlossless => ?_⟩
    rw [hlost' hlossless, hlost hlossless.left]

/-- A layer that keeps every point waiting until its callback accepts it. -/
def delaying : Plugins Unit ℤ Unit where
  strategyGenerate := fun w flow _ => (0, w, { flow with status := .accept }, { id := 1, val := [] })
  strategyRejected := fun w flow pt => (0, w, flow, pt)
  strategyAnalyze := fun w _ => (0, w)
  strategyBest := fun w pt => (0, w, pt)
  strategyInit := none
  lstack := [{
    generate := some fun w flow trial => (0, w, { flow with status := .wait }, trial.perf)
    analyze := none
    init := none
    fini := none }]
  cb := [{
    index := 1
    func := fun w flow trials => (0, w, { flow with status := .accept }, trials.map HTrial.perf) }]
  cb_index := by simp

end ActiveHarmony
