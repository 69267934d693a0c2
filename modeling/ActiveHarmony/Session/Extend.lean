import ActiveHarmony.Lib.RingBuffer
import ActiveHarmony.Session.Custody
import Mathlib.Algebra.Order.Monoid.WithTop
import Mathlib.Data.List.Induction

/-!
# Growing the queues

`extend_lists` of `session-core.c`, which a client that joins calls. It turns a ready ring that goes
round the end of its array before the array grows. The cells of the ring are `int`s, in an
allocation for as many pointers; `reverse_array` works on words of two cells each, and thus on the
whole allocation. `extendLists_keeps_iff` says when the queue survives.
-/

namespace ActiveHarmony

/-! ## The arrays -/

/-- The queues of a session: `ready` are the `int`s of its allocation, twice as many as cells. -/
structure Queues (V W : Type) where
  pending : List (HTrial V W)
  pendingCap : ℕ
  ready : List ℤ
  readyHead : ℕ
  readyTail : ℕ
  readyCap : ℕ

variable {α V W : Type}

/-- `reverse_array` on the words of the array. -/
def reverseArray (arr : List α) (head tail : ℕ) : List α :=
  if head < tail - 1 then
    match arr[head]?, arr[tail - 1]? with
    | some x, some y => reverseArray ((arr.set head y).set (tail - 1) x) (head + 1) (tail - 1)
    | _, _ => arr
  else arr
termination_by tail

/-- An array of `int`s as an array of `unsigned long`s. -/
def toWords : List α → List (α × α)
  | x :: y :: cells => (x, y) :: toWords cells
  | _ => []

/-- The `int`s of an array of `unsigned long`s. -/
def ofWords : List (α × α) → List α
  | [] => []
  | (x, y) :: words => x :: y :: ofWords words

/-- `array_grow`, on elements of `width` cells: the new capacity and the new array. Cells that were
not there before are cleared from `capacity` on; those in front of it are not initialised. -/
def arrayGrow (width : ℕ) (zero : α) (garbage : ℕ → α) (buf : List α) (capacity : ℕ) :
    ℕ × List α :=
  let newCapacity := if capacity ≥ 8 then capacity * 2 else 8
  (newCapacity, (List.range (width * newCapacity)).map fun i =>
    if width * capacity ≤ i then zero else (buf[i]?).getD (garbage i))

variable [Top W]

/-- A slot without a trial. -/
def emptySlot (perfCount : ℕ) : HTrial V W :=
  { point := hpointInitializer V, perf := { p := List.replicate perfCount ⊤ } }

/-- `extend_lists` shifts the ready array to align its head with index 0. -/
def alignReady (q : Queues V W) : Queues V W :=
  if q.readyTail ≤ q.readyHead ∧ (q.ready[q.readyHead]?).getD (-1) ≠ -1 then
    let i := q.readyCap - q.readyHead
    let arr := reverseArray (toWords q.ready) 0 q.readyCap
    let arr := reverseArray arr 0 i
    let arr := reverseArray arr i q.readyCap
    let q := { q with ready := ofWords arr, readyHead := 0 }
    { q with readyTail := q.readyCap - q.readyTail + q.readyHead }
  else q

/-- `extend_lists`. -/
def extendLists (perfCount : ℕ) (zero : HTrial V W) (garbage : ℕ → ℤ) (garbage' : ℕ → HTrial V W)
    (q : Queues V W) (targetCap : ℕ) : ℤ × Queues V W :=
  let origCap := q.pendingCap
  if q.pendingCap ≥ targetCap ∧ q.pendingCap ≠ 0 then (0, q)
  else
    let q := alignReady q
    let (readyCap, ready) := arrayGrow 2 0 garbage q.ready targetCap
    let (pendingCap, pending) := arrayGrow 1 zero garbage' q.pending targetCap
    (0, { q with
      pendingCap := pendingCap
      readyCap := readyCap
      pending := pending.mapIdx fun i trial =>
        if origCap ≤ i ∧ i < pendingCap then emptySlot perfCount else trial
      ready := ready.mapIdx fun i cell => if origCap ≤ i ∧ i < pendingCap then -1 else cell })

/-! ## Reversals -/

omit [Top W] in
/-- `reverse_array` reverses the part of the array between `head` and `tail`. -/
theorem reverseArray_eq (pre mid post : List α) :
    reverseArray (pre ++ mid ++ post) pre.length (pre.length + mid.length)
      = pre ++ mid.reverse ++ post := by
  induction mid using List.bidirectionalRec generalizing pre post with
  | nil =>
    rw [reverseArray, if_neg (by rw [List.length_nil]; omega)]
    rfl
  | singleton x =>
    rw [reverseArray, if_neg (by rw [List.length_singleton]; omega)]
    rfl
  | cons_append x mid y ih =>
    have hlen : pre.length + (x :: (mid ++ [y])).length - 1 = pre.length + mid.length + 1 := by
      rw [List.length_cons, List.length_append, List.length_singleton]
      omega
    have hfirst : (pre ++ x :: (mid ++ [y]) ++ post)[pre.length]? = some x := by
      simp
    have hlast : (pre ++ x :: (mid ++ [y]) ++ post)[pre.length + mid.length + 1]? = some y := by
      rw [List.append_assoc, List.getElem?_append_right (by omega)]
      simp [show pre.length + mid.length + 1 - pre.length = mid.length + 1 by omega]
    have hswap : ((pre ++ x :: (mid ++ [y]) ++ post).set pre.length y).set
        (pre.length + mid.length + 1) x = (pre ++ [y]) ++ mid ++ (x :: post) := by
      rw [List.append_assoc, List.set_append_right _ _ (le_refl _),
        List.set_append_right _ _ (by omega)]
      simp [show pre.length + mid.length + 1 - pre.length = mid.length + 1 by omega]
    rw [reverseArray, hlen, if_pos (by omega), hfirst, hlast]
    simp only [hswap]
    have := ih (pre ++ [y]) (x :: post)
    rw [List.length_append, List.length_singleton] at this
    rw [show pre.length + mid.length + 1 = pre.length + 1 + mid.length by omega, this]
    simp

omit [Top W] in
/-- The three reversals turn the array. -/
theorem reverseArray_rotate {arr : List α} {head : ℕ} (hhead : head ≤ arr.length) :
    reverseArray (reverseArray (reverseArray arr 0 arr.length) 0 (arr.length - head))
      (arr.length - head) arr.length = arr.rotate head := by
  have hsplit : arr.reverse = (arr.drop head).reverse ++ (arr.take head).reverse := by
    rw [← List.reverse_append, List.take_append_drop]
  have hdrop : (arr.drop head).reverse.length = arr.length - head := by
    rw [List.length_reverse, List.length_drop]
  have hfirst : reverseArray arr 0 arr.length
      = (arr.drop head).reverse ++ (arr.take head).reverse := by
    have := reverseArray_eq [] arr []
    simp only [List.nil_append, List.append_nil, List.length_nil, Nat.zero_add] at this
    rw [this, hsplit]
  have hsecond : reverseArray ((arr.drop head).reverse ++ (arr.take head).reverse) 0
      (arr.length - head) = arr.drop head ++ (arr.take head).reverse := by
    have := reverseArray_eq [] (arr.drop head).reverse (arr.take head).reverse
    simp only [List.nil_append, List.length_nil, Nat.zero_add, List.reverse_reverse] at this
    rw [← hdrop, this]
  have hthird : reverseArray (arr.drop head ++ (arr.take head).reverse) (arr.length - head)
      arr.length = arr.drop head ++ arr.take head := by
    have := reverseArray_eq (arr.drop head) (arr.take head).reverse []
    simp only [List.append_nil, List.reverse_reverse, List.length_drop, List.length_reverse,
      List.length_take, min_eq_left hhead] at this
    rw [show arr.length - head + head = arr.length by omega] at this
    exact this
  rw [hfirst, hsecond, hthird, List.rotate_eq_drop_append_take hhead]

/-! ## Cells and words -/

omit [Top W] in
lemma ofWords_append (a b : List (α × α)) : ofWords (a ++ b) = ofWords a ++ ofWords b := by
  induction a with
  | nil => rfl
  | cons word a ih => simp [ofWords, ih]

omit [Top W] in
lemma length_ofWords (words : List (α × α)) : (ofWords words).length = 2 * words.length := by
  induction words with
  | nil => rfl
  | cons word words ih =>
    rw [ofWords, List.length_cons, List.length_cons, List.length_cons, ih]
    omega

omit [Top W] in
lemma ofWords_toWords {n : ℕ} {cells : List α} (h : cells.length = 2 * n) :
    ofWords (toWords cells) = cells ∧ (toWords cells).length = n := by
  induction n generalizing cells with
  | zero =>
    rw [List.eq_nil_of_length_eq_zero h]
    exact ⟨rfl, rfl⟩
  | succ n ih =>
    match cells, h with
    | x :: y :: cells, h =>
      have hcells : cells.length = 2 * n := by
        simp only [List.length_cons] at h
        omega
      rcases ih hcells with ⟨heq, hlen⟩
      rw [toWords, ofWords, heq, List.length_cons, hlen]
      exact ⟨rfl, rfl⟩

omit [Top W] in
/-- Turning by words turns twice as many cells. -/
lemma ofWords_rotate {words : List (α × α)} {head : ℕ} (hhead : head ≤ words.length) :
    ofWords (words.rotate head) = (ofWords words).rotate (2 * head) := by
  have hsplit : ofWords words = ofWords (words.take head) ++ ofWords (words.drop head) := by
    rw [← ofWords_append, List.take_append_drop]
  have hlen : (ofWords (words.take head)).length = 2 * head := by
    rw [length_ofWords, List.length_take, min_eq_left hhead]
  rw [List.rotate_eq_drop_append_take hhead, ofWords_append, hsplit]
  rw [← hlen, List.rotate_append_length_eq]

/-! ## The ready ring -/

variable {s : Queues V W} {queue : List ℤ}

/-- The queues of a running session, with the slots `queue` in the ready ring: each slot is queued
once, and the last `int` of the allocation was cleared by `array_grow`. -/
structure Queues.Fits (s : Queues V W) (queue : List ℤ) : Prop where
  ring : Ring.Holds (-1) (s.ready.take s.readyCap) s.readyHead s.readyTail queue
  nodup : queue.Nodup
  length : s.ready.length = 2 * s.readyCap
  last : s.ready.getLast? = some 0
  cap : s.pendingCap = s.readyCap
  pending : s.pending.length = s.pendingCap

/-- `extend_lists` turns the ring: it goes round the end of the array, and does not start at 0. -/
def Queues.Turned (s : Queues V W) : Prop :=
  s.readyHead ≠ 0 ∧ s.readyTail ≤ s.readyHead ∧ s.ready[s.readyHead]? ≠ some (-1)

/-- The ready ring of `s'` holds `queue`, and the slots of `s` are as they were. -/
def Queues.Keeps (s s' : Queues V W) (queue : List ℤ) : Prop :=
  Ring.Holds (-1) (s'.ready.take s'.readyCap) s'.readyHead s'.readyTail queue ∧
    ∀ (i : ℕ) (trial : HTrial V W), s.pending[i]? = some trial → s'.pending[i]? = some trial

omit [Top W] in
lemma lt_grown {width capacity : ℕ} {zero : α} {garbage : ℕ → α} {buf : List α} :
    capacity < (arrayGrow width zero garbage buf capacity).1 := by
  unfold arrayGrow
  simp only
  split_ifs <;> omega

omit [Top W] in
lemma length_grown {width capacity : ℕ} {zero : α} {garbage : ℕ → α} {buf : List α} :
    (arrayGrow width zero garbage buf capacity).2.length
      = width * (arrayGrow width zero garbage buf capacity).1 := by
  unfold arrayGrow
  rw [List.length_map, List.length_range]

omit [Top W] in
/-- The array after `array_grow` and the loop that fills the new cells. -/
lemma getElem?_grown {width capacity cap : ℕ} {zero fresh : α} {garbage : ℕ → α} {buf : List α}
    (hwidth : 0 < width) (hbuf : cap ≤ buf.length) (hcap : cap < capacity) (i : ℕ) :
    ((arrayGrow width zero garbage buf capacity).2.mapIdx fun i x =>
        if cap ≤ i ∧ i < (arrayGrow width zero garbage buf capacity).1 then fresh else x)[i]?
      = if i < cap then buf[i]?
        else if i < (arrayGrow width zero garbage buf capacity).1 then some fresh
        else (arrayGrow width zero garbage buf capacity).2[i]? := by
  have hlt : capacity < (arrayGrow width zero garbage buf capacity).1 := lt_grown
  have hlen : (arrayGrow width zero garbage buf capacity).2.length
      = width * (arrayGrow width zero garbage buf capacity).1 := length_grown
  have hwide : (arrayGrow width zero garbage buf capacity).1
      ≤ width * (arrayGrow width zero garbage buf capacity).1 := Nat.le_mul_of_pos_left _ hwidth
  have hmul : capacity ≤ width * capacity := Nat.le_mul_of_pos_left _ hwidth
  rw [List.getElem?_mapIdx]
  by_cases hold : i < cap
  · -- an old cell
    have hcell : (arrayGrow width zero garbage buf capacity).2[i]? = buf[i]? := by
      have hi : i < width * (arrayGrow width zero garbage buf capacity).1 := by omega
      unfold arrayGrow at hi ⊢
      rw [List.getElem?_map, List.getElem?_range hi, Option.map_some, if_neg (by omega),
        List.getElem?_eq_getElem (by omega), Option.getD_some]
    rw [if_pos hold, hcell, List.getElem?_eq_getElem (by omega), Option.map_some,
      if_neg (by omega)]
  · rw [if_neg hold]
    by_cases hnew : i < (arrayGrow width zero garbage buf capacity).1
    · rw [if_pos hnew, List.getElem?_eq_getElem (by omega), Option.map_some,
        if_pos ⟨not_lt.mp hold, hnew⟩]
    · rw [if_neg hnew]
      cases (arrayGrow width zero garbage buf capacity).2[i]? with
      | none => rfl
      | some x => rw [Option.map_some, if_neg fun h => hnew h.2]

/-- The capacity after `array_grow`. -/
def grownCap (capacity : ℕ) : ℕ := if capacity ≥ 8 then capacity * 2 else 8

omit [Top W] in
/-- `extend_lists` with the ring turned by `reverse_array`. -/
lemma alignReady_rotate (hlen : s.ready.length = 2 * s.readyCap) (hhead : s.readyHead < s.readyCap)
    (hwrap : s.readyTail ≤ s.readyHead) (hbusy : s.ready[s.readyHead]? ≠ some (-1)) :
    alignReady s = { s with
      ready := s.ready.rotate (2 * s.readyHead), readyHead := 0,
      readyTail := s.readyCap - s.readyTail } := by
  have hcell : (s.ready[s.readyHead]?).getD (-1) ≠ -1 := by
    rw [List.getElem?_eq_getElem (by omega)] at hbusy ⊢
    exact fun heq => hbusy (congrArg some heq)
  rcases ofWords_toWords hlen with ⟨hwords, hcount⟩
  have hrotate := @reverseArray_rotate _ (toWords s.ready) s.readyHead
    (by rw [hcount]; omega)
  rw [hcount] at hrotate
  unfold alignReady
  rw [if_pos ⟨hwrap, hcell⟩]
  simp only [hrotate]
  rw [ofWords_rotate (by rw [hcount]; omega), hwords, Nat.add_zero]

omit [Top W] in
lemma alignReady_turn (h : s.Fits queue) (hwrap : s.readyTail ≤ s.readyHead)
    (hbusy : s.ready[s.readyHead]? ≠ some (-1)) :
    alignReady s = { s with
      ready := s.ready.rotate (2 * s.readyHead), readyHead := 0,
      readyTail := s.readyCap - s.readyTail } := by
  apply alignReady_rotate h.length _ hwrap hbusy
  have hlt := h.ring.head_lt
  rw [List.length_take, h.length] at hlt
  omega

omit [Top W] in
lemma alignReady_stay (h : ¬ (s.readyTail ≤ s.readyHead ∧ s.ready[s.readyHead]? ≠ some (-1))) :
    alignReady s = s := by
  unfold alignReady
  refine if_neg fun hturn => h ⟨hturn.1, fun hmark => hturn.2 ?_⟩
  rw [hmark]
  rfl

omit [Top W] in
lemma alignReady_pending (s : Queues V W) : (alignReady s).pending = s.pending := by
  unfold alignReady
  split_ifs <;> rfl

/-- The ready ring after `extend_lists`, in terms of the ring after the shift. -/
lemma extendLists_ready {targetCap : ℕ} (perfCount : ℕ) (zero : HTrial V W) (garbage : ℕ → ℤ)
    (garbage' : ℕ → HTrial V W) (hfits : s.Fits queue) (hgrow : s.pendingCap < targetCap)
    (hlen : (alignReady s).ready.length = 2 * s.readyCap) :
    let s' := (extendLists perfCount zero garbage garbage' s targetCap).2
    s'.ready.take s'.readyCap = (alignReady s).ready.take s.readyCap
        ++ List.replicate (grownCap targetCap - s.readyCap) (-1) ∧
      s'.readyHead = (alignReady s).readyHead ∧ s'.readyTail = (alignReady s).readyTail ∧
      ∀ (i : ℕ) (trial : HTrial V W), s.pending[i]? = some trial → s'.pending[i]? = some trial := by
  have hcap := hfits.cap
  have hcount := hfits.pending
  have hgrown : targetCap < grownCap targetCap := by
    unfold grownCap
    split_ifs <;> omega
  have hguard : ¬ (s.pendingCap ≥ targetCap ∧ s.pendingCap ≠ 0) := by omega
  unfold extendLists
  simp only [if_neg hguard]
  refine ⟨?_, trivial, trivial, fun i trial htrial => ?_⟩
  · show ((arrayGrow 2 0 garbage (alignReady s).ready targetCap).2.mapIdx fun i cell =>
      if s.pendingCap ≤ i ∧ i < grownCap targetCap then -1 else cell).take (grownCap targetCap) = _
    apply List.ext_getElem?
    intro i
    have hcell := @getElem?_grown _ 2 targetCap s.pendingCap 0 (-1) garbage (alignReady s).ready
      (by decide) (by omega) hgrow i
    rw [List.getElem?_take]
    by_cases hi : i < grownCap targetCap
    · rw [if_pos hi]
      refine hcell.trans ?_
      by_cases hold : i < s.pendingCap
      · rw [if_pos hold, List.getElem?_append_left (by rw [List.length_take]; omega),
          List.getElem?_take, if_pos (by omega)]
      · have hnew : i < (arrayGrow 2 0 garbage (alignReady s).ready targetCap).1 := hi
        rw [if_neg hold, if_pos hnew, List.getElem?_append_right (by rw [List.length_take]; omega),
          List.getElem?_replicate, List.length_take, if_pos (by omega)]
    · rw [if_neg hi, List.getElem?_eq_none]
      rw [List.length_append, List.length_take, List.length_replicate]
      omega
  · have hlt := (List.getElem?_eq_some_iff.mp htrial).1
    have hslot := @getElem?_grown _ 1 targetCap s.pendingCap zero (emptySlot perfCount) garbage'
      (alignReady s).pending (by decide) (by rw [alignReady_pending]; omega) hgrow i
    refine hslot.trans ?_
    rw [if_pos (by omega), alignReady_pending]
    exact htrial

/-- Growing keeps the queue when the ring is not turned. -/
theorem Queues.Fits.keeps {perfCount targetCap : ℕ} {zero : HTrial V W} {garbage : ℕ → ℤ}
    {garbage' : ℕ → HTrial V W} (h : s.Fits queue) (hgrow : s.pendingCap < targetCap)
    (hstill : ¬ s.Turned) :
    s.Keeps (extendLists perfCount zero garbage garbage' s targetCap).2 queue := by
  have hcap := h.cap
  have hlen := h.length
  have hring := h.ring
  have htake : (s.ready.take s.readyCap).length = s.readyCap := by
    rw [List.length_take]
    omega
  have hhead := hring.head_lt
  have htail := hring.tail_eq
  have hle := hring.length_le
  unfold Ring.slot at htail
  rw [htake] at hhead htail hle
  have hmore : 0 < grownCap targetCap - s.readyCap := by
    unfold grownCap
    split_ifs <;> omega
  by_cases hwrap : s.readyTail ≤ s.readyHead ∧ s.ready[s.readyHead]? ≠ some (-1)
  · -- a full ring that starts at 0: the reversals change nothing
    have hzero : s.readyHead = 0 := by
      by_contra hne
      exact hstill ⟨hne, hwrap.1, hwrap.2⟩
    have hturn := alignReady_turn h hwrap.1 hwrap.2
    rw [hzero, Nat.mul_zero, List.rotate_zero] at hturn
    rcases extendLists_ready perfCount zero garbage garbage' h hgrow (by rw [hturn]; exact hlen) with
      ⟨hready, hnewHead, hnewTail, hpending⟩
    have hbusy : queue.length ≠ 0 := fun hnil => by
      have hcell := hring.head_eq
      rw [List.eq_nil_of_length_eq_zero hnil, List.getElem?_take, if_pos hhead] at hcell
      exact hwrap.2 hcell
    have hfull : queue.length = s.readyCap := by
      by_contra hne
      rw [hzero, Nat.zero_add, Nat.mod_eq_of_lt (by omega)] at htail
      have := hwrap.1
      omega
    refine ⟨?_, hpending⟩
    rw [hready, hnewHead, hnewTail, hturn]
    have hgrown := hring.grow (m := grownCap targetCap - s.readyCap) (by rw [htake]; omega) hmore
    rw [hzero] at hgrown
    have htail' : s.readyCap - s.readyTail = 0 + queue.length := by
      rw [hzero, hfull, Nat.zero_add, Nat.mod_self] at htail
      omega
    simp only [htail']
    exact hgrown
  · -- the queue lies between its head and the end of the array
    have hstay := alignReady_stay hwrap
    rcases extendLists_ready perfCount zero garbage garbage' h hgrow (by rw [hstay]; exact hlen) with
      ⟨hready, hnewHead, hnewTail, hpending⟩
    have hfit : s.readyHead + queue.length < s.readyCap := by
      by_contra hover
      have hround : s.readyTail ≤ s.readyHead := by
        rw [htail, Nat.mod_eq_sub_mod (by omega)]
        by_cases hfull : queue.length = s.readyCap
        · rw [hfull, Nat.add_sub_cancel, Nat.mod_eq_of_lt hhead]
        · rw [Nat.mod_eq_of_lt (by omega)]
          omega
      refine hwrap ⟨hround, fun hmark => ?_⟩
      have hnot := (hring.cell_ne_mark_iff hring.pos).mpr (by omega)
      rw [Ring.slot_zero hring.head_lt, List.getElem?_take, if_pos hhead] at hnot
      exact hnot hmark
    refine ⟨?_, hpending⟩
    rw [hready, hnewHead, hnewTail, hstay]
    have hgrown := hring.grow (m := grownCap targetCap - s.readyCap) (by rw [htake]; omega) hmore
    rw [Nat.mod_eq_of_lt hfit] at htail
    rw [htail]
    exact hgrown

/-- Growing loses the queue when the ring is turned. -/
theorem Queues.Fits.loses {perfCount targetCap : ℕ} {zero : HTrial V W} {garbage : ℕ → ℤ}
    {garbage' : ℕ → HTrial V W} (h : s.Fits queue) (hgrow : s.pendingCap < targetCap)
    (hturned : s.Turned) :
    ¬ s.Keeps (extendLists perfCount zero garbage garbage' s targetCap).2 queue := by
  intro hkeeps
  have hcap := h.cap
  have hlen := h.length
  have hring := h.ring
  have htake : (s.ready.take s.readyCap).length = s.readyCap := by
    rw [List.length_take]
    omega
  have hhead := hring.head_lt
  have htail := hring.tail_eq
  have hle := hring.length_le
  unfold Ring.slot at htail
  rw [htake] at hhead htail hle
  have hmore : s.readyCap < grownCap targetCap := by
    unfold grownCap
    split_ifs <;> omega
  have hturn := alignReady_turn h hturned.2.1 hturned.2.2
  have hlenTurn : (alignReady s).ready.length = 2 * s.readyCap := by
    rw [hturn, List.length_rotate]
    exact hlen
  rcases extendLists_ready perfCount zero garbage garbage' h hgrow hlenTurn with
    ⟨hready, hnewHead, hnewTail, -⟩
  have hnew := hkeeps.1
  rw [hready, hnewHead, hnewTail, hturn] at hnew
  simp only at hnew
  -- the cells of the turned ring, and of the ring as it was
  have hcell : ∀ j < s.readyCap, s.ready[(j + 2 * s.readyHead) % (2 * s.readyCap)]?
      = some ((queue[j]?).getD (-1)) := by
    intro j hj
    have hj' := hnew.cell_eq j (by
      rw [List.length_append, List.length_take, List.length_rotate, List.length_replicate]
      omega)
    unfold Ring.slot at hj'
    rw [Nat.zero_add, Nat.mod_eq_of_lt (by
        rw [List.length_append, List.length_take, List.length_rotate, List.length_replicate]
        omega),
      List.getElem?_append_left (by rw [List.length_take, List.length_rotate]; omega),
      List.getElem?_take, if_pos hj, List.getElem?_rotate (by omega), hlen] at hj'
    exact hj'
  have hcell' : ∀ j < s.readyCap, s.ready[(s.readyHead + j) % s.readyCap]?
      = some ((queue[j]?).getD (-1)) := by
    intro j hj
    have hj' := hring.cell_eq j (by omega)
    unfold Ring.slot at hj'
    rw [htake, List.getElem?_take, if_pos (Nat.mod_lt _ (by omega))] at hj'
    exact hj'
  -- the tail is in the right place only if the head is twice as far as the tail
  have hbusy : queue.length ≠ 0 := fun hnil => by
    have hmark := hcell' 0 (by omega)
    rw [List.eq_nil_of_length_eq_zero hnil, Nat.add_zero, Nat.mod_eq_of_lt hhead] at hmark
    exact hturned.2.2 hmark
  have hround : s.readyTail = s.readyHead + queue.length - s.readyCap ∧
      s.readyCap ≤ s.readyHead + queue.length := by
    by_cases hover : s.readyCap ≤ s.readyHead + queue.length
    · refine ⟨?_, hover⟩
      rw [htail, Nat.mod_eq_sub_mod hover, Nat.mod_eq_of_lt (by omega)]
    · rw [Nat.mod_eq_of_lt (by omega)] at htail
      have := hturned.2.1
      omega
  have hnewTail' : s.readyCap - s.readyTail = queue.length := by
    have := hnew.tail_eq
    unfold Ring.slot at this
    rw [Nat.zero_add, Nat.mod_eq_of_lt (by
      rw [List.length_append, List.length_take, List.length_rotate, List.length_replicate]
      omega)] at this
    exact this
  have htwice : s.readyHead = 2 * s.readyTail := by omega
  have hpos : 0 < s.readyTail := by
    have := hturned.1
    omega
  -- two places of a queue without duplicates
  have hsame : ∀ {i j : ℕ}, i < queue.length → queue[i]? = queue[j]? → i = j := fun hi heq =>
    (List.getElem?_inj hi h.nodup).mp heq
  rcases lt_trichotomy (2 * s.readyHead) s.readyCap with hlow | hmid | hhigh
  · -- the first cell is then one of the middle of the queue
    have hfirst := hcell 0 (by omega)
    have hother := hcell' s.readyHead hhead
    rw [Nat.zero_add, Nat.mod_eq_of_lt (by omega)] at hfirst
    rw [← two_mul, Nat.mod_eq_of_lt hlow, hfirst, List.getElem?_eq_getElem (by omega),
      List.getElem?_eq_getElem (show s.readyHead < queue.length by omega)] at hother
    have := hsame (i := 0) (j := s.readyHead) (by omega) (by
      rw [List.getElem?_eq_getElem (by omega),
        List.getElem?_eq_getElem (show s.readyHead < queue.length by omega)]
      exact hother)
    omega
  · -- the last cell is then the last one of the allocation
    have hend := hcell (s.readyCap - 1) (by omega)
    have hlast := h.last
    rw [List.getLast?_eq_getElem?, hlen] at hlast
    rw [Nat.mod_eq_of_lt (by omega), show s.readyCap - 1 + 2 * s.readyHead
      = 2 * s.readyCap - 1 by omega, hlast, List.getElem?_eq_none (by omega)] at hend
    exact absurd (Option.some.inj hend) (by decide)
  · -- the old cell 0 is then too far to the right
    have hzero := hcell (2 * s.readyCap - 2 * s.readyHead) (by omega)
    have hother := hcell' (s.readyCap - s.readyHead) (by omega)
    rw [show 2 * s.readyCap - 2 * s.readyHead + 2 * s.readyHead = 2 * s.readyCap by omega,
      Nat.mod_self] at hzero
    have hin : s.readyCap - s.readyHead < queue.length := by omega
    rw [show s.readyHead + (s.readyCap - s.readyHead) = s.readyCap by omega, Nat.mod_self, hzero,
      List.getElem?_eq_getElem hin] at hother
    by_cases hfar : 2 * s.readyCap - 2 * s.readyHead < queue.length
    · have := hsame (i := s.readyCap - s.readyHead) (j := 2 * s.readyCap - 2 * s.readyHead) hin (by
        rw [List.getElem?_eq_getElem hin, List.getElem?_eq_getElem hfar]
        rw [List.getElem?_eq_getElem hfar] at hother
        exact hother.symm)
      omega
    · rw [List.getElem?_eq_none (by omega)] at hother
      exact hring.not_mark _ (List.getElem_mem hin) (Option.some.inj hother).symm

/-- `extend_lists` keeps the queue exactly if it does not turn the ring. -/
theorem extendLists_keeps_iff {perfCount targetCap : ℕ} {zero : HTrial V W} {garbage : ℕ → ℤ}
    {garbage' : ℕ → HTrial V W} (h : s.Fits queue) (hgrow : s.pendingCap < targetCap) :
    s.Keeps (extendLists perfCount zero garbage garbage' s targetCap).2 queue ↔ ¬ s.Turned :=
  ⟨fun hkeeps hturned => h.loses hgrow hturned hkeeps, h.keeps hgrow⟩

/-- Growing without a turn leaves queues that may grow again. -/
theorem Queues.Fits.extended {perfCount targetCap : ℕ} {zero : HTrial V W} {garbage : ℕ → ℤ}
    {garbage' : ℕ → HTrial V W} (h : s.Fits queue) (hgrow : s.pendingCap < targetCap)
    (hstill : ¬ s.Turned) :
    (extendLists perfCount zero garbage garbage' s targetCap).2.Fits queue := by
  have hguard : ¬ (s.pendingCap ≥ targetCap ∧ s.pendingCap ≠ 0) := by omega
  have hkeeps : s.Keeps (extendLists perfCount zero garbage garbage' s targetCap).2 queue :=
    h.keeps hgrow hstill
  have hgrown : targetCap < grownCap targetCap := by
    unfold grownCap
    split_ifs <;> omega
  have hcells := @length_grown _ 2 targetCap 0 garbage (alignReady s).ready
  have hslots := @length_grown _ 1 targetCap zero garbage' (alignReady s).pending
  refine ⟨hkeeps.1, h.nodup, ?_, ?_, ?_, ?_⟩
  all_goals unfold extendLists; simp only [if_neg hguard]
  · rw [List.length_mapIdx]
    exact hcells
  · -- the last `int` is cleared, and it lies behind the cells
    rw [List.getLast?_eq_getElem?, List.length_mapIdx, hcells]
    have hlast : (arrayGrow 2 0 garbage (alignReady s).ready targetCap).2[2 * grownCap targetCap - 1]?
        = some 0 := by
      unfold arrayGrow
      rw [List.getElem?_map, List.getElem?_range (by
        show _ < 2 * grownCap targetCap
        omega), Option.map_some, if_pos (by omega)]
    have hbehind : ¬ 2 * grownCap targetCap - 1 < grownCap targetCap := by omega
    have hentry := congrArg (Option.map fun cell =>
      if s.pendingCap ≤ 2 * grownCap targetCap - 1 ∧
        2 * grownCap targetCap - 1 < grownCap targetCap then (-1 : ℤ) else cell) hlast
    rw [Option.map_some, if_neg fun hin => hbehind hin.2] at hentry
    rw [List.getElem?_mapIdx]
    exact hentry
  · rfl
  · rw [List.length_mapIdx]
    exact hslots.trans (Nat.one_mul _)

/-- The queues of a session, with the rest of the allocation of `ready`. -/
def Sess.queues {σ : Type} (s : Sess σ V W) (rest : List ℤ) : Queues V W where
  pending := s.pending
  pendingCap := s.pending.length
  ready := s.ready ++ rest
  readyHead := s.readyHead
  readyTail := s.readyTail
  readyCap := s.ready.length

/-- In a reachable session the queues fit. -/
theorem Reachable.fits {σ : Type} {P : Plugins σ V W} {alive : Bool} {s : Sess σ V W} {rest : List ℤ}
    (h : Reachable P alive s) (hsound : Along Sound s.trace) (hrest : rest.length = s.ready.length)
    (hlast : rest.getLast? = some 0) : ∃ queue, (s.queues rest).Fits queue := by
  rcases h.accounted hsound with ⟨queue, lost, haccounted, -⟩
  have hcustody := haccounted.custody
  refine ⟨queue, ?_, hcustody.nodup, ?_, ?_, ?_, rfl⟩
  · show Ring.Holds (-1) ((s.ready ++ rest).take s.ready.length) s.readyHead s.readyTail queue
    rw [List.take_left]
    exact hcustody.ring
  · show (s.ready ++ rest).length = 2 * s.ready.length
    rw [List.length_append, hrest]
    omega
  · show (s.ready ++ rest).getLast? = some 0
    rw [List.getLast?_append, hlast]
    rfl
  · show s.pending.length = s.ready.length
    have := hcustody.ring_len
    rw [show (s.ledger .idle).ring = s.ready from rfl] at this
    rw [this]
    exact (ids_length s).symm

/-! ### Eight slots -/

/-- Two queued slots at the start of the array. -/
def twoQueued : Queues ℤ (WithTop ℕ) where
  pending := List.replicate 8 (emptySlot 1)
  pendingCap := 8
  ready := [0, 1, -1, -1, -1, -1, -1, -1] ++ List.replicate 8 0
  readyHead := 0
  readyTail := 2
  readyCap := 8

lemma twoQueued_fits : twoQueued.Fits [0, 1] where
  ring := ⟨by decide, by decide, by decide, by decide, by decide⟩
  nodup := by decide
  length := by decide
  last := by decide
  cap := rfl
  pending := by decide

theorem twoQueued_keeps : twoQueued.Keeps
    (extendLists 1 (emptySlot 1) (fun _ => 0) (fun _ => emptySlot 1) twoQueued 12).2 [0, 1] :=
  (extendLists_keeps_iff twoQueued_fits (by decide)).mpr fun hturned => hturned.1 rfl

/-- Eight slots have been queued, and the first one was fetched. -/
def oneFetched : Queues ℤ (WithTop ℕ) :=
  { twoQueued with ready := [-1, 1, 2, 3, 4, 5, 6, 7] ++ List.replicate 8 0, readyHead := 1, readyTail := 0 }

lemma oneFetched_fits : oneFetched.Fits [1, 2, 3, 4, 5, 6, 7] where
  ring := ⟨by decide, by decide, by decide, by decide, by decide⟩
  nodup := by decide
  length := by decide
  last := by decide
  cap := rfl
  pending := by decide

/-- A client that joins then loses the queue. -/
theorem oneFetched_loses : ¬ ∀ (s : Queues ℤ (WithTop ℕ)) (queue : List ℤ) (targetCap : ℕ),
    s.Fits queue → s.pendingCap < targetCap →
    s.Keeps (extendLists 1 (emptySlot 1) (fun _ => 0) (fun _ => emptySlot 1) s targetCap).2
      queue := by
  intro hclaim
  have hturned : oneFetched.Turned := ⟨by decide, by decide, by decide⟩
  exact oneFetched_fits.loses (by decide) hturned (hclaim oneFetched _ 12 oneFetched_fits (by decide))

end ActiveHarmony
