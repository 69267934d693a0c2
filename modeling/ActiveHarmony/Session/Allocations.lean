import ActiveHarmony.Server.Allocations
import ActiveHarmony.Session.CallbackError
import ActiveHarmony.Session.ReportFit

/-!
# The memory of the arrays in `session-core.c`

The core grows the queues of trials when a client joins, the wait lists when a layer holds trials back, and the
list of callbacks when a plug-in registers one. `Indexed` says that what these arrays hold are slots; with it no
step uses an index outside of its array. `allocations_cover` says under which conditions the memory of all
arrays of the server and of the core is large enough.
-/

namespace ActiveHarmony

open GrowArray

/-- `sizeof(htrial_t)`. -/
def sizeofHtrial : ℕ := 32

/-- `sizeof(htrial_t *)`. -/
def sizeofHtrialPtr : ℕ := 8

/-- `sizeof(callback_t)`. -/
def sizeofCallback : ℕ := 16

variable {σ V W : Type}

namespace Core

/-- The arrays of the core. The wait lists are those of the layers, in both directions. -/
inductive Arr where
  | pending | ready | cb | wait (layer : ℤ)
deriving DecidableEq, Repr

/-- The size of the elements. -/
def Arr.elem : Arr → ℕ
  | .pending => sizeofHtrial
  | .ready | .wait _ => sizeofInt
  | .cb => sizeofCallback

/-- The size that `array_grow` is called with. -/
def Arr.grownBy : Arr → ℕ
  | .pending => sizeofHtrial
  | .ready => sizeofHtrialPtr
  | .cb => sizeofCallback
  | .wait _ => sizeofInt

/-- The memory of the arrays. -/
abbrev Memory := Arrays Arr

/-- `array_grow`, with a capacity that was set in front of the call. -/
def Memory.growTo (m : Memory) (arr : Arr) (targetCap : ℕ) : Memory :=
  Arrays.grow Arr.grownBy (Function.update m arr { m arr with cap := targetCap }) arr

/-- `extend_lists`. -/
def Memory.extend (m : Memory) (targetCap : ℕ) : Memory :=
  if (m .pending).cap ≥ targetCap ∧ (m .pending).cap ≠ 0 then m
  else (m.growTo .ready targetCap).growTo .pending targetCap

/-- `handle_wait` has grown the lists that are longer than before. -/
def Memory.waits (m : Memory) (s s' : Sess σ V W) : Memory
  | .wait layer =>
    if (s'.wait layer).cells.length = (s.wait layer).cells.length then m (.wait layer)
    else (m (.wait layer)).grow sizeofInt
  | arr => m arr

/-- The memory after a step from `c` to `c'`. -/
def Memory.step (m : Memory) (S : Setup σ V W) (c c' : Core σ V W) : Input V W → Memory
  | .join _ matched _ _ => if matched then m.extend ((c.numClients + 1) * S.perClient) else m
  | _ => m.waits c.sess c'.sess

/-- The memory after `init_session` with `count` slots to prepare. -/
def Memory.start (count : ℕ) : Memory :=
  Memory.extend (Arrays.grow Arr.grownBy (fun _ => .empty) .cb) count

/-- The memory after `callback_generate` or `callback_analyze`, with `cbLen` callbacks before. -/
def Memory.register (m : Memory) (cbLen : ℕ) : Memory :=
  if cbLen ≥ (m .cb).cap then m.grow Arr.grownBy .cb else m

end Core

/-- A plug-in registers a callback. -/
def Setup.register (S : Setup σ V W) (cb : Callback σ V W)
    (hcb : cb.index ≠ 0 ∧ cb.index.natAbs ≤ S.plugins.lstack.length) : Setup σ V W :=
  { S with plugins := { S.plugins with
      cb := S.plugins.cb ++ [cb]
      cb_index := by
        intro cb' hcb'
        obtain hcb' | hcb' := List.mem_append.mp hcb'
        · exact S.plugins.cb_index cb' hcb'
        · rw [List.mem_singleton.mp hcb']
          exact hcb } }

/-! ## Indices -/

/-- The arrays hold slots, and the current layer is in the stack of `n` layers or behind it. -/
structure Sess.Indexed (s : Sess σ V W) (n : ℕ) : Prop where
  ready_len : s.ready.length = s.pending.length
  head : s.readyHead < s.pending.length
  tail : s.readyTail < s.pending.length
  ready : ∀ cell ∈ s.ready, cell < s.pending.length
  wait_ok : ∀ layer, (s.wait layer).Ok
  wait : ∀ layer, ∀ cell ∈ (s.wait layer).cells, cell < s.pending.length
  layer : -(n : ℤ) ≤ s.currLayer

/-- From `s` the core went to `s'`, with as many slots. Wait lists may have been grown once. -/
structure Sess.Goes (s s' : Sess σ V W) (n : ℕ) : Prop where
  indexed : s'.Indexed n
  pending : s'.pending.length = s.pending.length
  wait : ∀ layer, (s'.wait layer).cells.length = (s.wait layer).cells.length ∨
    (s'.wait layer).cells.length = grownCap (s.wait layer).cells.length

variable {P : Plugins σ V W} {s s₁ s' : Sess σ V W} {i n : ℕ} {ret : ℤ}

/-- A change to other variables. -/
lemma Sess.Indexed.goes (h : s.Indexed n) (hpending : s'.pending.length = s.pending.length)
    (hready : s'.ready = s.ready) (hhead : s'.readyHead = s.readyHead) (htail : s'.readyTail = s.readyTail)
    (hwait : s'.wait = s.wait) (hlayer : -(n : ℤ) ≤ s'.currLayer) : s.Goes s' n where
  indexed := {
    ready_len := by rw [hready, hpending]; exact h.ready_len
    head := by rw [hhead, hpending]; exact h.head
    tail := by rw [htail, hpending]; exact h.tail
    ready := by rw [hready, hpending]; exact h.ready
    wait_ok := by rw [hwait]; exact h.wait_ok
    wait := by rw [hwait, hpending]; exact h.wait
    layer := hlayer }
  pending := hpending
  wait := by
    intro layer
    rw [hwait]
    exact Or.inl rfl

lemma Sess.Indexed.refl (h : s.Indexed n) : s.Goes s n := h.goes rfl rfl rfl rfl rfl h.layer

lemma Sess.Goes.trans (h : s.Goes s₁ n) (h' : s₁.Goes s' n) (hwait : s₁.wait = s.wait) : s.Goes s' n where
  indexed := h'.indexed
  pending := h'.pending.trans h.pending
  wait := by
    rw [← hwait]
    exact h'.wait

lemma Sess.Goes.trans_right (h : s.Goes s₁ n) (h' : s₁.Goes s' n) (hwait : s'.wait = s₁.wait) :
    s.Goes s' n where
  indexed := h'.indexed
  pending := h'.pending.trans h.pending
  wait := by
    rw [hwait]
    exact h.wait

/-- A change to one wait list. -/
lemma Sess.Indexed.goes_wait (h : s.Indexed n) {layer : ℤ} {l : WaitList} (hok : l.Ok)
    (hcells : ∀ cell ∈ l.cells, cell < (s.pending.length : ℤ))
    (hlen : l.cells.length = (s.wait layer).cells.length ∨
      l.cells.length = grownCap (s.wait layer).cells.length) :
    s.Goes { s with wait := Function.update s.wait layer l } n := by
  refine ⟨⟨h.ready_len, h.head, h.tail, h.ready, ?_, ?_, h.layer⟩, rfl, ?_⟩
  · intro k
    by_cases hk : k = layer
    · simp only [hk, Function.update_self]
      exact hok
    · simp only [Function.update_of_ne hk]
      exact h.wait_ok k
  · intro k
    by_cases hk : k = layer
    · simp only [hk, Function.update_self]
      exact hcells
    · simp only [Function.update_of_ne hk]
      exact h.wait k
  · intro k
    by_cases hk : k = layer
    · simp only [hk, Function.update_self]
      exact hlen
    · simp only [Function.update_of_ne hk]
      exact Or.inl trivial

/-! ### What the functions keep -/

lemma WaitList.grown_cells {l : WaitList} {cell : ℤ} (h : cell ∈ l.grown.cells) :
    cell ∈ l.cells ∨ cell = -1 := by
  unfold WaitList.grown WaitList.grow at h
  split_ifs at h
  all_goals first
    | exact Or.inl h
    | exact (List.mem_append.mp h).imp_right List.eq_of_mem_replicate

lemma WaitList.length_grown (l : WaitList) :
    l.grown.cells.length = l.cells.length ∨ l.grown.cells.length = grownCap l.cells.length := by
  unfold WaitList.grown WaitList.grow grownCap
  split_ifs
  · right
    simp only [List.length_append, List.length_replicate]
    omega
  · right
    simp only [List.length_append, List.length_replicate]
    omega
  all_goals exact Or.inl rfl

lemma handleWait_goes (h : s.Indexed n) (hi : i < s.pending.length)
    (hwait : handleWait s i = some (ret, s')) : s.Goes s' n := by
  have hroom := (h.wait_ok s.currLayer).room
  obtain ⟨cell, hcell, hfull, -, -⟩ | ⟨-, -, rfl⟩ := handleWait_cases hwait
  · rw [hroom] at hcell
    exact absurd (Option.some.inj hcell).symm hfull
  · apply h.goes_wait
    · exact (h.wait_ok s.currLayer).grown.append hroom i
    · intro cell hcell
      obtain hcell | rfl := List.mem_or_eq_of_mem_set hcell
      · obtain hcell | rfl := WaitList.grown_cells hcell
        · exact h.wait s.currLayer cell hcell
        · omega
      · omega
    · unfold WaitList.append
      rw [List.length_set]
      exact WaitList.length_grown _

lemma handleReject_goes (h : s.Indexed n) (hreject : handleReject P s i = some (ret, s')) :
    s.Goes s' n ∧ s'.wait = s.wait := by
  obtain ⟨-, -, rfl⟩ | ⟨trial, r, world, flow, point, -, -, -, hres⟩ := handleReject_cases hreject
  · exact ⟨h.goes rfl rfl rfl rfl rfl h.layer, rfl⟩
  · obtain ⟨-, -, rfl⟩ | ⟨-, -, -, rfl⟩ | ⟨-, -, -, rfl⟩ := hres
    all_goals exact ⟨h.goes List.length_set rfl rfl rfl rfl h.layer, rfl⟩

lemma workflowTransition_goes (h : s.Indexed n) (hi : i < s.pending.length) (hlayer : s.currLayer ≤ n)
    (htrans : workflowTransition P s i = some (ret, s')) : s.Goes s' n := by
  have hlow := h.layer
  obtain ⟨-, -, rfl⟩ | ⟨-, -, rfl⟩ | ⟨-, -, rfl⟩ | ⟨-, r, hwait, -⟩ | ⟨-, r, s₁, hreject, hres⟩ :=
    workflowTransition_cases htrans
  · refine h.goes rfl rfl rfl rfl rfl ?_
    show _ ≤ s.currLayer + 1
    omega
  · refine h.goes rfl rfl rfl rfl rfl ?_
    show _ ≤ -s.currLayer
    omega
  · exact h.goes rfl rfl rfl rfl rfl hlow
  · exact handleWait_goes h hi hwait
  · obtain ⟨hgoes, hwait⟩ := handleReject_goes h hreject
    obtain ⟨-, -, rfl⟩ | ⟨-, -, -, rfl⟩ | ⟨-, -, -, rfl⟩ := hres
    · exact hgoes
    · exact hgoes
    · apply hgoes.trans _ hwait
      refine hgoes.indexed.goes rfl rfl rfl rfl rfl ?_
      show _ ≤ (1 : ℤ)
      omega

lemma callLayer_goes (h : s.Indexed n) (hcall : callLayer P s i = some (ret, s')) :
    s.Goes s' n ∧ s'.wait = s.wait ∧ s'.currLayer = s.currLayer := by
  obtain ⟨layer, trial, -, -, ⟨-, -, rfl⟩ | ⟨hook, world, flow, perf, -, -, rfl⟩⟩ := callLayer_cases hcall
  · exact ⟨h.goes rfl rfl rfl rfl rfl h.layer, rfl, rfl⟩
  · exact ⟨h.goes List.length_set rfl rfl rfl rfl h.layer, rfl, rfl⟩

lemma finishWorkflow_goes (h : s.Indexed n) (hi : i < s.pending.length)
    (hfinish : finishWorkflow P s i = some (ret, s')) : s.Goes s' n := by
  obtain ⟨-, trial, r, world, -, -, ⟨-, -, rfl⟩ | ⟨-, -, rfl⟩⟩ |
    ⟨-, cell, -, ⟨-, -, rfl⟩ | ⟨-, -, rfl⟩⟩ | ⟨-, -, -, rfl⟩ := finishWorkflow_cases hfinish
  · exact h.goes rfl rfl rfl rfl rfl h.layer
  · exact h.goes List.length_set rfl rfl rfl rfl h.layer
  · exact h.goes rfl rfl rfl rfl rfl h.layer
  · have hlen := h.ready_len
    refine ⟨⟨?_, h.head, ?_, ?_, h.wait_ok, h.wait, h.layer⟩, rfl, fun _ => Or.inl rfl⟩
    · exact List.length_set.trans hlen
    · show (s.readyTail + 1) % s.ready.length < s.pending.length
      rw [hlen]
      exact Nat.mod_lt _ (by omega)
    · intro cell hcell
      obtain hcell | rfl := List.mem_or_eq_of_mem_set hcell
      · exact h.ready cell hcell
      · exact Int.ofNat_lt.mpr hi
  · exact h.goes rfl rfl rfl rfl rfl h.layer

lemma workflowRound_goes (hn : P.lstack.length = n) (h : s.Indexed n) (hi : i < s.pending.length)
    {res : Option ℤ} (hround : workflowRound P s i = some (res, s')) : s.Goes s' n := by
  unfold workflowRound at hround
  split_ifs at hround with hlayer
  · obtain ⟨⟨r, s₁⟩, hcall, hround⟩ := Option.bind_eq_some_iff.mp hround
    obtain ⟨hcalled, hwait, hcurr⟩ := callLayer_goes h hcall
    simp only at hround
    split_ifs at hround
    · cases hround
      exact hcalled
    · obtain ⟨⟨r', s₂⟩, htrans, hround⟩ := Option.bind_eq_some_iff.mp hround
      have hslot : i < s₁.pending.length := by
        rw [hcalled.pending]
        exact hi
      have hmoved := workflowTransition_goes hcalled.indexed hslot (by rw [hcurr]; omega) htrans
      simp only at hround
      split_ifs at hround
      all_goals
        cases hround
        exact hcalled.trans hmoved hwait
  · obtain ⟨⟨r, s₁⟩, hfinish, hres⟩ := Option.map_eq_some_iff.mp hround
    cases hres
    exact finishWorkflow_goes h hi hfinish

lemma length_setPerfs (pending : List (HTrial V W)) (perfs : List (ℤ × HPerf W)) :
    (setPerfs pending perfs).length = pending.length := by
  have hlen := congrArg List.length (ids_setPerfs pending perfs)
  rwa [List.length_map, List.length_map] at hlen

lemma WaitList.remove_cells {l : WaitList} {p : ℕ} {cell : ℤ} (h : cell ∈ (l.remove p).cells) :
    cell ∈ l.cells ∨ cell = -1 := by
  unfold WaitList.remove at h
  obtain h | rfl := List.mem_or_eq_of_mem_set h
  · obtain h | rfl := List.mem_or_eq_of_mem_set h
    · exact Or.inl h
    · cases hlast : l.cells[l.len - 1]? with
      | none => exact Or.inr rfl
      | some k => exact Or.inl (List.mem_of_getElem? hlast)
  · exact Or.inr rfl

/-- What a handler leaves, and the slot it goes on with. -/
def Head.Goes (s : Sess σ V W) (head : Head σ V W) (n : ℕ) : Prop :=
  s.Goes head.2 n ∧ ∀ i, head.1 = .inr i → i < s.pending.length

lemma Head.Goes.inl {r : ℤ} (h : s.Goes s' n) : Head.Goes s (.inl r, s') n := by
  refine ⟨h, ?_⟩
  intro i hi
  cases hi

lemma Head.Goes.inr (h : s.Goes s' n) (hi : i < s.pending.length) : Head.Goes s (.inr i, s') n := by
  refine ⟨h, ?_⟩
  intro j hj
  cases hj
  exact hi

lemma startTrial_goes [Top W] (h : s.Indexed n) {head : Head σ V W} (hstart : startTrial P s = some head) :
    head.Goes s n := by
  unfold startTrial at hstart
  simp only at hstart
  cases htrial : s.pending[s.pending.findIdx fun trial => trial.point.id = -1]? with
  | none =>
    rw [htrial] at hstart
    cases hstart
    exact .inl (h.goes rfl rfl rfl rfl rfl h.layer)
  | some trial =>
    have hslot := (List.getElem?_eq_some_iff.mp htrial).1
    rw [htrial] at hstart
    simp only at hstart
    split_ifs at hstart
    · cases hstart
      exact .inl (h.goes List.length_set rfl rfl rfl rfl h.layer)
    · cases hstart
      exact .inl (h.goes List.length_set rfl rfl rfl rfl h.layer)
    · cases hstart
      refine .inr (h.goes List.length_set rfl rfl rfl rfl ?_) hslot
      show _ ≤ (1 : ℤ)
      omega

lemma startReport_goes (hn : P.lstack.length = n) (h : s.Indexed n) (candId : ℤ) (perf : HPerf W) :
    (startReport P s candId perf).Goes s n := by
  unfold startReport
  simp only
  cases htrial : s.pending[s.pending.findIdx fun trial => trial.point.id = candId]? with
  | none =>
    simp only
    split_ifs
    · exact .inl (h.goes rfl rfl rfl rfl rfl h.layer)
    · exact .inl (h.goes rfl rfl rfl rfl rfl h.layer)
  | some trial =>
    have hslot := (List.getElem?_eq_some_iff.mp htrial).1
    refine .inr (h.goes List.length_set rfl rfl rfl rfl ?_) hslot
    show _ ≤ -(P.lstack.length : ℤ)
    omega

/-- The session after the call of a callback. -/
def Sess.answered (s : Sess σ V W) (cb : Callback σ V W) (trials : List (HTrial V W)) (trialIdx : ℕ) :
    Sess σ V W :=
  Sess.log { s with
    currLayer := cb.index
    world := (cb.func s.world s.flow trials).2.1
    flow := (cb.func s.world s.flow trials).2.2.1
    pending := setPerfs s.pending (((s.wait cb.index).cells.take (s.wait cb.index).len).zip
      (cb.func s.world s.flow trials).2.2.2) } (.callback cb.index
        (cb.func s.world s.flow trials).1.toNat trialIdx (cb.func s.world s.flow trials).2.2.1.status)

lemma answered_goes (h : s.Indexed n) {cb : Callback σ V W} (hcb : cb.index.natAbs ≤ n)
    (trials : List (HTrial V W)) (trialIdx : ℕ) : s.Goes (s.answered cb trials trialIdx) n := by
  refine h.goes (length_setPerfs _ _) rfl rfl rfl rfl ?_
  show _ ≤ cb.index
  omega

lemma startCallback_goes (h : s.Indexed n) {cb : Callback σ V W} (hcb : cb.index.natAbs ≤ n)
    {head : Head σ V W} (hstart : startCallback P s cb = some head) : head.Goes s n := by
  unfold startCallback at hstart
  simp only at hstart
  split_ifs at hstart with hempty
  · cases hstart
    refine .inl (h.goes rfl rfl rfl rfl rfl ?_)
    show _ ≤ cb.index
    omega
  · obtain ⟨trials, -, hstart⟩ := Option.bind_eq_some_iff.mp hstart
    split_ifs at hstart with hinside
    obtain ⟨cell, hcell, hstart⟩ := Option.bind_eq_some_iff.mp hstart
    obtain ⟨⟨r, s₁⟩, htrans, hstart⟩ := Option.bind_eq_some_iff.mp hstart
    have hlt := h.wait cb.index cell (List.mem_of_getElem? hcell)
    have hhead := h.head
    have hslot : cell.toNat < s.pending.length := by omega
    have hcalled := answered_goes h hcb trials cell.toNat
    have hmoved := workflowTransition_goes hcalled.indexed (by rw [hcalled.pending]; exact hslot)
      (show cb.index ≤ n by omega) htrans
    simp only at hstart
    split_ifs at hstart with hneg hpos
    · cases hstart
      exact .inl (hcalled.trans hmoved rfl)
    · cases hstart
      exact .inl (hcalled.trans hmoved rfl)
    · cases hstart
      obtain rfl : r = 0 := by omega
      have hwait := workflowTransition_goesOn htrans
      change s₁.wait = s.wait at hwait
      refine .inr ?_ hslot
      apply (hcalled.trans hmoved rfl).trans _ hwait
      apply hmoved.indexed.goes_wait
      · apply (hmoved.indexed.wait_ok cb.index).remove
        rw [hwait]
        omega
      · intro x hx
        obtain hx | rfl := WaitList.remove_cells hx
        · exact hmoved.indexed.wait cb.index x hx
        · omega
      · left
        unfold WaitList.remove
        rw [List.length_set, List.length_set]

lemma handleFetch_goes (h : s.Indexed n) {reply : Reply V}
    (hfetch : handleFetch P s = some (ret, s', reply)) : s.Goes s' n := by
  obtain ⟨idx, -, ⟨next, -, -, -, rfl, -⟩ | ⟨r, world, pt, -, ⟨-, -, rfl⟩ | ⟨-, -, rfl, -⟩⟩⟩ :=
    handleFetch_cases hfetch
  · have hlen := h.ready_len
    have htail := h.tail
    refine ⟨⟨?_, ?_, h.tail, ?_, h.wait_ok, h.wait, h.layer⟩, rfl, fun _ => Or.inl rfl⟩
    · exact List.length_set.trans hlen
    · show (s.readyHead + 1) % s.ready.length < s.pending.length
      rw [hlen]
      exact Nat.mod_lt _ (by omega)
    · intro cell hcell
      obtain hcell | rfl := List.mem_or_eq_of_mem_set hcell
      · exact h.ready cell hcell
      · show (-1 : ℤ) < s.pending.length
        omega
  · exact h.goes rfl rfl rfl rfl rfl h.layer
  · exact h.goes rfl rfl rfl rfl rfl h.layer

lemma handleBest_goes (h : s.Indexed n) : s.Goes (handleBest P s).2.1 n := by
  unfold handleBest
  simp only
  split_ifs
  · exact h.goes rfl rfl rfl rfl rfl h.layer
  · exact h.goes rfl rfl rfl rfl rfl h.layer

lemma sessionRestart_goes (h : s.Indexed n) : s.Goes (sessionRestart P s).2 n := by
  unfold sessionRestart
  cases P.strategyInit with
  | none =>
    simp only
    split_ifs
    all_goals exact h.goes rfl rfl rfl rfl rfl h.layer
  | some strategyInit =>
    simp only
    split_ifs
    all_goals exact h.goes rfl rfl rfl rfl rfl h.layer

lemma setClient_goes (h : s.Indexed n) {srcId : Option Bytes} (hset : s.setClient srcId = some s') :
    s.Goes s' n ∧ s'.wait = s.wait := by
  unfold Sess.setClient at hset
  obtain ⟨res, -, rfl⟩ := Option.map_eq_some_iff.mp hset
  exact ⟨h.goes rfl rfl rfl rfl rfl h.layer, rfl⟩

/-! ### No index is outside -/

lemma handleWait_isSome (h : s.Indexed n) : (handleWait s i).isSome := by
  have hroom := (h.wait_ok s.currLayer).room
  unfold WaitList.grown at hroom
  unfold handleWait
  simp only [hroom]
  rfl

lemma handleReject_isSome (hi : i < s.pending.length) : (handleReject P s i).isSome := by
  unfold handleReject
  split_ifs
  · rfl
  · rw [List.getElem?_eq_getElem hi]
    simp only
    split_ifs
    all_goals rfl

lemma workflowTransition_isSome (h : s.Indexed n) (hi : i < s.pending.length) :
    (workflowTransition P s i).isSome := by
  unfold workflowTransition
  cases s.flow.status with
  | wait =>
    obtain ⟨⟨r, s₁⟩, hwait⟩ := Option.isSome_iff_exists.mp (handleWait_isSome (i := i) h)
    simp only [hwait, Option.bind_eq_bind, Option.bind_some]
    split_ifs
    all_goals rfl
  | reject =>
    obtain ⟨⟨r, s₁⟩, hreject⟩ := Option.isSome_iff_exists.mp (handleReject_isSome (P := P) hi)
    simp only [hreject, Option.bind_eq_bind, Option.bind_some]
    split_ifs
    all_goals rfl
  | _ => rfl

lemma callLayer_isSome (hi : i < s.pending.length) (hlayer : s.currLayer.natAbs - 1 < P.lstack.length) :
    (callLayer P s i).isSome := by
  unfold callLayer
  simp only [List.getElem?_eq_getElem hlayer, List.getElem?_eq_getElem hi]
  split
  all_goals rfl

lemma finishWorkflow_isSome (h : s.Indexed n) (hi : i < s.pending.length) :
    (finishWorkflow P s i).isSome := by
  have htail : s.readyTail < s.ready.length := by
    rw [h.ready_len]
    exact h.tail
  unfold finishWorkflow
  split_ifs
  · rw [List.getElem?_eq_getElem hi]
    simp only
    split_ifs
    all_goals rfl
  · rw [List.getElem?_eq_getElem htail]
    simp only
    split_ifs
    all_goals rfl
  · rfl

lemma workflowRound_isSome (hn : P.lstack.length = n) (h : s.Indexed n) (hi : i < s.pending.length) :
    (workflowRound P s i).isSome := by
  have hlow := h.layer
  unfold workflowRound
  split_ifs with hlayer
  · have hslot : s.currLayer.natAbs - 1 < P.lstack.length := by omega
    obtain ⟨⟨r, s₁⟩, hcall⟩ := Option.isSome_iff_exists.mp (callLayer_isSome hi hslot)
    have hcalled := (callLayer_goes h hcall).1
    simp only [hcall, Option.bind_eq_bind, Option.bind_some]
    split_ifs
    · rfl
    · have hi₁ : i < s₁.pending.length := by
        rw [hcalled.pending]
        exact hi
      obtain ⟨⟨r', s₂⟩, htrans⟩ :=
        Option.isSome_iff_exists.mp (workflowTransition_isSome (P := P) hcalled.indexed hi₁)
      simp only [htrans, Option.bind_some]
      split_ifs
      all_goals rfl
  · rw [Option.isSome_map]
    exact finishWorkflow_isSome h hi

lemma startTrial_isSome [Top W] : (startTrial P s).isSome := by
  unfold startTrial
  simp only
  cases s.pending[s.pending.findIdx fun trial => trial.point.id = -1]? with
  | none => rfl
  | some trial =>
    simp only
    split_ifs
    all_goals rfl

lemma waitingTrials_isSome (h : s.Indexed n) (layer : ℤ) : (waitingTrials s (s.wait layer)).isSome := by
  have hok := h.wait_ok layer
  have hcells : ∀ cell ∈ (s.wait layer).cells.take (s.wait layer).len,
      0 ≤ cell ∧ cell < (s.pending.length : ℤ) := by
    intro cell hcell
    obtain ⟨p, hp⟩ := List.mem_iff_getElem?.mp hcell
    rw [List.getElem?_take] at hp
    split_ifs at hp with hlt
    obtain ⟨k, hk⟩ := hok.slot p hlt
    have hbound := h.wait layer cell (List.mem_of_getElem? hp)
    rw [hk] at hp
    cases hp
    exact ⟨Int.natCast_nonneg k, hbound⟩
  unfold waitingTrials
  generalize (s.wait layer).cells.take (s.wait layer).len = cells at hcells
  induction cells with
  | nil => rfl
  | cons cell cells ih =>
    obtain ⟨⟨hnonneg, hlt⟩, hcells⟩ := List.forall_mem_cons.mp hcells
    obtain ⟨trials, htrials⟩ := Option.isSome_iff_exists.mp (ih hcells)
    rw [List.mapM_cons, if_neg (by omega), List.getElem?_eq_getElem (by omega)]
    simp only [Option.bind_eq_bind, Option.bind_some]
    rw [htrials]
    rfl

/-- The value of a callback is an index into the wait list that it was shown. -/
def Callback.Inside (cb : Callback σ V W) (s : Sess σ V W) : Prop :=
  ∀ trials, waitingTrials s (s.wait cb.index) = some trials →
    0 ≤ (cb.func s.world s.flow trials).1 ∧ (cb.func s.world s.flow trials).1 < (s.wait cb.index).len

lemma startCallback_isSome (h : s.Indexed n) {cb : Callback σ V W} (hcb : cb.index.natAbs ≤ n)
    (hinside : 1 ≤ (s.wait cb.index).len → cb.Inside s) : (startCallback P s cb).isSome := by
  unfold startCallback
  simp only
  split_ifs with hempty
  · rfl
  · obtain ⟨trials, htrials⟩ := Option.isSome_iff_exists.mp (waitingTrials_isSome h cb.index)
    obtain ⟨hnonneg, hlt⟩ := hinside (by omega) trials htrials
    have hsame : waitingTrials { s with currLayer := cb.index } (s.wait cb.index)
        = waitingTrials s (s.wait cb.index) := rfl
    have hle := (h.wait_ok cb.index).len_le
    have hcell : (cb.func s.world s.flow trials).1.toNat < (s.wait cb.index).cells.length := by omega
    have hlow := h.wait cb.index _ (List.getElem_mem hcell)
    have hhead := h.head
    have hcalled := answered_goes h hcb trials (s.wait cb.index).cells[
      (cb.func s.world s.flow trials).1.toNat].toNat
    obtain ⟨⟨r, s₁⟩, htrans⟩ := Option.isSome_iff_exists.mp (workflowTransition_isSome (P := P)
      (i := (s.wait cb.index).cells[(cb.func s.world s.flow trials).1.toNat].toNat) hcalled.indexed (by
        rw [hcalled.pending]
        omega))
    rw [hsame, htrials, Option.bind_eq_bind, Option.bind_some,
      if_neg (not_or.mpr ⟨not_lt.mpr hnonneg, not_le.mpr hlt⟩), List.getElem?_eq_getElem hcell,
      Option.bind_eq_bind, Option.bind_some]
    change ((workflowTransition P (s.answered cb trials _) _).bind _).isSome
    rw [htrans, Option.bind_some]
    simp only
    split_ifs
    all_goals rfl

lemma handleFetch_isSome (h : s.Indexed n) : (handleFetch P s).isSome := by
  have hhead : s.readyHead < s.ready.length := by
    rw [h.ready_len]
    exact h.head
  have hcell := h.ready s.ready[s.readyHead] (List.getElem_mem hhead)
  unfold handleFetch
  rw [List.getElem?_eq_getElem hhead]
  simp only
  split_ifs with hready
  · have hslot : s.ready[s.readyHead].toNat < s.pending.length := by omega
    rw [List.getElem?_eq_getElem hslot]
    rfl
  · rfl
  · rfl

/-! ## Clients that join -/

namespace Core

variable {S : Setup σ V W} {c c' : Core σ V W} {targetCap : ℕ} {garbage : ℕ → ℤ} {garbage' : ℕ → HTrial V W}
  {input : Input V W}

/-- The invariant of the core. `rest` are as many `int`s as there are cells of the ready ring. -/
structure Indexed (c : Core σ V W) (n : ℕ) : Prop where
  sess : c.sess.Indexed n
  pos : ∀ i mesg, c.pos = .workflow i mesg → i < c.sess.pending.length
  rest : c.rest.length = c.sess.ready.length

/-- The queues are long enough for `targetCap` trials. -/
def Roomy (c : Core σ V W) (targetCap : ℕ) : Prop :=
  c.sess.pending.length ≥ targetCap ∧ c.sess.pending.length ≠ 0

/-- The ready ring goes round the end of its array, so that `extend_lists` turns it. -/
def Wraps (c : Core σ V W) : Prop :=
  c.sess.readyTail ≤ c.sess.readyHead ∧ (c.sess.ready[c.sess.readyHead]?).getD (-1) ≠ -1

variable [Top W]

lemma extend_roomy (h : c.Roomy targetCap) : c.extend S targetCap garbage garbage' = c := by
  have hguard : (c.sess.queues c.rest).pendingCap ≥ targetCap ∧ (c.sess.queues c.rest).pendingCap ≠ 0 := h
  unfold extend extendLists
  simp only [if_pos hguard]
  unfold Sess.queues
  simp only [List.take_left', List.drop_left']

omit [Top W] in
lemma lt_grownCap (targetCap : ℕ) : targetCap < grownCap targetCap ∧ 8 ≤ grownCap targetCap := by
  unfold grownCap
  split_ifs
  all_goals omega

omit [Top W] in
/-- What `extend_lists` makes of the ready array. -/
lemma align_cases (hrest : c.rest.length = c.sess.ready.length)
    (hhead : c.sess.readyHead < c.sess.ready.length ∨ c.sess.readyHead = 0)
    (htail : c.sess.readyTail ≤ c.sess.ready.length) :
    (alignReady (c.sess.queues c.rest)).ready.length = 2 * c.sess.ready.length ∧
      (alignReady (c.sess.queues c.rest)).readyHead ≤ c.sess.ready.length ∧
      (alignReady (c.sess.queues c.rest)).readyTail ≤ c.sess.ready.length ∧
      ∀ i < c.sess.ready.length, ∀ cell, (alignReady (c.sess.queues c.rest)).ready[i]? = some cell →
        cell ∈ c.sess.ready ∨ c.Wraps ∧ cell ∈ c.rest := by
  have hlen : (c.sess.queues c.rest).ready.length = 2 * c.sess.ready.length := by
    show (c.sess.ready ++ c.rest).length = _
    rw [List.length_append, hrest]
    omega
  by_cases hzero : c.sess.ready.length = 0
  · -- there is no array yet
    have hnil : (c.sess.queues c.rest).ready = [] := List.eq_nil_of_length_eq_zero (by omega)
    have hstay : alignReady (c.sess.queues c.rest) = c.sess.queues c.rest := by
      unfold alignReady
      rw [if_neg]
      rw [hnil]
      exact fun h => h.2 rfl
    rw [hstay]
    refine ⟨hlen, ?_, htail, ?_⟩
    · show c.sess.readyHead ≤ _
      omega
    · intro i hi
      omega
  have hlt : c.sess.readyHead < c.sess.ready.length := by omega
  have hsame : (c.sess.queues c.rest).ready[c.sess.readyHead]? = c.sess.ready[c.sess.readyHead]? :=
    List.getElem?_append_left hlt
  by_cases hwraps : c.sess.readyTail ≤ c.sess.readyHead ∧ c.sess.ready[c.sess.readyHead]? ≠ some (-1)
  · have hturn := alignReady_rotate (s := c.sess.queues c.rest) hlen hlt hwraps.1 (hsame ▸ hwraps.2)
    rw [hturn]
    refine ⟨(List.length_rotate _ _).trans hlen, Nat.zero_le _, Nat.sub_le _ _, ?_⟩
    intro i hi cell hcell
    have hmem := List.mem_rotate.mp (List.mem_of_getElem? hcell)
    obtain hmem | hmem := List.mem_append.mp hmem
    · exact Or.inl hmem
    · refine Or.inr ⟨⟨hwraps.1, ?_⟩, hmem⟩
      have hbusy := hwraps.2
      rw [List.getElem?_eq_getElem hlt] at hbusy ⊢
      exact fun heq => hbusy (congrArg some heq)
  · have hstay := alignReady_stay (s := c.sess.queues c.rest) fun h => hwraps ⟨h.1, hsame ▸ h.2⟩
    rw [hstay]
    refine ⟨hlen, hlt.le, htail, ?_⟩
    intro i hi cell hcell
    change (c.sess.ready ++ c.rest)[i]? = some cell at hcell
    rw [List.getElem?_append_left hi] at hcell
    exact Or.inl (List.mem_of_getElem? hcell)

omit [Top W] in
lemma lt_grown_of_not_roomy (h : ¬ c.Roomy targetCap) : c.sess.pending.length < grownCap targetCap := by
  obtain ⟨hlt, hpos⟩ := lt_grownCap targetCap
  unfold Roomy at h
  omega

/-- The queues after they were grown. -/
lemma extend_grown (S : Setup σ V W) (garbage : ℕ → ℤ) (garbage' : ℕ → HTrial V W)
    (hroomy : ¬ c.Roomy targetCap) (hlen : c.sess.ready.length = c.sess.pending.length)
    (hrest : c.rest.length = c.sess.ready.length)
    (hhead : c.sess.readyHead < c.sess.ready.length ∨ c.sess.readyHead = 0)
    (htail : c.sess.readyTail ≤ c.sess.ready.length)
    (hcells : ∀ cell ∈ c.sess.ready, cell < (grownCap targetCap : ℤ))
    (hwraps : c.Wraps → ∀ cell ∈ c.rest, cell < (grownCap targetCap : ℤ)) :
    (c.extend S targetCap garbage garbage').sess.pending.length = grownCap targetCap ∧
      (c.extend S targetCap garbage garbage').sess.ready.length = grownCap targetCap ∧
      (c.extend S targetCap garbage garbage').rest.length = grownCap targetCap ∧
      (c.extend S targetCap garbage garbage').sess.readyHead < grownCap targetCap ∧
      (c.extend S targetCap garbage garbage').sess.readyTail < grownCap targetCap ∧
      ∀ cell ∈ (c.extend S targetCap garbage garbage').sess.ready, cell < (grownCap targetCap : ℤ) := by
  have hlt := lt_grown_of_not_roomy hroomy
  obtain ⟨hlenA, hheadA, htailA, hcellsA⟩ := align_cases hrest hhead htail
  have hguard : ¬ ((c.sess.queues c.rest).pendingCap ≥ targetCap ∧ (c.sess.queues c.rest).pendingCap ≠ 0) :=
    hroomy
  have hgrown : (extendLists S.perfCount S.zero garbage garbage' (c.sess.queues c.rest)
      targetCap).2.ready.length = 2 * grownCap targetCap := by
    unfold extendLists
    simp only [if_neg hguard, List.length_mapIdx]
    exact length_grown
  have hcap : (extendLists S.perfCount S.zero garbage garbage' (c.sess.queues c.rest) targetCap).2.readyCap
      = grownCap targetCap := by
    unfold extendLists
    simp only [if_neg hguard]
    rfl
  refine ⟨?_, ?_, ?_, ?_, ?_, ?_⟩
  · unfold extend extendLists
    simp only [if_neg hguard, List.length_mapIdx]
    exact length_grown.trans (Nat.one_mul _)
  · show (List.take _ _).length = _
    rw [List.length_take, hcap, hgrown]
    omega
  · show (List.drop _ _).length = _
    rw [List.length_drop, hcap, hgrown]
    omega
  · unfold extend extendLists
    simp only [if_neg hguard]
    omega
  · unfold extend extendLists
    simp only [if_neg hguard]
    omega
  · intro cell hcell
    change cell ∈ List.take _ _ at hcell
    rw [hcap] at hcell
    obtain ⟨i, hi⟩ := List.mem_iff_getElem?.mp hcell
    rw [List.getElem?_take] at hi
    split_ifs at hi with hin
    unfold extendLists at hi
    simp only [if_neg hguard, List.getElem?_mapIdx] at hi
    obtain ⟨old, hold, rfl⟩ := Option.map_eq_some_iff.mp hi
    by_cases hnew : c.sess.pending.length ≤ i
    · -- a new cell
      have hboth : (c.sess.queues c.rest).pendingCap ≤ i ∧ i < (arrayGrow 1 S.zero garbage'
          (alignReady (c.sess.queues c.rest)).pending targetCap).1 := ⟨hnew, hin⟩
      rw [if_pos hboth]
      omega
    · rw [if_neg fun h => hnew h.1]
      have hrange : i < 2 * grownCap targetCap := by omega
      have harr : (arrayGrow 2 0 garbage (alignReady (c.sess.queues c.rest)).ready targetCap).2[i]?
          = some (if 2 * targetCap ≤ i then 0
            else ((alignReady (c.sess.queues c.rest)).ready[i]?).getD (garbage i)) := by
        unfold arrayGrow
        rw [List.getElem?_map]
        change Option.map _ (List.range (2 * grownCap targetCap))[i]? = _
        rw [List.getElem?_range hrange]
        rfl
      rw [harr] at hold
      cases hold
      split_ifs
      · omega
      · have hslot : i < (alignReady (c.sess.queues c.rest)).ready.length := by omega
        rw [List.getElem?_eq_getElem hslot, Option.getD_some]
        obtain hmem | ⟨hw, hmem⟩ := hcellsA i (by omega) _ (List.getElem?_eq_getElem hslot)
        · exact hcells _ hmem
        · exact hwraps hw _ hmem

omit [Top W] in
/-- The queues are as long as before, so that the invariant is that of the session. -/
lemma Indexed.of_goes (h : c.Indexed n) (hs : c.sess.Goes s n) {pos : Position}
    (hpos : ∀ i mesg, pos = .workflow i mesg → i < c.sess.pending.length) :
    Indexed { c with sess := s, pos := pos } n where
  sess := hs.indexed
  pos := by
    rw [hs.pending]
    exact hpos
  rest := by
    show c.rest.length = s.ready.length
    rw [hs.indexed.ready_len, hs.pending, h.rest, h.sess.ready_len]

omit [Top W] in
lemma answer_goes (ret : ℤ) (h : c.Indexed n) (hs : c.sess.Goes s n) :
    (c.answer ret s).Indexed n ∧ c.sess.Goes (c.answer ret s).sess n := by
  unfold answer
  split_ifs
  · refine ⟨h.of_goes hs ?_, hs⟩
    intro i mesg hpos
    cases hpos
  · have hset : c.sess.Goes ((s.setClient none).getD s) n := by
      cases hclient : s.setClient none with
      | none => exact hs
      | some s' =>
        obtain ⟨hgoes, hwait⟩ := setClient_goes hs.indexed hclient
        exact hs.trans_right hgoes hwait
    refine ⟨h.of_goes hset ?_, hset⟩
    intro i mesg hpos
    cases hpos

omit [Top W] in
lemma finish_goes (h : c.Indexed n) (hs : c.sess.Goes s n) (mesg : Bool) :
    (c.finish mesg ret s).Indexed n ∧ c.sess.Goes (c.finish mesg ret s).sess n := by
  unfold finish
  split_ifs
  · exact answer_goes _ h hs
  · refine ⟨h.of_goes hs ?_, hs⟩
    intro i mesg hpos
    cases hpos

omit [Top W] in
lemma goOn_goes (h : c.Indexed n) {head : Head σ V W} (hhead : head.Goes c.sess n) (mesg : Bool) :
    (c.goOn mesg head).Indexed n ∧ c.sess.Goes (c.goOn mesg head).sess n := by
  obtain ⟨hs, hslot⟩ := hhead
  obtain ⟨r | i, s⟩ := head
  · exact finish_goes h hs mesg
  · refine ⟨h.of_goes hs ?_, hs⟩
    intro j mesg' hpos
    cases hpos
    exact hslot i rfl

/-- The inputs that keep the arrays: a callback answers with an index into the wait list that it was shown, and
when the queues are grown, it is for less than `2 ^ 26` trials, and no `int` that a turn can bring into the ready
ring is beyond them. -/
def Careful (S : Setup σ V W) (c : Core σ V W) : Input V W → Prop
  | .callback j => ∀ cb, S.plugins.cb[j]? = some cb → 1 ≤ (c.sess.wait cb.index).len → cb.Inside c.sess
  | .join _ true _ _ =>
    let targetCap := (c.numClients + 1) * S.perClient
    ¬ c.Roomy targetCap → targetCap < 2 ^ 26 ∧
      (c.Wraps → ∀ cell ∈ c.rest, cell < (grownCap targetCap : ℤ))
  | _ => True

/-- The input is the message of a client that joins. -/
def Joins : Input V W → Prop
  | .join .. => True
  | _ => False

lemma step_goes (hn : S.plugins.lstack.length = n) (h : c.Indexed n) (hjoin : ¬ Joins input)
    (hstep : c.step S input = some c') : c'.Indexed n ∧ c.sess.Goes c'.sess n := by
  cases input with
  | top =>
    cases hstep
    have hs : c.sess.Goes { c.sess with flow := { status := .accept, point := hpointInitializer V } } n :=
      h.sess.goes rfl rfl rfl rfl rfl h.sess.layer
    exact ⟨h.of_goes hs h.pos, hs⟩
  | callback j =>
    obtain ⟨cb, hcb, hstep⟩ := Option.bind_eq_some_iff.mp hstep
    obtain ⟨head, hhead, rfl⟩ := Option.map_eq_some_iff.mp hstep
    have hindex := (S.plugins.cb_index cb (List.mem_of_getElem? hcb)).2
    rw [hn] at hindex
    exact goOn_goes h (startCallback_goes h.sess hindex hhead) false
  | mesg srcId req =>
    obtain ⟨s, hset, hstep⟩ := Option.bind_eq_some_iff.mp hstep
    obtain ⟨hgoes, hwait⟩ := setClient_goes h.sess hset
    cases req with
    | best =>
      have hanswer : c.answer (handleBest S.plugins s).1 (handleBest S.plugins s).2.1 = c' :=
        Option.some.inj hstep
      rw [← hanswer]
      exact answer_goes _ h (hgoes.trans (handleBest_goes hgoes.indexed) hwait)
    | fetch =>
      obtain ⟨⟨r, s₁, reply⟩, hfetch, rfl⟩ := Option.map_eq_some_iff.mp hstep
      exact answer_goes _ h (hgoes.trans (handleFetch_goes hgoes.indexed hfetch) hwait)
    | report candId perf =>
      cases hstep
      have hreport := startReport_goes hn hgoes.indexed candId perf
      apply goOn_goes h
      refine ⟨hgoes.trans hreport.1 hwait, ?_⟩
      rw [← hgoes.pending]
      exact hreport.2
    | restart =>
      have hanswer : c.answer 0 (sessionRestart S.plugins s).2 = c' := Option.some.inj hstep
      rw [← hanswer]
      exact answer_goes _ h (hgoes.trans (sessionRestart_goes hgoes.indexed) hwait)
  | join => exact absurd trivial hjoin
  | generate =>
    obtain ⟨head, hhead, rfl⟩ := Option.map_eq_some_iff.mp hstep
    exact goOn_goes h (startTrial_goes h.sess hhead) false
  | round =>
    cases hpos : c.pos with
    | workflow i mesg =>
      unfold step at hstep
      simp only [hpos] at hstep
      obtain ⟨⟨r, s⟩, hround, rfl⟩ := Option.map_eq_some_iff.mp hstep
      have hgoes := workflowRound_goes hn h.sess (h.pos i mesg hpos) hround
      cases r with
      | none =>
        rw [Option.elim_none]
        exact ⟨h.of_goes hgoes (by rw [← hpos]; exact h.pos), hgoes⟩
      | some r => exact finish_goes h hgoes mesg
    | _ =>
      unfold step at hstep
      simp only [hpos] at hstep
      cases hstep
      exact ⟨h, h.sess.refl⟩

lemma extend_indexed (S : Setup σ V W) (targetCap : ℕ) (garbage : ℕ → ℤ) (garbage' : ℕ → HTrial V W)
    (h : c.Indexed n) (hpos : c.pos = .loop)
    (hturn : ¬ c.Roomy targetCap → c.Wraps → ∀ cell ∈ c.rest, cell < (grownCap targetCap : ℤ)) :
    (c.extend S targetCap garbage garbage').Indexed n ∧
      (c.extend S targetCap garbage garbage').sess.wait = c.sess.wait ∧
      (c.Roomy targetCap ∧
          (c.extend S targetCap garbage garbage').sess.pending.length = c.sess.pending.length ∨
        ¬ c.Roomy targetCap ∧
          (c.extend S targetCap garbage garbage').sess.pending.length = grownCap targetCap) := by
  by_cases hroomy : c.Roomy targetCap
  · rw [extend_roomy hroomy]
    exact ⟨h, rfl, Or.inl ⟨hroomy, rfl⟩⟩
  · have hlen := h.sess.ready_len
    have hlt := lt_grown_of_not_roomy hroomy
    have hhead := h.sess.head
    have htail := h.sess.tail
    have hcells : ∀ cell ∈ c.sess.ready, cell < (grownCap targetCap : ℤ) := by
      intro cell hcell
      have := h.sess.ready cell hcell
      omega
    obtain ⟨hpending, hready, hrest, hhead', htail', hcells'⟩ :=
      extend_grown S garbage garbage' hroomy hlen h.rest (by omega) (by omega) hcells (hturn hroomy)
    refine ⟨⟨⟨?_, ?_, ?_, ?_, h.sess.wait_ok, ?_, h.sess.layer⟩, ?_, ?_⟩, rfl, Or.inr ⟨hroomy, hpending⟩⟩
    · rw [hready, hpending]
    · rw [hpending]
      exact hhead'
    · rw [hpending]
      exact htail'
    · rw [hpending]
      exact hcells'
    · intro layer cell hcell
      have := h.sess.wait layer cell hcell
      rw [hpending]
      omega
    · intro i mesg hi
      cases hpos.symm.trans hi
    · rw [hrest, hready]

omit [Top W] in
lemma answer_wait : (c.answer ret s).sess.wait = s.wait := by
  unfold answer
  split_ifs
  · rfl
  · unfold Sess.setClient
    cases hcfgSet s.world.cfg cfgkeyCurrentClient none with
    | none => rfl
    | some res => rfl

/-- What a client that joins makes of the queues. -/
lemma join_indexed (h : c.Indexed n) {srcId : Option Bytes} {matched : Bool}
    (hcareful : c.Careful S (.join srcId matched garbage garbage')) (hpos : c.pos = .loop)
    (hstep : c.step S (.join srcId matched garbage garbage') = some c') :
    c'.Indexed n ∧ c'.sess.wait = c.sess.wait ∧
      ((matched = false ∨ c.Roomy ((c.numClients + 1) * S.perClient)) ∧
          c'.sess.pending.length = c.sess.pending.length ∨
        matched = true ∧ ¬ c.Roomy ((c.numClients + 1) * S.perClient) ∧
          c'.sess.pending.length = grownCap ((c.numClients + 1) * S.perClient)) := by
  obtain ⟨s, hset, rfl⟩ := Option.map_eq_some_iff.mp hstep
  obtain ⟨res, -, rfl⟩ := Option.map_eq_some_iff.mp hset
  cases matched with
  | false =>
    have hs : c.sess.Goes { c.sess with world := {
        plug := c.sess.world.plug, cfg := res.2, errmsg := some (cstr "Incompatible join signature.") } } n :=
      h.sess.goes rfl rfl rfl rfl rfl h.sess.layer
    have hanswer := answer_goes (-1) (h.of_goes hs h.pos) hs.indexed.refl
    refine ⟨hanswer.1, answer_wait, Or.inl ⟨Or.inl rfl, ?_⟩⟩
    exact hanswer.2.pending
  | true =>
    -- the core in front of `extend_lists`
    set c₀ : Core σ V W := { c with
      sess := { c.sess with world := { c.sess.world with cfg := res.2 } }
      numClients := c.numClients + 1 }
    have hs₀ : c.sess.Goes c₀.sess n := h.sess.goes rfl rfl rfl rfl rfl h.sess.layer
    have h₀ : c₀.Indexed n := ⟨hs₀.indexed, h.pos, h.rest⟩
    obtain ⟨hextended, hwait, hlen⟩ := extend_indexed S ((c.numClients + 1) * S.perClient) garbage garbage'
      h₀ hpos fun hroomy => (hcareful hroomy).2
    set c₁ := c₀.extend S ((c.numClients + 1) * S.perClient) garbage garbage'
    set hooked := callHooks (S.join.map fun hook => hook.map fun hook => hook srcId) c₁.sess.world
    have hs₂ : c₁.sess.Goes { c₁.sess with world := hooked.2 } n :=
      hextended.sess.goes rfl rfl rfl rfl rfl hextended.sess.layer
    have hanswer := answer_goes hooked.1 (hextended.of_goes hs₂ hextended.pos) hs₂.indexed.refl
    refine ⟨hanswer.1, answer_wait.trans hwait, ?_⟩
    obtain ⟨hroomy, hlen⟩ | ⟨hroomy, hlen⟩ := hlen
    · exact Or.inl ⟨Or.inr hroomy, hanswer.2.pending.trans hlen⟩
    · exact Or.inr ⟨rfl, hroomy, hanswer.2.pending.trans hlen⟩

/-- No step uses an index outside of its array. -/
theorem step_isSome (hn : S.plugins.lstack.length = n) (h : c.Indexed n) (htakes : c.Takes S input)
    (hcareful : c.Careful S input) : (c.step S input).isSome := by
  cases input with
  | top => rfl
  | callback j =>
    have hcb := List.getElem?_eq_getElem htakes.2
    have hindex := (S.plugins.cb_index _ (List.getElem_mem htakes.2)).2
    rw [hn] at hindex
    unfold step
    simp only [hcb, Option.bind_some, Option.isSome_map]
    exact startCallback_isSome h.sess hindex (hcareful _ hcb)
  | mesg srcId req =>
    obtain ⟨s, hset⟩ := Option.isSome_iff_exists.mp htakes.2
    have hgoes := (setClient_goes h.sess hset).1
    unfold step
    simp only [hset, Option.bind_some]
    cases req with
    | fetch =>
      simp only [Option.isSome_map]
      exact handleFetch_isSome hgoes.indexed
    | _ => rfl
  | join srcId matched garbage garbage' =>
    unfold step
    rw [Option.isSome_map]
    exact htakes.2
  | generate =>
    unfold step
    rw [Option.isSome_map]
    exact startTrial_isSome
  | round =>
    obtain ⟨i, mesg, hpos⟩ := htakes
    unfold step
    simp only [hpos, Option.isSome_map]
    exact workflowRound_isSome hn h.sess (h.pos i mesg hpos)

/-! ## Memory -/

/-- The capacities are the lengths of the lists; the list of callbacks may be shorter. -/
structure Memory.Fits (m : Memory) (S : Setup σ V W) (c : Core σ V W) : Prop where
  pending : (m .pending).cap = c.sess.pending.length
  ready : (m .ready).cap = c.sess.ready.length
  cb : S.plugins.cb.length ≤ (m .cb).cap
  wait : ∀ layer, (m (.wait layer)).cap = (c.sess.wait layer).cells.length

omit [Top W] in
lemma nextCap_eq (b : Block) : b.nextCap = grownCap b.cap := by
  unfold Block.nextCap grownCap
  split_ifs
  all_goals omega

variable {m : Memory} {arr arr' : Arr}

omit [Top W] in
lemma growTo_self : m.growTo arr targetCap arr = { m arr with cap := targetCap }.grow arr.grownBy := by
  unfold Memory.growTo
  rw [Arrays.grow_self, Function.update_self]

omit [Top W] in
lemma growTo_other (h : arr' ≠ arr) : m.growTo arr targetCap arr' = m arr' := by
  unfold Memory.growTo
  rw [Arrays.grow_other h, Function.update_of_ne h]

omit [Top W] in
/-- The memory of the queues after they were grown. -/
lemma extend_memory (h : ¬ ((m .pending).cap ≥ targetCap ∧ (m .pending).cap ≠ 0)) :
    m.extend targetCap .pending = { m .pending with cap := targetCap }.grow Arr.pending.grownBy ∧
      m.extend targetCap .ready = { m .ready with cap := targetCap }.grow Arr.ready.grownBy ∧
      ∀ arr, arr ≠ .pending → arr ≠ .ready → m.extend targetCap arr = m arr := by
  unfold Memory.extend
  rw [if_neg h]
  refine ⟨?_, ?_, ?_⟩
  · rw [growTo_self, growTo_other (by decide)]
  · rw [growTo_other (by decide), growTo_self]
  · intro arr hpending hready
    rw [growTo_other hpending, growTo_other hready]

omit [Top W] in
lemma extend_exact (h : m.Exact Arr.grownBy) (halloc : (m.extend targetCap).Allocated)
    (hsmall : ¬ ((m .pending).cap ≥ targetCap ∧ (m .pending).cap ≠ 0) → targetCap < 2 ^ 26) :
    (m.extend targetCap).Exact Arr.grownBy := by
  by_cases hguard : (m .pending).cap ≥ targetCap ∧ (m .pending).cap ≠ 0
  · unfold Memory.extend
    rw [if_pos hguard]
    exact h
  · obtain ⟨hpending, hready, hother⟩ := extend_memory hguard
    have hlt := hsmall hguard
    have hcap : grownCap targetCap < 2 ^ 27 := by
      unfold grownCap
      split_ifs
      all_goals omega
    intro arr
    have hsome := halloc arr
    cases arr with
    | pending =>
      rw [hpending] at hsome ⊢
      apply Block.grow_exact _ hsome
      rw [nextCap_eq]
      show grownCap targetCap * 32 < 2 ^ 32
      omega
    | ready =>
      rw [hready] at hsome ⊢
      apply Block.grow_exact _ hsome
      rw [nextCap_eq]
      show grownCap targetCap * 8 < 2 ^ 32
      omega
    | cb =>
      rw [hother .cb nofun nofun]
      exact h .cb
    | wait layer =>
      rw [hother (.wait layer) nofun nofun]
      exact h (.wait layer)

omit [Top W] in
lemma Arr.grownBy_lt (arr : Arr) : arr.grownBy < 2 ^ 28 := by
  cases arr
  all_goals
    simp only [Arr.grownBy]
    decide

omit [Top W] in
lemma waits_exact (h : m.Exact Arr.grownBy) {s s' : Sess σ V W} (halloc : (m.waits s s').Allocated) :
    (m.waits s s').Exact Arr.grownBy := by
  intro arr
  cases arr with
  | wait layer =>
    have hsome := halloc (.wait layer)
    simp only [Memory.waits] at hsome ⊢
    split_ifs at hsome ⊢
    · exact h (.wait layer)
    · exact (h (.wait layer)).grow (Arr.grownBy_lt (.wait layer)) hsome
  | _ => exact h _

omit [Top W] in
lemma Memory.Fits.waits (h : m.Fits S c) (hc : c.Indexed n) (hc' : c'.Indexed n)
    (hs : c.sess.Goes c'.sess n) : (m.waits c.sess c'.sess).Fits S c' where
  pending := by
    rw [hs.pending]
    exact h.pending
  ready := by
    rw [hc'.sess.ready_len, hs.pending, ← hc.sess.ready_len]
    exact h.ready
  cb := h.cb
  wait := by
    intro layer
    have hcap := h.wait layer
    simp only [Memory.waits]
    split_ifs with hsame
    · rw [hsame]
      exact hcap
    · obtain heq | heq := hs.wait layer
      · exact absurd heq hsame
      · rw [Block.grow_cap, nextCap_eq, hcap, heq]

omit [Top W] in
lemma step_waits (hjoin : ¬ Joins input) : m.step S c c' input = m.waits c.sess c'.sess := by
  cases input with
  | join => exact absurd trivial hjoin
  | _ => rfl

/-- What one step keeps. -/
theorem step_keeps (hn : S.plugins.lstack.length = n) (h : c.Indexed n) (hfits : m.Fits S c)
    (hexact : m.Exact Arr.grownBy) (htakes : c.Takes S input) (hcareful : c.Careful S input)
    (hstep : c.step S input = some c') (halloc : (m.step S c c' input).Allocated) :
    c'.Indexed n ∧ (m.step S c c' input).Fits S c' ∧ (m.step S c c' input).Exact Arr.grownBy := by
  by_cases hjoin : Joins input
  · cases input with
    | join srcId matched garbage garbage' =>
      obtain ⟨hidx, hwait, ⟨hstay, hlen⟩ | ⟨rfl, hroomy, hlen⟩⟩ := join_indexed h hcareful htakes.1 hstep
      · have hsame : m.step S c c' (.join srcId matched garbage garbage') = m := by
          simp only [Memory.step]
          obtain rfl | hroomy := hstay
          · rfl
          · have hguard : (m .pending).cap ≥ (c.numClients + 1) * S.perClient ∧ (m .pending).cap ≠ 0 := by
              rw [hfits.pending]
              exact hroomy
            split_ifs
            · exact if_pos hguard
            · rfl
        rw [hsame]
        refine ⟨hidx, ⟨?_, ?_, hfits.cb, ?_⟩, hexact⟩
        · rw [hlen]
          exact hfits.pending
        · rw [hidx.sess.ready_len, hlen, ← h.sess.ready_len]
          exact hfits.ready
        · rw [hwait]
          exact hfits.wait
      · have hguard : ¬ ((m .pending).cap ≥ (c.numClients + 1) * S.perClient ∧ (m .pending).cap ≠ 0) := by
          rw [hfits.pending]
          exact hroomy
        obtain ⟨hpending, hready, hother⟩ := extend_memory hguard
        refine ⟨hidx, ⟨?_, ?_, ?_, ?_⟩, ?_⟩
        · show (m.extend _ .pending).cap = _
          rw [hpending, Block.grow_cap, nextCap_eq, hlen]
        · show (m.extend _ .ready).cap = _
          rw [hready, Block.grow_cap, nextCap_eq, hidx.sess.ready_len, hlen]
        · show _ ≤ (m.extend _ .cb).cap
          rw [hother .cb nofun nofun]
          exact hfits.cb
        · intro layer
          show (m.extend _ (.wait layer)).cap = _
          rw [hother (.wait layer) nofun nofun, hwait]
          exact hfits.wait layer
        · exact extend_exact hexact halloc fun _ => (hcareful hroomy).1
    | _ => exact hjoin.elim
  · obtain ⟨hidx, hs⟩ := step_goes hn h hjoin hstep
    rw [step_waits hjoin] at halloc ⊢
    exact ⟨hidx, hfits.waits h hidx hs, waits_exact hexact halloc⟩

omit [Top W] in
/-- The registration of a callback. -/
lemma register_keeps (hfits : m.Fits S c) (hexact : m.Exact Arr.grownBy) (cb : Callback σ V W)
    (hcb : cb.index ≠ 0 ∧ cb.index.natAbs ≤ S.plugins.lstack.length)
    (halloc : (m.register S.plugins.cb.length).Allocated) :
    (m.register S.plugins.cb.length).Fits (S.register cb hcb) c ∧
      (m.register S.plugins.cb.length).Exact Arr.grownBy := by
  have hle := hfits.cb
  have hlen : (S.register cb hcb).plugins.cb.length = S.plugins.cb.length + 1 := List.length_append
  unfold Memory.register at halloc ⊢
  split_ifs at halloc ⊢ with hfull
  · have hgrown := Block.lt_nextCap (b := m .cb)
    refine ⟨⟨?_, ?_, ?_, ?_⟩, hexact.grow (Arr.grownBy_lt .cb) halloc⟩
    · rw [Arrays.grow_other (show Arr.pending ≠ .cb by intro h; cases h)]
      exact hfits.pending
    · rw [Arrays.grow_other (show Arr.ready ≠ .cb by intro h; cases h)]
      exact hfits.ready
    · rw [Arrays.grow_cap, hlen]
      omega
    · intro layer
      rw [Arrays.grow_other (show Arr.wait layer ≠ .cb by intro h; cases h)]
      exact hfits.wait layer
  · refine ⟨⟨hfits.pending, hfits.ready, ?_, hfits.wait⟩, hexact⟩
    rw [hlen]
    omega

/-! ## Runs -/

/-- What happens in a run: an input, or a plug-in registers a callback. -/
inductive Call (σ V W : Type) where
  | input (input : Input V W)
  | register (cb : Callback σ V W)

variable (S₀ : Setup σ V W) (world : World σ) (count : ℕ) (garbage : ℕ → ℤ) (garbage' : ℕ → HTrial V W)

/-- The runs of the core in which no allocation fails. The plug-ins register their callbacks one by one. -/
inductive Allocating : List (Call σ V W) → Setup σ V W → Core σ V W → Memory → Prop
  | start : S₀.plugins.cb = [] → (Memory.start count).Allocated →
      Allocating [] S₀ (Core.start S₀ world count garbage garbage') (Memory.start count)
  | input {calls : List (Call σ V W)} {S : Setup σ V W} {c c' : Core σ V W} {m : Memory} {input : Input V W} :
      Allocating calls S c m → c.Takes S input → c.step S input = some c' →
      (m.step S c c' input).Allocated → Allocating (calls ++ [.input input]) S c' (m.step S c c' input)
  | register {calls : List (Call σ V W)} {S : Setup σ V W} {c : Core σ V W} {m : Memory} {cb : Callback σ V W}
      (hcb : cb.index ≠ 0 ∧ cb.index.natAbs ≤ S.plugins.lstack.length) :
      Allocating calls S c m → (m.register S.plugins.cb.length).Allocated →
      Allocating (calls ++ [.register cb]) (S.register cb hcb) c (m.register S.plugins.cb.length)

/-- In each state of a run the memory of all arrays is large enough for their capacities, these are those of the
lists of the session, and what can happen next uses no index outside. -/
def AllocationsCover (calls : List (Call σ V W)) : Prop :=
  ∀ before S c m, before <+: calls → Allocating S₀ world count garbage garbage' before S c m →
    m.Covers Arr.elem ∧ m.Fits S c ∧
      (∀ input, before ++ [.input input] <+: calls → c.Takes S input → (c.step S input).isSome) ∧
      ∀ cb, before ++ [.register cb] <+: calls →
        S.plugins.cb.length < (m.register S.plugins.cb.length .cb).cap

/-- The inputs of a run are careful in the states in which they come. -/
def CarefulRun (calls : List (Call σ V W)) : Prop :=
  ∀ before S c m input, before ++ [.input input] <+: calls →
    Allocating S₀ world count garbage garbage' before S c m → c.Takes S input → c.Careful S input

variable {S₀ world count garbage garbage'} {calls before : List (Call σ V W)}

/-- The queues that `init_session` prepares. -/
lemma start_queues (S₀ : Setup σ V W) (world : World σ) (count : ℕ) (garbage : ℕ → ℤ)
    (garbage' : ℕ → HTrial V W) :
    (start S₀ world count garbage garbage').sess.pending.length = grownCap count ∧
      (start S₀ world count garbage garbage').sess.ready.length = grownCap count ∧
      (start S₀ world count garbage garbage').rest.length = grownCap count ∧
      (start S₀ world count garbage garbage').sess.readyHead < grownCap count ∧
      (start S₀ world count garbage garbage').sess.readyTail < grownCap count ∧
      ∀ cell ∈ (start S₀ world count garbage garbage').sess.ready, cell < (grownCap count : ℤ) := by
  apply extend_grown
  · rintro ⟨-, hpos⟩
    exact hpos rfl
  · rfl
  · rfl
  · exact Or.inr rfl
  · exact le_rfl
  · exact List.forall_mem_nil _
  · intro _
    exact List.forall_mem_nil _

lemma start_indexed : (start S₀ world count garbage garbage').Indexed n := by
  obtain ⟨hpending, hready, hrest, hhead, htail, hcells⟩ := start_queues S₀ world count garbage garbage'
  refine ⟨⟨?_, ?_, ?_, ?_, ?_, ?_, ?_⟩, ?_, ?_⟩
  · rw [hready, hpending]
  · rw [hpending]
    exact hhead
  · rw [hpending]
    exact htail
  · rw [hpending]
    exact hcells
  · intro layer
    exact WaitList.ok_empty
  · intro layer
    exact List.forall_mem_nil _
  · show -(n : ℤ) ≤ 0
    omega
  · intro i mesg hpos
    cases hpos
  · rw [hrest, hready]

omit [Top W] in
/-- The memory that `init_session` allocates. -/
lemma start_memory (count : ℕ) :
    Memory.start count .pending = { Block.empty with cap := count }.grow Arr.pending.grownBy ∧
      Memory.start count .ready = { Block.empty with cap := count }.grow Arr.ready.grownBy ∧
      ∀ layer, Memory.start count (.wait layer) = .empty := by
  have hguard : ¬ ((Arrays.grow Arr.grownBy (fun _ => .empty) .cb .pending).cap ≥ count ∧
      (Arrays.grow Arr.grownBy (fun _ => .empty) .cb .pending).cap ≠ 0) := by
    rintro ⟨-, hpos⟩
    exact hpos rfl
  obtain ⟨hpending, hready, hother⟩ := extend_memory hguard
  refine ⟨hpending, hready, ?_⟩
  intro layer
  exact hother (.wait layer) nofun nofun

lemma start_fits (hcb : S₀.plugins.cb = []) :
    (Memory.start count).Fits S₀ (start S₀ world count garbage garbage') := by
  obtain ⟨hpending, hready, -⟩ := start_queues S₀ world count garbage garbage'
  obtain ⟨hpending', hready', hwait⟩ := start_memory count
  refine ⟨?_, ?_, ?_, ?_⟩
  · rw [hpending', Block.grow_cap, nextCap_eq, hpending]
  · rw [hready', Block.grow_cap, nextCap_eq, hready]
  · rw [hcb]
    exact Nat.zero_le _
  · intro layer
    rw [hwait]
    rfl

omit [Top W] in
lemma start_exact (hcount : count < 2 ^ 26) (halloc : (Memory.start count).Allocated) :
    (Memory.start count).Exact Arr.grownBy := by
  apply extend_exact _ halloc fun _ => hcount
  intro arr
  by_cases harr : arr = .cb
  · rw [harr, Arrays.grow_self]
    apply Block.empty_exact.grow (Arr.grownBy_lt .cb)
    decide +kernel
  · rw [Arrays.grow_other harr]
    exact Block.empty_exact

/-- What holds in a careful run. -/
lemma Allocating.keeps (hcount : count < 2 ^ 26)
    (hcareful : CarefulRun S₀ world count garbage garbage' calls) {S : Setup σ V W} {c : Core σ V W}
    {m : Memory} (h : Allocating S₀ world count garbage garbage' before S c m) (hbefore : before <+: calls) :
    c.Indexed S.plugins.lstack.length ∧ m.Fits S c ∧ m.Exact Arr.grownBy := by
  induction h with
  | start hcb halloc => exact ⟨start_indexed, start_fits hcb, start_exact hcount halloc⟩
  | @input before S c c' m input hrun htakes hstep halloc ih =>
    obtain ⟨hidx, hfits, hexact⟩ := ih ((List.prefix_append _ _).trans hbefore)
    have hcare := hcareful before S c m input hbefore hrun htakes
    exact step_keeps rfl hidx hfits hexact htakes hcare hstep halloc
  | @register before S c m cb hcb hrun halloc ih =>
    obtain ⟨hidx, hfits, hexact⟩ := ih ((List.prefix_append _ _).trans hbefore)
    exact ⟨hidx, register_keeps hfits hexact cb hcb halloc⟩

/-- The memory of the arrays of the core is large enough in careful runs. -/
theorem careful_allocations (hcount : count < 2 ^ 26)
    (hcareful : CarefulRun S₀ world count garbage garbage' calls) :
    AllocationsCover S₀ world count garbage garbage' calls := by
  intro before S c m hbefore hrun
  obtain ⟨hidx, hfits, hexact⟩ := hrun.keeps hcount hcareful hbefore
  refine ⟨?_, hfits, ?_, ?_⟩
  · intro arr
    apply (hexact arr).covers
    cases arr
    all_goals
      simp only [Arr.elem, Arr.grownBy]
      decide
  · intro input hinput htakes
    exact step_isSome rfl hidx htakes (hcareful before S c m input hinput hrun htakes)
  · intro cb hcb
    have hle := hfits.cb
    unfold Memory.register
    split_ifs with hfull
    · have hgrown := Block.lt_nextCap (b := m .cb)
      rw [Arrays.grow_cap]
      omega
    · omega

lemma Allocating.of_nil {S : Setup σ V W} {c : Core σ V W} {m : Memory}
    (h : Allocating S₀ world count garbage garbage' [] S c m) :
    S = S₀ ∧ c = Core.start S₀ world count garbage garbage' := by
  generalize hall : ([] : List (Call σ V W)) = all at h
  cases h with
  | start => exact ⟨rfl, rfl⟩
  | input => exact absurd hall.symm (List.concat_ne_nil _ _)
  | register => exact absurd hall.symm (List.concat_ne_nil _ _)

end Core

/-! ## Both programs -/

/-- The memory of all arrays of the server is large enough in the runs in which no client gets a point, and in
no others, and that of the core in all careful runs. -/
theorem allocations_cover {T : Type} [Add T] [Zero T] [LT T] [DecidableLT T] [Top T] [Top W] :
    (∀ (es : List (Hserver.Event T)) (s : Hserver.Server T) (m : Hserver.Memory), Hserver.Allocating es s m →
      (Hserver.AllocationsCover es ↔ ∀ e ∈ es, ¬ e.Fetched)) ∧
    ∀ (S : Setup σ V W) (world : World σ) (count : ℕ) (garbage : ℕ → ℤ) (garbage' : ℕ → HTrial V W)
      (calls : List (Core.Call σ V W)), count < 2 ^ 26 → Core.CarefulRun S world count garbage garbage' calls →
      Core.AllocationsCover S world count garbage garbage' calls := by
  constructor
  · intro es s m hrun
    exact Hserver.allocations_cover_iff hrun
  · intro S world count garbage garbage' calls hcount hcareful
    exact Core.careful_allocations hcount hcareful

/-! ### A client of each -/

/-- A client joins, and a trial is prepared for it. -/
def oneJoin : List (Core.Call Unit ℤ (WithTop ℕ)) :=
  [.input (.join none true (fun _ => 0) fun _ => emptySlot 1), .input .generate, .input .round]

lemma oneJoin_careful (world : World Unit) (garbage : ℕ → ℤ) (garbage' : ℕ → HTrial ℤ (WithTop ℕ)) :
    Core.CarefulRun oneValue world 1 garbage garbage' oneJoin := by
  intro before S c m input hbefore hrun _
  cases before with
  | nil =>
    obtain ⟨rfl, rfl⟩ := hrun.of_nil
    obtain ⟨rest, hrest⟩ := hbefore
    cases hrest
    intro hroomy
    refine absurd ⟨?_, ?_⟩ hroomy
    · rw [(Core.start_queues oneValue world 1 garbage garbage').1]
      show 1 ≤ 8
      decide
    · rw [(Core.start_queues oneValue world 1 garbage garbage').1]
      decide
  | cons call before =>
    obtain ⟨rest, hrest⟩ := hbefore
    have hmem : Core.Call.input input ∈ oneJoin.tail := by
      rw [← hrest]
      exact List.mem_append_left _ (List.mem_append_right _ List.mem_cons_self)
    obtain heq | hmem := List.mem_cons.mp hmem
    · cases heq
      trivial
    · cases List.mem_singleton.mp hmem
      trivial

theorem allocations_cover_join : Hserver.AllocationsCover (Hserver.opening) ∧
    Core.AllocationsCover oneValue { plug := (), cfg := hcfgAlloc, errmsg := none } 1 (fun _ => 0)
      (fun _ => emptySlot 1) oneJoin := by
  have hboth := allocations_cover (σ := Unit) (V := ℤ) (W := WithTop ℕ) (T := WithTop ℕ)
  obtain ⟨s, m, hrun⟩ := Hserver.fetching_allocating
  obtain ⟨s₀, m₀, hopening⟩ := hrun.of_prefix (List.prefix_append Hserver.opening _)
  constructor
  · apply (hboth.1 _ s₀ m₀ hopening).mpr
    intro e he
    simp only [Hserver.opening, List.mem_cons, List.not_mem_nil, or_false] at he
    obtain rfl | rfl | rfl := he
    all_goals exact id
  · exact hboth.2 _ _ _ _ _ _ (by decide) (oneJoin_careful _ _ _)

/-- The first point that is fetched needs more memory than `fetched` has. -/
theorem fetched_too_small : ¬ ∀ es : List (Hserver.Event (WithTop ℕ)), Hserver.AllocationsCover es := by
  intro hall
  obtain ⟨s, m, hrun⟩ := Hserver.fetching_allocating
  have hnone := (Hserver.allocations_cover_iff hrun).mp (hall _)
  have hmem : Hserver.replying .fetch (.point { id := 1, val := [] }) ∈ Hserver.fetching :=
    List.mem_append_right _ (by simp)
  apply hnone _ hmem
  exact ⟨by decide, _, rfl, rfl, rfl⟩

end ActiveHarmony
