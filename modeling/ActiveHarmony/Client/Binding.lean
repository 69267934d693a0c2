import ActiveHarmony.Client.Descriptor
import ActiveHarmony.Session.Extend
import ActiveHarmony.Signature.Usable

/-!
# Bound variables

The program declares variables of a session and binds them to its own. `ptr_bind` stores the address of a
variable at the place of its name in the signature and counts the calls; `set_values` writes through as many
addresses as there were calls. `bound_iff` says for which calls each of these addresses is one that was bound.
-/

namespace ActiveHarmony

/-- The type of `harmony_bind_int`, `harmony_bind_real` or `harmony_bind_enum`. -/
inductive BindType where
  | int | real | enum
deriving DecidableEq, Repr

namespace Bindings

variable {K P V : Type} [Field K] [LinearOrder K] [FloorRing K]

/-! ## Calls -/

variable (K P) in
/-- The calls of a program; `P` are the addresses of variables. -/
inductive Call where
  | declare (call : Declaration K)
  | bind (type : BindType) (name : Bytes) (ptr : P)

/-- The name that a call binds. -/
def Call.boundName : Call K P → Option Bytes
  | .declare _ => none
  | .bind _ name _ => some name

/-- The names of the bindings. -/
def boundNames (calls : List (Call K P)) : List Bytes := calls.filterMap Call.boundName

/-- The name that a call puts into the signature if it is not there. -/
def Call.brings : Call K P → Option Bytes
  | .declare (.int name min max _) => if max.val < min.val then none else some name
  | .declare (.real name min max _) => if max.val.lt min.val then none else some name
  | .declare (.enum name _) => some name
  | .bind _ name _ => some name

/-- The names that the calls bring up, in their order. -/
def dimensions (calls : List (Call K P)) : List Bytes := (calls.filterMap Call.brings).eraseDups

variable {calls : List (Call K P)} {c : Call K P} {name : Bytes}

omit [Field K] [LinearOrder K] [FloorRing K] in
lemma eraseDups_concat_mem {α : Type} [BEq α] [LawfulBEq α] {l : List α} {x : α} (h : x ∈ l) :
    (l ++ [x]).eraseDups = l.eraseDups := by
  have hnone : [x].removeAll l = [] := by simp [List.removeAll, h]
  rw [List.eraseDups_append, hnone, List.eraseDups_nil, List.append_nil]

omit [Field K] [LinearOrder K] [FloorRing K] in
lemma eraseDups_concat_new {α : Type} [BEq α] [LawfulBEq α] {l : List α} {x : α} (h : x ∉ l) :
    (l ++ [x]).eraseDups = l.eraseDups ++ [x] := by
  have hone : [x].removeAll l = [x] := by simp [List.removeAll, h]
  rw [List.eraseDups_append, hone]
  rfl

lemma boundNames_concat : boundNames (calls ++ [c]) = boundNames calls ++ c.boundName.toList := by
  unfold boundNames
  rw [List.filterMap_append]
  cases h : c.boundName <;> simp [h]

lemma mem_dimensions : name ∈ dimensions calls ↔ name ∈ calls.filterMap Call.brings := List.mem_eraseDups

/-- A call brings up one more name, or none that is new. -/
lemma dimensions_concat (calls : List (Call K P)) (c : Call K P) :
    (dimensions (calls ++ [c]) = dimensions calls ∧
      ∀ name, c.brings = some name → name ∈ dimensions calls) ∨
    ∃ name, c.brings = some name ∧ name ∉ dimensions calls ∧
      dimensions (calls ++ [c]) = dimensions calls ++ [name] := by
  cases hbrings : c.brings with
  | none =>
    left
    refine ⟨?_, fun name hname => by cases hname⟩
    unfold dimensions
    rw [List.filterMap_append]
    simp [hbrings]
  | some name =>
    have hmore : (calls ++ [c]).filterMap Call.brings = calls.filterMap Call.brings ++ [name] := by
      rw [List.filterMap_append]
      simp [hbrings]
    by_cases hmem : name ∈ calls.filterMap Call.brings
    · left
      constructor
      · unfold dimensions
        rw [hmore, eraseDups_concat_mem hmem]
      · rintro name' hname'
        cases hname'
        exact mem_dimensions.mpr hmem
    · right
      refine ⟨name, rfl, fun h => hmem (mem_dimensions.mp h), ?_⟩
      unfold dimensions
      rw [hmore, eraseDups_concat_new hmem]

lemma dimensions_getElem? {i : ℕ} (h : (dimensions calls)[i]? = some name) :
    (dimensions (calls ++ [c]))[i]? = some name := by
  obtain ⟨hsame, -⟩ | ⟨name', -, -, hmore⟩ := dimensions_concat calls c
  · rw [hsame]
    exact h
  · rw [hmore, List.getElem?_append_left (List.getElem?_eq_some_iff.mp h).1]
    exact h

lemma dimensions_length (calls : List (Call K P)) (c : Call K P) :
    (dimensions (calls ++ [c])).length ≤ (dimensions calls).length + 1 := by
  obtain ⟨hsame, -⟩ | ⟨name', -, -, hmore⟩ := dimensions_concat calls c
  · rw [hsame]
    omega
  · rw [hmore, List.length_append, List.length_singleton]

lemma boundNames_subset : boundNames calls ⊆ dimensions calls := by
  intro name hname
  obtain ⟨c, hc, hbound⟩ := List.mem_filterMap.mp hname
  apply mem_dimensions.mpr
  apply List.mem_filterMap.mpr
  refine ⟨c, hc, ?_⟩
  cases c with
  | declare => cases hbound
  | bind => exact hbound

lemma nodup_dimensions (calls : List (Call K P)) : (dimensions calls).Nodup := by
  induction calls using List.reverseRecOn with
  | nil => exact List.nodup_nil
  | append_singleton calls c ih =>
    obtain ⟨hsame, -⟩ | ⟨name, -, hnew, hmore⟩ := dimensions_concat calls c
    · rw [hsame]
      exact ih
    · rw [hmore]
      exact List.nodup_append.mpr ⟨ih, List.nodup_singleton name, fun a ha b hb hab =>
        hnew (List.mem_singleton.mp hb ▸ hab ▸ ha)⟩

end Bindings

/-! ## The descriptor -/

variable {K P V : Type} [Field K] [LinearOrder K] [IsStrictOrderedRing K] [FloorRing K]

/-- `0.0`. -/
def Double.zero : Double K where
  val := .fin 0
  rounded := binary64.ofExact_zero

/-- The type of a range that a binding adds, with bounds in cleared memory. -/
def BindType.bounds : BindType → HBounds (Double K)
  | .int => .int 0 0 0
  | .real => .real Double.zero Double.zero Double.zero
  | .enum => .str []

variable (K P) in
/-- The fields of `hdesc_t` for the variables. `ptr_cap` is the length of `ptr`; a cell is `none` if nothing
has been stored there. -/
structure Bindings where
  sig : HSignature (Double K)
  rangeCap : ℕ
  ptr : List (Option P)
  ptrLen : ℕ
  errstr : Option Bytes

namespace Bindings

/-- The fields after `harmony_init`. -/
def initial : Bindings K P where
  sig := ⟨none, []⟩
  rangeCap := 0
  ptr := []
  ptrLen := 0
  errstr := none

/-- `harmony_int`, `harmony_real` and `harmony_enum`. A new range can need a greater array. -/
def declared (d : Bindings K P) (call : Declaration K) : ℤ × Bindings K P :=
  let (sig, ret) := declare d.sig call
  let rangeCap := if d.rangeCap < sig.range.length then grownCap d.rangeCap else d.rangeCap
  (ret, { d with sig := sig, rangeCap := rangeCap })

/-- `ptr_bind`. -/
def ptrBind (d : Bindings K P) (name : Bytes) (type : BindType) (ptr : P) : ℤ × Bindings K P :=
  let i := d.sig.range.findIdx fun range => range.name = some name
  let rangeCap := if i = d.rangeCap then grownCap d.rangeCap else d.rangeCap
  let range := if i = d.sig.range.length then d.sig.range ++ [⟨some name, type.bounds⟩] else d.sig.range
  let cells := d.ptr ++ List.replicate (rangeCap - d.ptr.length) none
  (0, { d with
    sig := { d.sig with range := range }
    rangeCap := rangeCap
    ptr := cells.set i (some ptr)
    ptrLen := d.ptrLen + 1 })

/-- `hdesc->ptr[i]`; it is `none` also outside of the allocation. -/
def cell (d : Bindings K P) (i : ℕ) : Option P := (d.ptr[i]?).join

/-- The loop of `set_values`, for the values from the dimension `i` on. It writes values through addresses of
dimensions. -/
def writeVals (d : Bindings K P) : ℕ → List (HVal V) → ℤ × List (ℕ × Option P × HVal V)
  | _, [] => (0, [])
  | _, .unknown :: _ => (-1, [])
  | i, val :: vals => ((d.writeVals (i + 1) vals).1, (i, d.cell i, val) :: (d.writeVals (i + 1) vals).2)

/-- `set_values`. -/
def setValues (d : Bindings K P) (pt : HPoint V) : ℤ × Bindings K P × List (ℕ × Option P × HVal V) :=
  if d.ptrLen ≠ pt.val.length then
    (-1, { d with errstr := some (cstr "Invalid internal point structure.") }, [])
  else
    let (ret, writes) := d.writeVals 0 pt.val
    if ret ≠ 0 then
      (-1, { d with errstr := some (cstr "Internal error: Invalid signature value type.") }, writes)
    else (0, d, writes)

/-- One call and its return value. -/
def call (d : Bindings K P) : Call K P → ℤ × Bindings K P
  | .declare call => d.declared call
  | .bind type name ptr => d.ptrBind name type ptr

/-- The descriptor after the calls. -/
def callAll (calls : List (Call K P)) : Bindings K P := calls.foldl (fun d c => (d.call c).2) initial

/-- The address was supplied by a binding of the dimension. -/
def Supplied (calls : List (Call K P)) (write : ℕ × Option P × HVal V) : Prop :=
  ∃ type name ptr, ((callAll calls).sig.range.map HRange.name)[write.1]? = some (some name) ∧
    .bind type name ptr ∈ calls ∧ write.2.1 = some ptr

variable (V) in
/-- `ptr_len` counts the bound names, and `set_values` writes through supplied addresses if it returns 0. -/
def Bound (calls : List (Call K P)) : Prop :=
  (callAll calls).ptrLen = (boundNames calls).dedup.length ∧
    ∀ (pt : HPoint V) d' writes, (callAll calls).setValues pt = (0, d', writes) →
      ∀ write ∈ writes, Supplied calls write

/-! ## One call -/

variable {d : Bindings K P} {calls : List (Call K P)} {c : Call K P} {name : Bytes}

lemma callAll_concat : callAll (calls ++ [c]) = ((callAll calls).call c).2 := by
  unfold callAll
  rw [List.foldl_append]
  rfl

omit [IsStrictOrderedRing K] in
lemma hrangeFind_some {sig : HSignature (Double K)} (h : hrangeFind sig name ≠ none) :
    some name ∈ sig.range.map HRange.name := by
  obtain ⟨i, hi⟩ := Option.ne_none_iff_exists'.mp h
  obtain ⟨hlt, hname, -⟩ := List.findIdx?_eq_some_iff_getElem.mp hi
  exact List.mem_map.mpr ⟨_, List.getElem_mem hlt, of_decide_eq_true hname⟩

omit [IsStrictOrderedRing K] in
lemma enumAdd_names (sig : HSignature (Double K)) (i : ℕ) (value : Bytes) :
    (enumAdd sig i value).1.range.map HRange.name = sig.range.map HRange.name := by
  obtain hfail | ⟨name, set, -, -, hadd⟩ := enumAdd_cases sig i value
  · rw [hfail]
  · rw [hadd]
    exact setBounds_names _ _ _

omit [IsStrictOrderedRing K] in
lemma push_names (sig : HSignature (Double K)) (name : Bytes) (bounds : HBounds (Double K)) :
    (sig.push name bounds).range.map HRange.name = sig.range.map HRange.name ++ [some name] := by
  unfold HSignature.push
  rw [List.map_append]
  rfl

omit [IsStrictOrderedRing K] in
/-- A declaration puts the name that it brings up into the signature. -/
lemma declare_names (sig : HSignature (Double K)) (call : Declaration K) :
    ((declare sig call).1.range.map HRange.name = sig.range.map HRange.name ∧
      ∀ name, (.declare call : Call K P).brings = some name → some name ∈ sig.range.map HRange.name) ∨
    ∃ name, (.declare call : Call K P).brings = some name ∧ some name ∉ sig.range.map HRange.name ∧
      (declare sig call).1.range.map HRange.name = sig.range.map HRange.name ++ [some name] := by
  unfold declare Call.brings
  cases call with
  | int name min max step =>
    simp only
    unfold hsignatureInt
    by_cases hlt : max.val < min.val
    · rw [if_pos hlt, if_pos hlt]
      exact Or.inl ⟨rfl, fun name hname => by cases hname⟩
    rw [if_neg hlt, if_neg hlt]
    by_cases hfind : hrangeFind sig name = none
    · rw [hrangeAdd_of_find hfind]
      simp only
      rw [setBounds_push]
      exact Or.inr ⟨name, rfl, hrangeFind_none hfind, push_names sig name _⟩
    · rw [hrangeAdd_isSome hfind]
      refine Or.inl ⟨rfl, fun name' hname' => ?_⟩
      cases hname'
      exact hrangeFind_some hfind
  | real name min max step =>
    simp only
    unfold hsignatureReal
    by_cases hlt : max.val.lt min.val = true
    · rw [if_pos hlt, if_pos hlt]
      exact Or.inl ⟨rfl, fun name hname => by cases hname⟩
    rw [if_neg hlt, if_neg hlt]
    by_cases hfind : hrangeFind sig name = none
    · rw [hrangeAdd_of_find hfind]
      simp only
      rw [setBounds_push]
      exact Or.inr ⟨name, rfl, hrangeFind_none hfind, push_names sig name _⟩
    · rw [hrangeAdd_isSome hfind]
      refine Or.inl ⟨rfl, fun name' hname' => ?_⟩
      cases hname'
      exact hrangeFind_some hfind
  | enum name value =>
    simp only
    unfold hsignatureEnum
    cases hfind : hrangeFind sig name with
    | none =>
      rw [hrangeAdd_of_find hfind]
      simp only
      rw [setBounds_push, enumAdd_names]
      exact Or.inr ⟨name, rfl, hrangeFind_none hfind, push_names sig name _⟩
    | some i =>
      refine Or.inl ⟨enumAdd_names sig i value, fun name' hname' => ?_⟩
      cases hname'
      exact hrangeFind_some (by rw [hfind]; exact Option.some_ne_none i)

/-- A binding fills one cell, which is in the array. -/
lemma cell_ptrBind (d : Bindings K P) (name : Bytes) (type : BindType) (ptr : P)
    (hroom : d.sig.range.findIdx (fun range => range.name = some name) ≤ d.rangeCap) (i : ℕ) :
    (d.ptrBind name type ptr).2.cell i
      = if i = d.sig.range.findIdx (fun range => range.name = some name) then some ptr else d.cell i := by
  generalize hplace : d.sig.range.findIdx (fun range => range.name = some name) = place at hroom
  have hgrown : place < if place = d.rangeCap then grownCap d.rangeCap else d.rangeCap := by
    unfold grownCap
    split_ifs
    all_goals omega
  unfold cell ptrBind
  simp only [hplace]
  generalize (if place = d.rangeCap then grownCap d.rangeCap else d.rangeCap) = cap at hgrown
  rw [List.getElem?_set]
  by_cases hi : i = place
  · rw [if_pos hi.symm, if_pos hi, if_pos]
    · rfl
    · rw [List.length_append, List.length_replicate]
      omega
  · rw [if_neg (Ne.symm hi), if_neg hi, List.getElem?_append]
    split_ifs with hlt
    · rfl
    · rw [List.getElem?_replicate, List.getElem?_eq_none (by omega)]
      split_ifs
      all_goals rfl

/-- What holds after the calls. -/
structure After (calls : List (Call K P)) (d : Bindings K P) : Prop where
  cap : d.sig.range.length ≤ d.rangeCap
  names : d.sig.range.map HRange.name = (dimensions calls).map some
  count : d.ptrLen = (boundNames calls).length
  stored : ∀ i ptr, d.cell i = some ptr →
    ∃ type name, (dimensions calls)[i]? = some name ∧ .bind type name ptr ∈ calls
  bound : ∀ i name, (dimensions calls)[i]? = some name → name ∈ boundNames calls → d.cell i ≠ none

namespace After

section

omit [IsStrictOrderedRing K]

lemma length (h : After calls d) : d.sig.range.length = (dimensions calls).length := by
  have hlen := congrArg List.length h.names
  rw [List.length_map, List.length_map] at hlen
  exact hlen

lemma mem_names (h : After calls d) : some name ∈ d.sig.range.map HRange.name ↔ name ∈ dimensions calls := by
  rw [h.names, List.mem_map]
  constructor
  · rintro ⟨name', hname', heq⟩
    rwa [← Option.some.inj heq]
  · intro hname
    exact ⟨name, hname, rfl⟩

/-- The place of a name in the signature. -/
lemma findIdx (h : After calls d) (name : Bytes) :
    d.sig.range.findIdx (fun range => range.name = some name)
      = (dimensions calls).findIdx (fun name' => name' = name) := by
  have hnames := congrArg (List.findIdx fun name' => decide (name' = some name)) h.names
  rw [List.findIdx_map, List.findIdx_map] at hnames
  refine hnames.trans ?_
  congr 1
  funext name'
  simp

/-- One more call: the other cells stay, and a binding fills the cell of its name. -/
lemma concat (h : After calls d) {d' : Bindings K P} (hcap : d'.sig.range.length ≤ d'.rangeCap)
    (hnames : d'.sig.range.map HRange.name = (dimensions (calls ++ [c])).map some)
    (hlen : d'.ptrLen = d.ptrLen + c.boundName.toList.length)
    (hcell : ∀ i, d'.cell i = d.cell i ∨ ∃ type name ptr, c = .bind type name ptr ∧
      (dimensions (calls ++ [c]))[i]? = some name ∧ d'.cell i = some ptr)
    (hfills : ∀ i name, c.boundName = some name → (dimensions (calls ++ [c]))[i]? = some name →
      d'.cell i ≠ none) : After (calls ++ [c]) d' := by
  refine ⟨hcap, hnames, ?_, ?_, ?_⟩
  · rw [hlen, h.count, boundNames_concat, List.length_append]
  · intro i ptr hi
    obtain hsame | ⟨type, name, ptr', rfl, hname, hptr⟩ := hcell i
    · rw [hsame] at hi
      obtain ⟨type, name, hname, hmem⟩ := h.stored i ptr hi
      exact ⟨type, name, dimensions_getElem? hname, List.mem_append_left _ hmem⟩
    · rw [hptr] at hi
      obtain rfl := Option.some.inj hi
      exact ⟨type, name, hname, List.mem_append_right _ (List.mem_singleton_self _)⟩
  · intro i name hname hmem
    rw [boundNames_concat, List.mem_append] at hmem
    obtain hold | hnew := hmem
    · obtain ⟨j, hj⟩ := List.mem_iff_getElem?.mp (boundNames_subset hold)
      have hj' := dimensions_getElem? (c := c) hj
      have hlt := (List.getElem?_eq_some_iff.mp hj').1
      obtain rfl := (List.getElem?_inj hlt (nodup_dimensions _)).mp (hj'.trans hname.symm)
      obtain hsame | ⟨_, _, _, -, -, hptr⟩ := hcell j
      · rw [hsame]
        exact h.bound j name hj hold
      · rw [hptr]
        exact Option.some_ne_none _
    · exact hfills i name (Option.mem_toList.mp hnew) hname

/-- The names of the signature after a declaration. -/
lemma declare_names (h : After calls d) (call : Declaration K) :
    (ActiveHarmony.declare d.sig call).1.range.map HRange.name
      = (dimensions (calls ++ [.declare call])).map some := by
  obtain ⟨hsame, hin⟩ | ⟨name, hbrings, hnew, hmore⟩ := Bindings.declare_names (P := P) d.sig call
  · obtain ⟨hdims, -⟩ | ⟨name, hbrings, hnew, -⟩ := dimensions_concat calls (.declare call)
    · rw [hsame, hdims]
      exact h.names
    · exact absurd (h.mem_names.mp (hin name hbrings)) hnew
  · obtain ⟨-, hin⟩ | ⟨name', hbrings', -, hdims⟩ := dimensions_concat calls (.declare call)
    · exact absurd (h.mem_names.mpr (hin name hbrings)) hnew
    · rw [hbrings] at hbrings'
      obtain rfl := Option.some.inj hbrings'
      rw [hmore, hdims, h.names, List.map_append]
      rfl

lemma declare (h : After calls d) (call : Declaration K) :
    After (calls ++ [.declare call]) (d.declared call).2 := by
  have hnames := h.declare_names call
  have hcap := h.cap
  apply h.concat
  · have hlen := congrArg List.length hnames
    rw [List.length_map, List.length_map] at hlen
    have hmore := dimensions_length calls (.declare call)
    rw [← hlen, ← h.length] at hmore
    unfold declared grownCap
    simp only
    split_ifs
    all_goals omega
  · exact hnames
  · rfl
  · intro i
    exact Or.inl rfl
  · intro i name hc
    cases hc

end

/-- The place of a name that is bound. -/
lemma bind_place (h : After calls d) (type : BindType) (name : Bytes) (ptr : P) :
    (dimensions (calls ++ [.bind type name ptr]))[
        d.sig.range.findIdx fun range => range.name = some name]? = some name ∧
      (d.ptrBind name type ptr).2.sig.range.map HRange.name
        = (dimensions (calls ++ [.bind type name ptr])).map some := by
  rw [h.findIdx name]
  unfold ptrBind
  simp only
  rw [h.findIdx name, h.length]
  obtain ⟨hsame, hin⟩ | ⟨name', hbrings, hnew, hmore⟩ := dimensions_concat calls (.bind type name ptr)
  · have hmem := hin name rfl
    have hlt : (dimensions calls).findIdx (fun name' => name' = name) < (dimensions calls).length :=
      List.findIdx_lt_length_of_exists ⟨name, hmem, by simp⟩
    rw [hsame, if_neg (by omega)]
    refine ⟨?_, h.names⟩
    rw [List.getElem?_eq_getElem hlt]
    have hfound := List.findIdx_getElem (w := hlt)
    rw [of_decide_eq_true hfound]
  · obtain rfl : name = name' := Option.some.inj hbrings
    have hend : (dimensions calls).findIdx (fun name' => name' = name) = (dimensions calls).length := by
      apply List.findIdx_eq_length_of_false
      intro name' hname'
      apply decide_eq_false
      rintro rfl
      exact hnew hname'
    rw [hend, if_pos rfl, hmore, List.map_append, List.map_append, h.names]
    refine ⟨?_, rfl⟩
    rw [List.getElem?_append_right (le_refl _), Nat.sub_self]
    rfl

lemma bind (h : After calls d) (type : BindType) (name : Bytes) (ptr : P) :
    After (calls ++ [.bind type name ptr]) (d.ptrBind name type ptr).2 := by
  obtain ⟨hplace, hnames⟩ := h.bind_place type name ptr
  have hcap := h.cap
  have hle : d.sig.range.findIdx (fun range => range.name = some name) ≤ d.sig.range.length :=
    List.findIdx_le_length
  have hcell := d.cell_ptrBind name type ptr (hle.trans hcap)
  apply h.concat _ hnames rfl
  · intro i
    rw [hcell i]
    by_cases hi : i = d.sig.range.findIdx fun range => range.name = some name
    · rw [if_pos hi, hi]
      exact Or.inr ⟨type, name, ptr, rfl, hplace, rfl⟩
    · rw [if_neg hi]
      exact Or.inl rfl
  · intro i name' hname' hi
    obtain rfl : name = name' := Option.some.inj hname'
    have hlt := (List.getElem?_eq_some_iff.mp hplace).1
    have hsame := (List.getElem?_inj hlt (nodup_dimensions _)).mp (hplace.trans hi.symm)
    rw [hcell i, if_pos hsame.symm]
    exact Option.some_ne_none ptr
  · unfold ptrBind grownCap
    simp only [apply_ite List.length, List.length_append, List.length_singleton]
    split_ifs
    all_goals omega

end After

/-! ## All calls -/

lemma after_callAll (calls : List (Call K P)) : After calls (callAll calls) := by
  induction calls using List.reverseRecOn with
  | nil =>
    refine ⟨le_refl _, rfl, rfl, ?_, ?_⟩
    · intro i ptr hi
      cases hi
    · intro i name hname
      cases hname
  | append_singleton calls c ih =>
    rw [callAll_concat]
    cases c with
    | declare call => exact ih.declare call
    | bind type name ptr => exact ih.bind type name ptr

/-- An address was supplied for a dimension exactly if the name of the dimension was bound. -/
lemma supplied_iff {i : ℕ} (val : HVal V) :
    Supplied calls (i, (callAll calls).cell i, val) ↔
      ∃ name, (dimensions calls)[i]? = some name ∧ name ∈ boundNames calls := by
  have hafter := after_callAll calls
  unfold Supplied
  constructor
  · rintro ⟨type, name, ptr, hname, hmem, -⟩
    rw [hafter.names, List.getElem?_map] at hname
    obtain ⟨name', hname', heq⟩ := Option.map_eq_some_iff.mp hname
    obtain rfl := Option.some.inj heq
    exact ⟨name', hname', List.mem_filterMap.mpr ⟨_, hmem, rfl⟩⟩
  · rintro ⟨name, hname, hbound⟩
    obtain ⟨ptr, hptr⟩ := Option.ne_none_iff_exists'.mp (hafter.bound i name hname hbound)
    obtain ⟨type, name', hname', hmem⟩ := hafter.stored i ptr hptr
    refine ⟨type, name', ptr, ?_, hmem, hptr⟩
    rw [hafter.names, List.getElem?_map, hname']
    rfl

omit [IsStrictOrderedRing K] in
/-- The writes of `set_values` go through the cells of the dimensions. -/
lemma writeVals_cell {vals : List (HVal V)} {i : ℕ} {writes : List (ℕ × Option P × HVal V)}
    (h : d.writeVals i vals = (0, writes)) :
    ∀ write ∈ writes, write.1 < i + vals.length ∧ write.2.1 = d.cell write.1 := by
  induction vals generalizing i writes with
  | nil =>
    cases h
    exact List.forall_mem_nil _
  | cons val vals ih =>
    cases val with
    | unknown => cases h
    | _ =>
      unfold writeVals at h
      obtain ⟨hret, rfl⟩ := Prod.mk.inj h
      have hrest := ih (Prod.ext hret rfl)
      intro write hwrite
      rw [List.length_cons]
      obtain rfl | hwrite := List.mem_cons.mp hwrite
      · exact ⟨by omega, rfl⟩
      · obtain ⟨hlt, hcell⟩ := hrest write hwrite
        exact ⟨by omega, hcell⟩

omit [IsStrictOrderedRing K] in
/-- A point of integers is written through all cells. -/
lemma writeVals_ints (d : Bindings K P) (i n : ℕ) :
    d.writeVals i (List.replicate n (.int 0 : HVal V))
      = (0, (List.range' i n).map fun j => (j, d.cell j, .int 0)) := by
  induction n generalizing i with
  | zero => rfl
  | succ n ih =>
    rw [List.replicate_succ, List.range'_succ, List.map_cons]
    unfold writeVals
    rw [ih]

/-- All writes are supplied exactly if the dimensions that are written were bound. -/
lemma writes_supplied_iff : (∀ (pt : HPoint V) d' writes, (callAll calls).setValues pt = (0, d', writes) →
      ∀ write ∈ writes, Supplied calls write) ↔
    ∀ i < (boundNames calls).length, ∃ name, (dimensions calls)[i]? = some name ∧
      name ∈ boundNames calls := by
  have hcount := (after_callAll calls).count
  constructor
  · intro hwrites i hi
    have hset : (callAll calls).setValues
        { id := 1, val := List.replicate (callAll calls).ptrLen (.int 0 : HVal V) }
          = (0, callAll calls, (List.range' 0 (callAll calls).ptrLen).map fun j =>
            (j, (callAll calls).cell j, .int 0)) := by
      unfold setValues
      rw [if_neg (by simp)]
      simp only [writeVals_ints]
      rfl
    refine (supplied_iff _).mp (hwrites _ _ _ hset (i, (callAll calls).cell i, .int 0) ?_)
    refine List.mem_map.mpr ⟨i, ?_, rfl⟩
    rw [List.mem_range'_1]
    omega
  · intro hbound pt d' writes hset write hwrite
    unfold setValues at hset
    by_cases hlen : (callAll calls).ptrLen = pt.val.length
    · rw [if_neg (not_not_intro hlen)] at hset
      rcases hvals : (callAll calls).writeVals 0 pt.val with ⟨ret, writes'⟩
      rw [hvals] at hset
      by_cases hret : ret ≠ 0
      · simp only [if_pos hret] at hset
        cases hset
      simp only [if_neg hret] at hset
      obtain rfl : writes' = writes := congrArg (fun res => res.2.2) hset
      rw [not_not.mp hret] at hvals
      obtain ⟨hlt, hcell⟩ := writeVals_cell hvals write hwrite
      have hsupplied := (supplied_iff write.2.2).mpr (hbound write.1 (by omega))
      rw [← hcell] at hsupplied
      exact hsupplied
    · rw [if_pos hlen] at hset
      cases hset

/-- Bindings do what they should exactly if no name is bound twice, and the bound names come first. -/
theorem bound_iff (calls : List (Call K P)) : Bound V calls ↔ (boundNames calls).Nodup ∧
    ∀ name ∈ (dimensions calls).take (boundNames calls).length, name ∈ boundNames calls := by
  unfold Bound
  rw [writes_supplied_iff, (after_callAll calls).count]
  have hcount : (boundNames calls).length = (boundNames calls).dedup.length ↔ (boundNames calls).Nodup := by
    constructor
    · intro hlen
      rw [← (List.dedup_sublist _).eq_of_length hlen.symm]
      exact List.nodup_dedup _
    · intro hnodup
      rw [hnodup.dedup]
  rw [hcount]
  apply and_congr_right
  intro hnodup
  have hle : (boundNames calls).length ≤ (dimensions calls).length :=
    (hnodup.subperm boundNames_subset).length_le
  constructor
  · intro hbound name hname
    obtain ⟨i, hi⟩ := List.mem_iff_getElem?.mp hname
    rw [List.getElem?_take] at hi
    split_ifs at hi with hlt
    obtain ⟨name', hname', hmem⟩ := hbound i hlt
    rw [hi] at hname'
    rw [Option.some.inj hname']
    exact hmem
  · intro hfirst i hi
    have hdim : i < (dimensions calls).length := by omega
    refine ⟨(dimensions calls)[i], List.getElem?_eq_getElem hdim, ?_⟩
    apply hfirst
    rw [List.mem_take_iff_getElem]
    exact ⟨i, by omega, rfl⟩

/-- The descriptor that has the values of the variables instead of their addresses follows. -/
theorem ptrBind_descriptor {h : Descriptor (Double K)} (hsig : h.sig = d.sig)
    (hlen : h.vars.length = d.ptrLen) (name : Bytes) (type : BindType) (ptr : P) (var : HVal (Double K)) :
    (h.ptrBind name type.bounds var).2.sig = (d.ptrBind name type ptr).2.sig ∧
      (h.ptrBind name type.bounds var).2.vars.length = (d.ptrBind name type ptr).2.ptrLen := by
  have hany : d.sig.range.any (fun range => range.name == some name) = true ↔
      d.sig.range.findIdx (fun range => range.name = some name) ≠ d.sig.range.length := by
    rw [Ne, List.findIdx_eq_length, List.any_eq_true]
    simp
  unfold Descriptor.ptrBind ptrBind
  simp only [hsig]
  constructor
  · by_cases hfound : d.sig.range.any (fun range => range.name == some name) = true
    · rw [if_pos hfound, if_neg (hany.mp hfound)]
    · rw [if_neg hfound, if_pos (not_not.mp fun hne => hfound (hany.mpr hne))]
  · rw [List.length_append, hlen]
    rfl

/-! ### Two variables -/

/-- The name is declared as an integer. -/
def declareInt (name : Bytes) : Call ℚ ℕ := .declare (.int name ⟨0, by decide⟩ ⟨9, by decide⟩ ⟨1, by decide⟩)

/-- Both variables are bound, each one once. -/
theorem bound_both : Bound ℤ [declareInt (cstr "x"), declareInt (cstr "y"), .bind .int (cstr "y") 2,
    .bind .int (cstr "x") 1] := by
  apply (bound_iff _).mpr
  decide +kernel

/-- With `y` bound twice `set_values` writes through the cell of `x`, which nobody has filled. -/
theorem second_binding_counts : ¬ ∀ calls : List (Call ℚ ℕ), Bound ℤ calls := by
  intro hclaim
  have hcount := (hclaim [declareInt (cstr "x"), declareInt (cstr "y"), .bind .int (cstr "y") 2,
    .bind .int (cstr "y") 2]).1
  rw [(after_callAll _).count] at hcount
  exact absurd hcount (by decide +kernel)

end Bindings

end ActiveHarmony
