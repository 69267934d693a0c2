import ActiveHarmony.CString

/-!
# The configuration store of `hcfg.c`

The store is an open-addressing hash table with linear probing. `Hcfg` keeps the array of
cells, the number of entries and the logarithm of the number of cells; `unsigned int`
arithmetic is modulo `2 ^ 32`. Memory allocation is taken to succeed.

A search loop of the source that may not end is a recursion on a number of cells to look at;
`none` is returned where the source loops for ever (`hashResize` into a full table).
-/

namespace ActiveHarmony

/-- `keyval_t` with a non-`NULL` key. -/
structure KeyVal where
  key : Bytes
  val : Bytes
deriving DecidableEq, Repr

/-- `struct hcfg`. A cell whose `key` is `NULL` is `none`. -/
structure Hcfg where
  hash : List (Option KeyVal)
  count : ℕ
  logsize : ℕ
deriving DecidableEq, Repr

/-- The cell with number `idx`. -/
def Hcfg.cell (cfg : Hcfg) (idx : ℕ) : Option KeyVal := cfg.hash.getD idx none

def hashGrowthThresh : ℕ := 50
def configInitialLogsize : ℕ := 8

def fnvPrime32 : ℕ := 0x01000193
def fnvOffsetBasis : ℕ := 0x811C9DC5

/-- `hash_function`: FNV-1a on the lower-case letters, folded to `logsize` bits. -/
def hashFunction (input : Bytes) (logsize : ℕ) : ℕ :=
  let hash := input.foldl
    (fun hash c => (hash ^^^ charToUnsigned (tolower c)) * fnvPrime32 % 2 ^ 32) fnvOffsetBasis
  ((hash >>> logsize) ^^^ hash) &&& (1 <<< logsize - 1)

/-- `hash_init`. -/
def hashInit (logsize : ℕ) : List (Option KeyVal) := List.replicate (1 <<< logsize) none

/-- The loop of `hash_find`, with at most `fuel` cells left to look at. -/
def hashFindLoop (cell : ℕ → Option KeyVal) (key : Bytes) (capacity origIdx : ℕ) :
    ℕ → ℕ → Option ℕ
  | 0, _ => none
  | fuel + 1, idx =>
    match cell idx with
    | none => some idx
    | some entry =>
      if strcaseEq key entry.key then some idx
      else
        let idx := (idx + 1) % capacity
        if idx = origIdx then none else hashFindLoop cell key capacity origIdx fuel idx

/-- `hash_find`: the number of the cell it points to. -/
def hashFind (cfg : Hcfg) (key : Bytes) : Option ℕ :=
  let capacity := 1 <<< cfg.logsize
  let origIdx := hashFunction key cfg.logsize
  hashFindLoop cfg.cell key capacity origIdx capacity origIdx

/-- `while (new_hash[idx].key != NULL) idx = (idx + 1) % new_size;` -/
def firstFree (newHash : List (Option KeyVal)) (newSize : ℕ) : ℕ → ℕ → Option ℕ
  | 0, _ => none
  | fuel + 1, idx =>
    if (newHash.getD idx none).isNone then some idx
    else firstFree newHash newSize fuel ((idx + 1) % newSize)

/-- One round of the loop of `hash_resize`, for one cell of the old table. -/
def hashResizeCell (newLogsize : ℕ) (newHash : List (Option KeyVal)) :
    Option KeyVal → Option (List (Option KeyVal))
  | none => some newHash
  | some entry =>
    let newSize := 1 <<< newLogsize
    (firstFree newHash newSize newSize (hashFunction entry.key newLogsize)).map
      fun idx => newHash.set idx (some entry)

/-- `hash_resize`. -/
def hashResize (cfg : Hcfg) (newLogsize : ℕ) : Option Hcfg :=
  if newLogsize = cfg.logsize then some cfg
  else
    (cfg.hash.foldlM (hashResizeCell newLogsize) (hashInit newLogsize)).map
      fun newHash => { cfg with hash := newHash, logsize := newLogsize }

/-- `hash_insert`: the return value and the new table. -/
def hashInsert (cfg : Hcfg) (key val : Bytes) : Option (Int × Hcfg) :=
  match hashFind cfg key with
  | none => some (-1, cfg)
  | some idx =>
    match cfg.cell idx with
    | none =>
      -- New entry case.
      let count := (cfg.count + 1) % 2 ^ 32
      let cfg := { cfg with hash := cfg.hash.set idx (some ⟨key, val⟩), count := count }
      if count * 100 % 2 ^ 32 / 1 <<< cfg.logsize > hashGrowthThresh then
        (hashResize cfg (cfg.logsize + 1)).map fun cfg => (0, cfg)
      else some (0, cfg)
    | some entry =>
      -- Value replacement case.
      some (0, { cfg with hash := cfg.hash.set idx (some { entry with val := val }) })

/-- `hash_delete`. The cell is emptied in place. -/
def hashDelete (cfg : Hcfg) (key : Bytes) : Int × Hcfg :=
  match hashFind cfg key with
  | none => (-1, cfg)
  | some idx =>
    match cfg.cell idx with
    | none => (0, cfg)
    | some _ =>
      (0, { cfg with hash := cfg.hash.set idx none, count := (cfg.count + 2 ^ 32 - 1) % 2 ^ 32 })

/-- `hcfg_alloc`. -/
def hcfgAlloc : Hcfg :=
  { hash := hashInit configInitialLogsize, count := 0, logsize := configInitialLogsize }

/-- `hcfg_get`. -/
def hcfgGet (cfg : Hcfg) (key : Bytes) : Option Bytes :=
  match hashFind cfg key with
  | none => none
  | some idx => (cfg.cell idx).map KeyVal.val

/-- `hcfg_set`. -/
def hcfgSet (cfg : Hcfg) (key : Bytes) (val : Option Bytes) : Option (Int × Hcfg) :=
  match val with
  | none => some (hashDelete cfg key)
  | some val => hashInsert cfg key val

/-- `hcfg_unset`. -/
def hcfgUnset (cfg : Hcfg) (key : Bytes) : Int × Hcfg := hashDelete cfg key

end ActiveHarmony
