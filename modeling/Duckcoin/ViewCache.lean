/-
Duckcoin.ViewCache — `CBreadcrumbsViewCache`, the in-memory cache over a
backing view (coins.h, coins.cpp): `FetchBreadcrumbs` and the reads built
on it, `ModifyBreadcrumbs` with the `CBreadcrumbsModifier` it hands out,
`BatchWrite`, `Flush`, `GetCacheSize`, the best-block hash, and the input
helpers `GetOutputFor`, `GetValueIn`, `HaveInputs` and `GetPriority`.

Translation notes. `CBreadcrumbsMap` is an association list (`AList`): a
txid has at most one entry, and `BatchWrite` visits the entries in list
order, erasing each one it has handled, so the map it hands back is empty.
The flags byte of `CBreadcrumbsCacheEntry` is its two bits `DIRTY` and
`FRESH`. The backing view `base` is a parameter: its state `b : σ`, and
`getBase`, what `base->GetBreadcrumbs(txid, ..)` returns in that state
together with the state it leaves (a cache below fetches too, and a test
view draws random numbers). The loops of `GetValueIn`, `HaveInputs` and
`GetPriority` call the base repeatedly and take it as a function of its
state. A `CBreadcrumbsModifier` is the key its iterator `it` points at; the
iterator dangles once that entry is gone. A failed `assert`, and a
dangling iterator, are `none`. `CAmount` arithmetic wraps at 64 bits and
`int` arithmetic at 32 (`toSigned`); `double` is `Float`, and
`CTransaction::ComputePriority`, not part of this source tree, is a
parameter.
-/
import Duckcoin.Breadcrumbs
import Mathlib.Data.List.AList

namespace Duckcoin

/-- The value of a signed `w`-bit integer type that `x` wraps to. -/
def toSigned (w : Nat) (x : Int) : Int := (BitVec.ofInt w x).toInt

/-- `CBreadcrumbsCacheEntry`: the cached record and the flags `DIRTY` (possibly different
from the parent view's version) and `FRESH` (the parent view has no non-pruned version). -/
structure CBreadcrumbsCacheEntry where
  coins : CBreadcrumbs
  dirty : Bool
  fresh : Bool
  deriving Repr

/-- `CBreadcrumbsMap`: the cache's entries, one per txid. -/
abbrev CBreadcrumbsMap := AList fun _ : uint256 => CBreadcrumbsCacheEntry

/-- `CBreadcrumbsViewCache`: whether a modifier is outstanding, the best-block hash (`0` until
read or set), and the entries. The backing view is kept beside it. -/
structure CBreadcrumbsViewCache where
  hasModifier : Bool
  hashBlock : uint256
  cacheBreadcrumbs : CBreadcrumbsMap

/-- A `CBreadcrumbsModifier`: the txid of the entry its iterator `it` points at. -/
structure CBreadcrumbsModifier where
  it : uint256
  deriving DecidableEq, Repr

namespace CBreadcrumbsViewCache

/-- The constructor `CBreadcrumbsViewCache(baseIn)`: no modifier, `hashBlock(0)`, no entries. -/
def new : CBreadcrumbsViewCache := ⟨false, 0, ∅⟩

/-- The entry of `txid`, if the cache holds one. -/
def find (c : CBreadcrumbsViewCache) (txid : uint256) : Option CBreadcrumbsCacheEntry :=
  c.cacheBreadcrumbs.lookup txid

/-- `cacheBreadcrumbs[txid] = e`. -/
def put (c : CBreadcrumbsViewCache) (txid : uint256) (e : CBreadcrumbsCacheEntry) :
    CBreadcrumbsViewCache :=
  { c with cacheBreadcrumbs := c.cacheBreadcrumbs.insert txid e }

/-- `cacheBreadcrumbs.erase(txid)`. -/
def erase (c : CBreadcrumbsViewCache) (txid : uint256) : CBreadcrumbsViewCache :=
  { c with cacheBreadcrumbs := c.cacheBreadcrumbs.erase txid }

/-- `hasModifier = b`, as the modifier's constructor and destructor set it. -/
def setModifier (c : CBreadcrumbsViewCache) (b : Bool) : CBreadcrumbsViewCache :=
  { c with hasModifier := b }

theorem find_put (c : CBreadcrumbsViewCache) (txid t : uint256) (e : CBreadcrumbsCacheEntry) :
    (c.put txid e).find t = if t = txid then some e else c.find t := by
  split
  · subst_vars; exact AList.lookup_insert _
  · exact AList.lookup_insert_ne ‹_›

theorem find_erase (c : CBreadcrumbsViewCache) (txid t : uint256) :
    (c.erase txid).find t = if t = txid then none else c.find t := by
  split
  · subst_vars; exact AList.lookup_erase _ _
  · exact AList.lookup_erase_ne ‹_›

@[simp] theorem find_put_self (c : CBreadcrumbsViewCache) (txid : uint256)
    (e : CBreadcrumbsCacheEntry) : (c.put txid e).find txid = some e := by
  simp [find_put]

@[simp] theorem find_erase_self (c : CBreadcrumbsViewCache) (txid : uint256) :
    (c.erase txid).find txid = none := by
  simp [find_erase]

@[simp] theorem find_new (t : uint256) : new.find t = none := rfl

@[simp] theorem find_setModifier (c : CBreadcrumbsViewCache) (b : Bool) :
    (c.setModifier b).find = c.find := rfl

@[simp] theorem setModifier_hasModifier (c : CBreadcrumbsViewCache) (b : Bool) :
    (c.setModifier b).hasModifier = b := rfl

@[simp] theorem setModifier_hashBlock (c : CBreadcrumbsViewCache) (b : Bool) :
    (c.setModifier b).hashBlock = c.hashBlock := rfl

@[simp] theorem put_hasModifier (c : CBreadcrumbsViewCache) (txid : uint256)
    (e : CBreadcrumbsCacheEntry) : (c.put txid e).hasModifier = c.hasModifier := rfl

@[simp] theorem put_hashBlock (c : CBreadcrumbsViewCache) (txid : uint256)
    (e : CBreadcrumbsCacheEntry) : (c.put txid e).hashBlock = c.hashBlock := rfl

@[simp] theorem erase_hasModifier (c : CBreadcrumbsViewCache) (txid : uint256) :
    (c.erase txid).hasModifier = c.hasModifier := rfl

@[simp] theorem erase_hashBlock (c : CBreadcrumbsViewCache) (txid : uint256) :
    (c.erase txid).hashBlock = c.hashBlock := rfl

variable {σ : Type}

/-- `FetchBreadcrumbs`: the entry of `txid`; on a miss, the base's record is inserted in a new
entry, `FRESH` when it is pruned, and nothing is inserted when the base has none. -/
def fetchBreadcrumbs (c : CBreadcrumbsViewCache) (b : σ)
    (getBase : uint256 → Option CBreadcrumbs × σ) (txid : uint256) :
    Option CBreadcrumbsCacheEntry × CBreadcrumbsViewCache × σ :=
  match c.find txid with
  | some e => (some e, c, b)
  | none =>
    match getBase txid with
    | (none, b') => (none, c, b')
    | (some tmp, b') =>
      let e : CBreadcrumbsCacheEntry := ⟨tmp, false, tmp.isPruned⟩
      (some e, c.put txid e, b')

/-- `AccessBreadcrumbs`: the record `FetchBreadcrumbs` finds, or `NULL`. -/
def accessBreadcrumbs (c : CBreadcrumbsViewCache) (b : σ)
    (getBase : uint256 → Option CBreadcrumbs × σ) (txid : uint256) :
    Option CBreadcrumbs × CBreadcrumbsViewCache × σ :=
  let (it, c', b') := c.fetchBreadcrumbs b getBase txid
  (it.map (·.coins), c', b')

/-- `GetBreadcrumbs`: a copy of the record `AccessBreadcrumbs` points at; `false` is `none`. -/
def getBreadcrumbs (c : CBreadcrumbsViewCache) (b : σ)
    (getBase : uint256 → Option CBreadcrumbs × σ) (txid : uint256) :
    Option CBreadcrumbs × CBreadcrumbsViewCache × σ :=
  c.accessBreadcrumbs b getBase txid

/-- `HaveBreadcrumbs`: an entry is found and its `vout` is not empty (not `IsPruned`). -/
def haveBreadcrumbs (c : CBreadcrumbsViewCache) (b : σ)
    (getBase : uint256 → Option CBreadcrumbs × σ) (txid : uint256) :
    Bool × CBreadcrumbsViewCache × σ :=
  let (it, c', b') := c.fetchBreadcrumbs b getBase txid
  (it.any fun e => !e.coins.vout.isEmpty, c', b')

/-- `ModifyBreadcrumbs`: asserts no modifier is outstanding; finds or creates the entry (a new
one takes the base's record, `FRESH` when it is pruned, or the cleared record and `FRESH` when
the base has none); marks it `DIRTY`; the modifier's constructor sets `hasModifier`. -/
def modifyBreadcrumbs (c : CBreadcrumbsViewCache) (b : σ)
    (getBase : uint256 → Option CBreadcrumbs × σ) (txid : uint256) :
    Option (CBreadcrumbsModifier × CBreadcrumbsViewCache × σ) :=
  if c.hasModifier then none else
  let (e, b') : CBreadcrumbsCacheEntry × σ :=
    match c.find txid with
    | some e => (e, b)
    | none =>
      match getBase txid with
      | (none, b') => (⟨CBreadcrumbs.empty, false, true⟩, b')
      | (some coins, b') => (⟨coins, false, coins.isPruned⟩, b')
  some (⟨txid⟩, (c.put txid { e with dirty := true }).setModifier true, b')

/-- `GetBestBlock`: the base's best block is read into `hashBlock` while it is `0`;
`getBaseBest` is what `base->GetBestBlock()` returns and the state it leaves. -/
def getBestBlock (c : CBreadcrumbsViewCache) (b : σ) (getBaseBest : uint256 × σ) :
    uint256 × CBreadcrumbsViewCache × σ :=
  if c.hashBlock = 0 then
    let (h, b') := getBaseBest
    (h, { c with hashBlock := h }, b')
  else (c.hashBlock, c, b)

/-- `SetBestBlock`. -/
def setBestBlock (c : CBreadcrumbsViewCache) (hashBlockIn : uint256) : CBreadcrumbsViewCache :=
  { c with hashBlock := hashBlockIn }

/-- One pass of the loop of `BatchWrite`, for the child's entry `(txid, e)`: a non-dirty entry
is ignored; with no entry here, a non-pruned record moves up as `DIRTY | FRESH` (asserting the
child's entry is `FRESH`) and a pruned one is dropped; a `FRESH` entry here that the child
prunes is erased; otherwise the child's record is swapped in and the entry marked `DIRTY`. -/
def batchWriteEntry (c : CBreadcrumbsViewCache) (txid : uint256) (e : CBreadcrumbsCacheEntry) :
    Option CBreadcrumbsViewCache :=
  if e.dirty then
    match c.find txid with
    | none =>
      if !e.coins.isPruned then
        if e.fresh then some (c.put txid ⟨e.coins, true, true⟩) else none
      else some c
    | some us =>
      if us.fresh && e.coins.isPruned then some (c.erase txid)
      else some (c.put txid { us with coins := e.coins, dirty := true })
  else some c

/-- The loop of `BatchWrite` over the child's entries. -/
def batchWriteLoop : CBreadcrumbsViewCache → List (Σ _ : uint256, CBreadcrumbsCacheEntry) →
    Option CBreadcrumbsViewCache
  | c, [] => some c
  | c, ⟨txid, e⟩ :: rest => (c.batchWriteEntry txid e).bind fun c' => batchWriteLoop c' rest

/-- `BatchWrite(mapBreadcrumbs, hashBlockIn)`: asserts no modifier is outstanding, merges every
entry, empties `mapBreadcrumbs`, sets `hashBlock` and returns `true`. -/
def batchWrite (c : CBreadcrumbsViewCache) (mapBreadcrumbs : CBreadcrumbsMap)
    (hashBlockIn : uint256) : Option (Bool × CBreadcrumbsMap × CBreadcrumbsViewCache) :=
  if c.hasModifier then none else
  (batchWriteLoop c mapBreadcrumbs.entries).map fun c' => (true, ∅, { c' with hashBlock := hashBlockIn })

/-- `Flush`: `base->BatchWrite(cacheBreadcrumbs, hashBlock)`, then the entries are cleared;
`baseBatchWrite` is the base's `BatchWrite`. -/
def flush (c : CBreadcrumbsViewCache)
    (baseBatchWrite : CBreadcrumbsMap → uint256 → Option (Bool × CBreadcrumbsMap × σ)) :
    Option (Bool × CBreadcrumbsViewCache × σ) :=
  (baseBatchWrite c.cacheBreadcrumbs c.hashBlock).map fun (fOk, _, b') =>
    (fOk, { c with cacheBreadcrumbs := ∅ }, b')

/-- `GetCacheSize`: the number of entries. -/
def getCacheSize (c : CBreadcrumbsViewCache) : Nat := c.cacheBreadcrumbs.entries.length

/-- `GetOutputFor`: asserts the record of the input's transaction is found and has the output
available, and returns that output. -/
def getOutputFor (c : CBreadcrumbsViewCache) (b : σ)
    (getBase : uint256 → Option CBreadcrumbs × σ) (input : CTxIn) :
    Option (TxOut × CBreadcrumbsViewCache × σ) :=
  match c.accessBreadcrumbs b getBase input.prevout.hash with
  | (some coins, c', b') => (outAt coins.vout input.prevout.n).map fun o => (o, c', b')
  | (none, _, _) => none

end CBreadcrumbsViewCache

namespace CBreadcrumbsModifier

open CBreadcrumbsViewCache

/-- Writing through the modifier, `*entry = f(*entry)`: the record it points at is mutated. -/
def mutate (m : CBreadcrumbsModifier) (c : CBreadcrumbsViewCache)
    (f : CBreadcrumbs → CBreadcrumbs) : Option CBreadcrumbsViewCache :=
  (c.find m.it).map fun e => c.put m.it { e with coins := f e.coins }

/-- `~CBreadcrumbsModifier`: asserts `hasModifier` and clears it, runs `Cleanup` on the record,
and erases the entry when it is `FRESH` and now pruned. -/
def release (m : CBreadcrumbsModifier) (c : CBreadcrumbsViewCache) :
    Option CBreadcrumbsViewCache :=
  if !c.hasModifier then none else
  (c.find m.it).map fun e =>
    let e' := { e with coins := e.coins.cleanup }
    let c' := c.setModifier false
    if e'.fresh && e'.coins.isPruned then c'.erase m.it else c'.put m.it e'

end CBreadcrumbsModifier

namespace CBreadcrumbsViewCache

variable {σ : Type} (getBase : σ → uint256 → Option CBreadcrumbs × σ)

/-- The loop of `GetValueIn`: `nResult += GetOutputFor(tx.vin[i]).nValue`. -/
def getValueInLoop : List CTxIn → Int → CBreadcrumbsViewCache → σ →
    Option (Int × CBreadcrumbsViewCache × σ)
  | [], nResult, c, b => some (nResult, c, b)
  | txin :: vin, nResult, c, b =>
    match c.getOutputFor b (getBase b) txin with
    | some (o, c', b') => getValueInLoop vin (toSigned 64 (nResult + o.nValue)) c' b'
    | none => none

/-- `GetValueIn`: `0` for a coinbase, else the sum of the outputs the inputs spend. -/
def getValueIn (c : CBreadcrumbsViewCache) (b : σ) (tx : CTransaction) :
    Option (Int × CBreadcrumbsViewCache × σ) :=
  if tx.isBreadcrumbBase then some (0, c, b) else getValueInLoop getBase tx.vin 0 c b

/-- The loop of `HaveInputs`: stop with `false` at the first input whose output is not found
available. -/
def haveInputsLoop : List CTxIn → CBreadcrumbsViewCache → σ → Bool × CBreadcrumbsViewCache × σ
  | [], c, b => (true, c, b)
  | txin :: vin, c, b =>
    match c.accessBreadcrumbs b (getBase b) txin.prevout.hash with
    | (coins, c', b') =>
      if coins.any (·.isAvailable txin.prevout.n) then haveInputsLoop vin c' b'
      else (false, c', b')

/-- `HaveInputs`: `true` for a coinbase, else whether every input's output is available. -/
def haveInputs (c : CBreadcrumbsViewCache) (b : σ) (tx : CTransaction) :
    Bool × CBreadcrumbsViewCache × σ :=
  if !tx.isBreadcrumbBase then haveInputsLoop getBase tx.vin c b else (true, c, b)

/-- The term `GetPriority` adds for an output: `nValue * (nHeight - coins->nHeight)`, the
difference in `int`, the product in `CAmount`. -/
def priorityTerm (nValue nHeight coinsHeight : Int) : Int :=
  toSigned 64 (nValue * toSigned 32 (nHeight - coinsHeight))

/-- The loop of `GetPriority`: asserts every input's record is found, and adds the term of each
available output whose record is older than `nHeight`. -/
def getPriorityLoop (nHeight : Int) : List CTxIn → Float → CBreadcrumbsViewCache → σ →
    Option (Float × CBreadcrumbsViewCache × σ)
  | [], dResult, c, b => some (dResult, c, b)
  | txin :: vin, dResult, c, b =>
    match c.accessBreadcrumbs b (getBase b) txin.prevout.hash with
    | (none, _, _) => none
    | (some coins, c', b') =>
      match outAt coins.vout txin.prevout.n with
      | none => getPriorityLoop nHeight vin dResult c' b'
      | some o =>
        if coins.nHeight < nHeight then
          getPriorityLoop nHeight vin
            (dResult + Float.ofInt (priorityTerm o.nValue nHeight coins.nHeight)) c' b'
        else getPriorityLoop nHeight vin dResult c' b'

/-- `GetPriority(tx, nHeight)`: `0` for a coinbase, else `tx.ComputePriority` of the sum. -/
def getPriority (computePriority : CTransaction → Float → Float) (c : CBreadcrumbsViewCache)
    (b : σ) (tx : CTransaction) (nHeight : Int) : Option (Float × CBreadcrumbsViewCache × σ) :=
  if tx.isBreadcrumbBase then some (0, c, b) else
  (getPriorityLoop getBase nHeight tx.vin 0 c b).map fun (dResult, c', b') =>
    (computePriority tx dResult, c', b')

end CBreadcrumbsViewCache

end Duckcoin
