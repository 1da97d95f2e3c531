/-
Duckcoin.Stack — a stack of `CBreadcrumbsViewCache` layers over the test
view `CBreadcrumbsViewTest` of coins_tests.cpp, and the runs the cache
simulation test makes on it.

A `View` is a view together with its whole backing chain: the test view,
or a cache over a view. `View.getBreadcrumbs`, `View.getBestBlock` and
`View.batchWrite` dispatch on the class, so a cache's call to `base` is a
call on the view below it. `StackOp` lists what a run does: push a new
cache on the tip, discard the tip, `Flush` the tip and perhaps pop it,
`ModifyBreadcrumbs` on the tip followed by a mutation through the modifier
and its release, `GetBreadcrumbs` on any layer, and the best block of the
tip. `step` is `none` where an assertion fails, and returns what the
operation observed.

Translation notes. `insecure_rand()` is an arbitrary sequence
`insecureRand`, of which the test view has drawn `nRand` numbers, so a
statement over every such sequence is one over every generator.
`CBreadcrumbsViewTest::GetBreadcrumbs` copies the record before it decides
to answer `false`; every caller discards the record on `false`, so the
model answers `none`. An operation on the tip of a stack with no cache
changes nothing. `stepEager` is the variant the specification proposes,
whose new cache reads its base's best block at construction.
-/
import Duckcoin.ViewCache

namespace Duckcoin

/-- `CBreadcrumbsViewTest`: the best block, the stored records `map_`, and the numbers
`insecure_rand()` returns, of which `nRand` have been drawn. -/
structure CBreadcrumbsViewTest where
  hashBestBlock_ : uint256
  map_ : uint256 → Option CBreadcrumbs
  insecureRand : Nat → Nat
  nRand : Nat

namespace CBreadcrumbsViewTest

/-- `insecure_rand()`: the next number of the sequence. -/
def rand (b : CBreadcrumbsViewTest) : Nat × CBreadcrumbsViewTest :=
  (b.insecureRand b.nRand, { b with nRand := b.nRand + 1 })

/-- `GetBreadcrumbs`: the stored record, except that a pruned one is reported absent when the
next random number is even. -/
def getBreadcrumbs (b : CBreadcrumbsViewTest) (txid : uint256) :
    Option CBreadcrumbs × CBreadcrumbsViewTest :=
  match b.map_ txid with
  | none => (none, b)
  | some coins =>
    if coins.isPruned then
      let (r, b') := b.rand
      if r % 2 = 0 then (none, b') else (some coins, b')
    else (some coins, b)

/-- One pass of the loop of `BatchWrite`: `map_[txid] = coins`, erased again when the record is
pruned and the next random number is a multiple of 3. -/
def batchWriteEntry (b : CBreadcrumbsViewTest) (txid : uint256) (e : CBreadcrumbsCacheEntry) :
    CBreadcrumbsViewTest :=
  let b := { b with map_ := Function.update b.map_ txid (some e.coins) }
  if e.coins.isPruned then
    let (r, b') := b.rand
    if r % 3 = 0 then { b' with map_ := Function.update b'.map_ txid none } else b'
  else b

/-- The loop of `BatchWrite` over the entries. -/
def batchWriteLoop : CBreadcrumbsViewTest → List (Σ _ : uint256, CBreadcrumbsCacheEntry) →
    CBreadcrumbsViewTest
  | b, [] => b
  | b, ⟨txid, e⟩ :: rest => batchWriteLoop (b.batchWriteEntry txid e) rest

/-- `BatchWrite`: stores every entry, dirty or not, empties the map, sets the best block and
returns `true`. -/
def batchWrite (b : CBreadcrumbsViewTest) (mapBreadcrumbs : CBreadcrumbsMap)
    (hashBlock : uint256) : Option (Bool × CBreadcrumbsMap × CBreadcrumbsViewTest) :=
  some (true, ∅, { batchWriteLoop b mapBreadcrumbs.entries with hashBestBlock_ := hashBlock })

end CBreadcrumbsViewTest

/-- A view and its backing chain: the test view, or a cache over a view. -/
inductive View where
  | test (b : CBreadcrumbsViewTest)
  | cache (c : CBreadcrumbsViewCache) (base : View)

namespace View

/-- `GetBreadcrumbs` on the view. -/
def getBreadcrumbs : View → uint256 → Option CBreadcrumbs × View
  | test b, txid => let (r, b') := b.getBreadcrumbs txid; (r, test b')
  | cache c base, txid =>
    let (r, c', base') := c.getBreadcrumbs base (getBreadcrumbs base) txid
    (r, cache c' base')

/-- `GetBestBlock` on the view. -/
def getBestBlock : View → uint256 × View
  | test b => (b.hashBestBlock_, test b)
  | cache c base =>
    let (h, c', base') := c.getBestBlock base (getBestBlock base)
    (h, cache c' base')

/-- `BatchWrite` on the view. -/
def batchWrite : View → CBreadcrumbsMap → uint256 → Option (Bool × CBreadcrumbsMap × View)
  | test b, m, h => (b.batchWrite m h).map fun (ok, m', b') => (ok, m', test b')
  | cache c base, m, h => (c.batchWrite m h).map fun (ok, m', c') => (ok, m', cache c' base)

/-- `GetBreadcrumbs` on layer `k`, counting from the tip; past the last cache, on the test
view. -/
def readAt : Nat → View → uint256 → Option CBreadcrumbs × View
  | 0, v, txid => v.getBreadcrumbs txid
  | _ + 1, test b, txid => (test b).getBreadcrumbs txid
  | k + 1, cache c base, txid => let (r, base') := readAt k base txid; (r, cache c base')

end View

/-- What a run does to the stack. -/
inductive StackOp where
  | push
  | discard
  | flush (pop : Bool)
  | modify (txid : uint256) (mutation : CBreadcrumbs → CBreadcrumbs)
  | read (layer : Nat) (txid : uint256)
  | setBestBlock (hashBlock : uint256)
  | getBestBlock

/-- What an operation returns: nothing, the record a read finds (`none` for `false`), the record
the modifier presents, or a best-block hash. -/
inductive StackObs where
  | done
  | found (coins : Option CBreadcrumbs)
  | presented (coins : CBreadcrumbs)
  | bestBlock (hashBlock : uint256)

/-- `ModifyBreadcrumbs(txid)` on cache `c` over `base`, `mutation` written through the modifier,
and the modifier released: the record the modifier presented, and the stack after. -/
def modifyOnTip (c : CBreadcrumbsViewCache) (base : View) (txid : uint256)
    (mutation : CBreadcrumbs → CBreadcrumbs) : Option (CBreadcrumbs × View) := do
  let (m, c1, base1) ← c.modifyBreadcrumbs base base.getBreadcrumbs txid
  let e ← c1.find m.it
  let c2 ← m.mutate c1 mutation
  let c3 ← m.release c2
  pure (e.coins, .cache c3 base1)

/-- One operation on the stack `v`; `none` where an assertion fails (the destructor of a cache
asserts that no modifier is outstanding). -/
def step (v : View) : StackOp → Option (StackObs × View)
  | .push => some (.done, .cache .new v)
  | .discard =>
    match v with
    | .cache c base => if c.hasModifier then none else some (.done, base)
    | .test _ => some (.done, v)
  | .flush pop =>
    match v with
    | .cache c base =>
      (c.flush base.batchWrite).bind fun (_, c', base') =>
        if pop then (if c'.hasModifier then none else some (.done, base'))
        else some (.done, .cache c' base')
    | .test _ => some (.done, v)
  | .modify txid mutation =>
    match v with
    | .cache c base => (modifyOnTip c base txid mutation).map fun (p, v') => (.presented p, v')
    | .test _ => some (.done, v)
  | .read k txid => let (r, v') := v.readAt k txid; some (.found r, v')
  | .setBestBlock h =>
    match v with
    | .cache c base => some (.done, .cache (c.setBestBlock h) base)
    | .test _ => some (.done, v)
  | .getBestBlock => let (h, v') := v.getBestBlock; some (.bestBlock h, v')

/-- A run: the operations in turn; `none` once one aborts. -/
def run : View → List StackOp → Option View
  | v, [] => some v
  | v, op :: ops => (step v op).bind fun (_, v') => run v' ops

/-- The eager `CBreadcrumbsViewCache` of the specification: a new cache copies its base's
`GetBestBlock()` into `hashBlock` at construction; every other operation is `step`. -/
def stepEager (v : View) : StackOp → Option (StackObs × View)
  | .push =>
    let (h, v') := v.getBestBlock
    some (.done, .cache { CBreadcrumbsViewCache.new with hashBlock := h } v')
  | op => step v op

/-- A run with the eager variant. -/
def runEager : View → List StackOp → Option View
  | v, [] => some v
  | v, op :: ops => (stepEager v op).bind fun (_, v') => runEager v' ops

end Duckcoin
