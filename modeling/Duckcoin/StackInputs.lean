/-
Duckcoin.StackInputs — the input helpers of `CBreadcrumbsViewCache` on a
cache over any view, against the logical values of `View.value`, and the
best block of a stack read twice.

`HaveInputs`, `GetValueIn` (through `GetOutputFor`) and `GetPriority` read
each input's record through `AccessBreadcrumbs`. Over a view, such a read
is a read of the whole stack (`accessBreadcrumbs_spec`): it answers the
logical value and changes no value of any layer. So the helpers compute
what the logical values say, whatever the caches hold and whatever the
test view's random numbers are:

- `haveInputs_iff_available`: `HaveInputs(tx)` is `true` exactly when `tx`
  is a coinbase or every input spends an output available in the logical
  value.
- `getValueIn_view`: `GetValueIn(tx)` fails its assertion exactly when an
  input spends no available output (`valueIn` is `none`), and otherwise
  returns the int64 wrap of the exact total; the loop's wrapped
  accumulator is the wrap of the exact partial sum (`toSigned_add_toSigned`).
- `getValueIn_exact`: over at most 2022 inputs spending `MoneyRange`
  values the total does not wrap.
- `getPriority_view`: `GetPriority(tx, nHeight)` returns `ComputePriority`
  of the sum the logical values give (`priorityIn`), and fails its
  assertion only when an input's record is pruned, which the test view
  may report absent.
- `haveInputs_guards_asserts`: once `HaveInputs(tx)` has returned `true`,
  neither `GetValueIn(tx)` nor `GetPriority(tx, nHeight)` on the cache it
  leaves fails its assertion; the stack case of what
  `Duckcoin.InputsTheorems` proves over any base (`haveInputs_found`,
  `inputs_return_of_found`).
- `getBestBlock_getBestBlock`: a second `GetBestBlock` returns the same
  hash and leaves the stack as the first left it.
-/
import Duckcoin.StackInvariants
import Duckcoin.InputsTheorems
import Duckcoin.PriorityTheorems

namespace Duckcoin

open CBreadcrumbsViewCache

/-! ## 1. Int64 sums -/

theorem toSigned_eq_bmod (w : Nat) (x : Int) : toSigned w x = x.bmod (2 ^ w) :=
  BitVec.toInt_ofInt x

/-- Wrapping a partial sum and adding to it wraps to the wrap of the whole sum. -/
theorem toSigned_add_toSigned (w : Nat) (x y : Int) :
    toSigned w (toSigned w x + y) = toSigned w (x + y) := by
  simp only [toSigned_eq_bmod, Int.bmod_add_bmod_congr]

theorem toSigned_toSigned (w : Nat) (x : Int) : toSigned w (toSigned w x) = toSigned w x := by
  simp only [toSigned_eq_bmod, Int.bmod_bmod]

@[simp] theorem toSigned_zero (w : Nat) : toSigned w 0 = 0 := by
  simp [toSigned_eq_bmod]

/-! ## 2. What the inputs spend in the logical values -/

/-- The value input `txin` spends in the logical values `V`: its output's `nValue`, if that
output is available. -/
def spentValue (V : uint256 → CBreadcrumbs) (txin : CTxIn) : Option Int :=
  (outAt (V txin.prevout.hash).vout txin.prevout.n).map (·.nValue)

/-- The exact total the inputs `vin` spend in `V`; `none` when one spends no available
output. -/
def valueInSum (V : uint256 → CBreadcrumbs) : List CTxIn → Option Int
  | [] => some 0
  | txin :: vin => (spentValue V txin).bind fun v => (valueInSum V vin).map (v + ·)

/-- What `GetValueIn(tx)` stands for: `0` for a coinbase, else the exact total its inputs
spend. -/
def valueIn (V : uint256 → CBreadcrumbs) (tx : CTransaction) : Option Int :=
  if tx.isBreadcrumbBase then some 0 else valueInSum V tx.vin

/-- What one input adds to the sum of `GetPriority` when its record is `r`: the term of its
output, if available and older than `nHeight`. -/
def priorityAdd (r : CBreadcrumbs) (n : Nat) (nHeight : Int) (dResult : Float) : Float :=
  match outAt r.vout n with
  | some o =>
    if r.nHeight < nHeight then dResult + Float.ofInt (priorityTerm o.nValue nHeight r.nHeight)
    else dResult
  | none => dResult

/-- The sum `GetPriority(tx, nHeight)` accumulates over the logical values `V`. -/
def priorityIn (V : uint256 → CBreadcrumbs) (nHeight : Int) : List CTxIn → Float → Float
  | [], dResult => dResult
  | txin :: vin, dResult =>
    priorityIn V nHeight vin (priorityAdd (V txin.prevout.hash) txin.prevout.n nHeight dResult)

/-- Inputs spending `MoneyRange` values have an exact total between `0` and their number times
`MAX_MONEY`. -/
theorem valueInSum_of_moneyRange (V : uint256 → CBreadcrumbs) (vin : List CTxIn)
    (h : ∀ txin ∈ vin, ∃ o, outAt (V txin.prevout.hash).vout txin.prevout.n = some o ∧
      moneyRange o.nValue = true) :
    ∃ s, valueInSum V vin = some s ∧ 0 ≤ s ∧ s ≤ vin.length * MAX_MONEY := by
  induction vin with
  | nil => exact ⟨0, rfl, le_rfl, by simp⟩
  | cons txin vin ih =>
    obtain ⟨o, ho, hm⟩ := h txin (List.mem_cons_self _ _)
    obtain ⟨s, hs, hs0, hsle⟩ := ih fun x hx => h x (List.mem_cons_of_mem _ hx)
    simp only [moneyRange, MAX_MONEY, BREADCRUMB, Bool.and_eq_true, decide_eq_true_eq] at hm hsle ⊢
    refine ⟨o.nValue + s, by simp [valueInSum, spentValue, ho, hs], by omega, ?_⟩
    simp only [List.length_cons, Nat.cast_succ]
    omega

/-! ## 3. Reads through a cache -/

namespace View

theorem ReadStep.trans {u v w : View} (h₁ : ReadStep u v) (h₂ : ReadStep v w) : ReadStep u w :=
  ⟨h₂.values.trans h₁.values, fun t h => h₂.hasEntry t (h₁.hasEntry t h),
    h₂.flagsInv ∘ h₁.flagsInv, h₂.trimmedInv ∘ h₁.trimmedInv⟩

/-- `AccessBreadcrumbs` of a cache over a view is a read of the stack: it answers the logical
value. -/
theorem accessBreadcrumbs_spec (c : CBreadcrumbsViewCache) (b : View) (t : uint256) :
    ∃ r c' b', c.accessBreadcrumbs b b.getBreadcrumbs t = (r, c', b') ∧
      ReadStep (cache c b) (cache c' b') ∧ Answers r ((cache c b).value t) := by
  have h := getBreadcrumbs_spec (cache c b) t
  rcases hx : c.accessBreadcrumbs b b.getBreadcrumbs t with ⟨r, c', b'⟩
  simp only [getBreadcrumbs, CBreadcrumbsViewCache.getBreadcrumbs, hx] at h
  exact ⟨r, c', b', rfl, h.1, h.2.1⟩

/-- What a read answers decides availability as the logical value does. -/
theorem any_isAvailable_of_answers {r : Option CBreadcrumbs} {x : CBreadcrumbs} (h : Answers r x)
    (n : Nat) : r.any (·.isAvailable n) = x.isAvailable n := by
  cases r with
  | none => exact ((CBreadcrumbs.isPruned_iff x).mp h n).symm
  | some y => cases (h : y = x); rfl

/-- `GetOutputFor` of a cache over a view: the output of the logical value, the assertion
failing exactly when that output is not available. -/
theorem getOutputFor_view (c : CBreadcrumbsViewCache) (b : View) (txin : CTxIn) :
    ∃ c' b', ReadStep (cache c b) (cache c' b') ∧ c.getOutputFor b b.getBreadcrumbs txin =
      (outAt ((cache c b).value txin.prevout.hash).vout txin.prevout.n).map fun o => (o, c', b') := by
  obtain ⟨r, c', b', hacc, hread, hans⟩ := accessBreadcrumbs_spec c b txin.prevout.hash
  refine ⟨c', b', hread, ?_⟩
  cases r with
  | none =>
    have hnone := (CBreadcrumbs.isPruned_iff _).mp hans txin.prevout.n
    simp only [CBreadcrumbs.isAvailable, Bool.eq_false_iff, ne_eq, Option.not_isSome_iff_eq_none]
      at hnone
    simp only [getOutputFor, hacc, hnone, Option.map_none']
  | some y =>
    cases (hans : y = _)
    simp [getOutputFor, hacc]

/-! ## 4. `HaveInputs` -/

/-- The loop of `HaveInputs` over a view: a read, answering whether every input spends an output
available in the logical value. -/
theorem haveInputsLoop_view (vin : List CTxIn) (c : CBreadcrumbsViewCache) (b : View) :
    ReadStep (cache c b) (cache (haveInputsLoop View.getBreadcrumbs vin c b).2.1
        (haveInputsLoop View.getBreadcrumbs vin c b).2.2) ∧
      (haveInputsLoop View.getBreadcrumbs vin c b).1 =
        vin.all fun txin => ((cache c b).value txin.prevout.hash).isAvailable txin.prevout.n := by
  induction vin generalizing c b with
  | nil => exact ⟨ReadStep.refl _, rfl⟩
  | cons txin vin ih =>
    obtain ⟨r, c', b', hacc, hread, hans⟩ := accessBreadcrumbs_spec c b txin.prevout.hash
    obtain ⟨hread', hall⟩ := ih c' b'
    rw [hread.value] at hall
    simp only [haveInputsLoop, hacc, any_isAvailable_of_answers hans, List.all_cons]
    cases ((cache c b).value txin.prevout.hash).isAvailable txin.prevout.n
    · exact ⟨hread, rfl⟩
    · exact ⟨hread.trans hread', hall⟩

/-- **`HaveInputs` on a stack.** On a cache over any view, `HaveInputs(tx)` is `true` exactly
when `tx` is a coinbase or every input spends an output available in the logical value seen
from the cache; it changes no value of any layer. -/
theorem haveInputs_iff_available (c : CBreadcrumbsViewCache) (base : View) (tx : CTransaction) :
    ReadStep (cache c base) (cache (c.haveInputs View.getBreadcrumbs base tx).2.1
        (c.haveInputs View.getBreadcrumbs base tx).2.2) ∧
      ((c.haveInputs View.getBreadcrumbs base tx).1 = true ↔ tx.isBreadcrumbBase = true ∨
        ∀ txin ∈ tx.vin, ((cache c base).value txin.prevout.hash).isAvailable txin.prevout.n) := by
  cases hcb : tx.isBreadcrumbBase
  · obtain ⟨hread, hall⟩ := haveInputsLoop_view tx.vin c base
    simp only [haveInputs, hcb, Bool.not_false, if_true, hall, List.all_eq_true]
    exact ⟨hread, by simp⟩
  · simp [haveInputs, hcb, ReadStep.refl]

/-! ## 5. `GetValueIn` -/

/-- The loop of `GetValueIn` over a view, from an accumulator that is its own wrap: it fails
exactly when an input spends no available output, and otherwise returns the wrap of the
accumulator plus the exact total. -/
theorem getValueInLoop_view (vin : List CTxIn) (nResult : Int) (hn : toSigned 64 nResult = nResult)
    (c : CBreadcrumbsViewCache) (b : View) :
    (getValueInLoop View.getBreadcrumbs vin nResult c b).map (·.1) =
        (valueInSum (cache c b).value vin).map (fun s => toSigned 64 (nResult + s)) ∧
      ∀ v c' b', getValueInLoop View.getBreadcrumbs vin nResult c b = some (v, c', b') →
        ReadStep (cache c b) (cache c' b') := by
  induction vin generalizing nResult c b with
  | nil =>
    refine ⟨by simp [getValueInLoop, valueInSum, hn], ?_⟩
    rintro v c' b' ⟨⟩
    exact ReadStep.refl _
  | cons txin vin ih =>
    obtain ⟨c', b', hread, hout⟩ := getOutputFor_view c b txin
    simp only [getValueInLoop, hout, valueInSum, spentValue]
    cases outAt ((cache c b).value txin.prevout.hash).vout txin.prevout.n with
    | none => exact ⟨rfl, nofun⟩
    | some o =>
      obtain ⟨hval, hrd⟩ := ih _ (toSigned_toSigned 64 _) c' b'
      rw [hread.value] at hval
      refine ⟨?_, fun v c'' b'' h => hread.trans (hrd v c'' b'' h)⟩
      simp only [Option.map_some', Option.some_bind, hval, Option.map_map]
      congr 1
      funext s
      simp only [Function.comp, toSigned_add_toSigned, add_assoc]

/-- **`GetValueIn` on a stack.** On a cache over any view, `GetValueIn(tx)` fails its assertion
exactly when an input of a transaction that is not a coinbase spends no output available in the
logical value, and otherwise returns the int64 wrap of the exact total the inputs spend; it
changes no value of any layer. -/
theorem getValueIn_view (c : CBreadcrumbsViewCache) (base : View) (tx : CTransaction) :
    (c.getValueIn View.getBreadcrumbs base tx).map (·.1) =
        (valueIn (cache c base).value tx).map (toSigned 64) ∧
      ∀ v c' base', c.getValueIn View.getBreadcrumbs base tx = some (v, c', base') →
        ReadStep (cache c base) (cache c' base') := by
  cases hcb : tx.isBreadcrumbBase
  · obtain ⟨hval, hrd⟩ := getValueInLoop_view tx.vin 0 (toSigned_zero 64) c base
    simp only [getValueIn, valueIn, hcb, Bool.false_eq_true, if_false, zero_add] at hval ⊢
    exact ⟨hval, hrd⟩
  · refine ⟨by simp [getValueIn, valueIn, hcb], ?_⟩
    rintro v c' base' h
    simp only [getValueIn, hcb, if_true, Option.some.injEq, Prod.mk.injEq] at h
    obtain ⟨-, rfl, rfl⟩ := h
    exact ReadStep.refl _

/-- **`GetValueIn` does not wrap over `MoneyRange` values.** On a cache over any view, for a
transaction of at most 2022 inputs, each spending an available output whose value is in
`MoneyRange`, `GetValueIn(tx)` returns the exact total: `2022 * MAX_MONEY` is below `2 ^ 63`. -/
theorem getValueIn_exact (c : CBreadcrumbsViewCache) (base : View) (tx : CTransaction)
    (hmoney : ∀ txin ∈ tx.vin, ∃ o, outAt ((cache c base).value txin.prevout.hash).vout
      txin.prevout.n = some o ∧ moneyRange o.nValue = true)
    (hlen : tx.vin.length ≤ 2022) :
    ∃ s, valueIn (cache c base).value tx = some s ∧
      (c.getValueIn View.getBreadcrumbs base tx).map (·.1) = some s := by
  cases hcb : tx.isBreadcrumbBase
  · obtain ⟨s, hs, hs0, hsle⟩ := valueInSum_of_moneyRange _ tx.vin hmoney
    obtain ⟨hval, -⟩ := getValueInLoop_view tx.vin 0 (toSigned_zero 64) c base
    have hfit : s < 2 ^ 63 := calc
      s ≤ tx.vin.length * MAX_MONEY := hsle
      _ ≤ 2022 * (45600000 * 100000000) :=
        Int.mul_le_mul_of_nonneg_right (by exact_mod_cast hlen) (by decide)
      _ < 2 ^ 63 := by decide
    refine ⟨s, by simp [valueIn, hcb, hs], ?_⟩
    simp only [getValueIn, hcb, Bool.false_eq_true, if_false, hval, hs, Option.map_some',
      zero_add]
    rw [toSigned_eq_self (by decide) (by omega) hfit]
  · exact ⟨0, by simp [valueIn, hcb], by simp [getValueIn, hcb]⟩

/-- A new cache over a test view holding an output of 5000 for txid `1`, and a transaction
spending it: `GetValueIn` returns 5000. -/
theorem getValueIn_exact_one_input :
    let B : CBreadcrumbsViewTest :=
      ⟨0, fun t => if t = 1 then some ⟨false, [some (TxOut.mk 5000 [])], 10, 1⟩ else none,
        fun _ => 0, 0⟩
    let tx : CTransaction := ⟨false, [⟨⟨1, 0⟩⟩], [], 1⟩
    (∀ txin ∈ tx.vin, ∃ o, outAt ((cache .new (.test B)).value txin.prevout.hash).vout
      txin.prevout.n = some o ∧ moneyRange o.nValue = true) ∧ tx.vin.length ≤ 2022 ∧
    ∃ s, valueIn (cache .new (.test B)).value tx = some s ∧
      (CBreadcrumbsViewCache.new.getValueIn View.getBreadcrumbs (.test B) tx).map (·.1) = some s :=
  have hmoney : ∀ txin ∈ [(⟨⟨1, 0⟩⟩ : CTxIn)], ∃ o, outAt ((cache .new (.test
      ⟨0, fun t => if t = 1 then some ⟨false, [some (TxOut.mk 5000 [])], 10, 1⟩ else none,
        fun _ => 0, 0⟩)).value txin.prevout.hash).vout txin.prevout.n = some o ∧
      moneyRange o.nValue = true := by
    intro txin hx
    rw [List.mem_singleton.mp hx]
    exact ⟨TxOut.mk 5000 [], rfl, rfl⟩
  ⟨hmoney, by decide, getValueIn_exact .new _ ⟨false, [⟨⟨1, 0⟩⟩], [], 1⟩ hmoney (by decide)⟩

/-! ## 6. `GetPriority` -/

/-- The loop of `GetPriority` over a view: it returns the sum the logical values give, and its
assertion fails only on an input whose record is pruned in the logical values. -/
theorem getPriorityLoop_view (nHeight : Int) (vin : List CTxIn) (dResult : Float)
    (c : CBreadcrumbsViewCache) (b : View) :
    (∀ d c' b', getPriorityLoop View.getBreadcrumbs nHeight vin dResult c b = some (d, c', b') →
      d = priorityIn (cache c b).value nHeight vin dResult ∧ ReadStep (cache c b) (cache c' b')) ∧
    (getPriorityLoop View.getBreadcrumbs nHeight vin dResult c b = none →
      ∃ txin ∈ vin, ((cache c b).value txin.prevout.hash).isPruned = true) := by
  induction vin generalizing dResult c b with
  | nil =>
    refine ⟨?_, nofun⟩
    rintro d c' b' ⟨⟩
    exact ⟨rfl, ReadStep.refl _⟩
  | cons txin vin ih =>
    obtain ⟨r, c', b', hacc, hread, hans⟩ := accessBreadcrumbs_spec c b txin.prevout.hash
    cases r with
    | none =>
      simp only [getPriorityLoop, hacc]
      exact ⟨nofun, fun _ => ⟨txin, List.mem_cons_self _ _, hans⟩⟩
    | some y =>
      cases (hans : y = _)
      have hstep : getPriorityLoop View.getBreadcrumbs nHeight (txin :: vin) dResult c b =
          getPriorityLoop View.getBreadcrumbs nHeight vin
            (priorityAdd ((cache c b).value txin.prevout.hash) txin.prevout.n nHeight dResult)
            c' b' := by
        rcases ho : outAt ((cache c b).value txin.prevout.hash).vout txin.prevout.n with _ | o
        · simp only [getPriorityLoop, hacc, priorityAdd, ho]
        · by_cases hh : ((cache c b).value txin.prevout.hash).nHeight < nHeight <;>
            simp only [getPriorityLoop, hacc, priorityAdd, ho, hh, if_true, if_false]
      obtain ⟨hsome, hnone⟩ := ih (priorityAdd _ txin.prevout.n nHeight dResult) c' b'
      rw [hread.value] at hsome hnone
      refine ⟨fun d c'' b'' h => ?_, fun h => ?_⟩
      · obtain ⟨hd, hrd⟩ := hsome d c'' b'' (hstep ▸ h)
        exact ⟨hd, hread.trans hrd⟩
      · obtain ⟨x, hx, hp⟩ := hnone (hstep ▸ h)
        exact ⟨x, List.mem_cons_of_mem _ hx, hp⟩

/-- **`GetPriority` on a stack.** On a cache over any view, `GetPriority(tx, nHeight)` returns
`ComputePriority` of the sum the logical values give, changing no value of any layer; its
assertion fails only when an input's record is pruned in the logical values. -/
theorem getPriority_view (computePriority : CTransaction → Float → Float)
    (c : CBreadcrumbsViewCache) (base : View) (tx : CTransaction) (nHeight : Int) :
    (∀ d c' base', c.getPriority View.getBreadcrumbs computePriority base tx nHeight =
        some (d, c', base') →
      d = (if tx.isBreadcrumbBase then 0
        else computePriority tx (priorityIn (cache c base).value nHeight tx.vin 0)) ∧
      ReadStep (cache c base) (cache c' base')) ∧
    (c.getPriority View.getBreadcrumbs computePriority base tx nHeight = none →
      ∃ txin ∈ tx.vin, ((cache c base).value txin.prevout.hash).isPruned = true) := by
  cases hcb : tx.isBreadcrumbBase
  · obtain ⟨hsome, hnone⟩ := getPriorityLoop_view nHeight tx.vin 0 c base
    simp only [getPriority, hcb, Bool.false_eq_true, if_false]
    refine ⟨fun d c' base' h => ?_, fun h => hnone (by simpa using h)⟩
    obtain ⟨⟨d0, c1, b1⟩, hl, he⟩ := Option.map_eq_some'.mp h
    cases he
    obtain ⟨rfl, hrd⟩ := hsome d0 c1 b1 hl
    exact ⟨rfl, hrd⟩
  · simp only [getPriority, hcb, if_true]
    refine ⟨?_, nofun⟩
    rintro d c' base' ⟨⟩
    exact ⟨rfl, ReadStep.refl _⟩

/-! ## 7. `HaveInputs` before `GetValueIn` and `GetPriority` -/

/-- **`HaveInputs` guards the assertions of the other input helpers.** On a cache over any view,
once `HaveInputs(tx)` has returned `true`, neither `GetValueIn(tx)` nor `GetPriority(tx, nHeight)`
on the cache and view it leaves fails its assertion. -/
theorem haveInputs_guards_asserts (computePriority : CTransaction → Float → Float)
    (c : CBreadcrumbsViewCache) (base : View) (tx : CTransaction) (nHeight : Int)
    (h : (c.haveInputs View.getBreadcrumbs base tx).1 = true) :
    ((c.haveInputs View.getBreadcrumbs base tx).2.1.getValueIn View.getBreadcrumbs
        (c.haveInputs View.getBreadcrumbs base tx).2.2 tx).isSome ∧
      ((c.haveInputs View.getBreadcrumbs base tx).2.1.getPriority View.getBreadcrumbs
        computePriority (c.haveInputs View.getBreadcrumbs base tx).2.2 tx nHeight).isSome := by
  rcases hx : c.haveInputs View.getBreadcrumbs base tx with ⟨ok, c1, b1⟩
  obtain rfl : ok = true := by rw [hx] at h; exact h
  obtain ⟨⟨v, hv⟩, d, hd⟩ := inputs_return_of_found View.getBreadcrumbs c1 b1 tx
    (fun hcb x hin => (haveInputs_found View.getBreadcrumbs c c1 base b1 tx hcb hx (.refl c1) x hin).imp
      fun _ ⟨o, hc, ho, _⟩ => ⟨o, hc, ho⟩) computePriority nHeight
  simp [hv, hd]

/-- The cache and test view of `getValueIn_exact_one_input`: `HaveInputs` holds, so
`GetValueIn` and `GetPriority` return. -/
theorem haveInputs_guards_asserts_one_input :
    let B : CBreadcrumbsViewTest :=
      ⟨0, fun t => if t = 1 then some ⟨false, [some (TxOut.mk 5000 [])], 10, 1⟩ else none,
        fun _ => 0, 0⟩
    let tx : CTransaction := ⟨false, [⟨⟨1, 0⟩⟩], [], 1⟩
    (CBreadcrumbsViewCache.new.haveInputs View.getBreadcrumbs (.test B) tx).1 = true ∧
    ((CBreadcrumbsViewCache.new.haveInputs View.getBreadcrumbs (.test B) tx).2.1.getValueIn
        View.getBreadcrumbs (CBreadcrumbsViewCache.new.haveInputs View.getBreadcrumbs
          (.test B) tx).2.2 tx).isSome ∧
      ((CBreadcrumbsViewCache.new.haveInputs View.getBreadcrumbs (.test B) tx).2.1.getPriority
        View.getBreadcrumbs (fun _ d => d) (CBreadcrumbsViewCache.new.haveInputs
          View.getBreadcrumbs (.test B) tx).2.2 tx 20).isSome :=
  have h : (CBreadcrumbsViewCache.new.haveInputs View.getBreadcrumbs (.test
      ⟨0, fun t => if t = 1 then some ⟨false, [some (TxOut.mk 5000 [])], 10, 1⟩ else none,
        fun _ => 0, 0⟩) ⟨false, [⟨⟨1, 0⟩⟩], [], 1⟩).1 = true := by decide
  ⟨h, haveInputs_guards_asserts (fun _ d => d) .new _ _ 20 h⟩

/-! ## 8. The best block, read twice -/

/-- **`GetBestBlock` is idempotent.** On every stack, a second `GetBestBlock` returns the hash
the first returned and leaves the stack as the first left it. -/
theorem getBestBlock_getBestBlock (v : View) : v.getBestBlock.2.getBestBlock = v.getBestBlock := by
  induction v with
  | test b => rfl
  | cache c base ih =>
    rw [getBestBlock_cache_eq]
    by_cases h : c.hashBlock = 0
    · rw [if_pos h, getBestBlock_cache_eq]
      by_cases h0 : base.getBestBlock.1 = 0
      · -- the base's best block is `0` too: the second call reads the base again
        rw [if_pos h0, ih, h0]
      · rw [if_neg h0]
    · rw [if_neg h, getBestBlock_cache_eq, if_neg h]

end View

end Duckcoin
