/-
Duckcoin.InputsTheorems — once `HaveInputs(tx)` is `true`, the helpers
that read the inputs of `tx` cannot fail, whatever is read afterwards and
whatever view the cache is backed by then.

The reason is that `FetchBreadcrumbs` never alters or evicts an entry: a
hit returns it and changes nothing, a miss inserts at a key that had no
entry (`extends_fetchBreadcrumbs`). So the map only grows along any
sequence of reads (`Reads`, over bases that may differ at every read), and
what `HaveInputs` found stays in it (`haveInputsLoop_spec`). A helper that
finds every record it needs in the map never calls the base
(`getOutputFor_of_find`, `getValueInLoop_of_found`,
`getPriorityLoop_of_found`).

`haveInputs_keeps_outputs_available`: what `HaveInputs` found stays
found (`haveInputs_found`), and the helpers then return
(`inputs_return_of_found`); so after `HaveInputs(tx)` returns `true` and
any reads, over any base, `GetValueIn(tx)` and
`GetPriority(tx, h)` succeed, and for a transaction that is not a
coinbase `GetOutputFor` returns, for each input, the output `HaveInputs`
found available. For a coinbase `HaveInputs` is `true` without looking at
the inputs, and `GetOutputFor` on its input fails
(`haveInputs_coinbase_getOutputFor_fails`).

`inputs_getCacheSize_le`: since `FetchBreadcrumbs` inserts at most one
entry, `HaveInputs(tx)`, and `GetValueIn(tx)` and `GetPriority(tx, h)`
when they return, grow `GetCacheSize` by at most the number of inputs.
-/
import Duckcoin.ViewCache

namespace Duckcoin

namespace CBreadcrumbsViewCache

/-! ## 1. The map only grows -/

/-- Every entry of `c` is an entry of `c'`, unchanged. -/
def Extends (c c' : CBreadcrumbsViewCache) : Prop :=
  ∀ t e, c.find t = some e → c'.find t = some e

theorem Extends.refl (c : CBreadcrumbsViewCache) : Extends c c := fun _ _ h => h

theorem Extends.trans {c₁ c₂ c₃ : CBreadcrumbsViewCache} (h₁ : Extends c₁ c₂)
    (h₂ : Extends c₂ c₃) : Extends c₁ c₃ :=
  fun t e h => h₂ t e (h₁ t e h)

variable {σ : Type}

/-- `FetchBreadcrumbs` on a hit returns the entry and changes nothing. -/
theorem fetchBreadcrumbs_of_find {c : CBreadcrumbsViewCache} {txid : uint256}
    {e : CBreadcrumbsCacheEntry} (b : σ) (getBase : uint256 → Option CBreadcrumbs × σ)
    (hc : c.find txid = some e) : c.fetchBreadcrumbs b getBase txid = (some e, c, b) := by
  simp [fetchBreadcrumbs, hc]

/-- `FetchBreadcrumbs` never alters or evicts an entry. -/
theorem extends_fetchBreadcrumbs (c : CBreadcrumbsViewCache) (b : σ)
    (getBase : uint256 → Option CBreadcrumbs × σ) (txid : uint256) :
    Extends c (c.fetchBreadcrumbs b getBase txid).2.1 := by
  intro t e he
  unfold fetchBreadcrumbs
  split
  · exact he
  · rename_i hn
    split
    · exact he
    · have ht : t ≠ txid := by rintro rfl; simp [hn] at he
      simp [find_put, ht, he]

/-- The entry `FetchBreadcrumbs` returns is in the map it leaves. -/
theorem find_fetchBreadcrumbs {c : CBreadcrumbsViewCache} {b : σ}
    {getBase : uint256 → Option CBreadcrumbs × σ} {txid : uint256} {e : CBreadcrumbsCacheEntry}
    (h : (c.fetchBreadcrumbs b getBase txid).1 = some e) :
    (c.fetchBreadcrumbs b getBase txid).2.1.find txid = some e := by
  rcases hc : c.find txid with _ | e'
  · rcases hg : getBase txid with ⟨_ | tmp, b'⟩ <;> simp [fetchBreadcrumbs, hc, hg] at h ⊢
    exact h
  · simp [fetchBreadcrumbs, hc] at h ⊢
    exact h

/-- A sequence of reads on the cache: `FetchBreadcrumbs`, through which every read of the cache
goes, each time over a base of its own. -/
inductive Reads : CBreadcrumbsViewCache → CBreadcrumbsViewCache → Prop
  | refl (c : CBreadcrumbsViewCache) : Reads c c
  | fetch {σ : Type} {c c' : CBreadcrumbsViewCache} (b : σ)
      (getBase : uint256 → Option CBreadcrumbs × σ) (txid : uint256) :
      Reads (c.fetchBreadcrumbs b getBase txid).2.1 c' → Reads c c'

theorem Reads.getBreadcrumbs (c : CBreadcrumbsViewCache) (b : σ)
    (getBase : uint256 → Option CBreadcrumbs × σ) (txid : uint256) :
    Reads c (c.getBreadcrumbs b getBase txid).2.1 :=
  .fetch b getBase txid (.refl _)

theorem Reads.haveBreadcrumbs (c : CBreadcrumbsViewCache) (b : σ)
    (getBase : uint256 → Option CBreadcrumbs × σ) (txid : uint256) :
    Reads c (c.haveBreadcrumbs b getBase txid).2.1 :=
  .fetch b getBase txid (.refl _)

theorem Reads.extends {c c' : CBreadcrumbsViewCache} (h : Reads c c') : Extends c c' := by
  induction h with
  | refl c => exact Extends.refl c
  | fetch b getBase txid _ ih => exact (extends_fetchBreadcrumbs _ b getBase txid).trans ih

/-! ## 2. What `HaveInputs` finds, and the helpers that use it -/

variable (getBase : σ → uint256 → Option CBreadcrumbs × σ)

/-- **The loop of `HaveInputs`.** When it returns `true`, it has only added entries, and each
input's record is in the map with the output available. -/
theorem haveInputsLoop_spec (vin : List CTxIn) (c c1 : CBreadcrumbsViewCache) (b b1 : σ)
    (h : haveInputsLoop getBase vin c b = (true, c1, b1)) :
    Extends c c1 ∧ ∀ txin ∈ vin, ∃ e, c1.find txin.prevout.hash = some e ∧
      e.coins.isAvailable txin.prevout.n = true := by
  induction vin generalizing c b with
  | nil => cases h; exact ⟨Extends.refl _, nofun⟩
  | cons txin vin ih =>
    have hext := extends_fetchBreadcrumbs c b (getBase b) txin.prevout.hash
    have hfind := @find_fetchBreadcrumbs _ c b (getBase b) txin.prevout.hash
    simp only [haveInputsLoop, accessBreadcrumbs] at h
    revert hext hfind h
    rcases c.fetchBreadcrumbs b (getBase b) txin.prevout.hash with ⟨it, c', b'⟩
    intro hext hfind h
    split at h
    · rename_i hav
      obtain ⟨e, rfl, he⟩ : ∃ e, it = some e ∧ e.coins.isAvailable txin.prevout.n = true := by
        cases it <;> simp_all
      obtain ⟨hext', hall⟩ := ih c' b' h
      refine ⟨hext.trans hext', fun x hx => ?_⟩
      rcases List.mem_cons.mp hx with rfl | hx
      · exact ⟨e, hext' _ _ (hfind rfl), he⟩
      · exact hall x hx
    · cases h

/-- `GetOutputFor` on an input whose record is in the map with the output there: that output,
with nothing changed. -/
theorem getOutputFor_of_find {c : CBreadcrumbsViewCache} {txin : CTxIn}
    {e : CBreadcrumbsCacheEntry} {o : TxOut} (b : σ) (g : uint256 → Option CBreadcrumbs × σ)
    (hc : c.find txin.prevout.hash = some e) (ho : outAt e.coins.vout txin.prevout.n = some o) :
    c.getOutputFor b g txin = some (o, c, b) := by
  simp [getOutputFor, accessBreadcrumbs, fetchBreadcrumbs_of_find b g hc, ho]

/-- The loop of `GetValueIn` over inputs whose outputs are all in the map succeeds, with nothing
changed. -/
theorem getValueInLoop_of_found (c : CBreadcrumbsViewCache) (b : σ) (vin : List CTxIn)
    (hall : ∀ txin ∈ vin, ∃ e o, c.find txin.prevout.hash = some e ∧
      outAt e.coins.vout txin.prevout.n = some o) (nResult : Int) :
    ∃ v, getValueInLoop getBase vin nResult c b = some (v, c, b) := by
  induction vin generalizing nResult with
  | nil => exact ⟨nResult, rfl⟩
  | cons txin vin ih =>
    obtain ⟨e, o, hc, ho⟩ := hall txin (List.mem_cons_self _ _)
    rw [getValueInLoop, getOutputFor_of_find b (getBase b) hc ho]
    exact ih (fun x hx => hall x (List.mem_cons_of_mem _ hx)) _

/-- The loop of `GetPriority` over inputs whose records are all in the map succeeds, with
nothing changed. -/
theorem getPriorityLoop_of_found (c : CBreadcrumbsViewCache) (b : σ) (nHeight : Int)
    (vin : List CTxIn) (hall : ∀ txin ∈ vin, ∃ e, c.find txin.prevout.hash = some e)
    (dResult : Float) : ∃ d, getPriorityLoop getBase nHeight vin dResult c b = some (d, c, b) := by
  induction vin generalizing dResult with
  | nil => exact ⟨dResult, rfl⟩
  | cons txin vin ih =>
    obtain ⟨e, hc⟩ := hall txin (List.mem_cons_self _ _)
    have ih' := ih (fun x hx => hall x (List.mem_cons_of_mem _ hx))
    simp only [getPriorityLoop, accessBreadcrumbs, fetchBreadcrumbs_of_find b (getBase b) hc,
      Option.map_some']
    split
    · exact ih' _
    · split <;> exact ih' _

/-- After `HaveInputs(tx)` returns `true` on a transaction that is not a coinbase, and any reads,
every input's record is an entry of the map `HaveInputs` left and is still in the map, with the
input's output available. -/
theorem haveInputs_found (c c1 : CBreadcrumbsViewCache) (b b1 : σ) (tx : CTransaction)
    (hcb : tx.isBreadcrumbBase = false) (h : c.haveInputs getBase b tx = (true, c1, b1))
    {c' : CBreadcrumbsViewCache} (hr : Reads c1 c') :
    ∀ txin ∈ tx.vin, ∃ e o, c1.find txin.prevout.hash = some e ∧
      outAt e.coins.vout txin.prevout.n = some o ∧ c'.find txin.prevout.hash = some e := by
  simp only [haveInputs, hcb, Bool.not_false, if_true] at h
  intro txin hx
  obtain ⟨e, hc, hav⟩ := (haveInputsLoop_spec getBase tx.vin c c1 b b1 h).2 txin hx
  obtain ⟨o, ho⟩ := Option.isSome_iff_exists.mp hav
  exact ⟨e, o, hc, ho, hr.extends _ _ hc⟩

/-- Once every input of a transaction that is not a coinbase has its record in the map with
its output, `GetValueIn(tx)` and `GetPriority(tx, nHeight)` return over any base, changing
nothing. -/
theorem inputs_return_of_found (c : CBreadcrumbsViewCache) (b : σ) (tx : CTransaction)
    (hfound : tx.isBreadcrumbBase = false → ∀ txin ∈ tx.vin, ∃ e o,
      c.find txin.prevout.hash = some e ∧ outAt e.coins.vout txin.prevout.n = some o)
    (computePriority : CTransaction → Float → Float) (nHeight : Int) :
    (∃ v, c.getValueIn getBase b tx = some (v, c, b)) ∧
      ∃ d, c.getPriority getBase computePriority b tx nHeight = some (d, c, b) := by
  cases hcb : tx.isBreadcrumbBase with
  | true => exact ⟨⟨0, by simp [getValueIn, hcb]⟩, ⟨0, by simp [getPriority, hcb]⟩⟩
  | false =>
    obtain ⟨v, hv⟩ := getValueInLoop_of_found getBase c b tx.vin (hfound hcb) 0
    obtain ⟨d, hd⟩ := getPriorityLoop_of_found getBase c b nHeight tx.vin
      (fun x hx => (hfound hcb x hx).imp fun _ ⟨_, hc, _⟩ => hc) 0
    exact ⟨⟨v, by simp [getValueIn, hcb, hv]⟩, ⟨computePriority tx d, by simp [getPriority, hcb, hd]⟩⟩

/-- **`HaveInputs` keeps its answer.** After `HaveInputs(tx)` returns `true` and any reads, over
any base, `GetValueIn(tx)` and `GetPriority(tx, nHeight)` succeed over any base without calling
it; for a transaction that is not a coinbase, `GetOutputFor` returns, for each input, the output
`HaveInputs` found available. -/
theorem haveInputs_keeps_outputs_available {τ : Type} (c c1 : CBreadcrumbsViewCache) (b b1 : σ)
    (tx : CTransaction) (h : c.haveInputs getBase b tx = (true, c1, b1))
    (c' : CBreadcrumbsViewCache) (hr : Reads c1 c')
    (getBase' : τ → uint256 → Option CBreadcrumbs × τ) (b' : τ)
    (computePriority : CTransaction → Float → Float) (nHeight : Int) :
    (∃ v, c'.getValueIn getBase' b' tx = some (v, c', b')) ∧
      (∃ d, c'.getPriority getBase' computePriority b' tx nHeight = some (d, c', b')) ∧
      (tx.isBreadcrumbBase = false → ∀ txin ∈ tx.vin, ∃ e o,
        c1.find txin.prevout.hash = some e ∧ outAt e.coins.vout txin.prevout.n = some o ∧
        c'.getOutputFor b' (getBase' b') txin = some (o, c', b')) := by
  have hfound := fun hcb => haveInputs_found getBase c c1 b b1 tx hcb h hr
  obtain ⟨hv, hp⟩ := inputs_return_of_found getBase' c' b' tx
    (fun hcb x hx => (hfound hcb x hx).imp fun _ ⟨o, _, ho, hc'⟩ => ⟨o, hc', ho⟩)
    computePriority nHeight
  refine ⟨hv, hp, fun hcb txin hx => ?_⟩
  obtain ⟨e, o, hc, ho, hc'⟩ := hfound hcb txin hx
  exact ⟨e, o, hc, ho, getOutputFor_of_find b' (getBase' b') hc' ho⟩

/-! ## 3. How much the helpers grow the cache -/

/-- `FetchBreadcrumbs` adds at most one entry. -/
theorem getCacheSize_fetchBreadcrumbs_le (c : CBreadcrumbsViewCache) (b : σ)
    (g : uint256 → Option CBreadcrumbs × σ) (txid : uint256) :
    (c.fetchBreadcrumbs b g txid).2.1.getCacheSize ≤ c.getCacheSize + 1 := by
  unfold fetchBreadcrumbs
  split
  · exact Nat.le_add_right _ _
  · rename_i hn
    split
    · exact Nat.le_add_right _ _
    · simp only [getCacheSize, put, AList.insert_entries_of_neg (AList.lookup_eq_none.mp hn),
        List.length_cons, le_refl]

/-- The loop of `HaveInputs` adds at most one entry per input. -/
theorem getCacheSize_haveInputsLoop_le (vin : List CTxIn) (c : CBreadcrumbsViewCache) (b : σ) :
    (haveInputsLoop getBase vin c b).2.1.getCacheSize ≤ c.getCacheSize + vin.length := by
  induction vin generalizing c b with
  | nil => exact Nat.le_add_right _ _
  | cons txin vin ih =>
    have hf := getCacheSize_fetchBreadcrumbs_le c b (getBase b) txin.prevout.hash
    simp only [haveInputsLoop, accessBreadcrumbs, List.length_cons]
    rcases hx : c.fetchBreadcrumbs b (getBase b) txin.prevout.hash with ⟨it, c1, b1⟩
    rw [hx] at hf
    dsimp only at hf ⊢
    split
    · have := ih c1 b1; omega
    · show c1.getCacheSize ≤ _; omega

/-- The loop of `GetValueIn`, when it returns, has added at most one entry per input. -/
theorem getCacheSize_getValueInLoop_le (vin : List CTxIn) (nResult : Int)
    (c c' : CBreadcrumbsViewCache) (b b' : σ) (v : Int)
    (h : getValueInLoop getBase vin nResult c b = some (v, c', b')) :
    c'.getCacheSize ≤ c.getCacheSize + vin.length := by
  induction vin generalizing nResult c b with
  | nil => cases h; exact Nat.le_add_right _ _
  | cons txin vin ih =>
    have hf := getCacheSize_fetchBreadcrumbs_le c b (getBase b) txin.prevout.hash
    simp only [getValueInLoop, getOutputFor, accessBreadcrumbs] at h
    rcases hx : c.fetchBreadcrumbs b (getBase b) txin.prevout.hash with ⟨it, c1, b1⟩
    rw [hx] at h hf
    dsimp only at hf
    cases it with
    | none => simp only [Option.map_none'] at h; cases h
    | some e =>
      cases ho : outAt e.coins.vout txin.prevout.n with
      | none => simp only [Option.map_some', ho, Option.map_none'] at h; cases h
      | some o =>
        simp only [Option.map_some', ho] at h
        have := ih _ c1 b1 h
        simp only [List.length_cons]
        omega

/-- The loop of `GetPriority`, when it returns, has added at most one entry per input. -/
theorem getCacheSize_getPriorityLoop_le (nHeight : Int) (vin : List CTxIn) (dResult : Float)
    (c c' : CBreadcrumbsViewCache) (b b' : σ) (d : Float)
    (h : getPriorityLoop getBase nHeight vin dResult c b = some (d, c', b')) :
    c'.getCacheSize ≤ c.getCacheSize + vin.length := by
  induction vin generalizing dResult c b with
  | nil => cases h; exact Nat.le_add_right _ _
  | cons txin vin ih =>
    have hf := getCacheSize_fetchBreadcrumbs_le c b (getBase b) txin.prevout.hash
    simp only [getPriorityLoop, accessBreadcrumbs] at h
    rcases hx : c.fetchBreadcrumbs b (getBase b) txin.prevout.hash with ⟨it, c1, b1⟩
    rw [hx] at h hf
    dsimp only at hf
    simp only [List.length_cons]
    cases it with
    | none => simp only [Option.map_none'] at h; cases h
    | some e =>
      simp only [Option.map_some'] at h
      -- every branch goes on with the rest of the inputs from `c1`
      have hrest : ∀ d', getPriorityLoop getBase nHeight vin d' c1 b1 = some (d, c', b') →
          c'.getCacheSize ≤ c.getCacheSize + (vin.length + 1) := fun d' h' => by
        have := ih d' c1 b1 h'; omega
      split at h
      · exact hrest _ h
      · split at h <;> exact hrest _ h

/-- **The input helpers grow the cache by at most one entry per input.** Over any base,
`HaveInputs(tx)` adds at most as many entries to the cache as `tx` has inputs, and so do
`GetValueIn(tx)` and `GetPriority(tx, nHeight)` when they return. -/
theorem inputs_getCacheSize_le (c : CBreadcrumbsViewCache) (b : σ) (tx : CTransaction)
    (computePriority : CTransaction → Float → Float) (nHeight : Int) :
    (c.haveInputs getBase b tx).2.1.getCacheSize ≤ c.getCacheSize + tx.vin.length ∧
      (∀ v c' b', c.getValueIn getBase b tx = some (v, c', b') →
        c'.getCacheSize ≤ c.getCacheSize + tx.vin.length) ∧
      (∀ d c' b', c.getPriority getBase computePriority b tx nHeight = some (d, c', b') →
        c'.getCacheSize ≤ c.getCacheSize + tx.vin.length) := by
  cases hcb : tx.isBreadcrumbBase
  · refine ⟨by simpa [haveInputs, hcb] using getCacheSize_haveInputsLoop_le getBase tx.vin c b,
      fun v c' b' h => ?_, fun d c' b' h => ?_⟩
    · simp only [getValueIn, hcb, Bool.false_eq_true, if_false] at h
      exact getCacheSize_getValueInLoop_le getBase tx.vin 0 c c' b b' v h
    · simp only [getPriority, hcb, Bool.false_eq_true, if_false, Option.map_eq_some'] at h
      obtain ⟨⟨d0, c1, b1⟩, hl, he⟩ := h
      cases he
      exact getCacheSize_getPriorityLoop_le getBase nHeight tx.vin 0 c c1 b b1 d0 hl
  · refine ⟨by simp [haveInputs, hcb], fun v c' b' h => ?_, fun d c' b' h => ?_⟩ <;>
      simp only [getValueIn, getPriority, hcb, if_true, Option.some.injEq, Prod.mk.injEq] at h <;>
      obtain ⟨-, rfl, -⟩ := h <;> exact Nat.le_add_right _ _

/-- A transaction spending output `0` of txid `1`, found by `HaveInputs` over a base holding it;
afterwards the base answers nothing. -/
theorem haveInputs_keeps_outputs_available_one_input :
    (∃ v, (CBreadcrumbsViewCache.new.haveInputs
        (fun (_ : Unit) t => (if t = 1 then some ⟨false, [some ⟨5000, []⟩], 10, 1⟩ else none, ()))
        () ⟨false, [⟨⟨1, 0⟩⟩], [], 1⟩).2.1.getValueIn (fun (_ : Unit) _ => (none, ())) ()
        ⟨false, [⟨⟨1, 0⟩⟩], [], 1⟩ = some (v, (CBreadcrumbsViewCache.new.haveInputs
        (fun (_ : Unit) t => (if t = 1 then some ⟨false, [some ⟨5000, []⟩], 10, 1⟩ else none, ()))
        () ⟨false, [⟨⟨1, 0⟩⟩], [], 1⟩).2.1, ())) :=
  (haveInputs_keeps_outputs_available
    (fun (_ : Unit) t => (if t = 1 then some ⟨false, [some ⟨5000, []⟩], 10, 1⟩ else none, ()))
    .new _ () () ⟨false, [⟨⟨1, 0⟩⟩], [], 1⟩ rfl _ (.refl _) (fun (_ : Unit) _ => (none, ())) ()
    (fun _ d => d) 10).1

/-- A coinbase: `HaveInputs` is `true` on a new cache over a base that holds nothing, and
`GetOutputFor` on its input fails. -/
theorem haveInputs_coinbase_getOutputFor_fails :
    CBreadcrumbsViewCache.new.haveInputs (fun (_ : Unit) _ => (none, ())) ()
        ⟨true, [⟨⟨0, 0xFFFFFFFF⟩⟩], [], 1⟩ = (true, .new, ()) ∧
      ∃ txin ∈ [(⟨⟨0, 0xFFFFFFFF⟩⟩ : CTxIn)],
        CBreadcrumbsViewCache.new.getOutputFor () (fun _ => (none, ())) txin = none :=
  ⟨rfl, _, List.mem_singleton_self _, rfl⟩

end CBreadcrumbsViewCache

end Duckcoin
