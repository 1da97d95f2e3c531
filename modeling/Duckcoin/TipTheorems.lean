/-
Duckcoin.TipTheorems — what stays in the tip of the stack until `Flush`,
and `Flush` done twice.

A cache writes to its base only in `Flush`: `ModifyBreadcrumbs` and the
modifier's release touch the tip's own map, and a read of any layer, like
`GetBestBlock`, only copies values up. So:

- `run_tipLocal`: from a stack satisfying the flag invariant, a run of
  modifications, reads and best-block operations, with no push, discard
  or flush, succeeds, leaves the logical values of every layer below the
  tip as they were, and changes the tip's value only at the txids it
  modifies.
- `flush_flush`: a second `Flush` right after a `Flush` changes nothing:
  the map it hands down is empty, and the hash is the one the first
  handed down.
- `batchWrite_skips_clean`: `BatchWrite` skips the entries that are not
  `DIRTY` ("optimization"); under the flag invariant such an entry is `==`
  to the value below it, so merging it too (`batchWriteAll`) would leave
  the same logical values.
-/
import Duckcoin.StackInvariants

namespace Duckcoin

open CBreadcrumbsViewCache

/-- The operations that act on the tip alone: a modification, a read of any layer, and the best
block. -/
def StackOp.isTipLocal : StackOp → Bool
  | .modify _ _ | .read _ _ | .setBestBlock _ | .getBestBlock => true
  | .push | .discard | .flush _ => false

/-- The txid an operation modifies, if it is a modification. -/
def StackOp.modifies : StackOp → Option uint256
  | .modify t _ => some t
  | _ => none

namespace View

/-! ## 1. Writes stay in the tip -/

/-- A read keeps the flag invariant and the values of every layer, so those below the tip and
the tip's at every txid. -/
theorem tipLocal_of_readStep {v v' : View} (h : ReadStep v v') (hv : v.FlagsInv) (op : StackOp) :
    v'.FlagsInv ∧ v'.values.tail = v.values.tail ∧
      ∀ t, op.modifies ≠ some t → v'.value t = v.value t :=
  ⟨h.flagsInv hv, by rw [h.values], fun t _ => by rw [h.value]⟩

/-- One operation on the tip alone, from a stack satisfying the flag invariant: it succeeds,
keeps the invariant and the values below the tip, and changes the tip's value at most at the
txid it modifies. -/
theorem step_tipLocal (v : View) (op : StackOp) (hop : op.isTipLocal = true) (hv : v.FlagsInv) :
    ∃ obs v', step v op = some (obs, v') ∧ v'.FlagsInv ∧ v'.values.tail = v.values.tail ∧
      ∀ t, op.modifies ≠ some t → v'.value t = v.value t := by
  cases op with
  | push | discard | flush _ => cases hop
  | modify t f =>
    cases v with
    | test b => exact ⟨_, _, rfl, tipLocal_of_readStep (ReadStep.refl _) hv _⟩
    | cache c base =>
      obtain ⟨p, v', h, -, htail, hother, -, hfi, -⟩ := modifyOnTip_spec c base t f hv
      exact ⟨.presented p, v', by simp [step, h], hfi, htail,
        fun t' ht' => hother t' fun h => ht' (congrArg some h).symm⟩
  | read k t => exact ⟨_, _, rfl, tipLocal_of_readStep (readAt_spec k v t).1 hv _⟩
  | setBestBlock h =>
    cases v with
    | test b => exact ⟨_, _, rfl, tipLocal_of_readStep (ReadStep.refl _) hv _⟩
    | cache c base =>
      have hr : ReadStep (cache c base) (cache (c.setBestBlock h) base) :=
        readStep_cache_of_find rfl rfl (ReadStep.refl base)
      exact ⟨_, _, rfl, tipLocal_of_readStep hr hv _⟩
  | getBestBlock => exact ⟨_, _, rfl, tipLocal_of_readStep (getBestBlock_spec v) hv _⟩

/-- **Writes stay in the tip until `Flush`.** From a stack satisfying the flag invariant, a run
of modifications, reads and best-block operations succeeds, leaves the logical values of every
layer below the tip as they were, and changes the tip's value only at the txids it modifies. -/
theorem run_tipLocal (v : View) (ops : List StackOp) (hv : v.FlagsInv)
    (hops : ∀ op ∈ ops, op.isTipLocal = true) :
    ∃ v', run v ops = some v' ∧ v'.values.tail = v.values.tail ∧
      ∀ t, (∀ op ∈ ops, op.modifies ≠ some t) → v'.value t = v.value t := by
  induction ops generalizing v with
  | nil => exact ⟨v, rfl, rfl, fun _ _ => rfl⟩
  | cons op ops ih =>
    obtain ⟨obs, v1, h1, hv1, htail1, hval1⟩ :=
      step_tipLocal v op (hops op (List.mem_cons_self _ _)) hv
    obtain ⟨v', h', htail', hval'⟩ := ih v1 hv1 fun o ho => hops o (List.mem_cons_of_mem _ ho)
    refine ⟨v', by simp [run, h1, h'], htail'.trans htail1, fun t ht => ?_⟩
    rw [hval' t (fun o ho => ht o (List.mem_cons_of_mem _ ho)),
      hval1 t (ht op (List.mem_cons_self _ _))]

/-- A new cache over an empty test view: txid `1` modified, then layer `1` read. -/
theorem run_tipLocal_modify_read :
    (cache .new (.test ⟨0, fun _ => none, fun _ => 0, 0⟩)).FlagsInv ∧
      (∀ op ∈ [StackOp.modify 1 (fun r => { r with vout := [some (TxOut.mk 5 [])] }),
        StackOp.read 1 2], op.isTipLocal = true) ∧
      ∃ v', run (cache .new (.test ⟨0, fun _ => none, fun _ => 0, 0⟩))
          [.modify 1 (fun r => { r with vout := [some (TxOut.mk 5 [])] }), .read 1 2] = some v' ∧
        v'.values.tail = (cache .new (.test ⟨0, fun _ => none, fun _ => 0, 0⟩)).values.tail ∧
        ∀ t, (∀ op ∈ [StackOp.modify 1 (fun r => { r with vout := [some (TxOut.mk 5 [])] }),
          StackOp.read 1 2], op.modifies ≠ some t) →
          v'.value t = (cache .new (.test ⟨0, fun _ => none, fun _ => 0, 0⟩)).value t :=
  have hv : (cache .new (.test ⟨0, fun _ => none, fun _ => 0, 0⟩)).FlagsInv :=
    ⟨rfl, FlagsOk.of_find_none _ find_new, trivial⟩
  have hops : ∀ op ∈ [StackOp.modify 1 (fun r => { r with vout := [some (TxOut.mk 5 [])] }),
      StackOp.read 1 2], op.isTipLocal = true := by
    simp [StackOp.isTipLocal]
  ⟨hv, hops, run_tipLocal _ _ hv hops⟩

/-! ## 2. `Flush` twice -/

/-- After a flush of `c`, the base takes an empty `BatchWrite` with the same hash without
change. -/
theorem batchWrite_empty_of_flush {c : CBreadcrumbsViewCache} {base base' : View} {ok : Bool}
    {c' : CBreadcrumbsViewCache} (hv : (cache c base).FlagsInv)
    (hfl : c.flush base.batchWrite = some (ok, c', base')) :
    base'.batchWrite ∅ c.hashBlock = some (true, ∅, base') := by
  simp only [flush, Option.map_eq_some'] at hfl
  obtain ⟨⟨ok1, m1, b1⟩, hbw, he⟩ := hfl
  simp only [Prod.mk.injEq] at he
  obtain ⟨-, -, rfl⟩ := he
  cases base with
  | test b =>
    simp only [View.batchWrite, CBreadcrumbsViewTest.batchWrite, Option.map_some',
      Option.some.injEq, Prod.mk.injEq] at hbw
    obtain ⟨-, -, rfl⟩ := hbw
    rfl
  | cache p pbase =>
    obtain ⟨-, hfc, hpm, -, -⟩ := hv
    obtain ⟨p', hbw', -, hpm', hblock'⟩ := p.batchWrite_spec hpm c.cacheBreadcrumbs c.hashBlock
      fun t e hc _ hn _ => hfc.fresh_of_find_none t e hc hn
    simp only [View.batchWrite, hbw', Option.map_some', Option.some.injEq, Prod.mk.injEq] at hbw
    obtain ⟨-, -, rfl⟩ := hbw
    simp only [View.batchWrite, CBreadcrumbsViewCache.batchWrite, hpm', Bool.false_eq_true,
      if_false]
    rw [← hblock']
    rfl

/-- **`Flush` twice is `Flush` once.** On a cache over a stack satisfying the flag invariant, a
`Flush` succeeds, and a second `Flush` right after it succeeds and leaves the whole stack as the
first left it. -/
theorem flush_flush (c : CBreadcrumbsViewCache) (base : View) (hv : (cache c base).FlagsInv) :
    ∃ v', step (cache c base) (.flush false) = some (.done, v') ∧
      step v' (.flush false) = some (.done, v') := by
  obtain ⟨base', hfl, -⟩ := flush_spec c base hv.2.1 hv.2.2
  have hbw := batchWrite_empty_of_flush hv hfl
  refine ⟨cache { c with cacheBreadcrumbs := ∅ } base', by simp [step, hfl], ?_⟩
  simp [step, flush, hbw]

/-- A cache over a test view holding a record for txid `1`: the cache holds that record as read
(not `DIRTY`) and a new record for txid `2` (`DIRTY`, `FRESH`), and is flushed twice. -/
theorem flush_flush_read_and_new_entry :
    let r1 : CBreadcrumbs := ⟨false, [some (TxOut.mk 5000 [])], 10, 1⟩
    let B : CBreadcrumbsViewTest := ⟨0, fun t => if t = 1 then some r1 else none, fun _ => 0, 0⟩
    let e1 : CBreadcrumbsCacheEntry := ⟨r1, false, false⟩
    let e2 : CBreadcrumbsCacheEntry := ⟨⟨false, [some (TxOut.mk 7 [])], 12, 1⟩, true, true⟩
    let c := (CBreadcrumbsViewCache.new.put 1 e1).put 2 e2
    (cache c (.test B)).FlagsInv ∧
      ∃ v', step (cache c (.test B)) (.flush false) = some (.done, v') ∧
        step v' (.flush false) = some (.done, v') := by
  intro r1 B e1 e2 c
  have hv : (cache c (.test B)).FlagsInv :=
    ⟨rfl, ((FlagsOk.of_find_none (.test B) find_new).put 1 e1 nofun (fun _ => rfl) fun _ => rfl).put
      2 e2 (fun _ => rfl) nofun nofun, trivial⟩
  exact ⟨hv, flush_flush c _ hv⟩

end View

/-! ## 3. Skipping the clean entries -/

namespace CBreadcrumbsViewCache

/-- `BatchWrite` without the check its comment calls an optimization: every entry of
`mapBreadcrumbs` is merged as a `DIRTY` one. Not a function of the source: the reference for
`batchWrite_skips_clean`. -/
def batchWriteAll (c : CBreadcrumbsViewCache) (mapBreadcrumbs : CBreadcrumbsMap)
    (hashBlockIn : uint256) : Option (Bool × CBreadcrumbsMap × CBreadcrumbsViewCache) :=
  if c.hasModifier then none else
  (batchWriteLoop c (mapBreadcrumbs.entries.map fun x => ⟨x.1, { x.2 with dirty := true }⟩)).map
    fun c' => (true, ∅, { c' with hashBlock := hashBlockIn })

/-- What `batchWriteAll` does, as `batchWrite_spec` says it of `BatchWrite`. -/
theorem batchWriteAll_spec (c : CBreadcrumbsViewCache) (hmod : c.hasModifier = false)
    (M : CBreadcrumbsMap) (hashBlockIn : uint256)
    (hok : ∀ t e, M.lookup t = some e → FreshAsserted (c.find t) { e with dirty := true }) :
    ∃ c', c.batchWriteAll M hashBlockIn = some (true, ∅, c') ∧
      ∀ t, c'.find t = match M.lookup t with
        | some e => mergedEntry (c.find t) { e with dirty := true }
        | none => c.find t := by
  have hlookup : ∀ t, (M.entries.map fun x => (⟨x.1, { x.2 with dirty := true }⟩ :
      Σ _ : uint256, CBreadcrumbsCacheEntry)).dlookup t =
        (M.lookup t).map fun e => { e with dirty := true } :=
    fun t => @List.dlookup_map₂ _ _ (fun _ => CBreadcrumbsCacheEntry) (fun _ => CBreadcrumbsCacheEntry)
      M.entries (fun _ e => { e with dirty := true }) t
  have hnd : (M.entries.map fun x => (⟨x.1, { x.2 with dirty := true }⟩ :
      Σ _ : uint256, CBreadcrumbsCacheEntry)).NodupKeys := by
    simpa [List.NodupKeys, List.keys, Function.comp_def] using M.nodupKeys
  obtain ⟨c', h', hfind', -, -⟩ := batchWriteLoop_spec _ hnd c fun t e he => by
    rw [hlookup, Option.map_eq_some'] at he
    obtain ⟨e', he', rfl⟩ := he
    exact hok t e' he'
  refine ⟨{ c' with hashBlock := hashBlockIn }, by simp [batchWriteAll, hmod, h'], fun t => ?_⟩
  rw [show ({ c' with hashBlock := hashBlockIn } : CBreadcrumbsViewCache).find t = c'.find t
    from rfl, hfind' t, hlookup]
  cases M.lookup t <;> rfl

end CBreadcrumbsViewCache

namespace View

/-- **Skipping the clean entries is only an optimization.** Flushing a tip into a cache over a
stack satisfying the flag invariant, `BatchWrite` succeeds, and so would `batchWriteAll`, which
merges the entries that are not `DIRTY` too; the logical values of the layer they leave are the
same (`==`). -/
theorem batchWrite_skips_clean (c p : CBreadcrumbsViewCache) (pbase : View)
    (hv : (cache c (cache p pbase)).FlagsInv) :
    ∃ p₁ p₂, p.batchWrite c.cacheBreadcrumbs c.hashBlock = some (true, ∅, p₁) ∧
      p.batchWriteAll c.cacheBreadcrumbs c.hashBlock = some (true, ∅, p₂) ∧
      ∀ t, ((cache p₂ pbase).value t == (cache p₁ pbase).value t) = true := by
  obtain ⟨-, hfc, hpm, hfp, -⟩ := hv
  obtain ⟨p₁, hbw₁, hfind₁, -, -⟩ := p.batchWrite_spec hpm c.cacheBreadcrumbs c.hashBlock
    fun t e hc _ hn _ => hfc.fresh_of_find_none t e hc hn
  obtain ⟨p₂, hbw₂, hfind₂⟩ := p.batchWriteAll_spec hpm c.cacheBreadcrumbs c.hashBlock
    fun t e hc _ hn _ => hfc.fresh_of_find_none t e hc hn
  refine ⟨p₁, p₂, hbw₁, hbw₂, fun t => ?_⟩
  have hall : ((cache p₂ pbase).value t == (cache c (cache p pbase)).value t) = true := by
    simp only [value_cache]
    rw [hfind₂ t]
    cases hc : c.cacheBreadcrumbs.lookup t with
    | none => simp [show c.find t = none from hc]
    | some e =>
      rw [show c.find t = some e from hc, entryValue_some]
      exact entryValue_mergedEntry (show ({ e with dirty := true } : CBreadcrumbsCacheEntry).dirty
        = true from rfl) (fun u hu => hfp.fresh t u hu) (hfc.fresh t e hc)
        (hfc.fresh_of_find_none t e hc)
  exact CBreadcrumbs.beq_trans hall (CBreadcrumbs.beq_symm (value_merged hfc hfp hfind₁ t))

/-- A test view holding a record for txid `1`, a cache over it that has read that record, and a
tip over that cache holding the same record as read (not `DIRTY`) and a new record for txid `2`
(`DIRTY`, `FRESH`): the tip flushed into the cache below. -/
theorem batchWrite_skips_clean_read_entry :
    let r1 : CBreadcrumbs := ⟨false, [some (TxOut.mk 5000 [])], 10, 1⟩
    let B : CBreadcrumbsViewTest := ⟨0, fun t => if t = 1 then some r1 else none, fun _ => 0, 0⟩
    let e1 : CBreadcrumbsCacheEntry := ⟨r1, false, false⟩
    let e2 : CBreadcrumbsCacheEntry := ⟨⟨false, [some (TxOut.mk 7 [])], 12, 1⟩, true, true⟩
    let p := CBreadcrumbsViewCache.new.put 1 e1
    let c := p.put 2 e2
    (cache c (cache p (.test B))).FlagsInv ∧
      ∃ p₁ p₂, p.batchWrite c.cacheBreadcrumbs c.hashBlock = some (true, ∅, p₁) ∧
        p.batchWriteAll c.cacheBreadcrumbs c.hashBlock = some (true, ∅, p₂) ∧
        ∀ t, ((cache p₂ (.test B)).value t == (cache p₁ (.test B)).value t) = true := by
  intro r1 B e1 e2 p c
  have hp : FlagsOk p (.test B) :=
    (FlagsOk.of_find_none (.test B) find_new).put 1 e1 nofun (fun _ => rfl) fun _ => rfl
  have hv : (cache c (cache p (.test B))).FlagsInv :=
    ⟨rfl, ((FlagsOk.of_find_none (cache p (.test B)) find_new).put 1 e1 nofun (fun _ => rfl)
      fun _ => rfl).put 2 e2 (fun _ => rfl) nofun nofun, rfl, hp, trivial⟩
  exact ⟨hv, batchWrite_skips_clean c p _ hv⟩

end View

end Duckcoin
