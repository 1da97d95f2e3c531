/-
Duckcoin.FlushTheorems — what `Flush` hands its base: the raw `hashBlock`
field, and the map while a modifier is outstanding.

`Flush` calls `base->BatchWrite(cacheBreadcrumbs, hashBlock)` with the
field itself, and `BatchWrite` stores the hash it is given. The field is
`uint256(0)` until the cache reads or sets its best block, so:

- `flush_hands_down_hashBlock`: flushing a tip into a cache parent leaves
  the parent's `hashBlock` equal to the tip's field, `0` included.
- `flush_resets_parent_best_block`: a tip that never read or set its best
  block reports its parent's; once flushed into the parent, the parent
  reports its own base's best block, whatever hash it had been set to.
  `flush_unread_child_diverges_from_eager` is such a run from the test
  view: the parent's `SetBestBlock(2)` is lost by the flush, while the
  eager cache of `stepEager` keeps it.

`Flush`, unlike `BatchWrite`, `ModifyBreadcrumbs` and the destructor, does
not assert `!hasModifier`:

- `flush_drops_modified_entry`: with a modifier outstanding on the entry
  of `t`, `Flush` completes, hands the base the mutated record before the
  modifier's `Cleanup`, and empties the map; the modifier then points at
  no entry, and its release fails.
-/
import Duckcoin.StackInvariants

namespace Duckcoin

open CBreadcrumbsViewCache

namespace CBreadcrumbsViewCache

/-- `BatchWrite` stores the hash it is given. -/
theorem hashBlock_of_batchWrite {c c' : CBreadcrumbsViewCache} {M M' : CBreadcrumbsMap}
    {h : uint256} {ok : Bool} (hbw : c.batchWrite M h = some (ok, M', c')) : c'.hashBlock = h := by
  unfold batchWrite at hbw
  split at hbw
  · cases hbw
  · obtain ⟨_, -, hc⟩ := Option.map_eq_some'.mp hbw
    cases hc
    rfl

end CBreadcrumbsViewCache

namespace View

/-! ## 1. The best block a flush hands down -/

/-- **`Flush` hands down the raw field.** Flushing and popping a tip `c` over a cache parent `p`
succeeds from the flag invariant, and the parent's `hashBlock` becomes `c.hashBlock`. -/
theorem flush_hands_down_hashBlock (c p : CBreadcrumbsViewCache) (pbase : View)
    (hv : (cache c (cache p pbase)).FlagsInv) :
    ∃ p', step (cache c (cache p pbase)) (.flush true) = some (.done, cache p' pbase) ∧
      p'.hashBlock = c.hashBlock := by
  obtain ⟨hm, hfc, hpm, -, -⟩ := hv
  obtain ⟨p', hbw, -⟩ := p.batchWrite_spec hpm c.cacheBreadcrumbs c.hashBlock
    fun t e hc _ hn _ => hfc.fresh_of_find_none t e hc hn
  exact ⟨p', by simp [step, flush, View.batchWrite, hbw, hm], hashBlock_of_batchWrite hbw⟩

/-- **The parent's best block is lost.** A tip that never read or set its best block reports its
parent's; after it is flushed and popped, the parent reports its own base's best block, whatever
hash the parent had been set to. -/
theorem flush_resets_parent_best_block (c p : CBreadcrumbsViewCache) (pbase : View)
    (hv : (cache c (cache p pbase)).FlagsInv) (h0 : c.hashBlock = 0) :
    (cache c (cache p pbase)).getBestBlock.1 = (cache p pbase).getBestBlock.1 ∧
      ∃ p', step (cache c (cache p pbase)) (.flush true) = some (.done, cache p' pbase) ∧
        (cache p' pbase).getBestBlock.1 = pbase.getBestBlock.1 := by
  obtain ⟨p', hstep, hblock⟩ := flush_hands_down_hashBlock c p pbase hv
  refine ⟨by rw [getBestBlock_cache_eq, if_pos h0], p', hstep, ?_⟩
  rw [getBestBlock_cache_eq, if_pos (hblock.trans h0)]

/-- A parent set to block `2` over a test view at block `1`, and a new tip over it. -/
theorem flush_resets_parent_best_block_set_parent :
    ((cache .new (cache (CBreadcrumbsViewCache.new.setBestBlock 2)
        (.test ⟨1, fun _ => none, fun _ => 0, 0⟩))).getBestBlock.1 = 2) ∧
      ∃ p', step (cache .new (cache (CBreadcrumbsViewCache.new.setBestBlock 2)
          (.test ⟨1, fun _ => none, fun _ => 0, 0⟩))) (.flush true) = some (.done, cache p'
          (.test ⟨1, fun _ => none, fun _ => 0, 0⟩)) ∧
        (cache p' (.test ⟨1, fun _ => none, fun _ => 0, 0⟩)).getBestBlock.1 = 1 :=
  flush_resets_parent_best_block .new (CBreadcrumbsViewCache.new.setBestBlock 2)
    (.test ⟨1, fun _ => none, fun _ => 0, 0⟩)
    ⟨rfl, FlagsOk.of_find_none _ find_new, rfl, FlagsOk.of_find_none _ find_new, trivial⟩ rfl

/-- The run `push; SetBestBlock(2); push; Flush and pop` from a test view at block `1`: before the
flush the tip reports `2`; after it the parent reports `1`, where the eager variant reports `2`. -/
theorem flush_unread_child_diverges_from_eager :
    (run (.test ⟨1, fun _ => none, fun _ => 0, 0⟩) [.push, .setBestBlock 2, .push]).map
        (fun v => v.getBestBlock.1) = some 2 ∧
      (run (.test ⟨1, fun _ => none, fun _ => 0, 0⟩)
        [.push, .setBestBlock 2, .push, .flush true]).map (fun v => v.getBestBlock.1) = some 1 ∧
      (runEager (.test ⟨1, fun _ => none, fun _ => 0, 0⟩)
        [.push, .setBestBlock 2, .push, .flush true]).map (fun v => v.getBestBlock.1) = some 2 :=
  ⟨rfl, rfl, rfl⟩

/-! ## 2. A flush under an outstanding modifier -/

/-- **`Flush` under an outstanding modifier.** On a cache `c` over `base` satisfying the flag
invariant, `ModifyBreadcrumbs(t)` and a mutation `f` through its modifier succeed. `Flush` then
completes with the modifier outstanding: the base receives `f` of the presented record, before
the release's `Cleanup`, and the map is emptied, so the modifier points at no entry and its
release fails. -/
theorem flush_drops_modified_entry (c : CBreadcrumbsViewCache) (base : View) (t : uint256)
    (f : CBreadcrumbs → CBreadcrumbs) (hv : (cache c base).FlagsInv) :
    ∃ (p : CBreadcrumbs) (c1 c2 c3 : CBreadcrumbsViewCache) (base1 base2 : View),
      c.modifyBreadcrumbs base base.getBreadcrumbs t = some (⟨t⟩, c1, base1) ∧
      (p == (cache c base).value t) = true ∧
      (⟨t⟩ : CBreadcrumbsModifier).mutate c1 f = some c2 ∧
      c2.flush base1.batchWrite = some (true, c3, base2) ∧
      (base2.value t == f p) = true ∧
      c3.hasModifier = true ∧ c3.find t = none ∧
      (⟨t⟩ : CBreadcrumbsModifier).release c3 = none := by
  obtain ⟨hm, hf, hb⟩ := hv
  obtain ⟨e, base1, hmod, hread, hval, hfr, hpar⟩ := modifyBreadcrumbs_spec c base t hm hf
  -- the modified entry, `DIRTY` and holding the mutated record
  let e2 : CBreadcrumbsCacheEntry := { e with dirty := true, coins := f e.coins }
  let c2 := ((c.put t { e with dirty := true }).setModifier true).put t e2
  have hmut : (⟨t⟩ : CBreadcrumbsModifier).mutate ((c.put t { e with dirty := true }).setModifier true)
      f = some c2 := by
    simp [CBreadcrumbsModifier.mutate, c2, e2]
  have hf2 : FlagsOk c2 base1 :=
    (((hf.mono hread).put t { e with dirty := true } (fun h => hread.value ▸ hfr h) nofun
      hpar).of_find (find_setModifier _ true)).put t e2 (fun h => hread.value ▸ hfr h) nofun hpar
  obtain ⟨base2, hfl, hval2, -⟩ := flush_spec c2 base1 hf2 (hread.flagsInv hb)
  refine ⟨e.coins, _, c2, _, base1, base2, hmod, hval, hmut, hfl, ?_, by simp [c2], by simp [find],
    by simp [CBreadcrumbsModifier.release, c2, find]⟩
  simpa [c2, e2] using hval2 t

/-- A new cache over an empty test view: the modifier of txid `1` sets output `0`, and the flush
under it hands that record down and leaves the modifier dangling. -/
theorem flush_drops_modified_entry_new_cache :
    ∃ (p : CBreadcrumbs) (c1 c2 c3 : CBreadcrumbsViewCache) (base1 base2 : View),
      CBreadcrumbsViewCache.new.modifyBreadcrumbs (.test ⟨0, fun _ => none, fun _ => 0, 0⟩)
          (View.test ⟨0, fun _ => none, fun _ => 0, 0⟩).getBreadcrumbs 1 = some (⟨1⟩, c1, base1) ∧
      (p == (cache .new (.test ⟨0, fun _ => none, fun _ => 0, 0⟩)).value 1) = true ∧
      (⟨1⟩ : CBreadcrumbsModifier).mutate c1
          (fun r => { r with vout := [some ⟨5000, []⟩] }) = some c2 ∧
      c2.flush base1.batchWrite = some (true, c3, base2) ∧
      (base2.value 1 == { p with vout := [some ⟨5000, []⟩] }) = true ∧
      c3.hasModifier = true ∧ c3.find 1 = none ∧
      (⟨1⟩ : CBreadcrumbsModifier).release c3 = none :=
  flush_drops_modified_entry .new (.test ⟨0, fun _ => none, fun _ => 0, 0⟩) 1
    (fun r => { r with vout := [some ⟨5000, []⟩] })
    ⟨rfl, FlagsOk.of_find_none _ find_new, trivial⟩

end View

end Duckcoin
