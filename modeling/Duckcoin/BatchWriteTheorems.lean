/-
Duckcoin.BatchWriteTheorems — what `BatchWrite` does to a cache, txid by
txid.

* `batchWriteLoop_spec`: the loop gets through every child entry whose
  `FRESH` assertion holds, and leaves the entry of each txid as
  `mergedEntry` of the old entry and the child's entry for that txid. The
  child's entries have distinct txids, so no visit sees another's effect.
* `batchWrite_merges`: the contract of `BatchWrite` over every parent
  state and every child map meeting the flag preconditions: no assertion
  fails, the child map is emptied, the best block is set, the logical
  value of each txid becomes (`==`) the child's dirty record or is left
  alone, and every `FRESH` entry still has a pruned value below it.

How the proofs go. `batchWriteEntry_spec` is the one place the four
branches of the loop body are split; every later fact about a merged
entry is read off `mergedEntry` (`entryValue_mergedEntry`,
`fresh_of_mergedEntry`).
-/
import Duckcoin.ViewCache

namespace Duckcoin

/-- The record an entry slot stands for over the record `r` below it: the entry's record, or
`r` when there is no entry (pruned and absent records stand for the same). -/
def entryValue : Option CBreadcrumbsCacheEntry → CBreadcrumbs → CBreadcrumbs
  | some e, _ => e.coins
  | none, r => r

@[simp] theorem entryValue_some (e : CBreadcrumbsCacheEntry) (r : CBreadcrumbs) :
    entryValue (some e) r = e.coins := rfl

@[simp] theorem entryValue_none (r : CBreadcrumbs) : entryValue none r = r := rfl

namespace CBreadcrumbsViewCache

/-- The logical value of `txid` in cache `c` over a view whose logical values are `below`. -/
def value (c : CBreadcrumbsViewCache) (below : uint256 → CBreadcrumbs) (txid : uint256) :
    CBreadcrumbs :=
  entryValue (c.find txid) (below txid)

/-! ## 1. One child entry -/

/-- The `FRESH` assertion of `BatchWrite` holds for the child's entry `e` against this cache's
entry `us`: a dirty, non-pruned child entry with nothing here is `FRESH`. -/
def FreshAsserted (us : Option CBreadcrumbsCacheEntry) (e : CBreadcrumbsCacheEntry) : Prop :=
  e.dirty = true → us = none → e.coins.isPruned = false → e.fresh = true

/-- What the loop body of `BatchWrite` makes of this cache's entry `us` of a txid whose child
entry is `e`. -/
def mergedEntry (us : Option CBreadcrumbsCacheEntry) (e : CBreadcrumbsCacheEntry) :
    Option CBreadcrumbsCacheEntry :=
  if e.dirty then
    match us with
    | none => if e.coins.isPruned then none else some ⟨e.coins, true, true⟩
    | some us =>
      if us.fresh && e.coins.isPruned then none else some { us with coins := e.coins, dirty := true }
  else us

theorem find_eq_ite (c : CBreadcrumbsViewCache) (txid t : uint256) :
    c.find t = if t = txid then c.find txid else c.find t := by
  split <;> subst_vars <;> rfl

/-- **The loop body of `BatchWrite`.** When the `FRESH` assertion holds it succeeds, changes only
the entry of `txid`, into `mergedEntry`, and keeps the modifier flag and the best block. -/
theorem batchWriteEntry_spec (c : CBreadcrumbsViewCache) (txid : uint256)
    (e : CBreadcrumbsCacheEntry) (h : FreshAsserted (c.find txid) e) :
    ∃ c', c.batchWriteEntry txid e = some c' ∧
      (∀ t, c'.find t = if t = txid then mergedEntry (c.find txid) e else c.find t) ∧
      c'.hasModifier = c.hasModifier ∧ c'.hashBlock = c.hashBlock := by
  unfold batchWriteEntry mergedEntry
  cases hd : e.dirty
  · exact ⟨c, rfl, find_eq_ite c txid, rfl, rfl⟩
  cases hus : c.find txid with
  | none =>
    cases hp : e.coins.isPruned
    · exact ⟨c.put txid ⟨e.coins, true, true⟩, by simp [h hd hus hp], fun t => find_put c txid t _,
        rfl, rfl⟩
    · exact ⟨c, rfl, fun t => by by_cases ht : t = txid <;> simp [ht, hus], rfl, rfl⟩
  | some us =>
    by_cases hfp : (us.fresh && e.coins.isPruned) = true
    · exact ⟨c.erase txid, by simp [hfp], fun t => by
        by_cases ht : t = txid <;> simp [ht, hfp, find_erase], rfl, rfl⟩
    · exact ⟨c.put txid { us with coins := e.coins, dirty := true }, by simp [hfp], fun t => by
        by_cases ht : t = txid <;> simp [ht, hfp, find_put], rfl, rfl⟩

/-! ## 2. The loop -/

/-- **The loop of `BatchWrite`.** Over child entries with distinct txids whose `FRESH` assertions
all hold, it succeeds and leaves every txid's entry as `mergedEntry` of the old one and the
child's entry for it, if any. -/
theorem batchWriteLoop_spec (l : List (Σ _ : uint256, CBreadcrumbsCacheEntry))
    (hl : l.NodupKeys) (c : CBreadcrumbsViewCache)
    (hok : ∀ t e, l.dlookup t = some e → FreshAsserted (c.find t) e) :
    ∃ c', batchWriteLoop c l = some c' ∧
      (∀ t, c'.find t = match l.dlookup t with
        | some e => mergedEntry (c.find t) e
        | none => c.find t) ∧
      c'.hasModifier = c.hasModifier ∧ c'.hashBlock = c.hashBlock := by
  induction l generalizing c with
  | nil => exact ⟨c, rfl, fun t => rfl, rfl, rfl⟩
  | cons x rest ih =>
    obtain ⟨txid, e⟩ := x
    rw [List.nodupKeys_cons] at hl
    obtain ⟨c1, h1, hfind1, hmod1, hblock1⟩ :=
      batchWriteEntry_spec c txid e (hok txid e (List.dlookup_cons_eq _ _ _))
    -- the other child entries see this cache's entries as before
    have hne : ∀ t, (rest.dlookup t).isSome → t ≠ txid := fun t ht htx =>
      hl.1 (htx ▸ List.dlookup_isSome.mp ht)
    obtain ⟨c', h', hfind', hmod', hblock'⟩ := ih hl.2 c1 fun t e' ht => by
      have htne := hne t (by simp [ht])
      rw [hfind1, if_neg htne]
      exact hok t e' (by rw [List.dlookup_cons_ne _ _ htne, ht])
    refine ⟨c', by simp [batchWriteLoop, h1, h'], fun t => ?_, hmod'.trans hmod1,
      hblock'.trans hblock1⟩
    rw [hfind']
    by_cases ht : t = txid
    · subst ht
      have hnone : rest.dlookup t = none := List.dlookup_eq_none.mpr hl.1
      rw [hnone, hfind1, if_pos rfl, List.dlookup_cons_eq]
    · rw [List.dlookup_cons_ne _ _ ht, hfind1, if_neg ht]

/-- `BatchWrite` with no modifier outstanding and every `FRESH` assertion holding: it succeeds,
empties the child map, sets the best block, and merges every child entry. -/
theorem batchWrite_spec (c : CBreadcrumbsViewCache) (hmod : c.hasModifier = false)
    (M : CBreadcrumbsMap) (hashBlockIn : uint256)
    (hok : ∀ t e, M.lookup t = some e → FreshAsserted (c.find t) e) :
    ∃ c', c.batchWrite M hashBlockIn = some (true, ∅, c') ∧
      (∀ t, c'.find t = match M.lookup t with
        | some e => mergedEntry (c.find t) e
        | none => c.find t) ∧
      c'.hasModifier = false ∧ c'.hashBlock = hashBlockIn := by
  obtain ⟨c', h', hfind', hmod', -⟩ := batchWriteLoop_spec M.entries M.nodupKeys c hok
  exact ⟨{ c' with hashBlock := hashBlockIn }, by simp [batchWrite, hmod, h'], hfind',
    hmod'.trans hmod, rfl⟩

/-! ## 3. The merged entry -/

section Merged

variable {us : Option CBreadcrumbsCacheEntry} {e : CBreadcrumbsCacheEntry} {below : CBreadcrumbs}

/-- Over a dirty child entry, the merged slot stands for the child's record, up to `==`. The
hypotheses are the flag facts: a `FRESH` entry here, or a `FRESH` child entry, has a pruned
value below it, and a dirty child entry with nothing here is `FRESH`. -/
theorem entryValue_mergedEntry (hd : e.dirty = true)
    (hus : ∀ u, us = some u → u.fresh = true → below.isPruned = true)
    (hfresh : e.fresh = true → (entryValue us below).isPruned = true)
    (hnone : us = none → e.fresh = true) :
    (entryValue (mergedEntry us e) below == e.coins) = true := by
  unfold mergedEntry
  rw [if_pos hd]
  cases us with
  | none =>
    cases hp : e.coins.isPruned
    · simp
    · exact CBreadcrumbs.beq_of_isPruned (hfresh (hnone rfl)) hp
  | some u =>
    by_cases hfp : (u.fresh && e.coins.isPruned) = true
    · rw [Bool.and_eq_true] at hfp
      simpa [hfp.1, hfp.2] using CBreadcrumbs.beq_of_isPruned (hus u rfl hfp.1) hfp.2
    · simp [hfp]

/-- A merged entry is `FRESH` only where the entry here was, or where the child's `FRESH` entry
moved up over a pruned value. -/
theorem fresh_of_mergedEntry
    (hus : ∀ u, us = some u → u.fresh = true → below.isPruned = true)
    (hfresh : e.fresh = true → (entryValue us below).isPruned = true)
    (hok : FreshAsserted us e) (x : CBreadcrumbsCacheEntry) (hx : mergedEntry us e = some x)
    (hxf : x.fresh = true) : below.isPruned = true := by
  unfold mergedEntry at hx
  split at hx
  · rename_i hd
    split at hx
    · split at hx
      · cases hx
      · rename_i hp
        exact hfresh (hok hd rfl (by simpa using hp))
    · rename_i u
      split at hx
      · cases hx
      · cases hx; exact hus u rfl hxf
  · subst hx; exact hus x rfl hxf

/-- A merged entry that is not dirty is the entry that was here. -/
theorem eq_of_mergedEntry_dirty_false (x : CBreadcrumbsCacheEntry)
    (hx : mergedEntry us e = some x) (hxd : x.dirty = false) : us = some x := by
  unfold mergedEntry at hx
  split at hx
  · split at hx
    · split at hx <;> cases hx; cases hxd
    · split at hx <;> cases hx; cases hxd
  · exact hx

/-- A merged entry that is not `FRESH` is the entry here, with its flag. -/
theorem exists_of_mergedEntry_fresh_false (x : CBreadcrumbsCacheEntry)
    (hx : mergedEntry us e = some x) (hxf : x.fresh = false) :
    ∃ u, us = some u ∧ u.fresh = false := by
  unfold mergedEntry at hx
  split at hx
  · split at hx
    · split at hx <;> cases hx; cases hxf
    · rename_i u
      split at hx
      · cases hx
      · cases hx; exact ⟨u, rfl, hxf⟩
  · exact ⟨x, hx, hxf⟩

/-- A merged entry holds the child's record, or is the entry that was here. -/
theorem mergedEntry_coins (x : CBreadcrumbsCacheEntry) (hx : mergedEntry us e = some x) :
    us = some x ∨ x.coins = e.coins := by
  unfold mergedEntry at hx
  split at hx
  · split at hx
    · split at hx <;> cases hx; exact .inr rfl
    · split at hx <;> cases hx; exact .inr rfl
  · exact .inl hx

end Merged

/-! ## 4. The contract of `BatchWrite` -/

/-- **`BatchWrite` merges the child's dirty entries.** Take a cache `P` with no modifier
outstanding, whose `FRESH` entries have a pruned value below, and a child map `M` whose `FRESH`
entries have a pruned value in `P` and whose dirty entries with nothing in `P` are `FRESH`.
Then `BatchWrite(M, h)` does not abort, empties `M`, returns `true` and sets the best block to
`h`; a txid with a dirty entry in `M` gets (`==`) its record, every other txid keeps its entry;
and every `FRESH` entry of `P` still has a pruned value below. -/
theorem batchWrite_merges (below : uint256 → CBreadcrumbs) (P : CBreadcrumbsViewCache)
    (hmod : P.hasModifier = false)
    (hP : ∀ t e, P.find t = some e → e.fresh = true → (below t).isPruned = true)
    (M : CBreadcrumbsMap) (hashBlockIn : uint256)
    (hfresh : ∀ t e, M.lookup t = some e → e.fresh = true → (P.value below t).isPruned = true)
    (hdirty : ∀ t e, M.lookup t = some e → e.dirty = true → P.find t = none → e.fresh = true) :
    ∃ P', P.batchWrite M hashBlockIn = some (true, ∅, P') ∧ P'.hashBlock = hashBlockIn ∧
      (∀ t e, M.lookup t = some e → e.dirty = true → (P'.value below t == e.coins) = true) ∧
      (∀ t, (∀ e, M.lookup t = some e → e.dirty = false) → P'.find t = P.find t) ∧
      (∀ t e, P'.find t = some e → e.fresh = true → (below t).isPruned = true) := by
  have hok : ∀ t e, M.lookup t = some e → FreshAsserted (P.find t) e :=
    fun t e hM hd hnone _ => hdirty t e hM hd hnone
  obtain ⟨P', hbw, hfind, -, hblock⟩ := P.batchWrite_spec hmod M hashBlockIn hok
  refine ⟨P', hbw, hblock, fun t e hM hd => ?_, fun t hclean => ?_, fun t x hx hxf => ?_⟩
  · rw [value, hfind, hM]
    exact entryValue_mergedEntry hd (fun u hu => hP t u hu) (hfresh t e hM)
      (hdirty t e hM hd)
  · rw [hfind]
    cases hM : M.lookup t with
    | none => rfl
    | some e => simp [mergedEntry, hclean e hM]
  · rw [hfind] at hx
    cases hM : M.lookup t with
    | none => rw [hM] at hx; exact hP t x hx hxf
    | some e =>
      rw [hM] at hx
      exact fresh_of_mergedEntry (fun u hu => hP t u hu) (hfresh t e hM) (hok t e hM) x hx hxf

/-- A child's dirty `FRESH` entry over an empty parent moves up, and the best block is set. -/
theorem batchWrite_merges_fresh_entry :
    ∃ P', new.batchWrite ((∅ : CBreadcrumbsMap).insert 1
        ⟨⟨false, [some ⟨5000, []⟩], 10, 1⟩, true, true⟩) 7 = some (true, ∅, P') ∧
      P'.hashBlock = 7 ∧
      (P'.value (fun _ => CBreadcrumbs.empty) 1 == ⟨false, [some ⟨5000, []⟩], 10, 1⟩) = true :=
  (batchWrite_merges (fun _ => CBreadcrumbs.empty) new rfl (fun _ _ h => by simp at h) _ 7
    (fun _ _ _ _ => rfl)
    (fun t e h _ _ => by
      by_cases ht : t = 1
      · subst ht; simp only [AList.lookup_insert, Option.some.injEq] at h; subst h; rfl
      · rw [AList.lookup_insert_ne ht, AList.lookup_empty] at h; cases h)).imp
    fun _ h => ⟨h.1, h.2.1, h.2.2.1 1 _ (AList.lookup_insert _) rfl⟩

end CBreadcrumbsViewCache

end Duckcoin
