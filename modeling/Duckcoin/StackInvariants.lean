/-
Duckcoin.StackInvariants — the flag invariant of the cache stack, and the
trimmed invariant with what it buys `HaveBreadcrumbs`.

The logical value of a txid seen from a view is the record of the
top-most layer that holds an entry for it, else the test view's record,
an absent record standing as the empty one (`View.value`). Over every
cache layer `c` with the view `base` below it, `FlagsOk c base` says:

* a `FRESH` entry has a pruned value below it;
* a non-`DIRTY` entry is `==` to the value below it;
* a non-`FRESH` entry has an entry below it when `base` is a cache.

* `step_spec`: from a stack whose layers all satisfy `FlagsOk` (and have
  no modifier outstanding), every operation succeeds and keeps that, keeps
  every record trimmed when all were, and changes the values of the
  layers exactly as the operation says (`StepValues`).
* `run_flagsInv`: the flag invariant holds in every state a run reaches.
* `haveBreadcrumbs_eq_not_isPruned`: when the test view's records are
  trimmed, `HaveBreadcrumbs` on any layer of any reachable state answers
  whether `GetBreadcrumbs` would find a non-pruned record.

How the proofs go. Each operation has one spec lemma: reads
(`getBreadcrumbs_spec`, `readAt_spec`) add entries holding the value
below and change no value; a modification (`modifyOnTip_spec`) changes
the tip's value of one txid; a flush (`flush_spec`) moves the tip's
values into the layer below, through `batchWrite_spec` and the lemmas on
`mergedEntry`, or through the test view's per-txid store
(`batchWriteLoop_map`).
-/
import Duckcoin.Stack
import Duckcoin.BatchWriteTheorems

namespace Duckcoin

open CBreadcrumbsViewCache

/-- A read answered `r` for a txid of logical value `x`: `x` itself, or `false` when `x` is
pruned. -/
def Answers (r : Option CBreadcrumbs) (x : CBreadcrumbs) : Prop :=
  match r with
  | some y => y = x
  | none => x.isPruned = true

namespace View

/-- The logical value of `txid` seen from the view. -/
def value : View → uint256 → CBreadcrumbs
  | test b, t => (b.map_ t).getD CBreadcrumbs.empty
  | cache c base, t => c.value base.value t

/-- The logical values seen from each layer, from the tip down to the test view. -/
def values : View → List (uint256 → CBreadcrumbs)
  | test b => [(test b).value]
  | cache c base => (cache c base).value :: base.values

/-- The view holds an entry for `txid` in its own map; the test view counts as holding every
txid. -/
def hasEntry : View → uint256 → Bool
  | test _, _ => true
  | cache c _, t => (c.find t).isSome

/-- The flag facts of the entries of cache `c` over the view `base`. -/
structure FlagsOk (c : CBreadcrumbsViewCache) (base : View) : Prop where
  fresh : ∀ t e, c.find t = some e → e.fresh = true → (base.value t).isPruned = true
  clean : ∀ t e, c.find t = some e → e.dirty = false → (e.coins == base.value t) = true
  parent : ∀ t e, c.find t = some e → e.fresh = false → base.hasEntry t = true

/-- Every cache layer has no modifier outstanding and satisfies `FlagsOk`. -/
def FlagsInv : View → Prop
  | test _ => True
  | cache c base => c.hasModifier = false ∧ FlagsOk c base ∧ base.FlagsInv

/-- Every record in the cache's map is trimmed. -/
def EntriesTrimmed (c : CBreadcrumbsViewCache) : Prop := ∀ t e, c.find t = some e → e.coins.Trimmed

/-- Every record held, in a cache's map or by the test view, is trimmed. -/
def TrimmedInv : View → Prop
  | test b => ∀ t r, b.map_ t = some r → r.Trimmed
  | cache c base => EntriesTrimmed c ∧ base.TrimmedInv

@[simp] theorem value_cache (c : CBreadcrumbsViewCache) (base : View) (t : uint256) :
    (cache c base).value t = entryValue (c.find t) (base.value t) := rfl

theorem value_cache_of_find_none {c : CBreadcrumbsViewCache} {t : uint256} (h : c.find t = none)
    (base : View) : (cache c base).value t = base.value t := by
  simp [h]

theorem values_head (v : View) : v.values.head? = some v.value := by
  cases v <;> rfl

theorem value_eq_of_values_eq {v v' : View} (h : v'.values = v.values) : v'.value = v.value := by
  have := values_head v'
  rw [h, values_head] at this
  exact (Option.some.inj this).symm

theorem value_trimmed {v : View} (hv : v.TrimmedInv) (t : uint256) : (v.value t).Trimmed := by
  induction v with
  | test b =>
    cases hb : b.map_ t with
    | none => simp [value, hb, CBreadcrumbs.Trimmed, CBreadcrumbs.empty]
    | some r => simpa [value, hb] using hv t r hb
  | cache c base ih =>
    cases hc : c.find t with
    | none => rw [value_cache_of_find_none hc]; exact ih hv.2
    | some e => simpa [hc] using hv.1 t e hc

/-! ## 1. Reads -/

/-- A read left the view `v'` from `v`: no value of any layer changed, entries were only added,
and both invariants were kept. -/
structure ReadStep (v v' : View) : Prop where
  values : v'.values = v.values
  hasEntry : ∀ t, v.hasEntry t = true → v'.hasEntry t = true
  flagsInv : v.FlagsInv → v'.FlagsInv
  trimmedInv : v.TrimmedInv → v'.TrimmedInv

theorem ReadStep.refl (v : View) : ReadStep v v := ⟨rfl, fun _ h => h, id, id⟩

theorem ReadStep.value {v v' : View} (h : ReadStep v v') : v'.value = v.value :=
  value_eq_of_values_eq h.values

end View

namespace CBreadcrumbsViewTest

/-- The test view's `GetBreadcrumbs` draws at most a random number and answers its record. -/
theorem getBreadcrumbs_spec (b : CBreadcrumbsViewTest) (t : uint256) :
    (b.getBreadcrumbs t).2.map_ = b.map_ ∧
      Answers (b.getBreadcrumbs t).1 ((b.map_ t).getD CBreadcrumbs.empty) := by
  unfold getBreadcrumbs rand
  split
  · rename_i hb; simp [hb, Answers]
  · rename_i coins hb
    split
    · rename_i hp
      by_cases hr : b.insecureRand b.nRand % 2 = 0 <;> simp [hr, hb, hp, Answers]
    · simp [hb, Answers]

end CBreadcrumbsViewTest

namespace View

/-- `FlagsOk` survives a read of the base. -/
theorem FlagsOk.mono {c : CBreadcrumbsViewCache} {base base' : View} (hf : FlagsOk c base)
    (h : ReadStep base base') : FlagsOk c base' :=
  ⟨fun t e he hfr => h.value ▸ hf.fresh t e he hfr, fun t e he hd => h.value ▸ hf.clean t e he hd,
    fun t e he hfr => h.hasEntry t (hf.parent t e he hfr)⟩

/-- `FlagsOk` survives storing an entry that has the three flag facts itself. -/
theorem FlagsOk.put {c : CBreadcrumbsViewCache} {base : View} (hf : FlagsOk c base) (t : uint256)
    (e : CBreadcrumbsCacheEntry) (hfr : e.fresh = true → (base.value t).isPruned = true)
    (hcl : e.dirty = false → (e.coins == base.value t) = true)
    (hpar : e.fresh = false → base.hasEntry t = true) : FlagsOk (c.put t e) base := by
  refine ⟨fun t' e' he => ?_, fun t' e' he => ?_, fun t' e' he => ?_⟩ <;> rw [find_put] at he <;>
    split at he
  all_goals first
    | (cases he; subst_vars; assumption)
    | exact hf.fresh t' e' he | exact hf.clean t' e' he | exact hf.parent t' e' he

theorem FlagsOk.erase {c : CBreadcrumbsViewCache} {base : View} (hf : FlagsOk c base)
    (t : uint256) : FlagsOk (c.erase t) base := by
  refine ⟨fun t' e' he => ?_, fun t' e' he => ?_, fun t' e' he => ?_⟩ <;> rw [find_erase] at he <;>
    split at he
  all_goals first
    | cases he
    | exact hf.fresh t' e' he | exact hf.clean t' e' he | exact hf.parent t' e' he

theorem FlagsOk.of_find {c c' : CBreadcrumbsViewCache} {base : View} (hf : FlagsOk c base)
    (h : c'.find = c.find) : FlagsOk c' base :=
  ⟨fun t e he => hf.fresh t e (h ▸ he), fun t e he => hf.clean t e (h ▸ he),
    fun t e he => hf.parent t e (h ▸ he)⟩

theorem EntriesTrimmed.put {c : CBreadcrumbsViewCache} (hc : EntriesTrimmed c) (t : uint256)
    (e : CBreadcrumbsCacheEntry) (he : e.coins.Trimmed) : EntriesTrimmed (c.put t e) := by
  intro t' e' h; rw [find_put] at h; split at h
  · cases h; exact he
  · exact hc t' e' h

theorem EntriesTrimmed.erase {c : CBreadcrumbsViewCache} (hc : EntriesTrimmed c) (t : uint256) :
    EntriesTrimmed (c.erase t) := by
  intro t' e' h; rw [find_erase] at h; split at h
  · cases h
  · exact hc t' e' h

theorem readStep_test (b b' : CBreadcrumbsViewTest) (h : b'.map_ = b.map_) :
    ReadStep (test b) (test b') := by
  refine ⟨by simp [values, value, h], fun _ _ => rfl, fun _ => trivial, fun hv => ?_⟩
  simpa [TrimmedInv, h] using hv

/-- A read of the cache layer over `base`, after reading `base` moved it to `base'`. -/
theorem readStep_cache {c : CBreadcrumbsViewCache} {base base' : View} (h : ReadStep base base') :
    ReadStep (cache c base) (cache c base') := by
  have hval := h.value
  exact ⟨by simp only [values, h.values, List.cons.injEq, and_true]; funext t; simp [hval],
    fun _ h' => h', fun ⟨hm, hf, hb⟩ => ⟨hm, hf.mono h, h.flagsInv hb⟩,
    fun ⟨ht, hb⟩ => ⟨ht, h.trimmedInv hb⟩⟩

/-- **A read.** `GetBreadcrumbs` on any view answers the logical value, keeps the values of
every layer, and inserts entries only for the txid read, each holding the value below. -/
theorem getBreadcrumbs_spec (v : View) (t : uint256) :
    ReadStep v (v.getBreadcrumbs t).2 ∧ Answers (v.getBreadcrumbs t).1 (v.value t) ∧
      ((v.getBreadcrumbs t).1.isSome = true → (v.getBreadcrumbs t).2.hasEntry t = true) := by
  induction v with
  | test b =>
    obtain ⟨hmap, hans⟩ := b.getBreadcrumbs_spec t
    exact ⟨readStep_test _ _ hmap, hans, fun _ => rfl⟩
  | cache c base ih =>
    obtain ⟨hread, hans, hent⟩ := ih
    simp only [getBreadcrumbs, CBreadcrumbsViewCache.getBreadcrumbs, accessBreadcrumbs,
      fetchBreadcrumbs]
    cases hc : c.find t with
    | some e => exact ⟨ReadStep.refl _, by simp [Answers, hc], fun _ => by simp [hasEntry, hc]⟩
    | none =>
      revert hans hent hread
      cases (base.getBreadcrumbs t) with
      | mk r base' =>
      intro hread hans hent
      cases r with
      | none =>
        exact ⟨readStep_cache hread, by simpa [Answers, hc] using hans, fun h => by cases h⟩
      | some x =>
        have hx : x = base.value t := hans
        have hval := hread.value
        refine ⟨⟨?_, fun t' h' => ?_, fun ⟨hm, hf, hb⟩ => ?_, fun ⟨ht, hb⟩ => ?_⟩,
          by simp [Answers, hc, hx], fun _ => by simp [hasEntry]⟩
        · simp only [values, hread.values, List.cons.injEq, and_true]
          funext t'
          by_cases ht : t' = t
          · subst ht; simp [find_put, hc, hval, hx]
          · simp [find_put, ht, hval]
        · by_cases ht : t' = t <;> simp_all [hasEntry, find_put]
        · exact ⟨hm, (hf.mono hread).put t _ (fun h => by simpa [hval, hx] using h)
            (fun _ => by simp [hval, hx]) (fun _ => hent rfl), hread.flagsInv hb⟩
        · exact ⟨EntriesTrimmed.put ht t _ (hx ▸ value_trimmed hb t), hread.trimmedInv hb⟩

/-- The view at layer `k`, counting from the tip; past the last cache, the test view. -/
def layer : Nat → View → View
  | 0, v => v
  | _ + 1, test b => test b
  | k + 1, cache _ base => layer k base

/-- A read of layer `k` answers that layer's logical value and is a read of the whole stack. -/
theorem readAt_spec (k : Nat) (v : View) (t : uint256) :
    ReadStep v (v.readAt k t).2 ∧ Answers (v.readAt k t).1 ((v.layer k).value t) := by
  induction k generalizing v with
  | zero => exact ⟨(getBreadcrumbs_spec v t).1, (getBreadcrumbs_spec v t).2.1⟩
  | succ k ih =>
    cases v with
    | test b => exact ⟨(getBreadcrumbs_spec _ t).1, (getBreadcrumbs_spec _ t).2.1⟩
    | cache c base => exact ⟨readStep_cache (ih base).1, (ih base).2⟩

/-- A layer whose best block changed and nothing else. -/
theorem readStep_cache_of_find {c c' : CBreadcrumbsViewCache} {base base' : View}
    (hfind : c'.find = c.find) (hmod : c'.hasModifier = c.hasModifier) (h : ReadStep base base') :
    ReadStep (cache c base) (cache c' base') := by
  have hval := h.value
  refine ⟨by simp only [values, h.values, List.cons.injEq, and_true]; funext t; simp [hval, hfind],
    fun t h' => by simpa [hasEntry, hfind] using h', fun ⟨hm, hf, hb⟩ => ⟨hmod ▸ hm, ?_, h.flagsInv hb⟩,
    fun ⟨ht, hb⟩ => ⟨fun t e he => ht t e (hfind ▸ he), h.trimmedInv hb⟩⟩
  exact (hf.mono h).of_find hfind

/-- `GetBestBlock` of a cache: its `hashBlock`, or, while that is `0`, its base's, which it
stores. -/
theorem getBestBlock_cache_eq (c : CBreadcrumbsViewCache) (base : View) :
    (cache c base).getBestBlock = if c.hashBlock = 0 then
      (base.getBestBlock.1, cache { c with hashBlock := base.getBestBlock.1 } base.getBestBlock.2)
    else (c.hashBlock, cache c base) := by
  simp only [getBestBlock, CBreadcrumbsViewCache.getBestBlock]
  split <;> rfl

/-- `GetBestBlock` changes best-block hashes only. -/
theorem getBestBlock_spec (v : View) : ReadStep v v.getBestBlock.2 := by
  induction v with
  | test b => exact ReadStep.refl _
  | cache c base ih =>
    rw [getBestBlock_cache_eq]
    split
    · exact readStep_cache_of_find rfl rfl ih
    · exact ReadStep.refl _

end View

/-! ## 2. Flush -/

namespace CBreadcrumbsViewTest

theorem batchWriteEntry_map_ne (b : CBreadcrumbsViewTest) {t t' : uint256}
    (e : CBreadcrumbsCacheEntry) (h : t' ≠ t) : (b.batchWriteEntry t e).map_ t' = b.map_ t' := by
  unfold batchWriteEntry rand
  split
  · by_cases hr : b.insecureRand b.nRand % 3 = 0 <;> simp [hr, Function.update, h]
  · simp [Function.update, h]

theorem batchWriteEntry_map_self (b : CBreadcrumbsViewTest) (t : uint256)
    (e : CBreadcrumbsCacheEntry) :
    (b.batchWriteEntry t e).map_ t = some e.coins ∨
      (e.coins.isPruned = true ∧ (b.batchWriteEntry t e).map_ t = none) := by
  unfold batchWriteEntry rand
  split
  · rename_i hp
    by_cases hr : b.insecureRand b.nRand % 3 = 0 <;> simp [hr, hp]
  · simp

/-- **The loop of the test view's `BatchWrite`.** Over entries with distinct txids, a txid with
an entry gets its record, or none when the record is pruned; the others keep theirs. -/
theorem batchWriteLoop_map (l : List (Σ _ : uint256, CBreadcrumbsCacheEntry)) (hl : l.NodupKeys)
    (b : CBreadcrumbsViewTest) (t : uint256) :
    match l.dlookup t with
    | none => (batchWriteLoop b l).map_ t = b.map_ t
    | some e => (batchWriteLoop b l).map_ t = some e.coins ∨
        (e.coins.isPruned = true ∧ (batchWriteLoop b l).map_ t = none) := by
  induction l generalizing b with
  | nil => rfl
  | cons x rest ih =>
    obtain ⟨t0, e0⟩ := x
    rw [List.nodupKeys_cons] at hl
    have ih' := ih hl.2 (b.batchWriteEntry t0 e0)
    simp only [batchWriteLoop]
    by_cases ht : t = t0
    · subst ht
      rw [List.dlookup_eq_none.mpr hl.1] at ih'
      rw [List.dlookup_cons_eq, ih']
      exact batchWriteEntry_map_self b t e0
    · rw [List.dlookup_cons_ne _ _ ht]
      cases hr : rest.dlookup t with
      | none => rw [hr] at ih'; rw [ih', batchWriteEntry_map_ne b e0 ht]
      | some e => rw [hr] at ih'; exact ih'

/-- `batchWriteLoop_map` over the entries of a cache's map, read through `find`. -/
theorem batchWriteLoop_find (c : CBreadcrumbsViewCache) (b : CBreadcrumbsViewTest) (t : uint256) :
    match c.find t with
    | none => (batchWriteLoop b c.cacheBreadcrumbs.entries).map_ t = b.map_ t
    | some e => (batchWriteLoop b c.cacheBreadcrumbs.entries).map_ t = some e.coins ∨
        (e.coins.isPruned = true ∧ (batchWriteLoop b c.cacheBreadcrumbs.entries).map_ t = none) :=
  batchWriteLoop_map _ c.cacheBreadcrumbs.nodupKeys b t

end CBreadcrumbsViewTest

namespace View

/-- The parent clause of a child's flags is the `FRESH` assertion of the parent's `BatchWrite`:
an entry the parent has no entry for is `FRESH`. -/
theorem FlagsOk.fresh_of_find_none {c p : CBreadcrumbsViewCache} {pbase : View}
    (hfc : FlagsOk c (cache p pbase)) (t : uint256) (e : CBreadcrumbsCacheEntry)
    (hc : c.find t = some e) (hn : p.find t = none) : e.fresh = true := by
  by_contra hf
  simpa [hasEntry, hn] using hfc.parent t e hc (by simpa using hf)

/-! The parent `p'` that `BatchWrite` of a child `c` leaves in place of `p`: each entry of `c`
merged into `p`'s (`batchWrite_spec`). -/

section MergedParent

variable {c p p' : CBreadcrumbsViewCache} {pbase : View}

/-- The merged parent's logical value is, up to `==`, the child's. -/
theorem value_merged (hfc : FlagsOk c (cache p pbase)) (hfp : FlagsOk p pbase)
    (hfind : ∀ t, p'.find t = match c.find t with
      | some e => mergedEntry (p.find t) e
      | none => p.find t) (t : uint256) :
    ((cache p' pbase).value t == (cache c (cache p pbase)).value t) = true := by
  simp only [value_cache]
  rw [hfind t]
  cases hc : c.find t with
  | none => simp
  | some e =>
    cases hd : e.dirty
    · simpa [mergedEntry, hd] using CBreadcrumbs.beq_symm (hfc.clean t e hc hd)
    · exact entryValue_mergedEntry hd (fun u hu => hfp.fresh t u hu) (hfc.fresh t e hc)
        (hfc.fresh_of_find_none t e hc)

/-- The merged parent keeps its flags over its own base. -/
theorem FlagsOk.merged (hfc : FlagsOk c (cache p pbase)) (hfp : FlagsOk p pbase)
    (hfind : ∀ t, p'.find t = match c.find t with
      | some e => mergedEntry (p.find t) e
      | none => p.find t) : FlagsOk p' pbase := by
  refine ⟨fun t x hx hxf => ?_, fun t x hx hxd => ?_, fun t x hx hxf => ?_⟩ <;>
    rw [hfind t] at hx <;> rcases hc : c.find t with _ | e <;> rw [hc] at hx
  · exact hfp.fresh t x hx hxf
  · exact fresh_of_mergedEntry (fun u hu => hfp.fresh t u hu) (hfc.fresh t e hc)
      (fun _ hn _ => hfc.fresh_of_find_none t e hc hn) x hx hxf
  · exact hfp.clean t x hx hxd
  · exact hfp.clean t x (eq_of_mergedEntry_dirty_false x hx hxd) hxd
  · exact hfp.parent t x hx hxf
  · obtain ⟨u, hu, huf⟩ := exists_of_mergedEntry_fresh_false x hx hxf
    exact hfp.parent t u hu huf

/-- The merged parent holds only trimmed records when both maps did. -/
theorem EntriesTrimmed.merged (hct : EntriesTrimmed c) (hpt : EntriesTrimmed p)
    (hfind : ∀ t, p'.find t = match c.find t with
      | some e => mergedEntry (p.find t) e
      | none => p.find t) : EntriesTrimmed p' := by
  intro t x hx
  rw [hfind t] at hx
  rcases hc : c.find t with _ | e <;> rw [hc] at hx
  · exact hpt t x hx
  · rcases mergedEntry_coins x hx with h | h
    · exact hpt t x h
    · rw [h]; exact hct t e hc

end MergedParent

/-- **A flush.** `Flush` of the tip `c` succeeds and leaves a base whose logical value is, up to
`==`, the tip's, with the layers further down unchanged; both invariants are kept. -/
theorem flush_spec (c : CBreadcrumbsViewCache) (base : View) (hfc : FlagsOk c base)
    (hbase : base.FlagsInv) :
    ∃ base', c.flush base.batchWrite = some (true, { c with cacheBreadcrumbs := ∅ }, base') ∧
      (∀ t, (base'.value t == (cache c base).value t) = true) ∧
      base'.values.tail = base.values.tail ∧ base'.FlagsInv ∧
      ((cache c base).TrimmedInv → base'.TrimmedInv) := by
  cases base with
  | test b =>
    refine ⟨test { CBreadcrumbsViewTest.batchWriteLoop b c.cacheBreadcrumbs.entries with
      hashBestBlock_ := c.hashBlock }, rfl, fun t => ?_, rfl, trivial, fun ⟨hct, hb⟩ => ?_⟩
    · have hloop := CBreadcrumbsViewTest.batchWriteLoop_find c b t
      rw [value_cache]
      cases hc : c.find t with
      | none => rw [hc] at hloop; simp [value, hloop]
      | some e =>
        rw [hc] at hloop
        rcases hloop with h | ⟨hp, h⟩
        · simp [value, h]
        · simpa [value, h] using CBreadcrumbs.beq_of_isPruned CBreadcrumbs.empty_isPruned hp
    · intro t r hr
      have hloop := CBreadcrumbsViewTest.batchWriteLoop_find c b t
      cases hc : c.find t with
      | none => rw [hc] at hloop; exact hb t r (hloop ▸ hr)
      | some e =>
        rw [hc] at hloop
        rcases hloop with h | ⟨-, h⟩
        · rw [h] at hr; cases hr; exact hct t e hc
        · rw [h] at hr; cases hr
  | cache p pbase =>
    obtain ⟨hpm, hfp, hpbase⟩ := hbase
    obtain ⟨p', hbw, hfind, hmod', -⟩ := p.batchWrite_spec hpm c.cacheBreadcrumbs c.hashBlock
      fun t e hc _ hn _ => hfc.fresh_of_find_none t e hc hn
    exact ⟨cache p' pbase, by simp [flush, View.batchWrite, hbw], value_merged hfc hfp hfind, rfl,
      ⟨hmod', hfc.merged hfp hfind, hpbase⟩, fun ⟨hct, hpt, hb⟩ => ⟨hct.merged hpt hfind, hb⟩⟩

/-! ## 3. Modification of the tip -/

/-- **`ModifyBreadcrumbs`.** On a cache `c` with no modifier outstanding over `base`, it succeeds
and reads `base` at most once; the entry it marks `DIRTY` holds a record `==` to the logical
value, and has the flag facts over the base as the read left it. -/
theorem modifyBreadcrumbs_spec (c : CBreadcrumbsViewCache) (base : View) (t : uint256)
    (hm : c.hasModifier = false) (hf : FlagsOk c base) :
    ∃ (e : CBreadcrumbsCacheEntry) (base1 : View), c.modifyBreadcrumbs base base.getBreadcrumbs t =
        some (⟨t⟩, (c.put t { e with dirty := true }).setModifier true, base1) ∧
      ReadStep base base1 ∧ (e.coins == (cache c base).value t) = true ∧
      (e.fresh = true → (base.value t).isPruned = true) ∧
      (e.fresh = false → base1.hasEntry t = true) := by
  unfold modifyBreadcrumbs
  rw [if_neg (by simp [hm])]
  cases hc : c.find t with
  | some e =>
    exact ⟨e, base, rfl, ReadStep.refl _, by simp [hc], hf.fresh t e hc, hf.parent t e hc⟩
  | none =>
    obtain ⟨hread, hans, hent⟩ := getBreadcrumbs_spec base t
    revert hread hans hent
    cases base.getBreadcrumbs t with
    | mk r base1 =>
    intro hread hans hent
    cases r with
    | none =>
      refine ⟨⟨CBreadcrumbs.empty, false, true⟩, base1, rfl, hread, ?_, fun _ => hans, nofun⟩
      simpa [hc] using CBreadcrumbs.beq_of_isPruned CBreadcrumbs.empty_isPruned hans
    | some x =>
      have hx : x = base.value t := hans
      exact ⟨⟨x, false, x.isPruned⟩, base1, rfl, hread, by simp [hc, hx], fun h => hx ▸ h,
        fun _ => hent rfl⟩

/-- The mutation through the modifier and its release: the entry of `txid` ends up holding the
cleaned mutated record, unless it is `FRESH` and that record is pruned, when it is erased. -/
theorem modifyOnTip_eq (c : CBreadcrumbsViewCache) (base base1 : View) (t : uint256)
    (f : CBreadcrumbs → CBreadcrumbs) (e : CBreadcrumbsCacheEntry)
    (hmod : c.modifyBreadcrumbs base base.getBreadcrumbs t =
      some (⟨t⟩, (c.put t { e with dirty := true }).setModifier true, base1)) :
    ∃ c3, modifyOnTip c base t f = some (e.coins, cache c3 base1) ∧ c3.hasModifier = false ∧
      ∀ t', c3.find t' = if t' = t then
        (if e.fresh && (f e.coins).cleanup.isPruned then none
          else some ⟨(f e.coins).cleanup, true, e.fresh⟩)
        else c.find t' := by
  simp only [modifyOnTip, hmod, CBreadcrumbsModifier.mutate, CBreadcrumbsModifier.release,
    find_setModifier, find_put_self]
  simp
  refine ⟨by split <;> simp, fun t' => ?_⟩
  by_cases ht : t' = t <;> split <;> simp_all [find_put, find_erase]

/-- **A modification of the tip.** `ModifyBreadcrumbs`, a mutation `f` and the release succeed;
the modifier presents a record `==` to the tip's logical value; the tip's value of `txid`
becomes (`==`) the cleaned mutated record, every other value of every layer stays, and both
invariants are kept. -/
theorem modifyOnTip_spec (c : CBreadcrumbsViewCache) (base : View) (t : uint256)
    (f : CBreadcrumbs → CBreadcrumbs) (hv : (cache c base).FlagsInv) :
    ∃ p v', modifyOnTip c base t f = some (p, v') ∧ (p == (cache c base).value t) = true ∧
      v'.values.tail = base.values ∧ (∀ t', t' ≠ t → v'.value t' = (cache c base).value t') ∧
      (v'.value t == (f p).cleanup) = true ∧ v'.FlagsInv ∧
      ((cache c base).TrimmedInv → v'.TrimmedInv) := by
  obtain ⟨hm, hf, hb⟩ := hv
  obtain ⟨e, base1, hmod, hread, hval, hfr, hpar⟩ := modifyBreadcrumbs_spec c base t hm hf
  obtain ⟨c3, hrun, hm3, hfind3⟩ := modifyOnTip_eq c base base1 t f e hmod
  have hv1 := hread.value
  -- the released entry is `FRESH` only over a pruned value
  have hfr1 : e.fresh = true → (base1.value t).isPruned = true := fun h => hv1 ▸ hfr h
  refine ⟨e.coins, cache c3 base1, hrun, hval, hread.values, fun t' ht => ?_, ?_,
    ⟨hm3, ⟨fun t' x hx => ?_, fun t' x hx => ?_, fun t' x hx => ?_⟩, hread.flagsInv hb⟩,
    fun ⟨hct, hbt⟩ => ⟨fun t' x hx => ?_, hread.trimmedInv hbt⟩⟩
  · simp [hfind3, ht, hv1]
  · rw [value_cache, hfind3, if_pos rfl]
    split
    · rename_i hfp
      rw [Bool.and_eq_true] at hfp
      simpa using CBreadcrumbs.beq_of_isPruned (hfr1 hfp.1) hfp.2
    · simp
  · rw [hfind3] at hx; split at hx
    · subst_vars; split at hx <;> cases hx; exact hfr1
    · exact hv1 ▸ hf.fresh t' x hx
  · rw [hfind3] at hx; split at hx
    · split at hx <;> cases hx; intro h; cases h
    · exact hv1 ▸ hf.clean t' x hx
  · rw [hfind3] at hx; split at hx
    · subst_vars; split at hx <;> cases hx; exact hpar
    · exact fun h => hread.hasEntry t' (hf.parent t' x hx h)
  · rw [hfind3] at hx; split at hx
    · split at hx <;> cases hx; exact CBreadcrumbs.cleanup_trimmed _
    · exact hct t' x hx

/-! ## 4. Runs -/

theorem FlagsOk.of_find_none {c : CBreadcrumbsViewCache} (base : View)
    (h : ∀ t, c.find t = none) : FlagsOk c base :=
  ⟨fun t e he => by simp [h t] at he, fun t e he => by simp [h t] at he,
    fun t e he => by simp [h t] at he⟩

/-- **One operation.** From a stack satisfying the flag invariant, every operation succeeds, and
keeps the flag invariant, and the trimmed invariant when it held. -/
theorem step_spec (v : View) (op : StackOp) (hv : v.FlagsInv) :
    ∃ obs v', step v op = some (obs, v') ∧ v'.FlagsInv ∧ (v.TrimmedInv → v'.TrimmedInv) := by
  cases op with
  | push =>
    exact ⟨_, _, rfl, ⟨rfl, FlagsOk.of_find_none v find_new, hv⟩,
      fun h => ⟨fun t e he => by simp at he, h⟩⟩
  | discard =>
    cases v with
    | test b => exact ⟨_, _, rfl, hv, id⟩
    | cache c base => exact ⟨.done, base, by simp [step, hv.1], hv.2.2, fun h => h.2⟩
  | flush pop =>
    cases v with
    | test b => exact ⟨_, _, rfl, hv, id⟩
    | cache c base =>
      obtain ⟨base', hfl, -, -, hfi, htr⟩ := flush_spec c base hv.2.1 hv.2.2
      have hempty : ∀ t, ({ c with cacheBreadcrumbs := ∅ } : CBreadcrumbsViewCache).find t = none :=
        fun t => AList.lookup_empty t
      cases pop
      · exact ⟨.done, cache { c with cacheBreadcrumbs := ∅ } base', by simp [step, hfl],
          ⟨hv.1, FlagsOk.of_find_none _ hempty, hfi⟩,
          fun h => ⟨fun t e he => by simp [hempty t] at he, htr h⟩⟩
      · exact ⟨.done, base', by simp [step, hfl, hv.1], hfi, htr⟩
  | modify t f =>
    cases v with
    | test b => exact ⟨_, _, rfl, hv, id⟩
    | cache c base =>
      obtain ⟨p, v', h, -, -, -, -, hfi, htr⟩ := modifyOnTip_spec c base t f hv
      exact ⟨.presented p, v', by simp [step, h], hfi, htr⟩
  | read k t =>
    obtain ⟨hr, -⟩ := readAt_spec k v t
    exact ⟨_, _, rfl, hr.flagsInv hv, hr.trimmedInv⟩
  | setBestBlock h =>
    cases v with
    | test b => exact ⟨_, _, rfl, hv, id⟩
    | cache c base =>
      have hr : ReadStep (cache c base) (cache (c.setBestBlock h) base) :=
        readStep_cache_of_find rfl rfl (ReadStep.refl base)
      exact ⟨_, _, rfl, hr.flagsInv hv, hr.trimmedInv⟩
  | getBestBlock =>
    have hr := getBestBlock_spec v
    exact ⟨_, _, rfl, hr.flagsInv hv, hr.trimmedInv⟩

/-- Every run from a stack satisfying the flag invariant gets through, and keeps it, and the
trimmed invariant when it held. -/
theorem run_spec (v : View) (ops : List StackOp) (hv : v.FlagsInv) :
    ∃ v', run v ops = some v' ∧ v'.FlagsInv ∧ (v.TrimmedInv → v'.TrimmedInv) := by
  induction ops generalizing v with
  | nil => exact ⟨v, rfl, hv, id⟩
  | cons op ops ih =>
    obtain ⟨obs, v1, h1, hv1, ht1⟩ := step_spec v op hv
    obtain ⟨v', h', hv', ht'⟩ := ih v1 hv1
    exact ⟨v', by simp [run, h1, h'], hv', ht' ∘ ht1⟩

theorem FlagsInv.layer {v : View} (hv : v.FlagsInv) (k : Nat) {c : CBreadcrumbsViewCache}
    {base : View} (h : v.layer k = cache c base) : FlagsOk c base := by
  induction k generalizing v with
  | zero => subst h; exact hv.2.1
  | succ k ih =>
    cases v with
    | test b => cases h
    | cache c' base' => exact ih hv.2.2 h

theorem TrimmedInv.layer {v : View} (hv : v.TrimmedInv) (k : Nat) {c : CBreadcrumbsViewCache}
    {base : View} (h : v.layer k = cache c base) : EntriesTrimmed c ∧ base.TrimmedInv := by
  induction k generalizing v with
  | zero => subst h; exact hv
  | succ k ih =>
    cases v with
    | test b => cases h
    | cache c' base' => exact ih hv.2 h

/-- **The flag invariant.** In every state a run reaches from the test view, no assertion having
failed, every cache layer `c` over the view `base` has the flag facts for each of its entries:
`FRESH` over a pruned or absent value, non-`DIRTY` `==` to the value below, non-`FRESH` over an
entry of a cache below. -/
theorem run_flagsOk (B : CBreadcrumbsViewTest) (ops : List StackOp) :
    ∃ v, run (.test B) ops = some v ∧ ∀ k c base, v.layer k = .cache c base → FlagsOk c base := by
  obtain ⟨v, h, hv, -⟩ := run_spec (.test B) ops trivial
  exact ⟨v, h, fun k _ _ hk => hv.layer k hk⟩

/-! ## 5. `HaveBreadcrumbs` -/

theorem isEmpty_vout_of_trimmed {r : CBreadcrumbs} (h : r.Trimmed) :
    r.vout.isEmpty = r.isPruned := by
  rw [Bool.eq_iff_iff, List.isEmpty_iff, CBreadcrumbs.vout_eq_nil_iff_of_trimmed h]

/-- Over trimmed records, `HaveBreadcrumbs`' test of `vout.empty()` answers whether
`GetBreadcrumbs` in the same state finds a non-pruned record. -/
theorem haveBreadcrumbs_eq_getBreadcrumbs (c : CBreadcrumbsViewCache) (base : View) (t : uint256)
    (hc : EntriesTrimmed c) (hb : base.TrimmedInv) :
    (c.haveBreadcrumbs base base.getBreadcrumbs t).1 =
      (c.getBreadcrumbs base base.getBreadcrumbs t).1.any fun r => !r.isPruned := by
  simp only [haveBreadcrumbs, CBreadcrumbsViewCache.getBreadcrumbs, accessBreadcrumbs,
    fetchBreadcrumbs]
  cases hf : c.find t with
  | some e => simp [isEmpty_vout_of_trimmed (hc t e hf)]
  | none =>
    have hans := (getBreadcrumbs_spec base t).2.1
    revert hans
    cases base.getBreadcrumbs t with
    | mk r base' =>
    intro hans
    cases r with
    | none => rfl
    | some x =>
      have hx : x = base.value t := hans
      simp [isEmpty_vout_of_trimmed (hx ▸ value_trimmed hb t)]

/-- **Trimmed records, and `HaveBreadcrumbs`.** When the test view's records are trimmed, in
every state a run reaches, every record in every cache layer's map is trimmed, and on every
cache layer `HaveBreadcrumbs(t)` is true exactly when `GetBreadcrumbs(t)` in the same state
yields a non-pruned record. -/
theorem haveBreadcrumbs_eq_not_isPruned (B : CBreadcrumbsViewTest)
    (hB : ∀ t r, B.map_ t = some r → r.Trimmed) (ops : List StackOp) :
    ∃ v, run (.test B) ops = some v ∧ ∀ k c base, v.layer k = .cache c base →
      (∀ t e, c.find t = some e → e.coins.Trimmed) ∧
      ∀ t, (c.haveBreadcrumbs base base.getBreadcrumbs t).1 =
        (c.getBreadcrumbs base base.getBreadcrumbs t).1.any fun r => !r.isPruned := by
  obtain ⟨v, h, -, ht⟩ := run_spec (.test B) ops trivial
  refine ⟨v, h, fun k c base hk => ?_⟩
  obtain ⟨hc, hb⟩ := (ht hB).layer k hk
  exact ⟨hc, fun t => haveBreadcrumbs_eq_getBreadcrumbs c base t hc hb⟩

/-- A test view holding one trimmed record, one cache pushed on it and the record read. -/
theorem haveBreadcrumbs_eq_not_isPruned_one_record :
    ∃ v, run (.test ⟨0, fun t => if t = 1 then some ⟨false, [some ⟨5000, []⟩], 10, 1⟩ else none,
        fun _ => 0, 0⟩) [.push, .read 0 1] = some v ∧
      ∀ k c base, v.layer k = .cache c base →
      (∀ t e, c.find t = some e → e.coins.Trimmed) ∧
      ∀ t, (c.haveBreadcrumbs base base.getBreadcrumbs t).1 =
        (c.getBreadcrumbs base base.getBreadcrumbs t).1.any fun r => !r.isPruned :=
  haveBreadcrumbs_eq_not_isPruned _ (fun _ _ h => by
    dsimp only at h
    split at h
    · cases h; decide
    · cases h) _

end View

end Duckcoin
