/-
Duckcoin.FreshTheorems — the `FRESH` optimisation is always applied: no
cache of a reachable stack keeps a `DIRTY`, `FRESH` entry whose record is
pruned.

A `FRESH` entry has no non-pruned version below it, so once its record is
pruned there is nothing for a flush to write down. The modifier's release
erases such an entry; `BatchWrite` erases a `FRESH` entry here that the
child prunes, drops a pruned child entry that has no entry here, and
moves a non-pruned one up as `DIRTY | FRESH`. Reads add entries that are
not `DIRTY`.

- `LiveSlot`, `FreshLive`: a `DIRTY`, `FRESH` entry holds a record that is
  not pruned; `View.FreshLiveInv` asks it of every cache of a stack.
- `liveSlot_mergedEntry`: the loop body of `BatchWrite` keeps it, whatever
  the child's entry.
- `step_freshLive`: every operation on a stack satisfying the flag
  invariant keeps `FreshLiveInv`.
- `run_freshLive`: in every state a run reaches from the test view, no
  cache holds a `DIRTY`, `FRESH` entry with a pruned record.
-/
import Duckcoin.StackInvariants

namespace Duckcoin

open CBreadcrumbsViewCache

/-- An entry slot that is `DIRTY` and `FRESH` holds a record that is not pruned. -/
def LiveSlot (x : Option CBreadcrumbsCacheEntry) : Prop :=
  ∀ e, x = some e → e.dirty = true → e.fresh = true → e.coins.isPruned = false

/-- Every `DIRTY`, `FRESH` entry of the cache holds a record that is not pruned. -/
def FreshLive (c : CBreadcrumbsViewCache) : Prop := ∀ t, LiveSlot (c.find t)

namespace View

/-- Every cache layer of the stack satisfies `FreshLive`. -/
def FreshLiveInv : View → Prop
  | test _ => True
  | cache c base => FreshLive c ∧ base.FreshLiveInv

end View

/-! ## 1. Slots -/

theorem liveSlot_none : LiveSlot none := nofun

theorem liveSlot_of_dirty_false {e : CBreadcrumbsCacheEntry} (h : e.dirty = false) :
    LiveSlot (some e) := by
  rintro _ ⟨⟩ hd; simp [h] at hd

/-- **The loop body of `BatchWrite` keeps live slots**, whatever the child's entry `e`. -/
theorem liveSlot_mergedEntry {us : Option CBreadcrumbsCacheEntry} (h : LiveSlot us)
    (e : CBreadcrumbsCacheEntry) : LiveSlot (mergedEntry us e) := by
  intro x hx hd hfr
  unfold mergedEntry at hx
  by_cases hed : e.dirty = true
  · rw [if_pos hed] at hx
    cases us with
    | none =>
      by_cases hp : e.coins.isPruned = true
      · simp [hp] at hx
      · simp only [hp, if_false, Option.some.injEq, Bool.false_eq_true] at hx
        cases hx
        simpa using hp
    | some u =>
      by_cases hp : (u.fresh && e.coins.isPruned) = true
      · simp [hp] at hx
      · simp only [hp, if_false, Option.some.injEq, Bool.false_eq_true] at hx
        cases hx
        simp_all
  · rw [if_neg hed] at hx
    exact h x hx hd hfr

theorem FreshLive.put {c : CBreadcrumbsViewCache} (hc : FreshLive c) (t : uint256)
    {e : CBreadcrumbsCacheEntry} (he : LiveSlot (some e)) : FreshLive (c.put t e) := by
  intro t'; rw [find_put]; split
  · exact he
  · exact hc t'

theorem FreshLive.of_find {c c' : CBreadcrumbsViewCache} (hc : FreshLive c)
    (h : c'.find = c.find) : FreshLive c' := fun t => by
  show LiveSlot (c'.find t); rw [h]; exact hc t

theorem FreshLive.of_find_none {c : CBreadcrumbsViewCache} (h : ∀ t, c.find t = none) :
    FreshLive c := fun t => h t ▸ liveSlot_none

/-! ## 2. Reads and the best block -/

namespace View

/-- A read adds only entries that are not `DIRTY`. -/
theorem freshLiveInv_getBreadcrumbs (v : View) (t : uint256) (h : v.FreshLiveInv) :
    (v.getBreadcrumbs t).2.FreshLiveInv := by
  induction v with
  | test b => trivial
  | cache c base ih =>
    obtain ⟨hc, hb⟩ := h
    have hb' := ih hb
    simp only [getBreadcrumbs, CBreadcrumbsViewCache.getBreadcrumbs, accessBreadcrumbs,
      fetchBreadcrumbs]
    revert hb'
    cases c.find t with
    | some e => exact fun _ => ⟨hc, hb⟩
    | none =>
      cases base.getBreadcrumbs t with
      | mk r base' =>
        cases r with
        | none => exact fun hb' => ⟨hc, hb'⟩
        | some x => exact fun hb' => ⟨hc.put t (liveSlot_of_dirty_false rfl), hb'⟩

theorem freshLiveInv_readAt (k : Nat) (v : View) (t : uint256) (h : v.FreshLiveInv) :
    (v.readAt k t).2.FreshLiveInv := by
  induction k generalizing v with
  | zero => exact freshLiveInv_getBreadcrumbs v t h
  | succ k ih =>
    cases v with
    | test b => trivial
    | cache c base => exact ⟨h.1, ih base h.2⟩

/-- `GetBestBlock` changes no entry. -/
theorem freshLiveInv_getBestBlock (v : View) (h : v.FreshLiveInv) :
    v.getBestBlock.2.FreshLiveInv := by
  induction v with
  | test b => trivial
  | cache c base ih =>
    simp only [getBestBlock, CBreadcrumbsViewCache.getBestBlock]
    split
    · exact ⟨h.1.of_find rfl, ih h.2⟩
    · exact h

/-! ## 3. Modification and flush -/

/-- `ModifyBreadcrumbs` reads its base at most once: the base it leaves is the base, or the
base after a read. -/
theorem modifyBreadcrumbs_base {c c1 : CBreadcrumbsViewCache} {base base1 : View} {t : uint256}
    {m : CBreadcrumbsModifier} (h : c.modifyBreadcrumbs base base.getBreadcrumbs t = some (m, c1, base1)) :
    base1 = base ∨ base1 = (base.getBreadcrumbs t).2 := by
  unfold modifyBreadcrumbs at h
  split at h
  · cases h
  · cases hc : c.find t with
    | some e => simp only [hc, Option.some.injEq, Prod.mk.injEq] at h; exact Or.inl h.2.2.symm
    | none =>
      simp only [hc] at h
      revert h
      cases base.getBreadcrumbs t with
      | mk r b' =>
        cases r <;> intro h <;> simp only [Option.some.injEq, Prod.mk.injEq] at h <;>
          exact Or.inr h.2.2.symm

/-- A modification of the tip keeps `FreshLiveInv`: the release erases the entry when it is
`FRESH` and its cleaned record pruned. -/
theorem freshLiveInv_modifyOnTip (c : CBreadcrumbsViewCache) (base : View) (t : uint256)
    (f : CBreadcrumbs → CBreadcrumbs) (hv : (cache c base).FlagsInv)
    (h : (cache c base).FreshLiveInv) {p : CBreadcrumbs} {v' : View}
    (hrun : modifyOnTip c base t f = some (p, v')) : v'.FreshLiveInv := by
  obtain ⟨e, base1, hmod, -⟩ := modifyBreadcrumbs_spec c base t hv.1 hv.2.1
  obtain ⟨c3, hrun3, -, hfind3⟩ := modifyOnTip_eq c base base1 t f e hmod
  rw [hrun3] at hrun
  cases hrun
  refine ⟨fun t' x hx hd hfr => ?_, ?_⟩
  · rw [hfind3] at hx
    split at hx
    · split at hx <;> cases hx; simp_all
    · exact h.1 t' x hx hd hfr
  · rcases modifyBreadcrumbs_base hmod with rfl | rfl
    · exact h.2
    · exact freshLiveInv_getBreadcrumbs base t h.2

/-- A flush of the tip keeps `FreshLiveInv` of the layer below: a cache below merges every
entry through `mergedEntry`. -/
theorem freshLiveInv_flush (c : CBreadcrumbsViewCache) (base : View)
    (hv : (cache c base).FlagsInv) (h : (cache c base).FreshLiveInv) {ok : Bool}
    {c' : CBreadcrumbsViewCache} {base' : View}
    (hfl : c.flush base.batchWrite = some (ok, c', base')) :
    base'.FreshLiveInv ∧ FreshLive c' := by
  obtain ⟨-, hfc, hb⟩ := hv
  simp only [flush, Option.map_eq_some'] at hfl
  obtain ⟨⟨ok1, m1, b1⟩, hbw, he⟩ := hfl
  simp only [Prod.mk.injEq] at he
  obtain ⟨-, rfl, rfl⟩ := he
  refine ⟨?_, FreshLive.of_find_none fun t => AList.lookup_empty t⟩
  cases base with
  | test b =>
    simp only [View.batchWrite, Option.map_eq_some'] at hbw
    obtain ⟨_, -, he⟩ := hbw
    cases he
    trivial
  | cache p pbase =>
    obtain ⟨hpm, hfp, -⟩ := hb
    obtain ⟨p', hbw', hfind, -⟩ := p.batchWrite_spec hpm c.cacheBreadcrumbs c.hashBlock
      fun t e hc _ hn _ => hfc.fresh_of_find_none t e hc hn
    simp only [View.batchWrite, hbw', Option.map_some', Option.some.injEq, Prod.mk.injEq] at hbw
    obtain ⟨-, -, rfl⟩ := hbw
    refine ⟨fun t => ?_, h.2.2⟩
    rw [hfind]
    split
    · exact liveSlot_mergedEntry (h.2.1 t) _
    · exact h.2.1 t

/-! ## 4. Runs -/

theorem FreshLiveInv.layer {v : View} (hv : v.FreshLiveInv) (k : Nat) {c : CBreadcrumbsViewCache}
    {base : View} (h : v.layer k = cache c base) : FreshLive c := by
  induction k generalizing v with
  | zero => subst h; exact hv.1
  | succ k ih =>
    cases v with
    | test b => cases h
    | cache c' base' => exact ih hv.2 h

/-- **One operation.** Every operation on a stack satisfying the flag invariant keeps
`FreshLiveInv`. -/
theorem step_freshLive (v : View) (op : StackOp) (hv : v.FlagsInv) (h : v.FreshLiveInv)
    {obs : StackObs} {v' : View} (hstep : step v op = some (obs, v')) : v'.FreshLiveInv := by
  cases op with
  | push =>
    cases hstep
    exact ⟨FreshLive.of_find_none find_new, h⟩
  | discard =>
    cases v with
    | test b => cases hstep; trivial
    | cache c base =>
      simp only [step, hv.1, Bool.false_eq_true, if_false, Option.some.injEq, Prod.mk.injEq]
        at hstep
      obtain ⟨-, rfl⟩ := hstep
      exact h.2
  | flush pop =>
    cases v with
    | test b => cases hstep; trivial
    | cache c base =>
      simp only [step, Option.bind_eq_some] at hstep
      obtain ⟨⟨ok, c', base'⟩, hfl, hpop⟩ := hstep
      obtain ⟨hb', hc'⟩ := freshLiveInv_flush c base hv h hfl
      cases pop
      · simp only [Bool.false_eq_true, if_false, Option.some.injEq, Prod.mk.injEq] at hpop
        obtain ⟨-, rfl⟩ := hpop
        exact ⟨hc', hb'⟩
      · simp only [if_true] at hpop
        split at hpop
        · cases hpop
        · simp only [Option.some.injEq, Prod.mk.injEq] at hpop
          obtain ⟨-, rfl⟩ := hpop
          exact hb'
  | modify t f =>
    cases v with
    | test b => cases hstep; trivial
    | cache c base =>
      simp only [step, Option.map_eq_some'] at hstep
      obtain ⟨⟨p, v1⟩, hrun, he⟩ := hstep
      cases he
      exact freshLiveInv_modifyOnTip c base t f hv h hrun
  | read k t =>
    cases hstep
    exact freshLiveInv_readAt k v t h
  | setBestBlock hb =>
    cases v with
    | test b => cases hstep; trivial
    | cache c base =>
      cases hstep
      exact ⟨h.1.of_find rfl, h.2⟩
  | getBestBlock =>
    cases hstep
    exact freshLiveInv_getBestBlock v h

/-- **No `DIRTY`, `FRESH` entry is pruned.** In every state a run reaches from the test view,
no assertion having failed, every entry of every cache that is both `DIRTY` and `FRESH` holds a
record that is not pruned: the modifier's release and `BatchWrite` have erased every such entry
whose record became pruned. -/
theorem run_freshLive (B : CBreadcrumbsViewTest) (ops : List StackOp) :
    ∃ v, run (.test B) ops = some v ∧ ∀ k c base, v.layer k = .cache c base →
      ∀ t e, c.find t = some e → e.dirty = true → e.fresh = true → e.coins.isPruned = false := by
  suffices ∀ (v : View), v.FlagsInv → v.FreshLiveInv → ∃ v', run v ops = some v' ∧
      v'.FreshLiveInv by
    obtain ⟨v, hrun, hfl⟩ := this (.test B) trivial trivial
    exact ⟨v, hrun, fun k c base hk t => hfl.layer k hk t⟩
  induction ops with
  | nil => exact fun v _ h => ⟨v, rfl, h⟩
  | cons op ops ih =>
    intro v hv h
    obtain ⟨obs, v1, h1, hv1, -⟩ := step_spec v op hv
    obtain ⟨v', h', hfl'⟩ := ih v1 hv1 (step_freshLive v op hv h h1)
    exact ⟨v', by simp [run, h1, h'], hfl'⟩

end View

end Duckcoin
