/-
Duckcoin.StackRefinement — the cache stack refines a stack of overlays.

The reference (`RefStack`) says what the stack of caches is for: a base
holding the test view's records, and one overlay per cache layer, the
tip's first, holding the records written in that layer. Pushing a cache
pushes an empty overlay; discarding one drops it; a flush merges the top
overlay into the one below it (into the base when there is none) and
empties it, and popping then removes it; a modification writes the record
the modifier presented, mutated and cleaned, into the top overlay. The
value of a txid seen from a layer is that of the first overlay from there
down that holds it, else the base's.

* `stack_refines`: along every run from the test view, no assertion fails,
  every read of any layer answers (`==`) that layer's reference value, and
  answers that it has no record only when the reference value is pruned,
  and every modifier presents (`==`) the tip's reference value.

How the proof goes. `Sim` relates the two stacks layer by layer: the
logical values of the caches are `==` to the reference's
(`List.Forall₂`). `step_sim` keeps `Sim` and the flag invariant over one
operation, from the spec lemma of each operation in
`Duckcoin.StackInvariants`; `jointRun_sim` carries them along a run.
-/
import Duckcoin.StackInvariants

namespace Duckcoin

open CBreadcrumbsViewCache

/-- The value of `txid` seen from the overlays `os` over `base`: the first overlay holding a
record for it, else the base's. -/
def valueFrom : List (uint256 → Option CBreadcrumbs) → (uint256 → CBreadcrumbs) → uint256 →
    CBreadcrumbs
  | [], base, t => base t
  | o :: os, base, t => (o t).getD (valueFrom os base t)

/-- The values seen from each overlay, from the top down to the base. -/
def refValues : List (uint256 → Option CBreadcrumbs) → (uint256 → CBreadcrumbs) →
    List (uint256 → CBreadcrumbs)
  | [], base => [base]
  | o :: os, base => valueFrom (o :: os) base :: refValues os base

/-- The reference stack: the base's records, and the overlays, the top one first. -/
structure RefStack where
  base : uint256 → CBreadcrumbs
  overlays : List (uint256 → Option CBreadcrumbs)

namespace RefStack

/-- The reference of the test view with no cache on it. -/
def init (B : CBreadcrumbsViewTest) : RefStack := ⟨(View.test B).value, []⟩

/-- The values seen from each layer. -/
def values (R : RefStack) : List (uint256 → CBreadcrumbs) := refValues R.overlays R.base

/-- The value of `txid` seen from layer `k`; past the last overlay, the base's. -/
def valueAt (R : RefStack) (k : Nat) (t : uint256) : CBreadcrumbs :=
  valueFrom (R.overlays.drop k) R.base t

/-- A flush of the top overlay: merged into the one below it, or into the base; then emptied,
or removed when it is popped. -/
def flushTop (R : RefStack) (pop : Bool) : RefStack :=
  let top : List (uint256 → Option CBreadcrumbs) := if pop then [] else [fun _ => none]
  match R.overlays with
  | [] => R
  | [o] => ⟨fun t => (o t).getD (R.base t), top⟩
  | o :: o' :: os => ⟨R.base, top ++ (fun t => (o t).or (o' t)) :: os⟩

/-- A write of record `r` for `txid` into the top overlay. -/
def write (R : RefStack) (txid : uint256) (r : CBreadcrumbs) : RefStack :=
  match R.overlays with
  | [] => R
  | o :: os => { R with overlays := Function.update o txid (some r) :: os }

/-- One operation on the reference; a modification writes the record the modifier presented,
mutated and cleaned. -/
def step (R : RefStack) : StackOp → StackObs → RefStack
  | .push, _ => { R with overlays := (fun _ => none) :: R.overlays }
  | .discard, _ => { R with overlays := R.overlays.tail }
  | .flush pop, _ => R.flushTop pop
  | .modify txid mutation, obs =>
    match obs with
    | .presented p => R.write txid (mutation p).cleanup
    | _ => R
  | .read _ _, _ => R
  | .setBestBlock _, _ => R
  | .getBestBlock, _ => R

end RefStack

/-- A read answered `r` against a reference value `x`: a record `==` to it, or none when `x` is
pruned. -/
def Matches (r : Option CBreadcrumbs) (x : CBreadcrumbs) : Prop :=
  match r with
  | some y => (y == x) = true
  | none => x.isPruned = true

/-- One operation of a joint run: the reference before it, the operation, and what the cache
stack observed. -/
structure Observation where
  ref : RefStack
  op : StackOp
  obs : StackObs

/-- What was observed agrees with the reference: a read of layer `k` matches that layer's
reference value, and a modifier presents the tip's. -/
def Observation.Agrees (x : Observation) : Prop :=
  match x.op, x.obs with
  | .read k t, .found r => Matches r (x.ref.valueAt k t)
  | .modify t _, .presented p => (p == x.ref.valueAt 0 t) = true
  | _, _ => True

/-- The cache stack and the reference side by side: `none` once the cache stack aborts. -/
def jointRun : View → RefStack → List StackOp → Option (List Observation × View × RefStack)
  | v, R, [] => some ([], v, R)
  | v, R, op :: ops => (step v op).bind fun (obs, v') =>
    (jointRun v' (R.step op obs) ops).map fun (tr, v'', R'') => (⟨R, op, obs⟩ :: tr, v'', R'')

/-- Two lists of values, layer by layer `==`. -/
def BeqLayers (vs ws : List (uint256 → CBreadcrumbs)) : Prop :=
  List.Forall₂ (fun f g => ∀ t, (f t == g t) = true) vs ws

/-- The cache stack simulates the reference: the same layers, with `==` values. -/
def Sim (v : View) (R : RefStack) : Prop := BeqLayers v.values R.values

/-! ## 1. Layers of the two stacks -/

theorem View.values_eq_cons (v : View) : v.values = v.value :: v.values.tail := by
  cases v <;> rfl

theorem refValues_eq_cons (os : List (uint256 → Option CBreadcrumbs))
    (base : uint256 → CBreadcrumbs) :
    refValues os base = valueFrom os base :: (refValues os base).tail := by
  cases os <;> rfl

theorem BeqLayers.cons_iff {f g : uint256 → CBreadcrumbs} {vs ws : List (uint256 → CBreadcrumbs)} :
    BeqLayers (f :: vs) (g :: ws) ↔ (∀ t, (f t == g t) = true) ∧ BeqLayers vs ws :=
  List.forall₂_cons

/-- The tip values of simulating stacks are `==`. -/
theorem Sim.head {v : View} {R : RefStack} (h : Sim v R) (t : uint256) :
    (v.value t == valueFrom R.overlays R.base t) = true := by
  rw [Sim, View.values_eq_cons, RefStack.values, refValues_eq_cons, BeqLayers.cons_iff] at h
  exact h.1 t

/-- Below a cache layer, the reference has an overlay, and the rest simulate each other. -/
theorem Sim.cache {c : CBreadcrumbsViewCache} {base : View} {R : RefStack}
    (h : Sim (.cache c base) R) : ∃ o os, R.overlays = o :: os ∧ Sim base ⟨R.base, os⟩ := by
  obtain ⟨Rb, os⟩ := R
  cases os with
  | nil =>
    rw [Sim, View.values, View.values_eq_cons] at h
    cases h with
    | cons _ h' => cases h'
  | cons o os => exact ⟨o, os, rfl, ((BeqLayers.cons_iff).mp h).2⟩

/-- Under the test view, the reference has no overlay. -/
theorem Sim.test {b : CBreadcrumbsViewTest} {R : RefStack} (h : Sim (.test b) R) :
    R.overlays = [] := by
  obtain ⟨Rb, os⟩ := R
  cases os with
  | nil => rfl
  | cons o os =>
    rw [Sim, RefStack.values, refValues, refValues_eq_cons] at h
    cases h with
    | cons _ h' => cases h'

/-- Layer `k` of simulating stacks: `==` values. -/
theorem Sim.layer {v : View} {R : RefStack} (h : Sim v R) (k : Nat) (t : uint256) :
    ((v.layer k).value t == R.valueAt k t) = true := by
  induction v generalizing k R with
  | test b =>
    have hR := h.test
    have := h.head t
    cases k <;> simpa [View.layer, RefStack.valueAt, hR] using this
  | cache c base ih =>
    obtain ⟨o, os, hR, hs⟩ := h.cache
    cases k with
    | zero => simpa [View.layer, RefStack.valueAt, hR] using h.head t
    | succ k => simpa [View.layer, RefStack.valueAt, hR] using ih hs k

theorem beq_trans_layers {f g h : uint256 → CBreadcrumbs} (hfg : ∀ t, (f t == g t) = true)
    (hgh : ∀ t, (g t == h t) = true) : ∀ t, (f t == h t) = true :=
  fun t => CBreadcrumbs.beq_trans (hfg t) (hgh t)

/-! ## 2. One operation -/

theorem Matches.of_answers {r : Option CBreadcrumbs} {x y : CBreadcrumbs} (h : Answers r x)
    (hxy : (x == y) = true) : Matches r y := by
  cases r with
  | some z => exact (show z = x from h) ▸ hxy
  | none =>
    show y.isPruned = true
    rw [← CBreadcrumbs.isPruned_eq_of_beq hxy]
    exact h

theorem valueFrom_merge (o o' : uint256 → Option CBreadcrumbs)
    (os : List (uint256 → Option CBreadcrumbs)) (base : uint256 → CBreadcrumbs) :
    valueFrom ((fun t => (o t).or (o' t)) :: os) base = valueFrom (o :: o' :: os) base := by
  funext t
  simp only [valueFrom]
  cases o t <;> rfl

theorem valueFrom_empty_cons (os : List (uint256 → Option CBreadcrumbs))
    (base : uint256 → CBreadcrumbs) : valueFrom ((fun _ => none) :: os) base = valueFrom os base :=
  rfl

/-- A flush of the reference: the value from the top overlay moves one layer down. -/
theorem RefStack.values_flushTop (Rb : uint256 → CBreadcrumbs) (o : uint256 → Option CBreadcrumbs)
    (os : List (uint256 → Option CBreadcrumbs)) (pop : Bool) :
    (flushTop ⟨Rb, o :: os⟩ pop).values = (if pop then [] else [valueFrom (o :: os) Rb]) ++
      valueFrom (o :: os) Rb :: (refValues os Rb).tail := by
  cases os with
  | nil => cases pop <;> rfl
  | cons o' os =>
    cases pop <;> simp [flushTop, values, refValues, valueFrom_merge, valueFrom_empty_cons]

theorem valueFrom_write (o : uint256 → Option CBreadcrumbs) (os : List (uint256 → Option CBreadcrumbs))
    (base : uint256 → CBreadcrumbs) (txid t : uint256) (r : CBreadcrumbs) :
    valueFrom (Function.update o txid (some r) :: os) base t =
      if t = txid then r else valueFrom (o :: os) base t := by
  by_cases ht : t = txid
  · subst ht; simp [valueFrom]
  · simp [valueFrom, ht]

/-- A flush of a simulating tip, popped or not, keeps the flag invariant and the simulation of
the reference's `flushTop`. -/
theorem flush_sim (c : CBreadcrumbsViewCache) (base : View) (Rb : uint256 → CBreadcrumbs)
    (o : uint256 → Option CBreadcrumbs) (os' : List (uint256 → Option CBreadcrumbs)) (pop : Bool)
    (hv : (View.cache c base).FlagsInv) (hs : Sim (.cache c base) ⟨Rb, o :: os'⟩) :
    ∃ v', step (.cache c base) (.flush pop) = some (.done, v') ∧ v'.FlagsInv ∧
      Sim v' (RefStack.flushTop ⟨Rb, o :: os'⟩ pop) := by
  obtain ⟨o₁, os₁, he, hs'⟩ := hs.cache
  cases he
  obtain ⟨base', hfl, hval, htail, hfi, -⟩ := View.flush_spec c base hv.2.1 hv.2.2
  -- the flushed layer takes the old tip's value, on both sides
  have hnew : ∀ t, (base'.value t == valueFrom (o :: os') Rb t) = true :=
    beq_trans_layers hval hs.head
  have hlayers : BeqLayers (base'.value :: base'.values.tail)
      (valueFrom (o :: os') Rb :: (refValues os' Rb).tail) := by
    have h2 : BeqLayers base.values (refValues os' Rb) := hs'
    rw [View.values_eq_cons, refValues_eq_cons, BeqLayers.cons_iff] at h2
    rw [htail]
    exact BeqLayers.cons_iff.mpr ⟨hnew, h2.2⟩
  have hvals := RefStack.values_flushTop Rb o os' pop
  cases pop
  · rw [if_neg Bool.false_ne_true, List.singleton_append] at hvals
    refine ⟨.cache { c with cacheBreadcrumbs := ∅ } base', by simp [step, hfl],
      ⟨hv.1, View.FlagsOk.of_find_none _ fun t => AList.lookup_empty t, hfi⟩, ?_⟩
    show BeqLayers ((View.cache { c with cacheBreadcrumbs := ∅ } base').value :: base'.values)
      (RefStack.flushTop ⟨Rb, o :: os'⟩ false).values
    rw [hvals, View.values_eq_cons base']
    exact BeqLayers.cons_iff.mpr ⟨fun t => by simpa [find] using hnew t, hlayers⟩
  · rw [if_pos rfl, List.nil_append] at hvals
    refine ⟨base', by simp [step, hfl, hv.1], hfi, ?_⟩
    show BeqLayers base'.values (RefStack.flushTop ⟨Rb, o :: os'⟩ true).values
    rw [hvals, View.values_eq_cons base']
    exact hlayers

/-- A modification of a simulating tip presents a record `==` to the reference's, keeps the flag
invariant, and keeps the simulation of the reference's write of the mutated, cleaned record. -/
theorem modify_sim (c : CBreadcrumbsViewCache) (base : View) (Rb : uint256 → CBreadcrumbs)
    (o : uint256 → Option CBreadcrumbs) (os' : List (uint256 → Option CBreadcrumbs)) (t : uint256)
    (f : CBreadcrumbs → CBreadcrumbs) (hv : (View.cache c base).FlagsInv)
    (hs : Sim (.cache c base) ⟨Rb, o :: os'⟩) :
    ∃ p v', step (.cache c base) (.modify t f) = some (.presented p, v') ∧
      (p == valueFrom (o :: os') Rb t) = true ∧ v'.FlagsInv ∧
      Sim v' (RefStack.write ⟨Rb, o :: os'⟩ t (f p).cleanup) := by
  obtain ⟨o₁, os₁, he, hs'⟩ := hs.cache
  cases he
  obtain ⟨p, v', hrun, hp, htail, hother, hself, hfi, -⟩ := View.modifyOnTip_spec c base t f hv
  refine ⟨p, v', by simp [step, hrun], CBreadcrumbs.beq_trans hp (hs.head t), hfi, ?_⟩
  show BeqLayers v'.values (refValues (Function.update o t (some (f p).cleanup) :: os') Rb)
  rw [View.values_eq_cons, htail, refValues, BeqLayers.cons_iff]
  refine ⟨fun t' => ?_, hs'⟩
  rw [valueFrom_write]
  split
  · subst_vars; exact hself
  · rename_i ht
    rw [hother t' ht]
    exact hs.head t'

/-- **One step of the simulation.** From a stack with the flag invariant simulating the
reference, every operation succeeds, what it observes agrees with the reference, and the
invariant and the simulation are kept. -/
theorem step_sim (v : View) (R : RefStack) (op : StackOp) (hv : v.FlagsInv) (hs : Sim v R) :
    ∃ obs v', step v op = some (obs, v') ∧ Observation.Agrees ⟨R, op, obs⟩ ∧ v'.FlagsInv ∧
      Sim v' (R.step op obs) := by
  obtain ⟨Rb, os⟩ := R
  cases op with
  | push =>
    refine ⟨.done, .cache .new v, rfl, trivial,
      ⟨rfl, View.FlagsOk.of_find_none v find_new, hv⟩, ?_⟩
    show BeqLayers ((View.cache .new v).value :: v.values) (refValues ((fun _ => none) :: os) Rb)
    rw [refValues, valueFrom_empty_cons, BeqLayers.cons_iff]
    exact ⟨fun t => by simpa using hs.head t, hs⟩
  | discard =>
    cases v with
    | test b => obtain rfl : os = [] := hs.test; exact ⟨.done, .test b, rfl, trivial, hv, hs⟩
    | cache c base =>
      obtain ⟨o, os', rfl, hs'⟩ := hs.cache
      exact ⟨.done, base, by simp [step, hv.1], trivial, hv.2.2, hs'⟩
  | flush pop =>
    cases v with
    | test b => obtain rfl : os = [] := hs.test; exact ⟨.done, .test b, rfl, trivial, hv, hs⟩
    | cache c base =>
      obtain ⟨o, os', rfl, -⟩ := hs.cache
      obtain ⟨v', hstep, hfi, hs'⟩ := flush_sim c base Rb o os' pop hv hs
      exact ⟨.done, v', hstep, trivial, hfi, hs'⟩
  | modify t f =>
    cases v with
    | test b => obtain rfl : os = [] := hs.test; exact ⟨.done, .test b, rfl, trivial, hv, hs⟩
    | cache c base =>
      obtain ⟨o, os', rfl, -⟩ := hs.cache
      obtain ⟨p, v', hstep, hp, hfi, hs'⟩ := modify_sim c base Rb o os' t f hv hs
      exact ⟨.presented p, v', hstep, hp, hfi, hs'⟩
  | read k t =>
    obtain ⟨hr, hans⟩ := View.readAt_spec k v t
    exact ⟨.found (v.readAt k t).1, (v.readAt k t).2, rfl, Matches.of_answers hans (hs.layer k t),
      hr.flagsInv hv, by rw [Sim, hr.values]; exact hs⟩
  | setBestBlock h =>
    cases v with
    | test b => exact ⟨.done, .test b, rfl, trivial, hv, hs⟩
    | cache c base =>
      have hr : View.ReadStep (.cache c base) (.cache (c.setBestBlock h) base) :=
        View.readStep_cache_of_find rfl rfl (View.ReadStep.refl base)
      exact ⟨.done, _, rfl, trivial, hr.flagsInv hv, by rw [Sim, hr.values]; exact hs⟩
  | getBestBlock =>
    have hr := View.getBestBlock_spec v
    exact ⟨.bestBlock v.getBestBlock.1, v.getBestBlock.2, rfl, trivial, hr.flagsInv hv,
      by rw [Sim, hr.values]; exact hs⟩

/-- Along a run from simulating stacks with the flag invariant, the cache stack never aborts and
every observation agrees with the reference. -/
theorem jointRun_sim (v : View) (R : RefStack) (ops : List StackOp) (hv : v.FlagsInv)
    (hs : Sim v R) :
    ∃ trace v' R', jointRun v R ops = some (trace, v', R') ∧ ∀ x ∈ trace, x.Agrees := by
  induction ops generalizing v R with
  | nil => exact ⟨[], v, R, rfl, nofun⟩
  | cons op ops ih =>
    obtain ⟨obs, v1, h1, hag, hv1, hs1⟩ := step_sim v R op hv hs
    obtain ⟨trace, v', R', h', hall⟩ := ih v1 (R.step op obs) hv1 hs1
    refine ⟨⟨R, op, obs⟩ :: trace, v', R', by simp [jointRun, h1, h'], ?_⟩
    rintro x (_ | ⟨_, hx⟩)
    · exact hag
    · exact hall x hx

/-- **The cache stack refines the reference.** Along every run from the test view, whatever its
records and whatever numbers `insecure_rand()` returns, over any sequence of pushes, discards,
flushes (popping or not), modifications of the tip, reads of any layer and best-block calls: no
assertion fails, every read of a layer answers a record `==` to that layer's reference value,
or none only when the reference value is pruned, and every modifier presents a record `==` to
the tip's reference value. -/
theorem stack_refines (B : CBreadcrumbsViewTest) (ops : List StackOp) :
    ∃ trace v R, jointRun (.test B) (RefStack.init B) ops = some (trace, v, R) ∧
      ∀ x ∈ trace, x.Agrees :=
  jointRun_sim (.test B) (RefStack.init B) ops trivial
    (List.Forall₂.cons (fun _ => CBreadcrumbs.beq_self _) List.Forall₂.nil)

end Duckcoin
