/-
Duckcoin.SpendTheorems — what `CBreadcrumbs::Spend` does to a trimmed
record, and that the undo record it fills is enough to rebuild it.

`spend_spec` is the whole contract at once: `Spend` succeeds exactly on an
available output; on failure nothing changes; on success the record stays
trimmed, only output `n` stops being available, the header fields stay,
and the spent output is in `undo`. The record is then recoverable: put
`undo.txout` back at `n` (padding with null outputs, `restoreAt`), or,
when `Cleanup` emptied `vout`, rebuild it from the fields `Spend` saved in
`undo`.

Two more ways a record is made or spent:

- `spendPos_eq`: `Spend(int nPos)` spends output `nPos` for a position
  `≥ 0`; a negative one, which `COutPoint(0, nPos)` turns into a
  `uint32_t` of at least `2 ^ 31`, fails and changes nothing, on every
  record of at most `2 ^ 31` outputs.
- `fromTx_spec`: `FromTx` builds a trimmed record with the transaction's
  header fields, in which exactly the outputs `IsUnspendable` does not
  reject are available, at their positions.

And over a run:

- `spendEach_spends_once`: along any sequence of `Spend` calls on one
  record, each output is spent successfully at most once, exactly when it
  was available and some call names it, and the record left has available
  the outputs that were and that no call names.

How the proof goes. Every list that appears is compared slot by slot
(`outAt`), and a list whose last slot is not null is determined by its
slots (`eq_of_outAt_eq`), so each equation of lists reduces to three
cases of an index: before `n`, at `n`, after `n`.
-/
import Duckcoin.Breadcrumbs

namespace Duckcoin

/-- The spec's rebuild step: output `o` back at position `n` of `vout`, padding with null
outputs when `vout` is shorter. -/
def restoreAt (vout : List (Option TxOut)) (n : Nat) (o : Option TxOut) : List (Option TxOut) :=
  if n < vout.length then vout.set n o
  else vout ++ List.replicate (n - vout.length) none ++ [o]

/-! ## Slots of `set`, `restoreAt` and a padded singleton -/

theorem outAt_set (v : List (Option TxOut)) (n m : Nat) (x : Option TxOut) (hn : n < v.length) :
    outAt (v.set n x) m = if m = n then x else outAt v m := by
  by_cases h : m = n
  · subst h; simp [outAt, hn]
  · simp [outAt, h, Ne.symm h]

theorem outAt_replicate_append (n m : Nat) (o : Option TxOut) :
    outAt (List.replicate n none ++ [o]) m = if m = n then o else none := by
  by_cases h : m < n
  · rw [outAt_append_of_lt (by simpa using h), if_neg (by omega)]; simp [outAt, h]
  · rw [outAt, List.getElem?_append_right (by simpa using h)]
    by_cases hm : m = n
    · subst hm; simp
    · rw [if_neg hm, List.getElem?_eq_none (by simp; omega)]; rfl

theorem outAt_restoreAt (v : List (Option TxOut)) (n m : Nat) (o : Option TxOut) :
    outAt (restoreAt v n o) m = if m = n then o else outAt v m := by
  unfold restoreAt
  split
  · exact outAt_set v n m o ‹_›
  · by_cases hm : m < v.length
    · rw [List.append_assoc, outAt_append_of_lt hm, if_neg (by omega)]
    · have hpad : outAt (v ++ (List.replicate (n - v.length) none ++ [o])) m =
          outAt (List.replicate (n - v.length) none ++ [o]) (m - v.length) := by
        simp only [outAt, List.getElem?_append_right (by omega : v.length ≤ m)]
      rw [List.append_assoc, hpad, outAt_replicate_append, outAt_of_length_le (a := v) (by omega)]
      by_cases hmn : m = n
      · simp [hmn]
      · rw [if_neg hmn, if_neg (by omega)]

theorem getLast?_restoreAt {v : List (Option TxOut)} (hv : v.getLast? ≠ some none) (n : Nat)
    (o : TxOut) : (restoreAt v n (some o)).getLast? ≠ some none := by
  unfold restoreAt
  split
  · rename_i hn
    rw [List.getLast?_eq_getElem?, List.length_set, List.getElem?_set]
    by_cases h : n = v.length - 1
    · simp [h, hn]
    · rw [if_neg h, ← List.getLast?_eq_getElem?]; exact hv
  · simp

/-! ## The record after a successful `Spend` -/

section Spent

variable (r : CBreadcrumbs) (n : Nat)

/-- The record a successful `Spend` of output `n` leaves: slot `n` nulled, then `Cleanup`. -/
abbrev spent : CBreadcrumbs := CBreadcrumbs.cleanup { r with vout := r.vout.set n none }

theorem outAt_spent (hn : n < r.vout.length) (m : Nat) :
    outAt (spent r n).vout m = if m = n then none else outAt r.vout m := by
  simp only [CBreadcrumbs.cleanup, outAt_rdropWhile]
  exact outAt_set r.vout n m none hn

theorem isAvailable_spent (hn : n < r.vout.length) (m : Nat) :
    (spent r n).isAvailable m = (r.isAvailable m && decide (m ≠ n)) := by
  simp only [CBreadcrumbs.isAvailable, outAt_spent r n hn m]
  by_cases hm : m = n <;> simp [hm]

/-- The spent record is trimmed; only output `n` changed, to unavailable; the header stays. -/
theorem spent_spec (hn : n < r.vout.length) :
    (spent r n).Trimmed ∧ (∀ m, m ≠ n → (spent r n).isAvailable m = r.isAvailable m) ∧
      (spent r n).isAvailable n = false ∧ (spent r n).fBreadcrumbBase = r.fBreadcrumbBase ∧
      (spent r n).nHeight = r.nHeight ∧ (spent r n).nVersion = r.nVersion := by
  refine ⟨CBreadcrumbs.cleanup_trimmed _, fun m hm => ?_, ?_, rfl, rfl, rfl⟩
  · simp only [CBreadcrumbs.isAvailable, outAt_spent r n hn m, if_neg hm]
  · simp only [CBreadcrumbs.isAvailable, outAt_spent r n hn n, if_pos rfl]; rfl

variable {r n} {o : TxOut} (hr : r.Trimmed) (hat : r.vout[n]? = some (some o))
include hr hat

/-- Putting the spent output back rebuilds `vout`. -/
theorem restoreAt_spent : restoreAt (spent r n).vout n (some o) = r.vout := by
  have hn : n < r.vout.length := (List.getElem?_eq_some_iff.mp hat).1
  refine eq_of_outAt_eq (getLast?_restoreAt (spent_spec r n hn).1 _ o) hr fun m => ?_
  rw [outAt_restoreAt, outAt_spent r n hn]
  by_cases hm : m = n
  · subst hm; simp [outAt, hat]
  · simp [hm]

/-- When `Cleanup` emptied the record, output `n` was its only unspent output. -/
theorem replicate_append_spent (hnil : (spent r n).vout = []) :
    List.replicate n none ++ [some o] = r.vout := by
  have hn : n < r.vout.length := (List.getElem?_eq_some_iff.mp hat).1
  refine eq_of_outAt_eq (by simp) hr fun m => ?_
  have := outAt_spent r n hn m
  rw [hnil, outAt_nil] at this
  rw [outAt_replicate_append]
  by_cases hm : m = n
  · subst hm; simp [outAt, hat]
  · simp only [if_neg hm] at this ⊢; exact this

end Spent

/-- **`Spend` on a trimmed record.** It succeeds exactly when output `n` is available; a
failure changes nothing; a success keeps the record trimmed, makes only output `n`
unavailable, keeps the header fields, moves the output into `undo`, and leaves enough to
rebuild the record (equal to it, so also `==`): `undo.txout` put back at `n`, or, when `vout`
was emptied, the record made of the fields saved in `undo` with `undo.txout` at `n`. -/
theorem spend_spec (r : CBreadcrumbs) (hr : r.Trimmed) (out : COutPoint) (undo : CTxInUndo)
    (ok : Bool) (r' : CBreadcrumbs) (undo' : CTxInUndo)
    (hs : r.spend out undo = (ok, r', undo')) :
    ok = r.isAvailable out.n ∧
    (ok = false → r' = r ∧ undo' = undo) ∧
    (ok = true → r'.Trimmed ∧ (∀ m, m ≠ out.n → r'.isAvailable m = r.isAvailable m) ∧
      r'.isAvailable out.n = false ∧ r'.fBreadcrumbBase = r.fBreadcrumbBase ∧
      r'.nHeight = r.nHeight ∧ r'.nVersion = r.nVersion ∧ r.vout[out.n]? = some undo'.txout ∧
      (r'.vout ≠ [] → { r' with vout := restoreAt r'.vout out.n undo'.txout } = r) ∧
      (r'.vout = [] → (⟨undo'.fBreadcrumbBase, List.replicate out.n none ++ [undo'.txout],
        undo'.nHeight, undo'.nVersion⟩ : CBreadcrumbs) = r)) := by
  unfold CBreadcrumbs.spend at hs
  dsimp only at hs
  split at hs
  next h =>
    simp only [Prod.mk.injEq] at hs; obtain ⟨rfl, rfl, rfl⟩ := hs
    simp [CBreadcrumbs.isAvailable, outAt, h]
  next h =>
    simp only [Prod.mk.injEq] at hs; obtain ⟨rfl, rfl, rfl⟩ := hs
    simp [CBreadcrumbs.isAvailable, outAt, h]
  next o h =>
    have hn : out.n < r.vout.length := (List.getElem?_eq_some_iff.mp h).1
    have havail : r.isAvailable out.n = true := by simp [CBreadcrumbs.isAvailable, outAt, h]
    obtain ⟨h1, h2, h3, h4, h5, h6⟩ := spent_spec r out.n hn
    split at hs <;> simp only [Prod.mk.injEq] at hs <;> obtain ⟨rfl, rfl, rfl⟩ := hs
    next hlen =>
      refine ⟨havail.symm, by simp, fun _ => ⟨h1, h2, h3, h4, h5, h6, by simp [h],
        fun hne => absurd (List.eq_nil_of_length_eq_zero hlen) hne, fun hnil => ?_⟩⟩
      rw [replicate_append_spent hr h hnil]
    next hlen =>
      refine ⟨havail.symm, by simp, fun _ => ⟨h1, h2, h3, h4, h5, h6, by simp [h],
        fun _ => ?_, fun hnil => absurd (by simp [hnil]) hlen⟩⟩
      rw [restoreAt_spent hr h]; rfl

/-- The spec's example record (one output of 5000 at height 10): spending its only output
empties it and saves the header in the undo record. -/
theorem spend_spec_last_output :
    (⟨false, [some ⟨5000, []⟩], 10, 1⟩ : CBreadcrumbs).Trimmed ∧
    (⟨false, [some ⟨5000, []⟩], 10, 1⟩ : CBreadcrumbs).spend ⟨0, 0⟩ { txout := none } =
      (true, ⟨false, [], 10, 1⟩, ⟨some ⟨5000, []⟩, false, 10, 1⟩) ∧
    true = (⟨false, [some ⟨5000, []⟩], 10, 1⟩ : CBreadcrumbs).isAvailable 0 :=
  ⟨by decide, rfl, (spend_spec ⟨false, [some ⟨5000, []⟩], 10, 1⟩ (by decide) ⟨0, 0⟩
    { txout := none } true ⟨false, [], 10, 1⟩ ⟨some ⟨5000, []⟩, false, 10, 1⟩ rfl).1⟩

/-! ## `Spend(int nPos)` and `FromTx` -/

/-- **`Spend(int nPos)`.** For an `int` position (`-2 ^ 31 ≤ nPos < 2 ^ 31`) and a record of at
most `2 ^ 31` outputs, a position `≥ 0` is spent as output `nPos`, and a negative one, which
`COutPoint(0, nPos)` turns into a `uint32_t` of at least `2 ^ 31`, fails and changes nothing. -/
theorem spendPos_eq (r : CBreadcrumbs) (nPos : Int) (hlo : -2147483648 ≤ nPos)
    (hhi : nPos < 2147483648) (hlen : r.vout.length ≤ 2147483648) :
    r.spendPos nPos = if nPos < 0 then (false, r) else
      ((r.spend ⟨0, nPos.toNat⟩ { txout := none }).1,
        (r.spend ⟨0, nPos.toNat⟩ { txout := none }).2.1) := by
  unfold CBreadcrumbs.spendPos
  by_cases hneg : nPos < 0
  · have hnone : r.vout[(nPos % 4294967296).toNat]? = none := List.getElem?_eq_none (by omega)
    simp [CBreadcrumbs.spend, hnone, hneg]
  · rw [if_neg hneg, show (nPos % 4294967296).toNat = nPos.toNat by omega]

/-- The spec's example record, spent at position `-1`. -/
theorem spendPos_eq_minus_one :
    (-2147483648 : Int) ≤ -1 ∧ (-1 : Int) < 2147483648 ∧
      (⟨false, [some (TxOut.mk 5000 [])], 10, 1⟩ : CBreadcrumbs).vout.length ≤ 2147483648 ∧
      (⟨false, [some (TxOut.mk 5000 [])], 10, 1⟩ : CBreadcrumbs).spendPos (-1) =
        if (-1 : Int) < 0 then (false, ⟨false, [some (TxOut.mk 5000 [])], 10, 1⟩) else
          (((⟨false, [some (TxOut.mk 5000 [])], 10, 1⟩ : CBreadcrumbs).spend
              ⟨0, (-1 : Int).toNat⟩ { txout := none }).1,
            ((⟨false, [some (TxOut.mk 5000 [])], 10, 1⟩ : CBreadcrumbs).spend
              ⟨0, (-1 : Int).toNat⟩ { txout := none }).2.1) :=
  ⟨by decide, by decide, by decide,
    spendPos_eq ⟨false, [some (TxOut.mk 5000 [])], 10, 1⟩ (-1) (by decide) (by decide) (by decide)⟩

/-- **A record built by `FromTx`.** It is trimmed and copies the coinbase flag, the height and
the version; output `i` is available exactly when the transaction has an output `i` that
`IsUnspendable` does not reject, so the record is pruned exactly when every output is
rejected. -/
theorem fromTx_spec (isUnspendable : List UInt8 → Bool) (tx : CTransaction) (nHeightIn : Int) :
    (CBreadcrumbs.fromTx isUnspendable tx nHeightIn).Trimmed ∧
      (CBreadcrumbs.fromTx isUnspendable tx nHeightIn).fBreadcrumbBase = tx.isBreadcrumbBase ∧
      (CBreadcrumbs.fromTx isUnspendable tx nHeightIn).nHeight = nHeightIn ∧
      (CBreadcrumbs.fromTx isUnspendable tx nHeightIn).nVersion = tx.nVersion ∧
      (∀ i, (CBreadcrumbs.fromTx isUnspendable tx nHeightIn).isAvailable i =
        (tx.vout[i]?).any fun o => !isUnspendable o.scriptPubKey) ∧
      (CBreadcrumbs.fromTx isUnspendable tx nHeightIn).isPruned =
        tx.vout.all fun o => isUnspendable o.scriptPubKey := by
  refine ⟨CBreadcrumbs.cleanup_trimmed _, rfl, rfl, rfl, fun i => ?_, ?_⟩
  · rw [CBreadcrumbs.fromTx, CBreadcrumbs.isAvailable_cleanup]
    cases h : tx.vout[i]? with
    | none => simp [CBreadcrumbs.isAvailable, outAt, h]
    | some o =>
      simp only [CBreadcrumbs.isAvailable, outAt, List.getElem?_map, h, Option.map_some',
        Option.join, Option.bind_some, Option.any_some]
      cases isUnspendable o.scriptPubKey <;> rfl
  · rw [CBreadcrumbs.fromTx, CBreadcrumbs.isPruned_cleanup, CBreadcrumbs.isPruned]
    dsimp only
    rw [Bool.eq_iff_iff, List.all_eq_true, List.all_eq_true, List.forall_mem_map]
    refine forall₂_congr fun o _ => ?_
    cases isUnspendable o.scriptPubKey <;> simp

/-! ## Runs of `Spend` on one record -/

/-- One `Spend(out, undo)`: it succeeds exactly when output `out.n` is available, and leaves
available exactly the outputs that were, but `out.n`. -/
theorem spend_isAvailable (r : CBreadcrumbs) (out : COutPoint) (undo : CTxInUndo) :
    (r.spend out undo).1 = r.isAvailable out.n ∧
      ∀ m, (r.spend out undo).2.1.isAvailable m = (r.isAvailable m && decide (m ≠ out.n)) := by
  rcases h : r.vout[out.n]? with _ | _ | o
  case some.some =>
    have hn : out.n < r.vout.length := (List.getElem?_eq_some_iff.mp h).1
    have hav : r.isAvailable out.n = true := by simp [CBreadcrumbs.isAvailable, outAt, h]
    have hs : (r.spend out undo).1 = true ∧ (r.spend out undo).2.1 = spent r out.n := by
      simp only [CBreadcrumbs.spend, h]
      split <;> exact ⟨rfl, rfl⟩
    exact ⟨hs.1.trans hav.symm, fun m => hs.2 ▸ isAvailable_spent r out.n hn m⟩
  all_goals
    have hav : r.isAvailable out.n = false := by simp [CBreadcrumbs.isAvailable, outAt, h]
    refine ⟨by simp [CBreadcrumbs.spend, h, hav], fun m => ?_⟩
    by_cases hm : m = out.n
    · subst hm; simp [CBreadcrumbs.spend, h, hav]
    · simp [CBreadcrumbs.spend, h, hm]

/-- Spending the outpoints `outs` of one record in turn, each through `Spend(out, undo)` with a
new undo record: what each call returned, and the record left. -/
def spendEach (r : CBreadcrumbs) : List COutPoint → List Bool × CBreadcrumbs
  | [] => ([], r)
  | out :: outs =>
    let s := r.spend out { txout := none }
    let rest := spendEach s.2.1 outs
    (s.1 :: rest.1, rest.2)

/-- **No output is spent twice.** Along any run of `Spend` calls on one record, output `m` is
spent successfully once if it was available and a call names it, and never otherwise; the record
left has available exactly the outputs that were and that no call names. -/
theorem spendEach_spends_once (r : CBreadcrumbs) (outs : List COutPoint) (m : Nat) :
    ((outs.map (·.n)).zip (spendEach r outs).1).count (m, true) =
        (if r.isAvailable m && (outs.map (·.n)).contains m then 1 else 0) ∧
      (spendEach r outs).2.isAvailable m = (r.isAvailable m && !(outs.map (·.n)).contains m) := by
  induction outs generalizing r with
  | nil => simp [spendEach]
  | cons out outs ih =>
    obtain ⟨hok, hav⟩ := spend_isAvailable r out { txout := none }
    obtain ⟨ihc, iha⟩ := ih (r.spend out { txout := none }).2.1
    simp only [spendEach, List.map_cons, List.zip_cons_cons, List.count_cons, List.contains_cons,
      ihc, iha, hav, hok]
    by_cases hm : m = out.n
    · subst hm
      cases r.isAvailable out.n <;> simp
    · have hb : (m == out.n) = false := by simpa using hm
      simp [hm, Ne.symm hm, hb]

end Duckcoin
