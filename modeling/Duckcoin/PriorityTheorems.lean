/-
Duckcoin.PriorityTheorems — the term `GetPriority` adds for an input,
against the exact product it stands for.

For each available output older than `nHeight`, `GetPriority` adds
`nValue * (nHeight - coins->nHeight)`: the difference in `int`, the
product in `CAmount` (`priorityTerm`). Both wrap (`toSigned`), and a wrap
is the identity exactly on its signed range (`toSigned_eq_self`,
`toSigned_lt`).

- `priorityTerm_eq_iff`: for `nValue ≥ 0` and `int` heights
  `0 ≤ coins->nHeight < nHeight`, the age does not wrap, and the term is
  the exact product exactly when that product is below `2 ^ 63`.
- `priorityTerm_exact_iff_fits`: the same for every value in
  `MoneyRange`, and the term is exact whenever the age is at most 2022
  blocks; `MAX_MONEY * 2023` is past `2 ^ 63`.
- `getPriority_adds_wrapped_term`: an output of `MAX_MONEY` at height 0
  spent at height 2023; `GetPriority` adds a negative term.
-/
import Duckcoin.ViewCache
import Mathlib.Tactic.Positivity

namespace Duckcoin

open CBreadcrumbsViewCache

/-! ## 1. The wrap of `toSigned` -/

theorem two_pow_eq_two_mul {w : Nat} (hw : 0 < w) : ((2 ^ w : Nat) : Int) = 2 * 2 ^ (w - 1) := by
  rw [Nat.cast_pow, Nat.cast_ofNat, ← pow_succ']
  congr 1
  omega

/-- On the signed range of `w` bits the wrap changes nothing. -/
theorem toSigned_eq_self {w : Nat} {x : Int} (hw : 0 < w) (h1 : -2 ^ (w - 1) ≤ x)
    (h2 : x < 2 ^ (w - 1)) : toSigned w x = x := by
  rw [toSigned, BitVec.toInt_ofInt, Int.bmod_def, two_pow_eq_two_mul hw]
  have hk : (0 : Int) < 2 ^ (w - 1) := by positivity
  generalize (2 : Int) ^ (w - 1) = k at *
  rcases le_or_lt 0 x with hx | hx
  · rw [Int.emod_eq_of_lt hx (by omega)]
    split <;> omega
  · rw [← Int.add_emod_self, Int.emod_eq_of_lt (by omega) (by omega)]
    split <;> omega

/-- A wrapped value lies below `2 ^ (w - 1)`. -/
theorem toSigned_lt {w : Nat} (hw : 0 < w) (x : Int) : toSigned w x < 2 ^ (w - 1) := by
  have h := Int.bmod_lt (x := x) (Nat.two_pow_pos w)
  rw [two_pow_eq_two_mul hw] at h
  rw [toSigned, BitVec.toInt_ofInt]
  omega

/-! ## 2. The term of `GetPriority` -/

/-- For a non-negative value and `int` heights `0 ≤ coinsHeight < nHeight`, the age does not
wrap, and the term is the exact product exactly when the product is below `2 ^ 63`. -/
theorem priorityTerm_eq_iff {nValue nHeight coinsHeight : Int} (hv : 0 ≤ nValue)
    (hh : nHeight < 2 ^ 31) (hc : 0 ≤ coinsHeight) (hlt : coinsHeight < nHeight) :
    priorityTerm nValue nHeight coinsHeight = nValue * (nHeight - coinsHeight) ↔
      nValue * (nHeight - coinsHeight) < 2 ^ 63 := by
  have hage : toSigned 32 (nHeight - coinsHeight) = nHeight - coinsHeight :=
    toSigned_eq_self (by norm_num) (by norm_num; omega) (by norm_num; omega)
  have hprod : 0 ≤ nValue * (nHeight - coinsHeight) := Int.mul_nonneg hv (by omega)
  rw [priorityTerm, hage]
  constructor
  · intro h
    exact h ▸ toSigned_lt (w := 64) (by norm_num) _
  · intro h
    exact toSigned_eq_self (by norm_num) (by norm_num; omega) h

/-- **The int64 product of `GetPriority`.** For every value in `MoneyRange` and `int` heights
`0 ≤ coinsHeight < nHeight`, the term is the exact product exactly when it is below `2 ^ 63`;
it is exact for every age of at most 2022 blocks. -/
theorem priorityTerm_exact_iff_fits (nValue nHeight coinsHeight : Int)
    (hmoney : moneyRange nValue = true) (hh : nHeight < 2 ^ 31) (hc : 0 ≤ coinsHeight)
    (hlt : coinsHeight < nHeight) :
    (priorityTerm nValue nHeight coinsHeight = nValue * (nHeight - coinsHeight) ↔
      nValue * (nHeight - coinsHeight) < 2 ^ 63) ∧
    (nHeight - coinsHeight ≤ 2022 →
      priorityTerm nValue nHeight coinsHeight = nValue * (nHeight - coinsHeight)) := by
  simp only [moneyRange, MAX_MONEY, BREADCRUMB, Bool.and_eq_true, decide_eq_true_eq] at hmoney
  have hiff := priorityTerm_eq_iff hmoney.1 hh hc hlt
  refine ⟨hiff, fun hage => hiff.mpr ?_⟩
  calc nValue * (nHeight - coinsHeight) ≤ 45600000 * 100000000 * 2022 :=
        Int.mul_le_mul hmoney.2 hage (by omega) (by norm_num)
    _ < 2 ^ 63 := by decide

/-- `MAX_MONEY` at height 0, read at height 2023. -/
theorem priorityTerm_exact_iff_fits_max_money :
    (priorityTerm MAX_MONEY 2023 0 = MAX_MONEY * (2023 - 0) ↔ MAX_MONEY * (2023 - 0) < 2 ^ 63) ∧
      ((2023 : Int) - 0 ≤ 2022 → priorityTerm MAX_MONEY 2023 0 = MAX_MONEY * (2023 - 0)) :=
  priorityTerm_exact_iff_fits MAX_MONEY 2023 0 (by decide) (by decide) le_rfl (by decide)

/-- A new cache over a base holding an output of `MAX_MONEY` at height 0; the transaction
spending it, at height 2023. `GetPriority` fetches the record and adds a negative term, where
the exact product is positive. -/
theorem getPriority_adds_wrapped_term :
    CBreadcrumbsViewCache.new.getPriority
        (fun (_ : Unit) _ => (some ⟨false, [some ⟨MAX_MONEY, []⟩], 0, 1⟩, ())) (fun _ d => d) ()
        ⟨false, [⟨⟨1, 0⟩⟩], [], 1⟩ 2023 =
      some (0 + Float.ofInt (priorityTerm MAX_MONEY 2023 0),
        CBreadcrumbsViewCache.new.put 1 ⟨⟨false, [some ⟨MAX_MONEY, []⟩], 0, 1⟩, false, false⟩, ()) ∧
      priorityTerm MAX_MONEY 2023 0 < 0 ∧ 0 < MAX_MONEY * 2023 :=
  ⟨rfl, by decide, by decide⟩

end Duckcoin
