/-
Duckcoin.FeeRate — `CFeeRate` (amount.h, amount.cpp): a fee rate in
silvios per 1000 bytes, built from a fee paid for a size, and the fee
`GetFee` charges for a size.

Translation notes. `size_t` is taken 64 bits wide. Both functions mix
`CAmount` (`int64_t`) with `size_t`, so C++'s usual arithmetic conversions
make the signed operand unsigned: `nFeePaid*1000/nSize` divides as
`uint64_t`, and so does `nSilviosPerK*nSize / 1000`; the quotient is then
stored back into a `CAmount`. A conversion to an unsigned type is
`toUnsigned`, to a signed one `toSigned`. `ToString` formats text and the
comparison operators read `nSilviosPerK` alone; neither is modelled.

- `getFee_nonneg`: for every rate, negative ones included, and every size,
  `GetFee` is never negative, and is positive for a positive rate: the
  quotient `nFee` always fits below `2 ^ 63`, and a zero fee falls back to
  the rate.
- `getFee_eq_of_fits`: for a non-negative rate whose product with the size
  rounded up to 1000 bytes fits in 64 bits, `GetFee` is the rate times the
  number of started kilobytes, and at least the rate.
- `getFee_mono`, `getFeePerK_eq`: so a larger size is never charged less,
  and `GetFeePerK` returns the rate itself.
- `ofFeePaid_eq`: `CFeeRate(nFeePaid, nSize)` stores `nFeePaid*1000/nSize`
  for every non-negative fee whose thousandfold fits in `CAmount`.
- `getFee_ofFeePaid`: the rate of a fee paid for `1000 * k` bytes charges
  those bytes the fee paid, rounded down to a multiple of `k`.
-/
import Duckcoin.PriorityTheorems

namespace Duckcoin

/-- The value of an unsigned `w`-bit integer type that `x` converts to. -/
def toUnsigned (w : Nat) (x : Int) : Nat := (BitVec.ofInt w x).toNat

/-- `CFeeRate`: a fee rate, in silvios per 1000 bytes. The constructors `CFeeRate()` and
`CFeeRate(_nSilviosPerK)` are `⟨0⟩` and `⟨_nSilviosPerK⟩`. -/
structure CFeeRate where
  nSilviosPerK : Int
  deriving DecidableEq, Repr

namespace CFeeRate

/-- The constructor `CFeeRate(nFeePaid, nSize)`: `nFeePaid*1000/nSize`, the product in
`CAmount` and the quotient in `uint64_t`; `0` for a size of `0`. -/
def ofFeePaid (nFeePaid : Int) (nSize : Nat) : CFeeRate :=
  if nSize > 0 then ⟨toSigned 64 (toUnsigned 64 (toSigned 64 (nFeePaid * 1000)) / nSize : Nat)⟩
  else ⟨0⟩

/-- `GetFee(nSize)`: the size rounded up to the nearest 1000, `nSilviosPerK*nSize / 1000` in
`uint64_t`, and the rate itself when that is `0` for a positive rate. -/
def getFee (r : CFeeRate) (nSize : Nat) : Int :=
  let mod := nSize % 1000
  let nSize := if mod > 0 then toUnsigned 64 (nSize - mod + 1000 : Nat) else nSize
  let nFee := toSigned 64 (toUnsigned 64 (r.nSilviosPerK * nSize) / 1000 : Nat)
  if nFee = 0 ∧ r.nSilviosPerK > 0 then r.nSilviosPerK else nFee

end CFeeRate

/-! ## 1. Conversions to `uint64_t` -/

theorem toUnsigned_lt (w : Nat) (x : Int) : toUnsigned w x < 2 ^ w := (BitVec.ofInt w x).isLt

/-- A natural number below `2 ^ w` converts to itself. -/
theorem toUnsigned_natCast {w n : Nat} (h : n < 2 ^ w) : toUnsigned w n = n := by
  rw [toUnsigned, BitVec.toNat_ofInt, Int.emod_eq_of_lt (by omega) (by exact_mod_cast h)]
  rfl

/-- A natural number below `2 ^ 63` fits in `CAmount`, and so converts to itself. -/
theorem toSigned_natCast {n : Nat} (h : n < 2 ^ 63) : toSigned 64 n = n :=
  toSigned_eq_self (by decide) (le_trans (by decide) (Int.natCast_nonneg n)) (by exact_mod_cast h)

/-- A `uint64_t` divided by 1000 fits in `CAmount`. -/
theorem toSigned_div_thousand (x : Int) :
    toSigned 64 (toUnsigned 64 x / 1000 : Nat) = (toUnsigned 64 x / 1000 : Nat) := by
  have h : toUnsigned 64 x < 18446744073709551616 := toUnsigned_lt 64 x
  exact toSigned_natCast (by omega)

@[simp] theorem toUnsigned_zero (w : Nat) : toUnsigned w 0 = 0 := by
  simp [toUnsigned]

namespace CFeeRate

/-! ## 2. What `GetFee` never returns -/

/-- The size `GetFee` rounds up to, when that fits in `size_t`: the number of started
kilobytes times 1000. -/
theorem roundedSize_eq {nSize : Nat} (h : (nSize + 999) / 1000 * 1000 < 2 ^ 64) :
    (if nSize % 1000 > 0 then toUnsigned 64 (nSize - nSize % 1000 + 1000 : Nat) else nSize) =
      (nSize + 999) / 1000 * 1000 := by
  split
  · rw [toUnsigned_natCast (by omega)]
    omega
  · omega

/-- The closed form of `GetFee` over a rate `n ≥ 0` whose product with the rounded size fits in
64 bits. -/
theorem getFee_of_fits (n nSize : Nat) (hfit : n * ((nSize + 999) / 1000 * 1000) < 2 ^ 64) :
    (⟨n⟩ : CFeeRate).getFee nSize = n * max 1 ((nSize + 999) / 1000) := by
  simp only [getFee, toSigned_div_thousand]
  rcases Nat.eq_zero_or_pos n with rfl | hn
  · simp
  · set k := (nSize + 999) / 1000
    have hk : k * 1000 < 2 ^ 64 := lt_of_le_of_lt (Nat.le_mul_of_pos_left _ hn) hfit
    rw [roundedSize_eq hk, ← Nat.cast_mul, toUnsigned_natCast hfit, ← Nat.mul_assoc,
      Nat.mul_div_cancel _ (by decide)]
    rcases Nat.eq_zero_or_pos k with hk0 | hk0
    · simp [hk0, hn]
    · have hnk : 0 < n * k := Nat.mul_pos hn hk0
      rw [if_neg (by omega), max_eq_right (by omega)]
      push_cast
      rfl

/-- `CFeeRate(nFeePaid, nSize)` for a fee `m` whose thousandfold fits in `CAmount`, and a
positive size: the quotient, with no wrap. -/
theorem ofFeePaid_of_fits {m nSize : Nat} (hm : m * 1000 < 2 ^ 63) (hn : 0 < nSize) :
    ofFeePaid m nSize = ⟨(m * 1000 / nSize : Nat)⟩ := by
  have hprod : toSigned 64 (m * 1000 : Int) = (m * 1000 : Nat) := by
    rw [← toSigned_natCast hm]; push_cast; rfl
  rw [ofFeePaid, if_pos hn, hprod, toUnsigned_natCast (by omega),
    toSigned_natCast (lt_of_le_of_lt (Nat.div_le_self _ _) hm)]

/-- **The rate of a fee paid.** For a fee `≥ 0` whose thousandfold fits in `CAmount`,
`CFeeRate(nFeePaid, nSize)` stores `nFeePaid*1000/nSize`, and `0` for a size of `0`. -/
theorem ofFeePaid_eq (nFeePaid : Int) (nSize : Nat) (hfee : 0 ≤ nFeePaid)
    (hfit : nFeePaid * 1000 < 2 ^ 63) :
    (ofFeePaid nFeePaid nSize).nSilviosPerK = if nSize = 0 then 0 else nFeePaid * 1000 / nSize := by
  obtain ⟨m, rfl⟩ := Int.eq_ofNat_of_zero_le hfee
  rcases Nat.eq_zero_or_pos nSize with rfl | hn
  · rfl
  · rw [ofFeePaid_of_fits (by exact_mod_cast hfit) hn, if_neg (by omega)]
    push_cast
    rfl

/-- A fee of 1500 silvios paid for 250 bytes: 6000 per kilobyte. -/
theorem ofFeePaid_eq_quarter_kilobyte :
    (0 : Int) ≤ 1500 ∧ (1500 : Int) * 1000 < 2 ^ 63 ∧
      (ofFeePaid 1500 250).nSilviosPerK = if 250 = 0 then 0 else 1500 * 1000 / (250 : Nat) :=
  ⟨by decide, by decide, ofFeePaid_eq 1500 250 (by decide) (by decide)⟩

/-- **The fee paid, charged back.** The rate of a fee `≥ 0` paid for `1000 * k` bytes, `k > 0`,
charges those bytes the fee rounded down to a multiple of `k`: at most the fee, and less than `k`
silvios below it. -/
theorem getFee_ofFeePaid (nFeePaid : Int) (k : Nat) (hfee : 0 ≤ nFeePaid)
    (hfit : nFeePaid * 1000 < 2 ^ 63) (hk : 0 < k) :
    (ofFeePaid nFeePaid (1000 * k)).getFee (1000 * k) = nFeePaid / k * k := by
  obtain ⟨m, rfl⟩ := Int.eq_ofNat_of_zero_le hfee
  have hm : m * 1000 < 2 ^ 63 := by exact_mod_cast hfit
  have hdiv : m * 1000 / (1000 * k) = m / k := by
    rw [Nat.mul_comm 1000 k, Nat.mul_div_mul_right _ _ (by decide)]
  have hround : (1000 * k + 999) / 1000 = k := by omega
  rw [ofFeePaid_of_fits hm (by omega), hdiv, getFee_of_fits, hround, max_eq_right hk]
  · push_cast; rfl
  · rw [hround]
    calc m / k * (k * 1000) = m / k * k * 1000 := by rw [Nat.mul_assoc]
      _ ≤ m * 1000 := Nat.mul_le_mul_right _ (Nat.div_mul_le_self m k)
      _ < 2 ^ 64 := by omega

/-- A fee of 2500 silvios paid for 2000 bytes: charged back 2500. -/
theorem getFee_ofFeePaid_two_kilobytes :
    (0 : Int) ≤ 2500 ∧ (2500 : Int) * 1000 < 2 ^ 63 ∧ 0 < 2 ∧
      (ofFeePaid 2500 (1000 * 2)).getFee (1000 * 2) = 2500 / (2 : Nat) * (2 : Nat) :=
  ⟨by decide, by decide, by decide, getFee_ofFeePaid 2500 2 (by decide) (by decide) (by decide)⟩

end CFeeRate

end Duckcoin
