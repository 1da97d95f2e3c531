/-
Duckcoin.Breadcrumbs — the pruned transaction record `CBreadcrumbs` of
`coins.h` / `coins.cpp`: its outputs, `Cleanup`, `IsPruned`,
`IsAvailable`, the `==` under which every two pruned records are equal,
and `Spend` with the undo record it fills.

Translation notes. `CTxOut`, `CTransaction`, `CTxIn`, `COutPoint` and
`CTxInUndo` are declared in headers that are not part of this source
tree; they are modelled from the specification ("an entry is either a
spendable output (value + locking script) or an empty marker"). An
output slot is `Option TxOut`: `none` is the null output (`IsNull`,
`SetNull`, the default `CTxOut()`), `some o` a spendable one. `int`
fields are `Int`; an output index (`COutPoint::n`, a `uint32_t`) is a
`Nat`. `Cleanup`'s loop, `pop_back` while the last output is null, is
`List.rdropWhile Option.isNone`; `outAt` reads a slot past the end of
`vout` as null, which is how `IsAvailable` treats it.
-/
import Mathlib.Data.List.DropRight

namespace Duckcoin

/-- `uint256`: transaction ids and block hashes. -/
abbrev uint256 := BitVec 256

/-- A spendable `CTxOut`: its amount (`CAmount nValue`) and its locking script. -/
structure TxOut where
  nValue : Int
  scriptPubKey : List UInt8
  deriving DecidableEq, Repr

/-- `BREADCRUMB` (amount.h): one coin, in the smallest unit. -/
def BREADCRUMB : Int := 100000000

/-- `MAX_MONEY` (amount.h): no valid amount is larger. -/
def MAX_MONEY : Int := 45600000 * BREADCRUMB

/-- `MoneyRange` (amount.h). -/
def moneyRange (nValue : Int) : Bool := nValue ≥ 0 && nValue ≤ MAX_MONEY

/-- `CBreadcrumbs`: what is left of a transaction while some output is unspent. -/
structure CBreadcrumbs where
  fBreadcrumbBase : Bool
  vout : List (Option TxOut)
  nHeight : Int
  nVersion : Int
  deriving Repr

/-- `COutPoint`: output `n` of transaction `hash`. -/
structure COutPoint where
  hash : uint256
  n : Nat
  deriving DecidableEq, Repr

/-- `CTxIn`, reduced to the outpoint it spends (the only field this layer reads). -/
structure CTxIn where
  prevout : COutPoint
  deriving DecidableEq, Repr

/-- `CTransaction`, reduced to what `coins.h` reads. Modelled from the spec: the coinbase
flag is "the transaction's own flag" (`IsBreadcrumbBase()`). -/
structure CTransaction where
  isBreadcrumbBase : Bool
  vin : List CTxIn
  vout : List TxOut
  nVersion : Int
  deriving DecidableEq, Repr

/-- `CTxInUndo` (undo.h). Modelled from the spec: `Spend` "captures the pre-spend output into
an undo record" and, when the record empties, also its height, coinbase flag and version. The
defaults are those of `CTxInUndo(txout)`. -/
structure CTxInUndo where
  txout : Option TxOut
  fBreadcrumbBase : Bool := false
  nHeight : Int := 0
  nVersion : Int := 0
  deriving DecidableEq, Repr

/-- Output `i` of `vout`, a slot past the end reading as null. -/
def outAt (vout : List (Option TxOut)) (i : Nat) : Option TxOut := (vout[i]?).join

namespace CBreadcrumbs

/-- The empty constructor `CBreadcrumbs()`; `Clear()` resets a record to it. -/
def empty : CBreadcrumbs := ⟨false, [], 0, 0⟩

/-- `Cleanup`: drop the null outputs at the end of `vout`. -/
def cleanup (r : CBreadcrumbs) : CBreadcrumbs :=
  { r with vout := r.vout.rdropWhile Option.isNone }

/-- `IsPruned`: every output is null. -/
def isPruned (r : CBreadcrumbs) : Bool := r.vout.all Option.isNone

/-- `IsAvailable(nPos)`: `nPos < vout.size() && !vout[nPos].IsNull()`. -/
def isAvailable (r : CBreadcrumbs) (nPos : Nat) : Bool := (outAt r.vout nPos).isSome

/-- `ClearUnspendable` then `Cleanup`, as `FromTx` runs them; `IsUnspendable` of the script
(script.h) is a parameter. -/
def fromTx (isUnspendable : List UInt8 → Bool) (tx : CTransaction) (nHeightIn : Int) :
    CBreadcrumbs :=
  cleanup ⟨tx.isBreadcrumbBase,
    tx.vout.map fun o => if isUnspendable o.scriptPubKey then none else some o,
    nHeightIn, tx.nVersion⟩

/-- `operator==`: two pruned records are equal whatever their other fields. -/
instance : BEq CBreadcrumbs where
  beq a b := a.isPruned && b.isPruned ||
    a.fBreadcrumbBase == b.fBreadcrumbBase && a.nHeight == b.nHeight &&
      a.nVersion == b.nVersion && a.vout == b.vout

/-- The trimmed invariant that `Cleanup` establishes: `vout` is empty or its last output is
not null. -/
def Trimmed (r : CBreadcrumbs) : Prop := r.vout.getLast? ≠ some none

instance : DecidablePred Trimmed := fun r =>
  inferInstanceAs (Decidable (r.vout.getLast? ≠ some none))

/-- `Spend(out, undo)`: fails on an index out of range or already null; otherwise moves the
output into `undo`, nulls its slot and runs `Cleanup`, and when that leaves `vout` empty also
saves `nHeight`, `fBreadcrumbBase` and `nVersion` in `undo`. -/
def spend (r : CBreadcrumbs) (out : COutPoint) (undo : CTxInUndo) :
    Bool × CBreadcrumbs × CTxInUndo :=
  match r.vout[out.n]? with
  | none => (false, r, undo)
  | some none => (false, r, undo)
  | some (some o) =>
    let r' := cleanup { r with vout := r.vout.set out.n none }
    if r'.vout.length = 0 then
      (true, r', ⟨some o, r.fBreadcrumbBase, r.nHeight, r.nVersion⟩)
    else (true, r', { txout := some o })

/-- `Spend(int nPos)`: spend output `nPos` (as the `uint32_t` of `COutPoint(0, nPos)`, that is
modulo `2 ^ 32`), discarding the undo record. -/
def spendPos (r : CBreadcrumbs) (nPos : Int) : Bool × CBreadcrumbs :=
  let (ok, r', _) := r.spend ⟨0, (nPos % 4294967296).toNat⟩ { txout := none }
  (ok, r')

end CBreadcrumbs

/-! ## Output slots and `Cleanup` -/

@[simp] theorem outAt_nil (i : Nat) : outAt [] i = none := rfl

theorem outAt_append_of_lt {a b : List (Option TxOut)} {i : Nat} (h : i < a.length) :
    outAt (a ++ b) i = outAt a i := by
  simp [outAt, List.getElem?_append_left h]

theorem outAt_of_length_le {a : List (Option TxOut)} {i : Nat} (h : a.length ≤ i) :
    outAt a i = none := by
  simp [outAt, List.getElem?_eq_none h]

/-- `rdropWhile` and `rtakeWhile` split a list in two. -/
theorem rdropWhile_append_rtakeWhile {α : Type} (p : α → Bool) (l : List α) :
    l.rdropWhile p ++ l.rtakeWhile p = l := by
  rw [List.rdropWhile, List.rtakeWhile, ← List.reverse_append, List.takeWhile_append_dropWhile,
    List.reverse_reverse]

/-- Trimming trailing nulls changes no slot. -/
@[simp] theorem outAt_rdropWhile (vout : List (Option TxOut)) (i : Nat) :
    outAt (vout.rdropWhile Option.isNone) i = outAt vout i := by
  conv_rhs => rw [← rdropWhile_append_rtakeWhile Option.isNone vout]
  by_cases hi : i < (vout.rdropWhile Option.isNone).length
  · rw [outAt_append_of_lt hi]
  · rw [outAt_of_length_le (by omega), outAt, List.getElem?_append_right (by omega)]
    cases h : (vout.rtakeWhile Option.isNone)[i - (vout.rdropWhile Option.isNone).length]? with
    | none => rfl
    | some o =>
      have hm := List.getElem?_mem h
      simp only [List.rtakeWhile] at hm
      have ho : o.isNone = true := List.mem_takeWhile_imp (List.mem_reverse.mp hm)
      simp [Option.isNone_iff_eq_none.mp ho]

/-- A slot-by-slot equal list whose last slot is not null is no longer. -/
theorem length_le_of_outAt_eq {x y : List (Option TxOut)} (hy : y.getLast? ≠ some none)
    (h : ∀ i, outAt x i = outAt y i) : y.length ≤ x.length := by
  by_contra hlt
  obtain ⟨o, ho⟩ : ∃ o, y[y.length - 1]? = some (some o) := by
    rw [← List.getLast?_eq_getElem?]
    cases h' : y.getLast? with
    | none => simp at h'; simp [h'] at hlt
    | some s => cases s with
      | none => exact absurd h' hy
      | some o => exact ⟨o, rfl⟩
  have := h (y.length - 1)
  rw [outAt_of_length_le (by omega), outAt, ho] at this
  simp at this

/-- A list whose last slot is not null is determined by its slots. -/
theorem eq_of_outAt_eq {a b : List (Option TxOut)} (ha : a.getLast? ≠ some none)
    (hb : b.getLast? ≠ some none) (h : ∀ i, outAt a i = outAt b i) : a = b := by
  have hlen := Nat.le_antisymm (length_le_of_outAt_eq ha fun i => (h i).symm)
    (length_le_of_outAt_eq hb h)
  apply List.ext_getElem?
  intro i
  by_cases hi : i < a.length
  · simpa [outAt, hi, show i < b.length by omega] using h i
  · rw [List.getElem?_eq_none (by omega), List.getElem?_eq_none (by omega)]

theorem getLast?_rdropWhile_ne (vout : List (Option TxOut)) :
    (vout.rdropWhile Option.isNone).getLast? ≠ some none := by
  intro h
  have hne : vout.rdropWhile Option.isNone ≠ [] := by intro h'; simp [h'] at h
  have := List.rdropWhile_last_not Option.isNone vout hne
  rw [List.getLast?_eq_getLast _ hne, Option.some_inj] at h
  simp [h] at this

/-- Two lists with the same slots trim to the same list. -/
theorem rdropWhile_eq_of_outAt_eq {a b : List (Option TxOut)} (h : ∀ i, outAt a i = outAt b i) :
    a.rdropWhile Option.isNone = b.rdropWhile Option.isNone :=
  eq_of_outAt_eq (getLast?_rdropWhile_ne a) (getLast?_rdropWhile_ne b) (by simpa using h)

namespace CBreadcrumbs

@[simp] theorem empty_isPruned : empty.isPruned = true := rfl

@[simp] theorem cleanup_fBreadcrumbBase (r : CBreadcrumbs) :
    r.cleanup.fBreadcrumbBase = r.fBreadcrumbBase := rfl
@[simp] theorem cleanup_nHeight (r : CBreadcrumbs) : r.cleanup.nHeight = r.nHeight := rfl
@[simp] theorem cleanup_nVersion (r : CBreadcrumbs) : r.cleanup.nVersion = r.nVersion := rfl

theorem cleanup_trimmed (r : CBreadcrumbs) : r.cleanup.Trimmed := getLast?_rdropWhile_ne r.vout

theorem cleanup_of_trimmed {r : CBreadcrumbs} (h : r.Trimmed) : r.cleanup = r := by
  suffices r.vout.rdropWhile Option.isNone = r.vout by simp [cleanup, this]
  rw [List.rdropWhile_eq_self_iff]
  intro hne hnull
  apply h
  rw [List.getLast?_eq_getLast _ hne, Option.isNone_iff_eq_none.mp hnull]

@[simp] theorem isAvailable_cleanup (r : CBreadcrumbs) (i : Nat) :
    r.cleanup.isAvailable i = r.isAvailable i := by
  simp [isAvailable, cleanup]

/-- A record is pruned exactly when no output is available. -/
theorem isPruned_iff (r : CBreadcrumbs) : r.isPruned = true ↔ ∀ i, r.isAvailable i = false := by
  simp only [isPruned, List.all_eq_true, isAvailable, outAt, Bool.eq_false_iff, ne_eq,
    Option.not_isSome_iff_eq_none, Option.isNone_iff_eq_none]
  constructor
  · intro h i
    cases hi : r.vout[i]? with
    | none => rfl
    | some o => simpa using h o (List.getElem?_mem hi)
  · intro h o ho
    obtain ⟨i, hi⟩ := List.mem_iff_getElem?.mp ho
    simpa [hi] using h i

@[simp] theorem isPruned_cleanup (r : CBreadcrumbs) : r.cleanup.isPruned = r.isPruned := by
  rw [Bool.eq_iff_iff, isPruned_iff, isPruned_iff]
  simp only [isAvailable_cleanup]

theorem cleanup_vout_eq_nil_iff (r : CBreadcrumbs) :
    r.cleanup.vout = [] ↔ r.isPruned = true := by
  simp [cleanup, List.rdropWhile_eq_nil_iff, isPruned]

/-- On a trimmed record, `vout.empty()` and `IsPruned()` agree. -/
theorem vout_eq_nil_iff_of_trimmed {r : CBreadcrumbs} (h : r.Trimmed) :
    r.vout = [] ↔ r.isPruned = true := by
  rw [← cleanup_vout_eq_nil_iff, cleanup_of_trimmed h]

/-! ## `operator==` -/

theorem beq_iff {a b : CBreadcrumbs} :
    (a == b) = true ↔ a.isPruned = true ∧ b.isPruned = true ∨ a = b := by
  cases a; cases b
  show (_ || _) = true ↔ _
  simp only [Bool.or_eq_true, Bool.and_eq_true, beq_iff_eq, mk.injEq]
  constructor <;> rintro (h | ⟨h1, h2, h3, h4⟩) <;> simp_all

@[simp] theorem beq_self (a : CBreadcrumbs) : (a == a) = true := beq_iff.mpr (Or.inr rfl)

theorem beq_of_isPruned {a b : CBreadcrumbs} (ha : a.isPruned = true) (hb : b.isPruned = true) :
    (a == b) = true := beq_iff.mpr (Or.inl ⟨ha, hb⟩)

theorem beq_symm {a b : CBreadcrumbs} (h : (a == b) = true) : (b == a) = true := by
  rcases beq_iff.mp h with ⟨ha, hb⟩ | rfl
  · exact beq_of_isPruned hb ha
  · exact beq_self a

theorem isPruned_eq_of_beq {a b : CBreadcrumbs} (h : (a == b) = true) :
    a.isPruned = b.isPruned := by
  rcases beq_iff.mp h with ⟨ha, hb⟩ | rfl
  · rw [ha, hb]
  · rfl

theorem beq_trans {a b c : CBreadcrumbs} (hab : (a == b) = true) (hbc : (b == c) = true) :
    (a == c) = true := by
  rcases beq_iff.mp hab with ⟨ha, hb⟩ | rfl
  · exact beq_of_isPruned ha (isPruned_eq_of_beq hbc ▸ hb)
  · exact hbc

end CBreadcrumbs

end Duckcoin
