/-
Duckcoin.SerializeTheorems — the storage encoding of `CBreadcrumbs` read
back, in both directions.

* `serialize_unserialize`: every record with an unspent output passes the
  assertion of `Serialize`, and `Unserialize` reads exactly the bytes it
  wrote, giving back the record with its trailing null outputs trimmed
  (the record itself when it is trimmed). Hypotheses: `VARINT` and
  `CTxOutCompressor` read back what they write, for the values written.
* `unserialize_reserialize`: whatever `Unserialize` accepts is trimmed
  and not pruned, so `Serialize` takes it, and what `Serialize` writes for
  it is the header and bitmask bytes `Unserialize` consumed, then the
  unspent outputs and `VARINT(nHeight)`. Hypothesis: `VARINT` is
  canonical.
* `getSerializeSize_serialize`: `GetSerializeSize`, which adds up sizes
  without writing, is the length of what `Serialize` writes for every
  record with an unspent output, whenever each codec's size is the length
  of what it writes (`getSerializeSize_eq_length`: the two agree, or both
  fail, on every record).
* `calcMaskSize_counts`: `CalcMaskSize` from zero, in terms of the
  outputs: one plus the last bitmask byte that covers an unspent output,
  and the number of such bytes.

How the proofs go. Both directions meet at the availability bits. The
writer's bitmask byte `b` has bit `p` set exactly when output `2+b*8+p`
is available (`testBit8_maskByte`), and a byte is determined by its eight
bits (`eq_of_testBit8_eq`). `CalcMaskSize` is pinned down by two facts
(`calcMaskSize_spec`): no byte at or after `nMaskSize` has an available
output, and byte `nMaskSize - 1` has one. The bitmask loop of
`Unserialize` reads exactly a run of bytes with `nMaskCode` non-zero ones
ending in a non-zero one (`readMask_append`, `readMask_inv`), and the
header code splits into its four fields (`code_fields`, `code_decompose`).
-/
import Duckcoin.Serialize
import Mathlib.Data.List.GetD
import Mathlib.Tactic.IntervalCases

namespace Duckcoin

/-! ## 1. Bits of a byte -/

theorem toBitVec_one_shiftLeft {p : Nat} (hp : p < 8) :
    ((1 : UInt8) <<< p.toUInt8).toBitVec = 1#8 <<< p := by
  interval_cases p <;> rfl

theorem testBit8_eq_getLsbD (c : UInt8) {p : Nat} (hp : p < 8) :
    testBit8 c p = c.toBitVec.getLsbD p := by
  have hshl := toBitVec_one_shiftLeft hp
  have hne : c &&& (1 <<< p.toUInt8) ≠ 0 ↔ c.toBitVec &&& (1#8 <<< p) ≠ 0#8 := by
    rw [← hshl]
    exact ⟨fun h h' => h (UInt8.eq_of_toBitVec_eq h'), fun h h' => h (congrArg UInt8.toBitVec h')⟩
  rw [testBit8, Bool.eq_iff_iff, bne_iff_ne, hne, ne_eq]
  constructor
  · intro h
    by_contra hx
    apply h
    apply BitVec.eq_of_getLsbD_eq
    intro j
    simp only [BitVec.getLsbD_and, BitVec.getLsbD_shiftLeft, BitVec.getLsbD_one,
      BitVec.getLsbD_zero]
    by_cases hjp : (j : Nat) = p
    · simp [hjp, hx]
    · simp only [Bool.and_eq_false_imp]; intro _; simp; omega
  · intro hx h
    have := congrArg (fun y => y.getLsbD p) h
    simp [hx, hp] at this

/-- A byte is determined by its eight bits. -/
theorem eq_of_testBit8_eq {c d : UInt8} (h : ∀ p, p < 8 → testBit8 c p = testBit8 d p) :
    c = d := by
  suffices c.toBitVec = d.toBitVec by cases c; cases d; simp_all
  apply BitVec.eq_of_getLsbD_eq
  intro j
  rw [← testBit8_eq_getLsbD c j.isLt, ← testBit8_eq_getLsbD d j.isLt]
  exact h j j.isLt

theorem testBit8_zero {p : Nat} (hp : p < 8) : testBit8 0 p = false := by
  rw [testBit8_eq_getLsbD _ hp]; exact BitVec.getLsbD_zero

/-- Setting the bits `f i` for `i` in `l` by `|= (1 << i)`. -/
theorem testBit8_foldl (f : Nat → Bool) (l : List Nat) (hl : ∀ i ∈ l, i < 8) (c : UInt8)
    {p : Nat} (hp : p < 8) :
    testBit8 (l.foldl (fun ch i => if f i then ch ||| ((1 : UInt8) <<< i.toUInt8) else ch) c) p =
      (testBit8 c p || decide (p ∈ l) && f p) := by
  induction l generalizing c with
  | nil => simp [testBit8_zero hp]
  | cons i l ih =>
    rw [List.foldl_cons, ih (fun j hj => hl j (List.mem_cons_of_mem _ hj))]
    have hi := hl i (List.mem_cons_self _ _)
    split
    · rename_i hf
      have hbit : testBit8 (c ||| ((1 : UInt8) <<< i.toUInt8)) p = (testBit8 c p || decide (p = i)) := by
        have hshl := toBitVec_one_shiftLeft hi
        rw [testBit8_eq_getLsbD _ hp, testBit8_eq_getLsbD _ hp]
        show (c.toBitVec ||| ((1 : UInt8) <<< i.toUInt8).toBitVec).getLsbD p = _
        rw [hshl]
        simp only [BitVec.getLsbD_or, BitVec.getLsbD_shiftLeft, BitVec.getLsbD_one]
        by_cases hpi : p = i <;> simp [hpi] <;> omega
      rw [hbit]
      by_cases hpi : p = i
      · subst hpi; simp [hf]
      · simp [hpi]
    · rename_i hf
      by_cases hpi : p = i
      · subst hpi; simp [hf]
      · simp [hpi]

/-- Bit `p` of the writer's bitmask byte `b` says whether output `2+b*8+p` is available. -/
theorem testBit8_maskByte (vout : List (Option TxOut)) (b : Nat) {p : Nat} (hp : p < 8) :
    testBit8 (maskByte vout b) p = (outAt vout (2 + b * 8 + p)).isSome := by
  rw [maskByte, testBit8_foldl _ _ (fun i hi => List.mem_range.mp hi) _ hp]
  simp [List.mem_range, hp, testBit8_zero hp]

theorem maskByte_eq_zero_iff (vout : List (Option TxOut)) (b : Nat) :
    maskByte vout b = 0 ↔ maskByteZero vout b = true := by
  simp only [maskByteZero, List.all_eq_true, List.mem_range, Option.isNone_iff_eq_none]
  constructor
  · intro h i hi
    have := testBit8_maskByte vout b hi
    rw [h, testBit8_zero hi] at this
    exact Option.not_isSome_iff_eq_none.mp (by simp [← this])
  · intro h
    exact eq_of_testBit8_eq fun p hp => by rw [testBit8_maskByte vout b hp, h p hp, testBit8_zero hp]; rfl

theorem maskByte_bne_zero (vout : List (Option TxOut)) (b : Nat) :
    (maskByte vout b != 0) = !maskByteZero vout b := by
  cases h : maskByteZero vout b
  · simp [show maskByte vout b ≠ 0 from fun h0 => by simp [(maskByte_eq_zero_iff _ _).mp h0] at h]
  · simp [(maskByte_eq_zero_iff _ _).mpr h]

/-! ## 2. `CalcMaskSize` -/

section MaskSize

variable (z : Nat → Bool)

/-- How many of the first `n` bytes are non-zero. -/
abbrev nonzeroBelow (n : Nat) : Nat := ((List.range n).filter fun b => !z b).length

/-- The outer loop of `CalcMaskSize` over bytes `0 .. n-1`, from `(nLastUsedByte, k)`. -/
abbrev maskLoop (k n : Nat) : Nat × Nat :=
  (List.range n).foldl (fun (acc : Nat × Nat) b => if z b then acc else (b + 1, acc.2 + 1)) (0, k)

theorem maskLoop_spec (k n : Nat) :
    (maskLoop z k n).1 ≤ n ∧ (∀ b, (maskLoop z k n).1 ≤ b → b < n → z b = true) ∧
      (0 < (maskLoop z k n).1 → z ((maskLoop z k n).1 - 1) = false) ∧
      (maskLoop z k n).2 = k + nonzeroBelow z n := by
  induction n with
  | zero => simp [maskLoop, nonzeroBelow]
  | succ n ih =>
    obtain ⟨h1, h2, h3, h4⟩ := ih
    simp only [maskLoop, nonzeroBelow, List.range_succ, List.foldl_append, List.foldl_cons,
      List.foldl_nil, List.filter_append, List.length_append] at h1 h2 h3 h4 ⊢
    by_cases hz : z n
    · simp only [hz, if_true, List.filter_singleton, Bool.not_true, cond_false,
        List.length_nil, Nat.add_zero]
      refine ⟨by omega, fun b hb hbn => ?_, h3, h4⟩
      rcases Nat.lt_succ_iff_lt_or_eq.mp hbn with hbn | rfl
      · exact h2 b hb hbn
      · exact hz
    · simp only [hz, Bool.false_eq_true, if_false, List.filter_singleton, Bool.not_false,
        cond_true, List.length_singleton]
      exact ⟨le_refl _, fun b hb hbn => absurd hbn (by omega), fun _ => by simpa using hz,
        by omega⟩

/-- Bytes from `S` to `n` are all zero, so the count below `n` is the count below `S`. -/
theorem nonzeroBelow_eq {S n : Nat} (hS : S ≤ n) (h : ∀ b, S ≤ b → b < n → z b = true) :
    nonzeroBelow z n = nonzeroBelow z S := by
  induction n with
  | zero => rw [Nat.le_zero.mp hS]
  | succ n ih =>
    rcases Nat.lt_or_eq_of_le hS with hlt | rfl
    · have hz := h n (by omega) (Nat.lt_succ_self n)
      rw [← ih (by omega) fun b hb hbn => h b hb (by omega)]
      simp [nonzeroBelow, List.range_succ, hz]
    · rfl

/-- The size `CalcMaskSize` finds is the only one with both of its defining properties. -/
theorem maskSize_unique {S S' : Nat} (h1 : ∀ b, S ≤ b → z b = true) (h2 : 0 < S → z (S - 1) = false)
    (h1' : ∀ b, S' ≤ b → z b = true) (h2' : 0 < S' → z (S' - 1) = false) : S = S' := by
  by_contra hne
  rcases Nat.lt_or_gt_of_ne hne with hlt | hlt
  · have := h1 (S' - 1) (by omega); rw [h2' (by omega)] at this; cases this
  · have := h1' (S - 1) (by omega); rw [h2 (by omega)] at this; cases this

end MaskSize

theorem maskByteZero_of_le {vout : List (Option TxOut)} {b : Nat}
    (h : maskBytesBound vout.length ≤ b) : maskByteZero vout b = true := by
  have := (lt_maskBytesBound_iff b vout.length).not.mp (by omega)
  simp only [maskByteZero, List.all_eq_true, List.mem_range]
  intro i _
  simp [outAt_of_length_le (show vout.length ≤ 2 + b * 8 + i by omega)]

theorem calcMaskSize_eq (r : CBreadcrumbs) :
    r.calcMaskSize 0 0 = maskLoop (maskByteZero r.vout) 0 (maskBytesBound r.vout.length) := by
  simp [CBreadcrumbs.calcMaskSize, maskLoop]

/-- **What `CalcMaskSize` computes.** `nMaskSize` is one plus the index of the last bitmask byte
with an available output (no byte from it on has one), and `nMaskCode` counts the bytes below
it that have one. -/
theorem calcMaskSize_spec (r : CBreadcrumbs) :
    (∀ b, (r.calcMaskSize 0 0).1 ≤ b → maskByteZero r.vout b = true) ∧
    (0 < (r.calcMaskSize 0 0).1 → maskByteZero r.vout ((r.calcMaskSize 0 0).1 - 1) = false) ∧
    (r.calcMaskSize 0 0).2 = nonzeroBelow (maskByteZero r.vout) (r.calcMaskSize 0 0).1 := by
  obtain ⟨h1, h2, h3, h4⟩ := maskLoop_spec (maskByteZero r.vout) 0 (maskBytesBound r.vout.length)
  rw [calcMaskSize_eq]
  refine ⟨fun b hb => ?_, h3, ?_⟩
  · by_cases hbG : b < maskBytesBound r.vout.length
    · exact h2 b hb hbG
    · exact maskByteZero_of_le (by omega)
  · rw [h4, Nat.zero_add, nonzeroBelow_eq _ h1 h2]

/-! ## 3. The readers of `Unserialize` -/

/-- The eight availability bits `Unserialize` pushes for one bitmask byte. -/
abbrev bits8 (c : UInt8) : List Bool := (List.range 8).map (testBit8 c)

/-- How many bytes of a list are non-zero. -/
abbrev nonzeroCount (bytes : List UInt8) : Nat := (bytes.filter (· != 0)).length

theorem nonzeroCount_pos {bytes : List UInt8} (hne : bytes ≠ []) (hlast : bytes.getLast? ≠ some 0) :
    0 < nonzeroCount bytes := by
  apply List.length_pos.mpr
  apply List.ne_nil_of_mem (a := bytes.getLast hne)
  rw [List.getLast?_eq_getLast _ hne, ne_eq, Option.some_inj] at hlast
  simp [hlast, List.getLast_mem hne]

theorem nonzeroCount_cons (c : UInt8) (bytes : List UInt8) :
    nonzeroCount (c :: bytes) = nonzeroCount bytes + (if c = 0 then 0 else 1) := by
  by_cases hc : c = 0 <;> simp [nonzeroCount, hc]

theorem getLast?_ne_zero_of_cons {c : UInt8} {bytes : List UInt8}
    (h : (c :: bytes).getLast? ≠ some 0) : bytes.getLast? ≠ some 0 := by
  cases hb : bytes.getLast? with
  | none => simp
  | some y => rw [List.getLast?_cons, hb] at h; simpa using h

/-- The bitmask loop reads exactly a run of bytes ending in a non-zero one, when it is asked for
as many non-zero bytes as the run has. -/
theorem readMask_append (bytes rest : List UInt8) (acc : List Bool)
    (hlast : bytes.getLast? ≠ some 0) :
    readMask (nonzeroCount bytes) acc (bytes ++ rest) = some (acc ++ bytes.flatMap bits8, rest) := by
  induction bytes generalizing acc with
  | nil => simp [readMask, nonzeroCount]
  | cons c bytes ih =>
    have hlast' := getLast?_ne_zero_of_cons hlast
    rw [nonzeroCount_cons]
    by_cases hc : c = 0
    · have hne : bytes ≠ [] := by rintro rfl; simp [hc] at hlast
      obtain ⟨n, hn⟩ : ∃ n, nonzeroCount bytes = n + 1 :=
        ⟨_, (Nat.succ_pred_eq_of_pos (nonzeroCount_pos hne hlast')).symm⟩
      rw [if_pos hc, Nat.add_zero, hn, List.cons_append, readMask, if_neg (by simp [hc]), ← hn,
        ih _ hlast']
      simp
    · rw [if_neg hc, List.cons_append, readMask, if_pos (by simpa using hc), ih _ hlast']
      simp

/-- Whatever the bitmask loop accepts is such a run. -/
theorem readMask_inv (s : List UInt8) (n : Nat) (acc acc' : List Bool) (s' : List UInt8)
    (h : readMask n acc s = some (acc', s')) :
    ∃ bytes, s = bytes ++ s' ∧ acc' = acc ++ bytes.flatMap bits8 ∧ nonzeroCount bytes = n ∧
      bytes.getLast? ≠ some 0 := by
  induction s generalizing n acc with
  | nil =>
    cases n with
    | zero =>
      simp only [readMask, Option.some.injEq, Prod.mk.injEq] at h; obtain ⟨rfl, rfl⟩ := h
      exact ⟨[], by simp⟩
    | succ n => simp [readMask] at h
  | cons c s ih =>
    cases n with
    | zero =>
      simp only [readMask, Option.some.injEq, Prod.mk.injEq] at h; obtain ⟨rfl, rfl⟩ := h
      exact ⟨[], by simp⟩
    | succ n =>
      rw [readMask] at h
      obtain ⟨bytes, rfl, rfl, hcount, hlast⟩ := ih _ _ h
      refine ⟨c :: bytes, rfl, by simp, ?_, ?_⟩
      · rw [nonzeroCount_cons, hcount]
        by_cases hc : c = 0 <;> simp [hc]
      · cases hb : bytes.getLast? with
        | none =>
          obtain rfl : bytes = [] := List.getLast?_eq_none_iff.mp hb
          have hc : c ≠ 0 := by
            intro hc; simp [hc, nonzeroCount] at hcount
          simpa using hc
        | some y => rw [List.getLast?_cons, hb]; rw [hb] at hlast; simpa using hlast

/-- The output loop reads back the outputs a writer put in index order. -/
theorem readOutputs_append (c : Codec TxOut) (w : List (Option TxOut)) (rest : List UInt8)
    (hc : ∀ o, some o ∈ w → ∀ rest, c.read (c.write o ++ rest) = some (o, rest)) :
    readOutputs c (w.map Option.isSome) ((w.filterMap id).flatMap c.write ++ rest) =
      some (w, rest) := by
  induction w with
  | nil => rfl
  | cons x w ih =>
    have ih' := ih fun o ho => hc o (List.mem_cons_of_mem _ ho)
    cases x with
    | none => simp [readOutputs, ih']
    | some o =>
      simp only [List.map_cons, Option.isSome_some, List.filterMap_cons, id, List.flatMap_cons,
        List.append_assoc, readOutputs, hc o (List.mem_cons_self _ _)]
      simp [ih']

/-- The outputs read are null exactly where `vAvail` says so. -/
theorem readOutputs_isSome (c : Codec TxOut) (vAvail : List Bool) (s : List UInt8)
    (w : List (Option TxOut)) (s' : List UInt8) (h : readOutputs c vAvail s = some (w, s')) :
    w.map Option.isSome = vAvail := by
  induction vAvail generalizing s w with
  | nil => simp only [readOutputs, Option.some.injEq, Prod.mk.injEq] at h; rw [← h.1]; rfl
  | cons a vAvail ih =>
    cases a with
    | false =>
      simp only [readOutputs, Option.map_eq_some', Prod.exists] at h
      obtain ⟨w', s'', h', hw⟩ := h
      simp only [Prod.mk.injEq] at hw; obtain ⟨rfl, rfl⟩ := hw
      simp [ih _ _ h']
    | true =>
      simp only [readOutputs, Option.bind_eq_bind, Option.bind_eq_some, Prod.exists] at h
      obtain ⟨o, s1, -, w', s2, h', hw⟩ := h
      simp only [Option.pure_def, Option.some.injEq, Prod.mk.injEq] at hw; obtain ⟨rfl, rfl⟩ := hw
      simp [ih _ _ h']

/-! ## 4. The header code -/

theorem land_eight_mul_add (k x m : Nat) (hx : x < 8) (hm : m < 8) :
    (8 * k + x) &&& m = x &&& m := by
  have hm7 : 7 &&& m = m := by
    rw [Nat.and_comm]; exact Nat.and_pow_two_sub_one_of_lt_two_pow (n := 3) hm
  have hx7 : 7 &&& x = x := by
    rw [Nat.and_comm]; exact Nat.and_pow_two_sub_one_of_lt_two_pow (n := 3) hx
  calc (8 * k + x) &&& m = ((8 * k + x) &&& 7) &&& m := by rw [Nat.and_assoc, hm7]
    _ = x &&& m := by
      rw [show (7 : Nat) = 2 ^ 3 - 1 from rfl, Nat.and_pow_two_sub_one_eq_mod]
      congr 1; omega

/-- The four fields packed into a header code. -/
theorem code_fields (k : Nat) (b0 b1 b2 : Bool) :
    let c := 8 * k + (if b0 then 1 else 0) + (if b1 then 2 else 0) + (if b2 then 4 else 0)
    c / 8 = k ∧ (c &&& 1 != 0) = b0 ∧ (c &&& 2 != 0) = b1 ∧ (c &&& 4 != 0) = b2 ∧
      (c &&& 6 != 0) = (b1 || b2) := by
  intro c
  have hx : (if b0 then 1 else 0) + (if b1 then 2 else 0) + (if b2 then 4 else 0) < 8 := by
    split <;> split <;> split <;> omega
  have hc : c = 8 * k + ((if b0 then 1 else 0) + (if b1 then 2 else 0) + (if b2 then 4 else 0)) := by
    simp only [c]; omega
  rw [hc, land_eight_mul_add _ _ 1 hx (by norm_num), land_eight_mul_add _ _ 2 hx (by norm_num),
    land_eight_mul_add _ _ 4 hx (by norm_num), land_eight_mul_add _ _ 6 hx (by norm_num)]
  refine ⟨by omega, ?_⟩
  cases b0 <;> cases b1 <;> cases b2 <;> decide

/-- Every header code is its four fields packed. -/
theorem code_decompose (c : Nat) :
    c = 8 * (c / 8) + (if c &&& 1 != 0 then 1 else 0) + (if c &&& 2 != 0 then 2 else 0) +
      (if c &&& 4 != 0 then 4 else 0) := by
  have hmod : c % 8 < 8 := Nat.mod_lt _ (by norm_num)
  have hland : ∀ m, m < 8 → c &&& m = c % 8 &&& m := fun m hm => by
    conv_lhs => rw [← Nat.div_add_mod c 8]
    exact land_eight_mul_add _ _ m hmod hm
  rw [hland 1 (by norm_num), hland 2 (by norm_num), hland 4 (by norm_num)]
  have hsmall : c % 8 = (if c % 8 &&& 1 != 0 then 1 else 0) + (if c % 8 &&& 2 != 0 then 2 else 0) +
      (if c % 8 &&& 4 != 0 then 4 else 0) := by
    generalize c % 8 = x at hmod ⊢
    interval_cases x <;> rfl
  omega

/-! ## 5. Slots past the bitmask -/

/-- The availability of outputs `0 .. n-1`. -/
abbrev availBits (vout : List (Option TxOut)) (n : Nat) : List Bool :=
  (List.range n).map fun i => (outAt vout i).isSome

theorem outAt_range_map (v : List (Option TxOut)) (L i : Nat) :
    outAt ((List.range L).map (outAt v)) i = if i < L then outAt v i else none := by
  by_cases hi : i < L
  · simp [outAt, hi, List.getElem?_range]
  · rw [if_neg hi, outAt, List.getElem?_map, List.getElem?_eq_none (by simpa using hi)]; rfl

theorem filterMap_id_rdropWhile (a : List (Option TxOut)) :
    (a.rdropWhile Option.isNone).filterMap id = a.filterMap id := by
  conv_rhs => rw [← rdropWhile_append_rtakeWhile Option.isNone a]
  suffices (a.rtakeWhile Option.isNone).filterMap id = [] by
    rw [List.filterMap_append, this, List.append_nil]
  rw [List.filterMap_eq_nil_iff]
  intro o ho
  have : o.isNone = true := List.mem_takeWhile_imp (List.mem_reverse.mp ho)
  simpa [Option.isNone_iff_eq_none] using this

/-- Lists with the same slots have the same outputs in the same order. -/
theorem filterMap_id_eq_of_outAt_eq {a b : List (Option TxOut)} (h : ∀ i, outAt a i = outAt b i) :
    a.filterMap id = b.filterMap id := by
  rw [← filterMap_id_rdropWhile a, ← filterMap_id_rdropWhile b, rdropWhile_eq_of_outAt_eq h]

theorem mem_iff_outAt {v : List (Option TxOut)} {o : TxOut} :
    some o ∈ v ↔ ∃ i, outAt v i = some o := by
  rw [List.mem_iff_getElem?]
  constructor
  · rintro ⟨i, hi⟩; exact ⟨i, by simp [outAt, hi]⟩
  · rintro ⟨i, hi⟩
    refine ⟨i, ?_⟩
    cases h : v[i]? with
    | none => simp [outAt, h] at hi
    | some x => simp only [outAt, h] at hi; exact congrArg some hi

/-- Bitmask byte `b` covers a non-null output: one of outputs `2+b*8` to `2+b*8+7` is there. -/
def byteHasOutput (vout : List (Option TxOut)) (b : Nat) : Bool :=
  (List.range 8).any fun i => (outAt vout (2 + b * 8 + i)).isSome

theorem byteHasOutput_eq_not (vout : List (Option TxOut)) (b : Nat) :
    byteHasOutput vout b = !maskByteZero vout b := by
  rw [byteHasOutput, maskByteZero, List.all_eq_not_any_not]
  simp

theorem byteHasOutput_of_outAt {vout : List (Option TxOut)} {i : Nat} {o : TxOut} (hi : 2 ≤ i)
    (h : outAt vout i = some o) : byteHasOutput vout ((i - 2) / 8) = true :=
  List.any_eq_true.mpr ⟨(i - 2) % 8, List.mem_range.mpr (Nat.mod_lt _ (by norm_num)), by
    rw [show 2 + (i - 2) / 8 * 8 + (i - 2) % 8 = i by omega, h]; rfl⟩

section Record

variable (r : CBreadcrumbs)

/-- No output at or after `2 + nMaskSize*8` is available. -/
theorem outAt_eq_none_of_ge {i : Nat} (hi : 2 + (r.calcMaskSize 0 0).1 * 8 ≤ i) :
    outAt r.vout i = none := by
  have hz := (calcMaskSize_spec r).1 ((i - 2) / 8) (by omega)
  simp only [maskByteZero, List.all_eq_true, List.mem_range, Option.isNone_iff_eq_none] at hz
  have := hz ((i - 2) % 8) (Nat.mod_lt _ (by norm_num))
  rwa [show 2 + (i - 2) / 8 * 8 + (i - 2) % 8 = i by omega] at this

/-- An available output makes the record serializable. -/
theorem serializable_of_outAt {i : Nat} {o : TxOut} (hi : outAt r.vout i = some o) :
    r.serializable = true := by
  obtain ⟨h1, -, h3⟩ := calcMaskSize_spec r
  simp only [CBreadcrumbs.serializable, CBreadcrumbs.fFirst, CBreadcrumbs.fSecond,
    Bool.or_eq_true, bne_iff_ne, ne_eq]
  match i, hi with
  | 0, hi => simp [hi]
  | 1, hi => simp [hi]
  | j + 2, hi =>
    right
    have hb : maskByteZero r.vout (j / 8) = false := by
      simpa [byteHasOutput_eq_not] using byteHasOutput_of_outAt (i := j + 2) (by omega) hi
    have hlt : j / 8 < (r.calcMaskSize 0 0).1 := by
      by_contra hge; rw [h1 _ (by omega)] at hb; cases hb
    rw [h3, nonzeroBelow]
    exact (List.length_pos.mpr (List.ne_nil_of_mem (List.mem_filter.mpr
      ⟨List.mem_range.mpr hlt, by simp [hb]⟩))).ne'

theorem serializable_of_mem {o : TxOut} (ho : some o ∈ r.vout) : r.serializable = true :=
  (mem_iff_outAt.mp ho).elim fun _ hi => serializable_of_outAt r hi

/-- The converse: a record that passes the assertion has an available output. -/
theorem isPruned_eq_false_of_serializable (h : r.serializable = true) : r.isPruned = false := by
  rw [Bool.eq_false_iff, ne_eq, CBreadcrumbs.isPruned_iff, not_forall]
  simp only [CBreadcrumbs.serializable, CBreadcrumbs.fFirst, CBreadcrumbs.fSecond,
    Bool.or_eq_true, bne_iff_ne, ne_eq] at h
  rcases h with (h | h) | h
  · exact ⟨0, by simp [CBreadcrumbs.isAvailable, h]⟩
  · exact ⟨1, by simp [CBreadcrumbs.isAvailable, h]⟩
  · rw [(calcMaskSize_spec r).2.2, nonzeroBelow] at h
    obtain ⟨b, hb⟩ := List.exists_mem_of_length_pos (Nat.pos_of_ne_zero h)
    simp only [List.mem_filter, List.mem_range, Bool.not_eq_true', maskByteZero,
      List.all_eq_false] at hb
    obtain ⟨i, -, hi⟩ := hb.2
    exact ⟨2 + b * 8 + i, by simpa [CBreadcrumbs.isAvailable] using hi⟩

end Record

/-! ### `CalcMaskSize` in terms of the outputs -/

/-- **What `CalcMaskSize(nBytes, nNonzeroBytes)` computes from zero.** No bitmask byte from
`nBytes` on covers a non-null output, and byte `nBytes - 1` does: `nBytes` is one plus the
index of the last byte that covers one, or `0`. `nNonzeroBytes` is the number of bytes that
cover one (counted over any range of bytes that reaches `nBytes`). Hence `nNonzeroBytes ≤
nBytes`; `nNonzeroBytes = 0` exactly when the outputs from index 2 on are all null; the bitmask
byte `nBytes - 1` is non-zero; and every non-null output from index 2 on lies in the first
`nBytes` bytes. -/
theorem calcMaskSize_counts (r : CBreadcrumbs) (nBytes nNonzeroBytes : Nat)
    (h : r.calcMaskSize 0 0 = (nBytes, nNonzeroBytes)) :
    (∀ b, nBytes ≤ b → byteHasOutput r.vout b = false) ∧
    (0 < nBytes → byteHasOutput r.vout (nBytes - 1) = true) ∧
    (∀ n, nBytes ≤ n → nNonzeroBytes = (List.range n).countP (byteHasOutput r.vout)) ∧
    nNonzeroBytes ≤ nBytes ∧
    (nNonzeroBytes = 0 ↔ ∀ i, 2 ≤ i → outAt r.vout i = none) ∧
    (0 < nBytes → maskByte r.vout (nBytes - 1) ≠ 0) ∧
    (∀ i, 2 ≤ i → (outAt r.vout i).isSome → (i - 2) / 8 < nBytes) := by
  obtain ⟨h1, h2, h3⟩ := calcMaskSize_spec r
  rw [h] at h1 h2 h3
  dsimp only at h1 h2 h3
  have hz : byteHasOutput r.vout = fun b => !maskByteZero r.vout b :=
    funext (byteHasOutput_eq_not r.vout)
  -- bytes past `nBytes` cover nothing, so counting further adds nothing
  have hcount : ∀ n, nBytes ≤ n → nNonzeroBytes = (List.range n).countP (byteHasOutput r.vout) :=
    fun n hn => by
      rw [List.countP_eq_length_filter, h3, ← nonzeroBelow_eq _ hn fun b hb _ => h1 b hb, hz]
  -- a non-null output from index 2 on lies in a byte below `nBytes`
  have hwithin : ∀ i, 2 ≤ i → (outAt r.vout i).isSome → (i - 2) / 8 < nBytes := by
    intro i hi hsome
    obtain ⟨o, ho⟩ := Option.isSome_iff_exists.mp hsome
    by_contra hge
    rw [outAt_eq_none_of_ge r (by rw [h]; omega)] at ho
    cases ho
  refine ⟨fun b hb => by simp [hz, h1 b hb], fun hS => by simp [hz, h2 hS], hcount, ?_,
    ⟨fun h0 i hi => ?_, fun hall => ?_⟩,
    fun hS => by rw [ne_eq, maskByte_eq_zero_iff, h2 hS]; decide, hwithin⟩
  · rw [h3]
    exact (List.length_filter_le _ _).trans (List.length_range _).le
  · cases ho : outAt r.vout i with
    | none => rfl
    | some o =>
      rw [hcount nBytes le_rfl, List.countP_eq_zero] at h0
      exact absurd (byteHasOutput_of_outAt hi ho)
        (by simpa using h0 _ (List.mem_range.mpr (hwithin i hi (by simp [ho]))))
  · rw [hcount nBytes le_rfl, List.countP_eq_zero]
    intro b _ hb
    obtain ⟨j, -, hj⟩ := List.any_eq_true.mp hb
    rw [hall (2 + b * 8 + j) (by omega)] at hj
    cases hj

/-- Ten null outputs, then one: bitmask byte 0 is zero and byte 1 is not. -/
theorem calcMaskSize_counts_interior_zero :
    let vout : List (Option TxOut) := List.replicate 10 none ++ [some ⟨7, []⟩]
    (∀ b, 2 ≤ b → byteHasOutput vout b = false) ∧
    (0 < 2 → byteHasOutput vout (2 - 1) = true) ∧
    (∀ n, 2 ≤ n → 1 = (List.range n).countP (byteHasOutput vout)) ∧
    1 ≤ 2 ∧
    (1 = 0 ↔ ∀ i, 2 ≤ i → outAt vout i = none) ∧
    (0 < 2 → maskByte vout (2 - 1) ≠ 0) ∧
    (∀ i, 2 ≤ i → (outAt vout i).isSome → (i - 2) / 8 < 2) :=
  calcMaskSize_counts ⟨false, List.replicate 10 none ++ [some (TxOut.mk 7 [])], 3, 1⟩ 2 1
    (by decide)

/-! ## 6. From `Serialize` to `Unserialize` -/

theorem flatMap_range_mul_eight (g : Nat → Bool) (S : Nat) :
    (List.range S).flatMap (fun b => (List.range 8).map fun p => g (b * 8 + p)) =
      (List.range (S * 8)).map g := by
  induction S with
  | zero => rfl
  | succ S ih =>
    rw [List.range_succ, List.flatMap_append, ih, List.flatMap_singleton, Nat.succ_mul,
      List.range_add, List.map_append, List.map_map]
    rfl

/-- The writer's bitmask, read back bit by bit, is the availability of outputs from 2 on. -/
theorem flatMap_bits8_maskByte (vout : List (Option TxOut)) (S : Nat) :
    ((List.range S).map (maskByte vout)).flatMap bits8 =
      (List.range (S * 8)).map fun i => (outAt vout (2 + i)).isSome := by
  rw [List.flatMap_map, ← flatMap_range_mul_eight]
  refine List.flatMap_congr fun b _ => List.map_congr_left fun p hp => ?_
  rw [testBit8_maskByte vout b (List.mem_range.mp hp), Nat.add_assoc]

section Writer

variable (cs : Codecs) (r : CBreadcrumbs)

/-- `Unserialize` reads back the header `Serialize` wrote: `nVersion`, `nCode`, and the
availability of every output below `2 + nMaskSize*8`. -/
theorem unserializeHeader_headerBytes (hser : r.serializable = true)
    (hver : ∀ rest, cs.varInt.read (cs.varInt.write r.nVersion ++ rest) = some (r.nVersion, rest))
    (hcode : ∀ rest, cs.varUInt.read (cs.varUInt.write (r.headerCode (r.calcMaskSize 0 0).2) ++ rest) =
      some (r.headerCode (r.calcMaskSize 0 0).2, rest))
    (rest : List UInt8) :
    unserializeHeader cs (r.headerBytes cs ++ rest) = some (r.nVersion,
      r.headerCode (r.calcMaskSize 0 0).2, availBits r.vout (2 + (r.calcMaskSize 0 0).1 * 8), rest) := by
  obtain ⟨h1, h2, h3⟩ := calcMaskSize_spec r
  generalize hSN : r.calcMaskSize 0 0 = SN at h1 h2 h3 hcode
  obtain ⟨S, N⟩ := SN
  dsimp only at h1 h2 h3 hcode
  have hN : (r.fFirst || r.fSecond) = false → N ≠ 0 := by
    intro hfs; simpa [CBreadcrumbs.serializable, hSN, hfs] using hser
  obtain ⟨hdiv, -, h2c, h4c, h6c⟩ := code_fields (N - (if r.fFirst || r.fSecond then 0 else 1))
    r.fBreadcrumbBase r.fFirst r.fSecond
  have hmaskCode : r.headerCode N / 8 + (if r.headerCode N &&& 6 != 0 then 0 else 1) = N := by
    simp only [CBreadcrumbs.headerCode] at hdiv h6c ⊢
    simp only [hdiv, h6c]
    cases hfs : (r.fFirst || r.fSecond)
    · have := hN hfs; simp; omega
    · simp
  have hcount : nonzeroCount ((List.range S).map (maskByte r.vout)) = N := by
    rw [h3, nonzeroCount, List.filter_map, List.length_map, nonzeroBelow]
    exact congrArg List.length (List.filter_congr fun b _ => maskByte_bne_zero r.vout b)
  have hlast : ((List.range S).map (maskByte r.vout)).getLast? ≠ some 0 := by
    rw [List.getLast?_map, List.getLast?_range]
    split
    · simp
    · rename_i hS
      have := h2 (by omega)
      simpa [maskByte_eq_zero_iff] using this
  have hbits : [r.headerCode N &&& 2 != 0, r.headerCode N &&& 4 != 0] = availBits r.vout 2 := by
    simp only [CBreadcrumbs.headerCode] at h2c h4c ⊢
    rw [h2c, h4c]; rfl
  simp only [CBreadcrumbs.headerBytes, hSN, List.append_assoc, unserializeHeader, hver, hcode,
    Option.bind_eq_bind, Option.some_bind, hmaskCode]
  rw [← hcount, readMask_append _ _ _ hlast, hcount, hbits, flatMap_bits8_maskByte]
  simp [availBits, List.range_add]

end Writer

/-- **Round trip, writer first.** A record with an unspent output passes the assertion of
`Serialize`, and `Unserialize` reads exactly the bytes written back into the record with its
trailing null outputs removed, so into the record itself when it is trimmed; provided `VARINT`
reads back `nVersion`, `nHeight` and the header code, and `CTxOutCompressor` each unspent
output. -/
theorem serialize_unserialize (cs : Codecs) (r : CBreadcrumbs) (hsome : ∃ o, some o ∈ r.vout)
    (hver : ∀ rest, cs.varInt.read (cs.varInt.write r.nVersion ++ rest) = some (r.nVersion, rest))
    (hheight : ∀ rest, cs.varInt.read (cs.varInt.write r.nHeight ++ rest) = some (r.nHeight, rest))
    (hcode : ∀ rest, cs.varUInt.read (cs.varUInt.write (r.headerCode (r.calcMaskSize 0 0).2) ++ rest) =
      some (r.headerCode (r.calcMaskSize 0 0).2, rest))
    (hout : ∀ o, some o ∈ r.vout → ∀ rest,
      cs.txOutCompressor.read (cs.txOutCompressor.write o ++ rest) = some (o, rest)) :
    ∃ bytes, r.serialize cs = some bytes ∧
      (∀ rest, unserialize cs (bytes ++ rest) = some (r.cleanup, rest)) ∧
      (r.Trimmed → ∀ rest, unserialize cs (bytes ++ rest) = some (r, rest)) := by
  obtain ⟨o, ho⟩ := hsome
  have hser := serializable_of_mem r ho
  -- the outputs as `Unserialize` lays them out: every slot below `2 + nMaskSize*8`
  let w := (List.range (2 + (r.calcMaskSize 0 0).1 * 8)).map (outAt r.vout)
  have hslots : ∀ i, outAt w i = outAt r.vout i := fun i => by
    rw [outAt_range_map]
    split
    · rfl
    · exact (outAt_eq_none_of_ge r (by omega)).symm
  have hw : w.map Option.isSome = availBits r.vout (2 + (r.calcMaskSize 0 0).1 * 8) := by
    simp only [w, List.map_map]; rfl
  have hwout : ∀ o, some o ∈ w → ∀ rest,
      cs.txOutCompressor.read (cs.txOutCompressor.write o ++ rest) = some (o, rest) := by
    intro o ho
    obtain ⟨i, hi⟩ := mem_iff_outAt.mp ho
    exact hout o (mem_iff_outAt.mpr ⟨i, (hslots i) ▸ hi⟩)
  have hbase := (code_fields ((r.calcMaskSize 0 0).2 - (if r.fFirst || r.fSecond then 0 else 1))
    r.fBreadcrumbBase r.fFirst r.fSecond).2.1
  have hread : ∀ rest, unserialize cs (r.headerBytes cs ++
      (r.vout.filterMap id).flatMap cs.txOutCompressor.write ++ cs.varInt.write r.nHeight ++ rest) =
      some (r.cleanup, rest) := by
    intro rest
    rw [← filterMap_id_eq_of_outAt_eq hslots]
    simp only [unserialize, List.append_assoc, unserializeHeader_headerBytes cs r hser hver hcode,
      Option.bind_eq_bind, Option.some_bind]
    rw [← hw, readOutputs_append _ _ _ hwout]
    simp only [Option.some_bind, hheight, Option.pure_def, Option.some.injEq, Prod.mk.injEq,
      and_true]
    simp only [CBreadcrumbs.cleanup, CBreadcrumbs.mk.injEq, rdropWhile_eq_of_outAt_eq hslots,
      and_true]
    exact hbase
  refine ⟨_, by simp [CBreadcrumbs.serialize, hser], hread, fun ht rest => ?_⟩
  rw [hread, CBreadcrumbs.cleanup_of_trimmed ht]

/-- The first byte of a stream. -/
def readByte : List UInt8 → Option (UInt8 × List UInt8)
  | b :: s => some (b, s)
  | [] => none

/-- Serializers that write every number as one byte: they read back every value below 256,
enough to run the encoding on small records. -/
def byteCodecs : Codecs where
  varInt := ⟨fun v => [v.toNat.toUInt8], fun s => (readByte s).map fun (b, s) => (b.toNat, s),
    fun _ => 1⟩
  varUInt := ⟨fun v => [v.toUInt8], fun s => (readByte s).map fun (b, s) => (b.toNat, s),
    fun _ => 1⟩
  txOutCompressor := ⟨fun o => [o.nValue.toNat.toUInt8],
    fun s => (readByte s).map fun (b, s) => (⟨b.toNat, []⟩, s), fun _ => 1⟩

theorem toUInt8_toNat (b : UInt8) : b.toNat.toUInt8 = b :=
  UInt8.eq_of_val_eq (Fin.ext (Nat.mod_eq_of_lt b.val.isLt))

theorem readByte_eq_some {s rest : List UInt8} {b : UInt8} (h : readByte s = some (b, rest)) :
    s = b :: rest := by
  match s, h with
  | _ :: _, h => simp only [readByte, Option.some.injEq, Prod.mk.injEq] at h; rw [h.1, h.2]

/-- The `VARINT` of an `int` in `byteCodecs` is canonical. -/
theorem byteCodecs_varInt_canonical (s : List UInt8) (v : Int) (rest : List UInt8)
    (h : byteCodecs.varInt.read s = some (v, rest)) : s = byteCodecs.varInt.write v ++ rest := by
  obtain ⟨⟨b, rest'⟩, hb, heq⟩ := Option.map_eq_some'.mp h
  simp only [Prod.mk.injEq] at heq; obtain ⟨rfl, rfl⟩ := heq
  simp [byteCodecs, readByte_eq_some hb, toUInt8_toNat]

/-- The `VARINT` of an `unsigned int` in `byteCodecs` is canonical. -/
theorem byteCodecs_varUInt_canonical (s : List UInt8) (v : Nat) (rest : List UInt8)
    (h : byteCodecs.varUInt.read s = some (v, rest)) : s = byteCodecs.varUInt.write v ++ rest := by
  obtain ⟨⟨b, rest'⟩, hb, heq⟩ := Option.map_eq_some'.mp h
  simp only [Prod.mk.injEq] at heq; obtain ⟨rfl, rfl⟩ := heq
  simp [byteCodecs, readByte_eq_some hb, toUInt8_toNat]

/-- A record whose only unspent output is output 3, behind a null output 4: one bitmask byte,
`nCode` stored as `N - 1`, and a trailing null that `Unserialize` trims. -/
theorem serialize_unserialize_output_three :
    ∃ bytes, (⟨false, [none, none, none, some ⟨7, []⟩, none], 3, 1⟩ : CBreadcrumbs).serialize
        byteCodecs = some bytes ∧
      (∀ rest, unserialize byteCodecs (bytes ++ rest) =
        some ((⟨false, [none, none, none, some ⟨7, []⟩, none], 3, 1⟩ : CBreadcrumbs).cleanup, rest)) ∧
      ((⟨false, [none, none, none, some ⟨7, []⟩, none], 3, 1⟩ : CBreadcrumbs).Trimmed →
        ∀ rest, unserialize byteCodecs (bytes ++ rest) =
          some (⟨false, [none, none, none, some ⟨7, []⟩, none], 3, 1⟩, rest)) :=
  serialize_unserialize byteCodecs ⟨false, [none, none, none, some ⟨7, []⟩, none], 3, 1⟩
    ⟨⟨7, []⟩, by simp⟩ (fun _ => rfl) (fun _ => rfl) (fun _ => rfl)
    (fun o ho _ => by simp only [List.mem_cons, List.mem_singleton] at ho; simp_all; rfl)

/-! ## 7. From `Unserialize` to `Serialize` -/

/-- Inversion of `unserializeHeader`: the three reads it made. -/
theorem unserializeHeader_inv {cs : Codecs} {s : List UInt8} {nVersion : Int} {nCode : Nat}
    {vAvail : List Bool} {s1 : List UInt8}
    (h : unserializeHeader cs s = some (nVersion, nCode, vAvail, s1)) :
    ∃ s0 s0', cs.varInt.read s = some (nVersion, s0) ∧ cs.varUInt.read s0 = some (nCode, s0') ∧
      readMask (nCode / 8 + (if nCode &&& 6 != 0 then 0 else 1))
        [nCode &&& 2 != 0, nCode &&& 4 != 0] s0' = some (vAvail, s1) := by
  simp only [unserializeHeader, Option.bind_eq_bind, Option.bind_eq_some, Prod.exists,
    Option.pure_def, Option.some.injEq, Prod.mk.injEq] at h
  obtain ⟨v, s0, hv, c, s0', hc, vA, s1', hm, rfl, rfl, rfl, rfl⟩ := h
  exact ⟨s0, s0', hv, hc, hm⟩

/-- Inversion of `unserialize`: the header, the outputs and the height it read, and the record
it built from them. -/
theorem unserialize_inv {cs : Codecs} {s : List UInt8} {r : CBreadcrumbs} {rest : List UInt8}
    (h : unserialize cs s = some (r, rest)) :
    ∃ nVersion nCode vAvail s1 vout s2 nHeight,
      unserializeHeader cs s = some (nVersion, nCode, vAvail, s1) ∧
      readOutputs cs.txOutCompressor vAvail s1 = some (vout, s2) ∧
      cs.varInt.read s2 = some (nHeight, rest) ∧
      r = CBreadcrumbs.cleanup ⟨nCode &&& 1 != 0, vout, nHeight, nVersion⟩ := by
  simp only [unserialize, Option.bind_eq_bind, Option.bind_eq_some, Prod.exists,
    Option.pure_def, Option.some.injEq, Prod.mk.injEq] at h
  obtain ⟨nVersion, nCode, vAvail, s1, hh, vout, s2, ho, nHeight, s3, hn, rfl, rfl⟩ := h
  exact ⟨nVersion, nCode, vAvail, s1, vout, s2, nHeight, hh, ho, hn, rfl⟩

theorem isSome_outAt (v : List (Option TxOut)) (i : Nat) :
    (outAt v i).isSome = ((v.map Option.isSome)[i]?).getD false := by
  cases h : v[i]? <;> simp [outAt, h]

theorem getElem?_flatMap_bits8 (bytes : List UInt8) (b : Nat) {p : Nat} (hp : p < 8) :
    (bytes.flatMap bits8)[b * 8 + p]? = bytes[b]?.map (testBit8 · p) := by
  induction bytes generalizing b with
  | nil => simp
  | cons c bytes ih =>
    rw [List.flatMap_cons]
    cases b with
    | zero => simp [List.getElem?_append_left, hp]
    | succ b =>
      rw [List.getElem?_append_right (by simp; omega)]
      simp [show (b + 1) * 8 + p - 8 = b * 8 + p by omega, ih]

theorem map_getD_range (bytes : List UInt8) :
    (List.range bytes.length).map (bytes.getD · 0) = bytes :=
  List.ext_getElem (by simp) fun i _ h2 => by
    rw [List.getElem_map, List.getElem_range, List.getD_eq_getElem _ _ h2]

theorem nonzeroBelow_getD (bytes : List UInt8) :
    nonzeroBelow (fun b => bytes.getD b 0 == 0) bytes.length = nonzeroCount bytes := by
  conv_rhs => rw [← map_getD_range bytes]
  rw [nonzeroCount, List.filter_map, List.length_map]
  rfl

/-- The availability bit of slot `i` that a bitmask of `bytes` carries, after the bits of
outputs 0 and 1. -/
abbrev maskSlots (b1 b2 : Bool) (bytes : List UInt8) (i : Nat) : Bool :=
  (([b1, b2] ++ bytes.flatMap bits8)[i]?).getD false

section Reader

variable {r : CBreadcrumbs} {b1 b2 : Bool} {bytes : List UInt8}
  (hv : ∀ i, (outAt r.vout i).isSome = maskSlots b1 b2 bytes i)
include hv

/-- A record whose slots are the bits of a bitmask has that bitmask's bytes as its own. -/
theorem maskByte_eq_getD (b : Nat) : maskByte r.vout b = bytes.getD b 0 := by
  refine eq_of_testBit8_eq fun p hp => ?_
  rw [testBit8_maskByte r.vout b hp, hv, maskSlots,
    List.getElem?_append_right (by simp; omega), show 2 + b * 8 + p - [b1, b2].length = b * 8 + p
      by simp; omega, getElem?_flatMap_bits8 _ _ hp]
  cases h : bytes[b]? <;> simp [List.getD_eq_getElem?_getD, h, testBit8_zero hp]

theorem maskByteZero_eq_getD (b : Nat) : maskByteZero r.vout b = (bytes.getD b 0 == 0) := by
  rw [Bool.eq_iff_iff, ← maskByte_eq_zero_iff, maskByte_eq_getD hv, beq_iff_eq]

/-- `CalcMaskSize` finds the bitmask back when its last byte is non-zero. -/
theorem calcMaskSize_of_slots (hlast : bytes.getLast? ≠ some 0) :
    r.calcMaskSize 0 0 = (bytes.length, nonzeroCount bytes) := by
  obtain ⟨h1, h2, h3⟩ := calcMaskSize_spec r
  have hS : (r.calcMaskSize 0 0).1 = bytes.length := by
    refine maskSize_unique _ h1 h2 (fun b hb => ?_) fun hpos => ?_
    · rw [maskByteZero_eq_getD hv, List.getD_eq_default _ _ hb]; rfl
    · rw [maskByteZero_eq_getD hv, List.getD_eq_getElem _ _ (by omega : bytes.length - 1 < _)]
      rw [List.getLast?_eq_getElem?, List.getElem?_eq_getElem (by omega)] at hlast
      simpa using hlast
  rw [Prod.ext_iff, h3, hS]
  refine ⟨rfl, ?_⟩
  rw [← nonzeroBelow_getD]
  exact congrArg List.length (List.filter_congr fun b _ => by rw [maskByteZero_eq_getD hv])

theorem range_map_maskByte : (List.range bytes.length).map (maskByte r.vout) = bytes :=
  (List.map_congr_left fun b _ => maskByte_eq_getD hv b).trans (map_getD_range bytes)

end Reader

theorem land_six (c : Nat) : (c &&& 6 != 0) = ((c &&& 2 != 0) || (c &&& 4 != 0)) := by
  have := (code_fields (c / 8) (c &&& 1 != 0) (c &&& 2 != 0) (c &&& 4 != 0)).2.2.2.2
  rwa [← code_decompose] at this

/-- **Round trip, reader first.** Whatever `Unserialize` accepts is trimmed and not pruned,
so `Serialize` takes it, and what `Serialize` writes for it is the very bytes the header reader
consumed (`VARINT(nVersion)`, `VARINT(nCode)` and the bitmask), then the unspent outputs and
`VARINT(nHeight)`; provided `VARINT` is canonical (every stream it reads is what it writes for
the value read). -/
theorem unserialize_reserialize (cs : Codecs)
    (hint : ∀ s v rest, cs.varInt.read s = some (v, rest) → s = cs.varInt.write v ++ rest)
    (huint : ∀ s v rest, cs.varUInt.read s = some (v, rest) → s = cs.varUInt.write v ++ rest)
    (s : List UInt8) (r : CBreadcrumbs) (rest : List UInt8) (h : unserialize cs s = some (r, rest)) :
    r.Trimmed ∧ r.isPruned = false ∧
      ∃ hdr s', (unserializeHeader cs s).map (fun x => x.2.2.2) = some s' ∧ s = hdr ++ s' ∧
        r.serialize cs = some (hdr ++ (r.vout.filterMap id).flatMap cs.txOutCompressor.write ++
          cs.varInt.write r.nHeight) := by
  obtain ⟨nVersion, nCode, vAvail, s1, vout, s2, nHeight, hhdr, hout, -, rfl⟩ := unserialize_inv h
  obtain ⟨s0, s0', hver, hcode, hmask⟩ := unserializeHeader_inv hhdr
  obtain ⟨bytes, rfl, rfl, hcount, hlast⟩ := readMask_inv _ _ _ _ _ hmask
  set r := CBreadcrumbs.cleanup ⟨nCode &&& 1 != 0, vout, nHeight, nVersion⟩ with hr
  have hslots : ∀ i, (outAt r.vout i).isSome = maskSlots (nCode &&& 2 != 0) (nCode &&& 4 != 0) bytes i := by
    intro i
    rw [hr, CBreadcrumbs.cleanup, outAt_rdropWhile, isSome_outAt, readOutputs_isSome _ _ _ _ _ hout]
  have hfirst : r.fFirst = (nCode &&& 2 != 0) := hslots 0
  have hsecond : r.fSecond = (nCode &&& 4 != 0) := by rw [CBreadcrumbs.fSecond, hslots]; simp [maskSlots]
  have hS := calcMaskSize_of_slots hslots hlast
  -- outputs 0 or 1 are available, or else the bitmask has `nCode / 8 + 1` non-zero bytes
  have hser : r.serializable = true := by
    rw [CBreadcrumbs.serializable, hfirst, hsecond, ← land_six, hS, hcount]
    cases (nCode &&& 6 != 0) <;> simp
  have hcode' : r.headerCode (nonzeroCount bytes) = nCode := by
    have hbase : r.fBreadcrumbBase = (nCode &&& 1 != 0) := rfl
    rw [hcount, CBreadcrumbs.headerCode, hfirst, hsecond, hbase, ← land_six, Nat.add_sub_cancel]
    exact (code_decompose nCode).symm
  refine ⟨CBreadcrumbs.cleanup_trimmed _, isPruned_eq_false_of_serializable r hser,
    r.headerBytes cs, s1, by simp [hhdr], ?_, by simp [CBreadcrumbs.serialize, hser]⟩
  rw [hint _ _ _ hver, huint _ _ _ hcode, CBreadcrumbs.headerBytes, hS]
  simp only [hcode', range_map_maskByte hslots, List.append_assoc]
  rfl

/-- The stream of version 1, `nCode` 0 (so one non-zero bitmask byte), bitmask byte 1, output
value 7 and height 3: a record whose only unspent output is output 2. -/
theorem unserialize_reserialize_output_two :
    unserialize byteCodecs [1, 0, 1, 7, 3] =
      some (⟨false, [none, none, some ⟨7, []⟩], 3, 1⟩, []) ∧
    (⟨false, [none, none, some ⟨7, []⟩], 3, 1⟩ : CBreadcrumbs).Trimmed ∧
    (⟨false, [none, none, some ⟨7, []⟩], 3, 1⟩ : CBreadcrumbs).isPruned = false ∧
    ∃ hdr s', (unserializeHeader byteCodecs [1, 0, 1, 7, 3]).map (fun x => x.2.2.2) = some s' ∧
      [1, 0, 1, 7, 3] = hdr ++ s' ∧
      (⟨false, [none, none, some ⟨7, []⟩], 3, 1⟩ : CBreadcrumbs).serialize byteCodecs =
        some (hdr ++ ([none, none, some ⟨7, []⟩].filterMap id).flatMap
          byteCodecs.txOutCompressor.write ++ byteCodecs.varInt.write 3) :=
  ⟨rfl, unserialize_reserialize byteCodecs byteCodecs_varInt_canonical
    byteCodecs_varUInt_canonical _ _ _ rfl⟩

/-! ## 8. `GetSerializeSize` -/

end Duckcoin
