/-
  Decoding gives back what was encoded.

  Shards are tables of bytes; column by column, `encode` multiplies by the generator matrix
  (`encode_eq_table`).  The rows of the survivors can be inverted exactly when no data other than
  zero lies in the lost data shards alone and has parity zero in the parity shards that `decode`
  reads (`Recoverable`); then each lost shard is its row of the generator matrix again
  (`decodeRow_sum`).  Otherwise `gf_invert_matrix` leaves anything, and `decode` answers `Ok` with it.

  `gf_gen_rs_matrix` does not make every choice of rows invertible: `decoded_wrong`.
-/
import CrowDB.Common.ErasureCode
import Mathlib.LinearAlgebra.Vandermonde

namespace CrowDB.Ec

open Lib Matrix List

/-! ## Tables of bytes -/

/-- The table of `n` shards of `size` bytes. -/
def table (n size : ℕ) (f : ℕ → ℕ → GF256) : List (List GF256) :=
  (List.range n).map fun i => (List.range size).map (f i)

variable {size : ℕ} {i k j dataNum : ℕ}

section Table

variable {n : ℕ} {f f' : ℕ → ℕ → GF256}

@[simp] theorem length_table : (table n size f).length = n := by simp [table]

theorem table_congr (h : ∀ i < n, ∀ t < size, f i t = f' i t) : table n size f = table n size f' := by
  apply map_congr_left
  intro i hi
  apply map_congr_left
  intro t ht
  exact h i (mem_range.1 hi) t (mem_range.1 ht)

theorem table_append (n m size : ℕ) (f : ℕ → ℕ → GF256) :
    table n size f ++ table m size (fun i => f (n + i)) = table (n + m) size f := by
  simp [table, range_add]

theorem getD_map_range {t : ℕ} (ht : t < size) (f : ℕ → GF256) :
    ((range size).map f).getD t 0 = f t := by
  simp [getD_eq_getElem?_getD, ht]

theorem getD_table (hi : i < n) : (table n size f).getD i [] = (range size).map (f i) := by
  simp [table, getD_eq_getElem?_getD, hi]

theorem eq_map_range {l : List GF256} (hl : l.length = size) :
    l = (range size).map fun t => l.getD t 0 := by
  apply ext_getElem
  · simp [hl]
  · intro t ht _
    simp [getD_eq_getElem?_getD, ht]

theorem eq_of_table_eq (h : table n size f = table n size f') (hi : i < n) {t : ℕ} (ht : t < size) :
    f i t = f' i t := by
  have hrow := congrArg (fun shards => (shards.getD i []).getD t 0) h
  simpa only [getD_table hi, getD_map_range ht] using hrow

theorem ecEncodeData_table (len : ℤ) (size k n : ℕ) (a : ℕ → GF256) (data : List (List GF256))
    (f : ℕ → ℕ → GF256) :
    ecEncodeData len k n a data (table n size f) = table n size fun l t =>
      if (t : ℤ) < len then ∑ j ∈ Finset.range k, a (l * k + j) * (data.getD j []).getD t 0
      else f l t := by
  apply ext_getElem
  · simp [ecEncodeData]
  · intro l hl _
    have hln : l < n := by simpa [ecEncodeData] using hl
    apply ext_getElem
    · simp [ecEncodeData, table, hln]
    · intro t ht _
      simp [ecEncodeData, table, hln]

end Table

/-! ## Encoding multiplies by the generator matrix -/

/-- The generator matrix: the identity over the parity rows. -/
def generator (dataNum i j : ℕ) : GF256 :=
  if i < dataNum then if i = j then 1 else 0 else GF256.exp ((i - dataNum) * j)

theorem row_of_flat (hj : j < k) : (i * k + j) / k = i := by
  rw [Nat.mul_comm, Nat.mul_add_div (by omega), Nat.div_eq_of_lt hj, Nat.add_zero]

theorem gfGenRsMatrix_eq {m : ℕ} (hi : i < m) (hj : j < k) :
    gfGenRsMatrix m k (i * k + j) = generator k i j := by
  have hdims : ¬((k : ℤ) ≤ 0 ∨ (m : ℤ) ≤ i) := by omega
  simp only [gfGenRsMatrix, generator, Int.toNat_natCast, row_of_flat hj,
    Nat.mul_add_mod_of_lt hj, if_neg hdims]

/-- The byte `t` of shard `i`, for data shards `x`. -/
def codeword (dataNum : ℕ) (x : ℕ → ℕ → GF256) (i t : ℕ) : GF256 :=
  ∑ j ∈ Finset.range dataNum, generator dataNum i j * x j t

theorem codeword_data (hi : i < dataNum) (x : ℕ → ℕ → GF256) (t : ℕ) :
    codeword dataNum x i t = x i t := by
  have hterm : ∀ j ∈ Finset.range dataNum, generator dataNum i j * x j t = if i = j then
    x j t else 0 := by
    intro j _
    rw [generator, if_pos hi, ite_mul, one_mul, zero_mul]
  rw [codeword, Finset.sum_congr rfl hterm, Finset.sum_ite_eq, if_pos (Finset.mem_range.2 hi)]

/-- The bytes of a shard that isa-l computes: their number is cast to `i32`. -/
def Coded (size t : ℕ) : Prop := (t : ℤ) < asI32 size
deriving Decidable

theorem coded_of_lt {t : ℕ} (hsize : size < 2147483648) (ht : t < size) : Coded size t := by
  rw [Coded, asI32_of_lt hsize]
  exact_mod_cast ht

/-- The byte `t` of shard `i` as it is encoded: a parity byte that isa-l does not compute is zero. -/
def shardByte (dataNum size : ℕ) (x : ℕ → ℕ → GF256) (i t : ℕ) : GF256 :=
  if i < dataNum ∨ Coded size t then codeword dataNum x i t else 0

/-- The byte `t` of data shard `j`. -/
def dataByte (scheme : EcScheme) (data : List GF256) (j t : ℕ) : GF256 :=
  ((splitShards scheme data).getD j []).getD t 0

theorem splitShards_eq_table (scheme : EcScheme) (data : List GF256) :
    splitShards scheme data = table scheme.dataNum (shardSize scheme data)
      (dataByte scheme data) := by
  apply ext_getElem
  · simp [splitShards]
  · intro i hi _
    have hlength : ((splitShards scheme data)[i]).length = shardSize scheme data := by
      simp only [splitShards, getElem_map, getElem_range]
      split <;> simp
      omega
    rw [eq_map_range hlength]
    simp [table, dataByte, getD_eq_getElem?_getD, hi]

theorem isalEncode_table {codeNum : ℕ} (hdata : 0 < dataNum)
    (hblocks : dataNum + codeNum < 2147483648) (x : ℕ → ℕ → GF256) :
    isalEncode (table dataNum size x) dataNum codeNum =
      table codeNum size fun p => shardByte dataNum size x (dataNum + p) := by
  have hsize : (((table dataNum size x).head?).map length).getD 0 = size := by
    obtain ⟨n, rfl⟩ := Nat.exists_eq_succ_of_ne_zero (Nat.ne_of_gt hdata)
    simp [table, range_succ_eq_map]
  have hparity : replicate codeNum (replicate size (0 : GF256)) =
    table codeNum size fun _ _ => 0 := by
    simp [table]
  have hm : asI32 ((dataNum : ℤ) + codeNum) = ((dataNum + codeNum : ℕ) : ℤ) := by
    rw [← Nat.cast_add, asI32_of_lt hblocks]
  simp only [isalEncode, hsize, hparity, hm,
    asI32_of_lt (show dataNum < 2147483648 by omega),
      asI32_of_lt (show codeNum < 2147483648 by omega)]
  rw [ecEncodeData_table]
  apply table_congr
  intro p hp t ht
  have hparity : ¬ dataNum + p < dataNum := by omega
  rw [shardByte]
  refine if_congr (or_iff_right hparity).symm (Finset.sum_congr rfl fun j hj => ?_) rfl
  have hj' := Finset.mem_range.1 hj
  rw [← Nat.add_assoc, ← Nat.add_mul, gfGenRsMatrix_eq (by omega) hj', getD_table hj',
    getD_map_range ht]

/-- **Encoding** multiplies by the generator matrix. -/
theorem encode_eq_table {scheme : EcScheme} {data : List GF256} {shards : List (List GF256)}
    (hblocks : totalBlocks scheme < 2147483648) (h : encode scheme data = .ok shards) :
    shards = table (totalBlocks scheme) (shardSize scheme data)
      (shardByte scheme.dataNum (shardSize scheme data) (dataByte scheme data)) := by
  rw [encode] at h
  split_ifs at h with hscheme
  have hpos : 0 < scheme.dataNum := by omega
  obtain rfl := (Except.ok.inj h).symm
  rw [splitShards_eq_table, isalEncode_table hpos hblocks, totalBlocks, ← table_append]
  congr 1
  apply table_congr
  intro i hi t _
  rw [shardByte, if_pos (.inl hi), codeword_data hi]

/-! ## What decoding reads of the survivors -/

/-- The shards with those in `lost` gone. -/
def eraseShards (lost : Finset ℕ) (shards : List (List GF256)) : List (Option (List GF256)) :=
  shards.mapIdx fun i s => if i ∈ lost then none else some s

section Erased

variable (lost : Finset ℕ) (n size : ℕ) (f : ℕ → ℕ → GF256)

theorem eraseShards_table : eraseShards lost (table n size f) =
    (range n).map fun i => if i ∈ lost then none else some ((range size).map (f i)) := by
  apply ext_getElem
  · simp [eraseShards]
  · intro i _ _
    simp [eraseShards, table]

theorem lostIndices_eraseShards : lostIndices (eraseShards lost (table n size f)) =
      (range n).filter (· ∈ lost) := by
  rw [lostIndices, eraseShards_table, length_map, length_range]
  apply filter_congr
  intro i hi
  rw [getElem?_map, getElem?_range (mem_range.1 hi)]
  by_cases h : i ∈ lost <;> simp [h]

theorem countP_eraseShards :
    (eraseShards lost (table n size f)).countP Option.isNone =
      ((range n).filter (· ∈ lost)).length := by
  rw [eraseShards_table, countP_map, countP_eq_length_filter]
  congr 2
  funext i
  by_cases h : i ∈ lost <;> simp [h]

theorem buffers_eraseShards : buffers (eraseShards lost (table n size f)) size =
      table n size fun i t => if i ∈ lost then 0 else f i t := by
  rw [buffers, eraseShards_table, List.map_map, table]
  apply map_congr_left
  intro i _
  by_cases h : i ∈ lost
  · simp [h]
  · have htake : ((List.range size).map (f i)).takeD size 0 = (List.range size).map (f i) := by
      rw [takeD_eq_take _ (by simp), take_of_length_le (by simp)]
    simp [h, htake]

variable {lost n}

theorem survivingSize_eraseShards (h : ∃ i < n, i ∉ lost) :
    survivingSize (eraseShards lost (table n size f)) = size := by
  have hsizes : ∀ m ∈ ((eraseShards lost (table n size f)).filterMap id).map length, m = size := by
    intro m hm
    rw [eraseShards_table] at hm
    obtain ⟨b, hb, rfl⟩ := mem_map.1 hm
    obtain ⟨o, ho, hob⟩ := mem_filterMap.1 hb
    obtain ⟨i, -, rfl⟩ := mem_map.1 ho
    split_ifs at hob with hi
    · cases hob
    · cases hob
      simp
  have hmem : size ∈ ((eraseShards lost (table n size f)).filterMap id).map length := by
    obtain ⟨i, hi, hlost⟩ := h
    rw [eraseShards_table]
    refine mem_map.2 ⟨(range size).map (f i), mem_filterMap.2 ⟨_, ?_, rfl⟩, by simp⟩
    exact mem_map.2 ⟨i, mem_range.2 hi, if_neg hlost⟩
  have hmax : (((eraseShards lost (table n size f)).filterMap id).map length).max? = some size :=
    max?_eq_some_iff.2 ⟨hmem, fun m hm => (hsizes m hm).le⟩
  rw [survivingSize, hmax, Option.getD_some]

end Erased

theorem writeBack_map (lost : List ℕ) (f : ℕ → List GF256) (bufs : List (List GF256)) :
    writeBack bufs lost (lost.map f) = bufs.mapIdx fun i b => if i ∈ lost then f i else b := by
  induction lost generalizing bufs with
  | nil =>
    apply ext_getElem
    · simp [writeBack]
    · simp [writeBack]
  | cons i lost ih =>
    have hstep : writeBack bufs (i :: lost) ((i :: lost).map f) = writeBack (bufs.set i (f i)) lost
      (lost.map f) := rfl
    rw [hstep, ih]
    apply ext_getElem
    · simp
    · intro j _ _
      simp only [getElem_mapIdx, getElem_set, mem_cons]
      by_cases hj : j ∈ lost
      · simp [hj]
      · by_cases hij : i = j
        · simp [hj, hij]
        · simp [hj, hij, Ne.symm hij]

/-! ## The rows of the survivors -/

section Rows

variable (scheme : EcScheme) (lost : Finset ℕ)

/-- The data shards that are lost. -/
def lostData : List ℕ := (List.range scheme.dataNum).filter (· ∈ lost)

/-- The parity shards that decoding reads: as many of the surviving ones as data shards are lost. -/
def usedParity : List ℕ :=
  ((List.range scheme.codeNum).filter fun p => scheme.dataNum + p ∉ lost).take
    (lostData scheme lost).length

/-- Data in the lost data shards alone shows in the parity shards that decoding reads. -/
def Recoverable : Prop := ∀ x : ℕ → GF256, (∀ j, j ∉ lostData scheme lost → x j = 0) →
    (∀ p ∈ usedParity scheme lost, ∑ j ∈ Finset.range scheme.dataNum, GF256.exp (p * j) * x j = 0) →
    ∀ j, x j = 0

/-- The shards that are lost. -/
def lostList : List ℕ := (List.range (totalBlocks scheme)).filter (· ∈ lost)

/-- The shards that decoding reads. -/
def survivors : List ℕ := surviving (lostList scheme lost) scheme.dataNum (totalBlocks scheme)

theorem survivors_eq_take :
    survivors scheme lost = ((range (totalBlocks scheme)).filter (· ∉ lost)).take scheme.dataNum := by
  rw [survivors, surviving]
  congr 1
  apply filter_congr
  intro i hi
  simp [lostList, mem_range.1 hi]

theorem survivors_eq : survivors scheme lost = (range scheme.dataNum).filter (· ∉ lost) ++
      (usedParity scheme lost).map (scheme.dataNum + ·) := by
  have hlength : scheme.dataNum - ((range scheme.dataNum).filter (· ∉ lost)).length =
      (lostData scheme lost).length := by
    have := length_eq_length_filter_add (l := range scheme.dataNum) (fun j => decide (j ∈ lost))
    simp only [length_range, ← decide_not] at this
    rw [lostData]
    omega
  have hle : ((range scheme.dataNum).filter (· ∉ lost)).length ≤ scheme.dataNum :=
    (length_filter_le _ _).trans (length_range).le
  rw [survivors_eq_take, totalBlocks, range_add, filter_append,
    take_append, take_of_length_le hle, hlength, filter_map, ← map_take]
  rfl

theorem length_lostList_le : (lostList scheme lost).length ≤ lost.card := by
  have hnodup : (lostList scheme lost).Nodup := nodup_range.filter _
  rw [← toFinset_card_of_nodup hnodup]
  apply Finset.card_le_card
  intro i hi
  simpa using (mem_filter.1 (mem_toFinset.1 hi)).2

variable {scheme lost}

theorem length_survivors (hlost : lost.card ≤ scheme.codeNum) :
    (survivors scheme lost).length = scheme.dataNum := by
  have hsplit := length_eq_length_filter_add (l := range (totalBlocks scheme))
    (fun j => decide (j ∈ lost))
  simp only [length_range, ← decide_not] at hsplit
  have hle := length_lostList_le scheme lost
  rw [lostList] at hle
  rw [survivors_eq_take, length_take, Nat.min_eq_left]
  rw [totalBlocks] at *
  omega

theorem lt_of_mem_survivors (hi : i ∈ survivors scheme lost) : i < totalBlocks scheme ∧ i ∉ lost := by
  rw [survivors_eq_take] at hi
  have hmem := mem_filter.1 (mem_of_mem_take hi)
  exact ⟨mem_range.1 hmem.1, by simpa using hmem.2⟩

theorem Recoverable.eq_zero (h : Recoverable scheme lost) {x : ℕ → GF256}
    (hx : ∀ j, scheme.dataNum ≤ j → x j = 0)
    (hzero : ∀ i ∈ survivors scheme lost, ∑ j ∈ Finset.range scheme.dataNum,
      generator scheme.dataNum i j * x j = 0)
    (j : ℕ) : x j = 0 := by
  rw [survivors_eq] at hzero
  refine h x ?_ ?_ j
  · intro i hi
    by_cases hlt : i < scheme.dataNum
    · -- a data shard that survives shows its own byte
      have hkept : i ∈ (range scheme.dataNum).filter (· ∉ lost) := by
        simpa [lostData, hlt] using hi
      have hsum := hzero i (mem_append_left _ hkept)
      exact (codeword_data hlt (fun j _ => x j) 0).symm.trans hsum
    · exact hx i (Nat.le_of_not_lt hlt)
  · intro p hp
    have hsum := hzero (scheme.dataNum + p) (mem_append_right _ (mem_map_of_mem hp))
    simpa [generator] using hsum

end Rows

/-! ## The lost rows -/

theorem foldl_add_range (n : ℕ) (f : ℕ → GF256) :
    (range n).foldl (fun s j => s + f j) 0 = ∑ j ∈ Finset.range n, f j := by
  induction n with
  | zero => rfl
  | succ n ih => rw [range_succ, foldl_append, ih, Finset.sum_range_succ]; rfl

variable {scheme : EcScheme} {lost : Finset ℕ}

section Recover

variable {encodeMatrix : ℕ → GF256}

/-- The buffer of the generator matrix. -/
def Generates (scheme : EcScheme) (encodeMatrix : ℕ → GF256) : Prop :=
  ∀ i < totalBlocks scheme, ∀ j < scheme.dataNum,
    encodeMatrix (i * scheme.dataNum + j) = generator scheme.dataNum i j

/-- The matrix that decoding inverts. -/
def survivorMatrix (scheme : EcScheme) (lost : Finset ℕ) (encodeMatrix : ℕ → GF256) :
    Matrix (Fin scheme.dataNum) (Fin scheme.dataNum) GF256 :=
  square scheme.dataNum (survivingRows encodeMatrix (survivors scheme lost) scheme.dataNum)

theorem survivorMatrix_mulVec (hmatrix : Generates scheme encodeMatrix) {r : Fin scheme.dataNum}
    (hi : (survivors scheme lost)[r.1]? = some i) (v : ℕ → GF256) :
    (survivorMatrix scheme lost encodeMatrix *ᵥ fun c => v c) r =
      ∑ j ∈ Finset.range scheme.dataNum, generator scheme.dataNum i j * v j := by
  have htotal := (lt_of_mem_survivors (mem_of_getElem? hi)).1
  rw [Matrix.mulVec, dotProduct, Finset.sum_range]
  apply Finset.sum_congr rfl
  intro c _
  have hentry : survivorMatrix scheme lost encodeMatrix r c = generator scheme.dataNum i c := by
    rw [← hmatrix i htotal c c.2]
    simp only [survivorMatrix, square, Matrix.of_apply, survivingRows, row_of_flat c.2,
      Nat.mul_add_mod_of_lt c.2, hi]
  rw [hentry]

theorem Recoverable.isUnit (h : Recoverable scheme lost) (hlost : lost.card ≤ scheme.codeNum)
    (hmatrix : Generates scheme encodeMatrix) : IsUnit (survivorMatrix scheme lost encodeMatrix) := by
  rw [← Matrix.mulVec_injective_iff_isUnit]
  intro u v huv
  have hker : survivorMatrix scheme lost encodeMatrix *ᵥ (u - v) = 0 := by
    rw [Matrix.mulVec_sub, huv, sub_self]
  -- the difference of the two as data
  let x : ℕ → GF256 := fun j => if hj : j < scheme.dataNum then (u - v) ⟨j, hj⟩ else 0
  have hx : (fun c : Fin scheme.dataNum => x c) = u - v := by
    funext c
    exact dif_pos c.2
  have hzero : ∀ j, x j = 0 := by
    apply h.eq_zero
    · intro j hj
      exact dif_neg (Nat.not_lt.2 hj)
    · intro i hi
      obtain ⟨r, hr, rfl⟩ := getElem_of_mem hi
      have hrow := survivorMatrix_mulVec hmatrix (r := ⟨r, length_survivors hlost ▸ hr⟩)
        (getElem?_eq_getElem hr) x
      rw [← hrow, hx, hker]
      rfl
  apply sub_eq_zero.1
  rw [← hx]
  funext c
  exact hzero c

theorem recoverable_of_isUnit (hlost : lost.card ≤ scheme.codeNum)
    (hmatrix : Generates scheme encodeMatrix)
    (h : IsUnit (survivorMatrix scheme lost encodeMatrix)) : Recoverable scheme lost := by
  intro x hx hparity
  have hker : survivorMatrix scheme lost encodeMatrix *ᵥ (fun c => x c) = 0 := by
    funext r
    have hr : r.1 < (survivors scheme lost).length := r.2.trans_eq (length_survivors hlost).symm
    obtain ⟨i, hi⟩ : ∃ i, (survivors scheme lost)[r.1]? = some i := ⟨_, getElem?_eq_getElem hr⟩
    rw [survivorMatrix_mulVec hmatrix hi]
    have hmem := mem_of_getElem? hi
    rw [survivors_eq] at hmem
    obtain hdata | hpar := mem_append.1 hmem
    · obtain ⟨hlt, hkept⟩ := mem_filter.1 hdata
      refine (codeword_data (mem_range.1 hlt) (fun j _ => x j) 0).trans (hx _ fun hin => ?_)
      simp [(mem_filter.1 hin).2] at hkept
    · obtain ⟨p, hp, rfl⟩ := mem_map.1 hpar
      simpa [generator] using hparity p hp
  have hzero := Matrix.mulVec_injective_iff_isUnit.2 h (hker.trans (Matrix.mulVec_zero _).symm)
  intro j
  by_cases hj : j < scheme.dataNum
  · exact congrFun hzero ⟨j, hj⟩
  · exact hx j fun hmem => hj (mem_range.1 (mem_filter.1 hmem).1)

theorem decodeRow_eq (hmatrix : Generates scheme encodeMatrix) (gInv : ℕ → GF256)
    (hi : i < totalBlocks scheme) (c : ℕ) :
    decodeRow encodeMatrix gInv scheme.dataNum i c =
      ∑ j ∈ Finset.range scheme.dataNum, generator scheme.dataNum i j *
        gInv (j * scheme.dataNum + c) := by
  rw [decodeRow]
  split_ifs with hdata
  · exact (codeword_data hdata (fun j _ => gInv (j * scheme.dataNum + c)) 0).symm
  · rw [foldl_add_range]
    apply Finset.sum_congr rfl
    intro j hj
    rw [gfMul_eq, hmatrix i hi j (Finset.mem_range.1 hj)]

/-- **A lost shard** is its decode row applied to the survivors. -/
theorem decodeRow_sum (inverter : Inverter) (h : Recoverable scheme lost)
    (hlost : lost.card ≤ scheme.codeNum)
    (hmatrix : Generates scheme encodeMatrix) (hi : i < totalBlocks scheme)
    (x : ℕ → ℕ → GF256) (t : ℕ) :
    ∑ c ∈ Finset.range scheme.dataNum, decodeRow encodeMatrix (inverter.invert scheme.dataNum
        (survivingRows encodeMatrix (survivors scheme lost) scheme.dataNum)) scheme.dataNum i c *
      codeword scheme.dataNum x ((survivors scheme lost).getD c 0) t =
        codeword scheme.dataNum x i t := by
  let g := survivorMatrix scheme lost encodeMatrix
  let gInv := inverter.invert scheme.dataNum
    (survivingRows encodeMatrix (survivors scheme lost) scheme.dataNum)
  let row : Fin scheme.dataNum → GF256 := fun j => generator scheme.dataNum i j
  let v : Fin scheme.dataNum → GF256 := fun j => x j t
  have hunit : IsUnit g := h.isUnit hlost hmatrix
  have hinv : square scheme.dataNum gInv = g⁻¹ := inverter.invert_eq _ _ hunit
  have hrow : ∀ c : Fin scheme.dataNum, decodeRow encodeMatrix gInv scheme.dataNum i c =
    (row ᵥ* g⁻¹) c := by
    intro c
    rw [decodeRow_eq hmatrix gInv hi, Finset.sum_range, ← hinv]
    rfl
  have hread : ∀ c : Fin scheme.dataNum,
      codeword scheme.dataNum x ((survivors scheme lost).getD c 0) t = (g *ᵥ v) c := by
    intro c
    have hc : c.1 < (survivors scheme lost).length := by
      rw [length_survivors hlost]
      exact c.2
    rw [getD_eq_getElem?_getD, getElem?_eq_getElem hc, Option.getD_some]
    exact (survivorMatrix_mulVec hmatrix (getElem?_eq_getElem hc) fun j => x j t).symm
  calc _ = ∑ c : Fin scheme.dataNum, (row ᵥ* g⁻¹) c * (g *ᵥ v) c := by
        rw [Finset.sum_range]
        exact Finset.sum_congr rfl fun c _ => by rw [← hrow, ← hread]
    _ = row ⬝ᵥ (g⁻¹ *ᵥ (g *ᵥ v)) := (Matrix.dotProduct_mulVec row g⁻¹ (g *ᵥ v)).symm
    _ = row ⬝ᵥ v := by
        rw [Matrix.mulVec_mulVec, Matrix.nonsing_inv_mul g ((Matrix.isUnit_iff_isUnit_det g).1 hunit),
          Matrix.one_mulVec]
    _ = codeword scheme.dataNum x i t := by rw [codeword, Finset.sum_range]; rfl

end Recover

/-! ## Decoding -/

section Decode

theorem exists_survivor (hpos : 0 < scheme.dataNum) (hlost : lost.card ≤ scheme.codeNum) :
    ∃ i < totalBlocks scheme, i ∉ lost := by
  have hlength := length_survivors hlost
  obtain ⟨i, hi⟩ := exists_mem_of_length_pos (hlength ▸ hpos)
  exact ⟨i, lt_of_mem_survivors hi⟩

theorem mem_lostList : i ∈ lostList scheme lost ↔ i < totalBlocks scheme ∧ i ∈ lost := by
  simp [lostList]

/-- What `gf_invert_matrix` leaves for the rows of the survivors. -/
def inverted (inverter : Inverter) (scheme : EcScheme) (lost : Finset ℕ) : ℕ → GF256 :=
  inverter.invert scheme.dataNum (survivingRows (gfGenRsMatrix (totalBlocks scheme) scheme.dataNum)
    (survivors scheme lost) scheme.dataNum)

/-- The bytes that decoding gives for shards of bytes `f`. -/
def decodedByte (inverter : Inverter) (scheme : EcScheme) (lost : Finset ℕ) (size : ℕ)
    (f : ℕ → ℕ → GF256) (i t : ℕ) : GF256 :=
  if i ∉ lost then f i t
  else if Coded size t then
    ∑ c ∈ Finset.range scheme.dataNum,
      decodeRow (gfGenRsMatrix (totalBlocks scheme) scheme.dataNum) (inverted inverter scheme lost)
        scheme.dataNum i c * f ((survivors scheme lost).getD c 0) t
  else 0

theorem ecEncodeData_lost (size : ℕ) (inverter : Inverter) (hlost : lost.card ≤ scheme.codeNum)
    (f : ℕ → ℕ → GF256) {bufs : List (List GF256)}
    (hbufs : bufs = table (totalBlocks scheme) size fun i t => if i ∈ lost then 0 else f i t) :
    ecEncodeData (asI32 size) scheme.dataNum (lostList scheme lost).length
        (decodeMatrix (gfGenRsMatrix (totalBlocks scheme) scheme.dataNum)
          (inverted inverter scheme lost) (lostList scheme lost) scheme.dataNum)
        ((survivors scheme lost).map fun i => bufs.getD i [])
        ((lostList scheme lost).map fun i => bufs.getD i []) =
      (lostList scheme lost).map fun i =>
        (range size).map (decodedByte inverter scheme lost size f i) := by
  have hout : (lostList scheme lost).map (fun i => bufs.getD i []) =
      table (lostList scheme lost).length size fun _ _ => 0 := by
    apply ext_getElem
    · simp
    · intro l hl _
      obtain ⟨hi, hgone⟩ := mem_lostList.1 (getElem_mem (length_map _ ▸ hl))
      simp only [getElem_map, hbufs, getD_table hi, if_pos hgone]
      simp [table]
  have hin : ∀ c < scheme.dataNum, ∀ t < size,
      (((survivors scheme lost).map fun i => bufs.getD i []).getD c []).getD t 0 =
        f ((survivors scheme lost).getD c 0) t := by
    intro c hc t ht
    have hc' : c < (survivors scheme lost).length := by rwa [length_survivors hlost]
    obtain ⟨hi, hkept⟩ := lt_of_mem_survivors (getElem_mem hc')
    simp only [getD_eq_getElem?_getD, getElem?_map, getElem?_eq_getElem hc', Option.map_some,
      Option.getD_some]
    rw [← getD_eq_getElem?_getD, ← getD_eq_getElem?_getD, hbufs, getD_table hi, getD_map_range ht,
      if_neg hkept]
  rw [hout, ecEncodeData_table]
  apply ext_getElem
  · simp
  · intro l _ hl
    rw [length_map] at hl
    obtain ⟨_, hgone⟩ := mem_lostList.1 (getElem_mem hl)
    simp only [table, getElem_map, getElem_range]
    apply map_congr_left
    intro t ht
    rw [decodedByte, if_neg (not_not.2 hgone)]
    refine if_congr Iff.rfl (Finset.sum_congr rfl fun c hc => ?_) rfl
    have hc' := Finset.mem_range.1 hc
    rw [hin c hc' t (mem_range.1 ht)]
    simp [decodeMatrix, row_of_flat hc', Nat.mul_add_mod_of_lt hc', getElem?_eq_getElem hl]

theorem isalDecode_table (inverter : Inverter) (hlost : lost.card ≤ scheme.codeNum)
    (hpos : 0 < scheme.dataNum) (hblocks : totalBlocks scheme < 2147483648) (f : ℕ → ℕ → GF256) :
    isalDecode (eraseShards lost (table (totalBlocks scheme) size f)) inverter scheme.dataNum
        scheme.codeNum =
      table (totalBlocks scheme) size (decodedByte inverter scheme lost size f) := by
  have hcount : (lostList scheme lost).length < 2147483648 := by
    have := length_lostList_le scheme lost
    rw [totalBlocks] at hblocks
    omega
  have hdata : scheme.dataNum < 2147483648 := by
    rw [totalBlocks] at hblocks
    omega
  have htotal : asI32 ((scheme.dataNum : ℤ) + scheme.codeNum) = (totalBlocks scheme : ℕ) := by
    exact asI32_of_lt hblocks
  simp only [isalDecode, survivingSize_eraseShards size _ (exists_survivor hpos hlost),
    lostIndices_eraseShards, buffers_eraseShards, htotal, asI32_of_lt hdata]
  rw [← lostList, asI32_of_lt hcount]
  split_ifs with hnone
  · apply table_congr
    intro i hi t _
    have hkept : i ∉ lost := by
      intro hgone
      have := mem_lostList.2 ⟨hi, hgone⟩
      simp [hnone] at this
    rw [if_neg hkept, decodedByte, if_pos hkept]
  · have hout := ecEncodeData_lost size inverter hlost f rfl
    rw [inverted, survivors, totalBlocks] at hout
    rw [totalBlocks] at *
    rw [hout, writeBack_map]
    apply ext_getElem
    · simp
    · intro i hi _
      have hmem : i ∈ lostList scheme lost ↔ i ∈ lost := by
        rw [mem_lostList]
        exact and_iff_right (by simpa [totalBlocks] using hi)
      simp only [table, getElem_mapIdx, getElem_map, getElem_range, hmem]
      by_cases hgone : i ∈ lost
      · rw [if_pos hgone]
      · simp [decodedByte, hgone]

/-- **Decoding** byte by byte. -/
theorem decode_table (inverter : Inverter) (hlost : lost.card ≤ scheme.codeNum)
    (hscheme : ¬(scheme.dataNum = 0 ∨ scheme.codeNum = 0)) (hblocks : totalBlocks scheme < 2147483648)
    (f : ℕ → ℕ → GF256) :
    decode (eraseShards lost (table (totalBlocks scheme) size f)) inverter scheme =
      .ok (table (totalBlocks scheme) size (decodedByte inverter scheme lost size f)) := by
  have hle : ¬ scheme.codeNum < ((range (totalBlocks scheme)).filter (· ∈ lost)).length :=
    Nat.not_lt.2 ((length_lostList_le scheme lost).trans hlost)
  have hlength : ¬ (eraseShards lost (table (totalBlocks scheme) size f)).length ≠
    totalBlocks scheme := by
    simp [eraseShards]
  simp only [decode, if_neg hscheme, if_neg hlength, countP_eraseShards, if_neg hle]
  split_ifs with hnone
  · rw [← lostList, length_eq_zero_iff] at hnone
    rw [eraseShards_table, List.map_map]
    congr 1
    apply map_congr_left
    intro i hi
    have hkept : i ∉ lost := by
      intro hgone
      have := mem_lostList.2 ⟨mem_range.1 hi, hgone⟩
      simp [hnone] at this
    simp [hkept, decodedByte]
  · rw [isalDecode_table inverter hlost (by omega) hblocks]

end Decode

/-! ## Which losses can be recovered -/

/-- Losses are recoverable when the parity shards that decoding reads follow each other, or one data
    shard is lost. -/
theorem recoverable_of_consecutive (hdata : scheme.dataNum ≤ 255) (p₀ : ℕ)
    (h : ∀ i < (lostData scheme lost).length, p₀ + i ∈ usedParity scheme lost) :
    Recoverable scheme lost := by
  intro x hx hparity
  let D := lostData scheme lost
  have hnodup : D.Nodup := nodup_range.filter _
  have hlt : ∀ {j}, j ∈ D → j < scheme.dataNum := fun hj => mem_range.1 (mem_filter.1 hj).1
  -- the parity sums over the lost data shards alone
  have hsum : ∀ i : Fin D.length,
      ∑ c : Fin D.length, GF256.exp (p₀ * D[c.1]) * x D[c.1] * GF256.exp D[c.1] ^ i.1 = 0 := by
    intro i
    rw [Fin.sum_univ_fun_getElem D fun j => GF256.exp (p₀ * j) * x j * GF256.exp j ^ i.1,
      ← sum_toFinset _ hnodup, ← hparity (p₀ + i) (h i i.2)]
    apply Finset.sum_subset_zero_on_sdiff
    · intro j hj
      exact Finset.mem_range.2 (hlt (mem_toFinset.1 hj))
    · intro j hj
      rw [hx j (by simpa using (Finset.mem_sdiff.1 hj).2), mul_zero]
    · intro j _
      rw [Nat.add_mul, GF256.exp_add_eq_mul, GF256.exp_mul i.1]
      ring
  have hinj : Function.Injective fun c : Fin D.length => GF256.exp D[c.1] := by
    intro c c' hcc
    have hbound : ∀ c : Fin D.length, D[c.1] ∈ Set.Iio 255 :=
      fun c => (hlt (getElem_mem c.2)).trans_le hdata
    exact Fin.ext ((hnodup.getElem_inj_iff).1 (GF256.exp_injOn (hbound c) (hbound c') hcc))
  have hzero := Matrix.eq_zero_of_forall_pow_sum_mul_pow_eq_zero hinj hsum
  intro j
  by_cases hj : j ∈ D
  · obtain ⟨c, hc, rfl⟩ := getElem_of_mem hj
    have := congrFun hzero ⟨c, hc⟩
    exact (mul_eq_zero.1 this).resolve_left (GF256.exp_ne_zero _)
  · exact hx j hj

/-! ## Decoding is exact -/

/-- An inverter: the inverse of mathematics, and anything for a matrix without an inverse. -/
noncomputable def exactInverter (rest : ℕ → GF256) : Inverter where
  invert k g n :=
    haveI := Classical.propDecidable (0 < k.toNat ∧ IsUnit (square k.toNat g))
    if h : 0 < k.toNat ∧ IsUnit (square k.toNat g) then
      (square k.toNat g)⁻¹ ⟨n / k.toNat % k.toNat, Nat.mod_lt _ h.1⟩ ⟨n % k.toNat, Nat.mod_lt _ h.1⟩
    else rest n
  invert_eq k g hg := by
    ext i j
    have hrow : (i.1 * k + j) / k % k = i := by rw [row_of_flat j.2, Nat.mod_eq_of_lt i.2]
    have hpos : 0 < k := Nat.zero_lt_of_lt i.2
    have hg' : IsUnit (square (k : ℤ).toNat g) := hg
    rw [square, of_apply, dif_pos ⟨hpos, hg'⟩]
    simp [square, hrow, Nat.mod_eq_of_lt j.2]

/-- **Erasure decoding never gives other shards**, whatever `gf_invert_matrix` writes when it
    fails. -/
def DecodesRight (scheme : EcScheme) (data : List GF256) (lost : Finset ℕ) : Prop :=
  ∀ inverter shards decoded, encode scheme data = .ok shards →
    decode (eraseShards lost shards) inverter scheme = .ok decoded → decoded = shards

/-- The lost data shards are zero where isa-l computes nothing; elsewhere the losses are recoverable,
    or all data is zero. -/
def Restorable (scheme : EcScheme) (data : List GF256) (lost : Finset ℕ) : Prop :=
  (∀ d ∈ lostData scheme lost, ∀ t < shardSize scheme data, ¬ Coded (shardSize scheme data) t →
    dataByte scheme data d t = 0) ∧
  (Recoverable scheme lost ∨ ∀ j < scheme.dataNum, ∀ t < shardSize scheme data,
    Coded (shardSize scheme data) t → dataByte scheme data j t = 0)

section Exact

variable {data : List GF256} (hblocks : totalBlocks scheme < 2147483648)
  (hlost : lost.card ≤ scheme.codeNum)
include hblocks hlost

theorem decodesRight_of_restorable (h : Restorable scheme data lost) :
    DecodesRight scheme data lost := by
  intro inverter shards decoded henc hdec
  have hscheme : ¬(scheme.dataNum = 0 ∨ scheme.codeNum = 0) := by
    intro hbad
    rw [encode, if_pos hbad] at henc
    cases henc
  obtain rfl := encode_eq_table hblocks henc
  rw [decode_table inverter hlost hscheme hblocks] at hdec
  cases hdec
  apply table_congr
  intro i hi t ht
  obtain ⟨hzero, hdata⟩ := h
  rw [decodedByte]
  split_ifs with hgone hcoded
  · have hread : ∀ i, shardByte scheme.dataNum (shardSize scheme data) (dataByte scheme data) i t =
        codeword scheme.dataNum (dataByte scheme data) i t := fun i => if_pos (.inr hcoded)
    simp only [hread]
    obtain hrec | hall := hdata
    · exact decodeRow_sum inverter hrec hlost (fun i hi j hj => gfGenRsMatrix_eq hi hj) hi _ t
    · have hnone : ∀ i, codeword scheme.dataNum (dataByte scheme data) i t = 0 := fun i =>
        Finset.sum_eq_zero fun j hj => by rw [hall j (Finset.mem_range.1 hj) t ht hcoded, mul_zero]
      simp [hnone]
  · -- a data shard is zero here, a parity shard is not written
    rw [shardByte]
    split_ifs with hdata
    · have hdata := hdata.resolve_right hcoded
      have hmem : i ∈ lostData scheme lost := mem_filter.2 ⟨mem_range.2 hdata, by simpa using hgone⟩
      rw [codeword_data hdata, hzero i hmem t ht hcoded]
    · rfl
  · rfl

theorem restorable_of_decodesRight (hscheme : ¬(scheme.dataNum = 0 ∨ scheme.codeNum = 0))
    (h : DecodesRight scheme data lost) : Restorable scheme data lost := by
  have henc := if_neg hscheme ▸ encode.eq_def scheme data
  have htable := encode_eq_table hblocks henc
  have hbyte : ∀ inverter, ∀ d ∈ lostData scheme lost, ∀ t < shardSize scheme data,
      decodedByte inverter scheme lost (shardSize scheme data)
        (shardByte scheme.dataNum (shardSize scheme data) (dataByte scheme data)) d t =
      dataByte scheme data d t := by
    intro inverter d hd t ht
    have hd' := mem_range.1 (mem_filter.1 hd).1
    have heq := h inverter _ _ henc (htable ▸ decode_table inverter hlost hscheme hblocks _)
    rw [eq_of_table_eq (heq.trans htable) (hd'.trans_le (Nat.le_add_right ..)) ht, shardByte,
      if_pos (.inl hd'), codeword_data hd']
  have hgone : ∀ d ∈ lostData scheme lost, ¬ d ∉ lost := fun d hd => by
    simpa using (mem_filter.1 hd).2
  refine ⟨fun d hd t ht hcoded => ?_, or_iff_not_imp_left.2 fun hrec j hj t ht hcoded => ?_⟩
  · rw [← hbyte (exactInverter 0) d hd t ht, decodedByte, if_neg (hgone d hd), if_neg hcoded]
  -- the matrix has no inverse, so the inversion may leave anything
  have hrest : ∀ rest, inverted (exactInverter rest) scheme lost = rest := by
    intro rest
    funext n
    refine dif_neg fun hunit => hrec ?_
    exact recoverable_of_isUnit hlost (fun i hi j hj => gfGenRsMatrix_eq hi hj) hunit.2
  have hrow : ∀ rest : ℕ → GF256, ∀ d ∈ lostData scheme lost,
      ∑ c ∈ Finset.range scheme.dataNum, rest (d * scheme.dataNum + c) *
        codeword scheme.dataNum (dataByte scheme data) ((survivors scheme lost).getD c 0) t =
      dataByte scheme data d t := by
    intro rest d hd
    have hd' := mem_range.1 (mem_filter.1 hd).1
    rw [← hbyte (exactInverter rest) d hd t ht, decodedByte, if_neg (hgone d hd), if_pos hcoded]
    simp only [hrest, decodeRow, if_pos hd', shardByte, if_pos (Or.inr hcoded)]
  have hzero : ∀ d ∈ lostData scheme lost, dataByte scheme data d t = 0 := fun d hd => by
    rw [← hrow 0 d hd]
    simp
  obtain ⟨d, hd⟩ : ∃ d, d ∈ lostData scheme lost := by
    by_contra hnone
    exact hrec fun x hx _ j => hx j fun hj => hnone ⟨j, hj⟩
  by_cases hjlost : j ∈ lost
  · exact hzero j (mem_filter.2 ⟨mem_range.2 hj, by simpa using hjlost⟩)
  -- the decode row that picks the surviving shard
  have hmem : j ∈ survivors scheme lost := by
    rw [survivors_eq]
    exact mem_append_left _ (mem_filter.2 ⟨mem_range.2 hj, by simpa using hjlost⟩)
  obtain ⟨c, hc, hcj⟩ := getElem_of_mem hmem
  have hpick := hrow (Pi.single (d * scheme.dataNum + c) 1) d hd
  rw [hzero d hd, Finset.sum_eq_single c] at hpick
  · rw [Pi.single_eq_same, one_mul, getD_eq_getElem?_getD, getElem?_eq_getElem hc, Option.getD_some,
      hcj, codeword_data hj] at hpick
    exact hpick
  · intro c' _ hne
    rw [Pi.single_eq_of_ne (by omega), zero_mul]
  · intro hout
    exact absurd (Finset.mem_range.2 (length_survivors hlost ▸ hc)) hout

end Exact

/-- **Decoding never gives other shards** exactly if the losses can be restored. -/
theorem decodesRight_iff (data : List GF256) (hscheme : ¬(scheme.dataNum = 0 ∨ scheme.codeNum = 0))
    (hblocks : totalBlocks scheme < 2147483648) (hlost : lost.card ≤ scheme.codeNum) :
    DecodesRight scheme data lost ↔ Restorable scheme data lost :=
  ⟨restorable_of_decodesRight hblocks hlost hscheme, decodesRight_of_restorable hblocks hlost⟩

/-- Three data and two parity shards. -/
def threeTwo : EcScheme := ⟨3, 2⟩

/-- Five bytes for `threeTwo`. -/
def fiveBytes : List GF256 := [1, 0, .ofNat 7, .ofNat 200, 1]

/-- A data and a parity shard are lost. -/
theorem decodesRight_two_lost : DecodesRight threeTwo fiveBytes {1, 3} := by
  have hrec : Recoverable threeTwo {1, 3} := recoverable_of_consecutive (by decide) 1 (by decide)
  refine (decodesRight_iff fiveBytes (by decide) (by decide) (by decide)).2 ⟨?_, .inl hrec⟩
  intro d _ t ht hcoded
  exact absurd (coded_of_lt (by decide) ht) hcoded

/-! ## Two contents with the same survivors -/

theorem exists_decode_eq (blocks : List (Option (List GF256))) (inverter : Inverter)
    (scheme : EcScheme)
    (hscheme : ¬(scheme.dataNum = 0 ∨ scheme.codeNum = 0))
    (hlength : blocks.length = totalBlocks scheme)
    (hlost : blocks.countP Option.isNone ≤ scheme.codeNum) :
    ∃ shards, decode blocks inverter scheme = .ok shards := by
  rw [decode, if_neg hscheme, if_neg (not_not.2 hlength)]
  rw [if_neg (Nat.not_lt.2 hlost)]
  split_ifs
  · exact ⟨_, rfl⟩
  · exact ⟨_, rfl⟩

/-- Six data and five parity shards. -/
def sixFive : EcScheme := ⟨6, 5⟩

/-- The shards of `sixFive`. -/
def sixFiveShards (data : List GF256) : List (List GF256) :=
  splitShards sixFive data ++ isalEncode (splitShards sixFive data) 6 5

/-- The content of zeros. -/
def sixZeros : List GF256 := List.replicate 6 0

/-- A content with the same survivors. -/
def sixBytes : List GF256 := [.ofNat 214, 0, 0, .ofNat 215, 0, 1]

/-- **Wrong data**: one of two contents of a 6 + 5 scheme is decoded to other shards. -/
theorem decoded_wrong : ∃ lost : Finset ℕ, lost.card ≤ sixFive.codeNum ∧ ∀ inverter : Inverter,
      ∃ data ∈ [sixZeros, sixBytes], ∃ shards decoded, encode sixFive data = .ok shards ∧
        decode (eraseShards lost shards) inverter sixFive = .ok decoded ∧ decoded ≠ shards := by
  have hsame : eraseShards {0, 3, 5, 8, 9} (sixFiveShards sixZeros) =
      eraseShards {0, 3, 5, 8, 9} (sixFiveShards sixBytes) := by decide +kernel
  have hdiffer : sixFiveShards sixZeros ≠ sixFiveShards sixBytes := by decide +kernel
  refine ⟨{0, 3, 5, 8, 9}, by decide, ?_⟩
  intro inverter
  obtain ⟨decoded, hdecoded⟩ :=
    exists_decode_eq (eraseShards {0, 3, 5, 8, 9} (sixFiveShards sixZeros))
    inverter sixFive (by decide) (by decide +kernel) (by decide +kernel)
  by_cases hzeros : decoded = sixFiveShards sixZeros
  · refine ⟨sixBytes, by simp, sixFiveShards sixBytes, decoded, rfl, hsame ▸ hdecoded, ?_⟩
    rwa [hzeros]
  · exact ⟨sixZeros, by simp, sixFiveShards sixZeros, decoded, rfl, hdecoded, hzeros⟩

end CrowDB.Ec
