/-
  Erasure coding (`crowdb-common/rust/src/ec.rs`, `ec_isal.rs`).

  Bytes are elements of the field of 256 elements.  `encode` cuts the data into shards of one size and
  appends the parity; `decode` takes the first `dataNum` shards that survive, inverts their rows of
  the generator matrix and multiplies.

  Of isa-l, `gfGenRsMatrix` and `ecEncodeData` are written out, with the `i32` dimensions that the
  binding passes.  `gf_invert_matrix` is any routine that inverts the matrices that have an inverse
  (`Inverter`): for the others its output is open, and the binding has no result code to look at.
-/
import CrowDB.Lib.GF256
import Mathlib.LinearAlgebra.Matrix.NonsingularInverse

namespace CrowDB

/-- The numbers of data and parity shards. -/
structure EcScheme where
  dataNum : ℕ
  codeNum : ℕ
deriving DecidableEq

end CrowDB

namespace CrowDB.Ec

open Lib List

/-- The errors of encoding and decoding. -/
inductive EcError where
  | invalidScheme (dataNum codeNum : ℕ)
  | tooManyLost (lost codeNum : ℕ)
  | backend (text : String)
deriving DecidableEq

/-- The cast to `i32`, which wraps. -/
def asI32 (n : ℤ) : ℤ := n.bmod 4294967296

theorem asI32_of_lt {n : ℕ} (hn : n < 2147483648) : asI32 n = n := by
  rw [asI32, Int.bmod_def]
  omega

/-! ## The field tables -/

/-- The tables of exponents and logarithms. -/
structure GfTables where
  exp : List GF256
  log : List ℕ

/-- One round of the loop, on the tables and the `u16` that holds the next power. -/
def tableRound (s : GfTables × ℕ) (i : ℕ) : GfTables × ℕ :=
  let x := (s.2 <<< 1) % 65536
  (⟨s.1.exp.set i (.ofNat s.2), s.1.log.set s.2 i⟩, if x &&& 0x100 ≠ 0 then x ^^^ 0x11d else x)

/-- The tables before the loop. -/
def emptyTables : GfTables := ⟨List.replicate 256 0, List.replicate 256 0⟩

/-- The first rounds of the loop. -/
def tableRounds (n : ℕ) : GfTables × ℕ := (List.range n).foldl tableRound (emptyTables, 1)

/-- The tables, with the last exponent wrapped around. -/
def buildGfTables : GfTables :=
  let t := (tableRounds 255).1
  { t with exp := t.exp.set 255 (t.exp.getD 0 0) }

/-- The product of two bytes through the tables. -/
def gfMul (a b : GF256) (t : GfTables) : GF256 :=
  if a = 0 ∨ b = 0 then 0
  else t.exp.getD ((t.log.getD a.toNat 0 + t.log.getD b.toNat 0) % 255) 0

/-! ## isa-l -/

/-- A `k × k` matrix stored row by row. -/
def square (k : ℕ) (a : ℕ → GF256) : Matrix (Fin k) (Fin k) GF256 := .of fun i j => a (i * k + j)

/-- `gf_gen_rs_matrix`: the identity over rows of powers of two, stored row by row. -/
def gfGenRsMatrix (m k : ℤ) (n : ℕ) : GF256 :=
  let i := n / k.toNat
  let j := n % k.toNat
  if k ≤ 0 ∨ m ≤ i then 0
  else if i < k.toNat then if i = j then 1 else 0
  else GF256.exp ((i - k.toNat) * j)

/-- `ec_encode_data` with the tables of `a`: `len` bytes of `rows` outputs. -/
def ecEncodeData (len k rows : ℤ) (a : ℕ → GF256) (data coding : List (List GF256)) :
    List (List GF256) :=
  coding.mapIdx fun l dest =>
    if (l : ℤ) < rows then dest.mapIdx fun t b =>
      if (t : ℤ) < len then
        ∑ j ∈ Finset.range k.toNat, a (l * k.toNat + j) * (data.getD j []).getD t 0
      else b
    else dest

/-- `gf_invert_matrix`: what it writes to its output. -/
structure Inverter where
  invert : ℤ → (ℕ → GF256) → ℕ → GF256
  invert_eq (k : ℕ) (g : ℕ → GF256) (hg : IsUnit (square k g)) :
    square k (invert k g) = (square k g)⁻¹

/-! ## Encoding -/

section Encode

variable (scheme : EcScheme)

/-- The number of all shards. -/
def totalBlocks : ℕ := scheme.dataNum + scheme.codeNum

variable (data : List GF256)

/-- The size of a shard, rounded up. -/
def shardSize : ℕ := (data.length + scheme.dataNum - 1) / scheme.dataNum

/-- The data cut into shards, the last ones filled up with zeros. -/
def splitShards : List (List GF256) :=
  let size := shardSize scheme data
  (List.range scheme.dataNum).map fun i =>
    let start := i * size
    let stop := min (start + size) data.length
    if start < stop then (data.take stop).drop start ++ List.replicate (size - (stop - start)) 0
    else List.replicate size 0

/-- The parity shards. -/
def isalEncode (data : List (List GF256)) (dataNum codeNum : ℕ) : List (List GF256) :=
  let size := (data.head?.map List.length).getD 0
  let parity := List.replicate codeNum (List.replicate size 0)
  let k := asI32 dataNum
  let rows := asI32 codeNum
  let m := asI32 (k + rows)
  let matrix := gfGenRsMatrix m k
  ecEncodeData (asI32 size) k rows (fun n => matrix (dataNum * dataNum + n)) data parity

/-- The data shards and the parity shards. -/
def encode : Except EcError (List (List GF256)) :=
  if scheme.dataNum = 0 ∨ scheme.codeNum = 0 then
    .error (.invalidScheme scheme.dataNum scheme.codeNum)
  else
    let shards := splitShards scheme data
    .ok (shards ++ isalEncode shards scheme.dataNum scheme.codeNum)

end Encode

/-! ## Decoding -/

section Decode

variable (shards : List (Option (List GF256)))

/-- The size of the largest shard that survives. -/
def survivingSize : ℕ := ((shards.filterMap id).map List.length).max?.getD 0

/-- The indices of the lost shards. -/
def lostIndices : List ℕ := (List.range shards.length).filter fun i => shards[i]? = some none

/-- The shards that survive, resized to one size, and zeros for the others. -/
def buffers (size : ℕ) : List (List GF256) := shards.map fun
    | some b => b.takeD size 0
    | none => List.replicate size 0

/-- The first shards that survive, as many as there are data shards. -/
def surviving (lost : List ℕ) (dataNum total : ℕ) : List ℕ :=
  ((List.range total).filter fun i => i ∉ lost).take dataNum

/-- Their rows of the generator matrix, stored row by row. -/
def survivingRows (encodeMatrix : ℕ → GF256) (surviving : List ℕ) (dataNum : ℕ) (n : ℕ) : GF256 :=
  match surviving[n / dataNum]? with
  | some src => encodeMatrix (src * dataNum + n % dataNum)
  | none => 0

variable (encodeMatrix gInv : ℕ → GF256)

/-- The row that gives a lost shard from the surviving ones. -/
def decodeRow (dataNum lostIdx col : ℕ) : GF256 :=
  if lostIdx < dataNum then gInv (lostIdx * dataNum + col)
  else (List.range dataNum).foldl (fun s j =>
    s + gfMul (encodeMatrix (lostIdx * dataNum + j)) (gInv (j * dataNum + col)) buildGfTables) 0

/-- The rows of the lost shards, stored row by row. -/
def decodeMatrix (lost : List ℕ) (dataNum : ℕ) (n : ℕ) : GF256 :=
  match lost[n / dataNum]? with
  | some lostIdx => decodeRow encodeMatrix gInv dataNum lostIdx (n % dataNum)
  | none => 0

/-- The output pointers of the last call are the buffers of the lost shards. -/
def writeBack (buffers : List (List GF256)) (lost : List ℕ) (out : List (List GF256)) :
    List (List GF256) :=
  (lost.zip out).foldl (fun bs p => bs.set p.1 p.2) buffers

/-- All shards, the lost ones computed from the surviving ones. -/
def isalDecode (inverter : Inverter) (dataNum codeNum : ℕ) : List (List GF256) :=
  let size := survivingSize shards
  let lost := lostIndices shards
  let buffers := buffers shards size
  if lost = [] then buffers
  else
    let k := asI32 dataNum
    let encodeMatrix := gfGenRsMatrix (asI32 (dataNum + codeNum)) k
    let surviving := surviving lost dataNum (dataNum + codeNum)
    let gInv := inverter.invert k (survivingRows encodeMatrix surviving dataNum)
    let input := surviving.map fun i => buffers.getD i []
    let output := lost.map fun i => buffers.getD i []
    writeBack buffers lost (ecEncodeData (asI32 size) k (asI32 lost.length)
      (decodeMatrix encodeMatrix gInv lost dataNum) input output)

/-- The shards, if not too many of them are lost. -/
def decode (inverter : Inverter) (scheme : EcScheme) : Except EcError (List (List GF256)) :=
  if scheme.dataNum = 0 ∨ scheme.codeNum = 0 then
    .error (.invalidScheme scheme.dataNum scheme.codeNum)
  else if shards.length ≠ totalBlocks scheme then
    .error (.backend s!"expected {totalBlocks scheme} blocks, got {shards.length}")
  else
    let lost := shards.countP Option.isNone
    if scheme.codeNum < lost then .error (.tooManyLost lost scheme.codeNum)
    else if lost = 0 then .ok (shards.map fun b => b.getD [])
    else .ok (isalDecode shards inverter scheme.dataNum scheme.codeNum)

end Decode

/-! ## The tables give the product -/

theorem shift_xor_eq : ∀ n < 256, (let x := (n <<< 1) % 65536
      if x &&& 0x100 ≠ 0 then x ^^^ 0x11d else x) = (GF256.xtime (.ofNat n)).toNat := by
  decide +kernel

/-- The tables after the first rounds. -/
structure TablesUpTo (i : ℕ) (s : GfTables × ℕ) : Prop where
  exp_length : s.1.exp.length = 256
  log_length : s.1.log.length = 256
  next : s.2 = (GF256.exp i).toNat
  exp_eq : ∀ j < i, s.1.exp.getD j 0 = GF256.exp j
  log_eq : ∀ j < i, s.1.log.getD (GF256.exp j).toNat 0 = j

theorem tablesUpTo_succ {i : ℕ} (hi : i < 255) {s : GfTables × ℕ} (h : TablesUpTo i s) :
    TablesUpTo (i + 1) (tableRound s i) where
  exp_length := (length_set ..).trans h.exp_length
  log_length := (length_set ..).trans h.log_length
  next := by
    have hnext := shift_xor_eq s.2 (h.next ▸ BitVec.isLt _)
    rw [h.next, GF256.ofNat_toNat] at hnext
    rw [GF256.exp, Function.iterate_succ_apply', ← GF256.exp, ← hnext, ← h.next]
    rfl
  exp_eq := by
    intro j hj
    rcases Nat.lt_succ_iff_lt_or_eq.1 hj with hlt | rfl
    · refine Eq.trans ?_ (h.exp_eq j hlt)
      simp [tableRound, getD_eq_getElem?_getD, getElem?_set_ne (Nat.ne_of_gt hlt)]
    · have hlength : j < s.1.exp.length := h.exp_length ▸ hi.trans (by decide)
      simp [tableRound, getD_eq_getElem?_getD, getElem?_set_self hlength, h.next, GF256.ofNat_toNat,
        Option.getD_some]
  log_eq := by
    intro j hj
    rcases Nat.lt_succ_iff_lt_or_eq.1 hj with hlt | rfl
    · -- an earlier power is another byte, so its entry stays
      have hne : s.2 ≠ (GF256.exp j).toNat := by
        intro heq
        have hexp : GF256.exp i = GF256.exp j := BitVec.eq_of_toNat_eq (h.next.symm.trans heq)
        have := GF256.exp_injOn (Set.mem_Iio.2 hi) (Set.mem_Iio.2 (hlt.trans hi)) hexp
        omega
      refine Eq.trans ?_ (h.log_eq j hlt)
      simp [tableRound, getD_eq_getElem?_getD, getElem?_set_ne hne]
    · have hlength : (GF256.exp j).toNat < s.1.log.length := h.log_length ▸ BitVec.isLt _
      simp [tableRound, getD_eq_getElem?_getD, h.next, getElem?_set_self hlength, Option.getD_some]

theorem tablesUpTo_tableRounds {n : ℕ} (hn : n ≤ 255) : TablesUpTo n (tableRounds n) := by
  induction n with
  | zero =>
    exact { exp_length := length_replicate, log_length := length_replicate, next := rfl,
            exp_eq := fun j hj => absurd hj j.not_lt_zero, log_eq :=
              fun j hj => absurd hj j.not_lt_zero }
  | succ n ih =>
    rw [tableRounds, range_succ, foldl_append]
    exact tablesUpTo_succ hn (ih (Nat.le_of_succ_le hn))

theorem buildGfTables_log {c : GF256} (hc : c ≠ 0) :
    buildGfTables.log.getD c.toNat 0 = GF256.log c := by
  have h := (tablesUpTo_tableRounds le_rfl).log_eq (GF256.log c) (GF256.log_lt hc)
  rw [GF256.exp_log hc] at h
  rw [buildGfTables, h]

theorem buildGfTables_exp {l : ℕ} (hl : l < 255) : buildGfTables.exp.getD l 0 = GF256.exp l := by
  rw [← (tablesUpTo_tableRounds le_rfl).exp_eq l hl]
  simp [buildGfTables, getD_eq_getElem?_getD, getElem?_set_ne (Nat.ne_of_gt hl)]

/-- **The tables are right.**  `gf_mul` is the product of the field. -/
theorem gfMul_eq (a b : GF256) : gfMul a b buildGfTables = a * b := by
  rw [gfMul, GF256.mul_def]
  split_ifs with hzero
  · rfl
  · rw [not_or] at hzero
    rw [buildGfTables_log hzero.1, buildGfTables_log hzero.2,
      buildGfTables_exp (Nat.mod_lt _ (by decide))]

end CrowDB.Ec
