/-
  The field of 256 elements on bytes, with the polynomial 0x11d.

  A byte is a polynomial over the field of two elements, modulo `x^8 + x^4 + x^3 + x^2 + 1`; addition
  is exclusive or, and `xtime` multiplies by `x`.  The order of `x` is 255 (`minimalPeriod_xtime`), so
  its powers are all bytes other than zero (`exp_log`).  The product adds logarithms; it is linear
  because it iterates `xtime` (`mul_eq_iterate`).
-/
import Mathlib.Algebra.Field.Basic
import Mathlib.Data.List.Iterate
import Mathlib.Dynamics.PeriodicPts.Lemmas
import Mathlib.NumberTheory.Divisors

namespace CrowDB.Lib

open List Function

/-- Bytes as field elements. -/
def GF256 : Type := BitVec 8

namespace GF256

instance : DecidableEq GF256 := inferInstanceAs (DecidableEq (BitVec 8))

variable (n : ℕ)

/-- The byte of a number. -/
def ofNat : GF256 := BitVec.ofNat 8 n

/-- The number of a byte. -/
def toNat (a : GF256) : ℕ := BitVec.toNat a

theorem ofNat_toNat (a : GF256) : ofNat a.toNat = a :=
  (BitVec.ofNat_toNat 8 a).trans (BitVec.setWidth_eq a)

theorem toNat_ofNat {n : ℕ} (hn : n < 256) : (ofNat n).toNat = n :=
  (BitVec.toNat_ofNat n 8).trans (Nat.mod_eq_of_lt hn)

instance : Zero GF256 := ⟨ofNat 0⟩

instance : One GF256 := ⟨ofNat 1⟩

instance : Add GF256 := ⟨BitVec.xor⟩

instance : Neg GF256 := ⟨id⟩

/-- Multiplication by `x`: a shift, reduced when the highest bit falls out. -/
def shiftReduce (a : BitVec 8) : BitVec 8 := (a <<< 1) ^^^ (if a.msb then 0x1d#8 else 0#8)

/-- The product with `x`. -/
def xtime (a : GF256) : GF256 := shiftReduce a

/-- The powers of `x`. -/
def exp : GF256 := xtime^[n] 1

/-- The powers of `x`, up to the first that is one again. -/
def powers : List GF256 := List.iterate xtime 1 255

/-- The logarithm of a byte other than zero. -/
def log (a : GF256) : ℕ := powers.idxOf a

instance : Mul GF256 := ⟨fun a b => if a = 0 ∨ b = 0 then 0 else exp ((log a + log b) % 255)⟩

instance : Inv GF256 := ⟨fun a => if a = 0 then 0 else exp (255 - log a)⟩

/-! ## Addition -/

instance : AddCommGroup GF256 where
  add_assoc := BitVec.xor_assoc
  zero_add := fun a => BitVec.zero_xor
  add_zero := fun a => BitVec.xor_zero
  add_comm := BitVec.xor_comm
  neg_add_cancel := fun a => BitVec.xor_self
  nsmul := nsmulRec
  zsmul := zsmulRec

theorem shiftReduce_xor (a b : BitVec 8) :
    shiftReduce (a ^^^ b) = shiftReduce a ^^^ shiftReduce b := by
  rw [shiftReduce, shiftReduce, shiftReduce, BitVec.shiftLeft_xor_distrib, BitVec.msb_xor]
  have hswap : ∀ x y u v : BitVec 8, (x ^^^ y) ^^^ (u ^^^ v) = (x ^^^ u) ^^^ (y ^^^ v) :=
    fun x y u v => by ac_rfl
  rw [hswap (a <<< 1)]
  congr 1
  cases a.msb <;> cases b.msb <;> decide

theorem xtime_add (a b : GF256) : xtime (a + b) = xtime a + xtime b := shiftReduce_xor a b

theorem xtime_zero : xtime 0 = 0 := by decide

theorem iterate_xtime_add (a b : GF256) : xtime^[n] (a + b) = xtime^[n] a + xtime^[n] b := by
  induction n generalizing a b with
  | zero => rfl
  | succ n ih => rw [iterate_succ_apply, xtime_add, ih]; rfl

theorem iterate_xtime_zero : xtime^[n] 0 = 0 := iterate_fixed xtime_zero n

/-! ## The powers of `x` -/

theorem eq_zero_of_xtime : ∀ n < 256, xtime (ofNat n) = 0 → ofNat n = 0 := by decide +kernel

theorem xtime_injective : Injective xtime := by
  intro a b hab
  have hsum : xtime (a + b) = 0 := by
    rw [xtime_add, hab]
    exact neg_add_cancel (xtime b)
  have hzero : a + b = 0 := by
    have hkernel := eq_zero_of_xtime (a + b).toNat (BitVec.isLt _)
    rw [ofNat_toNat] at hkernel
    exact hkernel hsum
  exact eq_neg_of_add_eq_zero_left hzero

variable {a : GF256}

theorem iterate_xtime_ne_zero (ha : a ≠ 0) : xtime^[n] a ≠ 0 := by
  intro h
  exact ha (xtime_injective.iterate n (h.trans (iterate_xtime_zero n).symm))

theorem exp_ne_zero : exp n ≠ 0 := iterate_xtime_ne_zero n (by decide)

theorem exp_255 : exp 255 = 1 := by decide +kernel

theorem minimalPeriod_xtime : minimalPeriod xtime 1 = 255 := by
  have hperiodic : IsPeriodicPt xtime 255 1 := exp_255
  have hcases : ∀ p ∈ Nat.divisors 255, p = 255 ∨ p ∣ 85 ∨ p ∣ 51 ∨ p ∣ 15 := by decide
  have hnot : ∀ n, exp n ≠ 1 → ¬ minimalPeriod xtime 1 ∣ n := by
    intro n hn h
    exact hn ((isPeriodicPt_minimalPeriod xtime 1).trans_dvd h)
  rcases hcases _ (Nat.mem_divisors.2 ⟨hperiodic.minimalPeriod_dvd, by decide⟩) with h | h | h | h
  · exact h
  · exact absurd h (hnot 85 (by decide +kernel))
  · exact absurd h (hnot 51 (by decide +kernel))
  · exact absurd h (hnot 15 (by decide +kernel))

theorem exp_injOn : Set.InjOn exp (Set.Iio 255) := by
  have h := iterate_injOn_Iio_minimalPeriod (f := xtime) (x := 1)
  rwa [minimalPeriod_xtime] at h

instance : Fintype GF256 :=
  Fintype.ofEquiv (Fin 256) ⟨fun i => ofNat i, fun a => ⟨a.toNat, BitVec.isLt a⟩,
    fun i => Fin.ext (toNat_ofNat i.2), ofNat_toNat⟩

theorem card_GF256 : Fintype.card GF256 = 256 := (Fintype.ofEquiv_card _).trans (Fintype.card_fin 256)

theorem exists_exp_eq (ha : a ≠ 0) : ∃ n < 255, exp n = a := by
  have hcard : ((Finset.range 255).image exp).card = 255 := by
    rw [Finset.card_image_of_injOn, Finset.card_range]
    intro i hi j hj
    exact exp_injOn (Finset.mem_range.1 hi) (Finset.mem_range.1 hj)
  have hsub : (Finset.range 255).image exp ⊆ Finset.univ.erase 0 := by
    intro b hb
    obtain ⟨n, -, rfl⟩ := Finset.mem_image.1 hb
    exact Finset.mem_erase.2 ⟨exp_ne_zero n, Finset.mem_univ _⟩
  have hall : (Finset.range 255).image exp = Finset.univ.erase 0 := by
    refine Finset.eq_of_subset_of_card_le hsub ?_
    rw [hcard, Finset.card_erase_of_mem (Finset.mem_univ _), Finset.card_univ, card_GF256]
  have hmem : a ∈ (Finset.range 255).image exp := by
    rw [hall]
    exact Finset.mem_erase.2 ⟨ha, Finset.mem_univ _⟩
  obtain ⟨n, hn, rfl⟩ := Finset.mem_image.1 hmem
  exact ⟨n, Finset.mem_range.1 hn, rfl⟩

theorem mem_powers (ha : a ≠ 0) : a ∈ powers := by
  obtain ⟨n, hn, rfl⟩ := exists_exp_eq ha
  exact mem_iterate.2 ⟨n, hn, rfl⟩

theorem log_lt (ha : a ≠ 0) : log a < 255 := by
  have h := idxOf_lt_length_of_mem (mem_powers ha)
  rwa [powers, length_iterate] at h

theorem exp_log (ha : a ≠ 0) : exp (log a) = a := by
  have hlt := idxOf_lt_length_of_mem (mem_powers ha)
  calc exp (log a) = powers[log a] := (getElem_iterate xtime 1 255 _ hlt).symm
    _ = a := getElem_idxOf hlt

theorem exp_add (m n : ℕ) : exp (m + n) = xtime^[m] (exp n) := iterate_add_apply xtime m n 1

theorem exp_mod : exp (n % 255) = exp n := by
  have hperiodic : IsPeriodicPt xtime 255 1 := exp_255
  exact hperiodic.iterate_mod_apply n

/-! ## Multiplication -/

theorem mul_def (a b : GF256) : a * b = if a = 0 ∨ b = 0 then 0 else exp ((log a + log b) % 255) :=
  rfl

theorem zero_mul' (a : GF256) : 0 * a = 0 := if_pos (.inl rfl)

theorem mul_eq_iterate (ha : a ≠ 0) (b : GF256) : a * b = xtime^[log a] b := by
  by_cases hb : b = 0
  · rw [hb, iterate_xtime_zero, mul_def, if_pos (.inr rfl)]
  · rw [mul_def, if_neg (by simp [ha, hb]), exp_mod, exp_add, exp_log hb]

theorem exp_add_eq_mul (m n : ℕ) : exp (m + n) = exp m * exp n := by
  calc exp (m + n) = xtime^[n] (exp m) := by rw [Nat.add_comm, exp_add]
    _ = xtime^[n] (exp (log (exp m))) := by rw [exp_log (exp_ne_zero m)]
    _ = exp (log (exp m) + n) := by rw [Nat.add_comm, exp_add]
    _ = exp m * exp n := by rw [mul_eq_iterate (exp_ne_zero m), exp_add]

theorem mul_comm' (a b : GF256) : a * b = b * a := by
  simp only [mul_def, Nat.add_comm, or_comm]

theorem mul_add' (a b c : GF256) : a * (b + c) = a * b + a * c := by
  by_cases ha : a = 0
  · rw [ha, zero_mul', zero_mul', zero_mul', add_zero]
  · rw [mul_eq_iterate ha, mul_eq_iterate ha, mul_eq_iterate ha, iterate_xtime_add]

theorem mul_assoc' (a b c : GF256) : a * b * c = a * (b * c) := by
  by_cases ha : a = 0
  · rw [ha, zero_mul', zero_mul', zero_mul']
  by_cases hc : c = 0
  · rw [hc, mul_comm' b, zero_mul', mul_comm' _ 0, zero_mul', mul_comm' a, zero_mul']
  -- both sides iterate `xtime` on `b`, in the two orders
  calc a * b * c = c * (a * b) := mul_comm' _ _
    _ = xtime^[log c + log a] b := by
      rw [mul_eq_iterate hc, mul_eq_iterate ha, iterate_add_apply]
    _ = xtime^[log a + log c] b := by rw [Nat.add_comm]
    _ = a * (c * b) := by rw [mul_eq_iterate hc, mul_eq_iterate ha, iterate_add_apply]
    _ = a * (b * c) := by rw [mul_comm' c]

theorem one_mul' (a : GF256) : 1 * a = a := by
  have hlog : log 1 = 0 := by decide
  rw [mul_eq_iterate (by decide), hlog]
  rfl

theorem mul_inv_cancel' (a : GF256) (ha : a ≠ 0) : a * a⁻¹ = 1 := by
  have hinv : a⁻¹ = exp (255 - log a) := if_neg ha
  rw [mul_eq_iterate ha, hinv, ← exp_add, Nat.add_sub_cancel' (Nat.le_of_lt (log_lt ha)), exp_255]

instance : Field GF256 where
  mul_assoc := mul_assoc'
  one_mul := one_mul'
  mul_one := fun a => (mul_comm' a 1).trans (one_mul' a)
  left_distrib := mul_add'
  right_distrib := fun a b c => by rw [mul_comm', mul_add', mul_comm' c, mul_comm' c]
  zero_mul := zero_mul'
  mul_zero := fun a => (mul_comm' a 0).trans (zero_mul' a)
  mul_comm := mul_comm'
  exists_pair_ne := ⟨0, 1, by decide⟩
  mul_inv_cancel := mul_inv_cancel'
  inv_zero := if_pos rfl
  nnqsmul := _
  nnqsmul_def := fun _ _ => rfl
  qsmul := _
  qsmul_def := fun _ _ => rfl

theorem exp_mul (p n : ℕ) : exp (p * n) = exp n ^ p := by
  induction p with
  | zero => rw [Nat.zero_mul, pow_zero]; rfl
  | succ p ih => rw [Nat.succ_mul, exp_add_eq_mul, ih, pow_succ]

end GF256

end CrowDB.Lib
