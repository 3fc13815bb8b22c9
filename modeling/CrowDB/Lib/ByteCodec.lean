/-
  Byte strings of binary and text formats: little- and big-endian numbers, numerals in a radix with
  the sign, digit and overflow rules of `from_str_radix`, and separators.

  Each writer has its read-back lemma: `readLe_append`, `parseRadix_render`,
  `parseRadix_renderPadded`, `splitOnce_append`, `rsplitOnce_append`.
-/
import CrowDB.Lib.KeyOrder
import Mathlib.Data.Nat.Digits.Lemmas

namespace CrowDB.Lib

open List

/-- The bytes of an ASCII string. -/
def ascii (s : String) : List UInt8 := s.toList.map fun c => UInt8.ofNat c.toNat

variable {s : List UInt8} {radix max n : ℕ} {w off m d : ℕ} {pre pat post : List UInt8}
  {c sep p : UInt8}

theorem forall_mem_of_all {p : UInt8 → Prop} [DecidablePred p]
    (h : s.all (fun c => decide (p c)) = true) :
    ∀ c ∈ s, p c := fun c hc =>
  of_decide_eq_true (all_eq_true.mp h c hc)

/-! ## Little-endian numbers -/

/-- The `w` little-endian bytes of a number. -/
def leBytes : ℕ → ℕ → List UInt8
  | 0, _ => []
  | w + 1, n => UInt8.ofNat (n % 256) :: leBytes w (n / 256)

/-- The number of little-endian bytes. -/
def leNat : List UInt8 → ℕ
  | [] => 0
  | b :: bs => b.toNat + 256 * leNat bs

/-- The `w`-byte number at offset `off` of a buffer. -/
def readLe (w : ℕ) (buf : List UInt8) (off : ℕ) : ℕ := leNat ((buf.drop off).take w)

@[simp] theorem leBytes_length (w n : ℕ) : (leBytes w n).length = w := by
  induction w generalizing n with
  | zero => rfl
  | succ w ih => simp [leBytes, ih]

theorem leNat_leBytes (h : n < 256 ^ w) : leNat (leBytes w n) = n := by
  induction w generalizing n with
  | zero => simp only [pow_zero, Nat.lt_one_iff] at h; simp [leBytes, leNat, h]
  | succ w ih =>
    have hq : n / 256 < 256 ^ w := by
      rw [Nat.div_lt_iff_lt_mul (by omega), ← pow_succ]; exact h
    have hb : (UInt8.ofNat (n % 256)).toNat = n % 256 :=
      UInt8.toNat_ofNat_of_lt (by simp only [UInt8.size]; omega)
    simp only [leBytes, leNat, ih hq, hb]
    omega

variable (post)

theorem readLe_append
    (hoff : pre.length = off) (hn : n < 256 ^ w) :
    readLe w (pre ++ (leBytes w n ++ post)) off = n := by
  rw [readLe, drop_left' hoff, take_left' (leBytes_length w n), leNat_leBytes hn]

theorem readLe_zero (hn : n < 256 ^ w) : readLe w (leBytes w n ++ post) 0 = n := by
  have h : readLe w ([] ++ (leBytes w n ++ post)) 0 = n := readLe_append post rfl hn
  exact h

theorem readLe_append_right
    (h : pre.length ≤ off) : readLe w (pre ++ post) off = readLe w post (off - pre.length) := by
  rw [readLe, readLe, drop_append, drop_eq_nil_of_le h, nil_append]

variable {post}

theorem readLe_cons (w : ℕ) (b : UInt8) (bs : List UInt8) (off : ℕ) :
    readLe w (b :: bs) (off + 1) = readLe w bs off := rfl

variable (bs : List UInt8)

theorem leNat_lt : leNat bs < 256 ^ bs.length := by
  induction bs with
  | nil => exact Nat.one_pos
  | cons b =>
    have hb := b.toNat_lt
    rw [leNat, length_cons, pow_succ]
    omega

theorem leBytes_leNat : leBytes bs.length (leNat bs) = bs := by
  induction bs with
  | nil => rfl
  | cons b bs ih =>
    have hb := b.toNat_lt
    have hlow : (b.toNat + 256 * leNat bs) % 256 = b.toNat := by omega
    have hhigh : (b.toNat + 256 * leNat bs) / 256 = leNat bs := by omega
    rw [leNat, length_cons, leBytes, hlow, hhigh, ih, UInt8.ofNat_toNat]

theorem readLe_lt (buf : List UInt8) : readLe w buf off < 256 ^ w := by
  refine (leNat_lt _).trans_le (Nat.pow_le_pow_right (by omega) ?_)
  rw [length_take]
  exact Nat.min_le_left ..

theorem leBytes_readLe {buf : List UInt8} (h : off + w ≤ buf.length) :
    leBytes w (readLe w buf off) = (buf.drop off).take w := by
  have hlen : ((buf.drop off).take w).length = w := by
    rw [length_take, length_drop]
    omega
  have hback := leBytes_leNat ((buf.drop off).take w)
  rwa [hlen] at hback

/-! ## Big-endian numbers -/

/-- The `w` big-endian bytes of a number. -/
def beBytes (w n : ℕ) : List UInt8 := (leBytes w n).reverse

/-- The number of big-endian bytes. -/
def beNat : ℕ := leNat bs.reverse

@[simp] theorem beBytes_length (w n : ℕ) : (beBytes w n).length = w := by simp [beBytes]

theorem beNat_beBytes (h : n < 256 ^ w) : beNat (beBytes w n) = n := by
  rw [beNat, beBytes, reverse_reverse, leNat_leBytes h]

theorem beNat_lt : beNat bs < 256 ^ bs.length := by
  simpa [beNat] using leNat_lt bs.reverse

theorem beBytes_beNat : beBytes bs.length (beNat bs) = bs := by
  rw [beBytes, beNat, ← length_reverse, leBytes_leNat, reverse_reverse]

theorem beBytes_inj (hn : n < 256 ^ w) (hm : m < 256 ^ w) : beBytes w n = beBytes w m ↔ n = m := by
  refine ⟨fun h => ?_, congrArg _⟩
  rw [← beNat_beBytes hn, h, beNat_beBytes hm]

theorem beBytes_lt_iff (hn : n < 256 ^ w) (hm : m < 256 ^ w) : beBytes w n < beBytes w m ↔ n < m := by
  induction w generalizing n m with
  | zero =>
    rw [pow_zero, Nat.lt_one_iff] at hn hm
    simp [beBytes, leBytes, hn, hm]
  | succ w ih =>
    have hdiv {n : ℕ} (h : n < 256 ^ (w + 1)) : n / 256 < 256 ^ w := by
      rwa [Nat.div_lt_iff_lt_mul (by decide), ← pow_succ]
    have hlow : UInt8.ofNat (n % 256) < UInt8.ofNat (m % 256) ↔ n % 256 < m % 256 := by
      simp [UInt8.lt_iff_toNat_lt]
    have hbytes (n : ℕ) : beBytes (w + 1) n = beBytes w (n / 256) ++ [UInt8.ofNat (n % 256)] := by
      simp [beBytes, leBytes]
    rw [hbytes, hbytes, append_lt_append_iff _ _ (by simp), ih (hdiv hn) (hdiv hm),
      beBytes_inj (hdiv hn) (hdiv hm)]
    simp only [List.cons_lt_cons_iff, hlow, List.lt_irrefl, and_false, or_false]
    omega

/-! ## Numerals -/

/-- Why a numeral is refused. -/
inductive ParseIntError where
  | empty
  | invalidDigit
  | posOverflow
deriving DecidableEq

/-- The digit `d < 16`, in lower case. -/
def digitByte (d : ℕ) : UInt8 := UInt8.ofNat (if d < 10 then 48 + d else 87 + d)

/-- The value of a digit of either case, if it is one in this radix. -/
def toDigit (radix : ℕ) (c : UInt8) : Option ℕ :=
  let v := if 48 ≤ c.toNat ∧ c.toNat ≤ 57 then some (c.toNat - 48)
    else if 97 ≤ c.toNat ∧ c.toNat ≤ 122 then some (c.toNat - 87)
    else if 65 ≤ c.toNat ∧ c.toNat ≤ 90 then some (c.toNat - 55)
    else none
  v.filter (· < radix)

/-- The numeral of a number. -/
def renderRadix (radix n : ℕ) : List UInt8 :=
  if n = 0 then [digitByte 0] else (radix.digits n).reverse.map digitByte

/-- The numeral padded with zeros to at least `w` digits. -/
def renderPadded (radix w n : ℕ) : List UInt8 :=
  List.replicate (w - (renderRadix radix n).length) (digitByte 0) ++ renderRadix radix n

/-- The loop of `parseRadix`. -/
def parseDigits (radix max : ℕ) : ℕ → List UInt8 → Except ParseIntError ℕ
  | acc, [] => .ok acc
  | acc, c :: cs =>
    match toDigit radix c with
    | none => .error .invalidDigit
    | some x =>
      if max < acc * radix + x then .error .posOverflow else parseDigits radix max
        (acc * radix + x) cs

/-- An unsigned numeral of value at most `max`; a leading `+` is allowed. -/
def parseRadix (radix max : ℕ) (s : List UInt8) : Except ParseIntError ℕ :=
  match s with
  | [] => .error .empty
  | [c] => if c = 43 ∨ c = 45 then .error .invalidDigit else parseDigits radix max 0 [c]
  | c :: cs => if c = 43 then parseDigits radix max 0 cs else parseDigits radix max 0 (c :: cs)

theorem digitByte_toNat (h : d < 16) : (digitByte d).toNat = if d < 10 then 48 + d else 87 + d := by
  refine UInt8.toNat_ofNat_of_lt ?_
  simp only [UInt8.size]
  split <;> omega

theorem toDigit_digitByte (hd : d < radix) (hr : radix ≤ 16) :
    toDigit radix (digitByte d) = some d := by
  have h := digitByte_toNat (d := d) (by omega)
  simp only [toDigit, h]
  by_cases h10 : d < 10
  · simp [h10, hd, show 48 + d ≤ 57 by omega]
  · have h1 : ¬ 87 + d ≤ 57 := by omega
    have h2 : 97 ≤ 87 + d ∧ 87 + d ≤ 122 := by omega
    simp [h10, hd, h1, h2]

theorem parseDigits_digits (hr : radix ≤ 16) (ds : List ℕ) :
    ∀ acc, (∀ d ∈ ds, d < radix) → acc * radix ^ ds.length + Nat.ofDigits radix ds ≤ max →
      parseDigits radix max acc (ds.reverse.map digitByte) =
        .ok (acc * radix ^ ds.length + Nat.ofDigits radix ds) := by
  -- the parser consumes the last digit of the list first
  induction ds using reverseRecOn with
  | nil => intro acc _ _; simp [parseDigits]
  | append_singleton ds d ih =>
    intro acc hds hmax
    have hd : d < radix := hds d (by simp)
    have hval : acc * radix ^ (ds ++ [d]).length + Nat.ofDigits radix (ds ++ [d]) =
        (acc * radix + d) * radix ^ ds.length + Nat.ofDigits radix ds := by
      rw [Nat.ofDigits_append]
      simp only [length_append, length_singleton, Nat.ofDigits_singleton]
      ring
    rw [hval] at hmax ⊢
    have hle : acc * radix + d ≤ max := by
      have hpow : 0 < radix ^ ds.length := Nat.pow_pos (by omega)
      have hmul := Nat.le_mul_of_pos_right (acc * radix + d) hpow
      omega
    rw [reverse_append, map_append]
    simp only [reverse_singleton, map_cons, map_nil, singleton_append,
      parseDigits, toDigit_digitByte hd hr, if_neg (Nat.not_lt.mpr hle)]
    exact ih _ (fun e he => hds e (by simp [he])) hmax

theorem parseDigits_zeros (h0 : 0 < radix) (hr : radix ≤ 16) (k : ℕ) (s : List UInt8) :
    parseDigits radix max 0 (replicate k (digitByte 0) ++ s) = parseDigits radix max 0 s := by
  induction k with
  | zero => rfl
  | succ k ih =>
    rw [replicate_succ, cons_append, parseDigits, toDigit_digitByte h0 hr]
    simpa using ih

theorem parseRadix_of_digits (hne : s ≠ []) (hs : ∀ c ∈ s, c ≠ 43 ∧ c ≠ 45) :
    parseRadix radix max s = parseDigits radix max 0 s := by
  match s with
  | [c] => simp [parseRadix, hs c (by simp)]
  | c :: c' :: cs => simp [parseRadix, hs c (by simp)]

theorem digitByte_ne_sign (h : d < 16) : digitByte d ≠ 43 ∧ digitByte d ≠ 45 := by
  have hv := digitByte_toNat h
  constructor <;>
  · intro he
    rw [he] at hv
    revert hv
    split <;> simp <;> omega

theorem renderRadix_ne_nil (radix n : ℕ) : renderRadix radix n ≠ [] := by
  unfold renderRadix
  split
  · simp
  · rename_i h
    simpa [Nat.digits_ne_nil_iff_ne_zero] using h

theorem mem_renderRadix (hr : 1 < radix) (hc : c ∈ renderRadix radix n) :
    ∃ d < radix, c = digitByte d := by
  unfold renderRadix at hc
  split at hc
  · exact ⟨0, by omega, by simpa using hc⟩
  · obtain ⟨d, hd, rfl⟩ := mem_map.mp hc
    exact ⟨d, Nat.digits_lt_base hr (mem_reverse.mp hd), rfl⟩

theorem mem_renderPadded (hr : 1 < radix) (hc : c ∈ renderPadded radix w n) :
    ∃ d < radix, c = digitByte d := by
  rcases mem_append.mp hc with h | h
  · exact ⟨0, by omega, (mem_replicate.mp h).2⟩
  · exact mem_renderRadix hr h

theorem parseDigits_render (h1 : 1 < radix) (hr : radix ≤ 16) (hn : n ≤ max) :
    parseDigits radix max 0 (renderRadix radix n) = .ok n := by
  unfold renderRadix
  split
  · subst n
    simp [parseDigits, toDigit_digitByte (d := 0) (by omega) hr]
  · have hval : 0 * radix ^ (radix.digits n).length + Nat.ofDigits radix (radix.digits n) = n := by
      rw [Nat.ofDigits_digits, Nat.zero_mul, Nat.zero_add]
    have h := parseDigits_digits hr (radix.digits n) 0 (fun d hd => Nat.digits_lt_base h1 hd)
      (hval.trans_le hn)
    rw [hval] at h
    exact h

/-- **A numeral is read back**, if it does not exceed the bound. -/
theorem parseRadix_render (h1 : 1 < radix) (hr : radix ≤ 16) (hn : n ≤ max) :
    parseRadix radix max (renderRadix radix n) = .ok n := by
  rw [parseRadix_of_digits (renderRadix_ne_nil _ _), parseDigits_render h1 hr hn]
  intro c hc
  obtain ⟨d, hd, rfl⟩ := mem_renderRadix h1 hc
  exact digitByte_ne_sign (by omega)

theorem parseRadix_renderPadded (w : ℕ) (h1 : 1 < radix) (hr : radix ≤ 16) (hn : n ≤ max) :
    parseRadix radix max (renderPadded radix w n) = .ok n := by
  have hne : renderPadded radix w n ≠ [] := by simp [renderPadded, renderRadix_ne_nil]
  rw [parseRadix_of_digits hne]
  · rw [renderPadded, parseDigits_zeros (by omega) hr, parseDigits_render h1 hr hn]
  · intro c hc
    obtain ⟨d, hd, rfl⟩ := mem_renderPadded h1 hc
    exact digitByte_ne_sign (by omega)

/-! ## Cutting byte strings -/

/-- Cut at the first `sep`. -/
def splitOnce (sep : UInt8) : List UInt8 → Option (List UInt8 × List UInt8)
  | [] => none
  | c :: cs => if c = sep then some ([], cs) else (splitOnce sep cs).map fun p => (c :: p.1, p.2)

/-- The parts before and after the last occurrence of `pat`. -/
def rsplitOnce (pat : List UInt8) : List UInt8 → Option (List UInt8 × List UInt8)
  | [] => if pat = [] then some ([], []) else none
  | c :: cs =>
    match rsplitOnce pat cs with
    | some p => some (c :: p.1, p.2)
    | none => if pat.isPrefixOf (c :: cs) then some ([], (c :: cs).drop pat.length) else none

/-- Cut the end that satisfies `p`. -/
def trimEnd (p : UInt8 → Bool) (s : List UInt8) : List UInt8 := (s.reverse.dropWhile p).reverse

theorem splitOnce_append (h : sep ∉ s) (post : List UInt8) :
    splitOnce sep (s ++ sep :: post) = some (s, post) := by
  induction s with
  | nil => simp [splitOnce]
  | cons c s ih =>
    obtain ⟨hc, hs⟩ : sep ≠ c ∧ sep ∉ s := by simpa using h
    simp [splitOnce, ih hs, Ne.symm hc]

theorem rsplitOnce_eq_none (h : p ∉ s) : rsplitOnce (p :: pat) s = none := by
  induction s with
  | nil => rfl
  | cons c s ih =>
    obtain ⟨hc, hs⟩ : p ≠ c ∧ p ∉ s := by simpa using h
    simp [rsplitOnce, ih hs, isPrefixOf, hc]

/-- The last occurrence of a pattern is found when its first byte does not
    return behind it. -/
theorem rsplitOnce_append (h : p ∉ pat ++ post)
    (s : List UInt8) : rsplitOnce (p :: pat) (s ++ (p :: pat ++ post)) = some (s, post) := by
  induction s with
  | nil =>
    have hnone : rsplitOnce (p :: pat) (pat ++ post) = none := rsplitOnce_eq_none h
    have hpre : (p :: pat).isPrefixOf (p :: (pat ++ post)) = true := by
      refine isPrefixOf_iff_prefix.2 ?_
      exact ⟨post, by simp⟩
    simp only [nil_append, cons_append, rsplitOnce, hnone, hpre, if_true]
    simp
  | cons c s ih => rw [cons_append, rsplitOnce, ih]

theorem trimEnd_append {p : UInt8 → Bool} (hs : ∀ c ∈ s, p c = false)
    (hp : ∀ c ∈ post, p c = true) : trimEnd p (s ++ post) = s := by
  have hdrop : s.reverse.dropWhile p = s.reverse := by
    cases h : s.reverse with
    | nil => rfl
    | cons c =>
      have hc : c ∈ s := by rw [← mem_reverse, h]; simp
      simp [dropWhile, hs c hc]
  have hall : ∀ c ∈ post.reverse, p c = true := fun c hc => hp c (mem_reverse.mp hc)
  rw [trimEnd, reverse_append, dropWhile_append_of_pos hall, hdrop, reverse_reverse]

/-! ## UTF-8 -/

/-- A UTF-8 continuation byte. -/
def isCont (b : UInt8) : Bool := 0x80 ≤ b && b ≤ 0xBF

/-- Well-formed UTF-8: no overlong form, no surrogate, nothing above `U+10FFFF`. -/
def utf8Valid : List UInt8 → Bool
  | [] => true
  | a :: rest =>
    if a < 0x80 then utf8Valid rest
    else if 0xC2 ≤ a && a ≤ 0xDF then
      match rest with
      | b :: rest => isCont b && utf8Valid rest
      | _ => false
    else if 0xE0 ≤ a && a ≤ 0xEF then
      match rest with
      | b :: c :: rest =>
        (if a = 0xE0 then 0xA0 ≤ b && b ≤ 0xBF else if a = 0xED then 0x80 ≤ b && b ≤ 0x9F
          else isCont b) && isCont c && utf8Valid rest
      | _ => false
    else if 0xF0 ≤ a && a ≤ 0xF4 then
      match rest with
      | b :: c :: d :: rest =>
        (if a = 0xF0 then 0x90 ≤ b && b ≤ 0xBF else if a = 0xF4 then 0x80 ≤ b && b ≤ 0x8F
          else isCont b) && isCont c && isCont d && utf8Valid rest
      | _ => false
    else false

theorem utf8Valid_of_ascii (h : ∀ c ∈ s, c < 0x80) : utf8Valid s = true := by
  induction s with
  | nil => rfl
  | cons c s ih =>
    have hc : c < 0x80 := h c (by simp)
    have hs := ih fun c hc => h c (by simp [hc])
    unfold utf8Valid
    simp [hc, hs]

end CrowDB.Lib
