/-
Rounding to floating-point numbers.

A finite number is `± m · 2 ^ q`, and what lies in its rounding interval rounds to it. The
computations on numerators and denominators are read as facts about rational numbers.
-/

import Rulebook.Proofs.Numeral

namespace Rulebook.Numeral

open Text
open Float.Model (Format UnpackedFloat)
open Float.Model.UnpackedFloat Nat

variable {num den m : Nat} {q : Int}

/-! ### Bits -/

/-- `m · 2 ^ q` has the form of a finite number. -/
structure Canonical (m : Nat) (q : Int) : Prop where
  lt : m < 2 ^ 53
  low : -1074 ≤ q
  high : q ≤ 971
  normal : q ≠ -1074 → 2 ^ 52 ≤ m

def bitsOf (m : Nat) (q : Int) : Nat :=
  if m < 2 ^ 52 then m else (q + 1075).toNat * 2 ^ 52 + (m - 2 ^ 52)

def ofParts (m : Nat) (q : Int) : Float := Float.ofBits (bitsOf m q).toUInt64

theorem toNat_unpackMantissa (b : UInt64) :
    (@unpackMantissa Format.binary64 b.toBitVec).toNat = b.toNat % 2 ^ 52 := by
  rfl

theorem toNat_unpackExponent (b : UInt64) :
    (@unpackExponent Format.binary64 b.toBitVec).toNat = b.toNat / 2 ^ 52 % 2 ^ 11 := by
  rw [unpackExponent_def, BitVec.extractLsb'_toNat, UInt64.toNat_toBitVec,
    shiftRight_eq_div_pow]

theorem toNat_unpackSign (b : UInt64) :
    (@unpackSign Format.binary64 b.toBitVec).toNat = b.toNat / 2 ^ 63 % 2 := by
  rw [unpackSign_def, BitVec.extractLsb'_toNat, shiftRight_eq_div_pow]
  rfl

theorem unpack_neg {spec b b'}
    (hm : unpackMantissa b' = unpackMantissa b) (he : unpackExponent b' = unpackExponent b)
    (hs : Sign.ofBitVec (unpackSign b') = -Sign.ofBitVec (unpackSign b)) :
    unpack spec b' = (unpack spec b).neg := by
  simp only [unpack, hm, he, hs]
  split
  · split <;> rfl
  · split
    · split <;> rfl
    · rfl

theorem neg_ofBits {b b'} (h : b'.toNat = b.toNat + 2 ^ 63)
    (hb : Format.binary64.Valid b.toBitVec) : -Float.ofBits b = Float.ofBits b' := by
  have hlt : b'.toNat < 2 ^ 64 := b'.toNat_lt
  have hneg : unpack Format.binary64 b'.toBitVec = (unpack Format.binary64 b.toBitVec).neg := by
    apply unpack_neg
    · apply BitVec.eq_of_toNat_eq
      rw [toNat_unpackMantissa, toNat_unpackMantissa]
      omega
    · apply BitVec.eq_of_toNat_eq
      rw [toNat_unpackExponent, toNat_unpackExponent]
      omega
    · have hone : @unpackSign Format.binary64 b'.toBitVec = 1#1 := by
        apply BitVec.eq_of_toNat_eq
        rw [toNat_unpackSign, BitVec.toNat_ofNat]
        omega
      have hzero : @unpackSign Format.binary64 b.toBitVec = 0#1 := by
        apply BitVec.eq_of_toNat_eq
        rw [toNat_unpackSign, BitVec.toNat_ofNat]
        omega
      rw [hone, hzero]
      rfl
  have hself : (unpack Format.binary64 b.toBitVec).pack Format.binary64 = b.toBitVec :=
    pack_unpack_of_valid hb
  apply Float.toBits_inj.mp
  apply UInt64.toBitVec_inj.mp
  change (UnpackedFloat.neg (unpack Format.binary64
    ((unpack Format.binary64 b.toBitVec).pack Format.binary64))).pack Format.binary64 =
      (unpack Format.binary64 b'.toBitVec).pack Format.binary64
  rw [hself, hneg]

section

variable {x : Float} {negative : Bool} {m : Nat} {q : Int}

theorem toNat_toBits (h : parts x = .finite negative m q) :
    Canonical m q ∧ x.toBits.toNat = (if negative then 2 ^ 63 else 0) + bitsOf m q := by
  have hlt : x.toBits.toNat < 2 ^ 64 := x.toBits.toNat_lt
  simp only [parts, pow_eq] at h
  generalize x.toBits.toNat = bits at h hlt
  split at h
  · split at h <;> cases h
  · split at h
    · simp only [beq_iff_eq] at *
      obtain ⟨rfl, rfl, rfl⟩ := h
      constructor
      · constructor <;> omega
      · have hfraction : bits % 2 ^ 52 < 2 ^ 52 := mod_lt _ (by decide)
        simp only [bitsOf, beq_iff_eq]
        split <;> omega
    · simp only [beq_iff_eq] at *
      obtain ⟨rfl, rfl, rfl⟩ := h
      constructor
      · constructor <;> omega
      · have hfraction : ¬ bits % 2 ^ 52 + 2 ^ 52 < 2 ^ 52 := by omega
        simp only [bitsOf, beq_iff_eq]
        split <;> omega

theorem Canonical.bitsOf_lt (hc : Canonical m q) : bitsOf m q < 2047 * 2 ^ 52 := by
  have hlt := hc.lt
  have hhigh := hc.high
  rw [bitsOf]
  split
  · omega
  · grind

theorem Canonical.toNat_bitsOf (hc : Canonical m q) : (bitsOf m q).toUInt64.toNat = bitsOf m q := by
  have hlt := hc.bitsOf_lt
  exact mod_eq_of_lt (by omega)

theorem valid_of_exponent {b : UInt64} (h : b.toNat / 2 ^ 52 % 2 ^ 11 ≠ 2047) :
    Format.binary64.Valid b.toBitVec := by
  refine ⟨fun hexponent => ?_⟩
  have hfield := toNat_unpackExponent b
  rw [hexponent] at hfield
  exact absurd hfield.symm h

theorem Canonical.valid (hc : Canonical m q) :
    Format.binary64.Valid (bitsOf m q).toUInt64.toBitVec := by
  have hlt := hc.bitsOf_lt
  refine valid_of_exponent ?_
  rw [hc.toNat_bitsOf]
  omega

/-- **A finite number is determined by its parts.** -/
theorem eq_ofParts (h : parts x = .finite negative m q) :
    Canonical m q ∧ x = if negative then -ofParts m q else ofParts m q := by
  obtain ⟨hc, hbits⟩ := toNat_toBits h
  refine ⟨hc, ?_⟩
  rw [← Float.ofBits_toBits x]
  cases negative with
  | true =>
    rw [if_pos rfl] at hbits
    refine (neg_ofBits ?_ hc.valid).symm
    rw [hbits, hc.toNat_bitsOf, add_comm]
  | false =>
    have hsame : x.toBits = (bitsOf m q).toUInt64 := by
      apply UInt64.toNat_inj.mp
      rw [hbits, hc.toNat_bitsOf]
      exact zero_add _
    rw [hsame]
    rfl

theorem toBits_ofBits (h : Format.binary64.Valid b.toBitVec) : (Float.ofBits b).toBits = b :=
  UInt64.toBitVec_inj.mp (pack_unpack_of_valid h)

/-- **The parts of a finite number** are those it is made of. -/
theorem Canonical.parts_ofParts (hc : Canonical m q) (negative : Bool) :
    parts (if negative then -ofParts m q else ofParts m q) = .finite negative m q := by
  have hlt := hc.bitsOf_lt
  have hbits : (if negative then -ofParts m q else ofParts m q).toBits.toNat =
      (if negative then 2 ^ 63 else 0) + bitsOf m q := by
    cases negative with
    | false =>
      rw [if_neg Bool.false_ne_true, ofParts, toBits_ofBits hc.valid, hc.toNat_bitsOf]
      exact (zero_add _).symm
    | true =>
      have hsign : (2 ^ 63 + bitsOf m q).toUInt64.toNat = 2 ^ 63 + bitsOf m q :=
        mod_eq_of_lt (by omega)
      have hneg : -ofParts m q = Float.ofBits (2 ^ 63 + bitsOf m q).toUInt64 := by
        refine neg_ofBits ?_ hc.valid
        rw [hsign, hc.toNat_bitsOf, add_comm]
      rw [if_pos rfl, hneg, toBits_ofBits (valid_of_exponent (by rw [hsign]; omega)), hsign]
      rfl
  have hnegative : (((if negative then 2 ^ 63 else 0) + bitsOf m q) / 2 ^ 63 == 1) = negative := by
    cases negative <;> simp <;> omega
  have hexponent : ((if negative then 2 ^ 63 else 0) + bitsOf m q) / 2 ^ 52 % 2048 =
      bitsOf m q / 2 ^ 52 := by
    split <;> omega
  have hfraction : ((if negative then 2 ^ 63 else 0) + bitsOf m q) % 2 ^ 52 =
      bitsOf m q % 2 ^ 52 := by
    split <;> omega
  simp only [parts, pow_eq, hbits, hnegative, hexponent, hfraction]
  have hm := hc.lt
  have hhigh := hc.high
  have hlow := hc.low
  have hnormal := hc.normal
  by_cases hsmall : m < 2 ^ 52
  · grind [bitsOf, mod_eq_of_lt]
  · have hfield : ((q + 1075).toNat * 2 ^ 52 + (m - 2 ^ 52)) / 2 ^ 52 = (q + 1075).toNat := by omega
    have hrest : ((q + 1075).toNat * 2 ^ 52 + (m - 2 ^ 52)) % 2 ^ 52 = m - 2 ^ 52 := by omega
    simp only [bitsOf, if_neg hsmall, beq_iff_eq]
    rw [if_neg (by omega), if_neg (by omega)]
    rw [Parts.finite.injEq]
    exact ⟨rfl, by omega, by omega⟩

theorem eq_nan_of_parts (h : parts x = .nan) : x = Float.nan := by
  simp only [parts, beq_iff_eq] at h
  split at h
  case isFalse => split at h <;> cases h
  case isTrue hexponent =>
    split at h
    case isTrue => cases h
    case isFalse hfraction =>
      have hpacked : x.toBits.toBitVec = packedNaN Format.binary64 := by
        apply x.toModel.valid.eq_packedNaN
        · apply BitVec.eq_of_toNat_eq
          exact (toNat_unpackExponent x.toBits).trans hexponent
        · intro hzero
          have hfield := toNat_unpackMantissa x.toBits
          rw [show @unpackMantissa Format.binary64 x.toBits.toBitVec = 0 from hzero] at hfield
          exact hfraction hfield.symm
      exact Float.toBits_inj.mp (UInt64.toBitVec_inj.mp hpacked)

theorem eq_infinity_of_parts (h : parts x = .infinite negative) :
    x = if negative then -1.0 / 0.0 else 1.0 / 0.0 := by
  have hlt : x.toBits.toNat < 2 ^ 64 := x.toBits.toNat_lt
  simp only [parts, pow_eq, beq_iff_eq] at h
  split at h
  case isFalse => split at h <;> cases h
  case isTrue hexponent =>
    split at h
    case isFalse => cases h
    case isTrue hfraction =>
      have hnegative : (x.toBits.toNat / 2 ^ 63 == 1) = negative := by
        injection h
      have hbits : x.toBits.toNat = (if negative then 4095 else 2047) * 2 ^ 52 := by
        rw [← hnegative]
        simp only [beq_iff_eq]
        split <;> omega
      apply Float.toBits_inj.mp
      apply UInt64.toNat_inj.mp
      rw [hbits]
      cases negative <;> decide +kernel

theorem parts_eq_nan_iff : parts x = .nan ↔ x.isNaN := by
  rw [Float.isNaN_eq_decide_eq_nan, decide_eq_true_eq]
  constructor
  · exact eq_nan_of_parts
  · rintro rfl
    rfl

end

/-! ### Rational numbers -/

theorem cast_pow_toNat {b : Nat} (hb : b ≠ 0) (k) :
    ((Nat.pow b k.toNat : Nat) : ℚ) = (b : ℚ) ^ k * ((Nat.pow b (-k).toNat : Nat) : ℚ) := by
  have hb' : (b : ℚ) ≠ 0 := by exact_mod_cast hb
  rw [pow_eq, pow_eq, cast_pow, cast_pow, ← zpow_natCast, ← zpow_natCast,
    ← zpow_add₀ hb']
  congr 1
  omega

theorem powerOfTwo_fst (q) : ((powerOfTwo q).1 : ℚ) = 2 ^ q * ((powerOfTwo q).2 : ℚ) :=
  cast_pow_toNat (by decide) q

theorem powerOfTwo_pos (q) : 0 < (powerOfTwo q).1 ∧ 0 < (powerOfTwo q).2 :=
  ⟨Nat.two_pow_pos _, Nat.two_pow_pos _⟩

theorem two_zpow_eq_half (q : Int) : (2 : ℚ) ^ q = 2 ^ (q - 1) * 2 := by
  rw [← zpow_add_one₀ (by norm_num), sub_add_cancel]

theorem two_zpow_eq_quarter (q : Int) : (2 : ℚ) ^ q = 2 ^ (q - 2) * 4 := by
  rw [two_zpow_eq_half q, two_zpow_eq_half (q - 1)]
  ring

theorem two_zpow_pos (q : Int) : (0 : ℚ) < 2 ^ q := by positivity

theorem lt_of_two_zpow_lt {a b : Int} (h : (2 : ℚ) ^ a < 2 ^ b) : a < b :=
  (zpow_lt_zpow_iff_right₀ (by norm_num)).mp h

/-! ### Rounding -/

theorem roundDiv_eq (hden : 0 < den) (hlow : 2 * m * den ≤ 2 * num + den)
    (hhigh : 2 * num ≤ 2 * m * den + den)
    (hodd : m % 2 = 1 → 2 * m * den < 2 * num + den ∧ 2 * num < 2 * m * den + den) :
    roundDiv num den = m := by
  have hsplit := div_add_mod num den
  have hrest := mod_lt num hden
  rw [roundDiv]
  generalize num / den = d at *
  generalize num % den = r at *
  have hle : d ≤ m := by
    by_contra hlt
    have hmul : (m + 1) * den ≤ d * den := mul_le_mul_right den (by omega)
    linarith
  have hge : m ≤ d + 1 := by
    by_contra hlt
    have hmul : (d + 2) * den ≤ m * den := mul_le_mul_right den (by omega)
    linarith
  obtain rfl | rfl : m = d ∨ m = d + 1 := by omega
  · grind
  · grind

/-- A quotient compared with multiples of `2 ^ q`, without fractions. -/
theorem scaled_iff (hden : 0 < den) (q a b) :
    (a * ((den * Nat.pow 2 q.toNat : Nat) : ℚ) ≤ b * ((num * Nat.pow 2 (-q).toNat : Nat) : ℚ) ↔
      a * 2 ^ q ≤ b * (num / den)) ∧
    (b * ((num * Nat.pow 2 (-q).toNat : Nat) : ℚ) ≤ a * ((den * Nat.pow 2 q.toNat : Nat) : ℚ) ↔
      b * (num / den) ≤ a * 2 ^ q) := by
  have hden' : (0 : ℚ) < den := by exact_mod_cast hden
  have hdown : (0 : ℚ) < (Nat.pow 2 (-q).toNat : Nat) := by exact_mod_cast Nat.two_pow_pos _
  rw [Nat.cast_mul, Nat.cast_mul, cast_pow_toNat (by decide) q, Nat.cast_ofNat, mul_div_assoc',
    le_div_iff₀ hden', div_le_iff₀ hden', ← mul_assoc b, ← mul_assoc, ← mul_assoc,
    mul_le_mul_iff_left₀ hdown, mul_le_mul_iff_left₀ hdown, mul_right_comm a]
  exact ⟨Iff.rfl, Iff.rfl⟩

theorem roundDiv_scaled (hden : 0 < den) (hlow : (2 * m - 1 : ℚ) * 2 ^ (q - 1) ≤ num / den)
    (hhigh : (num / den : ℚ) ≤ (2 * m + 1) * 2 ^ (q - 1))
    (hodd : m % 2 = 1 → (2 * m - 1 : ℚ) * 2 ^ (q - 1) < num / den ∧
      (num / den : ℚ) < (2 * m + 1) * 2 ^ (q - 1)) :
    roundDiv (num * Nat.pow 2 (-q).toNat) (den * Nat.pow 2 q.toNat) = m := by
  have hpos : 0 < den * Nat.pow 2 q.toNat := Nat.mul_pos hden (Nat.two_pow_pos _)
  have hscaled := @scaled_iff num den hden q
  rw [two_zpow_eq_half] at hscaled
  generalize den * Nat.pow 2 q.toNat = d at *
  generalize num * Nat.pow 2 (-q).toNat = n at *
  have hlower := fun a : ℚ => (hscaled a 2).1
  have hupper := fun a : ℚ => (hscaled a 2).2
  refine roundDiv_eq hpos ?_ ?_ fun hm => ⟨?_, ?_⟩
  · have h := (hlower (2 * m - 1)).mpr (by linarith)
    exact_mod_cast (by linarith : (2 * m * d : ℚ) ≤ 2 * n + d)
  · have h := (hupper (2 * m + 1)).mpr (by linarith)
    exact_mod_cast (by linarith : (2 * n : ℚ) ≤ 2 * m * d + d)
  · have h := mt (hupper (2 * m - 1)).mp (by linarith [(hodd hm).1])
    exact_mod_cast (by linarith : (2 * m * d : ℚ) < 2 * n + d)
  · have h := mt (hlower (2 * m + 1)).mp (by linarith [(hodd hm).2])
    exact_mod_cast (by linarith : (2 * n : ℚ) < 2 * m * d + d)

def IsExponent (r : ℚ) (e : Int) : Prop := 2 ^ e ≤ r ∧ r < 2 ^ (e + 1)

theorem isExponent_log2 {n : Nat} (h : 0 < n) : IsExponent n (log2 n) :=
  ⟨by exact_mod_cast log2_self_le h.ne', by exact_mod_cast lt_log2_self (n := n)⟩

theorem exists_exponent (hnum : 0 < num) (hden : 0 < den) :
    let estimate : Int := (Nat.log2 num : Int) - Nat.log2 den
    let e := if den * Nat.pow 2 estimate.toNat ≤ num * Nat.pow 2 (-estimate).toNat then estimate
      else estimate - 1
    IsExponent (num / den) e := by
  intro estimate e
  have hden' : (0 : ℚ) < den := by exact_mod_cast hden
  have hatLeast : den * Nat.pow 2 estimate.toNat ≤ num * Nat.pow 2 (-estimate).toNat ↔
      (2 : ℚ) ^ estimate ≤ num / den := by
    have hscaled := (@scaled_iff num den hden estimate 1 1).1
    rwa [one_mul, one_mul, one_mul, one_mul, Nat.cast_le] at hscaled
  obtain ⟨hnumLow, hnumHigh⟩ := isExponent_log2 hnum
  obtain ⟨hdenLow, hdenHigh⟩ := isExponent_log2 hden
  by_cases h : den * Nat.pow 2 estimate.toNat ≤ num * Nat.pow 2 (-estimate).toNat
  · have he : e = estimate := if_pos h
    rw [he]
    refine ⟨hatLeast.mp h, ?_⟩
    rw [div_lt_iff₀ hden']
    calc (num : ℚ) < 2 ^ (Nat.log2 num + 1 : Int) := hnumHigh
      _ = 2 ^ (estimate + 1) * 2 ^ (Nat.log2 den : Int) := by
          rw [← zpow_add₀ (by norm_num)]
          congr 1
          omega
      _ ≤ 2 ^ (estimate + 1) * den := by gcongr
  · have he : e = estimate - 1 := if_neg h
    rw [he]
    constructor
    · rw [le_div_iff₀ hden']
      calc (2 : ℚ) ^ (estimate - 1) * den ≤ 2 ^ (estimate - 1) * 2 ^ (Nat.log2 den + 1 : Int) := by
            gcongr
        _ = 2 ^ (Nat.log2 num : Int) := by
            rw [← zpow_add₀ (by norm_num)]
            congr 1
            omega
        _ ≤ num := hnumLow
    · rw [sub_add_cancel]
      exact not_le.mp fun hle => h (hatLeast.mpr hle)

theorem IsExponent.unique (h : IsExponent r e) (h' : IsExponent r e') : e = e' := by
  have hlt := lt_of_two_zpow_lt (h.1.trans_lt h'.2)
  have hlt' := lt_of_two_zpow_lt (h'.1.trans_lt h.2)
  omega

theorem ofRatio_eq (hnum : 0 < num) (hden : 0 < den)
    (he : IsExponent (num / den) e) (hq : q = max (e - 52) (-1074))
    (hm : roundDiv (num * Nat.pow 2 (-q).toNat) (den * Nat.pow 2 q.toNat) = m) :
    ofRatio num den = if (if m = 2 ^ 53 then q + 1 else q) ≤ 971 then
      some (if m = 2 ^ 53 then ofParts (2 ^ 52) (q + 1) else ofParts m q) else none := by
  have hexponent := he.unique (exists_exponent hnum hden)
  rw [ofRatio, if_neg (by simpa using hnum.ne')]
  simp only [← hexponent, ← hq, hm, ← Int.not_lt, ite_not]
  by_cases hcarry : m = 2 ^ 53
  · subst hcarry
    simp [ofParts, bitsOf]
  · simp only [Nat.pow_eq, beq_iff_eq, if_neg hcarry]
    rw [ofParts, bitsOf]
    by_cases hsmall : m < 2 ^ 52
    · rw [if_pos hsmall, if_pos hsmall]
    · rw [if_neg hsmall, if_neg hsmall]

/-! ### Rounding intervals -/

def lowerEnd (m : Nat) (q : Int) : ℚ := (roundingInterval m q).1 * 2 ^ (q - 2)

def upperEnd (m : Nat) (q : Int) : ℚ := (roundingInterval m q).2.2 * 2 ^ (q - 2)

/-- A rational number rounds to `m · 2 ^ q`: it is in the rounding interval, and at an end of it
only when `m` is even. -/
structure Rounds (r : ℚ) (m : Nat) (q : Int) : Prop where
  lower : lowerEnd m q ≤ r
  upper : r ≤ upperEnd m q
  odd : m % 2 = 1 → lowerEnd m q < r ∧ r < upperEnd m q

theorem two_zpow_pred (q : Int) : (2 : ℚ) ^ (q - 1) = 2 ^ (q - 2) * 2 := by
  rw [two_zpow_eq_half (q - 1), show q - 1 - 1 = q - 2 by ring]

theorem upperEnd_eq (m q) : upperEnd m q = (2 * m + 1) * 2 ^ (q - 1) := by
  rw [upperEnd, roundingInterval, two_zpow_pred]
  push_cast
  ring

theorem lowerEnd_eq (hm : 0 < m) (h : ¬ (m = 2 ^ 52 ∧ q ≠ -1074)) :
    lowerEnd m q = (2 * m - 1) * 2 ^ (q - 1) := by
  have hlow : (roundingInterval m q).1 = 4 * m - 2 := by
    simp only [roundingInterval, Bool.and_eq_true, beq_iff_eq, decide_eq_true_eq]
    exact if_neg h
  rw [lowerEnd, hlow, cast_sub (by omega), two_zpow_pred]
  push_cast
  ring

theorem lowerEnd_power (h : q ≠ -1074) : lowerEnd (2 ^ 52) q = (2 ^ 54 - 1) * 2 ^ (q - 2) := by
  have hlow : (roundingInterval (2 ^ 52) q).1 = 2 ^ 54 - 1 := by
    simp [roundingInterval, h]
  rw [lowerEnd, hlow]
  norm_num

theorem two_zpow_le_lowerEnd (q) (hm : 0 < m) : (2 : ℚ) ^ (q - 1) ≤ lowerEnd m q := by
  by_cases h : m = 2 ^ 52 ∧ q ≠ -1074
  · have hpos := two_zpow_pos (q - 2)
    rw [h.1, lowerEnd_power h.2, two_zpow_pred]
    nlinarith
  · have hone : (1 : ℚ) ≤ m := by exact_mod_cast hm
    have hpos := two_zpow_pos (q - 1)
    rw [lowerEnd_eq hm h]
    nlinarith

section

variable {m : Nat} {q : Int} {r : ℚ}

theorem lt_of_rounds (hc : Canonical m q) (h : r ≤ (2 * m + 1) * 2 ^ (q - 1)) :
    r < 2 ^ (q + 53) := by
  have hle : (m : ℚ) + 1 ≤ 2 ^ 53 := by exact_mod_cast hc.lt
  have hscale : (2 : ℚ) ^ (q + 53) = 2 ^ 54 * 2 ^ (q - 1) := by
    rw [show q + 53 = q - 1 + 54 by ring, zpow_add₀ (by norm_num), mul_comm]
    norm_num
  have hpos := two_zpow_pos (q - 1)
  nlinarith

/-- A number above the smallest ones is at least `2 ^ (q + 52)`, and so is what rounds to it, unless
it is that power and is rounded up to. -/
theorem le_of_rounds (hc : Canonical m q) (hq : q ≠ -1074)
    (hlower : (2 * m - 1 : ℚ) * 2 ^ (q - 1) ≤ r) (hpower : m = 2 ^ 52 → 2 ^ 52 * 2 ^ q ≤ r) :
    (2 : ℚ) ^ (q + 52) ≤ r := by
  have hscale : (2 : ℚ) ^ (q + 52) = 2 ^ 52 * 2 ^ q := by
    rw [zpow_add₀ (by norm_num), mul_comm]
    norm_num
  rw [hscale]
  by_cases hm : m = 2 ^ 52
  · exact hpower hm
  · have hge : (2 ^ 52 + 1 : ℚ) ≤ m := by
      have hnormal := hc.normal hq
      exact_mod_cast (by omega : 2 ^ 52 + 1 ≤ m)
    have hpos := two_zpow_pos (q - 1)
    rw [two_zpow_eq_half]
    nlinarith

end

section

variable {num den m : Nat} {q : Int}

theorem ofRatio_below_power (hnum : 0 < num) (hden : 0 < den) (hc : Canonical (2 ^ 52) q)
    (hq : q ≠ -1074) (hlower : lowerEnd (2 ^ 52) q ≤ num / den)
    (hr : (num / den : ℚ) < 2 ^ 52 * 2 ^ q) : ofRatio num den = some (ofParts (2 ^ 52) q) := by
  have hlow := hc.low
  have hhigh := hc.high
  rw [lowerEnd_power hq] at hlower
  rw [two_zpow_eq_quarter] at hr
  have hscale : ∀ n : Int, (2 : ℚ) ^ (q + n) = 2 ^ (q - 2) * 2 ^ (n + 2) := by
    intro n
    rw [← zpow_add₀ (by norm_num)]
    congr 1
    omega
  have he : IsExponent (num / den) (q + 51) := by
    rw [IsExponent, add_assoc q 51 1, hscale, hscale]
    constructor <;> nlinarith
  have hround : roundDiv (num * Nat.pow 2 (-(q - 1)).toNat) (den * Nat.pow 2 (q - 1).toNat) =
      2 ^ 53 := by
    apply roundDiv_scaled hden
    · rw [show q - 1 - 1 = q - 2 by ring]
      linarith
    · rw [show q - 1 - 1 = q - 2 by ring]
      nlinarith
    · intro hodd
      cases hodd
  have hfit : (if 2 ^ 53 = 2 ^ 53 then q - 1 + 1 else q - 1) ≤ 971 := by
    omega
  rw [ofRatio_eq hnum hden he (by omega) hround, if_pos hfit, if_pos rfl, sub_add_cancel]

/-- **What rounds to a number is read as it.** -/
theorem ofRatio_of_rounds (hnum : 0 < num) (hden : 0 < den) (hc : Canonical m q) (hm : 0 < m)
    (h : Rounds (num / den) m q) : ofRatio num den = some (ofParts m q) := by
  obtain ⟨hlower, hupper, hodd⟩ := h
  by_cases hbelow : m = 2 ^ 52 ∧ q ≠ -1074 ∧ (num / den : ℚ) < 2 ^ 52 * 2 ^ q
  · obtain ⟨rfl, hq, hr⟩ := hbelow
    exact ofRatio_below_power hnum hden hc hq hlower hr
  have hpower : m = 2 ^ 52 → q ≠ -1074 → (2 ^ 52 * 2 ^ q : ℚ) ≤ num / den := by
    intro hm hq
    exact not_lt.mp fun hr => hbelow ⟨hm, hq, hr⟩
  rw [upperEnd_eq] at hupper hodd
  have hlower' : (2 * m - 1 : ℚ) * 2 ^ (q - 1) ≤ num / den := by
    by_cases hm2 : m = 2 ^ 52 ∧ q ≠ -1074
    · have hr := hpower hm2.1 hm2.2
      have hpos := two_zpow_pos (q - 1)
      rw [two_zpow_eq_half] at hr
      rw [hm2.1]
      nlinarith
    · rwa [lowerEnd_eq hm hm2] at hlower
  obtain ⟨e, he⟩ : ∃ e, IsExponent (num / den) e := ⟨_, exists_exponent hnum hden⟩
  have hq : q = max (e - 52) (-1074) := by
    have hlow := hc.low
    have hlt := lt_of_two_zpow_lt (he.1.trans_lt (lt_of_rounds hc hupper))
    by_cases hq : q = -1074
    · omega
    · have hle := le_of_rounds hc hq hlower' fun hm => hpower hm hq
      have hgt := lt_of_two_zpow_lt (hle.trans_lt he.2)
      omega
  have hround : roundDiv (num * Nat.pow 2 (-q).toNat) (den * Nat.pow 2 q.toNat) = m := by
    apply roundDiv_scaled hden hlower' hupper
    intro hm'
    have hm2 : ¬ (m = 2 ^ 52 ∧ q ≠ -1074) := by
      rintro ⟨rfl, -⟩
      cases hm'
    rw [lowerEnd_eq hm hm2] at hodd
    exact hodd hm'
  have hcarry : m ≠ 2 ^ 53 := hc.lt.ne
  have hfit : (if m = 2 ^ 53 then q + 1 else q) ≤ 971 := by
    rw [if_neg hcarry]
    exact hc.high
  rw [ofRatio_eq hnum hden he hq hround, if_pos hfit, if_neg hcarry]

end

/-! ### Decimals -/

theorem digitCount_pos (n) : 0 < digitCount n :=
  List.length_pos_of_ne_nil toDigits_ne_nil

theorem lt_pow_digitCount (n) : n < 10 ^ digitCount n :=
  (length_toDigits_le_iff (by decide) (digitCount_pos n)).mp (le_refl _)

theorem pow_digitCount_le (h : 0 < n) : 10 ^ (digitCount n - 1) ≤ n := by
  by_cases hone : digitCount n ≤ 1
  · rw [Nat.sub_eq_zero_of_le hone]
    exact h
  · by_contra hlt
    have hle : digitCount n ≤ digitCount n - 1 :=
      (length_toDigits_le_iff (by decide) (by omega)).mpr (not_le.mp hlt)
    omega

theorem magnitude_le (hnum : 0 < num) (hden : 0 < den) :
    (10 : ℚ) ^ (magnitude num den - 1) ≤ num / den := by
  have hnum' : (0 : ℚ) < num := by exact_mod_cast hnum
  rw [magnitude]
  split
  case isTrue h =>
    have hdigits := digitCount_pos (num / den)
    calc (10 : ℚ) ^ ((digitCount (num / den) : Int) - 1)
        = ((10 ^ (digitCount (num / den) - 1) : Nat) : ℚ) := by
          rw [← cast_pred hdigits]
          push_cast
          rfl
      _ ≤ ((num / den : Nat) : ℚ) := by exact_mod_cast pow_digitCount_le (div_pos h hden)
      _ ≤ num / den := cast_div_le
  case isFalse h =>
    have hdigits := digitCount_pos (den / num)
    -- a quotient below one is the inverse of one above
    have hinverse : ∀ l : Nat, den ≤ num * 10 ^ l → (10 : ℚ) ^ (-(l : Int)) ≤ num / den := by
      intro l hle
      rw [zpow_neg, inv_le_comm₀ (by positivity) (by positivity), inv_div, div_le_iff₀ hnum',
        mul_comm]
      exact_mod_cast hle
    simp only [pow_eq]
    split
    case isTrue hle =>
      rw [sub_right_comm, sub_self, zero_sub]
      exact hinverse _ hle
    case isFalse =>
      have hstep : num * (den / num + 1) ≤ num * 10 ^ digitCount (den / num) :=
        mul_le_mul_left num (lt_pow_digitCount (den / num))
      rw [show (-((digitCount (den / num) - 1 : Nat) : Int) - 1) =
        -((digitCount (den / num) : Nat) : Int) by omega]
      exact hinverse _ ((lt_mul_div_succ den hnum).trans_le hstep).le

theorem two_pow_lt_ten_pow {a b : Nat} (h : a ≤ 3 * b) (hb : b ≠ 0) : (2 : ℚ) ^ a < 10 ^ b := by
  calc (2 : ℚ) ^ a ≤ 2 ^ (3 * b) := pow_le_pow_right₀ (by norm_num) h
    _ = (2 ^ 3) ^ b := pow_mul 2 3 b
    _ < 10 ^ b := pow_lt_pow_left₀ (by norm_num) (by norm_num) hb

section

variable {n m : Nat} {e q : Int}

theorem size_of_rounds (hc : Canonical m q) (hm : 0 < m) (h : Rounds (n * 10 ^ e) m q) :
    0 < n ∧ -400 ≤ digitCount n + e ∧ digitCount n + e ≤ 400 := by
  have hlow : (2 : ℚ) ^ (-1075 : Int) ≤ n * 10 ^ e := by
    have hq := hc.low
    calc (2 : ℚ) ^ (-1075 : Int) ≤ 2 ^ (q - 1) := zpow_le_zpow_right₀ (by norm_num) (by omega)
      _ ≤ lowerEnd m q := two_zpow_le_lowerEnd q hm
      _ ≤ n * 10 ^ e := h.lower
  have hhigh : (n * 10 ^ e : ℚ) < 2 ^ (1024 : Int) := by
    have hq := hc.high
    have hupper := h.upper
    rw [upperEnd_eq] at hupper
    calc (n * 10 ^ e : ℚ) < 2 ^ (q + 53) := lt_of_rounds hc hupper
      _ ≤ 2 ^ (1024 : Int) := zpow_le_zpow_right₀ (by norm_num) (by omega)
  have hn : 0 < n := by
    rcases Nat.eq_zero_or_pos n with rfl | hn
    · have hpos := two_zpow_pos (-1075)
      rw [cast_zero, zero_mul] at hlow
      exact absurd hlow (not_le.mpr hpos)
    · exact hn
  refine ⟨hn, ?_, ?_⟩
  · by_contra hlt
    have hbound : (n * 10 ^ e : ℚ) < 10 ^ (-401 : Int) := by
      calc (n * 10 ^ e : ℚ) < 10 ^ (digitCount n : Int) * 10 ^ e := by
            gcongr
            exact_mod_cast lt_pow_digitCount n
        _ = 10 ^ (digitCount n + e : Int) := by rw [zpow_add₀ (by norm_num)]
        _ ≤ 10 ^ (-401 : Int) := zpow_le_zpow_right₀ (by norm_num) (by omega)
    have hpowers : (10 : ℚ) ^ (-401 : Int) < 2 ^ (-1075 : Int) := by
      exact inv_strictAnti₀ (by positivity) (two_pow_lt_ten_pow (by decide) (by decide))
    exact lt_irrefl _ (hlow.trans_lt (hbound.trans hpowers))
  · by_contra hlt
    have hbound : (10 : ℚ) ^ (400 : Int) ≤ n * 10 ^ e := by
      calc (10 : ℚ) ^ (400 : Int) ≤ 10 ^ ((digitCount n - 1 : Nat) + e : Int) :=
            zpow_le_zpow_right₀ (by norm_num) (by omega)
        _ = 10 ^ ((digitCount n - 1 : Nat) : Int) * 10 ^ e := by rw [zpow_add₀ (by norm_num)]
        _ ≤ n * 10 ^ e := by
            gcongr
            exact_mod_cast pow_digitCount_le hn
    have hpowers : (2 : ℚ) ^ (1024 : Int) < 10 ^ (400 : Int) := by
      exact two_pow_lt_ten_pow (by decide) (by decide)
    exact lt_irrefl _ (hbound.trans_lt (hhigh.trans hpowers))

/-- **A decimal that rounds to a number is read as it.** -/
theorem ofDecimal_of_rounds (hc : Canonical m q) (hm : 0 < m) (h : Rounds (n * 10 ^ e) m q) :
    ofDecimal n e = ofParts m q := by
  obtain ⟨hn, hsmall, hlarge⟩ := size_of_rounds hc hm h
  have hdown : 0 < Nat.pow 10 (-e).toNat := Nat.pow_pos (by decide)
  have hratio : (n * 10 ^ e : ℚ) =
      ((n * Nat.pow 10 e.toNat : Nat) : ℚ) / ((Nat.pow 10 (-e).toNat : Nat) : ℚ) := by
    have hdown' : ((Nat.pow 10 (-e).toNat : Nat) : ℚ) ≠ 0 := by exact_mod_cast hdown.ne'
    rw [Nat.cast_mul, cast_pow_toNat (by decide) e, ← mul_assoc, mul_div_cancel_right₀ _ hdown',
      cast_ofNat]
  rw [hratio] at h
  have hread := ofRatio_of_rounds (Nat.mul_pos hn (Nat.pow_pos (by decide))) hdown hc hm h
  rw [ofDecimal, if_neg (by simp [hn.ne', hsmall]), if_neg (by omega)]
  simp only [pow_eq] at hread ⊢
  rw [hread, Option.getD_some]

end

/-! ### The shortest digits -/

section

variable {first : Nat}

variable {m : Nat} {q k : Int}

def scale (q k : Int) : ℚ := (powerOfTwo (q - 2)).2 * (Nat.pow 10 (-k).toNat : Nat)

theorem scale_pos : 0 < scale q k := by
  rw [scale]
  exact_mod_cast Nat.mul_pos (powerOfTwo_pos _).2 (Nat.pow_pos (by decide))

theorem cast_scaled (a) : ((a * (powerOfTwo (q - 2)).1 * Nat.pow 10 (-k).toNat : Nat) : ℚ) =
    a * 2 ^ (q - 2) * scale q k := by
  rw [cast_mul, cast_mul, powerOfTwo_fst, scale]
  ring

theorem cast_unit (e) : ((e * (Nat.pow 10 k.toNat * (powerOfTwo (q - 2)).2) : Nat) : ℚ) =
    e * 10 ^ k * scale q k := by
  rw [Nat.cast_mul, Nat.cast_mul, cast_pow_toNat (by decide) k, scale]
  ring

theorem scaled_le_iff : (a * (powerOfTwo (q - 2)).1 * Nat.pow 10 (-k).toNat ≤
        e * (Nat.pow 10 k.toNat * (powerOfTwo (q - 2)).2) ↔ (a * 2 ^ (q - 2) : ℚ) ≤ e * 10 ^ k) ∧
      (e * (Nat.pow 10 k.toNat * (powerOfTwo (q - 2)).2) ≤
        a * (powerOfTwo (q - 2)).1 * Nat.pow 10 (-k).toNat ↔
          (e * 10 ^ k : ℚ) ≤ a * 2 ^ (q - 2)) := by
  rw [← Nat.cast_le (α := ℚ), ← Nat.cast_le (α := ℚ), cast_scaled, cast_unit,
    mul_le_mul_iff_left₀ scale_pos, mul_le_mul_iff_left₀ scale_pos]
  exact ⟨Iff.rfl, Iff.rfl⟩

def inside (m : Nat) (q k : Int) (e : Nat) : Bool :=
  let (low, _, high) := roundingInterval m q
  let (num, den) := powerOfTwo (q - 2)
  let scaled := fun x => x * num * Nat.pow 10 (-k).toNat
  let unit := Nat.pow 10 k.toNat * den
  if m % 2 == 0 then scaled low ≤ e * unit && e * unit ≤ scaled high
  else scaled low < e * unit && e * unit < scaled high

theorem inside_iff : inside m q k e = true ↔ Rounds (e * 10 ^ k) m q := by
  rw [inside]
  dsimp only
  by_cases hm : m % 2 = 0
  · rw [if_pos (by simpa using hm), Bool.and_eq_true, decide_eq_true_eq, decide_eq_true_eq,
      scaled_le_iff.1, scaled_le_iff.2]
    constructor
    · rintro ⟨hlower, hupper⟩
      exact ⟨hlower, hupper, fun hodd => by omega⟩
    · intro h
      exact ⟨h.lower, h.upper⟩
  · rw [if_neg (by simpa using hm), Bool.and_eq_true, decide_eq_true_eq, decide_eq_true_eq,
      ← not_le, ← not_le, scaled_le_iff.1, scaled_le_iff.2, not_le, not_le]
    constructor
    · intro h
      exact ⟨h.1.le, h.2.le, fun _ => h⟩
    · intro h
      exact h.odd (by omega)

/-- A number is at most half a unit away from another one. -/
def Near (unit y x : ℚ) : Prop := 2 * y ≤ 2 * x + unit ∧ 2 * x ≤ 2 * y + unit

theorem nearer_multiple {x unit d : Nat} (hunit : 0 < unit) (hd : d = x / unit)
    (hfirst : first = if x - d * unit < (d + 1) * unit - x ||
      (x - d * unit == (d + 1) * unit - x && d % 2 == 0) then d else d + 1) :
    Near unit (first * unit : Nat) x := by
  have hlow : d * unit ≤ x := hd ▸ div_mul_le_self x unit
  have hhigh : x < (d + 1) * unit := by
    rw [hd, mul_comm]
    exact lt_mul_div_succ x hunit
  have hnext : (d + 1) * unit = d * unit + unit := by ring
  suffices h : 2 * (first * unit) ≤ 2 * x + unit ∧ 2 * x ≤ 2 * (first * unit) + unit by
    exact ⟨by exact_mod_cast h.1, by exact_mod_cast h.2⟩
  rw [hfirst]
  split
  case isTrue h => grind
  case isFalse h =>
    simp only [Bool.or_eq_true, decide_eq_true_eq] at h
    omega

theorem near_of_multiple (h : Near (Nat.pow 10 k.toNat * (powerOfTwo (q - 2)).2 : Nat)
      (first * (Nat.pow 10 k.toNat * (powerOfTwo (q - 2)).2) : Nat)
      (4 * m * (powerOfTwo (q - 2)).1 * Nat.pow 10 (-k).toNat : Nat)) :
    Near (10 ^ k) (first * 10 ^ k) (m * 2 ^ q) := by
  have hunit := cast_unit (q := q) (k := k) 1
  rw [one_mul, Nat.cast_one, one_mul] at hunit
  rw [Near, cast_scaled, cast_unit, hunit, Nat.cast_mul, Nat.cast_ofNat] at h
  rw [Near, two_zpow_eq_quarter q]
  constructor
  · refine le_of_mul_le_mul_right ?_ (scale_pos (q := q) (k := k))
    linarith [h.1]
  · refine le_of_mul_le_mul_right ?_ (scale_pos (q := q) (k := k))
    linarith [h.2]

theorem exists_shortestFrom (m q) (fuel n : Nat) : ∃ (k : Int) (first second : Nat),
      k = magnitude (4 * m * (powerOfTwo (q - 2)).1) (powerOfTwo (q - 2)).2 - n ∧
      Near (10 ^ k) (first * 10 ^ k) (m * 2 ^ q) ∧ shortestFrom m q (fuel + 1) n =
        if inside m q k first then ⟨first, k⟩
        else if inside m q k second then ⟨second, k⟩ else shortestFrom m q fuel (n + 1) := by
  refine ⟨_, _, _, rfl, near_of_multiple (nearer_multiple ?_ rfl rfl), rfl⟩
  exact Nat.mul_pos (Nat.pow_pos (by decide)) (powerOfTwo_pos _).2

theorem rounds_of_near (hc : Canonical m q) (hm : 0 < m) (hk : (10 : ℚ) ^ (k + 16) ≤ m * 2 ^ q)
    (hnear : Near (10 ^ k) (first * 10 ^ k) (m * 2 ^ q)) : Rounds (first * 10 ^ k) m q := by
  obtain ⟨hhigh, hlow⟩ := hnear
  have hlt : (m : ℚ) + 1 ≤ 2 ^ 53 := by exact_mod_cast hc.lt
  have hscale : (10 : ℚ) ^ (k + 16) = 10 ^ k * 10 ^ 16 := by
    rw [zpow_add₀ (by norm_num)]
    norm_num
  have hpos := two_zpow_pos (q - 1)
  -- a step of the grid is smaller than the distance to the next number
  have hstep : (10 : ℚ) ^ k < 2 ^ (q - 1) * 2 := by
    rw [two_zpow_eq_half] at hk
    nlinarith
  have hupper : (first * 10 ^ k : ℚ) < upperEnd m q := by
    rw [upperEnd_eq]
    rw [two_zpow_eq_half] at hhigh
    nlinarith
  have hlower : lowerEnd m q < first * 10 ^ k := by
    by_cases h : m = 2 ^ 52 ∧ q ≠ -1074
    · have hpos := two_zpow_pos (q - 2)
      have hcast : (m : ℚ) = 2 ^ 52 := by exact_mod_cast h.1
      rw [h.1, lowerEnd_power h.2]
      rw [two_zpow_eq_quarter] at hlow
      rw [two_zpow_eq_quarter] at hk
      nlinarith
    · rw [lowerEnd_eq hm h]
      rw [two_zpow_eq_half] at hlow
      nlinarith
  exact ⟨hlower.le, hupper.le, fun _ => ⟨hlower, hupper⟩⟩

theorem shortestFrom_rounds (hc : Canonical m q) (hm : 0 < m)
    (hn : n + fuel = 17) : Rounds ((shortestFrom m q (fuel + 1) n).digits *
      10 ^ (shortestFrom m q (fuel + 1) n).exponent) m q := by
  induction fuel generalizing n with
  | zero =>
    obtain ⟨k, first, second, hk, hnear, heq⟩ := exists_shortestFrom m q 0 n
    have hpositive := powerOfTwo_pos (q - 2)
    have hnumber : (((4 * m * (powerOfTwo (q - 2)).1 : Nat) : ℚ) / (powerOfTwo (q - 2)).2) =
        m * 2 ^ q := by
      have hden : ((powerOfTwo (q - 2)).2 : ℚ) ≠ 0 := by exact_mod_cast hpositive.2.ne'
      rw [div_eq_iff hden, cast_mul, powerOfTwo_fst, two_zpow_eq_quarter q]
      push_cast
      ring
    have hmagnitude := magnitude_le (mul_pos (by omega : 0 < 4 * m) hpositive.1) hpositive.2
    rw [hnumber] at hmagnitude
    have hrounds : Rounds (first * 10 ^ k) m q := by
      refine rounds_of_near hc hm ?_ hnear
      rw [show k + 16 = magnitude (4 * m * (powerOfTwo (q - 2)).1) (powerOfTwo (q - 2)).2 - 1 by
        omega]
      exact hmagnitude
    rw [heq, if_pos (inside_iff.mpr hrounds)]
    exact hrounds
  | succ fuel ih =>
    obtain ⟨k, first, second, -, -, heq⟩ := exists_shortestFrom m q (fuel + 1) n
    rw [heq]
    split
    case isTrue h => exact inside_iff.mp h
    case isFalse =>
      split
      case isTrue h => exact inside_iff.mp h
      case isFalse => exact ih (by omega)

/-- **The shortest digits of a number round to it.** -/
theorem shortest_rounds (hc : Canonical m q) (hm : 0 < m) :
    Rounds ((shortest m q).digits * 10 ^ (shortest m q).exponent) m q :=
  shortestFrom_rounds hc hm rfl

end

/-! ### Results that are numbers -/

section

variable {num den k : Nat}

variable {q : Int}

theorem roundDiv_le (hden : 0 < den) (h : num ≤ k * den) : roundDiv num den ≤ k := by
  have hsplit := div_add_mod num den
  have hdiv : num / den ≤ k := Nat.div_le_of_le_mul (by rwa [mul_comm])
  rw [roundDiv]
  split
  case isTrue => exact hdiv
  case isFalse hround => grind

theorem le_roundDiv (hden : 0 < den) (h : k * den ≤ num) : k ≤ roundDiv num den := by
  have hdiv : k ≤ num / den := (le_div_iff_mul_le hden).mpr h
  rw [roundDiv]
  split <;> omega

theorem roundDiv_scaled_le (hden : 0 < den) (h : (num / den : ℚ) ≤ 2 ^ (q + k : Int)) :
    roundDiv (num * Nat.pow 2 (-q).toNat) (den * Nat.pow 2 q.toNat) ≤ 2 ^ k := by
  refine roundDiv_le (Nat.mul_pos hden (Nat.two_pow_pos _)) ?_
  rw [add_comm, zpow_add₀ (by norm_num), zpow_natCast, ← one_mul (_ / _)] at h
  have hscaled := (scaled_iff hden q (2 ^ k) 1).2.mpr h
  rw [one_mul] at hscaled
  exact_mod_cast hscaled

theorem le_roundDiv_scaled (hden : 0 < den) (h : 2 ^ (q + k : Int) ≤ (num / den : ℚ)) :
    2 ^ k ≤ roundDiv (num * Nat.pow 2 (-q).toNat) (den * Nat.pow 2 q.toNat) := by
  refine le_roundDiv (Nat.mul_pos hden (Nat.two_pow_pos _)) ?_
  rw [add_comm, zpow_add₀ (by norm_num), zpow_natCast, ← one_mul (_ / _)] at h
  have hscaled := (scaled_iff hden q (2 ^ k) 1).1.mpr h
  rw [one_mul] at hscaled
  exact_mod_cast hscaled

theorem canonical_pow_carry (hlow : -1074 ≤ q) (hhigh : q ≤ 971) : Canonical (2 ^ 52) q :=
  ⟨by decide, hlow, hhigh, fun _ => le_refl _⟩

/-- **A quotient is rounded to a finite number.** -/
theorem exists_ofRatio (hden : 0 < den) (h : ofRatio num den = some x) :
    ∃ m q, Canonical m q ∧ x = ofParts m q := by
  rcases Nat.eq_zero_or_pos num with rfl | hnum
  · cases h
    exact ⟨0, -1074, ⟨by decide, by decide, by decide, fun hne => absurd rfl hne⟩, by decide +kernel⟩
  · obtain ⟨e, he⟩ : ∃ e, IsExponent (num / den) e := ⟨_, exists_exponent hnum hden⟩
    obtain ⟨q, hq⟩ : ∃ q, q = max (e - 52) (-1074) := ⟨_, rfl⟩
    obtain ⟨m, hm⟩ : ∃ m, roundDiv (num * Nat.pow 2 (-q).toNat) (den * Nat.pow 2 q.toNat) = m :=
      ⟨_, rfl⟩
    have hbounds : m ≤ 2 ^ 53 ∧ (q ≠ -1074 → 2 ^ 52 ≤ m) := by
      rw [← hm]
      refine ⟨roundDiv_scaled_le hden (k := 53) ?_, fun hne => le_roundDiv_scaled hden (k := 52) ?_⟩
      · refine he.2.le.trans (zpow_le_zpow_right₀ (by norm_num) ?_)
        omega
      · refine le_trans (zpow_le_zpow_right₀ (by norm_num) ?_) he.1
        omega
    rw [ofRatio_eq hnum hden he hq hm] at h
    by_cases hfit : (if m = 2 ^ 53 then q + 1 else q) ≤ 971
    · rw [if_pos hfit, Option.some.injEq] at h
      rw [← h]
      by_cases hcarry : m = 2 ^ 53
      · rw [if_pos hcarry] at hfit ⊢
        exact ⟨_, _, canonical_pow_carry (by omega) hfit, rfl⟩
      · rw [if_neg hcarry] at hfit ⊢
        exact ⟨m, q, ⟨by omega, by omega, hfit, hbounds.2⟩, rfl⟩
    · rw [if_neg hfit] at h
      cases h

end

/-! ### Products -/

theorem pack_ne_packedNaN (h : f ≠ .notANumber) :
    pack Format.binary64 f ≠ packedNaN Format.binary64 := by
  have hexponent : ∀ {s m} {e : BitVec 11},
      packComponents Format.binary64 s e m = packedNaN Format.binary64 →
        e = -1#11 := by
    intro s m e heq
    have he := congrArg unpackExponent heq
    rwa [unpackExponent_packComponents] at he
  have hinfinity : ∀ s, packedInfinity Format.binary64 s ≠ packedNaN Format.binary64 := by
    intro s heq
    have hm := congrArg unpackMantissa heq
    rw [packedInfinity, unpackMantissa_packComponents] at hm
    exact absurd hm (by decide)
  intro heq
  cases f with
  | notANumber => exact h rfl
  | infinity s => exact hinfinity s heq
  | zero s => exact absurd (hexponent heq) (by decide)
  | finite s m e hm =>
    simp only [pack] at heq
    split at heq
    case isTrue => exact hinfinity s heq
    case isFalse hfits =>
      split at heq
      case isTrue =>
        have htop := congrArg BitVec.toNat (hexponent heq)
        change _ % 2 ^ 11 = 2047 at htop
        omega
      case isFalse => exact absurd (hexponent heq) (by decide)

theorem unpack_isFinite (h : parts x = .finite negative m q) :
    x.toModel.unpack.isFinite = true := by
  have hexponent : x.toBits.toNat / 2 ^ 52 % 2 ^ 11 ≠ 2047 := by
    intro htop
    simp only [parts] at h
    rw [if_pos (by simpa using htop)] at h
    split at h <;> cases h
  have hne : @unpackExponent Format.binary64 x.toBits.toBitVec ≠ -1#11 := by
    intro heq
    exact hexponent ((toNat_unpackExponent x.toBits).symm.trans (congrArg BitVec.toNat heq))
  change (unpack Format.binary64 x.toBits.toBitVec).isFinite = true
  simp only [unpack]
  rw [if_neg hne]
  split
  · split <;> rfl
  · rfl

/-- **A product of finite numbers is a number.** -/
theorem isNaN_mul (hx : parts x = .finite s m p)
    (hy : parts y = .finite t n q) : (x * y).isNaN = false := by
  have hfx := unpack_isFinite hx
  have hfy := unpack_isFinite hy
  have hproduct : UnpackedFloat.mul Format.binary64 x.toModel.unpack y.toModel.unpack ≠
      .notANumber := by
    generalize x.toModel.unpack = a at hfx
    generalize y.toModel.unpack = b at hfy
    cases a <;> cases b <;> simp only [isFinite, Bool.false_eq_true] at hfx hfy
    case finite.finite =>
      simp only [UnpackedFloat.mul, roundWithAccuracy]
      split <;> exact UnpackedFloat.noConfusion
    all_goals exact UnpackedFloat.noConfusion
  rw [← Bool.not_eq_true]
  intro hnan
  refine pack_ne_packedNaN hproduct ?_
  exact (unpack_eq_notANumber_iff_of_valid valid_pack).mp (isNaN_iff.mp hnan)

end Rulebook.Numeral
