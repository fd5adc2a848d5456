/-
# Rounding to binary64

A finite number of binary64 that is not negative is a multiple of `2 ^ -1074`, so it is given
by a natural number of these units.  A quotient is rounded to the nearest number, of two that
are as near as each other to the one with the even mantissa.
-/

import Mathlib.Algebra.Order.Group.Nat
import Mathlib.Data.Nat.Log
import Mathlib.Tactic.Ring

namespace Binary64

/-- The integer nearest to `n / d`. -/
def roundHalfEven (n d : ℕ) : ℕ :=
  if 2 * (n % d) < d ∨ 2 * (n % d) = d ∧ n / d % 2 = 0 then n / d else n / d + 1

/-- How many bits a unit is below one. -/
@[irreducible]
def fractionBits : ℕ := 1074

/-- One, in units. -/
def one : ℕ := 2 ^ fractionBits

/-- How many bits of `n / d` are below the 53 of a mantissa. -/
def shift (n d : ℕ) : ℕ := (n * one / d).log2 - 52

/-- The number nearest to `n / d`, in units. -/
def quotient (n d : ℕ) : ℕ :=
  roundHalfEven (n * one) (d * 2 ^ shift n d) * 2 ^ shift n d

/-- `math.ceil`. -/
def ceil (units : ℕ) : ℕ := (units + (one - 1)) / one

section Rounding

variable {n m d : ℕ}

/-- A nearest integer is at most half away. -/
theorem roundHalfEven_near (hd : 0 < d) :
    2 * n ≤ 2 * (roundHalfEven n d * d) + d ∧ 2 * (roundHalfEven n d * d) ≤ 2 * n + d := by
  have hdiv := Nat.div_add_mod' n d
  have hmod := Nat.mod_lt n hd
  unfold roundHalfEven
  split_ifs with h
  · omega
  · rw [Nat.add_mul]
    omega

/-- What divides is not rounded. -/
theorem roundHalfEven_of_dvd (hd : 0 < d) (h : d ∣ n) : roundHalfEven n d = n / d := by
  have hmod := Nat.mod_eq_zero_of_dvd h
  unfold roundHalfEven
  rw [if_pos (.inl (by omega))]

/-- One is some units. -/
theorem one_pos : 0 < one := Nat.two_pow_pos _

/-- One is many units. -/
theorem two_pow_le_one : 2 ^ 53 ≤ one := by
  refine Nat.pow_le_pow_right (by decide) ?_
  unfold fractionBits
  omega

/-- The bits that are rounded away are few. -/
theorem two_pow_shift_le (hd : 0 < d) (h : shift n d ≠ 0) : 2 ^ (shift n d + 52) * d ≤ n * one := by
  unfold shift at h ⊢
  have hne : n * one / d ≠ 0 := by
    intro hzero
    rw [hzero] at h
    exact h rfl
  rw [Nat.sub_add_cancel (by omega)]
  exact (Nat.le_div_iff_mul_le hd).mp (Nat.log2_self_le hne)

/-- **An integer is its own quotient,** if it has no more than 53 bits. -/
theorem quotient_of_mul (hd : 0 < d) (hm : m < 2 ^ 53) : quotient (m * d) d = m * one := by
  have hscaled : m * d * one / d = m * one := by
    rw [Nat.mul_right_comm, Nat.mul_div_cancel _ hd]
  have hshift : shift (m * d) d ≤ fractionBits := by
    unfold shift
    rw [hscaled]
    obtain rfl | hpos := Nat.eq_zero_or_pos m
    · rw [Nat.zero_mul, Nat.log2_zero]
      omega
    · have hlog : (m * one).log2 < 53 + fractionBits := by
        refine (Nat.log2_lt (Nat.mul_pos hpos one_pos).ne').mpr ?_
        rw [Nat.pow_add]
        exact Nat.mul_lt_mul_of_pos_right hm one_pos
      omega
  have hone : one = 2 ^ shift (m * d) d * 2 ^ (fractionBits - shift (m * d) d) := by
    rw [← Nat.pow_add, Nat.add_sub_cancel' hshift, one]
  have hpos : 0 < d * 2 ^ shift (m * d) d := Nat.mul_pos hd (Nat.two_pow_pos _)
  have hmul : m * d * one =
      d * 2 ^ shift (m * d) d * (m * 2 ^ (fractionBits - shift (m * d) d)) := by
    rw [hone]
    ring
  unfold quotient
  rw [roundHalfEven_of_dvd hpos (Dvd.intro _ hmul.symm), hmul, Nat.mul_div_cancel_left _ hpos,
    Nat.mul_assoc, Nat.mul_comm (2 ^ _) (2 ^ _), ← hone]

/-- **The ceiling of a rounded quotient is the ceiling of the quotient,** for numbers of no more
than 53 bits. -/
theorem ceil_quotient (hd : 0 < d) (hd' : d < 2 ^ 53) (hn : n < 2 ^ 53) :
    ceil (quotient n d) = (n + (d - 1)) / d := by
  have hone := one_pos
  have hdiv := Nat.div_add_mod' n d
  have hmod := Nat.mod_lt n hd
  obtain hzero | hpos := Nat.eq_zero_or_pos (n % d)
  · have hmul : n = n / d * d := by omega
    have hle : n / d < 2 ^ 53 := Nat.lt_of_le_of_lt (Nat.div_le_self n d) hn
    have hquotient := quotient_of_mul hd hle
    rw [← hmul] at hquotient
    have hunits : (n / d * one + (one - 1)) / one = n / d := by
      rw [Nat.add_comm, Nat.add_mul_div_right _ _ hone, Nat.div_eq_of_lt (by omega), Nat.zero_add]
    have hwhole : (n + (d - 1)) / d = n / d := by
      refine (Nat.div_eq_iff hd).mpr ?_
      omega
    rw [ceil, hquotient, hunits, hwhole]
  · -- the error is less than the distance of the quotient to the integers next to it
    have herror : d * 2 ^ shift n d < 2 * one := by
      obtain hshift | hshift := Nat.eq_zero_or_pos (shift n d)
      · have hle := two_pow_le_one
        rw [hshift, Nat.pow_zero, Nat.mul_one]
        omega
      · have hle := two_pow_shift_le hd hshift.ne'
        rw [Nat.pow_add] at hle
        have hlt : n * one < 2 ^ 53 * one := Nat.mul_lt_mul_of_pos_right hn hone
        have hcomm : 2 ^ shift n d * 2 ^ 52 * d = 2 ^ 52 * (d * 2 ^ shift n d) := by ring
        omega
    obtain ⟨hlow, hhigh⟩ := roundHalfEven_near (n := n * one)
      (Nat.mul_pos hd (Nat.two_pow_pos (shift n d)))
    have hquotient : roundHalfEven (n * one) (d * 2 ^ shift n d) * (d * 2 ^ shift n d) =
        quotient n d * d := by
      unfold quotient
      ring
    rw [hquotient] at hlow hhigh
    have hbelow : n / d * one < quotient n d := by
      have hle : (n / d * d + 1) * one ≤ n * one := Nat.mul_le_mul_right _ (by omega)
      have hcomm : (n / d * d + 1) * one = n / d * one * d + one := by ring
      exact Nat.lt_of_mul_lt_mul_right (a := d) (by omega)
    have habove : quotient n d < (n / d + 1) * one := by
      have hle : (n + 1) * one ≤ (n / d + 1) * d * one := by
        refine Nat.mul_le_mul_right _ ?_
        rw [Nat.add_mul]
        omega
      have hcomm : (n / d + 1) * d * one = (n / d + 1) * one * d := by ring
      have hsucc : (n + 1) * one = n * one + one := by ring
      exact Nat.lt_of_mul_lt_mul_right (a := d) (by omega)
    have hunits : (quotient n d + (one - 1)) / one = n / d + 1 := by
      refine (Nat.div_eq_iff hone).mpr ?_
      rw [Nat.add_mul] at habove ⊢
      omega
    have hnext : (n + (d - 1)) / d = n / d + 1 := by
      refine (Nat.div_eq_iff hd).mpr ?_
      rw [Nat.add_mul]
      omega
    rw [ceil, hunits, hnext]

end Rounding

end Binary64
