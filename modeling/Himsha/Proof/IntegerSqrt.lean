import Mathlib.Algebra.Order.Ring.Nat
import Mathlib.Data.Nat.Sqrt
import Himsha.Programs.Swap

/-!
# The integer square root

`integer_sqrt` is a Newton iteration from above. A step never falls below the root, so the loop
comes down to it and stops there: a step that does not go further down is at the root
(`newton_stops`). Nothing overflows on the way, in either build.
-/

set_option autoImplicit false

namespace Himsha
namespace Proof

open Himsha.Lib Himsha.Programs

/-- A Newton step never falls below the root: with `q = n / y`, twice the next value is at least
    `y + q - 1`, and `4 * y * (q + 1) ≤ (y + q + 1) ^ 2`. -/
theorem newton_above {n y : Nat} (hy : 0 < y) : n < ((y + n / y) / 2 + 1) ^ 2 := by
  have hq : n < y * (n / y + 1) := Nat.lt_mul_div_succ n hy
  generalize n / y = q at hq ⊢
  have hhalf : y + (q + 1) ≤ 2 * ((y + q) / 2 + 1) := by omega
  have hbelow : 4 * (y * (q + 1)) ≤ 4 * ((y + q) / 2 + 1) ^ 2 :=
    calc 4 * (y * (q + 1)) = 4 * y * (q + 1) := (Nat.mul_assoc ..).symm
      _ ≤ (y + (q + 1)) ^ 2 := four_mul_le_sq_add y (q + 1)
      _ ≤ (2 * ((y + q) / 2 + 1)) ^ 2 := Nat.pow_le_pow_left hhalf 2
      _ = 4 * ((y + q) / 2 + 1) ^ 2 := Nat.mul_pow ..
  omega

/-- A value above the root from which a step does not go down is the root. -/
theorem newton_stops {n x : Nat} (habove : n < (x + 1) ^ 2) (hstop : x ≤ (x + n / x) / 2) :
    x = Nat.sqrt n := by
  have hle : x ≤ n / x := by omega
  refine Nat.eq_sqrt'.mpr ⟨?_, habove⟩
  calc x ^ 2 = x * x := Nat.pow_two x
    _ ≤ x * (n / x) := Nat.mul_le_mul_left x hle
    _ ≤ n := Nat.mul_div_le n x

/-- **The loop.** `y` is the step from `x`; both are above the root. -/
theorem sqrtLoop_root (π : Profile) {n : UInt64} (hn : n ≠ 0) (x y : UInt64) (hy : 0 < y.toNat)
    (hhalf : y.toNat ≤ 2 ^ 63) (hx : n.toNat < (x.toNat + 1) ^ 2)
    (hstep : y.toNat = (x.toNat + n.toNat / x.toNat) / 2) (habove : n.toNat < (y.toNat + 1) ^ 2) :
    ∃ r, Swap.sqrtLoop π n x y = some r ∧ r.toNat = Nat.sqrt n.toNat := by
  have hn' : 0 < n.toNat := Nat.pos_of_ne_zero fun h => hn (UInt64.toNat_inj.mp h)
  have hnmax := n.toNat_lt
  induction x, y using Swap.sqrtLoop.induct with
  | case1 x y hlt ih =>
    have hzero : y ≠ 0 := by
      rintro rfl
      exact absurd hy (Nat.lt_irrefl 0)
    have hfits : y.toNat + (n / y).toNat < 2 ^ 64 := by
      rw [UInt64.toNat_div]
      by_cases hone : y.toNat = 1
      · rw [hone] at habove ⊢
        omega
      · have hquot : n.toNat / y.toNat ≤ n.toNat / 2 := Nat.div_le_div_left (by omega) (by decide)
        omega
    have hquot : 2 ≤ y.toNat + n.toNat / y.toNat := by
      by_cases hone : y.toNat = 1
      · rw [hone, Nat.div_one]
        omega
      · exact Nat.le_trans (by omega) (Nat.le_add_right y.toNat _)
    have hnext : ((UInt64.ofNat (y.toNat + (n / y).toNat)) / 2).toNat =
        (y.toNat + n.toNat / y.toNat) / 2 := by
      rw [UInt64.toNat_div, UInt64.toNat_ofNat_of_lt' hfits, UInt64.toNat_div]
      rfl
    have hadd : addU64 π y (n / y) = some (UInt64.ofNat (y.toNat + (n / y).toNat)) := by
      unfold addU64 Profile.plain
      rw [if_pos hfits]
      rfl
    rw [Swap.sqrtLoop, if_pos hlt, divU64, if_neg hzero, Option.bind_some, hadd, Option.bind_some]
    rw [UInt64.toNat_div] at hfits
    refine ih _ ?_ ?_ habove hnext ?_
    · rw [hnext]
      omega
    · rw [hnext]
      omega
    · rw [hnext]
      exact newton_above hy
  | case2 x y hge =>
    refine ⟨x, by rw [Swap.sqrtLoop, if_neg hge], newton_stops hx ?_⟩
    rw [← hstep]
    exact UInt64.le_iff_toNat_le.mp (UInt64.not_lt.mp hge)

/-- `div_ceil` by two does not overflow. -/
theorem divCeil_two (n : UInt64) : (n / 2 + n % 2).toNat = (n.toNat + 1) / 2 := by
  have hnmax := n.toNat_lt
  rw [UInt64.toNat_add, UInt64.toNat_div, UInt64.toNat_mod]
  change (n.toNat / 2 + n.toNat % 2) % 2 ^ 64 = _
  omega

/-- **The whole.** The first step is the one from `n` itself. -/
theorem integerSqrt_root (π : Profile) (n : UInt64) :
    ∃ r, Swap.integerSqrt π n = some r ∧ r.toNat = Nat.sqrt n.toNat := by
  unfold Swap.integerSqrt
  split
  · rename_i hzero
    exact ⟨0, rfl, by rw [hzero]; rfl⟩
  · rename_i hn
    have hn' : 0 < n.toNat := Nat.pos_of_ne_zero fun h => hn (UInt64.toNat_inj.mp h)
    have hnmax := n.toNat_lt
    have hstart := divCeil_two n
    have hfirst : (n / 2 + n % 2).toNat = (n.toNat + n.toNat / n.toNat) / 2 := by
      rw [hstart, Nat.div_self hn']
    have hwide : n.toNat < (n.toNat + 1) ^ 2 := by
      rw [Nat.pow_two]
      exact Nat.lt_of_lt_of_le (Nat.lt_succ_self _) (Nat.le_mul_of_pos_right _ (Nat.succ_pos _))
    refine sqrtLoop_root π hn _ _ ?_ ?_ hwide hfirst ?_
    · omega
    · omega
    · rw [hfirst]
      exact newton_above hn'

theorem integerSqrt_isSome (n : UInt64) : (Swap.integerSqrt .dev n).isSome = true := by
  obtain ⟨r, hr, -⟩ := integerSqrt_root .dev n
  rw [hr]
  rfl

end Proof
end Himsha
