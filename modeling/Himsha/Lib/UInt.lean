import Mathlib.Data.UInt
import Mathlib.Tactic.Common

/-!
# Fixed-width unsigned arithmetic, the way a compiled program does it

A plain `+`, `-` or `*` on a machine integer has two meanings, and which one a binary gets is
decided by the profile it was built with: with overflow checks the program panics, without
them the result wraps. `Profile` is that choice, and `Profile.plain` is the one place where it
is made. The `checked_*` and `saturating_*` families do not depend on it.

Everything is stated through `toNat`, so that a caller reasons with `omega` and never about
bit patterns.
-/

set_option autoImplicit false

namespace Himsha
namespace Lib

/-- The build profile: `dev` has overflow checks on, `release` has them off. -/
inductive Profile where
  | dev
  | release
deriving DecidableEq, Repr

/-- The value a plain operator leaves in a `w`-bit register when its exact result is `n`;
    `none` is the overflow panic. -/
def Profile.plain (π : Profile) (w n : Nat) : Option Nat :=
  if n < 2 ^ w then some n
  else match π with
    | .dev => none
    | .release => some (n % 2 ^ w)

theorem Profile.plain_lt {π : Profile} {w n r : Nat} (h : π.plain w n = some r) :
    r < 2 ^ w := by
  unfold Profile.plain at h
  split at h
  · simp only [Option.some.injEq] at h
    omega
  · cases π with
    | dev => simp at h
    | release =>
      simp only [Option.some.injEq] at h
      subst h
      exact Nat.mod_lt _ (Nat.two_pow_pos w)

/-! ## `u64` -/

/-- Plain `a + b`. -/
def addU64 (π : Profile) (a b : UInt64) : Option UInt64 :=
  (π.plain 64 (a.toNat + b.toNat)).map UInt64.ofNat

/-- Plain `a - b`. -/
def subU64 (π : Profile) (a b : UInt64) : Option UInt64 :=
  if b ≤ a then some (a - b)
  else match π with
    | .dev => none
    | .release => some (a - b)

/-- `a.checked_add(b)`. -/
def checkedAdd (a b : UInt64) : Option UInt64 :=
  if a.toNat + b.toNat < 2 ^ 64 then some (a + b) else none

/-- `a.checked_sub(b)`. -/
def checkedSub (a b : UInt64) : Option UInt64 :=
  if b ≤ a then some (a - b) else none

/-- `a.checked_mul(b)`. -/
def checkedMul (a b : UInt64) : Option UInt64 :=
  if a.toNat * b.toNat < 2 ^ 64 then some (a * b) else none

/-- `a.checked_div(b)`. -/
def checkedDiv (a b : UInt64) : Option UInt64 :=
  if b = 0 then none else some (a / b)

/-- `a.saturating_add(b)`. -/
def saturatingAdd (a b : UInt64) : UInt64 :=
  UInt64.ofNat (min (a.toNat + b.toNat) (2 ^ 64 - 1))

/-- `a.saturating_sub(b)`. -/
def saturatingSub (a b : UInt64) : UInt64 :=
  if b ≤ a then a - b else 0

/-- `a.saturating_mul(b)`. -/
def saturatingMul (a b : UInt64) : UInt64 :=
  UInt64.ofNat (min (a.toNat * b.toNat) (2 ^ 64 - 1))

/-- Plain `a / b`, which panics on zero in every build. -/
def divU64 (a b : UInt64) : Option UInt64 :=
  if b = 0 then none else some (a / b)

/-! ## `u128`

Intermediate values of this width are natural numbers below `2 ^ 128`. -/

/-- A `checked_*` result. -/
def checkedU128 (n : Nat) : Option Nat :=
  if n < 2 ^ 128 then some n else none

/-- Plain `a + b`. -/
def addU128 (π : Profile) (a b : Nat) : Option Nat := π.plain 128 (a + b)

/-- Plain `a * b`. -/
def mulU128 (π : Profile) (a b : Nat) : Option Nat := π.plain 128 (a * b)

/-- Plain `a / b`, and `a.checked_div(b)`. -/
def divU128 (a b : Nat) : Option Nat :=
  if b = 0 then none else some (a / b)

/-- `a.div_ceil(b)`. -/
def divCeilU128 (a b : Nat) : Option Nat :=
  if b = 0 then none else some (a / b + if a % b = 0 then 0 else 1)

/-- `n as u64`, which keeps the low 64 bits. -/
def asU64 (n : Nat) : UInt64 := UInt64.ofNat n

theorem checkedMul_eq_some {a b c : UInt64} (h : checkedMul a b = some c) :
    a.toNat * b.toNat < 2 ^ 64 ∧ c.toNat = a.toNat * b.toNat := by
  unfold checkedMul at h
  split at h
  · rename_i hfits
    rw [← Option.some.inj h, UInt64.toNat_mul, Nat.mod_eq_of_lt hfits]
    exact ⟨hfits, rfl⟩
  · cases h

theorem checkedAdd_eq_some {a b c : UInt64} (h : checkedAdd a b = some c) :
    c.toNat = a.toNat + b.toNat := by
  unfold checkedAdd at h
  split at h
  · rename_i hlt
    simp only [Option.some.injEq] at h
    subst h
    rw [UInt64.toNat_add, Nat.mod_eq_of_lt hlt]
  · simp at h

theorem checkedSub_eq_some {a b c : UInt64} (h : checkedSub a b = some c) :
    c.toNat + b.toNat = a.toNat := by
  unfold checkedSub at h
  split at h
  · rename_i hle
    simp only [Option.some.injEq] at h
    subst h
    have hle' := UInt64.le_iff_toNat_le.mp hle
    rw [UInt64.toNat_sub_of_le _ _ hle]
    omega
  · simp at h

/-- Where nothing is borrowed, a plain subtraction is exact in every build. -/
theorem subU64_eq_some {π : Profile} {a b c : UInt64} (hle : b ≤ a) (h : subU64 π a b = some c) :
    c.toNat + b.toNat = a.toNat := by
  unfold subU64 at h
  rw [if_pos hle, Option.some.injEq] at h
  subst h
  have hle' := UInt64.le_iff_toNat_le.mp hle
  rw [UInt64.toNat_sub_of_le _ _ hle]
  omega

theorem saturatingSub_toNat (a b : UInt64) : (saturatingSub a b).toNat = a.toNat - b.toNat := by
  unfold saturatingSub
  split
  · rename_i hle
    exact UInt64.toNat_sub_of_le _ _ hle
  · rename_i hlt
    have hlt' := UInt64.le_iff_toNat_le.not.mp hlt
    have hzero : (0 : UInt64).toNat = 0 := rfl
    omega

theorem saturatingMul_toNat (a b : UInt64) :
    (saturatingMul a b).toNat = min (a.toNat * b.toNat) (2 ^ 64 - 1) := by
  unfold saturatingMul
  rw [UInt64.toNat_ofNat_of_lt']
  exact Nat.lt_of_le_of_lt (Nat.min_le_right _ _) (by decide)

theorem saturatingAdd_toNat (a b : UInt64) :
    (saturatingAdd a b).toNat = min (a.toNat + b.toNat) (2 ^ 64 - 1) := by
  unfold saturatingAdd
  rw [UInt64.toNat_ofNat_of_lt']
  exact Nat.lt_of_le_of_lt (Nat.min_le_right _ _) (by decide)

theorem toNat_min (a b : UInt64) : (min a b).toNat = min a.toNat b.toNat := by
  rw [UInt64.min_def]
  split
  · rename_i hle
    exact (Nat.min_eq_left (UInt64.le_iff_toNat_le.mp hle)).symm
  · rename_i hlt
    have hlt' := UInt64.le_iff_toNat_le.not.mp hlt
    exact (Nat.min_eq_right (Nat.le_of_not_le hlt')).symm

theorem toNat_max (a b : UInt64) : (max a b).toNat = max a.toNat b.toNat := by
  rw [UInt64.max_def]
  split
  · rename_i hle
    exact (Nat.max_eq_right (UInt64.le_iff_toNat_le.mp hle)).symm
  · rename_i hlt
    have hlt' := UInt64.le_iff_toNat_le.not.mp hlt
    exact (Nat.max_eq_left (Nat.le_of_not_le hlt')).symm

/-- A plain addition that returns at all returns the sum, or wraps in a release build. -/
theorem addU64_eq_some {π : Profile} {a b c : UInt64} (h : addU64 π a b = some c) :
    c.toNat = a.toNat + b.toNat ∨
      (π = .release ∧ 2 ^ 64 ≤ a.toNat + b.toNat ∧ c.toNat + 2 ^ 64 = a.toNat + b.toNat) := by
  unfold addU64 at h
  obtain ⟨r, hr, rfl⟩ := Option.map_eq_some_iff.mp h
  have hlt := Profile.plain_lt hr
  rw [UInt64.toNat_ofNat_of_lt' hlt]
  unfold Profile.plain at hr
  split at hr
  · simp only [Option.some.injEq] at hr
    exact Or.inl hr.symm
  · cases π with
    | dev => simp at hr
    | release =>
      simp only [Option.some.injEq] at hr
      have ha := a.toNat_lt
      have hb := b.toNat_lt
      exact Or.inr ⟨rfl, by omega, by omega⟩

/-- Where it returns, a plain addition is the addition of the type. -/
theorem addU64_eq {π : Profile} {a b c : UInt64} (h : addU64 π a b = some c) : c = a + b := by
  apply UInt64.toNat_inj.mp
  rw [UInt64.toNat_add]
  have hc := c.toNat_lt
  obtain hsum | ⟨-, -, hsum⟩ := addU64_eq_some h
  · omega
  · omega

end Lib
end Himsha
