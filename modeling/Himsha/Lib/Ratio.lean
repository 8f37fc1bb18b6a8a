import Mathlib.Algebra.Order.Field.Rat
import Mathlib.Algebra.Order.Floor.Div
import Mathlib.Data.Nat.Cast.Order.Field
import Mathlib.Data.Rat.Cast.Order
import Mathlib.Tactic.FieldSimp
import Mathlib.Tactic.Linarith
import Mathlib.Tactic.Positivity
import Mathlib.Tactic.Ring

/-!
# Ratios of natural numbers under rounding

A pool of value `P` is divided into `S` shares, and a step changes both. Fractions are not formed:
that the value of a share does not fall is `P * S' ≤ P' * S`. What decides it is on which side of
the exact quotient the amount lies that is given for the shares, or the shares for the amount.

A part of a pool is worth its quotient rounded down. Whether it is worth just the amount more that
was paid for new shares is seen in what the rounding hides, before and after.

The constant product is the other shape. Taking out a quotient that was rounded down leaves at
least the product that was there.

And an amount can follow an index, growing as the index grows. Where it is rounded down at each
index on the way, it is behind what one step would have made of it, by less than a unit for each,
grown in turn.
-/

set_option autoImplicit false

namespace Himsha
namespace Lib
namespace Ratio

/-! ## Shares of a pool -/

section
variable {P S a s : Nat}

/-- Shares that were paid for do not lower the others. -/
theorem issue_le_iff : P * (S + s) ≤ (P + a) * S ↔ P * s ≤ a * S := by
  rw [Nat.mul_add, Nat.add_mul]
  exact Nat.add_le_add_iff_left

/-- Nor do shares that are given back for at most what they are worth. -/
theorem redeem_le_iff (ha : a ≤ P) (hs : s ≤ S) :
    P * (S - s) ≤ (P - a) * S ↔ a * S ≤ P * s := by
  rw [Nat.mul_sub, Nat.sub_mul]
  have hpaid : a * S ≤ P * S := Nat.mul_le_mul_right S ha
  have hburned : P * s ≤ P * S := Nat.mul_le_mul_left P hs
  omega

/-- Shares for an amount, rounded down. -/
theorem issue_floor (P S a : Nat) : P * (a * S / P) ≤ a * S := Nat.mul_div_le (a * S) P

/-- Shares for an amount, rounded up. -/
theorem redeem_ceil (hP : 0 < P) (S a : Nat) : a * S ≤ P * (a * S ⌈/⌉ P) := by
  have hceil : a * S ≤ P • (a * S ⌈/⌉ P) := le_smul_ceilDiv hP
  rwa [smul_eq_mul] at hceil

/-- Rounded up, they are still no more than there are. -/
theorem ceil_le (hP : 0 < P) (ha : a ≤ P) : a * S ⌈/⌉ P ≤ S := by
  rw [ceilDiv_le_iff_le_mul hP]
  exact Nat.mul_le_mul_right S ha

/-- Nor does what is given for `s` shares where each share brings `u * k` for the `p * B` that are
    taken, rounded down twice, and what there is covers all shares at that rate. -/
theorem redeem_covered {u k p B : Nat} (hp : 0 < p) (hB : 0 < B) (hcover : S * u * k ≤ P * p * B)
    (ha : a ≤ s * u / p * k / B) : a * S ≤ P * s := by
  have htaken : a * (p * B) ≤ s * u * k := by
    calc a * (p * B) ≤ s * u / p * k / B * (p * B) := Nat.mul_le_mul_right _ ha
      _ = s * u / p * k / B * B * p := by ring
      _ ≤ s * u / p * k * p := Nat.mul_le_mul_right p (Nat.div_mul_le_self _ B)
      _ = s * u / p * p * k := by ring
      _ ≤ s * u * k := Nat.mul_le_mul_right k (Nat.div_mul_le_self _ p)
  refine Nat.le_of_mul_le_mul_right ?_ (Nat.mul_pos hp hB)
  calc a * S * (p * B) = a * (p * B) * S := by ring
    _ ≤ s * u * k * S := Nat.mul_le_mul_right S htaken
    _ = s * (S * u * k) := by ring
    _ ≤ s * (P * p * B) := Nat.mul_le_mul_left s hcover
    _ = P * s * (p * B) := by ring

/-- An amount for shares, rounded down, is an exact price only where there is no remainder. -/
theorem issue_price_iff : P * s ≤ s * P / S * S ↔ S ∣ s * P := by
  rw [Nat.mul_comm P s]
  constructor
  · intro h
    exact ⟨s * P / S, by rw [Nat.mul_comm S]; exact Nat.le_antisymm h (Nat.div_mul_le_self _ _)⟩
  · intro h
    exact Nat.le_of_eq (Nat.div_mul_cancel h).symm

end

/-! ## A part of a pool -/

section
variable {w D M c : ℤ}

/-- A quotient is a multiple of `M` where what remains of the division by both is below the
    divisor. -/
theorem ediv_emod_eq_zero_iff (hD : 0 < D) (hM : 0 < M) : w / D % M = 0 ↔ w % (D * M) < D := by
  have hrest := Int.emod_nonneg (w / D) hM.ne'
  have hless := Int.emod_lt_of_pos (w / D) hM
  have hrest' := Int.emod_nonneg w hD.ne'
  have hless' := Int.emod_lt_of_pos w hD
  have hsplit : w % (D * M) = D * (w / D % M) + w % D := by
    have hbound : D * (w / D % M) + w % D < D * M := by
      calc D * (w / D % M) + w % D < D * (w / D % M) + D := by linarith
        _ = D * (w / D % M + 1) := by ring
        _ ≤ D * M := mul_le_mul_of_nonneg_left (by linarith) hD.le
    have hsum : D * (w / D % M) + w % D + D * M * (w / D / M) = w := by
      calc D * (w / D % M) + w % D + D * M * (w / D / M)
          = D * (M * (w / D / M) + w / D % M) + w % D := by ring
        _ = w := by rw [Int.mul_ediv_add_emod, Int.mul_ediv_add_emod]
    exact ((Int.ediv_emod_unique (mul_pos hD hM)).mpr ⟨hsum, by positivity, hbound⟩).2
  rw [hsplit]
  constructor
  · intro hzero
    rw [hzero, mul_zero, zero_add]
    exact hless'
  · intro hlt
    have hone : D * (w / D % M) < D * 1 := by linarith
    have := lt_of_mul_lt_mul_left hone hD.le
    linarith

theorem add_emod_eq_iff (h : 0 ≤ c) (h' : c < M) : (w + c) % M = c ↔ w % M = 0 := by
  have hM : 0 < M := lt_of_le_of_lt h h'
  rw [Int.emod_eq_iff hM.ne', Int.natAbs_of_nonneg hM.le, ← Int.dvd_iff_emod_eq_zero]
  have hneg : c - (w + c) = -w := by ring
  rw [hneg, dvd_neg]
  exact ⟨fun h => h.2.2, fun hdvd => ⟨h, h', hdvd⟩⟩

variable {T P L V a s : ℤ}

/-- What a part `L` of the `T` shares of a pool `P` is worth beyond `V + a`, after `s` shares were
    added to it for `a`, in units of `1 / (T * (T + s))`: what it was worth beyond `V`, less what
    rounding the shares cost it. -/
def overhang (T P L V a s : ℤ) : ℤ := (L * P - V * T) * (T + s) - (a * T - s * P) * (T - L)

theorem overhang_eq : overhang T P L V a s = T * ((L + s) * (P + a) - (V + a) * (T + s)) := by
  unfold overhang
  ring

/-- **When a part is worth `a` more.** Its value is rounded down, and read modulo `M`; `k` is what
    the product may have lost before. -/
theorem part_worth_iff {k : ℤ} (hT : 0 < T) (hD : 0 < T + s) (h : 0 ≤ V + a) (h' : V + a < M) :
    ((L + s) * (P + a) - k) / (T + s) % M = V + a ↔
      (overhang T P L V a s - T * k) % (T * (T + s) * M) < T * (T + s) := by
  have hM : 0 < M := lt_of_le_of_lt h h'
  have hdiv : ((L + s) * (P + a) - k) / (T + s) =
      ((L + s) * (P + a) - (V + a) * (T + s) - k) / (T + s) + (V + a) := by
    rw [← Int.add_mul_ediv_right _ _ hD.ne']
    congr 1
    ring
  rw [hdiv, add_emod_eq_iff h h', ediv_emod_eq_zero_iff hD hM, overhang_eq, ← mul_sub, mul_assoc T,
    Int.mul_emod_mul_of_pos _ _ hT]
  exact (mul_lt_mul_iff_right₀ hT).symm

end
/-! ## Constant product -/

section
variable {x y d f : Nat}

/-- What a trade pays out is less than what is there. -/
theorem quote_lt (hx : 0 < x) (hy : 0 < y) : y * f / (x + f) < y := by
  rw [Nat.div_lt_iff_lt_mul (Nat.add_pos_left hx f), Nat.mul_add]
  have hpos : 0 < y * x := Nat.mul_pos hy hx
  omega

/-- **A trade keeps the product.** `d` goes in, of which `f` counts. -/
theorem product_le (hf : f ≤ d) : x * y ≤ (x + d) * (y - y * f / (x + f)) := by
  have hquote : y * f / (x + f) * (x + f) ≤ y * f := Nat.div_mul_le_self _ _
  calc x * y = (x + f) * y - y * f := by
        rw [Nat.add_mul, Nat.mul_comm f y, Nat.add_sub_cancel]
    _ ≤ (x + f) * y - y * f / (x + f) * (x + f) := Nat.sub_le_sub_left hquote _
    _ = (x + f) * (y - y * f / (x + f)) := by rw [Nat.mul_sub, Nat.mul_comm (_ / _)]
    _ ≤ (x + d) * (y - y * f / (x + f)) := Nat.mul_le_mul_right _ (Nat.add_le_add_left hf x)

end

/-! ## Following an index -/

/-- An amount `d` that was right at the index `s`, brought to each of the indices in turn and
    rounded down there. -/
def compound (d s : Nat) : List Nat → Nat
  | [] => d
  | i :: is => compound (d * i / s) i is

/-- Nothing is rounded off before the last index. -/
def Evenly (d s : Nat) : List Nat → Prop
  | [] | [_] => True
  | i :: j :: is => s ∣ d * i ∧ Evenly (d * i / s) i (j :: is)

/-- A unit for each of the indices, grown up to the last. -/
def lag (last : Nat) (is : List Nat) : ℚ := (is.map fun i : Nat => (last / i : ℚ)).sum

section
variable {s : Nat}

/-- **It is never ahead** of what one step makes of it. -/
theorem compound_le : ∀ {is : List Nat} (d : Nat) {s : Nat}, 0 < s → (∀ i ∈ is, 0 < i) →
    compound d s is ≤ d * is.getLastD s / s := by
  intro is
  induction is with
  | nil =>
    intro d s hs _
    rw [compound, List.getLastD_nil, Nat.mul_div_cancel _ hs]
  | cons i is ih =>
    intro d s hs hpos
    have hi : 0 < i := hpos i List.mem_cons_self
    rw [compound, List.getLastD_cons, Nat.le_div_iff_mul_le hs]
    have hrest := ih (d * i / s) hi fun j hj => hpos j (List.mem_cons_of_mem _ hj)
    rw [Nat.le_div_iff_mul_le hi] at hrest
    refine Nat.le_of_mul_le_mul_right ?_ hi
    calc compound (d * i / s) i is * s * i = compound (d * i / s) i is * i * s := by ring
      _ ≤ d * i / s * is.getLastD i * s := Nat.mul_le_mul_right s hrest
      _ = d * i / s * s * is.getLastD i := by ring
      _ ≤ d * i * is.getLastD i := Nat.mul_le_mul_right _ (Nat.div_mul_le_self _ _)
      _ = d * is.getLastD i * i := by ring

/-- Nor is it behind where nothing is rounded off on the way. -/
theorem compound_even : ∀ {is : List Nat} (d : Nat) {s : Nat}, 0 < s → (∀ i ∈ is, 0 < i) →
    Evenly d s is → compound d s is = d * is.getLastD s / s := by
  intro is
  induction is with
  | nil =>
    intro d s hs _ _
    rw [compound, List.getLastD_nil, Nat.mul_div_cancel _ hs]
  | cons i is ih =>
    intro d s hs hpos heven
    have hi : 0 < i := hpos i List.mem_cons_self
    cases is with
    | nil => rfl
    | cons j is =>
      obtain ⟨⟨q, hq⟩, hrest⟩ := heven
      rw [compound, ih (d * i / s) hi (fun k hk => hpos k (List.mem_cons_of_mem _ hk)) hrest]
      simp only [List.getLastD_cons]
      rw [hq, Nat.mul_div_cancel_left _ hs]
      calc q * is.getLastD j / i = q * is.getLastD j * s / (i * s) :=
            (Nat.mul_div_mul_right _ _ hs).symm
        _ = d * is.getLastD j * i / (s * i) := by
            rw [Nat.mul_comm i s]
            congr 1
            calc q * is.getLastD j * s = s * q * is.getLastD j := by ring
              _ = d * is.getLastD j * i := by rw [← hq]; ring
        _ = d * is.getLastD j / s := Nat.mul_div_mul_right _ _ hi

/-- What rounding down at one index can lose, once it has grown to `last`. -/
theorem rounded_lt {d s i last : Nat} (hs : 0 < s) (hi : 0 < i) (hlast : 0 < last) :
    (d * last / s : ℚ) < (d * i / s : Nat) * last / i + last / i := by
  have hs' : (0 : ℚ) < s := Nat.cast_pos.mpr hs
  have hi' : (0 : ℚ) < i := Nat.cast_pos.mpr hi
  have hgrow : (0 : ℚ) < last / i := div_pos (Nat.cast_pos.mpr hlast) hi'
  have hfloor : (d * i / s : ℚ) < (d * i / s : Nat) + 1 := by
    rw [div_lt_iff₀ hs']
    rw [add_mul, one_mul]
    exact_mod_cast Nat.lt_div_mul_add hs
  calc (d * last / s : ℚ) = d * i / s * (last / i) := by field_simp
    _ < ((d * i / s : Nat) + 1) * (last / i) := mul_lt_mul_of_pos_right hfloor hgrow
    _ = (d * i / s : Nat) * last / i + last / i := by ring

theorem getLastD_pos : ∀ {is : List Nat} {s : Nat}, 0 < s → (∀ i ∈ is, 0 < i) →
    0 < is.getLastD s := by
  intro is
  induction is with
  | nil => exact fun hs _ => hs
  | cons i is ih =>
    intro s _ hpos
    rw [List.getLastD_cons]
    exact ih (hpos i List.mem_cons_self) fun j hj => hpos j (List.mem_cons_of_mem _ hj)

/-- What is lost on the way. -/
theorem le_compound : ∀ {is : List Nat} (d : Nat) {s : Nat}, 0 < s → (∀ i ∈ is, 0 < i) →
    (d * is.getLastD s / s : ℚ) ≤
      compound d s is + lag (is.getLastD s) is := by
  intro is
  induction is with
  | nil =>
    intro d s hs _
    have hs' : (s : ℚ) ≠ 0 := Nat.cast_ne_zero.mpr (Nat.pos_iff_ne_zero.mp hs)
    rw [List.getLastD_nil, mul_div_cancel_right₀ _ hs', compound, lag, List.map_nil, List.sum_nil,
      add_zero]
  | cons i is ih =>
    intro d s hs hpos
    have hi : 0 < i := hpos i List.mem_cons_self
    have hpos' : ∀ j ∈ is, 0 < j := fun j hj => hpos j (List.mem_cons_of_mem _ hj)
    have hrest := ih (d * i / s) hi hpos'
    have hfirst := rounded_lt (d := d) hs hi (getLastD_pos hi hpos')
    rw [lag, List.map_cons, List.sum_cons, List.getLastD_cons, compound]
    change _ ≤ _ + (_ + lag _ is)
    linarith

/-- **It is behind by less.** -/
theorem lt_compound {is : List Nat} (d : Nat) (hs : 0 < s) (hpos : ∀ i ∈ is, 0 < i)
    (hne : is ≠ []) :
    (d * is.getLastD s / s : ℚ) <
      compound d s is + lag (is.getLastD s) is := by
  cases is with
  | nil => exact absurd rfl hne
  | cons i is =>
    have hi : 0 < i := hpos i List.mem_cons_self
    have hpos' : ∀ j ∈ is, 0 < j := fun j hj => hpos j (List.mem_cons_of_mem _ hj)
    have hrest := le_compound (d * i / s) hi hpos'
    have hfirst := rounded_lt (d := d) hs hi (getLastD_pos hi hpos')
    rw [lag, List.map_cons, List.sum_cons, List.getLastD_cons, compound]
    change _ < _ + (_ + lag _ is)
    linarith

end

end Ratio
end Lib
end Himsha
