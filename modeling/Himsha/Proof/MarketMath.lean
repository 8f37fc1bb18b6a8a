import Himsha.Programs.Vault

/-!
# The market's arithmetic over natural numbers

The money market computes in plain `u128`. Where its products fit, each function is a formula over
natural numbers, and this file says what the formula is and when it fits. Most products have two
`u64` factors and always do. Five have a third factor: the interest on the total borrows, the debt
of a position brought up to a new index, two bounds on a debt and the collateral that is seized;
and the value of a lender's shares multiplies them by a sum.
-/

set_option autoImplicit false

namespace Himsha
namespace Proof

open Himsha.Lib Himsha.Programs
open MoneyMarket hiding bps

/-! ## The operations -/

theorem mulU128_fits {π : Profile} {a b : Nat} (h : a * b < 2 ^ 128) :
    mulU128 π a b = some (a * b) :=
  if_pos h

theorem addU128_fits {π : Profile} {a b : Nat} (h : a + b < 2 ^ 128) :
    addU128 π a b = some (a + b) :=
  if_pos h

/-- A product that wraps around is less than the product. -/
theorem mulU128_le {π : Profile} {a b c : Nat} (h : mulU128 π a b = some c) : c ≤ a * b := by
  unfold mulU128 Profile.plain at h
  split at h
  · exact Nat.le_of_eq (Option.some.inj h).symm
  · cases π with
    | dev => cases h
    | release => exact Option.some.inj h ▸ Nat.mod_le _ _

theorem asU64_le (n : Nat) : (asU64 n).toNat ≤ n := by
  unfold asU64
  rw [UInt64.toNat_ofNat']
  exact Nat.mod_le _ _

theorem divU128_pos {a b : Nat} (h : b ≠ 0) : divU128 a b = some (a / b) := if_neg h

section
variable {α : Type} {a b : Nat} {f : Nat → Option α}

theorem mul_isSome : ((mulU128 .dev a b).bind f).isSome = true ↔
    a * b < 2 ^ 128 ∧ (f (a * b)).isSome = true := by
  unfold mulU128 Profile.plain
  split
  · exact (and_iff_right ‹_›).symm
  · exact iff_of_false nofun fun h => absurd h.1 ‹_›

theorem add_isSome : ((addU128 .dev a b).bind f).isSome = true ↔
    a + b < 2 ^ 128 ∧ (f (a + b)).isSome = true := by
  unfold addU128 Profile.plain
  split
  · exact (and_iff_right ‹_›).symm
  · exact iff_of_false nofun fun h => absurd h.1 ‹_›

theorem div_isSome (hb : b ≠ 0) :
    ((divU128 a b).bind f).isSome = true ↔ (f (a / b)).isSome = true := by
  rw [divU128_pos hb]
  rfl

end

/-- Two `u64` factors. -/
theorem u64_mul_fits (a b : UInt64) : a.toNat * b.toNat < 2 ^ 128 :=
  Nat.lt_of_lt_of_le (Nat.mul_lt_mul'' a.toNat_lt b.toNat_lt) (by decide)

theorem mulU128_u64 {π : Profile} (a b : UInt64) :
    mulU128 π a.toNat b.toNat = some (a.toNat * b.toNat) :=
  mulU128_fits (u64_mul_fits a b)

/-- A factor of at most `bps`. -/
theorem mulU128_bps {π : Profile} (a : UInt64) {b : Nat} (h : b ≤ MoneyMarket.bps) :
    mulU128 π a.toNat b = some (a.toNat * b) := by
  refine mulU128_fits (Nat.lt_of_le_of_lt (Nat.mul_le_mul_left _ h) ?_)
  have ha := a.toNat_lt
  change a.toNat * 10000 < 2 ^ 128
  omega

/-! ## Interest -/

section
variable {m : MarketState} {now amount debt collateral : UInt64}

/-- What is lent and what is there; the two together fit easily. -/
def poolSize (m : MarketState) : Nat := m.totalCash.toNat + m.totalBorrows.toNat

theorem poolValue_eq {π : Profile} : poolValue π m = some (poolSize m) := by
  have hcash := m.totalCash.toNat_lt
  have hborrows := m.totalBorrows.toNat_lt
  exact addU128_fits (by omega)

def utilization (m : MarketState) : Nat :=
  m.totalBorrows.toNat * MoneyMarket.bps / (m.totalBorrows.toNat + m.totalCash.toNat)

theorem utilization_le : utilization m ≤ MoneyMarket.bps := by
  unfold utilization
  exact Nat.div_le_of_le_mul (Nat.mul_le_mul_right _ (Nat.le_add_right _ _))

theorem utilizationBps_eq {π : Profile} : utilizationBps π m = some (utilization m) := by
  have hcash := m.totalCash.toNat_lt
  have hborrows := m.totalBorrows.toNat_lt
  have hsum : addU128 π m.totalBorrows.toNat m.totalCash.toNat =
      some (m.totalBorrows.toNat + m.totalCash.toNat) := addU128_fits (by omega)
  unfold utilizationBps utilization
  rw [hsum, mulU128_bps _ (Nat.le_refl _)]
  simp only [Option.bind_eq_bind, Option.bind_some, divU128, Option.pure_def, Option.some.injEq]
  split
  · rename_i hzero
    rw [hzero, Nat.div_zero]
    rfl
  · rfl

/-- The annual rate, with the jump above the kink. -/
def annualRate (m : MarketState) : Nat :=
  m.baseRateBps.toNat + m.slopeBps.toNat * utilization m / MoneyMarket.bps +
    if m.kinkUtilizationBps.toNat ≠ 0 ∧ m.kinkUtilizationBps.toNat < utilization m then
      m.jumpSlopeBps.toNat * (utilization m - m.kinkUtilizationBps.toNat) / MoneyMarket.bps
    else 0

/-- A slope is scaled down by what it is multiplied with. -/
theorem slope_le (slope : UInt64) {util : Nat} (h : util ≤ MoneyMarket.bps) :
    slope.toNat * util / MoneyMarket.bps ≤ slope.toNat := by
  refine Nat.div_le_of_le_mul ?_
  rw [Nat.mul_comm]
  exact Nat.mul_le_mul_right _ h

theorem borrowRateBps_eq {π : Profile} : borrowRateBps π m = some (annualRate m) := by
  have hutil := utilization_le (m := m)
  have hbase := m.baseRateBps.toNat_lt
  have hslope := slope_le m.slopeBps hutil
  have hslope' := m.slopeBps.toNat_lt
  have hover := Nat.le_trans (Nat.sub_le (utilization m) m.kinkUtilizationBps.toNat) hutil
  have hjump := slope_le m.jumpSlopeBps hover
  have hjump' := m.jumpSlopeBps.toNat_lt
  have hbps : MoneyMarket.bps ≠ 0 := by decide
  unfold borrowRateBps annualRate
  rw [utilizationBps_eq]
  simp only [Option.bind_eq_bind, Option.bind_some, mulU128_bps _ hutil, divU128_pos hbps]
  rw [addU128_fits (by omega), Option.bind_some]
  split
  · rw [mulU128_bps _ hover, Option.bind_some, addU128_fits (by omega)]
  · rfl

/-- The numerator of the factor by which the index and the borrows grow. -/
def growth (m : MarketState) (now : UInt64) : Nat :=
  MoneyMarket.bps * secondsPerYear + annualRate m * (now.toNat - m.lastAccrualTs.toNat)

/-- The interest on what is lent fits. -/
def AccrualFits (m : MarketState) (now : UInt64) : Prop :=
  m.lastAccrualTs < now → m.totalBorrows.toNat * growth m now < 2 ^ 128

/-- Where there is interest, the last product decides: there is a borrow, so the growth fits where
    the product does. -/
theorem accrueMarket_isSome : (accrueMarket .dev m now).isSome = true ↔ AccrualFits m now := by
  unfold accrueMarket AccrualFits
  split
  · rename_i hle
    refine iff_of_true ?_ fun hlt => absurd hlt (UInt64.not_lt.mpr hle)
    split
    · rfl
    · rfl
  · rename_i hlater
    have hlt : m.lastAccrualTs < now := UInt64.not_le.mp hlater
    have helapsed : (now - m.lastAccrualTs).toNat = now.toNat - m.lastAccrualTs.toNat :=
      UInt64.toNat_sub_of_le _ _ (UInt64.le_of_lt hlt)
    have hrate : borrowRateBps .dev { m with lastAccrualTs := now } = some (annualRate m) :=
      borrowRateBps_eq
    rw [imp_iff_right hlt]
    dsimp only
    rw [hrate, helapsed]
    split
    · rename_i hnone
      refine iff_of_true rfl ?_
      rw [hnone]
      exact Nat.lt_of_le_of_lt (Nat.le_of_eq (Nat.zero_mul _)) (by decide)
    · rename_i hsome
      have hborrows : 0 < m.totalBorrows.toNat :=
        Nat.pos_of_ne_zero fun h => hsome (UInt64.toNat_inj.mp h)
      simp only [Option.bind_eq_bind]
      rw [Option.bind_some]
      split
      · rename_i hzero
        refine iff_of_true rfl ?_
        have hmax := m.totalBorrows.toNat_lt
        rw [growth, hzero, Nat.zero_mul]
        change m.totalBorrows.toNat * 315360000000 < 2 ^ 128
        omega
      · rw [mul_isSome, add_isSome, mul_isSome, div_isSome (by decide)]
        refine ⟨fun h => h.2.2.1, fun hfits => ?_⟩
        have hgrowth : growth m now < 2 ^ 128 :=
          Nat.lt_of_le_of_lt (Nat.le_mul_of_pos_left _ hborrows) hfits
        exact ⟨Nat.lt_of_le_of_lt (Nat.le_add_left _ _) hgrowth, hgrowth, hfits, rfl⟩

/-- There is interest to charge. -/
def Charged (m : MarketState) (now : UInt64) : Prop :=
  m.lastAccrualTs < now ∧ m.totalBorrows ≠ 0 ∧ annualRate m ≠ 0

instance : Decidable (Charged m now) := inferInstanceAs (Decidable (_ ∧ _ ∧ _))

/-- The denominator of the factor. -/
def yearBps : Nat := MoneyMarket.bps * secondsPerYear

/-- Without interest only the time changes. -/
theorem accrueMarket_uncharged {π : Profile} (h : ¬ Charged m now) : ∃ lastAccrualTs,
    accrueMarket π m now = some { m with lastAccrualTs } ∧ m.lastAccrualTs ≤ lastAccrualTs := by
  unfold accrueMarket
  split
  · rename_i hle
    split
    · exact ⟨now, rfl, by rw [‹m.lastAccrualTs = 0›]; exact UInt64.zero_le⟩
    · exact ⟨m.lastAccrualTs, rfl, UInt64.le_refl _⟩
  · rename_i hlater
    have hlt : m.lastAccrualTs < now := UInt64.not_le.mp hlater
    have hrate : borrowRateBps π { m with lastAccrualTs := now } = some (annualRate m) :=
      borrowRateBps_eq
    refine ⟨now, ?_, UInt64.le_of_lt hlt⟩
    dsimp only
    split
    · rfl
    · rename_i hsome
      rw [hrate]
      simp only [Option.bind_eq_bind, Option.bind_some]
      rw [if_pos (not_not.mp fun hrate => h ⟨hlt, hsome, hrate⟩)]
      rfl

/-- With interest both grow by one factor; the index saturates and the borrows are narrowed. -/
theorem accrueMarket_charged {π : Profile} (hfits : AccrualFits m now) (h : Charged m now) :
    accrueMarket π m now = some { m with
      lastAccrualTs := now
      borrowIndex :=
        BitVec.ofNat 128 (min (m.borrowIndex.toNat * growth m now) (2 ^ 128 - 1) / yearBps)
      totalBorrows := asU64 (m.totalBorrows.toNat * growth m now / yearBps) } := by
  obtain ⟨hlt, hsome, hinterest⟩ := h
  have hborrows : 0 < m.totalBorrows.toNat :=
    Nat.pos_of_ne_zero fun h => hsome (UInt64.toNat_inj.mp h)
  -- There is a borrow, so the growth fits where the product with the borrows does.
  have hgrowth : growth m now < 2 ^ 128 :=
    Nat.lt_of_le_of_lt (Nat.le_mul_of_pos_left _ hborrows) (hfits hlt)
  have hterm : annualRate m * (now.toNat - m.lastAccrualTs.toNat) < 2 ^ 128 :=
    Nat.lt_of_le_of_lt (Nat.le_add_left _ _) hgrowth
  have helapsed : (now - m.lastAccrualTs).toNat = now.toNat - m.lastAccrualTs.toNat :=
    UInt64.toNat_sub_of_le _ _ (UInt64.le_of_lt hlt)
  have hrate : borrowRateBps π { m with lastAccrualTs := now } = some (annualRate m) :=
    borrowRateBps_eq
  unfold accrueMarket
  rw [if_neg (UInt64.not_le.mpr hlt)]
  dsimp only
  rw [if_neg hsome, hrate, helapsed]
  simp only [Option.bind_eq_bind, Option.bind_some]
  rw [if_neg hinterest, mulU128_fits hterm, Option.bind_some, addU128_fits hgrowth,
    Option.bind_some]
  change (mulU128 π m.totalBorrows.toNat (growth m now)).bind _ = _
  rw [mulU128_fits (hfits hlt), Option.bind_some, divU128_pos (by decide), Option.bind_some]
  rfl

/-- **What interest makes of the index and of the borrows.** Both grow by one factor, and each is
    rounded down. -/
theorem accrueMarket_cases {π : Profile} {m' : MarketState} (hfits : AccrualFits m now)
    (h : accrueMarket π m now = some m') :
    (m'.borrowIndex = m.borrowIndex ∧ m'.totalBorrows = m.totalBorrows) ∨
      Charged m now ∧
        m'.borrowIndex.toNat * (MoneyMarket.bps * secondsPerYear) ≤
          m.borrowIndex.toNat * growth m now ∧
        m'.totalBorrows = asU64
          (m.totalBorrows.toNat * growth m now / (MoneyMarket.bps * secondsPerYear)) := by
  by_cases hcharged : Charged m now
  · right
    rw [accrueMarket_charged hfits hcharged] at h
    obtain rfl := Option.some.inj h
    refine ⟨hcharged, ?_, rfl⟩
    change (BitVec.ofNat 128 (min (m.borrowIndex.toNat * growth m now) (2 ^ 128 - 1) /
      yearBps)).toNat * yearBps ≤ _
    rw [BitVec.toNat_ofNat]
    refine Nat.le_trans (Nat.mul_le_mul_right _ (Nat.mod_le _ _)) ?_
    exact Nat.le_trans (Nat.div_mul_le_self _ _) (Nat.min_le_left _ _)
  · left
    obtain ⟨lastAccrualTs, haccrued, -⟩ := accrueMarket_uncharged (π := π) hcharged
    rw [haccrued] at h
    obtain rfl := Option.some.inj h
    exact ⟨rfl, rfl⟩

/-! ## Shares of the pool -/

/-- What the shares are worth fits. -/
def ShareValueFits (m : MarketState) (shares : UInt64) : Prop :=
  m.totalLenderShares ≠ 0 → shares.toNat * poolSize m < 2 ^ 128

theorem lenderShareValue_isSome {shares : UInt64} :
    (lenderShareValue .dev m shares).isSome = true ↔ ShareValueFits m shares := by
  unfold lenderShareValue ShareValueFits
  simp only [Option.bind_eq_bind]
  split
  · rename_i hnone
    exact iff_of_true rfl fun h => absurd hnone h
  · rename_i hsome
    have hpos : m.totalLenderShares.toNat ≠ 0 := fun h => hsome (UInt64.toNat_inj.mp h)
    rw [imp_iff_right hsome, poolValue_eq, Option.bind_some,
      mul_isSome, div_isSome hpos]
    exact and_iff_left rfl

theorem sharesForDeposit_isSome : (sharesForDeposit .dev m amount).isSome = true := by
  unfold sharesForDeposit
  simp only [Option.bind_eq_bind]
  rw [poolValue_eq, Option.bind_some]
  split
  · rfl
  · rename_i hsome
    rw [mulU128_u64, Option.bind_some, div_isSome fun h => hsome (.inr h)]
    rfl

theorem sharesForWithdraw_isSome : (sharesForWithdraw .dev m amount).isSome = true := by
  unfold sharesForWithdraw
  simp only [Option.bind_eq_bind]
  rw [poolValue_eq, Option.bind_some]
  split
  · rfl
  · rename_i hsome
    rw [mulU128_u64, Option.bind_some, divCeilU128, if_neg hsome]
    rfl

/-! ## Positions -/

/-- What a position owes fits before it is divided by the index of its last update. -/
def PositionFits (pos : Position) (index : U128) : Prop :=
  pos.borrowIndexSnapshot ≠ 0 → pos.borrowIndexSnapshot < index →
    pos.debt.toNat * index.toNat < 2 ^ 128

/-- What a position owes at an index. -/
def accruedDebt (pos : Position) (index : U128) : UInt64 :=
  if pos.borrowIndexSnapshot ≠ 0 ∧ 0 < pos.debt ∧ pos.borrowIndexSnapshot < index then
    asU64 (pos.debt.toNat * index.toNat / pos.borrowIndexSnapshot.toNat)
  else pos.debt

theorem accruePosition_fits {pos : Position} {index : U128} (h : PositionFits pos index) :
    accruePosition .dev pos index =
      some { pos with debt := accruedDebt pos index, borrowIndexSnapshot := index } := by
  unfold accruePosition accruedDebt
  simp only [Option.bind_eq_bind]
  by_cases hfirst : pos.borrowIndexSnapshot = 0
  · rw [if_pos hfirst, if_neg fun h => h.1 hfirst]
    rfl
  rw [if_neg hfirst]
  by_cases hgrows : 0 < pos.debt ∧ pos.borrowIndexSnapshot < index
  · have hpos : pos.borrowIndexSnapshot.toNat ≠ 0 := fun h => hfirst (BitVec.toNat_inj.mp h)
    rw [if_pos hgrows, if_pos ⟨hfirst, hgrows⟩, mulU128_fits (h hfirst hgrows.2),
      Option.bind_some, divU128_pos hpos]
    rfl
  · rw [if_neg hgrows, if_neg fun h => hgrows h.2]
    rfl

theorem accruePosition_isSome {pos : Position} {index : U128} :
    (accruePosition .dev pos index).isSome = true ↔ PositionFits pos index := by
  refine ⟨fun h hfirst hgrows => ?_, fun h => by rw [accruePosition_fits h]; rfl⟩
  unfold accruePosition at h
  simp only [Option.bind_eq_bind] at h
  rw [if_neg hfirst] at h
  by_cases hdebt : 0 < pos.debt
  · rw [if_pos ⟨hdebt, hgrows⟩, mul_isSome] at h
    exact h.1
  · have hzero : pos.debt.toNat = 0 :=
      Nat.eq_zero_of_not_pos fun hpos => hdebt (UInt64.lt_iff_toNat_lt.mpr hpos)
    rw [hzero, Nat.zero_mul]
    decide

/-- What a position owes at an index, whatever its size. -/
def owed (index : U128) (pos : Position) : Nat :=
  if pos.borrowIndexSnapshot ≠ 0 ∧ pos.borrowIndexSnapshot < index then
    pos.debt.toNat * index.toNat / pos.borrowIndexSnapshot.toNat
  else pos.debt.toNat

theorem owed_current {pos : Position} {index : U128} (h : pos.borrowIndexSnapshot = index) :
    owed index pos = pos.debt.toNat := by
  unfold owed
  rw [h]
  exact if_neg fun hboth => absurd hboth.2 (BitVec.lt_irrefl _)

/-- A position is brought up to date with no more than that. -/
theorem accruePosition_le {π : Profile} {pos pos' : Position} {index : U128}
    (h : accruePosition π pos index = some pos') :
    pos'.debt.toNat ≤ owed index pos ∧ pos'.borrowIndexSnapshot = index := by
  unfold accruePosition at h
  unfold owed
  split at h
  · rename_i hfirst
    rw [← Option.some.inj h, if_neg fun hboth => hboth.1 hfirst]
    exact ⟨Nat.le_refl _, rfl⟩
  · rename_i hsome
    split at h
    · rename_i hgrows
      simp only [Option.bind_eq_bind] at h
      obtain ⟨scaled, hscaled, h₁⟩ := Option.bind_eq_some_iff.mp h
      obtain ⟨debt, hdebt, h₂⟩ := Option.bind_eq_some_iff.mp h₁
      have hpos : pos.borrowIndexSnapshot.toNat ≠ 0 := fun h => hsome (BitVec.toNat_inj.mp h)
      rw [divU128_pos hpos, Option.some.injEq] at hdebt
      rw [← Option.some.inj h₂, if_pos ⟨hsome, hgrows.2⟩]
      refine ⟨Nat.le_trans (asU64_le debt) ?_, rfl⟩
      rw [← hdebt]
      exact Nat.div_le_div_right (mulU128_le hscaled)
    · rename_i hnone
      rw [← Option.some.inj h]
      refine ⟨?_, rfl⟩
      split
      · rename_i hboth
        -- There is nothing to grow.
        have hzero : pos.debt.toNat = 0 := Nat.eq_zero_of_not_pos fun hdebt =>
          hnone ⟨UInt64.lt_iff_toNat_lt.mpr hdebt, hboth.2⟩
        exact hzero ▸ Nat.zero_le _
      · exact Nat.le_refl _

/-! ## Bounds on a debt -/

/-- What collateral is worth in units of what is borrowed. -/
def worth (m : MarketState) (collateral : UInt64) : Nat :=
  collateral.toNat * m.price.toNat / priceScale

theorem collateralValue_eq : collateralValue .dev m collateral = some (worth m collateral) := by
  unfold collateralValue
  simp only [Option.bind_eq_bind]
  rw [mulU128_u64, Option.bind_some, divU128_pos (by decide)]
  rfl

/-- The bound on what can be borrowed fits. -/
def PowerFits (m : MarketState) (collateral : UInt64) : Prop :=
  worth m collateral * m.collateralFactorBps.toNat < 2 ^ 128

theorem isHealthy_isSome : (isHealthy .dev m collateral debt).isSome = true ↔
    PowerFits m collateral := by
  unfold isHealthy maxBorrow
  simp only [Option.bind_eq_bind]
  rw [collateralValue_eq, Option.bind_some,
    Option.bind_assoc, mul_isSome, div_isSome (by decide)]
  exact and_iff_left rfl

/-- The bound above which a position can be liquidated fits. -/
def ThresholdFits (m : MarketState) (collateral : UInt64) : Prop :=
  worth m collateral * m.liquidationThresholdBps.toNat < 2 ^ 128

theorem isLiquidatable_isSome : (isLiquidatable .dev m collateral debt).isSome = true ↔
    ThresholdFits m collateral := by
  unfold isLiquidatable
  simp only [Option.bind_eq_bind]
  rw [collateralValue_eq, Option.bind_some, mul_isSome,
    div_isSome (by decide)]
  exact and_iff_left rfl

/-- The debt is over the bound. -/
def OverThreshold (m : MarketState) (collateral debt : UInt64) : Prop :=
  worth m collateral * m.liquidationThresholdBps.toNat / MoneyMarket.bps < debt.toNat

instance : Decidable (OverThreshold m collateral debt) := inferInstanceAs (Decidable (_ < _))

theorem isLiquidatable_fits (h : ThresholdFits m collateral) :
    isLiquidatable .dev m collateral debt = some (decide (OverThreshold m collateral debt)) := by
  unfold isLiquidatable
  simp only [Option.bind_eq_bind]
  rw [collateralValue_eq, Option.bind_some, mulU128_fits h,
    Option.bind_some, divU128_pos (by decide)]
  rfl

/-! ## Liquidation -/

/-- The clamp needs a debt, which a position over the bound has. -/
theorem maxLiquidationRepay_isSome (h : OverThreshold m collateral debt) :
    (maxLiquidationRepay .dev m debt).isSome = true := by
  have hdebt : ¬ debt < 1 := by
    intro hlt
    have hlt' : debt.toNat < 1 := UInt64.lt_iff_toNat_lt.mp hlt
    exact absurd (Nat.lt_of_le_of_lt (Nat.zero_le _) h) (by omega)
  unfold maxLiquidationRepay
  simp only [Option.bind_eq_bind]
  split
  · rfl
  · rw [mulU128_u64, Option.bind_some, divCeilU128, if_neg (by decide), Option.bind_some]
    rfl

theorem maxLiquidationRepay_le {π : Profile} {most : UInt64}
    (h : maxLiquidationRepay π m debt = some most) : most ≤ debt := by
  unfold maxLiquidationRepay at h
  simp only [Option.bind_eq_bind] at h
  split at h
  · exact Option.some.inj h ▸ UInt64.le_refl debt
  · obtain ⟨scaled, -, h⟩ := Option.bind_eq_some_iff.mp h
    obtain ⟨capped, -, h⟩ := Option.bind_eq_some_iff.mp h
    split at h
    · cases h
    · rename_i hdebt
      rw [← Option.some.inj h]
      change (if _ then _ else _) ≤ debt
      split
      · exact Std.min_le_right
      · exact UInt64.not_lt.mp hdebt

/-- What is seized for a repayment fits. -/
def SeizureFits (m : MarketState) (repaid : UInt64) : Prop :=
  repaid.toNat * priceScale / m.price.toNat *
    (MoneyMarket.bps + m.liquidationBonusBps.toNat) < 2 ^ 128

theorem seizeCollateral_isSome {repaid : UInt64} (hprice : m.price ≠ 0) :
    (seizeCollateral .dev m repaid).isSome = true ↔ SeizureFits m repaid := by
  have hpos : m.price.toNat ≠ 0 := fun h => hprice (UInt64.toNat_inj.mp h)
  have hscaled : repaid.toNat * priceScale < 2 ^ 128 := by
    have hmax := repaid.toNat_lt
    change repaid.toNat * 1000000 < 2 ^ 128
    omega
  unfold seizeCollateral
  simp only [Option.bind_eq_bind]
  rw [mulU128_fits hscaled, Option.bind_some, div_isSome hpos, mul_isSome, divU128_pos (by decide)]
  exact and_iff_left rfl

end

/-! ## The vault's own arithmetic -/

theorem vault_mulDiv_isSome {a b c : Nat} (hc : c ≠ 0) :
    (Vault.mulDiv .dev a b c).isSome = true ↔ a * b < 2 ^ 128 := by
  unfold Vault.mulDiv
  simp only [Option.bind_eq_bind]
  rw [mul_isSome, div_isSome hc]
  exact and_iff_left rfl

/-- A fee is less than the total it is taken from. -/
theorem feeShares_isSome {vault : Vault.VaultState} {nav profit : UInt64} :
    (Vault.feeShares .dev vault nav profit).isSome = true := by
  unfold Vault.feeShares
  simp only [Option.bind_eq_bind]
  split
  · rw [mulU128_u64, Option.bind_some, div_isSome (by decide)]
    split
    · rename_i hfee
      rw [vault_mulDiv_isSome (by omega)]
      have hfactors :=
        Nat.mul_lt_mul'' (Nat.lt_trans hfee.2 nav.toNat_lt) vault.totalShares.toNat_lt
      exact Nat.lt_of_lt_of_le hfactors (by decide)
    · rfl
  · rfl

end Proof
end Himsha
