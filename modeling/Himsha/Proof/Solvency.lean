import Mathlib.Logic.Relation
import Himsha.Proof.Liquidations

/-!
# Liquidating a position that is solvent

A position is solvent where its collateral is worth the debt with the bonus. Of such a position a
liquidation takes at most its part of the collateral: the two divisions that price what is seized
round down, and so does narrowing it. So the position stays solvent however often it is liquidated
while the price stands and no interest falls due, and what has debt keeps collateral.
-/

set_option autoImplicit false

namespace Himsha
namespace Proof

open Himsha.Lib Himsha.Runtime Himsha.Programs Himsha.Vm Himsha.Node Token
open MoneyMarket hiding bps

/-- The collateral is worth the debt with the bonus. -/
def SolventWithBonus (m : MarketState) (p : Position) : Prop :=
  p.debt.toNat * priceScale * (MoneyMarket.bps + m.liquidationBonusBps.toNat) ≤
    p.collateral.toNat * m.price.toNat * MoneyMarket.bps

/-- A `Liquidate` that succeeds, whoever liquidates and from which accounts: the market and the
    position as stored, with interest in, and as they are left. -/
def Liquidation (π : Profile) (hasher : Lending.Hasher) (old m m' : MarketState)
    (q p p' : Position) : Prop :=
  ∃ (accounts out : List AccountInfo) (data : List UInt8) (timestamp amount : UInt64)
    (th th' : Thread),
    tryFromSlice data = some (MoneyMarketInstruction.liquidate amount) ∧
    recordAt MarketState accounts 0 = some old ∧ accrueMarket π old timestamp = some m ∧
    recordAt Position accounts 1 = some q ∧ accruePosition π q m.borrowIndex = some p ∧
    Comp.Returns (dispatch π hasher ProgramIds.moneyMarketProgram accounts data timestamp) th
      out th' ∧
    recordAt MarketState out 0 = some m' ∧ recordAt Position out 1 = some p'

/-- A liquidation before which no interest falls due to the position. -/
def LiquidatesOn (π : Profile) (hasher : Lending.Hasher) (s s' : MarketState × Position) : Prop :=
  ∃ m p, Liquidation π hasher s.1 m s'.1 s.2 p s'.2 ∧ p.debt = s.2.debt

/-! ## One liquidation -/

section
variable {π : Profile} {hasher : Lending.Hasher} {old m m' : MarketState} {q p p' : Position}

/-- What is solvent and has debt has collateral. -/
theorem SolventWithBonus.collateral_pos (h : SolventWithBonus m p) (hdebt : 0 < p.debt.toNat) :
    0 < p.collateral.toNat := by
  unfold SolventWithBonus at h
  by_contra hnone
  rw [Nat.eq_zero_of_not_pos hnone, Nat.zero_mul, Nat.zero_mul] at h
  have hscale : 0 < priceScale := by decide
  have hbps : 0 < MoneyMarket.bps := by decide
  exact absurd h (Nat.not_le.mpr
    (Nat.mul_pos (Nat.mul_pos hdebt hscale) (Nat.add_pos_left hbps _)))

/-- What a liquidation does to a position, and what it leaves of the terms. -/
theorem Liquidation.effect (h : Liquidation π hasher old m m' q p p') :
    ∃ repaid seized,
      repaid ≤ p.debt.toNat ∧ seized ≤ p.collateral.toNat ∧
      p'.debt.toNat = p.debt.toNat - repaid ∧ p'.collateral.toNat = p.collateral.toNat - seized ∧
      seized ≤ seizable m repaid / MoneyMarket.bps ∧ 0 < m.price.toNat ∧
      m'.price = m.price ∧ m'.liquidationBonusBps = m.liquidationBonusBps := by
  obtain ⟨accounts, out, data, timestamp, amount, th, th', hdata, hheld, haccrued, hq, hp, hcall,
    hm', hp'⟩ := h
  obtain ⟨mid, _, _, hrun, hread⟩ := market_returns hdata hcall
  obtain ⟨repaid, seized, debt, collateral, totalCash, paid, moved, _, _, hprice, -, hseized, -, -,
    -, hdebt, hcollateral, hstored⟩ := liquidate_amounts hheld haccrued hq hp hrun
  obtain ⟨hmarket, hposition, -⟩ := storeBoth_reads hstored
  rw [hread, hmarket, Option.some.injEq] at hm'
  rw [hread, hposition, Option.some.injEq] at hp'
  subst hm' hp'
  -- Narrowing what is seized only makes it less.
  have hnarrowed : seized.toNat ≤ seizable m repaid.toNat / MoneyMarket.bps := by
    calc seized.toNat ≤ seizable m repaid.toNat % 2 ^ 128 / MoneyMarket.bps % 2 ^ 64 := by
          rw [hseized]
          exact Nat.min_le_left _ _
      _ ≤ seizable m repaid.toNat % 2 ^ 128 / MoneyMarket.bps := Nat.mod_le _ _
      _ ≤ seizable m repaid.toNat / MoneyMarket.bps := Nat.div_le_div_right (Nat.mod_le _ _)
  have hpos : m.price.toNat ≠ 0 := fun hzero => hprice (UInt64.toNat_inj.mp hzero)
  exact ⟨repaid.toNat, seized.toNat, Nat.le.intro ((Nat.add_comm _ _).trans hdebt),
    Nat.le.intro ((Nat.add_comm _ _).trans hcollateral), Nat.eq_sub_of_add_eq hdebt,
    Nat.eq_sub_of_add_eq hcollateral, hnarrowed, Nat.pos_of_ne_zero hpos, rfl, rfl⟩

/-- The position is no less covered than it was. -/
theorem Liquidation.covers (h : Liquidation π hasher old m m' q p p')
    (hsolvent : SolventWithBonus m p) :
    p'.debt.toNat * p.collateral.toNat ≤ p.debt.toNat * p'.collateral.toNat := by
  obtain ⟨repaid, seized, hrepaid, hseized, hdebt, hcollateral, hworth, hprice, -⟩ := h.effect
  have hbps : 0 < MoneyMarket.bps := by decide
  have htaken : seized * p.debt.toNat ≤ p.collateral.toNat * repaid :=
    Ratio.redeem_covered hprice hbps hsolvent hworth
  have hleft := (Ratio.redeem_le_iff hseized hrepaid).mpr htaken
  rw [← hdebt, ← hcollateral] at hleft
  rwa [Nat.mul_comm p'.debt.toNat, Nat.mul_comm p.debt.toNat]

/-- And it stays solvent. -/
theorem Liquidation.solvent (h : Liquidation π hasher old m m' q p p')
    (hsolvent : SolventWithBonus m p) : SolventWithBonus m' p' := by
  have hcovers := h.covers hsolvent
  obtain ⟨_, _, -, -, hdebt, -, -, -, hprice, hbonus⟩ := h.effect
  have hpos := hsolvent.collateral_pos
  unfold SolventWithBonus at hsolvent ⊢
  rw [hprice, hbonus]
  rcases Nat.eq_zero_or_pos p.debt.toNat with hnone | hsome
  · rw [hdebt, hnone, Nat.zero_sub, Nat.zero_mul, Nat.zero_mul]
    exact Nat.zero_le _
  · -- The rate at which the position was covered is the one at which it is.
    refine Nat.le_of_mul_le_mul_right ?_ (hpos hsome)
    set u := MoneyMarket.bps + m.liquidationBonusBps.toNat
    calc p'.debt.toNat * priceScale * u * p.collateral.toNat
        = p'.debt.toNat * p.collateral.toNat * (priceScale * u) := by ring
      _ ≤ p.debt.toNat * p'.collateral.toNat * (priceScale * u) := Nat.mul_le_mul_right _ hcovers
      _ = p'.collateral.toNat * (p.debt.toNat * priceScale * u) := by ring
      _ ≤ p'.collateral.toNat * (p.collateral.toNat * m.price.toNat * MoneyMarket.bps) :=
          Nat.mul_le_mul_left _ hsolvent
      _ = p'.collateral.toNat * m.price.toNat * MoneyMarket.bps * p.collateral.toNat := by ring

end

/-! ## Liquidating again and again -/

/-- A position that no interest falls due to is as solvent as it is stored. -/
theorem LiquidatesOn.solvent {π : Profile} {hasher : Lending.Hasher}
    {s s' : MarketState × Position} (h : LiquidatesOn π hasher s s')
    (hsolvent : SolventWithBonus s.1 s.2) : SolventWithBonus s'.1 s'.2 := by
  obtain ⟨m, p, hliquidation, hdebt⟩ := h
  refine hliquidation.solvent ?_
  obtain ⟨accounts, out, data, timestamp, amount, th, th', -, -, haccrued, -, hp, -⟩ := hliquidation
  obtain ⟨_, _, _, rfl⟩ := accrueMarket_keeps haccrued
  obtain ⟨_, _, rfl⟩ := accruePosition_keeps hp
  unfold SolventWithBonus at hsolvent ⊢
  rw [hdebt]
  exact hsolvent

/-- **Liquidating what is solvent.** A `Liquidate` that succeeds on a position whose collateral is
    worth its debt with the bonus leaves a position that is no less covered. And however often it
    is liquidated from there while the price stands and no interest falls due, it has debt only
    while it has collateral. -/
theorem liquidation_keeps_cover {π : Profile} {hasher : Lending.Hasher} {old m m' : MarketState}
    {q p p' : Position} (h : Liquidation π hasher old m m' q p p')
    (hsolvent : SolventWithBonus m p) :
    p'.debt.toNat * p.collateral.toNat ≤ p.debt.toNat * p'.collateral.toNat ∧
      ∀ s, Relation.ReflTransGen (LiquidatesOn π hasher) (m', p') s →
        0 < s.2.debt.toNat → 0 < s.2.collateral.toNat := by
  refine ⟨h.covers hsolvent, fun s hruns => ?_⟩
  have hlast : SolventWithBonus s.1 s.2 := by
    induction hruns with
    | refl => exact h.solvent hsolvent
    | tail _ hagain ih => exact hagain.solvent ih
  exact hlast.collateral_pos

/-- Of a debt of 4, which 5000000 covers, 1 is liquidated. -/
theorem liquidation_keeps_bonus : ∃ old m m' q p p',
    Liquidation .dev .sorted old m m' q p p' ∧ SolventWithBonus m p ∧
    p'.debt.toNat * p.collateral.toNat ≤ p.debt.toNat * p'.collateral.toNat ∧
      ∀ s, Relation.ReflTransGen (LiquidatesOn .dev .sorted) (m', p') s →
        0 < s.2.debt.toNat → 0 < s.2.collateral.toNat := by
  obtain ⟨t, m, p, out, ht, -, -, -, -, -, hdebt, hcollateral, hprice, hbonus⟩ :=
    liquidatedIn_bonus
  obtain ⟨old, q, th', hold, hm, hq, hp, hret⟩ := liquidatedIn_eq_some ht
  have hdata : tryFromSlice liquidateOne.data = some (MoneyMarketInstruction.liquidate 1) := by
    decide +kernel
  obtain ⟨mid, _, _, hrun, hread⟩ := market_returns hdata hret
  obtain ⟨_, _, _, _, _, _, _, _, _, -, -, -, -, -, -, -, -, hstored⟩ :=
    liquidate_amounts hold hm hq hp hrun
  obtain ⟨hmarket, hposition, -⟩ := storeBoth_reads hstored
  have hliquidation : Liquidation .dev .sorted old m _ q p _ :=
    ⟨_, out, _, _, 1, _, th', hdata, hold, hm, hq, hp, hret, (hread _ 0).trans hmarket,
      (hread _ 1).trans hposition⟩
  have hsolvent : SolventWithBonus m p := by
    unfold SolventWithBonus
    rw [hdebt, hcollateral, hprice, hbonus]
    decide
  exact ⟨old, m, _, q, p, _, hliquidation, hsolvent, liquidation_keeps_cover hliquidation hsolvent⟩

end Proof
end Himsha
