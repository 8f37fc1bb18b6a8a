import Himsha.Proof.LenderRate
import Himsha.Proof.MarketSums

/-!
# What a liquidation takes

The two amounts of a liquidation, over natural numbers: what is repaid of the debt, bounded by the
close factor, and what is seized for it, bounded by the collateral. The program computes the first
as it is. The second it narrows to 64 bits before it is bounded, and it takes both off the totals
with a subtraction that stops at zero; `liquidates_exactly_iff` says where neither is seen.
-/

set_option autoImplicit false

namespace Himsha
namespace Proof

open Himsha.Lib Himsha.Runtime Himsha.Programs Himsha.Vm Himsha.Node Token
open MoneyMarket hiding bps

/-! ## The amounts -/

section
variable (m : MarketState) (p : Position) (amount : UInt64)

/-- The most that one liquidation repays. -/
def repayCap (debt : Nat) : Nat :=
  if m.closeFactorBps = 0 ∨ MoneyMarket.bps ≤ m.closeFactorBps.toNat then debt
  else max 1 (min (debt * m.closeFactorBps.toNat ⌈/⌉ MoneyMarket.bps) debt)

/-- What is repaid. -/
def repaidOf : Nat := min amount.toNat (repayCap m p.debt.toNat)

/-- The numerator of what a repayment is worth in collateral, with the bonus. -/
def seizable (repaid : Nat) : Nat :=
  repaid * priceScale / m.price.toNat * (MoneyMarket.bps + m.liquidationBonusBps.toNat)

/-- What is seized for it. -/
def seizedFor (repaid : Nat) : Nat := min (seizable m repaid / MoneyMarket.bps) p.collateral.toNat

/-- The collateral that a repayment is worth is a `u64`, or what is left of it after narrowing is
    bounded by the collateral just the same. -/
def Narrowable (repaid : Nat) : Prop :=
  seizable m repaid / MoneyMarket.bps < 2 ^ 64 ∨
    p.collateral.toNat ≤ seizable m repaid % 2 ^ 128 / MoneyMarket.bps % 2 ^ 64

instance (repaid : Nat) : Decidable (Narrowable m p repaid) :=
  inferInstanceAs (Decidable (_ ∨ _))

end

section
variable {π : Profile} {m : MarketState} {p : Position} {amount debt most repaid : UInt64}

/-- In either build a product that is returned is the product up to wrapping. -/
theorem mulU128_mod {a b c : Nat} (h : mulU128 π a b = some c) : c = a * b % 2 ^ 128 := by
  unfold mulU128 Profile.plain at h
  split at h
  · rename_i hfits
    rw [Nat.mod_eq_of_lt hfits]
    exact (Option.some.inj h).symm
  · cases π with
    | dev => cases h
    | release => exact (Option.some.inj h).symm

/-- The cap is computed as it is: rounded up, a part of the debt is no more than the debt. -/
theorem maxLiquidationRepay_eq (h : maxLiquidationRepay π m debt = some most) :
    most.toNat = repayCap m debt.toNat := by
  unfold maxLiquidationRepay at h
  unfold repayCap
  have hzero : m.closeFactorBps.toNat = 0 ↔ m.closeFactorBps = 0 := UInt64.toNat_inj (b := 0)
  simp only [Option.bind_eq_bind, hzero] at h
  split at h
  · rename_i hall
    rw [if_pos hall, Option.some.inj h]
  · rename_i hpart
    have hbps : 0 < MoneyMarket.bps := by decide
    rw [if_neg hpart, mulU128_u64, Option.bind_some, divCeilU128_pos hbps, Option.bind_some] at *
    split at h
    · cases h
    · have hclose : m.closeFactorBps.toNat ≤ MoneyMarket.bps :=
        Nat.le_of_not_le fun hle => hpart (.inr hle)
      have hle : debt.toNat * m.closeFactorBps.toNat ⌈/⌉ MoneyMarket.bps ≤ debt.toNat := by
        rw [Nat.mul_comm]
        exact Ratio.ceil_le hbps hclose
      have hnarrow : (asU64 (debt.toNat * m.closeFactorBps.toNat ⌈/⌉ MoneyMarket.bps)).toNat =
          debt.toNat * m.closeFactorBps.toNat ⌈/⌉ MoneyMarket.bps :=
        UInt64.toNat_ofNat_of_lt' (Nat.lt_of_le_of_lt hle debt.toNat_lt)
      obtain rfl := Option.some.inj h
      rw [toNat_max, toNat_min, hnarrow]
      rfl

/-- A price that is fresh is there. -/
theorem ensureFreshPrice_ne {now : UInt64} {u : Unit} (h : ensureFreshPrice m now = .ok u) :
    m.price ≠ 0 := by
  have hfresh := require_eq_ok.mp h
  rw [Bool.and_eq_true, bne_iff_ne] at hfresh
  exact hfresh.1

/-- What is seized, before it is bounded, is what is worth seizing, up to wrapping. -/
theorem seizeCollateral_mod {value : Nat} (h : seizeCollateral π m repaid = some value) :
    value = seizable m repaid.toNat % 2 ^ 128 / MoneyMarket.bps := by
  have hscaled : repaid.toNat * priceScale < 2 ^ 128 := by
    have hmax := repaid.toNat_lt
    change repaid.toNat * 1000000 < 2 ^ 128
    omega
  unfold seizeCollateral at h
  rw [mulU128_fits hscaled] at h
  simp only [Option.bind_eq_bind, Option.bind_some] at h
  obtain ⟨base, hbase, h₁⟩ := Option.bind_eq_some_iff.mp h
  obtain ⟨product, hproduct, h₂⟩ := Option.bind_eq_some_iff.mp h₁
  have hbps : MoneyMarket.bps ≠ 0 := by decide
  rw [divU128_pos hbps, Option.some.injEq] at h₂
  unfold divU128 at hbase
  split at hbase
  · cases hbase
  · obtain rfl := Option.some.inj hbase
    rw [← h₂, mulU128_mod hproduct]
    rfl

/-- **When narrowing is not seen.** A quotient that fits is not changed by it, nor was there a
    product that wrapped; with one that does not fit, all the collateral should be seized. -/
theorem narrowed_eq_iff {repaid : Nat} :
    min (seizable m repaid % 2 ^ 128 / MoneyMarket.bps % 2 ^ 64) p.collateral.toNat =
      seizedFor m p repaid ↔ Narrowable m p repaid := by
  unfold seizedFor Narrowable
  rcases Nat.lt_or_ge (seizable m repaid / MoneyMarket.bps) (2 ^ 64) with hfits | hlarge
  · refine iff_of_true ?_ (.inl hfits)
    have hbps : MoneyMarket.bps = 10000 := rfl
    have hproduct : seizable m repaid < 2 ^ 128 := by
      rw [hbps] at hfits
      omega
    rw [Nat.mod_eq_of_lt hproduct, Nat.mod_eq_of_lt hfits]
  · have hcollateral := p.collateral.toNat_lt
    rw [Nat.min_eq_right (Nat.le_trans (Nat.le_of_lt hcollateral) hlarge), min_eq_right_iff]
    exact ⟨.inr, fun h => h.resolve_left (Nat.not_lt.mpr hlarge)⟩

end

/-! ## The instruction -/

/-- The market, the position and the four token accounts changed by exactly `r` repaid and `s`
    seized. -/
structure Liquidates (accounts out : List AccountInfo) (m : MarketState) (p : Position)
    (r s : Nat) : Prop where
  market : ∃ m', recordAt MarketState out 0 = some m' ∧
    m'.totalBorrows.toNat + r = m.totalBorrows.toNat ∧
    m'.totalCash.toNat = m.totalCash.toNat + r ∧
    m'.totalCollateral.toNat + s = m.totalCollateral.toNat
  position : ∃ p', recordAt Position out 1 = some p' ∧ p'.debt.toNat + r = p.debt.toNat ∧
    p'.collateral.toNat + s = p.collateral.toNat
  paid : Paid accounts out 2 r ∧ Received accounts out 3 r
  released : Paid accounts out 5 s ∧ Received accounts out 4 s

section
variable {π : Profile} {hasher : Lending.Hasher} {timestamp amount : UInt64}
  {accounts mid out : List AccountInfo} {data : List UInt8} {old m : MarketState} {q p : Position}
  {th th' : Thread}

/-- The two amounts of a liquidation, and what was written with them. -/
theorem liquidate_amounts (hheld : recordAt MarketState accounts 0 = some old)
    (haccrued : accrueMarket π old timestamp = some m)
    (hq : recordAt Position accounts 1 = some q)
    (hp : accruePosition π q m.borrowIndex = some p)
    (h : Comp.Returns (MoneyMarket.run π accounts timestamp (.liquidate amount)) th mid th') :
    ∃ (repaid seized debt collateral totalCash : UInt64) (paid moved : List AccountInfo)
      (th₀ th₁ : Thread),
      m.price ≠ 0 ∧ repaid.toNat = repaidOf m p amount ∧
      seized.toNat = min (seizable m repaid.toNat % 2 ^ 128 / MoneyMarket.bps % 2 ^ 64)
        p.collateral.toNat ∧
      TokensMoved th th₀ accounts paid 2 3 repaid.toNat ∧
      TokensMoved th₀ th₁ paid moved 5 4 seized.toNat ∧
      totalCash.toNat = m.totalCash.toNat + repaid.toNat ∧
      debt.toNat + repaid.toNat = p.debt.toNat ∧
      collateral.toNat + seized.toNat = p.collateral.toNat ∧
      storeBoth moved
        { m with totalBorrows := saturatingSub m.totalBorrows repaid
                 totalCash
                 totalCollateral := saturatingSub m.totalCollateral seized }
        { p with debt, collateral } = .ok mid := by
  obtain ⟨m₀, q₀, p₀, first, most, value, debt, collateral, totalCash, paid, moved, _, hmarket, hload,
    -, -, hreconciled, hfresh, hcap, -, hvalue, hpaid, hmoved, hdebt, hcollateral, hcash, hstored⟩ :=
    liquidate_stages h
  obtain ⟨a, old', hopened⟩ := loadMarket_opened hmarket
  obtain rfl := hopened.unique hheld haccrued
  obtain rfl : q = q₀ := Option.some.inj (hq.symm.trans (recordAt_of_load hload))
  obtain rfl : p = p₀ := Option.some.inj (hp.symm.trans hreconciled)
  refine ⟨min amount most, min (asU64 value) p.collateral, debt, collateral, totalCash, paid,
    moved, _, _, ensureFreshPrice_ne hfresh, ?_, ?_, hpaid, hmoved, hcash, hdebt, hcollateral,
    hstored⟩
  · rw [toNat_min, maxLiquidationRepay_eq hcap]
    rfl
  · rw [toNat_min, seizeCollateral_mod hvalue]
    exact congrArg (min · _) UInt64.toNat_ofNat'

/-- **When a liquidation is exact.** A `Liquidate` that succeeds repays and seizes what it should,
    and all records and balances change by just that, if and only if what it should seize is not
    changed by narrowing and both totals cover the amounts. -/
theorem liquidates_exactly_iff
    (hdata : tryFromSlice data = some (MoneyMarketInstruction.liquidate amount))
    (hheld : recordAt MarketState accounts 0 = some old)
    (haccrued : accrueMarket π old timestamp = some m)
    (hq : recordAt Position accounts 1 = some q)
    (hp : accruePosition π q m.borrowIndex = some p)
    (h : Comp.Returns (dispatch π hasher ProgramIds.moneyMarketProgram accounts data timestamp) th
      out th') :
    Liquidates accounts out m p (repaidOf m p amount) (seizedFor m p (repaidOf m p amount)) ↔
      Narrowable m p (repaidOf m p amount) ∧ repaidOf m p amount ≤ m.totalBorrows.toNat ∧
        seizedFor m p (repaidOf m p amount) ≤ m.totalCollateral.toNat := by
  obtain ⟨mid, _, _, hrun, hread⟩ := market_returns hdata h
  obtain ⟨repaid, seized, debt, collateral, totalCash, paid, moved, _, _, -, hrepaid, hseized,
    hpay, hrelease, hcash, hdebt, hcollateral, hstored⟩ :=
    liquidate_amounts hheld haccrued hq hp hrun
  obtain ⟨hmarket, hposition, hrest⟩ := storeBoth_reads hstored
  rw [← hrepaid, ← narrowed_eq_iff, ← hseized]
  constructor
  · intro hexact
    obtain ⟨m', hm', hborrows, -, htotal⟩ := hexact.market
    obtain ⟨p', hp', -, hleft⟩ := hexact.position
    rw [hread, hposition, Option.some.injEq] at hp'
    subst hp'
    exact ⟨Nat.add_left_cancel (hcollateral.trans hleft.symm), Nat.le_of_add_left_le hborrows.le,
      Nat.le_of_add_left_le htotal.le⟩
  · rintro ⟨hsame, hborrows, htotal⟩
    rw [← hsame] at htotal ⊢
    refine ⟨⟨_, (hread _ 0).trans hmarket, ?_, hcash, ?_⟩, ⟨_, (hread _ 1).trans hposition, hdebt,
      hcollateral⟩, ?_, ?_⟩
    · change (saturatingSub m.totalBorrows repaid).toNat + _ = _
      rw [saturatingSub_toNat, Nat.sub_add_cancel hborrows]
    · change (saturatingSub m.totalCollateral seized).toNat + _ = _
      rw [saturatingSub_toNat, Nat.sub_add_cancel htotal]
    · have hkept : ∀ n, 2 ≤ n → n ≠ 5 → n ≠ 4 →
          recordAt TokenAccountState out n = recordAt TokenAccountState paid n :=
        fun n hn h₅ h₄ => ((hread _ n).trans (hrest _ n hn)).trans
          (recordAt_congr (hrelease.other n h₅ h₄))
      exact ⟨hpay.paid.congr rfl (hkept 2 (by decide) (by decide) (by decide)),
        hpay.received.congr rfl (hkept 3 (by decide) (by decide) (by decide))⟩
    · have hgiven : ∀ n, n ≠ 2 → n ≠ 3 →
          recordAt TokenAccountState accounts n = recordAt TokenAccountState paid n :=
        fun n h₂ h₃ => (recordAt_congr (hpay.other n h₂ h₃)).symm
      have hleft : ∀ n, 2 ≤ n →
          recordAt TokenAccountState out n = recordAt TokenAccountState moved n :=
        fun n hn => (hread _ n).trans (hrest _ n hn)
      exact ⟨hrelease.paid.congr (hgiven 5 (by decide) (by decide)) (hleft 5 (by decide)),
        hrelease.received.congr (hgiven 4 (by decide) (by decide)) (hleft 4 (by decide))⟩

end

/-! ## Liquidating what interest has made too much -/

/-- A market in which a million of the collateral is worth 1, with a bonus of `bonus`: 500 are lent
    to it, 5000000 pledged and 2 borrowed. -/
def pledgedFor (bonus : UInt64) : RuntimeTransaction :=
  signedBy [.repeated 9]
    [initMarketIx (.repeated 1) (.repeated 21) (.repeated 20) (.repeated 7) (.repeated 5)
        (.repeated 9) (.repeated 8)
        { halfTerms with liquidationBonusBps := bonus, price := 1
                         maxPriceStaleness := 315360000 },
      liquidityIx (.addLiquidity 500) (.repeated 1) (.repeated 2) (.repeated 4) (.repeated 5)
        (.repeated 9),
      vaultIx (.supply 5000000) (.repeated 1) (.repeated 3) (.repeated 6) (.repeated 7)
        (.repeated 9),
      vaultIx (.borrow 2) (.repeated 1) (.repeated 3) (.repeated 4) (.repeated 5) (.repeated 9)]

/-- There is enough to pledge. -/
def beforePledge : World where
  state := { accounts := (∅ : Accounts).write (marketTokens ++
    [(.repeated 6, tokensOf (.repeated 21) (.repeated 9) 5000000)]) }

theorem withoutMarkets_pledge : WithoutMarkets beforePledge.state.accounts := by
  refine .of_owner fun k s hlook => ?_
  rcases Table.lookup_write_mem hlook with hmem | hnone
  · have hall : ∀ e ∈ marketTokens ++ [(.repeated 6, tokensOf (.repeated 21) (.repeated 9) 5000000)],
        e.2.owner ≠ ProgramIds.moneyMarketProgram := by
      decide +kernel
    exact hall _ (Table.mem_of_mem_survivors hmem)
  · cases hnone

/-- 1 is repaid. -/
def liquidateOne : Instruction :=
  .withArgs ProgramIds.moneyMarketProgram
    [.writable (.repeated 1) false, .writable (.repeated 3) false, .writable (.repeated 4) false,
      .writable (.repeated 5) false, .writable (.repeated 6) false, .writable (.repeated 7) false,
      .readonly (.repeated 9) true]
    (MoneyMarketInstruction.liquidate 1)

/-- Ten years later the debt is twice what it was. What was liquidated, and what is left. -/
def liquidatedIn (t : Accounts) : Option (MarketState × Position × List AccountInfo) := do
  let accounts := accountsOf t liquidateOne
  let m ← accrueMarket .dev (← recordAt MarketState accounts 0) 315360000
  let p ← accruePosition .dev (← recordAt Position accounts 1) m.borrowIndex
  let out ← (Comp.exec (dispatch .dev .sorted ProgramIds.moneyMarketProgram accounts
    liquidateOne.data 315360000) {}).1.toOption
  return (m, p, out)

theorem liquidatedIn_eq_some {t : Accounts} {m : MarketState} {p : Position}
    {out : List AccountInfo} (h : liquidatedIn t = some (m, p, out)) :
    ∃ old q th', recordAt MarketState (accountsOf t liquidateOne) 0 = some old ∧
      accrueMarket .dev old 315360000 = some m ∧
      recordAt Position (accountsOf t liquidateOne) 1 = some q ∧
      accruePosition .dev q m.borrowIndex = some p ∧
      Comp.Returns (dispatch .dev .sorted ProgramIds.moneyMarketProgram
        (accountsOf t liquidateOne) liquidateOne.data 315360000) {} out th' := by
  obtain ⟨old, hold, h₁⟩ := Option.bind_eq_some_iff.mp h
  obtain ⟨m', hm, h₂⟩ := Option.bind_eq_some_iff.mp h₁
  obtain ⟨q, hq, h₃⟩ := Option.bind_eq_some_iff.mp h₂
  obtain ⟨p', hp, h₄⟩ := Option.bind_eq_some_iff.mp h₃
  obtain ⟨out', hout, h₅⟩ := Option.bind_eq_some_iff.mp h₄
  cases h₅
  exact ⟨old, q, _, hold, hm, hq, hp, Comp.returns_of_ok (eq_ok_of_toOption hout)⟩

/-- With a bonus of 5 % there is enough of everything. -/
theorem liquidatedIn_bonus : ∃ t m p out, liquidatedIn t = some (m, p, out) ∧
    repaidOf m p 1 = 1 ∧ seizedFor m p 1 = 1050000 ∧ Narrowable m p 1 ∧
    1 ≤ m.totalBorrows.toNat ∧ 1050000 ≤ m.totalCollateral.toNat ∧
    p.debt.toNat = 4 ∧ p.collateral.toNat = 5000000 ∧ m.price = 1 ∧
    m.liquidationBonusBps = 500 := by
  have hcheck : ((tableAfter (.bare .dev) beforePledge.state.accounts (pledgedFor 500)).bind
      liquidatedIn).any (fun (m, p, _) => repaidOf m p 1 = 1 ∧ seizedFor m p 1 = 1050000 ∧
        Narrowable m p 1 ∧ 1 ≤ m.totalBorrows.toNat ∧ 1050000 ≤ m.totalCollateral.toNat ∧
        p.debt.toNat = 4 ∧ p.collateral.toNat = 5000000 ∧ m.price = 1 ∧
        m.liquidationBonusBps = 500) = true := by
    decide +kernel
  obtain ⟨⟨m, p, out⟩, hliquidated, hthen⟩ := (Option.any_eq_true _ _).mp hcheck
  obtain ⟨t, -, ht⟩ := Option.bind_eq_some_iff.mp hliquidated
  exact ⟨t, m, p, out, ht, of_decide_eq_true hthen⟩

/-- With a bonus of 5 %, 1050000 are seized for the 1. -/
theorem liquidates_exactly_bonus : ∃ t m p out, liquidatedIn t = some (m, p, out) ∧
    Liquidates (accountsOf t liquidateOne) out m p 1 1050000 := by
  obtain ⟨t, m, p, out, ht, hrepaid, hseized, hnarrow, hborrows, htotal, -⟩ := liquidatedIn_bonus
  obtain ⟨old, q, th', hold, hm, hq, hp, hret⟩ := liquidatedIn_eq_some ht
  have hdata : tryFromSlice liquidateOne.data = some (MoneyMarketInstruction.liquidate 1) := by
    decide +kernel
  have hiff := liquidates_exactly_iff hdata hold hm hq hp hret
  rw [hrepaid, hseized] at hiff
  exact ⟨t, m, p, out, ht, hiff.mpr ⟨hnarrow, hborrows, htotal⟩⟩

/-- **A bonus that wraps.** For 1 all 5000000 should be seized, and 999900 are. -/
theorem seizure_narrowed : ¬ ∀ (ex : Executor) (w w' : World) (txs : List RuntimeTransaction)
    (instr : Instruction) (timestamp amount : UInt64) (old m : MarketState) (q p : Position)
    (out : List AccountInfo) (th' : Thread),
    WithoutMarkets w.state.accounts →
    Lib.run (programStep ProgramIds.moneyMarketProgram ex) w txs = some w' →
    tryFromSlice instr.data = some (MoneyMarketInstruction.liquidate amount) →
    recordAt MarketState (accountsOf w'.state.accounts instr) 0 = some old →
    accrueMarket ex.machine.profile old timestamp = some m →
    recordAt Position (accountsOf w'.state.accounts instr) 1 = some q →
    accruePosition ex.machine.profile q m.borrowIndex = some p →
    Comp.Returns (dispatch ex.machine.profile ex.machine.hasher ProgramIds.moneyMarketProgram
      (accountsOf w'.state.accounts instr) instr.data timestamp) {} out th' →
    Liquidates (accountsOf w'.state.accounts instr) out m p (repaidOf m p amount)
      (seizedFor m p (repaidOf m p amount)) := by
  intro hclaim
  have hcheck : (Lib.run (tableAfter (.bare .dev)) beforePledge.state.accounts
      [pledgedFor 18446744073709551615]).any (fun t => (liquidatedIn t).any fun (m, p, out) =>
        seizedFor m p (repaidOf m p 1) = 5000000 ∧ p.collateral = 5000000 ∧
        (recordAt Position out 1).map (·.collateral) = some 4000100) = true := by decide +kernel
  obtain ⟨t, ht, hthen⟩ := (Option.any_eq_true _ _).mp hcheck
  obtain ⟨⟨m, p, out⟩, hliquidated, hleft⟩ := (Option.any_eq_true _ _).mp hthen
  obtain ⟨hseized, hcollateral, hrest⟩ := of_decide_eq_true hleft
  obtain ⟨w', hrun, rfl, -⟩ := programRun_tables ProgramIds.moneyMarketProgram
    (fun _ _ _ => True) (w := beforePledge) (by decide +kernel) rfl ht
    ((Meets.of_forall fun _ _ => trivial).mono fun _ _ _ => Meets.of_forall fun _ _ => trivial)
  obtain ⟨old, q, th', hold, hm, hq, hp, hret⟩ := liquidatedIn_eq_some hliquidated
  obtain ⟨p', hp', -, hsum⟩ := (hclaim (.bare .dev) beforePledge w' _ liquidateOne 315360000 1 old m
    q p out th' withoutMarkets_pledge hrun (by decide +kernel) hold hm hq hp hret).position
  rw [hp', Option.map_some, Option.some.injEq] at hrest
  rw [hseized, hrest, hcollateral] at hsum
  exact absurd hsum (by decide)

end Proof
end Himsha
