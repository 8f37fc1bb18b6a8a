import Himsha.Lib.Ratio
import Himsha.Proof.MarketCalls
import Himsha.Proof.ProgramRuns

/-!
# What a lender share is worth

The value of the pool over the number of lender shares is what a share is worth. Interest raises it;
`lender_rate_kept` says that no instruction that moves the pool lowers it. Lending and taking back
round against the lender, borrowing moves value from the cash to the borrows, and a repayment is
added to the cash in full also where the borrows had less left to take off.
-/

set_option autoImplicit false

namespace Himsha
namespace Proof

open Himsha.Lib Himsha.Runtime Himsha.Programs Himsha.Vm Token MoneyMarket

/-! ## Shares for an amount -/

/-- The two ways to write the quotient rounded up. -/
theorem divCeilU128_pos {a b : Nat} (h : 0 < b) : divCeilU128 a b = some (a ⌈/⌉ b) := by
  unfold divCeilU128
  rw [if_neg (Nat.pos_iff_ne_zero.mp h), Nat.ceilDiv_eq_add_pred_div]
  have hdiv := Nat.div_add_mod a b
  have hlt := Nat.mod_lt a h
  congr 1
  split
  · rename_i hzero
    rw [hzero, Nat.add_zero] at hdiv
    conv_rhs => rw [← hdiv, Nat.add_sub_assoc h, Nat.mul_add_div h,
      Nat.div_eq_of_lt (Nat.sub_lt h Nat.one_pos)]
  · rename_i hsome
    have hover : (b + (a % b - 1)) / b = 1 := by
      rw [Nat.add_div_left _ h, Nat.div_eq_of_lt (by omega)]
    have hsum : a + b - 1 = b * (a / b) + (b + (a % b - 1)) := by omega
    rw [hsum, Nat.mul_add_div h, hover]

section
variable {π : Profile} {m : MarketState} {amount shares : UInt64}

/-- Shares are granted for at most what is paid. -/
theorem sharesForDeposit_le (hlive : m.totalLenderShares ≠ 0)
    (h : sharesForDeposit π m amount = some shares) :
    poolSize m * shares.toNat ≤ amount.toNat * m.totalLenderShares.toNat := by
  unfold sharesForDeposit at h
  rw [poolValue_eq] at h
  simp only [Option.bind_eq_bind, Option.bind_some] at h
  split at h
  · rename_i hnone
    rcases hnone with hnone | hnone
    · exact absurd hnone hlive
    · rw [hnone, Nat.zero_mul]
      exact Nat.zero_le _
  · rename_i hsome
    rw [mulU128_u64, Option.bind_some, divU128_pos fun hzero => hsome (.inr hzero)] at h
    obtain rfl := Option.some.inj h
    exact Nat.le_trans (Nat.mul_le_mul_left _ (asU64_le _)) (Ratio.issue_floor _ _ _)

/-- Shares are burned for at least what is taken, and the quotient is not truncated. -/
theorem sharesForWithdraw_eq (hpool : 0 < poolSize m) (hle : amount.toNat ≤ poolSize m)
    (h : sharesForWithdraw π m amount = some shares) :
    shares.toNat = amount.toNat * m.totalLenderShares.toNat ⌈/⌉ poolSize m := by
  unfold sharesForWithdraw at h
  rw [poolValue_eq] at h
  simp only [Option.bind_eq_bind, Option.bind_some] at h
  rw [if_neg (Nat.pos_iff_ne_zero.mp hpool), mulU128_u64, Option.bind_some,
    divCeilU128_pos hpool] at h
  obtain rfl := Option.some.inj h
  have hfits := Nat.lt_of_le_of_lt (Ratio.ceil_le (S := m.totalLenderShares.toNat) hpool hle)
    m.totalLenderShares.toNat_lt
  exact UInt64.toNat_ofNat_of_lt' hfits

end

/-! ## What was written -/

section
variable {moved mid : List AccountInfo} {m' : MarketState}

/-- What is read of a table after the market and a record were written back. -/
theorem storeBoth_reads {α : Type} [Borsh α] {v : α} (h : storeBoth moved m' v = .ok mid) :
    recordAt MarketState mid 0 = some m' ∧ recordAt α mid 1 = some v ∧
      ∀ (β : Type) [Borsh β] (n : Nat), 2 ≤ n → recordAt β mid n = recordAt β moved n := by
  obtain ⟨first, hfirst, hsecond⟩ := bind_eq_ok.mp h
  refine ⟨?_, recordAt_stored hsecond, fun β _ n hn => ?_⟩
  · rw [recordAt_unstored hsecond (by decide), recordAt_stored hfirst]
  · rw [recordAt_unstored hsecond (Nat.ne_of_gt hn),
      recordAt_unstored hfirst (Nat.ne_of_gt (Nat.lt_of_succ_lt hn))]

end

section
variable {π : Profile} {hasher : Lending.Hasher} {timestamp : UInt64}
  {accounts out : List AccountInfo} {data : List UInt8} {old m : MarketState} {th th' : Thread}

/-- An instruction of the money market runs, and the gate leaves every slot reading as it was
    left. -/
theorem market_returns {ix : MoneyMarketInstruction} (hix : tryFromSlice data = some ix)
    (h : Comp.Returns (dispatch π hasher ProgramIds.moneyMarketProgram accounts data timestamp) th
      out th') :
    ∃ mid th₀ th₁, Comp.Returns (MoneyMarket.run π accounts timestamp ix) th₀ mid th₁ ∧
      ∀ (α : Type) [Borsh α] (i : Nat), recordAt α out i = recordAt α mid i := by
  obtain ⟨ix', mid, th₀, th₁, hix', hrun, hdata⟩ :=
    dispatch_runs (runBuiltin_moneyMarket _ _ _ _ _) h
  obtain rfl : ix = ix' := Option.some.inj (hix.symm.trans hix')
  exact ⟨mid, th₀, th₁, hrun, fun _ _ _ => recordAt_data hdata⟩

/-- The market that an instruction opens is the one in slot 0, brought up to date. -/
theorem Opened.unique {a : AccountInfo} {old' m' : MarketState}
    (hopened : Opened π accounts timestamp a old' m')
    (hheld : recordAt MarketState accounts 0 = some old)
    (haccrued : accrueMarket π old timestamp = some m) : m = m' := by
  have hsame : recordAt MarketState accounts 0 = some old' :=
    recordAt_eq_some.mpr ⟨a, hopened.slot, hopened.held⟩
  obtain rfl := Option.some.inj (hheld.symm.trans hsame)
  exact Option.some.inj (haccrued.symm.trans hopened.accrued)

/-! ## The five instructions -/

/-- The instructions that move the pool. -/
inductive PoolMove where
  | addLiquidity (amount : UInt64)
  | removeLiquidity (amount : UInt64)
  | borrow (amount : UInt64)
  | repay (amount : UInt64)
  | liquidate (repayAmount : UInt64)
deriving DecidableEq

def PoolMove.instruction : PoolMove → MoneyMarketInstruction
  | .addLiquidity amount => .addLiquidity amount
  | .removeLiquidity amount => .removeLiquidity amount
  | .borrow amount => .borrow amount
  | .repay amount => .repay amount
  | .liquidate repayAmount => .liquidate repayAmount

/-- A share of the market `m'` is worth at least what it was worth in `m`. -/
def RateKept (m m' : MarketState) : Prop :=
  poolSize m * m'.totalLenderShares.toNat ≤ poolSize m' * m.totalLenderShares.toNat

/-- Without new shares it is enough that the pool is not smaller. -/
theorem rateKept_of_le {m' : MarketState} (hshares : m'.totalLenderShares = m.totalLenderShares)
    (hle : poolSize m ≤ poolSize m') : RateKept m m' := by
  unfold RateKept
  rw [hshares]
  exact Nat.mul_le_mul_right _ hle

/-- A repayment adds to the cash at least what it takes off the borrows. -/
theorem poolSize_repaid {totalCash repaid : UInt64}
    (hcash : totalCash.toNat = m.totalCash.toNat + repaid.toNat) :
    poolSize m ≤ totalCash.toNat + (saturatingSub m.totalBorrows repaid).toNat := by
  unfold poolSize
  rw [saturatingSub_toNat]
  omega

theorem addLiquidity_rate {mid : List AccountInfo} {amount : UInt64}
    (hlive : m.totalLenderShares ≠ 0) (hheld : recordAt MarketState accounts 0 = some old)
    (haccrued : accrueMarket π old timestamp = some m)
    (h : Comp.Returns (MoneyMarket.run π accounts timestamp (.addLiquidity amount)) th mid th') :
    ∃ m', recordAt MarketState mid 0 = some m' ∧ RateKept m m' := by
  obtain ⟨m₀, q, shares, totalCash, total, _, moved, hprologue, hshares, -, hcash, htotal, -,
    hstored⟩ := addLiquidity_stages h
  obtain ⟨a, b, old', owner, hopened, -, -⟩ := liquidityPrologue_eq_ok hprologue
  obtain rfl := hopened.unique hheld haccrued
  refine ⟨_, (storeBoth_reads hstored).1, ?_⟩
  have hfair := sharesForDeposit_le hlive hshares
  have hkept := Ratio.issue_le_iff.mpr hfair
  unfold RateKept poolSize at *
  rw [htotal, hcash, Nat.add_right_comm]
  exact hkept

/-- The shares in the lender position in slot 1. -/
def heldShares (accounts : List AccountInfo) : Nat :=
  ((recordAt LenderPosition accounts 1).getD {}).shares.toNat

theorem Lending.held {marketKey owner : Pubkey} {b : AccountInfo} {q : LenderPosition}
    (hb : accounts[1]? = some b) (h : Lending marketKey owner b.data q) :
    q.shares.toNat = heldShares accounts := by
  unfold heldShares
  rw [recordAt_slot hb]
  rcases h with ⟨hheld, -, -⟩ | ⟨-, rfl⟩
  · rw [hheld]
    rfl
  · rfl

/-- `amount` is at most the cash, so the pool covers it and the shares for it exist. -/
theorem removeLiquidity_rate {mid : List AccountInfo} {amount : UInt64}
    (hheld : recordAt MarketState accounts 0 = some old)
    (haccrued : accrueMarket π old timestamp = some m)
    (h : Comp.Returns (MoneyMarket.run π accounts timestamp (.removeLiquidity amount)) th mid
      th') :
    ∃ m', recordAt MarketState mid 0 = some m' ∧ RateKept m m' ∧ ∃ burned,
      burned = amount.toNat * m.totalLenderShares.toNat ⌈/⌉ poolSize m ∧
      m'.totalLenderShares.toNat + burned = m.totalLenderShares.toNat ∧
      heldShares mid + burned = heldShares accounts := by
  obtain ⟨m₀, q, burn, totalCash, total, _, moved, hprologue, hburn, -, hcash, htotal, hleft,
    hstored⟩ := removeLiquidity_stages h
  have hamount : 0 < amount.toNat := by
    obtain ⟨_, -, p₁⟩ := bind_eq_ok.mp hprologue
    obtain ⟨_, -, p₂⟩ := bind_eq_ok.mp p₁
    obtain ⟨_, -, p₃⟩ := bind_eq_ok.mp p₂
    obtain ⟨_, hnonzero, -⟩ := bind_eq_ok.mp p₃
    have hne : amount ≠ 0 := by simpa using require_eq_ok.mp hnonzero
    exact Nat.pos_of_ne_zero fun hzero => hne (UInt64.toNat_inj.mp hzero)
  obtain ⟨a, b, old', owner, hopened, hb, hlending⟩ := liquidityPrologue_eq_ok hprologue
  obtain rfl := hopened.unique hheld haccrued
  have hle : amount.toNat ≤ m.totalCash.toNat := by omega
  have hpaid : amount.toNat ≤ poolSize m := Nat.le_trans hle (Nat.le_add_right _ _)
  have hpool : 0 < poolSize m := Nat.lt_of_lt_of_le hamount hpaid
  have hexact := sharesForWithdraw_eq hpool hpaid hburn
  obtain ⟨hmarket, hlender, -⟩ := storeBoth_reads hstored
  refine ⟨_, hmarket, ?_, burn.toNat, hexact, htotal, ?_⟩
  · have hfair := Ratio.redeem_ceil hpool m.totalLenderShares.toNat amount.toNat
    rw [← hexact] at hfair
    have hkept := (Ratio.redeem_le_iff hpaid (by omega)).mpr hfair
    have hpool' : totalCash.toNat + m.totalBorrows.toNat = poolSize m - amount.toNat := by
      unfold poolSize
      omega
    change poolSize m * total.toNat ≤ (totalCash.toNat + m.totalBorrows.toNat) * _
    rw [hpool', Nat.eq_sub_of_add_eq htotal]
    exact hkept
  · rw [← Lending.held hb hlending, heldShares, hlender]
    exact hleft

/-- **The lenders' rate never falls.** Let `m` be the market once interest is accrued. What a
    successful `AddLiquidity`, `RemoveLiquidity`, `Borrow`, `Repay` or `Liquidate` writes in its
    place has a pool that is worth no less per share; and a `RemoveLiquidity` burns the shares that
    its amount is worth, rounded up. -/
theorem lender_rate_kept {move : PoolMove} (hdata : tryFromSlice data = some move.instruction)
    (hheld : recordAt MarketState accounts 0 = some old)
    (haccrued : accrueMarket π old timestamp = some m) (hlive : m.totalLenderShares ≠ 0)
    (h : Comp.Returns (dispatch π hasher ProgramIds.moneyMarketProgram accounts data timestamp) th
      out th') :
    ∃ m' pool pool', recordAt MarketState out 0 = some m' ∧
      poolValue π m = some pool ∧ poolValue π m' = some pool' ∧
      pool * m'.totalLenderShares.toNat ≤ pool' * m.totalLenderShares.toNat ∧
      ∀ amount, move = .removeLiquidity amount → ∃ burned,
        burned = amount.toNat * m.totalLenderShares.toNat ⌈/⌉ pool ∧
        m'.totalLenderShares.toNat + burned = m.totalLenderShares.toNat ∧
        heldShares out + burned = heldShares accounts := by
  obtain ⟨mid, _, _, hrun, hread⟩ := market_returns hdata h
  cases move with
  | addLiquidity amount =>
    obtain ⟨m', hm', hkept⟩ := addLiquidity_rate hlive hheld haccrued hrun
    exact ⟨m', _, _, (hread _ 0).trans hm', poolValue_eq, poolValue_eq, hkept, nofun⟩
  | removeLiquidity amount =>
    obtain ⟨m', hm', hkept, burned, hburned, htotal, hlender⟩ :=
      removeLiquidity_rate hheld haccrued hrun
    refine ⟨m', _, _, (hread _ 0).trans hm', poolValue_eq, poolValue_eq, hkept, ?_⟩
    intro amount' hsame
    obtain rfl := PoolMove.removeLiquidity.inj hsame
    refine ⟨burned, hburned, htotal, ?_⟩
    rw [heldShares, hread]
    exact hlender
  | borrow amount =>
    obtain ⟨moved, a, b, old', m₀, q, p, debt, cash, borrows, hdeal, -, hcash, hborrows, -⟩ :=
      market_run_post hrun
    obtain rfl := hdeal.opened.unique hheld haccrued
    refine ⟨_, _, _, (hread _ 0).trans (storeBoth_reads hdeal.stored).1, poolValue_eq,
      poolValue_eq, rateKept_of_le rfl ?_, nofun⟩
    change m.totalCash.toNat + m.totalBorrows.toNat ≤ cash.toNat + borrows.toNat
    omega
  | repay amount =>
    obtain ⟨moved, a, b, old', m₀, q, p, debt, cash, hdeal, -, -, hcash, -⟩ := market_run_post hrun
    obtain rfl := hdeal.opened.unique hheld haccrued
    exact ⟨_, _, _, (hread _ 0).trans (storeBoth_reads hdeal.stored).1, poolValue_eq,
      poolValue_eq, rateKept_of_le rfl (poolSize_repaid hcash), nofun⟩
  | liquidate amount =>
    obtain ⟨paid, moved, th₁, a, b, old', m₀, q, p, most, repaid, seized, debt, collateral, cash,
      hdeal, -, -, -, -, -, -, -, hcash, -, -⟩ := market_run_post hrun
    obtain rfl := hdeal.opened.unique hheld haccrued
    exact ⟨_, _, _, (hread _ 0).trans (storeBoth_reads hdeal.stored).1, poolValue_eq,
      poolValue_eq, rateKept_of_le rfl (poolSize_repaid hcash), nofun⟩

end

/-! ## Taking liquidity back -/

/-- A market at key 1 of which a quarter is lent, and a lender with half of the shares. -/
def lentAccounts : List AccountInfo :=
  [recordAccount (.repeated 1) ProgramIds.moneyMarketProgram
      ({ totalCash := 90, totalBorrows := 30, totalLenderShares := 100, borrowIndex := indexScale,
         isInitialized := true } : MarketState),
    recordAccount (.repeated 2) ProgramIds.moneyMarketProgram
      ({ owner := .repeated 9, market := .repeated 1, shares := 50
         isInitialized := true } : LenderPosition),
    recordAccount (.repeated 4) ProgramIds.tokenProgram
      ({ mint := .repeated 8, owner := .repeated 9, state := .initialized } : TokenAccountState),
    recordAccount (.repeated 5) ProgramIds.tokenProgram
      ({ mint := .repeated 8, owner := .repeated 1, amount := 90
         state := .initialized } : TokenAccountState),
    { key := .repeated 9, lamports := 0, data := [], owner := ProgramIds.systemProgram
      isSigner := true, isWritable := false }]

/-- 10 of a pool of 120 that has 100 shares: 9 of them are burned. -/
theorem lender_rate_kept_taken : ∃ out m', recordAt MarketState out 0 = some m' ∧
    m'.totalLenderShares.toNat + 9 = 100 ∧
    120 * m'.totalLenderShares.toNat ≤ poolSize m' * 100 := by
  have hdata : tryFromSlice ((toVec (MoneyMarketInstruction.removeLiquidity 10)).getD []) =
      some (PoolMove.removeLiquidity 10).instruction := by decide
  have hheld : recordAt MarketState lentAccounts 0 =
      some { totalCash := 90, totalBorrows := 30, totalLenderShares := 100
             borrowIndex := indexScale, isInitialized := true } := by decide +kernel
  have hruns : (Comp.exec (dispatch .dev .sorted ProgramIds.moneyMarketProgram lentAccounts
      ((toVec (MoneyMarketInstruction.removeLiquidity 10)).getD []) 0) {}).1.isOk = true := by
    decide +kernel
  obtain ⟨out, hout⟩ := exists_of_isOk hruns
  obtain ⟨m', pool, pool', hm', hpool, hpool', hkept, hburns⟩ := lender_rate_kept hdata hheld rfl
    (by decide) (Comp.returns_of_ok hout)
  obtain ⟨burned, hburned, htotal, -⟩ := hburns 10 rfl
  rw [poolValue_eq, Option.some.injEq] at hpool hpool'
  obtain rfl : 120 = pool := hpool
  obtain rfl : 9 = burned := hburned.symm
  exact ⟨out, m', hm', htotal, hpool' ▸ hkept⟩

end Proof
end Himsha
