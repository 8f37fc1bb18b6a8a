import Himsha.Programs.Token
import Himsha.Programs.Oracle
import Himsha.Runtime.Transaction

/-!
# The money market

Over-collateralized borrowing of one token against another. Interest accrues through a cumulative
borrow index that every interaction brings up to date; lenders hold shares of the pool.

All interior arithmetic is plain `u128`, so each of these functions is partial: `none` is the
panic of a build with overflow checks, or a division by zero.
-/

set_option autoImplicit false

namespace Himsha
namespace Programs
namespace MoneyMarket

open Himsha.Lib Himsha.Runtime

/-- Fixed-point scale for `price`. -/
def priceScale : Nat := 1000000

/-- Basis-points denominator. -/
def bps : Nat := 10000

/-- Fixed-point scale for the cumulative borrow index. -/
def indexScale : U128 := 1000000000000#128

def secondsPerYear : Nat := 31536000

structure MarketState where
  collateralMint : Pubkey := default
  borrowMint : Pubkey := default
  collateralVault : Pubkey := default
  borrowVault : Pubkey := default
  collateralFactorBps : UInt64 := 0
  liquidationThresholdBps : UInt64 := 0
  liquidationBonusBps : UInt64 := 0
  /-- Max fraction of a position's debt a single liquidation may repay; 0 or at least `bps`
      means no limit. -/
  closeFactorBps : UInt64 := 0
  /-- Price of 1 collateral unit in borrow-asset units, scaled by `priceScale`. -/
  price : UInt64 := 0
  oracleFeed : Pubkey := default
  priceUpdatedAt : UInt64 := 0
  maxPriceStaleness : UInt64 := 0
  totalCollateral : UInt64 := 0
  totalBorrows : UInt64 := 0
  /-- Available borrow-asset liquidity. -/
  totalCash : UInt64 := 0
  totalLenderShares : UInt64 := 0
  baseRateBps : UInt64 := 0
  slopeBps : UInt64 := 0
  /-- Utilization where the jump slope engages; 0 means no kink. -/
  kinkUtilizationBps : UInt64 := 0
  jumpSlopeBps : UInt64 := 0
  borrowIndex : U128 := 0
  lastAccrualTs : UInt64 := 0
  isInitialized : Bool := false
deriving DecidableEq

def MarketState.fields (m : MarketState) :=
  (m.collateralMint, m.borrowMint, m.collateralVault, m.borrowVault, m.collateralFactorBps,
    m.liquidationThresholdBps, m.liquidationBonusBps, m.closeFactorBps, m.price, m.oracleFeed,
    m.priceUpdatedAt, m.maxPriceStaleness, m.totalCollateral, m.totalBorrows, m.totalCash,
    m.totalLenderShares, m.baseRateBps, m.slopeBps, m.kinkUtilizationBps, m.jumpSlopeBps,
    m.borrowIndex, m.lastAccrualTs, m.isInitialized)

def MarketState.ofFields : Pubkey × Pubkey × Pubkey × Pubkey × UInt64 × UInt64 × UInt64 × UInt64 ×
    UInt64 × Pubkey × UInt64 × UInt64 × UInt64 × UInt64 × UInt64 × UInt64 × UInt64 × UInt64 ×
    UInt64 × UInt64 × U128 × UInt64 × Bool → MarketState
  | (cm, bm, cv, bv, cf, lt, lb, cl, p, f, pu, ps, tc, tb, ca, ls, br, sl, k, j, bi, la, i) =>
      ⟨cm, bm, cv, bv, cf, lt, lb, cl, p, f, pu, ps, tc, tb, ca, ls, br, sl, k, j, bi, la, i⟩

instance : Borsh MarketState := .iso MarketState.fields MarketState.ofFields fun _ => rfl

instance : Canonical MarketState := .iso (fun _ => rfl) fun _ => rfl

instance : Sized MarketState := .iso fun _ => rfl

structure Position where
  owner : Pubkey := default
  market : Pubkey := default
  collateral : UInt64 := 0
  /-- Debt as of `borrowIndexSnapshot`. -/
  debt : UInt64 := 0
  borrowIndexSnapshot : U128 := 0
  isInitialized : Bool := false
deriving DecidableEq

def Position.fields (p : Position) :=
  (p.owner, p.market, p.collateral, p.debt, p.borrowIndexSnapshot, p.isInitialized)

def Position.ofFields : Pubkey × Pubkey × UInt64 × UInt64 × U128 × Bool → Position
  | (o, m, c, d, b, i) => ⟨o, m, c, d, b, i⟩

instance : Borsh Position := .iso Position.fields Position.ofFields fun _ => rfl

instance : Canonical Position := .iso (fun _ => rfl) fun _ => rfl

instance : Sized Position := .iso fun _ => rfl

/-- A liquidity provider's claim on a market's supply side. -/
structure LenderPosition where
  owner : Pubkey := default
  market : Pubkey := default
  shares : UInt64 := 0
  isInitialized : Bool := false
deriving DecidableEq

def LenderPosition.fields (p : LenderPosition) := (p.owner, p.market, p.shares, p.isInitialized)

def LenderPosition.ofFields : Pubkey × Pubkey × UInt64 × Bool → LenderPosition
  | (o, m, s, i) => ⟨o, m, s, i⟩

instance : Borsh LenderPosition :=
  .iso LenderPosition.fields LenderPosition.ofFields fun _ => rfl

instance : Canonical LenderPosition := .iso (fun _ => rfl) fun _ => rfl

instance : Sized LenderPosition := .iso fun _ => rfl

section
open Token (TokenAccountState)

variable {data : List UInt8} {market : MarketState} {pos : Position} {lender : LenderPosition}
  {token : TokenAccountState}

/-! The three kinds of record differ in size, from one another and from what the token program
keeps. -/

theorem market_not_position (h : tryFromSlice data = some market) :
    tryFromSlice (α := Position) data = none :=
  tryFromSlice_disjoint (by decide) h

theorem market_not_lender (h : tryFromSlice data = some market) :
    tryFromSlice (α := LenderPosition) data = none :=
  tryFromSlice_disjoint (by decide) h

theorem position_not_market (h : tryFromSlice data = some pos) :
    tryFromSlice (α := MarketState) data = none :=
  tryFromSlice_disjoint (by decide) h

theorem position_not_lender (h : tryFromSlice data = some pos) :
    tryFromSlice (α := LenderPosition) data = none :=
  tryFromSlice_disjoint (by decide) h

theorem lender_not_market (h : tryFromSlice data = some lender) :
    tryFromSlice (α := MarketState) data = none :=
  tryFromSlice_disjoint (by decide) h

theorem lender_not_position (h : tryFromSlice data = some lender) :
    tryFromSlice (α := Position) data = none :=
  tryFromSlice_disjoint (by decide) h

theorem token_not_market (h : tryFromSlice data = some token) :
    tryFromSlice (α := MarketState) data = none :=
  tryFromSlice_disjoint (by decide) h

theorem token_not_position (h : tryFromSlice data = some token) :
    tryFromSlice (α := Position) data = none :=
  tryFromSlice_disjoint (by decide) h

theorem token_not_lender (h : tryFromSlice data = some token) :
    tryFromSlice (α := LenderPosition) data = none :=
  tryFromSlice_disjoint (by decide) h

end

/-- Collateral value in borrow-asset units. -/
def collateralValue (π : Profile) (market : MarketState) (collateral : UInt64) : Option Nat := do
  divU128 (← mulU128 π collateral.toNat market.price.toNat) priceScale

/-- Maximum borrowable for `collateral` at the market's price and collateral factor. -/
def maxBorrow (π : Profile) (market : MarketState) (collateral : UInt64) : Option Nat := do
  let value ← collateralValue π market collateral
  divU128 (← mulU128 π value market.collateralFactorBps.toNat) bps

/-- A position is healthy when its debt is within the borrowing power. -/
def isHealthy (π : Profile) (market : MarketState) (collateral debt : UInt64) : Option Bool := do
  return decide (debt.toNat ≤ (← maxBorrow π market collateral))

/-- A position is liquidatable once its debt exceeds the liquidation threshold. -/
def isLiquidatable (π : Profile) (market : MarketState) (collateral debt : UInt64) :
    Option Bool := do
  let value ← collateralValue π market collateral
  let maxDebt ← divU128 (← mulU128 π value market.liquidationThresholdBps.toNat) bps
  return decide (maxDebt < debt.toNat)

/-- Collateral seized for repaying `repayAmount`, with the bonus, before any cap. -/
def seizeCollateral (π : Profile) (market : MarketState) (repayAmount : UInt64) : Option Nat := do
  let base ← divU128 (← mulU128 π repayAmount.toNat priceScale) market.price.toNat
  divU128 (← mulU128 π base (bps + market.liquidationBonusBps.toNat)) bps

/-- The most debt a single liquidation may repay. `clamp(1, debt)` panics when `debt` is 0. -/
def maxLiquidationRepay (π : Profile) (market : MarketState) (debt : UInt64) :
    Option UInt64 := do
  let cf := market.closeFactorBps.toNat
  if cf = 0 ∨ bps ≤ cf then return debt
  else
    let capped := asU64 (← divCeilU128 (← mulU128 π debt.toNat cf) bps)
    if debt < 1 then none else return max 1 (min capped debt)

/-- Reject a price-dependent action when the cached price is missing or too old. -/
def ensureFreshPrice (market : MarketState) (now : UInt64) : Outcome Unit :=
  require (market.price != 0 &&
    decide (saturatingSub now market.priceUpdatedAt ≤ market.maxPriceStaleness)) .stalePrice

/-- `totalBorrows / (totalBorrows + totalCash)` in bps, 0 for an empty market. -/
def utilizationBps (π : Profile) (market : MarketState) : Option Nat := do
  let denom ← addU128 π market.totalBorrows.toNat market.totalCash.toNat
  return (divU128 (← mulU128 π market.totalBorrows.toNat bps) denom).getD 0

/-- Annual borrow rate in bps under the kinked model. -/
def borrowRateBps (π : Profile) (market : MarketState) : Option Nat := do
  let util ← utilizationBps π market
  let slope ← divU128 (← mulU128 π market.slopeBps.toNat util) bps
  let rate ← addU128 π market.baseRateBps.toNat slope
  let kink := market.kinkUtilizationBps.toNat
  if kink ≠ 0 ∧ kink < util then
    let jump ← divU128 (← mulU128 π market.jumpSlopeBps.toNat (util - kink)) bps
    addU128 π rate jump
  else return rate

/-- Accrue interest up to `now`, growing the borrow index and `totalBorrows` by one factor. -/
def accrueMarket (π : Profile) (market : MarketState) (now : UInt64) : Option MarketState := do
  if now ≤ market.lastAccrualTs then
    if market.lastAccrualTs = 0 then return { market with lastAccrualTs := now }
    else return market
  else
    let elapsed := (now - market.lastAccrualTs).toNat
    let market := { market with lastAccrualTs := now }
    if market.totalBorrows = 0 then return market
    else
      let annualBps ← borrowRateBps π market
      if annualBps = 0 then return market
      else
        let den := bps * secondsPerYear
        let num ← addU128 π den (← mulU128 π annualBps elapsed)
        let index := min (market.borrowIndex.toNat * num) (2 ^ 128 - 1) / den
        let borrows ← divU128 (← mulU128 π market.totalBorrows.toNat num) den
        return { market with borrowIndex := BitVec.ofNat 128 index, totalBorrows := asU64 borrows }

/-- Cash on hand plus debt owed to lenders. -/
def poolValue (π : Profile) (market : MarketState) : Option Nat :=
  addU128 π market.totalCash.toNat market.totalBorrows.toNat

/-- Underlying value of `shares` lender shares. -/
def lenderShareValue (π : Profile) (market : MarketState) (shares : UInt64) : Option UInt64 := do
  if market.totalLenderShares = 0 then return 0
  else
    let scaled ← mulU128 π shares.toNat (← poolValue π market)
    return asU64 (← divU128 scaled market.totalLenderShares.toNat)

/-- Lender shares to mint for depositing `amount`, 1:1 to bootstrap. -/
def sharesForDeposit (π : Profile) (market : MarketState) (amount : UInt64) : Option UInt64 := do
  let pool ← poolValue π market
  if market.totalLenderShares = 0 ∨ pool = 0 then return amount
  else return asU64 (← divU128 (← mulU128 π amount.toNat market.totalLenderShares.toNat) pool)

/-- Lender shares to burn to withdraw `amount`, rounded up. -/
def sharesForWithdraw (π : Profile) (market : MarketState) (amount : UInt64) : Option UInt64 := do
  let pool ← poolValue π market
  if pool = 0 then return 0
  else return asU64 (← divCeilU128 (← mulU128 π amount.toNat market.totalLenderShares.toNat) pool)

/-- Reconcile a position's stored debt to the market's current borrow index. -/
def accruePosition (π : Profile) (pos : Position) (borrowIndex : U128) : Option Position := do
  if pos.borrowIndexSnapshot = 0 then return { pos with borrowIndexSnapshot := borrowIndex }
  else if 0 < pos.debt ∧ pos.borrowIndexSnapshot < borrowIndex then
    let scaled ← mulU128 π pos.debt.toNat borrowIndex.toNat
    let debt ← divU128 scaled pos.borrowIndexSnapshot.toNat
    return { pos with debt := asU64 debt, borrowIndexSnapshot := borrowIndex }
  else return { pos with borrowIndexSnapshot := borrowIndex }

/-- The terms an `initMarket` sets. -/
structure MarketTerms where
  collateralFactorBps : UInt64
  liquidationThresholdBps : UInt64
  liquidationBonusBps : UInt64
  closeFactorBps : UInt64
  price : UInt64
  baseRateBps : UInt64
  slopeBps : UInt64
  kinkUtilizationBps : UInt64
  jumpSlopeBps : UInt64
  maxPriceStaleness : UInt64
deriving DecidableEq

instance : Borsh MarketTerms :=
  .iso (fun t => (t.collateralFactorBps, t.liquidationThresholdBps, t.liquidationBonusBps,
      t.closeFactorBps, t.price, t.baseRateBps, t.slopeBps, t.kinkUtilizationBps, t.jumpSlopeBps,
      t.maxPriceStaleness))
    (fun (cf, lt, lb, cl, p, b, s, k, j, m) => ⟨cf, lt, lb, cl, p, b, s, k, j, m⟩) fun _ => rfl

inductive MoneyMarketInstruction where
  /-- `[0]` = market, `[1]` = collateral mint, `[2]` = borrow mint, `[3]` = collateral vault,
      `[4]` = borrow vault, `[5]` = admin, `[6]` = oracle feed. -/
  | initMarket (terms : MarketTerms)
  /-- `[0]` = market, `[1]` = lender position, `[2]` = provider's tokens, `[3]` = borrow vault,
      `[4]` = provider. -/
  | addLiquidity (amount : UInt64)
  | removeLiquidity (amount : UInt64)
  /-- `[0]` = market, `[1]` = position, `[2]` = user's tokens, `[3]` = vault, `[4]` = user. -/
  | supply (amount : UInt64)
  | withdraw (amount : UInt64)
  | borrow (amount : UInt64)
  | repay (amount : UInt64)
  /-- `[0]` = market, `[1]` = position, `[2]` = liquidator's borrow tokens, `[3]` = borrow vault,
      `[4]` = liquidator's collateral tokens, `[5]` = collateral vault, `[6]` = liquidator. -/
  | liquidate (repayAmount : UInt64)
  /-- `[0]` = market, `[1]` = oracle feed. -/
  | syncPrice
deriving DecidableEq

namespace MoneyMarketInstruction

def ser : MoneyMarketInstruction → Option (List UInt8)
  | .initMarket terms => tag 0 terms
  | .addLiquidity amount => tag 1 amount
  | .removeLiquidity amount => tag 2 amount
  | .supply amount => tag 3 amount
  | .withdraw amount => tag 4 amount
  | .borrow amount => tag 5 amount
  | .repay amount => tag 6 amount
  | .liquidate amount => tag 7 amount
  | .syncPrice => tag 8 ()

def de : List UInt8 → Option (MoneyMarketInstruction × List UInt8)
  | 0 :: bs => untag .initMarket bs
  | 1 :: bs => untag .addLiquidity bs
  | 2 :: bs => untag .removeLiquidity bs
  | 3 :: bs => untag .supply bs
  | 4 :: bs => untag .withdraw bs
  | 5 :: bs => untag .borrow bs
  | 6 :: bs => untag .repay bs
  | 7 :: bs => untag .liquidate bs
  | 8 :: bs => untag (fun () => .syncPrice) bs
  | _ => none

instance : Borsh MoneyMarketInstruction where
  ser := ser
  de := de
  de_ser := by
    intro ix bs h rest
    cases ix <;>
    · obtain ⟨pre, rfl, hde⟩ := untag_tag (β := MoneyMarketInstruction) h
      simp only [List.cons_append, de, hde]

end MoneyMarketInstruction

def initMarketIx (market collateralMint borrowMint collateralVault borrowVault admin
    oracleFeed : Pubkey) (terms : MarketTerms) : Instruction :=
  .withArgs ProgramIds.moneyMarketProgram
    [.writable market false, .readonly collateralMint false, .readonly borrowMint false,
      .writable collateralVault false, .writable borrowVault false, .readonly admin true,
      .readonly oracleFeed false]
    (MoneyMarketInstruction.initMarket terms)

def liquidityIx (tag : MoneyMarketInstruction)
    (market lenderPosition providerBorrow borrowVault provider : Pubkey) : Instruction :=
  .withArgs ProgramIds.moneyMarketProgram
    [.writable market false, .writable lenderPosition false, .writable providerBorrow false,
      .writable borrowVault false, .readonly provider true] tag

def vaultIx (tag : MoneyMarketInstruction) (market position userToken vault user : Pubkey) :
    Instruction :=
  .withArgs ProgramIds.moneyMarketProgram
    [.writable market false, .writable position false, .writable userToken false,
      .writable vault false, .readonly user true] tag

def transfer (π : Profile) (accounts : List AccountInfo) (src dst owner : Nat) (amount : UInt64) :
    Prog (List AccountInfo) :=
  Token.invoke π accounts [src, dst, owner] [] (.transfer amount)

/-- Transfer out of a vault the market controls: the market did not sign, the program signs for
    it. -/
def transferSigned (π : Profile) (accounts : List AccountInfo) (src dst owner : Nat)
    (amount : UInt64) : Prog (List AccountInfo) :=
  Token.invoke π accounts [src, dst, owner] [2] (.transfer amount)

/-- Unlike `loadLenderPosition`, an initialised position of another owner is accepted. -/
def loadPosition (accounts : List AccountInfo) (marketKey owner : Pubkey) : Outcome Position := do
  let pos : Position ← loadOr accounts 1 {}
  if !pos.isInitialized then
    return { pos with owner, market := marketKey, isInitialized := true }
  else
    require (pos.market == marketKey) .invalidAccountData
    return pos

def loadLenderPosition (accounts : List AccountInfo) (marketKey owner : Pubkey) :
    Outcome LenderPosition := do
  let pos : LenderPosition ← loadOr accounts 1 {}
  if !pos.isInitialized then
    return { pos with owner, market := marketKey, isInitialized := true }
  else
    require (pos.market == marketKey && pos.owner == owner) .invalidAccountData
    return pos

/-- The market at `accounts[0]`, initialised and with interest accrued. -/
def loadMarket (π : Profile) (accounts : List AccountInfo) (timestamp : UInt64) :
    Outcome MarketState := do
  let market : MarketState ← load accounts 0
  require market.isInitialized .notInitialized
  orPanic (accrueMarket π market timestamp)

/-- `accounts[0].write_data(&market)?; accounts[1].write_data(&pos)?`. -/
def storeBoth {α : Type} [Borsh α] (accounts : List AccountInfo) (market : MarketState) (pos : α) :
    Outcome (List AccountInfo) := do
  store (← store accounts 0 market) 1 pos

def initMarket (accounts : List AccountInfo) (timestamp : UInt64) (terms : MarketTerms) :
    Outcome (List AccountInfo) := do
  require (decide (7 ≤ accounts.length)) .notEnoughAccounts
  (← slot accounts 5).requireSigner
  require (decide (terms.collateralFactorBps.toNat ≤ bps) &&
    decide (terms.liquidationThresholdBps.toNat ≤ bps)) .invalidInstruction
  require (decide (terms.kinkUtilizationBps.toNat ≤ bps) &&
    decide (terms.closeFactorBps.toNat ≤ bps)) .invalidInstruction
  require (decide (terms.collateralFactorBps ≤ terms.liquidationThresholdBps)) .invalidInstruction
  require (terms.price != 0) .invalidInstruction
  let market : MarketState ← loadOr accounts 0 {}
  require (!market.isInitialized) .alreadyInitialized
  store accounts 0 { market with
    collateralMint := (← slot accounts 1).key
    borrowMint := (← slot accounts 2).key
    collateralVault := (← slot accounts 3).key
    borrowVault := (← slot accounts 4).key
    oracleFeed := (← slot accounts 6).key
    collateralFactorBps := terms.collateralFactorBps
    liquidationThresholdBps := terms.liquidationThresholdBps
    liquidationBonusBps := terms.liquidationBonusBps
    closeFactorBps := terms.closeFactorBps
    price := terms.price
    priceUpdatedAt := timestamp
    maxPriceStaleness := terms.maxPriceStaleness
    baseRateBps := terms.baseRateBps
    slopeBps := terms.slopeBps
    kinkUtilizationBps := terms.kinkUtilizationBps
    jumpSlopeBps := terms.jumpSlopeBps
    borrowIndex := indexScale
    lastAccrualTs := timestamp
    isInitialized := true }

def syncPrice (accounts : List AccountInfo) : Outcome (List AccountInfo) := do
  require (decide (2 ≤ accounts.length)) .notEnoughAccounts
  let market : MarketState ← load accounts 0
  require market.isInitialized .notInitialized
  require ((← slot accounts 1).key == market.oracleFeed) .invalidAccountData
  let feed : Oracle.PriceFeed ← load accounts 1
  require (feed.isInitialized && feed.price != 0) .stalePrice
  store accounts 0 { market with price := feed.price, priceUpdatedAt := feed.publishTs }

/-- The part that `addLiquidity` and `removeLiquidity` have in common: the provider signed, the
    amount is not zero, the market is accrued and the lender position belongs to the provider. -/
def liquidityPrologue (π : Profile) (accounts : List AccountInfo) (timestamp amount : UInt64) :
    Outcome (MarketState × LenderPosition) := do
  require (decide (5 ≤ accounts.length)) .notEnoughAccounts
  let provider ← slot accounts 4
  provider.requireSigner
  require (amount != 0) .invalidInstruction
  let market ← loadMarket π accounts timestamp
  let lender ← loadLenderPosition accounts (← slot accounts 0).key provider.key
  return (market, lender)

/-- The part that the four position instructions have in common. `owned` is the check that the
    position belongs to the user, which only the two that take something out make. -/
def positionPrologue (π : Profile) (accounts : List AccountInfo) (timestamp : UInt64)
    (owned : Bool) : Outcome (MarketState × Position) := do
  require (decide (5 ≤ accounts.length)) .notEnoughAccounts
  let user ← slot accounts 4
  user.requireSigner
  let market ← loadMarket π accounts timestamp
  let pos ← loadPosition accounts (← slot accounts 0).key user.key
  require (!owned || pos.owner == user.key) .unauthorized
  let pos ← orPanic (accruePosition π pos market.borrowIndex)
  return (market, pos)

/-- A vault that cannot cover a draw is reported as missing liquidity. -/
def liquidityError : Fault → Fault
  | .err .insufficientFunds => .err .insufficientLiquidity
  | fault => fault

def addLiquidity (π : Profile) (accounts : List AccountInfo) (timestamp amount : UInt64) :
    Prog (List AccountInfo) := do
  let (market, lender) ← liquidityPrologue π accounts timestamp amount
  let shares ← orPanic (sharesForDeposit π market amount)
  let accounts ← transfer π accounts 2 3 4 amount
  let totalCash ← okOr .overflow (checkedAdd market.totalCash amount)
  let totalLenderShares ← okOr .overflow (checkedAdd market.totalLenderShares shares)
  let held ← okOr .overflow (checkedAdd lender.shares shares)
  storeBoth accounts { market with totalCash, totalLenderShares } { lender with shares := held }

def removeLiquidity (π : Profile) (accounts : List AccountInfo) (timestamp amount : UInt64) :
    Prog (List AccountInfo) := do
  let (market, lender) ← liquidityPrologue π accounts timestamp amount
  let burn ← orPanic (sharesForWithdraw π market amount)
  require (decide (burn ≤ lender.shares)) .insufficientFunds
  require (decide (amount ≤ market.totalCash)) .insufficientLiquidity
  let accounts ← transferSigned π accounts 3 2 0 amount
  let totalCash ← okOr .insufficientLiquidity (checkedSub market.totalCash amount)
  let totalLenderShares ← okOr .overflow (checkedSub market.totalLenderShares burn)
  let held ← okOr .insufficientFunds (checkedSub lender.shares burn)
  storeBoth accounts { market with totalCash, totalLenderShares } { lender with shares := held }

def supply (π : Profile) (accounts : List AccountInfo) (timestamp amount : UInt64) :
    Prog (List AccountInfo) := do
  let (market, pos) ← positionPrologue π accounts timestamp false
  let accounts ← transfer π accounts 2 3 4 amount
  let collateral ← okOr .overflow (checkedAdd pos.collateral amount)
  let totalCollateral ← okOr .overflow (checkedAdd market.totalCollateral amount)
  storeBoth accounts { market with totalCollateral } { pos with collateral }

def withdraw (π : Profile) (accounts : List AccountInfo) (timestamp amount : UInt64) :
    Prog (List AccountInfo) := do
  let (market, pos) ← positionPrologue π accounts timestamp true
  ensureFreshPrice market timestamp
  let remaining ← okOr .insufficientFunds (checkedSub pos.collateral amount)
  require (← orPanic (isHealthy π market remaining pos.debt)) .undercollateralized
  let accounts ← transferSigned π accounts 3 2 0 amount
  let totalCollateral ← okOr .overflow (checkedSub market.totalCollateral amount)
  storeBoth accounts { market with totalCollateral } { pos with collateral := remaining }

def borrow (π : Profile) (accounts : List AccountInfo) (timestamp amount : UInt64) :
    Prog (List AccountInfo) := do
  let (market, pos) ← positionPrologue π accounts timestamp true
  ensureFreshPrice market timestamp
  let newDebt ← okOr .overflow (checkedAdd pos.debt amount)
  require (← orPanic (isHealthy π market pos.collateral newDebt)) .undercollateralized
  let newCash ← okOr .insufficientLiquidity (checkedSub market.totalCash amount)
  let accounts ← (transferSigned π accounts 3 2 0 amount).adapt liquidityError
  let totalBorrows ← okOr .overflow (checkedAdd market.totalBorrows amount)
  storeBoth accounts { market with totalCash := newCash, totalBorrows }
    { pos with debt := newDebt }

def repay (π : Profile) (accounts : List AccountInfo) (timestamp amount : UInt64) :
    Prog (List AccountInfo) := do
  let (market, pos) ← positionPrologue π accounts timestamp false
  -- Repay at most the outstanding debt.
  let repayAmount := min amount pos.debt
  let accounts ← transfer π accounts 2 3 4 repayAmount
  let debt ← orPanic (subU64 π pos.debt repayAmount)
  let totalCash ← okOr .overflow (checkedAdd market.totalCash repayAmount)
  let totalBorrows := saturatingSub market.totalBorrows repayAmount
  storeBoth accounts { market with totalCash, totalBorrows } { pos with debt }

def liquidate (π : Profile) (accounts : List AccountInfo) (timestamp repayAmount : UInt64) :
    Prog (List AccountInfo) := do
  require (decide (7 ≤ accounts.length)) .notEnoughAccounts
  (← slot accounts 6).requireSigner
  let market ← loadMarket π accounts timestamp
  let pos : Position ← load accounts 1
  require (pos.isInitialized && pos.market == (← slot accounts 0).key) .invalidAccountData
  let pos ← orPanic (accruePosition π pos market.borrowIndex)
  ensureFreshPrice market timestamp
  require (← orPanic (isLiquidatable π market pos.collateral pos.debt)) .unauthorized
  -- Repay at most the share that the close factor allows; seize what that is worth, with the
  -- bonus, at most what the position holds.
  let repaid := min repayAmount (← orPanic (maxLiquidationRepay π market pos.debt))
  require (repaid != 0) .invalidInstruction
  let seized := min (asU64 (← orPanic (seizeCollateral π market repaid))) pos.collateral
  let accounts ← transfer π accounts 2 3 6 repaid
  let accounts ← transferSigned π accounts 5 4 0 seized
  let debt ← orPanic (subU64 π pos.debt repaid)
  let collateral ← orPanic (subU64 π pos.collateral seized)
  let totalCash ← okOr .overflow (checkedAdd market.totalCash repaid)
  storeBoth accounts
    { market with
      totalBorrows := saturatingSub market.totalBorrows repaid
      totalCash
      totalCollateral := saturatingSub market.totalCollateral seized }
    { pos with debt, collateral }

def run (π : Profile) (accounts : List AccountInfo) (timestamp : UInt64) :
    MoneyMarketInstruction → Prog (List AccountInfo)
  | .initMarket terms => initMarket accounts timestamp terms
  | .addLiquidity amount => addLiquidity π accounts timestamp amount
  | .removeLiquidity amount => removeLiquidity π accounts timestamp amount
  | .supply amount => supply π accounts timestamp amount
  | .withdraw amount => withdraw π accounts timestamp amount
  | .borrow amount => borrow π accounts timestamp amount
  | .repay amount => repay π accounts timestamp amount
  | .liquidate repayAmount => liquidate π accounts timestamp repayAmount
  | .syncPrice => syncPrice accounts

def process (π : Profile) (timestamp : UInt64) : Process := fun accounts data => do
  let ix ← okOr .invalidInstruction (tryFromSlice data)
  run π accounts timestamp ix

end MoneyMarket
end Programs
end Himsha
