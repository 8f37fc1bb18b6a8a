import Himsha.Programs.MoneyMarket

/-!
# The yield vault

Depositors hold shares of a pool of one asset; idle assets can be lent into a money market, whose
lender shares the vault then holds. It is the one program that invokes a program which itself
invokes another.
-/

set_option autoImplicit false

namespace Himsha
namespace Programs
namespace Vault

open Himsha.Lib Himsha.Runtime
open Token (TokenAccountState)
open MoneyMarket (MarketState LenderPosition MoneyMarketInstruction lenderShareValue)

def bps : Nat := 10000

/-- Shares permanently locked on the first deposit. -/
def minShares : UInt64 := 1000

structure VaultState where
  assetMint : Pubkey := default
  shareMint : Pubkey := default
  /-- Token account holding the vault's assets. -/
  assetVault : Pubkey := default
  manager : Pubkey := default
  /-- Cached assets under management. -/
  totalAssets : UInt64 := 0
  /-- Money-market lender shares the vault holds. -/
  lenderShares : UInt64 := 0
  /-- Outstanding vault shares, with the locked ones. -/
  totalShares : UInt64 := 0
  performanceFeeBps : UInt64 := 0
  isInitialized : Bool := false
deriving DecidableEq

def VaultState.fields (v : VaultState) :=
  (v.assetMint, v.shareMint, v.assetVault, v.manager, v.totalAssets, v.lenderShares,
    v.totalShares, v.performanceFeeBps, v.isInitialized)

def VaultState.ofFields : Pubkey × Pubkey × Pubkey × Pubkey × UInt64 × UInt64 × UInt64 × UInt64 ×
    Bool → VaultState
  | (a, s, t, m, ta, l, ts, p, i) => ⟨a, s, t, m, ta, l, ts, p, i⟩

instance : Borsh VaultState := .iso VaultState.fields VaultState.ofFields fun _ => rfl

instance : Canonical VaultState := .iso (fun _ => rfl) fun _ => rfl

instance : Sized VaultState := .iso fun _ => rfl

inductive VaultInstruction where
  /-- `[0]` = vault, `[1]` = asset mint, `[2]` = share mint, `[3]` = asset vault,
      `[4]` = manager. -/
  | initVault (performanceFeeBps : UInt64)
  /-- `[0]` = vault, `[1]` = user's assets, `[2]` = asset vault, `[3]` = user's shares,
      `[4]` = share mint, `[5]` = user, optionally `[6]` = market. -/
  | deposit (amount minShares : UInt64)
  /-- The same, optionally with `[7]` = lender position, `[8]` = the market's borrow vault. -/
  | withdraw (shares minAssets : UInt64)
  /-- `[0]` = vault, `[1]` = manager, `[2]` = asset vault, `[3]` = share mint,
      `[4]` = manager's shares, optionally `[5]` = market. -/
  | report
  /-- `[0]` = vault, `[1]` = asset vault, `[2]` = market, `[3]` = lender position,
      `[4]` = the market's borrow vault, `[5]` = manager. -/
  | deploy (amount : UInt64)
  | undeploy (amount : UInt64)
deriving DecidableEq

namespace VaultInstruction

def ser : VaultInstruction → Option (List UInt8)
  | .initVault fee => tag 0 fee
  | .deposit amount least => tag 1 (amount, least)
  | .withdraw shares least => tag 2 (shares, least)
  | .report => tag 3 ()
  | .deploy amount => tag 4 amount
  | .undeploy amount => tag 5 amount

def de : List UInt8 → Option (VaultInstruction × List UInt8)
  | 0 :: bs => untag .initVault bs
  | 1 :: bs => untag (fun (a, m) => .deposit a m) bs
  | 2 :: bs => untag (fun (s, m) => .withdraw s m) bs
  | 3 :: bs => untag (fun () => .report) bs
  | 4 :: bs => untag .deploy bs
  | 5 :: bs => untag .undeploy bs
  | _ => none

instance : Borsh VaultInstruction where
  ser := ser
  de := de
  de_ser := by
    intro ix bs h rest
    cases ix <;>
    · obtain ⟨pre, rfl, hde⟩ := untag_tag (β := VaultInstruction) h
      simp only [List.cons_append, de, hde]

end VaultInstruction

def balance (accounts : List AccountInfo) (i : Nat) : Outcome UInt64 := do
  let token : TokenAccountState ← load accounts i
  return token.amount

def tokenTransfer (π : Profile) (accounts : List AccountInfo) (src dst owner : Nat)
    (amount : UInt64) : Prog (List AccountInfo) :=
  Token.invoke π accounts [src, dst, owner] [] (.transfer amount)

/-- Transfer out of a vault-owned account; the vault signs as authority. -/
def tokenTransferSigned (π : Profile) (accounts : List AccountInfo) (src dst owner : Nat)
    (amount : UInt64) : Prog (List AccountInfo) :=
  Token.invoke π accounts [src, dst, owner] [2] (.transfer amount)

/-- Mint shares; the vault signs as the share-mint authority. -/
def mintSigned (π : Profile) (accounts : List AccountInfo) (mint dst authority : Nat)
    (amount : UInt64) : Prog (List AccountInfo) :=
  Token.invoke π accounts [mint, dst, authority] [2] (.mintTo amount)

def burn (π : Profile) (accounts : List AccountInfo) (token mint owner : Nat) (amount : UInt64) :
    Prog (List AccountInfo) :=
  Token.invoke π accounts [token, mint, owner] [] (.burn amount)

/-- Invoke the money market's lender side. The vault is the provider, at position 4 of the
    window, and the program signs for it. -/
def mmLiquidity (π : Profile) (accounts : List AccountInfo) (idx : List Nat)
    (ix : MoneyMarketInstruction) (timestamp : UInt64) : Prog (List AccountInfo) := do
  let data ← okOr .borshError (toVec ix)
  invokeSignedIndexed accounts idx [4] data ProgramIds.moneyMarketProgram
    (MoneyMarket.process π timestamp)

/-- Lender-share balance recorded in a lender-position account, 0 where it does not decode. -/
def readLenderShares (accounts : List AccountInfo) (i : Nat) : Outcome UInt64 := do
  let pos : LenderPosition ← loadOr accounts i {}
  return pos.shares

/-- Idle balance plus the current value of the lender shares, read off the market at
    `accounts[6]`; the cached total where there are no shares or no market is given. -/
def liveNav (π : Profile) (vault : VaultState) (accounts : List AccountInfo) :
    Outcome UInt64 := do
  if 0 < vault.lenderShares ∧ 7 ≤ accounts.length then
    let market : MarketState ← load accounts 6
    let idle ← balance accounts 2
    let deployed ← orPanic (lenderShareValue π market vault.lenderShares)
    okOr .overflow (checkedAdd idle deployed)
  else return vault.totalAssets

/-- `(a * b / c) as u64` in `u128`. -/
def mulDiv (π : Profile) (a b c : Nat) : Option UInt64 := do
  return asU64 (← divU128 (← mulU128 π a b) c)

/-- Shares for the user and the change of the supply; the first deposit locks `minShares`. -/
def depositShares (π : Profile) (vault : VaultState) (navBasis amount : UInt64) :
    Outcome (UInt64 × UInt64) := do
  if vault.totalShares = 0 then
    let user ← okOr .insufficientFunds (checkedSub amount minShares)
    return (user, amount)
  else
    let shares ← orPanic (mulDiv π amount.toNat vault.totalShares.toNat (max navBasis 1).toNat)
    return (shares, shares)

/-- Value of the deployed leg in a report. The market is needed only where there are shares. -/
def deployedValue (π : Profile) (vault : VaultState) (accounts : List AccountInfo) :
    Outcome UInt64 := do
  if 0 < vault.lenderShares then
    require (decide (6 ≤ accounts.length)) .notEnoughAccounts
    let market : MarketState ← load accounts 5
    orPanic (lenderShareValue π market vault.lenderShares)
  else return 0

/-- Performance-fee shares on a profit, 0 where none are minted. -/
def feeShares (π : Profile) (vault : VaultState) (nav profit : UInt64) : Option UInt64 := do
  if 0 < profit ∧ 0 < vault.performanceFeeBps ∧ 0 < vault.totalShares then
    let fee ← divU128 (← mulU128 π profit.toNat vault.performanceFeeBps.toNat) bps
    if 0 < fee ∧ fee < nav.toNat then
      mulDiv π fee vault.totalShares.toNat (nav.toNat - fee)
    else return 0
  else return 0

/-- The manager authorized the call and is this vault's. -/
def strategyPrologue (accounts : List AccountInfo) (amount : UInt64) : Outcome VaultState := do
  require (decide (6 ≤ accounts.length)) .notEnoughAccounts
  let manager ← slot accounts 5
  manager.requireSigner
  require (amount != 0) .invalidInstruction
  let vault : VaultState ← load accounts 0
  require vault.isInitialized .notInitialized
  require (manager.key == vault.manager) .unauthorized
  return vault

def initVault (accounts : List AccountInfo) (performanceFeeBps : UInt64) :
    Outcome (List AccountInfo) := do
  require (decide (5 ≤ accounts.length)) .notEnoughAccounts
  (← slot accounts 4).requireSigner
  require (decide (performanceFeeBps.toNat ≤ bps)) .invalidInstruction
  let vault : VaultState ← loadOr accounts 0 {}
  require (!vault.isInitialized) .alreadyInitialized
  store accounts 0 { vault with
    assetMint := (← slot accounts 1).key
    shareMint := (← slot accounts 2).key
    assetVault := (← slot accounts 3).key
    manager := (← slot accounts 4).key
    performanceFeeBps
    isInitialized := true }

def deposit (π : Profile) (accounts : List AccountInfo) (amount least : UInt64) :
    Prog (List AccountInfo) := do
  require (decide (6 ≤ accounts.length)) .notEnoughAccounts
  (← slot accounts 5).requireSigner
  require (amount != 0) .invalidInstruction
  let vault : VaultState ← load accounts 0
  require vault.isInitialized .notInitialized
  let navBasis ← liveNav π vault accounts
  let (userShares, supplyDelta) ← depositShares π vault navBasis amount
  require (decide (least ≤ userShares)) .slippageExceeded
  let accounts ← tokenTransfer π accounts 1 2 5 amount
  let accounts ← mintSigned π accounts 4 3 0 userShares
  let totalAssets ← okOr .overflow (checkedAdd vault.totalAssets amount)
  let totalShares ← okOr .overflow (checkedAdd vault.totalShares supplyDelta)
  store accounts 0 { vault with totalAssets, totalShares }

/-- Where the idle balance cannot cover a redemption and the market accounts are given, redeem
    the shortfall from the market first. -/
def autoUndeploy (π : Profile) (vault : VaultState) (accounts : List AccountInfo)
    (timestamp assetsOut : UInt64) : Prog (VaultState × List AccountInfo) := do
  let idle ← balance accounts 2
  if idle < assetsOut ∧ 9 ≤ accounts.length then
    let accounts ← mmLiquidity π accounts [6, 7, 2, 8, 0] (.removeLiquidity (assetsOut - idle))
      timestamp
    let lenderShares ← readLenderShares accounts 7
    return ({ vault with lenderShares }, accounts)
  else return (vault, accounts)

def withdraw (π : Profile) (accounts : List AccountInfo) (timestamp shares minAssets : UInt64) :
    Prog (List AccountInfo) := do
  require (decide (6 ≤ accounts.length)) .notEnoughAccounts
  (← slot accounts 5).requireSigner
  let vault : VaultState ← load accounts 0
  require (vault.totalShares != 0) .notInitialized
  let navBasis ← liveNav π vault accounts
  let assetsOut ← orPanic (mulDiv π shares.toNat navBasis.toNat vault.totalShares.toNat)
  require (decide (minAssets ≤ assetsOut)) .slippageExceeded
  let (vault, accounts) ← autoUndeploy π vault accounts timestamp assetsOut
  let accounts ← burn π accounts 3 4 5 shares
  let accounts ← tokenTransferSigned π accounts 2 1 0 assetsOut
  let totalAssets ← okOr .insufficientFunds (checkedSub navBasis assetsOut)
  let totalShares ← okOr .insufficientFunds (checkedSub vault.totalShares shares)
  store accounts 0 { vault with totalAssets, totalShares }

def report (π : Profile) (accounts : List AccountInfo) : Prog (List AccountInfo) := do
  require (decide (5 ≤ accounts.length)) .notEnoughAccounts
  let manager ← slot accounts 1
  manager.requireSigner
  let vault : VaultState ← load accounts 0
  require vault.isInitialized .notInitialized
  require (manager.key == vault.manager) .unauthorized
  let deployed ← deployedValue π vault accounts
  let idle ← balance accounts 2
  let nav ← okOr .overflow (checkedAdd idle deployed)
  let profit := saturatingSub nav vault.totalAssets
  let fee ← orPanic (feeShares π vault nav profit)
  if 0 < fee then
    -- Dilution mint: keeps existing depositors whole minus the fee.
    let accounts ← mintSigned π accounts 3 4 0 fee
    let totalShares ← okOr .overflow (checkedAdd vault.totalShares fee)
    store accounts 0 { vault with totalShares, totalAssets := nav }
  else store accounts 0 { vault with totalAssets := nav }

/-- `Deploy` and `Undeploy` differ in the money-market instruction they invoke. -/
def moveLiquidity (π : Profile) (accounts : List AccountInfo) (timestamp amount : UInt64)
    (ix : MoneyMarketInstruction) : Prog (List AccountInfo) := do
  let vault ← strategyPrologue accounts amount
  let accounts ← mmLiquidity π accounts [2, 3, 1, 4, 0] ix timestamp
  let lenderShares ← readLenderShares accounts 3
  store accounts 0 { vault with lenderShares }

def deploy (π : Profile) (accounts : List AccountInfo) (timestamp amount : UInt64) :
    Prog (List AccountInfo) :=
  moveLiquidity π accounts timestamp amount (.addLiquidity amount)

def undeploy (π : Profile) (accounts : List AccountInfo) (timestamp amount : UInt64) :
    Prog (List AccountInfo) :=
  moveLiquidity π accounts timestamp amount (.removeLiquidity amount)

def run (π : Profile) (accounts : List AccountInfo) (timestamp : UInt64) :
    VaultInstruction → Prog (List AccountInfo)
  | .initVault performanceFeeBps => initVault accounts performanceFeeBps
  | .deposit amount least => deposit π accounts amount least
  | .withdraw shares minAssets => withdraw π accounts timestamp shares minAssets
  | .report => report π accounts
  | .deploy amount => deploy π accounts timestamp amount
  | .undeploy amount => undeploy π accounts timestamp amount

def process (π : Profile) (timestamp : UInt64) : Process := fun accounts data => do
  let ix ← okOr .invalidInstruction (tryFromSlice data)
  run π accounts timestamp ix

end Vault
end Programs
end Himsha
