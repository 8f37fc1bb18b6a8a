import Himsha.Sdk.Builtin
import Himsha.Sdk.JsString

/-!
# The builders under `programs/*.ts`

The builders of the TypeScript library. A `bigint` is a `u64` and a `number` of the width that it
is written with; a string is any JavaScript string.
-/

set_option autoImplicit false

namespace Himsha
namespace Sdk
namespace TypeScript

open Himsha.Lib Himsha.Runtime Himsha.Programs

def u64Le (n : UInt64) : List UInt8 := leBytes 8 n.toNat

def u32Le (n : UInt32) : List UInt8 := leBytes 4 n.toNat

def u8 (n : UInt8) : List UInt8 := [n]

def concat (arrays : List (List UInt8)) : List UInt8 := arrays.flatten

/-- `setUint32` keeps the low 32 bits of the length. -/
def encodeString (s : JsString) : List UInt8 :=
  leBytes 4 s.textEncode.length ++ s.textEncode

def keyBytes (key : Pubkey) : List UInt8 := key.bytes.bytes

def optionalKey : Option Pubkey → List UInt8
  | some key => concat [[1], keyBytes key]
  | none => [0]

/-! ## `system.ts` -/

namespace System

def createAccount (payer newAccount : Pubkey) (lamports space : UInt64)
    (owner : Pubkey) : Instruction where
  programId := ProgramIds.systemProgram
  accounts := [.writable payer true, .writable newAccount true]
  data := concat [[0], u64Le lamports, u64Le space, keyBytes owner]

def createAccountWithAnchor (payer newAccount : Pubkey) (txid : Blob 32) (vout : UInt32)
    (space : UInt64) (owner : Pubkey) : Instruction where
  programId := ProgramIds.systemProgram
  accounts := [.writable payer true, .writable newAccount true]
  data := concat [[1], txid.bytes, u32Le vout, u64Le space, keyBytes owner]

def transfer (source dest : Pubkey) (lamports : UInt64) : Instruction where
  programId := ProgramIds.systemProgram
  accounts := [.writable source true, .writable dest false]
  data := concat [[2], u64Le lamports]

def assign (account : Pubkey) (owner : Pubkey) : Instruction where
  programId := ProgramIds.systemProgram
  accounts := [.writable account true]
  data := concat [[3], keyBytes owner]

def allocate (account : Pubkey) (space : UInt64) : Instruction where
  programId := ProgramIds.systemProgram
  accounts := [.writable account true]
  data := concat [[4], u64Le space]

end System

/-! ## `token.ts` -/

namespace Token

def initializeMint (mint : Pubkey) (mintAuthority : Pubkey) (decimals : UInt8)
    (freezeAuthority : Option Pubkey) : Instruction where
  programId := ProgramIds.tokenProgram
  accounts := [.writable mint false]
  data := concat [[0], u8 decimals, keyBytes mintAuthority, optionalKey freezeAuthority]

def initializeAccount (tokenAccount mint owner : Pubkey) : Instruction where
  programId := ProgramIds.tokenProgram
  accounts := [.writable tokenAccount false, .readonly mint false, .readonly owner false]
  data := [1]

def mintTo (mint destination mintAuthority : Pubkey) (amount : UInt64) : Instruction where
  programId := ProgramIds.tokenProgram
  accounts := [.writable mint false, .writable destination false, .readonly mintAuthority true]
  data := concat [[2], u64Le amount]

def transfer (source destination owner : Pubkey) (amount : UInt64) : Instruction where
  programId := ProgramIds.tokenProgram
  accounts := [.writable source false, .writable destination false, .readonly owner true]
  data := concat [[3], u64Le amount]

def burn (tokenAccount mint owner : Pubkey) (amount : UInt64) : Instruction where
  programId := ProgramIds.tokenProgram
  accounts := [.writable tokenAccount false, .writable mint false, .readonly owner true]
  data := concat [[4], u64Le amount]

def approve (source delegate owner : Pubkey) (amount : UInt64) : Instruction where
  programId := ProgramIds.tokenProgram
  accounts := [.writable source false, .readonly delegate false, .readonly owner true]
  data := concat [[5], u64Le amount]

def revoke (source owner : Pubkey) : Instruction where
  programId := ProgramIds.tokenProgram
  accounts := [.writable source false, .readonly owner true]
  data := [6]

def freezeAccount (tokenAccount freezeAuthority : Pubkey) : Instruction where
  programId := ProgramIds.tokenProgram
  accounts := [.writable tokenAccount false, .readonly freezeAuthority true]
  data := [7]

def thawAccount (tokenAccount freezeAuthority : Pubkey) : Instruction where
  programId := ProgramIds.tokenProgram
  accounts := [.writable tokenAccount false, .readonly freezeAuthority true]
  data := [8]

def closeAccount (tokenAccount destination owner : Pubkey) : Instruction where
  programId := ProgramIds.tokenProgram
  accounts := [.writable tokenAccount false, .writable destination false, .readonly owner true]
  data := [9]

end Token

/-! ## `swap.ts` -/

namespace Swap

def initializePool (pool tokenAMint tokenBMint reserveA reserveB lpMint payer : Pubkey)
    (feeNumerator feeDenominator : UInt64) : Instruction where
  programId := ProgramIds.swapProgram
  accounts := [.writable pool false, .readonly tokenAMint false, .readonly tokenBMint false,
    .writable reserveA false, .writable reserveB false, .writable lpMint false,
    .writable payer true]
  data := concat [[0], u64Le feeNumerator, u64Le feeDenominator]

def swap (pool source destination reserveIn reserveOut user : Pubkey)
    (amountIn minAmountOut : UInt64) : Instruction where
  programId := ProgramIds.swapProgram
  accounts := [.readonly pool false, .writable source false, .writable destination false,
    .writable reserveIn false, .writable reserveOut false, .readonly user true]
  data := concat [[1], u64Le amountIn, u64Le minAmountOut]

def deposit (pool userTokenA userTokenB reserveA reserveB userLp user lpMint : Pubkey)
    (maxA maxB minLp : UInt64) : Instruction where
  programId := ProgramIds.swapProgram
  accounts := [.writable pool false, .writable userTokenA false, .writable userTokenB false,
    .writable reserveA false, .writable reserveB false, .writable userLp false, .readonly user true,
    .writable lpMint false]
  data := concat [[2], u64Le maxA, u64Le maxB, u64Le minLp]

def withdraw (pool userTokenA userTokenB reserveA reserveB userLp user lpMint : Pubkey)
    (lpAmount minA minB : UInt64) : Instruction where
  programId := ProgramIds.swapProgram
  accounts := [.writable pool false, .writable userTokenA false, .writable userTokenB false,
    .writable reserveA false, .writable reserveB false, .writable userLp false, .readonly user true,
    .writable lpMint false]
  data := concat [[3], u64Le lpAmount, u64Le minA, u64Le minB]

end Swap

/-! ## `lending.ts` -/

namespace Lending

def initCollection (collectionAccount payer : Pubkey) (name : JsString) : Instruction where
  programId := ProgramIds.lendingProgram
  accounts := [.writable collectionAccount false, .writable payer true]
  data := concat [[0], encodeString name]

def placeBid (collectionAccount lender : Pubkey) (bidTxid : Blob 32) (bidVout : UInt32)
    (loanValueSats loanPeriodSecs interestRateBps : UInt64)
    (lenderOrdinalsAddress lenderPaymentsAddress : JsString) : Instruction where
  programId := ProgramIds.lendingProgram
  accounts := [.writable collectionAccount false, .readonly lender true]
  data := concat [[1], bidTxid.bytes, u32Le bidVout, u64Le loanValueSats, u64Le loanPeriodSecs,
    u64Le interestRateBps, encodeString lenderOrdinalsAddress, encodeString lenderPaymentsAddress]

def cancelBid (collectionAccount lender : Pubkey) (bidTxid : Blob 32)
    (bidVout : UInt32) : Instruction where
  programId := ProgramIds.lendingProgram
  accounts := [.writable collectionAccount false, .readonly lender true]
  data := concat [[2], bidTxid.bytes, u32Le bidVout]

def acceptBid (collectionAccount borrower : Pubkey) (inscriptionId : JsString)
    (inscriptionTxid : Blob 32) (inscriptionVout : UInt32)
    (borrowerOrdinalsAddress borrowerPaymentsAddress : JsString) : Instruction where
  programId := ProgramIds.lendingProgram
  accounts := [.writable collectionAccount false, .readonly borrower true]
  data := concat [[3], encodeString inscriptionId, inscriptionTxid.bytes, u32Le inscriptionVout,
    encodeString borrowerOrdinalsAddress, encodeString borrowerPaymentsAddress]

def repayLoan (collectionAccount borrower : Pubkey) (inscriptionId : JsString)
    (repaymentTxid : Blob 32) (repaymentVout : UInt32) (amountSats : UInt64) : Instruction where
  programId := ProgramIds.lendingProgram
  accounts := [.writable collectionAccount false, .readonly borrower true]
  data := concat [[4], encodeString inscriptionId, repaymentTxid.bytes, u32Le repaymentVout,
    u64Le amountSats]

def claimDefault (collectionAccount lender : Pubkey) (inscriptionId : JsString) : Instruction where
  programId := ProgramIds.lendingProgram
  accounts := [.writable collectionAccount false, .readonly lender true]
  data := concat [[5], encodeString inscriptionId]

end Lending

/-! ## `runes.ts` -/

namespace Runes

/-- Open-mint terms. -/
structure MintTerms where
  amount : UInt64
  cap : UInt64
  mints : UInt64
  start : UInt64
  stop : UInt64
deriving DecidableEq

def encodeTerms : Option MintTerms → List UInt8
  | none => u8 0
  | some terms => concat [u8 1, u64Le terms.amount, u64Le terms.cap, u64Le terms.mints,
      u64Le terms.start, u64Le terms.stop]

def etch (rune etcherBalance etcher : Pubkey) (name : JsString) (symbol : UInt32)
    (divisibility : UInt8) (premine : UInt64) (terms : Option MintTerms) : Instruction where
  programId := ProgramIds.runesProgram
  accounts := [.writable rune false, .writable etcherBalance false, .readonly etcher true]
  data := concat [[0], encodeString name, u32Le symbol, u8 divisibility, u64Le premine,
    encodeTerms terms]

def mint (rune destination minter : Pubkey) : Instruction where
  programId := ProgramIds.runesProgram
  accounts := [.writable rune false, .writable destination false, .readonly minter true]
  data := [1]

def transfer (source destination owner : Pubkey) (amount : UInt64) : Instruction where
  programId := ProgramIds.runesProgram
  accounts := [.writable source false, .writable destination false, .readonly owner true]
  data := concat [[2], u64Le amount]

def burn (rune source owner : Pubkey) (amount : UInt64) : Instruction where
  programId := ProgramIds.runesProgram
  accounts := [.writable rune false, .writable source false, .readonly owner true]
  data := concat [[3], u64Le amount]

def initBalance (balance owner : Pubkey) : Instruction where
  programId := ProgramIds.runesProgram
  accounts := [.writable balance false, .readonly owner false]
  data := [4]

end Runes

/-! ## `moneyMarket.ts` -/

namespace MoneyMarket

/-- Supply, withdraw, borrow and repay share a layout. -/
def vaultIx (tag : List UInt8) (market position userToken vault user : Pubkey) (amount : UInt64) :
    Instruction where
  programId := ProgramIds.moneyMarketProgram
  accounts := [.writable market false, .writable position false, .writable userToken false,
    .writable vault false, .readonly user true]
  data := concat [tag, u64Le amount]

def initMarket (market collateralMint borrowMint collateralVault borrowVault admin oracleFeed :
    Pubkey) (collateralFactorBps liquidationThresholdBps liquidationBonusBps closeFactorBps price
    baseRateBps slopeBps kinkUtilizationBps jumpSlopeBps maxPriceStalenessSecs : UInt64)
    : Instruction where
  programId := ProgramIds.moneyMarketProgram
  accounts := [.writable market false, .readonly collateralMint false, .readonly borrowMint false,
    .writable collateralVault false, .writable borrowVault false, .readonly admin true,
    .readonly oracleFeed false]
  data := concat [[0], u64Le collateralFactorBps, u64Le liquidationThresholdBps,
    u64Le liquidationBonusBps, u64Le closeFactorBps, u64Le price, u64Le baseRateBps, u64Le slopeBps,
    u64Le kinkUtilizationBps, u64Le jumpSlopeBps, u64Le maxPriceStalenessSecs]

def addLiquidity (market providerBorrow borrowVault provider : Pubkey)
    (amount : UInt64) : Instruction where
  programId := ProgramIds.moneyMarketProgram
  accounts := [.writable market false, .writable providerBorrow false, .writable borrowVault false,
    .readonly provider true]
  data := concat [[1], u64Le amount]

def supply (market position userCollateral collateralVault user : Pubkey)
    (amount : UInt64) : Instruction :=
  vaultIx [2] market position userCollateral collateralVault user amount

def withdraw (market position userCollateral collateralVault user : Pubkey)
    (amount : UInt64) : Instruction :=
  vaultIx [3] market position userCollateral collateralVault user amount

def borrow (market position userBorrow borrowVault user : Pubkey) (amount : UInt64) : Instruction :=
  vaultIx [4] market position userBorrow borrowVault user amount

def repay (market position userBorrow borrowVault user : Pubkey) (amount : UInt64) : Instruction :=
  vaultIx [5] market position userBorrow borrowVault user amount

def liquidate (market position liquidatorBorrow borrowVault liquidatorCollateral collateralVault
    liquidator : Pubkey) (repayAmount : UInt64) : Instruction where
  programId := ProgramIds.moneyMarketProgram
  accounts := [.writable market false, .writable position false, .writable liquidatorBorrow false,
    .writable borrowVault false, .writable liquidatorCollateral false,
    .writable collateralVault false, .readonly liquidator true]
  data := concat [[6], u64Le repayAmount]

def syncPrice (market oracleFeed : Pubkey) : Instruction where
  programId := ProgramIds.moneyMarketProgram
  accounts := [.writable market false, .readonly oracleFeed false]
  data := [7]

end MoneyMarket

/-! ## `vault.ts` -/

namespace Vault

/-- Deposit and withdraw share a layout. -/
def userIx (tag : List UInt8) (vault userAsset assetVault userShares shareMint user : Pubkey)
    (a b : UInt64) : Instruction where
  programId := ProgramIds.vaultProgram
  accounts := [.writable vault false, .writable userAsset false, .writable assetVault false,
    .writable userShares false, .writable shareMint false, .readonly user true]
  data := concat [tag, u64Le a, u64Le b]

def initVault (vault assetMint shareMint assetVault manager : Pubkey)
    (performanceFeeBps : UInt64) : Instruction where
  programId := ProgramIds.vaultProgram
  accounts := [.writable vault false, .readonly assetMint false, .readonly shareMint false,
    .writable assetVault false, .readonly manager true]
  data := concat [[0], u64Le performanceFeeBps]

def deposit (vault userAsset assetVault userShares shareMint user : Pubkey)
    (amount minShares : UInt64) : Instruction :=
  userIx [1] vault userAsset assetVault userShares shareMint user amount minShares

def withdraw (vault userAsset assetVault userShares shareMint user : Pubkey)
    (shares minAssets : UInt64) : Instruction :=
  userIx [2] vault userAsset assetVault userShares shareMint user shares minAssets

def report (vault manager assetVault shareMint managerShares : Pubkey) : Instruction where
  programId := ProgramIds.vaultProgram
  accounts := [.writable vault false, .readonly manager true, .readonly assetVault false,
    .writable shareMint false, .writable managerShares false]
  data := [3]

end Vault

/-! ## `oracle.ts` -/

namespace Oracle

def adminIx (feed signer : Pubkey) (data : List UInt8) : Instruction where
  programId := ProgramIds.oracleProgram
  accounts := [.writable feed false, .readonly signer true]
  data := data

def initFeed (feed authority : Pubkey) (maxDeviationBps maxSubmissionAge : UInt64) : Instruction :=
  adminIx feed authority (concat [[0], u64Le maxDeviationBps, u64Le maxSubmissionAge])

def updatePrice (feed publisher : Pubkey) (price : UInt64) : Instruction :=
  adminIx feed publisher (concat [[1], u64Le price])

def addPublisher (feed authority : Pubkey) (publisher : Pubkey) : Instruction :=
  adminIx feed authority (concat [[2], keyBytes publisher])

def removePublisher (feed authority : Pubkey) (publisher : Pubkey) : Instruction :=
  adminIx feed authority (concat [[3], keyBytes publisher])

end Oracle

end TypeScript
end Sdk
end Himsha
