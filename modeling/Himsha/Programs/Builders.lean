import Himsha.Vm.Dispatch

/-!
# The instruction builders of the programs

Every program crate exports functions that make its instructions. Those that the handlers' own
modules define are used from there; the rest are here, and `Builds` has all of them.
-/

set_option autoImplicit false

namespace Himsha
namespace Programs
namespace Builders

open Himsha.Lib Himsha.Runtime

/-! ## `ata` -/

def createAssociatedTokenAccount (payer owner mint : Pubkey) : Instruction :=
  .withArgs ProgramIds.ataProgram
    [.writable payer true, .writable (Ata.getAssociatedTokenAddress owner mint) false,
      .readonly owner false, .readonly mint false]
    Ata.AtaInstruction.create

/-! ## `swap` -/

namespace Swap

def initializePool (pool tokenAMint tokenBMint reserveA reserveB lpMint payer : Pubkey)
    (feeNum feeDen : UInt64) : Instruction :=
  .withArgs ProgramIds.swapProgram
    [.writable pool false, .readonly tokenAMint false, .readonly tokenBMint false,
      .writable reserveA false, .writable reserveB false, .writable lpMint false,
      .writable payer true]
    (Programs.Swap.SwapInstruction.initializePool feeNum feeDen)

def swap (pool source destination reserveIn reserveOut user : Pubkey)
    (amountIn minOut : UInt64) : Instruction :=
  .withArgs ProgramIds.swapProgram
    [.readonly pool false, .writable source false, .writable destination false,
      .writable reserveIn false, .writable reserveOut false, .readonly user true]
    (Programs.Swap.SwapInstruction.swap amountIn minOut)

end Swap

/-! ## `lending` -/

namespace Lending

def initCollection (collection payer : Pubkey) (name : String) : Instruction :=
  .withArgs ProgramIds.lendingProgram [.writable collection false, .writable payer true]
    (Programs.Lending.LendingInstruction.initCollection name)

/-- Everything but the first instruction lists its signer read-only. -/
def userIx (collection user : Pubkey) (ix : Programs.Lending.LendingInstruction) : Instruction :=
  .withArgs ProgramIds.lendingProgram [.writable collection false, .readonly user true] ix

def placeBid (collection lender : Pubkey) (bidUtxo : UtxoMeta)
    (loanValue loanPeriod interestRateBps : UInt64)
    (lenderOrdinalsAddress lenderPaymentsAddress : String) : Instruction :=
  userIx collection lender (.placeBid bidUtxo loanValue loanPeriod interestRateBps
    lenderOrdinalsAddress lenderPaymentsAddress)

def cancelBid (collection lender : Pubkey) (bidUtxo : UtxoMeta) : Instruction :=
  userIx collection lender (.cancelBid bidUtxo)

def acceptBid (collection borrower : Pubkey) (inscriptionId : String) (inscriptionUtxo : UtxoMeta)
    (borrowerOrdinalsAddress borrowerPaymentsAddress : String) : Instruction :=
  userIx collection borrower (.acceptBid inscriptionId inscriptionUtxo borrowerOrdinalsAddress
    borrowerPaymentsAddress)

def repayLoan (collection borrower : Pubkey) (inscriptionId : String) (repaymentUtxo : UtxoMeta)
    (amount : UInt64) : Instruction :=
  userIx collection borrower (.repayLoan inscriptionId repaymentUtxo amount)

def claimDefault (collection lender : Pubkey) (inscriptionId : String) : Instruction :=
  userIx collection lender (.claimDefault inscriptionId)

end Lending

/-! ## `nft-metadata` -/

namespace NftMetadata

/-- The three `assert!`s are the ways to panic. -/
def createMetadata (metadataAccount mint updateAuthority : Pubkey) (name symbol uri : String)
    (sellerFeeBasisPoints : UInt16) (creators : List Programs.NftMetadata.Creator) :
    Option Instruction :=
  if name.utf8ByteSize ≤ 32 ∧ symbol.utf8ByteSize ≤ 10 ∧ uri.utf8ByteSize ≤ 200 then
    some (.withArgs ProgramIds.nftMetadataProgram
      [.writable metadataAccount false, .readonly mint false, .readonly updateAuthority true]
      (Programs.NftMetadata.MetadataInstruction.create name symbol uri sellerFeeBasisPoints
        creators))
  else none

def updateMetadata (metadataAccount updateAuthority : Pubkey) (name uri : Option String)
    (sellerFeeBasisPoints : Option UInt16) : Instruction :=
  .withArgs ProgramIds.nftMetadataProgram
    [.writable metadataAccount false, .readonly updateAuthority true]
    (Programs.NftMetadata.MetadataInstruction.update name uri sellerFeeBasisPoints)

end NftMetadata

/-! ## `runes` -/

def initBalance (balance owner : Pubkey) : Instruction :=
  .withArgs ProgramIds.runesProgram [.writable balance false, .readonly owner false]
    Runes.RuneInstruction.initBalance

/-! ## `money-market` -/

namespace MoneyMarket

open Programs.MoneyMarket (MoneyMarketInstruction liquidityIx vaultIx)

def syncPrice (market oracleFeed : Pubkey) : Instruction :=
  .withArgs ProgramIds.moneyMarketProgram [.writable market false, .readonly oracleFeed false]
    MoneyMarketInstruction.syncPrice

def addLiquidity (market lenderPosition providerBorrow borrowVault provider : Pubkey)
    (amount : UInt64) : Instruction :=
  liquidityIx (.addLiquidity amount) market lenderPosition providerBorrow borrowVault provider

def removeLiquidity (market lenderPosition providerBorrow borrowVault provider : Pubkey)
    (amount : UInt64) : Instruction :=
  liquidityIx (.removeLiquidity amount) market lenderPosition providerBorrow borrowVault provider

def supply (market position userCollateral collateralVault user : Pubkey) (amount : UInt64) :
    Instruction :=
  vaultIx (.supply amount) market position userCollateral collateralVault user

def withdraw (market position userCollateral collateralVault user : Pubkey) (amount : UInt64) :
    Instruction :=
  vaultIx (.withdraw amount) market position userCollateral collateralVault user

def borrow (market position userBorrow borrowVault user : Pubkey) (amount : UInt64) :
    Instruction :=
  vaultIx (.borrow amount) market position userBorrow borrowVault user

def repay (market position userBorrow borrowVault user : Pubkey) (amount : UInt64) :
    Instruction :=
  vaultIx (.repay amount) market position userBorrow borrowVault user

def liquidate (market position liquidatorBorrow borrowVault liquidatorCollateral collateralVault
    liquidator : Pubkey) (repayAmount : UInt64) : Instruction :=
  .withArgs ProgramIds.moneyMarketProgram
    [.writable market false, .writable position false, .writable liquidatorBorrow false,
      .writable borrowVault false, .writable liquidatorCollateral false,
      .writable collateralVault false, .readonly liquidator true]
    (MoneyMarketInstruction.liquidate repayAmount)

end MoneyMarket

/-! ## `vault` -/

namespace Vault

open Programs.Vault (VaultInstruction)

def initVault (vault assetMint shareMint assetVault manager : Pubkey)
    (performanceFeeBps : UInt64) : Instruction :=
  .withArgs ProgramIds.vaultProgram
    [.writable vault false, .readonly assetMint false, .readonly shareMint false,
      .writable assetVault false, .readonly manager true]
    (VaultInstruction.initVault performanceFeeBps)

def userIx (tag : VaultInstruction)
    (vault userAsset assetVault userShares shareMint user : Pubkey) : Instruction :=
  .withArgs ProgramIds.vaultProgram
    [.writable vault false, .writable userAsset false, .writable assetVault false,
      .writable userShares false, .writable shareMint false, .readonly user true] tag

def deposit (vault userAsset assetVault userShares shareMint user : Pubkey)
    (amount minShares : UInt64) : Instruction :=
  userIx (.deposit amount minShares) vault userAsset assetVault userShares shareMint user

def withdraw (vault userAsset assetVault userShares shareMint user : Pubkey)
    (shares minAssets : UInt64) : Instruction :=
  userIx (.withdraw shares minAssets) vault userAsset assetVault userShares shareMint user

def report (vault manager assetVault shareMint managerShares : Pubkey) : Instruction :=
  .withArgs ProgramIds.vaultProgram
    [.writable vault false, .readonly manager true, .readonly assetVault false,
      .writable shareMint false, .writable managerShares false]
    VaultInstruction.report

/-- `Report` for a vault that holds lender shares: pass the money market so the deployed leg can be
    re-priced to its current value. -/
def reportWithMarket (vault manager assetVault shareMint managerShares mmMarket : Pubkey) :
    Instruction :=
  .withArgs ProgramIds.vaultProgram
    [.writable vault false, .readonly manager true, .readonly assetVault false,
      .writable shareMint false, .writable managerShares false, .readonly mmMarket false]
    VaultInstruction.report

def strategyIx (tag : VaultInstruction)
    (vault assetVault mmMarket mmLenderPosition mmBorrowVault manager : Pubkey) : Instruction :=
  .withArgs ProgramIds.vaultProgram
    [.writable vault false, .writable assetVault false, .writable mmMarket false,
      .writable mmLenderPosition false, .writable mmBorrowVault false, .readonly manager true] tag

def deploy (vault assetVault mmMarket mmLenderPosition mmBorrowVault manager : Pubkey)
    (amount : UInt64) : Instruction :=
  strategyIx (.deploy amount) vault assetVault mmMarket mmLenderPosition mmBorrowVault manager

def undeploy (vault assetVault mmMarket mmLenderPosition mmBorrowVault manager : Pubkey)
    (amount : UInt64) : Instruction :=
  strategyIx (.undeploy amount) vault assetVault mmMarket mmLenderPosition mmBorrowVault manager

end Vault

/-! ## `oracle` -/

namespace Oracle

open Programs.Oracle (OracleInstruction)

def adminIx (feed authority : Pubkey) (ix : OracleInstruction) : Instruction :=
  .withArgs ProgramIds.oracleProgram [.writable feed false, .readonly authority true] ix

def initFeed (feed authority : Pubkey) (maxDeviationBps maxSubmissionAge : UInt64) : Instruction :=
  adminIx feed authority (.initFeed maxDeviationBps maxSubmissionAge)

def updatePrice (feed publisher : Pubkey) (price : UInt64) : Instruction :=
  adminIx feed publisher (.updatePrice price)

def addPublisher (feed authority publisher : Pubkey) : Instruction :=
  adminIx feed authority (.addPublisher publisher)

def removePublisher (feed authority publisher : Pubkey) : Instruction :=
  adminIx feed authority (.removePublisher publisher)

end Oracle

/-! ## All of them -/

/-- The instruction was made by an exported builder. -/
inductive Builds : Instruction → Prop
  | createAccount (payer newAccount : Pubkey) (lamports space : UInt64) (owner : Pubkey) :
      Builds (System.createAccount payer newAccount lamports space owner)
  | createAccountWithAnchor (payer newAccount : Pubkey) (utxo : UtxoMeta) (space : UInt64)
      (owner : Pubkey) :
      Builds (System.createAccountWithAnchor payer newAccount utxo space owner)
  | systemTransfer (source dest : Pubkey) (lamports : UInt64) :
      Builds (System.transfer source dest lamports)
  | assign (account owner : Pubkey) : Builds (System.assign account owner)
  | allocate (account : Pubkey) (space : UInt64) : Builds (System.allocate account space)
  | initializeMint (mint authority : Pubkey) (decimals : UInt8) (freezeAuth : Option Pubkey) :
      Builds (Token.initializeMint mint authority decimals freezeAuth)
  | initializeAccount (tokenAccount mint owner : Pubkey) :
      Builds (Token.initializeAccount tokenAccount mint owner)
  | mintTo (mint destination authority : Pubkey) (amount : UInt64) :
      Builds (Token.mintTo mint destination authority amount)
  | tokenTransfer (source destination owner : Pubkey) (amount : UInt64) :
      Builds (Token.transfer source destination owner amount)
  | tokenBurn (tokenAccount mint owner : Pubkey) (amount : UInt64) :
      Builds (Token.burn tokenAccount mint owner amount)
  | createAssociatedTokenAccount (payer owner mint : Pubkey) :
      Builds (createAssociatedTokenAccount payer owner mint)
  | initializePool (pool tokenAMint tokenBMint reserveA reserveB lpMint payer : Pubkey)
      (feeNum feeDen : UInt64) :
      Builds (Swap.initializePool pool tokenAMint tokenBMint reserveA reserveB lpMint payer feeNum
        feeDen)
  | swap (pool source destination reserveIn reserveOut user : Pubkey) (amountIn minOut : UInt64) :
      Builds (Swap.swap pool source destination reserveIn reserveOut user amountIn minOut)
  | initCollection (collection payer : Pubkey) (name : String) :
      Builds (Lending.initCollection collection payer name)
  | placeBid (collection lender : Pubkey) (bidUtxo : UtxoMeta)
      (loanValue loanPeriod interestRateBps : UInt64)
      (lenderOrdinalsAddress lenderPaymentsAddress : String) :
      Builds (Lending.placeBid collection lender bidUtxo loanValue loanPeriod interestRateBps
        lenderOrdinalsAddress lenderPaymentsAddress)
  | cancelBid (collection lender : Pubkey) (bidUtxo : UtxoMeta) :
      Builds (Lending.cancelBid collection lender bidUtxo)
  | acceptBid (collection borrower : Pubkey) (inscriptionId : String) (inscriptionUtxo : UtxoMeta)
      (borrowerOrdinalsAddress borrowerPaymentsAddress : String) :
      Builds (Lending.acceptBid collection borrower inscriptionId inscriptionUtxo
        borrowerOrdinalsAddress borrowerPaymentsAddress)
  | repayLoan (collection borrower : Pubkey) (inscriptionId : String) (repaymentUtxo : UtxoMeta)
      (amount : UInt64) :
      Builds (Lending.repayLoan collection borrower inscriptionId repaymentUtxo amount)
  | claimDefault (collection lender : Pubkey) (inscriptionId : String) :
      Builds (Lending.claimDefault collection lender inscriptionId)
  | createMetadata {ix : Instruction} (metadataAccount mint updateAuthority : Pubkey)
      (name symbol uri : String) (sellerFeeBasisPoints : UInt16)
      (creators : List Programs.NftMetadata.Creator)
      (h : NftMetadata.createMetadata metadataAccount mint updateAuthority name symbol uri
        sellerFeeBasisPoints creators = some ix) : Builds ix
  | updateMetadata (metadataAccount updateAuthority : Pubkey) (name uri : Option String)
      (sellerFeeBasisPoints : Option UInt16) :
      Builds (NftMetadata.updateMetadata metadataAccount updateAuthority name uri
        sellerFeeBasisPoints)
  | etch (rune etcherBalance etcher : Pubkey) (name : String) (symbol : UInt32)
      (divisibility : UInt8) (premine : UInt64) (terms : Option Runes.MintTerms) :
      Builds (Runes.etch rune etcherBalance etcher name symbol divisibility premine terms)
  | runeMint (rune destination minter : Pubkey) : Builds (Runes.mint rune destination minter)
  | runeTransfer (source destination owner : Pubkey) (amount : UInt64) :
      Builds (Runes.transfer source destination owner amount)
  | runeBurn (rune source owner : Pubkey) (amount : UInt64) :
      Builds (Runes.burn rune source owner amount)
  | initBalance (balance owner : Pubkey) : Builds (initBalance balance owner)
  | initMarket (market collateralMint borrowMint collateralVault borrowVault admin
      oracleFeed : Pubkey) (terms : Programs.MoneyMarket.MarketTerms) :
      Builds (Programs.MoneyMarket.initMarketIx market collateralMint borrowMint collateralVault
        borrowVault admin oracleFeed terms)
  | syncPrice (market oracleFeed : Pubkey) : Builds (MoneyMarket.syncPrice market oracleFeed)
  | addLiquidity (market lenderPosition providerBorrow borrowVault provider : Pubkey)
      (amount : UInt64) :
      Builds (MoneyMarket.addLiquidity market lenderPosition providerBorrow borrowVault provider
        amount)
  | removeLiquidity (market lenderPosition providerBorrow borrowVault provider : Pubkey)
      (amount : UInt64) :
      Builds (MoneyMarket.removeLiquidity market lenderPosition providerBorrow borrowVault provider
        amount)
  | supply (market position userCollateral collateralVault user : Pubkey) (amount : UInt64) :
      Builds (MoneyMarket.supply market position userCollateral collateralVault user amount)
  | marketWithdraw (market position userCollateral collateralVault user : Pubkey)
      (amount : UInt64) :
      Builds (MoneyMarket.withdraw market position userCollateral collateralVault user amount)
  | borrow (market position userBorrow borrowVault user : Pubkey) (amount : UInt64) :
      Builds (MoneyMarket.borrow market position userBorrow borrowVault user amount)
  | repay (market position userBorrow borrowVault user : Pubkey) (amount : UInt64) :
      Builds (MoneyMarket.repay market position userBorrow borrowVault user amount)
  | liquidate (market position liquidatorBorrow borrowVault liquidatorCollateral collateralVault
      liquidator : Pubkey) (repayAmount : UInt64) :
      Builds (MoneyMarket.liquidate market position liquidatorBorrow borrowVault
        liquidatorCollateral collateralVault liquidator repayAmount)
  | initVault (vault assetMint shareMint assetVault manager : Pubkey)
      (performanceFeeBps : UInt64) :
      Builds (Vault.initVault vault assetMint shareMint assetVault manager performanceFeeBps)
  | deposit (vault userAsset assetVault userShares shareMint user : Pubkey)
      (amount minShares : UInt64) :
      Builds (Vault.deposit vault userAsset assetVault userShares shareMint user amount minShares)
  | withdraw (vault userAsset assetVault userShares shareMint user : Pubkey)
      (shares minAssets : UInt64) :
      Builds (Vault.withdraw vault userAsset assetVault userShares shareMint user shares minAssets)
  | report (vault manager assetVault shareMint managerShares : Pubkey) :
      Builds (Vault.report vault manager assetVault shareMint managerShares)
  | reportWithMarket (vault manager assetVault shareMint managerShares mmMarket : Pubkey) :
      Builds (Vault.reportWithMarket vault manager assetVault shareMint managerShares mmMarket)
  | deploy (vault assetVault mmMarket mmLenderPosition mmBorrowVault manager : Pubkey)
      (amount : UInt64) :
      Builds (Vault.deploy vault assetVault mmMarket mmLenderPosition mmBorrowVault manager amount)
  | undeploy (vault assetVault mmMarket mmLenderPosition mmBorrowVault manager : Pubkey)
      (amount : UInt64) :
      Builds (Vault.undeploy vault assetVault mmMarket mmLenderPosition mmBorrowVault manager
        amount)
  | initFeed (feed authority : Pubkey) (maxDeviationBps maxSubmissionAge : UInt64) :
      Builds (Oracle.initFeed feed authority maxDeviationBps maxSubmissionAge)
  | updatePrice (feed publisher : Pubkey) (price : UInt64) :
      Builds (Oracle.updatePrice feed publisher price)
  | addPublisher (feed authority publisher : Pubkey) :
      Builds (Oracle.addPublisher feed authority publisher)
  | removePublisher (feed authority publisher : Pubkey) :
      Builds (Oracle.removePublisher feed authority publisher)

end Builders
end Programs
end Himsha
