import Himsha.Proof.BidChoice
import Himsha.Proof.PythonBuilders
import Himsha.Sdk.TypeScript

/-!
# The TypeScript builders

The library writes the formats by hand: the fields in order, a length in front of a text. For seven
of the eight programs that is what the programs read, text by text that fits in its length. The
money market's enumeration has a variant more than the library knows, so its tags are off by one
from the third on, and its second variant wants an account more. So does a report on a vault that
has lent.
-/

set_option autoImplicit false

namespace Himsha
namespace Proof

open Himsha.Lib Himsha.Runtime Himsha.Programs Himsha.Vm Himsha.Sdk
open BuiltinInstruction
open Sdk.TypeScript (concat encodeString)
open Duty
open Token (TokenAccountState MintState)
open Runes (RuneEtching RuneBalance)
open MoneyMarket (MarketState Position)
open Vault (VaultState)
open Oracle (PriceFeed)

/-! ## The exports -/

/-- `none` is no terms, as in the program. -/
def meantTerms (terms : Option TypeScript.Runes.MintTerms) : Option Runes.MintTerms :=
  terms.map fun t => ⟨t.amount, t.cap, t.mints, t.start, t.stop⟩

/-- The builders that the library exports, called with any arguments: what the call means, and
    what the accounts that the handler looks at are for. A string argument is carried by the text
    whose JavaScript string it is. -/
inductive TypeScriptExports : Export → Prop
  | systemCreateAccount (payer newAccount : Pubkey) (lamports space : UInt64) (owner : Pubkey) :
      TypeScriptExports {
        built := TypeScript.System.createAccount payer newAccount lamports space owner
        meant := (· = .system (.createAccount lamports space owner))
        cast := [(payer, both signs (sends lamports.toNat)), (newAccount, becomes fun a =>
          a.owner = owner ∧ a.lamports = lamports ∧ a.data.length = space.toNat)] }
  | systemCreateAccountWithAnchor (payer newAccount : Pubkey) (txid : Blob 32) (vout : UInt32)
      (space : UInt64) (owner : Pubkey) :
      TypeScriptExports {
        built := TypeScript.System.createAccountWithAnchor payer newAccount txid vout space owner
        meant := (· = .system (.createAccountWithAnchor ⟨txid, vout⟩ space owner))
        cast := [(payer, signs), (newAccount, becomes fun a =>
          a.owner = owner ∧ a.utxo = some ⟨txid, vout⟩ ∧ a.data.length = space.toNat)] }
  | systemTransfer (source dest : Pubkey) (lamports : UInt64) :
      TypeScriptExports {
        built := TypeScript.System.transfer source dest lamports
        meant := (· = .system (.transfer lamports))
        cast := [(source, both signs (sends lamports.toNat)), (dest, gets lamports.toNat)] }
  | systemAssign (account : Pubkey) (owner : Pubkey) :
      TypeScriptExports {
        built := TypeScript.System.assign account owner
        meant := (· = .system (.assign owner))
        cast := [(account, both signs (becomes (·.owner = owner)))] }
  | systemAllocate (account : Pubkey) (space : UInt64) :
      TypeScriptExports {
        built := TypeScript.System.allocate account space
        meant := (· = .system (.allocate space))
        cast := [(account, both signs (becomes (space.toNat ≤ ·.data.length)))] }
  | tokenInitializeMint (mint : Pubkey) (mintAuthority : Pubkey) (decimals : UInt8)
      (freezeAuthority : Option Pubkey) :
      TypeScriptExports {
        built := TypeScript.Token.initializeMint mint mintAuthority decimals freezeAuthority
        meant := (· = .token (.initializeMint decimals mintAuthority freezeAuthority))
        cast := [(mint, keeps MintState fun state => state.isInitialized = true ∧
          state.decimals = decimals ∧ state.mintAuthority = some mintAuthority ∧
          state.freezeAuthority = freezeAuthority)] }
  | tokenInitializeAccount (tokenAccount mint owner : Pubkey) :
      TypeScriptExports {
        built := TypeScript.Token.initializeAccount tokenAccount mint owner
        meant := (· = .token .initializeAccount)
        cast := [(tokenAccount, keeps TokenAccountState (·.state = .initialized)),
          (mint, named fun token : TokenAccountState => some token.mint),
          (owner, named fun token : TokenAccountState => some token.owner)] }
  | tokenMintTo (mint destination mintAuthority : Pubkey) (amount : UInt64) :
      TypeScriptExports {
        built := TypeScript.Token.mintTo mint destination mintAuthority amount
        meant := (· = .token (.mintTo amount))
        cast := [(mint, issues amount.toNat), (destination, receives amount.toNat),
          (mintAuthority, signs)] }
  | tokenTransfer (source destination owner : Pubkey) (amount : UInt64) :
      TypeScriptExports {
        built := TypeScript.Token.transfer source destination owner amount
        meant := (· = .token (.transfer amount))
        cast := [(source, pays amount.toNat), (destination, receives amount.toNat),
          (owner, signs)] }
  | tokenBurn (tokenAccount mint owner : Pubkey) (amount : UInt64) :
      TypeScriptExports {
        built := TypeScript.Token.burn tokenAccount mint owner amount
        meant := (· = .token (.burn amount))
        cast := [(tokenAccount, pays amount.toNat), (mint, burns amount.toNat), (owner, signs)] }
  | tokenApprove (source delegate owner : Pubkey) (amount : UInt64) :
      TypeScriptExports {
        built := TypeScript.Token.approve source delegate owner amount
        meant := (· = .token (.approve amount))
        cast := [(source, keeps TokenAccountState (·.delegatedAmount = amount)),
          (delegate, named TokenAccountState.delegate)] }
  | tokenRevoke (source owner : Pubkey) :
      TypeScriptExports {
        built := TypeScript.Token.revoke source owner
        meant := (· = .token .revoke)
        cast := [(source, keeps TokenAccountState (·.delegate = none))] }
  | tokenFreezeAccount (tokenAccount freezeAuthority : Pubkey) :
      TypeScriptExports {
        built := TypeScript.Token.freezeAccount tokenAccount freezeAuthority
        meant := (· = .token .freezeAccount)
        cast := [(tokenAccount, keeps TokenAccountState (·.state = .frozen))] }
  | tokenThawAccount (tokenAccount freezeAuthority : Pubkey) :
      TypeScriptExports {
        built := TypeScript.Token.thawAccount tokenAccount freezeAuthority
        meant := (· = .token .thawAccount)
        cast := [(tokenAccount, keeps TokenAccountState (·.state = .initialized))] }
  | tokenCloseAccount (tokenAccount destination owner : Pubkey) :
      TypeScriptExports {
        built := TypeScript.Token.closeAccount tokenAccount destination owner
        meant := (· = .token .closeAccount)
        cast := [(tokenAccount, becomes fun a => a.lamports = 0 ∧ a.data = []),
          (destination, inherits)] }
  | swapInitializePool (pool tokenAMint tokenBMint reserveA reserveB lpMint payer : Pubkey)
      (feeNumerator feeDenominator : UInt64) :
      TypeScriptExports {
        built := TypeScript.Swap.initializePool pool tokenAMint tokenBMint reserveA reserveB lpMint
          payer feeNumerator feeDenominator
        meant := (· = .swap (.initializePool feeNumerator feeDenominator))
        cast := initializePoolCast pool tokenAMint tokenBMint reserveA reserveB lpMint }
  | swapSwap (pool source destination reserveIn reserveOut user : Pubkey)
      (amountIn minAmountOut : UInt64) :
      TypeScriptExports {
        built := TypeScript.Swap.swap pool source destination reserveIn reserveOut user amountIn
          minAmountOut
        meant := (· = .swap (.swap amountIn minAmountOut))
        cast := swapCast pool source destination reserveIn reserveOut user amountIn.toNat }
  | swapDeposit (pool userTokenA userTokenB reserveA reserveB userLp user lpMint : Pubkey)
      (maxA maxB minLp : UInt64) :
      TypeScriptExports {
        built := TypeScript.Swap.deposit pool userTokenA userTokenB reserveA reserveB userLp user
          lpMint maxA maxB minLp
        meant := (· = .swap (.deposit maxA maxB minLp))
        cast := depositCast pool userTokenA userTokenB reserveA reserveB userLp user ++
          [(lpMint, any issues)] }
  | swapWithdraw (pool userTokenA userTokenB reserveA reserveB userLp user lpMint : Pubkey)
      (lpAmount minA minB : UInt64) :
      TypeScriptExports {
        built := TypeScript.Swap.withdraw pool userTokenA userTokenB reserveA reserveB userLp user
          lpMint lpAmount minA minB
        meant := (· = .swap (.withdraw lpAmount minA minB))
        cast := withdrawCast pool userTokenA userTokenB reserveA reserveB userLp user lpAmount.toNat
          ++ [(lpMint, burns lpAmount.toNat)] }
  | lendingInitCollection (collectionAccount payer : Pubkey) (name : JsString) :
      TypeScriptExports {
        built := TypeScript.Lending.initCollection collectionAccount payer name
        meant := fun v => ∃ n : String, JsString.ofText n = name ∧ v = .lending (.initCollection n)
        cast := lendingCast collectionAccount payer }
  | lendingPlaceBid (collectionAccount lender : Pubkey) (bidTxid : Blob 32) (bidVout : UInt32)
      (loanValueSats loanPeriodSecs interestRateBps : UInt64)
      (lenderOrdinalsAddress lenderPaymentsAddress : JsString) :
      TypeScriptExports {
        built := TypeScript.Lending.placeBid collectionAccount lender bidTxid bidVout loanValueSats
          loanPeriodSecs interestRateBps lenderOrdinalsAddress lenderPaymentsAddress
        meant := fun v => ∃ o p : String, JsString.ofText o = lenderOrdinalsAddress ∧
          JsString.ofText p = lenderPaymentsAddress ∧ v = .lending (.placeBid ⟨bidTxid, bidVout⟩
          loanValueSats loanPeriodSecs interestRateBps o p)
        cast := lendingCast collectionAccount lender }
  | lendingCancelBid (collectionAccount lender : Pubkey) (bidTxid : Blob 32) (bidVout : UInt32) :
      TypeScriptExports {
        built := TypeScript.Lending.cancelBid collectionAccount lender bidTxid bidVout
        meant := (· = .lending (.cancelBid ⟨bidTxid, bidVout⟩))
        cast := lendingCast collectionAccount lender }
  | lendingAcceptBid (collectionAccount borrower : Pubkey) (inscriptionId : JsString)
      (inscriptionTxid : Blob 32) (inscriptionVout : UInt32)
      (borrowerOrdinalsAddress borrowerPaymentsAddress : JsString) :
      TypeScriptExports {
        built := TypeScript.Lending.acceptBid collectionAccount borrower inscriptionId
          inscriptionTxid inscriptionVout borrowerOrdinalsAddress borrowerPaymentsAddress
        meant := fun v => ∃ i o p : String, JsString.ofText i = inscriptionId ∧
          JsString.ofText o = borrowerOrdinalsAddress ∧
          JsString.ofText p = borrowerPaymentsAddress ∧ v = .lending (.acceptBid i ⟨inscriptionTxid,
          inscriptionVout⟩ o p)
        cast := lendingCast collectionAccount borrower }
  | lendingRepayLoan (collectionAccount borrower : Pubkey) (inscriptionId : JsString)
      (repaymentTxid : Blob 32) (repaymentVout : UInt32) (amountSats : UInt64) :
      TypeScriptExports {
        built := TypeScript.Lending.repayLoan collectionAccount borrower inscriptionId repaymentTxid
          repaymentVout amountSats
        meant := fun v => ∃ i : String, JsString.ofText i = inscriptionId ∧ v = .lending (.repayLoan
          i ⟨repaymentTxid, repaymentVout⟩ amountSats)
        cast := lendingCast collectionAccount borrower }
  | lendingClaimDefault (collectionAccount lender : Pubkey) (inscriptionId : JsString) :
      TypeScriptExports {
        built := TypeScript.Lending.claimDefault collectionAccount lender inscriptionId
        meant := fun v => ∃ i : String, JsString.ofText i = inscriptionId ∧ v = .lending
          (.claimDefault i)
        cast := lendingCast collectionAccount lender }
  | runesEtch (rune etcherBalance etcher : Pubkey) (name : JsString) (symbol : UInt32)
      (divisibility : UInt8) (premine : UInt64) (terms : Option TypeScript.Runes.MintTerms) :
      TypeScriptExports {
        built := TypeScript.Runes.etch rune etcherBalance etcher name symbol divisibility premine
          terms
        meant := fun v => ∃ n : String, JsString.ofText n = name ∧ v = .runes (.etch n symbol
          divisibility premine (meantTerms terms))
        cast := [(rune, keeps RuneEtching (·.isEtched = true)),
          (etcherBalance, orIdle (gains premine.toNat)),
          (etcher, both signs (named fun rune : RuneEtching => some rune.etcher))] }
  | runesMint (rune destination minter : Pubkey) :
      TypeScriptExports {
        built := TypeScript.Runes.mint rune destination minter
        meant := (· = .runes .mint)
        cast := [(rune, keeps RuneEtching (·.isEtched = true)), (destination, any gains),
          (minter, signs)] }
  | runesTransfer (source destination owner : Pubkey) (amount : UInt64) :
      TypeScriptExports {
        built := TypeScript.Runes.transfer source destination owner amount
        meant := (· = .runes (.transfer amount))
        cast := [(source, loses amount.toNat), (destination, gains amount.toNat), (owner, signs)] }
  | runesBurn (rune source owner : Pubkey) (amount : UInt64) :
      TypeScriptExports {
        built := TypeScript.Runes.burn rune source owner amount
        meant := (· = .runes (.burn amount))
        cast := [(rune, keeps RuneEtching fun _ => True), (source, loses amount.toNat),
          (owner, signs)] }
  | runesInitBalance (balance owner : Pubkey) :
      TypeScriptExports {
        built := TypeScript.Runes.initBalance balance owner
        meant := (· = .runes .initBalance)
        cast := [(balance, keeps RuneBalance (·.isInitialized = true)),
          (owner, named fun balance : RuneBalance => some balance.owner)] }
  | moneyMarketInitMarket (market collateralMint borrowMint collateralVault borrowVault admin
      oracleFeed : Pubkey) (collateralFactorBps liquidationThresholdBps liquidationBonusBps
      closeFactorBps price baseRateBps slopeBps kinkUtilizationBps jumpSlopeBps
      maxPriceStalenessSecs : UInt64) :
      TypeScriptExports {
        built := TypeScript.MoneyMarket.initMarket market collateralMint borrowMint collateralVault
          borrowVault admin oracleFeed collateralFactorBps liquidationThresholdBps
          liquidationBonusBps closeFactorBps price baseRateBps slopeBps kinkUtilizationBps
          jumpSlopeBps maxPriceStalenessSecs
        meant := (· = .moneyMarket (.initMarket ⟨collateralFactorBps, liquidationThresholdBps,
          liquidationBonusBps, closeFactorBps, price, baseRateBps, slopeBps, kinkUtilizationBps,
          jumpSlopeBps, maxPriceStalenessSecs⟩))
        cast := [(market, keeps MarketState (·.isInitialized = true)),
          (collateralMint, named fun state : MarketState => some state.collateralMint),
          (borrowMint, named fun state : MarketState => some state.borrowMint),
          (collateralVault, named fun state : MarketState => some state.collateralVault),
          (borrowVault, named fun state : MarketState => some state.borrowVault),
          (admin, signs), (oracleFeed, named fun state : MarketState => some state.oracleFeed)] }
  | moneyMarketAddLiquidity (market providerBorrow borrowVault provider : Pubkey)
      (amount : UInt64) :
      TypeScriptExports {
        built := TypeScript.MoneyMarket.addLiquidity market providerBorrow borrowVault provider
          amount
        meant := (· = .moneyMarket (.addLiquidity amount))
        cast := [(market, keeps MarketState fun _ => True), (providerBorrow, pays amount.toNat),
          (borrowVault, receives amount.toNat), (provider, signs)] }
  | moneyMarketSupply (market position userCollateral collateralVault user : Pubkey)
      (amount : UInt64) :
      TypeScriptExports {
        built := TypeScript.MoneyMarket.supply market position userCollateral collateralVault user
          amount
        meant := (· = .moneyMarket (.supply amount))
        cast := [(market, keeps MarketState fun _ => True), (position, keeps Position fun _ =>
          True), (userCollateral, pays amount.toNat), (collateralVault, receives amount.toNat),
          (user, signs)] }
  | moneyMarketWithdraw (market position userCollateral collateralVault user : Pubkey)
      (amount : UInt64) :
      TypeScriptExports {
        built := TypeScript.MoneyMarket.withdraw market position userCollateral collateralVault user
          amount
        meant := (· = .moneyMarket (.withdraw amount))
        cast := [(market, keeps MarketState fun _ => True), (position, keeps Position fun _ =>
          True), (userCollateral, receives amount.toNat), (collateralVault, pays amount.toNat),
          (user, signs)] }
  | moneyMarketBorrow (market position userBorrow borrowVault user : Pubkey) (amount : UInt64) :
      TypeScriptExports {
        built := TypeScript.MoneyMarket.borrow market position userBorrow borrowVault user amount
        meant := (· = .moneyMarket (.borrow amount))
        cast := [(market, keeps MarketState fun _ => True), (position, keeps Position fun _ =>
          True), (userBorrow, receives amount.toNat), (borrowVault, pays amount.toNat),
          (user, signs)] }
  | moneyMarketRepay (market position userBorrow borrowVault user : Pubkey) (amount : UInt64) :
      TypeScriptExports {
        built := TypeScript.MoneyMarket.repay market position userBorrow borrowVault user amount
        meant := (· = .moneyMarket (.repay amount))
        cast := [(market, keeps MarketState fun _ => True), (position, keeps Position fun _ =>
          True), (userBorrow, any pays), (borrowVault, any receives), (user, signs)] }
  | moneyMarketLiquidate (market position liquidatorBorrow borrowVault liquidatorCollateral
      collateralVault liquidator : Pubkey) (repayAmount : UInt64) :
      TypeScriptExports {
        built := TypeScript.MoneyMarket.liquidate market position liquidatorBorrow borrowVault
          liquidatorCollateral collateralVault liquidator repayAmount
        meant := (· = .moneyMarket (.liquidate repayAmount))
        cast := [(market, keeps MarketState fun _ => True), (position, keeps Position fun _ =>
          True), (liquidatorBorrow, any pays), (borrowVault, any receives),
          (liquidatorCollateral, any receives), (collateralVault, any pays), (liquidator, signs)] }
  | moneyMarketSyncPrice (market oracleFeed : Pubkey) :
      TypeScriptExports {
        built := TypeScript.MoneyMarket.syncPrice market oracleFeed
        meant := (· = .moneyMarket .syncPrice)
        cast := [(market, keeps MarketState fun _ => True),
          (oracleFeed, named fun state : MarketState => some state.oracleFeed)] }
  | vaultInitVault (vault assetMint shareMint assetVault manager : Pubkey)
      (performanceFeeBps : UInt64) :
      TypeScriptExports {
        built := TypeScript.Vault.initVault vault assetMint shareMint assetVault manager
          performanceFeeBps
        meant := (· = .vault (.initVault performanceFeeBps))
        cast := [(vault, keeps VaultState fun state =>
            state.isInitialized = true ∧ state.performanceFeeBps = performanceFeeBps),
          (assetMint, named fun state : VaultState => some state.assetMint),
          (shareMint, named fun state : VaultState => some state.shareMint),
          (assetVault, named fun state : VaultState => some state.assetVault),
          (manager, both signs (named fun state : VaultState => some state.manager))] }
  | vaultDeposit (vault userAsset assetVault userShares shareMint user : Pubkey)
      (amount minShares : UInt64) :
      TypeScriptExports {
        built := TypeScript.Vault.deposit vault userAsset assetVault userShares shareMint user
          amount minShares
        meant := (· = .vault (.deposit amount minShares))
        cast := [(vault, keeps VaultState (·.isInitialized = true)), (userAsset, pays amount.toNat),
          (assetVault, receives amount.toNat), (userShares, any receives), (shareMint, any issues),
          (user, signs)] }
  | vaultWithdraw (vault userAsset assetVault userShares shareMint user : Pubkey)
      (shares minAssets : UInt64) :
      TypeScriptExports {
        built := TypeScript.Vault.withdraw vault userAsset assetVault userShares shareMint user
          shares minAssets
        meant := (· = .vault (.withdraw shares minAssets))
        cast := [(vault, keeps VaultState fun _ => True), (userAsset, any receives),
          (assetVault, any pays), (userShares, pays shares.toNat), (shareMint, burns shares.toNat),
          (user, signs)] }
  | vaultReport (vault manager assetVault shareMint managerShares : Pubkey) :
      TypeScriptExports {
        built := TypeScript.Vault.report vault manager assetVault shareMint managerShares
        meant := (· = .vault .report)
        cast := [(vault, keeps VaultState (·.isInitialized = true)),
          (manager, both signs (named fun state : VaultState => some state.manager)),
          (assetVault, counted VaultState.totalAssets), (shareMint, orIdle (any issues)),
          (managerShares, orIdle (any receives))] }
  | oracleInitFeed (feed authority : Pubkey) (maxDeviationBps maxSubmissionAge : UInt64) :
      TypeScriptExports {
        built := TypeScript.Oracle.initFeed feed authority maxDeviationBps maxSubmissionAge
        meant := (· = .oracle (.initFeed maxDeviationBps maxSubmissionAge))
        cast := [(feed, keeps PriceFeed fun state => state.isInitialized = true ∧
            state.maxDeviationBps = maxDeviationBps ∧ state.maxSubmissionAge = maxSubmissionAge),
          (authority, both signs (named fun state : PriceFeed => some state.authority))] }
  | oracleUpdatePrice (feed publisher : Pubkey) (price : UInt64) :
      TypeScriptExports {
        built := TypeScript.Oracle.updatePrice feed publisher price
        meant := (· = .oracle (.updatePrice price))
        cast := [(feed, keeps PriceFeed (·.isInitialized = true)), (publisher, signs)] }
  | oracleAddPublisher (feed authority : Pubkey) (publisher : Pubkey) :
      TypeScriptExports {
        built := TypeScript.Oracle.addPublisher feed authority publisher
        meant := (· = .oracle (.addPublisher publisher))
        cast := [(feed, keeps PriceFeed fun state => publisher ∈ state.submissions.map
          (·.publisher)), (authority, both signs (named fun state : PriceFeed => some
          state.authority))] }
  | oracleRemovePublisher (feed authority : Pubkey) (publisher : Pubkey) :
      TypeScriptExports {
        built := TypeScript.Oracle.removePublisher feed authority publisher
        meant := (· = .oracle (.removePublisher publisher))
        cast := [(feed, keeps PriceFeed fun state => publisher ∉ state.submissions.map
          (·.publisher)), (authority, both signs (named fun state : PriceFeed => some
          state.authority))] }

/-! ## Fields in order -/

section
variable {α β : Type} [Borsh α] [Borsh β] {a : α} {b : β} {xs : List UInt8}
  {arrays : List (List UInt8)}

theorem ser_last (ha : Borsh.ser a = some xs) : Borsh.ser a = some (concat [xs]) := by
  rw [ha, concat, List.flatten_singleton]

theorem ser_field (ha : Borsh.ser a = some xs) (hb : Borsh.ser b = some (concat arrays)) :
    Borsh.ser (a, b) = some (concat (xs :: arrays)) := by
  rw [ser_pair_of ha hb, concat, concat, List.flatten_cons]

theorem tag_concat {t : UInt8} (ha : Borsh.ser a = some (concat arrays)) :
    tag t a = some (concat ([t] :: arrays)) := by
  rw [tag, ha, concat, concat, List.flatten_cons]
  rfl

end

/-- A text short enough for its length to be written. -/
def FitsLength (s : String) : Prop := (Pubkey.utf8 s).length < 2 ^ 32

theorem fitsLength_iff {s : String} : FitsLength s ↔ Encodes s := encodes_string.symm

theorem ser_text {s : String} (h : FitsLength s) :
    Borsh.ser s = some (encodeString (JsString.ofText s)) := by
  rw [encodeString, JsString.textEncode_ofText]
  exact ser_string h

theorem ser_optionalKey (key : Option Pubkey) :
    Borsh.ser key = some (TypeScript.optionalKey key) := by
  cases key with
  | none => rfl
  | some key =>
    change some (1 :: key.bytes.bytes) = some (concat [[1], TypeScript.keyBytes key])
    rw [concat, List.flatten_cons, List.flatten_singleton]
    rfl

theorem ser_terms (terms : Option TypeScript.Runes.MintTerms) :
    Borsh.ser (meantTerms terms) = some (TypeScript.Runes.encodeTerms terms) := by
  cases terms with
  | none => rfl
  | some t => rfl

section
variable {txid : Blob 32} {vout : UInt32}

theorem ser_utxo : Borsh.ser (⟨txid, vout⟩ : UtxoMeta) =
    some (concat [txid.bytes, TypeScript.u32Le vout]) :=
  ser_field (a := txid) (b := vout) rfl (ser_last rfl)

theorem ser_utxo_field {β : Type} [Borsh β] {b : β} {arrays : List (List UInt8)}
    (hb : Borsh.ser b = some (concat arrays)) :
    Borsh.ser ((⟨txid, vout⟩ : UtxoMeta), b) =
      some (concat (txid.bytes :: TypeScript.u32Le vout :: arrays)) := by
  rw [ser_pair_of ser_utxo hb]
  simp only [concat, List.flatten_cons, List.flatten_nil, List.append_nil, List.append_assoc]

end

/-! ## What a variant carries -/

instance : Reencodes Runes.RuneInstruction where
  encodes := by
    intro bs rest ix h
    have hde : Runes.RuneInstruction.de bs = some (ix, rest) := h
    unfold Runes.RuneInstruction.de at hde
    split at hde
    · obtain ⟨⟨n, s, d, p, t⟩, rfl, hx⟩ := encodes_untag hde
      exact encodes_tag.mpr hx
    · obtain ⟨x, rfl, -⟩ := encodes_untag hde
      rfl
    · obtain ⟨x, rfl, hx⟩ := encodes_untag hde
      exact encodes_tag.mpr hx
    · obtain ⟨x, rfl, hx⟩ := encodes_untag hde
      exact encodes_tag.mpr hx
    · obtain ⟨x, rfl, -⟩ := encodes_untag hde
      rfl
    · simp at hde

/-- The texts among the arguments of a variant. -/
def texts : BuiltinInstruction → List String
  | .lending (.initCollection name) => [name]
  | .lending (.placeBid _ _ _ _ ordinals payments) => [ordinals, payments]
  | .lending (.acceptBid id _ ordinals payments) => [id, ordinals, payments]
  | .lending (.repayLoan id _ _) => [id]
  | .lending (.claimDefault id) => [id]
  | .runes (.etch name _ _ _ _) => [name]
  | _ => []

/-- The variants that the library was written for. -/
def TypeScriptCurrent : BuiltinInstruction → Prop
  | .moneyMarket (.initMarket _) => True
  | .moneyMarket _ => False
  | _ => True

theorem encodes_lending {ix : Lending.LendingInstruction} (h : Encodes ix) :
    ∀ s ∈ texts (.lending ix), FitsLength s := by
  cases ix with
  | initCollection name =>
    have hname : Encodes name := encodes_tag.mp h
    simpa [texts, fitsLength_iff] using hname
  | placeBid utxo value period rate ordinals payments =>
    have hall : Encodes (utxo, value, period, rate, ordinals, payments) := encodes_tag.mp h
    simp only [encodes_pair] at hall
    obtain ⟨-, -, -, -, hordinals, hpayments⟩ := hall
    simp [texts, fitsLength_iff, hordinals, hpayments]
  | cancelBid utxo =>
    intro s hs
    exact absurd hs List.not_mem_nil
  | acceptBid id utxo ordinals payments =>
    have hall : Encodes (id, utxo, ordinals, payments) := encodes_tag.mp h
    simp only [encodes_pair] at hall
    obtain ⟨hid, -, hordinals, hpayments⟩ := hall
    simp [texts, fitsLength_iff, hid, hordinals, hpayments]
  | repayLoan id utxo amount =>
    have hall : Encodes (id, utxo, amount) := encodes_tag.mp h
    simp only [encodes_pair] at hall
    simpa [texts, fitsLength_iff] using hall.1
  | claimDefault id =>
    have hid : Encodes id := encodes_tag.mp h
    simpa [texts, fitsLength_iff] using hid

theorem encodes_runes {ix : Runes.RuneInstruction} (h : Encodes ix) :
    ∀ s ∈ texts (.runes ix), FitsLength s := by
  intro s hs
  cases ix with
  | etch name symbol divisibility premine terms =>
    have hall : Encodes (name, symbol, divisibility, premine, terms) := encodes_tag.mp h
    obtain rfl := List.mem_singleton.mp hs
    exact fitsLength_iff.mpr (encodes_pair.mp hall).1
  | mint => exact absurd hs List.not_mem_nil
  | transfer amount => exact absurd hs List.not_mem_nil
  | burn amount => exact absurd hs List.not_mem_nil
  | initBalance => exact absurd hs List.not_mem_nil

/-- The texts that a program reads are short. -/
theorem decode_fitsLength {programId : Pubkey} {data : List UInt8} {v : BuiltinInstruction}
    (h : decode programId data = some v) : ∀ s ∈ texts v, FitsLength s := by
  intro s hs
  cases v with
  | lending ix =>
    exact encodes_lending (encodes_of_tryFromSlice (decode_eq_lending h)) s hs
  | runes ix => exact encodes_runes (encodes_of_tryFromSlice (decode_eq_runes h)) s hs
  | system ix => exact absurd hs List.not_mem_nil
  | token ix => exact absurd hs List.not_mem_nil
  | swap ix => exact absurd hs List.not_mem_nil
  | moneyMarket ix => exact absurd hs List.not_mem_nil
  | vault ix => exact absurd hs List.not_mem_nil
  | oracle ix => exact absurd hs List.not_mem_nil

/-! ## Which builders agree -/

section
variable {e : Export} {accounts : List AccountInfo}

/-- A builder that writes the encoding of what is meant agrees where there is something meant, with
    texts short enough, and a report needs no market. -/
theorem agrees_iff_short (hlisted : Listed e.built accounts)
    (hmeant : ∀ v, e.meant v → TypeScriptCurrent v ∧ e.Fits v ∧
      ((∀ s ∈ texts v, FitsLength s) → v.encode = some e.built.data)) :
    e.Agrees accounts ↔ ∃ v, e.meant v ∧ TypeScriptCurrent v ∧ (∀ s ∈ texts v, FitsLength s) ∧
      (v = .vault .report → MarketGiven accounts) := by
  constructor
  · intro h
    obtain ⟨v, hdecode, hv, hwants, -⟩ := h
    obtain ⟨hcurrent, hfits, hencode⟩ := hmeant v hv
    have hshort := decode_fitsLength hdecode
    exact ⟨v, hv, hcurrent, hshort, hfits.given (hencode hshort) hlisted hwants⟩
  · intro h
    obtain ⟨v, hv, -, hshort, hgiven⟩ := h
    obtain ⟨-, hfits, hencode⟩ := hmeant v hv
    exact hfits.agrees hv (hencode hshort) hlisted hgiven

/-- A builder of a variant without texts. -/
theorem agrees_iff_fixed {built : Instruction} {v : BuiltinInstruction}
    {cast : List (Pubkey × Duty)} (hlisted : Listed built accounts)
    (hencode : v.encode = some built.data) (hcurrent : TypeScriptCurrent v)
    (hfits : Export.Fits ⟨built, (· = v), cast⟩ v) :
    Export.Agrees ⟨built, (· = v), cast⟩ accounts ↔ ∃ w, w = v ∧ TypeScriptCurrent w ∧
      (∀ s ∈ texts w, FitsLength s) ∧ (w = .vault .report → MarketGiven accounts) := by
  refine agrees_iff_short hlisted ?_
  intro w hw
  obtain rfl : w = v := hw
  exact ⟨hcurrent, hfits, fun _ => hencode⟩

/-- A builder of a variant that has moved does not agree. -/
theorem outdated {built : Instruction} {v : BuiltinInstruction} {cast : List (Pubkey × Duty)}
    (hcurrent : ¬ TypeScriptCurrent v)
    (hno : decode built.programId built.data = some v → Wants built accounts) :
    Export.Agrees ⟨built, (· = v), cast⟩ accounts ↔ ∃ w, w = v ∧ TypeScriptCurrent w ∧
      (∀ s ∈ texts w, FitsLength s) ∧ (w = .vault .report → MarketGiven accounts) := by
  refine iff_of_false ?_ ?_
  · intro h
    obtain ⟨w, hdecode, hw, hwants, -⟩ := h
    obtain rfl : w = v := hw
    exact hwants (hno hdecode)
  · intro h
    obtain ⟨w, hw, hw', -⟩ := h
    rw [hw] at hw'
    exact hcurrent hw'

/-- The data of one variant are not read as another. -/
theorem misread {built : Instruction} {v w : BuiltinInstruction}
    (hprogram : built.programId = w.programId) (hencode : w.encode = some built.data)
    (hne : w ≠ v) : decode built.programId built.data = some v → Wants built accounts := by
  intro h
  rw [hprogram, decode_encode hencode] at h
  exact absurd (Option.some.inj h) hne

/-- Liquidity is added with four accounts, and the program wants a fifth, the lender's position. -/
theorem addLiquidity_wants {market providerBorrow borrowVault provider : Pubkey} {amount : UInt64}
    (hlisted : Listed (TypeScript.MoneyMarket.addLiquidity market providerBorrow borrowVault
      provider amount) accounts) :
    Wants (TypeScript.MoneyMarket.addLiquidity market providerBorrow borrowVault provider amount)
      accounts := by
  have hfour : accounts.length = 4 := hlisted.length
  have hsuits : Suits (.err .notEnoughAccounts) accounts ⟨[], [3], 4⟩ := hlisted.suits nofun rfl
  obtain ⟨a, ha, hsigned⟩ := hsuits.signs 3 List.mem_cons_self
  have hencode : toVec (MoneyMarket.MoneyMarketInstruction.addLiquidity amount) =
      some (concat [[1], TypeScript.u64Le amount]) := tag_concat (a := amount) (ser_last rfl)
  refine wants_of_refused [a] (v := .moneyMarket (.addLiquidity amount)) rfl hencode ?_ nofun nofun
    ?_
  · refine ⟨nofun, fun i hi => ?_, ?_⟩
    · obtain rfl := List.mem_singleton.mp hi
      refine ⟨a, ?_, hsigned⟩
      rw [List.getElem?_append_right (Nat.le_of_eq hfour), hfour]
      rfl
    · rw [List.length_append, hfour]
      exact Nat.le_refl 5
  · change (Comp.exec (runBuiltin .dev .sorted ProgramIds.moneyMarketProgram accounts
      (concat [[1], TypeScript.u64Le amount]) 0) _).1 = _
    rw [runBuiltin_moneyMarket]
    unfold MoneyMarket.process
    rw [exec_ok_bind (okOr_eq_ok.mpr (tryFromSlice_toVec hencode))]
    have hprologue : MoneyMarket.liquidityPrologue .dev accounts 0 amount =
        .error (.err .notEnoughAccounts) := by
      unfold MoneyMarket.liquidityPrologue
      rw [hfour]
      rfl
    change (Comp.exec (liftM (MoneyMarket.liquidityPrologue .dev accounts 0 amount) >>= _) _).1 = _
    rw [exec_lift_bind, hprologue]
    rfl

/-- The tag that the library gives to a price sync wants an amount. -/
theorem syncPrice_unread : decode ProgramIds.moneyMarketProgram [7] = none := by
  decide

/-- **A TypeScript builder agrees with its program exactly where the variant has not moved, the
    strings are texts short enough, and a report needs no market.** -/
theorem typescript_agrees_iff (h : TypeScriptExports e) (hlisted : Listed e.built accounts) :
    e.Agrees accounts ↔ ∃ v, e.meant v ∧ TypeScriptCurrent v ∧ (∀ s ∈ texts v, FitsLength s) ∧
      (v = .vault .report → MarketGiven accounts) := by
  cases h with
  | systemCreateAccount _ _ lamports space owner =>
    exact agrees_iff_fixed hlisted (tag_concat (a := (lamports, space, owner)) (ser_field rfl
      (ser_field rfl (ser_last rfl)))) trivial
      ⟨rfl, rfl, trivial, rfl, fun _ => createAccount_duties⟩
  | systemCreateAccountWithAnchor _ _ txid vout space owner =>
    exact agrees_iff_fixed hlisted (tag_concat (a := ((⟨txid, vout⟩ : UtxoMeta), space, owner))
      (ser_utxo_field (ser_field rfl (ser_last rfl)))) trivial
      ⟨rfl, rfl, trivial, rfl, fun _ => createAccountWithAnchor_duties⟩
  | systemTransfer _ _ lamports =>
    exact agrees_iff_fixed hlisted (tag_concat (a := lamports) (ser_last rfl)) trivial
      ⟨rfl, rfl, trivial, rfl, fun _ => systemTransfer_duties⟩
  | systemAssign _ owner =>
    exact agrees_iff_fixed hlisted (tag_concat (a := owner) (ser_last rfl)) trivial
      ⟨rfl, rfl, trivial, rfl, fun _ => assign_duties⟩
  | systemAllocate _ space =>
    exact agrees_iff_fixed hlisted (tag_concat (a := space) (ser_last rfl)) trivial
      ⟨rfl, rfl, trivial, rfl, fun _ => allocate_duties⟩
  | tokenInitializeMint _ mintAuthority decimals freezeAuthority =>
    exact agrees_iff_fixed hlisted (tag_concat (a := (decimals, mintAuthority, freezeAuthority))
      (ser_field (ser_u8 _) (ser_field rfl (ser_last (ser_optionalKey _))))) trivial
      ⟨rfl, rfl, trivial, rfl, fun _ => initializeMint_duties⟩
  | tokenInitializeAccount =>
    exact agrees_iff_fixed hlisted rfl trivial
      ⟨rfl, rfl, trivial, rfl, initializeAccount_duties⟩
  | tokenMintTo _ _ _ amount =>
    exact agrees_iff_fixed hlisted (tag_concat (a := amount) (ser_last rfl)) trivial
      ⟨rfl, rfl, trivial, rfl, fun _ => mintTo_duties⟩
  | tokenTransfer _ _ _ amount =>
    exact agrees_iff_fixed hlisted (tag_concat (a := amount) (ser_last rfl)) trivial
      ⟨rfl, rfl, trivial, rfl, fun _ => tokenTransfer_duties⟩
  | tokenBurn _ _ _ amount =>
    exact agrees_iff_fixed hlisted (tag_concat (a := amount) (ser_last rfl)) trivial
      ⟨rfl, rfl, trivial, rfl, fun _ => tokenBurn_duties⟩
  | tokenApprove _ _ _ amount =>
    exact agrees_iff_fixed hlisted (tag_concat (a := amount) (ser_last rfl)) trivial
      ⟨rfl, rfl, trivial, rfl, fun _ => approve_duties⟩
  | tokenRevoke =>
    exact agrees_iff_fixed hlisted rfl trivial
      ⟨rfl, rfl, trivial, rfl, fun _ => revoke_duties⟩
  | tokenFreezeAccount =>
    exact agrees_iff_fixed hlisted rfl trivial
      ⟨rfl, rfl, trivial, rfl, fun _ => freezeAccount_duties⟩
  | tokenThawAccount =>
    exact agrees_iff_fixed hlisted rfl trivial
      ⟨rfl, rfl, trivial, rfl, fun _ => thawAccount_duties⟩
  | tokenCloseAccount =>
    exact agrees_iff_fixed hlisted rfl trivial
      ⟨rfl, rfl, trivial, rfl, fun _ => closeAccount_duties⟩
  | swapInitializePool _ _ _ _ _ _ _ feeNumerator feeDenominator =>
    exact agrees_iff_fixed hlisted (tag_concat (a := (feeNumerator, feeDenominator)) (ser_field
      rfl (ser_last rfl))) trivial
      ⟨rfl, rfl, trivial, rfl, fun _ => initializePool_duties⟩
  | swapSwap _ _ _ _ _ _ amountIn minAmountOut =>
    exact agrees_iff_fixed hlisted (tag_concat (a := (amountIn, minAmountOut)) (ser_field rfl
      (ser_last rfl))) trivial
      ⟨rfl, rfl, trivial, rfl, fun _ => swap_duties⟩
  | swapDeposit _ _ _ _ _ _ _ _ maxA maxB minLp =>
    exact agrees_iff_fixed hlisted (tag_concat (a := (maxA, maxB, minLp)) (ser_field rfl
      (ser_field rfl (ser_last rfl)))) trivial
      ⟨rfl, rfl, trivial, rfl, fun _ => swapDeposit_duties⟩
  | swapWithdraw _ _ _ _ _ _ _ _ lpAmount minA minB =>
    exact agrees_iff_fixed hlisted (tag_concat (a := (lpAmount, minA, minB)) (ser_field rfl
      (ser_field rfl (ser_last rfl)))) trivial
      ⟨rfl, rfl, trivial, rfl, fun _ => swapWithdraw_duties⟩
  | lendingInitCollection =>
    refine agrees_iff_short hlisted fun v hv => ?_
    obtain ⟨n, rfl, rfl⟩ := hv
    refine ⟨trivial, ⟨rfl, rfl, trivial, rfl, fun _ h => lending_duties h.1 h.2⟩,
      fun hshort => ?_⟩
    have hn : FitsLength n := hshort n List.mem_cons_self
    exact tag_concat (a := n) (ser_last (ser_text hn))
  | lendingPlaceBid _ _ txid vout value period rate =>
    refine agrees_iff_short hlisted fun v hv => ?_
    obtain ⟨o, p, rfl, rfl, rfl⟩ := hv
    refine ⟨trivial, ⟨rfl, rfl, trivial, rfl, fun _ h => lending_duties h.1 h.2⟩,
      fun hshort => ?_⟩
    have ho : FitsLength o := hshort o List.mem_cons_self
    have hp : FitsLength p := hshort p (List.mem_cons_of_mem _ List.mem_cons_self)
    exact tag_concat (a := ((⟨txid, vout⟩ : UtxoMeta), value, period, rate, o, p))
      (ser_utxo_field (ser_field rfl (ser_field rfl (ser_field rfl
        (ser_field (ser_text ho) (ser_last (ser_text hp)))))))
  | lendingCancelBid =>
    exact agrees_iff_fixed hlisted (tag_concat ser_utxo) trivial
      ⟨rfl, rfl, trivial, rfl, fun _ h => lending_duties h.1 h.2⟩
  | lendingAcceptBid _ _ _ txid vout =>
    refine agrees_iff_short hlisted fun v hv => ?_
    obtain ⟨i, o, p, rfl, rfl, rfl, rfl⟩ := hv
    refine ⟨trivial, ⟨rfl, rfl, trivial, rfl, fun _ h => lending_duties h.1 h.2⟩,
      fun hshort => ?_⟩
    have hi : FitsLength i := hshort i List.mem_cons_self
    have ho : FitsLength o := hshort o (List.mem_cons_of_mem _ List.mem_cons_self)
    have hp : FitsLength p :=
      hshort p (List.mem_cons_of_mem _ (List.mem_cons_of_mem _ List.mem_cons_self))
    exact tag_concat (a := (i, (⟨txid, vout⟩ : UtxoMeta), o, p))
      (ser_field (ser_text hi) (ser_utxo_field
        (ser_field (ser_text ho) (ser_last (ser_text hp)))))
  | lendingRepayLoan _ _ _ txid vout amount =>
    refine agrees_iff_short hlisted fun v hv => ?_
    obtain ⟨i, rfl, rfl⟩ := hv
    refine ⟨trivial, ⟨rfl, rfl, trivial, rfl, fun _ h => lending_duties h.1 h.2⟩,
      fun hshort => ?_⟩
    have hi : FitsLength i := hshort i List.mem_cons_self
    exact tag_concat (a := (i, (⟨txid, vout⟩ : UtxoMeta), amount))
      (ser_field (ser_text hi) (ser_utxo_field (ser_last rfl)))
  | lendingClaimDefault =>
    refine agrees_iff_short hlisted fun v hv => ?_
    obtain ⟨i, rfl, rfl⟩ := hv
    refine ⟨trivial, ⟨rfl, rfl, trivial, rfl, fun _ h => lending_duties h.1 h.2⟩,
      fun hshort => ?_⟩
    have hi : FitsLength i := hshort i List.mem_cons_self
    exact tag_concat (a := i) (ser_last (ser_text hi))
  | runesEtch _ _ _ _ symbol divisibility premine terms =>
    refine agrees_iff_short hlisted fun v hv => ?_
    obtain ⟨n, rfl, rfl⟩ := hv
    refine ⟨trivial, ⟨rfl, rfl, trivial, rfl, fun _ => etch_duties⟩,
      fun hshort => ?_⟩
    have hn : FitsLength n := hshort n List.mem_cons_self
    exact tag_concat (a := (n, symbol, divisibility, premine, meantTerms terms))
      (ser_field (ser_text hn) (ser_field rfl (ser_field (ser_u8 _) (ser_field rfl
        (ser_last (ser_terms terms))))))
  | runesMint =>
    exact agrees_iff_fixed hlisted rfl trivial
      ⟨rfl, rfl, trivial, rfl, fun _ => runesMint_duties⟩
  | runesTransfer _ _ _ amount =>
    exact agrees_iff_fixed hlisted (tag_concat (a := amount) (ser_last rfl)) trivial
      ⟨rfl, rfl, trivial, rfl, fun _ => runesTransfer_duties⟩
  | runesBurn _ _ _ amount =>
    exact agrees_iff_fixed hlisted (tag_concat (a := amount) (ser_last rfl)) trivial
      ⟨rfl, rfl, trivial, rfl, fun _ => runesBurn_duties⟩
  | runesInitBalance =>
    exact agrees_iff_fixed hlisted rfl trivial
      ⟨rfl, rfl, trivial, rfl, fun _ => initBalance_duties⟩
  | moneyMarketInitMarket _ _ _ _ _ _ _ collateralFactorBps liquidationThresholdBps
      liquidationBonusBps closeFactorBps price baseRateBps slopeBps kinkUtilizationBps jumpSlopeBps
      maxPriceStalenessSecs =>
    exact agrees_iff_fixed hlisted (tag_concat (a := (collateralFactorBps,
      liquidationThresholdBps, liquidationBonusBps, closeFactorBps, price, baseRateBps, slopeBps,
      kinkUtilizationBps, jumpSlopeBps, maxPriceStalenessSecs)) (ser_field rfl (ser_field rfl
      (ser_field rfl (ser_field rfl (ser_field rfl (ser_field rfl (ser_field rfl (ser_field rfl
      (ser_field rfl (ser_last rfl))))))))))) trivial
      ⟨rfl, rfl, trivial, rfl, fun _ => initMarket_duties⟩
  | moneyMarketAddLiquidity => exact outdated id fun _ => addLiquidity_wants hlisted
  | moneyMarketSupply _ _ _ _ _ amount =>
    exact outdated id (misread (w := .moneyMarket (.removeLiquidity amount)) rfl (tag_concat (a :=
      amount) (ser_last rfl)) nofun)
  | moneyMarketWithdraw _ _ _ _ _ amount =>
    exact outdated id (misread (w := .moneyMarket (.supply amount)) rfl (tag_concat (a := amount)
      (ser_last rfl)) nofun)
  | moneyMarketBorrow _ _ _ _ _ amount =>
    exact outdated id (misread (w := .moneyMarket (.withdraw amount)) rfl (tag_concat (a := amount)
      (ser_last rfl)) nofun)
  | moneyMarketRepay _ _ _ _ _ amount =>
    exact outdated id (misread (w := .moneyMarket (.borrow amount)) rfl (tag_concat (a := amount)
      (ser_last rfl)) nofun)
  | moneyMarketLiquidate _ _ _ _ _ _ _ repayAmount =>
    exact outdated id (misread (w := .moneyMarket (.repay repayAmount)) rfl (tag_concat (a :=
      repayAmount) (ser_last rfl)) nofun)
  | moneyMarketSyncPrice => exact outdated id fun h => absurd (syncPrice_unread.symm.trans h) nofun
  | vaultInitVault _ _ _ _ _ performanceFeeBps =>
    exact agrees_iff_fixed hlisted (tag_concat (a := performanceFeeBps) (ser_last rfl)) trivial
      ⟨rfl, rfl, rfl, rfl, fun _ => initVault_duties⟩
  | vaultDeposit _ _ _ _ _ _ amount minShares =>
    exact agrees_iff_fixed hlisted (tag_concat (a := (amount, minShares)) (ser_field rfl
      (ser_last rfl))) trivial
      ⟨rfl, rfl, rfl, rfl, fun _ => vaultDeposit_duties⟩
  | vaultWithdraw _ _ _ _ _ _ shares minAssets =>
    exact agrees_iff_fixed hlisted (tag_concat (a := (shares, minAssets)) (ser_field rfl
      (ser_last rfl))) trivial
      ⟨rfl, rfl, rfl, rfl, vaultWithdraw_duties⟩
  | vaultReport =>
    exact agrees_iff_fixed hlisted rfl trivial
      ⟨rfl, rfl, rfl, rfl, report_duties⟩
  | oracleInitFeed _ _ maxDeviationBps maxSubmissionAge =>
    exact agrees_iff_fixed hlisted (tag_concat (a := (maxDeviationBps, maxSubmissionAge))
      (ser_field rfl (ser_last rfl))) trivial
      ⟨rfl, rfl, trivial, rfl, fun _ => initFeed_duties⟩
  | oracleUpdatePrice _ _ price =>
    exact agrees_iff_fixed hlisted (tag_concat (a := price) (ser_last rfl)) trivial
      ⟨rfl, rfl, trivial, rfl, fun _ => updatePrice_duties⟩
  | oracleAddPublisher _ _ publisher =>
    exact agrees_iff_fixed hlisted (tag_concat (a := publisher) (ser_last rfl)) trivial
      ⟨rfl, rfl, trivial, rfl, fun _ => addPublisher_duties⟩
  | oracleRemovePublisher _ _ publisher =>
    exact agrees_iff_fixed hlisted (tag_concat (a := publisher) (ser_last rfl)) trivial
      ⟨rfl, rfl, trivial, rfl, fun _ => removePublisher_duties⟩

end

/-- A default claimed on the inscription `i`. -/
def typescriptClaim : Export where
  built := TypeScript.Lending.claimDefault (.repeated 1) (.repeated 2) [105]
  meant := fun v => ∃ i : String, JsString.ofText i = [105] ∧ v = .lending (.claimDefault i)
  cast := lendingCast (.repeated 1) (.repeated 2)

/-- On the accounts of a node that has none of them. -/
theorem typescriptClaim_agrees_iff : TypeScriptExports typescriptClaim ∧
    (typescriptClaim.Agrees (accountsOf ∅ typescriptClaim.built) ↔
      ∃ v, typescriptClaim.meant v ∧ TypeScriptCurrent v ∧ (∀ s ∈ texts v, FitsLength s) ∧
        (v = .vault .report → MarketGiven (accountsOf ∅ typescriptClaim.built))) := by
  have hexports : TypeScriptExports typescriptClaim := .lendingClaimDefault _ _ _
  exact ⟨hexports, typescript_agrees_iff hexports (listed_accountsOf _ _)⟩

/-- Collateral of five supplied to a market. -/
def typescriptSupply : Export where
  built := TypeScript.MoneyMarket.supply (.repeated 1) (.repeated 2) (.repeated 3) (.repeated 4)
    (.repeated 5) 5
  meant := (· = .moneyMarket (.supply 5))
  cast := [(.repeated 1, keeps MarketState fun _ => True),
    (.repeated 2, keeps Position fun _ => True), (.repeated 3, pays (5 : UInt64).toNat),
    (.repeated 4, receives (5 : UInt64).toNat), (.repeated 5, signs)]

/-- **A supply is read as a withdrawal of liquidity.** -/
theorem supply_misread : TypeScriptExports typescriptSupply ∧
    (∀ accounts, ¬ typescriptSupply.Agrees accounts) ∧
    decode typescriptSupply.built.programId typescriptSupply.built.data =
      some (.moneyMarket (.removeLiquidity 5)) := by
  have hread : decode typescriptSupply.built.programId typescriptSupply.built.data =
      some (.moneyMarket (.removeLiquidity 5)) := by
    decide
  refine ⟨.moneyMarketSupply _ _ _ _ _ _, fun accounts h => ?_, hread⟩
  obtain ⟨v, hdecode, hv, -⟩ := h
  rw [hread, hv] at hdecode
  exact absurd (Option.some.inj hdecode) nofun

end Proof
end Himsha
