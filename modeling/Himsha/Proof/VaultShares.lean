import Himsha.Lib.Ratio
import Himsha.Proof.VaultPricing

/-!
# What a vault share is worth

A deposit, a withdrawal and a report each change what there is for the shares and how many there
are. Every division in them rounds against whom the instruction is for, and narrowing a quotient
only makes it less, so none of the three lowers what the other shares are worth:
`share_price_kept`. A report moreover charges its fee on the profit alone. That rests on the fee
being a part of the profit, which `InitVault` checks and no instruction changes
(`CreatedVault.fee_le`).
-/

set_option autoImplicit false

namespace Himsha
namespace Proof

open Himsha.Lib Himsha.Runtime Himsha.Programs Himsha.Vm Token Vault
open MoneyMarket (MarketState LenderPosition lenderShareValue)

/-! ## Vaults that were created -/

/-- An instruction of the vault program that succeeds. -/
def VaultCall (π : Profile) (hasher : Lending.Hasher) (accounts : List AccountInfo)
    (ix : VaultInstruction) (out : List AccountInfo) : Prop :=
  ∃ (data : List UInt8) (timestamp : UInt64) (th th' : Thread), tryFromSlice data = some ix ∧
    Comp.Returns (dispatch π hasher ProgramIds.vaultProgram accounts data timestamp) th out th'

/-- A vault that `InitVault` created, and what instructions of the program make of it. -/
inductive CreatedVault (π : Profile) (hasher : Lending.Hasher) : VaultState → Prop
  | init {accounts out : List AccountInfo} {fee : UInt64} {vault : VaultState}
      (call : VaultCall π hasher accounts (.initVault fee) out)
      (left : recordAt VaultState out 0 = some vault) : CreatedVault π hasher vault
  | call {accounts out : List AccountInfo} {ix : VaultInstruction} {vault vault' : VaultState}
      (created : CreatedVault π hasher vault)
      (held : recordAt VaultState accounts 0 = some vault)
      (call : VaultCall π hasher accounts ix out)
      (left : recordAt VaultState out 0 = some vault') : CreatedVault π hasher vault'

section
variable {π : Profile} {hasher : Lending.Hasher} {accounts out : List AccountInfo}
  {ix : VaultInstruction} {vault vault' : VaultState}

/-- A vault is created with a fee that is a part of the profit. -/
theorem VaultCall.init_fee {fee : UInt64} (h : VaultCall π hasher accounts (.initVault fee) out)
    (hleft : recordAt VaultState out 0 = some vault) :
    vault.performanceFeeBps.toNat ≤ Vault.bps := by
  obtain ⟨data, timestamp, th, th', hdata, hcall⟩ := h
  obtain ⟨mid, th₀, th₁, hrun, hread⟩ := vault_returns hdata hcall
  rw [hread] at hleft
  obtain ⟨hinit, -⟩ := Comp.returns_ofExcept.mp hrun
  obtain ⟨_, -, h₁⟩ := bind_eq_ok.mp hinit
  obtain ⟨_, -, h₂⟩ := bind_eq_ok.mp h₁
  obtain ⟨_, -, h₃⟩ := bind_eq_ok.mp h₂
  obtain ⟨_, hfee, h₄⟩ := bind_eq_ok.mp h₃
  obtain ⟨_, -, h₅⟩ := bind_eq_ok.mp h₄
  obtain ⟨_, -, h₆⟩ := bind_eq_ok.mp h₅
  obtain ⟨_, -, h₇⟩ := bind_eq_ok.mp h₆
  obtain ⟨_, -, h₈⟩ := bind_eq_ok.mp h₇
  obtain ⟨_, -, h₉⟩ := bind_eq_ok.mp h₈
  obtain ⟨_, -, hstore⟩ := bind_eq_ok.mp h₉
  obtain rfl := Option.some.inj ((recordAt_stored hstore).symm.trans hleft)
  exact of_decide_eq_true (require_eq_ok.mp hfee)

/-- What an instruction leaves of the fee: one that is a part of the profit, or what it was. -/
theorem VaultCall.fee (h : VaultCall π hasher accounts ix out)
    (hleft : recordAt VaultState out 0 = some vault') :
    vault'.performanceFeeBps.toNat ≤ Vault.bps ∨ ∃ vault,
      recordAt VaultState accounts 0 = some vault ∧
        vault'.performanceFeeBps = vault.performanceFeeBps := by
  by_cases hinit : ∃ fee, ix = .initVault fee
  · obtain ⟨fee, rfl⟩ := hinit
    exact .inl (h.init_fee hleft)
  obtain ⟨data, timestamp, th, th', hdata, hcall⟩ := h
  obtain ⟨mid, th₀, th₁, hrun, hread⟩ := vault_returns hdata hcall
  rw [hread] at hleft
  have hmoved : ∀ {amount : UInt64} {ix : MoneyMarket.MoneyMarketInstruction},
      Comp.Returns (moveLiquidity π accounts timestamp amount ix) th₀ mid th₁ →
      ∃ vault, recordAt VaultState accounts 0 = some vault ∧
        vault'.performanceFeeBps = vault.performanceFeeBps := by
    intro amount ix hmove
    obtain ⟨v, moved, lenderShares, hheld, -, -, -, -, hstore⟩ := moveLiquidity_call hmove
    obtain rfl := Option.some.inj ((recordAt_stored hstore).symm.trans hleft)
    exact ⟨v, hheld, rfl⟩
  cases ix with
  | initVault fee => exact absurd ⟨fee, rfl⟩ hinit
  | deposit amount least =>
    obtain ⟨v, nav, shares, delta, hdone⟩ := deposit_call hrun
    obtain ⟨_, _, hstored, -⟩ := hdone.stored
    obtain rfl := Option.some.inj (hstored.symm.trans hleft)
    exact .inr ⟨v, hdone.held, rfl⟩
  | withdraw shares least =>
    obtain ⟨v, nav, assets, hdone⟩ := withdraw_call hrun
    obtain ⟨_, _, _, hstored, -⟩ := hdone.stored
    obtain rfl := Option.some.inj (hstored.symm.trans hleft)
    exact .inr ⟨v, hdone.held, rfl⟩
  | report =>
    obtain ⟨v, nav, fee, hdone⟩ := report_call hrun
    obtain ⟨_, hstored, -⟩ := hdone.stored
    obtain rfl := Option.some.inj (hstored.symm.trans hleft)
    exact .inr ⟨v, hdone.held, rfl⟩
  | deploy amount => exact .inr (hmoved hrun)
  | undeploy amount => exact .inr (hmoved hrun)

/-- **The fee is a part of the profit** in every vault that was created. -/
theorem CreatedVault.fee_le (h : CreatedVault π hasher vault) :
    vault.performanceFeeBps.toNat ≤ Vault.bps := by
  induction h with
  | init hcall hleft => exact hcall.init_fee hleft
  | call _ hheld hcall hleft ih =>
    rcases hcall.fee hleft with hle | ⟨v, hv, hsame⟩
    · exact hle
    · obtain rfl := Option.some.inj (hheld.symm.trans hv)
      rw [hsame]
      exact ih

end

/-! ## What each instruction gives -/

/-- The fee on what the vault is worth beyond what was booked. -/
def performanceFee (vault : VaultState) (nav : Nat) : Nat :=
  (nav - vault.totalAssets.toNat) * vault.performanceFeeBps.toNat / Vault.bps

/-- Of a vault worth `nav`, an instruction gave `gain`, and the shares that were there are worth no
    less for it. A report takes no more than the profit. -/
def PriceKept (vault vault' : VaultState) (nav gain : Nat) : Pricing → Prop
  | .deposit amount _ =>
      vault'.totalShares.toNat = vault.totalShares.toNat + gain ∧
        nav * (vault.totalShares.toNat + gain) ≤ (nav + amount.toNat) * vault.totalShares.toNat
  | .withdraw shares _ =>
      vault'.totalShares.toNat + shares.toNat = vault.totalShares.toNat ∧ gain ≤ nav ∧
        nav * (vault.totalShares.toNat - shares.toNat) ≤ (nav - gain) * vault.totalShares.toNat
  | .report =>
      vault'.totalShares.toNat = vault.totalShares.toNat + gain ∧
        (nav - performanceFee vault nav) * (vault.totalShares.toNat + gain) ≤
          nav * vault.totalShares.toNat ∧
        (vault.totalAssets.toNat < nav →
          vault.totalAssets.toNat + performanceFee vault nav ≤ nav)

section
variable {π : Profile} {hasher : Lending.Hasher} {accounts out : List AccountInfo}
  {vault vault' : VaultState} {nav amount shares : UInt64}

theorem performanceFee_le (hfee : vault.performanceFeeBps.toNat ≤ Vault.bps) (nav : Nat) :
    performanceFee vault nav ≤ nav - vault.totalAssets.toNat :=
  Nat.div_le_of_le_mul (by rw [Nat.mul_comm Vault.bps]; exact Nat.mul_le_mul_left _ hfee)

/-- Shares that a deposit is granted. -/
theorem granted_le (hlive : vault.totalShares ≠ 0) {delta : UInt64}
    (h : depositShares π vault nav amount = .ok (shares, delta)) :
    nav.toNat * (vault.totalShares.toNat + shares.toNat) ≤
      (nav.toNat + amount.toNat) * vault.totalShares.toNat := by
  obtain ⟨hshares, -⟩ := depositShares_later hlive h
  rw [Ratio.issue_le_iff, hshares]
  calc nav.toNat * (amount.toNat * vault.totalShares.toNat / max nav.toNat 1 % 2 ^ 64)
      ≤ max nav.toNat 1 * (amount.toNat * vault.totalShares.toNat / max nav.toNat 1) :=
        Nat.mul_le_mul (Nat.le_max_left _ _) (Nat.mod_le _ _)
    _ ≤ amount.toNat * vault.totalShares.toNat := Ratio.issue_floor _ _ _

/-- What shares are redeemed for. -/
theorem redeemed_le (hle : shares.toNat ≤ vault.totalShares.toNat)
    (hpaid : amount.toNat ≤ nav.toNat)
    (h : mulDiv π shares.toNat nav.toNat vault.totalShares.toNat = some amount) :
    nav.toNat * (vault.totalShares.toNat - shares.toNat) ≤
      (nav.toNat - amount.toNat) * vault.totalShares.toNat := by
  rw [Ratio.redeem_le_iff hpaid hle, mulDiv_eq_some h, Nat.mul_comm nav.toNat]
  calc shares.toNat * nav.toNat / vault.totalShares.toNat % 2 ^ 64 * vault.totalShares.toNat
      ≤ shares.toNat * nav.toNat / vault.totalShares.toNat * vault.totalShares.toNat :=
        Nat.mul_le_mul_right _ (Nat.mod_le _ _)
    _ ≤ shares.toNat * nav.toNat := Nat.div_mul_le_self _ _

/-- Shares for the fee: none, or the part that the fee is of the rest. -/
theorem feeShares_cases
    (h : feeShares π vault nav (saturatingSub nav vault.totalAssets) = some shares) :
    shares = 0 ∨ performanceFee vault nav.toNat < nav.toNat ∧
      shares.toNat = performanceFee vault nav.toNat * vault.totalShares.toNat /
        (nav.toNat - performanceFee vault nav.toNat) % 2 ^ 64 := by
  unfold feeShares at h
  have hbps : Vault.bps ≠ 0 := by decide
  split at h
  · rw [mulU128_u64, saturatingSub_toNat] at h
    simp only [Option.bind_eq_bind, Option.bind_some] at h
    rw [divU128_pos hbps, Option.bind_some] at h
    split at h
    · rename_i hfee
      have hsmall : performanceFee vault nav.toNat < 2 ^ 64 := hfee.2.trans nav.toNat_lt
      have hrest : nav.toNat - performanceFee vault nav.toNat < 2 ^ 64 :=
        Nat.lt_of_le_of_lt (Nat.sub_le _ _) nav.toNat_lt
      have hshares := mulDiv_eq_some (a := .ofNat (performanceFee vault nav.toNat))
        (b := vault.totalShares) (c := .ofNat (nav.toNat - performanceFee vault nav.toNat))
        (by rw [UInt64.toNat_ofNat_of_lt' hsmall, UInt64.toNat_ofNat_of_lt' hrest]; exact h)
      rw [UInt64.toNat_ofNat_of_lt' hsmall, UInt64.toNat_ofNat_of_lt' hrest] at hshares
      exact .inr ⟨hfee.2, hshares⟩
    · exact .inl (Option.some.inj h).symm
  · exact .inl (Option.some.inj h).symm

/-- Shares that a report mints for the fee. -/
theorem fee_shares_le
    (h : feeShares π vault nav (saturatingSub nav vault.totalAssets) = some shares) :
    (nav.toNat - performanceFee vault nav.toNat) * (vault.totalShares.toNat + shares.toNat) ≤
      nav.toNat * vault.totalShares.toNat := by
  rcases feeShares_cases h with hnone | ⟨hless, hshares⟩
  · rw [hnone]
    exact Nat.mul_le_mul_right _ (Nat.sub_le _ _)
  · have hissued : (nav.toNat - performanceFee vault nav.toNat) * shares.toNat ≤
        performanceFee vault nav.toNat * vault.totalShares.toNat := by
      rw [hshares]
      exact (Nat.mul_le_mul_left _ (Nat.mod_le _ _)).trans (Ratio.issue_floor _ _ _)
    have hkept := Ratio.issue_le_iff.mpr hissued
    rwa [Nat.sub_add_cancel hless.le] at hkept

end

/-- **No instruction lowers what the other shares are worth.** -/
theorem share_price_kept {π : Profile} {hasher : Lending.Hasher} {accounts out : List AccountInfo}
    {vault : VaultState} (p : Pricing) (hcreated : CreatedVault π hasher vault)
    (hlive : vault.totalShares ≠ 0) (hvault : recordAt VaultState accounts 0 = some vault)
    (h : VaultCall π hasher accounts p.instruction out) :
    ∃ nav vault', p.basis π vault accounts = .ok nav ∧ recordAt VaultState out 0 = some vault' ∧
      PriceKept vault vault' nav.toNat (gainAt accounts out p.recipient) p := by
  obtain ⟨data, timestamp, th, th', hdata, hcall⟩ := h
  obtain ⟨nav, gain, hbasis, hamount, hgain⟩ := pricing_gives hdata hvault hcall
  obtain ⟨mid, _, _, hrun, hread⟩ := vault_returns hdata hcall
  rw [hgain]
  cases p with
  | deposit amount least =>
    obtain ⟨v, nav', shares, delta, hdone⟩ := deposit_call hrun
    obtain rfl : vault = v := Option.some.inj (hvault.symm.trans hdone.held)
    obtain rfl : nav = nav' := Except.ok.inj (hbasis.symm.trans hdone.priced)
    obtain rfl : shares = gain := by
      rw [Pricing.amount, hdone.granted] at hamount
      exact Except.ok.inj hamount
    obtain ⟨totalAssets, totalShares, hstored, -, htotal⟩ := hdone.stored
    obtain ⟨-, rfl⟩ := depositShares_later hlive hdone.granted
    exact ⟨nav, _, hbasis, (hread _ 0).trans hstored, htotal, granted_le hlive hdone.granted⟩
  | withdraw shares least =>
    obtain ⟨v, nav', assets, hdone⟩ := withdraw_call hrun
    obtain rfl : vault = v := Option.some.inj (hvault.symm.trans hdone.held)
    obtain rfl : nav = nav' := Except.ok.inj (hbasis.symm.trans hdone.priced)
    obtain rfl : assets = gain :=
      Option.some.inj (hdone.granted.symm.trans (orPanic_eq_ok.mp hamount))
    obtain ⟨lenderShares, totalAssets, totalShares, hstored, hpaid, hburned⟩ := hdone.stored
    have hpaid' : assets.toNat ≤ nav.toNat := Nat.le.intro ((Nat.add_comm _ _).trans hpaid)
    have hburned' : shares.toNat ≤ vault.totalShares.toNat :=
      Nat.le.intro ((Nat.add_comm _ _).trans hburned)
    exact ⟨nav, _, hbasis, (hread _ 0).trans hstored, hburned, hpaid',
      redeemed_le hburned' hpaid' hdone.granted⟩
  | report =>
    obtain ⟨v, nav', fee, hdone⟩ := report_call hrun
    obtain rfl : vault = v := Option.some.inj (hvault.symm.trans hdone.held)
    obtain ⟨deployed, idle, hdeployed, hidle, hsum⟩ := hdone.priced
    obtain rfl : nav = nav' := by
      have hbasis' : Pricing.report.basis π vault accounts = .ok nav' :=
        bind_eq_ok.mpr ⟨deployed, hdeployed, bind_eq_ok.mpr ⟨idle, hidle, okOr_eq_ok.mpr hsum⟩⟩
      exact Except.ok.inj (hbasis.symm.trans hbasis')
    obtain rfl : fee = gain :=
      Option.some.inj (hdone.granted.symm.trans (orPanic_eq_ok.mp hamount))
    obtain ⟨totalShares, hstored, htotal⟩ := hdone.stored
    have hcharged := performanceFee_le hcreated.fee_le nav.toNat
    refine ⟨nav, _, hbasis, (hread _ 0).trans hstored, htotal, fee_shares_le hdone.granted,
      fun hprofit => ?_⟩
    omega

/-! ## A vault that made a profit -/

/-- A vault that charges a tenth of the profit. -/
def tithingVault (assets shares : UInt64) : VaultState where
  assetMint := .repeated 8
  shareMint := .repeated 4
  assetVault := .repeated 2
  manager := .repeated 9
  totalAssets := assets
  totalShares := shares
  performanceFeeBps := 1000
  isInitialized := true

def blankAccount (key : Pubkey) : AccountInfo where
  key := key
  lamports := 0
  data := []
  owner := ProgramIds.systemProgram

def signerAccount (key : Pubkey) : AccountInfo :=
  { blankAccount key with isSigner := true, isWritable := false }

def shareMintAccount : AccountInfo :=
  recordAccount (.repeated 4) ProgramIds.tokenProgram
    ({ mintAuthority := some (.repeated 0), isInitialized := true } : MintState)

def vaultRecord (vault : VaultState) : AccountInfo :=
  recordAccount (.repeated 0) ProgramIds.vaultProgram vault

/-- The accounts that it is created from. -/
def creationAccounts : List AccountInfo :=
  [blankAccount (.repeated 0), blankAccount (.repeated 8), shareMintAccount,
    tokensAt (.repeated 2) (.repeated 8) 1000, signerAccount (.repeated 9)]

/-- The accounts of its first depositor. -/
def firstAccounts : List AccountInfo :=
  [vaultRecord (tithingVault 0 0), tokensAt (.repeated 1) (.repeated 8) 2000,
    tokensAt (.repeated 2) (.repeated 8) 1000, tokensAt (.repeated 3) (.repeated 4) 0,
    shareMintAccount, signerAccount (.repeated 5)]

/-- The accounts that are passed when it holds 3000, of which 2000 are booked. -/
def profitAccounts : List AccountInfo :=
  [vaultRecord (tithingVault 2000 2000), signerAccount (.repeated 9),
    tokensAt (.repeated 2) (.repeated 8) 3000, shareMintAccount,
    tokensAt (.repeated 10) (.repeated 4) 0]

/-- A call of the vault program, with what it leaves in the slot of the vault. -/
theorem vaultCall_of_left {accounts : List AccountInfo} {ix : VaultInstruction}
    {vault : VaultState} (hdata : tryFromSlice ((toVec ix).getD []) = some ix)
    (h : (runVault accounts ((toVec ix).getD [])).1.toOption.bind (recordAt VaultState · 0) =
      some vault) :
    ∃ out, VaultCall .dev .sorted accounts ix out ∧ recordAt VaultState out 0 = some vault := by
  obtain ⟨out, hout, hleft⟩ := Option.bind_eq_some_iff.mp h
  exact ⟨out, ⟨_, 0, {}, _, hdata, Comp.returns_of_ok (eq_ok_of_toOption hout)⟩, hleft⟩

theorem tithingVault_created : CreatedVault .dev .sorted (tithingVault 2000 2000) := by
  obtain ⟨_, hcreate, hleft⟩ : ∃ out,
      VaultCall .dev .sorted creationAccounts (.initVault 1000) out ∧
        recordAt VaultState out 0 = some (tithingVault 0 0) :=
    vaultCall_of_left (by decide) (by decide +kernel)
  obtain ⟨_, hdeposit, hleft'⟩ : ∃ out,
      VaultCall .dev .sorted firstAccounts (.deposit 2000 0) out ∧
        recordAt VaultState out 0 = some (tithingVault 2000 2000) :=
    vaultCall_of_left (by decide) (by decide +kernel)
  exact .call (.init hcreate hleft) (by decide +kernel) hdeposit hleft'

/-- 68 shares are minted for the fee of 100. -/
theorem share_price_kept_profit : ∃ out nav vault',
    VaultCall .dev .sorted profitAccounts .report out ∧
    Pricing.report.basis .dev (tithingVault 2000 2000) profitAccounts = .ok nav ∧
    recordAt VaultState out 0 = some vault' ∧
    PriceKept (tithingVault 2000 2000) vault' nav.toNat (gainAt profitAccounts out 4) .report := by
  obtain ⟨out, hreport, -⟩ : ∃ out, VaultCall .dev .sorted profitAccounts .report out ∧
      recordAt VaultState out 0 = some (tithingVault 3000 2068) :=
    vaultCall_of_left (by decide) (by decide +kernel)
  obtain ⟨nav, vault', hnav, hleft, hkept⟩ := share_price_kept .report tithingVault_created
    (by decide) (by decide +kernel) hreport
  exact ⟨out, nav, vault', hreport, hnav, hleft, hkept⟩

end Proof
end Himsha
