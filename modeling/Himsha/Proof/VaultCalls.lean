import Himsha.Proof.MarketMath
import Himsha.Proof.TokenCalls

/-!
# Calls of the vault program

What a deposit, a withdrawal and a report that succeed have done to their slots: which balances
they moved, how many shares they issued or burned, and how they rewrote the vault. The amounts are
the ones that the pricing functions of the program give.
-/

set_option autoImplicit false

namespace Himsha
namespace Proof

open Himsha.Lib Himsha.Runtime Himsha.Programs Himsha.Vm Token Vault
open MoneyMarket (MarketState LenderPosition lenderShareValue)

/-! ## Deposits -/

/-- A deposit that succeeded: `amount` went into the asset vault in slot 2 and `shares` of the mint
    in slot 4 were issued to slot 3. -/
structure Deposited (π : Profile) (accounts out : List AccountInfo) (amount : UInt64)
    (vault : VaultState) (nav shares delta : UInt64) : Prop where
  held : recordAt VaultState accounts 0 = some vault
  initialized : vault.isInitialized = true
  priced : liveNav π vault accounts = .ok nav
  granted : depositShares π vault nav amount = .ok (shares, delta)
  received : Received accounts out 2 amount.toNat
  issued : Issued accounts out 4 shares.toNat
  credited : Received accounts out 3 shares.toNat
  stored : ∃ totalAssets totalShares,
    recordAt VaultState out 0 = some { vault with totalAssets, totalShares } ∧
    totalAssets.toNat = vault.totalAssets.toNat + amount.toNat ∧
    totalShares.toNat = vault.totalShares.toNat + delta.toNat

section
variable {π : Profile} {accounts out : List AccountInfo} {th th' : Thread} {amount least : UInt64}

/-- The steps of a deposit. -/
theorem deposit_steps (h : Comp.Returns (Vault.deposit π accounts amount least) th out th') :
    ∃ vault nav shares delta paid minted totalAssets totalShares th₁,
      load accounts 0 = .ok vault ∧ vault.isInitialized = true ∧
      liveNav π vault accounts = .ok nav ∧
      depositShares π vault nav amount = .ok (shares, delta) ∧
      Comp.Returns (tokenTransfer π accounts 1 2 5 amount) th paid th₁ ∧
      Comp.Returns (mintSigned π paid 4 3 0 shares) th₁ minted th' ∧
      checkedAdd vault.totalAssets amount = some totalAssets ∧
      checkedAdd vault.totalShares delta = some totalShares ∧
      store minted 0 { vault with totalAssets, totalShares } = .ok out := by
  obtain ⟨_, -, h₁⟩ := returns_lift h
  obtain ⟨_, -, h₂⟩ := returns_lift h₁
  obtain ⟨_, -, h₃⟩ := returns_lift h₂
  obtain ⟨_, -, h₄⟩ := returns_lift h₃
  obtain ⟨vault, hload, h₅⟩ := returns_lift h₄
  obtain ⟨_, hinit, h₆⟩ := returns_lift h₅
  obtain ⟨nav, hnav, h₇⟩ := returns_lift h₆
  obtain ⟨⟨shares, delta⟩, hshares, h₈⟩ := returns_lift h₇
  obtain ⟨_, -, h₉⟩ := returns_lift h₈
  obtain ⟨paid, th₁, hpay, h₁₀⟩ := Comp.returns_bind.mp h₉
  obtain ⟨minted, _, hmint, h₁₁⟩ := Comp.returns_bind.mp h₁₀
  obtain ⟨totalAssets, hassets, h₁₂⟩ := returns_lift h₁₁
  obtain ⟨totalShares, htotal, h₁₃⟩ := returns_lift h₁₂
  obtain ⟨hstore, rfl⟩ := Comp.returns_ofExcept.mp h₁₃
  exact ⟨vault, nav, shares, delta, paid, minted, totalAssets, totalShares, th₁, hload,
    require_eq_ok.mp hinit, hnav, hshares, hpay, hmint, okOr_eq_ok.mp hassets,
    okOr_eq_ok.mp htotal, hstore⟩

theorem deposit_call (h : Comp.Returns (Vault.deposit π accounts amount least) th out th') :
    ∃ vault nav shares delta, Deposited π accounts out amount vault nav shares delta := by
  obtain ⟨vault, nav, shares, delta, paid, minted, totalAssets, totalShares, _, hload, hinit, hnav,
    hshares, hpay, hmint, hassets, htotal, hstore⟩ := deposit_steps h
  obtain ⟨_, _, _, _, _, _, hpaid, -, -, -, hreceived⟩ :=
    transfer_call (by decide) (by decide) (by decide) hpay
  obtain ⟨_, _, _, _, _, _, hminted, -, -, hsupply, hcredited⟩ :=
    mintTo_call (by decide) (by decide) (by decide) hmint
  have hkept : ∀ {α : Type} [Borsh α] {n : Nat}, n ≠ 0 →
      recordAt α out n = recordAt α minted n := fun hn => recordAt_unstored hstore hn
  refine ⟨vault, nav, shares, delta, recordAt_of_load hload, hinit, hnav, hshares, ?_, ?_, ?_,
    totalAssets, totalShares, recordAt_stored hstore, checkedAdd_eq_some hassets,
    checkedAdd_eq_some htotal⟩
  · -- The shares are minted without touching the asset vault.
    refine Changed.congr rfl ?_ (hpaid.changed' (by decide) ⟨rfl, hreceived⟩)
    rw [hkept (by decide), hminted.recordAt_other (by decide) (by decide)]
  · refine Changed.congr ?_ (hkept (by decide)) (hminted.changed (by decide) ⟨rfl, hsupply⟩)
    rw [hpaid.recordAt_other (by decide) (by decide)]
  · refine Changed.congr ?_ (hkept (by decide)) (hminted.changed' (by decide) ⟨rfl, hcredited⟩)
    rw [hpaid.recordAt_other (by decide) (by decide)]

end

/-! ## Withdrawals -/

/-- A withdrawal that succeeded: `shares` of the mint in slot 4 were burned and `assets` came out
    of the asset vault in slot 2, into slot 1. -/
structure Withdrawn (π : Profile) (accounts out : List AccountInfo) (shares : UInt64)
    (vault : VaultState) (nav assets : UInt64) : Prop where
  held : recordAt VaultState accounts 0 = some vault
  started : vault.totalShares ≠ 0
  priced : liveNav π vault accounts = .ok nav
  granted : mulDiv π shares.toNat nav.toNat vault.totalShares.toNat = some assets
  received : Received accounts out 1 assets.toNat
  burned : Burned accounts out 4 shares.toNat
  stored : ∃ lenderShares totalAssets totalShares,
    recordAt VaultState out 0 = some { vault with lenderShares, totalAssets, totalShares } ∧
    totalAssets.toNat + assets.toNat = nav.toNat ∧
    totalShares.toNat + shares.toNat = vault.totalShares.toNat

section
variable {π : Profile} {accounts out : List AccountInfo} {th th' : Thread}

/-- What is redeemed from the market does not touch the user's slots. -/
theorem autoUndeploy_call {vault : VaultState} {timestamp assets : UInt64}
    {r : VaultState × List AccountInfo}
    (h : Comp.Returns (autoUndeploy π vault accounts timestamp assets) th r th') :
    (∃ lenderShares, r.1 = { vault with lenderShares }) ∧
      ∀ n, n ∉ [6, 7, 2, 8, 0] → r.2[n]? = accounts[n]? := by
  obtain ⟨idle, -, h₁⟩ := returns_lift h
  split at h₁
  · obtain ⟨mid, _, hmarket, h₂⟩ := Comp.returns_bind.mp h₁
    obtain ⟨lenderShares, -, h₃⟩ := returns_lift h₂
    obtain ⟨rfl, -⟩ := Comp.returns_pure.mp h₃
    obtain ⟨_, -, hinvoke⟩ := returns_lift hmarket
    exact ⟨⟨lenderShares, rfl⟩, fun n hn => invoke_other hinvoke hn⟩
  · obtain ⟨rfl, -⟩ := Comp.returns_pure.mp h₁
    exact ⟨⟨vault.lenderShares, rfl⟩, fun n _ => rfl⟩

/-- The steps of a withdrawal. -/
theorem withdraw_steps {timestamp shares least : UInt64}
    (h : Comp.Returns (Vault.withdraw π accounts timestamp shares least) th out th') :
    ∃ vault nav assets r burned paid totalAssets totalShares th₁ th₂,
      load accounts 0 = .ok vault ∧ vault.totalShares ≠ 0 ∧
      liveNav π vault accounts = .ok nav ∧
      mulDiv π shares.toNat nav.toNat vault.totalShares.toNat = some assets ∧
      Comp.Returns (autoUndeploy π vault accounts timestamp assets) th r th₁ ∧
      Comp.Returns (burn π r.2 3 4 5 shares) th₁ burned th₂ ∧
      Comp.Returns (tokenTransferSigned π burned 2 1 0 assets) th₂ paid th' ∧
      checkedSub nav assets = some totalAssets ∧
      checkedSub r.1.totalShares shares = some totalShares ∧
      store paid 0 { r.1 with totalAssets, totalShares } = .ok out := by
  obtain ⟨_, -, h₁⟩ := returns_lift h
  obtain ⟨_, -, h₂⟩ := returns_lift h₁
  obtain ⟨_, -, h₃⟩ := returns_lift h₂
  obtain ⟨vault, hload, h₄⟩ := returns_lift h₃
  obtain ⟨_, hstarted, h₅⟩ := returns_lift h₄
  obtain ⟨nav, hnav, h₆⟩ := returns_lift h₅
  obtain ⟨assets, hassets, h₇⟩ := returns_lift h₆
  obtain ⟨_, -, h₈⟩ := returns_lift h₇
  obtain ⟨r, th₁, hundeploy, h₉⟩ := Comp.returns_bind.mp h₈
  obtain ⟨burned, th₂, hburn, h₁₀⟩ := Comp.returns_bind.mp h₉
  obtain ⟨paid, _, hpay, h₁₁⟩ := Comp.returns_bind.mp h₁₀
  obtain ⟨totalAssets, htotal, h₁₂⟩ := returns_lift h₁₁
  obtain ⟨totalShares, hleft, h₁₃⟩ := returns_lift h₁₂
  obtain ⟨hstore, rfl⟩ := Comp.returns_ofExcept.mp h₁₃
  exact ⟨vault, nav, assets, r, burned, paid, totalAssets, totalShares, th₁, th₂, hload,
    by simpa using require_eq_ok.mp hstarted, hnav, orPanic_eq_ok.mp hassets, hundeploy, hburn,
    hpay, okOr_eq_ok.mp htotal, okOr_eq_ok.mp hleft, hstore⟩

theorem withdraw_call {timestamp shares least : UInt64}
    (h : Comp.Returns (Vault.withdraw π accounts timestamp shares least) th out th') :
    ∃ vault nav assets, Withdrawn π accounts out shares vault nav assets := by
  obtain ⟨vault, nav, assets, r, burned, paid, totalAssets, totalShares, _, _, hload, hstarted,
    hnav, hassets, hundeploy, hburn, hpay, htotal, hleft, hstore⟩ := withdraw_steps h
  obtain ⟨⟨lenderShares, hvault⟩, hother⟩ := autoUndeploy_call hundeploy
  obtain ⟨_, _, _, _, _, _, hburned, -, -, hsupply⟩ :=
    burn_call (by decide) (by decide) (by decide) hburn
  obtain ⟨_, _, _, _, _, _, hpaid, -, -, -, hreceived⟩ :=
    transfer_call (by decide) (by decide) (by decide) hpay
  refine ⟨vault, nav, assets, recordAt_of_load hload, hstarted, hnav, hassets, ?_, ?_,
    lenderShares, totalAssets, totalShares, ?_, checkedSub_eq_some htotal, ?_⟩
  · refine Changed.congr ?_ (recordAt_unstored hstore (by decide))
      (hpaid.changed' (by decide) ⟨rfl, hreceived⟩)
    rw [hburned.recordAt_other (by decide) (by decide)]
    exact (recordAt_congr (hother 1 (by decide))).symm
  · refine Changed.congr (recordAt_congr (hother 4 (by decide))).symm ?_
      (hburned.changed' (by decide) ⟨rfl, hsupply⟩)
    rw [recordAt_unstored hstore (by decide), hpaid.recordAt_other (by decide) (by decide)]
  · rw [recordAt_stored hstore, hvault]
  · have hsub := checkedSub_eq_some hleft
    rw [hvault] at hsub
    exact hsub

end

/-! ## Reports -/

/-- A report that succeeded: the vault was booked at `nav`, and `fee` shares of the mint in slot 3
    were issued to slot 4. -/
structure Reported (π : Profile) (accounts out : List AccountInfo) (vault : VaultState)
    (nav fee : UInt64) : Prop where
  held : recordAt VaultState accounts 0 = some vault
  initialized : vault.isInitialized = true
  priced : ∃ deployed idle, deployedValue π vault accounts = .ok deployed ∧
    balance accounts 2 = .ok idle ∧ checkedAdd idle deployed = some nav
  granted : feeShares π vault nav (saturatingSub nav vault.totalAssets) = some fee
  issued : 0 < fee → Issued accounts out 3 fee.toNat ∧ Received accounts out 4 fee.toNat
  kept : ¬ 0 < fee → ∀ n, n ≠ 0 → out[n]? = accounts[n]?
  stored : ∃ totalShares, recordAt VaultState out 0 =
      some { vault with totalShares, totalAssets := nav } ∧
    totalShares.toNat = vault.totalShares.toNat + fee.toNat

theorem store_other {α : Type} [Borsh α] {accounts out : List AccountInfo} {i n : Nat} {v : α}
    (h : store accounts i v = .ok out) (hn : n ≠ i) : out[n]? = accounts[n]? := by
  obtain ⟨_, _, -, -, -, rfl⟩ := store_eq_ok h
  exact List.getElem?_set_ne hn.symm

section
variable {π : Profile} {accounts out : List AccountInfo} {th th' : Thread}

theorem report_call (h : Comp.Returns (Vault.report π accounts) th out th') :
    ∃ vault nav fee, Reported π accounts out vault nav fee := by
  obtain ⟨_, -, h₁⟩ := returns_lift h
  obtain ⟨_, -, h₂⟩ := returns_lift h₁
  obtain ⟨_, -, h₃⟩ := returns_lift h₂
  obtain ⟨vault, hload, h₄⟩ := returns_lift h₃
  obtain ⟨_, hinit, h₅⟩ := returns_lift h₄
  obtain ⟨_, -, h₆⟩ := returns_lift h₅
  obtain ⟨deployed, hdeployed, h₇⟩ := returns_lift h₆
  obtain ⟨idle, hidle, h₈⟩ := returns_lift h₇
  obtain ⟨nav, hnav, h₉⟩ := returns_lift h₈
  obtain ⟨fee, hfee, h₁₀⟩ := returns_lift h₉
  have hpriced : ∃ deployed idle, deployedValue π vault accounts = .ok deployed ∧
      balance accounts 2 = .ok idle ∧ checkedAdd idle deployed = some nav :=
    ⟨deployed, idle, hdeployed, hidle, okOr_eq_ok.mp hnav⟩
  split at h₁₀
  · rename_i hpos
    obtain ⟨minted, _, hmint, h₁₁⟩ := Comp.returns_bind.mp h₁₀
    obtain ⟨totalShares, htotal, h₁₂⟩ := returns_lift h₁₁
    obtain ⟨hstore, -⟩ := Comp.returns_ofExcept.mp h₁₂
    obtain ⟨_, _, _, _, _, _, hminted, -, -, hsupply, hcredited⟩ :=
      mintTo_call (by decide) (by decide) (by decide) hmint
    refine ⟨vault, nav, fee, recordAt_of_load hload, require_eq_ok.mp hinit, hpriced,
      orPanic_eq_ok.mp hfee, fun _ => ⟨?_, ?_⟩, fun hnot => absurd hpos hnot, totalShares,
      recordAt_stored hstore, checkedAdd_eq_some (okOr_eq_ok.mp htotal)⟩
    · exact Changed.congr rfl (recordAt_unstored hstore (by decide))
        (hminted.changed (by decide) ⟨rfl, hsupply⟩)
    · exact Changed.congr rfl (recordAt_unstored hstore (by decide))
        (hminted.changed' (by decide) ⟨rfl, hcredited⟩)
  · rename_i hzero
    obtain ⟨hstore, -⟩ := Comp.returns_ofExcept.mp h₁₀
    have hnone : fee.toNat = 0 := by
      have := UInt64.lt_iff_toNat_lt.not.mp hzero
      simpa using this
    refine ⟨vault, nav, fee, recordAt_of_load hload, require_eq_ok.mp hinit, hpriced,
      orPanic_eq_ok.mp hfee, fun hpos => absurd hpos hzero, fun _ n hn => store_other hstore hn,
      vault.totalShares, recordAt_stored hstore, by rw [hnone, Nat.add_zero]⟩

/-- Besides the vault, a report touches the share mint and what the manager holds of it. -/
theorem report_other {n : Nat} (h : Comp.Returns (Vault.report π accounts) th out th')
    (hn : n ∉ [3, 4, 0]) : out[n]? = accounts[n]? := by
  obtain ⟨_, -, h₁⟩ := returns_lift h
  obtain ⟨_, -, h₂⟩ := returns_lift h₁
  obtain ⟨_, -, h₃⟩ := returns_lift h₂
  obtain ⟨vault, -, h₄⟩ := returns_lift h₃
  obtain ⟨_, -, h₅⟩ := returns_lift h₄
  obtain ⟨_, -, h₆⟩ := returns_lift h₅
  obtain ⟨_, -, h₇⟩ := returns_lift h₆
  obtain ⟨_, -, h₈⟩ := returns_lift h₇
  obtain ⟨_, -, h₉⟩ := returns_lift h₈
  obtain ⟨_, -, h₁₀⟩ := returns_lift h₉
  have hfirst : n ≠ 0 := fun hzero => hn (by simp [hzero])
  split at h₁₀
  · obtain ⟨minted, _, hmint, h₁₁⟩ := Comp.returns_bind.mp h₁₀
    obtain ⟨_, -, h₁₂⟩ := returns_lift h₁₁
    obtain ⟨hstore, -⟩ := Comp.returns_ofExcept.mp h₁₂
    obtain ⟨_, -, hinvoke⟩ := returns_lift hmint
    rw [store_other hstore hfirst, invoke_other hinvoke hn]
  · obtain ⟨hstore, -⟩ := Comp.returns_ofExcept.mp h₁₀
    exact store_other hstore hfirst

end

/-! ## Moves to and from a market -/

/-- What a vault reads in a lender position. -/
theorem readLenderShares_recorded {accounts : List AccountInfo} {i : Nat} {shares : UInt64}
    {q : LenderPosition} (hq : recordAt LenderPosition accounts i = some q)
    (h : readLenderShares accounts i = .ok shares) : shares = q.shares := by
  obtain ⟨pos, hload, hret⟩ := bind_eq_ok.mp h
  obtain ⟨a, ha, hpos⟩ := loadOr_eq_ok hload
  obtain ⟨b, hb, hdec⟩ := recordAt_eq_some.mp hq
  obtain rfl : a = b := Option.some.inj (ha.symm.trans hb)
  rw [hdec, Option.getD_some] at hpos
  rw [← Except.ok.inj hret, hpos]

section
variable {π : Profile} {accounts out : List AccountInfo} {timestamp amount : UInt64}
  {ix : MoneyMarket.MoneyMarketInstruction} {th th' : Thread}

/-- A move that succeeded books what the lender position in slot 3 holds once the market has run. -/
theorem moveLiquidity_call
    (h : Comp.Returns (moveLiquidity π accounts timestamp amount ix) th out th') :
    ∃ vault mid lenderShares, recordAt VaultState accounts 0 = some vault ∧
      vault.isInitialized = true ∧ amount ≠ 0 ∧
      Comp.Returns (mmLiquidity π accounts [2, 3, 1, 4, 0] ix timestamp) th mid th' ∧
      readLenderShares mid 3 = .ok lenderShares ∧
      store mid 0 { vault with lenderShares } = .ok out := by
  obtain ⟨vault, hprologue, h₁⟩ := returns_lift h
  obtain ⟨mid, _, hmarket, h₂⟩ := Comp.returns_bind.mp h₁
  obtain ⟨lenderShares, hread, h₃⟩ := returns_lift h₂
  obtain ⟨hstore, rfl⟩ := Comp.returns_ofExcept.mp h₃
  obtain ⟨_, -, h₄⟩ := bind_eq_ok.mp hprologue
  obtain ⟨_, -, h₅⟩ := bind_eq_ok.mp h₄
  obtain ⟨_, -, h₆⟩ := bind_eq_ok.mp h₅
  obtain ⟨_, hamount, h₇⟩ := bind_eq_ok.mp h₆
  obtain ⟨v, hload, h₈⟩ := bind_eq_ok.mp h₇
  obtain ⟨_, hinit, h₉⟩ := bind_eq_ok.mp h₈
  obtain ⟨_, -, hret⟩ := bind_eq_ok.mp h₉
  obtain rfl := Except.ok.inj hret
  exact ⟨v, mid, lenderShares, recordAt_of_load hload, require_eq_ok.mp hinit,
    bne_iff_ne.mp (require_eq_ok.mp hamount), hmarket, hread, hstore⟩

end

end Proof
end Himsha
