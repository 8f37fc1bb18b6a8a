import Himsha.Proof.ProgramRuns
import Himsha.Proof.VaultCalls

/-!
# What a vault prices its shares on

A deposit, a withdrawal and a report each take the value of the vault from somewhere: from its idle
balance and its lender shares at the market that is passed, or, where a deposit or a withdrawal is
passed none, from the cached total. `nav_agrees_iff` says when two executions that differ in the
market agree. Since every call chooses for itself, a deposit can buy on the one basis and a
withdrawal redeem on the other: `round_trip_iff` says exactly when that pays.
-/

set_option autoImplicit false

namespace Himsha
namespace Proof

open Himsha.Lib Himsha.Runtime Himsha.Programs Himsha.Vm Token Vault
open MoneyMarket (MarketState LenderPosition lenderShareValue)

/-! ## Pricing shares -/

/-- Shares that are bought for `a` and redeemed at a basis that was `b` before: nothing is won
    exactly where, at that basis, they are not worth one unit more than `a`. -/
theorem redeem_le_iff {a T s b : Nat} (hT : 0 < T) :
    s * (b + a) / (T + s) ≤ a ↔ s * (b - 1) < (a + 1) * T := by
  have hpos : 0 < T + s := Nat.add_pos_left hT s
  rw [← Nat.lt_succ_iff, Nat.div_lt_iff_lt_mul hpos, Nat.succ_eq_add_one]
  have hleft : s * (b + a) = s * b + s * a := Nat.mul_add s b a
  have hright : (a + 1) * (T + s) = (a + 1) * T + (s * a + s) := by
    rw [Nat.mul_add, Nat.add_mul a 1 s, Nat.one_mul, Nat.mul_comm a s]
  cases b with
  | zero =>
    have hone : 0 < (a + 1) * T := Nat.mul_pos (Nat.succ_pos a) hT
    simp only [Nat.zero_sub, Nat.mul_zero, Nat.zero_add] at hleft ⊢
    omega
  | succ b =>
    have hsucc : s * (b + 1) = s * b + s := Nat.mul_succ s b
    rw [Nat.add_sub_cancel]
    omega

/-- Shares that were bought at no lower a basis are not worth more than was paid. -/
theorem bought_fair {a T s b₁ b₂ : Nat} (hT : 0 < T) (hs : s ≤ a * T / max b₁ 1)
    (hle : b₂ ≤ max b₁ 1) : s * (b₂ - 1) < (a + 1) * T := by
  calc s * (b₂ - 1) ≤ s * max b₁ 1 := Nat.mul_le_mul_left s (Nat.le_trans (Nat.sub_le _ _) hle)
    _ ≤ a * T / max b₁ 1 * max b₁ 1 := Nat.mul_le_mul_right _ hs
    _ ≤ a * T := Nat.div_mul_le_self _ _
    _ < (a + 1) * T := Nat.mul_lt_mul_of_pos_right (Nat.lt_succ_self a) hT

section
variable {π : Profile} {a b c r : UInt64}

theorem mulDiv_eq_some (h : mulDiv π a.toNat b.toNat c.toNat = some r) :
    r.toNat = a.toNat * b.toNat / c.toNat % 2 ^ 64 := by
  unfold mulDiv at h
  rw [mulU128_u64] at h
  simp only [Option.bind_eq_bind, Option.bind_some] at h
  obtain ⟨q, hq, hr⟩ := Option.bind_eq_some_iff.mp h
  unfold divU128 at hq
  split at hq
  · simp at hq
  · rw [Option.some.injEq] at hq
    cases hr
    rw [← hq]
    rfl

end

/-! ## The basis -/

/-- The market that a call is passed at `i`, which it looks at where the vault lends. -/
def marketAt (vault : VaultState) (accounts : List AccountInfo) (i : Nat) : Option MarketState :=
  if 0 < vault.lenderShares ∧ i < accounts.length then recordAt MarketState accounts i else none

/-- The value of a vault: with a market, `idle` and the lender shares; without, what is cached. -/
def basisOf (π : Profile) (vault : VaultState) (idle : UInt64) : Option MarketState → Option Nat
  | some market => (lenderShareValue π market vault.lenderShares).map (idle.toNat + ·.toNat)
  | none => some vault.totalAssets.toNat

section
variable {π : Profile} {vault : VaultState} {accounts : List AccountInfo} {nav : UInt64}
  {token : TokenAccountState}

theorem balance_eq_ok {i : Nat} {n : UInt64} (h : balance accounts i = .ok n) :
    ∃ token, recordAt TokenAccountState accounts i = some token ∧ token.amount = n := by
  obtain ⟨token, hload, hret⟩ := bind_eq_ok.mp h
  exact ⟨token, recordAt_of_load hload, Except.ok.inj hret⟩

theorem liveNav_basis (hidle : recordAt TokenAccountState accounts 2 = some token)
    (h : liveNav π vault accounts = .ok nav) :
    basisOf π vault token.amount (marketAt vault accounts 6) = some nav.toNat := by
  unfold liveNav at h
  unfold marketAt
  split at h
  · rename_i hpassed
    obtain ⟨market, hmarket, h₁⟩ := bind_eq_ok.mp h
    obtain ⟨idle, hbalance, h₂⟩ := bind_eq_ok.mp h₁
    obtain ⟨deployed, hdeployed, h₃⟩ := bind_eq_ok.mp h₂
    obtain ⟨token', htoken, rfl⟩ := balance_eq_ok hbalance
    obtain rfl : token = token' := Option.some.inj (hidle.symm.trans htoken)
    rw [if_pos ⟨hpassed.1, hpassed.2⟩, recordAt_of_load hmarket, basisOf,
      orPanic_eq_ok.mp hdeployed, Option.map_some, checkedAdd_eq_some (okOr_eq_ok.mp h₃)]
  · rename_i hnone
    rw [if_neg fun hboth => hnone ⟨hboth.1, hboth.2⟩, basisOf, Except.ok.inj h]

end

/-! ## Balances over a call -/

def balanceAt (accounts : List AccountInfo) (i : Nat) : Nat :=
  ((recordAt TokenAccountState accounts i).map (·.amount.toNat)).getD 0

/-- What the token account in slot `i` has more after a call than before. -/
def gainAt (accounts out : List AccountInfo) (i : Nat) : Nat :=
  balanceAt out i - balanceAt accounts i

theorem Received.gain {accounts out : List AccountInfo} {i n : Nat}
    (h : Received accounts out i n) : gainAt accounts out i = n := by
  obtain ⟨token, hbefore, token', hafter, -, hsum⟩ := h
  unfold gainAt balanceAt
  rw [Option.mem_def.mp hbefore, Option.mem_def.mp hafter]
  simp only [Option.map_some, Option.getD_some]
  omega

section
variable {π : Profile} {hasher : Lending.Hasher} {accounts out : List AccountInfo}
  {data : List UInt8} {timestamp : UInt64} {th th' : Thread}

/-- An instruction of the vault program runs, and the gate leaves every slot reading as it was
    left. -/
theorem vault_runs
    (h : Comp.Returns (dispatch π hasher ProgramIds.vaultProgram accounts data timestamp) th out
      th') :
    ∃ ix mid th₀ th₁, tryFromSlice data = some ix ∧
      Comp.Returns (Vault.run π accounts timestamp ix) th₀ mid th₁ ∧
      ∀ (α : Type) [Borsh α] (i : Nat), recordAt α out i = recordAt α mid i := by
  obtain ⟨ix, mid, th₀, th₁, hix, hrun, hdata⟩ := dispatch_runs (runBuiltin_vault _ _ _ _ _) h
  exact ⟨ix, mid, th₀, th₁, hix, hrun, fun _ _ _ => recordAt_data hdata⟩

/-- The same where the instruction is known. -/
theorem vault_returns {ix : VaultInstruction} (hix : tryFromSlice data = some ix)
    (h : Comp.Returns (dispatch π hasher ProgramIds.vaultProgram accounts data timestamp) th out
      th') :
    ∃ mid th₀ th₁, Comp.Returns (Vault.run π accounts timestamp ix) th₀ mid th₁ ∧
      ∀ (α : Type) [Borsh α] (i : Nat), recordAt α out i = recordAt α mid i := by
  obtain ⟨ix', mid, th₀, th₁, hix', hrun⟩ := vault_runs h
  obtain rfl : ix = ix' := Option.some.inj (hix.symm.trans hix')
  exact ⟨mid, th₀, th₁, hrun⟩

end

section
variable {π : Profile} {hasher : Lending.Hasher} {timestamp : UInt64}
  {accounts accounts' out out' : List AccountInfo} {data data' : List UInt8}
  {vault : VaultState} {th th₁ th' th₁' : Thread}

/-! ## A deposit and a withdrawal -/

/-- Shares bought for `amount` at the market `first` are not worth more than that at `second`. -/
def Fair (π : Profile) (vault : VaultState) (idle : UInt64) (first second : Option MarketState)
    (amount : UInt64) : Prop :=
  ∀ b₁ ∈ basisOf π vault idle first, ∀ b₂ ∈ basisOf π vault idle second,
    (amount.toNat * vault.totalShares.toNat / max b₁ 1 % 2 ^ 64) * (b₂ - 1) <
      (amount.toNat + 1) * vault.totalShares.toNat

/-- It is enough that the second basis is not the higher one, as when both are the same. -/
theorem fair_of_le {idle amount : UInt64} {first second : Option MarketState}
    (hlive : vault.totalShares ≠ 0)
    (hle : ∀ b₁ ∈ basisOf π vault idle first, ∀ b₂ ∈ basisOf π vault idle second, b₂ ≤ max b₁ 1) :
    Fair π vault idle first second amount := by
  intro b₁ hb₁ b₂ hb₂
  have hpos : 0 < vault.totalShares.toNat :=
    Nat.pos_of_ne_zero fun h => hlive (UInt64.toNat_inj.mp h)
  exact bought_fair hpos (Nat.mod_le _ _) (hle b₁ hb₁ b₂ hb₂)

/-- Once the vault has shares, a deposit grants its part of them. -/
theorem depositShares_later {nav amount shares delta : UInt64} (hlive : vault.totalShares ≠ 0)
    (h : depositShares π vault nav amount = .ok (shares, delta)) :
    shares.toNat = amount.toNat * vault.totalShares.toNat / max nav.toNat 1 % 2 ^ 64 ∧
      delta = shares := by
  unfold depositShares at h
  rw [if_neg hlive] at h
  obtain ⟨granted, hgranted, hret⟩ := bind_eq_ok.mp h
  cases hret
  rw [show max nav.toNat 1 = (max nav 1).toNat from (toNat_max nav 1).symm]
  exact ⟨mulDiv_eq_some (orPanic_eq_ok.mp hgranted), rfl⟩

/-- What was deposited is added to either basis. -/
theorem basisOf_later (before after : VaultState) {idle idle' amount : UInt64}
    {m : Option MarketState} {b : Nat} (hlender : after.lenderShares = before.lenderShares)
    (hassets : after.totalAssets.toNat = before.totalAssets.toNat + amount.toNat)
    (hidle : idle'.toNat = idle.toNat + amount.toNat) (h : basisOf π after idle' m = some b) :
    ∃ b₂, basisOf π before idle m = some b₂ ∧ b = b₂ + amount.toNat := by
  cases m with
  | none =>
    refine ⟨before.totalAssets.toNat, rfl, ?_⟩
    rw [← hassets]
    exact (Option.some.inj h).symm
  | some market =>
    simp only [basisOf, hlender] at h ⊢
    obtain ⟨value, hvalue, rfl⟩ := Option.map_eq_some_iff.mp h
    refine ⟨idle.toNat + value.toNat, by rw [hvalue, Option.map_some], ?_⟩
    omega

/-- **When a round trip pays.** A deposit, and next a withdrawal of the shares it minted, each with
    the market or without: what comes out is at most what went in exactly where the basis of the
    withdrawal is fair to that of the deposit. -/
theorem round_trip_iff {amount least shares least' : UInt64} {token : TokenAccountState}
    (hdata : tryFromSlice data = some (VaultInstruction.deposit amount least))
    (hdata' : tryFromSlice data' = some (VaultInstruction.withdraw shares least'))
    (hvault : recordAt VaultState accounts 0 = some vault) (hlive : vault.totalShares ≠ 0)
    (hidle : recordAt TokenAccountState accounts 2 = some token)
    (hdeposit : Comp.Returns
      (dispatch π hasher ProgramIds.vaultProgram accounts data timestamp) th out th₁)
    -- The withdrawal goes on from what the deposit left.
    (hnext : recordAt VaultState accounts' 0 = recordAt VaultState out 0)
    (hnext' : recordAt TokenAccountState accounts' 2 = recordAt TokenAccountState out 2)
    (hshares : shares.toNat = gainAt accounts out 3)
    (hwithdraw : Comp.Returns
      (dispatch π hasher ProgramIds.vaultProgram accounts' data' timestamp) th' out' th₁') :
    gainAt accounts' out' 1 ≤ amount.toNat ↔
      Fair π vault token.amount (marketAt vault accounts 6) (marketAt vault accounts' 6) amount := by
  obtain ⟨mid, _, _, hrun, hread⟩ := vault_returns hdata hdeposit
  obtain ⟨mid', _, _, hrun', hread'⟩ := vault_returns hdata' hwithdraw
  obtain ⟨v, nav, granted, delta, hdone⟩ := deposit_call hrun
  obtain ⟨v', nav', assets, hdone'⟩ := withdraw_call hrun'
  obtain rfl : vault = v := Option.some.inj (hvault.symm.trans hdone.held)
  obtain ⟨hgranted, rfl⟩ := depositShares_later hlive hdone.granted
  -- What the deposit minted, and what the withdrawal paid.
  have hminted : gainAt accounts out 3 = delta.toNat :=
    Received.gain (hdone.credited.congr rfl (hread _ 3))
  have hpaid : gainAt accounts' out' 1 = assets.toNat :=
    Received.gain (hdone'.received.congr rfl (hread' _ 1))
  -- The vault that the withdrawal finds.
  obtain ⟨totalAssets, totalShares, hstored, hassets, htotal⟩ := hdone.stored
  obtain rfl : { vault with totalAssets, totalShares } = v' := by
    have hfound := hdone'.held
    rw [hnext, hread, hstored] at hfound
    exact Option.some.inj hfound
  obtain ⟨token', htoken, hsum⟩ : ∃ token', recordAt TokenAccountState accounts' 2 = some token' ∧
      token'.amount.toNat = token.amount.toNat + amount.toNat := by
    obtain ⟨before, hbefore, after, hafter, -, hsum⟩ := hdone.received
    obtain rfl : token = before := Option.some.inj (hidle.symm.trans hbefore)
    exact ⟨after, by rw [hnext', hread]; exact hafter, hsum⟩
  have hfirst := liveNav_basis hidle hdone.priced
  obtain ⟨b₂, hsecond, hnav'⟩ := basisOf_later vault
    { vault with totalAssets, totalShares } rfl hassets hsum
    (liveNav_basis htoken hdone'.priced)
  have hsame : marketAt { vault with totalAssets, totalShares } accounts' 6 =
      marketAt vault accounts' 6 := rfl
  rw [hsame] at hsecond
  have hredeemed := mulDiv_eq_some hdone'.granted
  have hpos : 0 < vault.totalShares.toNat :=
    Nat.pos_of_ne_zero fun h => hlive (UInt64.toNat_inj.mp h)
  have hfits : shares.toNat * nav'.toNat / totalShares.toNat < 2 ^ 64 := by
    refine Nat.lt_of_le_of_lt (Nat.div_le_of_le_mul ?_) nav'.toNat_lt
    exact Nat.mul_le_mul_right _ (by omega)
  rw [Nat.mod_eq_of_lt hfits, hnav', show totalShares.toNat =
    vault.totalShares.toNat + shares.toNat by omega] at hredeemed
  rw [hpaid, hredeemed, redeem_le_iff hpos, hshares, hminted, hgranted]
  unfold Fair
  rw [hfirst, hsecond]
  simp only [Option.mem_def, Option.some.injEq, forall_eq']

/-! ## Two executions -/

/-- The instructions that price something on the value of the vault. -/
inductive Pricing where
  | deposit (amount least : UInt64)
  | withdraw (shares least : UInt64)
  | report
deriving DecidableEq

namespace Pricing

def instruction : Pricing → VaultInstruction
  | .deposit amount least => .deposit amount least
  | .withdraw shares least => .withdraw shares least
  | .report => .report

/-- The slot of the market. -/
def market : Pricing → Nat
  | .deposit _ _ | .withdraw _ _ => 6
  | .report => 5

/-- The slot of the token account that gets what is minted or paid. -/
def recipient : Pricing → Nat
  | .deposit _ _ => 3
  | .withdraw _ _ => 1
  | .report => 4

/-- The value of the vault that the instruction goes by. -/
def basis (π : Profile) (vault : VaultState) (accounts : List AccountInfo) :
    Pricing → Outcome UInt64
  | .deposit _ _ | .withdraw _ _ => liveNav π vault accounts
  | .report => do
      let deployed ← deployedValue π vault accounts
      let idle ← balance accounts 2
      okOr .overflow (checkedAdd idle deployed)

end Pricing

/-- What the vault is worth with its lender shares at the market in slot `i`. -/
def liveTotal (π : Profile) (vault : VaultState) (accounts : List AccountInfo) (i : Nat) :
    Option Nat := do
  let token ← recordAt TokenAccountState accounts 2
  basisOf π vault token.amount (some (← recordAt MarketState accounts i))

/-- Where two lists both pass a market at `i`, the lender shares are worth the same there. -/
def SameValue (π : Profile) (vault : VaultState) (accounts accounts' : List AccountInfo)
    (i : Nat) : Prop :=
  0 < vault.lenderShares → i < accounts.length → i < accounts'.length →
    liveTotal π vault accounts i = liveTotal π vault accounts' i

instance (π : Profile) (vault : VaultState) (accounts accounts' : List AccountInfo) (i : Nat) :
    Decidable (SameValue π vault accounts accounts' i) :=
  inferInstanceAs (Decidable (_ → _))

/-- Both pass a market or neither does, or it makes no difference because nothing is lent or
    because the cached total is what the one with the market finds. -/
def SameBasis (π : Profile) (vault : VaultState) (accounts accounts' : List AccountInfo)
    (i : Nat) : Prop :=
  ¬ 0 < vault.lenderShares ∨ (i < accounts.length ↔ i < accounts'.length) ∨
    liveTotal π vault (if i < accounts.length then accounts else accounts') i =
      some vault.totalAssets.toNat

end

section
variable {π : Profile} {vault : VaultState} {accounts accounts' : List AccountInfo}
  {nav nav' : UInt64} {p : Pricing}

/-- Without a market a deposit and a withdrawal go by the cached total, and a report by the idle
    balance of a vault that does not lend. -/
def withoutMarket (vault : VaultState) (accounts : List AccountInfo) : Pricing → Nat
  | .deposit _ _ | .withdraw _ _ => vault.totalAssets.toNat
  | .report => balanceAt accounts 2

theorem withoutMarket_eq (h : p ≠ .report) :
    withoutMarket vault accounts p = vault.totalAssets.toNat := by
  cases p with
  | deposit amount least => rfl
  | withdraw shares least => rfl
  | report => exact absurd rfl h

theorem balanceAt_of_balance {i : Nat} {n : UInt64} (h : balance accounts i = .ok n) :
    balanceAt accounts i = n.toNat := by
  obtain ⟨token, htoken, rfl⟩ := balance_eq_ok h
  unfold balanceAt
  rw [htoken]
  rfl

/-- An account list that passes a market prices the shares at it. -/
theorem liveTotal_of_loads {market : MarketState} {idle deployed : UInt64} {i : Nat}
    (hmarket : load accounts i = .ok market) (hidle : balance accounts 2 = .ok idle)
    (hdeployed : lenderShareValue π market vault.lenderShares = some deployed) :
    liveTotal π vault accounts i = some (idle.toNat + deployed.toNat) := by
  obtain ⟨token, htoken, rfl⟩ := balance_eq_ok hidle
  unfold liveTotal
  simp only [Option.bind_eq_bind]
  rw [htoken, Option.bind_some, recordAt_of_load hmarket, Option.bind_some, basisOf, hdeployed,
    Option.map_some]

theorem liveNav_cases (h : liveNav π vault accounts = .ok nav) :
    (0 < vault.lenderShares ∧ 6 < accounts.length ∧
        liveTotal π vault accounts 6 = some nav.toNat) ∨
      (¬ 0 < vault.lenderShares ∨ ¬ 6 < accounts.length) ∧
        nav.toNat = vault.totalAssets.toNat := by
  unfold liveNav at h
  split at h
  · rename_i hpassed
    obtain ⟨market, hmarket, h₁⟩ := bind_eq_ok.mp h
    obtain ⟨idle, hidle, h₂⟩ := bind_eq_ok.mp h₁
    obtain ⟨deployed, hdeployed, h₃⟩ := bind_eq_ok.mp h₂
    left
    refine ⟨hpassed.1, hpassed.2, ?_⟩
    rw [liveTotal_of_loads hmarket hidle (orPanic_eq_ok.mp hdeployed),
      checkedAdd_eq_some (okOr_eq_ok.mp h₃)]
  · rename_i hnone
    right
    exact ⟨Decidable.not_and_iff_or_not.mp hnone, congrArg UInt64.toNat (Except.ok.inj h).symm⟩

/-- Where a basis comes from. -/
theorem basis_cases (h : p.basis π vault accounts = .ok nav) :
    (0 < vault.lenderShares ∧ p.market < accounts.length ∧
        liveTotal π vault accounts p.market = some nav.toNat) ∨
      (¬ 0 < vault.lenderShares ∨ ¬ p.market < accounts.length ∧ p ≠ .report) ∧
        nav.toNat = withoutMarket vault accounts p := by
  cases p with
  | deposit amount least =>
    refine (liveNav_cases h).imp_right fun hcached => ⟨hcached.1.imp_right fun hlen => ?_, hcached.2⟩
    exact ⟨hlen, nofun⟩
  | withdraw shares least =>
    refine (liveNav_cases h).imp_right fun hcached => ⟨hcached.1.imp_right fun hlen => ?_, hcached.2⟩
    exact ⟨hlen, nofun⟩
  | report =>
    obtain ⟨deployed, hdeployed, h₁⟩ := bind_eq_ok.mp h
    obtain ⟨idle, hidle, h₂⟩ := bind_eq_ok.mp h₁
    have hsum := checkedAdd_eq_some (okOr_eq_ok.mp h₂)
    unfold deployedValue at hdeployed
    split at hdeployed
    · rename_i hlends
      obtain ⟨_, hlen, h₃⟩ := bind_eq_ok.mp hdeployed
      obtain ⟨market, hmarket, h₄⟩ := bind_eq_ok.mp h₃
      left
      refine ⟨hlends, of_decide_eq_true (require_eq_ok.mp hlen), ?_⟩
      rw [Pricing.market, liveTotal_of_loads hmarket hidle (orPanic_eq_ok.mp h₄), hsum]
    · rename_i hidles
      right
      refine ⟨.inl hidles, ?_⟩
      cases hdeployed
      rw [hsum, withoutMarket, balanceAt_of_balance hidle]
      rfl

/-- Two executions go by the same value exactly where they are on the same basis. -/
theorem basis_eq_iff (hidle : balanceAt accounts 2 = balanceAt accounts' 2)
    (hvalue : SameValue π vault accounts accounts' p.market)
    (h : p.basis π vault accounts = .ok nav) (h' : p.basis π vault accounts' = .ok nav') :
    nav = nav' ↔ SameBasis π vault accounts accounts' p.market := by
  unfold SameBasis
  rw [← UInt64.toNat_inj]
  rcases basis_cases h with ⟨hlends, hlen, hlive⟩ | ⟨hnone, hcached⟩
  · rcases basis_cases h' with ⟨-, hlen', hlive'⟩ | ⟨hnone', hcached'⟩
    · refine iff_of_true ?_ (.inr (.inl (iff_of_true hlen hlen')))
      exact Option.some.inj (hlive.symm.trans ((hvalue hlends hlen hlen').trans hlive'))
    · -- Only the first passes a market.
      obtain ⟨hlen', hreport⟩ := hnone'.resolve_left (not_not_intro hlends)
      rw [if_pos hlen, hlive, Option.some.injEq, hcached', withoutMarket_eq hreport]
      constructor
      · intro heq
        exact .inr (.inr heq)
      · rintro (hnot | hboth | heq)
        · exact absurd hlends hnot
        · exact absurd (hboth.mp hlen) hlen'
        · exact heq
  · rcases basis_cases h' with ⟨hlends, hlen', hlive'⟩ | ⟨hnone', hcached'⟩
    · -- Only the second does.
      obtain ⟨hlen, hreport⟩ := hnone.resolve_left (not_not_intro hlends)
      rw [if_neg hlen, hlive', Option.some.injEq, hcached, withoutMarket_eq hreport]
      constructor
      · intro heq
        exact .inr (.inr heq.symm)
      · rintro (hnot | hboth | heq)
        · exact absurd hlends hnot
        · exact absurd (hboth.mpr hlen') hlen
        · exact heq.symm
    · have hsame : withoutMarket vault accounts p = withoutMarket vault accounts' p := by
        cases p with
        | deposit amount least => rfl
        | withdraw shares least => rfl
        | report => exact hidle
      refine iff_of_true (hcached.trans (hsame.trans hcached'.symm)) ?_
      rcases hnone with hidles | ⟨hlen, -⟩
      · exact .inl hidles
      · rcases hnone' with hidles | ⟨hlen', -⟩
        · exact .inl hidles
        · exact .inr (.inl (iff_of_false hlen hlen'))

end

/-! ## What two executions give -/

section
variable {π : Profile} {hasher : Lending.Hasher} {timestamp : UInt64}
  {accounts accounts' out out' : List AccountInfo} {data : List UInt8}
  {vault : VaultState} {th th₁ th' th₁' : Thread} {p : Pricing}

/-- The amount that is minted or paid, given the value of the vault. -/
def Pricing.amount (π : Profile) (vault : VaultState) (nav : UInt64) : Pricing → Outcome UInt64
  | .deposit amount _ => (depositShares π vault nav amount).map (·.1)
  | .withdraw shares _ =>
      orPanic (mulDiv π shares.toNat nav.toNat vault.totalShares.toNat)
  | .report => orPanic (feeShares π vault nav (saturatingSub nav vault.totalAssets))

/-- An execution goes by its basis, and gives what that comes to. -/
theorem pricing_gives (hdata : tryFromSlice data = some p.instruction)
    (hvault : recordAt VaultState accounts 0 = some vault)
    (h : Comp.Returns (dispatch π hasher ProgramIds.vaultProgram accounts data timestamp) th out
      th₁) :
    ∃ nav amount, p.basis π vault accounts = .ok nav ∧ p.amount π vault nav = .ok amount ∧
      gainAt accounts out p.recipient = amount.toNat := by
  obtain ⟨mid, _, _, hrun, hread⟩ := vault_returns hdata h
  cases p with
  | deposit amount least =>
    obtain ⟨v, nav, shares, delta, hdone⟩ := deposit_call hrun
    obtain rfl : vault = v := Option.some.inj (hvault.symm.trans hdone.held)
    have hamount : (depositShares π vault nav amount).map (·.1) = .ok shares := by
      rw [hdone.granted]
      rfl
    exact ⟨nav, shares, hdone.priced, hamount,
      Received.gain (hdone.credited.congr rfl (hread _ 3))⟩
  | withdraw shares least =>
    obtain ⟨v, nav, assets, hdone⟩ := withdraw_call hrun
    obtain rfl : vault = v := Option.some.inj (hvault.symm.trans hdone.held)
    exact ⟨nav, assets, hdone.priced, orPanic_eq_ok.mpr hdone.granted,
      Received.gain (hdone.received.congr rfl (hread _ 1))⟩
  | report =>
    obtain ⟨v, nav, fee, hdone⟩ := report_call hrun
    obtain rfl : vault = v := Option.some.inj (hvault.symm.trans hdone.held)
    obtain ⟨deployed, idle, hdeployed, hidle, hsum⟩ := hdone.priced
    refine ⟨nav, fee, ?_, orPanic_eq_ok.mpr hdone.granted, ?_⟩
    · exact bind_eq_ok.mpr ⟨deployed, hdeployed, bind_eq_ok.mpr ⟨idle, hidle, okOr_eq_ok.mpr hsum⟩⟩
    · by_cases hfee : 0 < fee
      · exact Received.gain ((hdone.issued hfee).2.congr rfl (hread _ 4))
      · -- No fee is minted, and nothing is written to the manager's slot.
        have hnone : fee.toNat = 0 := by
          have hle := UInt64.lt_iff_toNat_lt.not.mp hfee
          simpa using hle
        have hkept : balanceAt out 4 = balanceAt accounts 4 := by
          unfold balanceAt
          rw [hread, recordAt_congr (hdone.kept hfee 4 (by decide))]
        rw [Pricing.recipient, gainAt, hkept, Nat.sub_self, hnone]

/-- **Which executions price alike.** Two successful executions of one deposit, withdrawal or
    report, on the same vault with the same idle balance, whose markets put the same value on the
    lender shares: they go by the same value of the vault exactly where they are on the same basis,
    and then mint or pay the same amount. -/
theorem nav_agrees_iff (hdata : tryFromSlice data = some p.instruction)
    (hvault : recordAt VaultState accounts 0 = some vault)
    (hvault' : recordAt VaultState accounts' 0 = some vault)
    (hidle : balanceAt accounts 2 = balanceAt accounts' 2)
    (hvalue : SameValue π vault accounts accounts' p.market)
    (h : Comp.Returns (dispatch π hasher ProgramIds.vaultProgram accounts data timestamp) th out
      th₁)
    (h' : Comp.Returns (dispatch π hasher ProgramIds.vaultProgram accounts' data timestamp) th' out'
      th₁') :
    ∃ nav nav', p.basis π vault accounts = .ok nav ∧ p.basis π vault accounts' = .ok nav' ∧
      (nav = nav' ↔ SameBasis π vault accounts accounts' p.market) ∧
      (nav = nav' → gainAt accounts out p.recipient = gainAt accounts' out' p.recipient) := by
  obtain ⟨nav, amount, hbasis, hamount, hgain⟩ := pricing_gives hdata hvault h
  obtain ⟨nav', amount', hbasis', hamount', hgain'⟩ := pricing_gives hdata hvault' h'
  refine ⟨nav, nav', hbasis, hbasis', basis_eq_iff hidle hvalue hbasis hbasis', fun hnav => ?_⟩
  subst hnav
  have heq : amount = amount' := Except.ok.inj (hamount.symm.trans hamount')
  rw [hgain, hgain', heq]

end

/-! ## A stale cache -/

/-- A vault that has 1000 idle and 1000 lender shares, booked at 2000. -/
def staleVault : VaultState where
  assetMint := .repeated 8
  shareMint := .repeated 4
  assetVault := .repeated 2
  manager := .repeated 9
  totalAssets := 2000
  lenderShares := 1000
  totalShares := 2000
  isInitialized := true

/-- A market whose lender shares have grown to 1.2 of what was lent. -/
def grownMarket (shares : UInt64) : MarketState where
  totalCash := shares / 5 * 6
  totalLenderShares := shares
  isInitialized := true

def marketAccount (shares : UInt64) : AccountInfo where
  key := .repeated 6
  lamports := 1
  data := (toVec (grownMarket shares)).getD []
  owner := ProgramIds.moneyMarketProgram

def tokensAt (key mint : Pubkey) (amount : UInt64) : AccountInfo where
  key := key
  lamports := 1
  data := (toVec ({ mint, amount, state := .initialized } : TokenAccountState)).getD []
  owner := ProgramIds.tokenProgram

/-- The accounts of a depositor with 1000, without a market. -/
def depositAccounts : List AccountInfo :=
  [{ key := .repeated 0, lamports := 1, data := (toVec staleVault).getD []
     owner := ProgramIds.vaultProgram },
    tokensAt (.repeated 1) (.repeated 8) 1000, tokensAt (.repeated 2) (.repeated 8) 1000,
    tokensAt (.repeated 3) (.repeated 4) 0,
    { key := .repeated 4, lamports := 1
      data := (toVec ({ mintAuthority := some (.repeated 0), supply := 1000
                        isInitialized := true } : MintState)).getD []
      owner := ProgramIds.tokenProgram },
    { key := .repeated 5, lamports := 0, data := [], owner := ProgramIds.systemProgram
      isSigner := true, isWritable := false }]

def depositThousand : List UInt8 := (toVec (VaultInstruction.deposit 1000 0)).getD []

def withdrawThousand : List UInt8 := (toVec (VaultInstruction.withdraw 1000 0)).getD []

def runVault (accounts : List AccountInfo) (data : List UInt8) :
    Except Fault (List AccountInfo) × Thread :=
  Comp.exec (dispatch .dev .sorted ProgramIds.vaultProgram accounts data 0) {}

/-- What a call leaves. -/
def leftBy (accounts : List AccountInfo) (data : List UInt8) : List AccountInfo :=
  (runVault accounts data).1.toOption.getD []

theorem eq_ok_of_isOk {ε α : Type} {x : Except ε α} {d : α} (h : x.isOk = true) :
    x = .ok (x.toOption.getD d) := by
  obtain ⟨a, rfl⟩ := exists_of_isOk h
  rfl

theorem runVault_eq {accounts : List AccountInfo} {data : List UInt8}
    (h : (runVault accounts data).1.isOk = true) :
    (runVault accounts data).1 = .ok (leftBy accounts data) :=
  eq_ok_of_isOk h

/-- The accounts of a depositor who passes the market. -/
def withMarket (shares : UInt64) : List AccountInfo := depositAccounts ++ [marketAccount shares]

/-- Two deposits at different markets of one rate. -/
theorem nav_agrees_deposit : ∃ nav nav',
    (Pricing.deposit 1000 0).basis .dev staleVault (withMarket 5000) = .ok nav ∧
    (Pricing.deposit 1000 0).basis .dev staleVault (withMarket 10000) = .ok nav' ∧
    nav = nav' := by
  have hdata : tryFromSlice depositThousand = some (Pricing.deposit 1000 0).instruction := by
    decide
  have hvault : recordAt VaultState (withMarket 5000) 0 = some staleVault := by decide +kernel
  have hvalue : SameValue .dev staleVault (withMarket 5000) (withMarket 10000) 6 := by
    decide +kernel
  obtain ⟨nav, nav', hnav, hnav', hiff, -⟩ := nav_agrees_iff hdata hvault (by decide +kernel)
    (by decide +kernel) hvalue (Comp.returns_of_ok (runVault_eq (by decide +kernel)))
    (Comp.returns_of_ok (runVault_eq (by decide +kernel)))
  exact ⟨nav, nav', hnav, hnav', hiff.mpr (.inr (.inl (by decide)))⟩

/-- **With and without the market.** The basis is the caller's choice. -/
theorem nav_chosen : ¬ ∀ (π : Profile) (hasher : Lending.Hasher) (p : Pricing)
    (vault : VaultState) (accounts accounts' out out' : List AccountInfo) (data : List UInt8)
    (timestamp : UInt64) (nav nav' : UInt64), tryFromSlice data = some p.instruction →
      (∀ n, n ≠ p.market → accounts[n]? = accounts'[n]?) →
      recordAt VaultState accounts 0 = some vault →
      (Comp.exec (dispatch π hasher ProgramIds.vaultProgram accounts data timestamp) {}).1 =
        .ok out →
      (Comp.exec (dispatch π hasher ProgramIds.vaultProgram accounts' data timestamp) {}).1 =
        .ok out' →
      p.basis π vault accounts = .ok nav → p.basis π vault accounts' = .ok nav' →
      nav = nav' := by
  intro hclaim
  have heq := hclaim .dev .sorted (.deposit 1000 0) staleVault depositAccounts
    (withMarket 5000) _ _ depositThousand 0 _ _
    (by decide +kernel) ?_ (by decide +kernel) (runVault_eq (by decide +kernel))
    (runVault_eq (by decide +kernel)) (eq_ok_of_isOk (d := 0) (by decide +kernel))
    (eq_ok_of_isOk (d := 0) (by decide +kernel))
  · exact absurd heq (by decide +kernel)
  · intro n hn
    rcases Nat.lt_or_ge n 6 with hlt | hge
    · exact (List.getElem?_append_left (by exact hlt)).symm
    · have hlt : 6 < n := Nat.lt_of_le_of_ne hge (Ne.symm hn)
      rw [List.getElem?_eq_none (by exact hge), List.getElem?_eq_none (by exact hlt)]

def withdrawLive : List UInt8 := (toVec (VaultInstruction.withdraw 909 0)).getD []

/-- A round trip on the live basis. -/
theorem round_trip_live : gainAt (leftBy (withMarket 5000) depositThousand)
    (leftBy (leftBy (withMarket 5000) depositThousand) withdrawLive) 1 ≤ 1000 := by
  have hdata : tryFromSlice depositThousand = some (VaultInstruction.deposit 1000 0) := by
    decide
  have hdata' : tryFromSlice withdrawLive = some (VaultInstruction.withdraw 909 0) := by
    decide
  have hvault : recordAt VaultState (withMarket 5000) 0 = some staleVault := by decide +kernel
  have hidle : recordAt TokenAccountState (withMarket 5000) 2 =
      some { mint := .repeated 8, amount := 1000, state := .initialized } := by
    decide
  have hdeposit : (runVault (withMarket 5000) depositThousand).1 =
      .ok (leftBy (withMarket 5000) depositThousand) := runVault_eq (by decide +kernel)
  refine (round_trip_iff hdata hdata' hvault (by decide) hidle (Comp.returns_of_ok hdeposit) rfl rfl
    (by decide +kernel) (Comp.returns_of_ok (runVault_eq (by decide +kernel)))).mpr ?_
  exact fair_of_le (by decide) (by decide +kernel)

/-- **Bought stale, redeemed live.** -/
theorem round_trip_profits : ¬ ∀ (π : Profile) (hasher : Lending.Hasher) (vault : VaultState)
    (accounts accounts' out out' : List AccountInfo) (data data' : List UInt8)
    (timestamp amount least shares least' : UInt64),
      tryFromSlice data = some (VaultInstruction.deposit amount least) →
      tryFromSlice data' = some (VaultInstruction.withdraw shares least') →
      recordAt VaultState accounts 0 = some vault → vault.totalShares ≠ 0 →
      (Comp.exec (dispatch π hasher ProgramIds.vaultProgram accounts data timestamp) {}).1 =
        .ok out →
      (∀ n, n < 6 → accounts'[n]? = out[n]?) →
      (∀ n, 6 ≤ n → n < accounts.length → n < accounts'.length → accounts'[n]? = out[n]?) →
      shares.toNat = gainAt accounts out 3 →
      (Comp.exec (dispatch π hasher ProgramIds.vaultProgram accounts' data' timestamp) {}).1 =
        .ok out' →
      gainAt accounts' out' 1 ≤ amount.toNat := by
  intro hclaim
  have hle := hclaim .dev .sorted staleVault depositAccounts
    (leftBy depositAccounts depositThousand ++ [marketAccount 5000]) _ _ depositThousand
    withdrawThousand 0 1000 0 1000 0 (by decide +kernel) (by decide +kernel) (by decide +kernel)
    (by decide) (runVault_eq (by decide +kernel)) ?_ ?_ (by decide +kernel)
    (runVault_eq (by decide +kernel))
  · exact absurd hle (by decide +kernel)
  · intro n hn
    have hlen : (leftBy depositAccounts depositThousand).length = 6 := by decide +kernel
    rw [List.getElem?_append_left (by omega)]
  · intro n hge hlt
    have hlen : depositAccounts.length = 6 := rfl
    omega

end Proof
end Himsha
