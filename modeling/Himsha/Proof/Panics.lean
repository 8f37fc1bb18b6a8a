import Himsha.Proof.CalmCalls
import Himsha.Proof.MarketMath

/-!
# Where a built-in panics

The money market and the vault panic only before they invoke anything, except where the vault
invokes the money market, so what each needs in order to be calm can be said of the accounts it is
given (`MoneyMarketSafe`, `VaultSafe`). With the conditions of the simple built-ins this is
`Safe`, and `dispatch_calm` says that it is all that is needed.
-/

set_option autoImplicit false

namespace Himsha
namespace Proof

open Himsha.Lib Himsha.Runtime Himsha.Programs Himsha.Vm
open MoneyMarket (MarketState Position LenderPosition MoneyMarketInstruction)

/-- The account is there and signed. -/
def Signed (accounts : List AccountInfo) (i : Nat) : Prop :=
  ∃ a, accounts[i]? = some a ∧ a.isSigner = true

/-! ## The market -/

/-- The market, if it can be worked on. -/
def openMarket (accounts : List AccountInfo) : Option MarketState :=
  (heldAt accounts 0).filter (·.isInitialized)

/-- The market as an instruction works on it. -/
def accrued (accounts : List AccountInfo) (timestamp : UInt64) : Option MarketState :=
  (openMarket accounts).bind (MoneyMarket.accrueMarket .dev · timestamp)

/-- The interest on an open market fits. -/
def MarketFits (accounts : List AccountInfo) (timestamp : UInt64) : Prop :=
  ∀ m, openMarket accounts = some m → AccrualFits m timestamp

/-- The position at the second slot, where an instruction goes on with it: a record that is not
    initialised is taken over, another has to be of this market and, where the instruction takes
    something out, of this user. -/
def Usable (accounts : List AccountInfo) (owned : Bool) (pos : Position) : Prop :=
  pos = (heldAt accounts 1).getD {} ∧ (pos.isInitialized = true →
    (∃ market, accounts[0]? = some market ∧ pos.market = market.key) ∧
    (owned = true → ∃ user, accounts[4]? = some user ∧ pos.owner = user.key))

/-- The market's interest and the position's fit, and so does what the instruction computes from
    the collateral and the debt. -/
def PositionSafe (accounts : List AccountInfo) (timestamp : UInt64) (owned : Bool)
    (next : MarketState → UInt64 → UInt64 → Prop) : Prop :=
  Signed accounts 4 → MarketFits accounts timestamp ∧ ∀ m, accrued accounts timestamp = some m →
    ∀ pos, Usable accounts owned pos → PositionFits pos m.borrowIndex ∧
      next m pos.collateral (accruedDebt pos m.borrowIndex)

/-- The price is there and not too old. -/
def PriceFresh (m : MarketState) (now : UInt64) : Prop :=
  m.price ≠ 0 ∧ saturatingSub now m.priceUpdatedAt ≤ m.maxPriceStaleness

/-- What a liquidation computes fits. -/
def LiquidationSafe (accounts : List AccountInfo) (timestamp amount : UInt64) : Prop :=
  Signed accounts 6 → MarketFits accounts timestamp ∧ ∀ m, accrued accounts timestamp = some m →
    ∀ pos : Position, heldAt accounts 1 = some pos → pos.isInitialized = true →
      (∃ market, accounts[0]? = some market ∧ pos.market = market.key) →
      PositionFits pos m.borrowIndex ∧ (PriceFresh m timestamp → ThresholdFits m pos.collateral ∧
        (OverThreshold m pos.collateral (accruedDebt pos m.borrowIndex) →
          ∀ most,
            MoneyMarket.maxLiquidationRepay .dev m (accruedDebt pos m.borrowIndex) = some most →
              min amount most ≠ 0 → SeizureFits m (min amount most)))

/-- The products of `u128` values fit, as far as the instruction gets to them. -/
def MoneyMarketSafe (accounts : List AccountInfo) (timestamp : UInt64) :
    MoneyMarketInstruction → Prop
  | .initMarket _ | .syncPrice => True
  | .addLiquidity amount | .removeLiquidity amount =>
      Signed accounts 4 → amount ≠ 0 → MarketFits accounts timestamp
  | .supply _ | .repay _ => PositionSafe accounts timestamp false fun _ _ _ => True
  | .withdraw amount => PositionSafe accounts timestamp true fun m collateral _ =>
      PriceFresh m timestamp → amount ≤ collateral → PowerFits m (collateral - amount)
  | .borrow amount => PositionSafe accounts timestamp true fun m collateral debt =>
      PriceFresh m timestamp → debt.toNat + amount.toNat < 2 ^ 64 → PowerFits m collateral
  | .liquidate amount => LiquidationSafe accounts timestamp amount

section
variable {α β : Type} {accounts : List AccountInfo} {timestamp amount : UInt64} {th : Thread}

theorem calm_requireSigner_bind {a : AccountInfo} {f : Unit → Outcome β} :
    Calm (a.requireSigner >>= f) ↔ (a.isSigner = true → Calm (f ())) := calm_require_bind

/-- How most instructions begin. -/
theorem calm_signed_bind {i : Nat} {e : ProgramError} {f : AccountInfo → Outcome β} {P : Prop}
    (hf : ∀ a, accounts[i]? = some a → (Calm (f a) ↔ P)) :
    Calm (require (decide (i + 1 ≤ accounts.length)) e >>= fun _ =>
        slot accounts i >>= fun a => a.requireSigner >>= fun _ => f a) ↔
      (Signed accounts i → P) := by
  rw [calm_require_bind, decide_eq_true_eq]
  constructor
  · rintro h ⟨a, ha, hsigned⟩
    have hcalm := h (List.getElem?_eq_some_iff.mp ha).1
    rw [calm_slot_known ha, calm_requireSigner_bind] at hcalm
    exact (hf a ha).mp (hcalm hsigned)
  · intro h hlen
    have ha := List.getElem?_eq_getElem (l := accounts) (i := i) hlen
    rw [calm_slot_known ha, calm_requireSigner_bind]
    exact fun hsigned => (hf _ ha).mpr (h ⟨_, ha, hsigned⟩)

theorem openMarket_eq_some {m : MarketState} :
    openMarket accounts = some m ↔ heldAt accounts 0 = some m ∧ m.isInitialized = true :=
  Option.filter_eq_some_iff

theorem accrued_eq_some {m : MarketState} : accrued accounts timestamp = some m ↔
    ∃ m', openMarket accounts = some m' ∧ MoneyMarket.accrueMarket .dev m' timestamp = some m :=
  Option.bind_eq_some_iff

theorem calm_loadMarket_bind {f : MarketState → Outcome β} (hlen : 0 < accounts.length) :
    Calm (MoneyMarket.loadMarket .dev accounts timestamp >>= f) ↔
      MarketFits accounts timestamp ∧ ∀ m, accrued accounts timestamp = some m → Calm (f m) := by
  unfold MoneyMarket.loadMarket
  rw [bind_assoc, calm_load_bind, and_iff_right hlen]
  simp only [bind_assoc, calm_require_bind, calm_orPanic_bind, accrueMarket_isSome, MarketFits,
    accrued_eq_some, openMarket_eq_some]
  constructor
  · intro h
    refine ⟨fun m hm => (h m hm.1 hm.2).1, ?_⟩
    rintro m' ⟨m, hm, haccrued⟩
    exact (h m hm.1 hm.2).2 m' haccrued
  · intro h m hm hinit
    exact ⟨h.1 m ⟨hm, hinit⟩, fun m' haccrued => h.2 m' ⟨m, ⟨hm, hinit⟩, haccrued⟩⟩

theorem calm_loadLenderPosition {market owner : Pubkey} (hlen : 1 < accounts.length) :
    Calm (MoneyMarket.loadLenderPosition accounts market owner) := by
  refine calm_loadOr_there hlen fun pos => ?_
  split
  · exact avoids_pure
  · exact .bind calm_require fun _ => avoids_pure

/-- Where the pool is drawn on or added to, only the prologue decides. -/
theorem calm_liquidityPrologue_bind {f : MarketState × LenderPosition → Outcome β}
    (hf : 4 < accounts.length → ∀ p, Calm (f p)) :
    Calm (MoneyMarket.liquidityPrologue .dev accounts timestamp amount >>= f) ↔
      (Signed accounts 4 → amount ≠ 0 → MarketFits accounts timestamp) := by
  unfold MoneyMarket.liquidityPrologue
  simp only [bind_assoc]
  refine calm_signed_bind (i := 4) fun provider hprovider => ?_
  have hlen := (List.getElem?_eq_some_iff.mp hprovider).1
  rw [calm_require_bind, bne_iff_ne, calm_loadMarket_bind (by omega)]
  refine imp_congr_right fun _ => and_iff_left fun m _ => ?_
  exact calm_slot_there (by omega) fun _ => .bind (calm_loadLenderPosition (by omega)) fun _ =>
    hf hlen _

/-- Only what a position is worth and what it owes decide what comes after its update. -/
theorem calm_positionPrologue_bind {owned : Bool} {f : MarketState × Position → Outcome β}
    {next : MarketState → UInt64 → UInt64 → Prop}
    (hf : 4 < accounts.length → ∀ m pos, Calm (f (m, pos)) ↔ next m pos.collateral pos.debt) :
    Calm (MoneyMarket.positionPrologue .dev accounts timestamp owned >>= f) ↔
      PositionSafe accounts timestamp owned next := by
  unfold MoneyMarket.positionPrologue PositionSafe
  simp only [bind_assoc]
  refine calm_signed_bind (i := 4) fun user huser => ?_
  have hlen := (List.getElem?_eq_some_iff.mp huser).1
  rw [calm_loadMarket_bind (by omega)]
  refine and_congr_right fun _ => forall_congr' fun m => imp_congr_right fun _ => ?_
  have hmarket := List.getElem?_eq_getElem (l := accounts) (i := 0) (by omega)
  generalize accounts[0] = market at hmarket
  have hupdate : ∀ pos, Calm (orPanic (MoneyMarket.accruePosition .dev pos m.borrowIndex) >>=
      fun pos => pure (m, pos) >>= f) ↔ PositionFits pos m.borrowIndex ∧
        next m pos.collateral (accruedDebt pos m.borrowIndex) := by
    intro pos
    rw [calm_orPanic_bind, accruePosition_isSome]
    refine and_congr_right fun hfits => ?_
    rw [accruePosition_fits hfits]
    simp only [Option.some.injEq, forall_eq', pure_bind, hf hlen]
  unfold MoneyMarket.loadPosition
  simp only [bind_assoc]
  rw [calm_slot_known hmarket, calm_loadOr_bind, and_iff_right (by omega)]
  generalize hpos : ((heldAt accounts 1).getD {} : Position) = pos
  unfold Usable
  rw [hpos, hmarket, huser]
  cases hinit : pos.isInitialized with
  | false =>
    have hfree : (!owned || user.key == user.key) = true := by simp
    rw [if_pos Bool.not_false, pure_bind, hfree, calm_require_bind, imp_iff_right rfl]
    refine (hupdate _).trans ⟨fun h pos' hpos' => ?_, fun h => ?_⟩
    · rw [hpos'.1]
      exact h
    · exact h pos ⟨rfl, fun hpos' => absurd hpos' (by rw [hinit]; exact nofun)⟩
  | true =>
    have howner : (!owned || pos.owner == user.key) = true ↔
        (owned = true → pos.owner = user.key) := by
      cases owned <;> simp
    rw [if_neg nofun, bind_assoc, calm_require_bind, beq_iff_eq, pure_bind, calm_require_bind,
      howner, hupdate]
    constructor
    · rintro h pos' ⟨rfl, husable⟩
      obtain ⟨⟨market', hmarket', hof⟩, howned⟩ := husable hinit
      refine h (Option.some.inj hmarket' ▸ hof) fun hon => ?_
      obtain ⟨user', huser', hof'⟩ := howned hon
      exact Option.some.inj huser' ▸ hof'
    · intro h hof howned
      exact h pos ⟨rfl, fun _ => ⟨⟨market, rfl, hof⟩, fun hon => ⟨user, rfl, howned hon⟩⟩⟩

theorem calm_ensureFreshPrice_bind {m : MarketState} {f : Unit → Outcome β} :
    Calm (MoneyMarket.ensureFreshPrice m timestamp >>= f) ↔
      (PriceFresh m timestamp → Calm (f ())) := by
  unfold MoneyMarket.ensureFreshPrice PriceFresh
  rw [calm_require_bind, Bool.and_eq_true, bne_iff_ne, decide_eq_true_eq]

theorem calm_storeBoth [Borsh α] {market : MarketState} {pos : α} (hlen : 1 < accounts.length) :
    Calm (MoneyMarket.storeBoth accounts market pos) := calm_store_store hlen

/-- Once tokens have moved, only sums that are checked are left. -/
theorem moved_avoids {src dst owner : Nat} {signers : List Nat}
    {f : List AccountInfo → Prog (List AccountInfo)} (hlen : 4 < accounts.length)
    (hf : ∀ mid : List AccountInfo, 4 < mid.length → Comp.Avoids Fault.panic (f mid)) :
    Comp.Avoids Fault.panic
      (Token.invoke .dev accounts [src, dst, owner] signers (.transfer amount) >>= f) :=
  token_then_avoids (fun _ _ => trivial) nofun fun mid hmid => hf mid (hmid ▸ hlen)

theorem addLiquidity_calm :
    Calm (Comp.exec (MoneyMarket.addLiquidity .dev accounts timestamp amount) th).1 ↔
      (Signed accounts 4 → amount ≠ 0 → MarketFits accounts timestamp) := by
  unfold MoneyMarket.addLiquidity
  rw [exec_lift_bind]
  refine calm_liquidityPrologue_bind fun hlen (market, lender) => ?_
  refine lift_avoids (calm_orPanic.mpr sharesForDeposit_isSome) (fun shares => ?_) th
  refine moved_avoids hlen fun mid hmid => lift_avoids calm_okOr fun _ =>
    lift_avoids calm_okOr fun _ => lift_avoids calm_okOr fun _ => ?_
  exact .ofExcept (calm_storeBoth (by omega))

theorem removeLiquidity_calm :
    Calm (Comp.exec (MoneyMarket.removeLiquidity .dev accounts timestamp amount) th).1 ↔
      (Signed accounts 4 → amount ≠ 0 → MarketFits accounts timestamp) := by
  unfold MoneyMarket.removeLiquidity
  rw [exec_lift_bind]
  refine calm_liquidityPrologue_bind fun hlen (market, lender) => ?_
  refine lift_avoids (calm_orPanic.mpr sharesForWithdraw_isSome) (fun burn => ?_) th
  refine lift_avoids calm_require fun _ => lift_avoids calm_require fun _ =>
    moved_avoids hlen fun mid hmid => lift_avoids calm_okOr fun _ =>
    lift_avoids calm_okOr fun _ => lift_avoids calm_okOr fun _ => ?_
  exact .ofExcept (calm_storeBoth (by omega))

theorem supply_calm :
    Calm (Comp.exec (MoneyMarket.supply .dev accounts timestamp amount) th).1 ↔
      PositionSafe accounts timestamp false fun _ _ _ => True := by
  unfold MoneyMarket.supply
  rw [exec_lift_bind]
  refine calm_positionPrologue_bind fun hlen market pos => iff_of_true ?_ trivial
  refine moved_avoids hlen (fun mid hmid => ?_) th
  exact lift_avoids calm_okOr fun _ => lift_avoids calm_okOr fun _ =>
    .ofExcept (calm_storeBoth (by omega))

theorem subU64_isSome {a b : UInt64} (h : b ≤ a) : (subU64 .dev a b).isSome = true := by
  rw [subU64, if_pos h]
  rfl

theorem repay_calm :
    Calm (Comp.exec (MoneyMarket.repay .dev accounts timestamp amount) th).1 ↔
      PositionSafe accounts timestamp false fun _ _ _ => True := by
  unfold MoneyMarket.repay
  rw [exec_lift_bind]
  refine calm_positionPrologue_bind fun hlen market pos => iff_of_true ?_ trivial
  refine moved_avoids hlen (fun mid hmid => ?_) th
  refine lift_avoids (calm_orPanic.mpr (subU64_isSome Std.min_le_right)) fun _ => ?_
  exact lift_avoids calm_okOr fun _ => .ofExcept (calm_storeBoth (by omega))

theorem forall_checkedSub {a b : UInt64} {P : UInt64 → Prop} :
    (∀ c, checkedSub a b = some c → P c) ↔ (b ≤ a → P (a - b)) := by
  unfold checkedSub
  split
  · rename_i hle
    simp only [Option.some.injEq, forall_eq', imp_iff_right hle]
  · rename_i hlt
    exact iff_of_true nofun fun hle => absurd hle hlt

theorem forall_checkedAdd {a b : UInt64} {P : Prop} :
    (∀ c, checkedAdd a b = some c → P) ↔ (a.toNat + b.toNat < 2 ^ 64 → P) := by
  unfold checkedAdd
  split
  · rename_i hlt
    simp only [Option.some.injEq, forall_eq', imp_iff_right hlt]
  · rename_i hge
    exact iff_of_true nofun fun hlt => absurd hlt hge

/-- Where the collateral has to cover the debt, only the bound can be too large. -/
theorem calm_healthy_bind {m : MarketState} {collateral debt : UInt64} {f : Bool → Outcome β}
    (hf : ∀ b, Calm (f b)) :
    Calm (orPanic (MoneyMarket.isHealthy .dev m collateral debt) >>= f) ↔
      PowerFits m collateral := by
  rw [calm_orPanic_bind, isHealthy_isSome]
  exact and_iff_left fun b _ => hf b

theorem withdraw_calm :
    Calm (Comp.exec (MoneyMarket.withdraw .dev accounts timestamp amount) th).1 ↔
      PositionSafe accounts timestamp true fun m collateral _ =>
        PriceFresh m timestamp → amount ≤ collateral → PowerFits m (collateral - amount) := by
  unfold MoneyMarket.withdraw
  rw [exec_lift_bind]
  refine calm_positionPrologue_bind fun hlen market pos => ?_
  rw [exec_lift_bind, calm_ensureFreshPrice_bind, exec_lift_bind, calm_okOr_bind, forall_checkedSub,
    exec_lift_bind]
  refine imp_congr_right fun _ => imp_congr_right fun _ => calm_healthy_bind fun healthy => ?_
  refine lift_avoids calm_require (fun _ => moved_avoids hlen fun mid hmid => ?_) th
  exact lift_avoids calm_okOr fun _ => .ofExcept (calm_storeBoth (by omega))

theorem borrow_calm :
    Calm (Comp.exec (MoneyMarket.borrow .dev accounts timestamp amount) th).1 ↔
      PositionSafe accounts timestamp true fun m collateral debt =>
        PriceFresh m timestamp → debt.toNat + amount.toNat < 2 ^ 64 → PowerFits m collateral := by
  unfold MoneyMarket.borrow
  rw [exec_lift_bind]
  refine calm_positionPrologue_bind fun hlen market pos => ?_
  rw [exec_lift_bind, calm_ensureFreshPrice_bind, exec_lift_bind, calm_okOr_bind,
    ← forall_checkedAdd]
  refine imp_congr_right fun _ => forall_congr' fun newDebt => imp_congr_right fun _ => ?_
  rw [exec_lift_bind]
  refine calm_healthy_bind fun healthy => ?_
  refine lift_avoids calm_require (fun _ => lift_avoids calm_okOr fun newCash => ?_) th
  have hmoves : Comp.Avoids Fault.panic
      ((MoneyMarket.transferSigned .dev accounts 3 2 0 amount).adapt MoneyMarket.liquidityError :
        Prog (List AccountInfo)) := by
    refine .adapt (fun fault hfault => ?_) (token_invoke_avoids fun _ _ => trivial)
    unfold MoneyMarket.liquidityError at hfault
    split at hfault
    · exact nomatch hfault
    · exact hfault
  refine .bind hmoves (.adapt (token_invoke_length nofun)) fun mid hmid => ?_
  exact lift_avoids calm_okOr fun _ => .ofExcept (calm_storeBoth (by omega))

/-- The rest of a liquidation, from the accrued market and the position as it was found. -/
theorem liquidate_calm :
    Calm (Comp.exec (MoneyMarket.liquidate .dev accounts timestamp amount) th).1 ↔
      LiquidationSafe accounts timestamp amount := by
  unfold MoneyMarket.liquidate LiquidationSafe
  simp only [exec_lift_bind]
  refine calm_signed_bind (i := 6) fun liquidator hliquidator => ?_
  have hlen := (List.getElem?_eq_some_iff.mp hliquidator).1
  rw [calm_loadMarket_bind (by omega)]
  refine and_congr_right fun _ => forall_congr' fun m => imp_congr_right fun _ => ?_
  have hmarket := List.getElem?_eq_getElem (l := accounts) (i := 0) (by omega)
  generalize accounts[0] = market at hmarket
  rw [calm_load_bind, and_iff_right (by omega)]
  refine forall_congr' fun pos => imp_congr_right fun _ => ?_
  rw [calm_slot_known hmarket, calm_require_bind, Bool.and_eq_true, beq_iff_eq, and_imp]
  refine imp_congr_right fun _ => ?_
  have hof : (∃ a, accounts[0]? = some a ∧ pos.market = a.key) ↔ pos.market = market.key := by
    simp only [hmarket, Option.some.injEq, exists_eq_left']
  rw [hof]
  refine imp_congr_right fun _ => ?_
  rw [calm_orPanic_bind, accruePosition_isSome]
  refine and_congr_right fun hfits => ?_
  rw [accruePosition_fits hfits]
  simp only [Option.some.injEq, forall_eq']
  generalize accruedDebt pos m.borrowIndex = debt
  rw [calm_ensureFreshPrice_bind]
  refine imp_congr_right fun hfresh => ?_
  rw [calm_orPanic_bind, isLiquidatable_isSome]
  refine and_congr_right fun hthreshold => ?_
  rw [isLiquidatable_fits hthreshold]
  simp only [Option.some.injEq, forall_eq']
  rw [calm_require_bind, decide_eq_true_eq]
  refine imp_congr_right fun hover => ?_
  rw [calm_orPanic_bind, and_iff_right (maxLiquidationRepay_isSome hover)]
  refine forall_congr' fun most => imp_congr_right fun hmost => ?_
  rw [calm_require_bind, bne_iff_ne]
  refine imp_congr_right fun _ => ?_
  rw [calm_orPanic_bind, seizeCollateral_isSome hfresh.1]
  refine and_iff_left fun seized _ => ?_
  have hrepaid : min amount most ≤ debt :=
    UInt64.le_trans Std.min_le_right (maxLiquidationRepay_le hmost)
  refine moved_avoids (by omega) (fun mid hmid => moved_avoids hmid fun last hlast => ?_) th
  refine lift_avoids (calm_orPanic.mpr (subU64_isSome hrepaid)) fun _ =>
    lift_avoids (calm_orPanic.mpr (subU64_isSome Std.min_le_right)) fun _ => ?_
  exact lift_avoids calm_okOr fun _ => .ofExcept (calm_storeBoth (by omega))

/-- The number of accounts is checked first; what follows can rely on it. -/
theorem calm_requireLength_bind {n : Nat} {e : ProgramError} {f : Unit → Outcome β}
    (hf : n ≤ accounts.length → Calm (f ())) :
    Calm (require (decide (n ≤ accounts.length)) e >>= f) :=
  calm_require_bind.mpr fun h => hf (of_decide_eq_true h)

theorem initMarket_calm {terms : MoneyMarket.MarketTerms} :
    Calm (MoneyMarket.initMarket accounts timestamp terms) := by
  refine calm_requireLength_bind fun hlen => calm_slot_there (by omega) fun _ =>
    .bind calm_requireSigner fun _ => .bind calm_require fun _ => .bind calm_require fun _ =>
    .bind calm_require fun _ => .bind calm_require fun _ => ?_
  refine calm_loadOr_there (by omega) fun market => .bind calm_require fun _ =>
    calm_slot_there (by omega) fun _ => calm_slot_there (by omega) fun _ =>
    calm_slot_there (by omega) fun _ => calm_slot_there (by omega) fun _ =>
    calm_slot_there (by omega) fun _ => calm_store.mpr (by omega)

theorem syncPrice_calm : Calm (MoneyMarket.syncPrice accounts) :=
  calm_requireLength_bind fun hlen => calm_load_there (by omega) fun market =>
    .bind calm_require fun _ => calm_slot_there (by omega) fun _ => .bind calm_require fun _ =>
    calm_load_there (by omega) fun feed => .bind calm_require fun _ => calm_store.mpr (by omega)

theorem market_run_calm (ix : MoneyMarketInstruction) :
    Calm (Comp.exec (MoneyMarket.run .dev accounts timestamp ix) th).1 ↔
      MoneyMarketSafe accounts timestamp ix := by
  cases ix with
  | initMarket terms => exact iff_of_true initMarket_calm trivial
  | addLiquidity amount => exact addLiquidity_calm
  | removeLiquidity amount => exact removeLiquidity_calm
  | supply amount => exact supply_calm
  | withdraw amount => exact withdraw_calm
  | borrow amount => exact borrow_calm
  | repay amount => exact repay_calm
  | liquidate amount => exact liquidate_calm
  | syncPrice => exact iff_of_true syncPrice_calm trivial

theorem market_calm {data : List UInt8} :
    Calm (Comp.exec (MoneyMarket.process .dev timestamp accounts data) th).1 ↔
      ∀ ix, tryFromSlice data = some ix → MoneyMarketSafe accounts timestamp ix := by
  unfold MoneyMarket.process
  rw [exec_lift_bind, calm_okOr_bind]
  exact forall_congr' fun ix => imp_congr_right fun _ => market_run_calm ix

end

/-! ## The vault -/

/-- The vault's lender shares can be valued, where their value is asked for. -/
def NavFits (vault : Vault.VaultState) (accounts : List AccountInfo) : Prop :=
  0 < vault.lenderShares → 7 ≤ accounts.length → ∀ m : MarketState, heldAt accounts 6 = some m →
    (heldAt accounts 2 : Option Token.TokenAccountState).isSome = true →
      ShareValueFits m vault.lenderShares

/-- The money market is safe on the accounts of the vault that it is invoked with. -/
def CallSafe (accounts : List AccountInfo) (indices : List Nat) (timestamp : UInt64)
    (ix : MoneyMarketInstruction) : Prop :=
  ∀ window, windowOf accounts indices = .ok window → rejectDuplicateWritable window = .ok () →
    MoneyMarketSafe (markSigners window [4]) timestamp ix

/-- The manager of an initialised vault asks for liquidity to be moved. -/
def StrategySafe (accounts : List AccountInfo) (timestamp amount : UInt64)
    (ix : MoneyMarketInstruction) : Prop :=
  Signed accounts 5 → amount ≠ 0 → ∀ vault : Vault.VaultState, heldAt accounts 0 = some vault →
    vault.isInitialized = true → (∃ manager, accounts[5]? = some manager ∧
      manager.key = vault.manager) → CallSafe accounts [2, 3, 1, 4, 0] timestamp ix

/-- What a redemption is worth can be computed; and where the idle assets do not cover it, the
    market is safe to ask for the rest. -/
def RedemptionSafe (accounts : List AccountInfo) (timestamp shares minAssets : UInt64) : Prop :=
  Signed accounts 5 → ∀ vault : Vault.VaultState, heldAt accounts 0 = some vault →
    vault.totalShares ≠ 0 → NavFits vault accounts ∧
      ∀ nav assetsOut, Vault.liveNav .dev vault accounts = .ok nav →
        Vault.mulDiv .dev shares.toNat nav.toNat vault.totalShares.toNat = some assetsOut →
        minAssets ≤ assetsOut → ∀ idle : Token.TokenAccountState, heldAt accounts 2 = some idle →
          idle.amount < assetsOut → 9 ≤ accounts.length →
            CallSafe accounts [6, 7, 2, 8, 0] timestamp (.removeLiquidity (assetsOut - idle.amount))

def VaultSafe (accounts : List AccountInfo) (timestamp : UInt64) : Vault.VaultInstruction → Prop
  | .initVault _ => True
  | .deposit amount _ => Signed accounts 5 → amount ≠ 0 → ∀ vault : Vault.VaultState,
      heldAt accounts 0 = some vault → vault.isInitialized = true → NavFits vault accounts
  | .withdraw shares minAssets => RedemptionSafe accounts timestamp shares minAssets
  | .report => 5 ≤ accounts.length → Signed accounts 1 → ∀ vault : Vault.VaultState,
      heldAt accounts 0 = some vault → vault.isInitialized = true →
        (∃ manager, accounts[1]? = some manager ∧ manager.key = vault.manager) →
        0 < vault.lenderShares → ∀ m : MarketState, heldAt accounts 5 = some m →
          ShareValueFits m vault.lenderShares
  | .deploy amount => StrategySafe accounts timestamp amount (.addLiquidity amount)
  | .undeploy amount => StrategySafe accounts timestamp amount (.removeLiquidity amount)

section
variable {α β : Type} {accounts : List AccountInfo} {timestamp : UInt64} {th : Thread}

/-- What can be paid for is. -/
theorem exec_charge_bind (th : Thread) {units : UInt64} {f : Unit → Prog β}
    (h : saturatingAdd th.spent units ≤ computeBudget) :
    (Comp.exec (charge units >>= f) th).1 =
      (Comp.exec (f ()) { th with spent := saturatingAdd th.spent units }).1 := by
  rw [Comp.exec_bind, exec_charge, if_neg (UInt64.not_lt.mpr h)]

/-- An invocation that has units left and is not too deep is calm where the callee is. -/
theorem calm_invoke {indices signers : List Nat} {data : List UInt8} {callee : Pubkey}
    {process : Process} {P : List AccountInfo → Prop} (hdepth : th.depth < maxCpiDepth)
    (hunits : saturatingAdd th.spent (cpiBaseCost + perAccountCost * UInt64.ofNat indices.length) ≤
      computeBudget)
    (hP : ∀ window th, Calm (Comp.exec (process window data) th).1 ↔ P window) :
    Calm (Comp.exec (invokeSignedIndexed accounts indices signers data callee process) th).1 ↔
      ∀ window, windowOf accounts indices = .ok window → rejectDuplicateWritable window = .ok () →
        P (markSigners window signers) := by
  unfold invokeSignedIndexed
  rw [exec_lift_bind, calm_bind, and_iff_right windowOf_calm]
  refine forall_congr' fun window => imp_congr_right fun _ => ?_
  rw [exec_deeper hdepth, exec_charge_bind { th with depth := th.depth + 1 } hunits,
    exec_lift_bind, calm_bind, and_iff_right (rejectDuplicateWritable_avoids id window)]
  constructor
  · intro h hunique
    exact (hP _ _).mp (Comp.avoids_exec_bind.mp (h () hunique)).1
  · intro h _ hunique
    refine Comp.avoids_exec_bind.mpr ⟨(hP _ _).mpr (h hunique), fun after m _ => ?_⟩
    exact Comp.Avoids.seq (gate_avoids id callee window after) (fun _ => .pure) m

/-- The vault invokes the money market before anything else. -/
theorem calm_mmLiquidity {indices : List Nat} {ix : MoneyMarketInstruction} {data : List UInt8}
    (hdata : toVec ix = some data) (hwindow : indices.length = 5) (hdepth : th.depth = 0)
    (hspent : th.spent = 0) :
    Calm (Comp.exec (Vault.mmLiquidity .dev accounts indices ix timestamp) th).1 ↔
      CallSafe accounts indices timestamp ix := by
  unfold Vault.mmLiquidity
  rw [exec_lift_bind, calm_okOr_bind, hdata]
  simp only [Option.some.injEq, forall_eq']
  refine calm_invoke (P := fun window => MoneyMarketSafe window timestamp ix)
    (by rw [hdepth]; decide) (by rw [hspent, hwindow]; decide) fun window th => ?_
  rw [market_calm, tryFromSlice_toVec hdata]
  simp only [Option.some.injEq, forall_eq']

/-- What comes after the invocation does not panic, and finds as many accounts. -/
theorem calm_mmLiquidity_bind {indices : List Nat} {ix : MoneyMarketInstruction}
    {data : List UInt8} {f : List AccountInfo → Prog β}
    (hdata : toVec ix = some data) (hwindow : indices.length = 5) (hdepth : th.depth = 0)
    (hspent : th.spent = 0)
    (hf : ∀ mid : List AccountInfo, mid.length = accounts.length →
      Comp.Avoids Fault.panic (f mid)) :
    Calm (Comp.exec (Vault.mmLiquidity .dev accounts indices ix timestamp >>= f) th).1 ↔
      CallSafe accounts indices timestamp ix := by
  rw [← calm_mmLiquidity hdata hwindow hdepth hspent]
  unfold Calm
  rw [Comp.avoids_exec_bind]
  refine and_iff_left fun mid m hmid => hf mid ?_ m
  exact (SlotRel.mmLiquidity_kept (S := keyFrame.slotRel) .dev indices ix timestamp th mid m
    hmid).length_eq.symm

theorem calm_balance {i : Nat} (hlen : i < accounts.length) : Calm (Vault.balance accounts i) :=
  calm_load_there hlen fun _ => avoids_pure

theorem calm_readLenderShares {i : Nat} (hlen : i < accounts.length) :
    Calm (Vault.readLenderShares accounts i) :=
  calm_loadOr_there hlen fun _ => avoids_pure

theorem calm_liveNav {vault : Vault.VaultState} :
    Calm (Vault.liveNav .dev vault accounts) ↔ NavFits vault accounts := by
  unfold Vault.liveNav NavFits
  split
  · rename_i hasked
    rw [calm_load_bind, and_iff_right (by omega), imp_iff_right hasked.1, imp_iff_right hasked.2]
    refine forall_congr' fun m => imp_congr_right fun _ => ?_
    unfold Vault.balance
    rw [bind_assoc, calm_load_bind, and_iff_right (by omega), Option.isSome_iff_exists,
      forall_exists_index]
    refine forall_congr' fun token => imp_congr_right fun _ => ?_
    rw [pure_bind, calm_orPanic_bind, lenderShareValue_isSome]
    exact and_iff_left fun _ _ => calm_okOr
  · rename_i hnot
    exact iff_of_true avoids_pure fun hshares hseven => absurd ⟨hshares, hseven⟩ hnot

theorem calm_depositShares {vault : Vault.VaultState} {nav amount : UInt64} :
    Calm (Vault.depositShares .dev vault nav amount) := by
  unfold Vault.depositShares
  split
  · exact .bind calm_okOr fun _ => avoids_pure
  · have hpos : (max nav 1).toNat ≠ 0 := by
      change (if _ then _ else _ : UInt64).toNat ≠ 0
      split
      · decide
      · rename_i hlt
        intro hzero
        exact hlt (UInt64.le_iff_toNat_le.mpr (hzero ▸ Nat.zero_le _))
    refine .bind (calm_orPanic.mpr ?_) fun _ => avoids_pure
    exact (vault_mulDiv_isSome hpos).mpr (u64_mul_fits _ _)

theorem deposit_calm {amount least : UInt64} :
    Calm (Comp.exec (Vault.deposit .dev accounts amount least) th).1 ↔
      VaultSafe accounts timestamp (.deposit amount least) := by
  unfold Vault.deposit VaultSafe
  simp only [exec_lift_bind]
  refine calm_signed_bind (i := 5) fun user huser => ?_
  have hlen := (List.getElem?_eq_some_iff.mp huser).1
  rw [calm_require_bind, bne_iff_ne, calm_load_bind, and_iff_right (by omega)]
  refine imp_congr_right fun _ => forall_congr' fun vault => imp_congr_right fun _ => ?_
  rw [calm_require_bind, calm_bind, calm_liveNav]
  refine imp_congr_right fun _ => and_iff_left fun nav _ => ?_
  refine .bind calm_depositShares fun (userShares, supplyDelta) => .bind calm_require fun _ => ?_
  refine (?_ : Comp.Avoids Fault.panic _) th
  refine token_then_avoids (fun _ _ => trivial) nofun fun mid hmid =>
    token_then_avoids (fun _ _ => trivial) nofun fun last hlast => ?_
  exact lift_avoids calm_okOr fun _ => lift_avoids calm_okOr fun _ =>
    .ofExcept (calm_store.mpr (by omega))

/-- Where the idle assets do not cover a redemption, the money market decides. -/
theorem calm_autoUndeploy_bind {vault : Vault.VaultState} {assetsOut : UInt64}
    {f : Vault.VaultState × List AccountInfo → Prog β} (hlen : 2 < accounts.length)
    (hdepth : th.depth = 0) (hspent : th.spent = 0)
    (hf : ∀ vault (mid : List AccountInfo), mid.length = accounts.length →
      Comp.Avoids Fault.panic (f (vault, mid))) :
    Calm (Comp.exec (Vault.autoUndeploy .dev vault accounts timestamp assetsOut >>= f) th).1 ↔
      ∀ idle : Token.TokenAccountState, heldAt accounts 2 = some idle → idle.amount < assetsOut →
        9 ≤ accounts.length → CallSafe accounts [6, 7, 2, 8, 0] timestamp
          (.removeLiquidity (assetsOut - idle.amount)) := by
  unfold Vault.autoUndeploy Vault.balance
  rw [bind_assoc, exec_lift_bind, bind_assoc, calm_load_bind, and_iff_right hlen]
  refine forall_congr' fun idle => imp_congr_right fun _ => ?_
  rw [pure_bind]
  split
  · rename_i hshort
    rw [imp_iff_right hshort.1, imp_iff_right hshort.2, bind_assoc]
    refine calm_mmLiquidity_bind rfl rfl hdepth hspent fun mid hmid => ?_
    rw [bind_assoc]
    exact lift_avoids (calm_readLenderShares (by omega)) fun shares => hf _ mid hmid
  · rename_i hcovered
    exact iff_of_true (hf vault accounts rfl th) fun hlt hnine => absurd ⟨hlt, hnine⟩ hcovered

theorem withdraw_shares_calm {shares minAssets : UInt64} (hdepth : th.depth = 0)
    (hspent : th.spent = 0) :
    Calm (Comp.exec (Vault.withdraw .dev accounts timestamp shares minAssets) th).1 ↔
      RedemptionSafe accounts timestamp shares minAssets := by
  unfold Vault.withdraw RedemptionSafe
  simp only [exec_lift_bind]
  refine calm_signed_bind (i := 5) fun user huser => ?_
  have hlen := (List.getElem?_eq_some_iff.mp huser).1
  rw [calm_load_bind, and_iff_right (by omega)]
  refine forall_congr' fun vault => imp_congr_right fun _ => ?_
  rw [calm_require_bind, bne_iff_ne, calm_bind, calm_liveNav]
  refine imp_congr_right fun hshares => and_congr_right fun _ => forall_congr' fun nav => ?_
  have hpos : vault.totalShares.toNat ≠ 0 := fun h => hshares (UInt64.toNat_inj.mp h)
  rw [forall_comm]
  refine imp_congr_right fun _ => ?_
  rw [calm_orPanic_bind, and_iff_right ((vault_mulDiv_isSome hpos).mpr (u64_mul_fits _ _))]
  refine forall_congr' fun assetsOut => imp_congr_right fun _ => ?_
  rw [calm_require_bind, decide_eq_true_eq]
  refine imp_congr_right fun _ => ?_
  refine calm_autoUndeploy_bind (by omega) hdepth hspent fun vault' mid hmid => ?_
  dsimp only
  refine token_then_avoids (fun _ _ => trivial) nofun fun burned hburned =>
    token_then_avoids (fun _ _ => trivial) nofun fun last hlast => ?_
  exact lift_avoids calm_okOr fun _ => lift_avoids calm_okOr fun _ =>
    .ofExcept (calm_store.mpr (by omega))

/-- Only the value of the lender shares can be too large in a report. -/
theorem calm_deployedValue {vault : Vault.VaultState} :
    Calm (Vault.deployedValue .dev vault accounts) ↔
      (0 < vault.lenderShares → ∀ m : MarketState, heldAt accounts 5 = some m →
        ShareValueFits m vault.lenderShares) := by
  unfold Vault.deployedValue
  split
  · rename_i hshares
    rw [imp_iff_right hshares, calm_require_bind, decide_eq_true_eq]
    simp only [calm_load_bind, calm_orPanic, lenderShareValue_isSome]
    constructor
    · intro h m hm
      exact (h (heldAt_lt hm)).2 m hm
    · intro h hlen
      exact ⟨hlen, h⟩
  · rename_i hnone
    exact iff_of_true avoids_pure fun hshares => absurd hshares hnone

theorem report_calm :
    Calm (Comp.exec (Vault.report .dev accounts) th).1 ↔
      VaultSafe accounts timestamp .report := by
  unfold Vault.report VaultSafe
  simp only [exec_lift_bind]
  rw [calm_require_bind, decide_eq_true_eq]
  refine imp_congr_right fun hlen => ?_
  have hmanager := List.getElem?_eq_getElem (l := accounts) (i := 1) (by omega)
  generalize accounts[1] = manager at hmanager
  have hsigned : Signed accounts 1 ↔ manager.isSigner = true := by
    simp only [Signed, hmanager, Option.some.injEq, exists_eq_left']
  rw [calm_slot_known hmanager, calm_requireSigner_bind, hsigned, calm_load_bind,
    and_iff_right (by omega)]
  refine imp_congr_right fun _ => forall_congr' fun vault => imp_congr_right fun _ => ?_
  have hkey : (∃ a, accounts[1]? = some a ∧ a.key = vault.manager) ↔
      manager.key = vault.manager := by
    simp only [hmanager, Option.some.injEq, exists_eq_left']
  rw [hkey, calm_require_bind, calm_require_bind, beq_iff_eq, calm_bind, calm_deployedValue]
  refine imp_congr_right fun _ => imp_congr_right fun _ => and_iff_left fun deployed _ => ?_
  refine .bind (calm_balance (by omega)) fun idle => .bind calm_okOr fun nav =>
    .bind (calm_orPanic.mpr feeShares_isSome) fun fee => ?_
  split
  · refine (?_ : Comp.Avoids Fault.panic _) th
    refine token_then_avoids (fun _ _ => trivial) nofun fun mid hmid => ?_
    exact lift_avoids calm_okOr fun _ => .ofExcept (calm_store.mpr (by omega))
  · exact calm_store.mpr (by omega)

/-- Liquidity moves as the money market decides. -/
theorem moveLiquidity_calm {amount : UInt64} {ix : MoneyMarketInstruction} {data : List UInt8}
    (hdata : toVec ix = some data) (hdepth : th.depth = 0) (hspent : th.spent = 0) :
    Calm (Comp.exec (Vault.moveLiquidity .dev accounts timestamp amount ix) th).1 ↔
      StrategySafe accounts timestamp amount ix := by
  unfold Vault.moveLiquidity Vault.strategyPrologue StrategySafe
  rw [exec_lift_bind]
  simp only [bind_assoc]
  refine calm_signed_bind (i := 5) fun manager hmanager => ?_
  have hlen := (List.getElem?_eq_some_iff.mp hmanager).1
  rw [calm_require_bind, bne_iff_ne, calm_load_bind, and_iff_right (by omega)]
  refine imp_congr_right fun _ => forall_congr' fun vault => imp_congr_right fun _ => ?_
  have hkey : (∃ a, accounts[5]? = some a ∧ a.key = vault.manager) ↔
      manager.key = vault.manager := by
    simp only [hmanager, Option.some.injEq, exists_eq_left']
  rw [hkey, calm_require_bind, calm_require_bind, beq_iff_eq, pure_bind]
  refine imp_congr_right fun _ => imp_congr_right fun _ => ?_
  refine calm_mmLiquidity_bind hdata rfl hdepth hspent fun mid hmid => ?_
  exact lift_avoids (calm_readLenderShares (by omega)) fun _ =>
    .ofExcept (calm_store.mpr (by omega))

theorem initVault_calm {fee : UInt64} : Calm (Vault.initVault accounts fee) :=
  calm_requireLength_bind fun hlen => calm_slot_there (by omega) fun _ =>
    .bind calm_requireSigner fun _ => .bind calm_require fun _ =>
    calm_loadOr_there (by omega) fun vault => .bind calm_require fun _ =>
    calm_slot_there (by omega) fun _ => calm_slot_there (by omega) fun _ =>
    calm_slot_there (by omega) fun _ => calm_slot_there (by omega) fun _ =>
    calm_store.mpr (by omega)

theorem vault_run_calm (hdepth : th.depth = 0) (hspent : th.spent = 0)
    (ix : Vault.VaultInstruction) :
    Calm (Comp.exec (Vault.run .dev accounts timestamp ix) th).1 ↔
      VaultSafe accounts timestamp ix := by
  cases ix with
  | initVault fee => exact iff_of_true initVault_calm trivial
  | deposit amount least => exact deposit_calm
  | withdraw shares minAssets => exact withdraw_shares_calm hdepth hspent
  | report => exact report_calm
  | deploy amount => exact moveLiquidity_calm rfl hdepth hspent
  | undeploy amount => exact moveLiquidity_calm rfl hdepth hspent

theorem vault_calm {data : List UInt8} (hdepth : th.depth = 0) (hspent : th.spent = 0) :
    Calm (Comp.exec (Vault.process .dev timestamp accounts data) th).1 ↔
      ∀ ix, tryFromSlice data = some ix → VaultSafe accounts timestamp ix := by
  unfold Vault.process
  rw [exec_lift_bind, calm_okOr_bind]
  exact forall_congr' fun ix => imp_congr_right fun _ => vault_run_calm hdepth hspent ix

end

/-! ## Dispatch -/

/-- What a built-in needs of its accounts, its instruction and the clock: nothing, for four of
    them. -/
def Safe (programId : Pubkey) (accounts : List AccountInfo) (data : List UInt8)
    (timestamp : UInt64) : Prop :=
  if programId = ProgramIds.systemProgram then
    ∀ ix, tryFromSlice data = some ix → SystemSafe accounts ix
  else if programId = ProgramIds.tokenProgram then
    ∀ ix, tryFromSlice data = some ix → TokenSafe accounts ix
  else if programId = ProgramIds.ataProgram then True
  else if programId = ProgramIds.swapProgram then True
  else if programId = ProgramIds.nftMetadataProgram then
    ∀ ix, tryFromSlice data = some ix → MetadataSafe accounts ix
  else if programId = ProgramIds.lendingProgram then
    ∀ ix, tryFromSlice data = some ix → Signed accounts 1 → LendingSafe accounts timestamp ix
  else if programId = ProgramIds.runesProgram then True
  else if programId = ProgramIds.moneyMarketProgram then
    ∀ ix, tryFromSlice data = some ix → MoneyMarketSafe accounts timestamp ix
  else if programId = ProgramIds.vaultProgram then
    ∀ ix, tryFromSlice data = some ix → VaultSafe accounts timestamp ix
  else True

section
variable {α : Type} {accounts : List AccountInfo} {data : List UInt8} {timestamp : UInt64}
  {th : Thread}

/-- A choice between two programs. -/
theorem calm_ite {c : Prop} [Decidable c] {x y : Prog α} {P Q : Prop}
    (hx : Calm (Comp.exec x th).1 ↔ P) (hy : Calm (Comp.exec y th).1 ↔ Q) :
    Calm (Comp.exec (if c then x else y) th).1 ↔ if c then P else Q := by
  split
  · exact hx
  · exact hy

theorem runBuiltin_calm (hasher : Lending.Hasher) (programId : Pubkey) (th : Thread)
    (hdepth : th.depth = 0) (hspent : th.spent = 0) :
    Calm (Comp.exec (runBuiltin .dev hasher programId accounts data timestamp) th).1 ↔
      Safe programId accounts data timestamp := by
  refine calm_ite system_calm (calm_ite token_calm
    (calm_ite (iff_of_true (ata_avoids th) trivial) (calm_ite (iff_of_true (swap_avoids th) trivial)
    (calm_ite metadata_calm (calm_ite (lending_calm hasher)
    (calm_ite (iff_of_true runes_calm trivial) (calm_ite market_calm
    (calm_ite (vault_calm hdepth hspent) (iff_of_true ?_ trivial)))))))))
  split
  · exact oracle_calm
  · exact nofun

/-- **Where a built-in panics.** An invocation of a built-in panics exactly where it is not
    safe. -/
theorem dispatch_calm (hasher : Lending.Hasher) (programId : Pubkey) (accounts : List AccountInfo)
    (data : List UInt8) (timestamp : UInt64) (th : Thread) :
    (Comp.exec (dispatch .dev hasher programId accounts data timestamp)
      { th with depth := 0 }).1 ≠ .error .panic ↔ Safe programId accounts data timestamp := by
  rw [← runBuiltin_calm hasher programId (beginExecution { th with depth := 0 }) rfl rfl]
  change Calm (Comp.exec (runBuiltin .dev hasher programId accounts data timestamp >>= fun after =>
    validateWrites programId accounts after) (beginExecution { th with depth := 0 })).1 ↔ _
  unfold Calm
  rw [Comp.avoids_exec_bind]
  exact and_iff_left fun after m _ => validateWrites_avoids id programId accounts after m

/-- A delegate is revoked on an empty account list. -/
theorem dispatch_panics :
    (Comp.exec (dispatch .dev .sorted ProgramIds.tokenProgram [] [6] 0) {}).1 = .error .panic := by
  decide

end

end Proof
end Himsha
