import Himsha.Lib.Ratio
import Himsha.Proof.LiquidityCalls
import Himsha.Proof.VaultPricing

/-!
# What a vault books

The cached total of a vault is meant to be its idle balance and the value of its lender shares,
right after each `Deploy`, `Undeploy` and `Report`. A report writes just that. The other two leave
the total as it was: they count on a move between the two legs to change neither. But the market
accrues interest on the way, and it rounds the shares against the lender, so the lent leg may move
by more or less than the amount. `cache_kept_iff` says exactly when neither shows.
-/

set_option autoImplicit false

namespace Himsha
namespace Proof

open Himsha.Lib Himsha.Runtime Himsha.Programs Himsha.Vm Token Vault
open MoneyMarket (MarketState LenderPosition lenderShareValue accrueMarket sharesForDeposit
  sharesForWithdraw MoneyMarketInstruction)

/-! ## The instructions that book -/

/-- The cached total is the idle balance and what the lender shares are worth. -/
def Booked (π : Profile) (vault : VaultState) (token : TokenAccountState) (market : MarketState) :
    Prop :=
  basisOf π vault token.amount (some market) = some vault.totalAssets.toNat

instance (π : Profile) (vault : VaultState) (token : TokenAccountState) (market : MarketState) :
    Decidable (Booked π vault token market) :=
  inferInstanceAs (Decidable (_ = _))

/-- The instructions that the cached total is meant to be right after. -/
inductive Booking where
  | move (side : LenderMove) (amount : UInt64)
  | report
deriving DecidableEq

namespace Booking

def instruction : Booking → VaultInstruction
  | .move .add amount => .deploy amount
  | .move .remove amount => .undeploy amount
  | .report => .report

/-- The slot of the asset vault. -/
def assets : Booking → Nat
  | .move _ _ => 1
  | .report => 2

/-- The instruction is on this market. A report of a vault without lender shares need not be passed
    it. -/
def On (accounts : List AccountInfo) (vault : VaultState) (market : MarketState) : Booking → Prop
  | .move _ _ => recordAt MarketState accounts 2 = some market
  | .report => 0 < vault.lenderShares → recordAt MarketState accounts 5 = some market

/-- The lender position that is passed holds the shares of the vault. -/
def Holds (accounts : List AccountInfo) (vault : VaultState) : Booking → Prop
  | .move _ _ => ((recordAt LenderPosition accounts 3).getD {}).shares = vault.lenderShares
  | .report => True

end Booking

/-! ## Where neither interest nor rounding shows -/

/-- The part of a lender with `held` shares that were worth `value` is worth `amount` more once the
    market, with interest in, has minted `minted` shares for it. A part is worth what its product
    with the pool gives, which a release build computes up to wrapping. -/
def WorthMore (π : Profile) (m : MarketState) (held value : UInt64) (amount minted : Int) : Prop :=
  let total : Int := m.totalLenderShares.toNat
  let product : Int := (held.toNat + minted) * (poolSize m + amount)
  (π = .dev → product < 2 ^ 128) ∧
    (Ratio.overhang total (poolSize m) held.toNat value.toNat amount minted -
        total * (2 ^ 128 * (product / 2 ^ 128))) % (total * (total + minted) * 2 ^ 64) <
      total * (total + minted)

/-- A market without shares is given `amount`: what is in its pool already, and shares that were
    held of it, do not add up to a unit for each of the new shares. -/
def FirstWorth (π : Profile) (m : MarketState) (held amount : UInt64) : Prop :=
  let stray : Int := held.toNat * poolSize m + (held.toNat + poolSize m) * amount.toNat
  let product : Int := (held.toNat + amount.toNat) * (poolSize m + amount.toNat)
  (π = .dev → product < 2 ^ 128) ∧
    (stray - 2 ^ 128 * (product / 2 ^ 128)) % (amount.toNat * 2 ^ 64) < amount.toNat

/-- What is moved shows in the lent leg as what it is: no more, for interest that fell due, and no
    less, for shares that were rounded. The last shares of a market are worth nothing once they are
    redeemed. -/
def Unnoticed (π : Profile) (m : MarketState) (held value amount shares : UInt64) :
    LenderMove → Prop
  | .add =>
      if m.totalLenderShares = 0 then FirstWorth π m held amount
      else WorthMore π m held value amount.toNat shares.toNat
  | .remove =>
      if m.totalLenderShares = shares then value = amount
      else amount ≤ value ∧ WorthMore π m held value (-amount.toNat) (-shares.toNat)

section
variable {π : Profile} {m m' : MarketState} {held held' value value' amount shares : UInt64}

theorem mulU128_eq_some_iff {a b c : Nat} :
    mulU128 π a b = some c ↔ (π = .dev → a * b < 2 ^ 128) ∧ c = a * b % 2 ^ 128 := by
  unfold mulU128 Profile.plain
  split
  · rename_i hfits
    rw [Nat.mod_eq_of_lt hfits, Option.some.injEq]
    exact ⟨fun h => ⟨fun _ => hfits, h.symm⟩, fun h => h.2.symm⟩
  · rename_i hlarge
    cases π with
    | dev => exact iff_of_false (by simp) fun h => hlarge (h.1 rfl)
    | release => simp [eq_comm]

/-- What shares are worth, in either build. -/
theorem lenderShareValue_eq_some_iff (hlive : m.totalLenderShares ≠ 0) :
    lenderShareValue π m shares = some value ↔
      (π = .dev → shares.toNat * poolSize m < 2 ^ 128) ∧
        value.toNat =
          shares.toNat * poolSize m % 2 ^ 128 / m.totalLenderShares.toNat % 2 ^ 64 := by
  have hpos : m.totalLenderShares.toNat ≠ 0 := fun h => hlive (UInt64.toNat_inj.mp h)
  unfold lenderShareValue
  rw [if_neg hlive, poolValue_eq]
  simp only [Option.bind_eq_bind, Option.bind_some]
  constructor
  · intro h
    obtain ⟨product, hproduct, h₁⟩ := Option.bind_eq_some_iff.mp h
    obtain ⟨hfits, rfl⟩ := mulU128_eq_some_iff.mp hproduct
    rw [divU128_pos hpos, Option.bind_some] at h₁
    rw [← Option.some.inj h₁]
    exact ⟨hfits, UInt64.toNat_ofNat'⟩
  · rintro ⟨hfits, hvalue⟩
    rw [mulU128_eq_some_iff.mpr ⟨hfits, rfl⟩, Option.bind_some, divU128_pos hpos, Option.bind_some]
    refine congrArg some (UInt64.toNat_inj.mp ?_)
    rw [hvalue]
    exact UInt64.toNat_ofNat'

/-- There is a value, and it is `n`. -/
theorem worth_iff {n : Int} (hlive : m.totalLenderShares ≠ 0) (hn : 0 ≤ n) (hn' : n < 2 ^ 64) :
    (∃ value, lenderShareValue π m shares = some value ∧ (value.toNat : Int) = n) ↔
      (π = .dev → (shares.toNat * poolSize m : Int) < 2 ^ 128) ∧
        ((shares.toNat * poolSize m : Int) -
          2 ^ 128 * ((shares.toNat * poolSize m : Int) / 2 ^ 128)) /
          m.totalLenderShares.toNat % 2 ^ 64 = n := by
  rw [← Int.emod_def]
  constructor
  · rintro ⟨value, hvalue, rfl⟩
    obtain ⟨hfits, hsame⟩ := (lenderShareValue_eq_some_iff hlive).mp hvalue
    exact ⟨fun hdev => by exact_mod_cast hfits hdev, by exact_mod_cast hsame.symm⟩
  · rintro ⟨hfits, hsame⟩
    refine ⟨.ofNat n.toNat, (lenderShareValue_eq_some_iff hlive).mpr
      ⟨fun hdev => by exact_mod_cast hfits hdev, ?_⟩, ?_⟩
    · rw [UInt64.toNat_ofNat_of_lt' (show n.toNat < 2 ^ 64 by omega)]
      zify
      rw [Int.toNat_of_nonneg hn, ← hsame]
    · rw [UInt64.toNat_ofNat_of_lt' (show n.toNat < 2 ^ 64 by omega), Int.toNat_of_nonneg hn]

/-- A part of a market that was moved to or from. -/
theorem worthMore_iff {amount minted : Int} (hlive : m.totalLenderShares ≠ 0)
    (hleft : m'.totalLenderShares ≠ 0)
    (htotal : (m'.totalLenderShares.toNat : Int) = m.totalLenderShares.toNat + minted)
    (hpool : (poolSize m' : Int) = poolSize m + amount)
    (hheld : (held'.toNat : Int) = held.toNat + minted)
    (hn : 0 ≤ value.toNat + amount) (hn' : value.toNat + amount < 2 ^ 64) :
    (∃ value', lenderShareValue π m' held' = some value' ∧
      (value'.toNat : Int) = value.toNat + amount) ↔ WorthMore π m held value amount minted := by
  have hpos : ∀ {n : UInt64}, n ≠ 0 → (0 : Int) < n.toNat := fun {n} hne =>
    Int.natCast_pos.mpr (Nat.pos_of_ne_zero fun h => hne (UInt64.toNat_inj.mp h))
  rw [worth_iff hleft hn hn', hheld, hpool, htotal,
    Ratio.part_worth_iff (hpos hlive) (by rw [← htotal]; exact hpos hleft) hn hn']
  rfl

/-- The first part of a market without shares. -/
theorem firstWorth_iff (hamount : amount ≠ 0) (htotal : m'.totalLenderShares = amount)
    (hpool : (poolSize m' : Int) = poolSize m + amount.toNat)
    (hheld : (held'.toNat : Int) = held.toNat + amount.toNat) :
    (∃ value', lenderShareValue π m' held' = some value' ∧ (value'.toNat : Int) = amount.toNat) ↔
      FirstWorth π m held amount := by
  have hpos : (0 : Int) < amount.toNat :=
    Int.natCast_pos.mpr (Nat.pos_of_ne_zero fun h => hamount (UInt64.toNat_inj.mp h))
  have hlt : (amount.toNat : Int) < 2 ^ 64 := by exact_mod_cast amount.toNat_lt
  unfold FirstWorth
  rw [worth_iff (by rw [htotal]; exact hamount) hpos.le hlt, hheld, hpool, htotal]
  refine and_congr_right fun _ => ?_
  have hsplit : ((held.toNat + amount.toNat) * (poolSize m + amount.toNat) -
      2 ^ 128 * ((held.toNat + amount.toNat) * (poolSize m + amount.toNat) / 2 ^ 128) : Int) =
      held.toNat * poolSize m + (held.toNat + poolSize m) * amount.toNat -
        2 ^ 128 * ((held.toNat + amount.toNat) * (poolSize m + amount.toNat) / 2 ^ 128) +
        amount.toNat * amount.toNat := by
    ring
  rw [hsplit, Int.add_mul_ediv_right _ _ hpos.ne', Ratio.add_emod_eq_iff hpos.le hlt,
    Ratio.ediv_emod_eq_zero_iff hpos (by positivity)]

/-- What a market without shares grants for a deposit. -/
theorem sharesForDeposit_first (hnone : m.totalLenderShares = 0)
    (h : sharesForDeposit π m amount = some shares) : shares = amount := by
  unfold sharesForDeposit at h
  rw [poolValue_eq] at h
  simp only [Option.bind_eq_bind, Option.bind_some] at h
  rw [if_pos (.inl hnone)] at h
  exact (Option.some.inj h).symm

theorem lenderShareValue_none (hnone : m.totalLenderShares = 0) :
    lenderShareValue π m shares = some 0 := by
  unfold lenderShareValue
  rw [if_pos hnone]
  rfl

/-- What a move adds to the lent leg. -/
def LenderMove.added (amount : UInt64) : LenderMove → Int
  | .add => amount.toNat
  | .remove => -amount.toNat

/-- **What a move makes of the lent leg.** `value` is what the shares were worth before interest. -/
theorem LenderMove.worth_iff {move : LenderMove} {old : MarketState} (hamount : amount ≠ 0)
    (hvalue : lenderShareValue π old held = some value)
    (hold : m.totalLenderShares = old.totalLenderShares)
    (hshares : move.shares π m amount = some shares)
    (hsums : move.Sums amount shares m m' held held') (hborrows : m'.totalBorrows = m.totalBorrows)
    (hn' : value.toNat + move.added amount < 2 ^ 64) :
    (∃ value', lenderShareValue π m' held' = some value' ∧
      (value'.toNat : Int) = value.toNat + move.added amount) ↔
        Unnoticed π m held value amount shares move := by
  cases move with
  | add =>
    obtain ⟨hcash, htotal, hheld⟩ := hsums
    have hpool : (poolSize m' : Int) = poolSize m + amount.toNat := by
      unfold poolSize
      rw [hborrows, hcash]
      push_cast
      ring
    change _ ↔ if m.totalLenderShares = 0 then _ else _
    split
    · rename_i hnone
      obtain rfl := sharesForDeposit_first hnone hshares
      have hzero : value = 0 :=
        Option.some.inj (hvalue.symm.trans (lenderShareValue_none (hold.symm.trans hnone)))
      rw [hzero]
      have hfirst := @firstWorth_iff π m m' held held' _
        hamount (UInt64.toNat_inj.mp (by rw [htotal, hnone]; simp)) hpool
        (by rw [hheld]; push_cast; rfl)
      simpa [LenderMove.added] using hfirst
    · rename_i hlive
      have hpos : 0 < m.totalLenderShares.toNat :=
        Nat.pos_of_ne_zero fun h => hlive (UInt64.toNat_inj.mp h)
      have hleft : m'.totalLenderShares ≠ 0 := by
        intro h
        rw [h] at htotal
        simp at htotal
        omega
      exact worthMore_iff hlive hleft (by rw [htotal]; push_cast; rfl) hpool
        (by rw [hheld]; push_cast; rfl)
        (Int.add_nonneg (Int.natCast_nonneg _) (Int.natCast_nonneg _)) hn'
  | remove =>
    obtain ⟨hcash, htotal, hheld⟩ := hsums
    have hpool : (poolSize m' : Int) = poolSize m + -amount.toNat := by
      unfold poolSize
      rw [hborrows, ← hcash]
      push_cast
      ring
    change _ ↔ if m.totalLenderShares = shares then _ else _
    split
    · rename_i hall
      have hnone : m'.totalLenderShares = 0 := by
        rw [hall] at htotal
        exact UInt64.toNat_inj.mp (Nat.add_eq_right.mp htotal)
      rw [lenderShareValue_none hnone, ← UInt64.toNat_inj]
      constructor
      · rintro ⟨value', hzero, hsame⟩
        obtain rfl := Option.some.inj hzero
        rw [UInt64.toNat_zero, LenderMove.added] at hsame
        omega
      · intro hsame
        refine ⟨0, rfl, ?_⟩
        rw [UInt64.toNat_zero, LenderMove.added, hsame]
        omega
    · rename_i hsome
      have hleft : m'.totalLenderShares ≠ 0 := by
        intro h
        rw [h, UInt64.toNat_zero, Nat.zero_add] at htotal
        exact hsome (UInt64.toNat_inj.mp htotal.symm)
      have hlive : m.totalLenderShares ≠ 0 := by
        intro h
        rw [h, UInt64.toNat_zero] at htotal
        exact hleft (UInt64.toNat_inj.mp (Nat.eq_zero_of_add_eq_zero_right htotal))
      have hworth : 0 ≤ (value.toNat : Int) + -amount.toNat →
          ((∃ value', lenderShareValue π m' held' = some value' ∧
            (value'.toNat : Int) = value.toNat + -amount.toNat) ↔
              WorthMore π m held value (-amount.toNat) (-shares.toNat)) := fun hn =>
        worthMore_iff hlive hleft (by rw [← htotal]; push_cast; ring) hpool
          (by rw [← hheld]; push_cast; ring) hn hn'
      rw [UInt64.le_iff_toNat_le]
      constructor
      · intro hsame
        have hle : amount.toNat ≤ value.toNat := by
          obtain ⟨value', -, hsame'⟩ := hsame
          rw [LenderMove.added] at hsame'
          omega
        exact ⟨hle, (hworth (by omega)).mp hsame⟩
      · rintro ⟨hle, hmore⟩
        exact (hworth (by omega)).mpr hmore

end

/-! ## The cached total -/

/-- When an instruction leaves the total right: a report always, a move where, on the market with
    interest in, it shows in the lent leg as what it is. -/
def Booking.Right (π : Profile) (vault : VaultState) (market : MarketState) (timestamp : UInt64) :
    Booking → Prop
  | .move side amount => ∀ m shares value, accrueMarket π market timestamp = some m →
      side.shares π m amount = some shares →
      lenderShareValue π market vault.lenderShares = some value →
      Unnoticed π m vault.lenderShares value amount shares side
  | .report => True

section
variable {π : Profile} {hasher : Lending.Hasher} {timestamp : UInt64}
  {accounts mid out : List AccountInfo} {data : List UInt8} {vault : VaultState}
  {token : TokenAccountState} {market : MarketState} {th th' : Thread}

theorem booked_iff : Booked π vault token market ↔ ∃ value,
    lenderShareValue π market vault.lenderShares = some value ∧
      token.amount.toNat + value.toNat = vault.totalAssets.toNat :=
  Option.map_eq_some_iff

/-- A move between the legs. -/
theorem move_books {move : LenderMove} {amount : UInt64}
    (hvault : recordAt VaultState accounts 0 = some vault)
    (hidle : recordAt TokenAccountState accounts 1 = some token)
    (hmarket : recordAt MarketState accounts 2 = some market)
    (hholds : ((recordAt LenderPosition accounts 3).getD {}).shares = vault.lenderShares)
    (hbooked : Booked π vault token market)
    (h : Comp.Returns (moveLiquidity π accounts timestamp amount (move.instruction amount)) th mid
      th') :
    ∃ vault' token' market', recordAt VaultState mid 0 = some vault' ∧
      recordAt TokenAccountState mid 1 = some token' ∧
      recordAt MarketState mid 2 = some market' ∧ (Booked π vault' token' market' ↔
        (Booking.move move amount).Right π vault market timestamp) := by
  obtain ⟨v, moved, lenderShares, hv, -, hamount, hcall, hread, hstore⟩ := moveLiquidity_call h
  obtain rfl : vault = v := Option.some.inj (hvault.symm.trans hv)
  obtain ⟨m, m', q, q', hlender⟩ := mmLiquidity_call (by decide) hcall
  obtain ⟨old, hold, haccrued⟩ := hlender.market
  obtain rfl : market = old := Option.some.inj (hmarket.symm.trans hold)
  obtain ⟨shares, hshares, hsums⟩ := hlender.sums
  obtain ⟨value, hvalue, htotal⟩ := booked_iff.mp hbooked
  have hheld : q.shares = vault.lenderShares := hlender.lender.1.trans hholds
  obtain rfl : lenderShares = q'.shares := readLenderShares_recorded hlender.stored.2 hread
  rw [hheld] at hsums
  have hsame : m.totalLenderShares = market.totalLenderShares := by
    obtain ⟨_, _, _, rfl⟩ := accrueMarket_keeps haccrued
    rfl
  -- What was idle and what was lent are together what was booked.
  have hiff : ∀ token', recordAt TokenAccountState moved 1 = some token' →
      (Booked π { vault with lenderShares := q'.shares } token' m' ↔
        ∃ value', lenderShareValue π m' q'.shares = some value' ∧
          (value'.toNat : Int) = value.toNat + move.added amount) ∧
        value.toNat + move.added amount < 2 ^ 64 := by
    intro token' htoken'
    have hfits := vault.totalAssets.toNat_lt
    have hpays := hlender.tokens
    rw [booked_iff]
    cases move with
    | add =>
      obtain ⟨before, hbefore, after, hafter, -, hpaid⟩ := hpays
      obtain rfl : token = before := Option.some.inj (hidle.symm.trans hbefore)
      obtain rfl : token' = after := Option.some.inj (htoken'.symm.trans hafter)
      refine ⟨exists_congr fun value' => and_congr_right fun _ => ?_, ?_⟩
      · change token'.amount.toNat + value'.toNat = vault.totalAssets.toNat ↔
          (value'.toNat : Int) = value.toNat + amount.toNat
        omega
      · change (value.toNat : Int) + amount.toNat < 2 ^ 64
        omega
    | remove =>
      obtain ⟨before, hbefore, after, hafter, -, hgot⟩ := hpays
      obtain rfl : token = before := Option.some.inj (hidle.symm.trans hbefore)
      obtain rfl : token' = after := Option.some.inj (htoken'.symm.trans hafter)
      refine ⟨exists_congr fun value' => and_congr_right fun _ => ?_, ?_⟩
      · change token'.amount.toNat + value'.toNat = vault.totalAssets.toNat ↔
          (value'.toNat : Int) = value.toNat + -amount.toNat
        omega
      · change (value.toNat : Int) + -amount.toNat < 2 ^ 64
        omega
  obtain ⟨token', htoken'⟩ : ∃ token', recordAt TokenAccountState moved 1 = some token' := by
    have hpays := hlender.tokens
    cases move with
    | add =>
      obtain ⟨_, _, after, hafter, -⟩ := hpays
      exact ⟨after, hafter⟩
    | remove =>
      obtain ⟨_, _, after, hafter, -⟩ := hpays
      exact ⟨after, hafter⟩
  obtain ⟨hbooks, hn'⟩ := hiff token' htoken'
  refine ⟨_, token', m', recordAt_stored hstore,
    (recordAt_unstored hstore (by decide)).trans htoken',
    (recordAt_unstored hstore (by decide)).trans hlender.stored.1, hbooks.trans ?_⟩
  refine (LenderMove.worth_iff hamount hvalue hsame hshares hsums hlender.borrows hn').trans ?_
  constructor
  · intro hunseen m₀ shares₀ value₀ hm₀ hshares₀ hvalue₀
    obtain rfl := Option.some.inj (haccrued.symm.trans hm₀)
    obtain rfl := Option.some.inj (hshares.symm.trans hshares₀)
    obtain rfl := Option.some.inj (hvalue.symm.trans hvalue₀)
    exact hunseen
  · intro hright
    exact hright m shares value haccrued hshares hvalue

/-- A report. -/
theorem report_books (hvault : recordAt VaultState accounts 0 = some vault)
    (hidle : recordAt TokenAccountState accounts 2 = some token)
    (hon : Booking.report.On accounts vault market) (hbooked : Booked π vault token market)
    (h : Comp.Returns (Vault.report π accounts) th mid th') :
    ∃ vault' token', recordAt VaultState mid 0 = some vault' ∧
      recordAt TokenAccountState mid 2 = some token' ∧ Booking.report.On mid vault' market ∧
      Booked π vault' token' market := by
  obtain ⟨v, nav, fee, hdone⟩ := report_call h
  obtain rfl : vault = v := Option.some.inj (hvault.symm.trans hdone.held)
  obtain ⟨totalShares, hstored, -⟩ := hdone.stored
  obtain ⟨deployed, idle, hdeployed, hbalance, hsum⟩ := hdone.priced
  obtain ⟨token₀, htoken₀, rfl⟩ := balance_eq_ok hbalance
  obtain rfl : token = token₀ := Option.some.inj (hidle.symm.trans htoken₀)
  have hkept : ∀ {α : Type} [Borsh α] {n : Nat}, n ∉ [3, 4, 0] →
      recordAt α mid n = recordAt α accounts n := fun hn => recordAt_congr (report_other h hn)
  refine ⟨_, token, hstored, (hkept (by decide)).trans hidle,
    fun hlends => (hkept (by decide)).trans (hon hlends),
    booked_iff.mpr ⟨deployed, ?_, (checkedAdd_eq_some hsum).symm⟩⟩
  unfold deployedValue at hdeployed
  split at hdeployed
  · rename_i hlends
    obtain ⟨_, -, h₁⟩ := bind_eq_ok.mp hdeployed
    obtain ⟨market', hload, h₂⟩ := bind_eq_ok.mp h₁
    obtain rfl : market = market' :=
      Option.some.inj ((hon hlends).symm.trans (recordAt_of_load hload))
    exact orPanic_eq_ok.mp h₂
  · -- Without lender shares there is nothing to value.
    rename_i hnone
    obtain rfl := Except.ok.inj hdeployed
    obtain ⟨value, hvalue, -⟩ := booked_iff.mp hbooked
    rw [hvalue]
    have hzero : vault.lenderShares.toNat = 0 := by
      rw [UInt64.lt_iff_toNat_lt] at hnone
      simpa using hnone
    by_cases hlive : market.totalLenderShares = 0
    · rw [lenderShareValue_none hlive] at hvalue
      exact hvalue.symm
    · have hworth := ((lenderShareValue_eq_some_iff hlive).mp hvalue).2
      rw [hzero, Nat.zero_mul, Nat.zero_mod, Nat.zero_div, Nat.zero_mod] at hworth
      exact congrArg some (UInt64.toNat_inj.mp hworth)

/-- **When the cached total is right again.** -/
theorem cache_kept_iff {p : Booking} (hdata : tryFromSlice data = some p.instruction)
    (hvault : recordAt VaultState accounts 0 = some vault)
    (hidle : recordAt TokenAccountState accounts p.assets = some token)
    (hon : p.On accounts vault market) (hholds : p.Holds accounts vault)
    (hbooked : Booked π vault token market)
    (h : Comp.Returns (dispatch π hasher ProgramIds.vaultProgram accounts data timestamp) th out
      th') :
    ∃ vault' token' market', recordAt VaultState out 0 = some vault' ∧
      recordAt TokenAccountState out p.assets = some token' ∧ p.On out vault' market' ∧
      (Booked π vault' token' market' ↔ p.Right π vault market timestamp) := by
  obtain ⟨mid, th₀, th₁, hrun, hread⟩ := vault_returns hdata h
  cases p with
  | move side amount =>
    have hmove : Comp.Returns (moveLiquidity π accounts timestamp amount (side.instruction amount))
        th₀ mid th₁ := by
      cases side with
      | add => exact hrun
      | remove => exact hrun
    obtain ⟨vault', token', market', hvault', htoken', hmarket', hiff⟩ :=
      move_books hvault hidle hon hholds hbooked hmove
    exact ⟨vault', token', market', (hread _ 0).trans hvault', (hread _ 1).trans htoken',
      (hread _ 2).trans hmarket', hiff⟩
  | report =>
    obtain ⟨vault', token', hvault', htoken', hon', hbooked'⟩ :=
      report_books hvault hidle hon hbooked hrun
    exact ⟨vault', token', market, (hread _ 0).trans hvault', (hread _ 2).trans htoken',
      fun hlends => (hread _ 5).trans (hon' hlends), iff_of_true hbooked' trivial⟩

end

/-! ## Moving to a market -/

/-- A vault that has 1000 idle and nothing lent. -/
def idleVault : VaultState where
  assetMint := .repeated 8
  shareMint := .repeated 4
  assetVault := .repeated 2
  manager := .repeated 9
  totalAssets := 1000
  totalShares := 1000
  isInitialized := true

def assetTokens (amount : UInt64) : TokenAccountState :=
  { mint := .repeated 8, amount, state := .initialized }

/-- A market that lends nothing and holds 1500 for its `shares`. -/
def cashMarket (cash shares : UInt64) : MarketState where
  totalCash := cash
  totalLenderShares := shares
  isInitialized := true

def deployAccounts (shares : UInt64) : List AccountInfo :=
  [recordAccount (.repeated 0) ProgramIds.vaultProgram idleVault,
    recordAccount (.repeated 2) ProgramIds.tokenProgram (assetTokens 1000),
    recordAccount (.repeated 6) ProgramIds.moneyMarketProgram (cashMarket 1500 shares),
    { key := .repeated 10, lamports := 0, data := [], owner := ProgramIds.systemProgram },
    recordAccount (.repeated 7) ProgramIds.tokenProgram (assetTokens 1500),
    { key := .repeated 9, lamports := 0, data := [], owner := ProgramIds.systemProgram
      isSigner := true, isWritable := false }]

def deployHundred : List UInt8 := (toVec (VaultInstruction.deploy 100)).getD []

/-- What is passed to the deposit of 100, and what it leaves of it. -/
def Deployed (shares minted : UInt64) : Prop :=
  let accounts := deployAccounts shares
  let out := leftBy accounts deployHundred
  (recordAt VaultState accounts 0 = some idleVault ∧
    recordAt TokenAccountState accounts 1 = some (assetTokens 1000) ∧
    recordAt MarketState accounts 2 = some (cashMarket 1500 shares) ∧
    recordAt LenderPosition accounts 3 = none) ∧
  (runVault accounts deployHundred).1.isOk = true ∧
  recordAt VaultState out 0 = some { idleVault with lenderShares := minted } ∧
  recordAt TokenAccountState out 1 = some (assetTokens 900) ∧
  recordAt MarketState out 2 = some (cashMarket 1600 (shares + minted))

instance (shares minted : UInt64) : Decidable (Deployed shares minted) :=
  inferInstanceAs (Decidable ((_ ∧ _) ∧ _))

/-- At a rate of one for one, 100 that are lent are worth 100. -/
theorem cache_kept_par : ∃ vault' token' market',
    recordAt VaultState (leftBy (deployAccounts 1500) deployHundred) 0 = some vault' ∧
    recordAt TokenAccountState (leftBy (deployAccounts 1500) deployHundred) 1 = some token' ∧
    recordAt MarketState (leftBy (deployAccounts 1500) deployHundred) 2 = some market' ∧
    Booked .dev vault' token' market' := by
  have hcheck : Deployed 1500 100 := by decide +kernel
  obtain ⟨⟨hvault, htoken, hmarket, hlender⟩, hok, -⟩ := hcheck
  have hdata : tryFromSlice deployHundred = some (Booking.move .add 100).instruction := by decide
  obtain ⟨vault', token', market', hvault', htoken', hmarket', hiff⟩ :=
    cache_kept_iff hdata hvault htoken (show Booking.On _ _ (cashMarket 1500 1500) _ from hmarket)
      (by rw [Booking.Holds, hlender]; rfl) (by decide)
      (Comp.returns_of_ok (runVault_eq hok))
  refine ⟨vault', token', market', hvault', htoken', hmarket', hiff.mpr ?_⟩
  intro m shares value hm hshares hvalue
  obtain rfl : cashMarket 1500 1500 = m := Option.some.inj hm
  obtain rfl : 100 = shares := by
    have hminted : sharesForDeposit .dev (cashMarket 1500 1500) 100 = some 100 := by decide
    exact Option.some.inj (hminted.symm.trans hshares)
  obtain rfl : 0 = value := by
    have hnone : lenderShareValue .dev (cashMarket 1500 1500) 0 = some 0 := by decide
    exact Option.some.inj (hnone.symm.trans hvalue)
  change WorthMore .dev _ 0 0 100 100
  exact ⟨fun _ => by decide, by decide⟩

/-- **A share less.** At a rate of 1.5, 100 buy 66 shares, which are worth 99. -/
theorem deploy_unbooked : ¬ ∀ (π : Profile) (hasher : Lending.Hasher) (p : Booking)
    (vault : VaultState) (token : TokenAccountState) (market : MarketState)
    (accounts out : List AccountInfo) (data : List UInt8) (timestamp : UInt64),
      tryFromSlice data = some p.instruction → recordAt VaultState accounts 0 = some vault →
      recordAt TokenAccountState accounts p.assets = some token → p.On accounts vault market →
      p.Holds accounts vault → Booked π vault token market →
      (Comp.exec (dispatch π hasher ProgramIds.vaultProgram accounts data timestamp) {}).1 =
        .ok out →
      ∃ vault' token' market', recordAt VaultState out 0 = some vault' ∧
        recordAt TokenAccountState out p.assets = some token' ∧ p.On out vault' market' ∧
        Booked π vault' token' market' := by
  intro hclaim
  have hcheck : Deployed 1000 66 := by decide +kernel
  obtain ⟨⟨hvault, htoken, hmarket, hlender⟩, hok, hvault', htoken', hmarket'⟩ := hcheck
  obtain ⟨v, k, m, hv, hk, hm, hbooked⟩ := hclaim .dev .sorted (.move .add 100) idleVault
    (assetTokens 1000) (cashMarket 1500 1000) (deployAccounts 1000) _ deployHundred 0 (by decide)
    hvault htoken hmarket (by rw [Booking.Holds, hlender]; rfl)
    (by decide) (runVault_eq hok)
  obtain rfl := Option.some.inj (hvault'.symm.trans hv)
  obtain rfl := Option.some.inj (htoken'.symm.trans hk)
  obtain rfl := Option.some.inj (hmarket'.symm.trans hm)
  exact absurd hbooked (by decide)

end Proof
end Himsha
