import Himsha.Proof.MarketMath
import Himsha.Proof.TokenCalls

/-!
# Calls of the money market

Every instruction that a money market takes part in moves tokens between the slots from 2 on, by
invoking the token program, and last rewrites the market in slot 0 and the position in slot 1.
`MarketPost` says, for each of the nine, what it moved and what it wrote.
-/

set_option autoImplicit false

namespace Himsha
namespace Proof

open Himsha.Lib Himsha.Runtime Himsha.Programs Himsha.Vm Token MoneyMarket

/-! ## Tokens between slots -/

/-- What token calls on the slots from 2 on leave of a table: the first two slots, and of the others
    everything but what a token account holds. They approve what they wrote. -/
structure Shifted (th th' : Thread) (accounts moved : List AccountInfo) : Prop where
  low : ∀ n, n < 2 → moved[n]? = accounts[n]?
  length : moved.length = accounts.length
  slot : ∀ (n : Nat) (a : AccountInfo), accounts[n]? = some a →
    ∃ d, moved[n]? = some { a with data := d } ∧
      (d = a.data ∨ a.isWritable = true ∧ ∃ token token' : TokenAccountState,
        tryFromSlice a.data = some token ∧ tryFromSlice d = some token')
  approves : ∀ k ∈ th'.approved, k ∈ th.approved ∨
    ∃ n a, 2 ≤ n ∧ accounts[n]? = some a ∧ a.isWritable = true ∧ a.key = k

namespace Shifted

variable {th th' th'' : Thread} {accounts mid moved : List AccountInfo}

theorem refl : Shifted th th accounts accounts where
  low _ _ := rfl
  length := rfl
  slot _ a ha := ⟨a.data, ha, .inl rfl⟩
  approves _ hk := .inl hk

theorem trans (h : Shifted th th' accounts mid) (h' : Shifted th' th'' mid moved) :
    Shifted th th'' accounts moved where
  low n hn := (h'.low n hn).trans (h.low n hn)
  length := h'.length.trans h.length
  slot := by
    intro n a ha
    obtain ⟨d, hd, hkept⟩ := h.slot n a ha
    obtain ⟨e, he, hkept'⟩ := h'.slot n _ hd
    refine ⟨e, he, ?_⟩
    rcases hkept' with hsame' | ⟨hwritable, token, token', hheld, hnow⟩
    · rw [show e = d from hsame']
      exact hkept
    · rcases hkept with rfl | ⟨-, first, -, hfirst, -⟩
      · exact .inr ⟨hwritable, token, token', hheld, hnow⟩
      · exact .inr ⟨hwritable, first, token', hfirst, hnow⟩
  approves := by
    intro k hk
    rcases h'.approves k hk with hk | ⟨n, a, hn, ha, hwritable, hkey⟩
    · exact h.approves k hk
    · -- The slot is the one that the table had at first, rewritten.
      have hlt : n < accounts.length := by
        rw [← h.length]
        exact (List.getElem?_eq_some_iff.mp ha).1
      obtain ⟨d, hd, -⟩ := h.slot n _ (List.getElem?_eq_getElem hlt)
      rw [ha, Option.some.injEq] at hd
      subst hd
      exact .inr ⟨n, _, hn, List.getElem?_eq_getElem hlt, hwritable, hkey⟩

end Shifted

/-- `n` tokens went from slot `i` to slot `j`. -/
structure TokensMoved (th th' : Thread) (accounts moved : List AccountInfo) (i j n : Nat) :
    Prop where
  shifted : Shifted th th' accounts moved
  paid : Paid accounts moved i n
  received : Received accounts moved j n
  other : ∀ m, m ≠ i → m ≠ j → moved[m]? = accounts[m]?

section
variable {π : Profile} {accounts moved : List AccountInfo} {i j k : Nat} {signers : List Nat}
  {n : UInt64} {th th' : Thread}

/-- A transfer between slots from 2 on. -/
theorem transfer_moves (hi : 2 ≤ i) (hj : 2 ≤ j) (hij : i ≠ j) (hik : i ≠ k) (hjk : j ≠ k)
    (h : Comp.Returns (Token.invoke π accounts [i, j, k] signers (.transfer n)) th moved th') :
    TokensMoved th th' accounts moved i j n.toNat := by
  obtain ⟨a, b, source, dest, left, amount, hrewritten, htrail, -, hleft, hamount⟩ :=
    transfer_call hij hik hjk h
  obtain ⟨d, hd, ho⟩ := hrewritten.left hij
  obtain ⟨e, he, ho'⟩ := hrewritten.right
  have hlow : ∀ m, m < 2 → moved[m]? = accounts[m]? := fun m hm =>
    hrewritten.other (by omega) (by omega)
  refine ⟨⟨hlow, ?_, ?_, ?_⟩, hrewritten.changed hij ⟨rfl, hleft⟩,
    hrewritten.changed' hij ⟨rfl, hamount⟩, fun m hmi hmj => hrewritten.other hmi hmj⟩
  · obtain ⟨_, _, -, -, rfl⟩ := hrewritten.written
    rw [List.length_set, List.length_set]
  · intro m x hx
    by_cases hmi : m = i
    · subst hmi
      rw [hrewritten.slots.1, Option.some.injEq] at hx
      subst hx
      exact ⟨d, ho, .inr ⟨hrewritten.writable.1, source, _, hrewritten.held.1,
        tryFromSlice_toVec hd⟩⟩
    · by_cases hmj : m = j
      · subst hmj
        rw [hrewritten.slots.2, Option.some.injEq] at hx
        subst hx
        exact ⟨e, ho', .inr ⟨hrewritten.writable.2, dest, _, hrewritten.held.2,
          tryFromSlice_toVec he⟩⟩
      · exact ⟨x.data, by rw [hrewritten.other hmi hmj, hx], .inl rfl⟩
  · intro key hkey
    rcases htrail.approves key hkey with rfl | rfl | hkey
    · exact .inr ⟨i, a, hi, hrewritten.slots.1, hrewritten.writable.1, rfl⟩
    · exact .inr ⟨j, b, hj, hrewritten.slots.2, hrewritten.writable.2, rfl⟩
    · exact .inl hkey

end

/-! ## The market and the position -/

/-- Slot 0 holds an initialised market, which interest brings up to date as `m`. -/
structure Opened (π : Profile) (accounts : List AccountInfo) (timestamp : UInt64)
    (a : AccountInfo) (old m : MarketState) : Prop where
  slot : accounts[0]? = some a
  held : tryFromSlice a.data = some old
  initialized : old.isInitialized = true
  accrued : accrueMarket π old timestamp = some m

/-- The position that an account stands for: an initialised one of this market, or what is not
    initialised, made the position of `owner`. -/
def Standing (marketKey owner : Pubkey) (data : List UInt8) (q : Position) : Prop :=
  (tryFromSlice data = some q ∧ q.isInitialized = true ∧ q.market = marketKey) ∨
    ((tryFromSlice data).getD {} : Position).isInitialized = false ∧
      q = { ((tryFromSlice data).getD {} : Position) with
        owner, market := marketKey, isInitialized := true }

/-- The same for lender positions. -/
def Lending (marketKey owner : Pubkey) (data : List UInt8) (q : LenderPosition) : Prop :=
  (tryFromSlice data = some q ∧ q.isInitialized = true ∧ q.market = marketKey) ∨
    ((tryFromSlice data).getD {} : LenderPosition).isInitialized = false ∧
      q = { ((tryFromSlice data).getD {} : LenderPosition) with
        owner, market := marketKey, isInitialized := true }

section
variable {π : Profile} {accounts : List AccountInfo} {timestamp : UInt64} {m : MarketState}
  {marketKey owner : Pubkey}

theorem loadMarket_opened (h : loadMarket π accounts timestamp = .ok m) :
    ∃ a old, Opened π accounts timestamp a old m := by
  obtain ⟨old, hload, h₁⟩ := bind_eq_ok.mp h
  obtain ⟨_, hinit, h₂⟩ := bind_eq_ok.mp h₁
  obtain ⟨a, ha, hdec⟩ := load_eq_ok hload
  exact ⟨a, old, ha, hdec, require_eq_ok.mp hinit, orPanic_eq_ok.mp h₂⟩

/-- What is marked is not the empty record, so it was stored. -/
theorem stored_of_marked {α : Type} {stored : Option α} {empty v : α} (mark : α → Bool)
    (hv : stored.getD empty = v) (hempty : mark empty = false) (hmark : mark v = true) :
    stored = some v := by
  cases stored with
  | some held => exact congrArg some hv
  | none =>
    obtain rfl : empty = v := hv
    exact absurd hmark (ne_of_eq_of_ne hempty Bool.false_ne_true)

theorem loadPosition_standing {q : Position}
    (h : loadPosition accounts marketKey owner = .ok q) :
    ∃ b, accounts[1]? = some b ∧ Standing marketKey owner b.data q := by
  obtain ⟨pos, hload, h₁⟩ := bind_eq_ok.mp h
  obtain ⟨b, hb, hpos⟩ := loadOr_eq_ok hload
  refine ⟨b, hb, ?_⟩
  split at h₁
  · rename_i hfresh
    right
    rw [hpos]
    exact ⟨by simpa using hfresh, (Except.ok.inj h₁).symm⟩
  · rename_i hinit
    obtain ⟨_, hmarket, h₂⟩ := bind_eq_ok.mp h₁
    obtain rfl : pos = q := Except.ok.inj h₂
    left
    have hmark : pos.isInitialized = true := by simpa using hinit
    exact ⟨stored_of_marked (·.isInitialized) hpos rfl hmark, hmark,
      by simpa using require_eq_ok.mp hmarket⟩

theorem loadLenderPosition_lending {q : LenderPosition}
    (h : loadLenderPosition accounts marketKey owner = .ok q) :
    ∃ b, accounts[1]? = some b ∧ Lending marketKey owner b.data q := by
  obtain ⟨pos, hload, h₁⟩ := bind_eq_ok.mp h
  obtain ⟨b, hb, hpos⟩ := loadOr_eq_ok hload
  refine ⟨b, hb, ?_⟩
  split at h₁
  · rename_i hfresh
    right
    rw [hpos]
    exact ⟨by simpa using hfresh, (Except.ok.inj h₁).symm⟩
  · rename_i hinit
    obtain ⟨_, hmarket, h₂⟩ := bind_eq_ok.mp h₁
    obtain rfl : pos = q := Except.ok.inj h₂
    have hboth := require_eq_ok.mp hmarket
    rw [Bool.and_eq_true, beq_iff_eq] at hboth
    left
    have hmark : pos.isInitialized = true := by simpa using hinit
    exact ⟨stored_of_marked (·.isInitialized) hpos rfl hmark, hmark, hboth.1⟩

end

/-- What interest leaves of a market. -/
theorem accrueMarket_keeps {old m : MarketState} {now : UInt64} {π : Profile}
    (h : accrueMarket π old now = some m) : ∃ borrowIndex totalBorrows lastAccrualTs,
      m = { old with borrowIndex, totalBorrows, lastAccrualTs } := by
  unfold accrueMarket at h
  split at h
  · split at h
    · exact ⟨old.borrowIndex, old.totalBorrows, now, (Option.some.inj h).symm⟩
    · exact ⟨old.borrowIndex, old.totalBorrows, old.lastAccrualTs, (Option.some.inj h).symm⟩
  · dsimp only at h
    split at h
    · exact ⟨old.borrowIndex, old.totalBorrows, now, (Option.some.inj h).symm⟩
    · obtain ⟨rate, -, h₁⟩ := Option.bind_eq_some_iff.mp h
      split at h₁
      · exact ⟨old.borrowIndex, old.totalBorrows, now, (Option.some.inj h₁).symm⟩
      · obtain ⟨scaled, -, h₂⟩ := Option.bind_eq_some_iff.mp h₁
        obtain ⟨num, -, h₃⟩ := Option.bind_eq_some_iff.mp h₂
        obtain ⟨product, -, h₄⟩ := Option.bind_eq_some_iff.mp h₃
        obtain ⟨borrows, -, h₅⟩ := Option.bind_eq_some_iff.mp h₄
        exact ⟨_, asU64 borrows, now, (Option.some.inj h₅).symm⟩

/-- And of a position. -/
theorem accruePosition_keeps {q p : Position} {index : U128} {π : Profile}
    (h : accruePosition π q index = some p) :
    ∃ debt borrowIndexSnapshot, p = { q with debt, borrowIndexSnapshot } := by
  unfold accruePosition at h
  split at h
  · exact ⟨q.debt, index, (Option.some.inj h).symm⟩
  · split at h
    · obtain ⟨scaled, -, h₁⟩ := Option.bind_eq_some_iff.mp h
      obtain ⟨debt, -, h₂⟩ := Option.bind_eq_some_iff.mp h₁
      exact ⟨asU64 debt, index, (Option.some.inj h₂).symm⟩
    · exact ⟨q.debt, index, (Option.some.inj h).symm⟩

/-! ## The nine instructions -/

/-- The market that an `initMarket` writes over `old`. -/
def openedMarket (terms : MarketTerms) (timestamp : UInt64)
    (collateralMint borrowMint collateralVault borrowVault oracleFeed : Pubkey)
    (old : MarketState) : MarketState :=
  { old with
    collateralMint
    borrowMint
    collateralVault
    borrowVault
    oracleFeed
    collateralFactorBps := terms.collateralFactorBps
    liquidationThresholdBps := terms.liquidationThresholdBps
    liquidationBonusBps := terms.liquidationBonusBps
    closeFactorBps := terms.closeFactorBps
    price := terms.price
    priceUpdatedAt := timestamp
    maxPriceStaleness := terms.maxPriceStaleness
    baseRateBps := terms.baseRateBps
    slopeBps := terms.slopeBps
    kinkUtilizationBps := terms.kinkUtilizationBps
    jumpSlopeBps := terms.jumpSlopeBps
    borrowIndex := indexScale
    lastAccrualTs := timestamp
    isInitialized := true }

/-- An instruction on a lender position: the market `m` and the position `q` were written back as
    `m'` and `q'`. -/
structure LenderDeal (π : Profile) (accounts moved mid : List AccountInfo) (timestamp : UInt64)
    (a b : AccountInfo) (old m m' : MarketState) (q q' : LenderPosition) : Prop where
  opened : Opened π accounts timestamp a old m
  second : accounts[1]? = some b
  lending : ∃ owner, Lending a.key owner b.data q
  stored : storeBoth moved m' q' = .ok mid

/-- An instruction on a position `q`, which was brought up to date as `p`. -/
structure PositionDeal (π : Profile) (accounts moved mid : List AccountInfo) (timestamp : UInt64)
    (a b : AccountInfo) (old m m' : MarketState) (q p p' : Position) : Prop where
  opened : Opened π accounts timestamp a old m
  second : accounts[1]? = some b
  standing : ∃ owner, Standing a.key owner b.data q
  accrued : accruePosition π q m.borrowIndex = some p
  stored : storeBoth moved m' p' = .ok mid

/-- What the instructions of the money market did. -/
def MarketPost (π : Profile) (timestamp : UInt64) (th th' : Thread)
    (accounts mid : List AccountInfo) : MoneyMarketInstruction → Prop
  | .initMarket terms => th' = th ∧
      ∃ (a b : AccountInfo) (old : MarketState) (cm bm cv bv feed : Pubkey),
      accounts[0]? = some a ∧ accounts[1]? = some b ∧ (tryFromSlice a.data).getD {} = old ∧
      old.isInitialized = false ∧
      keyAt accounts 1 = some cm ∧ keyAt accounts 2 = some bm ∧ keyAt accounts 3 = some cv ∧
      keyAt accounts 4 = some bv ∧
      store accounts 0 (openedMarket terms timestamp cm bm cv bv feed old) = .ok mid
  | .syncPrice => th' = th ∧ ∃ (a b : AccountInfo) (old : MarketState) (price at_ : UInt64),
      accounts[0]? = some a ∧ accounts[1]? = some b ∧ tryFromSlice a.data = some old ∧
      old.isInitialized = true ∧
      store accounts 0 { old with price, priceUpdatedAt := at_ } = .ok mid
  | .addLiquidity amount =>
      ∃ moved a b old m q, ∃ (shares totalCash totalLenderShares held : UInt64),
      LenderDeal π accounts moved mid timestamp a b old m { m with totalCash, totalLenderShares } q
        { q with shares := held } ∧
      TokensMoved th th' accounts moved 2 3 amount.toNat ∧
      totalCash.toNat = m.totalCash.toNat + amount.toNat ∧
      totalLenderShares.toNat = m.totalLenderShares.toNat + shares.toNat ∧
      held.toNat = q.shares.toNat + shares.toNat
  | .removeLiquidity amount =>
      ∃ moved a b old m q, ∃ (shares totalCash totalLenderShares held : UInt64),
      LenderDeal π accounts moved mid timestamp a b old m { m with totalCash, totalLenderShares } q
        { q with shares := held } ∧
      TokensMoved th th' accounts moved 3 2 amount.toNat ∧
      totalCash.toNat + amount.toNat = m.totalCash.toNat ∧
      totalLenderShares.toNat + shares.toNat = m.totalLenderShares.toNat ∧
      held.toNat + shares.toNat = q.shares.toNat
  | .supply amount => ∃ moved a b old m q p, ∃ (collateral totalCollateral : UInt64),
      PositionDeal π accounts moved mid timestamp a b old m { m with totalCollateral } q p
        { p with collateral } ∧
      TokensMoved th th' accounts moved 2 3 amount.toNat ∧
      totalCollateral.toNat = m.totalCollateral.toNat + amount.toNat ∧
      collateral.toNat = p.collateral.toNat + amount.toNat
  | .withdraw amount => ∃ moved a b old m q p, ∃ (collateral totalCollateral : UInt64),
      PositionDeal π accounts moved mid timestamp a b old m { m with totalCollateral } q p
        { p with collateral } ∧
      TokensMoved th th' accounts moved 3 2 amount.toNat ∧
      totalCollateral.toNat + amount.toNat = m.totalCollateral.toNat ∧
      collateral.toNat + amount.toNat = p.collateral.toNat
  | .borrow amount => ∃ moved a b old m q p, ∃ (debt totalCash totalBorrows : UInt64),
      PositionDeal π accounts moved mid timestamp a b old m { m with totalCash, totalBorrows } q p
        { p with debt } ∧
      TokensMoved th th' accounts moved 3 2 amount.toNat ∧
      totalCash.toNat + amount.toNat = m.totalCash.toNat ∧
      totalBorrows.toNat = m.totalBorrows.toNat + amount.toNat ∧
      debt.toNat = p.debt.toNat + amount.toNat
  | .repay amount => ∃ moved a b old m q p, ∃ (debt totalCash : UInt64),
      PositionDeal π accounts moved mid timestamp a b old m
        { m with totalCash
                 totalBorrows := saturatingSub m.totalBorrows (min amount p.debt) } q p
        { p with debt } ∧
      TokensMoved th th' accounts moved 2 3 (min amount p.debt).toNat ∧
      positionPrologue π accounts timestamp false = .ok (m, p) ∧
      totalCash.toNat = m.totalCash.toNat + (min amount p.debt).toNat ∧
      debt.toNat + (min amount p.debt).toNat = p.debt.toNat
  | .liquidate amount => ∃ paid moved th₁ a b old m q p,
      ∃ (most repaid seized debt collateral totalCash : UInt64),
      PositionDeal π accounts moved mid timestamp a b old m
        { m with totalBorrows := saturatingSub m.totalBorrows repaid
                 totalCash
                 totalCollateral := saturatingSub m.totalCollateral seized } q p
        { p with debt, collateral } ∧
      TokensMoved th th₁ accounts paid 2 3 repaid.toNat ∧
      TokensMoved th₁ th' paid moved 5 4 seized.toNat ∧
      loadMarket π accounts timestamp = .ok m ∧ tryFromSlice b.data = some q ∧
      maxLiquidationRepay π m p.debt = some most ∧ repaid = min amount most ∧ repaid ≠ 0 ∧
      totalCash.toNat = m.totalCash.toNat + repaid.toNat ∧
      debt.toNat + repaid.toNat = p.debt.toNat ∧
      collateral.toNat + seized.toNat = p.collateral.toNat

section
variable {π : Profile} {accounts mid : List AccountInfo} {timestamp amount : UInt64}
  {th th' : Thread}

theorem liquidityPrologue_eq_ok {m : MarketState} {q : LenderPosition}
    (h : liquidityPrologue π accounts timestamp amount = .ok (m, q)) :
    ∃ a b old owner, Opened π accounts timestamp a old m ∧ accounts[1]? = some b ∧
      Lending a.key owner b.data q := by
  obtain ⟨_, -, h₁⟩ := bind_eq_ok.mp h
  obtain ⟨provider, -, h₂⟩ := bind_eq_ok.mp h₁
  obtain ⟨_, -, h₃⟩ := bind_eq_ok.mp h₂
  obtain ⟨_, -, h₄⟩ := bind_eq_ok.mp h₃
  obtain ⟨m', hmarket, h₅⟩ := bind_eq_ok.mp h₄
  obtain ⟨first, hfirst, h₆⟩ := bind_eq_ok.mp h₅
  obtain ⟨q', hlender, h₇⟩ := bind_eq_ok.mp h₆
  cases h₇
  obtain ⟨a, old, hopened⟩ := loadMarket_opened hmarket
  obtain ⟨b, hb, hlending⟩ := loadLenderPosition_lending hlender
  obtain rfl : first = a := Option.some.inj ((slot_eq_ok hfirst).symm.trans hopened.slot)
  exact ⟨first, b, old, provider.key, hopened, hb, hlending⟩

theorem positionPrologue_eq_ok {owned : Bool} {m : MarketState} {p : Position}
    (h : positionPrologue π accounts timestamp owned = .ok (m, p)) :
    ∃ a b old q owner, Opened π accounts timestamp a old m ∧ accounts[1]? = some b ∧
      Standing a.key owner b.data q ∧ accruePosition π q m.borrowIndex = some p := by
  obtain ⟨_, -, h₁⟩ := bind_eq_ok.mp h
  obtain ⟨user, -, h₂⟩ := bind_eq_ok.mp h₁
  obtain ⟨_, -, h₃⟩ := bind_eq_ok.mp h₂
  obtain ⟨m', hmarket, h₄⟩ := bind_eq_ok.mp h₃
  obtain ⟨first, hfirst, h₅⟩ := bind_eq_ok.mp h₄
  obtain ⟨q, hposition, h₆⟩ := bind_eq_ok.mp h₅
  obtain ⟨_, -, h₇⟩ := bind_eq_ok.mp h₆
  obtain ⟨p', haccrued, h₈⟩ := bind_eq_ok.mp h₇
  cases h₈
  obtain ⟨a, old, hopened⟩ := loadMarket_opened hmarket
  obtain ⟨b, hb, hstanding⟩ := loadPosition_standing hposition
  obtain rfl : first = a := Option.some.inj ((slot_eq_ok hfirst).symm.trans hopened.slot)
  exact ⟨first, b, old, q, user.key, hopened, hb, hstanding, orPanic_eq_ok.mp haccrued⟩

/-! Each instruction peels its checks, its calls and its sums in turn. -/

theorem initMarket_post {terms : MarketTerms}
    (h : Comp.Returns (MoneyMarket.run π accounts timestamp (.initMarket terms)) th mid th') :
    MarketPost π timestamp th th' accounts mid (.initMarket terms) := by
  obtain ⟨hrun, rfl⟩ := Comp.returns_ofExcept.mp h
  obtain ⟨_, -, h₁⟩ := bind_eq_ok.mp hrun
  obtain ⟨_, -, h₂⟩ := bind_eq_ok.mp h₁
  obtain ⟨_, -, h₃⟩ := bind_eq_ok.mp h₂
  obtain ⟨_, -, h₄⟩ := bind_eq_ok.mp h₃
  obtain ⟨_, -, h₅⟩ := bind_eq_ok.mp h₄
  obtain ⟨_, -, h₆⟩ := bind_eq_ok.mp h₅
  obtain ⟨_, -, h₇⟩ := bind_eq_ok.mp h₆
  obtain ⟨old, hload, h₈⟩ := bind_eq_ok.mp h₇
  obtain ⟨_, hfresh, h₉⟩ := bind_eq_ok.mp h₈
  obtain ⟨first, hfirst, h₁₀⟩ := bind_eq_ok.mp h₉
  obtain ⟨second, hsecond, h₁₁⟩ := bind_eq_ok.mp h₁₀
  obtain ⟨third, hthird, h₁₂⟩ := bind_eq_ok.mp h₁₁
  obtain ⟨fourth, hfourth, h₁₃⟩ := bind_eq_ok.mp h₁₂
  obtain ⟨sixth, -, hstore⟩ := bind_eq_ok.mp h₁₃
  obtain ⟨a, ha, hold⟩ := loadOr_eq_ok hload
  have hkey : ∀ {i : Nat} {x : AccountInfo}, slot accounts i = .ok x →
      keyAt accounts i = some x.key := fun hx => keyAt_slot (slot_eq_ok hx)
  exact ⟨rfl, a, first, old, first.key, second.key, third.key, fourth.key, sixth.key, ha,
    slot_eq_ok hfirst, hold, by simpa using require_eq_ok.mp hfresh, hkey hfirst, hkey hsecond,
    hkey hthird, hkey hfourth, hstore⟩

theorem syncPrice_post
    (h : Comp.Returns (MoneyMarket.run π accounts timestamp .syncPrice) th mid th') :
    MarketPost π timestamp th th' accounts mid .syncPrice := by
  obtain ⟨hrun, rfl⟩ := Comp.returns_ofExcept.mp h
  obtain ⟨_, -, h₁⟩ := bind_eq_ok.mp hrun
  obtain ⟨old, hload, h₂⟩ := bind_eq_ok.mp h₁
  obtain ⟨_, hinit, h₃⟩ := bind_eq_ok.mp h₂
  obtain ⟨second, hsecond, h₄⟩ := bind_eq_ok.mp h₃
  obtain ⟨_, -, h₅⟩ := bind_eq_ok.mp h₄
  obtain ⟨feed, -, h₆⟩ := bind_eq_ok.mp h₅
  obtain ⟨_, -, hstore⟩ := bind_eq_ok.mp h₆
  obtain ⟨a, ha, hold⟩ := load_eq_ok hload
  exact ⟨rfl, a, second, old, feed.price, feed.publishTs, ha, slot_eq_ok hsecond, hold,
    require_eq_ok.mp hinit, hstore⟩

/-- What an `AddLiquidity` that succeeds has computed on the way to the two records. -/
theorem addLiquidity_stages
    (h : Comp.Returns (MoneyMarket.run π accounts timestamp (.addLiquidity amount)) th mid th') :
    ∃ (m : MarketState) (q : LenderPosition) (shares totalCash totalLenderShares held : UInt64)
      (moved : List AccountInfo),
      liquidityPrologue π accounts timestamp amount = .ok (m, q) ∧
      sharesForDeposit π m amount = some shares ∧
      TokensMoved th th' accounts moved 2 3 amount.toNat ∧
      totalCash.toNat = m.totalCash.toNat + amount.toNat ∧
      totalLenderShares.toNat = m.totalLenderShares.toNat + shares.toNat ∧
      held.toNat = q.shares.toNat + shares.toNat ∧
      storeBoth moved { m with totalCash, totalLenderShares } { q with shares := held } =
        .ok mid := by
  obtain ⟨⟨m, q⟩, hprologue, h₁⟩ := returns_lift h
  obtain ⟨shares, hshares, h₂⟩ := returns_lift h₁
  obtain ⟨moved, _, hmoved, h₃⟩ := Comp.returns_bind.mp h₂
  obtain ⟨totalCash, hcash, h₄⟩ := returns_lift h₃
  obtain ⟨total, htotal, h₅⟩ := returns_lift h₄
  obtain ⟨held, hheld, h₆⟩ := returns_lift h₅
  obtain ⟨hstored, rfl⟩ := Comp.returns_ofExcept.mp h₆
  exact ⟨m, q, shares, totalCash, total, held, moved, hprologue, orPanic_eq_ok.mp hshares,
    transfer_moves (by decide) (by decide) (by decide) (by decide) (by decide) hmoved,
    checkedAdd_eq_some (okOr_eq_ok.mp hcash), checkedAdd_eq_some (okOr_eq_ok.mp htotal),
    checkedAdd_eq_some (okOr_eq_ok.mp hheld), hstored⟩

theorem addLiquidity_post
    (h : Comp.Returns (MoneyMarket.run π accounts timestamp (.addLiquidity amount)) th mid th') :
    MarketPost π timestamp th th' accounts mid (.addLiquidity amount) := by
  obtain ⟨m, q, shares, totalCash, total, held, moved, hprologue, -, hmoved, hcash, htotal, hheld,
    hstored⟩ := addLiquidity_stages h
  obtain ⟨a, b, old, owner, hopened, hb, hlending⟩ := liquidityPrologue_eq_ok hprologue
  exact ⟨moved, a, b, old, m, q, shares, totalCash, total, held,
    ⟨hopened, hb, ⟨owner, hlending⟩, hstored⟩, hmoved, hcash, htotal, hheld⟩

/-- What a `RemoveLiquidity` that succeeds has computed on the way to the two records. -/
theorem removeLiquidity_stages
    (h : Comp.Returns (MoneyMarket.run π accounts timestamp (.removeLiquidity amount)) th mid
      th') :
    ∃ (m : MarketState) (q : LenderPosition) (shares totalCash totalLenderShares held : UInt64)
      (moved : List AccountInfo),
      liquidityPrologue π accounts timestamp amount = .ok (m, q) ∧
      sharesForWithdraw π m amount = some shares ∧
      TokensMoved th th' accounts moved 3 2 amount.toNat ∧
      totalCash.toNat + amount.toNat = m.totalCash.toNat ∧
      totalLenderShares.toNat + shares.toNat = m.totalLenderShares.toNat ∧
      held.toNat + shares.toNat = q.shares.toNat ∧
      storeBoth moved { m with totalCash, totalLenderShares } { q with shares := held } =
        .ok mid := by
  obtain ⟨⟨m, q⟩, hprologue, h₁⟩ := returns_lift h
  obtain ⟨shares, hshares, h₂⟩ := returns_lift h₁
  obtain ⟨_, -, h₃⟩ := returns_lift h₂
  obtain ⟨_, -, h₄⟩ := returns_lift h₃
  obtain ⟨moved, _, hmoved, h₅⟩ := Comp.returns_bind.mp h₄
  obtain ⟨totalCash, hcash, h₆⟩ := returns_lift h₅
  obtain ⟨total, htotal, h₇⟩ := returns_lift h₆
  obtain ⟨held, hheld, h₈⟩ := returns_lift h₇
  obtain ⟨hstored, rfl⟩ := Comp.returns_ofExcept.mp h₈
  exact ⟨m, q, shares, totalCash, total, held, moved, hprologue, orPanic_eq_ok.mp hshares,
    transfer_moves (by decide) (by decide) (by decide) (by decide) (by decide) hmoved,
    checkedSub_eq_some (okOr_eq_ok.mp hcash), checkedSub_eq_some (okOr_eq_ok.mp htotal),
    checkedSub_eq_some (okOr_eq_ok.mp hheld), hstored⟩

theorem removeLiquidity_post
    (h : Comp.Returns (MoneyMarket.run π accounts timestamp (.removeLiquidity amount)) th mid
      th') :
    MarketPost π timestamp th th' accounts mid (.removeLiquidity amount) := by
  obtain ⟨m, q, shares, totalCash, total, held, moved, hprologue, -, hmoved, hcash, htotal, hheld,
    hstored⟩ := removeLiquidity_stages h
  obtain ⟨a, b, old, owner, hopened, hb, hlending⟩ := liquidityPrologue_eq_ok hprologue
  exact ⟨moved, a, b, old, m, q, shares, totalCash, total, held,
    ⟨hopened, hb, ⟨owner, hlending⟩, hstored⟩, hmoved, hcash, htotal, hheld⟩

theorem supply_post
    (h : Comp.Returns (MoneyMarket.run π accounts timestamp (.supply amount)) th mid th') :
    MarketPost π timestamp th th' accounts mid (.supply amount) := by
  obtain ⟨⟨m, p⟩, hprologue, h₁⟩ := returns_lift h
  obtain ⟨moved, _, hmoved, h₂⟩ := Comp.returns_bind.mp h₁
  obtain ⟨collateral, hcollateral, h₃⟩ := returns_lift h₂
  obtain ⟨total, htotal, h₄⟩ := returns_lift h₃
  obtain ⟨hstored, rfl⟩ := Comp.returns_ofExcept.mp h₄
  obtain ⟨a, b, old, q, owner, hopened, hb, hstanding, haccrued⟩ :=
    positionPrologue_eq_ok hprologue
  exact ⟨moved, a, b, old, m, q, p, collateral, total,
    ⟨hopened, hb, ⟨owner, hstanding⟩, haccrued, hstored⟩,
    transfer_moves (by decide) (by decide) (by decide) (by decide) (by decide) hmoved,
    checkedAdd_eq_some (okOr_eq_ok.mp htotal), checkedAdd_eq_some (okOr_eq_ok.mp hcollateral)⟩

theorem withdraw_post
    (h : Comp.Returns (MoneyMarket.run π accounts timestamp (.withdraw amount)) th mid th') :
    MarketPost π timestamp th th' accounts mid (.withdraw amount) := by
  obtain ⟨⟨m, p⟩, hprologue, h₁⟩ := returns_lift h
  obtain ⟨_, -, h₂⟩ := returns_lift h₁
  obtain ⟨remaining, hremaining, h₃⟩ := returns_lift h₂
  obtain ⟨_, -, h₄⟩ := returns_lift h₃
  obtain ⟨_, -, h₅⟩ := returns_lift h₄
  obtain ⟨moved, _, hmoved, h₆⟩ := Comp.returns_bind.mp h₅
  obtain ⟨total, htotal, h₇⟩ := returns_lift h₆
  obtain ⟨hstored, rfl⟩ := Comp.returns_ofExcept.mp h₇
  obtain ⟨a, b, old, q, owner, hopened, hb, hstanding, haccrued⟩ :=
    positionPrologue_eq_ok hprologue
  exact ⟨moved, a, b, old, m, q, p, remaining, total,
    ⟨hopened, hb, ⟨owner, hstanding⟩, haccrued, hstored⟩,
    transfer_moves (by decide) (by decide) (by decide) (by decide) (by decide) hmoved,
    checkedSub_eq_some (okOr_eq_ok.mp htotal), checkedSub_eq_some (okOr_eq_ok.mp hremaining)⟩

theorem borrow_post
    (h : Comp.Returns (MoneyMarket.run π accounts timestamp (.borrow amount)) th mid th') :
    MarketPost π timestamp th th' accounts mid (.borrow amount) := by
  obtain ⟨⟨m, p⟩, hprologue, h₁⟩ := returns_lift h
  obtain ⟨_, -, h₂⟩ := returns_lift h₁
  obtain ⟨debt, hdebt, h₃⟩ := returns_lift h₂
  obtain ⟨_, -, h₄⟩ := returns_lift h₃
  obtain ⟨_, -, h₅⟩ := returns_lift h₄
  obtain ⟨totalCash, hcash, h₆⟩ := returns_lift h₅
  obtain ⟨moved, _, hmoved, h₇⟩ := Comp.returns_bind.mp h₆
  obtain ⟨totalBorrows, hborrows, h₈⟩ := returns_lift h₇
  obtain ⟨hstored, rfl⟩ := Comp.returns_ofExcept.mp h₈
  obtain ⟨a, b, old, q, owner, hopened, hb, hstanding, haccrued⟩ :=
    positionPrologue_eq_ok hprologue
  exact ⟨moved, a, b, old, m, q, p, debt, totalCash, totalBorrows,
    ⟨hopened, hb, ⟨owner, hstanding⟩, haccrued, hstored⟩,
    transfer_moves (by decide) (by decide) (by decide) (by decide) (by decide)
      (Comp.returns_adapt hmoved),
    checkedSub_eq_some (okOr_eq_ok.mp hcash), checkedAdd_eq_some (okOr_eq_ok.mp hborrows),
    checkedAdd_eq_some (okOr_eq_ok.mp hdebt)⟩

theorem repay_post
    (h : Comp.Returns (MoneyMarket.run π accounts timestamp (.repay amount)) th mid th') :
    MarketPost π timestamp th th' accounts mid (.repay amount) := by
  obtain ⟨⟨m, p⟩, hprologue, h₁⟩ := returns_lift h
  obtain ⟨moved, _, hmoved, h₂⟩ := Comp.returns_bind.mp h₁
  obtain ⟨debt, hdebt, h₃⟩ := returns_lift h₂
  obtain ⟨totalCash, hcash, h₄⟩ := returns_lift h₃
  obtain ⟨hstored, rfl⟩ := Comp.returns_ofExcept.mp h₄
  obtain ⟨a, b, old, q, owner, hopened, hb, hstanding, haccrued⟩ :=
    positionPrologue_eq_ok hprologue
  exact ⟨moved, a, b, old, m, q, p, debt, totalCash,
    ⟨hopened, hb, ⟨owner, hstanding⟩, haccrued, hstored⟩,
    transfer_moves (by decide) (by decide) (by decide) (by decide) (by decide) hmoved,
    hprologue, checkedAdd_eq_some (okOr_eq_ok.mp hcash),
    subU64_eq_some Std.min_le_right (orPanic_eq_ok.mp hdebt)⟩

/-- What a `Liquidate` that succeeds has computed on the way to the two records. -/
theorem liquidate_stages
    (h : Comp.Returns (MoneyMarket.run π accounts timestamp (.liquidate amount)) th mid th') :
    ∃ (m : MarketState) (q p : Position) (first : AccountInfo) (most : UInt64) (value : Nat)
      (debt collateral totalCash : UInt64) (paid moved : List AccountInfo) (th₁ : Thread),
      loadMarket π accounts timestamp = .ok m ∧ load accounts 1 = .ok q ∧
      slot accounts 0 = .ok first ∧ (q.isInitialized && q.market == first.key) = true ∧
      accruePosition π q m.borrowIndex = some p ∧
      ensureFreshPrice m timestamp = .ok () ∧
      maxLiquidationRepay π m p.debt = some most ∧ min amount most ≠ 0 ∧
      seizeCollateral π m (min amount most) = some value ∧
      TokensMoved th th₁ accounts paid 2 3 (min amount most).toNat ∧
      TokensMoved th₁ th' paid moved 5 4 (min (asU64 value) p.collateral).toNat ∧
      debt.toNat + (min amount most).toNat = p.debt.toNat ∧
      collateral.toNat + (min (asU64 value) p.collateral).toNat = p.collateral.toNat ∧
      totalCash.toNat = m.totalCash.toNat + (min amount most).toNat ∧
      storeBoth moved
        { m with totalBorrows := saturatingSub m.totalBorrows (min amount most)
                 totalCash
                 totalCollateral :=
                   saturatingSub m.totalCollateral (min (asU64 value) p.collateral) }
        { p with debt, collateral } = .ok mid := by
  obtain ⟨_, -, h₁⟩ := returns_lift h
  obtain ⟨_, -, h₂⟩ := returns_lift h₁
  obtain ⟨_, -, h₃⟩ := returns_lift h₂
  obtain ⟨m, hmarket, h₄⟩ := returns_lift h₃
  obtain ⟨q, hload, h₅⟩ := returns_lift h₄
  obtain ⟨first, hfirst, h₆⟩ := returns_lift h₅
  obtain ⟨_, hchecked, h₇⟩ := returns_lift h₆
  obtain ⟨p, haccrued, h₈⟩ := returns_lift h₇
  obtain ⟨_, hfresh, h₉⟩ := returns_lift h₈
  obtain ⟨_, -, h₁₀⟩ := returns_lift h₉
  obtain ⟨_, -, h₁₁⟩ := returns_lift h₁₀
  obtain ⟨most, hmost, h₁₂⟩ := returns_lift h₁₁
  obtain ⟨_, hsome, h₁₃⟩ := returns_lift h₁₂
  obtain ⟨value, hvalue, h₁₄⟩ := returns_lift h₁₃
  obtain ⟨paid, _, hpaid, h₁₅⟩ := Comp.returns_bind.mp h₁₄
  obtain ⟨moved, _, hmoved, h₁₆⟩ := Comp.returns_bind.mp h₁₅
  obtain ⟨debt, hdebt, h₁₇⟩ := returns_lift h₁₆
  obtain ⟨collateral, hcollateral, h₁₈⟩ := returns_lift h₁₇
  obtain ⟨totalCash, hcash, h₁₉⟩ := returns_lift h₁₈
  obtain ⟨hstored, rfl⟩ := Comp.returns_ofExcept.mp h₁₉
  have hrepaid : min amount most ≤ p.debt :=
    Std.le_trans Std.min_le_right (maxLiquidationRepay_le (orPanic_eq_ok.mp hmost))
  exact ⟨m, q, p, first, most, value, debt, collateral, totalCash, paid, moved, _, hmarket,
    hload, hfirst, require_eq_ok.mp hchecked, orPanic_eq_ok.mp haccrued, hfresh,
    orPanic_eq_ok.mp hmost, by simpa using require_eq_ok.mp hsome, orPanic_eq_ok.mp hvalue,
    transfer_moves (by decide) (by decide) (by decide) (by decide) (by decide) hpaid,
    transfer_moves (by decide) (by decide) (by decide) (by decide) (by decide) hmoved,
    subU64_eq_some hrepaid (orPanic_eq_ok.mp hdebt),
    subU64_eq_some Std.min_le_right (orPanic_eq_ok.mp hcollateral),
    checkedAdd_eq_some (okOr_eq_ok.mp hcash), hstored⟩

theorem liquidate_post
    (h : Comp.Returns (MoneyMarket.run π accounts timestamp (.liquidate amount)) th mid th') :
    MarketPost π timestamp th th' accounts mid (.liquidate amount) := by
  obtain ⟨m, q, p, first, most, value, debt, collateral, totalCash, paid, moved, _, hmarket, hload,
    hfirst, hchecked, haccrued, -, hmost, hsome, -, hpaid, hmoved, hdebt, hcollateral, hcash,
    hstored⟩ := liquidate_stages h
  obtain ⟨a, old, hopened⟩ := loadMarket_opened hmarket
  obtain ⟨b, hb, hq⟩ := load_eq_ok hload
  obtain rfl : first = a := Option.some.inj ((slot_eq_ok hfirst).symm.trans hopened.slot)
  rw [Bool.and_eq_true, beq_iff_eq] at hchecked
  exact ⟨paid, moved, _, first, b, old, m, q, p, most, min amount most, _, debt, collateral,
    totalCash,
    ⟨hopened, hb, ⟨first.key, .inl ⟨hq, hchecked.1, hchecked.2⟩⟩, haccrued, hstored⟩, hpaid, hmoved,
    hmarket, hq, hmost, rfl, hsome, hcash, hdebt, hcollateral⟩

theorem market_run_post {ix : MoneyMarketInstruction}
    (h : Comp.Returns (MoneyMarket.run π accounts timestamp ix) th mid th') :
    MarketPost π timestamp th th' accounts mid ix := by
  cases ix with
  | initMarket terms => exact initMarket_post h
  | addLiquidity amount => exact addLiquidity_post h
  | removeLiquidity amount => exact removeLiquidity_post h
  | supply amount => exact supply_post h
  | withdraw amount => exact withdraw_post h
  | borrow amount => exact borrow_post h
  | repay amount => exact repay_post h
  | liquidate repayAmount => exact liquidate_post h
  | syncPrice => exact syncPrice_post h

end

end Proof
end Himsha
