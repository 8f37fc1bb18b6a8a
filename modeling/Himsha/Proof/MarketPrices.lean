import Himsha.Proof.MarketSlots
import Himsha.Proof.Provenance

/-!
# Where the price of a market comes from

A money market takes its price from the feed it was opened with, in `SyncPrice` and nowhere else.
Two accounts are in it, with an owner each, so neither says enough by itself: while the feed is
sourced (`feed_is_publishers`), what a market syncs from it is a price of its publishers. All else
that is written to a market leaves its terms and its price. What a market does not survive is an
instruction that takes it for a position: the second slot is written over, whatever it holds.
-/

set_option autoImplicit false

namespace Himsha
namespace Proof

open Himsha.Lib Himsha.Runtime Himsha.Programs Himsha.Vm Himsha.Node

open MoneyMarket

open Oracle (PriceFeed)

/-- Nothing but the price and the balances is different. -/
def SameTerms (m₀ m : MarketState) : Prop :=
  { m with
    price := m₀.price
    priceUpdatedAt := m₀.priceUpdatedAt
    totalCollateral := m₀.totalCollateral
    totalBorrows := m₀.totalBorrows
    totalCash := m₀.totalCash
    totalLenderShares := m₀.totalLenderShares
    borrowIndex := m₀.borrowIndex
    lastAccrualTs := m₀.lastAccrualTs } = m₀

/-- The program's account, with a market in it that has the terms of `m₀`, and either its price or
    one that was quoted. -/
def HasMarket (m₀ : MarketState) (Quoted : UInt64 → UInt64 → Prop) (a : AccountInfo) : Prop :=
  a.owner = ProgramIds.moneyMarketProgram ∧
    ∃ m : MarketState, tryFromSlice a.data = some m ∧ SameTerms m₀ m ∧
      (m.price = m₀.price ∧ m.priceUpdatedAt = m₀.priceUpdatedAt ∨
        Quoted m.price m.priceUpdatedAt)

/-- The instructions that write a position to the second slot. -/
def writesPosition : MoneyMarketInstruction → Bool
  | .initMarket _ | .syncPrice => false
  | _ => true

section
variable {m₀ old m : MarketState} {Quoted : UInt64 → UInt64 → Prop} {k : Pubkey}
  {accounts moved mid : List AccountInfo} {th th' : Thread} {a a' b b' : AccountInfo}
  {π : Profile} {timestamp : UInt64}

theorem SameTerms.refl : SameTerms m₀ m₀ := rfl

theorem SameTerms.initialized (h : SameTerms m₀ m) : m.isInitialized = m₀.isInitialized := by
  unfold SameTerms at h
  have hsame := congrArg MarketState.isInitialized h
  exact hsame

theorem SameTerms.oracleFeed (h : SameTerms m₀ m) : m.oracleFeed = m₀.oracleFeed := by
  unfold SameTerms at h
  have hsame := congrArg MarketState.oracleFeed h
  exact hsame

theorem SameTerms.trans {m' : MarketState} (h : SameTerms m₀ m) (h' : SameTerms m m') :
    SameTerms m₀ m' := by
  unfold SameTerms at h h' ⊢
  rw [← h'] at h
  exact h

/-! ## The account -/

theorem HasMarket.congr (h : HasMarket m₀ Quoted a) (howner : b.owner = a.owner)
    (hdata : b.data = a.data) : HasMarket m₀ Quoted b := by
  unfold HasMarket
  rw [howner, hdata]
  exact h

theorem hasMarket_reserved : Reserved ProgramIds.moneyMarketProgram (HasMarket m₀ Quoted) where
  owner h := h.1
  live := by
    rintro a ⟨-, m, hm, -⟩
    cases hdata : a.data with
    | nil =>
      rw [hdata] at hm
      cases hm
    | cons b bs => simp [isBlank, hdata]
  credit := by
    intro a b h hcredit
    simp only [creditOnly, Bool.and_eq_true, beq_iff_eq] at hcredit
    obtain ⟨⟨⟨⟨-, hdata⟩, howner⟩, -⟩, -⟩ := hcredit
    exact h.congr howner hdata

/-- A market is not a token account. -/
theorem HasMarket.not_token (h : HasMarket m₀ Quoted a) {token : Token.TokenAccountState} :
    tryFromSlice a.data ≠ some token := by
  obtain ⟨-, m, hm, -⟩ := h
  intro htoken
  rw [token_not_market htoken] at hm
  cases hm

/-- Tokens were moved and the first two slots rewritten: the market is in the first slot, or it is
    left alone. -/
theorem Dealing.sheltered (h : Dealing th th' accounts mid a a' b b')
    (hgiven : Sheltered k (HasMarket m₀ Quoted) accounts)
    (hfirst : a.key = k → HasMarket m₀ Quoted a') (hsecond : b' = b ∨ b.key ≠ k) :
    Sheltered k (HasMarket m₀ Quoted) mid := by
  intro y hy hk
  obtain ⟨n, hn⟩ := List.mem_iff_getElem?.mp hy
  have hlt : n < accounts.length := by
    obtain ⟨moved, hshifted, rfl⟩ := h.moved
    have hbound := (List.getElem?_eq_some_iff.mp hn).1
    rwa [List.length_set, List.length_set, hshifted.length] at hbound
  have hx : accounts[n]? = some accounts[n] := List.getElem?_eq_getElem hlt
  obtain ⟨z, hz, hkey, howner, hzero, hone, hrest⟩ := h.slot hx
  obtain rfl : y = z := Option.some.inj (hn.symm.trans hz)
  have hgave : HasMarket m₀ Quoted accounts[n] :=
    hgiven _ (List.getElem_mem hlt) (hkey.symm.trans hk)
  match n with
  | 0 =>
    obtain ⟨hxa, rfl⟩ := hzero rfl
    exact hfirst (hxa ▸ hkey.symm.trans hk)
  | 1 =>
    obtain ⟨hxb, rfl⟩ := hone rfl
    rcases hsecond with rfl | hother
    · exact hxb ▸ hgave
    · exact absurd (hxb ▸ hkey.symm.trans hk) hother
  | n + 2 =>
    rcases hrest (by omega) with hdata | ⟨token, -, htoken, -⟩
    · exact hgave.congr howner hdata
    · exact absurd htoken hgave.not_token

/-! ## The instructions -/

/-- What an instruction other than `SyncPrice` made of the market that is in the first slot, and of
    the second slot. -/
def MarketDealt (accounts mid : List AccountInfo) (ix : MoneyMarketInstruction) : Prop :=
  ∃ th th' a a' b b', Dealing th th' accounts mid a a' b b' ∧
    (writesPosition ix = false → b' = b) ∧ a'.owner = a.owner ∧
    ∀ old : MarketState, tryFromSlice a.data = some old → old.isInitialized = true →
      ∃ m : MarketState, tryFromSlice a'.data = some m ∧ SameTerms old m ∧
        m.price = old.price ∧ m.priceUpdatedAt = old.priceUpdatedAt

theorem storeBoth_marketDealt {β : Type} [Borsh β] {p' : β} {m' : MarketState}
    {ix : MoneyMarketInstruction} (hix : writesPosition ix = true)
    (hopened : Opened π accounts timestamp a old m) (hb : accounts[1]? = some b)
    (hmoved : Shifted th th' accounts moved) (hstored : storeBoth moved m' p' = .ok mid)
    (hterms : SameTerms m m' ∧ m'.price = m.price ∧ m'.priceUpdatedAt = m.priceUpdatedAt) :
    MarketDealt accounts mid ix := by
  obtain ⟨d, e, hd, -, hdealing⟩ := storeBoth_dealing hopened.slot hb hmoved hstored
  refine ⟨th, th', a, _, b, _, hdealing, fun h => absurd (hix.symm.trans h) (by decide), rfl, ?_⟩
  intro old' hold' _
  obtain rfl : old = old' := Option.some.inj (hopened.held.symm.trans hold')
  obtain ⟨index, borrows, at_, haccrued⟩ := accrueMarket_keeps hopened.accrued
  have hsame : SameTerms old m := by
    rw [haccrued]
    rfl
  refine ⟨m', tryFromSlice_toVec hd, hsame.trans hterms.1, ?_, ?_⟩
  · rw [hterms.2.1, haccrued]
  · rw [hterms.2.2, haccrued]

theorem market_post_dealt {ix : MoneyMarketInstruction}
    (h : MarketPost π timestamp th th' accounts mid ix) (hsync : ix ≠ .syncPrice) :
    MarketDealt accounts mid ix := by
  cases ix with
  | initMarket terms =>
    obtain ⟨rfl, a, b, old, cm, bm, cv, bv, feed, ha, hb, hold, hfresh, -, -, -, -, hstore⟩ := h
    obtain ⟨d, hd, hdealing⟩ : ∃ d, _ ∧ Dealing th' th' _ _ _ _ _ _ := store_dealing ha hb hstore
    refine ⟨th', th', a, _, b, b, hdealing, fun _ => rfl, rfl, fun old' hold' hinit => ?_⟩
    rw [hold', Option.getD_some] at hold
    subst hold
    rw [hinit] at hfresh
    cases hfresh
  | syncPrice => exact absurd rfl hsync
  | addLiquidity amount =>
    obtain ⟨moved, a, b, old, m, q, _, _, _, _, hdeal, hmoved, -⟩ := h
    exact storeBoth_marketDealt rfl hdeal.opened hdeal.second hmoved.shifted hdeal.stored
      ⟨rfl, rfl, rfl⟩
  | removeLiquidity amount =>
    obtain ⟨moved, a, b, old, m, q, _, _, _, _, hdeal, hmoved, -⟩ := h
    exact storeBoth_marketDealt rfl hdeal.opened hdeal.second hmoved.shifted hdeal.stored
      ⟨rfl, rfl, rfl⟩
  | supply amount =>
    obtain ⟨moved, a, b, old, m, q, p, _, _, hdeal, hmoved, -⟩ := h
    exact storeBoth_marketDealt rfl hdeal.opened hdeal.second hmoved.shifted hdeal.stored
      ⟨rfl, rfl, rfl⟩
  | withdraw amount =>
    obtain ⟨moved, a, b, old, m, q, p, _, _, hdeal, hmoved, -⟩ := h
    exact storeBoth_marketDealt rfl hdeal.opened hdeal.second hmoved.shifted hdeal.stored
      ⟨rfl, rfl, rfl⟩
  | borrow amount =>
    obtain ⟨moved, a, b, old, m, q, p, _, _, _, hdeal, hmoved, -⟩ := h
    exact storeBoth_marketDealt rfl hdeal.opened hdeal.second hmoved.shifted hdeal.stored
      ⟨rfl, rfl, rfl⟩
  | repay amount =>
    obtain ⟨moved, a, b, old, m, q, p, _, _, hdeal, hmoved, -⟩ := h
    exact storeBoth_marketDealt rfl hdeal.opened hdeal.second hmoved.shifted hdeal.stored
      ⟨rfl, rfl, rfl⟩
  | liquidate amount =>
    obtain ⟨paid, moved, th₁, a, b, old, m, q, p, _, _, _, _, _, _, hdeal, hpaid, hseized, -⟩ := h
    exact storeBoth_marketDealt rfl hdeal.opened hdeal.second
      (hpaid.shifted.trans hseized.shifted) hdeal.stored ⟨rfl, rfl, rfl⟩

/-- What `SyncPrice` reads: the feed that the market was opened with. -/
theorem syncPrice_eq_ok (h : syncPrice accounts = .ok mid) :
    ∃ a b, ∃ old : MarketState, ∃ feed : PriceFeed, accounts[0]? = some a ∧ accounts[1]? = some b ∧
      tryFromSlice a.data = some old ∧ b.key = old.oracleFeed ∧
      tryFromSlice b.data = some feed ∧
      store accounts 0 { old with price := feed.price, priceUpdatedAt := feed.publishTs } =
        .ok mid := by
  obtain ⟨_, -, h₁⟩ := bind_eq_ok.mp h
  obtain ⟨old, hload, h₂⟩ := bind_eq_ok.mp h₁
  obtain ⟨_, -, h₃⟩ := bind_eq_ok.mp h₂
  obtain ⟨second, hsecond, h₄⟩ := bind_eq_ok.mp h₃
  obtain ⟨_, hkey, h₅⟩ := bind_eq_ok.mp h₄
  obtain ⟨feed, hfeed, h₆⟩ := bind_eq_ok.mp h₅
  obtain ⟨_, -, hstore⟩ := bind_eq_ok.mp h₆
  obtain ⟨a, ha, hold⟩ := load_eq_ok hload
  obtain ⟨b, hb, hread⟩ := load_eq_ok hfeed
  obtain rfl : second = b := Option.some.inj ((slot_eq_ok hsecond).symm.trans hb)
  exact ⟨a, second, old, feed, ha, hb, hold, by simpa using require_eq_ok.mp hkey, hread, hstore⟩

/-- **The money-market program** keeps a market that it does not take for a position, if what it
    syncs is quoted. -/
theorem market_sheltered {ix : MoneyMarketInstruction} (hinit : m₀.isInitialized = true)
    (hgiven : Sheltered k (HasMarket m₀ Quoted) accounts)
    (hsecond : writesPosition ix = true → accounts[1]?.map (·.key) ≠ some k)
    (hfeed : ix = .syncPrice → ∀ a ∈ accounts, a.key = m₀.oracleFeed →
      ∀ f : PriceFeed, tryFromSlice a.data = some f → Quoted f.price f.publishTs) :
    (MoneyMarket.run π accounts timestamp ix).Yields (Sheltered k (HasMarket m₀ Quoted)) := by
  intro th mid th' hret
  by_cases hsync : ix = .syncPrice
  · subst hsync
    obtain ⟨hrun, -⟩ := Comp.returns_ofExcept.mp hret
    obtain ⟨a, b, old, feed, ha, hb, hold, hkey, hread, hstore⟩ := syncPrice_eq_ok hrun
    obtain ⟨d, hd, hdealing⟩ : ∃ d, _ ∧ Dealing th th _ _ _ _ _ _ := store_dealing ha hb hstore
    refine hdealing.sheltered hgiven (fun hk => ?_) (.inl rfl)
    obtain ⟨howner, m, hm, hterms, -⟩ := hgiven a (List.mem_of_getElem? ha) hk
    obtain rfl : m = old := Option.some.inj (hm.symm.trans hold)
    have hsame : SameTerms m
        { m with price := feed.price, priceUpdatedAt := feed.publishTs } := rfl
    refine ⟨howner, _, tryFromSlice_toVec hd, hterms.trans hsame, .inr ?_⟩
    exact hfeed rfl b (List.mem_of_getElem? hb) (hkey.trans hterms.oracleFeed) feed hread
  · obtain ⟨th₁, th₂, a, a', b, b', hdealing, hkept, howner, hwritten⟩ :=
      market_post_dealt (market_run_post hret) hsync
    refine hdealing.sheltered hgiven (fun hk => ?_) ?_
    · obtain ⟨hown, old, hold, hterms, hprice⟩ :=
        hgiven a (List.mem_of_getElem? hdealing.slots.1) hk
      obtain ⟨m, hm, hsame, hpriced, hat⟩ := hwritten old hold (hterms.initialized.trans hinit)
      refine ⟨howner.trans hown, m, hm, hterms.trans hsame, ?_⟩
      rw [hpriced, hat]
      exact hprice
    · cases hwrites : writesPosition ix with
      | false => exact .inl (hkept hwrites)
      | true =>
        refine .inr fun hk => hsecond hwrites ?_
        rw [hdealing.slots.2, Option.map_some, hk]

theorem market_process_sheltered {data : List UInt8} (hinit : m₀.isInitialized = true)
    (hgiven : Sheltered k (HasMarket m₀ Quoted) accounts)
    (hsecond : ∀ ix, tryFromSlice data = some ix → writesPosition ix = true →
      accounts[1]?.map (·.key) ≠ some k)
    (hfeed : tryFromSlice data = some MoneyMarketInstruction.syncPrice → ∀ a ∈ accounts,
      a.key = m₀.oracleFeed → ∀ f : PriceFeed, tryFromSlice a.data = some f →
        Quoted f.price f.publishTs) :
    (MoneyMarket.process π timestamp accounts data).Yields
      (Sheltered k (HasMarket m₀ Quoted)) := by
  refine .bind (.ofExcept (Q := fun ix => tryFromSlice data = some ix) fun ix h =>
    okOr_eq_ok.mp h) fun ix hix => ?_
  refine market_sheltered hinit hgiven (hsecond ix hix) fun hsync => hfeed ?_
  rw [hix, hsync]

/-! ## What others do to it -/

theorem market_calleeSafe :
    CalleeSafe ProgramIds.moneyMarketProgram k (HasMarket m₀ Quoted) :=
  fun htoken => absurd htoken (by decide)

/-- **Lending from a vault** keeps a market that the vault does not take for its position. -/
theorem mmLiquidity_sheltered {idx : List Nat} {ix : MoneyMarketInstruction}
    (hinit : m₀.isInitialized = true) (hix : ix ≠ .syncPrice)
    (hgiven : Sheltered k (HasMarket m₀ Quoted) accounts)
    (hsecond : ∀ i, idx[1]? = some i → accounts[i]?.map (·.key) ≠ some k) :
    (Vault.mmLiquidity π accounts idx ix timestamp).Maintains
      (Cleared k (HasMarket m₀ Quoted)) (Sheltered k (HasMarket m₀ Quoted)) := by
  refine .bind (.ofExcept (Q := fun data => toVec ix = some data) fun data h =>
    okOr_eq_ok.mp h) fun data hdata => ?_
  refine invoke_reserved hasMarket_reserved hgiven fun window hwindow hslots => ?_
  have hbody := moneyMarket_reserved hasMarket_reserved market_calleeSafe π timestamp hwindow data
  have hkeys := SlotRel.moneyMarket_kept (S := keyFrame.slotRel) π timestamp window data
  have hother : window[1]?.map (·.key) ≠ some k := by
    intro hk
    obtain ⟨a, ha, hkey⟩ := Option.map_eq_some_iff.mp hk
    have hslot := congrArg (·[1]?) hslots
    simp only [List.getElem?_map, ha, Option.map_some] at hslot
    obtain ⟨i, hi, hat⟩ := Option.map_eq_some_iff.mp hslot.symm
    exact hsecond i hi (hat.trans (congrArg some hkey))
  have hleft : (MoneyMarket.process π timestamp window data).Yields
      (Sheltered k (HasMarket m₀ Quoted)) := by
    refine market_process_sheltered hinit hwindow (fun _ _ _ => hother) fun hsync => ?_
    rw [tryFromSlice_toVec hdata, Option.some.injEq] at hsync
    exact absurd hsync hix
  refine .mono ((hbody.and_yields hkeys).and_yields hleft) ?_
  rintro after ⟨⟨-, hkept⟩, hdone⟩
  exact ⟨keys_of_kept hkept, fun _ => hdone⟩

/-- The instruction takes the account for a position: it is in the slot for one, of a money-market
    instruction that writes one, or of the vault program, which lends from there. -/
def TakesForPosition (k : Pubkey) (instr : Instruction) : Prop :=
  (instr.programId = ProgramIds.moneyMarketProgram ∧ instr.accounts[1]?.map (·.pubkey) = some k ∧
    ∃ ix, tryFromSlice instr.data = some ix ∧ writesPosition ix = true) ∨
  (instr.programId = ProgramIds.vaultProgram ∧
    (instr.accounts[3]?.map (·.pubkey) = some k ∨ instr.accounts[7]?.map (·.pubkey) = some k))

theorem accountsOf_key (t : Accounts) (instr : Instruction) (i : Nat) :
    (accountsOf t instr)[i]?.map (·.key) = instr.accounts[i]?.map (·.pubkey) := by
  rw [← List.getElem?_map, accountsOf_keys, List.getElem?_map]

/-- **One instruction**, on a table where the market's feed quotes. -/
theorem market_step {m : Machine} {t t' : Accounts} {p : RuntimeTransaction × Instruction}
    (hinit : m₀.isInitialized = true) (hmarket : Holds k (HasMarket m₀ Quoted) t)
    (hfeed : ∀ a ∈ accountsOf t p.2, a.key = m₀.oracleFeed →
      ∀ f : PriceFeed, tryFromSlice a.data = some f → Quoted f.price f.publishTs)
    (hlending : mentions p.2 k = true → p.2.programId ≠ ProgramIds.lendingProgram)
    (hnot : ¬ TakesForPosition k p.2) (hstep : replayStep m t p = some t') :
    Holds k (HasMarket m₀ Quoted) t' := by
  have hgiven := hmarket.sheltered hasMarket_reserved p.2
  refine replayStep_sheltered hasMarket_reserved hmarket (fun transition hexec hlist => ?_) hstep
  have hlending := hlending hlist
  refine kept_sheltered ?_ fun h => absurd h hlending
  by_cases hprogram : p.2.programId = ProgramIds.moneyMarketProgram
  · have hbuiltin : isBuiltin p.2.programId = true := by rw [hprogram]; decide
    refine builtin_sheltered hasMarket_reserved hbuiltin hgiven ?_ hexec
    rw [hprogram, runBuiltin_moneyMarket]
    have hbody := moneyMarket_reserved hasMarket_reserved market_calleeSafe m.profile
      p.1.message.timestamp hgiven p.2.data
    have hleft : (MoneyMarket.process m.profile p.1.message.timestamp (accountsOf t p.2)
        p.2.data).Yields (Sheltered k (HasMarket m₀ Quoted)) := by
      refine market_process_sheltered hinit hgiven (fun ix hix hwrites hk => ?_) fun _ => hfeed
      exact hnot (.inl ⟨hprogram, accountsOf_key t p.2 1 ▸ hk, ix, hix, hwrites⟩)
    exact .mono (hbody.and_yields hleft) fun after hafter _ => hafter.2
  by_cases hvault : p.2.programId = ProgramIds.vaultProgram
  · have hbuiltin : isBuiltin p.2.programId = true := by rw [hvault]; decide
    refine builtin_sheltered hasMarket_reserved hbuiltin hgiven ?_ hexec
    rw [hvault, runBuiltin_vault]
    refine .mono (vault_reserved hasMarket_reserved market_calleeSafe m.profile _ ?_ hgiven _)
      fun _ _ hown => absurd hown (by decide)
    -- The vault's position is in slot 7 of a withdrawal, and in slot 3 otherwise.
    intro idx hidx ix amount hix
    have hnotSync : ix ≠ .syncPrice := by
      rcases hix with rfl | rfl <;> simp
    refine mmLiquidity_sheltered hinit hnotSync hgiven ?_
    intro i hi hk
    rw [accountsOf_key] at hk
    simp only [lendingSlots, List.mem_cons, List.not_mem_nil, or_false] at hidx
    rcases hidx with rfl | rfl
    · cases hi
      exact hnot (.inr ⟨hvault, .inr hk⟩)
    · cases hi
      exact hnot (.inr ⟨hvault, .inl hk⟩)
  · have houtsider : Outsider ProgramIds.moneyMarketProgram k (HasMarket m₀ Quoted)
        p.2.programId :=
      ⟨hprogram, fun _ => hvault, fun _ => market_calleeSafe⟩
    exact executeProgram_reserved hasMarket_reserved houtsider hgiven hexec

end

/-! ## Runs of a node -/

/-- The aggregate of a feed that is sourced. -/
def QuotedBy (f₀ : PriceFeed) (Posted : Oracle.Submission → Prop) (Added : Pubkey → Prop)
    (price publishTs : UInt64) : Prop :=
  ∃ f : PriceFeed, Sourced f₀ Posted Added f ∧ f.price = price ∧ f.publishTs = publishTs

/-- **A market lends at its publishers' prices.** In every run of a node that starts with nothing in
    flight and crashes between blocks only, at rest: an account that held an initialised market
    when the chain was at some block, the feed of which was initialised then, holds one still, on
    the same terms. Its price is the one from then, or the aggregate, with its time, of that feed
    where every price was there then or was posted by its publisher in a block since. All this
    unless a block since then has a lending instruction that lists the market or its feed, or an
    instruction that takes the market for a position. -/
theorem market_price_is_publishers (ex : Executor) (g : Gate) (boot : ElectionState)
    (genesis : Accounts) (s₀ s : Sequencer) (incidents : List Incident)
    (hready : Ready ex.machine genesis s₀) (hbooted : Booted s₀) (hcalls : s₀.calls = [])
    (hqueue : s₀.queue = [])
    (hmeets : Meets (Sequencer.incident ex g boot) CrashesAtRest s₀ incidents)
    (hrun : Lib.run (Sequencer.incident ex g boot) s₀ incidents = some s) (hrest : AtRest s)
    (n : Nat) (hn : s₀.world.state.slot ≤ n) (t : Accounts)
    (ht : replayTo ex.machine genesis s.world.state.blocks n = some t) (k : Pubkey)
    (stored : StoredAccount) (hstored : t.lookup k = some stored)
    (howner : stored.owner = ProgramIds.moneyMarketProgram) (m₀ : MarketState)
    (hmarket : tryFromSlice stored.data = some m₀) (hinit : m₀.isInitialized = true)
    (source : StoredAccount) (hsource : t.lookup m₀.oracleFeed = some source)
    (hsourceOwner : source.owner = ProgramIds.oracleProgram) (f₀ : PriceFeed)
    (hfeed : tryFromSlice source.data = some f₀) (hfeedInit : f₀.isInitialized = true) :
    (∃ now m, s.world.state.loadAccount k = some now ∧
      now.owner = ProgramIds.moneyMarketProgram ∧ tryFromSlice now.data = some m ∧
      SameTerms m₀ m ∧ (m.price = m₀.price ∧ m.priceUpdatedAt = m₀.priceUpdatedAt ∨
        QuotedBy f₀ (PostedSince g s.world.state.blocks n m₀.oracleFeed)
          (AddedSince g s.world.state.blocks n m₀.oracleFeed f₀.authority) m.price
          m.priceUpdatedAt)) ∨
    ∃ j block tx instr, n < j ∧ s.world.state.blocks.lookup j = some block ∧
      tx ∈ block.transactions ∧ instr ∈ tx.message.instructions ∧
      (instr.programId = ProgramIds.lendingProgram ∧
          (mentions instr k = true ∨ mentions instr m₀.oracleFeed = true) ∨
        TakesForPosition k instr) := by
  by_contra hneither
  obtain ⟨hlost, hnone⟩ := not_or.mp hneither
  simp only [not_exists, not_and, not_or] at hnone
  have hvetted := run_vetted hbooted.inv (hbooted.allVetted hcalls hqueue) hrun
  -- The two accounts are kept together: the feed by itself, the market because of the feed.
  have hboth : Holds m₀.oracleFeed
        (HasSourced f₀ (PostedSince g s.world.state.blocks n m₀.oracleFeed)
          (AddedSince g s.world.state.blocks n m₀.oracleFeed f₀.authority))
        s.world.state.accounts ∧
      Holds k (HasMarket m₀
        (QuotedBy f₀ (PostedSince g s.world.state.blocks n m₀.oracleFeed)
          (AddedSince g s.world.state.blocks n m₀.oracleFeed f₀.authority)))
        s.world.state.accounts := by
    refine node_keeps (I := fun t => Holds m₀.oracleFeed _ t ∧ Holds k (HasMarket m₀ _) t) hready
      hmeets hrun hrest ht ⟨⟨source, hsource, hsourceOwner, f₀, hfeed, .refl hfeedInit⟩,
        stored, hstored, howner, m₀, hmarket, .refl, .inl ⟨rfl, rfl⟩⟩ ?_
    rintro j block tx instr hj hblock htx hinstr u u' ⟨hsourced, hheld⟩ hstep
    obtain ⟨hlending, hnot⟩ := hnone j block tx instr hj hblock htx hinstr
    refine ⟨replayStep_holds hasSourced_reserved hsourced (fun hlist => ?_) hstep,
      market_step hinit hheld ?_ (fun hlist hprogram => (hlending hprogram).1 hlist) hnot hstep⟩
    · exact block_spares hvetted hn hj hblock htx hinstr
        fun hprogram => (hlending hprogram).2 hlist
    · intro a ha hkey f hf
      obtain ⟨-, f', hf', hquotes⟩ := hsourced.sheltered hasSourced_reserved instr a ha hkey
      obtain rfl : f' = f := Option.some.inj (hf'.symm.trans hf)
      exact ⟨f', hquotes, rfl, rfl⟩
  obtain ⟨-, now, hnow, hown, m, hm, hterms, hprice⟩ := hboth
  exact hlost ⟨now, m, hnow, hown, hm, hterms, hprice⟩

/-- A market at 90, on the feed that publisher 1 has at 100. -/
def pricedMarket : MarketState where
  price := 90
  oracleFeed := .repeated 9
  isInitialized := true

/-- A node with the market and the feed, and nothing else. -/
def marketNode : Sequencer where
  world := { state := {
    accounts := feedNode.world.state.accounts.insert (.repeated 8)
      ⟨0, (toVec pricedMarket).getD [], ProgramIds.moneyMarketProgram, false, none, none⟩
    blocks := (∅ : Table Nat Block).insert 0 .genesis } }

/-- The market is synced, by nobody in particular. -/
def syncMarket : RuntimeTransaction :=
  signedBy [] [Builders.MoneyMarket.syncPrice (.repeated 8) (.repeated 9)]

theorem marketNode_ready :
    Ready (Executor.bare .dev).machine marketNode.world.state.accounts marketNode := by
  refine ⟨⟨rfl, fun k hk => ?_, by simp [marketNode]⟩, fun k hk => ?_, rfl⟩
  · obtain rfl : k = 0 := Nat.le_zero.mp hk
    rfl
  · exact Finmap.lookup_insert_of_ne _ (Nat.ne_of_gt hk)

theorem marketNode_booted : Booted marketNode :=
  have h := emptyNode_booted.ledger
  ⟨⟨h.fresh, h.sealed, h.indexed, h.succeeded, h.counted⟩, rfl⟩

/-- The market is at 100 now. -/
theorem market_price_is_publishers_synced : ∃ s,
    Lib.run (Sequencer.incident (.bare .dev) payingGate {}) marketNode
        ((.submit syncMarket :: serves 0 6 ++ produces 7 : List Action).map .act) = some s ∧
      ((s.world.state.loadAccount (.repeated 8)).bind fun a =>
        (tryFromSlice a.data : Option MarketState)).any (·.price = 100) = true ∧
      ((∃ now m, s.world.state.loadAccount (.repeated 8) = some now ∧
          now.owner = ProgramIds.moneyMarketProgram ∧ tryFromSlice now.data = some m ∧
          SameTerms pricedMarket m ∧ (m.price = 90 ∧ m.priceUpdatedAt = 0 ∨
            QuotedBy ownFeed (PostedSince payingGate s.world.state.blocks 0 (.repeated 9))
              (AddedSince payingGate s.world.state.blocks 0 (.repeated 9) (.repeated 1)) m.price
              m.priceUpdatedAt)) ∨
        ∃ j block tx instr, 0 < j ∧ s.world.state.blocks.lookup j = some block ∧
          tx ∈ block.transactions ∧ instr ∈ tx.message.instructions ∧
          (instr.programId = ProgramIds.lendingProgram ∧
              (mentions instr (.repeated 8) = true ∨ mentions instr (.repeated 9) = true) ∨
            TakesForPosition (.repeated 8) instr)) := by
  have hcheck : (Lib.run (Sequencer.incident (.bare .dev) payingGate {}) marketNode
      ((.submit syncMarket :: serves 0 6 ++ produces 7 : List Action).map .act)).any
        (fun s => AtRest s ∧ ((s.world.state.loadAccount (.repeated 8)).bind fun a =>
          (tryFromSlice a.data : Option MarketState)).any (·.price = 100) = true) = true := by
    decide +kernel
  obtain ⟨s, hrun, hthen⟩ := (Option.any_eq_true _ _).mp hcheck
  obtain ⟨hrest, hmoved⟩ := of_decide_eq_true hthen
  exact ⟨s, hrun, hmoved, market_price_is_publishers (.bare .dev) payingGate {} _ _ s _
    marketNode_ready marketNode_booted rfl rfl (meets_acts _ _) hrun hrest 0 (Nat.le_refl _) _ rfl
    (.repeated 8) _ (Finmap.lookup_insert _) rfl pricedMarket (by decide +kernel) rfl _
    ((Finmap.lookup_insert_of_ne _ (by decide)).trans (Finmap.lookup_insert _)) rfl ownFeed
    (by decide +kernel) rfl⟩

end Proof
end Himsha
