import Himsha.Proof.MarketSlots

/-!
# The sums of the money-market ledger

A market counts the shares and the collateral of the records that name it. An instruction moves the
count in slot 0 and the record in slot 1 by one amount, provided that the slots are what it takes
them for: a record of another kind in slot 1 does not decode as the one that is asked for, and is
overwritten by a fresh one. `LedgerCare` says, instruction by instruction, when that does not
happen.
-/

set_option autoImplicit false

namespace Himsha
namespace Proof

open Himsha.Lib Himsha.Runtime Himsha.Programs Himsha.Vm Himsha.Node Token MoneyMarket

/-! ## Readings -/

/-- A number in a record that `programId` owns. -/
def weighed {α : Type} [Borsh α] (programId : Pubkey) (w : α → Nat) (s : StoredAccount) : Nat :=
  ((decoded α programId s).map w).getD 0

/-- The shares of the market `k`. -/
def sharesIn (k : Pubkey) (q : LenderPosition) : Nat :=
  if q.isInitialized = true ∧ q.market = k then q.shares.toNat else 0

/-- The collateral of the market `k`. -/
def collateralIn (k : Pubkey) (p : Position) : Nat :=
  if p.isInitialized = true ∧ p.market = k then p.collateral.toNat else 0

/-- The same of an account. -/
def lentTo (k : Pubkey) : StoredAccount → Nat :=
  weighed ProgramIds.moneyMarketProgram (sharesIn k)

def pledgedTo (k : Pubkey) : StoredAccount → Nat :=
  weighed ProgramIds.moneyMarketProgram (collateralIn k)

/-- What a market counts of them. -/
def lentCount : StoredAccount → Nat :=
  weighed ProgramIds.moneyMarketProgram fun m : MarketState => m.totalLenderShares.toNat

def pledgedCount : StoredAccount → Nat :=
  weighed ProgramIds.moneyMarketProgram fun m : MarketState => m.totalCollateral.toNat

/-- **The sums**: every initialised market counts what the initialised records that name it hold. -/
def LedgerSums (t : Accounts) : Prop :=
  ∀ (k : Pubkey) s (m : MarketState), t.lookup k = some s →
    s.owner = ProgramIds.moneyMarketProgram → tryFromSlice s.data = some m →
    m.isInitialized = true →
    m.totalLenderShares.toNat = Table.total (lentTo k) t ∧
      m.totalCollateral.toNat = Table.total (pledgedTo k) t

/-- A record of the money market that is not initialised has nothing in it. -/
structure IdleRecord (s : StoredAccount) : Prop where
  market : ∀ m ∈ decoded MarketState ProgramIds.moneyMarketProgram s, m.isInitialized = false →
    m.totalCollateral = 0 ∧ m.totalBorrows = 0 ∧ m.totalCash = 0 ∧ m.totalLenderShares = 0
  position : ∀ p ∈ decoded Position ProgramIds.moneyMarketProgram s, p.isInitialized = false →
    p.collateral = 0 ∧ p.debt = 0
  lender : ∀ q ∈ decoded LenderPosition ProgramIds.moneyMarketProgram s, q.isInitialized = false →
    q.shares = 0

section
variable {α : Type} [Borsh α] {programId : Pubkey} {w : α → Nat} {s : StoredAccount} {v : α}

theorem weighed_reading (hnil : tryFromSlice (α := α) [] = none) :
    Reading 0 (weighed programId w) :=
  (decoded_reading hnil).map (g := fun o => (o.map w).getD 0)

theorem weighed_of_none (h : tryFromSlice (α := α) s.data = none) : weighed programId w s = 0 := by
  unfold weighed decoded
  rw [h]
  split <;> rfl

theorem weighed_of_some (howner : s.owner = programId) (h : tryFromSlice s.data = some v) :
    weighed programId w s = w v := by
  unfold weighed
  rw [decoded_eq_some.mpr ⟨howner, h⟩]
  rfl

/-- A record that is worth nothing. -/
theorem weighed_eq_zero (h : ∀ v : α, s.owner = programId → tryFromSlice s.data = some v → w v = 0) :
    weighed programId w s = 0 := by
  unfold weighed
  cases hdec : decoded α programId s with
  | none => rfl
  | some v =>
    obtain ⟨howner, hv⟩ := decoded_eq_some.mp hdec
    exact h v howner hv

/-- **Writing a record** changes what it is worth by what was written, where no record at all counts
    as `dflt`: what the gate turned back was worth the same. -/
theorem Passed.weigh [Canonical α] {a o : AccountInfo} {d : List UInt8} (dflt : α) {v' : α}
    (hnil : tryFromSlice (α := α) [] = none) (hzero : w dflt = 0)
    (h : Passed programId False a { a with data := d } o) (hd : toVec v' = some d) :
    weighed programId w o.toStored + w ((tryFromSlice a.data).getD dflt) =
      weighed programId w a.toStored + w v' := by
  by_cases hsame : tryFromSlice a.data = some v'
  · have hdata : d = a.data := data_eq_of_same hsame hd
    rw [(weighed_reading hnil).left h hdata, hsame, Option.getD_some]
  · obtain ⟨hown, hown', hdec⟩ := h.filled id hd hsame
    rw [weighed_of_some (s := o.toStored) hown' hdec]
    cases hv : (tryFromSlice a.data : Option α) with
    | none =>
      rw [weighed_of_none (s := a.toStored) hv, Option.getD_none, hzero, Nat.add_comm]
    | some v =>
      have howner : a.owner = programId := hown.resolve_right fun hempty => by
        rw [hempty, hnil] at hv
        simp at hv
      rw [weighed_of_some (s := a.toStored) howner hv, Option.getD_some, Nat.add_comm]

end

/-! ## Records of the market -/

section
variable {s : StoredAccount} {m : MarketState} {p : Position} {q : LenderPosition} {k : Pubkey}

theorem market_nil : tryFromSlice (α := MarketState) [] = none := rfl

theorem position_nil : tryFromSlice (α := Position) [] = none := rfl

theorem lender_nil : tryFromSlice (α := LenderPosition) [] = none := rfl

theorem lentTo_reading (k : Pubkey) : Reading 0 (lentTo k) := weighed_reading lender_nil

theorem pledgedTo_reading (k : Pubkey) : Reading 0 (pledgedTo k) := weighed_reading position_nil

theorem lentCount_reading : Reading 0 lentCount := weighed_reading market_nil

theorem pledgedCount_reading : Reading 0 pledgedCount := weighed_reading market_nil

theorem idleRecord_reading : Reading True IdleRecord where
  congr := by
    intro s s' howner hdata
    refine propext ⟨fun h => ⟨?_, ?_, ?_⟩, fun h => ⟨?_, ?_, ?_⟩⟩
    · rw [← (decoded_reading market_nil).congr howner hdata]
      exact h.market
    · rw [← (decoded_reading position_nil).congr howner hdata]
      exact h.position
    · rw [← (decoded_reading lender_nil).congr howner hdata]
      exact h.lender
    · rw [(decoded_reading market_nil).congr howner hdata]
      exact h.market
    · rw [(decoded_reading position_nil).congr howner hdata]
      exact h.position
    · rw [(decoded_reading lender_nil).congr howner hdata]
      exact h.lender
  nil := by
    intro s hdata
    refine eq_true ⟨?_, ?_, ?_⟩
    · rw [(decoded_reading market_nil).nil hdata]
      nofun
    · rw [(decoded_reading position_nil).nil hdata]
      nofun
    · rw [(decoded_reading lender_nil).nil hdata]
      nofun

/-- What does not decode is no record. -/
theorem decoded_of_none {α : Type} [Borsh α] {programId : Pubkey}
    (h : tryFromSlice (α := α) s.data = none) : decoded α programId s = none := by
  unfold decoded
  rw [h]
  split <;> rfl

theorem idle_initialized {α : Type} [Borsh α] {programId : Pubkey} {init : α → Bool} {v : α}
    {P : α → Prop} (h : tryFromSlice s.data = some v) (hinit : init v = true) :
    ∀ v' ∈ decoded α programId s, init v' = false → P v' := by
  intro v' hv' hfresh
  obtain ⟨-, hdec⟩ := decoded_eq_some.mp hv'
  rw [h, Option.some.injEq] at hdec
  rw [← hdec, hinit] at hfresh
  simp at hfresh

theorem idle_of_market (h : tryFromSlice s.data = some m) (hinit : m.isInitialized = true) :
    IdleRecord s := by
  refine ⟨idle_initialized h hinit, ?_, ?_⟩
  · rw [decoded_of_none (market_not_position h)]
    nofun
  · rw [decoded_of_none (market_not_lender h)]
    nofun

theorem idle_of_position (h : tryFromSlice s.data = some p) (hinit : p.isInitialized = true) :
    IdleRecord s := by
  refine ⟨?_, idle_initialized h hinit, ?_⟩
  · rw [decoded_of_none (position_not_market h)]
    nofun
  · rw [decoded_of_none (position_not_lender h)]
    nofun

theorem idle_of_lender (h : tryFromSlice s.data = some q) (hinit : q.isInitialized = true) :
    IdleRecord s := by
  refine ⟨?_, ?_, idle_initialized h hinit⟩
  · rw [decoded_of_none (lender_not_market h)]
    nofun
  · rw [decoded_of_none (lender_not_position h)]
    nofun

end

/-! Token accounts are no records of a market. -/

section
variable {s : StoredAccount} {k : Pubkey}

theorem lentTo_token (h : ∃ token : TokenAccountState, tryFromSlice s.data = some token) :
    lentTo k s = 0 := by
  obtain ⟨token, htoken⟩ := h
  exact weighed_of_none (token_not_lender htoken)

theorem pledgedTo_token (h : ∃ token : TokenAccountState, tryFromSlice s.data = some token) :
    pledgedTo k s = 0 := by
  obtain ⟨token, htoken⟩ := h
  exact weighed_of_none (token_not_position htoken)

theorem market_token {w : MarketState → Nat}
    (h : ∃ token : TokenAccountState, tryFromSlice s.data = some token) :
    weighed ProgramIds.moneyMarketProgram w s = 0 := by
  obtain ⟨token, htoken⟩ := h
  exact weighed_of_none (token_not_market htoken)

theorem idle_token (h : ∃ token : TokenAccountState, tryFromSlice s.data = some token) :
    IdleRecord s = True := by
  obtain ⟨token, htoken⟩ := h
  refine eq_true ⟨?_, ?_, ?_⟩
  · rw [decoded_of_none (token_not_market htoken)]
    nofun
  · rw [decoded_of_none (token_not_position htoken)]
    nofun
  · rw [decoded_of_none (token_not_lender htoken)]
    nofun

end

section
variable {t : Accounts} {instr : Instruction} {out : List AccountInfo}
  {a a' o b b' o' : AccountInfo}

theorem Dealt.idle_slots (hidle : ∀ k, readAt True IdleRecord t k)
    (h : Dealt ProgramIds.moneyMarketProgram (accountsOf t instr) out a a' o b b' o') :
    IdleRecord a.toStored ∧ IdleRecord b.toStored := by
  obtain ⟨ha, hb⟩ := h.slot idleRecord_reading
  exact ⟨ha ▸ hidle a.key, hb ▸ hidle b.key⟩

theorem Dealt.idle_written (hidle : ∀ k, readAt True IdleRecord t k)
    (h : Dealt ProgramIds.moneyMarketProgram (accountsOf t instr) out a a' o b b' o')
    (hfirst : IdleRecord o.toStored) (hsecond : IdleRecord o'.toStored) (k : Pubkey) :
    readAt True IdleRecord (t.write (entries out)) k := by
  rcases h.readAt_cases idleRecord_reading (fun _ => idle_token) k with
    hsame | ⟨-, hnow⟩ | ⟨-, hnow⟩
  · exact hsame ▸ hidle k
  · exact hnow ▸ hfirst
  · exact hnow ▸ hsecond

end

/-! ## Counts and holdings -/

section
variable {G : StoredAccount → Nat} {F : Pubkey → StoredAccount → Nat} {programId : Pubkey}
  {t : Accounts} {instr : Instruction} {out : List AccountInfo} {a a' o b b' o' : AccountInfo}

/-- **The two slots move as one.** The count of the market in slot 0 changes by what the record in
    slot 1 holds of that market, and what it holds of any other is the same. -/
theorem Dealt.balanced (hG : Reading 0 G) (hF : ∀ k, Reading 0 (F k))
    (hblind : ∀ s, (∃ token : TokenAccountState, tryFromSlice s.data = some token) →
      G s = 0 ∧ ∀ k, F k s = 0)
    (h : Dealt programId (accountsOf t instr) out a a' o b b' o')
    (honce : ListedOnce (accountsOf t instr) 0) (honce' : ListedOnce (accountsOf t instr) 1)
    (hbefore : ∀ k, readAt 0 G t k = Table.total (F k) t)
    (hmarket : ∀ k, F k o.toStored = F k a.toStored) (hrecord : G o'.toStored = G b.toStored)
    (hmove : G o.toStored + F a.key b.toStored = G a.toStored + F a.key o'.toStored)
    (hother : ∀ k, k ≠ a.key → F k o'.toStored = F k b.toStored) (k : Pubkey) :
    readAt 0 G (t.write (entries out)) k = Table.total (F k) (t.write (entries out)) := by
  have htotal := h.total (hF k) (fun s hs => (hblind s hs).2 k) honce honce'
  have hwas := hbefore k
  rw [hmarket k] at htotal
  by_cases hk : k = a.key
  · subst hk
    rw [h.readAt_first honce]
    rw [← (h.slot hG).1] at hwas
    omega
  · have hsame : readAt 0 G (t.write (entries out)) k = readAt 0 G t k := by
      rcases h.readAt_cases hG (fun s hs => (hblind s hs).1) k with hsame | ⟨heq, -⟩ | ⟨rfl, hnow⟩
      · exact hsame
      · exact absurd heq hk
      · rw [hnow, hrecord, (h.slot hG).2]
    have hheld := hother k hk
    rw [hsame]
    omega

/-- Where neither slot is worth more or less than it was, nothing changes. -/
theorem Dealt.unmoved (hG : Reading 0 G) (hF : ∀ k, Reading 0 (F k))
    (hblind : ∀ s, (∃ token : TokenAccountState, tryFromSlice s.data = some token) →
      G s = 0 ∧ ∀ k, F k s = 0)
    (h : Dealt programId (accountsOf t instr) out a a' o b b' o')
    (hbefore : ∀ k, readAt 0 G t k = Table.total (F k) t)
    (hmarket : ∀ k, F k o.toStored = F k a.toStored) (hrecord : G o'.toStored = G b.toStored)
    (hcount : G o.toStored = G a.toStored) (hheld : ∀ k, F k o'.toStored = F k b.toStored)
    (k : Pubkey) :
    readAt 0 G (t.write (entries out)) k = Table.total (F k) (t.write (entries out)) := by
  rw [h.readAt_same hG (fun s hs => (hblind s hs).1) hcount hrecord, hbefore k]
  exact (total_same (h.readAt_same (hF k) (fun s hs => (hblind s hs).2 k) (hmarket k)
    (hheld k))).symm

end

/-! ## The invariant -/

/-- The counts are what is held, and what is not initialised is empty. -/
structure LedgerState (t : Accounts) : Prop where
  idle : ∀ k, readAt True IdleRecord t k
  lent : ∀ k, readAt 0 lentCount t k = Table.total (lentTo k) t
  pledged : ∀ k, readAt 0 pledgedCount t k = Table.total (pledgedTo k) t

theorem LedgerState.sums {t : Accounts} (h : LedgerState t) : LedgerSums t := by
  intro k s m hlook howner hm _
  have hlent := h.lent k
  have hpledged := h.pledged k
  simp only [readAt, hlook, Option.map_some, Option.getD_some] at hlent hpledged
  exact ⟨(weighed_of_some howner hm).symm.trans hlent,
    (weighed_of_some howner hm).symm.trans hpledged⟩

/-- A table without money markets: their records, where there are any, are not initialised, and
    have nothing in them. -/
structure WithoutMarkets (t : Accounts) : Prop where
  idle : ∀ k s, t.lookup k = some s → IdleRecord s
  market : ∀ k s, t.lookup k = some s →
    ∀ m ∈ decoded MarketState ProgramIds.moneyMarketProgram s, m.isInitialized = false
  position : ∀ k s, t.lookup k = some s →
    ∀ p ∈ decoded Position ProgramIds.moneyMarketProgram s, p.isInitialized = false
  lender : ∀ k s, t.lookup k = some s →
    ∀ q ∈ decoded LenderPosition ProgramIds.moneyMarketProgram s, q.isInitialized = false

namespace WithoutMarkets

variable {t : Accounts} {w : MarketState → Nat} {u : Position → Nat} {v : LenderPosition → Nat}

theorem readAt_idle (h : WithoutMarkets t) (k : Pubkey) : readAt True IdleRecord t k := by
  unfold readAt
  cases hlook : t.lookup k with
  | none => exact trivial
  | some s => exact h.idle k s hlook

/-- No market counts anything. -/
theorem readAt_market (h : WithoutMarkets t) (hw : ∀ m : MarketState, m.totalCollateral = 0 ∧
      m.totalBorrows = 0 ∧ m.totalCash = 0 ∧ m.totalLenderShares = 0 → w m = 0) (k : Pubkey) :
    readAt 0 (weighed ProgramIds.moneyMarketProgram w) t k = 0 := by
  unfold readAt
  cases hlook : t.lookup k with
  | none => rfl
  | some s =>
    refine weighed_eq_zero fun m howner hm => hw m ?_
    have hdec := decoded_eq_some.mpr ⟨howner, hm⟩
    exact (h.idle k s hlook).market m hdec (h.market k s hlook m hdec)

theorem total_position (h : WithoutMarkets t) (hu : ∀ p, p.isInitialized = false → u p = 0) :
    Table.total (weighed ProgramIds.moneyMarketProgram u) t = 0 :=
  Table.total_eq_zero fun k s hlook => weighed_eq_zero fun p howner hp =>
    hu p (h.position k s hlook p (decoded_eq_some.mpr ⟨howner, hp⟩))

theorem total_lender (h : WithoutMarkets t) (hv : ∀ q, q.isInitialized = false → v q = 0) :
    Table.total (weighed ProgramIds.moneyMarketProgram v) t = 0 :=
  Table.total_eq_zero fun k s hlook => weighed_eq_zero fun q howner hq =>
    hv q (h.lender k s hlook q (decoded_eq_some.mpr ⟨howner, hq⟩))

/-- A table of accounts that other programs own. -/
theorem of_owner (h : ∀ k s, t.lookup k = some s → s.owner ≠ ProgramIds.moneyMarketProgram) :
    WithoutMarkets t := by
  have hnone : ∀ {α : Type} [Borsh α] {k : Pubkey} {s : StoredAccount}, t.lookup k = some s →
      decoded α ProgramIds.moneyMarketProgram s = none := by
    intro α _ k s hlook
    unfold decoded
    rw [if_neg (h k s hlook)]
  refine ⟨fun k s hlook => ⟨?_, ?_, ?_⟩, fun k s hlook => ?_, fun k s hlook => ?_,
    fun k s hlook => ?_⟩ <;>
  · rw [hnone hlook]
    nofun

theorem ledger (h : WithoutMarkets t) : LedgerState t where
  idle := h.readAt_idle
  lent k := by
    rw [lentCount, h.readAt_market fun m hm => by rw [hm.2.2.2]; rfl, lentTo,
      h.total_lender fun q hq => by simp [sharesIn, hq]]
  pledged k := by
    rw [pledgedCount, h.readAt_market fun m hm => by rw [hm.1]; rfl, pledgedTo,
      h.total_position fun p hp => by simp [collateralIn, hp]]

end WithoutMarkets

/-! ## What the slots hold -/

section
variable {α : Type} [Borsh α] {programId : Pubkey} {init : α → Bool} {a o : AccountInfo}
  {d : List UInt8} {v v' : α}

/-- What was not initialised and is now was the program's. -/
theorem Passed.fresh (hnil : tryFromSlice (α := α) [] = none)
    (h : Passed programId False a { a with data := d } o) (hd : toVec v' = some d)
    (hv : tryFromSlice a.data = some v) (hfresh : init v = false) (hinit : init v' = true) :
    decoded α programId a.toStored = some v := by
  have hne : v' ≠ v := by
    intro heq
    rw [heq, hfresh] at hinit
    simp at hinit
  exact decoded_eq_some.mpr ⟨(h.changed hnil id hv hd hne).1, hv⟩

end

section
variable {s : StoredAccount} {k : Pubkey}

theorem lentTo_eq_zero (h : ∀ q : LenderPosition, tryFromSlice s.data = some q →
    q.isInitialized = false) : lentTo k s = 0 :=
  weighed_eq_zero fun q _ hq => by simp [sharesIn, h q hq]

theorem pledgedTo_eq_zero (h : ∀ p : Position, tryFromSlice s.data = some p →
    p.isInitialized = false) : pledgedTo k s = 0 :=
  weighed_eq_zero fun p _ hp => by simp [collateralIn, h p hp]

/-- A market that is not initialised counts nothing. -/
theorem market_eq_zero {w : MarketState → Nat} (hidle : IdleRecord s)
    (hw : ∀ m : MarketState, m.totalCollateral = 0 ∧ m.totalBorrows = 0 ∧ m.totalCash = 0 ∧
      m.totalLenderShares = 0 → w m = 0)
    (h : ∀ m : MarketState, tryFromSlice s.data = some m → m.isInitialized = false) :
    weighed ProgramIds.moneyMarketProgram w s = 0 :=
  weighed_eq_zero fun m howner hm =>
    hw m (hidle.market m (decoded_eq_some.mpr ⟨howner, hm⟩) (h m hm))

end

section
variable {b o : AccountInfo} {e : List UInt8} {marketKey owner k : Pubkey}

/-- What a lender position that was written is worth. -/
theorem Lending.worth {u : LenderPosition → Nat} {q q' : LenderPosition}
    (hfree : ∀ q : LenderPosition, q.isInitialized = false → u q = 0)
    (hempty : ∀ q : LenderPosition, q.shares = 0 → u q = 0)
    (hlending : Lending marketKey owner b.data q) (hidle : IdleRecord b.toStored)
    (h : Passed ProgramIds.moneyMarketProgram False b { b with data := e } o)
    (he : toVec q' = some e) (hinit : q'.isInitialized = true) :
    weighed ProgramIds.moneyMarketProgram u o.toStored + u q =
      weighed ProgramIds.moneyMarketProgram u b.toStored + u q' := by
  have hweigh := h.weigh {} lender_nil (hfree {} rfl) he
  rcases hlending with ⟨hheld, -, -⟩ | ⟨hfresh, rfl⟩
  · rw [hheld] at hweigh
    exact hweigh
  · rw [hfree _ hfresh] at hweigh
    cases hv : (tryFromSlice b.data : Option LenderPosition) with
    | none =>
      rw [hempty _ rfl]
      exact hweigh
    | some v =>
      -- Its owner is the market program, so the record that was there was empty.
      rw [hv, Option.getD_some] at hfresh
      have hnothing := hidle.lender v (h.fresh lender_nil he hv hfresh hinit) hfresh
      rw [Option.getD_some,
        hempty { v with owner, market := marketKey, isInitialized := true } hnothing]
      exact hweigh

theorem Lending.of_market {q : LenderPosition} (h : Lending marketKey owner b.data q) :
    q.isInitialized = true ∧ q.market = marketKey := by
  rcases h with ⟨-, hready, hmarket⟩ | ⟨-, rfl⟩
  · exact ⟨hready, hmarket⟩
  · exact ⟨rfl, rfl⟩

/-- And a position, by whatever an empty one has nothing of. -/
theorem Standing.worth {u : Position → Nat} {q p' : Position}
    (hfree : ∀ p : Position, p.isInitialized = false → u p = 0)
    (hempty : ∀ p : Position, p.collateral = 0 → p.debt = 0 → u p = 0)
    (hstanding : Standing marketKey owner b.data q) (hidle : IdleRecord b.toStored)
    (h : Passed ProgramIds.moneyMarketProgram False b { b with data := e } o)
    (he : toVec p' = some e) (hinit : p'.isInitialized = true) :
    weighed ProgramIds.moneyMarketProgram u o.toStored + u q =
      weighed ProgramIds.moneyMarketProgram u b.toStored + u p' := by
  have hweigh := h.weigh {} position_nil (hfree {} rfl) he
  rcases hstanding with ⟨hheld, -, -⟩ | ⟨hfresh, rfl⟩
  · rw [hheld] at hweigh
    exact hweigh
  · rw [hfree _ hfresh] at hweigh
    cases hv : (tryFromSlice b.data : Option Position) with
    | none =>
      rw [hempty _ rfl rfl]
      exact hweigh
    | some v =>
      rw [hv, Option.getD_some] at hfresh
      have hnothing := hidle.position v (h.fresh position_nil he hv hfresh hinit) hfresh
      rw [Option.getD_some, hempty { v with owner, market := marketKey, isInitialized := true }
        hnothing.1 hnothing.2]
      exact hweigh

theorem Standing.of_market {q : Position} (h : Standing marketKey owner b.data q) :
    q.isInitialized = true ∧ q.market = marketKey := by
  rcases h with ⟨-, hready, hmarket⟩ | ⟨-, rfl⟩
  · exact ⟨hready, hmarket⟩
  · exact ⟨rfl, rfl⟩

end

section
variable {a o : AccountInfo} {d : List UInt8} {old m' : MarketState}

/-- A market that was written over a market holds nothing of any other. -/
theorem market_over (hold : tryFromSlice a.data = some old) (hnow : tryFromSlice o.data = some m')
    (k : Pubkey) :
    lentTo k o.toStored = lentTo k a.toStored ∧ pledgedTo k o.toStored = pledgedTo k a.toStored :=
  ⟨(weighed_of_none (s := o.toStored) (market_not_lender hnow)).trans
      (weighed_of_none (s := a.toStored) (market_not_lender hold)).symm,
    (weighed_of_none (s := o.toStored) (market_not_position hnow)).trans
      (weighed_of_none (s := a.toStored) (market_not_position hold)).symm⟩

/-- What its counts come to. -/
theorem Passed.counts
    (h : Passed ProgramIds.moneyMarketProgram False a { a with data := d } o)
    (hold : (tryFromSlice a.data).getD {} = old) (hd : toVec m' = some d) :
    lentCount o.toStored + old.totalLenderShares.toNat =
        lentCount a.toStored + m'.totalLenderShares.toNat ∧
      pledgedCount o.toStored + old.totalCollateral.toNat =
        pledgedCount a.toStored + m'.totalCollateral.toNat := by
  have hlent := h.weigh (w := fun m : MarketState => m.totalLenderShares.toNat) {} market_nil
    rfl hd
  have hpledged := h.weigh (w := fun m : MarketState => m.totalCollateral.toNat) {} market_nil
    rfl hd
  rw [hold] at hlent hpledged
  exact ⟨hlent, hpledged⟩

end

/-! ## What the instructions have to be given -/

/-- No initialised market is in the slot. -/
def NoMarket (a : AccountInfo) : Prop :=
  ∀ m ∈ (tryFromSlice a.data : Option MarketState), m.isInitialized = false

instance (a : AccountInfo) : Decidable (NoMarket a) :=
  inferInstanceAs (Decidable (∀ m ∈ (tryFromSlice a.data : Option MarketState),
    m.isInitialized = false))

/-- No initialised position is in the slot. -/
def NoPosition (a : AccountInfo) : Prop :=
  ∀ p ∈ (tryFromSlice a.data : Option Position), p.isInitialized = false

instance (a : AccountInfo) : Decidable (NoPosition a) :=
  inferInstanceAs (Decidable (∀ p ∈ (tryFromSlice a.data : Option Position),
    p.isInitialized = false))

/-- No initialised lender position is in the slot. -/
def NoLender (a : AccountInfo) : Prop :=
  ∀ q ∈ (tryFromSlice a.data : Option LenderPosition), q.isInitialized = false

instance (a : AccountInfo) : Decidable (NoLender a) :=
  inferInstanceAs (Decidable (∀ q ∈ (tryFromSlice a.data : Option LenderPosition),
    q.isInitialized = false))

/-- Slots that keep the sums: what is written is no record of another kind in use, and what is
    counted is not listed again. -/
def LedgerCare (accounts : List AccountInfo) : MoneyMarketInstruction → Prop
  | .initMarket _ => ∀ a ∈ accounts[0]?, NoPosition a ∧ NoLender a
  | .addLiquidity _ | .removeLiquidity _ => ListedOnce accounts 0 ∧ ListedOnce accounts 1 ∧
      ∀ b ∈ accounts[1]?, NoMarket b ∧ NoPosition b
  | .supply _ | .withdraw _ => ListedOnce accounts 0 ∧ ListedOnce accounts 1 ∧
      ∀ b ∈ accounts[1]?, NoMarket b ∧ NoLender b
  | .borrow _ | .repay _ => ∀ b ∈ accounts[1]?, NoMarket b ∧ NoLender b
  | .liquidate _ => ListedOnce accounts 0 ∧ ListedOnce accounts 1
  | .syncPrice => True

instance (accounts : List AccountInfo) (ix : MoneyMarketInstruction) :
    Decidable (LedgerCare accounts ix) := by
  cases ix with
  | initMarket terms =>
    exact inferInstanceAs (Decidable (∀ a ∈ accounts[0]?, NoPosition a ∧ NoLender a))
  | addLiquidity amount | removeLiquidity amount =>
    exact inferInstanceAs (Decidable (ListedOnce accounts 0 ∧ ListedOnce accounts 1 ∧
      ∀ b ∈ accounts[1]?, NoMarket b ∧ NoPosition b))
  | supply amount | withdraw amount =>
    exact inferInstanceAs (Decidable (ListedOnce accounts 0 ∧ ListedOnce accounts 1 ∧
      ∀ b ∈ accounts[1]?, NoMarket b ∧ NoLender b))
  | borrow amount | repay amount =>
    exact inferInstanceAs (Decidable (∀ b ∈ accounts[1]?, NoMarket b ∧ NoLender b))
  | liquidate repayAmount =>
    exact inferInstanceAs (Decidable (ListedOnce accounts 0 ∧ ListedOnce accounts 1))
  | syncPrice => exact isTrue trivial

/-- The instructions that keep the sums. -/
def LedgerOk (t : Accounts) (instr : Instruction) : Prop :=
  ∀ ix ∈ (tryFromSlice instr.data : Option MoneyMarketInstruction),
    LedgerCare (accountsOf t instr) ix

instance (t : Accounts) (instr : Instruction) : Decidable (LedgerOk t instr) :=
  inferInstanceAs (Decidable (∀ ix ∈ (tryFromSlice instr.data : Option MoneyMarketInstruction),
    LedgerCare (accountsOf t instr) ix))

/-! ## The nine instructions, by what they write -/

namespace LedgerState

variable {t : Accounts} {instr : Instruction} {out : List AccountInfo}
  {a a' o b b' o' : AccountInfo} {old m' : MarketState} {d e : List UInt8}

/-- Only the market was written, and its counts are what they were. -/
theorem alone (hs : LedgerState t)
    (h : Dealt ProgramIds.moneyMarketProgram (accountsOf t instr) out a { a with data := d } o b b
      o')
    (hold : (tryFromSlice a.data).getD {} = old) (hd : toVec m' = some d)
    (hinit : m'.isInitialized = true) (hlent : m'.totalLenderShares = old.totalLenderShares)
    (hpledged : m'.totalCollateral = old.totalCollateral) (hno : NoPosition a ∧ NoLender a) :
    LedgerState (t.write (entries out)) := by
  obtain ⟨-, hidle⟩ := h.idle_slots hs.idle
  have hnow : tryFromSlice o.data = some m' := h.first.written hd
  obtain ⟨hlentCount, hpledgedCount⟩ := h.first.counts hold hd
  rw [hlent] at hlentCount
  rw [hpledged] at hpledgedCount
  constructor
  · refine h.idle_written hs.idle (idle_of_market (s := o.toStored) hnow hinit) ?_
    exact idleRecord_reading.left h.second rfl ▸ hidle
  · refine h.unmoved lentCount_reading lentTo_reading
      (fun _ hs => ⟨market_token hs, fun _ => lentTo_token hs⟩) hs.lent (fun k => ?_)
      (lentCount_reading.left h.second rfl) (Nat.add_right_cancel hlentCount)
      fun k => (lentTo_reading k).left h.second rfl
    rw [lentTo_eq_zero (s := a.toStored) hno.2]
    exact weighed_of_none (s := o.toStored) (market_not_lender hnow)
  · refine h.unmoved pledgedCount_reading pledgedTo_reading
      (fun _ hs => ⟨market_token hs, fun _ => pledgedTo_token hs⟩) hs.pledged (fun k => ?_)
      (pledgedCount_reading.left h.second rfl) (Nat.add_right_cancel hpledgedCount)
      fun k => (pledgedTo_reading k).left h.second rfl
    rw [pledgedTo_eq_zero (s := a.toStored) hno.1]
    exact weighed_of_none (s := o.toStored) (market_not_position hnow)

/-- The shares of the market and of a lender position moved by the same amount. -/
theorem lender {owner : Pubkey} {q q' : LenderPosition} (hs : LedgerState t)
    (h : Dealt ProgramIds.moneyMarketProgram (accountsOf t instr) out a { a with data := d } o b
      { b with data := e } o')
    (hold : tryFromSlice a.data = some old) (hd : toVec m' = some d)
    (hinit : m'.isInitialized = true) (hlending : Lending a.key owner b.data q)
    (he : toVec q' = some e) (hkept : q'.isInitialized = q.isInitialized ∧ q'.market = q.market)
    (hmoved : m'.totalLenderShares.toNat + q.shares.toNat =
      old.totalLenderShares.toNat + q'.shares.toNat)
    (hpledged : m'.totalCollateral = old.totalCollateral)
    (honce : ListedOnce (accountsOf t instr) 0) (honce' : ListedOnce (accountsOf t instr) 1)
    (hno : NoMarket b ∧ NoPosition b) : LedgerState (t.write (entries out)) := by
  obtain ⟨-, hidle⟩ := h.idle_slots hs.idle
  obtain ⟨hready, hmarket⟩ := hlending.of_market
  have hready' : q'.isInitialized = true := hkept.1.trans hready
  have hnow : tryFromSlice o.data = some m' := h.first.written hd
  have hnow' : tryFromSlice o'.data = some q' := h.second.written he
  have hover := fun k => market_over hold hnow k
  obtain ⟨hlentCount, hpledgedCount⟩ := h.first.counts (by rw [hold, Option.getD_some]) hd
  rw [hpledged] at hpledgedCount
  have hworth : ∀ k, lentTo k o'.toStored + sharesIn k q = lentTo k b.toStored + sharesIn k q' :=
    fun k => hlending.worth (u := sharesIn k) (fun q hq => by simp [sharesIn, hq])
      (fun q hq => by simp [sharesIn, hq]) hidle h.second he hready'
  constructor
  · exact h.idle_written hs.idle (idle_of_market (s := o.toStored) hnow hinit)
      (idle_of_lender (s := o'.toStored) hnow' hready')
  · refine h.balanced lentCount_reading lentTo_reading
      (fun _ hs => ⟨market_token hs, fun _ => lentTo_token hs⟩) honce honce' hs.lent
      (fun k => (hover k).1) ?_ ?_ (fun k hk => ?_)
    · rw [lentCount, market_eq_zero (s := b.toStored) hidle (fun m hm => by rw [hm.2.2.2]; rfl)
        hno.1]
      exact weighed_of_none (s := o'.toStored) (lender_not_market hnow')
    · have hsecond := hworth a.key
      simp only [sharesIn, hready, hready', hkept.2, hmarket, and_self, if_true] at hsecond
      omega
    · have hsecond := hworth k
      simp only [sharesIn, hkept.2, hmarket, Ne.symm hk, and_false, if_false] at hsecond
      exact hsecond
  · refine h.unmoved pledgedCount_reading pledgedTo_reading
      (fun _ hs => ⟨market_token hs, fun _ => pledgedTo_token hs⟩) hs.pledged
      (fun k => (hover k).2) ?_ (Nat.add_right_cancel hpledgedCount) fun k => ?_
    · rw [pledgedCount, market_eq_zero (s := b.toStored) hidle (fun m hm => by rw [hm.1]; rfl)
        hno.1]
      exact weighed_of_none (s := o'.toStored) (lender_not_market hnow')
    · rw [pledgedTo_eq_zero (s := b.toStored) hno.2]
      exact weighed_of_none (s := o'.toStored) (lender_not_position hnow')

/-- What a position that was written is worth. -/
theorem position_worth {owner : Pubkey} {q p' : Position} (hs : LedgerState t)
    (h : Dealt ProgramIds.moneyMarketProgram (accountsOf t instr) out a { a with data := d } o b
      { b with data := e } o')
    (hstanding : Standing a.key owner b.data q) (he : toVec p' = some e)
    (hkept : p'.isInitialized = q.isInitialized ∧ p'.market = q.market) :
    pledgedTo a.key o'.toStored + q.collateral.toNat =
        pledgedTo a.key b.toStored + p'.collateral.toNat ∧
      (∀ k, k ≠ a.key → pledgedTo k o'.toStored = pledgedTo k b.toStored) ∧
      (p'.collateral = q.collateral → ∀ k, pledgedTo k o'.toStored = pledgedTo k b.toStored) := by
  obtain ⟨-, hidle⟩ := h.idle_slots hs.idle
  obtain ⟨hready, hmarket⟩ := hstanding.of_market
  have hready' : p'.isInitialized = true := hkept.1.trans hready
  have hworth : ∀ k, pledgedTo k o'.toStored + collateralIn k q =
      pledgedTo k b.toStored + collateralIn k p' :=
    fun k => hstanding.worth (u := collateralIn k) (fun p hp => by simp [collateralIn, hp])
      (fun p hp _ => by simp [collateralIn, hp]) hidle h.second he hready'
  refine ⟨?_, fun k hk => ?_, fun hsame k => ?_⟩
  · have hsecond := hworth a.key
    simp only [collateralIn, hready, hready', hkept.2, hmarket, and_self, if_true] at hsecond
    exact hsecond
  · have hsecond := hworth k
    simp only [collateralIn, hkept.2, hmarket, Ne.symm hk, and_false, if_false] at hsecond
    exact hsecond
  · have hsecond := hworth k
    simp only [collateralIn, hready, hready', hkept.2, hsame] at hsecond
    exact Nat.add_right_cancel hsecond

/-- The collateral of the market and of a position moved by the same amount, or neither did. -/
theorem position {owner : Pubkey} {q p' : Position} (hs : LedgerState t)
    (h : Dealt ProgramIds.moneyMarketProgram (accountsOf t instr) out a { a with data := d } o b
      { b with data := e } o')
    (hold : tryFromSlice a.data = some old) (hd : toVec m' = some d)
    (hinit : m'.isInitialized = true) (hstanding : Standing a.key owner b.data q)
    (he : toVec p' = some e) (hkept : p'.isInitialized = q.isInitialized ∧ p'.market = q.market)
    (hlent : m'.totalLenderShares = old.totalLenderShares)
    (hmoved : (m'.totalCollateral = old.totalCollateral ∧ p'.collateral = q.collateral) ∨
      (ListedOnce (accountsOf t instr) 0 ∧ ListedOnce (accountsOf t instr) 1 ∧
        m'.totalCollateral.toNat + q.collateral.toNat =
          old.totalCollateral.toNat + p'.collateral.toNat))
    (hno : NoMarket b ∧ NoLender b) : LedgerState (t.write (entries out)) := by
  obtain ⟨-, hidle⟩ := h.idle_slots hs.idle
  have hready' : p'.isInitialized = true := hkept.1.trans hstanding.of_market.1
  have hnow : tryFromSlice o.data = some m' := h.first.written hd
  have hnow' : tryFromSlice o'.data = some p' := h.second.written he
  have hover := fun k => market_over hold hnow k
  obtain ⟨hlentCount, hpledgedCount⟩ := h.first.counts (by rw [hold, Option.getD_some]) hd
  rw [hlent] at hlentCount
  obtain ⟨hworth, hother, hsame⟩ := hs.position_worth h hstanding he hkept
  have hmarket : pledgedCount o'.toStored = pledgedCount b.toStored := by
    rw [pledgedCount, market_eq_zero (s := b.toStored) hidle (fun m hm => by rw [hm.1]; rfl)
      hno.1]
    exact weighed_of_none (s := o'.toStored) (position_not_market hnow')
  have hblind : ∀ s, (∃ token : TokenAccountState, tryFromSlice s.data = some token) →
      pledgedCount s = 0 ∧ ∀ k, pledgedTo k s = 0 :=
    fun _ hs => ⟨market_token hs, fun _ => pledgedTo_token hs⟩
  constructor
  · exact h.idle_written hs.idle (idle_of_market (s := o.toStored) hnow hinit)
      (idle_of_position (s := o'.toStored) hnow' hready')
  · refine h.unmoved lentCount_reading lentTo_reading
      (fun _ hs => ⟨market_token hs, fun _ => lentTo_token hs⟩) hs.lent
      (fun k => (hover k).1) ?_ (Nat.add_right_cancel hlentCount) fun k => ?_
    · rw [lentCount, market_eq_zero (s := b.toStored) hidle (fun m hm => by rw [hm.2.2.2]; rfl)
        hno.1]
      exact weighed_of_none (s := o'.toStored) (position_not_market hnow')
    · rw [lentTo_eq_zero (s := b.toStored) hno.2]
      exact weighed_of_none (s := o'.toStored) (position_not_lender hnow')
  · rcases hmoved with ⟨hcount, hheld⟩ | ⟨honce, honce', hmove⟩
    · rw [hcount] at hpledgedCount
      exact h.unmoved pledgedCount_reading pledgedTo_reading hblind hs.pledged
        (fun k => (hover k).2) hmarket (Nat.add_right_cancel hpledgedCount) (hsame hheld)
    · exact h.balanced pledgedCount_reading pledgedTo_reading hblind honce honce' hs.pledged
        (fun k => (hover k).2) hmarket (by omega) hother

end LedgerState

/-! ## Every instruction -/

section
variable {π : Profile} {timestamp : UInt64} {th th₁ th₂ : Thread} {t : Accounts}
  {instr : Instruction} {moved mid out : List AccountInfo} {a b : AccountInfo}
  {old m m' : MarketState}

/-- An instruction on a lender position. -/
theorem LedgerState.lenderDeal {q q' : LenderPosition} (hs : LedgerState t)
    (hdup : rejectDuplicateWritable (accountsOf t instr) = .ok ()) (happ : th.approved = ∅)
    (hdeal : LenderDeal π (accountsOf t instr) moved mid timestamp a b old m m' q q')
    (hshift : Shifted th th₁ (accountsOf t instr) moved)
    (hgate : Comp.Returns
      (validateWrites ProgramIds.moneyMarketProgram (accountsOf t instr) mid) th₁ out th₂)
    (hm : m'.isInitialized = m.isInitialized ∧ m'.totalCollateral = m.totalCollateral)
    (hq : q'.isInitialized = q.isInitialized ∧ q'.market = q.market)
    (hmoved : m'.totalLenderShares.toNat + q.shares.toNat =
      m.totalLenderShares.toNat + q'.shares.toNat)
    (hcare : ListedOnce (accountsOf t instr) 0 ∧ ListedOnce (accountsOf t instr) 1 ∧
      ∀ b ∈ (accountsOf t instr)[1]?, NoMarket b ∧ NoPosition b) :
    LedgerState (t.write (entries out)) := by
  obtain ⟨owner, hlending⟩ := hdeal.lending
  obtain ⟨d, e, o, o', hd, he, hdealt⟩ := storeBoth_dealt hdup happ hdeal.opened.slot hdeal.second
    hshift hdeal.stored hgate
  obtain ⟨index, borrows, at_, rfl⟩ := accrueMarket_keeps hdeal.opened.accrued
  exact hs.lender hdealt hdeal.opened.held hd (hm.1.trans hdeal.opened.initialized) hlending he hq
    hmoved hm.2 hcare.1 hcare.2.1 (hcare.2.2 b hdeal.second)

/-- And one on a position. -/
theorem LedgerState.positionDeal {q p p' : Position} (hs : LedgerState t)
    (hdup : rejectDuplicateWritable (accountsOf t instr) = .ok ()) (happ : th.approved = ∅)
    (hdeal : PositionDeal π (accountsOf t instr) moved mid timestamp a b old m m' q p p')
    (hshift : Shifted th th₁ (accountsOf t instr) moved)
    (hgate : Comp.Returns
      (validateWrites ProgramIds.moneyMarketProgram (accountsOf t instr) mid) th₁ out th₂)
    (hm : m'.isInitialized = m.isInitialized ∧ m'.totalLenderShares = m.totalLenderShares)
    (hp : p'.isInitialized = p.isInitialized ∧ p'.market = p.market)
    (hmoved : (m'.totalCollateral = m.totalCollateral ∧ p'.collateral = p.collateral) ∨
      (ListedOnce (accountsOf t instr) 0 ∧ ListedOnce (accountsOf t instr) 1 ∧
        m'.totalCollateral.toNat + p.collateral.toNat =
          m.totalCollateral.toNat + p'.collateral.toNat))
    (hno : NoMarket b ∧ NoLender b) : LedgerState (t.write (entries out)) := by
  obtain ⟨owner, hstanding⟩ := hdeal.standing
  obtain ⟨d, e, o, o', hd, he, hdealt⟩ := storeBoth_dealt hdup happ hdeal.opened.slot hdeal.second
    hshift hdeal.stored hgate
  obtain ⟨index, borrows, at_, rfl⟩ := accrueMarket_keeps hdeal.opened.accrued
  obtain ⟨debt, snapshot, rfl⟩ := accruePosition_keeps hdeal.accrued
  exact hs.position hdealt hdeal.opened.held hd (hm.1.trans hdeal.opened.initialized) hstanding he
    hp hm.2 hmoved hno

/-- **What a liquidation seizes was counted.** The market pays for something that it counts as
    repaid, so its record changes, so it is the program's and its count is what is held. -/
theorem LedgerState.seized_le {q p p' : Position} {seized : UInt64} (hs : LedgerState t)
    (hdup : rejectDuplicateWritable (accountsOf t instr) = .ok ()) (happ : th.approved = ∅)
    (hdeal : PositionDeal π (accountsOf t instr) moved mid timestamp a b old m m' q p p')
    (hshift : Shifted th th₁ (accountsOf t instr) moved)
    (hgate : Comp.Returns
      (validateWrites ProgramIds.moneyMarketProgram (accountsOf t instr) mid) th₁ out th₂)
    (hm : m'.totalCash ≠ m.totalCash)
    (hp : p'.isInitialized = p.isInitialized ∧ p'.market = p.market)
    (hseized : p'.collateral.toNat + seized.toNat = p.collateral.toNat) :
    seized ≤ m.totalCollateral := by
  obtain ⟨owner, hstanding⟩ := hdeal.standing
  obtain ⟨d, e, o, o', hd, he, hdealt⟩ := storeBoth_dealt hdup happ hdeal.opened.slot hdeal.second
    hshift hdeal.stored hgate
  obtain ⟨index, borrows, at_, rfl⟩ := accrueMarket_keeps hdeal.opened.accrued
  obtain ⟨debt, snapshot, rfl⟩ := accruePosition_keeps hdeal.accrued
  have hne : m' ≠ old := by
    intro heq
    have hcash := congrArg MarketState.totalCash heq
    exact hm hcash
  obtain ⟨howner, -⟩ := hdealt.first.changed market_nil id hdeal.opened.held hd hne
  have hcount : pledgedCount a.toStored = old.totalCollateral.toNat :=
    weighed_of_some (s := a.toStored) howner hdeal.opened.held
  have hworth := (hs.position_worth hdealt hstanding he hp).1
  have hheld : readAt 0 (pledgedTo a.key) t b.key ≤ Table.total (pledgedTo a.key) t :=
    Table.weight_le_total
  rw [← hs.pledged a.key, ← (hdealt.slot pledgedCount_reading).1, hcount,
    ← (hdealt.slot (pledgedTo_reading a.key)).2] at hheld
  refine UInt64.le_iff_toNat_le.mpr (Nat.le_trans ?_ hheld)
  change _ + q.collateral.toNat = _ at hworth
  change _ = q.collateral.toNat at hseized
  omega

end

theorem ledger_kept {ex : Executor} {tx : RuntimeTransaction} {t t' : Accounts}
    {instr : Instruction} (hs : LedgerState t)
    (hprog : instr.programId = ProgramIds.moneyMarketProgram) (hok : LedgerOk t instr)
    (h : tableStep ex .commit tx t instr = some t') : LedgerState t' := by
  obtain ⟨ix, mid, out, th, th₁, th₂, hix, hdup, happ, hpost, hgate, rfl⟩ :=
    market_tableStep hprog h
  have hcare := hok ix hix
  cases ix with
  | initMarket terms =>
    obtain ⟨rfl, a, b, old, cm, bm, cv, bv, feed, ha, hb, hold, -, -, -, -, -, hstore⟩ := hpost
    obtain ⟨d, o, o', hd, hdealt⟩ := store_dealt hdup happ ha hb hstore hgate
    exact hs.alone hdealt hold hd rfl rfl rfl (hcare a ha)
  | syncPrice =>
    obtain ⟨rfl, a, b, old, price, at_, ha, hb, hold, hinit, hstore⟩ := hpost
    obtain ⟨d, o, o', hd, hdealt⟩ := store_dealt hdup happ ha hb hstore hgate
    have hbefore : (tryFromSlice a.data).getD {} = old := by rw [hold, Option.getD_some]
    refine hs.alone hdealt hbefore hd hinit rfl rfl ⟨?_, ?_⟩
    · rw [NoPosition, market_not_position hold]
      nofun
    · rw [NoLender, market_not_lender hold]
      nofun
  | addLiquidity amount =>
    obtain ⟨moved, a, b, old, m, q, shares, cash, total, held, hdeal, hmoved, -, htotal, hheld⟩ :=
      hpost
    refine hs.lenderDeal hdup happ hdeal hmoved.shifted hgate ⟨rfl, rfl⟩ ⟨rfl, rfl⟩ ?_ hcare
    change total.toNat + _ = _ + held.toNat
    omega
  | removeLiquidity amount =>
    obtain ⟨moved, a, b, old, m, q, shares, cash, total, held, hdeal, hmoved, -, htotal, hheld⟩ :=
      hpost
    refine hs.lenderDeal hdup happ hdeal hmoved.shifted hgate ⟨rfl, rfl⟩ ⟨rfl, rfl⟩ ?_ hcare
    change total.toNat + _ = _ + held.toNat
    omega
  | supply amount =>
    obtain ⟨moved, a, b, old, m, q, p, collateral, total, hdeal, hmoved, htotal, hheld⟩ := hpost
    refine hs.positionDeal hdup happ hdeal hmoved.shifted hgate ⟨rfl, rfl⟩ ⟨rfl, rfl⟩
      (.inr ⟨hcare.1, hcare.2.1, ?_⟩) (hcare.2.2 b hdeal.second)
    change total.toNat + _ = _ + collateral.toNat
    omega
  | withdraw amount =>
    obtain ⟨moved, a, b, old, m, q, p, collateral, total, hdeal, hmoved, htotal, hheld⟩ := hpost
    refine hs.positionDeal hdup happ hdeal hmoved.shifted hgate ⟨rfl, rfl⟩ ⟨rfl, rfl⟩
      (.inr ⟨hcare.1, hcare.2.1, ?_⟩) (hcare.2.2 b hdeal.second)
    change total.toNat + _ = _ + collateral.toNat
    omega
  | borrow amount =>
    obtain ⟨moved, a, b, old, m, q, p, debt, cash, borrows, hdeal, hmoved, -, -, -⟩ := hpost
    exact hs.positionDeal hdup happ hdeal hmoved.shifted hgate ⟨rfl, rfl⟩ ⟨rfl, rfl⟩
      (.inl ⟨rfl, rfl⟩) (hcare b hdeal.second)
  | repay amount =>
    obtain ⟨moved, a, b, old, m, q, p, debt, cash, hdeal, hmoved, -, -, -⟩ := hpost
    exact hs.positionDeal hdup happ hdeal hmoved.shifted hgate ⟨rfl, rfl⟩ ⟨rfl, rfl⟩
      (.inl ⟨rfl, rfl⟩) (hcare b hdeal.second)
  | liquidate repayAmount =>
    obtain ⟨paid, moved, th₃, a, b, old, m, q, p, most, repaid, seized, debt, collateral, cash,
      hdeal, hpaid, hmoved, -, hq, -, -, hsome, hcash, -, hheld⟩ := hpost
    have hshift := hpaid.shifted.trans hmoved.shifted
    have hne : cash ≠ m.totalCash := by
      rintro rfl
      exact hsome (UInt64.toNat_inj.mp (by rw [UInt64.toNat_zero]; omega))
    have hle := hs.seized_le hdup happ hdeal hshift hgate hne ⟨rfl, rfl⟩ hheld
    have hno : NoMarket b ∧ NoLender b := by
      constructor
      · rw [NoMarket, position_not_market hq]
        nofun
      · rw [NoLender, position_not_lender hq]
        nofun
    refine hs.positionDeal hdup happ hdeal hshift hgate ⟨rfl, rfl⟩ ⟨rfl, rfl⟩
      (.inr ⟨hcare.1, hcare.2, ?_⟩) hno
    change (saturatingSub m.totalCollateral seized).toNat + _ = _ + collateral.toNat
    rw [saturatingSub_toNat]
    have hle' := UInt64.le_iff_toNat_le.mp hle
    omega

/-- **The sums hold.** In every run of money-market transactions from a table without markets,
    whatever they contain and whether or not they succeed, every market counts what the records
    that name it hold, as long as the instructions that commit are given slots as `LedgerCare`
    says. -/
theorem ledger_sums (ex : Executor) (w w' : World) (txs : List RuntimeTransaction)
    (hstart : WithoutMarkets w.state.accounts)
    (hmeets : Meets (programStep ProgramIds.moneyMarketProgram ex)
      (CommitsMeet (fun _ => LedgerOk) ex) w txs)
    (hrun : Lib.run (programStep ProgramIds.moneyMarketProgram ex) w txs = some w') :
    LedgerSums w'.state.accounts := by
  have hstate := programRun_invariant (I := LedgerState)
    (fun _ _ _ _ hprog hok hs hstep => ledger_kept hs hprog hok hstep) hmeets hstart.ledger hrun
  exact hstate.sums

/-- A token account. -/
def tokensOf (mint owner : Pubkey) (amount : UInt64) : StoredAccount :=
  ⟨1, (toVec ({ mint, owner, amount, state := .initialized } : TokenAccountState)).getD [],
    ProgramIds.tokenProgram, false, none, none⟩

/-- The tokens of a market `1` that does not exist yet: of the mint `20`, which can be borrowed, the
    user `9` has 1000 in `4`, and of the collateral `21` in `6`; the vaults `5` and `7` are empty. -/
def marketTokens : List (Pubkey × StoredAccount) :=
  [(.repeated 4, tokensOf (.repeated 20) (.repeated 9) 1000),
    (.repeated 5, tokensOf (.repeated 20) (.repeated 1) 0),
    (.repeated 6, tokensOf (.repeated 21) (.repeated 9) 1000),
    (.repeated 7, tokensOf (.repeated 21) (.repeated 1) 0)]

def beforeMarket : World where
  state := { accounts := (∅ : Accounts).write marketTokens }

theorem withoutMarkets_before : WithoutMarkets beforeMarket.state.accounts := by
  refine .of_owner fun k s hlook => ?_
  rcases Table.lookup_write_mem hlook with hmem | hnone
  · have hall : ∀ e ∈ marketTokens, e.2.owner ≠ ProgramIds.moneyMarketProgram := by
      decide +kernel
    exact hall _ (Table.mem_of_mem_survivors hmem)
  · cases hnone

/-- The market lends half of what is pledged. -/
def halfTerms : MarketTerms where
  collateralFactorBps := 5000
  liquidationThresholdBps := 6000
  liquidationBonusBps := 0
  closeFactorBps := 0
  price := 1000000
  baseRateBps := 1000
  slopeBps := 0
  kinkUtilizationBps := 0
  jumpSlopeBps := 0
  maxPriceStaleness := 100000000

/-- The market is opened, 500 are lent to it in `2` and 300 pledged in `3`; then something
    happens. -/
def lendAndPledge (last : Instruction) : RuntimeTransaction :=
  signedBy [.repeated 9]
    [initMarketIx (.repeated 1) (.repeated 21) (.repeated 20) (.repeated 7) (.repeated 5)
        (.repeated 9) (.repeated 8) halfTerms,
      liquidityIx (.addLiquidity 500) (.repeated 1) (.repeated 2) (.repeated 4) (.repeated 5)
        (.repeated 9),
      vaultIx (.supply 300) (.repeated 1) (.repeated 3) (.repeated 6) (.repeated 7) (.repeated 9),
      last]

/-- What that leaves. -/
def pledgedTable (last : Instruction) : Option Accounts :=
  Lib.run (tableStep (.bare .dev) .commit (lendAndPledge last)) beforeMarket.state.accounts
    (lendAndPledge last).message.instructions

/-- Taking back 100 of the collateral. -/
def takeBack : Instruction :=
  vaultIx (.withdraw 100) (.repeated 1) (.repeated 3) (.repeated 6) (.repeated 7) (.repeated 9)

theorem ledger_sums_withdraw : ∃ w',
    Lib.run (programStep ProgramIds.moneyMarketProgram (.bare .dev)) beforeMarket
        [lendAndPledge takeBack] = some w' ∧
      Table.total (lentTo (.repeated 1)) w'.state.accounts = 500 ∧
      Table.total (pledgedTo (.repeated 1)) w'.state.accounts = 200 ∧
      LedgerSums w'.state.accounts := by
  have hcheck : (pledgedTable takeBack).any (fun t =>
      (Table.total (lentTo (.repeated 1)) t = 500 ∧
        Table.total (pledgedTo (.repeated 1)) t = 200) ∧
      ∀ e ∈ t.entries, e.2.data.length < 2 ^ 32) = true := by decide +kernel
  obtain ⟨t, ht, hthen⟩ := (Option.any_eq_true _ _).mp hcheck
  obtain ⟨⟨hlent, hpledged⟩, henc⟩ := of_decide_eq_true hthen
  obtain ⟨w', hrun, rfl⟩ := programRun_single ProgramIds.moneyMarketProgram
    (w := beforeMarket) (by decide +kernel) rfl ht henc
  have hok : CommitsMeet (fun _ => LedgerOk) (.bare .dev) beforeMarket (lendAndPledge takeBack) :=
    fun _ => by decide +kernel
  have hmeets : Meets (programStep ProgramIds.moneyMarketProgram (.bare .dev))
      (CommitsMeet (fun _ => LedgerOk) (.bare .dev)) beforeMarket [lendAndPledge takeBack] :=
    ⟨hok, fun _ _ => trivial⟩
  exact ⟨w', hrun, hlent, hpledged,
    ledger_sums (.bare .dev) _ _ _ withoutMarkets_before hmeets hrun⟩

/-- Pledging 10 in the account that holds the shares. -/
def pledgeOverShares : Instruction :=
  vaultIx (.supply 10) (.repeated 1) (.repeated 2) (.repeated 6) (.repeated 7) (.repeated 9)

/-- **Shares are overwritten** by a position. -/
theorem shares_overwritten : ¬ ∀ (ex : Executor) (w w' : World) (txs : List RuntimeTransaction),
    WithoutMarkets w.state.accounts →
    Lib.run (programStep ProgramIds.moneyMarketProgram ex) w txs = some w' →
    LedgerSums w'.state.accounts := by
  intro hclaim
  have hcheck : (pledgedTable pledgeOverShares).any (fun t =>
      (((t.lookup (.repeated 1)).any fun s => s.owner = ProgramIds.moneyMarketProgram ∧
          (tryFromSlice s.data).any fun m : MarketState =>
            m.isInitialized = true ∧ m.totalLenderShares = 500) ∧
        Table.total (lentTo (.repeated 1)) t = 0) ∧
      ∀ e ∈ t.entries, e.2.data.length < 2 ^ 32) = true := by decide +kernel
  obtain ⟨t, ht, hthen⟩ := (Option.any_eq_true _ _).mp hcheck
  obtain ⟨⟨hmarket, htotal⟩, henc⟩ := of_decide_eq_true hthen
  obtain ⟨w', hrun, rfl⟩ := programRun_single ProgramIds.moneyMarketProgram
    (w := beforeMarket) (by decide +kernel) rfl ht henc
  obtain ⟨s, hlook, hs⟩ := (Option.any_eq_true _ _).mp hmarket
  obtain ⟨howner, hheld⟩ := of_decide_eq_true hs
  obtain ⟨m, hm, hcount⟩ := (Option.any_eq_true _ _).mp hheld
  obtain ⟨hinit, hshares⟩ := of_decide_eq_true hcount
  have hsum := (hclaim _ _ _ _ withoutMarkets_before hrun _ s m hlook howner hm hinit).1
  rw [hshares, htotal] at hsum
  exact absurd hsum (by decide)

end Proof
end Himsha
