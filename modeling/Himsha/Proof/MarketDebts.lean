import Himsha.Proof.MarketSums

/-!
# What is owed to the money market

A market counts what was borrowed of it, with interest, in one number; each position has a debt of
its own and the index that it was last brought up to. Interest rounds the count down whenever it is
charged, and a position only once for all the times since it was last touched. The count covers the
debts as long as no interest is charged twice on a debt that was not brought up to date in between
(`accrual_covers`).
-/

set_option autoImplicit false

namespace Himsha
namespace Proof

open Himsha.Lib Himsha.Runtime Himsha.Programs Himsha.Vm Himsha.Node Token MoneyMarket

/-! ## Readings -/

/-- What a position of the market `k` owes once it is brought up to `index`. -/
def reconciledIn (π : Profile) (k : Pubkey) (index : U128) (p : Position) : Nat :=
  if p.isInitialized = true ∧ p.market = k then
    ((accruePosition π p index).map fun p' => p'.debt.toNat).getD 0
  else 0

/-- **Borrows cover debts**: the market counts at least what its positions owe at its index. -/
def BorrowsCover (π : Profile) (k : Pubkey) (t : Accounts) : Prop :=
  ∀ s (m : MarketState), t.lookup k = some s → s.owner = ProgramIds.moneyMarketProgram →
    tryFromSlice s.data = some m → m.isInitialized = true →
    Table.total (weighed ProgramIds.moneyMarketProgram (reconciledIn π k m.borrowIndex)) t ≤
      m.totalBorrows.toNat

/-- The same debt, whatever its size. -/
def owedIn (k : Pubkey) (index : U128) (p : Position) : Nat :=
  if p.isInitialized = true ∧ p.market = k then owed index p else 0

def owedTo (k : Pubkey) (index : U128) : StoredAccount → Nat :=
  weighed ProgramIds.moneyMarketProgram (owedIn k index)

/-- The market that an account holds, whoever owns it. -/
def heldMarket (s : StoredAccount) : Option MarketState := tryFromSlice s.data

/-- Every position of the market `k` that owes something was brought up to `index`. -/
def CurrentAt (k : Pubkey) (index : U128) (t : Accounts) : Prop :=
  ∀ e ∈ t.entries, ∀ p ∈ decoded Position ProgramIds.moneyMarketProgram e.2,
    p.isInitialized = true → p.market = k → p.debt ≠ 0 → p.borrowIndexSnapshot = index

instance (k : Pubkey) (index : U128) (t : Accounts) : Decidable (CurrentAt k index t) :=
  inferInstanceAs (Decidable (∀ e ∈ t.entries,
    ∀ p ∈ decoded Position ProgramIds.moneyMarketProgram e.2,
      p.isInitialized = true → p.market = k → p.debt ≠ 0 → p.borrowIndexSnapshot = index))

section
variable {s : StoredAccount} {k : Pubkey} {index : U128} {t : Accounts}

theorem heldMarket_reading : Reading none heldMarket where
  congr _ hdata := by rw [heldMarket, heldMarket, hdata]
  nil hdata := by rw [heldMarket, hdata, market_nil]

theorem owedTo_reading (k : Pubkey) (index : U128) : Reading 0 (owedTo k index) :=
  weighed_reading position_nil

theorem heldMarket_token (h : ∃ token : TokenAccountState, tryFromSlice s.data = some token) :
    heldMarket s = none := by
  obtain ⟨token, htoken⟩ := h
  exact token_not_market htoken

theorem owedTo_token (h : ∃ token : TokenAccountState, tryFromSlice s.data = some token) :
    owedTo k index s = 0 := by
  obtain ⟨token, htoken⟩ := h
  exact weighed_of_none (token_not_position htoken)

theorem reconciledIn_le (π : Profile) (p : Position) :
    reconciledIn π k index p ≤ owedIn k index p := by
  unfold reconciledIn owedIn
  split
  · cases hp : accruePosition π p index with
    | none => exact Nat.zero_le _
    | some p' => exact (accruePosition_le hp).1
  · exact Nat.le_refl _

/-- A record is worth less by what counts less. -/
theorem weighed_le {α : Type} [Borsh α] {programId : Pubkey} {w w' : α → Nat}
    (h : ∀ v, w v ≤ w' v) (s : StoredAccount) : weighed programId w s ≤ weighed programId w' s := by
  unfold weighed
  cases decoded α programId s with
  | none => exact Nat.le_refl _
  | some v => exact h v

theorem total_le {f g : StoredAccount → Nat} (h : ∀ s, f s ≤ g s) :
    Table.total f t ≤ Table.total g t := by
  have hle := Table.total_mul_le (m := t) (f := f) (g := g) (a := 1) (b := 1) fun e _ => by
    rw [Nat.mul_one, Nat.mul_one]
    exact h e.2
  rwa [Nat.mul_one, Nat.mul_one] at hle

end

/-! ## Interest -/

/-- The interest on the borrows fits. -/
def AccrualExact (m : MarketState) (now : UInt64) : Prop :=
  m.totalBorrows.toNat * growth m now < 2 ^ 128 ∧
    m.totalBorrows.toNat * growth m now / (MoneyMarket.bps * secondsPerYear) < 2 ^ 64

instance (m : MarketState) (now : UInt64) : Decidable (AccrualExact m now) :=
  inferInstanceAs (Decidable (_ ∧ _))

section
variable {π : Profile} {m m' : MarketState} {now : UInt64} {k : Pubkey} {t : Accounts}

/-- What grows by a fraction that is at most `g / den` and is rounded down. -/
theorem grown_le {debt i i' den g : Nat} (hi : i ≠ 0) (h : i' * den ≤ i * g) :
    debt * i' / i * den ≤ debt * g := by
  have hpos : 0 < i := Nat.pos_of_ne_zero hi
  refine Nat.le_of_mul_le_mul_right ?_ hpos
  calc debt * i' / i * den * i = debt * i' / i * i * den := Nat.mul_right_comm _ _ _
    _ ≤ debt * i' * den := Nat.mul_le_mul_right den (Nat.div_mul_le_self _ _)
    _ = debt * (i' * den) := Nat.mul_assoc _ _ _
    _ ≤ debt * (i * g) := Nat.mul_le_mul_left debt h
    _ = debt * g * i := by rw [Nat.mul_comm i g, Nat.mul_assoc]

/-- One position that is up to date grows no faster than the borrows. -/
theorem owed_grows {p : Position} {index index' : U128} {den g : Nat}
    (hcurrent : p.debt ≠ 0 → p.borrowIndexSnapshot = index) (hden : den ≤ g)
    (hindex : index'.toNat * den ≤ index.toNat * g) :
    owed index' p * den ≤ owed index p * g := by
  by_cases hdebt : p.debt = 0
  · have hzero : owed index' p = 0 := by
      unfold owed
      rw [hdebt]
      split
      · rw [UInt64.toNat_zero, Nat.zero_mul, Nat.zero_div]
      · rfl
    rw [hzero, Nat.zero_mul]
    exact Nat.zero_le _
  · have hsnapshot := hcurrent hdebt
    rw [owed_current hsnapshot]
    unfold owed
    split
    · rename_i hgrows
      rw [hsnapshot]
      have hpos : index.toNat ≠ 0 := fun h => hgrows.1 (hsnapshot ▸ BitVec.toNat_inj.mp h)
      exact grown_le hpos hindex
    · exact Nat.mul_le_mul_left _ hden

/-- **Interest charged on debts that are up to date.** The borrows are rounded down once, and so is
    each debt. -/
theorem accrual_covers (hexact : AccrualExact m now)
    (hcurrent : Charged m now → CurrentAt k m.borrowIndex t)
    (h : accrueMarket π m now = some m')
    (hcovers : Table.total (owedTo k m.borrowIndex) t ≤ m.totalBorrows.toNat) :
    Table.total (owedTo k m'.borrowIndex) t ≤ m'.totalBorrows.toNat := by
  rcases accrueMarket_cases (fun _ => hexact.1) h with
    ⟨hindex, hborrows⟩ | ⟨hcharged, hindex, hborrows⟩
  · rw [hindex, hborrows]
    exact hcovers
  · have hden : MoneyMarket.bps * secondsPerYear ≤ growth m now := Nat.le_add_right _ _
    have hrate : Table.total (owedTo k m'.borrowIndex) t * (MoneyMarket.bps * secondsPerYear) ≤
        Table.total (owedTo k m.borrowIndex) t * growth m now := by
      refine Table.total_mul_le fun e he => ?_
      unfold owedTo weighed
      cases hp : decoded Position ProgramIds.moneyMarketProgram e.2 with
      | none =>
        rw [Option.map_none, Option.getD_none, Nat.zero_mul]
        exact Nat.zero_le _
      | some p =>
        simp only [Option.map_some, Option.getD_some, owedIn]
        split
        · rename_i hof
          exact owed_grows (hcurrent hcharged e he p hp hof.1 hof.2) hden hindex
        · rw [Nat.zero_mul]
          exact Nat.zero_le _
    rw [hborrows, asU64, UInt64.toNat_ofNat', Nat.mod_eq_of_lt hexact.2,
      Nat.le_div_iff_mul_le (by decide)]
    exact Nat.le_trans hrate (Nat.mul_le_mul_right _ hcovers)

end

/-! ## The invariant -/

/-- The borrows of the market `k` cover its debts. Before it is opened there are none. -/
structure DebtsCovered (k : Pubkey) (t : Accounts) : Prop where
  idle : ∀ k', readAt True IdleRecord t k'
  covers : ∀ m, readAt none heldMarket t k = some m → m.isInitialized = true →
    Table.total (owedTo k m.borrowIndex) t ≤ m.totalBorrows.toNat
  debtless : (∀ m, readAt none heldMarket t k = some m → m.isInitialized = false) →
    ∀ index, Table.total (owedTo k index) t = 0

theorem DebtsCovered.cover {π : Profile} {k : Pubkey} {t : Accounts} (h : DebtsCovered k t) :
    BorrowsCover π k t := by
  intro s m hlook _ hm hinit
  have hheld : readAt none heldMarket t k = some m := by
    simp only [readAt, hlook, Option.map_some, Option.getD_some]
    exact hm
  exact Nat.le_trans (total_le (weighed_le fun p => reconciledIn_le π p)) (h.covers m hheld hinit)

theorem WithoutMarkets.debts {t : Accounts} (h : WithoutMarkets t) (k : Pubkey) :
    DebtsCovered k t := by
  have hnone : ∀ index, Table.total (owedTo k index) t = 0 := fun index =>
    h.total_position fun p hp => by simp [owedIn, hp]
  exact ⟨h.readAt_idle, fun m _ _ => hnone m.borrowIndex ▸ Nat.zero_le _, fun _ => hnone⟩

namespace DebtsCovered

variable {t : Accounts} {instr : Instruction} {out : List AccountInfo}
  {a a' o b b' o' : AccountInfo} {old m' : MarketState} {d e : List UInt8} {k : Pubkey}

/-- Slot 0 holds what the table has of the market. -/
theorem held_slot (h : Dealt ProgramIds.moneyMarketProgram (accountsOf t instr) out a a' o b b' o') :
    readAt none heldMarket t a.key = tryFromSlice a.data :=
  (h.slot heldMarket_reading).1.symm

/-- Only the market was written, and neither its index nor its borrows; or it is new. -/
theorem alone (hs : DebtsCovered a.key t)
    (h : Dealt ProgramIds.moneyMarketProgram (accountsOf t instr) out a { a with data := d } o b b
      o')
    (hd : toVec m' = some d) (hinit : m'.isInitialized = true)
    (hold : ((tryFromSlice a.data).getD {} : MarketState).isInitialized = true →
      m'.borrowIndex = ((tryFromSlice a.data).getD {} : MarketState).borrowIndex ∧
        m'.totalBorrows = ((tryFromSlice a.data).getD {} : MarketState).totalBorrows) :
    DebtsCovered a.key (t.write (entries out)) := by
  obtain ⟨-, hidle⟩ := h.idle_slots hs.idle
  have hnow : tryFromSlice o.data = some m' := h.first.written hd
  have hle : ∀ index, Table.total (owedTo a.key index) (t.write (entries out)) ≤
      Table.total (owedTo a.key index) t := fun index => by
    refine h.total_le (owedTo_reading a.key index) (fun _ => owedTo_token) ?_ ?_
    · rw [owedTo, weighed_of_none (s := o.toStored) (market_not_position hnow)]
      exact Nat.zero_le _
    · exact Nat.le_of_eq ((owedTo_reading a.key index).left h.second rfl)
  -- The market is the one that was there, or the one that was written over it.
  have hmarket : readAt none heldMarket (t.write (entries out)) a.key =
      readAt none heldMarket t a.key ∨
        readAt none heldMarket (t.write (entries out)) a.key = some m' := by
    rcases h.readAt_cases heldMarket_reading (fun _ => heldMarket_token) a.key with
      hsame | ⟨-, hfirst⟩ | ⟨heq, hsecond⟩
    · exact .inl hsame
    · exact .inr (hfirst.trans hnow)
    · left
      rw [hsecond, heldMarket_reading.left h.second rfl, (h.slot heldMarket_reading).2, ← heq]
  refine ⟨h.idle_written hs.idle (idle_of_market (s := o.toStored) hnow hinit)
    (idleRecord_reading.left h.second rfl ▸ hidle), fun m hm hready => ?_, fun hfresh index => ?_⟩
  · rcases hmarket with hsame | hwritten
    · exact Nat.le_trans (hle _) (hs.covers m (hsame ▸ hm) hready)
    · rw [hwritten, Option.some.injEq] at hm
      subst hm
      refine Nat.le_trans (hle _) ?_
      cases hheld : (tryFromSlice a.data : Option MarketState) with
      | none =>
        rw [hs.debtless fun m hm => by rw [held_slot h, hheld] at hm; cases hm]
        exact Nat.zero_le _
      | some old =>
        rw [hheld, Option.getD_some] at hold
        cases hready' : old.isInitialized with
        | true =>
          obtain ⟨hindex, hborrows⟩ := hold hready'
          rw [hindex, hborrows]
          exact hs.covers old (held_slot h ▸ hheld) hready'
        | false =>
          rw [hs.debtless fun m hm => by
            rw [held_slot h, hheld, Option.some.injEq] at hm
            exact hm ▸ hready']
          exact Nat.zero_le _
  · rcases hmarket with hsame | hwritten
    · exact Nat.le_zero.mp (hs.debtless (fun m hm => hfresh m (hsame ▸ hm)) index ▸ hle index)
    · exact absurd (hfresh m' hwritten) (by simp [hinit])

/-- The market was written where nothing else is, and its borrows cover what is owed now. -/
theorem written (hs : DebtsCovered a.key t)
    (h : Dealt ProgramIds.moneyMarketProgram (accountsOf t instr) out a { a with data := d } o b b'
      o')
    (hd : toVec m' = some d) (hinit : m'.isInitialized = true) (hidle : IdleRecord o'.toStored)
    (honce : ListedOnce (accountsOf t instr) 0)
    (hcovers : Table.total (owedTo a.key m'.borrowIndex) (t.write (entries out)) ≤
      m'.totalBorrows.toNat) : DebtsCovered a.key (t.write (entries out)) := by
  have hnow : tryFromSlice o.data = some m' := h.first.written hd
  have hmarket : readAt none heldMarket (t.write (entries out)) a.key = some m' :=
    (h.readAt_first honce).trans hnow
  refine ⟨h.idle_written hs.idle (idle_of_market (s := o.toStored) hnow hinit) hidle,
    fun m hm _ => ?_, fun hfresh => absurd (hfresh m' hmarket) (by simp [hinit])⟩
  rw [hmarket, Option.some.injEq] at hm
  exact hm ▸ hcovers

/-- A lender position was written, or written over what owed something. -/
theorem lender {owner : Pubkey} {q q' : LenderPosition} {m : MarketState}
    (hs : DebtsCovered a.key t)
    (h : Dealt ProgramIds.moneyMarketProgram (accountsOf t instr) out a { a with data := d } o b
      { b with data := e } o')
    (hd : toVec m' = some d) (hinit : m'.isInitialized = true)
    (hlending : Lending a.key owner b.data q) (he : toVec q' = some e)
    (hkept : q'.isInitialized = q.isInitialized) (honce : ListedOnce (accountsOf t instr) 0)
    (hcovers : Table.total (owedTo a.key m.borrowIndex) t ≤ m.totalBorrows.toNat)
    (hm : m'.borrowIndex = m.borrowIndex ∧ m'.totalBorrows = m.totalBorrows) :
    DebtsCovered a.key (t.write (entries out)) := by
  have hnow : tryFromSlice o.data = some m' := h.first.written hd
  have hnow' : tryFromSlice o'.data = some q' := h.second.written he
  refine hs.written h hd hinit
    (idle_of_lender (s := o'.toStored) hnow' (hkept.trans hlending.of_market.1)) honce ?_
  rw [hm.1, hm.2]
  refine Nat.le_trans (h.total_le (owedTo_reading a.key m.borrowIndex) (fun _ => owedTo_token)
    ?_ ?_) hcovers
  · rw [owedTo, weighed_of_none (s := o.toStored) (market_not_position hnow)]
    exact Nat.zero_le _
  · rw [owedTo, weighed_of_none (s := o'.toStored) (lender_not_position hnow')]
    exact Nat.zero_le _

/-- **A position was brought up to date and written**: what is owed changed by no more than its
    debt did from there. -/
theorem moved {π : Profile} {owner : Pubkey} {q p p' : Position} {index : U128}
    (hidle : ∀ k, readAt True IdleRecord t k)
    (h : Dealt ProgramIds.moneyMarketProgram (accountsOf t instr) out a { a with data := d } o b
      { b with data := e } o')
    (hold : tryFromSlice a.data = some old) (hd : toVec m' = some d)
    (hstanding : Standing a.key owner b.data q) (hp : accruePosition π q index = some p)
    (he : toVec p' = some e)
    (hkept : p'.isInitialized = p.isInitialized ∧ p'.market = p.market ∧
      p'.borrowIndexSnapshot = p.borrowIndexSnapshot)
    (honce : ListedOnce (accountsOf t instr) 0) (honce' : ListedOnce (accountsOf t instr) 1) :
    Table.total (owedTo a.key index) (t.write (entries out)) + p.debt.toNat ≤
      Table.total (owedTo a.key index) t + p'.debt.toNat := by
  obtain ⟨-, hidle'⟩ := h.idle_slots hidle
  obtain ⟨hready, hmarket⟩ := hstanding.of_market
  have hnow : tryFromSlice o.data = some m' := h.first.written hd
  obtain ⟨hdebt, hsnapshot⟩ := accruePosition_le hp
  obtain ⟨debt, snapshot, rfl⟩ := accruePosition_keeps hp
  have hready' : p'.isInitialized = true := hkept.1.trans hready
  have hworth : owedTo a.key index o'.toStored + owedIn a.key index q =
      owedTo a.key index b.toStored + owedIn a.key index p' :=
    hstanding.worth (u := owedIn a.key index) (fun p hp => by simp [owedIn, hp])
      (fun p _ hp => by simp [owedIn, owed, hp]) hidle' h.second he hready'
  have hbefore : owedIn a.key index q = owed index q := if_pos ⟨hready, hmarket⟩
  have hafter : owedIn a.key index p' = p'.debt.toNat := by
    unfold owedIn
    rw [if_pos ⟨hready', hkept.2.1.trans hmarket⟩, owed_current (hkept.2.2.trans hsnapshot)]
  have htotal := h.total (owedTo_reading a.key index) (fun _ => owedTo_token) honce honce'
  have hfirst : owedTo a.key index a.toStored = 0 :=
    weighed_of_none (s := a.toStored) (market_not_position hold)
  have hfirst' : owedTo a.key index o.toStored = 0 :=
    weighed_of_none (s := o.toStored) (market_not_position hnow)
  rw [hbefore, hafter] at hworth
  rw [hfirst, hfirst'] at htotal
  change debt.toNat ≤ _ at hdebt
  change _ + debt.toNat ≤ _
  omega

end DebtsCovered

/-! ## What the instructions have to be given -/

/-- Interest is charged on debts that are up to date. -/
def InterestCurrent (t : Accounts) (accounts : List AccountInfo) (now : UInt64) : Prop :=
  ∀ a ∈ accounts[0]?, ∀ m ∈ (tryFromSlice a.data : Option MarketState),
    Charged m now → CurrentAt a.key m.borrowIndex t

instance (t : Accounts) (accounts : List AccountInfo) (now : UInt64) :
    Decidable (InterestCurrent t accounts now) :=
  inferInstanceAs (Decidable (∀ a ∈ accounts[0]?,
    ∀ m ∈ (tryFromSlice a.data : Option MarketState),
      Charged m now → CurrentAt a.key m.borrowIndex t))

/-- Slots that keep the debts covered. -/
def DebtCare (t : Accounts) (accounts : List AccountInfo) (now : UInt64) :
    MoneyMarketInstruction → Prop
  | .initMarket _ | .syncPrice => True
  | .addLiquidity _ | .removeLiquidity _ => ListedOnce accounts 0 ∧ InterestCurrent t accounts now
  | .supply _ | .withdraw _ | .borrow _ | .repay _ | .liquidate _ =>
      ListedOnce accounts 0 ∧ ListedOnce accounts 1 ∧ InterestCurrent t accounts now

instance (t : Accounts) (accounts : List AccountInfo) (now : UInt64) :
    ∀ ix : MoneyMarketInstruction, Decidable (DebtCare t accounts now ix)
  | .initMarket _ | .syncPrice => isTrue trivial
  | .addLiquidity _ | .removeLiquidity _ =>
      inferInstanceAs (Decidable (ListedOnce accounts 0 ∧ InterestCurrent t accounts now))
  | .supply _ | .withdraw _ | .borrow _ | .repay _ | .liquidate _ =>
      inferInstanceAs (Decidable (ListedOnce accounts 0 ∧ ListedOnce accounts 1 ∧
        InterestCurrent t accounts now))

/-- The instructions that keep the debts covered. -/
def DebtOk (tx : RuntimeTransaction) (t : Accounts) (instr : Instruction) : Prop :=
  ∀ ix ∈ (tryFromSlice instr.data : Option MoneyMarketInstruction),
    DebtCare t (accountsOf t instr) tx.message.timestamp ix

instance (tx : RuntimeTransaction) (t : Accounts) (instr : Instruction) :
    Decidable (DebtOk tx t instr) :=
  inferInstanceAs (Decidable (∀ ix ∈ (tryFromSlice instr.data : Option MoneyMarketInstruction),
    DebtCare t (accountsOf t instr) tx.message.timestamp ix))

/-- The instruction is on the market `k`. -/
def OnMarket (k : Pubkey) (instr : Instruction) : Prop :=
  ∀ am ∈ instr.accounts[0]?, am.pubkey = k

instance (k : Pubkey) (instr : Instruction) : Decidable (OnMarket k instr) :=
  inferInstanceAs (Decidable (∀ am ∈ instr.accounts[0]?, am.pubkey = k))

/-- Nothing overflows where interest is charged, on the borrows or on the position in slot 1. -/
def NoOverflow (tx : RuntimeTransaction) (t : Accounts) (instr : Instruction) : Prop :=
  ∀ a ∈ (accountsOf t instr)[0]?, ∀ m ∈ (tryFromSlice a.data : Option MarketState),
    AccrualExact m tx.message.timestamp ∧
    ∀ b ∈ (accountsOf t instr)[1]?, ∀ p ∈ (tryFromSlice b.data : Option Position),
      ∀ m' ∈ accrueMarket .dev m tx.message.timestamp,
        p.debt.toNat * m'.borrowIndex.toNat < 2 ^ 128 ∧ owed m'.borrowIndex p < 2 ^ 64

instance (tx : RuntimeTransaction) (t : Accounts) (instr : Instruction) :
    Decidable (NoOverflow tx t instr) :=
  inferInstanceAs (Decidable (∀ a ∈ (accountsOf t instr)[0]?,
    ∀ m ∈ (tryFromSlice a.data : Option MarketState), AccrualExact m tx.message.timestamp ∧
      ∀ b ∈ (accountsOf t instr)[1]?, ∀ p ∈ (tryFromSlice b.data : Option Position),
        ∀ m' ∈ accrueMarket .dev m tx.message.timestamp,
          p.debt.toNat * m'.borrowIndex.toNat < 2 ^ 128 ∧ owed m'.borrowIndex p < 2 ^ 64))

/-- What a repayment or a liquidation takes off the borrows is on them, so that the subtraction does
    not stop at 0. -/
def TakesWhatIsThere (π : Profile) (accounts : List AccountInfo) (now : UInt64) :
    MoneyMarketInstruction → Prop
  | .repay amount => ∀ m p, positionPrologue π accounts now false = .ok (m, p) →
      min amount p.debt ≤ m.totalBorrows
  | .liquidate amount => ∀ m q p most, loadMarket π accounts now = .ok m →
      load accounts 1 = .ok q → accruePosition π q m.borrowIndex = some p →
      maxLiquidationRepay π m p.debt = some most → min amount most ≤ m.totalBorrows
  | _ => True

/-- And so it is wherever the instruction goes through. -/
def NeverSaturates (ex : Executor) (tx : RuntimeTransaction) (t : Accounts) (instr : Instruction) :
    Prop :=
  ∀ t' ix, tableStep ex .commit tx t instr = some t' → tryFromSlice instr.data = some ix →
    TakesWhatIsThere ex.machine.profile (accountsOf t instr) tx.message.timestamp ix

/-! ## Every instruction -/

section
variable {π : Profile} {timestamp : UInt64} {th th₁ th₂ : Thread} {t : Accounts}
  {instr : Instruction} {moved mid out : List AccountInfo} {a b : AccountInfo}
  {old m m' : MarketState} {k : Pubkey}

theorem OnMarket.key (h : OnMarket k instr) (ha : (accountsOf t instr)[0]? = some a) :
    a.key = k := by
  unfold accountsOf at ha
  rw [List.getElem?_map] at ha
  obtain ⟨am, ham, rfl⟩ := Option.map_eq_some_iff.mp ha
  rw [accountAt_key]
  exact h am ham

/-- The market is opened with its borrows covering the debts at its new index. -/
theorem DebtsCovered.opened (hs : DebtsCovered a.key t)
    (hopened : Opened π (accountsOf t instr) timestamp a old m)
    (hexact : AccrualExact old timestamp)
    (hcurrent : InterestCurrent t (accountsOf t instr) timestamp) :
    Table.total (owedTo a.key m.borrowIndex) t ≤ m.totalBorrows.toNat := by
  have hheld : readAt none heldMarket t a.key = some old :=
    (heldMarket_reading.slot hopened.slot).symm.trans hopened.held
  exact accrual_covers hexact (hcurrent a hopened.slot old hopened.held) hopened.accrued
    (hs.covers old hheld hopened.initialized)

theorem DebtsCovered.lenderDeal {q q' : LenderPosition} (hs : DebtsCovered a.key t)
    (hdup : rejectDuplicateWritable (accountsOf t instr) = .ok ()) (happ : th.approved = ∅)
    (hdeal : LenderDeal π (accountsOf t instr) moved mid timestamp a b old m m' q q')
    (hshift : Shifted th th₁ (accountsOf t instr) moved)
    (hgate : Comp.Returns
      (validateWrites ProgramIds.moneyMarketProgram (accountsOf t instr) mid) th₁ out th₂)
    (hexact : AccrualExact old timestamp)
    (hcare : ListedOnce (accountsOf t instr) 0 ∧
      InterestCurrent t (accountsOf t instr) timestamp)
    (hm : m'.isInitialized = m.isInitialized ∧ m'.borrowIndex = m.borrowIndex ∧
      m'.totalBorrows = m.totalBorrows) (hq : q'.isInitialized = q.isInitialized) :
    DebtsCovered a.key (t.write (entries out)) := by
  obtain ⟨owner, hlending⟩ := hdeal.lending
  obtain ⟨d, e, o, o', hd, he, hdealt⟩ := storeBoth_dealt hdup happ hdeal.opened.slot hdeal.second
    hshift hdeal.stored hgate
  have hcovers := hs.opened hdeal.opened hexact hcare.2
  obtain ⟨index, borrows, at_, rfl⟩ := accrueMarket_keeps hdeal.opened.accrued
  exact hs.lender hdealt hd (hm.1.trans hdeal.opened.initialized) hlending he hq hcare.1 hcovers
    hm.2

/-- An instruction on a position leaves the debts covered where its borrows follow the debt, which
    was on them. -/
theorem DebtsCovered.positionDeal {q p p' : Position} (hs : DebtsCovered a.key t)
    (hdup : rejectDuplicateWritable (accountsOf t instr) = .ok ()) (happ : th.approved = ∅)
    (hdeal : PositionDeal π (accountsOf t instr) moved mid timestamp a b old m m' q p p')
    (hshift : Shifted th th₁ (accountsOf t instr) moved)
    (hgate : Comp.Returns
      (validateWrites ProgramIds.moneyMarketProgram (accountsOf t instr) mid) th₁ out th₂)
    (hexact : AccrualExact old timestamp)
    (hcare : ListedOnce (accountsOf t instr) 0 ∧ ListedOnce (accountsOf t instr) 1 ∧
      InterestCurrent t (accountsOf t instr) timestamp)
    (hm : m'.isInitialized = m.isInitialized ∧ m'.borrowIndex = m.borrowIndex)
    (hp : p'.isInitialized = p.isInitialized ∧ p'.market = p.market ∧
      p'.borrowIndexSnapshot = p.borrowIndexSnapshot)
    (hborrows : ∀ n, n + p.debt.toNat ≤ m.totalBorrows.toNat + p'.debt.toNat →
      n ≤ m'.totalBorrows.toNat) :
    DebtsCovered a.key (t.write (entries out)) ∧
      p.debt.toNat ≤ m.totalBorrows.toNat + p'.debt.toNat := by
  obtain ⟨owner, hstanding⟩ := hdeal.standing
  obtain ⟨d, e, o, o', hd, he, hdealt⟩ := storeBoth_dealt hdup happ hdeal.opened.slot hdeal.second
    hshift hdeal.stored hgate
  have hcovers := hs.opened hdeal.opened hexact hcare.2.2
  have hmoved := DebtsCovered.moved hs.idle hdealt hdeal.opened.held hd hstanding hdeal.accrued he
    hp hcare.1 hcare.2.1
  have hready : p'.isInitialized = true := by
    obtain ⟨debt, snapshot, rfl⟩ := accruePosition_keeps hdeal.accrued
    exact hp.1.trans hstanding.of_market.1
  have hinit : m.isInitialized = true := by
    obtain ⟨index, borrows, at_, rfl⟩ := accrueMarket_keeps hdeal.opened.accrued
    exact hdeal.opened.initialized
  have hsum : Table.total (owedTo a.key m.borrowIndex) (t.write (entries out)) +
      p.debt.toNat ≤ m.totalBorrows.toNat + p'.debt.toNat :=
    Nat.le_trans hmoved (Nat.add_le_add_right hcovers _)
  refine ⟨hs.written hdealt hd (hm.1.trans hinit)
    (idle_of_position (s := o'.toStored) (hdealt.second.written he) hready) hcare.1 ?_, ?_⟩
  · rw [hm.2]
    exact hborrows _ hsum
  · exact Nat.le_trans (Nat.le_add_left _ _) hsum

end

/-- **One instruction** keeps the debts covered, and takes nothing off the borrows that is not on
    them. -/
theorem debts_kept {ex : Executor} {tx : RuntimeTransaction} {t t' : Accounts}
    {instr : Instruction} {k : Pubkey} (hs : DebtsCovered k t)
    (hprog : instr.programId = ProgramIds.moneyMarketProgram) (hone : OnMarket k instr)
    (hexact : NoOverflow tx t instr) (hok : DebtOk tx t instr)
    (h : tableStep ex .commit tx t instr = some t') :
    DebtsCovered k t' ∧ NeverSaturates ex tx t instr := by
  obtain ⟨ix, mid, out, th, th₁, th₂, hix, hdup, happ, hpost, hgate, rfl⟩ :=
    market_tableStep hprog h
  have hcare := hok ix hix
  have hunsaturated : TakesWhatIsThere ex.machine.profile (accountsOf t instr)
      tx.message.timestamp ix → NeverSaturates ex tx t instr := by
    intro htakes t'' ix' _ hix'
    rw [hix, Option.some.injEq] at hix'
    exact hix' ▸ htakes
  cases ix with
  | initMarket terms =>
    obtain ⟨rfl, a, b, old, cm, bm, cv, bv, feed, ha, hb, hold, hfresh, -, -, -, -, hstore⟩ :=
      hpost
    obtain rfl := hone.key ha
    obtain ⟨d, o, o', hd, hdealt⟩ := store_dealt hdup happ ha hb hstore hgate
    refine ⟨hs.alone hdealt hd rfl fun hready => ?_, hunsaturated trivial⟩
    rw [hold, hfresh] at hready
    cases hready
  | syncPrice =>
    obtain ⟨rfl, a, b, old, price, at_, ha, hb, hold, hinit, hstore⟩ := hpost
    obtain rfl := hone.key ha
    obtain ⟨d, o, o', hd, hdealt⟩ := store_dealt hdup happ ha hb hstore hgate
    refine ⟨hs.alone hdealt hd hinit fun _ => ?_, hunsaturated trivial⟩
    rw [hold, Option.getD_some]
    exact ⟨rfl, rfl⟩
  | addLiquidity amount =>
    obtain ⟨moved, a, b, old, m, q, shares, cash, total, held, hdeal, hmoved, -, -, -⟩ := hpost
    obtain rfl := hone.key hdeal.opened.slot
    have hfits := (hexact a hdeal.opened.slot old hdeal.opened.held).1
    exact ⟨hs.lenderDeal hdup happ hdeal hmoved.shifted hgate hfits hcare ⟨rfl, rfl, rfl⟩ rfl,
      hunsaturated trivial⟩
  | removeLiquidity amount =>
    obtain ⟨moved, a, b, old, m, q, shares, cash, total, held, hdeal, hmoved, -, -, -⟩ := hpost
    obtain rfl := hone.key hdeal.opened.slot
    have hfits := (hexact a hdeal.opened.slot old hdeal.opened.held).1
    exact ⟨hs.lenderDeal hdup happ hdeal hmoved.shifted hgate hfits hcare ⟨rfl, rfl, rfl⟩ rfl,
      hunsaturated trivial⟩
  | supply amount =>
    obtain ⟨moved, a, b, old, m, q, p, collateral, total, hdeal, hmoved, -, -⟩ := hpost
    obtain rfl := hone.key hdeal.opened.slot
    have hfits := (hexact a hdeal.opened.slot old hdeal.opened.held).1
    exact ⟨(hs.positionDeal hdup happ hdeal hmoved.shifted hgate hfits hcare ⟨rfl, rfl⟩
      ⟨rfl, rfl, rfl⟩ fun n hn => Nat.le_of_add_le_add_right hn).1, hunsaturated trivial⟩
  | withdraw amount =>
    obtain ⟨moved, a, b, old, m, q, p, collateral, total, hdeal, hmoved, -, -⟩ := hpost
    obtain rfl := hone.key hdeal.opened.slot
    have hfits := (hexact a hdeal.opened.slot old hdeal.opened.held).1
    exact ⟨(hs.positionDeal hdup happ hdeal hmoved.shifted hgate hfits hcare ⟨rfl, rfl⟩
      ⟨rfl, rfl, rfl⟩ fun n hn => Nat.le_of_add_le_add_right hn).1, hunsaturated trivial⟩
  | borrow amount =>
    obtain ⟨moved, a, b, old, m, q, p, debt, cash, borrows, hdeal, hmoved, -, hborrows, hdebt⟩ :=
      hpost
    obtain rfl := hone.key hdeal.opened.slot
    have hfits := (hexact a hdeal.opened.slot old hdeal.opened.held).1
    refine ⟨(hs.positionDeal hdup happ hdeal hmoved.shifted hgate hfits hcare ⟨rfl, rfl⟩
      ⟨rfl, rfl, rfl⟩ fun n hn => ?_).1, hunsaturated trivial⟩
    change _ ≤ _ + debt.toNat at hn
    change n ≤ borrows.toNat
    omega
  | repay amount =>
    obtain ⟨moved, a, b, old, m, q, p, debt, cash, hdeal, hmoved, hprologue, -, hdebt⟩ := hpost
    obtain rfl := hone.key hdeal.opened.slot
    have hfits := (hexact a hdeal.opened.slot old hdeal.opened.held).1
    obtain ⟨hcovered, hle⟩ := hs.positionDeal hdup happ hdeal hmoved.shifted hgate hfits hcare
      ⟨rfl, rfl⟩ ⟨rfl, rfl, rfl⟩ fun n hn => by
        change _ ≤ _ + debt.toNat at hn
        change n ≤ (saturatingSub m.totalBorrows (min amount p.debt)).toNat
        rw [saturatingSub_toNat]
        omega
    refine ⟨hcovered, hunsaturated fun m' p' hprologue' => ?_⟩
    rw [hprologue, Except.ok.injEq, Prod.mk.injEq] at hprologue'
    obtain ⟨rfl, rfl⟩ := hprologue'
    change _ ≤ _ + debt.toNat at hle
    exact UInt64.le_iff_toNat_le.mpr (by omega)
  | liquidate amount =>
    obtain ⟨paid, moved, th₃, a, b, old, m, q, p, most, repaid, seized, debt, collateral, cash,
      hdeal, hpaid, hmoved, hmarket, hq, hmost, hrepaid, -, -, hdebt, -⟩ := hpost
    obtain rfl := hone.key hdeal.opened.slot
    have hfits := (hexact a hdeal.opened.slot old hdeal.opened.held).1
    obtain ⟨hcovered, hle⟩ := hs.positionDeal hdup happ hdeal
      (hpaid.shifted.trans hmoved.shifted) hgate hfits hcare ⟨rfl, rfl⟩ ⟨rfl, rfl, rfl⟩
      fun n hn => by
        change _ ≤ _ + debt.toNat at hn
        change n ≤ (saturatingSub m.totalBorrows repaid).toNat
        rw [saturatingSub_toNat]
        omega
    refine ⟨hcovered, hunsaturated fun m' q' p' most' hmarket' hload hp' hmost' => ?_⟩
    rw [hmarket, Except.ok.injEq] at hmarket'
    subst hmarket'
    obtain ⟨b', hb', hq'⟩ := load_eq_ok hload
    rw [hdeal.second, Option.some.injEq] at hb'
    subst hb'
    rw [hq, Option.some.injEq] at hq'
    subst hq'
    rw [hdeal.accrued, Option.some.injEq] at hp'
    subst hp'
    rw [hmost, Option.some.injEq] at hmost'
    subst hmost'
    rw [← hrepaid]
    change _ ≤ _ + debt.toNat at hle
    exact UInt64.le_iff_toNat_le.mpr (by omega)

theorem CommitsMeet.and {ok good : RuntimeTransaction → Accounts → Instruction → Prop}
    {ex : Executor} {w : World} {tx : RuntimeTransaction} (h : CommitsMeet ok ex w tx)
    (h' : CommitsMeet good ex w tx) :
    CommitsMeet (fun tx t instr => ok tx t instr ∧ good tx t instr) ex w tx :=
  fun hcommit => (h hcommit).and (h' hcommit)

/-- **Borrows cover debts.** In every run of money-market transactions on one market that does not
    exist before, whatever they contain, in whatever order their timestamps are and whether or not
    they succeed: as long as nothing overflows, and interest is only charged on debts that are up
    to date, what the market counts as borrowed covers what its positions owe, and every repayment
    and liquidation takes off the borrows what was on them. -/
theorem borrows_cover (ex : Executor) (k : Pubkey) (w w' : World)
    (txs : List RuntimeTransaction) (hstart : WithoutMarkets w.state.accounts)
    (hone : ∀ tx ∈ txs, ∀ instr ∈ tx.message.instructions, OnMarket k instr)
    (hexact : Meets (programStep ProgramIds.moneyMarketProgram ex) (CommitsMeet NoOverflow ex) w
      txs)
    (hmeets : Meets (programStep ProgramIds.moneyMarketProgram ex) (CommitsMeet DebtOk ex) w txs)
    (hrun : Lib.run (programStep ProgramIds.moneyMarketProgram ex) w txs = some w') :
    BorrowsCover ex.machine.profile k w'.state.accounts ∧
      Meets (programStep ProgramIds.moneyMarketProgram ex) (CommitsMeet (NeverSaturates ex) ex) w
        txs := by
  have hmarket : Meets (programStep ProgramIds.moneyMarketProgram ex)
      (CommitsMeet (fun _ _ => OnMarket k) ex) w txs :=
    (Meets.of_forall hone).mono fun _ _ h _ => Meets.of_forall h
  have hall : Meets (programStep ProgramIds.moneyMarketProgram ex) (CommitsMeet (fun tx t instr =>
      (OnMarket k instr ∧ NoOverflow tx t instr) ∧ DebtOk tx t instr) ex) w txs :=
    ((hmarket.and hexact).and hmeets).mono fun _ _ h => (h.1.1.and h.1.2).and h.2
  constructor
  · have hcovered := programRun_invariant (I := DebtsCovered k)
      (fun _ _ _ _ hprog hok hs hstep =>
        (debts_kept hs hprog hok.1.1 hok.1.2 hok.2 hstep).1) hall (hstart.debts k) hrun
    exact hcovered.cover
  · refine programRun_each (I := DebtsCovered k) (fun _ _ _ _ hprog hok hs hstep =>
      (debts_kept hs hprog hok.1.1 hok.1.2 hok.2 hstep).1)
      (fun tx t instr hprog hok hs t' ix hstep => ?_) hall (hstart.debts k) hrun
    exact (debts_kept hs hprog hok.1.1 hok.1.2 hok.2 hstep).2 t' ix hstep

/-- A transaction of a later block. -/
def stamped (now : UInt64) (tx : RuntimeTransaction) : RuntimeTransaction :=
  { tx with message := { tx.message with timestamp := now } }

/-- In five years a debt grows by half. -/
def fiveYears : UInt64 := 157680000

def borrowIx (amount : UInt64) : Instruction :=
  vaultIx (.borrow amount) (.repeated 1) (.repeated 3) (.repeated 4) (.repeated 5) (.repeated 9)

/-- Of 100 that were borrowed, half is paid back five years later. -/
def borrowAndRepay : List RuntimeTransaction :=
  [lendAndPledge (borrowIx 100),
    stamped fiveYears (signedBy [.repeated 9]
      [vaultIx (.repay 50) (.repeated 1) (.repeated 3) (.repeated 4) (.repeated 5)
        (.repeated 9)])]

theorem borrows_cover_repay : ∃ w',
    Lib.run (programStep ProgramIds.moneyMarketProgram (.bare .dev)) beforeMarket borrowAndRepay =
        some w' ∧
      Table.total (owedTo (.repeated 1) 1500000000000) w'.state.accounts = 100 ∧
      BorrowsCover .dev (.repeated 1) w'.state.accounts ∧
      Meets (programStep ProgramIds.moneyMarketProgram (.bare .dev))
        (CommitsMeet (NeverSaturates (.bare .dev)) (.bare .dev)) beforeMarket borrowAndRepay := by
  have hcheck : (Lib.run (tableAfter (.bare .dev)) beforeMarket.state.accounts
      borrowAndRepay).any (fun t =>
        Table.total (owedTo (.repeated 1) 1500000000000) t = 100) = true := by decide +kernel
  obtain ⟨t, ht, hthen⟩ := (Option.any_eq_true _ _).mp hcheck
  obtain ⟨w', hrun, rfl, hboth⟩ := programRun_tables
    ProgramIds.moneyMarketProgram (fun tx t instr => NoOverflow tx t instr ∧ DebtOk tx t instr)
    (w := beforeMarket) (by decide +kernel) rfl ht (by decide +kernel)
  have hcover := borrows_cover (.bare .dev) (.repeated 1) _ _ _ withoutMarkets_before
    (by decide +kernel) (hboth.mono fun _ _ h hcommit => (h hcommit).mono fun _ _ h => h.1)
    (hboth.mono fun _ _ h hcommit => (h hcommit).mono fun _ _ h => h.2) hrun
  exact ⟨w', hrun, of_decide_eq_true hthen, hcover⟩

/-- 1 is borrowed; five and ten years later somebody lends to the market. -/
def interestTwice : List RuntimeTransaction :=
  [lendAndPledge (borrowIx 1), stamped fiveYears (lendOne), stamped (2 * fiveYears) lendOne]
where
  lendOne : RuntimeTransaction := signedBy [.repeated 9]
    [liquidityIx (.addLiquidity 10) (.repeated 1) (.repeated 2) (.repeated 4) (.repeated 5)
      (.repeated 9)]

/-- **A debt of two on borrows of one.** Charged twice, the borrows are rounded down to 1 twice; the
    position grows by both at once, to 2. -/
theorem debt_outgrows_borrows : ¬ ∀ (ex : Executor) (k : Pubkey) (w w' : World)
    (txs : List RuntimeTransaction), WithoutMarkets w.state.accounts →
    (∀ tx ∈ txs, ∀ instr ∈ tx.message.instructions, OnMarket k instr) →
    txs.Pairwise (fun tx tx' => tx.message.timestamp ≤ tx'.message.timestamp) →
    Meets (programStep ProgramIds.moneyMarketProgram ex) (CommitsMeet NoOverflow ex) w txs →
    Lib.run (programStep ProgramIds.moneyMarketProgram ex) w txs = some w' →
    BorrowsCover ex.machine.profile k w'.state.accounts ∧
      Meets (programStep ProgramIds.moneyMarketProgram ex) (CommitsMeet (NeverSaturates ex) ex) w
        txs := by
  intro hclaim
  have hcheck : (Lib.run (tableAfter (.bare .dev)) beforeMarket.state.accounts
      interestTwice).any (fun t =>
        ((t.lookup (.repeated 1)).any fun s => s.owner = ProgramIds.moneyMarketProgram ∧
          (tryFromSlice s.data).any fun m : MarketState =>
            m.isInitialized = true ∧ m.borrowIndex = 2250000000000 ∧ m.totalBorrows = 1) = true ∧
        Table.total (weighed ProgramIds.moneyMarketProgram
          (reconciledIn .dev (.repeated 1) 2250000000000)) t = 2) = true := by decide +kernel
  obtain ⟨t, ht, hthen⟩ := (Option.any_eq_true _ _).mp hcheck
  obtain ⟨hmarket, htotal⟩ := of_decide_eq_true hthen
  obtain ⟨w', hrun, rfl, hexact⟩ := programRun_tables
    ProgramIds.moneyMarketProgram NoOverflow (w := beforeMarket) (by decide +kernel) rfl ht
    (by decide +kernel)
  obtain ⟨s, hlook, hs⟩ := (Option.any_eq_true _ _).mp hmarket
  obtain ⟨howner, hheld⟩ := of_decide_eq_true hs
  obtain ⟨m, hm, hstate⟩ := (Option.any_eq_true _ _).mp hheld
  obtain ⟨hinit, hindex, hborrows⟩ := of_decide_eq_true hstate
  have hle := (hclaim (.bare .dev) (.repeated 1) _ _ _ withoutMarkets_before (by decide +kernel)
    (by decide +kernel) hexact hrun).1 s m hlook howner hm hinit
  rw [hindex, hborrows] at hle
  exact absurd (Nat.le_trans (Nat.le_of_eq htotal.symm) hle) (by decide)

end Proof
end Himsha
