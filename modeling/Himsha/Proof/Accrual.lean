import Himsha.Lib.Ratio
import Himsha.Proof.MarketSums

/-!
# Interest

Interest is charged twice: on the market, whenever an instruction opens it, and on a position,
whenever one is reconciled. The first grows the borrows and the index by one factor, in arithmetic
that narrows the one and saturates the other (`accrues_iff`). The second follows the index, and is
rounded down each time; `reconciled_often` says how much a borrower can save in that way.
-/

set_option autoImplicit false

namespace Himsha
namespace Proof

open Himsha.Lib Himsha.Runtime Himsha.Programs Himsha.Vm Himsha.Node
open MoneyMarket hiding bps

/-! ## On the market -/

/-- Interest is exact and monotone: nothing decreases, and with something lent both the borrows and
    the index grow by the factor over the integers, rounded down. -/
def Accrues (π : Profile) (m : MarketState) (now : UInt64) : Prop :=
  ∃ rate m', borrowRateBps π m = some rate ∧ accrueMarket π m now = some m' ∧
    (m.totalBorrows ≤ m'.totalBorrows ∧ m.borrowIndex ≤ m'.borrowIndex ∧
      m.lastAccrualTs ≤ m'.lastAccrualTs) ∧
    (m.lastAccrualTs < now → 0 < m.totalBorrows →
      m'.totalBorrows.toNat = m.totalBorrows.toNat *
        (yearBps + rate * (now.toNat - m.lastAccrualTs.toNat)) / yearBps ∧
      m'.borrowIndex.toNat = m.borrowIndex.toNat *
        (yearBps + rate * (now.toNat - m.lastAccrualTs.toNat)) / yearBps)

/-- The grown borrows are a `u64`, and the grown index is at most the greatest `u128` over the
    denominator. -/
def InterestFits (m : MarketState) (now : UInt64) : Prop :=
  Charged m now → m.totalBorrows.toNat * growth m now / yearBps < 2 ^ 64 ∧
    m.borrowIndex.toNat * growth m now / yearBps ≤ (2 ^ 128 - 1) / yearBps

instance (m : MarketState) (now : UInt64) : Decidable (InterestFits m now) :=
  inferInstanceAs (Decidable (_ → _))

section
variable {π : Profile} {m m' : MarketState} {now : UInt64}

/-- Whatever wraps, the index stays that far below the greatest `u128`. -/
theorem accrueMarket_index_le (hcharged : Charged m now) (h : accrueMarket π m now = some m') :
    m'.borrowIndex.toNat ≤ (2 ^ 128 - 1) / yearBps := by
  obtain ⟨hlt, hsome, hinterest⟩ := hcharged
  have hrate : borrowRateBps π { m with lastAccrualTs := now } = some (annualRate m) :=
    borrowRateBps_eq
  unfold accrueMarket at h
  rw [if_neg (UInt64.not_le.mpr hlt)] at h
  dsimp only at h
  rw [if_neg hsome, hrate] at h
  simp only [Option.bind_eq_bind, Option.bind_some] at h
  rw [if_neg hinterest] at h
  obtain ⟨scaled, -, h₁⟩ := Option.bind_eq_some_iff.mp h
  obtain ⟨num, -, h₂⟩ := Option.bind_eq_some_iff.mp h₁
  obtain ⟨product, -, h₃⟩ := Option.bind_eq_some_iff.mp h₂
  obtain ⟨borrows, -, h₄⟩ := Option.bind_eq_some_iff.mp h₃
  rw [← Option.some.inj h₄, BitVec.toNat_ofNat]
  exact Nat.le_trans (Nat.mod_le _ _) (Nat.div_le_div_right (Nat.min_le_right _ _))

theorem yearBps_pos : 0 < yearBps := by decide

/-- The factor is at least one. -/
theorem le_grown (n : Nat) : n ≤ n * growth m now / yearBps := by
  rw [Nat.le_div_iff_mul_le yearBps_pos]
  exact Nat.mul_le_mul_left n (Nat.le_add_right _ _)

/-- Without interest the factor is one. -/
theorem grown_free (h : annualRate m = 0) (n : Nat) : n * growth m now / yearBps = n := by
  have hone : growth m now = yearBps := by
    rw [growth, h, Nat.zero_mul]
    rfl
  rw [hone, Nat.mul_div_cancel _ yearBps_pos]

/-- **When interest is exact.** -/
theorem accrues_iff : Accrues π m now ↔ InterestFits m now := by
  constructor
  · rintro ⟨rate, m', hrate, h, -, hexact⟩ hcharged
    rw [borrowRateBps_eq, Option.some.injEq] at hrate
    subst hrate
    have hborrows : 0 < m.totalBorrows := UInt64.pos_iff_ne_zero.mpr hcharged.2.1
    obtain ⟨htotal, hindex⟩ := hexact hcharged.1 hborrows
    change _ = m.totalBorrows.toNat * growth m now / yearBps at htotal
    change _ = m.borrowIndex.toNat * growth m now / yearBps at hindex
    rw [← htotal, ← hindex]
    exact ⟨m'.totalBorrows.toNat_lt, accrueMarket_index_le hcharged h⟩
  · intro hfits
    by_cases hcharged : Charged m now
    · obtain ⟨hborrows, hindex⟩ := hfits hcharged
      have hproduct : AccrualFits m now := by
        intro _
        have hyear : yearBps = 315360000000 := rfl
        rw [hyear] at hborrows
        omega
      have hmin : min (m.borrowIndex.toNat * growth m now) (2 ^ 128 - 1) / yearBps =
          m.borrowIndex.toNat * growth m now / yearBps := by
        rcases Nat.le_total (m.borrowIndex.toNat * growth m now) (2 ^ 128 - 1) with hle | hge
        · rw [Nat.min_eq_left hle]
        · rw [Nat.min_eq_right hge]
          exact Nat.le_antisymm (Nat.div_le_div_right hge) hindex
      have hindex' : (BitVec.ofNat 128 (m.borrowIndex.toNat * growth m now / yearBps)).toNat =
          m.borrowIndex.toNat * growth m now / yearBps := by
        rw [BitVec.toNat_ofNat]
        exact Nat.mod_eq_of_lt (Nat.lt_of_le_of_lt hindex (by decide))
      have hborrows' : (asU64 (m.totalBorrows.toNat * growth m now / yearBps)).toNat =
          m.totalBorrows.toNat * growth m now / yearBps := UInt64.toNat_ofNat_of_lt' hborrows
      have haccrued := accrueMarket_charged (π := π) hproduct hcharged
      rw [hmin] at haccrued
      refine ⟨_, _, borrowRateBps_eq, haccrued, ⟨?_, ?_, UInt64.le_of_lt hcharged.1⟩,
        fun _ _ => ⟨hborrows', hindex'⟩⟩
      · rw [UInt64.le_iff_toNat_le, hborrows']
        exact le_grown _
      · rw [BitVec.le_def, hindex']
        exact le_grown _
    · obtain ⟨at_, haccrued, hlater⟩ := accrueMarket_uncharged (π := π) hcharged
      refine ⟨_, _, borrowRateBps_eq, haccrued, ⟨UInt64.le_refl _, BitVec.le_refl _, hlater⟩, ?_⟩
      intro hlt hborrows
      have hfree : annualRate m = 0 := not_not.mp fun hrate =>
        hcharged ⟨hlt, UInt64.pos_iff_ne_zero.mp hborrows, hrate⟩
      have hgrown : ∀ n, n = n * growth m now / yearBps := fun n => (grown_free hfree n).symm
      exact ⟨hgrown _, hgrown _⟩

end

/-- A market at the greatest rate there is, of which 100 are lent. -/
def steepMarket : RuntimeTransaction :=
  signedBy [.repeated 9]
    [initMarketIx (.repeated 1) (.repeated 21) (.repeated 20) (.repeated 7) (.repeated 5)
        (.repeated 9) (.repeated 8) { halfTerms with baseRateBps := 18446744073709551615 },
      liquidityIx (.addLiquidity 500) (.repeated 1) (.repeated 2) (.repeated 4) (.repeated 5)
        (.repeated 9),
      vaultIx (.supply 300) (.repeated 1) (.repeated 3) (.repeated 6) (.repeated 7) (.repeated 9),
      vaultIx (.borrow 100) (.repeated 1) (.repeated 3) (.repeated 4) (.repeated 5) (.repeated 9)]

/-- **Borrows that vanish.** At that rate the factor of ten thousand years is `2 ^ 64`, and nothing
    is left of the borrows. -/
theorem borrows_vanish : ¬ ∀ (ex : Executor) (w w' : World) (txs : List RuntimeTransaction)
    (k : Pubkey) (s : StoredAccount) (m : MarketState) (now : UInt64),
    WithoutMarkets w.state.accounts →
    Lib.run (programStep ProgramIds.moneyMarketProgram ex) w txs = some w' →
    w'.state.accounts.lookup k = some s → tryFromSlice s.data = some m →
    m.isInitialized = true → Accrues ex.machine.profile m now := by
  intro hclaim
  have hcheck : (Lib.run (tableAfter (.bare .dev)) beforeMarket.state.accounts [steepMarket]).any
      (fun t => (t.lookup (.repeated 1)).any fun s => (tryFromSlice s.data).any fun m =>
        m.isInitialized = true ∧ m.totalBorrows = 100 ∧
          (accrueMarket .dev m 315360000000).map (·.totalBorrows) = some 0) = true := by
    decide +kernel
  obtain ⟨t, ht, hthen⟩ := (Option.any_eq_true _ _).mp hcheck
  obtain ⟨s, hs, hheld⟩ := (Option.any_eq_true _ _).mp hthen
  obtain ⟨m, hm, hstate⟩ := (Option.any_eq_true _ _).mp hheld
  obtain ⟨hinit, hborrows, hafter⟩ := of_decide_eq_true hstate
  obtain ⟨w', hrun, rfl, -⟩ := programRun_tables ProgramIds.moneyMarketProgram
    (fun _ _ _ => True) (w := beforeMarket) (by decide +kernel) rfl ht
    ((Meets.of_forall fun _ _ => trivial).mono fun _ _ _ => Meets.of_forall fun _ _ => trivial)
  obtain ⟨rate, m', -, haccrued, ⟨hle, -⟩, -⟩ := hclaim (.bare .dev) beforeMarket w' _ _ s m
    315360000000 withoutMarkets_before hrun hs hm hinit
  change accrueMarket .dev m 315360000000 = some m' at haccrued
  rw [haccrued, Option.map_some, Option.some.injEq] at hafter
  rw [hborrows, hafter] at hle
  exact absurd hle (by decide)

/-! ## On a position -/

/-- A position reconciled at each of the indices in turn. -/
def reconciled (π : Profile) (pos : Position) (indices : List U128) : Option Position :=
  indices.foldlM (accruePosition π) pos

/-- No product wraps and no debt is narrowed on the way. -/
def InRange (d s : Nat) : List U128 → Prop
  | [] => True
  | i :: is => d * i.toNat < 2 ^ 128 ∧ d * i.toNat / s < 2 ^ 64 ∧ InRange (d * i.toNat / s) i.toNat is

instance decidableInRange : (d s : Nat) → (is : List U128) → Decidable (InRange d s is)
  | _, _, [] => isTrue trivial
  | d, s, i :: is =>
      have := decidableInRange (d * i.toNat / s) i.toNat is
      inferInstanceAs (Decidable (_ ∧ _ ∧ _))

section
variable {π : Profile} {pos : Position} {index last : U128} {indices : List U128}

/-- One reconciliation, rounded down. -/
theorem accruePosition_grown (hfirst : pos.borrowIndexSnapshot ≠ 0)
    (hle : pos.borrowIndexSnapshot ≤ index) (hproduct : pos.debt.toNat * index.toNat < 2 ^ 128)
    (hfits : pos.debt.toNat * index.toNat / pos.borrowIndexSnapshot.toNat < 2 ^ 64) :
    ∃ pos', accruePosition π pos index = some pos' ∧
      pos'.debt.toNat = pos.debt.toNat * index.toNat / pos.borrowIndexSnapshot.toNat ∧
      pos'.borrowIndexSnapshot = index := by
  have hpos : pos.borrowIndexSnapshot.toNat ≠ 0 := fun h => hfirst (BitVec.toNat_inj.mp h)
  unfold accruePosition
  rw [if_neg hfirst]
  split
  · rw [mulU128_fits hproduct]
    simp only [Option.bind_eq_bind, Option.bind_some]
    rw [divU128_pos hpos, Option.bind_some]
    exact ⟨_, rfl, UInt64.toNat_ofNat_of_lt' hfits, rfl⟩
  · rename_i hkept
    refine ⟨_, rfl, ?_, rfl⟩
    -- There is nothing to grow, or the index is the one it was reconciled at.
    rcases Nat.eq_zero_or_pos pos.debt.toNat with hzero | hdebt
    · change pos.debt.toNat = _
      rw [hzero, Nat.zero_mul, Nat.zero_div]
    · have hsame : pos.borrowIndexSnapshot.toNat = index.toNat := by
        have hnot : ¬ pos.borrowIndexSnapshot < index :=
          fun hlt => hkept ⟨UInt64.lt_iff_toNat_lt.mpr hdebt, hlt⟩
        exact Nat.le_antisymm (BitVec.le_def.mp hle) (Nat.le_of_not_lt fun h =>
          hnot (BitVec.lt_def.mpr h))
      rw [← hsame, Nat.mul_div_cancel _ (Nat.pos_of_ne_zero hpos)]

/-- So a position that is reconciled at rising indices compounds. -/
theorem reconciled_compound : ∀ {indices : List U128} {pos : Position},
    pos.borrowIndexSnapshot ≠ 0 → indices.Pairwise (· < ·) →
    (∀ i ∈ indices, pos.borrowIndexSnapshot ≤ i) →
    InRange pos.debt.toNat pos.borrowIndexSnapshot.toNat indices →
    ∃ pos', reconciled π pos indices = some pos' ∧ pos'.debt.toNat =
      Ratio.compound pos.debt.toNat pos.borrowIndexSnapshot.toNat (indices.map (·.toNat)) := by
  intro indices
  induction indices with
  | nil => exact fun _ _ _ _ => ⟨_, rfl, rfl⟩
  | cons i rest ih =>
    intro pos hfirst hrising hfrom hrange
    obtain ⟨hproduct, hfits, hrest⟩ := hrange
    have hle := hfrom i List.mem_cons_self
    obtain ⟨pos₁, hstep, hdebt, hindex⟩ := accruePosition_grown (π := π) hfirst hle hproduct hfits
    obtain ⟨hbelow, hrising'⟩ := List.pairwise_cons.mp hrising
    have hsome : pos₁.borrowIndexSnapshot ≠ 0 := by
      rw [hindex]
      intro hzero
      rw [hzero] at hle
      exact hfirst (BitVec.le_zero_iff.mp hle)
    rw [← hdebt, ← hindex] at hrest
    obtain ⟨pos', hrun, hend⟩ := ih hsome hrising'
      (fun j hj => hindex ▸ BitVec.le_of_lt (hbelow j hj)) hrest
    refine ⟨pos', ?_, ?_⟩
    · rw [reconciled, List.foldlM_cons, hstep]
      exact hrun
    · rw [hend, hdebt, hindex]
      rfl

/-- **What reconciling often saves.** At rising indices from the snapshot on, with all values in
    range, a position that is reconciled at each never owes more than one that is reconciled at the
    last alone, and it owes less by less than one unit for each, grown up to the last; it owes the
    same where nothing is rounded off before the last. -/
theorem reconciled_often (hfirst : pos.borrowIndexSnapshot ≠ 0)
    (hrising : indices.Pairwise (· < ·)) (hfrom : ∀ i ∈ indices, pos.borrowIndexSnapshot ≤ i)
    (hlast : indices.getLast? = some last)
    (hrange : InRange pos.debt.toNat pos.borrowIndexSnapshot.toNat indices)
    (hrange' : InRange pos.debt.toNat pos.borrowIndexSnapshot.toNat [last]) :
    ∃ often once, reconciled π pos indices = some often ∧
      accruePosition π pos last = some once ∧ often.debt ≤ once.debt ∧
      (once.debt.toNat : ℚ) <
        often.debt.toNat + Ratio.lag last.toNat (indices.map (·.toNat)) ∧
      (Ratio.Evenly pos.debt.toNat pos.borrowIndexSnapshot.toNat (indices.map (·.toNat)) →
        often.debt = once.debt) := by
  have hpos : 0 < pos.borrowIndexSnapshot.toNat :=
    Nat.pos_of_ne_zero fun h => hfirst (BitVec.toNat_inj.mp h)
  have hindices : ∀ i ∈ indices.map (·.toNat), 0 < i := by
    intro n hn
    obtain ⟨i, hi, rfl⟩ := List.mem_map.mp hn
    exact Nat.lt_of_lt_of_le hpos (BitVec.le_def.mp (hfrom i hi))
  have hne : indices ≠ [] := by
    rintro rfl
    cases hlast
  have hend : (indices.map (·.toNat)).getLastD pos.borrowIndexSnapshot.toNat = last.toNat := by
    rw [List.getLastD_eq_getLast?, List.getLast?_map, hlast]
    rfl
  obtain ⟨often, hoften, hchain⟩ := reconciled_compound (π := π) hfirst hrising hfrom hrange
  obtain ⟨once, honce, hdebt, -⟩ := accruePosition_grown (π := π) hfirst
    (hfrom last (List.mem_of_getLast? hlast)) hrange'.1 hrange'.2.1
  refine ⟨often, once, hoften, honce, ?_, ?_, fun heven => ?_⟩
  · rw [UInt64.le_iff_toNat_le, hchain, hdebt, ← hend]
    exact Ratio.compound_le _ hpos hindices
  · have hlag := Ratio.lt_compound pos.debt.toNat hpos hindices (by simpa using hne)
    rw [hend, ← hchain] at hlag
    refine lt_of_le_of_lt ?_ hlag
    rw [hdebt]
    exact_mod_cast Nat.cast_div_le
  · rw [← UInt64.toNat_inj, hchain, hdebt, ← hend]
    exact Ratio.compound_even _ hpos hindices heven

end

/-- A debt of 1 from the time the market was opened. -/
def owesOne : Position where
  debt := 1
  borrowIndexSnapshot := 1000000000000

theorem from_pair {s i j : U128} (hi : s ≤ i) (hj : s ≤ j) : ∀ x ∈ [i, j], s ≤ x := by
  intro x hx
  rcases List.mem_pair.mp hx with rfl | rfl
  · exact hi
  · exact hj

/-- Doubled and doubled again, nothing is rounded off. -/
theorem reconciled_often_even : ∃ often once,
    reconciled .dev owesOne [2000000000000, 4000000000000] = some often ∧
      accruePosition .dev owesOne 4000000000000 = some once ∧ often.debt = once.debt := by
  have hrising : [2000000000000, 4000000000000].Pairwise fun i j : U128 => i < j :=
    List.pairwise_pair.mpr (by decide +kernel)
  have hfrom : ∀ i ∈ [2000000000000, 4000000000000], owesOne.borrowIndexSnapshot ≤ i :=
    from_pair (by decide +kernel) (by decide +kernel)
  obtain ⟨often, once, hoften, honce, -, -, heven⟩ := reconciled_often (π := .dev)
    (by decide +kernel) hrising hfrom rfl (by decide +kernel) (by decide +kernel)
  exact ⟨often, once, hoften, honce, heven ⟨⟨2, rfl⟩, trivial⟩⟩

/-- **A borrower saves by reconciling**: of two growths by half each is rounded off. And where an
    index is below the snapshot, the debt grows from there once more. -/
theorem reconciled_differs :
    (¬ ∀ (π : Profile) (pos : Position) (indices : List U128) (last : U128),
      pos.borrowIndexSnapshot ≠ 0 → pos.debt ≠ 0 → indices.Pairwise (· < ·) →
      (∀ i ∈ indices, pos.borrowIndexSnapshot ≤ i) → indices.getLast? = some last →
      InRange pos.debt.toNat pos.borrowIndexSnapshot.toNat indices →
      InRange pos.debt.toNat pos.borrowIndexSnapshot.toNat [last] →
      (reconciled π pos indices).map (·.debt) = (accruePosition π pos last).map (·.debt)) ∧
    (reconciled .dev { owesOne with borrowIndexSnapshot := 2000000000000 }
      [1000000000000, 4000000000000]).map (·.debt) = some 4 ∧
    (accruePosition .dev { owesOne with borrowIndexSnapshot := 2000000000000 }
      4000000000000).map (·.debt) = some 2 := by
  refine ⟨fun hclaim => ?_, by decide +kernel, by decide +kernel⟩
  have hsame := hclaim .dev owesOne [1500000000000, 2250000000000] 2250000000000
    (by decide +kernel) (by decide +kernel) (List.pairwise_pair.mpr (by decide +kernel))
    (from_pair (by decide +kernel) (by decide +kernel)) rfl (by decide +kernel) (by decide +kernel)
  exact absurd hsame (by decide +kernel)

end Proof
end Himsha
