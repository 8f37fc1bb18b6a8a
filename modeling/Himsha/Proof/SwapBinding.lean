import Himsha.Proof.ProgramRuns
import Himsha.Proof.TokenCalls

/-!
# The accounts of a pool

A pool records its two reserves and its LP mint, and nothing compares them with the accounts that
an instruction lists: the pool signs for whatever account stands in the slot of a reserve, and LP
tokens are minted and burned at whatever mint is passed. `amm_bound_iff` says that this comparison
is all that is missing: where the recorded accounts are listed, the cached reserves are their
balances and the LP supply moves with the supply of the mint.
-/

set_option autoImplicit false

namespace Himsha
namespace Proof

open Himsha.Lib Himsha.Runtime Himsha.Programs Himsha.Vm Token Swap

/-- The slots `i` and `j` are the recorded reserves. -/
def ReservesAt (accounts : List AccountInfo) (pool : PoolState) (i j : Nat) : Prop :=
  keyAt accounts i = some pool.tokenAReserve ∧ keyAt accounts j = some pool.tokenBReserve

/-- The reserves that a pool caches are what the slots `i` and `j` hold. -/
def CachedAt (out : List AccountInfo) (pool : PoolState) (i j : Nat) : Prop :=
  (recordAt TokenAccountState out i).map (·.amount) = some pool.reserveA ∧
    (recordAt TokenAccountState out j).map (·.amount) = some pool.reserveB

/-- The LP supply that the pool counts and that of the mint in slot `i` move together. -/
def LpMovesWith (accounts out : List AccountInfo) (pool pool' : PoolState) (i : Nat) : Prop :=
  ∃ mint mint' : MintState, recordAt MintState accounts i = some mint ∧
    recordAt MintState out i = some mint' ∧
    pool'.lpSupply.toNat + mint.supply.toNat = pool.lpSupply.toNat + mint'.supply.toNat

/-- What an instruction on an initialised pool leaves is about the recorded accounts. -/
def Bound (accounts out : List AccountInfo) (pool pool' : PoolState) : SwapInstruction → Prop
  | .initializePool _ _ => True
  | .swap _ _ =>
      (ReservesAt accounts pool 3 4 ∧ CachedAt out pool' 3 4 ∨
        ReservesAt accounts pool 4 3 ∧ CachedAt out pool' 4 3) ∧
      -- No mint is touched.
      pool'.lpSupply = pool.lpSupply ∧ ∀ i mint, recordAt MintState accounts i = some mint →
        recordAt MintState out i = some mint
  | .deposit _ _ _ | .withdraw _ _ _ =>
      ReservesAt accounts pool 3 4 ∧ keyAt accounts 7 = some pool.lpMint ∧ CachedAt out pool' 3 4 ∧
      (pool.lpSupply ≠ 0 → LpMovesWith accounts out pool pool' 7)

/-- **The accounts of the pool are the ones that are used.** -/
def AmmBound (accounts out : List AccountInfo) (data : List UInt8) : Prop :=
  ∀ ix ∈ (tryFromSlice data : Option SwapInstruction), ∀ pool ∈ recordAt PoolState accounts 0,
    pool.isInitialized = true →
      ∃ pool' ∈ recordAt PoolState out 0, Bound accounts out pool pool' ix

/-- The accounts that an instruction lists for a pool are the recorded ones. -/
def ListsRecorded (accounts : List AccountInfo) (pool : PoolState) : SwapInstruction → Prop
  | .initializePool _ _ => True
  | .swap _ _ => ReservesAt accounts pool 3 4 ∨ ReservesAt accounts pool 4 3
  | .deposit _ _ _ | .withdraw _ _ _ =>
      ReservesAt accounts pool 3 4 ∧ keyAt accounts 7 = some pool.lpMint

def RecordedListed (accounts : List AccountInfo) (data : List UInt8) : Prop :=
  ∀ ix ∈ (tryFromSlice data : Option SwapInstruction), ∀ pool ∈ recordAt PoolState accounts 0,
    pool.isInitialized = true → ListsRecorded accounts pool ix

instance (accounts : List AccountInfo) (pool : PoolState) (i j : Nat) :
    Decidable (ReservesAt accounts pool i j) :=
  inferInstanceAs (Decidable (_ ∧ _))

instance (accounts : List AccountInfo) (pool : PoolState) :
    DecidablePred (ListsRecorded accounts pool)
  | .initializePool _ _ => isTrue trivial
  | .swap _ _ => inferInstanceAs (Decidable (_ ∨ _))
  | .deposit _ _ _ | .withdraw _ _ _ => inferInstanceAs (Decidable (_ ∧ _))

instance (accounts : List AccountInfo) (data : List UInt8) :
    Decidable (RecordedListed accounts data) :=
  inferInstanceAs (Decidable (∀ ix ∈ (tryFromSlice data : Option SwapInstruction),
    ∀ pool ∈ recordAt PoolState accounts 0, pool.isInitialized = true →
      ListsRecorded accounts pool ix))


/-! ## The three instructions -/

section
variable {π : Profile} {accounts mid : List AccountInfo} {th th' : Thread} {pool : PoolState}

theorem reserveBalance_eq_ok {i : Nat} {n : UInt64} (h : reserveBalance accounts i = .ok n) :
    (recordAt TokenAccountState accounts i).map (·.amount) = some n := by
  obtain ⟨token, hload, hret⟩ := bind_eq_ok.mp h
  rw [recordAt_of_load hload, Option.map_some]
  exact congrArg some (Except.ok.inj hret)

theorem token_call_mint {i : Nat} {mint : MintState} (h : recordAt MintState accounts i = some mint)
    (h' : ∃ token, recordAt TokenAccountState accounts i = some token) : False := by
  obtain ⟨a, ha, hmint⟩ := recordAt_eq_some.mp h
  obtain ⟨token, htoken⟩ := h'
  obtain ⟨a', ha', hdec⟩ := recordAt_eq_some.mp htoken
  rw [ha, Option.some.injEq] at ha'
  rw [← ha', mint_not_token hmint] at hdec
  simp at hdec

/-- A transfer leaves every mint alone. -/
theorem Rewritten.mints {out : List AccountInfo} {i j n : Nat} {a b : AccountInfo}
    {v v' w w' : TokenAccountState} {mint : MintState}
    (h : Rewritten accounts out i j a b v v' w w')
    (hmint : recordAt MintState accounts n = some mint) :
    recordAt MintState out n = some mint := by
  have hi : n ≠ i := by
    rintro rfl
    exact token_call_mint hmint ⟨v, h.recordAt_before.1⟩
  have hj : n ≠ j := by
    rintro rfl
    exact token_call_mint hmint ⟨w, h.recordAt_before.2⟩
  rw [h.recordAt_other hi hj, hmint]

/-- The cached reserves after a swap, whichever way around the slots are. -/
theorem syncReserves_cached {pool' : PoolState} (h : syncReserves accounts pool = .ok pool')
    (hlists : ReservesAt accounts pool 3 4 ∨ ReservesAt accounts pool 4 3) :
    (ReservesAt accounts pool 3 4 ∧ CachedAt accounts pool' 3 4 ∨
      ReservesAt accounts pool 4 3 ∧ CachedAt accounts pool' 4 3) ∧
      pool'.lpSupply = pool.lpSupply := by
  obtain ⟨first, hfirst, h₁⟩ := bind_eq_ok.mp h
  obtain ⟨second, hsecond, h₂⟩ := bind_eq_ok.mp h₁
  obtain ⟨a, ha, h₃⟩ := bind_eq_ok.mp h₂
  have hthree : keyAt accounts 3 = some a.key := keyAt_slot (slot_eq_ok ha)
  have hfirst' := reserveBalance_eq_ok hfirst
  have hsecond' := reserveBalance_eq_ok hsecond
  by_cases hkey : a.key = pool.tokenAReserve
  · rw [if_pos (by simpa using hkey)] at h₃
    cases h₃
    rcases hlists with hlists | ⟨hfour, hthree'⟩
    · exact ⟨.inl ⟨hlists, hfirst', hsecond'⟩, rfl⟩
    · -- Both reserves are one account, so either order will do.
      have hsame : pool.tokenAReserve = pool.tokenBReserve := by
        rw [hthree, Option.some.injEq, hkey] at hthree'
        exact hthree'
      exact ⟨.inl ⟨⟨by rw [hthree, hkey], by rw [hfour, hsame]⟩, hfirst', hsecond'⟩, rfl⟩
  · rw [if_neg (by simpa using hkey)] at h₃
    cases h₃
    rcases hlists with ⟨hthree', -⟩ | hlists
    · rw [hthree, Option.some.injEq] at hthree'
      exact absurd hthree' hkey
    · exact ⟨.inr ⟨hlists, hsecond', hfirst'⟩, rfl⟩

theorem syncReservesAb_cached {pool' : PoolState} (h : syncReservesAb accounts pool = .ok pool') :
    CachedAt accounts pool' 3 4 ∧ pool'.lpSupply = pool.lpSupply := by
  obtain ⟨first, hfirst, h₁⟩ := bind_eq_ok.mp h
  obtain ⟨second, hsecond, h₂⟩ := bind_eq_ok.mp h₁
  cases h₂
  exact ⟨⟨reserveBalance_eq_ok hfirst, reserveBalance_eq_ok hsecond⟩, rfl⟩

theorem CachedAt.congr {out : List AccountInfo} {i j : Nat}
    (hi : recordAt TokenAccountState out i = recordAt TokenAccountState accounts i)
    (hj : recordAt TokenAccountState out j = recordAt TokenAccountState accounts j)
    (h : CachedAt accounts pool i j) : CachedAt out pool i j := by
  unfold CachedAt
  rw [hi, hj]
  exact h

/-- What a `Swap` that succeeds has computed on its way. -/
theorem swap_stages {amountIn least : UInt64}
    (h : Comp.Returns (Swap.run π accounts (.swap amountIn least)) th mid th') :
    ∃ (pool pool' : PoolState) (reserveIn reserveOut quote : UInt64)
      (paid drawn : List AccountInfo) (th₁ : Thread),
      recordAt PoolState accounts 0 = some pool ∧
      reserveBalance accounts 3 = .ok reserveIn ∧ reserveBalance accounts 4 = .ok reserveOut ∧
      (reserveIn != 0 && reserveOut != 0) = true ∧
      amountOut pool reserveIn reserveOut amountIn = .ok quote ∧
      Comp.Returns (invoke π accounts [1, 3, 5] [] (.transfer amountIn)) th paid th₁ ∧
      Comp.Returns (invoke π paid [4, 2, 0] [2] (.transfer quote)) th₁ drawn th' ∧
      syncReserves drawn pool = .ok pool' ∧ store drawn 0 pool' = .ok mid := by
  obtain ⟨_, -, h₁⟩ := returns_lift h
  obtain ⟨_, -, h₂⟩ := returns_lift h₁
  obtain ⟨_, -, h₃⟩ := returns_lift h₂
  obtain ⟨pool, hload, h₄⟩ := returns_lift h₃
  obtain ⟨_, -, h₅⟩ := returns_lift h₄
  obtain ⟨reserveIn, hin, h₆⟩ := returns_lift h₅
  obtain ⟨reserveOut, hout, h₇⟩ := returns_lift h₆
  obtain ⟨_, hfull, h₈⟩ := returns_lift h₇
  obtain ⟨quote, hquote, h₉⟩ := returns_lift h₈
  obtain ⟨_, -, h₁₀⟩ := returns_lift h₉
  obtain ⟨paid, _, hpay, h₁₁⟩ := Comp.returns_bind.mp h₁₀
  obtain ⟨drawn, _, hdraw, h₁₂⟩ := Comp.returns_bind.mp h₁₁
  obtain ⟨pool', hsync, h₁₃⟩ := returns_lift h₁₂
  obtain ⟨hstore, rfl⟩ := Comp.returns_ofExcept.mp h₁₃
  exact ⟨pool, pool', reserveIn, reserveOut, quote, paid, drawn, _, recordAt_of_load hload, hin,
    hout, require_eq_ok.mp hfull, hquote, hpay, hdraw, hsync, hstore⟩

/-- What a `Deposit` that succeeds has computed on its way. -/
theorem deposit_stages {maxA maxB least : UInt64}
    (h : Comp.Returns (Swap.run π accounts (.deposit maxA maxB least)) th mid th') :
    ∃ (pool pool' : PoolState) (actualA actualB userLp supplyDelta lpSupply : UInt64)
      (paidA paidB minted : List AccountInfo) (th₁ th₂ : Thread),
      recordAt PoolState accounts 0 = some pool ∧
      depositAmounts π accounts pool maxA maxB = .ok (actualA, actualB, userLp, supplyDelta) ∧
      Comp.Returns (invoke π accounts [1, 3, 6] [] (.transfer actualA)) th paidA th₁ ∧
      Comp.Returns (invoke π paidA [2, 4, 6] [] (.transfer actualB)) th₁ paidB th₂ ∧
      Comp.Returns (invoke π paidB [7, 5, 6] [] (.mintTo userLp)) th₂ minted th' ∧
      lpSupply.toNat = pool.lpSupply.toNat + supplyDelta.toNat ∧
      syncReservesAb minted { pool with lpSupply } = .ok pool' ∧
      store minted 0 pool' = .ok mid := by
  obtain ⟨_, -, h₁⟩ := returns_lift h
  obtain ⟨_, -, h₂⟩ := returns_lift h₁
  obtain ⟨_, -, h₃⟩ := returns_lift h₂
  obtain ⟨pool, hload, h₄⟩ := returns_lift h₃
  obtain ⟨⟨actualA, actualB, userLp, supplyDelta⟩, hamounts, h₅⟩ := returns_lift h₄
  obtain ⟨_, -, h₆⟩ := returns_lift h₅
  obtain ⟨paidA, _, hpayA, h₇⟩ := Comp.returns_bind.mp h₆
  obtain ⟨paidB, _, hpayB, h₈⟩ := Comp.returns_bind.mp h₇
  obtain ⟨minted, _, hmint, h₉⟩ := Comp.returns_bind.mp h₈
  obtain ⟨lpSupply, hsum, h₁₀⟩ := returns_lift h₉
  obtain ⟨pool', hsync, h₁₁⟩ := returns_lift h₁₀
  obtain ⟨hstore, rfl⟩ := Comp.returns_ofExcept.mp h₁₁
  exact ⟨pool, pool', actualA, actualB, userLp, supplyDelta, lpSupply, paidA, paidB, minted, _, _,
    recordAt_of_load hload, hamounts, hpayA, hpayB, hmint,
    checkedAdd_eq_some (okOr_eq_ok.mp hsum), hsync, hstore⟩

/-- What a `Withdraw` that succeeds has computed on its way. -/
theorem withdraw_stages {lpAmount leastA leastB : UInt64}
    (h : Comp.Returns (Swap.run π accounts (.withdraw lpAmount leastA leastB)) th mid th') :
    ∃ (pool pool' : PoolState) (reserveA reserveB outA outB lpSupply : UInt64)
      (burned paidA paidB : List AccountInfo) (th₁ th₂ : Thread),
      recordAt PoolState accounts 0 = some pool ∧
      reserveBalance accounts 3 = .ok reserveA ∧ reserveBalance accounts 4 = .ok reserveB ∧
      mulDivWide reserveA.toNat lpAmount.toNat pool.lpSupply.toNat = .ok outA ∧
      mulDivWide reserveB.toNat lpAmount.toNat pool.lpSupply.toNat = .ok outB ∧
      Comp.Returns (invoke π accounts [5, 7, 6] [] (.burn lpAmount)) th burned th₁ ∧
      Comp.Returns (invoke π burned [3, 1, 6] [] (.transfer outA)) th₁ paidA th₂ ∧
      Comp.Returns (invoke π paidA [4, 2, 6] [] (.transfer outB)) th₂ paidB th' ∧
      lpSupply.toNat + lpAmount.toNat = pool.lpSupply.toNat ∧
      syncReservesAb paidB { pool with lpSupply } = .ok pool' ∧ store paidB 0 pool' = .ok mid := by
  obtain ⟨_, -, h₁⟩ := returns_lift h
  obtain ⟨_, -, h₂⟩ := returns_lift h₁
  obtain ⟨_, -, h₃⟩ := returns_lift h₂
  obtain ⟨pool, hload, h₄⟩ := returns_lift h₃
  obtain ⟨_, -, h₅⟩ := returns_lift h₄
  obtain ⟨reserveA, hreserveA, h₆⟩ := returns_lift h₅
  obtain ⟨reserveB, hreserveB, h₇⟩ := returns_lift h₆
  obtain ⟨outA, houtA, h₈⟩ := returns_lift h₇
  obtain ⟨outB, houtB, h₉⟩ := returns_lift h₈
  obtain ⟨_, -, h₁₀⟩ := returns_lift h₉
  obtain ⟨burned, _, hburn, h₁₁⟩ := Comp.returns_bind.mp h₁₀
  obtain ⟨paidA, _, hpayA, h₁₂⟩ := Comp.returns_bind.mp h₁₁
  obtain ⟨paidB, _, hpayB, h₁₃⟩ := Comp.returns_bind.mp h₁₂
  obtain ⟨lpSupply, hsum, h₁₄⟩ := returns_lift h₁₃
  obtain ⟨pool', hsync, h₁₅⟩ := returns_lift h₁₄
  obtain ⟨hstore, rfl⟩ := Comp.returns_ofExcept.mp h₁₅
  exact ⟨pool, pool', reserveA, reserveB, outA, outB, lpSupply, burned, paidA, paidB, _, _,
    recordAt_of_load hload, hreserveA, hreserveB, houtA, houtB, hburn, hpayA, hpayB,
    checkedSub_eq_some (okOr_eq_ok.mp hsum), hsync, hstore⟩

theorem swap_bound {amountIn least : UInt64} (hpool : recordAt PoolState accounts 0 = some pool)
    (hlists : ListsRecorded accounts pool (.swap amountIn least))
    (h : Comp.Returns (Swap.run π accounts (.swap amountIn least)) th mid th') :
    ∃ pool' ∈ recordAt PoolState mid 0, Bound accounts mid pool pool' (.swap amountIn least) := by
  obtain ⟨p, pool', _, _, _, paid, drawn, _, hload, -, -, -, -, hpay, hdraw, hsync, hstore⟩ :=
    swap_stages h
  obtain rfl := Option.some.inj (hpool.symm.trans hload)
  obtain ⟨a, b, _, _, _, _, hpaid, -⟩ := transfer_call (by decide) (by decide) (by decide) hpay
  obtain ⟨a', b', _, _, _, _, hdrawn, -⟩ := transfer_call (by decide) (by decide) (by decide) hdraw
  have hkeys : ∀ n, keyAt drawn n = keyAt accounts n := fun n =>
    (hdrawn.keyAt (by decide)).trans (hpaid.keyAt (by decide))
  have hlists' : ReservesAt drawn pool 3 4 ∨ ReservesAt drawn pool 4 3 := by
    unfold ReservesAt
    simp only [hkeys]
    exact hlists
  obtain ⟨hcached, hsupply⟩ := syncReserves_cached hsync hlists'
  refine ⟨pool', recordAt_stored hstore, ?_, hsupply, fun n mint hmint => ?_⟩
  · have hafter : ∀ n, n ≠ 0 →
        recordAt TokenAccountState mid n = recordAt TokenAccountState drawn n :=
      fun n hn => recordAt_unstored hstore hn
    rcases hcached with ⟨⟨hthree, hfour⟩, hnow⟩ | ⟨⟨hfour, hthree⟩, hnow⟩
    · exact .inl ⟨⟨hkeys 3 ▸ hthree, hkeys 4 ▸ hfour⟩,
        hnow.congr (hafter 3 (by decide)) (hafter 4 (by decide))⟩
    · exact .inr ⟨⟨hkeys 4 ▸ hfour, hkeys 3 ▸ hthree⟩,
        hnow.congr (hafter 4 (by decide)) (hafter 3 (by decide))⟩
  · have hfirst : n ≠ 0 := by
      rintro rfl
      obtain ⟨x, hx, hdec⟩ := recordAt_eq_some.mp hpool
      obtain ⟨x', hx', hdec'⟩ := recordAt_eq_some.mp hmint
      rw [hx, Option.some.injEq] at hx'
      rw [← hx', pool_not_mint hdec] at hdec'
      simp at hdec'
    rw [recordAt_unstored hstore hfirst]
    exact hdrawn.mints (hpaid.mints hmint)

/-- A deposit into a pool that has LP tokens mints as many as it counts. -/
theorem depositAmounts_later {maxA maxB actualA actualB userLp supplyDelta : UInt64}
    (h : depositAmounts π accounts pool maxA maxB = .ok (actualA, actualB, userLp, supplyDelta))
    (hlater : pool.lpSupply ≠ 0) : userLp = supplyDelta := by
  unfold depositAmounts at h
  rw [if_neg hlater] at h
  obtain ⟨_, -, h₁⟩ := bind_eq_ok.mp h
  obtain ⟨_, -, h₂⟩ := bind_eq_ok.mp h₁
  obtain ⟨_, -, h₃⟩ := bind_eq_ok.mp h₂
  obtain ⟨_, -, h₄⟩ := bind_eq_ok.mp h₃
  obtain ⟨_, -, h₅⟩ := bind_eq_ok.mp h₄
  obtain ⟨_, -, h₆⟩ := bind_eq_ok.mp h₅
  cases h₆
  rfl

theorem deposit_bound {maxA maxB least : UInt64}
    (hpool : recordAt PoolState accounts 0 = some pool)
    (hlists : ListsRecorded accounts pool (.deposit maxA maxB least))
    (h : Comp.Returns (Swap.run π accounts (.deposit maxA maxB least)) th mid th') :
    ∃ pool' ∈ recordAt PoolState mid 0,
      Bound accounts mid pool pool' (.deposit maxA maxB least) := by
  obtain ⟨p, pool', _, _, userLp, supplyDelta, lpSupply, paidA, paidB, minted, _, _, hload,
    hamounts, hpayA, hpayB, hmint, hadd, hsync, hstore⟩ := deposit_stages h
  obtain rfl := Option.some.inj (hpool.symm.trans hload)
  obtain ⟨a, b, _, _, _, _, hpaidA, -⟩ := transfer_call (by decide) (by decide) (by decide) hpayA
  obtain ⟨a', b', _, _, _, _, hpaidB, -⟩ := transfer_call (by decide) (by decide) (by decide) hpayB
  obtain ⟨m, _, mint, _, supply, _, hminted, -, -, hsupply, -⟩ :=
    mintTo_call (by decide) (by decide) (by decide) hmint
  obtain ⟨hcached, hlp⟩ := syncReservesAb_cached hsync
  refine ⟨pool', recordAt_stored hstore, hlists.1, hlists.2,
    hcached.congr (recordAt_unstored hstore (by decide)) (recordAt_unstored hstore (by decide)),
    fun hlater => ⟨mint, { mint with supply }, ?_, ?_, ?_⟩⟩
  · rw [← hpaidA.recordAt_other (by decide) (by decide),
      ← hpaidB.recordAt_other (by decide) (by decide)]
    exact hminted.recordAt_before.1
  · rw [recordAt_unstored hstore (by decide)]
    exact (hminted.recordAt_after (by decide)).1
  · have hdelta := depositAmounts_later hamounts hlater
    have hcount : pool'.lpSupply = lpSupply := hlp
    rw [hcount]
    show _ = _ + supply.toNat
    rw [hdelta] at hsupply
    omega

theorem withdraw_bound {lpAmount leastA leastB : UInt64}
    (hpool : recordAt PoolState accounts 0 = some pool)
    (hlists : ListsRecorded accounts pool (.withdraw lpAmount leastA leastB))
    (h : Comp.Returns (Swap.run π accounts (.withdraw lpAmount leastA leastB)) th mid th') :
    ∃ pool' ∈ recordAt PoolState mid 0,
      Bound accounts mid pool pool' (.withdraw lpAmount leastA leastB) := by
  obtain ⟨p, pool', _, _, _, _, lpSupply, burned, paidA, paidB, _, _, hload, -, -, -, -, hburn,
    hpayA, hpayB, hsub, hsync, hstore⟩ := withdraw_stages h
  obtain rfl := Option.some.inj (hpool.symm.trans hload)
  obtain ⟨_, m, _, mint, _, supply, hburned, -, -, hsupply⟩ :=
    burn_call (by decide) (by decide) (by decide) hburn
  obtain ⟨a, b, _, _, _, _, hpaidA, -⟩ := transfer_call (by decide) (by decide) (by decide) hpayA
  obtain ⟨a', b', _, _, _, _, hpaidB, -⟩ := transfer_call (by decide) (by decide) (by decide) hpayB
  obtain ⟨hcached, hlp⟩ := syncReservesAb_cached hsync
  refine ⟨pool', recordAt_stored hstore, hlists.1, hlists.2,
    hcached.congr (recordAt_unstored hstore (by decide)) (recordAt_unstored hstore (by decide)),
    fun _ => ⟨mint, { mint with supply }, hburned.recordAt_before.2, ?_, ?_⟩⟩
  · rw [recordAt_unstored hstore (by decide), hpaidB.recordAt_other (by decide) (by decide),
      hpaidA.recordAt_other (by decide) (by decide)]
    exact (hburned.recordAt_after (by decide)).2
  · have hcount : pool'.lpSupply = lpSupply := hlp
    rw [hcount]
    show _ = _ + supply.toNat
    omega

end

/-! ## Dispatch -/

/-- The gate does not change what is bound. -/
theorem Bound.gated {accounts mid out : List AccountInfo} {pool pool' : PoolState}
    {ix : SwapInstruction} (hdata : out.map (·.data) = mid.map (·.data))
    (h : Bound accounts mid pool pool' ix) : Bound accounts out pool pool' ix := by
  have hcached : ∀ {i j}, CachedAt mid pool' i j → CachedAt out pool' i j :=
    CachedAt.congr (recordAt_data hdata) (recordAt_data hdata)
  have hmoves : LpMovesWith accounts mid pool pool' 7 → LpMovesWith accounts out pool pool' 7 := by
    rintro ⟨mint, mint', hbefore, hafter, hsum⟩
    exact ⟨mint, mint', hbefore, by rw [recordAt_data hdata, hafter], hsum⟩
  cases ix with
  | initializePool fn fd => trivial
  | swap amountIn least =>
    obtain ⟨hreserves, hsupply, hmints⟩ := h
    refine ⟨hreserves.imp (And.imp_right hcached) (And.imp_right hcached), hsupply, ?_⟩
    intro i mint hmint
    rw [recordAt_data hdata, hmints i mint hmint]
  | deposit maxA maxB least =>
    obtain ⟨hreserves, hmint, hnow, hlp⟩ := h
    exact ⟨hreserves, hmint, hcached hnow, fun hlater => hmoves (hlp hlater)⟩
  | withdraw lpAmount leastA leastB =>
    obtain ⟨hreserves, hmint, hnow, hlp⟩ := h
    exact ⟨hreserves, hmint, hcached hnow, fun hlater => hmoves (hlp hlater)⟩

/-- **Which accounts a pool trades with.** For every swap, deposit and withdrawal on an initialised
    pool that succeeds: the accounts used are the recorded ones, the cached reserves are their
    balances and the LP supply moves with the mint, exactly where the recorded accounts are
    listed. -/
theorem amm_bound_iff {π : Profile} {hasher : Lending.Hasher} {accounts out : List AccountInfo}
    {data : List UInt8} {timestamp : UInt64} {th th' : Thread}
    (h : Comp.Returns (dispatch π hasher ProgramIds.swapProgram accounts data timestamp) th out
      th') :
    AmmBound accounts out data ↔ RecordedListed accounts data := by
  obtain ⟨ix, mid, th₀, th₁, hdec, hrun', hdata⟩ := dispatch_runs (runBuiltin_swap _ _ _ _ _) h
  unfold AmmBound RecordedListed
  simp only [hdec, Option.mem_def, Option.some.injEq, forall_eq']
  constructor
  · intro hbound pool hpool hinit
    obtain ⟨pool', -, hbound'⟩ := hbound pool hpool hinit
    cases ix with
    | initializePool fn fd => trivial
    | swap amountIn least => exact hbound'.1.imp And.left And.left
    | deposit maxA maxB least => exact ⟨hbound'.1, hbound'.2.1⟩
    | withdraw lpAmount leastA leastB => exact ⟨hbound'.1, hbound'.2.1⟩
  · intro hlists pool hpool hinit
    have hlists' := hlists pool hpool hinit
    obtain ⟨pool', hpool', hbound⟩ : ∃ pool' ∈ recordAt PoolState mid 0,
        Bound accounts mid pool pool' ix := by
      cases ix with
      | initializePool fn fd =>
        -- A pool is initialised once.
        obtain ⟨_, -, h₁⟩ := returns_lift hrun'
        obtain ⟨_, -, h₂⟩ := returns_lift h₁
        obtain ⟨p, hload, h₃⟩ := returns_lift h₂
        obtain ⟨_, hfresh, -⟩ := returns_lift h₃
        obtain ⟨a, ha, rfl⟩ := loadOr_eq_ok hload
        obtain ⟨a', ha', hdec'⟩ := recordAt_eq_some.mp hpool
        rw [ha, Option.some.injEq] at ha'
        rw [← ha'] at hdec'
        simp [hdec', hinit] at hfresh
      | swap amountIn least => exact swap_bound hpool hlists' hrun'
      | deposit maxA maxB least => exact deposit_bound hpool hlists' hrun'
      | withdraw lpAmount leastA leastB => exact withdraw_bound hpool hlists' hrun'
    exact ⟨pool', (recordAt_data hdata).trans hpool', hbound.gated hdata⟩

/-- A pool with the reserves `3` and `4`. -/
def poolOf : PoolState where
  tokenAMint := .repeated 8
  tokenBMint := .repeated 9
  tokenAReserve := .repeated 3
  tokenBReserve := .repeated 4
  feeDenominator := 1
  reserveA := 100
  reserveB := 100
  lpSupply := 100
  isInitialized := true

/-- A token account with 100 of a mint. -/
def hundredOf (key mint : Pubkey) : AccountInfo where
  key := key
  lamports := 1
  data := (toVec ({ mint, amount := 100, state := .initialized } : TokenAccountState)).getD []
  owner := ProgramIds.tokenProgram

/-- The accounts of a swap of A for B against the accounts `first` and `second`. -/
def swapAccounts (first second : Pubkey) : List AccountInfo :=
  [{ key := .repeated 0, lamports := 1, data := (toVec poolOf).getD []
     owner := ProgramIds.swapProgram },
    hundredOf (.repeated 1) (.repeated 8), hundredOf (.repeated 2) (.repeated 9),
    hundredOf first (.repeated 8), hundredOf second (.repeated 9),
    { key := .repeated 5, lamports := 0, data := [], owner := ProgramIds.systemProgram
      isSigner := true, isWritable := false }]

def swapTen : List UInt8 := (toVec (SwapInstruction.swap 10 0)).getD []

def runSwap (first second : Pubkey) : Except Fault (List AccountInfo) × Thread :=
  Comp.exec (dispatch .dev .sorted ProgramIds.swapProgram (swapAccounts first second) swapTen 0) {}

theorem amm_bound_swap : ∃ out, (runSwap (.repeated 3) (.repeated 4)).1 = .ok out ∧
    AmmBound (swapAccounts (.repeated 3) (.repeated 4)) out swapTen := by
  obtain ⟨out, hout⟩ : ∃ out, (runSwap (.repeated 3) (.repeated 4)).1 = .ok out :=
    exists_of_isOk (by decide +kernel)
  exact ⟨out, hout, (amm_bound_iff (Comp.returns_of_ok hout)).mpr (by decide +kernel)⟩

/-- **Any account for a reserve.** A swap pays out of whatever account stands in the slot. -/
theorem swap_with_others : ¬ ∀ (π : Profile) (hasher : Lending.Hasher)
    (accounts : List AccountInfo) (data : List UInt8) (timestamp : UInt64)
    (out : List AccountInfo),
      (Comp.exec (dispatch π hasher ProgramIds.swapProgram accounts data timestamp) {}).1 =
        .ok out →
      AmmBound accounts out data := by
  intro hclaim
  obtain ⟨out, hout⟩ : ∃ out, (runSwap (.repeated 6) (.repeated 7)).1 = .ok out :=
    exists_of_isOk (by decide +kernel)
  have hbound := hclaim .dev .sorted (swapAccounts (.repeated 6) (.repeated 7)) swapTen 0 out hout
  exact absurd ((amm_bound_iff (Comp.returns_of_ok hout)).mp hbound) (by decide +kernel)

end Proof
end Himsha
