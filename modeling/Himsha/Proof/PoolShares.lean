import Himsha.Lib.Ratio
import Himsha.Proof.IntegerSqrt
import Himsha.Proof.SwapBinding

/-!
# What trading and sharing do to a pool

A swap pays out a quotient that is rounded down, of what is left of the input after a fee, so the
product of the reserves does not shrink (`swap_keeps_product`). Liquidity is priced in LP tokens.
What a withdrawal pays out is rounded down, in favour of those who stay; what a deposit takes is
rounded down as well, in favour of the depositor (`undiluted_iff`).
-/

set_option autoImplicit false

namespace Himsha
namespace Proof

open Himsha.Lib Himsha.Runtime Himsha.Programs Himsha.Vm Token Swap

/-! ## Checked arithmetic -/

section
variable {a b c r : UInt64}

theorem swap_mulDiv_eq_ok (h : Swap.mulDiv a b c = .ok r) :
    a.toNat * b.toNat < 2 ^ 64 ∧ r.toNat = a.toNat * b.toNat / c.toNat := by
  obtain ⟨product, hproduct, hquotient⟩ := bind_eq_ok.mp h
  obtain ⟨hfits, hproduct'⟩ := checkedMul_eq_some (okOr_eq_ok.mp hproduct)
  have hquotient' := okOr_eq_ok.mp hquotient
  unfold checkedDiv at hquotient'
  split at hquotient'
  · cases hquotient'
  · rw [← Option.some.inj hquotient', UInt64.toNat_div, hproduct']
    exact ⟨hfits, rfl⟩

/-- A quotient that is a `u64` is not truncated. -/
theorem mulDivWide_eq_ok {x y z : Nat} (h : mulDivWide x y z = .ok r)
    (hfits : x * y / z < 2 ^ 64) : r.toNat = x * y / z := by
  obtain ⟨product, hproduct, h₁⟩ := bind_eq_ok.mp h
  obtain ⟨quotient, hdiv, hret⟩ := bind_eq_ok.mp h₁
  have hproduct' := okOr_eq_ok.mp hproduct
  have hdiv' := okOr_eq_ok.mp hdiv
  unfold checkedU128 at hproduct'
  unfold divU128 at hdiv'
  split at hproduct'
  · split at hdiv'
    · cases hdiv'
    · obtain rfl := Option.some.inj hproduct'
      obtain rfl := Option.some.inj hdiv'
      cases hret
      exact UInt64.toNat_ofNat_of_lt' hfits
  · cases hproduct'

end

/-! ## Reserves -/

/-- The token account in slot `i` holds `n`. -/
def HoldsTokens (accounts : List AccountInfo) (i n : Nat) : Prop :=
  (recordAt TokenAccountState accounts i).map (·.amount.toNat) = some n

section
variable {accounts out : List AccountInfo} {i n x : Nat}

theorem holdsTokens_of_balance {amount : UInt64} (h : reserveBalance accounts i = .ok amount) :
    HoldsTokens accounts i amount.toNat := by
  obtain ⟨token, htoken, rfl⟩ := Option.map_eq_some_iff.mp (reserveBalance_eq_ok h)
  unfold HoldsTokens
  rw [htoken, Option.map_some]

theorem Received.holds (h : Received accounts out i n) (hbefore : HoldsTokens accounts i x) :
    HoldsTokens out i (x + n) := by
  obtain ⟨token, htoken, token', htoken', -, hsum⟩ := h
  unfold HoldsTokens at hbefore ⊢
  rw [Option.mem_def.mp htoken, Option.map_some, Option.some.injEq] at hbefore
  rw [Option.mem_def.mp htoken', Option.map_some, hsum, hbefore]

theorem Paid.holds (h : Paid accounts out i n) (hbefore : HoldsTokens accounts i x) :
    HoldsTokens out i (x - n) := by
  obtain ⟨token, htoken, token', htoken', -, hsum⟩ := h
  unfold HoldsTokens at hbefore ⊢
  rw [Option.mem_def.mp htoken, Option.map_some, Option.some.injEq] at hbefore
  rw [Option.mem_def.mp htoken', Option.map_some, ← hbefore, ← hsum, Nat.add_sub_cancel]

end

/-! ## Trading -/

section
variable {π : Profile} {hasher : Lending.Hasher} {timestamp : UInt64}
  {accounts mid out : List AccountInfo} {data : List UInt8} {pool : PoolState} {th th' : Thread}

/-- An instruction of the swap program runs, and the gate leaves every slot reading as it was
    left. -/
theorem swap_returns {ix : SwapInstruction} (hix : tryFromSlice data = some ix)
    (h : Comp.Returns (dispatch π hasher ProgramIds.swapProgram accounts data timestamp) th out
      th') :
    ∃ mid th₀ th₁, Comp.Returns (Swap.run π accounts ix) th₀ mid th₁ ∧
      ∀ (α : Type) [Borsh α] (i : Nat), recordAt α out i = recordAt α mid i := by
  obtain ⟨ix', mid, th₀, th₁, hix', hrun, hdata⟩ := dispatch_runs (runBuiltin_swap _ _ _ _ _) h
  obtain rfl : ix = ix' := Option.some.inj (hix.symm.trans hix')
  exact ⟨mid, th₀, th₁, hrun, fun _ _ _ => recordAt_data hdata⟩

/-- What of an input counts, once the fee is taken. -/
def afterFee (pool : PoolState) (amountIn : Nat) : Nat :=
  amountIn - amountIn * pool.feeNumerator.toNat / pool.feeDenominator.toNat

/-- What is paid for an input, with `x` and `y` in the reserves. -/
def quoteOf (pool : PoolState) (x y amountIn : Nat) : Nat :=
  y * afterFee pool amountIn / (x + afterFee pool amountIn)

/-- A quote is below the reserve, so the cast does not truncate it. -/
theorem amountOut_eq_ok {reserveIn reserveOut amountIn r : UInt64} (hin : 0 < reserveIn.toNat)
    (hout : 0 < reserveOut.toNat) (h : amountOut pool reserveIn reserveOut amountIn = .ok r) :
    r.toNat = quoteOf pool reserveIn.toNat reserveOut.toNat amountIn.toNat := by
  obtain ⟨fee, hfee, h₁⟩ := bind_eq_ok.mp h
  obtain ⟨rest, hrest, h₂⟩ := bind_eq_ok.mp h₁
  obtain ⟨denominator, hdenominator, hquote⟩ := bind_eq_ok.mp h₂
  obtain ⟨-, hfee'⟩ := swap_mulDiv_eq_ok hfee
  have hrest' : rest.toNat = afterFee pool amountIn.toNat := by
    have hsum := checkedSub_eq_some (okOr_eq_ok.mp hrest)
    unfold afterFee
    omega
  have hdenominator' : denominator = reserveIn.toNat + rest.toNat := by
    have hsum := okOr_eq_ok.mp hdenominator
    unfold checkedU128 at hsum
    split at hsum
    · exact (Option.some.inj hsum).symm
    · cases hsum
  have hlt := Ratio.quote_lt (f := rest.toNat) hin hout
  rw [hdenominator'] at hquote
  rw [mulDivWide_eq_ok hquote (Nat.lt_trans hlt reserveOut.toNat_lt), hrest']
  rfl

/-- The user paid `amountIn` into the first reserve and was paid `paid` out of the second. -/
structure Traded (accounts out : List AccountInfo) (amountIn paid : Nat) : Prop where
  source : Paid accounts out 1 amountIn
  reserveIn : Received accounts out 3 amountIn
  reserveOut : Paid accounts out 4 paid
  destination : Received accounts out 2 paid

/-- The checks, the quote and the two transfers of a swap. -/
theorem swap_trades {amountIn least : UInt64}
    (h : Comp.Returns (Swap.run π accounts (.swap amountIn least)) th mid th') :
    ∃ pool x y, recordAt PoolState accounts 0 = some pool ∧ HoldsTokens accounts 3 x ∧
      HoldsTokens accounts 4 y ∧ 0 < x ∧ 0 < y ∧
      Traded accounts mid amountIn.toNat (quoteOf pool x y amountIn.toNat) := by
  obtain ⟨pool, pool', reserveIn, reserveOut, quote, paid, drawn, _, hpool, hin, hout, hboth, hquote,
    hpay, hdraw, -, hstore⟩ := swap_stages h
  rw [Bool.and_eq_true, bne_iff_ne, bne_iff_ne] at hboth
  have hpos : 0 < reserveIn.toNat :=
    Nat.pos_of_ne_zero fun hzero => hboth.1 (UInt64.toNat_inj.mp hzero)
  have hpos' : 0 < reserveOut.toNat :=
    Nat.pos_of_ne_zero fun hzero => hboth.2 (UInt64.toNat_inj.mp hzero)
  obtain ⟨a, b, source, dest, left, amount, hpaid, -, -, hleft, hamount⟩ :=
    transfer_call (by decide) (by decide) (by decide) hpay
  obtain ⟨a', b', source', dest', left', amount', hdrawn, -, -, hleft', hamount'⟩ :=
    transfer_call (by decide) (by decide) (by decide) hdraw
  refine ⟨pool, _, _, hpool, holdsTokens_of_balance hin, holdsTokens_of_balance hout, hpos, hpos',
    ?_⟩
  rw [← amountOut_eq_ok hpos hpos' hquote]
  -- What the second transfer and the store leave alone, and the first does.
  have hlast : ∀ n, n ≠ 0 → n ≠ 4 → n ≠ 2 →
      recordAt TokenAccountState mid n = recordAt TokenAccountState paid n :=
    fun n hn h₄ h₂ => (recordAt_unstored hstore hn).trans (hdrawn.recordAt_other h₄ h₂)
  have hfirst : ∀ n, n ≠ 1 → n ≠ 3 →
      recordAt TokenAccountState accounts n = recordAt TokenAccountState paid n :=
    fun n h₁ h₃ => (hpaid.recordAt_other h₁ h₃).symm
  have hstored : ∀ n, n ≠ 0 →
      recordAt TokenAccountState mid n = recordAt TokenAccountState drawn n :=
    fun n hn => recordAt_unstored hstore hn
  refine ⟨?_, ?_, ?_, ?_⟩
  · exact (hpaid.changed (by decide) ⟨rfl, hleft⟩).congr rfl
      (hlast 1 (by decide) (by decide) (by decide))
  · exact (hpaid.changed' (by decide) ⟨rfl, hamount⟩).congr rfl
      (hlast 3 (by decide) (by decide) (by decide))
  · exact (hdrawn.changed (by decide) ⟨rfl, hleft'⟩).congr (hfirst 4 (by decide) (by decide))
      (hstored 4 (by decide))
  · exact (hdrawn.changed' (by decide) ⟨rfl, hamount'⟩).congr (hfirst 2 (by decide) (by decide))
      (hstored 2 (by decide))

/-- **Swaps keep the product.** A swap that succeeds pays out less than is in the reserve, the
    quotient of the constant product after the fee and not truncated; the reserves and the balances
    of the user change by what goes in and what comes out, and the product of the reserves is not
    smaller than it was. -/
theorem swap_keeps_product {amountIn least : UInt64}
    (hdata : tryFromSlice data = some (SwapInstruction.swap amountIn least))
    (h : Comp.Returns (dispatch π hasher ProgramIds.swapProgram accounts data timestamp) th out
      th') :
    ∃ pool x y, recordAt PoolState accounts 0 = some pool ∧ HoldsTokens accounts 3 x ∧
      HoldsTokens accounts 4 y ∧ quoteOf pool x y amountIn.toNat < y ∧
      Traded accounts out amountIn.toNat (quoteOf pool x y amountIn.toNat) ∧
      ∃ x' y', HoldsTokens out 3 x' ∧ HoldsTokens out 4 y' ∧ x' = x + amountIn.toNat ∧
        y' = y - quoteOf pool x y amountIn.toNat ∧ x * y ≤ x' * y' := by
  obtain ⟨mid, _, _, hrun, hread⟩ := swap_returns hdata h
  obtain ⟨pool, x, y, hpool, hx, hy, hpos, hpos', htraded⟩ := swap_trades hrun
  have hgated : Traded accounts out amountIn.toNat (quoteOf pool x y amountIn.toNat) :=
    ⟨htraded.source.congr rfl (hread _ 1), htraded.reserveIn.congr rfl (hread _ 3),
      htraded.reserveOut.congr rfl (hread _ 4), htraded.destination.congr rfl (hread _ 2)⟩
  exact ⟨pool, x, y, hpool, hx, hy, Ratio.quote_lt hpos hpos', hgated, _, _,
    hgated.reserveIn.holds hx, hgated.reserveOut.holds hy, rfl, rfl,
    Ratio.product_le (Nat.sub_le _ _)⟩

end

/-- 10 for what is left of 100 and 100. -/
theorem swap_keeps_product_ten : ∃ out x' y', HoldsTokens out 3 x' ∧ HoldsTokens out 4 y' ∧
    (runSwap (.repeated 3) (.repeated 4)).1 = .ok out ∧ 100 * 100 ≤ x' * y' := by
  obtain ⟨out, hout⟩ : ∃ out, (runSwap (.repeated 3) (.repeated 4)).1 = .ok out :=
    exists_of_isOk (by decide +kernel)
  have hdata : tryFromSlice swapTen = some (SwapInstruction.swap 10 0) := by decide
  obtain ⟨pool, x, y, -, hx, hy, -, -, x', y', hx', hy', -, -, hle⟩ :=
    swap_keeps_product hdata (Comp.returns_of_ok hout)
  have hreserves : HoldsTokens (swapAccounts (.repeated 3) (.repeated 4)) 3 100 ∧
      HoldsTokens (swapAccounts (.repeated 3) (.repeated 4)) 4 100 := by
    unfold HoldsTokens
    decide
  obtain rfl := Option.some.inj (hx.symm.trans hreserves.1)
  obtain rfl := Option.some.inj (hy.symm.trans hreserves.2)
  exact ⟨out, x', y', hx', hy', hout, hle⟩

/-! ## Depositing and withdrawing -/

/-- The LP tokens for what may be taken at most: the smaller of two quotes. -/
def lpFor (pool : PoolState) (x y maxA maxB : Nat) : Nat :=
  min (maxA * pool.lpSupply.toNat / max x 1) (maxB * pool.lpSupply.toNat / max y 1)

/-- What `lp` LP tokens are of a reserve. -/
def shareOf (pool : PoolState) (reserve lp : Nat) : Nat := lp * reserve / pool.lpSupply.toNat

/-- A depositor got `lp` LP tokens for `a` and `b`. -/
structure LiquidityAdded (accounts out : List AccountInfo) (pool : PoolState) (a b lp : Nat) :
    Prop where
  supply : ∃ pool', recordAt PoolState out 0 = some pool' ∧
    pool'.lpSupply.toNat = pool.lpSupply.toNat + lp
  sources : Paid accounts out 1 a ∧ Paid accounts out 2 b
  reserves : Received accounts out 3 a ∧ Received accounts out 4 b
  tokens : Received accounts out 5 lp ∧ Issued accounts out 7 lp

/-- Somebody gave `lp` LP tokens back for `a` and `b`. -/
structure LiquidityTaken (accounts out : List AccountInfo) (pool : PoolState) (a b lp : Nat) :
    Prop where
  supply : ∃ pool', recordAt PoolState out 0 = some pool' ∧
    pool'.lpSupply.toNat + lp = pool.lpSupply.toNat
  reserves : Paid accounts out 3 a ∧ Paid accounts out 4 b

/-- The products of what a deposit may take with the LP supply are `u64`s. -/
def ProductsFit (pool : PoolState) (maxA maxB : Nat) : Prop :=
  maxA * pool.lpSupply.toNat < 2 ^ 64 ∧ maxB * pool.lpSupply.toNat < 2 ^ 64

section
variable {π : Profile} {hasher : Lending.Hasher} {timestamp : UInt64}
  {accounts mid out : List AccountInfo} {data : List UInt8} {pool : PoolState} {x y : Nat}
  {th th' : Thread}

theorem reserveBalance_holds {i : Nat} {r : UInt64} (hx : HoldsTokens accounts i x)
    (h : reserveBalance accounts i = .ok r) : r.toNat = x :=
  Option.some.inj ((holdsTokens_of_balance h).symm.trans hx)

/-- The amounts of a deposit into a pool that has LP tokens. -/
theorem depositAmounts_shares {maxA maxB a b userLp delta : UInt64} (hlive : pool.lpSupply ≠ 0)
    (hx : HoldsTokens accounts 3 x) (hy : HoldsTokens accounts 4 y)
    (h : depositAmounts π accounts pool maxA maxB = .ok (a, b, userLp, delta)) :
    ProductsFit pool maxA.toNat maxB.toNat ∧
      userLp.toNat = lpFor pool x y maxA.toNat maxB.toNat ∧ userLp = delta ∧
      a.toNat = shareOf pool x userLp.toNat ∧ b.toNat = shareOf pool y userLp.toNat := by
  unfold depositAmounts at h
  rw [if_neg hlive] at h
  obtain ⟨reserveA, hreserveA, h₁⟩ := bind_eq_ok.mp h
  obtain ⟨reserveB, hreserveB, h₂⟩ := bind_eq_ok.mp h₁
  obtain ⟨lpA, hlpA, h₃⟩ := bind_eq_ok.mp h₂
  obtain ⟨lpB, hlpB, h₄⟩ := bind_eq_ok.mp h₃
  obtain ⟨actualA, hactualA, h₅⟩ := bind_eq_ok.mp h₄
  obtain ⟨actualB, hactualB, h₆⟩ := bind_eq_ok.mp h₅
  cases h₆
  obtain rfl := reserveBalance_holds hx hreserveA
  obtain rfl := reserveBalance_holds hy hreserveB
  obtain ⟨hfitsA, hquoteA⟩ := swap_mulDiv_eq_ok hlpA
  obtain ⟨hfitsB, hquoteB⟩ := swap_mulDiv_eq_ok hlpB
  obtain ⟨-, hshareA⟩ := swap_mulDiv_eq_ok hactualA
  obtain ⟨-, hshareB⟩ := swap_mulDiv_eq_ok hactualB
  have hlp : (min lpA lpB).toNat =
      lpFor pool reserveA.toNat reserveB.toNat maxA.toNat maxB.toNat := by
    rw [toNat_min, hquoteA, hquoteB, toNat_max, toNat_max]
    rfl
  exact ⟨⟨hfitsA, hfitsB⟩, hlp, rfl, hshareA, hshareB⟩

/-- The two transfers and the issue of a deposit. -/
theorem deposit_moves {maxA maxB least : UInt64}
    (hpool : recordAt PoolState accounts 0 = some pool)
    (h : Comp.Returns (Swap.run π accounts (.deposit maxA maxB least)) th mid th') :
    ∃ a b userLp delta, depositAmounts π accounts pool maxA maxB = .ok (a, b, userLp, delta) ∧
      (∃ pool', recordAt PoolState mid 0 = some pool' ∧
        pool'.lpSupply.toNat = pool.lpSupply.toNat + delta.toNat) ∧
      (Paid accounts mid 1 a.toNat ∧ Paid accounts mid 2 b.toNat) ∧
      (Received accounts mid 3 a.toNat ∧ Received accounts mid 4 b.toNat) ∧
      Received accounts mid 5 userLp.toNat ∧ Issued accounts mid 7 userLp.toNat := by
  obtain ⟨p, pool', a, b, userLp, delta, lpSupply, paidA, paidB, minted, _, _, hload, hamounts,
    hpayA, hpayB, hmint, hsum, hsync, hstore⟩ := deposit_stages h
  obtain rfl := Option.some.inj (hpool.symm.trans hload)
  obtain ⟨_, _, _, _, _, _, hpaidA, -, -, hleftA, hamountA⟩ :=
    transfer_call (by decide) (by decide) (by decide) hpayA
  obtain ⟨_, _, _, _, _, _, hpaidB, -, -, hleftB, hamountB⟩ :=
    transfer_call (by decide) (by decide) (by decide) hpayB
  obtain ⟨_, _, _, _, _, _, hminted, -, -, hissued, hcredited⟩ :=
    mintTo_call (by decide) (by decide) (by decide) hmint
  -- What the later steps leave alone, and the earlier ones.
  have hstored : ∀ (α : Type) [Borsh α] n, n ≠ 0 → recordAt α mid n = recordAt α minted n :=
    fun _ _ n hn => recordAt_unstored hstore hn
  have hlast : ∀ n, n ≠ 0 → n ≠ 7 → n ≠ 5 →
      recordAt TokenAccountState mid n = recordAt TokenAccountState paidB n :=
    fun n hn h₇ h₅ => (hstored _ n hn).trans (hminted.recordAt_other h₇ h₅)
  have hsecond : ∀ n, n ≠ 0 → n ≠ 7 → n ≠ 5 → n ≠ 2 → n ≠ 4 →
      recordAt TokenAccountState mid n = recordAt TokenAccountState paidA n :=
    fun n hn h₇ h₅ h₂ h₄ => (hlast n hn h₇ h₅).trans (hpaidB.recordAt_other h₂ h₄)
  have hgiven : ∀ n, n ≠ 1 → n ≠ 3 →
      recordAt TokenAccountState accounts n = recordAt TokenAccountState paidA n :=
    fun n h₁ h₃ => (hpaidA.recordAt_other h₁ h₃).symm
  have hgiven' : ∀ (α : Type) [Borsh α] n, n ≠ 1 → n ≠ 3 → n ≠ 2 → n ≠ 4 →
      recordAt α accounts n = recordAt α paidB n :=
    fun _ _ n h₁ h₃ h₂ h₄ =>
      ((hpaidB.recordAt_other h₂ h₄).trans (hpaidA.recordAt_other h₁ h₃)).symm
  refine ⟨a, b, userLp, delta, hamounts, ⟨pool', recordAt_stored hstore, ?_⟩, ⟨?_, ?_⟩, ⟨?_, ?_⟩,
    ?_, ?_⟩
  · rw [(syncReservesAb_cached hsync).2]
    exact hsum
  · exact (hpaidA.changed (by decide) ⟨rfl, hleftA⟩).congr rfl
      (hsecond 1 (by decide) (by decide) (by decide) (by decide) (by decide))
  · exact (hpaidB.changed (by decide) ⟨rfl, hleftB⟩).congr (hgiven 2 (by decide) (by decide))
      (hlast 2 (by decide) (by decide) (by decide))
  · exact (hpaidA.changed' (by decide) ⟨rfl, hamountA⟩).congr rfl
      (hsecond 3 (by decide) (by decide) (by decide) (by decide) (by decide))
  · exact (hpaidB.changed' (by decide) ⟨rfl, hamountB⟩).congr (hgiven 4 (by decide) (by decide))
      (hlast 4 (by decide) (by decide) (by decide))
  · exact (hminted.changed' (by decide) ⟨rfl, hcredited⟩).congr
      (hgiven' _ 5 (by decide) (by decide) (by decide) (by decide)) (hstored _ 5 (by decide))
  · exact (hminted.changed (by decide) ⟨rfl, hissued⟩).congr
      (hgiven' _ 7 (by decide) (by decide) (by decide) (by decide)) (hstored _ 7 (by decide))

/-- A deposit into a pool that has LP tokens. -/
theorem deposit_shares {maxA maxB least : UInt64}
    (hpool : recordAt PoolState accounts 0 = some pool) (hlive : pool.lpSupply ≠ 0)
    (hx : HoldsTokens accounts 3 x) (hy : HoldsTokens accounts 4 y)
    (h : Comp.Returns (Swap.run π accounts (.deposit maxA maxB least)) th mid th') :
    ProductsFit pool maxA.toNat maxB.toNat ∧ ∃ lp,
      lp = lpFor pool x y maxA.toNat maxB.toNat ∧
      LiquidityAdded accounts mid pool (shareOf pool x lp) (shareOf pool y lp) lp := by
  obtain ⟨a, b, userLp, delta, hamounts, hsupply, hpaid, hreceived, htokens⟩ :=
    deposit_moves hpool h
  obtain ⟨hfit, hlp, rfl, ha, hb⟩ := depositAmounts_shares hlive hx hy hamounts
  refine ⟨hfit, userLp.toNat, hlp, ?_⟩
  rw [← ha, ← hb]
  exact ⟨hsupply, hpaid, hreceived, htokens⟩

/-- The two payments of a withdrawal. More LP tokens than there are cannot be taken off the supply,
    so a payment is a part of its reserve and is not truncated. -/
theorem withdraw_shares {lpAmount leastA leastB : UInt64}
    (hpool : recordAt PoolState accounts 0 = some pool)
    (hx : HoldsTokens accounts 3 x) (hy : HoldsTokens accounts 4 y)
    (h : Comp.Returns (Swap.run π accounts (.withdraw lpAmount leastA leastB)) th mid th') :
    lpAmount.toNat ≤ pool.lpSupply.toNat ∧ LiquidityTaken accounts mid pool
      (shareOf pool x lpAmount.toNat) (shareOf pool y lpAmount.toNat) lpAmount.toNat := by
  obtain ⟨p, pool', reserveA, reserveB, outA, outB, lpSupply, burned, paidA, paidB, _, _, hload,
    hreserveA, hreserveB, houtA, houtB, hburn, hpayA, hpayB, hsub, hsync, hstore⟩ :=
    withdraw_stages h
  obtain rfl := Option.some.inj (hpool.symm.trans hload)
  have hle : lpAmount.toNat ≤ pool.lpSupply.toNat := by omega
  have hpart : ∀ (reserve out : UInt64), mulDivWide reserve.toNat lpAmount.toNat
      pool.lpSupply.toNat = .ok out → out.toNat = shareOf pool reserve.toNat lpAmount.toNat := by
    intro reserve out hout
    have hfits : reserve.toNat * lpAmount.toNat / pool.lpSupply.toNat < 2 ^ 64 :=
      Nat.lt_of_le_of_lt (Nat.div_le_of_le_mul (by
        rw [Nat.mul_comm]
        exact Nat.mul_le_mul_right _ hle)) reserve.toNat_lt
    rw [mulDivWide_eq_ok hout hfits, shareOf, Nat.mul_comm]
  obtain rfl := reserveBalance_holds hx hreserveA
  obtain rfl := reserveBalance_holds hy hreserveB
  obtain ⟨_, _, _, _, _, _, hburned, -, -, -⟩ :=
    burn_call (by decide) (by decide) (by decide) hburn
  obtain ⟨_, _, _, _, _, _, hpaidA, -, -, hleftA, -⟩ :=
    transfer_call (by decide) (by decide) (by decide) hpayA
  obtain ⟨_, _, _, _, _, _, hpaidB, -, -, hleftB, -⟩ :=
    transfer_call (by decide) (by decide) (by decide) hpayB
  refine ⟨hle, ⟨pool', recordAt_stored hstore, ?_⟩, ?_, ?_⟩
  · rw [(syncReservesAb_cached hsync).2]
    exact hsub
  · rw [← hpart reserveA outA houtA]
    exact (hpaidA.changed (by decide) ⟨rfl, hleftA⟩).congr
      (hburned.recordAt_other (by decide) (by decide)).symm
      ((recordAt_unstored hstore (by decide)).trans
        (hpaidB.recordAt_other (by decide) (by decide)))
  · rw [← hpart reserveB outB houtB]
    exact (hpaidB.changed (by decide) ⟨rfl, hleftB⟩).congr
      ((hpaidA.recordAt_other (by decide) (by decide)).trans
        (hburned.recordAt_other (by decide) (by decide))).symm
      (recordAt_unstored hstore (by decide))

/-! ## What backs an LP token -/

/-- The instructions that change the liquidity of a pool. -/
inductive LiquidityMove where
  | deposit (maxA maxB least : UInt64)
  | withdraw (lpAmount leastA leastB : UInt64)
deriving DecidableEq

def LiquidityMove.instruction : LiquidityMove → SwapInstruction
  | .deposit maxA maxB least => .deposit maxA maxB least
  | .withdraw lpAmount leastA leastB => .withdraw lpAmount leastA leastB

/-- What backs an LP token of either reserve is no less than it was. -/
def Undiluted (accounts out : List AccountInfo) : Prop :=
  ∃ pool pool', recordAt PoolState accounts 0 = some pool ∧ recordAt PoolState out 0 = some pool' ∧
    ∀ i, i = 3 ∨ i = 4 → ∃ reserve reserve', HoldsTokens accounts i reserve ∧
      HoldsTokens out i reserve' ∧
      reserve * pool'.lpSupply.toNat ≤ reserve' * pool.lpSupply.toNat

/-- A deposit takes exactly its share of both reserves. -/
def TakesShare (pool : PoolState) (x y : Nat) : LiquidityMove → Prop
  | .deposit maxA maxB _ =>
      pool.lpSupply.toNat ∣ lpFor pool x y maxA.toNat maxB.toNat * x ∧
        pool.lpSupply.toNat ∣ lpFor pool x y maxA.toNat maxB.toNat * y
  | .withdraw _ _ _ => True

instance (pool : PoolState) (x y : Nat) : DecidablePred (TakesShare pool x y)
  | .deposit _ _ _ => inferInstanceAs (Decidable (_ ∧ _))
  | .withdraw _ _ _ => isTrue trivial

/-- **When nobody is diluted.** A deposit or a withdrawal that succeeds on a pool with LP tokens
    leaves at least as much of each token behind an LP token exactly where, if it is a deposit, what
    it takes was not rounded down. -/
theorem undiluted_iff {move : LiquidityMove} (hdata : tryFromSlice data = some move.instruction)
    (hpool : recordAt PoolState accounts 0 = some pool) (hlive : pool.lpSupply ≠ 0)
    (hx : HoldsTokens accounts 3 x) (hy : HoldsTokens accounts 4 y)
    (h : Comp.Returns (dispatch π hasher ProgramIds.swapProgram accounts data timestamp) th out
      th') :
    Undiluted accounts out ↔ TakesShare pool x y move := by
  obtain ⟨mid, _, _, hrun, hread⟩ := swap_returns hdata h
  cases move with
  | deposit maxA maxB least =>
    obtain ⟨-, lp, hlp, hdone⟩ := deposit_shares hpool hlive hx hy hrun
    obtain ⟨pool', hpool', hsupply⟩ := hdone.supply
    have hx' := Received.holds (hdone.reserves.1.congr rfl (hread _ 3)) hx
    have hy' := Received.holds (hdone.reserves.2.congr rfl (hread _ 4)) hy
    have hprice : ∀ reserve : Nat, reserve * pool'.lpSupply.toNat ≤
        (reserve + shareOf pool reserve lp) * pool.lpSupply.toNat ↔
          pool.lpSupply.toNat ∣ lp * reserve := by
      intro reserve
      rw [hsupply, Ratio.issue_le_iff]
      exact Ratio.issue_price_iff
    change Undiluted accounts out ↔
      pool.lpSupply.toNat ∣ lpFor pool x y maxA.toNat maxB.toNat * x ∧
        pool.lpSupply.toNat ∣ lpFor pool x y maxA.toNat maxB.toNat * y
    rw [← hlp, ← hprice, ← hprice]
    constructor
    · rintro ⟨p, p', hp, hp', hbacked⟩
      obtain rfl := Option.some.inj (hpool.symm.trans hp)
      obtain rfl := Option.some.inj (hpool'.symm.trans ((hread _ 0).symm.trans hp'))
      obtain ⟨r, r', hr, hr', hle⟩ := hbacked 3 (.inl rfl)
      obtain ⟨q, q', hq, hq', hle'⟩ := hbacked 4 (.inr rfl)
      obtain rfl := Option.some.inj (hx.symm.trans hr)
      obtain rfl := Option.some.inj (hx'.symm.trans hr')
      obtain rfl := Option.some.inj (hy.symm.trans hq)
      obtain rfl := Option.some.inj (hy'.symm.trans hq')
      exact ⟨hle, hle'⟩
    · rintro ⟨hle, hle'⟩
      refine ⟨pool, pool', hpool, (hread _ 0).trans hpool', fun i hi => ?_⟩
      rcases hi with rfl | rfl
      · exact ⟨_, _, hx, hx', hle⟩
      · exact ⟨_, _, hy, hy', hle'⟩
  | withdraw lpAmount leastA leastB =>
    obtain ⟨hle, hdone⟩ := withdraw_shares hpool hx hy hrun
    obtain ⟨pool', hpool', hsupply⟩ := hdone.supply
    have hx' := Paid.holds (hdone.reserves.1.congr rfl (hread _ 3)) hx
    have hy' := Paid.holds (hdone.reserves.2.congr rfl (hread _ 4)) hy
    have hprice : ∀ reserve : Nat, reserve * pool'.lpSupply.toNat ≤
        (reserve - shareOf pool reserve lpAmount.toNat) * pool.lpSupply.toNat := by
      intro reserve
      have hpart : shareOf pool reserve lpAmount.toNat ≤ reserve :=
        Nat.div_le_of_le_mul (Nat.mul_le_mul_right _ hle)
      rw [Nat.eq_sub_of_add_eq hsupply, Ratio.redeem_le_iff hpart hle, Nat.mul_comm reserve]
      exact Nat.div_mul_le_self _ _
    refine iff_of_true ⟨pool, pool', hpool, (hread _ 0).trans hpool', fun i hi => ?_⟩ trivial
    rcases hi with rfl | rfl
    · exact ⟨_, _, hx, hx', hprice x⟩
    · exact ⟨_, _, hy, hy', hprice y⟩

end

/-- The accounts of a deposit into a pool with `supply` LP tokens, of which 1000 are locked, and `x`
    and `y` in its reserves. The user has 10000 of each. -/
def poolAccounts (x y supply : UInt64) : List AccountInfo :=
  [recordAccount (.repeated 0) ProgramIds.swapProgram
      { poolOf with lpMint := .repeated 7, reserveA := x, reserveB := y, lpSupply := supply },
    tokens (.repeated 1) (.repeated 8) (.repeated 6) 10000,
    tokens (.repeated 2) (.repeated 9) (.repeated 6) 10000,
    tokens (.repeated 3) (.repeated 8) (.repeated 0) x,
    tokens (.repeated 4) (.repeated 9) (.repeated 0) y,
    tokens (.repeated 5) (.repeated 7) (.repeated 6) 0,
    { key := .repeated 6, lamports := 0, data := [], owner := ProgramIds.systemProgram
      isSigner := true, isWritable := false },
    recordAccount (.repeated 7) ProgramIds.tokenProgram
      ({ mintAuthority := some (.repeated 6), supply := supply - 1000
         isInitialized := true } : MintState)]
where
  tokens (key mint owner : Pubkey) (amount : UInt64) : AccountInfo :=
    recordAccount key ProgramIds.tokenProgram
      ({ mint, owner, amount, state := .initialized } : TokenAccountState)

def depositUpTo (maxA maxB : UInt64) : List UInt8 :=
  (toVec (SwapInstruction.deposit maxA maxB 0)).getD []

/-- What a deposit of at most `maxA` and `maxB` leaves of them. -/
def depositedIn (accounts : List AccountInfo) (maxA maxB : UInt64) :
    Except Fault (List AccountInfo) :=
  (Comp.exec (dispatch .dev .sorted ProgramIds.swapProgram accounts (depositUpTo maxA maxB) 0) {}).1

/-- A deposit of a tenth of both reserves. -/
theorem undiluted_tenth : ∃ out, depositedIn (poolAccounts 2000 4000 3000) 200 400 = .ok out ∧
    Undiluted (poolAccounts 2000 4000 3000) out := by
  have hruns : (depositedIn (poolAccounts 2000 4000 3000) 200 400).isOk = true := by
    decide +kernel
  obtain ⟨out, hout⟩ := exists_of_isOk hruns
  have hdata : tryFromSlice (depositUpTo 200 400) =
      some (LiquidityMove.deposit 200 400 0).instruction := by decide
  have hpool : recordAt PoolState (poolAccounts 2000 4000 3000) 0 = some { poolOf with
      lpMint := .repeated 7, reserveA := 2000, reserveB := 4000, lpSupply := 3000 } := by
    decide +kernel
  have hreserves : HoldsTokens (poolAccounts 2000 4000 3000) 3 2000 ∧
      HoldsTokens (poolAccounts 2000 4000 3000) 4 4000 := by
    unfold HoldsTokens
    decide
  exact ⟨out, hout, (undiluted_iff hdata hpool (by decide) hreserves.1 hreserves.2
    (Comp.returns_of_ok hout)).mpr (by decide)⟩

/-- **An LP token for nothing.** With 1000 and 2250 behind 1500 LP tokens, one is minted for none of
    the first and 1 of the second. -/
theorem token_for_nothing : ¬ ∀ (π : Profile) (hasher : Lending.Hasher) (move : LiquidityMove)
    (accounts out : List AccountInfo) (data : List UInt8) (timestamp : UInt64) (pool : PoolState),
    tryFromSlice data = some move.instruction → RecordedListed accounts data →
    recordAt PoolState accounts 0 = some pool → pool.isInitialized = true → pool.lpSupply ≠ 0 →
    (Comp.exec (dispatch π hasher ProgramIds.swapProgram accounts data timestamp) {}).1 = .ok out →
    Undiluted accounts out := by
  intro hclaim
  have hruns : (depositedIn (poolAccounts 1000 2250 1500) 1 2).isOk = true := by decide +kernel
  obtain ⟨out, hout⟩ := exists_of_isOk hruns
  have hafter : Gives (depositedIn (poolAccounts 1000 2250 1500) 1 2) fun out =>
      (recordAt PoolState out 0).map (·.lpSupply) = some 1501 ∧
        (recordAt TokenAccountState out 3).map (·.amount.toNat) = some 1000 := by
    decide +kernel
  have hpool : recordAt PoolState (poolAccounts 1000 2250 1500) 0 = some { poolOf with
      lpMint := .repeated 7, reserveA := 1000, reserveB := 2250, lpSupply := 1500 } := by
    decide +kernel
  have hreserve : (recordAt TokenAccountState (poolAccounts 1000 2250 1500) 3).map
      (·.amount.toNat) = some 1000 := by decide
  obtain ⟨p, p', hp, hp', hbacked⟩ := hclaim .dev .sorted (.deposit 1 2 0)
    (poolAccounts 1000 2250 1500) out (depositUpTo 1 2) 0 _ (by decide +kernel) (by decide +kernel)
    hpool rfl (by decide) hout
  obtain ⟨reserve, reserve', hr, hr', hle⟩ := hbacked 3 (.inl rfl)
  obtain ⟨hsupply, hleft⟩ := hafter out hout
  obtain rfl := Option.some.inj (hpool.symm.trans hp)
  obtain rfl := Option.some.inj (hreserve.symm.trans hr)
  obtain rfl := Option.some.inj (hleft.symm.trans hr')
  rw [hp', Option.map_some, Option.some.injEq] at hsupply
  rw [hsupply] at hle
  exact absurd hle (by decide)

/-! ## The first deposit -/

/-- The amounts of a deposit into a pool without LP tokens: all that is offered is taken, and the
    root of the product is minted, of which the minimum stays locked. -/
theorem depositAmounts_first {π : Profile} {accounts : List AccountInfo} {pool : PoolState}
    {maxA maxB a b userLp delta : UInt64} (hnone : pool.lpSupply = 0)
    (h : depositAmounts π accounts pool maxA maxB = .ok (a, b, userLp, delta)) :
    a = maxA ∧ b = maxB ∧ delta.toNat = Nat.sqrt (maxA.toNat * maxB.toNat) ∧
      userLp.toNat + minimumLiquidity.toNat = delta.toNat := by
  unfold depositAmounts at h
  rw [if_pos hnone] at h
  obtain ⟨product, hproduct, h₁⟩ := bind_eq_ok.mp h
  obtain ⟨lp, hlp, h₂⟩ := bind_eq_ok.mp h₁
  obtain ⟨granted, hgranted, h₃⟩ := bind_eq_ok.mp h₂
  cases h₃
  obtain ⟨r, hr, hroot⟩ := integerSqrt_root π product
  obtain rfl : r = delta := Option.some.inj (hr.symm.trans (orPanic_eq_ok.mp hlp))
  refine ⟨rfl, rfl, ?_, checkedSub_eq_some (okOr_eq_ok.mp hgranted)⟩
  rw [hroot, (checkedMul_eq_some (okOr_eq_ok.mp hproduct)).2]

/-- **The integer square root, and what it is for.** `integer_sqrt` ends, without an overflow in
    either build, in the root rounded down. So the first depositor of a pool gets the root of the
    product of what was offered, but for the minimum. -/
theorem first_depositor_gets_root (π : Profile) (hasher : Lending.Hasher) :
    (∀ n : UInt64, (n / 2 + n % 2).toNat = (n.toNat + 1) / 2 ∧
      ∃ r, integerSqrt π n = some r ∧ r.toNat * r.toNat ≤ n.toNat ∧
        n.toNat < (r.toNat + 1) * (r.toNat + 1)) ∧
    ∀ (accounts out : List AccountInfo) (data : List UInt8) (timestamp : UInt64)
      (maxA maxB least : UInt64) (pool : PoolState) (th th' : Thread),
      tryFromSlice data = some (SwapInstruction.deposit maxA maxB least) →
      recordAt PoolState accounts 0 = some pool → pool.lpSupply = 0 →
      Comp.Returns (dispatch π hasher ProgramIds.swapProgram accounts data timestamp) th out th' →
      minimumLiquidity.toNat ≤ Nat.sqrt (maxA.toNat * maxB.toNat) ∧
      Received accounts out 5 (Nat.sqrt (maxA.toNat * maxB.toNat) - minimumLiquidity.toNat) := by
  refine ⟨fun n => ⟨divCeil_two n, ?_⟩, ?_⟩
  · obtain ⟨r, hr, hroot⟩ := integerSqrt_root π n
    exact ⟨r, hr, Nat.eq_sqrt.mp hroot⟩
  · intro accounts out data timestamp maxA maxB least pool th th' hdata hpool hnone h
    obtain ⟨mid, th₀, th₁, hrun, hread⟩ := swap_returns hdata h
    obtain ⟨a, b, userLp, delta, hamounts, -, -, -, htokens, -⟩ := deposit_moves hpool hrun
    obtain ⟨-, -, hdelta, hsplit⟩ := depositAmounts_first hnone hamounts
    rw [hdelta] at hsplit
    have hgets : userLp.toNat =
        Nat.sqrt (maxA.toNat * maxB.toNat) - minimumLiquidity.toNat := by omega
    rw [← hgets]
    exact ⟨by omega, htokens.congr rfl (hread _ 5)⟩

/-- A pool that nobody deposited into. -/
def emptyPoolAccounts : List AccountInfo :=
  (poolAccounts 0 0 0).set 7 (recordAccount (.repeated 7) ProgramIds.tokenProgram
    ({ mintAuthority := some (.repeated 6), isInitialized := true } : MintState))

/-- For 2000 and 8001, of which the root is 4000, the first depositor gets 3000. -/
theorem first_depositor_gets_3000 : ∃ out, depositedIn emptyPoolAccounts 2000 8001 = .ok out ∧
    Received emptyPoolAccounts out 5 3000 := by
  have hruns : (depositedIn emptyPoolAccounts 2000 8001).isOk = true := by decide +kernel
  obtain ⟨out, hout⟩ := exists_of_isOk hruns
  have hdata : tryFromSlice (depositUpTo 2000 8001) =
      some (SwapInstruction.deposit 2000 8001 0) := by decide
  have hpool : recordAt PoolState emptyPoolAccounts 0 = some { poolOf with
      lpMint := .repeated 7, reserveA := 0, reserveB := 0, lpSupply := 0 } := by
    decide +kernel
  have hroot : Nat.sqrt ((2000 : UInt64).toNat * (8001 : UInt64).toNat) = 4000 :=
    (Nat.eq_sqrt.mpr (by decide)).symm
  obtain ⟨-, hgets⟩ := (first_depositor_gets_root .dev .sorted).2 _ out _ 0 2000 8001 0 _ _ _ hdata
    hpool rfl (Comp.returns_of_ok hout)
  rw [hroot] at hgets
  exact ⟨out, hout, hgets⟩

end Proof
end Himsha
