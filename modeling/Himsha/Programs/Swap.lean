import Himsha.Programs.Token

/-!
# The swap program — a constant-product pool

Reserves are read live from the two token accounts that are passed as the pool's reserves; the
pool only caches them. Every movement of tokens is an invocation of the token program.
-/

set_option autoImplicit false

namespace Himsha
namespace Programs
namespace Swap

open Himsha.Lib Himsha.Runtime Token

/-- LP tokens permanently locked on the first deposit. -/
def minimumLiquidity : UInt64 := 1000

structure PoolState where
  tokenAMint : Pubkey := default
  tokenBMint : Pubkey := default
  tokenAReserve : Pubkey := default
  tokenBReserve : Pubkey := default
  lpMint : Pubkey := default
  feeNumerator : UInt64 := 0
  feeDenominator : UInt64 := 0
  reserveA : UInt64 := 0
  reserveB : UInt64 := 0
  lpSupply : UInt64 := 0
  isInitialized : Bool := false
deriving DecidableEq

def PoolState.fields (p : PoolState) :=
  (p.tokenAMint, p.tokenBMint, p.tokenAReserve, p.tokenBReserve, p.lpMint, p.feeNumerator,
    p.feeDenominator, p.reserveA, p.reserveB, p.lpSupply, p.isInitialized)

def PoolState.ofFields : Pubkey × Pubkey × Pubkey × Pubkey × Pubkey × UInt64 × UInt64 × UInt64 ×
    UInt64 × UInt64 × Bool → PoolState
  | (am, bm, ar, br, lp, fn, fd, ra, rb, ls, i) => ⟨am, bm, ar, br, lp, fn, fd, ra, rb, ls, i⟩

instance : Borsh PoolState := .iso PoolState.fields PoolState.ofFields fun _ => rfl

instance : Canonical PoolState := .iso (fun _ => rfl) fun _ => rfl

instance : Sized PoolState := .iso fun _ => rfl

theorem pool_not_mint {data : List UInt8} {pool : PoolState} (h : tryFromSlice data = some pool) :
    tryFromSlice (α := MintState) data = none :=
  tryFromSlice_disjoint (by decide) h

inductive SwapInstruction where
  /-- `[0]` = pool, `[1]` = token A mint, `[2]` = token B mint, `[3]` = reserve A,
      `[4]` = reserve B, `[5]` = LP mint, `[6]` = payer. -/
  | initializePool (feeNumerator feeDenominator : UInt64)
  /-- `[0]` = pool, `[1]` = user source, `[2]` = user destination, `[3]` = reserve in,
      `[4]` = reserve out, `[5]` = user. -/
  | swap (amountIn minAmountOut : UInt64)
  /-- `[0]` = pool, `[1]` = user A, `[2]` = user B, `[3]` = reserve A, `[4]` = reserve B,
      `[5]` = user LP, `[6]` = user, `[7]` = LP mint. -/
  | deposit (maxA maxB minLp : UInt64)
  /-- The accounts of `deposit`. -/
  | withdraw (lpAmount minA minB : UInt64)
deriving DecidableEq

namespace SwapInstruction

def ser : SwapInstruction → Option (List UInt8)
  | .initializePool fn fd => tag 0 (fn, fd)
  | .swap amountIn minOut => tag 1 (amountIn, minOut)
  | .deposit maxA maxB minLp => tag 2 (maxA, maxB, minLp)
  | .withdraw lp minA minB => tag 3 (lp, minA, minB)

def de : List UInt8 → Option (SwapInstruction × List UInt8)
  | 0 :: bs => untag (fun (fn, fd) => .initializePool fn fd) bs
  | 1 :: bs => untag (fun (i, o) => .swap i o) bs
  | 2 :: bs => untag (fun (a, b, l) => .deposit a b l) bs
  | 3 :: bs => untag (fun (l, a, b) => .withdraw l a b) bs
  | _ => none

instance : Borsh SwapInstruction where
  ser := ser
  de := de
  de_ser := by
    intro ix bs h rest
    cases ix <;>
    · obtain ⟨pre, rfl, hde⟩ := untag_tag (β := SwapInstruction) h
      simp only [List.cons_append, de, hde]

end SwapInstruction

/-- The Newton loop of `integer_sqrt`. `none` is a division by zero, or the overflow panic of
    `x + n / x`. -/
def sqrtLoop (π : Profile) (n x y : UInt64) : Option UInt64 :=
  if y < x then
    (divU64 n y).bind fun q => (addU64 π y q).bind fun s => sqrtLoop π n y (s / 2)
  else some x
termination_by x.toNat
decreasing_by exact UInt64.lt_iff_toNat_lt.mp ‹_›

def integerSqrt (π : Profile) (n : UInt64) : Option UInt64 :=
  if n = 0 then some 0 else sqrtLoop π n n (n / 2 + n % 2)

/-- A reserve token account's current balance. -/
def reserveBalance (accounts : List AccountInfo) (i : Nat) : Outcome UInt64 := do
  let token : TokenAccountState ← load accounts i
  return token.amount

/-- Refresh the cached reserves from `accounts[3]` and `accounts[4]`, mapping each side back to
    A or B by the recorded key. -/
def syncReserves (accounts : List AccountInfo) (pool : PoolState) : Outcome PoolState := do
  let inBal ← reserveBalance accounts 3
  let outBal ← reserveBalance accounts 4
  if (← slot accounts 3).key == pool.tokenAReserve then
    return { pool with reserveA := inBal, reserveB := outBal }
  else return { pool with reserveA := outBal, reserveB := inBal }

/-- The same where `accounts[3]` is always A and `accounts[4]` always B. -/
def syncReservesAb (accounts : List AccountInfo) (pool : PoolState) : Outcome PoolState := do
  let reserveA ← reserveBalance accounts 3
  let reserveB ← reserveBalance accounts 4
  return { pool with reserveA, reserveB }

/-- `a.checked_mul(b)?.checked_div(c)?` on `u64`. -/
def mulDiv (a b c : UInt64) : Outcome UInt64 := do
  okOr .overflow (checkedDiv (← okOr .overflow (checkedMul a b)) c)

/-- The same on `u128`, the result cast to `u64`. -/
def mulDivWide (a b c : Nat) : Outcome UInt64 := do
  return asU64 (← okOr .overflow (divU128 (← okOr .overflow (checkedU128 (a * b))) c))

/-- What a swap pays out, before the slippage check. -/
def amountOut (pool : PoolState) (reserveIn reserveOut amountIn : UInt64) : Outcome UInt64 := do
  let feeAmount ← mulDiv amountIn pool.feeNumerator pool.feeDenominator
  let afterFee ← okOr .overflow (checkedSub amountIn feeAmount)
  let denominator ← okOr .overflow (checkedU128 (reserveIn.toNat + afterFee.toNat))
  mulDivWide reserveOut.toNat afterFee.toNat denominator

/-- What a deposit takes and mints: A, B, LP to the user, LP added to the supply. -/
def depositAmounts (π : Profile) (accounts : List AccountInfo) (pool : PoolState)
    (maxA maxB : UInt64) : Outcome (UInt64 × UInt64 × UInt64 × UInt64) := do
  if pool.lpSupply = 0 then
    let product ← okOr .overflow (checkedMul maxA maxB)
    let lp ← orPanic (integerSqrt π product)
    let userLp ← okOr .insufficientFunds (checkedSub lp minimumLiquidity)
    return (maxA, maxB, userLp, lp)
  else
    let reserveA ← reserveBalance accounts 3
    let reserveB ← reserveBalance accounts 4
    let lpA ← mulDiv maxA pool.lpSupply (max reserveA 1)
    let lpB ← mulDiv maxB pool.lpSupply (max reserveB 1)
    let lpOut := min lpA lpB
    let actualA ← mulDiv lpOut reserveA pool.lpSupply
    let actualB ← mulDiv lpOut reserveB pool.lpSupply
    return (actualA, actualB, lpOut, lpOut)

def run (π : Profile) (accounts : List AccountInfo) : SwapInstruction → Prog (List AccountInfo)
  | .initializePool feeNumerator feeDenominator => do
      require (feeDenominator != 0) .invalidInstruction
      require (decide (7 ≤ accounts.length)) .notEnoughAccounts
      let pool : PoolState ← loadOr accounts 0 {}
      require (!pool.isInitialized) .alreadyInitialized
      store accounts 0 { pool with
        tokenAMint := (← slot accounts 1).key
        tokenBMint := (← slot accounts 2).key
        tokenAReserve := (← slot accounts 3).key
        tokenBReserve := (← slot accounts 4).key
        lpMint := (← slot accounts 5).key
        feeNumerator
        feeDenominator
        isInitialized := true }
  | .swap amountIn minAmountOut => do
      require (decide (6 ≤ accounts.length)) .notEnoughAccounts
      (← slot accounts 5).requireSigner
      let pool : PoolState ← load accounts 0
      require pool.isInitialized .notInitialized
      let reserveIn ← reserveBalance accounts 3
      let reserveOut ← reserveBalance accounts 4
      require (reserveIn != 0 && reserveOut != 0) .poolEmpty
      let out ← amountOut pool reserveIn reserveOut amountIn
      require (decide (minAmountOut ≤ out)) .slippageExceeded
      let accounts ← invoke π accounts [1, 3, 5] [] (.transfer amountIn)
      -- The pool did not sign the transaction; the program signs for it.
      let accounts ← invoke π accounts [4, 2, 0] [2] (.transfer out)
      let pool ← syncReserves accounts pool
      store accounts 0 pool
  | .deposit maxA maxB minLp => do
      require (decide (8 ≤ accounts.length)) .notEnoughAccounts
      (← slot accounts 6).requireSigner
      let pool : PoolState ← load accounts 0
      let (depositA, depositB, userLp, supplyDelta) ← depositAmounts π accounts pool maxA maxB
      require (decide (minLp ≤ userLp)) .slippageExceeded
      let accounts ← invoke π accounts [1, 3, 6] [] (.transfer depositA)
      let accounts ← invoke π accounts [2, 4, 6] [] (.transfer depositB)
      let accounts ← invoke π accounts [7, 5, 6] [] (.mintTo userLp)
      let lpSupply ← okOr .overflow (checkedAdd pool.lpSupply supplyDelta)
      let pool ← syncReservesAb accounts { pool with lpSupply }
      store accounts 0 pool
  | .withdraw lpAmount minA minB => do
      require (decide (8 ≤ accounts.length)) .notEnoughAccounts
      (← slot accounts 6).requireSigner
      let pool : PoolState ← load accounts 0
      require (pool.lpSupply != 0) .poolEmpty
      let reserveA ← reserveBalance accounts 3
      let reserveB ← reserveBalance accounts 4
      let outA ← mulDivWide reserveA.toNat lpAmount.toNat pool.lpSupply.toNat
      let outB ← mulDivWide reserveB.toNat lpAmount.toNat pool.lpSupply.toNat
      require (decide (minA ≤ outA) && decide (minB ≤ outB)) .slippageExceeded
      let accounts ← invoke π accounts [5, 7, 6] [] (.burn lpAmount)
      let accounts ← invoke π accounts [3, 1, 6] [] (.transfer outA)
      let accounts ← invoke π accounts [4, 2, 6] [] (.transfer outB)
      let lpSupply ← okOr .insufficientFunds (checkedSub pool.lpSupply lpAmount)
      let pool ← syncReservesAb accounts { pool with lpSupply }
      store accounts 0 pool

def process (π : Profile) : Process := fun accounts data => do
  let ix ← okOr .invalidInstruction (tryFromSlice data)
  run π accounts ix

end Swap
end Programs
end Himsha
