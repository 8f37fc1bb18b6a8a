import Himsha.Sdk.Builtin

/-!
# `programs/lending.py` and `programs/swap.py`

The builders of the Python library. An integer that does not fit its field raises an error, and so
does a transaction id that is not 32 bytes long; the arguments are admissible where none is raised.
A `str` is taken to hold no lone surrogate, which `encode` raises an error for.
-/

set_option autoImplicit false

namespace Himsha
namespace Sdk
namespace Python

open Himsha.Lib Himsha.Runtime Himsha.Programs

/-- `struct.pack("<Q", n)`. -/
def u64 (n : Int) : Option (List UInt8) :=
  if 0 ≤ n ∧ n < 2 ^ 64 then some (leBytes 8 n.toNat) else none

/-- `struct.pack("<I", n)`. -/
def u32 (n : Int) : Option (List UInt8) :=
  if 0 ≤ n ∧ n < 2 ^ 32 then some (leBytes 4 n.toNat) else none

/-- `_str`. -/
def str (s : String) : Option (List UInt8) := do
  let encoded := Pubkey.utf8 s
  return (← u32 encoded.length) ++ encoded

/-- The check that the builders make of a transaction id. -/
def txid (bytes : List UInt8) : Option (List UInt8) :=
  if bytes.length = 32 then some bytes else none

namespace Lending

def initCollection (collection payer : Pubkey) (name : String) : Option Instruction := do
  return {
    programId := ProgramIds.lendingProgram
    accounts := [.writable collection false, .writable payer true]
    data := [0] ++ (← str name) }

def placeBid (collection lender : Pubkey) (bidTxid : List UInt8) (bidVout loanValueSats
    loanPeriodSecs : Int) (lenderOrdinalsAddr lenderPaymentsAddr : String) :
    Option Instruction := do
  let bidTxid ← txid bidTxid
  return {
    programId := ProgramIds.lendingProgram
    accounts := [.writable collection false, .readonly lender true]
    data := [1] ++ bidTxid ++ (← u32 bidVout) ++ (← u64 loanValueSats) ++ (← u64 loanPeriodSecs) ++
      (← str lenderOrdinalsAddr) ++ (← str lenderPaymentsAddr) }

def acceptBid (collection borrower : Pubkey) (inscriptionId : String)
    (inscriptionTxid : List UInt8) (inscriptionVout : Int)
    (borrowerOrdinalsAddr borrowerPaymentsAddr : String) : Option Instruction := do
  let inscriptionTxid ← txid inscriptionTxid
  return {
    programId := ProgramIds.lendingProgram
    accounts := [.writable collection false, .readonly borrower true]
    data := [2] ++ (← str inscriptionId) ++ inscriptionTxid ++ (← u32 inscriptionVout) ++
      (← str borrowerOrdinalsAddr) ++ (← str borrowerPaymentsAddr) }

def repayLoan (collection borrower : Pubkey) (inscriptionId : String) (repayTxid : List UInt8)
    (repayVout : Int) : Option Instruction := do
  let repayTxid ← txid repayTxid
  return {
    programId := ProgramIds.lendingProgram
    accounts := [.writable collection false, .readonly borrower true]
    data := [3] ++ (← str inscriptionId) ++ repayTxid ++ (← u32 repayVout) }

def claimDefault (collection lender : Pubkey) (inscriptionId : String) : Option Instruction := do
  return {
    programId := ProgramIds.lendingProgram
    accounts := [.writable collection false, .readonly lender true]
    data := [4] ++ (← str inscriptionId) }

end Lending

namespace Swap

def initializePool (pool mintA mintB reserveA reserveB lpMint payer : Pubkey)
    (feeNumerator feeDenominator : Int) : Option Instruction := do
  return {
    programId := ProgramIds.swapProgram
    accounts := [.writable pool false, .readonly mintA false, .readonly mintB false,
      .writable reserveA false, .writable reserveB false, .writable lpMint false,
      .writable payer true]
    data := [0] ++ (← u64 feeNumerator) ++ (← u64 feeDenominator) }

def swap (pool source destination reserveIn reserveOut user : Pubkey)
    (amountIn minAmountOut : Int) : Option Instruction := do
  return {
    programId := ProgramIds.swapProgram
    accounts := [.readonly pool false, .writable source false, .writable destination false,
      .writable reserveIn false, .writable reserveOut false, .readonly user true]
    data := [1] ++ (← u64 amountIn) ++ (← u64 minAmountOut) }

def deposit (pool userA userB reserveA reserveB userLp user : Pubkey) (maxA maxB minLp : Int) :
    Option Instruction := do
  return {
    programId := ProgramIds.swapProgram
    accounts := [.writable pool false, .writable userA false, .writable userB false,
      .writable reserveA false, .writable reserveB false, .writable userLp false,
      .readonly user true]
    data := [2] ++ (← u64 maxA) ++ (← u64 maxB) ++ (← u64 minLp) }

def withdraw (pool userA userB reserveA reserveB userLp user : Pubkey)
    (lpAmount minA minB : Int) : Option Instruction := do
  return {
    programId := ProgramIds.swapProgram
    accounts := [.writable pool false, .writable userA false, .writable userB false,
      .writable reserveA false, .writable reserveB false, .writable userLp false,
      .readonly user true]
    data := [3] ++ (← u64 lpAmount) ++ (← u64 minA) ++ (← u64 minB) }

end Swap

end Python
end Sdk
end Himsha
