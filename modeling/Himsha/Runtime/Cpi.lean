import Mathlib.Data.Finmap
import Himsha.Lib.Comp
import Himsha.Runtime.Account

/-!
# `compute.rs`, `owner.rs` and `cpi.rs`

What is thread-local in the source is the state of a small machine here: the trail of approved
post-states, the compute meter and the invocation depth. A program that can invoke another one
runs in `Prog`, over that state; the state survives an error, as it does in the source.

Ownership is enforced after the fact. `validateWrite` compares a snapshot with the state a
program left, and accepts what the owner did, a credit, a claim of a blank account, or a state
that an inner invocation was already validated to produce.
-/

set_option autoImplicit false

namespace Himsha
namespace Runtime

open Lib

/-- The thread-locals of one execution thread. -/
structure Thread where
  /-- Post-states approved at inner invocation boundaries. -/
  approved : Finmap fun _ : Pubkey => AccountInfo := ∅
  /-- Compute units spent so far. -/
  spent : UInt64 := 0
  /-- Current invocation depth. -/
  depth : Nat := 0

/-- A computation that can panic or return an error, over the thread-locals. -/
abbrev Prog := Comp Fault Thread

instance : MonadLift Outcome Prog := ⟨Comp.ofExcept⟩

/-- The code of a program: it maps its accounts, given the instruction data. -/
abbrev Process := List AccountInfo → List UInt8 → Prog (List AccountInfo)

/-! ## `compute.rs` -/

def computeBudget : UInt64 := 1000000

def cpiBaseCost : UInt64 := 1000

def perAccountCost : UInt64 := 100

/-- Charge `units`, or fail once the budget is exceeded. -/
def charge (units : UInt64) : Prog Unit := do
  let t ← get
  let next := saturatingAdd t.spent units
  if next > computeBudget then throw (.err .computeExhausted)
  set { t with spent := next }

/-! ## `owner.rs` -/

/-- Reset the per-execution state: the trail and the meter. -/
def beginExecution (t : Thread) : Thread := { t with approved := ∅, spent := 0 }

/-- The persisted fields of two snapshots are identical. -/
def sameState (a b : AccountInfo) : Bool :=
  a.lamports == b.lamports && a.data == b.data && a.owner == b.owner &&
    a.executable == b.executable && a.utxo == b.utxo

/-- An account nobody has claimed yet. -/
def isBlank (a : AccountInfo) : Bool :=
  a.lamports == 0 && a.data.isEmpty && !a.executable && a.utxo.isNone

/-- Everything except the balance is unchanged, and the balance did not decrease. -/
def creditOnly (pre post : AccountInfo) : Bool :=
  decide (post.lamports ≥ pre.lamports) && post.data == pre.data && post.owner == pre.owner &&
    post.executable == pre.executable && post.utxo == pre.utxo

def record (post : AccountInfo) : Prog Unit :=
  modify fun t => { t with approved := t.approved.insert post.key post }

/-- Validate one account's transition under `programId` and record the approved post-state. The
    result is the post-state, with its owner rewritten where the first writer claims it. -/
def validateWrite (programId : Pubkey) (pre post : AccountInfo) : Prog AccountInfo := do
  if sameState pre post then return post
  else if pre.owner == programId then
    record post
    return post
  else if creditOnly pre post then
    record post
    return post
  else if isBlank pre then
    let post := if post.owner == pre.owner then { post with owner := programId } else post
    record post
    return post
  else
    let t ← get
    match t.approved.lookup post.key with
    | some a => if sameState a post then return post else throw (.err .illegalOwnerWrite)
    | none => throw (.err .illegalOwnerWrite)

/-- Validate a whole account table. -/
def validateWrites (programId : Pubkey) (before after : List AccountInfo) :
    Prog (List AccountInfo) := do
  Comp.ensure (before.length == after.length) (.err .illegalOwnerWrite)
  (before.zip after).mapM fun (pre, post) => validateWrite programId pre post

/-! ## `cpi.rs` -/

def maxCpiDepth : Nat := 4

/-- Run `body` one level deeper. The guard restores the depth on every way out. -/
def withCpiDepth {α : Type} (body : Prog α) : Prog α := ExceptT.mk fun t =>
  if t.depth + 1 > maxCpiDepth then (.error (.err .cpiDepthExceeded), t)
  else
    let (r, t') := body.run { t with depth := t.depth + 1 }
    (r, { t' with depth := t'.depth - 1 })

/-- The sub-window of `accounts` named by `indices`. -/
def windowOf (accounts : List AccountInfo) (indices : List Nat) : Outcome (List AccountInfo) :=
  indices.mapM fun i => okOr .notEnoughAccounts accounts[i]?

/-- Mark the window accounts at `signers` as signers. An index out of the window is ignored. -/
def markSigners (window : List AccountInfo) (signers : List Nat) : List AccountInfo :=
  signers.foldl (fun window w => window.modify w fun a => { a with isSigner := true }) window

/-- Put the window back, but never the synthetic signer flag. -/
def writeBack (accounts window : List AccountInfo) (indices : List Nat) : List AccountInfo :=
  (window.zip indices).foldl (fun accounts (a, i) =>
    accounts.modify i fun old => { a with isSigner := old.isSigner }) accounts

/-- Invoke `process` with the sub-window of `accounts` named by `indices`, with the window
    accounts at `signers` marked as signers. The callee's mutations are owner-gated before
    anything is written back. -/
def invokeSignedIndexed (accounts : List AccountInfo) (indices signers : List Nat)
    (data : List UInt8) (calleeProgramId : Pubkey) (process : Process) :
    Prog (List AccountInfo) := do
  let window ← windowOf accounts indices
  withCpiDepth do
    charge (cpiBaseCost + perAccountCost * UInt64.ofNat indices.length)
    rejectDuplicateWritable window
    let after ← process (markSigners window signers) data
    let after ← (window.zip after).mapM fun (pre, post) => validateWrite calleeProgramId pre post
    return writeBack accounts after indices

end Runtime
end Himsha
