import Himsha.Node.Rpc

/-!
# `request_airdrop`, beside the block producer

An airdrop is a `load_account` and, some time later, a `save_account` of the whole record. The
producer's `apply` loads accounts one by one while it runs a transaction and stores them all at its
end. Both are cut at their accesses to the store, and a run is any interleaving of the pieces.

`reads` and `ledger` are history variables: what an `apply` has loaded, and the updates that were
made, in the order they were made.
-/

set_option autoImplicit false

namespace Himsha
namespace Node

open Himsha.Lib Himsha.Runtime Himsha.Programs

/-! ## The request -/

/-- What the faucet is configured with, and the decoder of base-58 text. -/
structure FaucetGate where
  enabled : Bool
  max : UInt64 := 1000000000
  decode : String → Except String (List UInt8)

/-- `faucet_guard`. -/
def faucetGuard (f : FaucetGate) (lamports : UInt64) : Except RpcError Unit :=
  if !f.enabled then .error ⟨-32020, "faucet disabled (set HIMSHA_FAUCET=1)"⟩
  else if lamports > f.max then
    .error ⟨-32029, "amount exceeds faucet cap " ++ toString f.max.toNat⟩
  else .ok ()

/-- `Pubkey::from_base58`. -/
def fromBase58 (decode : String → Except String (List UInt8)) (s : String) :
    Except String Pubkey := do
  let v ← decode s
  if h : v.length = 32 then .ok ⟨⟨v, h⟩⟩ else .error "expected 32 bytes"

/-- The checks before the store is read. -/
def acceptAirdrop (f : FaucetGate) (pubkey : String) (lamports : UInt64) :
    Except RpcError Pubkey := do
  faucetGuard f lamports
  (fromBase58 f.decode pubkey).mapError fun e => ⟨-32021, e⟩

/-- The account that was loaded, or a new one, with the airdrop. -/
def airdropped (key : Pubkey) (prior : Option StoredAccount) (lamports : UInt64) : AccountInfo :=
  let account := match prior with
    | some stored => stored.intoAccount key
    | none => .new key ProgramIds.systemProgram 0 0
  { account with lamports := saturatingAdd account.lamports lamports }

/-- The statement a `request_airdrop` call runs next. -/
inductive AirdropPhase where
  /-- The `load_account`. -/
  | accepted
  /-- The `save_account`, with what was loaded. -/
  | loaded (prior : Option StoredAccount)
  | answered (reply : Except RpcError UInt64)

structure AirdropCall where
  key : Pubkey
  lamports : UInt64
  phase : AirdropPhase := .accepted

/-! ## The producer -/

/-- An `apply` that is under way. The world in `running` is the one of its last statement. -/
structure Underway where
  tx : RuntimeTransaction
  running : Running
  reads : List (Pubkey × Option StoredAccount) := []

/-- It goes on in the world as it is now. -/
def Underway.resume (u : Underway) (w : World) : Running := { u.running with toWorld := w }

/-- The statement `apply` runs next. -/
inductive CommitPhase where
  | idle
  /-- The next instruction, or the end of the transaction. -/
  | ready (u : Underway) (rest : List Instruction)
  /-- The next account of an instruction, or its program. -/
  | loading (u : Underway) (instr : Instruction) (accounts : List AccountInfo)
      (todo : List AccountMeta) (rest : List Instruction)

/-- A round of the loop of `apply`, once the accounts are there. -/
def runLoaded (ex : Executor) (tx : RuntimeTransaction) (instr : Instruction)
    (accounts : List AccountInfo) : Apply Unit := do
  Comp.ofExcept ((rejectDuplicateWritable accounts).mapError Executor.programFault)
  let transition ← ex.runProgram tx instr accounts
  Comp.ofExcept (transition.verify.mapError fun reason =>
    .error ⟨-32004, "invalid execution receipt: " ++ reason⟩)
  let r : Running ← get
  let (w, updated) := ex.settled .commit tx instr r.toWorld transition.updatedAccounts
  let overlay := Executor.carry r.overlay updated
  set { r with
    toWorld := w
    overlay
    executed := r.executed ++ [Executed.mk instr accounts updated overlay] }

/-! ## Both -/

/-- An update that was made. -/
inductive Entry where
  /-- An airdrop that returned `Ok`. -/
  | airdrop (key : Pubkey) (lamports : UInt64)
  /-- A transaction that committed: what it had loaded, and what it stored. -/
  | commit (reads : List (Pubkey × Option StoredAccount))
      (overlay : AList fun _ : Pubkey => StoredAccount)

structure Bank where
  world : World
  airdrops : List AirdropCall := []
  commit : CommitPhase := .idle
  ledger : List Entry := []

inductive BankAction where
  /-- A `request_airdrop` request arrives. One that is not accepted is answered at once. -/
  | request (pubkey : String) (lamports : UInt64)
  /-- A call runs its next statement. -/
  | serve (call : Nat)
  /-- The producer starts to execute a transaction. -/
  | begin (tx : RuntimeTransaction)
  /-- And runs its next statement. -/
  | commit

namespace Bank

/-- `save_account`; `none` is a record that cannot be encoded. -/
def saveAccount (s : NodeState) (key : Pubkey) (account : StoredAccount) : Option NodeState :=
  if (toVec account).isSome then some (s.putAccount key account) else none

/-- The next statement of an airdrop. -/
def serve (b : Bank) (c : AirdropCall) : Option (Bank × AirdropPhase) :=
  match c.phase with
  | .accepted => some (b, .loaded (b.world.state.loadAccount c.key))
  | .loaded prior =>
      let account := airdropped c.key prior c.lamports
      match saveAccount b.world.state c.key account.toStored with
      | some state =>
          some ({ b with
            world := { b.world with state }
            ledger := b.ledger ++ [.airdrop c.key c.lamports] }, .answered (.ok account.lamports))
      | none => some (b, .answered (.error ⟨-32023, "invalid data"⟩))
  | .answered _ => none

/-- The next statement of the producer. -/
def produce (ex : Executor) (b : Bank) : Option Bank :=
  match b.commit with
  | .idle => none
  | .ready u [] =>
      match Comp.exec Executor.persist (u.resume b.world) with
      | (.ok (), r) =>
          some { b with
            world := r.toWorld
            commit := .idle
            ledger := b.ledger ++ [.commit u.reads u.running.overlay] }
      | (.error _, r) => some { b with world := r.toWorld, commit := .idle }
  | .ready u (instr :: rest) =>
      some { b with commit := .loading u instr [] instr.accounts rest }
  | .loading u instr accounts (am :: todo) rest =>
      let account := Executor.materialise (u.resume b.world) instr.programId am
      let reads := match u.running.overlay.lookup am.pubkey with
        | some _ => u.reads
        | none => u.reads ++ [(am.pubkey, b.world.state.loadAccount am.pubkey)]
      some { b with
        commit := .loading { u with reads } instr (accounts ++ [account]) todo rest }
  | .loading u instr accounts [] rest =>
      match Comp.exec (runLoaded ex u.tx instr accounts) (u.resume b.world) with
      | (.ok (), r) =>
          some { b with world := r.toWorld, commit := .ready { u with running := r } rest }
      | (.error _, r) => some { b with world := r.toWorld, commit := .idle }

def step (ex : Executor) (f : FaucetGate) (b : Bank) : BankAction → Option Bank
  | .request pubkey lamports =>
      match acceptAirdrop f pubkey lamports with
      | .ok key => some { b with airdrops := b.airdrops ++ [{ key, lamports }] }
      | .error _ => some b
  | .serve i => do
      let c ← b.airdrops[i]?
      let (b, phase) ← b.serve c
      some { b with airdrops := b.airdrops.set i { c with phase } }
  | .begin tx =>
      match b.commit with
      | .idle =>
          let u : Underway := { tx, running := { toWorld := b.world } }
          some { b with commit := .ready u tx.message.instructions }
      | _ => none
  | .commit => b.produce ex

end Bank

end Node
end Himsha
