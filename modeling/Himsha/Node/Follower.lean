import Himsha.Node.Execution

/-!
# `follower.rs` and `settlement.rs` — replication

A follower runs the instructions of a block on its own table and saves account by account, each
save a transaction of its own; what is saved stays when a later statement fails. Then it saves the
block, indexes its transactions and moves its slot. A state root that differs from its own is
logged and nothing more, so it does not occur here.

A write can fail, because its record is too long to encode or because of the disk: a `Disk` says
which do and with what text, by the number of writes before and by what is written.
-/

set_option autoImplicit false

namespace Himsha
namespace Node

open Himsha.Lib Himsha.Runtime Himsha.Programs Himsha.Vm

/-- One write transaction of a follower. -/
inductive Write where
  | account (key : Pubkey) (record : StoredAccount)
  | block (slot : Nat) (block : Block)
  | index (txid : Blob 32) (slot : Nat)
  | advance

/-- The text a write fails with, `none` where it succeeds. -/
abbrev Disk := Nat → Write → Option String

/-- A disk on which every write succeeds. -/
def Disk.sound : Disk := fun _ _ => none

/-- A replica: its database and its registry lock, and how many writes it has tried. -/
structure Replica where
  state : NodeState := {}
  poisoned : Bool := false
  writes : Nat := 0

/-- How replication can fail to return: an error with its text, or a panic. -/
inductive ReplayFault where
  | error (text : String)
  | panic
deriving DecidableEq

abbrev Replay := Comp ReplayFault Replica

/-- What a follower runs on. -/
structure Follower where
  machine : Machine
  disk : Disk

/-- Drain one account without a broadcast. -/
def drainAccount (account : AccountInfo) : AccountInfo :=
  match tryFromSlice (α := Lending.CollectionAccount) account.data with
  | none => account
  | some coll =>
      if coll.pendingSettlements.isEmpty then account
      else match account.writeData (Lending.takeSettlements coll).2 with
        | .ok account => account
        | .error _ => account

/-- `drain_lending` without an indexer. -/
def drainLending (accounts : List AccountInfo) : List AccountInfo := accounts.map drainAccount

namespace Follower

/-- A write whose failure is reported, with a label. -/
def write (f : Follower) (label : String) (write : Write) (effect : NodeState → NodeState) :
    Replay Unit := do
  let r ← get
  match f.disk r.writes write with
  | some e =>
      set { r with writes := r.writes + 1 }
      throw (.error (label ++ ": " ++ e))
  | none => set { r with state := effect r.state, writes := r.writes + 1 }

/-- A write whose failure is ignored. -/
def tryWrite (f : Follower) (write : Write) (effect : NodeState → NodeState) : Replay Unit := do
  let r ← get
  match f.disk r.writes write with
  | some _ => set { r with writes := r.writes + 1 }
  | none => set { r with state := effect r.state, writes := r.writes + 1 }

def saveAccount (f : Follower) (account : AccountInfo) : Replay Unit :=
  f.write "save_account" (.account account.key account.toStored)
    (·.putAccount account.key account.toStored)

def saveAccounts (f : Follower) : List AccountInfo → Replay Unit
  | [] => return ()
  | account :: rest => do
      f.saveAccount account
      f.saveAccounts rest

/-- The account an instruction sees: the replica's own, else a fresh one. -/
def fetch (s : NodeState) (programId : Pubkey) (am : AccountMeta) : AccountInfo :=
  let account := match s.loadAccount am.pubkey with
    | some stored => stored.intoAccount am.pubkey
    | none => AccountInfo.new am.pubkey programId 0 0
  { account with isSigner := am.isSigner, isWritable := am.isWritable }

def guardFault (e : Fault) : ReplayFault :=
  match e with
  | .err e => .error ("duplicate writable account: " ++ e.message)
  | .panic => .panic

/-- Lock the registry and re-execute. -/
def reexecute (f : Follower) (tx : RuntimeTransaction) (instr : Instruction)
    (accounts : List AccountInfo) : Replay StateTransition := do
  Comp.ensure (!(← get).poisoned) .panic
  let input : ExecutionInput :=
    { accounts, instructionData := instr.data, timestamp := tx.message.timestamp }
  match executeProgram f.machine instr.programId input [] with
  | .ok transition => return transition
  | .error (.node e) => throw (.error ("re-execute failed: " ++ e.message))
  | .error .panic =>
      modify fun r => { r with poisoned := true }
      throw .panic

/-- One instruction: re-execute it, clear its settlements, and save every slot. -/
def applyInstruction (f : Follower) (tx : RuntimeTransaction) (instr : Instruction) :
    Replay Unit := do
  let accounts := instr.accounts.map (fetch (← get).state instr.programId)
  Comp.ofExcept ((rejectDuplicateWritable accounts).mapError guardFault)
  let transition ← f.reexecute tx instr accounts
  Comp.ofExcept (transition.verify.mapError fun reason =>
    .error ("invalid execution receipt: " ++ reason))
  let updated :=
    if instr.programId = ProgramIds.lendingProgram then drainLending transition.updatedAccounts
    else transition.updatedAccounts
  f.saveAccounts updated

def applyInstructions (f : Follower) : List (RuntimeTransaction × Instruction) → Replay Unit
  | [] => return ()
  | (tx, instr) :: rest => do
      f.applyInstruction tx instr
      f.applyInstructions rest

/-- The instructions of a block, each with its transaction, in the order they run. -/
def instructionsOf (block : Block) : List (RuntimeTransaction × Instruction) :=
  block.transactions.flatMap fun tx => tx.message.instructions.map fun instr => (tx, instr)

def indexTransactions (f : Follower) (slot : Nat) : List RuntimeTransaction → Replay Unit
  | [] => return ()
  | tx :: rest => do
      f.tryWrite (.index tx.messageHash slot) (·.indexTransaction tx.messageHash slot)
      f.indexTransactions slot rest

/-- `while current_slot < slot { advance_slot }`, with the number of rounds left. -/
def advance (f : Follower) : Nat → Replay Unit
  | 0 => return ()
  | n + 1 => do
      f.write "advance_slot" .advance (·.advanceSlot.2)
      f.advance n

/-- Re-execute and persist one block, then advance the local slot. -/
def applyBlock (f : Follower) (block : Block) : Replay Unit := do
  f.applyInstructions (instructionsOf block)
  f.write "save_block" (.block block.slot block) (·.saveBlock block.slot block)
  f.indexTransactions block.slot block.transactions
  f.advance (block.slot - (← get).state.slot)

/-- What the primary answers during one poll: its slot, and its blocks. A request can fail. -/
structure Poll where
  target : Except String Nat
  block : Nat → Except String (Option Block)

/-- The loop of `sync_once`, from the slot `next`, with the number of rounds left. -/
def syncFrom (f : Follower) (p : Poll) : Nat → Nat → Replay Unit
  | _, 0 => return ()
  | next, n + 1 =>
      match p.block next with
      | .error text => throw (.error text)
      | .ok none => return ()
      | .ok (some block) => do
          f.applyBlock block
          f.syncFrom p (next + 1) n

/-- Catch up from the local slot to the primary's tip. -/
def syncOnce (f : Follower) (p : Poll) : Replay Unit :=
  match p.target with
  | .error text => throw (.error text)
  | .ok target => do
      let slot := (← get).state.slot
      f.syncFrom p (slot + 1) (target - slot)

/-- One round of `run_until_promote`. An error is logged, and the next round tries again; `none` is
    a panic, which ends the task. -/
def poll (f : Follower) (r : Replica) (p : Poll) : Option Replica :=
  match Comp.exec (f.syncOnce p) r with
  | (.error .panic, _) => none
  | (_, r) => some r

end Follower

end Node
end Himsha
