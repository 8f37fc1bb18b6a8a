import Himsha.Vm.Executor

/-!
# The universal guest

With the feature `zkvm` nothing runs natively: the built-ins are registered with one guest, which
`himsha-methods` compiles from a dispatch table of its own, and they go through the prover like any
other program. `main` of the guest commits the accounts that it comes to; an error of the program or
of the owner gate aborts it, and then there is no proof.

The guest is a build of its own: it has its own overflow checks and its own hash order, its `usize`
has 32 bits, and a run is proved only within the limits of the prover.
-/

set_option autoImplicit false

namespace Himsha
namespace Vm

open Himsha.Lib Himsha.Runtime Himsha.Programs

namespace Guest

/-- How a guest was built, and what the prover can take of it. -/
structure Build where
  profile : Profile
  hasher : Lending.Hasher
  /-- A run that stays within the memory and the cycles of the prover. -/
  within : Pubkey → ExecutionInput → Prop

/-- `vec![0u8; space as usize]` on the target of the guest. -/
def zeroed (space : UInt64) : Outcome (List UInt8) :=
  if space.toNat % 2 ^ 32 < 2 ^ 31 then .ok (List.replicate (space.toNat % 2 ^ 32) 0)
  else .error .panic

/-- The system program on that target: the space is cut to 32 bits where a buffer is made of it. -/
def systemRun (accounts : List AccountInfo) :
    System.SystemInstruction → Outcome (List AccountInfo)
  | .createAccount lamports space owner => do
      System.ensureSigners accounts 0
      let payer ← System.deductLamports (← slot accounts 0) lamports
      let accounts := accounts.set 0 payer
      let newAcc ← slot accounts 1
      System.requireFresh newAcc
      let data ← zeroed space
      return accounts.set 1 { newAcc with lamports, data, owner }
  | .createAccountWithAnchor utxo space owner => do
      System.ensureSigners accounts 0
      let newAcc ← slot accounts 1
      System.requireFresh newAcc
      let data ← zeroed space
      return accounts.set 1 { newAcc with data, owner, utxo := some utxo }
  | .allocate space => do
      System.ensureSigners accounts 0
      let acc ← slot accounts 0
      if space.toNat > acc.data.length then
        -- `data.resize(space as usize, 0)`, which may shorten the data here.
        let zeros ← zeroed space
        let data := acc.data.take zeros.length ++ zeros.drop acc.data.length
        return accounts.set 0 { acc with data }
      else return accounts
  | ix => System.run accounts ix

def systemProcess (accounts : List AccountInfo) (data : List UInt8) :
    Outcome (List AccountInfo) := do
  let ix ← okOr .invalidInstruction (tryFromSlice data)
  systemRun accounts ix

/-- `dispatch` of the guest, which cannot depend on the one of `himsha-vm`. -/
def dispatch (π : Profile) (hasher : Lending.Hasher) (programId : Pubkey)
    (accounts : List AccountInfo) (data : List UInt8) (timestamp : UInt64) :
    Prog (List AccountInfo) :=
  if programId = ProgramIds.systemProgram then systemProcess accounts data
  else if programId = ProgramIds.tokenProgram then Token.process π accounts data
  else if programId = ProgramIds.ataProgram then Ata.process π accounts data
  else if programId = ProgramIds.swapProgram then Swap.process π accounts data
  else if programId = ProgramIds.nftMetadataProgram then NftMetadata.process π accounts data
  else if programId = ProgramIds.lendingProgram then
    Lending.process π hasher accounts data timestamp
  else if programId = ProgramIds.runesProgram then Runes.process accounts data timestamp
  else if programId = ProgramIds.moneyMarketProgram then
    MoneyMarket.process π timestamp accounts data
  else if programId = ProgramIds.vaultProgram then Vault.process π timestamp accounts data
  else if programId = ProgramIds.oracleProgram then Oracle.process π accounts data timestamp
  else throw (.err (.custom 0x4040))

/-- `main` of the guest: the accounts it commits, `none` where it aborts. -/
def main (b : Build) (programId : Pubkey) (input : ExecutionInput) : Option (List AccountInfo) :=
  (Comp.exec (do
    modify beginExecution
    let after ← dispatch b.profile b.hasher programId input.accounts input.instructionData
      input.timestamp
    validateWrites programId input.accounts after) {}).1.toOption

end Guest

/-- `register_builtins`: all built-ins have the same guest. -/
def registerBuiltins (guest : RegisteredProgram) (registry : ProgramRegistry) : ProgramRegistry :=
  fun programId => if isBuiltin programId then some guest else registry programId

/-- The machine of a build with the feature `zkvm`. -/
def Machine.zkvm (m : Machine) (guest : RegisteredProgram) : Machine :=
  { m with registry := registerBuiltins guest m.registry }

/-- `execute_program` of that build: everything is proved. -/
def executeProgramZk (m : Machine) (guest : RegisteredProgram) (programId : Pubkey)
    (input : ExecutionInput) (anchorUtxos : List UtxoMeta) : Except VmFault StateTransition :=
  execute (m.zkvm guest) programId input anchorUtxos

/-- The guest checks for overflow where the node does, and its hash maps have the node's order. -/
structure Guest.Build.Alike (b : Guest.Build) (m : Machine) : Prop where
  profile : b.profile = m.profile
  hasher : b.hasher = m.hasher

/-- What the zkVM promises of the guest: for a run within the limits there is a receipt that verifies
    for its image exactly if the run ends, and its journal holds what it commits. -/
def Proves (m : Machine) (guest : RegisteredProgram) (b : Guest.Build) : Prop :=
  ∀ programId input, b.within programId input → ∀ accounts,
    (∃ journal, m.prove guest programId input = .ok (accounts, journal)) ↔
      Guest.main b programId input = some accounts

end Vm
end Himsha
