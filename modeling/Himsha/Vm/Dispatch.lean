import Himsha.Programs.System
import Himsha.Programs.Ata
import Himsha.Programs.Swap
import Himsha.Programs.NftMetadata
import Himsha.Programs.Lending
import Himsha.Programs.Runes
import Himsha.Programs.Vault

/-!
# `dispatch.rs`

Native execution of a built-in: run it on the account table, then owner-gate every slot against
the table it was given.
-/

set_option autoImplicit false

namespace Himsha
namespace Vm

open Himsha.Lib Himsha.Runtime Himsha.Programs

/-- One of the genesis built-in programs. -/
def isBuiltin (programId : Pubkey) : Bool := ProgramIds.builtins.contains programId

def runBuiltin (π : Profile) (hasher : Lending.Hasher) (programId : Pubkey)
    (accounts : List AccountInfo) (data : List UInt8) (timestamp : UInt64) :
    Prog (List AccountInfo) :=
  if programId = ProgramIds.systemProgram then System.process accounts data
  else if programId = ProgramIds.tokenProgram then Token.process π accounts data
  else if programId = ProgramIds.ataProgram then Ata.process π accounts data
  else if programId = ProgramIds.swapProgram then Swap.process π accounts data
  else if programId = ProgramIds.nftMetadataProgram then NftMetadata.process π accounts data
  else if programId = ProgramIds.lendingProgram then
    Lending.process π hasher accounts data timestamp
  else if programId = ProgramIds.runesProgram then Runes.process accounts data timestamp
  else if programId = ProgramIds.moneyMarketProgram then
    MoneyMarket.process π timestamp accounts data
  else if programId = ProgramIds.vaultProgram then Vault.process π timestamp accounts data
  else if programId = ProgramIds.oracleProgram then Oracle.process π accounts data timestamp
  else throw (.err (.custom 0x4040))

/-! What is run for an id, written out for the programs that proofs look into. -/

section
variable (π : Profile) (hasher : Lending.Hasher) (accounts : List AccountInfo) (data : List UInt8)
  (timestamp : UInt64)

theorem runBuiltin_token :
    runBuiltin π hasher ProgramIds.tokenProgram accounts data timestamp =
      Comp.ofExcept (Token.process π accounts data) := by
  unfold runBuiltin
  rw [if_neg (by decide), if_pos rfl]
  rfl

theorem runBuiltin_swap :
    runBuiltin π hasher ProgramIds.swapProgram accounts data timestamp =
      Swap.process π accounts data := by
  unfold runBuiltin
  rw [if_neg (by decide), if_neg (by decide), if_neg (by decide), if_pos rfl]

theorem runBuiltin_lending :
    runBuiltin π hasher ProgramIds.lendingProgram accounts data timestamp =
      Comp.ofExcept (Lending.process π hasher accounts data timestamp) := by
  unfold runBuiltin
  rw [if_neg (by decide), if_neg (by decide), if_neg (by decide), if_neg (by decide),
    if_neg (by decide), if_pos rfl]
  rfl

theorem runBuiltin_runes :
    runBuiltin π hasher ProgramIds.runesProgram accounts data timestamp =
      Comp.ofExcept (Runes.process accounts data timestamp) := by
  unfold runBuiltin
  rw [if_neg (by decide), if_neg (by decide), if_neg (by decide), if_neg (by decide),
    if_neg (by decide), if_neg (by decide), if_pos rfl]
  rfl

theorem runBuiltin_moneyMarket :
    runBuiltin π hasher ProgramIds.moneyMarketProgram accounts data timestamp =
      MoneyMarket.process π timestamp accounts data := by
  unfold runBuiltin
  rw [if_neg (by decide), if_neg (by decide), if_neg (by decide), if_neg (by decide),
    if_neg (by decide), if_neg (by decide), if_neg (by decide), if_pos rfl]

theorem runBuiltin_vault :
    runBuiltin π hasher ProgramIds.vaultProgram accounts data timestamp =
      Vault.process π timestamp accounts data := by
  unfold runBuiltin
  rw [if_neg (by decide), if_neg (by decide), if_neg (by decide), if_neg (by decide),
    if_neg (by decide), if_neg (by decide), if_neg (by decide), if_neg (by decide), if_pos rfl]

end

/-- Run a built-in and validate every write it made. -/
def dispatch (π : Profile) (hasher : Lending.Hasher) (programId : Pubkey)
    (accounts : List AccountInfo) (data : List UInt8) (timestamp : UInt64) :
    Prog (List AccountInfo) := do
  modify beginExecution
  let after ← runBuiltin π hasher programId accounts data timestamp
  validateWrites programId accounts after

end Vm
end Himsha
