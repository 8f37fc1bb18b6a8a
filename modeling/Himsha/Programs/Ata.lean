import Himsha.Programs.Token

/-!
# The associated token account program

One instruction. It checks the derived address and hands a blank account to the token program to
initialise; an account that already holds data is left as it is.
-/

set_option autoImplicit false

namespace Himsha
namespace Programs
namespace Ata

open Himsha.Lib Himsha.Runtime

/-- The address for (owner, mint). -/
def getAssociatedTokenAddress (owner mint : Pubkey) : Pubkey :=
  (Pubkey.findProgramAddress
    [owner.bytes.bytes, ProgramIds.tokenProgram.bytes.bytes, mint.bytes.bytes]
    ProgramIds.ataProgram).1

inductive AtaInstruction where
  /-- `accounts[0]` = payer, `accounts[1]` = ATA, `accounts[2]` = owner, `accounts[3]` = mint. -/
  | create
deriving DecidableEq

instance : Borsh AtaInstruction where
  ser | .create => tag 0 ()
  de
    | 0 :: bs => untag (fun () => .create) bs
    | _ => none
  de_ser := by
    intro ix bs h rest
    obtain ⟨pre, rfl, hde⟩ := untag_tag (β := AtaInstruction) h
    exact hde _ rest

def process (π : Profile) : Process := fun accounts data => do
  let .create ← okOr .invalidInstruction (tryFromSlice (α := AtaInstruction) data)
  require (decide (4 ≤ accounts.length)) .notEnoughAccounts
  let ata ← slot accounts 1
  let owner ← slot accounts 2
  let mint ← slot accounts 3
  require (getAssociatedTokenAddress owner.key mint.key == ata.key) .invalidAccountData
  -- Already initialized: succeed idempotently.
  if !ata.data.isEmpty then return accounts
  else Token.invoke π accounts [1, 3] [] .initializeAccount

end Ata
end Programs
end Himsha
