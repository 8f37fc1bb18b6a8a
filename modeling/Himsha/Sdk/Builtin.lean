import Himsha.Vm.Dispatch

/-!
# The instructions that the client libraries build

The client libraries write the data and the account lists of the built-ins' instructions by hand,
for eight of the programs.
-/

set_option autoImplicit false

namespace Himsha
namespace Sdk

open Himsha.Lib Himsha.Runtime Himsha.Programs

/-- An instruction of one of the built-ins that the libraries have builders for. -/
inductive BuiltinInstruction where
  | system (ix : System.SystemInstruction)
  | token (ix : Token.TokenInstruction)
  | swap (ix : Swap.SwapInstruction)
  | lending (ix : Lending.LendingInstruction)
  | runes (ix : Runes.RuneInstruction)
  | moneyMarket (ix : MoneyMarket.MoneyMarketInstruction)
  | vault (ix : Vault.VaultInstruction)
  | oracle (ix : Oracle.OracleInstruction)
deriving DecidableEq

namespace BuiltinInstruction

/-- What the program reads in the data, with `try_from_slice`. -/
def decode (programId : Pubkey) (data : List UInt8) : Option BuiltinInstruction :=
  if programId = ProgramIds.systemProgram then (tryFromSlice data).map system
  else if programId = ProgramIds.tokenProgram then (tryFromSlice data).map token
  else if programId = ProgramIds.swapProgram then (tryFromSlice data).map swap
  else if programId = ProgramIds.lendingProgram then (tryFromSlice data).map lending
  else if programId = ProgramIds.runesProgram then (tryFromSlice data).map runes
  else if programId = ProgramIds.moneyMarketProgram then (tryFromSlice data).map moneyMarket
  else if programId = ProgramIds.vaultProgram then (tryFromSlice data).map vault
  else if programId = ProgramIds.oracleProgram then (tryFromSlice data).map oracle
  else none

section
variable {data : List UInt8}

theorem decode_system : decode ProgramIds.systemProgram data = (tryFromSlice data).map system := by
  unfold decode
  rw [if_pos rfl]

theorem decode_token : decode ProgramIds.tokenProgram data = (tryFromSlice data).map token := by
  unfold decode
  rw [if_neg (by decide), if_pos rfl]

theorem decode_swap : decode ProgramIds.swapProgram data = (tryFromSlice data).map swap := by
  unfold decode
  rw [if_neg (by decide), if_neg (by decide), if_pos rfl]

theorem decode_lending :
    decode ProgramIds.lendingProgram data = (tryFromSlice data).map lending := by
  unfold decode
  rw [if_neg (by decide), if_neg (by decide), if_neg (by decide), if_pos rfl]

theorem decode_runes : decode ProgramIds.runesProgram data = (tryFromSlice data).map runes := by
  unfold decode
  rw [if_neg (by decide), if_neg (by decide), if_neg (by decide), if_neg (by decide), if_pos rfl]

theorem decode_moneyMarket :
    decode ProgramIds.moneyMarketProgram data = (tryFromSlice data).map moneyMarket := by
  unfold decode
  rw [if_neg (by decide), if_neg (by decide), if_neg (by decide), if_neg (by decide),
    if_neg (by decide), if_pos rfl]

theorem decode_vault : decode ProgramIds.vaultProgram data = (tryFromSlice data).map vault := by
  unfold decode
  rw [if_neg (by decide), if_neg (by decide), if_neg (by decide), if_neg (by decide),
    if_neg (by decide), if_neg (by decide), if_pos rfl]

theorem decode_oracle : decode ProgramIds.oracleProgram data = (tryFromSlice data).map oracle := by
  unfold decode
  rw [if_neg (by decide), if_neg (by decide), if_neg (by decide), if_neg (by decide),
    if_neg (by decide), if_neg (by decide), if_neg (by decide), if_pos rfl]

theorem decode_eq_lending {programId : Pubkey} {ix : Lending.LendingInstruction}
    (h : decode programId data = some (lending ix)) : tryFromSlice data = some ix := by
  unfold decode at h
  split_ifs at h
  all_goals
    obtain ⟨x, hx, heq⟩ := Option.map_eq_some_iff.mp h
    cases heq
  exact hx

theorem decode_eq_runes {programId : Pubkey} {ix : Runes.RuneInstruction}
    (h : decode programId data = some (runes ix)) : tryFromSlice data = some ix := by
  unfold decode at h
  split_ifs at h
  all_goals
    obtain ⟨x, hx, heq⟩ := Option.map_eq_some_iff.mp h
    cases heq
  exact hx

end

def programId : BuiltinInstruction → Pubkey
  | system _ => ProgramIds.systemProgram
  | token _ => ProgramIds.tokenProgram
  | swap _ => ProgramIds.swapProgram
  | lending _ => ProgramIds.lendingProgram
  | runes _ => ProgramIds.runesProgram
  | moneyMarket _ => ProgramIds.moneyMarketProgram
  | vault _ => ProgramIds.vaultProgram
  | oracle _ => ProgramIds.oracleProgram

def encode : BuiltinInstruction → Option (List UInt8)
  | system ix => toVec ix
  | token ix => toVec ix
  | swap ix => toVec ix
  | lending ix => toVec ix
  | runes ix => toVec ix
  | moneyMarket ix => toVec ix
  | vault ix => toVec ix
  | oracle ix => toVec ix

/-- A program reads the encoding of its variant. -/
theorem decode_encode {v : BuiltinInstruction} {data : List UInt8} (h : v.encode = some data) :
    decode v.programId data = some v := by
  cases v with
  | system ix => rw [programId, decode_system, tryFromSlice_toVec h]; rfl
  | token ix => rw [programId, decode_token, tryFromSlice_toVec h]; rfl
  | swap ix => rw [programId, decode_swap, tryFromSlice_toVec h]; rfl
  | lending ix => rw [programId, decode_lending, tryFromSlice_toVec h]; rfl
  | runes ix => rw [programId, decode_runes, tryFromSlice_toVec h]; rfl
  | moneyMarket ix => rw [programId, decode_moneyMarket, tryFromSlice_toVec h]; rfl
  | vault ix => rw [programId, decode_vault, tryFromSlice_toVec h]; rfl
  | oracle ix => rw [programId, decode_oracle, tryFromSlice_toVec h]; rfl

end BuiltinInstruction

end Sdk
end Himsha
