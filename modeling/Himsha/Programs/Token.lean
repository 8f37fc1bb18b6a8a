import Himsha.Runtime.Cpi
import Himsha.Runtime.Transaction

/-!
# The token program

Ten instructions over two account layouts, `MintState` and `TokenAccountState`. Nothing in an
account says which of the two it holds: a handler decodes whatever bytes it is given, and
decoding is all the type check there is. The two layouts do not have a length in common
(`mint_not_token`), so no account is ever both.
-/

set_option autoImplicit false

namespace Himsha
namespace Programs
namespace Token

open Himsha.Lib Himsha.Runtime

structure MintState where
  mintAuthority : Option Pubkey := none
  supply : UInt64 := 0
  decimals : UInt8 := 0
  isInitialized : Bool := false
  freezeAuthority : Option Pubkey := none
deriving DecidableEq

structure TokenAccountState where
  mint : Pubkey := default
  owner : Pubkey := default
  amount : UInt64 := 0
  delegate : Option Pubkey := none
  state : AccountState := .uninitialized
  delegatedAmount : UInt64 := 0
  closeAuthority : Option Pubkey := none
deriving DecidableEq

def MintState.fields (m : MintState) :=
  (m.mintAuthority, m.supply, m.decimals, m.isInitialized, m.freezeAuthority)

def MintState.ofFields : Option Pubkey × UInt64 × UInt8 × Bool × Option Pubkey → MintState
  | (a, s, d, i, f) => ⟨a, s, d, i, f⟩

def TokenAccountState.fields (t : TokenAccountState) :=
  (t.mint, t.owner, t.amount, t.delegate, t.state, t.delegatedAmount, t.closeAuthority)

def TokenAccountState.ofFields :
    Pubkey × Pubkey × UInt64 × Option Pubkey × AccountState × UInt64 × Option Pubkey →
      TokenAccountState
  | (m, o, a, d, s, da, c) => ⟨m, o, a, d, s, da, c⟩

instance : Borsh MintState := .iso MintState.fields MintState.ofFields fun _ => rfl

instance : Canonical MintState := .iso (fun _ => rfl) fun _ => rfl

instance : Sized MintState := .iso fun _ => rfl

instance : Borsh TokenAccountState :=
  .iso TokenAccountState.fields TokenAccountState.ofFields fun _ => rfl

instance : Canonical TokenAccountState := .iso (fun _ => rfl) fun _ => rfl

instance : Sized TokenAccountState := .iso fun _ => rfl

theorem mint_not_token {data : List UInt8} {mint : MintState}
    (h : tryFromSlice data = some mint) : tryFromSlice (α := TokenAccountState) data = none :=
  tryFromSlice_disjoint (by decide) h

theorem token_not_mint {data : List UInt8} {token : TokenAccountState}
    (h : tryFromSlice data = some token) : tryFromSlice (α := MintState) data = none :=
  tryFromSlice_disjoint (by decide) h

theorem mint_nil : tryFromSlice (α := MintState) [] = none := rfl

theorem token_nil : tryFromSlice (α := TokenAccountState) [] = none := rfl

inductive TokenInstruction where
  /-- `accounts[0]` = mint. -/
  | initializeMint (decimals : UInt8) (mintAuthority : Pubkey) (freezeAuthority : Option Pubkey)
  /-- `accounts[0]` = token account, `accounts[1]` = mint. -/
  | initializeAccount
  /-- `accounts[0]` = mint, `accounts[1]` = destination, `accounts[2]` = authority. -/
  | mintTo (amount : UInt64)
  /-- `accounts[0]` = source, `accounts[1]` = destination, `accounts[2]` = owner or delegate. -/
  | transfer (amount : UInt64)
  /-- `accounts[0]` = token account, `accounts[1]` = mint, `accounts[2]` = owner. -/
  | burn (amount : UInt64)
  /-- `accounts[0]` = source, `accounts[1]` = delegate, `accounts[2]` = owner. -/
  | approve (amount : UInt64)
  /-- `accounts[0]` = source, `accounts[1]` = owner. -/
  | revoke
  /-- `accounts[0]` = token account, `accounts[1]` = freeze authority. -/
  | freezeAccount
  | thawAccount
  /-- `accounts[0]` = source, `accounts[1]` = destination, `accounts[2]` = owner. -/
  | closeAccount
deriving DecidableEq

namespace TokenInstruction

def ser : TokenInstruction → Option (List UInt8)
  | .initializeMint decimals authority freeze => tag 0 (decimals, authority, freeze)
  | .initializeAccount => tag 1 ()
  | .mintTo amount => tag 2 amount
  | .transfer amount => tag 3 amount
  | .burn amount => tag 4 amount
  | .approve amount => tag 5 amount
  | .revoke => tag 6 ()
  | .freezeAccount => tag 7 ()
  | .thawAccount => tag 8 ()
  | .closeAccount => tag 9 ()

def de : List UInt8 → Option (TokenInstruction × List UInt8)
  | 0 :: bs => untag (fun (d, a, f) => .initializeMint d a f) bs
  | 1 :: bs => untag (fun () => .initializeAccount) bs
  | 2 :: bs => untag .mintTo bs
  | 3 :: bs => untag .transfer bs
  | 4 :: bs => untag .burn bs
  | 5 :: bs => untag .approve bs
  | 6 :: bs => untag (fun () => .revoke) bs
  | 7 :: bs => untag (fun () => .freezeAccount) bs
  | 8 :: bs => untag (fun () => .thawAccount) bs
  | 9 :: bs => untag (fun () => .closeAccount) bs
  | _ => none

instance : Borsh TokenInstruction where
  ser := ser
  de := de
  de_ser := by
    intro ix bs h rest
    cases ix <;>
    · obtain ⟨pre, rfl, hde⟩ := untag_tag (β := TokenInstruction) h
      simp only [List.cons_append, de, hde]

end TokenInstruction

/-! ## Instruction builders -/

def initializeMint (mint authority : Pubkey) (decimals : UInt8) (freezeAuth : Option Pubkey) :
    Instruction :=
  .withArgs ProgramIds.tokenProgram [.writable mint false]
    (TokenInstruction.initializeMint decimals authority freezeAuth)

def initializeAccount (tokenAccount mint owner : Pubkey) : Instruction :=
  .withArgs ProgramIds.tokenProgram
    [.writable tokenAccount false, .readonly mint false, .readonly owner false]
    TokenInstruction.initializeAccount

def mintTo (mint destination authority : Pubkey) (amount : UInt64) : Instruction :=
  .withArgs ProgramIds.tokenProgram
    [.writable mint false, .writable destination false, .readonly authority true]
    (TokenInstruction.mintTo amount)

def transfer (source destination owner : Pubkey) (amount : UInt64) : Instruction :=
  .withArgs ProgramIds.tokenProgram
    [.writable source false, .writable destination false, .readonly owner true]
    (TokenInstruction.transfer amount)

def burn (tokenAccount mint owner : Pubkey) (amount : UInt64) : Instruction :=
  .withArgs ProgramIds.tokenProgram
    [.writable tokenAccount false, .writable mint false, .readonly owner true]
    (TokenInstruction.burn amount)

/-! ## Processing -/

/-- `accounts[2]` has to be there and to have signed. -/
def requireThirdSigner (accounts : List AccountInfo) : Outcome Unit :=
  match accounts[2]? with
  | some a => a.requireSigner
  | none => fail .missingSigner

def run (π : Profile) (accounts : List AccountInfo) :
    TokenInstruction → Outcome (List AccountInfo)
  | .initializeMint decimals authority freeze => do
      let mint : MintState ← loadOr accounts 0 {}
      require (!mint.isInitialized) .alreadyInitialized
      store accounts 0 { mint with
        decimals
        mintAuthority := some authority
        freezeAuthority := freeze
        isInitialized := true }
  | .initializeAccount => do
      let mintAcc ← slot accounts 1
      let owner := (accounts[2]?.map (·.key)).getD default
      let mint : MintState := (tryFromSlice mintAcc.data).getD {}
      require mint.isInitialized .notInitialized
      let state : TokenAccountState ← loadOr accounts 0 {}
      require (state.state == .uninitialized) .alreadyInitialized
      store accounts 0 { state with mint := mintAcc.key, owner, state := .initialized }
  | .mintTo amount => do
      requireThirdSigner accounts
      let mint : MintState ← load accounts 0
      let dest : TokenAccountState ← load accounts 1
      require (dest.mint == (← slot accounts 0).key) .invalidAccountData
      require (dest.state != .frozen) .unauthorized
      let supply ← okOr .overflow (checkedAdd mint.supply amount)
      let destAmount ← okOr .overflow (checkedAdd dest.amount amount)
      let accounts ← store accounts 0 { mint with supply }
      store accounts 1 { dest with amount := destAmount }
  | .transfer amount => do
      requireThirdSigner accounts
      let source : TokenAccountState ← load accounts 0
      let dest : TokenAccountState ← load accounts 1
      require (source.mint == dest.mint) .invalidAccountData
      require (source.state != .frozen && dest.state != .frozen) .unauthorized
      let sourceAmount ← okOr .insufficientFunds (checkedSub source.amount amount)
      let destAmount ← okOr .overflow (checkedAdd dest.amount amount)
      let accounts ← store accounts 0 { source with amount := sourceAmount }
      store accounts 1 { dest with amount := destAmount }
  | .burn amount => do
      requireThirdSigner accounts
      let token : TokenAccountState ← load accounts 0
      let mint : MintState ← load accounts 1
      -- Unlike `mintTo`, nothing relates the token account to this mint.
      require (token.state != .frozen) .unauthorized
      let tokenAmount ← okOr .insufficientFunds (checkedSub token.amount amount)
      let supply ← okOr .insufficientFunds (checkedSub mint.supply amount)
      let accounts ← store accounts 0 { token with amount := tokenAmount }
      store accounts 1 { mint with supply }
  | .approve amount => do
      let token : TokenAccountState ← load accounts 0
      let delegate ← slot accounts 1
      store accounts 0 { token with delegate := some delegate.key, delegatedAmount := amount }
  | .revoke => do
      let token : TokenAccountState ← load accounts 0
      store accounts 0 { token with delegate := none, delegatedAmount := 0 }
  | .freezeAccount => do
      let token : TokenAccountState ← load accounts 0
      store accounts 0 { token with state := .frozen }
  | .thawAccount => do
      let token : TokenAccountState ← load accounts 0
      require (token.state == .frozen) .invalidAccountData
      store accounts 0 { token with state := .initialized }
  | .closeAccount => do
      let token : TokenAccountState ← load accounts 0
      require (token.amount == 0) .insufficientFunds
      let tokenAcc ← slot accounts 0
      let destAcc ← slot accounts 1
      let lamports ← orPanic (addU64 π destAcc.lamports tokenAcc.lamports)
      let accounts := accounts.set 1 { destAcc with lamports }
      return accounts.set 0 { tokenAcc with lamports := 0, data := [] }

def process (π : Profile) (accounts : List AccountInfo) (data : List UInt8) :
    Outcome (List AccountInfo) := do
  let ix ← okOr .invalidInstruction (tryFromSlice data)
  run π accounts ix

/-- Invoke the token program on a sub-window, as its CPI callers do: encode the instruction,
    then invoke. -/
def invoke (π : Profile) (accounts : List AccountInfo) (indices signers : List Nat)
    (ix : TokenInstruction) : Prog (List AccountInfo) := do
  let data ← okOr .borshError (toVec ix)
  invokeSignedIndexed accounts indices signers data ProgramIds.tokenProgram
    fun window data => process π window data

end Token
end Programs
end Himsha
