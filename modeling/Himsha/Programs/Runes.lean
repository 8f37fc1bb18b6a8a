import Himsha.Runtime.Cpi
import Himsha.Runtime.Transaction

/-!
# The runes program

Etch, mint, transfer and burn of Runes-style tokens. One `RuneEtching` per rune and one
`RuneBalance` per holder.
-/

set_option autoImplicit false

namespace Himsha
namespace Programs
namespace Runes

open Himsha.Lib Himsha.Runtime

/-- Open-mint terms. -/
structure MintTerms where
  /-- Amount minted per `mint`. -/
  amount : UInt64
  /-- Maximum number of mints; 0 means unlimited. -/
  cap : UInt64
  mints : UInt64
  /-- Timestamp window; 0 means no bound. -/
  start : UInt64
  stop : UInt64
deriving DecidableEq

instance : Borsh MintTerms :=
  .iso (fun t => (t.amount, t.cap, t.mints, t.start, t.stop))
    (fun (a, c, m, s, e) => ⟨a, c, m, s, e⟩) fun _ => rfl

instance : Canonical MintTerms :=
  .iso (f := fun t : MintTerms => (t.amount, t.cap, t.mints, t.start, t.stop))
    (g := fun (a, c, m, s, e) => ⟨a, c, m, s, e⟩) (fun _ => rfl) fun _ => rfl

instance : Sized MintTerms :=
  .iso (f := fun t : MintTerms => (t.amount, t.cap, t.mints, t.start, t.stop))
    (g := fun (a, c, m, s, e) => ⟨a, c, m, s, e⟩) fun _ => rfl

structure RuneEtching where
  name : String := ""
  symbol : UInt32 := 0
  divisibility : UInt8 := 0
  etcher : Pubkey := default
  premine : UInt64 := 0
  terms : Option MintTerms := none
  /-- Total minted so far, before burns. -/
  minted : UInt64 := 0
  burned : UInt64 := 0
  isEtched : Bool := false
deriving DecidableEq

instance : Borsh RuneEtching :=
  .iso (fun r => (r.name, r.symbol, r.divisibility, r.etcher, r.premine, r.terms, r.minted,
      r.burned, r.isEtched))
    (fun (n, s, d, e, p, t, m, b, i) => ⟨n, s, d, e, p, t, m, b, i⟩) fun _ => rfl

instance : Canonical RuneEtching :=
  .iso (f := fun r : RuneEtching => (r.name, r.symbol, r.divisibility, r.etcher, r.premine,
      r.terms, r.minted, r.burned, r.isEtched))
    (g := fun (n, s, d, e, p, t, m, b, i) => ⟨n, s, d, e, p, t, m, b, i⟩) (fun _ => rfl)
    fun _ => rfl

structure RuneBalance where
  rune : Pubkey := default
  owner : Pubkey := default
  amount : UInt64 := 0
  isInitialized : Bool := false
deriving DecidableEq

instance : Borsh RuneBalance :=
  .iso (fun b => (b.rune, b.owner, b.amount, b.isInitialized)) (fun (r, o, a, i) => ⟨r, o, a, i⟩)
    fun _ => rfl

instance : Canonical RuneBalance :=
  .iso (f := fun b : RuneBalance => (b.rune, b.owner, b.amount, b.isInitialized))
    (g := fun (r, o, a, i) => ⟨r, o, a, i⟩) (fun _ => rfl) fun _ => rfl

inductive RuneInstruction where
  /-- `[0]` = rune, `[1]` = etcher balance, `[2]` = etcher. -/
  | etch (name : String) (symbol : UInt32) (divisibility : UInt8) (premine : UInt64)
      (terms : Option MintTerms)
  /-- `[0]` = rune, `[1]` = destination balance, `[2]` = minter. -/
  | mint
  /-- `[0]` = source balance, `[1]` = destination balance, `[2]` = owner. -/
  | transfer (amount : UInt64)
  /-- `[0]` = rune, `[1]` = source balance, `[2]` = owner. -/
  | burn (amount : UInt64)
  /-- `[0]` = balance, `[1]` = owner. -/
  | initBalance
deriving DecidableEq

namespace RuneInstruction

def ser : RuneInstruction → Option (List UInt8)
  | .etch name symbol divisibility premine terms =>
      tag 0 (name, symbol, divisibility, premine, terms)
  | .mint => tag 1 ()
  | .transfer amount => tag 2 amount
  | .burn amount => tag 3 amount
  | .initBalance => tag 4 ()

def de : List UInt8 → Option (RuneInstruction × List UInt8)
  | 0 :: bs => untag (fun (n, s, d, p, t) => .etch n s d p t) bs
  | 1 :: bs => untag (fun () => .mint) bs
  | 2 :: bs => untag .transfer bs
  | 3 :: bs => untag .burn bs
  | 4 :: bs => untag (fun () => .initBalance) bs
  | _ => none

instance : Borsh RuneInstruction where
  ser := ser
  de := de
  de_ser := by
    intro ix bs h rest
    cases ix <;>
    · obtain ⟨pre, rfl, hde⟩ := untag_tag (β := RuneInstruction) h
      simp only [List.cons_append, de, hde]

end RuneInstruction

def maxDivisibility : UInt8 := 38

/-! ## Instruction builders -/

def etch (rune etcherBalance etcher : Pubkey) (name : String) (symbol : UInt32)
    (divisibility : UInt8) (premine : UInt64) (terms : Option MintTerms) : Instruction :=
  .withArgs ProgramIds.runesProgram
    [.writable rune false, .writable etcherBalance false, .readonly etcher true]
    (RuneInstruction.etch name symbol divisibility premine terms)

def mint (rune destination minter : Pubkey) : Instruction :=
  .withArgs ProgramIds.runesProgram
    [.writable rune false, .writable destination false, .readonly minter true]
    RuneInstruction.mint

def transfer (source destination owner : Pubkey) (amount : UInt64) : Instruction :=
  .withArgs ProgramIds.runesProgram
    [.writable source false, .writable destination false, .readonly owner true]
    (RuneInstruction.transfer amount)

def burn (rune source owner : Pubkey) (amount : UInt64) : Instruction :=
  .withArgs ProgramIds.runesProgram
    [.writable rune false, .writable source false, .readonly owner true]
    (RuneInstruction.burn amount)

/-! ## Processing -/

/-- The four instructions that need three accounts, the third of them a signer. -/
def requireAuthority (accounts : List AccountInfo) : Outcome Unit := do
  require (decide (3 ≤ accounts.length)) .notEnoughAccounts
  (← slot accounts 2).requireSigner

def run (accounts : List AccountInfo) (timestamp : UInt64) :
    RuneInstruction → Outcome (List AccountInfo)
  | .etch name symbol divisibility premine terms => do
      requireAuthority accounts
      require (!name.isEmpty) .invalidInstruction
      require (decide (divisibility ≤ maxDivisibility)) .invalidInstruction
      let runeKey := (← slot accounts 0).key
      let etcher := (← slot accounts 2).key
      let rune : RuneEtching ← loadOr accounts 0 {}
      require (!rune.isEtched) .alreadyInitialized
      let accounts ← store accounts 0 ({
        name, symbol, divisibility, etcher, premine, terms
        minted := premine
        burned := 0
        isEtched := true } : RuneEtching)
      if premine > 0 then
        let bal : RuneBalance ← loadOr accounts 1 {}
        let amount ← okOr .overflow (checkedAdd bal.amount premine)
        store accounts 1
          ({ rune := runeKey, owner := etcher, amount, isInitialized := true } : RuneBalance)
      else return accounts
  | .mint => do
      requireAuthority accounts
      let runeKey := (← slot accounts 0).key
      let rune : RuneEtching ← load accounts 0
      require rune.isEtched .notInitialized
      let terms ← okOr .unauthorized rune.terms
      require (terms.cap == 0 || decide (terms.mints < terms.cap)) .unauthorized
      require (terms.start == 0 || decide (terms.start ≤ timestamp)) .unauthorized
      require (terms.stop == 0 || decide (timestamp ≤ terms.stop)) .loanExpired
      let mints ← okOr .overflow (checkedAdd terms.mints 1)
      let minted ← okOr .overflow (checkedAdd rune.minted terms.amount)
      let accounts ← store accounts 0 { rune with terms := some { terms with mints }, minted }
      let bal : RuneBalance ← loadOr accounts 1 {}
      let minter := (← slot accounts 2).key
      let amount ← okOr .overflow (checkedAdd bal.amount terms.amount)
      store accounts 1 ({
        rune := runeKey
        owner := if bal.owner == default then minter else bal.owner
        amount
        isInitialized := true } : RuneBalance)
  | .transfer amount => do
      requireAuthority accounts
      let src : RuneBalance ← load accounts 0
      require src.isInitialized .notInitialized
      let dst : RuneBalance ← loadOr accounts 1 {}
      require (!dst.isInitialized || dst.rune == src.rune) .invalidAccountData
      let srcAmount ← okOr .insufficientFunds (checkedSub src.amount amount)
      let dstKey := (← slot accounts 1).key
      let dstAmount ← okOr .overflow (checkedAdd dst.amount amount)
      let accounts ← store accounts 0 { src with amount := srcAmount }
      store accounts 1 ({
        rune := src.rune
        owner := if dst.owner == default then dstKey else dst.owner
        amount := dstAmount
        isInitialized := true } : RuneBalance)
  | .burn amount => do
      requireAuthority accounts
      let rune : RuneEtching ← load accounts 0
      let src : RuneBalance ← load accounts 1
      require src.isInitialized .notInitialized
      let srcAmount ← okOr .insufficientFunds (checkedSub src.amount amount)
      let burned ← okOr .overflow (checkedAdd rune.burned amount)
      let accounts ← store accounts 0 { rune with burned }
      store accounts 1 { src with amount := srcAmount }
  | .initBalance => do
      require (decide (2 ≤ accounts.length)) .notEnoughAccounts
      let owner := (← slot accounts 1).key
      let bal : RuneBalance ← loadOr accounts 0 {}
      require (!bal.isInitialized) .alreadyInitialized
      store accounts 0 { bal with owner, isInitialized := true }

def process (accounts : List AccountInfo) (data : List UInt8) (timestamp : UInt64) :
    Outcome (List AccountInfo) := do
  let ix ← okOr .invalidInstruction (tryFromSlice data)
  run accounts timestamp ix

end Runes
end Programs
end Himsha
