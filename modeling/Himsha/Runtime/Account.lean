import Himsha.Lib.UInt
import Himsha.Runtime.Pubkey

/-!
# `error.rs`, `utxo.rs` and `account.rs`

A program gets a list of `AccountInfo`s, one independent copy per slot, and gives back a list of
the same length or fails. There are two ways to fail: an error it returns, and a panic (an index
out of bounds, an overflow in a build with checks). Both are a `Fault`, since the caller treats
them differently.
-/

set_option autoImplicit false

namespace Himsha
namespace Runtime

open Lib

/-- Errors returned by programs. -/
inductive ProgramError where
  | custom (code : UInt32)
  | invalidInstruction
  | invalidAccountData
  | accountDataTooSmall
  | insufficientFunds
  | wrongProgram
  | alreadyInitialized
  | notInitialized
  | notEnoughAccounts
  | notWritable
  | missingSigner
  | overflow
  | invalidUtxo
  | unauthorized
  | cpiDepthExceeded
  | borshError
  | loanNotExpired
  | loanExpired
  | slippageExceeded
  | poolEmpty
  | undercollateralized
  | insufficientLiquidity
  | stalePrice
  | illegalOwnerWrite
  | priceOutOfBounds
  | computeExhausted
  | duplicateWritableAccount
deriving DecidableEq, Repr

/-- `{:#x}` of a number. -/
def lowerHex (n : Nat) : String := "0x" ++ String.ofList (Nat.toDigits 16 n)

/-- The `Display` text of an error. -/
def ProgramError.message : ProgramError → String
  | .custom code => "custom(" ++ lowerHex code.toNat ++ ")"
  | .invalidInstruction => "bad instruction data"
  | .invalidAccountData => "bad account data"
  | .accountDataTooSmall => "account too small"
  | .insufficientFunds => "insufficient lamports"
  | .wrongProgram => "wrong program id"
  | .alreadyInitialized => "already initialized"
  | .notInitialized => "not initialized"
  | .notEnoughAccounts => "missing accounts"
  | .notWritable => "account not writable"
  | .missingSigner => "missing signature"
  | .overflow => "arithmetic overflow"
  | .invalidUtxo => "invalid UTXO"
  | .unauthorized => "unauthorized"
  | .cpiDepthExceeded => "CPI depth exceeded"
  | .borshError => "borsh error"
  | .loanNotExpired => "loan not expired"
  | .loanExpired => "loan expired"
  | .slippageExceeded => "slippage exceeded"
  | .poolEmpty => "pool empty"
  | .undercollateralized => "position undercollateralized"
  | .insufficientLiquidity => "insufficient liquidity"
  | .stalePrice => "stale or missing price"
  | .illegalOwnerWrite => "write to an account the program does not own"
  | .priceOutOfBounds => "price moves more than the feed's deviation bound"
  | .computeExhausted => "compute budget exhausted"
  | .duplicateWritableAccount => "the same account appears writable more than once"

inductive Fault where
  | err (e : ProgramError)
  | panic
deriving DecidableEq, Repr

/-- What a program returns. -/
abbrev Outcome := Except Fault

def fail {α : Type} (e : ProgramError) : Outcome α := .error (.err e)

/-- A panicking operation, `none` being the panic. -/
def orPanic {α : Type} : Option α → Outcome α
  | some a => .ok a
  | none => .error .panic

/-- `.ok_or(e)`. -/
def okOr {α : Type} (e : ProgramError) : Option α → Outcome α
  | some a => .ok a
  | none => fail e

def require (c : Bool) (e : ProgramError) : Outcome Unit :=
  if c then .ok () else fail e

section
variable {α β : Type}

@[simp] theorem okOr_eq_ok {e : ProgramError} {o : Option α} {a : α} :
    okOr e o = .ok a ↔ o = some a := by
  cases o <;> simp [okOr, fail]

@[simp] theorem orPanic_eq_ok {o : Option α} {a : α} : orPanic o = .ok a ↔ o = some a := by
  cases o <;> simp [orPanic]

@[simp] theorem require_eq_ok {c : Bool} {e : ProgramError} {u : Unit} :
    require c e = .ok u ↔ c = true := by
  cases c <;> simp [require, fail]

@[simp] theorem fail_ne_ok {e : ProgramError} {a : α} : (fail e : Outcome α) ≠ .ok a := by
  simp [fail]

/-- Peel the first step off a computation that succeeded. -/
theorem bind_eq_ok {ε : Type} {x : Except ε α} {f : α → Except ε β} {b : β} :
    (x >>= f) = .ok b ↔ ∃ a, x = .ok a ∧ f a = .ok b := by
  cases x with
  | ok a => exact ⟨fun h => ⟨a, rfl, h⟩, fun ⟨a', ha, h⟩ => by cases ha; exact h⟩
  | error e =>
    constructor
    · intro h
      exact absurd h (by simp [bind, Except.bind])
    · rintro ⟨a, ha, -⟩
      exact absurd ha (by simp)

end

/-- Minimal reference to a Bitcoin UTXO. -/
structure UtxoMeta where
  txid : Blob 32
  vout : UInt32
deriving DecidableEq

instance : Borsh UtxoMeta := .iso (fun u => (u.txid, u.vout)) (fun p => ⟨p.1, p.2⟩) fun _ => rfl

instance : Canonical UtxoMeta :=
  .iso (f := fun u : UtxoMeta => (u.txid, u.vout)) (g := fun p => ⟨p.1, p.2⟩) (fun _ => rfl)
    fun _ => rfl

/-- Lifecycle state for token accounts. -/
inductive AccountState where
  | uninitialized
  | initialized
  | frozen
deriving DecidableEq, Repr

instance : Borsh AccountState where
  ser
    | .uninitialized => some [0]
    | .initialized => some [1]
    | .frozen => some [2]
  de
    | 0 :: bs => some (.uninitialized, bs)
    | 1 :: bs => some (.initialized, bs)
    | 2 :: bs => some (.frozen, bs)
    | _ => none
  de_ser := by
    intro s bs h rest
    cases s <;> simp only [Option.some.injEq] at h <;> subst h <;> rfl

instance : Sized AccountState :=
  .fixed 1 fun s bs h => by
    cases s <;> simp [← Option.some.inj h]

instance : Canonical AccountState where
  ser_de := by
    intro bs rest s h
    simp only [Borsh.de] at h
    split at h
    · simp only [Option.some.injEq, Prod.mk.injEq] at h
      exact ⟨[0], by simp [Borsh.ser, ← h.1], by simp [h.2]⟩
    · simp only [Option.some.injEq, Prod.mk.injEq] at h
      exact ⟨[1], by simp [Borsh.ser, ← h.1], by simp [h.2]⟩
    · simp only [Option.some.injEq, Prod.mk.injEq] at h
      exact ⟨[2], by simp [Borsh.ser, ← h.1], by simp [h.2]⟩
    · simp at h

/-- How an account is accessed within one instruction. -/
structure AccountMeta where
  pubkey : Pubkey
  isSigner : Bool
  isWritable : Bool
deriving DecidableEq

instance : Borsh AccountMeta :=
  .iso (fun m => (m.pubkey, m.isSigner, m.isWritable)) (fun (k, s, w) => ⟨k, s, w⟩) fun _ => rfl

def AccountMeta.writable (pubkey : Pubkey) (isSigner : Bool) : AccountMeta :=
  { pubkey, isSigner, isWritable := true }

def AccountMeta.readonly (pubkey : Pubkey) (isSigner : Bool) : AccountMeta :=
  { pubkey, isSigner, isWritable := false }

/-- A live account as seen by a running program. -/
structure AccountInfo where
  key : Pubkey
  lamports : UInt64
  data : List UInt8
  /-- Program that can write to `data`. -/
  owner : Pubkey
  executable : Bool := false
  /-- Did this account authorize the instruction? Not persisted. -/
  isSigner : Bool := false
  /-- May this account's data be mutated? Not persisted. -/
  isWritable : Bool := true
  utxo : Option UtxoMeta := none
deriving DecidableEq

instance : Borsh AccountInfo :=
  .iso (fun a => (a.key, a.lamports, a.data, a.owner, a.executable, a.isSigner, a.isWritable,
      a.utxo))
    (fun (k, l, d, o, e, s, w, u) => ⟨k, l, d, o, e, s, w, u⟩) fun _ => rfl

/-- Compact form stored in the database. -/
structure StoredAccount where
  lamports : UInt64
  data : List UInt8
  owner : Pubkey
  executable : Bool
  utxoTxid : Option (Blob 32)
  utxoVout : Option UInt32
deriving DecidableEq

namespace AccountInfo

def new (key owner : Pubkey) (lamports : UInt64) (space : Nat) : AccountInfo :=
  { key, lamports, data := List.replicate space 0, owner }

/-- Require that this account signed the instruction. -/
def requireSigner (a : AccountInfo) : Outcome Unit := require a.isSigner .missingSigner

def readData {α : Type} [Borsh α] (a : AccountInfo) : Outcome α :=
  okOr .borshError (tryFromSlice a.data)

/-- Serialize `value` into the account's data. Refuses a non-writable account. -/
def writeData {α : Type} [Borsh α] (a : AccountInfo) (value : α) : Outcome AccountInfo :=
  if a.isWritable then
    (okOr .borshError (toVec value)).map fun data => { a with data }
  else fail .notWritable

/-- `StoredAccount::from`. -/
def toStored (a : AccountInfo) : StoredAccount where
  lamports := a.lamports
  data := a.data
  owner := a.owner
  executable := a.executable
  utxoTxid := a.utxo.map (·.txid)
  utxoVout := a.utxo.map (·.vout)

end AccountInfo

/-- `StoredAccount::into_account`. -/
def StoredAccount.intoAccount (s : StoredAccount) (key : Pubkey) : AccountInfo where
  key := key
  lamports := s.lamports
  data := s.data
  owner := s.owner
  executable := s.executable
  isSigner := false
  isWritable := true
  utxo := match s.utxoTxid, s.utxoVout with
    | some txid, some vout => some ⟨txid, vout⟩
    | _, _ => none

/-- Reject a list that names the same key in two slots that are both writable. -/
def rejectDuplicateWritable : List AccountInfo → Outcome Unit
  | [] => .ok ()
  | a :: rest =>
      if a.isWritable && rest.any (fun b => b.isWritable && b.key == a.key) then
        fail .duplicateWritableAccount
      else rejectDuplicateWritable rest

/-- `accounts[i]`, which panics out of bounds. -/
def slot (accounts : List AccountInfo) (i : Nat) : Outcome AccountInfo := orPanic accounts[i]?

/-- `accounts[i].read_data()?`. -/
def load {α : Type} [Borsh α] (accounts : List AccountInfo) (i : Nat) : Outcome α := do
  (← slot accounts i).readData

/-- `accounts[i].read_data().unwrap_or_default()`, the default being given. -/
def loadOr {α : Type} [Borsh α] (accounts : List AccountInfo) (i : Nat) (dflt : α) :
    Outcome α := do
  return (tryFromSlice (← slot accounts i).data).getD dflt

/-- `accounts[i].write_data(&value)?`. -/
def store {α : Type} [Borsh α] (accounts : List AccountInfo) (i : Nat) (value : α) :
    Outcome (List AccountInfo) := do
  let a ← (← slot accounts i).writeData value
  return accounts.set i a

/-- `vec![0u8; space as usize]`; a request above `isize::MAX` panics. -/
def zeroed (space : UInt64) : Outcome (List UInt8) :=
  if space.toNat < 2 ^ 63 then .ok (List.replicate space.toNat 0) else .error .panic

theorem writeData_eq_ok {α : Type} [Borsh α] {a a' : AccountInfo} {value : α}
    (h : a.writeData value = .ok a') :
    a.isWritable = true ∧ ∃ data, toVec value = some data ∧ a' = { a with data } := by
  unfold AccountInfo.writeData at h
  split at h
  · rename_i hw
    cases hv : toVec value with
    | none => rw [hv] at h; simp [okOr, fail, Except.map] at h
    | some data =>
      rw [hv] at h
      simp only [okOr, Except.map, Except.ok.injEq] at h
      exact ⟨hw, data, rfl, h.symm⟩
  · simp at h

theorem readData_eq_ok {α : Type} [Borsh α] {a : AccountInfo} {value : α}
    (h : a.readData = .ok value) : tryFromSlice a.data = some value := by
  simpa [AccountInfo.readData] using h

theorem slot_eq_ok {accounts : List AccountInfo} {i : Nat} {a : AccountInfo}
    (h : slot accounts i = .ok a) : accounts[i]? = some a := by
  simpa [slot] using h

theorem load_eq_ok {α : Type} [Borsh α] {accounts : List AccountInfo} {i : Nat} {value : α}
    (h : load accounts i = .ok value) :
    ∃ a, accounts[i]? = some a ∧ tryFromSlice a.data = some value := by
  obtain ⟨a, ha, hread⟩ := bind_eq_ok.mp h
  exact ⟨a, slot_eq_ok ha, readData_eq_ok hread⟩

theorem loadOr_eq_ok {α : Type} [Borsh α] {accounts : List AccountInfo} {i : Nat}
    {dflt value : α} (h : loadOr accounts i dflt = .ok value) :
    ∃ a, accounts[i]? = some a ∧ (tryFromSlice a.data).getD dflt = value := by
  obtain ⟨a, ha, hread⟩ := bind_eq_ok.mp h
  exact ⟨a, slot_eq_ok ha, by simpa [pure, Except.pure] using hread⟩

/-- A write changes the data of one writable slot and nothing else. -/
theorem store_eq_ok {α : Type} [Borsh α] {accounts accounts' : List AccountInfo} {i : Nat}
    {value : α} (h : store accounts i value = .ok accounts') :
    ∃ a data, accounts[i]? = some a ∧ a.isWritable = true ∧ toVec value = some data ∧
      accounts' = accounts.set i { a with data } := by
  obtain ⟨a, ha, hrest⟩ := bind_eq_ok.mp h
  obtain ⟨a', hwrite, hret⟩ := bind_eq_ok.mp hrest
  obtain ⟨hw, data, hdata, rfl⟩ := writeData_eq_ok hwrite
  simp only [pure, Except.pure, Except.ok.injEq] at hret
  exact ⟨a, data, slot_eq_ok ha, hw, hdata, hret.symm⟩

/-- No two writable slots of an accepted list have one key. -/
theorem rejectDuplicateWritable_eq_ok {accounts : List AccountInfo} :
    rejectDuplicateWritable accounts = .ok () ↔
      accounts.Pairwise fun a b => a.isWritable = true → b.isWritable = true → a.key ≠ b.key := by
  induction accounts with
  | nil => simp [rejectDuplicateWritable]
  | cons a rest ih =>
    simp only [rejectDuplicateWritable, List.pairwise_cons]
    constructor
    · intro h
      split at h
      · simp at h
      · rename_i hno
        refine ⟨fun b hb hwa hwb heq => hno ?_, ih.mp h⟩
        simp only [Bool.and_eq_true, List.any_eq_true, beq_iff_eq]
        exact ⟨hwa, b, hb, hwb, heq.symm⟩
    · rintro ⟨hhead, htail⟩
      split
      · rename_i hdup
        simp only [Bool.and_eq_true, List.any_eq_true, beq_iff_eq] at hdup
        obtain ⟨hwa, b, hb, hwb, heq⟩ := hdup
        exact absurd heq.symm (hhead b hb hwa hwb)
      · exact ih.mpr htail

end Runtime
end Himsha
