import Himsha.Proof.Panics
import Himsha.Proof.RuneSlots
import Himsha.Proof.RustBuilders
import Himsha.Proof.TokenCalls
import Himsha.Sdk.Builtin

/-!
# What an instruction builder is for

An `Export` is a call of a builder of one of the client libraries beside what the call means: the
variant with the same arguments, and of each account its duty. A `Duty` is
about the table that a handler is given and the one that it leaves, so which slot an account
belongs in is not written down anywhere: it is a slot that every run of the handler puts to that
duty (`Serves`). Nor is the number of accounts: the list is too short where a run stops for want of
an account that more accounts would give it (`Wants`).
-/

set_option autoImplicit false

namespace Himsha
namespace Proof

open Himsha.Lib Himsha.Runtime Himsha.Programs Himsha.Vm Himsha.Sdk

/-! ## Duties -/

/-- What a handler does with the account in a slot: the table that it is given, the table that it
    leaves, the slot. -/
abbrev Duty := List AccountInfo → List AccountInfo → Nat → Prop

namespace Duty

def both (p q : Duty) : Duty := fun accounts out i => p accounts out i ∧ q accounts out i

/-- Of some amount. -/
def any (p : Nat → Duty) : Duty := fun accounts out i => ∃ n, p n accounts out i

/-- Or it stays as it is. -/
def orIdle (p : Duty) : Duty := fun accounts out i => out[i]? = accounts[i]? ∨ p accounts out i

/-- It signs. -/
def signs : Duty := fun accounts _ i => Signed accounts i

/-- It is left like that. -/
def becomes (P : AccountInfo → Prop) : Duty := fun _ out i => ∃ b ∈ out[i]?, P b

/-- A record is left in it. -/
def keeps (α : Type) [Borsh α] (P : α → Prop) : Duty := fun _ out i => ∃ v ∈ recordAt α out i, P v

/-- The record that is left in the first account names it. -/
def named {α : Type} [Borsh α] (field : α → Option Pubkey) : Duty := fun accounts out i =>
  ∃ v ∈ recordAt α out 0, ∃ key ∈ field v, keyAt accounts i = some key

/-- Lamports go out of it. -/
def sends (n : Nat) : Duty := fun accounts out i =>
  ∃ a ∈ accounts[i]?, ∃ b ∈ out[i]?, b.lamports.toNat + n = a.lamports.toNat

/-- Lamports go into it. -/
def gets (n : Nat) : Duty := fun accounts out i =>
  ∃ a ∈ accounts[i]?, ∃ b ∈ out[i]?, b.lamports.toNat = a.lamports.toNat + n

/-- The lamports of the first account go into it. -/
def inherits : Duty := fun accounts out i =>
  ∃ a ∈ accounts[0]?, ∃ b ∈ accounts[i]?, ∃ b' ∈ out[i]?, b'.lamports = b.lamports + a.lamports

/-- Tokens go out of it. -/
def pays (n : Nat) : Duty := fun accounts out i => Paid accounts out i n

/-- Tokens go into it. -/
def receives (n : Nat) : Duty := fun accounts out i => Received accounts out i n

/-- Its tokens are issued. -/
def issues (n : Nat) : Duty := fun accounts out i => Issued accounts out i n

/-- Its tokens are burned. -/
def burns (n : Nat) : Duty := fun accounts out i => Burned accounts out i n

/-- The tokens that go out of it go into one of that duty. -/
def into (p : Duty) : Duty := fun accounts out i =>
  ∃ n j, Paid accounts out i n ∧ Received accounts out j n ∧ p accounts out j

/-- The tokens that go into it come out of one of that duty. -/
def outOf (p : Duty) : Duty := fun accounts out i =>
  ∃ n j, Received accounts out i n ∧ Paid accounts out j n ∧ p accounts out j

/-- What is left in it is the sum that the record in the first account has. -/
def counted {α : Type} [Borsh α] (field : α → UInt64) : Duty := fun _ out i =>
  ∃ v ∈ recordAt α out 0, ∃ token ∈ recordAt Token.TokenAccountState out i, field v = token.amount

/-- It held a record like that. -/
def held (α : Type) [Borsh α] (P : α → Prop) : Duty := fun accounts _ i =>
  ∃ v ∈ recordAt α accounts i, P v

/-- Runes go out of the balance. -/
def loses (n : Nat) : Duty := fun accounts out i =>
  ∃ a ∈ accounts[i]?, ∃ bal ∈ recordAt Runes.RuneBalance out i,
    bal.amount.toNat + n = (balanceIn a).amount.toNat

/-- Runes go into the balance. -/
def gains (n : Nat) : Duty := fun accounts out i =>
  ∃ a ∈ accounts[i]?, ∃ bal ∈ recordAt Runes.RuneBalance out i,
    bal.amount.toNat = (balanceIn a).amount.toNat + n

end Duty

/-- In every run on as many accounts as the instruction lists, whatever they are, slot `i` is put
    to that duty. -/
def Serves (ix : Instruction) (p : Duty) (i : Nat) : Prop :=
  ∀ (π : Profile) (hasher : Lending.Hasher) (accounts out : List AccountInfo) (timestamp : UInt64)
    (th th' : Thread), accounts.length = ix.accounts.length →
    Comp.Returns (runBuiltin π hasher ix.programId accounts ix.data timestamp) th out th' →
    p accounts out i

/-- A run of the instruction stops for want of an account: it is refused for too few of them, or
    panics, and does not where there are more. Overflow checks are on. -/
def Wants (ix : Instruction) (accounts : List AccountInfo) : Prop :=
  ∃ (hasher : Lending.Hasher) (timestamp : UInt64) (f : Fault),
    (f = .err .notEnoughAccounts ∨ f = .panic) ∧
    (Comp.exec (dispatch .dev hasher ix.programId accounts ix.data timestamp) {}).1 = .error f ∧
    ∃ more, (Comp.exec (dispatch .dev hasher ix.programId (accounts ++ more) ix.data timestamp)
      {}).1 ≠ .error f

/-- A call of a builder, and what it means. -/
structure Export where
  built : Instruction
  /-- The variant of the builder's name, with its arguments. -/
  meant : BuiltinInstruction → Prop
  /-- The accounts of the call that the handler looks at, and what they are for. -/
  cast : List (Pubkey × Duty)

/-- On a table that the instruction lists: the data decode to what is meant, with no bytes left
    over, no account is wanting, and each account is in a slot that is put to its duty. -/
def Export.Agrees (e : Export) (accounts : List AccountInfo) : Prop :=
  ∃ v, BuiltinInstruction.decode e.built.programId e.built.data = some v ∧ e.meant v ∧
    ¬ Wants e.built accounts ∧
    ∀ c ∈ e.cast, ∃ i, (e.built.accounts[i]?).map (·.pubkey) = some c.1 ∧ Serves e.built c.2 i

/-! What the accounts are for in the calls that both libraries have. -/

section
open Duty

def lendingCast (collection user : Pubkey) : List (Pubkey × Duty) :=
  [(collection, keeps Lending.CollectionAccount fun _ => True), (user, signs)]

/-- The payer is looked at by nobody. -/
def initializePoolCast (pool mintA mintB reserveA reserveB lpMint : Pubkey) :
    List (Pubkey × Duty) :=
  [(pool, keeps Swap.PoolState (·.isInitialized = true)),
    (mintA, named fun pool : Swap.PoolState => some pool.tokenAMint),
    (mintB, named fun pool : Swap.PoolState => some pool.tokenBMint),
    (reserveA, named fun pool : Swap.PoolState => some pool.tokenAReserve),
    (reserveB, named fun pool : Swap.PoolState => some pool.tokenBReserve),
    (lpMint, named fun pool : Swap.PoolState => some pool.lpMint)]

def swapCast (pool source destination reserveIn reserveOut user : Pubkey) (amountIn : Nat) :
    List (Pubkey × Duty) :=
  [(pool, keeps Swap.PoolState fun _ => True), (source, pays amountIn),
    (destination, any receives), (reserveIn, receives amountIn), (reserveOut, any pays),
    (user, signs)]

def depositCast (pool userA userB reserveA reserveB userLp user : Pubkey) :
    List (Pubkey × Duty) :=
  [(pool, keeps Swap.PoolState fun _ => True), (userA, into (counted Swap.PoolState.reserveA)),
    (userB, into (counted Swap.PoolState.reserveB)),
    (reserveA, both (any receives) (counted Swap.PoolState.reserveA)),
    (reserveB, both (any receives) (counted Swap.PoolState.reserveB)), (userLp, any receives),
    (user, signs)]

def withdrawCast (pool userA userB reserveA reserveB userLp user : Pubkey) (lpAmount : Nat) :
    List (Pubkey × Duty) :=
  [(pool, keeps Swap.PoolState fun _ => True), (userA, outOf (counted Swap.PoolState.reserveA)),
    (userB, outOf (counted Swap.PoolState.reserveB)),
    (reserveA, both (any pays) (counted Swap.PoolState.reserveA)),
    (reserveB, both (any pays) (counted Swap.PoolState.reserveB)), (userLp, pays lpAmount),
    (user, signs)]

end

/-! ## Accounts that are not wanting -/

/-- What the handler of a variant needs of its accounts, when none beyond those that it always
    looks at is given. -/
def needsOf : BuiltinInstruction → Needs
  | .system ix => systemNeeds ix
  | .token ix => tokenNeeds ix
  | .swap ix => swapNeeds ix
  | .lending _ => lendingNeeds
  | .runes ix => runesNeeds ix
  | .moneyMarket ix => moneyMarketNeeds ix
  | .vault ix => vaultNeeds 0 ix
  | .oracle _ => oracleNeeds

section
variable {ix : Instruction} {accounts more : List AccountInfo} {timestamp : UInt64} {i : Nat}

/-- More accounts do no harm. -/
theorem Suits.appended {n : Needs} (h : Suits (.err .notEnoughAccounts) accounts n) :
    Suits (.err .notEnoughAccounts) (accounts ++ more) n where
  writes := nofun
  signs i hi := by
    obtain ⟨a, ha, hs⟩ := h.signs i hi
    exact ⟨a, (List.getElem?_append_left (List.getElem?_eq_some_iff.mp ha).1).trans ha, hs⟩
  count := by
    rw [List.length_append]
    exact Nat.le_trans h.count (Nat.le_add_right ..)

theorem heldAt_appended {α : Type} [Borsh α] (hi : i < accounts.length) :
    (heldAt (accounts ++ more) i : Option α) = heldAt accounts i := by
  unfold heldAt
  rw [List.getElem?_append_left hi]

theorem signed_appended (h : Signed accounts i) : Signed (accounts ++ more) i := by
  obtain ⟨a, ha, hs⟩ := h
  exact ⟨a, (List.getElem?_append_left (List.getElem?_eq_some_iff.mp ha).1).trans ha, hs⟩

/-! A built-in that is safe with more accounts is safe with those that it looks at. -/

theorem SystemSafe.cut {sx : System.SystemInstruction}
    (hcount : (systemNeeds sx).count ≤ accounts.length) (h : SystemSafe (accounts ++ more) sx) :
    SystemSafe accounts sx := by
  have hsame : ∀ i, i < (systemNeeds sx).count → (accounts ++ more)[i]? = accounts[i]? :=
    fun i hi => List.getElem?_append_left (Nat.lt_of_lt_of_le hi hcount)
  cases sx with
  | createAccount =>
    unfold SystemSafe at h ⊢
    rwa [hsame 0 Nat.two_pos, hsame 1 Nat.one_lt_two] at h
  | createAccountWithAnchor =>
    unfold SystemSafe at h ⊢
    rwa [hsame 0 Nat.two_pos, hsame 1 Nat.one_lt_two] at h
  | allocate =>
    unfold SystemSafe at h ⊢
    rwa [hsame 0 Nat.one_pos] at h
  | transfer => trivial
  | assign => trivial

theorem TokenSafe.cut {tx : Token.TokenInstruction}
    (hcount : (tokenNeeds tx).count ≤ accounts.length) (h : TokenSafe (accounts ++ more) tx) :
    TokenSafe accounts tx := by
  cases tx with
  | initializeMint | initializeAccount | revoke | freezeAccount | thawAccount => exact hcount
  | mintTo | transfer | burn => trivial
  | approve =>
    have htwo : 2 ≤ accounts.length := hcount
    exact ⟨by omega, fun _ => htwo⟩
  | closeAccount =>
    have htwo : 2 ≤ accounts.length := hcount
    unfold TokenSafe at h ⊢
    rw [heldAt_appended (by omega), List.getElem?_append_left (by omega),
      List.getElem?_append_left (by omega)] at h
    exact ⟨by omega, h.2⟩

theorem LendingSafe.cut {lx : Lending.LendingInstruction} (hcount : 2 ≤ accounts.length)
    (h : LendingSafe (accounts ++ more) timestamp lx) : LendingSafe accounts timestamp lx := by
  cases lx with
  | repayLoan =>
    unfold LendingSafe at h ⊢
    rwa [heldAt_appended (by omega)] at h
  | _ => trivial

/-- Without a market the vault computes nothing that could not fit. -/
theorem vaultSafe_withoutMarket {vx : Vault.VaultInstruction}
    (hcount : accounts.length = (vaultNeeds 0 vx).count) (hlent : ∀ amount, vx ≠ .deploy amount)
    (hlent' : ∀ amount, vx ≠ .undeploy amount) : VaultSafe accounts timestamp vx := by
  cases vx with
  | initVault => trivial
  | deposit =>
    have hsix : accounts.length = 6 := hcount
    intro _ _ vault _ _ _ hseven
    omega
  | withdraw =>
    have hsix : accounts.length = 6 := hcount
    intro _ vault _ _
    refine ⟨fun _ hseven => ?_, fun _ _ _ _ _ _ _ _ hnine => ?_⟩
    · omega
    · omega
  | report =>
    have hfive : accounts.length = 5 := hcount
    intro _ _ vault _ _ _ _ m hm
    have hlt := heldAt_lt hm
    omega
  | deploy amount => exact absurd rfl (hlent amount)
  | undeploy amount => exact absurd rfl (hlent' amount)

/-- A vault instruction that the market has no part in lists the accounts that it looks at and no
    others; and of the money market's instructions only the first is meant here. -/
def WithoutMarket (given : Nat) : BuiltinInstruction → Prop
  | .moneyMarket (.initMarket _) => True
  | .moneyMarket _ | .vault (.deploy _) | .vault (.undeploy _) => False
  | .vault vx => given = (vaultNeeds 0 vx).count
  | _ => True

variable {v : BuiltinInstruction} {f : Fault}

/-- The accounts meet what the handler needs, so that it is provided for. -/
theorem provides_of_suits (hprogram : ix.programId = v.programId)
    (hencode : v.encode = some ix.data)
    (hsuits : Suits f accounts (needsOf v)) (hnine : ∀ vx, v = .vault vx → accounts.length < 9)
    (hgiven : f = .err .notEnoughAccounts → v = .vault .report → MarketGiven accounts) :
    Provides f accounts ix.data ix.programId := by
  rw [hprogram]
  cases v with
  | system sx =>
    refine .system fun sx' h => ?_
    rw [tryFromSlice_toVec hencode, Option.some.injEq] at h
    exact h ▸ hsuits
  | token tx =>
    refine .token fun tx' h => ?_
    rw [tryFromSlice_toVec hencode, Option.some.injEq] at h
    exact h ▸ hsuits
  | swap sx =>
    refine .swap fun sx' h => ?_
    rw [tryFromSlice_toVec hencode, Option.some.injEq] at h
    exact h ▸ hsuits
  | lending lx => exact .lending hsuits
  | runes rx =>
    refine .runes fun rx' h => ?_
    rw [tryFromSlice_toVec hencode, Option.some.injEq] at h
    exact h ▸ hsuits
  | moneyMarket mx =>
    refine .moneyMarket fun mx' h => ?_
    rw [tryFromSlice_toVec hencode, Option.some.injEq] at h
    exact h ▸ hsuits
  | vault vx =>
    refine .vault fun vx' h => ?_
    rw [tryFromSlice_toVec hencode, Option.some.injEq] at h
    subst h
    have hfew : ¬ 9 ≤ accounts.length := Nat.not_le_of_lt (hnine vx rfl)
    have hneeds : vaultNeeds accounts.length vx = vaultNeeds 0 vx := by
      cases vx with
      | withdraw =>
        unfold vaultNeeds
        rw [if_neg hfew, if_neg (by decide)]
      | _ => rfl
    rw [hneeds]
    exact ⟨hsuits, fun hf hreport => hgiven hf (hreport ▸ rfl)⟩
  | oracle ox => exact .oracle hsuits

theorem withoutMarket_vault {vx : Vault.VaultInstruction} {given : Nat}
    (h : WithoutMarket given (.vault vx)) :
    given = (vaultNeeds 0 vx).count ∧ given < 9 ∧ (∀ amount, vx ≠ .deploy amount) ∧
      ∀ amount, vx ≠ .undeploy amount := by
  cases vx with
  | initVault => exact ⟨h, Eq.trans_lt h (by decide : 5 < 9), fun _ => nofun, fun _ => nofun⟩
  | deposit => exact ⟨h, Eq.trans_lt h (by decide : 6 < 9), fun _ => nofun, fun _ => nofun⟩
  | withdraw => exact ⟨h, Eq.trans_lt h (by decide : 6 < 9), fun _ => nofun, fun _ => nofun⟩
  | report => exact ⟨h, Eq.trans_lt h (by decide : 5 < 9), fun _ => nofun, fun _ => nofun⟩
  | deploy => exact h.elim
  | undeploy => exact h.elim

/-- What is safe with more accounts is safe with those that the handler looks at. -/
theorem safe_cut (hprogram : ix.programId = v.programId) (hencode : v.encode = some ix.data)
    (hcount : (needsOf v).count ≤ accounts.length) (hwithout : WithoutMarket accounts.length v)
    (h : Safe ix.programId (accounts ++ more) ix.data timestamp) :
    Safe ix.programId accounts ix.data timestamp := by
  rw [hprogram] at h ⊢
  cases v with
  | system sx =>
    have hread : tryFromSlice ix.data = some sx := tryFromSlice_toVec hencode
    intro sx' hx
    obtain rfl := Option.some.inj (hread.symm.trans hx)
    exact SystemSafe.cut hcount (h sx hread)
  | token tx =>
    have hread : tryFromSlice ix.data = some tx := tryFromSlice_toVec hencode
    intro tx' hx
    obtain rfl := Option.some.inj (hread.symm.trans hx)
    exact TokenSafe.cut hcount (h tx hread)
  | lending lx =>
    have hread : tryFromSlice ix.data = some lx := tryFromSlice_toVec hencode
    intro lx' hx hsigned
    obtain rfl := Option.some.inj (hread.symm.trans hx)
    exact LendingSafe.cut hcount (h lx hread (signed_appended hsigned))
  | moneyMarket mx =>
    have hread : tryFromSlice ix.data = some mx := tryFromSlice_toVec hencode
    intro mx' hx
    obtain rfl := Option.some.inj (hread.symm.trans hx)
    cases mx with
    | initMarket => trivial
    | _ => exact hwithout.elim
  | vault vx =>
    have hread : tryFromSlice ix.data = some vx := tryFromSlice_toVec hencode
    intro vx' hx
    obtain rfl := Option.some.inj (hread.symm.trans hx)
    obtain ⟨hcount', -, hlent, hlent'⟩ := withoutMarket_vault hwithout
    exact vaultSafe_withoutMarket hcount' hlent hlent'
  | swap sx => trivial
  | runes rx => trivial
  | oracle ox => trivial

/-- Where the list is as long as the handler looks, and a report finds the market that it needs,
    no account is wanting. -/
theorem not_wants (hprogram : ix.programId = v.programId) (hencode : v.encode = some ix.data)
    (hlisted : Listed ix accounts) (hmarked : (needsOf v).marked ix.accounts = true)
    (hwithout : WithoutMarket ix.accounts.length v)
    (hgiven : v = .vault .report → MarketGiven accounts) : ¬ Wants ix accounts := by
  rw [← hlisted.length] at hwithout
  rintro ⟨hasher, timestamp, f, rfl | rfl, hstops, more, hruns⟩
  · have hsuits : Suits (.err .notEnoughAccounts) accounts (needsOf v) :=
      hlisted.suits nofun hmarked
    have hprovides : Provides (.err .notEnoughAccounts) accounts ix.data ix.programId := by
      refine provides_of_suits hprogram hencode hsuits ?_ fun _ => hgiven
      rintro vx rfl
      exact (withoutMarket_vault hwithout).2.1
    exact dispatch_declares (f := .err .notEnoughAccounts) trivial hprovides _ hstops
  · -- It panics with these accounts, so it does with more.
    have hsafe := (dispatch_calm hasher _ (accounts ++ more) ix.data timestamp {}).mp hruns
    have hcount : (needsOf v).count ≤ accounts.length := by
      rw [hlisted.length]
      exact of_decide_eq_true (Bool.and_eq_true_iff.mp hmarked).2
    exact (dispatch_calm hasher _ accounts ix.data timestamp {}).mpr
      (safe_cut hprogram hencode hcount hwithout hsafe) hstops

end

end Proof
end Himsha
