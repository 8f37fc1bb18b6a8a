import Himsha.Programs.Builders
import Himsha.Proof.NeedsCalls
import Himsha.Proof.Overlay
import Himsha.Proof.ReadOnly

/-!
# What the builders list

An instruction that a builder of the program crates made is run on a table with the keys and the
flags of its list. `Provides` says that a built-in is given what it needs (`Needs`), and
`built_provides` that a built instruction gives it, with two exceptions. The swap's own builder
lists the pool read-only although the handler writes the cached reserves to it, so what it builds
never goes through. And the builder of a report without a market is for vaults that hold no lender
shares; there is another one for those that do.
-/

set_option autoImplicit false

namespace Himsha
namespace Proof

open Himsha.Lib Himsha.Runtime Himsha.Programs Himsha.Vm
open Himsha.Programs.Builders (Builds)

/-! ## Lists -/

/-- The table has the keys and the flags of the instruction's list. -/
def Listed (ix : Instruction) (accounts : List AccountInfo) : Prop :=
  accounts.map (fun a => (⟨a.key, a.isSigner, a.isWritable⟩ : AccountMeta)) = ix.accounts

instance (ix : Instruction) (accounts : List AccountInfo) : Decidable (Listed ix accounts) :=
  inferInstanceAs (Decidable (_ = _))

/-- What is written is marked writable. -/
def Needs.opened (metas : List AccountMeta) (n : Needs) : Bool :=
  n.writes.all fun i => metas[i]?.any (·.isWritable)

/-- What has to sign is marked as a signer, and the list is long enough. -/
def Needs.marked (metas : List AccountMeta) (n : Needs) : Bool :=
  n.signs.all (fun i => metas[i]?.any (·.isSigner)) && decide (n.count ≤ metas.length)

section
variable {ix : Instruction} {accounts : List AccountInfo} {f : Fault} {n : Needs} {i : Nat}

/-- The accounts that the node gives an instruction. -/
theorem listed_accountsOf (t : Node.Accounts) (ix : Instruction) : Listed ix (accountsOf t ix) := by
  unfold Listed accountsOf
  rw [List.map_map]
  refine (List.map_congr_left fun am _ => ?_).trans (List.map_id _)
  change (⟨(accountAt t ix.programId am).key, am.isSigner, am.isWritable⟩ : AccountMeta) = am
  unfold accountAt
  cases t.lookup am.pubkey <;> rfl

theorem Listed.length (h : Listed ix accounts) : accounts.length = ix.accounts.length := by
  rw [← h, List.length_map]

theorem Listed.slot (h : Listed ix accounts) {a : AccountInfo} (ha : accounts[i]? = some a) :
    ix.accounts[i]? = some ⟨a.key, a.isSigner, a.isWritable⟩ := by
  rw [← h, List.getElem?_map, ha]
  rfl

/-- A list that opens and marks what is needed meets it. -/
theorem Listed.suits (h : Listed ix accounts)
    (hopened : f = .err .notWritable → n.opened ix.accounts = true)
    (hmarked : n.marked ix.accounts = true) : Suits f accounts n := by
  simp only [Needs.marked, Bool.and_eq_true, List.all_eq_true, decide_eq_true_eq,
    Option.any_eq_true] at hmarked
  constructor
  · intro hf i hi a ha
    obtain ⟨am, ham, hw⟩ := (Option.any_eq_true ..).mp (List.all_eq_true.mp (hopened hf) i hi)
    rw [h.slot ha, Option.some.injEq] at ham
    subst ham
    exact hw
  · intro i hi
    obtain ⟨am, ham, hs⟩ := hmarked.1 i hi
    rw [← h, List.getElem?_map] at ham
    obtain ⟨a, ha, rfl⟩ := Option.map_eq_some_iff.mp ham
    exact ⟨a, ha, hs⟩
  · rw [h.length]
    exact hmarked.2

end

/-! ## What a built-in is given -/

/-- The built-in is given what the instruction in `data` needs of its accounts. -/
inductive Provides (f : Fault) (accounts : List AccountInfo) (data : List UInt8) : Pubkey → Prop
  | system (h : ∀ ix, tryFromSlice data = some ix → Suits f accounts (systemNeeds ix)) :
      Provides f accounts data ProgramIds.systemProgram
  | token (h : ∀ ix, tryFromSlice data = some ix → Suits f accounts (tokenNeeds ix)) :
      Provides f accounts data ProgramIds.tokenProgram
  | ata (h : Suits f accounts ataNeeds) : Provides f accounts data ProgramIds.ataProgram
  | swap (h : ∀ ix, tryFromSlice data = some ix → Suits f accounts (swapNeeds ix)) :
      Provides f accounts data ProgramIds.swapProgram
  | nftMetadata (h : ∀ ix, tryFromSlice data = some ix → Suits f accounts (nftMetadataNeeds ix)) :
      Provides f accounts data ProgramIds.nftMetadataProgram
  | lending (h : Suits f accounts lendingNeeds) : Provides f accounts data ProgramIds.lendingProgram
  | runes (h : ∀ ix, tryFromSlice data = some ix → Suits f accounts (runesNeeds ix)) :
      Provides f accounts data ProgramIds.runesProgram
  | moneyMarket (h : ∀ ix, tryFromSlice data = some ix → Suits f accounts (moneyMarketNeeds ix)) :
      Provides f accounts data ProgramIds.moneyMarketProgram
  | vault (h : ∀ ix, tryFromSlice data = some ix →
        Suits f accounts (vaultNeeds accounts.length ix) ∧
          (f = .err .notEnoughAccounts → ix = .report → MarketGiven accounts)) :
      Provides f accounts data ProgramIds.vaultProgram
  | oracle (h : Suits f accounts oracleNeeds) : Provides f accounts data ProgramIds.oracleProgram

section
variable {accounts : List AccountInfo} {data : List UInt8} {f : Fault} {programId : Pubkey}
  {π : Profile} {hasher : Lending.Hasher} {timestamp : UInt64}

/-- An instruction is decoded before it is run. -/
theorem decoded_avoids {α : Type} [Borsh α] {run : α → Prog (List AccountInfo)}
    (hf : Undeclared f) (h : ∀ ix, tryFromSlice data = some ix → Comp.Avoids f (run ix)) :
    Comp.Avoids f ((liftM (okOr .invalidInstruction (tryFromSlice data)) : Prog α) >>= run) :=
  lift_avoids_ok (declares_okOr hf id) fun ix hix => h ix (okOr_eq_ok.mp hix)

theorem decoded_avoids_except {α : Type} [Borsh α] {run : α → Outcome (List AccountInfo)}
    (hf : Undeclared f) (h : ∀ ix, tryFromSlice data = some ix → Avoids f (run ix)) :
    Avoids f (okOr .invalidInstruction (tryFromSlice data) >>= run) :=
  avoids_bind.mpr ⟨declares_okOr hf id, fun ix hix => h ix (okOr_eq_ok.mp hix)⟩

theorem runBuiltin_declares (hf : Undeclared f) (h : Provides f accounts data programId) :
    Comp.Avoids f (runBuiltin π hasher programId accounts data timestamp) := by
  cases h with
  | system h =>
    change Comp.Avoids f (liftM (System.process accounts data) : Prog _)
    exact .ofExcept (decoded_avoids_except hf fun ix hix => system_declares hf (h ix hix))
  | token h =>
    change Comp.Avoids f (liftM (Token.process π accounts data) : Prog _)
    exact .ofExcept (decoded_avoids_except hf fun ix hix => token_declares hf (h ix hix))
  | ata h =>
    change Comp.Avoids f (Ata.process π accounts data)
    exact ata_declares hf h
  | swap h =>
    change Comp.Avoids f (Swap.process π accounts data)
    exact decoded_avoids hf fun ix hix => swap_declares hf (h ix hix)
  | nftMetadata h =>
    change Comp.Avoids f (liftM (NftMetadata.process π accounts data) : Prog _)
    exact .ofExcept (decoded_avoids_except hf fun ix hix => nftMetadata_declares hf (h ix hix))
  | lending h =>
    change Comp.Avoids f (liftM (Lending.process π hasher accounts data timestamp) : Prog _)
    obtain ⟨a, ha, hs⟩ := h.signs 1 List.mem_cons_self
    have hsigned : (accounts[1]?.map (·.isSigner)).getD false = true := by
      rw [ha]
      exact hs
    refine .ofExcept (decoded_avoids_except hf fun ix _ => .bind ?_ fun _ => lending_declares hf h)
    rw [hsigned]
    exact nofun
  | runes h =>
    change Comp.Avoids f (liftM (Runes.process accounts data timestamp) : Prog _)
    exact .ofExcept (decoded_avoids_except hf fun ix hix => runes_declares hf (h ix hix))
  | moneyMarket h =>
    change Comp.Avoids f (MoneyMarket.process π timestamp accounts data)
    exact decoded_avoids hf fun ix hix => moneyMarket_declares hf (h ix hix)
  | vault h =>
    change Comp.Avoids f (Vault.process π timestamp accounts data)
    exact decoded_avoids hf fun ix hix => vault_declares hf (h ix hix).1 (h ix hix).2
  | oracle h =>
    change Comp.Avoids f (liftM (Oracle.process π accounts data timestamp) : Prog _)
    exact .ofExcept (decoded_avoids_except hf fun ix hix =>
      .bind (declares_enough h.count) fun _ => oracle_declares hf h)

/-- And what goes on around the built-in is about none of this. -/
theorem dispatch_declares (hf : Undeclared f) (h : Provides f accounts data programId) :
    Comp.Avoids f (dispatch π hasher programId accounts data timestamp) :=
  .seq (fun _ => nofun) fun _ => .seq (runBuiltin_declares hf h) fun after =>
    validateWrites_avoids hf.not_runtime programId accounts after

/-- Given what they need, the instructions that look at no flag change what is writable. -/
theorem Provides.heeds (h : Provides (.err .notWritable) accounts data programId) :
    heedsFlags programId accounts data := by
  have hopen : ∀ {n : Needs} {i : Nat} {idle : AccountInfo → Prop},
      Suits (.err .notWritable) accounts n → n.writes.contains i = true →
      Heeds accounts i idle := by
    intro n i idle hsuits hi a ha hreadonly
    rw [hsuits.writes rfl i (List.contains_iff_mem.mp hi) a ha] at hreadonly
    exact absurd hreadonly nofun
  unfold heedsFlags
  cases h with
  | system h =>
    rw [if_pos rfl]
    intro ix hix
    have hsuits := h ix hix
    cases ix with
    | createAccount => exact ⟨hopen hsuits rfl, hopen hsuits rfl⟩
    | createAccountWithAnchor => exact hopen hsuits rfl
    | transfer => exact ⟨hopen hsuits rfl, hopen hsuits rfl⟩
    | assign => exact hopen hsuits rfl
    | allocate => exact hopen hsuits rfl
  | token h =>
    rw [if_neg (by decide), if_pos rfl]
    intro hclose
    exact ⟨hopen (h _ hclose) rfl, hopen (h _ hclose) rfl⟩
  | _ =>
    rw [if_neg (by decide), if_neg (by decide)]
    trivial

end

/-! ## What the builders give -/

/-- The instruction is one of the swap's own builder. -/
def SwapsPool (ix : Instruction) : Prop :=
  ∃ pool source destination reserveIn reserveOut user amountIn minOut,
    ix = Builders.Swap.swap pool source destination reserveIn reserveOut user amountIn minOut

/-- A report without a market, by the manager of a vault that holds shares of one. -/
def Unpriced (ix : Instruction) (accounts : List AccountInfo) : Prop :=
  (∃ vault manager assetVault shareMint managerShares,
    ix = Builders.Vault.report vault manager assetVault shareMint managerShares) ∧
  ∃ (vault : Vault.VaultState) (manager : AccountInfo), load accounts 0 = .ok vault ∧
    vault.isInitialized = true ∧ accounts[1]? = some manager ∧ manager.key = vault.manager ∧
    0 < vault.lenderShares

/-- What is decoded of a built instruction is what was encoded. -/
theorem decodes_built {α : Type} [Borsh α] {programId : Pubkey} {metas : List AccountMeta}
    {args : α} {P : α → Prop} (hnil : tryFromSlice (α := α) [] = none) (h : P args) :
    ∀ ix, tryFromSlice (Instruction.withArgs programId metas args).data = some ix → P ix := by
  intro ix hix
  change tryFromSlice ((toVec args).getD []) = some ix at hix
  cases hvec : toVec args with
  | none =>
    rw [hvec, Option.getD_none, hnil] at hix
    cases hix
  | some data =>
    rw [hvec, Option.getD_some, tryFromSlice_toVec hvec] at hix
    exact Option.some.inj hix ▸ h

section
variable {ix : Instruction} {accounts : List AccountInfo} {f : Fault}

/-- **The builders give what is needed.** -/
theorem built_provides (h : Builds ix) (hlisted : Listed ix accounts)
    (hpool : f = .err .notWritable → ¬ SwapsPool ix)
    (hpriced : f = .err .notEnoughAccounts → ¬ Unpriced ix accounts) :
    Provides f accounts ix.data ix.programId := by
  cases h with
  | createAccount | createAccountWithAnchor | systemTransfer | assign | allocate =>
    exact .system (decodes_built rfl (hlisted.suits (fun _ => rfl) rfl))
  | initializeMint | initializeAccount | mintTo | tokenTransfer | tokenBurn =>
    exact .token (decodes_built rfl (hlisted.suits (fun _ => rfl) rfl))
  | createAssociatedTokenAccount => exact .ata (hlisted.suits (fun _ => rfl) rfl)
  | initializePool => exact .swap (decodes_built rfl (hlisted.suits (fun _ => rfl) rfl))
  | swap pool source destination reserveIn reserveOut user amountIn minOut =>
    refine .swap (decodes_built rfl (hlisted.suits (fun hf => ?_) rfl))
    exact absurd ⟨_, _, _, _, _, _, _, _, rfl⟩ (hpool hf)
  | initCollection | placeBid | cancelBid | acceptBid | repayLoan | claimDefault =>
    exact .lending (hlisted.suits (fun _ => rfl) rfl)
  | createMetadata metadataAccount mint updateAuthority name symbol uri fee creators hbuilt =>
    unfold Builders.NftMetadata.createMetadata at hbuilt
    split at hbuilt
    · obtain rfl := Option.some.inj hbuilt
      exact .nftMetadata (decodes_built rfl (hlisted.suits (fun _ => rfl) rfl))
    · cases hbuilt
  | updateMetadata => exact .nftMetadata (decodes_built rfl (hlisted.suits (fun _ => rfl) rfl))
  | etch | runeMint | runeTransfer | runeBurn | initBalance =>
    exact .runes (decodes_built rfl (hlisted.suits (fun _ => rfl) rfl))
  | initMarket | syncPrice | addLiquidity | removeLiquidity | supply | marketWithdraw | borrow
  | repay | liquidate =>
    exact .moneyMarket (decodes_built rfl (hlisted.suits (fun _ => rfl) rfl))
  | initVault | deposit | deploy | undeploy =>
    exact .vault (decodes_built rfl ⟨hlisted.suits (fun _ => rfl) rfl, fun _ => nofun⟩)
  | withdraw =>
    refine .vault (decodes_built rfl ⟨?_, fun _ => nofun⟩)
    rw [hlisted.length]
    exact hlisted.suits (fun _ => rfl) rfl
  | report vault manager assetVault shareMint managerShares =>
    refine .vault (decodes_built rfl ⟨hlisted.suits (fun _ => rfl) rfl, ?_⟩)
    intro hf _ v signer hload hinit hslot hkey hshares
    exact absurd ⟨⟨_, _, _, _, _, rfl⟩, v, signer, hload, hinit, hslot, hkey, hshares⟩ (hpriced hf)
  | reportWithMarket =>
    exact .vault (decodes_built rfl ⟨hlisted.suits (fun _ => rfl) rfl,
      fun _ _ _ _ _ _ _ _ _ => Nat.le_of_eq hlisted.length.symm⟩)
  | initFeed | updatePrice | addPublisher | removePublisher =>
    exact .oracle (hlisted.suits (fun _ => rfl) rfl)

variable {π : Profile} {hasher : Lending.Hasher} {timestamp : UInt64}

/-- A table as an instruction lists it, given what the accounts hold and who owns them. -/
def stocked (ix : Instruction) (contents : List (List UInt8 × Pubkey)) : List AccountInfo :=
  ix.accounts.zipWith (fun am (data, owner) => { key := am.pubkey, lamports := 1, data, owner
                                                 isSigner := am.isSigner
                                                 isWritable := am.isWritable }) contents

/-- What a failing built-in leaves of the whole. -/
theorem dispatch_error {programId : Pubkey} {data : List UInt8} {th : Thread} {f : Fault}
    (h : (Comp.exec (runBuiltin π hasher programId accounts data timestamp)
      (beginExecution th)).1 = .error f) :
    (Comp.exec (dispatch π hasher programId accounts data timestamp) th).1 = .error f := by
  change (Comp.exec (runBuiltin π hasher programId accounts data timestamp >>= fun after =>
    validateWrites programId accounts after) (beginExecution th)).1 = .error f
  rw [Comp.exec_bind]
  cases hrun : Comp.exec (runBuiltin π hasher programId accounts data timestamp)
    (beginExecution th) with
  | mk r th' =>
    rw [hrun] at h
    obtain rfl : r = .error f := h
    rfl

/-- A step that succeeds is gone through. -/
theorem exec_ok_bind {α β : Type} {x : Outcome α} {a : α} {g : α → Prog β} {th : Thread}
    (h : x = .ok a) : (Comp.exec ((liftM x : Prog α) >>= g) th).1 = (Comp.exec (g a) th).1 := by
  rw [exec_lift_bind, h]
  rfl

/-- A step that looks at the number of accounts stops where there are fewer. -/
theorem exec_require_few {α : Type} {n : Nat} {g : Unit → Prog α} {th : Thread}
    (h : accounts.length < n) :
    (Comp.exec ((liftM (require (decide (n ≤ accounts.length)) .notEnoughAccounts) : Prog Unit)
      >>= g) th).1 = .error (.err .notEnoughAccounts) := by
  rw [exec_lift_bind, decide_eq_false (Nat.not_le_of_lt h)]
  rfl

/-- Without its market a report on a vault that has lent is refused. -/
theorem report_refused {vault : Vault.VaultState} {manager : AccountInfo}
    (hlength : accounts.length = 5) (hload : load accounts 0 = .ok vault)
    (hinit : vault.isInitialized = true) (hslot : accounts[1]? = some manager)
    (hsigned : manager.isSigner = true) (hkey : manager.key = vault.manager)
    (hshares : 0 < vault.lenderShares) (th : Thread) :
    (Comp.exec (Vault.report π accounts) th).1 = .error (.err .notEnoughAccounts) := by
  have henough : require (decide (5 ≤ accounts.length)) .notEnoughAccounts = .ok () := by
    rw [hlength]
    rfl
  have hmanager : slot accounts 1 = .ok manager := orPanic_eq_ok.mpr hslot
  have hsigner : manager.requireSigner = .ok () := require_eq_ok.mpr hsigned
  have hinit' : require vault.isInitialized .notInitialized = .ok () := require_eq_ok.mpr hinit
  have hkey' : require (manager.key == vault.manager) .unauthorized = .ok () :=
    require_eq_ok.mpr (beq_iff_eq.mpr hkey)
  have hdeployed : Vault.deployedValue π vault accounts = .error (.err .notEnoughAccounts) := by
    unfold Vault.deployedValue
    rw [if_pos hshares, hlength]
    rfl
  unfold Vault.report
  rw [exec_ok_bind henough, exec_ok_bind hmanager, exec_ok_bind hsigner, exec_ok_bind hload,
    exec_ok_bind hinit', exec_ok_bind hkey', exec_lift_bind, hdeployed]
  rfl

/-- A report without a market is refused where there are shares to price. -/
theorem unpriced_refused (h : Unpriced ix accounts) (hlisted : Listed ix accounts) (th : Thread) :
    (Comp.exec (dispatch π hasher ix.programId accounts ix.data timestamp) th).1 =
      .error (.err .notEnoughAccounts) := by
  obtain ⟨⟨vault, manager, assetVault, shareMint, managerShares, rfl⟩, v, signer, hload, hinit,
    hslot, hkey, hshares⟩ := h
  have hsuits : Suits (.err .missingSigner) accounts ⟨[], [1], 5⟩ :=
    hlisted.suits nofun rfl
  obtain ⟨a, ha, hsigned⟩ := hsuits.signs 1 List.mem_cons_self
  obtain rfl : signer = a := Option.some.inj (hslot.symm.trans ha)
  refine dispatch_error ?_
  change (Comp.exec (Vault.report π accounts) _).1 = _
  exact report_refused hlisted.length hload hinit hslot hsigned hkey hshares _

/-- The swap's own builder lists the pool read-only, so that nothing it builds goes through. -/
theorem swapsPool_refused (h : SwapsPool ix) (hlisted : Listed ix accounts)
    {th th' : Thread} {out : List AccountInfo} :
    ¬ Comp.Returns (dispatch π hasher ix.programId accounts ix.data timestamp) th out th' := by
  obtain ⟨pool, source, destination, reserveIn, reserveOut, user, amountIn, minOut, rfl⟩ := h
  intro hret
  obtain ⟨_, _, -, h₁⟩ := Comp.returns_bind.mp hret
  obtain ⟨mid, _, hrun, -⟩ := Comp.returns_bind.mp h₁
  have hnever : (Swap.process π accounts (Builders.Swap.swap pool source destination reserveIn
      reserveOut user amountIn minOut).data).Yields fun _ => False := by
    refine .bind (Q := fun sx => sx = .swap amountIn minOut) (.ofExcept fun sx hsx => ?_) ?_
    · exact (decodes_built (P := fun sx => .swap amountIn minOut = sx) rfl rfl sx
        (okOr_eq_ok.mp hsx)).symm
    rintro _ rfl
    refine .seq fun _ => .seq fun _ => .seq fun _ => .seq fun _ => .seq fun _ => .seq fun _ =>
      .seq fun _ => .seq fun _ => .seq fun _ => .seq fun _ =>
      .bind (token_invoke_flagged nofun) fun first hfirst =>
      .bind (token_invoke_flagged nofun) fun last hlast => .seq fun _ => .ofExcept ?_
    intro out hout
    obtain ⟨a, _, ha, hwritable, -⟩ := store_eq_ok hout
    obtain ⟨b, hb, hflags⟩ := (hfirst.trans hlast).slot ha
    have hreadonly : b.isWritable = false :=
      (congrArg AccountMeta.isWritable (Option.some.inj (hlisted.slot hb))).symm
    have hsame : b.isWritable = a.isWritable := congrArg Prod.snd hflags
    rw [hsame, hwritable] at hreadonly
    exact absurd hreadonly nofun
  exact hnever _ _ _ hrun

/-- A hundred tokens of a mint. -/
def hundredTokens (mint : Pubkey) : List UInt8 × Pubkey :=
  ((toVec ({ mint, amount := 100, state := .initialized } : Token.TokenAccountState)).getD [],
    ProgramIds.tokenProgram)

/-- Ten tokens for a pool that holds a hundred of each of its two mints. -/
def tenForPool : Instruction :=
  Builders.Swap.swap (.repeated 0) (.repeated 1) (.repeated 2) (.repeated 3) (.repeated 4)
    (.repeated 5) 10 0

example : (Comp.exec (dispatch .dev .sorted tenForPool.programId
    (stocked tenForPool [((toVec ({ feeDenominator := 1000, isInitialized := true } :
        Swap.PoolState)).getD [], ProgramIds.swapProgram),
      hundredTokens (.repeated 8), hundredTokens (.repeated 9), hundredTokens (.repeated 8),
      hundredTokens (.repeated 9), ([], ProgramIds.systemProgram)])
    tenForPool.data 0) {}).1 = .error (.err .notWritable) := by decide +kernel

/-- **Builders list what handlers need.** A built instruction is refused for a missing signer, a
read-only account or missing accounts in one case only, a report without a market for a vault that
holds shares of one. What a run changes is listed as writable. Of the swap's own builder nothing is
said about read-only accounts. -/
theorem builders_declare (h : Builds ix) (hlisted : Listed ix accounts) (π : Profile)
    (hasher : Lending.Hasher) (timestamp : UInt64) (th : Thread) :
    (∀ f, Undeclared f → (f = .err .notWritable → ¬ SwapsPool ix) →
      ((Comp.exec (dispatch π hasher ix.programId accounts ix.data timestamp) th).1 = .error f ↔
        f = .err .notEnoughAccounts ∧ Unpriced ix accounts)) ∧
    ∀ out, (Comp.exec (dispatch π hasher ix.programId accounts ix.data timestamp) th).1 =
      .ok out → ReadOnlyKept accounts out := by
  constructor
  · intro f hf hpool
    constructor
    · intro hfails
      by_contra hnot
      have hprovides : Provides f accounts ix.data ix.programId :=
        built_provides h hlisted hpool fun hfault hunpriced => hnot ⟨hfault, hunpriced⟩
      exact dispatch_declares hf hprovides th hfails
    · rintro ⟨rfl, hunpriced⟩
      exact unpriced_refused hunpriced hlisted th
  · intro out hout
    have hret : Comp.Returns (dispatch π hasher ix.programId accounts ix.data timestamp) th out _ :=
      Prod.ext hout rfl
    by_cases hpool : SwapsPool ix
    · exact absurd hret (swapsPool_refused hpool hlisted)
    · have hprovides : Provides (.err .notWritable) accounts ix.data ix.programId :=
        built_provides h hlisted (fun _ => hpool) nofun
      exact (readOnly_kept_iff hret).mpr hprovides.heeds

end

/-! ## One that is refused -/

/-- A report without a market, for a vault that holds shares of one. -/
def blindReport : Instruction :=
  Builders.Vault.report (.repeated 0) (.repeated 1) (.repeated 2) (.repeated 3) (.repeated 4)

def lentVault : Vault.VaultState :=
  { manager := .repeated 1, lenderShares := 5, isInitialized := true }

def blindReportAccounts : List AccountInfo :=
  stocked blindReport [((toVec lentVault).getD [], ProgramIds.vaultProgram),
    ([], ProgramIds.systemProgram), ([], ProgramIds.tokenProgram), ([], ProgramIds.tokenProgram),
    ([], ProgramIds.tokenProgram)]

theorem blindReport_declares :
    (Comp.exec (dispatch .dev .sorted blindReport.programId blindReportAccounts blindReport.data 0)
      {}).1 = .error (.err .notEnoughAccounts) ∧
    (Comp.exec (dispatch .dev .sorted blindReport.programId blindReportAccounts blindReport.data 0)
      {}).1 ≠ .error (.err .missingSigner) := by
  have hbuilt : Builds blindReport := .report _ _ _ _ _
  have hlisted : Listed blindReport blindReportAccounts := by decide
  have hload : load blindReportAccounts 0 = .ok lentVault := by decide +kernel
  have hdeclares := builders_declare hbuilt hlisted .dev .sorted 0 {}
  refine ⟨(hdeclares.1 (.err .notEnoughAccounts) trivial nofun).mpr ⟨rfl, ?_⟩, ?_⟩
  · exact ⟨⟨_, _, _, _, _, rfl⟩, lentVault, _, hload, rfl, rfl, rfl, by decide⟩
  · intro hfails
    exact nomatch ((hdeclares.1 (.err .missingSigner) trivial nofun).mp hfails).1

/-- **A builder that lists too little.** The report that it makes is refused where the vault holds
shares of a market, for the account that it does not list. -/
theorem built_undeclared : ¬ ∀ (ix : Instruction) (accounts : List AccountInfo), Builds ix →
    Listed ix accounts → ∀ f, Undeclared f →
    (Comp.exec (dispatch .dev .sorted ix.programId accounts ix.data 0) {}).1 ≠ .error f := by
  intro hclaim
  have hbuilt : Builds blindReport := .report _ _ _ _ _
  exact hclaim blindReport blindReportAccounts hbuilt (by decide)
    (.err .notEnoughAccounts) trivial (by decide +kernel)

end Proof
end Himsha
