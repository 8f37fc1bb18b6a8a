import Himsha.Proof.CpiGate
import Himsha.Proof.ChainRoots
import Himsha.Proof.Mentions

/-!
# An account is its owner's

The gate judges the copies that a program was given, and the trail is all that it knows of what
went on below. `Reserved` are the properties of a record that nobody but its owner can take from
it: they survive a credit, and they say that the account is not blank. Where every copy of the
account has such a property and every state in the trail has it, the gate lets no other state
through, whatever the program did to its copies (`gate_reserved`). The built-ins that invoke others
do so before they write to any copy of their own, so the copies in the windows have the property
too; the token program is left, which a built-in may invoke on an account of its own.

From there it is one instruction, and then the chain: an account of which something has changed
was changed by an instruction to its owner, and that instruction is in a stored block.
-/

set_option autoImplicit false

namespace Himsha
namespace Proof

open Himsha.Lib Himsha.Runtime Himsha.Programs Himsha.Vm Himsha.Node

/-- A property that only the owner program can take from a record. -/
structure Reserved (owner : Pubkey) (J : AccountInfo → Prop) : Prop where
  owner : ∀ {a}, J a → a.owner = owner
  live : ∀ {a}, J a → isBlank a = false
  credit : ∀ {a b}, J a → creditOnly a b = true → J b

/-- Every copy of the account has the property. -/
def Sheltered (k : Pubkey) (J : AccountInfo → Prop) (accounts : List AccountInfo) : Prop :=
  ∀ a ∈ accounts, a.key = k → J a

/-- Every state of the account that was approved has the property. -/
def Cleared (k : Pubkey) (J : AccountInfo → Prop) (th : Thread) : Prop :=
  ∀ a, th.approved.lookup k = some a → J a

section
variable {owner k : Pubkey} {J : AccountInfo → Prop}

theorem Reserved.same (hJ : Reserved owner J) {a b : AccountInfo} (h : J a)
    (hsame : sameState a b = true) : J b :=
  hJ.credit h (creditOnly_of_sameState hsame)

theorem Reserved.flag (hJ : Reserved owner J) {a : AccountInfo} (h : J a) (isSigner : Bool) :
    J { a with isSigner } :=
  hJ.same h (by simp [sameState])

theorem cleared_begin (th : Thread) : Cleared k J (beginExecution th) := by
  intro a ha
  simp [beginExecution] at ha

/-! ## The gate -/

theorem Cleared.approve {th : Thread} {a : AccountInfo} (hth : Cleared k J th)
    (ha : a.key = k → J a) : Cleared k J (approve th a) := by
  intro b hb
  by_cases hkey : a.key = k
  · subst hkey
    obtain rfl : a = b := Option.some.inj ((Finmap.lookup_insert _).symm.trans hb)
    exact ha rfl
  · exact hth b ((Finmap.lookup_insert_of_ne _ (Ne.symm hkey)).symm.trans hb)

/-- **One slot of the gate.** A program that is not the owner passes with what has the property
    only. -/
theorem Gated.reserved (hJ : Reserved owner J) {programId : Pubkey} {pre post out : AccountInfo}
    {th th' : Thread} (h : Gated programId pre post th out th') (hkey : pre.key = post.key)
    (hpre : pre.key = k → J pre) (hpost : programId = owner → post.key = k → J post)
    (hth : Cleared k J th) : (out.key = k → J out) ∧ Cleared k J th' := by
  rw [hkey] at hpre
  cases h with
  | unchanged hsame => exact ⟨fun hk => hJ.same (hpre hk) hsame, hth⟩
  | owned hchanged hown =>
    have hdone : post.key = k → J post := fun hk => hpost (hown ▸ hJ.owner (hpre hk)) hk
    exact ⟨hdone, hth.approve hdone⟩
  | credited hchanged hcredit =>
    have hdone : post.key = k → J post := fun hk => hJ.credit (hpre hk) hcredit
    exact ⟨hdone, hth.approve hdone⟩
  | first hchanged hblank =>
    have hother : (claimed programId pre post).key ≠ k := by
      rw [claimed_key]
      intro hk
      rw [hJ.live (hpre hk)] at hblank
      cases hblank
    exact ⟨fun hk => absurd hk hother, hth.approve fun hk => absurd hk hother⟩
  | again hforeign hlook hsame =>
    exact ⟨fun hk => hJ.same (hth _ (hk ▸ hlook)) hsame, hth⟩

/-- **The gate.** -/
theorem gate_reserved (hJ : Reserved owner J) {programId : Pubkey} {before : List AccountInfo} :
    ∀ {after out : List AccountInfo} {th th' : Thread},
      after.map (·.key) = before.map (·.key) → Sheltered k J before →
      (programId = owner → Sheltered k J after) → Cleared k J th →
      Comp.Returns (gate programId before after) th out th' →
      Sheltered k J out ∧ Cleared k J th' := by
  induction before with
  | nil =>
    intro after out th th' _ _ _ hth h
    obtain ⟨rfl, rfl⟩ := Comp.returns_pure.mp h
    exact ⟨fun a ha => absurd ha (by simp), hth⟩
  | cons pre before ih =>
    intro after out th th' hkeys hbefore hafter hth h
    cases after with
    | nil => simp at hkeys
    | cons post after =>
      rw [List.map_cons, List.map_cons, List.cons.injEq] at hkeys
      obtain ⟨o, th₁, os, hhead, htail, rfl⟩ := gate_cons.mp h
      obtain ⟨ho, hth₁⟩ := (validateWrite_gated hhead).reserved hJ hkeys.1.symm
        (hbefore pre (by simp)) (fun hown => hafter hown post (by simp)) hth
      obtain ⟨hos, hth'⟩ := ih hkeys.2 (fun a ha => hbefore a (by simp [ha]))
        (fun hown a ha => hafter hown a (by simp [ha])) hth₁ htail
      refine ⟨fun a ha => ?_, hth'⟩
      rcases List.mem_cons.mp ha with rfl | ha
      · exact ho
      · exact hos a ha

/-! ## Invocations -/

theorem mem_modify {α : Type} {l : List α} {i : Nat} {f : α → α} {a : α}
    (h : a ∈ l.modify i f) : a ∈ l ∨ ∃ b ∈ l, a = f b := by
  obtain ⟨j, hj⟩ := List.mem_iff_getElem?.mp h
  rw [List.getElem?_modify] at hj
  obtain ⟨b, hb, hab⟩ := Option.map_eq_some_iff.mp hj
  have hmem := List.mem_of_getElem? hb
  split at hab
  · exact .inr ⟨b, hmem, hab.symm⟩
  · exact .inl (hab ▸ hmem)

theorem exists_of_mem_right {α β : Type} {R : α → β → Prop} {as : List α} {bs : List β}
    (h : List.Forall₂ R as bs) {b : β} (hb : b ∈ bs) : ∃ a, R a b := by
  induction h with
  | nil => cases hb
  | @cons a b' _ _ hhead _ ih =>
    rcases List.mem_cons.mp hb with rfl | hb
    · exact ⟨a, hhead⟩
    · exact ih hb

theorem markSigners_sheltered (hJ : Reserved owner J) (signers : List Nat)
    {window : List AccountInfo} (h : Sheltered k J window) :
    Sheltered k J (markSigners window signers) := by
  unfold markSigners
  induction signers generalizing window with
  | nil => exact h
  | cons w rest ih =>
    refine ih fun a ha hk => ?_
    rcases mem_modify ha with ha | ⟨b, hb, rfl⟩
    · exact h a ha hk
    · exact hJ.flag (h b hb hk) true

theorem writeBack_sheltered (hJ : Reserved owner J) {window : List AccountInfo}
    (hwindow : Sheltered k J window) : ∀ {accounts : List AccountInfo} {indices : List Nat},
      Sheltered k J accounts → Sheltered k J (writeBack accounts window indices) := by
  unfold writeBack
  induction window with
  | nil =>
    intro accounts indices h
    rw [List.zip_nil_left]
    exact h
  | cons b rest ih =>
    intro accounts indices h
    cases indices with
    | nil =>
      rw [List.zip_nil_right]
      exact h
    | cons i indices =>
      rw [List.zip_cons_cons, List.foldl_cons]
      refine ih (fun a ha => hwindow a (by simp [ha])) fun a ha hk => ?_
      rcases mem_modify ha with ha | ⟨old, -, rfl⟩
      · exact h a ha hk
      · exact hJ.flag (hwindow b (by simp) hk) old.isSigner

theorem keys_of_kept {accounts out : List AccountInfo} (h : keyFrame.slotRel.Kept accounts out) :
    out.map (·.key) = accounts.map (·.key) := by
  induction h with
  | nil => rfl
  | @cons a b _ _ hhead _ ih =>
    have hkey : b.key = a.key := hhead
    rw [List.map_cons, List.map_cons, ih, hkey]

theorem withCpiDepth_maintains {α : Type} {body : Prog α} {Q : α → Prop}
    (h : body.Maintains (Cleared k J) Q) : (withCpiDepth body).Maintains (Cleared k J) Q := by
  intro th a th' hth hr
  rw [Comp.Returns, exec_withCpiDepth] at hr
  split at hr
  · simp at hr
  · obtain ⟨hok, rfl⟩ := Prod.mk.inj hr
    obtain ⟨hQ, hth'⟩ := h { th with depth := th.depth + 1 } a _ hth (Comp.returns_of_ok hok)
    exact ⟨hQ, fun b hb => hth' b hb⟩

theorem charge_maintains (units : UInt64) :
    (charge units).Maintains (Cleared k J) fun _ => True := by
  intro th u th' hth hr
  have hkeeps := charge_keeps units th.approved th rfl
  rw [show _ = _ from hr] at hkeeps
  refine ⟨trivial, fun a ha => hth a ?_⟩
  rwa [show _ = _ from hkeeps] at ha

/-- The keys of a window are those of its slots. -/
theorem window_keys {accounts window : List AccountInfo} {indices : List Nat}
    (h : List.Forall₂ (fun i a => accounts[i]? = some a) indices window) :
    window.map (fun a => some a.key) = indices.map fun i => accounts[i]?.map (·.key) := by
  induction h with
  | nil => rfl
  | cons hhead _ ih => rw [List.map_cons, List.map_cons, ih, hhead, Option.map_some]

/-- **The invocation rule.** -/
theorem invoke_reserved (hJ : Reserved owner J) {accounts : List AccountInfo}
    {indices signers : List Nat} {data : List UInt8} {callee : Pubkey} {process : Process}
    (h : Sheltered k J accounts)
    (hprocess : ∀ window, Sheltered k J window →
      window.map (fun a => some a.key) = indices.map (fun i => accounts[i]?.map (·.key)) →
      (process window data).Maintains (Cleared k J) fun after =>
        after.map (·.key) = window.map (·.key) ∧ (callee = owner → Sheltered k J after)) :
    (invokeSignedIndexed accounts indices signers data callee process).Maintains (Cleared k J)
      (Sheltered k J) := by
  unfold invokeSignedIndexed
  refine .bind (.ofExcept (SlotRel.windowOf_gives accounts indices)) fun window hwindow => ?_
  have hcopies : Sheltered k J window := by
    intro a ha
    obtain ⟨i, hi⟩ := exists_of_mem_right hwindow ha
    exact h a (List.mem_of_getElem? hi)
  have hmarked := keys_of_kept (SlotRel.markSigners_kept (S := keyFrame.slotRel) window signers)
  have hslots : (markSigners window signers).map (fun a => some a.key) =
      indices.map fun i => accounts[i]?.map (·.key) := by
    rw [← window_keys hwindow, ← Function.comp_def some, ← List.map_map, hmarked, List.map_map]
  refine withCpiDepth_maintains (.bind (charge_maintains _) fun _ _ => .seq fun _ => ?_)
  refine .bind (hprocess _ (markSigners_sheltered hJ signers hcopies) hslots) fun after hafter => ?_
  obtain ⟨hkeys, hown⟩ := hafter
  rw [hmarked] at hkeys
  refine .bind (Q := Sheltered k J) (fun th out th' hth hr => ?_) fun gated hgated => .pure ?_
  · exact gate_reserved hJ hkeys hcopies hown hth hr
  · exact writeBack_sheltered hJ hgated h

/-- The token instructions that the built-ins invoke. -/
def Invoked : Token.TokenInstruction → Prop
  | .initializeAccount | .mintTo _ | .transfer _ | .burn _ => True
  | _ => False

/-- What a built-in invokes on an account of the token program leaves the property. -/
def CalleeSafe (owner k : Pubkey) (J : AccountInfo → Prop) : Prop :=
  owner = ProgramIds.tokenProgram → ∀ (π : Profile) (window : List AccountInfo)
    (ix : Token.TokenInstruction), Invoked ix → Sheltered k J window →
      Gives (Token.run π window ix) (Sheltered k J)

theorem token_invoke_reserved (hJ : Reserved owner J) (hsafe : CalleeSafe owner k J) (π : Profile)
    {accounts : List AccountInfo} {indices signers : List Nat} {ix : Token.TokenInstruction}
    (h : Sheltered k J accounts) (hix : Invoked ix) :
    (Token.invoke π accounts indices signers ix).Maintains (Cleared k J) (Sheltered k J) := by
  have hclose : ix ≠ .closeAccount := by
    rintro rfl
    exact hix
  refine .bind (.ofExcept (Q := fun data => toVec ix = some data)
    fun data h => okOr_eq_ok.mp h) fun data hdata => ?_
  refine invoke_reserved hJ h fun window hwindow _ => .ofExcept (.bind
    (Q := fun ix' => ix' = ix) (fun ix' h => ?_) fun ix' h => ?_)
  · have hdec := okOr_eq_ok.mp h
    rw [tryFromSlice_toVec hdata] at hdec
    exact (Option.some.inj hdec).symm
  · subst h
    intro out hout
    exact ⟨keys_of_kept (SlotRel.token_run_kept π window hclose out hout),
      fun hown => hsafe hown.symm π window ix' hix hwindow out hout⟩

/-! ## Programs -/

theorem ofExcept_maintains {α : Type} {r : Outcome α} :
    (Comp.ofExcept r : Prog α).Maintains (Cleared k J) fun _ => True :=
  .ofExcept fun _ _ => trivial

variable {accounts : List AccountInfo}

theorem ata_reserved (hJ : Reserved owner J) (hsafe : CalleeSafe owner k J) (π : Profile)
    (h : Sheltered k J accounts) (data : List UInt8) :
    (Ata.process π accounts data).Maintains (Cleared k J) fun _ => True := by
  refine .seq fun ix => ?_
  cases ix
  refine .seq fun _ => .seq fun _ => .seq fun _ => .seq fun _ => .seq fun _ =>
    .ite (.pure trivial) ?_
  exact .mono (token_invoke_reserved hJ hsafe π h trivial) fun _ _ => trivial

theorem swap_reserved (hJ : Reserved owner J) (hsafe : CalleeSafe owner k J) (π : Profile)
    (h : Sheltered k J accounts) (data : List UInt8) :
    (Swap.process π accounts data).Maintains (Cleared k J) fun _ => True := by
  have hinvoke {accounts indices signers ix} (h : Sheltered k J accounts) (hix : Invoked ix) :
      (Token.invoke π accounts indices signers ix).Maintains (Cleared k J) (Sheltered k J) :=
    token_invoke_reserved hJ hsafe π h hix
  refine .seq fun ix => ?_
  cases ix with
  | initializePool =>
    exact .seq fun _ => .seq fun _ => .seq fun _ => .seq fun _ => .seq fun _ => .seq fun _ =>
      .seq fun _ => .seq fun _ => .seq fun _ => ofExcept_maintains
  | swap =>
    refine .seq fun _ => .seq fun _ => .seq fun _ => .seq fun _ => .seq fun _ => .seq fun _ =>
      .seq fun _ => .seq fun _ => .seq fun _ => .seq fun _ => ?_
    exact .bind (hinvoke h trivial) fun _ h => .bind (hinvoke h trivial) fun _ _ =>
      .seq fun _ => ofExcept_maintains
  | deposit =>
    refine .seq fun _ => .seq fun _ => .seq fun _ => .seq fun _ => .seq fun p => ?_
    exact .seq fun _ => .bind (hinvoke h trivial) fun _ h => .bind (hinvoke h trivial) fun _ h =>
      .bind (hinvoke h trivial) fun _ _ => .seq fun _ => .seq fun _ => ofExcept_maintains
  | withdraw =>
    refine .seq fun _ => .seq fun _ => .seq fun _ => .seq fun _ => .seq fun _ => .seq fun _ =>
      .seq fun _ => .seq fun _ => .seq fun _ => .seq fun _ => ?_
    exact .bind (hinvoke h trivial) fun _ h => .bind (hinvoke h trivial) fun _ h =>
      .bind (hinvoke h trivial) fun _ _ => .seq fun _ => .seq fun _ => ofExcept_maintains

theorem moneyMarket_reserved (hJ : Reserved owner J) (hsafe : CalleeSafe owner k J) (π : Profile)
    (timestamp : UInt64) (h : Sheltered k J accounts) (data : List UInt8) :
    (MoneyMarket.process π timestamp accounts data).Maintains (Cleared k J) fun _ => True := by
  have hmove {accounts src dst authority amount} (h : Sheltered k J accounts) :
      (MoneyMarket.transfer π accounts src dst authority amount).Maintains (Cleared k J)
        (Sheltered k J) :=
    token_invoke_reserved hJ hsafe π h trivial
  have hpay {accounts src dst authority amount} (h : Sheltered k J accounts) :
      (MoneyMarket.transferSigned π accounts src dst authority amount).Maintains (Cleared k J)
        (Sheltered k J) :=
    token_invoke_reserved hJ hsafe π h trivial
  refine .seq fun ix => ?_
  cases ix with
  | initMarket => exact ofExcept_maintains
  | addLiquidity =>
    refine .seq fun _ => .seq fun _ => .bind (hmove h) fun _ _ => ?_
    exact .seq fun _ => .seq fun _ => .seq fun _ => ofExcept_maintains
  | removeLiquidity =>
    refine .seq fun _ => .seq fun _ => .seq fun _ => .seq fun _ => .bind (hpay h) fun _ _ => ?_
    exact .seq fun _ => .seq fun _ => .seq fun _ => ofExcept_maintains
  | supply =>
    refine .seq fun _ => .bind (hmove h) fun _ _ => ?_
    exact .seq fun _ => .seq fun _ => ofExcept_maintains
  | withdraw =>
    refine .seq fun _ => .seq fun _ => .seq fun _ => .seq fun _ => .seq fun _ =>
      .bind (hpay h) fun _ _ => ?_
    exact .seq fun _ => ofExcept_maintains
  | borrow =>
    refine .seq fun _ => .seq fun _ => .seq fun _ => .seq fun _ => .seq fun _ => .seq fun _ =>
      .bind (.adapt (hpay h)) fun _ _ => ?_
    exact .seq fun _ => ofExcept_maintains
  | repay =>
    refine .seq fun _ => .bind (hmove h) fun _ _ => ?_
    exact .seq fun _ => .seq fun _ => ofExcept_maintains
  | liquidate =>
    refine .seq fun _ => .seq fun _ => .seq fun _ => .seq fun _ => .seq fun _ => .seq fun _ =>
      .seq fun _ => .seq fun _ => .seq fun _ => .seq fun _ => .seq fun _ => .seq fun _ =>
      .seq fun _ => .seq fun _ => .bind (hmove h) fun _ h => .bind (hpay h) fun _ _ => ?_
    exact .seq fun _ => .seq fun _ => .seq fun _ => ofExcept_maintains
  | syncPrice => exact ofExcept_maintains

theorem mmLiquidity_reserved (hJ : Reserved owner J) (hsafe : CalleeSafe owner k J)
    (hmarket : owner ≠ ProgramIds.moneyMarketProgram) (π : Profile) (timestamp : UInt64)
    (h : Sheltered k J accounts) (idx : List Nat) (ix : MoneyMarket.MoneyMarketInstruction) :
    (Vault.mmLiquidity π accounts idx ix timestamp).Maintains (Cleared k J) (Sheltered k J) := by
  refine .seq fun data => invoke_reserved hJ h fun window hwindow _ => ?_
  have hbody := moneyMarket_reserved hJ hsafe π timestamp hwindow data
  have hkeys := SlotRel.moneyMarket_kept (S := keyFrame.slotRel) π timestamp window data
  refine .mono (hbody.and_yields hkeys) ?_
  rintro after ⟨-, hkept⟩
  exact ⟨keys_of_kept hkept, fun hown => absurd hown.symm hmarket⟩

/-- The slots that the vault program lends from: of `Withdraw`, and of `Deploy` and `Undeploy`. -/
def lendingSlots : List (List Nat) := [[6, 7, 2, 8, 0], [2, 3, 1, 4, 0]]

/-- The vault program, where what it invokes of the money market leaves the property. -/
theorem vault_reserved (hJ : Reserved owner J) (hsafe : CalleeSafe owner k J) (π : Profile)
    (timestamp : UInt64)
    (hmarket : ∀ idx ∈ lendingSlots, ∀ ix amount, ix = .addLiquidity amount ∨
      ix = .removeLiquidity amount →
      (Vault.mmLiquidity π accounts idx ix timestamp).Maintains (Cleared k J) (Sheltered k J))
    (h : Sheltered k J accounts) (data : List UInt8) :
    (Vault.process π timestamp accounts data).Maintains (Cleared k J) fun _ => True := by
  have hinvoke {accounts indices signers ix} (h : Sheltered k J accounts) (hix : Invoked ix) :
      (Token.invoke π accounts indices signers ix).Maintains (Cleared k J) (Sheltered k J) :=
    token_invoke_reserved hJ hsafe π h hix
  have hmove {amount} {ix : MoneyMarket.MoneyMarketInstruction}
      (hix : ix = .addLiquidity amount ∨ ix = .removeLiquidity amount) :
      (Vault.moveLiquidity π accounts timestamp amount ix).Maintains (Cleared k J)
        fun _ => True :=
    .seq fun _ => .bind (hmarket _ (by simp [lendingSlots]) ix amount hix) fun _ _ =>
      .seq fun _ => ofExcept_maintains
  refine .seq fun ix => ?_
  cases ix with
  | initVault => exact ofExcept_maintains
  | deposit =>
    refine .seq fun _ => .seq fun _ => .seq fun _ => .seq fun _ => .seq fun _ => .seq fun _ =>
      .seq fun _ => .seq fun _ => .seq fun _ => .bind (hinvoke h trivial) fun _ h =>
      .bind (hinvoke h trivial) fun _ _ => ?_
    exact .seq fun _ => .seq fun _ => ofExcept_maintains
  | withdraw =>
    refine .seq fun _ => .seq fun _ => .seq fun _ => .seq fun _ => .seq fun _ => .seq fun _ =>
      .seq fun _ => .seq fun _ => .bind (Q := fun r => Sheltered k J r.2) ?_ fun r h =>
      .bind (hinvoke h trivial) fun _ h => .bind (hinvoke h trivial) fun _ _ => ?_
    · -- The strategy pays out first, where the vault is short.
      refine .seq fun _ => .ite (.bind (hmarket _ (by simp [lendingSlots]) _ _ (.inr rfl))
        fun _ h => .seq fun _ => .pure h) (.pure h)
    · exact .seq fun _ => .seq fun _ => ofExcept_maintains
  | report =>
    refine .seq fun _ => .seq fun _ => .seq fun _ => .seq fun _ => .seq fun _ => .seq fun _ =>
      .seq fun _ => .seq fun _ => .seq fun _ => .seq fun _ => .ite ?_ ofExcept_maintains
    exact .bind (hinvoke h trivial) fun _ _ => .seq fun _ => ofExcept_maintains
  | deploy => exact hmove (.inl rfl)
  | undeploy => exact hmove (.inr rfl)

/-- The programs that invoke the token program. -/
def tokenCallers : List Pubkey :=
  [ProgramIds.ataProgram, ProgramIds.swapProgram, ProgramIds.moneyMarketProgram,
    ProgramIds.vaultProgram]

/-- A program, other than the owner, that cannot take the property from an account of the owner's,
    itself or through the programs it invokes. -/
structure Outsider (owner k : Pubkey) (J : AccountInfo → Prop) (programId : Pubkey) : Prop where
  other : programId ≠ owner
  market : owner = ProgramIds.moneyMarketProgram → programId ≠ ProgramIds.vaultProgram
  token : programId ∈ tokenCallers → CalleeSafe owner k J

/-- **What a built-in leaves in the trail.** -/
theorem runBuiltin_reserved (hJ : Reserved owner J) {programId : Pubkey}
    (hapart : Outsider owner k J programId) (π : Profile) (hasher : Lending.Hasher)
    (h : Sheltered k J accounts) (data : List UInt8) (timestamp : UInt64) :
    (runBuiltin π hasher programId accounts data timestamp).Maintains (Cleared k J)
      fun _ => True := by
  unfold runBuiltin
  refine .ite ofExcept_maintains (.ite ofExcept_maintains ?_)
  split
  · rename_i hid
    exact ata_reserved hJ (hapart.token (by simp [hid, tokenCallers])) π h data
  split
  · rename_i hid
    exact swap_reserved hJ (hapart.token (by simp [hid, tokenCallers])) π h data
  refine .ite ofExcept_maintains (.ite ofExcept_maintains (.ite ofExcept_maintains ?_))
  split
  · rename_i hid
    exact moneyMarket_reserved hJ (hapart.token (by simp [hid, tokenCallers])) π timestamp h data
  split
  · rename_i hid
    have hsafe := hapart.token (by simp [hid, tokenCallers])
    exact vault_reserved hJ hsafe π timestamp (fun idx _ ix _ _ => mmLiquidity_reserved hJ hsafe
      (fun hmarket => hapart.market hmarket hid) π timestamp h idx ix) h data
  · exact .ite ofExcept_maintains .throw

/-! ## One execution -/

/-- A built-in hands back accounts that have the property, if the trail keeps it and the owner's own
    program does. -/
theorem executeNative_sheltered (hJ : Reserved owner J) {m : Machine} {programId : Pubkey}
    {input : ExecutionInput} {anchorUtxos : List UtxoMeta} {t : StateTransition}
    (h : Sheltered k J input.accounts)
    (hbody : (runBuiltin m.profile m.hasher programId input.accounts input.instructionData
      input.timestamp).Maintains (Cleared k J) fun after => programId = owner → Sheltered k J after)
    (hok : executeNative m programId input anchorUtxos = .ok t) :
    Sheltered k J t.updatedAccounts := by
  obtain ⟨th, hret, -⟩ := executeNative_eq_ok hok
  unfold dispatch at hret
  obtain ⟨_, th₀, hbegin, hret⟩ := Comp.returns_bind.mp hret
  obtain rfl := Comp.returns_modify.mp hbegin
  obtain ⟨after, th₁, hrun, hgate⟩ := Comp.returns_bind.mp hret
  obtain ⟨hown, hth⟩ := hbody _ _ _ (cleared_begin {}) hrun
  have hkeys := (runBuiltin_settles _ _ _ _ _ _ _ _ _ hrun).keys
  exact (gate_reserved hJ hkeys h hown hth (validateWrites_returns.mp hgate).2).1

/-- The same of a program known to be built in: its execution is the native one. -/
theorem builtin_sheltered (hJ : Reserved owner J) {m : Machine} {programId : Pubkey}
    {input : ExecutionInput} {anchorUtxos : List UtxoMeta} {t : StateTransition}
    (hbuiltin : isBuiltin programId = true) (h : Sheltered k J input.accounts)
    (hbody : (runBuiltin m.profile m.hasher programId input.accounts input.instructionData
      input.timestamp).Maintains (Cleared k J) fun after => programId = owner → Sheltered k J after)
    (hok : executeProgram m programId input anchorUtxos = .ok t) :
    Sheltered k J t.updatedAccounts := by
  rw [executeProgram, if_pos hbuiltin] at hok
  exact executeNative_sheltered hJ h hbody hok

/-- **A program that is not the owner**, native or proved, hands back accounts that have the
    property. -/
theorem executeProgram_reserved (hJ : Reserved owner J) {m : Machine} {programId : Pubkey}
    {input : ExecutionInput} {anchorUtxos : List UtxoMeta} {t : StateTransition}
    (houtsider : Outsider owner k J programId) (h : Sheltered k J input.accounts)
    (hok : executeProgram m programId input anchorUtxos = .ok t) :
    Sheltered k J t.updatedAccounts := by
  unfold executeProgram at hok
  split at hok
  · have hbody := runBuiltin_reserved hJ houtsider m.profile m.hasher h input.instructionData
      input.timestamp
    exact executeNative_sheltered hJ h
      (hbody.mono fun _ _ hown => absurd hown houtsider.other) hok
  · rename_i hbuiltin
    obtain ⟨updated, hkeys, hgate, -⟩ := execute_eq_ok hok
    rw [if_neg hbuiltin] at hgate
    obtain ⟨_, th₀, hbegin, hgate⟩ := Comp.returns_bind.mp (Comp.returns_of_ok hgate)
    obtain rfl := Comp.returns_modify.mp hbegin
    exact (gate_reserved hJ hkeys h (fun hown => absurd hown houtsider.other) (cleared_begin {})
      (validateWrites_returns.mp hgate).2).1

end

end Proof
end Himsha
