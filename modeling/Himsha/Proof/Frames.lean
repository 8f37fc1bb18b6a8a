import Himsha.Vm.Executor

/-!
# What programs leave alone

Almost everything a program does is to encode a value into the data of a writable account, itself
or through an invocation. A `SlotRel` is a relation between an account before and after that this
never breaks; the rules below say that a program built from such steps keeps the relation in every
slot, and `runBuiltin_kept` puts the ten programs together. A `Frame`, which is a part of an
account that does not depend on its data, is the case of an equation. Two exceptions are left over,
the system program and the closing of a token account, which write to slots as they are.
-/

set_option autoImplicit false

namespace Himsha
namespace Proof

open Himsha.Lib Himsha.Runtime Himsha.Programs Himsha.Vm

/-- A part of an account that does not depend on its data, its owner or its signer flag. -/
structure Frame where
  Part : Type
  view : AccountInfo → Part
  view_data : ∀ a data, view { a with data } = view a
  view_owner : ∀ a owner, view { a with owner } = view a
  view_signer : ∀ a isSigner, view { a with isSigner } = view a

/-- The key of an account. -/
def keyFrame : Frame := ⟨Pubkey, (·.key), fun _ _ => rfl, fun _ _ => rfl, fun _ _ => rfl⟩

/-- Its key and balance. -/
def balanceOf (a : AccountInfo) : Pubkey × Nat := (a.key, a.lamports.toNat)

def lamportFrame : Frame :=
  ⟨Pubkey × Nat, balanceOf, fun _ _ => rfl, fun _ _ => rfl, fun _ _ => rfl⟩

namespace Frame

/-- Slot by slot, the frame is the same. -/
def Same (F : Frame) (accounts out : List AccountInfo) : Prop :=
  out.map F.view = accounts.map F.view

variable {F : Frame} {accounts out : List AccountInfo}

theorem Same.refl : F.Same accounts accounts := rfl

theorem Same.trans {mid : List AccountInfo} (h : F.Same accounts mid) (h' : F.Same mid out) :
    F.Same accounts out :=
  Eq.trans h' h

theorem same_set {i : Nat} {a b : AccountInfo} (ha : accounts[i]? = some a)
    (hview : F.view b = F.view a) : F.Same accounts (accounts.set i b) := by
  unfold Same
  obtain ⟨hlt, rfl⟩ := List.getElem?_eq_some_iff.mp ha
  rw [List.map_set, hview]
  apply List.ext_getElem
  · simp
  · intro j h₁ h₂
    by_cases hij : i = j
    · subst hij
      simp
    · simp [hij]

theorem validateWrite_view (programId : Pubkey) (pre post : AccountInfo) :
    (validateWrite programId pre post).Yields fun out => F.view out = F.view post := by
  unfold validateWrite
  refine .ite (.pure rfl) (.ite (.seq fun _ => .pure rfl) (.ite (.seq fun _ => .pure rfl)
    (.ite (.seq fun _ => .pure ?_) (.seq fun t => ?_))))
  · split
    · exact F.view_owner post programId
    · rfl
  · split
    · exact .ite (.pure rfl) .throw
    · exact .throw

theorem forall₂_same {before after : List AccountInfo}
    (hlen : before.length = after.length)
    (h : List.Forall₂ (fun (p : AccountInfo × AccountInfo) (b : AccountInfo) =>
      F.view b = F.view p.2) (before.zip after) out) : F.Same after out := by
  unfold Same
  induction before generalizing after out with
  | nil =>
    cases after with
    | nil => cases h; rfl
    | cons b after => simp at hlen
  | cons a before ih =>
    cases after with
    | nil => simp at hlen
    | cons b after =>
      cases h with
      | cons hhead htail =>
        simp only [List.length_cons, Nat.add_right_cancel_iff] at hlen
        rw [List.map_cons, List.map_cons, hhead, ih hlen htail]

/-- The owner gate keeps the frame of the table it checks. -/
theorem validateWrites_same (programId : Pubkey) (before after : List AccountInfo) :
    (validateWrites programId before after).Yields (F.Same after) := by
  refine .bind .ensure fun _ hlen => ?_
  have hmap := Comp.Yields.mapM (fun p : AccountInfo × AccountInfo =>
    validateWrite_view (F := F) programId p.1 p.2) (before.zip after)
  exact fun s out s' hr => forall₂_same (by simpa using hlen) (hmap s out s' hr)

end Frame

/-! ## Relations between a slot before and after -/

/-- What holds between an account and itself, and still holds after its data was written where that
    is allowed, after a signer mark, and after the gate gave it an owner because it changed. -/
structure SlotRel where
  R : AccountInfo → AccountInfo → Prop
  refl : ∀ a, R a a
  trans : ∀ {a b c}, R a b → R b c → R a c
  data : ∀ {a} data, a.isWritable = true → R a { a with data }
  signer : ∀ a isSigner, R a { a with isSigner }
  owner : ∀ {a b} owner, R a b → sameState a b = false → R a { b with owner }

/-- The frame is the same. -/
def Frame.slotRel (F : Frame) : SlotRel where
  R a b := F.view b = F.view a
  refl _ := rfl
  trans h h' := h'.trans h
  data data _ := F.view_data _ data
  signer a isSigner := F.view_signer a isSigner
  owner owner h _ := (F.view_owner _ owner).trans h

namespace SlotRel

/-- Slot by slot, the relation holds. -/
def Kept (S : SlotRel) (accounts out : List AccountInfo) : Prop := List.Forall₂ S.R accounts out

variable {S : SlotRel} {accounts out : List AccountInfo}

theorem Kept.refl : S.Kept accounts accounts := List.forall₂_same.mpr fun a _ => S.refl a

theorem Kept.trans {mid : List AccountInfo} (h : S.Kept accounts mid) (h' : S.Kept mid out) :
    S.Kept accounts out := by
  induction h generalizing out with
  | nil => exact h'
  | cons hhead _ ih =>
    cases h' with
    | cons hhead' htail' => exact .cons (S.trans hhead hhead') (ih htail')

/-- A slot that is replaced by one it is related to. -/
theorem kept_modify {i : Nat} {f : AccountInfo → AccountInfo} {cur : List AccountInfo}
    (hcur : S.Kept accounts cur)
    (h : ∀ a b, accounts[i]? = some a → cur[i]? = some b → S.R a b → S.R a (f b)) :
    S.Kept accounts (cur.modify i f) := by
  induction hcur generalizing i with
  | nil =>
    rw [List.modify_nil]
    exact .nil
  | cons hhead htail ih =>
    cases i with
    | zero =>
      rw [List.modify_zero_cons]
      exact .cons (h _ _ rfl rfl hhead) htail
    | succ i =>
      rw [List.modify_succ_cons]
      exact .cons hhead (ih fun a b ha hb => h a b (by simpa using ha) (by simpa using hb))

theorem store_kept {α : Type} [Borsh α] (i : Nat) (value : α) :
    Gives (store accounts i value) (S.Kept accounts) := by
  intro out h
  obtain ⟨a, data, ha, hw, -, rfl⟩ := store_eq_ok h
  rw [List.set_eq_modify]
  refine kept_modify Kept.refl fun a' b ha' _ _ => ?_
  rw [ha, Option.some.injEq] at ha'
  subst ha'
  exact S.data data hw

/-! ## Invocations -/

/-- The gate keeps what holds of a slot before and after. -/
theorem validateWrite_kept (programId : Pubkey) {pre post : AccountInfo} (h : S.R pre post) :
    (validateWrite programId pre post).Yields (S.R pre) := by
  unfold validateWrite
  split
  · exact .pure h
  rename_i hchanged
  refine .ite (.seq fun _ => .pure h) (.ite (.seq fun _ => .pure h)
    (.ite (.seq fun _ => .pure ?_) (.seq fun t => ?_)))
  · split
    · exact S.owner programId h (Bool.eq_false_iff.mpr hchanged)
    · exact h
  · split
    · exact .ite (.pure h) .throw
    · exact .throw

/-- The loop of the gate, on a table and what a program made of it. -/
theorem gate_kept (programId : Pubkey) {before after : List AccountInfo}
    (h : S.Kept before after) :
    ((before.zip after).mapM fun p => validateWrite programId p.1 p.2).Yields
      (S.Kept before) := by
  induction h with
  | nil =>
    rw [List.zip_nil_left, List.mapM_nil]
    exact .pure .nil
  | cons hhead _ ih =>
    rw [List.zip_cons_cons, List.mapM_cons]
    refine .bind (validateWrite_kept programId hhead) fun o ho => .bind ih fun os hos => ?_
    exact .pure (.cons ho hos)

theorem markSigners_kept (window : List AccountInfo) (signers : List Nat) :
    S.Kept window (markSigners window signers) := by
  unfold markSigners
  induction signers generalizing window with
  | nil => exact Kept.refl
  | cons w rest ih =>
    refine Kept.trans (kept_modify Kept.refl fun a b ha hb _ => ?_) (ih _)
    rw [ha, Option.some.injEq] at hb
    subst hb
    exact S.signer a true

/-- Putting a window back keeps the relation, if each of its accounts has it to the slot it was
    taken from. -/
theorem writeBack_kept {indices : List Nat} {window : List AccountInfo}
    (h : List.Forall₂ (fun i b => ∃ a, accounts[i]? = some a ∧ S.R a b) indices window) :
    S.Kept accounts (writeBack accounts window indices) := by
  unfold writeBack
  -- The slots already written back are still related to the original ones.
  suffices hgen : ∀ cur, S.Kept accounts cur → S.Kept accounts
      ((window.zip indices).foldl (fun cur p => cur.modify p.2 fun old =>
        { p.1 with isSigner := old.isSigner }) cur) from hgen accounts Kept.refl
  induction h with
  | nil => exact fun cur hcur => hcur
  | cons hhead _ ih =>
    intro cur hcur
    obtain ⟨a, ha, hrel⟩ := hhead
    rw [List.zip_cons_cons, List.foldl_cons]
    refine ih _ (kept_modify hcur fun a' old ha' _ _ => ?_)
    rw [ha, Option.some.injEq] at ha'
    subst ha'
    exact S.trans hrel (S.signer _ _)

theorem windowOf_gives (accounts : List AccountInfo) (indices : List Nat) :
    Gives (windowOf accounts indices) fun window =>
      List.Forall₂ (fun i a => accounts[i]? = some a) indices window := by
  refine Gives.mapM (fun i => ?_) indices
  intro a h
  exact okOr_eq_ok.mp h

theorem withCpiDepth_yields {α : Type} {body : Prog α} {Q : α → Prop} (h : body.Yields Q) :
    (withCpiDepth body).Yields Q := by
  intro t a t' hr
  by_cases hdepth : t.depth + 1 > maxCpiDepth
  · have hfail : Comp.exec (withCpiDepth body) t = (.error (.err .cpiDepthExceeded), t) := by
      change (if t.depth + 1 > maxCpiDepth then _ else _ : Except Fault α × Thread) = _
      rw [if_pos hdepth]
    rw [Comp.Returns, hfail] at hr
    simp at hr
  · have hbody : (Comp.exec (withCpiDepth body) t).1 =
        (Comp.exec body { t with depth := t.depth + 1 }).1 := by
      change (if t.depth + 1 > maxCpiDepth then _ else _ : Except Fault α × Thread).1 = _
      rw [if_neg hdepth]
      rfl
    rw [show Comp.exec (withCpiDepth body) t = (.ok a, t') from hr] at hbody
    exact h _ a (Comp.exec body { t with depth := t.depth + 1 }).2 (Prod.ext hbody.symm rfl)

theorem forall₂_of_kept {indices : List Nat} {window gated : List AccountInfo}
    (h : List.Forall₂ (fun i a => accounts[i]? = some a) indices window)
    (hkept : S.Kept window gated) :
    List.Forall₂ (fun i b => ∃ a, accounts[i]? = some a ∧ S.R a b) indices gated := by
  induction h generalizing gated with
  | nil =>
    cases hkept
    exact .nil
  | cons hhead _ ih =>
    cases hkept with
    | cons hslot hrest => exact .cons ⟨_, hhead, hslot⟩ (ih hrest)

/-- **The invocation rule.** A callee that keeps the relation on its window keeps it on the table
    it is invoked on. -/
theorem invokeSignedIndexed_kept {indices signers : List Nat} {data : List UInt8}
    {callee : Pubkey} {process : Process}
    (h : ∀ window, (process window data).Yields (S.Kept window)) :
    (invokeSignedIndexed accounts indices signers data callee process).Yields
      (S.Kept accounts) := by
  unfold invokeSignedIndexed
  refine .bind (.ofExcept (windowOf_gives accounts indices)) fun window hwindow => ?_
  refine withCpiDepth_yields (.seq fun _ => .seq fun _ => .bind (h _) fun after hafter => ?_)
  have hkept : S.Kept window after := (markSigners_kept window signers).trans hafter
  refine .bind (gate_kept callee hkept) fun gated hgated => .pure (writeBack_kept ?_)
  exact forall₂_of_kept hwindow hgated

/-! ## Programs -/

/-- Sequencing of two steps that both keep the relation on the table they start from. -/
theorem bind_kept {x : Prog (List AccountInfo)} {f : List AccountInfo → Prog (List AccountInfo)}
    (hx : x.Yields (S.Kept accounts)) (hf : ∀ mid, (f mid).Yields (S.Kept mid)) :
    (x >>= f).Yields (S.Kept accounts) :=
  .bind hx fun mid hmid => .mono (hf mid) fun _ => Kept.trans hmid

theorem then_kept {x : Outcome (List AccountInfo)}
    {f : List AccountInfo → Outcome (List AccountInfo)} (hx : Gives x (S.Kept accounts))
    (hf : ∀ mid, Gives (f mid) (S.Kept mid)) : Gives (x >>= f) (S.Kept accounts) :=
  .bind hx fun mid hmid => .mono (hf mid) fun _ => Kept.trans hmid

theorem store_store_kept {α β : Type} [Borsh α] [Borsh β] (i j : Nat) (v : α) (w : β) :
    Gives (store accounts i v >>= fun mid => store mid j w) (S.Kept accounts) :=
  then_kept (store_kept i v) fun _ => store_kept j w

theorem store_yields {α : Type} [Borsh α] (i : Nat) (value : α) :
    (Comp.ofExcept (store accounts i value) : Prog _).Yields (S.Kept accounts) :=
  .ofExcept (store_kept i value)

/-- Every token instruction but the closing of an account only writes data. -/
theorem token_run_kept (π : Profile) (accounts : List AccountInfo) {ix : Token.TokenInstruction}
    (hix : ix ≠ .closeAccount) : Gives (Token.run π accounts ix) (S.Kept accounts) := by
  cases ix with
  | initializeMint => exact .seq fun _ => .seq fun _ => store_kept _ _
  | initializeAccount =>
    exact .seq fun _ => .seq fun _ => .seq fun _ => .seq fun _ => store_kept _ _
  | mintTo amount =>
    exact .seq fun _ => .seq fun _ => .seq fun _ => .seq fun _ => .seq fun _ => .seq fun _ =>
      .seq fun _ => .seq fun _ => store_store_kept _ _ _ _
  | transfer amount =>
    exact .seq fun _ => .seq fun _ => .seq fun _ => .seq fun _ => .seq fun _ => .seq fun _ =>
      .seq fun _ => store_store_kept _ _ _ _
  | burn amount =>
    exact .seq fun _ => .seq fun _ => .seq fun _ => .seq fun _ => .seq fun _ => .seq fun _ =>
      store_store_kept _ _ _ _
  | approve amount => exact .seq fun _ => .seq fun _ => store_kept _ _
  | revoke => exact .seq fun _ => store_kept _ _
  | freezeAccount => exact .seq fun _ => store_kept _ _
  | thawAccount => exact .seq fun _ => .seq fun _ => store_kept _ _
  | closeAccount => exact absurd rfl hix

/-- The instruction a token invocation encodes is the one the callee decodes. -/
theorem token_invoke_kept (π : Profile) (indices signers : List Nat) {ix : Token.TokenInstruction}
    (hix : ix ≠ .closeAccount) :
    (Token.invoke π accounts indices signers ix).Yields (S.Kept accounts) := by
  refine .bind (.ofExcept (Q := fun data => toVec ix = some data)
    fun data h => okOr_eq_ok.mp h) fun data hdata => ?_
  refine invokeSignedIndexed_kept fun window => .ofExcept (.bind
    (Q := fun ix' => ix' = ix) (fun ix' h => ?_) fun ix' h => ?_)
  · have hdec := okOr_eq_ok.mp h
    rw [tryFromSlice_toVec hdata] at hdec
    exact (Option.some.inj hdec).symm
  · rw [h]
    exact token_run_kept π window hix

theorem ata_kept (π : Profile) (accounts : List AccountInfo) (data : List UInt8) :
    (Ata.process π accounts data).Yields (S.Kept accounts) := by
  refine .seq fun ix => ?_
  cases ix
  refine .seq fun _ => .seq fun _ => .seq fun _ => .seq fun _ => .seq fun _ => .ite (.pure Kept.refl) ?_
  exact token_invoke_kept π _ _ (by simp)

theorem swap_kept (π : Profile) (accounts : List AccountInfo) (data : List UInt8) :
    (Swap.process π accounts data).Yields (S.Kept accounts) := by
  refine .seq fun ix => ?_
  cases ix with
  | initializePool =>
    exact .seq fun _ => .seq fun _ => .seq fun _ => .seq fun _ => .seq fun _ => .seq fun _ =>
      .seq fun _ => .seq fun _ => .seq fun _ => store_yields _ _
  | swap =>
    refine .seq fun _ => .seq fun _ => .seq fun _ => .seq fun _ => .seq fun _ => .seq fun _ =>
      .seq fun _ => .seq fun _ => .seq fun _ => .seq fun _ => ?_
    refine bind_kept (token_invoke_kept π _ _ (by simp)) fun _ =>
      bind_kept (token_invoke_kept π _ _ (by simp)) fun _ => .seq fun _ => store_yields _ _
  | deposit =>
    refine .seq fun _ => .seq fun _ => .seq fun _ => .seq fun _ => .seq fun p => ?_
    refine .seq fun _ => bind_kept (token_invoke_kept π _ _ (by simp)) fun _ =>
      bind_kept (token_invoke_kept π _ _ (by simp)) fun _ =>
      bind_kept (token_invoke_kept π _ _ (by simp)) fun _ =>
      .seq fun _ => .seq fun _ => store_yields _ _
  | withdraw =>
    refine .seq fun _ => .seq fun _ => .seq fun _ => .seq fun _ => .seq fun _ => .seq fun _ =>
      .seq fun _ => .seq fun _ => .seq fun _ => .seq fun _ => ?_
    refine bind_kept (token_invoke_kept π _ _ (by simp)) fun _ =>
      bind_kept (token_invoke_kept π _ _ (by simp)) fun _ =>
      bind_kept (token_invoke_kept π _ _ (by simp)) fun _ =>
      .seq fun _ => .seq fun _ => store_yields _ _

theorem nftMetadata_kept (π : Profile) (accounts : List AccountInfo) (data : List UInt8) :
    Gives (NftMetadata.process π accounts data) (S.Kept accounts) := by
  refine .seq fun ix => ?_
  cases ix with
  | create =>
    exact .seq fun _ => .seq fun _ => .seq fun _ => .seq fun _ => .seq fun _ => .seq fun _ =>
      store_kept _ _
  | update => exact .seq fun _ => .seq fun _ => .seq fun _ => .seq fun _ => store_kept _ _
  | verifyCreator => exact .seq fun _ => .seq fun _ => store_kept _ _
  | makeImmutable => exact .seq fun _ => .seq fun _ => .seq fun _ => store_kept _ _

theorem lending_kept (π : Profile) (hasher : Lending.Hasher) (accounts : List AccountInfo)
    (data : List UInt8) (timestamp : UInt64) :
    Gives (Lending.process π hasher accounts data timestamp) (S.Kept accounts) := by
  refine .seq fun ix => .seq fun _ => ?_
  cases ix with
  | initCollection => exact .seq fun _ => .seq fun _ => store_kept _ _
  | placeBid => exact .seq fun _ => .seq fun _ => store_kept _ _
  | cancelBid => exact .seq fun _ => .seq fun _ => store_kept _ _
  | acceptBid =>
    exact .seq fun _ => .seq fun _ => .seq fun _ => .seq fun _ => store_kept _ _
  | repayLoan =>
    refine .seq fun _ => .seq fun _ => .ite (.seq fun _ => .error) ?_
    exact .seq fun _ => .seq fun _ => .ite (store_kept _ _) (store_kept _ _)
  | claimDefault => exact .seq fun _ => .seq fun _ => .seq fun _ => store_kept _ _

theorem runes_kept (accounts : List AccountInfo) (data : List UInt8) (timestamp : UInt64) :
    Gives (Runes.process accounts data timestamp) (S.Kept accounts) := by
  refine .seq fun ix => ?_
  cases ix with
  | etch =>
    refine .seq fun _ => .seq fun _ => .seq fun _ => .seq fun _ => .seq fun _ => .seq fun _ =>
      .seq fun _ => then_kept (store_kept _ _) fun _ => ?_
    exact .ite (.seq fun _ => .seq fun _ => store_kept _ _) (.ok Kept.refl)
  | mint =>
    refine .seq fun _ => .seq fun _ => .seq fun _ => .seq fun _ => .seq fun _ => .seq fun _ =>
      .seq fun _ => .seq fun _ => .seq fun _ => .seq fun _ => then_kept (store_kept _ _) fun _ => ?_
    exact .seq fun _ => .seq fun _ => .seq fun _ => store_kept _ _
  | transfer =>
    exact .seq fun _ => .seq fun _ => .seq fun _ => .seq fun _ => .seq fun _ => .seq fun _ =>
      .seq fun _ => .seq fun _ => store_store_kept _ _ _ _
  | burn =>
    exact .seq fun _ => .seq fun _ => .seq fun _ => .seq fun _ => .seq fun _ => .seq fun _ =>
      store_store_kept _ _ _ _
  | initBalance => exact .seq fun _ => .seq fun _ => .seq fun _ => .seq fun _ => store_kept _ _

theorem oracle_kept (π : Profile) (accounts : List AccountInfo) (data : List UInt8)
    (timestamp : UInt64) : Gives (Oracle.process π accounts data timestamp) (S.Kept accounts) := by
  refine .seq fun ix => .seq fun _ => ?_
  cases ix with
  | initFeed => exact .seq fun _ => .seq fun _ => .seq fun _ => .seq fun _ => store_kept _ _
  | updatePrice =>
    refine .seq fun _ => .seq fun _ => .seq fun _ => .seq fun _ => .seq fun _ => .seq fun _ =>
      .ite (store_kept _ _) (.seq fun _ => ?_)
    exact .ite (.seq fun _ => .seq fun _ => store_kept _ _) (store_kept _ _)
  | addPublisher =>
    exact .seq fun _ => .seq fun _ => .seq fun _ => .seq fun _ => .seq fun _ => store_kept _ _
  | removePublisher =>
    exact .seq fun _ => .seq fun _ => .seq fun _ => .seq fun _ => .seq fun _ => store_kept _ _

theorem storeBoth_yields {α : Type} [Borsh α] (market : MoneyMarket.MarketState) (pos : α) :
    (Comp.ofExcept (MoneyMarket.storeBoth accounts market pos) : Prog _).Yields
      (S.Kept accounts) :=
  .ofExcept (store_store_kept 0 1 market pos)

theorem transfer_kept (π : Profile) (src dst owner : Nat) (amount : UInt64) :
    (MoneyMarket.transfer π accounts src dst owner amount).Yields (S.Kept accounts) :=
  token_invoke_kept π _ _ (by simp)

theorem transferSigned_kept (π : Profile) (src dst owner : Nat) (amount : UInt64) :
    (MoneyMarket.transferSigned π accounts src dst owner amount).Yields (S.Kept accounts) :=
  token_invoke_kept π _ _ (by simp)

theorem moneyMarket_kept (π : Profile) (timestamp : UInt64) (accounts : List AccountInfo)
    (data : List UInt8) : (MoneyMarket.process π timestamp accounts data).Yields
      (S.Kept accounts) := by
  refine .seq fun ix => ?_
  cases ix with
  | initMarket =>
    exact .ofExcept (.seq fun _ => .seq fun _ => .seq fun _ => .seq fun _ => .seq fun _ =>
      .seq fun _ => .seq fun _ => .seq fun _ => .seq fun _ => .seq fun _ => .seq fun _ =>
      .seq fun _ => .seq fun _ => .seq fun _ => store_kept _ _)
  | addLiquidity =>
    refine .seq fun _ => .seq fun _ => bind_kept (transfer_kept π _ _ _ _) fun _ => ?_
    exact .seq fun _ => .seq fun _ => .seq fun _ => storeBoth_yields _ _
  | removeLiquidity =>
    refine .seq fun _ => .seq fun _ => .seq fun _ => .seq fun _ =>
      bind_kept (transferSigned_kept π _ _ _ _) fun _ => ?_
    exact .seq fun _ => .seq fun _ => .seq fun _ => storeBoth_yields _ _
  | supply =>
    refine .seq fun _ => bind_kept (transfer_kept π _ _ _ _) fun _ => ?_
    exact .seq fun _ => .seq fun _ => storeBoth_yields _ _
  | withdraw =>
    refine .seq fun _ => .seq fun _ => .seq fun _ => .seq fun _ => .seq fun _ =>
      bind_kept (transferSigned_kept π _ _ _ _) fun _ => ?_
    exact .seq fun _ => storeBoth_yields _ _
  | borrow =>
    refine .seq fun _ => .seq fun _ => .seq fun _ => .seq fun _ => .seq fun _ => .seq fun _ =>
      bind_kept (.adapt (transferSigned_kept π _ _ _ _)) fun _ => ?_
    exact .seq fun _ => storeBoth_yields _ _
  | repay =>
    refine .seq fun _ => bind_kept (transfer_kept π _ _ _ _) fun _ => ?_
    exact .seq fun _ => .seq fun _ => storeBoth_yields _ _
  | liquidate =>
    refine .seq fun _ => .seq fun _ => .seq fun _ => .seq fun _ => .seq fun _ => .seq fun _ =>
      .seq fun _ => .seq fun _ => .seq fun _ => .seq fun _ => .seq fun _ => .seq fun _ =>
      .seq fun _ => .seq fun _ => bind_kept (transfer_kept π _ _ _ _) fun _ =>
      bind_kept (transferSigned_kept π _ _ _ _) fun _ => ?_
    exact .seq fun _ => .seq fun _ => .seq fun _ => storeBoth_yields _ _
  | syncPrice =>
    exact .ofExcept (.seq fun _ => .seq fun _ => .seq fun _ => .seq fun _ => .seq fun _ =>
      .seq fun _ => .seq fun _ => store_kept _ _)

theorem mmLiquidity_kept (π : Profile) (idx : List Nat)
    (ix : MoneyMarket.MoneyMarketInstruction) (timestamp : UInt64) :
    (Vault.mmLiquidity π accounts idx ix timestamp).Yields (S.Kept accounts) :=
  .seq fun data => invokeSignedIndexed_kept fun window => moneyMarket_kept π timestamp window data

theorem moveLiquidity_kept (π : Profile) (timestamp amount : UInt64)
    (ix : MoneyMarket.MoneyMarketInstruction) :
    (Vault.moveLiquidity π accounts timestamp amount ix).Yields (S.Kept accounts) :=
  .seq fun _ => bind_kept (mmLiquidity_kept π _ _ _) fun _ => .seq fun _ => store_yields _ _

theorem autoUndeploy_kept (π : Profile) (vault : Vault.VaultState) (timestamp out : UInt64) :
    (Vault.autoUndeploy π vault accounts timestamp out).Yields fun r => S.Kept accounts r.2 :=
  .seq fun _ => .ite (.bind (mmLiquidity_kept π _ _ _) fun _ hmid => .seq fun _ => .pure hmid)
    (.pure Kept.refl)

theorem vault_kept (π : Profile) (timestamp : UInt64) (accounts : List AccountInfo)
    (data : List UInt8) : (Vault.process π timestamp accounts data).Yields (S.Kept accounts) := by
  refine .seq fun ix => ?_
  cases ix with
  | initVault =>
    exact .ofExcept (.seq fun _ => .seq fun _ => .seq fun _ => .seq fun _ => .seq fun _ =>
      .seq fun _ => .seq fun _ => .seq fun _ => .seq fun _ => .seq fun _ => store_kept _ _)
  | deposit =>
    refine .seq fun _ => .seq fun _ => .seq fun _ => .seq fun _ => .seq fun _ => .seq fun _ =>
      .seq fun _ => .seq fun _ => .seq fun _ => bind_kept (token_invoke_kept π _ _ (by simp))
      fun _ => bind_kept (token_invoke_kept π _ _ (by simp)) fun _ => ?_
    exact .seq fun _ => .seq fun _ => store_yields _ _
  | withdraw =>
    refine .seq fun _ => .seq fun _ => .seq fun _ => .seq fun _ => .seq fun _ => .seq fun _ =>
      .seq fun _ => .seq fun _ => .bind (autoUndeploy_kept (S := S) π _ _ _)
      fun r hr => ?_
    refine .mono (bind_kept (token_invoke_kept π _ _ (by simp)) fun _ => bind_kept
      (token_invoke_kept π _ _ (by simp)) fun _ => .seq fun _ => ?_) fun out => Kept.trans hr
    exact .seq fun _ => store_yields _ _
  | report =>
    refine .seq fun _ => .seq fun _ => .seq fun _ => .seq fun _ => .seq fun _ => .seq fun _ =>
      .seq fun _ => .seq fun _ => .seq fun _ => .seq fun _ => .ite ?_ (store_yields _ _)
    exact bind_kept (token_invoke_kept π _ _ (by simp)) fun _ => .seq fun _ => store_yields _ _
  | deploy => exact moveLiquidity_kept π _ _ _
  | undeploy => exact moveLiquidity_kept π _ _ _

/-- **What a built-in keeps.** What is neither the system program nor the closing of a token account
    keeps every such relation in every slot. -/
theorem runBuiltin_kept (π : Profile) (hasher : Lending.Hasher) {programId : Pubkey}
    (accounts : List AccountInfo) {data : List UInt8} (timestamp : UInt64)
    (hsys : programId ≠ ProgramIds.systemProgram)
    (hclose : programId = ProgramIds.tokenProgram →
      tryFromSlice data ≠ some Token.TokenInstruction.closeAccount) :
    (runBuiltin π hasher programId accounts data timestamp).Yields (S.Kept accounts) := by
  unfold runBuiltin
  rw [if_neg hsys]
  split
  · rename_i htoken
    refine .ofExcept (.bind (Q := fun ix => tryFromSlice data = some ix)
      (fun ix h => okOr_eq_ok.mp h) fun ix h => ?_)
    refine token_run_kept π accounts fun hix => ?_
    exact hclose htoken (hix ▸ h)
  · refine .ite (ata_kept π accounts data) (.ite (swap_kept π accounts data)
      (.ite (.ofExcept (nftMetadata_kept π accounts data))
      (.ite (.ofExcept (lending_kept π hasher accounts data timestamp))
      (.ite (.ofExcept (runes_kept accounts data timestamp))
      (.ite (moneyMarket_kept π timestamp accounts data)
      (.ite (vault_kept π timestamp accounts data)
      (.ite (.ofExcept (oracle_kept π accounts data timestamp)) .throw)))))))

end SlotRel

/-- And so every frame. -/
theorem Frame.runBuiltin_same {F : Frame} (π : Profile) (hasher : Lending.Hasher)
    {programId : Pubkey} (accounts : List AccountInfo) {data : List UInt8} (timestamp : UInt64)
    (hsys : programId ≠ ProgramIds.systemProgram)
    (hclose : programId = ProgramIds.tokenProgram →
      tryFromSlice data ≠ some Token.TokenInstruction.closeAccount) :
    (runBuiltin π hasher programId accounts data timestamp).Yields (F.Same accounts) := by
  refine .mono (SlotRel.runBuiltin_kept (S := F.slotRel) π hasher accounts timestamp hsys hclose)
    fun out hkept => ?_
  unfold Frame.Same
  induction hkept with
  | nil => rfl
  | cons hhead _ ih => rw [List.map_cons, List.map_cons, ih, hhead]

/-! ## Lamports -/

open Himsha.Proof.Frame

/-- What one instruction moves from its first slot to its second, `none` for one that moves
    nothing. A closed token account moves all it holds. -/
def amountMoved (programId : Pubkey) (data : List UInt8) (held : Nat) : Option Nat :=
  if programId = ProgramIds.systemProgram then
    match tryFromSlice data with
    | some (System.SystemInstruction.transfer lamports) => some lamports.toNat
    | some (.createAccount lamports _ _) => some lamports.toNat
    | _ => none
  else if programId = ProgramIds.tokenProgram then
    match tryFromSlice data with
    | some Token.TokenInstruction.closeAccount => some held
    | _ => none
  else none

/-- The first slot lost `n` lamports and the second one gained them, in 64 bits. -/
def Moved (n : Nat) (accounts out : List AccountInfo) : Prop :=
  ∃ k₀ k₁ a a' b b' rest,
    accounts.map balanceOf = (k₀, a) :: (k₁, b) :: rest ∧
    out.map balanceOf = (k₀, a') :: (k₁, b') :: rest ∧
    a' + n = a ∧ b' = (b + n) % 2 ^ 64

section
variable {accounts out : List AccountInfo}

theorem Moved.trans {n : Nat} {mid : List AccountInfo} (h : Moved n accounts mid)
    (h' : lamportFrame.Same mid out) : Moved n accounts out := by
  obtain ⟨k₀, k₁, a, a', b, b', rest, hin, hout, hsub, hadd⟩ := h
  exact ⟨k₀, k₁, a, a', b, b', rest, hin, Eq.trans h' hout, hsub, hadd⟩

theorem eq_cons_cons {a b : AccountInfo} (ha : accounts[0]? = some a)
    (hb : accounts[1]? = some b) : ∃ rest, accounts = a :: b :: rest := by
  cases accounts with
  | nil => simp at ha
  | cons a' tail =>
    cases tail with
    | nil => simp at hb
    | cons b' rest =>
      simp only [List.getElem?_cons_zero, Option.some.injEq] at ha
      simp only [List.getElem?_cons_succ, List.getElem?_cons_zero, Option.some.injEq] at hb
      exact ⟨rest, by rw [ha, hb]⟩

theorem slot_gives (accounts : List AccountInfo) (i : Nat) :
    Gives (slot accounts i) fun a => accounts[i]? = some a :=
  fun _ h => slot_eq_ok h

theorem deductLamports_gives (a : AccountInfo) (n : UInt64) :
    Gives (System.deductLamports a n) fun a' =>
      ∃ lamports, lamports.toNat + n.toNat = a.lamports.toNat ∧ a' = { a with lamports } := by
  intro a' h
  unfold System.deductLamports at h
  cases hsub : checkedSub a.lamports n with
  | none => simp [hsub, okOr, fail, Except.map] at h
  | some lamports =>
    simp only [hsub, okOr, Except.map, Except.ok.injEq] at h
    exact ⟨lamports, checkedSub_eq_some hsub, h.symm⟩

theorem creditLamports_gives (a : AccountInfo) (n : UInt64) :
    Gives (System.creditLamports a n) fun a' => a' = { a with lamports := a.lamports + n } := by
  intro a' h
  unfold System.creditLamports at h
  cases hadd : checkedAdd a.lamports n with
  | none => simp [hadd, okOr, fail, Except.map] at h
  | some lamports =>
    simp only [hadd, okOr, Except.map, Except.ok.injEq] at h
    have hsum : lamports = a.lamports + n := by
      unfold checkedAdd at hadd
      split at hadd
      · simpa using hadd.symm
      · simp at hadd
    rw [← h, hsum]

/-- The balance of the first slot, 0 if there is none. -/
def firstHeld (accounts : List AccountInfo) : Nat :=
  (accounts[0]?.map (·.lamports.toNat)).getD 0

/-- The balances an instruction leaves, given the amount it moves. -/
def Settles (moved : Option Nat) (accounts out : List AccountInfo) : Prop :=
  match moved with
  | none => lamportFrame.Same accounts out
  | some n => Moved n accounts out

theorem system_settles (accounts : List AccountInfo) (data : List UInt8) :
    Gives (System.process accounts data)
      (Settles (amountMoved ProgramIds.systemProgram data (firstHeld accounts)) accounts) := by
  refine .bind (Q := fun ix => tryFromSlice data = some ix) (fun ix h => okOr_eq_ok.mp h)
    fun ix hix => ?_
  unfold amountMoved
  rw [if_pos rfl, hix]
  cases ix with
  | createAccount lamports space owner =>
    refine .seq fun _ => .bind (slot_gives accounts 0) fun a ha =>
      .bind (deductLamports_gives a lamports) fun a' ha' => .bind (slot_gives _ 1) fun b hb => ?_
    obtain ⟨left, hsub, rfl⟩ := ha'
    rw [List.getElem?_set_ne (by simp)] at hb
    obtain ⟨rest, rfl⟩ := eq_cons_cons ha hb
    refine .bind (Q := fun _ => b.lamports = 0) (fun _ h => ?_) fun _ hfresh =>
      .seq fun data => .ok ?_
    · simp only [System.requireFresh, require_eq_ok, Bool.and_eq_true, beq_iff_eq] at h
      exact h.1
    · refine ⟨a.key, b.key, a.lamports.toNat, left.toNat, b.lamports.toNat, lamports.toNat,
        rest.map balanceOf, rfl, rfl, hsub, ?_⟩
      rw [hfresh, UInt64.toNat_zero, Nat.zero_add, Nat.mod_eq_of_lt lamports.toNat_lt]
  | createAccountWithAnchor utxo space owner =>
    refine .seq fun _ => .bind (slot_gives accounts 1) fun b hb => .seq fun _ => .seq fun data =>
      .ok ?_
    exact same_set hb rfl
  | transfer lamports =>
    refine .seq fun _ => .seq fun _ => .bind (slot_gives accounts 0) fun a ha =>
      .bind (deductLamports_gives a lamports) fun a' ha' => .bind (slot_gives _ 1) fun b hb =>
      .bind (creditLamports_gives b lamports) fun b' hb' => .ok ?_
    obtain ⟨left, hsub, rfl⟩ := ha'
    rw [List.getElem?_set_ne (by simp)] at hb
    obtain ⟨rest, rfl⟩ := eq_cons_cons ha hb
    subst hb'
    exact ⟨a.key, b.key, a.lamports.toNat, left.toNat, b.lamports.toNat,
      (b.lamports + lamports).toNat, rest.map balanceOf, rfl, rfl, hsub,
      UInt64.toNat_add _ _⟩
  | assign owner =>
    refine .seq fun _ => .bind (slot_gives accounts 0) fun a ha => .ok ?_
    exact same_set ha rfl
  | allocate space =>
    refine .seq fun _ => .bind (slot_gives accounts 0) fun a ha => .ite (.seq fun _ => .ok ?_)
      (.ok rfl)
    exact same_set ha rfl

theorem closeAccount_settles (π : Profile) (accounts : List AccountInfo) :
    Gives (Token.run π accounts .closeAccount) (Moved (firstHeld accounts) accounts) := by
  refine .seq fun _ => .seq fun _ => .bind (slot_gives accounts 0) fun a ha =>
    .bind (slot_gives accounts 1) fun b hb => .bind (Q := fun s => s = b.lamports + a.lamports)
      (fun s h => ?_) fun s hs => .ok ?_
  · rw [orPanic_eq_ok] at h
    exact addU64_eq h
  · obtain ⟨rest, rfl⟩ := eq_cons_cons ha hb
    subst hs
    exact ⟨a.key, b.key, a.lamports.toNat, 0, b.lamports.toNat, (b.lamports + a.lamports).toNat,
      rest.map balanceOf, rfl, rfl, by simp [firstHeld], UInt64.toNat_add _ _⟩

theorem Settles.trans {moved : Option Nat} {mid : List AccountInfo}
    (h : Settles moved accounts mid) (h' : lamportFrame.Same mid out) :
    Settles moved accounts out := by
  cases moved with
  | none => exact Same.trans h h'
  | some n => exact Moved.trans h h'

theorem runBuiltin_settles (π : Profile) (hasher : Lending.Hasher) (programId : Pubkey)
    (accounts : List AccountInfo) (data : List UInt8) (timestamp : UInt64) :
    (runBuiltin π hasher programId accounts data timestamp).Yields
      (Settles (amountMoved programId data (firstHeld accounts)) accounts) := by
  by_cases hsys : programId = ProgramIds.systemProgram
  · subst hsys
    unfold runBuiltin
    rw [if_pos rfl]
    exact .ofExcept (system_settles accounts data)
  by_cases hclose : programId = ProgramIds.tokenProgram ∧
      tryFromSlice data = some Token.TokenInstruction.closeAccount
  · obtain ⟨rfl, hdata⟩ := hclose
    unfold runBuiltin amountMoved
    rw [if_neg hsys, if_neg hsys, if_pos rfl, if_pos rfl, hdata]
    refine .ofExcept (.bind (Q := fun ix => ix = Token.TokenInstruction.closeAccount)
      (fun ix h => ?_) fun ix h => ?_)
    · rw [okOr_eq_ok, hdata, Option.some.injEq] at h
      exact h.symm
    · rw [h]
      exact closeAccount_settles π accounts
  · have hnone : amountMoved programId data (firstHeld accounts) = none := by
      unfold amountMoved
      rw [if_neg hsys]
      split
      · rename_i htoken
        split
        · rename_i hdata
          exact absurd ⟨htoken, hdata⟩ hclose
        · rfl
      · rfl
    rw [hnone]
    exact runBuiltin_same π hasher accounts timestamp hsys fun htoken hdata =>
      hclose ⟨htoken, hdata⟩

/-- **What a built-in does to balances**: it moves the amount its instruction names from the
    first slot to the second, or leaves all balances alone. -/
theorem dispatch_settles (π : Profile) (hasher : Lending.Hasher) (programId : Pubkey)
    (accounts : List AccountInfo) (data : List UInt8) (timestamp : UInt64) :
    (dispatch π hasher programId accounts data timestamp).Yields
      (Settles (amountMoved programId data (firstHeld accounts)) accounts) :=
  .seq fun _ => .bind (runBuiltin_settles π hasher programId accounts data timestamp)
    fun mid hmid => .mono (validateWrites_same programId accounts mid) fun _ => hmid.trans

theorem Same.keys (h : lamportFrame.Same accounts out) : keyFrame.Same accounts out := by
  have hfst := congrArg (List.map Prod.fst) h
  simpa [Frame.Same, List.map_map, Function.comp_def, lamportFrame, balanceOf,
      keyFrame] using hfst

theorem Settles.keys {moved : Option Nat} (h : Settles moved accounts out) :
    keyFrame.Same accounts out := by
  cases moved with
  | none => exact Same.keys h
  | some n =>
    obtain ⟨k₀, k₁, a, a', b, b', rest, hin, hout, -, -⟩ := h
    have hfst : (out.map balanceOf).map Prod.fst =
        (accounts.map balanceOf).map Prod.fst := by rw [hin, hout]; rfl
    simpa [Frame.Same, List.map_map, Function.comp_def, lamportFrame, balanceOf,
      keyFrame] using hfst

/-- No program, native or proved, changes which account a slot is about. -/
theorem executeProgram_keys {m : Machine} {programId : Pubkey} {input : ExecutionInput}
    {anchorUtxos : List UtxoMeta} {t : StateTransition}
    (h : executeProgram m programId input anchorUtxos = .ok t) :
    keyFrame.Same input.accounts t.updatedAccounts := by
  unfold executeProgram at h
  split at h
  · obtain ⟨s', hret, -⟩ := executeNative_eq_ok h
    exact (dispatch_settles _ _ _ _ _ _ _ _ _ hret).keys
  · rename_i hbuiltin
    obtain ⟨updated, hkeys, hgate, -⟩ := execute_eq_ok h
    rw [if_neg hbuiltin] at hgate
    have hyields : Comp.Yields (do modify beginExecution
                                   validateWrites programId input.accounts updated)
        (keyFrame.Same updated) :=
      .seq fun _ => validateWrites_same programId input.accounts updated
    exact Frame.Same.trans hkeys (hyields _ _ _ (Prod.ext hgate rfl))

end

end Proof
end Himsha
