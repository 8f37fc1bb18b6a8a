import Himsha.Proof.CpiGate

/-!
# The built-ins are bodies

Each built-in program has a tree: it reads and writes its copies of the accounts, and what it does
to the thread-locals it does by invocations. So what holds of a top-level execution of any body
holds of `dispatch` (`dispatch_eq_topLevel`).
-/

set_option autoImplicit false

namespace Himsha
namespace Proof

open Himsha.Lib Himsha.Runtime Himsha.Programs Himsha.Vm

/-! ## Sequencing -/

/-- Go on where a body is done. -/
def Body.bind {α β : Type} : Body α → (α → Body β) → Body β
  | .done a, f => f a
  | .fail fault, _ => .fail fault
  | .invoke accounts indices signers data callee process next, f =>
      .invoke accounts indices signers data callee process fun r => (next r).bind f

/-- A body that ends as an invocation ended. -/
def Body.ending : Except ProgramError (List AccountInfo) → Body (List AccountInfo)
  | .ok out => .done out
  | .error e => .fail (.err e)

/-- Another error for one that ends the body. -/
def Body.adapt {α : Type} (g : Fault → Fault) : Body α → Body α
  | .done a => .done a
  | .fail fault => .fail (g fault)
  | .invoke accounts indices signers data callee process next =>
      .invoke accounts indices signers data callee process fun r => (next r).adapt g

theorem Body.run_bind {α β : Type} (b : Body α) (f : α → Body β) :
    (b.bind f).run = b.run >>= fun a => (f a).run := by
  induction b with
  | done a => rw [Body.bind, Body.run, pure_bind]
  | fail fault => rfl
  | invoke accounts indices signers data callee process next _ ihnext =>
    rw [Body.bind, Body.run, Body.run, bind_assoc]
    simp only [ihnext]

/-- Two computations that do the same on all thread-locals. -/
theorem prog_ext {α : Type} {x y : Prog α} (h : ∀ th, Comp.exec x th = Comp.exec y th) : x = y :=
  funext h

theorem exec_adapt {α : Type} (g : Fault → Fault) (x : Prog α) (th : Thread) :
    Comp.exec (x.adapt g : Prog α) th =
      ((Comp.exec x th).1.mapError g, (Comp.exec x th).2) :=
  rfl

/-- A computation that was caught fails by a panic only. -/
theorem caught_error {α : Type} {x : Prog α} {th th' : Thread} {fault : Fault}
    (h : Comp.exec (caught x) th = (.error fault, th')) : fault = .panic := by
  rw [exec_caught] at h
  split at h
  · simp at h
  · simp at h
  · simp only [Prod.mk.injEq, Except.error.injEq] at h
    exact h.1.symm

theorem Body.run_adapt {α : Type} {g : Fault → Fault} (hpanic : g .panic = .panic) (b : Body α) :
    (b.adapt g).run = (b.run.adapt g : Prog α) := by
  induction b with
  | done a => rfl
  | fail fault => rfl
  | invoke accounts indices signers data callee process next _ ihnext =>
    refine prog_ext fun th => ?_
    rw [Body.adapt, Body.run, Body.run, exec_adapt, Comp.exec_bind, Comp.exec_bind]
    cases hexec : Comp.exec (caught (invokeSignedIndexed accounts indices signers data callee
        fun window data => (process window data).run)) th with
    | mk r th₁ =>
      cases r with
      | error fault =>
        rw [caught_error hexec]
        simp [Except.mapError, hpanic]
      | ok r =>
        simp only [ihnext, exec_adapt]

/-! ## Computations that are bodies -/

/-- Some body does the same. -/
def HasBody {α : Type} (x : Prog α) : Prop := ∃ b : Body α, b.run = x

namespace HasBody

variable {α β : Type}

theorem pure {a : α} : HasBody (Pure.pure a : Prog α) := ⟨.done a, rfl⟩

theorem throw {fault : Fault} : HasBody (MonadExcept.throw fault : Prog α) := ⟨.fail fault, rfl⟩

theorem ofExcept {r : Outcome α} : HasBody (Comp.ofExcept r : Prog α) :=
  ⟨.ofOutcome r, Body.run_ofOutcome r⟩

theorem bind {x : Prog α} {f : α → Prog β} (hx : HasBody x) (hf : ∀ a, HasBody (f a)) :
    HasBody (x >>= f) := by
  obtain ⟨b, rfl⟩ := hx
  choose k hk using hf
  refine ⟨b.bind k, ?_⟩
  rw [Body.run_bind]
  simp only [hk]

/-- The rule for a step that works on copies only. -/
theorem seq {r : Outcome α} {f : α → Prog β} (hf : ∀ a, HasBody (f a)) :
    HasBody (Comp.ofExcept r >>= f) :=
  bind ofExcept hf

theorem ite {c : Prop} [Decidable c] {x y : Prog α} (hx : HasBody x) (hy : HasBody y) :
    HasBody (if c then x else y) := by
  split
  · exact hx
  · exact hy

theorem adapt {g : Fault → Fault} (hpanic : g .panic = .panic) {x : Prog α} (hx : HasBody x) :
    HasBody (x.adapt g : Prog α) := by
  obtain ⟨b, rfl⟩ := hx
  exact ⟨b.adapt g, Body.run_adapt hpanic b⟩

/-- The invocation rule: the callee has to have a body as well. -/
theorem invoke {accounts : List AccountInfo} {indices signers : List Nat} {data : List UInt8}
    {callee : Pubkey} {process : Process} (h : ∀ window data, HasBody (process window data)) :
    HasBody (invokeSignedIndexed accounts indices signers data callee process) := by
  choose body hbody using h
  refine ⟨.invoke accounts indices signers data callee body .ending, ?_⟩
  have hprocess : (fun window data => (body window data).run) = process :=
    funext fun window => funext fun data => hbody window data
  refine prog_ext fun th => ?_
  rw [Body.run, hprocess, Comp.exec_bind, exec_caught]
  cases Comp.exec (invokeSignedIndexed accounts indices signers data callee process) th with
  | mk r th' =>
    cases r with
    | ok out => rfl
    | error fault => cases fault <;> rfl

end HasBody

/-! ## The programs -/

open HasBody

theorem token_invoke_body (π : Profile) (accounts : List AccountInfo) (indices signers : List Nat)
    (ix : Token.TokenInstruction) : HasBody (Token.invoke π accounts indices signers ix) :=
  seq fun _ => invoke fun _ _ => ofExcept

theorem ata_body (π : Profile) (accounts : List AccountInfo) (data : List UInt8) :
    HasBody (Ata.process π accounts data) := by
  refine seq fun ix => ?_
  cases ix
  refine seq fun _ => seq fun _ => seq fun _ => seq fun _ => seq fun _ => ite pure ?_
  exact token_invoke_body π accounts _ _ _

theorem swap_body (π : Profile) (accounts : List AccountInfo) (data : List UInt8) :
    HasBody (Swap.process π accounts data) := by
  refine seq fun ix => ?_
  cases ix with
  | initializePool =>
    exact seq fun _ => seq fun _ => seq fun _ => seq fun _ => seq fun _ => seq fun _ =>
      seq fun _ => seq fun _ => seq fun _ => ofExcept
  | swap =>
    refine seq fun _ => seq fun _ => seq fun _ => seq fun _ => seq fun _ => seq fun _ =>
      seq fun _ => seq fun _ => seq fun _ => seq fun _ => ?_
    refine bind (token_invoke_body π _ _ _ _) fun _ => bind (token_invoke_body π _ _ _ _) fun _ => ?_
    exact seq fun _ => ofExcept
  | deposit =>
    refine seq fun _ => seq fun _ => seq fun _ => seq fun _ => seq fun p => seq fun _ => ?_
    refine bind (token_invoke_body π _ _ _ _) fun _ => bind (token_invoke_body π _ _ _ _) fun _ => ?_
    exact bind (token_invoke_body π _ _ _ _) fun _ => seq fun _ => seq fun _ => ofExcept
  | withdraw =>
    refine seq fun _ => seq fun _ => seq fun _ => seq fun _ => seq fun _ => seq fun _ =>
      seq fun _ => seq fun _ => seq fun _ => seq fun _ => ?_
    refine bind (token_invoke_body π _ _ _ _) fun _ => bind (token_invoke_body π _ _ _ _) fun _ => ?_
    exact bind (token_invoke_body π _ _ _ _) fun _ => seq fun _ => seq fun _ => ofExcept

theorem moneyMarket_body (π : Profile) (timestamp : UInt64) (accounts : List AccountInfo)
    (data : List UInt8) : HasBody (MoneyMarket.process π timestamp accounts data) := by
  refine seq fun ix => ?_
  cases ix with
  | initMarket terms => exact ofExcept
  | addLiquidity amount =>
    refine seq fun p => seq fun _ => bind (token_invoke_body π _ _ _ _) fun _ => ?_
    exact seq fun _ => seq fun _ => seq fun _ => ofExcept
  | removeLiquidity amount =>
    refine seq fun p => seq fun _ => seq fun _ => seq fun _ =>
      bind (token_invoke_body π _ _ _ _) fun _ => ?_
    exact seq fun _ => seq fun _ => seq fun _ => ofExcept
  | supply amount =>
    refine seq fun p => bind (token_invoke_body π _ _ _ _) fun _ => ?_
    exact seq fun _ => seq fun _ => ofExcept
  | withdraw amount =>
    refine seq fun p => seq fun _ => seq fun _ => seq fun _ => seq fun _ =>
      bind (token_invoke_body π _ _ _ _) fun _ => ?_
    exact seq fun _ => ofExcept
  | borrow amount =>
    refine seq fun p => seq fun _ => seq fun _ => seq fun _ => seq fun _ => seq fun _ => ?_
    refine bind (adapt rfl (token_invoke_body π _ _ _ _)) fun _ => ?_
    exact seq fun _ => ofExcept
  | repay amount =>
    refine seq fun p => bind (token_invoke_body π _ _ _ _) fun _ => ?_
    exact seq fun _ => seq fun _ => ofExcept
  | liquidate repayAmount =>
    refine seq fun _ => seq fun _ => seq fun _ => seq fun _ => seq fun _ => seq fun _ =>
      seq fun _ => seq fun _ => seq fun _ => seq fun _ => seq fun _ => seq fun _ => seq fun _ =>
      seq fun _ => ?_
    refine bind (token_invoke_body π _ _ _ _) fun _ => bind (token_invoke_body π _ _ _ _) fun _ => ?_
    exact seq fun _ => seq fun _ => seq fun _ => ofExcept
  | syncPrice => exact ofExcept

theorem mmLiquidity_body (π : Profile) (accounts : List AccountInfo) (idx : List Nat)
    (ix : MoneyMarket.MoneyMarketInstruction) (timestamp : UInt64) :
    HasBody (Vault.mmLiquidity π accounts idx ix timestamp) :=
  seq fun _ => invoke fun window data => moneyMarket_body π timestamp window data

theorem vault_body (π : Profile) (timestamp : UInt64) (accounts : List AccountInfo)
    (data : List UInt8) : HasBody (Vault.process π timestamp accounts data) := by
  have hmove : ∀ amount ix, HasBody (Vault.moveLiquidity π accounts timestamp amount ix) :=
    fun _ _ => seq fun _ => bind (mmLiquidity_body π _ _ _ _) fun _ => seq fun _ => ofExcept
  refine seq fun ix => ?_
  cases ix with
  | initVault fee => exact ofExcept
  | deposit amount least =>
    refine seq fun _ => seq fun _ => seq fun _ => seq fun _ => seq fun _ => seq fun _ =>
      seq fun _ => seq fun p => seq fun _ => ?_
    refine bind (token_invoke_body π _ _ _ _) fun _ => bind (token_invoke_body π _ _ _ _) fun _ => ?_
    exact seq fun _ => seq fun _ => ofExcept
  | withdraw shares minAssets =>
    refine seq fun _ => seq fun _ => seq fun _ => seq fun _ => seq fun _ => seq fun _ =>
      seq fun _ => seq fun _ => bind (seq fun _ => ite ?_ pure) fun p => ?_
    · exact bind (mmLiquidity_body π _ _ _ _) fun _ => seq fun _ => pure
    refine bind (token_invoke_body π _ _ _ _) fun _ => bind (token_invoke_body π _ _ _ _) fun _ => ?_
    exact seq fun _ => seq fun _ => ofExcept
  | report =>
    refine seq fun _ => seq fun _ => seq fun _ => seq fun _ => seq fun _ => seq fun _ =>
      seq fun _ => seq fun _ => seq fun _ => seq fun _ => ite ?_ ofExcept
    exact bind (token_invoke_body π _ _ _ _) fun _ => seq fun _ => ofExcept
  | deploy amount => exact hmove _ _
  | undeploy amount => exact hmove _ _

theorem runBuiltin_body (π : Profile) (hasher : Lending.Hasher) (programId : Pubkey)
    (accounts : List AccountInfo) (data : List UInt8) (timestamp : UInt64) :
    HasBody (runBuiltin π hasher programId accounts data timestamp) := by
  unfold runBuiltin
  refine ite ofExcept (ite ofExcept (ite (ata_body π accounts data)
    (ite (swap_body π accounts data) (ite ofExcept (ite ofExcept (ite ofExcept ?_))))))
  exact ite (moneyMarket_body π timestamp accounts data)
    (ite (vault_body π timestamp accounts data) (ite ofExcept throw))

/-- **`dispatch` is a top-level execution of a body.** -/
theorem dispatch_eq_topLevel (π : Profile) (hasher : Lending.Hasher) (programId : Pubkey)
    (data : List UInt8) (timestamp : UInt64) : ∃ body, ∀ accounts,
    dispatch π hasher programId accounts data timestamp = topLevel programId body accounts := by
  choose body hbody using fun accounts =>
    runBuiltin_body π hasher programId accounts data timestamp
  refine ⟨body, fun accounts => ?_⟩
  unfold dispatch topLevel
  rw [hbody]

end Proof
end Himsha
