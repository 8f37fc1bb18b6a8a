import Himsha.Proof.Calm
import Himsha.Proof.CpiGate
import Himsha.Proof.IntegerSqrt

/-!
# Invocations are calm where the callee is

An invocation cannot panic in itself: a window that cannot be built, the depth guard, the meter,
the duplicate check and the gate all return an error. So it is calm where the callee is calm on
every window of that length, and the token program is calm on the windows its callers give it.
The associated accounts and the swap, which invoke nothing else, never panic at all; for the swap
this takes the square root, whose Newton iteration stays above the root it looks for.
-/

set_option autoImplicit false

namespace Himsha
namespace Proof

open Himsha.Lib Himsha.Runtime Himsha.Programs Himsha.Vm

/-! ## Invocations -/

section
variable {α β : Type} {accounts : List AccountInfo} {indices signers : List Nat} {data : List UInt8}
  {callee : Pubkey} {process : Process}

/-- A step that does not touch the thread, seen from its outcome. -/
theorem exec_lift_bind (x : Outcome α) (f : α → Prog β) (th : Thread) :
    (Comp.exec ((liftM x : Prog α) >>= f) th).1 = x >>= fun a => (Comp.exec (f a) th).1 := by
  rw [Comp.exec_bind]
  cases x <;> rfl

/-- The errors that the runtime has for what goes on around a program. -/
def RuntimeError : Fault → Prop
  | .err .illegalOwnerWrite | .err .computeExhausted | .err .cpiDepthExceeded
  | .err .duplicateWritableAccount => True
  | _ => False

/-- Not one of these. -/
theorem ne_of_runtime {f g : Fault} (hf : ¬ RuntimeError f) (hg : RuntimeError g) : g ≠ f := by
  intro heq
  exact hf (heq ▸ hg)

section
variable {f : Fault}

theorem validateWrite_avoids (hf : ¬ RuntimeError f) (programId : Pubkey)
    (pre post : AccountInfo) : Comp.Avoids f (validateWrite programId pre post) := by
  have hrecord : ∀ a b : AccountInfo,
      Comp.Avoids f (record a >>= fun _ => pure b : Prog AccountInfo) :=
    fun _ _ _ => nofun
  have hthrow : Comp.Avoids f (throw (.err .illegalOwnerWrite) : Prog AccountInfo) :=
    .throw (ne_of_runtime hf trivial)
  unfold validateWrite
  split
  · exact .pure
  split
  · exact hrecord _ _
  split
  · exact hrecord _ _
  split
  · exact hrecord _ _
  · refine .seq (fun _ => nofun) fun th => ?_
    split
    · split
      · exact .pure
      · exact hthrow
    · exact hthrow

theorem gate_avoids (hf : ¬ RuntimeError f) (programId : Pubkey)
    (before after : List AccountInfo) :
    Comp.Avoids f ((before.zip after).mapM fun p => validateWrite programId p.1 p.2) := by
  induction before.zip after with
  | nil =>
    rw [List.mapM_nil]
    exact .pure
  | cons p rest ih =>
    rw [List.mapM_cons]
    exact .seq (validateWrite_avoids hf programId p.1 p.2) fun _ => .seq ih fun _ => .pure

theorem validateWrites_avoids (hf : ¬ RuntimeError f) (programId : Pubkey)
    (before after : List AccountInfo) :
    Comp.Avoids f (validateWrites programId before after) := by
  refine .seq (fun th => ?_) fun _ => gate_avoids hf programId before after
  unfold Comp.ensure
  split
  · exact nofun
  · exact fun heq => ne_of_runtime (g := .err .illegalOwnerWrite) hf trivial (Except.error.inj heq)

theorem rejectDuplicateWritable_avoids (hf : ¬ RuntimeError f) (accounts : List AccountInfo) :
    Avoids f (rejectDuplicateWritable accounts) := by
  induction accounts with
  | nil => exact nofun
  | cons a rest ih =>
    unfold rejectDuplicateWritable
    split
    · exact avoids_error.mpr (ne_of_runtime hf trivial)
    · exact ih

theorem charge_avoids (hf : ¬ RuntimeError f) (units : UInt64) :
    Comp.Avoids f (charge units) := by
  refine .seq (fun _ => nofun) fun th => ?_
  dsimp only
  split
  · exact .seq (.throw (ne_of_runtime hf trivial)) fun _ _ => nofun
  · exact fun _ => nofun

/-- What the depth guard lets through is the body, one level deeper. -/
theorem exec_deeper {body : Prog α} {th : Thread} (h : th.depth < maxCpiDepth) :
    (Comp.exec (withCpiDepth body) th).1 =
      (Comp.exec body { th with depth := th.depth + 1 }).1 := by
  rw [exec_withCpiDepth, if_neg (by omega)]

theorem withCpiDepth_avoids (hf : ¬ RuntimeError f) {body : Prog α} (h : Comp.Avoids f body) :
    Comp.Avoids f (withCpiDepth body) := by
  intro th
  by_cases hdepth : th.depth < maxCpiDepth
  · rw [exec_deeper hdepth]
    exact h _
  · rw [exec_withCpiDepth, if_pos (by omega)]
    exact avoids_error.mpr (ne_of_runtime hf trivial)

/-- A callee that does not fail in this way on the window does not when it is invoked. -/
theorem invoke_avoids (hf : ¬ RuntimeError f) (hwindow : Avoids f (windowOf accounts indices))
    (h : ∀ window, windowOf accounts indices = .ok window →
      Comp.Avoids f (process (markSigners window signers) data)) :
    Comp.Avoids f (invokeSignedIndexed accounts indices signers data callee process) := by
  refine .bind (Q := fun window => windowOf accounts indices = .ok window) (.ofExcept hwindow)
    (.ofExcept fun _ h => h) fun window hwin => withCpiDepth_avoids hf ?_
  exact .seq (charge_avoids hf _) fun _ => .seq (.ofExcept (rejectDuplicateWritable_avoids hf window))
    fun _ => .seq (h window hwin) fun after => .seq (gate_avoids hf callee window after)
    fun _ => .pure

end

theorem windowOf_calm : Calm (windowOf accounts indices) := by
  unfold windowOf
  induction indices with
  | nil => exact nofun
  | cons i rest ih =>
    rw [List.mapM_cons]
    exact .bind calm_okOr fun _ => .bind ih fun _ => nofun

theorem markSigners_length (window : List AccountInfo) (signers : List Nat) :
    (markSigners window signers).length = window.length :=
  (SlotRel.markSigners_kept (S := keyFrame.slotRel) window signers).length_eq.symm

/-- The token program is calm on the windows that its callers give it. -/
theorem token_invoke_avoids {ix : Token.TokenInstruction}
    (h : ∀ window, window.length = indices.length → TokenSafe window ix) :
    Comp.Avoids Fault.panic (Token.invoke .dev accounts indices signers ix) := by
  refine .bind (Q := fun data => toVec ix = some data) (.ofExcept calm_okOr)
    (.ofExcept fun data h => okOr_eq_ok.mp h) fun data hdata => ?_
  refine invoke_avoids id windowOf_calm fun window hwindow => .ofExcept (token_calm.mpr ?_)
  intro ix' hix'
  rw [tryFromSlice_toVec hdata, Option.some.injEq] at hix'
  refine hix' ▸ h _ ?_
  rw [markSigners_length, ← (SlotRel.windowOf_gives accounts indices window hwindow).length_eq]

/-- An invocation of the token program gives back as many accounts as it was given. -/
theorem token_invoke_length {ix : Token.TokenInstruction} (hix : ix ≠ .closeAccount) :
    (Token.invoke .dev accounts indices signers ix).Yields
      fun out => out.length = accounts.length :=
  .mono (SlotRel.token_invoke_kept (S := keyFrame.slotRel) .dev indices signers hix)
    fun _ h => h.length_eq.symm

/-- Tokens move, and the program goes on with as many accounts. -/
theorem token_then_avoids {ix : Token.TokenInstruction} {f : List AccountInfo → Prog β}
    (hsafe : ∀ window, window.length = indices.length → TokenSafe window ix)
    (hix : ix ≠ .closeAccount)
    (hf : ∀ mid : List AccountInfo, mid.length = accounts.length →
      Comp.Avoids Fault.panic (f mid)) :
    Comp.Avoids Fault.panic (Token.invoke .dev accounts indices signers ix >>= f) :=
  .bind (token_invoke_avoids hsafe) (token_invoke_length hix) hf

end

/-! ## Associated accounts and the swap -/

section
variable {accounts : List AccountInfo} {data : List UInt8} {α β : Type}

/-- A check comes first; what follows knows that it passed. -/
theorem require_avoids {c : Bool} {e : ProgramError} {f : Unit → Prog β}
    (hf : c = true → Comp.Avoids Fault.panic (f ())) :
    Comp.Avoids Fault.panic ((liftM (require c e) : Prog Unit) >>= f) :=
  .bind (Q := fun _ => c = true) (.ofExcept calm_require)
    (.ofExcept fun _ h => require_eq_ok.mp h) fun _ hc => hf hc

/-- The same for the number of accounts. -/
theorem requireLength_avoids {n : Nat} {e : ProgramError} {f : Unit → Prog β}
    (hf : n ≤ accounts.length → Comp.Avoids Fault.panic (f ())) :
    Comp.Avoids Fault.panic
      ((liftM (require (decide (n ≤ accounts.length)) e) : Prog Unit) >>= f) :=
  require_avoids fun h => hf (of_decide_eq_true h)

theorem ata_avoids : Comp.Avoids Fault.panic (Ata.process .dev accounts data) := by
  refine .seq (.ofExcept calm_okOr) fun .create => requireLength_avoids fun hlen => ?_
  refine .seq (.ofExcept (calm_slot.mpr (by omega))) fun ata =>
    .seq (.ofExcept (calm_slot.mpr (by omega))) fun owner =>
    .seq (.ofExcept (calm_slot.mpr (by omega))) fun mint =>
    .seq (.ofExcept calm_require) fun _ => ?_
  split
  · exact .pure
  · refine token_invoke_avoids fun window hwindow => ?_
    change 1 < window.length
    rw [hwindow]
    decide

theorem calm_reserveBalance {i : Nat} (hi : i < accounts.length) :
    Calm (Swap.reserveBalance accounts i) :=
  calm_load_there hi fun _ => avoids_pure

theorem calm_mulDiv {a b c : UInt64} : Calm (Swap.mulDiv a b c) :=
  .bind calm_okOr fun _ => calm_okOr

theorem calm_mulDivWide {a b c : Nat} : Calm (Swap.mulDivWide a b c) :=
  .bind calm_okOr fun _ => .bind calm_okOr fun _ => avoids_pure

theorem calm_amountOut {pool : Swap.PoolState} {a b c : UInt64} :
    Calm (Swap.amountOut pool a b c) :=
  .bind calm_mulDiv fun _ => .bind calm_okOr fun _ => .bind calm_okOr fun _ => calm_mulDivWide

theorem calm_depositAmounts {pool : Swap.PoolState} {maxA maxB : UInt64}
    (hlen : 8 ≤ accounts.length) : Calm (Swap.depositAmounts .dev accounts pool maxA maxB) := by
  unfold Swap.depositAmounts
  split
  · exact .bind calm_okOr fun product => .bind (calm_orPanic.mpr (integerSqrt_isSome product))
      fun _ => .bind calm_okOr fun _ => avoids_pure
  · exact .bind (calm_reserveBalance (by omega)) fun _ =>
      .bind (calm_reserveBalance (by omega)) fun _ => .bind calm_mulDiv fun _ =>
      .bind calm_mulDiv fun _ => .bind calm_mulDiv fun _ => .bind calm_mulDiv fun _ => avoids_pure

theorem calm_syncReserves {pool : Swap.PoolState} (hlen : 5 ≤ accounts.length) :
    Calm (Swap.syncReserves accounts pool) := by
  refine .bind (calm_reserveBalance (by omega)) fun _ =>
    .bind (calm_reserveBalance (by omega)) fun _ => calm_slot_there (by omega) fun _ => ?_
  split
  · exact avoids_pure
  · exact avoids_pure

theorem calm_syncReservesAb {pool : Swap.PoolState} (hlen : 5 ≤ accounts.length) :
    Calm (Swap.syncReservesAb accounts pool) :=
  .bind (calm_reserveBalance (by omega)) fun _ =>
    .bind (calm_reserveBalance (by omega)) fun _ => avoids_pure

/-- A step that cannot fail in this way, in a program that can invoke others. -/
theorem lift_avoids {fault : Fault} {x : Outcome α} {f : α → Prog β} (hx : Avoids fault x)
    (hf : ∀ a, Comp.Avoids fault (f a)) : Comp.Avoids fault ((liftM x : Prog α) >>= f) :=
  .seq (.ofExcept hx) hf

theorem swap_avoids : Comp.Avoids Fault.panic (Swap.process .dev accounts data) := by
  refine lift_avoids calm_okOr fun ix => ?_
  cases ix with
  | initializePool feeNumerator feeDenominator =>
    refine lift_avoids calm_require fun _ => requireLength_avoids fun hlen => ?_
    refine lift_avoids (calm_loadOr.mpr (by omega)) fun pool => lift_avoids calm_require fun _ =>
      lift_avoids (calm_slot.mpr (by omega)) fun _ => lift_avoids (calm_slot.mpr (by omega))
      fun _ => lift_avoids (calm_slot.mpr (by omega)) fun _ => ?_
    exact lift_avoids (calm_slot.mpr (by omega)) fun _ => lift_avoids (calm_slot.mpr (by omega))
      fun _ => .ofExcept (calm_store.mpr (by omega))
  | swap amountIn minAmountOut =>
    refine requireLength_avoids fun hlen => lift_avoids (calm_slot.mpr (by omega)) fun _ =>
      lift_avoids calm_requireSigner fun _ => lift_avoids (calm_load.mpr (by omega)) fun pool =>
      lift_avoids calm_require fun _ => ?_
    refine lift_avoids (calm_reserveBalance (by omega)) fun _ =>
      lift_avoids (calm_reserveBalance (by omega)) fun _ => lift_avoids calm_require fun _ =>
      lift_avoids calm_amountOut fun out => lift_avoids calm_require fun _ => ?_
    refine token_then_avoids (fun _ _ => trivial) nofun fun mid hmid =>
      token_then_avoids (fun _ _ => trivial) nofun fun last hlast => ?_
    exact lift_avoids (calm_syncReserves (by omega)) fun _ =>
      .ofExcept (calm_store.mpr (by omega))
  | deposit maxA maxB minLp =>
    refine requireLength_avoids fun hlen => lift_avoids (calm_slot.mpr (by omega)) fun _ =>
      lift_avoids calm_requireSigner fun _ => lift_avoids (calm_load.mpr (by omega)) fun pool =>
      lift_avoids (calm_depositAmounts hlen) fun (depositA, depositB, userLp, supplyDelta) =>
      lift_avoids calm_require fun _ => ?_
    refine token_then_avoids (fun _ _ => trivial) nofun fun first hfirst =>
      token_then_avoids (fun _ _ => trivial) nofun fun second hsecond =>
      token_then_avoids (fun _ _ => trivial) nofun fun third hthird => ?_
    exact lift_avoids calm_okOr fun _ => lift_avoids (calm_syncReservesAb (by omega)) fun _ =>
      .ofExcept (calm_store.mpr (by omega))
  | withdraw lpAmount minA minB =>
    refine requireLength_avoids fun hlen => lift_avoids (calm_slot.mpr (by omega)) fun _ =>
      lift_avoids calm_requireSigner fun _ => lift_avoids (calm_load.mpr (by omega)) fun pool =>
      lift_avoids calm_require fun _ => ?_
    refine lift_avoids (calm_reserveBalance (by omega)) fun _ =>
      lift_avoids (calm_reserveBalance (by omega)) fun _ => lift_avoids calm_mulDivWide fun outA =>
      lift_avoids calm_mulDivWide fun outB => lift_avoids calm_require fun _ => ?_
    refine token_then_avoids (fun _ _ => trivial) nofun fun first hfirst =>
      token_then_avoids (fun _ _ => trivial) nofun fun second hsecond =>
      token_then_avoids (fun _ _ => trivial) nofun fun third hthird => ?_
    exact lift_avoids calm_okOr fun _ => lift_avoids (calm_syncReservesAb (by omega)) fun _ =>
      .ofExcept (calm_store.mpr (by omega))

end

end Proof
end Himsha
