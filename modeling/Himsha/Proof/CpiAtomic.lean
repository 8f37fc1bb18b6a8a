import Himsha.Proof.CpiBounds
import Himsha.Proof.NeedsCalls
import Himsha.Proof.TokenCalls

/-!
# What an invocation leaves

The source mutates the caller's slice in place, so that an error could leave half of a window
behind. `invokeInPlace` is the call on a state that has the slice in it, step by step, and it comes
to what `invokeSignedIndexed` says (`invokeInPlace_eq`): nothing is written before nothing can fail
any more. The thread-locals are another matter. The depth is given back on every way out, the trail
keeps what was approved until then (`cpi_framed`).
-/

set_option autoImplicit false

namespace Himsha
namespace Proof

open Himsha.Lib Himsha.Runtime Himsha.Vm

/-! ## In place -/

/-- The caller's slice and the thread-locals. -/
structure Caller where
  accounts : List AccountInfo
  thread : Thread

abbrev InPlace := Comp Fault Caller

/-- A step that does not touch the slice. -/
def onThread {α : Type} (x : Prog α) : InPlace α := ExceptT.mk fun c =>
  let (r, th) := x.run c.thread
  (r, { c with thread := th })

/-- Run `body` one level deeper, as `withCpiDepth` does. -/
def deeper {α : Type} (body : InPlace α) : InPlace α := ExceptT.mk fun c =>
  if c.thread.depth + 1 > maxCpiDepth then (.error (.err .cpiDepthExceeded), c)
  else
    let (r, c') := body.run { c with thread := { c.thread with depth := c.thread.depth + 1 } }
    (r, { c' with thread := { c'.thread with depth := c'.thread.depth - 1 } })

/-- `validate_write(callee_program_id, &accounts[i], &mut window[k])?` for every `k`. -/
def gateInPlace (callee : Pubkey) (indices : List Nat) (after : List AccountInfo) :
    InPlace (List AccountInfo) :=
  (indices.zip after).mapM fun (i, post) => do
    let c ← get
    let pre ← onThread (slot c.accounts i)
    onThread (validateWrite callee pre post)

/-- `slot.is_signer = accounts[i].is_signer; accounts[i] = slot;`. -/
def putBack (a : AccountInfo) (i : Nat) : InPlace Unit := do
  let c ← get
  let old ← onThread (slot c.accounts i)
  set { c with accounts := c.accounts.set i { a with isSigner := old.isSigner } }

/-- `invoke_signed_indexed` on the slice of its caller. -/
def invokeInPlace (indices signers : List Nat) (data : List UInt8) (callee : Pubkey)
    (process : Process) : InPlace Unit := do
  let c ← get
  let window ← onThread (windowOf c.accounts indices)
  deeper do
    onThread (charge (costOf indices))
    onThread (rejectDuplicateWritable window)
    let after ← onThread (process (markSigners window signers) data)
    let gated ← gateInPlace callee indices after
    forM (gated.zip indices) fun p => putBack p.1 p.2

/-- A result as the caller sees it: an error leaves the slice alone. -/
def asSeen (accounts : List AccountInfo) :
    Except Fault (List AccountInfo) × Thread → Except Fault Unit × Caller
  | (.ok out, th) => (.ok (), ⟨out, th⟩)
  | (.error fault, th) => (.error fault, ⟨accounts, th⟩)

/-- As long as the slice is `accounts`, a step does what `y` does and leaves the slice alone. -/
def Mirrors {α : Type} (accounts : List AccountInfo) (x : InPlace α) (y : Prog α) : Prop :=
  ∀ th, Comp.exec x ⟨accounts, th⟩ = ((Comp.exec y th).1, ⟨accounts, (Comp.exec y th).2⟩)

namespace Mirrors

variable {α β : Type} {accounts : List AccountInfo}

theorem pure {a : α} : Mirrors accounts (Pure.pure a) (Pure.pure a) := fun _ => rfl

theorem onThread {x : Prog α} : Mirrors accounts (Proof.onThread x) x := fun _ => rfl

theorem get {f : Caller → InPlace α} {y : Prog α}
    (h : ∀ th, Mirrors accounts (f ⟨accounts, th⟩) y) :
    Mirrors accounts (MonadState.get >>= f) y := by
  intro th
  rw [Comp.exec_bind]
  exact h th th

theorem bind {x : InPlace α} {y : Prog α} {f : α → InPlace β} {g : α → Prog β}
    (hx : Mirrors accounts x y) (hf : ∀ a, Mirrors accounts (f a) (g a)) :
    Mirrors accounts (x >>= f) (y >>= g) := by
  intro th
  rw [Comp.exec_bind, Comp.exec_bind, hx th]
  cases Comp.exec y th with
  | mk r th' =>
    cases r with
    | ok a => exact hf a th'
    | error fault => rfl

/-- A slot that is there is read. -/
theorem slot {i : Nat} {a : AccountInfo} {f : AccountInfo → InPlace β} {y : Prog β}
    (ha : accounts[i]? = some a) (h : Mirrors accounts (f a) y) :
    Mirrors accounts (Proof.onThread (Runtime.slot accounts i) >>= f) y := by
  intro th
  have hread : Comp.exec (Proof.onThread (Runtime.slot accounts i)) ⟨accounts, th⟩ =
      (.ok a, ⟨accounts, th⟩) := by
    unfold Runtime.slot
    rw [ha]
    rfl
  rw [Comp.exec_bind, hread]
  exact h th

end Mirrors

section
variable {accounts window after gated : List AccountInfo} {indices signers : List Nat}
  {data : List UInt8} {callee : Pubkey} {process : Process} {th : Thread}

theorem exec_deeper_in {α : Type} (body : InPlace α) (c : Caller) : Comp.exec (deeper body) c =
    if c.thread.depth + 1 > maxCpiDepth then (.error (.err .cpiDepthExceeded), c)
    else
      let r := Comp.exec body { c with thread := { c.thread with depth := c.thread.depth + 1 } }
      (r.1, { r.2 with thread := { r.2.thread with depth := r.2.thread.depth - 1 } }) := by
  change (if c.thread.depth + 1 > maxCpiDepth then _ else _ : Except Fault α × Caller) = _
  split <;> rfl

/-- The gate reads the slots that the window was taken from, and these have not changed. -/
theorem gateInPlace_mirrors
    (hwindow : List.Forall₂ (fun i a => accounts[i]? = some a) indices window)
    (after : List AccountInfo) :
    Mirrors accounts (gateInPlace callee indices after) (gate callee window after) := by
  unfold gateInPlace gate
  induction hwindow generalizing after with
  | nil => exact .pure
  | cons ha _ ih =>
    cases after with
    | nil => exact .pure
    | cons post after =>
      rw [List.zip_cons_cons, List.zip_cons_cons, List.mapM_cons, List.mapM_cons]
      exact .bind (.get fun th => .slot ha .onThread) fun o => .bind (ih after) fun os => .pure

theorem exec_putBack {a : AccountInfo} {i : Nat} (hi : i < accounts.length) :
    Comp.exec (putBack a i) ⟨accounts, th⟩ =
      (.ok (), ⟨accounts.modify i fun old => { a with isSigner := old.isSigner }, th⟩) := by
  have hset : accounts.modify i (fun old => { a with isSigner := old.isSigner }) =
      accounts.set i { a with isSigner := accounts[i].isSigner } := by
    apply List.ext_getElem?
    intro n
    rw [List.getElem?_modify, List.getElem?_set]
    by_cases hn : i = n
    · subst hn
      rw [List.getElem?_eq_getElem hi]
      simp only [if_true, hi]
      rfl
    · simp only [hn, if_false]
      cases accounts[n]? <;> rfl
  have hread : Comp.exec (onThread (slot accounts i)) ⟨accounts, th⟩ =
      (.ok accounts[i], ⟨accounts, th⟩) := by
    unfold slot
    rw [List.getElem?_eq_getElem hi]
    rfl
  have hget : Comp.exec (get : InPlace Caller) ⟨accounts, th⟩ =
      (.ok ⟨accounts, th⟩, ⟨accounts, th⟩) := rfl
  rw [putBack, Comp.exec_bind, hget, hset]
  dsimp only
  rw [Comp.exec_bind, hread]
  rfl

/-- Putting a window back cannot fail where it was taken from. -/
theorem exec_putBacks (hin : ∀ i ∈ indices, i < accounts.length) :
    Comp.exec (forM (gated.zip indices) fun p => putBack p.1 p.2) ⟨accounts, th⟩ =
      (.ok (), ⟨writeBack accounts gated indices, th⟩) := by
  unfold writeBack
  induction gated generalizing accounts indices with
  | nil => rfl
  | cons a gated ih =>
    cases indices with
    | nil => rfl
    | cons i indices =>
      obtain ⟨hi, hrest⟩ := List.forall_mem_cons.mp hin
      rw [List.zip_cons_cons, List.forM_cons, Comp.exec_bind, exec_putBack hi]
      exact ih fun j hj => by
        rw [List.length_modify]
        exact hrest j hj

/-- Where nothing touches the slice before it is written back. -/
theorem deeper_seen {before : InPlace (List AccountInfo)} {y : Prog (List AccountInfo)}
    (hbefore : Mirrors accounts before y) (hin : ∀ i ∈ indices, i < accounts.length) :
    Comp.exec (deeper (before >>= fun gated => forM (gated.zip indices) fun p => putBack p.1 p.2))
        ⟨accounts, th⟩ =
      asSeen accounts (Comp.exec (withCpiDepth (y >>= fun gated =>
        pure (writeBack accounts gated indices))) th) := by
  rw [exec_deeper_in, exec_withCpiDepth]
  by_cases hdepth : th.depth + 1 > maxCpiDepth
  · simp only [hdepth, if_true]
    rfl
  · simp only [hdepth, if_false, Comp.exec_bind, hbefore { th with depth := th.depth + 1 }]
    cases Comp.exec y { th with depth := th.depth + 1 } with
    | mk r th' =>
      cases r with
      | error fault => rfl
      | ok gated =>
        dsimp only
        rw [exec_putBacks hin]
        rfl

/-- **In place or not.** The call on the slice comes to what the call on copies says. -/
theorem invokeInPlace_eq (accounts : List AccountInfo) (th : Thread) :
    Comp.exec (invokeInPlace indices signers data callee process) ⟨accounts, th⟩ =
      asSeen accounts
        (Comp.exec (invokeSignedIndexed accounts indices signers data callee process) th) := by
  have hget : Comp.exec (get : InPlace Caller) ⟨accounts, th⟩ =
      (.ok ⟨accounts, th⟩, ⟨accounts, th⟩) := rfl
  rw [invokeInPlace, invokeSignedIndexed_eq, Comp.exec_bind, hget, Comp.exec_bind]
  dsimp only
  rw [Comp.exec_bind]
  have hread : Comp.exec (onThread (windowOf accounts indices)) ⟨accounts, th⟩ =
      (windowOf accounts indices, ⟨accounts, th⟩) := rfl
  rw [hread]
  cases hwindow : windowOf accounts indices with
  | error fault => rfl
  | ok window =>
    have hslots := SlotRel.windowOf_gives accounts indices window hwindow
    have hin : ∀ i ∈ indices, i < accounts.length :=
      ((List.forall₂_and_left _ _).mp
        (hslots.imp fun i a ha => ⟨(List.getElem?_eq_some_iff.mp ha).1, ha⟩)).1
    -- Up to the gate nothing touches the slice.
    have hbefore : Mirrors accounts (do
          onThread (charge (costOf indices))
          onThread (rejectDuplicateWritable window)
          let after ← onThread (process (markSigners window signers) data)
          gateInPlace callee indices after)
        (entry window indices >>= fun _ => calleeRun window signers data callee process) := by
      unfold entry calleeRun
      rw [bind_assoc]
      exact .bind .onThread fun _ => .bind .onThread fun _ => .bind .onThread fun after =>
        gateInPlace_mirrors hslots after
    have hbody : (do
          onThread (charge (costOf indices))
          onThread (rejectDuplicateWritable window)
          let after ← onThread (process (markSigners window signers) data)
          let gated ← gateInPlace callee indices after
          forM (gated.zip indices) fun p => putBack p.1 p.2 : InPlace Unit) = (do
          onThread (charge (costOf indices))
          onThread (rejectDuplicateWritable window)
          let after ← onThread (process (markSigners window signers) data)
          gateInPlace callee indices after) >>= fun gated =>
            forM (gated.zip indices) fun p => putBack p.1 p.2 := by
      simp only [bind_assoc]
    have hbody' : (entry window indices >>= fun _ =>
          calleeRun window signers data callee process >>= fun gated =>
            pure (writeBack accounts gated indices)) =
        (entry window indices >>= fun _ => calleeRun window signers data callee process) >>=
          fun gated => pure (writeBack accounts gated indices) := (bind_assoc _ _ _).symm
    change Comp.exec (deeper _) ⟨accounts, th⟩ =
      asSeen accounts (Comp.exec (withCpiDepth _) th)
    rw [hbody, hbody']
    exact deeper_seen hbefore hin

end

/-! ## What is written back -/

section
variable {accounts window before after out : List AccountInfo} {indices : List Nat} {n : Nat}
  {a o : AccountInfo} {programId : Pubkey}

/-- A slot is as it was, or a copy in the window but for the signer mark. -/
theorem writeBack_slot (ha : accounts[n]? = some a)
    (ho : (writeBack accounts window indices)[n]? = some o) :
    o = a ∨ ∃ (k : Nat) (w : AccountInfo), indices[k]? = some n ∧ window[k]? = some w ∧
      o = { w with isSigner := a.isSigner } := by
  unfold writeBack at ho
  induction window generalizing accounts indices a with
  | nil =>
    rw [List.zip_nil_left, List.foldl_nil, ha] at ho
    exact .inl (Option.some.inj ho).symm
  | cons x window ih =>
    cases indices with
    | nil =>
      rw [List.zip_nil_right, List.foldl_nil, ha] at ho
      exact .inl (Option.some.inj ho).symm
    | cons i indices =>
      rw [List.zip_cons_cons, List.foldl_cons] at ho
      by_cases hi : i = n
      · subst hi
        have hset : (accounts.modify i fun old => { x with isSigner := old.isSigner })[i]? =
            some { x with isSigner := a.isSigner } := by
          rw [List.getElem?_modify_eq, ha]
          rfl
        rcases ih hset ho with rfl | ⟨k, w, hk, hw, rfl⟩
        · exact .inr ⟨0, x, rfl, rfl, rfl⟩
        · exact .inr ⟨k + 1, w, hk, hw, rfl⟩
      · have hkept : (accounts.modify i fun old => { x with isSigner := old.isSigner })[n]? =
            some a := by
          rw [List.getElem?_modify_ne _ _ hi, ha]
        rcases ih hkept ho with rfl | ⟨k, w, hk, hw, rfl⟩
        · exact .inl rfl
        · exact .inr ⟨k + 1, w, hk, hw, rfl⟩

/-- The gate may give a blank account to the program; keys and marks it leaves alone. -/
theorem gate_marks {before : List AccountInfo} : ∀ {after out : List AccountInfo} {th th' : Thread},
    Comp.Returns (gate programId before after) th out th' → ∀ (k : Nat) (o : AccountInfo),
      out[k]? = some o → ∃ p, after[k]? = some p ∧ o.key = p.key ∧ o.isWritable = p.isWritable := by
  induction before with
  | nil =>
    intro after out th th' h k o ho
    obtain ⟨rfl, -⟩ := Comp.returns_pure.mp (show Comp.Returns (pure []) th out th' from h)
    simp at ho
  | cons pre before ih =>
    intro after out th th' h k o ho
    cases after with
    | nil =>
      obtain ⟨rfl, -⟩ := Comp.returns_pure.mp (show Comp.Returns (pure []) th out th' from h)
      simp at ho
    | cons post after =>
      obtain ⟨o₁, th₁, os, hhead, htail, rfl⟩ := gate_cons.mp h
      cases k with
      | zero =>
        obtain rfl := Option.some.inj ho
        refine ⟨post, rfl, (validateWrite_gated hhead).key, ?_⟩
        cases validateWrite_gated hhead with
        | first =>
          unfold claimed
          split <;> rfl
        | _ => rfl
      | succ k => exact ih htail k o ho

end

/-- What an invocation that succeeds makes of the slice of its caller. `left` is its window as the
    callee left it. -/
structure WrittenBack (accounts out : List AccountInfo) (indices : List Nat)
    (left : List AccountInfo) : Prop where
  length : out.length = accounts.length
  others : ∀ n, n ∉ indices → out[n]? = accounts[n]?
  signers : out.map (·.isSigner) = accounts.map (·.isSigner)
  /-- Keys and writable marks are not checked and come back with the window. -/
  marks : ∀ (n : Nat) (a o : AccountInfo), accounts[n]? = some a → out[n]? = some o →
    o.key = a.key ∧ o.isWritable = a.isWritable ∨ ∃ (k : Nat) (w : AccountInfo),
      indices[k]? = some n ∧ left[k]? = some w ∧ o.key = w.key ∧ o.isWritable = w.isWritable

theorem invoke_writtenBack {accounts out : List AccountInfo} {indices signers : List Nat}
    {data : List UInt8} {callee : Pubkey} {process : Process} {th th' : Thread}
    (h : Comp.Returns (invokeSignedIndexed accounts indices signers data callee process) th out
      th') : ∃ window left th₁ th₂, windowOf accounts indices = .ok window ∧
        Comp.Returns (process (markSigners window signers) data) th₁ left th₂ ∧
        WrittenBack accounts out indices left := by
  obtain ⟨window, left, gated, th₁, th₂, th₃, hwindow, -, -, hprocess, hgate, -, rfl⟩ :=
    invoke_returns h
  have hsigners : (writeBack accounts gated indices).map (·.isSigner) = accounts.map (·.isSigner) :=
    writeBack_signers
  refine ⟨window, left, th₁, th₂, hwindow, hprocess, ?_, fun n hn => writeBack_other hn, hsigners,
    ?_⟩
  · have hlength := congrArg List.length hsigners
    rwa [List.length_map, List.length_map] at hlength
  · intro n a o ha ho
    rcases writeBack_slot ha ho with rfl | ⟨k, w, hk, hw, rfl⟩
    · exact .inl ⟨rfl, rfl⟩
    · obtain ⟨p, hp, hkey, hwritable⟩ := gate_marks hgate k w hw
      exact .inr ⟨k, p, hk, hp, hkey, hwritable⟩

/-- The thread-locals after an invocation are those after the body that makes it and no more. -/
theorem invoke_thread (accounts : List AccountInfo) (indices signers : List Nat)
    (data : List UInt8) (callee : Pubkey)
    (process : List AccountInfo → List UInt8 → Body (List AccountInfo)) (th : Thread) :
    (Comp.exec (Body.invoke accounts indices signers data callee process .done).run th).2 =
      (Comp.exec (invokeSignedIndexed accounts indices signers data callee fun window data =>
        (process window data).run) th).2 := by
  rw [Body.run, Comp.exec_bind, ← caught_state]
  cases Comp.exec (caught (invokeSignedIndexed accounts indices signers data callee
      fun window data => (process window data).run)) th with
  | mk r th' => cases r <;> rfl

/-- **What an invocation leaves.** For every callee, with any invocations in it: the depth is as
    before, and the trail has grown by what was approved on the way, also by an invocation that
    fails. One that fails leaves the slice as it was. One that succeeds leaves the slots that it
    did not name and all signer marks, and of the others the keys and writable marks as its
    callee left them in the window. -/
theorem cpi_framed (accounts : List AccountInfo) (indices signers : List Nat) (data : List UInt8)
    (callee : Pubkey) (process : List AccountInfo → List UInt8 → Body (List AccountInfo))
    (th : Thread) :
    ∃ r c, Comp.exec (invokeInPlace indices signers data callee fun window data =>
        (process window data).run) ⟨accounts, th⟩ = (r, c) ∧
      c.thread.depth = th.depth ∧
      c.thread.approved = trailed
        ((Body.invoke accounts indices signers data callee process .done).log th) th.approved ∧
      (∀ fault, r = .error fault → c.accounts = accounts) ∧
      (r = .ok () → ∃ window left th₁ th₂, windowOf accounts indices = .ok window ∧
        Comp.Returns (process (markSigners window signers) data).run th₁ left th₂ ∧
        WrittenBack accounts c.accounts indices left) := by
  have hdepth := run_depth (Body.invoke accounts indices signers data callee process .done)
    th.depth th rfl
  have htrail := run_trail (Body.invoke accounts indices signers data callee process .done) th
  rw [invoke_thread] at hdepth htrail
  rw [invokeInPlace_eq]
  cases hexec : Comp.exec (invokeSignedIndexed accounts indices signers data callee
      fun window data => (process window data).run) th with
  | mk r th' =>
    rw [hexec] at hdepth htrail
    cases r with
    | error fault => exact ⟨_, _, rfl, hdepth, htrail, fun _ _ => rfl, nofun⟩
    | ok out => exact ⟨_, _, rfl, hdepth, htrail, nofun, fun _ => invoke_writtenBack hexec⟩

/-- An account of the program `9`, and one that is not. -/
def ownAndForeign : List AccountInfo :=
  [{ key := .repeated 1, lamports := 1, data := [], owner := .repeated 9 },
    { key := .repeated 2, lamports := 1, data := [], owner := .repeated 8 }]

/-- Invoke the program `9` on both, which makes `f` of its window. -/
def invokedWith (f : List AccountInfo → List AccountInfo) : Except Fault Unit × Caller :=
  Comp.exec (invokeInPlace [0, 1] [] [] (.repeated 9) fun window _ => (Body.done (f window)).run)
    ⟨ownAndForeign, {}⟩

/-- **What was approved stays approved.** The callee writes to both accounts: its own passes the
    gate and the other does not, so nothing is written, but the trail has the first. And a callee
    that renames an account renames it in the slice of its caller. -/
theorem cpi_not_atomic :
    (¬ ∀ (accounts : List AccountInfo) (indices signers : List Nat) (data : List UInt8)
      (callee : Pubkey) (process : List AccountInfo → List UInt8 → Body (List AccountInfo))
      (th : Thread) (r : Except Fault Unit) (c : Caller),
      Comp.exec (invokeInPlace indices signers data callee fun window data =>
        (process window data).run) ⟨accounts, th⟩ = (r, c) →
      (∀ e, r = .error (.err e) → c.accounts = accounts ∧ c.thread.depth = th.depth ∧
        c.thread.approved = th.approved)) ∧
    ¬ ∀ (accounts : List AccountInfo) (indices signers : List Nat) (data : List UInt8)
      (callee : Pubkey) (process : List AccountInfo → List UInt8 → Body (List AccountInfo))
      (th : Thread) (r : Except Fault Unit) (c : Caller),
      Comp.exec (invokeInPlace indices signers data callee fun window data =>
        (process window data).run) ⟨accounts, th⟩ = (r, c) →
      r = .ok () → ∀ (i : Nat), (c.accounts[i]?.map fun (a : AccountInfo) =>
          (a.key, a.isSigner, a.isWritable)) =
        accounts[i]?.map fun (a : AccountInfo) => (a.key, a.isSigner, a.isWritable) := by
  constructor
  · intro hclaim
    let writing : List AccountInfo → List AccountInfo :=
      fun window => window.map fun (a : AccountInfo) => { a with data := [1] }
    obtain ⟨-, -, htrail⟩ := hclaim ownAndForeign [0, 1] [] [] (.repeated 9)
      (fun window _ => .done (writing window)) {} (invokedWith writing).1 (invokedWith writing).2
      rfl .illegalOwnerWrite (by decide)
    have hknown : ((invokedWith writing).2.thread.approved.lookup (.repeated 1)).isSome = true := by
      decide
    rw [htrail] at hknown
    cases hknown
  · intro hclaim
    let renamed : List AccountInfo → List AccountInfo :=
      fun window => window.map fun (a : AccountInfo) => { a with key := .repeated 7 }
    have hkeys := hclaim ownAndForeign [0, 1] [] [] (.repeated 9)
      (fun window _ => .done (renamed window)) {} (invokedWith renamed).1
      (invokedWith renamed).2 rfl (by decide) 0
    exact absurd hkeys (by decide)

end Proof
end Himsha
