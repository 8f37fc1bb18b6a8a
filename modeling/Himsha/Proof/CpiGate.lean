import Himsha.Proof.TokenSlots

/-!
# The owner gate under invocations

A program that can invoke others is a tree here: it returns, fails, or makes an invocation and goes
on with what comes back. In between it may do anything to its copies of the accounts, and the
callees are trees as well, so the trees are all bodies there can be. Running one uses the machine
of `cpi.rs` for every invocation.

`Body.log` is what the gates on the way approve, in order. The trail holds the last state approved
under each key and nothing else (`run_trail`), which is all the outermost gate has to go by.
-/

set_option autoImplicit false

namespace Himsha
namespace Proof

open Himsha.Lib Himsha.Runtime Himsha.Programs Himsha.Vm

/-! ## Programs as trees -/

/-- The body of a program. -/
inductive Body : Type → Type 1
  | done {α : Type} (a : α) : Body α
  | fail {α : Type} (fault : Fault) : Body α
  /-- An invocation with these copies of the accounts. An error of the callee comes back as a
      value; a panic does not come back. -/
  | invoke {α : Type} (accounts : List AccountInfo) (indices signers : List Nat)
      (data : List UInt8) (callee : Pubkey)
      (process : List AccountInfo → List UInt8 → Body (List AccountInfo))
      (next : Except ProgramError (List AccountInfo) → Body α) : Body α

/-- The result of a computation as a value, unless it panics. -/
def caught {α : Type} (x : Prog α) : Prog (Except ProgramError α) := ExceptT.mk fun th =>
  match x.run th with
  | (.ok a, th') => (.ok (.ok a), th')
  | (.error (.err e), th') => (.ok (.error e), th')
  | (.error .panic, th') => (.error .panic, th')

/-- Run a body. -/
def Body.run {α : Type} : Body α → Prog α
  | .done a => pure a
  | .fail fault => throw fault
  | .invoke accounts indices signers data callee process next => do
      let r ← caught (invokeSignedIndexed accounts indices signers data callee fun window data =>
        (process window data).run)
      (next r).run

/-- A top-level execution of a body, as `dispatch` makes it. -/
def topLevel (programId : Pubkey) (body : List AccountInfo → Body (List AccountInfo))
    (accounts : List AccountInfo) : Prog (List AccountInfo) := do
  modify beginExecution
  let after ← (body accounts).run
  validateWrites programId accounts after

/-! ## What the gates approve -/

/-- A state that a gate recorded, and the change it was recorded for. -/
structure Approval where
  programId : Pubkey
  /-- The copy of the account that the caller had. -/
  pre : AccountInfo
  /-- What the program made of it. -/
  post : AccountInfo
  state : AccountInfo

/-- A gate records a change that the program may make itself. -/
def records (programId : Pubkey) (pre post : AccountInfo) : Bool :=
  !sameState pre post && decide (Direct programId pre post)

/-- What a gate approves, up to the first slot it rejects. -/
def gateLog (programId : Pubkey) : List (AccountInfo × AccountInfo) → Thread → List Approval
  | [], _ => []
  | (pre, post) :: rest, th =>
      match Comp.exec (validateWrite programId pre post) th with
      | (.error _, _) => []
      | (.ok state, th') =>
          (if records programId pre post then [⟨programId, pre, post, state⟩] else []) ++
            gateLog programId rest th'

/-- What an invocation pays and checks before the callee runs. -/
def entry (window : List AccountInfo) (indices : List Nat) : Prog Unit := do
  charge (cpiBaseCost + perAccountCost * UInt64.ofNat indices.length)
  rejectDuplicateWritable window

/-- The window that a callee is given and the thread-locals it starts with, where an invocation
    gets that far. -/
def admitted (accounts : List AccountInfo) (indices : List Nat) (th : Thread) :
    Option (List AccountInfo × Thread) :=
  match windowOf accounts indices with
  | .error _ => none
  | .ok window =>
      if th.depth + 1 > maxCpiDepth then none
      else
        match Comp.exec (entry window indices) { th with depth := th.depth + 1 } with
        | (.error _, _) => none
        | (.ok _, th') => some (window, th')

/-- What is approved while a body runs, in order. The gate of an invocation comes after all that
    the callee's own invocations approve, and only if the callee succeeds. -/
def Body.log {α : Type} : Body α → Thread → List Approval
  | .done _, _ => []
  | .fail _, _ => []
  | .invoke accounts indices signers data callee process next, th =>
      (match admitted accounts indices th with
        | none => []
        | some (window, th₁) =>
            (process (markSigners window signers) data).log th₁ ++
              match Comp.exec (process (markSigners window signers) data).run th₁ with
              | (.error _, _) => []
              | (.ok after, th₂) => gateLog callee (window.zip after) th₂) ++
        match Comp.exec (caught (invokeSignedIndexed accounts indices signers data callee
            fun window data => (process window data).run)) th with
        | (.error _, _) => []
        | (.ok r, th') => (next r).log th'

/-- The trail after some approvals. -/
def trailed (log : List Approval) (trail : Finmap fun _ : Pubkey => AccountInfo) :
    Finmap fun _ : Pubkey => AccountInfo :=
  log.foldl (fun trail e => trail.insert e.state.key e.state) trail

/-- The last approval under a key. -/
def latest (key : Pubkey) (log : List Approval) : Option Approval :=
  log.reverse.find? fun e => e.state.key == key

theorem trailed_append (log log' : List Approval)
    (trail : Finmap fun _ : Pubkey => AccountInfo) :
    trailed (log ++ log') trail = trailed log' (trailed log trail) :=
  List.foldl_append

/-- The trail knows the last approval under each key, and only that. -/
theorem lookup_trailed (key : Pubkey) (log : List Approval) :
    (trailed log ∅).lookup key = (latest key log).map (·.state) := by
  induction log using List.reverseRecOn with
  | nil => rfl
  | append_singleton log e ih =>
    have hlatest : latest key (log ++ [e]) =
        if e.state.key == key then some e else latest key log := by
      unfold latest
      rw [List.reverse_append, List.reverse_singleton, List.singleton_append, List.find?_cons]
      cases e.state.key == key <;> rfl
    rw [trailed_append, hlatest]
    by_cases hkey : e.state.key = key
    · subst hkey
      simp [trailed]
    · have hbeq : (e.state.key == key) = false := beq_eq_false_iff_ne.mpr hkey
      simp only [trailed, List.foldl_cons, List.foldl_nil, hbeq] at ih ⊢
      rw [Finmap.lookup_insert_of_ne _ (Ne.symm hkey)]
      exact ih

theorem mem_of_latest {key : Pubkey} {log : List Approval} {e : Approval}
    (h : latest key log = some e) : e ∈ log ∧ e.state.key = key := by
  refine ⟨List.mem_reverse.mp (List.mem_of_find?_eq_some h), ?_⟩
  simpa using List.find?_some h

/-! ## One gate -/

/-- A gate changes the trail only by what it records. -/
theorem validateWrite_trail {programId : Pubkey} {pre post out : AccountInfo} {th th' : Thread}
    (h : Comp.Returns (validateWrite programId pre post) th out th') :
    th' = if records programId pre post then approve th out else th := by
  have hrecords : ∀ hchanged : sameState pre post = false, Direct programId pre post →
      records programId pre post = true := by
    intro hchanged hdirect
    simp [records, hchanged, hdirect]
  cases validateWrite_gated h with
  | unchanged hsame => simp [records, hsame]
  | owned hchanged hown => rw [if_pos (hrecords hchanged (.inl hown))]
  | credited hchanged hcredit => rw [if_pos (hrecords hchanged (.inr (.inl hcredit)))]
  | first hchanged hblank => rw [if_pos (hrecords hchanged (.inr (.inr hblank)))]
  | again hforeign hlook hsame => simp [records, hforeign]

theorem validateWrite_error {programId : Pubkey} {pre post : AccountInfo} {th th' : Thread}
    {fault : Fault} (h : Comp.exec (validateWrite programId pre post) th = (.error fault, th')) :
    th' = th := by
  by_cases hdirect : Direct programId pre post
  · obtain ⟨out, th₁, hret⟩ := validateWrite_direct hdirect th
    rw [show _ = _ from hret] at h
    simp at h
  · -- What is left only reads the trail.
    have hkeeps : Comp.Keeps (· = th) (validateWrite programId pre post) := by
      unfold validateWrite
      split
      · exact .pure
      rw [if_neg fun hown => hdirect (.inl (by simpa using hown)),
        if_neg fun hcredit => hdirect (.inr (.inl hcredit)),
        if_neg fun hblank => hdirect (.inr (.inr hblank))]
      refine .bind .get fun t => ?_
      split
      · split
        · exact .pure
        · exact .throw
      · exact .throw
    have hth := hkeeps th rfl
    rwa [h] at hth

theorem gate_trail (programId : Pubkey) (pairs : List (AccountInfo × AccountInfo)) :
    ∀ th, (Comp.exec (pairs.mapM fun p => validateWrite programId p.1 p.2) th).2.approved =
      trailed (gateLog programId pairs th) th.approved := by
  induction pairs with
  | nil => exact fun th => rfl
  | cons p rest ih =>
    intro th
    obtain ⟨pre, post⟩ := p
    rw [List.mapM_cons, Comp.exec_bind, gateLog]
    cases hexec : Comp.exec (validateWrite programId pre post) th with
    | mk r th₁ =>
      cases r with
      | error fault =>
        rw [validateWrite_error hexec]
        rfl
      | ok out =>
        have htail : (Comp.exec ((rest.mapM fun p => validateWrite programId p.1 p.2) >>= fun os =>
            pure (out :: os)) th₁).2.approved =
              trailed (gateLog programId rest th₁) th₁.approved := by
          rw [Comp.exec_bind, ← ih th₁]
          cases Comp.exec (rest.mapM fun p => validateWrite programId p.1 p.2) th₁ with
          | mk r' th₂ => cases r' <;> rfl
        simp only
        rw [htail, trailed_append, validateWrite_trail hexec]
        cases records programId pre post <;> rfl

/-! ## Invocations -/

section
variable {accounts window : List AccountInfo} {indices signers : List Nat} {data : List UInt8}
  {callee : Pubkey} {process : Process} {th th' : Thread}

theorem charge_keeps (units : UInt64) (trail : Finmap fun _ : Pubkey => AccountInfo) :
    Comp.Keeps (·.approved = trail) (charge units) := by
  refine .bind_get fun t ht => ?_
  simp only
  split
  · exact ht
  · exact ht

theorem entry_keeps (window : List AccountInfo) (indices : List Nat)
    (trail : Finmap fun _ : Pubkey => AccountInfo) :
    Comp.Keeps (·.approved = trail) (entry window indices) :=
  .bind (charge_keeps _ trail) fun _ => .ofExcept

theorem admitted_approved (h : admitted accounts indices th = some (window, th')) :
    th'.approved = th.approved := by
  unfold admitted at h
  split at h
  · simp at h
  · split at h
    · simp at h
    · split at h
      · simp at h
      · rename_i window₁ _ _ _ _ _ hexec
        simp only [Option.some.injEq, Prod.mk.injEq] at h
        obtain ⟨rfl, rfl⟩ := h
        have hkeeps := entry_keeps window₁ indices th.approved
          { th with depth := th.depth + 1 } rfl
        rw [hexec] at hkeeps
        exact hkeeps

/-- What a callee does and what its gate says to that. -/
def calleeRun (window : List AccountInfo) (signers : List Nat) (data : List UInt8)
    (callee : Pubkey) (process : Process) : Prog (List AccountInfo) := do
  let after ← process (markSigners window signers) data
  gate callee window after

theorem invokeSignedIndexed_eq :
    invokeSignedIndexed accounts indices signers data callee process =
      (Comp.ofExcept (windowOf accounts indices) >>= fun window => withCpiDepth
        (entry window indices >>= fun _ => calleeRun window signers data callee process >>=
          fun gated => pure (writeBack accounts gated indices))) := by
  unfold invokeSignedIndexed entry calleeRun gate
  simp only [bind_assoc]
  rfl

theorem exec_charge (units : UInt64) (th : Thread) : Comp.exec (charge units) th =
    if saturatingAdd th.spent units > computeBudget then (.error (.err .computeExhausted), th)
    else (.ok (), { th with spent := saturatingAdd th.spent units }) := by
  change Comp.exec (if saturatingAdd th.spent units > computeBudget then _ else _) th = _
  split <;> rfl

theorem exec_withCpiDepth {α : Type} (body : Prog α) (th : Thread) :
    Comp.exec (withCpiDepth body) th =
      if th.depth + 1 > maxCpiDepth then (.error (.err .cpiDepthExceeded), th)
      else
        ((Comp.exec body { th with depth := th.depth + 1 }).1,
          { (Comp.exec body { th with depth := th.depth + 1 }).2 with
            depth := (Comp.exec body { th with depth := th.depth + 1 }).2.depth - 1 }) := by
  change (if th.depth + 1 > maxCpiDepth then _ else _ : Except Fault α × Thread) = _
  split <;> rfl

/-- The trail after an invocation, which an error does not take back. -/
theorem invoke_approved :
    (Comp.exec (invokeSignedIndexed accounts indices signers data callee process) th).2.approved =
      match admitted accounts indices th with
      | none => th.approved
      | some (window, th₁) =>
          (Comp.exec (calleeRun window signers data callee process) th₁).2.approved := by
  rw [invokeSignedIndexed_eq, Comp.exec_bind]
  unfold admitted
  cases hwindow : windowOf accounts indices with
  | error fault => rfl
  | ok window =>
    change (Comp.exec (withCpiDepth _) th).2.approved = _
    rw [exec_withCpiDepth]
    by_cases hdepth : th.depth + 1 > maxCpiDepth
    · simp only [hdepth, if_true]
    · simp only [hdepth, if_false, Comp.exec_bind]
      cases hentry : Comp.exec (entry window indices) { th with depth := th.depth + 1 } with
      | mk r th₁ =>
        cases r with
        | error fault =>
          have hkeeps := entry_keeps window indices th.approved
            { th with depth := th.depth + 1 } rfl
          rw [hentry] at hkeeps
          exact hkeeps
        | ok u =>
          dsimp only
          cases Comp.exec (calleeRun window signers data callee process) th₁ with
          | mk r' th₂ => cases r' <;> rfl

end

/-! ## Whole runs -/

theorem exec_caught {α : Type} (x : Prog α) (th : Thread) :
    Comp.exec (caught x) th = match Comp.exec x th with
      | (.ok a, th') => (.ok (.ok a), th')
      | (.error (.err e), th') => (.ok (.error e), th')
      | (.error .panic, th') => (.error .panic, th') :=
  rfl

theorem caught_state {α : Type} (x : Prog α) (th : Thread) :
    (Comp.exec (caught x) th).2 = (Comp.exec x th).2 := by
  rw [exec_caught]
  cases Comp.exec x th with
  | mk r th' =>
    cases r with
    | ok a => rfl
    | error fault => cases fault <;> rfl

/-- **The trail is the log.** However a body goes on and ends, the trail holds what the gates on
    the way recorded, the later over the earlier. -/
theorem run_trail {α : Type} (b : Body α) :
    ∀ th, (Comp.exec b.run th).2.approved = trailed (b.log th) th.approved := by
  induction b with
  | done a => exact fun th => rfl
  | fail fault => exact fun th => rfl
  | invoke accounts indices signers data callee process next ihprocess ihnext =>
    intro th
    rw [Body.run, Body.log, Comp.exec_bind, trailed_append]
    have hinvoke : (Comp.exec (caught (invokeSignedIndexed accounts indices signers data callee
        fun window data => (process window data).run)) th).2.approved =
        trailed (match admitted accounts indices th with
          | none => []
          | some (window, th₁) =>
              (process (markSigners window signers) data).log th₁ ++
                match Comp.exec (process (markSigners window signers) data).run th₁ with
                | (.error _, _) => []
                | (.ok after, th₂) => gateLog callee (window.zip after) th₂) th.approved := by
      rw [caught_state, invoke_approved]
      cases hadm : admitted accounts indices th with
      | none => rfl
      | some p =>
        obtain ⟨window, th₁⟩ := p
        have hproc := ihprocess (markSigners window signers) data th₁
        simp only
        rw [calleeRun, Comp.exec_bind, trailed_append, ← admitted_approved hadm, ← hproc]
        cases hexec : Comp.exec (process (markSigners window signers) data).run th₁ with
        | mk r th₂ =>
          cases r with
          | error fault => rfl
          | ok after => exact gate_trail callee (window.zip after) th₂
    rw [← hinvoke]
    cases hexec : Comp.exec (caught (invokeSignedIndexed accounts indices signers data callee
        fun window data => (process window data).run)) th with
    | mk r th₁ =>
      cases r with
      | error fault => rfl
      | ok r => exact ihnext r th₁

/-- Every approval is of a change that the program it was made for may make itself. -/
theorem gateLog_direct {programId : Pubkey} {pairs : List (AccountInfo × AccountInfo)} :
    ∀ {th : Thread}, ∀ e ∈ gateLog programId pairs th, Direct e.programId e.pre e.post := by
  induction pairs with
  | nil =>
    intro th e he
    cases he
  | cons p rest ih =>
    intro th e he
    obtain ⟨pre, post⟩ := p
    rw [gateLog] at he
    split at he
    · cases he
    · rcases List.mem_append.mp he with he | he
      · split at he
        · rename_i hrecords
          rw [List.mem_singleton.mp he]
          simp only [records, Bool.and_eq_true, decide_eq_true_eq] at hrecords
          exact hrecords.2
        · cases he
      · exact ih e he

theorem log_direct {α : Type} (b : Body α) :
    ∀ th, ∀ e ∈ b.log th, Direct e.programId e.pre e.post := by
  induction b with
  | done a =>
    intro th e he
    cases he
  | fail fault =>
    intro th e he
    cases he
  | invoke accounts indices signers data callee process next ihprocess ihnext =>
    intro th e he
    rw [Body.log] at he
    rcases List.mem_append.mp he with he | he
    · split at he
      · cases he
      · rcases List.mem_append.mp he with he | he
        · exact ihprocess _ _ _ e he
        · split at he
          · cases he
          · exact gateLog_direct e he
    · split at he
      · cases he
      · exact ihnext _ _ e he

/-! ## The outermost gate -/

/-- A gate that lets a table through, seen from one of its slots. -/
theorem gate_slot {programId : Pubkey} {before : List AccountInfo} :
    ∀ {after out : List AccountInfo} {th th' : Thread} {i : Nat} {pre o : AccountInfo},
      Comp.Returns (gate programId before after) th out th' →
      before[i]? = some pre → out[i]? = some o →
      ∃ post th₁ th₂, Comp.Returns (validateWrite programId pre post) th₁ o th₂ ∧
        th₁.approved = trailed (gateLog programId ((before.zip after).take i) th) th.approved ∧
        ∀ e ∈ gateLog programId ((before.zip after).take i) th,
          e.state.key ∈ (out.take i).map (·.key) := by
  induction before with
  | nil =>
    intro after out th th' i pre o h hpre
    simp at hpre
  | cons a before ih =>
    intro after out th th' i pre o h hpre hout
    cases after with
    | nil =>
      obtain ⟨rfl, -⟩ := Comp.returns_pure.mp (show Comp.Returns (pure []) th out th' from h)
      simp at hout
    | cons b after =>
      obtain ⟨o₁, th₁, os, hhead, htail, rfl⟩ := gate_cons.mp h
      cases i with
      | zero =>
        simp only [List.getElem?_cons_zero, Option.some.injEq] at hpre hout
        subst hpre
        subst hout
        refine ⟨b, th, th₁, hhead, rfl, fun e he => ?_⟩
        cases he
      | succ i =>
        simp only [List.getElem?_cons_succ] at hpre hout
        obtain ⟨post, th₂, th₃, hslot, htrail, hkeys⟩ := ih htail hpre hout
        have hlog : gateLog programId (((a :: before).zip (b :: after)).take (i + 1)) th =
            (if records programId a b then [⟨programId, a, b, o₁⟩] else []) ++
              gateLog programId ((before.zip after).take i) th₁ := by
          rw [List.zip_cons_cons, List.take_succ_cons, gateLog,
            show Comp.exec (validateWrite programId a b) th = _ from hhead]
        refine ⟨post, th₂, th₃, hslot, ?_, ?_⟩
        · rw [hlog, trailed_append, htrail, validateWrite_trail hhead]
          cases records programId a b <;> rfl
        · intro e he
          rw [hlog] at he
          rw [List.take_succ_cons, List.map_cons]
          rcases List.mem_append.mp he with he | he
          · split at he
            · rw [List.mem_singleton.mp he]
              exact List.mem_cons_self
            · cases he
          · exact List.mem_cons_of_mem _ (hkeys e he)

/-- What is approved in a top-level execution before its own gate comes to slot `i`. -/
def approvals (programId : Pubkey) (body : List AccountInfo → Body (List AccountInfo))
    (accounts : List AccountInfo) (th : Thread) (i : Nat) : List Approval :=
  (body accounts).log (beginExecution th) ++
    match Comp.exec (body accounts).run (beginExecution th) with
    | (.error _, _) => []
    | (.ok after, th') => gateLog programId ((accounts.zip after).take i) th'

theorem latest_append_of_forall {key : Pubkey} {log log' : List Approval}
    (h : ∀ e ∈ log', e.state.key ≠ key) : latest key (log ++ log') = latest key log := by
  unfold latest
  rw [List.reverse_append, List.find?_append]
  have hnone : log'.reverse.find? (fun e => e.state.key == key) = none := by
    rw [List.find?_eq_none]
    intro e he
    simpa using h e (List.mem_reverse.mp he)
  rw [hnone, Option.none_or]

/-- **What the outermost gate lets through.** For every body, with any invocations in it: an
    account that is not blank and not the program's ends as it was, but for a credit, or in the
    very state that was approved last under its key, for a change that the program it was approved
    for may make itself. Where no key is left twice, the approval was made at an invocation. -/
theorem topLevel_slot {programId : Pubkey} {body : List AccountInfo → Body (List AccountInfo)}
    {accounts out : List AccountInfo} {th th' : Thread}
    (h : Comp.Returns (topLevel programId body accounts) th out th') {i : Nat}
    {pre post : AccountInfo} (hpre : accounts[i]? = some pre) (hpost : out[i]? = some post)
    (hblank : isBlank pre = false) (hforeign : pre.owner ≠ programId) :
    creditOnly pre post = true ∨
      ∃ e, latest post.key (approvals programId body accounts th i) = some e ∧
        sameState e.state post = true ∧ Direct e.programId e.pre e.post ∧
        ((out.map (·.key)).Nodup →
          latest post.key ((body accounts).log (beginExecution th)) = some e) := by
  obtain ⟨_, _, hbegin, h₁⟩ := Comp.returns_bind.mp h
  rw [Comp.returns_modify.mp hbegin] at h₁
  obtain ⟨after, th₁, hrun, hgate⟩ := Comp.returns_bind.mp h₁
  have htrail : th₁.approved = trailed ((body accounts).log (beginExecution th)) ∅ := by
    have := run_trail (body accounts) (beginExecution th)
    rwa [show Comp.exec (body accounts).run (beginExecution th) = _ from hrun] at this
  obtain ⟨post', th₂, th₃, hslot, htrail₂, hkeys⟩ :=
    gate_slot (validateWrites_returns.mp hgate).2 hpre hpost
  have happrovals : approvals programId body accounts th i =
      (body accounts).log (beginExecution th) ++
        gateLog programId ((accounts.zip after).take i) th₁ := by
    rw [approvals, show Comp.exec (body accounts).run (beginExecution th) = _ from hrun]
  cases validateWrite_gated hslot with
  | unchanged hsame => exact .inl (creditOnly_of_sameState hsame)
  | owned hchanged hown => exact absurd hown hforeign
  | credited hchanged hcredit => exact .inl hcredit
  | first hchanged hblank' => exact absurd hblank' (by simp [hblank])
  | again _ hlook hsame =>
    rw [htrail₂, htrail, ← trailed_append, ← happrovals, lookup_trailed] at hlook
    obtain ⟨e, hlatest, rfl⟩ := Option.map_eq_some_iff.mp hlook
    refine .inr ⟨e, hlatest, hsame, ?_, fun hdistinct => ?_⟩
    · have hmem := (mem_of_latest hlatest).1
      rw [happrovals] at hmem
      rcases List.mem_append.mp hmem with hmem | hmem
      · exact log_direct _ _ e hmem
      · exact gateLog_direct e hmem
    · rw [happrovals] at hlatest
      rwa [latest_append_of_forall] at hlatest
      intro e' he' hkey
      have hsplit : out.map (·.key) = (out.take i).map (·.key) ++ (out.drop i).map (·.key) := by
        rw [← List.map_append, List.take_append_drop]
      have hmem : post.key ∈ (out.drop i).map (·.key) := by
        refine List.mem_map_of_mem (List.mem_of_getElem? (i := 0) ?_)
        rw [List.getElem?_drop, Nat.add_zero]
        exact hpost
      rw [hsplit, List.nodup_append] at hdistinct
      exact hdistinct.2.2 _ (hkeys e' he') _ hmem hkey

/-! ## Parts of an invocation -/

/-- An invocation as its caller makes it. -/
structure Call where
  indices : List Nat
  signers : List Nat
  data : List UInt8
  callee : Pubkey
  process : List AccountInfo → List UInt8 → Body (List AccountInfo)

/-- The invocations that a body makes itself, in order. -/
def Body.calls {α : Type} : Body α → Thread → List Call
  | .done _, _ => []
  | .fail _, _ => []
  | .invoke accounts indices signers data callee process next, th =>
      ⟨indices, signers, data, callee, process⟩ ::
        match Comp.exec (caught (invokeSignedIndexed accounts indices signers data callee
            fun window data => (process window data).run)) th with
        | (.error _, _) => []
        | (.ok r, th') => (next r).calls th'

/-- The tables that lie within what a program may do itself and complete invocations among `calls`,
    each on the table as the steps before it left it. -/
inductive Lawful (programId : Pubkey) (calls : List Call) (accounts : List AccountInfo) :
    List AccountInfo → Prop
  | start : Lawful programId calls accounts accounts
  | own {mid after : List AccountInfo} (hmid : Lawful programId calls accounts mid)
      (hdirect : List.Forall₂ (Direct programId) mid after) : Lawful programId calls accounts after
  | call {mid after : List AccountInfo} {c : Call} {th th' : Thread}
      (hmid : Lawful programId calls accounts mid) (hc : c ∈ calls)
      (hinvoke : Comp.Returns (invokeSignedIndexed mid c.indices c.signers c.data c.callee
        fun window data => (c.process window data).run) th after th') :
      Lawful programId calls accounts after

/-- What others own is, but for credits, as some such steps leave it. -/
def NetEffect (programId : Pubkey) (calls : List Call) (accounts out : List AccountInfo) : Prop :=
  ∃ mid, Lawful programId calls accounts mid ∧
    ∀ (i : Nat) (pre post : AccountInfo), accounts[i]? = some pre → out[i]? = some post →
      isBlank pre = false → pre.owner ≠ programId →
      ∃ a, mid[i]? = some a ∧ creditOnly a post = true

/-- A callee that invokes nothing. -/
def Body.ofOutcome {α : Type} : Outcome α → Body α
  | .ok a => .done a
  | .error fault => .fail fault

theorem Body.run_ofOutcome {α : Type} (r : Outcome α) :
    (Body.ofOutcome r).run = Comp.ofExcept r := by
  cases r <;> rfl

/-- A token account of the owner `3`. -/
def tokenHolding (amount : UInt64) : Token.TokenAccountState where
  mint := .repeated 4
  owner := .repeated 3
  amount
  state := .initialized

/-- Two of them, and the owner's wallet, which signed. -/
def tokenTrio (first second : UInt64) : List AccountInfo :=
  [{ key := .repeated 1, lamports := 1, owner := ProgramIds.tokenProgram
     data := (toVec (tokenHolding first)).getD [] },
    { key := .repeated 2, lamports := 1, owner := ProgramIds.tokenProgram
      data := (toVec (tokenHolding second)).getD [] },
    { key := .repeated 3, lamports := 1, data := [], owner := ProgramIds.systemProgram
      isSigner := true }]

/-- Move 5 from the first account to the second, and then do something else. -/
def moving (next : List AccountInfo → List AccountInfo) (accounts : List AccountInfo) :
    Body (List AccountInfo) :=
  .invoke accounts [0, 1, 2] [] ((toVec (Token.TokenInstruction.transfer 5)).getD [])
    ProgramIds.tokenProgram (fun window data => .ofOutcome (Token.process .release window data))
    fun
    | .ok after => .done (next after)
    | .error e => .fail (.err e)

/-- The transfer that `moving` makes. -/
def fiveMoved : Call where
  indices := [0, 1, 2]
  signers := []
  data := (toVec (Token.TokenInstruction.transfer 5)).getD []
  callee := ProgramIds.tokenProgram
  process window data := .ofOutcome (Token.process .release window data)

theorem moving_calls (next : List AccountInfo → List AccountInfo) (accounts : List AccountInfo)
    (th : Thread) : (moving next accounts).calls th = [fiveMoved] := by
  rw [moving, Body.calls]
  split
  · rfl
  · rename_i r th' _
    cases r <;> rfl

/-- The first two slots belong to the token program and hold `n` together. -/
def HoldsBoth (n : Nat) (accounts : List AccountInfo) : Prop :=
  ∃ a b c, accounts = [a, b, c] ∧ a.owner = ProgramIds.tokenProgram ∧
    b.owner = ProgramIds.tokenProgram ∧ ∃ x y : Token.TokenAccountState,
      tryFromSlice a.data = some x ∧ tryFromSlice b.data = some y ∧
      x.amount.toNat + y.amount.toNat = n

theorem returns_withCpiDepth {α : Type} {body : Prog α} {a : α} {th th' : Thread}
    (h : Comp.Returns (withCpiDepth body) th a th') :
    ∃ th₁ th₂, th₁.approved = th.approved ∧ th'.approved = th₂.approved ∧
      Comp.Returns body th₁ a th₂ := by
  rw [Comp.Returns, exec_withCpiDepth] at h
  split at h
  · simp at h
  · rw [Prod.mk.injEq] at h
    exact ⟨{ th with depth := th.depth + 1 }, _, rfl, by rw [← h.2], Prod.ext h.1 rfl⟩

/-- An invocation that succeeds is complete: the callee ran and every slot passed its gate. The
    trail grows by what these two approve. -/
theorem invoke_returns {accounts out : List AccountInfo} {indices signers : List Nat}
    {data : List UInt8} {callee : Pubkey} {process : Process} {th th' : Thread}
    (h : Comp.Returns (invokeSignedIndexed accounts indices signers data callee process)
      th out th') :
    ∃ window after gated th₁ th₂ th₃, windowOf accounts indices = .ok window ∧
      rejectDuplicateWritable window = .ok () ∧ th₁.approved = th.approved ∧
      Comp.Returns (process (markSigners window signers) data) th₁ after th₂ ∧
      Comp.Returns (gate callee window after) th₂ gated th₃ ∧ th'.approved = th₃.approved ∧
      out = writeBack accounts gated indices := by
  rw [invokeSignedIndexed_eq] at h
  obtain ⟨window, _, hlift, h₁⟩ := Comp.returns_bind.mp h
  obtain ⟨hwindow, rfl⟩ := Comp.returns_ofExcept.mp hlift
  obtain ⟨th₀, th₄, hstart, hend, h₂⟩ := returns_withCpiDepth h₁
  obtain ⟨_, th₁, hentry, h₃⟩ := Comp.returns_bind.mp h₂
  obtain ⟨gated, th₃, hcallee, h₄⟩ := Comp.returns_bind.mp h₃
  obtain ⟨after, th₂, hprocess, hgate⟩ := Comp.returns_bind.mp hcallee
  obtain ⟨rfl, rfl⟩ := Comp.returns_pure.mp h₄
  have htrail : th₁.approved = th₀.approved := by
    have hkeeps := entry_keeps window indices th₀.approved th₀ rfl
    rw [show Comp.exec (entry window indices) th₀ = (.ok _, th₁) from hentry] at hkeeps
    exact hkeeps
  obtain ⟨_, _, -, hdup⟩ := Comp.returns_bind.mp hentry
  exact ⟨window, after, gated, th₁, th₂, _, hwindow, (Comp.returns_ofExcept.mp hdup).1,
    htrail.trans hstart, hprocess, hgate, hend, rfl⟩

theorem not_blank_of_token {a : AccountInfo} {x : Token.TokenAccountState}
    (h : tryFromSlice a.data = some x) : isBlank a = false := by
  cases hdata : a.data with
  | nil =>
    rw [hdata, show tryFromSlice (α := Token.TokenAccountState) [] = none by decide] at h
    simp at h
  | cons b rest => simp [isBlank, hdata]

/-- What is left of a slot that another program may only credit. -/
theorem Direct.foreign {programId : Pubkey} {pre post : AccountInfo}
    (h : Direct programId pre post) (hforeign : pre.owner ≠ programId)
    (hblank : isBlank pre = false) : post.data = pre.data ∧ post.owner = pre.owner := by
  rcases h with hown | hcredit | hblank'
  · exact absurd hown hforeign
  · simp only [creditOnly, Bool.and_eq_true, beq_iff_eq] at hcredit
    exact ⟨hcredit.1.1.1.2, hcredit.1.1.2⟩
  · exact absurd hblank' (by simp [hblank])

theorem HoldsBoth.own {n : Nat} {mid after : List AccountInfo} (h : HoldsBoth n mid)
    (hdirect : List.Forall₂ (Direct (.repeated 9)) mid after) : HoldsBoth n after := by
  obtain ⟨a, b, c, rfl, ha, hb, x, y, hx, hy, hsum⟩ := h
  cases hdirect with
  | cons hfirst hdirect =>
    cases hdirect with
    | cons hsecond hdirect =>
      cases hdirect with
      | cons hthird hdirect =>
        cases hdirect with
        | nil =>
          obtain ⟨hdata, howner⟩ := hfirst.foreign (by rw [ha]; decide) (not_blank_of_token hx)
          obtain ⟨hdata', howner'⟩ := hsecond.foreign (by rw [hb]; decide) (not_blank_of_token hy)
          exact ⟨_, _, _, rfl, howner.trans ha, howner'.trans hb, x, y, hdata ▸ hx, hdata' ▸ hy,
            hsum⟩

theorem HoldsBoth.transfer {n : Nat} {mid after : List AccountInfo} {th th' : Thread}
    (h : HoldsBoth n mid)
    (hinvoke : Comp.Returns (invokeSignedIndexed mid fiveMoved.indices fiveMoved.signers
      fiveMoved.data fiveMoved.callee fun window data => (fiveMoved.process window data).run)
      th after th') : HoldsBoth n after := by
  obtain ⟨a, b, c, rfl, ha, hb, x, y, hx, hy, hsum⟩ := h
  obtain ⟨window, mid, gated, th₁, th₂, th₃, hwindow, -, -, hprocess, hgate, -, rfl⟩ :=
    invoke_returns hinvoke
  obtain rfl : [a, b, c] = window := Except.ok.inj hwindow
  simp only [fiveMoved, Body.run_ofOutcome] at hprocess
  obtain ⟨hrun, rfl⟩ := Comp.returns_ofExcept.mp hprocess
  obtain ⟨ix, hix, hrun⟩ := bind_eq_ok.mp hrun
  obtain rfl : Token.TokenInstruction.transfer 5 = ix := by
    have hdec := okOr_eq_ok.mp hix
    rw [show tryFromSlice ((toVec (Token.TokenInstruction.transfer 5)).getD []) =
      some (Token.TokenInstruction.transfer 5) by decide] at hdec
    exact Option.some.inj hdec
  obtain ⟨a', b', rest, source, dest, left, amount, hwrites, -, hleft, hamount⟩ :=
    token_run_post hrun
  obtain ⟨rfl, rfl, rfl⟩ : a = a' ∧ b = b' ∧ [c] = rest := by
    simpa [markSigners] using hwrites.given
  obtain ⟨hsource, hdest⟩ := hwrites.held
  rw [hx, Option.some.injEq] at hsource
  rw [hy, Option.some.injEq] at hdest
  subst hsource
  subst hdest
  obtain ⟨d, e, hd, he, rfl⟩ := hwrites.written
  obtain ⟨o, _, os, hfirst, htail, rfl⟩ := gate_cons.mp hgate
  obtain ⟨o', _, os', hsecond, htail', rfl⟩ := gate_cons.mp htail
  obtain ⟨o'', _, os'', -, hnil, rfl⟩ := gate_cons.mp htail'
  obtain ⟨rfl, -⟩ := Comp.returns_pure.mp hnil
  obtain ⟨hpassed, -⟩ := validateWrite_passed (by rfl) hfirst
  obtain ⟨hpassed', -⟩ := validateWrite_passed (by rfl) hsecond
  have howner : o.owner = ProgramIds.tokenProgram :=
    hpassed.owner.elim (fun h => h.trans ha) fun h => h.2
  have howner' : o'.owner = ProgramIds.tokenProgram :=
    hpassed'.owner.elim (fun h => h.trans hb) fun h => h.2
  refine ⟨_, _, _, rfl, howner, howner', { x with amount := left }, { y with amount }, ?_, ?_, ?_⟩
  · exact hpassed.data ▸ tryFromSlice_toVec hd
  · exact hpassed'.data ▸ tryFromSlice_toVec he
  · have hfive : (5 : UInt64).toNat = 5 := rfl
    change left.toNat + amount.toNat = n
    omega

theorem HoldsBoth.lawful {n : Nat} {accounts mid : List AccountInfo} (h : HoldsBoth n accounts)
    (hlawful : Lawful (.repeated 9) [fiveMoved] accounts mid) : HoldsBoth n mid := by
  induction hlawful with
  | start => exact h
  | own _ hdirect ih => exact ih.own hdirect
  | call _ hc hinvoke ih =>
    rw [List.mem_singleton.mp hc] at hinvoke
    exact ih.transfer hinvoke

/-- An honest transfer: the second account ends in the state that the token program was approved
    to leave. -/
theorem topLevel_slot_transfer : ∃ e,
    latest (.repeated 2) ((moving id (tokenTrio 5 0)).log (beginExecution {})) = some e ∧
      Direct e.programId e.pre e.post ∧
      e.state.data = (toVec (tokenHolding 5)).getD [] := by
  have haccepted : (Comp.exec (topLevel (.repeated 9) (moving id) (tokenTrio 5 0)) {}).1 =
      .ok (tokenTrio 0 5) := by
    decide
  have hslot := topLevel_slot (by rw [Comp.Returns, ← haccepted]) (i := 1) rfl rfl (by decide)
    (by decide)
  rcases hslot with hcredit | ⟨e, -, hsame, hdirect, hinner⟩
  · exact absurd hcredit (by decide)
  · simp only [sameState, Bool.and_eq_true, beq_iff_eq] at hsame
    exact ⟨e, hinner (by decide), hdirect, hsame.1.1.1.2⟩

/-- No such steps make tokens. -/
theorem not_netEffect {first second first' second' : UInt64}
    (h : first.toNat + second.toNat ≠ first'.toNat + second'.toNat) :
    ¬ NetEffect (.repeated 9) [fiveMoved] (tokenTrio first second) (tokenTrio first' second') := by
  rintro ⟨mid, hlawful, hmatch⟩
  have hholds : ∀ amount, tryFromSlice ((toVec (tokenHolding amount)).getD []) =
      some (tokenHolding amount) := fun amount => tryFromSlice_toVec rfl
  have hstart : HoldsBoth (first.toNat + second.toNat) (tokenTrio first second) :=
    ⟨_, _, _, rfl, rfl, rfl, _, _, hholds first, hholds second, rfl⟩
  obtain ⟨a, b, c, rfl, -, -, x, y, hx, hy, hsum⟩ := hstart.lawful hlawful
  obtain ⟨_, ha, hfirst⟩ := hmatch 0 _ _ rfl rfl (not_blank_of_token (hholds first))
    (show ProgramIds.tokenProgram ≠ .repeated 9 by decide)
  obtain ⟨_, hb, hsecond⟩ := hmatch 1 _ _ rfl rfl (not_blank_of_token (hholds second))
    (show ProgramIds.tokenProgram ≠ .repeated 9 by decide)
  cases ha
  cases hb
  simp only [creditOnly, Bool.and_eq_true, beq_iff_eq] at hfirst hsecond
  rw [← hfirst.1.1.1.2] at hx
  rw [← hsecond.1.1.1.2] at hy
  cases hx.symm.trans (hholds first')
  cases hy.symm.trans (hholds second')
  exact h hsum.symm

/-- The program puts its copy of the first account back after the transfer. -/
def putsBack (accounts : List AccountInfo) : Body (List AccountInfo) :=
  moving (fun after => accounts.take 1 ++ after.drop 1) accounts

/-- The program writes a balance into its copy of the first account before the transfer. -/
def forges (_ : List AccountInfo) : Body (List AccountInfo) := moving id (tokenTrio 5 0)

/-- **Half a transfer, and a forged one.** Putting the source back after a transfer passes, and so
    does moving a balance that was only written into the caller's copy. In both cases the token
    accounts end with more than the transfer, in full and on the accounts as they were, can give
    them. -/
theorem half_a_transfer :
    (∃ th', Comp.Returns (topLevel (.repeated 9) putsBack (tokenTrio 5 0)) {} (tokenTrio 5 5) th' ∧
      ¬ NetEffect (.repeated 9) ((putsBack (tokenTrio 5 0)).calls (beginExecution {}))
        (tokenTrio 5 0) (tokenTrio 5 5)) ∧
    ∃ th', Comp.Returns (topLevel (.repeated 9) forges (tokenTrio 0 0)) {} (tokenTrio 0 5) th' ∧
      ¬ NetEffect (.repeated 9) ((forges (tokenTrio 0 0)).calls (beginExecution {}))
        (tokenTrio 0 0) (tokenTrio 0 5) := by
  have hhalf : (Comp.exec (topLevel (.repeated 9) putsBack (tokenTrio 5 0)) {}).1 =
      .ok (tokenTrio 5 5) := by
    decide
  have hforged : (Comp.exec (topLevel (.repeated 9) forges (tokenTrio 0 0)) {}).1 =
      .ok (tokenTrio 0 5) := by
    decide
  refine ⟨⟨_, by rw [Comp.Returns, ← hhalf], ?_⟩, ⟨_, by rw [Comp.Returns, ← hforged], ?_⟩⟩
  · rw [putsBack, moving_calls]
    exact not_netEffect (by decide)
  · rw [forges, moving_calls]
    exact not_netEffect (by decide)

end Proof
end Himsha
