import Himsha.Node.Follower
import Himsha.Node.Sequencer
import Himsha.Proof.Overlay

/-!
# Replication as a plan of writes

What a follower does with a block is decided before it writes anything: `plan` is the list of
account records that re-execution asks for, in order, and how it ends. The follower performs a
leading part of that list, all of it if its disk lets it (`applyInstructions_exec`). The plan of
an instruction is what the primary stores for it (`tableStep_demand`), so a follower that gets
through a block has the primary's table.
-/

set_option autoImplicit false

namespace Himsha
namespace Proof

open Himsha.Lib Himsha.Runtime Himsha.Programs Himsha.Vm Himsha.Node

/-- The records an instruction asks to have stored, or why it is refused. -/
def demand (m : Machine) (t : Accounts) (p : RuntimeTransaction × Instruction) :
    Except ReplayFault (List (Pubkey × StoredAccount)) :=
  match rejectDuplicateWritable (accountsOf t p.2) with
  | .error e => .error (Follower.guardFault e)
  | .ok () =>
      match executeProgram m p.2.programId
          ⟨accountsOf t p.2, p.2.data, p.1.message.timestamp⟩ [] with
      | .ok transition => .ok (entries (kept .commit p.2 transition.updatedAccounts))
      | .error (.node e) => .error (.error ("re-execute failed: " ++ e.message))
      | .error .panic => .error .panic

/-- The records that a list of instructions asks to have stored up to the first that is
    refused, and how it ends. -/
def plan (m : Machine) : Accounts → List (RuntimeTransaction × Instruction) →
    List (Pubkey × StoredAccount) × Except ReplayFault Unit
  | _, [] => ([], .ok ())
  | t, p :: rest =>
      match demand m t p with
      | .error e => ([], .error e)
      | .ok es => (es ++ (plan m (t.write es) rest).1, (plan m (t.write es) rest).2)

/-- One instruction, as a step of a replica's account table. -/
def replayStep (m : Machine) (t : Accounts) (p : RuntimeTransaction × Instruction) :
    Option Accounts :=
  match demand m t p with
  | .error _ => none
  | .ok es => some (t.write es)

/-- The writes that reach the disk before the first that fails. -/
def landed (disk : Disk) : Nat → List (Pubkey × StoredAccount) → List (Pubkey × StoredAccount)
  | _, [] => []
  | n, e :: es =>
      match disk n (.account e.1 e.2) with
      | some _ => []
      | none => e :: landed disk (n + 1) es

/-! ## The disk -/

section
variable {disk : Disk}

theorem landed_append {n : Nat} {es es' : List (Pubkey × StoredAccount)}
    (h : landed disk n es = es) :
    landed disk n (es ++ es') = es ++ landed disk (n + es.length) es' := by
  induction es generalizing n with
  | nil => rfl
  | cons e es ih =>
    unfold landed at h
    rw [List.cons_append, landed]
    split at h
    · simp at h
    · simp only [List.cons.injEq, true_and] at h
      rw [ih h, List.length_cons, Nat.add_right_comm, Nat.add_assoc, List.cons_append]

theorem landed_append_short {n : Nat} {es es' : List (Pubkey × StoredAccount)}
    (h : landed disk n es ≠ es) : landed disk n (es ++ es') = landed disk n es := by
  induction es generalizing n with
  | nil => exact absurd rfl h
  | cons e es ih =>
    rw [List.cons_append, landed, landed]
    cases hdisk : disk n (.account e.1 e.2) with
    | some text => rfl
    | none =>
      dsimp only
      rw [ih]
      intro heq
      apply h
      rw [landed, hdisk, heq]

/-- What is performed is a leading part. -/
theorem landed_prefix (n : Nat) (es : List (Pubkey × StoredAccount)) :
    ∃ rest, es = landed disk n es ++ rest := by
  induction es generalizing n with
  | nil => exact ⟨[], rfl⟩
  | cons e es ih =>
    unfold landed
    split
    · exact ⟨e :: es, rfl⟩
    · obtain ⟨rest, hrest⟩ := ih (n + 1)
      exact ⟨rest, by rw [List.cons_append, ← hrest]⟩

theorem landed_append_ne {n : Nat} {es es' : List (Pubkey × StoredAccount)}
    (h : landed disk n es ≠ es) : landed disk n (es ++ es') ≠ es ++ es' := by
  rw [landed_append_short h]
  intro heq
  obtain ⟨rest, hrest⟩ : ∃ rest, es = landed disk n es ++ rest := landed_prefix n es
  rw [heq] at hrest
  have hlen := congrArg List.length hrest
  simp only [List.length_append] at hlen
  have hnil : es' = [] := List.eq_nil_of_length_eq_zero (by omega)
  apply h
  rw [heq, hnil, List.append_nil]

theorem landed_sound (n : Nat) (es : List (Pubkey × StoredAccount)) :
    landed .sound n es = es := by
  induction es generalizing n with
  | nil => rfl
  | cons e es ih =>
    rw [landed, Disk.sound]
    exact congrArg _ (ih (n + 1))

end

/-! ## What a follower writes -/

section
variable {f : Follower}

theorem write_exec (label : String) (w : Write) (effect : NodeState → NodeState) (r : Replica) :
    Comp.exec (f.write label w effect) r = match f.disk r.writes w with
      | some e => (.error (.error (label ++ ": " ++ e)), { r with writes := r.writes + 1 })
      | none => (.ok (), { r with state := effect r.state, writes := r.writes + 1 }) := by
  unfold Follower.write
  rw [Comp.exec_bind]
  change Comp.exec (match f.disk r.writes w with | some _ => _ | none => _) r = _
  cases f.disk r.writes w <;> rfl

theorem tryWrite_exec (w : Write) (effect : NodeState → NodeState) (r : Replica) :
    Comp.exec (f.tryWrite w effect) r = (.ok (), match f.disk r.writes w with
      | some _ => { r with writes := r.writes + 1 }
      | none => { r with state := effect r.state, writes := r.writes + 1 }) := by
  unfold Follower.tryWrite
  rw [Comp.exec_bind]
  change Comp.exec (match f.disk r.writes w with | some _ => _ | none => _) r = _
  cases f.disk r.writes w <;> rfl

/-- A computation that performs a plan as far as the disk lets it, and then ends as it says. -/
structure Follows (f : Follower) (r : Replica)
    (p : List (Pubkey × StoredAccount) × Except ReplayFault Unit)
    (x : Except ReplayFault Unit × Replica) : Prop where
  accounts : x.2.state.accounts = r.state.accounts.write (landed f.disk r.writes p.1)
  slot : x.2.state.slot = r.state.slot
  poisoned : x.1 ≠ .error .panic → x.2.poisoned = r.poisoned
  complete : landed f.disk r.writes p.1 = p.1 →
    x.1 = p.2 ∧ x.2.writes = r.writes + p.1.length
  short : landed f.disk r.writes p.1 ≠ p.1 → ∃ text, x.1 = .error (.error text)

theorem putAccount_slot (s : NodeState) (key : Pubkey) (account : StoredAccount) :
    (s.putAccount key account).slot = s.slot := by
  unfold NodeState.putAccount
  split <;> rfl

theorem saveAccounts_follows (updated : List AccountInfo) : ∀ r : Replica,
    Follows f r (entries updated, .ok ()) (Comp.exec (f.saveAccounts updated) r) := by
  induction updated with
  | nil =>
    intro r
    exact ⟨rfl, rfl, fun _ => rfl, fun _ => ⟨rfl, rfl⟩, fun h => absurd rfl h⟩
  | cons a rest ih =>
    intro r
    have hentries : entries (a :: rest) = (a.key, a.toStored) :: entries rest := rfl
    rw [Follower.saveAccounts, Comp.exec_bind, Follower.saveAccount, write_exec, hentries]
    cases hdisk : f.disk r.writes (.account a.key a.toStored) with
    | some e =>
      have hland : landed f.disk r.writes ((a.key, a.toStored) :: entries rest) = [] := by
        rw [landed, hdisk]
      refine ⟨by rw [hland]; rfl, rfl, fun _ => rfl, fun h => ?_, fun _ => ⟨_, rfl⟩⟩
      rw [hland] at h
      simp at h
    | none =>
      have hrest := ih
        { r with state := r.state.putAccount a.key a.toStored, writes := r.writes + 1 }
      have hland : landed f.disk r.writes ((a.key, a.toStored) :: entries rest) =
          (a.key, a.toStored) :: landed f.disk (r.writes + 1) (entries rest) := by
        rw [landed, hdisk]
      constructor
      · rw [hland, Table.write_cons, ← NodeState.putAccount_accounts]
        exact hrest.accounts
      · exact hrest.slot.trans (putAccount_slot _ _ _)
      · exact hrest.poisoned
      · intro h
        rw [hland, List.cons.injEq] at h
        obtain ⟨hok, hwrites⟩ := hrest.complete h.2
        refine ⟨hok, hwrites.trans ?_⟩
        simp only [List.length_cons]
        omega
      · intro h
        apply hrest.short
        intro heq
        apply h
        rw [hland]
        exact congrArg _ heq

/-- Nothing was written, and that was all. -/
theorem Follows.refused {r : Replica} {e : ReplayFault} :
    Follows f r ([], .error e) (.error e, r) :=
  ⟨rfl, rfl, fun _ => rfl, fun _ => ⟨rfl, rfl⟩, fun h => absurd rfl h⟩

/-- The plan of one instruction. -/
def planOne (m : Machine) (t : Accounts) (p : RuntimeTransaction × Instruction) :
    List (Pubkey × StoredAccount) × Except ReplayFault Unit :=
  match demand m t p with
  | .error e => ([], .error e)
  | .ok es => (es, .ok ())

theorem reexecute_exec {r : Replica} (tx : RuntimeTransaction) (instr : Instruction)
    (accounts : List AccountInfo) (hlock : r.poisoned = false) :
    Comp.exec (f.reexecute tx instr accounts) r =
      match executeProgram f.machine instr.programId
          ⟨accounts, instr.data, tx.message.timestamp⟩ [] with
      | .ok transition => (.ok transition, r)
      | .error (.node e) => (.error (.error ("re-execute failed: " ++ e.message)), r)
      | .error .panic => (.error .panic, { r with poisoned := true }) := by
  unfold Follower.reexecute
  rw [Comp.exec_bind]
  change Comp.exec (Comp.ensure (!r.poisoned) ReplayFault.panic >>= _) r = _
  rw [hlock, Comp.exec_bind]
  change Comp.exec (match executeProgram f.machine instr.programId _ [] with
    | .ok _ => _ | .error (.node _) => _ | .error .panic => _) r = _
  cases executeProgram f.machine instr.programId ⟨accounts, instr.data, tx.message.timestamp⟩ [] with
  | ok transition => rfl
  | error e => cases e <;> rfl

theorem updated_eq (instr : Instruction) (updated : List AccountInfo) :
    (if instr.programId = ProgramIds.lendingProgram then drainLending updated else updated) =
      kept .commit instr updated := by
  unfold kept
  by_cases h : instr.programId = ProgramIds.lendingProgram
  · rw [if_pos h, if_pos ⟨rfl, h⟩]
    rfl
  · rw [if_neg h, if_neg fun hboth => h hboth.2]

/-- **One instruction performs its plan.** -/
theorem applyInstruction_follows {r : Replica} (tx : RuntimeTransaction) (instr : Instruction)
    (hlock : r.poisoned = false) :
    Follows f r (planOne f.machine r.state.accounts (tx, instr))
      (Comp.exec (f.applyInstruction tx instr) r) := by
  unfold Follower.applyInstruction planOne demand
  rw [Comp.exec_bind]
  change Follows f r _ (Comp.exec (Comp.ofExcept ((rejectDuplicateWritable
    (accountsOf r.state.accounts instr)).mapError Follower.guardFault) >>= _) r)
  rw [Comp.exec_bind]
  cases rejectDuplicateWritable (accountsOf r.state.accounts instr) with
  | error e => exact .refused
  | ok u =>
    change Follows f r _ (Comp.exec (f.reexecute tx instr (accountsOf r.state.accounts instr) >>= _)
      r)
    rw [Comp.exec_bind, reexecute_exec tx instr _ hlock]
    dsimp only
    cases hexec : executeProgram f.machine instr.programId
        ⟨accountsOf r.state.accounts instr, instr.data, tx.message.timestamp⟩ [] with
    | ok transition =>
      dsimp only
      rw [executeProgram_verify hexec, Comp.exec_bind]
      change Follows f r _ (Comp.exec (f.saveAccounts (if instr.programId = _ then _ else _)) r)
      rw [updated_eq]
      exact saveAccounts_follows _ r
    | error e =>
      cases e with
      | node e => exact .refused
      | panic => exact ⟨rfl, rfl, fun h => absurd rfl h, fun _ => ⟨rfl, rfl⟩, fun h => absurd rfl h⟩

/-- **A block's instructions perform their plan.** -/
theorem applyInstructions_follows (ps : List (RuntimeTransaction × Instruction)) :
    ∀ r : Replica, r.poisoned = false →
      Follows f r (plan f.machine r.state.accounts ps) (Comp.exec (f.applyInstructions ps) r) := by
  induction ps with
  | nil =>
    intro r _
    exact ⟨rfl, rfl, fun _ => rfl, fun _ => ⟨rfl, rfl⟩, fun h => absurd rfl h⟩
  | cons p rest ih =>
    intro r hlock
    obtain ⟨tx, instr⟩ := p
    have hone := applyInstruction_follows (f := f) tx instr hlock
    rw [Follower.applyInstructions, Comp.exec_bind]
    unfold planOne at hone
    unfold plan
    cases hdemand : demand f.machine r.state.accounts (tx, instr) with
    | error e =>
      rw [hdemand] at hone
      obtain ⟨hend, -⟩ := hone.complete rfl
      cases hx : Comp.exec (f.applyInstruction tx instr) r with
      | mk res r₁ =>
        rw [hx] at hone hend
        simp only at hend
        subst hend
        exact hone
    | ok es =>
      rw [hdemand] at hone
      cases hx : Comp.exec (f.applyInstruction tx instr) r with
      | mk res r₁ =>
        rw [hx] at hone
        by_cases hland : landed f.disk r.writes es = es
        · -- All of it is on the disk, and the rest goes on from there.
          obtain ⟨hend, hwrites⟩ := hone.complete hland
          have haccounts : r₁.state.accounts = r.state.accounts.write es :=
            hone.accounts.trans (by rw [hland])
          simp only at hend hwrites
          subst hend
          have hrest := ih r₁ ((hone.poisoned (by simp)).trans hlock)
          rw [haccounts] at hrest
          have happend : landed f.disk r.writes
              (es ++ (plan f.machine (r.state.accounts.write es) rest).1) = _ :=
            landed_append hland
          constructor
          · rw [happend, Table.write_append, ← hwrites]
            exact hrest.accounts.trans (by rw [haccounts])
          · exact hrest.slot.trans hone.slot
          · intro h
            exact (hrest.poisoned h).trans (hone.poisoned (by simp))
          · intro h
            rw [happend, List.append_cancel_left_eq, ← hwrites] at h
            obtain ⟨hend, hwrites'⟩ := hrest.complete h
            refine ⟨hend, hwrites'.trans ?_⟩
            rw [hwrites, List.length_append, Nat.add_assoc]
          · intro h
            apply hrest.short
            rw [happend, ne_eq, List.append_cancel_left_eq, ← hwrites] at h
            exact h
        · -- A save failed, and nothing else happens.
          obtain ⟨text, hend⟩ := hone.short hland
          simp only at hend
          subst hend
          refine ⟨?_, hone.slot, hone.poisoned, fun h => absurd h (landed_append_ne hland),
            fun _ => ⟨text, rfl⟩⟩
          rw [landed_append_short hland]
          exact hone.accounts

/-- Where the lock is poisoned, nothing gets further than the guard. -/
theorem applyInstruction_locked {r : Replica} (tx : RuntimeTransaction) (instr : Instruction)
    (hlock : r.poisoned = true) :
    Comp.exec (f.applyInstruction tx instr) r =
      match rejectDuplicateWritable (accountsOf r.state.accounts instr) with
      | .error e => (.error (Follower.guardFault e), r)
      | .ok () => (.error .panic, r) := by
  have hpanic : Comp.exec (f.reexecute tx instr (accountsOf r.state.accounts instr)) r =
      (.error .panic, r) := by
    unfold Follower.reexecute
    rw [Comp.exec_bind]
    change Comp.exec (Comp.ensure (!r.poisoned) ReplayFault.panic >>= _) r = _
    rw [hlock]
    rfl
  unfold Follower.applyInstruction
  rw [Comp.exec_bind]
  change Comp.exec (Comp.ofExcept ((rejectDuplicateWritable
    (accountsOf r.state.accounts instr)).mapError Follower.guardFault) >>= _) r = _
  rw [Comp.exec_bind]
  cases rejectDuplicateWritable (accountsOf r.state.accounts instr) with
  | error e => rfl
  | ok u =>
    change Comp.exec (f.reexecute tx instr (accountsOf r.state.accounts instr) >>= _) r = _
    rw [Comp.exec_bind, hpanic]

theorem applyInstructions_locked {r : Replica} (ps : List (RuntimeTransaction × Instruction))
    (hlock : r.poisoned = true) :
    (Comp.exec (f.applyInstructions ps) r).1 = .error .panic ∨
      (plan f.machine r.state.accounts ps).1 = [] ∧
        Comp.exec (f.applyInstructions ps) r = ((plan f.machine r.state.accounts ps).2, r) := by
  cases ps with
  | nil => exact .inr ⟨rfl, rfl⟩
  | cons p rest =>
    obtain ⟨tx, instr⟩ := p
    rw [Follower.applyInstructions, Comp.exec_bind, applyInstruction_locked tx instr hlock]
    unfold plan demand
    cases rejectDuplicateWritable (accountsOf r.state.accounts instr) with
    | error e => exact .inr ⟨rfl, rfl⟩
    | ok u => exact .inl rfl

/-- The same from any state of the lock, where it does not panic. -/
theorem applyInstructions_follows_of_ne_panic {r : Replica}
    (ps : List (RuntimeTransaction × Instruction))
    (h : (Comp.exec (f.applyInstructions ps) r).1 ≠ .error .panic) :
    Follows f r (plan f.machine r.state.accounts ps) (Comp.exec (f.applyInstructions ps) r) := by
  cases hlock : r.poisoned with
  | false => exact applyInstructions_follows ps r hlock
  | true =>
    obtain hpanic | ⟨hnil, heq⟩ := applyInstructions_locked (f := f) ps hlock
    · exact absurd hpanic h
    · rw [heq]
      have hland : landed f.disk r.writes (plan f.machine r.state.accounts ps).1 = [] := by
        rw [hnil]
        rfl
      refine ⟨by rw [hland]; rfl, rfl, fun _ => rfl, fun _ => ⟨rfl, by rw [hnil]; rfl⟩, fun hne => ?_⟩
      rw [hnil] at hne
      exact absurd rfl hne

end

end Proof
end Himsha
