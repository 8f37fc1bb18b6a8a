import Himsha.Proof.Overlay
import Himsha.Proof.OwnerGate

/-!
# Accounts that are only mentioned

A commit stores every slot of every instruction, changed or not. For an account that was stored
before, that is the record it had. An account that was not is stored as the blank one the slot was
given, and so it belongs to the program of the first instruction that lists it.
-/

set_option autoImplicit false

namespace Himsha
namespace Proof

open Himsha.Lib Himsha.Runtime Himsha.Programs Himsha.Vm Himsha.Node

/-- Every slot of this key came out as it was given. -/
def Untouched (e : Executed) (k : Pubkey) : Prop :=
  ∀ slot ∈ e.accounts.zip e.updated, slot.1.key = k → sameState slot.1 slot.2 = true

instance (e : Executed) (k : Pubkey) : Decidable (Untouched e k) :=
  inferInstanceAs (Decidable (∀ slot ∈ e.accounts.zip e.updated, _))

/-- Some slot of the instruction is about the key. -/
def mentions (instr : Instruction) (k : Pubkey) : Bool := k ∈ instr.accounts.map (·.pubkey)

/-- An account that was read and is written back. -/
def rewritten (k : Pubkey) (stored : StoredAccount) : StoredAccount :=
  (stored.intoAccount k).toStored

/-- The record of an account that a program was given and that nobody has stored. -/
def blankOf (programId : Pubkey) : StoredAccount := ⟨0, [], programId, false, none, none⟩

/-- The record under a key once some instructions have listed it and left it as it was. -/
def listed (prior : Option StoredAccount) (k : Pubkey) (instrs : List Instruction) :
    Option StoredAccount :=
  match instrs.find? (mentions · k) with
  | none => prior
  | some instr =>
      match prior with
      | some stored => some (rewritten k stored)
      | none => some (blankOf instr.programId)

/-- The record has both parts of an anchor or neither, as every record has that was written by a
    commit. -/
def Anchored (stored : StoredAccount) : Prop := stored.utxoTxid.isSome = stored.utxoVout.isSome

instance (stored : StoredAccount) : Decidable (Anchored stored) :=
  inferInstanceAs (Decidable (_ = _))

/-! ## Records -/

theorem rewritten_eq_iff {k : Pubkey} {stored : StoredAccount} :
    rewritten k stored = stored ↔ Anchored stored := by
  obtain ⟨lamports, data, owner, executable, txid, vout⟩ := stored
  unfold rewritten Anchored
  cases txid <;> cases vout <;> simp [StoredAccount.intoAccount, AccountInfo.toStored]

theorem toStored_anchored (a : AccountInfo) : Anchored a.toStored := by
  unfold Anchored AccountInfo.toStored
  cases a.utxo <;> rfl

theorem toStored_congr {a b : AccountInfo} (h : sameState a b = true) :
    b.toStored = a.toStored := by
  simp only [sameState, Bool.and_eq_true, beq_iff_eq] at h
  obtain ⟨⟨⟨⟨hlamports, hdata⟩, howner⟩, hexecutable⟩, hutxo⟩ := h
  simp only [AccountInfo.toStored, hlamports, hdata, howner, hexecutable, hutxo]

/-- What a slot would be stored as if nothing happened to it. -/
theorem accountAt_toStored (t : Accounts) (programId : Pubkey) (am : AccountMeta) :
    (accountAt t programId am).toStored = match t.lookup am.pubkey with
      | some stored => rewritten am.pubkey stored
      | none => blankOf programId := by
  unfold accountAt
  cases t.lookup am.pubkey <;> rfl

/-! ## One instruction -/

/-- Listing the key once more changes nothing. -/
theorem listed_snoc (prior : Option StoredAccount) (k : Pubkey) (instrs : List Instruction)
    {instr : Instruction} (h : mentions instr k = true) :
    listed prior k (instrs ++ [instr]) = match listed prior k instrs with
      | some stored => some (rewritten k stored)
      | none => some (blankOf instr.programId) := by
  unfold listed
  rw [List.find?_append]
  cases instrs.find? (mentions · k) with
  | none =>
    rw [List.find?_singleton, if_pos h]
    cases prior <;> rfl
  | some first =>
    rw [Option.some_or]
    cases prior with
    | some stored =>
      have hagain : rewritten k (rewritten k stored) = rewritten k stored :=
        rewritten_eq_iff.mpr (toStored_anchored _)
      simp only [hagain]
    | none =>
      have hagain : rewritten k (blankOf first.programId) = blankOf first.programId :=
        rewritten_eq_iff.mpr rfl
      simp only [hagain]

theorem listed_snoc_of_not (prior : Option StoredAccount) (k : Pubkey) (instrs : List Instruction)
    {instr : Instruction} (h : mentions instr k = false) :
    listed prior k (instrs ++ [instr]) = listed prior k instrs := by
  unfold listed
  rw [List.find?_append, List.find?_singleton, if_neg (by simp [h]), Option.or_none]

section
variable {ex : Executor} {tx : RuntimeTransaction} {prior : Option StoredAccount} {k : Pubkey}

/-- What the running transaction sees under the key, as long as every slot of it came out as it
    was given. -/
def ListedSoFar (prior : Option StoredAccount) (k : Pubkey) (r : Running) : Prop :=
  (∀ e ∈ r.executed, Untouched e k) →
    (current r).lookup k = listed prior k (r.executed.map (·.instr))

theorem applyInstruction_listed (instr : Instruction) (r r' : Running)
    (hI : ListedSoFar prior k r)
    (h : Comp.Returns (Executor.applyInstruction ex .commit tx instr) r () r') :
    ListedSoFar prior k r' := by
  obtain ⟨updated, -, hout, hoverlay, hexecuted, haccounts⟩ := applyInstruction_tableStep h
  intro huntouched
  rw [hexecuted] at huntouched
  have hbefore := hI fun e he => huntouched e (List.mem_append_left _ he)
  have hkeys : updated.map (·.key) = instr.accounts.map (·.pubkey) := by
    rw [output_keys hout, accountsOf_keys]
  rw [hexecuted, List.map_append, List.map_singleton]
  cases hmentions : mentions instr k with
  | false =>
    have hnot : k ∉ (entries updated).map Prod.fst := by
      rw [entries_keys, hkeys]
      exact of_decide_eq_false hmentions
    unfold current at hbefore ⊢
    rw [hoverlay, haccounts, layered_carry, Table.lookup_write_of_notMem hnot, hbefore,
      listed_snoc_of_not prior k _ hmentions]
  | true =>
    -- The last slot of the key is the one that counts; it came out as the table had it.
    have hmem : k ∈ instr.accounts.map (·.pubkey) := of_decide_eq_true hmentions
    obtain ⟨i, hi⟩ := List.mem_iff_getElem?.mp hmem
    rw [List.getElem?_map] at hi
    obtain ⟨j, -, hlast⟩ := exists_namesLast hi
    obtain ⟨am, ham, hkey⟩ := Option.map_eq_some_iff.mp hlast.1
    have hgiven : (accountsOf (current r) instr)[j]? =
        some (accountAt (current r) instr.programId am) := by
      rw [accountsOf, List.getElem?_map, ham]
      rfl
    have hran : Ran ex tx ⟨instr, accountsOf (current r) instr, updated,
        Executor.carry r.overlay updated⟩ := ⟨hout, hkeys, r.overlay, rfl⟩
    obtain ⟨b, hb⟩ := hran.slot ham
    have hslot : (accountAt (current r) instr.programId am, b) ∈
        (accountsOf (current r) instr).zip updated :=
      List.mem_of_getElem? (List.getElem?_zip_eq_some.mpr ⟨hgiven, hb⟩)
    have hsame := huntouched _ (List.mem_append_right _ (List.mem_singleton_self _)) _ hslot
      ((accountAt_key _ _ _).trans hkey)
    have hlook : (Executor.carry r.overlay updated).lookup k = some b.toStored := by
      rw [hran.lookup_last hlast]
      exact congrArg (Option.map _) hb
    have hnow : (current r').lookup k = some b.toStored := by
      unfold current
      rw [Table.lookup_layered, hoverlay, hlook]
      rfl
    rw [hnow, toStored_congr hsame, accountAt_toStored, hkey, hbefore,
      listed_snoc prior k _ hmentions]
    cases listed prior k (r.executed.map (·.instr)) <;> rfl

/-- **What is stored under a key that is only mentioned.** -/
theorem apply_commit_listed {w : World} (hok : (ex.apply w tx .commit).1 = .ok ())
    (huntouched : ∀ e ∈ (ex.apply w tx .commit).2.executed, Untouched e k) :
    (ex.apply w tx .commit).2.state.loadAccount k =
      listed (w.state.loadAccount k) k tx.message.instructions := by
  obtain ⟨m, state, hloop, hsave, heq⟩ := Executor.apply_commit_ok hok
  rw [heq] at huntouched ⊢
  have hstart : ListedSoFar (w.state.loadAccount k) k { toWorld := w } := by
    intro _
    show (Table.layered ∅ w.state.accounts).lookup k = _
    rw [Table.layered_empty]
    rfl
  have hend := Executor.applyInstructions_invariant applyInstruction_listed hstart hloop huntouched
  have hexecuted := applyInstructions_executed hloop
  rw [List.map_nil, List.nil_append] at hexecuted
  rw [← hexecuted, ← hend, NodeState.loadAccount, NodeState.saveAccountsAtomic_accounts hsave,
    Table.write_overlay]
  rfl

end

/-- **Who is claimed by being mentioned.** A transaction that fails stores nothing. One that
    commits leaves the record of a key whose slots all came out as they were given exactly if no
    instruction lists the key, or it was stored before (with both parts of an anchor or
    neither). -/
theorem mention_keeps_iff (ex : Executor) (w : World) (tx : RuntimeTransaction) :
    ((ex.apply w tx .commit).1 ≠ .ok () →
      ∀ k, (ex.apply w tx .commit).2.state.loadAccount k = w.state.loadAccount k) ∧
    ((ex.apply w tx .commit).1 = .ok () → ∀ k,
      (∀ e ∈ (ex.apply w tx .commit).2.executed, Untouched e k) →
      ((ex.apply w tx .commit).2.state.loadAccount k = w.state.loadAccount k ↔
        (∀ instr ∈ tx.message.instructions, mentions instr k = false) ∨
          ∃ stored, w.state.loadAccount k = some stored ∧ Anchored stored)) := by
  constructor
  · intro hfailed k
    unfold NodeState.loadAccount
    rw [(apply_failed_stored hfailed).accounts]
  · intro hok k huntouched
    rw [apply_commit_listed hok huntouched]
    unfold listed
    cases hfind : tx.message.instructions.find? (mentions · k) with
    | none =>
      have hnone : ∀ instr ∈ tx.message.instructions, mentions instr k = false := by
        simpa [List.find?_eq_none] using hfind
      exact iff_of_true rfl (.inl hnone)
    | some instr =>
      have hsome : ¬ ∀ instr ∈ tx.message.instructions, mentions instr k = false := by
        intro hnone
        have hmentions := List.find?_some hfind
        rw [hnone instr (List.mem_of_find?_eq_some hfind)] at hmentions
        cases hmentions
      rw [or_iff_right hsome]
      cases hstored : w.state.loadAccount k with
      | none => simp
      | some stored => simp [rewritten_eq_iff]

/-- A mint is initialised, and wallet 5 is listed read-only after it. -/
def mintBeside : RuntimeTransaction :=
  signedBy [.repeated 1] [.withArgs ProgramIds.tokenProgram
    [.writable (.repeated 9) false, .readonly (.repeated 5) false]
    (Token.TokenInstruction.initializeMint 6 (.repeated 1) none)]

def payTo (source dest : Pubkey) (lamports : UInt64) : RuntimeTransaction :=
  signedBy [source] [System.transfer source dest lamports]

/-- The world after a commit. -/
def committed (w : World) (tx : RuntimeTransaction) : World :=
  (Executor.apply (.bare .dev) w tx .commit).2.toWorld

/-- Whether a transaction commits. -/
def commits (w : World) (tx : RuntimeTransaction) : Bool :=
  (Executor.apply (.bare .dev) w tx .commit).1 matches .ok ()

/-- A node on which wallet 1 holds 1000, and wallet 5 is stored or is not. -/
def besideNode (known : Bool) : World :=
  .funded ((.repeated 1, 1000) :: if known then [(.repeated 5, 0)] else [])

theorem mention_keeps_known :
    (committed (besideNode true) mintBeside).state.loadAccount (.repeated 5) = some (wallet 0) := by
  have hok : (Executor.apply (.bare .dev) (besideNode true) mintBeside .commit).1 = .ok () := by
    rw [Executor.apply_eval]
    decide +kernel
  have huntouched : ∀ e ∈
      (Executor.apply (.bare .dev) (besideNode true) mintBeside .commit).2.executed,
      Untouched e (.repeated 5) := by
    rw [Executor.apply_eval]
    decide +kernel
  have hknown : (besideNode true).state.loadAccount (.repeated 5) = some (wallet 0) := by
    decide
  have hkept := ((mention_keeps_iff (.bare .dev) (besideNode true) mintBeside).2 hok (.repeated 5)
    huntouched).mpr (.inr ⟨wallet 0, hknown, rfl⟩)
  unfold committed
  rw [hkept, hknown]

/-- **A wallet that is only mentioned is claimed.** Wallet 5 was never stored and comes out of the
    only instruction as it was. It is stored as owned by the token program, it can be paid, and
    what it is paid cannot be spent, as it could be without the mention. -/
theorem mention_claims :
    (besideNode false).state.loadAccount (.repeated 5) = none ∧
    commits (besideNode false) mintBeside = true ∧
    (∀ e ∈ (Executor.apply (.bare .dev) (besideNode false) mintBeside .commit).2.executed,
      Untouched e (.repeated 5)) ∧
    (let claimed := committed (besideNode false) mintBeside
     let paid := committed claimed (payTo (.repeated 1) (.repeated 5) 250)
     claimed.state.loadAccount (.repeated 5) = some (blankOf ProgramIds.tokenProgram) ∧
     commits claimed (payTo (.repeated 1) (.repeated 5) 250) = true ∧
     paid.state.loadAccount (.repeated 5) =
       some { blankOf ProgramIds.tokenProgram with lamports := 250 } ∧
     commits paid (payTo (.repeated 5) (.repeated 1) 100) = false) ∧
    commits (committed (besideNode false) (payTo (.repeated 1) (.repeated 5) 250))
      (payTo (.repeated 5) (.repeated 1) 100) = true := by
  simp only [committed, commits, Executor.apply_eval]
  decide +kernel

end Proof
end Himsha
