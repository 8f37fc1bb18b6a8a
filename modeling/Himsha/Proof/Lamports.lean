import Himsha.Proof.Overlay

/-!
# Where lamports come from and where they go

Three instructions of the built-ins move lamports, each from its first slot to its second. The
slots are copies that are stored by key in slot order, so a debit or a credit counts only if its
key is not listed again later. `Books` keep account of that: they are posted from the stored
balances and the instructions alone, and `apply_books` is the simulation that says a commit leaves
the balances and the total they say. The total stays the same exactly where what was credited
without a debit is made up by what was debited without a credit.
-/

set_option autoImplicit false

namespace Himsha
namespace Proof

open Himsha.Lib Himsha.Runtime Himsha.Programs Himsha.Vm Himsha.Node

/-- The lamports of a record. -/
def lamportsOf (s : StoredAccount) : Nat := s.lamports.toNat

/-- The sum of lamports over all stored accounts. -/
def totalLamports (t : Accounts) : Nat := Table.total lamportsOf t

structure Books where
  balance : Pubkey → Nat
  /-- Credited, while the debit was overwritten. -/
  unpaid : Nat := 0
  /-- Debited, while the credit was overwritten or wrapped away. -/
  lost : Nat := 0

namespace Books

/-- The books of a table, before anything is posted. -/
def opening (t : Accounts) : Books := { balance := Table.weight lamportsOf t }

/-- Post a move of `n` from `k₀` to `k₁`, `rest` being the keys listed after these two. -/
def move (b : Books) (n : Nat) (k₀ k₁ : Pubkey) (rest : List Pubkey) : Books where
  balance k :=
    if k ∈ rest then b.balance k
    else if k = k₁ then (b.balance k₁ + n) % 2 ^ 64
    else if k = k₀ then b.balance k₀ - n
    else b.balance k
  unpaid := b.unpaid + if k₀ ∈ k₁ :: rest then n else 0
  lost := b.lost +
    if k₁ ∈ rest then n else if b.balance k₁ + n < 2 ^ 64 then 0 else 2 ^ 64

/-- The balance of the first account an instruction lists. -/
def held (b : Books) (instr : Instruction) : Nat :=
  ((instr.accounts[0]?).map fun am => b.balance am.pubkey).getD 0

/-- Post an instruction. -/
def post (b : Books) (instr : Instruction) : Books :=
  match amountMoved instr.programId instr.data (b.held instr), instr.accounts.map (·.pubkey) with
  | some n, k₀ :: k₁ :: rest => b.move n k₀ k₁ rest
  | _, _ => b

end Books

/-! ## The balances a program is given and gives back -/

theorem accountAt_view (t : Accounts) (programId : Pubkey) (am : AccountMeta) :
    balanceOf (accountAt t programId am) =
      (am.pubkey, Table.weight lamportsOf t am.pubkey) := by
  unfold accountAt Table.weight
  cases t.lookup am.pubkey with
  | some stored => rfl
  | none => rfl

theorem accountsOf_view (t : Accounts) (instr : Instruction) :
    (accountsOf t instr).map balanceOf =
      Table.standing lamportsOf t (instr.accounts.map (·.pubkey)) := by
  unfold accountsOf Table.standing
  rw [List.map_map, List.map_map]
  exact List.map_congr_left fun am _ => accountAt_view t instr.programId am

theorem firstHeld_accountsOf {t : Accounts} {b : Books} (instr : Instruction)
    (hb : b.balance = Table.weight lamportsOf t) :
    firstHeld (accountsOf t instr) = b.held instr := by
  unfold firstHeld Books.held accountsOf
  rw [List.getElem?_map, Option.map_map, hb]
  cases instr.accounts[0]? with
  | none => rfl
  | some am => exact congrArg Prod.snd (accountAt_view t instr.programId am)

theorem weights_entries (updated : List AccountInfo) :
    Table.weights lamportsOf (entries updated) = updated.map balanceOf := by
  unfold Table.weights entries
  rw [List.map_map]
  rfl

theorem drained_view (a : AccountInfo) : balanceOf (drained a) = balanceOf a := by
  obtain ⟨data, hdata⟩ := drained_eq a
  rw [hdata]
  rfl

theorem kept_same (mode : Mode) (instr : Instruction) (updated : List AccountInfo) :
    lamportFrame.Same updated (kept mode instr updated) := by
  unfold kept
  split
  · unfold Frame.Same
    rw [List.map_map]
    exact List.map_congr_left fun a _ => drained_view a
  · rfl

/-- What comes out of a built-in settles as its instruction says. -/
theorem output_settles {ex : Executor} {mode : Mode} {tx : RuntimeTransaction}
    {instr : Instruction} {accounts updated : List AccountInfo}
    (hbuiltin : isBuiltin instr.programId = true)
    (h : output ex mode tx instr accounts = some updated) :
    Settles (amountMoved instr.programId instr.data (firstHeld accounts)) accounts updated := by
  unfold output executeProgram at h
  rw [if_pos hbuiltin] at h
  split at h
  · rename_i t hexec
    obtain ⟨s', hret, -⟩ := executeNative_eq_ok hexec
    simp only [Option.some.injEq] at h
    subst h
    exact (dispatch_settles _ _ _ _ _ _ _ _ _ hret).trans (kept_same mode instr _)
  · simp at h

theorem balance_lt (t : Accounts) (k : Pubkey) : Table.weight lamportsOf t k < 2 ^ 64 := by
  unfold Table.weight
  cases t.lookup k with
  | none => exact Nat.two_pow_pos 64
  | some stored => exact stored.lamports.toNat_lt

/-! ## Posting a write -/

section
variable {t : Accounts} {es : List (Pubkey × StoredAccount)} {b : Books} {k₀ k₁ : Pubkey}
  {rest : List Pubkey} {n a' : Nat}

theorem balance_moved (hb : b.balance = Table.weight lamportsOf t)
    (hes : Table.weights lamportsOf es = (k₀, a') ::
      (k₁, (Table.weight lamportsOf t k₁ + n) % 2 ^ 64) :: Table.standing lamportsOf t rest)
    (hsub : a' + n = Table.weight lamportsOf t k₀) :
    (b.move n k₀ k₁ rest).balance = Table.weight lamportsOf (t.write es) := by
  funext k
  rw [Table.weight_write_pair hes]
  unfold Books.move
  rw [hb, show a' = Table.weight lamportsOf t k₀ - n by omega]

theorem total_moved (hb : b.balance = Table.weight lamportsOf t)
    (hes : Table.weights lamportsOf es = (k₀, a') ::
      (k₁, (Table.weight lamportsOf t k₁ + n) % 2 ^ 64) :: Table.standing lamportsOf t rest)
    (hsub : a' + n = Table.weight lamportsOf t k₀) :
    totalLamports (t.write es) + (b.move n k₀ k₁ rest).lost + b.unpaid =
      totalLamports t + (b.move n k₀ k₁ rest).unpaid + b.lost := by
  have htotal := Table.total_write_pair hes
  have hlt₀ := balance_lt t k₀
  have hlt₁ := balance_lt t k₁
  unfold totalLamports Books.move
  rw [hb]
  by_cases h₀ : k₀ ∈ k₁ :: rest <;> by_cases h₁ : k₁ ∈ rest
  all_goals simp only [h₀, h₁, if_true, if_false] at htotal ⊢
  · omega
  · split <;> omega
  · omega
  · split <;> omega

/-- The simulation, one instruction. -/
theorem tableStep_books {ex : Executor} {tx : RuntimeTransaction} {t' : Accounts}
    {instr : Instruction} (hbuiltin : isBuiltin instr.programId = true)
    (hb : b.balance = Table.weight lamportsOf t)
    (h : tableStep ex .commit tx t instr = some t') :
    (b.post instr).balance = Table.weight lamportsOf t' ∧
      totalLamports t' + (b.post instr).lost + b.unpaid =
        totalLamports t + (b.post instr).unpaid + b.lost := by
  unfold tableStep at h
  split at h
  · obtain ⟨updated, hout, rfl⟩ := Option.map_eq_some_iff.mp h
    have hsettles := output_settles hbuiltin hout
    rw [firstHeld_accountsOf instr hb] at hsettles
    unfold Books.post
    cases hamount : amountMoved instr.programId instr.data (b.held instr) with
    | none =>
      rw [hamount] at hsettles
      have hes : Table.weights lamportsOf (entries updated) =
          Table.standing lamportsOf t (instr.accounts.map (·.pubkey)) := by
        rw [weights_entries, ← accountsOf_view]
        exact hsettles
      refine ⟨hb.trans (funext fun k => (Table.weight_write_standing hes).symm), ?_⟩
      rw [totalLamports, totalLamports, Table.total_write_standing hes]
      exact Nat.add_right_comm _ _ _
    | some n =>
      rw [hamount] at hsettles
      obtain ⟨k₀, k₁, a, a', c, c', tail, hin, hupd, hsub, hadd⟩ := hsettles
      rw [accountsOf_view] at hin
      cases hkeys : instr.accounts.map (·.pubkey) with
      | nil => simp [hkeys, Table.standing] at hin
      | cons k keys =>
        cases keys with
        | nil => simp [hkeys, Table.standing] at hin
        | cons k' rest =>
          rw [hkeys] at hin
          simp only [Table.standing, List.map_cons, List.cons.injEq, Prod.mk.injEq] at hin
          obtain ⟨⟨rfl, rfl⟩, ⟨rfl, rfl⟩, rfl⟩ := hin
          rw [hadd, ← weights_entries] at hupd
          exact ⟨balance_moved hb hupd hsub, total_moved hb hupd hsub⟩
  · simp at h

end

/-- **The books are right.** -/
theorem apply_books {ex : Executor} {w : World} {tx : RuntimeTransaction}
    (hbuiltin : ∀ instr ∈ tx.message.instructions, isBuiltin instr.programId = true)
    (hok : (ex.apply w tx .commit).1 = .ok ()) :
    totalLamports (ex.apply w tx .commit).2.state.accounts +
        (tx.message.instructions.foldl Books.post (.opening w.state.accounts)).lost =
      totalLamports w.state.accounts +
        (tx.message.instructions.foldl Books.post (.opening w.state.accounts)).unpaid := by
  have hsim : ∀ t instr t' (b : Books), isBuiltin instr.programId = true →
      (b.balance = Table.weight lamportsOf t ∧
        totalLamports t + b.lost = totalLamports w.state.accounts + b.unpaid) →
      tableStep ex .commit tx t instr = some t' →
      ((b.post instr).balance = Table.weight lamportsOf t' ∧
        totalLamports t' + (b.post instr).lost =
          totalLamports w.state.accounts + (b.post instr).unpaid) := by
    rintro t instr t' b hinstr ⟨hb, hbooks⟩ hstep
    obtain ⟨hb', hstep'⟩ := tableStep_books hinstr hb hstep
    exact ⟨hb', by omega⟩
  exact (run_simulates hsim (Meets.of_forall hbuiltin) ⟨rfl, rfl⟩ (apply_commit_run hok)).2

/-- **Lamports are conserved exactly where the books balance.** For every table and every
    transaction of built-in instructions that commits: the total is the same after as before if and
    only if the lamports whose debit was overwritten add up to those whose credit was. The books
    are posted from the stored balances and the transaction alone. -/
theorem lamports_conserved_iff (ex : Executor) (w : World) (tx : RuntimeTransaction)
    (hbuiltin : ∀ instr ∈ tx.message.instructions, isBuiltin instr.programId = true)
    (hok : (ex.apply w tx .commit).1 = .ok ()) :
    totalLamports (ex.apply w tx .commit).2.state.accounts = totalLamports w.state.accounts ↔
      (tx.message.instructions.foldl Books.post (.opening w.state.accounts)).unpaid =
        (tx.message.instructions.foldl Books.post (.opening w.state.accounts)).lost := by
  have hbooks := apply_books hbuiltin hok
  omega

/-- A transfer of 250 to an account that may be listed as the sender itself. -/
def transferTo (dest : AccountMeta) : RuntimeTransaction :=
  signedBy [.repeated 1] [.withArgs ProgramIds.systemProgram
    [.writable (.repeated 1) true, dest] (System.SystemInstruction.transfer 250)]

/-- Its commit on a node where the sender holds 1000. -/
def commitTo (dest : AccountMeta) : Except ExecFault Unit × Running :=
  Executor.apply (.bare .dev) (.funded [(.repeated 1, 1000)]) (transferTo dest) .commit

theorem lamports_conserved_transfer :
    (commitTo (.writable (.repeated 2) false)).1 = .ok () ∧
      totalLamports (commitTo (.writable (.repeated 2) false)).2.state.accounts =
        totalLamports (World.funded [(.repeated 1, 1000)]).state.accounts := by
  have hok : (commitTo (.writable (.repeated 2) false)).1 = .ok () := by decide +kernel
  refine ⟨hok, ?_⟩
  unfold commitTo at hok ⊢
  exact (lamports_conserved_iff _ _ _ (by decide) hok).mpr (by decide)

/-- Sent to its own sender through a read-only slot, it commits and makes 250 lamports. -/
theorem self_transfer_inflates :
    (commitTo (.readonly (.repeated 1) false)).1 = .ok () ∧
      (∀ instr ∈ (transferTo (.readonly (.repeated 1) false)).message.instructions,
        isBuiltin instr.programId = true) ∧
      totalLamports (World.funded [(.repeated 1, 1000)]).state.accounts = 1000 ∧
      totalLamports (commitTo (.readonly (.repeated 1) false)).2.state.accounts = 1250 := by
  refine ⟨?_, ?_, ?_, ?_⟩
  · decide +kernel
  · decide
  · decide
  · decide +kernel

end Proof
end Himsha
