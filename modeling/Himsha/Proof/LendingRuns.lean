import Himsha.Proof.LendingMoves
import Himsha.Proof.RecordCalls
import Himsha.Proof.Settling

/-!
# Runs of the lending program on one collection

The state of a run is what is stored in the account of the collection. Calls come with everything
else, in any order and at any time; one that fails is undone. Between them the node drains the
queue, where it can.

`lending_step` reads a step off `lending_move`: it completes an instruction, or the collection is
what it was but for its queue.
-/

set_option autoImplicit false

namespace Himsha
namespace Proof

open Himsha.Lib Himsha.Runtime Himsha.Programs

open Lending

/-- What happens to a collection: a call of the program, in a process with some hasher, or the
    node that takes the settlements. -/
inductive LendingEvent where
  | call (hasher : Hasher) (c : RecordCall)
  | drain (account : AccountInfo)

/-- The timestamp of the block. -/
def LendingEvent.timestamp : LendingEvent → UInt64
  | .call _ c => c.timestamp
  | .drain _ => 0

/-- A key that signs. -/
def LendingEvent.SignedBy (stored : List UInt8) : LendingEvent → Pubkey → Prop
  | .call _ c, key => Proof.SignedBy (c.accounts stored) key
  | .drain _, _ => False

instance (stored : List UInt8) (e : LendingEvent) (key : Pubkey) :
    Decidable (e.SignedBy stored key) :=
  match e with
  | .call _ c => inferInstanceAs (Decidable (Proof.SignedBy (c.accounts stored) key))
  | .drain _ => isFalse id

variable (π : Profile)

/-- What is stored after an event. -/
def lendingNext (stored : List UInt8) : LendingEvent → List UInt8
  | .call hasher c =>
      storedAfter stored (process π hasher (c.accounts stored) c.data c.timestamp)
  | .drain account => (drained { account with data := stored }).data

/-- The instruction that an event completes. -/
def completed (stored : List UInt8) : LendingEvent → Option LendingInstruction
  | .call hasher c =>
      match process π hasher (c.accounts stored) c.data c.timestamp with
      | .ok _ => tryFromSlice c.data
      | .error _ => none
  | .drain _ => none

variable {π}

section
variable {stored : List UInt8} {e : LendingEvent} {ix : LendingInstruction}

/-- An event that completes no instruction leaves the collection as it is, but for its queue. -/
theorem completed_none (h : completed π stored e = none) : lendingNext π stored e = stored ∨
    ∃ coll, tryFromSlice stored = some coll ∧
      tryFromSlice (lendingNext π stored e) = some (takeSettlements coll).2 := by
  cases e with
  | call hasher c =>
    left
    dsimp only [completed, lendingNext] at h ⊢
    cases hprocess : process π hasher (c.accounts stored) c.data c.timestamp with
    | error e => rfl
    | ok mid =>
      -- It would have decoded its data.
      obtain ⟨ix, hix, -⟩ := bind_eq_ok.mp hprocess
      simp [hprocess, okOr_eq_ok.mp hix] at h
  | drain account =>
    unfold lendingNext drained
    dsimp only
    cases hcoll : tryFromSlice (α := CollectionAccount) stored with
    | none => exact .inl rfl
    | some coll =>
      dsimp only
      split
      · exact .inl rfl
      · cases hwrite : AccountInfo.writeData { account with data := stored }
            (takeSettlements coll).2 with
        | error e => exact .inl rfl
        | ok a =>
          obtain ⟨-, data, hdata, rfl⟩ := writeData_eq_ok hwrite
          exact .inr ⟨coll, rfl, tryFromSlice_toVec hdata⟩

/-- An event that completes an instruction is a call of it, signed in the second slot. -/
theorem completed_some (h : completed π stored e = some ix) :
    ∃ hasher c s coll', e = .call hasher c ∧ c.account.isWritable = true ∧
      c.others.head? = some s ∧ s.isSigner = true ∧
      LendingMove π hasher c.timestamp (tryFromSlice stored) coll' ix ∧
      tryFromSlice (lendingNext π stored e) = some coll' := by
  cases e with
  | drain account => simp [completed] at h
  | call hasher c =>
    dsimp only [completed] at h
    cases hprocess : process π hasher (c.accounts stored) c.data c.timestamp with
    | error e => simp [hprocess] at h
    | ok mid =>
      rw [hprocess] at h
      dsimp only at h
      obtain ⟨ix', hix, h₁⟩ := bind_eq_ok.mp hprocess
      obtain ⟨_, hsigner, h₂⟩ := bind_eq_ok.mp h₁
      rw [okOr_eq_ok.mp hix, Option.some.injEq] at h
      subst h
      obtain ⟨a, rest, coll', hwrites, hw, hmove⟩ := lending_move h₂
      obtain ⟨rfl, hdata⟩ := storedAfter_writes hwrites
      have hnext : lendingNext π stored (.call hasher c) = storedAfter stored (.ok mid) := by
        rw [← hprocess]
        rfl
      cases hothers : c.others with
      | nil => simp [RecordCall.accounts, hothers] at hsigner
      | cons s others =>
        refine ⟨hasher, c, s, coll', rfl, hw, by simp [hothers], ?_, hmove, ?_⟩
        · simpa [RecordCall.accounts, hothers] using hsigner
        · rw [hnext, tryFromSlice_toVec hdata]

end

end Proof
end Himsha
