import Himsha.Lib.Encodes
import Himsha.Proof.Records

/-!
# Programs that keep one record

A program that reads and writes the first of its accounts only. The state of a run is what is
stored there; everything else, the flags of the accounts included, comes with each call.
-/

set_option autoImplicit false

namespace Himsha
namespace Proof

open Himsha.Lib Himsha.Runtime

/-- A call of a program on the record that it keeps in the first of its accounts. The data of
    that account is the state; everything else comes with the call. -/
structure RecordCall where
  account : AccountInfo
  others : List AccountInfo
  data : List UInt8
  timestamp : UInt64 := 0

/-- The accounts of the call when it comes. -/
def RecordCall.accounts (c : RecordCall) (stored : List UInt8) : List AccountInfo :=
  { c.account with data := stored } :: c.others

/-- What is stored after a call that ended like this. A call that fails is undone. -/
def storedAfter (stored : List UInt8) : Outcome (List AccountInfo) → List UInt8
  | .ok (a :: _) => a.data
  | _ => stored

/-- What a call that succeeds in writing its first slot has stored. -/
theorem storedAfter_writes {α : Type} [Borsh α] {c : RecordCall} {stored : List UInt8}
    {mid : List AccountInfo} {a : AccountInfo} {rest : List AccountInfo} {v : α}
    (h : WritesFirst (c.accounts stored) mid a rest v) :
    { c.account with data := stored } = a ∧ toVec v = some (storedAfter stored (.ok mid)) := by
  obtain ⟨data, hdata, rfl⟩ := h.written
  have hgiven : { c.account with data := stored } = a ∧ c.others = rest := by
    simpa [RecordCall.accounts] using h.given
  exact ⟨hgiven.1, hdata⟩

/-! ## The first slot -/

section
variable {α : Type} [Borsh α] {a : AccountInfo} {rest mid : List AccountInfo} {v : α}

/-- What is loaded from the first slot. -/
theorem load_first (h : tryFromSlice a.data = some v) : load (a :: rest) 0 = .ok v := by
  change okOr .borshError (tryFromSlice a.data) = .ok v
  rw [h]
  rfl

theorem store_readonly (h : a.isWritable = false) : store (a :: rest) 0 v = fail .notWritable := by
  change (do let a' ← a.writeData v; return (a :: rest).set 0 a' : Outcome _) = _
  unfold AccountInfo.writeData
  rw [h]
  rfl

theorem store_unencodable (hw : a.isWritable = true) (h : ¬ Encodes v) :
    store (a :: rest) 0 v = fail .borshError := by
  have hnone : toVec v = none := by simpa [Encodes, toVec] using h
  change (do let a' ← a.writeData v; return (a :: rest).set 0 a' : Outcome _) = _
  unfold AccountInfo.writeData
  rw [if_pos hw, hnone]
  rfl

theorem store_encodable {data : List UInt8} (hw : a.isWritable = true) (h : toVec v = some data) :
    store (a :: rest) 0 v = .ok ({ a with data } :: rest) := by
  change (do let a' ← a.writeData v; return (a :: rest).set 0 a' : Outcome _) = _
  unfold AccountInfo.writeData
  rw [if_pos hw, h]
  rfl

/-- What is stored in the first slot. -/
theorem store_first_iff : store (a :: rest) 0 v = .ok mid ↔
    a.isWritable = true ∧ ∃ data, toVec v = some data ∧ mid = { a with data } :: rest := by
  constructor
  · intro h
    obtain ⟨b, data, hb, hw, hdata, rfl⟩ := store_eq_ok h
    obtain rfl : a = b := Option.some.inj hb
    exact ⟨hw, data, hdata, rfl⟩
  · rintro ⟨hw, data, hdata, rfl⟩
    exact store_encodable hw hdata

theorem load_first_iff :
    load (a :: rest) 0 = .ok v ↔ tryFromSlice a.data = some v :=
  ⟨fun h => by
    obtain ⟨b, hb, hdata⟩ := load_eq_ok h
    obtain rfl : a = b := Option.some.inj hb
    exact hdata, load_first⟩

theorem slot_iff {accounts : List AccountInfo} {i : Nat} :
    slot accounts i = .ok a ↔ accounts[i]? = some a :=
  orPanic_eq_ok

end

end Proof
end Himsha
