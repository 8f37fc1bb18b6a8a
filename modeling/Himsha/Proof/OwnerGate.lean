import Himsha.Vm.Executor

/-!
# The owner gate

`Gated` lists the ways through `validateWrite` and the trail each of them leaves. Four of them rest
on the account and the program alone, which is what `Direct` says; the fifth repeats a state that
was approved before under the same key.

A deployed program starts from an empty trail and returns the keys it was given, so where no key is
listed twice only the four are left. They judge one account at a time and nothing compares totals:
a program can take lamports from its own accounts only, but it can add them anywhere.
-/

set_option autoImplicit false

namespace Himsha
namespace Proof

open Himsha.Lib Himsha.Runtime Himsha.Vm

/-! ## One slot -/

/-- The trail with one more state in it. -/
def approve (th : Thread) (a : AccountInfo) : Thread :=
  { th with approved := th.approved.insert a.key a }

/-- What a program may do to an account without another one's approval. -/
def Direct (programId : Pubkey) (pre post : AccountInfo) : Prop :=
  pre.owner = programId ∨ creditOnly pre post = true ∨ isBlank pre = true

instance (programId : Pubkey) (pre post : AccountInfo) : Decidable (Direct programId pre post) :=
  inferInstanceAs (Decidable (_ ∨ _ ∨ _))

/-- A blank account goes to its first writer, unless that one assigned it elsewhere. -/
def claimed (programId : Pubkey) (pre post : AccountInfo) : AccountInfo :=
  if post.owner == pre.owner then { post with owner := programId } else post

/-- The ways through the gate: the state that is left and the trail after it. -/
inductive Gated (programId : Pubkey) (pre post : AccountInfo) (th : Thread) :
    AccountInfo → Thread → Prop
  | unchanged (hsame : sameState pre post = true) : Gated programId pre post th post th
  | owned (hchanged : sameState pre post = false) (hown : pre.owner = programId) :
      Gated programId pre post th post (approve th post)
  | credited (hchanged : sameState pre post = false) (hcredit : creditOnly pre post = true) :
      Gated programId pre post th post (approve th post)
  | first (hchanged : sameState pre post = false) (hblank : isBlank pre = true) :
      Gated programId pre post th (claimed programId pre post)
        (approve th (claimed programId pre post))
  | again {a : AccountInfo} (hforeign : ¬ Direct programId pre post)
      (hlook : th.approved.lookup post.key = some a) (hsame : sameState a post = true) :
      Gated programId pre post th post th

theorem claimed_key (programId : Pubkey) (pre post : AccountInfo) :
    (claimed programId pre post).key = post.key := by
  unfold claimed
  split <;> rfl

theorem returns_record {post : AccountInfo} {th th' : Thread} {u : Unit} :
    Comp.Returns (record post) th u th' ↔ th' = approve th post :=
  Comp.returns_modify

@[simp] theorem sameState_refl (a : AccountInfo) : sameState a a = true := by simp [sameState]

theorem creditOnly_of_sameState {pre post : AccountInfo} (h : sameState pre post = true) :
    creditOnly pre post = true := by
  simp only [sameState, Bool.and_eq_true, beq_iff_eq] at h
  obtain ⟨⟨⟨⟨hlamports, hdata⟩, howner⟩, hexec⟩, hutxo⟩ := h
  simp [creditOnly, hlamports, hdata, howner, hexec, hutxo]

section
variable {programId : Pubkey} {pre post out : AccountInfo} {th th' : Thread}

theorem not_direct (hown : ¬ (pre.owner == programId) = true)
    (hcredit : ¬ creditOnly pre post = true) (hblank : ¬ isBlank pre = true) :
    ¬ Direct programId pre post := by
  rintro (h | h | h)
  · exact hown (by simpa using h)
  · exact hcredit h
  · exact hblank h

/-- **Inversion of the gate.** -/
theorem validateWrite_gated (h : Comp.Returns (validateWrite programId pre post) th out th') :
    Gated programId pre post th out th' := by
  unfold validateWrite at h
  split at h
  · rename_i hsame
    obtain ⟨rfl, rfl⟩ := Comp.returns_pure.mp h
    exact .unchanged hsame
  rename_i hsame
  have hchanged : sameState pre post = false := Bool.eq_false_iff.mpr hsame
  split at h
  · rename_i hown
    obtain ⟨_, _, hrec, hret⟩ := Comp.returns_bind.mp h
    obtain ⟨rfl, rfl⟩ := Comp.returns_pure.mp hret
    rw [returns_record.mp hrec]
    exact .owned hchanged (by simpa using hown)
  split at h
  · rename_i hcredit
    obtain ⟨_, _, hrec, hret⟩ := Comp.returns_bind.mp h
    obtain ⟨rfl, rfl⟩ := Comp.returns_pure.mp hret
    rw [returns_record.mp hrec]
    exact .credited hchanged hcredit
  split at h
  · rename_i hblank
    obtain ⟨_, _, hrec, hret⟩ := Comp.returns_bind.mp h
    obtain ⟨rfl, rfl⟩ := Comp.returns_pure.mp hret
    rw [returns_record.mp hrec]
    exact .first hchanged hblank
  · rename_i hown hcredit hblank
    obtain ⟨_, _, hget, hrest⟩ := Comp.returns_bind.mp h
    obtain ⟨rfl, rfl⟩ := Comp.returns_get.mp hget
    split at hrest
    · rename_i a hlook
      split at hrest
      · rename_i hsame
        obtain ⟨rfl, rfl⟩ := Comp.returns_pure.mp hrest
        exact .again (not_direct hown hcredit hblank) hlook hsame
      · exact absurd hrest Comp.returns_throw
    · exact absurd hrest Comp.returns_throw

/-- What a program may do on its own passes, whatever the trail. -/
theorem validateWrite_direct (h : Direct programId pre post) (th : Thread) :
    ∃ out th', Comp.Returns (validateWrite programId pre post) th out th' := by
  have hrecord : ∀ a : AccountInfo, ∃ out th',
      Comp.Returns (record a >>= fun _ => pure a : Prog AccountInfo) th out th' := fun a =>
    ⟨a, approve th a, Comp.returns_bind.mpr ⟨(), approve th a, returns_record.mpr rfl, rfl⟩⟩
  unfold validateWrite
  split
  · exact ⟨post, th, rfl⟩
  split
  · exact hrecord post
  split
  · exact hrecord post
  split
  · exact hrecord _
  · rename_i hown hcredit hblank
    exact absurd h (not_direct hown hcredit hblank)

namespace Gated

theorem key (h : Gated programId pre post th out th') : out.key = post.key := by
  cases h with
  | first hchanged hblank => exact claimed_key programId pre post
  | _ => rfl

theorem lamports (h : Gated programId pre post th out th') : out.lamports = post.lamports := by
  cases h with
  | first hchanged hblank =>
    unfold claimed
    split <;> rfl
  | _ => rfl

theorem data (h : Gated programId pre post th out th') : out.data = post.data := by
  cases h with
  | first hchanged hblank =>
    unfold claimed
    split <;> rfl
  | _ => rfl

/-- The trail grows by the key of the slot at most. -/
theorem approved (h : Gated programId pre post th out th') :
    ∀ k ∈ th'.approved, k = post.key ∨ k ∈ th.approved := by
  intro k hk
  have hinsert : ∀ {a : AccountInfo}, a.key = post.key → k ∈ (approve th a).approved →
      k = post.key ∨ k ∈ th.approved := by
    intro a ha hk
    rw [approve, Finmap.mem_insert, ha] at hk
    exact hk
  cases h with
  | unchanged hsame => exact .inr hk
  | owned hchanged hown => exact hinsert rfl hk
  | credited hchanged hcredit => exact hinsert rfl hk
  | first hchanged hblank => exact hinsert (claimed_key programId pre post) hk
  | again hforeign hlook hsame => exact .inr hk

/-- Where nothing was approved under the key before, the program had the right itself. -/
theorem direct (h : Gated programId pre post th out th') (hfresh : post.key ∉ th.approved) :
    Direct programId pre post := by
  cases h with
  | unchanged hsame => exact .inr (.inl (creditOnly_of_sameState hsame))
  | owned hchanged hown => exact .inl hown
  | credited hchanged hcredit => exact .inr (.inl hcredit)
  | first hchanged hblank => exact .inr (.inr hblank)
  | again hforeign hlook hsame => exact absurd (Finmap.mem_of_lookup_eq_some hlook) hfresh

end Gated

/-- Only the owner takes lamports out of an account. -/
theorem Direct.lamports_le (h : Direct programId pre post) (hforeign : pre.owner ≠ programId) :
    pre.lamports ≤ post.lamports := by
  rcases h with hown | hcredit | hblank
  · exact absurd hown hforeign
  · simp only [creditOnly, Bool.and_eq_true, decide_eq_true_eq] at hcredit
    exact hcredit.1.1.1.1
  · simp only [isBlank, Bool.and_eq_true, beq_iff_eq] at hblank
    rw [hblank.1.1.1]
    exact UInt64.zero_le

end

/-- A slot that was not touched passes as it is. -/
theorem validateWrite_untouched {programId : Pubkey} {a out : AccountInfo} {th th' : Thread}
    (h : Comp.Returns (validateWrite programId a a) th out th') : out = a := by
  unfold validateWrite at h
  rw [if_pos (sameState_refl _)] at h
  exact (Comp.returns_pure.mp h).1

/-! ## A table -/

/-- The loop of the gate. -/
def gate (programId : Pubkey) (before after : List AccountInfo) : Prog (List AccountInfo) :=
  (before.zip after).mapM fun p => validateWrite programId p.1 p.2

theorem gate_cons {programId : Pubkey} {pre post : AccountInfo} {before after out :
    List AccountInfo} {th th' : Thread} :
    Comp.Returns (gate programId (pre :: before) (post :: after)) th out th' ↔
      ∃ o th₁ os, Comp.Returns (validateWrite programId pre post) th o th₁ ∧
        Comp.Returns (gate programId before after) th₁ os th' ∧ out = o :: os := by
  unfold gate
  rw [List.zip_cons_cons, List.mapM_cons, Comp.returns_bind]
  constructor
  · rintro ⟨o, th₁, hhead, h⟩
    obtain ⟨os, _, htail, hret⟩ := Comp.returns_bind.mp h
    obtain ⟨rfl, rfl⟩ := Comp.returns_pure.mp hret
    exact ⟨o, th₁, os, hhead, htail, rfl⟩
  · rintro ⟨o, th₁, os, hhead, htail, rfl⟩
    exact ⟨o, th₁, hhead, Comp.returns_bind.mpr ⟨os, th', htail, rfl⟩⟩

theorem validateWrites_returns {programId : Pubkey} {before after out : List AccountInfo}
    {th th' : Thread} :
    Comp.Returns (validateWrites programId before after) th out th' ↔
      before.length = after.length ∧ Comp.Returns (gate programId before after) th out th' := by
  unfold validateWrites gate
  rw [Comp.returns_bind]
  constructor
  · rintro ⟨_, _, hensure, h⟩
    obtain ⟨hlen, rfl⟩ := Comp.returns_ensure.mp hensure
    exact ⟨by simpa using hlen, h⟩
  · rintro ⟨hlen, h⟩
    exact ⟨(), th, Comp.returns_ensure.mpr ⟨by simpa using hlen, rfl⟩, h⟩

theorem gate_untouched {programId : Pubkey} {accounts : List AccountInfo} :
    ∀ {out : List AccountInfo} {th th' : Thread},
      Comp.Returns (gate programId accounts accounts) th out th' → out = accounts := by
  induction accounts with
  | nil =>
    intro out th th' h
    exact (Comp.returns_pure.mp h).1
  | cons a rest ih =>
    intro out th th' h
    obtain ⟨o, th₁, os, hhead, htail, rfl⟩ := gate_cons.mp h
    rw [validateWrite_untouched hhead, ih htail]

/-- The gate lets data through as it is. -/
theorem gate_data {programId : Pubkey} {before : List AccountInfo} :
    ∀ {after out : List AccountInfo} {th th' : Thread}, before.length = after.length →
      Comp.Returns (gate programId before after) th out th' →
      out.map (·.data) = after.map (·.data) := by
  induction before with
  | nil =>
    intro after out th th' hlen h
    obtain rfl : after = [] := List.length_eq_zero_iff.mp hlen.symm
    obtain ⟨rfl, -⟩ := Comp.returns_pure.mp h
    rfl
  | cons pre before ih =>
    intro after out th th' hlen h
    cases after with
    | nil => simp at hlen
    | cons post after =>
      obtain ⟨o, th₁, os, hhead, htail, rfl⟩ := gate_cons.mp h
      rw [List.map_cons, List.map_cons, (validateWrite_gated hhead).data,
        ih (by simpa using hlen) htail]

/-- What a program may do on its own passes slot by slot. -/
theorem gate_of_direct {programId : Pubkey} {before after : List AccountInfo}
    (h : List.Forall₂ (Direct programId) before after) :
    ∀ th, ∃ out th', Comp.Returns (gate programId before after) th out th' := by
  induction h with
  | nil => exact fun th => ⟨[], th, rfl⟩
  | cons hdirect _ ih =>
    intro th
    obtain ⟨o, th₁, hhead⟩ := validateWrite_direct hdirect th
    obtain ⟨os, th', htail⟩ := ih th₁
    exact ⟨o :: os, th', gate_cons.mpr ⟨o, th₁, os, hhead, htail, rfl⟩⟩

/-- The accounts a program does not own hold no less than before. -/
def SparesOthers (programId : Pubkey) (before after : List AccountInfo) : Prop :=
  List.Forall₂ (fun pre post => pre.owner ≠ programId → pre.lamports ≤ post.lamports) before after

/-- With distinct keys, none of them approved before, nothing else passes. -/
theorem direct_of_gate {programId : Pubkey} {before : List AccountInfo} :
    ∀ {after out : List AccountInfo} {th th' : Thread}, before.length = after.length →
      (after.map (·.key)).Nodup → (∀ a ∈ after, a.key ∉ th.approved) →
      Comp.Returns (gate programId before after) th out th' →
      List.Forall₂ (Direct programId) before after ∧ SparesOthers programId before out := by
  induction before with
  | nil =>
    intro after out th th' hlen hnodup hfresh h
    obtain rfl : after = [] := List.length_eq_zero_iff.mp hlen.symm
    obtain ⟨rfl, -⟩ := Comp.returns_pure.mp h
    exact ⟨.nil, .nil⟩
  | cons pre before ih =>
    intro after out th th' hlen hnodup hfresh h
    cases after with
    | nil => simp at hlen
    | cons post after =>
      obtain ⟨o, th₁, os, hhead, htail, rfl⟩ := gate_cons.mp h
      have hgated := validateWrite_gated hhead
      rw [List.map_cons, List.nodup_cons] at hnodup
      have hfresh₁ : ∀ a ∈ after, a.key ∉ th₁.approved := by
        intro a ha hmem
        rcases hgated.approved _ hmem with hkey | hold
        · exact hnodup.1 (hkey ▸ List.mem_map_of_mem ha)
        · exact hfresh a (List.mem_cons_of_mem _ ha) hold
      obtain ⟨hrest, hspares⟩ := ih (by simpa using hlen) hnodup.2 hfresh₁ htail
      have hslot := hgated.direct (hfresh post List.mem_cons_self)
      refine ⟨.cons hslot hrest, .cons (fun hforeign => ?_) hspares⟩
      rw [hgated.lamports]
      exact hslot.lamports_le hforeign

/-! ## Deployed programs -/

/-- The lamports of a table. -/
def tableLamports (accounts : List AccountInfo) : Nat := (accounts.map (·.lamports.toNat)).sum

/-- The lamports that `accounts` hold where `before` is owned by `programId`. -/
def ownLamports (programId : Pubkey) (before accounts : List AccountInfo) : Nat :=
  tableLamports (((before.zip accounts).filter fun p => p.1.owner == programId).map (·.2))

/-- What was added to the accounts that `programId` does not own. -/
def credits (programId : Pubkey) (before after : List AccountInfo) : Nat :=
  (((before.zip after).filter fun p => !(p.1.owner == programId)).map fun p =>
    p.2.lamports.toNat - p.1.lamports.toNat).sum

/-- Where nothing is taken from others, the total moves by the credits and by what the program
    does to its own accounts. -/
theorem SparesOthers.ledger {programId : Pubkey} {before after : List AccountInfo}
    (h : SparesOthers programId before after) :
    tableLamports after + ownLamports programId before before =
      tableLamports before + credits programId before after +
        ownLamports programId before after := by
  induction h with
  | nil => rfl
  | @cons pre post before after hslot _ ih =>
    unfold tableLamports ownLamports credits tableLamports at ih ⊢
    rw [List.zip_cons_cons, List.zip_cons_cons, List.filter_cons, List.filter_cons,
      List.filter_cons]
    by_cases hown : pre.owner = programId
    · simp only [hown, BEq.rfl, if_true, Bool.not_true, Bool.false_eq_true, if_false,
        List.map_cons, List.sum_cons]
      omega
    · have hle : pre.lamports.toNat ≤ post.lamports.toNat := UInt64.le_iff_toNat_le.mp (hslot hown)
      simp only [beq_eq_false_iff_ne.mpr hown, Bool.not_false, if_true, Bool.false_eq_true,
        if_false, List.map_cons, List.sum_cons]
      omega

/-- The gate of a deployed program, where no account is listed twice. -/
theorem ownerGate_eq_ok {programId : Pubkey} {before after : List AccountInfo}
    (hkeys : after.map (·.key) = before.map (·.key)) (hdistinct : (before.map (·.key)).Nodup) :
    ((∃ out, ownerGate programId before after = .ok out) ↔
      List.Forall₂ (Direct programId) before after) ∧
    ∀ out, ownerGate programId before after = .ok out → SparesOthers programId before out := by
  have hlen : before.length = after.length := by
    simpa using (congrArg List.length hkeys).symm
  have hreturns : ∀ out, ownerGate programId before after = .ok out ↔
      ∃ th', Comp.Returns (gate programId before after) {} out th' := by
    intro out
    have hexec : ownerGate programId before after =
      (Comp.exec (validateWrites programId before after) {}).1 := rfl
    rw [hexec]
    constructor
    · intro h
      refine ⟨(Comp.exec (validateWrites programId before after) {}).2, ?_⟩
      exact (validateWrites_returns.mp (by rw [Comp.Returns, ← h])).2
    · rintro ⟨th', h⟩
      rw [show _ = _ from validateWrites_returns.mpr ⟨hlen, h⟩]
  have hinv : ∀ out, ownerGate programId before after = .ok out →
      List.Forall₂ (Direct programId) before after ∧ SparesOthers programId before out := by
    intro out hout
    obtain ⟨th', h⟩ := (hreturns out).mp hout
    exact direct_of_gate hlen (hkeys ▸ hdistinct) (fun a _ => Finmap.notMem_empty) h
  refine ⟨⟨?_, ?_⟩, fun out hout => (hinv out hout).2⟩
  · rintro ⟨out, hout⟩
    exact (hinv out hout).1
  · intro h
    obtain ⟨out, th', hgate⟩ := gate_of_direct h {}
    exact ⟨out, (hreturns out).mpr ⟨th', hgate⟩⟩

/-- The prover's answer for a deployed program is checked twice: the keys, then the gate. -/
theorem execute_deployed {m : Machine} {programId : Pubkey} {input : ExecutionInput}
    {anchorUtxos : List UtxoMeta} {prog : RegisteredProgram} {updated out : List AccountInfo}
    {journal : List UInt8} (hdeployed : isBuiltin programId = false)
    (hprog : m.registry programId = some prog)
    (hprove : m.prove prog programId input = .ok (updated, journal)) :
    (∃ t, execute m programId input anchorUtxos = .ok t ∧ t.updatedAccounts = out) ↔
      updated.map (·.key) = input.accounts.map (·.key) ∧
        ownerGate programId input.accounts updated = .ok out := by
  unfold execute
  simp only [hprog, hprove, hdeployed, Bool.false_eq_true, if_false]
  by_cases hkeys : updated.map (·.key) = input.accounts.map (·.key)
  · rw [if_neg (not_not.mpr hkeys)]
    cases ownerGate programId input.accounts updated with
    | error fault => cases fault <;> simp
    | ok out' => simp [hkeys]
  · rw [if_pos hkeys]
    simp [hkeys]

/-- **What a deployed program can do to balances.** Its answer is accepted exactly where it gives
    back the accounts it was given and each change is an owner's, a credit or a first write. No
    account of another owner then holds less than before, and the total moves by the credits and by
    what the program writes into its own accounts: it does not grow exactly where the program pays
    the credits out of its own accounts, and nothing makes it. -/
theorem deployed_lamports {m : Machine} {programId : Pubkey} {input : ExecutionInput}
    {anchorUtxos : List UtxoMeta} {prog : RegisteredProgram} {updated : List AccountInfo}
    {journal : List UInt8} (hdeployed : isBuiltin programId = false)
    (hdistinct : (input.accounts.map (·.key)).Nodup) (hprog : m.registry programId = some prog)
    (hprove : m.prove prog programId input = .ok (updated, journal)) :
    ((∃ t, execute m programId input anchorUtxos = .ok t) ↔
      updated.map (·.key) = input.accounts.map (·.key) ∧
        List.Forall₂ (Direct programId) input.accounts updated) ∧
    ∀ t, execute m programId input anchorUtxos = .ok t →
      SparesOthers programId input.accounts t.updatedAccounts ∧
      tableLamports t.updatedAccounts + ownLamports programId input.accounts input.accounts =
        tableLamports input.accounts + credits programId input.accounts t.updatedAccounts +
          ownLamports programId input.accounts t.updatedAccounts ∧
      (tableLamports t.updatedAccounts ≤ tableLamports input.accounts ↔
        credits programId input.accounts t.updatedAccounts +
          ownLamports programId input.accounts t.updatedAccounts ≤
            ownLamports programId input.accounts input.accounts) := by
  have haccepted : ∀ out, (∃ t, execute m programId input anchorUtxos = .ok t ∧
      t.updatedAccounts = out) ↔ updated.map (·.key) = input.accounts.map (·.key) ∧
        ownerGate programId input.accounts updated = .ok out :=
    fun out => execute_deployed hdeployed hprog hprove
  refine ⟨⟨?_, ?_⟩, ?_⟩
  · rintro ⟨t, ht⟩
    obtain ⟨hkeys, hgate⟩ := (haccepted t.updatedAccounts).mp ⟨t, ht, rfl⟩
    exact ⟨hkeys, (ownerGate_eq_ok hkeys hdistinct).1.mp ⟨_, hgate⟩⟩
  · rintro ⟨hkeys, hdirect⟩
    obtain ⟨out, hgate⟩ := (ownerGate_eq_ok hkeys hdistinct).1.mpr hdirect
    obtain ⟨t, ht, -⟩ := (haccepted out).mpr ⟨hkeys, hgate⟩
    exact ⟨t, ht⟩
  · intro t ht
    obtain ⟨hkeys, hgate⟩ := (haccepted t.updatedAccounts).mp ⟨t, ht, rfl⟩
    have hspares := (ownerGate_eq_ok hkeys hdistinct).2 _ hgate
    have hledger := hspares.ledger
    refine ⟨hspares, hledger, ?_⟩
    constructor
    · intro hle
      omega
    · intro hpaid
      omega

/-- A machine with one deployed program, which gives back what `answer` makes of its accounts. -/
def deployedMachine (answer : List AccountInfo → List AccountInfo) : Machine where
  profile := .release
  hasher := Programs.Lending.Hasher.sorted
  registry programId :=
    if programId = .repeated 5 then some { elf := [], imageId := .zero 32 } else none
  prove _ _ input := .ok (answer input.accounts, [])

/-- An account of the program and one of somebody else. -/
def purse : ExecutionInput where
  accounts :=
    [{ key := .repeated 1, lamports := 10, data := [], owner := .repeated 5 },
      { key := .repeated 2, lamports := 3, data := [7], owner := .repeated 6 }]
  instructionData := []
  timestamp := 0

/-- The same accounts with these balances. -/
def rebalanced (balances : List UInt64) (accounts : List AccountInfo) : List AccountInfo :=
  List.zipWith (fun a lamports => { a with lamports }) accounts balances

/-- The program pays the other account from its own. -/
theorem deployed_lamports_payment :
    (∃ t, execute (deployedMachine (rebalanced [6, 7])) (.repeated 5) purse [] = .ok t) ∧
    ∀ t, execute (deployedMachine (rebalanced [6, 7])) (.repeated 5) purse [] = .ok t →
      SparesOthers (.repeated 5) purse.accounts t.updatedAccounts := by
  have hprog : (deployedMachine (rebalanced [6, 7])).registry (.repeated 5) =
      some { elf := [], imageId := .zero 32 } := rfl
  have hprove : (deployedMachine (rebalanced [6, 7])).prove { elf := [], imageId := .zero 32 }
      (.repeated 5) purse = .ok (rebalanced [6, 7] purse.accounts, []) := rfl
  obtain ⟨haccepted, hledger⟩ := deployed_lamports (by decide) (by decide) hprog hprove
  exact ⟨haccepted.mpr ⟨by decide, by decide⟩, fun t ht => (hledger t ht).1⟩

/-- **Lamports out of nothing.** A deployed program that raises the balance of its own account and
    credits another one is accepted. -/
theorem deployed_mints : ¬ ∀ (m : Machine) (programId : Pubkey) (input : ExecutionInput)
    (anchorUtxos : List UtxoMeta) (t : StateTransition), isBuiltin programId = false →
      (input.accounts.map (·.key)).Nodup →
      execute m programId input anchorUtxos = .ok t →
      tableLamports t.updatedAccounts ≤ tableLamports input.accounts := by
  intro hclaim
  have hmint : tableLamports (rebalanced [100, 50] purse.accounts) ≤
      tableLamports purse.accounts :=
    hclaim (deployedMachine (rebalanced [100, 50])) (.repeated 5) purse []
      { receipt :=
          { programId := .repeated 5
            imageId := .zero 32
            journalHash := sha256 []
            proofBytes := []
            verified := true }
        updatedAccounts := rebalanced [100, 50] purse.accounts
        newUtxos := []
        bitcoinTxid := none } (by decide) (by decide) rfl
  exact absurd hmint (by decide)

end Proof
end Himsha
