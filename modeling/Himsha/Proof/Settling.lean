import Himsha.Node.Follower
import Himsha.Proof.Overlay

/-!
# What draining a queue does

Draining is two things that know nothing of each other: calls of the clients, and a queue that is
emptied. The calls are decided by the directives and by what is configured, before any answer comes
back (`settleLending_effects`), and which of them pay by what they find (`Pays`); the queue is
emptied wherever the account can be written (`mem_queued_drained`), whatever was answered. Each
statement below is one way in which these two can come apart.
-/

set_option autoImplicit false

namespace Himsha
namespace Proof

open Himsha.Lib Himsha.Runtime Himsha.Programs Himsha.Vm Himsha.Node

/-- The directives queued in the data of an account; none where it is not a collection. -/
def queuedIn (data : List UInt8) : List Lending.Settlement :=
  match tryFromSlice (α := Lending.CollectionAccount) data with
  | none => []
  | some coll => coll.pendingSettlements

/-- The call that is made for a directive, if a client for it is configured. -/
def callFor (o : Outside) (s : Lending.Settlement) : Option Effect :=
  if s.kind = .repayment ∧ isInvoice s.recipient = true then
    if o.lightning then some (.payInvoice s.recipient) else none
  else if o.bitcoin then some (settlementCall o.custody s) else none

/-- The calls that are made for an account. -/
def callsFor (o : Outside) (a : AccountInfo) : List Effect := (queuedIn a.data).filterMap (callFor o)

/-- After these payments the directive is paid: the node has a client for it, Lightning for the
    invoice of a repayment and Bitcoin for everything else, and the call gets as far as what pays. -/
def Pays (o : Outside) (past : List Effect) (s : Lending.Settlement) : Prop :=
  ∃ call, callFor o s = some call ∧ o.sends past call = true

/-- `write_data` refuses the emptied collection, as it does where the account is read-only. -/
def Unclearable (a : AccountInfo) : Prop :=
  ∀ coll, tryFromSlice (α := Lending.CollectionAccount) a.data = some coll →
    ∀ a', a.writeData (Lending.takeSettlements coll).2 ≠ .ok a'

section
variable {o : Outside}

/-! ## What is paid -/

theorem paidAfter_append (past calls more : List Effect) :
    o.paidAfter past (calls ++ more) = o.paidAfter (o.paidAfter past calls) more :=
  List.foldl_append

theorem paid_append (calls more : List Effect) :
    o.paid (calls ++ more) = o.paidAfter (o.paid calls) more := paidAfter_append _ _ _

/-- What is paid stays paid. -/
theorem prefix_paidAfter (calls : List Effect) : ∀ past : List Effect,
    past <+: o.paidAfter past calls := by
  induction calls with
  | nil => exact fun past => List.prefix_rfl
  | cons call rest ih =>
    intro past
    change past <+: o.paidAfter (if o.sends past call then past ++ [call] else past) rest
    split
    · exact (List.prefix_append past [call]).trans (ih _)
    · exact ih past

/-- **Nothing more is paid exactly where none of the calls pays.** Of those that pay the first one
    does so after what was paid before them all. -/
theorem paidAfter_eq_self_iff {past calls : List Effect} :
    o.paidAfter past calls = past ↔ ∀ call ∈ calls, o.sends past call = false := by
  induction calls with
  | nil => exact iff_of_true rfl fun call hcall => absurd hcall List.not_mem_nil
  | cons call rest ih =>
    rw [List.forall_mem_cons]
    cases hsends : o.sends past call with
    | false =>
      have hskip : o.paidAfter past (call :: rest) = o.paidAfter past rest := by
        change o.paidAfter (if o.sends past call then past ++ [call] else past) rest = _
        rw [hsends, if_neg Bool.false_ne_true]
      rw [hskip, ih]
      exact ⟨fun h => ⟨rfl, h⟩, And.right⟩
    | true =>
      refine iff_of_false (fun hsame => ?_) fun h => Bool.noConfusion h.1
      have hpaid : o.paidAfter past (call :: rest) = o.paidAfter (past ++ [call]) rest := by
        change o.paidAfter (if o.sends past call then past ++ [call] else past) rest = _
        rw [hsends, if_pos rfl]
      have hlonger := (prefix_paidAfter (o := o) rest (past ++ [call])).length_le
      rw [← hpaid, hsame, List.length_append, List.length_singleton] at hlonger
      omega

theorem paidAfter_append_eq_self {past calls more : List Effect} :
    o.paidAfter past (calls ++ more) = past ↔
      o.paidAfter past calls = past ∧ o.paidAfter past more = past := by
  rw [paidAfter_eq_self_iff, paidAfter_eq_self_iff, paidAfter_eq_self_iff, List.forall_mem_append]

/-- The calls of an account pay nothing where none of its directives is paid. -/
theorem callsFor_quiet {past : List Effect} {a : AccountInfo} :
    (∀ call ∈ callsFor o a, o.sends past call = false) ↔
      ∀ s ∈ queuedIn a.data, ¬ Pays o past s := by
  unfold callsFor
  constructor
  · rintro h s hs ⟨call, hcall, hsends⟩
    rw [h call (List.mem_filterMap.mpr ⟨s, hs, hcall⟩)] at hsends
    exact Bool.noConfusion hsends
  · intro h call hcall
    obtain ⟨s, hs, hfor⟩ := List.mem_filterMap.mp hcall
    exact Bool.eq_false_iff.mpr fun hsends => h s hs ⟨call, hfor, hsends⟩

/-- The id of a queued output is always read; the rest of what a call on Bitcoin meets is outside. -/
theorem sends_settlementCall {past : List Effect} {s : Lending.Settlement} :
    o.sends past (settlementCall o.custody s) = true ↔ o.address s.recipient = true ∧
      (s.kind ≠ .repayment →
        ((o.txOut past (Lending.hexEncode s.utxo.txid.bytes) s.utxo.vout).bind
            (checkedSub · feeSats)).isSome = true ∧
          o.signs past (settlementCall o.custody s) = true) := by
  unfold settlementCall
  cases hkind : s.kind <;> cases o.custody <;>
    simp [Outside.sends, parseTxid_hexEncode, and_assoc]

/-! ## The calls -/

theorem settleOne_effects (txid : Blob 32) (w : World) (s : Lending.Settlement) :
    (settleOne o txid w s).effects = w.effects ++ (callFor o s).toList := by
  unfold settleOne callFor
  split
  · cases o.lightning <;> simp
  · cases o.bitcoin with
    | false => simp
    | true =>
      dsimp only
      rw [if_pos rfl, if_pos rfl]
      split <;> rfl

/-- Where nothing is paid, a call may be made, and nothing comes of it. -/
theorem settleOne_unpaid (txid : Blob 32) {w : World} {s : Lending.Settlement}
    (h : ¬ Pays o (o.paid w.effects) s) :
    (settleOne o txid w s).state = w.state ∧
      o.paid (settleOne o txid w s).effects = o.paid w.effects := by
  have hquiet : o.paidAfter (o.paid w.effects) (callFor o s).toList = o.paid w.effects := by
    refine paidAfter_eq_self_iff.mpr fun call hcall => Bool.eq_false_iff.mpr fun hsends => ?_
    exact h ⟨call, Option.mem_toList.mp hcall, hsends⟩
  refine ⟨?_, by rw [settleOne_effects, paid_append, hquiet]⟩
  unfold settleOne
  split
  · split <;> rfl
  · rename_i hchain
    split
    · rename_i hbitcoin
      have hnone : o.answer w.effects (settlementCall o.custody s) = none := by
        unfold Outside.answer
        refine if_neg fun hsends => h ⟨settlementCall o.custody s, ?_, hsends⟩
        rw [callFor, if_neg hchain, if_pos hbitcoin]
      dsimp only
      rw [hnone]
      rfl
    · rfl

theorem settleOnes_effects (txid : Blob 32) (ss : List Lending.Settlement) : ∀ w : World,
    (ss.foldl (settleOne o txid) w).effects = w.effects ++ ss.filterMap (callFor o) := by
  induction ss with
  | nil => simp
  | cons s rest ih =>
    intro w
    rw [List.foldl_cons, ih, settleOne_effects, List.filterMap_cons, List.append_assoc]
    cases callFor o s <;> rfl

theorem settleOnes_unpaid (txid : Blob 32) (ss : List Lending.Settlement) : ∀ {w : World},
    (∀ s ∈ ss, ¬ Pays o (o.paid w.effects) s) →
      (ss.foldl (settleOne o txid) w).state = w.state ∧
        o.paid (ss.foldl (settleOne o txid) w).effects = o.paid w.effects := by
  induction ss with
  | nil => exact fun _ => ⟨rfl, rfl⟩
  | cons s rest ih =>
    intro w h
    obtain ⟨hfirst, hrest⟩ := List.forall_mem_cons.mp h
    obtain ⟨hstate, hpaid⟩ := settleOne_unpaid txid hfirst
    obtain ⟨hstate', hpaid'⟩ := ih fun s' hs' => hpaid.symm ▸ hrest s' hs'
    exact ⟨hstate'.trans hstate, hpaid'.trans hpaid⟩

/-- Draining an account makes its calls one after the other, whether or not it can be
    written. -/
theorem settleAccount_world (txid : Blob 32) (w : World) (a : AccountInfo) :
    (settleAccount o txid w a).1 = (queuedIn a.data).foldl (settleOne o txid) w := by
  unfold settleAccount queuedIn
  cases tryFromSlice (α := Lending.CollectionAccount) a.data with
  | none => rfl
  | some coll =>
    dsimp only
    split
    · rename_i hempty
      rw [List.isEmpty_iff.mp hempty]
      rfl
    · cases a.writeData (Lending.takeSettlements coll).2 <;> rfl

/-- **The calls of a lending instruction are those of its accounts, in order.** -/
theorem settleLending_effects (txid : Blob 32) (accounts : List AccountInfo) : ∀ w : World,
    (settleLending o txid w accounts).1.effects = w.effects ++ accounts.flatMap (callsFor o) := by
  induction accounts with
  | nil => simp [settleLending]
  | cons a rest ih =>
    intro w
    change (settleLending o txid (settleAccount o txid w a).1 rest).1.effects = _
    rw [ih, settleAccount_world, settleOnes_effects, List.flatMap_cons, List.append_assoc]
    rfl

/-- A lending instruction none of whose directives is paid leaves the database as it is. -/
theorem settleLending_unpaid (txid : Blob 32) (accounts : List AccountInfo) : ∀ {w : World},
    (∀ a ∈ accounts, ∀ s ∈ queuedIn a.data, ¬ Pays o (o.paid w.effects) s) →
      (settleLending o txid w accounts).1.state = w.state := by
  induction accounts with
  | nil => exact fun _ => rfl
  | cons a rest ih =>
    intro w h
    obtain ⟨hfirst, hrest⟩ := List.forall_mem_cons.mp h
    obtain ⟨hstate, hpaid⟩ := settleOnes_unpaid txid (queuedIn a.data) hfirst
    rw [← settleAccount_world] at hstate hpaid
    change (settleLending o txid (settleAccount o txid w a).1 rest).1.state = w.state
    rw [ih fun b hb s hs => hpaid.symm ▸ hrest b hb s hs, hstate]

/-! ## The queue -/

/-- **What is left of a queue**: all of it where it cannot be cleared, else nothing. -/
theorem mem_queued_drained {a : AccountInfo} {s : Lending.Settlement} :
    s ∈ queuedIn (drained a).data ↔ s ∈ queuedIn a.data ∧ Unclearable a := by
  unfold drained Unclearable
  cases hcoll : tryFromSlice (α := Lending.CollectionAccount) a.data with
  | none => simp [queuedIn, hcoll]
  | some coll =>
    have hqueue : queuedIn a.data = coll.pendingSettlements := by simp [queuedIn, hcoll]
    dsimp only
    split
    · rename_i hempty
      rw [hqueue, List.isEmpty_iff.mp hempty]
      simp
    · cases hwrite : a.writeData (Lending.takeSettlements coll).2 with
      | error e => simp [hwrite]
      | ok a' =>
        -- It is written back, and read back empty.
        obtain ⟨-, data, hdata, rfl⟩ := writeData_eq_ok hwrite
        have hback : queuedIn data = [] := by
          rw [queuedIn, tryFromSlice_toVec hdata]
          rfl
        dsimp only
        rw [hback]
        simp [hwrite]

theorem drained_eq_self_iff {a : AccountInfo} :
    drained a = a ↔ queuedIn a.data = [] ∨ Unclearable a := by
  constructor
  · intro h
    by_cases hempty : queuedIn a.data = []
    · exact .inl hempty
    · obtain ⟨s, hs⟩ := List.exists_mem_of_ne_nil _ hempty
      rw [← h] at hs
      exact .inr (mem_queued_drained.mp hs).2
  · intro h
    unfold drained
    unfold queuedIn Unclearable at h
    cases hcoll : tryFromSlice (α := Lending.CollectionAccount) a.data with
    | none => rfl
    | some coll =>
      rw [hcoll] at h
      dsimp only at h ⊢
      split
      · rfl
      · rename_i hne
        rcases h with hempty | hstuck
        · exact absurd (List.isEmpty_iff.mpr hempty) hne
        · cases hwrite : a.writeData (Lending.takeSettlements coll).2 with
          | error e => rfl
          | ok a' => exact absurd hwrite (hstuck coll rfl a')

end

/-! ## Whose queues are drained -/

/-- Accounts of other owners stay as they are, and when one comes up nothing more is paid: what was
    paid after the accounts up to it is what was paid after those before it. -/
def SettlesOwned (o : Outside) (txid : Blob 32) (w : World) (accounts : List AccountInfo) : Prop :=
  (∀ (i : Nat) (a : AccountInfo), accounts[i]? = some a → a.owner ≠ ProgramIds.lendingProgram →
    (settleLending o txid w accounts).2[i]? = some a) ∧
  ∀ pre a post, accounts = pre ++ a :: post → a.owner ≠ ProgramIds.lendingProgram →
    o.paid (settleLending o txid w (pre ++ [a])).1.effects =
      o.paid (settleLending o txid w pre).1.effects

/-- The same on a follower, which makes no calls. -/
def DrainsOwned (accounts : List AccountInfo) : Prop :=
  ∀ (i : Nat) (a : AccountInfo), accounts[i]? = some a → a.owner ≠ ProgramIds.lendingProgram →
    (drainLending accounts)[i]? = some a

section
variable {o : Outside} {w : World}

/-- What is paid when the accounts `pre` have been drained. -/
def paidBefore (o : Outside) (w : World) (pre : List AccountInfo) : List Effect :=
  o.paidAfter (o.paid w.effects) (pre.flatMap (callsFor o))

theorem paid_settleLending (txid : Blob 32) (accounts : List AccountInfo) :
    o.paid (settleLending o txid w accounts).1.effects = paidBefore o w accounts := by
  rw [settleLending_effects, paid_append]
  rfl

/-- An account pays nothing in its turn exactly where none of its directives is paid then. -/
theorem paidBefore_append_iff {pre : List AccountInfo} {a : AccountInfo} :
    paidBefore o w (pre ++ [a]) = paidBefore o w pre ↔
      ∀ s ∈ queuedIn a.data, ¬ Pays o (paidBefore o w pre) s := by
  unfold paidBefore
  rw [List.flatMap_append, List.flatMap_singleton, paidAfter_append, paidAfter_eq_self_iff,
    callsFor_quiet]

end

theorem map_getElem_iff {α : Type} {g : α → α} {as : List α} {p : α → Prop} :
    (∀ (i : Nat) (a : α), as[i]? = some a → p a → (as.map g)[i]? = some a) ↔
      ∀ a ∈ as, p a → g a = a := by
  constructor
  · intro h a ha hp
    obtain ⟨i, hi⟩ := List.mem_iff_getElem?.mp ha
    simpa [hi] using h i a hi hp
  · intro h i a hi hp
    simp [hi, h a (List.mem_iff_getElem?.mpr ⟨i, hi⟩) hp]

/-- **When draining respects ownership.** For every list of accounts that a lending instruction
    can leave, in every world and configuration: on the primary, exactly where each account of
    another owner has nothing queued in it, or is read-only and queues nothing that is paid when it
    comes up; on a follower, where it has nothing queued or is read-only. -/
theorem settles_owned_iff (o : Outside) (txid : Blob 32) (w : World)
    (accounts : List AccountInfo) :
    (SettlesOwned o txid w accounts ↔
      ∀ pre a post, accounts = pre ++ a :: post → a.owner ≠ ProgramIds.lendingProgram →
        queuedIn a.data = [] ∨
          Unclearable a ∧ ∀ s ∈ queuedIn a.data, ¬ Pays o (paidBefore o w pre) s) ∧
    (DrainsOwned accounts ↔
      ∀ a ∈ accounts, a.owner ≠ ProgramIds.lendingProgram →
        queuedIn a.data = [] ∨ Unclearable a) := by
  constructor
  · unfold SettlesOwned
    rw [(settleLending_eq o txid accounts w).2, map_getElem_iff]
    simp only [paid_settleLending, paidBefore_append_iff]
    constructor
    · rintro ⟨hsame, hunpaid⟩ pre a post hsplit howner
      have ha : a ∈ accounts := by
        rw [hsplit]
        exact List.mem_append_right pre List.mem_cons_self
      rcases drained_eq_self_iff.mp (hsame a ha howner) with hempty | hstuck
      · exact .inl hempty
      · exact .inr ⟨hstuck, hunpaid pre a post hsplit howner⟩
    · intro h
      refine ⟨fun a ha howner => drained_eq_self_iff.mpr ?_, fun pre a post hsplit howner => ?_⟩
      · obtain ⟨pre, post, hsplit⟩ := List.append_of_mem ha
        rcases h pre a post hsplit howner with hempty | ⟨hstuck, -⟩
        · exact .inl hempty
        · exact .inr hstuck
      · rcases h pre a post hsplit howner with hempty | ⟨-, hunpaid⟩
        · rw [hempty]
          exact fun s hs => absurd hs List.not_mem_nil
        · exact hunpaid
  · unfold DrainsOwned
    rw [show drainLending accounts = accounts.map drained from rfl, map_getElem_iff]
    exact forall₃_congr fun a _ _ => drained_eq_self_iff

/-- An address of the regression test network. -/
def regtestAddress : String := "bcrt1p0xlxvlhemja6c4dqv22uapctqupfhlxm9h8z3k2e72q4k9hcz7vqc8gma6"

/-- A node with the built-ins and a Bitcoin wallet on that network, which never answers. -/
def walletNode : Executor where
  machine := (Executor.bare .dev).machine
  outside :=
    { lightning := false
      bitcoin := true
      custody := false
      address := fun text => text == regtestAddress
      txOut := fun _ _ _ => none
      signs := fun _ _ => false
      reply := fun _ _ => none }

/-- A collection account as it is stored. -/
def collectionRecord (owner : Pubkey) (coll : Lending.CollectionAccount) : StoredAccount :=
  ⟨0, (toVec coll).getD [], owner, false, none, none⟩

/-- A payment of a whole bitcoin to somebody. -/
def wish : Lending.Settlement where
  kind := .repayment
  inscriptionId := ""
  utxo := ⟨.zero 32, 0⟩
  recipient := regtestAddress
  amount := 100000000

/-- A node on which an account that another program owns holds the bytes of a collection with a
    queue. -/
def plantedWorld : World where
  state :=
    { accounts := (∅ : Accounts).insert (.repeated 4)
        (collectionRecord (.repeated 5) { pendingSettlements := [wish] }) }

/-- A new collection is made, with that account listed beside it. -/
def plantedTx : RuntimeTransaction :=
  signedBy [.repeated 2] [.withArgs ProgramIds.lendingProgram
    [.writable (.repeated 3) false, .readonly (.repeated 2) true, .writable (.repeated 4) false]
    (Lending.LendingInstruction.initCollection "c")]

/-- The planted account, as the instruction is given it. -/
def planted : AccountInfo :=
  accountAt plantedWorld.state.accounts ProgramIds.lendingProgram (.writable (.repeated 4) false)

/-- **A queue that nobody queued is paid**, and its account is changed, on the primary and on a
    follower. -/
theorem planted_queue_paid :
    (walletNode.apply plantedWorld plantedTx .commit).1 = .ok () ∧
      walletNode.outside.paid (walletNode.apply plantedWorld plantedTx .commit).2.effects =
        [.sendPayment regtestAddress 100000000] ∧
      (walletNode.apply plantedWorld plantedTx .commit).2.state.loadAccount (.repeated 4) =
        some (collectionRecord (.repeated 5) {}) ∧
      ¬ SettlesOwned walletNode.outside plantedTx.messageHash plantedWorld [planted] ∧
      ¬ DrainsOwned [planted] := by
  obtain ⟨hok, hpaid, hchanged⟩ :
      (walletNode.apply plantedWorld plantedTx .commit).1 = .ok () ∧
        walletNode.outside.paid (walletNode.apply plantedWorld plantedTx .commit).2.effects =
          [.sendPayment regtestAddress 100000000] ∧
        (walletNode.apply plantedWorld plantedTx .commit).2.state.loadAccount (.repeated 4) =
          some (collectionRecord (.repeated 5) {}) := by
    rw [Executor.apply_eval]
    decide +kernel
  refine ⟨hok, hpaid, hchanged, fun h => ?_, fun h => ?_⟩
  · have hsame := h.1 0 planted rfl (by decide)
    revert hsame
    decide +kernel
  · have hsame := h 0 planted rfl (by decide)
    revert hsame
    decide +kernel

end Proof
end Himsha
