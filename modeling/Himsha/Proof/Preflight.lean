import Himsha.Proof.Repayments

/-!
# What a dry run says about the commit

The two modes of `apply` differ in one thing: a commit empties the queues of the accounts a lending
instruction leaves, a dry run does not. From then on they run on two tables, and what relates them
is `Behind`: a collection of the lending program, in one table with more at the front of its queue
than in the other. The lending program keeps to this relation, since it only ever appends to a
queue; no other program is promised anything about the two.
-/

set_option autoImplicit false

namespace Himsha
namespace Proof

open Himsha.Lib Himsha.Runtime Himsha.Programs Himsha.Vm Himsha.Node
open Lending

/-! ## A queue in front of a queue -/

/-- The collection with `q` queued before what it has queued. -/
def ahead (q : List Settlement) (c : CollectionAccount) : CollectionAccount :=
  { c with pendingSettlements := q ++ c.pendingSettlements }

@[simp] theorem ahead_nil (c : CollectionAccount) : ahead [] c = c := rfl

/-- All of a collection but its queue. -/
def frontVec (c : CollectionAccount) : Option (List UInt8) :=
  (Borsh.ser c.name).bind fun n => (Borsh.ser c.bids).bind fun b =>
    (Borsh.ser c.activeLoans).map fun l => n ++ b ++ l

theorem toVec_front (c : CollectionAccount) : toVec c =
    (frontVec c).bind fun f => (Borsh.ser c.pendingSettlements).map fun p => f ++ p := by
  change ((Borsh.ser c.name).bind fun n => ((Borsh.ser c.bids).bind fun b =>
    ((Borsh.ser c.activeLoans).bind fun l => (Borsh.ser c.pendingSettlements).map fun p =>
      l ++ p).map fun ys => b ++ ys).map fun ys => n ++ ys) = _
  unfold frontVec
  cases Borsh.ser c.name with
  | none => rfl
  | some n =>
    cases Borsh.ser c.bids with
    | none => rfl
    | some b =>
      cases Borsh.ser c.activeLoans with
      | none => rfl
      | some l => cases Borsh.ser c.pendingSettlements <;> simp

/-- A settlement takes at least one byte. -/
theorem settlement_length {s : Settlement} {bs : List UInt8} (h : Borsh.ser s = some bs) :
    1 ≤ bs.length := by
  obtain ⟨k, hk, hrest⟩ := Option.bind_eq_some_iff.mp
    (show (Borsh.ser s.kind).bind _ = some bs from h)
  obtain ⟨ys, -, rfl⟩ := Option.map_eq_some_iff.mp hrest
  have hone : k.length = 1 := by
    cases hkind : s.kind <;> rw [hkind] at hk <;> simp [← Option.some.inj hk]
  simp [hone]

theorem settlements_length {ss : List Settlement} :
    ∀ {bs : List UInt8}, serAll ss = some bs → ss.length ≤ bs.length := by
  induction ss with
  | nil => exact fun _ => Nat.zero_le _
  | cons s rest ih =>
    intro bs h
    obtain ⟨xs, hx, hrest⟩ := Option.bind_eq_some_iff.mp h
    obtain ⟨ys, hy, rfl⟩ := Option.map_eq_some_iff.mp hrest
    have hhead := settlement_length hx
    have htail := ih hy
    simp only [List.length_cons, List.length_append]
    omega

/-- Decoding uses up bytes. -/
theorem de_length {α : Type} [Borsh α] [Canonical α] {a : α} {bs rest : List UInt8}
    (h : Borsh.de bs = some (a, rest)) : rest.length ≤ bs.length := by
  obtain ⟨pre, -, rfl⟩ := Canonical.ser_de h
  simp

theorem de_map_length {β : Type} [Borsh β] [Canonical β] {m : StringMap β} {bs rest : List UInt8}
    (h : Borsh.de bs = some (m, rest)) : rest.length ≤ bs.length := by
  obtain ⟨p, hp, heq⟩ := Option.map_eq_some_iff.mp h
  cases heq
  exact de_length hp

/-- The queue of a collection that was decoded is part of the data. -/
theorem queue_encoded {data : List UInt8} {c : CollectionAccount}
    (h : tryFromSlice data = some c) :
    ∃ bs, serAll c.pendingSettlements = some bs ∧ bs.length ≤ data.length := by
  unfold tryFromSlice at h
  split at h
  · rename_i c' hde
    cases h
    obtain ⟨⟨fields, rest⟩, hp, heq⟩ := Option.map_eq_some_iff.mp
      (show (Borsh.de data).map (fun p : (String × StringMap Bid × StringMap Loan ×
        List Settlement) × List UInt8 => ((⟨p.1.1, p.1.2.1, p.1.2.2.1, p.1.2.2.2⟩ :
          CollectionAccount), p.2)) = some (c, []) from hde)
    obtain ⟨rfl, rfl⟩ := Prod.mk.inj heq
    obtain ⟨⟨n, r₁⟩, hn, h₁⟩ := Option.bind_eq_some_iff.mp hp
    obtain ⟨⟨p₁, r⟩, hp₁, heq⟩ := Option.map_eq_some_iff.mp h₁
    obtain ⟨⟨b, r₂⟩, hb, h₂⟩ := Option.bind_eq_some_iff.mp hp₁
    obtain ⟨⟨p₂, r'⟩, hp₂, heq'⟩ := Option.map_eq_some_iff.mp h₂
    obtain ⟨⟨l, r₃⟩, hl, h₃⟩ := Option.bind_eq_some_iff.mp hp₂
    obtain ⟨⟨ss, r''⟩, hss, heq''⟩ := Option.map_eq_some_iff.mp h₃
    cases heq
    cases heq'
    cases heq''
    obtain ⟨pre, hser, hpre⟩ := Canonical.ser_de hss
    have h₁' := de_length hn
    have h₂' := de_map_length hb
    have h₃' := de_map_length hl
    simp only [Borsh.ser] at hser
    split at hser
    · obtain ⟨bs, hbs, rfl⟩ := Option.map_eq_some_iff.mp hser
      refine ⟨bs, hbs, ?_⟩
      dsimp only at h₂' h₃' hpre
      rw [hpre] at h₃'
      simp only [List.length_append] at h₃'
      omega
    · cases hser
  · cases h

theorem toVec_ahead {q : List Settlement} {c : CollectionAccount} {qs : List UInt8}
    (hq : serAll q = some qs) (hroom : (q ++ c.pendingSettlements).length < 2 ^ 32) :
    (toVec c = none ∧ toVec (ahead q c) = none) ∨ ∃ data' data, toVec c = some data' ∧
      toVec (ahead q c) = some data ∧ data.length = data'.length + qs.length := by
  have hshort : c.pendingSettlements.length < 2 ^ 32 := by
    rw [List.length_append] at hroom
    omega
  rw [toVec_front, toVec_front, show frontVec (ahead q c) = frontVec c from rfl]
  cases frontVec c with
  | none => exact .inl ⟨rfl, rfl⟩
  | some f =>
    simp only [ahead, Borsh.ser, if_pos hroom, if_pos hshort, serAll_append, hq]
    cases serAll c.pendingSettlements with
    | none => exact .inl ⟨rfl, rfl⟩
    | some p =>
      refine .inr ⟨_, _, rfl, rfl, ?_⟩
      simp only [List.length_append, length_leBytes]
      omega

/-- The same collection, with more at the front of its queue in the first. -/
def QueueAhead (data data' : List UInt8) : Prop :=
  ∃ q c, tryFromSlice data = some (ahead q c) ∧ tryFromSlice data' = some c

/-- One collection of the lending program in two tables. -/
structure Behind (a a' : AccountInfo) : Prop where
  same : a' = { a with data := a'.data }
  owned : a.owner = ProgramIds.lendingProgram
  queue : QueueAhead a.data a'.data

/-- Two accounts of one slot: the same one, or, where `A` allows it, one that is behind. -/
def Beside (A : Pubkey → Prop) (a a' : AccountInfo) : Prop := a = a' ∨ A a.key ∧ Behind a a'

/-- And all slots of an instruction. -/
def AllBeside (A : Pubkey → Prop) (accounts accounts' : List AccountInfo) : Prop :=
  List.Forall₂ (Beside A) accounts accounts'

/-- No account holds 2 GiB. -/
def Short (accounts : List AccountInfo) : Prop := ∀ a ∈ accounts, a.data.length < 2 ^ 31

/-- What a program leaves on both sides: if the second is short, the first can be encoded. -/
structure Twins (A : Pubkey → Prop) (out out' : List AccountInfo) : Prop where
  beside : AllBeside A out out'
  fits : Short out' → ∀ a ∈ out, a.data.length < 2 ^ 32

section
variable {A : Pubkey → Prop} {accounts accounts' : List AccountInfo} {a a' : AccountInfo}

theorem Beside.same (h : Beside A a a') : a' = { a with data := a'.data } := by
  rcases h with rfl | ⟨-, hbehind⟩
  · rfl
  · exact hbehind.same

theorem Beside.refl (a : AccountInfo) : Beside A a a := .inl rfl

theorem AllBeside.get (h : AllBeside A accounts accounts') :
    ∀ i : Nat, (accounts[i]? = none ∧ accounts'[i]? = none) ∨
      ∃ a a', accounts[i]? = some a ∧ accounts'[i]? = some a' ∧ Beside A a a' := by
  induction h with
  | nil => exact fun i => .inl ⟨List.getElem?_nil, List.getElem?_nil⟩
  | cons hhead htail ih =>
    intro i
    cases i with
    | zero => exact .inr ⟨_, _, rfl, rfl, hhead⟩
    | succ i => exact ih i

theorem AllBeside.set (h : AllBeside A accounts accounts') (hb : Beside A a a') (i : Nat) :
    AllBeside A (accounts.set i a) (accounts'.set i a') := by
  unfold AllBeside at h ⊢
  induction h generalizing i with
  | nil => exact .nil
  | cons hhead htail ih =>
    cases i with
    | zero => exact .cons hb htail
    | succ i => exact .cons hhead (ih i)

theorem AllBeside.slot (h : AllBeside A accounts accounts') (i : Nat) :
    Agree (fun a a' => accounts[i]? = some a ∧ accounts'[i]? = some a' ∧ Beside A a a')
      (Runtime.slot accounts i) (Runtime.slot accounts' i) := by
  unfold Runtime.slot
  rcases h.get i with ⟨hnone, hnone'⟩ | ⟨a, a', ha, ha', hb⟩
  · rw [hnone, hnone']
    rfl
  · rw [ha, ha']
    exact ⟨rfl, rfl, hb⟩

/-! ## The lending program on both -/

/-- What the first slot holds in the two tables. -/
structure Split (A : Pubkey → Prop) (accounts : List AccountInfo) (q : List Settlement)
    (c c' : CollectionAccount) : Prop where
  eq : c = ahead q c'
  encoded : ∃ qs, serAll q = some qs ∧ qs.length < 2 ^ 31
  owned : q ≠ [] → ∀ a, accounts[0]? = some a → A a.key ∧ a.owner = ProgramIds.lendingProgram
  /-- There is room for two more directives. -/
  room : q ≠ [] → (q ++ c'.pendingSettlements).length + 2 < 2 ^ 32

theorem load_beside (h : AllBeside A accounts accounts')
    (hshort : Short accounts) :
    Agree (fun c c' : CollectionAccount => ∃ q, Split A accounts q c c')
      (load accounts 0) (load accounts' 0) := by
  refine .bind (h.slot 0) fun a a' ⟨ha, ha', hb⟩ => ?_
  rcases hb with rfl | ⟨hallowed, hbehind⟩
  · refine .mono (.refl (R := fun c c' => c = c') (fun _ => rfl) _) fun c c' _ _ heq => ?_
    exact ⟨[], heq, ⟨[], rfl, by decide⟩, fun hne => absurd rfl hne, fun hne => absurd rfl hne⟩
  · obtain ⟨q, c, hc, hc'⟩ := hbehind.queue
    unfold AccountInfo.readData
    rw [hc, hc']
    have hbytes := hshort a (List.mem_of_getElem? ha)
    obtain ⟨bs, hbs, hlen⟩ := queue_encoded hc
    have hcount := settlements_length hbs
    have hqueue : (ahead q c).pendingSettlements = q ++ c.pendingSettlements := rfl
    rw [hqueue] at hcount
    rw [hqueue, serAll_append] at hbs
    obtain ⟨qs, hqs, hrest⟩ := Option.bind_eq_some_iff.mp hbs
    obtain ⟨ps, -, rfl⟩ := Option.map_eq_some_iff.mp hrest
    have hlength : (qs ++ ps).length = qs.length + ps.length := List.length_append
    refine ⟨q, rfl, ⟨qs, hqs, by omega⟩, fun _ b hb => ?_, fun _ => by omega⟩
    rw [ha, Option.some.injEq] at hb
    exact hb ▸ ⟨hallowed, hbehind.owned⟩

theorem store_beside {q : List Settlement} {v v' : CollectionAccount}
    (h : AllBeside A accounts accounts') (hshort : Short accounts) (hv : v = ahead q v')
    (henc : ∃ qs, serAll q = some qs ∧ qs.length < 2 ^ 31)
    (howned : q ≠ [] → ∀ a, accounts[0]? = some a → A a.key ∧ a.owner = ProgramIds.lendingProgram)
    (hroom : q ≠ [] → (q ++ v'.pendingSettlements).length < 2 ^ 32) :
    Agree (Twins A) (store accounts 0 v) (store accounts' 0 v') := by
  refine .bind (h.slot 0) fun a a' ⟨ha, ha', hb⟩ => ?_
  have hflag : a'.isWritable = a.isWritable := congrArg (·.isWritable) hb.same
  have hset : ∀ data data', toVec v = some data → toVec v' = some data' →
      data.length < data'.length + 2 ^ 31 →
      Twins A (accounts.set 0 { a with data }) (accounts'.set 0 { a' with data := data' }) := by
    intro data data' hdata hdata' hlen
    refine ⟨h.set ?_ 0, fun hout b hmem => ?_⟩
    · rw [hb.same]
      by_cases hq : q = []
      · subst hq
        rw [hv, ahead_nil, hdata', Option.some.injEq] at hdata
        exact .inl (by rw [hdata])
      · obtain ⟨hallowed, hown⟩ := howned hq a ha
        exact .inr ⟨hallowed, rfl, hown, q, v', hv ▸ tryFromSlice_toVec hdata,
          tryFromSlice_toVec hdata'⟩
    · rcases List.mem_or_eq_of_mem_set hmem with hold | rfl
      · have := hshort b hold
        omega
      · have := hout { a' with data := data' }
          (List.mem_set (List.getElem?_eq_some_iff.mp ha').1 _)
        dsimp only at this ⊢
        omega
  have hwrite : Agree (fun b b' => Twins A (accounts.set 0 b) (accounts'.set 0 b'))
      (a.writeData v) (a'.writeData v') := by
    unfold AccountInfo.writeData
    by_cases hw : a.isWritable = true
    · rw [if_pos hw, if_pos (hflag.trans hw)]
      by_cases hq : q = []
      · subst hq
        rw [show v = v' from hv] at hset ⊢
        cases hdata : toVec v' with
        | none => rfl
        | some data => exact hset data data hdata hdata (by omega)
      · obtain ⟨qs, hqs, hlen⟩ := henc
        rcases toVec_ahead hqs (hroom hq) with ⟨hnone', hnone⟩ | ⟨data', data, hd', hd, hlength⟩
        · rw [hv, hnone, hnone']
          rfl
        · rw [hv, hd, hd']
          exact hset data data' (hv ▸ hd) hd' (by omega)
    · rw [if_neg hw, if_neg (hflag ▸ hw)]
      rfl
  exact hwrite.bind fun b b' hbb => hbb

/-- **The lending program keeps one table beside the other**, and fails on both alike. -/
theorem lending_beside (π : Profile) (hasher : Hasher) (h : AllBeside A accounts accounts')
    (hshort : Short accounts) (timestamp : UInt64) (ix : LendingInstruction) :
    Agree (Twins A) (Lending.run π hasher accounts timestamp ix)
      (Lending.run π hasher accounts' timestamp ix) := by
  have hstore : ∀ {q : List Settlement} {c c' v v' : CollectionAccount} {more : List Settlement},
      Split A accounts q c c' → v = ahead q v' →
      v'.pendingSettlements = c'.pendingSettlements ++ more → more.length ≤ 2 →
      Agree (Twins A) (store accounts 0 v) (store accounts' 0 v') := by
    intro q c c' v v' more hsplit hv hqueue hmore
    refine store_beside h hshort hv hsplit.encoded hsplit.owned fun hne => ?_
    have hroom := hsplit.room hne
    rw [hqueue, ← List.append_assoc, List.length_append]
    omega
  cases ix with
  | initCollection name =>
    refine .bind (h.slot 0) fun a a' ⟨ha, ha', hb⟩ => ?_
    have hname : ((tryFromSlice a.data : Option CollectionAccount).all (·.name.isEmpty)) =
        ((tryFromSlice a'.data : Option CollectionAccount).all (·.name.isEmpty)) := by
      rcases hb with rfl | ⟨-, hbehind⟩
      · rfl
      · obtain ⟨q, c, hc, hc'⟩ := hbehind.queue
        rw [hc, hc']
        rfl
    dsimp only
    rw [hname]
    refine .seq fun _ => ?_
    exact store_beside (q := []) h hshort rfl ⟨[], rfl, by decide⟩ (fun hne => absurd rfl hne)
      fun hne => absurd rfl hne
  | placeBid bidUtxo loanValue loanPeriod interestRateBps ordinals payments =>
    refine .bind (load_beside h hshort) fun c c' ⟨q, hsplit⟩ => ?_
    obtain rfl := hsplit.eq
    refine .seq fun _ => ?_
    exact hstore hsplit rfl (List.append_nil _).symm (Nat.zero_le 2)
  | cancelBid bidUtxo =>
    refine .bind (load_beside h hshort) fun c c' ⟨q, hsplit⟩ => ?_
    obtain rfl := hsplit.eq
    refine .seq fun _ => ?_
    exact hstore hsplit rfl (List.append_nil _).symm (Nat.zero_le 2)
  | acceptBid inscriptionId inscriptionUtxo ordinals payments =>
    refine .bind (load_beside h hshort) fun c c' ⟨q, hsplit⟩ => ?_
    obtain rfl := hsplit.eq
    refine .seq fun _ => .seq fun _ => .seq fun ⟨bestKey, bid⟩ => ?_
    exact hstore hsplit rfl (List.append_nil _).symm (Nat.zero_le 2)
  | repayLoan inscriptionId repaymentUtxo amount =>
    refine .bind (load_beside h hshort) fun c c' ⟨q, hsplit⟩ => ?_
    obtain rfl := hsplit.eq
    refine .seq fun loan => ?_
    dsimp only
    split
    · -- The loan has expired: what is stored is dropped with the error.
      refine .bind (hstore hsplit rfl (List.append_nil _).symm (Nat.zero_le 2)) fun _ _ _ => ?_
      exact rfl
    · refine .seq fun _ => .seq fun due => ?_
      split
      · exact hstore hsplit (by simp [ahead]) rfl (Nat.le_refl 2)
      · exact hstore hsplit (by simp [ahead]) rfl (Nat.le_succ 1)
  | claimDefault inscriptionId =>
    refine .bind (load_beside h hshort) fun c c' ⟨q, hsplit⟩ => ?_
    obtain rfl := hsplit.eq
    refine .seq fun loan => .seq fun _ => ?_
    exact hstore hsplit (by simp [ahead]) rfl (Nat.le_succ 1)

/-- Whoever owns an account may leave anything in it. -/
theorem exec_validateWrite_own {programId : Pubkey} {pre post : AccountInfo}
    (h : pre.owner = programId) (th : Thread) :
    (Comp.exec (validateWrite programId pre post) th).1 = .ok post := by
  unfold validateWrite
  split
  · rfl
  · rw [if_pos (by simpa using h)]
    rfl

theorem exec_gate_untouched (programId : Pubkey) (accounts : List AccountInfo) (th : Thread) :
    Comp.exec (gate programId accounts accounts) th = (.ok accounts, th) := by
  induction accounts with
  | nil => rfl
  | cons a rest ih =>
    refine gate_cons.mpr ⟨a, th, rest, ?_, ih, rfl⟩
    unfold validateWrite
    rw [if_pos (by simp [sameState])]
    rfl

/-- Where only the first slot was written, the gate decides on that one. -/
theorem exec_gate_first (programId : Pubkey) (a b : AccountInfo) (rest : List AccountInfo)
    (th : Thread) : (Comp.exec (validateWrites programId (a :: rest) (b :: rest)) th).1 =
      (Comp.exec (validateWrite programId a b) th).1.map (· :: rest) := by
  have hlen : ((a :: rest).length == (b :: rest).length) = true := by simp
  unfold validateWrites
  rw [hlen, List.zip_cons_cons, List.mapM_cons, Comp.exec_bind]
  change (Comp.exec (validateWrite programId a b >>= fun o => gate programId rest rest >>=
    fun os => pure (o :: os)) th).1 = _
  rw [Comp.exec_bind]
  cases Comp.exec (validateWrite programId a b) th with
  | mk result th' =>
    cases result with
    | error e => rfl
    | ok o =>
      dsimp only
      rw [Comp.exec_bind, exec_gate_untouched]
      rfl

/-- What the program of an instruction leaves, once the gate has passed it. -/
def leaves (ex : Executor) (tx : RuntimeTransaction) (instr : Instruction)
    (accounts : List AccountInfo) : Outcome (List AccountInfo) :=
  (Comp.exec (dispatch ex.machine.profile ex.machine.hasher instr.programId accounts instr.data
    tx.message.timestamp) {}).1

theorem leaves_lending {ex : Executor} {tx : RuntimeTransaction} {instr : Instruction}
    (hprog : instr.programId = ProgramIds.lendingProgram) (accounts : List AccountInfo) :
    leaves ex tx instr accounts =
      Lending.process ex.machine.profile ex.machine.hasher accounts instr.data
        tx.message.timestamp >>= fun after =>
          (Comp.exec (validateWrites ProgramIds.lendingProgram accounts after)
            (beginExecution {})).1 := by
  unfold leaves dispatch
  rw [hprog, Comp.exec_bind]
  change (Comp.exec (runBuiltin _ _ _ _ _ _ >>= _) (beginExecution {})).1 = _
  rw [runBuiltin_lending, Comp.exec_bind]
  have hlift : ∀ x : Outcome (List AccountInfo),
      Comp.exec (Comp.ofExcept x : Prog (List AccountInfo)) (beginExecution {}) =
        (x, beginExecution {}) := fun _ => rfl
  rw [hlift]
  cases Lending.process ex.machine.profile ex.machine.hasher accounts instr.data
    tx.message.timestamp <;> rfl

theorem leaves_beside {ex : Executor} {tx : RuntimeTransaction} {instr : Instruction}
    (hprog : instr.programId = ProgramIds.lendingProgram) (h : AllBeside A accounts accounts')
    (hshort : Short accounts) :
    Agree (Twins A) (leaves ex tx instr accounts) (leaves ex tx instr accounts') := by
  have hsigner : accounts'[1]?.map (·.isSigner) = accounts[1]?.map (·.isSigner) := by
    rcases h.get 1 with ⟨hnone, hnone'⟩ | ⟨a, a', ha, ha', hb⟩
    · rw [hnone, hnone']
    · rw [ha, ha', hb.same]
      rfl
  rw [leaves_lending hprog, leaves_lending hprog]
  unfold Lending.process
  rw [hsigner]
  simp only [bind_assoc]
  refine .seq fun ix => .seq fun _ => .bind (.mono (lending_beside _ _ h hshort _ ix)
    fun out out' hrun hrun' htwins => And.intro (And.intro hrun hrun') htwins)
    fun out out' ⟨⟨hrun, hrun'⟩, htwins⟩ => ?_
  obtain ⟨a, rest, coll, ⟨rfl, data, hdata, rfl⟩, -⟩ := lending_post hrun
  obtain ⟨a', rest', coll', ⟨rfl, data', hdata', rfl⟩, -⟩ := lending_post hrun'
  obtain ⟨hout, hrest⟩ := List.forall₂_cons.mp htwins.beside
  obtain ⟨hgiven, -⟩ := List.forall₂_cons.mp h
  rw [exec_gate_first, exec_gate_first]
  by_cases hown : a.owner = ProgramIds.lendingProgram
  · have hown' : a'.owner = ProgramIds.lendingProgram := by
      rw [hgiven.same]
      exact hown
    rw [exec_validateWrite_own hown, exec_validateWrite_own hown']
    exact htwins
  · -- An account of another program is the same on both sides.
    obtain rfl : a = a' := hgiven.resolve_right fun hb => hown hb.2.owned
    have hsame := hout.resolve_right fun hb => hown hb.2.owned
    rw [← hsame]
    cases (Comp.exec (validateWrite ProgramIds.lendingProgram a { a with data })
        (beginExecution {})).1 with
    | error e => rfl
    | ok o =>
      refine ⟨.cons (.refl o) hrest, fun hshort' b hb => ?_⟩
      rcases List.mem_cons.mp hb with rfl | hb
      · have := hshort' b List.mem_cons_self
        omega
      · have := hshort b (List.mem_cons_of_mem _ hb)
        omega

theorem AllBeside.refl (accounts : List AccountInfo) : AllBeside A accounts accounts :=
  List.forall₂_same.mpr fun a _ => .refl a

/-- What is short enough can be encoded. -/
theorem accounts_encode {accounts : List AccountInfo} (hlen : accounts.length < 2 ^ 32)
    (h : ∀ a ∈ accounts, a.data.length < 2 ^ 32) : ∃ bs, toVec accounts = some bs := by
  have hall : ∀ as : List AccountInfo, (∀ a ∈ as, a.data.length < 2 ^ 32) →
      ∃ bs, serAll as = some bs := by
    intro as
    induction as with
    | nil => exact fun _ => ⟨[], rfl⟩
    | cons a rest ih =>
      intro has
      obtain ⟨ys, hys⟩ := ih fun b hb => has b (List.mem_cons_of_mem _ hb)
      obtain ⟨key, lamports, data, owner, executable, isSigner, isWritable, utxo⟩ := a
      obtain ⟨out, hout⟩ := ser_bytes data (has _ List.mem_cons_self)
      have hhead : ∃ xs, Borsh.ser (⟨key, lamports, data, owner, executable, isSigner, isWritable,
          utxo⟩ : AccountInfo) = some xs := by
        change ∃ xs, ((Borsh.ser key).bind fun ks => ((Borsh.ser lamports).bind fun ls =>
          ((Borsh.ser data).bind fun ds => (Borsh.ser (owner, executable, isSigner, isWritable,
            utxo)).map fun zs => ds ++ zs).map fun ys => ls ++ ys).map fun ys => ks ++ ys) = some xs
        rw [hout]
        cases utxo <;> exact ⟨_, rfl⟩
      obtain ⟨xs, hxs⟩ := hhead
      exact ⟨xs ++ ys, by simp [serAll, hxs, hys]⟩
  obtain ⟨bs, hbs⟩ := hall accounts h
  exact ⟨_, (if_pos hlen).trans (by rw [hbs]; rfl)⟩

/-! ## A round as a function of its accounts -/

/-- What a fault of the machine is to `apply`. -/
def vmFault : VmFault → ExecFault
  | .node e => .error ⟨-32002, e.message⟩
  | .panic => .panic

/-- How a round ends: with what its program leaves, or with the error of the transaction. -/
def verdict (ex : Executor) (tx : RuntimeTransaction) (poisoned : Bool) (instr : Instruction)
    (accounts : List AccountInfo) : Except ExecFault (List AccountInfo) :=
  match rejectDuplicateWritable accounts with
  | .error e => .error (Executor.programFault e)
  | .ok _ =>
      if poisoned then .error .panic
      else match executeProgram ex.machine instr.programId
          ⟨accounts, instr.data, tx.message.timestamp⟩ [] with
        | .ok transition => .ok transition.updatedAccounts
        | .error e => .error (vmFault e)

/-- How the loop over the instructions ends, from a table. -/
def outcome (ex : Executor) (mode : Mode) (tx : RuntimeTransaction) (poisoned : Bool) :
    List Instruction → Accounts → Except ExecFault Unit
  | [], _ => return ()
  | instr :: rest, t => do
      let updated ← verdict ex tx poisoned instr (accountsOf t instr)
      outcome ex mode tx poisoned rest (t.write (entries (kept mode instr updated)))

end

section
variable {ex : Executor} {mode : Mode} {tx : RuntimeTransaction} {poisoned : Bool}
  {instr : Instruction} {accounts accounts' : List AccountInfo} {A : Pubkey → Prop}

theorem verdict_eq_ok {updated : List AccountInfo}
    (h : verdict ex tx poisoned instr accounts = .ok updated) :
    rejectDuplicateWritable accounts = .ok () ∧ ∃ transition,
      executeProgram ex.machine instr.programId ⟨accounts, instr.data, tx.message.timestamp⟩ [] =
        .ok transition ∧ transition.updatedAccounts = updated := by
  unfold verdict at h
  split at h
  · cases h
  · rename_i hdup
    split at h
    · cases h
    · split at h
      · rename_i transition hexec
        exact ⟨hdup, transition, hexec, Except.ok.inj h⟩
      · cases h

theorem exec_applyInstruction_verdict (r : Running) :
    (Comp.exec (Executor.applyInstruction ex mode tx instr) r).1 =
      (verdict ex tx r.poisoned instr (accountsOf (current r) instr)).map fun _ => () := by
  unfold Executor.applyInstruction verdict
  rw [Comp.exec_bind]
  change (Comp.exec (Comp.ofExcept ((rejectDuplicateWritable
    (instr.accounts.map (Executor.materialise r instr.programId))).mapError
      Executor.programFault) >>= _) r).1 = _
  rw [Comp.exec_bind, materialise_accountsOf]
  cases rejectDuplicateWritable (accountsOf (current r) instr) with
  | error e => rfl
  | ok u =>
    change (Comp.exec (Executor.runProgram ex tx instr (accountsOf (current r) instr) >>= _) r).1 =
      _
    rw [Comp.exec_bind, runProgram_exec]
    dsimp only
    cases r.poisoned with
    | true => rfl
    | false =>
      simp only [Bool.false_eq_true, if_false]
      cases hexec : executeProgram ex.machine instr.programId
          ⟨accountsOf (current r) instr, instr.data, tx.message.timestamp⟩ [] with
      | error e => cases e <;> rfl
      | ok transition =>
        dsimp only
        rw [Comp.exec_bind, executeProgram_verify hexec]
        rfl

/-- The loop reads nothing of a running transaction but its table and the lock. -/
theorem exec_applyInstructions_outcome (instrs : List Instruction) : ∀ r : Running,
    (Comp.exec (Executor.applyInstructions ex mode tx instrs) r).1 =
      outcome ex mode tx r.poisoned instrs (current r) := by
  induction instrs with
  | nil => exact fun _ => rfl
  | cons instr rest ih =>
    intro r
    have hround : (Comp.exec (Executor.applyInstruction ex mode tx instr) r).1 =
        (verdict ex tx r.poisoned instr (accountsOf (current r) instr)).map fun _ => () :=
      exec_applyInstruction_verdict r
    have hsplit : Executor.applyInstructions ex mode tx (instr :: rest) =
      Executor.applyInstruction ex mode tx instr >>= fun _ =>
        Executor.applyInstructions ex mode tx rest := rfl
    rw [hsplit, Comp.exec_bind, outcome]
    cases hexec : Comp.exec (Executor.applyInstruction ex mode tx instr) r with
    | mk result m =>
      rw [hexec] at hround
      cases hv : verdict ex tx r.poisoned instr (accountsOf (current r) instr) with
      | error e =>
        rw [hv] at hround
        change result = .error e at hround
        rw [hround]
        rfl
      | ok updated =>
        rw [hv] at hround
        change result = .ok () at hround
        rw [hround] at hexec ⊢
        obtain ⟨t, w, updated', -, hprog, hsettled, rfl⟩ :=
          Executor.applyInstruction_returns (show Comp.Returns _ r () m from hexec)
        obtain ⟨-, t', hprog', rfl⟩ := verdict_eq_ok hv
        rw [materialise_accountsOf, hprog', Except.ok.injEq] at hprog
        subst hprog
        obtain ⟨hstored, hkept⟩ := settled_eq ex mode tx instr r.toWorld t'.updatedAccounts
        rw [hsettled] at hstored hkept
        change updated' = _ at hkept
        subst hkept
        refine (ih _).trans ?_
        have hlock : w.poisoned = r.poisoned := hstored.2
        have htable :
            Table.layered (Executor.carry r.overlay (kept mode instr t'.updatedAccounts))
                w.state.accounts =
              (current r).write (entries (kept mode instr t'.updatedAccounts)) := by
          rw [layered_carry, hstored.1.accounts]
          rfl
        change outcome ex mode tx w.poisoned rest (Table.layered _ w.state.accounts) = _
        rw [hlock, htable]
        rfl

/-! ## Both modes, round by round -/

/-- Only the queue of an account is different, so the guard sees no difference. -/
theorem rejectDuplicateWritable_beside (h : AllBeside A accounts accounts') :
    rejectDuplicateWritable accounts' = rejectDuplicateWritable accounts := by
  induction h with
  | nil => rfl
  | @cons a a' rest rest' hhead htail ih =>
    have hany : (rest'.any fun b => b.isWritable && b.key == a'.key) =
        rest.any fun b => b.isWritable && b.key == a'.key := by
      clear ih
      induction htail with
      | nil => rfl
      | @cons b b' bs bs' hb hbs ihany =>
        rw [List.any_cons, List.any_cons, ihany, hb.same]
    unfold rejectDuplicateWritable
    rw [ih, hany, hhead.same]

/-- Every account that a commit empties is named from then on by lending instructions alone, and
    is the lending program's. -/
def LeavesUnseen (ex : Executor) (tx : RuntimeTransaction) (instr : Instruction)
    (accounts : List AccountInfo) (rest : List Instruction) : Prop :=
  Gives (leaves ex tx instr accounts) fun updated => ∀ a ∈ updated, drained a ≠ a →
    ∀ later ∈ rest, a.key ∈ later.accounts.map (·.pubkey) →
      later.programId = ProgramIds.lendingProgram ∧ a.owner = ProgramIds.lendingProgram

/-- Where the two modes hand over different accounts, they are far from the length at which a
    record cannot be encoded. -/
def Roomy (ex : Executor) (tx : RuntimeTransaction) (instr : Instruction)
    (accounts accounts' : List AccountInfo) : Prop :=
  accounts ≠ accounts' → Short accounts ∧ Gives (leaves ex tx instr accounts') Short

/-- **No queue that is emptied is seen again**: the condition on a transaction, from the tables on
    which the two modes run it. -/
def Unseen (ex : Executor) (tx : RuntimeTransaction) : List Instruction → Accounts → Accounts → Prop
  | [], _, _ => True
  | instr :: rest, t, t' =>
      (instr.programId = ProgramIds.lendingProgram →
        LeavesUnseen ex tx instr (accountsOf t' instr) rest ∧
          Roomy ex tx instr (accountsOf t instr) (accountsOf t' instr)) ∧
      ∀ u ∈ tableStep ex .preflight tx t instr, ∀ u' ∈ tableStep ex .commit tx t' instr,
        Unseen ex tx rest u u'

/-- The native path, from what the program leaves. -/
theorem executeProgram_lending (hprog : instr.programId = ProgramIds.lendingProgram) :
    (executeProgram ex.machine instr.programId ⟨accounts, instr.data, tx.message.timestamp⟩
        []).map (·.updatedAccounts) =
      match leaves ex tx instr accounts with
      | .error (.err e) => .error (.node (.vmError ("program error: " ++ e.message)))
      | .error .panic => .error .panic
      | .ok updated =>
          if (toVec updated).isSome then .ok updated
          else .error (.node (.serError "invalid data")) := by
  unfold executeProgram executeNative leaves
  rw [hprog, if_pos (by decide)]
  dsimp only
  cases (Comp.exec (dispatch ex.machine.profile ex.machine.hasher ProgramIds.lendingProgram accounts
      instr.data tx.message.timestamp) {}).1 with
  | error f => cases f <;> rfl
  | ok updated =>
    dsimp only
    cases toVec updated <;> rfl

theorem executeProgram_beside (hprog : instr.programId = ProgramIds.lendingProgram)
    (h : AllBeside A accounts accounts') (hroom : Roomy ex tx instr accounts accounts') :
    Agree (AllBeside A)
      ((executeProgram ex.machine instr.programId ⟨accounts, instr.data, tx.message.timestamp⟩
        []).map (·.updatedAccounts))
      ((executeProgram ex.machine instr.programId ⟨accounts', instr.data, tx.message.timestamp⟩
        []).map (·.updatedAccounts)) := by
  by_cases hsame : accounts = accounts'
  · subst hsame
    exact .refl .refl _
  · obtain ⟨hshort, hshort'⟩ := hroom hsame
    rw [executeProgram_lending hprog, executeProgram_lending hprog]
    have hleaves : Agree (Twins A) (leaves ex tx instr accounts) (leaves ex tx instr accounts') :=
      leaves_beside hprog h hshort
    cases hl : leaves ex tx instr accounts with
    | error f =>
      cases hl' : leaves ex tx instr accounts' with
      | ok out' =>
        rw [hl, hl'] at hleaves
        exact hleaves.elim
      | error f' =>
        rw [hl, hl'] at hleaves
        obtain rfl : f = f' := hleaves
        cases f <;> rfl
    | ok out =>
      cases hl' : leaves ex tx instr accounts' with
      | error f' =>
        rw [hl, hl'] at hleaves
        exact hleaves.elim
      | ok out' =>
        rw [hl, hl'] at hleaves
        obtain ⟨hbeside, hfits⟩ := hleaves
        have hout' := hshort' out' hl'
        by_cases hlen : out.length < 2 ^ 32
        · obtain ⟨bs, hbs⟩ := accounts_encode hlen (hfits hout')
          obtain ⟨bs', hbs'⟩ := accounts_encode (hbeside.length_eq ▸ hlen)
            fun a ha => Nat.lt_trans (hout' a ha) (by decide)
          simp only [hbs, hbs', Option.isSome_some, if_true]
          exact hbeside
        · have hnone : toVec out = none := if_neg hlen
          have hnone' : toVec out' = none := if_neg (hbeside.length_eq ▸ hlen)
          simp only [hnone, hnone', Option.isSome_none, Bool.false_eq_true, if_false]
          rfl

/-- A lending round ends alike. -/
theorem verdict_beside (hprog : instr.programId = ProgramIds.lendingProgram)
    (h : AllBeside A accounts accounts') (hroom : Roomy ex tx instr accounts accounts') :
    Agree (AllBeside A) (verdict ex tx poisoned instr accounts)
      (verdict ex tx poisoned instr accounts') := by
  have hexec := executeProgram_beside hprog h hroom
  unfold verdict
  rw [rejectDuplicateWritable_beside h]
  cases rejectDuplicateWritable accounts with
  | error e => rfl
  | ok u =>
    cases poisoned with
    | true => rfl
    | false =>
      simp only [Bool.false_eq_true, if_false]
      cases hp : executeProgram ex.machine instr.programId
          ⟨accounts, instr.data, tx.message.timestamp⟩ [] with
      | error e =>
        cases hp' : executeProgram ex.machine instr.programId
            ⟨accounts', instr.data, tx.message.timestamp⟩ [] with
        | error e' =>
          rw [hp, hp'] at hexec
          exact congrArg vmFault hexec
        | ok t' =>
          rw [hp, hp'] at hexec
          exact hexec.elim
      | ok t =>
        cases hp' : executeProgram ex.machine instr.programId
            ⟨accounts', instr.data, tx.message.timestamp⟩ [] with
        | error e' =>
          rw [hp, hp'] at hexec
          exact hexec.elim
        | ok t' =>
          rw [hp, hp'] at hexec
          exact hexec

/-! ## The two tables -/

/-- What the two tables hold at a key that `later` names. -/
def Parallel (later : Instruction) (k : Pubkey) (stored stored' : Option StoredAccount) : Prop :=
  stored = stored' ∨ later.programId = ProgramIds.lendingProgram ∧ ∃ s s', stored = some s ∧
    stored' = some s' ∧ Behind (s.intoAccount k) (s'.intoAccount k)

/-- The two tables, as far as the instructions to come can see. -/
def TablesParallel (instrs : List Instruction) (t t' : Accounts) : Prop :=
  ∀ later ∈ instrs, ∀ k ∈ later.accounts.map (·.pubkey), Parallel later k (t.lookup k) (t'.lookup k)

/-- The keys that only lending instructions name. -/
def LendingOnly (instrs : List Instruction) (k : Pubkey) : Prop :=
  ∀ later ∈ instrs, k ∈ later.accounts.map (·.pubkey) →
    later.programId = ProgramIds.lendingProgram

theorem Behind.stored {a a' : AccountInfo} (h : Behind a a') (k : Pubkey) :
    Behind (a.toStored.intoAccount k) (a'.toStored.intoAccount k) := by
  refine ⟨?_, h.owned, h.queue⟩
  rw [h.same]
  rfl

/-- An account that is emptied is behind the one that is not. -/
theorem behind_drained {a a' : AccountInfo} (h : a = a' ∧ a.owner = ProgramIds.lendingProgram ∨
    Behind a a') (hne : drained a' ≠ a') : Behind a (drained a') := by
  obtain ⟨c, data, hc, hdata, hdrained⟩ : ∃ (c : CollectionAccount) (data : List UInt8),
      tryFromSlice a'.data = some c ∧ toVec { c with pendingSettlements := [] } = some data ∧
      drained a' = { a' with data } := by
    unfold drained at hne ⊢
    cases hcoll : tryFromSlice (α := CollectionAccount) a'.data with
    | none => simp [hcoll] at hne
    | some c =>
      simp only [hcoll] at hne ⊢
      split
      · rename_i hempty
        rw [if_pos hempty] at hne
        exact absurd rfl hne
      · rename_i hfull
        rw [if_neg hfull] at hne
        cases hwrite : a'.writeData (takeSettlements c).2 with
        | error e => simp [hwrite] at hne
        | ok b =>
          obtain ⟨-, data, hdata, rfl⟩ := writeData_eq_ok hwrite
          exact ⟨c, data, rfl, hdata, rfl⟩
  have hback := tryFromSlice_toVec hdata
  rw [hdrained]
  rcases h with ⟨rfl, hown⟩ | hbehind
  · refine ⟨rfl, hown, c.pendingSettlements, _, ?_, hback⟩
    rw [hc]
    simp [ahead]
  · obtain ⟨q, c', hq, hq'⟩ := hbehind.queue
    rw [hc, Option.some.injEq] at hq'
    subst hq'
    refine ⟨?_, hbehind.owned, q ++ c.pendingSettlements, _, ?_, hback⟩
    · rw [hbehind.same]
    · rw [hq]
      simp [ahead]

theorem accountAt_beside {t t' : Accounts} {rest : List Instruction}
    (h : TablesParallel (instr :: rest) t t') {am : AccountMeta} (ham : am ∈ instr.accounts) :
    Beside (LendingOnly rest) (accountAt t instr.programId am) (accountAt t' instr.programId am) ∧
      (instr.programId ≠ ProgramIds.lendingProgram →
        accountAt t instr.programId am = accountAt t' instr.programId am) := by
  have hkey : am.pubkey ∈ instr.accounts.map (·.pubkey) := List.mem_map_of_mem ham
  by_cases hsame : t.lookup am.pubkey = t'.lookup am.pubkey
  · have heq : accountAt t instr.programId am = accountAt t' instr.programId am := by
      unfold accountAt
      rw [hsame]
    exact ⟨.inl heq, fun _ => heq⟩
  · obtain ⟨hprog, s, s', hs, hs', hbehind⟩ :=
      (h instr List.mem_cons_self _ hkey).resolve_left hsame
    refine ⟨.inr ⟨fun later hlater hnames => ?_, ?_⟩, fun hne => absurd hprog hne⟩
    · rw [accountAt_key] at hnames
      exact ((h later (List.mem_cons_of_mem _ hlater) _ hnames).resolve_left hsame).1
    · unfold accountAt
      rw [hs, hs']
      refine ⟨?_, hbehind.owned, hbehind.queue⟩
      have hinto : s'.intoAccount am.pubkey = { s.intoAccount am.pubkey with data := s'.data } :=
        hbehind.same
      exact congrArg (fun b : AccountInfo =>
        { b with isSigner := am.isSigner, isWritable := am.isWritable }) hinto

theorem accountsOf_beside {t t' : Accounts} {rest : List Instruction}
    (h : TablesParallel (instr :: rest) t t') :
    AllBeside (LendingOnly rest) (accountsOf t instr) (accountsOf t' instr) ∧
      (instr.programId ≠ ProgramIds.lendingProgram → accountsOf t instr = accountsOf t' instr) := by
  constructor
  · refine List.forall₂_map_left_iff.mpr (List.forall₂_map_right_iff.mpr ?_)
    exact List.forall₂_same.mpr fun am ham => (accountAt_beside h ham).1
  · exact fun hne => List.map_congr_left fun am ham => (accountAt_beside h ham).2 hne

/-- A round that ends well in both modes leaves tables that are parallel again. -/
theorem tablesParallel_step {t t' : Accounts} {rest : List Instruction}
    {updated updated' : List AccountInfo} (h : TablesParallel (instr :: rest) t t')
    (hpairs : List.Forall₂ (fun a b => a.key = b.key ∧
      ∀ later ∈ rest, a.key ∈ later.accounts.map (·.pubkey) →
        a = b ∨ later.programId = ProgramIds.lendingProgram ∧ Behind a b) updated updated') :
    TablesParallel rest (t.write (entries updated)) (t'.write (entries updated')) := by
  intro later hlater k hk
  have hwritten : ∀ {as : List AccountInfo}, (entries as).map Prod.fst = as.map (·.key) :=
    fun {as} => entries_keys as
  by_cases hmem : k ∈ (entries updated).map Prod.fst
  · let R : Pubkey → StoredAccount → StoredAccount → Prop := fun k v v' =>
      k ∈ later.accounts.map (·.pubkey) → v = v' ∨
        later.programId = ProgramIds.lendingProgram ∧ Behind (v.intoAccount k) (v'.intoAccount k)
    have hentries : List.Forall₂ (fun e e' => e.1 = e'.1 ∧ R e.1 e.2 e'.2) (entries updated)
        (entries updated') := by
      refine List.forall₂_map_left_iff.mpr (List.forall₂_map_right_iff.mpr
        (hpairs.imp fun a b hab => ⟨hab.1, fun hnames => ?_⟩))
      rcases hab.2 later hlater hnames with rfl | ⟨hprog, hbehind⟩
      · exact .inl rfl
      · rw [← hab.1]
        exact .inr ⟨hprog, hbehind.stored _⟩
    obtain ⟨v, v', hv, hv', hR⟩ : ∃ v v', (t.write (entries updated)).lookup k = some v ∧
        (t'.write (entries updated')).lookup k = some v' ∧ R k v v' :=
      Table.lookup_write_forall₂ hentries hmem
    rw [hv, hv']
    exact (hR hk).imp (congrArg _) fun hb => ⟨hb.1, v, v', rfl, rfl, hb.2⟩
  · have hmem' : k ∉ (entries updated').map Prod.fst := by
      have hsame : updated'.map (·.key) = updated.map (·.key) := by
        have hforall : List.Forall₂ (fun a b : AccountInfo => b.key = a.key) updated updated' :=
          hpairs.imp fun _ _ hab => hab.1.symm
        rw [← List.forall₂_eq_eq_eq]
        exact List.forall₂_map_left_iff.mpr (List.forall₂_map_right_iff.mpr hforall.flip)
      rw [hwritten] at hmem ⊢
      rwa [hsame]
    rw [Table.lookup_write_of_notMem hmem, Table.lookup_write_of_notMem hmem']
    exact h later (List.mem_cons_of_mem _ hlater) k hk

/-- A round that ends well is a step of the table. -/
theorem tableStep_of_verdict {t : Accounts} {updated : List AccountInfo}
    (h : verdict ex tx poisoned instr (accountsOf t instr) = .ok updated) :
    tableStep ex mode tx t instr = some (t.write (entries (kept mode instr updated))) := by
  obtain ⟨hdup, transition, hexec, rfl⟩ := verdict_eq_ok h
  unfold tableStep output
  rw [if_pos hdup, hexec]
  rfl

/-- What a lending round ends with is what its program left. -/
theorem leaves_of_verdict (hprog : instr.programId = ProgramIds.lendingProgram)
    {updated : List AccountInfo} (h : verdict ex tx poisoned instr accounts = .ok updated) :
    leaves ex tx instr accounts = .ok updated := by
  obtain ⟨-, transition, hexec, rfl⟩ := verdict_eq_ok h
  have hlending : (executeProgram ex.machine instr.programId
      ⟨accounts, instr.data, tx.message.timestamp⟩ []).map (·.updatedAccounts) = _ :=
    executeProgram_lending hprog
  rw [hexec] at hlending
  cases hl : leaves ex tx instr accounts with
  | error f =>
    rw [hl] at hlending
    cases f <;> cases hlending
  | ok updated =>
    rw [hl] at hlending
    dsimp only [Except.map] at hlending
    split at hlending
    · exact congrArg _ (Except.ok.inj hlending).symm
    · cases hlending

/-- **Two runs in lockstep.** -/
theorem outcome_agrees (instrs : List Instruction) : ∀ t t' : Accounts,
    TablesParallel instrs t t' → Unseen ex tx instrs t t' →
      outcome ex .preflight tx poisoned instrs t = outcome ex .commit tx poisoned instrs t' := by
  induction instrs with
  | nil => exact fun _ _ _ _ => rfl
  | cons instr rest ih =>
    intro t t' hparallel ⟨hlending, hrest⟩
    obtain ⟨hbeside, hsame⟩ := accountsOf_beside hparallel
    rw [outcome, outcome]
    have hnext : ∀ updated updated', verdict ex tx poisoned instr (accountsOf t instr) =
        .ok updated → verdict ex tx poisoned instr (accountsOf t' instr) = .ok updated' →
        List.Forall₂ (fun a b => a.key = b.key ∧
          ∀ later ∈ rest, a.key ∈ later.accounts.map (·.pubkey) →
            a = b ∨ later.programId = ProgramIds.lendingProgram ∧ Behind a b)
          updated (kept .commit instr updated') →
        outcome ex .preflight tx poisoned rest (t.write (entries updated)) =
          outcome ex .commit tx poisoned rest
            (t'.write (entries (kept .commit instr updated'))) := by
      intro updated updated' hv hv' hpairs
      have hstep : tableStep ex .preflight tx t instr =
          some (t.write (entries (kept .preflight instr updated))) := tableStep_of_verdict hv
      have hstep' : tableStep ex .commit tx t' instr =
          some (t'.write (entries (kept .commit instr updated'))) := tableStep_of_verdict hv'
      exact ih _ _ (tablesParallel_step hparallel hpairs) (hrest _ hstep _ hstep')
    by_cases hprog : instr.programId = ProgramIds.lendingProgram
    · obtain ⟨hunseen, hroom⟩ := hlending hprog
      have hagree : Agree _ (verdict ex tx poisoned instr (accountsOf t instr))
          (verdict ex tx poisoned instr (accountsOf t' instr)) :=
        verdict_beside hprog hbeside hroom
      cases hv : verdict ex tx poisoned instr (accountsOf t instr) with
      | error e =>
        cases hv' : verdict ex tx poisoned instr (accountsOf t' instr) with
        | error e' =>
          rw [hv, hv'] at hagree
          exact congrArg _ hagree
        | ok updated' =>
          rw [hv, hv'] at hagree
          exact hagree.elim
      | ok updated =>
        cases hv' : verdict ex tx poisoned instr (accountsOf t' instr) with
        | error e' =>
          rw [hv, hv'] at hagree
          exact hagree.elim
        | ok updated' =>
          rw [hv, hv'] at hagree
          refine hnext updated updated' hv hv' ?_
          have hleft := leaves_of_verdict hprog hv'
          rw [show kept .commit instr updated' = updated'.map drained from if_pos ⟨rfl, hprog⟩]
          have hmem : List.Forall₂ (fun b a => b ∈ updated' ∧ Beside (LendingOnly rest) a b)
              updated' updated :=
            (List.forall₂_and_left _ _).mpr ⟨fun _ hb => hb, hagree.flip⟩
          refine List.forall₂_map_right_iff.mpr (hmem.flip.imp fun a b ⟨hb, hab⟩ => ?_)
          have hkey : a.key = b.key := by rw [hab.same]
          refine ⟨hkey.trans (drained_key b).symm, fun later hlater hnames => ?_⟩
          by_cases hkept : drained b = b
          · rw [hkept]
            exact hab.imp_right fun hbehind => ⟨hbehind.1 later hlater hnames, hbehind.2⟩
          · obtain ⟨hlending, hown⟩ :=
              hunseen updated' hleft b hb hkept later hlater (hkey ▸ hnames)
            refine .inr ⟨hlending, behind_drained (hab.imp (fun heq => ⟨heq, heq ▸ hown⟩)
              fun hbehind => hbehind.2) hkept⟩
    · -- Both modes run the same program on the same accounts.
      rw [hsame hprog]
      cases hv : verdict ex tx poisoned instr (accountsOf t' instr) with
      | error e => rfl
      | ok updated =>
        refine hnext updated updated (hsame hprog ▸ hv) hv ?_
        rw [show kept .commit instr updated = updated from if_neg fun h => hprog h.2]
        exact List.forall₂_same.mpr fun a _ => ⟨rfl, fun _ _ _ => .inl rfl⟩

end

/-- What a commit would store can be stored. -/
def Saves (ex : Executor) (w : World) (tx : RuntimeTransaction) : Prop :=
  ∀ r, Comp.Returns (Executor.applyInstructions ex .commit tx tx.message.instructions)
    { toWorld := w } () r →
      (r.state.saveAccountsAtomic (r.overlay.entries.map fun e => (e.1, e.2))).isSome = true

/-- **A dry run predicts the commit where no emptied queue is seen again.** For every node, every
    world and every transaction: if each account whose queue a commit would empty is named from
    then on by lending instructions alone, and is the lending program's, the two modes end alike,
    with the same error if any. -/
theorem preflight_agrees (ex : Executor) (w : World) (tx : RuntimeTransaction)
    (hsaves : Saves ex w tx)
    (hunseen : Unseen ex tx tx.message.instructions w.state.accounts w.state.accounts) :
    (ex.apply w tx .preflight).1 = (ex.apply w tx .commit).1 := by
  have hloop : ∀ mode, (Comp.exec (Executor.applyInstructions ex mode tx tx.message.instructions)
      { toWorld := w }).1 = outcome ex mode tx w.poisoned tx.message.instructions
        w.state.accounts := by
    intro mode
    rw [exec_applyInstructions_outcome]
    exact congrArg _ Table.layered_empty
  have hsame : TablesParallel tx.message.instructions w.state.accounts w.state.accounts :=
    fun _ _ _ _ => .inl rfl
  have hagree : outcome ex .preflight tx w.poisoned _ _ = outcome ex .commit tx w.poisoned _ _ :=
    outcome_agrees _ _ _ hsame hunseen
  rw [← hloop, ← hloop] at hagree
  have hdry : (ex.apply w tx .preflight).1 = (Comp.exec
      (Executor.applyInstructions ex .preflight tx tx.message.instructions)
        { toWorld := w }).1 := by
    unfold Executor.apply Executor.run
    rw [Comp.exec_bind, if_neg (by decide)]
    cases Comp.exec (Executor.applyInstructions ex .preflight tx tx.message.instructions)
        { toWorld := w } with
    | mk result r => cases result <;> rfl
  rw [hdry, hagree]
  unfold Executor.apply Executor.run
  rw [Comp.exec_bind, if_pos rfl]
  cases hexec : Comp.exec (Executor.applyInstructions ex .commit tx tx.message.instructions)
      { toWorld := w } with
  | mk result r =>
    cases result with
    | error e => rfl
    | ok u =>
      obtain ⟨state, hsave⟩ := Option.isSome_iff_exists.mp (hsaves r hexec)
      have hpersist : Comp.Returns Executor.persist r () { r with state } := by
        refine Comp.returns_bind.mpr ⟨r, r, Comp.returns_get.mpr ⟨rfl, rfl⟩, ?_⟩
        rw [hsave]
        exact Comp.returns_set.mpr rfl
      dsimp only
      rw [show Comp.exec Executor.persist r = _ from hpersist]

instance (ex : Executor) (tx : RuntimeTransaction) (instr : Instruction)
    (accounts : List AccountInfo) (rest : List Instruction) :
    Decidable (LeavesUnseen ex tx instr accounts rest) := by
  unfold LeavesUnseen
  infer_instance

instance : DecidablePred Short := fun accounts => by
  unfold Short
  infer_instance

instance (ex : Executor) (tx : RuntimeTransaction) (instr : Instruction)
    (accounts accounts' : List AccountInfo) : Decidable (Roomy ex tx instr accounts accounts') := by
  unfold Roomy
  infer_instance

instance decidableUnseen (ex : Executor) (tx : RuntimeTransaction) :
    ∀ (instrs : List Instruction) (t t' : Accounts), Decidable (Unseen ex tx instrs t t')
  | [], _, _ => .isTrue trivial
  | instr :: rest, t, t' => by
      have := decidableUnseen ex tx rest
      unfold Unseen
      infer_instance

instance (ex : Executor) (w : World) (tx : RuntimeTransaction) : Decidable (Saves ex w tx) :=
  match hexec : Comp.exec (Executor.evalInstructions ex .commit tx tx.message.instructions)
      { toWorld := w } with
  | (.ok _, r) =>
      decidable_of_iff ((r.state.saveAccountsAtomic
          (r.overlay.entries.map fun e => (e.1, e.2))).isSome = true)
        ⟨fun h r' hr => by
          rw [Comp.Returns, Executor.applyInstructions_eval, hexec] at hr
          cases hr
          exact h, fun h => h r ((Executor.applyInstructions_eval _ _).trans hexec)⟩
  | (.error _, _) => .isTrue fun r hr => by
      rw [Comp.Returns, Executor.applyInstructions_eval, hexec] at hr
      cases hr

/-- The borrower repays twice in one transaction. -/
def repaysInTwo : RuntimeTransaction := signedBy [.repeated 2] [repays, repays]

theorem preflight_agrees_repayments :
    (Executor.apply (.bare .dev) lendingWorld repaysInTwo .preflight).1 =
      (Executor.apply (.bare .dev) lendingWorld repaysInTwo .commit).1 := by
  have hunseen : Unseen (.bare .dev) repaysInTwo repaysInTwo.message.instructions
      lendingWorld.state.accounts lendingWorld.state.accounts := by
    decide +kernel
  exact preflight_agrees (.bare .dev) lendingWorld repaysInTwo (by decide +kernel) hunseen

/-- A repayment, and then 300 bytes for the collection, which has 331 with its queue. -/
def repaysAndAllocates : RuntimeTransaction :=
  signedBy [.repeated 2, .repeated 3] [repays, System.allocate (.repeated 3) 300]

/-- **A dry run that goes through where the commit fails.** The commit has emptied the queue, so
    the system program enlarges an account that is not its own. -/
theorem preflight_misleads :
    (Executor.apply (.bare .dev) lendingWorld repaysAndAllocates .preflight).1 = .ok () ∧
      (Executor.apply (.bare .dev) lendingWorld repaysAndAllocates .commit).1 =
        .error (.error ⟨-32002,
          "VM error: program error: write to an account the program does not own"⟩) := by
  rw [Executor.apply_eval, Executor.apply_eval]
  decide +kernel

end Proof
end Himsha
