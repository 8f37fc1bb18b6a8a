import Himsha.Lib.Preimages
import Himsha.Proof.Anchors
import Himsha.Proof.ChainRoots
import Himsha.Proof.Inclusion

/-!
# What a client need not believe

A client takes a state root from Bitcoin, and an account and its proof from whoever answers. The
answer can be anything: siblings of any length, in upper or lower case, as many as one likes. If one
of the client libraries accepts it, then the account is in the table that the chain replays to at
the anchored slot, or else a collision of SHA-256 lies in what the library hashed (`Accepts`) and in
what was hashed for the root (`stateInputs`).
-/

set_option autoImplicit false

namespace Himsha
namespace Proof

open Himsha.Lib Himsha.Lib.MerkleTree Himsha.Runtime Himsha.Vm Himsha.Node Himsha.Sdk
open Himsha.Programs.Lending

/-! ## What is hashed -/

def leafInput (key : Blob 32) (accountBytes : List UInt8) : List UInt8 :=
  0x00 :: key.bytes ++ accountBytes

def nodeInput (left right : Blob 32) : List UInt8 := 0x01 :: left.bytes ++ right.bytes

/-- The digest is one half of what is hashed, next to a sibling that may be anything. -/
def Contains (d : Blob 32) (x : List UInt8) : Prop :=
  ∃ sib, x = 0x01 :: d.bytes ++ sib ∨ x = 0x01 :: sib ++ d.bytes

theorem contains_nodeInput {d l r : Blob 32} (h : Contains d (nodeInput l r)) : d = l ∨ d = r := by
  obtain ⟨sib, h | h⟩ := h
  · have hbytes : l.bytes ++ r.bytes = d.bytes ++ sib := List.cons.inj h |>.2
    have hleft := (List.append_inj hbytes (l.length_eq.trans d.length_eq.symm)).1
    exact .inl (Blob.ext hleft.symm)
  · have hbytes : l.bytes ++ r.bytes = sib ++ d.bytes := List.cons.inj h |>.2
    have hright := (List.append_inj' hbytes (r.length_eq.trans d.length_eq.symm)).2
    exact .inr (Blob.ext hright.symm)

/-- The tags are different. -/
theorem leafInput_ne_nodeInput (key l r : Blob 32) (bytes : List UInt8) :
    leafInput key bytes ≠ nodeInput l r := by
  intro h
  exact absurd (List.cons.inj h).1 (by decide)

theorem not_contains_leafInput (key d : Blob 32) (bytes : List UInt8) :
    ¬ Contains d (leafInput key bytes) := by
  rintro ⟨sib, h | h⟩
  · exact absurd (List.cons.inj h).1 (by decide)
  · exact absurd (List.cons.inj h).1 (by decide)

/-- A key has 32 bytes, so it ends where the record begins. -/
theorem leafInput_inj {key key' : Blob 32} {bytes bytes' : List UInt8}
    (h : leafInput key bytes = leafInput key' bytes') : key = key' ∧ bytes = bytes' := by
  have htail : key.bytes ++ bytes = key'.bytes ++ bytes' := (List.cons.inj h).2
  obtain ⟨hkey, hbytes⟩ := List.append_inj htail (key.length_eq.trans key'.length_eq.symm)
  exact ⟨Blob.ext hkey, hbytes⟩

section
variable {S : Type} (r : Reader S)

/-- What `step` hashes, one sibling after the other. -/
def climbInputs : List UInt8 × Nat → List S → List (List UInt8)
  | _, [] => []
  | (h, idx), sibHex :: siblings =>
      match r.fromHex sibHex with
      | none => []
      | some sib =>
          let x := if r.isEven idx then 0x01 :: h ++ sib else 0x01 :: sib ++ h
          x :: climbInputs ((sha256 x).bytes, r.half idx) siblings

/-- What `verifyAccountInState` hashes. -/
def hashedInputs (key : Blob 32) (accountBytes : List UInt8) (proof : ReceivedProof S) :
    List (List UInt8) :=
  leafInput key accountBytes ::
    climbInputs r ((sha256 (leafInput key accountBytes)).bytes, proof.index) proof.siblings

variable {r} {first x : List UInt8} {xs : List (List UInt8)}

/-- The library climbs. -/
theorem climb_inputs {siblings : List S} {idx idx' : Nat} {h' : List UInt8}
    (hclimb : Climb sha256 Contains first x xs)
    (hfold : siblings.foldlM r.step ((sha256 x).bytes, idx) = some (h', idx')) :
    ∃ y, Climb sha256 Contains first y
        ((climbInputs r ((sha256 x).bytes, idx) siblings).reverse ++ xs) ∧
      (sha256 y).bytes = h' := by
  induction siblings generalizing x xs idx with
  | nil =>
    obtain ⟨rfl, rfl⟩ := Prod.mk.inj (Option.some.inj hfold)
    exact ⟨x, hclimb, rfl⟩
  | cons sibHex siblings ih =>
    rw [List.foldlM_cons] at hfold
    obtain ⟨⟨h, i⟩, hstep, hrest⟩ := Option.bind_eq_some_iff.mp hfold
    obtain ⟨sib, hsib, heq⟩ := Option.bind_eq_some_iff.mp hstep
    -- Whatever the side, the digest so far is one half of what is hashed next.
    obtain ⟨y, hy, hcontains⟩ : ∃ y, (if r.isEven idx then 0x01 :: (sha256 x).bytes ++ sib
        else 0x01 :: sib ++ (sha256 x).bytes) = y ∧ Contains (sha256 x) y := by
      by_cases heven : r.isEven idx
      · exact ⟨_, if_pos heven, sib, .inl rfl⟩
      · exact ⟨_, if_neg heven, sib, .inr rfl⟩
    have hnext : (h, i) = ((sha256 y).bytes, r.half idx) := by
      rw [← Option.some.inj heq, ← hy]
      split <;> rfl
    rw [hnext] at hrest
    obtain ⟨z, hz, hdigest⟩ := ih (.up hclimb hcontains) hrest
    refine ⟨z, ?_, hdigest⟩
    simp only [climbInputs, hsib, hy, List.reverse_cons, List.append_assoc, List.singleton_append]
    exact hz

end

/-! ## The libraries -/

/-- A library that compares without regard to case also reads without. -/
structure ReadsCases {S : Type} (r : Reader S) (render : String → S) : Prop
    extends Reads r render where
  fromHexCases : ∀ {s bytes}, r.toLower s = render (hexEncode bytes) → r.fromHex s = some bytes

namespace ReadsCases

variable {S : Type} [DecidableEq S] {r : Reader S} {render : String → S} {key root : Blob 32}
  {bytes : List UInt8} {proof : ReceivedProof S}

/-- **What is accepted climbs to the root** from the leaf of the account. -/
theorem climb (hr : ReadsCases r render)
    (h : r.verifyAccountInState key.bytes bytes proof (render (hexEncode root.bytes)) = some true) :
    ∃ x, Climb sha256 Contains (leafInput key bytes) x (hashedInputs r key bytes proof).reverse ∧
      sha256 x = root := by
  unfold Reader.verifyAccountInState at h
  split at h
  · cases h
  · rename_i hleaf
    have hlower : r.toLower proof.leaf = render (hexEncode (sha256 (leafInput key bytes)).bytes) :=
      (not_not.mp hleaf).symm.trans (hr.toHex _)
    obtain ⟨leaf, hread, hclimb⟩ := Option.bind_eq_some_iff.mp h
    obtain rfl := Option.some.inj ((hr.fromHexCases hlower).symm.trans hread)
    obtain ⟨⟨d, idx⟩, hfold, hsame⟩ := Option.bind_eq_some_iff.mp hclimb
    obtain ⟨x, hx, hdigest⟩ := climb_inputs .start hfold
    refine ⟨x, ?_, Blob.ext (hdigest.trans ?_)⟩
    · rw [hashedInputs, List.reverse_cons]
      exact hx
    · exact hr.toHex_inj.mp (of_decide_eq_true (Option.some.inj hsame))

end ReadsCases

/-- The code unit of a digit, in upper case if it is a letter. -/
def caseUnit (d : Fin 16) (upper : Bool) : UInt16 :=
  if upper && 10 ≤ d.val then digitUnit d - 0x20 else digitUnit d

theorem eq_caseUnit {u : UInt16} {d : Fin 16} (h : JsString.lowerUnit u = digitUnit d) :
    ∃ upper, u = caseUnit d upper := by
  unfold JsString.lowerUnit at h
  split at h
  · rename_i hupper
    have hu : u = digitUnit d - 0x20 := by rw [← h, UInt16.add_sub_cancel]
    have hletter : ∀ d : Fin 16, 0x41 ≤ digitUnit d - 0x20 → digitUnit d - 0x20 ≤ 0x5A →
        10 ≤ d.val := by decide
    refine ⟨true, ?_⟩
    rw [caseUnit, if_pos (by simpa using hletter d (hu ▸ hupper.1) (hu ▸ hupper.2))]
    exact hu
  · exact ⟨false, h⟩

/-- The case of the digits makes no difference to a library that reads two of them so. -/
theorem fromHex_cases {parse : JsString → Option Int}
    (hparse : ∀ (hi lo : Fin 16) (a b : Bool),
      parse [caseUnit hi a, caseUnit lo b] = parse [digitUnit hi, digitUnit lo])
    {s : JsString} {bytes : List UInt8} (h : JsString.toLower s = .ofText (hexEncode bytes)) :
    JsString.fromHex parse s = JsString.fromHex parse (.ofText (hexEncode bytes)) := by
  unfold JsString.toLower at h
  induction bytes generalizing s with
  | nil =>
    obtain rfl := List.map_eq_nil_iff.mp h
    rfl
  | cons b bytes ih =>
    rw [ofText_hexEncode_cons] at h
    obtain ⟨u, s, rfl, hu, htail⟩ := List.map_eq_cons_iff.mp h
    obtain ⟨v, s, rfl, hv, hrest⟩ := List.map_eq_cons_iff.mp htail
    obtain ⟨upper, rfl⟩ := eq_caseUnit hu
    obtain ⟨upper', rfl⟩ := eq_caseUnit hv
    rw [ofText_hexEncode_cons, JsString.fromHex, JsString.fromHex, hparse, ih hrest]

theorem typescript_readsCases : ReadsCases TypeScript.reader JsString.ofText where
  toReads := typescript_reads
  fromHexCases {s bytes} h := by
    refine (fromHex_cases (fun hi lo a b => ?_) h).trans (typescript_reads.fromHex bytes)
    have hparse : TypeScript.parseInt16 [caseUnit hi a, caseUnit lo b] =
        TypeScript.parseInt16 [digitUnit hi, digitUnit lo] := by
      revert hi lo a b
      decide +kernel
    rw [hparse]

theorem dart_readsCases : ReadsCases Dart.reader JsString.ofText where
  toReads := dart_reads
  fromHexCases {s bytes} h := by
    refine (fromHex_cases (fun hi lo a b => ?_) h).trans (dart_reads.fromHex bytes)
    revert hi lo a b
    decide +kernel

/-- A character and its lower case are read alike. -/
theorem python_lower (c : Char) :
    Python.isSpace c.toLower = Python.isSpace c ∧ hexValue c.toLower = hexValue c := by
  by_cases hupper : c.val ≥ 'A'.val ∧ c.val ≤ 'Z'.val
  · have hn : 65 ≤ c.toNat ∧ c.toNat ≤ 90 := hupper
    have hc : c = Char.ofNat c.toNat := (Char.ofNat_toNat c).symm
    generalize c.toNat = n at hn hc
    subst hc
    obtain ⟨hlow, hhigh⟩ := hn
    have hall : ∀ k : Fin 26, Python.isSpace (Char.ofNat (k + 65)).toLower =
        Python.isSpace (Char.ofNat (k + 65)) ∧
          hexValue (Char.ofNat (k + 65)).toLower = hexValue (Char.ofNat (k + 65)) := by
      decide
    simpa [Nat.sub_add_cancel hlow] using hall ⟨n - 65, by omega⟩
  · have hsame : c.toLower = c := dif_neg hupper
    rw [hsame]
    exact ⟨rfl, rfl⟩

theorem python_fromHex_lower (s : List Char) :
    Python.fromHex (s.map Char.toLower) = Python.fromHex s := by
  fun_induction Python.fromHex s with
  | case1 => rfl
  | case2 c hspace =>
    rw [List.map_singleton, Python.fromHex, (python_lower c).1, hspace]
    rfl
  | case3 c hspace =>
    rw [List.map_singleton, Python.fromHex, (python_lower c).1, if_neg hspace]
  | case4 c d s hspace ih =>
    rw [List.map_cons, List.map_cons, Python.fromHex, (python_lower c).1, if_pos hspace, ← ih]
    rfl
  | case5 c d s hspace ih =>
    rw [List.map_cons, List.map_cons, Python.fromHex, (python_lower c).1, if_neg hspace, ih,
      (python_lower c).2, (python_lower d).2]

theorem python_readsCases : ReadsCases Python.reader id where
  toReads := python_reads
  fromHexCases {s bytes} h := by
    have hlist : s.toList.map Char.toLower = (hexEncode bytes).toList := by
      simpa [Python.reader] using congrArg String.toList h
    change Python.fromHex s.toList = some bytes
    rw [← python_fromHex_lower, hlist]
    exact python_fromHex bytes

/-- What a client hashed when its library accepted the account: these bytes, under this key, in this
    root. -/
inductive Accepts (root key : Blob 32) (bytes : List UInt8) : List (List UInt8) → Prop
  | typescript (proof : ReceivedProof JsString)
      (h : TypeScript.verifyAccountInState key.bytes bytes proof (.ofText (hexEncode root.bytes)) =
        some true) : Accepts root key bytes (hashedInputs TypeScript.reader key bytes proof)
  | python (proof : ReceivedProof String)
      (h : Python.verifyAccountInState key.bytes bytes proof (hexEncode root.bytes) = some true) :
      Accepts root key bytes (hashedInputs Python.reader key bytes proof)
  | dart (proof : ReceivedProof JsString)
      (h : Dart.verifyAccountInState key.bytes bytes proof (.ofText (hexEncode root.bytes)) =
        some true) : Accepts root key bytes (hashedInputs Dart.reader key bytes proof)

theorem Accepts.climb {root key : Blob 32} {bytes : List UInt8} {hashed : List (List UInt8)}
    (h : Accepts root key bytes hashed) :
    ∃ x, Climb sha256 Contains (leafInput key bytes) x hashed.reverse ∧ sha256 x = root := by
  cases h with
  | typescript proof h => exact typescript_readsCases.climb h
  | python proof h => exact python_readsCases.climb h
  | dart proof h => exact dart_readsCases.climb h

/-! ## The table -/

/-- The records of a table as they are hashed, in the order of the keys. -/
def leafInputs (t : Accounts) : List (List UInt8) :=
  (NodeState.sortedKeys { accounts := t }).filterMap fun key =>
    (t.lookup key).map fun account => leafInput key.bytes ((toVec account).getD [])

/-- What is hashed for the root of a table. -/
def stateInputs (t : Accounts) : List (List UInt8) :=
  leafInputs t ++ inputs sha256 nodeInput ((leafInputs t).map sha256)

theorem rootOf_eq (t : Accounts) : rootOf t =
    MerkleTree.root (fun l r => sha256 (nodeInput l r)) Merkle.emptyRoot
      ((leafInputs t).map sha256) := by
  unfold rootOf NodeState.computeStateRoot leafInputs
  rw [Merkle.merkleRoot_eq, List.map_filterMap]
  simp only [Option.map_map]
  rfl

theorem mem_leafInputs {t : Accounts} {x : List UInt8} : x ∈ leafInputs t ↔
    ∃ key account, t.lookup key = some account ∧
      leafInput key.bytes ((toVec account).getD []) = x := by
  unfold leafInputs NodeState.sortedKeys
  simp only [List.mem_filterMap, Finset.mem_sort, Finmap.mem_keys, Option.map_eq_some_iff]
  constructor
  · rintro ⟨key, -, account, hlookup, hx⟩
    exact ⟨key, account, hlookup, hx⟩
  · rintro ⟨key, account, hlookup, hx⟩
    exact ⟨key, Finmap.mem_of_lookup_eq_some hlookup, account, hlookup, hx⟩

theorem length_leafInputs (t : Accounts) : (leafInputs t).length ≤ t.keys.card := by
  unfold leafInputs NodeState.sortedKeys
  exact (List.length_filterMap_le _ _).trans (Finset.length_sort _).le

/-- A record that can be read is the record it was written as. -/
theorem stored_of_mem {t : Accounts} {key : Pubkey} {bytes : List UInt8}
    {account : StoredAccount} (hdecodes : tryFromSlice bytes = some account)
    (h : leafInput key.bytes bytes ∈ leafInputs t) : t.lookup key = some account := by
  obtain ⟨key', stored, hlookup, heq⟩ := mem_leafInputs.mp h
  obtain ⟨hkey, rfl⟩ := leafInput_inj heq
  obtain rfl : key' = key := by
    cases key
    cases key'
    cases hkey
    rfl
  cases hvec : toVec stored with
  | none =>
    rw [hvec] at hdecodes
    cases hdecodes
  | some out =>
    rw [hvec, Option.getD_some, tryFromSlice_toVec hvec] at hdecodes
    rw [hlookup, hdecodes]

/-- What the client libraries say of a root is what is in the table, as far as SHA-256 confuses
    nothing that is hashed for the two. -/
structure Binds (root : Blob 32) (t : Accounts) : Prop where
  sound : ∀ (key : Pubkey) (bytes : List UInt8) (account : StoredAccount)
    (hashed : List (List UInt8)), tryFromSlice bytes = some account →
    Accepts root key.bytes bytes hashed →
    t.lookup key = some account ∨ (∃ x ∈ hashed, sha256 x = Merkle.emptyRoot) ∨
      Collision sha256 hashed (stateInputs t)
  /-- Positions are 64-bit. -/
  complete : ∀ (key : Pubkey) (account : StoredAccount) (bytes : List UInt8),
    t.lookup key = some account → toVec account = some bytes → t.keys.card ≤ 2 ^ 64 →
    ∃ answer : StateProof, answer.stateRoot = hexEncode root.bytes ∧ Accepted answer key bytes

theorem binds_rootOf (t : Accounts) : Binds (rootOf t) t where
  sound key bytes account hashed hdecodes h := by
    obtain ⟨x, hclimb, hroot⟩ := h.climb
    rw [rootOf_eq] at hroot
    have hleaves : ∀ leaf ∈ leafInputs t, ∀ d, ¬ Contains d leaf := by
      intro leaf hleaf d
      obtain ⟨key', stored, -, rfl⟩ := mem_leafInputs.mp hleaf
      exact not_contains_leafInput key'.bytes d _
    rcases hclimb.mem_or_collision contains_nodeInput
        (fun l r => leafInput_ne_nodeInput key.bytes l r bytes) hleaves hroot with
      hmem | ⟨y, hy, hzero⟩ | ⟨y, hy, z, hz, hyz⟩
    · exact .inl (stored_of_mem hdecodes hmem)
    · exact .inr (.inl ⟨y, List.mem_reverse.mp hy, hzero⟩)
    · exact .inr (.inr ⟨y, List.mem_reverse.mp hy, z, hz, hyz⟩)
  complete key account bytes hlookup hvec hsize := by
    have hmem : sha256 (leafInput key.bytes bytes) ∈ (leafInputs t).map sha256 :=
      List.mem_map_of_mem (mem_leafInputs.mpr ⟨key, account, hlookup, by rw [hvec]; rfl⟩)
    obtain ⟨i, hi, hleaf⟩ := List.mem_iff_getElem.mp hmem
    have hindex : (UInt64.ofNat i).toNat = i := by
      rw [List.length_map] at hi
      exact UInt64.toNat_ofNat_of_lt'
        (Nat.lt_of_lt_of_le hi ((length_leafInputs t).trans hsize))
    have hfound : ((leafInputs t).map sha256)[(UInt64.ofNat i).toNat]? =
        some (sha256 (leafInput key.bytes bytes)) := by
      rw [hindex, List.getElem?_eq_getElem hi, hleaf]
    obtain ⟨siblings, -, hroot⟩ := Merkle.buildProof_leaf .sha hfound
    exact ⟨_, rfl, Accepted.ofProof none rfl (decide_eq_true (hroot.trans (rootOf_eq t).symm))⟩

/-! ## The chain -/

/-- The root is that of the table which the chain replays to at the slot. The first block is in
    slot 1. -/
def Replayed (m : Machine) (genesis : Accounts) (st : NodeState) (slot : Nat) (root : Blob 32) :
    Prop :=
  0 < slot ∧ ∃ t, replayTo m genesis st.blocks slot = some t ∧ root = rootOf t

section
variable {ex : Executor} {g : Gate} {boot : ElectionState} {genesis : Accounts} {interval : Nat}
  {indexer : Bool} {s s' : AnchoringNode}

theorem replayed_lasting {m : Machine} : Lasting (Replayed m genesis) := by
  rintro st st' slot root hext ⟨hpos, t, ht, hroot⟩
  exact ⟨hpos, t, replayTo_mono hext.blocks ht, hroot⟩

/-- A block that has just been saved is the end of the chain. -/
theorem replayed_saved {node : Sequencer} (h : Durable ex.machine genesis node) :
    KnowsSaved ex (Replayed ex.machine genesis) node := by
  intro now node' d hstep hp
  have hdurable : Durable ex.machine genesis node' := produce_durable h hstep
  unfold Durable at h
  rw [hp] at h
  obtain ⟨hslot, ⟨n, t, hn, -⟩, -⟩ := h
  unfold Sequencer.produce at hstep
  simp only [hp, Option.some.injEq] at hstep
  subst hstep
  exact ⟨by omega, node.world.state.accounts,
    (congrArg (replayTo ex.machine genesis _) hslot).trans hdurable.1.replays,
    computeStateRoot_eq _⟩

/-- The node crashes between blocks only. -/
def RestsAtCrash (s : AnchoringNode) : AnchorAction → Prop
  | .node i => CrashesAtRest s.node i
  | _ => True

instance (s : AnchoringNode) (a : AnchorAction) : Decidable (RestsAtCrash s a) := by
  unfold RestsAtCrash
  cases a <;> infer_instance

/-- What is anchored and what is recorded makes no difference to the node. -/
theorem step_node {a : AnchorAction} (h : s.step ex g boot interval indexer a = some s') :
    (∃ i, a = .node i ∧ s.node.incident ex g boot i = some s'.node) ∨ s'.node = s.node := by
  cases a with
  | node i =>
    refine .inl ⟨i, rfl, ?_⟩
    cases i with
    | crash =>
      simp only [AnchoringNode.step] at h
      obtain ⟨node, hnode, rfl⟩ := Option.map_eq_some_iff.mp h
      exact hnode
    | act a =>
      cases a with
      | produce now =>
        simp only [AnchoringNode.step] at h
        split at h
        · obtain ⟨node, hnode, rfl⟩ := Option.map_eq_some_iff.mp h
          rw [hnode]
          unfold AnchoringNode.afterProduce
          split
          · rfl
          · split <;> rfl
          · rfl
        · cases h
      | submit tx | serve c | election c =>
        simp only [AnchoringNode.step] at h
        obtain ⟨node, hnode, rfl⟩ := Option.map_eq_some_iff.mp h
        exact hnode
  | publish b =>
    simp only [AnchoringNode.step] at h
    split at h
    · obtain rfl := Option.some.inj h
      cases b <;> exact .inr rfl
    · cases h
  | record =>
    simp only [AnchoringNode.step] at h
    split at h
    · obtain rfl := Option.some.inj h
      exact .inr rfl
    · cases h

theorem step_durable_anchored {a : AnchorAction} (h : Durable ex.machine genesis s.node)
    (hok : RestsAtCrash s a) (hstep : s.step ex g boot interval indexer a = some s') :
    Durable ex.machine genesis s'.node := by
  rcases step_node hstep with ⟨i, rfl, hincident⟩ | hsame
  · exact incident_durable h hok hincident
  · exact hsame ▸ h

/-- What is broadcast is the root of the chain at its slot. -/
theorem run_replayed {s₀ : AnchoringNode} {actions : List AnchorAction}
    (hdurable : Durable ex.machine genesis s₀.node)
    (hstart : AnchorInv (Replayed ex.machine genesis) interval s₀)
    (hmeets : Meets (AnchoringNode.step ex g boot interval indexer) RestsAtCrash s₀ actions)
    (hrun : Lib.run (AnchoringNode.step ex g boot interval indexer) s₀ actions = some s) :
    AnchorInv (Replayed ex.machine genesis) interval s := by
  have hboth : Durable ex.machine genesis s.node ∧
      AnchorInv (Replayed ex.machine genesis) interval s := by
    refine run_invariant (I := fun s => Durable ex.machine genesis s.node ∧
      AnchorInv (Replayed ex.machine genesis) interval s) ?_ hmeets ⟨hdurable, hstart⟩ hrun
    rintro s a s' hok ⟨hd, hinv⟩ hstep
    exact ⟨step_durable_anchored hd hok hstep,
      step_anchorInv replayed_lasting (replayed_saved hd) hinv hstep⟩
  exact hboth.2

end

/-- **A client need trust Bitcoin only.** In every run of an anchoring node from one that has anchored
    nothing, crashed between blocks only, whatever becomes of its broadcasts: every payload that was
    broadcast reads back as a slot and a root, the stored blocks replay to a table at this slot, and
    the root binds the table. So an account that a client library accepts in this root, with any
    proof from anyone, is in the table, or else something that the library hashed has digest zero
    or collides with something hashed for the root; and every account of the table has a proof
    that the libraries accept. -/
theorem anchored_roots_bind (ex : Executor) (g : Gate) (boot : ElectionState) (genesis : Accounts)
    (interval : Nat) (indexer : Bool) (s₀ s : AnchoringNode) (actions : List AnchorAction)
    (hready : Ready ex.machine genesis s₀.node) (hbooted : Booted s₀.node)
    (hfresh : s₀ = { node := s₀.node })
    (hmeets : Meets (AnchoringNode.step ex g boot interval indexer) RestsAtCrash s₀ actions)
    (hrun : Lib.run (AnchoringNode.step ex g boot interval indexer) s₀ actions = some s)
    (hsize : s.node.world.state.slot < 2 ^ 64) :
    ∀ p ∈ s.published, ∃ slot root t, parseAnchorPayload p.2 = some (slot, root) ∧
      0 < slot ∧ slot ≤ s.node.world.state.slot ∧
      replayTo ex.machine genesis s.node.world.state.blocks slot = some t ∧ Binds root t := by
  intro p hp
  have hstart : AnchorInv (Replayed ex.machine genesis) interval s₀ := by
    rw [hfresh]
    exact ⟨hbooted.inv, by simp, by simp, by simp, by simp, by simp, by simp, by simp⟩
  have hinv := run_replayed hready.durable hstart hmeets hrun
  obtain ⟨slot, root, hpayload, ⟨hpos, t, ht, rfl⟩, -⟩ := hinv.published p hp
  obtain ⟨block, hblock⟩ := replayTo_stored ht slot hpos (Nat.le_refl _)
  have hle : slot ≤ s.node.world.state.slot := by
    by_contra hgt
    rw [hinv.ledger.1.fresh slot (Nat.lt_of_not_le hgt)] at hblock
    cases hblock
  refine ⟨slot, _, t, ?_, hpos, hle, ht, binds_rootOf t⟩
  rw [hpayload, parseAnchorPayload_anchorPayload _ (by omega)]

/-- A payment is made, and the root of its block is broadcast. -/
def anchoredPayment : List AnchorAction :=
  (settledPayment ++ [Incident.act (.produce 0)]).map .node ++ [.publish (.sent "a"), .record]

/-- What was paid can be shown. -/
theorem anchored_roots_bind_paid : ∃ s,
    Lib.run (AnchoringNode.step (.bare .dev) payingGate {} 1 true) { node := payingNode }
        anchoredPayment = some s ∧
      ∃ p ∈ s.published, ∃ root bytes, parseAnchorPayload p.2 = some (1, root) ∧
        toVec (wallet 250) = some bytes ∧
        ∃ answer : StateProof, answer.stateRoot = hexEncode root.bytes ∧
          Accepted answer (.repeated 2) bytes := by
  have hcheck : (Lib.run (AnchoringNode.step (.bare .dev) payingGate {} 1 true)
      { node := payingNode } anchoredPayment).any (fun s => s.node.world.state.slot = 1 ∧
        s.published.map Prod.fst = ["a"] ∧
        (replayTo (Executor.bare .dev).machine payingNode.world.state.accounts
          s.node.world.state.blocks 1).any (fun t => t.keys.card ≤ 2 ∧
            t.lookup (.repeated 2) = some (wallet 250)) = true) = true := by
    decide +kernel
  have hmeets : Meets (AnchoringNode.step (.bare .dev) payingGate {} 1 true) RestsAtCrash
      { node := payingNode } anchoredPayment := by
    decide +kernel
  obtain ⟨s, hrun, hthen⟩ := (Option.any_eq_true _ _).mp hcheck
  obtain ⟨hslot, hpublished, hreplayed⟩ := of_decide_eq_true hthen
  obtain ⟨u, hu, hpaid⟩ := (Option.any_eq_true _ _).mp hreplayed
  obtain ⟨hcard, hlookup⟩ := of_decide_eq_true hpaid
  obtain ⟨p, hp, -⟩ : ∃ p ∈ s.published, p.1 = "a" := by
    rw [← List.mem_map, hpublished]
    exact List.mem_singleton_self _
  obtain ⟨slot, root, t, hparse, hpos, hle, ht, hbinds⟩ := anchored_roots_bind (.bare .dev)
    payingGate {} payingNode.world.state.accounts 1 true { node := payingNode } s _
    payingNode_ready payingNode_booted rfl hmeets hrun (by omega) p hp
  obtain rfl : slot = 1 := by omega
  obtain rfl : t = u := Option.some.inj (ht.symm.trans hu)
  obtain ⟨bytes, hbytes⟩ : ∃ bytes, toVec (wallet 250) = some bytes :=
    Option.isSome_iff_exists.mp (stored_encodes (by decide))
  exact ⟨s, hrun, p, hp, root, bytes, hparse, hbytes,
    hbinds.complete (.repeated 2) (wallet 250) bytes hlookup hbytes (by omega)⟩

end Proof
end Himsha
