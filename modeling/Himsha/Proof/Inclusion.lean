import Himsha.Proof.StateRoot
import Himsha.Sdk.StateProof

/-!
# Proofs of inclusion

Every stored account has a proof that leads to the state root (`stateProof_stored`), and what the
node answers with it is accepted in the three client libraries: each of them says of a proof what
the node's own `verify` says, as long as the index is an integer that the library can hold
(`Reader.Reads.verifyStateProof`).
-/

set_option autoImplicit false

namespace Himsha
namespace Proof

open Himsha.Lib Himsha.Runtime Himsha.Runtime.Merkle Himsha.Node Himsha.Sdk
open Himsha.Programs.Lending

/-! ## Reading and writing hexadecimals -/

/-- The code unit of a digit. -/
def digitUnit (d : Fin 16) : UInt16 := UInt16.ofNat (Nat.digitChar d).toNat

theorem units_digit (d : Fin 16) : JsString.units (Nat.digitChar d) = [digitUnit d] := by
  revert d
  decide

theorem ofText_hexEncode_cons (b : UInt8) (bytes : List UInt8) :
    JsString.ofText (hexEncode (b :: bytes)) =
      digitUnit (high b) :: digitUnit (low b) :: JsString.ofText (hexEncode bytes) := by
  have hhigh : JsString.units (Nat.digitChar (b.toNat / 16)) = [digitUnit (high b)] :=
    units_digit (high b)
  have hlow : JsString.units (Nat.digitChar (b.toNat % 16)) = [digitUnit (low b)] :=
    units_digit (low b)
  unfold JsString.ofText
  rw [hexEncode_cons, List.flatMap_cons, List.flatMap_cons, hhigh, hlow]
  rfl

theorem padded_eq (b : UInt8) :
    JsString.padded b = [Nat.digitChar (b.toNat / 16), Nat.digitChar (b.toNat % 16)] := by
  unfold JsString.padded
  by_cases hb : b.toNat < 16
  · rw [Nat.toDigits_of_lt_base hb, Nat.div_eq_of_lt hb, Nat.mod_eq_of_lt hb]
    rfl
  · have hhigh : b.toNat / 16 < 16 := (high b).isLt
    rw [Nat.toDigits_of_base_le (by decide) (Nat.le_of_not_lt hb), Nat.toDigits_of_lt_base hhigh]
    rfl

theorem toHex_eq (bytes : List UInt8) :
    JsString.toHex bytes = JsString.ofText (hexEncode bytes) := by
  have hpadded : JsString.padded =
      fun b => [Nat.digitChar (b.toNat / 16), Nat.digitChar (b.toNat % 16)] := funext padded_eq
  unfold JsString.toHex hexEncode
  rw [hpadded]

/-- A library that reads two digits as their number reads what the node writes. -/
theorem fromHex_hexEncode {parse : JsString → Option Int}
    (hparse : ∀ hi lo : Fin 16,
      parse [digitUnit hi, digitUnit lo] = some ((16 * hi.val + lo.val : Nat) : Int))
    (bytes : List UInt8) : JsString.fromHex parse (.ofText (hexEncode bytes)) = some bytes := by
  induction bytes with
  | nil => rfl
  | cons b bytes ih =>
    have hbyte : UInt8.ofInt ((16 * (high b).val + (low b).val : Nat) : Int) = b := by
      have hsmall : ((b.toNat : Int) % 2 ^ 8).toNat = b.toNat := by
        have := b.toNat_lt
        omega
      rw [high_low, UInt8.ofInt, hsmall]
      exact UInt8.ofNat_toNat
    rw [ofText_hexEncode_cons, JsString.fromHex, hparse, ih]
    change some (UInt8.ofInt ((16 * (high b).val + (low b).val : Nat) : Int) :: bytes) = _
    rw [hbyte]

theorem lowerUnit_digit (d : Fin 16) : JsString.lowerUnit (digitUnit d) = digitUnit d := by
  revert d
  decide

theorem toLower_hexEncode (bytes : List UInt8) :
    JsString.toLower (.ofText (hexEncode bytes)) = .ofText (hexEncode bytes) := by
  unfold JsString.toLower
  induction bytes with
  | nil => rfl
  | cons b bytes ih =>
    rw [ofText_hexEncode_cons, List.map_cons, List.map_cons, lowerUnit_digit, lowerUnit_digit, ih]

theorem typescript_parse (hi lo : Fin 16) :
    TypeScript.parseInt16 [digitUnit hi, digitUnit lo] =
      some ((16 * hi.val + lo.val : Nat) : Int) := by
  revert hi lo
  decide

theorem dart_parse (hi lo : Fin 16) :
    Dart.parseInt16 [digitUnit hi, digitUnit lo] =
      some ((16 * hi.val + lo.val : Nat) : Int) := by
  revert hi lo
  decide

/-- A digit is no space and has its value, and is in lower case. -/
theorem python_digit (d : Fin 16) : Python.isSpace (Nat.digitChar d) = false ∧
    hexValue (Nat.digitChar d) = some d.val ∧ (Nat.digitChar d).toLower = Nat.digitChar d := by
  revert d
  decide

theorem python_fromHex (bytes : List UInt8) :
    Python.fromHex (hexEncode bytes).toList = some bytes := by
  induction bytes with
  | nil => rfl
  | cons b bytes ih =>
    obtain ⟨hspace, hhigh, -⟩ := python_digit (high b)
    obtain ⟨-, hlow, -⟩ := python_digit (low b)
    have hbyte : UInt8.ofNat (16 * (high b).val + (low b).val) = b := by
      rw [high_low]
      exact UInt8.ofNat_toNat
    change Python.isSpace (Nat.digitChar (b.toNat / 16)) = false at hspace
    change hexValue (Nat.digitChar (b.toNat / 16)) = some (high b).val at hhigh
    change hexValue (Nat.digitChar (b.toNat % 16)) = some (low b).val at hlow
    rw [hexEncode_cons, Python.fromHex, hspace, hhigh, hlow, ih]
    change some (UInt8.ofNat (16 * (high b).val + (low b).val) :: bytes) = some (b :: bytes)
    rw [hbyte]

theorem python_toLower (bytes : List UInt8) :
    Python.reader.toLower (hexEncode bytes) = hexEncode bytes := by
  have hlower : (hexEncode bytes).toList.map Char.toLower = (hexEncode bytes).toList := by
    induction bytes with
    | nil => rfl
    | cons b bytes ih =>
      have hhigh : (Nat.digitChar (b.toNat / 16)).toLower = Nat.digitChar (b.toNat / 16) :=
        (python_digit (high b)).2.2
      have hlow : (Nat.digitChar (b.toNat % 16)).toLower = Nat.digitChar (b.toNat % 16) :=
        (python_digit (low b)).2.2
      rw [hexEncode_cons, List.map_cons, List.map_cons, hhigh, hlow, ih]
  change String.ofList ((hexEncode bytes).toList.map Char.toLower) = hexEncode bytes
  rw [hlower, String.ofList_toList]

/-! ## What the verifiers say -/

/-- The library reads what the node writes, and halves an index as the node does. -/
structure Reads {S : Type} (r : Reader S) (render : String → S) : Prop where
  fromHex : ∀ bytes, r.fromHex (render (hexEncode bytes)) = some bytes
  toHex : ∀ bytes, r.toHex bytes = render (hexEncode bytes)
  toLower : ∀ bytes, r.toLower (render (hexEncode bytes)) = render (hexEncode bytes)
  isEven : ∀ n, r.isEven n = decide (n % 2 = 0)
  half : ∀ n, r.half n = n / 2

namespace Reads

variable {S : Type} {r : Reader S} {render : String → S}

theorem toHex_inj (h : Reads r render) {bytes bytes' : List UInt8} :
    r.toHex bytes = r.toLower (render (hexEncode bytes')) ↔ bytes = bytes' := by
  rw [h.toHex, h.toLower]
  constructor
  · intro heq
    have hread := h.fromHex bytes
    rw [heq, h.fromHex] at hread
    exact (Option.some.inj hread).symm
  · exact congrArg fun bytes => render (hexEncode bytes)

/-- A sibling is climbed over as the node climbs over it. -/
theorem step (h : Reads r render) (d sib : Blob 32) (idx : UInt64) :
    r.step (d.bytes, idx.toNat) (render (hexEncode sib.bytes)) =
      some ((MerkleProof.step .sha (d, idx) sib).1.bytes,
        (MerkleProof.step .sha (d, idx) sib).2.toNat) := by
  have heven : decide (idx.toNat % 2 = 0) = decide (idx &&& 1 = 0) := by
    refine decide_eq_decide.mpr ?_
    rw [← UInt64.toNat_inj, UInt64.toNat_and, UInt64.toNat_one, Nat.and_one_is_mod,
      UInt64.toNat_zero]
  have hstep : r.step (d.bytes, idx.toNat) (render (hexEncode sib.bytes)) =
      some (if r.isEven idx.toNat then Reader.nodeHash d.bytes sib.bytes
        else Reader.nodeHash sib.bytes d.bytes, r.half idx.toNat) := by
    unfold Reader.step
    dsimp only
    rw [h.fromHex]
    rfl
  rw [hstep, h.isEven, h.half, heven]
  unfold MerkleProof.step
  dsimp only
  rw [MerkleProof.shiftRight_one]
  by_cases hidx : idx &&& 1 = 0
  · simp only [hidx, decide_true, if_true]
    rfl
  · simp only [hidx, decide_false, if_false]
    rfl

theorem climb (h : Reads r render) (siblings : List (Blob 32)) (d : Blob 32) (idx : UInt64) :
    (siblings.map fun sib => render (hexEncode sib.bytes)).foldlM r.step (d.bytes, idx.toNat) =
      some ((siblings.foldl (MerkleProof.step .sha) (d, idx)).1.bytes,
        (siblings.foldl (MerkleProof.step .sha) (d, idx)).2.toNat) := by
  induction siblings generalizing d idx with
  | nil => rfl
  | cons sib siblings ih =>
    rw [List.map_cons, List.foldlM_cons, h.step]
    exact ih _ _

/-- **The library says what the node says.** -/
theorem verifyStateProof [DecidableEq S] (h : Reads r render) (p : MerkleProof (Blob 32))
    (root : Blob 32) :
    r.verifyStateProof ⟨render (hexEncode p.leaf.bytes), p.index.toNat,
        p.siblings.map fun sib => render (hexEncode sib.bytes)⟩ (render (hexEncode root.bytes)) =
      some (p.verify .sha root) := by
  unfold Reader.verifyStateProof
  dsimp only
  rw [h.fromHex]
  change ((p.siblings.map fun sib => render (hexEncode sib.bytes)).foldlM r.step
    (p.leaf.bytes, p.index.toNat) >>= fun state => _) = _
  rw [h.climb]
  refine congrArg some (decide_eq_decide.mpr ?_)
  rw [h.toHex_inj]
  exact ⟨Blob.ext, congrArg Blob.bytes⟩

/-- So it accepts an account whose leaf is proved. -/
theorem verifyAccountInState [DecidableEq S] (h : Reads r render) {p : MerkleProof (Blob 32)}
    {root key : Blob 32} {bytes : List UInt8} (hleaf : p.leaf = leafHash key bytes) :
    r.verifyAccountInState key.bytes bytes ⟨render (hexEncode p.leaf.bytes), p.index.toNat,
        p.siblings.map fun sib => render (hexEncode sib.bytes)⟩ (render (hexEncode root.bytes)) =
      some (p.verify .sha root) := by
  have hsame : Reader.leafHash key.bytes bytes = p.leaf.bytes := by
    rw [hleaf]
    rfl
  unfold Reader.verifyAccountInState
  rw [if_neg (not_not.mpr (h.toHex_inj.mpr hsame)), h.verifyStateProof]

end Reads

theorem typescript_reads : Reads TypeScript.reader JsString.ofText where
  fromHex := fromHex_hexEncode fun hi lo => by
    rw [typescript_parse, Option.getD_some]
  toHex := toHex_eq
  toLower := toLower_hexEncode
  isEven n := by
    change decide (n % 2 ^ 32 &&& 1 = 0) = _
    rw [Nat.and_one_is_mod, Nat.mod_mod_of_dvd n (by decide)]
  half _ := rfl

theorem python_reads : Reads Python.reader id where
  fromHex := python_fromHex
  toHex _ := rfl
  toLower := python_toLower
  isEven n := by
    change decide (n &&& 1 = 0) = _
    rw [Nat.and_one_is_mod]
  half := Nat.shiftRight_one

theorem dart_reads : Reads Dart.reader JsString.ofText where
  fromHex := fromHex_hexEncode dart_parse
  toHex := toHex_eq
  toLower := toLower_hexEncode
  isEven n := by
    change decide (n &&& 1 = 0) = _
    rw [Nat.and_one_is_mod]
  half := Nat.shiftRight_one

/-- A double has 53 bits for an integer. -/
theorem typescript_number {n : UInt64} (h : n.toNat < 2 ^ 53) : TypeScript.number n = n.toNat := by
  have hlog : n.toNat.log2 - 52 = 0 := by
    by_cases hzero : n.toNat = 0
    · rw [hzero]
      rfl
    · exact Nat.sub_eq_zero_of_le (Nat.le_of_lt_succ ((Nat.log2_lt hzero).mpr h))
  unfold TypeScript.number
  rw [hlog]
  simp [Nat.mod_one]

/-! ## What the node serves -/

section
variable {D : Type} {H : Hashing D} {db : Store} {key : Pubkey} {bytes : List UInt8}

theorem length_stateLeaves : (db.stateLeaves H).length ≤ db.accounts.keys.card := by
  unfold Store.stateLeaves Store.entries
  rw [List.length_map, ← Finset.length_sort (r := Pubkey.Le)]
  exact List.length_filterMap_le _ _

/-- **Every stored account has a proof**, and it leads to the state root. Positions are 64-bit. -/
theorem stateProof_stored (hsize : db.accounts.keys.card ≤ 2 ^ 64)
    (hlookup : db.accounts.lookup key = some bytes) :
    ∃ p, db.stateProof H key = .ok (some (p, db.computeStateRoot H)) ∧
      p.leaf = H.leafHash key.bytes bytes ∧ p.recompute H = db.computeStateRoot H := by
  have hmem : (key, H.leafHash key.bytes bytes) ∈ db.stateLeaves H :=
    List.mem_map.mpr ⟨(key, bytes), Store.mem_entries.mpr hlookup, rfl⟩
  obtain ⟨i, hfind⟩ : ∃ i, (db.stateLeaves H).findIdx? (fun leaf => leaf.1 = key) = some i := by
    refine Option.isSome_iff_exists.mp ?_
    rw [List.findIdx?_isSome, List.any_eq_true]
    exact ⟨_, hmem, decide_eq_true rfl⟩
  obtain ⟨hi, hkey, -⟩ := List.findIdx?_eq_some_iff_getElem.mp hfind
  -- Only one leaf has the key.
  have hleaf : (db.stateLeaves H)[i] = (key, H.leafHash key.bytes bytes) := by
    obtain ⟨⟨key', bytes'⟩, hentry, heq⟩ := List.mem_map.mp (List.getElem_mem hi)
    rw [← heq] at hkey ⊢
    obtain rfl : key' = key := of_decide_eq_true hkey
    rw [Store.mem_entries, hlookup] at hentry
    rw [Option.some.inj hentry]
  have hindex : (UInt64.ofNat i).toNat = i :=
    UInt64.toNat_ofNat_of_lt' (Nat.lt_of_lt_of_le hi (length_stateLeaves.trans hsize))
  have hhash : ((db.stateLeaves H).map Prod.snd)[(UInt64.ofNat i).toNat]? =
      some (H.leafHash key.bytes bytes) := by
    rw [hindex, List.getElem?_map, List.getElem?_eq_getElem hi, hleaf]
    rfl
  obtain ⟨siblings, hbuild, hroot⟩ := buildProof_leaf H hhash
  refine ⟨_, ?_, rfl, hroot⟩
  unfold Store.stateProof
  dsimp only
  rw [hfind]
  dsimp only
  rw [hbuild]
  rfl

end

/-- What the three libraries say of an answer, for the root that is in it: the proof verifies, and
    it is a proof of these account bytes. -/
structure Accepted (proof : StateProof) (key : Pubkey) (bytes : List UInt8) : Prop where
  typescript : proof.index.toNat < 2 ^ 53 →
    TypeScript.verifyStateProof (TypeScript.received proof) (.ofText proof.stateRoot) = some true ∧
    TypeScript.verifyAccountInState key.bytes.bytes bytes (TypeScript.received proof)
      (.ofText proof.stateRoot) = some true
  python : Python.verifyStateProof (Python.received proof) proof.stateRoot = some true ∧
    Python.verifyAccountInState key.bytes.bytes bytes (Python.received proof)
      proof.stateRoot = some true
  dart : proof.index.toNat < 2 ^ 63 →
    Dart.verifyStateProof (Dart.received proof) (.ofText proof.stateRoot) = some true ∧
    Dart.verifyAccountInState key.bytes.bytes bytes (Dart.received proof)
      (.ofText proof.stateRoot) = some true

theorem Accepted.ofProof {p : MerkleProof (Blob 32)} {root : Blob 32} {key : Pubkey}
    {bytes : List UInt8} (anchor : Option AnchorRecord) (hleaf : p.leaf = leafHash key.bytes bytes)
    (hverify : p.verify .sha root = true) : Accepted (.ofProof p root anchor) key bytes where
  typescript hindex := by
    change p.index.toNat < 2 ^ 53 at hindex
    have hreceived : TypeScript.received (.ofProof p root anchor) =
        ⟨.ofText (hexEncode p.leaf.bytes), p.index.toNat,
          p.siblings.map fun sib => .ofText (hexEncode sib.bytes)⟩ := by
      change (⟨_, TypeScript.number p.index, (p.siblings.map _).map _⟩ : ReceivedProof JsString) = _
      rw [typescript_number hindex, List.map_map]
      rfl
    rw [hreceived, ← hverify]
    exact ⟨typescript_reads.verifyStateProof p root, typescript_reads.verifyAccountInState hleaf⟩
  python := by
    rw [← hverify]
    exact ⟨python_reads.verifyStateProof p root, python_reads.verifyAccountInState hleaf⟩
  dart hindex := by
    change p.index.toNat < 2 ^ 63 at hindex
    have hreceived : Dart.received (.ofProof p root anchor) =
        ⟨.ofText (hexEncode p.leaf.bytes), p.index.toNat,
          p.siblings.map fun sib => .ofText (hexEncode sib.bytes)⟩ := by
      change (⟨_, min p.index.toNat (2 ^ 63 - 1), (p.siblings.map _).map _⟩ :
        ReceivedProof JsString) = _
      rw [Nat.min_eq_left (Nat.le_sub_one_of_lt hindex), List.map_map]
      rfl
    rw [hreceived, ← hverify]
    exact ⟨dart_reads.verifyStateProof p root, dart_reads.verifyAccountInState hleaf⟩

/-- **Every leaf has a proof that verifies.** An index that no leaf has gets none. So a stored
    account is proved in the state root, and what the node answers for its key is accepted by the
    client libraries. A table has as many accounts as positions have numbers. -/
theorem merkle_complete :
    (∀ (leaves : List (Blob 32)) (index : UInt64),
      (∀ leaf, leaves[index.toNat]? = some leaf →
        ∃ p, buildProof .sha leaves index = .ok (some p) ∧ p.leaf = leaf ∧ p.index = index ∧
          p.verify .sha (merkleRoot leaves) = true) ∧
      (leaves.length ≤ index.toNat → buildProof .sha leaves index = .ok none)) ∧
    ∀ (db : Store) (key : Pubkey) (bytes : List UInt8), db.accounts.keys.card ≤ 2 ^ 64 →
      db.accounts.lookup key = some bytes →
      ∃ p, db.stateProof .sha key = .ok (some (p, db.computeStateRoot .sha)) ∧
        p.leaf = leafHash key.bytes bytes ∧ p.verify .sha (db.computeStateRoot .sha) = true ∧
        ∀ (decode : String → Except String (List UInt8)) (anchor : Option AnchorRecord)
          (pubkey : String), fromBase58 decode pubkey = .ok key →
          ∃ answer, getStateProof decode db anchor pubkey = .ok (.ok (some answer)) ∧
            answer.index = p.index ∧ Accepted answer key bytes := by
  refine ⟨fun leaves index => ⟨fun leaf hleaf => ?_, buildProof_none .sha⟩, ?_⟩
  · obtain ⟨siblings, hbuild, hroot⟩ := buildProof_leaf .sha hleaf
    rw [Hashing.merkleRoot_sha] at hroot
    exact ⟨_, hbuild, rfl, rfl, decide_eq_true hroot⟩
  · intro db key bytes hsize hlookup
    obtain ⟨p, hproof, hleaf, hroot⟩ := stateProof_stored (H := .sha) hsize hlookup
    have hverify : p.verify .sha (db.computeStateRoot .sha) = true := decide_eq_true hroot
    refine ⟨p, hproof, hleaf, hverify, fun decode anchor pubkey hkey => ?_⟩
    refine ⟨_, ?_, rfl, Accepted.ofProof anchor hleaf hverify⟩
    unfold getStateProof
    rw [hkey]
    dsimp only
    rw [hproof]
    rfl

theorem merkle_complete_second : ∃ p,
    twoAccounts.stateProof .sha (.repeated 2) =
        .ok (some (p, twoAccounts.computeStateRoot .sha)) ∧
      p.verify .sha (twoAccounts.computeStateRoot .sha) = true := by
  obtain ⟨p, hproof, -, hverify, -⟩ := merkle_complete.2 twoAccounts (.repeated 2) [20]
    (by decide) (by decide)
  exact ⟨p, hproof, hverify⟩

end Proof
end Himsha
