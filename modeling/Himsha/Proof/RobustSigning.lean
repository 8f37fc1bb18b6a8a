import Himsha.Threshold.Committee
import Mathlib.Data.Finset.Sort

/-!
# Robust signing

A pass of the loop of `sign_robust` ends with a signature or with too few candidates, or leaves out
a disruptive member of its quorum (`attempt_cases`). So by the rules of `Lib.Retry` it ends after at
most one pass more than there are disruptive members online, never without a signer who is not
disruptive, and with a signature exactly where enough of these are online (`robust_signing`).

That no pass is stopped by anything else rests on how a committee is made: its key packages are of
its threshold, and fewer than `u16` counts (`generate_sound`, `generateDkg_sound`).
-/

set_option autoImplicit false

namespace Himsha
namespace Proof

open Himsha.Lib Himsha.Lib.Retry Himsha.Lib.Table Himsha.Threshold Himsha.Threshold.Signers

variable {F : Frost}

/-! ## How a committee is made -/

/-- A key package for an identifier and a threshold. -/
def KeyOf (F : Frost) (threshold : UInt16) (id : F.Identifier) (kp : F.KeyPackage) : Prop :=
  F.identifier kp = id ∧ F.minSigners kp = threshold

/-- Every key package is for its own identifier and for the threshold, and they are few enough to
    be counted by a `u16`. -/
structure SoundSigners (K : Signers F) : Prop where
  own : Every (KeyOf F K.threshold) K.keyPackages
  few : K.keyPackages.keys.card < 2 ^ 16

theorem gives_called {α : Type} (x : Except F.Error α) :
    Gives (called x : Except Stop α) fun a => x = .ok a := by
  cases x with
  | ok a => exact .ok rfl
  | error e => exact .error

theorem gives_orError {α : Type} (e : ThresholdError) (o : Option α) :
    Gives (orError e o) fun a => o = some a := by
  cases o with
  | none => exact .error
  | some a => exact .ok rfl

theorem gives_index {K V : Type} [DecidableEq K] (m : Table K V) (key : K) :
    Gives (index m key) fun v => m.lookup key = some v := by
  unfold index
  cases m.lookup key with
  | none => exact .error
  | some v => exact .ok rfl

/-- Fewer key packages than a list has members that they are for. -/
theorem card_keys_lt {m : Table F.Identifier F.KeyPackage} {ids : List F.Identifier}
    {total : UInt16} (hkeys : m.keys ⊆ ids.toFinset) (hlength : ids.length = total.toNat) :
    m.keys.card < 2 ^ 16 := by
  calc m.keys.card ≤ ids.toFinset.card := Finset.card_le_card hkeys
    _ ≤ ids.length := List.toFinset_card_le ids
    _ = total.toNat := hlength
    _ < 2 ^ 16 := total.toNat_lt

theorem generate_sound (hF : F.Documented) (threshold total : UInt16) (rng : F.Rng) :
    Gives (Signers.generate threshold total rng) fun K : Signers F =>
      K.threshold = threshold ∧ SoundSigners K := by
  refine Gives.bind (gives_called _) fun ⟨shares, pubkeys⟩ hdealt => ?_
  have hkeys : Gives (shares.foldlM (fun (m : Table F.Identifier F.KeyPackage) share => do
      return m.insert share.1 (← called (F.tryFromShare share.2))) ∅ : Except Stop _)
      fun m => Every (KeyOf F threshold) m ∧ m.keys ⊆ (shares.map Prod.fst).toFinset := by
    refine Gives.foldlM ?_ ⟨every_empty, by simp⟩
    rintro m ⟨hown, hsub⟩ ⟨id, share⟩ hmem
    refine Gives.bind (gives_called _) fun kp hkp => .ok ⟨?_, ?_⟩
    · exact hown.insert (hF.dealer_key hdealt hmem hkp)
    · rw [Table.keys_insert, Finset.insert_subset_iff]
      exact ⟨List.mem_toFinset.mpr (List.mem_map.mpr ⟨_, hmem, rfl⟩), hsub⟩
  refine Gives.bind hkeys fun m hm => .ok ⟨rfl, hm.1, ?_⟩
  exact card_keys_lt hm.2 ((List.length_map _).trans (hF.dealer_length hdealt))

section
variable {threshold total : UInt16}

/-- A secret of the first round, made for a participant. -/
def Secret1 (F : Frost) (threshold total : UInt16) (id : F.Identifier) (sec : F.Round1Secret) :
    Prop :=
  ∃ rng pkg rng', F.part1 id total threshold rng = .ok ((sec, pkg), rng')

/-- A secret of the second round, made from one of the first. -/
def Secret2 (F : Frost) (threshold total : UInt16) (id : F.Identifier) (sec2 : F.Round2Secret) :
    Prop :=
  ∃ sec pkgs sent, Secret1 F threshold total id sec ∧ F.part2 sec pkgs = .ok (sec2, sent)

theorem round1_gives {r : Round1 F} (hr : Every (Secret1 F threshold total) r.secret)
    (id : F.Identifier) : Gives (round1 threshold total r id) fun r' =>
      Every (Secret1 F threshold total) r'.secret := by
  refine Gives.bind (gives_called _) fun ⟨⟨sec, pkg⟩, rng⟩ hpart => .ok ?_
  exact hr.insert ⟨r.rng, pkg, rng, hpart⟩

theorem round2_gives {pkg : Table F.Identifier F.Round1Package} {r : Round2 F}
    (hr : Every (Secret1 F threshold total) r.left ∧ Every (Secret2 F threshold total) r.secret)
    (id : F.Identifier) : Gives (round2 pkg r id) fun r' =>
      Every (Secret1 F threshold total) r'.left ∧ Every (Secret2 F threshold total) r'.secret := by
  refine Gives.bind (gives_orError _ _) fun sec hsec => ?_
  refine Gives.bind (gives_called _) fun ⟨sec2, sent⟩ hpart => ?_
  refine Gives.seq fun inbox => .ok ⟨hr.1.erase, ?_⟩
  exact hr.2.insert ⟨sec, _, sent, hr.1 id sec hsec, hpart⟩

theorem round3_gives (hF : F.Documented) {pkg : Table F.Identifier F.Round1Package}
    {r2 : Round2 F} (hr2 : Every (Secret2 F threshold total) r2.secret)
    {ids : List F.Identifier} {r : Table F.Identifier F.KeyPackage × Option F.PublicKeyPackage}
    (hr : Every (KeyOf F threshold) r.1 ∧ r.1.keys ⊆ ids.toFinset) {id : F.Identifier}
    (hid : id ∈ ids) : Gives (round3 pkg r2 r id) fun r' =>
      Every (KeyOf F threshold) r'.1 ∧ r'.1.keys ⊆ ids.toFinset := by
  refine Gives.bind (gives_index _ _) fun sec2 hsec2 => ?_
  refine Gives.seq fun box => ?_
  refine Gives.bind (gives_called _) fun ⟨kp, pubpkg⟩ hpart => .ok ⟨?_, ?_⟩
  · obtain ⟨sec, pkgs, sent, ⟨rng, own, rng', hpart1⟩, hpart2⟩ := hr2 id sec2 hsec2
    exact hr.1.insert (hF.dkg_key hpart1 hpart2 hpart)
  · rw [Table.keys_insert, Finset.insert_subset_iff]
    exact ⟨List.mem_toFinset.mpr hid, hr.2⟩

end

theorem generateDkg_sound (hF : F.Documented) (threshold total : UInt16) (rng : F.Rng) :
    Gives (Signers.generateDkg threshold total rng) fun K : Signers F =>
      K.threshold = threshold ∧ SoundSigners K := by
  refine Gives.bind (Gives.mapM (P := fun _ _ => True) (fun _ _ _ => trivial) _) fun ids hids => ?_
  have hlength : ids.length = total.toNat := by
    rw [← hids.length_eq, List.length_range]
  refine Gives.bind (Gives.foldlM (fun r hr id _ => round1_gives hr id) every_empty)
    fun r1 hr1 => ?_
  refine Gives.bind (Gives.foldlM (fun r hr id _ => round2_gives hr id) ⟨hr1, every_empty⟩)
    fun r2 hr2 => ?_
  refine Gives.bind (Gives.foldlM (fun r hr id hid => round3_gives hF hr2.2 hr hid)
    ⟨every_empty, by simp⟩) fun ⟨m, pubkeys⟩ hm => ?_
  refine Gives.seq fun pubkeys => .ok ⟨rfl, hm.1, card_keys_lt hm.2 hlength⟩

/-! ## The rounds of a quorum -/

section
variable {K : Signers F} {quorum : List F.Identifier}

/-- Every commitment comes from nonces of the same signer. -/
def Paired (c : Committed F) : Prop :=
  ∀ id ∈ c.commitments.keys, ∃ n, c.nonces.lookup id = some n ∧
    c.commitments.lookup id = some (F.commitments n)

theorem index_ok {V : Type} {m : Table F.Identifier V} {id : F.Identifier} {v : V}
    (h : m.lookup id = some v) : index m id = .ok v := by
  unfold index
  rw [h]

theorem commitOne_ok (hF : F.Documented) {c : Committed F} (hc : Paired c) {id : F.Identifier}
    (hid : id ∈ K.keyPackages) : ∃ c', K.commitOne c id = .ok c' ∧
      c'.commitments.keys = insert id c.commitments.keys ∧ Paired c' := by
  obtain ⟨kp, hkp⟩ := Option.isSome_iff_exists.mp (Finmap.lookup_isSome.mpr hid)
  unfold commitOne
  rw [index_ok hkp]
  refine ⟨_, rfl, Table.keys_insert _ _ _, ?_⟩
  intro id' hid'
  by_cases h : id' = id
  · subst h
    refine ⟨_, Finmap.lookup_insert _, ?_⟩
    rw [hF.commit_nonces]
    exact Finmap.lookup_insert _
  · rw [Table.keys_insert, Finset.mem_insert, or_iff_right h] at hid'
    obtain ⟨n, hn, hcom⟩ := hc id' hid'
    exact ⟨n, (Finmap.lookup_insert_of_ne _ h).trans hn,
      (Finmap.lookup_insert_of_ne _ h).trans hcom⟩

theorem foldlM_commitOne (hF : F.Documented) (hmem : ∀ id ∈ quorum, id ∈ K.keyPackages)
    {c : Committed F} (hc : Paired c) : ∃ c', quorum.foldlM K.commitOne c = .ok c' ∧
      c'.commitments.keys = c.commitments.keys ∪ quorum.toFinset ∧ Paired c' := by
  induction quorum generalizing c with
  | nil => exact ⟨c, rfl, by simp, hc⟩
  | cons id quorum ih =>
    obtain ⟨c₁, hone, hkeys, hc₁⟩ := commitOne_ok hF hc (hmem id List.mem_cons_self)
    obtain ⟨c₂, hrest, hkeys₂, hc₂⟩ := ih (fun x hx => hmem x (List.mem_cons_of_mem _ hx)) hc₁
    refine ⟨c₂, ?_, ?_, hc₂⟩
    · rw [List.foldlM_cons, hone]
      exact hrest
    · rw [hkeys₂, hkeys, List.toFinset_cons, Finset.insert_union, Finset.union_insert]

theorem commitAll_ok (hF : F.Documented) (hmem : ∀ id ∈ quorum, id ∈ K.keyPackages)
    (rng : F.Rng) : ∃ c, K.commitAll quorum rng = .ok c ∧
      c.commitments.keys = quorum.toFinset ∧ Paired c := by
  have hnone : Paired (⟨∅, ∅, rng⟩ : Committed F) := by
    intro id hid
    simp at hid
  obtain ⟨c, hok, hkeys, hc⟩ := foldlM_commitOne hF hmem hnone
  refine ⟨c, hok, ?_, hc⟩
  rw [hkeys]
  simp

theorem foldlM_signOne {nonces : Table F.Identifier F.Nonces}
    {pkg : F.Identifier → F.SigningPackage}
    (hsign : ∀ id ∈ quorum, ∃ kp n share, K.keyPackages.lookup id = some kp ∧
      nonces.lookup id = some n ∧ F.sign (pkg id) n kp = .ok share)
    (shares : Table F.Identifier F.SignatureShare) :
    ∃ shares', quorum.foldlM (K.signOne nonces pkg) shares = .ok shares' ∧
      shares'.keys = shares.keys ∪ quorum.toFinset := by
  induction quorum generalizing shares with
  | nil => exact ⟨shares, rfl, by simp⟩
  | cons id quorum ih =>
    obtain ⟨kp, n, share, hkp, hn, hshare⟩ := hsign id List.mem_cons_self
    have hone : K.signOne nonces pkg shares id = .ok (shares.insert id share) := by
      unfold signOne
      rw [index_ok hkp, index_ok hn]
      change called (F.sign (pkg id) n kp) >>= _ = _
      rw [hshare]
      rfl
    obtain ⟨shares', hrest, hkeys⟩ :=
      ih (fun x hx => hsign x (List.mem_cons_of_mem _ hx)) (shares.insert id share)
    refine ⟨shares', ?_, ?_⟩
    · rw [List.foldlM_cons, hone]
      exact hrest
    · rw [hkeys, Table.keys_insert, List.toFinset_cons, Finset.insert_union, Finset.union_insert]

variable (message : List UInt8) (disruptive : List F.Identifier)

/-- Either package is made of the same commitments. -/
theorem packageOf_eq (commitments : Table F.Identifier F.Commitments) (id : F.Identifier) :
    ∃ text, packageOf message disruptive commitments id = F.newPackage commitments text := by
  unfold packageOf
  split
  · exact ⟨equivocation, rfl⟩
  · exact ⟨message, rfl⟩

/-- Every signer of a quorum gives a share, a disruptive one too. -/
theorem signAll_ok (hF : F.Documented) (hK : SoundSigners K) {c : Committed F} (hc : Paired c)
    (hkeys : c.commitments.keys = quorum.toFinset) (hnodup : quorum.Nodup)
    (hlength : quorum.length = K.threshold.toNat) (hmem : ∀ id ∈ quorum, id ∈ K.keyPackages) :
    ∃ shares, K.signAll c.nonces (packageOf message disruptive c.commitments) quorum =
      .ok shares ∧ shares.keys = quorum.toFinset := by
  have hsign : ∀ id ∈ quorum, ∃ kp n share, K.keyPackages.lookup id = some kp ∧
      c.nonces.lookup id = some n ∧
      F.sign (packageOf message disruptive c.commitments id) n kp = .ok share := by
    intro id hid
    obtain ⟨kp, hkp⟩ := Option.isSome_iff_exists.mp (Finmap.lookup_isSome.mpr (hmem id hid))
    obtain ⟨n, hn, hcom⟩ := hc id (by rw [hkeys]; exact List.mem_toFinset.mpr hid)
    obtain ⟨hidentifier, hmin⟩ := hK.own id kp hkp
    have hcard : (F.minSigners kp).toNat ≤ c.commitments.keys.card := by
      rw [hmin, hkeys, List.toFinset_card_of_nodup hnodup, hlength]
    obtain ⟨text, htext⟩ := packageOf_eq message disruptive c.commitments id
    rw [← hidentifier] at hcom
    obtain ⟨share, hshare⟩ := hF.sign_ok text hcom hcard
    exact ⟨kp, n, share, hkp, hn, by rw [htext]; exact hshare⟩
  obtain ⟨shares, hok, hsigned⟩ := foldlM_signOne hsign ∅
  refine ⟨shares, hok, ?_⟩
  rw [hsigned]
  simp

end

/-! ## One pass -/

/-- What a pass of the loop collects from a quorum of the committee. -/
structure Collected (K : Signers F) (message : List UInt8) (disruptive : List F.Identifier) where
  quorum : List F.Identifier
  nodup : quorum.Nodup
  length : quorum.length = K.threshold.toNat
  mem : ∀ id ∈ quorum, id ∈ K.keyPackages
  rng : F.Rng
  committed : Committed F
  commits : K.commitAll quorum rng = .ok committed
  shares : Table F.Identifier F.SignatureShare
  signs : K.signAll committed.nonces (packageOf message disruptive committed.commitments) quorum =
    .ok shares

/-- `frost::aggregate` of it. -/
def Collected.aggregate {K : Signers F} {message : List UInt8} {disruptive : List F.Identifier}
    (x : Collected K message disruptive) : Except F.Error F.Signature :=
  F.aggregate (F.newPackage x.committed.commitments message) x.shares K.pubkeys

/-- `frost::aggregate` accepts a quorum without disruptive signers, and otherwise its error names
    one of them. -/
def NamesDisruptive (K : Signers F) (message : List UInt8) (disruptive : List F.Identifier) :
    Prop :=
  ∀ x : Collected K message disruptive,
    ((∀ id ∈ x.quorum, id ∉ disruptive) → ∃ sig, x.aggregate = .ok sig) ∧
    ((∃ id ∈ x.quorum, id ∈ disruptive) → ∃ e bad, x.aggregate = .error e ∧
      F.culprit e = some bad ∧ bad ∈ x.quorum ∧ bad ∈ disruptive)

section
variable {K : Signers F} {message : List UInt8} {disruptive : List F.Identifier} {s : Session F}

/-- There is a share of every signer. -/
theorem Collected.keys_shares (hF : F.Documented) (hK : SoundSigners K)
    (x : Collected K message disruptive) : x.shares.keys = x.quorum.toFinset := by
  obtain ⟨c, hcommits, hkeys, hc⟩ := commitAll_ok hF x.mem x.rng
  obtain rfl : c = x.committed := Except.ok.inj (hcommits.symm.trans x.commits)
  obtain ⟨shares, hsigns, hsigned⟩ :=
    signAll_ok message disruptive hF hK hc hkeys x.nodup x.length x.mem
  obtain rfl : shares = x.shares := Except.ok.inj (hsigns.symm.trans x.signs)
  exact hsigned

/-- A quorum of candidates is enough for a try. -/
theorem exists_collected (hF : F.Documented) (hK : SoundSigners K) (hnodup : s.candidates.Nodup)
    (hmem : ∀ id ∈ s.candidates, id ∈ K.keyPackages)
    (henough : K.threshold.toNat ≤ s.candidates.length) :
    ∃ x : Collected K message disruptive, x.quorum = s.candidates.take K.threshold.toNat ∧
      x.rng = s.rng := by
  have hsub := List.take_sublist K.threshold.toNat s.candidates
  have hlength := List.length_take_of_le henough
  have hmem' : ∀ id ∈ s.candidates.take K.threshold.toNat, id ∈ K.keyPackages :=
    fun id hid => hmem id (hsub.subset hid)
  obtain ⟨c, hcommits, hkeys, hc⟩ := commitAll_ok hF hmem' s.rng
  obtain ⟨shares, hsigns, -⟩ :=
    signAll_ok message disruptive hF hK hc hkeys (hnodup.sublist hsub) hlength hmem'
  exact ⟨⟨_, hnodup.sublist hsub, hlength, hmem', s.rng, c, hcommits, shares, hsigns⟩, rfl, rfl⟩

theorem attempt_collected {x : Collected K message disruptive}
    (hx : x.quorum = s.candidates.take K.threshold.toNat) (hrng : x.rng = s.rng)
    (hcount : ¬ s.candidates.length % 2 ^ 16 < K.threshold.toNat) :
    K.attempt message disruptive s =
      K.conclude message s (s.rounds + 1) x.committed x.shares := by
  have hcommits := x.commits
  have hsigns := x.signs
  rw [hx, hrng] at hcommits
  rw [hx] at hsigns
  unfold attempt
  rw [if_neg hcount]
  simp only [hcommits]
  change K.signAll _ _ _ >>= _ = _
  rw [hsigns]
  rfl

/-- Whether enough candidates remain is told right by a `u16`, where so few are members. -/
theorem length_lt (hK : SoundSigners K) {ids : List F.Identifier} (hnodup : ids.Nodup)
    (hmem : ∀ id ∈ ids, id ∈ K.keyPackages) : ids.length < 2 ^ 16 := by
  have hsub : ids.toFinset ⊆ K.keyPackages.keys := by
    intro id hid
    exact Finmap.mem_keys.mpr (hmem id (List.mem_toFinset.mp hid))
  calc ids.length = ids.toFinset.card := (List.toFinset_card_of_nodup hnodup).symm
    _ ≤ K.keyPackages.keys.card := Finset.card_le_card hsub
    _ < 2 ^ 16 := hK.few

/-- What a pass can do: too few candidates remain; or there is a signature, of a quorum without
    disruptive signers; or one of the quorum who is disruptive is left out. -/
inductive Attempted (K : Signers F) (message : List UInt8) (disruptive : List F.Identifier)
    (s : Session F) : Prop where
  | exhausted (hfew : s.candidates.length < K.threshold.toNat)
      (hends : K.attempt message disruptive s =
        .error (.error (.robustExhausted s.excluded)))
  | signed (henough : K.threshold.toNat ≤ s.candidates.length)
      (hgood : ∀ id ∈ s.candidates.take K.threshold.toNat, id ∉ disruptive)
      (signature : List UInt8) (hends : K.attempt message disruptive s =
        .ok (.inl ⟨signature, s.rounds + 1, s.excluded⟩))
  | leftOut (s' : Session F) (hgoes : K.attempt message disruptive s = .ok (.inr s'))
      (hout : Excludes (· ∈ disruptive) K.threshold.toNat s.candidates s'.candidates)
      (hrounds : s'.rounds = s.rounds + 1) (hexcluded : s'.excluded = s.excluded + 1)

/-- **What a pass does.** -/
theorem attempt_cases (hF : F.Documented) (hK : SoundSigners K)
    (hnames : NamesDisruptive K message disruptive) (hnodup : s.candidates.Nodup)
    (hmem : ∀ id ∈ s.candidates, id ∈ K.keyPackages) : Attempted K message disruptive s := by
  have hmod : s.candidates.length % 2 ^ 16 = s.candidates.length :=
    Nat.mod_eq_of_lt (length_lt hK hnodup hmem)
  by_cases hcount : s.candidates.length < K.threshold.toNat
  · refine .exhausted hcount ?_
    unfold attempt
    rw [hmod, if_pos hcount]
  · obtain ⟨x, hx, hrng⟩ : ∃ x : Collected K message disruptive,
        x.quorum = s.candidates.take K.threshold.toNat ∧ x.rng = s.rng :=
      exists_collected hF hK hnodup hmem (Nat.le_of_not_lt hcount)
    have hattempt := attempt_collected hx hrng (by rw [hmod]; exact hcount)
    unfold conclude at hattempt
    by_cases hgood : ∀ id ∈ x.quorum, id ∉ disruptive
    · obtain ⟨sig, hsig⟩ := (hnames x).1 hgood
      obtain ⟨bytes, hbytes⟩ := hF.serialize_ok hsig
      refine .signed (Nat.le_of_not_lt hcount) (hx ▸ hgood) bytes ?_
      rw [hattempt, show F.aggregate _ _ _ = .ok sig from hsig]
      change called (F.serialize sig) >>= _ = _
      rw [hbytes]
      rfl
    · have hexists : ∃ id ∈ x.quorum, id ∈ disruptive := by simpa using hgood
      obtain ⟨e, bad, he, hculprit, hbad, hdisruptive⟩ := (hnames x).2 hexists
      refine .leftOut ⟨s.candidates.filter (· ≠ bad), s.excluded + 1, s.rounds + 1,
        x.committed.rng⟩ ?_ ⟨bad, hx ▸ hbad, hdisruptive, rfl⟩ rfl rfl
      rw [hattempt, show F.aggregate _ _ _ = .error e from he]
      simp only [hculprit]

end

/-! ## Whole sessions -/

section
variable {K : Signers F} {message : List UInt8} {members disruptive : List F.Identifier}
  {s s' : Session F}

/-- What every session keeps: the members that are left, with all who are not disruptive, and how
    many were left out. -/
structure Going (members disruptive : List F.Identifier) (s : Session F) : Prop where
  sublist : s.candidates.Sublist members
  good : s.candidates.filter (¬ · ∈ disruptive) = members.filter (¬ · ∈ disruptive)
  rounds : s.rounds = s.excluded
  spent : s.excluded + s.candidates.countP (· ∈ disruptive) ≤ members.countP (· ∈ disruptive)

theorem Going.countP_good (h : Going members disruptive s) :
    s.candidates.countP (¬ · ∈ disruptive) = members.countP (¬ · ∈ disruptive) := by
  rw [List.countP_eq_length_filter, List.countP_eq_length_filter, h.good]

theorem Going.mem (h : Going members disruptive s) {id : F.Identifier} (hid : id ∈ members)
    (hgood : id ∉ disruptive) : id ∈ s.candidates := by
  have hfilter : id ∈ members.filter (¬ · ∈ disruptive) :=
    List.mem_filter.mpr ⟨hid, by simpa using hgood⟩
  rw [← h.good] at hfilter
  exact List.mem_of_mem_filter hfilter

/-- A signer who is left out costs one that is disruptive. -/
theorem Going.excludes {t : Nat} (h : Going members disruptive s)
    (hout : Excludes (· ∈ disruptive) t s.candidates s'.candidates)
    (hrounds : s'.rounds = s.rounds + 1) (hexcluded : s'.excluded = s.excluded + 1) :
    Going members disruptive s' where
  sublist := hout.sublist.trans h.sublist
  good := hout.filter_good.trans h.good
  rounds := by rw [hrounds, hexcluded, h.rounds]
  spent := by
    have hless := hout.countP_lt
    have hspent := h.spent
    omega

theorem pass_eq_inr : K.pass message disruptive s = .inr s' ↔
    K.attempt message disruptive s = .ok (.inr s') := by
  unfold Signers.pass
  rcases K.attempt message disruptive s with stop | signature | s'' <;> simp

theorem pass_eq_inl {r : Except Stop RobustSignature} :
    K.pass message disruptive s = .inl r ↔
      K.attempt message disruptive s = r.map .inl := by
  unfold Signers.pass
  rcases K.attempt message disruptive s with stop | signature | s'' <;> cases r <;>
    simp [Except.map]

variable (hF : F.Documented) (hK : SoundSigners K) (hnames : NamesDisruptive K message disruptive)
  (hnodup : members.Nodup) (hmem : ∀ id ∈ members, id ∈ K.keyPackages)
include hF hK hnames hnodup hmem

theorem Going.pass_cases (h : Going members disruptive s) : Attempted K message disruptive s :=
  attempt_cases hF hK hnames (hnodup.sublist h.sublist) fun id hid => hmem id (h.sublist.subset hid)

/-- A pass that goes on keeps the invariant and has fewer disruptive candidates left. -/
theorem Going.pass_inr (h : Going members disruptive s)
    (hpass : K.pass message disruptive s = .inr s') :
    Going members disruptive s' ∧
      s'.candidates.countP (· ∈ disruptive) < s.candidates.countP (· ∈ disruptive) := by
  rw [pass_eq_inr] at hpass
  cases h.pass_cases hF hK hnames hnodup hmem with
  | exhausted _ hends =>
    rw [hends] at hpass
    cases hpass
  | signed _ _ _ hends =>
    rw [hends] at hpass
    cases hpass
  | leftOut s'' hgoes hout hrounds hexcluded =>
    rw [hgoes] at hpass
    obtain rfl : s'' = s' := Sum.inr.inj (Except.ok.inj hpass)
    exact ⟨h.excludes hout hrounds hexcluded, hout.countP_lt⟩

/-- A pass that ends does so with a signature exactly where enough members are not disruptive. -/
theorem Going.pass_inl (h : Going members disruptive s) {r : Except Stop RobustSignature}
    (hpass : K.pass message disruptive s = .inl r) :
    (members.countP (¬ · ∈ disruptive) < K.threshold.toNat ∧
      r = .error (.error (.robustExhausted s.excluded))) ∨
    (K.threshold.toNat ≤ members.countP (¬ · ∈ disruptive) ∧
      ∃ signature, r = .ok ⟨signature, s.rounds + 1, s.excluded⟩) := by
  rw [pass_eq_inl] at hpass
  rw [← h.countP_good]
  cases h.pass_cases hF hK hnames hnodup hmem with
  | exhausted hfew hends =>
    rw [hends] at hpass
    cases r with
    | ok signature => cases hpass
    | error stop => exact .inl ⟨good_lt hfew, by rw [Except.error.inj hpass]⟩
  | signed henough hgood signature hends =>
    rw [hends] at hpass
    cases r with
    | ok signature' =>
      refine .inr ⟨le_good henough hgood, signature, ?_⟩
      rw [Sum.inl.inj (Except.ok.inj hpass)]
    | error stop => cases hpass
  | leftOut s' hgoes _ _ _ =>
    rw [hgoes] at hpass
    cases r <;> cases hpass

end

/-- What is claimed of a call of `sign_robust`: within one pass more than there are disruptive
    members online it has ended, with a signature exactly where as many members as the threshold
    are online and not disruptive, and otherwise with the error that says so; and none of these
    is ever left out. -/
structure SignsRobustly (K : Signers F) (message : List UInt8)
    (online disruptive : List F.Identifier) (rng : F.Rng)
    (signRobust : Nat → Option (Except Stop RobustSignature)) : Prop where
  ends : ∃ r, signRobust ((K.start online rng).candidates.countP (· ∈ disruptive) + 1) = some r ∧
    ((∃ signature, r = .ok signature) ↔
      K.threshold.toNat ≤ (K.start online rng).candidates.countP (¬ · ∈ disruptive)) ∧
    (∀ signature, r = .ok signature →
      signature.rounds ≤ (K.start online rng).candidates.countP (· ∈ disruptive) + 1) ∧
    ∀ stop, r = .error stop → ∃ excluded, stop = .error (.robustExhausted excluded) ∧
      excluded ≤ (K.start online rng).candidates.countP (· ∈ disruptive)
  keeps : ∀ s, Reaches (K.pass message disruptive) (K.start online rng) s →
    ∀ id ∈ online, id ∈ K.keyPackages → id ∉ disruptive → id ∈ s.candidates

theorem signers_robust {K : Signers F} {message : List UInt8}
    {online disruptive : List F.Identifier} (hF : F.Documented) (hK : SoundSigners K)
    (hnames : NamesDisruptive K message disruptive) (hnodup : online.Nodup) (rng : F.Rng) :
    SignsRobustly K message online disruptive rng fun n =>
      within (K.pass message disruptive) n (K.start online rng) := by
  have hmembers : (K.start online rng).candidates.Nodup := hnodup.filter _
  have hmem : ∀ id ∈ (K.start online rng).candidates, id ∈ K.keyPackages := by
    intro id hid
    simpa using (List.mem_filter.mp hid).2
  have hstart : Going (K.start online rng).candidates disruptive (K.start online rng) :=
    ⟨.refl _, rfl, rfl, Nat.le_of_eq (Nat.zero_add _)⟩
  have hpass : ∀ s s' : Session F, Going (K.start online rng).candidates disruptive s →
      K.pass message disruptive s = .inr s' →
      Going (K.start online rng).candidates disruptive s' ∧
        s'.candidates.countP (· ∈ disruptive) < s.candidates.countP (· ∈ disruptive) :=
    fun s s' hs h => hs.pass_inr hF hK hnames hmembers hmem h
  constructor
  · obtain ⟨r, s, hwithin, hreaches, hlast⟩ :=
      within_of_measure hpass hstart (Nat.lt_succ_self _)
    have hs := hreaches.keeps (fun s s' hs h => (hpass s s' hs h).1) hstart
    have hspent : s.excluded ≤ (K.start online rng).candidates.countP (· ∈ disruptive) :=
      Nat.le_trans (Nat.le_add_right _ _) hs.spent
    refine ⟨r, hwithin, ?_⟩
    rcases hs.pass_inl hF hK hnames hmembers hmem hlast with
      ⟨hfew, rfl⟩ | ⟨henough, signature, rfl⟩
    · refine ⟨⟨?_, fun henough => absurd hfew (Nat.not_lt.mpr henough)⟩, ?_, ?_⟩
      · rintro ⟨signature, h⟩
        cases h
      · intro signature h
        cases h
      · intro stop h
        exact ⟨s.excluded, (Except.error.inj h).symm, hspent⟩
    · refine ⟨⟨fun _ => henough, fun _ => ⟨_, rfl⟩⟩, ?_, ?_⟩
      · intro signature h
        rw [← Except.ok.inj h]
        change s.rounds + 1 ≤ _
        rw [hs.rounds]
        exact Nat.succ_le_succ hspent
      · intro stop h
        cases h
  · intro s hreaches id hid hmember hgood
    have hs := hreaches.keeps (fun s s' hs h => (hpass s s' hs h).1) hstart
    exact hs.mem (List.mem_filter.mpr ⟨hid, by simpa using hmember⟩) hgood

/-- A committee that one of its constructors returned. -/
inductive Made : Committee F → Prop
  | dealer {threshold total : UInt16} {rng : F.Rng} {c : Committee F}
      (h : Committee.generate threshold total rng = .ok c) : Made c
  | dkg {threshold total : UInt16} {rng : F.Rng} {c : Committee F}
      (h : Committee.generateDkg threshold total rng = .ok c) : Made c

theorem Made.sound (hF : F.Documented) {c : Committee F} (h : Made c) :
    SoundSigners c.toSigners := by
  cases h with
  | @dealer threshold total rng c h =>
    have hgives : Gives (Committee.generate threshold total rng) fun c : Committee F =>
        SoundSigners c.toSigners := .bind (generate_sound hF _ _ _) fun _ hK => .ok hK.2
    exact hgives c h
  | @dkg threshold total rng c h =>
    have hgives : Gives (Committee.generateDkg threshold total rng) fun c : Committee F =>
        SoundSigners c.toSigners := .bind (generateDkg_sound hF _ _ _) fun _ hK => .ok hK.2
    exact hgives c h

theorem taproot_sound (hF : F.Documented) {threshold total : UInt16} {seed : F.Rng}
    {c : TaprootCommittee F} (h : TaprootCommittee.generate threshold total seed = .ok c) :
    SoundSigners c.toSigners := by
  have hgives : Gives (TaprootCommittee.generate threshold total seed)
      fun c : TaprootCommittee F => SoundSigners c.toSigners :=
    .bind (generate_sound hF _ _ _) fun _ hK => .ok hK.2
  exact hgives c h

/-- **Robust signing succeeds exactly when it can**, in both committees, over either crate. -/
theorem robust_signing {F G : Frost} (hF : F.Documented) (hG : G.Documented) :
    (∀ c : Committee F, Made c → ∀ (message : List UInt8) (online disruptive : List F.Identifier)
      (rng : F.Rng), online.Nodup → NamesDisruptive c.toSigners message disruptive →
      SignsRobustly c.toSigners message online disruptive rng
        (c.signRobust message online disruptive rng)) ∧
    ∀ (threshold total : UInt16) (seed : G.Rng) (c : TaprootCommittee G),
      TaprootCommittee.generate threshold total seed = .ok c →
      ∀ (message : List UInt8) (online disruptive : List G.Identifier) (rng : G.Rng),
      online.Nodup → NamesDisruptive c.toSigners message disruptive →
      SignsRobustly c.toSigners message online disruptive rng
        (c.signRobust message online disruptive rng) := by
  constructor
  · intro c hc message online disruptive rng hnodup hnames
    exact signers_robust hF (hc.sound hF) hnames hnodup rng
  · intro threshold total seed c hc message online disruptive rng hnodup hnames
    exact signers_robust hG (taproot_sound hG hc) hnames hnodup rng

/-! ## A crate whose shares show what they sign -/

/-- A share and a signature are the text that they sign, and the first share over another text is
    found out. -/
abbrev openFrost : Frost where
  Identifier := Nat
  KeyPackage := Nat × UInt16
  PublicKeyPackage := Unit
  SecretShare := Nat × UInt16
  Round1Secret := Nat × UInt16
  Round1Package := Unit
  Round2Secret := Nat × UInt16
  Round2Package := Unit
  SigningShare := Unit
  Nonces := Unit
  Commitments := Unit
  SigningPackage := Table Nat Unit × List UInt8
  SignatureShare := List UInt8
  Signature := List UInt8
  Error := Option Nat
  Rng := Unit
  identifierEq := inferInstance
  tryFromU16 i := .ok i.toNat
  generateWithDealer total threshold _ :=
    .ok ((List.range total.toNat).map fun i => (i + 1, (i + 1, threshold)), ())
  tryFromShare share := .ok share
  part1 id _ threshold rng := .ok (((id, threshold), ()), rng)
  part2 sec pkgs := .ok (sec, (pkgs.keys.sort (· ≤ ·)).map fun id => (id, ()))
  part3 sec _ _ := .ok (sec, ())
  signingShare _ := ()
  commit _ rng := (((), ()), rng)
  newPackage commitments message := (commitments, message)
  sign pkg _ kp :=
    if kp.2.toNat ≤ pkg.1.keys.card ∧ kp.1 ∈ pkg.1.keys then .ok pkg.2 else .error none
  aggregate pkg shares _ :=
    match (shares.keys.sort (· ≤ ·)).find? fun id => shares.lookup id ≠ some pkg.2 with
    | some id => .error (some id)
    | none => .ok pkg.2
  serialize sig := .ok sig
  culprit e := e
  display _ := "Invalid signature share."
  identifier kp := kp.1
  minSigners kp := kp.2
  commitments _ := ()

theorem openFrost_documented : openFrost.Documented where
  dealer_length h := by
    cases h
    exact (List.length_map _).trans List.length_range
  dealer_key h hmem hkp := by
    cases h
    cases hkp
    obtain ⟨i, -, heq⟩ := List.mem_map.mp hmem
    cases heq
    exact ⟨rfl, rfl⟩
  dkg_key h₁ h₂ h₃ := by
    cases h₁
    cases h₂
    cases h₃
    exact ⟨rfl, rfl⟩
  commit_nonces _ _ := rfl
  sign_ok := by
    intro commitments nonces kp message hown hcard
    have hmem : kp.1 ∈ commitments.keys := Finmap.mem_keys.mpr (Finmap.mem_of_lookup_eq_some hown)
    exact ⟨message, if_pos ⟨hcard, hmem⟩⟩
  serialize_ok _ := ⟨_, rfl⟩

/-- What a signer signs, and so what its share is. -/
def signed (message : List UInt8) (disruptive : List Nat) (id : Nat) : List UInt8 :=
  if id ∈ disruptive then equivocation else message

/-- The shares over another text than the message. -/
def isSpoiled (shares : Table Nat (List UInt8)) (message : List UInt8) (id : Nat) : Bool :=
  shares.lookup id ≠ some message

section
variable {K : Signers openFrost} {message : List UInt8} {disruptive : List Nat}

/-- A share is the text of the package. -/
theorem sign_text {pkg : openFrost.SigningPackage} {n : openFrost.Nonces}
    {kp : openFrost.KeyPackage} {share : List UInt8} (h : openFrost.sign pkg n kp = .ok share) :
    share = pkg.2 := by
  change (if _ then Except.ok pkg.2 else .error none) = _ at h
  split at h
  · exact (Except.ok.inj h).symm
  · cases h

theorem every_signed (x : Collected K message disruptive) :
    Every (fun id share => share = signed message disruptive id) x.shares := by
  have hgives : Gives (K.signAll x.committed.nonces
      (packageOf message disruptive x.committed.commitments) x.quorum)
      (Every fun id share => share = signed message disruptive id) := by
    refine Gives.foldlM (fun shares hshares id _ => ?_) every_empty
    refine .bind (gives_index _ _) fun kp _ => .bind (gives_index _ _) fun n _ => ?_
    refine .bind (gives_called _) fun share hshare => .ok (hshares.insert ?_)
    rw [sign_text hshare]
    unfold packageOf signed
    split <;> rfl
  exact hgives x.shares x.signs

theorem isSpoiled_iff (hK : SoundSigners K) (hmessage : message ≠ equivocation)
    (x : Collected K message disruptive) {id : Nat} (hid : id ∈ x.quorum) :
    isSpoiled x.shares message id = true ↔ id ∈ disruptive := by
  have hkey : id ∈ x.shares.keys := by
    rw [x.keys_shares openFrost_documented hK]
    exact List.mem_toFinset.mpr hid
  obtain ⟨share, hshare⟩ := Finmap.mem_iff.mp (Finmap.mem_keys.mp hkey)
  unfold isSpoiled
  rw [hshare, every_signed x id share hshare, signed]
  split <;> simp_all [Ne.symm]

/-- It finds out every disruptive signer, where what these sign is not the message. -/
theorem openFrost_names (hK : SoundSigners K) (hmessage : message ≠ equivocation) :
    NamesDisruptive K message disruptive := by
  intro x
  have hkeys : ∀ id, id ∈ x.shares.keys.sort (· ≤ ·) ↔ id ∈ x.quorum := by
    intro id
    rw [Finset.mem_sort, x.keys_shares openFrost_documented hK, List.mem_toFinset]
  have haggregate : x.aggregate =
      match (x.shares.keys.sort (· ≤ ·)).find? (isSpoiled x.shares message) with
      | some id => .error (some id)
      | none => .ok message := rfl
  rw [haggregate]
  constructor
  · intro hgood
    have hnone : (x.shares.keys.sort (· ≤ ·)).find? (isSpoiled x.shares message) = none := by
      rw [List.find?_eq_none]
      intro id hid hspoiled
      have hmem := (hkeys id).mp hid
      exact hgood id hmem ((isSpoiled_iff hK hmessage x hmem).mp hspoiled)
    rw [hnone]
    exact ⟨message, rfl⟩
  · rintro ⟨id, hid, hbad⟩
    have hsome : ((x.shares.keys.sort (· ≤ ·)).find? (isSpoiled x.shares message)).isSome := by
      rw [List.find?_isSome]
      exact ⟨id, (hkeys id).mpr hid, (isSpoiled_iff hK hmessage x hid).mpr hbad⟩
    obtain ⟨bad, hfound⟩ := Option.isSome_iff_exists.mp hsome
    have hmem := (hkeys bad).mp (List.mem_of_find?_eq_some hfound)
    have hdisruptive := (isSpoiled_iff hK hmessage x hmem).mp (List.find?_some hfound)
    rw [hfound]
    exact ⟨_, bad, rfl, rfl, hmem, hdisruptive⟩

end

/-- Two of three signers. -/
def twoOfThree : Signers openFrost where
  threshold := 2
  keyPackages := Finmap.insert 3 (3, 2) (Finmap.insert 2 (2, 2) (Finmap.insert 1 (1, 2) ∅))
  pubkeys := ()

/-- One of three signs something else: two passes, and there is a signature, in either
    committee. -/
theorem robust_signing_two_of_three :
    (∃ r, (⟨twoOfThree⟩ : Committee openFrost).signRobust [7] [1, 2, 3] [1] () 2 = some r ∧
      ∃ signature, r = .ok signature) ∧
    ∃ r, (⟨twoOfThree⟩ : TaprootCommittee openFrost).signRobust [7] [1, 2, 3] [1] () 2 = some r ∧
      ∃ signature, r = .ok signature := by
  have hmessage : ([7] : List UInt8) ≠ equivocation := by decide
  have hmade : Committee.generate 2 3 () = .ok (⟨twoOfThree⟩ : Committee openFrost) := rfl
  have htaproot : TaprootCommittee.generate 2 3 () =
      .ok (⟨twoOfThree⟩ : TaprootCommittee openFrost) := rfl
  have hsound := taproot_sound openFrost_documented htaproot
  obtain ⟨hcommittee, htap⟩ := robust_signing openFrost_documented openFrost_documented
  obtain ⟨r, hr, hok, -⟩ := (hcommittee ⟨twoOfThree⟩ (.dealer hmade) [7] [1, 2, 3] [1] ()
    (by decide) (openFrost_names hsound hmessage)).ends
  obtain ⟨r', hr', hok', -⟩ := (htap 2 3 () ⟨twoOfThree⟩ htaproot [7] [1, 2, 3] [1] ()
    (by decide) (openFrost_names hsound hmessage)).ends
  exact ⟨⟨r, hr, hok.mpr (by decide)⟩, r', hr', hok'.mpr (by decide)⟩

end Proof
end Himsha
