import Mathlib.Data.UInt
import Mathlib.Tactic.Common

/-!
# Borsh

The binary format: little-endian fixed-width integers, one tag byte for an option or an
enumeration, a four-byte length in front of a sequence, fields in declaration order. A format is
an encoder and a prefix decoder, with the law that the decoder inverts the encoder in front of
any rest as a field, so that a type without that law has no format.

Encoding is partial, since a sequence longer than `u32::MAX` has no encoding. Decoding is
canonical for every format here (`Canonical`): what decodes is exactly what would be encoded,
which is how the length of the input is known from the value.

Structures get their format from the tuple of their fields by `Borsh.iso`.
-/

set_option autoImplicit false

namespace Himsha
namespace Lib

/-! ## Fixed-width little-endian numbers -/

def leBytes : Nat → Nat → List UInt8
  | 0, _ => []
  | w + 1, n => UInt8.ofNat n :: leBytes w (n / 256)

def leNat : List UInt8 → Nat
  | [] => 0
  | b :: bs => b.toNat + 256 * leNat bs

@[simp] theorem length_leBytes (w n : Nat) : (leBytes w n).length = w := by
  induction w generalizing n with
  | zero => rfl
  | succ w ih => simp [leBytes, ih]

theorem leNat_leBytes (w n : Nat) (h : n < 256 ^ w) : leNat (leBytes w n) = n := by
  induction w generalizing n with
  | zero =>
    have : n = 0 := by simpa using h
    subst this
    rfl
  | succ w ih =>
    have hdiv : n / 256 < 256 ^ w := by
      apply Nat.div_lt_of_lt_mul
      rw [Nat.mul_comm]
      simpa [Nat.pow_succ] using h
    simp only [leBytes, leNat, ih _ hdiv, UInt8.toNat_ofNat']
    omega

theorem leNat_lt (bs : List UInt8) : leNat bs < 256 ^ bs.length := by
  induction bs with
  | nil => simp [leNat]
  | cons b bs ih =>
    have hb := b.toNat_lt
    simp only [leNat, List.length_cons, Nat.pow_succ]
    omega

theorem leBytes_leNat (bs : List UInt8) : leBytes bs.length (leNat bs) = bs := by
  induction bs with
  | nil => rfl
  | cons b bs ih =>
    have hb := b.toNat_lt
    have hdiv : (b.toNat + 256 * leNat bs) / 256 = leNat bs := by omega
    have hmod : UInt8.ofNat (b.toNat + 256 * leNat bs) = b := by
      apply UInt8.toNat.inj
      simp only [UInt8.toNat_ofNat']
      omega
    simp only [List.length_cons, leNat, leBytes, hdiv, hmod, ih]

/-- The first `n` bytes and the rest. -/
def readFixed (n : Nat) (bs : List UInt8) : Option (List UInt8 × List UInt8) :=
  if n ≤ bs.length then some (bs.take n, bs.drop n) else none

theorem readFixed_append {n : Nat} {pre : List UInt8} (h : pre.length = n) (rest : List UInt8) :
    readFixed n (pre ++ rest) = some (pre, rest) := by
  subst h
  simp [readFixed]

theorem readFixed_eq_some {n : Nat} {bs pre rest : List UInt8}
    (h : readFixed n bs = some (pre, rest)) : pre.length = n ∧ bs = pre ++ rest := by
  unfold readFixed at h
  split at h
  · simp only [Option.some.injEq, Prod.mk.injEq] at h
    obtain ⟨rfl, rfl⟩ := h
    exact ⟨by simpa, (List.take_append_drop n bs).symm⟩
  · simp at h

/-! ## Formats -/

class Borsh (α : Type) where
  ser : α → Option (List UInt8)
  de : List UInt8 → Option (α × List UInt8)
  de_ser : ∀ {a bs}, ser a = some bs → ∀ rest, de (bs ++ rest) = some (a, rest)

class Canonical (α : Type) [Borsh α] : Prop where
  ser_de : ∀ {bs rest} {a : α}, Borsh.de bs = some (a, rest) →
    ∃ pre, Borsh.ser a = some pre ∧ bs = pre ++ rest

/-- A type whose values have one of a few known encoded lengths. -/
class Sized (α : Type) [Borsh α] where
  sizes : List Nat
  length_mem : ∀ {a : α} {bs}, Borsh.ser a = some bs → bs.length ∈ sizes

variable {α β : Type}

/-- `borsh::to_vec`. -/
def toVec [Borsh α] (a : α) : Option (List UInt8) := Borsh.ser a

/-- `T::try_from_slice`: all of the input has to be used. -/
def tryFromSlice [Borsh α] (bs : List UInt8) : Option α :=
  match Borsh.de (α := α) bs with
  | some (a, []) => some a
  | _ => none

theorem tryFromSlice_toVec [Borsh α] {a : α} {bs : List UInt8} (h : toVec a = some bs) :
    tryFromSlice bs = some a := by
  have := Borsh.de_ser h []
  rw [List.append_nil] at this
  simp [tryFromSlice, this]

theorem toVec_tryFromSlice [Borsh α] [Canonical α] {a : α} {bs : List UInt8}
    (h : tryFromSlice bs = some a) : toVec a = some bs := by
  unfold tryFromSlice at h
  split at h
  · rename_i a' hde
    simp only [Option.some.injEq] at h
    subst h
    obtain ⟨pre, hser, hbs⟩ := Canonical.ser_de hde
    rw [List.append_nil] at hbs
    rw [hbs]
    exact hser
  · simp at h

/-- Two formats without a length in common have no input in common. -/
theorem tryFromSlice_disjoint [Borsh α] [Canonical α] [Sized α] [Borsh β] [Canonical β] [Sized β]
    (hdisj : ∀ n ∈ Sized.sizes α, n ∉ Sized.sizes β) {bs : List UInt8} {a : α}
    (ha : tryFromSlice bs = some a) : tryFromSlice (α := β) bs = none := by
  cases hb : tryFromSlice (α := β) bs with
  | none => rfl
  | some b =>
    exact absurd (Sized.length_mem (toVec_tryFromSlice hb))
      (hdisj _ (Sized.length_mem (toVec_tryFromSlice ha)))

/-- The format of a type that is another one under different names. -/
@[reducible] def Borsh.iso [Borsh β] (f : α → β) (g : β → α) (hgf : ∀ a, g (f a) = a) :
    Borsh α where
  ser a := Borsh.ser (f a)
  de bs := (Borsh.de bs).map fun p => (g p.1, p.2)
  de_ser := by
    intro a bs h rest
    rw [Borsh.de_ser h rest]
    simp [hgf]

theorem Canonical.iso [Borsh β] [Canonical β] {f : α → β} {g : β → α} (hgf : ∀ a, g (f a) = a)
    (hfg : ∀ b, f (g b) = b) : @Canonical α (Borsh.iso f g hgf) := by
  refine @Canonical.mk α (Borsh.iso f g hgf) ?_
  intro bs rest a h
  obtain ⟨p, hde, heq⟩ := Option.map_eq_some_iff.mp h
  obtain ⟨b, r⟩ := p
  simp only [Prod.mk.injEq] at heq
  obtain ⟨rfl, rfl⟩ := heq
  obtain ⟨pre, hser, hbs⟩ := Canonical.ser_de hde
  exact ⟨pre, by simpa [Borsh.ser, hfg] using hser, hbs⟩

@[reducible] def Sized.iso [Borsh β] [Sized β] {f : α → β} {g : β → α}
    (hgf : ∀ a, g (f a) = a) : @Sized α (Borsh.iso f g hgf) :=
  @Sized.mk α (Borsh.iso f g hgf) (Sized.sizes β) fun h => Sized.length_mem (α := β) h

/-- A number of `w` bytes. -/
@[reducible] def Borsh.uint (w : Nat) (toNat : α → Nat) (ofNat : Nat → α)
    (hlt : ∀ a, toNat a < 256 ^ w) (hof : ∀ a, ofNat (toNat a) = a) : Borsh α where
  ser a := some (leBytes w (toNat a))
  de bs := (readFixed w bs).map fun p => (ofNat (leNat p.1), p.2)
  de_ser := by
    intro a bs h rest
    simp only [Option.some.injEq] at h
    subst h
    rw [readFixed_append (length_leBytes _ _)]
    simp [leNat_leBytes _ _ (hlt a), hof]

theorem Canonical.uint {w : Nat} {toNat : α → Nat} {ofNat : Nat → α}
    (hlt : ∀ a, toNat a < 256 ^ w) (hof : ∀ a, ofNat (toNat a) = a)
    (hto : ∀ n, n < 256 ^ w → toNat (ofNat n) = n) :
    @Canonical α (Borsh.uint w toNat ofNat hlt hof) := by
  refine @Canonical.mk α (Borsh.uint w toNat ofNat hlt hof) ?_
  intro bs rest a h
  obtain ⟨p, hread, heq⟩ := Option.map_eq_some_iff.mp h
  obtain ⟨pre, r⟩ := p
  simp only [Prod.mk.injEq] at heq
  obtain ⟨rfl, rfl⟩ := heq
  obtain ⟨hlen, rfl⟩ := readFixed_eq_some hread
  refine ⟨pre, ?_, rfl⟩
  subst hlen
  simp [Borsh.ser, hto _ (leNat_lt pre), leBytes_leNat]

/-! ## Instances -/

instance : Borsh UInt8 := .uint 1 UInt8.toNat UInt8.ofNat (fun a => a.toNat_lt) (fun a => by simp)

instance : Canonical UInt8 :=
  .uint (fun a => a.toNat_lt) (fun a => by simp) fun n h => UInt8.toNat_ofNat_of_lt' h

instance : Borsh UInt16 :=
  .uint 2 UInt16.toNat UInt16.ofNat (fun a => a.toNat_lt) (fun a => by simp)

instance : Canonical UInt16 :=
  .uint (fun a => a.toNat_lt) (fun a => by simp) fun n h => UInt16.toNat_ofNat_of_lt' h

instance : Borsh UInt32 :=
  .uint 4 UInt32.toNat UInt32.ofNat (fun a => a.toNat_lt) (fun a => by simp)

instance : Canonical UInt32 :=
  .uint (fun a => a.toNat_lt) (fun a => by simp) fun n h => UInt32.toNat_ofNat_of_lt' h

instance : Borsh UInt64 :=
  .uint 8 UInt64.toNat UInt64.ofNat (fun a => a.toNat_lt) (fun a => by simp)

instance : Canonical UInt64 :=
  .uint (fun a => a.toNat_lt) (fun a => by simp) fun n h => UInt64.toNat_ofNat_of_lt' h

/-- `u128`. -/
abbrev U128 := BitVec 128

instance : Borsh U128 :=
  .uint 16 BitVec.toNat (BitVec.ofNat 128) (fun a => by have := a.isLt; omega) (fun a => by simp)

instance : Canonical U128 :=
  .uint (fun a => by have := a.isLt; omega) (fun a => by simp) fun n h => by
    rw [BitVec.toNat_ofNat]
    exact Nat.mod_eq_of_lt (by omega)

instance : Borsh Unit where
  ser _ := some []
  de bs := some ((), bs)
  de_ser := by
    intro a bs h rest
    simp only [Option.some.injEq] at h
    subst h
    rfl

instance : Canonical Unit where
  ser_de := by
    intro bs rest a h
    simp only [Borsh.de, Option.some.injEq, Prod.mk.injEq] at h
    exact ⟨[], rfl, by simp [h.2]⟩

instance : Borsh Bool where
  ser b := some [if b then 1 else 0]
  de
    | 0 :: bs => some (false, bs)
    | 1 :: bs => some (true, bs)
    | _ => none
  de_ser := by
    intro b bs h rest
    simp only [Option.some.injEq] at h
    subst h
    cases b <;> rfl

instance : Canonical Bool where
  ser_de := by
    intro bs rest b h
    simp only [Borsh.de] at h
    split at h
    · simp only [Option.some.injEq, Prod.mk.injEq] at h
      exact ⟨[0], by simp [Borsh.ser, ← h.1], by simp [h.2]⟩
    · simp only [Option.some.injEq, Prod.mk.injEq] at h
      exact ⟨[1], by simp [Borsh.ser, ← h.1], by simp [h.2]⟩
    · simp at h

instance [Borsh α] : Borsh (Option α) where
  ser
    | none => some [0]
    | some a => (Borsh.ser a).map fun bs => 1 :: bs
  de
    | 0 :: bs => some (none, bs)
    | 1 :: bs => (Borsh.de bs).map fun p => (some p.1, p.2)
    | _ => none
  de_ser := by
    intro o bs h rest
    cases o with
    | none =>
      simp only [Option.some.injEq] at h
      subst h
      rfl
    | some a =>
      obtain ⟨pre, hser, rfl⟩ := Option.map_eq_some_iff.mp h
      simp [Borsh.de_ser hser rest]

instance [Borsh α] [Canonical α] : Canonical (Option α) where
  ser_de := by
    intro bs rest o h
    simp only [Borsh.de] at h
    split at h
    · simp only [Option.some.injEq, Prod.mk.injEq] at h
      exact ⟨[0], by simp [Borsh.ser, ← h.1], by simp [h.2]⟩
    · obtain ⟨p, hde, heq⟩ := Option.map_eq_some_iff.mp h
      obtain ⟨a, r⟩ := p
      simp only [Prod.mk.injEq] at heq
      obtain ⟨rfl, rfl⟩ := heq
      obtain ⟨pre, hser, rfl⟩ := Canonical.ser_de hde
      exact ⟨1 :: pre, by simp [Borsh.ser, hser], rfl⟩
    · simp at h

instance [Borsh α] [Borsh β] : Borsh (α × β) where
  ser p := (Borsh.ser p.1).bind fun xs => (Borsh.ser p.2).map fun ys => xs ++ ys
  de bs := (Borsh.de bs).bind fun p => (Borsh.de p.2).map fun q => ((p.1, q.1), q.2)
  de_ser := by
    intro p bs h rest
    obtain ⟨xs, hx, hrest⟩ := Option.bind_eq_some_iff.mp h
    obtain ⟨ys, hy, rfl⟩ := Option.map_eq_some_iff.mp hrest
    rw [List.append_assoc, Borsh.de_ser hx, Option.bind_some, Borsh.de_ser hy]
    rfl

instance [Borsh α] [Borsh β] [Canonical α] [Canonical β] : Canonical (α × β) where
  ser_de := by
    intro bs rest p h
    obtain ⟨⟨a, r₁⟩, ha, hrest⟩ := Option.bind_eq_some_iff.mp h
    obtain ⟨⟨b, r₂⟩, hb, heq⟩ := Option.map_eq_some_iff.mp hrest
    simp only [Prod.mk.injEq] at heq
    obtain ⟨rfl, rfl⟩ := heq
    obtain ⟨xs, hx, rfl⟩ := Canonical.ser_de ha
    obtain ⟨ys, hy, hr⟩ := Canonical.ser_de hb
    exact ⟨xs ++ ys, by simp [Borsh.ser, hx, hy], by rw [List.append_assoc, ← hr]⟩

/-! ### Lengths -/

/-- A format whose encodings all have one length. -/
@[reducible] def Sized.fixed [Borsh α] (n : Nat)
    (h : ∀ (a : α) bs, Borsh.ser a = some bs → bs.length = n) : Sized α :=
  ⟨[n], fun hser => by simp [h _ _ hser]⟩

instance : Sized UInt8 := .fixed 1 fun a bs h => by simp [← Option.some.inj h]

instance : Sized UInt32 := .fixed 4 fun a bs h => by simp [← Option.some.inj h]

instance : Sized UInt64 := .fixed 8 fun a bs h => by simp [← Option.some.inj h]

instance : Sized U128 := .fixed 16 fun a bs h => by simp [← Option.some.inj h]

instance : Sized Bool := .fixed 1 fun a bs h => by simp [← Option.some.inj h]

instance [Borsh α] [Sized α] : Sized (Option α) where
  sizes := 1 :: (Sized.sizes α).map (· + 1)
  length_mem := by
    intro o bs h
    cases o with
    | none =>
      simp only [Borsh.ser, Option.some.injEq] at h
      simp [← h]
    | some a =>
      obtain ⟨pre, hser, rfl⟩ := Option.map_eq_some_iff.mp h
      simp [Sized.length_mem hser]

instance [Borsh α] [Borsh β] [Sized α] [Sized β] : Sized (α × β) where
  sizes := (Sized.sizes α).flatMap fun m => (Sized.sizes β).map (m + ·)
  length_mem := by
    intro p bs h
    obtain ⟨xs, hx, hrest⟩ := Option.bind_eq_some_iff.mp h
    obtain ⟨ys, hy, rfl⟩ := Option.map_eq_some_iff.mp hrest
    simp only [List.mem_flatMap, List.mem_map, List.length_append]
    exact ⟨xs.length, Sized.length_mem hx, ys.length, Sized.length_mem hy, rfl⟩

/-! ### Sequences -/

def serAll [Borsh α] : List α → Option (List UInt8)
  | [] => some []
  | a :: as => (Borsh.ser a).bind fun xs => (serAll as).map fun ys => xs ++ ys

def deAll [Borsh α] : Nat → List UInt8 → Option (List α × List UInt8)
  | 0, bs => some ([], bs)
  | n + 1, bs => (Borsh.de bs).bind fun p => (deAll n p.2).map fun q => (p.1 :: q.1, q.2)

theorem serAll_append [Borsh α] (as bs : List α) : serAll (as ++ bs) =
    (serAll as).bind fun xs => (serAll bs).map fun ys => xs ++ ys := by
  induction as with
  | nil => cases h : serAll bs <;> simp [serAll, h]
  | cons a as ih =>
    simp only [List.cons_append, serAll, ih]
    cases Borsh.ser a with
    | none => rfl
    | some xs =>
      cases serAll as with
      | none => rfl
      | some ys => cases serAll bs <;> simp

theorem deAll_serAll [Borsh α] {as : List α} {bs : List UInt8} (h : serAll as = some bs)
    (rest : List UInt8) : deAll as.length (bs ++ rest) = some (as, rest) := by
  induction as generalizing bs with
  | nil =>
    simp only [serAll, Option.some.injEq] at h
    subst h
    rfl
  | cons a as ih =>
    obtain ⟨xs, hx, hrest⟩ := Option.bind_eq_some_iff.mp h
    obtain ⟨ys, hy, rfl⟩ := Option.map_eq_some_iff.mp hrest
    simp only [List.length_cons, deAll]
    rw [List.append_assoc, Borsh.de_ser hx, Option.bind_some, ih hy]
    rfl

theorem serAll_deAll [Borsh α] [Canonical α] {n : Nat} {as : List α} {bs rest : List UInt8}
    (h : deAll n bs = some (as, rest)) :
    as.length = n ∧ ∃ pre, serAll as = some pre ∧ bs = pre ++ rest := by
  induction n generalizing as bs with
  | zero =>
    simp only [deAll, Option.some.injEq, Prod.mk.injEq] at h
    obtain ⟨rfl, rfl⟩ := h
    exact ⟨rfl, [], rfl, rfl⟩
  | succ n ih =>
    obtain ⟨⟨a, r₁⟩, ha, hrest⟩ := Option.bind_eq_some_iff.mp h
    obtain ⟨⟨as', r₂⟩, has, heq⟩ := Option.map_eq_some_iff.mp hrest
    simp only [Prod.mk.injEq] at heq
    obtain ⟨rfl, rfl⟩ := heq
    obtain ⟨xs, hx, rfl⟩ := Canonical.ser_de ha
    obtain ⟨hlen, ys, hy, hr⟩ := ih has
    exact ⟨by simp [hlen], xs ++ ys, by simp [serAll, hx, hy], by rw [List.append_assoc, ← hr]⟩

/-- `Vec<T>`: the length, then the elements. -/
instance [Borsh α] : Borsh (List α) where
  ser as :=
    if as.length < 2 ^ 32 then (serAll as).map fun bs => leBytes 4 as.length ++ bs else none
  de bs := (readFixed 4 bs).bind fun p => deAll (leNat p.1) p.2
  de_ser := by
    intro as bs h rest
    split at h
    · rename_i hlt
      obtain ⟨ys, hy, rfl⟩ := Option.map_eq_some_iff.mp h
      rw [List.append_assoc, readFixed_append (length_leBytes _ _), Option.bind_some]
      simp only [leNat_leBytes 4 as.length (by omega)]
      exact deAll_serAll hy rest
    · simp at h

/-- Only the length of a byte vector can keep it from being encoded. -/
theorem ser_bytes (bs : List UInt8) (h : bs.length < 2 ^ 32) :
    ∃ out, Borsh.ser bs = some out := by
  have hall : ∀ bs : List UInt8, ∃ out, serAll bs = some out := by
    intro bs
    induction bs with
    | nil => exact ⟨[], rfl⟩
    | cons b bs ih =>
      obtain ⟨out, hout⟩ := ih
      exact ⟨_, by rw [serAll, hout]; rfl⟩
  obtain ⟨out, hout⟩ := hall bs
  exact ⟨_, (if_pos h).trans (by rw [hout]; rfl)⟩

instance [Borsh α] [Canonical α] : Canonical (List α) where
  ser_de := by
    intro bs rest as h
    obtain ⟨⟨len, r⟩, hlen, hall⟩ := Option.bind_eq_some_iff.mp h
    obtain ⟨hfour, rfl⟩ := readFixed_eq_some hlen
    obtain ⟨hcount, pre, hpre, rfl⟩ := serAll_deAll hall
    simp only at hcount
    have hlt : as.length < 2 ^ 32 := by
      have := leNat_lt len
      rw [hfour] at this
      omega
    have hbytes : leBytes 4 as.length = len := by
      rw [hcount, ← hfour, leBytes_leNat]
    refine ⟨len ++ pre, ?_, by rw [List.append_assoc]⟩
    simp only [Borsh.ser, hlt, if_true, hpre, Option.map_some, hbytes]

/-- A byte string of a fixed length. -/
structure Blob (n : Nat) where
  bytes : List UInt8
  length_eq : bytes.length = n
deriving DecidableEq

theorem Blob.ext {n : Nat} {x y : Blob n} (h : x.bytes = y.bytes) : x = y := by
  cases x
  cases y
  simp_all

/-- `[0u8; n]`. -/
def Blob.zero (n : Nat) : Blob n := ⟨List.replicate n 0, by simp⟩

instance (n : Nat) : Borsh (Blob n) where
  ser x := some x.bytes
  de bs :=
    if h : n ≤ bs.length then some (⟨bs.take n, by simpa using h⟩, bs.drop n) else none
  de_ser := by
    intro x bs h rest
    simp only [Option.some.injEq] at h
    subst h
    obtain ⟨xs, rfl⟩ := x
    simp

instance (n : Nat) : Sized (Blob n) :=
  .fixed n fun x bs h => by rw [← Option.some.inj h, x.length_eq]

instance (n : Nat) : Canonical (Blob n) where
  ser_de := by
    intro bs rest x h
    simp only [Borsh.de] at h
    split at h
    · simp only [Option.some.injEq, Prod.mk.injEq] at h
      obtain ⟨rfl, rfl⟩ := h
      exact ⟨bs.take n, rfl, (List.take_append_drop n bs).symm⟩
    · simp at h

/-- `String`: the length in bytes, then valid UTF-8. -/
instance : Borsh String where
  ser s := Borsh.ser s.toByteArray.data.toList
  de bs := (Borsh.de (α := List UInt8) bs).bind fun p =>
    (String.fromUTF8? (ByteArray.mk p.1.toArray)).map fun s => (s, p.2)
  de_ser := by
    intro s bs h rest
    rw [Borsh.de_ser h, Option.bind_some]
    simp [String.fromUTF8?, String.fromUTF8, s.isValidUTF8]

instance : Canonical String where
  ser_de := by
    intro bs rest s h
    obtain ⟨⟨xs, r⟩, hxs, hrest⟩ := Option.bind_eq_some_iff.mp h
    obtain ⟨s', hs, heq⟩ := Option.map_eq_some_iff.mp hrest
    simp only [Prod.mk.injEq] at heq
    obtain ⟨rfl, rfl⟩ := heq
    obtain ⟨pre, hser, rfl⟩ := Canonical.ser_de hxs
    have hbytes : s'.toByteArray = ByteArray.mk xs.toArray := by
      unfold String.fromUTF8? at hs
      split at hs
      · simp only [Option.some.injEq] at hs
        rw [← hs]
        rfl
      · simp at hs
    exact ⟨pre, by simpa [Borsh.ser, hbytes] using hser, rfl⟩

/-! ### Maps

A map is the sequence of its entries in key order. Decoding inserts whatever entries come, in any
order, a later entry replacing an earlier one of the same key, so this format is not canonical. -/

/-- A map with string keys, kept in key order. -/
abbrev StringMap (β : Type) := Std.ExtTreeMap String β compare

theorem ofList_toList (m : StringMap β) : Std.ExtTreeMap.ofList m.toList compare = m := by
  apply Std.ExtTreeMap.ext_getElem?
  intro k
  cases h : m[k]? with
  | none =>
    apply Std.ExtTreeMap.getElem?_ofList_of_contains_eq_false
    rw [Std.ExtTreeMap.map_fst_toList_eq_keys, Std.ExtTreeMap.contains_keys,
      Std.ExtTreeMap.contains_eq_isSome_getElem?, h, Option.isSome_none]
  | some v =>
    have hmem := Std.ExtTreeMap.mem_toList_iff_getElem?_eq_some.mpr h
    exact Std.ExtTreeMap.getElem?_ofList_of_mem Std.ReflCmp.compare_self
      Std.ExtTreeMap.distinct_keys_toList hmem

instance [Borsh β] : Borsh (StringMap β) where
  ser m := Borsh.ser m.toList
  de bs := (Borsh.de bs).map fun p => (.ofList p.1 compare, p.2)
  de_ser := by
    intro m bs h rest
    rw [Borsh.de_ser h rest]
    simp [ofList_toList]

/-! ### Enumerations

The format of an enumeration is written out as a match, one line per variant, from `tag` and
`untag`; its law is then `untag_tag`, case by case. -/

/-- The encoding of a variant: its index, then its fields. -/
def tag [Borsh α] (t : UInt8) (a : α) : Option (List UInt8) := (Borsh.ser a).map (t :: ·)

/-- The decoding of a variant, after its index. -/
def untag [Borsh α] (f : α → β) (bs : List UInt8) : Option (β × List UInt8) :=
  (Borsh.de bs).map fun p => (f p.1, p.2)

theorem untag_tag [Borsh α] {t : UInt8} {a : α} {bs : List UInt8} (h : tag t a = some bs) :
    ∃ pre, bs = t :: pre ∧
      ∀ (f : α → β) (rest : List UInt8), untag f (pre ++ rest) = some (f a, rest) := by
  obtain ⟨pre, hser, rfl⟩ := Option.map_eq_some_iff.mp h
  refine ⟨pre, rfl, fun f rest => ?_⟩
  unfold untag
  rw [Borsh.de_ser hser rest]
  rfl

end Lib
end Himsha
