import Mathlib.Tactic.Common

/-!
# Computations that fail and keep their state

`Gives` is what can be said of a result that may be an error, and its rules follow the shape of the
computation; `Agree` compares two such results. `Comp ε σ` is a state machine whose steps can fail,
the state as it was at the failure being kept. `Returns` is a run that succeeds, and its rules take
a successful run of a composed computation apart. `Yields` is what can be said of the value alone: a
computation yields `Q` when every value it can return, from any state, satisfies `Q`. It is the
right notion for a property that the state has no part in, and its rules follow the shape of the
program. `Keeps` is an invariant of the state, whether or not the computation succeeds.
-/

set_option autoImplicit false

namespace Himsha
namespace Lib

instance exceptDecidableEq {ε α : Type} [DecidableEq ε] [DecidableEq α] :
    DecidableEq (Except ε α)
  | .ok a, .ok b => decidable_of_iff (a = b) (by simp)
  | .error e, .error f => decidable_of_iff (e = f) (by simp)
  | .ok _, .error _ => isFalse (by simp)
  | .error _, .ok _ => isFalse (by simp)

/-- A result that can be evaluated can be checked to be one. -/
theorem exists_of_isOk {ε α : Type} {x : Except ε α} (h : x.isOk = true) : ∃ a, x = .ok a := by
  cases x with
  | ok a => exact ⟨a, rfl⟩
  | error e => cases h

/-- A result that was found in an outcome is what the computation came to. -/
theorem eq_ok_of_toOption {ε α : Type} {x : Except ε α} {a : α} (h : x.toOption = some a) :
    x = .ok a := by
  cases x with
  | ok b => exact congrArg _ (Option.some.inj h)
  | error e => cases h

/-- Every value the result can hold satisfies `Q`. -/
def Gives {ε α : Type} (x : Except ε α) (Q : α → Prop) : Prop := ∀ a, x = .ok a → Q a

namespace Gives

variable {ε α β : Type} {Q : α → Prop} {R : β → Prop}

instance [DecidablePred Q] : (x : Except ε α) → Decidable (Gives x Q)
  | .ok a => decidable_of_iff (Q a) ⟨fun h _ hb => Except.ok.inj hb ▸ h, fun h => h a rfl⟩
  | .error _ => isTrue fun _ h => nomatch h

theorem ok {a : α} (h : Q a) : Gives (.ok a : Except ε α) Q := by
  intro b hb
  cases hb
  exact h

theorem error {e : ε} : Gives (.error e : Except ε α) Q := by
  intro a ha
  cases ha

theorem bind {x : Except ε α} {f : α → Except ε β} (hx : Gives x Q)
    (hf : ∀ a, Q a → Gives (f a) R) : Gives (x >>= f) R := by
  cases x with
  | ok a => exact hf a (hx a rfl)
  | error e => exact error

theorem mono {Q' : α → Prop} {x : Except ε α} (hx : Gives x Q) (himp : ∀ a, Q a → Q' a) :
    Gives x Q' :=
  fun a h => himp a (hx a h)

/-- The sequencing rule where nothing is known of the first value. -/
theorem seq {x : Except ε α} {f : α → Except ε β} (hf : ∀ a, Gives (f a) R) :
    Gives (x >>= f) R :=
  bind (Q := fun _ => True) (fun _ _ => trivial) fun a _ => hf a

theorem ite {c : Prop} [Decidable c] {x y : Except ε α} (hx : Gives x Q) (hy : Gives y Q) :
    Gives (if c then x else y) Q := by
  split
  · exact hx
  · exact hy

/-- A loop over a list gives, element by element, what its body gives. -/
theorem mapM {γ : Type} {f : γ → Except ε α} {P : γ → α → Prop} (h : ∀ c, Gives (f c) (P c)) :
    ∀ cs : List γ, Gives (cs.mapM f) fun as => List.Forall₂ P cs as
  | [] => by
      rw [List.mapM_nil]
      exact ok .nil
  | c :: cs => by
      rw [List.mapM_cons]
      refine bind (h c) fun a ha => bind (mapM h cs) fun as has => ?_
      exact ok (.cons ha has)

/-- A loop that carries a value keeps what its body keeps. -/
theorem foldlM {γ : Type} {f : α → γ → Except ε α} {cs : List γ}
    (h : ∀ a, Q a → ∀ c ∈ cs, Gives (f a c) Q) {a : α} (ha : Q a) : Gives (cs.foldlM f a) Q := by
  induction cs generalizing a with
  | nil =>
    rw [List.foldlM_nil]
    exact ok ha
  | cons c cs ih =>
    rw [List.foldlM_cons]
    refine bind (h a ha c List.mem_cons_self) fun b hb => ih (fun a ha d hd => ?_) hb
    exact h a ha d (List.mem_cons_of_mem _ hd)

end Gives

/-- Two results agree: they fail with the same error, or hold values that `R` relates. -/
def Agree {ε α β : Type} (R : α → β → Prop) : Except ε α → Except ε β → Prop
  | .ok a, .ok b => R a b
  | .error e, .error f => e = f
  | _, _ => False

namespace Agree

variable {ε α β γ δ : Type} {R : α → β → Prop} {S : γ → δ → Prop}

theorem refl {R : α → α → Prop} (h : ∀ a, R a a) (x : Except ε α) : Agree R x x := by
  cases x with
  | ok a => exact h a
  | error e => rfl

/-- Two computations that agree step by step agree. -/
theorem bind {x : Except ε α} {y : Except ε β} {f : α → Except ε γ} {g : β → Except ε δ}
    (hx : Agree R x y) (hf : ∀ a b, R a b → Agree S (f a) (g b)) :
    Agree S (x >>= f) (y >>= g) := by
  cases x with
  | ok a =>
    cases y with
    | ok b => exact hf a b hx
    | error e => exact hx.elim
  | error e =>
    cases y with
    | ok b => exact hx.elim
    | error e' => exact hx

/-- A first step that both take. -/
theorem seq {x : Except ε α} {f : α → Except ε γ} {g : α → Except ε δ}
    (hf : ∀ a, Agree S (f a) (g a)) : Agree S (x >>= f) (x >>= g) :=
  bind (refl (R := fun a b => a = b) (fun _ => rfl) x) fun a _ h => h ▸ hf a

theorem mono {R' : α → β → Prop} {x : Except ε α} {y : Except ε β} (hx : Agree R x y)
    (himp : ∀ a b, x = .ok a → y = .ok b → R a b → R' a b) : Agree R' x y := by
  cases x with
  | ok a =>
    cases y with
    | ok b => exact himp a b rfl rfl hx
    | error e => exact hx
  | error e =>
    cases y with
    | ok b => exact hx
    | error e' => exact hx

theorem mapError {ε' : Type} {g : ε → ε'} {x : Except ε α} {y : Except ε β} (hx : Agree R x y) :
    Agree R (x.mapError g) (y.mapError g) := by
  cases x with
  | ok a =>
    cases y with
    | ok b => exact hx
    | error e => exact hx
  | error e =>
    cases y with
    | ok b => exact hx
    | error e' => exact congrArg g hx

end Agree

/-- The result is not the error `e`. -/
def Avoids {ε α : Type} (e : ε) (x : Except ε α) : Prop := x ≠ .error e

section
variable {ε α β : Type} {e : ε}

@[simp] theorem avoids_ok {a : α} : Avoids e (.ok a : Except ε α) := nofun

@[simp] theorem avoids_pure {a : α} : Avoids e (pure a : Except ε α) := nofun

@[simp] theorem avoids_error {e' : ε} : Avoids e (.error e' : Except ε α) ↔ e' ≠ e := by
  simp [Avoids]

/-- What avoids an error avoids it up to each step that can meet it. -/
theorem avoids_bind {x : Except ε α} {f : α → Except ε β} :
    Avoids e (x >>= f) ↔ Avoids e x ∧ Gives x fun a => Avoids e (f a) := by
  cases x with
  | ok a => exact ⟨fun h => ⟨nofun, .ok h⟩, fun h => h.2 a rfl⟩
  | error e' =>
    refine ⟨fun h => ⟨fun heq => h ?_, .error⟩, fun h heq => h.1 ?_⟩
    · exact congrArg _ (Except.error.inj heq)
    · exact congrArg _ (Except.error.inj heq)

theorem Avoids.bind {x : Except ε α} {f : α → Except ε β} (hx : Avoids e x)
    (hf : ∀ a, Avoids e (f a)) : Avoids e (x >>= f) :=
  avoids_bind.mpr ⟨hx, fun a _ => hf a⟩

end

abbrev Comp (ε σ : Type) := ExceptT ε (StateM σ)

namespace Comp

variable {ε σ α β : Type}

/-- Run a computation from a state. -/
def exec (x : Comp ε σ α) (s : σ) : Except ε α × σ := (x.run.run s).run

/-- Started in `s`, the computation returns `a` and leaves `s'`. -/
def Returns (x : Comp ε σ α) (s : σ) (a : α) (s' : σ) : Prop := exec x s = (.ok a, s')

/-- Every value the computation can return satisfies `Q`. -/
def Yields (x : Comp ε σ α) (Q : α → Prop) : Prop := ∀ s a s', Returns x s a s' → Q a

/-- A result that does not depend on the state. -/
def ofExcept (r : Except ε α) : Comp ε σ α := ExceptT.mk (pure r)

/-- Fail with `e` unless `c` holds. -/
def ensure (c : Bool) (e : ε) : Comp ε σ Unit := if c then pure () else throw e

/-- What holds of the state before the computation holds after it, also where it fails. -/
def Keeps (I : σ → Prop) (x : Comp ε σ α) : Prop := ∀ s, I s → I (exec x s).2

/-- A computation that was evaluated returned what it came to. -/
theorem returns_of_ok {x : Comp ε σ α} {s : σ} {a : α} (h : (exec x s).1 = .ok a) :
    Returns x s a (exec x s).2 := Prod.ext h rfl

theorem returns_pure {a b : α} {s s' : σ} :
    Returns (pure a : Comp ε σ α) s b s' ↔ b = a ∧ s' = s := by
  constructor
  · intro h
    have h' : ((Except.ok a : Except ε α), s) = (.ok b, s') := h
    simp only [Prod.mk.injEq, Except.ok.injEq] at h'
    exact ⟨h'.1.symm, h'.2.symm⟩
  · rintro ⟨rfl, rfl⟩
    rfl

/-- Renaming the errors does not make anything succeed. -/
theorem returns_adapt {ε' : Type} {g : ε → ε'} {x : Comp ε σ α} {s s' : σ} {a : α}
    (h : Returns (x.adapt g : Comp ε' σ α) s a s') : Returns x s a s' := by
  have hrun : (fun p : Except ε α × σ => (p.1.mapError g, p.2)) (exec x s) = (.ok a, s') := h
  cases hxs : exec x s with
  | mk r m =>
    rw [hxs] at hrun
    cases r with
    | ok b =>
      simp only [Except.mapError, Prod.mk.injEq, Except.ok.injEq] at hrun
      obtain ⟨rfl, rfl⟩ := hrun
      exact hxs
    | error e => simp [Except.mapError] at hrun

theorem exec_bind (x : Comp ε σ α) (f : α → Comp ε σ β) (s : σ) :
    exec (x >>= f) s = match exec x s with
      | (.ok a, m) => exec (f a) m
      | (.error e, m) => (.error e, m) := by
  have hunfold : exec (x >>= f) s =
      (fun p : Except ε α × σ => ExceptT.bindCont (m := StateM σ) f p.1 p.2) (exec x s) := rfl
  rw [hunfold]
  cases exec x s with
  | mk r m => cases r <;> rfl

/-- Two computations that begin alike are alike where they go on alike. -/
theorem exec_bind_congr {x : Comp ε σ α} {f g : α → Comp ε σ β} {s : σ}
    (h : ∀ a m, Returns x s a m → exec (f a) m = exec (g a) m) :
    exec (x >>= f) s = exec (x >>= g) s := by
  rw [exec_bind, exec_bind]
  cases hx : exec x s with
  | mk res m =>
    cases res with
    | ok a => exact h a m hx
    | error e => rfl

/-- Peel the first step off a run that succeeded. -/
theorem returns_bind {x : Comp ε σ α} {f : α → Comp ε σ β} {s s' : σ} {b : β} :
    Returns (x >>= f) s b s' ↔ ∃ a m, Returns x s a m ∧ Returns (f a) m b s' := by
  unfold Returns
  rw [exec_bind]
  cases exec x s with
  | mk r m =>
    cases r with
    | ok a =>
      constructor
      · intro h
        exact ⟨a, m, rfl, h⟩
      · rintro ⟨a', m', heq, h⟩
        simp only [Prod.mk.injEq, Except.ok.injEq] at heq
        obtain ⟨rfl, rfl⟩ := heq
        exact h
    | error e =>
      constructor
      · intro h
        exact absurd h (by simp)
      · rintro ⟨a', m', heq, -⟩
        exact absurd heq (by simp)

theorem returns_ofExcept {r : Except ε α} {s s' : σ} {a : α} :
    Returns (ofExcept r : Comp ε σ α) s a s' ↔ r = .ok a ∧ s' = s := by
  constructor
  · intro h
    have h' : (r, s) = (Except.ok a, s') := h
    simp only [Prod.mk.injEq] at h'
    exact ⟨h'.1, h'.2.symm⟩
  · rintro ⟨rfl, rfl⟩
    rfl

theorem returns_throw {e : ε} {s s' : σ} {a : α} : ¬ Returns (throw e : Comp ε σ α) s a s' := by
  intro h
  have h' : ((Except.error e : Except ε α), s) = (.ok a, s') := h
  simp at h'

theorem returns_ensure {c : Bool} {e : ε} {s s' : σ} {u : Unit} :
    Returns (ensure c e : Comp ε σ Unit) s u s' ↔ c = true ∧ s' = s := by
  cases c with
  | true =>
    constructor
    · intro h
      exact ⟨rfl, (returns_pure.mp h).2⟩
    · rintro ⟨-, rfl⟩
      rfl
  | false =>
    constructor
    · intro h
      exact absurd h returns_throw
    · rintro ⟨h, -⟩
      exact absurd h (by simp)

theorem returns_get {s s' a : σ} : Returns (get : Comp ε σ σ) s a s' ↔ a = s ∧ s' = s := by
  constructor
  · intro h
    have h' : ((Except.ok s : Except ε σ), s) = (.ok a, s') := h
    simp only [Prod.mk.injEq, Except.ok.injEq] at h'
    exact ⟨h'.1.symm, h'.2.symm⟩
  · rintro ⟨rfl, rfl⟩
    rfl

theorem returns_set {t s s' : σ} {u : PUnit} :
    Returns (set t : Comp ε σ PUnit) s u s' ↔ s' = t := by
  constructor
  · intro h
    have h' : ((Except.ok PUnit.unit : Except ε PUnit), t) = (.ok u, s') := h
    simp only [Prod.mk.injEq] at h'
    exact h'.2.symm
  · rintro rfl
    rfl

theorem returns_modify {f : σ → σ} {s s' : σ} {u : PUnit} :
    Returns (modify f : Comp ε σ PUnit) s u s' ↔ s' = f s := by
  constructor
  · intro h
    have h' : ((Except.ok PUnit.unit : Except ε PUnit), f s) = (.ok u, s') := h
    simp only [Prod.mk.injEq] at h'
    exact h'.2.symm
  · rintro rfl
    rfl

namespace Yields

variable {Q : α → Prop} {R : β → Prop}

theorem pure {a : α} (h : Q a) : Yields (Pure.pure a : Comp ε σ α) Q := by
  intro s b s' hr
  rw [(returns_pure.mp hr).1]
  exact h

theorem throw {e : ε} : Yields (MonadExcept.throw e : Comp ε σ α) Q :=
  fun _ _ _ hr => absurd hr returns_throw

theorem ofExcept {r : Except ε α} (h : Gives r Q) :
    Yields (Comp.ofExcept r : Comp ε σ α) Q :=
  fun _ a _ hr => h a (returns_ofExcept.mp hr).1

theorem ensure {c : Bool} {e : ε} : Yields (Comp.ensure c e : Comp ε σ Unit) fun _ => c = true :=
  fun _ _ _ hr => (returns_ensure.mp hr).1

/-- The sequencing rule. -/
theorem bind {x : Comp ε σ α} {f : α → Comp ε σ β} (hx : Yields x Q)
    (hf : ∀ a, Q a → Yields (f a) R) : Yields (x >>= f) R := by
  intro s b s' hr
  obtain ⟨a, m, ha, hb⟩ := returns_bind.mp hr
  exact hf a (hx s a m ha) m b s' hb

theorem mono {Q' : α → Prop} {x : Comp ε σ α} (hx : Yields x Q) (himp : ∀ a, Q a → Q' a) :
    Yields x Q' :=
  fun s a s' hr => himp a (hx s a s' hr)

theorem trivial {x : Comp ε σ α} : Yields x fun _ => True := fun _ _ _ _ => True.intro

/-- The sequencing rule where nothing is known of the first value. -/
theorem seq {x : Comp ε σ α} {f : α → Comp ε σ β} (hf : ∀ a, Yields (f a) R) :
    Yields (x >>= f) R :=
  bind trivial fun a _ => hf a

theorem ite {c : Prop} [Decidable c] {x y : Comp ε σ α} (hx : Yields x Q) (hy : Yields y Q) :
    Yields (if c then x else y) Q := by
  split
  · exact hx
  · exact hy

theorem adapt {ε' : Type} {g : ε → ε'} {x : Comp ε σ α} (hx : Yields x Q) :
    Yields (x.adapt g : Comp ε' σ α) Q :=
  fun s a s' hr => hx s a s' (returns_adapt hr)

/-- A loop over a list yields, element by element, what its body yields. -/
theorem mapM {γ : Type} {f : γ → Comp ε σ α} {P : γ → α → Prop} (h : ∀ c, Yields (f c) (P c)) :
    ∀ cs : List γ, Yields (cs.mapM f) fun as => List.Forall₂ P cs as
  | [] => by
      rw [List.mapM_nil]
      exact Yields.pure .nil
  | c :: cs => by
      rw [List.mapM_cons]
      refine bind (h c) fun a ha => bind (mapM h cs) fun as has => ?_
      exact Yields.pure (.cons ha has)

end Yields

namespace Keeps

variable {I : σ → Prop}

theorem pure {a : α} : Keeps I (Pure.pure a : Comp ε σ α) := fun _ h => h

theorem throw {e : ε} : Keeps I (MonadExcept.throw e : Comp ε σ α) := fun _ h => h

theorem get : Keeps I (MonadState.get : Comp ε σ σ) := fun _ h => h

theorem ofExcept {r : Except ε α} : Keeps I (Comp.ofExcept r : Comp ε σ α) := fun _ h => h

theorem modify {f : σ → σ} (h : ∀ s, I s → I (f s)) :
    Keeps I (MonadState.modifyGet fun s => (PUnit.unit, f s) : Comp ε σ PUnit) := h

theorem ensure {c : Bool} {e : ε} : Keeps I (Comp.ensure c e : Comp ε σ Unit) := by
  cases c with
  | true => exact fun _ h => h
  | false => exact fun _ h => h

/-- The sequencing rule: what is returned may depend on the state, the invariant does not ask. -/
theorem bind {x : Comp ε σ α} {f : α → Comp ε σ β} (hx : Keeps I x) (hf : ∀ a, Keeps I (f a)) :
    Keeps I (x >>= f) := by
  intro s hs
  have hm := hx s hs
  rw [exec_bind]
  cases hex : exec x s with
  | mk r m =>
    rw [hex] at hm
    cases r with
    | ok a => exact hf a m hm
    | error e => exact hm

/-- Reading the state gives a value that satisfies the invariant. -/
theorem bind_get {f : σ → Comp ε σ β} (hf : ∀ s, I s → I (exec (f s) s).2) :
    Keeps I (MonadState.get >>= f) := by
  intro s hs
  rw [exec_bind]
  exact hf s hs

end Keeps

/-- From a state with `I` the computation gets to one again, if it returns, and what it returns has
    `Q`. -/
def Maintains (I : σ → Prop) (x : Comp ε σ α) (Q : α → Prop) : Prop :=
  ∀ s a s', I s → Returns x s a s' → Q a ∧ I s'

namespace Maintains

variable {I : σ → Prop} {Q : α → Prop} {R : β → Prop}

theorem pure {a : α} (h : Q a) : Maintains I (Pure.pure a : Comp ε σ α) Q := by
  intro s b s' hs hr
  obtain ⟨rfl, rfl⟩ := returns_pure.mp hr
  exact ⟨h, hs⟩

theorem throw {e : ε} : Maintains I (MonadExcept.throw e : Comp ε σ α) Q :=
  fun _ _ _ _ hr => absurd hr returns_throw

theorem ofExcept {r : Except ε α} (h : Gives r Q) :
    Maintains I (Comp.ofExcept r : Comp ε σ α) Q := by
  intro s a s' hs hr
  obtain ⟨hok, rfl⟩ := returns_ofExcept.mp hr
  exact ⟨h a hok, hs⟩

/-- The sequencing rule. -/
theorem bind {x : Comp ε σ α} {f : α → Comp ε σ β} (hx : Maintains I x Q)
    (hf : ∀ a, Q a → Maintains I (f a) R) : Maintains I (x >>= f) R := by
  intro s b s' hs hr
  obtain ⟨a, m, ha, hb⟩ := returns_bind.mp hr
  obtain ⟨hQ, hm⟩ := hx s a m hs ha
  exact hf a hQ m b s' hm hb

/-- The sequencing rule where the first step does not look at the state. -/
theorem seq {r : Except ε α} {f : α → Comp ε σ β} (hf : ∀ a, Maintains I (f a) R) :
    Maintains I (Comp.ofExcept r >>= f) R :=
  bind (ofExcept (Q := fun _ => True) fun _ _ => trivial) fun a _ => hf a

theorem mono {Q' : α → Prop} {x : Comp ε σ α} (hx : Maintains I x Q) (himp : ∀ a, Q a → Q' a) :
    Maintains I x Q' := by
  intro s a s' hs hr
  obtain ⟨hQ, hs'⟩ := hx s a s' hs hr
  exact ⟨himp a hQ, hs'⟩

theorem ite {c : Prop} [Decidable c] {x y : Comp ε σ α} (hx : Maintains I x Q)
    (hy : Maintains I y Q) : Maintains I (if c then x else y) Q := by
  split
  · exact hx
  · exact hy

theorem adapt {ε' : Type} {g : ε → ε'} {x : Comp ε σ α} (hx : Maintains I x Q) :
    Maintains I (x.adapt g : Comp ε' σ α) Q :=
  fun s a s' hs hr => hx s a s' hs (returns_adapt hr)

/-- What is yielded from any state is yielded from these. -/
theorem and_yields {P : α → Prop} {x : Comp ε σ α} (hx : Maintains I x Q) (hP : Yields x P) :
    Maintains I x fun a => Q a ∧ P a := by
  intro s a s' hs hr
  obtain ⟨hQ, hs'⟩ := hx s a s' hs hr
  exact ⟨⟨hQ, hP s a s' hr⟩, hs'⟩

end Maintains

/-- Started in any state, the computation does not fail with `e`. -/
def Avoids (e : ε) (x : Comp ε σ α) : Prop := ∀ s, Lib.Avoids e (exec x s).1

theorem avoids_exec_bind {e : ε} {x : Comp ε σ α} {f : α → Comp ε σ β} {s : σ} :
    Lib.Avoids e (exec (x >>= f) s).1 ↔
      Lib.Avoids e (exec x s).1 ∧ ∀ a m, Returns x s a m → Lib.Avoids e (exec (f a) m).1 := by
  unfold Returns
  rw [exec_bind]
  cases exec x s with
  | mk r m =>
    cases r with
    | ok a =>
      refine ⟨fun h => ⟨nofun, fun a' m' heq => ?_⟩, fun h => h.2 a m rfl⟩
      obtain ⟨ha, rfl⟩ := Prod.mk.inj heq
      exact Except.ok.inj ha ▸ h
    | error e' =>
      refine ⟨fun h => ⟨fun heq => h (congrArg _ (Except.error.inj heq)), nofun⟩, fun h heq => ?_⟩
      exact h.1 (congrArg _ (Except.error.inj heq))

namespace Avoids

variable {e : ε} {Q : α → Prop}

theorem pure {a : α} : Avoids e (Pure.pure a : Comp ε σ α) := fun _ => nofun

theorem throw {e' : ε} (h : e' ≠ e) : Avoids e (MonadExcept.throw e' : Comp ε σ α) :=
  fun _ => avoids_error.mpr h

theorem ofExcept {r : Except ε α} (h : Lib.Avoids e r) :
    Avoids e (Comp.ofExcept r : Comp ε σ α) :=
  fun _ => h

/-- The sequencing rule: `Q` is what is known of the value in between. -/
theorem bind {x : Comp ε σ α} {f : α → Comp ε σ β} (hx : Avoids e x) (hQ : Yields x Q)
    (hf : ∀ a, Q a → Avoids e (f a)) : Avoids e (x >>= f) :=
  fun s => avoids_exec_bind.mpr ⟨hx s, fun a m hr => hf a (hQ s a m hr) m⟩

theorem seq {x : Comp ε σ α} {f : α → Comp ε σ β} (hx : Avoids e x)
    (hf : ∀ a, Avoids e (f a)) : Avoids e (x >>= f) :=
  bind hx .trivial fun a _ => hf a

theorem mapM {γ : Type} {f : γ → Comp ε σ α} (h : ∀ c, Avoids e (f c)) :
    ∀ cs : List γ, Avoids e (cs.mapM f)
  | [] => by
      rw [List.mapM_nil]
      exact pure
  | c :: cs => by
      rw [List.mapM_cons]
      exact seq (h c) fun a => seq (mapM h cs) fun as => pure

theorem adapt {g : ε → ε} (hg : ∀ e', g e' = e → e' = e) {x : Comp ε σ α} (hx : Avoids e x) :
    Avoids e (x.adapt g : Comp ε σ α) := by
  intro s
  have hrun : exec (x.adapt g : Comp ε σ α) s = ((exec x s).1.mapError g, (exec x s).2) := rfl
  rw [hrun]
  have hs := hx s
  cases hxs : exec x s with
  | mk r m =>
    rw [hxs] at hs
    cases r with
    | ok a => exact nofun
    | error e' => exact fun heq => hs (congrArg _ (hg e' (Except.error.inj heq)))

end Avoids

end Comp

end Lib
end Himsha
