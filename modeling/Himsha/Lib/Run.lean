import Mathlib.Tactic.Common

/-!
# Runs of a system that takes one action at a time

A system is an executable partial step function; `none` means that the action is not enabled.
A run is a list of actions. `Meets ok` is a run all of whose steps satisfy a condition *in the
state they are taken from*, which is how a side condition on the environment of an interleaving
is stated here.

`run_invariant` is the one induction over runs this development does. Every safety theorem is
an instance of it: a property of the start, and what a single step preserves.
-/

set_option autoImplicit false

namespace Himsha
namespace Lib

variable {S A : Type}

/-- Fold a partial step function along a list of actions. -/
def run (step : S → A → Option S) : S → List A → Option S
  | s, [] => some s
  | s, a :: as => (step s a).bind fun s' => run step s' as

/-- Every step of the run satisfies `ok` in the state it is taken from. -/
def Meets (step : S → A → Option S) (ok : S → A → Prop) : S → List A → Prop
  | _, [] => True
  | s, a :: as => ok s a ∧ ∀ s', step s a = some s' → Meets step ok s' as

section
variable {step : S → A → Option S} {ok : S → A → Prop}

@[simp] theorem run_nil (s : S) : run step s [] = some s := rfl

theorem run_cons {s s' : S} {a : A} {as : List A} (h : run step s (a :: as) = some s') :
    ∃ m, step s a = some m ∧ run step m as = some s' :=
  Option.bind_eq_some_iff.mp h

theorem run_append {s s' : S} {as bs : List A} (h : run step s (as ++ bs) = some s') :
    ∃ m, run step s as = some m ∧ run step m bs = some s' := by
  induction as generalizing s with
  | nil => exact ⟨s, rfl, h⟩
  | cons a as ih =>
    obtain ⟨m, hm, hrest⟩ := run_cons h
    obtain ⟨n, hn, hbs⟩ := ih hrest
    exact ⟨n, by simp [run, hm, hn], hbs⟩

/-- Two runs, one after the other. -/
theorem run_trans {s m s' : S} {as bs : List A} (h : run step s as = some m)
    (h' : run step m bs = some s') : run step s (as ++ bs) = some s' := by
  induction as generalizing s with
  | nil =>
    simp only [run_nil, Option.some.injEq] at h
    subst h
    exact h'
  | cons a as ih =>
    obtain ⟨n, hn, hrest⟩ := run_cons h
    rw [List.cons_append, run, hn]
    exact ih hrest

theorem Meets.append {s m : S} {as bs : List A} (h : Meets step ok s (as ++ bs))
    (hrun : run step s as = some m) : Meets step ok s as ∧ Meets step ok m bs := by
  induction as generalizing s with
  | nil =>
    simp only [run_nil, Option.some.injEq] at hrun
    subst hrun
    exact ⟨trivial, h⟩
  | cons a as ih =>
    obtain ⟨s₁, hs₁, hrest⟩ := run_cons hrun
    obtain ⟨hok, hnext⟩ := h
    obtain ⟨hl, hr⟩ := ih (hnext s₁ hs₁) hrest
    refine ⟨⟨hok, fun s' hs' => ?_⟩, hr⟩
    rw [hs₁, Option.some.injEq] at hs'
    subst hs'
    exact hl

theorem Meets.mono {ok' : S → A → Prop} (himp : ∀ s a, ok s a → ok' s a) :
    ∀ {s : S} {as : List A}, Meets step ok s as → Meets step ok' s as
  | _, [], _ => trivial
  | _, _ :: _, h => ⟨himp _ _ h.1, fun s' hs' => Meets.mono himp (h.2 s' hs')⟩

theorem Meets.and {ok' : S → A → Prop} : ∀ {s : S} {as : List A}, Meets step ok s as →
    Meets step ok' s as → Meets step (fun s a => ok s a ∧ ok' s a) s as
  | _, [], _, _ => trivial
  | _, _ :: _, h, h' => ⟨⟨h.1, h'.1⟩, fun s' hs' => Meets.and (h.2 s' hs') (h'.2 s' hs')⟩

/-- A condition on the actions alone. -/
theorem Meets.of_forall {good : A → Prop} :
    ∀ {s : S} {as : List A}, (∀ a ∈ as, good a) → Meets step (fun _ a => good a) s as
  | _, [], _ => trivial
  | _, a :: _, h => ⟨h a (by simp), fun _ _ => Meets.of_forall fun b hb => h b (by simp [hb])⟩

/-- A run that can be evaluated can be checked. -/
instance Meets.decidable [∀ s a, Decidable (ok s a)] :
    ∀ (s : S) (as : List A), Decidable (Meets step ok s as)
  | _, [] => isTrue trivial
  | s, a :: as =>
      match h : step s a with
      | none =>
          decidable_of_iff (ok s a) ⟨fun hok => ⟨hok, fun s' hs' => absurd (h ▸ hs') (by simp)⟩,
            fun hm => hm.1⟩
      | some s' =>
          have := Meets.decidable s' as
          decidable_of_iff (ok s a ∧ Meets step ok s' as)
            ⟨fun hm => ⟨hm.1, fun t ht => by rw [h, Option.some.injEq] at ht; exact ht ▸ hm.2⟩,
              fun hm => ⟨hm.1, hm.2 s' h⟩⟩

/-- **The invariant rule.** What holds at the start and is preserved by every step that meets
    the condition holds wherever a run that meets the condition ends. -/
theorem run_invariant {I : S → Prop}
    (hstep : ∀ s a s', ok s a → I s → step s a = some s' → I s') :
    ∀ {as : List A} {s s' : S}, Meets step ok s as → I s → run step s as = some s' → I s' := by
  intro as
  induction as with
  | nil =>
    intro s s' _ hI hrun
    simp only [run_nil, Option.some.injEq] at hrun
    exact hrun ▸ hI
  | cons a as ih =>
    intro s s' hmeets hI hrun
    obtain ⟨m, hm, hrest⟩ := run_cons hrun
    exact ih (hmeets.2 m hm) (hstep s a m hmeets.1 hI hm) hrest

/-- **The simulation rule.** A relation to an abstract state that every step keeps, while the
    abstract state follows the action, relates the end of a run to the end of the abstract one. -/
theorem run_simulates {T : Type} {next : T → A → T} {R : S → T → Prop}
    (hstep : ∀ s a s' t, ok s a → R s t → step s a = some s' → R s' (next t a)) :
    ∀ {as : List A} {s s' : S} {t : T}, Meets step ok s as → R s t → run step s as = some s' →
      R s' (as.foldl next t) := by
  intro as
  induction as with
  | nil =>
    intro s s' t _ hR hrun
    simp only [run_nil, Option.some.injEq] at hrun
    exact hrun ▸ hR
  | cons a as ih =>
    intro s s' t hmeets hR hrun
    obtain ⟨m, hm, hrest⟩ := run_cons hrun
    exact ih (hmeets.2 m hm) (hstep s a m t hmeets.1 hR hm) hrest

/-- The invariant rule, read at the steps: what the invariant and the condition give of an action
    is met by every action of the run. -/
theorem Meets.of_invariant {I : S → Prop} {ok' : S → A → Prop}
    (hstep : ∀ s a s', ok s a → I s → step s a = some s' → I s')
    (hok' : ∀ s a, ok s a → I s → ok' s a) :
    ∀ {as : List A} {s : S}, Meets step ok s as → I s → Meets step ok' s as := by
  intro as
  induction as with
  | nil => exact fun _ _ => trivial
  | cons a as ih =>
    intro s hmeets hI
    exact ⟨hok' s a hmeets.1 hI, fun s' hs' => ih (hmeets.2 s' hs') (hstep s a s' hmeets.1 hI hs')⟩

/-- The invariant rule for a preorder: a relation that every step extends relates the two ends
    of a run. -/
theorem run_relates {R : S → S → Prop} (hrefl : ∀ s, R s s)
    (htrans : ∀ s₁ s₂ s₃, R s₁ s₂ → R s₂ s₃ → R s₁ s₃)
    (hstep : ∀ s a s', ok s a → step s a = some s' → R s s') :
    ∀ {as : List A} {s s' : S}, Meets step ok s as → run step s as = some s' → R s s' := by
  intro as s s' hmeets hrun
  have hstep' : ∀ t a t', ok t a → R s t → step t a = some t' → R s t' :=
    fun t a t' hok hst ht => htrans _ _ _ hst (hstep t a t' hok ht)
  exact run_invariant hstep' hmeets (hrefl s) hrun

end

end Lib
end Himsha
