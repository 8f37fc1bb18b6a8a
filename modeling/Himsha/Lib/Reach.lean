import Himsha.Lib.Run

/-!
# What holds along a run, and what a run can get to

The rules of `Lib/Run.lean` for runs on which nothing is asked of the steps, and the rule of
progress: where every state short of the goal has a step that lowers a rank, some run gets there.
-/

set_option autoImplicit false

namespace Himsha
namespace Lib

variable {S A : Type} {step : S → A → Option S}

/-- What every step preserves holds wherever a run ends. -/
theorem run_keeps {I : S → Prop} (hstep : ∀ s a s', I s → step s a = some s' → I s')
    {as : List A} {s s' : S} (hI : I s) (hrun : run step s as = some s') : I s' := by
  have hmeets : Meets step (fun _ _ => True) s as := .of_forall fun _ _ => trivial
  exact run_invariant (fun s a s' _ hs h => hstep s a s' hs h) hmeets hI hrun

/-- A preorder that every step extends, from states with an invariant, relates the two ends of a
    run. -/
theorem run_extends {I : S → Prop} {R : S → S → Prop} (hrefl : ∀ s, R s s)
    (htrans : ∀ s₁ s₂ s₃, R s₁ s₂ → R s₂ s₃ → R s₁ s₃)
    (hstep : ∀ s a s', I s → step s a = some s' → I s' ∧ R s s')
    {as : List A} {s s' : S} (hI : I s) (hrun : run step s as = some s') : I s' ∧ R s s' := by
  refine run_keeps (I := fun t => I t ∧ R s t) ?_ ⟨hI, hrefl s⟩ hrun
  intro t a t' ht h
  obtain ⟨ht', hrel⟩ := hstep t a t' ht.1 h
  exact ⟨ht', htrans _ _ _ ht.2 hrel⟩

/-- Two runs that meet a condition, one after the other. -/
theorem Meets.trans {ok : S → A → Prop} {as bs : List A} {s m : S} (has : Meets step ok s as)
    (hrun : run step s as = some m) (hbs : Meets step ok m bs) : Meets step ok s (as ++ bs) := by
  induction as generalizing s with
  | nil =>
    obtain rfl := Option.some.inj hrun
    exact hbs
  | cons a as ih =>
    obtain ⟨t, ht, hrest⟩ := run_cons hrun
    refine ⟨has.1, fun s' hs' => ?_⟩
    obtain rfl : t = s' := Option.some.inj (ht.symm.trans hs')
    exact ih (has.2 t ht) hrest

/-- **The rule of progress.** If every state with the invariant that is not at the goal has a step
    of a permitted action that keeps the invariant and gets to the goal or lowers the rank, then
    a run of permitted actions gets from any of them to the goal. -/
theorem run_reaches {I goal : S → Prop} {may : A → Prop} (rank : S → Nat)
    (hstep : ∀ s, I s → ¬ goal s → ∃ a s', may a ∧ step s a = some s' ∧ I s' ∧
      (goal s' ∨ rank s' < rank s)) {s : S} (hI : I s) :
    ∃ as s', (∀ a ∈ as, may a) ∧ run step s as = some s' ∧ I s' ∧ goal s' := by
  induction hn : rank s using Nat.strongRecOn generalizing s with
  | ind n ih =>
    by_cases hgoal : goal s
    · exact ⟨[], s, by simp, rfl, hI, hgoal⟩
    · obtain ⟨a, m, hmay, hm, hIm, hdone⟩ := hstep s hI hgoal
      -- One more step in front of the run from there on.
      have hcons : ∀ as s', (∀ b ∈ as, may b) → run step m as = some s' →
          (∀ b ∈ a :: as, may b) ∧ run step s (a :: as) = some s' := by
        intro as s' has hrun
        refine ⟨fun b hb => ?_, by rw [run, hm]; exact hrun⟩
        rcases List.mem_cons.mp hb with rfl | hb
        · exact hmay
        · exact has b hb
      rcases hdone with hdone | hlt
      · obtain ⟨has, hrun⟩ := hcons [] m (by simp) rfl
        exact ⟨[a], m, has, hrun, hIm, hdone⟩
      · obtain ⟨as, s', has, hrun, hIs', hgoal'⟩ := ih _ (hn ▸ hlt) hIm rfl
        obtain ⟨has', hrun'⟩ := hcons as s' has hrun
        exact ⟨a :: as, s', has', hrun', hIs', hgoal'⟩

end Lib
end Himsha
