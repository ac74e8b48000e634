import Ark.Lib.Steps

/- Systems that are stopped and started again.

   Between two steps a system may be restarted: its state is written out and read back
   (`reload`), which may fail. A history says what happens in which order (`Happening`).
   A system that computes lives through a history by itself (`live`); one that is a step
   relation may live through it in several ways (`Lives`).

   When a reload leaves a state that cannot be told from the one before, restarts cannot be
   noticed: no history fails, and the state it ends with cannot be told from the one that
   the steps alone lead to (`live_of_reload`, `Lives.simulate`). -/
namespace Ark.Lib.Restart

variable {σ ι : Type*}

inductive Happening (ι : Type*) where
  | step (i : ι)
  | restart

/-- The steps of a history. -/
def stepsOf : List (Happening ι) → List ι
  | [] => []
  | .step i :: hs => i :: stepsOf hs
  | .restart :: hs => stepsOf hs

/-- A history, which ends where a restart fails. -/
def live (step : σ → ι → σ) (reload : σ → Option σ) : σ → List (Happening ι) → Option σ
  | s, [] => some s
  | s, .step i :: hs => live step reload (step s i) hs
  | s, .restart :: hs =>
    match reload s with
    | none => none
    | some t => live step reload t hs

variable {step : σ → ι → σ} {reload : σ → Option σ} {Inv : σ → Prop} {R : σ → σ → Prop} {s t : σ}
  {hs : List (Happening ι)}

/-- Restarts cannot be noticed when a reload succeeds and cannot be. -/
theorem live_of_reload (hinv : ∀ t i, Inv t → Inv (step t i))
    (hstep : ∀ s t i, Inv t → R s t → R (step s i) (step t i))
    (hreload : ∀ s t, Inv t → R s t → ∃ t', reload t = some t' ∧ Inv t' ∧ R s t')
    (ht : Inv t) (hst : R s t) :
    ∃ t', live step reload t hs = some t' ∧ Inv t' ∧ R ((stepsOf hs).foldl step s) t' := by
  induction hs generalizing s t with
  | nil => exact ⟨t, rfl, ht, hst⟩
  | cons h hs ih =>
    cases h with
    | step i => exact ih (hinv t i ht) (hstep s t i ht hst)
    | restart =>
      obtain ⟨t', hload, ht', hst'⟩ := hreload s t ht hst
      obtain ⟨u, hlive, hu⟩ := ih ht' hst'
      refine ⟨u, ?_, hu⟩
      show (match reload t with | none => none | some t => live step reload t hs) = some u
      rw [hload]
      exact hlive

/-- A reload that gives the state back leaves every history as its steps are. -/
theorem live_of_eq (hinv : ∀ t i, Inv t → Inv (step t i))
    (hreload : ∀ t, Inv t → reload t = some t) (ht : Inv t)
    (hs : List (Happening ι)) :
    live step reload t hs = some ((stepsOf hs).foldl step t) ∧
      Inv ((stepsOf hs).foldl step t) := by
  obtain ⟨u, hlive, hu, heq⟩ := live_of_reload (R := Eq) hinv (fun _ _ _ _ h => h ▸ rfl)
    (fun s t ht h => ⟨t, hreload t ht, ht, h⟩) ht rfl
  exact ⟨hlive.trans (congrArg some heq.symm), heq ▸ hu⟩

/-! ## Step relations -/

/-- What happens next, in one of the ways it may. -/
def happens (step : σ → ι → σ → Prop) (reload : σ → σ → Prop) (s : σ) :
    Happening ι → σ → Prop
  | .step i => step s i
  | .restart => reload s

abbrev Lives (step : σ → ι → σ → Prop) (reload : σ → σ → Prop) :
    σ → List (Happening ι) → σ → Prop := Steps (happens step reload)

section
variable {step : σ → ι → σ → Prop} {reload : σ → σ → Prop} {s s' t : σ}

/-- A history of one system is matched by another that matches its steps and its restarts. -/
theorem Lives.simulate (reload' : σ → σ → Prop) {Rel : σ → σ → Prop}
    (hstep : ∀ {s t i s'}, Rel s t → step s i s' → ∃ t', step t i t' ∧ Rel s' t')
    (hreload : ∀ {s t s'}, Rel s t → reload s s' → ∃ t', reload' t t' ∧ Rel s' t')
    (h : Lives step reload s hs s') (hst : Rel s t) :
    ∃ t', Lives step reload' t hs t' ∧ Rel s' t' := by
  induction h generalizing t with
  | nil => exact ⟨t, .nil t, hst⟩
  | @cons s u s' b hs hb _ ih =>
    have hmatch : ∃ v, happens step reload' t b v ∧ Rel u v := by
      cases b with
      | step i => exact hstep hst hb
      | restart => exact hreload hst hb
    obtain ⟨v, hv, huv⟩ := hmatch
    obtain ⟨t', hlives, ht'⟩ := ih huv
    exact ⟨t', .cons hv hlives, ht'⟩

/-- Restarts that leave the state alone leave the steps. -/
theorem Lives.steps (hreload : ∀ {s t}, reload s t → t = s) (h : Lives step reload s hs s') :
    Steps step s (stepsOf hs) s' := by
  induction h with
  | nil s => exact .nil s
  | @cons s u s' b hs hb _ ih =>
    cases b with
    | step i => exact .cons hb ih
    | restart =>
      rw [hreload hb] at ih
      exact ih

end
end Ark.Lib.Restart
