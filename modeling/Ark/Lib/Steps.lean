import Mathlib.Data.List.Basic
import Mathlib.Tactic.TypeStar

/- Labelled runs. `Steps step s L t` says that the labels `L`, taken in order,
   lead from `s` to `t` under `step`. An invariant is proved once for one step
   (`Steps.invariant`); a run is cut at any label (`append_iff`, `split_at`), so
   a claim about an earlier and a later label becomes a claim about three shorter
   runs; two descriptions of the same steps are compared step by step
   (`Steps.annotate`); a label that lowers a number comes no more often than that number
   says (`count_add_le`). -/
namespace Ark.Lib

/-- The labels `L`, in order, lead from one state to another. -/
inductive Steps {σ β : Type*} (step : σ → β → σ → Prop) : σ → List β → σ → Prop where
  | nil (s : σ) : Steps step s [] s
  | cons {s u t : σ} {b : β} {L : List β} :
      step s b u → Steps step u L t → Steps step s (b :: L) t

namespace Steps
variable {σ τ β γ : Type*} {step : σ → β → σ → Prop} {s t : σ} {b : β} {L M : List β}

theorem nil_iff : Steps step s [] t ↔ t = s := by
  constructor
  · intro h; cases h; rfl
  · rintro rfl; exact .nil _

theorem cons_iff : Steps step s (b :: L) t ↔ ∃ u, step s b u ∧ Steps step u L t := by
  constructor
  · intro h; cases h with
    | cons hb hL => exact ⟨_, hb, hL⟩
  · intro ⟨u, hb, hL⟩; exact .cons hb hL

theorem append_iff : Steps step s (L ++ M) t ↔ ∃ u, Steps step s L u ∧ Steps step u M t := by
  induction L generalizing s with
  | nil => simp [nil_iff]
  | cons b L ih =>
    simp only [List.cons_append, cons_iff, ih]
    constructor
    · intro ⟨u, hb, v, hL, hM⟩; exact ⟨v, ⟨u, hb, hL⟩, hM⟩
    · intro ⟨v, ⟨u, hb, hL⟩, hM⟩; exact ⟨u, hb, v, hL, hM⟩

theorem append {u : σ} (hL : Steps step s L u) (hM : Steps step u M t) :
    Steps step s (L ++ M) t := append_iff.mpr ⟨u, hL, hM⟩

/-- A run is cut around one of its labels. -/
theorem split_at (h : Steps step s (L ++ b :: M) t) :
    ∃ u v, Steps step s L u ∧ step u b v ∧ Steps step v M t := by
  obtain ⟨u, hL, h⟩ := append_iff.mp h
  obtain ⟨v, hb, hM⟩ := cons_iff.mp h
  exact ⟨u, v, hL, hb, hM⟩

/-- What every step of a run keeps, the run keeps. -/
theorem invariant (I : σ → Prop) (hstep : ∀ s b t, b ∈ L → I s → step s b t → I t)
    (h : Steps step s L t) (h0 : I s) : I t := by
  induction h with
  | nil => exact h0
  | cons hb _ ih =>
    exact ih (fun s c t hc => hstep s c t (List.mem_cons_of_mem _ hc))
      (hstep _ _ _ List.mem_cons_self h0 hb)

/-- A relation between states that every step has and that composes holds across the run. -/
theorem relation (R : σ → σ → Prop) (hrefl : ∀ s, R s s) (htrans : ∀ s u t, R s u → R u t → R s t)
    (hstep : ∀ s b t, step s b t → R s t) (h : Steps step s L t) : R s t := by
  induction h with
  | nil s => exact hrefl s
  | cons hb _ ih => exact htrans _ _ _ (hstep _ _ _ hb) ih

/-- A label that lowers what no other label raises: how often it can still come. -/
theorem count_add_le [DecidableEq β] (left : σ → Nat) (hlower : ∀ s t, step s b t → left t < left s)
    (hkeep : ∀ s c t, c ≠ b → step s c t → left t ≤ left s) (h : Steps step s L t) :
    L.count b + left t ≤ left s := by
  induction h with
  | nil s => simp
  | @cons s u t c L hc _ ih =>
    by_cases hcb : c = b
    · have hlt := hlower s u (hcb ▸ hc)
      rw [hcb, List.count_cons_self]
      omega
    · have hle := hkeep s c u hcb hc
      rw [List.count_cons_of_ne hcb]
      omega

/-- A run seen through a map of the states. -/
theorem map {T : τ → β → τ → Prop} {f : σ → τ}
    (hstep : ∀ {s b t}, step s b t → T (f s) b (f t)) (h : Steps step s L t) :
    Steps T (f s) L (f t) := by
  induction h with
  | nil s => exact .nil (f s)
  | cons hb _ ih => exact .cons (hstep hb) ih

/-- Steps of one system, each matched by a step of another from any related state, give a
run of the other between related states, over the same labels with a note on each. -/
theorem annotate {R : β → τ → γ → τ → Prop} (Rel : σ → τ → Prop)
    (hstep : ∀ s b t x, Rel s x → step s b t → ∃ c y, R b x c y ∧ Rel t y)
    (h : Steps step s L t) {x : τ} (h0 : Rel s x) :
    ∃ (N : List (β × γ)) (y : τ), N.map Prod.fst = L ∧
      Steps (fun x l y => R l.1 x l.2 y) x N y ∧ Rel t y := by
  induction h generalizing x with
  | nil => exact ⟨[], x, rfl, .nil x, h0⟩
  | @cons s u t b L hb _ ih =>
    obtain ⟨c, y, hc, hR⟩ := hstep _ _ _ x h0 hb
    obtain ⟨N, z, rfl, hN, hR⟩ := ih hR
    exact ⟨(b, c) :: N, z, rfl, .cons hc hN, hR⟩

/-- Steps of one system, each matched by a step of another, give a run of the other; what
relates the two states may speak of the labels that are still to come. -/
theorem simulate {T : τ → γ → τ → Prop} {f : β → γ} (Rel : List β → σ → τ → Prop)
    (hstep : ∀ {b L s t x}, Rel (b :: L) s x → step s b t → ∃ y, T x (f b) y ∧ Rel L t y)
    (h : Steps step s L t) {x : τ} (h0 : Rel L s x) :
    ∃ y, Steps T x (L.map f) y ∧ Rel [] t y := by
  induction h generalizing x with
  | nil => exact ⟨x, .nil x, h0⟩
  | cons hb _ ih =>
    obtain ⟨y, hy, hR⟩ := hstep h0 hb
    obtain ⟨z, hz, hR⟩ := ih hR
    exact ⟨z, .cons hy hz, hR⟩

/-- Every label of a run was taken between two states the run passes through. -/
theorem of_mem (h : Steps step s L t) (hb : b ∈ L) :
    ∃ L₁ L₂ u v, L = L₁ ++ b :: L₂ ∧ Steps step s L₁ u ∧ step u b v ∧ Steps step v L₂ t := by
  obtain ⟨L₁, L₂, rfl⟩ := List.append_of_mem hb
  obtain ⟨u, v, h₁, h₂, h₃⟩ := split_at h
  exact ⟨L₁, L₂, u, v, rfl, h₁, h₂, h₃⟩

/-- What is so after a run and was not before came about in one of its steps. -/
theorem exists_change {P : σ → Prop} (h : Steps step s L t) (hs : ¬ P s) (ht : P t) :
    ∃ b ∈ L, ∃ u v, step u b v ∧ ¬ P u ∧ P v := by
  induction h with
  | nil s => exact absurd ht hs
  | @cons s u t b L hb _ ih =>
    by_cases hu : P u
    · exact ⟨b, List.mem_cons_self, s, u, hb, hs, hu⟩
    · obtain ⟨c, hc, hrest⟩ := ih hu ht
      exact ⟨c, List.mem_cons_of_mem b hc, hrest⟩

/-- Steps of one system, each of which is some steps of another, wherever the run has come to. -/
theorem gather {δ : Type*} {T : τ → δ → τ → Prop} {f : σ → τ} {g : γ → List δ} {P : γ → Prop}
    (h : Steps step s L t)
    (hstep : ∀ L₁ b L₂ u v, L = L₁ ++ b :: L₂ → Steps step s L₁ u → step u b v →
      ∃ ms : List γ, Steps T (f u) (ms.flatMap g) (f v) ∧ ∀ m ∈ ms, P m) :
    ∃ ms : List γ, Steps T (f s) (ms.flatMap g) (f t) ∧ ∀ m ∈ ms, P m := by
  induction h with
  | nil s => exact ⟨[], .nil _, nofun⟩
  | @cons s u t b L hb _ ih =>
    obtain ⟨ms, hms, hP⟩ := hstep [] b L s u rfl (.nil s) hb
    obtain ⟨ns, hns, hQ⟩ := ih fun L₁ c L₂ v w hL h₁ hc =>
      hstep (b :: L₁) c L₂ v w (by rw [hL, List.cons_append]) (.cons hb h₁) hc
    refine ⟨ms ++ ns, ?_, fun m hm => (List.mem_append.mp hm).elim (hP m) (hQ m)⟩
    rw [List.flatMap_append]
    exact hms.append hns

end Steps
end Ark.Lib
