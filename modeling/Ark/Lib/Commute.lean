import Ark.Lib.Effect

/- Computations that a change of the state goes through.

   `Commutes f I x` says that `x` does the same from a state that was changed by `f`, and
   leaves the change in place; this from any state of `I`, which `x` keeps where it ends
   well. It is put together bind by bind. A part of the state that a system never looks at
   may be changed at any time without anybody noticing: the change is an `f` that every
   operation commutes with. -/
namespace Ark.Lib.Effect

variable {ε σ α β ι : Type}

/-- What a computation ends with, from a state that was changed. -/
def changed (f : σ → σ) : EStateM.Result ε σ α → EStateM.Result ε σ α
  | .ok a s => .ok a (f s)
  | .error e s => .error e (f s)

def Commutes (f : σ → σ) (I : σ → Prop) (x : EStateM ε σ α) : Prop :=
  ∀ s, I s → x (f s) = changed f (x s) ∧ ∀ a t, x s = .ok a t → I t

namespace Commutes
variable {f : σ → σ} {I : σ → Prop}

theorem pure' (a : α) : Commutes f I (pure a : EStateM ε σ α) := by
  intro s hs
  refine ⟨rfl, fun b t h => ?_⟩
  cases h
  exact hs

theorem throw' (e : ε) : Commutes f I (throw e : EStateM ε σ α) := by
  intro s _
  refine ⟨rfl, fun b t h => ?_⟩
  cases h

theorem bind' {x : EStateM ε σ α} {g : α → EStateM ε σ β} (hx : Commutes f I x)
    (hg : ∀ a, Commutes f I (g a)) : Commutes f I (x >>= g) := by
  intro s hs
  obtain ⟨hchange, hkeep⟩ := hx s hs
  show EStateM.bind x g (f s) = changed f (EStateM.bind x g s) ∧
    ∀ b t, EStateM.bind x g s = .ok b t → I t
  unfold EStateM.bind
  rw [hchange]
  cases h : x s with
  | ok a u => exact hg a u (hkeep a u h)
  | error e u => exact ⟨rfl, nofun⟩

/-- What comes after a read may depend on what was read, as long as the change does not show in
it. -/
theorem read {x : EStateM ε σ α} {r : σ → α} {g : α → EStateM ε σ β}
    (hx : ∀ s, x s = .ok (r s) s) (hr : ∀ s, I s → g (r (f s)) = g (r s))
    (hg : ∀ a, Commutes f I (g a)) : Commutes f I (x >>= g) := by
  intro s hs
  rw [bind_eq_of_ok (hx (f s)), bind_eq_of_ok (hx s), hr s hs]
  exact hg _ s hs

theorem ite' {c : Prop} [Decidable c] {x y : EStateM ε σ α} (hx : c → Commutes f I x)
    (hy : ¬ c → Commutes f I y) : Commutes f I (if c then x else y) := by
  by_cases h : c
  · rw [if_pos h]
    exact hx h
  · rw [if_neg h]
    exact hy h

theorem forM' {g : ι → EStateM ε σ PUnit} (hg : ∀ i, Commutes f I (g i)) (xs : List ι) :
    Commutes f I (xs.forM g) := by
  induction xs with
  | nil => exact pure' _
  | cons x xs ih => exact bind' (hg x) fun _ => ih

theorem foldlM' {g : β → ι → EStateM ε σ β} (hg : ∀ b i, Commutes f I (g b i)) (xs : List ι)
    (b : β) : Commutes f I (xs.foldlM g b) := by
  induction xs generalizing b with
  | nil => exact pure' b
  | cons x xs ih =>
    rw [List.foldlM_cons]
    exact bind' (hg b x) ih

/-- Where a computation ends well, it does from the changed state. -/
theorem ok {x : EStateM ε σ α} (h : Commutes f I x) {s t : σ} {a : α} (hs : I s)
    (hx : x s = .ok a t) : x (f s) = .ok a (f t) := by
  rw [(h s hs).1, hx]
  rfl

end Commutes
end Ark.Lib.Effect
