import Mathlib.Tactic.TypeStar

/- Chains of checks. A check fails with its own error when its condition holds; a
   chain of checks succeeds when no condition holds, and its result is read
   backwards, check by check (`bind_ok`, `failIf_ok`). A loop of checks succeeds
   when each of its items does (`forM_ok`). -/
namespace Ark.Lib.Checks

variable {ε α β ι : Type}

/-- Fail with `e` when `c` holds. -/
def failIf (c : Prop) [Decidable c] (e : ε) : Except ε Unit := if c then .error e else .ok ()

@[simp] theorem failIf_ok {c : Prop} [Decidable c] {e : ε} {u : Unit} :
    failIf c e = .ok u ↔ ¬ c := by
  unfold failIf
  split
  · simp_all
  · simp_all

@[simp] theorem bind_ok {x : Except ε α} {f : α → Except ε β} {b : β} :
    (x >>= f) = .ok b ↔ ∃ a, x = .ok a ∧ f a = .ok b := by
  cases x with
  | error e => simp [bind, Except.bind]
  | ok a => simp [bind, Except.bind]

@[simp] theorem pure_ok {a b : α} : (pure a : Except ε α) = .ok b ↔ a = b := by
  simp [pure, Except.pure]

@[simp] theorem throw_ok {e : ε} {a : α} : (throw e : Except ε α) = .ok a ↔ False := by
  simp [throw, throwThe, MonadExceptOf.throw]

/-- A loop of checks succeeds when the check of every item does. -/
theorem forM_ok {f : ι → Except ε Unit} {xs : List ι} {u : Unit} :
    xs.forM f = .ok u ↔ ∀ x ∈ xs, f x = .ok () := by
  induction xs with
  | nil => simp [List.forM]
  | cons x xs ih =>
    show (f x >>= fun _ => xs.forM f) = .ok u ↔ _
    rw [bind_ok]
    constructor
    · intro h y hy
      obtain ⟨a, hx, hxs⟩ := h
      cases List.mem_cons.mp hy with
      | inl hy => rw [hy]; exact hx
      | inr hy => exact ih.mp hxs y hy
    · intro h
      exact ⟨⟨⟩, h x List.mem_cons_self, ih.mpr fun y hy => h y (List.mem_cons_of_mem x hy)⟩

end Ark.Lib.Checks
