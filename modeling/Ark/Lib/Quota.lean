import Mathlib.Algebra.Order.BigOperators.Group.List
import Mathlib.Algebra.Order.Group.Defs
import Mathlib.Algebra.Order.Ring.Int

/- A limit on every window of time, kept by looking back one window.

   An entry is a time and an amount. An entry is admitted when it fits the limit together
   with the entries of the last `size`; then every window of that size fits the limit
   (`Admitted.window_le`), since the entries of a window are recent for the last of them.
   Entries that are no longer recent may be dropped on the way: they will not be recent
   again (`Tracks`). -/
namespace Ark.Lib.Quota

variable {τ : Type*}

def total (xs : List (τ × Int)) : Int := (xs.map Prod.snd).sum

theorem total_append {xs ys : List (τ × Int)} : total (xs ++ ys) = total xs + total ys := by
  unfold total
  rw [List.map_append, List.sum_append]

theorem total_singleton (x : τ × Int) : total [x] = x.2 := by
  simp [total]

/-- Of amounts that are not negative, fewer come to less. -/
theorem total_le_of_sublist {xs ys : List (τ × Int)} (h : xs.Sublist ys)
    (hpos : ∀ y ∈ ys, 0 ≤ y.2) : total xs ≤ total ys := by
  apply (h.map Prod.snd).sum_le_sum
  intro n hn
  obtain ⟨y, hy, hyn⟩ := List.mem_map.mp hn
  rw [← hyn]
  exact hpos y hy

theorem total_nonpos {xs : List (τ × Int)} (h : ∀ x ∈ xs, x.2 ≤ 0) : total xs ≤ 0 := by
  induction xs with
  | nil => exact Int.le_refl 0
  | cons x xs ih =>
    obtain ⟨hx, hxs⟩ := List.forall_mem_cons.mp h
    have hsum : total (x :: xs) = x.2 + total xs := by simp [total]
    have := ih hxs
    omega

variable [AddCommGroup τ] [LinearOrder τ]

/-- The entries that are recent at `now`. -/
def prune (size now : τ) (xs : List (τ × Int)) : List (τ × Int) :=
  xs.filter fun x => now - x.1 < size

/-- The entries of the window from `t` on. -/
def window (size t : τ) (xs : List (τ × Int)) : List (τ × Int) :=
  xs.filter fun x => t ≤ x.1 ∧ x.1 < t + size

/-- `kept` has what is recent in `xs`, from `now` on. -/
def Tracks (size now : τ) (kept xs : List (τ × Int)) : Prop :=
  ∀ later, now ≤ later → prune size later kept = prune size later xs

/-- Entries in order of time, each of which fitted the limit together with the recent ones. -/
inductive Admitted (size : τ) (limit : Int) : List (τ × Int) → Prop where
  | nil : Admitted size limit []
  | snoc {xs : List (τ × Int)} {now : τ} {n : Int} : Admitted size limit xs →
      (∀ x ∈ xs, x.1 ≤ now) → 0 ≤ n → total (prune size now xs) + n ≤ limit →
      Admitted size limit (xs ++ [(now, n)])

variable {size now now' t : τ} {limit n : Int} {xs ys kept : List (τ × Int)}

theorem prune_append : prune size now (xs ++ ys) = prune size now xs ++ prune size now ys := by
  unfold prune
  rw [List.filter_append]

theorem window_append : window size t (xs ++ ys) = window size t xs ++ window size t ys := by
  unfold window
  rw [List.filter_append]

theorem Tracks.later (h : Tracks size now kept xs) (hnow : now ≤ now') : Tracks size now' kept xs :=
  fun later hlater => h later (le_trans hnow hlater)

theorem Admitted.nonneg (h : Admitted size limit xs) : ∀ x ∈ xs, 0 ≤ x.2 := by
  induction h with
  | nil => exact nofun
  | snoc _ _ hn _ ih =>
    intro x hx
    cases List.mem_append.mp hx with
    | inl hx => exact ih x hx
    | inr hx =>
      rw [List.mem_singleton.mp hx]
      exact hn

variable [IsOrderedAddMonoid τ]

/-! ## Dropping entries -/

theorem prune_prune (h : now ≤ now') : prune size now' (prune size now xs) = prune size now' xs := by
  unfold prune
  rw [List.filter_filter]
  apply List.filter_congr
  intro x _
  have hearlier : now' - x.1 < size → now - x.1 < size :=
    lt_of_le_of_lt (sub_le_sub_right h x.1)
  by_cases hrecent : now' - x.1 < size
  · simp [hrecent, hearlier hrecent]
  · simp [hrecent]

/-- Pruning and then adding an entry goes on tracking. -/
theorem Tracks.snoc (h : Tracks size now kept xs) (x : τ × Int) :
    Tracks size now (prune size now kept ++ [x]) (xs ++ [x]) := by
  intro later hlater
  rw [prune_append, prune_append, prune_prune hlater, h later hlater]

/-! ## The limit -/

/-- The entries of a window are recent for whoever comes last in it. -/
theorem window_sublist_prune (hlast : now < t + size) :
    (window size t xs).Sublist (prune size now xs) := by
  apply List.monotone_filter_right
  intro x hx
  have hx := of_decide_eq_true hx
  have hbound : now < x.1 + size := lt_of_lt_of_le hlast (add_le_add_left hx.1 size)
  exact decide_eq_true (sub_lt_iff_lt_add'.mpr hbound)

theorem Admitted.window_le (h : Admitted size limit xs) (hlimit : 0 ≤ limit) (t : τ) :
    total (window size t xs) ≤ limit := by
  induction h with
  | nil => exact hlimit
  | @snoc xs now n hxs hlast hn hfits ih =>
    rw [window_append, total_append]
    by_cases hin : t ≤ now ∧ now < t + size
    · -- the new entry ends the window
      have hnew : window size t [(now, n)] = [(now, n)] := by simp [window, hin.1, hin.2]
      have hrecent : total (window size t xs) ≤ total (prune size now xs) := by
        apply total_le_of_sublist (window_sublist_prune hin.2)
        intro x hx
        exact hxs.nonneg x (List.mem_filter.mp hx).1
      rw [hnew, total_singleton]
      omega
    · have hnew : window size t [(now, n)] = [] := by
        apply List.filter_eq_nil_iff.mpr
        intro x hx
        rw [List.mem_singleton.mp hx]
        simpa using hin
      rw [hnew]
      show total (window size t xs) + 0 ≤ limit
      omega

end Ark.Lib.Quota
