import Mathlib.Algebra.Ring.Nat
import Mathlib.Data.List.Basic
import Mathlib.Data.List.Induction

/- Limits by calendar epoch, and the sliding windows they stand for.

   An entry is a time and an amount. A limiter that counts the amounts of the
   current epoch alone bounds every epoch; a limit on every window of one epoch's
   length asks for more, since a window may reach into the epoch before. Over
   entries in order of time the two differ exactly where an entry is made while
   amounts of the epoch before are still in its window (`windows_iff`). -/
namespace Ark.Lib.Epochs

/-- What the entries at the times in `p` add up to. -/
def during (p : Nat → Bool) (xs : List (Nat × Nat)) : Nat :=
  ((xs.filter fun x => p x.1).map Prod.snd).sum

def inWindow (size t time : Nat) : Bool := time ≤ t ∧ t < time + size

def inEpoch (size epoch time : Nat) : Bool := time / size = epoch

/-- In the window that ends at `t`, but in the epoch before. -/
def carried (size t time : Nat) : Bool := time / size + 1 = t / size ∧ t < time + size

/-- An entry made while amounts of the epoch before are in its window fits the limit together
with these and with what its own epoch has so far. -/
def CarryFits (size limit : Nat) (xs : List (Nat × Nat)) : Prop :=
  ∀ l₁ t amount l₂, xs = l₁ ++ (t, amount) :: l₂ → amount ≠ 0 →
    during (carried size t) l₁ ≠ 0 →
    during (carried size t) l₁ + during (inEpoch size (t / size)) l₁ + amount ≤ limit

section Sums
variable {p q r : Nat → Bool}

@[simp] theorem during_nil : during p [] = 0 := rfl

theorem during_cons (x : Nat × Nat) (xs : List (Nat × Nat)) :
    during p (x :: xs) = (if p x.1 = true then x.2 else 0) + during p xs := by
  unfold during
  by_cases hx : p x.1 = true
  · simp [hx]
  · simp [hx]

theorem during_append (xs ys : List (Nat × Nat)) :
    during p (xs ++ ys) = during p xs + during p ys := by
  simp [during, List.filter_append]

theorem during_concat (xs : List (Nat × Nat)) (x : Nat × Nat) :
    during p (xs ++ [x]) = during p xs + if p x.1 = true then x.2 else 0 := by
  rw [during_append, during_cons, during_nil]
  omega

theorem during_mono {xs : List (Nat × Nat)} (h : ∀ x ∈ xs, p x.1 = true → q x.1 = true) :
    during p xs ≤ during q xs := by
  induction xs with
  | nil => exact Nat.le_refl _
  | cons x xs ih =>
    have hxs := ih fun y hy => h y (List.mem_cons_of_mem x hy)
    have hx := h x List.mem_cons_self
    rw [during_cons, during_cons]
    by_cases hp : p x.1 = true
    · rw [if_pos hp, if_pos (hx hp)]
      omega
    · rw [if_neg hp]
      omega

/-- A period made of two that have no time in common. -/
theorem during_add {xs : List (Nat × Nat)} (h : ∀ x ∈ xs, r x.1 = (p x.1 || q x.1))
    (hdisj : ∀ x ∈ xs, p x.1 = true → q x.1 = false) :
    during r xs = during p xs + during q xs := by
  induction xs with
  | nil => rfl
  | cons x xs ih =>
    have hxs := ih (fun y hy => h y (List.mem_cons_of_mem x hy))
      fun y hy => hdisj y (List.mem_cons_of_mem x hy)
    have hx := h x List.mem_cons_self
    have hno := hdisj x List.mem_cons_self
    rw [during_cons, during_cons, during_cons, hxs, hx]
    cases hp : p x.1 with
    | true =>
      rw [hno hp]
      simp
      omega
    | false =>
      simp
      omega

end Sums

section Windows
variable {size limit : Nat} {xs : List (Nat × Nat)}

/-- A time up to `t` in the epoch of `t` is less than one epoch before it. -/
theorem lt_of_sameEpoch (hsize : 0 < size) {t time : Nat} (h : time / size = t / size) :
    t < time + size := by
  have ht := Nat.div_add_mod t size
  have hmod := Nat.mod_lt t hsize
  have htime : size * (time / size) ≤ time := Nat.mul_div_le time size
  rw [h] at htime
  omega

/-- A time in the window of `t` is in the epoch of `t` or in the one before. -/
theorem epoch_of_window (hsize : 0 < size) {t time : Nat} (hle : time ≤ t) (hlt : t < time + size) :
    time / size = t / size ∨ time / size + 1 = t / size := by
  have hup : t / size ≤ (time + size) / size := Nat.div_le_div_right (Nat.le_of_lt hlt)
  have hdown : time / size ≤ t / size := Nat.div_le_div_right hle
  rw [Nat.add_div_right _ hsize] at hup
  omega

/-- A window is what is carried into the epoch of its end and what that epoch has. -/
theorem during_window (hsize : 0 < size) {t : Nat} (hle : ∀ x ∈ xs, x.1 ≤ t) :
    during (inWindow size t) xs =
      during (carried size t) xs + during (inEpoch size (t / size)) xs := by
  apply during_add
  · intro x hx
    have hxt := hle x hx
    rw [Bool.eq_iff_iff, Bool.or_eq_true]
    simp only [inWindow, carried, inEpoch, decide_eq_true_eq]
    constructor
    · intro h
      cases epoch_of_window hsize hxt h.2 with
      | inl he => exact .inr he
      | inr he => exact .inl ⟨he, h.2⟩
    · intro h
      cases h with
      | inl h => exact ⟨hxt, h.2⟩
      | inr h => exact ⟨hxt, lt_of_sameEpoch hsize h⟩
  · intro x _ h
    simp only [carried, inEpoch, decide_eq_true_eq, decide_eq_false_iff_not] at h ⊢
    omega

/-- Entries in order of time that keep the limit in every epoch keep it in every window if and
only if what is carried fits. -/
theorem windows_iff (hsize : 0 < size) (hsorted : xs.Pairwise fun x y => x.1 ≤ y.1)
    (hepoch : ∀ e, during (inEpoch size e) xs ≤ limit) :
    (∀ t, during (inWindow size t) xs ≤ limit) ↔ CarryFits size limit xs := by
  constructor
  · intro h l₁ t amount l₂ hxs _ _
    subst hxs
    have hle : ∀ x ∈ l₁, x.1 ≤ t := fun x hx =>
      (List.pairwise_append.mp hsorted).2.2 x hx _ List.mem_cons_self
    have hin : inWindow size t t = true := by
      simp [inWindow, hsize]
    have ht := h t
    rw [during_append, during_cons, if_pos hin, during_window hsize hle] at ht
    omega
  · intro h
    -- along the entries: a window that holds the last one began after the window ending there
    induction xs using List.reverseRecOn with
    | nil => simp
    | append_singleton l x ih =>
      obtain ⟨m, a⟩ := x
      obtain ⟨hl, _, hlast⟩ := List.pairwise_append.mp hsorted
      have hle : ∀ y ∈ l, y.1 ≤ m := fun y hy => hlast y hy _ (List.mem_singleton.mpr rfl)
      have hepoch' : ∀ e, during (inEpoch size e) l ≤ limit := by
        intro e
        have he := hepoch e
        rw [during_concat] at he
        omega
      have hfits' : CarryFits size limit l := by
        intro l₁ t amount l₂ hl
        exact h l₁ t amount (l₂ ++ [(m, a)]) (by rw [hl]; simp)
      have hwindow := ih hl hepoch' hfits'
      intro t
      rw [during_concat]
      by_cases hin : inWindow size t m = true
      · rw [if_pos hin]
        simp only [inWindow, decide_eq_true_eq] at hin
        have hmono : during (inWindow size t) l ≤ during (inWindow size m) l := by
          apply during_mono
          intro y hy hyt
          have hym := hle y hy
          simp only [inWindow, decide_eq_true_eq] at hyt ⊢
          omega
        by_cases ha : a = 0
        · have hm := hwindow m
          omega
        rw [during_window hsize hle] at hmono
        by_cases hcarry : during (carried size m) l = 0
        · have he := hepoch (m / size)
          have hme : inEpoch size (m / size) m = true := by simp [inEpoch]
          rw [during_concat, if_pos hme] at he
          simp only at he ⊢
          omega
        · have hfit := h l m a [] rfl ha hcarry
          simp only
          omega
      · rw [if_neg hin]
        exact hwindow t

end Windows
end Ark.Lib.Epochs
