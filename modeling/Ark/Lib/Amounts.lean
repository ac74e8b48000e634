import Mathlib.Algebra.Group.Basic
import Mathlib.Order.Lattice

/- Amounts of finitely many kinds, as a list of pairs in the order of the kinds,
   each kind at most once (`Sorted`). Two such lists are added kind by kind (`add`),
   and the amount of a kind in the sum is the sum of its amounts (`amountOf_add`). -/
namespace Ark.Lib.Amounts

variable {κ ν : Type*} [LinearOrder κ] [AddCommMonoid ν]

def Sorted (l : List (κ × ν)) : Prop := l.Pairwise fun x y => x.1 < y.1

instance [DecidableEq ν] (l : List (κ × ν)) : Decidable (Sorted l) :=
  inferInstanceAs (Decidable (l.Pairwise fun x y => x.1 < y.1))

/-- The amount of a kind; nothing where the list does not name it. -/
def amountOf : List (κ × ν) → κ → ν
  | [], _ => 0
  | e :: l, k => if e.1 = k then e.2 else amountOf l k

def addTo (k : κ) (n : ν) : List (κ × ν) → List (κ × ν)
  | [] => [(k, n)]
  | e :: l =>
    if k < e.1 then (k, n) :: e :: l
    else if k = e.1 then (k, e.2 + n) :: l
    else e :: addTo k n l

def add (l l' : List (κ × ν)) : List (κ × ν) := l'.foldl (fun sum e => addTo e.1 e.2 sum) l

variable {l l' : List (κ × ν)} {k i : κ} {n : ν}

theorem amountOf_eq_zero (h : ∀ e ∈ l, k < e.1) : amountOf l k = 0 := by
  induction l with
  | nil => rfl
  | cons e l ih =>
    have he : e.1 ≠ k := ne_of_gt (h e List.mem_cons_self)
    unfold amountOf
    rw [if_neg he]
    exact ih fun x hx => h x (List.mem_cons_of_mem e hx)

theorem amountOf_addTo (h : Sorted l) :
    amountOf (addTo k n l) i = amountOf l i + if k = i then n else 0 := by
  induction l with
  | nil => simp [addTo, amountOf]
  | cons e l ih =>
    obtain ⟨hhead, hl⟩ := List.pairwise_cons.mp h
    unfold addTo
    by_cases hlt : k < e.1
    · rw [if_pos hlt]
      by_cases hi : k = i
      · -- the list starts after `k` and does not name it
        have hzero : amountOf (e :: l) i = 0 := by
          apply amountOf_eq_zero
          intro x hx
          rw [← hi]
          cases List.mem_cons.mp hx with
          | inl hx => rw [hx]; exact hlt
          | inr hx => exact lt_trans hlt (hhead x hx)
        rw [hzero, zero_add]
        simp [amountOf, hi]
      · simp [amountOf, hi]
    · rw [if_neg hlt]
      by_cases heq : k = e.1
      · rw [if_pos heq]
        by_cases hi : k = i
        · simp [amountOf, ← heq, hi]
        · simp [amountOf, ← heq, hi]
      · rw [if_neg heq]
        by_cases hei : e.1 = i
        · have hki : k ≠ i := by
            intro hki
            exact heq (hki.trans hei.symm)
          simp [amountOf, hei, hki]
        · simp only [amountOf, if_neg hei]
          exact ih hl

/-- What holds of the old entries, and of the new one whatever it was added to. -/
theorem forall_addTo {p : κ × ν → Prop} (hl : ∀ e ∈ l, p e) (hnew : p (k, n))
    (hsum : ∀ e ∈ l, k = e.1 → p (k, e.2 + n)) : ∀ e ∈ addTo k n l, p e := by
  induction l with
  | nil => simpa [addTo] using hnew
  | cons e l ih =>
    have htail : ∀ x ∈ l, p x := fun x hx => hl x (List.mem_cons_of_mem e hx)
    have ih := ih htail fun x hx => hsum x (List.mem_cons_of_mem e hx)
    unfold addTo
    split
    · exact List.forall_mem_cons.mpr ⟨hnew, hl⟩
    · split
      · exact List.forall_mem_cons.mpr ⟨hsum e List.mem_cons_self ‹_›, htail⟩
      · exact List.forall_mem_cons.mpr ⟨hl e List.mem_cons_self, ih⟩

theorem sorted_addTo (h : Sorted l) : Sorted (addTo k n l) := by
  induction l with
  | nil => exact List.pairwise_singleton _ _
  | cons e l ih =>
    obtain ⟨hhead, hl⟩ := List.pairwise_cons.mp h
    unfold addTo
    by_cases hlt : k < e.1
    · rw [if_pos hlt]
      apply List.pairwise_cons.mpr ⟨?_, h⟩
      intro x hx
      cases List.mem_cons.mp hx with
      | inl hx => rw [hx]; exact hlt
      | inr hx => exact lt_trans hlt (hhead x hx)
    · rw [if_neg hlt]
      by_cases heq : k = e.1
      · rw [if_pos heq, heq]
        exact List.pairwise_cons.mpr ⟨hhead, hl⟩
      · rw [if_neg heq]
        have hgt : e.1 < k := lt_of_le_of_ne (not_lt.mp hlt) (Ne.symm heq)
        apply List.pairwise_cons.mpr ⟨?_, ih hl⟩
        exact forall_addTo (p := fun x => e.1 < x.1) hhead hgt fun _ _ _ => hgt

theorem sorted_add (h : Sorted l) : Sorted (add l l') := by
  induction l' generalizing l with
  | nil => exact h
  | cons e l' ih => exact ih (sorted_addTo h)

/-- What holds of the entries of both lists and goes over to sums holds of the sum's entries. -/
theorem forall_add {p : κ → ν → Prop} (hsum : ∀ k m n, p k m → p k n → p k (m + n))
    (hl : ∀ e ∈ l, p e.1 e.2) (hl' : ∀ e ∈ l', p e.1 e.2) : ∀ e ∈ add l l', p e.1 e.2 := by
  induction l' generalizing l with
  | nil => exact hl
  | cons e l' ih =>
    obtain ⟨he, htail⟩ := List.forall_mem_cons.mp hl'
    apply ih _ htail
    apply forall_addTo hl he
    intro x hx hkey
    rw [hkey]
    rw [hkey] at he
    exact hsum x.1 x.2 e.2 (hl x hx) he

theorem amountOf_add (h : Sorted l) (h' : Sorted l') :
    amountOf (add l l') k = amountOf l k + amountOf l' k := by
  induction l' generalizing l with
  | nil => simp [add, amountOf]
  | cons e l' ih =>
    obtain ⟨hhead, hl'⟩ := List.pairwise_cons.mp h'
    calc amountOf (add (addTo e.1 e.2 l) l') k
        = amountOf (addTo e.1 e.2 l) k + amountOf l' k := ih (sorted_addTo h) hl'
      _ = amountOf l k + (if e.1 = k then e.2 else 0) + amountOf l' k := by
        rw [amountOf_addTo h]
      _ = amountOf l k + amountOf (e :: l') k := by
        by_cases hk : e.1 = k
        · -- the rest of the list comes after `k`
          have hzero : amountOf l' k = 0 := by
            apply amountOf_eq_zero
            intro x hx
            rw [← hk]
            exact hhead x hx
          simp [amountOf, hk, hzero]
        · simp [amountOf, hk]

theorem amountOf_append_of_lt {r : List (κ × ν)} (h : ∀ e ∈ r, k < e.1) :
    amountOf (l ++ r) k = amountOf l k := by
  induction l with
  | nil => exact amountOf_eq_zero h
  | cons e l ih => rw [List.cons_append, amountOf, amountOf, ih]

theorem amountOf_append_of_gt {r : List (κ × ν)} (h : ∀ e ∈ l, e.1 < k) :
    amountOf (l ++ r) k = amountOf r k := by
  induction l with
  | nil => rfl
  | cons e l ih =>
    obtain ⟨he, hl⟩ := List.forall_mem_cons.mp h
    rw [List.cons_append, amountOf, if_neg (ne_of_lt he), ih hl]

/-- An entry is the amount of its kind. -/
theorem amountOf_of_mem (h : Sorted l) {e : κ × ν} (he : e ∈ l) : amountOf l e.1 = e.2 := by
  induction l with
  | nil => cases he
  | cons x l ih =>
    obtain ⟨hhead, hl⟩ := List.pairwise_cons.mp h
    cases List.mem_cons.mp he with
    | inl heq =>
      rw [heq, amountOf, if_pos rfl]
    | inr hmem =>
      rw [amountOf, if_neg (ne_of_lt (hhead e hmem)), ih hl hmem]

theorem mem_of_amountOf_ne (h : amountOf l k ≠ 0) : (k, amountOf l k) ∈ l := by
  induction l with
  | nil => exact absurd rfl h
  | cons e l ih =>
    unfold amountOf at h ⊢
    by_cases he : e.1 = k
    · rw [if_pos he, ← he]
      exact List.mem_cons_self
    · rw [if_neg he] at h ⊢
      exact List.mem_cons_of_mem e (ih h)

/-- Lists without empty amounts are the same when each kind has the same amount in both. -/
theorem ext (h : Sorted l) (h' : Sorted l') (hne : ∀ e ∈ l, e.2 ≠ 0) (hne' : ∀ e ∈ l', e.2 ≠ 0)
    (heq : ∀ k, amountOf l k = amountOf l' k) : l = l' := by
  have hsub : ∀ {a b : List (κ × ν)}, Sorted a → (∀ e ∈ a, e.2 ≠ 0) →
      (∀ k, amountOf a k = amountOf b k) → ∀ e ∈ a, e ∈ b := by
    intro a b ha hna hab e he
    have hval : amountOf b e.1 = e.2 := by rw [← hab, amountOf_of_mem ha he]
    have hmem : (e.1, amountOf b e.1) ∈ b := mem_of_amountOf_ne (by rw [hval]; exact hna e he)
    rw [hval] at hmem
    exact hmem
  have hnodup : ∀ {a : List (κ × ν)}, Sorted a → a.Nodup := fun ha =>
    ha.imp fun hlt heq => ne_of_lt hlt (congrArg Prod.fst heq)
  have hperm : l.Perm l' := by
    apply (List.perm_ext_iff_of_nodup (hnodup h) (hnodup h')).mpr
    intro e
    exact ⟨hsub h hne heq e, hsub h' hne' (fun k => (heq k).symm) e⟩
  exact hperm.eq_of_pairwise (fun a b _ _ hab hba => absurd hab (lt_asymm hba)) h h'

end Ark.Lib.Amounts
