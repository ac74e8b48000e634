import Mathlib.Data.List.Sort
import Mathlib.Order.Basic

/- Sorted key sets: the part of a key-value store that holds keys and no values.
   A `KeySet` is its list of keys in ascending order, each once; the order is a
   field, so an iteration over `keys` never needs a separate proof that it
   walks the keys in order. Setting a key that is present changes nothing.

   What is proved: membership after every operation (`mem_set`, `mem_remove`,
   `mem_filter`), that a key set is determined by its members (`ext_mem`), and
   that an ascending list is cut at any key (`cut_at`). -/
namespace Ark.Lib

/-- A finite set of keys, held in ascending order. -/
structure KeySet (α : Type) [LinearOrder α] where
  keys : List α
  sorted : keys.Pairwise (· < ·)

namespace KeySet
variable {α : Type} [LinearOrder α]

instance : Membership α (KeySet α) := ⟨fun s k => k ∈ s.keys⟩

instance (k : α) (s : KeySet α) : Decidable (k ∈ s) := inferInstanceAs (Decidable (k ∈ s.keys))

theorem mem_def {k : α} {s : KeySet α} : k ∈ s ↔ k ∈ s.keys := Iff.rfl

/-- The set without keys. -/
def empty : KeySet α := ⟨[], List.Pairwise.nil⟩

@[simp] theorem not_mem_empty (k : α) : k ∉ (empty : KeySet α) := by
  simp [mem_def, empty]

/-- `k` put in its place; the list as it is when `k` is in it already. -/
def insertKey (k : α) : List α → List α
  | [] => [k]
  | x :: xs => if k < x then k :: x :: xs else if k = x then x :: xs else x :: insertKey k xs

theorem mem_insertKey {k j : α} {l : List α} : j ∈ insertKey k l ↔ j = k ∨ j ∈ l := by
  induction l with
  | nil => simp [insertKey]
  | cons x xs ih =>
    rw [insertKey]
    split
    · simp
    · split
      · rename_i h; subst h; simp
      · simp only [List.mem_cons, ih]
        tauto

theorem insertKey_sorted (k : α) {l : List α} (h : l.Pairwise (· < ·)) :
    (insertKey k l).Pairwise (· < ·) := by
  induction l with
  | nil => simp [insertKey]
  | cons x xs ih =>
    obtain ⟨hx, hxs⟩ := List.pairwise_cons.mp h
    rw [insertKey]
    split
    · rename_i hk
      refine List.pairwise_cons.mpr ⟨fun y hy => ?_, h⟩
      rcases List.mem_cons.mp hy with rfl | hy
      · exact hk
      · exact hk.trans (hx y hy)
    · split
      · exact h
      · rename_i hk hne
        refine List.pairwise_cons.mpr ⟨fun y hy => ?_, ih hxs⟩
        rcases mem_insertKey.mp hy with rfl | hy
        · exact lt_of_le_of_ne (not_lt.mp hk) (Ne.symm hne)
        · exact hx y hy

/-- Set a key. -/
def set (s : KeySet α) (k : α) : KeySet α := ⟨insertKey k s.keys, insertKey_sorted k s.sorted⟩

/-- Remove a key; a key that is absent is no error. -/
def remove (s : KeySet α) (k : α) : KeySet α := ⟨s.keys.filter (· ≠ k), s.sorted.filter _⟩

/-- The keys that satisfy `p`, in ascending order. -/
def filter (s : KeySet α) (p : α → Bool) : List α := s.keys.filter p

@[simp] theorem mem_set {s : KeySet α} {k j : α} : j ∈ s.set k ↔ j = k ∨ j ∈ s := mem_insertKey

@[simp] theorem mem_remove {s : KeySet α} {k j : α} : j ∈ s.remove k ↔ j ∈ s ∧ j ≠ k := by
  simp [mem_def, remove]

@[simp] theorem mem_filter {s : KeySet α} {p : α → Bool} {j : α} :
    j ∈ s.filter p ↔ j ∈ s ∧ p j = true := by
  simp [mem_def, filter]

/-- Setting the keys of a list, one after the other. -/
theorem mem_foldl_set {β : Type*} {f : β → α} {l : List β} {s : KeySet α} {k : α} :
    k ∈ l.foldl (fun s x => s.set (f x)) s ↔ k ∈ s ∨ ∃ x ∈ l, f x = k := by
  induction l generalizing s with
  | nil => simp
  | cons x l ih =>
    rw [List.foldl_cons, ih, mem_set, List.exists_mem_cons_iff]
    constructor
    · intro h
      obtain (hk | hk) | hk := h
      · exact .inr (.inl hk.symm)
      · exact .inl hk
      · exact .inr (.inr hk)
    · intro h
      obtain hk | hk | hk := h
      · exact .inl (.inr hk)
      · exact .inl (.inl hk.symm)
      · exact .inr hk

/-- Removing the keys of a list, one after the other. -/
theorem mem_foldl_remove {l : List α} {s : KeySet α} {k : α} :
    k ∈ l.foldl remove s ↔ k ∈ s ∧ k ∉ l := by
  induction l generalizing s with
  | nil => simp
  | cons x l ih => rw [List.foldl_cons, ih, mem_remove, List.mem_cons, not_or, and_assoc]

theorem filter_sorted (s : KeySet α) (p : α → Bool) : (s.filter p).Pairwise (· < ·) :=
  s.sorted.filter _

theorem filter_nodup (s : KeySet α) (p : α → Bool) : (s.filter p).Nodup :=
  (s.filter_sorted p).imp fun h => ne_of_lt h

/-- Two key sets with the same members are the same. -/
theorem ext_mem {s t : KeySet α} (h : ∀ k, k ∈ s ↔ k ∈ t) : s = t := by
  have hs : s.keys.Nodup := s.sorted.imp fun h => ne_of_lt h
  have ht : t.keys.Nodup := t.sorted.imp fun h => ne_of_lt h
  have hp : s.keys.Perm t.keys := (List.perm_ext_iff_of_nodup hs ht).mpr h
  have he : s.keys = t.keys :=
    hp.eq_of_pairwise (fun a b _ _ hab hba => absurd hab (not_lt.mpr hba.le)) s.sorted t.sorted
  cases s
  cases t
  simp only at he
  subst he
  rfl

/-- A list that ascends by `f` is cut at any bound: what is below it, and what is not. -/
theorem cut_at {β : Type*} {f : β → α} {l : List β} (h : l.Pairwise fun x y => f x < f y) (k : α) :
    ∃ l₁ l₂, l = l₁ ++ l₂ ∧ (∀ x ∈ l₁, f x < k) ∧ ∀ x ∈ l₂, k ≤ f x := by
  induction l with
  | nil => exact ⟨[], [], rfl, by simp, by simp⟩
  | cons x l ih =>
    obtain ⟨hx, hl⟩ := List.pairwise_cons.mp h
    by_cases hk : f x < k
    · obtain ⟨l₁, l₂, rfl, h₁, h₂⟩ := ih hl
      exact ⟨x :: l₁, l₂, rfl, List.forall_mem_cons.mpr ⟨hk, h₁⟩, h₂⟩
    · have hk := not_lt.mp hk
      exact ⟨[], x :: l, rfl, by simp,
        List.forall_mem_cons.mpr ⟨hk, fun y hy => hk.trans (hx y hy).le⟩⟩

end KeySet
end Ark.Lib
