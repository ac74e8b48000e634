import Mathlib.Data.List.Nodup
import Mathlib.Data.List.Perm.Basic
import Mathlib.Logic.Function.Basic

/- Maps whose values carry their key.

   `put` writes a value under its key, `putAll` a list of values in order. When no
   key of the list repeats, `putAll` is the pointwise override of the map by the list
   (`putAll_of_mem`, `putAll_of_notMem`), so the order of the list does not matter
   (`putAll_perm`); and writing under keys that are taken adds none
   (`putAll_isSome`). -/
namespace Ark.Lib.KeyedMap

variable {κ ν : Type} [DecidableEq κ] {key : ν → κ} {m : κ → Option ν} {k : κ} {v : ν} {l l' : List ν}

/-- Write a value under its key. -/
def put (key : ν → κ) (m : κ → Option ν) (v : ν) : κ → Option ν := Function.update m (key v) (some v)

def putAll (key : ν → κ) (m : κ → Option ν) (l : List ν) : κ → Option ν := l.foldl (put key) m

theorem put_self : put key m v (key v) = some v := by
  unfold put
  rw [Function.update_self]

theorem put_of_ne (h : key v ≠ k) : put key m v k = m k := by
  unfold put
  rw [Function.update_of_ne h.symm]

theorem put_isSome (h : (m (key v)).isSome = true) : (put key m v k).isSome = (m k).isSome := by
  by_cases hk : key v = k
  · rw [← hk, put_self, h]
    rfl
  · rw [put_of_ne hk]

@[simp] theorem putAll_nil : putAll key m [] = m := rfl

@[simp] theorem putAll_cons : putAll key m (v :: l) = putAll key (put key m v) l := rfl

theorem putAll_of_notMem (h : ∀ v ∈ l, key v ≠ k) : putAll key m l k = m k := by
  induction l generalizing m with
  | nil => rfl
  | cons v l ih =>
    rw [putAll_cons, ih fun w hw => h w (List.mem_cons_of_mem v hw)]
    exact put_of_ne (h v List.mem_cons_self)

theorem putAll_of_mem (hnodup : (l.map key).Nodup) (hv : v ∈ l) :
    putAll key m l (key v) = some v := by
  induction l generalizing m with
  | nil => cases hv
  | cons w l ih =>
    rw [List.map_cons, List.nodup_cons] at hnodup
    rw [putAll_cons]
    cases List.mem_cons.mp hv with
    | inl he =>
      subst he
      rw [putAll_of_notMem]
      · exact put_self
      · intro w hw he
        exact hnodup.1 (he ▸ List.mem_map_of_mem hw)
    | inr hv => exact ih hnodup.2 hv

/-- Writes under distinct keys commute. -/
theorem putAll_perm (hnodup : (l.map key).Nodup) (h : l.Perm l') :
    putAll key m l = putAll key m l' := by
  have hnodup' : (l'.map key).Nodup := (h.map key).nodup_iff.mp hnodup
  funext k
  by_cases hk : ∃ v ∈ l, key v = k
  · obtain ⟨v, hv, he⟩ := hk
    rw [← he, putAll_of_mem hnodup hv, putAll_of_mem hnodup' (h.mem_iff.mp hv)]
  · have hout : ∀ v ∈ l, key v ≠ k := fun v hv he => hk ⟨v, hv, he⟩
    rw [putAll_of_notMem hout, putAll_of_notMem fun v hv => hout v (h.mem_iff.mpr hv)]

theorem putAll_isSome (h : ∀ v ∈ l, (m (key v)).isSome = true) :
    (putAll key m l k).isSome = (m k).isSome := by
  induction l generalizing m with
  | nil => rfl
  | cons v l ih =>
    have hv := h v List.mem_cons_self
    rw [putAll_cons, ih, put_isSome hv]
    intro w hw
    rw [put_isSome hv]
    exact h w (List.mem_cons_of_mem v hw)

end Ark.Lib.KeyedMap
