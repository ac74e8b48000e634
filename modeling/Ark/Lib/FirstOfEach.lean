import Mathlib.Data.List.Perm.Subperm
import Mathlib.Tactic.TypeStar

/- First come, first served. Some entries of a list have a key, and what is chosen of the
   list is the first entry of each key, in the order of the list (`FirstOfEach`). What is
   chosen for a key depends on the entries with that key only. A loop that goes through
   the list keeps this entry by entry (`skip`, `again`, `new`). -/
namespace Ark.Lib

variable {α κ : Type*} [DecidableEq κ]

/-- The entries with a key. -/
def withKey (key : α → Option κ) (k : κ) (l : List α) : List α := l.filter fun a => key a = some k

structure FirstOfEach (key : α → Option κ) (l chosen : List α) : Prop where
  sublist : chosen.Sublist l
  keyed : ∀ a ∈ chosen, (key a).isSome
  first : ∀ k, withKey key k chosen = (withKey key k l).take 1

variable {key : α → Option κ} {l chosen : List α} {a : α} {k : κ}

theorem mem_withKey : a ∈ withKey key k l ↔ a ∈ l ∧ key a = some k := by
  unfold withKey
  rw [List.mem_filter, decide_eq_true_eq]

theorem withKey_snoc (h : key a = some k) : withKey key k (l ++ [a]) = withKey key k l ++ [a] := by
  unfold withKey
  rw [List.filter_append, List.filter_cons_of_pos (by simpa using h), List.filter_nil]

theorem withKey_snoc_ne (h : key a ≠ some k) : withKey key k (l ++ [a]) = withKey key k l := by
  unfold withKey
  rw [List.filter_append, List.filter_cons_of_neg (by simpa using h), List.filter_nil,
    List.append_nil]

namespace FirstOfEach

theorem nil : FirstOfEach key [] [] := ⟨.refl [], List.forall_mem_nil _, fun _ => rfl⟩

/-- An entry without a key. -/
theorem skip (h : FirstOfEach key l chosen) (ha : key a = none) :
    FirstOfEach key (l ++ [a]) chosen := by
  refine ⟨h.sublist.trans (List.sublist_append_left l [a]), h.keyed, fun k => ?_⟩
  rw [withKey_snoc_ne (by rw [ha]; exact Option.some_ne_none k |>.symm), h.first]

/-- An entry whose key is taken. -/
theorem again (h : FirstOfEach key l chosen) {b : α} (hb : b ∈ chosen) (ha : key a = key b) :
    FirstOfEach key (l ++ [a]) chosen := by
  refine ⟨h.sublist.trans (List.sublist_append_left l [a]), h.keyed, fun k => ?_⟩
  rw [h.first]
  by_cases hk : key a = some k
  · have hmem : b ∈ withKey key k l := mem_withKey.mpr ⟨h.sublist.subset hb, ha ▸ hk⟩
    rw [withKey_snoc hk, List.take_append_of_le_length (List.length_pos_of_mem hmem)]
  · rw [withKey_snoc_ne hk]

/-- The first entry of a key. -/
theorem new (h : FirstOfEach key l chosen) (ha : key a = some k)
    (hnew : ∀ b ∈ chosen, key b ≠ some k) : FirstOfEach key (l ++ [a]) (chosen ++ [a]) := by
  refine ⟨h.sublist.append_right [a], ?_, fun k' => ?_⟩
  · intro b hb
    cases List.mem_append.mp hb with
    | inl hb => exact h.keyed b hb
    | inr hb =>
      rw [List.mem_singleton.mp hb, ha]
      rfl
  · by_cases hk : key a = some k'
    · -- there is none with this key so far
      have hnone : withKey key k' chosen = [] := by
        apply List.eq_nil_iff_forall_not_mem.mpr
        intro b hb
        obtain ⟨hmem, hkey⟩ := mem_withKey.mp hb
        exact hnew b hmem (hkey.trans (hk.symm.trans ha))
      have hfirst := h.first k'
      rw [hnone] at hfirst
      have hnil : withKey key k' l = [] := by
        cases hl : withKey key k' l with
        | nil => rfl
        | cons b bs =>
          rw [hl] at hfirst
          cases hfirst
      rw [withKey_snoc hk, withKey_snoc hk, hnone, hnil]
      rfl
    · rw [withKey_snoc_ne hk, withKey_snoc_ne hk, h.first]

/-- A key is chosen once. -/
theorem distinct (h : FirstOfEach key l chosen) : chosen.Pairwise fun a b => key a ≠ key b := by
  rw [List.pairwise_iff_forall_sublist]
  intro a b hab heq
  obtain ⟨k, hk⟩ := Option.isSome_iff_exists.mp (h.keyed a (hab.subset List.mem_cons_self))
  have htwo : withKey key k [a, b] = [a, b] := by
    unfold withKey
    rw [List.filter_eq_self]
    intro c hc
    rcases List.mem_cons.mp hc with rfl | hc
    · exact decide_eq_true hk
    · rw [List.mem_singleton.mp hc]
      exact decide_eq_true (heq ▸ hk)
  have hsub : [a, b].Sublist ((withKey key k l).take 1) := by
    rw [← h.first, ← htwo]
    exact hab.filter _
  have hle : 2 ≤ 1 := Nat.le_trans hsub.length_le (List.length_take_le 1 _)
  exact absurd hle (by decide)

/-- Everything is chosen where everything has a key of its own. -/
theorem eq_self (h : FirstOfEach key l chosen) (hkeyed : ∀ a ∈ l, (key a).isSome)
    (hdistinct : l.Pairwise fun a b => key a ≠ key b) : chosen = l := by
  have hnodup : l.Nodup := hdistinct.imp fun hne heq => hne (congrArg key heq)
  refine h.sublist.eq_of_length_le (hnodup.subperm fun a ha => ?_).length_le
  obtain ⟨k, hk⟩ := Option.isSome_iff_exists.mp (hkeyed a ha)
  -- the first with its key is itself
  have hmem : a ∈ withKey key k l := mem_withKey.mpr ⟨ha, hk⟩
  cases hl : withKey key k l with
  | nil =>
    rw [hl] at hmem
    cases hmem
  | cons b bs =>
    have hfirst := h.first k
    rw [hl] at hfirst hmem
    have hpair : (b :: bs).Pairwise fun a b => key a ≠ key b := hl ▸ hdistinct.filter _
    have hb : key b = some k := (mem_withKey.mp (hl ▸ List.mem_cons_self)).2
    have hsame : a = b := by
      cases List.mem_cons.mp hmem with
      | inl heq => exact heq
      | inr hin => exact absurd (hb.trans hk.symm) ((List.pairwise_cons.mp hpair).1 a hin)
    have hchosen : a ∈ withKey key k chosen := by
      rw [hfirst, hsame]
      exact List.mem_cons_self
    exact (mem_withKey.mp hchosen).1

/-- What is chosen for a key depends on the entries with that key only. -/
theorem congr {l' chosen' : List α} (h : FirstOfEach key l chosen)
    (h' : FirstOfEach key l' chosen') (hsame : withKey key k l = withKey key k l') :
    withKey key k chosen = withKey key k chosen' := by
  rw [h.first, h'.first, hsame]

end FirstOfEach
end Ark.Lib
