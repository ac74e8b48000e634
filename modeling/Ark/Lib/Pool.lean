import Mathlib.Data.List.Nodup
import Mathlib.Logic.Function.Basic
import Mathlib.Tactic.TypeStar

/- Cells that tasks take out of pools and put back, as a `sync.Pool` hands out objects:
   a task gets a cell of the pool that nobody holds, or a new one, and the pool may lose a
   cell at any time. `Exclusive` is what keeps tasks apart: no cell is at two places, and
   what is in the cells of a pool has the pool's property. An operation that moves one cell
   and leaves the others where they are keeps it (`Exclusive.move`), and so does writing
   into a cell that is held, which is nobody else's (`Exclusive.write`, `cell_write_ne`). -/
namespace Ark.Lib

structure Pool (K T M : Type*) where
  cell : Nat → M
  /-- No cell from here on was handed out yet. -/
  next : Nat
  free : K → List Nat
  /-- The cell a task holds, and the pool it belongs to. -/
  held : T → Option (K × Nat)

namespace Pool
variable {K T M : Type*}

def empty (m : M) : Pool K T M := ⟨fun _ => m, 0, fun _ => [], fun _ => none⟩

/-- Cell `i` gets the content `m`. -/
def write (p : Pool K T M) (i : Nat) (m : M) : Pool K T M :=
  { p with cell := Function.update p.cell i m }

section
variable [DecidableEq K]

/-- Pool `k` loses cell `i`. -/
def evict (p : Pool K T M) (k : K) (i : Nat) : Pool K T M :=
  { p with free := Function.update p.free k ((p.free k).erase i) }

variable [DecidableEq T]

/-- Task `t` takes cell `i` out of pool `k`. -/
def take (p : Pool K T M) (k : K) (t : T) (i : Nat) : Pool K T M :=
  { p.evict k i with held := Function.update p.held t (some (k, i)) }

/-- Task `t` puts its cell back. -/
def give (p : Pool K T M) (t : T) : Pool K T M :=
  match p.held t with
  | none => p
  | some (k, i) =>
    { p with
      free := Function.update p.free k (i :: p.free k)
      held := Function.update p.held t none }

end

/-- Task `t` is given a new cell with `m` in it. -/
def fresh [DecidableEq T] (p : Pool K T M) (k : K) (t : T) (m : M) : Pool K T M :=
  { p with
    cell := Function.update p.cell p.next m
    next := p.next + 1
    held := Function.update p.held t (some (k, p.next)) }

/-! ## Places -/

inductive Place (K T : Type*) where
  | free (k : K)
  | held (t : T)

/-- A cell of pool `k` is at a place. -/
def At (p : Pool K T M) : Place K T → K → Nat → Prop
  | .free k', k, i => k' = k ∧ i ∈ p.free k
  | .held t, k, i => p.held t = some (k, i)

theorem at_free {p : Pool K T M} {k : K} {i : Nat} (h : i ∈ p.free k) : p.At (.free k) k i :=
  ⟨rfl, h⟩

/-- No cell is at two places, and what is in a cell of pool `k` has the property `P k`. -/
structure Exclusive (P : K → M → Prop) (p : Pool K T M) : Prop where
  nodup : ∀ k, (p.free k).Nodup
  unique : ∀ {x y k k' i}, p.At x k i → p.At y k' i → x = y
  lt_next : ∀ {x k i}, p.At x k i → i < p.next
  content : ∀ {x k i}, p.At x k i → P k (p.cell i)

variable {P : K → M → Prop} {p q : Pool K T M} {k k' : K} {t t' : T} {i j : Nat} {m : M}
  {x y : Place K T}

theorem empty_exclusive (m : M) : Exclusive P (empty m : Pool K T M) := by
  have hnone : ∀ (x : Place K T) (k : K) (i : Nat), ¬ (empty m : Pool K T M).At x k i := by
    intro x k i h
    cases x with
    | free k' => exact absurd h.2 List.not_mem_nil
    | held t => cases h
  exact ⟨fun _ => List.nodup_nil, fun h => absurd h (hnone _ _ _), fun h => absurd h (hnone _ _ _),
    fun h => absurd h (hnone _ _ _)⟩

/-- One cell is moved or put down, and the others stay where they are, or are lost. -/
theorem Exclusive.move (hp : p.Exclusive P) (hnodup : ∀ k, (q.free k).Nodup) {d : Place K T}
    (hat : ∀ {x k' j}, q.At x k' j → (p.At x k' j ∧ j ≠ i) ∨ (x = d ∧ k' = k ∧ j = i))
    (hnext : p.next ≤ q.next) (hi : i < q.next) (hcell : ∀ j, j ≠ i → q.cell j = p.cell j)
    (hcontent : P k (q.cell i)) : q.Exclusive P where
  nodup := hnodup
  unique {x y k' k'' j} hx hy := by
    rcases hat hx with ⟨hx, hne⟩ | ⟨hx, _, hj⟩
    · rcases hat hy with ⟨hy, _⟩ | ⟨_, _, hj⟩
      · exact hp.unique hx hy
      · exact absurd hj hne
    · rcases hat hy with ⟨_, hne⟩ | ⟨hy, _, _⟩
      · exact absurd hj hne
      · rw [hx, hy]
  lt_next {x k' j} hx := by
    rcases hat hx with ⟨hx, _⟩ | ⟨_, _, hj⟩
    · exact Nat.lt_of_lt_of_le (hp.lt_next hx) hnext
    · exact hj ▸ hi
  content {x k' j} hx := by
    rcases hat hx with ⟨hx, hne⟩ | ⟨_, hk, hj⟩
    · rw [hcell j hne]
      exact hp.content hx
    · rw [hk, hj]
      exact hcontent

@[simp] theorem cell_write : (p.write i m).cell i = m := Function.update_self ..

theorem cell_write_ne (h : j ≠ i) : (p.write i m).cell j = p.cell j := Function.update_of_ne h ..

/-- What is in a cell that is at a place is replaced. -/
theorem Exclusive.write (hp : p.Exclusive P) (hat : p.At x k i) (hm : P k m) :
    (p.write i m).Exclusive P where
  nodup := hp.nodup
  unique := hp.unique
  lt_next := hp.lt_next
  content {y k' j} hy := by
    by_cases hj : j = i
    · have hxy : x = y := hp.unique hat (hj ▸ hy)
      have hk : k = k' := by
        cases x with
        | free k₀ =>
          rw [← hxy] at hy
          exact hat.1.symm.trans hy.1
        | held t =>
          rw [← hxy, hj] at hy
          exact congrArg Prod.fst (Option.some.inj (hat.symm.trans hy))
      rw [hj, cell_write, ← hk]
      exact hm
    · rw [cell_write_ne hj]
      exact hp.content hy

section
variable [DecidableEq T]

@[simp] theorem held_fresh : (p.fresh k t m).held t = some (k, p.next) := Function.update_self ..

theorem held_fresh_ne (h : t' ≠ t) : (p.fresh k t m).held t' = p.held t' :=
  Function.update_of_ne h ..

@[simp] theorem cell_fresh : (p.fresh k t m).cell p.next = m := Function.update_self ..

theorem cell_fresh_ne (h : j ≠ p.next) : (p.fresh k t m).cell j = p.cell j :=
  Function.update_of_ne h ..

theorem Exclusive.fresh (hp : p.Exclusive P) (hm : P k m) : (p.fresh k t m).Exclusive P := by
  refine hp.move (i := p.next) (k := k) (d := .held t) hp.nodup ?_ (Nat.le_succ _)
    (Nat.lt_succ_self _) (fun j => cell_fresh_ne) (by simpa using hm)
  intro x k' j hx
  cases x with
  | free k₀ => exact .inl ⟨hx, Nat.ne_of_lt (hp.lt_next (x := .free k₀) hx)⟩
  | held t' =>
    by_cases ht : t' = t
    · rw [ht] at hx ⊢
      cases held_fresh.symm.trans hx
      exact .inr ⟨rfl, rfl, rfl⟩
    · have hold : p.At (.held t') k' j := (held_fresh_ne ht).symm.trans hx
      exact .inl ⟨hold, Nat.ne_of_lt (hp.lt_next hold)⟩

end

section
variable [DecidableEq K]

theorem free_evict : (p.evict k i).free k = (p.free k).erase i := Function.update_self ..

theorem free_evict_ne (h : k' ≠ k) : (p.evict k i).free k' = p.free k' :=
  Function.update_of_ne h ..

theorem mem_evict (hp : p.Exclusive P) (h : j ∈ (p.evict k i).free k') :
    j ∈ p.free k' ∧ (k' = k → j ≠ i) := by
  by_cases hk : k' = k
  · rw [hk, free_evict, (hp.nodup k).mem_erase_iff] at h
    exact ⟨hk ▸ h.2, fun _ => h.1⟩
  · rw [free_evict_ne hk] at h
    exact ⟨h, fun h => absurd h hk⟩

theorem nodup_evict (hp : p.Exclusive P) (k' : K) : ((p.evict k i).free k').Nodup := by
  by_cases hk : k' = k
  · rw [hk, free_evict]
    exact (hp.nodup k).erase i
  · rw [free_evict_ne hk]
    exact hp.nodup k'

theorem Exclusive.evict (hp : p.Exclusive P) : (p.evict k i).Exclusive P := by
  have hat : ∀ {x k' j}, (p.evict k i).At x k' j → p.At x k' j := by
    intro x k' j hx
    cases x with
    | free k₀ => exact ⟨hx.1, (mem_evict hp hx.2).1⟩
    | held t => exact hx
  exact ⟨nodup_evict hp, fun hx hy => hp.unique (hat hx) (hat hy), fun hx => hp.lt_next (hat hx),
    fun hx => hp.content (hat hx)⟩

variable [DecidableEq T]

@[simp] theorem held_take : (p.take k t i).held t = some (k, i) := Function.update_self ..

theorem held_take_ne (h : t' ≠ t) : (p.take k t i).held t' = p.held t' :=
  Function.update_of_ne h ..

theorem Exclusive.take (hp : p.Exclusive P) (hi : i ∈ p.free k) : (p.take k t i).Exclusive P := by
  have hfrom := at_free hi
  refine hp.move (i := i) (k := k) (d := .held t) (nodup_evict hp) ?_ (Nat.le_refl _)
    (hp.lt_next hfrom) (fun _ _ => rfl) (hp.content hfrom)
  intro x k' j hx
  cases x with
  | free k₀ =>
    obtain ⟨hmem, hne⟩ := mem_evict hp hx.2
    refine .inl ⟨⟨hx.1, hmem⟩, fun hj => ?_⟩
    cases hp.unique hfrom (at_free (hj ▸ hmem))
    exact hne rfl hj
  | held t' =>
    by_cases ht : t' = t
    · rw [ht] at hx ⊢
      cases held_take.symm.trans hx
      exact .inr ⟨rfl, rfl, rfl⟩
    · have hold : p.At (.held t') k' j := (held_take_ne ht).symm.trans hx
      refine .inl ⟨hold, fun hj => ?_⟩
      cases hp.unique hfrom (hj ▸ hold)

theorem give_of_held (h : p.held t = some (k, i)) :
    p.give t = { p with free := Function.update p.free k (i :: p.free k)
                        held := Function.update p.held t none } := by
  unfold give
  rw [h]

theorem Exclusive.give (hp : p.Exclusive P) (h : p.held t = some (k, i)) :
    (p.give t).Exclusive P := by
  have hfrom : p.At (.held t) k i := h
  have hfree : i ∉ p.free k := by
    intro hi
    cases hp.unique hfrom (at_free hi)
  rw [give_of_held h]
  refine hp.move (i := i) (k := k) (d := .free k) ?_ ?_ (Nat.le_refl _) (hp.lt_next hfrom)
    (fun _ _ => rfl) (hp.content hfrom)
  · intro k'
    show (Function.update p.free k (i :: p.free k) k').Nodup
    by_cases hk : k' = k
    · rw [hk, Function.update_self]
      exact List.nodup_cons.mpr ⟨hfree, hp.nodup k⟩
    · rw [Function.update_of_ne hk]
      exact hp.nodup k'
  · intro x k' j hx
    cases x with
    | free k₀ =>
      obtain ⟨hk₀, hmem⟩ := hx
      have hmem : j ∈ Function.update p.free k (i :: p.free k) k' := hmem
      by_cases hj : j = i
      · by_cases hk : k' = k
        · exact .inr ⟨by rw [hk₀, hk], hk, hj⟩
        · rw [Function.update_of_ne hk, hj] at hmem
          cases hp.unique hfrom (at_free hmem)
      · refine .inl ⟨⟨hk₀, ?_⟩, hj⟩
        by_cases hk : k' = k
        · rw [hk, Function.update_self] at hmem
          rw [hk]
          exact (List.mem_cons.mp hmem).resolve_left hj
        · rwa [Function.update_of_ne hk] at hmem
    | held t' =>
      have hx : Function.update p.held t none t' = some (k', j) := hx
      by_cases ht : t' = t
      · rw [ht, Function.update_self] at hx
        cases hx
      · rw [Function.update_of_ne ht] at hx
        refine .inl ⟨hx, fun hj => ?_⟩
        cases hp.unique hfrom (hj ▸ hx : p.At (.held t') k' i)
        exact ht rfl

end
end Pool
end Ark.Lib
