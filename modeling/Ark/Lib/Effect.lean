import Mathlib.Logic.Relation
import Mathlib.Tactic.TypeStar
import Ark.Lib.Steps

/- Computations that change a state and may stop with an error, keeping what
   they wrote before they stopped (`EStateM`). A result of such a computation is
   read backwards, bind by bind (`bind_ok`, `throw_ok`); a loop that ends well is
   a labelled run of its body (`forM_ok`, `foldlM_ok`). Two computations are
   compared from one state, bind by bind (`bind_congr_at`), or by what they end with
   and the part of the state that counts (`observe`). `Keeps f x` says that
   `x`, where it ends well, leaves the part `f` of the state alone, and
   `Moves f R x` that it takes that part through steps of `R`, however it ends;
   both are put together bind by bind. -/
namespace Ark.Lib.Effect

variable {ε σ τ α β ι : Type}

@[simp] theorem bind_ok {x : EStateM ε σ α} {f : α → EStateM ε σ β} {s t : σ} {b : β} :
    (x >>= f) s = .ok b t ↔ ∃ a u, x s = .ok a u ∧ f a u = .ok b t := by
  show EStateM.bind x f s = _ ↔ _
  unfold EStateM.bind
  cases x s with
  | ok a u => simp
  | error e u => simp

@[simp] theorem pure_ok {a b : α} {s t : σ} :
    (pure a : EStateM ε σ α) s = .ok b t ↔ a = b ∧ s = t := by
  show EStateM.pure a s = _ ↔ _
  simp [EStateM.pure]

@[simp] theorem throw_ok {e : ε} {a : α} {s t : σ} :
    (throw e : EStateM ε σ α) s = .ok a t ↔ False := by
  show EStateM.Result.error e s = _ ↔ _
  simp

theorem bind_eq_of_ok {x : EStateM ε σ α} {f : α → EStateM ε σ β} {s u : σ} {a : α}
    (h : x s = .ok a u) : (x >>= f) s = f a u := by
  show EStateM.bind x f s = _
  unfold EStateM.bind
  rw [h]

theorem bind_eq_of_error {x : EStateM ε σ α} {f : α → EStateM ε σ β} {s u : σ} {e : ε}
    (h : x s = .error e u) : (x >>= f) s = .error e u := by
  show EStateM.bind x f s = _
  unfold EStateM.bind
  rw [h]

/-- Stop with `e` when `c` holds. -/
def throwIf (c : Prop) [Decidable c] (e : ε) : EStateM ε σ Unit := if c then throw e else pure ()

@[simp] theorem throwIf_ok {c : Prop} [Decidable c] {e : ε} {u : Unit} {s t : σ} :
    (throwIf c e : EStateM ε σ Unit) s = .ok u t ↔ ¬ c ∧ s = t := by
  unfold throwIf
  by_cases h : c
  · simp [h]
  · simp [h]

theorem throwIf_pos {c : Prop} [Decidable c] {e : ε} {f : Unit → EStateM ε σ α} (h : c) (s : σ) :
    (throwIf c e >>= f) s = .error e s := by
  unfold throwIf
  rw [if_pos h]
  rfl

theorem throwIf_neg {c : Prop} [Decidable c] {e : ε} {f : Unit → EStateM ε σ α} (h : ¬ c) (s : σ) :
    (throwIf c e >>= f) s = f () s := by
  unfold throwIf
  rw [if_neg h]
  rfl

/-- Two computations that begin alike from a state and go on alike from where they get end
alike. -/
theorem bind_congr_at {x y : EStateM ε σ α} {f g : α → EStateM ε σ β} {s : σ} (hx : x s = y s)
    (hf : ∀ a u, x s = .ok a u → f a u = g a u) : (x >>= f) s = (y >>= g) s := by
  show EStateM.bind x f s = EStateM.bind y g s
  unfold EStateM.bind
  rw [← hx]
  cases h : x s with
  | ok a u => exact hf a u h
  | error e u => rfl

/-- What a computation ends with, as far as `f` sees its last state. -/
def observe (f : σ → τ) : EStateM.Result ε σ α → Except ε α × τ
  | .ok a s => (.ok a, f s)
  | .error e s => (.error e, f s)

/-- A loop that ends well is a run of its body over the items. -/
theorem forM_ok {f : ι → EStateM ε σ PUnit} {xs : List ι} {s t : σ} :
    xs.forM f s = .ok ⟨⟩ t ↔ Steps (fun s i t => f i s = .ok ⟨⟩ t) s xs t := by
  induction xs generalizing s with
  | nil =>
    show (pure ⟨⟩ : EStateM ε σ PUnit) s = _ ↔ _
    simp [Steps.nil_iff, eq_comm]
  | cons x xs ih =>
    show (f x >>= fun _ => xs.forM f) s = _ ↔ _
    rw [bind_ok, Steps.cons_iff]
    constructor
    · intro ⟨_, u, hx, hxs⟩; exact ⟨u, hx, ih.mp hxs⟩
    · intro ⟨u, hx, hxs⟩; exact ⟨⟨⟩, u, hx, ih.mpr hxs⟩

/-- A loop with an accumulator, read the same way: the accumulator is part of the state. -/
theorem foldlM_ok {f : β → ι → EStateM ε σ β} {xs : List ι} {a b : β} {s t : σ} :
    xs.foldlM f a s = .ok b t ↔
      Steps (fun (p : β × σ) i q => f p.1 i p.2 = .ok q.1 q.2) (a, s) xs (b, t) := by
  induction xs generalizing a s with
  | nil => simp [List.foldlM_nil, Steps.nil_iff, eq_comm]
  | cons x xs ih =>
    rw [List.foldlM_cons, bind_ok, Steps.cons_iff]
    constructor
    · intro ⟨c, u, hx, hxs⟩; exact ⟨(c, u), hx, ih.mp hxs⟩
    · intro ⟨⟨c, u⟩, hx, hxs⟩; exact ⟨c, u, hx, ih.mpr hxs⟩

/-- A loop ends well when its body ends well from every state. -/
theorem forM_total {f : ι → EStateM ε σ PUnit} (hf : ∀ i s, ∃ t, f i s = .ok ⟨⟩ t) (xs : List ι)
    (s : σ) : ∃ t, xs.forM f s = .ok ⟨⟩ t := by
  induction xs generalizing s with
  | nil => exact ⟨s, rfl⟩
  | cons x xs ih =>
    obtain ⟨u, hu⟩ := hf x s
    obtain ⟨t, ht⟩ := ih u
    exact ⟨t, bind_ok.mpr ⟨⟨⟩, u, hu, ht⟩⟩

/-! ## Frames -/

/-- Where `x` ends well, it leaves the part `f` of the state alone. -/
def Keeps (f : σ → τ) (x : EStateM ε σ α) : Prop := ∀ s a t, x s = .ok a t → f t = f s

namespace Keeps
variable {f : σ → τ}

theorem pure' (a : α) : Keeps f (pure a : EStateM ε σ α) := by
  intro s b t h
  rw [(pure_ok.mp h).2]

theorem throw' (e : ε) : Keeps f (throw e : EStateM ε σ α) := by
  intro s a t h
  exact absurd h (by simp)

theorem bind' {x : EStateM ε σ α} {g : α → EStateM ε σ β} (hx : Keeps f x)
    (hg : ∀ a, Keeps f (g a)) : Keeps f (x >>= g) := by
  intro s b t h
  obtain ⟨a, u, hxs, hgs⟩ := bind_ok.mp h
  rw [hg a u b t hgs, hx s a u hxs]

theorem forM' {g : ι → EStateM ε σ PUnit} (hg : ∀ i, Keeps f (g i)) (xs : List ι) :
    Keeps f (xs.forM g) := by
  induction xs with
  | nil => exact pure' PUnit.unit
  | cons x xs ih => exact bind' (hg x) fun _ => ih

theorem modify' {g : σ → σ} (hg : ∀ s, f (g s) = f s) :
    Keeps f (modify g : EStateM ε σ PUnit) := by
  intro s a t h
  cases h
  exact hg s

theorem foldlM' {g : β → ι → EStateM ε σ β} (hg : ∀ b i, Keeps f (g b i)) (xs : List ι) (b : β) :
    Keeps f (xs.foldlM g b) := by
  induction xs generalizing b with
  | nil => exact pure' b
  | cons x xs ih => exact bind' (hg b x) ih

end Keeps

/-! ## However it ends -/

/-- Whether `x` ends well or not, it takes the part `f` of the state through steps of `R`. -/
def Moves (f : σ → τ) (R : τ → τ → Prop) (x : EStateM ε σ α) : Prop :=
  ∀ s, Relation.ReflTransGen R (f s) (observe f (x s)).2

namespace Moves
variable {f : σ → τ} {R : τ → τ → Prop}

theorem pure' (a : α) : Moves f R (pure a : EStateM ε σ α) := fun _ => .refl

theorem throw' (e : ε) : Moves f R (throw e : EStateM ε σ α) := fun _ => .refl

theorem throwIf' (c : Prop) [Decidable c] (e : ε) :
    Moves f R (throwIf c e : EStateM ε σ Unit) := by
  unfold throwIf
  split
  · exact throw' e
  · exact pure' ()

theorem bind' {x : EStateM ε σ α} {g : α → EStateM ε σ β} (hx : Moves f R x)
    (hg : ∀ a s t, x s = .ok a t → Moves f R (g a)) : Moves f R (x >>= g) := by
  intro s
  have hs := hx s
  show Relation.ReflTransGen R (f s) (observe f (EStateM.bind x g s)).2
  unfold EStateM.bind
  cases hrun : x s with
  | ok a t =>
    rw [hrun] at hs
    exact hs.trans (hg a s t hrun t)
  | error e t =>
    rw [hrun] at hs
    exact hs

theorem foldlM' {g : β → ι → EStateM ε σ β} (hg : ∀ b i, Moves f R (g b i)) (xs : List ι)
    (b : β) : Moves f R (xs.foldlM g b) := by
  induction xs generalizing b with
  | nil => exact pure' b
  | cons x xs ih => exact bind' (hg b x) fun b' _ _ _ => ih b'

end Moves

end Ark.Lib.Effect
