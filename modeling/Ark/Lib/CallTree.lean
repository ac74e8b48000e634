import Mathlib.Data.List.Basic
import Mathlib.Logic.Relation
import Mathlib.Tactic.TypeStar

/- Contract code that hands control to code it does not know.

   `Code` is what one frame of a contract does: it changes a world, reverts, and
   may call out; what it does after a call depends on the reply and on the world
   it finds then. `Script` is what other code does while it has control, as a
   tree: it acts on its own account, calls the contract (each call holds what
   the code called by that frame does in turn, and its reply), and makes
   attempts that are undone. A frame that reverts, and a callee that fails,
   leave the world as they found it.

   `run` records, beside the world, every point at which other code has control,
   every stretch of code a frame runs itself between two such points, and where
   guarded bodies start and end.

   What is proved: when every frame and every outside act has a relation `G`
   between the world it starts in and the one it ends in, and `H` between the
   first and the worlds it hands over, a script has `G` from start to end and `H`
   from its start to every point of it (`Guarantee.run`); a frame may rely on `G`
   for the code it calls; what every frame's own stretches satisfy under that reliance,
   all stretches of a run satisfy (`Guarantee.own`); bodies that cannot start in
   a locked world, and that call out from locked worlds only, never overlap
   (`run_separate`); and nothing takes the world of a run further but the stretches
   that are recorded, outside acts and the calls themselves (`run_moves`). -/
namespace Ark.Lib.CallTree

/-- What a frame does from here: end well, revert, start a guarded body, or call out. -/
inductive Step (W C R E α : Type) where
  | ret (a : α) (w : W)
  | revert (e : E)
  | body (next : Step W C R E α)
  | call (c : C) (w : W) (next : R → W → Step W C R E α)

/-- The code of a frame, run in a world. -/
abbrev Code (W C R E α : Type) := W → Step W C R E α

variable {W C R E M O α β : Type}

def Step.bind (f : α → W → Step W C R E β) : Step W C R E α → Step W C R E β
  | .ret a w => f a w
  | .revert e => .revert e
  | .body next => .body (next.bind f)
  | .call c w next => .call c w fun r w' => (next r w').bind f

instance : Monad (Code W C R E) where
  pure a := fun w => .ret a w
  bind x f := fun w => (x w).bind f

namespace Code

def revert (e : E) : Code W C R E α := fun _ => .revert e

def get : Code W C R E W := fun w => .ret w w

def modify (f : W → W) : Code W C R E Unit := fun w => .ret () (f w)

def callOut (c : C) : Code W C R E R := fun w => .call c w fun r w' => .ret r w'

theorem bind_run (x : Code W C R E α) (f : α → Code W C R E β) (w : W) :
    (x >>= f) w = (x w).bind f := rfl

end Code

/-- A contract: its code, how a call moves the world, and what outside acts do. -/
structure Contract (W C R E M O : Type) where
  code : M → Code W C R E Unit
  /-- The reply to a call that no other code answers. -/
  refused : C → Option R
  /-- The world in which the callee gets control. -/
  enter : C → W → W
  failed : R → Bool
  apply : O → W → W

/-- What other code does while it has control. -/
inductive Script (R M O : Type) where
  | done
  | outside (o : O) (next : Script R M O)
  | call (m : M) (inner : Script R M O) (reply : R) (next : Script R M O)
  | attempt (inner next : Script R M O)

/-- What is seen of a run. -/
inductive Obs (W M : Type) where
  | control (w : W)
  /-- What the frame of `m`, started in `entry`, did itself from `w` to `w'`. -/
  | own (m : M) (entry w w' : W)
  | enter
  | leave

def Obs.isEnter : Obs W M → Bool
  | .enter => true
  | _ => false

def Obs.isLeave : Obs W M → Bool
  | .leave => true
  | _ => false

namespace Contract
variable (K : Contract W C R E M O)

/-- The rest of a frame that was started in `entry` and last got control in `since`. -/
def exec (m : M) (entry : W) (inner : W → W × List (Obs W M)) (reply : R) :
    W → Step W C R E Unit → Except E W × List (Obs W M)
  | since, .ret _ w => (.ok w, [.own m entry since w])
  | _, .revert e => (.error e, [])
  | since, .body next =>
    let r := exec m entry inner reply since next
    (r.1, .enter :: r.2 ++ [.leave])
  | since, .call c w next =>
    match K.refused c with
    | some r => exec m entry inner reply since (next r w)
    | none =>
      let r := inner (K.enter c w)
      -- a callee that fails leaves no trace in the world
      let w' := if K.failed reply then w else r.1
      let q := exec m entry inner reply w' (next reply w')
      (q.1, .own m entry since w :: r.2 ++ q.2)

/-- The world after a frame: a frame that reverts is undone. -/
def settle (w : W) : Except E W → W
  | .ok w' => w'
  | .error _ => w

def run : Script R M O → W → W × List (Obs W M)
  | .done, w => (w, [.control w])
  | .outside o next, w =>
    let q := run next (K.apply o w)
    (q.1, .control w :: q.2)
  | .call m inner reply next, w =>
    let r := K.exec m w (run inner) reply w (K.code m w)
    let q := run next (settle w r.1)
    (q.1, .control w :: r.2 ++ q.2)
  | .attempt inner next, w =>
    let r := run inner w
    let q := run next w
    (q.1, .control w :: r.2 ++ q.2)

/-- One frame, from the message that starts it. -/
def frame (m : M) (inner : Script R M O) (reply : R) (w : W) : Except E W × List (Obs W M) :=
  K.exec m w (K.run inner) reply w (K.code m w)

end Contract

/-- Every message of a script satisfies `P`. -/
def Script.Calls (P : M → Prop) : Script R M O → Prop
  | .done => True
  | .outside _ next => next.Calls P
  | .call m inner _ next => P m ∧ inner.Calls P ∧ next.Calls P
  | .attempt inner next => inner.Calls P ∧ next.Calls P

theorem Script.calls_true (x : Script R M O) : x.Calls fun _ => True := by
  induction x with
  | done => trivial
  | outside o next ih => exact ih
  | call m inner reply next ihi ihn => exact ⟨trivial, ihi, ihn⟩
  | attempt inner next ihi ihn => exact ⟨ihi, ihn⟩

/-! ## Guarantees -/

section Rules
variable (K : Contract W C R E M O) (P : M → Prop) (G H : W → W → Prop)

/-- A frame that got control in `w₀` has `G` when it ends and `H` when it calls out, if the code
it calls has `G`. -/
def Step.Guar (w₀ : W) : Step W C R E Unit → Prop
  | .ret _ w => G w₀ w
  | .revert _ => True
  | .body next => next.Guar w₀
  | .call c w next =>
    match K.refused c with
    | some r => (next r w).Guar w₀
    | none => H w₀ (K.enter c w) ∧ ∀ r w',
        (if K.failed r then w' = w else G (K.enter c w) w') → (next r w').Guar w₀

/-- Each stretch that a frame runs itself satisfies `Q`, when the code it calls has `G`. -/
def Step.Owns (Q : W → W → Prop) : W → Step W C R E Unit → Prop
  | since, .ret _ w => Q since w
  | _, .revert _ => True
  | since, .body next => next.Owns Q since
  | since, .call c w next =>
    match K.refused c with
    | some r => (next r w).Owns Q since
    | none => Q since w ∧ ∀ r w',
        (if K.failed r then w' = w else G (K.enter c w) w') → (next r w').Owns Q w'

/-- Bodies start outside bodies only, and call out from locked worlds. -/
def Step.Guarded (Locked : W → Prop) : Bool → Step W C R E Unit → Prop
  | _, .ret _ _ => True
  | _, .revert _ => True
  | b, .body next => b = false ∧ next.Guarded Locked true
  | b, .call c w next =>
    match K.refused c with
    | some r => (next r w).Guarded Locked b
    | none => (b = true → Locked (K.enter c w)) ∧ ∀ r w', (next r w').Guarded Locked b

/-- Relations that outside acts and the frames of messages in `P` have, and that compose. -/
structure Guarantee : Prop where
  refl : ∀ w, G w w
  trans : ∀ {u v w}, G u v → G v w → G u w
  point : ∀ {u v}, G u v → H u v
  points : ∀ {u v w}, H u v → H v w → H u w
  outside : ∀ o w, G w (K.apply o w)
  frame : ∀ m w, P m → (K.code m w).Guar K G H w

variable {K P G H} {inner : W → W × List (Obs W M)} {m : M} {entry : W} {reply : R}

/-- What a frame relies on when it gets control back. -/
theorem back (reply : R) {c : C} {w v : W} (h : G (K.enter c w) v) :
    if K.failed reply then (if K.failed reply then w else v) = w else
      G (K.enter c w) (if K.failed reply then w else v) := by
  split
  · rfl
  · exact h

namespace Guarantee

theorem exec (h : Guarantee K P G H) (m : M) (entry : W) (reply : R)
    (hinner : ∀ w, G w (inner w).1 ∧ ∀ w', .control w' ∈ (inner w).2 → H w w')
    {w₀ : W} {st : Step W C R E Unit} (hst : st.Guar K G H w₀) (since : W) :
    G w₀ (Contract.settle w₀ (K.exec m entry inner reply since st).1) ∧
      ∀ w', .control w' ∈ (K.exec m entry inner reply since st).2 → H w₀ w' := by
  induction st generalizing since with
  | ret a w => exact ⟨hst, by simp [Contract.exec]⟩
  | revert e => exact ⟨h.refl w₀, by simp [Contract.exec]⟩
  | body next ih =>
    obtain ⟨hend, hpoints⟩ := ih hst since
    refine ⟨hend, fun w' hw' => hpoints w' ?_⟩
    simpa [Contract.exec] using hw'
  | call c w next ih =>
    unfold Step.Guar at hst
    unfold Contract.exec
    cases hc : K.refused c with
    | some r =>
      simp only [hc] at hst ⊢
      exact ih r w hst since
    | none =>
      simp only [hc] at hst ⊢
      obtain ⟨hcall, hnext⟩ := hst
      obtain ⟨hret, hin⟩ := hinner (K.enter c w)
      -- the body goes on in the world the callee left, or in its own if the callee failed
      obtain ⟨hend, hpoints⟩ := ih reply _ (hnext reply _ (back reply hret)) _
      refine ⟨hend, fun w' hw' => ?_⟩
      simp only [List.cons_append, List.mem_cons, List.mem_append, reduceCtorEq, false_or] at hw'
      cases hw' with
      | inl hw' => exact h.points hcall (hin w' hw')
      | inr hw' => exact hpoints w' hw'

/-- A script has `G` from its start to its end, and `H` to every point of it. -/
theorem run (h : Guarantee K P G H) {x : Script R M O} (hx : x.Calls P) (w : W) :
    G w (K.run x w).1 ∧ ∀ w', .control w' ∈ (K.run x w).2 → H w w' := by
  induction x generalizing w with
  | done =>
    refine ⟨h.refl w, fun w' hw' => ?_⟩
    simp only [Contract.run, List.mem_singleton, Obs.control.injEq] at hw'
    rw [hw']
    exact h.point (h.refl w)
  | outside o next ih =>
    obtain ⟨hend, hpoints⟩ := ih hx (K.apply o w)
    refine ⟨h.trans (h.outside o w) hend, fun w' hw' => ?_⟩
    simp only [Contract.run, List.mem_cons, Obs.control.injEq] at hw'
    cases hw' with
    | inl hw' => rw [hw']; exact h.point (h.refl w)
    | inr hw' => exact h.points (h.point (h.outside o w)) (hpoints w' hw')
  | call m inner reply next ihi ihn =>
    obtain ⟨hm, hxi, hxn⟩ := hx
    obtain ⟨hframe, hin⟩ := h.exec m w reply (ihi hxi) (h.frame m w hm) w
    obtain ⟨hend, hpoints⟩ := ihn hxn (Contract.settle w
      (K.exec m w (K.run inner) reply w (K.code m w)).1)
    refine ⟨h.trans hframe hend, fun w' hw' => ?_⟩
    simp only [Contract.run, List.cons_append, List.mem_cons, List.mem_append,
      Obs.control.injEq] at hw'
    rcases hw' with hw' | hw' | hw'
    · rw [hw']
      exact h.point (h.refl w)
    · exact hin w' hw'
    · exact h.points (h.point hframe) (hpoints w' hw')
  | attempt inner next ihi ihn =>
    obtain ⟨hxi, hxn⟩ := hx
    obtain ⟨_, hin⟩ := ihi hxi w
    obtain ⟨hend, hpoints⟩ := ihn hxn w
    refine ⟨hend, fun w' hw' => ?_⟩
    simp only [Contract.run, List.cons_append, List.mem_cons, List.mem_append,
      Obs.control.injEq] at hw'
    rcases hw' with hw' | hw' | hw'
    · rw [hw']
      exact h.point (h.refl w)
    · exact hin w' hw'
    · exact hpoints w' hw'

/-! ## Stretches -/

section Own
variable {I : W → Prop} {Q : M → W → W → W → Prop}

theorem exec_own (hI : ∀ w w', H w w' → I w → I w') (hret : ∀ w, G w (inner w).1)
    (hin : ∀ w, I w → ∀ n w₀ w₁ w₂, .own n w₀ w₁ w₂ ∈ (inner w).2 → Q n w₀ w₁ w₂)
    {w₀ since : W} {st : Step W C R E Unit} (h₀ : I w₀) (hst : st.Guar K G H w₀)
    (hown : st.Owns K G (Q m entry) since) {n : M} {u w₁ w₂ : W}
    (hn : .own n u w₁ w₂ ∈ (K.exec m entry inner reply since st).2) : Q n u w₁ w₂ := by
  induction st generalizing since with
  | ret a w =>
    simp only [Contract.exec, List.mem_singleton, Obs.own.injEq] at hn
    obtain ⟨rfl, rfl, rfl, rfl⟩ := hn
    exact hown
  | revert e => simp [Contract.exec] at hn
  | body next ih =>
    simp only [Contract.exec, List.cons_append, List.mem_cons, List.mem_append, reduceCtorEq,
      List.not_mem_nil, false_or, or_false] at hn
    exact ih hst hown hn
  | call c w next ih =>
    unfold Step.Guar at hst
    unfold Step.Owns at hown
    unfold Contract.exec at hn
    cases hc : K.refused c with
    | some r =>
      simp only [hc] at hst hown hn
      exact ih r w hst hown hn
    | none =>
      simp only [hc, List.cons_append, List.mem_cons, List.mem_append, Obs.own.injEq] at hst hown hn
      have hback := back reply (hret (K.enter c w))
      -- the stretch up to the call, one of the callee's, or one after it
      rcases hn with ⟨rfl, rfl, rfl, rfl⟩ | hn | hn
      · exact hown.1
      · exact hin _ (hI _ _ hst.1 h₀) n u w₁ w₂ hn
      · exact ih reply _ (hst.2 reply _ hback) (hown.2 reply _ hback) hn

/-- What frames that start in an invariant world do between two calls, all stretches of a run
do. -/
theorem own (h : Guarantee K P G H) (hI : ∀ w w', H w w' → I w → I w')
    (hQ : ∀ m w, P m → I w → (K.code m w).Owns K G (Q m w) w)
    {x : Script R M O} (hx : x.Calls P) {w : W} (hw : I w) (n : M) (u w₁ w₂ : W)
    (hn : .own n u w₁ w₂ ∈ (K.run x w).2) : Q n u w₁ w₂ := by
  induction x generalizing w n u w₁ w₂ with
  | done => simp [Contract.run] at hn
  | outside o next ih =>
    simp only [Contract.run, List.mem_cons, reduceCtorEq, false_or] at hn
    exact ih hx (hI _ _ (h.point (h.outside o w)) hw) n u w₁ w₂ hn
  | call m inner reply next ihi ihn =>
    obtain ⟨hm, hxi, hxn⟩ := hx
    simp only [Contract.run, List.cons_append, List.mem_cons, List.mem_append, reduceCtorEq,
      false_or] at hn
    have hst := h.frame m w hm
    cases hn with
    | inl hn =>
      refine exec_own hI ?_ ?_ hw hst (hQ m w hm hw) hn
      · exact fun v => (h.run hxi v).1
      · exact fun v hv => ihi hxi hv
    | inr hn =>
      have hframe := (h.exec m w reply (h.run hxi) hst w).1
      exact ihn hxn (hI _ _ (h.point hframe) hw) n u w₁ w₂ hn
  | attempt inner next ihi ihn =>
    obtain ⟨hxi, hxn⟩ := hx
    simp only [Contract.run, List.cons_append, List.mem_cons, List.mem_append, reduceCtorEq,
      false_or] at hn
    cases hn with
    | inl hn => exact ihi hxi hw n u w₁ w₂ hn
    | inr hn => exact ihn hxn hw n u w₁ w₂ hn

end Own
end Guarantee

/-! ## Guarded bodies -/

/-- Every body that was started has ended. -/
def Closed (T : List (Obs W M)) : Prop := T.countP Obs.isEnter = T.countP Obs.isLeave

/-- Whenever a body starts, every body started before has ended. -/
def Apart (T : List (Obs W M)) : Prop :=
  ∀ T₁ T₂, T = T₁ ++ .enter :: T₂ → Closed T₁

/-- Guarded bodies do not overlap, and none is left open. -/
def Separate (T : List (Obs W M)) : Prop := Apart T ∧ Closed T

theorem Separate.append {T T' : List (Obs W M)} (h : Separate T) (h' : Separate T') :
    Separate (T ++ T') := by
  have hc : ∀ A, Closed A → Closed (T ++ A) := by
    intro A hA
    have hT := h.2
    unfold Closed at hA hT ⊢
    rw [List.countP_append, List.countP_append, hA, hT]
  refine ⟨fun T₁ T₂ he => ?_, hc T' h'.2⟩
  obtain ⟨A, hA, hB⟩ | ⟨A, hA, hB⟩ := List.append_eq_append_iff.mp he
  · -- the body starts in the second part
    rw [hA]
    exact hc A (h'.1 A T₂ hB)
  · cases A with
    | nil => simpa [hA] using h.2
    | cons o A =>
      simp only [List.cons_append, List.cons.injEq] at hB
      exact h.1 T₁ A (by rw [hA, hB.1])

/-- No body starts or ends. -/
def Quiet (T : List (Obs W M)) : Prop := ∀ o ∈ T, o.isEnter = false ∧ o.isLeave = false

theorem Quiet.closed {T : List (Obs W M)} (h : Quiet T) : Closed T := by
  unfold Closed
  rw [List.countP_eq_zero.mpr fun o ho => by simp [(h o ho).1],
    List.countP_eq_zero.mpr fun o ho => by simp [(h o ho).2]]

theorem Quiet.separate {T : List (Obs W M)} (h : Quiet T) : Separate T := by
  refine ⟨fun T₁ T₂ he => ?_, h.closed⟩
  have := (h .enter (by simp [he])).1
  simp [Obs.isEnter] at this

theorem quiet_control (w : W) : Quiet ([.control w] : List (Obs W M)) := by
  simp [Quiet, Obs.isEnter, Obs.isLeave]

theorem quiet_own (m : M) (u w w' : W) : Quiet [.own m u w w'] := by
  simp [Quiet, Obs.isEnter, Obs.isLeave]

theorem Quiet.append {T T' : List (Obs W M)} (h : Quiet T) (h' : Quiet T') : Quiet (T ++ T') := by
  intro o ho
  cases List.mem_append.mp ho with
  | inl ho => exact h o ho
  | inr ho => exact h' o ho

/-- A body that is quiet inside is one body. -/
theorem Quiet.bracket {T : List (Obs W M)} (h : Quiet T) :
    Separate (.enter :: T ++ [.leave]) := by
  constructor
  · intro T₁ T₂ he
    cases T₁ with
    | nil => rfl
    | cons o T₁ =>
      simp only [List.cons_append, List.cons.injEq] at he
      have hmem : Obs.enter ∈ T ++ [.leave] := by rw [he.2]; simp
      rw [List.mem_append, List.mem_singleton] at hmem
      cases hmem with
      | inl hmem => exact absurd (h _ hmem).1 (by simp [Obs.isEnter])
      | inr hmem => cases hmem
  · have hc := h.closed
    unfold Closed at hc ⊢
    simp [List.countP_append, List.countP_cons, Obs.isEnter, Obs.isLeave, hc]

section Locks
variable {Locked : W → Prop}

theorem exec_quiet (hin : ∀ w, Locked w → Quiet (inner w).2) {since : W}
    {st : Step W C R E Unit} (hst : st.Guarded K Locked true) :
    Quiet (K.exec m entry inner reply since st).2 := by
  induction st generalizing since with
  | ret a w => exact quiet_own m entry since w
  | revert e => simp [Contract.exec, Quiet]
  | body next ih => exact absurd hst.1 (by simp)
  | call c w next ih =>
    unfold Step.Guarded at hst
    unfold Contract.exec
    cases hc : K.refused c with
    | some r =>
      simp only [hc] at hst ⊢
      exact ih r w hst
    | none =>
      simp only [hc] at hst ⊢
      exact ((quiet_own m entry since w).append (hin _ (hst.1 trivial))).append
        (ih reply _ (hst.2 reply _))

theorem exec_separate (hin : ∀ w, Separate (inner w).2)
    (hquiet : ∀ w, Locked w → Quiet (inner w).2) {since : W} {st : Step W C R E Unit}
    (hst : st.Guarded K Locked false) : Separate (K.exec m entry inner reply since st).2 := by
  induction st generalizing since with
  | ret a w => exact (quiet_own m entry since w).separate
  | revert e => exact Quiet.separate (by simp [Contract.exec, Quiet])
  | body next ih => exact (exec_quiet hquiet hst.2).bracket
  | call c w next ih =>
    unfold Step.Guarded at hst
    unfold Contract.exec
    cases hc : K.refused c with
    | some r =>
      simp only [hc] at hst ⊢
      exact ih r w hst
    | none =>
      simp only [hc] at hst ⊢
      exact ((quiet_own m entry since w).separate.append (hin (K.enter c w))).append
        (ih reply _ (hst.2 reply _))

/-- Locked worlds start no body: what runs from one is quiet. -/
theorem run_quiet (h : Guarantee K P G H) (hG : ∀ w w', G w w' → Locked w → Locked w')
    (hlocked : ∀ m w, Locked w → (K.code m w).Guarded K Locked true)
    {x : Script R M O} (hx : x.Calls P) {w : W} (hw : Locked w) : Quiet (K.run x w).2 := by
  induction x generalizing w with
  | done => exact quiet_control w
  | outside o next ih => exact (quiet_control w).append (ih hx (hG _ _ (h.outside o w) hw))
  | call m inner reply next ihi ihn =>
    obtain ⟨hm, hxi, hxn⟩ := hx
    have hframe := (h.exec m w reply (h.run hxi) (h.frame m w hm) w).1
    have hq : Quiet (K.exec m w (K.run inner) reply w (K.code m w)).2 :=
      exec_quiet (fun u hu => ihi hxi hu) (hlocked m w hw)
    exact ((quiet_control w).append hq).append (ihn hxn (hG _ _ hframe hw))
  | attempt inner next ihi ihn =>
    exact ((quiet_control w).append (ihi hx.1 hw)).append (ihn hx.2 hw)

/-- Guarded bodies never overlap. -/
theorem run_separate (h : Guarantee K P G H) (hG : ∀ w w', G w w' → Locked w → Locked w')
    (hlocked : ∀ m w, Locked w → (K.code m w).Guarded K Locked true)
    (hfree : ∀ m w, (K.code m w).Guarded K Locked false)
    {x : Script R M O} (hx : x.Calls P) (w : W) : Separate (K.run x w).2 := by
  induction x generalizing w with
  | done => exact (quiet_control w).separate
  | outside o next ih => exact (quiet_control w).separate.append (ih hx (K.apply o w))
  | call m inner reply next ihi ihn =>
    obtain ⟨_, hxi, hxn⟩ := hx
    have hin : Separate (K.exec m w (K.run inner) reply w (K.code m w)).2 :=
      exec_separate (ihi hxi) (fun u hu => run_quiet h hG hlocked hxi hu) (hfree m w)
    exact ((quiet_control w).separate.append hin).append (ihn hxn _)
  | attempt inner next ihi ihn =>
    exact ((quiet_control w).separate.append (ihi hx.1 w)).append (ihn hx.2 w)

end Locks
end Rules

/-! ## Where a run goes -/

section Moves
variable (K : Contract W C R E M O)

/-- What takes the world further in a run that records `T`. -/
inductive Contract.Moves (T : List (Obs W M)) : W → W → Prop where
  | own {m : M} {entry w w' : W} : .own m entry w w' ∈ T → Moves T w w'
  | outside (o : O) (w : W) : Moves T w (K.apply o w)
  | enter (c : C) (w : W) : Moves T w (K.enter c w)

abbrev Contract.Reaches (T : List (Obs W M)) : W → W → Prop := Relation.ReflTransGen (K.Moves T)

variable {K} {T T' : List (Obs W M)} {w w' : W} {inner : W → W × List (Obs W M)}

/-- A record of two parts holds what the first recorded, -/
theorem subset_first (o : Obs W M) (T T' : List (Obs W M)) : T ⊆ o :: T ++ T' :=
  List.subset_append_of_subset_left T' (List.subset_cons_self o T)

/-- and what the second did. -/
theorem subset_second (o : Obs W M) (T T' : List (Obs W M)) : T' ⊆ o :: T ++ T' :=
  List.subset_append_right (o :: T) T'

theorem Contract.Reaches.mono (hT : T ⊆ T') (h : K.Reaches T w w') : K.Reaches T' w w' := by
  refine Relation.ReflTransGen.mono (fun u v huv => ?_) _ _ h
  cases huv with
  | own h => exact .own (hT h)
  | outside o => exact .outside o u
  | enter c => exact .enter c u

theorem exec_moves (m : M) (entry : W) (reply : R) (hinner : ∀ w, K.Reaches (inner w).2 w (inner w).1 ∧
      ∀ p, .control p ∈ (inner w).2 → K.Reaches (inner w).2 w p) (since : W)
    (st : Step W C R E Unit) :
    (∀ w', (K.exec m entry inner reply since st).1 = .ok w' →
      K.Reaches (K.exec m entry inner reply since st).2 since w') ∧
    ∀ p, .control p ∈ (K.exec m entry inner reply since st).2 →
      K.Reaches (K.exec m entry inner reply since st).2 since p := by
  induction st generalizing since with
  | ret a w =>
    refine ⟨fun w' hw' => ?_, fun p hp => ?_⟩
    · cases hw'
      exact .single (.own List.mem_cons_self)
    · simp [Contract.exec] at hp
  | revert e =>
    refine ⟨fun w' hw' => ?_, fun p hp => ?_⟩
    · cases hw'
    · simp [Contract.exec] at hp
  | body next ih =>
    obtain ⟨hend, hpoints⟩ := ih since
    have hT : (K.exec m entry inner reply since next).2 ⊆
        (K.exec m entry inner reply since (.body next)).2 := subset_first _ _ _
    refine ⟨fun w' hw' => (hend w' hw').mono hT, fun p hp => (hpoints p ?_).mono hT⟩
    simpa [Contract.exec] using hp
  | call c w next ih =>
    unfold Contract.exec
    cases hc : K.refused c with
    | some r => exact ih r w since
    | none =>
      simp only
      obtain ⟨hret, hin⟩ := hinner (K.enter c w)
      generalize hq : inner (K.enter c w) = r at hret hin ⊢
      generalize hback : (if K.failed reply = true then w else r.1) = w₁
      obtain ⟨hend, hpoints⟩ := ih reply w₁ w₁
      generalize K.exec m entry inner reply w₁ (next reply w₁) = q at hend hpoints ⊢
      have hr := subset_first (.own m entry since w) r.2 q.2
      have hq := subset_second (.own m entry since w) r.2 q.2
      -- up to the call, into the callee, and on from what it left
      have hown : K.Reaches (.own m entry since w :: r.2 ++ q.2) since w :=
        .single (.own List.mem_cons_self)
      have hcall : K.Reaches (.own m entry since w :: r.2 ++ q.2) since (K.enter c w) :=
        hown.tail (.enter c w)
      have hgoes : K.Reaches (.own m entry since w :: r.2 ++ q.2) since w₁ := by
        rw [← hback]
        split
        · exact hown
        · exact hcall.trans (hret.mono hr)
      refine ⟨fun w' hw' => hgoes.trans ((hend w' hw').mono hq), fun p hp => ?_⟩
      simp only [List.cons_append, List.mem_cons, List.mem_append, reduceCtorEq, false_or] at hp
      cases hp with
      | inl hp => exact hcall.trans ((hin p hp).mono hr)
      | inr hp => exact hgoes.trans ((hpoints p hp).mono hq)

/-- A run gets to its end, and to every point of it, by stretches it records, outside acts and
calls. -/
theorem run_moves (x : Script R M O) (w : W) :
    K.Reaches (K.run x w).2 w (K.run x w).1 ∧
      ∀ p, .control p ∈ (K.run x w).2 → K.Reaches (K.run x w).2 w p := by
  induction x generalizing w with
  | done =>
    refine ⟨.refl, fun p hp => ?_⟩
    simp only [Contract.run, List.mem_singleton, Obs.control.injEq] at hp
    rw [hp]
  | outside o next ih =>
    obtain ⟨hend, hpoints⟩ := ih (K.apply o w)
    have hT : (K.run next (K.apply o w)).2 ⊆ (K.run (.outside o next) w).2 :=
      List.subset_cons_self _ _
    refine ⟨.head (.outside o w) (hend.mono hT), fun p hp => ?_⟩
    simp only [Contract.run, List.mem_cons, Obs.control.injEq] at hp
    cases hp with
    | inl hp => rw [hp]
    | inr hp => exact .head (.outside o w) ((hpoints p hp).mono hT)
  | call m inner reply next ihi ihn =>
    obtain ⟨hframe, hin⟩ := exec_moves m w reply ihi w (K.code m w)
    simp only [Contract.run]
    generalize K.exec m w (K.run inner) reply w (K.code m w) = r at hframe hin ⊢
    obtain ⟨hend, hpoints⟩ := ihn (Contract.settle w r.1)
    generalize K.run next (Contract.settle w r.1) = q at hend hpoints ⊢
    have hr := subset_first (.control w) r.2 q.2
    have hq := subset_second (.control w) r.2 q.2
    have hgoes : K.Reaches (.control w :: r.2 ++ q.2) w (Contract.settle w r.1) := by
      cases hres : r.1 with
      | ok w' => exact (hframe w' hres).mono hr
      | error e => exact .refl
    refine ⟨hgoes.trans (hend.mono hq), fun p hp => ?_⟩
    simp only [List.cons_append, List.mem_cons, List.mem_append, Obs.control.injEq] at hp
    rcases hp with hp | hp | hp
    · rw [hp]
    · exact (hin p hp).mono hr
    · exact hgoes.trans ((hpoints p hp).mono hq)
  | attempt inner next ihi ihn =>
    obtain ⟨_, hin⟩ := ihi w
    obtain ⟨hend, hpoints⟩ := ihn w
    simp only [Contract.run]
    have hr := subset_first (.control w) (K.run inner w).2 (K.run next w).2
    have hq := subset_second (.control w) (K.run inner w).2 (K.run next w).2
    refine ⟨hend.mono hq, fun p hp => ?_⟩
    simp only [List.cons_append, List.mem_cons, List.mem_append, Obs.control.injEq] at hp
    rcases hp with hp | hp | hp
    · rw [hp]
    · exact (hin p hp).mono hr
    · exact (hpoints p hp).mono hq

end Moves
end Ark.Lib.CallTree
