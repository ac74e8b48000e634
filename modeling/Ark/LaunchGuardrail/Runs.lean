import Mathlib.Data.List.Basic
import Ark.LaunchGuardrail.Frames

/- What every run of the vault keeps, and how an invariant of it is proved.

   `Kept` holds between the start and the end of any script: the mutex is as it
   was, the logs only grow, by entries of the block's time, and while the mutex is
   taken nothing of the accounts changes (`Frozen`).
   `Invariant` is the rule the results about runs use: one predicate for the
   worlds in which the mutex is free, one for those in which it is taken, and for
   each kind of write what has to be shown. A frame that called out gets back a
   world that was kept. -/
namespace Ark.LaunchGuardrail
open Ark.Lib.CallTree

/-- The events of guarded bodies. -/
def Event.guarded : Event → Bool
  | .nativeDeposited .. => true
  | .tokenDeposited .. => true
  | .nativeWithdrawn .. => true
  | .tokenWithdrawn .. => true
  | _ => false

/-- What stays as it is while a guarded body waits for the code it called. -/
structure Frozen (w w' : World) : Prop where
  native : w'.storage.totalDepositedNative = w.storage.totalDepositedNative
  tokens : w'.storage.totalDepositedTokens = w.storage.totalDepositedTokens
  nativeWindows : w'.storage.nativeDepositWindows = w.storage.nativeDepositWindows
  tokenWindows : w'.storage.tokenDepositWindows = w.storage.tokenDepositWindows
  sent : w'.sent = w.sent
  balance : w.balance ≤ w'.balance
  logs : w'.logs.filter (fun l => l.2.guarded) = w.logs.filter fun l => l.2.guarded

theorem Frozen.refl (w : World) : Frozen w w := ⟨rfl, rfl, rfl, rfl, rfl, le_refl _, rfl⟩

theorem Frozen.trans {u v w : World} (h : Frozen u v) (h' : Frozen v w) : Frozen u w where
  native := h'.native.trans h.native
  tokens := h'.tokens.trans h.tokens
  nativeWindows := h'.nativeWindows.trans h.nativeWindows
  tokenWindows := h'.tokenWindows.trans h.tokenWindows
  sent := h'.sent.trans h.sent
  balance := h.balance.trans h'.balance
  logs := h'.logs.trans h.logs

/-- The logs `logs'` go on from `logs` with entries of the time `now`. -/
def Continues (now : Nat) (logs logs' : List (Nat × Event)) : Prop :=
  ∃ later, logs' = logs ++ later ∧ ∀ entry ∈ later, entry.1 = now

namespace Continues
variable {now : Nat} {logs logs' logs'' : List (Nat × Event)}

theorem refl (now : Nat) (logs : List (Nat × Event)) : Continues now logs logs :=
  ⟨[], (List.append_nil _).symm, nofun⟩

theorem entry (now : Nat) (logs : List (Nat × Event)) (e : Event) :
    Continues now logs (logs ++ [(now, e)]) :=
  ⟨[(now, e)], rfl, by simp⟩

theorem trans (h : Continues now logs logs') (h' : Continues now logs' logs'') :
    Continues now logs logs'' := by
  obtain ⟨later, rfl, hlater⟩ := h
  obtain ⟨later', rfl, hlater'⟩ := h'
  exact ⟨later ++ later', List.append_assoc _ _ _, List.forall_mem_append.mpr ⟨hlater, hlater'⟩⟩

theorem isPrefix (h : Continues now logs logs') : logs <+: logs' := by
  obtain ⟨later, rfl, _⟩ := h
  exact List.prefix_append _ _

end Continues

/-- What a script keeps between its start and its end. -/
structure Kept (w w' : World) : Prop where
  now : w'.now = w.now
  unlocked : w'.storage.unlocked = w.storage.unlocked
  locked : w.storage.unlocked ≠ 1 → Frozen w w'
  logs : Continues w.now w.logs w'.logs

theorem Kept.refl (w : World) : Kept w w := ⟨rfl, rfl, fun _ => .refl w, .refl _ _⟩

theorem Kept.trans {u v w : World} (h : Kept u v) (h' : Kept v w) : Kept u w where
  now := h'.now.trans h.now
  unlocked := h'.unlocked.trans h.unlocked
  locked hu := (h.locked hu).trans (h'.locked (h.unlocked ▸ hu))
  logs := h.logs.trans (h.now ▸ h'.logs)

/-- The world in which the callee of a guarded body gets control. -/
def World.calling (w : World) (c : Outgoing) (s : Storage) : World :=
  { w with storage := s, balance := w.balance - c.value, sent := w.sent + c.value }

section
variable {m : Message} {this : Address} {w : World} {e : Event} {c : Outgoing} {s : Storage}

theorem Admin.frozen {sender : Address} (h : Admin sender w.storage e s) : Frozen w (w.write s e) := by
  have hlogs : e.guarded = false := by
    cases h <;> rfl
  have hfilter : (w.write s e).logs.filter (fun l => l.2.guarded) =
      w.logs.filter fun l => l.2.guarded := by
    simp [World.write, List.filter_append, hlogs]
  cases h <;> exact ⟨rfl, rfl, rfl, rfl, rfl, le_refl _, hfilter⟩

theorem Admin.unlocked {sender : Address} {s₀ : Storage} (h : Admin sender s₀ e s) :
    s.unlocked = s₀.unlocked := by
  cases h <;> rfl

theorem Calls.unlocked (h : Calls m this w c e s) : s.unlocked = 0 := by
  cases h <;> rfl

theorem Outside.kept (o : Outside) (w : World) : Kept w (o.apply w) := by
  cases o with
  | forceEther amount =>
    exact ⟨rfl, rfl, fun _ => ⟨rfl, rfl, rfl, rfl, rfl, Nat.le_add_right _ _, rfl⟩, .refl _ _⟩
  | setHeld token f =>
    exact ⟨rfl, rfl, fun _ => ⟨rfl, rfl, rfl, rfl, rfl, le_refl _, rfl⟩, .refl _ _⟩

theorem accepts_success {r : Reply} (h : c.accepts r = true) : r.success = true := by
  cases c with
  | send recipient amount => exact h
  | transfer token recipient amount => exact (Bool.and_eq_true_iff.mp h).1
  | transferFrom token sender recipient amount => exact (Bool.and_eq_true_iff.mp h).1

section CallsOut
variable {next : Reply → World → Step World Outgoing Reply Revert Unit}

/-- A frame that called out has a guarantee when it has it at the call, and again after the
event, from any world the callee may leave. -/
theorem calls_guar {G H : World → World → Prop} {w₀ : World}
    (hret : ∀ r v, c.accepts r = true → m.outOfGas = false →
      next r v = .ret () (v.write (v.storage.lock 1) e))
    (hrev : ∀ r v, ¬ (c.accepts r = true ∧ m.outOfGas = false) → ∃ err, next r v = .revert err)
    (hcall : H w₀ (w.calling c s))
    (hback : ∀ v, G (w.calling c s) v → G w₀ (v.write (v.storage.lock 1) e)) :
    (Step.body (.call c { w with storage := s } next)).Guar (vault this) G H w₀ := by
  show Step.Guar (vault this) G H w₀ (.call c { w with storage := s } next)
  unfold Step.Guar
  by_cases hthis : c.callee = this
  · have hrefused : (vault this).refused c = some ⟨false, []⟩ := if_pos hthis
    obtain ⟨err, herr⟩ := hrev ⟨false, []⟩ { w with storage := s } fun hok =>
      Bool.false_ne_true (accepts_success hok.1)
    simp only [hrefused, herr]
    trivial
  · have hrefused : (vault this).refused c = none := if_neg hthis
    simp only [hrefused]
    refine ⟨hcall, fun r v hv => ?_⟩
    by_cases hok : c.accepts r = true ∧ m.outOfGas = false
    · have hsuccess : (vault this).failed r = false := by
        simp [vault, accepts_success hok.1]
      rw [hsuccess, if_neg Bool.false_ne_true] at hv
      rw [hret r v hok.1 hok.2]
      exact hback v hv
    · obtain ⟨err, herr⟩ := hrev r v hok
      rw [herr]
      trivial

/-- The stretches of such a frame: to the call, and from it. -/
theorem calls_owns {G : World → World → Prop} {Q : World → World → Prop} {w₀ : World}
    (hret : ∀ r v, c.accepts r = true → m.outOfGas = false →
      next r v = .ret () (v.write (v.storage.lock 1) e))
    (hrev : ∀ r v, ¬ (c.accepts r = true ∧ m.outOfGas = false) → ∃ err, next r v = .revert err)
    (hcall : Q w₀ { w with storage := s })
    (hback : ∀ v, G (w.calling c s) v → Q v (v.write (v.storage.lock 1) e)) :
    (Step.body (.call c { w with storage := s } next)).Owns (vault this) G Q w₀ := by
  show Step.Owns (vault this) G Q w₀ (.call c { w with storage := s } next)
  unfold Step.Owns
  by_cases hthis : c.callee = this
  · have hrefused : (vault this).refused c = some ⟨false, []⟩ := if_pos hthis
    obtain ⟨err, herr⟩ := hrev ⟨false, []⟩ { w with storage := s } fun hok =>
      Bool.false_ne_true (accepts_success hok.1)
    simp only [hrefused, herr]
    trivial
  · have hrefused : (vault this).refused c = none := if_neg hthis
    simp only [hrefused]
    refine ⟨hcall, fun r v hv => ?_⟩
    by_cases hok : c.accepts r = true ∧ m.outOfGas = false
    · have hsuccess : (vault this).failed r = false := by
        simp [vault, accepts_success hok.1]
      rw [hsuccess, if_neg Bool.false_ne_true] at hv
      rw [hret r v hok.1 hok.2]
      exact hback v hv
    · obtain ⟨err, herr⟩ := hrev r v hok
      rw [herr]
      trivial

end CallsOut

/-- How a frame ends, given what the code it called leaves. -/
inductive Ends (m : Message) (this : Address) (reply : Reply) (w : World)
    (callee : World → World) : Except Revert World → Prop where
  | reverts (e : Revert) : Ends m this reply w callee (.error e)
  | nothing : Ends m this reply w callee (.ok w)
  | deposit {newTvl : Uint256} {window : UserDepositWindow} :
      m.fn = .deposit → w.storage.unlocked = 1 →
      Charged w.storage w.now m.value w.storage.totalDepositedNative
        (w.storage.nativeDepositWindows m.sender) newTvl window →
      Ends m this reply w callee (.ok ((w.credited m.value).write
        ((w.storage.withNative m.sender newTvl window).lock 1)
        (.nativeDeposited m.sender m.value newTvl window.currentEpoch)))
  | admin {e : Event} {s : Storage} : Admin m.sender w.storage e s →
      Ends m this reply w callee (.ok (w.write s e))
  | calls {c : Outgoing} {e : Event} {s : Storage} :
      w.storage.unlocked = 1 → Calls m this w c e s → c.callee ≠ this → c.accepts reply = true →
      Ends m this reply w callee
        (.ok ((callee (w.calling c s)).write ((callee (w.calling c s)).storage.lock 1) e))

theorem frame_ends (m : Message) (this : Address) (inner : Script Reply Message Outside)
    (reply : Reply) (w : World) :
    Ends m this reply w (fun v => ((vault this).run inner v).1)
      ((vault this).frame m inner reply w).1 := by
  have hdoes : Does m this w (code this m w) := code_does
  show Ends m this reply w _ ((vault this).exec m w ((vault this).run inner) reply w (code this m w)).1
  generalize code this m w = st at hdoes ⊢
  cases hdoes with
  | reverts e => exact .reverts e
  | bodyReverts e hu => exact .reverts e
  | nothing => exact .nothing
  | deposit hfn hgas hu hp hc => exact .deposit hfn hu hc
  | admin hgas ha => exact .admin ha
  | @calls c e s next hu hcalls hret hrev =>
    show Ends m this reply w _ ((vault this).exec m w ((vault this).run inner) reply w
      (.call c { w with storage := s } next)).1
    unfold Contract.exec
    -- a call of the vault itself finds the mutex taken
    by_cases hthis : c.callee = this
    · have hrefused : (vault this).refused c = some ⟨false, []⟩ := if_pos hthis
      obtain ⟨err, herr⟩ := hrev ⟨false, []⟩ { w with storage := s } fun hok =>
        Bool.false_ne_true (accepts_success hok.1)
      simp only [hrefused, herr]
      exact .reverts err
    · have hrefused : (vault this).refused c = none := if_neg hthis
      simp only [hrefused]
      by_cases hok : c.accepts reply = true ∧ m.outOfGas = false
      · have hsuccess : (vault this).failed reply = false := by
          simp [vault, accepts_success hok.1]
        rw [hret reply _ hok.1 hok.2, hsuccess, if_neg Bool.false_ne_true]
        exact .calls hu hcalls hthis hok.1
      · obtain ⟨err, herr⟩ := hrev reply (if (vault this).failed reply = true then
          { w with storage := s } else ((vault this).run inner ((vault this).enter c
            { w with storage := s })).1) hok
        rw [herr]
        exact .reverts err

/-! ## Invariants -/

/-- What has to be shown of a predicate `I` on worlds whose mutex is free and a predicate `J` on
worlds whose mutex is taken, for runs with messages in `P`. -/
structure Invariant (this : Address) (P : Message → Prop) (I J : World → Prop) : Prop where
  outside : ∀ (o : Outside) (w : World), (I w → I (o.apply w)) ∧ (J w → J (o.apply w))
  admin : ∀ {m w e s}, P m → Admin m.sender w.storage e s →
    (I w → I (w.write s e)) ∧ (J w → J (w.write s e))
  deposit : ∀ {m w newTvl window}, P m → w.storage.unlocked = 1 → w.storage.paused = false →
    Charged w.storage w.now m.value w.storage.totalDepositedNative
      (w.storage.nativeDepositWindows m.sender) newTvl window → I w →
    I ((w.credited m.value).write ((w.storage.withNative m.sender newTvl window).lock 1)
      (.nativeDeposited m.sender m.value newTvl window.currentEpoch))
  call : ∀ {m w c e s}, P m → w.storage.unlocked = 1 → Calls m this w c e s → I w →
    J (w.calling c s)
  back : ∀ {m w c e s v}, P m → w.storage.unlocked = 1 → Calls m this w c e s → I w →
    Kept (w.calling c s) v → J v → I (v.write (v.storage.lock 1) e)

/-- `I` or `J`, by the mutex. -/
def ByMutex (I J : World → Prop) (w : World) : Prop :=
  (w.storage.unlocked = 1 → I w) ∧ (w.storage.unlocked ≠ 1 → J w)

namespace Invariant
variable {P : Message → Prop} {I J : World → Prop}

theorem guarantee (h : Invariant this P I J) :
    Guarantee (vault this) P (fun w w' => Kept w w' ∧ (ByMutex I J w → ByMutex I J w'))
      (fun w w' => ByMutex I J w → ByMutex I J w') where
  refl w := ⟨.refl w, id⟩
  trans h₁ h₂ := ⟨h₁.1.trans h₂.1, h₂.2 ∘ h₁.2⟩
  point h₁ := h₁.2
  points h₁ h₂ := h₂ ∘ h₁
  outside o w := by
    have hkept := o.kept w
    refine ⟨hkept, fun hw => ⟨fun hu => ?_, fun hu => ?_⟩⟩
    · exact (h.outside o w).1 (hw.1 (hkept.unlocked.symm.trans hu))
    · exact (h.outside o w).2 (hw.2 fun hu' => hu (hkept.unlocked.trans hu'))
  frame m w hm := by
    have hdoes : Does m this w (code this m w) := code_does
    show (code this m w).Guar (vault this) _ _ w
    generalize code this m w = st at hdoes ⊢
    cases hdoes with
    | reverts e => trivial
    | bodyReverts e hu => trivial
    | nothing => exact ⟨.refl w, id⟩
    | deposit hfn hgas hu hp hcharged =>
      refine ⟨⟨rfl, hu.symm, fun hno => absurd hu hno, .entry _ _ _⟩,
        fun hw => ⟨fun _ => ?_, fun hno => ?_⟩⟩
      · exact h.deposit hm hu hp hcharged (hw.1 hu)
      · exact absurd rfl hno
    | admin hgas hadmin =>
      have hunlocked := hadmin.unlocked
      refine ⟨⟨rfl, hunlocked, fun _ => hadmin.frozen, .entry _ _ _⟩,
        fun hw => ⟨fun hu => ?_, fun hu => ?_⟩⟩
      · exact (h.admin hm hadmin).1 (hw.1 (hunlocked.symm.trans hu))
      · exact (h.admin hm hadmin).2 (hw.2 fun hu' => hu (hunlocked.trans hu'))
    | calls hu hcalls hret hrev =>
      have hlocked := hcalls.unlocked
      -- `I` turns to `J` when the mutex is taken, and back when it is released
      refine calls_guar hret hrev (fun hw => ⟨fun hu' => ?_, fun _ => ?_⟩) fun v hv => ?_
      · exact absurd (hlocked.symm.trans hu') (by decide)
      · exact h.call hm hu hcalls (hw.1 hu)
      · obtain ⟨hkept, hinv⟩ := hv
        refine ⟨⟨hkept.now, hu.symm, fun hno => absurd hu hno,
          hkept.logs.trans (hkept.now ▸ .entry _ _ _)⟩, fun hw => ⟨fun _ => ?_, nofun⟩⟩
        have hcall : ByMutex I J (w.calling _ _) :=
          ⟨fun hu' => absurd (hlocked.symm.trans hu') (by decide), fun _ => h.call hm hu hcalls (hw.1 hu)⟩
        have hv : v.storage.unlocked ≠ 1 := by
          rw [hkept.unlocked]
          show _ ≠ 1
          rw [show (w.calling _ _).storage.unlocked = 0 from hlocked]
          decide
        exact h.back hm hu hcalls (hw.1 hu) hkept ((hinv hcall).2 hv)

/-- One transaction: what holds at its end and at every point of it. -/
theorem run (h : Invariant this P I J) {x : Script Reply Message Outside} (hx : x.Calls P)
    {w : World} (hu : w.storage.unlocked = 1) (hw : I w) :
    Kept w ((vault this).run x w).1 ∧ I ((vault this).run x w).1 ∧
      ∀ p, .control p ∈ ((vault this).run x w).2 → ByMutex I J p := by
  have hmutex : ByMutex I J w := ⟨fun _ => hw, fun hno => absurd hu hno⟩
  obtain ⟨⟨hkept, hend⟩, hpoints⟩ := h.guarantee.run hx w
  exact ⟨hkept, (hend hmutex).1 (hkept.unlocked.trans hu), fun p hp => hpoints p hp hmutex⟩

end Invariant

theorem run_kept (this : Address) (x : Script Reply Message Outside) (w : World) :
    Kept w ((vault this).run x w).1 := by
  have hnone : Invariant this (fun _ => True) (fun _ => True) (fun _ => True) :=
    ⟨fun _ _ => ⟨id, id⟩, fun _ _ => ⟨id, id⟩, fun _ _ _ _ => id, fun _ _ _ => id,
      fun _ _ _ _ _ => id⟩
  exact (hnone.guarantee.run x.calls_true w).1.1

/-! ## Assets -/

/-- What is deposited: the native coin, or a token. -/
inductive Asset where
  | native
  | token (token : Address)
  deriving DecidableEq

def Storage.window (s : Storage) (user : Address) : Asset → UserDepositWindow
  | .native => s.nativeDepositWindows user
  | .token token => s.tokenDepositWindows user token

def Storage.total (s : Storage) : Asset → Nat
  | .native => s.totalDepositedNative.val
  | .token token => (s.totalDepositedTokens token).val

/-- What the vault has of an asset. -/
def World.funds (w : World) : Asset → Nat
  | .native => w.balance
  | .token token => w.held token

/-- The view function for the capacity that remains. -/
def remainingTvlCapacity (w : World) : Asset → Nat
  | .native => getRemainingTvlCapacity w
  | .token token => getTokenRemainingTvlCapacity w token

/-- What an outside act makes of the vault's funds. -/
def Outside.moves (asset : Asset) (o : Outside) (n : Nat) : Nat :=
  match asset, o with
  | .native, .forceEther amount => n + amount
  | .token t, .setHeld token f => if t = token then f n else n
  | _, _ => n

/-- What code that a locked frame calls makes of the vault's funds. -/
def fundsAfter (asset : Asset) : Script Reply Message Outside → Nat → Nat
  | .done, n => n
  | .outside o next, n => fundsAfter asset next (o.moves asset n)
  | .call _ _ _ next, n => fundsAfter asset next n
  | .attempt _ next, n => fundsAfter asset next n

theorem Outside.apply_funds (asset : Asset) (o : Outside) (w : World) :
    (o.apply w).funds asset = o.moves asset (w.funds asset) := by
  cases asset with
  | native => cases o <;> rfl
  | token t =>
    cases o with
    | forceEther amount => rfl
    | setHeld token f =>
      show Function.update w.held token (f (w.held token)) t = if t = token then f (w.held t) else w.held t
      by_cases ht : t = token
      · subst ht
        rw [Function.update_self, if_pos rfl]
      · rw [Function.update_of_ne ht, if_neg ht]

theorem World.write_funds (w : World) (s : Storage) (e : Event) (asset : Asset) :
    (w.write s e).funds asset = w.funds asset := by
  cases asset <;> rfl

/-- While the mutex is taken no call to the vault moves funds. -/
theorem run_locked (this : Address) (asset : Asset) (x : Script Reply Message Outside) {w : World}
    (hw : w.storage.unlocked ≠ 1) :
    ((vault this).run x w).1.funds asset = fundsAfter asset x (w.funds asset) := by
  induction x generalizing w with
  | done => rfl
  | outside o next ih =>
    have hu : (o.apply w).storage.unlocked ≠ 1 := by
      rw [(o.kept w).unlocked]
      exact hw
    calc ((vault this).run (.outside o next) w).1.funds asset
        = fundsAfter asset next ((o.apply w).funds asset) := ih hu
      _ = fundsAfter asset next (o.moves asset (w.funds asset)) := by rw [o.apply_funds]
  | call m inner reply next ihi ihn =>
    have hends := frame_ends m this inner reply w
    show ((vault this).run next (Contract.settle w ((vault this).frame m inner reply w).1)).1.funds
      asset = fundsAfter asset next (w.funds asset)
    -- no guarded body runs, so a frame writes nothing or administers
    have hframe : ∀ r, Ends m this reply w (fun v => ((vault this).run inner v).1) r →
        (Contract.settle w r).funds asset = w.funds asset ∧
          (Contract.settle w r).storage.unlocked ≠ 1 := by
      intro r hr
      cases hr with
      | reverts e => exact ⟨rfl, hw⟩
      | nothing => exact ⟨rfl, hw⟩
      | deposit hfn hu hc => exact absurd hu hw
      | admin ha =>
        exact ⟨w.write_funds _ _ asset, fun hu => hw (ha.unlocked.symm.trans hu)⟩
      | calls hu hc hthis hr => exact absurd hu hw
    obtain ⟨hfunds, hu⟩ := hframe _ hends
    rw [ihn hu, hfunds]
  | attempt inner next ihi ihn => exact ihn hw

/-! ## Histories -/

/-- Each transaction of a history may follow the one before by its time. -/
def Paced (ok : Nat → Nat → Prop) : Nat → History → Prop
  | _, [] => True
  | now, (time, _) :: H => ok now time ∧ Paced ok time H

/-- Block timestamps do not decrease. -/
abbrev Ordered : Nat → History → Prop := Paced (· ≤ ·)

theorem paced_true (H : History) (now : Nat) : Paced (fun _ _ => True) now H := by
  induction H generalizing now with
  | nil => trivial
  | cons tx H ih => exact ⟨trivial, ih tx.1⟩

theorem Invariant.play {P : Message → Prop} {I J : World → Prop} (h : Invariant this P I J)
    {ok : Nat → Nat → Prop} (htime : ∀ w time, ok w.now time → I w → I { w with now := time })
    {H : History} (hH : ∀ tx ∈ H, tx.2.Calls P) {w : World} (hpaced : Paced ok w.now H)
    (hu : w.storage.unlocked = 1) (hw : I w) :
    (play this H w).1.storage.unlocked = 1 ∧ I (play this H w).1 ∧
      ∀ p, .control p ∈ (play this H w).2 → ByMutex I J p := by
  induction H generalizing w with
  | nil => exact ⟨hu, hw, nofun⟩
  | cons tx H ih =>
    obtain ⟨time, x⟩ := tx
    obtain ⟨hok, hpaced⟩ := hpaced
    have hu₀ : ({ w with now := time } : World).storage.unlocked = 1 := hu
    obtain ⟨hkept, hend, hpoints⟩ := h.run (hH _ List.mem_cons_self) hu₀ (htime w time hok hw)
    have hpaced' : Paced ok ((vault this).run x { w with now := time }).1.now H := by
      rw [hkept.now]
      exact hpaced
    obtain ⟨hu', hw', hrest⟩ :=
      ih (fun tx htx => hH tx (List.mem_cons_of_mem _ htx)) hpaced' (hkept.unlocked.trans hu) hend
    refine ⟨hu', hw', fun p hp => ?_⟩
    cases List.mem_append.mp hp with
    | inl hp => exact hpoints p hp
    | inr hp => exact hrest p hp

end
end Ark.LaunchGuardrail
