import Mathlib.Data.List.Basic
import Ark.Lib.Epochs
import Ark.LaunchGuardrail.Runs

/- The daily limit of an account.

   A window counts one calendar day: `deposit` and `depositToken` start again from
   zero when the day number changes, so a user who deposited late on one day may
   deposit the whole limit again after midnight. `Counts` ties the window of a
   user to the deposits in the logs: the current day adds up to
   `depositedInEpoch`, no later day has any, and every day keeps the limit. It
   holds in every run with ordered timestamps, and with it the limit holds in
   every 24 hours exactly when what is carried over midnight fits
   (`daily_limit_iff`). -/
namespace Ark.LaunchGuardrail
open Ark.Lib.CallTree Ark.Lib.Epochs

/-- What `user` deposited of `asset` by an event. -/
def Event.deposited (asset : Asset) (user : Address) : Event → Nat
  | .nativeDeposited u amount _ _ => if asset = .native ∧ u = user then amount.val else 0
  | .tokenDeposited u token amount _ _ =>
    if asset = .token token ∧ u = user then amount.val else 0
  | _ => 0

/-- The times and amounts of the deposits of `asset` by `user`. -/
def deposits (asset : Asset) (user : Address) (logs : List (Nat × Event)) : List (Nat × Nat) :=
  logs.map fun l => (l.1, l.2.deposited asset user)

/-- Every limit that was ever set is `limit`. -/
def LimitFixed (limit : Uint256) (logs : List (Nat × Event)) : Prop :=
  ∀ time cap perTx daily, (time, .limitsUpdated cap perTx daily) ∈ logs → daily = limit

theorem LimitFixed.of_prefix {limit : Uint256} {logs logs' : List (Nat × Event)}
    (h : LimitFixed limit logs') (hle : logs <+: logs') : LimitFixed limit logs :=
  fun time cap perTx daily hmem => h time cap perTx daily (hle.subset hmem)

section Tally
variable {asset : Asset} {user : Address}

/-- The deposits of one day. -/
def tally (asset : Asset) (user : Address) (logs : List (Nat × Event)) (epoch : Nat) : Nat :=
  during (inEpoch epochDuration epoch) (deposits asset user logs)

theorem tally_concat (logs : List (Nat × Event)) (time : Nat) (e : Event) (epoch : Nat) :
    tally asset user (logs ++ [(time, e)]) epoch = tally asset user logs epoch +
      if time / epochDuration = epoch then e.deposited asset user else 0 := by
  unfold tally deposits
  rw [List.map_append, List.map_singleton, during_concat]
  simp [inEpoch]

theorem deposited_unguarded {e : Event} (h : e.guarded = false) : e.deposited asset user = 0 := by
  cases e <;> first | rfl | cases h

/-- Only guarded bodies deposit. -/
theorem tally_filter (logs : List (Nat × Event)) :
    tally asset user (logs.filter fun l => l.2.guarded) = tally asset user logs := by
  induction logs with
  | nil => rfl
  | cons l logs ih =>
    funext epoch
    have hepoch := congrFun ih epoch
    unfold tally deposits at hepoch ⊢
    rw [List.filter_cons]
    cases hl : l.2.guarded with
    | true =>
      rw [if_pos rfl, List.map_cons, List.map_cons, during_cons, during_cons, hepoch]
    | false =>
      rw [if_neg Bool.false_ne_true, List.map_cons, during_cons, hepoch, deposited_unguarded hl]
      simp

end Tally

/-! ## The invariant -/

/-- The days of `days` add up as the window has them. -/
structure Tallied (days : Nat → Nat) (window : UserDepositWindow) (now : Nat) : Prop where
  current : window.currentEpoch ≤ now / epochDuration
  counted : days window.currentEpoch = window.depositedInEpoch.val
  later : ∀ epoch, window.currentEpoch < epoch → days epoch = 0

theorem Tallied.today {days : Nat → Nat} {window : UserDepositWindow} {now : Nat}
    (h : Tallied days window now) : days (now / epochDuration) =
      (if window.currentEpoch = now / epochDuration then window.depositedInEpoch else 0).val := by
  by_cases he : window.currentEpoch = now / epochDuration
  · rw [if_pos he, ← he, h.counted]
  · rw [if_neg he]
    have hcur := h.current
    apply h.later
    omega

/-- A deposit adds its amount to the day it is made on. -/
theorem Tallied.charge {days : Nat → Nat} {s : Storage} {now : Nat}
    {amount tvl newTvl : Uint256} {window window' : UserDepositWindow} (h : Tallied days window now)
    (hc : Charged s now amount tvl window newTvl window') :
    Tallied (fun e => days e + if now / epochDuration = e then amount.val else 0) window' now where
  current := by
    rw [hc.epoch_eq]
  counted := by
    rw [hc.epoch_eq, hc.deposited_eq, h.today]
    simp
  later epoch hlt := by
    rw [hc.epoch_eq] at hlt
    have hcur := h.current
    rw [h.later epoch (by omega), if_neg (by omega)]

/-- The logs are in order of time, and the limit in force is the one they say. -/
structure Ticks (limit : Uint256) (w : World) : Prop where
  fixed : LimitFixed limit w.logs → w.storage.dailyAccountLimit = limit
  past : ∀ l ∈ w.logs, l.1 ≤ w.now
  sorted : w.logs.Pairwise fun l l' => l.1 ≤ l'.1

/-- The window of a user counts the user's deposits, and no day exceeds the limit. -/
structure Counts (limit : Uint256) (asset : Asset) (user : Address) (w : World) : Prop where
  ticks : Ticks limit w
  tallied : Tallied (tally asset user w.logs) (w.storage.window user asset) w.now
  within : LimitFixed limit w.logs → ∀ epoch, tally asset user w.logs epoch ≤ limit.val

section
variable {limit : Uint256} {asset : Asset} {user : Address} {this : Address} {m : Message}
  {w v : World} {e : Event} {s : Storage} {c : Outgoing}

/-- An event is logged, and the limit is kept or is the one of the event. -/
theorem Ticks.write (h : Ticks limit w)
    (hs : LimitFixed limit (w.logs ++ [(w.now, e)]) → w.storage.dailyAccountLimit = limit →
      s.dailyAccountLimit = limit) : Ticks limit (w.write s e) where
  fixed hfixed := hs hfixed (h.fixed (hfixed.of_prefix (List.prefix_append _ _)))
  past l hl := by
    cases List.mem_append.mp hl with
    | inl hl => exact h.past l hl
    | inr hl =>
      rw [List.mem_singleton.mp hl]
      exact le_refl _
  sorted := by
    apply List.pairwise_append.mpr
    refine ⟨h.sorted, List.pairwise_singleton _ _, fun l hl l' hl' => ?_⟩
    rw [List.mem_singleton.mp hl']
    exact h.past l hl

theorem Ticks.admin (h : Ticks limit w) (ha : Admin m.sender w.storage e s) :
    Ticks limit (w.write s e) := by
  apply h.write
  intro hfixed hlimit
  cases ha with
  | @setLimits cap perTx daily hs hpos hdaily hcap =>
    exact hfixed w.now cap perTx daily (by simp)
  | emergencyPause => exact hlimit
  | unpause => exact hlimit
  | setGuardian => exact hlimit
  | transferOwnership => exact hlimit
  | acceptOwnership => exact hlimit

theorem Admin.window (ha : Admin m.sender w.storage e s) :
    s.window user asset = w.storage.window user asset := by
  cases ha <;> cases asset <;> rfl

theorem Counts.admin (h : Counts limit asset user w) (ha : Admin m.sender w.storage e s) :
    Counts limit asset user (w.write s e) := by
  have htally : tally asset user (w.write s e).logs = tally asset user w.logs := by
    rw [← tally_filter, ha.frozen.logs, tally_filter]
  refine ⟨h.ticks.admin ha, ?_, fun hfixed => ?_⟩
  · rw [htally]
    show Tallied _ (s.window user asset) w.now
    rw [ha.window]
    exact h.tallied
  · rw [htally]
    exact h.within (hfixed.of_prefix (List.prefix_append _ _))

/-- A body that ended has left the window alone, with an event that deposits nothing, or has
charged the amount of its event. -/
def Books (asset : Asset) (user : Address) (w : World) (e : Event) (s : Storage) : Prop :=
  (e.deposited asset user = 0 ∧ s.window user asset = w.storage.window user asset) ∨
    ∃ amount tvl newTvl, e.deposited asset user = amount.val ∧
      Charged w.storage w.now amount tvl (w.storage.window user asset) newTvl (s.window user asset)

/-- The end of a body that was started in `w` and logs in `v`. -/
theorem Counts.book (h : Counts limit asset user w) (hv : Ticks limit v) (hnow : v.now = w.now)
    (hgrow : w.logs <+: v.logs)
    (hlogs : v.logs.filter (fun l => l.2.guarded) = w.logs.filter fun l => l.2.guarded)
    (hlimit : s.dailyAccountLimit = v.storage.dailyAccountLimit) (hb : Books asset user w e s) :
    Counts limit asset user (v.write s e) := by
  have htally : ∀ epoch, tally asset user (v.write s e).logs epoch = tally asset user w.logs epoch +
      if w.now / epochDuration = epoch then e.deposited asset user else 0 := by
    intro epoch
    show tally asset user (v.logs ++ [(v.now, e)]) epoch = _
    rw [tally_concat, ← tally_filter v.logs, hlogs, tally_filter, hnow]
  have hticks : Ticks limit (v.write s e) := hv.write fun _ hl => hlimit.trans hl
  have hbefore : LimitFixed limit (v.write s e).logs → LimitFixed limit w.logs := fun hfixed =>
    hfixed.of_prefix (hgrow.trans (List.prefix_append _ _))
  -- either the event counts for nothing, or its amount was charged to the window
  obtain ⟨hzero, hwindow⟩ | ⟨amount, tvl, newTvl, hamount, hc⟩ := hb
  · have hsame : tally asset user (v.write s e).logs = tally asset user w.logs := by
      funext epoch
      rw [htally, hzero]
      simp
    refine ⟨hticks, ?_, fun hfixed => ?_⟩
    · show Tallied _ (s.window user asset) v.now
      rw [hsame, hwindow, hnow]
      exact h.tallied
    · rw [hsame]
      exact h.within (hbefore hfixed)
  · have hadded : tally asset user (v.write s e).logs = fun epoch => tally asset user w.logs epoch +
        if w.now / epochDuration = epoch then amount.val else 0 := by
      funext epoch
      rw [htally, hamount]
    refine ⟨hticks, ?_, fun hfixed epoch => ?_⟩
    · show Tallied _ (s.window user asset) v.now
      rw [hadded, hnow]
      exact h.tallied.charge hc
    · rw [hadded]
      have hold := h.within (hbefore hfixed) epoch
      by_cases he : w.now / epochDuration = epoch
      · have hdaily : (s.window user asset).depositedInEpoch.val ≤ w.storage.dailyAccountLimit.val :=
          hc.deposited_le
        rw [h.ticks.fixed (hbefore hfixed), hc.deposited_eq, ← h.tallied.today, he] at hdaily
        simpa [he] using hdaily
      · simpa [he] using hold

theorem deposit_books {newTvl : Uint256} {window : UserDepositWindow}
    (hc : Charged w.storage w.now m.value w.storage.totalDepositedNative
      (w.storage.nativeDepositWindows m.sender) newTvl window) :
    Books asset user w (.nativeDeposited m.sender m.value newTvl window.currentEpoch)
      ((w.storage.withNative m.sender newTvl window).lock 1) := by
  cases asset with
  | token t => exact .inl ⟨rfl, rfl⟩
  | native =>
    by_cases hu : m.sender = user
    · subst hu
      refine .inr ⟨m.value, w.storage.totalDepositedNative, newTvl, by simp [Event.deposited], ?_⟩
      have hwindow : ((w.storage.withNative m.sender newTvl window).lock 1).window m.sender .native =
          window := Function.update_self ..
      rw [hwindow]
      exact hc
    · refine .inl ⟨by simp [Event.deposited, hu], ?_⟩
      exact Function.update_of_ne (Ne.symm hu) _ _

theorem calls_books (hc : Calls m this w c e s) : Books asset user w e s := by
  cases hc with
  | withdrawNative => cases asset <;> exact .inl ⟨rfl, rfl⟩
  | withdrawToken => cases asset <;> exact .inl ⟨rfl, rfl⟩
  | @depositToken token amount newTvl window hfn hp h0 hc =>
    cases asset with
    | native => exact .inl ⟨rfl, rfl⟩
    | token t =>
      by_cases hu : m.sender = user
      · subst hu
        by_cases ht : t = token
        · subst ht
          refine .inr ⟨amount, w.storage.totalDepositedTokens t, newTvl, by simp [Event.deposited], ?_⟩
          have hwindow : ((w.storage.withToken m.sender t newTvl window).lock 0).window m.sender
              (.token t) = window := by
            simp [Storage.window, Storage.lock, Storage.withToken]
          rw [hwindow]
          exact hc
        · refine .inl ⟨by simp [Event.deposited, ht], ?_⟩
          simp [Storage.window, Storage.lock, Storage.withToken, ht]
      · refine .inl ⟨by simp [Event.deposited, hu], ?_⟩
        simp [Storage.window, Storage.lock, Storage.withToken, Ne.symm hu]

theorem counts_invariant (this : Address) (limit : Uint256) (asset : Asset) (user : Address) :
    Invariant this (fun _ => True) (Counts limit asset user) (Ticks limit) where
  outside o w := by
    cases o with
    | forceEther amount =>
      exact ⟨fun h => ⟨⟨h.ticks.fixed, h.ticks.past, h.ticks.sorted⟩, h.tallied, h.within⟩,
        fun h => ⟨h.fixed, h.past, h.sorted⟩⟩
    | setHeld token f =>
      exact ⟨fun h => ⟨⟨h.ticks.fixed, h.ticks.past, h.ticks.sorted⟩, h.tallied, h.within⟩,
        fun h => ⟨h.fixed, h.past, h.sorted⟩⟩
  admin _ ha := ⟨fun h => h.admin ha, fun h => h.admin ha⟩
  deposit {m w _ _} _ _ _ hc h := by
    have hcredited : Ticks limit (w.credited m.value) := ⟨h.ticks.fixed, h.ticks.past, h.ticks.sorted⟩
    exact h.book hcredited rfl List.prefix_rfl rfl rfl (deposit_books hc)
  call _ _ hc h := by
    refine ⟨fun hfixed => ?_, h.ticks.past, h.ticks.sorted⟩
    have hlimit := h.ticks.fixed hfixed
    cases hc <;> exact hlimit
  back {m w c e s v} _ _ hc h hkept hv := by
    have hlocked : (w.calling c s).storage.unlocked ≠ 1 := by
      show s.unlocked ≠ 1
      rw [hc.unlocked]
      decide
    have hfrozen := hkept.locked hlocked
    -- the windows are those the body left when it called
    have hbooks : Books asset user w e (v.storage.lock 1) := by
      have hwindow : (v.storage.lock 1).window user asset = s.window user asset := by
        cases asset with
        | native => exact congrFun hfrozen.nativeWindows user
        | token t => exact congrFun (congrFun hfrozen.tokenWindows user) t
      have hb : Books asset user w e s := calls_books hc
      unfold Books at hb ⊢
      rw [hwindow]
      exact hb
    exact h.book hv hkept.now hkept.logs.isPrefix hfrozen.logs rfl hbooks

theorem Counts.later_time (h : Counts limit asset user w) {time : Nat} (hle : w.now ≤ time) :
    Counts limit asset user { w with now := time } where
  ticks := ⟨h.ticks.fixed, fun l hl => (h.ticks.past l hl).trans hle, h.ticks.sorted⟩
  tallied := ⟨h.tallied.current.trans (Nat.div_le_div_right hle), h.tallied.counted, h.tallied.later⟩
  within := h.within

theorem Deployed.counts (h : Deployed w) (asset : Asset) (user : Address) :
    w.storage.unlocked = 1 ∧ Counts w.storage.dailyAccountLimit asset user w := by
  obtain ⟨owner, guardian, cap, perTx, daily, _, _, _, _, _, hs, _, hlogs⟩ := h.cases
  have htally : ∀ epoch, tally asset user w.logs epoch = 0 := by
    intro epoch
    rw [hlogs]
    simp [tally, deposits, during_cons, Event.deposited]
  have hwindow : w.storage.window user asset = ⟨0, 0, 0⟩ := by
    rw [hs]
    cases asset <;> rfl
  refine ⟨by rw [hs]; rfl, ⟨fun _ => rfl, ?_, ?_⟩, ?_, fun _ epoch => ?_⟩
  · rw [hlogs]
    simp
  · rw [hlogs]
    simp
  · rw [hwindow]
    exact ⟨Nat.zero_le _, htally 0, fun epoch _ => htally epoch⟩
  · rw [htally]
    exact Nat.zero_le _

/-- Account 3 deposits its daily limit of 200 in the last second of a day, and 100 one second
later; it does the same with token 7. -/
def aroundMidnight : History :=
  let native : Nat → Nat × Script Reply Message Outside := fun time =>
    (time, .call { sender := 3, value := 100, fn := .deposit } .done ⟨true, []⟩ .done)
  let token : Nat → Nat × Script Reply Message Outside := fun time =>
    (time, .call { sender := 3, value := 0, fn := .depositToken 7 100 }
      (.outside (.setHeld 7 (· + 100)) .done) ⟨true, []⟩ .done)
  [native 86399, native 86399, token 86399, token 86399, native 86400, token 86400]

theorem aroundMidnight_logs : (play 9 aroundMidnight smallVault).1.logs = smallVault.logs ++
    [(86399, .nativeDeposited 3 100 100 0), (86399, .nativeDeposited 3 100 200 0),
      (86399, .tokenDeposited 3 7 100 100 0), (86399, .tokenDeposited 3 7 100 200 0),
      (86400, .nativeDeposited 3 100 300 1), (86400, .tokenDeposited 3 7 100 300 1)] := by
  decide +kernel

theorem aroundMidnight_fixed : LimitFixed 200 (play 9 aroundMidnight smallVault).1.logs := by
  intro time cap perTx daily h
  rw [aroundMidnight_logs] at h
  simp [smallVault] at h
  exact h.2.2.2

/-- Within two seconds the account has deposited 300, natively and of the token. -/
theorem aroundMidnight_exceeds : Deployed smallVault ∧ Ordered 0 aroundMidnight ∧
    LimitFixed 200 (play 9 aroundMidnight smallVault).1.logs ∧
    ∀ asset, asset = .native ∨ asset = .token 7 → ¬ during (inWindow epochDuration 86400)
      (deposits asset 3 (play 9 aroundMidnight smallVault).1.logs) ≤ 200 := by
  refine ⟨smallVault_deployed, by simp [aroundMidnight, Ordered, Paced], aroundMidnight_fixed, ?_⟩
  intro asset hasset
  rw [aroundMidnight_logs]
  cases hasset with
  | inl h =>
    subst h
    decide +kernel
  | inr h =>
    subst h
    decide +kernel

/-- In a history of ordered timestamps in which the limit stays what it was, the deposits of a
user keep the limit in every 24 hours if and only if every deposit made while deposits of the day
before are less than 24 hours old fits the limit together with these and with the day's own. -/
theorem daily_limit_iff (this : Address) {H : History} (hw : Deployed w) (hH : Ordered w.now H)
    (hfixed : LimitFixed w.storage.dailyAccountLimit (play this H w).1.logs)
    (asset : Asset) (user : Address) :
    (∀ t, during (inWindow epochDuration t) (deposits asset user (play this H w).1.logs) ≤
      w.storage.dailyAccountLimit.val) ↔
    CarryFits epochDuration w.storage.dailyAccountLimit.val
      (deposits asset user (play this H w).1.logs) := by
  obtain ⟨hu, hcounts⟩ := hw.counts asset user
  obtain ⟨_, hend, _⟩ := (counts_invariant this _ asset user).play
    (fun _ _ hle h => h.later_time hle) (fun tx _ => tx.2.calls_true) hH hu hcounts
  apply windows_iff (by decide)
  · unfold deposits
    exact List.pairwise_map.mpr hend.ticks.sorted
  · exact hend.within hfixed

/-- Account 4 deposits 80 in the last second of a day, and 90 one second later. -/
def acrossMidnight : History :=
  [(86399, .call { sender := 4, value := 80, fn := .deposit } .done ⟨true, []⟩ .done),
    (86400, .call { sender := 4, value := 90, fn := .deposit } .done ⟨true, []⟩ .done)]

theorem acrossMidnight_logs : (play 9 acrossMidnight smallVault).1.logs = smallVault.logs ++
    [(86399, .nativeDeposited 4 80 80 0), (86400, .nativeDeposited 4 90 170 1)] := by
  decide +kernel

/-- What it carries over midnight leaves room for the second deposit, so every 24 hours keep the
limit. -/
theorem acrossMidnight_limit :
    deposits .native 4 (play 9 acrossMidnight smallVault).1.logs =
      [(0, 0), (0, 0), (0, 0), (86399, 80), (86400, 90)] ∧
    ∀ t, during (inWindow epochDuration t)
      (deposits .native 4 (play 9 acrossMidnight smallVault).1.logs) ≤ 200 := by
  have hlogs := acrossMidnight_logs
  have hdeposits : deposits .native 4 (play 9 acrossMidnight smallVault).1.logs =
      [(0, 0), (0, 0), (0, 0), (86399, 80), (86400, 90)] := by
    rw [hlogs]
    decide +kernel
  have hfixed : LimitFixed 200 (play 9 acrossMidnight smallVault).1.logs := by
    intro time cap perTx daily h
    rw [hlogs] at h
    simp [smallVault] at h
    exact h.2.2.2
  refine ⟨hdeposits, (daily_limit_iff 9 smallVault_deployed
    (by simp [acrossMidnight, Ordered, Paced, smallVault]) hfixed .native 4).mpr ?_⟩
  intro l₁ t amount l₂ h hne hcarried
  rw [hdeposits] at h
  -- the constructor's entries deposit nothing
  rcases l₁ with _ | ⟨x₁, _ | ⟨x₂, _ | ⟨x₃, _ | ⟨x₄, _ | ⟨x₅, l⟩⟩⟩⟩⟩ <;>
    simp only [List.nil_append, List.cons_append, List.cons.injEq, Prod.mk.injEq] at h
  · exact absurd h.1.2.symm hne
  · exact absurd h.2.1.2.symm hne
  · exact absurd h.2.2.1.2.symm hne
  · obtain ⟨rfl, rfl, rfl, ⟨rfl, rfl⟩, _⟩ := h
    decide
  · obtain ⟨rfl, rfl, rfl, rfl, ⟨rfl, rfl⟩, _⟩ := h
    decide
  · simp at h

end
end Ark.LaunchGuardrail
