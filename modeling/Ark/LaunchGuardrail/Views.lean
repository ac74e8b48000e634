import Mathlib.Algebra.Order.BigOperators.Group.Finset
import Ark.LaunchGuardrail.Accounting
import Ark.LaunchGuardrail.Tokens
import Ark.LaunchGuardrail.Tvl

/- The views say what a deposit may be.

   A deposit and the views are written apart: the deposit adds and compares, the view
   subtracts and stops at 0. Over the accounts they agree (`charged_iff`). The checks
   leave one addition without a bound of its own, that of a window's total; it is below
   the vault's total, since the windows add up to it (`Agrees.cumulative_le`), and so the
   capacity that is left bounds it too, whatever the limits were before.

   A deposit is a frame of the vault. A native one calls nobody; for a token the call to
   its contract is assumed to succeed without calling back (`Transfers`). -/
namespace Ark.LaunchGuardrail
open Ark.Lib.CallTree Ark.Lib.Checks

/-! ## The views and the deposits, by asset -/

/-- The view function for what an account may still deposit in the epoch. -/
def remainingDailyLimit (w : World) (user : Address) : Asset → Nat
  | .native => getUserRemainingDailyLimit w user
  | .token token => getTokenUserRemainingDailyLimit w user token

/-- What a window counts in the epoch of a time. -/
def UserDepositWindow.spent (window : UserDepositWindow) (now : Nat) : Nat :=
  (if window.currentEpoch = now / epochDuration then window.depositedInEpoch else 0).val

def Storage.counter (s : Storage) : Asset → Uint256
  | .native => s.totalDepositedNative
  | .token token => s.totalDepositedTokens token

/-- The storage after the state mutations of a deposit. -/
def Storage.deposited (s : Storage) (asset : Asset) (user : Address) (newTvl : Uint256)
    (window : UserDepositWindow) : Storage :=
  match asset with
  | .native => s.withNative user newTvl window
  | .token token => s.withToken user token newTvl window

/-- `deposit()` with value `v`, or `depositToken(token, v)`. -/
def depositOf (asset : Asset) (user : Address) (v : Uint256) : Message :=
  match asset with
  | .native => { sender := user, value := v, fn := .deposit }
  | .token token => { sender := user, value := 0, fn := .depositToken token v }

/-- The transfer of the asset succeeds, and its code does not call back. -/
def Transfers (this : Address) (inner : Script Reply Message Outside) (reply : Reply) :
    Asset → Prop
  | .native => True
  | .token token => token ≠ this ∧ reply.transferred = true ∧ inner.Calls fun _ => False

section
variable {this user : Address} {asset : Asset} {v : Uint256} {w w' : World} {s : Storage}
  {window : UserDepositWindow} {inner : Script Reply Message Outside} {reply : Reply}

theorem Storage.total_eq : s.total asset = (s.counter asset).val := by
  cases asset with
  | native => rfl
  | token token => rfl

theorem remainingDailyLimit_eq : remainingDailyLimit w user asset =
    w.storage.dailyAccountLimit.val - (w.storage.window user asset).spent w.now := by
  -- the view of either asset, for what it found in the window
  have hview : ∀ limit deposited : Uint256,
      (if limit ≤ deposited then 0 else limit.val - deposited.val) = limit.val - deposited.val := by
    intro limit deposited
    split
    · rename_i hle
      have hval := Fin.le_def.mp hle
      omega
    · rfl
  cases asset with
  | native => exact hview _ _
  | token token => exact hview _ _

/-! ## The checks and the accounts -/

/-- An account's total is at most the vault's. -/
theorem Agrees.cumulative_le {windows : Address → UserDepositWindow} {total : Uint256}
    (h : Agrees windows total) (user : Address) :
    (windows user).totalCumulative.val ≤ total.val := by
  rw [← h.sum]
  exact Finset.single_le_sum (f := fun u => (windows u).totalCumulative.val)
    (fun _ _ => Nat.zero_le _) (Finset.mem_univ user)

theorem Accounts.cumulative_le (h : Accounts w) (user : Address) (asset : Asset) :
    (w.storage.window user asset).totalCumulative.val ≤ (w.storage.counter asset).val := by
  cases asset with
  | native => exact h.native.cumulative_le user
  | token token => exact (h.tokens token).cumulative_le user

/-- The checks of a deposit pass on what fits into the limit of a transaction, the epoch and the
cap. -/
theorem charged_iff {now : Nat} {currentTvl : Uint256}
    (hbound : window.totalCumulative.val ≤ currentTvl.val) :
    (∃ newTvl window', Charged s now v currentTvl window newTvl window') ↔
      1 ≤ v.val ∧ v.val ≤ s.maxPerTxLimit.val ∧
        v.val ≤ s.dailyAccountLimit.val - window.spent now ∧
        v.val ≤ s.globalTvlCap.val - currentTvl.val := by
  have hcap := s.globalTvlCap.isLt
  have hdaily := s.dailyAccountLimit.isLt
  constructor
  · intro ⟨newTvl, window', hc⟩
    have hne : v.val ≠ 0 := fun h => hc.amount_ne (Fin.ext h)
    have hper := Fin.le_def.mp hc.amount_le
    have htvl := Fin.le_def.mp hc.newTvl_le
    have hday := Fin.le_def.mp hc.deposited_le
    rw [hc.newTvl_eq] at htvl
    have hspent : window'.depositedInEpoch.val = window.spent now + v.val := hc.deposited_eq
    rw [hspent] at hday
    omega
  · intro ⟨hone, hper, hday, htvl⟩
    -- each sum is below a limit, which is a word
    have hnew : currentTvl.val + v.val < uint256Size := by omega
    have hspent : window.spent now + v.val < uint256Size := by omega
    have hcum : window.totalCumulative.val + v.val < uint256Size := by omega
    refine ⟨⟨_, hnew⟩, ⟨now / epochDuration, ⟨_, hspent⟩, ⟨_, hcum⟩⟩, ?_⟩
    constructor
    · intro h
      rw [h] at hone
      exact absurd hone (by decide)
    · exact Fin.le_def.mpr hper
    · rfl
    · show currentTvl.val + v.val ≤ s.globalTvlCap.val
      omega
    · rfl
    · rfl
    · show window.spent now + v.val ≤ s.dailyAccountLimit.val
      omega
    · rfl

/-! ## The frames -/

theorem deposit_code {m : Message} (hfn : m.fn = .deposit) :
    code this m w = (deposit m (w.credited m.value)).bind fun _ => gasCheck m := by
  have hno : ¬ (m.value ≠ 0 ∧ m.fn.payable = false) := by
    intro h
    rw [hfn] at h
    cases h.2
  rw [code, Code.bind_run, revertIf_neg hno, bind_ret]
  show (dispatch this m (w.credited m.value)).bind (fun _ => gasCheck m) = _
  rw [dispatch, hfn]

/-- A frame of `deposit()` that finds the mutex free. -/
theorem deposit_frame (hu : w.storage.unlocked = 1) :
    ((vault this).frame (depositOf .native user v) inner reply w).1 =
      if w.storage.paused = true then .error .contractPaused
      else match charge w.storage w.now user v (w.storage.counter .native)
          (w.storage.window user .native) with
        | .error e => .error e
        | .ok (newTvl, window) => .ok ((w.credited v).write
            ((w.storage.deposited .native user newTvl window).lock 1)
            (.nativeDeposited user v newTvl window.currentEpoch)) := by
  let m := depositOf .native user v
  show ((vault this).exec m w ((vault this).run inner) reply w (code this m w)).1 = _
  have hcredited : (w.credited m.value).storage = w.storage := rfl
  have hu : (w.credited m.value).storage.unlocked = 1 := hu
  rw [deposit_code rfl, deposit, Code.bind_run, whenNotPaused_run, hcredited]
  split
  · rfl
  · rw [bind_ret, nonReentrant_run hu]
    simp only [Code.bind_run, world_run, bind_ret]
    have hlock : charge ((w.credited m.value).storage.lock 0) (w.credited m.value).now m.sender
        m.value ((w.credited m.value).storage.lock 0).totalDepositedNative
        (((w.credited m.value).storage.lock 0).nativeDepositWindows m.sender) =
      charge w.storage w.now user v (w.storage.counter .native) (w.storage.window user .native) :=
      rfl
    rw [hlock]
    cases charge w.storage w.now user v (w.storage.counter .native)
        (w.storage.window user .native) with
    | error e => rfl
    | ok r => rfl

variable (this) in
/-- Code that does not call the vault leaves its storage alone. -/
theorem run_quiet {x : Script Reply Message Outside} (hx : x.Calls fun _ => False) (w : World) :
    ((vault this).run x w).1.storage = w.storage ∧ ((vault this).run x w).1.now = w.now := by
  have hguarantee : Guarantee (vault this) (fun _ => False)
      (fun u u' => u'.storage = u.storage ∧ u'.now = u.now) fun _ _ => True := by
    constructor
    · exact fun _ => ⟨rfl, rfl⟩
    · exact fun h h' => ⟨h'.1.trans h.1, h'.2.trans h.2⟩
    · exact fun _ => trivial
    · exact fun _ _ => trivial
    · intro o u
      cases o with
      | forceEther amount => exact ⟨rfl, rfl⟩
      | setHeld token f => exact ⟨rfl, rfl⟩
    · exact fun _ _ h => absurd h not_false
  exact (hguarantee.run hx w).1

/-- A deposit that passes its checks goes through. -/
theorem depositOf_passes (hu : w.storage.unlocked = 1) (hasset : asset ≠ .token 0)
    (htransfer : Transfers this inner reply asset) (hp : w.storage.paused = false)
    {newTvl : Uint256} (hc : Charged w.storage w.now v (w.storage.counter asset)
      (w.storage.window user asset) newTvl window) :
    ∃ w', ((vault this).frame (depositOf asset user v) inner reply w).1 = .ok w' ∧
      w'.storage = (w.storage.deposited asset user newTvl window).lock 1 ∧ w'.now = w.now := by
  cases asset with
  | native =>
    rw [deposit_frame hu, if_neg (by rw [hp]; exact Bool.false_ne_true), charge_ok.mpr hc]
    exact ⟨_, rfl, rfl, rfl⟩
  | token token =>
    obtain ⟨hthis, hreply, hquiet⟩ := htransfer
    have h0 : token ≠ 0 := fun h => hasset (by rw [h])
    have hframe := depositToken_frame (m := depositOf (.token token) user v) inner rfl rfl hp hu h0
      hc hreply hthis rfl
    obtain ⟨hstorage, hnow⟩ := run_quiet this hquiet
      (w.charging this (depositOf (.token token) user v) token v newTvl window)
    refine ⟨_, hframe, ?_, ?_⟩
    · show ((vault this).run inner _).1.storage.lock 1 = _
      rw [hstorage]
      rfl
    · exact hnow

/-- A deposit that goes through has passed its checks. -/
theorem depositOf_admitted (hu : w.storage.unlocked = 1)
    (h : ((vault this).frame (depositOf asset user v) inner reply w).1 = .ok w') :
    w.storage.paused = false ∧ ∃ newTvl window, Charged w.storage w.now v
      (w.storage.counter asset) (w.storage.window user asset) newTvl window := by
  cases asset with
  | native =>
    rw [deposit_frame hu] at h
    split at h
    · cases h
    · rename_i hp
      refine ⟨by simpa using hp, ?_⟩
      cases hcharge : charge w.storage w.now user v (w.storage.counter .native)
          (w.storage.window user .native) with
      | error e =>
        rw [hcharge] at h
        cases h
      | ok r => exact ⟨r.1, r.2, charge_ok.mp hcharge⟩
  | token token =>
    obtain ⟨hadmits, _⟩ := depositToken_admitted rfl h
    obtain ⟨r, hcharge⟩ := hadmits.charged
    exact ⟨hadmits.running, r.1, r.2, charge_ok.mp hcharge⟩

/-! ## What a deposit changes -/

theorem window_deposited {newTvl : Uint256} {other : Address} {a : Asset} :
    ((s.deposited asset user newTvl window).lock 1).window other a =
      if other = user ∧ a = asset then window else s.window other a := by
  by_cases ho : other = user
  · by_cases ha : a = asset
    · rw [if_pos ⟨ho, ha⟩, ho, ha]
      cases asset with
      | native => exact Function.update_self ..
      | token token => simp [Storage.window, Storage.lock, Storage.deposited, Storage.withToken]
    · rw [if_neg fun h => ha h.2, ho]
      cases asset with
      | native =>
        cases a with
        | native => exact absurd rfl ha
        | token t => rfl
      | token token =>
        cases a with
        | native => rfl
        | token t =>
          have ht : t ≠ token := fun h => ha (by rw [h])
          simp [Storage.window, Storage.lock, Storage.deposited, Storage.withToken, ht]
  · rw [if_neg fun h => ho h.1]
    cases asset with
    | native =>
      cases a with
      | native => exact Function.update_of_ne ho ..
      | token t => rfl
    | token token =>
      cases a with
      | native => rfl
      | token t => simp [Storage.window, Storage.lock, Storage.deposited, Storage.withToken, ho]

theorem counter_deposited {newTvl : Uint256} {a : Asset} :
    ((s.deposited asset user newTvl window).lock 1).counter a =
      if a = asset then newTvl else s.counter a := by
  cases asset with
  | native =>
    cases a with
    | native => rfl
    | token t => rfl
  | token token =>
    cases a with
    | native => rfl
    | token t =>
      by_cases ht : t = token
      · simp [Storage.counter, Storage.lock, Storage.deposited, Storage.withToken, ht]
      · simp [Storage.counter, Storage.lock, Storage.deposited, Storage.withToken, ht]

theorem limits_deposited {newTvl : Uint256} :
    ((s.deposited asset user newTvl window).lock 1).dailyAccountLimit = s.dailyAccountLimit ∧
    ((s.deposited asset user newTvl window).lock 1).globalTvlCap = s.globalTvlCap := by
  cases asset with
  | native => exact ⟨rfl, rfl⟩
  | token token => exact ⟨rfl, rfl⟩

/-- A value that the views leave room for. -/
def Fits (w : World) (user : Address) (asset : Asset) (v : Uint256) : Prop :=
  1 ≤ v.val ∧ v.val ≤ min w.storage.maxPerTxLimit.val
    (min (remainingDailyLimit w user asset) (remainingTvlCapacity w asset))

/-- Both capacities have dropped by the value, and no other window and no other total changed. -/
structure Took (user : Address) (asset : Asset) (v : Uint256) (w w' : World) : Prop where
  now : w'.now = w.now
  daily : remainingDailyLimit w' user asset + v.val = remainingDailyLimit w user asset
  tvl : remainingTvlCapacity w' asset + v.val = remainingTvlCapacity w asset
  windows : ∀ other a, ¬ (other = user ∧ a = asset) →
    w'.storage.window other a = w.storage.window other a
  totals : ∀ a, a ≠ asset → w'.storage.total a = w.storage.total a

/-- The additions of a deposit fit into a word. -/
structure Adds (w : World) (user : Address) (asset : Asset) (v : Uint256) : Prop where
  total : w.storage.total asset + v.val < uint256Size
  spent : (w.storage.window user asset).spent w.now + v.val < uint256Size
  cumulative : (w.storage.window user asset).totalCumulative.val + v.val < uint256Size

theorem fits_iff (h : Accounts w) : Fits w user asset v ↔ ∃ newTvl window,
    Charged w.storage w.now v (w.storage.counter asset) (w.storage.window user asset) newTvl
      window := by
  rw [charged_iff (h.cumulative_le user asset)]
  unfold Fits
  rw [remainingDailyLimit_eq, remaining_eq, Storage.total_eq, le_min_iff, le_min_iff]

theorem Charged.took {newTvl : Uint256}
    (hc : Charged w.storage w.now v (w.storage.counter asset) (w.storage.window user asset) newTvl
      window)
    (hstorage : w'.storage = (w.storage.deposited asset user newTvl window).lock 1)
    (hnow : w'.now = w.now) : Took user asset v w w' where
  now := hnow
  daily := by
    have hspent : window.depositedInEpoch.val =
        (w.storage.window user asset).spent w.now + v.val := hc.deposited_eq
    have hafter : window.spent w.now = window.depositedInEpoch.val := by
      unfold UserDepositWindow.spent
      rw [if_pos hc.epoch_eq]
    have hday := Fin.le_def.mp hc.deposited_le
    rw [remainingDailyLimit_eq, remainingDailyLimit_eq, hstorage, limits_deposited.1,
      window_deposited, if_pos ⟨rfl, rfl⟩, hnow, hafter]
    omega
  tvl := by
    have hnew := hc.newTvl_eq
    have hcap := Fin.le_def.mp hc.newTvl_le
    rw [remaining_eq, remaining_eq, Storage.total_eq, Storage.total_eq, hstorage,
      limits_deposited.2, counter_deposited, if_pos rfl]
    omega
  windows other a ha := by rw [hstorage, window_deposited, if_neg ha]
  totals a ha := by
    rw [Storage.total_eq, Storage.total_eq, hstorage, counter_deposited, if_neg ha]

theorem Charged.adds {newTvl : Uint256}
    (hc : Charged w.storage w.now v (w.storage.counter asset) (w.storage.window user asset) newTvl
      window) : Adds w user asset v where
  total := by
    rw [Storage.total_eq, ← hc.newTvl_eq]
    exact newTvl.isLt
  spent := by
    have hspent : window.depositedInEpoch.val =
        (w.storage.window user asset).spent w.now + v.val := hc.deposited_eq
    rw [← hspent]
    exact window.depositedInEpoch.isLt
  cumulative := by
    rw [← hc.cumulative_eq]
    exact window.totalCumulative.isLt

/-- The view of an account's limit leaves what it has not spent of it, or nothing. -/
theorem remainingDailyLimit_spent :
    ((w.storage.window user asset).spent w.now < w.storage.dailyAccountLimit.val ∧
      (w.storage.window user asset).spent w.now + remainingDailyLimit w user asset =
        w.storage.dailyAccountLimit.val) ∨
    (w.storage.dailyAccountLimit.val ≤ (w.storage.window user asset).spent w.now ∧
      remainingDailyLimit w user asset = 0) := by
  rw [remainingDailyLimit_eq]
  omega

/-- So does the view of the cap. -/
theorem remainingTvlCapacity_total :
    (w.storage.total asset < w.storage.globalTvlCap.val ∧
      w.storage.total asset + remainingTvlCapacity w asset = w.storage.globalTvlCap.val) ∨
    (w.storage.globalTvlCap.val ≤ w.storage.total asset ∧ remainingTvlCapacity w asset = 0) := by
  rw [remaining_eq]
  omega

end

/-! ## Deposits and views -/

/-- In every state of a deployed vault in which the mutex is free, and at every time: a deposit of
the native coin, or of a token that is not the zero address, goes through exactly when the vault is
not paused and the views leave room for it, and then takes just that room; its additions do not
overflow, and the views do not underflow. -/
theorem deposit_views (this : Address) {H : History} {w₀ p : World} (hw : Deployed w₀)
    (hreach : .control p ∈ (play this H w₀).2) (hfree : p.storage.unlocked = 1) (time : Nat)
    (user : Address) (asset : Asset) (hasset : asset ≠ .token 0) (v : Uint256)
    (inner : Script Reply Message Outside) (reply : Reply)
    (htransfer : Transfers this inner reply asset) :
    let w : World := { p with now := time }
    ((∃ w', ((vault this).frame (depositOf asset user v) inner reply w).1 = .ok w') ↔
      w.storage.paused = false ∧ Fits w user asset v) ∧
    (∀ w', ((vault this).frame (depositOf asset user v) inner reply w).1 = .ok w' →
      Took user asset v w w' ∧ Adds w user asset v) ∧
    (((w.storage.window user asset).spent w.now < w.storage.dailyAccountLimit.val ∧
        (w.storage.window user asset).spent w.now + remainingDailyLimit w user asset =
          w.storage.dailyAccountLimit.val) ∨
      (w.storage.dailyAccountLimit.val ≤ (w.storage.window user asset).spent w.now ∧
        remainingDailyLimit w user asset = 0)) ∧
    ((w.storage.total asset < w.storage.globalTvlCap.val ∧
        w.storage.total asset + remainingTvlCapacity w asset = w.storage.globalTvlCap.val) ∨
      (w.storage.globalTvlCap.val ≤ w.storage.total asset ∧
        remainingTvlCapacity w asset = 0)) := by
  intro w
  obtain ⟨hu₀, hacc₀⟩ := hw.accounts
  have hpoint := (accounts_invariant this).play
    (fun _ _ _ h => ⟨h.native, h.tokens, h.backed⟩) (fun tx _ => tx.2.calls_true)
    (paced_true H _) hu₀ hacc₀
  -- the accounts do not read the time, so they agree at any
  have hacc := (hpoint.2.2 p hreach).1 hfree
  have haccounts : Accounts w := ⟨hacc.native, hacc.tokens, hacc.backed⟩
  have hu : w.storage.unlocked = 1 := hfree
  refine ⟨⟨?_, ?_⟩, ?_, remainingDailyLimit_spent, remainingTvlCapacity_total⟩
  · intro ⟨w', hframe⟩
    obtain ⟨hp, hc⟩ := depositOf_admitted hu hframe
    exact ⟨hp, (fits_iff haccounts).mpr hc⟩
  · intro ⟨hp, hfits⟩
    obtain ⟨newTvl, window, hc⟩ := (fits_iff haccounts).mp hfits
    obtain ⟨w', hframe, _⟩ := depositOf_passes hu hasset htransfer hp hc
    exact ⟨w', hframe⟩
  · intro w' hframe
    obtain ⟨hp, newTvl, window, hc⟩ := depositOf_admitted hu hframe
    obtain ⟨w'', hframe', hstorage, hnow⟩ := depositOf_passes hu hasset htransfer hp hc
    rw [hframe, Except.ok.injEq] at hframe'
    rw [hframe']
    exact ⟨hc.took hstorage hnow, hc.adds⟩

/-- Account 3 deposits 50 into a small vault. -/
theorem deposit_views_small :
    ∃ w', ((vault 9).frame (depositOf .native 3 50) .done ⟨true, []⟩ smallVault).1 = .ok w' := by
  have hreach : Obs.control smallVault ∈ (play 9 [(smallVault.now, .done)] smallVault).2 :=
    List.mem_cons_self
  apply (deposit_views 9 smallVault_deployed hreach rfl smallVault.now 3 .native nofun 50 .done
    ⟨true, []⟩ trivial).1.mpr
  exact ⟨rfl, by decide, by decide⟩

/-- A deposit of 1 of the zero address, for which the views leave room, reverts. -/
theorem depositToken_zero :
    Obs.control smallVault ∈ (play 9 [(smallVault.now, .done)] smallVault).2 ∧
    smallVault.storage.unlocked = 1 ∧ Transfers 9 .done ⟨true, []⟩ (.token 0) ∧
    smallVault.storage.paused = false ∧ Fits smallVault 3 (.token 0) 1 ∧
    ¬ ∃ w', ((vault 9).frame (depositOf (.token 0) 3 1) .done ⟨true, []⟩ smallVault).1 =
      .ok w' := by
  refine ⟨List.mem_cons_self, rfl, ⟨by decide, rfl, trivial⟩, rfl, ⟨by decide, by decide⟩, ?_⟩
  intro ⟨w', h⟩
  cases h

end Ark.LaunchGuardrail
