import Ark.LaunchGuardrail.Runs

/- Token deposits and what tokens do.

   `depositToken` records the amount before it calls the token, and takes the
   call's word for it: a call that succeeds with no data, or with `true`. It never
   looks at what the vault holds. An address without code is such a token, and so
   is one that keeps a fee; a deposit is exact just when the token's own code
   changes the vault's holding by the amount (`depositToken_exact_iff`). -/
namespace Ark.LaunchGuardrail
open Ark.Lib.CallTree Ark.Lib.Checks

/-- The vault's own checks let a token deposit through. -/
structure Admits (m : Message) (token : Address) (amount : Uint256) (w : World) : Prop where
  unpaid : m.value = 0
  unlocked : w.storage.unlocked = 1
  running : w.storage.paused = false
  charged : ∃ r, charge w.storage w.now m.sender amount (w.storage.totalDepositedTokens token)
    (w.storage.tokenDepositWindows m.sender token) = .ok r

/-- A deposit recorded what the vault received, in the total and in the sender's window. -/
def Recorded (m : Message) (token : Address) (w w' : World) : Prop :=
  let window := w.storage.tokenDepositWindows m.sender token
  let window' := w'.storage.tokenDepositWindows m.sender token
  ∃ added,
    w'.held token = w.held token + added ∧
    (w'.storage.totalDepositedTokens token).val =
      (w.storage.totalDepositedTokens token).val + added ∧
    window'.totalCumulative.val = window.totalCumulative.val + added ∧
    window'.depositedInEpoch.val = (if window.currentEpoch = w.now / epochDuration then
      window.depositedInEpoch else 0).val + added

section
variable {m : Message} {this token : Address} {amount : Uint256} {w : World}
  {inner : Script Reply Message Outside} {reply : Reply}

/-- The world after a deposit that went through: the amount is in the accounts, and the vault holds
what the token's code made of its holding. -/
structure Deposited (m : Message) (token : Address) (amount : Uint256)
    (inner : Script Reply Message Outside) (w w' : World) : Prop where
  held : w'.held token = fundsAfter (.token token) inner (w.held token)
  total : (w'.storage.totalDepositedTokens token).val =
    (w.storage.totalDepositedTokens token).val + amount.val
  cumulative : (w'.storage.tokenDepositWindows m.sender token).totalCumulative.val =
    (w.storage.tokenDepositWindows m.sender token).totalCumulative.val + amount.val
  inEpoch : (w'.storage.tokenDepositWindows m.sender token).depositedInEpoch.val =
    (if (w.storage.tokenDepositWindows m.sender token).currentEpoch = w.now / epochDuration then
      (w.storage.tokenDepositWindows m.sender token).depositedInEpoch else 0).val + amount.val

theorem depositToken_code (hfn : m.fn = .depositToken token amount) (hv : m.value = 0) :
    code this m w = (depositToken this m token amount w).bind fun _ => gasCheck m := by
  have hno : ¬ (m.value ≠ 0 ∧ m.fn.payable = false) := fun h => h.1 hv
  have hw : w.credited m.value = w := by rw [hv, World.credited_zero]
  rw [code, Code.bind_run, revertIf_neg hno, bind_ret]
  show (dispatch this m (w.credited m.value)).bind (fun _ => gasCheck m) = _
  rw [hw, dispatch, hfn]

/-- The world in which the token gets control: the accounts are written, and the mutex is taken. -/
def World.charging (w : World) (this : Address) (m : Message) (token : Address) (amount newTvl : Uint256)
    (window : UserDepositWindow) : World :=
  w.calling (.transferFrom token m.sender this amount)
    ((w.storage.withToken m.sender token newTvl window).lock 0)

/-- A token deposit that passed its checks ends in what the token's code leaves. -/
theorem depositToken_frame (inner : Script Reply Message Outside) {newTvl : Uint256}
    {window : UserDepositWindow} (hfn : m.fn = .depositToken token amount) (hv : m.value = 0)
    (hp : w.storage.paused = false) (hu : w.storage.unlocked = 1) (h0 : token ≠ 0)
    (hc : Charged w.storage w.now amount (w.storage.totalDepositedTokens token)
      (w.storage.tokenDepositWindows m.sender token) newTvl window)
    (hreply : reply.transferred = true) (hthis : token ≠ this) (hgas : m.outOfGas = false) :
    let v := ((vault this).run inner (w.charging this m token amount newTvl window)).1
    ((vault this).frame m inner reply w).1 = .ok (v.write (v.storage.lock 1)
      (.tokenDeposited m.sender token amount newTvl window.currentEpoch)) := by
  obtain ⟨next, hbody, hret, _⟩ := depositToken_charged (m := m) this hp hu h0 hc
  have hsuccess : (vault this).failed reply = false := by
    simp [vault, (Bool.and_eq_true_iff.mp hreply).1]
  have hrefused : (vault this).refused (.transferFrom token m.sender this amount) = none :=
    if_neg hthis
  show ((vault this).exec m w ((vault this).run inner) reply w (code this m w)).1 = _
  rw [depositToken_code hfn hv, hbody]
  simp only [Step.bind, Contract.exec, hrefused, hsuccess, Bool.false_eq_true, if_false]
  rw [hret _ _ hreply, bind_ret, gasCheck_run, hgas]
  rfl

/-- A token deposit goes through when the vault admits it, the token is not the vault, its reply is
taken and the gas suffices. -/
theorem depositToken_passes (inner : Script Reply Message Outside)
    (hfn : m.fn = .depositToken token amount) (h0 : token ≠ 0)
    (ha : Admits m token amount w) (hreply : reply.transferred = true) (hthis : token ≠ this)
    (hgas : m.outOfGas = false) :
    ∃ w', ((vault this).frame m inner reply w).1 = .ok w' ∧ Deposited m token amount inner w w' := by
  obtain ⟨⟨newTvl, window⟩, hcharge⟩ := ha.charged
  have hc := charge_ok.mp hcharge
  have hframe := depositToken_frame inner hfn ha.unpaid ha.running ha.unlocked h0 hc hreply hthis hgas
  let c : Outgoing := .transferFrom token m.sender this amount
  let s : Storage := (w.storage.withToken m.sender token newTvl window).lock 0
  let v : World := ((vault this).run inner (w.calling c s)).1
  have hlocked : (w.calling c s).storage.unlocked ≠ 1 := by
    show (0 : Nat) ≠ 1
    decide
  have hfrozen := (run_kept this inner (w.calling c s)).locked hlocked
  have htotal : v.storage.totalDepositedTokens token = newTvl :=
    (congrFun hfrozen.tokens token).trans (Function.update_self ..)
  have hwindow : v.storage.tokenDepositWindows m.sender token = window := by
    have hs : s.tokenDepositWindows m.sender token = window := by
      simp [s, Storage.lock, Storage.withToken]
    exact (congrFun (congrFun hfrozen.tokenWindows m.sender) token).trans hs
  refine ⟨_, hframe, ?_, ?_, ?_, ?_⟩
  · exact run_locked this (.token token) inner hlocked
  · show (v.storage.totalDepositedTokens token).val = _
    rw [htotal, hc.newTvl_eq]
  · show (v.storage.tokenDepositWindows m.sender token).totalCumulative.val = _
    rw [hwindow, hc.cumulative_eq]
  · show (v.storage.tokenDepositWindows m.sender token).depositedInEpoch.val = _
    rw [hwindow, hc.deposited_eq]

/-- A token deposit that goes through was admitted, and its reply was taken. -/
theorem depositToken_admitted (hfn : m.fn = .depositToken token amount) {w' : World}
    (h : ((vault this).frame m inner reply w).1 = .ok w') :
    Admits m token amount w ∧ reply.transferred = true ∧ token ≠ this ∧ m.outOfGas = false := by
  have hframe : ((vault this).exec m w ((vault this).run inner) reply w (code this m w)).1 = .ok w' := h
  have hv : m.value = 0 := by
    by_contra hv
    have hno : m.value ≠ 0 ∧ m.fn.payable = false := ⟨hv, by rw [hfn]; rfl⟩
    rw [code, Code.bind_run, revertIf_pos hno, bind_revert] at hframe
    cases hframe
  -- the body reverts, or calls the token: then its reply was taken
  have hopens : Opens m this w (depositToken this m token amount w) := depositToken_opens hfn
  rw [depositToken_code hfn hv] at hframe
  obtain ⟨e, he⟩ | ⟨_, e, he⟩ | ⟨hu, c, e, s, next, hcalls, he, hret, hrev⟩ := hopens
  · rw [he] at hframe
    cases hframe
  · rw [he] at hframe
    cases hframe
  · rw [he] at hframe
    cases hcalls with
    | withdrawNative hfn' => rw [hfn] at hfn'; cases hfn'
    | withdrawToken hfn' => rw [hfn] at hfn'; cases hfn'
    | @depositToken token' amount' newTvl window hfn' hp h0 hc =>
      rw [hfn] at hfn'
      cases hfn'
      refine ⟨⟨hv, hu, hp, ⟨_, charge_ok.mpr hc⟩⟩, ?_⟩
      by_cases hthis : token = this
      · have hrefused : (vault this).refused (.transferFrom token m.sender this amount) =
          some ⟨false, []⟩ := if_pos hthis
        obtain ⟨err, herr⟩ := hrev ⟨false, []⟩ { w with storage :=
          (w.storage.withToken m.sender token newTvl window).lock 0 } rfl
        simp only [Step.bind, Contract.exec, hrefused, herr] at hframe
        cases hframe
      · have hrefused : (vault this).refused (.transferFrom token m.sender this amount) = none :=
          if_neg hthis
        simp only [Step.bind, Contract.exec, hrefused] at hframe
        cases hreply : reply.transferred with
        | false =>
          obtain ⟨err, herr⟩ := hrev reply (if (vault this).failed reply = true then { w with
            storage := (w.storage.withToken m.sender token newTvl window).lock 0 } else
            ((vault this).run inner ((vault this).enter (.transferFrom token m.sender this amount)
              { w with storage := (w.storage.withToken m.sender token newTvl window).lock 0 })).1)
            hreply
          rw [herr] at hframe
          cases hframe
        | true =>
          refine ⟨rfl, hthis, ?_⟩
          rw [hret _ _ hreply, bind_ret, gasCheck_run] at hframe
          cases hgas : m.outOfGas with
          | false => rfl
          | true =>
            rw [hgas] at hframe
            cases hframe

/-- An account deposits token 7, an address without code, or a token that keeps a fee of 1. -/
def depositOfToken : Message := { sender := 3, value := 0, fn := .depositToken 7 50 }

/-- A call to an address without code succeeds and returns nothing: the deposit is recorded, and
the vault has nothing of it. A token that keeps a fee does the same to a part of it. -/
theorem depositOfToken_phantom :
    (∃ w', ((vault 9).frame depositOfToken .done ⟨true, []⟩ smallVault).1 = .ok w' ∧
      w'.held 7 = smallVault.held 7 ∧
      (w'.storage.totalDepositedTokens 7).val = (smallVault.storage.totalDepositedTokens 7).val + 50 ∧
      ¬ Recorded depositOfToken 7 smallVault w') ∧
    ∃ w', ((vault 9).frame depositOfToken (.outside (.setHeld 7 (· + 49)) .done) ⟨true, []⟩
        smallVault).1 = .ok w' ∧ ¬ Recorded depositOfToken 7 smallVault w' := by
  constructor
  · refine ⟨_, rfl, rfl, rfl, ?_⟩
    intro ⟨added, hheld, htotal, _⟩
    have hzero : 0 = 0 + added := hheld
    have hfifty : 50 = 0 + added := htotal
    omega
  · refine ⟨_, rfl, ?_⟩
    intro ⟨added, hheld, htotal, _⟩
    have hreceived : 49 = 0 + added := hheld
    have hfifty : 50 = 0 + added := htotal
    omega

/-- A frame of `depositToken` with any token, in any world: it records what the vault received or
reverts with nothing changed, if and only if, where the vault admits the deposit and takes the
token's reply, the token's code changed the vault's holding by exactly the amount. -/
theorem depositToken_exact_iff (hfn : m.fn = .depositToken token amount) (h0 : token ≠ 0) :
    ((∀ w', ((vault this).frame m inner reply w).1 = .ok w' → Recorded m token w w') ∧
      ∀ e, ((vault this).frame m inner reply w).1 = .error e →
        Contract.settle w ((vault this).frame m inner reply w).1 = w) ↔
    (Admits m token amount w → reply.transferred = true → token ≠ this → m.outOfGas = false →
      fundsAfter (.token token) inner (w.held token) = w.held token + amount.val) := by
  constructor
  · intro h ha hreply hthis hgas
    obtain ⟨w', hw', hd⟩ := depositToken_passes inner hfn h0 ha hreply hthis hgas
    obtain ⟨added, hheld, htotal, _⟩ := h.1 w' hw'
    have hsum := hd.total
    have hfunds := hd.held
    omega
  · intro h
    refine ⟨fun w' hw' => ?_, fun e he => by rw [he]; rfl⟩
    obtain ⟨ha, hreply, hthis, hgas⟩ := depositToken_admitted hfn hw'
    obtain ⟨w'', hw'', hd⟩ := depositToken_passes inner hfn h0 ha hreply hthis hgas
    rw [hw'] at hw''
    cases hw''
    exact ⟨amount.val, hd.held.trans (h ha hreply hthis hgas), hd.total, hd.cumulative, hd.inEpoch⟩

end

theorem depositOfToken_exact :
    ((∀ w', ((vault 9).frame depositOfToken (.outside (.setHeld 7 (· + 50)) .done) ⟨true, []⟩
        smallVault).1 = .ok w' → Recorded depositOfToken 7 smallVault w') ∧
      ∀ e, ((vault 9).frame depositOfToken (.outside (.setHeld 7 (· + 50)) .done) ⟨true, []⟩
        smallVault).1 = .error e → Contract.settle smallVault ((vault 9).frame depositOfToken
          (.outside (.setHeld 7 (· + 50)) .done) ⟨true, []⟩ smallVault).1 = smallVault) ↔
    (Admits depositOfToken 7 50 smallVault → (⟨true, []⟩ : Reply).transferred = true →
      (7 : Address) ≠ 9 → depositOfToken.outOfGas = false →
      fundsAfter (.token 7) (.outside (.setHeld 7 (· + 50)) .done) (smallVault.held 7) =
        smallVault.held 7 + (50 : Uint256).val) :=
  depositToken_exact_iff rfl (by decide)

end Ark.LaunchGuardrail
