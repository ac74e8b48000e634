import Ark.LaunchGuardrail.Accounting
import Ark.LaunchGuardrail.Roles

/- The way out.

   Nothing that was done to the vault, in whatever order and from within whatever call,
   keeps its owner from taking the funds out: no pause, no limit, no total and no earlier
   call stands between the owner and a withdrawal that the funds and the callee allow
   (`always_redeemable`). What native deposits are still owed is there to be withdrawn. -/
namespace Ark.LaunchGuardrail
open Ark.Lib.CallTree

/-- A withdrawal by `owner`; a token answers `tokenBal` when it is asked for its balance. -/
def withdrawalOf (owner : Address) (asset : Asset) (recipient : Address) (amount tokenBal : Uint256) :
    Message :=
  match asset with
  | .native => { sender := owner, value := 0, fn := .withdrawNative recipient amount }
  | .token token =>
    { sender := owner, value := 0, fn := .withdrawToken token recipient amount
      balanceOf := fun _ => some tokenBal }

/-- The call that a withdrawal makes. -/
def payment (asset : Asset) (recipient : Address) (amount : Uint256) : Outgoing :=
  match asset with
  | .native => .send recipient amount
  | .token token => .transfer token recipient amount

def withdrawnEvent (asset : Asset) (recipient : Address) (amount : Uint256) : Event :=
  match asset with
  | .native => .nativeWithdrawn recipient amount
  | .token token => .tokenWithdrawn token recipient amount

/-- What is there of an asset, as the vault finds out. -/
def World.available (w : World) (asset : Asset) (tokenBal : Uint256) : Nat :=
  match asset with
  | .native => w.balance
  | .token _ => tokenBal.val

section
variable {this recipient : Address} {asset : Asset} {amount tokenBal : Uint256} {w : World}
  {reply : Reply}

/-- A function that is not payable and gets no value runs in the world as it is. -/
theorem code_unpaid {m : Message} (hv : m.value = 0) :
    code this m w = (dispatch this m w).bind fun _ => gasCheck m := by
  have hno : ¬ (m.value ≠ 0 ∧ m.fn.payable = false) := fun h => h.1 hv
  rw [code, Code.bind_run, revertIf_neg hno, bind_ret]
  show (dispatch this m (w.credited m.value)).bind _ = _
  rw [hv, World.credited_zero]
  rfl

/-- The body of a withdrawal that passed its checks: it calls the recipient or the token, and
goes on when the reply is taken. -/
theorem withdrawal_calls (hu : w.storage.unlocked = 1) (h0 : recipient ≠ 0)
    (hasset : asset ≠ .token 0) (hthis : asset ≠ .token this)
    (hle : amount.val ≤ w.available asset tokenBal) :
    ∃ next, dispatch this (withdrawalOf w.storage.owner asset recipient amount tokenBal) w =
        .body (.call (payment asset recipient amount) { w with storage := w.storage.lock 0 } next) ∧
      ∀ r v, (payment asset recipient amount).accepts r = true →
        next r v = .ret () (v.write (v.storage.lock 1) (withdrawnEvent asset recipient amount)) := by
  cases asset with
  | native =>
    have hb : ¬ w.balance < amount.val := not_lt.mpr hle
    show ∃ next, withdrawNative _ recipient amount w = _ ∧ _
    rw [withdrawNative, Code.bind_run, onlyOwner_run, if_neg (by simp [withdrawalOf]), bind_ret,
      nonReentrant_run hu]
    simp only [Code.bind_run, revertIf_neg h0, bind_ret, world_run, revertIf_neg hb]
    refine ⟨_, rfl, fun r v hr => ?_⟩
    have hno : ¬ r.success = false := by simpa [payment, Outgoing.accepts] using hr
    simp only [bind_ret, Code.bind_run, revertIf_neg hno, emit_run]
    rfl
  | token token =>
    have hne : token ≠ this := fun h => hthis (by rw [h])
    have hzero : ¬ (token = 0 ∨ recipient = 0) := by
      rintro (h | h)
      · exact hasset (by rw [h])
      · exact h0 h
    have hb : ¬ tokenBal < amount := not_lt.mpr hle
    have hbal : ∀ u : World, balanceOf this
        (withdrawalOf w.storage.owner (.token token) recipient amount tokenBal) token u =
          .ret tokenBal u := by
      intro u
      rw [balanceOf, Code.bind_run, world_run, bind_ret, if_neg hne]
      rfl
    show ∃ next, withdrawToken this _ token recipient amount w = _ ∧ _
    rw [withdrawToken, Code.bind_run, onlyOwner_run, if_neg (by simp [withdrawalOf]), bind_ret,
      nonReentrant_run hu]
    simp only [Code.bind_run, revertIf_neg hzero, bind_ret, hbal, revertIf_neg hb]
    refine ⟨_, rfl, fun r v hr => ?_⟩
    simp only [bind_ret, requireTransferred_pos hr, emit_run]
    rfl

/-- The frame of such a withdrawal makes that one call, and ends when its reply is taken. -/
theorem withdrawal_code (hu : w.storage.unlocked = 1) (h0 : recipient ≠ 0) (hasset : asset ≠ .token 0)
    (hthis : asset ≠ .token this) (hle : amount.val ≤ w.available asset tokenBal) :
    ∃ next, code this (withdrawalOf w.storage.owner asset recipient amount tokenBal) w =
        .body (.call (payment asset recipient amount) { w with storage := w.storage.lock 0 } next) ∧
      ∀ r v, (payment asset recipient amount).accepts r = true →
        next r v = .ret () (v.write (v.storage.lock 1) (withdrawnEvent asset recipient amount)) := by
  obtain ⟨next, hbody, hret⟩ := withdrawal_calls hu h0 hasset hthis hle
  have hvalue : (withdrawalOf w.storage.owner asset recipient amount tokenBal).value = 0 := by
    cases asset <;> rfl
  have hgas : (withdrawalOf w.storage.owner asset recipient amount tokenBal).outOfGas = false := by
    cases asset <;> rfl
  rw [code_unpaid hvalue, hbody]
  refine ⟨_, rfl, fun r v hr => ?_⟩
  simp only [hret r v hr, bind_ret, gasCheck_run, hgas]
  rfl

/-- Such a withdrawal ends in what the callee leaves. -/
theorem withdrawal_frame (inner : Script Reply Message Outside) (hu : w.storage.unlocked = 1)
    (h0 : recipient ≠ 0) (hasset : asset ≠ .token 0)
    (hthis : (payment asset recipient amount).callee ≠ this)
    (hle : amount.val ≤ w.available asset tokenBal)
    (hreply : (payment asset recipient amount).accepts reply = true) :
    let v := ((vault this).run inner
      (w.calling (payment asset recipient amount) (w.storage.lock 0))).1
    ((vault this).frame (withdrawalOf w.storage.owner asset recipient amount tokenBal) inner reply
      w).1 = .ok (v.write (v.storage.lock 1) (withdrawnEvent asset recipient amount)) := by
  have htoken : asset ≠ .token this := fun h => hthis (by rw [h]; rfl)
  obtain ⟨next, hcode, hret⟩ := withdrawal_code hu h0 hasset htoken hle
  have hsuccess : (vault this).failed reply = false := by
    simp [vault, accepts_success hreply]
  have hrefused : (vault this).refused (payment asset recipient amount) = none := if_neg hthis
  show ((vault this).exec _ w ((vault this).run inner) reply w (code this _ w)).1 = _
  rw [hcode]
  simp only [Contract.exec, hrefused, hsuccess, Bool.false_eq_true, if_false]
  rw [hret _ _ hreply]
  rfl

/-- **The owner can always withdraw.** After every history of a deployed vault, paused or not,
what was deposited natively is still there or was sent out; and a withdrawal of what is there, of
either kind of asset, by the owner of that moment pays with one call, of the recipient or of the
token's `transfer`. It goes through whenever its callee takes the payment, whatever the callee
calls back: it sends out its amount, leaves every account of the deposits, logs itself and gives
the mutex back. -/
theorem always_redeemable (H : History) {w₀ : World} (hw : Deployed w₀)
    (hend : (play this H w₀).1 = w) (inner : Script Reply Message Outside) (h0 : recipient ≠ 0)
    (hasset : asset ≠ .token 0) (hthis : (payment asset recipient amount).callee ≠ this)
    (hle : amount.val ≤ w.available asset tokenBal)
    (hreply : (payment asset recipient amount).accepts reply = true) :
    w.storage.totalDepositedNative.val ≤ w.balance + w.sent ∧
    (∃ next, code this (withdrawalOf w.storage.owner asset recipient amount tokenBal) w =
        .body (.call (payment asset recipient amount) { w with storage := w.storage.lock 0 } next) ∧
      ∀ r v, (payment asset recipient amount).accepts r = true →
        next r v = .ret () (v.write (v.storage.lock 1) (withdrawnEvent asset recipient amount))) ∧
    ∃ v, ((vault this).frame (withdrawalOf w.storage.owner asset recipient amount tokenBal) inner
        reply w).1 = .ok v ∧
      v.sent = w.sent + (payment asset recipient amount).value ∧
      w.balance ≤ v.balance + (payment asset recipient amount).value ∧
      SameDeposits w.storage v.storage ∧ v.storage.unlocked = 1 ∧
      v.logs.getLast? = some (w.now, withdrawnEvent asset recipient amount) := by
  obtain ⟨hu₀, hacc₀⟩ := hw.accounts
  obtain ⟨hu, hacc, _⟩ := (accounts_invariant this).play
    (fun _ _ _ h => ⟨h.native, h.tokens, h.backed⟩) (fun tx _ => tx.2.calls_true) (paced_true H _)
    hu₀ hacc₀
  rw [hend] at hu hacc
  have htoken : asset ≠ .token this := fun h => hthis (by rw [h]; rfl)
  refine ⟨hacc.backed, withdrawal_code hu h0 hasset htoken hle, _,
    withdrawal_frame inner hu h0 hasset hthis hle hreply, ?_⟩
  let c := payment asset recipient amount
  let u := w.calling c (w.storage.lock 0)
  have hkept := run_kept this inner u
  have hlocked : u.storage.unlocked ≠ 1 := by
    show (0 : Nat) ≠ 1
    decide
  have hfrozen := hkept.locked hlocked
  refine ⟨hfrozen.sent, ?_, ⟨hfrozen.native, hfrozen.tokens, hfrozen.nativeWindows,
    hfrozen.tokenWindows⟩, rfl, ?_⟩
  · have hbalance : w.balance - c.value ≤ ((vault this).run inner u).1.balance := hfrozen.balance
    show w.balance ≤ ((vault this).run inner u).1.balance + c.value
    omega
  · have hnow : ((vault this).run inner u).1.now = w.now := hkept.now
    show (((vault this).run inner u).1.logs ++ [(((vault this).run inner u).1.now, _)]).getLast? = _
    rw [List.getLast?_concat, hnow]

end

/-- The vault is paused after a deposit of 50. -/
def pausedWithFunds : History :=
  [(5, .call { sender := 3, value := 50, fn := .deposit } .done ⟨true, []⟩
      (.call { sender := 2, value := 0, fn := .emergencyPause } .done ⟨true, []⟩ .done))]

/-- Its owner takes the 50 out, and 20 of a token of which it holds 30. -/
theorem pausedWithFunds_redeemable :
    let w := (play 9 pausedWithFunds smallVault).1
    w.storage.paused = true ∧
    (∃ v, ((vault 9).frame (withdrawalOf 1 .native 4 50 0) .done ⟨true, []⟩ w).1 = .ok v ∧
      v.sent = 50) ∧
    (∃ next, code 9 (withdrawalOf 1 (.token 7) 4 20 30) w =
      .body (.call (.transfer 7 4 20) { w with storage := w.storage.lock 0 } next)) ∧
    ∃ v, ((vault 9).frame (withdrawalOf 1 (.token 7) 4 20 30) .done ⟨true, []⟩ w).1 = .ok v ∧
      v.logs.getLast? = some (5, .tokenWithdrawn 7 4 20) := by
  have hthis : (payment .native 4 50).callee ≠ 9 := by decide
  have hreply : (payment .native 4 50).accepts ⟨true, []⟩ = true := rfl
  have hle : (50 : Uint256).val ≤ (play 9 pausedWithFunds smallVault).1.available .native 0 := by
    decide
  obtain ⟨_, _, v, hv, hsent, _⟩ := always_redeemable pausedWithFunds smallVault_deployed rfl .done
    (by decide) (by simp) hthis hle hreply
  have hthis' : (payment (.token 7) 4 20).callee ≠ 9 := by decide
  have hreply' : (payment (.token 7) 4 20).accepts ⟨true, []⟩ = true := rfl
  have hle' : (20 : Uint256).val ≤
      (play 9 pausedWithFunds smallVault).1.available (.token 7) 30 := by decide
  obtain ⟨_, ⟨next, hcode, _⟩, v', hv', _, _, _, _, hlogs⟩ := always_redeemable pausedWithFunds
    smallVault_deployed rfl .done (by decide) (by simp) hthis' hle' hreply'
  exact ⟨rfl, ⟨v, hv, hsent⟩, ⟨next, hcode⟩, v', hv', hlogs⟩

end Ark.LaunchGuardrail
