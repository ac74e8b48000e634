import Mathlib.Algebra.BigOperators.Group.Finset.Basic
import Mathlib.Algebra.BigOperators.Group.Finset.Piecewise
import Mathlib.Data.Fintype.BigOperators
import Ark.LaunchGuardrail.Runs

/- The vault's accounts under reentrancy.

   `Accounts` says that the windows of all users add up to the totals, for native
   deposits and for every token, that no window counts more in its epoch than in
   all, and that the native balance and what was sent out cover the native total.
   It holds at every point of every history at which outside code has control,
   inside a guarded body too, since a body writes its accounts before it calls
   out (`accounts_invariant`). Bodies never overlap, since none starts while the
   mutex is taken, and a body calls out only then (`code_guarded`). -/
namespace Ark.LaunchGuardrail
open Ark.Lib.CallTree

/-- A sum over all keys, after one key's summand was replaced. -/
theorem sum_update {ι : Type} [Fintype ι] [DecidableEq ι] (g : ι → Nat) (a : ι) (b : Nat) :
    (∑ i, Function.update g a b i) + g a = (∑ i, g i) + b := by
  have ha : a ∈ Finset.univ := Finset.mem_univ a
  calc (∑ i, Function.update g a b i) + g a
      = (b + ∑ i ∈ Finset.univ \ {a}, g i) + g a := by rw [Finset.sum_update_of_mem ha]
    _ = (g a + ∑ i ∈ Finset.univ.erase a, g i) + b := by
        rw [Finset.sdiff_singleton_eq_erase]
        omega
    _ = (∑ i, g i) + b := by rw [Finset.add_sum_erase _ _ ha]

/-- The windows of all users add up to the total, and none counts more in its epoch than in
all. -/
structure Agrees (windows : Address → UserDepositWindow) (total : Uint256) : Prop where
  sum : ∑ user, (windows user).totalCumulative.val = total.val
  window : ∀ user, (windows user).depositedInEpoch ≤ (windows user).totalCumulative

/-- The accounts agree with each other, and with the balance up to what was sent out. -/
structure Accounts (w : World) : Prop where
  native : Agrees w.storage.nativeDepositWindows w.storage.totalDepositedNative
  tokens : ∀ token, Agrees (fun user => w.storage.tokenDepositWindows user token)
    (w.storage.totalDepositedTokens token)
  backed : w.storage.totalDepositedNative.val ≤ w.balance + w.sent

/-- A deposit adds the same amount to its user's window and to the total. -/
theorem Agrees.charge {windows : Address → UserDepositWindow} {total newTvl amount : Uint256}
    {s : Storage} {now : Nat} {window : UserDepositWindow} (h : Agrees windows total)
    (user : Address) (hc : Charged s now amount total (windows user) newTvl window) :
    Agrees (Function.update windows user window) newTvl where
  sum := by
    have hsum := sum_update (fun u => (windows u).totalCumulative.val) user
      window.totalCumulative.val
    have hcomp : ∀ u, (Function.update windows user window u).totalCumulative.val =
        Function.update (fun u => (windows u).totalCumulative.val) user
          window.totalCumulative.val u := by
      intro u
      by_cases hu : u = user
      · subst hu
        simp
      · simp [hu]
    have htotal := h.sum
    have hcum := hc.cumulative_eq
    have hnew := hc.newTvl_eq
    simp only [hcomp]
    omega
  window u := by
    by_cases hu : u = user
    · subst hu
      have hwindow : (windows u).depositedInEpoch.val ≤ (windows u).totalCumulative.val := h.window u
      have hdep := hc.deposited_eq
      have hcum := hc.cumulative_eq
      rw [Function.update_self]
      show window.depositedInEpoch.val ≤ window.totalCumulative.val
      split at hdep
      · omega
      · have hzero : (0 : Uint256).val = 0 := rfl
        omega
    · rw [Function.update_of_ne hu]
      exact h.window u

section
variable {m : Message} {this : Address} {w : World} {e : Event} {s : Storage}

theorem Accounts.admin (h : Accounts w) (ha : Admin m.sender w.storage e s) :
    Accounts (w.write s e) := by
  cases ha <;> exact ⟨h.native, h.tokens, h.backed⟩

theorem Accounts.deposit {newTvl : Uint256} {window : UserDepositWindow} (h : Accounts w)
    (hc : Charged w.storage w.now m.value w.storage.totalDepositedNative
      (w.storage.nativeDepositWindows m.sender) newTvl window) :
    Accounts ((w.credited m.value).write ((w.storage.withNative m.sender newTvl window).lock 1)
      (.nativeDeposited m.sender m.value newTvl window.currentEpoch)) where
  native := h.native.charge _ hc
  tokens := h.tokens
  backed := by
    have hbacked := h.backed
    have hnew := hc.newTvl_eq
    show newTvl.val ≤ w.balance + m.value.val + w.sent
    omega

theorem Accounts.call {c : Outgoing} (h : Accounts w) (hc : Calls m this w c e s) :
    Accounts (w.calling c s) := by
  cases hc with
  | @depositToken token amount newTvl window hfn hp h0 hcharged =>
    refine ⟨h.native, fun t => ?_, ?_⟩
    -- of the windows only the sender's, in this token, is written
    · by_cases ht : t = token
      · subst ht
        have hagrees := (h.tokens t).charge m.sender hcharged
        have hwindows : (fun user => (w.storage.withToken m.sender t newTvl window).tokenDepositWindows
            user t) = Function.update (fun user => w.storage.tokenDepositWindows user t)
              m.sender window := by
          funext user
          by_cases hu : user = m.sender
          · subst hu
            simp [Storage.withToken]
          · simp [Storage.withToken, hu]
        show Agrees (fun user => (w.storage.withToken m.sender t newTvl window).tokenDepositWindows
          user t) ((w.storage.withToken m.sender t newTvl window).totalDepositedTokens t)
        rw [hwindows]
        simpa [Storage.withToken] using hagrees
      · have hwindows : (fun user => (w.storage.withToken m.sender token newTvl
            window).tokenDepositWindows user t) = fun user => w.storage.tokenDepositWindows user t := by
          funext user
          by_cases hu : user = m.sender
          · subst hu
            simp [Storage.withToken, ht]
          · simp [Storage.withToken, hu]
        show Agrees (fun user => (w.storage.withToken m.sender token newTvl
          window).tokenDepositWindows user t)
          ((w.storage.withToken m.sender token newTvl window).totalDepositedTokens t)
        rw [hwindows]
        simpa [Storage.withToken, ht] using h.tokens t
    · have hbacked := h.backed
      show w.storage.totalDepositedNative.val ≤ w.balance - 0 + (w.sent + 0)
      omega
  | @withdrawNative recipient amount hfn howner h0 hb =>
    refine ⟨h.native, h.tokens, ?_⟩
    have hbacked := h.backed
    show w.storage.totalDepositedNative.val ≤ w.balance - amount.val + (w.sent + amount.val)
    omega
  | withdrawToken hfn howner h0 hthis hbal hle =>
    refine ⟨h.native, h.tokens, ?_⟩
    have hbacked := h.backed
    show w.storage.totalDepositedNative.val ≤ w.balance - 0 + (w.sent + 0)
    omega

/-- The accounts agree in every world of every run, whatever calls back. -/
theorem accounts_invariant (this : Address) :
    Invariant this (fun _ => True) Accounts Accounts where
  outside o w := by
    have hkeep : Accounts w → Accounts (o.apply w) := by
      intro h
      cases o with
      | forceEther amount =>
        refine ⟨h.native, h.tokens, ?_⟩
        have hbacked := h.backed
        show w.storage.totalDepositedNative.val ≤ w.balance + amount + w.sent
        omega
      | setHeld token amount => exact ⟨h.native, h.tokens, h.backed⟩
    exact ⟨hkeep, hkeep⟩
  admin _ ha := ⟨fun h => h.admin ha, fun h => h.admin ha⟩
  deposit _ _ _ hc h := h.deposit hc
  call _ _ hc h := h.call hc
  back _ _ _ _ _ h := ⟨h.native, h.tokens, h.backed⟩

/-! ## Guarded bodies -/

/-- While the mutex is taken no body starts; a body calls out with the mutex taken. -/
theorem code_guarded :
    (code this m w).Guarded (vault this) (fun w => w.storage.unlocked ≠ 1) false ∧
    (w.storage.unlocked ≠ 1 →
      (code this m w).Guarded (vault this) (fun w => w.storage.unlocked ≠ 1) true) := by
  have hdoes : Does m this w (code this m w) := code_does
  generalize code this m w = st at hdoes ⊢
  cases hdoes with
  | reverts e => exact ⟨trivial, fun _ => trivial⟩
  | bodyReverts e hu => exact ⟨⟨rfl, trivial⟩, fun hno => absurd hu hno⟩
  | nothing => exact ⟨trivial, fun _ => trivial⟩
  | deposit hfn hgas hu hp hc => exact ⟨⟨rfl, trivial⟩, fun hno => absurd hu hno⟩
  | admin hgas ha => exact ⟨trivial, fun _ => trivial⟩
  | @calls c e s next hu hcalls hret hrev =>
    refine ⟨⟨rfl, ?_⟩, fun hno => absurd hu hno⟩
    -- whatever the reply is, the rest of the body calls nobody
    have hnext : ∀ r v, (next r v).Guarded (vault this) (fun w => w.storage.unlocked ≠ 1) true := by
      intro r v
      by_cases hok : c.accepts r = true ∧ m.outOfGas = false
      · rw [hret r v hok.1 hok.2]
        trivial
      · obtain ⟨err, herr⟩ := hrev r v hok
        rw [herr]
        trivial
    unfold Step.Guarded
    cases (vault this).refused c with
    | some r => exact hnext r _
    | none =>
      refine ⟨fun _ => ?_, hnext⟩
      show s.unlocked ≠ 1
      rw [hcalls.unlocked]
      decide

theorem run_separate_vault (this : Address) (x : Script Reply Message Outside) (w : World) :
    Separate ((vault this).run x w).2 :=
  run_separate (accounts_invariant this).guarantee (fun _ _ h hno => h.1.unlocked ▸ hno)
    (fun _ _ hno => code_guarded.2 hno) (fun _ _ => code_guarded.1) x.calls_true w

theorem play_separate (this : Address) (H : History) (w : World) :
    Separate (play this H w).2 := by
  induction H generalizing w with
  | nil => exact Quiet.separate (by simp [play, Quiet])
  | cons tx H ih => exact (run_separate_vault this tx.2 _).append (ih _)

theorem Deployed.accounts (h : Deployed w) : w.storage.unlocked = 1 ∧ Accounts w := by
  obtain ⟨owner, guardian, cap, perTx, daily, _, _, _, _, _, hs, hsent, _⟩ := h.cases
  have hempty : Agrees (fun _ => ⟨0, 0, 0⟩) 0 := ⟨by simp, fun _ => le_refl _⟩
  rw [hs]
  refine ⟨rfl, ?_, fun token => ?_, ?_⟩
  · rw [hs]
    exact hempty
  · rw [hs]
    exact hempty
  · rw [hs]
    exact Nat.zero_le _

end

/-- A deposit of token 7, whose contract calls back into both deposits and then returns nothing. -/
def callingBack : History :=
  [(5, .call { sender := 3, value := 0, fn := .depositToken 7 50 }
    (.call { sender := 7, value := 10, fn := .deposit } .done ⟨true, []⟩
      (.call { sender := 7, value := 0, fn := .depositToken 7 1 } .done ⟨true, []⟩
        (.outside (.setHeld 7 (· + 50)) .done)))
    ⟨true, []⟩ .done)]

/-- Whatever tokens and recipients call back, in every history of a deployed vault: a guarded
body starts only after every body started before has ended; the mutex is free at the end, for
every way to cut the history off; and whenever outside code has control the accounts agree. -/
theorem reentrancy_safe (this : Address) (H : History) {w : World} (hw : Deployed w) :
    Apart (play this H w).2 ∧ (play this H w).1.storage.unlocked = 1 ∧
      ∀ p, .control p ∈ (play this H w).2 → Accounts p := by
  obtain ⟨hu, hacc⟩ := hw.accounts
  obtain ⟨hend, _, hpoints⟩ := (accounts_invariant this).play (fun _ _ _ h => ⟨h.native, h.tokens, h.backed⟩)
    (fun tx _ => tx.2.calls_true) (paced_true H _) hu hacc
  refine ⟨(play_separate this H w).1, hend, fun p hp => ?_⟩
  have hp := hpoints p hp
  by_cases hmutex : p.storage.unlocked = 1
  · exact hp.1 hmutex
  · exact hp.2 hmutex

theorem callingBack_safe :
    Apart (play 9 callingBack smallVault).2 ∧
    (play 9 callingBack smallVault).1.storage.unlocked = 1 ∧
    ∀ p, .control p ∈ (play 9 callingBack smallVault).2 → Accounts p :=
  reentrancy_safe 9 callingBack smallVault_deployed

end Ark.LaunchGuardrail
