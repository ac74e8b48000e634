import Mathlib.Data.List.Basic
import Ark.LaunchGuardrail.Runs

/- The total value locked.

   `totalDepositedNative` and `totalDepositedTokens` only grow: a withdrawal
   takes the funds and leaves the counter. `Standard` describes the scripts in
   which an asset moves as its transfers say: no ether is forced in, a token
   moves exactly what it was asked to move, and tells what it holds. In such a
   history the funds and what was withdrawn add up to the counter
   (`play_backed`), so the counter is the value locked as long as nothing was
   withdrawn, and not after that (`tvl_follows_iff`). -/
namespace Ark.LaunchGuardrail
open Ark.Lib.CallTree

/-- What leaves the vault by an event. -/
def Event.withdrawn (this : Address) (asset : Asset) : Event → Nat
  | .nativeWithdrawn _ amount => if asset = .native then amount.val else 0
  | .tokenWithdrawn token recipient amount =>
    if asset = .token token ∧ recipient ≠ this then amount.val else 0
  | _ => 0

def withdrawals (this : Address) (asset : Asset) (logs : List (Nat × Event)) : Nat :=
  (logs.map fun l => l.2.withdrawn this asset).sum

/-! ## Standard scripts -/

/-- An outside act that leaves an asset of the vault alone. -/
def Outside.Spares (asset : Asset) : Outside → Prop
  | .forceEther _ => asset ≠ .native
  | .setHeld token _ => asset ≠ .token token

/-- What a standard token does to the vault's holding when the frame of `m` calls it. -/
def Message.move (this : Address) (asset : Asset) (m : Message) (reply : Reply) :
    Option (Nat → Nat) :=
  if reply.transferred = true then
    match m.fn with
    | .depositToken token amount =>
      if asset = .token token ∧ m.sender ≠ this then some (· + amount.val) else none
    | .withdrawToken token recipient amount =>
      if asset = .token token ∧ recipient ≠ this then some (· - amount.val) else none
    | _ => none
  else none

/-- A token tells what it holds. -/
def Message.Honest (asset : Asset) (m : Message) : Prop :=
  ∀ recipient token amount, m.fn = .withdrawToken token recipient amount → asset = .token token →
    ∀ w tokenBal, m.balanceOf w = some tokenBal → tokenBal.val = w.held token

/-- The asset moves by its transfers only, starting with the move that is due. The vault itself
sends nothing but its own calls. -/
def Standard (this : Address) (asset : Asset) :
    Option (Nat → Nat) → Script Reply Message Outside → Prop
  | none, .done => True
  | none, .outside o next => o.Spares asset ∧ Standard this asset none next
  | none, .call m inner reply next => m.sender ≠ this ∧ m.Honest asset ∧
      Standard this asset (m.move this asset reply) inner ∧ Standard this asset none next
  | none, .attempt inner next => Standard this asset none inner ∧ Standard this asset none next
  | some f, .outside (.setHeld token g) next =>
    asset = .token token ∧ g = f ∧ Standard this asset none next
  | some _, _ => False

/-! ## Backing -/

/-- What is left and what was withdrawn add up to what was deposited. -/
def Backed (this : Address) (asset : Asset) (w : World) : Prop :=
  w.funds asset + withdrawals this asset w.logs = w.storage.total asset

section
variable {this : Address} {asset : Asset} {m : Message} {w v : World} {e : Event} {s : Storage}
  {c : Outgoing}

theorem withdrawals_concat (logs : List (Nat × Event)) (time : Nat) (e : Event) :
    withdrawals this asset (logs ++ [(time, e)]) =
      withdrawals this asset logs + e.withdrawn this asset := by
  simp [withdrawals]

theorem withdrawn_unguarded (h : e.guarded = false) : e.withdrawn this asset = 0 := by
  cases e <;> first | rfl | cases h

/-- Only guarded bodies withdraw. -/
theorem withdrawals_filter (logs : List (Nat × Event)) :
    withdrawals this asset (logs.filter fun l => l.2.guarded) = withdrawals this asset logs := by
  induction logs with
  | nil => rfl
  | cons l logs ih =>
    unfold withdrawals at ih ⊢
    rw [List.filter_cons]
    cases hl : l.2.guarded with
    | true => rw [if_pos rfl, List.map_cons, List.map_cons, List.sum_cons, List.sum_cons, ih]
    | false =>
      rw [if_neg Bool.false_ne_true, List.map_cons, List.sum_cons, ih, withdrawn_unguarded hl]
      omega

theorem Frozen.withdrawals (h : Frozen w v) (this : Address) (asset : Asset) :
    withdrawals this asset v.logs = withdrawals this asset w.logs := by
  rw [← withdrawals_filter, h.logs, withdrawals_filter]

theorem Frozen.total (h : Frozen w v) (asset : Asset) :
    v.storage.total asset = w.storage.total asset := by
  cases asset with
  | native => exact congrArg Fin.val h.native
  | token token => exact congrArg Fin.val (congrFun h.tokens token)

theorem Outside.Spares.moves {o : Outside} (h : o.Spares asset) (n : Nat) :
    o.moves asset n = n := by
  cases o with
  | forceEther amount =>
    cases asset with
    | native => exact absurd rfl h
    | token t => rfl
  | setHeld token f =>
    cases asset with
    | native => rfl
    | token t => exact if_neg fun ht => h (congrArg Asset.token ht)

/-- Code that a locked frame calls moves the asset by what is due, and by nothing else. -/
theorem Standard.fundsAfter {x : Script Reply Message Outside} {due : Option (Nat → Nat)}
    (hx : Standard this asset due x) (n : Nat) : fundsAfter asset x n = due.getD id n := by
  induction x generalizing due n with
  | done =>
    cases due with
    | none => rfl
    | some f => exact hx.elim
  | outside o next ih =>
    cases due with
    | none =>
      obtain ⟨ho, hnext⟩ := hx
      calc LaunchGuardrail.fundsAfter asset (.outside o next) n
          = o.moves asset n := ih hnext _
        _ = n := ho.moves n
    | some f =>
      cases o with
      | forceEther amount => exact hx.elim
      | setHeld token g =>
        obtain ⟨hasset, hg, hnext⟩ := hx
        subst hasset hg
        calc LaunchGuardrail.fundsAfter (.token token) (.outside (.setHeld token g) next) n
            = Outside.moves (.token token) (.setHeld token g) n := ih hnext _
          _ = g n := if_pos rfl
  | call m inner reply next ihi ihn =>
    cases due with
    | none => exact ihn hx.2.2.2 n
    | some f => exact hx.elim
  | attempt inner next ihi ihn =>
    cases due with
    | none => exact ihn hx.2 n
    | some f => exact hx.elim

theorem Backed.admin (h : Backed this asset w) (ha : Admin m.sender w.storage e s) :
    Backed this asset (w.write s e) := by
  have hfrozen := ha.frozen
  unfold Backed at h ⊢
  rw [World.write_funds, hfrozen.withdrawals, hfrozen.total]
  exact h

theorem Backed.deposit {newTvl : Uint256} {window : UserDepositWindow} (h : Backed this asset w)
    (hc : Charged w.storage w.now m.value w.storage.totalDepositedNative
      (w.storage.nativeDepositWindows m.sender) newTvl window) :
    Backed this asset ((w.credited m.value).write
      ((w.storage.withNative m.sender newTvl window).lock 1)
      (.nativeDeposited m.sender m.value newTvl window.currentEpoch)) := by
  unfold Backed at h ⊢
  show World.funds _ asset + withdrawals this asset (w.logs ++ [(w.now, _)]) = _
  rw [withdrawals_concat]
  cases asset with
  | native =>
    have hnew := hc.newTvl_eq
    show w.balance + m.value.val + (withdrawals this .native w.logs + 0) = newTvl.val
    have hold : w.balance + withdrawals this .native w.logs = w.storage.totalDepositedNative.val := h
    omega
  | token t => exact h

/-- A body that called out: what the callee moved is what the body recorded. -/
theorem Backed.calls {reply : Reply} (h : Backed this asset w) (hc : Calls m this w c e s)
    (hsender : m.sender ≠ this) (hhonest : m.Honest asset) (hreply : c.accepts reply = true)
    (hkept : Frozen (w.calling c s) v)
    (hmove : v.funds asset = (m.move this asset reply).getD id ((w.calling c s).funds asset)) :
    Backed this asset (v.write (v.storage.lock 1) e) := by
  have htotal := hkept.total asset
  have hlogs := hkept.withdrawals this asset
  unfold Backed at h ⊢
  show v.funds asset + withdrawals this asset (v.logs ++ [(v.now, e)]) = v.storage.total asset
  rw [withdrawals_concat, htotal, hlogs, hmove]
  cases hc with
  | @depositToken token amount newTvl window hfn hp h0 hc =>
    have htransferred : reply.transferred = true := hreply
    have hnew := hc.newTvl_eq
    cases asset with
    | native => simpa [Message.move, hfn, World.funds, World.calling, Outgoing.value,
        Event.withdrawn, Storage.total, Storage.lock, Storage.withToken] using h
    | token t =>
      -- the deposit moves its own token only
      by_cases ht : t = token
      · subst ht
        have hold : w.held t + withdrawals this (.token t) w.logs =
          (w.storage.totalDepositedTokens t).val := h
        simp only [Message.move, htransferred, hfn, hsender, ne_eq, not_false_eq_true, and_self,
          if_true, Option.getD_some, World.funds, World.calling, Event.withdrawn, Storage.total,
          Storage.lock, Storage.withToken, Function.update_self]
        omega
      · simpa [Message.move, hfn, ht, World.funds, World.calling, Event.withdrawn, Storage.total,
          Storage.lock, Storage.withToken] using h
  | @withdrawNative recipient amount hfn howner h0 hle =>
    cases asset with
    | native =>
      have hold : w.balance + withdrawals this .native w.logs =
        w.storage.totalDepositedNative.val := h
      simp only [Message.move, hfn, ite_self, Option.getD_none, id_eq, World.funds, World.calling,
        Outgoing.value, Event.withdrawn, if_true, Storage.total, Storage.lock]
      omega
    | token t => simpa [Message.move, hfn, World.funds, World.calling, Event.withdrawn,
        Storage.total, Storage.lock] using h
  | @withdrawToken token recipient amount tokenBal hfn howner h0 hthis hbal hle =>
    have htransferred : reply.transferred = true := hreply
    cases asset with
    | native => simpa [Message.move, hfn, World.funds, World.calling, Outgoing.value,
        Event.withdrawn, Storage.total, Storage.lock] using h
    | token t =>
      -- a withdrawal to the vault itself moves nothing
      by_cases ht : t = token ∧ recipient ≠ this
      · obtain ⟨rfl, hrecipient⟩ := ht
        have hold : w.held t + withdrawals this (.token t) w.logs =
          (w.storage.totalDepositedTokens t).val := h
        have hheld : tokenBal.val = w.held t :=
          hhonest _ _ _ hfn rfl { w with storage := w.storage.lock 0 } _ hbal
        have hamount : amount.val ≤ tokenBal.val := hle
        simp only [Message.move, htransferred, hfn, hrecipient, ne_eq, not_false_eq_true, and_self,
          if_true, Option.getD_some, World.funds, World.calling, Event.withdrawn, Storage.total,
          Storage.lock]
        omega
      · simpa [Message.move, hfn, ht, World.funds, World.calling, Event.withdrawn, Storage.total,
          Storage.lock] using h

/-- A standard script keeps the backing. -/
theorem run_backed {x : Script Reply Message Outside} (hx : Standard this asset none x)
    (hu : w.storage.unlocked = 1) (hw : Backed this asset w) :
    Backed this asset ((vault this).run x w).1 := by
  induction x generalizing w with
  | done => exact hw
  | outside o next ih =>
    obtain ⟨ho, hnext⟩ := hx
    have hkept : Backed this asset (o.apply w) := by
      unfold Backed at hw ⊢
      rw [o.apply_funds, ho.moves]
      cases o <;> exact hw
    exact ih hnext ((o.kept w).unlocked.trans hu) hkept
  | call m inner reply next ihi ihn =>
    obtain ⟨hsender, hhonest, hinner, hnext⟩ := hx
    have hends := frame_ends m this inner reply w
    show Backed this asset ((vault this).run next
      (Contract.settle w ((vault this).frame m inner reply w).1)).1
    have hframe : ∀ r, Ends m this reply w (fun v => ((vault this).run inner v).1) r →
        (Contract.settle w r).storage.unlocked = 1 ∧ Backed this asset (Contract.settle w r) := by
      intro r hr
      cases hr with
      | reverts e => exact ⟨hu, hw⟩
      | nothing => exact ⟨hu, hw⟩
      | deposit hfn _ hc => exact ⟨rfl, hw.deposit hc⟩
      | admin ha => exact ⟨ha.unlocked.trans hu, hw.admin ha⟩
      | @calls c e s _ hc hthis hreply =>
        have hlocked : (w.calling c s).storage.unlocked ≠ 1 := by
          show s.unlocked ≠ 1
          rw [hc.unlocked]
          decide
        have hkept : Kept (w.calling c s) ((vault this).run inner (w.calling c s)).1 :=
          (run_kept this inner (w.calling c s))
        -- while the mutex is taken, only the callee moves funds
        have hmove := (run_locked this asset inner hlocked).trans (hinner.fundsAfter _)
        exact ⟨rfl, hw.calls hc hsender hhonest hreply (hkept.locked hlocked) hmove⟩
    obtain ⟨hu', hw'⟩ := hframe _ hends
    exact ihn hnext hu' hw'
  | attempt inner next ihi ihn => exact ihn hx.2 hu hw

theorem play_backed {H : History} (hH : ∀ tx ∈ H, Standard this asset none tx.2)
    (hu : w.storage.unlocked = 1) (hw : Backed this asset w) :
    Backed this asset (play this H w).1 := by
  induction H generalizing w with
  | nil => exact hw
  | cons tx H ih =>
    have hnow : Backed this asset { w with now := tx.1 } := by
      cases asset <;> exact hw
    have hkept := run_kept this tx.2 { w with now := tx.1 }
    apply ih (fun tx htx => hH tx (List.mem_cons_of_mem _ htx))
    · rw [hkept.unlocked]
      exact hu
    · exact run_backed (hH tx List.mem_cons_self) hu hnow

theorem remaining_eq (w : World) (asset : Asset) :
    remainingTvlCapacity w asset = w.storage.globalTvlCap.val - w.storage.total asset := by
  cases asset with
  | native =>
    show getRemainingTvlCapacity w = w.storage.globalTvlCap.val - w.storage.totalDepositedNative.val
    unfold getRemainingTvlCapacity
    split
    · rename_i hle
      have hval : w.storage.globalTvlCap.val ≤ w.storage.totalDepositedNative.val := hle
      omega
    · rfl
  | token t =>
    show getTokenRemainingTvlCapacity w t =
      w.storage.globalTvlCap.val - (w.storage.totalDepositedTokens t).val
    unfold getTokenRemainingTvlCapacity
    simp only
    split
    · rename_i hle
      have hval : w.storage.globalTvlCap.val ≤ (w.storage.totalDepositedTokens t).val := hle
      omega
    · rfl

theorem Deployed.backed (h : Deployed w) (this : Address) (hfunds : w.funds asset = 0) :
    w.storage.unlocked = 1 ∧ Backed this asset w := by
  obtain ⟨owner, guardian, cap, perTx, daily, _, _, _, _, _, hs, _, hlogs⟩ := h.cases
  refine ⟨by rw [hs]; rfl, ?_⟩
  unfold Backed
  rw [hfunds, hlogs, hs]
  cases asset <;> rfl

/-- The counter is what the vault holds, and the views leave what it does not hold. -/
def Follows (asset : Asset) (w : World) : Prop :=
  w.storage.total asset = w.funds asset ∧
    remainingTvlCapacity w asset = w.storage.globalTvlCap.val - w.funds asset

/-- Accounts 3 and 4 deposit 100 each, natively and of token 7; the owner pays one half back. -/
def paidBack : History :=
  let balanceOf : World → Option Uint256 := fun w =>
    if h : w.held 7 < uint256Size then some ⟨w.held 7, h⟩ else none
  [(5, .call { sender := 3, value := 100, fn := .deposit } .done ⟨true, []⟩ .done),
    (5, .call { sender := 4, value := 100, fn := .deposit } .done ⟨true, []⟩ .done),
    (5, .call { sender := 3, value := 0, fn := .depositToken 7 100 }
      (.outside (.setHeld 7 (· + 100)) .done) ⟨true, []⟩ .done),
    (5, .call { sender := 4, value := 0, fn := .depositToken 7 100 }
      (.outside (.setHeld 7 (· + 100)) .done) ⟨true, []⟩ .done),
    (6, .call { sender := 1, value := 0, fn := .withdrawNative 3 100 } .done ⟨true, []⟩ .done),
    (6, .call { sender := 1, value := 0, fn := .withdrawToken 7 3 100, balanceOf := balanceOf }
      (.outside (.setHeld 7 (· - 100)) .done) ⟨true, []⟩ .done)]

theorem paidBack_standard {asset : Asset} (hasset : asset = .native ∨ asset = .token 7) :
    ∀ tx ∈ paidBack, Standard 9 asset none tx.2 := by
  have h39 : (3 : Address) ≠ 9 := by decide
  have h49 : (4 : Address) ≠ 9 := by decide
  have h19 : (1 : Address) ≠ 9 := by decide
  have hval : 100 % uint256Size = 100 := rfl
  cases hasset with
  | inl h =>
    subst h
    simp [paidBack, Standard, Message.move, Message.Honest, Outside.Spares, h39, h49, h19]
  | inr h =>
    subst h
    simp [paidBack, Standard, Message.move, Message.Honest, Reply.transferred, hval, h39, h49, h19]

/-- The vault holds 100 of each and says 200, and that 800 of its cap of 1000 remain. -/
theorem paidBack_diverges : Deployed smallVault ∧
    ∀ asset, asset = .native ∨ asset = .token 7 →
      smallVault.funds asset = 0 ∧ (∀ tx ∈ paidBack, Standard 9 asset none tx.2) ∧
      (play 9 paidBack smallVault).1.funds asset = 100 ∧
      (play 9 paidBack smallVault).1.storage.total asset = 200 ∧
      remainingTvlCapacity (play 9 paidBack smallVault).1 asset = 800 := by
  refine ⟨smallVault_deployed, fun asset hasset => ⟨?_, paidBack_standard hasset, ?_⟩⟩
  · cases asset <;> rfl
  · cases hasset with
    | inl h =>
      subst h
      decide +kernel
    | inr h =>
      subst h
      decide +kernel

/-- In a history that moves an asset by its transfers only, the counter follows what the vault
holds if and only if nothing was withdrawn. -/
theorem tvl_follows_iff (this : Address) {H : History} (hw : Deployed w) (asset : Asset)
    (hfunds : w.funds asset = 0) (hH : ∀ tx ∈ H, Standard this asset none tx.2) :
    Follows asset (play this H w).1 ↔
      ∀ l ∈ (play this H w).1.logs, l.2.withdrawn this asset = 0 := by
  obtain ⟨hu, hbacked⟩ := hw.backed this hfunds
  have hend : Backed this asset (play this H w).1 := play_backed hH hu hbacked
  have hsum : withdrawals this asset (play this H w).1.logs = 0 ↔
      ∀ l ∈ (play this H w).1.logs, l.2.withdrawn this asset = 0 := by
    rw [withdrawals, List.sum_eq_zero_iff_forall_eq_nat, List.forall_mem_map]
  rw [← hsum]
  unfold Backed at hend
  unfold Follows
  rw [remaining_eq]
  constructor
  · intro h
    omega
  · intro h
    omega

theorem paidBack_follows : Follows (.token 7) (play 9 paidBack smallVault).1 ↔
    ∀ l ∈ (play 9 paidBack smallVault).1.logs, l.2.withdrawn 9 (.token 7) = 0 :=
  tvl_follows_iff 9 smallVault_deployed (.token 7) rfl (paidBack_standard (.inr rfl))

end
end Ark.LaunchGuardrail
