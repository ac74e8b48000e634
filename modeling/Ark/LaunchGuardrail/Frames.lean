import Mathlib.Tactic.Linarith
import Ark.LaunchGuardrail

/- What one frame of the vault does.

   `charge_ok` and `validateLimits_ok` read the two chains of checks backwards.
   `Does` lists all that a frame can do from a world: revert, before or inside a
   guarded body; nothing; one of the six administrative writes; a native deposit;
   or take the mutex, write, and call out, after which it either reverts or logs
   its event and gives the mutex back. `code_does` proves the list complete, so
   nothing later unfolds the code. -/
namespace Ark.LaunchGuardrail
open Ark.Lib.CallTree Ark.Lib.Checks

/-! ## Checks -/

theorem checkedAdd_ok {a b c : Uint256} : checkedAdd a b = .ok c ↔ c.val = a.val + b.val := by
  unfold checkedAdd
  split
  · rw [Except.ok.injEq, Fin.ext_iff, eq_comm]
  · rename_i h
    have := c.isLt
    constructor
    · intro h'
      cases h'
    · intro h'
      omega

/-- What `charge` has checked when it does not revert, and what it returns. -/
structure Charged (s : Storage) (now : Nat) (amount currentTvl : Uint256)
    (window : UserDepositWindow) (newTvl : Uint256) (window' : UserDepositWindow) : Prop where
  amount_ne : amount ≠ 0
  amount_le : amount ≤ s.maxPerTxLimit
  newTvl_eq : newTvl.val = currentTvl.val + amount.val
  newTvl_le : newTvl ≤ s.globalTvlCap
  epoch_eq : window'.currentEpoch = now / epochDuration
  deposited_eq : window'.depositedInEpoch.val =
    (if window.currentEpoch = now / epochDuration then window.depositedInEpoch else 0).val +
      amount.val
  deposited_le : window'.depositedInEpoch ≤ s.dailyAccountLimit
  cumulative_eq : window'.totalCumulative.val = window.totalCumulative.val + amount.val

theorem charge_ok {s : Storage} {now : Nat} {user : Address} {amount currentTvl newTvl : Uint256}
    {window window' : UserDepositWindow} :
    charge s now user amount currentTvl window = .ok (newTvl, window') ↔
      Charged s now amount currentTvl window newTvl window' := by
  simp only [charge, bind_ok, failIf_ok, checkedAdd_ok, pure_ok, Prod.mk.injEq, exists_const, not_lt]
  constructor
  · intro h
    obtain ⟨h₁, h₂, _, h₃, h₄, d, h₅, h₆, c, h₇, rfl, rfl⟩ := h
    exact ⟨h₁, h₂, h₃, h₄, rfl, h₅, h₆, h₇⟩
  · intro h
    obtain ⟨e, d, c⟩ := window'
    have he := h.epoch_eq
    simp only at he
    subst he
    exact ⟨h.amount_ne, h.amount_le, newTvl, h.newTvl_eq, h.newTvl_le, d, h.deposited_eq,
      h.deposited_le, c, h.cumulative_eq, rfl, rfl⟩

theorem validateLimits_ok {cap perTx daily : Uint256} :
    validateLimits cap perTx daily = .ok () ↔ 0 < perTx ∧ perTx ≤ daily ∧ daily ≤ cap := by
  simp only [validateLimits, bind_ok, failIf_ok, exists_const, not_or, not_lt]
  constructor
  · intro h
    exact ⟨Fin.pos_iff_ne_zero.mpr h.1.2.1, h.2.1, h.2.2⟩
  · intro h
    obtain ⟨hpos, hdaily, hcap⟩ := h
    have hd := lt_of_lt_of_le hpos hdaily
    have hc := lt_of_lt_of_le hd hcap
    exact ⟨⟨Fin.pos_iff_ne_zero.mp hc, Fin.pos_iff_ne_zero.mp hpos, Fin.pos_iff_ne_zero.mp hd⟩,
      hdaily, hcap⟩

/-- What a deployment has checked, and what it leaves. -/
theorem Deployed.cases {w : World} (h : Deployed w) : ∃ owner guardian cap perTx daily,
    owner ≠ 0 ∧ guardian ≠ 0 ∧ 0 < perTx ∧ perTx ≤ daily ∧ daily ≤ cap ∧
    w.storage = .initial owner guardian cap perTx daily ∧ w.sent = 0 ∧
    w.logs = [(w.now, .ownershipTransferred 0 owner), (w.now, .guardianUpdated 0 guardian),
      (w.now, .limitsUpdated cap perTx daily)] := by
  obtain ⟨owner, guardian, cap, perTx, daily, events, hc, hlogs, hsent⟩ := h
  simp only [construct, bind_ok, failIf_ok, pure_ok, exists_const, Prod.mk.injEq, not_or] at hc
  obtain ⟨⟨howner, hguardian⟩, _, hlimits, hs, rfl⟩ := hc
  obtain ⟨hpos, hdaily, hcap⟩ := validateLimits_ok.mp hlimits
  exact ⟨owner, guardian, cap, perTx, daily, howner, hguardian, hpos, hdaily, hcap, hs.symm, hsent,
    hlogs⟩

/-- A vault with a cap of 1000, a limit of 100 for each transaction and of 200 for a day. -/
def smallVault : World where
  storage := .initial 1 2 1000 100 200
  balance := 0
  held := fun _ => 0
  now := 0
  logs := [(0, .ownershipTransferred 0 1), (0, .guardianUpdated 0 2), (0, .limitsUpdated 1000 100 200)]
  sent := 0

theorem smallVault_deployed : Deployed smallVault := ⟨1, 2, 1000, 100, 200, _, rfl, rfl, rfl⟩

/-! ## Running the code -/

section Running
variable {α β : Type} {w : World}

theorem storage_run : storage w = .ret w.storage w := rfl

theorem world_run : world w = .ret w w := rfl

theorem setStorage_run {s : Storage} : setStorage s w = .ret () { w with storage := s } := rfl

theorem emit_run {e : Event} :
    emit e w = .ret () { w with logs := w.logs ++ [(w.now, e)] } := rfl

theorem revertIf_pos {c : Prop} [Decidable c] {e : Revert} (h : c) :
    revertIf c e w = .revert e := by
  rw [revertIf, if_pos h]
  rfl

theorem revertIf_neg {c : Prop} [Decidable c] {e : Revert} (h : ¬ c) :
    revertIf c e w = .ret () w := by
  rw [revertIf, if_neg h]
  rfl

theorem bind_ret {a : α} {f : α → World → Step World Outgoing Reply Revert β} :
    (Step.ret a w : Step World Outgoing Reply Revert α).bind f = f a w := rfl

theorem bind_revert {e : Revert} {f : α → World → Step World Outgoing Reply Revert β} :
    (Step.revert e : Step World Outgoing Reply Revert α).bind f = .revert e := rfl

end Running

/-! ## What a frame does -/

/-- The world once the value of a call arrived. -/
def World.credited (w : World) (value : Uint256) : World :=
  { w with balance := w.balance + value.val }

/-- The world after a write and its event. -/
def World.write (w : World) (s : Storage) (e : Event) : World :=
  { w with storage := s, logs := w.logs ++ [(w.now, e)] }

def Storage.lock (s : Storage) (n : Nat) : Storage := { s with unlocked := n }

/-- The administrative writes. -/
inductive Admin (sender : Address) (s : Storage) : Event → Storage → Prop where
  | emergencyPause : sender = s.owner ∨ sender = s.emergencyGuardian → s.paused = false →
      Admin sender s (.emergencyPaused sender) { s with paused := true }
  | unpause : sender = s.owner → s.paused = true →
      Admin sender s (.emergencyUnpaused sender) { s with paused := false }
  | setLimits {cap perTx daily : Uint256} : sender = s.owner →
      0 < perTx → perTx ≤ daily → daily ≤ cap →
      Admin sender s (.limitsUpdated cap perTx daily)
        { s with globalTvlCap := cap, maxPerTxLimit := perTx, dailyAccountLimit := daily }
  | setGuardian {newGuardian : Address} : sender = s.owner → newGuardian ≠ 0 →
      Admin sender s (.guardianUpdated s.emergencyGuardian newGuardian)
        { s with emergencyGuardian := newGuardian }
  | transferOwnership {newOwner : Address} : sender = s.owner → newOwner ≠ 0 →
      Admin sender s (.ownershipTransferStarted s.owner newOwner)
        { s with pendingOwner := newOwner }
  | acceptOwnership : sender = s.pendingOwner →
      Admin sender s (.ownershipTransferred s.owner s.pendingOwner)
        { s with owner := s.pendingOwner, pendingOwner := 0 }

/-- What a guarded body has done when it calls out: the call, the event to come, and the
storage it left. -/
inductive Calls (m : Message) (this : Address) (w : World) :
    Outgoing → Event → Storage → Prop where
  | depositToken {token : Address} {amount newTvl : Uint256} {window : UserDepositWindow} :
      m.fn = .depositToken token amount → w.storage.paused = false → token ≠ 0 →
      Charged w.storage w.now amount (w.storage.totalDepositedTokens token)
        (w.storage.tokenDepositWindows m.sender token) newTvl window →
      Calls m this w (.transferFrom token m.sender this amount)
        (.tokenDeposited m.sender token amount newTvl window.currentEpoch)
        ((w.storage.withToken m.sender token newTvl window).lock 0)
  | withdrawNative {recipient : Address} {amount : Uint256} :
      m.fn = .withdrawNative recipient amount → m.sender = w.storage.owner → recipient ≠ 0 →
      amount.val ≤ w.balance →
      Calls m this w (.send recipient amount) (.nativeWithdrawn recipient amount)
        (w.storage.lock 0)
  | withdrawToken {token recipient : Address} {amount tokenBal : Uint256} :
      m.fn = .withdrawToken token recipient amount → m.sender = w.storage.owner →
      recipient ≠ 0 → token ≠ this → m.balanceOf { w with storage := w.storage.lock 0 } = some tokenBal →
      amount ≤ tokenBal →
      Calls m this w (.transfer token recipient amount) (.tokenWithdrawn token recipient amount)
        (w.storage.lock 0)

/-- A token's reply is taken when the call succeeded and returned nothing or `true`. -/
def Reply.transferred (r : Reply) : Bool :=
  r.success && (r.data.isEmpty || decodeBool r.data = some true)

/-- The replies after which a frame goes on. -/
def Outgoing.accepts : Outgoing → Reply → Bool
  | .send _ _, r => r.success
  | .transfer _ _ _, r => r.transferred
  | .transferFrom _ _ _ _, r => r.transferred

/-- Everything a frame can do. -/
inductive Does (m : Message) (this : Address) (w : World) :
    Step World Outgoing Reply Revert Unit → Prop where
  | reverts (e : Revert) : Does m this w (.revert e)
  | bodyReverts (e : Revert) : w.storage.unlocked = 1 → Does m this w (.body (.revert e))
  | nothing : Does m this w (.ret () w)
  | deposit {newTvl : Uint256} {window : UserDepositWindow} :
      m.fn = .deposit → m.outOfGas = false → w.storage.unlocked = 1 → w.storage.paused = false →
      Charged w.storage w.now m.value w.storage.totalDepositedNative
        (w.storage.nativeDepositWindows m.sender) newTvl window →
      Does m this w (.body (.ret () ((w.credited m.value).write
        ((w.storage.withNative m.sender newTvl window).lock 1)
        (.nativeDeposited m.sender m.value newTvl window.currentEpoch))))
  | admin {e : Event} {s : Storage} : m.outOfGas = false → Admin m.sender w.storage e s →
      Does m this w (.ret () (w.write s e))
  | calls {c : Outgoing} {e : Event} {s : Storage}
      {next : Reply → World → Step World Outgoing Reply Revert Unit} :
      w.storage.unlocked = 1 → Calls m this w c e s →
      (∀ r v, c.accepts r = true → m.outOfGas = false →
        next r v = .ret () (v.write (v.storage.lock 1) e)) →
      (∀ r v, ¬ (c.accepts r = true ∧ m.outOfGas = false) → ∃ err, next r v = .revert err) →
      Does m this w (.body (.call c { w with storage := s } next))

section Code
variable {m : Message} {this : Address} {w : World}

/-- A guarded body runs once the mutex is taken, and gives it back. -/
theorem nonReentrant_run {body : Guardrail Unit} (h : w.storage.unlocked = 1) :
    nonReentrant body w = .body ((body { w with storage := w.storage.lock 0 }).bind
      fun _ v => .ret () { v with storage := v.storage.lock 1 }) := by
  have hno : ¬ w.storage.unlocked ≠ 1 := by simp [h]
  rw [nonReentrant, Code.bind_run, storage_run, bind_ret, Code.bind_run, revertIf_neg hno]
  rfl

theorem nonReentrant_locked {body : Guardrail Unit} (h : w.storage.unlocked ≠ 1) :
    nonReentrant body w = .revert .reentrancyGuardReentrantCall := by
  rw [nonReentrant, Code.bind_run, storage_run, bind_ret, Code.bind_run, revertIf_pos h]
  rfl

theorem whenNotPaused_run : whenNotPaused w =
    if w.storage.paused = true then .revert .contractPaused else .ret () w := by
  rw [whenNotPaused, Code.bind_run, storage_run, bind_ret]
  split
  · exact revertIf_pos ‹_›
  · exact revertIf_neg ‹_›

theorem onlyOwner_run : onlyOwner m w =
    if m.sender ≠ w.storage.owner then .revert .unauthorized else .ret () w := by
  rw [onlyOwner, Code.bind_run, storage_run, bind_ret]
  split
  · exact revertIf_pos ‹_›
  · exact revertIf_neg ‹_›

/-! ### The administrative functions -/

/-- An administrative function reverts, or writes and logs. -/
def Administers (m : Message) (w : World) (st : Step World Outgoing Reply Revert Unit) : Prop :=
  (∃ e, st = .revert e) ∨ ∃ e s, Admin m.sender w.storage e s ∧ st = .ret () (w.write s e)

theorem emergencyPause_administers : Administers m w (emergencyPause m w) := by
  by_cases hs : m.sender ≠ w.storage.owner ∧ m.sender ≠ w.storage.emergencyGuardian
  · refine .inl ⟨.unauthorized, ?_⟩
    simp only [emergencyPause, onlyGuardianOrOwner, Code.bind_run, storage_run, bind_ret,
      revertIf_pos hs, bind_revert]
  by_cases hp : w.storage.paused = true
  · refine .inl ⟨.contractPaused, ?_⟩
    simp only [emergencyPause, onlyGuardianOrOwner, whenNotPaused, Code.bind_run, storage_run,
      bind_ret, revertIf_neg hs, revertIf_pos hp, bind_revert]
  · refine .inr ⟨_, _, .emergencyPause ?_ (by simpa using hp), ?_⟩
    · by_contra hno
      exact hs (not_or.mp hno)
    · simp only [emergencyPause, onlyGuardianOrOwner, whenNotPaused, Code.bind_run, storage_run,
        bind_ret, revertIf_neg hs, revertIf_neg hp, setStorage_run, emit_run]
      rfl

/-- A function of the owner starts with the same check. -/
theorem onlyOwner_administers {f : Guardrail Unit}
    (hf : m.sender = w.storage.owner → Administers m w (f w)) :
    Administers m w ((do onlyOwner m; f : Guardrail Unit) w) := by
  rw [Code.bind_run, onlyOwner_run]
  split
  · exact .inl ⟨_, rfl⟩
  · rename_i h
    exact hf (not_not.mp h)

theorem unpause_administers : Administers m w (unpause m w) := by
  refine onlyOwner_administers fun howner => ?_
  by_cases hp : w.storage.paused = false
  · refine .inl ⟨.contractNotPaused, ?_⟩
    simp only [whenPaused, Code.bind_run, storage_run, bind_ret, revertIf_pos hp, bind_revert]
  · refine .inr ⟨_, _, .unpause howner (by simpa using hp), ?_⟩
    simp only [whenPaused, Code.bind_run, storage_run, bind_ret, revertIf_neg hp, setStorage_run,
      emit_run]
    rfl

theorem setLimits_administers {cap perTx daily : Uint256} :
    Administers m w (setLimits m cap perTx daily w) := by
  refine onlyOwner_administers fun howner => ?_
  cases hv : validateLimits cap perTx daily with
  | error e => exact .inl ⟨e, rfl⟩
  | ok u =>
    obtain ⟨hpos, hdaily, hcap⟩ := validateLimits_ok.mp hv
    exact .inr ⟨_, _, .setLimits howner hpos hdaily hcap, rfl⟩

theorem setGuardian_administers {newGuardian : Address} :
    Administers m w (setGuardian m newGuardian w) := by
  refine onlyOwner_administers fun howner => ?_
  by_cases h0 : newGuardian = 0
  · refine .inl ⟨.zeroAddress, ?_⟩
    rw [Code.bind_run, revertIf_pos h0, bind_revert]
  · refine .inr ⟨_, _, .setGuardian howner h0, ?_⟩
    rw [Code.bind_run, revertIf_neg h0]
    rfl

theorem transferOwnership_administers {newOwner : Address} :
    Administers m w (transferOwnership m newOwner w) := by
  refine onlyOwner_administers fun howner => ?_
  by_cases h0 : newOwner = 0
  · refine .inl ⟨.zeroAddress, ?_⟩
    rw [Code.bind_run, revertIf_pos h0, bind_revert]
  · refine .inr ⟨_, _, .transferOwnership howner h0, ?_⟩
    rw [Code.bind_run, revertIf_neg h0]
    rfl

theorem acceptOwnership_administers : Administers m w (acceptOwnership m w) := by
  rw [acceptOwnership, Code.bind_run, storage_run, bind_ret, Code.bind_run]
  by_cases hs : m.sender ≠ w.storage.pendingOwner
  · refine .inl ⟨.onlyPendingOwner, ?_⟩
    rw [revertIf_pos hs, bind_revert]
  · refine .inr ⟨_, _, .acceptOwnership (not_not.mp hs), ?_⟩
    rw [revertIf_neg hs]
    rfl

/-! ### The functions that call out -/

/-- A guarded function that calls out: it reverts, before or inside its body, or calls. -/
def Opens (m : Message) (this : Address) (w : World)
    (st : Step World Outgoing Reply Revert Unit) : Prop :=
  (∃ e, st = .revert e) ∨ (w.storage.unlocked = 1 ∧ ∃ e, st = .body (.revert e)) ∨
    (w.storage.unlocked = 1 ∧ ∃ c e s next, Calls m this w c e s ∧
      st = .body (.call c { w with storage := s } next) ∧
      (∀ r v, c.accepts r = true → next r v = .ret () (v.write (v.storage.lock 1) e)) ∧
      ∀ r v, c.accepts r = false → ∃ err, next r v = .revert err)

theorem requireTransferred_pos {r : Reply} (h : r.transferred = true) :
    requireTransferred r w = .ret () w := by
  obtain ⟨success, data⟩ := r
  simp only [Reply.transferred, Bool.and_eq_true, Bool.or_eq_true, List.isEmpty_iff,
    decide_eq_true_eq] at h
  obtain ⟨rfl, hdata⟩ := h
  rw [requireTransferred, Code.bind_run, revertIf_neg (by simp), bind_ret]
  cases data with
  | nil => rfl
  | cons b data =>
    have hd : decodeBool (b :: data) = some true := by simpa using hdata
    rw [if_pos (by simp)]
    simp only [hd]
    rfl

theorem requireTransferred_neg {r : Reply} (h : r.transferred = false) :
    ∃ e, requireTransferred r w = .revert e := by
  obtain ⟨success, data⟩ := r
  cases success with
  | false => exact ⟨_, rfl⟩
  | true =>
    cases data with
    | nil => simp [Reply.transferred] at h
    | cons b data =>
      rw [requireTransferred, Code.bind_run, revertIf_neg (by simp), bind_ret, if_pos (by simp)]
      cases hd : decodeBool (b :: data) with
      | none => exact ⟨_, rfl⟩
      | some ok =>
        cases ok with
        | false => exact ⟨_, rfl⟩
        | true => simp [Reply.transferred, hd] at h

theorem Charged.congr {s : Storage} {now : Nat} {amount currentTvl newTvl : Uint256}
    {window window' : UserDepositWindow} (h : Charged s now amount currentTvl window newTvl window')
    (s' : Storage) (hper : s'.maxPerTxLimit = s.maxPerTxLimit) (hcap : s'.globalTvlCap = s.globalTvlCap)
    (hdaily : s'.dailyAccountLimit = s.dailyAccountLimit) :
    Charged s' now amount currentTvl window newTvl window' where
  amount_ne := h.amount_ne
  amount_le := hper ▸ h.amount_le
  newTvl_eq := h.newTvl_eq
  newTvl_le := hcap ▸ h.newTvl_le
  epoch_eq := h.epoch_eq
  deposited_eq := h.deposited_eq
  deposited_le := hdaily ▸ h.deposited_le
  cumulative_eq := h.cumulative_eq

/-- The body of a deposit that passed its checks: it has written its accounts when it calls the
token, and goes on when the reply is taken. -/
theorem depositToken_charged (this : Address) {token : Address} {amount newTvl : Uint256}
    {window : UserDepositWindow} (hp : w.storage.paused = false) (hu : w.storage.unlocked = 1) (h0 : token ≠ 0)
    (hc : Charged w.storage w.now amount (w.storage.totalDepositedTokens token)
      (w.storage.tokenDepositWindows m.sender token) newTvl window) :
    ∃ next, depositToken this m token amount w = .body (.call
        (.transferFrom token m.sender this amount)
        { w with storage := (w.storage.withToken m.sender token newTvl window).lock 0 } next) ∧
      (∀ r v, r.transferred = true → next r v = .ret () (v.write (v.storage.lock 1)
        (.tokenDeposited m.sender token amount newTvl window.currentEpoch))) ∧
      ∀ r v, r.transferred = false → ∃ err, next r v = .revert err := by
  have hcharge : charge (w.storage.lock 0) w.now m.sender amount
      ((w.storage.lock 0).totalDepositedTokens token)
      ((w.storage.lock 0).tokenDepositWindows m.sender token) = .ok (newTvl, window) :=
    charge_ok.mpr (hc.congr (w.storage.lock 0) rfl rfl rfl)
  rw [depositToken, Code.bind_run, whenNotPaused_run, if_neg (by simp [hp]), bind_ret,
    nonReentrant_run hu]
  simp only [Code.bind_run, revertIf_neg h0, bind_ret, world_run, hcharge]
  refine ⟨_, rfl, ?_, ?_⟩
  · intro r v hr
    simp only [bind_ret, requireTransferred_pos hr, emit_run]
    rfl
  · intro r v hr
    obtain ⟨e, he⟩ := requireTransferred_neg (w := v) hr
    exact ⟨e, by simp only [bind_ret, he, bind_revert]⟩

theorem depositToken_opens {token : Address} {amount : Uint256}
    (hfn : m.fn = .depositToken token amount) :
    Opens m this w (depositToken this m token amount w) := by
  by_cases hp : w.storage.paused = true
  · refine .inl ⟨.contractPaused, ?_⟩
    rw [depositToken, Code.bind_run, whenNotPaused_run, if_pos hp, bind_revert]
  by_cases hu : w.storage.unlocked = 1
  · refine .inr ?_
    by_cases h0 : token = 0
    · refine .inl ⟨hu, .zeroAddress, ?_⟩
      rw [depositToken, Code.bind_run, whenNotPaused_run, if_neg hp, bind_ret, nonReentrant_run hu]
      simp only [Code.bind_run, revertIf_pos h0, bind_revert]
    cases hc : charge (w.storage.lock 0) w.now m.sender amount
        ((w.storage.lock 0).totalDepositedTokens token)
        ((w.storage.lock 0).tokenDepositWindows m.sender token) with
    | error e =>
      refine .inl ⟨hu, e, ?_⟩
      rw [depositToken, Code.bind_run, whenNotPaused_run, if_neg hp, bind_ret, nonReentrant_run hu]
      simp only [Code.bind_run, revertIf_neg h0, bind_ret, world_run, hc]
      rfl
    | ok tvlWindow =>
      have hp' : w.storage.paused = false := by simpa using hp
      have hcharged := (charge_ok.mp hc).congr w.storage rfl rfl rfl
      obtain ⟨next, hbody, hret, hrev⟩ := depositToken_charged this hp' hu h0 hcharged
      exact .inr ⟨hu, _, _, _, next, .depositToken hfn hp' h0 hcharged, hbody, hret, hrev⟩
  · refine .inl ⟨.reentrancyGuardReentrantCall, ?_⟩
    rw [depositToken, Code.bind_run, whenNotPaused_run, if_neg hp, bind_ret, nonReentrant_locked hu]

theorem withdrawNative_opens {recipient : Address} {amount : Uint256}
    (hfn : m.fn = .withdrawNative recipient amount) :
    Opens m this w (withdrawNative m recipient amount w) := by
  rw [withdrawNative, Code.bind_run, onlyOwner_run]
  split
  · exact .inl ⟨_, rfl⟩
  rename_i howner
  by_cases hu : w.storage.unlocked = 1
  · rw [bind_ret, nonReentrant_run hu]
    refine .inr ?_
    by_cases h0 : recipient = 0
    · refine .inl ⟨hu, .zeroAddress, ?_⟩
      simp only [Code.bind_run, revertIf_pos h0, bind_revert]
    by_cases hb : w.balance < amount.val
    · refine .inl ⟨hu, .insufficientVaultBalance amount.val w.balance, ?_⟩
      simp only [Code.bind_run, revertIf_neg h0, bind_ret, world_run, revertIf_pos hb, bind_revert]
    · simp only [Code.bind_run, revertIf_neg h0, bind_ret, world_run, revertIf_neg hb]
      refine .inr ⟨hu, _, _, _, _, .withdrawNative hfn (not_not.mp howner) h0 (not_lt.mp hb), rfl,
        ?_, ?_⟩
      · intro r v hr
        have hno : ¬ r.success = false := by simpa [Outgoing.accepts] using hr
        simp only [bind_ret, Code.bind_run, revertIf_neg hno, emit_run]
        rfl
      · intro r v hr
        have hfail : r.success = false := hr
        exact ⟨.transferFailed, by simp only [bind_ret, Code.bind_run, revertIf_pos hfail, bind_revert]⟩
  · exact .inl ⟨_, nonReentrant_locked hu⟩

theorem balanceOf_run (m : Message) (this : Address) (w : World) (token : Address) :
    (∃ e, balanceOf this m token w = .revert e) ∨
      ∃ tokenBal, token ≠ this ∧ m.balanceOf w = some tokenBal ∧
        balanceOf this m token w = .ret tokenBal w := by
  rw [balanceOf, Code.bind_run, world_run, bind_ret]
  by_cases hthis : token = this
  · rw [if_pos hthis]
    exact .inl ⟨_, rfl⟩
  · rw [if_neg hthis]
    cases hbal : m.balanceOf w with
    | none => exact .inl ⟨_, rfl⟩
    | some tokenBal => exact .inr ⟨tokenBal, hthis, rfl, rfl⟩

theorem withdrawToken_opens {token recipient : Address} {amount : Uint256}
    (hfn : m.fn = .withdrawToken token recipient amount) :
    Opens m this w (withdrawToken this m token recipient amount w) := by
  rw [withdrawToken, Code.bind_run, onlyOwner_run]
  split
  · exact .inl ⟨_, rfl⟩
  rename_i howner
  by_cases hu : w.storage.unlocked = 1
  · rw [bind_ret, nonReentrant_run hu]
    refine .inr ?_
    by_cases h0 : token = 0 ∨ recipient = 0
    · refine .inl ⟨hu, .zeroAddress, ?_⟩
      simp only [Code.bind_run, revertIf_pos h0, bind_revert]
    simp only [Code.bind_run, revertIf_neg h0, bind_ret]
    obtain ⟨e, he⟩ | ⟨tokenBal, hthis, hbal, hrun⟩ :=
      balanceOf_run m this { w with storage := w.storage.lock 0 } token
    · exact .inl ⟨hu, e, by rw [he]; rfl⟩
    by_cases hlt : tokenBal < amount
    · refine .inl ⟨hu, .insufficientVaultBalance amount.val tokenBal.val, ?_⟩
      simp only [hrun, bind_ret, Code.bind_run, revertIf_pos hlt, bind_revert]
    · simp only [hrun, bind_ret, Code.bind_run, revertIf_neg hlt]
      refine .inr ⟨hu, _, _, _, _, .withdrawToken hfn (not_not.mp howner) (not_or.mp h0).2 hthis
        hbal (not_lt.mp hlt), rfl, ?_, ?_⟩
      · intro r v hr
        simp only [bind_ret, requireTransferred_pos hr, emit_run]
        rfl
      · intro r v hr
        obtain ⟨e, he⟩ := requireTransferred_neg (w := v) hr
        exact ⟨e, by simp only [bind_ret, he, bind_revert]⟩
  · exact .inl ⟨_, nonReentrant_locked hu⟩

/-! ### The whole frame -/

theorem World.credited_zero (w : World) : w.credited 0 = w := rfl

/-- What follows the function: the gas may not have sufficed. -/
def gasCheck (m : Message) : Guardrail Unit := revertIf (m.outOfGas = true) .outOfGas

theorem gasCheck_run (v : World) : gasCheck m v =
    if m.outOfGas = true then .revert .outOfGas else .ret () v := by
  unfold gasCheck
  split
  · exact revertIf_pos ‹_›
  · exact revertIf_neg ‹_›

theorem Administers.does {st : Step World Outgoing Reply Revert Unit} (h : Administers m w st) :
    Does m this w (st.bind fun _ => gasCheck m) := by
  obtain ⟨e, rfl⟩ | ⟨e, s, hadmin, rfl⟩ := h
  · exact .reverts e
  · rw [bind_ret, gasCheck_run]
    split
    · exact .reverts _
    · rename_i hgas
      exact .admin (by simpa using hgas) hadmin

theorem Opens.does {st : Step World Outgoing Reply Revert Unit} (h : Opens m this w st) :
    Does m this w (st.bind fun _ => gasCheck m) := by
  obtain ⟨e, rfl⟩ | ⟨hu, e, rfl⟩ | ⟨hu, c, e, s, next, hcalls, rfl, hret, hrev⟩ := h
  · exact .reverts e
  · exact .bodyReverts e hu
  · refine .calls hu hcalls ?_ ?_
    · intro r v hr hgas
      rw [hret r v hr, bind_ret, gasCheck_run, hgas]
      rfl
    · intro r v hno
      by_cases hr : c.accepts r = true
      · have hgas : m.outOfGas = true := by
          simpa using fun hgas => hno ⟨hr, hgas⟩
        rw [hret r v hr, bind_ret, gasCheck_run, if_pos hgas]
        exact ⟨_, rfl⟩
      · obtain ⟨err, herr⟩ := hrev r v (by simpa using hr)
        exact ⟨err, by rw [herr, bind_revert]⟩

theorem deposit_does (hfn : m.fn = .deposit) :
    Does m this w ((deposit m (w.credited m.value)).bind fun _ => gasCheck m) := by
  rw [deposit, Code.bind_run, whenNotPaused_run]
  split
  · exact .reverts _
  rename_i hp
  by_cases hu : (w.credited m.value).storage.unlocked = 1
  · rw [bind_ret, nonReentrant_run hu]
    simp only [Code.bind_run, world_run, bind_ret]
    cases hc : charge ((w.credited m.value).storage.lock 0) (w.credited m.value).now m.sender m.value
        ((w.credited m.value).storage.lock 0).totalDepositedNative
        (((w.credited m.value).storage.lock 0).nativeDepositWindows m.sender) with
    | error e => exact .bodyReverts e hu
    | ok tvlWindow =>
      have hcharged := (charge_ok.mp hc).congr w.storage rfl rfl rfl
      by_cases hgas : m.outOfGas = true
      · have hrev : ∀ v, gasCheck m v = .revert .outOfGas := fun v => by
          rw [gasCheck_run, if_pos hgas]
        exact (congrArg (Does m this w) (congrArg Step.body (hrev _))).mpr (.bodyReverts _ hu)
      · have hret : ∀ v, gasCheck m v = .ret () v := fun v => by
          rw [gasCheck_run, if_neg hgas]
        refine (congrArg (Does m this w) (congrArg Step.body (hret _))).mpr ?_
        exact .deposit hfn (by simpa using hgas) hu (Bool.not_eq_true _ ▸ hp) hcharged
  · rw [bind_ret, nonReentrant_locked hu]
    exact .reverts _

/-- The list is complete. -/
theorem code_does : Does m this w (code this m w) := by
  by_cases hv : m.value ≠ 0 ∧ m.fn.payable = false
  · rw [code, Code.bind_run, revertIf_pos hv, bind_revert]
    exact .reverts _
  have hrun : code this m w = (dispatch this m (w.credited m.value)).bind fun _ => gasCheck m := by
    rw [code, Code.bind_run, revertIf_neg hv, bind_ret]
    rfl
  rw [hrun, dispatch]
  -- a function that is not payable gets no value
  have hzero : m.fn.payable = false → w.credited m.value = w := by
    intro hp
    have h0 : m.value = 0 := by
      by_contra h0
      exact hv ⟨h0, hp⟩
    rw [h0, World.credited_zero]
  cases hfn : m.fn with
  | deposit => exact deposit_does hfn
  | receive => exact .reverts _
  | unknown => exact .reverts _
  | view =>
    rw [hzero (by rw [hfn]; rfl)]
    show Does m this w (gasCheck m w)
    rw [gasCheck_run]
    split
    · exact .reverts _
    · exact .nothing
  | depositToken token amount =>
    rw [hzero (by rw [hfn]; rfl)]
    exact (depositToken_opens hfn).does
  | withdrawNative recipient amount =>
    rw [hzero (by rw [hfn]; rfl)]
    exact (withdrawNative_opens hfn).does
  | withdrawToken token recipient amount =>
    rw [hzero (by rw [hfn]; rfl)]
    exact (withdrawToken_opens hfn).does
  | emergencyPause =>
    rw [hzero (by rw [hfn]; rfl)]
    exact emergencyPause_administers.does
  | unpause =>
    rw [hzero (by rw [hfn]; rfl)]
    exact unpause_administers.does
  | setLimits cap perTx daily =>
    rw [hzero (by rw [hfn]; rfl)]
    exact setLimits_administers.does
  | setGuardian newGuardian =>
    rw [hzero (by rw [hfn]; rfl)]
    exact setGuardian_administers.does
  | transferOwnership newOwner =>
    rw [hzero (by rw [hfn]; rfl)]
    exact transferOwnership_administers.does
  | acceptOwnership =>
    rw [hzero (by rw [hfn]; rfl)]
    exact acceptOwnership_administers.does

end Code
end Ark.LaunchGuardrail
