import Ark.Export

/- When the zero-height export resets the timelock.

   Only the last step writes the timelock's store: every step before it keeps that store
   where it ends well (`Keeps`), and ends the export where it does not. So a normal return
   comes from the end of the function, with the timelock reset, or from the one early
   return, with the timelock as it was (`prepForZeroHeightGenesis_reset`). -/
namespace Ark.Export
open Ark.Lib Ark.Lib.Effect Ark.Gov Ark.GovTimelock Ark.Sdk

/-- The timelock is as on a new chain: no entry waits, and it is on from block 1. -/
structure Fresh (t : Timelock) : Prop where
  schedule : t.scheduledProposals.keys = []
  activation : t.activationHeight = some 1

/-- On a chain that starts from such a timelock no entry is ever due, and it is always on. -/
theorem Fresh.protects {t : Timelock} (h : Fresh t) (now : Time) {height : Int}
    (hheight : 1 ≤ height) : t.due now = [] ∧ t.isActive height = true := by
  constructor
  · unfold Timelock.due Timelock.collect KeySet.filter
    rw [h.schedule]
    rfl
  · rw [Timelock.isActive_iff]
    exact ⟨1, h.activation, hheight⟩

section
variable {Rest α Item : Type} {s s' : St Rest}

/-! ## The steps before the reset -/

theorem call_keeps (op : KeeperM Rest α) : Keeps St.timelock (call op) := by
  intro s a t h
  unfold call at h
  cases hop : op s.rest with
  | ok b rest =>
    rw [hop] at h
    cases h
    rfl
  | error fault rest =>
    rw [hop] at h
    cases fault with
    | err err =>
      cases h
      rfl
    | panic value => cases h

theorem orPanic_keeps (r : Except String α) : Keeps (@St.timelock Rest) (orPanic r) := by
  cases r with
  | ok a => exact Keeps.pure' a
  | error err => exact Keeps.throw' _

theorem orFatal_keeps (r : Except String α) : Keeps (@St.timelock Rest) (orFatal r) := by
  cases r with
  | ok a => exact Keeps.pure' a
  | error err => exact Keeps.throw' _

/-- A call of a keeper whose error is a panic. -/
theorem callOrPanic_keeps (op : KeeperM Rest α) :
    Keeps St.timelock (call op >>= orPanic) :=
  Keeps.bind' (call_keeps op) orPanic_keeps

/-- A call of a keeper that the function does not look at. -/
theorem dropCall_keeps (op : KeeperM Rest α) :
    Keeps St.timelock (call op >>= fun _ => pure PUnit.unit) :=
  Keeps.bind' (call_keeps op) fun _ => Keeps.pure' _

theorem iterate_keeps (iteration : Rest → Iteration Item) {callback : Item → ExportM Rest Unit}
    (h : ∀ item, Keeps St.timelock (callback item)) :
    Keeps St.timelock (iterate iteration callback) := by
  apply Keeps.bind'
  · intro s a t hget
    cases hget
    rfl
  · intro s
    apply Keeps.bind' (Keeps.forM' h _)
    intro _
    cases (iteration s.rest).fault with
    | none => exact Keeps.pure' _
    | some fault =>
      cases fault with
      | err err => exact Keeps.pure' _
      | panic value => exact Keeps.throw' _

variable (k : Keepers Rest) (height : Int)

theorem checkAllowedAddrs_keeps (jailAllowedAddrs : List String) :
    Keeps St.timelock (checkAllowedAddrs k jailAllowedAddrs) := by
  apply Keeps.forM'
  intro addr
  exact Keeps.bind' (orFatal_keeps _) fun _ => Keeps.pure' _

theorem withdrawCommissions_keeps : Keeps St.timelock (withdrawCommissions k height) := by
  apply Keeps.bind' _ orPanic_keeps
  apply iterate_keeps
  intro val
  exact Keeps.bind' (orPanic_keeps _) fun _ => dropCall_keeps _

theorem withdrawRewards_keeps (dels : List Delegation) :
    Keeps St.timelock (withdrawRewards k height dels) := by
  apply Keeps.forM'
  intro delegation
  apply Keeps.bind' (orPanic_keeps _)
  intro valAddr
  exact Keeps.bind' (orPanic_keeps _) fun _ => dropCall_keeps _

theorem reinitializeValidators_keeps : Keeps St.timelock (reinitializeValidators k height) := by
  apply Keeps.bind' _ fun _ => Keeps.pure' _
  apply iterate_keeps
  intro val
  apply Keeps.bind' (orPanic_keeps _)
  intro valBz
  apply Keeps.bind' (call_keeps _)
  intro scraps
  apply Keeps.bind' (orPanic_keeps _)
  intro scraps
  apply Keeps.bind' (call_keeps _)
  intro feePool
  apply Keeps.bind' (orPanic_keeps _)
  intro feePool
  apply Keeps.bind' (call_keeps _)
  intro communityPool
  apply Keeps.bind' (orPanic_keeps _)
  intro communityPool
  apply Keeps.bind' (call_keeps _)
  intro r
  apply Keeps.bind' (orPanic_keeps _)
  intro _
  exact callOrPanic_keeps _

theorem reinitializeDelegations_keeps (dels : List Delegation) :
    Keeps St.timelock (reinitializeDelegations k height dels) := by
  apply Keeps.forM'
  intro del
  apply Keeps.bind' (orPanic_keeps _)
  intro valAddr
  apply Keeps.bind' (orPanic_keeps _)
  intro delAddr
  apply Keeps.bind' (call_keeps _)
  intro before
  cases before with
  | error err => exact Keeps.throw' _
  | ok _ =>
    apply Keeps.bind' (call_keeps _)
    intro after
    cases after with
    | error err => exact Keeps.throw' _
    | ok _ => exact Keeps.pure' _

theorem resetRedelegations_keeps : Keeps St.timelock (resetRedelegations k height) := by
  apply Keeps.bind' _ orPanic_keeps
  apply iterate_keeps
  intro red
  exact callOrPanic_keeps _

theorem resetUnbondingDelegations_keeps :
    Keeps St.timelock (resetUnbondingDelegations k height) := by
  apply Keeps.bind' _ orPanic_keeps
  apply iterate_keeps
  intro ubd
  exact callOrPanic_keeps _

theorem resetValidators_keeps (jailAllowedAddrs : List String) :
    Keeps St.timelock (resetValidators k height jailAllowedAddrs) := by
  apply Keeps.bind' _ fun _ => Keeps.pure' _
  apply iterate_keeps
  intro addr
  apply Keeps.bind' (call_keeps _)
  intro r
  cases r with
  | error err => exact Keeps.throw' _
  | ok validator => exact callOrPanic_keeps _

theorem handleFeesAndStaking_keeps (jailAllowedAddrs : List String) :
    Keeps St.timelock (handleFeesAndStaking k height jailAllowedAddrs) := by
  apply Keeps.bind' (checkAllowedAddrs_keeps k _)
  intro _
  apply Keeps.bind' (call_keeps _)
  intro _
  apply Keeps.bind' (withdrawCommissions_keeps k _)
  intro _
  apply Keeps.bind' (call_keeps _)
  intro r
  apply Keeps.bind' (orPanic_keeps r)
  intro dels
  apply Keeps.bind' (withdrawRewards_keeps k _ dels)
  intro _
  apply Keeps.bind' (call_keeps _)
  intro _
  apply Keeps.bind' (call_keeps _)
  intro _
  apply Keeps.bind' (reinitializeValidators_keeps k _)
  intro _
  apply Keeps.bind' (reinitializeDelegations_keeps k _ dels)
  intro _
  apply Keeps.bind' (resetRedelegations_keeps k _)
  intro _
  apply Keeps.bind' (resetUnbondingDelegations_keeps k _)
  intro _
  exact resetValidators_keeps k _ _

/-! ## The reset -/

theorem writeTimelock_ok {fault : Option Fault} {f : Timelock → Timelock} {a : Except String Unit}
    (h : writeTimelock fault f s = .ok a s') :
    (a = .ok () ∧ s' = { s with timelock := f s.timelock }) ∨ ∃ err, a = .error err := by
  unfold writeTimelock at h
  cases fault with
  | none =>
    cases h
    exact .inl ⟨rfl, rfl⟩
  | some fault =>
    cases fault with
    | err err =>
      cases h
      exact .inr ⟨err, rfl⟩
    | panic value => cases h

/-- A write that is followed by a panic on its error was made, where it ends well. -/
theorem writeOrPanic_ok {fault : Option Fault} {f : Timelock → Timelock} {u : Unit}
    (h : (writeTimelock fault f >>= orPanic) s = .ok u s') :
    s' = { s with timelock := f s.timelock } := by
  obtain ⟨a, t, hwrite, hpanic⟩ := bind_ok.mp h
  obtain ⟨ha, ht⟩ | ⟨err, ha⟩ := writeTimelock_ok hwrite
  · rw [ha] at hpanic
    rw [← (pure_ok.mp hpanic).2, ht]
  · rw [ha] at hpanic
    exact absurd hpanic (by simp [orPanic])

theorem resetTimelock_fresh {u : Unit} (h : resetTimelock k s = .ok u s') : Fresh s'.timelock := by
  unfold resetTimelock at h
  rw [← bind_assoc] at h
  obtain ⟨_, t, hactivation, hclear⟩ := bind_ok.mp h
  rw [writeOrPanic_ok hclear, writeOrPanic_ok hactivation]
  exact ⟨rfl, rfl⟩

/-- What a normal return leaves of the timelock. -/
theorem prepForZeroHeightGenesis_ok {jailAllowedAddrs : List String} {u : Unit}
    (h : prepForZeroHeightGenesis k height jailAllowedAddrs s = .ok u s') :
    (k.closeErr = none ∧ Fresh s'.timelock) ∨
      (k.closeErr ≠ none ∧ s'.timelock = s.timelock) := by
  unfold prepForZeroHeightGenesis at h
  obtain ⟨_, t, hsteps, hend⟩ := bind_ok.mp h
  have hkept := handleFeesAndStaking_keeps k height jailAllowedAddrs s _ t hsteps
  cases hclose : k.closeErr with
  | some err =>
    right
    rw [hclose] at hend
    obtain ⟨_, ht⟩ := pure_ok.mp hend
    exact ⟨Option.some_ne_none err, by rw [← ht, hkept]⟩
  | none =>
    left
    rw [hclose] at hend
    simp only [bind_ok] at hend
    obtain ⟨_, _, _, _, _, _, _, _, _, hreset⟩ := hend
    exact ⟨rfl, resetTimelock_fresh k hreset⟩

/-- A normal return leaves the timelock reset exactly when the iterator over the validators closed
without an error, or when the timelock was so before. -/
theorem prepForZeroHeightGenesis_reset (jailAllowedAddrs : List String) (s s' : St Rest)
    (h : prepForZeroHeightGenesis k height jailAllowedAddrs s = .ok () s') :
    Fresh s'.timelock ↔ k.closeErr = none ∨ Fresh s.timelock := by
  obtain ⟨hclose, hfresh⟩ | ⟨hclose, hkept⟩ := prepForZeroHeightGenesis_ok k height h
  · exact ⟨fun _ => .inl hclose, fun _ => hfresh⟩
  · rw [hkept]
    constructor
    · exact .inr
    · intro h
      cases h with
      | inl hnone => exact absurd hnone hclose
      | inr hfresh => exact hfresh

end

/-! ## A small chain -/

/-- A chain without validators and delegations. -/
def quietKeepers (closeErr : Option String) : Keepers Unit where
  valAddressFromBech32 _ := .error "decoding bech32 failed"
  valAddressString _ := ""
  accAddressFromBech32 _ := .error "decoding bech32 failed"
  stringToBytes _ := .error "decoding bech32 failed"
  assertInvariants _ := pure ()
  iterateValidators _ _ := ⟨[], none⟩
  getAllDelegations _ := pure []
  iterateRedelegations _ _ := ⟨[], none⟩
  setRedelegation _ _ := pure ()
  iterateUnbondingDelegations _ _ := ⟨[], none⟩
  setUnbondingDelegation _ _ := pure ()
  validatorKeys _ _ := ⟨[], none⟩
  closeErr := closeErr
  getValidator _ _ := throw (.err "validator does not exist")
  setValidator _ _ := pure ()
  applyAndReturnValidatorSetUpdates _ := pure ()
  withdrawValidatorCommission _ _ := throw (.err "no validator commission to withdraw")
  withdrawDelegationRewards _ _ _ := throw (.err "no delegation distribution info")
  deleteAllValidatorSlashEvents _ := pure ()
  deleteAllValidatorHistoricalRewards _ := pure ()
  getValidatorOutstandingRewardsCoins _ _ := pure []
  getFeePool _ := pure ⟨[], []⟩
  setFeePool _ _ := pure ()
  addCoins x y := pure (x ++ y)
  afterValidatorCreated _ _ := pure ()
  beforeDelegationCreated _ _ _ := pure ()
  afterDelegationModified _ _ _ := pure ()
  iterateValidatorSigningInfos _ _ := ⟨[], none⟩
  setValidatorSigningInfo _ _ _ := pure ()
  setActivationHeightFault := none
  clearScheduleFault := none

/-- A source chain with a proposal that waits, and an activation height of four million. -/
def sourceState : St Unit := ⟨(), ⟨KeySet.empty.set ⟨20, 42⟩, some 4000000, none⟩⟩

/-- Its timelock is reset when every step succeeds. -/
theorem sourceState_reset : ∃ s', prepForZeroHeightGenesis (quietKeepers none) 10 [] sourceState =
    .ok () s' ∧ Fresh s'.timelock :=
  ⟨_, rfl, (prepForZeroHeightGenesis_reset (quietKeepers none) 10 [] sourceState _ rfl).mpr
    (.inl rfl)⟩

/-- When closing the iterator fails the function returns, and nothing is reset. -/
theorem sourceState_kept : ∃ s', prepForZeroHeightGenesis
    (quietKeepers (some "iterator closed twice")) 10 [] sourceState = .ok () s' ∧
    ¬ Fresh s'.timelock ∧ s'.timelock.due 30 = [⟨42, 20⟩] ∧ s'.timelock.isActive 1 = false := by
  refine ⟨_, rfl, ?_, by decide, by decide⟩
  intro h
  cases h.activation

end Ark.Export
