import Ark.Lib.Replay
import Ark.LaunchGuardrail.Roles

/- The events tell everything.

   `Storage.record` is what an observer makes of one event who sees nothing of the vault
   but its logs. Folded over the logs it gives the vault's storage, whenever no guarded
   body runs (`storage_recorded`); while one runs, the roles, the limits and the pause flag
   are still those of the logs, and the deposits may be one ahead.

   `Entered` is what the frame of a message may log after the entries before it. A native
   deposit and an administrative event were checked against what these tell. A body that
   calls out was checked before the call, and its event comes after it: in between there
   are administrative events only, of the same block (`Waited`), and one of them may have
   paused the vault or lowered a limit. -/
namespace Ark.LaunchGuardrail
open Ark.Lib.CallTree Ark.Lib.Replay

/-! ## Recording -/

/-- A window after a deposit of `amount` in the epoch `epoch`. -/
def UserDepositWindow.record (window : UserDepositWindow) (epoch : Nat) (amount : Uint256) :
    UserDepositWindow where
  currentEpoch := epoch
  depositedInEpoch := (if window.currentEpoch = epoch then window.depositedInEpoch else 0) + amount
  totalCumulative := window.totalCumulative + amount

def Storage.record (s : Storage) : Event → Storage
  | .nativeDeposited user amount newTvl epoch =>
    s.withNative user newTvl ((s.nativeDepositWindows user).record epoch amount)
  | .tokenDeposited user token amount newTvl epoch =>
    s.withToken user token newTvl ((s.tokenDepositWindows user token).record epoch amount)
  | .nativeWithdrawn _ _ => s
  | .tokenWithdrawn _ _ _ => s
  | .emergencyPaused _ => { s with paused := true }
  | .emergencyUnpaused _ => { s with paused := false }
  | .limitsUpdated newGlobalTvlCap newMaxPerTxLimit newDailyAccountLimit =>
    { s with
      globalTvlCap := newGlobalTvlCap
      maxPerTxLimit := newMaxPerTxLimit
      dailyAccountLimit := newDailyAccountLimit }
  | .guardianUpdated _ newGuardian => { s with emergencyGuardian := newGuardian }
  | .ownershipTransferStarted _ newOwner => { s with pendingOwner := newOwner }
  | .ownershipTransferred _ newOwner => { s with owner := newOwner, pendingOwner := 0 }

/-- An observer ignores the time of an entry. -/
def Storage.recordEntry (s : Storage) (entry : Nat × Event) : Storage := s.record entry.2

/-- The storage that the logs tell, before any entry all zero. -/
def recorded (logs : List (Nat × Event)) : Storage :=
  replay Storage.recordEntry (.initial 0 0 0 0 0) logs

/-- The logs when a body called out, and those when it goes on. -/
def Waited (time : Nat) (before logs : List (Nat × Event)) : Prop :=
  ∃ since, logs = before ++ since ∧ ∀ entry ∈ since, entry.1 = time ∧ entry.2.guarded = false

/-- What the frame of `m` may log after `logs`. -/
inductive Entered (m : Message) (logs : List (Nat × Event)) : Nat × Event → Prop where
  | nativeDeposited {time : Nat} {newTvl : Uint256} {window : UserDepositWindow} :
      m.fn = .deposit → (recorded logs).paused = false →
      Charged (recorded logs) time m.value (recorded logs).totalDepositedNative
        ((recorded logs).nativeDepositWindows m.sender) newTvl window →
      Entered m logs (time, .nativeDeposited m.sender m.value newTvl window.currentEpoch)
  | tokenDeposited {time : Nat} {token : Address} {amount newTvl : Uint256}
      {window : UserDepositWindow} {before : List (Nat × Event)} :
      m.fn = .depositToken token amount → Waited time before logs →
      (recorded before).paused = false → token ≠ 0 →
      Charged (recorded before) time amount ((recorded before).totalDepositedTokens token)
        ((recorded before).tokenDepositWindows m.sender token) newTvl window →
      Entered m logs (time, .tokenDeposited m.sender token amount newTvl window.currentEpoch)
  | nativeWithdrawn {time : Nat} {recipient : Address} {amount : Uint256}
      {before : List (Nat × Event)} :
      m.fn = .withdrawNative recipient amount → Waited time before logs →
      m.sender = (recorded before).owner → recipient ≠ 0 →
      Entered m logs (time, .nativeWithdrawn recipient amount)
  | tokenWithdrawn {time : Nat} {token recipient : Address} {amount : Uint256}
      {before : List (Nat × Event)} :
      m.fn = .withdrawToken token recipient amount → Waited time before logs →
      m.sender = (recorded before).owner → recipient ≠ 0 →
      Entered m logs (time, .tokenWithdrawn token recipient amount)
  | admin {time : Nat} {e : Event} {s : Storage} : Admin m.sender (recorded logs) e s →
      Entered m logs (time, e)

/-- In a stretch of the frame of `m` at most one entry is logged, and it is one it may log. -/
def Logs (m : Message) (w w' : World) : Prop :=
  w'.logs = w.logs ∨ ∃ e, w'.logs = w.logs ++ [(w.now, e)] ∧ Entered m w.logs (w.now, e)

/-- A frame that the run went through logged the entry after `logs`, as it may. -/
def Written (T : List (Obs World Message)) (logs : List (Nat × Event)) (entry : Nat × Event) : Prop :=
  ∃ m start w w', .own m start w w' ∈ T ∧ w.logs = logs ∧ w.now = entry.1 ∧
    w'.logs = logs ++ [entry] ∧ Entered m logs entry

theorem recorded_concat (logs : List (Nat × Event)) (entry : Nat × Event) :
    recorded (logs ++ [entry]) = (recorded logs).record entry.2 := replay_concat logs entry

section Storages
variable {r s t : Storage} {e : Event}

theorem SameRoles.symm (h : SameRoles s t) : SameRoles t s where
  owner := h.owner.symm
  pendingOwner := h.pendingOwner.symm
  emergencyGuardian := h.emergencyGuardian.symm
  paused := h.paused.symm
  globalTvlCap := h.globalTvlCap.symm
  maxPerTxLimit := h.maxPerTxLimit.symm
  dailyAccountLimit := h.dailyAccountLimit.symm

theorem SameRoles.trans (h : SameRoles r s) (h' : SameRoles s t) : SameRoles r t where
  owner := h'.owner.trans h.owner
  pendingOwner := h'.pendingOwner.trans h.pendingOwner
  emergencyGuardian := h'.emergencyGuardian.trans h.emergencyGuardian
  paused := h'.paused.trans h.paused
  globalTvlCap := h'.globalTvlCap.trans h.globalTvlCap
  maxPerTxLimit := h'.maxPerTxLimit.trans h.maxPerTxLimit
  dailyAccountLimit := h'.dailyAccountLimit.trans h.dailyAccountLimit

theorem SameDeposits.trans (h : SameDeposits r s) (h' : SameDeposits s t) : SameDeposits r t where
  native := h'.native.trans h.native
  tokens := h'.tokens.trans h.tokens
  nativeWindows := h'.nativeWindows.trans h.nativeWindows
  tokenWindows := h'.tokenWindows.trans h.tokenWindows

/-- A storage is its roles and limits, its deposits and its mutex. -/
theorem Storage.eq_of_same (hr : SameRoles s t) (hd : SameDeposits s t)
    (hu : t.unlocked = s.unlocked) : t = s := by
  obtain ⟨h₁, h₂, h₃, h₄, h₅, h₆, h₇⟩ := hr
  obtain ⟨h₈, h₉, h₁₀, h₁₁⟩ := hd
  cases s
  cases t
  simp only at h₁ h₂ h₃ h₄ h₅ h₆ h₇ h₈ h₉ h₁₀ h₁₁ hu
  simp only [h₁, h₂, h₃, h₄, h₅, h₆, h₇, h₈, h₉, h₁₀, h₁₁, hu]

theorem Storage.record_unlocked (s : Storage) (e : Event) : (s.record e).unlocked = s.unlocked := by
  cases e <;> rfl

theorem recorded_unlocked (logs : List (Nat × Event)) : (recorded logs).unlocked = 1 := by
  induction logs using List.reverseRecOn with
  | nil => rfl
  | append_singleton logs entry ih => rw [recorded_concat, Storage.record_unlocked, ih]

/-- A deposit or a withdrawal says nothing of the roles. -/
theorem record_sameRoles (s : Storage) (he : e.guarded = true) : SameRoles s (s.record e) := by
  cases e <;> first | exact ⟨rfl, rfl, rfl, rfl, rfl, rfl, rfl⟩ | cases he

/-- An administrative event says nothing of the deposits. -/
theorem record_sameDeposits (s : Storage) (he : e.guarded = false) : SameDeposits (s.record e) s := by
  cases e <;> first | exact ⟨rfl, rfl, rfl, rfl⟩ | cases he

theorem SameRoles.record (h : SameRoles s t) (e : Event) : SameRoles (s.record e) (t.record e) := by
  obtain ⟨h₁, h₂, h₃, h₄, h₅, h₆, h₇⟩ := h
  cases e <;> constructor <;> first | rfl | assumption

theorem SameDeposits.record (h : SameDeposits s t) (e : Event) :
    SameDeposits (s.record e) (t.record e) := by
  have hs := h
  obtain ⟨h₁, h₂, h₃, h₄⟩ := h
  cases e with
  | nativeDeposited user amount newTvl epoch =>
    refine ⟨rfl, h₂, ?_, h₄⟩
    show Function.update t.nativeDepositWindows user _ = Function.update s.nativeDepositWindows user _
    rw [h₃]
  | tokenDeposited user token amount newTvl epoch =>
    refine ⟨h₁, ?_, h₃, ?_⟩
    · show Function.update t.totalDepositedTokens token _ = Function.update s.totalDepositedTokens token _
      rw [h₂]
    · show Function.update t.tokenDepositWindows user _ = Function.update s.tokenDepositWindows user _
      rw [h₄]
  | _ => exact ⟨h₁, h₂, h₃, h₄⟩

/-- Logs with the same deposits and withdrawals tell the same deposits. -/
theorem recorded_sameDeposits {logs logs' : List (Nat × Event)}
    (h : logs'.filter (fun l => l.2.guarded) = logs.filter fun l => l.2.guarded) :
    SameDeposits (recorded logs') (recorded logs) := by
  have hfilter : ∀ l : List (Nat × Event),
      SameDeposits (recorded l) (recorded (l.filter fun l => l.2.guarded)) :=
    replay_filter .refl .trans (fun s entry he => record_sameDeposits s he)
      fun entry hst => hst.record entry.2
  have hback := hfilter logs
  rw [← h] at hback
  obtain ⟨h₁, h₂, h₃, h₄⟩ := hback
  exact (hfilter logs').trans ⟨h₁.symm, h₂.symm, h₃.symm, h₄.symm⟩

/-! ## One write -/

/-- An administrative write is what its event tells. -/
theorem Admin.record_eq {sender : Address} (h : Admin sender s e t) : s.record e = t := by
  cases h <;> rfl

/-- An administrative event is allowed by the roles alone. -/
theorem Admin.congr {sender : Address} (h : Admin sender s e t) (hr : SameRoles r s) :
    Admin sender r e (r.record e) := by
  obtain ⟨howner, hpending, hguardian, hpaused, _, _, _⟩ := hr
  cases h with
  | emergencyPause hs hp =>
    rw [howner, hguardian] at hs
    exact .emergencyPause hs (hpaused ▸ hp)
  | unpause hs hp => exact .unpause (howner ▸ hs) (hpaused ▸ hp)
  | setLimits hs hpos hdaily hcap => exact .setLimits (howner ▸ hs) hpos hdaily hcap
  | setGuardian hs h0 =>
    rw [hguardian]
    exact .setGuardian (howner ▸ hs) h0
  | transferOwnership hs h0 =>
    rw [howner]
    exact .transferOwnership (howner ▸ hs) h0
  | acceptOwnership hs =>
    rw [howner, hpending]
    exact .acceptOwnership (hpending ▸ hs)

/-- The window that a deposit leaves is what its event tells. -/
theorem Charged.window_eq {now : Nat} {amount currentTvl newTvl : Uint256}
    {window window' : UserDepositWindow} (h : Charged s now amount currentTvl window newTvl window') :
    window.record window'.currentEpoch amount = window' := by
  obtain ⟨epoch, depositedInEpoch, totalCumulative⟩ := window'
  have hepoch : epoch = now / epochDuration := h.epoch_eq
  have hdeposited := h.deposited_eq
  have hcumulative := h.cumulative_eq
  simp only at hdeposited hcumulative
  have hd := depositedInEpoch.isLt
  have hc := totalCumulative.isLt
  simp only [UserDepositWindow.record, UserDepositWindow.mk.injEq, true_and]
  refine ⟨Fin.ext ?_, Fin.ext ?_⟩
  · rw [hdeposited] at hd ⊢
    rw [hepoch, Fin.val_add, Nat.mod_eq_of_lt hd]
  · rw [hcumulative] at hc ⊢
    rw [Fin.val_add, Nat.mod_eq_of_lt hc]

end Storages

/-! ## Bodies that call out -/

section
variable {m : Message} {this : Address} {w v : World} {e : Event} {c : Outgoing} {s : Storage}

theorem Calls.guarded (h : Calls m this w c e s) : e.guarded = true := by
  cases h <;> rfl

/-- The deposits that a body leaves when it calls out are what its event tells. -/
theorem Calls.sameDeposits (h : Calls m this w c e s) : SameDeposits (w.storage.record e) s := by
  cases h with
  | depositToken hfn hp h0 hc =>
    show SameDeposits (w.storage.withToken _ _ _ _) _
    rw [hc.window_eq]
    exact ⟨rfl, rfl, rfl, rfl⟩
  | withdrawNative => exact ⟨rfl, rfl, rfl, rfl⟩
  | withdrawToken => exact ⟨rfl, rfl, rfl, rfl⟩

/-- The event of a body may be logged once its callee is done. -/
theorem Calls.entered (h : Calls m this w c e s) (hstorage : recorded w.logs = w.storage)
    (hwaited : Waited w.now w.logs v.logs) : Entered m v.logs (w.now, e) := by
  cases h with
  | depositToken hfn hp h0 hc =>
    rw [← hstorage] at hp hc
    exact .tokenDeposited hfn hwaited hp h0 hc
  | withdrawNative hfn howner h0 hb =>
    rw [← hstorage] at howner
    exact .nativeWithdrawn hfn hwaited howner h0
  | withdrawToken hfn howner h0 =>
    rw [← hstorage] at howner
    exact .tokenWithdrawn hfn hwaited howner h0

/-- While a body waits, only administrative events of its block are logged. -/
theorem Kept.waited (h : Kept (w.calling c s) v) (hlocked : s.unlocked = 0) :
    Waited w.now w.logs v.logs := by
  have hne : (w.calling c s).storage.unlocked ≠ 1 := by
    show s.unlocked ≠ 1
    rw [hlocked]
    decide
  have hfilter : v.logs.filter (fun l => l.2.guarded) = w.logs.filter fun l => l.2.guarded :=
    (h.locked hne).logs
  obtain ⟨later, hlater, htime⟩ := h.logs
  have hlater : v.logs = w.logs ++ later := hlater
  refine ⟨later, hlater, fun entry hentry => ⟨htime entry hentry, ?_⟩⟩
  rw [hlater, List.filter_append, List.append_right_eq_self, List.filter_eq_nil_iff] at hfilter
  simpa using hfilter entry hentry

/-! ## Runs -/

/-- The logs tell the storage while the mutex is free, and the roles while it is taken. -/
theorem recorded_invariant (this : Address) :
    Invariant this (fun _ => True) (fun w => recorded w.logs = w.storage)
      (fun w => SameRoles (recorded w.logs) w.storage) where
  outside o w := by
    cases o <;> exact ⟨id, id⟩
  admin {m w e s} _ ha := by
    constructor
    · intro hstorage
      show recorded (w.logs ++ [_]) = s
      rw [recorded_concat, hstorage]
      exact ha.record_eq
    · intro hroles
      show SameRoles (recorded (w.logs ++ [_])) s
      rw [recorded_concat]
      exact ha.record_eq ▸ hroles.record e
  deposit {m w newTvl window} _ hu hp hc hstorage := by
    show recorded (w.logs ++ [_]) = _
    rw [recorded_concat, hstorage]
    show w.storage.withNative _ _ _ = _
    rw [hc.window_eq]
    exact Storage.eq_of_same ⟨rfl, rfl, rfl, rfl, rfl, rfl, rfl⟩ ⟨rfl, rfl, rfl, rfl⟩ hu
  call {m w c e s} _ _ hc hstorage := by
    show SameRoles (recorded w.logs) s
    rw [hstorage]
    exact hc.sameRoles
  back {m w c e s v} _ hu hc hstorage hkept hroles := by
    have hlocked : (w.calling c s).storage.unlocked ≠ 1 := by
      show s.unlocked ≠ 1
      rw [hc.unlocked]
      decide
    have hfrozen := hkept.locked hlocked
    -- nothing of the deposits was logged while the body waited
    have hdeposits : SameDeposits (recorded v.logs) w.storage :=
      hstorage ▸ recorded_sameDeposits hfrozen.logs
    show recorded (v.logs ++ [_]) = _
    rw [recorded_concat]
    refine (Storage.eq_of_same (t := v.storage.lock 1) ?_ ?_ ?_).symm
    · exact (record_sameRoles _ hc.guarded).symm.trans
        (hroles.trans ⟨rfl, rfl, rfl, rfl, rfl, rfl, rfl⟩)
    · refine (hdeposits.record e).trans (hc.sameDeposits.trans ?_)
      exact ⟨hfrozen.native, hfrozen.tokens, hfrozen.nativeWindows, hfrozen.tokenWindows⟩
    · rw [Storage.record_unlocked, recorded_unlocked]
      rfl

/-- What the logs tell of the storage, by the mutex. -/
abbrev Told : World → Prop :=
  ByMutex (fun w => recorded w.logs = w.storage) fun w => SameRoles (recorded w.logs) w.storage

theorem Told.sameRoles (h : Told w) : SameRoles (recorded w.logs) w.storage := by
  by_cases hu : w.storage.unlocked = 1
  · rw [h.1 hu]
    exact .refl _
  · exact h.2 hu

/-- Each stretch of a frame logs what its sender may. -/
theorem code_logs (h : Told w) :
    (code this m w).Owns (vault this) (fun w w' => Kept w w' ∧ (Told w → Told w')) (Logs m) w := by
  have hdoes : Does m this w (code this m w) := code_does
  generalize code this m w = st at hdoes ⊢
  cases hdoes with
  | reverts e => trivial
  | bodyReverts e hu => trivial
  | nothing => exact .inl rfl
  | deposit hfn hgas hu hp hc =>
    have hstorage := h.1 hu
    rw [← hstorage] at hp hc
    exact .inr ⟨_, rfl, .nativeDeposited hfn hp hc⟩
  | admin hgas ha => exact .inr ⟨_, rfl, .admin (ha.congr h.sameRoles)⟩
  | calls hu hcalls hret hrev =>
    refine calls_owns hret hrev (.inl rfl) fun v hv => .inr ⟨_, rfl, ?_⟩
    have hnow : v.now = w.now := hv.1.now
    rw [hnow]
    exact hcalls.entered (h.1 hu) (hv.1.waited hcalls.unlocked)

/-- What a run of recorded stretches makes of the logs. -/
theorem grown_of_reaches {T : List (Obs World Message)} {p : World}
    (hT : ∀ m start u u', .own m start u u' ∈ T → Logs m u u') (h : (vault this).Reaches T w p) :
    Grown (Written T) w.logs p.logs := by
  induction h with
  | refl => exact .start
  | tail _ hmove ih =>
    cases hmove with
    | own hown =>
      rcases hT _ _ _ _ hown with hsame | ⟨e, hlogs, hentered⟩
      · rw [hsame]
        exact ih
      · rw [hlogs]
        exact ih.entry ⟨_, _, _, _, hown, rfl, rfl, hlogs, hentered⟩
    | outside o => cases o <;> exact ih
    | enter c => exact ih

theorem run_grown (this : Address) (x : Script Reply Message Outside) (h : Told w) :
    Grown (Written ((vault this).run x w).2) w.logs ((vault this).run x w).1.logs ∧
      ∀ p, .control p ∈ ((vault this).run x w).2 →
        Grown (Written ((vault this).run x w).2) w.logs p.logs := by
  have hT := (recorded_invariant this).guarantee.own (Q := fun m _ => Logs m) (fun _ _ hH => hH)
    (fun m u _ hu => code_logs hu) x.calls_true h
  obtain ⟨hend, hpoints⟩ := run_moves (K := vault this) x w
  exact ⟨grown_of_reaches hT hend, fun p hp => grown_of_reaches hT (hpoints p hp)⟩

theorem Written.mono {T T' : List (Obs World Message)} (hT : ∀ o ∈ T, o ∈ T')
    (logs : List (Nat × Event)) (entry : Nat × Event) (h : Written T logs entry) :
    Written T' logs entry := by
  obtain ⟨m, start, u, u', hown, hrest⟩ := h
  exact ⟨m, start, u, u', hT _ hown, hrest⟩

/-- Every entry of a history was written by one of its frames. -/
theorem play_grown (this : Address) (H : History) (hu : w.storage.unlocked = 1)
    (hw : recorded w.logs = w.storage) :
    Grown (Written (play this H w).2) w.logs (play this H w).1.logs ∧
      ∀ p, .control p ∈ (play this H w).2 → Grown (Written (play this H w).2) w.logs p.logs := by
  induction H generalizing w with
  | nil => exact ⟨.start, nofun⟩
  | cons tx H ih =>
    obtain ⟨time, x⟩ := tx
    have hu₀ : ({ w with now := time } : World).storage.unlocked = 1 := hu
    have hw₀ : recorded ({ w with now := time } : World).logs =
      ({ w with now := time } : World).storage := hw
    obtain ⟨hkept, hend, _⟩ := (recorded_invariant this).run x.calls_true hu₀ hw₀
    obtain ⟨hgrown, hpoints⟩ := run_grown this x ⟨fun _ => hw₀, fun hno => absurd hu₀ hno⟩
    obtain ⟨hgrown', hpoints'⟩ := ih (hkept.unlocked.trans hu₀) hend
    have hfirst : ∀ o ∈ ((vault this).run x { w with now := time }).2,
        o ∈ (play this ((time, x) :: H) w).2 := fun o ho => List.mem_append_left _ ho
    have hrest : ∀ o ∈ (play this H ((vault this).run x { w with now := time }).1).2,
        o ∈ (play this ((time, x) :: H) w).2 := fun o ho => List.mem_append_right _ ho
    have hgrown := hgrown.mono (Written.mono hfirst)
    refine ⟨hgrown.trans (hgrown'.mono (Written.mono hrest)), fun p hp => ?_⟩
    cases List.mem_append.mp hp with
    | inl hp => exact (hpoints p hp).mono (Written.mono hfirst)
    | inr hp => exact hgrown.trans ((hpoints' p hp).mono (Written.mono hrest))

end

theorem Deployed.recorded {w : World} (h : Deployed w) :
    w.storage.unlocked = 1 ∧ recorded w.logs = w.storage := by
  obtain ⟨owner, guardian, cap, perTx, daily, _, _, _, _, _, hs, _, hlogs⟩ := h.cases
  rw [hs, hlogs]
  exact ⟨rfl, rfl⟩

/-- **The logs are a complete and lawful record.** After every history of a deployed vault, the
storage is what the logs tell, and every entry after the deployment was logged by the frame of a
message that the entries before it entitled to it. At every point at which outside code has
control the entries are such too, the roles, the limits and the pause flag are those that the logs
tell, and so is the whole storage unless a guarded body waits. -/
theorem storage_recorded (this : Address) {H : History} {w : World} (hw : Deployed w) :
    (play this H w).1.storage = recorded (play this H w).1.logs ∧
    Grown (Written (play this H w).2) w.logs (play this H w).1.logs ∧
    ∀ p, .control p ∈ (play this H w).2 → Grown (Written (play this H w).2) w.logs p.logs ∧
      SameRoles (recorded p.logs) p.storage ∧
      (p.storage.unlocked = 1 → p.storage = recorded p.logs) := by
  obtain ⟨hu, hrecorded⟩ := hw.recorded
  obtain ⟨_, hend, htold⟩ := (recorded_invariant this).play
    (fun _ _ _ h => h) (fun tx _ => tx.2.calls_true) (paced_true H _) hu hrecorded
  obtain ⟨hgrown, hpoints⟩ := play_grown this H hu hrecorded
  refine ⟨hend.symm, hgrown, fun p hp => ⟨hpoints p hp, ?_, fun hmutex => ?_⟩⟩
  · exact Told.sameRoles (htold p hp)
  · exact ((htold p hp).1 hmutex).symm

/-- The owner changes and the vault is paused in the middle of a deposit, which is logged all the
same: it was checked before. -/
theorem tokenTakesOver_recorded :
    let final := (play 9 tokenTakesOver smallVault).1
    final.storage = recorded final.logs ∧ final.storage.paused = true ∧
      final.logs.getLast? = some (6, .tokenDeposited 3 7 50 50 0) ∧
      Grown (Written (play 9 tokenTakesOver smallVault).2) smallVault.logs final.logs := by
  obtain ⟨hstorage, hgrown, _⟩ := storage_recorded 9 (H := tokenTakesOver) smallVault_deployed
  exact ⟨hstorage, rfl, rfl, hgrown⟩

end Ark.LaunchGuardrail
