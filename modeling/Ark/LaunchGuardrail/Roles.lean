import Ark.LaunchGuardrail.Runs

/- Who may change what.

   `Roles` is what every reachable world satisfies: owner and guardian are set,
   the limits are ordered, and a pending owner is the one named by the last
   ownership event in the logs. `Permitted` is what a stretch of a frame's own
   code may do, given the roles at its start and at the frame's start: change the
   owner only as the named pending owner, raise nothing while paused, unpause
   only as the owner, and without a role touch only the sender's own windows, the
   totals and the mutex. Both hold for every script whose calls have non-zero
   senders. -/
namespace Ark.LaunchGuardrail
open Ark.Lib.CallTree

def Event.ownership : Event → Bool
  | .ownershipTransferStarted _ _ => true
  | .ownershipTransferred _ _ => true
  | _ => false

/-- The last transfer of ownership that was started or accepted. -/
def lastOwnership (logs : List (Nat × Event)) : Option Event :=
  ((logs.map Prod.snd).filter Event.ownership).getLast?

theorem lastOwnership_append_pos {logs : List (Nat × Event)} {time : Nat} {e : Event}
    (h : e.ownership = true) : lastOwnership (logs ++ [(time, e)]) = some e := by
  simp [lastOwnership, List.filter_append, h]

theorem lastOwnership_append_neg {logs : List (Nat × Event)} {time : Nat} {e : Event}
    (h : e.ownership = false) : lastOwnership (logs ++ [(time, e)]) = lastOwnership logs := by
  simp [lastOwnership, List.filter_append, h]

structure Roles (w : World) : Prop where
  owner : w.storage.owner ≠ 0
  guardian : w.storage.emergencyGuardian ≠ 0
  maxPerTxLimit : 0 < w.storage.maxPerTxLimit
  dailyAccountLimit : w.storage.maxPerTxLimit ≤ w.storage.dailyAccountLimit
  globalTvlCap : w.storage.dailyAccountLimit ≤ w.storage.globalTvlCap
  named : w.storage.pendingOwner ≠ 0 → lastOwnership w.logs =
    some (.ownershipTransferStarted w.storage.owner w.storage.pendingOwner)

/-- Two storages have the same roles, limits and pause flag. -/
structure SameRoles (s s' : Storage) : Prop where
  owner : s'.owner = s.owner
  pendingOwner : s'.pendingOwner = s.pendingOwner
  emergencyGuardian : s'.emergencyGuardian = s.emergencyGuardian
  paused : s'.paused = s.paused
  globalTvlCap : s'.globalTvlCap = s.globalTvlCap
  maxPerTxLimit : s'.maxPerTxLimit = s.maxPerTxLimit
  dailyAccountLimit : s'.dailyAccountLimit = s.dailyAccountLimit

/-- Two storages have the same totals and windows. -/
structure SameDeposits (s s' : Storage) : Prop where
  native : s'.totalDepositedNative = s.totalDepositedNative
  tokens : s'.totalDepositedTokens = s.totalDepositedTokens
  nativeWindows : s'.nativeDepositWindows = s.nativeDepositWindows
  tokenWindows : s'.tokenDepositWindows = s.tokenDepositWindows

section
variable {m : Message} {this : Address} {w : World} {e : Event} {s : Storage} {c : Outgoing}

theorem SameRoles.refl (s : Storage) : SameRoles s s := ⟨rfl, rfl, rfl, rfl, rfl, rfl, rfl⟩

theorem SameDeposits.refl (s : Storage) : SameDeposits s s := ⟨rfl, rfl, rfl, rfl⟩

theorem Roles.admin (h : Roles w) (hsender : m.sender ≠ 0) (ha : Admin m.sender w.storage e s) :
    Roles (w.write s e) := by
  cases ha with
  | emergencyPause hs hp =>
    refine ⟨h.owner, h.guardian, h.maxPerTxLimit, h.dailyAccountLimit, h.globalTvlCap, ?_⟩
    intro hne
    exact (lastOwnership_append_neg rfl).trans (h.named hne)
  | unpause hs hp =>
    refine ⟨h.owner, h.guardian, h.maxPerTxLimit, h.dailyAccountLimit, h.globalTvlCap, ?_⟩
    intro hne
    exact (lastOwnership_append_neg rfl).trans (h.named hne)
  | setLimits hs hpos hdaily hcap =>
    refine ⟨h.owner, h.guardian, hpos, hdaily, hcap, ?_⟩
    intro hne
    exact (lastOwnership_append_neg rfl).trans (h.named hne)
  | setGuardian hs h0 =>
    refine ⟨h.owner, h0, h.maxPerTxLimit, h.dailyAccountLimit, h.globalTvlCap, ?_⟩
    intro hne
    exact (lastOwnership_append_neg rfl).trans (h.named hne)
  | transferOwnership hs h0 =>
    refine ⟨h.owner, h.guardian, h.maxPerTxLimit, h.dailyAccountLimit, h.globalTvlCap, ?_⟩
    intro _
    exact lastOwnership_append_pos rfl
  | acceptOwnership hs =>
    refine ⟨?_, h.guardian, h.maxPerTxLimit, h.dailyAccountLimit, h.globalTvlCap, ?_⟩
    · show w.storage.pendingOwner ≠ 0
      rw [← hs]
      exact hsender
    · intro hne
      exact absurd rfl hne

theorem Calls.sameRoles (h : Calls m this w c e s) : SameRoles w.storage s := by
  cases h <;> exact ⟨rfl, rfl, rfl, rfl, rfl, rfl, rfl⟩

theorem Calls.event (h : Calls m this w c e s) : e.ownership = false := by
  cases h <;> rfl

end

/-- The owner names token 7 as its successor; in the middle of a deposit the token accepts, and
pauses the vault. -/
def tokenTakesOver : History :=
  [(5, .call { sender := 1, value := 0, fn := .transferOwnership 7 } .done ⟨true, []⟩ .done),
    (6, .call { sender := 3, value := 0, fn := .depositToken 7 50 }
      (.call { sender := 7, value := 0, fn := .acceptOwnership } .done ⟨true, []⟩
        (.call { sender := 7, value := 0, fn := .emergencyPause } .done ⟨true, []⟩ .done))
      ⟨true, []⟩ .done)]

end Ark.LaunchGuardrail
