import Ark.Gov

/- The timelock's keeper (`x/govtimelock/keeper/keeper.go`): a schedule of
   (execution time, proposal id) keys, the activation height and the execution
   delay, each of the two items unset until it is written.

   What is proved: the delay in force is positive whatever is stored
   (`getExecutionDelay_pos`), `due` is the ascending part of the schedule up to
   now (`mem_due`, `due_sorted`), and a schedule write fails exactly for a time
   that has no key. -/
namespace Ark.GovTimelock
open Ark.Lib Ark.Gov

/-- `ModuleName`. -/
def moduleName : String := "govtimelock"

/-- `MinimumDelay`, 48 hours. -/
def minimumDelay : Duration := 48 * hour

structure ScheduledProposal where
  proposalID : Nat
  executionTime : Time
  deriving DecidableEq, Repr

/-- The schedule key of an entry: `collections.Join(executionTime, proposalID)`. -/
def ScheduledProposal.key (sp : ScheduledProposal) : Pair := ⟨sp.executionTime, sp.proposalID⟩

def ScheduledProposal.ofKey (key : Pair) : ScheduledProposal := ⟨key.k2, key.k1⟩

@[simp] theorem ScheduledProposal.key_ofKey (key : Pair) : (ofKey key).key = key := rfl
@[simp] theorem ScheduledProposal.ofKey_key (sp : ScheduledProposal) : ofKey sp.key = sp := rfl

/-- The timelock's part of the x/gov store (prefixes 64 to 66). -/
structure Timelock where
  scheduledProposals : KeySet Pair
  activationHeight : Option Int
  executionDelay : Option Int

namespace Timelock

/-- A store nothing has been written to. -/
def fresh : Timelock := ⟨KeySet.empty, none, none⟩

/-- `Schedule`. Encoding the key of a time outside years 0 to 9999 panics. -/
def schedule (t : Timelock) (proposalID : Nat) (executionTime : Time) : Except Fault Timelock :=
  if HasTimeKey executionTime then
    .ok { t with scheduledProposals := t.scheduledProposals.set ⟨executionTime, proposalID⟩ }
  else .error (.panic "time has no key")

/-- `Remove`. -/
def remove (t : Timelock) (executionTime : Time) (proposalID : Nat) : Timelock :=
  { t with scheduledProposals := t.scheduledProposals.remove ⟨executionTime, proposalID⟩ }

/-- `ClearSchedule`. -/
def clearSchedule (t : Timelock) : Timelock := { t with scheduledProposals := KeySet.empty }

/-- `SetActivationHeight`. -/
def setActivationHeight (t : Timelock) (height : Int) : Timelock :=
  { t with activationHeight := some height }

/-- `GetActivationHeight`: 0 when unset. -/
def getActivationHeight (t : Timelock) : Int := t.activationHeight.getD 0

/-- `SetExecutionDelay`. -/
def setExecutionDelay (t : Timelock) (delay : Duration) : Timelock :=
  { t with executionDelay := some delay }

/-- `GetExecutionDelay`: the fallback when the delay is unset or not positive. -/
def getExecutionDelay (t : Timelock) (fallback : Duration) : Duration :=
  match t.executionDelay with
  | none => fallback
  | some stored => if stored ≤ 0 then fallback else stored

/-- `IsActive`. -/
def isActive (t : Timelock) (height : Int) : Bool :=
  match t.activationHeight with
  | none => false
  | some activationHeight => decide (activationHeight ≤ height)

/-- `collect`: the entries whose key is in the range, in key order. -/
def collect (t : Timelock) (rng : Pair → Bool) : List ScheduledProposal :=
  (t.scheduledProposals.filter rng).map ScheduledProposal.ofKey

/-- `Due`. -/
def due (t : Timelock) (now : Time) : List ScheduledProposal := t.collect (untilPair now)

/-- `Export`. -/
def exportEntries (t : Timelock) : List ScheduledProposal := t.collect fun _ => true

variable {t : Timelock}

theorem schedule_ok {t' : Timelock} {id : Nat} {e : Time} :
    t.schedule id e = .ok t' ↔ HasTimeKey e ∧
      t' = { t with scheduledProposals := t.scheduledProposals.set ⟨e, id⟩ } := by
  unfold schedule
  split <;> simp_all [eq_comm]

@[simp] theorem mem_due {now : Time} {sp : ScheduledProposal} :
    sp ∈ t.due now ↔ sp.key ∈ t.scheduledProposals ∧ sp.executionTime ≤ now := by
  unfold due collect
  rw [List.mem_map]
  constructor
  · rintro ⟨key, hkey, rfl⟩
    simpa [ScheduledProposal.ofKey, ScheduledProposal.key] using hkey
  · intro ⟨h, hle⟩
    exact ⟨sp.key, by simpa using ⟨h, hle⟩, rfl⟩

@[simp] theorem mem_exportEntries {sp : ScheduledProposal} :
    sp ∈ t.exportEntries ↔ sp.key ∈ t.scheduledProposals := by
  unfold exportEntries collect
  rw [List.mem_map]
  constructor
  · rintro ⟨key, hkey, rfl⟩
    simpa using hkey
  · intro h
    exact ⟨sp.key, by simpa using h, rfl⟩

theorem due_sorted (now : Time) :
    (t.due now).Pairwise fun a b => a.key < b.key :=
  List.pairwise_map.mpr (t.scheduledProposals.filter_sorted _)

/-- The delay in force with a positive fallback is positive. -/
theorem getExecutionDelay_pos {fallback : Duration} (h : 0 < fallback) :
    0 < t.getExecutionDelay fallback := by
  unfold getExecutionDelay
  split
  · exact h
  · split
    · exact h
    · rename_i hle
      exact not_le.mp hle

theorem minimumDelay_pos : 0 < minimumDelay := by decide

theorem isActive_iff {height : Int} :
    t.isActive height = true ↔ ∃ a, t.activationHeight = some a ∧ a ≤ height := by
  unfold isActive
  split <;> simp_all

end Timelock
end Ark.GovTimelock
