import Ark.Lib.Effect
import Ark.GovTimelock.Keeper

/- The timelocked x/gov end blocker (`x/govtimelock/abci.go`), function by function.

   A call runs on the chain's state and the timelock's store and keeps a log of
   what it did that a run-level claim can speak of: tallies, deposit settlements,
   calls of `executeProposal`, messages handed to a handler, hook calls, queue
   entries written, and events. The log is not chain state. Go's `ctx.CacheContext`
   is the value of the state before the cached part: a cached part that fails
   leaves the state as it was.

   A message fails in one of three ways, and the two end blockers compared later
   word the failure differently, so the loop over messages takes the way one
   message runs as a parameter (`runMessages`); `executeProposal` is that loop with
   this module's `safeExecuteHandler`. -/
namespace Ark.GovTimelock
open Ark.Lib Ark.Gov

/-- The proposal-result attribute of an event. -/
inductive ProposalResult
  | dropped
  | passed
  | rejected
  | failed
  | expeditedRejected
  deriving DecidableEq, Repr

inductive Event
  | inactiveProposal (proposalID : Nat) (result : ProposalResult) (log : Option String)
  | activeProposal (proposalID : Nat) (result : ProposalResult) (log : String)
  | proposalScheduled (proposalID : Nat) (executionTime : String)
  | proposalExecuted (proposalID : Nat) (result : ProposalResult) (log : String)
  | handler (event : SdkEvent)
  deriving DecidableEq, Repr

/-- One entry of the log. -/
inductive Obs
  | tallied (proposalID : Nat) (passes : Bool)
  | settled (proposalID : Nat) (burned : Bool)
  | executing (proposalID : Nat)
  | delivered (proposalID idx : Nat)
  | hooked (proposalID : Nat)
  | minDepositHooked (proposalID : Nat)
  | requeued (proposalID : Nat) (votingStartTime : Time) (votingPeriod : Duration)
  | initGenesis
  | event (e : Event)
  deriving DecidableEq, Repr

/-- The state an end blocker runs on. -/
structure St (Any Rest : Type) where
  world : World Any Rest
  timelock : Timelock
  log : List Obs

abbrev M (Any Rest : Type) := EStateM Fault (St Any Rest)

variable {Any Msg Rest : Type}

/-! ## Access to the state -/

/-- An x/gov computation, run on the chain's state. -/
def gov {α : Type} (x : GovM Any Rest α) : M Any Rest α := fun s =>
  match x s.world with
  | .ok a w => .ok a { s with world := w }
  | .error e w => .error e { s with world := w }

def observe (os : List Obs) : M Any Rest Unit := fun s => .ok () { s with log := s.log ++ os }

def getWorld : M Any Rest (World Any Rest) := fun s => .ok s.world s

def setWorld (w : World Any Rest) : M Any Rest Unit := fun s => .ok () { s with world := w }

def getTimelock : M Any Rest Timelock := fun s => .ok s.timelock s

def setTimelock (t : Timelock) : M Any Rest Unit := fun s => .ok () { s with timelock := t }

/-- `govKeeper.Params.Get`. -/
def getParams : M Any Rest Params := do
  match (← getWorld).params with
  | some params => pure params
  | none => throw (.err "collections: not found: params")

/-- `ActiveProposalsQueue.Remove`. -/
def removeActive (key : Pair) : M Any Rest Unit := do
  setWorld ((← getWorld).removeActive key)

/-- `InactiveProposalsQueue.Remove`. -/
def removeInactive (key : Pair) : M Any Rest Unit := do
  setWorld ((← getWorld).removeInactive key)

/-- `ActiveProposalsQueue.Set`. Encoding the key of a time outside years 0 to 9999 panics. -/
def setActive (key : Pair) : M Any Rest Unit := do
  if HasTimeKey key.k1 then setWorld ((← getWorld).setActive key)
  else throw (.panic "time has no key")

def schedule (proposalID : Nat) (executionTime : Time) : M Any Rest Unit := do
  match (← getTimelock).schedule proposalID executionTime with
  | .ok t => setTimelock t
  | .error e => throw e

def removeScheduled (executionTime : Time) (proposalID : Nat) : M Any Rest Unit := do
  setTimelock ((← getTimelock).remove executionTime proposalID)

/-- A pointer that is read where it must not be `nil`. -/
def deref {α : Type} : Option α → M Any Rest α
  | some a => pure a
  | none => throw (.panic "invalid memory address or nil pointer dereference")

/-- A statement under an `if` that has no `else`. -/
def runIf (c : Bool) (x : M Any Rest Unit) : M Any Rest Unit := if c then x else pure ()

@[simp] theorem runIf_true (x : M Any Rest Unit) : runIf true x = x := rfl
@[simp] theorem runIf_false (x : M Any Rest Unit) : runIf false x = pure () := rfl

section Access
open Effect
variable {α : Type} {s s' : St Any Rest}

@[simp] theorem gov_ok {x : GovM Any Rest α} {a : α} :
    gov x s = .ok a s' ↔ ∃ w, x s.world = .ok a w ∧ s' = { s with world := w } := by
  unfold gov
  split <;> simp_all [eq_comm]

@[simp] theorem observe_ok {os : List Obs} {u : Unit} :
    observe os s = .ok u s' ↔ s' = { s with log := s.log ++ os } := by
  simp [observe, eq_comm]

@[simp] theorem getWorld_ok {w : World Any Rest} :
    getWorld s = .ok w s' ↔ w = s.world ∧ s = s' := by
  simp [getWorld, eq_comm]

@[simp] theorem setWorld_ok {w : World Any Rest} {u : Unit} :
    setWorld w s = .ok u s' ↔ s' = { s with world := w } := by
  simp [setWorld, eq_comm]

@[simp] theorem getTimelock_ok {t : Timelock} :
    (getTimelock : M Any Rest Timelock) s = .ok t s' ↔ t = s.timelock ∧ s = s' := by
  simp [getTimelock, eq_comm]

@[simp] theorem setTimelock_ok {t : Timelock} {u : Unit} :
    setTimelock t s = .ok u s' ↔ s' = { s with timelock := t } := by
  simp [setTimelock, eq_comm]

@[simp] theorem getParams_ok {params : Params} :
    getParams s = .ok params s' ↔ s.world.params = some params ∧ s = s' := by
  simp only [getParams, bind_ok, getWorld_ok]
  constructor
  · rintro ⟨_, _, ⟨rfl, rfl⟩, h⟩
    cases hp : s.world.params with
    | none => simp [hp] at h
    | some p => simpa [hp] using h
  · rintro ⟨h, rfl⟩
    exact ⟨_, _, ⟨rfl, rfl⟩, by simp [h]⟩

@[simp] theorem removeActive_ok {key : Pair} {u : Unit} :
    removeActive key s = .ok u s' ↔ s' = { s with world := s.world.removeActive key } := by
  simp [removeActive]

@[simp] theorem removeInactive_ok {key : Pair} {u : Unit} :
    removeInactive key s = .ok u s' ↔ s' = { s with world := s.world.removeInactive key } := by
  simp [removeInactive]

@[simp] theorem setActive_ok {key : Pair} {u : Unit} :
    setActive key s = .ok u s' ↔
      HasTimeKey key.k1 ∧ s' = { s with world := s.world.setActive key } := by
  unfold setActive
  split <;> simp_all

@[simp] theorem schedule_ok {id : Nat} {e : Time} {u : Unit} :
    schedule id e s = .ok u s' ↔
      HasTimeKey e ∧ s' = { s with timelock :=
        { s.timelock with scheduledProposals := s.timelock.scheduledProposals.set ⟨e, id⟩ } } := by
  simp only [schedule, bind_ok, getTimelock_ok]
  constructor
  · rintro ⟨_, _, ⟨rfl, rfl⟩, h⟩
    cases hs : s.timelock.schedule id e with
    | error err => simp [hs] at h
    | ok t =>
      obtain ⟨hk, rfl⟩ := Timelock.schedule_ok.mp hs
      exact ⟨hk, by simpa [hs] using h⟩
  · rintro ⟨hk, rfl⟩
    exact ⟨_, _, ⟨rfl, rfl⟩, by simp [Timelock.schedule, hk]⟩

@[simp] theorem removeScheduled_ok {id : Nat} {e : Time} {u : Unit} :
    removeScheduled e id s = .ok u s' ↔
      s' = { s with timelock := s.timelock.remove e id } := by
  simp [removeScheduled]

@[simp] theorem deref_ok {o : Option α} {a : α} :
    deref o s = .ok a s' ↔ o = some a ∧ s = s' := by
  cases o with
  | none => simp [deref]
  | some b => simp [deref]

end Access

/-! ## Executing a proposal's messages -/

/-- What running a list of messages in a cache context came to: how many were handed
to a handler, and the cache context with the messages' events, or how it stopped. -/
structure Execution (Any Rest : Type) where
  delivered : Nat
  outcome : Except Fault (World Any Rest × List SdkEvent)

/-- `safeExecuteHandler`: a panic is recovered and becomes an error. -/
def safeExecuteHandler (k : GovKeeper Any Msg Rest) (ctx : Ctx) (msg : Msg)
    (handler : Option (Handler Any Msg Rest)) (w : World Any Rest) :
    Except String (Option (List SdkEvent) × World Any Rest) :=
  match handler with
  | none => .error ("no handler for proposal message " ++ k.msgTypeURL msg)
  | some handler =>
    match handler ctx msg w with
    | .ok res w' => .ok (res, w')
    | .error (.err e) _ => .error e
    | .error (.panic recovered) _ =>
      .error ("handling x/gov proposal msg [" ++ k.msgString msg ++ "] panicked: " ++ recovered)

/-- How `executeProposal` runs the message at index `idx`: the handler's error is
wrapped with the index and the type URL. -/
def runMessage (k : GovKeeper Any Msg Rest) (ctx : Ctx) (idx : Nat) (msg : Msg)
    (w : World Any Rest) : Except String (Option (List SdkEvent) × World Any Rest) :=
  match safeExecuteHandler k ctx msg (k.handler msg) w with
  | .ok r => .ok r
  | .error execErr => .error ("message " ++ ToString.toString idx ++ " (" ++ k.msgTypeURL msg ++
      "): " ++ execErr)

/-- The loop over the messages, from index `idx` on with the events so far. A `nil`
result of a handler that returned no error is dereferenced outside the recovery. -/
def runMessages (k : GovKeeper Any Msg Rest)
    (run : Nat → Msg → World Any Rest → Except String (Option (List SdkEvent) × World Any Rest)) :
    Nat → List Msg → List SdkEvent → World Any Rest → Execution Any Rest
  | idx, [], events, w => ⟨idx, .ok (w, events)⟩
  | idx, msg :: msgs, events, w =>
    match run idx msg w with
    | .error err => ⟨if (k.handler msg).isSome then idx + 1 else idx, .error (.err err)⟩
    | .ok (none, _) =>
      ⟨idx + 1, .error (.panic "invalid memory address or nil pointer dereference")⟩
    | .ok (some evs, w') => runMessages k run (idx + 1) msgs (events ++ evs) w'

/-- What `executeProposal` returns when a message fails or the messages do not decode. -/
def executionFailed (proposal : Proposal Any) (err : String) :
    Proposal Any × ProposalResult × String :=
  ({ proposal with status := .failed, failedReason := err }, .failed,
    "passed, but failed on execution: " ++ err)

/-- The body of `executeProposal` for a given way of running one message: all messages
on a cache context, which is written only if every one of them succeeds. -/
def executeWith (k : GovKeeper Any Msg Rest)
    (run : Nat → Msg → World Any Rest → Except String (Option (List SdkEvent) × World Any Rest))
    (proposal : Proposal Any) : M Any Rest (Proposal Any × ProposalResult × String) := do
  observe [.executing proposal.id]
  match k.getMsgs proposal.messages with
  | .error err => pure (executionFailed proposal err)
  | .ok messages =>
    let x := runMessages k run 0 messages [] (← getWorld)
    observe ((List.range x.delivered).map (.delivered proposal.id))
    match x.outcome with
    | .ok (cache, events) =>
      setWorld cache
      observe (events.map fun e => .event (.handler e))
      pure ({ proposal with status := .passed, failedReason := "" }, .passed, "passed")
    | .error (.err err) => pure (executionFailed proposal err)
    | .error (.panic v) => throw (.panic v)

/-- `executeProposal`. -/
def executeProposal (k : GovKeeper Any Msg Rest) (ctx : Ctx) (proposal : Proposal Any) :
    M Any Rest (Proposal Any × ProposalResult × String) :=
  executeWith k (runMessage k ctx) proposal

/-! ## Hooks and settlement -/

/-- `runVotingPeriodEndedHook`: the hook runs on a cache context, written only if it
returns no error. -/
def runVotingPeriodEndedHook (k : GovKeeper Any Msg Rest) (ctx : Ctx) (proposalID : Nat) :
    M Any Rest Unit := do
  observe [.hooked proposalID]
  match k.afterProposalVotingPeriodEnded ctx proposalID (← getWorld) with
  | .ok _ cache => setWorld cache
  | .error (.err _) _ => pure ()
  | .error (.panic v) _ => throw (.panic v)

/-- The `AfterProposalFailedMinDeposit` hook, on a cache context as well. -/
def runFailedMinDepositHook (k : GovKeeper Any Msg Rest) (ctx : Ctx) (proposalID : Nat) :
    M Any Rest Unit := do
  observe [.minDepositHooked proposalID]
  match k.afterProposalFailedMinDeposit ctx proposalID (← getWorld) with
  | .ok _ cache => setWorld cache
  | .error (.err _) _ => pure ()
  | .error (.panic v) _ => throw (.panic v)

/-- Burn or refund a proposal's deposits. -/
def settleDeposits (k : GovKeeper Any Msg Rest) (ctx : Ctx) (proposalID : Nat) (burn : Bool) :
    M Any Rest Unit := do
  gov (if burn then k.deleteAndBurnDeposits ctx proposalID
    else k.refundAndDeleteDeposits ctx proposalID)
  observe [.settled proposalID burn]

/-- The record `failUnsupportedProposal` stores. -/
def unsupportedProposal (proposal : Proposal Any) (reason : String) : Proposal Any :=
  { proposal with
    status := .failed
    failedReason := "proposal failed because it cannot be processed by gov: " ++ reason
    messages := [] }

/-- `failUnsupportedProposal`. -/
def failUnsupportedProposal (k : GovKeeper Any Msg Rest) (ctx : Ctx) (proposal : Proposal Any)
    (reason : String) (active : Bool) : M Any Rest Unit := do
  gov (k.setProposal ctx (unsupportedProposal proposal reason))
  settleDeposits k ctx proposal.id false
  observe [.event (if active then .activeProposal proposal.id .failed reason
    else .inactiveProposal proposal.id .failed (some reason))]

/-! ## The inactive queue -/

/-- The loop body of `processInactiveProposals`. -/
def processInactiveProposal (k : GovKeeper Any Msg Rest) (ctx : Ctx) (prop : Pair) :
    M Any Rest Unit := do
  match (← getWorld).getProposal prop.k2 with
  | .errEncoding proposal err =>
    failUnsupportedProposal k ctx { proposal with id := prop.k2 } err false
    removeInactive prop
    gov (k.deleteProposal ctx prop.k2)
  | .errNotFound => throw (.err (proposalNotFound prop.k2))
  | .found proposal =>
    gov (k.deleteProposal ctx proposal.id)
    let params ← getParams
    settleDeposits k ctx proposal.id params.burnProposalDepositPrevote
    runFailedMinDepositHook k ctx proposal.id
    observe [.event (.inactiveProposal proposal.id .dropped none)]

/-- `processInactiveProposals`. -/
def processInactiveProposals (k : GovKeeper Any Msg Rest) (ctx : Ctx) : M Any Rest Unit := do
  let inactiveProps := (← getWorld).inactiveProposalsQueue.filter (untilPair ctx.time)
  inactiveProps.forM (processInactiveProposal k ctx)

/-! ## The active queue -/

/-- What the switch on the tally leaves for the rest of the loop body. -/
structure Conclusion (Any : Type) where
  proposal : Proposal Any
  tagValue : ProposalResult
  logMsg : String
  scheduledForLater : Bool
  delay : Option Duration

/-- The switch of `processEndedVotingPeriods` on the tally. `delay` is the execution
delay once it has been loaded; `execute` runs the messages before activation. -/
def conclude (k : GovKeeper Any Msg Rest)
    (execute : Proposal Any → M Any Rest (Proposal Any × ProposalResult × String)) (ctx : Ctx)
    (fallbackDelay : Duration) (active passes : Bool) (delay : Option Duration)
    (proposal : Proposal Any) : M Any Rest (Conclusion Any) := do
  if passes && !active then
    let (proposal, tagValue, logMsg) ← execute proposal
    pure ⟨proposal, tagValue, logMsg, false, delay⟩
  else if passes then
    let delay := delay.getD ((← getTimelock).getExecutionDelay fallbackDelay)
    let executionTime := ctx.time + delay
    schedule proposal.id executionTime
    observe [.event (.proposalScheduled proposal.id (k.formatTime executionTime))]
    pure ⟨{ proposal with status := .passed, failedReason := "" }, .passed,
      "passed; execution scheduled for " ++ k.formatTime executionTime, true, some delay⟩
  else if proposal.expedited then
    let params ← getParams
    let votingStartTime ← deref proposal.votingStartTime
    let votingPeriod ← deref params.votingPeriod
    let endTime := votingStartTime + votingPeriod
    setActive ⟨endTime, proposal.id⟩
    observe [.requeued proposal.id votingStartTime votingPeriod]
    pure ⟨{ proposal with expedited := false, votingEndTime := some endTime }, .expeditedRejected,
      "expedited proposal converted to regular", false, delay⟩
  else
    pure ⟨{ proposal with status := .rejected,
                          failedReason := "proposal did not get enough votes to pass" },
      .rejected, "rejected", false, delay⟩

/-- The loop body of `processEndedVotingPeriods`. -/
def processEndedVotingPeriod (k : GovKeeper Any Msg Rest)
    (execute : Proposal Any → M Any Rest (Proposal Any × ProposalResult × String)) (ctx : Ctx)
    (fallbackDelay : Duration) (active : Bool) (delay : Option Duration) (prop : Pair) :
    M Any Rest (Option Duration) := do
  match (← getWorld).getProposal prop.k2 with
  | .errEncoding proposal err =>
    failUnsupportedProposal k ctx { proposal with id := prop.k2 } err true
    removeActive prop
    pure delay
  | .errNotFound => throw (.err (proposalNotFound prop.k2))
  | .found proposal =>
    let (passes, burnDeposits, tallyResults) ← gov (k.tally ctx proposal)
    observe [.tallied proposal.id passes]
    runIf (!proposal.expedited || passes) (settleDeposits k ctx proposal.id burnDeposits)
    removeActive prop
    let c ← conclude k execute ctx fallbackDelay active passes delay proposal
    gov (k.setProposal ctx { c.proposal with finalTallyResult := some tallyResults })
    runIf (!c.scheduledForLater) (runVotingPeriodEndedHook k ctx proposal.id)
    observe [.event (.activeProposal proposal.id c.tagValue c.logMsg)]
    pure c.delay

/-- `processEndedVotingPeriods` for a given way of executing a proposal before activation. -/
def processEndedVotingPeriodsWith (k : GovKeeper Any Msg Rest)
    (execute : Proposal Any → M Any Rest (Proposal Any × ProposalResult × String)) (ctx : Ctx)
    (fallbackDelay : Duration) (active : Bool) : M Any Rest Unit := do
  let activeProps := (← getWorld).activeProposalsQueue.filter (untilPair ctx.time)
  let _ ← activeProps.foldlM (processEndedVotingPeriod k execute ctx fallbackDelay active) none

/-- `processEndedVotingPeriods`. -/
def processEndedVotingPeriods (k : GovKeeper Any Msg Rest) (ctx : Ctx) (fallbackDelay : Duration)
    (active : Bool) : M Any Rest Unit :=
  processEndedVotingPeriodsWith k (executeProposal k ctx) ctx fallbackDelay active

/-! ## The schedule -/

/-- `dropScheduledEntry`. -/
def dropScheduledEntry (scheduled : ScheduledProposal) (reason : String) : M Any Rest Unit := do
  removeScheduled scheduled.executionTime scheduled.proposalID
  observe [.event (.proposalExecuted scheduled.proposalID .failed reason)]

/-- The record stored over one that cannot be decoded when its entry matures. -/
def unloadableProposal (proposalID : Nat) (err : String) : Proposal Any where
  id := proposalID
  messages := []
  status := .failed
  finalTallyResult := none
  depositEndTime := none
  votingStartTime := none
  votingEndTime := none
  expedited := false
  failedReason := "scheduled proposal could not be loaded: " ++ err

/-- The loop body of `executeMaturedProposals`. -/
def executeMaturedProposal (k : GovKeeper Any Msg Rest) (ctx : Ctx)
    (scheduled : ScheduledProposal) : M Any Rest Unit := do
  match (← getWorld).getProposal scheduled.proposalID with
  | .errEncoding _ err =>
    gov (k.setProposal ctx (unloadableProposal scheduled.proposalID err))
    runVotingPeriodEndedHook k ctx scheduled.proposalID
    dropScheduledEntry scheduled "scheduled proposal could not be loaded"
  | .errNotFound =>
    runVotingPeriodEndedHook k ctx scheduled.proposalID
    dropScheduledEntry scheduled "scheduled proposal could not be loaded"
  | .found proposal =>
    if proposal.status ≠ .passed then
      runVotingPeriodEndedHook k ctx proposal.id
      dropScheduledEntry scheduled
        ("unexpected status " ++ proposal.status.toString ++ " at execution time")
    else
      let (proposal, result, logMsg) ← executeProposal k ctx proposal
      gov (k.setProposal ctx proposal)
      removeScheduled scheduled.executionTime scheduled.proposalID
      runVotingPeriodEndedHook k ctx proposal.id
      observe [.event (.proposalExecuted proposal.id result logMsg)]

/-- `executeMaturedProposals`. -/
def executeMaturedProposals (k : GovKeeper Any Msg Rest) (ctx : Ctx) : M Any Rest Unit := do
  let due := (← getTimelock).due ctx.time
  due.forM (executeMaturedProposal k ctx)

/-! ## The end blocker -/

/-- `EndBlocker`. -/
def EndBlocker (k : GovKeeper Any Msg Rest) (ctx : Ctx) (fallbackDelay : Duration) :
    M Any Rest Unit := do
  let active := (← getTimelock).isActive ctx.height
  processInactiveProposals k ctx
  processEndedVotingPeriods k ctx fallbackDelay active
  runIf active (executeMaturedProposals k ctx)

/-- `GovAppModule.EndBlock`: the fallback delay is the 48-hour minimum. -/
def endBlock (k : GovKeeper Any Msg Rest) (ctx : Ctx) : M Any Rest Unit :=
  EndBlocker k ctx minimumDelay

end Ark.GovTimelock
