import Ark.GovTimelock.EndBlocker

/- What an end blocker does to one proposal, as data.

   Each turn of the three loops does one of eight things to the proposal it is
   about; `Act` names it with the choices that were made, and `Act.log` is what it
   writes to the log. `InactiveStep`, `TallyStep` and `MaturedStep` say, for each
   act, when a loop body takes it and what state it leaves, with x/gov's own
   computations left as they are. They are proved once from the code
   (`processInactiveProposal_step`, `processEndedVotingPeriod_step`,
   `executeMaturedProposal_step`), and `endBlocker_steps` reads a whole call as
   three runs of acts, one for each queue, in queue order. Every invariant of the
   end blocker is proved from these steps and not from the code.

   Nothing is assumed of x/gov here. -/
namespace Ark.GovTimelock
open Ark.Lib Ark.Gov Effect

/-- What one execution of a proposal's messages left in the log, and its result. -/
structure Ran where
  delivered : Nat
  events : List SdkEvent
  result : ProposalResult
  logMsg : String
  deriving DecidableEq, Repr

def Ran.log (r : Ran) (id : Nat) : List Obs :=
  .executing id :: (List.range r.delivered).map (.delivered id) ++
    r.events.map fun e => .event (.handler e)

/-- One turn of a loop: what was done to a proposal. -/
inductive Act
  | expired (id : Nat) (burned : Bool)
  | undecodable (id : Nat) (active : Bool) (reason : String)
  | converted (id : Nat) (votingStartTime : Time) (votingPeriod : Duration)
  | rejected (id : Nat) (burned : Bool)
  | executedNow (id : Nat) (burned : Bool) (run : Ran)
  | scheduled (id : Nat) (burned : Bool) (executionTime : Time) (text : String)
  | executed (entry : ScheduledProposal) (run : Ran)
  | dropped (entry : ScheduledProposal) (reason : String)

/-- The proposal an act is about. -/
def Act.id : Act → Nat
  | .expired id _ | .undecodable id _ _ | .converted id _ _ | .rejected id _
  | .executedNow id _ _ | .scheduled id _ _ _ => id
  | .executed entry _ | .dropped entry _ => entry.proposalID

/-- What an act writes to the log. -/
def Act.log : Act → List Obs
  | .expired id burned => [.settled id burned, .minDepositHooked id,
      .event (.inactiveProposal id .dropped none)]
  | .undecodable id active reason => [.settled id false,
      .event (if active then .activeProposal id .failed reason
        else .inactiveProposal id .failed (some reason))]
  | .converted id start period => [.tallied id false, .requeued id start period, .hooked id,
      .event (.activeProposal id .expeditedRejected "expedited proposal converted to regular")]
  | .rejected id burned => [.tallied id false, .settled id burned, .hooked id,
      .event (.activeProposal id .rejected "rejected")]
  | .executedNow id burned run => [.tallied id true, .settled id burned] ++ run.log id ++
      [.hooked id, .event (.activeProposal id run.result run.logMsg)]
  | .scheduled id burned _ text => [.tallied id true, .settled id burned,
      .event (.proposalScheduled id text),
      .event (.activeProposal id .passed ("passed; execution scheduled for " ++ text))]
  | .executed entry run => run.log entry.proposalID ++
      [.hooked entry.proposalID,
        .event (.proposalExecuted entry.proposalID run.result run.logMsg)]
  | .dropped entry reason => [.hooked entry.proposalID,
      .event (.proposalExecuted entry.proposalID .failed reason)]

variable {Any Msg Rest : Type} {k : GovKeeper Any Msg Rest} {ctx : Ctx}
  {run : Nat → Msg → World Any Rest → Except String (Option (List SdkEvent) × World Any Rest)}

/-! ## One execution, one settlement, one hook call -/

/-- One execution of a proposal's messages, in a given way of running one message: the
record it returns, the state it leaves and what it logs. -/
inductive Executed (k : GovKeeper Any Msg Rest)
    (run : Nat → Msg → World Any Rest → Except String (Option (List SdkEvent) × World Any Rest))
    (p : Proposal Any) (w : World Any Rest) : Proposal Any → World Any Rest → Ran → Prop
  | succeeded {msgs : List Msg} {n : Nat} {w' : World Any Rest} {events : List SdkEvent} :
      k.getMsgs p.messages = .ok msgs →
      runMessages k run 0 msgs [] w = ⟨n, .ok (w', events)⟩ →
      Executed k run p w { p with status := .passed, failedReason := "" } w'
        ⟨n, events, .passed, "passed"⟩
  | undecodable {err : String} :
      k.getMsgs p.messages = .error err →
      Executed k run p w (executionFailed p err).1 w ⟨0, [], .failed, (executionFailed p err).2.2⟩
  | failed {msgs : List Msg} {n : Nat} {err : String} :
      k.getMsgs p.messages = .ok msgs →
      runMessages k run 0 msgs [] w = ⟨n, .error (.err err)⟩ →
      Executed k run p w (executionFailed p err).1 w ⟨n, [], .failed, (executionFailed p err).2.2⟩

/-- A settlement of deposits: burned or refunded. -/
def Settles (k : GovKeeper Any Msg Rest) (ctx : Ctx) (id : Nat) (burn : Bool)
    (w w' : World Any Rest) : Prop :=
  (if burn then k.deleteAndBurnDeposits ctx id else k.refundAndDeleteDeposits ctx id) w = .ok () w'

/-- A hook call on a cache context: its writes when it returns no error, and none when it
returns one. -/
def Hooks (hook : GovM Any Rest Unit) (w w' : World Any Rest) : Prop :=
  hook w = .ok () w' ∨ ∃ err cache, hook w = .error (.err err) cache ∧ w' = w

/-- A message that runs without an error is one that its handler ran. -/
theorem runMessage_ok {idx : Nat} {msg : Msg} {res : Option (List SdkEvent)} {w w' : World Any Rest}
    (h : runMessage k ctx idx msg w = .ok (res, w')) :
    ∃ handler, k.handler msg = some handler ∧ handler ctx msg w = .ok res w' := by
  unfold runMessage safeExecuteHandler at h
  cases hh : k.handler msg with
  | none => simp [hh] at h
  | some handler =>
    rcases hr : handler ctx msg w with ⟨res', w₁⟩ | ⟨_ | v, w₁⟩
    · simp only [hh, hr, Except.ok.injEq, Prod.mk.injEq] at h
      obtain ⟨rfl, rfl⟩ := h
      exact ⟨handler, rfl, hr⟩
    · simp [hh, hr] at h
    · simp [hh, hr] at h

theorem executeWith_ok {p p' : Proposal Any} {res : ProposalResult} {msg : String}
    {s s' : St Any Rest} (h : executeWith k run p s = .ok (p', res, msg) s') :
    ∃ w' r, Executed k run p s.world p' w' r ∧ r.result = res ∧ r.logMsg = msg ∧
      s' = { s with world := w', log := s.log ++ r.log p.id } := by
  simp only [executeWith, bind_ok, observe_ok] at h
  obtain ⟨_, s₁, rfl, h⟩ := h
  cases hm : k.getMsgs p.messages with
  | error err =>
    simp only [hm, executionFailed, pure_ok, Prod.mk.injEq] at h
    obtain ⟨⟨rfl, rfl, rfl⟩, rfl⟩ := h
    exact ⟨_, _, .undecodable hm, rfl, rfl, by simp [Ran.log]⟩
  | ok msgs =>
    simp only [hm, bind_ok, getWorld_ok, observe_ok] at h
    obtain ⟨_, _, ⟨rfl, rfl⟩, _, s₂, rfl, h⟩ := h
    simp only at h
    rcases hx : runMessages k run 0 msgs [] s.world with ⟨n, (_ | v) | ⟨w', events⟩⟩
    · simp only [hx, executionFailed, pure_ok, Prod.mk.injEq] at h
      obtain ⟨⟨rfl, rfl, rfl⟩, rfl⟩ := h
      exact ⟨_, _, .failed hm hx, rfl, rfl, by simp [Ran.log]⟩
    · simp [hx] at h
    · simp only [hx, bind_ok, setWorld_ok, observe_ok, pure_ok, Prod.mk.injEq] at h
      obtain ⟨_, _, rfl, _, _, rfl, ⟨rfl, rfl, rfl⟩, rfl⟩ := h
      exact ⟨_, _, .succeeded hm hx, rfl, rfl, by simp [Ran.log]⟩

theorem settleDeposits_ok {id : Nat} {burn : Bool} {s s' : St Any Rest} {u : Unit} :
    settleDeposits k ctx id burn s = .ok u s' ↔ ∃ w, Settles k ctx id burn s.world w ∧
      s' = { s with world := w, log := s.log ++ [.settled id burn] } := by
  simp only [settleDeposits, Settles, bind_ok, gov_ok, observe_ok]
  constructor
  · rintro ⟨_, _, ⟨w, h, rfl⟩, rfl⟩
    exact ⟨w, h, rfl⟩
  · rintro ⟨w, h, rfl⟩
    exact ⟨(), _, ⟨w, h, rfl⟩, rfl⟩

theorem runVotingPeriodEndedHook_ok {id : Nat} {s s' : St Any Rest} {u : Unit}
    (h : runVotingPeriodEndedHook k ctx id s = .ok u s') :
    ∃ w, Hooks (k.afterProposalVotingPeriodEnded ctx id) s.world w ∧
      s' = { s with world := w, log := s.log ++ [.hooked id] } := by
  simp only [runVotingPeriodEndedHook, bind_ok, observe_ok, getWorld_ok] at h
  obtain ⟨_, _, rfl, _, _, ⟨rfl, rfl⟩, h⟩ := h
  rcases hx : k.afterProposalVotingPeriodEnded ctx id s.world with ⟨⟨⟩, w⟩ | ⟨err | v, w⟩
  · simp only [hx, setWorld_ok] at h
    exact ⟨w, .inl hx, h⟩
  · simp only [hx, pure_ok] at h
    exact ⟨s.world, .inr ⟨err, w, hx, rfl⟩, h.2.symm⟩
  · simp [hx] at h

theorem runFailedMinDepositHook_ok {id : Nat} {s s' : St Any Rest} {u : Unit}
    (h : runFailedMinDepositHook k ctx id s = .ok u s') :
    ∃ w, Hooks (k.afterProposalFailedMinDeposit ctx id) s.world w ∧
      s' = { s with world := w, log := s.log ++ [.minDepositHooked id] } := by
  simp only [runFailedMinDepositHook, bind_ok, observe_ok, getWorld_ok] at h
  obtain ⟨_, _, rfl, _, _, ⟨rfl, rfl⟩, h⟩ := h
  rcases hx : k.afterProposalFailedMinDeposit ctx id s.world with ⟨⟨⟩, w⟩ | ⟨err | v, w⟩
  · simp only [hx, setWorld_ok] at h
    exact ⟨w, .inl hx, h⟩
  · simp only [hx, pure_ok] at h
    exact ⟨s.world, .inr ⟨err, w, hx, rfl⟩, h.2.symm⟩
  · simp [hx] at h

theorem failUnsupportedProposal_ok {p : Proposal Any} {reason : String} {active : Bool}
    {s s' : St Any Rest} {u : Unit}
    (h : failUnsupportedProposal k ctx p reason active s = .ok u s') :
    ∃ w₁ w₂, k.setProposal ctx (unsupportedProposal p reason) s.world = .ok () w₁ ∧
      Settles k ctx p.id false w₁ w₂ ∧
      s' = { s with world := w₂, log := s.log ++ (Act.undecodable p.id active reason).log } := by
  simp only [failUnsupportedProposal, bind_ok, gov_ok, settleDeposits_ok, observe_ok] at h
  obtain ⟨_, _, ⟨w₁, h₁, rfl⟩, _, _, ⟨w₂, h₂, rfl⟩, rfl⟩ := h
  exact ⟨w₁, w₂, h₁, h₂, by simp [Act.log]⟩

/-! ## The inactive queue -/

/-- One turn of `processInactiveProposals`, on the queue entry `prop`. -/
inductive InactiveStep (k : GovKeeper Any Msg Rest) (ctx : Ctx) (prop : Pair) (s : St Any Rest) :
    Act → St Any Rest → Prop
  | undecodable {p : Proposal Any} {err : String} {w₁ w₂ w₃ : World Any Rest} :
      s.world.getProposal prop.k2 = .errEncoding p err →
      k.setProposal ctx (unsupportedProposal { p with id := prop.k2 } err) s.world = .ok () w₁ →
      Settles k ctx prop.k2 false w₁ w₂ →
      k.deleteProposal ctx prop.k2 (w₂.removeInactive prop) = .ok () w₃ →
      InactiveStep k ctx prop s (.undecodable prop.k2 false err)
        { s with world := w₃, log := s.log ++ (Act.undecodable prop.k2 false err).log }
  | expired {p : Proposal Any} {params : Params} {w₁ w₂ w₃ : World Any Rest} :
      s.world.getProposal prop.k2 = .found p →
      k.deleteProposal ctx prop.k2 s.world = .ok () w₁ →
      w₁.params = some params →
      Settles k ctx prop.k2 params.burnProposalDepositPrevote w₁ w₂ →
      Hooks (k.afterProposalFailedMinDeposit ctx prop.k2) w₂ w₃ →
      InactiveStep k ctx prop s (.expired prop.k2 params.burnProposalDepositPrevote)
        { s with
          world := w₃
          log := s.log ++ (Act.expired prop.k2 params.burnProposalDepositPrevote).log }

theorem processInactiveProposal_step {prop : Pair} {s s' : St Any Rest} {u : Unit}
    (h : processInactiveProposal k ctx prop s = .ok u s') :
    ∃ act, InactiveStep k ctx prop s act s' := by
  simp only [processInactiveProposal, bind_ok, getWorld_ok] at h
  obtain ⟨_, _, ⟨rfl, rfl⟩, h⟩ := h
  rcases hg : s.world.getProposal prop.k2 with p | ⟨p, err⟩ | _
  · have hid := World.id_of_found hg
    simp only [hg, hid, bind_ok, gov_ok, getParams_ok, settleDeposits_ok, observe_ok] at h
    obtain ⟨_, _, ⟨w₁, h₁, rfl⟩, params, _, ⟨hp, rfl⟩, _, _, ⟨w₂, h₂, rfl⟩, _, _, hh, rfl⟩ := h
    obtain ⟨w₃, h₃, rfl⟩ := runFailedMinDepositHook_ok hh
    refine ⟨.expired prop.k2 params.burnProposalDepositPrevote, ?_⟩
    simpa [Act.log] using InactiveStep.expired hg h₁ hp h₂ h₃
  · simp only [hg, bind_ok, removeInactive_ok, gov_ok] at h
    obtain ⟨_, _, hf, _, _, rfl, w₃, h₃, rfl⟩ := h
    obtain ⟨w₁, w₂, h₁, h₂, rfl⟩ := failUnsupportedProposal_ok hf
    exact ⟨.undecodable prop.k2 false err, .undecodable hg h₁ h₂ h₃⟩
  · simp [hg] at h

/-! ## The active queue -/

/-- The part of a turn of `processEndedVotingPeriods` before the switch on the tally: the
tally, the settlement unless an expedited proposal failed, and the entry's removal. -/
inductive Tallied (k : GovKeeper Any Msg Rest) (ctx : Ctx) (prop : Pair) (w : World Any Rest)
    (p : Proposal Any) (passes burned : Bool) (res : TallyResult) : World Any Rest → Prop
  | settled {w₁ w₂ : World Any Rest} :
      w.getProposal prop.k2 = .found p →
      k.tally ctx p w = .ok (passes, burned, res) w₁ →
      (!p.expedited || passes) = true →
      Settles k ctx prop.k2 burned w₁ w₂ →
      Tallied k ctx prop w p passes burned res (w₂.removeActive prop)
  | kept {w₁ : World Any Rest} :
      w.getProposal prop.k2 = .found p →
      k.tally ctx p w = .ok (passes, burned, res) w₁ →
      (!p.expedited || passes) = false →
      Tallied k ctx prop w p passes burned res (w₁.removeActive prop)

/-- One turn of `processEndedVotingPeriods`, on the queue entry `prop`. -/
inductive TallyStep (k : GovKeeper Any Msg Rest)
    (run : Nat → Msg → World Any Rest → Except String (Option (List SdkEvent) × World Any Rest))
    (ctx : Ctx) (fallbackDelay : Duration) (active : Bool) (prop : Pair) (s : St Any Rest) :
    Act → St Any Rest → Prop
  | undecodable {p : Proposal Any} {err : String} {w₁ w₂ : World Any Rest} :
      s.world.getProposal prop.k2 = .errEncoding p err →
      k.setProposal ctx (unsupportedProposal { p with id := prop.k2 } err) s.world = .ok () w₁ →
      Settles k ctx prop.k2 false w₁ w₂ →
      TallyStep k run ctx fallbackDelay active prop s (.undecodable prop.k2 true err)
        { s with
          world := w₂.removeActive prop
          log := s.log ++ (Act.undecodable prop.k2 true err).log }
  | executedNow {p p' : Proposal Any} {burned : Bool} {res : TallyResult} {r : Ran}
      {w₁ w₂ w₃ w₄ : World Any Rest} :
      active = false →
      Tallied k ctx prop s.world p true burned res w₁ →
      Executed k run p w₁ p' w₂ r →
      k.setProposal ctx { p' with finalTallyResult := some res } w₂ = .ok () w₃ →
      Hooks (k.afterProposalVotingPeriodEnded ctx prop.k2) w₃ w₄ →
      TallyStep k run ctx fallbackDelay active prop s (.executedNow prop.k2 burned r)
        { s with world := w₄, log := s.log ++ (Act.executedNow prop.k2 burned r).log }
  | scheduled {p : Proposal Any} {burned : Bool} {res : TallyResult} {e : Time}
      {w₁ w₂ : World Any Rest} :
      active = true →
      Tallied k ctx prop s.world p true burned res w₁ →
      e = ctx.time + s.timelock.getExecutionDelay fallbackDelay →
      HasTimeKey e →
      k.setProposal ctx
        { p with status := .passed, failedReason := "", finalTallyResult := some res } w₁
          = .ok () w₂ →
      TallyStep k run ctx fallbackDelay active prop s
        (.scheduled prop.k2 burned e (k.formatTime e))
        { world := w₂
          timelock := { s.timelock with
            scheduledProposals := s.timelock.scheduledProposals.set ⟨e, prop.k2⟩ }
          log := s.log ++ (Act.scheduled prop.k2 burned e (k.formatTime e)).log }
  | converted {p : Proposal Any} {burned : Bool} {res : TallyResult} {params : Params}
      {start : Time} {period : Duration} {w₁ w₂ w₃ : World Any Rest} :
      Tallied k ctx prop s.world p false burned res w₁ →
      p.expedited = true →
      w₁.params = some params → p.votingStartTime = some start →
      params.votingPeriod = some period → HasTimeKey (start + period) →
      k.setProposal ctx
        { p with expedited := false, votingEndTime := some (start + period),
                 finalTallyResult := some res } (w₁.setActive ⟨start + period, prop.k2⟩)
          = .ok () w₂ →
      Hooks (k.afterProposalVotingPeriodEnded ctx prop.k2) w₂ w₃ →
      TallyStep k run ctx fallbackDelay active prop s (.converted prop.k2 start period)
        { s with world := w₃, log := s.log ++ (Act.converted prop.k2 start period).log }
  | rejected {p : Proposal Any} {burned : Bool} {res : TallyResult} {w₁ w₂ w₃ : World Any Rest} :
      Tallied k ctx prop s.world p false burned res w₁ →
      p.expedited = false →
      k.setProposal ctx
        { p with status := .rejected, failedReason := "proposal did not get enough votes to pass",
                 finalTallyResult := some res } w₁ = .ok () w₂ →
      Hooks (k.afterProposalVotingPeriodEnded ctx prop.k2) w₂ w₃ →
      TallyStep k run ctx fallbackDelay active prop s (.rejected prop.k2 burned)
        { s with world := w₃, log := s.log ++ (Act.rejected prop.k2 burned).log }

/-- The delay cached across a block's tallies is unset or the stored one. -/
def CachedDelay (t : Timelock) (fallbackDelay : Duration) (delay : Option Duration) : Prop :=
  delay = none ∨ delay = some (t.getExecutionDelay fallbackDelay)

theorem CachedDelay.getD {t : Timelock} {fallbackDelay : Duration} {delay : Option Duration}
    (h : CachedDelay t fallbackDelay delay) :
    delay.getD (t.getExecutionDelay fallbackDelay) = t.getExecutionDelay fallbackDelay := by
  rcases h with rfl | rfl <;> rfl

/-- The switch on the tally, case by case. -/
theorem conclude_ok {fallbackDelay : Duration} {active passes : Bool} {delay : Option Duration}
    {p : Proposal Any} {c : Conclusion Any} {s s' : St Any Rest}
    (hd : CachedDelay s.timelock fallbackDelay delay)
    (h : conclude k (executeWith k run) ctx fallbackDelay active passes delay p s = .ok c s') :
    (passes = true ∧ active = false ∧ ∃ w p' r, Executed k run p s.world p' w r ∧
      c = ⟨p', r.result, r.logMsg, false, delay⟩ ∧
      s' = { s with world := w, log := s.log ++ r.log p.id }) ∨
    (passes = true ∧ active = true ∧ ∃ e, e = ctx.time + s.timelock.getExecutionDelay fallbackDelay ∧
      HasTimeKey e ∧
      c = ⟨{ p with status := .passed, failedReason := "" }, .passed,
        "passed; execution scheduled for " ++ k.formatTime e, true,
        some (s.timelock.getExecutionDelay fallbackDelay)⟩ ∧
      s' = { world := s.world
             timelock := { s.timelock with
               scheduledProposals := s.timelock.scheduledProposals.set ⟨e, p.id⟩ }
             log := s.log ++ [.event (.proposalScheduled p.id (k.formatTime e))] }) ∨
    (passes = false ∧ p.expedited = true ∧ ∃ params start period,
      s.world.params = some params ∧ p.votingStartTime = some start ∧
      params.votingPeriod = some period ∧ HasTimeKey (start + period) ∧
      c = ⟨{ p with expedited := false, votingEndTime := some (start + period) },
        .expeditedRejected, "expedited proposal converted to regular", false, delay⟩ ∧
      s' = { s with world := s.world.setActive ⟨start + period, p.id⟩
                    log := s.log ++ [.requeued p.id start period] }) ∨
    (passes = false ∧ p.expedited = false ∧
      c = ⟨{ p with status := .rejected,
                    failedReason := "proposal did not get enough votes to pass" },
        .rejected, "rejected", false, delay⟩ ∧ s' = s) := by
  -- the three branches of the switch, the first one with and without the timelock
  cases passes with
  | true =>
    cases active with
    | false =>
      refine .inl ⟨rfl, rfl, ?_⟩
      simp only [conclude, Bool.not_false, Bool.and_true, if_true, bind_ok, pure_ok] at h
      obtain ⟨⟨p', res, msg⟩, _, he, rfl, rfl⟩ := h
      obtain ⟨w, r, hx, rfl, rfl, rfl⟩ := executeWith_ok he
      exact ⟨w, p', r, hx, rfl, rfl⟩
    | true =>
      refine .inr (.inl ⟨rfl, rfl, _, rfl, ?_⟩)
      simp only [conclude, Bool.not_true, Bool.and_false, Bool.false_eq_true, if_false, if_true,
        bind_ok, getTimelock_ok, schedule_ok, observe_ok, pure_ok] at h
      obtain ⟨_, _, ⟨rfl, rfl⟩, _, _, ⟨hk, rfl⟩, _, _, rfl, rfl, rfl⟩ := h
      rw [hd.getD] at hk ⊢
      exact ⟨hk, rfl, rfl⟩
  | false =>
    cases he : p.expedited with
    | true =>
      refine .inr (.inr (.inl ⟨rfl, rfl, ?_⟩))
      simp only [conclude, Bool.false_and, Bool.false_eq_true, if_false, he, if_true, bind_ok,
        getParams_ok, deref_ok, setActive_ok, observe_ok, pure_ok] at h
      obtain ⟨params, _, ⟨hp, rfl⟩, start, _, ⟨hs, rfl⟩, period, _, ⟨hv, rfl⟩, _, _, ⟨hk, rfl⟩,
        _, _, rfl, rfl, rfl⟩ := h
      exact ⟨params, start, period, hp, hs, hv, hk, rfl, rfl⟩
    | false =>
      refine .inr (.inr (.inr ⟨rfl, rfl, ?_⟩))
      simp only [conclude, Bool.false_and, Bool.false_eq_true, if_false, he, pure_ok] at h
      exact ⟨h.1.symm, h.2.symm⟩

theorem Executed.id_eq {p p' : Proposal Any} {w w' : World Any Rest} {r : Ran}
    (h : Executed k run p w p' w' r) : p'.id = p.id := by
  cases h <;> rfl

/-- The tally, the settlement and the removal of the queue entry, read together. -/
theorem tallied_ok {prop : Pair} {p : Proposal Any} {passes burned : Bool} {res : TallyResult}
    {s s₁ s₂ s₃ : St Any Rest} {u v : Unit} (hg : s.world.getProposal prop.k2 = .found p)
    (ht : ∃ w, k.tally ctx p s.world = .ok (passes, burned, res) w ∧
      s₁ = { s with world := w, log := s.log ++ [.tallied prop.k2 passes] })
    (hs : runIf (!p.expedited || passes) (settleDeposits k ctx prop.k2 burned) s₁ = .ok u s₂)
    (hr : removeActive prop s₂ = .ok v s₃) :
    ∃ w, Tallied k ctx prop s.world p passes burned res w ∧
      s₃ = { s with
        world := w
        log := s.log ++ ([.tallied prop.k2 passes] ++
          if (!p.expedited || passes) = true then [.settled prop.k2 burned] else []) } := by
  obtain ⟨w₁, ht, rfl⟩ := ht
  rw [removeActive_ok] at hr
  subst hr
  cases hc : !p.expedited || passes with
  | true =>
    rw [hc, runIf_true, settleDeposits_ok] at hs
    obtain ⟨w₂, hs, rfl⟩ := hs
    exact ⟨_, .settled hg ht hc hs, by simp⟩
  | false =>
    rw [hc, runIf_false, pure_ok] at hs
    obtain ⟨_, rfl⟩ := hs
    exact ⟨_, .kept hg ht hc, by simp⟩

theorem processEndedVotingPeriod_step {fallbackDelay : Duration} {active : Bool}
    {delay delay' : Option Duration} {prop : Pair} {s s' : St Any Rest}
    (hd : CachedDelay s.timelock fallbackDelay delay)
    (h : processEndedVotingPeriod k (executeWith k run) ctx fallbackDelay active delay prop s
      = .ok delay' s') :
    (∃ act, TallyStep k run ctx fallbackDelay active prop s act s') ∧
      CachedDelay s'.timelock fallbackDelay delay' := by
  simp only [processEndedVotingPeriod, bind_ok, getWorld_ok] at h
  obtain ⟨_, _, ⟨rfl, rfl⟩, h⟩ := h
  rcases hg : s.world.getProposal prop.k2 with p | ⟨p, err⟩ | _
  · have hid := World.id_of_found hg
    simp only [hg, hid, bind_ok, gov_ok, observe_ok, pure_ok] at h
    obtain ⟨⟨passes, burned, res⟩, _, ⟨w₀, ht, rfl⟩, _, s₁, rfl, _, s₂, hs, _, s₃, hr, c, s₄, hc,
      _, s₅, ⟨w₂, hset, rfl⟩, _, s₆, hh, _, s₇, rfl, rfl, rfl⟩ := h
    obtain ⟨w₁, hT, rfl⟩ := tallied_ok hg ⟨w₀, ht, rfl⟩ hs hr
    rcases conclude_ok (by simpa using hd) hc with
      ⟨rfl, rfl, w, p', r, hx, rfl, rfl⟩ | ⟨rfl, rfl, e, he, hk, rfl, rfl⟩ |
      ⟨rfl, hexp, params, start, period, hp, hst, hv, hk, rfl, rfl⟩ | ⟨rfl, hexp, rfl, rfl⟩
    · rw [Bool.not_false, runIf_true] at hh
      obtain ⟨w₄, hw₄, rfl⟩ := runVotingPeriodEndedHook_ok hh
      refine ⟨⟨.executedNow prop.k2 burned r, ?_⟩, hd⟩
      have hstep : TallyStep k run ctx fallbackDelay false prop s _ _ := .executedNow rfl hT hx hset hw₄
      simpa [Act.log, hid] using hstep
    · -- the hook waits for the execution
      rw [Bool.not_true, runIf_false, pure_ok] at hh
      obtain ⟨_, rfl⟩ := hh
      refine ⟨⟨.scheduled prop.k2 burned e (k.formatTime e), ?_⟩, .inr rfl⟩
      simpa [Act.log, hid] using TallyStep.scheduled rfl hT he hk hset
    · rw [Bool.not_false, runIf_true] at hh
      obtain ⟨w₄, hw₄, rfl⟩ := runVotingPeriodEndedHook_ok hh
      refine ⟨⟨.converted prop.k2 start period, ?_⟩, hd⟩
      have hstep : TallyStep k run ctx fallbackDelay active prop s _ _ :=
        .converted hT hexp hp hst hv hk (by simpa [hid] using hset) hw₄
      simpa [Act.log, hid, hexp] using hstep
    · rw [Bool.not_false, runIf_true] at hh
      obtain ⟨w₄, hw₄, rfl⟩ := runVotingPeriodEndedHook_ok hh
      refine ⟨⟨.rejected prop.k2 burned, ?_⟩, hd⟩
      have hstep : TallyStep k run ctx fallbackDelay active prop s _ _ := .rejected hT hexp hset hw₄
      simpa [Act.log, hid, hexp] using hstep
  · simp only [hg, bind_ok, removeActive_ok, pure_ok] at h
    obtain ⟨_, _, hf, _, _, rfl, rfl, rfl⟩ := h
    obtain ⟨w₁, w₂, h₁, h₂, rfl⟩ := failUnsupportedProposal_ok hf
    exact ⟨⟨_, .undecodable hg h₁ h₂⟩, hd⟩
  · simp [hg] at h

/-! ## The schedule -/

/-- One turn of `executeMaturedProposals`, on the entry `sp`. -/
inductive MaturedStep (k : GovKeeper Any Msg Rest) (ctx : Ctx) (sp : ScheduledProposal)
    (s : St Any Rest) : Act → St Any Rest → Prop
  | executed {p p' : Proposal Any} {r : Ran} {w₁ w₂ w₃ : World Any Rest} :
      s.world.getProposal sp.proposalID = .found p →
      p.status = .passed →
      Executed k (runMessage k ctx) p s.world p' w₁ r →
      k.setProposal ctx p' w₁ = .ok () w₂ →
      Hooks (k.afterProposalVotingPeriodEnded ctx sp.proposalID) w₂ w₃ →
      MaturedStep k ctx sp s (.executed sp r)
        { world := w₃
          timelock := s.timelock.remove sp.executionTime sp.proposalID
          log := s.log ++ (Act.executed sp r).log }
  | corrupt {p : Proposal Any} {err : String} {w₁ w₂ : World Any Rest} :
      s.world.getProposal sp.proposalID = .errEncoding p err →
      k.setProposal ctx (unloadableProposal sp.proposalID err) s.world = .ok () w₁ →
      Hooks (k.afterProposalVotingPeriodEnded ctx sp.proposalID) w₁ w₂ →
      MaturedStep k ctx sp s (.dropped sp "scheduled proposal could not be loaded")
        { world := w₂
          timelock := s.timelock.remove sp.executionTime sp.proposalID
          log := s.log ++ (Act.dropped sp "scheduled proposal could not be loaded").log }
  | missing {w₁ : World Any Rest} :
      s.world.getProposal sp.proposalID = .errNotFound →
      Hooks (k.afterProposalVotingPeriodEnded ctx sp.proposalID) s.world w₁ →
      MaturedStep k ctx sp s (.dropped sp "scheduled proposal could not be loaded")
        { world := w₁
          timelock := s.timelock.remove sp.executionTime sp.proposalID
          log := s.log ++ (Act.dropped sp "scheduled proposal could not be loaded").log }
  | wrongStatus {p : Proposal Any} {w₁ : World Any Rest} :
      s.world.getProposal sp.proposalID = .found p →
      p.status ≠ .passed →
      Hooks (k.afterProposalVotingPeriodEnded ctx sp.proposalID) s.world w₁ →
      MaturedStep k ctx sp s
        (.dropped sp ("unexpected status " ++ p.status.toString ++ " at execution time"))
        { world := w₁
          timelock := s.timelock.remove sp.executionTime sp.proposalID
          log := s.log ++
            (Act.dropped sp
              ("unexpected status " ++ p.status.toString ++ " at execution time")).log }

theorem dropScheduledEntry_ok {sp : ScheduledProposal} {reason : String} {s s' : St Any Rest}
    {u : Unit} :
    dropScheduledEntry sp reason s = .ok u s' ↔
      s' = { s with
        timelock := s.timelock.remove sp.executionTime sp.proposalID
        log := s.log ++ [.event (.proposalExecuted sp.proposalID .failed reason)] } := by
  simp [dropScheduledEntry]

theorem executeMaturedProposal_step {sp : ScheduledProposal} {s s' : St Any Rest} {u : Unit}
    (h : executeMaturedProposal k ctx sp s = .ok u s') :
    ∃ act, MaturedStep k ctx sp s act s' := by
  simp only [executeMaturedProposal, bind_ok, getWorld_ok] at h
  obtain ⟨_, _, ⟨rfl, rfl⟩, h⟩ := h
  rcases hg : s.world.getProposal sp.proposalID with p | ⟨p, err⟩ | _
  · have hid := World.id_of_found hg
    simp only [hg] at h
    by_cases hst : p.status = .passed
    · simp only [hst, ne_eq, not_true_eq_false, if_false, bind_ok, gov_ok, removeScheduled_ok,
        observe_ok] at h
      obtain ⟨⟨p', res, msg⟩, _, hx, _, _, ⟨w₂, hset, rfl⟩, _, _, rfl, _, _, hh, rfl⟩ := h
      obtain ⟨w₁, r, hx', rfl, rfl, rfl⟩ := executeWith_ok hx
      obtain ⟨w₃, hw₃, rfl⟩ := runVotingPeriodEndedHook_ok hh
      have hid' : p'.id = sp.proposalID := hx'.id_eq.trans hid
      rw [hid'] at hw₃
      refine ⟨.executed sp r, ?_⟩
      simpa [Act.log, hid, hid'] using MaturedStep.executed hg hst hx' hset hw₃
    · simp only [hst, ne_eq, not_false_eq_true, if_true, hid, bind_ok, dropScheduledEntry_ok] at h
      obtain ⟨_, _, hh, rfl⟩ := h
      obtain ⟨w₁, hw₁, rfl⟩ := runVotingPeriodEndedHook_ok hh
      exact ⟨_, by simpa [Act.log] using MaturedStep.wrongStatus hg hst hw₁⟩
  · simp only [hg, bind_ok, gov_ok, dropScheduledEntry_ok] at h
    obtain ⟨_, _, ⟨w₁, hset, rfl⟩, _, _, hh, rfl⟩ := h
    obtain ⟨w₂, hw₂, rfl⟩ := runVotingPeriodEndedHook_ok hh
    exact ⟨_, by simpa [Act.log] using MaturedStep.corrupt hg hset hw₂⟩
  · simp only [hg, bind_ok, dropScheduledEntry_ok] at h
    obtain ⟨_, _, hh, rfl⟩ := h
    obtain ⟨w₁, hw₁, rfl⟩ := runVotingPeriodEndedHook_ok hh
    exact ⟨_, by simpa [Act.log] using MaturedStep.missing hg hw₁⟩

/-! ## A whole call -/

/-- The acts of a list of turns. -/
def acts {ι : Type} (L : List (ι × Act)) : List Act := L.map Prod.snd

/-- What a list of turns writes to the log. -/
def actsLog {ι : Type} (L : List (ι × Act)) : List Obs := (acts L).flatMap Act.log

/-- A loop is a run of turns when its body is a turn. -/
theorem steps_of_forM {ι : Type} {f : ι → M Any Rest Unit}
    {R : ι → St Any Rest → Act → St Any Rest → Prop}
    (hf : ∀ i s s', f i s = .ok () s' → ∃ act, R i s act s') {xs : List ι} {s s' : St Any Rest}
    (h : xs.forM f s = .ok () s') :
    ∃ L : List (ι × Act), L.map Prod.fst = xs ∧ Steps (fun s l s' => R l.1 s l.2 s') s L s' := by
  obtain ⟨L, _, hL, hS, rfl⟩ := (forM_ok.mp h).annotate (R := R) Eq
    (fun s i s' x hx hb => by
      subst hx
      obtain ⟨act, hact⟩ := hf i s s' hb
      exact ⟨act, s', hact, rfl⟩) rfl
  exact ⟨L, hL, hS⟩

theorem steps_of_tallies {fallbackDelay : Duration} {active : Bool} {props : List Pair}
    {delay delay' : Option Duration} {s s' : St Any Rest}
    (hd : CachedDelay s.timelock fallbackDelay delay)
    (h : props.foldlM (processEndedVotingPeriod k (executeWith k run) ctx fallbackDelay active)
      delay s = .ok delay' s') :
    ∃ L : List (Pair × Act), L.map Prod.fst = props ∧
      Steps (fun s l s' => TallyStep k run ctx fallbackDelay active l.1 s l.2 s') s L s' := by
  obtain ⟨L, _, hL, hS, rfl, _⟩ := (foldlM_ok.mp h).annotate
    (R := TallyStep k run ctx fallbackDelay active)
    (fun p s => p.2 = s ∧ CachedDelay s.timelock fallbackDelay p.1)
    (fun p i q s hs hb => by
      obtain ⟨rfl, hc⟩ := hs
      obtain ⟨⟨act, hact⟩, hc⟩ := processEndedVotingPeriod_step hc hb
      exact ⟨act, q.2, hact, rfl, hc⟩) ⟨rfl, hd⟩
  exact ⟨L, hL, hS⟩

/-- The turns of one call: the due entries of the inactive queue, then those of the active
queue, then, when the timelock is active, the due entries of the schedule. -/
structure EndBlockSteps (k : GovKeeper Any Msg Rest) (ctx : Ctx) (fallbackDelay : Duration)
    (s : St Any Rest) (L₁ L₂ : List (Pair × Act)) (L₃ : List (ScheduledProposal × Act))
    (s₁ s₂ s' : St Any Rest) : Prop where
  inactive : Steps (fun u l v => InactiveStep k ctx l.1 u l.2 v) s L₁ s₁
  inactive_due : L₁.map Prod.fst = s.world.inactiveProposalsQueue.filter (untilPair ctx.time)
  tallies : Steps (fun u l v => TallyStep k (runMessage k ctx) ctx fallbackDelay
    (s.timelock.isActive ctx.height) l.1 u l.2 v) s₁ L₂ s₂
  tallies_due : L₂.map Prod.fst = s₁.world.activeProposalsQueue.filter (untilPair ctx.time)
  matured : Steps (fun u l v => MaturedStep k ctx l.1 u l.2 v) s₂ L₃ s'
  matured_due : L₃.map Prod.fst =
    if s.timelock.isActive ctx.height then s₂.timelock.due ctx.time else []

/-! ## What every turn does -/

section Turns
variable {fallbackDelay : Duration} {active : Bool} {prop : Pair} {sp : ScheduledProposal}
  {s s' : St Any Rest} {act : Act}

theorem InactiveStep.log_eq (h : InactiveStep k ctx prop s act s') : s'.log = s.log ++ act.log := by
  cases h <;> rfl

theorem TallyStep.log_eq (h : TallyStep k run ctx fallbackDelay active prop s act s') :
    s'.log = s.log ++ act.log := by
  cases h <;> rfl

theorem MaturedStep.log_eq (h : MaturedStep k ctx sp s act s') : s'.log = s.log ++ act.log := by
  cases h <;> rfl

theorem InactiveStep.id_eq (h : InactiveStep k ctx prop s act s') : act.id = prop.k2 := by
  cases h <;> rfl

theorem TallyStep.id_eq (h : TallyStep k run ctx fallbackDelay active prop s act s') :
    act.id = prop.k2 := by
  cases h <;> rfl

theorem MaturedStep.id_eq (h : MaturedStep k ctx sp s act s') : act.id = sp.proposalID := by
  cases h <;> rfl

/-- A turn of the inactive queue drops its proposal or fails it. -/
theorem InactiveStep.act_eq (h : InactiveStep k ctx prop s act s') :
    (∃ burned, act = .expired prop.k2 burned) ∨
      ∃ reason, act = .undecodable prop.k2 false reason := by
  cases h
  case undecodable => exact .inr ⟨_, rfl⟩
  case expired => exact .inl ⟨_, rfl⟩

/-- A turn of the schedule executes its entry or drops it. -/
theorem MaturedStep.act_eq (h : MaturedStep k ctx sp s act s') :
    (∃ r, act = .executed sp r) ∨ ∃ reason, act = .dropped sp reason := by
  cases h
  case executed => exact .inl ⟨_, rfl⟩
  all_goals exact .inr ⟨_, rfl⟩

/-- A turn of the inactive queue leaves the timelock's store. -/
theorem InactiveStep.timelock_eq (h : InactiveStep k ctx prop s act s') :
    s'.timelock = s.timelock := by
  cases h <;> rfl

/-- A turn of the schedule removes its entry and leaves the rest of the timelock's store. -/
theorem MaturedStep.timelock_eq (h : MaturedStep k ctx sp s act s') :
    s'.timelock = s.timelock.remove sp.executionTime sp.proposalID := by
  cases h <;> rfl

/-- A tally writes neither of the timelock's items. -/
theorem TallyStep.items_eq (h : TallyStep k run ctx fallbackDelay active prop s act s') :
    s'.timelock.activationHeight = s.timelock.activationHeight ∧
      s'.timelock.executionDelay = s.timelock.executionDelay := by
  cases h <;> exact ⟨rfl, rfl⟩

theorem MaturedStep.items_eq (h : MaturedStep k ctx sp s act s') :
    s'.timelock.activationHeight = s.timelock.activationHeight ∧
      s'.timelock.executionDelay = s.timelock.executionDelay := by
  rw [h.timelock_eq]
  exact ⟨rfl, rfl⟩

end Turns

/-- Every turn of a run was taken. -/
theorem turn_of_mem {ι : Type} {R : ι → St Any Rest → Act → St Any Rest → Prop} {s s' : St Any Rest}
    {L : List (ι × Act)} (h : Steps (fun u l v => R l.1 u l.2 v) s L s') {l : ι × Act}
    (hl : l ∈ L) : ∃ u v, R l.1 u l.2 v := by
  obtain ⟨_, _, u, v, _, _, hstep, _⟩ := h.of_mem hl
  exact ⟨u, v, hstep⟩

/-- A run of turns writes the turns' logs, in order. -/
theorem actsLog_of_steps {ι : Type} {R : ι → St Any Rest → Act → St Any Rest → Prop}
    (hR : ∀ {i s act s'}, R i s act s' → s'.log = s.log ++ act.log) {s s' : St Any Rest}
    {L : List (ι × Act)} (h : Steps (fun u l v => R l.1 u l.2 v) s L s') :
    s'.log = s.log ++ actsLog L := by
  induction h with
  | nil => simp [actsLog, acts]
  | cons hl _ ih =>
    rw [ih, hR hl]
    simp [actsLog, acts]

/-- Whether the timelock is active at a height depends on its activation height only. -/
theorem isActive_congr {t t' : Timelock} (h : t'.activationHeight = t.activationHeight)
    (height : Int) : t'.isActive height = t.isActive height := by
  unfold Timelock.isActive
  rw [h]

/-- The delay in force depends on the stored delay only. -/
theorem getExecutionDelay_congr {t t' : Timelock} (h : t'.executionDelay = t.executionDelay)
    (fallback : Duration) : t'.getExecutionDelay fallback = t.getExecutionDelay fallback := by
  unfold Timelock.getExecutionDelay
  rw [h]

/-- **A call is a run of turns.** Every end blocker that returns without an error is a run of
turns over the due entries of the three queues, in order. -/
theorem endBlocker_steps {fallbackDelay : Duration} {s s' : St Any Rest} {u : Unit}
    (h : EndBlocker k ctx fallbackDelay s = .ok u s') :
    ∃ L₁ L₂ L₃ s₁ s₂, EndBlockSteps k ctx fallbackDelay s L₁ L₂ L₃ s₁ s₂ s' := by
  simp only [EndBlocker, processInactiveProposals, processEndedVotingPeriods,
    processEndedVotingPeriodsWith, executeMaturedProposals, bind_ok, getTimelock_ok,
    getWorld_ok, pure_ok] at h
  obtain ⟨_, _, ⟨rfl, rfl⟩, _, s₁, ⟨_, _, ⟨rfl, rfl⟩, h₁⟩, _, _,
    ⟨_, _, ⟨rfl, rfl⟩, _, s₂, h₂, _, rfl⟩, h₃⟩ := h
  obtain ⟨L₁, hL₁, hS₁⟩ := steps_of_forM (fun _ _ _ => processInactiveProposal_step) h₁
  obtain ⟨L₂, hL₂, hS₂⟩ := steps_of_tallies (.inl rfl) h₂
  cases ha : s.timelock.isActive ctx.height with
  | true =>
    rw [ha, runIf_true, bind_ok] at h₃
    obtain ⟨_, _, h, h₃⟩ := h₃
    obtain ⟨rfl, rfl⟩ := getTimelock_ok.mp h
    obtain ⟨L₃, hL₃, hS₃⟩ := steps_of_forM (fun _ _ _ => executeMaturedProposal_step) h₃
    exact ⟨L₁, L₂, L₃, s₁, s₂, hS₁, hL₁, hS₂, hL₂, hS₃, by rw [ha, if_pos rfl]; exact hL₃⟩
  | false =>
    rw [ha, runIf_false, pure_ok] at h₃
    obtain ⟨_, rfl⟩ := h₃
    exact ⟨L₁, L₂, [], s₁, s₂, hS₁, hL₁, hS₂, hL₂, .nil s₂, by simp [ha]⟩

theorem EndBlockSteps.items_eq {fallbackDelay : Duration} {s s₁ s₂ s' : St Any Rest}
    {L₁ L₂ : List (Pair × Act)} {L₃ : List (ScheduledProposal × Act)}
    (h : EndBlockSteps k ctx fallbackDelay s L₁ L₂ L₃ s₁ s₂ s') :
    s'.timelock.activationHeight = s.timelock.activationHeight ∧
      s'.timelock.executionDelay = s.timelock.executionDelay := by
  let Same (u v : St Any Rest) : Prop :=
    v.timelock.activationHeight = u.timelock.activationHeight ∧
      v.timelock.executionDelay = u.timelock.executionDelay
  have hrefl : ∀ u, Same u u := fun _ => ⟨rfl, rfl⟩
  have htrans : ∀ u v w, Same u v → Same v w → Same u w :=
    fun _ _ _ h₁ h₂ => ⟨h₂.1.trans h₁.1, h₂.2.trans h₁.2⟩
  have h₁ : Same s s₁ := h.inactive.relation Same hrefl htrans
    fun u l v hl => by simp only [Same, hl.timelock_eq, and_self]
  have h₂ : Same s₁ s₂ := h.tallies.relation Same hrefl htrans fun _ _ _ hl => hl.items_eq
  have h₃ : Same s₂ s' := h.matured.relation Same hrefl htrans fun _ _ _ hl => hl.items_eq
  exact htrans _ _ _ h₁ (htrans _ _ _ h₂ h₃)

/-- The loop over the inactive queue leaves the timelock's store. -/
theorem EndBlockSteps.timelock_eq {fallbackDelay : Duration} {s s₁ s₂ s' : St Any Rest}
    {L₁ L₂ : List (Pair × Act)} {L₃ : List (ScheduledProposal × Act)}
    (h : EndBlockSteps k ctx fallbackDelay s L₁ L₂ L₃ s₁ s₂ s') : s₁.timelock = s.timelock :=
  h.inactive.relation (fun u v : St Any Rest => v.timelock = u.timelock) (fun _ => rfl)
    (fun _ _ _ h₁ h₂ => Eq.trans h₂ h₁) fun _ _ _ hl => hl.timelock_eq

/-- A call writes the logs of its turns, in order. -/
theorem EndBlockSteps.log_eq {fallbackDelay : Duration} {s s₁ s₂ s' : St Any Rest}
    {L₁ L₂ : List (Pair × Act)} {L₃ : List (ScheduledProposal × Act)}
    (h : EndBlockSteps k ctx fallbackDelay s L₁ L₂ L₃ s₁ s₂ s') :
    s'.log = s.log ++ (acts L₁ ++ acts L₂ ++ acts L₃).flatMap Act.log := by
  rw [actsLog_of_steps (R := MaturedStep k ctx) MaturedStep.log_eq h.matured,
    actsLog_of_steps (R := TallyStep k (runMessage k ctx) ctx fallbackDelay
      (s.timelock.isActive ctx.height)) TallyStep.log_eq h.tallies,
    actsLog_of_steps (R := InactiveStep k ctx) InactiveStep.log_eq h.inactive]
  simp [actsLog]

/-- A call of the end blocker writes neither of the timelock's items. -/
theorem endBlocker_items_eq {fallbackDelay : Duration} {s s' : St Any Rest} {u : Unit}
    (h : EndBlocker k ctx fallbackDelay s = .ok u s') :
    s'.timelock.activationHeight = s.timelock.activationHeight ∧
      s'.timelock.executionDelay = s.timelock.executionDelay := by
  obtain ⟨_, _, _, _, _, hS⟩ := endBlocker_steps h
  exact hS.items_eq

end Ark.GovTimelock
