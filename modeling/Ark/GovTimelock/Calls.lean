import Ark.GovTimelock.Runs

/- What stands behind a log.

   A log entry of a call says that something was done; `Made` says what: which of
   x/gov's methods, handlers and hooks was called on which state of the chain, and
   what the call left. A part of a call that writes no entry is the write of a record
   or of a queue. `Calls` puts the parts together: the log of a call of the end
   blocker leads, part by part and with nothing between the parts, from the state
   before the call to the state after it (`endBlock_calls`). So an entry of a log is
   a call that was made, in the place where the log has it (`Calls.of_settled`,
   `Calls.of_requeued`, `Calls.of_hooked`, `Calls.of_executing`), and a call that was
   made has its entry. The messages that an execution counts as delivered are messages
   whose handlers were called, each on what the ones before it left
   (`runMessages_delivered`). -/
namespace Ark.GovTimelock
open Ark.Lib Ark.Gov World Effect

variable {Any Msg Rest : Type} {k : GovKeeper Any Msg Rest} {mm : Manager Any Rest} {ctx : Ctx}
  {E : Ctx → World Any Rest → World Any Rest → Prop} {w w' w'' : World Any Rest}
  {log log' : List Obs} {id : Nat}

/-- A part of a call: the state it found, the log entries that stand for it and the state it
left. Records are read where the part begins. -/
inductive Made (k : GovKeeper Any Msg Rest) (ctx : Ctx) :
    World Any Rest → List Obs → World Any Rest → Prop
  | setProposal {p : Proposal Any} {w w' : World Any Rest} :
      k.setProposal ctx p w = .ok () w' → Made k ctx w [] w'
  | deleteProposal {id : Nat} {w w' : World Any Rest} :
      k.deleteProposal ctx id w = .ok () w' → Made k ctx w [] w'
  | removeActive (key : Pair) (w : World Any Rest) : Made k ctx w [] (w.removeActive key)
  | removeInactive (key : Pair) (w : World Any Rest) : Made k ctx w [] (w.removeInactive key)
  | tallied {id : Nat} {p : Proposal Any} {passes burned : Bool} {res : TallyResult}
      {w w' : World Any Rest} :
      w.getProposal id = .found p → k.tally ctx p w = .ok (passes, burned, res) w' →
      Made k ctx w [.tallied id passes] w'
  | settled {id : Nat} {burned : Bool} {w w' : World Any Rest} :
      Settles k ctx id burned w w' → Made k ctx w [.settled id burned] w'
  | requeued {id : Nat} {p : Proposal Any} {params : Params} {start : Time} {period : Duration}
      {w : World Any Rest} :
      w.getProposal id = .found p → p.expedited = true → p.votingStartTime = some start →
      w.params = some params → params.votingPeriod = some period →
      Made k ctx w [.requeued id start period] (w.setActive ⟨start + period, id⟩)
  | hooked {id : Nat} {w w' : World Any Rest} :
      Hooks (k.afterProposalVotingPeriodEnded ctx id) w w' → Made k ctx w [.hooked id] w'
  | minDepositHooked {id : Nat} {w w' : World Any Rest} :
      Hooks (k.afterProposalFailedMinDeposit ctx id) w w' → Made k ctx w [.minDepositHooked id] w'
  | executed {id : Nat} {p p' : Proposal Any} {r : Ran} {w w' : World Any Rest} :
      w.getProposal id = .found p → Executed k (runMessage k ctx) p w p' w' r →
      Made k ctx w (r.log id) w'
  | event (e : Event) (w : World Any Rest) : Made k ctx w [.event e] w

/-- The parts that `log` stands for lead, one after the other, from one state to another. -/
def Calls (k : GovKeeper Any Msg Rest) (ctx : Ctx) (w : World Any Rest) (log : List Obs)
    (w' : World Any Rest) : Prop :=
  ∃ parts : List (List Obs), parts.flatten = log ∧ Steps (Made k ctx) w parts w'

theorem Calls.nil (k : GovKeeper Any Msg Rest) (ctx : Ctx) (w : World Any Rest) :
    Calls k ctx w [] w := ⟨[], rfl, .nil w⟩

theorem Made.calls (h : Made k ctx w log w') : Calls k ctx w log w' :=
  ⟨[log], by simp, .cons h (.nil w')⟩

theorem Calls.trans (h : Calls k ctx w log w') (h' : Calls k ctx w' log' w'') :
    Calls k ctx w (log ++ log') w'' := by
  obtain ⟨parts, rfl, hS⟩ := h
  obtain ⟨parts', rfl, hS'⟩ := h'
  exact ⟨parts ++ parts', List.flatten_append, hS.append hS'⟩

/-- The part that a log entry belongs to, and the parts around it. -/
theorem Calls.of_mem (h : Calls k ctx w log w') {o : Obs} (ho : o ∈ log) :
    ∃ pre part post u v, log = pre ++ part ++ post ∧ o ∈ part ∧ Calls k ctx w pre u ∧
      Made k ctx u part v ∧ Calls k ctx v post w' := by
  obtain ⟨parts, rfl, hS⟩ := h
  obtain ⟨part, hpart, hin⟩ := List.mem_flatten.mp ho
  obtain ⟨P₁, P₂, u, v, rfl, h₁, hmade, h₂⟩ := hS.of_mem hpart
  exact ⟨P₁.flatten, part, P₂.flatten, u, v, by simp, hin, ⟨P₁, rfl, h₁⟩, hmade, ⟨P₂, rfl, h₂⟩⟩

/-! ## Messages -/

/-- A message that its handler ran, from one state to another. -/
def Handled (k : GovKeeper Any Msg Rest) (ctx : Ctx) (w : World Any Rest) (msg : Msg)
    (w' : World Any Rest) : Prop :=
  ∃ handler events, k.handler msg = some handler ∧ handler ctx msg w = .ok (some events) w'

/-- The messages counted as delivered have handlers, and each was called on what the messages
before it left. -/
theorem runMessages_delivered {msgs : List Msg} :
    ∀ {idx n : Nat} {events : List SdkEvent} {w : World Any Rest}
      {outcome : Except Fault (World Any Rest × List SdkEvent)} {j : Nat},
      runMessages k (runMessage k ctx) idx msgs events w = ⟨n, outcome⟩ → idx + j < n →
      ∃ msg handler u, msgs[j]? = some msg ∧ k.handler msg = some handler ∧
        Steps (Handled k ctx) w (msgs.take j) u := by
  induction msgs with
  | nil =>
    intro idx n events w outcome j h hj
    simp only [runMessages, Execution.mk.injEq] at h
    omega
  | cons msg msgs ih =>
    intro idx n events w outcome j h hj
    rw [runMessages] at h
    -- the first message is delivered when it has a handler, and the others only if it succeeds
    have hfirst : j = 0 → (k.handler msg).isSome → ∃ msg' handler u, (msg :: msgs)[j]? = some msg' ∧
        k.handler msg' = some handler ∧ Steps (Handled k ctx) w ((msg :: msgs).take j) u := by
      rintro rfl hsome
      obtain ⟨handler, hh⟩ := Option.isSome_iff_exists.mp hsome
      exact ⟨msg, handler, w, rfl, hh, .nil w⟩
    rcases hr : runMessage k ctx idx msg w with err | ⟨_ | evs, w₁⟩
    · simp only [hr, Execution.mk.injEq] at h
      split at h
      · rename_i hsome
        exact hfirst (by omega) hsome
      · omega
    · simp only [hr, Execution.mk.injEq] at h
      obtain ⟨handler, hh, _⟩ := runMessage_ok hr
      exact hfirst (by omega) (by simp [hh])
    · simp only [hr] at h
      obtain ⟨handler, hh, hx⟩ := runMessage_ok hr
      cases j with
      | zero => exact hfirst rfl (by simp [hh])
      | succ j =>
        obtain ⟨msg', handler', u, hmsg, hh', hS⟩ := ih h (j := j) (by omega)
        exact ⟨msg', handler', u, by simpa using hmsg, hh', .cons ⟨handler, evs, hh, hx⟩ hS⟩

/-! ## The calls behind an entry -/

/-- An entry of an execution is not a settlement, a conversion or a hook call. -/
theorem Ran.mem_log {r : Ran} {o : Obs} (ho : o ∈ r.log id) :
    o = .executing id ∨ (∃ i < r.delivered, o = .delivered id i) ∨ ∃ e, o = .event (.handler e) := by
  simp only [Ran.log, List.cons_append, List.mem_cons, List.mem_append, List.mem_map,
    List.mem_range] at ho
  rcases ho with rfl | ⟨i, hi, rfl⟩ | ⟨e, _, rfl⟩
  · exact .inl rfl
  · exact .inr (.inl ⟨i, hi, rfl⟩)
  · exact .inr (.inr ⟨e, rfl⟩)

/-- A settlement in the log: the deposits were refunded or burned on the state the log had come
to, and the call went on from what that left. -/
theorem Calls.of_settled (h : Calls k ctx w log w') {burned : Bool}
    (hmem : .settled id burned ∈ log) :
    ∃ pre post u v, log = pre ++ .settled id burned :: post ∧ Calls k ctx w pre u ∧
      Settles k ctx id burned u v ∧ Calls k ctx v post w' := by
  obtain ⟨pre, part, post, u, v, rfl, ho, hpre, hmade, hpost⟩ := h.of_mem hmem
  refine ⟨pre, post, u, v, ?_⟩
  cases hmade with
  | settled hs =>
    rw [List.mem_singleton] at ho
    cases ho
    exact ⟨by simp, hpre, hs, hpost⟩
  | executed => rcases Ran.mem_log ho with ho | ⟨_, _, ho⟩ | ⟨_, ho⟩ <;> cases ho
  | _ => simp at ho

/-- A conversion in the log: the record and the parameters of the moment give the new end. -/
theorem Calls.of_requeued (h : Calls k ctx w log w') {start : Time} {period : Duration}
    (hmem : .requeued id start period ∈ log) :
    ∃ pre post u p params, log = pre ++ .requeued id start period :: post ∧ Calls k ctx w pre u ∧
      u.getProposal id = .found p ∧ p.expedited = true ∧ p.votingStartTime = some start ∧
      u.params = some params ∧ params.votingPeriod = some period ∧
      Calls k ctx (u.setActive ⟨start + period, id⟩) post w' := by
  obtain ⟨pre, part, post, u, v, rfl, ho, hpre, hmade, hpost⟩ := h.of_mem hmem
  cases hmade with
  | @requeued i p params _ _ _ hp hexp hstart hparams hperiod =>
    rw [List.mem_singleton] at ho
    cases ho
    exact ⟨pre, post, u, p, params, by simp, hpre, hp, hexp, hstart, hparams, hperiod, hpost⟩
  | executed => rcases Ran.mem_log ho with ho | ⟨_, _, ho⟩ | ⟨_, ho⟩ <;> cases ho
  | _ => simp at ho

/-- A hook call in the log: the hook ran on the state the log had come to; the call went on from
what it wrote, or from that state when it returned an error. -/
theorem Calls.of_hooked (h : Calls k ctx w log w') (hmem : .hooked id ∈ log) :
    ∃ pre post u v, log = pre ++ .hooked id :: post ∧ Calls k ctx w pre u ∧
      Hooks (k.afterProposalVotingPeriodEnded ctx id) u v ∧ Calls k ctx v post w' := by
  obtain ⟨pre, part, post, u, v, rfl, ho, hpre, hmade, hpost⟩ := h.of_mem hmem
  refine ⟨pre, post, u, v, ?_⟩
  cases hmade with
  | hooked hh =>
    rw [List.mem_singleton] at ho
    cases ho
    exact ⟨by simp, hpre, hh, hpost⟩
  | executed => rcases Ran.mem_log ho with ho | ⟨_, _, ho⟩ | ⟨_, ho⟩ <;> cases ho
  | _ => simp at ho

/-- An execution in the log: the stored proposal's messages ran on the state the log had come to. -/
theorem Calls.of_executing (h : Calls k ctx w log w') (hmem : .executing id ∈ log) :
    ∃ pre post u v p p' r, log = pre ++ r.log id ++ post ∧ Calls k ctx w pre u ∧
      u.getProposal id = .found p ∧ Executed k (runMessage k ctx) p u p' v r ∧
      Calls k ctx v post w' := by
  obtain ⟨pre, part, post, u, v, rfl, ho, hpre, hmade, hpost⟩ := h.of_mem hmem
  cases hmade with
  | @executed i p p' r _ _ hp hx =>
    rcases Ran.mem_log ho with ho | ⟨_, _, ho⟩ | ⟨_, ho⟩ <;> cases ho
    exact ⟨pre, post, u, v, p, p', r, rfl, hpre, hp, hx, hpost⟩
  | _ => simp at ho

/-- A delivery in the log: the message at that place of the stored proposal has a handler, which
was called on what the messages before it left. -/
theorem Calls.of_delivered (h : Calls k ctx w log w') {i : Nat} (hmem : .delivered id i ∈ log) :
    ∃ pre u p msgs msg handler v, (∃ r post, log = pre ++ Ran.log r id ++ post) ∧
      Calls k ctx w pre u ∧ u.getProposal id = .found p ∧ k.getMsgs p.messages = .ok msgs ∧
      msgs[i]? = some msg ∧ k.handler msg = some handler ∧
      Steps (Handled k ctx) u (msgs.take i) v := by
  obtain ⟨pre, part, post, u, v, rfl, ho, hpre, hmade, hpost⟩ := h.of_mem hmem
  cases hmade with
  | @executed _ p _ r _ _ hp hx =>
    rcases Ran.mem_log ho with ho | ⟨_, hi, ho⟩ | ⟨_, ho⟩ <;> cases ho
    have hrun : ∀ {msgs n outcome}, k.getMsgs p.messages = .ok msgs →
        runMessages k (runMessage k ctx) 0 msgs [] u = ⟨n, outcome⟩ → i < n →
        ∃ pre' u' p' msgs msg handler v', (∃ r' post', pre ++ r.log id ++ post =
          pre' ++ Ran.log r' id ++ post') ∧ Calls k ctx w pre' u' ∧ u'.getProposal id = .found p' ∧
          k.getMsgs p'.messages = .ok msgs ∧ msgs[i]? = some msg ∧ k.handler msg = some handler ∧
          Steps (Handled k ctx) u' (msgs.take i) v' := by
      intro msgs n outcome hm hruns hi
      obtain ⟨msg, handler, v', hmsg, hh, hS⟩ := runMessages_delivered hruns (by simpa using hi)
      exact ⟨pre, u, p, msgs, msg, handler, v', ⟨r, post, rfl⟩, hpre, hp, hm, hmsg, hh, hS⟩
    cases hx with
    | succeeded hm hruns => exact hrun hm hruns hi
    | undecodable => simp at hi
    | failed hm hruns => exact hrun hm hruns hi
  | _ => simp at ho

/-! ## Turns -/

section Turns
variable {s s' : St Any Rest} {prop : Pair} {act : Act} {p : Proposal Any}

theorem InactiveStep.calls (h : InactiveStep k ctx prop s act s') :
    Calls k ctx s.world act.log s'.world := by
  cases h with
  | @undecodable p err w₁ w₂ w₃ _ hset hsettle hdel =>
    have hwrites : Calls k ctx w₂ [] w₃ := (Made.removeInactive prop w₂).calls.trans (Made.deleteProposal hdel).calls
    exact (Made.setProposal hset).calls.trans ((Made.settled hsettle).calls.trans
      (hwrites.trans (Made.event _ _).calls))
  | expired _ hdel _ hsettle hhook =>
    exact (Made.deleteProposal hdel).calls.trans ((Made.settled hsettle).calls.trans
      ((Made.minDepositHooked hhook).calls.trans (Made.event _ _).calls))

/-- The tally, the settlement if there is one, and the removal of the queue entry. -/
theorem Tallied.calls {passes burned : Bool} {res : TallyResult}
    (h : Tallied k ctx prop w p passes burned res w') :
    Calls k ctx w (.tallied prop.k2 passes ::
      if (!p.expedited || passes) = true then [.settled prop.k2 burned] else []) w' := by
  cases h with
  | settled hg ht hc hs =>
    rw [if_pos hc]
    exact (Made.tallied hg ht).calls.trans
      ((Made.settled hs).calls.trans (Made.removeActive prop _).calls)
  | kept hg ht hc =>
    rw [if_neg (by simp [hc])]
    exact (Made.tallied hg ht).calls.trans (Made.removeActive prop _).calls

/-- How a turn ends that calls the hook: a record is written, the hook runs, an event follows. -/
theorem calls_of_ending {id : Nat} {u v : World Any Rest} (hset : k.setProposal ctx p w = .ok () u)
    (hhook : Hooks (k.afterProposalVotingPeriodEnded ctx id) u v) (e : Event) :
    Calls k ctx w [.hooked id, .event e] v :=
  (Made.setProposal hset).calls.trans ((Made.hooked hhook).calls.trans (Made.event e v).calls)

theorem TallyStep.calls (hk : k.Lawful) {fallbackDelay : Duration} {active : Bool}
    (h : TallyStep k (runMessage k ctx) ctx fallbackDelay active prop s act s') :
    Calls k ctx s.world act.log s'.world := by
  cases h with
  | undecodable _ hset hsettle =>
    exact (Made.setProposal hset).calls.trans ((Made.settled hsettle).calls.trans
      ((Made.removeActive prop _).calls.trans (Made.event _ _).calls))
  | @executedNow p p' burned res r _ _ _ _ _ hT hx hset hhook =>
    obtain ⟨hg, _, hg', _⟩ := hT.world hk
    have hends := calls_of_ending hset hhook (.activeProposal prop.k2 r.result r.logMsg)
    simpa [Act.log] using hT.calls.trans ((Made.executed (hg'.trans hg) hx).calls.trans hends)
  | @scheduled p burned res e w₁ _ _ hT _ _ hset =>
    have hevent : Made k ctx w₁ [.event (.proposalScheduled prop.k2 (k.formatTime e))] w₁ := .event _ _
    have hends := (Made.setProposal hset).calls.trans (Made.event (.activeProposal prop.k2 .passed
      ("passed; execution scheduled for " ++ k.formatTime e)) _).calls
    simpa [Act.log] using hT.calls.trans (hevent.calls.trans hends)
  | converted hT hexp hparams hstart hperiod _ hset hhook =>
    obtain ⟨hg, _, hg', _⟩ := hT.world hk
    have hreq : Made k ctx _ _ _ := .requeued (hg'.trans hg) hexp hstart hparams hperiod
    have hends := calls_of_ending hset hhook (.activeProposal prop.k2 .expeditedRejected
      "expedited proposal converted to regular")
    simpa [Act.log, hexp] using hT.calls.trans (hreq.calls.trans hends)
  | rejected hT hexp hset hhook =>
    have hends := calls_of_ending hset hhook (.activeProposal prop.k2 .rejected "rejected")
    simpa [Act.log, hexp] using hT.calls.trans hends

theorem MaturedStep.calls {sp : ScheduledProposal} (h : MaturedStep k ctx sp s act s') :
    Calls k ctx s.world act.log s'.world := by
  cases h with
  | executed hg _ hx hset hhook =>
    exact (Made.executed hg hx).calls.trans (calls_of_ending hset hhook _)
  | corrupt _ hset hhook => exact calls_of_ending hset hhook _
  | missing _ hhook => exact (Made.hooked hhook).calls.trans (Made.event _ _).calls
  | wrongStatus _ _ hhook => exact (Made.hooked hhook).calls.trans (Made.event _ _).calls

/-- What a run of turns logs was called, when every turn's log was. -/
theorem calls_of_steps {ι : Type} {R : ι → St Any Rest → Act → St Any Rest → Prop}
    (hR : ∀ {i s act s'}, R i s act s' → Calls k ctx s.world act.log s'.world)
    {L : List (ι × Act)} (h : Steps (fun u l v => R l.1 u l.2 v) s L s') :
    Calls k ctx s.world (actsLog L) s'.world := by
  induction h with
  | nil s => exact .nil k ctx s.world
  | cons hl _ ih => exact (hR hl).trans ih

end Turns

/-! ## A call -/

/-- **The log of a call is what was called.** -/
theorem endBlock_calls (hk : k.Lawful) {s s' : St Any Rest} (h : endBlock k ctx s = .ok () s') :
    ∃ log, s'.log = s.log ++ log ∧ Calls k ctx s.world log s'.world := by
  obtain ⟨L₁, L₂, L₃, s₁, s₂, hS⟩ := endBlocker_steps h
  refine ⟨_, hS.log_eq, ?_⟩
  rw [List.flatMap_append, List.flatMap_append]
  exact ((calls_of_steps (R := InactiveStep k ctx) InactiveStep.calls hS.inactive).trans
    (calls_of_steps (R := TallyStep k (runMessage k ctx) ctx minimumDelay _)
      (TallyStep.calls hk) hS.tallies)).trans
    (calls_of_steps (R := MaturedStep k ctx) MaturedStep.calls hS.matured)

/-- The end blocker's call in a block, whose log starts empty. -/
theorem BeforeEndBlock.calls (hk : k.Lawful) (hmm : mm.Lawful) {s s₀ s' : St Any Rest}
    (h : BeforeEndBlock mm E ctx s s₀) (hend : endBlock k ctx s₀ = .ok () s') :
    Calls k ctx s₀.world s'.log s'.world := by
  obtain ⟨log, hlog, hcalls⟩ := endBlock_calls hk hend
  rw [(h.schedule_eq hmm).2.2.2.1, List.nil_append] at hlog
  rw [hlog]
  exact hcalls

/-- A block of a run: what came before it and comes after it, and the calls behind its log. -/
theorem Run.block_calls (hk : k.Lawful) (hmm : mm.Lawful) {s s' : St Any Rest} {b : Block}
    {pre post : List Block} (h : Run k mm E s (pre ++ b :: post) s') :
    ∃ u s₀ v, Run k mm E s pre u ∧ BeforeEndBlock mm E b.ctx u s₀ ∧
      Calls k b.ctx s₀.world b.log v.world ∧ Run k mm E v post s' := by
  obtain ⟨u, v, hpre, ⟨s₀, hbefore, hend, hlog, _⟩, hpost⟩ := h.steps.split_at
  obtain ⟨hord, hordpost, _⟩ := List.pairwise_append.mp h.ordered
  exact ⟨u, s₀, v, ⟨hpre, hord⟩, hbefore, hlog ▸ hbefore.calls hk hmm hend, ⟨hpost, hordpost.of_cons⟩⟩

end Ark.GovTimelock
