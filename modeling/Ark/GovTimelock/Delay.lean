import Ark.GovTimelock.Runs

/- The delay.

   Whatever x/gov's queues, tallies, handlers and hooks do, every schedule entry
   comes from a passing tally of its proposal in an active block, one delay before
   its execution time, or was there when the run started (`Run.entry_origin`); and
   messages of a proposal run only at a matured entry, or in the block of a passing
   tally while the timelock is inactive (`Run.runs_origin`). So the
   messages of a proposal that passes once wait for the delay
   (`executions_deferred`). A proposal that passes twice may run early for its second
   tally, and x/gov's bookkeeping is what excludes it. -/
namespace Ark.GovTimelock
open Ark.Lib Ark.Gov World Effect

variable {Any Msg Rest : Type} {k : GovKeeper Any Msg Rest} {mm : Manager Any Rest}
  {E : Ctx → World Any Rest → World Any Rest → Prop} {s s' : St Any Rest} {Bs : List Block}
  {ctx : Ctx} {fallbackDelay : Duration}

/-! ## One call -/

theorem Act.of_runs_log {act : Act} {id : Nat} {o : Obs} (ho : o ∈ act.log) (h : Runs id o) :
    (∃ burned r, act = .executedNow id burned r) ∨
      ∃ sp r, sp.proposalID = id ∧ act = .executed sp r := by
  have hmem := mem_about.mpr ⟨ho, h.id_eq⟩
  rw [act.about_log] at hmem
  split at hmem
  · exact Act.of_runs hmem h
  · cases hmem

theorem TallyStep.inactive_of_executedNow
    {run : Nat → Msg → World Any Rest → Except String (Option (List SdkEvent) × World Any Rest)}
    {active : Bool} {prop : Pair} {id : Nat} {burned : Bool} {r : Ran}
    (h : TallyStep k run ctx fallbackDelay active prop s (.executedNow id burned r) s') :
    active = false := by
  cases h
  assumption

/-- A tally adds an entry only for its own proposal, when it passes while active. -/
theorem TallyStep.entry
    {run : Nat → Msg → World Any Rest → Except String (Option (List SdkEvent) × World Any Rest)}
    {active : Bool} {prop : Pair} {act : Act} {id : Nat} {t : Time}
    (h : TallyStep k run ctx fallbackDelay active prop s act s') (he : s'.timelock.Entry id t) :
    s.timelock.Entry id t ∨ (active = true ∧ .tallied id true ∈ act.log ∧
      t = ctx.time + s.timelock.getExecutionDelay fallbackDelay) := by
  cases h
  case scheduled e _ _ ha _ hdelay _ _ =>
    rcases KeySet.mem_set.mp he with hkey | he
    · cases hkey
      exact .inr ⟨ha, by simp [Act.log], hdelay⟩
    · exact .inl he
  all_goals exact .inl he

theorem tallies_entry
    {run : Nat → Msg → World Any Rest → Except String (Option (List SdkEvent) × World Any Rest)}
    {active : Bool} {L : List (Pair × Act)} {id : Nat} {t : Time}
    (h : Steps (fun u l v => TallyStep k run ctx fallbackDelay active l.1 u l.2 v) s L s')
    (he : s'.timelock.Entry id t) :
    s.timelock.Entry id t ∨ (active = true ∧ .tallied id true ∈ actsLog L ∧
      t = ctx.time + s.timelock.getExecutionDelay fallbackDelay) := by
  induction h with
  | nil => exact .inl he
  | @cons s u s' l L hl _ ih =>
    rcases ih he with he | ⟨ha, hmem, ht⟩
    · rcases hl.entry he with he | ⟨ha, hmem, ht⟩
      · exact .inl he
      · exact .inr ⟨ha, List.mem_append_left _ hmem, ht⟩
    · rw [getExecutionDelay_congr hl.items_eq.2] at ht
      exact .inr ⟨ha, List.mem_append_right _ hmem, ht⟩

section Call
variable {s₁ s₂ : St Any Rest} {L₁ L₂ : List (Pair × Act)} {L₃ : List (ScheduledProposal × Act)}
  {id : Nat} {t : Time}

/-- The entries after the tallies: the old ones, and those of this block's passing tallies. -/
theorem EndBlockSteps.entry (h : EndBlockSteps k ctx fallbackDelay s L₁ L₂ L₃ s₁ s₂ s')
    (he : s₂.timelock.Entry id t) :
    s.timelock.Entry id t ∨ (s.timelock.isActive ctx.height = true ∧ .tallied id true ∈ actsLog L₂ ∧
      t = ctx.time + s.timelock.getExecutionDelay fallbackDelay) := by
  have hentry := tallies_entry h.tallies he
  rwa [h.timelock_eq] at hentry

theorem EndBlockSteps.entry_kept (h : EndBlockSteps k ctx fallbackDelay s L₁ L₂ L₃ s₁ s₂ s')
    (he : s'.timelock.Entry id t) : s₂.timelock.Entry id t :=
  h.matured.relation (fun u v : St Any Rest => v.timelock.Entry id t → u.timelock.Entry id t)
    (fun _ he => he) (fun _ _ _ h₁ h₂ he => h₁ (h₂ he))
    (fun _ _ _ hl he => by
      rw [hl.timelock_eq] at he
      exact (KeySet.mem_remove.mp he).1) he

/-- A tally runs no messages while the timelock is active. -/
theorem EndBlockSteps.runs_inactive (h : EndBlockSteps k ctx fallbackDelay s L₁ L₂ L₃ s₁ s₂ s')
    {o : Obs} (ho : o ∈ actsLog L₁ ++ actsLog L₂) (hr : Runs id o) :
    s.timelock.isActive ctx.height = false ∧ .tallied id true ∈ actsLog L₂ := by
  rcases List.mem_append.mp ho with ho | ho
  all_goals
    obtain ⟨act, hact, ho⟩ := List.mem_flatMap.mp ho
    obtain ⟨l, hl, rfl⟩ := List.mem_map.mp hact
  · obtain ⟨u, v, hstep⟩ := turn_of_mem (R := InactiveStep k ctx) h.inactive hl
    have hcase := Act.of_runs_log ho hr
    rcases hstep.act_eq with ⟨_, he⟩ | ⟨_, he⟩ <;> rw [he] at hcase <;> simp at hcase
  · obtain ⟨u, v, hstep⟩ := turn_of_mem (R := TallyStep k (runMessage k ctx) ctx fallbackDelay _)
      h.tallies hl
    rcases Act.of_runs_log ho hr with ⟨burned, r, he⟩ | ⟨sp, r, _, he⟩
    · refine ⟨?_, List.mem_flatMap.mpr ⟨l.2, hact, by rw [he]; simp [Act.log]⟩⟩
      rw [he] at hstep
      exact hstep.inactive_of_executedNow
    · rw [he] at hstep
      cases hstep

/-- The loop over the schedule handles entries that are due, and each turn runs the messages of
its entry's proposal. -/
theorem EndBlockSteps.matured_turn (h : EndBlockSteps k ctx fallbackDelay s L₁ L₂ L₃ s₁ s₂ s')
    {l : ScheduledProposal × Act} (hl : l ∈ L₃) :
    s.timelock.isActive ctx.height = true ∧
      s₂.timelock.Entry l.1.proposalID l.1.executionTime ∧ l.1.executionTime ≤ ctx.time ∧
      ∀ {id o}, o ∈ l.2.log → Runs id o → l.1.proposalID = id := by
  have hdue : l.1 ∈ L₃.map Prod.fst := List.mem_map.mpr ⟨l, hl, rfl⟩
  rw [h.matured_due] at hdue
  split at hdue
  · rename_i ha
    obtain ⟨u, v, hstep⟩ := turn_of_mem (R := MaturedStep k ctx) h.matured hl
    obtain ⟨hmem, hle⟩ := Timelock.mem_due.mp hdue
    refine ⟨ha, hmem, hle, fun ho hr => ?_⟩
    have hid := hstep.id_eq
    rcases Act.of_runs_log ho hr with ⟨burned, r, he⟩ | ⟨sp, r, hsp, he⟩
    all_goals rw [he] at hid
    · exact hid.symm
    · exact hid.symm.trans hsp
  · cases hdue

end Call

/-! ## One block -/

section Block
variable {b : Block} {id : Nat} {t : Time}

theorem BlockStep.delay_eq (hmm : mm.Lawful) (h : BlockStep k mm E s b s') :
    b.delay = s.timelock.getExecutionDelay minimumDelay ∧
      s'.timelock.getExecutionDelay minimumDelay = s.timelock.getExecutionDelay minimumDelay := by
  obtain ⟨s₀, hbefore, hend, _, _, hdelay⟩ := h
  have hbefore := (hbefore.schedule_eq hmm).2.1
  have hend := (endBlocker_items_eq hend).2
  exact ⟨hdelay.trans (getExecutionDelay_congr hbefore _),
    getExecutionDelay_congr (hend.trans hbefore) _⟩

/-- The turns of a block's end blocker, which start from the schedule before the block. -/
theorem BlockStep.steps (hmm : mm.Lawful) (h : BlockStep k mm E s b s') :
    ∃ L₁ L₂ L₃ s₀ s₁ s₂, EndBlockSteps k b.ctx minimumDelay s₀ L₁ L₂ L₃ s₁ s₂ s' ∧
      (∀ id t, s₀.timelock.Entry id t ↔ s.timelock.Entry id t) ∧
      b.log = (acts L₁ ++ acts L₂ ++ acts L₃).flatMap Act.log ∧
      b.active = s₀.timelock.isActive b.ctx.height ∧
      b.delay = s₀.timelock.getExecutionDelay minimumDelay := by
  obtain ⟨s₀, hbefore, hend, hlog, hactive, hdelay⟩ := h
  obtain ⟨hsched, _, _, hempty, _⟩ := hbefore.schedule_eq hmm
  obtain ⟨L₁, L₂, L₃, s₁, s₂, hS⟩ := endBlocker_steps hend
  refine ⟨L₁, L₂, L₃, s₀, s₁, s₂, hS, fun id t => ?_, ?_, hactive, hdelay⟩
  · unfold Timelock.Entry
    rw [hsched]
  · rw [hlog, hS.log_eq, hempty, List.nil_append]

theorem BlockStep.entry (hmm : mm.Lawful) (h : BlockStep k mm E s b s')
    (he : s'.timelock.Entry id t) :
    s.timelock.Entry id t ∨
      (b.active = true ∧ .tallied id true ∈ b.log ∧ t = b.ctx.time + b.delay) := by
  obtain ⟨L₁, L₂, L₃, s₀, s₁, s₂, hS, hsched, hlog, hactive, hdelay⟩ := h.steps hmm
  rcases hS.entry (hS.entry_kept he) with he | ⟨ha, hmem, ht⟩
  · exact .inl ((hsched id t).mp he)
  · rw [hlog, hactive, hdelay]
    refine .inr ⟨ha, ?_, ht⟩
    rw [List.flatMap_append, List.flatMap_append]
    exact List.mem_append_left _ (List.mem_append_right _ hmem)

/-- An entry that a block handles was there before the block. -/
theorem EndBlockSteps.entry_due {s₀ s₁ s₂ : St Any Rest} {L₁ L₂ : List (Pair × Act)}
    {L₃ : List (ScheduledProposal × Act)}
    (h : EndBlockSteps k ctx minimumDelay s₀ L₁ L₂ L₃ s₁ s₂ s') (he : s₂.timelock.Entry id t)
    (hle : t ≤ ctx.time) : s₀.timelock.Entry id t := by
  rcases h.entry he with he | ⟨_, _, ht⟩
  · exact he
  · -- an entry of this block is due one delay later
    have hpos := s₀.timelock.getExecutionDelay_pos Timelock.minimumDelay_pos
    have hlt : ctx.time < t := by
      rw [ht]
      exact Int.lt_add_of_pos_right _ hpos
    exact absurd hle (not_le.mpr hlt)

/-- Messages run at a passing tally while the timelock is inactive, or at an entry that was there
before the block and is due. -/
theorem BlockStep.runs (hmm : mm.Lawful) (h : BlockStep k mm E s b s') {o : Obs} (ho : o ∈ b.log)
    (hr : Runs id o) :
    (b.active = false ∧ .tallied id true ∈ b.log) ∨
      (b.active = true ∧ ∃ t, s.timelock.Entry id t ∧ t ≤ b.ctx.time) := by
  obtain ⟨L₁, L₂, L₃, s₀, s₁, s₂, hS, hsched, hlog, hactive, hdelay⟩ := h.steps hmm
  rw [hlog, List.flatMap_append, List.flatMap_append] at ho
  rw [hactive, hlog, List.flatMap_append, List.flatMap_append]
  rcases List.mem_append.mp ho with ho | ho
  · obtain ⟨ha, hmem⟩ := hS.runs_inactive ho hr
    exact .inl ⟨ha, List.mem_append_left _ (List.mem_append_right _ hmem)⟩
  · obtain ⟨act, hact, ho⟩ := List.mem_flatMap.mp ho
    obtain ⟨l, hl, rfl⟩ := List.mem_map.mp hact
    obtain ⟨ha, he, hle, hid⟩ := hS.matured_turn hl
    rw [← hid ho hr]
    exact .inr ⟨ha, _, (hsched _ _).mp (hS.entry_due he hle), hle⟩

end Block

/-! ## A run -/

section Runs
variable {id : Nat} {t : Time}

/-- Every entry was there when the run started or comes from a passing tally of its proposal,
one delay before. -/
theorem Run.entry_origin (hmm : mm.Lawful) (h : Run k mm E s Bs s') (he : s'.timelock.Entry id t) :
    s.timelock.Entry id t ∨ ∃ b ∈ Bs, b.active = true ∧ .tallied id true ∈ b.log ∧
      t = b.ctx.time + s.timelock.getExecutionDelay minimumDelay := by
  induction Bs generalizing s with
  | nil =>
    rw [Steps.nil_iff.mp h.steps] at he
    exact .inl he
  | cons b Bs ih =>
    obtain ⟨u, hb, hrest, _⟩ := Run.cons_iff.mp h
    obtain ⟨hdelay, hkeep⟩ := hb.delay_eq hmm
    rcases ih hrest with hu | ⟨c, hc, ha, hmem, ht⟩
    · rcases hb.entry hmm hu with he | ⟨ha, hmem, ht⟩
      · exact .inl he
      · exact .inr ⟨b, List.mem_cons_self, ha, hmem, by rw [ht, hdelay]⟩
    · exact .inr ⟨c, List.mem_cons_of_mem _ hc, ha, hmem, by rw [ht, hkeep]⟩

/-- Where the messages of a proposal run. -/
theorem Run.runs_origin (hmm : mm.Lawful) (h : Run k mm E s Bs s') {c : Block} (hc : c ∈ Bs)
    {o : Obs} (ho : o ∈ c.log) (hr : Runs id o) :
    (c.active = false ∧ .tallied id true ∈ c.log) ∨
      (c.active = true ∧ ((∃ t, s.timelock.Entry id t ∧ t ≤ c.ctx.time) ∨
        ∃ b ∈ Bs, b.active = true ∧ .tallied id true ∈ b.log ∧
          b.ctx.time + s.timelock.getExecutionDelay minimumDelay ≤ c.ctx.time)) := by
  obtain ⟨pre, post, rfl⟩ := List.append_of_mem hc
  obtain ⟨u, v, hpre, hstep, _⟩ := h.split_at
  rcases hstep.runs hmm ho hr with hnow | ⟨ha, t, he, hle⟩
  · exact .inl hnow
  · refine .inr ⟨ha, ?_⟩
    rcases hpre.entry_origin hmm he with he | ⟨b, hb, hab, hmem, ht⟩
    · exact .inl ⟨t, he, hle⟩
    · exact .inr ⟨b, List.mem_append_left _ hb, hab, hmem, ht ▸ hle⟩

end Runs

/-- A proposal whose tally passed in an active block waits for the delay: none of its messages
is handed to a handler before. -/
def Deferred (id : Nat) (delay : Duration) (Bs : List Block) : Prop :=
  ∀ b ∈ Bs, b.active = true → .tallied id true ∈ b.log →
    ∀ c ∈ Bs, ∀ i, .delivered id i ∈ c.log → b.ctx.time + delay ≤ c.ctx.time

/-- The tally of a proposal passes in one block at most. -/
def PassesOnce (id : Nat) (Bs : List Block) : Prop :=
  ∀ b ∈ Bs, ∀ c ∈ Bs, .tallied id true ∈ b.log → .tallied id true ∈ c.log → b = c

/-- A state a valid genesis was imported to. -/
def Imported (s : St Any Rest) : Prop :=
  ∃ (w : World Any Rest) (log : List Obs) (bz : RawMessage), validateGenesis bz = .ok () ∧
    initGenesis true bz ⟨w, Timelock.fresh, log⟩ = .ok () s

/-- The delay in force is at least 48 hours when it is unset or comes from a valid genesis. -/
theorem minimumDelay_le (h : s.timelock.executionDelay = none ∨ Imported s) :
    minimumDelay ≤ s.timelock.getExecutionDelay minimumDelay := by
  unfold Timelock.getExecutionDelay
  rcases h with h | ⟨w, log, bz, hv, hi⟩
  · rw [h]
  · obtain ⟨gs, _, hvalid, htl⟩ := genesis_imported hv hi
    have hd : s.timelock.executionDelay =
        if 0 < gs.executionDelay then some gs.executionDelay else none := by
      rw [htl]
      rfl
    rw [hd]
    rcases hvalid.delay with h0 | hmin
    · rw [h0, if_neg (lt_irrefl 0)]
    · have hpos := Timelock.minimumDelay_pos.trans_le hmin
      simp only [hpos, if_true, not_le.mpr hpos, if_false]
      exact hmin

theorem Run.deferred (hmm : mm.Lawful) (h : Run k mm E s Bs s') {id : Nat}
    (hno : ∀ t, ¬ s.timelock.Entry id t) (honce : PassesOnce id Bs) :
    Deferred id (s.timelock.getExecutionDelay minimumDelay) Bs := by
  intro b hb ha ht c hc i hd
  rcases h.runs_origin hmm hc hd (.inr ⟨i, rfl⟩) with ⟨hinactive, htc⟩ | ⟨_, ⟨t, he, _⟩ | ⟨a, hab, _, hta, hle⟩⟩
  · rw [honce b hb c hc ht htc, hinactive] at ha
    cases ha
  · exact absurd he (hno t)
  · rw [honce b hb a hab ht hta]
    exact hle

theorem Run.mono {E' : Ctx → World Any Rest → World Any Rest → Prop}
    (hE : ∀ ctx w w', E ctx w w' → E' ctx w w') (h : Run k mm E s Bs s') : Run k mm E' s Bs s' := by
  refine ⟨h.steps.map (f := fun s => s) ?_, h.ordered⟩
  intro s b s' ⟨s₀, hbefore, hrest⟩
  refine ⟨s₀, ?_, hrest⟩
  cases hbefore with
  | transactions hw => exact .transactions (hE _ _ _ hw)
  | upgrade hup hw => exact .upgrade hup (hE _ _ _ hw)

/-- The messages of a proposal run in one block at most. -/
def RunsOnce (id : Nat) (Bs : List Block) : Prop :=
  ∀ b ∈ Bs, ∀ c ∈ Bs, (∃ o ∈ b.log, Runs id o) → (∃ o ∈ c.log, Runs id o) → b = c

/-- When x/gov keeps its rules, a proposal that is tallied had no entry at the start, passes once
and runs once. -/
theorem Run.of_tallied (hk : k.Lawful) (hmm : mm.Lawful) (hstart : Start s) (hwf : s.world.WF)
    (h : Run k mm Ruled s Bs s') {b : Block} {id : Nat} {passes : Bool} (hb : b ∈ Bs)
    (ht : .tallied id passes ∈ b.log) :
    (∀ t, ¬ s.timelock.Entry id t) ∧ PassesOnce id Bs ∧ RunsOnce id Bs := by
  obtain ⟨φ, hsim, hφ⟩ := hstart.sim hwf
  obtain ⟨φ', _, hhist⟩ := h.histories hk hmm hsim
  refine ⟨?_, fun b hb c hc => (hhist id).passing_once hb hc, fun b hb c hc =>
    (hhist id).runs_once hb hc⟩
  rcases hφ id with ⟨e, he, _⟩ | ⟨_, hno⟩
  · exact absurd ht ((hhist id).no_tally (by rw [he]; rfl) hb passes)
  · exact hno

/-- **Messages wait for the delay.** Over any run, and whatever x/gov and its handlers do, the
messages of a proposal that passes in one block and had no entry at the start reach a handler
no earlier than the delay after that block. When x/gov keeps its rules this holds of every
proposal. The delay is at least 48 hours when it is unset or comes from a valid genesis. -/
theorem executions_deferred (k : GovKeeper Any Msg Rest) (mm : Manager Any Rest) (hmm : mm.Lawful)
    (hstart : Start s) (h : Run k mm E s Bs s') :
    (s.timelock.executionDelay = none ∨ Imported s →
      minimumDelay ≤ s.timelock.getExecutionDelay minimumDelay) ∧
    (∀ id, (∀ t, ¬ s.timelock.Entry id t) → PassesOnce id Bs →
      Deferred id (s.timelock.getExecutionDelay minimumDelay) Bs) ∧
    (k.Lawful → s.world.WF → (∀ ctx w w', E ctx w w' → Ruled ctx w w') →
      ∀ id, Deferred id (s.timelock.getExecutionDelay minimumDelay) Bs) := by
  refine ⟨minimumDelay_le, fun id => h.deferred hmm, fun hk hwf hE id b hb ha ht => ?_⟩
  obtain ⟨hno, honce, _⟩ := (h.mono hE).of_tallied hk hmm hstart hwf hb ht
  exact h.deferred hmm hno honce b hb ha ht

/-- A proposal that is tallied and executed 48 hours later. -/
theorem deferred_executions_deferred : .tallied 7 true ∈ tallyBlock.log ∧
    .delivered 7 0 ∈ executionBlock.log ∧ Deferred 7 minimumDelay [tallyBlock, executionBlock] :=
  ⟨List.mem_cons_self, by simp [executionBlock, Act.log, Ran.log],
    (executions_deferred passingKeeper govtimelockManager govtimelockManager_lawful
      (votingState_start _) deferred_run).2.2 passingKeeper_lawful
      (votingWorld_wf (by decide) (by decide)) (fun _ _ _ h => h) 7⟩

/-! ## A proposal in two slots -/

/-- A chain on which proposal 7 stands in the active queue twice. -/
def doubledState : St Unit Unit where
  world := (votingWorld [(7, 10)]).setActive ⟨20, 7⟩
  timelock := ⟨KeySet.empty, some 1, none⟩
  log := []

/-- The block of the second slot, in which proposal 7 is tallied again. -/
def secondTallyBlock : Block where
  ctx := blockAt 2 20 (by decide)
  active := true
  delay := minimumDelay
  log := (Act.scheduled 7 false (20 + minimumDelay)
    (passingKeeper.formatTime (20 + minimumDelay))).log

/-- The block in which the entry of the first tally matures. -/
def firstMaturityBlock : Block where
  ctx := blockAt 3 172800000000010 (by decide)
  active := true
  delay := minimumDelay
  log := (Act.executed ⟨7, 10 + minimumDelay⟩ ⟨1, [], .passed, "passed"⟩).log

/-- What a second tally of proposal 7 leaves. -/
def talliedAgain (s : St Unit Unit) : St Unit Unit where
  world := (s.world.removeActive ⟨20, 7⟩).setRecord (passedProposal 7 10)
  timelock := { s.timelock with
    scheduledProposals := s.timelock.scheduledProposals.set ⟨20 + minimumDelay, 7⟩ }
  log := secondTallyBlock.log

/-- A proposal in two slots passes twice, and is executed one delay after the first tally, which
is earlier than one delay after the second. -/
theorem doubled_not_deferred : ∃ (Bs : List Block) (s' : St Unit Unit), Start doubledState ∧
    Run passingKeeper govtimelockManager Unruled doubledState Bs s' ∧
    ¬ Deferred 7 (doubledState.timelock.getExecutionDelay minimumDelay) Bs := by
  have h₁ : BlockStep passingKeeper govtimelockManager Unruled doubledState tallyBlock
      (tallied doubledState 7 10 10 tallyBlock.log) := .of_endBlock trivial rfl rfl rfl rfl
  have h₂ : BlockStep passingKeeper govtimelockManager Unruled
      (tallied doubledState 7 10 10 tallyBlock.log) secondTallyBlock
      (talliedAgain (tallied doubledState 7 10 10 tallyBlock.log)) :=
    .of_endBlock trivial rfl rfl rfl rfl
  have h₃ : BlockStep passingKeeper govtimelockManager Unruled
      (talliedAgain (tallied doubledState 7 10 10 tallyBlock.log)) firstMaturityBlock
      (executed (talliedAgain (tallied doubledState 7 10 10 tallyBlock.log)) 7 10 10
        firstMaturityBlock.log) :=
    .of_endBlock trivial rfl rfl rfl rfl
  refine ⟨[tallyBlock, secondTallyBlock, firstMaturityBlock], _,
    .empty fun _ _ => KeySet.not_mem_empty _, ⟨.cons h₁ (.cons h₂ (.cons h₃ (.nil _))), ?_⟩,
    fun hdef => ?_⟩
  · simp [tallyBlock, secondTallyBlock, firstMaturityBlock, blockAt]
  · have hle := hdef secondTallyBlock (by simp) rfl List.mem_cons_self firstMaturityBlock (by simp)
      0 (by simp [firstMaturityBlock, Act.log, Ran.log])
    exact absurd hle (by decide)

end Ark.GovTimelock
