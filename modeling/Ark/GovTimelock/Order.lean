import Ark.GovTimelock.Delay

/- The order of executions.

   The schedule is walked by (execution time, id), and an entry's execution time is
   its tally's block time and the delay, which is the same in every block. So two
   proposals that are deferred run in the order of (block time of the tally, id)
   (`executions_ordered`). That is the order in which x/gov would have run them when
   the tallies' block times differ; within one block time x/gov goes by the end of
   the voting period and the schedule by id. -/
namespace Ark.GovTimelock
open Ark.Lib Ark.Gov World Effect

variable {Any Msg Rest : Type} {k : GovKeeper Any Msg Rest} {mm : Manager Any Rest}
  {E : Ctx → World Any Rest → World Any Rest → Prop} {s s' : St Any Rest} {Bs : List Block}

/-- The log is cut between the messages of `a` and those of `b`. -/
def RunsBefore (a b : Nat) (log : List Obs) : Prop :=
  ∃ l₁ l₂, log = l₁ ++ l₂ ∧ (∀ o ∈ l₁, ¬ Runs b o) ∧ ∀ o ∈ l₂, ¬ Runs a o

theorem RunsBefore.asymm {a b : Nat} {log : List Obs} (h : RunsBefore a b log)
    (ha : .executing a ∈ log) (hb : .executing b ∈ log) : ¬ RunsBefore b a log := by
  intro ⟨m₁, m₂, hm, hm₁, hm₂⟩
  obtain ⟨l₁, l₂, rfl, hl₁, hl₂⟩ := h
  have hal : .executing a ∈ l₁ := (List.mem_append.mp ha).resolve_right fun h => hl₂ _ h (.inl rfl)
  have hbl : .executing b ∉ l₁ := fun h => hl₁ _ h (.inl rfl)
  have hbm : .executing b ∈ m₁ := by
    rw [hm] at hb
    exact (List.mem_append.mp hb).resolve_right fun h => hm₂ _ h (.inl rfl)
  have ham : .executing a ∉ m₁ := fun h => hm₁ _ h (.inl rfl)
  rcases List.append_eq_append_iff.mp hm with ⟨x, rfl, _⟩ | ⟨x, rfl, _⟩
  · exact ham (List.mem_append_left _ hal)
  · exact hbl (List.mem_append_left _ hbm)

/-! ## One block -/

/-- An active block runs the messages of the entries that are due, entry by entry in the order of
their keys. -/
theorem BlockStep.runs_in_order (hmm : mm.Lawful) {b : Block} (h : BlockStep k mm E s b s')
    (ha : b.active = true) :
    ∃ (l : List Obs) (parts : List (ScheduledProposal × List Obs)),
      b.log = l ++ parts.flatMap Prod.snd ∧ (∀ id, ∀ o ∈ l, ¬ Runs id o) ∧
      (parts.Pairwise fun x y => x.1.key < y.1.key) ∧
      ∀ x ∈ parts, s.timelock.Entry x.1.proposalID x.1.executionTime ∧
        ∀ {id o}, o ∈ x.2 → Runs id o → x.1.proposalID = id := by
  obtain ⟨L₁, L₂, L₃, s₀, s₁, s₂, hS, hsched, hlog, hactive, _⟩ := h.steps hmm
  refine ⟨actsLog L₁ ++ actsLog L₂, L₃.map fun l => (l.1, l.2.log), ?_, fun id o ho hr => ?_, ?_,
    fun x hx => ?_⟩
  · rw [hlog, List.flatMap_append, List.flatMap_append, List.flatMap_map]
    simp only [actsLog, acts, List.flatMap_map]
  · rw [(hS.runs_inactive ho hr).1] at hactive
    rw [hactive] at ha
    cases ha
  · have hdue := hS.matured_due
    rw [← hactive, if_pos ha] at hdue
    have hsorted := Timelock.due_sorted (t := s₂.timelock) b.ctx.time
    rw [← hdue, List.pairwise_map] at hsorted
    rwa [List.pairwise_map]
  · obtain ⟨l, hl, rfl⟩ := List.mem_map.mp hx
    obtain ⟨_, he, hle, hid⟩ := hS.matured_turn hl
    exact ⟨(hsched _ _).mp (hS.entry_due he hle), hid⟩

/-- Two proposals with one entry each that run in a block run in the order of their keys. -/
theorem BlockStep.runs_before (hmm : mm.Lawful) {c : Block} (h : BlockStep k mm E s c s')
    (hc : c.active = true) {a b : Nat} {ea eb : Time} (ha : ∀ t, s.timelock.Entry a t → t = ea)
    (hb : ∀ t, s.timelock.Entry b t → t = eb) (hlt : (⟨ea, a⟩ : Pair) < ⟨eb, b⟩) :
    RunsBefore a b c.log := by
  obtain ⟨l, parts, hlog, hl, hsorted, hparts⟩ := h.runs_in_order hmm hc
  obtain ⟨p₁, p₂, rfl, h₁, h₂⟩ := KeySet.cut_at hsorted ⟨eb, b⟩
  have hkey : ∀ {id : Nat} {e : Time} {x : ScheduledProposal × List Obs} {o : Obs},
      (∀ t, s.timelock.Entry id t → t = e) → x ∈ p₁ ++ p₂ → o ∈ x.2 → Runs id o →
        x.1.key = ⟨e, id⟩ := by
    intro id e x o he hx ho hr
    obtain ⟨hentry, hid⟩ := hparts x hx
    have hid := hid ho hr
    rw [hid] at hentry
    rw [ScheduledProposal.key, hid, he _ hentry]
  refine ⟨l ++ p₁.flatMap Prod.snd, p₂.flatMap Prod.snd, ?_, fun o ho hr => ?_, fun o ho hr => ?_⟩
  · rw [hlog, List.flatMap_append, List.append_assoc]
  · rcases List.mem_append.mp ho with ho | ho
    · exact hl b o ho hr
    · obtain ⟨x, hx, ho⟩ := List.mem_flatMap.mp ho
      have hxlt := h₁ x hx
      rw [hkey hb (List.mem_append_left _ hx) ho hr] at hxlt
      exact lt_irrefl _ hxlt
  · obtain ⟨x, hx, ho⟩ := List.mem_flatMap.mp ho
    have hxle := h₂ x hx
    rw [hkey ha (List.mem_append_right _ hx) ho hr] at hxle
    exact absurd hlt (not_lt.mpr hxle)

/-! ## A run -/

/-- The execution time of a proposal that passed in the active block `A` of a run: the time of its
one entry, wherever the run has one. -/
theorem Run.entry_time (hmm : mm.Lawful) {pre post : List Block} {u : St Any Rest} {A : Block}
    {id : Nat} (h : Run k mm E s pre u) (hno : ∀ t, ¬ s.timelock.Entry id t)
    (honce : PassesOnce id (pre ++ post)) (hA : A ∈ pre ++ post) (htA : .tallied id true ∈ A.log)
    {t : Time} (he : u.timelock.Entry id t) :
    t = A.ctx.time + s.timelock.getExecutionDelay minimumDelay ∧ A ∈ pre := by
  rcases h.entry_origin hmm he with he | ⟨b, hb, _, htb, ht⟩
  · exact absurd he (hno t)
  · have hbA := honce b (List.mem_append_left _ hb) A hA htb htA
    rw [← hbA]
    exact ⟨ht, hb⟩

/-- What makes a proposal run: it passed in the active block `A`, and once, and it runs once. -/
structure Deferral (s : St Any Rest) (Bs : List Block) (A : Block) (id : Nat) : Prop where
  mem : A ∈ Bs
  active : A.active = true
  passes : .tallied id true ∈ A.log
  no_entry : ∀ t, ¬ s.timelock.Entry id t
  passes_once : PassesOnce id Bs
  runs_once : RunsOnce id Bs

section Deferrals
variable {A B c d : Block} {a b : Nat}

/-- The block that runs a deferred proposal is active, and before it the proposal's one entry is
there and due. -/
theorem Deferral.entry (hmm : mm.Lawful) {pre post : List Block}
    (hd : Deferral s (pre ++ c :: post) A a) (hrun : ∃ o ∈ c.log, Runs a o) {u v : St Any Rest}
    (hpre : Run k mm E s pre u) (hc : BlockStep k mm E u c v) :
    let e := A.ctx.time + s.timelock.getExecutionDelay minimumDelay
    c.active = true ∧ A ∈ pre ∧ u.timelock.Entry a e ∧ e ≤ c.ctx.time ∧
      ∀ t, u.timelock.Entry a t → t = e := by
  intro e
  obtain ⟨o, ho, hr⟩ := hrun
  have htime : ∀ t, u.timelock.Entry a t → t = e ∧ A ∈ pre :=
    fun t he => hpre.entry_time hmm hd.no_entry hd.passes_once hd.mem hd.passes he
  rcases hc.runs hmm ho hr with ⟨hinactive, htc⟩ | ⟨hactive, t, he, hle⟩
  · have hcA := hd.passes_once c (by simp) A hd.mem htc hd.passes
    rw [hcA, hd.active] at hinactive
    cases hinactive
  · obtain ⟨rfl, hmem⟩ := htime t he
    exact ⟨hactive, hmem, he, hle, fun t he => (htime t he).1⟩

/-- The proposal that runs in an earlier block passed at an earlier time. -/
theorem Deferral.time_lt (hmm : mm.Lawful) {pre mid post : List Block}
    (h : Run k mm E s (pre ++ d :: (mid ++ c :: post)) s')
    (ha : Deferral s (pre ++ d :: (mid ++ c :: post)) A a)
    (hb : Deferral s (pre ++ d :: (mid ++ c :: post)) B b)
    (hc : ∃ o ∈ c.log, Runs a o) (hd : ∃ o ∈ d.log, Runs b o) : B.ctx.time < A.ctx.time := by
  have hpos := s.timelock.getExecutionDelay_pos Timelock.minimumDelay_pos
  have hsplit : pre ++ d :: (mid ++ c :: post) = (pre ++ d :: mid) ++ c :: post := by simp
  rw [hsplit] at h ha
  obtain ⟨w, y, hbefore, hcs, _, _⟩ := h.split_at
  obtain ⟨u, v, hpre, hds, hmid, hlater⟩ := hbefore.split_at
  obtain ⟨hactive, _, _, hdue, _⟩ := hb.entry hmm hd hpre hds
  obtain ⟨_, _, hentry, _, _⟩ := ha.entry hmm hc hbefore hcs
  rcases hmid.entry_origin hmm hentry with he | ⟨z, hz, _, htz, _⟩
  · -- the entry of `a` was there after the block of `b`, and was not due in it
    have hlt := hdue.trans_lt (hds.not_due hactive he)
    exact Int.lt_of_add_lt_add_right hlt
  · have hzA := ha.passes_once z (by simp [hz]) A ha.mem htz ha.passes
    have hle := hdue.trans (hlater z hz).2
    rw [hzA] at hle
    exact (Int.lt_add_of_pos_right _ hpos).trans_le hle

/-- Two deferred proposals run in the order of their execution times and ids. -/
theorem Deferral.runsBefore (hmm : mm.Lawful) (h : Run k mm E s Bs s') (ha : Deferral s Bs A a)
    (hb : Deferral s Bs B b) (hc : c ∈ Bs) (hd : d ∈ Bs) (hca : ∃ o ∈ c.log, Runs a o)
    (hdb : ∃ o ∈ d.log, Runs b o)
    (hlt : A.ctx.time < B.ctx.time ∨ (A.ctx.time = B.ctx.time ∧ a < b)) :
    RunsBefore a b (logOf Bs) := by
  obtain ⟨pre, post, rfl⟩ := List.append_of_mem hc
  have hord := List.pairwise_append.mp h.ordered
  have hpost := (List.pairwise_cons.mp hord.2.1).1
  -- a block that runs one of the two is the one that is known to
  have honlya : ∀ x ∈ post, ∀ o ∈ x.log, ¬ Runs a o := by
    intro x hx o ho hr
    have hxc := ha.runs_once x (by simp [hx]) c hc ⟨o, ho, hr⟩ hca
    exact absurd (hpost x hx).1 (by rw [hxc]; exact lt_irrefl _)
  have honlyb : ∀ x ∈ pre ++ c :: post, x ≠ d → ∀ o ∈ x.log, ¬ Runs b o := by
    intro x hx hne o ho hr
    exact hne (hb.runs_once x hx d hd ⟨o, ho, hr⟩ hdb)
  rcases List.mem_append.mp hd with hdpre | hdpost
  · -- `b` cannot run first: it passed later
    obtain ⟨pre', mid, rfl⟩ := List.append_of_mem hdpre
    rw [List.append_assoc, List.cons_append] at h ha hb
    have hBA := Deferral.time_lt hmm h ha hb hca hdb
    rcases hlt with hAB | ⟨hAB, _⟩
    · exact absurd hAB (lt_asymm hBA)
    · rw [hAB] at hBA
      exact absurd hBA (lt_irrefl _)
  · have hlog : logOf (pre ++ c :: post) = logOf pre ++ (c.log ++ logOf post) := by
      simp [logOf]
    have hpreb : ∀ o ∈ logOf pre, ¬ Runs b o := by
      intro o ho
      obtain ⟨x, hx, ho⟩ := mem_logOf.mp ho
      refine honlyb x (List.mem_append_left _ hx) (fun hxd => ?_) o ho
      have hxlt := (hord.2.2 x hx d hdpost).1
      rw [hxd] at hxlt
      exact lt_irrefl _ hxlt
    have hposta : ∀ o ∈ logOf post, ¬ Runs a o := by
      intro o ho
      obtain ⟨x, hx, ho⟩ := mem_logOf.mp ho
      exact honlya x hx o ho
    rcases List.mem_cons.mp hdpost with rfl | hdpost
    · -- one block runs both
      obtain ⟨u, v, hpre, hcs, _, _⟩ := h.split_at
      obtain ⟨hactive, _, _, _, hta⟩ := ha.entry hmm hca hpre hcs
      obtain ⟨_, _, _, _, htb⟩ := hb.entry hmm hdb hpre hcs
      have hkey : (⟨A.ctx.time + s.timelock.getExecutionDelay minimumDelay, a⟩ : Pair) <
          ⟨B.ctx.time + s.timelock.getExecutionDelay minimumDelay, b⟩ := by
        rw [Pair.lt_iff]
        rcases hlt with hAB | ⟨hAB, hab⟩
        · exact .inl (Int.add_lt_add_right hAB _)
        · exact .inr ⟨by simp only [hAB], hab⟩
      obtain ⟨l₁, l₂, hcut, h₁, h₂⟩ := hcs.runs_before hmm hactive hta htb hkey
      refine ⟨logOf pre ++ l₁, l₂ ++ logOf post, ?_, fun o ho => ?_, fun o ho => ?_⟩
      · rw [hlog, hcut]
        simp
      · rcases List.mem_append.mp ho with ho | ho
        · exact hpreb o ho
        · exact h₁ o ho
      · rcases List.mem_append.mp ho with ho | ho
        · exact h₂ o ho
        · exact hposta o ho
    · -- `a` runs in an earlier block
      refine ⟨logOf pre ++ c.log, logOf post, ?_, fun o ho => ?_, hposta⟩
      · rw [hlog, List.append_assoc]
      · rcases List.mem_append.mp ho with ho | ho
        · exact hpreb o ho
        · refine honlyb c (by simp) (fun hcd => ?_) o ho
          have hlt := (hpost d hdpost).1
          rw [hcd] at hlt
          exact lt_irrefl _ hlt

/-- **The order of deferred executions.** Of two proposals whose tallies passed while the timelock
was active and which are both executed, the messages of `a` run before those of `b` exactly when
`a`'s tally block has the smaller time, or the two blocks have one time and `a` is the smaller
id. -/
theorem executions_ordered (k : GovKeeper Any Msg Rest) (mm : Manager Any Rest) (hk : k.Lawful)
    (hmm : mm.Lawful) (hstart : Start s) (hwf : s.world.WF) (h : Run k mm Ruled s Bs s')
    (hA : A ∈ Bs) (hB : B ∈ Bs) (hAactive : A.active = true) (hBactive : B.active = true)
    (hta : .tallied a true ∈ A.log) (htb : .tallied b true ∈ B.log) (hab : a ≠ b)
    (hea : .executing a ∈ logOf Bs) (heb : .executing b ∈ logOf Bs) :
    RunsBefore a b (logOf Bs) ↔
      (A.ctx.time < B.ctx.time ∨ (A.ctx.time = B.ctx.time ∧ a < b)) := by
  obtain ⟨hnoa, hpassa, hruna⟩ := h.of_tallied hk hmm hstart hwf hA hta
  obtain ⟨hnob, hpassb, hrunb⟩ := h.of_tallied hk hmm hstart hwf hB htb
  have ha : Deferral s Bs A a := ⟨hA, hAactive, hta, hnoa, hpassa, hruna⟩
  have hb : Deferral s Bs B b := ⟨hB, hBactive, htb, hnob, hpassb, hrunb⟩
  obtain ⟨c, hc, hca⟩ := mem_logOf.mp hea
  obtain ⟨d, hd, hdb⟩ := mem_logOf.mp heb
  have hca : ∃ o ∈ c.log, Runs a o := ⟨_, hca, .inl rfl⟩
  have hdb : ∃ o ∈ d.log, Runs b o := ⟨_, hdb, .inl rfl⟩
  refine ⟨fun hbefore => ?_, ha.runsBefore hmm h hb hc hd hca hdb⟩
  by_contra hno
  obtain ⟨hle, hlt⟩ := not_or.mp hno
  refine hbefore.asymm hea heb (hb.runsBefore hmm h ha hd hc hdb hca ?_)
  rcases lt_or_eq_of_le (not_lt.mp hle) with hBA | hBA
  · exact .inl hBA
  · exact .inr ⟨hBA, lt_of_le_of_ne (not_lt.mp fun hlt' => hlt ⟨hBA.symm, hlt'⟩) (Ne.symm hab)⟩

end Deferrals

/-! ## Two proposals in one block -/

/-- The block in which proposal 9, whose voting period ended first, and proposal 7 are tallied. -/
def bothTalliedBlock : Block where
  ctx := blockAt 1 30 (by decide)
  active := true
  delay := minimumDelay
  log := (Act.scheduled 9 false (30 + minimumDelay)
      (passingKeeper.formatTime (30 + minimumDelay))).log ++
    (Act.scheduled 7 false (30 + minimumDelay)
      (passingKeeper.formatTime (30 + minimumDelay))).log

/-- The block in which both are executed. -/
def bothExecutedBlock : Block where
  ctx := blockAt 2 172800000000030 (by decide)
  active := true
  delay := minimumDelay
  log := (Act.executed ⟨7, 30 + minimumDelay⟩ ⟨1, [], .passed, "passed"⟩).log ++
    (Act.executed ⟨9, 30 + minimumDelay⟩ ⟨1, [], .passed, "passed"⟩).log

/-- The state between the two blocks, and after them. -/
def bothTallied : St Unit Unit :=
  tallied (tallied (votingState [(9, 10), (7, 20)]) 9 10 30 []) 7 20 30 bothTalliedBlock.log

def bothExecuted : St Unit Unit :=
  executed (executed bothTallied 7 20 30 []) 9 10 30 bothExecutedBlock.log

theorem both_run : Run passingKeeper govtimelockManager Ruled (votingState [(9, 10), (7, 20)])
    [bothTalliedBlock, bothExecutedBlock] bothExecuted := by
  have h₁ : endBlock passingKeeper bothTalliedBlock.ctx (votingState [(9, 10), (7, 20)]) =
      .ok () bothTallied :=
    endBlock_of_turns [⟨10, 9⟩, ⟨20, 7⟩] [] (some minimumDelay) rfl rfl
      (.cons (u := (some minimumDelay, tallied (votingState [(9, 10), (7, 20)]) 9 10 30
        (Act.scheduled 9 false (30 + minimumDelay)
          (passingKeeper.formatTime (30 + minimumDelay))).log)) rfl (.cons rfl (.nil _)))
      rfl (.nil _) rfl
  have h₂ : endBlock passingKeeper bothExecutedBlock.ctx { bothTallied with log := [] } =
      .ok () bothExecuted :=
    endBlock_of_turns [] [⟨7, 30 + minimumDelay⟩, ⟨9, 30 + minimumDelay⟩] none rfl rfl (.nil _) rfl
      (.cons (u := executed { bothTallied with log := [] } 7 20 30
        (Act.executed ⟨7, 30 + minimumDelay⟩ ⟨1, [], .passed, "passed"⟩).log) rfl
        (.cons rfl (.nil _))) rfl
  exact ⟨.cons (.of_endBlock ⟨id, .refl _ _ _⟩ h₁ rfl rfl rfl)
    (.cons (.of_endBlock ⟨id, .refl _ _ _⟩ h₂ rfl rfl rfl) (.nil _)),
    by simp [bothTalliedBlock, bothExecutedBlock, blockAt]⟩

theorem both_executed : .executing 7 ∈ logOf [bothTalliedBlock, bothExecutedBlock] ∧
    .executing 9 ∈ logOf [bothTalliedBlock, bothExecutedBlock] := by
  simp [logOf, bothExecutedBlock, Act.log, Ran.log]

theorem both_executions_ordered : RunsBefore 7 9 (logOf [bothTalliedBlock, bothExecutedBlock]) :=
  (executions_ordered passingKeeper govtimelockManager passingKeeper_lawful
    govtimelockManager_lawful (votingState_start _) (votingWorld_wf (by decide) (by decide))
    both_run (A := bothTalliedBlock) (B := bothTalliedBlock) (by simp) (by simp) rfl rfl
    (by simp [bothTalliedBlock, Act.log]) (by simp [bothTalliedBlock, Act.log]) (by decide)
    both_executed.1 both_executed.2).mpr (.inr ⟨rfl, by decide⟩)

/-- Proposal 9 is tallied before proposal 7, both pass and are executed, and the messages of 9 do
not run before those of 7. -/
theorem both_reversed : Start (votingState [(9, 10), (7, 20)]) ∧
    (votingState [(9, 10), (7, 20)]).world.WF ∧
    Run passingKeeper govtimelockManager Ruled (votingState [(9, 10), (7, 20)])
      [bothTalliedBlock, bothExecutedBlock] bothExecuted ∧
    (∃ l₁ l₂, bothTalliedBlock.log = l₁ ++ l₂ ∧ .tallied 9 true ∈ l₁ ∧ .tallied 7 true ∈ l₂) ∧
    .executing 9 ∈ bothExecutedBlock.log ∧ .executing 7 ∈ bothExecutedBlock.log ∧
    ¬ RunsBefore 9 7 (logOf [bothTalliedBlock, bothExecutedBlock]) := by
  have hbefore : RunsBefore 7 9 (logOf [bothTalliedBlock, bothExecutedBlock]) := by
    refine ⟨bothTalliedBlock.log ++
      (Act.executed ⟨7, 30 + minimumDelay⟩ ⟨1, [], .passed, "passed"⟩).log,
      (Act.executed ⟨9, 30 + minimumDelay⟩ ⟨1, [], .passed, "passed"⟩).log, ?_, ?_, ?_⟩
    · simp [logOf, bothExecutedBlock]
    · simp [bothTalliedBlock, Act.log, Ran.log, Runs]
    · simp [Act.log, Ran.log, Runs]
  refine ⟨votingState_start _, votingWorld_wf (by decide) (by decide), both_run,
    ⟨_, _, rfl, List.mem_cons_self, List.mem_cons_self⟩, ?_, ?_,
    hbefore.asymm both_executed.1 both_executed.2⟩
  · simp [bothExecutedBlock, Act.log, Ran.log]
  · simp [bothExecutedBlock, Act.log, Ran.log]

end Ark.GovTimelock
