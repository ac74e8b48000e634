import Ark.GovTimelock.Acts

/- The life of one proposal: what the timelock is for, without x/gov and its stores.

   A proposal is unresolved until a tally, an expiry or a failure to decode
   resolves it; a tally that passes while the timelock is active makes it wait for
   its execution time; it is closed once it has been executed, dropped, rejected or
   removed. `Move` lists the moves, `Turn` is one block (at most one move), and a
   `History` is a sequence of blocks.

   What is proved: a proposal that waits does so until one act consumes its entry,
   and nothing happens to a closed one (`History.of_waiting`, `History.of_closed`);
   deposits are settled once, at the resolution (`History.settled`), messages are
   executed at most once (`History.executing_le`), and the `proposal_executed` events
   answer the `proposal_scheduled` ones (`History.executedEvent`). The end blocker is
   shown to move every proposal this way in `Simulation`. -/
namespace Ark.GovTimelock
open Ark.Lib Ark.Gov

/-! ## What a log says of one proposal -/

/-- The proposal a log entry is about; a handler's own event is about none. -/
def Obs.id? : Obs → Option Nat
  | .tallied id _ | .settled id _ | .executing id | .delivered id _ | .hooked id
  | .minDepositHooked id | .requeued id _ _ => some id
  | .initGenesis | .event (.handler _) => none
  | .event (.inactiveProposal id _ _) | .event (.activeProposal id _ _)
  | .event (.proposalScheduled id _) | .event (.proposalExecuted id _ _) => some id

def about (id : Nat) (log : List Obs) : List Obs := log.filter fun o => o.id? = some id

def Obs.isTallied : Obs → Bool
  | .tallied _ _ => true
  | _ => false

def Obs.isSettled : Obs → Bool
  | .settled _ _ => true
  | _ => false

def Obs.isExecuting : Obs → Bool
  | .executing _ => true
  | _ => false

def Obs.isRequeued : Obs → Bool
  | .requeued _ _ _ => true
  | _ => false

def Obs.isScheduledEvent : Obs → Bool
  | .event (.proposalScheduled _ _) => true
  | _ => false

def Obs.isExecutedEvent : Obs → Bool
  | .event (.proposalExecuted _ _ _) => true
  | _ => false

theorem about_append (id : Nat) (l₁ l₂ : List Obs) : about id (l₁ ++ l₂) = about id l₁ ++ about id l₂ :=
  List.filter_append l₁ l₂

theorem mem_about {id : Nat} {log : List Obs} {o : Obs} :
    o ∈ about id log ↔ o ∈ log ∧ o.id? = some id := by
  simp [about]

def Ran.trace (r : Ran) (id : Nat) : List Obs :=
  .executing id :: (List.range r.delivered).map (.delivered id)

/-- What an act writes to the log, less the events of handlers. -/
def Act.trace : Act → List Obs
  | .executedNow id burned run => [.tallied id true, .settled id burned] ++ run.trace id ++
      [.hooked id, .event (.activeProposal id run.result run.logMsg)]
  | .executed entry run => run.trace entry.proposalID ++ [.hooked entry.proposalID,
      .event (.proposalExecuted entry.proposalID run.result run.logMsg)]
  | act => act.log

theorem Ran.about_log (r : Ran) (id id' : Nat) :
    about id' (r.log id) = if id = id' then r.trace id else [] := by
  have hevents : about id' (r.events.map fun e => .event (.handler e)) = [] := by
    simp [about, Obs.id?]
  rw [Ran.log, about_append, hevents, List.append_nil]
  split
  · rename_i h
    subst h
    simp [about, Ran.trace, Obs.id?]
  · rename_i h
    simp [about, Obs.id?, h]

/-- What an act writes about a proposal. -/
theorem Act.about_log (act : Act) (id : Nat) :
    about id act.log = if act.id = id then act.trace else [] := by
  cases act
  case executedNow i burned r =>
    simp only [Act.log, Act.trace, Act.id, about_append, r.about_log]
    by_cases h : i = id <;> simp [about, Obs.id?, h]
  case executed sp r =>
    simp only [Act.log, Act.trace, Act.id, about_append, r.about_log]
    by_cases h : sp.proposalID = id <;> simp [about, Obs.id?, h]
  case dropped sp reason =>
    by_cases h : sp.proposalID = id <;> simp [about, Act.log, Act.trace, Act.id, Obs.id?, h]
  case undecodable i active reason =>
    cases active <;> by_cases h : i = id <;> simp [about, Act.log, Act.trace, Act.id, Obs.id?, h]
  case expired i _ =>
    by_cases h : i = id <;> simp [about, Act.log, Act.trace, Act.id, Obs.id?, h]
  case rejected i _ =>
    by_cases h : i = id <;> simp [about, Act.log, Act.trace, Act.id, Obs.id?, h]
  case converted i _ _ =>
    by_cases h : i = id <;> simp [about, Act.log, Act.trace, Act.id, Obs.id?, h]
  case scheduled i _ _ _ =>
    by_cases h : i = id <;> simp [about, Act.log, Act.trace, Act.id, Obs.id?, h]

/-- The acts about one proposal. -/
def actsOf (id : Nat) (as : List Act) : List Act := as.filter fun a => a.id = id

theorem actsOf_append (id : Nat) (as bs : List Act) :
    actsOf id (as ++ bs) = actsOf id as ++ actsOf id bs := List.filter_append as bs

/-- A log of acts says of a proposal what the acts about it say. -/
theorem about_flatMap_log (id : Nat) (as : List Act) :
    about id (as.flatMap Act.log) = (actsOf id as).flatMap Act.trace := by
  induction as with
  | nil => rfl
  | cons a as ih =>
    rw [List.flatMap_cons, about_append, ih, a.about_log]
    by_cases h : a.id = id <;> simp [actsOf, h]

/-! ## Moves, turns and histories -/

/-- Where a proposal stands; an unresolved one may have been converted from expedited. -/
inductive Phase
  | unresolved (converted : Bool)
  | waiting (executionTime : Time)
  | closed
  deriving DecidableEq, Repr

/-- A block of a chain: its context, whether the timelock is active in it, the delay in
force, and its log. -/
structure Block where
  ctx : Ctx
  active : Bool
  delay : Duration
  log : List Obs

/-- The moves of a proposal in a block. -/
inductive Move (b : Block) : Phase → Act → Phase → Prop
  | expired {c : Bool} {id : Nat} {burned : Bool} :
      Move b (.unresolved c) (.expired id burned) .closed
  | undecodable {c : Bool} {id : Nat} {active : Bool} {reason : String} :
      Move b (.unresolved c) (.undecodable id active reason) .closed
  | converted {id : Nat} {start : Time} {period : Duration} :
      Move b (.unresolved false) (.converted id start period) (.unresolved true)
  | rejected {c : Bool} {id : Nat} {burned : Bool} :
      Move b (.unresolved c) (.rejected id burned) .closed
  | executedNow {c : Bool} {id : Nat} {burned : Bool} {r : Ran} :
      b.active = false → Move b (.unresolved c) (.executedNow id burned r) .closed
  | scheduled {c : Bool} {id : Nat} {burned : Bool} {e : Time} {text : String} :
      b.active = true → e = b.ctx.time + b.delay →
      Move b (.unresolved c) (.scheduled id burned e text) (.waiting e)
  | executed {sp : ScheduledProposal} {r : Ran} :
      b.active = true → sp.executionTime ≤ b.ctx.time →
      Move b (.waiting sp.executionTime) (.executed sp r) .closed
  | dropped {sp : ScheduledProposal} {reason : String} :
      b.active = true → sp.executionTime ≤ b.ctx.time →
      Move b (.waiting sp.executionTime) (.dropped sp reason) .closed

/-- One block for one proposal: no move or one. -/
inductive Turn (b : Block) : Phase → List Act → Phase → Prop
  | idle (P : Phase) : Turn b P [] P
  | move {P P' : Phase} {act : Act} : Move b P act P' → Turn b P [act] P'

/-- What a block's log says of the proposal `id` is what one turn of it writes. -/
inductive Told (id : Nat) (P : Phase) (b : Block) : Phase → Prop
  | idle : about id b.log = [] → Told id P b P
  | move {P' : Phase} {act : Act} : Move b P act P' → act.id = id → about id b.log = act.trace →
      Told id P b P'

/-- The history of the proposal `id` over a list of blocks. -/
def History (id : Nat) (P : Phase) (Bs : List Block) (P' : Phase) : Prop :=
  Steps (Told id) P Bs P'

/-- The log of a list of blocks. -/
def logOf (Bs : List Block) : List Obs := Bs.flatMap Block.log

/-- No block logs anything about `id`. -/
def Idle (id : Nat) (Bs : List Block) : Prop := ∀ b ∈ Bs, about id b.log = []

theorem idle_nil {id : Nat} : Idle id [] := fun _ h => absurd h List.not_mem_nil

theorem idle_cons {id : Nat} {b : Block} {Bs : List Block} :
    Idle id (b :: Bs) ↔ about id b.log = [] ∧ Idle id Bs := List.forall_mem_cons

theorem about_logOf_cons {id : Nat} {b : Block} {Bs : List Block} :
    about id (logOf (b :: Bs)) = about id b.log ++ about id (logOf Bs) :=
  about_append id b.log (logOf Bs)

/-- The acts that end a wait. -/
def Act.Consumes (act : Act) (e : Time) : Prop :=
  ∃ sp : ScheduledProposal, sp.executionTime = e ∧
    ((∃ r, act = .executed sp r) ∨ ∃ reason, act = .dropped sp reason)

/-- A log says of `id` that its entry was consumed: its messages ran, or it was dropped; then
the hook was called and one `proposal_executed` event emitted. -/
def ConsumedIn (id : Nat) (log : List Obs) : Prop :=
  (∃ r : Ran, about id log =
    r.trace id ++ [.hooked id, .event (.proposalExecuted id r.result r.logMsg)]) ∨
  ∃ reason, about id log = [.hooked id, .event (.proposalExecuted id .failed reason)]

theorem Act.Consumes.consumedIn {act : Act} {e : Time} {log : List Obs} (h : act.Consumes e)
    (hlog : about act.id log = act.trace) : ConsumedIn act.id log := by
  obtain ⟨sp, rfl, ⟨r, rfl⟩ | ⟨reason, rfl⟩⟩ := h
  · exact .inl ⟨r, hlog⟩
  · exact .inr ⟨reason, hlog⟩

theorem ConsumedIn.executedEvent {id : Nat} {log : List Obs} (h : ConsumedIn id log) :
    ∃ res text, .event (.proposalExecuted id res text) ∈ log := by
  have hmem : ∀ {o}, o ∈ about id log → o ∈ log := fun ho => (mem_about.mp ho).1
  rcases h with ⟨r, h⟩ | ⟨reason, h⟩
  · exact ⟨r.result, r.logMsg, hmem (by rw [h]; simp)⟩
  · exact ⟨.failed, reason, hmem (by rw [h]; simp)⟩

/-! ## The act behind a log entry -/

theorem Act.of_scheduledEvent {act : Act} {id : Nat} {text : String}
    (h : .event (.proposalScheduled id text) ∈ act.trace) :
    ∃ burned e, act = .scheduled id burned e text := by
  cases act
  case scheduled i burned e t =>
    simp only [Act.trace, Act.log, List.mem_cons, Obs.event.injEq, Event.proposalScheduled.injEq,
      reduceCtorEq, List.not_mem_nil, or_false, false_or] at h
    obtain ⟨rfl, rfl⟩ := h
    exact ⟨burned, e, rfl⟩
  case undecodable i active reason => cases active <;> simp [Act.trace, Act.log] at h
  all_goals simp [Act.trace, Act.log, Ran.trace] at h

theorem Act.of_executedEvent {act : Act} {id : Nat} {res : ProposalResult} {text : String}
    (h : .event (.proposalExecuted id res text) ∈ act.trace) : ∃ e, act.Consumes e := by
  cases act
  case executed sp r => exact ⟨_, sp, rfl, .inl ⟨r, rfl⟩⟩
  case dropped sp reason => exact ⟨_, sp, rfl, .inr ⟨reason, rfl⟩⟩
  case undecodable i active reason => cases active <;> simp [Act.trace, Act.log] at h
  all_goals simp [Act.trace, Act.log, Ran.trace] at h

/-- A tally that passes executes at once or schedules. -/
theorem Act.of_passing {act : Act} {id : Nat} (h : .tallied id true ∈ act.trace) :
    (∃ burned r, act = .executedNow id burned r) ∨
      ∃ burned e text, act = .scheduled id burned e text := by
  cases act
  case executedNow i burned r =>
    have hi : id = i := by simpa [Act.trace, Ran.trace] using h
    exact .inl ⟨burned, r, by rw [hi]⟩
  case scheduled i burned e text =>
    have hi : id = i := by simpa [Act.trace, Act.log] using h
    exact .inr ⟨burned, e, text, by rw [hi]⟩
  case undecodable i active reason => cases active <;> simp [Act.trace, Act.log] at h
  all_goals simp [Act.trace, Act.log, Ran.trace] at h

/-- A tally that fails converts the proposal or rejects it. -/
theorem Act.of_failing {act : Act} {id : Nat} (h : .tallied id false ∈ act.trace) :
    (∃ start period, act = .converted id start period) ∨ ∃ burned, act = .rejected id burned := by
  cases act
  case converted i start period =>
    have hi : id = i := by simpa [Act.trace, Act.log] using h
    exact .inl ⟨start, period, by rw [hi]⟩
  case rejected i burned =>
    have hi : id = i := by simpa [Act.trace, Act.log] using h
    exact .inr ⟨burned, by rw [hi]⟩
  case undecodable i active reason => cases active <;> simp [Act.trace, Act.log] at h
  all_goals simp [Act.trace, Act.log, Ran.trace] at h

section Histories
variable {b : Block} {id : Nat} {P P' : Phase} {Bs : List Block} {act : Act}

theorem Move.of_waiting {e : Time} (h : Move b (.waiting e) act P') :
    act.Consumes e ∧ P' = .closed ∧ b.active = true ∧ e ≤ b.ctx.time := by
  cases h
  case executed sp r ha hle => exact ⟨⟨sp, rfl, .inl ⟨r, rfl⟩⟩, rfl, ha, hle⟩
  case dropped sp reason ha hle => exact ⟨⟨sp, rfl, .inr ⟨reason, rfl⟩⟩, rfl, ha, hle⟩

theorem Move.of_consumes {e : Time} (h : Move b P act P') (ha : act.Consumes e) :
    P = .waiting e ∧ e ≤ b.ctx.time := by
  obtain ⟨sp, rfl, ⟨r, rfl⟩ | ⟨reason, rfl⟩⟩ := ha
  · cases h
    case executed hle => exact ⟨rfl, hle⟩
  · cases h
    case dropped hle => exact ⟨rfl, hle⟩

/-- Messages run in the block of their tally only while the timelock is inactive. -/
theorem Move.of_executedNow {i : Nat} {burned : Bool} {r : Ran}
    (h : Move b P (.executedNow i burned r) P') : b.active = false := by
  cases h
  assumption

/-- A proposal is converted once. -/
theorem Move.of_converted {i : Nat} {start : Time} {period : Duration}
    (h : Move b P (.converted i start period) P') : P = .unresolved false ∧ P' = .unresolved true := by
  cases h
  exact ⟨rfl, rfl⟩

theorem Move.to_unresolved {c : Bool} (h : Move b P act (.unresolved c)) :
    ∃ i start period, act = .converted i start period := by
  cases h
  exact ⟨_, _, _, rfl⟩

/-- A proposal starts to wait only for the delay in force. -/
theorem Move.to_waiting {e : Time} (h : Move b P act (.waiting e)) :
    b.active = true ∧ e = b.ctx.time + b.delay := by
  cases h
  case scheduled ha he => exact ⟨ha, he⟩

/-- The three loops of a block make one turn: the first closes what it moves, and the last
does not reach what the second scheduled. -/
theorem Turn.three {P₁ P₂ P₃ : Phase} {as₁ as₂ as₃ : List Act} (h₁ : Turn b P as₁ P₁)
    (h₂ : Turn b P₁ as₂ P₂) (h₃ : Turn b P₂ as₃ P₃) (hpos : 0 < b.delay)
    (hclose : as₁ ≠ [] → P₁ = .closed) (hconsume : ∀ act ∈ as₃, ∃ e, act.Consumes e) :
    Turn b P (as₁ ++ as₂ ++ as₃) P₃ := by
  have hclosed : ∀ {as Q}, Turn b .closed as Q → as = [] ∧ Q = .closed := by
    intro as Q h
    cases h with
    | idle => exact ⟨rfl, rfl⟩
    | move h => cases h
  cases h₁ with
  | move hm =>
    rw [hclose (by simp)] at h₂ hm
    obtain ⟨rfl, rfl⟩ := hclosed h₂
    obtain ⟨rfl, rfl⟩ := hclosed h₃
    exact .move hm
  | idle =>
    cases h₂ with
    | idle => exact h₃
    | move hm =>
      cases h₃ with
      | idle => exact .move hm
      | move hm₃ =>
        obtain ⟨e, he⟩ := hconsume _ List.mem_cons_self
        obtain ⟨rfl, hle⟩ := hm₃.of_consumes he
        obtain ⟨_, rfl⟩ := hm.to_waiting
        have : b.ctx.time < b.ctx.time + b.delay := Int.lt_add_of_pos_right _ hpos
        exact absurd hle (not_le.mpr this)

/-- A turn whose acts are about `id`, told by a log of these acts. -/
theorem Turn.told {as : List Act} (h : Turn b P as P') (has : ∀ act ∈ as, act.id = id)
    (hlog : about id b.log = as.flatMap Act.trace) : Told id P b P' := by
  cases h with
  | idle => exact .idle hlog
  | move hm => exact .move hm (has _ List.mem_cons_self) (by simpa using hlog)

/-- A log entry about the proposal comes from its move. -/
theorem Told.of_mem {o : Obs} (h : Told id P b P') (ho : o ∈ b.log) (hid : o.id? = some id) :
    ∃ act, Move b P act P' ∧ act.id = id ∧ about id b.log = act.trace ∧ o ∈ act.trace := by
  have hmem := mem_about.mpr ⟨ho, hid⟩
  cases h with
  | idle hlog =>
    rw [hlog] at hmem
    cases hmem
  | move hm hact hlog => exact ⟨_, hm, hact, hlog, hlog ▸ hmem⟩

/-- A history is cut at a block. -/
theorem History.split {pre post : List Block} (h : History id P (pre ++ b :: post) P') :
    ∃ Q R, History id P pre Q ∧ Told id Q b R ∧ History id R post P' := Steps.split_at h

/-- Nothing happens to a closed proposal. -/
theorem History.of_closed (h : History id .closed Bs P') : Idle id Bs ∧ P' = .closed := by
  unfold History at h
  generalize hP : Phase.closed = P at h
  induction h with
  | nil => exact ⟨idle_nil, rfl⟩
  | cons hb _ ih =>
    subst hP
    cases hb with
    | idle hlog =>
      obtain ⟨hrest, hP'⟩ := ih rfl
      exact ⟨idle_cons.mpr ⟨hlog, hrest⟩, hP'⟩
    | move hm => cases hm

/-- A waiting proposal waits until one act consumes its entry, at its execution time or later
and while the timelock is active; then nothing happens to it. -/
theorem History.of_waiting {e : Time} (h : History id (.waiting e) Bs P') :
    (Idle id Bs ∧ P' = .waiting e) ∨
    ∃ (mid : List Block) (c : Block) (post : List Block) (act : Act), Bs = mid ++ c :: post ∧
      Idle id mid ∧ act.id = id ∧
      about id c.log = act.trace ∧ act.Consumes e ∧ c.active = true ∧ e ≤ c.ctx.time ∧
      Idle id post ∧ P' = .closed := by
  unfold History at h
  generalize hP : Phase.waiting e = P at h
  induction h with
  | nil => exact .inl ⟨idle_nil, rfl⟩
  | @cons P Q P' b Bs hb hBs ih =>
    subst hP
    cases hb with
    | idle hlog =>
      rcases ih rfl with ⟨hidle, hP'⟩ | ⟨mid, c, post, act, rfl, hmid, hrest⟩
      · exact .inl ⟨idle_cons.mpr ⟨hlog, hidle⟩, hP'⟩
      · exact .inr ⟨b :: mid, c, post, act, rfl, idle_cons.mpr ⟨hlog, hmid⟩, hrest⟩
    | move hm hact hlog =>
      obtain ⟨hcons, rfl, ha, hle⟩ := hm.of_waiting
      obtain ⟨hidle, hP'⟩ := History.of_closed hBs
      exact .inr ⟨[], b, Bs, _, rfl, idle_nil, hact, hlog, hcons, ha, hle, hidle, hP'⟩

end Histories

/-! ## Counting -/

section Counting
variable {id : Nat} {P P' : Phase} {Bs : List Block}

/-- What a move writes and what the phase after it may still give are no more than what the
phase before it may give; the same then holds of a history. -/
theorem History.count_le {p : Obs → Bool} {c : Phase → Nat}
    (hmove : ∀ {b P act P'}, Move b P act P' → act.trace.countP p + c P' ≤ c P)
    (h : History id P Bs P') : (about id (logOf Bs)).countP p + c P' ≤ c P := by
  unfold History at h
  induction h with
  | nil => simp [logOf, about]
  | cons hb _ ih =>
    rw [about_logOf_cons, List.countP_append]
    cases hb with
    | idle hlog => simpa [hlog] using ih
    | move hm _ hlog =>
      have hm := hmove hm
      rw [hlog]
      omega

/-- The same with equality, between two kinds of entries. -/
theorem History.count_eq {p q : Obs → Bool} {c : Phase → Nat}
    (hmove : ∀ {b P act P'}, Move b P act P' →
      act.trace.countP p + c P' = act.trace.countP q + c P)
    (h : History id P Bs P') :
    (about id (logOf Bs)).countP p + c P' = (about id (logOf Bs)).countP q + c P := by
  unfold History at h
  induction h with
  | nil => simp [logOf, about]
  | cons hb _ ih =>
    rw [about_logOf_cons, List.countP_append, List.countP_append]
    cases hb with
    | idle hlog => simpa [hlog] using ih
    | move hm _ hlog =>
      have hm := hmove hm
      rw [hlog]
      omega

/-- The settlement a phase still owes. -/
def Phase.owed : Phase → Nat
  | .unresolved _ => 1
  | _ => 0

/-- Whether a phase waits. -/
def Phase.waits : Phase → Nat
  | .waiting _ => 1
  | _ => 0

/-- The executions a phase may still have. -/
def Phase.executions : Phase → Nat
  | .closed => 0
  | _ => 1

/-- The conversions a phase may still have. -/
def Phase.conversions : Phase → Nat
  | .unresolved false => 1
  | _ => 0

theorem Ran.trace_countP {p : Obs → Bool} (hp : ∀ id i, p (.delivered id i) = false) (r : Ran)
    (id : Nat) : (r.trace id).countP p = if p (.executing id) then 1 else 0 := by
  have hd : ((List.range r.delivered).map (Obs.delivered id)).countP p = 0 := by
    rw [List.countP_eq_zero]
    intro o ho
    obtain ⟨i, _, rfl⟩ := List.mem_map.mp ho
    simp [hp id i]
  rw [Ran.trace, List.countP_cons, hd, Nat.zero_add]

/-- A proposal's deposits are settled once, when it is resolved. -/
theorem History.settled (h : History id P Bs P') :
    (about id (logOf Bs)).countP Obs.isSettled + P'.owed = P.owed := by
  have hr := Ran.trace_countP (p := Obs.isSettled) fun _ _ => rfl
  have hr' := Ran.trace_countP (p := fun _ => false) fun _ _ => rfl
  have h := h.count_eq (p := Obs.isSettled) (q := fun _ => false) (c := Phase.owed) fun hm => by
    cases hm <;> simp only [Act.trace, Act.log, List.countP_cons, List.countP_append, hr, hr',
      List.countP_nil] <;> rfl
  simpa using h

/-- A proposal's messages are executed at most once, and not after it is closed. -/
theorem History.executing_le (h : History id P Bs P') :
    (about id (logOf Bs)).countP Obs.isExecuting + P'.executions ≤ P.executions := by
  have hr := Ran.trace_countP (p := Obs.isExecuting) fun _ _ => rfl
  refine h.count_le fun hm => ?_
  cases hm <;> simp only [Act.trace, Act.log, List.countP_cons, List.countP_append, hr,
    List.countP_nil] <;> simp [Obs.isExecuting, Phase.executions]

/-- A proposal is converted from expedited at most once. -/
theorem History.requeued_le (h : History id P Bs P') :
    (about id (logOf Bs)).countP Obs.isRequeued + P'.conversions ≤ P.conversions := by
  have hr := Ran.trace_countP (p := Obs.isRequeued) fun _ _ => rfl
  refine h.count_le fun hm => ?_
  cases hm <;> simp only [Act.trace, Act.log, List.countP_cons, List.countP_append, hr,
    List.countP_nil] <;> simp [Obs.isRequeued, Phase.conversions]

/-- A proposal is scheduled at most once, while it is unresolved. -/
theorem History.scheduledEvent_le (h : History id P Bs P') :
    (about id (logOf Bs)).countP Obs.isScheduledEvent + P'.owed ≤ P.owed := by
  have hr := Ran.trace_countP (p := Obs.isScheduledEvent) fun _ _ => rfl
  refine h.count_le fun hm => ?_
  cases hm
  case undecodable active _ =>
    cases active <;> simp [Act.trace, Act.log, Obs.isScheduledEvent, Phase.owed]
  all_goals
    simp only [Act.trace, Act.log, List.countP_cons, List.countP_append, hr, List.countP_nil]
    simp [Obs.isScheduledEvent, Phase.owed]

/-- The `proposal_executed` events are the waits that ended. -/
theorem History.executedEvent (h : History id P Bs P') :
    (about id (logOf Bs)).countP Obs.isExecutedEvent + P'.waits =
      (about id (logOf Bs)).countP Obs.isScheduledEvent + P.waits := by
  have hr := Ran.trace_countP (p := Obs.isExecutedEvent) fun _ _ => rfl
  have hr' := Ran.trace_countP (p := Obs.isScheduledEvent) fun _ _ => rfl
  refine h.count_eq fun hm => ?_
  cases hm
  case undecodable active _ =>
    cases active <;> rfl
  all_goals
    simp only [Act.trace, Act.log, List.countP_cons, List.countP_append, hr, hr', List.countP_nil]
    rfl

end Counting

/-! ## What a history says of its log -/

section Told
variable {id : Nat} {P P' : Phase} {Bs : List Block} {b : Block} {c : Bool}

theorem mem_logOf {o : Obs} : o ∈ logOf Bs ↔ ∃ b ∈ Bs, o ∈ b.log := List.mem_flatMap

/-- What a proposal's log entries do not satisfy, no entry about it in the logs does. -/
theorem not_mem_of_countP {p : Obs → Bool} (h : (about id (logOf Bs)).countP p = 0) {o : Obs}
    (hid : o.id? = some id) (ho : p o = true) : o ∉ logOf Bs := fun hmem =>
  List.countP_eq_zero.mp h o (mem_about.mpr ⟨hmem, hid⟩) ho

/-- An unresolved proposal has been neither scheduled nor executed. -/
theorem History.of_unresolved (h : History id P Bs (.unresolved c)) :
    (∃ c', P = .unresolved c') ∧ (∀ text, .event (.proposalScheduled id text) ∉ logOf Bs) ∧
      ∀ res text, .event (.proposalExecuted id res text) ∉ logOf Bs := by
  have howed := h.settled
  have hsched := h.scheduledEvent_le
  have hexec := h.executedEvent
  have hP : ∃ c', P = .unresolved c' := by
    cases P with
    | unresolved c' => exact ⟨c', rfl⟩
    | waiting e => simp [Phase.owed] at howed
    | closed => simp [Phase.owed] at howed
  obtain ⟨c', rfl⟩ := hP
  simp only [Phase.owed, Phase.waits] at hsched hexec
  refine ⟨⟨c', rfl⟩, fun text => ?_, fun res text => ?_⟩
  · exact not_mem_of_countP (p := Obs.isScheduledEvent) (by omega) rfl rfl
  · exact not_mem_of_countP (p := Obs.isExecutedEvent) (by omega) rfl rfl

/-- A closed proposal is mentioned no more; a waiting one until its entry is consumed. -/
theorem History.after_waiting {e : Time} (h : History id (.waiting e) Bs P') :
    (Idle id Bs ∧ P' = .waiting e) ∨ ∃ mid c post, Bs = mid ++ c :: post ∧ Idle id mid ∧
      ConsumedIn id c.log ∧ c.active = true ∧ e ≤ c.ctx.time ∧ Idle id post ∧ P' = .closed := by
  rcases h.of_waiting with h | ⟨mid, d, post, act, rfl, hmid, rfl, hlog, hcons, ha, hle, hpost, hP'⟩
  · exact .inl h
  · exact .inr ⟨mid, d, post, rfl, hmid, hcons.consumedIn hlog, ha, hle, hpost, hP'⟩

/-- The life of a proposal around the block that schedules it. -/
theorem History.around_scheduled {pre post : List Block} {text : String}
    (h : History id P (pre ++ b :: post) P')
    (hmem : .event (.proposalScheduled id text) ∈ b.log) :
    ∃ c burned e, History id P pre (.unresolved c) ∧ b.active = true ∧ e = b.ctx.time + b.delay ∧
      about id b.log = (Act.scheduled id burned e text).log ∧ History id (.waiting e) post P' := by
  obtain ⟨Q, R, hpre, hb, hpost⟩ := h.split
  obtain ⟨act, hm, hid, hlog, hact⟩ := hb.of_mem hmem rfl
  obtain ⟨burned, e, rfl⟩ := Act.of_scheduledEvent hact
  cases hm
  case scheduled c ha he => exact ⟨c, burned, e, hpre, ha, he, hlog, hpost⟩

/-- The life of a proposal around the block that consumes its entry. -/
theorem History.around_executed {pre post : List Block} {res : ProposalResult} {text : String}
    (h : History id P (pre ++ b :: post) P')
    (hmem : .event (.proposalExecuted id res text) ∈ b.log) :
    ∃ e, History id P pre (.waiting e) ∧ ConsumedIn id b.log ∧ b.active = true ∧ e ≤ b.ctx.time ∧
      Idle id post ∧ P' = .closed := by
  obtain ⟨Q, R, hpre, hb, hpost⟩ := h.split
  obtain ⟨act, hm, rfl, hlog, hact⟩ := hb.of_mem hmem rfl
  obtain ⟨e, hcons⟩ := Act.of_executedEvent hact
  obtain ⟨rfl, hle⟩ := hm.of_consumes hcons
  obtain ⟨_, rfl, ha, _⟩ := hm.of_waiting
  obtain ⟨hidle, hP'⟩ := hpost.of_closed
  exact ⟨e, hpre, hcons.consumedIn hlog, ha, hle, hidle, hP'⟩

/-- The life of a proposal around the block that resolves it by a tally without scheduling it. -/
theorem History.around_resolved {pre post : List Block} {passes : Bool}
    (h : History id P (pre ++ b :: post) P') (hmem : .tallied id passes ∈ b.log)
    (hsched : ∀ text, .event (.proposalScheduled id text) ∉ b.log)
    (hreq : ∀ start period, .requeued id start period ∉ b.log) :
    ∃ c, History id P pre (.unresolved c) ∧ (about id b.log).count (.hooked id) = 1 ∧
      (∀ res text, .event (.proposalExecuted id res text) ∉ b.log) ∧ Idle id post := by
  obtain ⟨Q, R, hpre, hb, hpost⟩ := h.split
  obtain ⟨act, hm, hid, hlog, hact⟩ := hb.of_mem hmem rfl
  have hout : ∀ o, o.id? = some id → o ∉ act.trace → o ∉ b.log := fun o ho hno hmem =>
    hno (hlog ▸ mem_about.mpr ⟨hmem, ho⟩)
  have hin : ∀ o, o ∈ act.trace → o ∈ b.log := fun o ho => (mem_about.mp (hlog ▸ ho)).1
  have hexec : (∀ e, ¬ act.Consumes e) →
      ∀ res text, .event (.proposalExecuted id res text) ∉ b.log := by
    refine fun hno res text => hout _ rfl fun hmem => ?_
    obtain ⟨e, he⟩ := Act.of_executedEvent hmem
    exact hno e he
  -- of the outcomes of a tally two are excluded by what is not in the log
  have hcase : (∃ burned r, act = .executedNow id burned r) ∨
      ∃ burned, act = .rejected id burned := by
    cases passes with
    | true =>
      rcases Act.of_passing hact with h | ⟨burned, e, text, he⟩
      · exact .inl h
      · exact absurd (hin _ (by rw [he]; simp [Act.trace, Act.log])) (hsched text)
    | false =>
      rcases Act.of_failing hact with ⟨start, period, he⟩ | h
      · exact absurd (hin _ (by rw [he]; simp [Act.trace, Act.log])) (hreq start period)
      · exact .inr h
  rcases hcase with ⟨burned, r, he⟩ | ⟨burned, he⟩
  · rw [he] at hm
    cases hm
    case executedNow c _ =>
      refine ⟨c, hpre, ?_, hexec fun e => ?_, hpost.of_closed.1⟩
      · rw [hlog, he]
        simp only [Act.trace, List.count, List.countP_append, List.countP_cons,
          List.countP_nil, Ran.trace_countP (p := (· == Obs.hooked id)) fun _ _ => rfl]
        simp
      · rw [he]
        rintro ⟨sp, _, ⟨_, h⟩ | ⟨_, h⟩⟩ <;> cases h
  · rw [he] at hm
    cases hm
    case rejected c =>
      refine ⟨c, hpre, ?_, hexec fun e => ?_, hpost.of_closed.1⟩
      · rw [hlog, he]
        simp [Act.trace, Act.log]
      · rw [he]
        rintro ⟨sp, _, ⟨_, h⟩ | ⟨_, h⟩⟩ <;> cases h

/-- A proposal that owes no settlement is tallied no more. -/
theorem History.no_tally (h : History id P Bs P') (hP : P.owed = 0) (hb : b ∈ Bs) (passes : Bool) :
    .tallied id passes ∉ b.log := by
  intro hmem
  have hin := mem_about.mpr ⟨hmem, rfl⟩
  have hidle : ∀ {Cs}, Idle id Cs → b ∉ Cs := fun hCs hbC => by
    rw [hCs b hbC] at hin
    cases hin
  cases P with
  | unresolved c => cases hP
  | closed => exact hidle h.of_closed.1 hb
  | waiting e =>
    rcases h.after_waiting with ⟨hCs, _⟩ | ⟨mid, d, post, rfl, hmid, hcons, _, _, hpost, _⟩
    · exact hidle hCs hb
    · rcases List.mem_append.mp hb with hb | hb
      · exact hidle hmid hb
      · rcases List.mem_cons.mp hb with rfl | hb
        · rcases hcons with ⟨r, hlog⟩ | ⟨reason, hlog⟩ <;>
            simp [hlog, Ran.trace] at hin
        · exact hidle hpost hb

/-- A tally finds its proposal unresolved, and resolves it if it passes. -/
theorem Told.of_tallied {passes : Bool} (h : Told id P b P') (hmem : .tallied id passes ∈ b.log) :
    (∃ c, P = .unresolved c) ∧ (passes = true → P'.owed = 0) := by
  obtain ⟨act, hm, _, _, hact⟩ := h.of_mem hmem rfl
  cases passes with
  | true =>
    rcases Act.of_passing hact with ⟨burned, r, rfl⟩ | ⟨burned, e, text, rfl⟩
    all_goals
      cases hm
      exact ⟨⟨_, rfl⟩, fun _ => rfl⟩
  | false =>
    rcases Act.of_failing hact with ⟨start, period, rfl⟩ | ⟨burned, rfl⟩
    all_goals
      cases hm
      exact ⟨⟨_, rfl⟩, nofun⟩

/-- What can be logged about a proposal only before a block that logs it is logged in one block
at most. -/
theorem History.once {p : Obs → Prop}
    (hp : ∀ {P P' P'' : Phase} {b : Block} {Bs : List Block}, Told id P b P' → (∃ o ∈ b.log, p o) →
      History id P' Bs P'' → ∀ c ∈ Bs, ¬ ∃ o ∈ c.log, p o)
    (h : History id P Bs P') {b c : Block} (hb : b ∈ Bs) (hc : c ∈ Bs) (hpb : ∃ o ∈ b.log, p o)
    (hpc : ∃ o ∈ c.log, p o) : b = c := by
  obtain ⟨pre, post, rfl⟩ := List.append_of_mem hb
  rcases List.mem_append.mp hc with hc | hc
  · obtain ⟨pre₁, post₁, rfl⟩ := List.append_of_mem hc
    rw [List.append_assoc, List.cons_append] at h
    obtain ⟨_, _, _, hct, hpost⟩ := h.split
    exact absurd hpb (hp hct hpc hpost b (by simp))
  · rcases List.mem_cons.mp hc with rfl | hc
    · rfl
    · obtain ⟨_, _, _, hbt, hpost⟩ := h.split
      exact absurd hpc (hp hbt hpb hpost c hc)

/-- A proposal passes in one block at most. -/
theorem History.passing_once (h : History id P Bs P') {b c : Block} (hb : b ∈ Bs) (hc : c ∈ Bs)
    (htb : .tallied id true ∈ b.log) (htc : .tallied id true ∈ c.log) : b = c := by
  refine h.once (p := (· = .tallied id true)) ?_ hb hc ⟨_, htb, rfl⟩ ⟨_, htc, rfl⟩
  rintro P P' P'' b Bs hbt ⟨o, ho, rfl⟩ hBs c hc ⟨o', ho', rfl⟩
  exact hBs.no_tally ((hbt.of_tallied ho).2 rfl) hc true ho'

/-- A log entry by which messages of the proposal run. -/
def Runs (id : Nat) (o : Obs) : Prop := o = .executing id ∨ ∃ i, o = .delivered id i

theorem Runs.id_eq {o : Obs} (h : Runs id o) : o.id? = some id := by
  rcases h with rfl | ⟨i, rfl⟩ <;> rfl

/-- Messages run at once after the tally, or at the entry. -/
theorem Act.of_runs {act : Act} {o : Obs} (ho : o ∈ act.trace) (h : Runs id o) :
    (∃ burned r, act = .executedNow id burned r) ∨
      ∃ sp r, sp.proposalID = id ∧ act = .executed sp r := by
  cases act
  case executedNow i burned r =>
    have hi : id = i := by
      rcases h with rfl | ⟨j, rfl⟩
      · simpa [Act.trace, Ran.trace] using ho
      · have ho : (∃ k < r.delivered, i = id ∧ k = j) := by simpa [Act.trace, Ran.trace] using ho
        exact ho.choose_spec.2.1.symm
    exact .inl ⟨burned, r, by rw [hi]⟩
  case executed sp r =>
    have hi : id = sp.proposalID := by
      rcases h with rfl | ⟨j, rfl⟩
      · simpa [Act.trace, Ran.trace] using ho
      · have ho : (∃ k < r.delivered, sp.proposalID = id ∧ k = j) := by
          simpa [Act.trace, Ran.trace] using ho
        exact ho.choose_spec.2.1.symm
    exact .inr ⟨sp, r, hi.symm, rfl⟩
  case undecodable i active reason =>
    rcases h with rfl | ⟨j, rfl⟩ <;> cases active <;> simp [Act.trace, Act.log] at ho
  all_goals rcases h with rfl | ⟨j, rfl⟩ <;> simp [Act.trace, Act.log] at ho

/-- A proposal whose messages run is closed. -/
theorem Told.of_runs {o : Obs} (h : Told id P b P') (ho : o ∈ b.log) (hr : Runs id o) :
    P' = .closed := by
  obtain ⟨act, hm, _, _, hact⟩ := h.of_mem ho hr.id_eq
  rcases Act.of_runs hact hr with ⟨burned, r, rfl⟩ | ⟨sp, r, _, rfl⟩ <;> cases hm <;> rfl

/-- The messages of a proposal run in one block at most. -/
theorem History.runs_once (h : History id P Bs P') {b c : Block} (hb : b ∈ Bs) (hc : c ∈ Bs)
    (hrb : ∃ o ∈ b.log, Runs id o) (hrc : ∃ o ∈ c.log, Runs id o) : b = c := by
  refine h.once (p := Runs id) ?_ hb hc hrb hrc
  intro P P' P'' b Bs hbt ⟨o, ho, hr⟩ hBs c hc ⟨o', ho', hr'⟩
  rw [hbt.of_runs ho hr] at hBs
  have hin := mem_about.mpr ⟨ho', hr'.id_eq⟩
  rw [hBs.of_closed.1 c hc] at hin
  cases hin

end Told
end Ark.GovTimelock
