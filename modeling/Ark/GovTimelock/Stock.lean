import Ark.GovTimelock.Runs

/- Before activation.

   Until the timelock is active the end blocker is meant to be stock x/gov's.
   `Stock.EndBlocker` is that one: the same control flow, with stock x/gov's way of
   running a message, which keeps the handler's error as it is. Its events are not
   part of the comparison, which is about what a block writes.

   What is proved: an inactive end blocker leaves the timelock's store, and writes
   what stock x/gov writes exactly when no message of the block fails
   (`endBlocker_stock_iff`). The reason of a failed proposal is stored, and here it
   begins with the index and the type of the message (`runMessages_error`). -/
namespace Ark.GovTimelock
open Ark.Lib Ark.Gov World Effect

variable {Any Msg Rest : Type} {k : GovKeeper Any Msg Rest} {ctx : Ctx}

/-! ## Stock x/gov -/

/-- The panic of a call of a function that is `nil`. -/
def Stock.nilCall : String := "runtime error: invalid memory address or nil pointer dereference"

/-- Stock x/gov's `safeExecuteHandler`: a panic is recovered, also that of calling a handler
that is not there. -/
def Stock.safeExecuteHandler (k : GovKeeper Any Msg Rest) (ctx : Ctx) (msg : Msg)
    (handler : Option (Handler Any Msg Rest)) (w : World Any Rest) :
    Except String (Option (List SdkEvent) × World Any Rest) :=
  let panicked (recovered : String) :=
    "handling x/gov proposal msg [" ++ k.msgString msg ++ "] PANICKED: " ++ recovered
  match handler with
  | none => .error (panicked nilCall)
  | some handler =>
    match handler ctx msg w with
    | .ok res w' => .ok (res, w')
    | .error (.err e) _ => .error e
    | .error (.panic recovered) _ => .error (panicked recovered)

/-- How stock x/gov runs a message: the error is kept as it is. -/
def Stock.runMessage (k : GovKeeper Any Msg Rest) (ctx : Ctx) (_idx : Nat) (msg : Msg)
    (w : World Any Rest) : Except String (Option (List SdkEvent) × World Any Rest) :=
  safeExecuteHandler k ctx msg (k.handler msg) w

def Stock.executeProposal (k : GovKeeper Any Msg Rest) (ctx : Ctx) (proposal : Proposal Any) :
    M Any Rest (Proposal Any × ProposalResult × String) :=
  executeWith k (runMessage k ctx) proposal

/-- Stock x/gov's end blocker. It has no schedule, so nothing is read of the delay. -/
def Stock.EndBlocker (k : GovKeeper Any Msg Rest) (ctx : Ctx) : M Any Rest Unit := do
  processInactiveProposals k ctx
  processEndedVotingPeriodsWith k (executeProposal k ctx) ctx 0 false

/-- What a call writes: nothing if it does not return. -/
def committed (r : EStateM.Result Fault (St Any Rest) Unit) : Option (World Any Rest × Timelock) :=
  match r with
  | .ok _ s => some (s.world, s.timelock)
  | .error _ _ => none

/-! ## One message -/

section Messages
variable {idx : Nat} {msg : Msg} {msgs : List Msg} {events : List SdkEvent} {w : World Any Rest}

/-- A message that runs without an error runs alike. -/
theorem runMessage_eq_ok {r : Option (List SdkEvent) × World Any Rest} :
    Stock.runMessage k ctx idx msg w = .ok r ↔ runMessage k ctx idx msg w = .ok r := by
  unfold Stock.runMessage Stock.safeExecuteHandler runMessage safeExecuteHandler
  cases k.handler msg with
  | none => simp
  | some handler => rcases hr : handler ctx msg w with ⟨res, w'⟩ | ⟨e | v, w'⟩ <;> simp [hr]

/-- The index and the type of a message, put before its error. -/
theorem wrapped_ne (idx : Nat) (url err : String) :
    "message " ++ ToString.toString idx ++ " (" ++ url ++ "): " ++ err ≠ err := by
  intro h
  have hlen := congrArg String.length h
  have hpos : "message ".length = 8 := by decide
  simp only [String.length_append] at hlen
  omega

theorem wrapped_ne_handling (idx : Nat) (url err text : String) :
    "message " ++ ToString.toString idx ++ " (" ++ url ++ "): " ++ err ≠
      "handling x/gov proposal msg [" ++ text := by
  intro h
  have hhead := congrArg (fun text : String => text.toList.head?) h
  simp at hhead

/-- A message that fails has another error here than in stock x/gov. -/
theorem runMessage_eq_error {err : String} (h : Stock.runMessage k ctx idx msg w = .error err) :
    ∃ err', runMessage k ctx idx msg w = .error err' ∧ err' ≠ err := by
  unfold Stock.runMessage Stock.safeExecuteHandler at h
  unfold runMessage safeExecuteHandler
  cases hh : k.handler msg with
  | none =>
    simp only [hh, Except.error.injEq, String.append_assoc] at h
    rw [← h]
    exact ⟨_, rfl, wrapped_ne_handling _ _ _ _⟩
  | some handler =>
    rcases hr : handler ctx msg w with ⟨res, w'⟩ | ⟨e | v, w'⟩
    · simp [hh, hr] at h
    · simp only [hh, hr, Except.error.injEq] at h ⊢
      rw [← h]
      exact ⟨_, rfl, wrapped_ne _ _ _⟩
    · simp only [hh, hr, Except.error.injEq, String.append_assoc] at h
      simp only [hr]
      rw [← h]
      exact ⟨_, rfl, wrapped_ne_handling _ _ _ _⟩

/-- Messages none of which fails run alike. -/
theorem runMessages_eq (h : ∀ err,
    (runMessages k (Stock.runMessage k ctx) idx msgs events w).outcome ≠ .error (.err err)) :
    runMessages k (runMessage k ctx) idx msgs events w =
      runMessages k (Stock.runMessage k ctx) idx msgs events w := by
  induction msgs generalizing idx events w with
  | nil => rfl
  | cons msg msgs ih =>
    rw [runMessages] at h
    rw [runMessages, runMessages]
    cases hr : Stock.runMessage k ctx idx msg w with
    | error err =>
      rw [hr] at h
      exact absurd rfl (h err)
    | ok r =>
      rw [runMessage_eq_ok.mp hr]
      rw [hr] at h
      rcases r with ⟨_ | evs, w'⟩
      · rfl
      · exact ih h

/-- Messages one of which fails fail, with another error. -/
theorem runMessages_error {err : String}
    (h : (runMessages k (Stock.runMessage k ctx) idx msgs events w).outcome = .error (.err err)) :
    ∃ err', (runMessages k (runMessage k ctx) idx msgs events w).outcome = .error (.err err') ∧
      err' ≠ err := by
  induction msgs generalizing idx events w with
  | nil => cases h
  | cons msg msgs ih =>
    rw [runMessages] at h
    rw [runMessages]
    cases hr : Stock.runMessage k ctx idx msg w with
    | error e =>
      rw [hr] at h
      cases h
      obtain ⟨err', herr', hne⟩ := runMessage_eq_error hr
      rw [herr']
      exact ⟨err', rfl, hne⟩
    | ok r =>
      rw [runMessage_eq_ok.mp hr]
      rw [hr] at h
      rcases r with ⟨_ | evs, w'⟩
      · cases h
      · exact ih h

end Messages

/-! ## One proposal -/

/-- No message of `p` fails on `w` in stock x/gov: they do not decode, or each one succeeds. -/
def NoMessageFails (k : GovKeeper Any Msg Rest) (ctx : Ctx) (p : Proposal Any) (w : World Any Rest) :
    Prop :=
  ∀ msgs err, k.getMsgs p.messages = .ok msgs →
    (runMessages k (Stock.runMessage k ctx) 0 msgs [] w).outcome ≠ .error (.err err)

/-- No message fails in the turn of the queue entry `prop`: if its proposal passes, none of the
proposal's messages fails on the state the tally leaves. -/
def TurnWithoutFailure (k : GovKeeper Any Msg Rest) (ctx : Ctx) (prop : Pair) (s : St Any Rest) :
    Prop :=
  ∀ p burned res w, Tallied k ctx prop s.world p true burned res w → NoMessageFails k ctx p w

section Turn
variable {fallbackDelay : Duration} {delay delay' : Option Duration} {passes : Bool}
  {p : Proposal Any} {prop : Pair} {s s' : St Any Rest}
  {execute : Proposal Any → M Any Rest (Proposal Any × ProposalResult × String)}

theorem executeProposal_eq (h : NoMessageFails k ctx p s.world) :
    executeProposal k ctx p s = Stock.executeProposal k ctx p s := by
  unfold executeProposal Stock.executeProposal executeWith
  refine bind_congr_at rfl fun _ u hu => ?_
  cases hm : k.getMsgs p.messages with
  | error err => rfl
  | ok msgs =>
    refine bind_congr_at rfl fun w v hw => ?_
    obtain ⟨rfl, rfl⟩ := getWorld_ok.mp hw
    have hworld : u.world = s.world := by rw [observe_ok.mp hu]
    rw [hworld, runMessages_eq fun err => h msgs err hm]

/-- The switch on the tally before activation does not read the delay. -/
theorem conclude_eq (h : passes = true → NoMessageFails k ctx p s.world) :
    conclude k (executeProposal k ctx) ctx fallbackDelay false passes delay p s =
      conclude k (Stock.executeProposal k ctx) ctx 0 false passes delay p s := by
  cases passes with
  | false => rfl
  | true => exact bind_congr_at (executeProposal_eq (h rfl)) fun _ _ _ => rfl

theorem conclude_delay {c : Conclusion Any}
    (h : conclude k execute ctx fallbackDelay false passes delay p s = .ok c s') : c.delay = delay := by
  cases passes with
  | true =>
    simp only [conclude, Bool.not_false, Bool.and_true, if_true, bind_ok, pure_ok] at h
    obtain ⟨_, _, _, rfl, _⟩ := h
    rfl
  | false =>
    cases he : p.expedited with
    | true =>
      simp only [conclude, Bool.false_and, Bool.false_eq_true, if_false, he, if_true, bind_ok,
        pure_ok] at h
      obtain ⟨_, _, _, _, _, _, _, _, _, _, _, _, _, _, _, rfl, _⟩ := h
      rfl
    | false =>
      simp only [conclude, Bool.false_and, Bool.false_eq_true, if_false, he, pure_ok] at h
      obtain ⟨rfl, _⟩ := h
      rfl

/-- A turn in which no message fails is stock x/gov's. -/
theorem processEndedVotingPeriod_eq (fallbackDelay : Duration) (delay : Option Duration)
    (h : TurnWithoutFailure k ctx prop s) :
    processEndedVotingPeriod k (executeProposal k ctx) ctx fallbackDelay false delay prop s =
      processEndedVotingPeriod k (Stock.executeProposal k ctx) ctx 0 false delay prop s := by
  unfold processEndedVotingPeriod
  refine bind_congr_at rfl fun w₀ s₀ hw => ?_
  obtain ⟨rfl, rfl⟩ := getWorld_ok.mp hw
  rcases hg : s.world.getProposal prop.k2 with p | ⟨p, err⟩ | _
  · have hid := World.id_of_found hg
    simp only [hid]
    refine bind_congr_at rfl fun tally s₁ ht => ?_
    obtain ⟨passes, burned, res⟩ := tally
    refine bind_congr_at rfl fun _ s₂ ho => bind_congr_at rfl fun _ s₃ hs =>
      bind_congr_at rfl fun _ s₄ hr => ?_
    obtain ⟨w, htally, rfl⟩ := gov_ok.mp ht
    obtain ⟨w', hT, rfl⟩ := tallied_ok hg ⟨w, htally, observe_ok.mp ho⟩ hs hr
    refine bind_congr_at (conclude_eq fun hp => ?_) fun _ _ _ => rfl
    subst hp
    exact h _ _ _ _ hT
  · rfl
  · rfl

theorem processEndedVotingPeriod_delay
    (h : processEndedVotingPeriod k execute ctx fallbackDelay false delay prop s = .ok delay' s') :
    delay' = delay := by
  simp only [processEndedVotingPeriod, bind_ok, getWorld_ok] at h
  obtain ⟨_, _, ⟨rfl, rfl⟩, h⟩ := h
  rcases hg : s.world.getProposal prop.k2 with p | ⟨p, err⟩ | _
  · simp only [hg, bind_ok, pure_ok] at h
    obtain ⟨_, _, _, _, _, _, _, _, _, _, _, _, c, _, hc, _, _, _, _, _, _, _, _, _, hd, _⟩ := h
    rw [← hd]
    exact conclude_delay hc
  · simp only [hg, bind_ok, pure_ok] at h
    obtain ⟨_, _, _, _, _, _, hd, _⟩ := h
    exact hd.symm
  · simp [hg] at h

end Turn

/-! ## A block in which no message fails -/

/-- No message fails in stock x/gov's loop over these queue entries. -/
def NoneFails (k : GovKeeper Any Msg Rest) (ctx : Ctx) : List Pair → St Any Rest → Prop
  | [], _ => True
  | prop :: props, s => TurnWithoutFailure k ctx prop s ∧
    ∀ delay s', processEndedVotingPeriod k (Stock.executeProposal k ctx) ctx 0 false none prop s
      = .ok delay s' → NoneFails k ctx props s'

/-- No message fails in stock x/gov's end blocker. -/
def BlockWithoutFailure (k : GovKeeper Any Msg Rest) (ctx : Ctx) (s : St Any Rest) : Prop :=
  ∀ s₁, processInactiveProposals k ctx s = .ok () s₁ →
    NoneFails k ctx (s₁.world.activeProposalsQueue.filter (untilPair ctx.time)) s₁

section Block
variable {fallbackDelay : Duration} {s s' s₁ s₂ : St Any Rest} {prop : Pair} {act : Act}

theorem foldlM_eq {props : List Pair} (h : NoneFails k ctx props s) :
    props.foldlM (processEndedVotingPeriod k (executeProposal k ctx) ctx fallbackDelay false) none s =
      props.foldlM (processEndedVotingPeriod k (Stock.executeProposal k ctx) ctx 0 false) none s := by
  induction props generalizing s with
  | nil => rw [List.foldlM_nil, List.foldlM_nil]
  | cons prop props ih =>
    obtain ⟨hturn, hrest⟩ := h
    have heq := processEndedVotingPeriod_eq fallbackDelay none hturn
    rw [List.foldlM_cons, List.foldlM_cons]
    refine bind_congr_at heq fun delay u hu => ?_
    rw [processEndedVotingPeriod_delay hu]
    exact ih (hrest delay u (heq.symm.trans hu))

theorem processEndedVotingPeriods_eq
    (h : NoneFails k ctx (s.world.activeProposalsQueue.filter (untilPair ctx.time)) s) :
    processEndedVotingPeriods k ctx fallbackDelay false s =
      processEndedVotingPeriodsWith k (Stock.executeProposal k ctx) ctx 0 false s := by
  rw [processEndedVotingPeriods, processEndedVotingPeriodsWith, processEndedVotingPeriodsWith,
    bind_eq_of_ok (getWorld_ok.mpr ⟨rfl, rfl⟩), bind_eq_of_ok (getWorld_ok.mpr ⟨rfl, rfl⟩)]
  exact bind_congr_at (foldlM_eq h) fun _ _ _ => rfl

/-- An inactive end blocker in which no message fails is stock x/gov's. -/
theorem endBlocker_eq (hinactive : s.timelock.isActive ctx.height = false)
    (h : BlockWithoutFailure k ctx s) :
    EndBlocker k ctx fallbackDelay s = Stock.EndBlocker k ctx s := by
  rw [EndBlocker, Stock.EndBlocker, bind_eq_of_ok (getTimelock_ok.mpr ⟨rfl, rfl⟩), hinactive]
  refine bind_congr_at (Eq.refl (processInactiveProposals k ctx s)) fun _ s₁ hs₁ => ?_
  rw [runIf_false, bind_pure_unit]
  exact processEndedVotingPeriods_eq (h s₁ hs₁)

/-! ## A block in which a message fails -/

theorem Tallied.unique {p p' : Proposal Any} {passes passes' burned burned' : Bool}
    {res res' : TallyResult} {w w₁ w₁' : World Any Rest}
    (h : Tallied k ctx prop w p passes burned res w₁)
    (h' : Tallied k ctx prop w p' passes' burned' res' w₁') :
    p' = p ∧ passes' = passes ∧ w₁' = w₁ := by
  -- each part is computed from the one before, so it is one and the same
  have hread : ∀ {p passes burned res w₁}, Tallied k ctx prop w p passes burned res w₁ →
      w.getProposal prop.k2 = .found p ∧ ∃ w₀ w₂, k.tally ctx p w = .ok (passes, burned, res) w₀ ∧
        (if (!p.expedited || passes) = true then Settles k ctx prop.k2 burned w₀ w₂ else w₂ = w₀) ∧
        w₁ = w₂.removeActive prop := by
    intro p passes burned res w₁ h
    cases h with
    | settled hg ht hc hs => exact ⟨hg, _, _, ht, by rw [if_pos hc]; exact hs, rfl⟩
    | kept hg ht hc => exact ⟨hg, _, _, ht, by rw [hc]; rfl, rfl⟩
  obtain ⟨hg, w₀, w₂, ht, hs, rfl⟩ := hread h
  obtain ⟨hg', w₀', w₂', ht', hs', rfl⟩ := hread h'
  rw [hg] at hg'
  cases hg'
  rw [ht] at ht'
  cases ht'
  refine ⟨rfl, rfl, ?_⟩
  split at hs
  · rename_i hc
    rw [if_pos hc] at hs'
    unfold Settles at hs hs'
    rw [hs] at hs'
    cases hs'
    rfl
  · rename_i hc
    rw [if_neg hc] at hs'
    rw [hs, hs']

/-- A turn in which a message fails stores its error, and hooks do not change that. -/
theorem TallyStep.stores_error
    {run : Nat → Msg → World Any Rest → Except String (Option (List SdkEvent) × World Any Rest)}
    {p : Proposal Any} {burned : Bool} {res : TallyResult} {w : World Any Rest} {msgs : List Msg}
    {err : String} (hk : k.Lawful) (h : TallyStep k run ctx fallbackDelay false prop s act s')
    (hT : Tallied k ctx prop s.world p true burned res w) (hm : k.getMsgs p.messages = .ok msgs)
    (hx : (runMessages k run 0 msgs [] w).outcome = .error (.err err)) :
    ∃ q, s'.world.stored prop.k2 = some q ∧ q.status = .failed ∧ q.failedReason = err := by
  have hg := (hT.world hk).1
  cases h with
  | undecodable hg' =>
    rw [hg] at hg'
    cases hg'
  | @executedNow p₁ p' burned' res' r w₁ w₂ w₃ w₄ _ hT' hE hset hhook =>
    obtain ⟨rfl, _, rfl⟩ := hT.unique hT'
    cases hE with
    | succeeded hm' hx' =>
      rw [hm] at hm'
      cases hm'
      rw [hx'] at hx
      cases hx
    | undecodable hm' =>
      rw [hm] at hm'
      cases hm'
    | failed hm' hx' =>
      rw [hm] at hm'
      cases hm'
      rw [hx'] at hx
      cases hx
      have hstored := World.stored_of_found (setProposal_agreeOff hk hset).2.1
      have hid := World.id_of_found hg
      -- a failed record is final, so the hook leaves it
      have hkept := (hhook.conforms hk.afterProposalVotingPeriodEnded).2.decided trivial hstored
        (.inr (.inr rfl))
      rw [← hid]
      exact ⟨_, hkept, rfl, rfl⟩
  | scheduled ha => cases ha
  | converted hT' => cases (hT.unique hT').2.1
  | rejected hT' => cases (hT.unique hT').2.1

theorem stock_runMessage_conforms (hk : k.Lawful) : RunConforms ctx (Stock.runMessage k ctx) :=
  fun h => runMessage_conforms hk (runMessage_eq_ok.mp h)

/-- The state without the timelock's store. -/
def St.cleared (s : St Any Rest) : St Any Rest := { s with timelock := Timelock.fresh }

theorem InactiveStep.cleared (h : InactiveStep k ctx prop s act s') :
    InactiveStep k ctx prop s.cleared act s'.cleared := by
  cases h with
  | undecodable hg h₁ h₂ h₃ => exact .undecodable hg h₁ h₂ h₃
  | expired hg h₁ hp h₂ h₃ => exact .expired hg h₁ hp h₂ h₃

/-- A tally before activation does not depend on the timelock's store, nor on the delay. -/
theorem TallyStep.cleared
    {run : Nat → Msg → World Any Rest → Except String (Option (List SdkEvent) × World Any Rest)}
    (h : TallyStep k run ctx fallbackDelay false prop s act s') (fallbackDelay' : Duration) :
    TallyStep k run ctx fallbackDelay' false prop s.cleared act s'.cleared := by
  cases h with
  | undecodable hg h₁ h₂ => exact .undecodable hg h₁ h₂
  | executedNow ha hT hE hset hhook => exact .executedNow ha hT hE hset hhook
  | scheduled ha => cases ha
  | converted hT he hp hs hv hk hset hhook => exact .converted hT he hp hs hv hk hset hhook
  | rejected hT he hset hhook => exact .rejected hT he hset hhook

/-- The rest of a loop keeps the record of a decided proposal. -/
theorem record_kept
    {run : Nat → Msg → World Any Rest → Except String (Option (List SdkEvent) × World Any Rest)}
    (hk : k.Lawful) {b : Block} (hrun : RunConforms b.ctx run) {L : List (Pair × Act)}
    {x : Tracked Any Rest} (h : Steps (fun u l v => TallyStep k run b.ctx fallbackDelay b.active
      l.1 u l.2 v) x.state L s')
    (hrest : TallyRest fallbackDelay b.delay (L.map Prod.fst) x) {id : Nat} {q : Proposal Any}
    (hid : id ∉ (L.map Prod.fst).map Pair.k2) (hq : x.state.world.stored id = some q)
    (hdecided : q.status.Decided) : s'.world.stored id = some q := by
  induction L generalizing x with
  | nil =>
    rw [Steps.nil_iff.mp h]
    exact hq
  | cons l L ih =>
    obtain ⟨u, hl, hL⟩ := Steps.cons_iff.mp h
    obtain ⟨y, rfl, hturned, hrest⟩ := tally_step b hk hrun hrest hl
    simp only [List.map_cons, List.mem_cons, not_or] at hid
    refine ih hL hrest hid.2 ?_
    exact hturned.turn.world.decided (by rw [hl.id_eq]; exact hid.1) hq hdecided

/-- The loop over the rest of the queue keeps the record of a failed proposal. -/
theorem loop_keeps_record
    {run : Nat → Msg → World Any Rest → Except String (Option (List SdkEvent) × World Any Rest)}
    (hk : k.Lawful) {b : Block} (hb : b.active = false) (hrun : RunConforms b.ctx run)
    {x : Tracked Any Rest} (hx : x.state = s.cleared) {props : List Pair}
    (hrest : TallyRest minimumDelay b.delay props x) {delay : Option Duration}
    (h : props.foldlM (processEndedVotingPeriod k (executeWith k run) b.ctx fallbackDelay false)
      none s = .ok delay s') {id : Nat} {q : Proposal Any} (hid : id ∉ props.map Pair.k2)
    (hq : s.world.stored id = some q) (hst : q.status = .failed) :
    s'.world.stored id = some q := by
  obtain ⟨L, rfl, hS⟩ := steps_of_tallies (.inl rfl) h
  have hclear : Steps (fun u l v => TallyStep k run b.ctx minimumDelay b.active l.1 u l.2 v)
      x.state L s'.cleared := by
    rw [hx, hb]
    exact hS.map (f := St.cleared) fun hstep => hstep.cleared minimumDelay
  exact record_kept hk hrun hclear hrest hid (by rw [hx]; exact hq) (.inr (.inr hst))

/-- In a loop that leaves what stock x/gov's leaves, no message fails. -/
theorem noneFails_of_world_eq (hk : k.Lawful) {b : Block} (hb : b.active = false)
    {x : Tracked Any Rest} (hx : x.state = s.cleared) {props : List Pair}
    (hrest : TallyRest minimumDelay b.delay props x) {delay₁ delay₂ : Option Duration}
    (h₁ : props.foldlM (processEndedVotingPeriod k (executeProposal k b.ctx) b.ctx fallbackDelay false)
      none s = .ok delay₁ s₁)
    (h₂ : props.foldlM (processEndedVotingPeriod k (Stock.executeProposal k b.ctx) b.ctx 0 false)
      none s = .ok delay₂ s₂)
    (heq : s₁.world = s₂.world) : NoneFails k b.ctx props s := by
  induction props generalizing s x with
  | nil => trivial
  | cons prop props ih =>
    rw [List.foldlM_cons, bind_ok] at h₁ h₂
    obtain ⟨d₁, u₁, hu₁, h₁⟩ := h₁
    obtain ⟨d₂, u₂, hu₂, h₂⟩ := h₂
    cases processEndedVotingPeriod_delay hu₁
    cases processEndedVotingPeriod_delay hu₂
    obtain ⟨⟨act₁, hact₁⟩, _⟩ := processEndedVotingPeriod_step (.inl rfl) hu₁
    obtain ⟨⟨act₂, hact₂⟩, _⟩ :=
      processEndedVotingPeriod_step (.inl rfl) hu₂
    have hclear₁ := hact₁.cleared minimumDelay
    have hclear₂ := hact₂.cleared minimumDelay
    rw [← hx, ← hb] at hclear₁ hclear₂
    obtain ⟨y₁, hy₁, _, hrest₁⟩ := tally_step b hk (runMessage_conforms hk) hrest hclear₁
    obtain ⟨y₂, hy₂, _, hrest₂⟩ := tally_step b hk (stock_runMessage_conforms hk) hrest hclear₂
    by_cases hturn : TurnWithoutFailure k b.ctx prop s
    · have hsame := (processEndedVotingPeriod_eq _ _ hturn).symm.trans hu₁
      rw [hsame] at hu₂
      cases hu₂
      refine ⟨hturn, fun d u hu => ?_⟩
      rw [hsame] at hu
      cases hu
      exact ih hy₁ hrest₁ h₁ h₂
    · -- the two records of the proposal differ, and stay
      simp only [TurnWithoutFailure, NoMessageFails, not_forall, not_not] at hturn
      obtain ⟨p, burned, res, w, hT, msgs, err, hm, hx₂⟩ := hturn
      obtain ⟨err', hx₁, hne⟩ := runMessages_error hx₂
      obtain ⟨q₁, hq₁, hst₁, hr₁⟩ := hact₁.stores_error hk hT hm hx₁
      obtain ⟨q₂, hq₂, hst₂, hr₂⟩ := hact₂.stores_error hk hT hm hx₂
      have hid := (List.nodup_cons.mp hrest.nodup).1
      have hs₁ := loop_keeps_record hk hb (runMessage_conforms hk) hy₁ hrest₁ h₁ hid hq₁ hst₁
      have hs₂ := loop_keeps_record hk hb (stock_runMessage_conforms hk) hy₂ hrest₂ h₂ hid hq₂ hst₂
      rw [heq, hs₂] at hs₁
      cases hs₁
      exact absurd (hr₁.symm.trans hr₂) hne

/-- In a block that leaves what stock x/gov leaves, no message fails. -/
theorem blockWithoutFailure_of_world_eq (hk : k.Lawful) (hwf : s.world.WF)
    (hinactive : s.timelock.isActive ctx.height = false)
    (h₁ : EndBlocker k ctx fallbackDelay s = .ok () s₁) (h₂ : Stock.EndBlocker k ctx s = .ok () s₂)
    (heq : s₁.world = s₂.world) : BlockWithoutFailure k ctx s := by
  intro u hu
  simp only [EndBlocker, Stock.EndBlocker, processEndedVotingPeriods, processEndedVotingPeriodsWith,
    bind_ok, getTimelock_ok, getWorld_ok, pure_ok] at h₁ h₂
  obtain ⟨_, _, ⟨rfl, rfl⟩, _, u₁, hu₁, _, _, ⟨_, _, ⟨rfl, rfl⟩, delay₁, v₁, hv₁, _, rfl⟩, hend⟩ := h₁
  obtain ⟨_, u₂, hu₂, _, _, ⟨rfl, rfl⟩, delay₂, v₂, hv₂, _, rfl⟩ := h₂
  rw [hu] at hu₁ hu₂
  cases hu₁
  cases hu₂
  rw [hinactive, runIf_false, pure_ok] at hend
  obtain ⟨_, rfl⟩ := hend
  rw [hinactive] at hv₁
  -- the inactive queue, without the timelock's store
  let b : Block := ⟨ctx, false, minimumDelay, []⟩
  obtain ⟨φ, hsim, _⟩ := Sim.of_entries (s := s.cleared) hwf fun id t he =>
    absurd he (KeySet.not_mem_empty _)
  simp only [processInactiveProposals, bind_ok, getWorld_ok] at hu
  obtain ⟨_, _, ⟨rfl, rfl⟩, hu⟩ := hu
  obtain ⟨L, hL, hS⟩ := steps_of_forM (fun _ _ _ => processInactiveProposal_step) hu
  have hclear : Steps (fun u l v => InactiveStep k ctx l.1 u l.2 v) s.cleared L u.cleared :=
    hS.map (f := St.cleared) fun hstep => hstep.cleared
  obtain ⟨y, hy, _⟩ := inactive_loop b (x := ⟨φ, s.cleared, hsim⟩) hk hclear hL
  have hrest := tallyRest_due b minimumDelay (x := y) (by rw [hy]; rfl) ctx.time
  rw [hy] at hrest
  exact noneFails_of_world_eq hk (b := b) rfl hy hrest hv₁ hv₂ heq

/-- An inactive end blocker leaves the timelock's store. -/
theorem endBlocker_timelock_eq (hinactive : s.timelock.isActive ctx.height = false)
    (h : EndBlocker k ctx fallbackDelay s = .ok () s') : s'.timelock = s.timelock := by
  obtain ⟨L₁, L₂, L₃, s₁, s₂, hS⟩ := endBlocker_steps h
  have hL₃ := hS.matured_due
  rw [hinactive] at hL₃
  have hmatured := hS.matured
  rw [List.map_eq_nil_iff.mp hL₃, Steps.nil_iff] at hmatured
  have htallies := hS.tallies
  rw [hinactive] at htallies
  rw [hmatured, ← hS.timelock_eq]
  refine htallies.relation (fun u v : St Any Rest => v.timelock = u.timelock) (fun _ => rfl)
    (fun _ _ _ h₁ h₂ => Eq.trans h₂ h₁) fun u l v hl => ?_
  generalize l.2 = act at hl
  cases hl with
  | scheduled ha => cases ha
  | _ => rfl

end Block

/-- **Before activation.** An inactive end blocker leaves the timelock's store, and writes what
stock x/gov writes, or fails with it, when no message of the block fails. When x/gov keeps its
rules, a block that either of the two completes is written alike only then. -/
theorem endBlocker_stock_iff (k : GovKeeper Any Msg Rest) (ctx : Ctx) (fallbackDelay : Duration)
    {s : St Any Rest} (hinactive : s.timelock.isActive ctx.height = false) :
    (∀ s', EndBlocker k ctx fallbackDelay s = .ok () s' → s'.timelock = s.timelock) ∧
    (BlockWithoutFailure k ctx s → committed (EndBlocker k ctx fallbackDelay s) =
      committed (Stock.EndBlocker k ctx s)) ∧
    (k.Lawful → s.world.WF → committed (EndBlocker k ctx fallbackDelay s) ≠ none ∨
        committed (Stock.EndBlocker k ctx s) ≠ none →
      (committed (EndBlocker k ctx fallbackDelay s) = committed (Stock.EndBlocker k ctx s) ↔
        BlockWithoutFailure k ctx s)) := by
  have hsame : BlockWithoutFailure k ctx s → committed (EndBlocker k ctx fallbackDelay s) =
      committed (Stock.EndBlocker k ctx s) := fun h => by rw [endBlocker_eq hinactive h]
  refine ⟨fun s' => endBlocker_timelock_eq hinactive, hsame, fun hk hwf hcompleted => ⟨fun heq => ?_, hsame⟩⟩
  rw [heq, or_self] at hcompleted
  rcases h₂ : Stock.EndBlocker k ctx s with ⟨⟨⟩, s₂⟩ | ⟨e, s₂⟩
  · rw [h₂] at heq
    rcases h₁ : EndBlocker k ctx fallbackDelay s with ⟨⟨⟩, s₁⟩ | ⟨e, s₁⟩
    · rw [h₁] at heq
      simp only [committed, Option.some.injEq, Prod.mk.injEq] at heq
      exact blockWithoutFailure_of_world_eq hk hwf hinactive h₁ h₂ heq.1
    · rw [h₁] at heq
      cases heq
  · rw [h₂] at hcompleted
    exact absurd rfl hcompleted

/-! ## A message that fails -/

/-- A block before activation with one proposal to tally and none to drop. -/
theorem endBlockers_of_turn {ctx : Ctx} {s : St Any Rest} (prop : Pair) (s₁ s₂ : St Any Rest)
    (hinactive : s.timelock.isActive ctx.height = false)
    (hdropped : s.world.inactiveProposalsQueue.filter (untilPair ctx.time) = [])
    (hended : s.world.activeProposalsQueue.filter (untilPair ctx.time) = [prop])
    (h₁ : processEndedVotingPeriod k (executeProposal k ctx) ctx minimumDelay false none prop s
      = .ok none s₁)
    (h₂ : processEndedVotingPeriod k (Stock.executeProposal k ctx) ctx 0 false none prop s
      = .ok none s₂) :
    EndBlocker k ctx minimumDelay s = .ok () s₁ ∧ Stock.EndBlocker k ctx s = .ok () s₂ := by
  have hfirst : processInactiveProposals k ctx s = .ok () s := by
    rw [processInactiveProposals, bind_eq_of_ok (getWorld_ok.mpr ⟨rfl, rfl⟩), hdropped]
    rfl
  have hloop : ∀ {execute : Proposal Any → M Any Rest (Proposal Any × ProposalResult × String)}
      {fallbackDelay : Duration} {s' : St Any Rest},
      processEndedVotingPeriod k execute ctx fallbackDelay false none prop s = .ok none s' →
      processEndedVotingPeriodsWith k execute ctx fallbackDelay false s = .ok () s' := by
    intro execute fallbackDelay s' h
    rw [processEndedVotingPeriodsWith, bind_eq_of_ok (getWorld_ok.mpr ⟨rfl, rfl⟩), hended, bind_ok]
    exact ⟨none, s', foldlM_ok.mpr (.cons h (.nil _)), rfl⟩
  constructor
  · rw [EndBlocker, bind_eq_of_ok (getTimelock_ok.mpr ⟨rfl, rfl⟩), bind_eq_of_ok hfirst, hinactive,
      processEndedVotingPeriods, bind_eq_of_ok (hloop h₁)]
    rfl
  · rw [Stock.EndBlocker, bind_eq_of_ok hfirst]
    exact hloop h₂

/-- A proposal in its voting period on a chain that is not active. -/
def inactiveState : St Unit Unit := ⟨votingWorld [(7, 10)], Timelock.fresh, []⟩

/-- What a tally of proposal 7 that executes it leaves, before activation. -/
def concluded (p : Proposal Unit) (r : Ran) : St Unit Unit where
  world := (inactiveState.world.removeActive ⟨10, 7⟩).setRecord p
  timelock := Timelock.fresh
  log := (Act.executedNow 7 false r).log

/-- A block before activation in which no message fails. -/
theorem passing_inactive : BlockWithoutFailure passingKeeper tallyBlock.ctx inactiveState := by
  have hinactive : inactiveState.timelock.isActive tallyBlock.ctx.height = false := rfl
  obtain ⟨h₁, h₂⟩ := endBlockers_of_turn (k := passingKeeper) ⟨10, 7⟩
    (concluded (passedProposal 7 10) ⟨1, [], .passed, "passed"⟩)
    (concluded (passedProposal 7 10) ⟨1, [], .passed, "passed"⟩) hinactive rfl rfl rfl rfl
  have hsame : committed (EndBlocker passingKeeper tallyBlock.ctx minimumDelay inactiveState) =
      committed (Stock.EndBlocker passingKeeper tallyBlock.ctx inactiveState) := by rw [h₁, h₂]
  have hcompleted : committed (Stock.EndBlocker passingKeeper tallyBlock.ctx inactiveState) ≠ none := by
    rw [h₂]
    exact nofun
  exact ((endBlocker_stock_iff passingKeeper tallyBlock.ctx minimumDelay hinactive).2.2
    passingKeeper_lawful (votingWorld_wf (by decide) (by decide)) (.inr hcompleted)).mp hsame

/-- An x/gov whose tallies pass and whose messages fail. -/
def failingKeeper : GovKeeper Unit Unit Unit :=
  plainKeeper (fun _ => true) (fun _ => some fun _ _ => throw (.err "insufficient funds"))
    fun _ => "/cosmos.bank.v1beta1.MsgSend"

theorem failingKeeper_lawful : failingKeeper.Lawful := plainKeeper_lawful fun hh h => by
  cases hh
  cases h

/-- The reason this module stores: `message 0 (/cosmos.bank.v1beta1.MsgSend): insufficient funds`. -/
def wrappedReason : String :=
  "message " ++ ToString.toString 0 ++ " (" ++ "/cosmos.bank.v1beta1.MsgSend" ++ "): " ++
    "insufficient funds"

/-- The record of proposal 7 after its messages have failed. -/
def failedProposal (reason : String) : Proposal Unit :=
  { passedProposal 7 10 with status := .failed, failedReason := reason }

/-- What that leaves. -/
def concludedFailed (reason : String) : St Unit Unit :=
  concluded (failedProposal reason) ⟨1, [], .failed, "passed, but failed on execution: " ++ reason⟩

/-- The turn of proposal 7, for whatever reason its message fails. -/
theorem failing_turn (reason : Nat → String) (fallbackDelay : Duration) :
    processEndedVotingPeriod failingKeeper
      (executeWith failingKeeper fun idx _ _ => .error (reason idx)) tallyBlock.ctx fallbackDelay
      false none ⟨10, 7⟩ inactiveState = .ok none (concludedFailed (reason 0)) := rfl

/-- A block before activation in which a message fails: the two end blockers store different
reasons. -/
theorem failing_inactive : inactiveState.world.WF ∧ failingKeeper.Lawful ∧
    inactiveState.timelock.isActive tallyBlock.ctx.height = false ∧
    EndBlocker failingKeeper tallyBlock.ctx minimumDelay inactiveState = .ok ()
      (concludedFailed wrappedReason) ∧
    Stock.EndBlocker failingKeeper tallyBlock.ctx inactiveState = .ok ()
      (concludedFailed "insufficient funds") ∧
    committed (EndBlocker failingKeeper tallyBlock.ctx minimumDelay inactiveState) ≠
      committed (Stock.EndBlocker failingKeeper tallyBlock.ctx inactiveState) := by
  have hmodule : runMessage failingKeeper tallyBlock.ctx = fun idx _ _ =>
      .error ("message " ++ ToString.toString idx ++ " (" ++ "/cosmos.bank.v1beta1.MsgSend" ++ "): " ++
        "insufficient funds") := rfl
  have hstock : Stock.runMessage failingKeeper tallyBlock.ctx =
      fun _ _ _ => .error "insufficient funds" := rfl
  have hinactive : inactiveState.timelock.isActive tallyBlock.ctx.height = false := rfl
  obtain ⟨h₁, h₂⟩ := endBlockers_of_turn (k := failingKeeper) ⟨10, 7⟩
    (concludedFailed wrappedReason) (concludedFailed "insufficient funds") hinactive rfl rfl
    (by
      show processEndedVotingPeriod failingKeeper (executeWith failingKeeper
        (runMessage failingKeeper tallyBlock.ctx)) _ _ _ _ _ _ = _
      rw [hmodule]
      exact failing_turn _ _)
    (by
      show processEndedVotingPeriod failingKeeper (executeWith failingKeeper
        (Stock.runMessage failingKeeper tallyBlock.ctx)) _ _ _ _ _ _ = _
      rw [hstock]
      exact failing_turn (fun _ => _) _)
  refine ⟨votingWorld_wf (by decide) (by decide), failingKeeper_lawful, rfl, h₁, h₂, fun heq => ?_⟩
  rw [h₁, h₂] at heq
  simp only [committed, Option.some.injEq, Prod.mk.injEq] at heq
  have hstored := congrArg (fun w : World Unit Unit => w.stored 7) heq.1
  have hrecord : ∀ reason, (concludedFailed reason).world.stored 7 = some (failedProposal reason) :=
    fun reason => stored_setRecord _ (failedProposal reason)
  simp only [hrecord, Option.some.injEq] at hstored
  exact wrapped_ne _ _ _ (congrArg Proposal.failedReason hstored)

end Ark.GovTimelock
