import Ark.Gov.Rules
import Ark.GovTimelock.EndBlocker

/- The messages of a proposal take effect together or not at all.

   `runInOrder` says what the messages come to when nothing can go wrong halfway: each
   has a handler, and each handler succeeds on the state that its predecessor left.
   `executeProposal` is compared with it. Where `runInOrder` has a result the call
   leaves that state and emits those events (`executeProposal_passes`); where it has
   none, the call leaves the state it was given and says why (`executeProposal_stops`),
   however much the handlers wrote before one of them stopped.

   Assumed of the handlers is that one which returns no error returns a result
   (`Answers`); a nil result would be dereferenced outside the recovery. -/
namespace Ark.GovTimelock
open Ark.Lib Ark.Gov Effect

variable {Any Msg Rest : Type}

/-- A handler that returns no error returns a result. -/
def Answers (k : GovKeeper Any Msg Rest) : Prop :=
  ∀ ctx msg h w w', k.handler msg = some h → h ctx msg w ≠ .ok none w'

/-- The events and the state of messages that all succeed, run one after the other. -/
def runInOrder (k : GovKeeper Any Msg Rest) (ctx : Ctx) :
    List Msg → World Any Rest → Option (List SdkEvent × World Any Rest)
  | [], w => some ([], w)
  | msg :: msgs, w =>
    match k.handler msg with
    | none => none
    | some handler =>
      match handler ctx msg w with
      | .ok (some evs) w₁ => (runInOrder k ctx msgs w₁).map fun r => (evs ++ r.1, r.2)
      | _ => none

/-- The events of handlers in a log. -/
def Obs.handlerEvent : Obs → Option SdkEvent
  | .event (.handler e) => some e
  | _ => none

@[simp] theorem Obs.handlerEvent_executing (id : Nat) : (executing id).handlerEvent = none := rfl

@[simp] theorem Obs.handlerEvent_delivered (id n : Nat) : (delivered id n).handlerEvent = none :=
  rfl

@[simp] theorem Obs.handlerEvent_handler (e : SdkEvent) :
    (event (.handler e)).handlerEvent = some e := rfl

section
variable {k : GovKeeper Any Msg Rest} {ctx : Ctx} {msg : Msg} {msgs : List Msg}
  {w w' : World Any Rest} {evs : List SdkEvent} {p : Proposal Any} {s : St Any Rest}

/-! ## One message -/

variable (ctx) in
/-- A message runs with a result, or stops with a reason. -/
theorem runMessage_cases (hk : Answers k) (idx : Nat) (msg : Msg) (w : World Any Rest) :
    (∃ handler evs w₁, k.handler msg = some handler ∧ handler ctx msg w = .ok (some evs) w₁ ∧
      runMessage k ctx idx msg w = .ok (some evs, w₁)) ∨
    ((∀ handler evs w₁, k.handler msg = some handler →
      handler ctx msg w ≠ .ok (some evs) w₁) ∧
      ∃ err, err ≠ "" ∧ runMessage k ctx idx msg w = .error err) := by
  -- whatever a handler says, the reason starts with the message's index
  have hprefix : ∀ execErr, "message " ++ ToString.toString idx ++ " (" ++ k.msgTypeURL msg ++
      "): " ++ execErr ≠ "" := by
    intro execErr h
    have hhead := congrArg (fun text : String => text.toList.head?) h
    simp at hhead
  unfold runMessage safeExecuteHandler
  cases hh : k.handler msg with
  | none =>
    right
    exact ⟨fun _ _ _ h => absurd h.symm (Option.some_ne_none _), _, hprefix _, rfl⟩
  | some handler =>
    rcases hr : handler ctx msg w with ⟨_ | evs, w₁⟩ | ⟨e | v, w₁⟩
    · exact absurd hr (hk ctx msg handler w w₁ hh)
    · left
      exact ⟨handler, evs, w₁, rfl, hr, by simp [hr]⟩
    all_goals
      right
      refine ⟨?_, _, hprefix _, by simp only [hr]; rfl⟩
      intro handler' evs w₂ hh' hr'
      cases hh'
      rw [hr] at hr'
      cases hr'

/-! ## The loop -/

theorem runInOrder_cons {handler : Handler Any Msg Rest} {w₁ : World Any Rest}
    (hh : k.handler msg = some handler) (hr : handler ctx msg w = .ok (some evs) w₁) :
    runInOrder k ctx (msg :: msgs) w =
      (runInOrder k ctx msgs w₁).map fun r => (evs ++ r.1, r.2) := by
  rw [runInOrder, hh]
  simp only [hr]

theorem runInOrder_stopped (h : ∀ handler evs w₁, k.handler msg = some handler →
    handler ctx msg w ≠ .ok (some evs) w₁) : runInOrder k ctx (msg :: msgs) w = none := by
  rw [runInOrder]
  cases hh : k.handler msg with
  | none => rfl
  | some handler =>
    rcases hr : handler ctx msg w with ⟨_ | evs, w₁⟩ | ⟨e, w₁⟩
    · simp only [hr]
    · exact absurd hr (h handler evs w₁ hh)
    · simp only [hr]

variable (ctx) in
/-- The loop of `executeProposal` ends as the messages run in order do. -/
theorem runMessages_inOrder (hk : Answers k) (msgs : List Msg) (idx : Nat)
    (events : List SdkEvent) (w : World Any Rest) :
    match runInOrder k ctx msgs w with
    | some (evs, w') => runMessages k (runMessage k ctx) idx msgs events w =
        ⟨idx + msgs.length, .ok (w', events ++ evs)⟩
    | none => ∃ n err, err ≠ "" ∧
        runMessages k (runMessage k ctx) idx msgs events w = ⟨n, .error (.err err)⟩ := by
  induction msgs generalizing idx events w with
  | nil => simp [runInOrder, runMessages]
  | cons msg msgs ih =>
    rw [runMessages]
    obtain ⟨handler, evs, w₁, hh, hr, hrun⟩ | ⟨hstop, err, hne, hrun⟩ :=
      runMessage_cases ctx hk idx msg w
    · have hrest := ih (idx + 1) (events ++ evs) w₁
      rw [runInOrder_cons hh hr, hrun]
      cases hin : runInOrder k ctx msgs w₁ with
      | none =>
        rw [hin] at hrest
        exact hrest
      | some r =>
        rw [hin] at hrest
        simp only [Option.map_some, hrest, Execution.mk.injEq, List.length_cons,
          List.append_assoc, and_true]
        omega
    · rw [runInOrder_stopped hstop, hrun]
      exact ⟨_, err, hne, rfl⟩

/-! ## The call -/

/-- Where the messages run in order, the call leaves their state and emits their events. -/
theorem executeProposal_passes (hk : Answers k) (hm : k.getMsgs p.messages = .ok msgs)
    (hrun : runInOrder k ctx msgs s.world = some (evs, w')) :
    executeProposal k ctx p s = .ok
      ({ p with status := .passed, failedReason := "" }, .passed, "passed")
      { s with
        world := w'
        log := s.log ++ (.executing p.id :: (List.range msgs.length).map (.delivered p.id)) ++
          evs.map fun e => .event (.handler e) } := by
  have hloop := runMessages_inOrder ctx hk msgs 0 [] s.world
  rw [hrun] at hloop
  simp only [Nat.zero_add, List.nil_append] at hloop
  unfold executeProposal executeWith
  rw [bind_ok]
  refine ⟨(), _, observe_ok.mpr rfl, ?_⟩
  simp only [hm, bind_ok, getWorld_ok, observe_ok]
  refine ⟨_, _, ⟨rfl, rfl⟩, (), _, rfl, ?_⟩
  simp only [hloop, bind_ok, setWorld_ok, observe_ok, pure_ok]
  refine ⟨(), _, rfl, (), _, rfl, trivial, ?_⟩
  simp

/-- Where they do not, the call leaves the state it was given, and a reason. -/
theorem executeProposal_stops (hk : Answers k)
    (hstop : ∀ msgs, k.getMsgs p.messages = .ok msgs → runInOrder k ctx msgs s.world = none) :
    ∃ n err, (err ≠ "" ∨ k.getMsgs p.messages = .error err) ∧
      executeProposal k ctx p s = .ok (executionFailed p err)
        { s with log := s.log ++ (.executing p.id :: (List.range n).map (.delivered p.id)) } := by
  unfold executeProposal executeWith
  cases hm : k.getMsgs p.messages with
  | error err =>
    refine ⟨0, err, .inr rfl, bind_ok.mpr ⟨(), _, observe_ok.mpr rfl, ?_⟩⟩
    simp
  | ok msgs =>
    have hloop := runMessages_inOrder ctx hk msgs 0 [] s.world
    rw [hstop msgs hm] at hloop
    obtain ⟨n, err, hne, hloop⟩ := hloop
    refine ⟨n, err, .inl hne, bind_ok.mpr ⟨(), _, observe_ok.mpr rfl, ?_⟩⟩
    simp only [bind_ok, getWorld_ok, observe_ok]
    refine ⟨_, _, ⟨rfl, rfl⟩, (), _, rfl, ?_⟩
    simp only [hloop, pure_ok]
    refine ⟨trivial, ?_⟩
    simp

/-- Either the messages decode and run in order, or the call stops. -/
theorem runInOrder_or_stops (k : GovKeeper Any Msg Rest) (ctx : Ctx) (p : Proposal Any)
    (w : World Any Rest) :
    (∃ msgs evs w', k.getMsgs p.messages = .ok msgs ∧
      runInOrder k ctx msgs w = some (evs, w')) ∨
    ∀ msgs, k.getMsgs p.messages = .ok msgs → runInOrder k ctx msgs w = none := by
  cases hm : k.getMsgs p.messages with
  | error err => exact .inr nofun
  | ok msgs =>
    cases hrun : runInOrder k ctx msgs w with
    | some r => exact .inl ⟨msgs, r.1, r.2, rfl, hrun⟩
    | none =>
      right
      intro msgs' he
      cases he
      exact hrun

theorem executeProposal_total (ctx : Ctx) (hk : Answers k) (p : Proposal Any) (s : St Any Rest) :
    ∃ r s', executeProposal k ctx p s = .ok r s' := by
  cases runInOrder_or_stops k ctx p s.world with
  | inl h =>
    obtain ⟨msgs, evs, w', hm, hrun⟩ := h
    exact ⟨_, _, executeProposal_passes hk hm hrun⟩
  | inr hstop =>
    obtain ⟨n, err, _, hexec⟩ := executeProposal_stops hk hstop
    exact ⟨_, _, hexec⟩

end

/-! ## Atomicity -/

/-- A proposal's messages decode, and every handler succeeds in order. -/
def Succeeds (k : GovKeeper Any Msg Rest) (ctx : Ctx) (p : Proposal Any) (w : World Any Rest)
    (evs : List SdkEvent) (w' : World Any Rest) : Prop :=
  ∃ msgs, k.getMsgs p.messages = .ok msgs ∧ runInOrder k ctx msgs w = some (evs, w')

/-- All messages of a proposal take effect, or none does and the record says why. -/
theorem executeProposal_atomic (k : GovKeeper Any Msg Rest) (hk : Answers k)
    (hreason : ∀ messages err, k.getMsgs messages = .error err → err ≠ "") (ctx : Ctx)
    (p : Proposal Any) (s : St Any Rest) :
    ∃ p' result text s', executeProposal k ctx p s = .ok (p', result, text) s' ∧
      s'.timelock = s.timelock ∧
      (p'.status = .passed ↔ ∃ evs w', Succeeds k ctx p s.world evs w') ∧
      ((∃ evs w', Succeeds k ctx p s.world evs w' ∧
          p' = { p with status := .passed, failedReason := "" } ∧ result = .passed ∧
          s'.world = w' ∧
          s'.log.filterMap Obs.handlerEvent = s.log.filterMap Obs.handlerEvent ++ evs) ∨
        (∃ reason, reason ≠ "" ∧ p' = { p with status := .failed, failedReason := reason } ∧
          result = .failed ∧ s'.world = s.world ∧
          s'.log.filterMap Obs.handlerEvent = s.log.filterMap Obs.handlerEvent)) := by
  cases runInOrder_or_stops k ctx p s.world with
  | inl h =>
    obtain ⟨msgs, evs, w', hm, hrun⟩ := h
    have hsucceeds : Succeeds k ctx p s.world evs w' := ⟨msgs, hm, hrun⟩
    refine ⟨_, _, _, _, executeProposal_passes hk hm hrun, rfl, ?_, .inl ?_⟩
    · exact ⟨fun _ => ⟨evs, w', hsucceeds⟩, fun _ => rfl⟩
    · refine ⟨evs, w', hsucceeds, rfl, rfl, rfl, ?_⟩
      simp [List.filterMap_cons, Function.comp_def]
  | inr hstop =>
    obtain ⟨n, err, hne, hexec⟩ := executeProposal_stops hk hstop
    have herr : err ≠ "" := by
      cases hne with
      | inl hne => exact hne
      | inr hm => exact hreason _ _ hm
    refine ⟨_, _, _, _, hexec, rfl, ?_, .inr ⟨err, herr, rfl, rfl, rfl, ?_⟩⟩
    · constructor
      · intro h
        cases h
      · intro ⟨evs, w', msgs, hm, hrun⟩
        rw [hstop msgs hm] at hrun
        cases hrun
    · simp

/-- An x/gov with a counter for the rest of its state: the message `true` adds one to it, the
message `false` adds one and panics. -/
def countingKeeper : GovKeeper Bool Bool Nat :=
  plainKeeper (fun _ => true)
    (fun succeeds => some fun _ _ w =>
      if succeeds then .ok (some [⟨"counted", []⟩]) { w with rest := w.rest + 1 }
      else .error (.panic "index out of range") { w with rest := w.rest + 1 })
    fun _ => "/ark.MsgCount"

theorem countingKeeper_answers : Answers countingKeeper := by
  intro ctx msg h w w' hh
  cases hh
  cases msg with
  | true => exact nofun
  | false => exact nofun

/-- The write of the first message is dropped with that of the second, which panics. -/
theorem executeProposal_atomic_panic : ∃ p' result text s',
    executeProposal countingKeeper (blockAt 1 10 (by decide))
      ⟨7, [true, false], .passed, none, none, none, none, false, ""⟩
      ⟨World.empty 5, Timelock.fresh, []⟩ = .ok (p', result, text) s' ∧
    p'.status = .failed ∧ s'.world.rest = 5 := by
  obtain ⟨p', result, text, s', hexec, _, hpassed, h⟩ := executeProposal_atomic countingKeeper
    countingKeeper_answers nofun (blockAt 1 10 (by decide))
    ⟨7, [true, false], .passed, none, none, none, none, false, ""⟩
    ⟨World.empty 5, Timelock.fresh, []⟩
  refine ⟨p', result, text, s', hexec, ?_⟩
  obtain ⟨evs, w', ⟨msgs, hm, hrun⟩, _⟩ | ⟨reason, _, hp', _, hworld, _⟩ := h
  · cases hm
    cases hrun
  · rw [hp', hworld]
    exact ⟨rfl, rfl⟩

end Ark.GovTimelock
