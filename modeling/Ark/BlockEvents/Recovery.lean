import Ark.BlockEvents.Reversible

/- What the commands on block events do to the recovery record.

   Saving the response of a height also makes it the last response, which a node that
   stopped between FinalizeBlock and Commit is restarted from. The commands save each
   height whose response they change, so the record is, in the end, that of the last
   height they saved (`Saves.run`): it stays what it was when that is the height of the
   record, with the response the record has, or when nothing was saved.

   The commands are those of the store (`cleanup_responses`, `import_responses`), with
   the record beside it.

   Correspondence (Go ↔ Lean):
     `sm.Store`                                ↔ `StateStore`
     `stateStore.SaveFinalizeBlockResponse`    ↔ `StateStore.saveFinalizeBlockResponse`
     the last-response record                  ↔ `lastHeight`, `lastResponse` -/
namespace Ark.BlockEvents
open Ark.Lib.Checks

structure StateStore where
  responses : Store
  lastHeight : Int
  lastResponse : Response

namespace StateStore

def saveFinalizeBlockResponse (s : StateStore) (height : Int) (resp : Response) : StateStore where
  responses := s.responses.saveFinalizeBlockResponse height resp
  lastHeight := height
  lastResponse := resp

def applyBlockEventsExport (s : StateStore) (events : BlockEventsExport) :
    Except String StateStore := do
  let resp ← s.responses.response events.height
  pure (s.saveFinalizeBlockResponse events.height (resp.withEvents events))

def cleanupBlockEvents : StateStore → List Int → Option String × StateStore
  | s, [] => (none, s)
  | s, height :: heights =>
    match loadBlockEventsExport s.responses height with
    | .error _ => cleanupBlockEvents s heights
    | .ok events =>
      match s.applyBlockEventsExport (cleared height events) with
      | .error err =>
        (some s!"failed to save modified finalize block response at height {height}: {err}", s)
      | .ok s' => cleanupBlockEvents s' heights

/-- One record of the file. -/
def importOne (s : StateStore) (events : BlockEventsExport) : StateStore :=
  match s.applyBlockEventsExport events with
  | .error _ => s
  | .ok s' => s'

def importBlockEvents (s : StateStore) (json : Json) (data : List UInt8) :
    Option String × StateStore :=
  match json.unmarshal data with
  | .error err => (some s!"failed to unmarshal import data: {err}", s)
  | .ok exports => (none, exports.foldl importOne s)

/-- The record has its height, and its response in everything but events. -/
def RecordKept (s s' : StateStore) : Prop :=
  s'.lastHeight = s.lastHeight ∧ s'.lastResponse.withoutEvents = s.lastResponse.withoutEvents

/-- There is a response at the height. -/
def loads (s : StateStore) (height : Int) : Bool :=
  match s.responses height with
  | .ok (some _) => true
  | _ => false

/-- The last of the heights that has a response. -/
def lastLoaded (s : StateStore) (heights : List Int) : Option Int :=
  (heights.filter s.loads).getLast?

/-! ## One height -/

theorem withEvents_withoutEvents (resp : Response) (events : BlockEventsExport) :
    (resp.withEvents events).withoutEvents = resp.withoutEvents := by
  unfold Response.withEvents Response.withoutEvents
  simp only [Response.mk.injEq, true_and, and_true]
  apply List.ext_getElem?
  intro i
  rw [List.getElem?_map, List.getElem?_map, List.getElem?_mapIdx]
  rcases resp.txResults[i]? with _ | (_ | tx)
  · rfl
  · rfl
  · cases events.txEvents[i]? with
    | none => rfl
    | some evs => rfl

theorem loads_iff {s : StateStore} {height : Int} :
    s.loads height = true ↔ ∃ resp, s.responses height = .ok (some resp) := by
  unfold loads
  rcases s.responses height with err | (_ | resp) <;> simp

theorem loads_of_skeleton {s s' : StateStore} {height : Int}
    (h : s'.responses.skeleton height = s.responses.skeleton height) :
    s'.loads height = s.loads height := by
  unfold Store.skeleton at h
  unfold loads
  rcases hs : s.responses height with err | (_ | resp) <;>
    rcases hs' : s'.responses height with err' | (_ | resp') <;> rw [hs, hs'] at h
  all_goals first | rfl | cases h

/-- What a command does at one height: nothing without a response, and with one it saves it,
changed in events only. -/
structure Saves (height : Int) (s s' : StateStore) : Prop where
  skeleton : ∀ x, s'.responses.skeleton x = s.responses.skeleton x
  skipped : s.loads height = false → s' = s
  recorded : s.loads height = true → s'.lastHeight = height ∧
    s.responses.skeleton height = .ok (some s'.lastResponse.withoutEvents)

theorem saves_nothing {s : StateStore} {height : Int} (h : s.loads height = false) :
    Saves height s s where
  skeleton _ := rfl
  skipped _ := rfl
  recorded hl := by
    rw [h] at hl
    cases hl

theorem saves_of_response {s : StateStore} {height : Int} {resp other : Response}
    (hresp : s.responses height = .ok (some resp))
    (hother : other.withoutEvents = resp.withoutEvents) :
    Saves height s (s.saveFinalizeBlockResponse height other) where
  skeleton x := by
    unfold saveFinalizeBlockResponse Store.saveFinalizeBlockResponse Store.skeleton
    by_cases hx : x = height
    · rw [hx]
      simp only [Function.update_self, hresp]
      exact congrArg (fun r => Except.ok (some r)) hother
    · simp only [Function.update_of_ne hx]
  skipped h := by
    rw [loads_iff.mpr ⟨resp, hresp⟩] at h
    cases h
  recorded _ := by
    refine ⟨rfl, ?_⟩
    rw [skeleton_of_response hresp, ← hother]
    rfl

theorem applyBlockEventsExport_error {s : StateStore} {events : BlockEventsExport} {err : String}
    (h : s.applyBlockEventsExport events = .error err) : s.loads events.height = false := by
  by_contra hl
  obtain ⟨resp, hresp⟩ := loads_iff.mp (by simpa using hl)
  unfold applyBlockEventsExport at h
  rw [response_ok.mpr hresp] at h
  cases h

theorem applyBlockEventsExport_ok {s s' : StateStore} {events : BlockEventsExport}
    (h : s.applyBlockEventsExport events = .ok s') :
    ∃ resp, s.responses events.height = .ok (some resp) ∧
      s' = s.saveFinalizeBlockResponse events.height (resp.withEvents events) := by
  unfold applyBlockEventsExport at h
  simp only [bind_ok, response_ok, pure_ok] at h
  obtain ⟨resp, hresp, hs'⟩ := h
  exact ⟨resp, hresp, hs'.symm⟩

theorem importOne_saves (s : StateStore) (events : BlockEventsExport) :
    Saves events.height s (s.importOne events) := by
  unfold importOne
  split
  case h_1 err h =>
    have hno := applyBlockEventsExport_error h
    exact saves_nothing hno
  case h_2 s' h =>
    obtain ⟨resp, hresp, hs'⟩ := applyBlockEventsExport_ok h
    rw [hs']
    exact saves_of_response hresp (withEvents_withoutEvents resp events)

/-- Clearing one height, as the loop of the cleanup does. -/
def clearOne (s : StateStore) (height : Int) : StateStore :=
  match loadBlockEventsExport s.responses height with
  | .error _ => s
  | .ok events => s.importOne (cleared height events)

theorem clearOne_saves (s : StateStore) (height : Int) : Saves height s (s.clearOne height) := by
  unfold clearOne
  split
  case h_1 err h =>
    apply saves_nothing
    by_contra hl
    obtain ⟨resp, hresp⟩ := loads_iff.mp (by simpa using hl)
    rw [loadBlockEventsExport_ok.mpr ⟨resp, hresp, rfl⟩] at h
    cases h
  case h_2 events h => exact importOne_saves s (cleared height events)

/-- The cleanup never stops early: what loads is saved. -/
theorem cleanupBlockEvents_foldl (s : StateStore) (heights : List Int) :
    s.cleanupBlockEvents heights = (none, heights.foldl clearOne s) := by
  induction heights generalizing s with
  | nil => rfl
  | cons height heights ih =>
    rw [cleanupBlockEvents, List.foldl_cons, clearOne]
    cases hload : loadBlockEventsExport s.responses height with
    | error err => exact ih s
    | ok events =>
      simp only
      rw [importOne]
      cases happly : s.applyBlockEventsExport (cleared height events) with
      | error err =>
        obtain ⟨resp, hresp, _⟩ := loadBlockEventsExport_ok.mp hload
        have hno : s.loads height = false := applyBlockEventsExport_error happly
        rw [loads_iff.mpr ⟨resp, hresp⟩] at hno
        cases hno
      | ok s' => exact ih s'

/-! ## All heights -/

theorem lastLoaded_congr {s s' : StateStore}
    (h : ∀ x, s'.responses.skeleton x = s.responses.skeleton x) (heights : List Int) :
    s'.lastLoaded heights = s.lastLoaded heights := by
  unfold lastLoaded
  congr 1
  apply List.filter_congr
  intro x _
  exact loads_of_skeleton (h x)

theorem lastLoaded_cons (s : StateStore) (height : Int) (heights : List Int) :
    s.lastLoaded (height :: heights) =
      (s.lastLoaded heights).or (if s.loads height then some height else none) := by
  unfold lastLoaded
  by_cases hl : s.loads height = true
  · rw [List.filter_cons_of_pos hl, if_pos hl, List.getLast?_cons]
    cases (heights.filter s.loads).getLast? <;> rfl
  · rw [List.filter_cons_of_neg hl, if_neg hl, Option.or_none]

/-- After all heights the record is that of the last one that was saved, if any. -/
theorem Saves.run {α : Type} {height : α → Int} {step : StateStore → α → StateStore}
    (hstep : ∀ s a, Saves (height a) s (step s a)) (s : StateStore) (as : List α) :
    (∀ x, (as.foldl step s).responses.skeleton x = s.responses.skeleton x) ∧
      match s.lastLoaded (as.map height) with
      | none => (as.foldl step s).lastHeight = s.lastHeight ∧
          (as.foldl step s).lastResponse = s.lastResponse
      | some h => (as.foldl step s).lastHeight = h ∧
          s.responses.skeleton h = .ok (some (as.foldl step s).lastResponse.withoutEvents) := by
  induction as generalizing s with
  | nil => exact ⟨fun _ => rfl, rfl, rfl⟩
  | cons a as ih =>
    have hsaves := hstep s a
    obtain ⟨hskeleton, hrecord⟩ := ih (step s a)
    rw [lastLoaded_congr hsaves.skeleton] at hrecord
    rw [List.foldl_cons, List.map_cons, lastLoaded_cons]
    refine ⟨fun x => (hskeleton x).trans (hsaves.skeleton x), ?_⟩
    -- a later height that loads overwrites what this one saves
    cases hlast : s.lastLoaded (as.map height) with
    | some h =>
      rw [hlast] at hrecord
      simp only [Option.some_or]
      rw [← hsaves.skeleton h]
      exact hrecord
    | none =>
      rw [hlast] at hrecord
      simp only at hrecord
      rw [Option.none_or, hrecord.1, hrecord.2]
      cases hl : s.loads (height a) with
      | true => exact hsaves.recorded hl
      | false =>
        rw [hsaves.skipped hl]
        exact ⟨rfl, rfl⟩

/-- The last height that has a response is the record's own, with the record's response in
everything but events; or no height has one. -/
def SavesRecordLast (s : StateStore) (heights : List Int) : Prop :=
  ∀ h, s.lastLoaded heights = some h →
    h = s.lastHeight ∧ s.responses.skeleton h = .ok (some s.lastResponse.withoutEvents)

theorem Saves.run_kept {α : Type} {height : α → Int} {step : StateStore → α → StateStore}
    (hstep : ∀ s a, Saves (height a) s (step s a)) (s : StateStore) (as : List α) :
    s.RecordKept (as.foldl step s) ↔ s.SavesRecordLast (as.map height) := by
  obtain ⟨_, hrecord⟩ := Saves.run hstep s as
  unfold RecordKept SavesRecordLast
  cases hlast : s.lastLoaded (as.map height) with
  | none =>
    rw [hlast] at hrecord
    simp only at hrecord
    simp [hrecord]
  | some h =>
    rw [hlast] at hrecord
    simp only at hrecord
    obtain ⟨hheight, hskeleton⟩ := hrecord
    simp [hheight, hskeleton]

/-! ## The responses -/

theorem importOne_responses (s : StateStore) (exports : List BlockEventsExport) :
    (exports.foldl importOne s).responses = applyAll s.responses exports := by
  induction exports generalizing s with
  | nil => rfl
  | cons events exports ih =>
    rw [List.foldl_cons, ih]
    unfold applyAll
    rw [List.foldl_cons]
    congr 1
    unfold importOne applyBlockEventsExport BlockEvents.applyBlockEventsExport
    cases s.responses.response events.height with
    | error err => rfl
    | ok resp => rfl

theorem import_responses (json : Json) (s : StateStore) (data : List UInt8) :
    (s.importBlockEvents json data).1 = (BlockEvents.importBlockEvents json s.responses data).1 ∧
      (s.importBlockEvents json data).2.responses =
        (BlockEvents.importBlockEvents json s.responses data).2 := by
  unfold importBlockEvents BlockEvents.importBlockEvents
  cases json.unmarshal data with
  | error err => exact ⟨rfl, rfl⟩
  | ok exports => exact ⟨rfl, importOne_responses s exports⟩

theorem cleanup_responses (s : StateStore) (heights : List Int) :
    (s.cleanupBlockEvents heights).1 = (BlockEvents.cleanupBlockEvents s.responses heights).1 ∧
      (s.cleanupBlockEvents heights).2.responses =
        (BlockEvents.cleanupBlockEvents s.responses heights).2 := by
  induction heights generalizing s with
  | nil => exact ⟨rfl, rfl⟩
  | cons height heights ih =>
    rw [cleanupBlockEvents, BlockEvents.cleanupBlockEvents]
    cases loadBlockEventsExport s.responses height with
    | error err => exact ih s
    | ok events =>
      simp only
      unfold applyBlockEventsExport BlockEvents.applyBlockEventsExport
      cases s.responses.response (cleared height events).height with
      | error err => exact ⟨rfl, rfl⟩
      | ok resp => exact ih _

/-! ## The commands -/

/-- **The record survives exactly when it is written last.** Of a cleanup and of an import, whatever
heights are listed: the recovery record keeps its height and, but for events, its response if and
only if no listed height has a response, or the last one that has is the height of the record and
has its response there, but for events. A file that does not parse changes nothing. -/
theorem recovery_kept_iff (json : Json) (s : StateStore) :
    (∀ heights, s.RecordKept (s.cleanupBlockEvents heights).2 ↔ s.SavesRecordLast heights) ∧
    (∀ data exports, json.unmarshal data = .ok exports →
      (s.RecordKept (s.importBlockEvents json data).2 ↔
        s.SavesRecordLast (exports.map BlockEventsExport.height))) ∧
    (∀ data err, json.unmarshal data = .error err →
      (s.importBlockEvents json data).2 = s) := by
  refine ⟨?_, ?_, ?_⟩
  · intro heights
    have hclear : ∀ s height, Saves (id height) s (clearOne s height) := clearOne_saves
    have hrun := Saves.run_kept hclear s heights
    rw [List.map_id] at hrun
    rw [cleanupBlockEvents_foldl]
    exact hrun
  · intro data exports hdata
    rw [importBlockEvents, hdata]
    exact Saves.run_kept importOne_saves s exports
  · intro data err hdata
    rw [importBlockEvents, hdata]

/-- Blocks 5 and 9, the record being that of block 9. -/
def twoBlocks : StateStore where
  responses height :=
    if height = 5 ∨ height = 9 then .ok (some smallResponse)
    else .error s!"could not find results for height #{height}"
  lastHeight := 9
  lastResponse := smallResponse

theorem cleanup_loses_record :
    ¬ ∀ (s : StateStore) (heights : List Int), s.RecordKept (s.cleanupBlockEvents heights).2 := by
  intro h
  have hheight : (5 : Int) = 9 := (h twoBlocks [5]).1
  cases hheight

end StateStore

end Ark.BlockEvents
