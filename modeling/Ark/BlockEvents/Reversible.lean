import Mathlib.Data.List.Basic
import Ark.BlockEvents

/- Export, cleanup and import of block events, one after the other.

   A cleanup takes the events out of the responses it loads and leaves the rest
   (`withoutEvents`, `cleanupBlockEvents_eq`). The export kept them in the order of the
   transactions, nil ones included, so that putting them back gives the response that was
   exported, whichever heights were cleared in between (`withEvents_restores`,
   `applyAll_eq`). A height that is listed twice is cleared twice and restored twice; a
   height that does not load is left out of the file, and is not cleared. -/
namespace Ark.BlockEvents
open Ark.Lib.Checks

/-! ## Everything but events -/

def ExecTxResult.withoutEvents (tx : ExecTxResult) : ExecTxResult := { tx with events := [] }

def Response.withoutEvents (resp : Response) : Response :=
  { resp with events := [], txResults := resp.txResults.map (Option.map ExecTxResult.withoutEvents) }

/-- What loading a height gives, apart from events. -/
def Store.skeleton (s : Store) (height : Int) : Except String (Option Response) :=
  (s height).map (Option.map Response.withoutEvents)

/-- The events of a response, as they are exported. -/
def Response.export (height : Int) (resp : Response) : BlockEventsExport :=
  ⟨height, resp.events, resp.txResults.map fun tx =>
    match tx with
    | none => []
    | some tx => tx.events⟩

section
variable {s s' : Store} {height : Int} {resp : Response} {events : BlockEventsExport}

/-! ## One height -/

theorem response_ok : s.response height = .ok resp ↔ s height = .ok (some resp) := by
  unfold Store.response Store.loadFinalizeBlockResponse
  rcases hs : s height with err | (_ | r)
  · simp
  · simp
  · simp

theorem loadBlockEventsExport_ok : loadBlockEventsExport s height = .ok events ↔
    ∃ resp, s height = .ok (some resp) ∧ events = resp.export height := by
  unfold loadBlockEventsExport
  simp only [bind_ok, response_ok, pure_ok]
  apply exists_congr
  intro resp
  rw [eq_comm (a := events)]
  rfl

/-- A response without events stays as it is. -/
theorem withoutEvents_idem : resp.withoutEvents.withoutEvents = resp.withoutEvents := by
  have htx : ExecTxResult.withoutEvents ∘ ExecTxResult.withoutEvents =
      ExecTxResult.withoutEvents := rfl
  unfold Response.withoutEvents
  simp only [List.map_map, Option.map_comp_map, htx]

/-- Clearing takes out the events. -/
theorem withEvents_cleared :
    resp.withEvents (cleared height (resp.export height)) = resp.withoutEvents := by
  unfold Response.withEvents Response.withoutEvents cleared Response.export
  simp only [Response.mk.injEq, true_and, and_true]
  apply List.ext_getElem?
  intro i
  rw [List.getElem?_mapIdx, List.getElem?_map, List.length_map]
  cases htx : resp.txResults[i]? with
  | none => rfl
  | some tx =>
    have hi : i < resp.txResults.length := (List.getElem?_eq_some_iff.mp htx).1
    cases tx with
    | none => rfl
    | some tx => simp [hi, ExecTxResult.withoutEvents]

/-- The exported events, put into a response that differs from the exported one in events only. -/
theorem withEvents_restores {other : Response} (h : other.withoutEvents = resp.withoutEvents) :
    other.withEvents (resp.export height) = resp := by
  unfold Response.withoutEvents at h
  simp only [Response.mk.injEq, true_and] at h
  obtain ⟨htxs, hrest⟩ := h
  have htx : (other.withEvents (resp.export height)).txResults = resp.txResults := by
    unfold Response.withEvents Response.export
    apply List.ext_getElem?
    intro i
    have hi := congrArg (fun txs : List (Option ExecTxResult) => txs[i]?) htxs
    simp only [List.getElem?_map] at hi
    rw [List.getElem?_mapIdx, List.getElem?_map]
    -- both have a result at the index, both nil, or neither has one
    rcases ho : other.txResults[i]? with _ | (_ | tx) <;>
      rcases hr : resp.txResults[i]? with _ | (_ | tx') <;> rw [ho, hr] at hi
    · rfl
    · cases hi
    · cases hi
    · cases hi
    · rfl
    · cases hi
    · cases hi
    · cases hi
    · have hsame : tx.withoutEvents = tx'.withoutEvents := by simpa using hi
      unfold ExecTxResult.withoutEvents at hsame
      cases tx with
      | mk => cases tx' with
        | mk => simpa using hsame
  obtain ⟨hvalidators, hparams, happHash⟩ := hrest
  cases resp with
  | mk => exact Response.mk.injEq .. |>.mpr ⟨rfl, htx, hvalidators, hparams, happHash⟩

theorem skeleton_of_response (h : s height = .ok (some resp)) :
    s.skeleton height = .ok (some resp.withoutEvents) := by
  unfold Store.skeleton
  rw [h]
  rfl

theorem response_of_skeleton (h : s.skeleton height = .ok (some resp)) :
    ∃ other, s height = .ok (some other) ∧ other.withoutEvents = resp := by
  unfold Store.skeleton at h
  rcases hs : s height with err | (_ | other)
  · rw [hs] at h
    cases h
  · rw [hs] at h
    cases h
  · rw [hs] at h
    refine ⟨other, rfl, ?_⟩
    simpa [Except.map] using h

/-- A height that does not load has no events. -/
theorem skeleton_of_error {err : String} (h : loadBlockEventsExport s height = .error err) :
    s.skeleton height = s height := by
  unfold Store.skeleton
  rcases hs : s height with e | (_ | resp)
  · rfl
  · rfl
  · rw [loadBlockEventsExport_ok.mpr ⟨resp, hs, rfl⟩] at h
    cases h

/-! ## Cleanup -/

/-- The store with the events of some heights taken out. -/
def Store.clear (s : Store) (heights : List Int) : Store :=
  fun height => if height ∈ heights then s.skeleton height else s height

theorem clear_skeleton (heights : List Int) :
    (s.clear heights).skeleton height = s.skeleton height := by
  unfold Store.skeleton Store.clear
  split
  · unfold Store.skeleton
    rcases s height with err | (_ | resp)
    · rfl
    · rfl
    · exact congrArg (fun r => Except.ok (some r)) withoutEvents_idem
  · rfl

theorem applyBlockEventsExport_response (h : s events.height = .ok (some resp)) :
    applyBlockEventsExport s events =
      .ok (s.saveFinalizeBlockResponse events.height (resp.withEvents events)) := by
  unfold applyBlockEventsExport
  rw [response_ok.mpr h]
  rfl

theorem clear_cons (h : Int) (heights : List Int) :
    (s.clear [h]).clear heights = s.clear (h :: heights) := by
  funext x
  show (if x ∈ heights then (s.clear [h]).skeleton x else s.clear [h] x) = s.clear (h :: heights) x
  rw [clear_skeleton]
  unfold Store.clear
  by_cases hx : x = h
  · simp [hx]
  · simp [hx]

theorem clear_singleton_of_error {err : String}
    (h : loadBlockEventsExport s height = .error err) : s.clear [height] = s := by
  funext x
  unfold Store.clear
  by_cases hx : x = height
  · rw [hx, skeleton_of_error h]
    simp
  · simp [hx]

/-- Saving the response with its events cleared takes them out. -/
theorem save_cleared (h : s height = .ok (some resp)) :
    s.saveFinalizeBlockResponse height resp.withoutEvents = s.clear [height] := by
  funext x
  unfold Store.saveFinalizeBlockResponse Store.clear
  by_cases hx : x = height
  · rw [hx, Function.update_self, if_pos List.mem_cons_self, skeleton_of_response h]
  · rw [Function.update_of_ne hx, if_neg (by simp [hx])]

theorem cleanupBlockEvents_eq (heights : List Int) :
    cleanupBlockEvents s heights = (none, s.clear heights) := by
  induction heights generalizing s with
  | nil => rfl
  | cons h heights ih =>
    rw [cleanupBlockEvents]
    cases hload : loadBlockEventsExport s h with
    | error err =>
      simp only
      rw [ih, ← clear_cons, clear_singleton_of_error hload]
    | ok events =>
      obtain ⟨resp, hresp, hevents⟩ := loadBlockEventsExport_ok.mp hload
      have happly : applyBlockEventsExport s (cleared h events) = .ok (s.clear [h]) := by
        have hheight : (cleared h events).height = h := rfl
        rw [applyBlockEventsExport_response (hheight.symm ▸ hresp), hheight, hevents,
          withEvents_cleared, save_cleared hresp]
      simp only [happly, ih, clear_cons]

/-! ## Import -/

/-- Records of a store put the listed heights of a store that differs in events only back. -/
theorem applyAll_eq {exports : List BlockEventsExport}
    (hexports : ∀ events ∈ exports, loadBlockEventsExport s events.height = .ok events)
    (hs' : ∀ height, s'.skeleton height = s.skeleton height) :
    applyAll s' exports = fun height =>
      if height ∈ exports.map BlockEventsExport.height then s height else s' height := by
  induction exports generalizing s' with
  | nil => rfl
  | cons events exports ih =>
    obtain ⟨hload, hexports⟩ := List.forall_mem_cons.mp hexports
    obtain ⟨resp, hresp, hevents⟩ := loadBlockEventsExport_ok.mp hload
    have hskeleton := hs' events.height
    rw [skeleton_of_response hresp] at hskeleton
    obtain ⟨other, hother, hsame⟩ := response_of_skeleton hskeleton
    have hrestored : other.withEvents events = resp := by
      rw [hevents]
      exact withEvents_restores hsame
    have hstep : applyAll s' (events :: exports) =
        applyAll (Function.update s' events.height (s events.height)) exports := by
      unfold applyAll
      rw [List.foldl_cons, applyBlockEventsExport_response hother, hrestored, hresp]
      rfl
    -- the height is restored by its record, and stays so if it is listed again
    rw [hstep, ih hexports]
    · funext x
      rw [List.map_cons]
      by_cases hx : x = events.height
      · rw [hx, Function.update_self]
        simp
      · rw [Function.update_of_ne hx]
        simp [hx]
    · intro x
      by_cases hx : x = events.height
      · unfold Store.skeleton
        rw [hx, Function.update_self]
      · unfold Store.skeleton
        rw [Function.update_of_ne hx]
        exact hs' x

/-! ## Stages -/

/-- The results hash does not read events. -/
theorem lastResultsHash_withoutEvents
    (hash : List (Option (UInt32 × List UInt8 × Int × Int)) → List UInt8) :
    resp.withoutEvents.lastResultsHash hash = resp.lastResultsHash hash := by
  have hcomp : ExecTxResult.deterministic ∘ ExecTxResult.withoutEvents =
      ExecTxResult.deterministic := rfl
  unfold Response.lastResultsHash Response.withoutEvents
  simp only [List.map_map, Option.map_comp_map, hcomp]

/-- A store in which nothing but events of the given heights has changed. -/
structure SameButEvents (heights : List Int) (s s' : Store) : Prop where
  skeleton : ∀ height, s'.skeleton height = s.skeleton height
  untouched : ∀ height, height ∉ heights → s' height = s height
  lastResultsHash : ∀ hash height,
    (s' height).map (Option.map (Response.lastResultsHash hash)) =
      (s height).map (Option.map (Response.lastResultsHash hash))

theorem SameButEvents.of_skeleton {heights : List Int}
    (hskeleton : ∀ height, s'.skeleton height = s.skeleton height)
    (huntouched : ∀ height, height ∉ heights → s' height = s height) :
    SameButEvents heights s s' where
  skeleton := hskeleton
  untouched := huntouched
  lastResultsHash hash height := by
    have hread : ∀ u : Store, (u height).map (Option.map (Response.lastResultsHash hash)) =
        (u.skeleton height).map (Option.map (Response.lastResultsHash hash)) := by
      intro u
      unfold Store.skeleton
      rcases u height with err | (_ | resp)
      · rfl
      · rfl
      · exact congrArg (fun r => Except.ok (some r)) (lastResultsHash_withoutEvents hash).symm
    rw [hread s', hread s, hskeleton height]

theorem mem_exports {heights : List Int} : events ∈ exports s heights ↔
    events.height ∈ heights ∧ loadBlockEventsExport s events.height = .ok events := by
  unfold exports
  rw [List.mem_filterMap]
  constructor
  · intro ⟨h, hmem, hload⟩
    cases he : loadBlockEventsExport s h with
    | error err =>
      rw [he] at hload
      cases hload
    | ok e =>
      rw [he] at hload
      cases hload
      -- a record carries the height it was loaded from
      obtain ⟨resp, _, hevents⟩ := loadBlockEventsExport_ok.mp he
      have hheight : events.height = h := by rw [hevents]; rfl
      rw [hheight]
      exact ⟨hmem, he⟩
  · intro ⟨hmem, hload⟩
    refine ⟨events.height, hmem, ?_⟩
    rw [hload]
    rfl

theorem clear_sameButEvents {heights pre : List Int} (hpre : pre <+: heights) :
    SameButEvents heights s (s.clear pre) := by
  apply SameButEvents.of_skeleton
  · intro height
    exact clear_skeleton pre
  · intro height hno
    exact if_neg fun hin => hno (hpre.subset hin)

theorem applyAll_sameButEvents {heights : List Int} {pre : List BlockEventsExport}
    (hpre : pre <+: exports s heights) :
    SameButEvents heights s (applyAll (s.clear heights) pre) := by
  have hload : ∀ e ∈ pre, loadBlockEventsExport s e.height = .ok e := by
    intro e he
    exact (mem_exports.mp (hpre.subset he)).2
  rw [applyAll_eq hload fun _ => clear_skeleton heights]
  apply SameButEvents.of_skeleton
  · intro height
    show ((if height ∈ pre.map BlockEventsExport.height then s height
      else s.clear heights height).map (Option.map Response.withoutEvents)) = s.skeleton height
    split
    · rfl
    · exact clear_skeleton heights
  · intro height hno
    show (if height ∈ pre.map BlockEventsExport.height then s height
      else s.clear heights height) = s height
    split
    · rfl
    · exact if_neg hno

/-- The records of the heights put the cleared store back. -/
theorem applyAll_clear (heights : List Int) :
    applyAll (s.clear heights) (exports s heights) = s := by
  have hload : ∀ e ∈ exports s heights, loadBlockEventsExport s e.height = .ok e := by
    intro e he
    exact (mem_exports.mp he).2
  rw [applyAll_eq hload fun _ => clear_skeleton heights]
  funext height
  split
  · rfl
  · rename_i hno
    unfold Store.clear
    split
    · rename_i hin
      -- a listed height without a record did not load
      cases he : loadBlockEventsExport s height with
      | error err => exact skeleton_of_error he
      | ok e =>
        obtain ⟨resp, _, hevents⟩ := loadBlockEventsExport_ok.mp he
        have hheight : e.height = height := by rw [hevents]; rfl
        apply absurd _ hno
        refine List.mem_map.mpr ⟨e, mem_exports.mpr ?_, hheight⟩
        rw [hheight]
        exact ⟨hin, he⟩
    · rfl

end

/-! ## The three commands -/

/-- The records survive being written to a file and read from it. -/
def Json.RoundTrips (json : Json) (records : List BlockEventsExport) : Prop :=
  ∃ data, json.marshal records = .ok data ∧ json.unmarshal data = .ok records

/-- Export, cleanup and import give the store back, and at every stage in between nothing but
events of listed heights has changed. -/
theorem cleanup_reversible (json : Json) (s : Store) (heights : List Int)
    (hjson : json.RoundTrips (exports s heights)) :
    ∃ data, exportBlockEvents json s heights = .ok data ∧
      (cleanupBlockEvents s heights).1 = none ∧
      importBlockEvents json (cleanupBlockEvents s heights).2 data = (none, s) ∧
      (∀ pre, pre <+: heights → SameButEvents heights s (cleanupBlockEvents s pre).2) ∧
      ∀ records, json.unmarshal data = .ok records → ∀ pre, pre <+: records →
        SameButEvents heights s (applyAll (cleanupBlockEvents s heights).2 pre) := by
  obtain ⟨data, hmarshal, hunmarshal⟩ := hjson
  refine ⟨data, ?_, ?_, ?_, ?_, ?_⟩
  · unfold exportBlockEvents
    rw [hmarshal]
  · rw [cleanupBlockEvents_eq]
  · unfold importBlockEvents
    rw [hunmarshal, cleanupBlockEvents_eq]
    simp only
    rw [applyAll_clear]
  · intro pre hpre
    rw [cleanupBlockEvents_eq]
    exact clear_sameButEvents hpre
  · intro records hrecords pre hpre
    rw [hunmarshal, Except.ok.injEq] at hrecords
    rw [← hrecords] at hpre
    rw [cleanupBlockEvents_eq]
    exact applyAll_sameButEvents hpre

/-! ## A small store -/

/-- A block with one transaction, which emitted an event and had a nil result beside it. -/
def smallResponse : Response where
  events := []
  txResults := [some ⟨0, [], "", "", 100, 90, [⟨"tx", []⟩], ""⟩, none]
  validatorUpdates := []
  consensusParamUpdates := none
  appHash := [1]

/-- The store has the block at height 5 and nothing else. -/
def smallStore : Store := fun height =>
  if height = 5 then .ok (some smallResponse)
  else .error s!"could not find results for height #{height}"

/-- The file of that block. -/
def smallFile : List UInt8 :=
  (String.intercalate "\n" ["[", "  \x7b", "    \"height\": 5,", "    \"block_events\": null,",
    "    \"tx_events\": [", "      [", "        \x7b", "          \"type\": \"tx\"", "        \x7d",
    "      ],", "      null", "    ]", "  \x7d", "]"]).toUTF8.toList

/-- The encoding of that file. -/
def smallJson : Json where
  marshal records := if records = [smallResponse.export 5] then .ok smallFile
    else .error "unsupported value"
  unmarshal data := if data = smallFile then .ok [smallResponse.export 5]
    else .error "unexpected end of JSON input"

/-- Height 7 is not in the store, and height 5 is listed after it. -/
theorem cleanup_reversible_small : ∃ data, exportBlockEvents smallJson smallStore [7, 5] = .ok data ∧
    importBlockEvents smallJson (cleanupBlockEvents smallStore [7, 5]).2 data =
      (none, smallStore) := by
  have hjson : smallJson.RoundTrips (exports smallStore [7, 5]) := by
    have hexports : exports smallStore [7, 5] = [smallResponse.export 5] := rfl
    rw [hexports]
    exact ⟨smallFile, by simp [smallJson], by simp [smallJson]⟩
  obtain ⟨data, hexport, _, himport, _⟩ := cleanup_reversible smallJson smallStore [7, 5] hjson
  exact ⟨data, hexport, himport⟩

end Ark.BlockEvents
