import Mathlib.Logic.Function.Basic
import Ark.Lib.Checks

/- The commands on block events (`cmd/arkd/cmd/cleanup_block.go`): export the events of
   some blocks to a file, clear them in the state store, and restore them from the file.

   A store is what loading the response of each height gives: an error, nil, or a
   response; saving a response is loaded again as it was saved. A nil event list and an
   empty one are the same list. The file is what `json` makes of the exported records.
   What the commands print is left out, and so is the reading of their arguments.

   Correspondence (Go ↔ Lean):
     `stateStore.LoadFinalizeBlockResponse`  ↔ `Store.loadFinalizeBlockResponse`
     `stateStore.SaveFinalizeBlockResponse`  ↔ `Store.saveFinalizeBlockResponse`
     `json.MarshalIndent`, `json.Unmarshal`  ↔ `Json`
     the loop of `importBlockEvents`         ↔ `applyAll` -/
namespace Ark.BlockEvents

/-! ## Responses -/

structure EventAttribute where
  key : String
  value : String
  index : Bool
  deriving DecidableEq

structure Event where
  type : String
  attributes : List EventAttribute
  deriving DecidableEq

structure ExecTxResult where
  code : UInt32
  data : List UInt8
  log : String
  info : String
  gasWanted : Int
  gasUsed : Int
  events : List Event
  codespace : String
  deriving DecidableEq

structure ValidatorUpdate where
  pubKey : List UInt8
  power : Int
  deriving DecidableEq

/-- `ResponseFinalizeBlock`; the consensus parameters are kept encoded. -/
structure Response where
  events : List Event
  txResults : List (Option ExecTxResult)
  validatorUpdates : List ValidatorUpdate
  consensusParamUpdates : Option (List UInt8)
  appHash : List UInt8
  deriving DecidableEq

structure BlockEventsExport where
  height : Int
  blockEvents : List Event
  txEvents : List (List Event)
  deriving DecidableEq

/-! ## The store -/

abbrev Store := Int → Except String (Option Response)

namespace Store

def loadFinalizeBlockResponse (s : Store) (height : Int) : Except String (Option Response) :=
  s height

def saveFinalizeBlockResponse (s : Store) (height : Int) (resp : Response) : Store :=
  Function.update s height (.ok (some resp))

/-- A response that is there. -/
def response (s : Store) (height : Int) : Except String Response :=
  match s.loadFinalizeBlockResponse height with
  | .error err => .error err
  | .ok none => .error s!"no finalize block response found at height {height}"
  | .ok (some resp) => .ok resp

end Store

def loadBlockEventsExport (s : Store) (height : Int) : Except String BlockEventsExport := do
  let resp ← s.response height
  pure ⟨height, resp.events, resp.txResults.map fun tx =>
    match tx with
    | none => []
    | some tx => tx.events⟩

/-- The response with these events in place of its own, as far as there are any. -/
def Response.withEvents (resp : Response) (events : BlockEventsExport) : Response :=
  { resp with
    events := events.blockEvents
    txResults := resp.txResults.mapIdx fun i tx =>
      match tx, events.txEvents[i]? with
      | some tx, some evs => some { tx with events := evs }
      | tx, _ => tx }

def applyBlockEventsExport (s : Store) (events : BlockEventsExport) : Except String Store := do
  let resp ← s.response events.height
  pure (s.saveFinalizeBlockResponse events.height (resp.withEvents events))

/-! ## The commands -/

/-- How exported records are written to a file and read from it. -/
structure Json where
  marshal : List BlockEventsExport → Except String (List UInt8)
  unmarshal : List UInt8 → Except String (List BlockEventsExport)

section
variable (json : Json)

/-- The records of the heights that load. -/
def exports (s : Store) (heights : List Int) : List BlockEventsExport :=
  heights.filterMap fun height => (loadBlockEventsExport s height).toOption

/-- The file. -/
def exportBlockEvents (s : Store) (heights : List Int) : Except String (List UInt8) :=
  match json.marshal (exports s heights) with
  | .error err => .error s!"failed to marshal export data: {err}"
  | .ok data => .ok data

/-- An export without events. -/
def cleared (height : Int) (events : BlockEventsExport) : BlockEventsExport :=
  ⟨height, [], List.replicate events.txEvents.length []⟩

/-- An error, if any, and the store at the return. -/
def cleanupBlockEvents : Store → List Int → Option String × Store
  | s, [] => (none, s)
  | s, height :: heights =>
    match loadBlockEventsExport s height with
    | .error _ => cleanupBlockEvents s heights
    | .ok events =>
      match applyBlockEventsExport s (cleared height events) with
      | .error err =>
        (some s!"failed to save modified finalize block response at height {height}: {err}", s)
      | .ok s' => cleanupBlockEvents s' heights

def applyAll (s : Store) (exports : List BlockEventsExport) : Store :=
  exports.foldl (fun s events =>
    match applyBlockEventsExport s events with
    | .error _ => s
    | .ok s' => s') s

def importBlockEvents (s : Store) (data : List UInt8) : Option String × Store :=
  match json.unmarshal data with
  | .error err => (some s!"failed to unmarshal import data: {err}", s)
  | .ok exports => (none, applyAll s exports)

end

/-! ## The results hash -/

/-- What a result contributes to the hash of a block's results. -/
def ExecTxResult.deterministic (tx : ExecTxResult) : UInt32 × List UInt8 × Int × Int :=
  (tx.code, tx.data, tx.gasWanted, tx.gasUsed)

/-- The last-results hash, for a hash of a list. -/
def Response.lastResultsHash (hash : List (Option (UInt32 × List UInt8 × Int × Int)) → List UInt8)
    (resp : Response) : List UInt8 :=
  hash (resp.txResults.map (Option.map ExecTxResult.deterministic))

end Ark.BlockEvents
