import Ark.Lib.Checks
import Ark.Lib.KeyedMap
import Ark.Sdk

/- The denommetadata module: a write path to the bank's denom metadata that corrects and
   does not create.

   `validateBasic` checks a message alone, `setDenomMetadata` goes through its entries:
   each must name a denom that has metadata, is written at once, and is announced by an
   event. It returns at the first entry that fails, with the entries before it
   written; its caller runs it in a cached store, which it drops on an error
   (`execute`).

   The bank's own check of an entry and the encoding of an event are not this module's;
   they are fields of `Outside`. The log line of an entry is left out.

   Correspondence (Go ↔ Lean):
     `msgServer.SetDenomMetadata`         ↔ `setDenomMetadata`, its loop `setEntries`
     `MsgSetDenomMetadata.ValidateBasic`  ↔ `validateBasic`, its loop `validateEntries`
     `bankKeeper.GetDenomMetaData`        ↔ `State.getDenomMetaData`
     `bankKeeper.SetDenomMetaData`        ↔ `State.setDenomMetaData` -/
namespace Ark.DenomMetadata
open Ark.Sdk Ark.Lib Ark.Lib.Checks

/-! ## Errors -/

def moduleName : String := "denommetadata"

def errInvalidAuthority : RootError := ⟨moduleName, 2, "invalid authority"⟩
def errEmptyMetadata : RootError := ⟨moduleName, 3, "no metadata provided"⟩
def errDenomNotFound : RootError := ⟨moduleName, 4, "denomination does not exist on this chain"⟩
def errInvalidMetadata : RootError := ⟨moduleName, 5, "invalid denom metadata"⟩

/-! ## Metadata -/

structure DenomUnit where
  denom : String
  exponent : UInt32
  aliases : List String
  deriving DecidableEq

/-- `banktypes.Metadata`. -/
structure Metadata where
  description : String
  denomUnits : List DenomUnit
  base : String
  display : String
  name : String
  symbol : String
  uri : String
  uriHash : String
  deriving DecidableEq

structure MsgSetDenomMetadata where
  authority : String
  metadata : List Metadata

structure EventSetDenomMetadata where
  denom : String
  display : String

/-- What the bank keeps, and the events of the block. -/
structure State where
  denomMetadata : String → Option Metadata
  events : List EventSetDenomMetadata

namespace State

def getDenomMetaData (s : State) (denom : String) : Option Metadata := s.denomMetadata denom

def setDenomMetaData (s : State) (md : Metadata) : State :=
  { s with denomMetadata := KeyedMap.put Metadata.base s.denomMetadata md }

def emit (s : State) (event : EventSetDenomMetadata) : State :=
  { s with events := s.events ++ [event] }

end State

/-- What the code takes from others. -/
structure Outside where
  codec : AddressCodec
  /-- `Metadata.Validate`. -/
  validate : Metadata → Option Err
  /-- `EmitTypedEvent`, when it fails. -/
  emitTypedEvent : EventSetDenomMetadata → Option Err
  /-- `strconv.IsPrint`. -/
  isPrint : Char → Bool

section
variable (outside : Outside)

/-! ## ValidateBasic -/

/-- The entries from the `i`-th on; `seen` are the bases of those before. -/
def validateEntries : Nat → List String → List Metadata → Except Err Unit
  | _, _, [] => pure ()
  | i, seen, md :: rest => do
    match outside.validate md with
    | some err => throw (.wrap errInvalidMetadata s!"metadata[{i}] ({md.base}): {err.text}")
    | none => pure ()
    let denom := quote outside.isPrint md.base
    failIf (md.base ∈ seen) (.wrap errInvalidMetadata
      s!"metadata[{i}]: duplicate entry for denom {denom} in the same message")
    validateEntries (i + 1) (md.base :: seen) rest

def validateBasic (msg : MsgSetDenomMetadata) : Except Err Unit := do
  match outside.codec.accAddressFromBech32 msg.authority with
  | .error err =>
    let authority := quote outside.isPrint msg.authority
    throw (.wrap errInvalidAuthority s!"invalid authority address {authority}: {err.text}")
  | .ok _ => pure ()
  failIf (msg.metadata.length = 0) (.ofRoot errEmptyMetadata)
  validateEntries outside 0 [] msg.metadata

/-! ## SetDenomMetadata -/

def denomNotFound (denom : String) : Err :=
  let text := quote outside.isPrint denom
  .wrap errDenomNotFound (s!"denom {text} has no existing metadata on this chain; this module " ++
    "corrects metadata for denominations that exist, it does not create them")

def setEntries : List Metadata → State → Option Err × State
  | [], s => (none, s)
  | md :: rest, s =>
    match s.getDenomMetaData md.base with
    | none => (some (denomNotFound outside md.base), s)
    | some _ =>
      -- from here on an error leaves this entry written
      let s := s.setDenomMetaData md
      let event : EventSetDenomMetadata := ⟨md.base, md.display⟩
      match outside.emitTypedEvent event with
      | some err => (some err, s)
      | none => setEntries rest (s.emit event)

-- `authority` is the keeper's
variable (authority : String)

/-- An error, if any, and the state at the return. -/
def setDenomMetadata (msg : MsgSetDenomMetadata) (s : State) : Option Err × State :=
  if authority ≠ msg.authority then
    (some (.wrap errInvalidAuthority s!"expected {authority}, got {msg.authority}"), s)
  else setEntries outside msg.metadata s

/-- The cached store is written back only when there is no error. -/
def execute (s : State) (msg : MsgSetDenomMetadata) : State :=
  match setDenomMetadata outside authority msg s with
  | (none, s') => s'
  | (some _, _) => s

/-- Messages from any senders, one after the other. -/
def run (s : State) (msgs : List MsgSetDenomMetadata) : State :=
  msgs.foldl (execute outside authority) s

end
end Ark.DenomMetadata
