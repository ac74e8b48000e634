import Ark.Lib.Effect
import Ark.GovTimelock.Keeper
import Ark.Sdk

/- The export for zero height (`app/export.go`), step by step.

   `prepForZeroHeightGenesis` rewrites the state of staking, distribution and slashing
   and resets the timelock at its end. The keepers it calls are not this chain's code;
   each of their calls returns a result or an error, or panics, and keeps what it wrote
   before (`Keepers`). They run on the rest of the state: the timelock keeps its three
   collections in x/gov's store, under prefixes that x/gov does not use, and no keeper that
   the export calls writes there. An iteration yields its items and ends well, with an error,
   or with a panic; no callback here stops one early.

   A step stops the export by a panic or by `log.Fatal`, which ends the process. Nothing
   else does: an error that is not looked at is dropped. The counter of the loop over the
   validators is never read and is left out.

   Correspondence (Go ↔ Lean):
     `panic(err)`, `log.Fatal(err)`              ↔ `Exit.panic`, `Exit.fatal`
     `if err != nil { panic(err) }`              ↔ `orPanic`
     `if err != nil { log.Fatal(err) }`          ↔ `orFatal`
     `_, _ =`, `_ =`, a call without a result    ↔ `let _ ← call`
     `ctx.BlockHeight()`, `WithBlockHeight`      ↔ the height that a call is given
     `iter.Close()`                              ↔ `Keepers.closeErr` -/
namespace Ark.Export
open Ark.Lib Ark.Gov Ark.GovTimelock Ark.Sdk

/-! ## State and exits -/

structure St (Rest : Type) where
  rest : Rest
  timelock : Timelock

inductive Exit where
  | panic (value : String)
  | fatal (err : String)
  deriving DecidableEq

abbrev KeeperM (Rest α : Type) := EStateM Fault Rest α

abbrev ExportM (Rest α : Type) := EStateM Exit (St Rest) α

structure Iteration (Item : Type) where
  items : List Item
  fault : Option Fault

/-! ## Records -/

-- `other` is what the export does not read

structure Validator where
  operator : String
  unbondingHeight : Int
  jailed : Bool
  other : List UInt8

structure Delegation where
  delegatorAddress : String
  validatorAddress : String
  other : List UInt8

structure Entry where
  creationHeight : Int
  other : List UInt8

structure Redelegation where
  entries : List Entry
  other : List UInt8

structure UnbondingDelegation where
  entries : List Entry
  other : List UInt8

abbrev DecCoins := List (String × Int)

structure FeePool where
  communityPool : DecCoins
  other : List UInt8

structure ValidatorSigningInfo where
  startHeight : Int
  other : List UInt8

/-- The keepers, codecs and stores that the export calls, at a block height. -/
structure Keepers (Rest : Type) where
  valAddressFromBech32 : String → Except String Address
  valAddressString : Address → String
  accAddressFromBech32 : String → Except String Address
  /-- `ValidatorAddressCodec().StringToBytes`. -/
  stringToBytes : String → Except String Address
  assertInvariants : Int → KeeperM Rest Unit
  iterateValidators : Int → Rest → Iteration Validator
  getAllDelegations : Int → KeeperM Rest (List Delegation)
  iterateRedelegations : Int → Rest → Iteration Redelegation
  setRedelegation : Int → Redelegation → KeeperM Rest Unit
  iterateUnbondingDelegations : Int → Rest → Iteration UnbondingDelegation
  setUnbondingDelegation : Int → UnbondingDelegation → KeeperM Rest Unit
  /-- The reverse iterator over the validators' keys, and what closing it returns. -/
  validatorKeys : Int → Rest → Iteration Address
  closeErr : Option String
  getValidator : Int → Address → KeeperM Rest Validator
  setValidator : Int → Validator → KeeperM Rest Unit
  applyAndReturnValidatorSetUpdates : Int → KeeperM Rest Unit
  withdrawValidatorCommission : Int → Address → KeeperM Rest Unit
  withdrawDelegationRewards : Int → Address → Address → KeeperM Rest Unit
  deleteAllValidatorSlashEvents : Int → KeeperM Rest Unit
  deleteAllValidatorHistoricalRewards : Int → KeeperM Rest Unit
  getValidatorOutstandingRewardsCoins : Int → Address → KeeperM Rest DecCoins
  getFeePool : Int → KeeperM Rest FeePool
  setFeePool : Int → FeePool → KeeperM Rest Unit
  addCoins : DecCoins → DecCoins → KeeperM Rest DecCoins
  afterValidatorCreated : Int → Address → KeeperM Rest Unit
  beforeDelegationCreated : Int → Address → Address → KeeperM Rest Unit
  afterDelegationModified : Int → Address → Address → KeeperM Rest Unit
  iterateValidatorSigningInfos : Int → Rest → Iteration (Address × ValidatorSigningInfo)
  setValidatorSigningInfo : Int → Address → ValidatorSigningInfo → KeeperM Rest Unit
  /-- How the two writes to the timelock's store fail. -/
  setActivationHeightFault : Option Fault
  clearScheduleFault : Option Fault

section
variable {Rest α Item : Type}

/-- A call of a keeper: its result, or the error it returns. -/
def call (op : KeeperM Rest α) : ExportM Rest (Except String α) := fun s =>
  match op s.rest with
  | .ok a rest => .ok (.ok a) { s with rest := rest }
  | .error (.err err) rest => .ok (.error err) { s with rest := rest }
  | .error (.panic value) rest => .error (.panic value) { s with rest := rest }

def orPanic : Except String α → ExportM Rest α
  | .ok a => pure a
  | .error err => throw (.panic err)

def orFatal : Except String α → ExportM Rest α
  | .ok a => pure a
  | .error err => throw (.fatal err)

/-- An iteration with a callback that never stops it: the error it ends with. -/
def iterate (iteration : Rest → Iteration Item) (callback : Item → ExportM Rest Unit) :
    ExportM Rest (Except String Unit) := do
  let s ← get
  let it := iteration s.rest
  it.items.forM callback
  match it.fault with
  | none => pure (.ok ())
  | some (.err err) => pure (.error err)
  | some (.panic value) => throw (.panic value)

/-- A write to the timelock's store. -/
def writeTimelock (fault : Option Fault) (f : Timelock → Timelock) :
    ExportM Rest (Except String Unit) := fun s =>
  match fault with
  | none => .ok (.ok ()) { s with timelock := f s.timelock }
  | some (.err err) => .ok (.error err) s
  | some (.panic value) => .error (.panic value) s

/-! ## The steps -/

variable (k : Keepers Rest)

def checkAllowedAddrs (jailAllowedAddrs : List String) : ExportM Rest Unit :=
  jailAllowedAddrs.forM fun addr => do
    let _ ← orFatal (k.valAddressFromBech32 addr)

def withdrawCommissions (height : Int) : ExportM Rest Unit := do
  let err ← iterate (k.iterateValidators height) fun val => do
    let valBz ← orPanic (k.stringToBytes val.operator)
    let _ ← call (k.withdrawValidatorCommission height valBz)
  orPanic err

def withdrawRewards (height : Int) (dels : List Delegation) : ExportM Rest Unit :=
  dels.forM fun delegation => do
    let valAddr ← orPanic (k.valAddressFromBech32 delegation.validatorAddress)
    let delAddr ← orPanic (k.accAddressFromBech32 delegation.delegatorAddress)
    let _ ← call (k.withdrawDelegationRewards height delAddr valAddr)

/-- The error of this iteration is overwritten before it is looked at. -/
def reinitializeValidators (height : Int) : ExportM Rest Unit := do
  let _ ← iterate (k.iterateValidators height) fun val => do
    let valBz ← orPanic (k.stringToBytes val.operator)
    -- donate what was not withdrawn to the community pool
    let scraps ← orPanic (← call (k.getValidatorOutstandingRewardsCoins height valBz))
    let feePool ← orPanic (← call (k.getFeePool height))
    let communityPool ← orPanic (← call (k.addCoins feePool.communityPool scraps))
    orPanic (← call (k.setFeePool height { feePool with communityPool := communityPool }))
    orPanic (← call (k.afterValidatorCreated height valBz))

def reinitializeDelegations (height : Int) (dels : List Delegation) : ExportM Rest Unit :=
  dels.forM fun del => do
    let valAddr ← orPanic (k.valAddressFromBech32 del.validatorAddress)
    let delAddr ← orPanic (k.accAddressFromBech32 del.delegatorAddress)
    match ← call (k.beforeDelegationCreated height delAddr valAddr) with
    | .error err => throw (.panic s!"error while incrementing period: {err}")
    | .ok () => pure ()
    match ← call (k.afterDelegationModified height delAddr valAddr) with
    | .error err => throw (.panic s!"error while creating a new delegation period record: {err}")
    | .ok () => pure ()

def resetCreationHeights (entries : List Entry) : List Entry :=
  entries.map fun entry => { entry with creationHeight := 0 }

def resetRedelegations (height : Int) : ExportM Rest Unit := do
  let err ← iterate (k.iterateRedelegations height) fun red => do
    orPanic (← call (k.setRedelegation height
      { red with entries := resetCreationHeights red.entries }))
  orPanic err

def resetUnbondingDelegations (height : Int) : ExportM Rest Unit := do
  let err ← iterate (k.iterateUnbondingDelegations height) fun ubd => do
    orPanic (← call (k.setUnbondingDelegation height
      { ubd with entries := resetCreationHeights ubd.entries }))
  orPanic err

def resetValidators (height : Int) (jailAllowedAddrs : List String) : ExportM Rest Unit := do
  let applyAllowedAddrs := decide (0 < jailAllowedAddrs.length)
  let _ ← iterate (k.validatorKeys height) fun addr => do
    match ← call (k.getValidator height addr) with
    | .error _ => throw (.panic "expected validator, not found")
    | .ok validator =>
      let jail := applyAllowedAddrs && !jailAllowedAddrs.contains (k.valAddressString addr)
      orPanic (← call (k.setValidator height
        { validator with unbondingHeight := 0, jailed := validator.jailed || jail }))

def resetSigningInfos (height : Int) : ExportM Rest Unit := do
  let err ← iterate (k.iterateValidatorSigningInfos height) fun (addr, info) => do
    let _ ← call (k.setValidatorSigningInfo height addr { info with startHeight := 0 })
  orFatal err

def resetTimelock : ExportM Rest Unit := do
  orPanic (← writeTimelock k.setActivationHeightFault fun t => t.setActivationHeight 1)
  orPanic (← writeTimelock k.clearScheduleFault Timelock.clearSchedule)

/-- The function up to the end of the loop over the validators. -/
def handleFeesAndStaking (height : Int) (jailAllowedAddrs : List String) :
    ExportM Rest Unit := do
  checkAllowedAddrs k jailAllowedAddrs
  let _ ← call (k.assertInvariants height)
  withdrawCommissions k height
  let dels ← orPanic (← call (k.getAllDelegations height))
  withdrawRewards k height dels
  let _ ← call (k.deleteAllValidatorSlashEvents height)
  let _ ← call (k.deleteAllValidatorHistoricalRewards height)
  reinitializeValidators k 0
  reinitializeDelegations k 0 dels
  resetRedelegations k height
  resetUnbondingDelegations k height
  resetValidators k height jailAllowedAddrs

def prepForZeroHeightGenesis (height : Int) (jailAllowedAddrs : List String) :
    ExportM Rest Unit := do
  handleFeesAndStaking k height jailAllowedAddrs
  match k.closeErr with
  -- the error is logged, and the function returns
  | some _ => pure ()
  | none =>
    let _ ← orFatal (← call (k.applyAndReturnValidatorSetUpdates height))
    resetSigningInfos k height
    resetTimelock k

end
end Ark.Export
