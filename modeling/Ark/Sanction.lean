import Ark.Lib.Checks
import Ark.Lib.KeySet
import Ark.Sdk

/- The sanction module: a blacklist of accounts, its two messages, its genesis, and the
   two ante decorators that read it.

   The store is keyed by text, the printed form of an account. `normalizeAddress`
   brings a hex or Bech32 text to that form; the messages go through it, the
   genesis does not.

   A message that fails changes nothing, since its caller drops the cached store:
   a handler returns the new state or an error. The decorators change no state; a
   failed check returns the context it was given.

   Correspondence (Go ↔ Lean):
     `Keeper.BlacklistAccounts`               ↔ `State.blacklistAccounts`
     `AddToBlacklist`, `RemoveFromBlacklist`  ↔ `addToBlacklist`, `removeFromBlacklist`
     `BlacklistCheckDecorator.AnteHandle`     ↔ `blacklistCheckDecorator`
     `EVMBlacklistCheckDecorator.AnteHandle`  ↔ `evmBlacklistCheckDecorator` -/
namespace Ark.Sanction
open Ark.Sdk Ark.Lib Ark.Lib.Checks

def moduleName : String := "sanction"

def errAccountBlacklisted : RootError := ⟨moduleName, 500, "Account blacklisted"⟩

/-- The module has no parameters. -/
structure Params where
  deriving DecidableEq

structure State where
  params : Option Params
  blacklistAccounts : KeySet String

def State.fresh : State := ⟨none, KeySet.empty⟩

section
variable (codec : AddressCodec)

/-! ## The blacklist -/

def normalizeAddress (account : String) : Except Err String :=
  if hasHexAddressPrefix account = true then
    if codec.isHexAddress account = true then
      .ok (codec.string (codec.hexToAddress account))
    else .error (.wrap errInvalidAddress s!"invalid hex address: {account}")
  else
    match codec.accAddressFromBech32 account with
    | .error err =>
      .error (.wrap errInvalidAddress s!"invalid account address: {account} ({err.text})")
    | .ok addr => .ok (codec.string addr)

def addToBlacklist (accounts : List String) (s : State) : Except Err State :=
  accounts.foldlM (fun s account => do
    let normAddr ← normalizeAddress codec account
    failIf (normAddr ∈ s.blacklistAccounts)
      (.wrap errInvalidRequest s!"account {account} has already been blacklisted")
    pure { s with blacklistAccounts := s.blacklistAccounts.set normAddr }) s

def removeFromBlacklist (accounts : List String) (s : State) : Except Err State :=
  accounts.foldlM (fun s account => do
    let normAddr ← normalizeAddress codec account
    failIf (normAddr ∉ s.blacklistAccounts)
      (.wrap errInvalidRequest s!"blacklist account {account} is not blacklisted")
    pure { s with blacklistAccounts := s.blacklistAccounts.remove normAddr }) s

/-! ## Messages -/

def validateBlacklistMessage (authority : String) (accounts : List String) : Except Err Unit := do
  match codec.accAddressFromBech32 authority with
  | .error err => throw (.wrap errInvalidAddress s!"invalid authority address ({err.text})")
  | .ok _ => pure ()
  failIf (accounts.length = 0) (.wrap errInvalidRequest "accounts list cannot be empty")
  accounts.forM fun account =>
    if hasHexAddressPrefix account = true then
      failIf (codec.isHexAddress account = false)
        (.wrap errInvalidAddress s!"invalid hex account address: {account}")
    else
      match codec.accAddressFromBech32 account with
      | .error _ => throw (.wrap errInvalidAddress s!"invalid account address: {account}")
      | .ok _ => pure ()

/-- `MsgAddBlacklistAccounts` and `MsgRemoveBlacklistAccounts`. -/
structure MsgBlacklistAccounts where
  authority : String
  blacklistAccounts : List String

def invalidAuthority (expected got : String) : Err :=
  .wrap errInvalidRequest s!"invalid authority; expected {expected}, got {got}"

-- `authority` is the keeper's
variable (authority : String)

def addBlacklistAccounts (msg : MsgBlacklistAccounts) (s : State) : Except Err State := do
  validateBlacklistMessage codec msg.authority msg.blacklistAccounts
  failIf (authority ≠ msg.authority) (invalidAuthority authority msg.authority)
  addToBlacklist codec msg.blacklistAccounts s

def removeBlacklistAccounts (msg : MsgBlacklistAccounts) (s : State) : Except Err State := do
  validateBlacklistMessage codec msg.authority msg.blacklistAccounts
  failIf (authority ≠ msg.authority) (invalidAuthority authority msg.authority)
  removeFromBlacklist codec msg.blacklistAccounts s

inductive Message where
  | add (msg : MsgBlacklistAccounts)
  | remove (msg : MsgBlacklistAccounts)

def handle (s : State) : Message → Except Err State
  | .add msg => addBlacklistAccounts codec authority msg s
  | .remove msg => removeBlacklistAccounts codec authority msg s

end

/-! ## Genesis -/

structure GenesisState where
  params : Params
  blacklistAccounts : List String

def GenesisState.validate (codec : AddressCodec) (gs : GenesisState) : Except Err Unit :=
  gs.blacklistAccounts.forM fun blacklistAccount =>
    match codec.accAddressFromBech32 blacklistAccount with
    | .error _ => throw (.errorf s!"invalid account {blacklistAccount}")
    | .ok _ => pure ()

/-- The accounts go into the store as they are spelled. -/
def initGenesis (gs : GenesisState) (s : State) : State where
  blacklistAccounts := gs.blacklistAccounts.foldl KeySet.set s.blacklistAccounts
  params := some gs.params

/-! ## Ante decorators -/

section Ante
variable {W Rest Msg : Type} (codec : AddressCodec) (types : MsgTypes Msg)

/-- An account that may not act. -/
def rejectBlacklisted (blacklist : KeySet String) (addr : Address) (text : String) :
    Except Err Unit :=
  failIf (codec.string addr ∈ blacklist)
    (.wrap errAccountBlacklisted s!"{text} is blacklisted")

/-- The count of `MsgExec` messages, which stops at the second. -/
def countMsgExec : Nat → List Msg → Except Err Nat
  | execCount, [] => pure execCount
  | execCount, msg :: msgs =>
    if (types.msgExec msg).isSome = true then do
      failIf (1 < execCount + 1)
        (.wrap errUnauthorized "only a single MsgExec is allowed per transaction")
      countMsgExec (execCount + 1) msgs
    else countMsgExec execCount msgs

/-- The check of a message inside a `MsgExec`. -/
def checkInner (blacklist : KeySet String) (innerMsg : Msg) : Except Err Unit := do
  failIf ((types.msgExec innerMsg).isSome = true)
    (.wrap errUnauthorized "nested MsgExec is not allowed")
  let innerSigners ← types.getMsgV1Signers innerMsg
  match innerSigners with
  | [] => pure ()
  | granter :: _ =>
    rejectBlacklisted codec blacklist granter s!"authz granter {codec.string granter}"

/-- The check of a message: those inside it, when it is a `MsgExec`. -/
def checkMsg (blacklist : KeySet String) (msg : Msg) : Except Err Unit :=
  match types.msgExec msg with
  | none => pure ()
  | some getMessages => do
    let innerMsgs ← getMessages
    innerMsgs.forM (checkInner codec types blacklist)

def getSigners (tx : Tx Msg) : Except Err (List Address) :=
  match tx.sigTx with
  | none => .error (.wrap errTxDecode "invalid transaction type")
  | some getSigners => getSigners

def checkFeeGranter (blacklist : KeySet String) (tx : Tx Msg) : Except Err Unit :=
  match tx.feeTx with
  | some (some granter) =>
    rejectBlacklisted codec blacklist granter s!"fee granter {codec.string granter}"
  | _ => pure ()

def blacklistChecks (blacklist : KeySet String) (tx : Tx Msg) : Except Err Unit := do
  let signers ← getSigners tx
  signers.forM fun signer => rejectBlacklisted codec blacklist signer (codec.string signer)
  checkFeeGranter codec blacklist tx
  let _ ← countMsgExec types 0 tx.getMsgs
  tx.getMsgs.forM (checkMsg codec types blacklist)

def evmBlacklistChecks (blacklist : KeySet String) (tx : Tx Msg) : Except Err Unit :=
  tx.getMsgs.forM fun msg => do
    let sender ← types.unpackEthMsg msg
    rejectBlacklisted codec blacklist sender (codec.hexText sender)

/-- Checks before `next`. -/
def checkThenNext (checks : W → Tx Msg → Except Err Unit) : AnteDecorator W Rest Msg :=
  fun ctx tx simulate next w =>
    match checks w tx with
    | .error err => ((ctx, some err), w)
    | .ok () => next ctx tx simulate w

-- `blacklist` reads the module's store
variable (blacklist : W → KeySet String)

def blacklistCheckDecorator : AnteDecorator W Rest Msg :=
  checkThenNext fun w => blacklistChecks codec types (blacklist w)

def evmBlacklistCheckDecorator : AnteDecorator W Rest Msg :=
  checkThenNext fun w => evmBlacklistChecks codec types (blacklist w)

end Ante
end Ark.Sanction
