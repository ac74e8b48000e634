import Ark.DistrClaim
import Ark.Lib.GoJson.Decoding

/- Unwrapping on receipt of an IBC transfer (`app/ibc_middleware/unwrap_erc20.go`,
   `app/evmutil/erc20wrapper.go`).

   The modules under the middleware, the erc20 keeper, the EVM and the codecs of ibc-go are
   not this repository's code. The keepers act on the chain only. A `World` is a chain with
   what the middleware itself does: the calls it makes, with the answers, and the events it
   emits. Writes to the logger are left out, and so are the handlers that are passed on to
   the inner module as they come.

   Correspondence (Go ↔ Lean):
     `im.app`, `im.erc20Keeper`, `im.evmCaller`        ↔ fields of `UnwrapERC20IBCModule`
     `transfertypes.ModuleCdc.UnmarshalJSON`           ↔ `unmarshalJSON`
     `evmibc.GetReceivedCoin`, `coin.Amount.BigInt()`  ↔ `getReceivedCoin`, `Coin.amount`
     `nil` for an acknowledgement, for `amountWad`     ↔ `none`
     `ctx.EventManager().EmitEvent`                    ↔ `World.events` -/
namespace Ark.UnwrapERC20
open Ark.Lib Ark.Sdk
open Ark.DistrClaim (Bytes EthAddress EvmKeeper ERC20WrapperMethodError minWithdrawAmountWad
  gasCapERC20WrapperUnderlying erc20WrapperUnderlyingCallData wrapERC20WrapperUnderlyingError
  decodeABIAddress32 erc20WrapperWithdrawToViaEVMCaller)
open Ark.Gov (Fault)
open Ark.Lib.Go (Text Json)

/-! ## Packets -/

structure Packet where
  sourcePort : String
  sourceChannel : String
  destinationPort : String
  destinationChannel : String
  data : Bytes

structure Acknowledgement where
  success : Bool
  bytes : Bytes
  deriving DecidableEq

structure FungibleTokenPacketData where
  denom : String
  amount : String
  sender : String
  receiver : String
  memo : Text

/-- A denom with the (port, channel) pairs it came through. -/
structure Denom where
  base : String
  trace : List (String × String)

structure Token where
  denom : Denom
  amount : String

structure Coin where
  denom : String
  amount : Option Int

inductive Owner
  | unspecified
  | moduleAccount
  | external
  deriving DecidableEq

structure TokenPair where
  erc20Address : String
  denom : String
  enabled : Bool
  contractOwner : Owner

def TokenPair.isNativeERC20 (pair : TokenPair) : Bool := pair.contractOwner = .external

def TokenPair.getERC20Contract (codec : AddressCodec) (pair : TokenPair) : EthAddress :=
  .ofBytes (codec.hexToAddress pair.erc20Address)

/-! ## State -/

/-- `CallEVMWithData`, with what it returned. -/
structure EvmCall where
  sender : EthAddress
  contract : EthAddress
  data : Bytes
  commit : Bool
  gasCap : Nat
  answer : Option Bytes × Option String
  deriving DecidableEq

structure Event where
  type : String
  attributes : List (String × String)
  deriving DecidableEq

def Event.attribute (event : Event) (key : String) : Option String := event.attributes.lookup key

structure World (σ : Type) where
  chain : σ
  calls : List EvmCall
  events : List Event

variable {σ : Type}

/-- The keeper, with its calls recorded. -/
def recorded (keeper : EvmKeeper σ) : EvmKeeper (World σ) where
  callEVMWithData sender contract data commit gasCap w :=
    let (answer, chain) := keeper.callEVMWithData sender contract data commit gasCap w.chain
    (answer, { w with
      chain := chain
      calls := w.calls ++ [⟨sender, contract, data, commit, gasCap, answer⟩] })

def World.emit (w : World σ) (event : Event) : World σ := { w with events := w.events ++ [event] }

/-! ## The wrapper -/

def erc20WrapperUnderlyingViaEVMCaller (keeper : EvmKeeper σ) (sender wrapper : EthAddress)
    (chain : σ) : Except ERC20WrapperMethodError EthAddress × σ :=
  let data := erc20WrapperUnderlyingCallData
  let ((res, err), chain) :=
    keeper.callEVMWithData sender wrapper data false gasCapERC20WrapperUnderlying.toNat chain
  match res, err with
  | none, some err => (.error (wrapERC20WrapperUnderlyingError err), chain)
  | none, none =>
    (.error (wrapERC20WrapperUnderlyingError "nil response from EVM call"), chain)
  | some _, some err => (.error (wrapERC20WrapperUnderlyingError err), chain)
  | some ret, none =>
    match decodeABIAddress32 ret with
    | .error err => (.error (wrapERC20WrapperUnderlyingError err), chain)
    | .ok underlying => (.ok underlying, chain)

/-! ## The middleware -/

structure UnwrapERC20IBCModule (σ : Type) where
  app : Packet → σ → Option Acknowledgement × σ
  getTokenPairID : String → σ → Bytes
  getTokenPair : Bytes → σ → Option TokenPair
  evmCaller : EvmKeeper σ
  codec : AddressCodec
  unmarshalJSON : Bytes → Option FungibleTokenPacketData
  extractDenomFromPath : String → Denom
  getReceivedCoin : Packet → Token → Coin

def receiverToHexAddress (codec : AddressCodec) (receiver : String) : Option EthAddress :=
  if codec.isHexAddress receiver = true then some (.ofBytes (codec.hexToAddress receiver))
  else
    match codec.accAddressFromBech32 receiver with
    | .error _ => none
    | .ok addr => some (.ofBytes addr)

def shouldUnwrapFromIBCMemo (memo : Text) : Bool :=
  if memo = [] then false
  else
    match Json.parse memo with
    | none => false
    | some doc =>
      match Json.readStruct "ark" (Json.readStruct "unwrap" Json.readBool) doc false with
      | none => false
      | some unwrap => unwrap

def eventTypeUnwrapERC20 : String := "unwrap_erc20"

namespace UnwrapERC20IBCModule
variable (m : UnwrapERC20IBCModule σ)

/-- The event of `emitUnwrapOutcome`. -/
def unwrapOutcome (denom : String) (receiver wrapper : EthAddress) (amountWad : Option Int)
    (success : Bool) (failureStep : String) (err : Option String) : Event :=
  let amount :=
    match amountWad with
    | none => ""
    | some n => toString n
  ⟨eventTypeUnwrapERC20,
    [("success", toString success), ("denom", denom), ("wrapper", m.codec.hexText wrapper.bytes),
      ("receiver", m.codec.hexText receiver.bytes), ("amount", amount)] ++
    (if failureStep ≠ "" then [("failure_step", failureStep)] else []) ++
    (match err with
      | none => []
      | some text => [("error", text)])⟩

def tryUnwrap (denom : String) (receiver wrapper : EthAddress) (amountWad : Option Int)
    (w : World σ) : World σ :=
  let outcome := m.unwrapOutcome denom receiver wrapper amountWad
  match amountWad with
  | none => w.emit (outcome false "invalid_amount" none)
  | some amount =>
    if amount ≤ 0 then w.emit (outcome false "invalid_amount" none)
    else if amount < minWithdrawAmountWad then w.emit (outcome false "amount_below_min" none)
    else
      match erc20WrapperUnderlyingViaEVMCaller (recorded m.evmCaller) receiver wrapper w with
      | (.error err, w) => w.emit (outcome false "underlying" (some err.error))
      | (.ok _, w) =>
        match erc20WrapperWithdrawToViaEVMCaller (recorded m.evmCaller) receiver wrapper receiver
          amount w with
        | ((_, some err), w) => w.emit (outcome false "withdraw_to" (some err))
        | ((_, none), w) => w.emit (outcome true "" none)

/-- The acknowledgement, and the world the middleware leaves. -/
def onRecvPacket (packet : Packet) (chain : σ) : Except Fault (Acknowledgement × World σ) :=
  match m.app packet chain with
  -- `Success` of a nil acknowledgement
  | (none, _) => .error (.panic "invalid memory address or nil pointer dereference")
  | (some ack, chain) =>
    let w : World σ := ⟨chain, [], []⟩
    if ack.success = false then .ok (ack, w)
    else
      match m.unmarshalJSON packet.data with
      | none => .ok (ack, w)
      | some data =>
        if shouldUnwrapFromIBCMemo data.memo = false then .ok (ack, w)
        else
          match receiverToHexAddress m.codec data.receiver with
          | none => .ok (ack, w)
          | some receiverHex =>
            let coin := m.getReceivedCoin packet ⟨m.extractDenomFromPath data.denom, data.amount⟩
            let pairID := m.getTokenPairID coin.denom chain
            -- only native ERC20 pairs
            match m.getTokenPair pairID chain with
            | none => .ok (ack, w)
            | some pair =>
              if pair.enabled = false ∨ pair.isNativeERC20 = false then .ok (ack, w)
              else
                .ok (ack, m.tryUnwrap coin.denom receiverHex (pair.getERC20Contract m.codec)
                  coin.amount w)

end UnwrapERC20IBCModule
end Ark.UnwrapERC20
