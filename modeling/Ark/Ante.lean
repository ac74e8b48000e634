import Ark.Sanction

/- The ante handlers of the app.

   `newAnteHandler` picks a route by the first extension option, and each route is a
   chain of decorators. The decorators that are not the app's own are fields of
   `HandlerOptions`, in the order in which the chains use them; where one is built
   from parameters read from the stores, it is a function of these.

   `multiChainIDDecorator` verifies the signatures under the chain id of the context
   and, when that fails as unauthorized, under a second id made from it.

   Correspondence (Go ↔ Lean):
     `NewAnteHandler`                       ↔ `newAnteHandler`
     `newCosmosAnteHandler`                 ↔ `newCosmosAnteHandler`
     `newEVMAnteHandler`                    ↔ `newEVMAnteHandler`
     `MultiChainIDDecorator.AnteHandle`     ↔ `multiChainIDDecorator`
     `ante.SigVerificationDecorator`        ↔ `sigVerificationDecorator` -/
namespace Ark.Ante
open Ark.Sdk Ark.Lib

variable {W Rest Msg : Type}

/-! ## Two chain ids -/

/-- `strings.LastIndex(chainID, "-")`. -/
def lastHyphen : List Char → Option Nat
  | [] => none
  | c :: rest =>
    match lastHyphen rest with
    | some i => some (i + 1)
    | none => if c = '-' then some 0 else none

/-- The chain id with "-evm-" in the place of its last hyphen. -/
def evmCosmosChainID (chainID : String) : Option String :=
  (lastHyphen chainID.toList).map fun i =>
    let name := chainID.toList.take i
    let version := chainID.toList.drop (i + 1)
    String.ofList (name ++ "-evm-".toList ++ version)

/-- A decorator that verifies, and hands over when there is no error. -/
def sigVerificationDecorator (verify : Context Rest → Tx Msg → Bool → W → Option Err) :
    AnteDecorator W Rest Msg := fun ctx tx simulate next w =>
  match verify ctx tx simulate w with
  | some err => ((ctx, some err), w)
  | none => next ctx tx simulate w

def noOpNext : AnteHandler W Rest Msg := fun ctx _ _ w => ((ctx, none), w)

def multiChainIDDecorator (svd : AnteDecorator W Rest Msg) : AnteDecorator W Rest Msg :=
  fun ctx tx simulate next w =>
    let r := svd ctx tx simulate noOpNext w
    match r.1.2 with
    | none => next ctx tx simulate r.2
    | some err1 =>
      if err1.isOf errUnauthorized = false then ((ctx, some err1), r.2)
      else
        match evmCosmosChainID ctx.chainID with
        | none => ((ctx, some err1), r.2)
        | some chainID =>
          let r2 := svd (ctx.withChainID chainID) tx simulate noOpNext r.2
          match r2.1.2 with
          | some err => ((ctx, some (.errorf s!"{err1.text}, {err.text}")), r2.2)
          | none => next ctx tx simulate r2.2

/-! ## Routes -/

/-- The parameters of the app's modules, and the decorators that the app takes from others. -/
structure HandlerOptions (W Rest Msg FeemarketParams EvmParams : Type) where
  /-- `sdk.ChainAnteDecorators`. -/
  chain : List (AnteDecorator W Rest Msg) → AnteHandler W Rest Msg
  feeMarketParams : Context Rest → W → FeemarketParams
  evmParams : Context Rest → W → EvmParams
  dynamicFeeChecker : Bool
  types : MsgTypes Msg
  codec : AddressCodec
  /-- The store of the sanction keeper. -/
  blacklistAccounts : W → KeySet String
  rejectMessages : AnteDecorator W Rest Msg
  authzLimiter : List String → AnteDecorator W Rest Msg
  setUpContext : AnteDecorator W Rest Msg
  limitSimulationGas : AnteDecorator W Rest Msg
  countTX : AnteDecorator W Rest Msg
  gasRegister : AnteDecorator W Rest Msg
  circuitBreaker : AnteDecorator W Rest Msg
  extensionOptions : AnteDecorator W Rest Msg
  validateBasic : AnteDecorator W Rest Msg
  txTimeoutHeight : AnteDecorator W Rest Msg
  validateMemo : AnteDecorator W Rest Msg
  minGasPrice : FeemarketParams → AnteDecorator W Rest Msg
  consumeGasForTxSize : AnteDecorator W Rest Msg
  /-- With the parameters of the dynamic fee checker, when it is used. -/
  deductFee : Option FeemarketParams → AnteDecorator W Rest Msg
  setPubKey : AnteDecorator W Rest Msg
  validateSigCount : AnteDecorator W Rest Msg
  sigGasConsume : AnteDecorator W Rest Msg
  sigVerification : AnteDecorator W Rest Msg
  incrementSequence : AnteDecorator W Rest Msg
  redundantRelay : AnteDecorator W Rest Msg
  gasWanted : FeemarketParams → AnteDecorator W Rest Msg
  evmMono : EvmParams → FeemarketParams → AnteDecorator W Rest Msg
  pendingTxListener : Option (AnteDecorator W Rest Msg)

section Handlers
variable {FeemarketParams EvmParams : Type}
  (options : HandlerOptions W Rest Msg FeemarketParams EvmParams)

def newCosmosAnteHandler (ctx : Context Rest) (w : W) : AnteHandler W Rest Msg :=
  let feemarketParams := options.feeMarketParams ctx w
  let txFeeChecker := if options.dynamicFeeChecker = true then some feemarketParams else none
  options.chain [
    options.rejectMessages,
    options.authzLimiter
      ["/cosmos.evm.vm.v1.MsgEthereumTx", "/cosmos.vesting.v1beta1.MsgCreateVestingAccount"],
    options.setUpContext,
    options.limitSimulationGas,
    options.countTX,
    options.gasRegister,
    options.circuitBreaker,
    Sanction.blacklistCheckDecorator options.codec options.types options.blacklistAccounts,
    options.extensionOptions,
    options.validateBasic,
    options.txTimeoutHeight,
    options.validateMemo,
    options.minGasPrice feemarketParams,
    options.consumeGasForTxSize,
    options.deductFee txFeeChecker,
    options.setPubKey,
    options.validateSigCount,
    options.sigGasConsume,
    multiChainIDDecorator options.sigVerification,
    options.incrementSequence,
    options.redundantRelay,
    options.gasWanted feemarketParams]

def newEVMAnteHandler (ctx : Context Rest) (w : W) : AnteHandler W Rest Msg :=
  let evmParams := options.evmParams ctx w
  let feemarketParams := options.feeMarketParams ctx w
  let decorators := [
    options.circuitBreaker,
    Sanction.evmBlacklistCheckDecorator options.codec options.types options.blacklistAccounts,
    options.evmMono evmParams feemarketParams]
  match options.pendingTxListener with
  | none => options.chain decorators
  | some listener => options.chain (decorators ++ [listener])

def extensionOptionsEthereumTx : String := "/cosmos.evm.vm.v1.ExtensionOptionsEthereumTx"

def extensionOptionDynamicFeeTx : String := "/cosmos.evm.ante.v1.ExtensionOptionDynamicFeeTx"

/-- The type URL of the first extension option. -/
def firstExtensionOption (tx : Tx Msg) : Option String :=
  tx.extensionOptionsTx.bind List.head?

/-- The handler; its transaction is `none` where the interface value is nil. -/
def newAnteHandler (ctx : Context Rest) (tx : Option (Tx Msg)) (simulate : Bool) (w : W) :
    AnteResult W Rest :=
  match tx with
  | none => ((ctx, some (.wrap errUnknownRequest "invalid transaction type: <nil>")), w)
  | some tx =>
    match firstExtensionOption tx with
    | some typeURL =>
      if typeURL = extensionOptionsEthereumTx then
        newEVMAnteHandler options ctx w ctx tx simulate w
      else if typeURL = extensionOptionDynamicFeeTx then
        newCosmosAnteHandler options ctx w ctx tx simulate w
      else
        ((ctx, some (.wrap errUnknownExtensionOptions
          s!"rejecting tx with unsupported extension option: {typeURL}")), w)
    | none => newCosmosAnteHandler options ctx w ctx tx simulate w

end Handlers
end Ark.Ante
