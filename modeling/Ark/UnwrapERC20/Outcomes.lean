import Ark.UnwrapERC20

/- What the receipt of a transfer leads to.

   A memo asks for unwrapping when `ark.unwrap` is true the way `encoding/json` reads it
   (`shouldUnwrapFromIBCMemo_iff`): names are compared as they fold, and the last value
   that is not `null` counts.

   An unwrapping that is tried has four steps, and the event names the first that is not
   done (`tryUnwrap_tried`). It is tried exactly for the packets that pass the checks
   (`onRecvPacket_cases`), and whatever happens, the acknowledgement is the inner one. -/
namespace Ark.UnwrapERC20
open Ark.Lib Ark.Sdk
open Ark.DistrClaim (Bytes EthAddress EvmKeeper minWithdrawAmountWad
  gasCapERC20WrapperUnderlying gasCapERC20WrapperWithdrawTo erc20WrapperUnderlyingCallData
  selectorUnderlyingGetter selectorWithdrawToAddressUint256
  decodeABIAddress32 erc20WrapperWithdrawToCallData erc20WrapperWithdrawToViaEVMCaller)
open Ark.Gov (Fault)
open Ark.Lib.Go (Text Json)

/-! ## The memo -/

/-- The values of `ark.unwrap`. -/
def unwrapFlags (doc : Json) : List Json :=
  (Json.under "ark" doc).flatMap (Json.under "unwrap")

/-- Each value has its type, and the last flag that is not `null` is true. -/
structure Unwraps (doc : Json) : Prop where
  doc_struct : Json.IsStruct doc
  ark_struct : ∀ v ∈ Json.under "ark" doc, Json.IsStruct v
  unwrap_bool : ∀ v ∈ unwrapFlags doc, Json.IsBool v
  last_true : ((unwrapFlags doc).filterMap Json.asBool).getLast? = some true

theorem shouldUnwrapFromIBCMemo_iff {memo : Text} :
    shouldUnwrapFromIBCMemo memo = true ↔ ∃ doc, Json.parse memo = some doc ∧ Unwraps doc := by
  have hread : ∀ doc,
      Json.readStruct "ark" (Json.readStruct "unwrap" Json.readBool) doc false = some true ↔
        Unwraps doc := by
    intro doc
    rw [Json.readStruct_eq_some, Json.readAll_structs, Json.readBools_eq_some]
    constructor
    · intro h
      obtain ⟨hdoc, harks, hflags, hlast⟩ := h
      refine ⟨hdoc, harks, hflags, ?_⟩
      cases hcase : ((unwrapFlags doc).filterMap Json.asBool).getLast? with
      | none =>
        rw [unwrapFlags] at hcase
        rw [hcase] at hlast
        cases hlast
      | some b =>
        rw [unwrapFlags] at hcase
        rw [hcase] at hlast
        rw [hlast]
        rfl
    · intro h
      have hlast := h.last_true
      rw [unwrapFlags] at hlast
      exact ⟨h.doc_struct, h.ark_struct, h.unwrap_bool, by rw [hlast]; rfl⟩
  unfold shouldUnwrapFromIBCMemo
  by_cases hempty : memo = []
  · rw [if_pos hempty, hempty]
    constructor
    · intro h
      cases h
    · intro h
      obtain ⟨doc, hparse, _⟩ := h
      cases hparse
  · rw [if_neg hempty]
    cases hparse : Json.parse memo with
    | none => simp
    | some doc =>
      simp only [Option.some.injEq, exists_eq_left', ← hread]
      cases Json.readStruct "ark" (Json.readStruct "unwrap" Json.readBool) doc false with
      | none => simp
      | some b => simp

/-! ## The calls -/

namespace EvmCall

/-- The selector is that of `withdrawTo`. -/
def isWithdrawTo (c : EvmCall) : Bool := selectorWithdrawToAddressUint256.isPrefixOf c.data

/-- The call returned these bytes and no error. -/
def Returned (c : EvmCall) (ret : Bytes) : Prop := c.answer = (some ret, none)

/-- `underlying()` of the wrapper, asked in the receiver's name. -/
structure Probes (c : EvmCall) (receiver wrapper : EthAddress) : Prop where
  sender : c.sender = receiver
  contract : c.contract = wrapper
  data : c.data = erc20WrapperUnderlyingCallData
  static : c.commit = false

/-- It names a contract. -/
def NamesUnderlying (c : EvmCall) : Prop :=
  ∃ ret addr, c.Returned ret ∧ decodeABIAddress32 ret = .ok addr ∧ addr ≠ .zero

/-- `withdrawTo(receiver, amount)` of the wrapper, from the receiver. -/
structure Withdraws (c : EvmCall) (receiver wrapper : EthAddress) (amount : Int) : Prop where
  sender : c.sender = receiver
  contract : c.contract = wrapper
  data : erc20WrapperWithdrawToCallData receiver amount = .ok c.data
  committed : c.commit = true

theorem Probes.not_withdrawTo {c : EvmCall} {receiver wrapper : EthAddress}
    (h : c.Probes receiver wrapper) : c.isWithdrawTo = false := by
  rw [isWithdrawTo, h.data]
  decide

theorem Withdraws.isWithdrawTo {c : EvmCall} {receiver wrapper : EthAddress} {amount : Int}
    (h : c.Withdraws receiver wrapper amount) : c.isWithdrawTo = true := by
  have hdata := h.data
  unfold erc20WrapperWithdrawToCallData at hdata
  split at hdata
  · cases hdata
  · split at hdata
    · cases hdata
    · rw [EvmCall.isWithdrawTo, ← Except.ok.inj hdata, List.append_assoc,
        List.isPrefixOf_iff_prefix]
      exact List.prefix_append _ _

end EvmCall

theorem ne_zero_of_decode {ret : Bytes} {addr : EthAddress}
    (h : decodeABIAddress32 ret = .ok addr) : addr ≠ .zero := by
  unfold decodeABIAddress32 at h
  split at h
  · cases h
  · simp only at h
    split at h
    · cases h
    · rename_i hne
      rw [← Except.ok.inj h]
      exact hne

variable {σ : Type}

theorem recorded_call (keeper : EvmKeeper σ) (sender contract : EthAddress) (data : Bytes)
    (commit : Bool) (gasCap : Nat) (w : World σ) :
    (recorded keeper).callEVMWithData sender contract data commit gasCap w =
      ((keeper.callEVMWithData sender contract data commit gasCap w.chain).1,
        ⟨(keeper.callEVMWithData sender contract data commit gasCap w.chain).2,
          w.calls ++ [⟨sender, contract, data, commit, gasCap,
            (keeper.callEVMWithData sender contract data commit gasCap w.chain).1⟩],
          w.events⟩) := rfl

/-- The probe is one call, and it succeeds when the call names a contract. -/
theorem underlying_spec (keeper : EvmKeeper σ) (receiver wrapper : EthAddress) (w : World σ) :
    ∃ res c chain, erc20WrapperUnderlyingViaEVMCaller (recorded keeper) receiver wrapper w =
        (res, ⟨chain, w.calls ++ [c], w.events⟩) ∧
      c.Probes receiver wrapper ∧ ((∃ addr, res = .ok addr) ↔ c.NamesUnderlying) := by
  unfold erc20WrapperUnderlyingViaEVMCaller
  simp only [recorded_call]
  generalize keeper.callEVMWithData receiver wrapper erc20WrapperUnderlyingCallData false
    gasCapERC20WrapperUnderlying.toNat w.chain = out
  obtain ⟨⟨res, err⟩, chain⟩ := out
  have hprobes : ∀ answer, EvmCall.Probes ⟨receiver, wrapper, erc20WrapperUnderlyingCallData, false,
      gasCapERC20WrapperUnderlying.toNat, answer⟩ receiver wrapper := fun _ => ⟨rfl, rfl, rfl, rfl⟩
  cases res with
  | none =>
    cases err with
    | none =>
      refine ⟨_, _, chain, rfl, hprobes _, ?_⟩
      simp [EvmCall.NamesUnderlying, EvmCall.Returned]
    | some err =>
      refine ⟨_, _, chain, rfl, hprobes _, ?_⟩
      simp [EvmCall.NamesUnderlying, EvmCall.Returned]
  | some ret =>
    cases err with
    | some err =>
      refine ⟨_, _, chain, rfl, hprobes _, ?_⟩
      simp [EvmCall.NamesUnderlying, EvmCall.Returned]
    | none =>
      cases hdecode : decodeABIAddress32 ret with
      | error err =>
        simp only [hdecode]
        refine ⟨_, _, chain, rfl, hprobes _, ?_⟩
        simp [EvmCall.NamesUnderlying, EvmCall.Returned, hdecode]
      | ok addr =>
        simp only [hdecode]
        refine ⟨_, _, chain, rfl, hprobes _, ?_⟩
        simp [EvmCall.NamesUnderlying, EvmCall.Returned, hdecode, ne_zero_of_decode hdecode]

/-- An amount that is no word ends the withdrawal before the call; otherwise it is one call, and
succeeds when the call returns. -/
theorem withdrawTo_spec (keeper : EvmKeeper σ) (receiver wrapper : EthAddress) (amount : Int)
    (w : World σ) :
    (∃ err, erc20WrapperWithdrawToViaEVMCaller (recorded keeper) receiver wrapper receiver amount w =
        ((none, some err), w)) ∨
      ∃ res err c chain,
        erc20WrapperWithdrawToViaEVMCaller (recorded keeper) receiver wrapper receiver amount w =
          ((res, err), ⟨chain, w.calls ++ [c], w.events⟩) ∧
        c.Withdraws receiver wrapper amount ∧ (err = none ↔ ∃ ret, c.Returned ret) := by
  unfold erc20WrapperWithdrawToViaEVMCaller
  cases hdata : erc20WrapperWithdrawToCallData receiver amount with
  | error err => exact .inl ⟨err, rfl⟩
  | ok data =>
    right
    simp only [recorded_call]
    generalize keeper.callEVMWithData receiver wrapper data true gasCapERC20WrapperWithdrawTo
      w.chain = out
    obtain ⟨⟨res, err⟩, chain⟩ := out
    have hwithdraws : ∀ answer, EvmCall.Withdraws ⟨receiver, wrapper, data, true,
        gasCapERC20WrapperWithdrawTo, answer⟩ receiver wrapper amount :=
      fun _ => ⟨rfl, rfl, hdata, rfl⟩
    cases res with
    | none =>
      cases err with
      | none => exact ⟨_, _, _, chain, rfl, hwithdraws _, by simp [EvmCall.Returned]⟩
      | some err => exact ⟨_, _, _, chain, rfl, hwithdraws _, by simp [EvmCall.Returned]⟩
    | some ret =>
      cases err with
      | none => exact ⟨_, _, _, chain, rfl, hwithdraws _, by simp [EvmCall.Returned]⟩
      | some err => exact ⟨_, _, _, chain, rfl, hwithdraws _, by simp [EvmCall.Returned]⟩

/-! ## The steps -/

inductive Step
  | invalidAmount
  | amountBelowMin
  | underlying
  | withdrawTo

namespace Step

/-- How the event names the step when it fails. -/
def text : Step → String
  | invalidAmount => "invalid_amount"
  | amountBelowMin => "amount_below_min"
  | underlying => "underlying"
  | withdrawTo => "withdraw_to"

def earlier : Step → List Step
  | invalidAmount => []
  | amountBelowMin => [invalidAmount]
  | underlying => [invalidAmount, amountBelowMin]
  | withdrawTo => [invalidAmount, amountBelowMin, underlying]

/-- What it takes for the step to be done. -/
def Done (receiver wrapper : EthAddress) (amountWad : Option Int) (calls : List EvmCall) :
    Step → Prop
  | invalidAmount => ∃ amount, amountWad = some amount ∧ 0 < amount
  | amountBelowMin => ∃ amount, amountWad = some amount ∧ minWithdrawAmountWad ≤ amount
  | underlying => ∃ c ∈ calls, c.Probes receiver wrapper ∧ c.NamesUnderlying
  | withdrawTo => ∃ c ∈ calls, c.isWithdrawTo = true ∧ ∃ ret, c.Returned ret

/-- The step is not done, and those before it are. -/
def FailsFirst (receiver wrapper : EthAddress) (amountWad : Option Int) (calls : List EvmCall)
    (step : Step) : Prop :=
  ¬ step.Done receiver wrapper amountWad calls ∧
    ∀ s ∈ step.earlier, s.Done receiver wrapper amountWad calls

end Step

/-- The event says what happened. -/
structure Reports (receiver wrapper : EthAddress) (amountWad : Option Int) (calls : List EvmCall)
    (event : Event) : Prop where
  type : event.type = eventTypeUnwrapERC20
  success : event.attribute "success" = some "true" ↔
    ∃ c ∈ calls, c.isWithdrawTo = true ∧ ∃ ret, c.Returned ret
  failure : event.attribute "success" ≠ some "true" →
    event.attribute "success" = some "false" ∧
      ∃ step, event.attribute "failure_step" = some step.text ∧
        Step.FailsFirst receiver wrapper amountWad calls step

/-- What an unwrapping that is tried does. -/
structure Tried (receiver wrapper : EthAddress) (amountWad : Option Int) (w : World σ) : Prop where
  at_most_once : (w.calls.filter EvmCall.isWithdrawTo).length ≤ 1
  withdraws : ∀ c ∈ w.calls, c.isWithdrawTo = true →
    ∃ amount, amountWad = some amount ∧ minWithdrawAmountWad ≤ amount ∧
      c.Withdraws receiver wrapper amount ∧
      ∃ probe ∈ w.calls, probe.Probes receiver wrapper ∧ probe.NamesUnderlying
  event : ∃ event, w.events = [event] ∧ Reports receiver wrapper amountWad w.calls event

variable {m : UnwrapERC20IBCModule σ} {denom : String} {receiver wrapper : EthAddress}
  {amountWad : Option Int} {calls : List EvmCall}

theorem reports_failure (step : Step) {err : Option String}
    (hfirst : Step.FailsFirst receiver wrapper amountWad calls step)
    (hnone : ¬ ∃ c ∈ calls, c.isWithdrawTo = true ∧ ∃ ret, c.Returned ret) :
    Reports receiver wrapper amountWad calls
      (m.unwrapOutcome denom receiver wrapper amountWad false step.text err) where
  type := rfl
  success := by
    have hfalse : (m.unwrapOutcome denom receiver wrapper amountWad false step.text err).attribute
        "success" = some "false" := rfl
    rw [hfalse]
    constructor
    · intro h
      exact absurd h (by decide)
    · intro h
      exact absurd h hnone
  failure := by
    intro _
    have hstep : (m.unwrapOutcome denom receiver wrapper amountWad false step.text err).attribute
        "failure_step" = some step.text := by
      cases step <;> rfl
    exact ⟨rfl, step, hstep, hfirst⟩

theorem reports_success (h : ∃ c ∈ calls, c.isWithdrawTo = true ∧ ∃ ret, c.Returned ret) :
    Reports receiver wrapper amountWad calls
      (m.unwrapOutcome denom receiver wrapper amountWad true "" none) where
  type := rfl
  success := ⟨fun _ => h, fun _ => rfl⟩
  failure hne := absurd rfl hne

/-- A failure without a call of `withdrawTo`. -/
theorem tried_failure (step : Step) {err : Option String} {chain : σ}
    (hcalls : ∀ c ∈ calls, c.isWithdrawTo = false)
    (hfirst : Step.FailsFirst receiver wrapper amountWad calls step) :
    Tried receiver wrapper amountWad ((⟨chain, calls, []⟩ : World σ).emit
      (m.unwrapOutcome denom receiver wrapper amountWad false step.text err)) := by
  have hno : ∀ c ∈ calls, ¬ c.isWithdrawTo = true := by
    intro c hc hwithdraw
    rw [hcalls c hc] at hwithdraw
    cases hwithdraw
  have hreports : Reports receiver wrapper amountWad calls
      (m.unwrapOutcome denom receiver wrapper amountWad false step.text err) := by
    apply reports_failure step hfirst
    intro h
    obtain ⟨c, hc, hwithdraw, _⟩ := h
    exact hno c hc hwithdraw
  refine ⟨?_, fun c hc hwithdraw => absurd hwithdraw (hno c hc), _, rfl, hreports⟩
  show (calls.filter EvmCall.isWithdrawTo).length ≤ 1
  rw [List.filter_eq_nil_iff.mpr hno]
  exact Nat.zero_le 1

/-- A call of `withdrawTo` after a probe that names a contract. -/
theorem tried_call {probe c : EvmCall} {amount : Int} {chain : σ} {event : Event}
    (hmin : minWithdrawAmountWad ≤ amount) (hprobes : probe.Probes receiver wrapper)
    (hnames : probe.NamesUnderlying) (hwithdraws : c.Withdraws receiver wrapper amount)
    (hreports : Reports receiver wrapper (some amount) [probe, c] event) :
    Tried receiver wrapper (some amount) ((⟨chain, [probe, c], []⟩ : World σ).emit event) := by
  refine ⟨?_, ?_, event, rfl, hreports⟩
  · show ([probe, c].filter EvmCall.isWithdrawTo).length ≤ 1
    rw [List.filter_cons_of_neg (by rw [hprobes.not_withdrawTo]; decide)]
    exact List.length_filter_le _ [c]
  · intro x hx hwithdraw
    cases List.mem_cons.mp hx with
    | inl hx =>
      rw [hx, hprobes.not_withdrawTo] at hwithdraw
      cases hwithdraw
    | inr hx =>
      rw [List.mem_singleton.mp hx]
      exact ⟨amount, rfl, hmin, hwithdraws, probe, List.mem_cons_self, hprobes, hnames⟩

theorem tryUnwrap_tried (m : UnwrapERC20IBCModule σ) (denom : String)
    (receiver wrapper : EthAddress) (amountWad : Option Int) (chain : σ) :
    Tried receiver wrapper amountWad
      (m.tryUnwrap denom receiver wrapper amountWad ⟨chain, [], []⟩) := by
  have hnocalls : ∀ c ∈ ([] : List EvmCall), c.isWithdrawTo = false :=
    fun c hc => absurd hc List.not_mem_nil
  unfold UnwrapERC20IBCModule.tryUnwrap
  cases amountWad with
  | none =>
    exact tried_failure .invalidAmount hnocalls ⟨by simp [Step.Done], by simp [Step.earlier]⟩
  | some amount =>
    simp only
    by_cases hpos : amount ≤ 0
    · rw [if_pos hpos]
      exact tried_failure .invalidAmount hnocalls
        ⟨by simp [Step.Done, hpos], by simp [Step.earlier]⟩
    · have hvalid : ∀ calls, Step.invalidAmount.Done receiver wrapper (some amount) calls :=
        fun _ => ⟨amount, rfl, by omega⟩
      rw [if_neg hpos]
      by_cases hmin : amount < minWithdrawAmountWad
      · rw [if_pos hmin]
        refine tried_failure .amountBelowMin hnocalls ⟨by simp [Step.Done, hmin], ?_⟩
        simpa [Step.earlier] using hvalid []
      · rw [if_neg hmin]
        have hmin : minWithdrawAmountWad ≤ amount := not_lt.mp hmin
        have hamounts : ∀ calls, ∀ s ∈ Step.underlying.earlier,
            s.Done receiver wrapper (some amount) calls := by
          intro calls
          simpa [Step.earlier] using ⟨hvalid calls, amount, rfl, hmin⟩
        -- the amount will do: the wrapper is probed, and then called
        obtain ⟨res, probe, chain, hrun, hprobes, hok⟩ :=
          underlying_spec m.evmCaller receiver wrapper ⟨chain, [], []⟩
        have hprobe : ∀ c ∈ [probe], c.isWithdrawTo = false := by
          intro c hc
          rw [List.mem_singleton.mp hc]
          exact hprobes.not_withdrawTo
        rw [hrun]
        cases res with
        | error err =>
          refine tried_failure .underlying hprobe ⟨?_, hamounts _⟩
          intro hdone
          obtain ⟨c, hc, _, hnames⟩ := hdone
          rw [List.mem_singleton.mp hc] at hnames
          obtain ⟨_, h⟩ := hok.mpr hnames
          cases h
        | ok addr =>
          have hnames : probe.NamesUnderlying := hok.mp ⟨addr, rfl⟩
          have hdone : ∀ calls, probe ∈ calls → ∀ s ∈ Step.withdrawTo.earlier,
              s.Done receiver wrapper (some amount) calls := by
            intro calls hmem
            simpa [Step.earlier] using
              ⟨hvalid calls, ⟨amount, rfl, hmin⟩, probe, hmem, hprobes, hnames⟩
          simp only [List.nil_append]
          rcases withdrawTo_spec m.evmCaller receiver wrapper amount ⟨chain, [probe], []⟩ with
            ⟨err, hrun⟩ | ⟨res, err, c, chain, hrun, hwithdraws, hret⟩
          · rw [hrun]
            refine tried_failure .withdrawTo hprobe ⟨?_, hdone _ List.mem_cons_self⟩
            intro h
            obtain ⟨c, hc, hwithdraw, _⟩ := h
            rw [hprobe c hc] at hwithdraw
            cases hwithdraw
          · rw [hrun]
            cases err with
            | none =>
              apply tried_call hmin hprobes hnames hwithdraws
              exact reports_success ⟨c, by simp, hwithdraws.isWithdrawTo, hret.mp rfl⟩
            | some err =>
              have hnone : ¬ ∃ x ∈ [probe, c], x.isWithdrawTo = true ∧ ∃ ret, x.Returned ret := by
                intro h
                obtain ⟨x, hx, hwithdraw, hreturned⟩ := h
                cases List.mem_cons.mp hx with
                | inl hx =>
                  rw [hx, hprobes.not_withdrawTo] at hwithdraw
                  cases hwithdraw
                | inr hx =>
                  rw [List.mem_singleton.mp hx] at hreturned
                  cases hret.mpr hreturned
              apply tried_call hmin hprobes hnames hwithdraws
              exact reports_failure .withdrawTo ⟨hnone, hdone _ List.mem_cons_self⟩ hnone

/-! ## The receipt -/

/-- What is checked before an unwrapping is tried. -/
structure Passes (m : UnwrapERC20IBCModule σ) (packet : Packet) (ack : Acknowledgement) (chain : σ)
    (data : FungibleTokenPacketData) (receiver : EthAddress) (coin : Coin) (pair : TokenPair) :
    Prop where
  succeeds : ack.success = true
  decodes : m.unmarshalJSON packet.data = some data
  asks : ∃ doc, Json.parse data.memo = some doc ∧ Json.Spells data.memo doc ∧ Unwraps doc
  parses : receiverToHexAddress m.codec data.receiver = some receiver
  received : coin = m.getReceivedCoin packet ⟨m.extractDenomFromPath data.denom, data.amount⟩
  found : m.getTokenPair (m.getTokenPairID coin.denom chain) chain = some pair
  enabled : pair.enabled = true
  native : pair.isNativeERC20 = true

theorem memo_iff {memo : Text} : shouldUnwrapFromIBCMemo memo = true ↔
    ∃ doc, Json.parse memo = some doc ∧ Json.Spells memo doc ∧ Unwraps doc := by
  rw [shouldUnwrapFromIBCMemo_iff]
  constructor
  · intro h
    obtain ⟨doc, hparse, hdoc⟩ := h
    exact ⟨doc, hparse, Json.parse_sound hparse, hdoc⟩
  · intro h
    obtain ⟨doc, hparse, _, hdoc⟩ := h
    exact ⟨doc, hparse, hdoc⟩

section Passing
variable {packet : Packet} {ack : Acknowledgement} {chain chain' : σ}
  {data data' : FungibleTokenPacketData} {receiver' : EthAddress} {coin coin' : Coin}
  {pair pair' : TokenPair}

namespace Passes

theorem data_eq (h : Passes m packet ack chain data receiver coin pair)
    (hdata : m.unmarshalJSON packet.data = some data') : data = data' :=
  Option.some.inj (h.decodes.symm.trans hdata)

theorem pair_eq (h : Passes m packet ack chain data receiver coin pair)
    (hdata : m.unmarshalJSON packet.data = some data')
    (hpair : m.getTokenPair (m.getTokenPairID (m.getReceivedCoin packet
      ⟨m.extractDenomFromPath data'.denom, data'.amount⟩).denom chain) chain = some pair') :
    pair = pair' := by
  have hfound := h.found
  rw [h.received, h.data_eq hdata, hpair] at hfound
  exact (Option.some.inj hfound).symm

/-- The packet and the chain fix what passes. -/
theorem unique (h : Passes m packet ack chain data receiver coin pair)
    (h' : Passes m packet ack chain data' receiver' coin' pair') :
    receiver' = receiver ∧ coin' = coin ∧ pair' = pair := by
  have hdata : data' = data := h'.data_eq h.decodes
  have hreceiver := h'.parses
  rw [hdata, h.parses] at hreceiver
  have hcoin : coin' = coin := by rw [h'.received, h.received, hdata]
  have hpair := h.found
  rw [h.received] at hpair
  exact ⟨(Option.some.inj hreceiver).symm, hcoin, h'.pair_eq h.decodes hpair⟩

end Passes

/-- A packet that passes is tried to unwrap; with any other the middleware does nothing. -/
theorem onRecvPacket_cases (happ : m.app packet chain = (some ack, chain')) :
    (∃ data receiver coin pair, Passes m packet ack chain' data receiver coin pair ∧
      m.onRecvPacket packet chain = .ok (ack, m.tryUnwrap coin.denom receiver
        (pair.getERC20Contract m.codec) coin.amount ⟨chain', [], []⟩)) ∨
    (∀ data receiver coin pair, ¬ Passes m packet ack chain' data receiver coin pair) ∧
      m.onRecvPacket packet chain = .ok (ack, ⟨chain', [], []⟩) := by
  unfold UnwrapERC20IBCModule.onRecvPacket
  rw [happ]
  simp only
  by_cases hack : ack.success = false
  · rw [if_pos hack]
    refine .inr ⟨?_, rfl⟩
    intro _ _ _ _ hpasses
    rw [hpasses.succeeds] at hack
    cases hack
  · rw [if_neg hack]
    cases hdata : m.unmarshalJSON packet.data with
    | none =>
      refine .inr ⟨?_, rfl⟩
      intro _ _ _ _ hpasses
      rw [hpasses.decodes] at hdata
      cases hdata
    | some data =>
      simp only
      by_cases hmemo : shouldUnwrapFromIBCMemo data.memo = false
      · rw [if_pos hmemo]
        refine .inr ⟨?_, rfl⟩
        intro _ _ _ _ hpasses
        have hasks := memo_iff.mpr hpasses.asks
        rw [hpasses.data_eq hdata, hmemo] at hasks
        cases hasks
      · rw [if_neg hmemo]
        cases hreceiver : receiverToHexAddress m.codec data.receiver with
        | none =>
          refine .inr ⟨?_, rfl⟩
          intro _ _ _ _ hpasses
          have hparses := hpasses.parses
          rw [hpasses.data_eq hdata, hreceiver] at hparses
          cases hparses
        | some receiver =>
          simp only
          cases hpair : m.getTokenPair (m.getTokenPairID
              (m.getReceivedCoin packet ⟨m.extractDenomFromPath data.denom, data.amount⟩).denom chain')
              chain' with
          | none =>
            refine .inr ⟨?_, rfl⟩
            intro _ _ _ _ hpasses
            have hfound := hpasses.found
            rw [hpasses.received, hpasses.data_eq hdata, hpair] at hfound
            cases hfound
          | some pair =>
            simp only
            by_cases hgate : pair.enabled = false ∨ pair.isNativeERC20 = false
            · rw [if_pos hgate]
              refine .inr ⟨?_, rfl⟩
              intro _ _ _ _ hpasses
              rw [← hpasses.pair_eq hdata hpair, hpasses.enabled, hpasses.native] at hgate
              exact absurd hgate (by decide)
            · rw [if_neg hgate]
              obtain ⟨henabled, hnative⟩ := not_or.mp hgate
              refine .inl ⟨data, receiver, _, pair, ⟨?_, hdata, ?_, hreceiver, rfl, hpair, ?_, ?_⟩, rfl⟩
              · exact Bool.eq_true_of_not_eq_false hack
              · exact memo_iff.mp (Bool.eq_true_of_not_eq_false hmemo)
              · exact Bool.eq_true_of_not_eq_false henabled
              · exact Bool.eq_true_of_not_eq_false hnative

end Passing

/-- **Unwrapping is opt-in and exact, and never changes the acknowledgement.** -/
theorem onRecvPacket_unwraps (m : UnwrapERC20IBCModule σ) {packet : Packet} {chain chain' : σ}
    {ack : Acknowledgement} (happ : m.app packet chain = (some ack, chain')) :
    ∃ w, m.onRecvPacket packet chain = .ok (ack, w) ∧
      (w.calls.filter EvmCall.isWithdrawTo).length ≤ 1 ∧
      (∀ c ∈ w.calls, c.isWithdrawTo = true →
        ∃ data receiver coin pair amount, Passes m packet ack chain' data receiver coin pair ∧
          coin.amount = some amount ∧ minWithdrawAmountWad ≤ amount ∧
          c.Withdraws receiver (pair.getERC20Contract m.codec) amount ∧
          ∃ probe ∈ w.calls, probe.Probes receiver (pair.getERC20Contract m.codec) ∧
            probe.NamesUnderlying) ∧
      ((¬ ∃ data receiver coin pair, Passes m packet ack chain' data receiver coin pair) →
        w = ⟨chain', [], []⟩) ∧
      ∀ data receiver coin pair, Passes m packet ack chain' data receiver coin pair →
        ∃ event, w.events = [event] ∧
          Reports receiver (pair.getERC20Contract m.codec) coin.amount w.calls event := by
  cases onRecvPacket_cases happ with
  | inl htried =>
    obtain ⟨data, receiver, coin, pair, hpasses, hrun⟩ := htried
    have htried := tryUnwrap_tried m coin.denom receiver (pair.getERC20Contract m.codec) coin.amount
      chain'
    refine ⟨_, hrun, htried.at_most_once, ?_, ?_, ?_⟩
    · intro c hc hwithdraw
      obtain ⟨amount, hamount, hmin, hwithdraws, hprobe⟩ := htried.withdraws c hc hwithdraw
      exact ⟨data, receiver, coin, pair, amount, hpasses, hamount, hmin, hwithdraws, hprobe⟩
    · intro hno
      exact absurd ⟨data, receiver, coin, pair, hpasses⟩ hno
    · intro data' receiver' coin' pair' hpasses'
      obtain ⟨hreceiver, hcoin, hpair⟩ := hpasses.unique hpasses'
      rw [hreceiver, hcoin, hpair]
      exact htried.event
  | inr hidle =>
    obtain ⟨hno, hrun⟩ := hidle
    refine ⟨_, hrun, Nat.zero_le 1, fun c hc => absurd hc List.not_mem_nil, fun _ => rfl, ?_⟩
    intro data receiver coin pair hpasses
    exact absurd hpasses (hno data receiver coin pair)

/-! ## Two receipts -/

def plainMemo : Text := Go.ascii "\x7b\"ark\":\x7b\"unwrap\":true\x7d\x7d"

def foldedMemo : Text := Go.ascii "\x7b\"ARK\":\x7b\"UNWRAP\":true\x7d\x7d"

def receiverText : String := "0x0000000000000000000000000000000000000001"

def wrapperText : String := "0x0000000000000000000000000000000000000002"

def transferOf (memo : Text) : FungibleTokenPacketData :=
  ⟨"uusd", "1000000000000", "sender", receiverText, memo⟩

/-- The transfer as JSON, with the quotes of the memo escaped. -/
def packetData (memo : Text) : Bytes :=
  Go.ascii "\x7b\"denom\":\"uusd\",\"amount\":\"1000000000000\",\"sender\":\"sender\"," ++
    Go.ascii "\"receiver\":\"" ++ Go.ascii receiverText ++ Go.ascii "\",\"memo\":\"" ++
    (memo.flatMap fun c => if c = 0x22 then [0x5c, 0x22] else [c]) ++ Go.ascii "\"\x7d"

def packetOf (memo : Text) : Packet :=
  ⟨"transfer", "channel-7", "transfer", "channel-0", packetData memo⟩

def receivedCoin : Coin := ⟨"ibc/uusd", some 1000000000000⟩

def wrapperPair : TokenPair := ⟨wrapperText, "ibc/uusd", true, .external⟩

/-- The two transfers. -/
def unmarshalTransfer (data : Bytes) : Option FungibleTokenPacketData :=
  if data = packetData plainMemo then some (transferOf plainMemo)
  else if data = packetData foldedMemo then some (transferOf foldedMemo)
  else none

theorem unmarshal_plain : unmarshalTransfer (packetData plainMemo) = some (transferOf plainMemo) := by
  rw [unmarshalTransfer, if_pos rfl]

theorem unmarshal_folded :
    unmarshalTransfer (packetData foldedMemo) = some (transferOf foldedMemo) := by
  have hne : ¬ packetData foldedMemo = packetData plainMemo := by decide +kernel
  rw [unmarshalTransfer, if_neg hne, if_pos rfl]

/-- One pair, and a wrapper that answers. -/
def smallModule : UnwrapERC20IBCModule Unit where
  app _ _ := (some ⟨true, []⟩, ())
  getTokenPairID _ _ := [1]
  getTokenPair _ _ := some wrapperPair
  evmCaller := ⟨fun _ _ data _ _ _ =>
    if data = erc20WrapperUnderlyingCallData then ((some (List.replicate 32 1), none), ())
    else ((some [], none), ())⟩
  codec := arkCodec
  unmarshalJSON := unmarshalTransfer
  extractDenomFromPath denom := ⟨denom, []⟩
  getReceivedCoin _ _ := receivedCoin

theorem smallModule_unmarshal (memo : Text) :
    smallModule.unmarshalJSON (packetOf memo).data = unmarshalTransfer (packetData memo) := by
  simp only [smallModule, packetOf]

theorem plainMemo_asks :
    ∃ doc, Json.parse plainMemo = some doc ∧ Json.Spells plainMemo doc ∧ Unwraps doc :=
  memo_iff.mp (by decide +kernel)

theorem receiver_parses : receiverToHexAddress arkCodec receiverText =
    some (.ofBytes (arkCodec.hexToAddress receiverText)) := by
  have hhex : arkCodec.isHexAddress receiverText = true := by decide +kernel
  rw [receiverToHexAddress, if_pos hhex]

theorem plainMemo_passes : Passes smallModule (packetOf plainMemo) ⟨true, []⟩ ()
    (transferOf plainMemo) (.ofBytes (arkCodec.hexToAddress receiverText)) receivedCoin wrapperPair where
  succeeds := rfl
  decodes := by rw [smallModule_unmarshal, unmarshal_plain]
  asks := plainMemo_asks
  parses := receiver_parses
  received := rfl
  found := rfl
  enabled := rfl
  native := rfl

theorem plain_unwraps : ∃ w event,
    smallModule.onRecvPacket (packetOf plainMemo) () = .ok (⟨true, []⟩, w) ∧ w.events = [event] ∧
      Reports (.ofBytes (arkCodec.hexToAddress receiverText)) (wrapperPair.getERC20Contract arkCodec)
        (some 1000000000000) w.calls event := by
  have happ : smallModule.app (packetOf plainMemo) () = (some ⟨true, []⟩, ()) := rfl
  obtain ⟨w, hrun, _, _, _, hevent⟩ := onRecvPacket_unwraps smallModule happ
  obtain ⟨event, hevents, hreports⟩ := hevent _ _ _ _ plainMemo_passes
  exact ⟨w, event, hrun, hevents, hreports⟩

/-- The values of a field that has this very name. -/
def exactlyUnder (field : String) : Json → List Json
  | .object fields => (fields.filter fun f => f.1 = Json.runes field).map Prod.snd
  | _ => []

/-- Some `ark.unwrap` is true, the names taken as they are. -/
def unwrapsExactly (doc : Json) : Bool :=
  ((exactlyUnder "ark" doc).flatMap (exactlyUnder "unwrap")).any fun v => Json.asBool v = some true

/-- `withdrawTo` is called for a memo that has no `ark`. -/
theorem folded_unwraps :
    smallModule.unmarshalJSON (packetOf foldedMemo).data = some (transferOf foldedMemo) ∧
      ((smallModule.onRecvPacket (packetOf foldedMemo) ()).toOption.any fun res =>
        res.2.calls.any EvmCall.isWithdrawTo) = true ∧
      (Json.parse (transferOf foldedMemo).memo).any unwrapsExactly = false := by
  refine ⟨?_, by decide +kernel, by decide +kernel⟩
  rw [smallModule_unmarshal, unmarshal_folded]

end Ark.UnwrapERC20
