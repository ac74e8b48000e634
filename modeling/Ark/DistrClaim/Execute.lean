import Ark.DistrClaim.Abi
import Ark.DistrClaim.Claiming

/- The entry of the precompile (`precompile.go`): the selector picks the method, a call
   that writes is refused in a static context, and what is left of the input is decoded.

   Between an EVM caller and the claim stands the codec (`Precompile.speaking`). A call
   that is encoded is carried out as what it says (`Precompile.perform`), whatever bytes
   follow it; anything else is refused with nothing done; and a result that comes back
   decodes to the amount that was claimed (`execute_speaks`).

   `RunNativeAction`, which gives the call its context and reverts what a failing one has
   done, and the rates of `RequiredGas` are not this repository's code. -/
namespace Ark.DistrClaim
open Ark.Lib Ark.Lib.Effect Ark.Lib.Positional
open Ark.Gov (Fault)

/-- `vm.ErrWriteProtection`. -/
def errWriteProtection : String := "write protection"

/-- `binary.BigEndian.Uint32`. -/
def uint32 (input : Bytes) : UInt32 := .ofNat (ofBigEndian (input.take 4))

def splitMethodID (input : Bytes) : Except String (UInt32 × Bytes) :=
  if input.length < 4 then .error "invalid input length"
  else .ok (uint32 input, input.drop 4)

def isTransactionID (methodID : UInt32) : Bool := methodID == claimRewardsAndConvertCoinID

/-- `rates` is the `RequiredGas` of the precompile that this one embeds. -/
def requiredGas (rates : Bytes → Bool → UInt64) (input : Bytes) : UInt64 :=
  if input.length < 4 then 0 else rates input (isTransactionID (uint32 input))

section
variable {σ Coins : Type} (p : Precompile σ Coins)

def Precompile.execute (blockHeight : Int) (input : Bytes) (evm : Option (Evm σ))
    (caller : EthAddress) (readOnly : Bool) : ClaimM σ Coins Bytes := do
  let (methodID, input) ← orFail (splitMethodID input)
  throwIf (readOnly = true ∧ isTransactionID methodID = true) (.err errWriteProtection)
  if methodID = claimRewardsAndConvertCoinID then
    p.runClaimRewardsAndConvertCoin blockHeight input evm caller
  else
    throw (.err s!"unknown method id: {methodID}")

/-- The precompile with the codec of `distrclaim.abi.go`. -/
def Precompile.speaking (lib : GoAbi) : Precompile σ Coins :=
  { p with
    decode := fun data => (ClaimRewardsAndConvertCoinCall.decode lib data).map Prod.fst
    encode := fun amount => ClaimRewardsAndConvertCoinReturn.encode lib { amount } }

/-- What `runClaimRewardsAndConvertCoin` does with a call once it is decoded. -/
def Precompile.perform (blockHeight : Int) (call : ClaimRewardsAndConvertCoinCall)
    (evm : Option (Evm σ)) (caller : EthAddress) : ClaimM σ Coins Bytes := do
  throwIf (call.delegator = .zero)
    (.err (p.formats.errInvalidDelegator (p.codec.hexText call.delegator.bytes)))
  throwIf (call.denom = "") (.err (p.formats.errInvalidType "denom" "string" call.denom))
  let amount ← p.claimRewardsAndConvertCoin call.delegator call.maxRetrieve call.denom evm caller
  p.emitClaimRewardsAndConvertCoinEvent blockHeight evm call.delegator call.denom amount
  orFail (p.encode amount)

/-- The input asks for `call`. -/
def Asks (lib : GoAbi) (input : Bytes) (call : ClaimRewardsAndConvertCoinCall) : Prop :=
  ∃ args n, input = claimRewardsAndConvertCoinSelector ++ args ∧
    ClaimRewardsAndConvertCoinCall.decode lib args = .ok (call, n)

/-! ## The selector -/

theorem uint32_selector (args : Bytes) :
    uint32 (claimRewardsAndConvertCoinSelector ++ args) = claimRewardsAndConvertCoinID := by
  have hlen : claimRewardsAndConvertCoinSelector.length = 4 := rfl
  rw [uint32, List.take_left' hlen]
  decide

/-- Claims are charged as calls that write. -/
theorem requiredGas_selector (rates : Bytes → Bool → UInt64) (args : Bytes) :
    requiredGas rates (claimRewardsAndConvertCoinSelector ++ args) =
      rates (claimRewardsAndConvertCoinSelector ++ args) true := by
  have hlong : ¬ (claimRewardsAndConvertCoinSelector ++ args).length < 4 := by
    simp [claimRewardsAndConvertCoinSelector]
  rw [requiredGas, if_neg hlong, uint32_selector]
  rfl

/-- Four bytes are told by the number they spell. -/
theorem eq_selector {head : Bytes} (hlen : head.length = 4)
    (h : UInt32.ofNat (ofBigEndian head) = claimRewardsAndConvertCoinID) :
    head = claimRewardsAndConvertCoinSelector := by
  have hbytes : ∀ d ∈ head.map UInt8.toNat, d < 256 := by
    intro d hd
    obtain ⟨byte, _, hbyte⟩ := List.mem_map.mp hd
    rw [← hbyte]
    exact byte.toNat_lt
  have hlt : ofBigEndian head < 256 ^ 4 := by
    have h := value_lt hbytes (by decide)
    rwa [List.length_map, hlen] at h
  have hnumber : ofBigEndian head = 2345070611 := by
    have h := congrArg UInt32.toNat h
    rwa [UInt32.toNat_ofNat_of_lt' hlt] at h
  have hdigits := digits_value (head.map UInt8.toNat) hbytes
  rw [List.length_map, hlen] at hdigits
  have hmap : head.map UInt8.toNat = claimRewardsAndConvertCoinSelector.map UInt8.toNat := by
    calc head.map UInt8.toNat
        = digits 256 4 (ofBigEndian head) := hdigits.symm
      _ = digits 256 4 2345070611 := by rw [hnumber]
      _ = claimRewardsAndConvertCoinSelector.map UInt8.toNat := by decide
  exact List.map_injective_iff.mpr (fun a b => UInt8.toNat_inj.mp) hmap

/-- An input is split behind the selector, or it does not begin with it. -/
theorem splitMethodID_cases (input : Bytes) :
    (∃ args, input = claimRewardsAndConvertCoinSelector ++ args ∧
      splitMethodID input = .ok (claimRewardsAndConvertCoinID, args)) ∨
    (∀ args, input ≠ claimRewardsAndConvertCoinSelector ++ args) ∧
      ((∃ err, splitMethodID input = .error err) ∨
        ∃ methodID args, methodID ≠ claimRewardsAndConvertCoinID ∧
          splitMethodID input = .ok (methodID, args)) := by
  unfold splitMethodID
  by_cases hshort : input.length < 4
  · right
    refine ⟨?_, .inl ⟨_, if_pos hshort⟩⟩
    intro args h
    rw [h, List.length_append] at hshort
    exact absurd hshort (by simp [claimRewardsAndConvertCoinSelector])
  · rw [if_neg hshort]
    by_cases hid : uint32 input = claimRewardsAndConvertCoinID
    · left
      have hhead := eq_selector (List.length_take_of_le (Nat.not_lt.mp hshort)) hid
      refine ⟨input.drop 4, ?_, by rw [hid]⟩
      rw [← hhead, List.take_append_drop]
    · right
      refine ⟨?_, .inr ⟨_, _, hid, rfl⟩⟩
      intro args h
      rw [h] at hid
      exact hid (uint32_selector args)

variable {p}

/-! ## The dispatch -/

theorem asks_unique {lib : GoAbi} {input : Bytes} {call call' : ClaimRewardsAndConvertCoinCall}
    (h : Asks lib input call) (h' : Asks lib input call') : call = call' := by
  obtain ⟨args, n, hinput, hdecode⟩ := h
  obtain ⟨args', n', hinput', hdecode'⟩ := h'
  rw [List.append_cancel_left (hinput.symm.trans hinput'), hdecode'] at hdecode
  cases hdecode
  rfl

/-- An execution carries out the call that is asked for, or stops with nothing done. -/
theorem execute_cases (p : Precompile σ Coins) (lib : GoAbi) (blockHeight : Int) (input : Bytes)
    (evm : Option (Evm σ)) (caller : EthAddress) (readOnly : Bool) (w : World σ Coins) :
    (∃ call, (readOnly = false ∧ Asks lib input call) ∧
      (p.speaking lib).execute blockHeight input evm caller readOnly w =
        (p.speaking lib).perform blockHeight call evm caller w) ∨
    (readOnly = true ∨ ∀ call, ¬ Asks lib input call) ∧
      ∃ fault, (p.speaking lib).execute blockHeight input evm caller readOnly w =
        .error fault w := by
  unfold Precompile.execute
  cases splitMethodID_cases input with
  | inr hother =>
    obtain ⟨hinput, hsplit⟩ := hother
    refine .inr ⟨.inr fun call h => ?_, ?_⟩
    · obtain ⟨args, n, h, _⟩ := h
      exact hinput args h
    · cases hsplit with
      | inl h =>
        obtain ⟨err, h⟩ := h
        exact ⟨.err err, by rw [h]; rfl⟩
      | inr h =>
        obtain ⟨methodID, args, hne, h⟩ := h
        have hwrites : ¬ (readOnly = true ∧ isTransactionID methodID = true) := by
          simp [isTransactionID, hne]
        refine ⟨.err s!"unknown method id: {methodID}", ?_⟩
        rw [h]
        show (throwIf _ _ >>= _) w = _
        rw [throwIf_neg hwrites]
        simp only [if_neg hne]
        rfl
  | inl hselector =>
    obtain ⟨args, hinput, hsplit⟩ := hselector
    rw [hsplit]
    show (∃ call, _ ∧ (throwIf _ _ >>= _) w = _) ∨ _ ∧ ∃ fault, (throwIf _ _ >>= _) w = _
    cases readOnly with
    | true => exact .inr ⟨.inl rfl, .err errWriteProtection, rfl⟩
    | false =>
      show (∃ call, _ ∧ (orFail _ >>= _) w = _) ∨ _ ∧ ∃ fault, (orFail _ >>= _) w = _
      cases hdecode : ClaimRewardsAndConvertCoinCall.decode lib args with
      | ok decoded =>
        refine .inl ⟨decoded.1, ⟨rfl, args, decoded.2, hinput, hdecode⟩, ?_⟩
        have hargs : (p.speaking lib).decode args = .ok decoded.1 := by
          show (ClaimRewardsAndConvertCoinCall.decode lib args).map Prod.fst = _
          rw [hdecode]
          rfl
        rw [hargs]
        rfl
      | error err =>
        refine .inr ⟨.inr fun call h => ?_, .err err, ?_⟩
        · obtain ⟨args', n, hinput', h⟩ := h
          rw [List.append_cancel_left (hinput.symm.trans hinput')] at hdecode
          rw [h] at hdecode
          cases hdecode
        · have hargs : (p.speaking lib).decode args = .error err := by
            show (ClaimRewardsAndConvertCoinCall.decode lib args).map Prod.fst = _
            rw [hdecode]
            rfl
          rw [hargs]
          rfl

theorem execute_asked {lib : GoAbi} {input : Bytes} {call : ClaimRewardsAndConvertCoinCall}
    (h : Asks lib input call) (blockHeight : Int) (evm : Option (Evm σ)) (caller : EthAddress)
    (w : World σ Coins) :
    (p.speaking lib).execute blockHeight input evm caller false w =
      (p.speaking lib).perform blockHeight call evm caller w := by
  cases execute_cases p lib blockHeight input evm caller false w with
  | inl hrun =>
    obtain ⟨call', ⟨_, hcall'⟩, hrun⟩ := hrun
    rw [hrun, asks_unique h hcall']
  | inr hstop =>
    obtain ⟨hnone, _⟩ := hstop
    exact absurd h (hnone.resolve_left Bool.false_ne_true call)

theorem asks_encoded {lib : GoAbi} (hlib : lib.Lawful) (call : ClaimRewardsAndConvertCoinCall)
    (hdenom : Short call.denom) (rest : Bytes) :
    Asks lib (claimRewardsAndConvertCoinSelector ++ call.words ++ rest) call :=
  ⟨call.words ++ rest, _, List.append_assoc _ _ _,
    ClaimRewardsAndConvertCoinCall.decode_words hlib call hdenom rest⟩

/-! ## A call that succeeds -/

/-- The log of a claim, where there is a state to log to. -/
def Logged (p : Precompile σ Coins) (blockHeight : Int) (evm : Option (Evm σ))
    (call : ClaimRewardsAndConvertCoinCall) (amount : Int) (logs : List Log) : Prop :=
  if ∃ vm ∈ evm, vm.hasStateDB = true then
    ∃ packed, p.pack call.denom amount = .ok packed ∧
      logs = [{ address := p.contractAddress
                topics := [p.claimRewardsAndConvertCoinEventID, topicAddress call.delegator]
                data := packed
                blockNumber := .ofInt (max blockHeight 0) }]
  else logs = []

theorem emitClaimRewardsAndConvertCoinEvent_ok {blockHeight : Int} {evm : Option (Evm σ)}
    {call : ClaimRewardsAndConvertCoinCall} {amount : Int} {u : Unit} {s t : World σ Coins}
    (h : p.emitClaimRewardsAndConvertCoinEvent blockHeight evm call.delegator call.denom amount s =
      .ok u t) :
    t.calls = s.calls ∧ ∃ logs, t.logs = s.logs ++ logs ∧
      Logged p blockHeight evm call amount logs := by
  unfold Precompile.emitClaimRewardsAndConvertCoinEvent at h
  unfold Logged
  cases evm with
  | none =>
    obtain ⟨_, ht⟩ := pure_ok.mp h
    rw [← ht]
    exact ⟨rfl, [], by simp, by simp⟩
  | some vm =>
    by_cases hdb : vm.hasStateDB = false
    · simp only [hdb, if_true] at h
      obtain ⟨_, ht⟩ := pure_ok.mp h
      rw [← ht]
      exact ⟨rfl, [], by simp, by simp [hdb]⟩
    · have hdb' : vm.hasStateDB = true := Bool.of_not_eq_false hdb
      simp only [if_neg hdb] at h
      obtain ⟨packed, s₁, hpack, h⟩ := bind_ok.mp h
      obtain ⟨hpack, hs₁⟩ := orFail_ok.mp hpack
      have hheight : (if blockHeight < 0 then 0 else blockHeight) = max blockHeight 0 := by
        split <;> omega
      rw [hheight] at h
      cases h
      rw [hs₁]
      refine ⟨rfl, _, rfl, ?_⟩
      rw [if_pos ⟨vm, rfl, hdb'⟩]
      exact ⟨packed, hpack, rfl⟩

theorem useGas_eq {w w' : World σ Coins} {gas : UInt64} (h : w.useGas gas = some w') :
    w' = { w with gas := w'.gas } := by
  unfold World.useGas at h
  split at h
  · cases h
  · rw [← Option.some.inj h]

/-- What comes after a static call changes the gas, and nothing else. -/
theorem settleProbe_eq (gas : UInt64) (res : StaticResult) (w : World σ Coins) :
    ∃ left, (settleProbe gas res w).2 = { w with gas := left } := by
  unfold settleProbe
  cases res.err with
  | some err => exact ⟨w.gas, rfl⟩
  | none =>
    simp only
    cases hpaid : (if gas - res.left > 0 then w.useGas (gas - res.left) else some w) with
    | none => exact ⟨w.gas, rfl⟩
    | some w' =>
      have hw' : w' = { w with gas := w'.gas } := by
        split at hpaid
        · exact useGas_eq hpaid
        · rw [← Option.some.inj hpaid]
      cases decodeABIAddress32 res.ret with
      | error err => exact ⟨w'.gas, hw'⟩
      | ok underlying => exact ⟨w'.gas, hw'⟩

theorem settleProbe_logs (gas : UInt64) (res : StaticResult) (w : World σ Coins) :
    (settleProbe gas res w).2.logs = w.logs := by
  obtain ⟨left, h⟩ := settleProbe_eq gas res w
  rw [h]

/-- Unwrapping logs nothing. -/
theorem tryUnwrapWrapper_logs (p : Precompile σ Coins) (evm : Option (Evm σ))
    (caller : EthAddress) (denom : String) (amountWad : Int) (w : World σ Coins) :
    (p.tryUnwrapWrapper evm caller denom amountWad w).logs = w.logs := by
  cases p.tryUnwrapWrapper_cases evm caller denom amountWad w with
  | inl h => rw [h]
  | inr h =>
    obtain ⟨vm, wrapper, chain, _, h⟩ := h
    rw [h]
    exact settleProbe_logs _ _ _

theorem orFail_logs {α : Type} (x : Except String α) :
    Keeps World.logs (orFail x : ClaimM σ Coins α) := by
  intro s a t h
  rw [(orFail_ok.mp h).2]

theorem orPanic_logs {α : Type} (text : String) (x : Option α) :
    Keeps World.logs (orPanic text x : ClaimM σ Coins α) := by
  intro s a t h
  rw [(orPanic_ok.mp h).2]

theorem throwIf_logs (c : Prop) [Decidable c] (fault : Fault) :
    Keeps World.logs (throwIf c fault : ClaimM σ Coins Unit) := by
  intro s a t h
  rw [(throwIf_ok.mp h).2]

theorem ask_logs {α : Type} (record : Except String α → Call Coins) (op : KeeperM σ α) :
    Keeps World.logs (ask record op) := by
  intro s a t h
  obtain ⟨chain, _, ht⟩ := ask_ok.mp h
  rw [ht]

theorem checkDelegator_logs (delegatorAddr : EthAddress) (maxRetrieve : UInt32)
    (caller : EthAddress) : Keeps World.logs (p.checkDelegator delegatorAddr maxRetrieve caller) := by
  refine .bind' (ask_logs _ _) fun maxVals => .bind' (throwIf_logs _ _) fun _ =>
    .bind' (throwIf_logs _ _) fun _ => .bind' (orFail_logs _) fun delegatorBech32 =>
    .bind' (ask_logs _ _) fun withdrawAddr => .bind' (orFail_logs _) fun withdrawBech32 =>
    .bind' (throwIf_logs _ _) fun _ => .pure' _

theorem withdrawFrom_logs (delegatorAddr : EthAddress) (totalCoins : Coins) (operator : String) :
    Keeps World.logs (p.withdrawFrom delegatorAddr totalCoins operator) :=
  .bind' (orFail_logs _) fun _ => .bind' (ask_logs _ _) fun _ => orPanic_logs _ _

theorem convertTotal_logs (delegatorAddr : EthAddress) (delegatorBech32 denom : String)
    (evm : Option (Evm σ)) (caller : EthAddress) (totalCoins : Coins) :
    Keeps World.logs
      (p.convertTotal delegatorAddr delegatorBech32 denom evm caller totalCoins) := by
  refine .bind' (orPanic_logs _ _) fun amount => ?_
  by_cases hpos : amount > 0
  · rw [if_pos hpos]
    exact .bind' (ask_logs _ _) fun _ =>
      .bind' (.modify' (tryUnwrapWrapper_logs p evm caller denom amount)) fun _ => .pure' _
  · rw [if_neg hpos]
    exact .pure' _

/-- A claim logs nothing. -/
theorem claimRewardsAndConvertCoin_logs (delegatorAddr : EthAddress) (maxRetrieve : UInt32)
    (denom : String) (evm : Option (Evm σ)) (caller : EthAddress) :
    Keeps World.logs
      (p.claimRewardsAndConvertCoin delegatorAddr maxRetrieve denom evm caller) :=
  .bind' (checkDelegator_logs delegatorAddr maxRetrieve caller) fun delegatorBech32 =>
    .bind' (ask_logs _ _) fun validators =>
      .bind' (.foldlM' (withdrawFrom_logs delegatorAddr) validators _) fun totalCoins =>
        convertTotal_logs delegatorAddr delegatorBech32 denom evm caller totalCoins

theorem perform_ok (hcoins : p.coins.Lawful) (hvalid : p.ValidWithdrawals)
    (hcodec : p.Distinguishes) {blockHeight : Int} {call : ClaimRewardsAndConvertCoinCall}
    {evm : Option (Evm σ)} {caller : EthAddress} {out : Bytes} {s t : World σ Coins}
    (h : p.perform blockHeight call evm caller s = .ok out t) :
    call.delegator = caller ∧ ∃ amount calls logs,
      t.calls = s.calls ++ calls ∧
      Claimed p call.delegator call.maxRetrieve call.denom amount calls ∧
      t.logs = s.logs ++ logs ∧ Logged p blockHeight evm call amount logs ∧
      p.encode amount = .ok out := by
  unfold Precompile.perform at h
  obtain ⟨_, s₁, h₁, h⟩ := bind_ok.mp h
  obtain ⟨_, s₂, h₂, h⟩ := bind_ok.mp h
  obtain ⟨amount, s₃, h₃, h⟩ := bind_ok.mp h
  obtain ⟨_, s₄, h₄, h⟩ := bind_ok.mp h
  obtain ⟨hencode, ht⟩ := orFail_ok.mp h
  obtain ⟨hcaller, calls, hcalls, hclaimed⟩ :=
    claimRewardsAndConvertCoin_ok hcoins hvalid hcodec h₃
  have hlogs := claimRewardsAndConvertCoin_logs _ _ _ _ _ _ _ _ h₃
  obtain ⟨hsame, logs, hemit, hlogged⟩ := emitClaimRewardsAndConvertCoinEvent_ok h₄
  rw [← ht, hsame, hcalls, hemit, hlogs, ← (throwIf_ok.mp h₂).2, ← (throwIf_ok.mp h₁).2]
  exact ⟨hcaller.symm, amount, calls, logs, rfl, hclaimed, rfl, hlogged, hencode⟩

/-! ## The precompile and its callers -/

/-- What the encoder writes, an execution carries out as the call it is, whatever bytes follow. An
input that asks for no call is refused with nothing done, and so is any call in a static context.
An execution that succeeds has carried out the call that its input asks for, which is one of its
caller's, has logged it once where there is a state to log to, and returns the claimed amount in
ABI. -/
theorem execute_speaks (p : Precompile σ Coins) (hcoins : p.coins.Lawful)
    (hvalid : p.ValidWithdrawals) (hcodec : p.Distinguishes) (lib : GoAbi) (hlib : lib.Lawful)
    (blockHeight : Int) (evm : Option (Evm σ)) (caller : EthAddress) (w : World σ Coins) :
    (∀ call : ClaimRewardsAndConvertCoinCall, Short call.denom →
      ∃ data, call.encodeWithSelector lib = .ok data ∧ ∀ rest,
        Asks lib (data ++ rest) call ∧
        (∀ rates, requiredGas rates (data ++ rest) = rates (data ++ rest) true) ∧
        (p.speaking lib).execute blockHeight (data ++ rest) evm caller false w =
          (p.speaking lib).perform blockHeight call evm caller w) ∧
    ∀ input readOnly,
      ((readOnly = true ∨ ∀ call, ¬ Asks lib input call) →
        ∃ fault, (p.speaking lib).execute blockHeight input evm caller readOnly w =
          .error fault w) ∧
      ∀ out t, (p.speaking lib).execute blockHeight input evm caller readOnly w = .ok out t →
        ∃ call amount calls logs, readOnly = false ∧ Asks lib input call ∧
          call.delegator = caller ∧
          t.calls = w.calls ++ calls ∧
          Claimed p caller call.maxRetrieve call.denom amount calls ∧
          t.logs = w.logs ++ logs ∧ Logged p blockHeight evm call amount logs ∧
          ∀ rest, ClaimRewardsAndConvertCoinReturn.decode lib (out ++ rest) =
            .ok ({ amount }, 32) := by
  refine ⟨fun call hdenom => ?_, fun input readOnly => ⟨fun hrefused => ?_, fun out t h => ?_⟩⟩
  · refine ⟨_, ClaimRewardsAndConvertCoinCall.encodeWithSelector_eq hlib call hdenom,
      fun rest => ?_⟩
    have hasks := asks_encoded hlib call hdenom rest
    refine ⟨hasks, fun rates => ?_, execute_asked hasks blockHeight evm caller w⟩
    rw [List.append_assoc]
    exact requiredGas_selector rates _
  · cases execute_cases p lib blockHeight input evm caller readOnly w with
    | inl h =>
      obtain ⟨call, ⟨hwrite, hcall⟩, _⟩ := h
      cases hrefused with
      | inl hread => exact absurd (hwrite.symm.trans hread) Bool.false_ne_true
      | inr hnone => exact absurd hcall (hnone call)
    | inr h => exact h.2
  · cases execute_cases p lib blockHeight input evm caller readOnly w with
    | inl hrun =>
      obtain ⟨call, ⟨hwrite, hcall⟩, hrun⟩ := hrun
      obtain ⟨hcaller, amount, calls, logs, hcalls, hclaimed, hlogs, hlogged, hout⟩ :=
        perform_ok (p := p.speaking lib) hcoins hvalid hcodec (hrun.symm.trans h)
      have hencode : ClaimRewardsAndConvertCoinReturn.encode lib { amount } = .ok out := hout
      obtain ⟨_, _, hdecode⟩ := ClaimRewardsAndConvertCoinReturn.decode_encode hlib hencode
      rw [hcaller] at hclaimed
      exact ⟨call, amount, calls, logs, hwrite, hcall, hcaller, hcalls, hclaimed, hlogs, hlogged,
        hdecode⟩
    | inr hstop =>
      obtain ⟨_, fault, hstop⟩ := hstop
      rw [hstop] at h
      cases h

end

/-! ## A call of the delegator of two validators -/

def sampleCall : ClaimRewardsAndConvertCoinCall :=
  { delegator := .ofBytes [9], maxRetrieve := 5, denom := "aom" }

set_option maxRecDepth 4000 in
theorem sampleCall_performed :
    ∃ t, (samplePrecompile.speaking goAbi).perform 1 sampleCall none (.ofBytes [9]) sampleStart =
      .ok (bytes32 8) t :=
  ⟨_, rfl⟩

/-- The call data has one byte too many; what comes back decodes to what was claimed. -/
theorem sampleCall_executed :
    ∃ data t amount calls, sampleCall.encodeWithSelector goAbi = .ok data ∧
      (samplePrecompile.speaking goAbi).execute 1 (data ++ [7]) none (.ofBytes [9]) false
        sampleStart = .ok (bytes32 8) t ∧
      Claimed samplePrecompile (.ofBytes [9]) 5 "aom" amount calls ∧
      ClaimRewardsAndConvertCoinReturn.decode goAbi (bytes32 8) = .ok ({ amount }, 32) := by
  obtain ⟨hencoded, hany⟩ := execute_speaks samplePrecompile sdkCoins_lawful
    samplePrecompile_valid samplePrecompile_distinguishes goAbi goAbi_lawful 1 none (.ofBytes [9])
    sampleStart
  have hshort : Short sampleCall.denom := by
    unfold Short sampleCall
    decide
  obtain ⟨data, hdata, hrest⟩ := hencoded sampleCall hshort
  obtain ⟨hasks, _, hrun⟩ := hrest [7]
  obtain ⟨t, hperformed⟩ := sampleCall_performed
  rw [hperformed] at hrun
  obtain ⟨_, hdone⟩ := hany (data ++ [7]) false
  obtain ⟨call, amount, calls, logs, _, hcall, _, _, hclaimed, _, _, hdecode⟩ := hdone _ t hrun
  rw [asks_unique hcall hasks] at hclaimed
  refine ⟨data, t, amount, calls, hdata, hrun, hclaimed, ?_⟩
  have h := hdecode []
  rwa [List.append_nil] at h

end Ark.DistrClaim
