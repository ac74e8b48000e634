import Mathlib.Data.List.Perm.Basic
import Ark.Sanction

/- What the two decorators let through.

   `Blacklisted` speaks of accounts: some key of the store names the account. Over
   a store of canonical keys this is what the decorators look up
   (`Canonical.blacklisted_iff`). `Clean` says that nobody a transaction acts for is
   blacklisted, wherever the account stands in it, and that what could hide an
   account does not occur; the checks succeed exactly on clean transactions whose
   signers can be looked up (`blacklistChecks_ok`), and neither they nor those of
   the EVM route depend on the order of the messages. -/
namespace Ark.Sanction
open Ark.Sdk Ark.Lib Ark.Lib.Checks

section
variable (codec : AddressCodec)

/-- Every key is the printed form of the address it parses to. -/
def Canonical (blacklist : KeySet String) : Prop :=
  ∀ key ∈ blacklist, ∃ a, codec.accAddressFromBech32 key = .ok a ∧ codec.string a = key

/-- Some key names the account. -/
def Blacklisted (blacklist : KeySet String) (a : Address) : Prop :=
  ∃ key ∈ blacklist, codec.accAddressFromBech32 key = .ok a

end

section
variable {codec : AddressCodec} {blacklist : KeySet String}

theorem Canonical.blacklisted_iff (h : Canonical codec blacklist) (hcodec : codec.Lawful)
    (a : Address) : Blacklisted codec blacklist a ↔ codec.string a ∈ blacklist := by
  constructor
  · intro ⟨key, hkey, ha⟩
    obtain ⟨b, hb, hprint⟩ := h key hkey
    rw [hb, Except.ok.injEq] at ha
    rw [← ha, hprint]
    exact hkey
  · intro hmem
    obtain ⟨b, hb, hprint⟩ := h _ hmem
    rw [hcodec.string_injective b a hprint] at hb
    exact ⟨_, hmem, hb⟩

end

variable {Msg : Type} (types : MsgTypes Msg) (codec : AddressCodec) (blacklist : KeySet String)

/-- The signers of a transaction, and of the messages inside its `MsgExec`, can be looked up. -/
structure Readable (tx : Tx Msg) : Prop where
  signers : ∃ signers, tx.sigTx = some (.ok signers)
  inner : ∀ msg ∈ tx.getMsgs, ∀ getMessages, types.msgExec msg = some getMessages →
    ∃ innerMsgs, getMessages = .ok innerMsgs ∧
      ∀ innerMsg ∈ innerMsgs, ∃ signers, types.getMsgV1Signers innerMsg = .ok signers

/-- Nobody that the transaction acts for is blacklisted. -/
structure Clean (tx : Tx Msg) : Prop where
  signers : ∀ signers, tx.sigTx = some (.ok signers) →
    ∀ signer ∈ signers, ¬ Blacklisted codec blacklist signer
  feeGranter : ∀ granter, tx.feeTx = some (some granter) → ¬ Blacklisted codec blacklist granter
  single : tx.getMsgs.countP (fun msg => (types.msgExec msg).isSome) ≤ 1
  nested : ∀ msg ∈ tx.getMsgs, ∀ innerMsgs, types.msgExec msg = some (.ok innerMsgs) →
    ∀ innerMsg ∈ innerMsgs, types.msgExec innerMsg = none
  granter : ∀ msg ∈ tx.getMsgs, ∀ innerMsgs, types.msgExec msg = some (.ok innerMsgs) →
    ∀ innerMsg ∈ innerMsgs, ∀ granter rest, types.getMsgV1Signers innerMsg = .ok (granter :: rest) →
      ¬ Blacklisted codec blacklist granter

/-- Every message is an Ethereum message whose sender is not blacklisted. -/
def EvmClean (tx : Tx Msg) : Prop :=
  ∀ msg ∈ tx.getMsgs, ∃ sender, types.unpackEthMsg msg = .ok sender ∧
    ¬ Blacklisted codec blacklist sender

section
variable {types codec blacklist} {tx : Tx Msg}

theorem rejectBlacklisted_ok (h : Canonical codec blacklist) (hcodec : codec.Lawful) {a : Address}
    {text : String} : rejectBlacklisted codec blacklist a text = .ok () ↔
      ¬ Blacklisted codec blacklist a := by
  rw [rejectBlacklisted, failIf_ok, h.blacklisted_iff hcodec]

theorem countMsgExec_ok (types : MsgTypes Msg) (msgs : List Msg) {n : Nat} (hn : n ≤ 1) :
    (∃ count, countMsgExec types n msgs = .ok count) ↔
      n + msgs.countP (fun msg => (types.msgExec msg).isSome) ≤ 1 := by
  induction msgs generalizing n with
  | nil => simp [countMsgExec, hn]
  | cons msg msgs ih =>
    rw [countMsgExec, List.countP_cons]
    by_cases hexec : (types.msgExec msg).isSome = true
    · simp only [hexec, if_true, bind_ok, failIf_ok, exists_and_left, exists_const]
      constructor
      · intro h
        obtain ⟨hfirst, hrest⟩ := h
        have hle := (ih (by omega)).mp hrest
        omega
      · intro hle
        exact ⟨by omega, (ih (by omega)).mpr (by omega)⟩
    · rw [if_neg hexec, ih hn]
      simp [hexec]

theorem checkInner_ok (h : Canonical codec blacklist) (hcodec : codec.Lawful) {innerMsg : Msg} :
    checkInner codec types blacklist innerMsg = .ok () ↔
      types.msgExec innerMsg = none ∧ ∃ signers, types.getMsgV1Signers innerMsg = .ok signers ∧
        ∀ granter rest, signers = granter :: rest → ¬ Blacklisted codec blacklist granter := by
  simp only [checkInner, bind_ok, failIf_ok, exists_const, Option.not_isSome_iff_eq_none]
  apply and_congr_right
  intro _
  apply exists_congr
  intro signers
  apply and_congr_right
  intro _
  cases signers with
  | nil => simp
  | cons granter rest =>
    rw [rejectBlacklisted_ok h hcodec]
    constructor
    · intro hclean granter' rest' he
      rw [← (List.cons.inj he).1]
      exact hclean
    · intro hclean
      exact hclean granter rest rfl

theorem getSigners_ok {signers : List Address} :
    getSigners tx = .ok signers ↔ tx.sigTx = some (.ok signers) := by
  unfold getSigners
  cases tx.sigTx with
  | none => simp
  | some r => simp

theorem checkFeeGranter_ok (h : Canonical codec blacklist) (hcodec : codec.Lawful) :
    checkFeeGranter codec blacklist tx = .ok () ↔
      ∀ granter, tx.feeTx = some (some granter) → ¬ Blacklisted codec blacklist granter := by
  unfold checkFeeGranter
  cases hfee : tx.feeTx with
  | none => simp
  | some g =>
    cases g with
    | none => simp
    | some granter =>
      simp only [rejectBlacklisted_ok h hcodec]
      simp

theorem checkMsg_ok {msg : Msg} : checkMsg codec types blacklist msg = .ok () ↔
    ∀ getMessages, types.msgExec msg = some getMessages → ∃ innerMsgs, getMessages = .ok innerMsgs ∧
      ∀ innerMsg ∈ innerMsgs, checkInner codec types blacklist innerMsg = .ok () := by
  unfold checkMsg
  cases types.msgExec msg with
  | none => simp
  | some getMessages =>
    simp only [bind_ok, forM_ok]
    simp

/-- The checks succeed exactly on clean transactions whose signers can be looked up. -/
theorem blacklistChecks_ok (h : Canonical codec blacklist) (hcodec : codec.Lawful) :
    blacklistChecks codec types blacklist tx = .ok () ↔
      Readable types tx ∧ Clean types codec blacklist tx := by
  have hcount := countMsgExec_ok types tx.getMsgs (Nat.zero_le 1)
  rw [Nat.zero_add] at hcount
  have hinner := @checkInner_ok Msg types codec blacklist h hcodec
  simp only [blacklistChecks, bind_ok, forM_ok, rejectBlacklisted_ok h hcodec, getSigners_ok,
    checkFeeGranter_ok h hcodec, checkMsg_ok, hinner, exists_const, exists_and_right, hcount]
  constructor
  · intro h
    -- one loop over the messages looks up signers and checks granters at once
    obtain ⟨signers, hsigners, hclean, hfee, hsingle, hmsgs⟩ := h
    refine ⟨⟨⟨signers, hsigners⟩, ?_⟩, ⟨?_, hfee, hsingle, ?_, ?_⟩⟩
    · intro msg hmsg getMessages hexec
      obtain ⟨innerMsgs, hget, hall⟩ := hmsgs msg hmsg getMessages hexec
      refine ⟨innerMsgs, hget, fun innerMsg hmem => ?_⟩
      obtain ⟨_, inner, hs, _⟩ := hall innerMsg hmem
      exact ⟨inner, hs⟩
    · intro signers' hsigners'
      rw [hsigners, Option.some.injEq, Except.ok.injEq] at hsigners'
      rw [← hsigners']
      exact hclean
    · intro msg hmsg innerMsgs hexec innerMsg hmem
      obtain ⟨innerMsgs', hget, hall⟩ := hmsgs msg hmsg _ hexec
      cases hget
      exact (hall innerMsg hmem).1
    · intro msg hmsg innerMsgs hexec innerMsg hmem granter rest hs
      obtain ⟨innerMsgs', hget, hall⟩ := hmsgs msg hmsg _ hexec
      cases hget
      obtain ⟨_, inner, hs', hgranter⟩ := hall innerMsg hmem
      rw [hs, Except.ok.injEq] at hs'
      exact hgranter granter rest hs'.symm
  · intro h
    obtain ⟨hread, hclean⟩ := h
    obtain ⟨signers, hsigners⟩ := hread.signers
    refine ⟨signers, hsigners, hclean.signers signers hsigners, hclean.feeGranter, hclean.single, ?_⟩
    intro msg hmsg getMessages hexec
    obtain ⟨innerMsgs, hget, hall⟩ := hread.inner msg hmsg getMessages hexec
    rw [hget] at hexec
    refine ⟨innerMsgs, hget, fun innerMsg hmem => ?_⟩
    obtain ⟨inner, hs⟩ := hall innerMsg hmem
    refine ⟨hclean.nested msg hmsg innerMsgs hexec innerMsg hmem, inner, hs, ?_⟩
    intro granter rest he
    rw [he] at hs
    exact hclean.granter msg hmsg innerMsgs hexec innerMsg hmem granter rest hs

theorem evmBlacklistChecks_ok (h : Canonical codec blacklist) (hcodec : codec.Lawful) :
    evmBlacklistChecks codec types blacklist tx = .ok () ↔ EvmClean types codec blacklist tx := by
  unfold evmBlacklistChecks EvmClean
  rw [forM_ok]
  simp only [bind_ok, rejectBlacklisted_ok h hcodec]

/-! ## Order -/

/-- The same transaction with its messages in another order: its signers are the same accounts, or
cannot be looked up in either. -/
structure Reordered (tx tx' : Tx Msg) : Prop where
  msgs : tx.getMsgs.Perm tx'.getMsgs
  feeTx : tx'.feeTx = tx.feeTx
  signers : tx'.sigTx = tx.sigTx ∨ ∃ signers signers', tx.sigTx = some (.ok signers) ∧
    tx'.sigTx = some (.ok signers') ∧ ∀ a, a ∈ signers' ↔ a ∈ signers

theorem Reordered.symm {tx' : Tx Msg} (h : Reordered tx tx') : Reordered tx' tx where
  msgs := h.msgs.symm
  feeTx := h.feeTx.symm
  signers := by
    obtain he | ⟨signers, signers', hs, hs', hmem⟩ := h.signers
    · exact .inl he.symm
    · exact .inr ⟨signers', signers, hs', hs, fun a => (hmem a).symm⟩

theorem Readable.reorder {tx' : Tx Msg} (h : Readable types tx) (hr : Reordered tx tx') :
    Readable types tx' where
  signers := by
    obtain he | ⟨_, signers', _, hs', _⟩ := hr.signers
    · rw [he]
      exact h.signers
    · exact ⟨signers', hs'⟩
  inner msg hmsg := h.inner msg (hr.msgs.mem_iff.mpr hmsg)

theorem Clean.reorder {tx' : Tx Msg} (h : Clean types codec blacklist tx) (hr : Reordered tx tx') :
    Clean types codec blacklist tx' where
  signers signers₂ hsigners₂ a ha := by
    obtain he | ⟨signers, signers', hs, hs', hmem⟩ := hr.signers
    · rw [he] at hsigners₂
      exact h.signers signers₂ hsigners₂ a ha
    · rw [hs', Option.some.injEq, Except.ok.injEq] at hsigners₂
      rw [← hsigners₂] at ha
      exact h.signers signers hs a ((hmem a).mp ha)
  feeGranter granter hg := h.feeGranter granter (hr.feeTx.symm.trans hg)
  single := by
    rw [← hr.msgs.countP_eq]
    exact h.single
  nested msg hmsg := h.nested msg (hr.msgs.mem_iff.mpr hmsg)
  granter msg hmsg := h.granter msg (hr.msgs.mem_iff.mpr hmsg)

theorem EvmClean.reorder {tx' : Tx Msg} (h : EvmClean types codec blacklist tx)
    (hr : Reordered tx tx') : EvmClean types codec blacklist tx' :=
  fun msg hmsg => h msg (hr.msgs.mem_iff.mpr hmsg)

/-! ## The decorators -/

section Decorators
variable {W Rest : Type} {checks : W → Tx Msg → Except Err Unit}

/-- Checks that succeed hand over to `next`, once, with what they were given. -/
theorem checkThenNext_ok {w : W} (h : checks w tx = .ok ()) (ctx : Context Rest) (simulate : Bool)
    (next : AnteHandler W Rest Msg) :
    checkThenNext checks ctx tx simulate next w = next ctx tx simulate w := by
  rw [checkThenNext, h]

/-- Checks that fail return their error, and `next` does not run. -/
theorem checkThenNext_error {w : W} {err : Err} (h : checks w tx = .error err) (ctx : Context Rest)
    (simulate : Bool) (next : AnteHandler W Rest Msg) :
    checkThenNext checks ctx tx simulate next w = ((ctx, some err), w) := by
  rw [checkThenNext, h]

theorem checkThenNext_passes {w : W} {ctx : Context Rest} {simulate : Bool}
    {next : AnteHandler W Rest Msg}
    (h : (checkThenNext checks ctx tx simulate next w).1.2 = none) : checks w tx = .ok () := by
  cases hc : checks w tx with
  | error err =>
    rw [checkThenNext_error hc] at h
    cases h
  | ok u => rfl

end Decorators
end
end Ark.Sanction
