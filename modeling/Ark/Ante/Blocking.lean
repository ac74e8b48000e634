import Ark.Ante.Routes
import Ark.Sanction.Spelling

/- Every blacklisted account is blocked.

   `Blocks` is what the blacklist is for: its keys are canonical, no transaction that
   a standing account signs gets past either decorator, and a remove message that
   names standing accounts, in whatever spelling, succeeds. Messages keep it; a
   genesis gives it exactly when its texts are canonical (`blocks_iff`), because the
   genesis stores them as they are spelled. -/
namespace Ark.Ante
open Ark.Sdk Ark.Lib Ark.Sanction Ark.Lib.Checks

/-- These accounts are blocked, in every spelling, and can be unblocked. -/
structure Blocks (codec : AddressCodec) (authority : String) (accounts : Set Address) (s : State) :
    Prop where
  canonical : Canonical codec s.blacklistAccounts
  cosmos : ∀ a ∈ accounts, ∀ {W Rest Msg : Type} (types : MsgTypes Msg)
    (blacklist : W → KeySet String) (w : W), blacklist w = s.blacklistAccounts →
    ∀ (tx : Tx Msg) (signers : List Address), tx.sigTx = some (.ok signers) → a ∈ signers →
      Rejects (blacklistCheckDecorator codec types blacklist : AnteDecorator W Rest Msg) tx w
  evm : ∀ a ∈ accounts, ∀ {W Rest Msg : Type} (types : MsgTypes Msg)
    (blacklist : W → KeySet String) (w : W), blacklist w = s.blacklistAccounts →
    ∀ tx : Tx Msg, ∀ msg ∈ tx.getMsgs, types.unpackEthMsg msg = .ok a →
      Rejects (evmBlacklistCheckDecorator codec types blacklist : AnteDecorator W Rest Msg) tx w
  remove : ∀ texts : List String, texts ≠ [] →
    (∀ text ∈ texts, ∃ a ∈ accounts, Names codec text a) →
    texts.Pairwise (fun text text' => ∀ a, Names codec text a → ¬ Names codec text' a) →
      ∃ s', handle codec authority s (.remove ⟨authority, texts⟩) = .ok s'

section
variable {codec : AddressCodec} {authority : String} {accounts : Set Address} {s : State}

theorem checkThenNext_rejects {W Rest Msg : Type} {checks : W → Tx Msg → Except Err Unit}
    {tx : Tx Msg} {w : W} (h : checks w tx ≠ .ok ()) :
    Rejects (checkThenNext checks : AnteDecorator W Rest Msg) tx w := by
  cases hc : checks w tx with
  | ok u => exact absurd hc h
  | error err => exact ⟨err, fun ctx simulate next => checkThenNext_error hc ctx simulate next⟩

/-- A store that holds these accounts blocks them. -/
theorem blocks_of_holds (hcodec : codec.Lawful)
    (hauthority : ∃ a, codec.accAddressFromBech32 authority = .ok a)
    (h : Holds codec s.blacklistAccounts accounts) : Blocks codec authority accounts s where
  canonical := h.canonical
  cosmos a ha W Rest Msg types blacklist w hw tx signers hsigners hmem := by
    apply checkThenNext_rejects
    rw [hw]
    intro hok
    have hclean := ((blacklistChecks_ok h.canonical hcodec).mp hok).2
    exact hclean.signers signers hsigners a hmem (h.blacklisted ha)
  evm a ha W Rest Msg types blacklist w hw tx msg hmsg hunpack := by
    apply checkThenNext_rejects
    rw [hw]
    intro hok
    obtain ⟨sender, hsender, hclean⟩ :=
      (evmBlacklistChecks_ok h.canonical hcodec).mp hok msg hmsg
    rw [hunpack, Except.ok.injEq] at hsender
    rw [← hsender] at hclean
    exact hclean (h.blacklisted ha)
  remove texts hne hstand hdistinct := by
    have hnames : ∀ text ∈ texts, ∃ a, Names codec text a := by
      intro text htext
      obtain ⟨a, _, ha⟩ := hstand text htext
      exact ⟨a, ha⟩
    have hmem : ∀ text ∈ texts, ∃ a, Names codec text a ∧
        codec.string a ∈ s.blacklistAccounts := by
      intro text htext
      obtain ⟨a, ha, htext⟩ := hstand text htext
      exact ⟨a, htext, (h.keys _).mpr ⟨a, ha, rfl⟩⟩
    have hprints : texts.Pairwise fun text text' => ∀ a b, Names codec text a →
        Names codec text' b → codec.string a ≠ codec.string b := by
      apply hdistinct.imp
      intro text text' hno a b ha hb he
      rw [hcodec.string_injective a b he] at ha
      exact hno b ha hb
    obtain ⟨s', hs'⟩ := removeFromBlacklist_succeeds hmem hprints
    refine ⟨s', ?_⟩
    unfold handle removeBlacklistAccounts
    simp only [bind_ok, failIf_ok]
    exact ⟨(), validateBlacklistMessage_ok hauthority hne hnames, (), by simp, hs'⟩

end

/-! ## A small genesis -/

def smallAuthority : String := arkCodec.string (account 9)

/-- A genesis that blacklists account 1, spelled as `text`. -/
def genesisOf (text : String) : GenesisState := ⟨⟨⟩, [text]⟩

theorem genesisOf_validate {text : String} {a : Address}
    (h : arkCodec.accAddressFromBech32 text = .ok a) : (genesisOf text).validate arkCodec = .ok () := by
  rw [validate_ok]
  intro account haccount
  rw [List.mem_singleton.mp haccount]
  exact ⟨a, h⟩

theorem genesisOf_standing {text : String} {a : Address}
    (h : arkCodec.accAddressFromBech32 text = .ok a) : a ∈ standing arkCodec (genesisOf text) [] := by
  rw [standing_nil]
  exact ⟨text, List.mem_singleton.mpr rfl, names_of_parse arkCodec_lawful h⟩

/-- A transfer that account 1 signs. -/
def signedTx : Tx SmallMsg := ⟨[.send (account 1)], some (.ok [account 1]), some none, none⟩

/-- An Ethereum transaction that account 1 sends. -/
def ethereumTx : Tx SmallMsg := ⟨[.ethereum (account 1)], none, none, none⟩

/-- A genesis that is accepted, then messages that succeed: the accounts that the genesis or an add
message named and that no later message removed are blocked, in every state that is reached, exactly
when every account of the genesis is spelled as it prints. -/
theorem blocks_iff (codec : AddressCodec) (hcodec : codec.Lawful) (authority : String)
    (hauthority : ∃ a, codec.accAddressFromBech32 authority = .ok a) (gs : GenesisState)
    (hgs : gs.validate codec = .ok ()) (msgs : List Message) (s : State)
    (hrun : run codec authority gs msgs = .ok s) :
    Blocks codec authority (standing codec gs msgs) s ↔ gs.Canonical codec := by
  constructor
  · -- a text that is not canonical is still a key of the store
    intro h account hin a ha
    by_contra hne
    obtain ⟨b, hb, hprint⟩ := h.canonical account (run_keeps hcodec hin ha hne hrun)
    rw [ha, Except.ok.injEq] at hb
    rw [hb] at hne
    exact hne hprint
  · intro hcanon
    exact blocks_of_holds hcodec hauthority (run_holds hcodec hgs hcanon hrun)

/-- A genesis that spells account 1 as it prints: its transfer is rejected. -/
theorem genesis_blocks :
    Rejects (blacklistCheckDecorator arkCodec smallTypes id :
      AnteDecorator (KeySet String) Unit SmallMsg) signedTx
      (initGenesis (genesisOf (arkCodec.string (account 1))) State.fresh).blacklistAccounts := by
  have hblocks := (blocks_iff arkCodec arkCodec_lawful smallAuthority ⟨_, account_parses 9⟩
    (genesisOf (arkCodec.string (account 1))) (genesisOf_validate (account_parses 1)) [] _ rfl).mpr
    (by
      intro text htext a ha
      rw [List.mem_singleton.mp htext] at ha ⊢
      rw [account_parses, Except.ok.injEq] at ha
      rw [ha])
  exact hblocks.cosmos (account 1) (genesisOf_standing (account_parses 1)) smallTypes id _ rfl
    signedTx [account 1] rfl List.mem_cons_self

/-- Account 1 in upper case. -/
def upperText : String := String.ofList ((printAccAddress (account 1)).map Char.toUpper)

theorem account_encode : printAccAddress (account 1) = Bech32.encode bech32Prefix (account 1) :=
  if_neg (by decide)

theorem upperText_parses : arkCodec.accAddressFromBech32 upperText = .ok (account 1) := by
  rw [arkCodec_parse, upperText, String.toList_ofList, account_encode, parseAccAddress_ok]
  refine ⟨?_, Bech32.decode_upper bech32Prefix_lowerCase _, by decide⟩
  rw [List.all_eq_false]
  exact ⟨'A', by simp [Bech32.encode, bech32Prefix], by decide⟩

theorem upperText_ne : arkCodec.string (account 1) ≠ upperText := by
  intro h
  rw [arkCodec_string, upperText, account_encode] at h
  have hhead := congrArg List.head? (String.ofList_injective h)
  simp [Bech32.encode, bech32Prefix] at hhead

/-- A genesis that spells account 1 in upper case is accepted. Its key is not canonical, both
decorators hand over what account 1 sends, and no text that names account 1 removes it. -/
theorem upper_genesis_open : ∃ s, (genesisOf upperText).validate arkCodec = .ok () ∧
    run arkCodec smallAuthority (genesisOf upperText) [] = .ok s ∧
    account 1 ∈ standing arkCodec (genesisOf upperText) [] ∧
    ¬ Canonical arkCodec s.blacklistAccounts ∧
    HandsOver (blacklistCheckDecorator arkCodec smallTypes id :
      AnteDecorator (KeySet String) Unit SmallMsg) signedTx s.blacklistAccounts ∧
    HandsOver (evmBlacklistCheckDecorator arkCodec smallTypes id :
      AnteDecorator (KeySet String) Unit SmallMsg) ethereumTx s.blacklistAccounts ∧
    ∀ text, Names arkCodec text (account 1) → ∀ s',
      handle arkCodec smallAuthority s (.remove ⟨smallAuthority, [text]⟩) ≠ .ok s' := by
  have hmem : ∀ key, key ∈ (initGenesis (genesisOf upperText) State.fresh).blacklistAccounts ↔
      key = upperText := by
    intro key
    rw [mem_initGenesis]
    exact List.mem_singleton
  -- the text of the account is in lower case, the key of the genesis is not
  have hout : arkCodec.string (account 1) ∉
      (initGenesis (genesisOf upperText) State.fresh).blacklistAccounts := by
    rw [hmem]
    exact upperText_ne
  refine ⟨_, genesisOf_validate upperText_parses, rfl, genesisOf_standing upperText_parses,
    ?_, ?_, ?_, ?_⟩
  · intro hcanon
    obtain ⟨a, ha, hprint⟩ := hcanon upperText ((hmem _).mpr rfl)
    rw [upperText_parses, Except.ok.injEq] at ha
    rw [← ha] at hprint
    exact upperText_ne hprint
  · apply checkThenNext_handsOver
    unfold blacklistChecks rejectBlacklisted
    simp only [bind_ok, forM_ok, failIf_ok]
    refine ⟨_, rfl, (), ?_, (), rfl, _, rfl, ?_⟩
    · intro signer hsigner
      rw [List.mem_singleton.mp hsigner]
      exact hout
    · intro msg hmsg
      rw [List.mem_singleton.mp hmsg]
      rfl
  · apply checkThenNext_handsOver
    unfold evmBlacklistChecks rejectBlacklisted
    rw [forM_ok]
    intro msg hmsg
    rw [List.mem_singleton.mp hmsg, bind_ok]
    exact ⟨account 1, rfl, failIf_ok.mpr hout⟩
  · intro text htext s' h
    unfold handle removeBlacklistAccounts removeFromBlacklist at h
    simp only [bind_ok, failIf_ok, List.foldlM_cons] at h
    obtain ⟨_, _, _, _, _, ⟨key, hkey, _, hin, _⟩, _⟩ := h
    obtain ⟨b, hb, hprint⟩ := normalizeAddress_ok.mp hkey
    rw [← hprint, hb.unique htext] at hin
    exact hin hout

end Ark.Ante
