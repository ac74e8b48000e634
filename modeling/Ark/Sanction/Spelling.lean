import Mathlib.Data.Set.Basic
import Ark.Sanction.Screening

/- Which accounts the blacklist holds.

   A text names an account, in hex or in Bech32 (`Names`), and `normalizeAddress`
   prints the account that is named. So the messages act on accounts: an add message
   adds those it names (`addToBlacklist_keys`), a remove message takes away those it
   names (`removeFromBlacklist_keys`), and it fails only when one of them is not there.

   `standing` says what the blacklist is for, without a store: the accounts that the
   genesis or an add message named and that no later message removed. After a genesis
   whose texts are canonical, the store of every run holds exactly these
   (`run_holds`). A text of the genesis that is not canonical stays in the store as it
   is, out of the reach of any message (`run_keeps`). -/
namespace Ark.Sanction
open Ark.Sdk Ark.Lib Ark.Lib.Checks

section
variable (codec : AddressCodec)

/-- The account that a text names. -/
def Names (account : String) (a : Address) : Prop :=
  if hasHexAddressPrefix account = true then
    codec.isHexAddress account = true ∧ codec.hexToAddress account = a
  else codec.accAddressFromBech32 account = .ok a

/-- The accounts that some of the texts name. -/
def named (accounts : List String) : Set Address :=
  {a | ∃ account ∈ accounts, Names codec account a}

/-- The keys are the printed forms of these accounts, and parse to them. -/
structure Holds (blacklist : KeySet String) (accounts : Set Address) : Prop where
  keys : ∀ key, key ∈ blacklist ↔ ∃ a ∈ accounts, codec.string a = key
  parses : ∀ a ∈ accounts, codec.accAddressFromBech32 (codec.string a) = .ok a

/-- The texts of a genesis are how their accounts print. -/
def GenesisState.Canonical (gs : GenesisState) : Prop :=
  ∀ account ∈ gs.blacklistAccounts, ∀ a, codec.accAddressFromBech32 account = .ok a →
    codec.string a = account

end

section
variable {codec : AddressCodec} {account key : String} {accounts : List String} {a b : Address}
  {s s' : State}

/-! ## Names -/

theorem Names.unique (h : Names codec account a) (h' : Names codec account b) : a = b := by
  unfold Names at h h'
  split at h
  · rename_i hhex
    rw [if_pos hhex] at h'
    rw [← h.2, h'.2]
  · rename_i hhex
    rw [if_neg hhex, h, Except.ok.injEq] at h'
    exact h'

/-- An account that is named prints as a text that parses to it. -/
theorem Names.parses (hcodec : codec.Lawful) (h : Names codec account a) :
    codec.accAddressFromBech32 (codec.string a) = .ok a := by
  unfold Names at h
  split at h
  · rw [← h.2]
    exact hcodec.hex_string account h.1
  · exact hcodec.parse_string account a h

/-- A text that parses names the account it parses to. -/
theorem names_of_parse (hcodec : codec.Lawful) (h : codec.accAddressFromBech32 account = .ok a) :
    Names codec account a := by
  unfold Names
  rw [if_neg (by rw [hcodec.parse_noHex account a h]; exact Bool.false_ne_true)]
  exact h

theorem normalizeAddress_ok :
    normalizeAddress codec account = .ok key ↔ ∃ a, Names codec account a ∧ codec.string a = key := by
  unfold normalizeAddress Names
  by_cases hhex : hasHexAddressPrefix account = true
  · simp only [if_pos hhex]
    by_cases hvalid : codec.isHexAddress account = true
    · simp [hvalid]
    · simp [hvalid]
  · simp only [if_neg hhex]
    cases codec.accAddressFromBech32 account with
    | error err => simp
    | ok addr => simp

theorem mem_named_cons : a ∈ named codec (account :: accounts) ↔
    Names codec account a ∨ a ∈ named codec accounts := by
  unfold named
  rw [Set.mem_ofPred_eq, Set.mem_ofPred_eq, List.exists_mem_cons_iff]

/-- The keys that some text of a list is normalized to. -/
theorem exists_named_cons : (∃ a ∈ named codec (account :: accounts), codec.string a = key) ↔
    normalizeAddress codec account = .ok key ∨
      ∃ a ∈ named codec accounts, codec.string a = key := by
  rw [normalizeAddress_ok, ← exists_or]
  apply exists_congr
  intro a
  rw [mem_named_cons, or_and_right]

/-! ## The two loops -/

theorem addToBlacklist_keys (h : addToBlacklist codec accounts s = .ok s') :
    key ∈ s'.blacklistAccounts ↔
      key ∈ s.blacklistAccounts ∨ ∃ a ∈ named codec accounts, codec.string a = key := by
  induction accounts generalizing s with
  | nil =>
    cases h
    simp [named]
  | cons account accounts ih =>
    unfold addToBlacklist at h
    simp only [List.foldlM_cons, bind_ok, failIf_ok, pure_ok] at h
    obtain ⟨_, ⟨normAddr, hnorm, _, _, rfl⟩, hrest⟩ := h
    rw [ih hrest, KeySet.mem_set, exists_named_cons, hnorm, Except.ok.injEq, or_assoc,
      or_left_comm, eq_comm]

theorem removeFromBlacklist_keys (h : removeFromBlacklist codec accounts s = .ok s') :
    key ∈ s'.blacklistAccounts ↔
      key ∈ s.blacklistAccounts ∧ ¬ ∃ a ∈ named codec accounts, codec.string a = key := by
  induction accounts generalizing s with
  | nil =>
    cases h
    simp [named]
  | cons account accounts ih =>
    unfold removeFromBlacklist at h
    simp only [List.foldlM_cons, bind_ok, failIf_ok, pure_ok] at h
    obtain ⟨_, ⟨normAddr, hnorm, _, _, rfl⟩, hrest⟩ := h
    rw [ih hrest, KeySet.mem_remove, exists_named_cons, hnorm, Except.ok.injEq, not_or, and_assoc,
      eq_comm]

/-- A removal succeeds when each text names an account in the store, and no two the same one. -/
theorem removeFromBlacklist_succeeds
    (hmem : ∀ account ∈ accounts, ∃ a, Names codec account a ∧ codec.string a ∈ s.blacklistAccounts)
    (hdistinct : accounts.Pairwise fun x y => ∀ a b, Names codec x a → Names codec y b →
      codec.string a ≠ codec.string b) :
    ∃ s', removeFromBlacklist codec accounts s = .ok s' := by
  induction accounts generalizing s with
  | nil => exact ⟨s, rfl⟩
  | cons account accounts ih =>
    obtain ⟨hhead, hrest⟩ := List.pairwise_cons.mp hdistinct
    obtain ⟨a, ha, hin⟩ := hmem account List.mem_cons_self
    -- what the rest of the texts name is still there
    have hremaining : ∀ other ∈ accounts, ∃ b, Names codec other b ∧
        codec.string b ∈ s.blacklistAccounts.remove (codec.string a) := by
      intro other hother
      obtain ⟨b, hb, hinb⟩ := hmem other (List.mem_cons_of_mem _ hother)
      refine ⟨b, hb, KeySet.mem_remove.mpr ⟨hinb, ?_⟩⟩
      exact Ne.symm (hhead other hother a b ha hb)
    obtain ⟨s', hs'⟩ := ih (s := ⟨s.params, _⟩) hremaining hrest
    refine ⟨s', ?_⟩
    unfold removeFromBlacklist at hs' ⊢
    simp only [List.foldlM_cons, bind_ok, failIf_ok, pure_ok]
    exact ⟨_, ⟨_, normalizeAddress_ok.mpr ⟨a, ha, rfl⟩, (), by simpa using hin, rfl⟩, hs'⟩

/-! ## Messages -/

/-- The accounts that a message takes away. -/
def Message.removed (codec : AddressCodec) : Message → Set Address
  | .add _ => ∅
  | .remove msg => named codec msg.blacklistAccounts

variable {authority : String} {gs : GenesisState} {msgs : List Message}

theorem handle_add {msg : MsgBlacklistAccounts} (h : handle codec authority s (.add msg) = .ok s') :
    key ∈ s'.blacklistAccounts ↔ key ∈ s.blacklistAccounts ∨
      ∃ a ∈ named codec msg.blacklistAccounts, codec.string a = key := by
  unfold handle addBlacklistAccounts at h
  simp only [bind_ok] at h
  obtain ⟨_, _, _, _, hadd⟩ := h
  exact addToBlacklist_keys hadd

theorem handle_remove {msg : MsgBlacklistAccounts}
    (h : handle codec authority s (.remove msg) = .ok s') :
    key ∈ s'.blacklistAccounts ↔ key ∈ s.blacklistAccounts ∧
      ¬ ∃ a ∈ named codec msg.blacklistAccounts, codec.string a = key := by
  unfold handle removeBlacklistAccounts at h
  simp only [bind_ok] at h
  obtain ⟨_, _, _, _, hremove⟩ := h
  exact removeFromBlacklist_keys hremove

theorem Holds.add (hcodec : codec.Lawful) {standing : Set Address}
    (hs : Holds codec s.blacklistAccounts standing) {msg : MsgBlacklistAccounts}
    (h : handle codec authority s (.add msg) = .ok s') :
    Holds codec s'.blacklistAccounts (standing ∪ named codec msg.blacklistAccounts) where
  keys key := by
    rw [handle_add h, hs.keys, ← exists_or]
    apply exists_congr
    intro a
    rw [Set.mem_union, or_and_right]
  parses a ha := by
    cases ha with
    | inl ha => exact hs.parses a ha
    | inr ha =>
      obtain ⟨_, _, hnames⟩ := ha
      exact hnames.parses hcodec

theorem Holds.remove (hcodec : codec.Lawful) {standing : Set Address}
    (hs : Holds codec s.blacklistAccounts standing) {msg : MsgBlacklistAccounts}
    (h : handle codec authority s (.remove msg) = .ok s') :
    Holds codec s'.blacklistAccounts (standing \ named codec msg.blacklistAccounts) where
  keys key := by
    rw [handle_remove h, hs.keys]
    constructor
    · intro ⟨⟨a, ha, hkey⟩, hno⟩
      exact ⟨a, ⟨ha, fun hnamed => hno ⟨a, hnamed, hkey⟩⟩, hkey⟩
    · intro ⟨a, ⟨ha, hno⟩, hkey⟩
      refine ⟨⟨a, ha, hkey⟩, fun ⟨b, hb, hkey'⟩ => hno ?_⟩
      rw [hcodec.string_injective a b (hkey.trans hkey'.symm)]
      exact hb
  parses a ha := hs.parses a ha.1

theorem Holds.canonical {accounts : Set Address} (h : Holds codec s.blacklistAccounts accounts) :
    Canonical codec s.blacklistAccounts := by
  intro key hkey
  obtain ⟨a, ha, hprint⟩ := (h.keys key).mp hkey
  rw [← hprint]
  exact ⟨a, h.parses a ha, rfl⟩

theorem Holds.blacklisted {accounts : Set Address} (h : Holds codec s.blacklistAccounts accounts)
    (ha : a ∈ accounts) : Blacklisted codec s.blacklistAccounts a :=
  ⟨_, (h.keys _).mpr ⟨a, ha, rfl⟩, h.parses a ha⟩

theorem validateBlacklistMessage_ok {texts : List String}
    (hauthority : ∃ a, codec.accAddressFromBech32 authority = .ok a) (hne : texts ≠ [])
    (htexts : ∀ text ∈ texts, ∃ a, Names codec text a) :
    validateBlacklistMessage codec authority texts = .ok () := by
  obtain ⟨a, ha⟩ := hauthority
  unfold validateBlacklistMessage
  simp only [ha, bind_ok, failIf_ok, forM_ok]
  refine ⟨(), by simpa using hne, fun text htext => ?_⟩
  obtain ⟨b, hb⟩ := htexts text htext
  unfold Names at hb
  by_cases hhex : hasHexAddressPrefix text = true
  · rw [if_pos hhex] at hb
    rw [if_pos hhex, failIf_ok, hb.1]
    exact Bool.false_ne_true.symm
  · rw [if_neg hhex] at hb
    rw [if_neg hhex, hb]
    rfl

/-! ## Runs -/

/-- A genesis, and messages each of which succeeds. -/
def run (codec : AddressCodec) (authority : String) (gs : GenesisState) (msgs : List Message) :
    Except Err State := msgs.foldlM (handle codec authority) (initGenesis gs State.fresh)

/-- The accounts that the genesis or an add message named and that no later message removed. -/
def standing (codec : AddressCodec) (gs : GenesisState) (msgs : List Message) : Set Address :=
  {a | (a ∈ named codec gs.blacklistAccounts ∧ ∀ m ∈ msgs, a ∉ m.removed codec) ∨
    ∃ earlier msg later, msgs = earlier ++ .add msg :: later ∧
      a ∈ named codec msg.blacklistAccounts ∧ ∀ m ∈ later, a ∉ m.removed codec}

theorem run_snoc {m : Message} : run codec authority gs (msgs ++ [m]) = .ok s' ↔
    ∃ s, run codec authority gs msgs = .ok s ∧ handle codec authority s m = .ok s' := by
  unfold run
  rw [List.foldlM_append, bind_ok]
  simp only [List.foldlM_cons, List.foldlM_nil, bind_pure]

theorem standing_nil : standing codec gs [] = named codec gs.blacklistAccounts := by
  ext a
  unfold standing
  simp

/-- What one more message does to the accounts that stand. -/
theorem mem_standing_snoc {m : Message} : a ∈ standing codec gs (msgs ++ [m]) ↔
    (a ∈ standing codec gs msgs ∧ a ∉ m.removed codec) ∨
      ∃ msg, m = .add msg ∧ a ∈ named codec msg.blacklistAccounts := by
  unfold standing
  simp only [Set.mem_ofPred_eq, List.forall_mem_append, List.forall_mem_singleton]
  constructor
  · intro h
    obtain ⟨hnamed, hmsgs, hm⟩ | ⟨earlier, msg, later, he, hnamed, hlater⟩ := h
    · exact .inl ⟨.inl ⟨hnamed, hmsgs⟩, hm⟩
    · -- the message added is that add message, or comes after it
      rcases List.eq_nil_or_concat later with hnil | ⟨before, last, hlast⟩
      · rw [hnil] at he
        obtain ⟨_, hm⟩ := List.append_inj' he rfl
        exact .inr ⟨msg, (List.cons.inj hm).1, hnamed⟩
      · rw [hlast, List.concat_eq_append, ← List.cons_append, ← List.append_assoc] at he
        obtain ⟨hmsgs, hm⟩ := List.append_inj' he rfl
        rw [hlast, List.concat_eq_append, List.forall_mem_append, List.forall_mem_singleton,
          ← (List.cons.inj hm).1] at hlater
        exact .inl ⟨.inr ⟨earlier, msg, before, hmsgs, hnamed, hlater.1⟩, hlater.2⟩
  · intro h
    obtain ⟨⟨hnamed, hmsgs⟩ | ⟨earlier, msg, later, he, hnamed, hlater⟩, hm⟩ | ⟨msg, he, hnamed⟩ := h
    · exact .inl ⟨hnamed, hmsgs, hm⟩
    · refine .inr ⟨earlier, msg, later ++ [m], ?_, hnamed, ?_⟩
      · rw [he, List.append_assoc, List.cons_append]
      · rw [List.forall_mem_append, List.forall_mem_singleton]
        exact ⟨hlater, hm⟩
    · exact .inr ⟨msgs, msg, [], by rw [he], hnamed, nofun⟩

theorem standing_add {msg : MsgBlacklistAccounts} :
    standing codec gs (msgs ++ [.add msg]) =
      standing codec gs msgs ∪ named codec msg.blacklistAccounts := by
  ext a
  rw [mem_standing_snoc]
  simp [Message.removed]

theorem standing_remove {msg : MsgBlacklistAccounts} :
    standing codec gs (msgs ++ [.remove msg]) =
      standing codec gs msgs \ named codec msg.blacklistAccounts := by
  ext a
  rw [mem_standing_snoc]
  simp [Message.removed]

theorem mem_initGenesis : key ∈ (initGenesis gs State.fresh).blacklistAccounts ↔
    key ∈ gs.blacklistAccounts := by
  apply Iff.trans (KeySet.mem_foldl_set (f := id) (s := KeySet.empty))
  simp

theorem validate_ok : gs.validate codec = .ok () ↔
    ∀ account ∈ gs.blacklistAccounts, ∃ a, codec.accAddressFromBech32 account = .ok a := by
  unfold GenesisState.validate
  rw [forM_ok]
  apply forall₂_congr
  intro account _
  cases codec.accAddressFromBech32 account with
  | error err => simp
  | ok a => simp

/-- After a genesis of canonical texts, every run of messages holds the accounts that stand. -/
theorem run_holds (hcodec : codec.Lawful) (hgs : gs.validate codec = .ok ())
    (hcanon : gs.Canonical codec) (h : run codec authority gs msgs = .ok s) :
    Holds codec s.blacklistAccounts (standing codec gs msgs) := by
  induction msgs using List.reverseRecOn generalizing s with
  | nil =>
    cases h
    rw [standing_nil]
    constructor
    · intro key
      rw [mem_initGenesis]
      constructor
      · intro hkey
        obtain ⟨a, ha⟩ := validate_ok.mp hgs key hkey
        exact ⟨a, ⟨key, hkey, names_of_parse hcodec ha⟩, hcanon key hkey a ha⟩
      · intro ⟨a, ⟨account, hin, hnames⟩, hkey⟩
        obtain ⟨b, hb⟩ := validate_ok.mp hgs account hin
        rw [hnames.unique (names_of_parse hcodec hb), hcanon account hin b hb] at hkey
        rw [← hkey]
        exact hin
    · intro a ⟨account, _, hnames⟩
      exact hnames.parses hcodec
  | append_singleton msgs m ih =>
    obtain ⟨s₁, hrun, hm⟩ := run_snoc.mp h
    cases m with
    | add msg =>
      rw [standing_add]
      exact (ih hrun).add hcodec hm
    | remove msg =>
      rw [standing_remove]
      exact (ih hrun).remove hcodec hm

/-- A text of the genesis that is not canonical is never removed. -/
theorem run_keeps (hcodec : codec.Lawful) (hin : account ∈ gs.blacklistAccounts)
    (hparse : codec.accAddressFromBech32 account = .ok a) (hne : codec.string a ≠ account)
    (h : run codec authority gs msgs = .ok s) : account ∈ s.blacklistAccounts := by
  induction msgs using List.reverseRecOn generalizing s with
  | nil =>
    cases h
    exact mem_initGenesis.mpr hin
  | append_singleton msgs m ih =>
    obtain ⟨s₁, hrun, hm⟩ := run_snoc.mp h
    cases m with
    | add msg =>
      rw [handle_add hm]
      exact .inl (ih hrun)
    | remove msg =>
      rw [handle_remove hm]
      refine ⟨ih hrun, fun ⟨b, ⟨_, _, hnames⟩, hb⟩ => ?_⟩
      -- only printed forms are removed, and this text is not one
      have hparse' := hnames.parses hcodec
      rw [hb, hparse, Except.ok.injEq] at hparse'
      rw [hparse'] at hne
      exact hne hb

end
end Ark.Sanction
