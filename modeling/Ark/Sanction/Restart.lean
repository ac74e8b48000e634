import Ark.Lib.Restart
import Ark.Sanction.Updates

/- Exporting the blacklist and importing it.

   `ExportGenesis` lists the keys of the store, in their order. A genesis that was
   validated leaves keys that parse, and so does every message (`Sound`); a message that
   fails leaves the store, as its caller drops what it did. So an export of any state that
   is reached validates, and its import gives the state back (`reload_eq`): a chain may be
   exported and started again at any points of its life, and its blacklist is the one of
   the chain that went on (`restarts_invisible`). -/
namespace Ark.Sanction
open Ark.Sdk Ark.Lib Ark.Lib.Checks Ark.Lib.Restart Ark.Ante

/-! ## Export -/

/-- What `Params.Get` returns where nothing was set. -/
def errNotFound : RootError := ⟨"collections", 1, "collections: not found"⟩

/-- `ExportGenesis`. -/
def exportGenesis (s : State) : Except Err GenesisState :=
  match s.params with
  | none => .error (.wrap errNotFound "params")
  | some params => .ok ⟨params, s.blacklistAccounts.keys⟩

section
variable (codec : AddressCodec) (authority : String)

/-- A message whose error drops what it did. -/
def deliver (s : State) (msg : Message) : State :=
  match handle codec authority s msg with
  | .ok s' => s'
  | .error _ => s

/-- The state is exported, validated and imported on a new chain. -/
def reload (s : State) : Option State :=
  match exportGenesis s with
  | .error _ => none
  | .ok gs =>
    match gs.validate codec with
    | .error _ => none
    | .ok () => some (initGenesis gs State.fresh)

/-- The keys parse, and the parameters are set. -/
structure Sound (s : State) : Prop where
  params : s.params = some ⟨⟩
  keys : ∀ key ∈ s.blacklistAccounts, ∃ a, codec.accAddressFromBech32 key = .ok a

/-- The keys are how their accounts print. -/
def Printed (s : State) : Prop :=
  ∀ key ∈ s.blacklistAccounts, ∀ a, codec.accAddressFromBech32 key = .ok a → codec.string a = key

end

section
variable {codec : AddressCodec} {authority : String} {gs : GenesisState} {s s' : State}
  {msg : Message}

theorem exportGenesis_ok (h : Sound codec s) :
    exportGenesis s = .ok ⟨⟨⟩, s.blacklistAccounts.keys⟩ := by
  unfold exportGenesis
  rw [h.params]

theorem initGenesis_sound (h : gs.validate codec = .ok ()) :
    Sound codec (initGenesis gs State.fresh) where
  params := rfl
  keys key hkey := validate_ok.mp h key (mem_initGenesis.mp hkey)

theorem initGenesis_printed (h : gs.Canonical codec) :
    Printed codec (initGenesis gs State.fresh) :=
  fun key hkey => h key (mem_initGenesis.mp hkey)

/-- An import of the keys of a store gives the store. -/
theorem initGenesis_keys (blacklist : KeySet String) :
    initGenesis ⟨⟨⟩, blacklist.keys⟩ State.fresh = ⟨some ⟨⟩, blacklist⟩ := by
  have hkeys : (initGenesis ⟨⟨⟩, blacklist.keys⟩ State.fresh).blacklistAccounts = blacklist :=
    KeySet.ext_mem fun key => mem_initGenesis
  show (⟨some ⟨⟩, (initGenesis ⟨⟨⟩, blacklist.keys⟩ State.fresh).blacklistAccounts⟩ : State) = _
  rw [hkeys]

/-- A reload gives a sound state back. -/
theorem reload_eq (h : Sound codec s) : reload codec s = some s := by
  have hvalid : GenesisState.validate codec ⟨⟨⟩, s.blacklistAccounts.keys⟩ = .ok () :=
    validate_ok.mpr h.keys
  unfold reload
  simp only [exportGenesis_ok h, hvalid, initGenesis_keys]
  cases s
  cases h.params
  rfl

/-! ## Messages -/

/-- A message that succeeds leaves the parameters, and its keys are old ones or how accounts
print. -/
theorem handle_ok (hcodec : codec.Lawful) (h : handle codec authority s msg = .ok s') :
    s'.params = s.params ∧ ∀ key ∈ s'.blacklistAccounts, key ∈ s.blacklistAccounts ∨
      ∃ a, codec.string a = key ∧ codec.accAddressFromBech32 key = .ok a := by
  cases msg with
  | add msg =>
    constructor
    · unfold handle addBlacklistAccounts at h
      simp only [bind_ok] at h
      obtain ⟨_, _, _, _, hadd⟩ := h
      obtain ⟨_, _, _, _, rfl⟩ := addToBlacklist_iff.mp hadd
      rfl
    · intro key hkey
      rcases (handle_add h).mp hkey with hold | ⟨a, ⟨_, _, hnames⟩, rfl⟩
      · exact .inl hold
      · exact .inr ⟨a, rfl, hnames.parses hcodec⟩
  | remove msg =>
    constructor
    · unfold handle removeBlacklistAccounts at h
      simp only [bind_ok] at h
      obtain ⟨_, _, _, _, hremove⟩ := h
      obtain ⟨_, _, _, _, rfl⟩ := removeFromBlacklist_iff.mp hremove
      rfl
    · exact fun key hkey => .inl ((handle_remove h).mp hkey).1

theorem deliver_sound (hcodec : codec.Lawful) (authority : String) (s : State) (msg : Message)
    (h : Sound codec s) :
    Sound codec (deliver codec authority s msg) := by
  unfold deliver
  cases hmsg : handle codec authority s msg with
  | error err => exact h
  | ok s' =>
    obtain ⟨hparams, hkeys⟩ := handle_ok hcodec hmsg
    refine ⟨hparams.trans h.params, fun key hkey => ?_⟩
    rcases hkeys key hkey with hold | ⟨a, _, hparse⟩
    · exact h.keys key hold
    · exact ⟨a, hparse⟩

theorem deliver_printed (hcodec : codec.Lawful) (s : State) (msg : Message) (h : Printed codec s) :
    Printed codec (deliver codec authority s msg) := by
  unfold deliver
  cases hmsg : handle codec authority s msg with
  | error err => exact h
  | ok s' =>
    intro key hkey b hb
    rcases (handle_ok hcodec hmsg).2 key hkey with hold | ⟨a, hprint, hparse⟩
    · exact h key hold b hb
    · rw [hparse, Except.ok.injEq] at hb
      rw [← hb]
      exact hprint

theorem deliver_foldl_printed (hcodec : codec.Lawful) (msgs : List Message)
    (h : Printed codec s) : Printed codec (msgs.foldl (deliver codec authority) s) := by
  induction msgs generalizing s with
  | nil => exact h
  | cons msg msgs ih => exact ih (deliver_printed hcodec s msg h)

/-! ## Restarts -/

/-- **Restarts cannot be noticed.** From any genesis that validates, through any messages, of which
some may fail, and any number of restarts between them: every restart goes through, and the chain
ends with the state that the messages alone lead to. What it exports then lists the blacklist in
order, validates, and spells every account as it prints when the first genesis did. -/
theorem restarts_invisible (hcodec : codec.Lawful) (authority : String) (gs : GenesisState)
    (hgs : gs.validate codec = .ok ()) (hs : List (Happening Message)) :
    ∃ s gs', live (deliver codec authority) (reload codec) (initGenesis gs State.fresh) hs = some s ∧
      s = (stepsOf hs).foldl (deliver codec authority) (initGenesis gs State.fresh) ∧
      exportGenesis s = .ok gs' ∧ gs'.validate codec = .ok () ∧
      gs'.blacklistAccounts.Pairwise (· < ·) ∧
      (∀ key, key ∈ gs'.blacklistAccounts ↔ key ∈ s.blacklistAccounts) ∧
      (gs.Canonical codec → gs'.Canonical codec) := by
  obtain ⟨hlive, hsound⟩ := live_of_eq (deliver_sound hcodec authority)
    (fun _ => reload_eq) (initGenesis_sound hgs) hs
  refine ⟨_, _, hlive, rfl, exportGenesis_ok hsound, validate_ok.mpr hsound.keys,
    KeySet.sorted _, fun key => Iff.rfl, fun hcanon => ?_⟩
  exact deliver_foldl_printed hcodec (stepsOf hs) (initGenesis_printed hcanon)

end

/-- A genesis that blacklists account 1, as it prints. -/
def oneAccount : GenesisState := ⟨⟨⟩, [arkCodec.string (account 1)]⟩

/-- Account 9 adds account 2. -/
def addTwo : Message := .add ⟨arkCodec.string (account 9), [arkCodec.string (account 2)]⟩

/-- The chain is started again before and after the message. -/
theorem oneAccount_restarted :
    live (deliver arkCodec (arkCodec.string (account 9))) (reload arkCodec)
      (initGenesis oneAccount State.fresh) [.restart, .step addTwo, .restart] =
        some (deliver arkCodec (arkCodec.string (account 9)) (initGenesis oneAccount State.fresh)
          addTwo) := by
  have hvalid : oneAccount.validate arkCodec = .ok () := by
    apply validate_ok.mpr
    intro text htext
    rw [List.mem_singleton.mp htext]
    exact ⟨account 1, account_parses 1⟩
  obtain ⟨s, _, hlive, hs, _⟩ := restarts_invisible arkCodec_lawful (arkCodec.string (account 9))
    oneAccount hvalid [.restart, .step addTwo, .restart]
  rw [hlive, hs, stepsOf, stepsOf, stepsOf, stepsOf, List.foldl_cons, List.foldl_nil]

end Ark.Sanction
