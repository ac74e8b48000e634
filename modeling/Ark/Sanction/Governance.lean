import Ark.GovTimelock.Notice
import Ark.Sanction.Restart
import Ark.Sanction.Updates

/- The blacklist under governance.

   Both messages of the module are for x/gov's authority, an account for which nobody has
   a key, so what transactions bring fails (`deliver_unauthorized`) and the blacklist
   changes only where a proposal runs. Together with the timelock: an account is put on
   the blacklist or taken off it only by an announced proposal that names it, and until
   one does so a blacklisted account stays shut out by the ante handler
   (`blacklist_on_notice`). -/
namespace Ark.Sanction
open Ark.Sdk Ark.Lib Ark.Lib.Checks Ark.Ante
open Ark.Gov (GovKeeper World Ctx)
open Ark.GovTimelock (St Block Run Start Ruled Manager Governed Enactment)

/-! ## Messages -/

def Message.authority : Message → String
  | .add msg => msg.authority
  | .remove msg => msg.authority

/-- The accounts that a message puts on the list. -/
def Message.added (codec : AddressCodec) : Message → Set Address
  | .add msg => named codec msg.blacklistAccounts
  | .remove _ => ∅

def Listed (codec : AddressCodec) (a : Address) (s : State) : Prop :=
  codec.string a ∈ s.blacklistAccounts

section
variable {codec : AddressCodec} {authority : String} {s s' : State} {msg : Message}
  {msgs : List Message} {a : Address}

/-- A message that is not the authority's fails. -/
theorem deliver_unauthorized (h : msg.authority ≠ authority) :
    deliver codec authority s msg = s := by
  unfold deliver
  cases hmsg : handle codec authority s msg with
  | error err => rfl
  | ok s' =>
    cases msg with
    | add msg =>
      unfold handle addBlacklistAccounts at hmsg
      simp only [bind_ok, failIf_ok, ne_eq, not_not] at hmsg
      obtain ⟨_, _, _, heq, _⟩ := hmsg
      exact absurd heq.symm h
    | remove msg =>
      unfold handle removeBlacklistAccounts at hmsg
      simp only [bind_ok, failIf_ok, ne_eq, not_not] at hmsg
      obtain ⟨_, _, _, heq, _⟩ := hmsg
      exact absurd heq.symm h

theorem deliver_foldl_unauthorized (h : ∀ msg ∈ msgs, msg.authority ≠ authority) :
    msgs.foldl (deliver codec authority) s = s := by
  induction msgs with
  | nil => rfl
  | cons msg msgs ih =>
    rw [List.foldl_cons, deliver_unauthorized (h msg List.mem_cons_self)]
    exact ih fun m hm => h m (List.mem_cons_of_mem msg hm)

/-- Only a message that names an account puts it on the list. -/
theorem added_of_handle (hcodec : codec.Lawful) (h : handle codec authority s msg = .ok s')
    (hs : ¬ Listed codec a s) (hs' : Listed codec a s') : a ∈ msg.added codec := by
  cases msg with
  | add msg =>
    rcases (handle_add h).mp hs' with hold | ⟨b, hb, hprint⟩
    · exact absurd hold hs
    · exact hcodec.string_injective b a hprint ▸ hb
  | remove msg => exact absurd ((handle_remove h).mp hs').1 hs

/-- Only a message that names an account takes it off the list. -/
theorem removed_of_handle (hcodec : codec.Lawful) (h : handle codec authority s msg = .ok s')
    (hs : Listed codec a s) (hs' : ¬ Listed codec a s') : a ∈ msg.removed codec := by
  cases msg with
  | add msg => exact absurd ((handle_add h).mpr (.inl hs)) hs'
  | remove msg =>
    by_contra hno
    refine hs' ((handle_remove h).mpr ⟨hs, fun ⟨b, hb, hprint⟩ => hno ?_⟩)
    exact hcodec.string_injective b a hprint ▸ hb

theorem canonical_of_handle (hcodec : codec.Lawful) (h : handle codec authority s msg = .ok s')
    (hs : Canonical codec s.blacklistAccounts) : Canonical codec s'.blacklistAccounts := by
  intro key hkey
  rcases (handle_ok hcodec h).2 key hkey with hold | ⟨b, hprint, hparse⟩
  · exact hs key hold
  · exact ⟨b, hparse, hprint⟩

theorem foldlM_steps : msgs.foldlM (handle codec authority) s = .ok s' ↔
    Steps (fun u m v => handle codec authority u m = .ok v) s msgs s' := by
  induction msgs generalizing s with
  | nil => rw [List.foldlM_nil, pure_ok, Steps.nil_iff, eq_comm]
  | cons msg msgs ih => simp only [List.foldlM_cons, bind_ok, Steps.cons_iff, ih]

end

/-! ## Proposals -/

section
variable {Any Msg Rest : Type} (codec : AddressCodec) (authority : String)
  (carried : Msg → List Message) (store : Rest → State)

/-- What a message of a proposal does: the module's messages that it carries, itself or one that it
wraps, all succeed. -/
def Effect (s : State) (msg : Msg) (s' : State) : Prop :=
  (carried msg).foldlM (handle codec authority) s = .ok s'

/-- Between two end blockers the module's messages come in transactions, and the authority signs
none. -/
def Transacts (ctx : Ctx) (w w' : World Any Rest) : Prop :=
  Ruled ctx w w' ∧ ∃ msgs : List Message, (∀ msg ∈ msgs, msg.authority ≠ authority) ∧
    store w'.rest = msgs.foldl (deliver codec authority) (store w.rest)

/-- An announced proposal of the run carried a message about the account. -/
def ProposedFor (k : GovKeeper Any Msg Rest) (mm : Manager Any Rest)
    (accounts : Message → Set Address) (s : St Any Rest) (Bs : List Block) (a : Address) : Prop :=
  ∃ e : Enactment Any Msg, e.block ∈ Bs ∧ e.Logged k ∧
    e.Announced k mm (Transacts codec authority store) s Bs ∧
    ∃ msg ∈ e.msgs, ∃ m ∈ carried msg, a ∈ accounts m

end

section
variable {Any Msg Rest W AnteRest TxMsg FeemarketParams EvmParams : Type} {codec : AddressCodec}
  {authority : String} {carried : Msg → List Message} {store : Rest → State}
  {k : GovKeeper Any Msg Rest} {mm : Manager Any Rest} {s s' : St Any Rest} {Bs : List Block}
  {options : HandlerOptions W AnteRest TxMsg FeemarketParams EvmParams} {a : Address}

/-- Nothing that the account signs or sends gets past the ante handler. -/
structure ShutOut (options : HandlerOptions W AnteRest TxMsg FeemarketParams EvmParams)
    (a : Address) (w : W) : Prop where
  cosmos : ∀ ctx tx simulate signers, firstExtensionOption tx ≠ some extensionOptionsEthereumTx →
    tx.sigTx = some (.ok signers) → a ∈ signers →
    (newAnteHandler options ctx (some tx) simulate w).1.2 ≠ none
  evm : ∀ ctx tx simulate, firstExtensionOption tx = some extensionOptionsEthereumTx →
    ∀ msg ∈ tx.getMsgs, options.types.unpackEthMsg msg = .ok a →
    (newAnteHandler options ctx (some tx) simulate w).1.2 ≠ none

theorem shutOut_of_listed (hp : Passive options) (hcodec : options.codec.Lawful) {w : W}
    (hcanon : Canonical options.codec (options.blacklistAccounts w))
    (ha : options.codec.string a ∈ options.blacklistAccounts w) : ShutOut options a w where
  cosmos ctx tx simulate signers hroute hsigners hmem h := by
    obtain ⟨t, ht, _, _, hclean⟩ := newAnteHandler_screens hp hcodec hcanon h
    cases ht
    exact (hclean hroute).2.signers signers hsigners a hmem
      ((hcanon.blacklisted_iff hcodec a).mpr ha)
  evm ctx tx simulate hroute msg hmsg hunpack h := by
    obtain ⟨t, ht, _, hclean, _⟩ := newAnteHandler_screens hp hcodec hcanon h
    cases ht
    obtain ⟨sender, hsender, hno⟩ := hclean hroute msg hmsg
    rw [hunpack, Except.ok.injEq] at hsender
    exact hno (hsender ▸ (hcanon.blacklisted_iff hcodec a).mpr ha)

theorem transacts_store (ctx : Ctx) (w w' : World Any Rest)
    (h : Transacts codec authority store ctx w w') :
    Ruled ctx w w' ∧ store w'.rest = store w.rest := by
  obtain ⟨hruled, msgs, hsigned, hstore⟩ := h
  exact ⟨hruled, hstore.trans (deliver_foldl_unauthorized hsigned)⟩

/-- A change of the list is the work of a message that a proposal carried. -/
theorem proposedFor_of_change (hk : k.Lawful) (hmm : mm.Lawful)
    (hg : Governed k store (Effect codec authority carried)) (hstart : Start s)
    (hwf : s.world.WF) (h : Run k mm (Transacts codec authority store) s Bs s')
    {accounts : Message → Set Address} (P : State → Prop)
    (hP : ∀ {u m v}, handle codec authority u m = .ok v → ¬ P u → P v → a ∈ accounts m)
    (hs : ¬ P (store s.world.rest)) (hs' : P (store s'.world.rest)) :
    ProposedFor codec authority carried store k mm accounts s Bs a := by
  obtain ⟨φ, hsim, _⟩ := hstart.sim hwf
  obtain ⟨es, hes, hall⟩ := h.enacted hk hmm hg transacts_store hsim
  obtain ⟨msg, hmsg, u, v, heffect, hu, hv⟩ := hes.exists_change hs hs'
  obtain ⟨m, hm, u', v', hstep, hu', hv'⟩ := (foldlM_steps.mp heffect).exists_change hu hv
  obtain ⟨e, he, hin⟩ := List.mem_flatMap.mp hmsg
  obtain ⟨hblock, hlogged, hann⟩ := hall e he
  exact ⟨e, hblock, hlogged, hann, msg, hin, m, hm, hP hstep hu' hv'⟩

theorem canonical_of_run (hk : k.Lawful) (hmm : mm.Lawful) (hcodec : codec.Lawful)
    (hg : Governed k store (Effect codec authority carried)) (hstart : Start s)
    (hwf : s.world.WF) (h : Run k mm (Transacts codec authority store) s Bs s')
    (hs : Canonical codec (store s.world.rest).blacklistAccounts) :
    Canonical codec (store s'.world.rest).blacklistAccounts := by
  obtain ⟨φ, hsim, _⟩ := hstart.sim hwf
  obtain ⟨es, hes, _⟩ := h.enacted hk hmm hg transacts_store hsim
  apply hes.invariant (fun u => Canonical codec u.blacklistAccounts) _ hs
  intro u msg v _ hu heffect
  exact (foldlM_steps.mp heffect).invariant (fun u => Canonical codec u.blacklistAccounts)
    (fun _ _ _ _ hu hstep => canonical_of_handle hcodec hstep hu) hu

/-- **No sanction without notice.** Over any run of the chain, an account gets on the blacklist, or
off it, only by a message about it in a proposal that the run was told of: while the timelock is
active its tally passed at least one delay before, with these very messages. As long as no proposal
takes a blacklisted account off the list, nothing that it signs or sends gets past the ante
handler. -/
theorem blacklist_on_notice (k : GovKeeper Any Msg Rest) (mm : Manager Any Rest) (hk : k.Lawful)
    (hmm : mm.Lawful) (options : HandlerOptions W AnteRest TxMsg FeemarketParams EvmParams)
    (hp : Passive options) (hcodec : options.codec.Lawful) (authority : String)
    (carried : Msg → List Message) (store : Rest → State)
    (hg : Governed k store (Effect options.codec authority carried)) (hstart : Start s)
    (hwf : s.world.WF) (h : Run k mm (Transacts options.codec authority store) s Bs s')
    (a : Address) :
    (¬ Listed options.codec a (store s.world.rest) → Listed options.codec a (store s'.world.rest) →
      ProposedFor options.codec authority carried store k mm (Message.added options.codec) s Bs a) ∧
    (Listed options.codec a (store s.world.rest) → ¬ Listed options.codec a (store s'.world.rest) →
      ProposedFor options.codec authority carried store k mm (Message.removed options.codec) s Bs
        a) ∧
    (Canonical options.codec (store s.world.rest).blacklistAccounts →
      Listed options.codec a (store s.world.rest) →
      ¬ ProposedFor options.codec authority carried store k mm (Message.removed options.codec) s Bs
        a →
      ∀ w, options.blacklistAccounts w = (store s'.world.rest).blacklistAccounts →
        ShutOut options a w) := by
  have hremoved : Listed options.codec a (store s.world.rest) →
      ¬ Listed options.codec a (store s'.world.rest) → ProposedFor options.codec authority carried
        store k mm (Message.removed options.codec) s Bs a := fun hs hs' =>
    proposedFor_of_change hk hmm hg hstart hwf h (fun u => ¬ Listed options.codec a u)
      (fun hstep hu hv => removed_of_handle hcodec hstep (not_not.mp hu) hv) (not_not.mpr hs) hs'
  refine ⟨fun hs hs' => proposedFor_of_change hk hmm hg hstart hwf h (Listed options.codec a)
    (fun hstep hu hv => added_of_handle hcodec hstep hu hv) hs hs', hremoved, ?_⟩
  intro hcanon hs hno w hw
  have hlisted : Listed options.codec a (store s'.world.rest) := by
    by_contra hs'
    exact hno (hremoved hs hs')
  have hcanon' := canonical_of_run hk hmm hcodec hg hstart hwf h hcanon
  exact shutOut_of_listed hp hcodec (hw ▸ hcanon') (hw ▸ hlisted)

end

/-! ## A small chain -/

/-- The messages of the module, with the error's text. -/
def handleText (authority : String) (msg : Message) (s : State) : Except String State :=
  match handle arkCodec authority s msg with
  | .ok s' => .ok s'
  | .error err => .error err.text

theorem handleText_ok {authority : String} {msg : Message} {s s' : State}
    (h : handleText authority msg s = .ok s') : Effect arkCodec authority (fun m => [m]) s msg s' := by
  unfold handleText at h
  cases hmsg : handle arkCodec authority s msg with
  | ok t =>
    simp only [hmsg, Except.ok.injEq] at h
    rw [← h, Effect, foldlM_steps]
    exact .cons hmsg (.nil t)
  | error err => simp [hmsg] at h

/-- Nobody is blacklisted. -/
def cleanState : State := ⟨some ⟨⟩, KeySet.empty⟩

/-- Account 1 is. -/
def listedState : State := ⟨some ⟨⟩, smallBlacklist⟩

/-- Governance, which is account 9, puts account 1 on the list. -/
def listing : Message := .add ⟨arkCodec.string (account 9), [arkCodec.string (account 1)]⟩

theorem listing_handled :
    handleText (arkCodec.string (account 9)) listing cleanState = .ok listedState := by
  have hnames : normalizeAll arkCodec [arkCodec.string (account 1)] =
      .ok [arkCodec.string (account 1)] := normalizeAll_printed arkCodec_lawful (account_parses 1)
  have hadd : handle arkCodec (arkCodec.string (account 9)) cleanState listing = .ok listedState := by
    apply (addBlacklistAccounts_iff ⟨_, account_parses 9⟩).mpr
    refine ⟨List.cons_ne_nil _ _,
      addToBlacklist_iff.mpr ⟨_, hnames, List.nodup_singleton _, fun key _ => ?_, rfl⟩⟩
    exact KeySet.not_mem_empty key
  rw [handleText, hadd]

/-- Account 2 asks for account 1 to be taken off the list. -/
def forged : Message := .remove ⟨arkCodec.string (account 2), [arkCodec.string (account 1)]⟩

theorem forged_unauthorized : forged.authority ≠ arkCodec.string (account 9) := by
  intro h
  have haccount := arkCodec_lawful.string_injective (account 2) (account 9) h
  exact absurd haccount (by decide)

/-- The forged message arrives in every block. -/
theorem transacts_forged (ctx : Ctx) (w : World Message State) :
    Transacts arkCodec (arkCodec.string (account 9)) id ctx w w := by
  have hsigned : ∀ msg ∈ [forged], msg.authority ≠ arkCodec.string (account 9) :=
    List.forall_mem_singleton.mpr forged_unauthorized
  exact ⟨⟨id, .refl _ _ _⟩, [forged], hsigned, (deliver_foldl_unauthorized hsigned).symm⟩

/-- A proposal puts account 1 on the list, 48 hours after its tally; and while none takes it off,
account 1 is shut out, whatever account 2 asks for. -/
theorem listing_noticed :
    (∃ e : Enactment Message Message, e.block = GovTimelock.executionBlock ∧ e.proposal.id = 7 ∧
      (∃ msg ∈ e.msgs, account 1 ∈ msg.added arkCodec) ∧
      ∃ b ∈ [GovTimelock.tallyBlock, GovTimelock.executionBlock], b.active = true ∧
        .tallied 7 true ∈ b.log ∧
        b.ctx.time + GovTimelock.minimumDelay ≤ GovTimelock.executionBlock.ctx.time) ∧
    ShutOut smallOptions (account 1) smallBlacklist := by
  have hlisted : Listed arkCodec (account 1) listedState := KeySet.mem_set.mpr (.inl rfl)
  have hnotice := fun {s s' : St Message State} {Bs : List Block} (hstart : Start s)
      (hwf : s.world.WF) (hrun : Run (GovTimelock.storeKeeper (handleText (arkCodec.string (account 9))))
        GovTimelock.govtimelockManager (Transacts arkCodec (arkCodec.string (account 9)) id) s Bs s') =>
    blacklist_on_notice _ _ GovTimelock.storeKeeper_lawful GovTimelock.govtimelockManager_lawful
      smallOptions smallOptions_passive arkCodec_lawful (arkCodec.string (account 9)) (fun m => [m]) id
      (GovTimelock.storeKeeper_governed handleText_ok) hstart hwf hrun (account 1)
  constructor
  · have hrun := GovTimelock.proposed_run transacts_forged listing_handled
    obtain ⟨e, hblock, ⟨hlogged, _⟩, hann, msg, hmsg, m, hm, hadded⟩ :=
      (hnotice (.empty fun _ _ => KeySet.not_mem_empty _) (Gov.votingWorld_wf (by decide) (by decide))
        hrun).1 (KeySet.not_mem_empty _) hlisted
    rw [List.mem_singleton.mp hm] at hadded
    have he : e.block = GovTimelock.executionBlock ∧ e.proposal.id = 7 := by
      rcases List.mem_pair.mp hblock with heq | heq
      · rw [heq] at hlogged
        simp [GovTimelock.tallyBlock, GovTimelock.Act.log] at hlogged
      · rw [heq] at hlogged
        refine ⟨heq, ?_⟩
        simpa [GovTimelock.executionBlock, GovTimelock.Act.log, GovTimelock.Ran.log] using hlogged
    obtain ⟨heq, hid⟩ := he
    refine ⟨e, heq, hid, ⟨msg, hmsg, hadded⟩, ?_⟩
    cases hann with
    | atOnce hinactive =>
      rw [heq] at hinactive
      cases hinactive
    | inherited _ hentry => exact absurd hentry (KeySet.not_mem_empty _)
    | deferred _ hBs hactive htally hdelay _ _ =>
      rw [hid] at htally
      rw [heq] at hdelay
      exact ⟨_, by rw [hBs]; simp, hactive, htally, hdelay⟩
  · have hrun : Run (GovTimelock.storeKeeper (handleText (arkCodec.string (account 9))))
        GovTimelock.govtimelockManager _ _ _ _ :=
      GovTimelock.quietBlock_run _ (transacts_forged GovTimelock.quietBlock.ctx (World.empty listedState))
    refine (hnotice (.empty fun _ _ => KeySet.not_mem_empty _) (GovTimelock.empty_wf listedState)
      hrun).2.2 smallBlacklist_canonical hlisted ?_ _ rfl
    rintro ⟨e, hblock, ⟨hlogged, _⟩, _⟩
    rw [List.mem_singleton.mp hblock] at hlogged
    exact absurd hlogged List.not_mem_nil

end Ark.Sanction
