import Ark.CollectGentx

/- What it means that a gentx is accepted.

   `Certifies` is what the gate promises of a whole run. `checks_ok` says what the checks
   of one gentx establish: all of `Vetted`, and that its address was not found in the log.
   `replay_ok` says when its node lets it pass: without a panic, with a block in its log,
   or with nothing but a mention of InitChain. -/
namespace Ark.CollectGentx
open Ark.Lib Ark.Lib.Checks Ark.Lib.Jq Ark.Lib.Shell
open Ark.Lib.Python (Json parseInt)

/-! ## What is certified -/

/-- An address has a balance of `held` in a denom. -/
def Holds (base : List Json) (addr denom : List Char) (held : Json) : Prop :=
  ∃ doc ∈ base, ∃ balances accounts balance coins entries coin,
    follow [.key "app_state", .key "bank", .key "balances"] doc = some balances ∧
    items balances = some accounts ∧ balance ∈ accounts ∧
    follow [.key "address"] balance = some (.str (.ofList addr)) ∧
    follow [.key "coins"] balance = some coins ∧ items coins = some entries ∧ coin ∈ entries ∧
    follow [.key "denom"] coin = some (.str (.ofList denom)) ∧
    follow [.key "amount"] coin = some held

namespace Script
variable (s : Script)

/-- The re-encoded address of a gentx. -/
def delegator (g : Gentx) : Option (List Char) :=
  (s.structuralChecks g >>= fun claim => s.resolve claim.valAddr).toOption

/-- What the checks before the node establish. -/
structure Vetted (g : Gentx) : Prop where
  oneMessage : ∃ doc msg type, g.docs = some [doc] ∧ follow messages doc = some (.arr [msg]) ∧
    follow [.key "@type"] msg = some type ∧ text s.render type = msgCreateValidator
  oneSignature : ∃ doc sig, g.docs = some [doc] ∧ follow signatures doc = some (.arr [sig])
  funded : ∃ doc delAddr amount denom held available claimed, g.docs = some [doc] ∧
    s.delegator g = some delAddr ∧
    follow (message ++ [.key "value", .key "amount"]) doc = some amount ∧
    follow (message ++ [.key "value", .key "denom"]) doc = some denom ∧
    Holds (s.base.getD []) delAddr (text s.render denom) held ∧
    parseInt s.unicode (text s.render held) = some available ∧
    parseInt s.unicode (text s.render amount) = some claimed ∧ claimed ≤ available

/-- The node's log shows a block, and no panic in a DeliverTx. -/
def Replayed (g : Gentx) : Prop :=
  showsBlock g.boot.node.final = true ∧ showsPanic g.boot.node.final = false

/-- What the gate promises of a run on `files`. -/
structure Certifies (files : List Gentx) (out : Outcome) : Prop where
  vetted : ∀ g ∈ out.accepted, s.Vetted g
  replayed : ∀ g ∈ out.accepted, Replayed g
  distinct : out.accepted.Pairwise fun g g' => s.delegator g ≠ s.delegator g'
  compiled : ∀ gs, out.compiled = some gs → gs = out.accepted
  complete : out.exit = .success → files ≠ [] ∧ out.accepted = files

variable {s}

/-! ## Values of one document -/

theorem value_ok {filter : Json → Stream} {docs : List Json} {out : List Char}
    (h : s.value filter docs = .ok out) :
    out = substitute (unlines ((docs.flatMap fun doc => (filter doc).outputs).map
      (rawText s.render))) := by
  unfold value Jq.run at h
  simp only at h
  split at h
  · cases h
  · rw [← Except.ok.inj h, List.flatMap_map]

theorem follow_of_value {steps : List Step} {docs : List Json} {out : List Char}
    (h : s.value (path steps) docs = .ok out) : ∀ doc ∈ docs, ∃ v, follow steps doc = some v := by
  intro doc hdoc
  cases hv : follow steps doc with
  | some v => exact ⟨v, rfl⟩
  | none =>
    have hfailed : (docs.map (path steps)).any Stream.failed = true := by
      apply List.any_eq_true.mpr
      refine ⟨path steps doc, List.mem_map_of_mem hdoc, ?_⟩
      unfold path
      rw [hv]
      rfl
    unfold value Jq.run at h
    simp only [hfailed, if_true] at h
    cases h

theorem value_path {steps : List Step} {doc : Json} {out : List Char}
    (h : s.value (path steps) [doc] = .ok out) :
    ∃ v, follow steps doc = some v ∧ out = text s.render v := by
  cases hv : follow steps doc with
  | none =>
    unfold value Jq.run path at h
    simp [hv, Stream.ofOption] at h
  | some v =>
    refine ⟨v, rfl, ?_⟩
    have hout := value_ok h
    unfold path at hout
    rw [List.flatMap_singleton, hv] at hout
    exact hout

/-- A length that reads as 1. -/
theorem count_one {steps : List Step} {doc : Json} (h : s.count (lengthAt steps) [doc] = ['1']) :
    ∃ v n, follow steps doc = some v ∧ length v = some n ∧ text s.render n = ['1'] := by
  cases hn : (follow steps doc).bind length with
  | none =>
    unfold count Jq.run lengthAt at h
    simp only [List.map_cons, List.map_nil, hn, Stream.ofOption] at h
    have hzero : ['0'] = ['1'] := h
    exact absurd hzero (by decide)
  | some n =>
    obtain ⟨v, hv, hlen⟩ := Option.bind_eq_some_iff.mp hn
    refine ⟨v, n, hv, hlen, ?_⟩
    unfold count Jq.run lengthAt at h
    simp only [List.map_cons, List.map_nil, hn, Stream.ofOption] at h
    exact h

theorem arr_of_length_one {xs : List Json} {n : Json} (h : length (.arr xs) = some n)
    (hone : text s.render n = ['1']) : ∃ x, xs = [x] := by
  have hn : n = .int xs.length := (Option.some.inj h).symm
  rw [hn] at hone
  exact List.length_eq_one_iff.mp (text_one hone)

theorem null_length_ne_one {n : Json} (h : length .null = some n) :
    text s.render n ≠ ['1'] := by
  rw [← Option.some.inj h]
  intro hone
  exact absurd (text_one (n := 0) hone) (by decide)

/-! ## The checks of one gentx -/

/-- What the binary does: `genesis collect-gentxs` reads a transaction, whose signatures are a list
if there are any. -/
def TakesTransactions (g : Gentx) : Prop :=
  g.boot.collect = .ok () → ∀ doc v, g.docs = some [doc] → follow signatures doc = some v →
    v = .null ∨ ∃ sigs, v = .arr sigs

/-- Where a message has a type the messages can be counted. -/
theorem lengthAt_messages {doc type : Json}
    (h : follow (message ++ [.key "@type"]) doc = some type) :
    ∃ n : Nat, lengthAt messages doc = .emit (.int n) := by
  unfold message at h
  rw [List.append_assoc, follow_append] at h
  obtain ⟨v, hv, h⟩ := Option.bind_eq_some_iff.mp h
  unfold lengthAt
  rw [hv]
  cases v with
  | null => exact ⟨0, rfl⟩
  | arr items => exact ⟨items.length, rfl⟩
  | _ => cases h

/-- A file with one message, of a type, is one document. -/
theorem oneDoc_of {docs : List Json} {type : List Char}
    (hcount : s.count (lengthAt messages) docs = ['1'])
    (htype : s.value (path (message ++ [.key "@type"])) docs = .ok type) :
    ∃ doc, docs = [doc] := by
  have hnumbers : ∀ doc ∈ docs, ∃ n : Nat, lengthAt messages doc = .emit (.int n) := by
    intro doc hdoc
    obtain ⟨v, hv⟩ := follow_of_value htype doc hdoc
    exact lengthAt_messages hv
  obtain ⟨ns, hlen, hrun⟩ := run_numbers hnumbers
  unfold count at hcount
  rw [hrun] at hcount
  have hone : ns = [1] := numbers_one hcount
  rw [hone] at hlen
  exact List.length_eq_one_iff.mp hlen.symm

theorem structuralChecks_ok {g : Gentx} {claim : Claim} (h : s.structuralChecks g = .ok claim) :
    ∃ doc, g.docs = some [doc] ∧ s.count (lengthAt messages) [doc] = ['1'] ∧
      (∃ type, follow (message ++ [.key "@type"]) doc = some type ∧
        text s.render type = msgCreateValidator) ∧
      s.count (lengthAt signatures) [doc] = ['1'] ∧
      (∃ amount, follow (message ++ [.key "value", .key "amount"]) doc = some amount ∧
        claim.selfAmount = text s.render amount) ∧
      ∃ denom, follow (message ++ [.key "value", .key "denom"]) doc = some denom ∧
        claim.selfDenom = text s.render denom := by
  unfold structuralChecks at h
  cases hread : g.docs with
  | none =>
    rw [hread] at h
    cases h
  | some docs =>
    rw [hread] at h
    obtain ⟨_, h₁, h⟩ := bind_ok.mp h
    obtain ⟨msgType, h₂, h⟩ := bind_ok.mp h
    obtain ⟨_, h₃, h⟩ := bind_ok.mp h
    obtain ⟨_, h₄, h⟩ := bind_ok.mp h
    obtain ⟨moniker, _, h⟩ := bind_ok.mp h
    obtain ⟨valAddr, _, h⟩ := bind_ok.mp h
    obtain ⟨selfAmount, h₅, h⟩ := bind_ok.mp h
    obtain ⟨selfDenom, h₆, h⟩ := bind_ok.mp h
    obtain ⟨_, _, h⟩ := bind_ok.mp h
    have hclaim := pure_ok.mp h
    obtain ⟨doc, rfl⟩ := oneDoc_of (Decidable.not_not.mp (failIf_ok.mp h₁)) h₂
    obtain ⟨type, htype, htext⟩ := value_path h₂
    refine ⟨doc, rfl, Decidable.not_not.mp (failIf_ok.mp h₁), ⟨type, htype, ?_⟩,
      Decidable.not_not.mp (failIf_ok.mp h₄), ?_, ?_⟩
    · rw [← htext]
      exact Decidable.not_not.mp (failIf_ok.mp h₃)
    · rw [← hclaim]
      exact value_path h₅
    · rw [← hclaim]
      exact value_path h₆

/-- One message, of the right type. -/
theorem oneMessage_of {doc : Json} (hcount : s.count (lengthAt messages) [doc] = ['1'])
    {type : Json} (htype : follow (message ++ [.key "@type"]) doc = some type) :
    ∃ msg, follow messages doc = some (.arr [msg]) ∧ follow [.key "@type"] msg = some type := by
  obtain ⟨v, n, hv, hlen, hone⟩ := count_one hcount
  unfold message at htype
  rw [List.append_assoc, follow_append, hv, Option.bind_some, follow_append] at htype
  obtain ⟨msg, hmsg, hkey⟩ := Option.bind_eq_some_iff.mp htype
  -- only a list has both a length and a first item
  cases v with
  | arr items =>
    obtain ⟨x, hx⟩ := arr_of_length_one hlen hone
    rw [hx] at hmsg hv
    have hmsg : x = msg := Option.some.inj hmsg
    exact ⟨x, hv, hmsg ▸ hkey⟩
  | null => exact absurd hone (null_length_ne_one hlen)
  | _ => cases hmsg

theorem mem_amounts {addr denom : List Char} {doc held : Json}
    (h : held ∈ (amounts addr denom doc).outputs) {base : List Json} (hdoc : doc ∈ base) :
    Holds base addr denom held := by
  unfold amounts at h
  obtain ⟨coin, hcoin, h⟩ := Stream.mem_pipe h
  obtain ⟨account, haccount, hcoin⟩ := Stream.mem_pipe hcoin
  obtain ⟨balance, hbalance, haccount⟩ := Stream.mem_pipe haccount
  obtain ⟨heq, haddr⟩ := mem_selectText haccount
  obtain ⟨balances, accounts, hbalances, haccounts, hmem⟩ := mem_iterate hbalance
  obtain ⟨coins, entries, hcoins, hentries, hentry⟩ := mem_iterate hcoin
  obtain ⟨coin', hcoin', h⟩ := Stream.mem_pipe h
  obtain ⟨heq', hdenom⟩ := mem_selectText hcoin'
  rw [heq] at hcoins
  rw [heq'] at h
  have hamount : follow [.key "amount"] coin = some held := by
    unfold path at h
    cases hv : follow [.key "amount"] coin with
    | none =>
      rw [hv] at h
      cases h
    | some v =>
      rw [hv] at h
      rw [List.mem_singleton.mp h]
  exact ⟨doc, hdoc, balances, accounts, balance, coins, entries, coin, hbalances, haccounts, hmem,
    haddr, hcoins, hentries, hentry, hdenom, hamount⟩

theorem checkFunds_ok {g : Gentx} {claim : Claim} {delAddr : List Char} {u : Unit}
    (h : s.checkFunds g claim delAddr = .ok u) :
    ∃ held available claimed, Holds (s.base.getD []) delAddr claim.selfDenom held ∧
      parseInt s.unicode (text s.render held) = some available ∧
      parseInt s.unicode claim.selfAmount = some claimed ∧ claimed ≤ available := by
  unfold checkFunds at h
  obtain ⟨balance, hbalance, h⟩ := bind_ok.mp h
  obtain ⟨_, _, h⟩ := bind_ok.mp h
  obtain ⟨_, _, h⟩ := bind_ok.mp h
  cases havailable : parseInt s.unicode balance with
  | none =>
    rw [havailable] at h
    cases h
  | some available =>
    cases hclaimed : parseInt s.unicode claim.selfAmount with
    | none =>
      rw [havailable, hclaimed] at h
      cases h
    | some claimed =>
      rw [havailable, hclaimed] at h
      have hle : claimed ≤ available := Int.not_lt.mp (failIf_ok.mp h)
      -- the printed lines are one number, so one of them is
      rw [value_ok hbalance] at havailable
      obtain ⟨line, hline, hparse⟩ := parseInt_lines havailable
      obtain ⟨held, hheld, hraw⟩ := List.mem_map.mp hline
      obtain ⟨doc, hdoc, hmem⟩ := List.mem_flatMap.mp hheld
      refine ⟨held, available, claimed, mem_amounts hmem hdoc, ?_, rfl, hle⟩
      unfold text
      rw [hraw]
      exact hparse

theorem prepare_ok {g : Gentx} {u : Unit} (h : prepare g = .ok u) : g.boot.collect = .ok () := by
  unfold prepare at h
  obtain ⟨_, _, h⟩ := bind_ok.mp h
  obtain ⟨_, _, h⟩ := bind_ok.mp h
  cases hcollect : g.boot.collect with
  | ok v => rfl
  | error tail =>
    rw [hcollect] at h
    cases h

theorem checks_ok {g : Gentx} (htx : TakesTransactions g) {seen delAddr : List Char}
    (h : s.checks seen g = .ok delAddr) :
    s.Vetted g ∧ s.delegator g = some delAddr ∧ s.prior seen delAddr = [] := by
  unfold checks at h
  obtain ⟨claim, hclaim, h⟩ := bind_ok.mp h
  obtain ⟨addr, haddr, h⟩ := bind_ok.mp h
  obtain ⟨_, hprior, h⟩ := bind_ok.mp h
  obtain ⟨_, hfunds, h⟩ := bind_ok.mp h
  obtain ⟨_, hprepare, h⟩ := bind_ok.mp h
  rw [← pure_ok.mp h]
  obtain ⟨doc, hdocs, hmessages, ⟨type, htype, htext⟩, hsignatures,
    ⟨amount, hamount, hselfAmount⟩, denom, hdenom, hselfDenom⟩ := structuralChecks_ok hclaim
  have hdelegator : s.delegator g = some addr := by
    unfold delegator
    rw [bind_ok.mpr ⟨claim, hclaim, haddr⟩]
    rfl
  refine ⟨⟨?_, ?_, ?_⟩, hdelegator, Decidable.not_not.mp (failIf_ok.mp hprior)⟩
  · obtain ⟨msg, hmsg, hkey⟩ := oneMessage_of hmessages htype
    exact ⟨doc, msg, type, hdocs, hmsg, hkey, htext⟩
  · obtain ⟨v, n, hv, hlen, hone⟩ := count_one hsignatures
    rcases htx (prepare_ok hprepare) doc v hdocs hv with rfl | ⟨sigs, rfl⟩
    · exact absurd hone (null_length_ne_one hlen)
    · obtain ⟨sig, rfl⟩ := arr_of_length_one hlen hone
      exact ⟨doc, sig, hdocs, hv⟩
  · obtain ⟨held, available, claimed, hholds, havailable, hclaimed, hle⟩ := checkFunds_ok hfunds
    rw [hselfDenom] at hholds
    rw [hselfAmount] at hclaimed
    exact ⟨doc, addr, amount, denom, held, available, claimed, hdocs, hdelegator, hamount, hdenom,
      hholds, havailable, hclaimed, hle⟩

/-! ## The node -/

/-- A node that a round of the loop found ready shows a block in the end. -/
theorem showsBlock_of_poll {node : NodeRun} {n i : Nat} (h : poll node n i = true) :
    showsBlock node.final = true := by
  induction n generalizing i with
  | zero => cases h
  | succ n ih =>
    unfold poll at h
    split at h
    · cases h
    · split at h
      · rename_i hready
        have hblock : showsBlock (node.log (2 * i + 1)) = true := (Bool.and_eq_true _ _ ▸ hready).2
        unfold showsBlock at hblock ⊢
        rw [Bool.or_eq_true] at hblock ⊢
        cases hblock with
        | inl h => exact .inl (shows_extends (node.ends _) h)
        | inr h => exact .inr (shows_extends (node.ends _) h)
      · exact ih h

/-- A gentx is accepted when its node does not panic and shows a block, or mentions InitChain. -/
theorem replay_ok {g : Gentx} :
    s.replay g = .ok () ↔ showsPanic g.boot.node.final = false ∧
      (showsBlock g.boot.node.final = true ∨ showsInitChain g.boot.node.final = true) := by
  unfold replay
  simp only [bind_ok, failIf_ok, Bool.not_eq_true, exists_and_left, exists_const]
  rw [← Bool.or_eq_true]
  constructor
  · intro h
    obtain ⟨hpanic, hready⟩ := h
    refine ⟨hpanic, ?_⟩
    cases hpoll : poll g.boot.node s.bootTimeout 0 with
    | true => rw [showsBlock_of_poll hpoll, Bool.true_or]
    | false =>
      cases hblock : showsBlock g.boot.node.final with
      | true => rfl
      | false => simpa [hpoll, hblock] using hready
  · intro h
    obtain ⟨hpanic, hready⟩ := h
    refine ⟨hpanic, ?_⟩
    simp [hready]

end Script
end Ark.CollectGentx
