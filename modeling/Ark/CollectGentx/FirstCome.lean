import Ark.CollectGentx.Gate
import Ark.Lib.FirstOfEach

/- Which gentxs of a directory are accepted.

   The script judges a gentx by itself (`alone`), but for the log of addresses. An address
   is found in the log exactly when a gentx for it was accepted before (`prior_iff`). So of
   the gentxs that would pass alone the first for each address is accepted, in the order of
   the directory, and what becomes of an address depends on nobody else's gentxs
   (`accepts_first_come`).

   A gentx can still end the script for all: jq fails on a message that is no object, and a
   command outside of a condition may fail (`Stops`). Then nothing is compiled. -/
namespace Ark.CollectGentx
open Ark.Lib Ark.Lib.Checks Ark.Lib.Jq Ark.Lib.Shell
open Ark.Lib.Python (Json)

namespace Script
variable (s : Script)

/-- What the script makes of a gentx that is alone: its delegator's address, if it passes. -/
def alone (g : Gentx) : Except Stop (List Char) := do
  let delAddr ← s.checks [] g
  s.replay g
  pure delAddr

def address (g : Gentx) : Option (List Char) := (s.alone g).toOption

/-- The script ends at the gentx, if it comes that far with it. -/
def Stops (g : Gentx) : Prop := s.alone g = .error .abort ∨ g.kept = false

/-- The line of an accepted gentx in the log. -/
def line (g : Gentx) : List Char := seenLine ((s.address g).getD []) g.name

/-- To awk no two addresses are numbers. -/
def TextPrefix : Prop :=
  ∀ a b, s.accountPrefix <+: a → s.accountPrefix <+: b → s.awkNumbers a b = false

/-- The script has gone through `done`, and accepted the first of each address. -/
structure Through (done : List Gentx) (st : St) : Prop where
  first : FirstOfEach s.address done st.accepted
  logged : st.seen = unlines (st.accepted.map s.line)
  kept : ∀ g ∈ st.accepted, g.kept = true
  counted : st.accepted.length + st.rejected.length = done.length

variable {s} {done files : List Gentx} {st : St} {g : Gentx} {word delAddr : List Char}

/-! ## Addresses in the log -/

theorem prior_nil : s.prior [] word = [] := rfl

theorem resolve_begins (hclean : PlainPrefix s) {valAddr : List Char}
    (h : s.resolve valAddr = .ok delAddr) : s.accountPrefix <+: delAddr := by
  unfold resolve at h
  simp only at h
  split at h
  · cases h
  · rename_i hne
    rw [← pure_ok.mp h]
    cases hencoded : Reencode.reencode valAddr s.accountPrefix with
    | none =>
      rw [hencoded] at hne
      exact absurd rfl hne
    | some word =>
      have hplain := isWordChar_reencode hclean hencoded
      have hline : substitute (unlines [word]) = word := by
        apply substitute_line
        · intro hnul
          exact absurd (hplain _ hnul) (by decide)
        · intro hbreak
          exact absurd (hplain _ hbreak) (by decide)
      obtain ⟨decoded, _, hword⟩ := Option.map_eq_some_iff.mp hencoded
      rw [Option.toList_some, hline, ← hword]
      exact List.prefix_append _ _

theorem delegator_of_resolve {claim : Claim} (hclaim : s.structuralChecks g = .ok claim)
    (haddr : s.resolve claim.valAddr = .ok delAddr) : s.delegator g = some delAddr := by
  unfold delegator
  rw [bind_ok.mpr ⟨claim, hclaim, haddr⟩]
  rfl

theorem delegator_begins (hclean : PlainPrefix s) (h : s.delegator g = some delAddr) :
    s.accountPrefix <+: delAddr := by
  unfold delegator at h
  cases hresolve : s.structuralChecks g >>= fun claim => s.resolve claim.valAddr with
  | error stop =>
    rw [hresolve] at h
    cases h
  | ok addr =>
    rw [hresolve] at h
    cases h
    obtain ⟨claim, _, hclaim⟩ := bind_ok.mp hresolve
    exact resolve_begins hclean hclaim

theorem address_of_ok (h : s.alone g = .ok delAddr) : s.address g = some delAddr := by
  unfold address
  rw [h]
  rfl

theorem address_of_error {stop : Stop} (h : s.alone g = .error stop) : s.address g = none := by
  unfold address
  rw [h]
  rfl

theorem delegator_of_address (h : s.address g = some delAddr) : s.delegator g = some delAddr := by
  cases halone : s.alone g with
  | error stop =>
    rw [address_of_error halone] at h
    cases h
  | ok addr =>
    rw [address_of_ok halone] at h
    cases h
    unfold alone checks at halone
    simp only [bind_ok, pure_ok] at halone
    obtain ⟨_, ⟨claim, hclaim, addr, haddr, _, _, _, _, _, _, heq⟩, _, _, heq'⟩ := halone
    rw [← heq', ← heq]
    exact delegator_of_resolve hclaim haddr

/-- An address is found in the log when a gentx for it was accepted. -/
theorem prior_iff (hclean : PlainPrefix s) (htext : TextPrefix s) {accepted : List Gentx}
    (haddrs : ∀ g ∈ accepted, (s.address g).isSome) (hnames : ∀ g ∈ accepted, '\n' ∉ g.name)
    (hg : s.delegator g = some word) :
    s.prior (unlines (accepted.map s.line)) word ≠ [] ↔
      ∃ g' ∈ accepted, s.address g' = some word := by
  have hword := delegator_isWord hclean hg
  have hlines : ∀ line ∈ accepted.map s.line, IsLine line := by
    intro line hline
    obtain ⟨g', hg', heq⟩ := List.mem_map.mp hline
    obtain ⟨addr, haddr⟩ := Option.isSome_iff_exists.mp (haddrs g' hg')
    refine ⟨addr, g', ?_, delegator_isWord hclean (delegator_of_address haddr), hnames g' hg'⟩
    rw [← heq, Script.line, haddr, Option.getD_some]
  constructor
  · intro hprior
    by_contra hnone
    apply hprior
    have hfind : ((accepted.map s.line).find? fun line =>
        s.awkEqual (firstField line) (s.awkVariable word)) = none := by
      rw [List.find?_eq_none]
      intro line hline
      obtain ⟨g', hg', heq⟩ := List.mem_map.mp hline
      obtain ⟨addr, haddr⟩ := Option.isSome_iff_exists.mp (haddrs g' hg')
      have hdelegator := delegator_of_address haddr
      have haddrWord := delegator_isWord hclean hdelegator
      have hfield : firstField line = addr := by
        rw [← heq, Script.line, haddr, Option.getD_some, seenLine,
          firstField_word haddrWord.ne_nil fun c hc => isBlank_of_isWordChar (haddrWord.plain c hc)]
      have hne : addr ≠ word := fun hsame => hnone ⟨g', hg', hsame ▸ haddr⟩
      rw [hfield, awkVariable_word hword, awkEqual,
        htext addr word (delegator_begins hclean hdelegator) (delegator_begins hclean hg)]
      simpa using hne
    unfold prior
    simp only [splitLines_unlines fun line hline => (hlines line hline).noBreak, hfind]
    rfl
  · intro h
    obtain ⟨g', hg', haddr⟩ := h
    have hmem : seenLine word g'.name ∈ accepted.map s.line :=
      List.mem_map.mpr ⟨g', hg', by rw [Script.line, haddr, Option.getD_some]⟩
    exact prior_ne_nil hlines hmem hword

/-! ## One gentx -/

/-- An address that is not in the log is judged as without a log. -/
theorem checks_fresh {seen : List Char}
    (h : ∀ addr, s.delegator g = some addr → s.prior seen addr = []) :
    s.checks seen g = s.checks [] g := by
  unfold checks
  cases hclaim : s.structuralChecks g with
  | error stop => rfl
  | ok claim =>
    show (s.resolve claim.valAddr >>= _) = (s.resolve claim.valAddr >>= _)
    cases haddr : s.resolve claim.valAddr with
    | error stop => rfl
    | ok addr =>
      have hprior := h addr (delegator_of_resolve hclaim haddr)
      have hpass : ∀ log, s.prior log addr = [] → s.checkDuplicate log addr = .ok () := by
        intro log hlog
        unfold checkDuplicate
        rw [failIf_ok]
        exact fun hne => hne hlog
      simp only [bind, Except.bind, hpass seen hprior, hpass [] prior_nil]

/-- An address that is in the log is rejected. -/
theorem checks_taken {seen : List Char} (h : s.delegator g = some delAddr)
    (hprior : s.prior seen delAddr ≠ []) : ∃ reason, s.checks seen g = .error (.reject reason) := by
  unfold delegator at h
  cases hresolve : s.structuralChecks g >>= fun claim => s.resolve claim.valAddr with
  | error stop =>
    rw [hresolve] at h
    cases h
  | ok addr =>
    rw [hresolve] at h
    cases h
    obtain ⟨claim, hclaim, haddr⟩ := bind_ok.mp hresolve
    unfold checks checkDuplicate
    rw [hclaim]
    show ∃ reason, (s.resolve claim.valAddr >>= _) = _
    rw [haddr]
    show ∃ reason, (failIf _ _ >>= _) = _
    rw [failIf, if_pos hprior]
    exact ⟨_, rfl⟩

theorem judge_fresh (h : s.checks st.seen g = s.checks [] g) :
    s.judge st g = match s.alone g with
      | .error stop => st.stop g stop
      | .ok delAddr => st.accept g delAddr := by
  unfold judge alone
  rw [h]
  cases s.checks [] g with
  | error stop => rfl
  | ok delAddr =>
    simp only [bind, Except.bind, pure, Except.pure]
    cases s.replay g with
    | error stop => rfl
    | ok u => rfl

theorem Through.reject (h : s.Through done st)
    (hfirst : FirstOfEach s.address (done ++ [g]) st.accepted) (reason : String) :
    s.Through (done ++ [g]) { st with rejected := st.rejected ++ [(g.name, reason)] } := by
  refine ⟨hfirst, h.logged, h.kept, ?_⟩
  rw [List.length_append, List.length_append, ← Nat.add_assoc, h.counted]
  rfl

theorem Through.accept (h : s.Through done st) (haddress : s.address g = some delAddr)
    (hnew : ∀ g' ∈ st.accepted, s.address g' ≠ some delAddr) :
    (∃ st', st.accept g delAddr = .go st' ∧ s.Through (done ++ [g]) st') ∨
    s.Stops g ∧ ∃ st' done', st.accept g delAddr = .aborted st' ∧ done' <+: done ++ [g] ∧
      FirstOfEach s.address done' st'.accepted := by
  have hfirst := h.first.new haddress hnew
  have haccepted := accept_accepted st g delAddr
  have hseen := accept_seen st g delAddr
  cases hend : st.accept g delAddr with
  | aborted st' =>
    rw [hend] at haccepted
    refine .inr ⟨.inr ?_, st', _, rfl, List.prefix_rfl, haccepted ▸ hfirst⟩
    unfold St.accept at hend
    simp only at hend
    split at hend
    · cases hend
    · exact Bool.not_eq_true _ ▸ ‹_›
  | go st' =>
    rw [hend] at haccepted hseen
    obtain ⟨_, hall, hrejected⟩ := accept_go st g delAddr hend
    have hkept : g.kept = true := by
      unfold St.accept at hend
      simp only at hend
      split at hend
      · assumption
      · cases hend
    refine .inl ⟨st', rfl, hall ▸ hfirst, ?_, ?_, ?_⟩
    · have hline : s.line g = seenLine delAddr g.name := by
        rw [Script.line, haddress, Option.getD_some]
      rw [hall, show st'.seen = _ from hseen, h.logged, List.map_append, List.map_singleton, hline]
      exact List.flatMap_append.symm
    · rw [hall]
      intro g' hg'
      cases List.mem_append.mp hg' with
      | inl hg' => exact h.kept g' hg'
      | inr hg' => rw [List.mem_singleton.mp hg', hkept]
    · rw [hall, hrejected, List.length_append, List.length_append, ← h.counted]
      exact Nat.add_right_comm _ _ _

/-- The script goes on with the gentx judged, or ends at it. -/
theorem Through.judge (h : s.Through done st) (hclean : PlainPrefix s) (htext : TextPrefix s)
    (hnames : ∀ g ∈ done, '\n' ∉ g.name) :
    (∃ st', s.judge st g = .go st' ∧ s.Through (done ++ [g]) st') ∨
    s.Stops g ∧ ∃ st' done', s.judge st g = .aborted st' ∧ done' <+: done ++ [g] ∧
      FirstOfEach s.address done' st'.accepted := by
  have hfound : ∀ addr, s.delegator g = some addr →
      (s.prior st.seen addr ≠ [] ↔ ∃ g' ∈ st.accepted, s.address g' = some addr) := by
    intro addr haddr
    rw [h.logged]
    exact prior_iff hclean htext h.first.keyed
      (fun g' hg' => hnames g' (h.first.sublist.subset hg')) haddr
  by_cases htaken : ∃ addr, s.delegator g = some addr ∧ s.prior st.seen addr ≠ []
  · obtain ⟨addr, haddr, hprior⟩ := htaken
    obtain ⟨reason, hchecks⟩ := checks_taken haddr hprior
    refine .inl ⟨_, by rw [Script.judge, hchecks]; rfl, h.reject ?_ reason⟩
    cases haddress : s.address g with
    | none => exact h.first.skip haddress
    | some own =>
      obtain ⟨g', hg', hsame⟩ := (hfound addr haddr).mp hprior
      have hown : own = addr := by
        rw [delegator_of_address haddress] at haddr
        exact Option.some.inj haddr
      exact h.first.again hg' (haddress.trans (hown ▸ hsame.symm))
  · have hfresh : ∀ addr, s.delegator g = some addr → s.prior st.seen addr = [] := by
      intro addr haddr
      by_contra hne
      exact htaken ⟨addr, haddr, hne⟩
    rw [judge_fresh (checks_fresh hfresh)]
    cases halone : s.alone g with
    | error stop =>
      cases stop with
      | reject reason =>
        exact .inl ⟨_, rfl, h.reject (h.first.skip (address_of_error halone)) reason⟩
      | abort => exact .inr ⟨.inl halone, st, done, rfl, List.prefix_append _ _, h.first⟩
    | ok delAddr =>
      have haddress := address_of_ok halone
      have hdelegator := delegator_of_address haddress
      apply h.accept haddress
      intro g' hg' hsame
      exact ((hfound delAddr hdelegator).mpr ⟨g', hg', hsame⟩) (hfresh delAddr hdelegator)

theorem not_stops (h : s.address g = some delAddr) (hkept : g.kept = true) :
    ¬ s.Stops g := by
  intro hstops
  cases hstops with
  | inl halone =>
    rw [address_of_error halone] at h
    cases h
  | inr hlost =>
    rw [hkept] at hlost
    cases hlost

/-! ## A directory -/

theorem through_empty : s.Through [] .empty := ⟨.nil, rfl, List.forall_mem_nil _, rfl⟩

/-- The script goes through the directory, or ends at one of its gentxs. -/
theorem Through.judgeAll (h : s.Through done st) (hclean : PlainPrefix s) (htext : TextPrefix s)
    (hnames : ∀ g ∈ done ++ files, '\n' ∉ g.name) :
    (∃ st', s.judgeAll st files = .go st' ∧ s.Through (done ++ files) st') ∨
    (∃ g ∈ files, s.Stops g) ∧ ∃ st' done', s.judgeAll st files = .aborted st' ∧
      done' <+: done ++ files ∧ FirstOfEach s.address done' st'.accepted := by
  induction files generalizing st done with
  | nil =>
    rw [List.append_nil]
    exact .inl ⟨st, rfl, h⟩
  | cons g files ih =>
    rw [List.append_cons] at hnames ⊢
    have hdone : ∀ g' ∈ done, '\n' ∉ g'.name := by
      intro g' hg'
      exact hnames g' (List.mem_append_left _ (List.mem_append_left _ hg'))
    cases h.judge hclean htext hdone (g := g) with
    | inl hgo =>
      obtain ⟨st₁, hjudge, h₁⟩ := hgo
      rw [judgeAll_cons_go hjudge]
      refine (ih h₁ hnames).imp_right fun hends => ?_
      obtain ⟨⟨g', hg', hstops⟩, hrest⟩ := hends
      exact ⟨⟨g', List.mem_cons_of_mem g hg', hstops⟩, hrest⟩
    | inr hends =>
      obtain ⟨hstops, st', done', hjudge, hprefix, hfirst⟩ := hends
      refine .inr ⟨⟨g, List.mem_cons_self, hstops⟩, st', done', judgeAll_cons_aborted hjudge, ?_,
        hfirst⟩
      exact hprefix.trans (List.prefix_append _ _)

/-! ## A run -/

theorem finish_success_iff : (s.finish st).exit = .success ↔ st.accepted ≠ [] ∧
    st.rejected = [] ∧ s.copied = true ∧ s.compiles st.valid = true ∧
    s.validates st.valid = true ∧ s.written = true := by
  unfold finish St.outcome
  split_ifs <;> simp_all

theorem run_aborted (hsetup : s.setup = .ok ()) (hjudge : s.judgeAll .empty files = .aborted st) :
    s.run files = st.outcome .aborted none := by
  unfold run
  rw [hsetup]
  cases files with
  | nil => cases hjudge
  | cons g files =>
    simp only [List.isEmpty_cons, Bool.false_eq_true, if_false]
    rw [hjudge]

theorem run_go (hsetup : s.setup = .ok ()) (hne : files ≠ [])
    (hjudge : s.judgeAll .empty files = .go st) : s.run files = s.finish st := by
  unfold run
  rw [hsetup]
  simp only [List.isEmpty_iff, if_neg hne]
  rw [hjudge]

/-- What is accepted of a directory. -/
theorem run_accepted (hclean : PlainPrefix s) (htext : TextPrefix s) (hsetup : s.setup = .ok ())
    (hnames : ∀ g ∈ files, '\n' ∉ g.name) :
    ∃ done, done <+: files ∧ FirstOfEach s.address done (s.run files).accepted ∧
      (done = files ∨ (∃ g ∈ files, s.Stops g) ∧ (s.run files).exit = .aborted ∧
        (s.run files).compiled = none) := by
  rw [(run_spec hsetup files).1]
  cases through_empty.judgeAll hclean htext hnames with
  | inl hgo =>
    obtain ⟨st, hjudge, h⟩ := hgo
    rw [hjudge]
    exact ⟨files, List.prefix_rfl, h.first, .inl rfl⟩
  | inr hends =>
    obtain ⟨hstops, st, done, hjudge, hprefix, hfirst⟩ := hends
    rw [hjudge]
    refine ⟨done, hprefix, hfirst, .inr ⟨hstops, ?_⟩⟩
    rw [run_aborted hsetup hjudge]
    exact ⟨rfl, rfl⟩

/-- A run succeeds when every gentx would be accepted alone, none shares its address, and
nothing fails. -/
theorem run_success_iff (hclean : PlainPrefix s) (htext : TextPrefix s) (hsetup : s.setup = .ok ())
    (hnames : ∀ g ∈ files, '\n' ∉ g.name) :
    (s.run files).exit = .success ↔ files ≠ [] ∧
      (∀ g ∈ files, (s.address g).isSome ∧ g.kept = true) ∧
      files.Pairwise (fun g g' => s.address g ≠ s.address g') ∧
      s.copied = true ∧ s.compiles files = true ∧ s.validates files = true ∧ s.written = true := by
  cases through_empty.judgeAll hclean htext hnames with
  | inl hgo =>
    obtain ⟨st, hjudge, h⟩ := hgo
    have hvalid := (going_empty.judgeAll hjudge).valid
    have hcounted := h.counted
    rw [List.nil_append] at h hcounted
    constructor
    · intro hexit
      obtain ⟨hne, haccepted⟩ := (run_spec hsetup files).2.2 hexit
      rw [(run_spec hsetup files).1, hjudge] at haccepted
      have hall : st.accepted = files := haccepted
      rw [run_go hsetup hne hjudge, finish_success_iff, hvalid, hall] at hexit
      have hfirst := h.first
      have hkept := h.kept
      rw [hall] at hfirst hkept
      exact ⟨hne, fun g hg => ⟨hfirst.keyed g hg, hkept g hg⟩, hfirst.distinct, hexit.2.2⟩
    · intro hfine
      obtain ⟨hne, hsound, hdistinct, hends⟩ := hfine
      have hall := h.first.eq_self (fun g hg => (hsound g hg).1) hdistinct
      rw [run_go hsetup hne hjudge, finish_success_iff, hvalid, hall]
      refine ⟨hne, ?_, hends⟩
      rw [hall] at hcounted
      exact List.eq_nil_of_length_eq_zero (by omega)
  | inr hends =>
    obtain ⟨⟨g, hg, hstops⟩, st, _, hjudge, _⟩ := hends
    rw [run_aborted hsetup hjudge]
    constructor
    · intro hexit
      cases hexit
    · intro hfine
      obtain ⟨haddress, hkept⟩ := hfine.2.1 g hg
      obtain ⟨addr, haddr⟩ := Option.isSome_iff_exists.mp haddress
      exact absurd hstops (not_stops haddr hkept)

/-- **First come, first served.** Of the gentxs that would pass alone, the first for each address
is accepted, in the order of the directory, unless the script ends at one of them before, and then
nothing is compiled. It succeeds exactly when all are accepted and nothing after the loop fails. So
two directories with the same passing gentxs for an address have the same one accepted for it,
whatever else is in them. -/
theorem accepts_first_come (hclean : PlainPrefix s) (htext : TextPrefix s)
    (hsetup : s.setup = .ok ()) (hnames : ∀ g ∈ files, '\n' ∉ g.name) :
    (∃ done, done <+: files ∧ FirstOfEach s.address done (s.run files).accepted ∧
      (done = files ∨ (∃ g ∈ files, s.Stops g) ∧ (s.run files).exit = .aborted ∧
        (s.run files).compiled = none)) ∧
    ((s.run files).exit = .success ↔ files ≠ [] ∧
      (∀ g ∈ files, (s.address g).isSome ∧ g.kept = true) ∧
      files.Pairwise (fun g g' => s.address g ≠ s.address g') ∧
      s.copied = true ∧ s.compiles files = true ∧ s.validates files = true ∧ s.written = true) ∧
    ∀ files', (∀ g ∈ files', '\n' ∉ g.name) → (∀ g ∈ files ++ files', ¬ s.Stops g) →
      ∀ addr, withKey s.address addr files = withKey s.address addr files' →
        withKey s.address addr (s.run files).accepted =
          withKey s.address addr (s.run files').accepted := by
  refine ⟨run_accepted hclean htext hsetup hnames, run_success_iff hclean htext hsetup hnames, ?_⟩
  intro files' hnames' hnone addr hsame
  have hfirst : ∀ gs, (∀ g ∈ gs, '\n' ∉ g.name) → (∀ g ∈ gs, g ∈ files ++ files') →
      FirstOfEach s.address gs (s.run gs).accepted := by
    intro gs hgs hmem
    obtain ⟨done, _, hdone, hall | hends⟩ := run_accepted hclean htext hsetup hgs
    · exact hall ▸ hdone
    · obtain ⟨⟨g, hg, hstops⟩, _⟩ := hends
      exact absurd hstops (hnone g (hmem g hg))
  have h := hfirst files hnames fun g hg => List.mem_append_left _ hg
  have h' := hfirst files' hnames' fun g hg => List.mem_append_right _ hg
  exact h.congr h' hsame

/-! ## Two gentxs for one address -/

def secondGentx : Gentx := { sampleGentx committedLog with
  name := "two.json".toList
  name_json := by decide
  name_noNul := by decide }

def sampleAddress : List Char := "ark1qqqqqqqqqqqqqqqqqqqqqqqqqqqqqqqqre0wxa".toList

theorem sampleGentx_address :
    sampleScript.address (sampleGentx committedLog) = some sampleAddress := by decide +kernel

theorem secondGentx_address : sampleScript.address secondGentx = some sampleAddress := by
  decide +kernel

theorem sampleScript_plain : PlainPrefix sampleScript := by
  intro c hc
  have hall : sampleScript.accountPrefix.all isWordChar = true := by decide +kernel
  have hword := List.all_eq_true.mp hall c hc
  simp only [isWordChar, Bool.and_eq_true, decide_eq_true_eq] at hword
  exact ⟨by simpa using hword.1.1, hword.1.2⟩

def twoForOne : List Gentx := [sampleGentx committedLog, secondGentx]

theorem withKey_twoForOne : withKey sampleScript.address sampleAddress twoForOne = twoForOne := by
  unfold withKey twoForOne
  rw [List.filter_cons_of_pos (by simp [sampleGentx_address]),
    List.filter_cons_of_pos (by simp [secondGentx_address]), List.filter_nil]

/-- The first is accepted, and the script fails because of the second. -/
theorem second_rejected :
    withKey sampleScript.address sampleAddress (sampleScript.run twoForOne).accepted =
      [sampleGentx committedLog] ∧
    (sampleScript.run twoForOne).exit ≠ .success := by
  have hnames : ∀ g ∈ twoForOne, '\n' ∉ g.name := by
    unfold twoForOne
    simp only [List.forall_mem_cons]
    exact ⟨by decide, by decide, List.forall_mem_nil _⟩
  have hnone : ∀ g ∈ twoForOne, ¬ sampleScript.Stops g := by
    unfold twoForOne
    simp only [List.forall_mem_cons]
    exact ⟨not_stops sampleGentx_address rfl, not_stops secondGentx_address rfl,
      List.forall_mem_nil _⟩
  obtain ⟨⟨done, _, hfirst, hend⟩, hsuccess, _⟩ :=
    accepts_first_come sampleScript_plain (fun _ _ _ _ => rfl) (by decide +kernel) hnames
  constructor
  · cases hend with
    | inl hall =>
      rw [hfirst.first, hall, withKey_twoForOne]
      rfl
    | inr hends =>
      obtain ⟨⟨g, hg, hstops⟩, _⟩ := hends
      exact absurd hstops (hnone g hg)
  · intro hexit
    obtain ⟨_, _, hdistinct, _⟩ := hsuccess.mp hexit
    have hne := (List.pairwise_cons.mp hdistinct).1 secondGentx List.mem_cons_self
    exact hne (sampleGentx_address.trans secondGentx_address.symm)

end Script
end Ark.CollectGentx
