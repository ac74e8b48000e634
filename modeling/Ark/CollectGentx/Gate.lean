import Ark.CollectGentx.Certificates

/- What a run of the gate certifies.

   The invariant `Kept` carries what the checks of each accepted gentx established through
   the directory, together with the log of addresses that duplicates are found in. From it
   an accepted gentx has all that it should, except perhaps for the block in the log of
   its node: `judge` accepts a node that only mentions InitChain.

   So a run certifies what it should exactly when no node that it starts stalls between
   that mention and the first block (`certifies_iff`). -/
namespace Ark.CollectGentx
open Ark.Lib Ark.Lib.Checks Ark.Lib.Jq Ark.Lib.Shell
open Ark.Lib.Python (Json)

namespace Script
variable {s : Script}

/-! ## The log of addresses -/

/-- The prefix has no blanks and no backslash. -/
def PlainPrefix (s : Script) : Prop := ∀ c ∈ s.accountPrefix, isBlank c = false ∧ c ≠ '\\'

def isWordChar (c : Char) : Bool := !isBlank c && c ≠ '\\' && c ≠ Char.ofNat 0

structure IsWord (word : List Char) : Prop where
  ne_nil : word ≠ []
  plain : ∀ c ∈ word, isWordChar c = true

theorem IsWord.notMem {word : List Char} (h : IsWord word) {c : Char} (hc : isWordChar c = false) :
    c ∉ word := by
  intro hmem
  rw [h.plain c hmem] at hc
  cases hc

theorem isBlank_of_isWordChar {c : Char} (h : isWordChar c = true) : isBlank c = false := by
  unfold isWordChar at h
  simp only [Bool.and_eq_true, Bool.not_eq_true'] at h
  exact h.1.1

theorem isWordChar_symbolChar : ∀ d : Bech32.Symbol, isWordChar (Bech32.symbolChar d) = true := by
  decide

theorem noNul_accountPrefix (s : Script) : Char.ofNat 0 ∉ s.accountPrefix := by
  intro hnul
  unfold accountPrefix at hnul
  cases htext : s.value sample (s.base.getD []) with
  | error stop =>
    rw [htext] at hnul
    cases hnul
  | ok text =>
    rw [htext] at hnul
    have hmem : Char.ofNat 0 ∈ text := beforeLast_subset _ hnul
    rw [value_ok htext] at hmem
    exact noNul_substitute _ hmem

/-- What the re-encoding of an address prints is a word. -/
theorem isWordChar_reencode (hclean : PlainPrefix s) {valAddr word : List Char}
    (h : Reencode.reencode valAddr s.accountPrefix = some word) :
    ∀ c ∈ word, isWordChar c = true := by
  obtain ⟨decoded, _, hword⟩ := Option.map_eq_some_iff.mp h
  intro c hc
  rw [← hword] at hc
  unfold Reencode.encode at hc
  cases List.mem_append.mp hc with
  | inl hc =>
    have hnul : c ≠ Char.ofNat 0 := fun heq => noNul_accountPrefix s (heq ▸ hc)
    unfold isWordChar
    simp [hclean c hc, hnul]
  | inr hc =>
    cases List.mem_cons.mp hc with
    | inl hc =>
      rw [hc]
      decide
    | inr hc =>
      obtain ⟨d, _, hd⟩ := List.mem_map.mp hc
      rw [← hd]
      exact isWordChar_symbolChar d

theorem resolve_isWord (hclean : PlainPrefix s) {valAddr delAddr : List Char}
    (h : s.resolve valAddr = .ok delAddr) : IsWord delAddr := by
  unfold resolve at h
  simp only at h
  split at h
  · cases h
  · rename_i hne
    rw [← pure_ok.mp h]
    refine ⟨hne, ?_⟩
    cases hencoded : Reencode.reencode valAddr s.accountPrefix with
    | none =>
      rw [hencoded] at hne
      exact absurd rfl hne
    | some word =>
      have hplain := isWordChar_reencode hclean hencoded
      have hline : substitute (unlines [word]) = word := by
        apply substitute_line
        · intro hnul
          exact absurd (hplain _ hnul) (by decide)
        · intro hbreak
          exact absurd (hplain _ hbreak) (by decide)
      rw [Option.toList_some, hline]
      exact hplain

theorem delegator_isWord (hclean : PlainPrefix s) {g : Gentx} {delAddr : List Char}
    (h : s.delegator g = some delAddr) : IsWord delAddr := by
  unfold delegator at h
  cases hresolve : s.structuralChecks g >>= fun claim => s.resolve claim.valAddr with
  | error stop =>
    rw [hresolve] at h
    cases h
  | ok addr =>
    rw [hresolve] at h
    rw [← Option.some.inj h]
    obtain ⟨claim, _, hclaim⟩ := bind_ok.mp hresolve
    exact resolve_isWord hclean hclaim

/-- A line of the log: an address, and the name of a file without line breaks. -/
def IsLine (line : List Char) : Prop :=
  ∃ word, ∃ g : Gentx, line = seenLine word g.name ∧ IsWord word ∧ '\n' ∉ g.name

theorem IsLine.noBreak {line : List Char} (h : IsLine line) : '\n' ∉ line := by
  obtain ⟨word, g, heq, hword, hname⟩ := h
  intro hbreak
  rw [heq] at hbreak
  cases List.mem_append.mp hbreak with
  | inl hbreak => exact hword.notMem (by decide) hbreak
  | inr hbreak =>
    cases List.mem_cons.mp hbreak with
    | inl hbreak => exact absurd hbreak (by decide)
    | inr hbreak => exact hname hbreak

theorem awkVariable_word {word : List Char} (h : IsWord word) : s.awkVariable word = word := by
  unfold awkVariable
  rw [if_neg]
  exact h.notMem (by decide)

/-- The second field of a line is found, and is not empty. -/
theorem IsLine.name_ne_nil {line : List Char} (h : IsLine line) :
    substitute (unlines [firstField (afterFirstField line)]) ≠ [] := by
  obtain ⟨word, g, heq, hword, hname⟩ := h
  have hafter : afterFirstField line = ' ' :: g.name := by
    rw [heq]
    exact afterFirstField_word hword.ne_nil fun c hc => isBlank_of_isWordChar (hword.plain c hc)
  have hfield : firstField (' ' :: g.name) ≠ [] := by
    apply firstField_ne_nil
    refine ⟨'j', List.mem_cons_of_mem _ (g.name_json.subset ?_), by decide⟩
    decide
  have hline : substitute (unlines [firstField (' ' :: g.name)]) = firstField (' ' :: g.name) := by
    apply substitute_line
    · intro hnul
      cases List.mem_cons.mp (firstField_subset _ hnul).1 with
      | inl hnul => exact absurd hnul (by decide)
      | inr hnul => exact g.name_noNul hnul
    · intro hbreak
      exact absurd (firstField_subset _ hbreak).2 (by decide)
  rw [hafter, hline]
  exact hfield

/-- An address that is in the log is found there. -/
theorem prior_ne_nil {lines : List (List Char)} (hlog : ∀ line ∈ lines, IsLine line)
    {word name : List Char} (hmem : seenLine word name ∈ lines) (hword : IsWord word) :
    s.prior (unlines lines) word ≠ [] := by
  have hmatch : s.awkEqual (firstField (seenLine word name)) (s.awkVariable word) = true := by
    unfold seenLine
    rw [awkVariable_word hword, firstField_word hword.ne_nil
      fun c hc => isBlank_of_isWordChar (hword.plain c hc)]
    simp [awkEqual]
  unfold prior
  simp only [splitLines_unlines fun line hline => (hlog line hline).noBreak]
  cases hfind : lines.find? fun line => s.awkEqual (firstField line) (s.awkVariable word) with
  | none => exact absurd hmatch (List.find?_eq_none.mp hfind _ hmem)
  | some line => exact (hlog line (List.mem_of_find?_eq_some hfind)).name_ne_nil

/-! ## One gentx -/

/-- A node whose log mentions InitChain, and then neither a block nor a panic. -/
structure Stalls (g : Gentx) : Prop where
  initChain : showsInitChain g.boot.node.final = true
  noBlock : showsBlock g.boot.node.final = false
  noPanic : showsPanic g.boot.node.final = false

theorem replay_ok_iff {g : Gentx} : s.replay g = .ok () ↔ Replayed g ∨ Stalls g := by
  rw [replay_ok]
  constructor
  · intro ⟨hpanic, hready⟩
    cases hblock : showsBlock g.boot.node.final with
    | true => exact .inl ⟨hblock, hpanic⟩
    | false =>
      cases hready with
      | inl h =>
        rw [hblock] at h
        cases h
      | inr h => exact .inr ⟨h, hblock, hpanic⟩
  · intro h
    cases h with
    | inl h => exact ⟨h.2, .inl h.1⟩
    | inr h => exact ⟨h.noPanic, .inr h.initChain⟩

/-- What holds of the accepted gentxs at any time. -/
structure Kept (s : Script) (st : St) : Prop where
  vetted : ∀ g ∈ st.accepted, s.Vetted g
  logged : ∃ lines, st.seen = unlines lines ∧ (∀ line ∈ lines, IsLine line) ∧
    ∀ g ∈ st.accepted, ∃ word, s.delegator g = some word ∧ seenLine word g.name ∈ lines
  distinct : st.accepted.Pairwise fun g g' => s.delegator g ≠ s.delegator g'

/-- What holds of a run that has gone through `done`. -/
structure Going (done : List Gentx) (st : St) : Prop where
  valid : st.valid = st.accepted
  complete : st.rejected = [] → st.accepted = done

theorem kept_empty : Kept s .empty :=
  ⟨List.forall_mem_nil _, ⟨[], rfl, List.forall_mem_nil _, List.forall_mem_nil _⟩, .nil⟩

theorem going_empty : Going [] .empty := ⟨rfl, fun _ => rfl⟩

/-- What a gentx does to the state: it is rejected, or it ends the script, or it is accepted. -/
theorem judge_cases (st : St) (g : Gentx) :
    (∃ reason, s.judge st g = .go { st with rejected := st.rejected ++ [(g.name, reason)] }) ∨
    s.judge st g = .aborted st ∨
    ∃ delAddr, s.checks st.seen g = .ok delAddr ∧ s.replay g = .ok () ∧
      s.judge st g = st.accept g delAddr := by
  have hstop : ∀ stop, (∃ reason, st.stop g stop =
      .go { st with rejected := st.rejected ++ [(g.name, reason)] }) ∨
      st.stop g stop = .aborted st := by
    intro stop
    cases stop with
    | reject reason => exact .inl ⟨reason, rfl⟩
    | abort => exact .inr rfl
  unfold judge
  cases hchecks : s.checks st.seen g with
  | error stop =>
    cases hstop stop with
    | inl h => exact .inl h
    | inr h => exact .inr (.inl h)
  | ok delAddr =>
    cases hreplay : s.replay g with
    | error stop =>
      cases hstop stop with
      | inl h => exact .inl h
      | inr h => exact .inr (.inl h)
    | ok u => exact .inr (.inr ⟨delAddr, rfl, rfl, rfl⟩)

theorem judge_of_ok {st : St} {g : Gentx} {delAddr : List Char}
    (hchecks : s.checks st.seen g = .ok delAddr) (hreplay : s.replay g = .ok ()) :
    s.judge st g = st.accept g delAddr := by
  unfold judge
  simp only [hchecks, hreplay]

section Accept
variable (st : St) (g : Gentx) (delAddr : List Char)

theorem accept_accepted : (st.accept g delAddr).state.accepted = st.accepted ++ [g] := by
  unfold St.accept
  simp only
  split <;> rfl

theorem accept_seen :
    (st.accept g delAddr).state.seen = st.seen ++ unlines [seenLine delAddr g.name] := by
  unfold St.accept
  simp only
  split <;> rfl

theorem accept_go {st' : St} (h : st.accept g delAddr = .go st') :
    st'.valid = st.valid ++ [g] ∧ st'.accepted = st.accepted ++ [g] ∧
      st'.rejected = st.rejected := by
  unfold St.accept at h
  simp only at h
  split at h
  · cases h
    exact ⟨rfl, rfl, rfl⟩
  · cases h

end Accept

/-- A gentx that passes the checks has not the address of an accepted one. -/
theorem Kept.delegator_ne {st : St} (h : Kept s st) (hclean : PlainPrefix s) {delAddr : List Char}
    {g : Gentx} (hdelegator : s.delegator g = some delAddr)
    (hprior : s.prior st.seen delAddr = []) :
    ∀ g' ∈ st.accepted, s.delegator g' ≠ s.delegator g := by
  intro g' hg' heq
  obtain ⟨lines, hseen, hlines, hlogged⟩ := h.logged
  obtain ⟨word, hword, hmem⟩ := hlogged g' hg'
  have hsame : word = delAddr := by
    rw [heq, hdelegator] at hword
    exact (Option.some.inj hword).symm
  rw [hsame] at hmem
  -- the address would have been found in the log
  rw [hseen] at hprior
  exact prior_ne_nil hlines hmem (delegator_isWord hclean hdelegator) hprior

theorem Kept.accept {st : St} (h : Kept s st) (hclean : PlainPrefix s) {g : Gentx}
    (hname : '\n' ∉ g.name) (htx : TakesTransactions g) {delAddr : List Char}
    (hchecks : s.checks st.seen g = .ok delAddr) : Kept s (st.accept g delAddr).state := by
  obtain ⟨hvetted, hdelegator, hprior⟩ := checks_ok htx hchecks
  obtain ⟨lines, hseen, hlines, hlogged⟩ := h.logged
  -- one more accepted file, with its line in the log
  refine ⟨?_, ⟨lines ++ [seenLine delAddr g.name], ?_, ?_, ?_⟩, ?_⟩
  · rw [accept_accepted]
    intro g' hg'
    cases List.mem_append.mp hg' with
    | inl hg' => exact h.vetted g' hg'
    | inr hg' => exact List.mem_singleton.mp hg' ▸ hvetted
  · rw [accept_seen, hseen]
    exact List.flatMap_append.symm
  · intro line hline
    cases List.mem_append.mp hline with
    | inl hline => exact hlines line hline
    | inr hline =>
      exact ⟨delAddr, g, List.mem_singleton.mp hline, delegator_isWord hclean hdelegator, hname⟩
  · rw [accept_accepted]
    intro g' hg'
    cases List.mem_append.mp hg' with
    | inl hg' =>
      obtain ⟨word, hword, hmem⟩ := hlogged g' hg'
      exact ⟨word, hword, List.mem_append_left _ hmem⟩
    | inr hg' =>
      rw [List.mem_singleton.mp hg']
      exact ⟨delAddr, hdelegator, List.mem_append_right _ (List.mem_singleton.mpr rfl)⟩
  · rw [accept_accepted]
    apply List.pairwise_append.mpr
    refine ⟨h.distinct, List.pairwise_singleton _ _, ?_⟩
    intro g' hg' g'' hg''
    rw [List.mem_singleton.mp hg'']
    exact h.delegator_ne hclean hdelegator hprior g' hg'

theorem Kept.judge {st : St} (h : Kept s st) (hclean : PlainPrefix s) {g : Gentx}
    (hname : '\n' ∉ g.name) (htx : TakesTransactions g) : Kept s (s.judge st g).state := by
  obtain ⟨reason, heq⟩ | heq | ⟨delAddr, hchecks, _, heq⟩ := judge_cases (s := s) st g
  · rw [heq]
    exact ⟨h.vetted, h.logged, h.distinct⟩
  · rw [heq]
    exact h
  · rw [heq]
    exact h.accept hclean hname htx hchecks

theorem Going.judge {done : List Gentx} {st st' : St} (h : Going done st) {g : Gentx}
    (hgo : s.judge st g = .go st') : Going (done ++ [g]) st' := by
  obtain ⟨reason, heq⟩ | heq | ⟨delAddr, _, _, heq⟩ := judge_cases (s := s) st g
  · rw [heq] at hgo
    cases hgo
    refine ⟨h.valid, ?_⟩
    intro hnone
    exact absurd hnone (List.append_ne_nil_of_right_ne_nil _ (List.cons_ne_nil _ _))
  · rw [heq] at hgo
    cases hgo
  · -- accepted, and copied: otherwise the script would have ended
    rw [heq] at hgo
    obtain ⟨hvalid, haccepted, hrejected⟩ := accept_go st g delAddr hgo
    refine ⟨?_, ?_⟩
    · rw [hvalid, haccepted, h.valid]
    · intro hnone
      rw [haccepted, h.complete (hrejected.symm.trans hnone)]

/-! ## A directory -/

/-- From a state on, the script comes to the gentx `g` in the state `st'`. -/
def Comes (s : Script) (st : St) (files : List Gentx) (st' : St) (g : Gentx) : Prop :=
  ∃ before after, files = before ++ g :: after ∧ s.judgeAll st before = .go st'

/-- The script starts a node for the gentx. -/
def Starts (s : Script) (files : List Gentx) (g : Gentx) : Prop :=
  s.setup = .ok () ∧ ∃ st delAddr, s.Comes .empty files st g ∧ s.checks st.seen g = .ok delAddr

section Directory
variable {st st' : St} {g : Gentx} {files : List Gentx}

theorem Comes.mem (h : s.Comes st files st' g) : g ∈ files := by
  obtain ⟨before, after, heq, _⟩ := h
  rw [heq]
  exact List.mem_append_right _ List.mem_cons_self

theorem judgeAll_cons_go (h : s.judge st g = .go st') :
    s.judgeAll st (g :: files) = s.judgeAll st' files := by
  conv_lhs => unfold judgeAll
  rw [h]

theorem judgeAll_cons_aborted (h : s.judge st g = .aborted st') :
    s.judgeAll st (g :: files) = .aborted st' := by
  unfold judgeAll
  rw [h]

theorem judgeAll_append (h : s.judgeAll st files = .go st') (rest : List Gentx) :
    s.judgeAll st (files ++ rest) = s.judgeAll st' rest := by
  induction files generalizing st with
  | nil =>
    cases h
    rfl
  | cons g files ih =>
    cases hjudge : s.judge st g with
    | aborted st₁ =>
      rw [judgeAll_cons_aborted hjudge] at h
      cases h
    | go st₁ =>
      rw [judgeAll_cons_go hjudge] at h
      rw [List.cons_append, judgeAll_cons_go hjudge, ih h]

theorem comes_head : s.Comes st (g :: files) st g := ⟨[], files, rfl, rfl⟩

theorem Comes.cons {g' : Gentx} {st'' : St} (hgo : s.judge st g = .go st')
    (h : s.Comes st' files st'' g') : s.Comes st (g :: files) st'' g' := by
  obtain ⟨before, after, heq, hbefore⟩ := h
  refine ⟨g :: before, after, ?_, ?_⟩
  · rw [heq, List.cons_append]
  · rw [judgeAll_cons_go hgo, hbefore]

/-- What each gentx that the script comes to keeps holds when it stops. -/
theorem judgeAll_induction {P : St → Prop} (hst : P st)
    (hstep : ∀ st' g, s.Comes st files st' g → P st' → P (s.judge st' g).state) :
    P (s.judgeAll st files).state := by
  induction files generalizing st with
  | nil => exact hst
  | cons g files ih =>
    have hhead := hstep st g comes_head hst
    cases hjudge : s.judge st g with
    | aborted st₁ =>
      rw [hjudge] at hhead
      rw [judgeAll_cons_aborted hjudge]
      exact hhead
    | go st₁ =>
      rw [hjudge] at hhead
      rw [judgeAll_cons_go hjudge]
      apply ih hhead
      intro st' g' hcomes
      exact hstep st' g' (hcomes.cons hjudge)

theorem Going.judgeAll {done : List Gentx} (h : Going done st)
    (hgo : s.judgeAll st files = .go st') : Going (done ++ files) st' := by
  induction files generalizing st done with
  | nil =>
    cases hgo
    rw [List.append_nil]
    exact h
  | cons g files ih =>
    cases hjudge : s.judge st g with
    | aborted st₁ =>
      rw [judgeAll_cons_aborted hjudge] at hgo
      cases hgo
    | go st₁ =>
      rw [judgeAll_cons_go hjudge] at hgo
      rw [List.append_cons]
      exact ih (h.judge hjudge) hgo

theorem mem_accepted_judge (h : g ∈ st.accepted) (g' : Gentx) :
    g ∈ (s.judge st g').state.accepted := by
  obtain ⟨reason, heq⟩ | heq | ⟨delAddr, _, _, heq⟩ := judge_cases (s := s) st g'
  · rw [heq]
    exact h
  · rw [heq]
    exact h
  · rw [heq, accept_accepted]
    exact List.mem_append_left _ h

/-- A gentx whose node lets it pass is accepted, and stays so. -/
theorem mem_accepted_judgeAll {delAddr : List Char} (hcomes : s.Comes st files st' g)
    (hchecks : s.checks st'.seen g = .ok delAddr) (hreplay : s.replay g = .ok ()) :
    g ∈ (s.judgeAll st files).state.accepted := by
  obtain ⟨before, after, heq, hbefore⟩ := hcomes
  have hmem : g ∈ (s.judge st' g).state.accepted := by
    rw [judge_of_ok hchecks hreplay, accept_accepted]
    exact List.mem_append_right _ (List.mem_singleton.mpr rfl)
  -- the run goes on from the state in which it came to `g`
  rw [heq, judgeAll_append hbefore]
  cases hjudge : s.judge st' g with
  | aborted st₁ =>
    rw [hjudge] at hmem
    rw [judgeAll_cons_aborted hjudge]
    exact hmem
  | go st₁ =>
    rw [hjudge] at hmem
    rw [judgeAll_cons_go hjudge]
    apply judgeAll_induction (P := fun st => g ∈ st.accepted) hmem
    intro st g' _ h
    exact mem_accepted_judge h g'

/-- Where no node stalls, the log of every accepted gentx shows a block. -/
theorem replayed_judgeAll (hst : ∀ g ∈ st.accepted, Replayed g)
    (hnone : ∀ st' g delAddr, s.Comes st files st' g → s.checks st'.seen g = .ok delAddr →
      ¬ Stalls g) :
    ∀ g ∈ (s.judgeAll st files).state.accepted, Replayed g := by
  apply judgeAll_induction (P := fun st => ∀ g ∈ st.accepted, Replayed g) hst
  intro st' g hcomes h
  obtain ⟨reason, heq⟩ | heq | ⟨delAddr, hchecks, hreplay, heq⟩ := judge_cases (s := s) st' g
  · rw [heq]
    exact h
  · rw [heq]
    exact h
  · rw [heq, accept_accepted]
    intro g' hg'
    cases List.mem_append.mp hg' with
    | inl hg' => exact h g' hg'
    | inr hg' =>
      -- the one way to pass without a block is to stall
      rw [List.mem_singleton.mp hg']
      exact (replay_ok_iff.mp hreplay).resolve_right (hnone st' g delAddr hcomes hchecks)

end Directory

/-! ## A run -/

/-- The end of the script accepts nothing more, and compiles what was copied. -/
theorem finish_spec (s : Script) (st : St) : (s.finish st).accepted = st.accepted ∧
    (∀ gs, (s.finish st).compiled = some gs → gs = st.valid) ∧
    ((s.finish st).exit = .success → st.accepted ≠ [] ∧ st.rejected = []) := by
  have hfails : ∀ exit, exit ≠ Exit.success → (st.outcome exit none).accepted = st.accepted ∧
      (∀ gs, (st.outcome exit none).compiled = some gs → gs = st.valid) ∧
      ((st.outcome exit none).exit = .success → st.accepted ≠ [] ∧ st.rejected = []) := by
    intro exit hne
    refine ⟨rfl, ?_, fun h => absurd h hne⟩
    intro gs hgs
    cases hgs
  have hcompiled : ∀ gs, some st.valid = some gs → gs = st.valid :=
    fun gs hgs => (Option.some.inj hgs).symm
  unfold finish
  split
  · exact hfails _ nofun
  · rename_i haccepted
    split
    · exact hfails _ nofun
    · split
      · exact hfails _ nofun
      · split
        · exact hfails _ nofun
        · split
          · exact hfails _ nofun
          · split
            · rename_i hrejected
              refine ⟨rfl, hcompiled, fun _ => ⟨?_, List.isEmpty_iff.mp hrejected⟩⟩
              intro hnil
              exact haccepted (List.isEmpty_iff.mpr hnil)
            · exact ⟨rfl, hcompiled, nofun⟩

theorem run_of_setup_error {message : String} (h : s.setup = .error message)
    (files : List Gentx) : s.run files = St.empty.outcome (.failed message) none := by
  unfold run
  rw [h]

/-- A run accepts what the loop accepts; it compiles no other gentxs, and succeeds with all. -/
theorem run_spec (h : s.setup = .ok ()) (files : List Gentx) :
    (s.run files).accepted = (s.judgeAll .empty files).state.accepted ∧
    (∀ gs, (s.run files).compiled = some gs → gs = (s.run files).accepted) ∧
    ((s.run files).exit = .success → files ≠ [] ∧ (s.run files).accepted = files) := by
  unfold run
  rw [h]
  cases files with
  | nil => exact ⟨rfl, nofun, nofun⟩
  | cons g files =>
    simp only [List.isEmpty_cons, Bool.false_eq_true, if_false]
    cases hjudge : s.judgeAll .empty (g :: files) with
    | aborted st => exact ⟨rfl, nofun, nofun⟩
    | go st =>
      obtain ⟨hvalid, hcomplete⟩ := going_empty.judgeAll hjudge
      obtain ⟨haccepted, hcompiled, hsuccess⟩ := finish_spec s st
      simp only
      rw [haccepted]
      refine ⟨rfl, ?_, ?_⟩
      · intro gs hgs
        rw [hcompiled gs hgs, hvalid]
      · intro hexit
        exact ⟨List.cons_ne_nil _ _, hcomplete (hsuccess hexit).2⟩

/-- The block of an accepted gentx is promised, so no node may stall. -/
theorem not_stalls_of_certifies {files : List Gentx} (h : s.Certifies files (s.run files)) :
    ∀ g, s.Starts files g → ¬ Stalls g := by
  intro g hstarts hstalls
  obtain ⟨hsetup, st, delAddr, hcomes, hchecks⟩ := hstarts
  have hmem : g ∈ (s.run files).accepted := by
    rw [(run_spec hsetup files).1]
    exact mem_accepted_judgeAll hcomes hchecks (replay_ok_iff.mpr (.inr hstalls))
  have hblock := (h.replayed g hmem).1
  rw [hstalls.noBlock] at hblock
  cases hblock

/-- The gate certifies what it should exactly when no node that it starts stalls. -/
theorem certifies_iff {files : List Gentx} (hclean : PlainPrefix s)
    (hnames : ∀ g ∈ files, '\n' ∉ g.name) (htx : ∀ g ∈ files, TakesTransactions g) :
    s.Certifies files (s.run files) ↔ ∀ g, s.Starts files g → ¬ Stalls g := by
  refine ⟨not_stalls_of_certifies, ?_⟩
  intro hnone
  cases hsetup : s.setup with
  | error message =>
    rw [run_of_setup_error hsetup]
    exact ⟨List.forall_mem_nil _, List.forall_mem_nil _, .nil, nofun, nofun⟩
  | ok u =>
    obtain ⟨haccepted, hcompiled, hcomplete⟩ := run_spec (s := s) hsetup files
    have hkept : Kept s (s.judgeAll .empty files).state := by
      apply judgeAll_induction kept_empty
      intro st g hcomes h
      exact h.judge hclean (hnames g hcomes.mem) (htx g hcomes.mem)
    have hreplayed : ∀ g ∈ (s.judgeAll .empty files).state.accepted, Replayed g := by
      apply replayed_judgeAll (List.forall_mem_nil _)
      intro st g delAddr hcomes hchecks
      exact hnone g ⟨hsetup, st, delAddr, hcomes, hchecks⟩
    rw [← haccepted] at hreplayed
    exact ⟨haccepted ▸ hkept.vetted, hreplayed, haccepted ▸ hkept.distinct, hcompiled, hcomplete⟩

section Sample

def sampleBase : Json := .obj [("chain_id", .str "ark-1"), ("app_state", .obj [("bank", .obj
  [("balances", .arr [.obj [("address", .str "ark1qqqqqqqqqqqqqqqqqqqqqqqqqqqqqqqqre0wxa"),
    ("coins", .arr [.obj [("denom", .str "aark"), ("amount", .str "100")]])]])])])]

def sampleScript : Script where
  usage := none
  base := some [sampleBase]
  bootTimeout := 8
  render := fun _ => []
  unicode := fun _ => none
  awkEscapes := id
  awkNumbers := fun _ _ => false
  copied := true
  compiles := fun _ => true
  validates := fun _ => true
  written := true

def sampleTx : Json := .obj [("body", .obj [("messages", .arr [.obj
    [("@type", .str "/cosmos.staking.v1beta1.MsgCreateValidator"),
      ("description", .obj [("moniker", .str "one")]),
      ("validator_address", .str "arkvaloper1qqqqqqqqqqqqqqqqqqqqqqqqqqqqqqqqh5nnre"),
      ("value", .obj [("denom", .str "aark"), ("amount", .str "70")])]])]),
  ("signatures", .arr [.str "c2ln"])]

/-- A gentx, by the log of its node. -/
def sampleGentx (log : List Char) : Gentx where
  name := "one.json".toList
  name_json := by decide
  name_noNul := by decide
  docs := some [sampleTx]
  python := true
  boot :=
    { init := true
      copied := true
      collect := .ok ()
      logPath := "start.log"
      node :=
        { alive := fun i => i = 0
          log := fun _ => log
          final := log
          grows := fun _ => List.prefix_rfl
          ends := fun _ => List.prefix_rfl
          panicReason := "" } }
  kept := true

def committedLog : List Char :=
  "INF \"InitChain\" chainID=ark-1\nINF committed state height=1\n".toList

theorem certifies_iff_committed :
    (sampleScript.run [sampleGentx committedLog]).exit = .success ∧
      sampleScript.Certifies [sampleGentx committedLog]
        (sampleScript.run [sampleGentx committedLog]) := by
  refine ⟨by decide +kernel, (certifies_iff ?_ ?_ ?_).mpr ?_⟩
  · intro c hc
    have hall : sampleScript.accountPrefix.all isWordChar = true := by decide +kernel
    have hword := List.all_eq_true.mp hall c hc
    simp only [isWordChar, Bool.and_eq_true, decide_eq_true_eq] at hword
    exact ⟨by simpa using hword.1.1, hword.1.2⟩
  · intro g hg
    rw [List.mem_singleton.mp hg]
    decide
  · intro g hg _ doc v hdocs hv
    rw [List.mem_singleton.mp hg] at hdocs
    cases hdocs
    exact .inr ⟨[.str "c2ln"], (Option.some.inj hv).symm⟩
  · intro g hstarts hstalls
    obtain ⟨_, st, delAddr, hcomes, _⟩ := hstarts
    rw [List.mem_singleton.mp hcomes.mem] at hstalls
    exact absurd hstalls.noBlock (by decide +kernel)

/-- InitChain panics for a reason that is none of the gentx's: the base genesis has no metadata
for the denom. -/
def panickedLog : List Char :=
  ("INF InitChain chainID=ark-1\n" ++
    "panic: error initializing evm coin info: denom metadata aark could not be found\n").toList

theorem panicked_certified :
    (sampleScript.run [sampleGentx panickedLog]).exit = .success ∧
      ¬ sampleScript.Certifies [sampleGentx panickedLog]
        (sampleScript.run [sampleGentx panickedLog]) := by
  have hexit : (sampleScript.run [sampleGentx panickedLog]).exit = .success := by decide +kernel
  refine ⟨hexit, ?_⟩
  intro h
  have hall := (h.complete hexit).2
  have hblock := (h.replayed _ (hall ▸ List.mem_singleton.mpr rfl)).1
  exact absurd hblock (by decide +kernel)

end Sample

end Script
end Ark.CollectGentx
