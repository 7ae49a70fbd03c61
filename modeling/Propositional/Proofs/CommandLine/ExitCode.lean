import Propositional.CommandLine.Run
import Propositional.Proofs.Inquiry.Positions

/-!
# What the exit code depends on

Most options choose what is done with a formula once it is read, and how it is shown. Nothing of
that can fail, and nothing is printed before the text is read. So the exit code is settled by the
text and by whether case matters.

* `outcome_inquire`: what an inquiry of the command line comes to, for all three modes.
* `shown_of_respond`: the exit code and the output, told from what was read.
* `exists_respond_iff`: which command lines are answered.
* `verdict_of_respond`: the exit code is the verdict of the check.
* `exitCode_of_text_and_case`: two command lines about the same text.
-/

namespace Propositional.CommandLine

variable {text : String} {o o' : Options} {s : Settings} {r r' : Response}
  {arguments arguments' : List String}

namespace Options

/-- What there is to print about a formula that was read. -/
def printed (o : Options) (s : Settings) (text : String) (f : Formula) : Printed :=
  if o.has .tableOnly then
    let a : Inquiry.Tabulated := ⟨f, s.tabulated f⟩
    ⟨a.document, a.lines⟩
  else if o.has .table then
    let a : Inquiry.SimplifiedTable :=
      ⟨⟨text, s.simplified f⟩, s.tabulated (s.simplified f).result⟩
    ⟨a.document, a.lines⟩
  else
    let a : Inquiry.Simplified := ⟨text, s.simplified f⟩
    ⟨a.document, a.lines⟩

/-- The exit code and the output for what was read. -/
def shown (o : Options) (s : Settings) (text : String) : Except Inquiry.Refusal Formula → Nat × String
  | .ok f =>
    let p := o.printed s text f
    (0, unlines (if o.has .json then [p.document.render] else p.lines))
  | .error refusal => (2, unlines (if o.has .json then [refusal.document.render] else []))

/-- The options leave the limits as they are, and settle case and language on their own. -/
theorem of_settings (h : o.settings = .ok s) :
    s.caseSensitive = o.has .caseSensitive ∧ s.limits = {} ∧ s.language = Language.ofTag o.lang := by
  unfold settings at h
  split at h
  · cases h
  · cases h
  · cases h
    exact ⟨rfl, rfl, rfl⟩

theorem exists_settings_iff :
    (∃ s, o.settings = .ok s) ↔ o.order.isSome = true ∧ o.hide.isSome = true := by
  unfold settings
  split
  · next h => simp [h]
  · next h => simp [h]
  · next h₁ h₂ => simp [h₁, h₂]

end Options

/-! ## One command line -/

/-- What is printed of an answer is printed of the formula that it is about. -/
theorem map_answer {α β : Type} {g : α → β} {h : Formula → α}
    {work : Logged Inquiry.Fault (Except Inquiry.Refusal α)}
    (hwork : work.outcome = (Inquiry.read s text).outcome.map (Except.map h)) :
    (work >>= fun answer => pure (answer.map g) : Logged Inquiry.Fault _).outcome =
      (Inquiry.read s text).outcome.map (Except.map (g ∘ h)) := by
  rw [Logged.outcome_bind, hwork]
  rcases (Inquiry.read s text).outcome with e | (refusal | f) <;> rfl

theorem outcome_inquire (text : String) (o : Options) (s : Settings) :
    (inquire text o s).outcome =
      (Inquiry.read s text).outcome.map (Except.map (o.printed s text)) := by
  unfold inquire Options.printed
  split
  · exact map_answer (Inquiry.outcome_tabulate s text)
  · split
    · exact map_answer (Inquiry.outcome_simplifyAndTabulate s text)
    · exact map_answer (Inquiry.outcome_simplify s text)

/-- **What is shown is told from what was read**, and that it is read is all that an answer
needs. -/
theorem shown_of_respond (h : respond text o = .ok r) :
    ∃ s answer, o.settings = .ok s ∧ (Inquiry.read s text).outcome = .ok answer ∧
      r.exitCode = (o.shown s text answer).1 ∧ r.output = (o.shown s text answer).2 := by
  unfold respond at h
  split at h
  · cases h
  · next s hs =>
    simp only [outcome_inquire] at h
    rcases hread : (Inquiry.read s text).outcome with e | (refusal | f)
    · rw [hread] at h
      cases h
    · rw [hread] at h
      cases h
      exact ⟨s, _, hs, hread, rfl, rfl⟩
    · rw [hread] at h
      cases h
      exact ⟨s, _, hs, hread, rfl, rfl⟩

theorem exists_respond_of_read {answer : Except Inquiry.Refusal Formula} (hs : o.settings = .ok s)
    (hread : (Inquiry.read s text).outcome = .ok answer) : ∃ r, respond text o = .ok r := by
  unfold respond
  simp only [hs, outcome_inquire, hread]
  cases answer with
  | error refusal => exact ⟨_, rfl⟩
  | ok f => exact ⟨_, rfl⟩

/-- **Which command lines are answered**: those that have kept the values of their options and whose
expression has a canonical spelling, whatever they ask about it. -/
theorem exists_respond_iff (text : String) (o : Options) :
    (∃ r, respond text o = .ok r) ↔
      o.order.isSome = true ∧ o.hide.isSome = true ∧
        ∃ c, Canonical.ofText (o.has .caseSensitive) text.toList = .ok c := by
  rw [← and_assoc, ← Options.exists_settings_iff]
  constructor
  · rintro ⟨r, h⟩
    obtain ⟨s, answer, hs, hread, -⟩ := shown_of_respond h
    refine ⟨⟨s, hs⟩, ?_⟩
    rw [← (Options.of_settings hs).1]
    cases hc : Canonical.ofText s.caseSensitive text.toList with
    | error e => cases (Inquiry.read_eq_unknownWord hc).symm.trans hread
    | ok c => exact ⟨c, rfl⟩
  · rintro ⟨⟨s, hs⟩, c, hc⟩
    rw [← (Options.of_settings hs).1] at hc
    obtain ⟨answer, hread⟩ := Inquiry.exists_read_of_ofText hc
    exact exists_respond_of_read hs hread

/-- **The exit code is the verdict of the check** with the usual limits. For a violation the output
is the refusal as a document, if a document is asked for, and otherwise empty. -/
theorem verdict_of_respond (h : respond text o = .ok r) :
    ∃ c, Canonical.ofText (o.has .caseSensitive) text.toList = .ok c ∧
      (r.exitCode = if (Violation.check {} c.text).isNone then 0 else 2) ∧
        ∀ v, Violation.check {} c.text = some v →
          ∃ moved, v.relocate (fun i => c.offsets[i]?) = some moved ∧
            r.output = if o.has .json then
              unlines [(Json.object [("errorKind", .text moved.kind.label),
                ("message", .text (moved.message (Language.ofTag o.lang)))]).render] else "" := by
  obtain ⟨s, answer, hs, hread, hcode, houtput⟩ := shown_of_respond h
  obtain ⟨hcase, hlimits, hlanguage⟩ := Options.of_settings hs
  rw [← hcase, ← hlimits, ← hlanguage]
  cases answer with
  | ok f =>
    obtain ⟨c, hc, hcheck, -⟩ := Inquiry.check_of_read hread
    refine ⟨c, hc, ?_, fun v hv => ?_⟩
    · rw [hcode, hcheck]
      rfl
    · rw [hcheck] at hv
      cases hv
  | error refusal =>
    obtain ⟨c, v, moved, hc, hcheck, hmoved, rfl⟩ := Inquiry.refused_of_read hread
    refine ⟨c, hc, ?_, fun v' hv => ?_⟩
    · rw [hcode, hcheck]
      rfl
    · obtain rfl := Option.some.inj (hcheck.symm.trans hv)
      refine ⟨moved, hmoved, ?_⟩
      rw [houtput, Options.shown]
      cases o.has .json <;> rfl

/-! ## Two command lines -/

theorem respond_of_run (hread : read arguments = .ok (text, o)) (h : run arguments = .ok r) :
    respond text o = .ok r := by
  rwa [run, hread] at h

/-- **The exit code depends only on the text and on whether case matters.** Take two command lines
that are read with the same text, are both answered, and agree on whether case matters. Their exit
codes are the same: 0 if the check with the usual limits finds nothing in the canonical spelling of
the text, and 2 otherwise. In the latter case each of them prints nothing, or as a document the kind
of the violation and its message and nothing else, where the violation is located in the text as
typed. -/
theorem exitCode_of_text_and_case (hread : read arguments = .ok (text, o))
    (hread' : read arguments' = .ok (text, o')) (hrun : run arguments = .ok r)
    (hrun' : run arguments' = .ok r') (hcase : o.has .caseSensitive = o'.has .caseSensitive) :
    r.exitCode = r'.exitCode ∧
      ∃ c, Canonical.ofText (o.has .caseSensitive) text.toList = .ok c ∧
        (r.exitCode = if (Violation.check {} c.text).isNone then 0 else 2) ∧
          ∀ v, Violation.check {} c.text = some v →
            ∃ moved, v.relocate (fun i => c.offsets[i]?) = some moved ∧
              r.output = if o.has .json then
                unlines [(Json.object [("errorKind", .text moved.kind.label),
                  ("message", .text (moved.message (Language.ofTag o.lang)))]).render] else "" := by
  obtain ⟨c, hc, hcode, houtput⟩ := verdict_of_respond (respond_of_run hread hrun)
  obtain ⟨c', hc', hcode', -⟩ := verdict_of_respond (respond_of_run hread' hrun')
  rw [← hcase] at hc'
  obtain rfl := Except.ok.inj (hc.symm.trans hc')
  exact ⟨hcode.trans hcode'.symm, c, hc, hcode, houtput⟩

/-- An illegal character is refused whether a document, or a table in Norwegian, is asked for. -/
theorem exitCode_of_text_and_case_illegal :
    ∃ r r', run ["A and #", "--json"] = .ok r ∧
      run ["--lang=nb", "-v", "--table", "A and #"] = .ok r' ∧ r.exitCode = r'.exitCode ∧
        r.exitCode = 2 ∧ r'.output = "" ∧
          r.output = "\x7b\n  \"errorKind\": \"InvalidCharacter\",\n" ++
            "  \"message\": \"Illegal character '#' at position 6\"\n\x7d\n" := by
  let o : Options := { expression := some "A and #", given := [.json] }
  let o' : Options :=
    { expression := some "A and #", given := [.table, .verbose], lang := some "nb" }
  have hread : read ["A and #", "--json"] = .ok ("A and #", o) := rfl
  have hread' : read ["--lang=nb", "-v", "--table", "A and #"] = .ok ("A and #", o') := rfl
  have hc : Canonical.ofText false "A and #".toList = .ok ⟨"a ⋀ #".toList, [0, 1, 2, 5, 6, 7]⟩ := by
    decide +kernel
  have hcheck : Violation.check {} "a ⋀ #".toList = some (.misplaced ['#'] 4) := by decide +kernel
  obtain ⟨r, hr⟩ := (exists_respond_iff "A and #" o).mpr ⟨rfl, rfl, _, hc⟩
  obtain ⟨r', hr'⟩ := (exists_respond_iff "A and #" o').mpr ⟨rfl, rfl, _, hc⟩
  have hrun : run ["A and #", "--json"] = .ok r := by rwa [run, hread]
  have hrun' : run ["--lang=nb", "-v", "--table", "A and #"] = .ok r' := by rwa [run, hread']
  obtain ⟨hsame, c, hc', hcode, hdocument⟩ :=
    exitCode_of_text_and_case hread hread' hrun hrun' rfl
  obtain ⟨-, d, hd, -, hsilent⟩ := exitCode_of_text_and_case hread' hread hrun' hrun rfl
  obtain rfl := Except.ok.inj (hc.symm.trans hc')
  obtain rfl := Except.ok.inj (hc.symm.trans hd)
  have hmoved : (Violation.misplaced ['#'] 4).relocate (fun i => [0, 1, 2, 5, 6, 7][i]?) =
      some (.misplaced ['#'] 6) := by decide
  obtain ⟨moved, hm, houtput⟩ := hdocument _ hcheck
  obtain rfl := Option.some.inj (hmoved.symm.trans hm)
  obtain ⟨_, -, hempty⟩ := hsilent _ hcheck
  rw [hcheck] at hcode
  exact ⟨r, r', hrun, hrun', hsame, hcode, hempty, houtput.trans (by decide +kernel)⟩

end Propositional.CommandLine
