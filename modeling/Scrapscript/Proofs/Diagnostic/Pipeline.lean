import Scrapscript.Proofs.Diagnostic.Report

/-!
What settings do to a report. All that can be found in a text is found once, in one order; settings
strike out the codes that they do not permit and keep as many of the others as their limit allows.
-/

namespace Scrapscript

/-- Whether settings let diagnostics of a code through. Each toggle stands for the codes of its
checks; a text that has no tree and errors of syntax are always reported. -/
def Settings.permits (settings : Settings) (code : Option String) : Bool :=
  match code with
  | some "E0000" | some "E0001" => true
  | some "W0001" => settings.exhaustiveness
  | some "E0002" => settings.typeChecking
  | some "E0003" | some "E0004" | some "E0005" | some "E0006" => settings.validation
  | _ => false

namespace Check

/-- A check is enabled if its code is permitted. -/
theorem permits_code {check : Check} {code : Code} (known : (check, code) ∈ all.zip codes)
    (settings : Settings) : settings.permits (some code.label) = check.enabled settings := by
  simp only [all, codes, List.zip_cons_cons, List.zip_nil_right, List.mem_cons, Prod.mk.injEq,
    List.not_mem_nil, or_false] at known
  rcases known with ⟨rfl, rfl⟩ | ⟨rfl, rfl⟩ | ⟨rfl, rfl⟩ | ⟨rfl, rfl⟩ | ⟨rfl, rfl⟩ | ⟨rfl, rfl⟩ <;>
    rfl

/-- Of what a check reports, settings permit all or nothing. -/
theorem filter_report {check : Check} (known : check ∈ all) (document : Document)
    (settings : Settings) :
    (check.report document).filter (settings.permits ·.code) =
      if check.enabled settings then check.report document else [] := by
  obtain ⟨code, paired⟩ := exists_code known
  have permitted (diagnostic : Diagnostic) (reported : diagnostic ∈ check.report document) :
      settings.permits diagnostic.code = check.enabled settings := by
    rw [code_report paired reported, permits_code paired]
  cases enabled : check.enabled settings with
  | true =>
      rw [if_pos rfl, List.filter_eq_self]
      intro diagnostic reported
      rw [permitted diagnostic reported, enabled]
  | false =>
      rw [if_neg (by simp), List.filter_eq_nil_iff]
      intro diagnostic reported
      rw [permitted diagnostic reported, enabled]
      simp

end Check

namespace Document

variable {document : Document} {diagnostic : Diagnostic}

/-- What the enabled checks find is what all of them find, less what is not permitted. -/
theorem problems_eq_filter (document : Document) (settings : Settings) :
    document.problems settings =
      (document.problems Settings.default).filter (settings.permits ·.code) := by
  have reported (checks : List Check) (known : ∀ check ∈ checks, check ∈ Check.all) :
      (checks.filter (·.enabled settings)).flatMap (·.report document) =
        (checks.flatMap (·.report document)).filter (settings.permits ·.code) := by
    induction checks with
    | nil => rfl
    | cons check others inductionHypothesis =>
        have later := inductionHypothesis fun other listed => known other (.tail _ listed)
        rw [List.flatMap_cons, List.filter_append, ← later,
          Check.filter_report (known check (.head _))]
        cases enabled : check.enabled settings <;> simp [enabled]
  have everything : Check.all.filter (·.enabled Settings.default) = Check.all := by
    rw [List.filter_eq_self]
    decide
  rw [problems, problems, everything]
  exact reported Check.all fun _ known => known

theorem code_problems_ne_unparsed {settings : Settings}
    (reported : diagnostic ∈ document.problems settings) :
    diagnostic.code ≠ some Code.unparsed.label := by
  obtain ⟨check, known, found⟩ := List.mem_flatMap.mp reported
  exact Check.code_report_ne (by decide) (List.mem_filter.mp known).1 found

theorem code_syntaxErrors (reported : diagnostic ∈ document.syntaxErrors) :
    diagnostic.code = some "E0001" := by
  obtain ⟨node, -, rfl⟩ := List.mem_map.mp reported
  rfl

end Document

/-- All that can be found in a text, each check enabled and nothing cut off. -/
def findings (text : Text) : List Diagnostic :=
  match Document.ofText text with
  | .error failure =>
      [.error Range.zero .unparsed ("Failed to parse document: " ++ failure.message)]
  | .ok document => document.syntaxErrors ++ document.problems Settings.default

theorem findings_eq {text : Text} {document : Document}
    (parsed : Document.ofText text = .ok document) :
    findings text = document.syntaxErrors ++ document.problems Settings.default := by
  rw [findings, parsed]

/-- A report is the first of the findings that its settings permit. -/
theorem diagnose_eq_take_filter (text : Text) (settings : Settings) :
    diagnose text settings =
      ((findings text).filter (settings.permits ·.code)).take settings.problemLimit := by
  by_cases silent : settings.problemLimit = 0
  · simp [diagnose, silent]
  rw [diagnose, if_neg silent, findings]
  cases Document.ofText text with
  | error failure =>
      obtain ⟨limit, positive⟩ := Nat.exists_eq_succ_of_ne_zero silent
      simp [positive, Settings.permits, Diagnostic.error, Code.label]
  | ok document =>
      have kept : document.syntaxErrors.filter (settings.permits ·.code) =
          document.syntaxErrors := by
        rw [List.filter_eq_self]
        intro diagnostic reported
        rw [Document.code_syntaxErrors reported]
        rfl
      simp only [List.filter_append, kept, ← document.problems_eq_filter settings]
      rfl

/-- The default settings permit all that is found. -/
theorem diagnose_withLimit (text : Text) (limit : Nat) :
    diagnose text (Settings.default.withLimit limit) = (findings text).take limit := by
  have permitted : (findings text).filter ((Settings.default.withLimit limit).permits ·.code) =
      findings text := by
    rw [List.filter_eq_self, findings]
    cases Document.ofText text with
    | error failure => simp [Settings.permits, Diagnostic.error, Code.label]
    | ok document =>
        intro diagnostic reported
        rcases List.mem_append.mp reported with syntactic | found
        · rw [Document.code_syntaxErrors syntactic]
          rfl
        · rw [document.problems_eq_filter] at found
          exact (List.mem_filter.mp found).2
  rw [diagnose_eq_take_filter, permitted]
  rfl

/-- A text has no tree exactly if its only finding says so. -/
theorem findings_unparsed_iff (text : Text) :
    (∃ failure, Document.ofText text = .error failure) ↔
      ∃ diagnostic, findings text = [diagnostic] ∧ diagnostic.code = some "E0000" ∧
        diagnostic.range = Range.zero := by
  constructor
  · rintro ⟨failure, unparsed⟩
    exact ⟨_, by rw [findings, unparsed], rfl, rfl⟩
  · rintro ⟨diagnostic, only, code, -⟩
    cases parsed : Document.ofText text with
    | error failure => exact ⟨failure, rfl⟩
    | ok document =>
        have reported : diagnostic ∈ findings text := by
          rw [only]
          exact .head _
        rw [findings_eq parsed, List.mem_append] at reported
        rcases reported with syntactic | found
        · rw [Document.code_syntaxErrors syntactic] at code
          contradiction
        · exact absurd code (Document.code_problems_ne_unparsed found)

/-- The findings in a document: its errors of syntax, and then what the checks find. -/
theorem findings_of_ok {text : Text} {document : Document}
    (parsed : Document.ofText text = .ok document) :
    (∀ diagnostic ∈ findings text, diagnostic.code ≠ some "E0000") ∧
      ∃ first others, findings text = first ++ others ∧
        (∀ diagnostic ∈ first, diagnostic.code = some "E0001") ∧
        ∀ diagnostic ∈ others, diagnostic.code ≠ some "E0001" := by
  rw [findings_eq parsed]
  refine ⟨?_, _, _, rfl, fun _ => Document.code_syntaxErrors, ?_⟩
  · intro diagnostic reported
    rcases List.mem_append.mp reported with syntactic | found
    · rw [Document.code_syntaxErrors syntactic]
      decide
    · exact Document.code_problems_ne_unparsed found
  · intro diagnostic found
    simpa [Diagnostic.isSyntaxError, Code.label] using Document.isSyntaxError_problems found

/-- There is one list of findings for each text, which a report shows in full as soon as its limit
is large enough. Every other report is the beginning of it, as long as the limit says, of what the
settings permit; a smaller limit shows a beginning of what a larger one does. The one finding in a
text without a tree is that; in any other text the errors of syntax come first. -/
theorem report_is_beginning_of_permitted (text : Text) :
    ∃ all : List Diagnostic,
      (∀ limit, all.length ≤ limit → diagnose text (Settings.default.withLimit limit) = all) ∧
      (∀ settings : Settings, diagnose text settings =
        (all.filter fun diagnostic => settings.permits diagnostic.code).take
          settings.problemLimit) ∧
      (∀ fewer more, fewer ≤ more →
        diagnose text (Settings.default.withLimit fewer) <+:
          diagnose text (Settings.default.withLimit more)) ∧
      ((∃ failure, Document.ofText text = .error failure) ↔
        ∃ diagnostic, all = [diagnostic] ∧ diagnostic.code = some "E0000" ∧
          diagnostic.range = Range.zero) ∧
      ∀ document, Document.ofText text = .ok document →
        (∀ diagnostic ∈ all, diagnostic.code ≠ some "E0000") ∧
          ∃ first others, all = first ++ others ∧
            (∀ diagnostic ∈ first, diagnostic.code = some "E0001") ∧
            ∀ diagnostic ∈ others, diagnostic.code ≠ some "E0001" := by
  refine ⟨findings text, ?_, diagnose_eq_take_filter text, ?_, findings_unparsed_iff text,
    fun _ => findings_of_ok⟩
  · intro limit enough
    rw [diagnose_withLimit, List.take_of_length_le enough]
  · intro fewer more ordered
    rw [diagnose_withLimit, diagnose_withLimit]
    exact List.take_prefix_take_left ordered

-- Without the warning there is room for the mixed list, and the separator is cut off.
example :
    (findings "| 0 -> [1, #a,]".toList).map Diagnostic.code =
        [some "W0001", some "E0002", some "E0005"] ∧
      (diagnose "| 0 -> [1, #a,]".toList
          { Settings.default with exhaustiveness := false, problemLimit := 1 }).map
        Diagnostic.code = [some "E0002"] := by decide +kernel

end Scrapscript
