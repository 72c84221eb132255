import Scrapscript.Diagnostic.Report
import Scrapscript.Proofs.Lossless
import Scrapscript.Proofs.Opening

/-!
The codes of a report. Each check has a code of its own, and none has that of the syntax errors,
which come first. No check fails on a document that a text opens as.
-/

namespace Scrapscript

section

variable {Failure Input Output : Type} {inspect : Input → Except Failure Output}
  {inputs : List Input} {outputs : List Output}

theorem exists_of_bind {first : Except Failure Input} {output : Output}
    (answered : first >>= inspect = .ok output) :
    ∃ input, first = .ok input ∧ inspect input = .ok output := by
  cases first with
  | error failure => cases answered
  | ok input => exact ⟨input, rfl, answered⟩

theorem exists_of_mem_mapM (answered : inputs.mapM inspect = .ok outputs) {output : Output}
    (listed : output ∈ outputs) : ∃ input ∈ inputs, inspect input = .ok output := by
  induction inputs generalizing outputs with
  | nil =>
      cases answered
      contradiction
  | cons first rest inductionHypothesis =>
      rw [List.mapM_cons] at answered
      obtain ⟨answer, head, answered⟩ := exists_of_bind answered
      obtain ⟨others, tail, answered⟩ := exists_of_bind answered
      cases answered
      rcases List.mem_cons.mp listed with rfl | later
      · exact ⟨first, .head _, head⟩
      · obtain ⟨input, among, same⟩ := inductionHypothesis tail later
        exact ⟨input, .tail _ among, same⟩

theorem exists_mapM (answers : ∀ input ∈ inputs, ∃ output, inspect input = .ok output) :
    ∃ outputs, inputs.mapM inspect = .ok outputs := by
  induction inputs with
  | nil => exact ⟨[], rfl⟩
  | cons first rest inductionHypothesis =>
      obtain ⟨answer, head⟩ := answers first (.head _)
      obtain ⟨others, tail⟩ := inductionHypothesis fun input later => answers input (.tail _ later)
      refine ⟨answer :: others, ?_⟩
      rw [List.mapM_cons, head, tail]
      rfl

end

theorem Code.label_inj {code target : Code} : code.label = target.label ↔ code = target := by
  cases code <;> cases target <;> simp [label]

namespace Check

/-- What is reported of arrows is reported of a node that lacks its own. -/
theorem exists_of_mem_arrows {enabled : Settings → Bool} {document : Document}
    {diagnostic : Diagnostic} (reported : diagnostic ∈ report ⟨enabled, arrows⟩ document) :
    ∃ node ∈ document.root.descendants, lacksArrow node = true ∧ ∃ message,
      diagnostic = .error (document.nodeRange node) .withoutArrow message := by
  unfold report at reported
  split at reported
  · contradiction
  · rename_i answered
    obtain ⟨node, listed, made⟩ := exists_of_mem_mapM answered reported
    obtain ⟨visited, lacks⟩ := List.mem_filter.mp listed
    obtain ⟨message, -, made⟩ := exists_of_bind made
    exact ⟨node, visited, lacks, message, (Except.ok.inj made).symm⟩

section

variable {text : Text} {document : Document} (opened : Document.ofText text = .ok document)

include opened

/-- A node of an opened document spans a stretch of its text, which can be quoted. -/
theorem exists_arrowProblem {node : Node} (visited : node ∈ document.root.descendants) :
    ∃ message, arrowProblem document node = .ok message := by
  obtain ⟨rfl, -⟩ := Document.eq_of_ofText opened
  have slice := Node.slice?_text visited rfl
  rw [Document.root, Parse.text_root] at slice
  unfold arrowProblem
  split
  · exact ⟨_, rfl⟩
  · rw [Document.source?, slice]
    exact ⟨_, rfl⟩

/-- No check fails on an opened document, so that none is skipped. -/
theorem exists_run {check : Check} (known : check ∈ all) :
    ∃ found, check.run document = .ok found := by
  have quoted : ∃ found, arrows document = .ok found := by
    refine exists_mapM fun node listed => ?_
    obtain ⟨message, problem⟩ := exists_arrowProblem opened (List.mem_filter.mp listed).1
    exact ⟨_, by rw [problem]; rfl⟩
  simp only [all, List.mem_cons, List.not_mem_nil, or_false] at known
  rcases known with rfl | rfl | rfl | rfl | rfl | rfl
  all_goals first | exact quoted | exact ⟨_, rfl⟩

end

/-- The codes of what the checks report, check by check. -/
def codes : List Code :=
  [.nonExhaustive, .mixedList, .malformedWhere, .fieldWithoutValue, .listSeparator, .withoutArrow]

theorem code_filterMap {code : Code} {report : Node → Option Diagnostic} {nodes : List Node}
    (reports : ∀ node diagnostic, report node = some diagnostic →
      diagnostic.code = some code.label)
    {diagnostic : Diagnostic} (membership : diagnostic ∈ nodes.filterMap report) :
    diagnostic.code = some code.label := by
  obtain ⟨node, -, reported⟩ := List.mem_filterMap.mp membership
  exact reports node diagnostic reported

theorem code_report {check : Check} {code : Code} (known : (check, code) ∈ all.zip codes)
    {document : Document} {diagnostic : Diagnostic}
    (membership : diagnostic ∈ check.report document) : diagnostic.code = some code.label := by
  simp only [all, codes, List.zip_cons_cons, List.zip_nil_right, List.mem_cons, Prod.mk.injEq,
    List.not_mem_nil, or_false] at known
  rcases known with ⟨rfl, rfl⟩ | ⟨rfl, rfl⟩ | ⟨rfl, rfl⟩ | ⟨rfl, rfl⟩ | ⟨rfl, rfl⟩ | ⟨rfl, rfl⟩
  · refine code_filterMap (fun node diagnostic reported => ?_) membership
    dsimp only at reported
    split at reported <;> cases reported
    rfl
  · refine code_filterMap (fun node diagnostic reported => ?_) membership
    dsimp only at reported
    split at reported <;> cases reported
    rfl
  · refine code_filterMap (fun node diagnostic reported => ?_) membership
    split at reported <;> cases reported
    rfl
  · refine code_filterMap (fun node diagnostic reported => ?_) membership
    split at reported <;> cases reported
    rfl
  · refine code_filterMap (fun node diagnostic reported => ?_) membership
    obtain ⟨message, -, rfl⟩ := Option.map_eq_some_iff.mp reported
    rfl
  · obtain ⟨node, -, -, message, rfl⟩ := exists_of_mem_arrows membership
    rfl

theorem exists_code {check : Check} (known : check ∈ all) :
    ∃ code, (check, code) ∈ all.zip codes := by
  have listed : (all.zip codes).map Prod.fst = all := List.map_fst_zip (by decide)
  rw [← listed] at known
  obtain ⟨⟨_, code⟩, paired, rfl⟩ := List.mem_map.mp known
  exact ⟨code, paired⟩

/-- No check reports what is not among the codes of the checks. -/
theorem code_report_ne {target : Code} (foreign : target ∉ codes) {check : Check}
    (known : check ∈ all) {document : Document} {diagnostic : Diagnostic}
    (membership : diagnostic ∈ check.report document) :
    diagnostic.code ≠ some target.label := by
  obtain ⟨code, paired⟩ := exists_code known
  rw [code_report paired membership, ne_eq, Option.some.injEq, Code.label_inj]
  rintro rfl
  exact foreign (List.of_mem_zip paired).2

end Check

/-- Whether a diagnostic is a syntax error. -/
def Diagnostic.isSyntaxError (diagnostic : Diagnostic) : Bool :=
  diagnostic.code == some Code.syntaxError.label

namespace Document

variable {document : Document} {diagnostic : Diagnostic}

theorem isSyntaxError_syntaxErrors (membership : diagnostic ∈ document.syntaxErrors) :
    diagnostic.isSyntaxError = true := by
  obtain ⟨node, -, rfl⟩ := List.mem_map.mp membership
  rfl

theorem isSyntaxError_problems {settings : Settings}
    (membership : diagnostic ∈ document.problems settings) : diagnostic.isSyntaxError = false := by
  obtain ⟨check, known, reported⟩ := List.mem_flatMap.mp membership
  have code : diagnostic.code ≠ some Code.syntaxError.label :=
    Check.code_report_ne (by decide) (List.mem_filter.mp known).1 reported
  simpa [Diagnostic.isSyntaxError] using code

end Document

/-- The syntax errors among the diagnostics of a text are those of its document, as many as the
limit lets through. -/
theorem filter_diagnose {text : Text} {document : Document}
    (parsed : Document.ofText text = .ok document) (settings : Settings) :
    (diagnose text settings).filter Diagnostic.isSyntaxError =
      document.syntaxErrors.take settings.problemLimit := by
  by_cases silent : settings.problemLimit = 0
  · simp [diagnose, silent]
  have report : diagnose text settings =
      (document.syntaxErrors ++ document.problems settings).take settings.problemLimit := by
    rw [diagnose, if_neg silent, parsed]
    rfl
  have first : (document.syntaxErrors.take settings.problemLimit).filter Diagnostic.isSyntaxError =
      document.syntaxErrors.take settings.problemLimit := by
    rw [List.filter_eq_self]
    intro diagnostic membership
    exact Document.isSyntaxError_syntaxErrors (List.mem_of_mem_take membership)
  have others (limit : Nat) :
      ((document.problems settings).take limit).filter Diagnostic.isSyntaxError = [] := by
    rw [List.filter_eq_nil_iff]
    intro diagnostic membership
    simp [Document.isSyntaxError_problems (List.mem_of_mem_take membership)]
  rw [report, List.take_append, List.filter_append, first, others, List.append_nil]

end Scrapscript
