import Mathlib.Data.List.Induction
import Scrapscript.Session

/-!
A session answers from its history alone. The settings of a document are those that it was given
last, unless it was closed or the global settings were replaced since; then they are the global
ones. A look-up leaves a copy of what it found in the session, and no later answer shows it.
-/

namespace Scrapscript

namespace SettingsStore

variable (store : SettingsStore) (uri other : String) (settings : Settings)

/-- The settings that a document has, its own or the global ones. -/
def effective : Settings :=
  (store.find? uri).getD store.global

theorem lookup_entry (documents : List (String × Settings)) :
    ((uri, settings) :: documents).lookup other =
      if other = uri then some settings else documents.lookup other := by
  by_cases same : other = uri
  · simp [same]
  · rw [if_neg same, List.lookup_cons, beq_false_of_ne same]

theorem lookup_without (documents : List (String × Settings)) :
    (without documents uri).lookup other =
      if other = uri then none else documents.lookup other := by
  induction documents with
  | nil => simp [without]
  | cons entry documents inductionHypothesis =>
      obtain ⟨key, value⟩ := entry
      by_cases removed : key = uri
      · have dropped : without ((key, value) :: documents) uri = without documents uri := by
          simp [without, removed]
        rw [dropped, inductionHypothesis, lookup_entry, removed]
        split <;> rfl
      · have kept : without ((key, value) :: documents) uri =
            (key, value) :: without documents uri := by
          simp [without, removed]
        rw [kept, lookup_entry, lookup_entry, inductionHypothesis]
        by_cases same : other = key
        · simp [same, removed]
        · simp [same]

theorem find?_set : (store.set uri settings).find? other =
    if other = uri then some settings else store.find? other := by
  rw [find?, set, lookup_entry, lookup_without]
  split <;> rfl

theorem find?_close :
    (store.close uri).find? other = if other = uri then none else store.find? other :=
  lookup_without uri other store.documents

theorem effective_set : (store.set uri settings).effective other =
    if other = uri then settings else store.effective other := by
  rw [effective, find?_set]
  split <;> rfl

theorem effective_close : (store.close uri).effective other =
    if other = uri then store.global else store.effective other := by
  rw [effective, find?_close]
  split <;> rfl

theorem settingsOf_fst : (store.settingsOf uri).1 = store.effective uri := by
  unfold settingsOf effective
  split
  · rename_i found
    rw [found]
    rfl
  · rename_i missing
    rw [missing]
    rfl

theorem global_settingsOf : (store.settingsOf uri).2.global = store.global := by
  unfold settingsOf
  split <;> rfl

/-- A look-up leaves the settings of every document as they are. -/
theorem effective_settingsOf :
    (store.settingsOf uri).2.effective other = store.effective other := by
  unfold settingsOf
  split
  · rfl
  · rename_i missing
    rw [effective_set]
    split
    · rename_i same
      rw [same, effective, missing]
      rfl
    · rfl

end SettingsStore

/-- What a client asks of a session. -/
inductive Operation where
  | start (settings : Settings)
  | analysis (uri : String)
  | settingsOf (uri : String)
  | setSettings (uri : String) (settings : Settings)
  | close (uri : String)
  | change (settings : Settings)
deriving DecidableEq

/-- What a client gets back. -/
inductive Answer where
  | done
  | settings (settings : Settings)
  | analysis (result : Except RequestError Analysis)

namespace Operation

/-- The document that an operation is about. -/
def uri? : Operation → Option String
  | start _ | change _ => none
  | analysis uri | settingsOf uri | setSettings uri _ | close uri => some uri

/-- Whether an operation is about a document, or about all of them. -/
def concerns (uri : String) (operation : Operation) : Bool :=
  operation.uri?.all (· == uri)

def isLookup : Operation → Bool
  | analysis _ | settingsOf _ => true
  | _ => false

def isStart : Operation → Bool
  | start _ => true
  | _ => false

/-- The settings that an operation makes the global ones. -/
def global? : Operation → Option Settings
  | start settings | change settings => some settings
  | _ => none

/-- The settings that an operation gives to a document. -/
def own? (uri : String) : Operation → Option Settings
  | setSettings other settings => if uri = other then some settings else none
  | _ => none

/-- Whether an operation takes from a document the settings that it was given. -/
def forgets (uri : String) : Operation → Bool
  | start _ | change _ => true
  | close other => uri == other
  | _ => false

/-- Whether an operation changes nothing for a document. -/
structure Neutral (uri : String) (operation : Operation) : Prop where
  global? : operation.global? = none
  own? : operation.own? uri = none
  forgets : operation.forgets uri = false

theorem Neutral.isStart {operation : Operation} {uri : String} (neutral : operation.Neutral uri) :
    operation.isStart = false := by
  cases operation with
  | start settings => exact nomatch neutral.global?
  | analysis | settingsOf | setSettings | close | change => rfl

theorem exists_concerns (operation : Operation) : ∃ uri, operation.concerns uri = true := by
  cases operation with
  | start | change => exact ⟨"", rfl⟩
  | analysis uri | settingsOf uri | setSettings uri | close uri => exact ⟨uri, beq_self_eq_true uri⟩

theorem neutral_of_isLookup {operation : Operation} (lookup : operation.isLookup = true)
    (uri : String) : operation.Neutral uri := by
  cases operation with
  | analysis | settingsOf => exact ⟨rfl, rfl, rfl⟩
  | start | setSettings | close | change => contradiction

theorem neutral_of_not_concerns {operation : Operation} {uri : String}
    (others : operation.concerns uri = false) : operation.Neutral uri := by
  cases operation with
  | start | change => contradiction
  | analysis | settingsOf => exact ⟨rfl, rfl, rfl⟩
  | setSettings other settings =>
      have different : uri ≠ other := Ne.symm (by simpa [concerns, uri?] using others)
      exact ⟨rfl, if_neg different, rfl⟩
  | close other =>
      have different : uri ≠ other := Ne.symm (by simpa [concerns, uri?] using others)
      exact ⟨rfl, rfl, by simpa [forgets] using different⟩

end Operation

/-- The operations on a session so far, the latest last. -/
abbrev History := List Operation

namespace History

open Operation

/-- The global settings: those that came with the last operation that replaces them. -/
def global (history : History) : Settings :=
  (history.reverse.findSome? global?).getD Settings.default

/-- The settings that a document was given last, since it was made to forget such settings. -/
def own? (history : History) (uri : String) : Option Settings :=
  (history.reverse.takeWhile (! ·.forgets uri)).findSome? (·.own? uri)

def settingsOf (history : History) (uri : String) : Settings :=
  (history.own? uri).getD history.global

def started (history : History) : Bool :=
  history.any isStart

/-- What an operation has to answer after a history. -/
def answer (history : History) : Operation → Answer
  | .analysis uri => .analysis
      (if history.started then .ok ⟨uri, history.settingsOf uri⟩ else .error .notStarted)
  | .settingsOf uri => .settings (history.settingsOf uri)
  | .start _ | .setSettings _ _ | .close _ | .change _ => .done

variable (history : History) (operation : Operation) (uri : String)

theorem global_concat : global (history ++ [operation]) =
    operation.global?.getD history.global := by
  simp only [global, List.reverse_append, List.reverse_singleton, List.singleton_append,
    List.findSome?_cons]
  cases operation.global? <;> rfl

theorem own?_concat : own? (history ++ [operation]) uri =
    if operation.forgets uri then none else (operation.own? uri).or (history.own? uri) := by
  simp only [own?, List.reverse_append, List.reverse_singleton, List.singleton_append,
    List.takeWhile_cons]
  cases operation.forgets uri with
  | true => rfl
  | false =>
      simp only [Bool.not_false, if_true, List.findSome?_cons]
      cases operation.own? uri <;> rfl

theorem started_concat : started (history ++ [operation]) =
    (history.started || operation.isStart) := by
  simp [started]

/-- How one more operation changes the settings of a document. -/
theorem settingsOf_concat : settingsOf (history ++ [operation]) uri =
    if operation.forgets uri then operation.global?.getD history.global
    else (operation.own? uri).getD (history.settingsOf uri) := by
  rw [settingsOf, own?_concat, global_concat]
  cases operation with
  | start | change => rfl
  | analysis | settingsOf => rfl
  | close other =>
      simp only [global?, Operation.own?]
      split <;> rfl
  | setSettings other settings =>
      by_cases same : uri = other
      · simp [forgets, Operation.own?, same]
      · simp [forgets, Operation.own?, same, global?, settingsOf]

/-- Whether two histories make no difference for a document. -/
structure Agree (uri : String) (history other : History) : Prop where
  started : history.started = other.started
  global : history.global = other.global
  settingsOf : history.settingsOf uri = other.settingsOf uri

variable {history operation uri} {other : History}

theorem Agree.concat (agree : Agree uri history other) (operation : Operation) :
    Agree uri (history ++ [operation]) (other ++ [operation]) where
  started := by rw [started_concat, started_concat, agree.started]
  global := by rw [global_concat, global_concat, agree.global]
  settingsOf := by rw [settingsOf_concat, settingsOf_concat, agree.global, agree.settingsOf]

theorem Agree.concat_neutral (agree : Agree uri history other)
    (neutral : operation.Neutral uri) : Agree uri history (other ++ [operation]) where
  started := by rw [started_concat, neutral.isStart, Bool.or_false, agree.started]
  global := by rw [global_concat, neutral.global?, Option.getD_none, agree.global]
  settingsOf := by
    rw [settingsOf_concat, neutral.forgets, neutral.own?, agree.settingsOf]
    rfl

/-- Operations that change nothing for a document can be left out of a history. -/
theorem agree_filter {keeps : Operation → Bool}
    (omitted : ∀ operation, keeps operation = false → operation.Neutral uri) (history : History) :
    Agree uri (history.filter keeps) history := by
  induction history using List.reverseRecOn with
  | nil => exact ⟨rfl, rfl, rfl⟩
  | append_singleton history operation inductionHypothesis =>
      cases kept : keeps operation with
      | true => simpa [kept] using inductionHypothesis.concat operation
      | false => simpa [kept] using inductionHypothesis.concat_neutral (omitted operation kept)

theorem Agree.answer_eq (agree : Agree uri history other) (about : operation.concerns uri = true) :
    history.answer operation = other.answer operation := by
  cases operation with
  | start | setSettings | close | change => rfl
  | analysis concerned | settingsOf concerned =>
      obtain rfl : concerned = uri := by simpa [concerns, uri?] using about
      simp only [answer, agree.started, agree.settingsOf]

end History

namespace Session

def perform (session : Session) : Operation → Answer × Session
  | .start settings => (.done, session.start settings)
  | .analysis uri =>
      let (result, session) := session.analysis uri
      (.analysis result, session)
  | .settingsOf uri =>
      let (settings, session) := session.settingsOf uri
      (.settings settings, session)
  | .setSettings uri settings => (.done, session.setSettings uri settings)
  | .close uri => (.done, session.close uri)
  | .change settings => (.done, session.change settings)

/-- The session that a history leads to. -/
def after (history : History) : Session :=
  history.foldl (fun session operation => (session.perform operation).2) new

/-- Whether a session answers as its history asks. -/
structure Reflects (session : Session) (history : History) : Prop where
  started : session.started = history.started
  global : session.settings.global = history.global
  effective : ∀ uri, session.settings.effective uri = history.settingsOf uri

variable {session : Session} {history : History}

theorem analysis_of_started (started : session.started = true) (uri : String) :
    session.analysis uri = (.ok ⟨uri, (session.settingsOf uri).1⟩, (session.settingsOf uri).2) := by
  rw [analysis, if_pos started]

theorem analysis_of_not_started (idle : session.started = false) (uri : String) :
    session.analysis uri = (.error .notStarted, session) := by
  rw [analysis, idle]
  rfl

theorem reflects_new : new.Reflects [] :=
  ⟨rfl, rfl, fun _ => rfl⟩

theorem Reflects.settingsOf_fst (reflects : session.Reflects history) (uri : String) :
    (session.settingsOf uri).1 = history.settingsOf uri := by
  rw [← reflects.effective uri, ← SettingsStore.settingsOf_fst]
  rfl

theorem Reflects.settingsOf_snd (reflects : session.Reflects history) (uri : String) :
    (session.settingsOf uri).2.Reflects history := by
  refine ⟨reflects.started, ?_, fun other => ?_⟩
  · exact (SettingsStore.global_settingsOf _ uri).trans reflects.global
  · exact (SettingsStore.effective_settingsOf _ uri other).trans (reflects.effective other)

/-- A session that has changed as its history has. -/
theorem Reflects.concat {next : Session} {operation : Operation}
    (started : next.started = (history.started || operation.isStart))
    (global : next.settings.global = operation.global?.getD history.global)
    (effective : ∀ uri, next.settings.effective uri =
      if operation.forgets uri then operation.global?.getD history.global
      else (operation.own? uri).getD (history.settingsOf uri)) :
    next.Reflects (history ++ [operation]) where
  started := started.trans (History.started_concat history operation).symm
  global := global.trans (History.global_concat history operation).symm
  effective uri := (effective uri).trans (History.settingsOf_concat history operation uri).symm

theorem Reflects.perform_fst (reflects : session.Reflects history) (operation : Operation) :
    (session.perform operation).1 = history.answer operation := by
  cases operation with
  | start | setSettings | close | change => rfl
  | settingsOf uri => exact congrArg Answer.settings (reflects.settingsOf_fst uri)
  | analysis uri =>
      rw [History.answer, ← reflects.started, ← reflects.settingsOf_fst uri]
      cases running : session.started with
      | true => rw [perform, analysis_of_started running]; rfl
      | false => rw [perform, analysis_of_not_started running]; rfl

theorem Reflects.perform_snd (reflects : session.Reflects history) (operation : Operation) :
    (session.perform operation).2.Reflects (history ++ [operation]) := by
  have running : session.started = (history.started || false) := by
    rw [Bool.or_false, reflects.started]
  -- The copy that a look-up leaves is what the document had before.
  have looked (uri : String) : (session.settingsOf uri).2.Reflects history :=
    reflects.settingsOf_snd uri
  cases operation with
  | start settings => exact .concat (Bool.or_true _).symm rfl fun _ => rfl
  | change settings => exact .concat running rfl fun _ => rfl
  | settingsOf uri =>
      exact .concat running (looked uri).global (looked uri).effective
  | analysis uri =>
      cases begun : session.started with
      | true =>
          rw [perform, analysis_of_started begun]
          exact .concat running (looked uri).global (looked uri).effective
      | false =>
          rw [perform, analysis_of_not_started begun]
          exact .concat running reflects.global reflects.effective
  | setSettings uri settings =>
      refine .concat running reflects.global fun other => ?_
      rw [perform, setSettings, SettingsStore.effective_set, reflects.effective]
      simp only [Operation.forgets, Operation.own?]
      split <;> rfl
  | close uri =>
      refine .concat running reflects.global fun other => ?_
      rw [perform, close, SettingsStore.effective_close, reflects.effective, reflects.global]
      simp [Operation.forgets, Operation.own?, Operation.global?]

theorem reflects_after (history : History) : (after history).Reflects history := by
  induction history using List.reverseRecOn with
  | nil => exact reflects_new
  | append_singleton history operation inductionHypothesis =>
      rw [after, List.foldl_append]
      exact inductionHypothesis.perform_snd operation

theorem perform_after (history : History) (operation : Operation) :
    ((after history).perform operation).1 = history.answer operation :=
  (reflects_after history).perform_fst operation

theorem analysis_after_eq_error_iff (history : History) (uri : String) :
    ((after history).analysis uri).1 = .error .notStarted ↔
      ∀ settings, .start settings ∉ history := by
  have none : (after history).started = false ↔ ∀ settings, .start settings ∉ history := by
    rw [(reflects_after history).started, History.started, List.any_eq_false]
    constructor
    · intro none settings listed
      exact none _ listed rfl
    · intro none operation listed
      cases operation with
      | start settings => exact absurd listed (none settings)
      | analysis | settingsOf | setSettings | close | change => exact Bool.false_ne_true
  rw [← none]
  cases running : (after history).started with
  | true => simp [analysis_of_started running]
  | false => simp [analysis_of_not_started running]

/-- Histories that agree on all that matters for a document get the same answers about it. -/
theorem perform_after_congr {other : History} {operation : Operation} {uri : String}
    {keeps : Operation → Bool}
    (omitted : ∀ operation, keeps operation = false → operation.Neutral uri)
    (same : history.filter keeps = other.filter keeps) (about : operation.concerns uri = true) :
    ((after history).perform operation).1 = ((after other).perform operation).1 := by
  have kept := (History.agree_filter omitted history).answer_eq about
  have otherKept := (History.agree_filter omitted other).answer_eq about
  rw [perform_after, perform_after, ← kept, same, otherKept]

/-- A session answers every operation from its history; what fails leaves it as it is. Look-ups
and operations on other documents make no difference. -/
theorem answers_from_history :
    (∀ history operation, ((after history).perform operation).1 = history.answer operation) ∧
    (∀ history uri, ((after history).analysis uri).1 = .error .notStarted ↔
      ∀ settings, .start settings ∉ history) ∧
    (∀ history uri error, ((after history).analysis uri).1 = .error error →
      ((after history).analysis uri).2 = after history) ∧
    (∀ history other : History, history.filter (! ·.isLookup) = other.filter (! ·.isLookup) →
      ∀ operation, ((after history).perform operation).1 = ((after other).perform operation).1) ∧
    (∀ uri, ∀ history other : History,
      history.filter (·.concerns uri) = other.filter (·.concerns uri) →
      ∀ operation : Operation, operation.concerns uri = true →
        ((after history).perform operation).1 = ((after other).perform operation).1) := by
  refine ⟨perform_after, analysis_after_eq_error_iff, ?_, ?_, ?_⟩
  · intro history uri error failed
    cases running : (after history).started with
    | true => simp [analysis_of_started running] at failed
    | false => rw [analysis_of_not_started running]
  · intro history other same operation
    obtain ⟨uri, about⟩ := operation.exists_concerns
    refine perform_after_congr (fun operation omitted => ?_) same about
    exact Operation.neutral_of_isLookup (by simpa using omitted) uri
  · intro uri history other same operation about
    exact perform_after_congr (fun _ => Operation.neutral_of_not_concerns) same about

-- The copy that the first look-up leaves does not outlive the change.
example : ((after [.settingsOf "a", .change { problemLimit := 3 }]).settingsOf "a").1 =
    { problemLimit := 3 } := by decide

end Session

end Scrapscript
