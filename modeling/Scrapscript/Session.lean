import Scrapscript.Completion.Context
import Scrapscript.Diagnostic.Report
import Scrapscript.Highlight
import Scrapscript.Hover
import Scrapscript.Outline
import Scrapscript.Reference
import Scrapscript.Settings.Store

/-!
A session with a client: the settings of its documents, and the answers to its requests. A request
brings the text of its document with it; a text without a tree is answered as well as possible.
-/

namespace Scrapscript

structure Session where
  started : Bool
  settings : SettingsStore

inductive RequestError where
  | notStarted
  | unparsed (failure : ParseFailure)
deriving DecidableEq, Repr

def RequestError.message : RequestError → String
  | notStarted => "analysis host is not initialized"
  | unparsed failure => failure.message

/-- What a request about one document works with. -/
structure Analysis where
  uri : String
  settings : Settings

namespace Session

def new : Session :=
  ⟨false, SettingsStore.ofGlobal Settings.default⟩

/-- Begins the session with the given global settings and forgets all documents. -/
def start (_ : Session) (settings : Settings) : Session :=
  ⟨true, SettingsStore.ofGlobal settings⟩

/-- The settings of a document, which are its own from then on. -/
def settingsOf (session : Session) (uri : String) : Settings × Session :=
  let (settings, store) := session.settings.settingsOf uri
  (settings, { session with settings := store })

def setSettings (session : Session) (uri : String) (settings : Settings) : Session :=
  { session with settings := session.settings.set uri settings }

def close (session : Session) (uri : String) : Session :=
  { session with settings := session.settings.close uri }

def change (session : Session) (settings : Settings) : Session :=
  { session with settings := session.settings.change settings }

/-- What requests about a document work with, once the session has begun. -/
def analysis (session : Session) (uri : String) : Except RequestError Analysis × Session :=
  if session.started then
    let (settings, session) := session.settingsOf uri
    (.ok ⟨uri, settings⟩, session)
  else (.error .notStarted, session)

end Session

namespace Analysis

def parse (_ : Analysis) (text : Text) : Except RequestError Document :=
  (Document.ofText text).mapError .unparsed

def document? (analysis : Analysis) (text : Text) : Option Document :=
  match analysis.parse text with
  | .ok document => some document
  | .error _ => none

def diagnostics (analysis : Analysis) (text : Text) : List Diagnostic :=
  diagnose text analysis.settings

/-- What can be typed at a position; what can be typed anywhere if there is no tree. -/
def completions (analysis : Analysis) (text : Text) (position : Position) : List Completion :=
  match analysis.document? text with
  | some document => Completion.suggestions document position
  | none => Completion.inContext .global

def hover? (analysis : Analysis) (text : Text) (position : Position) : Option Hover := do
  let document ← analysis.document? text
  Hover.at? document position

def outline (analysis : Analysis) (text : Text) : List Symbol :=
  ((analysis.document? text).map Document.outline).getD []

def references (analysis : Analysis) (text : Text) (position : Position) : List Location :=
  ((analysis.document? text).map (·.references analysis.uri position)).getD []

def renameTarget? (analysis : Analysis) (text : Text) (position : Position) :
    Option RenameTarget := do
  let document ← analysis.document? text
  document.renameTarget? position

def rename? (analysis : Analysis) (text : Text) (position : Position) (name : String) :
    Option WorkspaceEdit := do
  let document ← analysis.document? text
  document.rename? analysis.uri position name

def highlights (analysis : Analysis) (text : Text) : List Highlight :=
  if analysis.settings.highlighting then
    ((analysis.document? text).map Document.highlights).getD []
  else []

end Analysis

end Scrapscript
