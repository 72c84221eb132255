import Scrapscript.Settings

/-!
The settings of each document. A document without settings of its own takes the global ones, and
keeps them until it is closed or the configuration changes.
-/

namespace Scrapscript

structure SettingsStore where
  global : Settings
  /-- The documents that have settings, each once. -/
  documents : List (String × Settings)

namespace SettingsStore

def ofGlobal (global : Settings) : SettingsStore :=
  ⟨global, []⟩

def find? (store : SettingsStore) (uri : String) : Option Settings :=
  store.documents.lookup uri

def without (documents : List (String × Settings)) (uri : String) : List (String × Settings) :=
  documents.filter (·.1 != uri)

def set (store : SettingsStore) (uri : String) (settings : Settings) : SettingsStore :=
  { store with documents := (uri, settings) :: without store.documents uri }

/-- The settings of a document, which has settings of its own from then on. -/
def settingsOf (store : SettingsStore) (uri : String) : Settings × SettingsStore :=
  match store.find? uri with
  | some settings => (settings, store)
  | none => (store.global, store.set uri store.global)

def close (store : SettingsStore) (uri : String) : SettingsStore :=
  { store with documents := without store.documents uri }

/-- Replaces the global settings and forgets all documents. -/
def change (_ : SettingsStore) (global : Settings) : SettingsStore :=
  ofGlobal global

def size (store : SettingsStore) : Nat :=
  store.documents.length

def isEmpty (store : SettingsStore) : Bool :=
  store.documents.isEmpty

end SettingsStore

end Scrapscript
