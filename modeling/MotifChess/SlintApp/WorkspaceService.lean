/- GID: MotifChess/SlintApp/WorkspaceService
   generality: implementation
   digest: The workspace service: one active database, its recent ones and the saved configuration. -/

import MotifChess.Order.Recency
import MotifChess.SlintApp.GameBrowserPresenter
import MotifChess.System.Run

set_option autoImplicit false
set_option relaxedAutoImplicit false

namespace MotifChess.SlintApp

open MotifChess.Order

section Config

structure RecentEntry where
  name : String
  path : String
  deriving DecidableEq

structure UiPreferences where
  boardTheme : String := "classic"
  pieceSet : String := "standard"
  prefetchDepth : ℤ := 5
  notationLayout : String := "right"
  deriving DecidableEq

structure WorkspaceConfig where
  databaseDirectory : String := ""
  recentDatabases : List RecentEntry := []
  enginePaths : List String := []
  uiPreferences : UiPreferences := {}
  deriving DecidableEq

inductive ConfigErrorCode
  | ioFailure
  | malformedConfig
  deriving DecidableEq

structure ConfigError where
  code : ConfigErrorCode
  message : String
  deriving DecidableEq

/-- The JSON texts of configurations, which are read back as they were written. -/
structure ConfigFormat where
  writeJson : WorkspaceConfig → Option (List UInt8)
  readJson : List UInt8 → Except String WorkspaceConfig
  readJson_writeJson : ∀ config text, writeJson config = some text → readJson text = .ok config

/-- Where the save of a configuration fails, but for the writing of its text. The temporary file is
flushed behind the last test of its stream, so that a flush which fails keeps some bytes only. -/
inductive SaveFault
  | noParentPath
  | createDirectories
  | openTemporary
  | writeTemporary
  | flushTemporary (kept : ℕ)
  | rename

def ioError : ConfigError := ⟨.ioFailure, "Could not read or write workspace configuration."⟩

def maxRecentCount : ℕ := 20

def pushRecent (config : WorkspaceConfig) (name path : String) : WorkspaceConfig :=
  { config with recentDatabases :=
      FirstWins.moveToFront RecentEntry.path maxRecentCount ⟨name, path⟩ config.recentDatabases }

variable (format : ConfigFormat)

/-- `load_config`: a file that is missing is an empty configuration. -/
def loadConfig (readable : Bool) (file : Option (List UInt8)) : Except ConfigError WorkspaceConfig :=
  if readable then
    file.elim (.ok {}) fun text =>
      (format.readJson text).mapError fun message => ⟨.malformedConfig, message⟩
  else .error ioError

/-- `save_config`: the file is replaced as a whole by the last step, or stays as it was. -/
def saveConfig (fault : Option SaveFault) (config : WorkspaceConfig) (file : Option (List UInt8)) :
    Option (List UInt8) × Except ConfigError Unit :=
  match fault, format.writeJson config with
  | none, some text => (some text, .ok ())
  -- the stream was tested before, so the cut file is renamed like a whole one
  | some (.flushTemporary kept), some text => (some (text.take kept), .ok ())
  | _, _ => (file, .error ioError)

/-- What the configuration file is to the program: not read and not written since the start, the
configuration in memory, or the start of its text. -/
inductive ConfigCopy
  | unread
  | whole
  | cut
  deriving DecidableEq

def ConfigCopy.ofSave : Option SaveFault → ConfigCopy
  | some (.flushTemporary _) => .cut
  | _ => .whole

/-- What a file of each kind says of the configuration in memory. -/
def ConfigCopy.Describes (config : WorkspaceConfig) (file : Option (List UInt8)) :
    ConfigCopy → Prop
  | .unread => config = {}
  | .whole => loadConfig format true file = .ok config
  | .cut => ∃ text, format.writeJson config = some text ∧ ∃ kept, file = some (text.take kept)

theorem saveConfig_cases (fault : Option SaveFault) (config : WorkspaceConfig)
    (file : Option (List UInt8)) :
    saveConfig format fault config file = (file, .error ioError) ∨
      ∃ saved, saveConfig format fault config file = (saved, .ok ()) ∧
        (ConfigCopy.ofSave fault).Describes format config saved := by
  unfold saveConfig
  split
  next text htext =>
    refine .inr ⟨_, rfl, ?_⟩
    change loadConfig format true (some text) = .ok config
    rw [loadConfig, if_pos rfl, Option.elim_some, format.readJson_writeJson _ _ htext]
    rfl
  next kept text htext => exact .inr ⟨_, rfl, text, htext, kept, rfl⟩
  next => exact .inl rfl

end Config

section Service

inductive DatabaseKind
  | none
  | persistent
  | scratch
  deriving DecidableEq

/-- The bundles that were opened or created, those that were closed or discarded again, and the
successful openings and creations, the latest first. -/
structure WorkspaceLog (Bundle : Type) where
  acquired : List Bundle := []
  released : List Bundle := []
  history : List RecentEntry := []

/-- A service with the contents of its configuration file, what they are to it, and a log. -/
structure WorkspaceService (Bundle : Type) where
  db : Option Bundle := none
  config : WorkspaceConfig := {}
  configFile : Option (List UInt8) := none
  kind : DatabaseKind := .none
  displayName : String := ""
  activePath : String := ""
  errorMessage : String := ""
  copy : ConfigCopy := .unread
  log : WorkspaceLog Bundle := {}

def toServiceMessage (error : DatabaseError) : String :=
  if error.message = "" then errorCodeName error.code else error.message

namespace WorkspaceService

variable {Bundle : Type} (format : ConfigFormat) (configured : Bool)

/-- The constructor, for a configuration file with some contents. -/
def initial (readable : Bool) (file : Option (List UInt8)) (log : WorkspaceLog Bundle) :
    WorkspaceService Bundle :=
  if configured then
    match loadConfig format readable file with
    | .ok config => { config, configFile := file, copy := .whole, log }
    | .error e => { configFile := file, errorMessage := e.message, log }
  else { configFile := file, log }

/-- `persist_config`. -/
def persistConfig (fault : Option SaveFault) (config : WorkspaceConfig)
    (s : WorkspaceService Bundle) : WorkspaceService Bundle × Except SearchErrorCode Unit :=
  if configured then
    match saveConfig format fault config s.configFile with
    | (file, .ok _) => ({ s with configFile := file, copy := .ofSave fault }, .ok ())
    | (file, .error e) => ({ s with configFile := file, errorMessage := e.message },
        .error .databaseFailure)
  else (s, .ok ())

def acquire (bundle : Bundle) (s : WorkspaceService Bundle) : WorkspaceService Bundle :=
  { s with log := { s.log with acquired := s.log.acquired ++ [bundle] } }

def release (bundles : List Bundle) (s : WorkspaceService Bundle) : WorkspaceService Bundle :=
  { s with log := { s.log with released := s.log.released ++ bundles } }

/-- A bundle becomes the active one, in the place of another. -/
def emplace (bundle : Bundle) (kind : DatabaseKind) (displayName activePath : String)
    (s : WorkspaceService Bundle) : WorkspaceService Bundle :=
  { s.release s.db.toList with
    db := some bundle
    kind := kind
    displayName := displayName
    activePath := activePath
    errorMessage := "" }

def fail (message : String) (code : SearchErrorCode) (s : WorkspaceService Bundle) :
    WorkspaceService Bundle × Except SearchErrorCode Unit :=
  ({ s with errorMessage := message }, .error code)

/-- What `create_database` and `open_database` do with a bundle: it becomes active once the recent
databases with its entry are saved, and is let go otherwise. -/
def enter (fault : Option SaveFault) (bundle : Bundle) (name dirPath : String)
    (s : WorkspaceService Bundle) : WorkspaceService Bundle × Except SearchErrorCode Unit :=
  let nextConfig := pushRecent s.config name dirPath
  match (s.acquire bundle).persistConfig format configured fault nextConfig with
  | (kept, .error code) => (kept.release [bundle], .error code)
  | (saved, .ok _) =>
    ({ saved with
        config := nextConfig
        log := { saved.log with history := ⟨name, dirPath⟩ :: saved.log.history } }.emplace bundle
      .persistent name dirPath, .ok ())

def createDatabase (created : Except DatabaseError Bundle) (fault : Option SaveFault)
    (dirPath name : String) (s : WorkspaceService Bundle) :
    WorkspaceService Bundle × Except SearchErrorCode Unit :=
  if dirPath = "" || name = "" then
    s.fail "Directory path and name are required." .invalidArgument
  else
    match created with
    | .error e => s.fail (toServiceMessage e) .databaseFailure
    | .ok bundle => s.enter format configured fault bundle name dirPath

/-- `open_database`, for a bundle with the name in its manifest. -/
def openDatabase (opened : Except DatabaseError (Bundle × String)) (fault : Option SaveFault)
    (dirPath : String) (s : WorkspaceService Bundle) :
    WorkspaceService Bundle × Except SearchErrorCode Unit :=
  if dirPath = "" then s.fail "Directory path is required." .invalidArgument
  else
    match opened with
    | .error e => s.fail (toServiceMessage e) .databaseFailure
    | .ok (bundle, openedName) => s.enter format configured fault bundle openedName dirPath

def activateScratch (scratch : Except DatabaseError Bundle) (s : WorkspaceService Bundle) :
    WorkspaceService Bundle × Except SearchErrorCode Unit :=
  match scratch with
  | .error e => s.fail (toServiceMessage e) .databaseFailure
  | .ok bundle => ((s.acquire bundle).emplace bundle .scratch "Scratch" "", .ok ())

def closeActive (s : WorkspaceService Bundle) : WorkspaceService Bundle :=
  { s.release s.db.toList with
    db := none
    kind := .none
    displayName := ""
    activePath := ""
    errorMessage := "" }

def notationBelow (s : WorkspaceService Bundle) : Bool :=
  s.config.uiPreferences.notationLayout = "below"

def setNotationBelow (fault : Option SaveFault) (below : Bool) (s : WorkspaceService Bundle) :
    WorkspaceService Bundle × Except SearchErrorCode Unit :=
  let nextConfig := { s.config with uiPreferences :=
    { s.config.uiPreferences with notationLayout := if below then "below" else "right" } }
  match s.persistConfig format configured fault nextConfig with
  | (kept, .error code) => (kept, .error code)
  | (saved, .ok _) => ({ saved with config := nextConfig }, .ok ())

/-- The program ends and is started again. -/
def restart (readable : Bool) (s : WorkspaceService Bundle) : WorkspaceService Bundle :=
  initial format configured readable s.configFile (s.release s.db.toList).log

end WorkspaceService

/-- The calls of a workspace service, with what the bundles and the file system do. -/
inductive WorkspaceAction (Bundle : Type)
  | createDatabase (dirPath name : String) (created : Except DatabaseError Bundle)
      (fault : Option SaveFault)
  | openDatabase (dirPath : String) (opened : Except DatabaseError (Bundle × String))
      (fault : Option SaveFault)
  | activateScratch (scratch : Except DatabaseError Bundle)
  | closeActive
  | setNotationBelow (below : Bool) (fault : Option SaveFault)
  | restart (readable : Bool)

def WorkspaceService.step {Bundle : Type} (format : ConfigFormat) (configured : Bool)
    (s : WorkspaceService Bundle) : WorkspaceAction Bundle → Option (WorkspaceService Bundle)
  | .createDatabase dirPath name created fault =>
    some (s.createDatabase format configured created fault dirPath name).1
  | .openDatabase dirPath opened fault =>
    some (s.openDatabase format configured opened fault dirPath).1
  | .activateScratch scratch => some (s.activateScratch scratch).1
  | .closeActive => some s.closeActive
  | .setNotationBelow below fault => some (s.setNotationBelow format configured fault below).1
  | .restart readable => some (s.restart format configured readable)

end Service

end MotifChess.SlintApp
