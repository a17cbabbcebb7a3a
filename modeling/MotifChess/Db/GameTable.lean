/- GID: MotifChess/Db/GameTable
   generality: implementation
   digest: The canonical game table: checked and raw inserts, deduplication, removal and patches. -/

import MotifChess.Codec.CString
import MotifChess.Db.Types
import MotifChess.Order.FirstWins

set_option autoImplicit false
set_option relaxedAutoImplicit false

namespace MotifChess.Db

open MotifChess.Codec MotifChess.Order.FirstWins

structure Player where
  name : String
  elo : Option Int32
  title : Option String
  country : Option String
  deriving DecidableEq

structure Event where
  name : String
  site : Option String
  date : Option String
  deriving DecidableEq

/-- Where a game comes from: "manual" games are editable, "imported" ones are not. -/
structure GameProvenance where
  sourceType : String := "imported"
  sourceLabel : Option String := none
  reviewStatus : String := "new"
  deriving DecidableEq

structure Game where
  white : Player
  black : Player
  eventDetails : Option Event
  date : Option String
  result : String
  eco : Option String
  moves : List UInt16
  extraTags : List (String × String) := []
  provenance : GameProvenance := {}
  deriving DecidableEq

section Reading

/-- A player as it is read back: every text ends at its first NUL. -/
def Player.read (player : Player) : Player where
  name := cString player.name
  elo := player.elo
  title := player.title.map cString
  country := player.country.map cString

def Event.read (event : Event) : Event where
  name := cString event.name
  site := event.site.map cString
  date := event.date.map cString

def GameProvenance.read (provenance : GameProvenance) : GameProvenance where
  sourceType := cString provenance.sourceType
  sourceLabel := provenance.sourceLabel.map cString
  reviewStatus := cString provenance.reviewStatus

def Game.read (game : Game) : Game where
  white := game.white.read
  black := game.black.read
  eventDetails := game.eventDetails.map Event.read
  date := game.date.map cString
  result := cString game.result
  eco := game.eco.map cString
  moves := game.moves
  extraTags := game.extraTags.map (Prod.map cString cString)
  provenance := game.provenance.read

/-- Reading cuts no text twice. -/
@[simp] theorem Game.read_read (game : Game) : game.read.read = game.read := by
  have hevent : ∀ event : Event, event.read.read = event.read := by
    intro event
    simp [Event.read, Function.comp_def]
  simp [Game.read, Player.read, GameProvenance.read, Function.comp_def, hevent]

end Reading

structure GamePatch where
  whiteName : Option String := none
  whiteElo : Option Int32 := none
  blackName : Option String := none
  blackElo : Option Int32 := none
  event : Option String := none
  site : Option String := none
  date : Option String := none
  result : Option String := none
  eco : Option String := none
  sourceLabel : Option String := none
  reviewStatus : Option String := none
  notes : Option String := none

/-- What a row of the game table says about its game. Players and events stand under their
unique names. -/
structure StoredGame where
  white : String
  black : String
  event : Option String
  date : Option String
  result : String
  eco : Option String
  moves : List UInt16
  provenance : GameProvenance
  whiteElo : Option Int32
  blackElo : Option Int32
  extraTags : List (String × String)
  deriving DecidableEq

/-- The fields that the identity index compares; an absent date counts as an empty one. -/
structure IdentityFields where
  white : String
  black : String
  event : Option String
  date : String
  result : String
  deriving DecidableEq

namespace StoredGame

def ofGame (game : Game) : StoredGame where
  white := game.white.name
  black := game.black.name
  event := game.eventDetails.map Event.name
  date := game.date
  result := game.result
  eco := game.eco
  moves := game.moves
  provenance := game.provenance
  whiteElo := game.white.elo
  blackElo := game.black.elo
  extraTags := game.extraTags

def identityFields (game : StoredGame) : IdentityFields :=
  ⟨game.white, game.black, game.event, game.date.getD "", game.result⟩

/-- Two games with the same identity are the same game. -/
def identity (game : StoredGame) : IdentityFields × List UInt16 := (game.identityFields, game.moves)

end StoredGame

structure GameRow where
  id : ℕ
  identityCollision : ℕ
  stored : StoredGame
  deriving DecidableEq

namespace GameRow

def identity (row : GameRow) : IdentityFields × List UInt16 := row.stored.identity

/-- The result as the indexes and the statistics read it. -/
def readResult (row : GameRow) : String := cString row.stored.result

/-- The columns of the unique index `game_identity_lookup`. -/
def indexKey (moveHash : List UInt16 → UInt64) (row : GameRow) : IdentityFields × UInt64 × ℕ :=
  (row.stored.identityFields, moveHash row.stored.moves, row.identityCollision)

/-- Rows that the index tells apart by their collision numbers only. -/
def sameSlot (moveHash : List UInt16 → UInt64) (a b : StoredGame) : Bool :=
  a.identityFields = b.identityFields && moveHash a.moves = moveHash b.moves

end GameRow

/-- The tables of `games.db`. The game rows are listed by ascending id, the primary key. -/
structure Tables where
  players : List Player
  events : List Event
  games : List GameRow
  identityIndex : Bool
  ascending : games.Pairwise fun a b => a.id < b.id
  deriving DecidableEq

namespace Tables

/-- The tables of a new database. -/
def empty : Tables := ⟨[], [], [], true, .nil⟩

section Rows

/-- The row id that SQLite gives to the next row. -/
def nextId (t : Tables) : ℕ := t.games.foldl (fun m row => max m row.id) 0 + 1

private theorem le_foldl_max (l : List GameRow) (m : ℕ) :
    m ≤ l.foldl (fun m row => max m row.id) m ∧
      ∀ row ∈ l, row.id ≤ l.foldl (fun m row => max m row.id) m := by
  induction l generalizing m with
  | nil => simp
  | cons row l ih =>
    obtain ⟨hm, hl⟩ := ih (max m row.id)
    simp only [List.foldl_cons, List.forall_mem_cons]
    exact ⟨by omega, by omega, hl⟩

theorem id_lt_nextId {t : Tables} {row : GameRow} (h : row ∈ t.games) : row.id < t.nextId :=
  Nat.lt_succ_of_le ((le_foldl_max t.games 0).2 row h)

def addRow (collision : ℕ) (game : StoredGame) (t : Tables) : Tables where
  players := t.players
  events := t.events
  games := t.games ++ [⟨t.nextId, collision, game⟩]
  identityIndex := t.identityIndex
  ascending := by
    rw [List.pairwise_append]
    refine ⟨t.ascending, List.pairwise_singleton _ _, fun a ha b hb => ?_⟩
    obtain rfl := List.mem_singleton.mp hb
    exact id_lt_nextId ha

def keepRows (keep : GameRow → Bool) (t : Tables) : Tables where
  players := t.players
  events := t.events
  games := t.games.filter keep
  identityIndex := t.identityIndex
  ascending := t.ascending.filter keep

def rewriteRows (stored : GameRow → StoredGame) (collision : GameRow → ℕ) (t : Tables) : Tables where
  players := t.players
  events := t.events
  games := t.games.map fun row => ⟨row.id, collision row, stored row⟩
  identityIndex := t.identityIndex
  ascending := List.pairwise_map.mpr t.ascending

end Rows

section Names

/-- `find_or_insert_player`: a name that is stored keeps the row it has. -/
def findOrInsertPlayer (player : Player) (t : Tables) : Tables :=
  { t with players := insertNew Player.name t.players player }

def findOrInsertEvent (event : Event) (t : Tables) : Tables :=
  { t with events := insertNew Event.name t.events event }

/-- The names that an insert looks up or adds before it adds the game row. -/
def findOrInsertNames (game : Game) (t : Tables) : Tables :=
  let t := (t.findOrInsertPlayer game.white).findOrInsertPlayer game.black
  match game.eventDetails with
  | none => t
  | some event => t.findOrInsertEvent event

@[simp] theorem findOrInsertNames_games (game : Game) (t : Tables) :
    (t.findOrInsertNames game).games = t.games := by
  unfold findOrInsertNames
  cases game.eventDetails <;> rfl

@[simp] theorem findOrInsertNames_identityIndex (game : Game) (t : Tables) :
    (t.findOrInsertNames game).identityIndex = t.identityIndex := by
  unfold findOrInsertNames
  cases game.eventDetails <;> rfl

@[simp] theorem findOrInsertNames_players (game : Game) (t : Tables) :
    (t.findOrInsertNames game).players =
      insertAll Player.name t.players [game.white, game.black] := by
  unfold findOrInsertNames
  cases game.eventDetails <;> rfl

@[simp] theorem findOrInsertNames_events (game : Game) (t : Tables) :
    (t.findOrInsertNames game).events = insertAll Event.name t.events game.eventDetails.toList := by
  unfold findOrInsertNames
  cases game.eventDetails <;> rfl

end Names

variable (moveHash : List UInt16 → UInt64)

/-- Whether no two rows have the same columns in the unique index. -/
def indexUnique (t : Tables) : Bool := decide (t.games.map (GameRow.indexKey moveHash)).Nodup

/-- What SQLite checks at every write: the unique index holds, as long as there is one. -/
def indexHolds (t : Tables) : Bool := !t.identityIndex || t.indexUnique moveHash

/-- `COALESCE(MAX(identity_collision) + 1, 0)` over the rows that share the slot. -/
def nextCollision (game : StoredGame) (t : Tables) : ℕ :=
  t.games.foldl (fun m row =>
    if GameRow.sameSlot moveHash row.stored game then max m (row.identityCollision + 1) else m) 0

/-- The tags before the first one whose name stands before it. -/
def tagsBeforeRepeat (seen : List String) : List (String × String) → List (String × String)
  | [] => []
  | tag :: tags => if tag.1 ∈ seen then [] else tag :: tagsBeforeRepeat (tag.1 :: seen) tags

/-- Add a row and its extra tags; a tag name may stand only once, and the tags before the one that
is refused have been written. -/
def insertRow (collision : ℕ) (game : StoredGame) (t : Tables) : Tables × Result ℕ :=
  if !(t.addRow collision game).indexHolds moveHash then (t, .error .ioFailure)
  else if decide (game.extraTags.map Prod.fst).Nodup then (t.addRow collision game, .ok t.nextId)
  else (t.addRow collision { game with extraTags := tagsBeforeRepeat [] game.extraTags },
    .error .ioFailure)

/-- `game_writer::insert` inside a transaction: an exact duplicate is rejected. -/
def insert (game : Game) (t : Tables) : Tables × Result ℕ :=
  let t := t.findOrInsertNames game
  let stored := StoredGame.ofGame game
  if t.games.any fun row => row.identity = stored.identity then (t, .error .duplicate)
  else t.insertRow moveHash (t.nextCollision moveHash stored) stored

/-- `game_writer::insert_raw` inside a transaction: every call adds a row. -/
def insertRaw (game : Game) (t : Tables) : Tables × Result ℕ :=
  (t.findOrInsertNames game).insertRow moveHash 0 (StoredGame.ofGame game)

/-- A write in a transaction of its own (`txn_guard`): an error undoes all of it. -/
def alone {α : Type} (write : Tables → Tables × Result α) (t : Tables) : Tables × Result α :=
  match write t with
  | (t', .ok a) => (t', .ok a)
  | (_, .error e) => (t, .error e)

def dropIdentityIndex (t : Tables) : Tables := { t with identityIndex := false }

/-- `ROW_NUMBER() - 1` of a row among the rows that share its slot. -/
def rankInSlot (t : Tables) (row : GameRow) : ℕ :=
  t.games.countP fun other => GameRow.sameSlot moveHash other.stored row.stored && other.id < row.id

/-- The row of lowest id of every identity, with collision numbers by rank. -/
def reconcile (t : Tables) : Tables :=
  let kept := t.keepRows fun row => t.games.all fun other =>
    other.identity != row.identity || row.id ≤ other.id
  kept.rewriteRows GameRow.stored (kept.rankInSlot moveHash)

/-- `game_writer::deduplicate`: the reconciled tables under a new index, and how many rows went. -/
def deduplicate (t : Tables) : Result (Tables × ℕ) :=
  let t' := t.reconcile moveHash
  if t'.indexUnique moveHash then
    .ok ({ t' with identityIndex := true }, t.games.length - t'.games.length)
  else .error .ioFailure

/-- `game_store::remove`. -/
def remove (id : ℕ) (t : Tables) : Result Tables :=
  if t.games.any fun row => row.id = id then .ok (t.keepRows fun row => row.id != id)
  else .error .notFound

section Reading

def findGame (id : ℕ) (t : Tables) : Result GameRow :=
  match t.games.find? fun row => row.id = id with
  | none => .error .notFound
  | some row => .ok row

/-- The player row behind a name, which a foreign key keeps present, with the rating of one game. -/
def playerOf (name : String) (elo : Option Int32) (t : Tables) : Player :=
  { (t.players.find? fun player => player.name = name).getD ⟨name, none, none, none⟩ with elo }

def eventOf (name : String) (t : Tables) : Event :=
  (t.events.find? fun event => event.name = name).getD ⟨name, none, none⟩

/-- The game of a row, joined with its player and event rows. -/
def gameOf (row : GameRow) (t : Tables) : Game where
  white := t.playerOf row.stored.white row.stored.whiteElo
  black := t.playerOf row.stored.black row.stored.blackElo
  eventDetails := row.stored.event.map fun name => t.eventOf name
  date := row.stored.date
  result := row.stored.result
  eco := row.stored.eco
  moves := row.stored.moves
  extraTags := row.stored.extraTags
  provenance := row.stored.provenance

/-- `game_store::get`. -/
def get (id : ℕ) (t : Tables) : Result Game := do
  let row ← t.findGame id
  return (t.gameOf row).read

end Reading

section Patching

/-- One row with its game changed, every other row as it was. -/
def changeGame (id : ℕ) (change : StoredGame → StoredGame) (t : Tables) : Tables :=
  t.rewriteRows (fun row => if row.id = id then change row.stored else row.stored)
    GameRow.identityCollision

/-- `UPDATE game SET ... WHERE id = ?`, under the unique index. -/
def updateGame (id : ℕ) (change : StoredGame → StoredGame) (t : Tables) : Result Tables :=
  let t' := t.changeGame id change
  if t'.indexHolds moveHash then .ok t' else .error .ioFailure

def updateField {α : Type} (id : ℕ) (value : Option α) (set : α → StoredGame → StoredGame)
    (t : Tables) : Result Tables :=
  match value with
  | none => .ok t
  | some value => t.updateGame moveHash id (set value)

/-- `patch_player`: the rating belongs to the game, the name selects or adds a player row. -/
def patchPlayer (id : ℕ) (setName : String → StoredGame → StoredGame)
    (setElo : Int32 → StoredGame → StoredGame) (current : Player) (name : Option String)
    (elo : Option Int32) (t : Tables) : Result Tables := do
  let t ← t.updateField moveHash id elo setElo
  match name with
  | none => return t
  | some name => (t.findOrInsertPlayer { current with name }).updateGame moveHash id (setName name)

def patchEvent (id : ℕ) (current : Option Event) (event site : Option String) (t : Tables) :
    Result Tables :=
  let name := event.getD (current.elim "" Event.name)
  if event.isNone && site.isNone then .ok t
  else if name = "" then .ok t
  else
    let site := if site.isSome then site else current.bind Event.site
    (t.findOrInsertEvent ⟨name, site, current.bind Event.date⟩).updateGame moveHash id
      fun game => { game with event := some name }

/-- The notes of a game are the value of its tag "_notes". -/
def replaceNotes (id : ℕ) (notes : String) (t : Tables) : Tables :=
  t.changeGame id fun game =>
    let others := game.extraTags.filter fun tag => tag.1 != "_notes"
    { game with extraTags := if notes = "" then others else others ++ [("_notes", notes)] }

/-- The columns that a patch sets without looking at the game. -/
def patchScalars (id : ℕ) (patch : GamePatch) (t : Tables) : Result Tables := do
  let t ← t.updateField moveHash id patch.date fun date game => { game with date := some date }
  let t ← t.updateField moveHash id patch.result fun result game => { game with result }
  let t ← t.updateField moveHash id patch.eco fun eco game => { game with eco := some eco }
  let t ← t.updateField moveHash id patch.sourceLabel fun label game =>
    { game with provenance := { game.provenance with sourceLabel := some label } }
  t.updateField moveHash id patch.reviewStatus fun status game =>
    { game with provenance := { game.provenance with reviewStatus := status } }

def patchNotes (id : ℕ) (notes : Option String) (t : Tables) : Tables :=
  match notes with
  | none => t
  | some notes => t.replaceNotes id notes

/-- `game_store::patch_metadata`: all of the patch, or an error and nothing of it. -/
def patchMetadata (id : ℕ) (patch : GamePatch) (t : Tables) : Result Tables := do
  let row ← t.findGame id
  if row.stored.provenance.read.sourceType ≠ "manual" then .error .notEditable
  else do
    let current ← t.get id
    let t ← t.patchPlayer moveHash id (fun name game => { game with white := name })
      (fun elo game => { game with whiteElo := some elo }) current.white patch.whiteName patch.whiteElo
    let t ← t.patchPlayer moveHash id (fun name game => { game with black := name })
      (fun elo game => { game with blackElo := some elo }) current.black patch.blackName patch.blackElo
    let t ← t.patchEvent moveHash id current.eventDetails patch.event patch.site
    let t ← t.patchScalars moveHash id patch
    return t.patchNotes id patch.notes

/-- `game_store::set_manual_provenance`. -/
def setManualProvenance (id : ℕ) (sourceLabel : Option String) (reviewStatus : String)
    (t : Tables) : Result Tables := do
  let _ ← t.findGame id
  return t.changeGame id fun game =>
    { game with provenance := ⟨"manual", sourceLabel, reviewStatus⟩ }

end Patching

end Tables

end MotifChess.Db
