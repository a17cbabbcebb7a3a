/- GID: MotifChess/Db/Store/GameStore
   generality: implementation
   digest: Reading, removing and patching games by their row ids. -/

import MotifChess.Db.Store.GameWriter

set_option autoImplicit false
set_option relaxedAutoImplicit false

namespace MotifChess.Db.Store

open MotifChess.System

variable {moveHash : List UInt16 → UInt64}

namespace Rows

def findGame (id : ℕ) (rows : Rows) : Option GameRow := rows.games.find? fun row => row.id = id

/-- A tag row of a game, joined with its name. -/
def tagOf (id : ℕ) (rows : Rows) (tag : GameTagRow) : Option (String × String) :=
  if tag.gameId = id then (rows.rowOf .tag tag.tagId).map fun name => (name, tag.value) else none

/-- The extra tags of a game, in the order of their row ids. -/
def extraTagsOf (id : ℕ) (rows : Rows) : List (String × String) :=
  rows.gameTags.filterMap (rows.tagOf id)

/-- The game row joined with its players, its event and its tags. -/
def gameAt (id : ℕ) (rows : Rows) : Result Game :=
  match rows.findGame id with
  | none => .error .notFound
  | some row =>
    match rows.rowOf .player row.whiteId, rows.rowOf .player row.blackId with
    | some (white : Player), some (black : Player) => .ok {
        white := { white with elo := row.whiteElo }
        black := { black with elo := row.blackElo }
        eventDetails := row.eventId.bind fun id => rows.rowOf .event id
        date := row.date
        result := row.result
        eco := row.eco
        moves := row.moves
        extraTags := rows.extraTagsOf id
        provenance := row.provenance }
    | _, _ => .error .notFound

/-- `game_store::get`, which reads the columns as C strings. -/
def get (id : ℕ) (rows : Rows) : Result Game := (rows.gameAt id).map Game.read

end Rows

section Updates

def updateGame (id : ℕ) (change : GameRow → GameRow) : Call moveHash Unit :=
  exec fun rows => .ok (rows.updateGame id change)

def updateField {α : Type} (id : ℕ) (value : Option α) (set : α → GameRow → GameRow) :
    Call moveHash Unit :=
  match value with
  | none => return ()
  | some value => updateGame id (set value)

/-- `patch_player`: the rating stays with the game, the name selects or adds a player row. -/
def patchPlayer (id : ℕ) (setId : ℕ → GameRow → GameRow) (setElo : Int32 → GameRow → GameRow)
    (current : Player) (name : Option String) (elo : Option Int32) : Call moveHash Unit := do
  updateField id elo setElo
  match name with
  | none => return ()
  | some name =>
    let playerId ← findOrInsertPlayer { current with name }
    updateGame id (setId playerId)

def patchEvent (id : ℕ) (current : Option Event) (event site : Option String) :
    Call moveHash Unit := do
  let name := event.getD (current.elim "" Event.name)
  if name = "" then return ()
  else
    let site := if site.isSome then site else current.bind Event.site
    let eventId ← findOrInsertEvent ⟨name, site, current.bind Event.date⟩
    updateGame id fun row => { row with eventId := some eventId }

/-- The columns that a patch sets without looking at the game, in the order of the updates. -/
def patchScalars (id : ℕ) (patch : GamePatch) : Call moveHash Unit := do
  updateField id patch.date fun date row => { row with date := some date }
  updateField id patch.result fun result row => { row with result }
  updateField id patch.eco fun eco row => { row with eco := some eco }
  updateField id patch.sourceLabel fun label row =>
    { row with provenance := { row.provenance with sourceLabel := some label } }
  updateField id patch.reviewStatus fun status row =>
    { row with provenance := { row.provenance with reviewStatus := status } }

def patchNotes (id : ℕ) (notes : Option String) : Call moveHash Unit :=
  match notes with
  | none => return ()
  | some notes => do
    exec fun rows => .ok (rows.deleteGameTags id "_notes")
    if notes = "" then return () else insertGameTags id [("_notes", notes)]

/-- The part of a patch that needs the game as it is. -/
def patchJoined (id : ℕ) (patch : GamePatch) (current : Game) : Call moveHash Unit := do
  patchPlayer id (fun playerId row => { row with whiteId := playerId })
    (fun elo row => { row with whiteElo := some elo }) current.white patch.whiteName patch.whiteElo
  patchPlayer id (fun playerId row => { row with blackId := playerId })
    (fun elo row => { row with blackElo := some elo }) current.black patch.blackName patch.blackElo
  if patch.event.isSome || patch.site.isSome then
    patchEvent id current.eventDetails patch.event patch.site
  else return ()

def needsGame (patch : GamePatch) : Bool :=
  patch.whiteName.isSome || patch.whiteElo.isSome || patch.blackName.isSome ||
    patch.blackElo.isSome || patch.event.isSome || patch.site.isSome

def patchBody (id : ℕ) (patch : GamePatch) : Call moveHash Unit := do
  if needsGame patch then
    match ← Stateful.read fun s => s.db.get id with
    | .error e => Stateful.fail e
    | .ok current => patchJoined id patch current
  patchScalars id patch
  patchNotes id patch.notes

/-- `game_store::patch_metadata`: the game has to be there and entered by the user. -/
def patchMetadata (joined : Bool) (id : ℕ) (patch : GamePatch) : Call moveHash Unit := do
  match ← Stateful.read fun s => s.db.findGame id with
  | none => Stateful.fail .notFound
  | some row =>
    if row.provenance.read.sourceType ≠ "manual" then Stateful.fail .notEditable
    else guarded joined (patchBody id patch)

/-- `game_store::set_manual_provenance`. -/
def setManualProvenance (id : ℕ) (sourceLabel : Option String) (reviewStatus : String) :
    Call moveHash Unit :=
  exec fun rows =>
    if (rows.findGame id).isNone then .error .notFound
    else .ok (rows.updateGame id fun row =>
      { row with provenance := ⟨"manual", sourceLabel, reviewStatus⟩ })

/-- `game_store::remove`. -/
def remove (id : ℕ) : Call moveHash Unit :=
  exec fun rows =>
    if (rows.findGame id).isNone then .error .notFound
    else .ok (rows.keepGames fun row => row.id != id)

end Updates

end MotifChess.Db.Store
