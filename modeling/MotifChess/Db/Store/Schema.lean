/- GID: MotifChess/Db/Store/Schema
   generality: implementation
   digest: The six tables of games.db with their row ids, and the constraints that SQLite keeps. -/

import MotifChess.Db.GameTable
import Mathlib.Data.Fintype.Sets
import Mathlib.Logic.Function.Basic

set_option autoImplicit false
set_option relaxedAutoImplicit false

namespace MotifChess.Db.Store

/-- The tables whose rows have an id and a unique name. -/
inductive NameKind
  | player
  | event
  | tag
  deriving DecidableEq

instance : Fintype NameKind := ⟨{.player, .event, .tag}, by rintro (_ | _ | _) <;> decide⟩

namespace NameKind

abbrev Row : NameKind → Type
  | player => Player
  | event => Event
  | tag => String

def nameOf : (kind : NameKind) → kind.Row → String
  | player => Player.name
  | event => Event.name
  | tag => id

end NameKind

/-- A row of the game table. -/
structure GameRow where
  id : ℕ
  whiteId : ℕ
  blackId : ℕ
  eventId : Option ℕ
  date : Option String
  result : String
  eco : Option String
  moves : List UInt16
  identityCollision : ℕ
  provenance : GameProvenance
  whiteElo : Option Int32
  blackElo : Option Int32
  deriving DecidableEq

structure GameTagRow where
  gameId : ℕ
  tagId : ℕ
  value : String
  deriving DecidableEq

/-- The rows of all tables. Game tags stand in the order of their row ids. -/
structure Rows where
  named : (kind : NameKind) → List (ℕ × kind.Row)
  games : List GameRow
  gameTags : List GameTagRow
  identityIndex : Bool

/-- The columns of the unique index `game_identity_lookup`, the collision number apart. -/
structure Slot where
  whiteId : ℕ
  blackId : ℕ
  eventId : Option ℕ
  date : String
  result : String
  moveHash : UInt64
  deriving DecidableEq

variable (moveHash : List UInt16 → UInt64)

def GameRow.slot (row : GameRow) : Slot where
  whiteId := row.whiteId
  blackId := row.blackId
  eventId := row.eventId
  date := row.date.getD ""
  result := row.result
  moveHash := moveHash row.moves

namespace Rows

def ids (kind : NameKind) (rows : Rows) : List ℕ := (rows.named kind).map Prod.fst

/-- Primary keys, unique names, foreign keys and the unique index. -/
structure Consistent (rows : Rows) : Prop where
  ids : ∀ kind, (rows.ids kind).Nodup
  names : ∀ kind, ((rows.named kind).map fun row => kind.nameOf row.2).Nodup
  gameIds : (rows.games.map GameRow.id).Nodup
  players : ∀ row ∈ rows.games, row.whiteId ∈ rows.ids .player ∧ row.blackId ∈ rows.ids .player
  events : ∀ row ∈ rows.games, ∀ id ∈ row.eventId, id ∈ rows.ids .event
  tagged : ∀ row ∈ rows.gameTags,
    row.gameId ∈ rows.games.map GameRow.id ∧ row.tagId ∈ rows.ids .tag
  tagKeys : (rows.gameTags.map fun row => (row.gameId, row.tagId)).Nodup
  index : rows.identityIndex = true →
    (rows.games.map fun row => (row.slot moveHash, row.identityCollision)).Nodup

instance (rows : Rows) : Decidable (rows.Consistent moveHash) :=
  decidable_of_iff (
    (∀ kind, (rows.ids kind).Nodup) ∧
    (∀ kind, ((rows.named kind).map fun row => kind.nameOf row.2).Nodup) ∧
    (rows.games.map GameRow.id).Nodup ∧
    (∀ row ∈ rows.games, row.whiteId ∈ rows.ids .player ∧ row.blackId ∈ rows.ids .player) ∧
    (∀ row ∈ rows.games, ∀ id ∈ row.eventId, id ∈ rows.ids .event) ∧
    (∀ row ∈ rows.gameTags,
      row.gameId ∈ rows.games.map GameRow.id ∧ row.tagId ∈ rows.ids .tag) ∧
    (rows.gameTags.map fun row => (row.gameId, row.tagId)).Nodup ∧
    (rows.identityIndex = true →
      (rows.games.map fun row => (row.slot moveHash, row.identityCollision)).Nodup))
    ⟨fun ⟨h₁, h₂, h₃, h₄, h₅, h₆, h₇, h₈⟩ => ⟨h₁, h₂, h₃, h₄, h₅, h₆, h₇, h₈⟩,
      fun ⟨h₁, h₂, h₃, h₄, h₅, h₆, h₇, h₈⟩ => ⟨h₁, h₂, h₃, h₄, h₅, h₆, h₇, h₈⟩⟩

section Statements

/-- The id that SQLite gives to a new row: one more than the largest. -/
def nextRowId (ids : List ℕ) : ℕ := ids.foldl max 0 + 1

def idOf (kind : NameKind) (name : String) (rows : Rows) : Option ℕ :=
  ((rows.named kind).find? fun row => kind.nameOf row.2 = name).map Prod.fst

def rowOf (kind : NameKind) (id : ℕ) (rows : Rows) : Option kind.Row :=
  ((rows.named kind).find? fun row => row.1 = id).map Prod.snd

def nextId (kind : NameKind) (rows : Rows) : ℕ := nextRowId (rows.ids kind)

def nextGameId (rows : Rows) : ℕ := nextRowId (rows.games.map GameRow.id)

/-- `INSERT INTO player`, `event` or `tag`. -/
def insertNamed (kind : NameKind) (row : kind.Row) (rows : Rows) : Rows :=
  { rows with
    named := Function.update rows.named kind (rows.named kind ++ [(rows.nextId kind, row)]) }

def insertGameTag (tag : GameTagRow) (rows : Rows) : Rows :=
  { rows with gameTags := rows.gameTags ++ [tag] }

def addGame (row : GameRow) (rows : Rows) : Rows := { rows with games := rows.games ++ [row] }

/-- `UPDATE game SET ... WHERE id = ?`. -/
def updateGame (id : ℕ) (change : GameRow → GameRow) (rows : Rows) : Rows :=
  { rows with games := rows.games.map fun row => if row.id = id then change row else row }

/-- `DELETE FROM game`, which takes the tags of the deleted games along. -/
def keepGames (keep : GameRow → Bool) (rows : Rows) : Rows :=
  { rows with
    games := rows.games.filter keep
    gameTags := rows.gameTags.filter fun tag =>
      (rows.games.filter keep).any fun row => row.id = tag.gameId }

def deleteGameTags (gameId : ℕ) (name : String) (rows : Rows) : Rows :=
  { rows with gameTags := rows.gameTags.filter fun tag =>
      !(tag.gameId = gameId && rows.idOf .tag name = some tag.tagId) }

end Statements

end Rows

/-- What the tables may hold: rows under which every constraint holds. -/
structure Database extends Rows where
  consistent : toRows.Consistent moveHash

def Rows.empty : Rows := ⟨fun _ => [], [], [], true⟩

/-- The tables of a new database. -/
def Database.empty : Database moveHash where
  toRows := .empty
  consistent := by
    constructor <;> simp [Rows.empty, Rows.ids]

end MotifChess.Db.Store
