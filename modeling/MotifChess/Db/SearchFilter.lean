/- GID: MotifChess/Db/SearchFilter
   generality: implementation
   digest: The filter of a game search, and the part of it that looks at game metadata. -/

import Mathlib.Data.Nat.Notation

set_option autoImplicit false
set_option relaxedAutoImplicit false

namespace MotifChess.Db

inductive PlayerColor
  | either
  | white
  | black
  deriving DecidableEq

inductive GameSortColumn
  | id
  | white
  | black
  | result
  | event
  | date
  | eco
  deriving DecidableEq

def defaultSearchLimit : ℕ := 100

structure SearchFilter where
  playerName : Option String := none
  playerColor : PlayerColor := .either
  minElo : Option Int32 := none
  maxElo : Option Int32 := none
  result : Option String := none
  ecoPrefix : Option String := none
  position : Option UInt64 := none
  offset : ℕ := 0
  limit : ℕ := defaultSearchLimit
  sortColumn : GameSortColumn := .id
  sortAscending : Bool := true
  deriving DecidableEq

/-- Whether the filter asks for more than a position. -/
def SearchFilter.hasMetadataFilter (filter : SearchFilter) : Bool :=
  filter.playerName.isSome || filter.result.isSome || filter.ecoPrefix.isSome ||
    filter.minElo.isSome || filter.maxElo.isSome

end MotifChess.Db
