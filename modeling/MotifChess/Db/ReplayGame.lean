/- GID: MotifChess/Db/ReplayGame
   generality: implementation
   digest: The replay records of the stored games, and the postings that are built from them. -/

import MotifChess.Chess.Rules
import MotifChess.Db.GameTable
import MotifChess.Db.PositionPostings.Build
import Mathlib.Data.List.Perm.Subperm

set_option autoImplicit false
set_option relaxedAutoImplicit false

namespace MotifChess.Db

/-- What the replay-based indexes read of a game. -/
structure ReplayGame where
  id : ℕ
  result : String
  whiteElo : Option Int32
  blackElo : Option Int32
  moves : List UInt16
  deriving DecidableEq

/-- `for_each_replay_game`: the games in ascending order of their ids. -/
def Tables.replayGames (t : Tables) : List ReplayGame :=
  t.games.map fun row =>
    ⟨row.id, row.readResult, row.stored.whiteElo, row.stored.blackElo, row.stored.moves⟩

def Tables.countGames (t : Tables) : ℕ := t.games.length

@[simp] theorem Tables.length_replayGames (t : Tables) : t.replayGames.length = t.countGames :=
  List.length_map _

theorem length_lt_of_ids {games : List ReplayGame} {bound : ℕ} (hbound : 0 < bound)
    (hnodup : (games.map ReplayGame.id).Nodup) (hids : ∀ game ∈ games, 0 < game.id ∧ game.id < bound) :
    games.length < bound := by
  have hsub : games.map ReplayGame.id ⊆ List.range' 1 (bound - 1) := by
    intro id hid
    obtain ⟨game, hgame, rfl⟩ := List.mem_map.mp hid
    have hrange := hids game hgame
    rw [List.mem_range'_1]
    omega
  have hle := (hnodup.subperm hsub).length_le
  rw [List.length_map, List.length_range'] at hle
  omega

namespace PositionPostings

def defaultSpillThreshold : ℕ := 1048576

def resultCode (result : String) : ℤ :=
  if result = "1-0" then 1 else if result = "0-1" then -1 else 0

variable (rules : Chess.Rules)

/-- The rows of the positions after the given moves, from a ply on. -/
def rowsAfter (row : PositionRow) (board : rules.Board) (ply : ℕ) : List UInt16 → List PositionRow
  | [] => []
  | move :: moves =>
    let board := rules.applyEncodedMove board move
    { row with
      zobristHash := rules.hash board
      ply := UInt16.ofNat ply
      encodedMove := move } :: rowsAfter row board (ply + 1) moves

/-- One row for each position of a game: its start and the position after each move. -/
def replayRows (game : ReplayGame) : Result (List PositionRow) := do
  let whiteElo ← narrowElo game.whiteElo
  let blackElo ← narrowElo game.blackElo
  if 65535 < game.moves.length then .error .ioFailure
  else
    let row : PositionRow :=
      ⟨rules.hash rules.start, UInt32.ofNat game.id, 0, 0, resultCode game.result, whiteElo, blackElo⟩
    return row :: rowsAfter rules row rules.start 1 game.moves

/-- Whether no file of the build outgrows the offsets of a stream, where its writes fail. -/
def Builder.streamsFit (b : Builder) : Bool :=
  b.spillCurrentBuffer.spillFiles.all (fun file => file.length < 2 ^ 63) &&
    (stageArtifact b.spillCurrentBuffer).toOption.all fun file => file.length < 2 ^ 63

def appendGame (b : Builder) (game : ReplayGame) : Result Builder := do
  let rows ← replayRows rules game
  b.append rows

/-- `position_postings::build` over the replayed games. -/
def build (spillThreshold : ℕ) (games : List ReplayGame) : Result (List UInt8) := do
  let b ← games.foldlM (appendGame rules) (Builder.new spillThreshold)
  if games.length ≠ b.indexedGameCount then .error .ioFailure
  else if !b.streamsFit then .error .ioFailure
  else b.finalize

end PositionPostings

end MotifChess.Db
