/- GID: MotifChess/Import/ImportWorker
   generality: implementation
   digest: Turning a parsed game into a stored one: its fields, its extra tags and its moves. -/

import MotifChess.Chess.Rules
import MotifChess.Import.Pgn
import MotifChess.Db.Store.GameWriter

set_option autoImplicit false
set_option relaxedAutoImplicit false

namespace MotifChess.Import

open MotifChess.Chess MotifChess.Db MotifChess.Db.Store

inductive ErrorCode
  | ioFailure
  | invalidState
  | eof
  | parseError
  | duplicate
  | notFound
  | emptyGame
  deriving DecidableEq

/-- The tags that have columns of their own. -/
def knownTagKeys : List String :=
  ["White", "Black", "WhiteElo", "BlackElo", "WhiteTitle", "BlackTitle", "Event", "Site", "Date",
    "Result", "ECO"]

def isKnownTag (key : String) : Bool := knownTagKeys.contains key

/-- A tag that is missing or empty says nothing. -/
def nonempty (raw : String) : Option String := if raw = "" then none else some raw

def validDate (raw : String) : Option String :=
  if raw ≠ "" ∧ raw ≠ "????.??.??" then some raw else none

/-- `extract_game`, before the moves are there. -/
def extractGame (pgn : PgnGame) : Game where
  white :=
    { name := findTag pgn.tags "White"
      elo := (parseElo (findTag pgn.tags "WhiteElo")).map Int16.toInt32
      title := nonempty (findTag pgn.tags "WhiteTitle")
      country := none }
  black :=
    { name := findTag pgn.tags "Black"
      elo := (parseElo (findTag pgn.tags "BlackElo")).map Int16.toInt32
      title := nonempty (findTag pgn.tags "BlackTitle")
      country := none }
  eventDetails := (nonempty (findTag pgn.tags "Event")).map fun name =>
    { name
      site := nonempty (findTag pgn.tags "Site")
      date := validDate (findTag pgn.tags "Date") }
  date := validDate (findTag pgn.tags "Date")
  result := pgnResultToString pgn.result
  eco := nonempty (findTag pgn.tags "ECO")
  moves := []
  extraTags := pgn.tags.filter fun tag => !isKnownTag tag.1

/-- The encodings of a line of moves in text form, unless one of them is rejected. -/
def applySans (rules : Rules) : rules.Board → List String → Option (List UInt16)
  | _, [] => some []
  | board, san :: sans => (rules.applySan board san).bind fun (board, move) =>
    (applySans rules board sans).map (move :: ·)

theorem length_applySans {rules : Rules} {board : rules.Board} {sans : List String}
    {moves : List UInt16} (h : applySans rules board sans = some moves) : moves.length = sans.length := by
  induction sans generalizing board moves with
  | nil =>
    obtain rfl := Option.some.inj h
    rfl
  | cons san sans ih =>
    obtain ⟨⟨next, move⟩, -, hmap⟩ := Option.bind_eq_some_iff.mp h
    dsimp only at hmap
    obtain ⟨rest, hrest, rfl⟩ := Option.map_eq_some_iff.mp hmap
    rw [List.length_cons, List.length_cons, ih hrest]

variable {moveHash : List UInt16 → UInt64}

/-- `import_worker::process`; `prepared` is the answer of `prepare_canonical_mutation`. -/
def process (rules : Rules) (prepared : Bool) (pgn : PgnGame) (s : CallState moveHash) :
    Except ErrorCode ℕ × CallState moveHash :=
  if pgn.moves = [] then (.error .emptyGame, s)
  else if 65535 < pgn.moves.length then (.error .ioFailure, s)
  else
    match applySans rules rules.start pgn.moves with
    | none => (.error .parseError, s)
    | some moves =>
      if !prepared then (.error .ioFailure, s)
      else
        match Store.insert false { extractGame pgn with moves } s with
        | (.ok id, s) => (.ok id, s)
        | (.error .duplicate, s) => (.error .duplicate, s)
        | (.error _, s) => (.error .ioFailure, s)

/-- The import stores a game exactly when there are moves, not too many, all of them are read, and
the store accepts the game. -/
theorem process_eq_ok {rules : Rules} {pgn : PgnGame} {s t : CallState moveHash} {id : ℕ} :
    process rules true pgn s = (.ok id, t) ↔ pgn.moves ≠ [] ∧ pgn.moves.length ≤ 65535 ∧
      ∃ moves, applySans rules rules.start pgn.moves = some moves ∧
        Store.insert false { extractGame pgn with moves } s = (.ok id, t) := by
  unfold process
  by_cases hempty : pgn.moves = []
  · simp [hempty]
  by_cases hlong : 65535 < pgn.moves.length
  · simp [hempty, hlong, Nat.not_le.mpr hlong]
  rw [if_neg hempty, if_neg hlong]
  cases hsans : applySans rules rules.start pgn.moves with
  | none => simp
  | some moves =>
    have hmoves : (pgn.moves ≠ [] ∧ pgn.moves.length ≤ 65535) ↔ True :=
      iff_true_intro ⟨hempty, Nat.not_lt.mp hlong⟩
    rw [← and_assoc, hmoves, true_and]
    simp only [Bool.not_true, Bool.false_eq_true, if_false, Option.some.injEq, exists_eq_left']
    split
    next heq => simp [heq]
    next heq => simp [heq]
    next error _ _ heq => simp [heq]

end MotifChess.Import
