/- GID: MotifChess/Search/OpeningTree/Open
   generality: implementation
   digest: Opening a tree: boards placed forward, nodes built bottom-up and moved to their parents. -/

import MotifChess.Search.OpeningTree.Slice
import Mathlib.Data.Prod.Lex
import Mathlib.Data.String.Basic

set_option autoImplicit false
set_option relaxedAutoImplicit false

namespace MotifChess.Search.OpeningTree

open MotifChess.Db MotifChess.Order

structure ContinuationStats where
  san : String
  resultHash : UInt64
  frequency : ℕ
  whiteWins : ℕ
  draws : ℕ
  blackWins : ℕ
  averageWhiteElo : Option ℚ
  averageBlackElo : Option ℚ
  eco : Option String
  openingName : Option String
  eloWeightedScore : ℚ
  deriving DecidableEq

/-- A node with its continuations. A subtree is a pointer that owns its node, so it can be null. -/
inductive Node
  | mk (zobristHash : UInt64) (continuations : List (ContinuationStats × Option Node))
      (isExpanded : Bool)

abbrev NodeContinuation := ContinuationStats × Option Node

namespace Node

def zobristHash : Node → UInt64
  | mk hash _ _ => hash

def continuations : Node → List NodeContinuation
  | mk _ continuations _ => continuations

def isExpanded : Node → Bool
  | mk _ _ expanded => expanded

end Node

structure Tree where
  root : Node
  prefetchDepth : ℕ

def averageElo (sum : ℤ) (count : ℕ) : Option ℚ := if count = 0 then none else some (sum / count)

/-- `build_continuation`, less the subtree. -/
def buildContinuation (rules : Chess.Rules) (position : rules.Board) (a : ContinuationAggregate) :
    ContinuationStats where
  san := rules.san position a.encodedMove
  resultHash := a.resultHash
  frequency := a.frequency
  whiteWins := a.whiteWins
  draws := a.draws
  blackWins := a.blackWins
  averageWhiteElo := averageElo a.whiteEloSum a.whiteEloCount
  averageBlackElo := averageElo a.blackEloSum a.blackEloCount
  eco := a.eco
  openingName := a.openingName
  eloWeightedScore := if 0 < a.eloWeightSum then a.weightedContribSum / a.eloWeightSum else 0

def continuationRank (stats : ContinuationStats) : ℕᵒᵈ ×ₗ String :=
  toLex (OrderDual.toDual stats.frequency, stats.san)

/-- Most frequent continuations first, equally frequent ones by their move text. -/
def sortContinuations (continuations : List NodeContinuation) : List NodeContinuation :=
  sortBy (fun c => continuationRank c.1) continuations

section Linking

/-- The nodes that are built, each null from when it was moved into a parent. -/
abbrev BuiltNodes := List (NodeKey × Option Node)

def childKey (depth : ℕ) (stats : ContinuationStats) : NodeKey := ⟨depth + 1, stats.resultHash⟩

def moveOut (key : NodeKey) (built : BuiltNodes) : BuiltNodes :=
  built.map fun entry => if entry.1 = key then (entry.1, none) else entry

/-- A node without continuations, for a position that the slice does not continue from. -/
def leaf (maxDepth depth : ℕ) (stats : ContinuationStats) : Node :=
  .mk stats.resultHash [] (depth < maxDepth)

/-- The subtree of a continuation: the built node of its position, moved out of the map. -/
def linkContinuation (maxDepth depth : ℕ) (built : BuiltNodes) (stats : ContinuationStats) :
    BuiltNodes × NodeContinuation :=
  match built.lookup (childKey depth stats) with
  | some subtree => (moveOut (childKey depth stats) built, (stats, subtree))
  | none => (built, (stats, some (leaf maxDepth depth stats)))

def linkContinuations (maxDepth depth : ℕ) (built : BuiltNodes) :
    List ContinuationStats → BuiltNodes × List NodeContinuation
  | [] => (built, [])
  | stats :: rest =>
    let (built, continuation) := linkContinuation maxDepth depth built stats
    let (built, continuations) := linkContinuations maxDepth depth built rest
    (built, continuation :: continuations)

/-- One step of the build: the node of a key, with the continuations of its aggregate. -/
def buildNode (maxDepth : ℕ) (stats : NodeKey → List ContinuationStats) (built : BuiltNodes)
    (key : NodeKey) : BuiltNodes :=
  let (built, continuations) := linkContinuations maxDepth key.depth built (stats key)
  (key, some (.mk key.parentHash (sortContinuations continuations) true)) :: built

end Linking

section Opening

variable (rules : Chess.Rules)

def keyRank (key : NodeKey) : ℕ ×ₗ ℕ := toLex (key.depth, key.parentHash.toNat)

/-- The keys of the slice by ascending depth and hash. -/
def sortedKeys (nodes : NodeAggregates) : List NodeKey := sortBy keyRank (nodes.map Prod.fst)

/-- Code and name of the opening of each continuation, from its sample game. -/
def attributeOpenings (contexts : List (UInt32 × GameContext)) (nodes : NodeAggregates) :
    NodeAggregates :=
  nodes.map fun entry => (entry.1, { entry.2 with
    continuations := entry.2.continuations.map fun a =>
      match contexts.lookup a.sampleGameId with
      | none => a
      | some context => { a with eco := context.eco, openingName := context.openingName } })

def sampleIds (nodes : NodeAggregates) : List UInt32 :=
  (nodes.flatMap fun entry => entry.2.sampleGameId ::
    entry.2.continuations.map ContinuationAggregate.sampleGameId).dedup

/-- The board of the root, from the first sample that plays on from it. -/
def rootBoard (rootHash : UInt64) (contexts : List (UInt32 × GameContext)) (nodes : NodeAggregates) :
    Result rules.Board :=
  match nodes.lookup ⟨1, rootHash⟩ with
  | none => .error .ioFailure
  | some node =>
    if node.sampleRootPly = 0 then .ok rules.start
    else
      match contexts.lookup node.sampleGameId with
      | none => .error .ioFailure
      | some context =>
        match rules.replay context.moves node.sampleRootPly with
        | none => .error .ioFailure
        | some board => .ok board

/-- The boards of the positions that a node leads to, unless they are known. -/
def placeContinuations (parent : rules.Board) (boards : List (UInt64 × rules.Board))
    (continuations : List ContinuationAggregate) : List (UInt64 × rules.Board) :=
  continuations.foldl (fun boards a =>
    if (boards.lookup a.resultHash).isSome then boards
    else boards ++ [(a.resultHash, rules.applyEncodedMove parent a.encodedMove)]) boards

def placeBoards (nodes : NodeAggregates) (boards : List (UInt64 × rules.Board)) :
    List NodeKey → Result (List (UInt64 × rules.Board))
  | [] => .ok boards
  | key :: keys =>
    match boards.lookup key.parentHash, nodes.lookup key with
    | some parent, some node =>
      placeBoards nodes (placeContinuations rules parent boards node.continuations) keys
    | _, _ => .error .ioFailure

/-- The continuations of a node, told from the board of its position. -/
def nodeStats (nodes : NodeAggregates) (boards : List (UInt64 × rules.Board)) (key : NodeKey) :
    List ContinuationStats :=
  match boards.lookup key.parentHash, nodes.lookup key with
  | some position, some node => node.continuations.map (buildContinuation rules position)
  | _, _ => []

/-- Build the nodes from the deepest ones up. -/
def buildNodes (maxDepth : ℕ) (nodes : NodeAggregates) (boards : List (UInt64 × rules.Board)) :
    BuiltNodes :=
  (sortedKeys nodes).reverse.foldl (buildNode maxDepth (nodeStats rules nodes boards)) []

/-- The slice that a tree is built from: the aggregated nodes, and the boards of their positions. -/
structure Slice where
  nodes : NodeAggregates
  boards : List (UInt64 × rules.Board)

/-- A failed database read is an I/O failure of the search. -/
def ioResult {α : Type} (r : Result α) : Result α := r.mapError fun _ => .ioFailure

/-- The slice of a root that games continue from. The occurrences are grouped in a hash table, so
they come in an unspecified order. -/
def aggregateSlice (order : List (List TreePositionRow) → List (List TreePositionRow))
    (database : Database) (rootHash : UInt64) (rows : List (List TreePositionRow)) :
    Result (Slice rules) := do
  let nodes := aggregate rootHash (order rows)
  let contexts ← ioResult (database.getGameContexts (sampleIds nodes))
  let board ← rootBoard rules rootHash contexts nodes
  let boards ← placeBoards rules nodes [(rootHash, board)] (sortedKeys nodes)
  return ⟨attributeOpenings contexts nodes, boards⟩

/-- The games that a filter keeps among those that reach the root: none when there is no filter,
and an empty list in the option when the filter keeps none. -/
def allowedGames (database : Database) (rootHash : UInt64) (filter : SearchFilter) :
    Result (Option (List UInt32)) :=
  if !filter.hasMetadataFilter then .ok none
  else do
    let ids ← ioResult (database.positionGameIds rootHash)
    if ids.isEmpty then return some []
    let filtered ← ioResult (database.findGameIdsWithFilter ids { filter with position := none })
    return some filtered

/-- The slice to build a tree from, if there is anything below the root. -/
def openSlice (order : List (List TreePositionRow) → List (List TreePositionRow))
    (database : Database) (rootHash : UInt64) (prefetchDepth : ℕ) (filter : SearchFilter) :
    Result (Option (Slice rules)) :=
  if prefetchDepth = 0 then .ok none
  else if 65535 < prefetchDepth then .error .invalidArgument
  else do
    let allowed ← allowedGames database rootHash filter
    if allowed = some [] then return none
    let rows ← ioResult (queryTreeSlice rules database rootHash prefetchDepth (allowed.getD []))
    if rows.isEmpty then return none
    let slice ← aggregateSlice rules order database rootHash rows
    return some slice

def buildTree (rootHash : UInt64) (prefetchDepth : ℕ) (slice : Slice rules) : Result Tree :=
  match (buildNodes rules prefetchDepth slice.nodes slice.boards).lookup ⟨1, rootHash⟩ with
  | some (some root) => .ok ⟨.mk rootHash root.continuations true, prefetchDepth⟩
  | _ => .error .ioFailure

/-- `opening_tree::open`, with or without a filter. -/
def openTree (order : List (List TreePositionRow) → List (List TreePositionRow))
    (database : Database) (rootHash : UInt64) (prefetchDepth : ℕ) (filter : SearchFilter) :
    Result Tree := do
  match ← openSlice rules order database rootHash prefetchDepth filter with
  | none => return ⟨.mk rootHash [] (prefetchDepth != 0), prefetchDepth⟩
  | some slice => buildTree rules rootHash prefetchDepth slice

end Opening

end MotifChess.Search.OpeningTree
