/- GID: MotifChess/Db/Bundle/OpeningQueries
   generality: implementation
   digest: The unfiltered opening query, and when it passes on every failed postings lookup. -/

import MotifChess.Db.Bundle.Freshness
import MotifChess.Db.OpeningTreeIndex.Validation
import MotifChess.System.Stateful
import Std.Data.TreeMap

set_option autoImplicit false
set_option relaxedAutoImplicit false

namespace MotifChess.Db

open OpeningTreeIndex PositionPostings
open MotifChess.System (Stateful)

section Lookups

/-- What reading so many bytes at an offset of an artifact gives; any read may fail. -/
abbrev ArtifactRead := ℕ → ℕ → Result (List UInt8)

variable (read : ArtifactRead)

def readBlock (sparse : SparseEntry) : Result (List DirectoryBlockEntry) := do
  let block ← read sparse.blockOffset sparse.blockByteLength
  decodeDirectoryBlock block

def findEntry (sparseDirectory : List SparseEntry) (hash : ℕ) :
    Result (Option DirectoryBlockEntry) :=
  match findSparseBlock sparseDirectory hash with
  | none => .ok none
  | some sparse => do
    let entries ← readBlock read sparse
    return Order.Bisection.findKey DirectoryBlockEntry.hash entries hash

variable (reader : Reader)

/-- `position_postings::summary`. -/
def lookupSummary (hash : ℕ) : Result (Option PositionPostingsSummary) := do
  let entry ← findEntry read reader.sparseDirectory hash
  return entry.map DirectoryBlockEntry.summary

/-- `position_postings::distinct_game_ids`. -/
def lookupGameIds (hash : ℕ) : Result (List UInt32) := do
  match ← findEntry read reader.sparseDirectory hash with
  | none => return []
  | some entry =>
    let bytes ← read entry.postingOffset entry.postingByteLength
    let gameIds ← decodePostingBlockGameIds bytes entry
    gameIds.forM fun id => do
      let _ ← findMetadata reader.metadata id
    return gameIds

/-- `position_postings::occurrences`, all of them. -/
def lookupOccurrences (hash : ℕ) : Result (List PositionMatch) := do
  match ← findEntry read reader.sparseDirectory hash with
  | none => return []
  | some entry =>
    let bytes ← read entry.postingOffset entry.postingByteLength
    let decoded ← decodePostingBlockWindow bytes entry 0 0
    decoded.mapM (matchOccurrence reader.metadata)

variable {reader} (file : List UInt8) (hash : ℕ)

theorem lookupSummary_readAt : lookupSummary (readAt file) reader hash = reader.summary file hash :=
  rfl

theorem lookupGameIds_readAt :
    lookupGameIds (readAt file) reader hash = reader.distinctGameIds file hash := rfl

theorem lookupOccurrences_readAt :
    lookupOccurrences (readAt file) reader hash = reader.occurrences file hash 0 0 := rfl

end Lookups

section Monitor

/-- A query, and whether a lookup in the postings has failed in it so far. -/
abbrev OpeningQuery (α : Type) := Stateful Bool ErrorCode α

/-- The outcome of a lookup, which the query goes on to inspect. -/
def look {α : Type} (found : Result α) : OpeningQuery (Result α) := fun failed =>
  (.ok found, failed || !found.isOk)

/-- Go on with an outcome, or return its error. -/
def orReturn {α : Type} : Result α → OpeningQuery α
  | .ok a => pure a
  | .error e => Stateful.fail e

end Monitor

section Aggregation

/-- The first of the plies at which a game plays an edge, with its occurrence. -/
structure DirectContribution where
  rootPly : UInt16
  found : PositionMatch

structure FilteredEdgeAggregate where
  rootPly : UInt16 := 0
  frequency : UInt32 := 0
  whiteWins : UInt32 := 0
  draws : UInt32 := 0
  blackWins : UInt32 := 0
  whiteEloSum : ℤ := 0
  whiteEloCount : UInt32 := 0
  blackEloSum : ℤ := 0
  blackEloCount : UInt32 := 0
  weightedContribSum : Float := 0
  eloWeightSum : Float := 0
  ecoSampleMin : UInt32 := 0
  ecoSampleMax : UInt32 := 0

/-- A game, a move and the hash behind it, in the order of their map. -/
abbrev ContributionKey := UInt32 × UInt16 × UInt64

def compareContributions (a b : ContributionKey) : Ordering :=
  (compare a.1 b.1).then ((compare a.2.1 b.2.1).then (compare a.2.2 b.2.2))

def compareEdges (a b : UInt16 × UInt64) : Ordering :=
  (compare a.1 b.1).then (compare a.2 b.2)

abbrev DirectContributions := Std.TreeMap ContributionKey DirectContribution compareContributions

abbrev EdgeAggregates := Std.TreeMap (UInt16 × UInt64) FilteredEdgeAggregate compareEdges

variable (rules : Chess.Rules)

/-- The edge that an occurrence leads into, when its game is allowed and goes on. -/
def addContribution (allowedGameIds : List UInt32) (contexts : List (UInt32 × List UInt16))
    (contributions : DirectContributions) (o : PositionMatch) : Result DirectContributions :=
  if !Order.Bisection.binarySearch UInt32.toNat allowedGameIds o.gameId.toNat then
    .ok contributions
  else
    match contexts.lookup o.gameId with
    | none => .ok contributions
    | some moves =>
      match moves[o.ply.toNat]? with
      | none => .ok contributions
      | some encodedMove =>
        match rules.replay moves (o.ply + 1) with
        | none => .error .ioFailure
        | some child =>
          .ok (contributions.alter (o.gameId, encodedMove, rules.hash child) fun entry =>
            match entry with
            | none => some ⟨o.ply, o⟩
            | some entry => some (if o.ply < entry.rootPly then ⟨o.ply, o⟩ else entry))

def FilteredEdgeAggregate.noteResult (result : ℤ) (a : FilteredEdgeAggregate) :
    FilteredEdgeAggregate :=
  if result > 0 then { a with whiteWins := a.whiteWins + 1 }
  else if result < 0 then { a with blackWins := a.blackWins + 1 }
  else { a with draws := a.draws + 1 }

def FilteredEdgeAggregate.noteElo (o : PositionMatch) (a : FilteredEdgeAggregate) :
    FilteredEdgeAggregate :=
  let a := match o.whiteElo with
    | none => a
    | some elo => { a with
      whiteEloSum := a.whiteEloSum + elo.toInt, whiteEloCount := a.whiteEloCount + 1 }
  let a := match o.blackElo with
    | none => a
    | some elo => { a with
      blackEloSum := a.blackEloSum + elo.toInt, blackEloCount := a.blackEloCount + 1 }
  match o.whiteElo, o.blackElo with
  | some white, some black =>
    let averageElo := (Float.ofInt white.toInt + Float.ofInt black.toInt) / 2
    { a with
      weightedContribSum := a.weightedContribSum + Float.ofInt o.result * averageElo
      eloWeightSum := a.eloWeightSum + averageElo }
  | _, _ => a

def FilteredEdgeAggregate.add (gameKey : UInt32) (contribution : DirectContribution)
    (a : FilteredEdgeAggregate) : FilteredEdgeAggregate :=
  let a := if a.frequency = 0 then
      { a with rootPly := contribution.rootPly, ecoSampleMin := gameKey, ecoSampleMax := gameKey }
    else a
  let a := { a with
    rootPly := min a.rootPly contribution.rootPly
    ecoSampleMin := min a.ecoSampleMin gameKey
    ecoSampleMax := max a.ecoSampleMax gameKey }
  let a := (a.noteResult contribution.found.result).noteElo contribution.found
  { a with frequency := a.frequency + 1 }

def aggregateEdges (contributions : DirectContributions) : EdgeAggregates :=
  contributions.toList.foldl (fun aggregates entry =>
    aggregates.alter entry.1.2 fun a => some ((a.getD {}).add entry.1.1 entry.2)) ∅

def average (sum : ℤ) (count : UInt32) : Option Float :=
  if count = 0 then none else some (Float.ofInt sum / Float.ofNat count.toNat)

def FilteredEdgeAggregate.row (edge : UInt16 × UInt64) (childGameCount : ℕ)
    (a : FilteredEdgeAggregate) : OpeningStatAggRow where
  contEncodedMove := edge.1
  contHash := edge.2
  rootPly := a.rootPly
  frequency := a.frequency
  transpositionFrequency := UInt32.ofNat childGameCount
  whiteWins := a.whiteWins
  draws := a.draws
  blackWins := a.blackWins
  avgWhiteElo := average a.whiteEloSum a.whiteEloCount
  avgBlackElo := average a.blackEloSum a.blackEloCount
  ecoSampleMin := a.ecoSampleMin
  ecoSampleMax := a.ecoSampleMax
  eloWeightedScore :=
    if a.eloWeightSum == 0 then none else some (a.weightedContribSum / a.eloWeightSum)

end Aggregation

section Query

/-- What a query reads while it runs: the postings artifact and the moves of games. -/
structure OpeningReads where
  postings : ArtifactRead
  getGameContexts : List UInt32 → Result (List (UInt32 × List UInt16))

variable (reads : OpeningReads)

/-- The distinct games that reach each child, looked up one after another. -/
def childGameCounts (postings : Reader) (childHashes : List UInt64) :
    OpeningQuery (Std.TreeMap UInt64 ℕ) :=
  childHashes.foldlM (fun counts childHash => do
    let summary ← look (lookupSummary reads.postings postings childHash.toNat)
    let summary ← orReturn summary
    return counts.insert childHash (summary.elim 0 PositionPostingsSummary.distinctGameCount)) ∅

variable (rules : Chess.Rules)

/-- `postings_filtered_opening_stats`, with global child frequencies. -/
def postingsFilteredOpeningStats (postings : Reader) (rootHash : UInt64)
    (allowedGameIds : List UInt32) : OpeningQuery (List OpeningStatAggRow) := do
  let allowedGameIds := allowedGameIds.mergeSort
  let occurrences ← look (lookupOccurrences reads.postings postings rootHash.toNat)
  let occurrences ← orReturn occurrences
  let contexts ← orReturn (reads.getGameContexts allowedGameIds)
  let contributions ← orReturn
    (occurrences.foldlM (addContribution rules allowedGameIds contexts) ∅)
  let aggregates := aggregateEdges contributions
  let childHashes := (Std.TreeSet.ofList (contributions.keys.map fun key => key.2.2)).toList
  let counts ← childGameCounts reads postings childHashes
  return aggregates.toList.map fun entry => entry.2.row entry.1 (counts.getD entry.1.2 0)

/-- The games that reach a position, and from them its statistics. -/
def queryPostings (postings : Reader) (hash : UInt64) :
    OpeningQuery (List OpeningStatAggRow) := do
  let gameIds ← look (lookupGameIds reads.postings postings hash.toNat)
  let gameIds ← orReturn gameIds
  postingsFilteredOpeningStats reads rules postings hash gameIds

/-- A lookup in the tree opens its file only for a position that it has. -/
def queryTree (tree : Index) (file : Option (List UInt8)) (hash : UInt64) :
    Result (List OpeningStatAggRow) :=
  match file with
  | some file => tree.queryOpeningStats file hash.toNat
  | none => if (tree.findNode hash.toNat).isSome then .error .ioFailure else .ok []

variable {rules}
  {buildTree : List ReplayGame → Reader → List UInt8 → Result (List UInt8)}

/-- The valid postings of an open bundle, and its valid tree index with the file of the tree. -/
def openingIndexes
    (b : Bundle (.ofRules rules Index buildTree (openIndex rules) Index.sourceGameCount)) :
    Option (Reader × Option (Index × Option (List UInt8))) := do
  let v ← b.view
  let (postings, _) ← v.postings
  return (postings, v.tree)

/-- `database_manager::query_unfiltered_opening_stats`. -/
def queryUnfilteredOpeningStats
    (b : Bundle (.ofRules rules Index buildTree (openIndex rules) Index.sourceGameCount))
    (hash : UInt64) : OpeningQuery (List OpeningStatAggRow) :=
  match openingIndexes b with
  | none => Stateful.fail .ioFailure
  | some (postings, none) => queryPostings reads rules postings hash
  | some (postings, some (tree, file)) =>
    if tree.isComplete hash.toNat then orReturn (queryTree tree file hash)
    else do
      let summary ← look (lookupSummary reads.postings postings hash.toNat)
      match summary with
      | .ok (some summary) =>
        if summary.maxPly > tree.maxRootPly then queryPostings reads rules postings hash
        else orReturn (queryTree tree file hash)
      | _ => return []

end Query

section FailClosed

variable {α β : Type}

/-- A run that answers has seen no lookup fail. -/
def Passes (x : OpeningQuery α) : Prop :=
  Stateful.Ensures (fun failed => failed = false) x (fun _ failed => failed = false) fun _ => True

theorem Passes.pure (a : α) : Passes (Pure.pure a : OpeningQuery α) :=
  Stateful.Ensures.pure fun _ hfailed => hfailed

theorem Passes.bind {x : OpeningQuery α} {f : α → OpeningQuery β} (hx : Passes x)
    (hf : ∀ a, Passes (f a)) : Passes (x >>= f) := Stateful.Ensures.bind hx hf

private theorem passes_orReturn (found : Result α) : Passes (orReturn found) := by
  cases found with
  | ok a => exact Passes.pure a
  | error e => exact Stateful.Ensures.fail fun _ _ => trivial

private theorem passes_look {found : Result α} {f : α → OpeningQuery β} (hf : ∀ a, Passes (f a)) :
    Passes (look found >>= fun r => orReturn r >>= f) := by
  cases found with
  | ok a =>
    intro failed hfailed
    subst hfailed
    exact hf a false rfl
  | error e =>
    intro failed _
    exact trivial

variable {reads : OpeningReads} {rules : Chess.Rules}

private theorem passes_childGameCounts (postings : Reader) (childHashes : List UInt64) :
    Passes (childGameCounts reads postings childHashes) := by
  unfold childGameCounts
  generalize (∅ : Std.TreeMap UInt64 ℕ) = counts
  induction childHashes generalizing counts with
  | nil => exact Passes.pure counts
  | cons childHash childHashes ih =>
    rw [List.foldlM_cons]
    refine Passes.bind ?_ ih
    exact passes_look fun summary => Passes.pure _

private theorem passes_queryPostings (postings : Reader) (hash : UInt64) :
    Passes (queryPostings reads rules postings hash) := by
  refine passes_look fun gameIds => ?_
  refine passes_look fun occurrences => ?_
  refine (passes_orReturn _).bind fun contexts => ?_
  refine (passes_orReturn _).bind fun contributions => ?_
  refine (passes_childGameCounts postings _).bind fun counts => ?_
  exact Passes.pure _

variable {buildTree : List ReplayGame → Reader → List UInt8 → Result (List UInt8)}

/-- Whenever a lookup in the postings fails, so does the query. -/
def FailsClosed (reads : OpeningReads)
    (b : Bundle (.ofRules rules Index buildTree (openIndex rules) Index.sourceGameCount))
    (hash : UInt64) : Prop :=
  ∀ rows failed, queryUnfilteredOpeningStats reads b hash false = (.ok rows, failed) →
    failed = false

/-- Where the tree is valid and does not hold the whole position, the directory block in which the
position belongs can be read and decoded. -/
def SummaryReadable (reads : OpeningReads)
    (b : Bundle (.ofRules rules Index buildTree (openIndex rules) Index.sourceGameCount))
    (hash : UInt64) : Prop :=
  ∀ postings tree file, openingIndexes b = some (postings, some (tree, file)) →
    tree.isComplete hash.toNat = false →
      ∀ sparse, findSparseBlock postings.sparseDirectory hash.toNat = some sparse →
        ∃ entries, readBlock reads.postings sparse = .ok entries

private theorem lookupSummary_isOk_iff {read : ArtifactRead} {reader : Reader} {hash : ℕ} :
    (∃ summary, lookupSummary read reader hash = .ok summary) ↔
      ∀ sparse, findSparseBlock reader.sparseDirectory hash = some sparse →
        ∃ entries, readBlock read sparse = .ok entries := by
  unfold lookupSummary findEntry
  cases findSparseBlock reader.sparseDirectory hash with
  | none =>
    simp only [reduceCtorEq, false_implies, implies_true, iff_true]
    exact ⟨none, rfl⟩
  | some sparse =>
    simp only [Option.some.injEq, forall_eq']
    cases readBlock read sparse with
    | ok entries =>
      constructor
      · intro _
        exact ⟨entries, rfl⟩
      · intro _
        exact ⟨_, rfl⟩
    | error e =>
      constructor
      · intro h
        obtain ⟨_, h⟩ := h
        cases h
      · intro h
        obtain ⟨_, h⟩ := h
        cases h

variable {b : Bundle (.ofRules rules Index buildTree (openIndex rules) Index.sourceGameCount)}
  {hash : UInt64}

private theorem query_of_summary_error {postings : Reader} {tree : Index} {file : Option (List UInt8)}
    {e : ErrorCode} (hindexes : openingIndexes b = some (postings, some (tree, file)))
    (hcomplete : tree.isComplete hash.toNat = false)
    (hsummary : lookupSummary reads.postings postings hash.toNat = .error e) :
    queryUnfilteredOpeningStats reads b hash false = (.ok [], true) := by
  unfold queryUnfilteredOpeningStats
  rw [hindexes]
  simp only [hcomplete, hsummary, Bool.false_eq_true, if_false]
  rfl

private theorem passes_of_summaryReadable (h : SummaryReadable reads b hash) :
    Passes (queryUnfilteredOpeningStats reads b hash) := by
  unfold queryUnfilteredOpeningStats
  rcases hindexes : openingIndexes b with _ | ⟨postings, _ | ⟨tree, file⟩⟩
  · exact Stateful.Ensures.fail fun _ _ => trivial
  · exact passes_queryPostings postings hash
  · cases hcomplete : tree.isComplete hash.toNat with
    | true =>
      simp only [hcomplete, if_true]
      exact passes_orReturn _
    | false =>
      have hread := h postings tree file hindexes hcomplete
      obtain ⟨summary, hsummary⟩ := lookupSummary_isOk_iff.mpr hread
      simp only [hcomplete, Bool.false_eq_true, if_false, hsummary]
      intro failed hfailed
      subst hfailed
      cases summary with
      | none => rfl
      | some summary =>
        have hrest : Passes (if summary.maxPly > tree.maxRootPly then
            queryPostings reads rules postings hash
          else orReturn (queryTree tree file hash)) := by
          split
          · exact passes_queryPostings postings hash
          · exact passes_orReturn _
        exact hrest false rfl

/-- The query passes every failed lookup on but that of the summary, which it takes for a position
that no game reaches. -/
theorem failsClosed_iff (reads : OpeningReads)
    (b : Bundle (.ofRules rules Index buildTree (openIndex rules) Index.sourceGameCount))
    (hash : UInt64) : FailsClosed reads b hash ↔ SummaryReadable reads b hash := by
  constructor
  · intro h postings tree file hindexes hcomplete
    apply lookupSummary_isOk_iff.mp
    cases hsummary : lookupSummary reads.postings postings hash.toNat with
    | ok summary => exact ⟨summary, rfl⟩
    | error e =>
      have hquery := query_of_summary_error hindexes hcomplete hsummary
      cases h [] true hquery
  · intro h rows failed hquery
    exact Stateful.Ensures.of_ok (passes_of_summaryReadable h) rfl hquery

end FailClosed

section Sample

/-- An entered game with both of its indexes. -/
def indexedBundle : Bundle (.ofRules .ofSums Index (fun _ _ _ => .ok sampleFile)
    (openIndex .ofSums) Index.sourceGameCount) :=
  let b := ((Bundle.created "sample" "2024-01-01T00:00:00Z").open {}).1
  let b := (b.insertGame (fun _ => 0) {} true Bundle.enteredGame).1
  ((b.rebuildPositionPostings {}).1.rebuildOpeningTreeIndex {}).1

/-- Reads of the postings of the sample after something has happened to their file. -/
def sampleReads (damage : List UInt8 → List UInt8) : OpeningReads where
  postings := readAt (damage ((indexedBundle.disk.files (.artifact .postings 1)).getD []))
  getGameContexts ids := .ok (ids.map fun id => (id, [5, 7]))

/-- The moves of the answer to a query, and whether a lookup has failed in it. -/
def askedMoves (reads : OpeningReads) (hash : UInt64) : Result (List UInt16) × Bool :=
  let answer := queryUnfilteredOpeningStats reads indexedBundle hash false
  (answer.1.map fun rows => rows.map OpeningStatAggRow.contEncodedMove, answer.2)

/-- With the postings cut behind their header, a position with a continuation seems to have none. -/
theorem not_failsClosed : askedMoves (sampleReads id) 5 = (.ok [7], false) ∧
    ¬FailsClosed (sampleReads (·.take PositionPostings.fixedHeaderSize)) indexedBundle 5 := by
  refine ⟨by decide +kernel, fun h => ?_⟩
  have hasked : askedMoves (sampleReads (·.take PositionPostings.fixedHeaderSize)) 5 =
      (.ok [], true) := by
    decide +kernel
  obtain ⟨hrows, hfailed⟩ := Prod.mk.inj hasked
  cases hanswer : queryUnfilteredOpeningStats
      (sampleReads (·.take PositionPostings.fixedHeaderSize)) indexedBundle 5 false with
  | mk rows failed =>
    rw [hanswer] at hrows hfailed
    cases rows with
    | error e => cases hrows
    | ok rows =>
      subst hfailed
      cases h rows true hanswer

end Sample

end MotifChess.Db
