/- GID: MotifChess/Db/Bundle/OpeningReads
   generality: implementation
   digest: On readable postings the query that watches its lookups counts what the exact one counts. -/

import MotifChess.Db.Bundle.Contributions

/-! The query that watches its lookups adds up its averages in floating point, the exact one in
rational numbers. They agree in everything else. -/

set_option autoImplicit false
set_option relaxedAutoImplicit false

namespace MotifChess.Db

open MotifChess.Order OpeningTreeIndex PositionPostings
open MotifChess.System (Stateful)

section Counts

/-- What is counted of an edge. -/
structure EdgeCounts where
  rootPly : UInt16
  frequency : UInt32
  whiteWins : UInt32
  draws : UInt32
  blackWins : UInt32
  ecoSampleMin : UInt32
  ecoSampleMax : UInt32

/-- A row without its averages. -/
structure RowCounts extends EdgeCounts where
  contEncodedMove : UInt16
  contHash : UInt64
  transpositionFrequency : UInt32

def FilteredEdgeAggregate.counts (a : FilteredEdgeAggregate) : EdgeCounts :=
  ⟨a.rootPly, a.frequency, a.whiteWins, a.draws, a.blackWins, a.ecoSampleMin, a.ecoSampleMax⟩

def ExactEdgeAggregate.counts (a : ExactEdgeAggregate) : EdgeCounts :=
  ⟨a.rootPly, a.frequency, a.whiteWins, a.draws, a.blackWins, a.ecoSampleMin, a.ecoSampleMax⟩

def OpeningTreeIndex.OpeningStatAggRow.counts (row : OpeningStatAggRow) : RowCounts where
  rootPly := row.rootPly
  frequency := row.frequency
  whiteWins := row.whiteWins
  draws := row.draws
  blackWins := row.blackWins
  ecoSampleMin := row.ecoSampleMin
  ecoSampleMax := row.ecoSampleMax
  contEncodedMove := row.contEncodedMove
  contHash := row.contHash
  transpositionFrequency := row.transpositionFrequency

def ExactStatRow.counts (row : ExactStatRow) : RowCounts where
  rootPly := row.rootPly
  frequency := row.frequency
  whiteWins := row.whiteWins
  draws := row.draws
  blackWins := row.blackWins
  ecoSampleMin := row.ecoSampleMin
  ecoSampleMax := row.ecoSampleMax
  contEncodedMove := row.contEncodedMove
  contHash := row.contHash
  transpositionFrequency := row.transpositionFrequency

private theorem counts_noteElo (o : PositionMatch) (a : FilteredEdgeAggregate) :
    (a.noteElo o).counts = a.counts := by
  rw [FilteredEdgeAggregate.noteElo]
  cases o.whiteElo <;> cases o.blackElo <;> rfl

private theorem counts_noteElo_exact (o : PositionMatch) (a : ExactEdgeAggregate) :
    (a.noteElo o).counts = a.counts := by
  rw [ExactEdgeAggregate.noteElo]
  cases o.whiteElo <;> cases o.blackElo <;> rfl

variable {a : FilteredEdgeAggregate} {a' : ExactEdgeAggregate}

private theorem counts_noteResult (h : a.counts = a'.counts) (result : ℤ) :
    (a.noteResult result).counts = (a'.noteResult result).counts := by
  simp only [FilteredEdgeAggregate.counts, ExactEdgeAggregate.counts, EdgeCounts.mk.injEq] at h
  rw [FilteredEdgeAggregate.noteResult, ExactEdgeAggregate.noteResult]
  split_ifs <;> simp only [FilteredEdgeAggregate.counts, ExactEdgeAggregate.counts, h]

private theorem counts_add (h : a.counts = a'.counts) (gameKey : UInt32) (c : DirectContribution) :
    (a.add gameKey c).counts = (a'.add gameKey c).counts := by
  rw [FilteredEdgeAggregate.add, ExactEdgeAggregate.add]
  have hfrequency : a.frequency = a'.frequency := congrArg EdgeCounts.frequency h
  rw [hfrequency]
  refine congrArg (fun e : EdgeCounts => { e with frequency := e.frequency + 1 })
    (?_ : FilteredEdgeAggregate.counts _ = ExactEdgeAggregate.counts _)
  rw [counts_noteElo, counts_noteElo_exact]
  refine counts_noteResult ?_ c.found.result
  simp only [FilteredEdgeAggregate.counts, ExactEdgeAggregate.counts, EdgeCounts.mk.injEq] at h ⊢
  split_ifs <;> simp only [h, and_self]

private theorem counts_foldl (l : List (ContributionKey × DirectContribution)) :
    (l.foldl (fun a entry => some ((a.getD {}).add entry.1.1 entry.2))
        (none : Option FilteredEdgeAggregate)).map FilteredEdgeAggregate.counts =
      (l.foldl (fun a entry => some ((a.getD {}).add entry.1.1 entry.2))
        (none : Option ExactEdgeAggregate)).map ExactEdgeAggregate.counts := by
  induction l using List.reverseRecOn with
  | nil => rfl
  | append_singleton l entry ih =>
    rw [List.foldl_append, List.foldl_append]
    refine congrArg some (counts_add ?_ entry.1.1 entry.2)
    cases hheld : l.foldl (fun a entry => some ((a.getD {}).add entry.1.1 entry.2))
        (none : Option FilteredEdgeAggregate) with
    | none =>
      rw [hheld] at ih
      rw [Option.map_eq_none_iff.mp ih.symm]
      rfl
    | some held =>
      rw [hheld] at ih
      obtain ⟨held', hheld', hcounts⟩ := Option.map_eq_some_iff.mp ih.symm
      rw [hheld']
      exact hcounts.symm

private theorem counts_rows (contributions : DirectContributions) (childGameCounts : UInt64 → ℕ) :
    ((aggregateEdges contributions).toList.map fun entry =>
        (entry.2.row entry.1 (childGameCounts entry.1.2)).counts) =
      (aggregateExactly contributions).toList.map fun entry =>
        (entry.2.row entry.1 (childGameCounts entry.1.2)).counts := by
  have hlook (edge : UInt16 × UInt64) :
      (aggregateEdges contributions)[edge]?.map FilteredEdgeAggregate.counts =
        (aggregateExactly contributions)[edge]?.map ExactEdgeAggregate.counts := by
    have htally : aggregateEdges contributions = tally compareEdges (fun entry => entry.1.2)
        (fun entry a => (a.getD {}).add entry.1.1 entry.2) contributions.toList := rfl
    have htally' : aggregateExactly contributions = tally compareEdges (fun entry => entry.1.2)
        (fun entry a => (a.getD {}).add entry.1.1 entry.2) contributions.toList := rfl
    rw [htally, htally', getElem?_tally, getElem?_tally]
    exact counts_foldl _
  have hlist := congrArg (List.map fun (entry : (UInt16 × UInt64) × EdgeCounts) =>
    (⟨entry.2, entry.1.1, entry.1.2, UInt32.ofNat (childGameCounts entry.1.2)⟩ : RowCounts))
    (map_toList_congr hlook)
  rw [List.map_map, List.map_map] at hlist
  exact hlist

end Counts

section Monitor

variable {α β γ δ : Type}

/-- Whatever has failed before, a query shows of its answer what the result shows. -/
def Tells (shown : α → γ) (shown' : β → γ) (query : OpeningQuery α) (result : Result β) : Prop :=
  ∀ failed, (query failed).1.map shown = result.map shown'

variable {shown : α → γ} {shown' : β → γ}

private theorem tells_pure {a : α} {b : β} (h : shown a = shown' b) :
    Tells shown shown' (pure a) (pure b) :=
  fun _ => congrArg Except.ok h

private theorem tells_orReturn (found : Result α) : Tells id id (orReturn found) found := by
  intro failed
  cases found <;> rfl

theorem Tells.bind {x : OpeningQuery δ} {r : Result δ} {f : δ → OpeningQuery α} {g : δ → Result β}
    (hx : Tells id id x r) (hf : ∀ d, Tells shown shown' (f d) (g d)) :
    Tells shown shown' (x >>= f) (r >>= g) := by
  intro failed
  have hrun := hx failed
  rw [Except.map_id] at hrun
  obtain rfl : (x failed).1 = r := hrun
  change (Stateful.bind x f failed).1.map shown = ((x failed).1.bind g).map shown'
  rw [Stateful.bind]
  rcases x failed with ⟨_ | d, failed'⟩
  · rfl
  · exact hf d failed'

private theorem tells_inspect {found : Result δ} {f : Result δ → OpeningQuery α} {result : Result β}
    (hf : Tells shown shown' (f found) result) : Tells shown shown' (look found >>= f) result :=
  fun failed => hf (failed || !found.isOk)

private theorem tells_look {found : Result δ} {f : δ → OpeningQuery α} {g : δ → Result β}
    (hf : ∀ d, Tells shown shown' (f d) (g d)) :
    Tells shown shown' (look found >>= fun r => orReturn r >>= f) (found >>= g) :=
  tells_inspect ((tells_orReturn found).bind hf)

private theorem tells_map {ε : Type} {found : Result δ} {e : δ → ε} {f : ε → OpeningQuery α}
    {g : δ → Result β} (hf : ∀ d, Tells shown shown' (f (e d)) (g d)) :
    Tells shown shown' (orReturn (found.map e) >>= f) (found >>= g) := by
  cases found with
  | error e => exact fun _ => rfl
  | ok d => exact hf d

end Monitor

section Queries

variable {rules : Chess.Rules} {reader : Reader} {file : List UInt8}

/-- What a query reads when all reads succeed. -/
def OpeningReads.ofTables (t : Tables) (file : List UInt8) : OpeningReads where
  postings := readAt file
  getGameContexts ids :=
    (t.getGameContexts ids).map fun contexts => contexts.map fun c => (c.1, c.2.moves)

variable {t : Tables}

private theorem tells_childGameCounts (childHashes : List UInt64) :
    Tells id id (childGameCounts (.ofTables t file) reader childHashes)
      (globalChildCounts reader file childHashes) := by
  rw [childGameCounts, globalChildCounts]
  generalize (∅ : Std.TreeMap UInt64 ℕ) = counts
  induction childHashes generalizing counts with
  | nil => exact tells_pure rfl
  | cons childHash childHashes ih =>
    rw [List.foldlM_cons, List.foldlM_cons]
    refine Tells.bind ?_ ih
    rw [← lookupSummary_readAt]
    exact tells_look fun summary => tells_pure rfl

/-- The rows that two queries tell, without their averages. -/
abbrev TellsRows : OpeningQuery (List OpeningStatAggRow) → Result (List ExactStatRow) → Prop :=
  Tells (List.map OpeningStatAggRow.counts) (List.map ExactStatRow.counts)

private theorem tellsRows_postings (hash : UInt64) (gameIds : List UInt32) :
    TellsRows (postingsFilteredOpeningStats (.ofTables t file) rules reader hash gameIds)
      (t.postingsOpeningStats rules reader file hash gameIds true) := by
  rw [postingsFilteredOpeningStats, Tables.postingsOpeningStats, ← lookupOccurrences_readAt]
  dsimp only [OpeningReads.ofTables, if_true]
  refine tells_look fun occurrences => ?_
  refine tells_map fun contexts => ?_
  refine Tells.bind (tells_orReturn _) fun contributions => ?_
  refine Tells.bind (tells_childGameCounts _) fun counts => ?_
  refine tells_pure ?_
  rw [List.map_map, List.map_map]
  exact counts_rows contributions fun childHash => counts.getD childHash 0

variable {buildTree : List ReplayGame → Reader → List UInt8 → Result (List UInt8)}
  {b : Bundle (.ofRules rules Index buildTree (openIndex rules) Index.sourceGameCount)}
  {v : View (.ofRules rules Index buildTree (openIndex rules) Index.sourceGameCount)}

private theorem tellsRows_queryPostings (hash : UInt64) :
    TellsRows (queryPostings (.ofTables v.tables file) rules reader hash)
      (v.openingStatsFromPostings reader file hash) := by
  rw [queryPostings, View.openingStatsFromPostings, ← lookupGameIds_readAt]
  exact tells_look fun gameIds => tellsRows_postings hash gameIds

private theorem tellsRows_queryTree (decodeF64 : ℕ → ℚ) (tree : Index) (treeFile : Option (List UInt8))
    (hash : UInt64) :
    TellsRows (orReturn (queryTree tree treeFile hash)) (tree.exactRows decodeF64 treeFile hash) := by
  intro failed
  cases treeFile with
  | none =>
    rw [queryTree, Index.exactRows]
    split_ifs <;> rfl
  | some treeFile =>
    rw [queryTree, Index.exactRows, Index.queryOpeningStats_eq]
    cases tree.queryRecords treeFile hash.toNat with
    | error e => rfl
    | ok records =>
      refine congrArg Except.ok ?_
      rw [List.map_map, List.map_map]
      rfl

/-- On a bundle whose postings can be read, the query that watches its lookups tells the moves, the
games, the results and the transpositions that the exact query tells. -/
theorem queryUnfilteredOpeningStats_readAt (decodeF64 : ℕ → ℚ) (hview : b.view = some v)
    (hpostings : v.postings = some (reader, some file)) (hash : UInt64) :
    TellsRows (queryUnfilteredOpeningStats (.ofTables v.tables file) b hash)
      (v.queryUnfilteredOpeningStats decodeF64 hash) := by
  have hindexes : openingIndexes b = some (reader, v.tree) := by
    rw [openingIndexes, hview]
    change (v.postings.bind fun postings => some (postings.1, v.tree)) = some (reader, v.tree)
    rw [hpostings]
    rfl
  rw [queryUnfilteredOpeningStats, View.queryUnfilteredOpeningStats, hindexes, hpostings]
  cases v.tree with
  | none => exact tellsRows_queryPostings hash
  | some installed =>
    obtain ⟨tree, treeFile⟩ := installed
    dsimp only
    split_ifs with hcomplete
    · exact tellsRows_queryTree decodeF64 tree treeFile hash
    · rw [← lookupSummary_readAt]
      refine tells_inspect ?_
      dsimp only [OpeningReads.ofTables]
      rcases lookupSummary (readAt file) reader hash.toNat with e | _ | summary
      · exact tells_pure rfl
      · exact tells_pure rfl
      · dsimp only
        split_ifs
        · exact tellsRows_queryPostings hash
        · exact tellsRows_queryTree decodeF64 tree treeFile hash

end Queries

end MotifChess.Db
