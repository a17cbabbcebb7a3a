/- GID: MotifChess/Search/OpeningTree/FirstPly
   generality: implementation
   digest: A tree opened to the first ply tells each move that a kept game plays from the root. -/

import MotifChess.Search.OpeningTree.Expand

set_option autoImplicit false
set_option relaxedAutoImplicit false

namespace MotifChess.Search.OpeningTree

open MotifChess.Db MotifChess.Db.PositionPostings MotifChess.Db.OpeningTreeIndex MotifChess.Order

section Telling

variable {rules : Chess.Rules} {rows rows' : List TreePositionRow} {position : rules.Board}

/-- The rows with a move whose results are wanted. -/
def rowCount (rows : List TreePositionRow) (encodedMove : UInt16) (wanted : ℤ → Bool) : ℕ :=
  rows.countP fun row => decide (row.encodedMove = encodedMove) && wanted row.result

/-- A move that is told from a board, with the counts of its rows. -/
def tellMove (position : rules.Board) (rows : List TreePositionRow) (childHash : UInt16 → UInt64)
    (encodedMove : UInt16) : ContinuationCounts where
  san := rules.san position encodedMove
  resultHash := childHash encodedMove
  frequency := rowCount rows encodedMove fun _ => true
  whiteWins := rowCount rows encodedMove fun result => decide (0 < result)
  draws := rowCount rows encodedMove fun result => decide (result = 0)
  blackWins := rowCount rows encodedMove fun result => decide (result < 0)

/-- The node has one continuation for each move of the rows, told from a board. -/
def Node.TellsRows (n : Node) (position : rules.Board) (rows : List TreePositionRow) : Prop :=
  ∃ (moves : List UInt16) (childHash : UInt16 → UInt64), moves.Nodup ∧
    (∀ move, move ∈ moves ↔ ∃ row ∈ rows, row.encodedMove = move) ∧
    (∀ move ∈ moves, ∃ row ∈ rows, row.encodedMove = move ∧ childHash move = row.childHash) ∧
    n.counts.Perm (moves.map (tellMove position rows childHash))

theorem Node.TellsRows.of_perm {n : Node} (h : n.TellsRows position rows) (hperm : rows.Perm rows') :
    n.TellsRows position rows' := by
  obtain ⟨moves, childHash, hnodup, hmoves, hchild, hcounts⟩ := h
  have hcount : rowCount rows = rowCount rows' := by
    funext encodedMove wanted
    exact hperm.countP_eq _
  have htell : tellMove position rows childHash = tellMove position rows' childHash := by
    funext encodedMove
    rw [tellMove, tellMove, hcount]
  simp only [hperm.mem_iff] at hmoves hchild
  exact ⟨moves, childHash, hnodup, hmoves, hchild, htell ▸ hcounts⟩

private theorem counts_continuationOf (rows : List TreePositionRow) (encodedMove : UInt16)
    {a : ContinuationAggregate} (ha : (buildContinuation rules position a).counts =
      (buildContinuation rules position (continuationOf rows encodedMove)).counts) :
    (buildContinuation rules position a).counts = tellMove position rows
      (fun move => (continuationOf rows move).resultHash) encodedMove := by
  obtain ⟨hmove, hfrequency, hwhite, hdraws, hblack⟩ := foldl_note_counts
    (rows.filter fun row => row.encodedMove = encodedMove) { encodedMove := encodedMove }
  have hcount : ∀ wanted : ℤ → Bool, rowCount rows encodedMove wanted =
      (rows.filter fun row => row.encodedMove = encodedMove).countP fun row => wanted row.result := by
    intro wanted
    rw [rowCount, List.countP_filter]
    exact List.countP_congr fun row _ => by rw [Bool.and_comm]
  rw [ha, ContinuationStats.counts, buildContinuation, tellMove]
  simp only [ContinuationCounts.mk.injEq, hcount, List.countP_true]
  refine ⟨congrArg (rules.san position) hmove, trivial, hfrequency.trans (Nat.zero_add _),
    hwhite.trans (Nat.zero_add _), hdraws.trans (Nat.zero_add _), hblack.trans (Nat.zero_add _)⟩

end Telling

section Building

variable {rules : Chess.Rules} {rootHash : UInt64} {position : rules.Board} {row : TreePositionRow}
  {rows : List TreePositionRow} {contexts : List (UInt32 × GameContext)}

private theorem aggregate_rows (hdepth : ∀ r ∈ row :: rows, r.depth = 1) :
    aggregate rootHash ((row :: rows).map fun r => [r]) =
      [(⟨1, rootHash⟩, ⟨continuationsOf (row :: rows), row.gameId, row.rootPly⟩)] := by
  induction rows using List.reverseRecOn with
  | nil =>
    have hrow := hdepth row List.mem_cons_self
    simp [aggregate, noteOccurrence, noteNode, NodeAggregate.note, continuationsOf, hrow]
  | append_singleton rows last ih =>
    have hlast : last.depth = 1 := hdepth last (by simp)
    have hrest := ih fun r hr => hdepth r (by
      rcases List.mem_cons.mp hr with rfl | hmem
      · exact List.mem_cons_self
      · exact List.mem_cons_of_mem _ (List.mem_append_left _ hmem))
    rw [← List.cons_append, List.map_append, aggregate, List.foldl_append, ← aggregate, hrest]
    have hnoted : continuationsOf (row :: (rows ++ [last])) =
        noteContinuation last (continuationsOf (row :: rows)) := by
      rw [← List.cons_append, continuationsOf, List.foldl_append]
      rfl
    simp [noteOccurrence, noteNode, NodeAggregate.note, hlast, hnoted]

private theorem exists_placeContinuations (parent : rules.Board) (boards : List (UInt64 × rules.Board))
    (continuations : List ContinuationAggregate) :
    ∃ placed, placeContinuations rules parent boards continuations = boards ++ placed := by
  induction continuations generalizing boards with
  | nil => exact ⟨[], (List.append_nil _).symm⟩
  | cons a continuations ih =>
    rw [placeContinuations, List.foldl_cons, ← placeContinuations]
    split_ifs
    · exact ih boards
    · obtain ⟨placed, hplaced⟩ := ih (boards ++ [(a.resultHash,
        rules.applyEncodedMove parent a.encodedMove)])
      exact ⟨_, hplaced.trans (List.append_assoc ..)⟩

private theorem map_fst_linkContinuations (maxDepth depth : ℕ) (built : BuiltNodes)
    (stats : List ContinuationStats) :
    (linkContinuations maxDepth depth built stats).2.map Prod.fst = stats := by
  induction stats generalizing built with
  | nil => rfl
  | cons c stats ih =>
    have hfst : (linkContinuation maxDepth depth built c).2.1 = c := by
      rw [linkContinuation]
      split <;> rfl
    rw [linkContinuations, List.map_cons, hfst, ih]

private theorem buildTree_root {continuations : List ContinuationAggregate} {sampleGameId : UInt32}
    {sampleRootPly : UInt16} {placed : List (UInt64 × rules.Board)} :
    ∃ tree, buildTree rules rootHash 1
        ⟨[(⟨1, rootHash⟩, ⟨continuations, sampleGameId, sampleRootPly⟩)], (rootHash, position) :: placed⟩ =
          .ok tree ∧
      (tree.root.continuations.map Prod.fst).Perm (continuations.map (buildContinuation rules position)) := by
  have hkeys : sortedKeys [((⟨1, rootHash⟩ : NodeKey),
      (⟨continuations, sampleGameId, sampleRootPly⟩ : NodeAggregate))] = [⟨1, rootHash⟩] := by
    simp [sortedKeys, sortBy]
  rw [buildTree, buildNodes, hkeys, List.reverse_singleton, List.foldl_cons, List.foldl_nil, buildNode,
    List.lookup_cons, beq_self_eq_true]
  refine ⟨_, rfl, ?_⟩
  refine (sortContinuations_map_fst _).trans (.of_eq ?_)
  rw [map_fst_linkContinuations, nodeStats, List.lookup_cons, beq_self_eq_true, List.lookup_cons,
    beq_self_eq_true]

end Building

section Bundles

variable {rules : Chess.Rules} {TreeIndex : Type}
  {buildIndex : List ReplayGame → Reader → List UInt8 → Result (List UInt8)}
  {openIndex : List UInt8 → Result TreeIndex} {sourceGameCount : TreeIndex → ℕ}
  {b : Bundle (.ofRules rules TreeIndex buildIndex openIndex sourceGameCount)}
  {rootHash : UInt64} {filter : SearchFilter}
  {order : List (List TreePositionRow) → List (List TreePositionRow)}

/-- The row of a path's first move, if its game goes on. -/
def firstRow (b : Bundle (.ofRules rules TreeIndex buildIndex openIndex sourceGameCount))
    (path : GameRow × ℕ) : Option TreePositionRow :=
  path.1.stored.moves[path.2]?.map fun encodedMove =>
    let found := matchAt b.replayedRows (pathOccurrence path)
    ⟨found.gameId, found.ply, 1, encodedMove,
      rules.hash (rules.play rules.start (path.1.stored.moves.take (path.2 + 1))), found.result,
      found.whiteElo, found.blackElo⟩

/-- The rows that a tree is opened to the first ply from. -/
def firstRows (b : Bundle (.ofRules rules TreeIndex buildIndex openIndex sourceGameCount))
    (filter : SearchFilter) (rootHash : UInt64) : List TreePositionRow :=
  (rootPaths rules b.tables.games filter rootHash).filterMap (firstRow b)

private theorem pathRows_one (path : GameRow × ℕ) : pathRows b 1 path = (firstRow b path).toList := by
  rw [pathRows, firstRow]
  by_cases hlt : path.2 < path.1.stored.moves.length
  · have hplay : rules.play rules.start (path.1.stored.moves.take (path.2 + 1)) =
        rules.applyEncodedMove (rules.play rules.start (path.1.stored.moves.take path.2))
          path.1.stored.moves[path.2] := by
      rw [List.take_succ_eq_append_getElem hlt, Chess.Rules.play, List.foldl_append]
      rfl
    rw [List.drop_eq_getElem_cons hlt, List.getElem?_eq_getElem hlt, Option.map_some, hplay]
    rfl
  · rw [List.drop_eq_nil_of_le (Nat.le_of_not_lt hlt),
      List.getElem?_eq_none (Nat.le_of_not_lt hlt)]
    rfl

private theorem occurrences_perm (h : b.ValidPostings) (hfit : b.tables.IdsFit)
    {occurrences : List (List TreePositionRow)}
    (hopened : OpenedFrom rules (treeReads b) rootHash 1 filter occurrences) :
    occurrences.Perm ((firstRows b filter rootHash).map fun row => [row]) := by
  refine (openedFrom_perm h hfit hopened).trans (.of_eq ?_)
  rw [firstRows]
  induction rootPaths rules b.tables.games filter rootHash with
  | nil => rfl
  | cons path paths ih =>
    rw [List.map_cons, List.filter_cons, List.filterMap_cons, pathRows_one, ih]
    cases firstRow b path <;> rfl

theorem firstRow_eq_some {path : GameRow × ℕ} {row : TreePositionRow} :
    firstRow b path = some row ↔ ∃ encodedMove, path.1.stored.moves[path.2]? = some encodedMove ∧
      row = ⟨UInt32.ofNat path.1.id, UInt16.ofNat path.2, 1, encodedMove,
        rules.hash (rules.play rules.start (path.1.stored.moves.take (path.2 + 1))),
        (matchAt b.replayedRows (pathOccurrence path)).result,
        (matchAt b.replayedRows (pathOccurrence path)).whiteElo,
        (matchAt b.replayedRows (pathOccurrence path)).blackElo⟩ := by
  rw [firstRow, Option.map_eq_some_iff]
  exact exists_congr fun encodedMove => and_congr_right fun _ => eq_comm

private theorem exists_attributed (contexts : List (UInt32 × GameContext)) :
    ∃ named : ContinuationAggregate → ContinuationAggregate,
      (∀ (position : rules.Board) a, (buildContinuation rules position (named a)).counts =
        (buildContinuation rules position a).counts) ∧
      ∀ key continuations sampleGameId sampleRootPly,
        attributeOpenings contexts [(key, ⟨continuations, sampleGameId, sampleRootPly⟩)] =
          [(key, ⟨continuations.map named, sampleGameId, sampleRootPly⟩)] := by
  refine ⟨fun a => (contexts.lookup a.sampleGameId).elim a fun context =>
    { a with eco := context.eco, openingName := context.openingName }, fun position a => ?_, ?_⟩
  · dsimp only
    cases contexts.lookup a.sampleGameId <;> rfl
  · intro key continuations sampleGameId sampleRootPly
    rw [attributeOpenings, List.map_singleton]
    refine congrArg (fun l => [(key, NodeAggregate.mk l sampleGameId sampleRootPly)]) ?_
    refine List.map_congr_left fun a _ => ?_
    cases contexts.lookup a.sampleGameId <;> rfl

private theorem rootBoard_eq (h : b.ValidPostings) (hfit : b.tables.IdsFit) {path : GameRow × ℕ}
    {row : TreePositionRow} (hpath : path ∈ rootPaths rules b.tables.games filter rootHash)
    (hrow : firstRow b path = some row) {continuations : List ContinuationAggregate}
    {contexts : List (UInt32 × GameContext)} {ids : List UInt32}
    (hcontexts : b.tables.getGameContexts ids = .ok contexts) (hids : row.gameId ∈ ids) :
    rootBoard rules rootHash contexts [(⟨1, rootHash⟩, ⟨continuations, row.gameId, row.rootPly⟩)] =
      .ok (rules.play rules.start (path.1.stored.moves.take path.2)) := by
  obtain ⟨hgame, -, hreaches⟩ := mem_rootPaths.mp hpath
  obtain ⟨encodedMove, -, rfl⟩ := firstRow_eq_some.mp hrow
  have hply := h.toNat_ply hgame hreaches
  rw [rootBoard, List.lookup_cons, beq_self_eq_true]
  dsimp only
  split_ifs with hzero
  · have hstart : path.2 = 0 := hply.symm.trans (congrArg UInt16.toNat hzero)
    rw [hstart]
    rfl
  · have hreplay : rules.replay path.1.context.moves (UInt16.ofNat path.2) =
        some (rules.play rules.start (path.1.stored.moves.take path.2)) := by
      have hlength : ¬path.1.context.moves.length < path.2 := Nat.not_lt.mpr hreaches.1
      rw [Chess.Rules.replay, hply, if_neg hlength]
      rfl
    rw [Tables.lookup_of_getGameContexts hfit hcontexts hgame hids]
    dsimp only
    rw [hreplay]

private theorem exists_aggregateSlice (h : b.ValidPostings) (hfit : b.tables.IdsFit)
    {path : GameRow × ℕ} {row : TreePositionRow}
    (hpath : path ∈ rootPaths rules b.tables.games filter rootHash)
    (hrow : firstRow b path = some row) {rows : List TreePositionRow}
    (hdepth : ∀ r ∈ row :: rows, r.depth = 1) {occurrences : List (List TreePositionRow)}
    (hfirst : order occurrences = (row :: rows).map fun r => [r]) :
    ∃ contexts placed, aggregateSlice rules order (treeReads b) rootHash occurrences =
      .ok ⟨attributeOpenings contexts
          [(⟨1, rootHash⟩, ⟨continuationsOf (row :: rows), row.gameId, row.rootPly⟩)],
        (rootHash, rules.play rules.start (path.1.stored.moves.take path.2)) :: placed⟩ := by
  have hkeys : sortedKeys [((⟨1, rootHash⟩ : NodeKey),
      (⟨continuationsOf (row :: rows), row.gameId, row.rootPly⟩ : NodeAggregate))] =
        [⟨1, rootHash⟩] := by
    simp [sortedKeys, sortBy]
  rw [aggregateSlice, hfirst, aggregate_rows hdepth]
  obtain ⟨contexts, hcontexts⟩ : ∃ contexts, b.tables.getGameContexts (sampleIds [(⟨1, rootHash⟩,
      ⟨continuationsOf (row :: rows), row.gameId, row.rootPly⟩)]) = .ok contexts := ⟨_, rfl⟩
  have hread : (treeReads b).getGameContexts (sampleIds [(⟨1, rootHash⟩,
      ⟨continuationsOf (row :: rows), row.gameId, row.rootPly⟩)]) = .ok contexts := hcontexts
  have hids : row.gameId ∈ sampleIds [(⟨1, rootHash⟩,
      ⟨continuationsOf (row :: rows), row.gameId, row.rootPly⟩)] := by
    simp [sampleIds]
  obtain ⟨placed, hplaced⟩ := exists_placeContinuations
    (rules.play rules.start (path.1.stored.moves.take path.2))
    [(rootHash, rules.play rules.start (path.1.stored.moves.take path.2))] (continuationsOf (row :: rows))
  have hio : ioResult (.ok contexts : Result (List (UInt32 × GameContext))) = .ok contexts := rfl
  rw [hread, hio, ok_bind, rootBoard_eq h hfit hpath hrow hcontexts hids, ok_bind, hkeys, placeBoards,
    List.lookup_cons, beq_self_eq_true, List.lookup_cons, beq_self_eq_true]
  dsimp only
  rw [hplaced, placeBoards, ok_bind]
  exact ⟨contexts, placed, rfl⟩

private theorem openTree_one {database : Database} {occurrences : List (List TreePositionRow)}
    (hopened : OpenedFrom rules database rootHash 1 filter occurrences) :
    openTree rules order database rootHash 1 filter =
      if occurrences.isEmpty then .ok ⟨.mk rootHash [] true, 1⟩
      else aggregateSlice rules order database rootHash occurrences >>= buildTree rules rootHash 1 := by
  obtain ⟨allowed, hallowed, ⟨rfl, rfl⟩ | ⟨hsome, hslice⟩⟩ := hopened
  · rw [openTree, openSlice, if_neg Nat.one_ne_zero, if_neg (by decide), hallowed]
    rfl
  · have hio : ioResult (.ok occurrences : Result (List (List TreePositionRow))) =
        .ok occurrences := rfl
    rw [openTree, openSlice, if_neg Nat.one_ne_zero, if_neg (by decide), hallowed, ok_bind,
      if_neg hsome, hslice, hio, ok_bind]
    split_ifs
    · rfl
    · cases aggregateSlice rules order database rootHash occurrences <;> rfl

private theorem exists_tellsRows (h : b.ValidPostings) (hfit : b.tables.IdsFit)
    {occurrences : List (List TreePositionRow)}
    (hopened : OpenedFrom rules (treeReads b) rootHash 1 filter occurrences) {path : GameRow × ℕ}
    {row : TreePositionRow} {rows : List TreePositionRow}
    (hpath : path ∈ rootPaths rules b.tables.games filter rootHash) (hrow : firstRow b path = some row)
    (hdepth : ∀ r ∈ row :: rows, r.depth = 1) (hne : occurrences ≠ [])
    (hfirst : order occurrences = (row :: rows).map fun r => [r]) :
    ∃ tree, openTree rules order (treeReads b) rootHash 1 filter = .ok tree ∧
      tree.root.TellsRows (rules.play rules.start (path.1.stored.moves.take path.2)) (row :: rows) := by
  obtain ⟨contexts, placed, hslice⟩ := exists_aggregateSlice h hfit hpath hrow hdepth hfirst
  obtain ⟨named, hnamed, hattributed⟩ := @exists_attributed rules contexts
  obtain ⟨tree, htree, hperm⟩ := @buildTree_root rules rootHash
    (rules.play rules.start (path.1.stored.moves.take path.2))
    ((continuationsOf (row :: rows)).map named) row.gameId row.rootPly placed
  obtain ⟨moves, hascending, hmoves, hcontinuations⟩ := exists_continuationsOf (row :: rows)
  rw [openTree_one hopened, if_neg (mt List.isEmpty_iff.mp hne), hslice, ok_bind, hattributed]
  refine ⟨tree, htree, moves, fun move => (continuationOf (row :: rows) move).resultHash,
    hascending.imp UInt16.ne_of_lt, hmoves, fun move hmove => ?_, ?_⟩
  · obtain ⟨first, hfirst, rfl⟩ := (hmoves move).mp hmove
    obtain ⟨other, hother, hsame, hchild⟩ := exists_childHash hfirst
    exact ⟨other, hother, hsame, hchild⟩
  · have hcounts := hperm.map ContinuationStats.counts
    rw [List.map_map, List.map_map, List.map_map, hcontinuations, List.map_map] at hcounts
    refine hcounts.trans (.of_eq (List.map_congr_left fun move _ => ?_))
    exact counts_continuationOf (row :: rows) move (hnamed _ _)

private theorem depth_of_mem_firstRows {row : TreePositionRow} (hrow : row ∈ firstRows b filter rootHash) :
    row.depth = 1 := by
  obtain ⟨path, -, hpath⟩ := List.mem_filterMap.mp hrow
  obtain ⟨encodedMove, -, rfl⟩ := firstRow_eq_some.mp hpath
  rfl

private theorem eq_map_of_forall {l : List (List TreePositionRow)} (hl : ∀ rows ∈ l, ∃ row, rows = [row]) :
    ∃ rows : List TreePositionRow, l = rows.map fun row => [row] := by
  induction l with
  | nil => exact ⟨[], rfl⟩
  | cons first l ih =>
    obtain ⟨row, rfl⟩ := hl first List.mem_cons_self
    obtain ⟨rows, rfl⟩ := ih fun other hother => hl other (List.mem_cons_of_mem _ hother)
    exact ⟨row :: rows, rfl⟩

/-- In whatever order the rows come, the tree tells them from the board of a path that goes on. -/
theorem exists_opened (h : b.ValidPostings) (hfit : b.tables.IdsFit) (horder : ∀ l, (order l).Perm l) :
    ∃ tree, openTree rules order (treeReads b) rootHash 1 filter = .ok tree ∧
      (firstRows b filter rootHash = [] → tree.root.counts = []) ∧
      (firstRows b filter rootHash ≠ [] → ∃ path ∈ rootPaths rules b.tables.games filter rootHash,
        (firstRow b path).isSome ∧ tree.root.TellsRows
          (rules.play rules.start (path.1.stored.moves.take path.2)) (firstRows b filter rootHash)) := by
  obtain ⟨occurrences, hopened⟩ := exists_openedFrom h hfit 1 rootHash filter
  have hperm := occurrences_perm h hfit hopened
  by_cases hnone : firstRows b filter rootHash = []
  · rw [hnone, List.map_nil, List.perm_nil] at hperm
    subst hperm
    exact ⟨_, openTree_one hopened, fun _ => rfl, fun hne => absurd hnone hne⟩
  · have hordered := (horder occurrences).trans hperm
    obtain ⟨rows, hrows⟩ : ∃ rows : List TreePositionRow,
        order occurrences = rows.map fun row => [row] := by
      refine eq_map_of_forall fun single hsingle => ?_
      obtain ⟨row, -, rfl⟩ := List.mem_map.mp (hordered.mem_iff.mp hsingle)
      exact ⟨row, rfl⟩
    rw [hrows] at hordered
    have hall : rows.Perm (firstRows b filter rootHash) :=
      (List.map_perm_map_iff fun row row' hsame => List.head_eq_of_cons_eq hsame).mp hordered
    cases rows with
    | nil => exact absurd (List.perm_nil.mp hall.symm) hnone
    | cons row rows =>
      obtain ⟨path, hpath, hrow⟩ := List.mem_filterMap.mp (hall.mem_iff.mp List.mem_cons_self)
      have hne : occurrences ≠ [] := by
        rintro rfl
        have hnil := List.perm_nil.mp (horder [])
        rw [hrows] at hnil
        cases hnil
      obtain ⟨tree, htree, htells⟩ := exists_tellsRows h hfit hopened hpath hrow
        (fun r hr => depth_of_mem_firstRows (hall.mem_iff.mp hr)) hne hrows
      exact ⟨tree, htree, fun hnil => absurd hnil hnone, fun _ =>
        ⟨path, hpath, by rw [hrow]; rfl, htells.of_perm hall⟩⟩

/-- The row of one occurrence put before the others. -/
private def putFirst (row : TreePositionRow) (l : List (List TreePositionRow)) :
    List (List TreePositionRow) := if [row] ∈ l then [row] :: l.erase [row] else l

private theorem putFirst_perm (row : TreePositionRow) (l : List (List TreePositionRow)) :
    (putFirst row l).Perm l := by
  rw [putFirst]
  split_ifs with hl
  · exact (List.perm_cons_erase hl).symm
  · exact .refl l

/-- Every path that goes on is the one whose board the tree is told from, in some order of the rows. -/
theorem exists_order (h : b.ValidPostings) (hfit : b.tables.IdsFit) {path : GameRow × ℕ}
    (hpath : path ∈ rootPaths rules b.tables.games filter rootHash) (hgoes : (firstRow b path).isSome) :
    ∃ order : List (List TreePositionRow) → List (List TreePositionRow), (∀ l, (order l).Perm l) ∧
      ∃ tree, openTree rules order (treeReads b) rootHash 1 filter = .ok tree ∧ tree.root.TellsRows
        (rules.play rules.start (path.1.stored.moves.take path.2)) (firstRows b filter rootHash) := by
  obtain ⟨occurrences, hopened⟩ := exists_openedFrom h hfit 1 rootHash filter
  have hperm := occurrences_perm h hfit hopened
  obtain ⟨row, hrow⟩ := Option.isSome_iff_exists.mp hgoes
  have hmem : row ∈ firstRows b filter rootHash := List.mem_filterMap.mpr ⟨path, hpath, hrow⟩
  have hlisted : [row] ∈ occurrences := hperm.mem_iff.mpr (List.mem_map_of_mem hmem)
  have hall := List.perm_cons_erase hmem
  have herase : (occurrences.erase [row]).Perm
      (((firstRows b filter rootHash).erase row).map fun r => [r]) := by
    have hcons := ((List.perm_cons_erase hlisted).symm.trans hperm).trans (hall.map _)
    exact hcons.cons_inv
  obtain ⟨rows, hrows⟩ : ∃ rows : List TreePositionRow,
      occurrences.erase [row] = rows.map fun row => [row] := by
    refine eq_map_of_forall fun single hsingle => ?_
    obtain ⟨r, -, rfl⟩ := List.mem_map.mp (herase.mem_iff.mp hsingle)
    exact ⟨r, rfl⟩
  rw [hrows] at herase
  have hrest : (row :: rows).Perm (firstRows b filter rootHash) := by
    refine (List.Perm.cons row ?_).trans hall.symm
    exact (List.map_perm_map_iff fun r r' hsame => List.head_eq_of_cons_eq hsame).mp herase
  have hfirst : putFirst row occurrences = (row :: rows).map fun r => [r] := by
    rw [putFirst, if_pos hlisted, hrows, List.map_cons]
  obtain ⟨tree, htree, htells⟩ := exists_tellsRows h hfit hopened hpath hrow
    (fun r hr => depth_of_mem_firstRows (hrest.mem_iff.mp hr)) (List.ne_nil_of_mem hlisted) hfirst
  exact ⟨putFirst row, putFirst_perm row, tree, htree, htells.of_perm hrest⟩

end Bundles

end MotifChess.Search.OpeningTree
