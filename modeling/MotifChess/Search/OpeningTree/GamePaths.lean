/- GID: MotifChess/Search/OpeningTree/GamePaths
   generality: implementation
   digest: A tree opened over a bundle counts the paths of the stored games that its filter keeps. -/

import MotifChess.Search.OpeningTree.PathCounts

set_option autoImplicit false
set_option relaxedAutoImplicit false

namespace MotifChess.Search.OpeningTree

open MotifChess.Db MotifChess.Db.PositionPostings MotifChess.Db.OpeningTreeIndex

variable {rules : Chess.Rules} {TreeIndex : Type}
  {buildIndex : List ReplayGame → Reader → List UInt8 → Result (List UInt8)}
  {openIndex : List UInt8 → Result TreeIndex} {sourceGameCount : TreeIndex → ℕ}

/-- What the opening tree reads of a bundle. -/
def treeReads (b : Bundle (.ofRules rules TreeIndex buildIndex openIndex sourceGameCount)) :
    Database where
  occurrences hash := b.queryPositionMatches hash 0 0
  positionGameIds := b.positionGameIds
  findGameIdsWithFilter := b.tables.findGameIdsWithFilter
  getGameContexts := b.tables.getGameContexts

variable {b : Bundle (.ofRules rules TreeIndex buildIndex openIndex sourceGameCount)}
  {rootHash : UInt64} {prefetchDepth : ℕ} {filter : SearchFilter}

section Reads

private theorem treeReads_occurrences (h : b.ValidPostings) (hash : UInt64) :
    (treeReads b).occurrences hash = .ok (b.matchesAt hash) := by
  obtain ⟨reader, bytes, hanswers, hask⟩ := h.ask
  show b.queryPositionMatches hash 0 0 = _
  rw [Bundle.queryPositionMatches, hask, hanswers.occurrences]
  rfl

private theorem treeReads_positionGameIds (h : b.ValidPostings) (hash : UInt64) :
    (treeReads b).positionGameIds hash = .ok (gameIdsAt b.replayedRows hash) := by
  obtain ⟨reader, bytes, hanswers, hask⟩ := h.ask
  show b.positionGameIds hash = _
  rw [Bundle.positionGameIds, hask, hanswers.distinctGameIds]

private theorem allowedGames_all (h : b.ValidPostings) (hfit : b.tables.IdsFit)
    {allowed : Option (List UInt32)}
    (hallowed : allowedGames (treeReads b) rootHash filter = .ok allowed) {row : GameRow}
    (hrow : row ∈ b.tables.games) (hid : UInt32.ofNat row.id ∈ gameIdsAt b.replayedRows rootHash) :
    allowed.all (fun ids => ids.contains (UInt32.ofNat row.id)) = filter.keeps row.stored := by
  rw [allowedGames] at hallowed
  cases hmetadata : filter.hasMetadataFilter with
  | false =>
    rw [hmetadata, Bool.not_false, if_pos rfl] at hallowed
    obtain rfl := Except.ok.inj hallowed
    exact (SearchFilter.keeps_of_not_hasMetadataFilter hmetadata _).symm
  | true =>
    rw [hmetadata, Bool.not_true, if_neg Bool.false_ne_true, treeReads_positionGameIds h] at hallowed
    obtain ⟨ids, hids, hallowed⟩ := bind_eq_ok.mp hallowed
    obtain rfl := Except.ok.inj hids
    split_ifs at hallowed with hempty
    · rw [List.isEmpty_iff.mp hempty] at hid
      cases hid
    · obtain ⟨filtered, hfiltered, hallowed⟩ := bind_eq_ok.mp hallowed
      obtain rfl := Except.ok.inj hallowed
      have hfound : b.tables.findGameIdsWithFilter (gameIdsAt b.replayedRows rootHash)
          { filter with position := none } = .ok filtered := ioResult_eq_ok hfiltered
      have hmem := Tables.mem_findGameIdsWithFilter hfit hfound hrow hid
      rw [Option.all_some, Bool.eq_iff_iff, List.contains_iff_mem, hmem]
      rfl

end Reads

section Slice

/-- The posting of a path's root. -/
def pathOccurrence (path : GameRow × ℕ) : Occurrence :=
  ⟨UInt32.ofNat path.1.id, UInt16.ofNat path.2⟩

/-- The rows that are read of a path. -/
def pathRows (b : Bundle (.ofRules rules TreeIndex buildIndex openIndex sourceGameCount))
    (prefetchDepth : ℕ) (path : GameRow × ℕ) : List TreePositionRow :=
  occurrenceRows rules (matchAt b.replayedRows (pathOccurrence path))
    (rules.play rules.start (path.1.stored.moves.take path.2)) 1
    ((path.1.stored.moves.drop path.2).take prefetchDepth)

private theorem pathOccurrence_injOn (h : b.ValidPostings) (hfit : b.tables.IdsFit) :
    ∀ path ∈ rootPaths rules b.tables.games filter rootHash,
      ∀ other ∈ rootPaths rules b.tables.games filter rootHash,
        pathOccurrence path = pathOccurrence other → path = other := by
  intro path hpath other hother hsame
  obtain ⟨hgame, -, hreaches⟩ := mem_rootPaths.mp hpath
  obtain ⟨hgame', -, hreaches'⟩ := mem_rootPaths.mp hother
  obtain ⟨hid, hply⟩ := Occurrence.mk.inj hsame
  refine Prod.ext (hfit.eq_of_id hgame hgame' hid) ?_
  rw [← h.toNat_ply hgame hreaches, hply, h.toNat_ply hgame' hreaches']

private theorem filter_occurrencesAt_perm (h : b.ValidPostings) (hfit : b.tables.IdsFit)
    {allowed : Option (List UInt32)}
    (hallowed : allowedGames (treeReads b) rootHash filter = .ok allowed) :
    ((occurrencesAt b.replayedRows rootHash).filter fun o =>
        allowed.all fun ids => ids.contains o.id).Perm
      ((rootPaths rules b.tables.games filter rootHash).map pathOccurrence) := by
  have hnodup : ((rootPaths rules b.tables.games filter rootHash).map pathOccurrence).Nodup :=
    (nodup_rootPaths b.tables.nodup_ids.of_map).map_on (pathOccurrence_injOn h hfit)
  have hoccurrences : (occurrencesAt b.replayedRows rootHash).Nodup :=
    pairwise_occurrencesAt.imp fun hlt => hlt.ne
  refine (List.perm_ext_iff_of_nodup (hoccurrences.sublist List.filter_sublist) hnodup).mpr ?_
  intro o
  rw [List.mem_filter, List.mem_map]
  constructor
  · rintro ⟨ho, hall⟩
    obtain ⟨game, hgame, hid, hreaches⟩ := (mem_occurrencesAt_gameRows h.replayed).mp ho
    obtain ⟨row, hrow, rfl⟩ := List.mem_map.mp hgame
    have hlisted := h.mem_gameIdsAt hrow hreaches
    rw [← hid] at hall
    have hkept := (allowedGames_all h hfit hallowed hrow hlisted).symm.trans hall
    refine ⟨(row, o.ply.toNat), mem_rootPaths.mpr ⟨hrow, hkept, hreaches⟩, ?_⟩
    rw [pathOccurrence, UInt16.ofNat_toNat]
    exact congrArg (fun id => (⟨id, o.ply⟩ : Occurrence)) hid
  · rintro ⟨path, hpath, rfl⟩
    obtain ⟨hgame, hkept, hreaches⟩ := mem_rootPaths.mp hpath
    have hlisted := h.mem_gameIdsAt hgame hreaches
    exact ⟨h.mem_occurrencesAt hgame hreaches,
      (allowedGames_all h hfit hallowed hgame hlisted).trans hkept⟩

private theorem exists_mapM {α β γ δ : Type} {l : List α} {read : α → Result (List γ)} {paths : List β}
    {f : β → α} {rowsOf : β → List γ} (hperm : l.Perm (paths.map f))
    (hread : ∀ path ∈ paths, read (f path) = .ok (rowsOf path)) (k : List (List γ) → Result δ) :
    ∃ rows, rows.Perm (paths.map rowsOf) ∧ (l.mapM read >>= k) = k rows := by
  have htotal : ∀ a ∈ l, read a = .ok ((read a).toOption.getD []) := by
    intro a ha
    obtain ⟨path, hpath, rfl⟩ := List.mem_map.mp (hperm.mem_iff.mp ha)
    rw [hread path hpath]
    rfl
  refine ⟨_, ?_, congrArg (· >>= k) (mapM_eq_map htotal)⟩
  refine (hperm.map _).trans (.of_eq ?_)
  rw [List.map_map]
  refine List.map_congr_left fun path hpath => ?_
  rw [Function.comp_apply, hread path hpath]
  rfl

private theorem admits_getD {allowed : Option (List UInt32)} (hsome : allowed ≠ some [])
    (gameId : UInt32) :
    admits (allowed.getD []) gameId = allowed.all fun ids => ids.contains gameId := by
  cases allowed with
  | none => rfl
  | some ids =>
    cases ids with
    | nil => exact absurd rfl hsome
    | cons => rfl

private theorem queryTreeSlice_spec (h : b.ValidPostings) (hfit : b.tables.IdsFit)
    {allowed : Option (List UInt32)}
    (hallowed : allowedGames (treeReads b) rootHash filter = .ok allowed) (hsome : allowed ≠ some []) :
    ∃ rows : List (List TreePositionRow), rows.Perm
        ((rootPaths rules b.tables.games filter rootHash).map (pathRows b prefetchDepth)) ∧
      queryTreeSlice rules (treeReads b) rootHash prefetchDepth (allowed.getD []) =
        .ok (rows.filter fun rows => !rows.isEmpty) := by
  have hlisted : ((b.matchesAt rootHash).filter fun found =>
      admits (allowed.getD []) found.gameId).Perm
        ((rootPaths rules b.tables.games filter rootHash).map fun path =>
          matchAt b.replayedRows (pathOccurrence path)) := by
    simp only [admits_getD hsome]
    rw [Bundle.matchesAt, List.filter_map]
    refine ((filter_occurrencesAt_perm h hfit hallowed).map _).trans (.of_eq ?_)
    rw [List.map_map]
    rfl
  obtain ⟨contexts, hcontexts⟩ : ∃ contexts, b.tables.getGameContexts
      (((b.matchesAt rootHash).filter fun found => admits (allowed.getD []) found.gameId).map
        PositionMatch.gameId).dedup = .ok contexts := ⟨_, rfl⟩
  have hread : (treeReads b).getGameContexts
      (((b.matchesAt rootHash).filter fun found => admits (allowed.getD []) found.gameId).map
        PositionMatch.gameId).dedup = .ok contexts := hcontexts
  rw [queryTreeSlice, treeReads_occurrences h, ok_bind]
  dsimp only
  rw [hread, ok_bind]
  refine exists_mapM hlisted (fun path hpath => ?_) fun rows => .ok (rows.filter fun rows => !rows.isEmpty)
  obtain ⟨hgame, -, hreaches⟩ := mem_rootPaths.mp hpath
  have hcontext : contexts.lookup (UInt32.ofNat path.1.id) = some path.1.context := by
    refine Tables.lookup_of_getGameContexts hfit hcontexts hgame ?_
    rw [List.mem_dedup]
    exact List.mem_map_of_mem (hlisted.mem_iff.mpr (List.mem_map_of_mem hpath))
  have hply := h.toNat_ply hgame hreaches
  have hreplay : rules.replay path.1.context.moves (UInt16.ofNat path.2) =
      some (rules.play rules.start (path.1.stored.moves.take path.2)) := by
    have hlength : ¬path.1.context.moves.length < path.2 := Nat.not_lt.mpr hreaches.1
    rw [Chess.Rules.replay, hply, if_neg hlength]
    rfl
  have hid : (matchAt b.replayedRows (pathOccurrence path)).gameId = UInt32.ofNat path.1.id := rfl
  have hat : (matchAt b.replayedRows (pathOccurrence path)).ply = UInt16.ofNat path.2 := rfl
  simp only [hid, hat, hcontext, hreplay, hply]
  rfl

theorem openedFrom_perm (h : b.ValidPostings) (hfit : b.tables.IdsFit)
    {occurrences : List (List TreePositionRow)}
    (hopened : OpenedFrom rules (treeReads b) rootHash prefetchDepth filter occurrences) :
    occurrences.Perm (((rootPaths rules b.tables.games filter rootHash).map
      (pathRows b prefetchDepth)).filter fun rows => !rows.isEmpty) := by
  obtain ⟨allowed, hallowed, ⟨rfl, rfl⟩ | ⟨hsome, hslice⟩⟩ := hopened
  · have hnil : (rootPaths rules b.tables.games filter rootHash).map pathOccurrence = [] := by
      refine List.perm_nil.mp ((filter_occurrencesAt_perm h hfit hallowed).symm.trans (.of_eq ?_))
      exact List.filter_eq_nil_iff.mpr fun o _ => Bool.false_ne_true
    rw [List.map_eq_nil_iff.mp hnil]
    exact List.Perm.refl _
  · obtain ⟨rows, hperm, hrows⟩ := queryTreeSlice_spec h hfit hallowed hsome
    obtain rfl := Except.ok.inj (hslice.symm.trans hrows)
    exact hperm.filter _

/-- Whatever the filter, valid postings give a tree the rows to open it from. -/
theorem exists_openedFrom (h : b.ValidPostings) (hfit : b.tables.IdsFit) (prefetchDepth : ℕ)
    (rootHash : UInt64) (filter : SearchFilter) :
    ∃ occurrences, OpenedFrom rules (treeReads b) rootHash prefetchDepth filter occurrences := by
  obtain ⟨allowed, hallowed⟩ : ∃ allowed,
      allowedGames (treeReads b) rootHash filter = .ok allowed := by
    rw [allowedGames, treeReads_positionGameIds h]
    split_ifs
    · exact ⟨_, rfl⟩
    · obtain ⟨filtered, hfiltered⟩ := @Tables.findGameIdsWithFilter_isOk b.tables
        { filter with position := none } _ (nodup_gameIdsAt b.replayedRows rootHash)
      have hfind : (treeReads b).findGameIdsWithFilter (gameIdsAt b.replayedRows rootHash)
          { filter with position := none } = .ok filtered := hfiltered
      show ∃ allowed, (if (gameIdsAt b.replayedRows rootHash).isEmpty then _ else _) = _
      split_ifs
      · exact ⟨_, rfl⟩
      · exact ⟨some filtered, by rw [hfind]; rfl⟩
  by_cases hsome : allowed = some []
  · exact ⟨[], allowed, hallowed, .inl ⟨hsome, rfl⟩⟩
  · obtain ⟨rows, -, hrows⟩ := @queryTreeSlice_spec _ _ _ _ _ _ rootHash prefetchDepth filter h hfit _
      hallowed hsome
    exact ⟨_, allowed, hallowed, .inr ⟨hsome, hrows⟩⟩

private theorem flatMap_edges_perm (h : b.ValidPostings) (hfit : b.tables.IdsFit)
    {occurrences : List (List TreePositionRow)}
    (hopened : OpenedFrom rules (treeReads b) rootHash prefetchDepth filter occurrences) :
    (occurrences.flatMap (edges rootHash)).Perm
      ((rootPaths rules b.tables.games filter rootHash).flatMap fun path =>
        edges rootHash (pathRows b prefetchDepth path)) := by
  have hnonempty : ∀ rows : List (List TreePositionRow),
      (rows.filter fun rows => !rows.isEmpty).flatMap (edges rootHash) =
        rows.flatMap (edges rootHash) := by
    intro rows
    induction rows with
    | nil => rfl
    | cons first rows ih => cases first <;> simp [edges, ih]
  refine ((openedFrom_perm h hfit hopened).flatMap_right (edges rootHash)).trans (.of_eq ?_)
  rw [hnonempty, List.flatMap_map]

private theorem pathAt_iff {path : GameRow × ℕ} {k : ℕ} (hk : k < prefetchDepth) {hash : UInt64}
    {encodedMove : UInt16} :
    (rules.hash (rules.play (rules.play rules.start (path.1.stored.moves.take path.2))
        (((path.1.stored.moves.drop path.2).take prefetchDepth).take k)) = hash ∧
      ((path.1.stored.moves.drop path.2).take prefetchDepth)[k]? = some encodedMove) ↔
    PathAt rules k hash path ∧ path.1.stored.moves[path.2 + k]? = some encodedMove := by
  rw [List.take_take, Nat.min_eq_left hk.le, List.getElem?_take, if_pos hk, List.getElem?_drop,
    Chess.Rules.play, Chess.Rules.play, ← List.foldl_append, ← List.take_add]
  refine and_congr_left fun hmove => ?_
  have hlt := (List.getElem?_eq_some_iff.mp hmove).1
  exact (and_iff_right hlt.le).symm

private theorem edgeCount_pathRows (h : b.ValidPostings) {path : GameRow × ℕ}
    (hgame : path.1 ∈ b.tables.games) (hreaches : ReachesAt rules path.1.stored.moves rootHash path.2)
    (k : ℕ) (hash : UInt64) (encodedMove : UInt16) (wanted : ℤ → Bool) :
    edgeCount (edges rootHash (pathRows b prefetchDepth path)) ⟨k + 1, hash⟩ encodedMove wanted =
      if k < prefetchDepth ∧ (PathAt rules k hash path ∧
        path.1.stored.moves[path.2 + k]? = some encodedMove) ∧
          wanted (resultCode path.1.readResult) = true then 1 else 0 := by
  obtain ⟨white, black, -, -, hmatch⟩ := matchAt_gameRows h.replayed
    (List.mem_map_of_mem hgame) (show _ = (pathOccurrence path).id from rfl)
  have hresult : (matchAt b.replayedRows (pathOccurrence path)).result =
      resultCode path.1.readResult := congrArg PositionMatch.result hmatch
  rw [edgeCount, ← hreaches.2, pathRows, Nat.add_comm k 1, countP_edges, hresult]
  refine if_congr ?_ rfl rfl
  by_cases hk : k < prefetchDepth
  · rw [and_iff_right hk, ← pathAt_iff hk, and_assoc]
  · simp [hk]

private theorem edgeCount_paths (h : b.ValidPostings) {paths : List (GameRow × ℕ)}
    (hpaths : ∀ path ∈ paths, path.1 ∈ b.tables.games ∧
      ReachesAt rules path.1.stored.moves rootHash path.2) (k : ℕ) (hash : UInt64) :
    edgeCount (paths.flatMap fun path => edges rootHash (pathRows b prefetchDepth path))
        ⟨k + 1, hash⟩ =
      fun encodedMove wanted =>
        if k < prefetchDepth then pathCount rules paths k hash encodedMove wanted else 0 := by
  funext encodedMove wanted
  induction paths with
  | nil => simp [edgeCount, pathCount]
  | cons path paths ih =>
    obtain ⟨hgame, hreaches⟩ := hpaths path List.mem_cons_self
    have hrest := ih fun other hother => hpaths other (List.mem_cons_of_mem _ hother)
    have hfirst : edgeCount (edges rootHash (pathRows b prefetchDepth path)) ⟨k + 1, hash⟩
        encodedMove wanted = _ := edgeCount_pathRows h hgame hreaches k hash encodedMove wanted
    rw [edgeCount] at hrest hfirst
    rw [List.flatMap_cons, edgeCount, List.countP_append, hfirst, hrest, pathCount, pathCount,
      List.countP_cons]
    by_cases hk : k < prefetchDepth
    · simp only [hk, true_and, if_true, Bool.and_eq_true, decide_eq_true_eq]
      exact Nat.add_comm _ _
    · simp [hk]

end Slice

section Counts

/-- What a node so many plies below the root counts: the paths that go on from its position. -/
structure Node.CountsPaths (rules : Chess.Rules) (prefetchDepth : ℕ) (paths : List (GameRow × ℕ))
    (k : ℕ) (n : Node) : Prop where
  tallies : k < prefetchDepth → n.Tallies rules (pathCount rules paths k n.zobristHash)
  ends : prefetchDepth ≤ k → n.continuations = []
  results : ∀ c ∈ n.continuations, c.1.whiteWins + c.1.draws + c.1.blackWins = c.1.frequency
  total : (n.continuations.map fun c => c.1.frequency).sum ≤
    paths.countP fun path => decide (PathAt rules k n.zobristHash path)

variable {paths : List (GameRow × ℕ)} {k : ℕ} {n : Node}

private theorem Node.countsPaths_of_ends (hends : prefetchDepth ≤ k) (hn : n.continuations = []) :
    n.CountsPaths rules prefetchDepth paths k where
  tallies hk := absurd hk hends.not_gt
  ends _ := hn
  results := by simp [hn]
  total := by simp [hn]

private theorem Node.Tallies.countsPaths (h : n.Tallies rules (pathCount rules paths k n.zobristHash))
    (hk : k < prefetchDepth) : n.CountsPaths rules prefetchDepth paths k where
  tallies _ := h
  ends hle := absurd hk hle.not_gt
  results := by
    obtain ⟨position, moves, stats, -, -, hperm, hcounts⟩ := h
    intro c hc
    obtain ⟨move, hmove, hc⟩ := List.mem_map.mp (hperm.mem_iff.mp (List.mem_map_of_mem hc))
    obtain ⟨-, hfrequency, hwhite, hdraws, hblack⟩ := hcounts move hmove
    rw [← hc, hfrequency, hwhite, hdraws, hblack]
    exact pathCount_results paths k n.zobristHash move
  total := by
    obtain ⟨position, moves, stats, hnodup, -, hperm, hcounts⟩ := h
    have hsum : (n.continuations.map fun c => c.1.frequency).sum =
        (moves.map fun move => pathCount rules paths k n.zobristHash move fun _ => true).sum := by
      have hfrequencies := (hperm.map ContinuationStats.frequency).sum_nat
      rw [List.map_map, List.map_map] at hfrequencies
      refine hfrequencies.trans (congrArg List.sum (List.map_congr_left fun move hmove => ?_))
      exact (hcounts move hmove).2.1
    rw [hsum]
    refine sum_countP_le hnodup (fun move _ path _ hplays => ?_) fun move other path hplays hother => ?_
    · rw [Bool.and_true, decide_eq_true_eq] at hplays
      exact decide_eq_true hplays.1
    · rw [Bool.and_true, decide_eq_true_eq] at hplays hother
      exact Option.some.inj (hplays.2.symm.trans hother.2)

private theorem OpenedFrom.isSome_queriedPostings {occurrences : List (List TreePositionRow)}
    (h : OpenedFrom rules (treeReads b) rootHash prefetchDepth filter occurrences) :
    b.queriedPostings.isSome := by
  have hask : ∀ {α : Type} {query : Reader → List UInt8 → Result α} {found : α},
      b.askPostings query = .ok found → b.queriedPostings.isSome := by
    intro α query found hfound
    unfold Bundle.askPostings at hfound
    split at hfound
    next hpostings => rw [hpostings]; rfl
    next => cases hfound
  obtain ⟨allowed, hallowed, ⟨rfl, -⟩ | ⟨-, hslice⟩⟩ := h
  · rw [allowedGames] at hallowed
    split_ifs at hallowed
    · cases Except.ok.inj hallowed
    · obtain ⟨ids, hids, -⟩ := bind_eq_ok.mp hallowed
      exact hask (ioResult_eq_ok hids)
  · obtain ⟨found, hfound, -⟩ := bind_eq_ok.mp hslice
    exact hask hfound

/-- Every node of an opened tree counts the paths of the stored games that the filter keeps. -/
theorem openTree_countsPaths (hpostings : b.queriedPostings.isSome → b.ValidPostings)
    (hfit : b.tables.IdsFit) {order : List (List TreePositionRow) → List (List TreePositionRow)}
    (horder : ∀ l, (order l).Perm l) {tree : Tree}
    (htree : openTree rules order (treeReads b) rootHash prefetchDepth filter = .ok tree) :
    ∀ k n, tree.root.At k n → n.CountsPaths rules prefetchDepth
      (rootPaths rules b.tables.games filter rootHash) k := by
  intro k n hn
  by_cases hdepth : prefetchDepth = 0
  · subst hdepth
    obtain rfl := Except.ok.inj htree
    exact Node.countsPaths_of_ends (Nat.zero_le k) (hn.continuations_eq_nil rfl)
  obtain ⟨occurrences, hopened, htallies⟩ := openTree_tallies horder hdepth htree
  have h := hpostings hopened.isSome_queriedPostings
  have hnode := htallies k n hn
  have hpaths : ∀ path ∈ rootPaths rules b.tables.games filter rootHash,
      path.1 ∈ b.tables.games ∧ ReachesAt rules path.1.stored.moves rootHash path.2 :=
    fun path hpath => ⟨(mem_rootPaths.mp hpath).1, (mem_rootPaths.mp hpath).2.2⟩
  rw [edgeCount_perm (flatMap_edges_perm h hfit hopened), edgeCount_paths h hpaths] at hnode
  by_cases hk : k < prefetchDepth
  · simp only [hk, if_true] at hnode
    exact hnode.countsPaths hk
  · simp only [hk, if_false] at hnode
    obtain ⟨position, moves, stats, -, hmoves, hperm, -⟩ := hnode
    have hnil : moves = [] := List.eq_nil_iff_forall_not_mem.mpr fun move hmove =>
      (hmoves move).mp hmove |>.false
    rw [hnil, List.map_nil, List.perm_nil, List.map_eq_nil_iff] at hperm
    exact Node.countsPaths_of_ends (Nat.not_lt.mp hk) hperm

end Counts

section Sample

/-- Two games that come to the same position by different moves and go on from there alike. -/
def transposedSample : Option (Bundle (.withoutTree .ofSums)) :=
  System.run (Bundle.step fun _ => 0) Bundle.Powered (Bundle.created "sample" "2024-01-01T00:00:00Z")
    [.open {}, .insertGame {} true { Bundle.enteredGame with moves := [1, 2, 4] },
      .insertGame {} true { Bundle.enteredGame with moves := [2, 1, 4], result := "0-1" },
      .rebuildPositionPostings {}]

/-- The two continuations of the root, one for each game. -/
theorem openTree_countsPaths_sample : ∃ b ∈ transposedSample, ∃ tree,
    openTree .ofSums id (treeReads b) 0 3 {} = .ok tree ∧
    (∀ k n, tree.root.At k n →
      n.CountsPaths .ofSums 3 (rootPaths .ofSums b.tables.games {} 0) k) ∧
    (tree.root.continuations.map fun c => [c.1.frequency, c.1.whiteWins, c.1.blackWins]) =
      [[1, 1, 0], [1, 0, 1]] := by
  have hrun : (transposedSample.map fun b => (b.queriedPostings.isSome &&
      b.tables.games.all (fun row => row.id < 2 ^ 32),
      (openTree .ofSums id (treeReads b) 0 3 {}).map fun tree =>
        tree.root.continuations.map fun c => [c.1.frequency, c.1.whiteWins, c.1.blackWins])) =
      some (true, .ok [[1, 1, 0], [1, 0, 1]]) := by
    decide +kernel
  obtain ⟨b, hb, heq⟩ := Option.map_eq_some_iff.mp hrun
  obtain ⟨hchecks, hcounts⟩ := Prod.mk.inj heq
  obtain ⟨hfound, hids⟩ := Bool.and_eq_true_iff.mp hchecks
  have hvalid := Bundle.validPostings_of_reaches (System.reaches_of_run hb) hfound
  have hfit : b.tables.IdsFit := fun row hrow => of_decide_eq_true (List.all_eq_true.mp hids row hrow)
  cases htree : openTree .ofSums id (treeReads b) 0 3 {} with
  | error e =>
    rw [htree] at hcounts
    cases hcounts
  | ok tree =>
    rw [htree] at hcounts
    exact ⟨b, hb, tree, htree, openTree_countsPaths (fun _ => hvalid) hfit (fun l => .refl l) htree,
      Except.ok.inj hcounts⟩

end Sample

end MotifChess.Search.OpeningTree
