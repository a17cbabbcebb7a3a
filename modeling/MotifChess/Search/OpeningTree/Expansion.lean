/- GID: MotifChess/Search/OpeningTree/Expansion
   generality: implementation
   digest: When expanding the root of a tree agrees with opening the tree to the first ply. -/

import MotifChess.Db.Bundle.OpeningFreshness
import MotifChess.Search.OpeningStats.Complete
import MotifChess.Search.OpeningTree.FirstPly

set_option autoImplicit false
set_option relaxedAutoImplicit false

namespace MotifChess.Search.OpeningTree

open MotifChess.Db MotifChess.Db.PositionPostings MotifChess.Db.OpeningTreeIndex
open MotifChess.Search.OpeningStats (keptGames countedGames recordOf ValidIndexes statsReads RootFound
  ContinuedOn Tells withoutElos edgeAfter)

section Conditions

variable (rules : Chess.Rules) (games : List ReplayGame)

/-- No game comes to the position twice. -/
def VisitedOnce (hash : UInt64) : Prop :=
  ∀ game ∈ games, ∀ ply ply', ReachesAt rules game.moves hash ply →
    ReachesAt rules game.moves hash ply' → ply = ply'

/-- A board of the position, from which one of the games goes on. -/
def GoesOnFrom (hash : UInt64) (position : rules.Board) : Prop :=
  ∃ game ∈ games, ∃ ply < game.moves.length, ReachesAt rules game.moves hash ply ∧
    position = rules.play rules.start (game.moves.take ply)

variable {rules} in
/-- A continuation told from a board of its position, with the games that play it. -/
def tellKey (position : rules.Board) (key : EdgeKey) : ContinuationCounts where
  san := rules.san position (edgeOf key).1
  resultHash := (edgeOf key).2
  frequency := (takers rules uint16Max games key).length
  whiteWins := (takers rules uint16Max games key).countP fun game => 0 < mapResult game.result
  draws := (takers rules uint16Max games key).countP fun game => mapResult game.result = 0
  blackWins := (takers rules uint16Max games key).countP fun game => mapResult game.result < 0

/-- No move leads from the position to two others. -/
def OneWay (hash : UInt64) : Prop :=
  ∀ key ∈ referenceEdges rules uint16Max games hash.toNat,
    ∀ other ∈ referenceEdges rules uint16Max games hash.toNat,
      key.encodedMove = other.encodedMove → key = other

instance (hash : UInt64) : Decidable (OneWay rules games hash) :=
  inferInstanceAs (Decidable (∀ key ∈ _, ∀ other ∈ _, _ → _))

/-- The opening statistics find a board of the position. No move leads to two positions. A counted game
that comes to the position after a continuation comes to it by this continuation. And the boards from
which games go on give the continuations the same texts. -/
structure Expandable (counted : List ReplayGame) (hash : UInt64) : Prop where
  rootFound : RootFound rules games hash
  oneWay : OneWay rules games hash
  direct : ∀ key ∈ referenceEdges rules uint16Max games hash.toNat, ∀ game ∈ counted,
    key.childHash ∈ gameVisits rules game → game ∈ takers rules uint16Max games key
  texts : ∀ position position', GoesOnFrom rules games hash position →
    GoesOnFrom rules games hash position' →
      ((referenceEdges rules uint16Max games hash.toNat).map (tellKey games position)).Perm
        ((referenceEdges rules uint16Max games hash.toNat).map (tellKey games position'))

instance (hash : UInt64) : Decidable (VisitedOnce rules games hash) :=
  decidable_of_iff (∀ game ∈ games, ∀ ply < game.moves.length + 1, ∀ ply' < game.moves.length + 1,
      ReachesAt rules game.moves hash ply → ReachesAt rules game.moves hash ply' → ply = ply')
    ⟨fun h game hgame ply ply' hreaches hreaches' => h game hgame ply (Nat.lt_succ_of_le hreaches.1)
        ply' (Nat.lt_succ_of_le hreaches'.1) hreaches hreaches',
      fun h game hgame ply _ ply' _ => h game hgame ply ply'⟩

variable {rules games} {hash : UInt64} {position : rules.Board}

theorem VisitedOnce.goesOnFrom (h : VisitedOnce rules games hash)
    (hcontinued : ContinuedOn rules games hash position) : GoesOnFrom rules games hash position := by
  obtain ⟨game, hgame, ⟨ply, hlt, hreaches⟩, ply', hreaches', hposition⟩ := hcontinued
  obtain rfl := h game hgame ply ply' hreaches hreaches'
  exact ⟨game, hgame, ply, hlt, hreaches, hposition⟩

end Conditions

section Rows

variable {rules : Chess.Rules} {TreeIndex : Type}
  {buildIndex : List ReplayGame → Reader → List UInt8 → Result (List UInt8)}
  {openIndex : List UInt8 → Result TreeIndex} {sourceGameCount : TreeIndex → ℕ}
  {b : Bundle (.ofRules rules TreeIndex buildIndex openIndex sourceGameCount)}
  {rootHash : UInt64} {filter : SearchFilter} {path : GameRow × ℕ} {row : TreePositionRow} {key : EdgeKey}

private theorem length_moves (h : b.ValidPostings) :
    ∀ game ∈ keptGames b.tables filter, game.moves.length ≤ 65535 := fun _ hgame =>
  h.replayed.length_moves ((OpeningStats.keptGames_sublist _ _).subset hgame)

private theorem goesOnFrom_of_firstRow (hpath : path ∈ rootPaths rules b.tables.games filter rootHash)
    (hgoes : (firstRow b path).isSome) : GoesOnFrom rules (keptGames b.tables filter) rootHash
      (rules.play rules.start (path.1.stored.moves.take path.2)) := by
  obtain ⟨hgame, hkept, hreaches⟩ := mem_rootPaths.mp hpath
  obtain ⟨row, hrow⟩ := Option.isSome_iff_exists.mp hgoes
  obtain ⟨encodedMove, hmove, -⟩ := firstRow_eq_some.mp hrow
  exact ⟨recordOf path.1, List.mem_map_of_mem (List.mem_filter.mpr ⟨hgame, hkept⟩), path.2,
    (List.getElem?_eq_some_iff.mp hmove).1, hreaches, rfl⟩

private theorem exists_path_of_goesOnFrom {position : rules.Board}
    (hgoes : GoesOnFrom rules (keptGames b.tables filter) rootHash position) :
    ∃ path ∈ rootPaths rules b.tables.games filter rootHash, (firstRow b path).isSome ∧
      position = rules.play rules.start (path.1.stored.moves.take path.2) := by
  obtain ⟨game, hgame, ply, hlt, hreaches, rfl⟩ := hgoes
  obtain ⟨row, hrow, rfl⟩ := List.mem_map.mp hgame
  obtain ⟨hstored, hkept⟩ := List.mem_filter.mp hrow
  refine ⟨(row, ply), mem_rootPaths.mpr ⟨hstored, hkept, hreaches⟩, ?_, rfl⟩
  rw [Option.isSome_iff_exists]
  exact ⟨_, firstRow_eq_some.mpr ⟨_, List.getElem?_eq_getElem hlt, rfl⟩⟩

private theorem mem_takers_of_firstRow (h : b.ValidPostings)
    (hpath : path ∈ rootPaths rules b.tables.games filter rootHash) (hrow : firstRow b path = some row) :
    recordOf path.1 ∈ takers rules uint16Max (keptGames b.tables filter)
      (edgeFrom rootHash (row.encodedMove, row.childHash)) := by
  obtain ⟨hgame, hkept, hreaches⟩ := mem_rootPaths.mp hpath
  obtain ⟨encodedMove, hmove, rfl⟩ := firstRow_eq_some.mp hrow
  have hrecord : recordOf path.1 ∈ keptGames b.tables filter :=
    List.mem_map_of_mem (List.mem_filter.mpr ⟨hgame, hkept⟩)
  refine (OpeningStats.mem_takers_iff (length_moves h _ hrecord)).mpr
    ⟨hrecord, path.2, encodedMove, hmove, ?_⟩
  rw [edgeFrom, edgeAfter, ← hreaches.2]
  rfl

private theorem edgeFrom_mem_referenceEdges (h : b.ValidPostings) (hrow : row ∈ firstRows b filter rootHash) :
    edgeFrom rootHash (row.encodedMove, row.childHash) ∈
      referenceEdges rules uint16Max (keptGames b.tables filter) rootHash.toNat := by
  obtain ⟨path, hpath, hfirst⟩ := List.mem_filterMap.mp hrow
  exact mem_referenceEdges.mpr ⟨List.ne_nil_of_mem (mem_takers_of_firstRow h hpath hfirst), rfl⟩

private theorem exists_path_of_mem_takers (h : b.ValidPostings) {game : GameRow}
    (hroot : key.rootHash = rootHash.toNat)
    (htaker : recordOf game ∈ takers rules uint16Max (keptGames b.tables filter) key) :
    ∃ ply row, ReachesAt rules game.stored.moves rootHash ply ∧
      firstRow b (game, ply) = some row ∧ edgeOf key = (row.encodedMove, row.childHash) := by
  obtain ⟨-, ply, encodedMove, hmove, rfl⟩ :=
    (OpeningStats.mem_takers_iff (length_moves h _ (takers_subset htaker))).mp htaker
  have hstored : game.stored.moves[ply]? = some encodedMove := hmove
  have hlt := (List.getElem?_eq_some_iff.mp hstored).1
  refine ⟨ply, _, ⟨hlt.le, UInt64.toNat_inj.mp hroot⟩, firstRow_eq_some.mpr ⟨encodedMove, hmove, rfl⟩, ?_⟩
  rw [edgeOf, edgeAfter, UInt16.ofNat_toNat, UInt64.ofNat_toNat]
  rfl

private theorem exists_row_of_mem_referenceEdges (h : b.ValidPostings)
    (hkey : key ∈ referenceEdges rules uint16Max (keptGames b.tables filter) rootHash.toNat) :
    ∃ row ∈ firstRows b filter rootHash, edgeOf key = (row.encodedMove, row.childHash) := by
  obtain ⟨htakers, hroot⟩ := mem_referenceEdges.mp hkey
  obtain ⟨record, hrecord⟩ := List.exists_mem_of_ne_nil _ htakers
  obtain ⟨game, hgame, rfl⟩ := List.mem_map.mp (takers_subset hrecord)
  obtain ⟨hstored, hkept⟩ := List.mem_filter.mp hgame
  obtain ⟨ply, row, hreaches, hrow, hedge⟩ := exists_path_of_mem_takers h hroot hrecord
  exact ⟨row, List.mem_filterMap.mpr ⟨(game, ply), mem_rootPaths.mpr ⟨hstored, hkept, hreaches⟩, hrow⟩,
    hedge⟩

private theorem countP_plies {n k : ℕ} {p : ℕ → Bool} (hk : k < n) (hp : ∀ ply, p ply = true → ply = k) :
    (List.range n).countP p = if p k = true then 1 else 0 := by
  split_ifs with hpk
  · have hsame : (List.range n).countP p = (List.range n).count k := by
      refine List.countP_congr fun ply _ => ?_
      rw [beq_iff_eq]
      exact ⟨hp ply, fun heq => heq ▸ hpk⟩
    exact hsame.trans (List.count_eq_one_of_mem List.nodup_range (List.mem_range.mpr hk))
  · refine List.countP_eq_zero.mpr fun ply _ hply => hpk ?_
    rw [← hp ply hply]
    exact hply

private theorem countP_flatMap_of_one {α β γ : Type} {l : List α} {f : α → List β} {g : α → γ}
    {p : β → Bool} {q : γ → Bool} (hone : ∀ a ∈ l, (f a).countP p = if q (g a) = true then 1 else 0) :
    (l.flatMap f).countP p = (l.map g).countP q := by
  induction l with
  | nil => rfl
  | cons a l ih =>
    rw [List.flatMap_cons, List.countP_append, hone a List.mem_cons_self,
      ih fun other hother => hone other (List.mem_cons_of_mem _ hother), List.map_cons, List.countP_cons,
      Nat.add_comm]

private theorem resultOf_firstRow (h : b.ValidPostings)
    (hpath : path ∈ rootPaths rules b.tables.games filter rootHash) (hrow : firstRow b path = some row) :
    row.result = mapResult (recordOf path.1).result := by
  obtain ⟨hgame, -, -⟩ := mem_rootPaths.mp hpath
  obtain ⟨encodedMove, -, rfl⟩ := firstRow_eq_some.mp hrow
  obtain ⟨white, black, -, -, hmatch⟩ := matchAt_gameRows h.replayed
    (List.mem_map_of_mem hgame) (show _ = (pathOccurrence path).id from rfl)
  exact congrArg PositionMatch.result hmatch

private theorem rowCount_firstRows (h : b.ValidPostings)
    (honce : VisitedOnce rules (keptGames b.tables filter) rootHash)
    (honeWay : OneWay rules (keptGames b.tables filter) rootHash)
    (hkey : key ∈ referenceEdges rules uint16Max (keptGames b.tables filter) rootHash.toNat)
    (wanted : ℤ → Bool) :
    rowCount (firstRows b filter rootHash) (edgeOf key).1 wanted =
      (takers rules uint16Max (keptGames b.tables filter) key).countP fun game =>
        wanted (mapResult game.result) := by
  have hgames : rootPaths rules b.tables.games filter rootHash =
      (filter.selected b.tables.games).flatMap fun game =>
        ((List.range (game.stored.moves.length + 1)).filter fun ply =>
          decide (ReachesAt rules game.stored.moves rootHash ply)).map fun ply => (game, ply) := rfl
  rw [rowCount, firstRows, List.countP_filterMap, hgames, takers, List.countP_filter, keptGames]
  refine countP_flatMap_of_one fun game hgame => ?_
  obtain ⟨hstored, hkept⟩ := List.mem_filter.mp hgame
  have hrecord : recordOf game ∈ keptGames b.tables filter := List.mem_map_of_mem hgame
  have hroot := (mem_referenceEdges.mp hkey).2
  rw [List.countP_map, List.countP_filter]
  by_cases htaker : recordOf game ∈ takers rules uint16Max (keptGames b.tables filter) key
  · obtain ⟨ply, row, hreaches, hrow, hedge⟩ := exists_path_of_mem_takers h hroot htaker
    have hpath : (game, ply) ∈ rootPaths rules b.tables.games filter rootHash :=
      mem_rootPaths.mpr ⟨hstored, hkept, hreaches⟩
    have hplays := (List.mem_filter.mp htaker).2
    rw [countP_plies (Nat.lt_succ_of_le hreaches.1) fun other hother => ?_]
    · simp only [Function.comp_apply, hrow, Option.map_some, Option.getD_some, hedge, hreaches, hplays,
        resultOf_firstRow h hpath hrow, decide_true, Bool.true_and, Bool.and_true]
    · rw [Bool.and_eq_true, decide_eq_true_eq] at hother
      exact honce _ hrecord other ply hother.2 hreaches
  · have hplays : decide (key ∈ (coveredEdges rules uint16Max (recordOf game)).map Prod.fst) = false := by
      refine Bool.eq_false_iff.mpr fun hplays => htaker ?_
      exact List.mem_filter.mpr ⟨hrecord, hplays⟩
    rw [hplays, Bool.and_false, if_neg Bool.false_ne_true]
    refine List.countP_eq_zero.mpr fun ply _ hcounted => htaker ?_
    rw [Bool.and_eq_true, decide_eq_true_eq, Function.comp_apply] at hcounted
    obtain ⟨hcounted, hreaches⟩ := hcounted
    have hpath : (game, ply) ∈ rootPaths rules b.tables.games filter rootHash :=
      mem_rootPaths.mpr ⟨hstored, hkept, hreaches⟩
    cases hrow : firstRow b (game, ply) with
    | none =>
      rw [hrow] at hcounted
      cases hcounted
    | some row =>
      rw [hrow, Option.map_some, Option.getD_some, Bool.and_eq_true, decide_eq_true_eq] at hcounted
      have hplayed := mem_takers_of_firstRow h hpath hrow
      have hlisted := edgeFrom_mem_referenceEdges h (List.mem_filterMap.mpr ⟨_, hpath, hrow⟩)
      have hmove : (edgeFrom rootHash (row.encodedMove, row.childHash)).encodedMove = key.encodedMove := by
        rw [← edgeFrom_edgeOf hkey, hcounted.1]
        rfl
      rw [honeWay _ hlisted key hkey hmove] at hplayed
      exact hplayed

end Rows

section Expanded

variable {rules : Chess.Rules} {encodeF64 : ℚ → ℕ} {decodeF64 : ℕ → ℚ}
  {buildIndex : List ReplayGame → Reader → List UInt8 → Result (List UInt8)}
  {v : View (.ofRules rules Index buildIndex (openIndex rules) Index.sourceGameCount)}
  {rootHash : UInt64} {filter : SearchFilter} {games counted : List ReplayGame} {position : rules.Board}

/-- A continuation as the opening statistics tell it: counted with the games that come to the position
after it. -/
def tellCounted (games counted : List ReplayGame) (position : rules.Board) (key : EdgeKey) :
    ContinuationCounts :=
  { tellKey games position key with frequency := visitCount rules counted key.childHash }

/-- A row as it is told. -/
private def tellRow (position : rules.Board) (row : ExactStatRow) : ContinuationCounts where
  san := rules.san position row.contEncodedMove
  resultHash := row.contHash
  frequency := row.transpositionFrequency.toNat
  whiteWins := row.whiteWins.toNat
  draws := row.draws.toNat
  blackWins := row.blackWins.toNat

private theorem map_counts_of_tells {rows : List ExactStatRow} {told : List OpeningStats.Continuation}
    (h : List.Forall₂ (Tells rules position) rows told) :
    told.map (fun c => (expandContinuation c).1.counts) = rows.map (tellRow position) := by
  induction h with
  | nil => rfl
  | @cons row c rows told htells _ ih =>
    rw [List.map_cons, List.map_cons, ih]
    refine congrArg (· :: _) ?_
    rw [expandContinuation, ContinuationStats.counts, tellRow, htells.san, htells.resultHash,
      htells.frequency, htells.whiteWins, htells.draws, htells.blackWins]

private theorem tellRow_referenceRow (hgames : games.length < 2 ^ 32) (hcounted : counted.length < 2 ^ 32)
    (key : EdgeKey) : tellRow position (referenceRow rules games counted key) =
      tellCounted games counted position key := by
  have hplayed : (takers rules uint16Max games key).length < 2 ^ 32 :=
    List.length_filter_le _ _ |>.trans_lt hgames
  have hresults : ∀ p : ReplayGame → Bool,
      (UInt32.ofNat ((takers rules uint16Max games key).countP p)).toNat =
        (takers rules uint16Max games key).countP p :=
    fun p => UInt32.toNat_ofNat_of_lt' (List.countP_le_length.trans_lt hplayed)
  have hvisits : (UInt32.ofNat (visitCount rules counted key.childHash)).toNat =
      visitCount rules counted key.childHash :=
    UInt32.toNat_ofNat_of_lt' (List.countP_le_length.trans_lt hcounted)
  simp only [tellRow, tellCounted, tellKey, referenceRow, referenceAgg, statisticsOf,
    ExactEdgeAggregate.ofAgg, ExactEdgeAggregate.row, hresults, hvisits]

private theorem length_keptGames_lt (hv : ValidIndexes encodeF64 v) :
    (keptGames v.tables filter).length < 2 ^ 32 ∧
      (countedGames rules v.tables filter rootHash).length < 2 ^ 32 := by
  obtain ⟨reader, file, -, hpostingsOf⟩ := hv.postings
  have hlength := hpostingsOf.answers.2.1
  have hkept := (OpeningStats.keptGames_sublist v.tables filter).length_le.trans_lt hlength
  refine ⟨hkept, ?_⟩
  rw [countedGames]
  split_ifs
  · exact hlength
  · exact (List.length_filter_le _ _).trans_lt hkept

private theorem exists_expanded (hv : ValidIndexes encodeF64 v) (hfit : v.tables.IdsFit) :
    ∃ expanded, expand rules (statsReads v decodeF64) (.mk rootHash [] false) filter = .ok expanded ∧
      (¬RootFound rules (keptGames v.tables filter) rootHash → expanded.counts = []) ∧
      (RootFound rules (keptGames v.tables filter) rootHash → ∃ position,
        (referenceEdges rules uint16Max (keptGames v.tables filter) rootHash.toNat ≠ [] →
          ContinuedOn rules (keptGames v.tables filter) rootHash position) ∧
        expanded.counts.Perm
          ((referenceEdges rules uint16Max (keptGames v.tables filter) rootHash.toNat).map
            (tellCounted (keptGames v.tables filter) (countedGames rules v.tables filter rootHash)
              position))) := by
  have hexpand : ∀ stats, OpeningStats.query rules (statsReads v decodeF64) rootHash filter = .ok stats →
      expand rules (statsReads v decodeF64) (.mk rootHash [] false) filter =
        .ok (.mk rootHash (stats.continuations.map expandContinuation) true) := by
    intro stats hstats
    show (OpeningStats.query rules (statsReads v decodeF64) rootHash filter >>= _) = _
    rw [hstats]
    rfl
  by_cases hfound : RootFound rules (keptGames v.tables filter) rootHash
  · obtain ⟨rows, stats, position, hmap, hcontinued, hquery, told, hperm, htells⟩ :=
      @OpeningStats.query_of_rootFound rules encodeF64 decodeF64 buildIndex v rootHash filter hv hfit hfound
    refine ⟨_, hexpand stats hquery, fun hmissed => absurd hfound hmissed, fun _ => ⟨position, ?_, ?_⟩⟩
    · refine fun hedges => hcontinued fun hnil => hedges ?_
      rw [hnil, List.map_nil, referenceRows] at hmap
      exact List.map_eq_nil_iff.mp (List.map_eq_nil_iff.mp hmap.symm)
    · obtain ⟨hkept, hcounted⟩ := @length_keptGames_lt rules encodeF64 buildIndex v rootHash filter hv
      have hsame : ∀ rows : List ExactStatRow, rows.map (tellRow position) =
          (rows.map withoutElos).map (tellRow position) := fun rows => by
        rw [List.map_map]
        rfl
      have hrows : rows.map (tellRow position) =
          (referenceEdges rules uint16Max (keptGames v.tables filter) rootHash.toNat).map
            (tellCounted (keptGames v.tables filter) (countedGames rules v.tables filter rootHash)
              position) := by
        rw [hsame, hmap, ← hsame, referenceRows, List.map_map]
        exact List.map_congr_left fun key _ => tellRow_referenceRow hkept hcounted key
      rw [← hrows, ← map_counts_of_tells htells, Node.counts, Node.continuations, List.map_map]
      exact (hperm.map _).symm
  · obtain ⟨rows, -, -, hquery⟩ := @OpeningStats.query_of_not_rootFound rules encodeF64 decodeF64
      buildIndex v rootHash filter hv hfit hfound
    exact ⟨_, hexpand {} hquery, fun _ => rfl, fun hroot => absurd hroot hfound⟩

end Expanded

section Counted

variable {rules : Chess.Rules} {t : Tables} {rootHash : UInt64} {filter : SearchFilter} {key : EdgeKey}

/-- The kept games that count for what a continuation leads to. -/
private def comesTo (rules : Chess.Rules) (filter : SearchFilter) (rootHash : UInt64) (key : EdgeKey)
    (game : ReplayGame) : Bool :=
  decide (key.childHash ∈ gameVisits rules game) &&
    (!filter.hasMetadataFilter || decide (rootHash.toNat ∈ gameVisits rules game))

private theorem filter_countedGames :
    (countedGames rules t filter rootHash).filter (fun game => key.childHash ∈ gameVisits rules game) =
      (keptGames t filter).filter (comesTo rules filter rootHash key) := by
  rw [countedGames]
  cases hmetadata : filter.hasMetadataFilter with
  | false =>
    rw [Bool.not_false, if_pos rfl, OpeningStats.keptGames_of_not_hasMetadataFilter hmetadata]
    refine List.filter_congr fun game _ => ?_
    rw [comesTo, hmetadata, Bool.not_false, Bool.true_or, Bool.and_true]
  | true =>
    rw [Bool.not_true, if_neg Bool.false_ne_true, List.filter_filter]
    refine List.filter_congr fun game _ => ?_
    rw [comesTo, hmetadata, Bool.not_true, Bool.false_or]

private theorem takers_sublist (hroot : key.rootHash = rootHash.toNat) :
    (takers rules uint16Max (keptGames t filter) key).Sublist
      ((countedGames rules t filter rootHash).filter fun game =>
        key.childHash ∈ gameVisits rules game) := by
  rw [filter_countedGames, takers]
  refine List.monotone_filter_right _ fun game hplayed => ?_
  have hedge := of_decide_eq_true hplayed
  have hvisit : rootHash.toNat ∈ gameVisits rules game := by
    rw [← hroot, mem_gameVisits]
    exact List.mem_of_mem_take (root_mem_rootsWithin hedge)
  rw [comesTo, decide_eq_true (child_mem_gameVisits hedge), decide_eq_true hvisit, Bool.or_true]
  rfl

private theorem length_takers_eq_iff (hroot : key.rootHash = rootHash.toNat) :
    (takers rules uint16Max (keptGames t filter) key).length =
        visitCount rules (countedGames rules t filter rootHash) key.childHash ↔
      ∀ game ∈ countedGames rules t filter rootHash, key.childHash ∈ gameVisits rules game →
        game ∈ takers rules uint16Max (keptGames t filter) key := by
  have hsublist := @takers_sublist rules t rootHash filter key hroot
  rw [visitCount, List.countP_eq_length_filter]
  constructor
  · intro hlength game hgame hvisit
    rw [hsublist.eq_of_length hlength]
    exact List.mem_filter.mpr ⟨hgame, decide_eq_true hvisit⟩
  · intro hdirect
    refine Nat.le_antisymm hsublist.length_le ?_
    have hcounted := @filter_countedGames rules t rootHash filter key
    rw [hcounted, takers, ← List.countP_eq_length_filter, ← List.countP_eq_length_filter]
    refine List.countP_mono_left fun game hgame hcomes => ?_
    have hmem := hcounted ▸ List.mem_filter.mpr ⟨hgame, hcomes⟩
    obtain ⟨hlisted, hvisit⟩ := List.mem_filter.mp hmem
    exact (List.mem_filter.mp (hdirect game hlisted (of_decide_eq_true hvisit))).2

end Counted

section Indexed

variable {rules : Chess.Rules} {encodeF64 : ℚ → ℕ}
  {buildIndex : List ReplayGame → Reader → List UInt8 → Result (List UInt8)}
  {b : Bundle (.ofRules rules Index buildIndex (openIndex rules) Index.sourceGameCount)}
  {v : View (.ofRules rules Index buildIndex (openIndex rules) Index.sourceGameCount)}

/-- The indexes that an open bundle gives its queries are valid: it has postings of the stored games, and
any tree that it has was built of these games. -/
structure ValidlyIndexed (encodeF64 : ℚ → ℕ)
    (b : Bundle (.ofRules rules Index buildIndex (openIndex rules) Index.sourceGameCount))
    (v : View (.ofRules rules Index buildIndex (openIndex rules) Index.sourceGameCount)) : Prop where
  view : b.view = some v
  postings : b.ValidPostings
  tree : ∀ tree treeFile, v.tree = some (tree, treeFile) → ∃ bytes, treeFile = some bytes ∧
    TreeOf rules encodeF64 b.tables.replayGames tree bytes

private theorem ValidlyIndexed.tables (h : ValidlyIndexed encodeF64 b v) : v.tables = b.tables := by
  obtain ⟨m, -, rfl⟩ := Option.map_eq_some_iff.mp h.view
  rfl

private theorem ValidlyIndexed.validIndexes (h : ValidlyIndexed encodeF64 b v) :
    ValidIndexes encodeF64 v := by
  obtain ⟨reader, bytes, hasked, hbuild, hopen⟩ := h.postings
  obtain ⟨v', hv', hpostings⟩ := Option.bind_eq_some_iff.mp hasked
  obtain rfl := Option.some.inj (h.view.symm.trans hv')
  rw [← h.tables] at hbuild
  refine ⟨⟨reader, bytes, hpostings, defaultSpillThreshold, by decide, hbuild, hopen⟩, ?_⟩
  rw [h.tables]
  exact h.tree

end Indexed

section Runs

variable {rules : Chess.Rules} {encodeF64 : ℚ → ℕ} {order : IterationOrder}
  {b : Bundle (.ofProgram rules encodeF64 order)} {v : View (.ofProgram rules encodeF64 order)}

/-- In every run without a power failure, an open bundle that finds postings is validly indexed. -/
theorem validlyIndexed_of_reaches {moveHash : List UInt16 → UInt64} {name createdAt : String}
    (h : Bundle.Reaches moveHash Bundle.Powered name createdAt b) (hview : b.view = some v)
    (hfound : v.postings.isSome) : ValidlyIndexed encodeF64 b v := by
  have hfits := System.Reaches.mono h fun _ _ hpowered => Bundle.Powered.survivorsFit hpowered
  have hcovered := Bundle.Reaches.covered lawful_ofProgram hfits
  obtain ⟨⟨reader, file⟩, hpostings⟩ := Option.isSome_iff_exists.mp hfound
  have htables : v.tables = b.tables := by
    obtain ⟨m, -, rfl⟩ := Option.map_eq_some_iff.mp hview
    rfl
  refine ⟨hview, hcovered.postingsValid (Option.bind_eq_some_iff.mpr ⟨v, hview, hpostings⟩), ?_⟩
  rw [← htables]
  exact fun _ _ => (hcovered.current hview).treeOf

end Runs

section Agreement

variable {rules : Chess.Rules} {encodeF64 : ℚ → ℕ} {decodeF64 : ℕ → ℚ}
  {buildIndex : List ReplayGame → Reader → List UInt8 → Result (List UInt8)}
  {b : Bundle (.ofRules rules Index buildIndex (openIndex rules) Index.sourceGameCount)}
  {v : View (.ofRules rules Index buildIndex (openIndex rules) Index.sourceGameCount)}
  {rootHash : UInt64} {filter : SearchFilter} {position : rules.Board} {n : Node}

private theorem fst_edgeOf_injOn {key other : EdgeKey}
    (hkey : key ∈ referenceEdges rules uint16Max (keptGames b.tables filter) rootHash.toNat)
    (hother : other ∈ referenceEdges rules uint16Max (keptGames b.tables filter) rootHash.toNat) :
    (edgeOf key).1 = (edgeOf other).1 ↔ key.encodedMove = other.encodedMove := by
  rw [← edgeFrom_edgeOf hkey, ← edgeFrom_edgeOf hother, edgeOf_edgeFrom, edgeOf_edgeFrom]
  exact UInt16.toNat_inj.symm

private theorem moves_perm (h : b.ValidPostings) {moves : List UInt16} (hnodup : moves.Nodup)
    (hmoves : ∀ move, move ∈ moves ↔ ∃ row ∈ firstRows b filter rootHash, row.encodedMove = move) :
    moves.Perm ((referenceEdges rules uint16Max (keptGames b.tables filter) rootHash.toNat).map
      fun key => (edgeOf key).1).dedup := by
  refine (List.perm_ext_iff_of_nodup hnodup (List.nodup_dedup _)).mpr fun move => ?_
  rw [hmoves, List.mem_dedup, List.mem_map]
  constructor
  · rintro ⟨row, hrow, rfl⟩
    refine ⟨_, edgeFrom_mem_referenceEdges h hrow, ?_⟩
    rw [edgeOf_edgeFrom]
  · rintro ⟨key, hkey, rfl⟩
    obtain ⟨row, hrow, hedge⟩ := exists_row_of_mem_referenceEdges h hkey
    exact ⟨row, hrow, (congrArg Prod.fst hedge).symm⟩

private theorem counts_perm_of_tellsRows (h : b.ValidPostings)
    (honce : VisitedOnce rules (keptGames b.tables filter) rootHash)
    (honeWay : OneWay rules (keptGames b.tables filter) rootHash)
    (htells : n.TellsRows position (firstRows b filter rootHash)) :
    n.counts.Perm ((referenceEdges rules uint16Max (keptGames b.tables filter) rootHash.toNat).map
      (tellKey (keptGames b.tables filter) position)) := by
  obtain ⟨moves, childHash, hnodup, hmoves, hchild, hcounts⟩ := htells
  have hedges : ((referenceEdges rules uint16Max (keptGames b.tables filter) rootHash.toNat).map
      fun key => (edgeOf key).1).Nodup := by
    have hdistinct : (referenceEdges rules uint16Max (keptGames b.tables filter) rootHash.toNat).Nodup :=
      (pairwise_referenceEdges _ _ _).imp ne_of_lt
    refine hdistinct.map_on fun key hkey other hother hsame => ?_
    exact honeWay key hkey other hother ((fst_edgeOf_injOn hkey hother).mp hsame)
  have hperm := moves_perm h hnodup hmoves
  rw [hedges.dedup] at hperm
  refine hcounts.trans ((hperm.map _).trans (.of_eq ?_))
  rw [List.map_map]
  refine List.map_congr_left fun key hkey => ?_
  have hcount := rowCount_firstRows h honce honeWay hkey
  obtain ⟨row, hrow, hmove, hleads⟩ := hchild _ (hperm.mem_iff.mpr (List.mem_map_of_mem hkey))
  have hsame : edgeFrom rootHash (row.encodedMove, row.childHash) = key := by
    refine honeWay _ (edgeFrom_mem_referenceEdges h hrow) key hkey ?_
    rw [← edgeFrom_edgeOf hkey, hmove]
    rfl
  have hresult : childHash (edgeOf key).1 = (edgeOf key).2 := by
    rw [hleads, ← hsame, edgeOf_edgeFrom]
  rw [Function.comp_apply, tellMove, tellKey]
  simp only [hcount, hresult, List.countP_true]

private theorem oneWay_of_length (h : b.ValidPostings)
    (htells : n.TellsRows position (firstRows b filter rootHash))
    (hlength : n.counts.length =
      (referenceEdges rules uint16Max (keptGames b.tables filter) rootHash.toNat).length) :
    OneWay rules (keptGames b.tables filter) rootHash := by
  obtain ⟨moves, childHash, hnodup, hmoves, -, hcounts⟩ := htells
  have hperm := (moves_perm h hnodup hmoves).length_eq
  have hcount := hcounts.length_eq
  rw [List.length_map] at hcount
  have hdedup : (List.map (fun key => (edgeOf key).1)
      (referenceEdges rules uint16Max (keptGames b.tables filter) rootHash.toNat)).dedup =
        List.map (fun key => (edgeOf key).1)
          (referenceEdges rules uint16Max (keptGames b.tables filter) rootHash.toNat) := by
    refine (List.dedup_sublist _).eq_of_length ?_
    rw [List.length_map]
    omega
  intro key hkey other hother hsame
  exact List.inj_on_of_nodup_map (List.dedup_eq_self.mp hdedup) hkey hother
    ((fst_edgeOf_injOn hkey hother).mpr hsame)

private theorem length_takers_of_perm {keys : List EdgeKey} {position' : rules.Board}
    (hkeys : ∀ key ∈ keys, key.rootHash = rootHash.toNat)
    (hperm : (keys.map (tellKey (keptGames b.tables filter) position)).Perm
      (keys.map (tellCounted (keptGames b.tables filter) (countedGames rules b.tables filter rootHash)
        position'))) :
    ∀ key ∈ keys, (takers rules uint16Max (keptGames b.tables filter) key).length =
      visitCount rules (countedGames rules b.tables filter rootHash) key.childHash := by
  have hle : ∀ key ∈ keys, (takers rules uint16Max (keptGames b.tables filter) key).length ≤
      visitCount rules (countedGames rules b.tables filter rootHash) key.childHash := by
    intro key hkey
    rw [visitCount, List.countP_eq_length_filter]
    exact (takers_sublist (hkeys key hkey)).length_le
  have hsum := (hperm.map ContinuationCounts.frequency).sum_nat
  rw [List.map_map, List.map_map] at hsum
  intro key hkey
  by_contra hne
  exact (List.sum_lt_sum _ _ hle ⟨key, hkey, lt_of_le_of_ne (hle key hkey) hne⟩).ne hsum

private theorem map_tellCounted {keys : List EdgeKey}
    (hlength : ∀ key ∈ keys, (takers rules uint16Max (keptGames b.tables filter) key).length =
      visitCount rules (countedGames rules b.tables filter rootHash) key.childHash) :
    keys.map (tellCounted (keptGames b.tables filter) (countedGames rules b.tables filter rootHash)
      position) = keys.map (tellKey (keptGames b.tables filter) position) := by
  refine List.map_congr_left fun key hkey => ?_
  rw [tellCounted, ← hlength key hkey]
  rfl

private theorem expandsAlike_iff_perm {order : List (List TreePositionRow) → List (List TreePositionRow)}
    {database : Database} {stats : OpeningStats.Database} {expanded : Node} {opened : Tree}
    (hexpanded : expand rules stats (.mk rootHash [] false) filter = .ok expanded)
    (hopened : openTree rules order database rootHash 1 filter = .ok opened) :
    ExpandsAlike rules order database stats rootHash filter ↔
      expanded.counts.Perm opened.root.counts := by
  have hclosed : openTree rules order database rootHash 0 filter = .ok ⟨.mk rootHash [] false, 0⟩ := rfl
  constructor
  · rintro ⟨closed, expanded', opened', hclosed', hexpanded', hopened', hperm⟩
    obtain rfl := Except.ok.inj (hclosed.symm.trans hclosed')
    obtain rfl := Except.ok.inj (hexpanded.symm.trans hexpanded')
    obtain rfl := Except.ok.inj (hopened.symm.trans hopened')
    exact hperm
  · intro hperm
    exact ⟨_, expanded, opened, hclosed, hexpanded, hopened, hperm⟩

private theorem exists_path_of_referenceEdges (h : b.ValidPostings) {key : EdgeKey}
    (hkey : key ∈ referenceEdges rules uint16Max (keptGames b.tables filter) rootHash.toNat) :
    ∃ path ∈ rootPaths rules b.tables.games filter rootHash, (firstRow b path).isSome := by
  obtain ⟨row, hrow, -⟩ := exists_row_of_mem_referenceEdges h hkey
  obtain ⟨path, hpath, hfirst⟩ := List.mem_filterMap.mp hrow
  exact ⟨path, hpath, by rw [hfirst]; rfl⟩

private theorem counts_ne_nil (h : b.ValidPostings)
    (htells : n.TellsRows position (firstRows b filter rootHash)) {key : EdgeKey}
    (hkey : key ∈ referenceEdges rules uint16Max (keptGames b.tables filter) rootHash.toNat) :
    n.counts ≠ [] := by
  obtain ⟨row, hrow, -⟩ := exists_row_of_mem_referenceEdges h hkey
  obtain ⟨moves, childHash, -, hmoves, -, hcounts⟩ := htells
  have hmove : row.encodedMove ∈ moves := (hmoves _).mpr ⟨row, hrow, rfl⟩
  exact List.ne_nil_of_mem (hcounts.mem_iff.mpr (List.mem_map_of_mem hmove))

private theorem expandable_of_expandsAlike (hv : ValidlyIndexed encodeF64 b v) (hfit : b.tables.IdsFit)
    (honce : VisitedOnce rules (keptGames b.tables filter) rootHash)
    (halike : ∀ order : List (List TreePositionRow) → List (List TreePositionRow),
      (∀ l, (order l).Perm l) →
        ExpandsAlike rules order (treeReads b) (statsReads v decodeF64) rootHash filter) :
    Expandable rules (keptGames b.tables filter) (countedGames rules b.tables filter rootHash)
      rootHash := by
  have h := hv.postings
  have hexpand := @exists_expanded rules encodeF64 decodeF64 buildIndex v rootHash filter
    hv.validIndexes (hv.tables ▸ hfit)
  rw [hv.tables] at hexpand
  obtain ⟨expanded, hexpanded, hmissed, hfound⟩ := hexpand
  have hall : ∀ path ∈ rootPaths rules b.tables.games filter rootHash, (firstRow b path).isSome →
      ∃ n : Node, n.TellsRows (rules.play rules.start (path.1.stored.moves.take path.2))
        (firstRows b filter rootHash) ∧ expanded.counts.Perm n.counts := by
    intro path hpath hgoes
    obtain ⟨order, horder, opened, hopened, htells⟩ := exists_order h hfit hpath hgoes
    exact ⟨opened.root, htells, (expandsAlike_iff_perm hexpanded hopened).mp (halike order horder)⟩
  have hroot : RootFound rules (keptGames b.tables filter) rootHash := by
    by_contra hnot
    refine hnot fun front hfront => ?_
    have hkey := List.mem_of_head? hfront
    obtain ⟨path, hpath, hgoes⟩ := exists_path_of_referenceEdges h hkey
    obtain ⟨n, htells, hperm⟩ := hall path hpath hgoes
    rw [hmissed hnot] at hperm
    exact absurd (List.perm_nil.mp hperm.symm) (counts_ne_nil h htells hkey)
  obtain ⟨position, -, hcounts⟩ := hfound hroot
  have honeWay : OneWay rules (keptGames b.tables filter) rootHash := by
    intro key hkey
    obtain ⟨path, hpath, hgoes⟩ := exists_path_of_referenceEdges h hkey
    obtain ⟨n, htells, hperm⟩ := hall path hpath hgoes
    have hlength := hperm.symm.length_eq.trans hcounts.length_eq
    rw [List.length_map] at hlength
    exact oneWay_of_length h htells hlength key hkey
  have htold : ∀ path ∈ rootPaths rules b.tables.games filter rootHash, (firstRow b path).isSome →
      ((referenceEdges rules uint16Max (keptGames b.tables filter) rootHash.toNat).map
        (tellKey (keptGames b.tables filter)
          (rules.play rules.start (path.1.stored.moves.take path.2)))).Perm
      ((referenceEdges rules uint16Max (keptGames b.tables filter) rootHash.toNat).map
        (tellCounted (keptGames b.tables filter) (countedGames rules b.tables filter rootHash)
          position)) := by
    intro path hpath hgoes
    obtain ⟨n, htells, hperm⟩ := hall path hpath hgoes
    exact (counts_perm_of_tellsRows h honce honeWay htells).symm.trans (hperm.symm.trans hcounts)
  refine ⟨hroot, honeWay, fun key hkey => ?_, fun position position' hposition hposition' => ?_⟩
  · obtain ⟨path, hpath, hgoes⟩ := exists_path_of_referenceEdges h hkey
    refine (length_takers_eq_iff (mem_referenceEdges.mp hkey).2).mp ?_
    exact length_takers_of_perm (fun other hother => (mem_referenceEdges.mp hother).2)
      (htold path hpath hgoes) key hkey
  · obtain ⟨path, hpath, hgoes, rfl⟩ := exists_path_of_goesOnFrom (b := b) hposition
    obtain ⟨path', hpath', hgoes', rfl⟩ := exists_path_of_goesOnFrom (b := b) hposition'
    exact (htold path hpath hgoes).trans (htold path' hpath' hgoes').symm

private theorem expandsAlike_of_expandable (hv : ValidlyIndexed encodeF64 b v) (hfit : b.tables.IdsFit)
    (honce : VisitedOnce rules (keptGames b.tables filter) rootHash)
    (hexpandable : Expandable rules (keptGames b.tables filter)
      (countedGames rules b.tables filter rootHash) rootHash)
    {order : List (List TreePositionRow) → List (List TreePositionRow)}
    (horder : ∀ l, (order l).Perm l) :
    ExpandsAlike rules order (treeReads b) (statsReads v decodeF64) rootHash filter := by
  have h := hv.postings
  have hexpand := @exists_expanded rules encodeF64 decodeF64 buildIndex v rootHash filter
    hv.validIndexes (hv.tables ▸ hfit)
  rw [hv.tables] at hexpand
  obtain ⟨expanded, hexpanded, -, hfound⟩ := hexpand
  obtain ⟨position, hcontinued, hcounts⟩ := hfound hexpandable.rootFound
  obtain ⟨opened, hopened, hnone, hsome⟩ := exists_opened h hfit horder
  refine (expandsAlike_iff_perm hexpanded hopened).mpr (hcounts.trans ?_)
  rw [map_tellCounted fun key hkey =>
    (length_takers_eq_iff (mem_referenceEdges.mp hkey).2).mpr (hexpandable.direct key hkey)]
  by_cases hrows : firstRows b filter rootHash = []
  · have hedges : referenceEdges rules uint16Max (keptGames b.tables filter) rootHash.toNat = [] := by
      refine List.eq_nil_iff_forall_not_mem.mpr fun key hkey => ?_
      obtain ⟨row, hrow, -⟩ := exists_row_of_mem_referenceEdges h hkey
      rw [hrows] at hrow
      cases hrow
    rw [hnone hrows, hedges, List.map_nil]
  · obtain ⟨path, hpath, hgoes, htells⟩ := hsome hrows
    obtain ⟨row, hrow⟩ := List.exists_mem_of_ne_nil _ hrows
    have hedges := List.ne_nil_of_mem (edgeFrom_mem_referenceEdges h hrow)
    have htold := counts_perm_of_tellsRows h honce hexpandable.oneWay htells
    exact (hexpandable.texts _ _ (honce.goesOnFrom (hcontinued hedges))
      (goesOnFrom_of_firstRow hpath hgoes)).trans htold.symm

/-- On a root that no kept game comes to twice, a closed tree that is expanded at its root has the
continuations of a tree opened to the first ply exactly when the position is expandable. -/
theorem expandsAlike_iff (hv : ValidlyIndexed encodeF64 b v) (hfit : b.tables.IdsFit)
    (honce : VisitedOnce rules (keptGames b.tables filter) rootHash) :
    (∀ order : List (List TreePositionRow) → List (List TreePositionRow), (∀ l, (order l).Perm l) →
      ExpandsAlike rules order (treeReads b) (statsReads v decodeF64) rootHash filter) ↔
    Expandable rules (keptGames b.tables filter) (countedGames rules b.tables filter rootHash)
      rootHash :=
  ⟨expandable_of_expandsAlike hv hfit honce, fun hexpandable _ horder =>
    expandsAlike_of_expandable hv hfit honce hexpandable horder⟩

end Agreement

section Sample

/-- Two games that end in one position; the first of them comes to it from the position after 1 and 2. -/
def crossedSample : Option (Bundle Bundle.sumIndexes) :=
  System.run (Bundle.step fun _ => 0) Bundle.Powered (Bundle.created "sample" "2024-01-01T00:00:00Z")
    [.open {}, .insertGame {} true { Bundle.enteredGame with moves := [1, 2, 4] },
      .insertGame {} true { Bundle.enteredGame with moves := [4, 2, 1], result := "0-1" },
      .rebuildPositionPostings {}, .rebuildOpeningTreeIndex {}]

private def crossedGames : List ReplayGame :=
  [⟨1, "1-0", none, none, [1, 2, 4]⟩, ⟨2, "0-1", none, none, [4, 2, 1]⟩]

private theorem exists_crossed : ∃ b ∈ crossedSample, ∃ v, ValidlyIndexed Codec.Binary64.encode b v ∧
    b.tables.IdsFit ∧ keptGames b.tables {} = crossedGames ∧
      ((openTree .ofSums id (treeReads b) 3 1 {}).map fun tree => tree.root.counts) =
        .ok [⟨"", 7, 1, 1, 0, 0⟩] := by
  have hrun : (crossedSample.map fun b => (b.tables.games.all (fun row => decide (row.id < 2 ^ 32)),
      keptGames b.tables {}, b.view.map fun v => v.postings.isSome)) =
        some (true, crossedGames, some true) := by
    decide +kernel
  have hopened : (crossedSample.map fun b : Bundle Bundle.sumIndexes =>
      (openTree .ofSums id (treeReads b) 3 1 {}).map fun tree => tree.root.counts) =
        some (.ok [⟨"", 7, 1, 1, 0, 0⟩]) := by
    decide +kernel
  obtain ⟨b, hb, hasked⟩ := Option.map_eq_some_iff.mp hrun
  obtain ⟨hids, hasked⟩ := Prod.mk.inj hasked
  obtain ⟨hkept, hfound⟩ := Prod.mk.inj hasked
  obtain ⟨v, hview, hpostings⟩ := Option.map_eq_some_iff.mp hfound
  rw [hb, Option.map_some] at hopened
  exact ⟨b, hb, v, validlyIndexed_of_reaches (System.reaches_of_run hb) hview hpostings,
    idsFit_of_all hids, hkept, Option.some.inj hopened⟩

private theorem countedGames_crossed {b : Bundle Bundle.sumIndexes}
    (hkept : keptGames b.tables {} = crossedGames) (rootHash : UInt64) :
    countedGames .ofSums b.tables {} rootHash = crossedGames :=
  (OpeningStats.keptGames_of_not_hasMetadataFilter rfl).symm.trans hkept

/-- One game plays on from the position after 1 and 2. It is counted once when the tree is opened, and
twice when the root is expanded, since another game comes to the next position by other moves. -/
theorem expand_counts_transpositions : ∃ b ∈ crossedSample, ∃ v expanded opened,
    ValidlyIndexed Codec.Binary64.encode b v ∧ VisitedOnce .ofSums b.tables.replayGames 3 ∧
    expand .ofSums (statsReads v Codec.Binary64.decode) (.mk 3 [] false) {} = .ok expanded ∧
    openTree .ofSums id (treeReads b) 3 1 {} = .ok opened ∧
    expanded.counts = [⟨"", 7, 2, 1, 0, 0⟩] ∧ opened.root.counts = [⟨"", 7, 1, 1, 0, 0⟩] ∧
    ¬ExpandsAlike .ofSums id (treeReads b) (statsReads v Codec.Binary64.decode) 3 {} := by
  obtain ⟨b, hb, v, hv, hfit, hkept, hcounts⟩ := exists_crossed
  have honce : VisitedOnce .ofSums (keptGames b.tables {}) 3 := by
    rw [hkept]
    decide +kernel
  rw [OpeningStats.keptGames_of_not_hasMetadataFilter rfl] at honce
  have hexpand := @exists_expanded _ _ Codec.Binary64.decode _ v 3 {} hv.validIndexes (hv.tables ▸ hfit)
  rw [hv.tables, hkept, countedGames_crossed hkept] at hexpand
  obtain ⟨expanded, hexpanded, -, hfound⟩ := hexpand
  have hroot : RootFound .ofSums crossedGames 3 := by
    decide +kernel
  obtain ⟨position, -, hperm⟩ := hfound hroot
  have htold : (referenceEdges .ofSums uint16Max crossedGames (3 : UInt64).toNat).map
      (tellCounted crossedGames crossedGames position) = [⟨"", 7, 2, 1, 0, 0⟩] := by
    have hposition : tellCounted crossedGames crossedGames position =
        @tellCounted .ofSums crossedGames crossedGames (0 : UInt64) := rfl
    rw [hposition]
    decide +kernel
  rw [htold, List.perm_singleton] at hperm
  cases hopened : openTree .ofSums id (treeReads b) 3 1 {} with
  | error e =>
    rw [hopened] at hcounts
    cases hcounts
  | ok opened =>
    rw [hopened] at hcounts
    have hshown : opened.root.counts = [⟨"", 7, 1, 1, 0, 0⟩] := Except.ok.inj hcounts
    refine ⟨b, hb, v, expanded, opened, hv, honce, hexpanded, hopened, hperm, hshown, ?_⟩
    rw [expandsAlike_iff_perm hexpanded hopened, hperm, hshown]
    decide

/-- The position after 1 is expandable: only the game that goes on from it comes to the next one. -/
theorem expandsAlike_iff_sample : ∃ b ∈ crossedSample, ∃ v,
    ValidlyIndexed Codec.Binary64.encode b v ∧
    ∀ order : List (List TreePositionRow) → List (List TreePositionRow), (∀ l, (order l).Perm l) →
      ExpandsAlike .ofSums order (treeReads b) (statsReads v Codec.Binary64.decode) 1 {} := by
  obtain ⟨b, hb, v, hv, hfit, hkept, -⟩ := exists_crossed
  have honce : VisitedOnce .ofSums (keptGames b.tables {}) 1 := by
    rw [hkept]
    decide +kernel
  refine ⟨b, hb, v, hv, (expandsAlike_iff hv hfit honce).mpr ?_⟩
  rw [countedGames_crossed hkept, hkept]
  exact ⟨by decide +kernel, by decide +kernel, by decide +kernel, fun _ _ _ _ => .refl _⟩

end Sample

end MotifChess.Search.OpeningTree
