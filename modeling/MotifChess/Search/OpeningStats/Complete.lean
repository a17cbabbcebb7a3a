/- GID: MotifChess/Search/OpeningStats/Complete
   generality: implementation
   digest: Opening statistics report every row exactly when a sample stands on the position in time. -/

import MotifChess.Search.OpeningStats.Rows

set_option autoImplicit false
set_option relaxedAutoImplicit false

namespace MotifChess.Search.OpeningStats

open MotifChess.Db MotifChess.Db.PositionPostings MotifChess.Db.OpeningTreeIndex
open MotifChess.Search.OpeningTree (GameContext ioResult)

section Samples

variable (rules : Chess.Rules) (games : List ReplayGame)

/-- The lowest ply at which any game plays a continuation. -/
def firstPly (key : EdgeKey) : ℕ :=
  (leastPly (games.flatMap (coveredEdges rules uint16Max)) key).getD 0

/-- A game that plays a continuation and has the lowest or the highest id of those that do. -/
def IsSample (key : EdgeKey) (game : ReplayGame) : Prop :=
  game ∈ takers rules uint16Max games key ∧
    ((∀ other ∈ takers rules uint16Max games key, game.id ≤ other.id) ∨
      ∀ other ∈ takers rules uint16Max games key, other.id ≤ game.id)

instance (key : EdgeKey) (game : ReplayGame) : Decidable (IsSample rules games key game) :=
  inferInstanceAs (Decidable (_ ∧ _))

/-- The first continuation, by move and then by the position reached, is played from the start, or a
sample of some continuation stands on the position at the very ply at which the first is played. -/
def RootFound (hash : UInt64) : Prop :=
  ∀ front ∈ (referenceEdges rules uint16Max games hash.toNat).head?,
    firstPly rules games front = 0 ∨
      ∃ key ∈ referenceEdges rules uint16Max games hash.toNat, ∃ game ∈ games,
        IsSample rules games key game ∧ ReachesAt rules game.moves hash (firstPly rules games front)

instance (hash : UInt64) : Decidable (RootFound rules games hash) :=
  inferInstanceAs (Decidable (∀ front ∈ _, _))

/-- A board of the position, which one of the games comes to. -/
def StandsOn (hash : UInt64) (position : rules.Board) : Prop :=
  ∃ game ∈ games, ∃ ply, ReachesAt rules game.moves hash ply ∧
    position = rules.play rules.start (game.moves.take ply)

/-- A board of the position, which a game that goes on from it comes to. -/
def ContinuedOn (hash : UInt64) (position : rules.Board) : Prop :=
  ∃ game ∈ games, (∃ ply < game.moves.length, ReachesAt rules game.moves hash ply) ∧
    ∃ ply, ReachesAt rules game.moves hash ply ∧
      position = rules.play rules.start (game.moves.take ply)

variable {rules games} in
private theorem ContinuedOn.standsOn {hash : UInt64} {position : rules.Board}
    (h : ContinuedOn rules games hash position) : StandsOn rules games hash position := by
  obtain ⟨game, hgame, -, hstands⟩ := h
  exact ⟨game, hgame, hstands⟩

end Samples

section Reports

variable (rules : Chess.Rules)

/-- A continuation tells a row: its move from the position, where it leads, and its counts. -/
structure Tells (position : rules.Board) (row : ExactStatRow) (c : Continuation) : Prop where
  san : c.san = rules.san position row.contEncodedMove
  resultHash : c.resultHash = row.contHash
  frequency : c.frequency = row.transpositionFrequency
  directFrequency : c.directFrequency = row.frequency
  whiteWins : c.whiteWins = row.whiteWins
  draws : c.draws = row.draws
  blackWins : c.blackWins = row.blackWins
  averageWhiteElo : c.averageWhiteElo = row.avgWhiteElo
  averageBlackElo : c.averageBlackElo = row.avgBlackElo
  eloWeightedScore : c.eloWeightedScore = row.eloWeightedScore.getD 0

/-- Statistics report rows of a position: as many games as come to it, and one continuation for each
row, told from a board of the position; they are not empty where games go on. -/
structure Reports (games : List ReplayGame) (hash : UInt64) (rows : List ExactStatRow)
    (stats : Stats) : Prop where
  totalGames : stats.totalGames.toNat = visitCount rules games hash.toNat
  continuations : ∃ position, (rows ≠ [] → StandsOn rules games hash position) ∧
    ∃ told, told.Perm stats.continuations ∧ List.Forall₂ (Tells rules position) rows told
  continued : (∃ game ∈ games, ∃ ply < game.moves.length, ReachesAt rules game.moves hash ply) →
    stats.totalGames ≠ 0 ∧ stats.continuations ≠ []

variable {rules} {buildTree : List ReplayGame → Reader → List UInt8 → Result (List UInt8)}

/-- Whatever rows the aggregation of a position yields, the query reports them. -/
def Complete (decodeF64 : ℕ → ℚ)
    (v : View (.ofRules rules Index buildTree (openIndex rules) Index.sourceGameCount))
    (hash : UInt64) (filter : SearchFilter) : Prop :=
  ∀ rows, aggregation decodeF64 v hash filter = .ok rows → ∃ stats,
    query rules (statsReads v decodeF64) hash filter = .ok stats ∧
      Reports rules (keptGames v.tables filter) hash rows stats

end Reports

section Visits

variable {rules : Chess.Rules} {games : List ReplayGame} {hash : UInt64} {game : ReplayGame}

private theorem ioResult_ok {α : Type} (a : α) : ioResult (.ok a : Result α) = .ok a := rfl

private theorem mem_hashes_iff {board : rules.Board} {moves : List UInt16} {h : ℕ} :
    h ∈ (rules.hash board).toNat :: hashesAfter rules board moves ↔
      ∃ ply ≤ moves.length, (rules.hash (rules.play board (moves.take ply))).toNat = h := by
  induction moves generalizing board with
  | nil =>
    simp only [hashesAfter, List.mem_singleton, List.length_nil, Nat.le_zero, List.take_nil]
    constructor
    · exact fun heq => ⟨0, rfl, heq.symm⟩
    · rintro ⟨_, _, heq⟩
      exact heq.symm
  | cons encodedMove moves ih =>
    rw [hashesAfter, List.mem_cons, ih]
    constructor
    · rintro (rfl | ⟨ply, hle, rfl⟩)
      · exact ⟨0, Nat.zero_le _, rfl⟩
      · exact ⟨ply + 1, Nat.succ_le_succ hle, rfl⟩
    · rintro ⟨ply, hle, rfl⟩
      cases ply with
      | zero => exact .inl rfl
      | succ ply => exact .inr ⟨ply, Nat.le_of_succ_le_succ hle, rfl⟩

private theorem mem_gameVisits_iff :
    hash.toNat ∈ gameVisits rules game ↔ ∃ ply, ReachesAt rules game.moves hash ply := by
  rw [mem_gameVisits]
  refine mem_hashes_iff.trans (exists_congr fun ply => and_congr_right fun _ => ?_)
  exact UInt64.toNat_inj

private theorem visitCount_pos_iff : 0 < visitCount rules games hash.toNat ↔
    ∃ game ∈ games, ∃ ply, ReachesAt rules game.moves hash ply := by
  rw [visitCount, List.countP_pos_iff]
  refine exists_congr fun game => and_congr_right fun _ => ?_
  rw [decide_eq_true_eq, mem_gameVisits_iff]

end Visits

section Front

variable {rules : Chess.Rules} {games counted : List ReplayGame} {hash : UInt64} {key : EdgeKey}
  {row : ExactStatRow} {rows : List ExactStatRow}

/-- The continuation that a game plays after so many plies. -/
def edgeAfter (rules : Chess.Rules) (moves : List UInt16) (ply : ℕ) (encodedMove : UInt16) : EdgeKey :=
  ⟨(rules.hash (rules.play rules.start (moves.take ply))).toNat, encodedMove.toNat,
    (rules.hash (rules.play rules.start (moves.take (ply + 1)))).toNat⟩

/-- The games that play a continuation are those that play its move in the position it starts from
and come to the position it leads to. -/
theorem mem_takers_iff {game : ReplayGame} (hlength : game.moves.length ≤ 65535) :
    game ∈ takers rules uint16Max games key ↔ game ∈ games ∧ ∃ ply encodedMove,
      game.moves[ply]? = some encodedMove ∧ key = edgeAfter rules game.moves ply encodedMove := by
  rw [takers, List.mem_filter, decide_eq_true_eq, List.mem_map]
  refine and_congr_right fun _ => ?_
  constructor
  · rintro ⟨⟨key, ply⟩, hcovered, rfl⟩
    obtain ⟨k, encodedMove, hmove, rfl, rfl⟩ := mem_playedFrom_iff.mp (List.mem_filter.mp hcovered).1
    exact ⟨k, encodedMove, hmove, rfl⟩
  · rintro ⟨ply, encodedMove, hmove, rfl⟩
    obtain ⟨hlt, -⟩ := List.getElem?_eq_some_iff.mp hmove
    have hcap : ply ≤ uint16Max := by
      rw [uint16Max]
      omega
    refine ⟨(edgeAfter rules game.moves ply encodedMove, ply), List.mem_filter.mpr
      ⟨mem_playedFrom_iff.mpr ⟨ply, encodedMove, hmove, (Nat.zero_add ply).symm, rfl⟩, ?_⟩, rfl⟩
    exact decide_eq_true (.inl hcap)

private theorem exists_edge (hrows : rows.map withoutElos =
    (referenceRows rules games counted hash).map withoutElos) (hrow : row ∈ rows) :
    ∃ key ∈ referenceEdges rules uint16Max games hash.toNat,
      withoutElos row = withoutElos (referenceRow rules games counted key) := by
  have hmem : withoutElos row ∈ (referenceRows rules games counted hash).map withoutElos :=
    hrows ▸ List.mem_map_of_mem hrow
  obtain ⟨other, hother, hsame⟩ := List.mem_map.mp hmem
  obtain ⟨key, hkey, rfl⟩ := List.mem_map.mp hother
  exact ⟨key, hkey, hsame.symm⟩

private theorem exists_row (hrows : rows.map withoutElos =
    (referenceRows rules games counted hash).map withoutElos)
    (hkey : key ∈ referenceEdges rules uint16Max games hash.toNat) :
    ∃ row ∈ rows, withoutElos row = withoutElos (referenceRow rules games counted key) := by
  have hmem : withoutElos (referenceRow rules games counted key) ∈ rows.map withoutElos :=
    hrows ▸ List.mem_map_of_mem (List.mem_map_of_mem hkey)
  exact List.mem_map.mp hmem

private theorem mem_sampleIds (hrow : withoutElos row = withoutElos (referenceRow rules games counted key))
    (hplayed : takers rules uint16Max games key ≠ []) {id : UInt32} :
    id ∈ sampleIds row ↔ ∃ game, IsSample rules games key game ∧ UInt32.ofNat game.id = id := by
  have hids : (takers rules uint16Max games key).map ReplayGame.id ≠ [] :=
    mt List.map_eq_nil_iff.mp hplayed
  obtain ⟨least, hleast⟩ := exists_min? hids
  obtain ⟨greatest, hgreatest⟩ := exists_max? hids
  have hmin : row.ecoSampleMin = UInt32.ofNat least := by
    have hfield := congrArg ExactStatRow.ecoSampleMin hrow
    refine hfield.trans (congrArg UInt32.ofNat ?_)
    rw [referenceAgg, statisticsOf, hleast]
    rfl
  have hmax : row.ecoSampleMax = UInt32.ofNat greatest := by
    have hfield := congrArg ExactStatRow.ecoSampleMax hrow
    refine hfield.trans (congrArg UInt32.ofNat ?_)
    rw [referenceAgg, statisticsOf, hgreatest]
    rfl
  obtain ⟨hleast, hbelow⟩ := List.min?_eq_some_iff.mp hleast
  obtain ⟨hgreatest, habove⟩ := List.max?_eq_some_iff.mp hgreatest
  rw [sampleIds, hmin, hmax, List.mem_cons, List.mem_singleton]
  constructor
  · rintro (rfl | rfl)
    · obtain ⟨game, hgame, rfl⟩ := List.mem_map.mp hleast
      exact ⟨game, ⟨hgame, .inl fun other hother => hbelow _ (List.mem_map_of_mem hother)⟩, rfl⟩
    · obtain ⟨game, hgame, rfl⟩ := List.mem_map.mp hgreatest
      exact ⟨game, ⟨hgame, .inr fun other hother => habove _ (List.mem_map_of_mem hother)⟩, rfl⟩
  · rintro ⟨game, ⟨hgame, hlow | hhigh⟩, rfl⟩
    · obtain ⟨other, hother, rfl⟩ := List.mem_map.mp hleast
      exact .inl (congrArg _ (Nat.le_antisymm (hlow other hother)
        (hbelow _ (List.mem_map_of_mem hgame))))
    · obtain ⟨other, hother, rfl⟩ := List.mem_map.mp hgreatest
      exact .inr (congrArg _ (Nat.le_antisymm (habove _ (List.mem_map_of_mem hgame))
        (hhigh other hother)))

/-- A continuation that is played has a ply of its own width at which it is first played, by a game
that comes to the position at this ply. -/
private theorem exists_firstPly (hmoves : ∀ game ∈ games, game.moves.length ≤ 65535)
    (hkey : key ∈ referenceEdges rules uint16Max games hash.toNat) :
    (UInt16.ofNat (firstPly rules games key)).toNat = firstPly rules games key ∧
      ∃ game ∈ games, firstPly rules games key < game.moves.length ∧
        ReachesAt rules game.moves hash (firstPly rules games key) := by
  obtain ⟨hplayed, hroot⟩ := mem_referenceEdges.mp hkey
  obtain ⟨ply, hply, game, hgame, hcovered⟩ := exists_leastPly hplayed
  obtain ⟨k, encodedMove, hmove, rfl, rfl⟩ := mem_playedFrom_iff.mp (List.mem_filter.mp hcovered).1
  obtain ⟨hlt, -⟩ := List.getElem?_eq_some_iff.mp hmove
  have hlength := hmoves game hgame
  rw [firstPly, hply, Option.getD_some, Nat.zero_add]
  refine ⟨?_, game, hgame, hlt, hlt.le, UInt64.toNat_inj.mp hroot⟩
  rw [UInt16.toNat_ofNat']
  exact Nat.mod_eq_of_lt (by omega)

/-- A game that plays a continuation of the position goes on from it. -/
private theorem exists_ply_of_mem_takers (hmoves : ∀ game ∈ games, game.moves.length ≤ 65535)
    (hkey : key ∈ referenceEdges rules uint16Max games hash.toNat) {game : ReplayGame}
    (hgame : game ∈ takers rules uint16Max games key) :
    ∃ ply < game.moves.length, ReachesAt rules game.moves hash ply := by
  obtain ⟨ply, encodedMove, hmove, rfl⟩ :=
    ((mem_takers_iff (hmoves game (takers_subset hgame))).mp hgame).2
  have hlt := (List.getElem?_eq_some_iff.mp hmove).1
  exact ⟨ply, hlt, hlt.le, UInt64.toNat_inj.mp (mem_referenceEdges.mp hkey).2⟩

private theorem takers_ne_nil {maxRootPly : ℕ} (hkey : key ∈ referenceEdges rules maxRootPly games hash.toNat) :
    takers rules maxRootPly games key ≠ [] := (mem_referenceEdges.mp hkey).1

end Front

section Boards

variable {rules : Chess.Rules} {t : Tables} {games counted : List ReplayGame} {hash : UInt64}
  {rows : List ExactStatRow} {contexts : List (UInt32 × GameContext)} {ply : UInt16}

/-- The contexts of some games that have been read hold the moves of these games. -/
def Holds (contexts : List (UInt32 × GameContext)) (games : List ReplayGame) (ids : List UInt32) :
    Prop :=
  ∀ game ∈ games, UInt32.ofNat game.id ∈ ids →
    ∃ context, contexts.lookup (UInt32.ofNat game.id) = some context ∧ context.moves = game.moves

private theorem holds_getGameContexts (hfit : t.IdsFit) (hgames : games ⊆ t.replayGames) {ids : List UInt32}
    (hcontexts : t.getGameContexts ids = .ok contexts) : Holds contexts games ids := by
  intro game hgame hid
  obtain ⟨row, hrow, rfl⟩ := List.mem_map.mp (hgames hgame)
  exact ⟨row.context, Tables.lookup_of_getGameContexts hfit hcontexts hrow hid, rfl⟩

private theorem sampleBoard_eq_some {ids : List UInt32} (h : Holds contexts games ids) {game : ReplayGame}
    (hgame : game ∈ games) (hid : UInt32.ofNat game.id ∈ ids) {board : rules.Board} :
    sampleBoard rules contexts hash ply (UInt32.ofNat game.id) = some board ↔
      ReachesAt rules game.moves hash ply.toNat ∧
        board = rules.play rules.start (game.moves.take ply.toNat) := by
  obtain ⟨context, hlookup, hmoves⟩ := h game hgame hid
  rw [sampleBoard, hlookup, Option.bind_some, hmoves, Chess.Rules.replay, Option.filter_eq_some_iff,
    decide_eq_true_eq, ReachesAt]
  split_ifs with hshort
  · constructor
    · rintro ⟨hnone, -⟩
      cases hnone
    · rintro ⟨⟨hle, -⟩, -⟩
      omega
  · constructor
    · rintro ⟨hboard, hhash⟩
      obtain rfl := Option.some.inj hboard
      exact ⟨⟨Nat.le_of_not_lt hshort, hhash⟩, rfl⟩
    · rintro ⟨⟨-, hhash⟩, rfl⟩
      exact ⟨rfl, hhash⟩

private theorem findRootBoard_spec (hmoves : ∀ game ∈ games, game.moves.length ≤ 65535) (hrows : rows.map withoutElos =
    (referenceRows rules games counted hash).map withoutElos)
    (h : Holds contexts games (rows.flatMap sampleIds)) :
    (∀ board, findRootBoard rules rows ply hash contexts = some board →
        ContinuedOn rules games hash board) ∧
      ((findRootBoard rules rows ply hash contexts).isSome = true ↔
        ∃ key ∈ referenceEdges rules uint16Max games hash.toNat, ∃ game ∈ games,
          IsSample rules games key game ∧ ReachesAt rules game.moves hash ply.toNat) := by
  have hsample : ∀ id ∈ rows.flatMap sampleIds, ∃ key ∈ referenceEdges rules uint16Max games hash.toNat,
      ∃ game ∈ games, IsSample rules games key game ∧ UInt32.ofNat game.id = id := by
    intro id hid
    obtain ⟨row, hrow, hmem⟩ := List.mem_flatMap.mp hid
    obtain ⟨key, hkey, hsame⟩ := exists_edge hrows hrow
    obtain ⟨game, hgame, rfl⟩ := (mem_sampleIds hsame (takers_ne_nil hkey)).mp hmem
    exact ⟨key, hkey, game, takers_subset hgame.1, hgame, rfl⟩
  constructor
  · intro board hboard
    obtain ⟨id, hid, hfound⟩ := List.exists_of_findSome?_eq_some hboard
    obtain ⟨key, hkey, game, hgame, hissample, rfl⟩ := hsample id hid
    obtain ⟨hreaches, rfl⟩ := (sampleBoard_eq_some h hgame hid).mp hfound
    exact ⟨game, hgame, exists_ply_of_mem_takers hmoves hkey hissample.1, _, hreaches, rfl⟩
  · rw [findRootBoard, List.findSome?_isSome_iff]
    constructor
    · rintro ⟨id, hid, hfound⟩
      obtain ⟨key, hkey, game, hgame, hissample, rfl⟩ := hsample id hid
      obtain ⟨board, hboard⟩ := Option.isSome_iff_exists.mp hfound
      exact ⟨key, hkey, game, hgame, hissample, ((sampleBoard_eq_some h hgame hid).mp hboard).1⟩
    · rintro ⟨key, hkey, game, hgame, hissample, hreaches⟩
      obtain ⟨row, hrow, hsame⟩ := exists_row hrows hkey
      have hid : UInt32.ofNat game.id ∈ rows.flatMap sampleIds := List.mem_flatMap.mpr
        ⟨row, hrow, (mem_sampleIds hsame (takers_ne_nil hkey)).mpr ⟨game, hissample, rfl⟩⟩
      refine ⟨_, hid, ?_⟩
      rw [(sampleBoard_eq_some h hgame hid).mpr ⟨hreaches, rfl⟩]
      rfl

end Boards

section Build

variable {rules : Chess.Rules} {t : Tables} {games counted : List ReplayGame} {hash : UInt64}
  {rows : List ExactStatRow} {database : Database} {totalGames : UInt32}

private theorem exists_front {front : ExactStatRow} {rest : List ExactStatRow}
    (hrows : (front :: rest).map withoutElos =
      (referenceRows rules games counted hash).map withoutElos) :
    ∃ key, (referenceEdges rules uint16Max games hash.toNat).head? = some key ∧
      front.rootPly = UInt16.ofNat (firstPly rules games key) := by
  rw [referenceRows] at hrows
  cases hedges : referenceEdges rules uint16Max games hash.toNat with
  | nil =>
    rw [hedges] at hrows
    cases hrows
  | cons key keys =>
    rw [hedges] at hrows
    have hfront := congrArg ExactStatRow.rootPly (List.cons.inj hrows).1
    exact ⟨key, rfl, hfront⟩

private theorem buildStats_cons (hfit : t.IdsFit) (hgames : games ⊆ t.replayGames)
    (hreads : database.getGameContexts = t.getGameContexts) (front : ExactStatRow)
    (rest : List ExactStatRow) :
    ∃ contexts, Holds contexts games ((front :: rest).flatMap sampleIds) ∧
      buildStats rules database hash (front :: rest) totalGames =
        .ok ((if 0 < front.rootPly then
            findRootBoard rules (front :: rest) front.rootPly hash contexts
          else some rules.start).elim {} (present rules contexts (front :: rest) totalGames)) := by
  obtain ⟨contexts, hcontexts⟩ : ∃ contexts,
      t.getGameContexts ((front :: rest).flatMap sampleIds).mergeSort.dedup = .ok contexts := ⟨_, rfl⟩
  have hholds := holds_getGameContexts hfit hgames hcontexts
  refine ⟨contexts, fun game hgame hid => hholds game hgame ?_, ?_⟩
  · rw [List.mem_dedup, List.mem_mergeSort]
    exact hid
  · rw [buildStats, List.head?_cons]
    dsimp only
    rw [hreads, hcontexts]
    rfl

private theorem buildStats_of_rootFound (hfit : t.IdsFit) (hgames : games ⊆ t.replayGames)
    (hmoves : ∀ game ∈ games, game.moves.length ≤ 65535)
    (hreads : database.getGameContexts = t.getGameContexts) (hrows : rows.map withoutElos =
      (referenceRows rules games counted hash).map withoutElos) (hfound : RootFound rules games hash) :
    ∃ contexts position, (rows ≠ [] → ContinuedOn rules games hash position) ∧
      Holds contexts games (rows.flatMap sampleIds) ∧
      buildStats rules database hash rows totalGames =
        .ok (present rules contexts rows totalGames position) := by
  cases rows with
  | nil =>
    refine ⟨[], rules.start, fun hne => absurd rfl hne, fun game _ hid => ?_, rfl⟩
    cases hid
  | cons front rest =>
    obtain ⟨contexts, hholds, hbuild⟩ :=
      @buildStats_cons rules t games hash database totalGames hfit hgames hreads front rest
    obtain ⟨key, hhead, hply⟩ := exists_front hrows
    obtain ⟨hwidth, game, hgame, hgoes, hreaches⟩ := exists_firstPly hmoves (List.mem_of_head? hhead)
    rw [hbuild]
    by_cases hzero : firstPly rules games key = 0
    · refine ⟨contexts, rules.start, fun _ => ?_, hholds, ?_⟩
      · rw [hzero] at hreaches
        rw [hzero] at hgoes
        exact ⟨game, hgame, ⟨0, hgoes, hreaches⟩, 0, hreaches, rfl⟩
      · rw [hply, hzero]
        rfl
    · have hpos : 0 < front.rootPly := by
        rw [hply, UInt16.lt_iff_toNat_lt, hwidth]
        exact Nat.pos_of_ne_zero hzero
      obtain ⟨hstands, hspec⟩ := @findRootBoard_spec rules games counted hash (front :: rest) contexts
        front.rootPly hmoves hrows hholds
      rw [hply, hwidth, ← hply] at hspec
      obtain ⟨position, hposition⟩ :=
        Option.isSome_iff_exists.mp (hspec.mpr ((hfound key hhead).resolve_left hzero))
      refine ⟨contexts, position, fun _ => hstands _ hposition, hholds, ?_⟩
      rw [if_pos hpos, hposition]
      rfl

private theorem buildStats_of_not_rootFound (hfit : t.IdsFit) (hgames : games ⊆ t.replayGames)
    (hmoves : ∀ game ∈ games, game.moves.length ≤ 65535)
    (hreads : database.getGameContexts = t.getGameContexts) (hrows : rows.map withoutElos =
      (referenceRows rules games counted hash).map withoutElos)
    (hfound : ¬RootFound rules games hash) :
    rows ≠ [] ∧ buildStats rules database hash rows totalGames = .ok {} := by
  cases rows with
  | nil =>
    have hedges : referenceEdges rules uint16Max games hash.toNat = [] := by
      rw [referenceRows, List.map_map] at hrows
      exact List.map_eq_nil_iff.mp hrows.symm
    refine absurd (fun front hfront => ?_) hfound
    rw [hedges] at hfront
    cases hfront
  | cons front rest =>
    obtain ⟨contexts, hholds, hbuild⟩ :=
      @buildStats_cons rules t games hash database totalGames hfit hgames hreads front rest
    obtain ⟨key, hhead, hply⟩ := exists_front hrows
    obtain ⟨hwidth, -⟩ := exists_firstPly hmoves (List.mem_of_head? hhead)
    refine ⟨List.cons_ne_nil _ _, ?_⟩
    have hmissed : ¬(firstPly rules games key = 0 ∨
        ∃ key' ∈ referenceEdges rules uint16Max games hash.toNat, ∃ game ∈ games,
          IsSample rules games key' game ∧
            ReachesAt rules game.moves hash (firstPly rules games key)) := by
      refine fun h => hfound fun other hother => ?_
      obtain rfl := Option.some.inj (hother.symm.trans hhead)
      exact h
    obtain ⟨hzero, hnone⟩ := not_or.mp hmissed
    have hpos : 0 < front.rootPly := by
      rw [hply, UInt16.lt_iff_toNat_lt, hwidth]
      exact Nat.pos_of_ne_zero hzero
    obtain ⟨-, hspec⟩ := @findRootBoard_spec rules games counted hash (front :: rest) contexts
      front.rootPly hmoves hrows hholds
    rw [hply, hwidth, ← hply] at hspec
    have hmiss : findRootBoard rules (front :: rest) front.rootPly hash contexts = none :=
      Option.not_isSome_iff_eq_none.mp (mt hspec.mp hnone)
    rw [hbuild, if_pos hpos, hmiss]
    rfl

private theorem exists_told {contexts : List (UInt32 × GameContext)} {position : rules.Board}
    {told : List ExactStatRow} (hknown : ∀ row ∈ told, (resolveEco contexts row).isSome = true) :
    List.Forall₂ (Tells rules position) told (told.filterMap (presentRow rules contexts position)) := by
  induction told with
  | nil => exact .nil
  | cons row told ih =>
    obtain ⟨context, hcontext⟩ := Option.isSome_iff_exists.mp (hknown row List.mem_cons_self)
    rw [List.filterMap_cons, presentRow, hcontext]
    refine .cons ?_ (ih fun other hother => hknown other (List.mem_cons_of_mem _ hother))
    constructor <;> rfl

private theorem isSome_resolveEco (hrows : rows.map withoutElos =
    (referenceRows rules games counted hash).map withoutElos)
    {contexts : List (UInt32 × GameContext)} (h : Holds contexts games (rows.flatMap sampleIds)) :
    ∀ row ∈ rows, (resolveEco contexts row).isSome = true := by
  intro row hrow
  obtain ⟨key, hkey, hsame⟩ := exists_edge hrows hrow
  have hmem : row.ecoSampleMin ∈ sampleIds row := List.mem_cons_self
  obtain ⟨game, hgame, hid⟩ := (mem_sampleIds hsame (takers_ne_nil hkey)).mp hmem
  have hlisted : UInt32.ofNat game.id ∈ rows.flatMap sampleIds :=
    List.mem_flatMap.mpr ⟨row, hrow, hid ▸ hmem⟩
  obtain ⟨context, hlookup, -⟩ := h game (takers_subset hgame.1) hlisted
  refine List.findSome?_isSome_iff.mpr ⟨row.ecoSampleMin, hmem, ?_⟩
  rw [← hid, hlookup]
  rfl

private theorem referenceEdges_ne_nil (hmoves : ∀ game ∈ games, game.moves.length ≤ 65535)
    {game : ReplayGame} (hgame : game ∈ games) {ply : ℕ} (hply : ply < game.moves.length)
    (hreaches : ReachesAt rules game.moves hash ply) :
    referenceEdges rules uint16Max games hash.toNat ≠ [] := by
  have htaker : game ∈ takers rules uint16Max games
      (edgeAfter rules game.moves ply game.moves[ply]) :=
    (mem_takers_iff (hmoves game hgame)).mpr
      ⟨hgame, ply, game.moves[ply], List.getElem?_eq_getElem hply, rfl⟩
  refine List.ne_nil_of_mem (mem_referenceEdges.mpr ⟨List.ne_nil_of_mem htaker, ?_⟩)
  exact congrArg UInt64.toNat hreaches.2

end Build

section Queries

variable {rules : Chess.Rules} {encodeF64 : ℚ → ℕ} {decodeF64 : ℕ → ℚ}
  {buildTree : List ReplayGame → Reader → List UInt8 → Result (List UInt8)}
  {v : View (.ofRules rules Index buildTree (openIndex rules) Index.sourceGameCount)}
  {hash : UInt64} {filter : SearchFilter} {rows : List ExactStatRow}

private theorem visitCount_keptGames_le (t : Tables) (filter : SearchFilter) (hash : ℕ) :
    visitCount rules (keptGames t filter) hash ≤ visitCount rules t.replayGames hash :=
  (keptGames_sublist t filter).countP_le

theorem ValidIndexes.length_moves (hv : ValidIndexes encodeF64 v) :
    ∀ game ∈ keptGames v.tables filter, game.moves.length ≤ 65535 := by
  obtain ⟨reader, file, -, hpostingsOf⟩ := hv.postings
  intro game hgame
  exact hpostingsOf.answers.1.length_moves ((keptGames_sublist _ _).subset hgame)

private theorem ValidIndexes.visitCount_lt (hv : ValidIndexes encodeF64 v) :
    visitCount rules (keptGames v.tables filter) hash.toNat < 2 ^ 32 := by
  obtain ⟨reader, file, -, hpostingsOf⟩ := hv.postings
  exact ((visitCount_keptGames_le _ _ _).trans List.countP_le_length).trans_lt
    hpostingsOf.answers.2.1

private theorem query_cases (hv : ValidIndexes encodeF64 v) (hfit : v.tables.IdsFit)
    (hrows : aggregation decodeF64 v hash filter = .ok rows) :
    visitCount rules (keptGames v.tables filter) hash.toNat = 0 ∧
        query rules (statsReads v decodeF64) hash filter = .ok {} ∨
      query rules (statsReads v decodeF64) hash filter =
        buildStats rules (statsReads v decodeF64) hash rows
          (UInt32.ofNat (visitCount rules (keptGames v.tables filter) hash.toNat)) := by
  obtain ⟨reader, file, hpostings, hpostingsOf⟩ := hv.postings
  obtain ⟨hreplayed, -, hanswers⟩ := hpostingsOf.answers
  have hids : (statsReads v decodeF64).positionGameIds hash =
      .ok (gameIdsAt (gameRows rules v.tables.replayGames) hash) := by
    show askView v _ = _
    rw [askView, hpostings]
    exact hanswers.distinctGameIds hash
  have hlength := length_gameIdsAt_eq_visitCount hreplayed hash
  rw [query]
  rw [aggregation] at hrows
  cases hmetadata : filter.hasMetadataFilter with
  | false =>
    rw [hmetadata, Bool.not_false, if_pos rfl] at hrows
    rw [Bool.not_false, if_pos rfl, keptGames_of_not_hasMetadataFilter hmetadata, queryAll]
    have hsummary : (statsReads v decodeF64).positionSummary hash =
        .ok (summaryAt (gameRows rules v.tables.replayGames) hash) := by
      show positionSummary v hash = _
      rw [positionSummary, askView, hpostings]
      exact hanswers.summary hash
    have hcount := distinctGameCount_summaryAt (gameRows rules v.tables.replayGames) hash
    have hquery : (statsReads v decodeF64).queryUnfilteredOpeningStats hash = .ok rows := hrows
    rw [hsummary]
    cases hfound : summaryAt (gameRows rules v.tables.replayGames) hash with
    | none =>
      have hnone := summaryAt_eq_none hfound
      rw [hnone] at hids hlength
      refine .inl ⟨hlength.symm, ?_⟩
      show (ioResult ((statsReads v decodeF64).positionGameIds hash) >>= _) = _
      rw [hids]
      rfl
    | some summary =>
      rw [hfound, Option.elim_some, hlength] at hcount
      refine .inr ?_
      show (ioResult ((statsReads v decodeF64).queryUnfilteredOpeningStats hash) >>= _) = _
      rw [hquery, hcount]
      rfl
  | true =>
    obtain ⟨filteredIds, hfiltered, hfilteredLength, -⟩ :=
      @findGameIdsWithFilter_spec rules v.tables filter hash hreplayed hfit
    have hfind : (statsReads v decodeF64).findGameIdsWithFilter
        (gameIdsAt (gameRows rules v.tables.replayGames) hash) { filter with position := none } =
        .ok filteredIds := hfiltered
    have hask : askView v (fun reader file => reader.distinctGameIds file hash.toNat) =
        .ok (gameIdsAt (gameRows rules v.tables.replayGames) hash) := hids
    rw [hmetadata, Bool.not_true, if_neg Bool.false_ne_true, hask, ok_bind, hfiltered, ok_bind] at hrows
    have hquery : (statsReads v decodeF64).queryFilteredOpeningStats hash filteredIds = .ok rows :=
      hrows
    rw [Bool.not_true, if_neg Bool.false_ne_true, hids]
    rw [ioResult_ok, ok_bind]
    by_cases hall : (gameIdsAt (gameRows rules v.tables.replayGames) hash).isEmpty
    · rw [List.isEmpty_iff.mp hall] at hlength
      have hnone : visitCount rules (keptGames v.tables filter) hash.toNat ≤ _ :=
        visitCount_keptGames_le _ _ _
      refine .inl ⟨by rw [List.length_nil] at hlength; omega, ?_⟩
      rw [if_pos hall]
      rfl
    rw [if_neg hall, hfind, ioResult_ok, ok_bind]
    by_cases hkept : filteredIds.isEmpty
    · rw [List.isEmpty_iff.mp hkept] at hfilteredLength
      refine .inl ⟨hfilteredLength.symm, ?_⟩
      rw [if_pos hkept]
      rfl
    · refine .inr ?_
      rw [if_neg hkept, hquery, ioResult_ok, ok_bind, hfilteredLength]

private theorem rows_eq_nil {games counted : List ReplayGame} (hmap : rows.map withoutElos =
      (referenceRows rules games counted hash).map withoutElos)
    (hzero : visitCount rules games hash.toNat = 0) : rows = [] := by
  refine List.eq_nil_iff_forall_not_mem.mpr fun row hrow => ?_
  obtain ⟨key, hkey, -⟩ := exists_edge hmap hrow
  obtain ⟨playing, hplaying⟩ := List.exists_mem_of_ne_nil _ (mem_referenceEdges_iff.mp hkey).1
  have hvisit := visits_of_mem_playings hplaying
  rw [(mem_referenceEdges_iff.mp hkey).2] at hvisit
  have hpos := visitCount_pos_iff.mpr
    ⟨playing.1, (mem_playings.mp hplaying).1, mem_gameVisits_iff.mp hvisit⟩
  exact hpos.ne' hzero

private theorem reports_empty {games counted : List ReplayGame} (hmap : rows.map withoutElos =
      (referenceRows rules games counted hash).map withoutElos)
    (hzero : visitCount rules games hash.toNat = 0) : Reports rules games hash rows {} := by
  obtain rfl := rows_eq_nil hmap hzero
  refine ⟨hzero.symm, ⟨rules.start, fun hne => absurd rfl hne, [], .refl _, .nil⟩, ?_⟩
  rintro ⟨game, hgame, ply, -, hreaches⟩
  exact absurd hzero (visitCount_pos_iff.mpr ⟨game, hgame, ply, hreaches⟩).ne'

private theorem reports_present {games counted : List ReplayGame} (hmap : rows.map withoutElos =
      (referenceRows rules games counted hash).map withoutElos)
    (hmoves : ∀ game ∈ games, game.moves.length ≤ 65535)
    (hlt : visitCount rules games hash.toNat < 2 ^ 32) {contexts : List (UInt32 × GameContext)}
    (hholds : Holds contexts games (rows.flatMap sampleIds)) {position : rules.Board}
    (hstands : rows ≠ [] → StandsOn rules games hash position) :
    Reports rules games hash rows
      (present rules contexts rows (UInt32.ofNat (visitCount rules games hash.toNat)) position) := by
  have htold := @exists_told rules contexts position rows (isSome_resolveEco hmap hholds)
  have htotal : (UInt32.ofNat (visitCount rules games hash.toNat)).toNat =
      visitCount rules games hash.toNat := UInt32.toNat_ofNat_of_lt' hlt
  refine ⟨htotal, ⟨position, hstands, _, (Order.sortBy_perm _ _).symm, htold⟩, ?_⟩
  rintro ⟨game, hgame, ply, hply, hreaches⟩
  constructor
  · intro hzero
    have hpos := visitCount_pos_iff.mpr ⟨game, hgame, ply, hreaches⟩
    rw [← htotal] at hpos
    exact hpos.ne' (congrArg UInt32.toNat hzero)
  · intro hnil
    have hlength := htold.length_eq.trans
      ((Order.length_sortBy continuationRank _).symm.trans (congrArg List.length hnil))
    have hedges := congrArg List.length hmap
    rw [List.length_map, hlength, List.length_map, referenceRows, List.length_map] at hedges
    exact referenceEdges_ne_nil hmoves hgame hply hreaches (List.length_eq_zero_iff.mp hedges.symm)

private theorem not_reports_empty {games : List ReplayGame} (hne : rows ≠ []) :
    ¬Reports rules games hash rows {} := by
  rintro ⟨-, ⟨position, -, told, hperm, htold⟩, -⟩
  rw [List.perm_nil.mp hperm] at htold
  exact hne (List.forall₂_nil_right_iff.mp htold)

theorem query_of_not_rootFound (hv : ValidIndexes encodeF64 v) (hfit : v.tables.IdsFit)
    (hmissed : ¬RootFound rules (keptGames v.tables filter) hash) :
    ∃ rows, aggregation decodeF64 v hash filter = .ok rows ∧ rows ≠ [] ∧
      query rules (statsReads v decodeF64) hash filter = .ok {} := by
  obtain ⟨rows, hrows, hmap⟩ := @aggregation_eq rules encodeF64 decodeF64 buildTree v hash filter hv hfit
  obtain ⟨hne, hbuild⟩ := @buildStats_of_not_rootFound rules v.tables _ _ hash rows
    (statsReads v decodeF64) (UInt32.ofNat (visitCount rules (keptGames v.tables filter) hash.toNat))
    hfit (keptGames_sublist v.tables filter).subset hv.length_moves rfl hmap hmissed
  refine ⟨rows, hrows, hne, ?_⟩
  rcases query_cases hv hfit hrows with ⟨-, hnone⟩ | hbuilt
  · exact hnone
  · exact hbuilt.trans hbuild

private theorem not_complete {hash : UInt64} {filter : SearchFilter} (hrows : ∃ rows,
    aggregation decodeF64 v hash filter = .ok rows ∧ rows ≠ [] ∧
      query rules (statsReads v decodeF64) hash filter = .ok {}) :
    ¬Complete decodeF64 v hash filter := by
  obtain ⟨rows, hrows, hne, hempty⟩ := hrows
  intro hcomplete
  obtain ⟨stats, hquery, hreports⟩ := hcomplete rows hrows
  obtain rfl := Except.ok.inj (hquery.symm.trans hempty)
  exact not_reports_empty hne hreports

/-- The query reports the rows of a position exactly when it finds a board of the position: a sample of
some continuation stands on it at the ply at which the first continuation is first played. -/
theorem query_complete_iff (hv : ValidIndexes encodeF64 v) (hfit : v.tables.IdsFit) :
    Complete decodeF64 v hash filter ↔ RootFound rules (keptGames v.tables filter) hash := by
  refine ⟨fun hcomplete => by_contra fun hmissed =>
    not_complete (query_of_not_rootFound hv hfit hmissed) hcomplete, ?_⟩
  intro hfound rows hrows
  obtain ⟨rows', hrows', hmap⟩ :=
    @aggregation_eq rules encodeF64 decodeF64 buildTree v hash filter hv hfit
  obtain rfl := Except.ok.inj (hrows.symm.trans hrows')
  rcases query_cases hv hfit hrows with ⟨hzero, hnone⟩ | hbuilt
  · exact ⟨_, hnone, reports_empty hmap hzero⟩
  · obtain ⟨contexts, position, hstands, hholds, hbuild⟩ :=
      @buildStats_of_rootFound rules v.tables _ _ hash rows (statsReads v decodeF64)
        (UInt32.ofNat (visitCount rules (keptGames v.tables filter) hash.toNat)) hfit
        (keptGames_sublist v.tables filter).subset hv.length_moves rfl hmap hfound
    exact ⟨_, hbuilt.trans hbuild,
      reports_present hmap hv.length_moves hv.visitCount_lt hholds fun hne => (hstands hne).standsOn⟩

/-- Where a board of the position is found, the query tells every row from the board of a game that goes
on from the position. -/
theorem query_of_rootFound (hv : ValidIndexes encodeF64 v) (hfit : v.tables.IdsFit)
    (hfound : RootFound rules (keptGames v.tables filter) hash) :
    ∃ rows stats position, rows.map withoutElos =
        (referenceRows rules (keptGames v.tables filter) (countedGames rules v.tables filter hash)
          hash).map withoutElos ∧
      (rows ≠ [] → ContinuedOn rules (keptGames v.tables filter) hash position) ∧
      query rules (statsReads v decodeF64) hash filter = .ok stats ∧
      ∃ told, told.Perm stats.continuations ∧ List.Forall₂ (Tells rules position) rows told := by
  obtain ⟨rows, hrows, hmap⟩ := @aggregation_eq rules encodeF64 decodeF64 buildTree v hash filter hv hfit
  rcases query_cases hv hfit hrows with ⟨hzero, hnone⟩ | hbuilt
  · obtain rfl := rows_eq_nil hmap hzero
    exact ⟨[], {}, rules.start, hmap, fun hne => absurd rfl hne, hnone, [], .refl [], .nil⟩
  · obtain ⟨contexts, position, hcontinued, hholds, hbuild⟩ :=
      @buildStats_of_rootFound rules v.tables _ _ hash rows (statsReads v decodeF64)
        (UInt32.ofNat (visitCount rules (keptGames v.tables filter) hash.toNat)) hfit
        (keptGames_sublist v.tables filter).subset hv.length_moves rfl hmap hfound
    exact ⟨rows, _, position, hmap, hcontinued, hbuilt.trans hbuild, _, (Order.sortBy_perm _ _).symm,
      exists_told (isSome_resolveEco hmap hholds)⟩

end Queries

section Sample

/-- Three games that go on from one position; the second comes to it a move earlier. -/
def detourTables : Tables where
  players := []
  events := []
  games := [(1, [1, 2, 4]), (2, [3, 4]), (3, [2, 1, 4])].map fun game => ⟨game.1, 0, "Ann", "Bob",
    none, none, "1-0", none, game.2, {}, none, none, []⟩
  identityIndex := true
  ascending := by decide

/-- A view of these games with their postings and no tree. -/
def detourView (reader : Reader) (file : List UInt8) :
    View (.ofRules .ofSums Index (fun _ _ _ => .error .ioFailure) (openIndex .ofSums)
      Index.sourceGameCount) where
  tables := detourTables
  postings := some (reader, some file)
  tree := none

/-- Games one and three are the samples of the one continuation, and neither stands on the position at
the ply of game two: the query reports no games and no continuations. -/
theorem query_incomplete : ∃ reader file, ValidIndexes Codec.Binary64.encode (detourView reader file) ∧
    query .ofSums (statsReads (detourView reader file) Codec.Binary64.decode) 3 {} = .ok {} ∧
    ¬Complete Codec.Binary64.decode (detourView reader file) 3 {} := by
  have hbuilt : (PositionPostings.build .ofSums 1 detourTables.replayGames).toOption.isSome := by
    decide +kernel
  obtain ⟨reader, file, hpostingsOf⟩ := exists_postingsOf hbuilt
  have hvalid : ValidIndexes Codec.Binary64.encode (detourView reader file) :=
    ⟨⟨reader, file, rfl, hpostingsOf⟩, fun tree treeFile hnone => by cases hnone⟩
  have hfit : detourTables.IdsFit := idsFit_of_all (by decide)
  have hmissed : ¬RootFound .ofSums (keptGames detourTables {}) 3 := by decide +kernel
  obtain ⟨rows, hrows, hne, hempty⟩ := @query_of_not_rootFound _ _ Codec.Binary64.decode _ _ _ _
    hvalid hfit hmissed
  exact ⟨reader, file, hvalid, hempty, not_complete ⟨rows, hrows, hne, hempty⟩⟩

/-- The transposing games come to no position by a detour. -/
theorem query_complete_iff_sample : ∃ reader file tree treeFile,
    ValidIndexes Codec.Binary64.encode (transposingView reader file tree treeFile) ∧
    Complete Codec.Binary64.decode (transposingView reader file tree treeFile) 3 {} := by
  obtain ⟨reader, file, tree, treeFile, hpostingsOf, htreeOf⟩ := exists_transposingIndexes
  have hvalid : ValidIndexes Codec.Binary64.encode (transposingView reader file tree treeFile) := by
    refine ⟨⟨reader, file, rfl, hpostingsOf⟩, fun other otherFile hinstalled => ?_⟩
    obtain ⟨rfl, rfl⟩ := Prod.mk.inj (Option.some.inj hinstalled)
    exact ⟨treeFile, rfl, htreeOf⟩
  have hfit : transposingTables.IdsFit := idsFit_of_all (by decide)
  have hfound : RootFound .ofSums (keptGames transposingTables {}) 3 := by decide +kernel
  exact ⟨reader, file, tree, treeFile, hvalid, (query_complete_iff hvalid hfit).mpr hfound⟩

end Sample

end MotifChess.Search.OpeningStats
