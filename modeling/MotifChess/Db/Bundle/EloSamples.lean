/- GID: MotifChess/Db/Bundle/EloSamples
   generality: implementation
   digest: The rating distribution of a position tells how the stored games continue from it. -/

import MotifChess.Db.Bundle.EloCounts

set_option autoImplicit false
set_option relaxedAutoImplicit false

namespace MotifChess.Db

open MotifChess.Order MotifChess.Order.FirstWins PositionPostings OpeningTreeIndex
open MotifChess.Search.OpeningTree

section Narrow

theorem narrowElo_cases {elo : Option Int32} {narrowed : Option Int16}
    (h : narrowElo elo = .ok narrowed) : elo = none ∧ narrowed = none ∨
      ∃ wide short, elo = some wide ∧ narrowed = some short ∧ short.toInt = wide.toInt := by
  cases elo with
  | none => exact .inl ⟨rfl, (Except.ok.inj h).symm⟩
  | some wide =>
    unfold narrowElo at h
    dsimp only at h
    split_ifs at h with hrange
    obtain rfl := Except.ok.inj h
    refine .inr ⟨wide, _, rfl, rfl, ?_⟩
    rw [Bool.or_eq_true, decide_eq_true_eq, decide_eq_true_eq, not_or, Int32.not_lt, Int32.not_lt, Int32.le_iff_toInt_le, Int32.le_iff_toInt_le] at hrange
    have hlow : (-32768 : ℤ) ≤ wide.toInt := hrange.1
    have hhigh : wide.toInt ≤ 32767 := hrange.2
    rw [Int32.toInt_toInt16]
    exact Int.bmod_eq_of_le (by omega) (by omega)

end Narrow

section Games

variable (rules : Chess.Rules)

/-- The game is in the position at some ply and plays the move there. -/
def StoredGame.plays (hash : UInt64) (encodedMove : UInt16) (game : StoredGame) : Bool :=
  (List.range game.moves.length).any fun ply =>
    decide (ReachesAt rules game.moves hash ply) && game.moves[ply]? = some encodedMove

/-- Both ratings are known, and their average is at least the floor and less than the width above. -/
def StoredGame.averageIn (floor bucketWidth : ℤ) (game : StoredGame) : Bool :=
  game.whiteElo.any fun white => game.blackElo.any fun black =>
    decide (2 * floor ≤ white.toInt + black.toInt ∧
      white.toInt + black.toInt < 2 * (floor + bucketWidth))

/-- No rating is negative. -/
def Tables.RatingsNonneg (t : Tables) : Prop := ∀ row ∈ t.games,
  (∀ elo ∈ row.stored.whiteElo, 0 ≤ elo.toInt) ∧ ∀ elo ∈ row.stored.blackElo, 0 ≤ elo.toInt

variable {rules}

private theorem StoredGame.plays_iff {hash : UInt64} {encodedMove : UInt16} {game : StoredGame} :
    game.plays rules hash encodedMove = true ↔
      ∃ ply, ReachesAt rules game.moves hash ply ∧ game.moves[ply]? = some encodedMove := by
  simp only [StoredGame.plays, List.any_eq_true, List.mem_range, Bool.and_eq_true,
    decide_eq_true_eq]
  constructor
  · rintro ⟨ply, -, h⟩
    exact ⟨ply, h⟩
  · rintro ⟨ply, hreaches, hmove⟩
    exact ⟨ply, (List.getElem?_eq_some_iff.mp hmove).1, hreaches, hmove⟩

/-- A row of the game table as a sample of a move that its game plays. -/
structure GameRow.Samples (rules : Chess.Rules) (hash : UInt64) (row : GameRow) (sample : EloSample) :
    Prop where
  gameId : sample.gameId = UInt32.ofNat row.id
  plays : row.stored.plays rules hash sample.encodedMove = true
  rated : ∃ white black, row.stored.whiteElo = some white ∧ row.stored.blackElo = some black ∧
    sample.averageElo = (white.toInt + black.toInt).tdiv 2
  result : sample.result = resultCode row.readResult

end Games

namespace Bundle

variable {rules : Chess.Rules} {Tree : Type}
  {buildTree : List ReplayGame → Reader → List UInt8 → Result (List UInt8)}
  {openTree : List UInt8 → Result Tree} {sourceGameCount : Tree → ℕ}

section Samples

variable {b : Bundle (.ofRules rules Tree buildTree openTree sourceGameCount)}

private theorem mem_samples (h : b.ValidPostings) (hfit : b.tables.IdsFit) {hash : UInt64}
    {filter : SearchFilter} {allowedGameIds : List UInt32}
    (hallowed : ∀ row ∈ b.tables.games, UInt32.ofNat row.id ∈ gameIdsAt b.replayedRows hash →
      (admits allowedGameIds (UInt32.ofNat row.id) = true ↔ filter.keeps row.stored = true))
    {contexts : List (UInt32 × GameContext)}
    (hcontexts : b.tables.getGameContexts (((b.matchesAt hash).map PositionMatch.gameId).filter
      (admits allowedGameIds)).dedup = .ok contexts) {sample : EloSample} :
    sample ∈ (b.matchesAt hash).filterMap (EloSample.of contexts allowedGameIds) ↔
      ∃ row ∈ b.tables.games, filter.keeps row.stored = true ∧ row.Samples rules hash sample := by
  have hlisted : ∀ found ∈ b.matchesAt hash, found.gameId ∈ gameIdsAt b.replayedRows hash := by
    intro found hfound
    obtain ⟨o, ho, rfl⟩ := List.mem_map.mp hfound
    rw [gameIdsAt, List.mem_dedup]
    exact List.mem_map_of_mem ho
  have hlookup : ∀ row ∈ b.tables.games, ∀ found ∈ b.matchesAt hash,
      found.gameId = UInt32.ofNat row.id → admits allowedGameIds (UInt32.ofNat row.id) = true →
        contexts.lookup (UInt32.ofNat row.id) = some row.context := by
    intro row hrow found hfound hid hadmits
    refine Tables.lookup_of_getGameContexts hfit hcontexts hrow ?_
    rw [List.mem_dedup, List.mem_filter, ← hid]
    exact ⟨List.mem_map_of_mem hfound, hid.symm ▸ hadmits⟩
  rw [List.mem_filterMap]
  constructor
  · rintro ⟨found, hfound, hsample⟩
    obtain ⟨row, hrow, hid, hreaches, hresult, hwhite, hblack⟩ := (mem_matchesAt h).mp hfound
    simp only [EloSample.of, Option.bind_eq_bind, Option.bind_eq_some_iff] at hsample
    obtain ⟨⟨⟩, hguard, white, hwhiteElo, black, hblackElo, context, hcontext, move, hmove,
      hsample⟩ := hsample
    have hadmits := of_guard hguard
    obtain rfl := Option.some.inj hsample
    rw [hid] at hadmits hcontext
    rw [hlookup row hrow found hfound hid hadmits] at hcontext
    obtain rfl := Option.some.inj hcontext
    refine ⟨row, hrow, (hallowed row hrow (hid ▸ hlisted found hfound)).mp hadmits, hid, ?_, ?_,
      hresult⟩
    · exact StoredGame.plays_iff.mpr ⟨_, hreaches, hmove⟩
    · rcases narrowElo_cases hwhite with ⟨-, hnone⟩ | ⟨wide, short, hwide, hshort, hvalue⟩
      · rw [hnone] at hwhiteElo
        cases hwhiteElo
      rcases narrowElo_cases hblack with ⟨-, hnone⟩ | ⟨wide', short', hwide', hshort', hvalue'⟩
      · rw [hnone] at hblackElo
        cases hblackElo
      obtain rfl := Option.some.inj (hwhiteElo.symm.trans hshort)
      obtain rfl := Option.some.inj (hblackElo.symm.trans hshort')
      exact ⟨wide, wide', hwide, hwide', by rw [hvalue, hvalue']⟩
  · rintro ⟨row, hrow, hkept, hid, hplays, ⟨white, black, hwhite, hblack, haverage⟩, hresult⟩
    obtain ⟨ply, hreaches, hmove⟩ := StoredGame.plays_iff.mp hplays
    obtain ⟨call, hcall⟩ := h.replayed.rows _ (List.mem_map_of_mem hrow)
    obtain ⟨-, narrowWhite, narrowBlack,
      (hnarrowWhite : narrowElo row.stored.whiteElo = .ok narrowWhite),
      (hnarrowBlack : narrowElo row.stored.blackElo = .ok narrowBlack), -, -⟩ := mem_replayRows hcall
    have hply := h.toNat_ply hrow hreaches
    have hfound : (⟨UInt32.ofNat row.id, UInt16.ofNat ply, resultCode row.readResult, narrowWhite,
        narrowBlack⟩ : PositionMatch) ∈ b.matchesAt hash :=
      (mem_matchesAt h).mpr ⟨row, hrow, rfl, by rw [hply]; exact hreaches, rfl, hnarrowWhite,
        hnarrowBlack⟩
    refine ⟨_, hfound, ?_⟩
    have hadmits := (hallowed row hrow (hlisted _ hfound)).mpr hkept
    rcases narrowElo_cases hnarrowWhite with ⟨hnone, -⟩ | ⟨wide, short, hwide, rfl, hvalue⟩
    · rw [hnone] at hwhite
      cases hwhite
    rcases narrowElo_cases hnarrowBlack with ⟨hnone, -⟩ | ⟨wide', short', hwide', rfl, hvalue'⟩
    · rw [hnone] at hblack
      cases hblack
    obtain rfl := Option.some.inj (hwhite.symm.trans hwide)
    obtain rfl := Option.some.inj (hblack.symm.trans hwide')
    have hmove' : row.context.moves[(UInt16.ofNat ply).toNat]? = some sample.encodedMove := by
      rw [hply]
      exact hmove
    rw [EloSample.of, hlookup row hrow _ hfound rfl hadmits, guard_of hadmits]
    simp only [Option.bind_eq_bind, Option.bind_some, hmove', hvalue, hvalue', ← haverage, ← hresult,
      ← hid]
    rfl

end Samples

end Bundle

section Buckets

variable {rules : Chess.Rules} {hash : UInt64} {row : GameRow} {sample : EloSample} {bucketWidth : ℤ}

private theorem GameRow.Samples.average_bounds (h : row.Samples rules hash sample)
    (hnonneg : (∀ elo ∈ row.stored.whiteElo, 0 ≤ elo.toInt) ∧
      ∀ elo ∈ row.stored.blackElo, 0 ≤ elo.toInt) :
    0 ≤ sample.averageElo ∧ sample.averageElo < 2 ^ 31 ∧ ∀ floor,
      row.stored.averageIn floor bucketWidth = true ↔
        floor ≤ sample.averageElo ∧ sample.averageElo < floor + bucketWidth := by
  obtain ⟨white, black, hwhite, hblack, haverage⟩ := h.rated
  have hw := hnonneg.1 white hwhite
  have hb := hnonneg.2 black hblack
  have hwhiteLt := white.toInt_lt
  have hblackLt := black.toInt_lt
  rw [Int.tdiv_eq_ediv_of_nonneg (by omega)] at haverage
  refine ⟨by omega, by omega, fun floor => ?_⟩
  rw [StoredGame.averageIn, hwhite, hblack, Option.any_some, Option.any_some, decide_eq_true_eq]
  omega

private theorem GameRow.Samples.averageIn_iff (h : row.Samples rules hash sample)
    (hnonneg : (∀ elo ∈ row.stored.whiteElo, 0 ≤ elo.toInt) ∧
      ∀ elo ∈ row.stored.blackElo, 0 ≤ elo.toInt) (hwidth : 0 < bucketWidth) (k : ℕ) :
    row.stored.averageIn (k * bucketWidth) bucketWidth = true ↔
      sample.averageElo.tdiv bucketWidth * bucketWidth = k * bucketWidth := by
  obtain ⟨hlow, -, hin⟩ := @GameRow.Samples.average_bounds rules hash row sample bucketWidth h hnonneg
  rw [hin, Int.tdiv_eq_ediv_of_nonneg hlow, mul_left_inj' hwidth.ne',
    Int.ediv_eq_iff_of_pos hwidth]

private theorem GameRow.Samples.exists_multiple (h : row.Samples rules hash sample)
    (hnonneg : (∀ elo ∈ row.stored.whiteElo, 0 ≤ elo.toInt) ∧
      ∀ elo ∈ row.stored.blackElo, 0 ≤ elo.toInt) (hwidth : 0 < bucketWidth) :
    ∃ k : ℕ, k < 2 ^ 31 ∧ sample.averageElo.tdiv bucketWidth * bucketWidth = k * bucketWidth := by
  obtain ⟨hlow, hhigh, -⟩ := @GameRow.Samples.average_bounds rules hash row sample bucketWidth h hnonneg
  rw [Int.tdiv_eq_ediv_of_nonneg hlow]
  have hquotient := Int.ediv_nonneg hlow hwidth.le
  have hle := Int.ediv_le_self bucketWidth hlow
  refine ⟨(sample.averageElo / bucketWidth).toNat, by omega, ?_⟩
  rw [Int.toNat_of_nonneg hquotient]

end Buckets

section Distribution

variable {rules : Chess.Rules} {Tree : Type}
  {buildTree : List ReplayGame → Reader → List UInt8 → Result (List UInt8)}
  {openTree : List UInt8 → Result Tree} {sourceGameCount : Tree → ℕ}

/-- The game is allowed, plays the move from the position, and has its average in the bucket. -/
def GameRow.counted (rules : Chess.Rules) (hash : UInt64) (filter : SearchFilter) (bucketWidth : ℤ)
    (encodedMove : UInt16) (floor : ℤ) (row : GameRow) : Bool :=
  filter.keeps row.stored && row.stored.plays rules hash encodedMove &&
    row.stored.averageIn floor bucketWidth

/-- The rows tell for each move and each bucket which games play the move and have their average
rating in the bucket, without a gap from the lowest such bucket to the highest. -/
structure IsEloDistribution (rules : Chess.Rules) (games : List GameRow) (hash : UInt64)
    (filter : SearchFilter) (bucketWidth : ℤ) (rows : List EloDistributionRow) : Prop where
  consecutive : ∀ encodedMove, (∃ row ∈ rows, row.encodedMove = encodedMove) → ∃ k n : ℕ,
    (rows.filter fun row => row.encodedMove = encodedMove).map EloDistributionRow.eloBucketFloor =
      (List.range (n + 1)).map (fun (i : ℕ) => ((k + i : ℕ) : ℤ) * bucketWidth) ∧
    ∀ row ∈ rows, row.encodedMove = encodedMove →
      row.eloBucketFloor = k * bucketWidth ∨ row.eloBucketFloor = (k + n : ℕ) * bucketWidth →
        0 < row.gameCount
  sums : ∀ row ∈ rows, row.whiteWins + row.draws + row.blackWins = row.gameCount
  counts : ∀ row ∈ rows, ∀ counted,
    counted = GameRow.counted rules hash filter bucketWidth row.encodedMove row.eloBucketFloor →
      row.gameCount = games.countP counted ∧
      row.whiteWins = games.countP (fun g => counted g && decide (0 < resultCode g.readResult)) ∧
      row.draws = games.countP (fun g => counted g && decide (resultCode g.readResult = 0)) ∧
      row.blackWins = games.countP (fun g => counted g && decide (resultCode g.readResult < 0))
  once : ∀ g ∈ games, ∀ encodedMove, filter.keeps g.stored = true →
    g.stored.plays rules hash encodedMove = true → g.stored.whiteElo.isSome = true →
      g.stored.blackElo.isSome = true →
        (rows.filter fun row => row.encodedMove = encodedMove ∧
          g.stored.averageIn row.eloBucketFloor bucketWidth).length = 1
  nothing : (∀ g ∈ games, filter.keeps g.stored = false) → rows = []

variable {hash : UInt64} {filter : SearchFilter} {bucketWidth : ℤ} {games : List GameRow}

private theorem isEloDistribution_nil (h : ∀ g ∈ games, ∀ encodedMove, filter.keeps g.stored = true →
    g.stored.plays rules hash encodedMove = false) :
    IsEloDistribution rules games hash filter bucketWidth [] where
  consecutive := by simp
  sums := by simp
  counts := by simp
  once := by
    intro g hg encodedMove hkept hplays
    rw [h g hg encodedMove hkept] at hplays
    cases hplays
  nothing := by simp

/-- Samples that stand for the moves of the allowed games. -/
structure AreSamples (rules : Chess.Rules) (games : List GameRow) (hash : UInt64)
    (filter : SearchFilter) (samples : List EloSample) : Prop where
  ids : ∀ g ∈ games, ∀ g' ∈ games, UInt32.ofNat g.id = UInt32.ofNat g'.id → g = g'
  nodup : games.Nodup
  ratings : ∀ g ∈ games, (∀ elo ∈ g.stored.whiteElo, 0 ≤ elo.toInt) ∧
    ∀ elo ∈ g.stored.blackElo, 0 ≤ elo.toInt
  mem_iff : ∀ sample, sample ∈ samples ↔
    ∃ g ∈ games, filter.keeps g.stored = true ∧ g.Samples rules hash sample

variable {samples : List EloSample}

theorem AreSamples.firsts (h : AreSamples rules games hash filter samples) :
    AreSamples rules games hash filter (firsts EloSample.seenKey samples) where
  ids := h.ids
  nodup := h.nodup
  ratings := h.ratings
  mem_iff := by
    intro sample
    rw [← h.mem_iff]
    have hsubset : ∀ l : List EloSample, ∀ x ∈ FirstWins.firsts EloSample.seenKey l, x ∈ l := by
      intro l
      induction l using List.reverseRecOn with
      | nil => simp [FirstWins.firsts]
      | append_singleton l y ih =>
        intro x hx
        rw [firsts_concat, insertNew] at hx
        split_ifs at hx
        · exact List.mem_append_left _ (ih x hx)
        · rcases List.mem_append.mp hx with hold | hnew
          · exact List.mem_append_left _ (ih x hold)
          · exact List.mem_append_right _ hnew
    constructor
    · exact hsubset samples sample
    · intro hsample
      obtain ⟨other, hother, hkey⟩ := List.mem_map.mp
        (mem_map_firsts.mpr (List.mem_map_of_mem (f := EloSample.seenKey) hsample))
      obtain ⟨g, hg, -, hs⟩ := (h.mem_iff sample).mp hsample
      obtain ⟨g', hg', -, hs'⟩ := (h.mem_iff other).mp (hsubset _ _ hother)
      obtain ⟨hid, hmove⟩ := Prod.mk.inj hkey
      obtain rfl := h.ids g hg g' hg' (by rw [← hs.gameId, ← hs'.gameId, hid])
      obtain ⟨w, c, hw, hc, haverage⟩ := hs.rated
      obtain ⟨w', c', hw', hc', haverage'⟩ := hs'.rated
      obtain rfl := Option.some.inj (hw.symm.trans hw')
      obtain rfl := Option.some.inj (hc.symm.trans hc')
      have hsame : other = sample := by
        cases other
        cases sample
        rw [EloSample.mk.injEq]
        exact ⟨hid, hmove, haverage'.trans haverage.symm, hs'.result.trans hs.result.symm⟩
      exact hsame ▸ hother

theorem AreSamples.countP_eq (h : AreSamples rules games hash filter samples)
    (hkeys : (samples.map EloSample.seenKey).Nodup) (hwidth : 0 < bucketWidth)
    (encodedMove : UInt16) (k : ℕ) (wanted : ℤ → Bool) :
    (samples.filter fun sample => sample.bucket bucketWidth = (encodedMove, k * bucketWidth)).countP
        (fun sample => wanted sample.result) =
      games.countP fun g => g.counted rules hash filter bucketWidth encodedMove (k * bucketWidth) &&
        wanted (resultCode g.readResult) := by
  rw [List.countP_filter, List.countP_eq_length_filter, List.countP_eq_length_filter]
  have hbucket : ∀ g sample, g ∈ games → g.Samples rules hash sample →
      (sample.bucket bucketWidth = (encodedMove, k * bucketWidth) ↔
        sample.encodedMove = encodedMove ∧
          g.stored.averageIn (k * bucketWidth) bucketWidth = true) := by
    intro g sample hg hs
    rw [hs.averageIn_iff (h.ratings g hg) hwidth, EloSample.bucket, Prod.mk.injEq]
  set chosen := samples.filter fun sample => wanted sample.result &&
    decide (sample.bucket bucketWidth = (encodedMove, k * bucketWidth)) with hchosen
  set counted := games.filter fun g =>
    g.counted rules hash filter bucketWidth encodedMove (k * bucketWidth) &&
      wanted (resultCode g.readResult) with hcounted
  have hmem : ∀ id, id ∈ chosen.map EloSample.gameId ↔
      id ∈ counted.map fun g => UInt32.ofNat g.id := by
    intro id
    rw [List.mem_map, List.mem_map]
    constructor
    · rintro ⟨sample, hsample, rfl⟩
      obtain ⟨hsample, hchoice⟩ := List.mem_filter.mp hsample
      obtain ⟨hwanted, hbucket'⟩ := Bool.and_eq_true_iff.mp hchoice
      obtain ⟨g, hg, hkept, hs⟩ := (h.mem_iff sample).mp hsample
      obtain ⟨hmove, hin⟩ := (hbucket g sample hg hs).mp (of_decide_eq_true hbucket')
      have hplays := hs.plays
      rw [hmove] at hplays
      refine ⟨g, List.mem_filter.mpr ⟨hg, ?_⟩, hs.gameId.symm⟩
      rw [GameRow.counted, hkept, hplays, hin, ← hs.result, hwanted]
      rfl
    · rintro ⟨g, hg, rfl⟩
      obtain ⟨hg, hcount⟩ := List.mem_filter.mp hg
      simp only [GameRow.counted, Bool.and_eq_true] at hcount
      obtain ⟨⟨⟨hkept, hplays⟩, hin⟩, hwanted⟩ := hcount
      have hrated : ∃ white black, g.stored.whiteElo = some white ∧ g.stored.blackElo = some black := by
        rw [StoredGame.averageIn, Option.any_eq_true] at hin
        obtain ⟨white, hwhite, hin⟩ := hin
        obtain ⟨black, hblack, -⟩ := (Option.any_eq_true _ _).mp hin
        exact ⟨white, black, hwhite, hblack⟩
      obtain ⟨white, black, hwhite, hblack⟩ := hrated
      have hs : g.Samples rules hash ⟨UInt32.ofNat g.id, encodedMove,
          (white.toInt + black.toInt).tdiv 2, resultCode g.readResult⟩ :=
        ⟨rfl, hplays, ⟨white, black, hwhite, hblack, rfl⟩, rfl⟩
      refine ⟨_, List.mem_filter.mpr ⟨(h.mem_iff _).mpr ⟨g, hg, hkept, hs⟩, ?_⟩, rfl⟩
      rw [Bool.and_eq_true, decide_eq_true_eq]
      exact ⟨hwanted, (hbucket g _ hg hs).mpr ⟨rfl, hin⟩⟩
  have hnodup : (chosen.map EloSample.gameId).Nodup := by
    have hpairs : chosen.Pairwise fun a c => a.seenKey ≠ c.seenKey :=
      (List.pairwise_map.mp hkeys).sublist List.filter_sublist
    rw [List.Nodup, List.pairwise_map]
    refine hpairs.imp_of_mem fun ha hc hne hid => hne ?_
    have hmove : ∀ sample ∈ chosen, sample.encodedMove = encodedMove := by
      intro sample hsample
      have hchoice := (Bool.and_eq_true_iff.mp (List.mem_filter.mp hsample).2).2
      exact (Prod.mk.inj (of_decide_eq_true hchoice)).1
    exact Prod.ext hid ((hmove _ ha).trans (hmove _ hc).symm)
  have hnodup' : (counted.map fun g => UInt32.ofNat g.id).Nodup := by
    have hgames := h.nodup.sublist (List.filter_sublist (p := fun g : GameRow =>
      g.counted rules hash filter bucketWidth encodedMove (k * bucketWidth) &&
        wanted (resultCode g.readResult)))
    refine List.Nodup.map_on (fun g hg g' hg' heq => ?_) hgames
    exact h.ids g (List.mem_filter.mp hg).1 g' (List.mem_filter.mp hg').1 heq
  have hperm := (List.perm_ext_iff_of_nodup hnodup hnodup').mpr hmem
  have hlength := hperm.length_eq
  rwa [List.length_map, List.length_map] at hlength

section Rows

variable {buckets : EloBuckets}

/-- What the tally of some samples says of its buckets. -/
structure IsTally (bucketWidth : ℤ) (samples : List EloSample) (buckets : EloBuckets) : Prop where
  mem_iff : ∀ bucket, bucket ∈ buckets ↔ ∃ sample ∈ samples, sample.bucket bucketWidth = bucket
  counts : ∀ bucket, buckets[bucket]?.getD {} = EloBucketCounts.of (samples.filter fun sample =>
    sample.bucket bucketWidth = bucket)

private theorem isTally (bucketWidth : ℤ) (samples : List EloSample) : IsTally bucketWidth samples
    (tally compareBuckets (EloSample.bucket bucketWidth) EloBucketCounts.add samples) where
  mem_iff _ := mem_tally_iff
  counts bucket := by rw [getElem?_tally, foldl_eloBucketCounts]

private theorem AreSamples.areMultiples (h : AreSamples rules games hash filter samples)
    (htally : IsTally bucketWidth samples buckets) (hwidth : 0 < bucketWidth) {fuel : ℕ}
    (hfuel : 2 ^ 31 ≤ fuel) : AreMultiples bucketWidth fuel buckets := by
  intro encodedMove floor hmem
  obtain ⟨sample, hsample, hbucket⟩ := (htally.mem_iff _).mp hmem
  obtain ⟨g, hg, -, hs⟩ := (h.mem_iff sample).mp hsample
  obtain ⟨k, hk, hfloor⟩ := hs.exists_multiple (h.ratings g hg) hwidth
  refine ⟨k, hk.trans_le hfuel, ?_⟩
  rw [← hfloor]
  exact (Prod.mk.inj hbucket).2.symm

private theorem AreSamples.exists_block (h : AreSamples rules games hash filter samples)
    (htally : IsTally bucketWidth samples buckets) (hwidth : 0 < bucketWidth)
    {rows : List EloDistributionRow} (hrows : bucketRows (2 ^ 31) bucketWidth buckets = some rows)
    {encodedMove : UInt16} (hmove : encodedMove ∈ bucketRanges buckets) : ∃ k n : ℕ,
      (rows.filter fun row => row.encodedMove = encodedMove) = (List.range (n + 1)).map (fun (i : ℕ) =>
        bucketRow buckets encodedMove (((k + i : ℕ) : ℤ) * bucketWidth)) ∧
      (encodedMove, k * bucketWidth) ∈ buckets ∧ (encodedMove, (k + n : ℕ) * bucketWidth) ∈ buckets ∧
      ∀ j : ℕ, (encodedMove, j * bucketWidth) ∈ buckets → k ≤ j ∧ j ≤ k + n := by
  have hmultiples := h.areMultiples htally hwidth (le_refl (2 ^ 31))
  obtain ⟨range, hrange⟩ := Option.isSome_iff_exists.mp
    (Std.TreeMap.mem_iff_isSome_getElem?.mp hmove)
  obtain ⟨k, n, -, hlow, hhigh, hn⟩ := exists_multiples hwidth hmultiples hrange
  obtain ⟨hlowMem, hhighMem, hall⟩ := bucketRanges_spec hrange
  rw [hlow] at hlowMem
  rw [hhigh] at hhighMem
  refine ⟨k, n, ?_, hlowMem, hhighMem, fun j hj => ?_⟩
  · rw [filter_bucketRows hwidth hmultiples hrows, hrange, Option.elim_some, rangeFloors, hn, hlow,
      List.map_map]
    refine List.map_congr_left fun i _ => congrArg (bucketRow buckets encodedMove) ?_
    push_cast
    ring
  · obtain ⟨hge, hle⟩ := hall _ hj
    rw [hlow] at hge
    rw [hhigh] at hle
    exact ⟨by exact_mod_cast le_of_mul_le_mul_right hge hwidth,
      by exact_mod_cast le_of_mul_le_mul_right hle hwidth⟩

private theorem AreSamples.mem_rows (h : AreSamples rules games hash filter samples)
    (htally : IsTally bucketWidth samples buckets) (hwidth : 0 < bucketWidth)
    {rows : List EloDistributionRow} (hrows : bucketRows (2 ^ 31) bucketWidth buckets = some rows)
    {row : EloDistributionRow} (hrow : row ∈ rows) : row.encodedMove ∈ bucketRanges buckets ∧
      ∃ k : ℕ, row = bucketRow buckets row.encodedMove (k * bucketWidth) := by
  have hmultiples := h.areMultiples htally hwidth (le_refl (2 ^ 31))
  have hown : row ∈ rows.filter fun other => other.encodedMove = row.encodedMove :=
    List.mem_filter.mpr ⟨hrow, decide_eq_true rfl⟩
  have hmove : row.encodedMove ∈ bucketRanges buckets := by
    rw [Std.TreeMap.mem_iff_isSome_getElem?]
    rw [filter_bucketRows hwidth hmultiples hrows] at hown
    cases hrange : (bucketRanges buckets)[row.encodedMove]? with
    | none =>
      rw [hrange] at hown
      cases hown
    | some range => rfl
  obtain ⟨k, n, hblock, -⟩ := h.exists_block htally hwidth hrows hmove
  rw [hblock] at hown
  obtain ⟨i, -, hi⟩ := List.mem_map.mp hown
  exact ⟨hmove, k + i, hi.symm⟩

private theorem AreSamples.isEloDistribution (h : AreSamples rules games hash filter samples)
    (hkeys : (samples.map EloSample.seenKey).Nodup) (htally : IsTally bucketWidth samples buckets)
    (hwidth : 0 < bucketWidth) {rows : List EloDistributionRow}
    (hrows : bucketRows (2 ^ 31) bucketWidth buckets = some rows) :
    IsEloDistribution rules games hash filter bucketWidth rows where
  consecutive := by
    rintro encodedMove ⟨row, hrow, rfl⟩
    obtain ⟨hmove, -⟩ := h.mem_rows htally hwidth hrows hrow
    obtain ⟨k, n, hblock, hlow, hhigh, -⟩ := h.exists_block htally hwidth hrows hmove
    refine ⟨k, n, ?_, ?_⟩
    · rw [hblock, List.map_map]
      rfl
    · intro other hother hsame hend
      obtain ⟨-, j, hj⟩ := h.mem_rows htally hwidth hrows hother
      have hmem : (other.encodedMove, other.eloBucketFloor) ∈ buckets := by
        rcases hend with hfloor | hfloor
        · rw [hsame, hfloor]
          exact hlow
        · rw [hsame, hfloor]
          exact hhigh
      obtain ⟨sample, hsample, hbucket⟩ := (htally.mem_iff _).mp hmem
      have hfloor : other.eloBucketFloor = j * bucketWidth := congrArg (·.eloBucketFloor) hj
      rw [hj, bucketRow, htally.counts, ← hfloor]
      exact List.length_pos_of_mem (List.mem_filter.mpr ⟨hsample, decide_eq_true hbucket⟩)
  sums := by
    intro row hrow
    obtain ⟨-, k, hk⟩ := h.mem_rows htally hwidth hrows hrow
    rw [hk, bucketRow, htally.counts]
    exact EloBucketCounts.sum_of _
  counts := by
    rintro row hrow _ rfl
    obtain ⟨-, k, hk⟩ := h.mem_rows htally hwidth hrows hrow
    have hcount := h.countP_eq hkeys hwidth row.encodedMove k
    have hfloor : row.eloBucketFloor = k * bucketWidth := congrArg (·.eloBucketFloor) hk
    rw [hfloor]
    have hvalue := htally.counts (row.encodedMove, k * bucketWidth)
    have hgames : row.gameCount = (buckets[(row.encodedMove, k * bucketWidth)]?.getD {}).gameCount :=
      congrArg EloDistributionRow.gameCount hk
    have hwhite : row.whiteWins = (buckets[(row.encodedMove, k * bucketWidth)]?.getD {}).whiteWins :=
      congrArg EloDistributionRow.whiteWins hk
    have hdraws : row.draws = (buckets[(row.encodedMove, k * bucketWidth)]?.getD {}).draws :=
      congrArg EloDistributionRow.draws hk
    have hblack : row.blackWins = (buckets[(row.encodedMove, k * bucketWidth)]?.getD {}).blackWins :=
      congrArg EloDistributionRow.blackWins hk
    rw [hgames, hwhite, hdraws, hblack, hvalue]
    refine ⟨?_, hcount fun result => decide (0 < result), hcount fun result => decide (result = 0),
      hcount fun result => decide (result < 0)⟩
    have hall := hcount fun _ => true
    simp only [List.countP_true, Bool.and_true] at hall
    exact hall
  once := by
    intro g hg encodedMove hkept hplays hwhite hblack
    obtain ⟨white, hwhite⟩ := Option.isSome_iff_exists.mp hwhite
    obtain ⟨black, hblack⟩ := Option.isSome_iff_exists.mp hblack
    have hs : g.Samples rules hash ⟨UInt32.ofNat g.id, encodedMove,
        (white.toInt + black.toInt).tdiv 2, resultCode g.readResult⟩ :=
      ⟨rfl, hplays, ⟨white, black, hwhite, hblack, rfl⟩, rfl⟩
    obtain ⟨j, -, hj⟩ := hs.exists_multiple (h.ratings g hg) hwidth
    have hmem : (encodedMove, (j : ℤ) * bucketWidth) ∈ buckets :=
      (htally.mem_iff _).mpr ⟨_, (h.mem_iff _).mpr ⟨g, hg, hkept, hs⟩, Prod.ext rfl hj⟩
    obtain ⟨k, n, hblock, -, -, hbetween⟩ := h.exists_block htally hwidth hrows
      (mem_bucketRanges.mpr ⟨_, hmem⟩)
    obtain ⟨hge, hle⟩ := hbetween j hmem
    have hin : ∀ i : ℕ, g.stored.averageIn (((k + i : ℕ) : ℤ) * bucketWidth) bucketWidth = true ↔
        j - k = i := by
      intro i
      rw [hs.averageIn_iff (h.ratings g hg) hwidth, hj, mul_left_inj' hwidth.ne', Nat.cast_inj]
      omega
    have hsplit : (rows.filter fun row => decide (row.encodedMove = encodedMove ∧
        g.stored.averageIn row.eloBucketFloor bucketWidth = true)) =
        (rows.filter fun row => row.encodedMove = encodedMove).filter fun row =>
          g.stored.averageIn row.eloBucketFloor bucketWidth := by
      rw [List.filter_filter]
      refine List.filter_congr fun row _ => ?_
      rw [Bool.decide_and, Bool.decide_eq_true, Bool.and_comm]
    rw [hsplit, hblock, ← List.countP_eq_length_filter, List.countP_map]
    have hone : (List.range (n + 1)).countP ((fun row : EloDistributionRow =>
        g.stored.averageIn row.eloBucketFloor bucketWidth) ∘ fun (i : ℕ) =>
          bucketRow buckets encodedMove (((k + i : ℕ) : ℤ) * bucketWidth)) =
        (List.range (n + 1)).count (j - k) := by
      rw [List.count]
      refine List.countP_congr fun i _ => ?_
      rw [Function.comp_apply, beq_iff_eq]
      exact (hin i).trans eq_comm
    rw [hone]
    exact List.count_eq_one_of_mem List.nodup_range (List.mem_range.mpr (by omega))
  nothing := by
    intro hnone
    apply List.eq_nil_iff_forall_not_mem.mpr
    intro row hrow
    obtain ⟨hmove, -⟩ := h.mem_rows htally hwidth hrows hrow
    obtain ⟨floor, hfloor⟩ := mem_bucketRanges.mp hmove
    obtain ⟨sample, hsample, -⟩ := (htally.mem_iff _).mp hfloor
    obtain ⟨g, hg, hkept, -⟩ := (h.mem_iff sample).mp hsample
    rw [hnone g hg] at hkept
    cases hkept

end Rows

namespace Bundle

variable {b : Bundle (.ofRules rules Tree buildTree openTree sourceGameCount)}

private theorem postingsEloDistribution_isEloDistribution (h : b.ValidPostings) (hfit : b.tables.IdsFit)
    (hratings : b.tables.RatingsNonneg) {reader : Reader} {file : List UInt8}
    (hanswers : Answers reader file b.replayedRows) {allowedGameIds : List UInt32}
    (hallowed : ∀ row ∈ b.tables.games, UInt32.ofNat row.id ∈ gameIdsAt b.replayedRows hash →
      (admits allowedGameIds (UInt32.ofNat row.id) = true ↔ filter.keeps row.stored = true))
    (hwidth : 0 < bucketWidth) : ∃ rows,
      (∀ fuel, 2 ^ 31 ≤ fuel →
        b.postingsEloDistribution fuel reader file hash allowedGameIds bucketWidth = .ok (some rows)) ∧
      IsEloDistribution rules b.tables.games hash filter bucketWidth rows := by
  obtain ⟨contexts, hcontexts⟩ : ∃ contexts, b.tables.getGameContexts (((b.matchesAt hash).map
      PositionMatch.gameId).filter (admits allowedGameIds)).dedup = .ok contexts := ⟨_, rfl⟩
  have hsamples : AreSamples rules b.tables.games hash filter
      ((b.matchesAt hash).filterMap (EloSample.of contexts allowedGameIds)) :=
    ⟨fun g hg g' hg' => hfit.eq_of_id hg hg', b.tables.nodup_ids.of_map, hratings,
      fun sample => mem_samples h hfit hallowed hcontexts⟩
  have htally := isTally bucketWidth (firsts EloSample.seenKey
    ((b.matchesAt hash).filterMap (EloSample.of contexts allowedGameIds)))
  have hmultiples : ∀ fuel, 2 ^ 31 ≤ fuel → AreMultiples bucketWidth fuel _ :=
    fun fuel hfuel => hsamples.firsts.areMultiples htally hwidth hfuel
  have hrows := bucketRows_eq hwidth (hmultiples _ (le_refl (2 ^ 31)))
  refine ⟨_, fun fuel hfuel => ?_, hsamples.firsts.isEloDistribution nodup_firsts htally hwidth hrows⟩
  rw [postingsEloDistribution, hanswers.occurrences, ok_bind]
  have hmatches : (window 0 0 (occurrencesAt b.replayedRows hash)).map (matchAt b.replayedRows) =
      b.matchesAt hash := rfl
  rw [hmatches]
  dsimp only
  rw [hcontexts, ok_bind, foldl_eloCounting]
  exact congrArg Except.ok (bucketRows_eq hwidth (hmultiples fuel hfuel))

/-- With valid postings and ratings that are not negative, the query of the rating distribution comes
to its end, and its rows count each allowed game once for each move that it plays from the position. -/
theorem queryEloDistribution_isEloDistribution (h : b.ValidPostings) (hfit : b.tables.IdsFit)
    (hratings : b.tables.RatingsNonneg) (hash : UInt64) (filter : SearchFilter)
    (hwidth : 0 < bucketWidth) : ∃ rows,
      (∀ fuel, 2 ^ 31 ≤ fuel →
        b.queryEloDistribution fuel hash filter bucketWidth = .ok (some rows)) ∧
      IsEloDistribution rules b.tables.games hash filter bucketWidth rows := by
  obtain ⟨reader, bytes, hanswers, hask⟩ := h.ask
  have hquery : ∀ fuel, b.queryEloDistribution fuel hash filter bucketWidth =
      if !filter.hasMetadataFilter then
        b.postingsEloDistribution fuel reader bytes hash [] bucketWidth
      else (do
        let ids ← reader.distinctGameIds bytes hash.toNat
        if ids.isEmpty then return some []
        let filtered ← b.tables.findGameIdsWithFilter ids { filter with position := none }
        if filtered.isEmpty then return some []
        b.postingsEloDistribution fuel reader bytes hash filtered bucketWidth) := by
    intro fuel
    rw [queryEloDistribution, h.isSome_manager, if_neg Bool.false_ne_true, if_neg hwidth.not_ge, hask]
  simp only [hquery]
  cases hmetadata : filter.hasMetadataFilter with
  | false =>
    refine postingsEloDistribution_isEloDistribution h hfit hratings hanswers (fun row _ _ => ?_) hwidth
    simp [admits, SearchFilter.keeps_of_not_hasMetadataFilter hmetadata]
  | true =>
    have hids := nodup_gameIdsAt b.replayedRows hash
    simp only [Bool.not_true, Bool.false_eq_true, if_false, hanswers.distinctGameIds, ok_bind]
    by_cases hempty : (gameIdsAt b.replayedRows hash).isEmpty
    · refine ⟨[], fun fuel _ => ?_, isEloDistribution_nil fun g hg encodedMove _ => ?_⟩
      · rw [if_pos hempty]
        rfl
      · refine Bool.eq_false_iff.mpr fun hplays => ?_
        obtain ⟨ply, hreaches, -⟩ := StoredGame.plays_iff.mp hplays
        have hmem := h.mem_gameIdsAt hg hreaches
        rw [List.isEmpty_iff.mp hempty] at hmem
        cases hmem
    · obtain ⟨filtered, hfind⟩ : ∃ filtered, b.tables.findGameIdsWithFilter
          (gameIdsAt b.replayedRows hash) { filter with position := none } = .ok filtered :=
        Tables.findGameIdsWithFilter_isOk hids
      have hmem : ∀ row ∈ b.tables.games, UInt32.ofNat row.id ∈ gameIdsAt b.replayedRows hash →
          (UInt32.ofNat row.id ∈ filtered ↔ filter.keeps row.stored = true) :=
        fun row hrow hid => Tables.mem_findGameIdsWithFilter hfit hfind hrow hid
      simp only [hempty, Bool.false_eq_true, if_false, hfind, ok_bind]
      by_cases hnone : filtered.isEmpty
      · refine ⟨[], fun fuel _ => ?_, isEloDistribution_nil fun g hg encodedMove hkept => ?_⟩
        · rw [if_pos hnone]
          rfl
        · refine Bool.eq_false_iff.mpr fun hplays => ?_
          obtain ⟨ply, hreaches, -⟩ := StoredGame.plays_iff.mp hplays
          have hlisted := (hmem g hg (h.mem_gameIdsAt hg hreaches)).mpr hkept
          rw [List.isEmpty_iff.mp hnone] at hlisted
          cases hlisted
      · simp only [hnone, Bool.false_eq_true, if_false]
        refine postingsEloDistribution_isEloDistribution h hfit hratings hanswers
          (fun row hrow hid => ?_) hwidth
        rw [admits, Bool.or_eq_true, List.contains_iff_mem, ← hmem row hrow hid]
        exact or_iff_right hnone

section Sample

/-- A game that is entered with ratings. -/
def ratedGame (whiteElo blackElo : Int32) : Game :=
  { enteredGame with
    white := ⟨"Ann", some whiteElo, none, none⟩
    black := ⟨"Bob", some blackElo, none, none⟩ }

/-- Two games with an average of 2050 and one of 2399, with their postings. -/
def ratedSample : Option (Bundle (.withoutTree .ofSums)) :=
  System.run (step fun _ => 0) Powered (created "sample" "2024-01-01T00:00:00Z")
    [.open {}, .insertGame {} true (ratedGame 2000 2100),
      .insertGame {} true { ratedGame 2060 2040 with result := "1/2-1/2" },
      .insertGame {} true { ratedGame 2399 2400 with result := "0-1" }, .rebuildPositionPostings {}]

/-- The buckets of the move from the start, one of them empty. -/
theorem queryEloDistribution_isEloDistribution_sample : ∃ b ∈ ratedSample, (∃ rows,
      (∀ fuel, 2 ^ 31 ≤ fuel → b.queryEloDistribution fuel 0 {} 150 = .ok (some rows)) ∧
      IsEloDistribution .ofSums b.tables.games 0 {} 150 rows) ∧
    b.queryEloDistribution 10 0 {} 150 =
      .ok (some [⟨5, 1950, 1, 1, 0, 2⟩, ⟨5, 2100, 0, 0, 0, 0⟩, ⟨5, 2250, 0, 0, 1, 1⟩]) := by
  have hrun : (ratedSample.map fun b => (b.queriedPostings.isSome &&
      b.tables.games.all (fun row => row.id < 2 ^ 32 && row.stored.whiteElo.all (0 ≤ ·.toInt) &&
        row.stored.blackElo.all (0 ≤ ·.toInt)),
      b.queryEloDistribution 10 0 {} 150)) =
      some (true,
        .ok (some [⟨5, 1950, 1, 1, 0, 2⟩, ⟨5, 2100, 0, 0, 0, 0⟩, ⟨5, 2250, 0, 0, 1, 1⟩])) := by
    decide +kernel
  obtain ⟨b, hb, heq⟩ := Option.map_eq_some_iff.mp hrun
  obtain ⟨hchecks, hrows⟩ := Prod.mk.inj heq
  obtain ⟨hfound, hgames⟩ := Bool.and_eq_true_iff.mp hchecks
  have hvalid := validPostings_of_reaches (System.reaches_of_run hb) hfound
  refine ⟨b, hb, queryEloDistribution_isEloDistribution hvalid ?_ ?_ 0 {} (by decide), hrows⟩
  all_goals
    intro row hrow
    have hgame := List.all_eq_true.mp hgames row hrow
    simp only [Bool.and_eq_true, Option.all_eq_true, decide_eq_true_eq] at hgame
  · exact hgame.1.1
  · exact ⟨hgame.1.2, hgame.2⟩

end Sample

end Bundle

end Distribution

end MotifChess.Db
