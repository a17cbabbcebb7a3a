/- GID: MotifChess/Import/IndexableRuns
   generality: implementation
   digest: The indexes of a bundle can be built in every run that stores only what both formats take. -/

import MotifChess.Db.Bundle.Freshness
import MotifChess.Db.Bundle.Rebuildable
import MotifChess.Import.PrepareGame

set_option autoImplicit false
set_option relaxedAutoImplicit false

namespace MotifChess.Db

open OpeningTreeIndex PositionPostings

section Requirement

/-- The rating is absent, or not negative and as large as 16 bits with a sign hold. -/
def RatingWithin (elo : Option Int32) : Prop := ∀ value ∈ elo, 0 ≤ value.toInt ∧ value.toInt ≤ 32767

def NotNegative (elo : Option Int32) : Prop := ∀ value ∈ elo, 0 ≤ value.toInt

/-- What the postings and the tree take of a game. -/
structure IndexableGame (whiteElo blackElo : Option Int32) (moves : List UInt16) : Prop where
  whiteElo : RatingWithin whiteElo
  blackElo : RatingWithin blackElo
  moves : moves.length ≤ 65535

theorem RatingWithin.or {elo other : Option Int32} (h : RatingWithin elo) (hother : RatingWithin other) :
    RatingWithin (elo.or other) := by
  cases elo with
  | none => exact hother
  | some value => exact h

private theorem RatingWithin.fitsInt16 {elo : Option Int32} (h : RatingWithin elo) : FitsInt16 elo := by
  intro value hvalue
  obtain ⟨hlow, hhigh⟩ := h value hvalue
  omega

private theorem NotNegative.ratingWithin {elo : Option Int32} (h : NotNegative elo) (hfits : FitsInt16 elo) :
    RatingWithin elo := fun value hvalue => ⟨h value hvalue, (hfits value hvalue).2⟩

variable {t : Tables}

private theorem Tables.Meets.rebuildable (h : t.Meets IndexableGame) : t.Rebuildable where
  positive := h.positive
  games := by
    intro row hrow
    have hgame := h.games row hrow
    exact ⟨hgame.whiteElo.fitsInt16, hgame.blackElo.fitsInt16, hgame.moves⟩

private theorem Tables.Meets.indexable (h : t.Meets IndexableGame) (hfit : t.nextId ≤ 2 ^ 32) :
    Indexable t.replayGames where
  nodup := (h.rebuildable.numbered hfit).nodup
  ids := (h.rebuildable.numbered hfit).range
  elos := by
    intro game hgame
    obtain ⟨row, hrow, rfl⟩ := List.mem_map.mp hgame
    exact ⟨(h.games row hrow).whiteElo, (h.games row hrow).blackElo⟩
  moves := by
    intro game hgame
    obtain ⟨row, hrow, rfl⟩ := List.mem_map.mp hgame
    exact (h.games row hrow).moves.trans (by decide)

end Requirement

namespace Bundle

variable {rules : Chess.Rules} {encodeF64 : ℚ → ℕ} {order : IterationOrder}

section Model

/-- What a bulk import writes. -/
def StoredByImport (rules : Chess.Rules) : StoreWrite → Prop
  | .insert game | .insertRaw game => ∃ pgn, Import.prepareGame rules pgn = .ok game
  | .dropIdentityIndex | .deduplicate => True
  | .remove _ | .patchMetadata _ _ | .setManualProvenance _ _ _ => False

/-- The callers insert games that both formats take, and patch no negative rating into a game that may
be patched. -/
def KeepsIndexable (rules : Chess.Rules) {ix : Indexes} (b : Bundle ix) : Action → Prop
  | .powerFailure _ _ _ => False
  | .insertGame _ _ game => (StoredGame.ofGame game).Meets IndexableGame
  | .patchGameMetadata _ _ id patch => ∀ row ∈ b.tables.games, row.id = id →
      row.stored.provenance.read.sourceType = "manual" →
        NotNegative patch.whiteElo ∧ NotNegative patch.blackElo
  | .write write => StoredByImport rules write
  | _ => True

/-- While no file operation fails, both indexes can be built and read back, and the bundle can be
opened. -/
structure IndexesBuild (b : Bundle (.ofProgram rules encodeF64 order)) : Prop where
  postings : ∀ io, b.manager.isSome = true → RebuildIO.Works io →
    (b.rebuildPositionPostings io).2 = .ok ()
  tree : ∀ io m, b.manager = some m → m.postingsCoverCanonicalGames b.tables = true →
    RebuildIO.Works io → (b.rebuildOpeningTreeIndex io).2 = .ok ()
  both : ∀ io io', b.manager.isSome = true → RebuildIO.Works io → RebuildIO.Works io' →
    ((b.rebuildPositionPostings io).1.rebuildOpeningTreeIndex io').2 = .ok ()
  opens : ∀ io : OpenIO, b.manager = none → io.opensStore = true →
    io.marksInUse.outcome = .published → RebuildIO.Works io.rebuild → (b.open io).2 = .ok ()

end Model

section Building

variable {b : Bundle (.ofProgram rules encodeF64 order)} {io : RebuildIO}

private theorem rebuildOpeningTreeIndex_ok {closed : Prop} (hcovered : Covered closed b)
    (hrules : rules.ContinuationsFit) (hgames : Indexable b.tables.replayGames)
    {m : Manager (.ofProgram rules encodeF64 order)} (hm : b.manager = some m)
    (hcover : m.postingsCoverCanonicalGames b.tables = true) (hworks : RebuildIO.Works io) :
    (b.rebuildOpeningTreeIndex io).2 = .ok () := by
  obtain ⟨i, hi⟩ := Option.isSome_iff_exists.mp hcover
  obtain ⟨bytes, hbytes, hopen, hbuilt, -⟩ := hcovered.validPostings hm hi
  have hsource : CountSource rules b.tables.replayGames (some (postingsChildCounts i.reader bytes)) :=
    .postings (by decide) hbuilt hopen
  obtain ⟨file, index, hfile, hindex, -⟩ :=
    answers_of_indexable rules encodeF64 order {} (by decide) hsource hgames hrules
  have htree : b.treeBytes i = .ok file := by
    rw [treeBytes, hbytes]
    exact hfile
  unfold rebuildOpeningTreeIndex
  rw [hm]
  dsimp only
  rw [hi]
  exact rebuildIndex_ok_iff.mpr ⟨hworks, file, index, htree, hindex⟩

private theorem postingsCover_of_rebuild (h : (b.rebuildPositionPostings io).2 = .ok ()) :
    ∃ m, (b.rebuildPositionPostings io).1.manager = some m ∧
      m.postingsCoverCanonicalGames (b.rebuildPositionPostings io).1.tables = true := by
  rw [(sameStore_rebuildPositionPostings io b).tables]
  unfold rebuildPositionPostings at h ⊢
  cases hmanager : b.manager with
  | none =>
    rw [hmanager] at h
    cases h
  | some m =>
    rw [hmanager] at h
    dsimp only at h ⊢
    by_cases hfails : RebuildFails io (Indexes.buildPostings (.ofProgram rules encodeF64 order)
        b.tables.replayGames) (Indexes.openPostings (.ofProgram rules encodeF64 order))
    · obtain ⟨⟨e, herror⟩, -⟩ := rebuildIndex_of_fails hfails
      rw [herror] at h
      cases h
    · obtain ⟨bytes, reader, hbuilt, hopen, hpublished, -⟩ := rebuildIndex_of_not_fails hfails
      obtain ⟨reader', hopen', -, hcount⟩ := build_answers_of_ok rules (by decide) hbuilt
      obtain rfl := Except.ok.inj (hopen.symm.trans hopen')
      rw [Tables.length_replayGames] at hcount
      have hcounts : b.tables.countGames =
          Indexes.indexedGameCount (.ofProgram rules encodeF64 order) reader := hcount.symm
      refine ⟨_, hpublished.manager, ?_⟩
      rw [Manager.postingsCoverCanonicalGames, Manager.validPostings]
      simpa [installPostings, publishedManifest, DbManifest.setEntry, Manager.hasValidDerivedIndex]
        using hcounts

end Building

section Runs

variable {ix : Indexes} {moveHash : List UInt16 → UInt64} {bundle bundle' : Bundle ix}

private theorem ratingWithin_parseElo (raw : String) :
    RatingWithin ((Import.parseElo raw).map Int16.toInt32) := by
  intro value hvalue
  obtain ⟨elo, helo, rfl⟩ := Option.map_eq_some_iff.mp hvalue
  rw [Int16.toInt_toInt32]
  exact Import.parseElo_range helo

private theorem meets_of_prepareGame {pgn : Import.PgnGame} {game : Game}
    (h : Import.prepareGame rules pgn = .ok game) : (StoredGame.ofGame game).Meets IndexableGame := by
  obtain ⟨-, hlength, moves, hmoves, rfl⟩ := Import.prepareGame_eq_ok.mp h
  refine ⟨ratingWithin_parseElo _, ratingWithin_parseElo _, ?_⟩
  show moves.length ≤ 65535
  rw [Import.length_applySans hmoves]
  exact hlength

private theorem throughout_step {action : Action} (h : Throughout (Tables.Meets IndexableGame) bundle)
    (hkeeps : KeepsIndexable rules bundle action) (hstep : bundle.step moveHash action = some bundle') :
    Throughout (Tables.Meets IndexableGame) bundle' := by
  by_cases hrefused : ∃ io works id patch, action = .patchGameMetadata io works id patch ∧
      ¬patch.Narrow
  · obtain ⟨io, works, id, patch, rfl, hwide⟩ := hrefused
    obtain ⟨-, hdone⟩ := Option.ite_none_left_eq_some.mp hstep
    obtain rfl := Option.some.inj hdone
    rw [patchGameMetadata_of_not_narrow hwide]
    exact h
  refine h.step (fun write hwrite t ht => h.1.step ?_ ht) hstep
  cases action with
  | insertGame io works game =>
    obtain rfl := Option.some.inj hwrite
    exact hkeeps
  | patchGameMetadata io works id patch =>
    obtain rfl := Option.some.inj hwrite
    have hnarrow : patch.Narrow := by
      by_contra hwide
      exact hrefused ⟨io, works, id, patch, rfl, hwide⟩
    obtain ⟨row, hrow, hid, hmanual, -⟩ := Tables.patchMetadata_ok (toOption_eq_some.mp ht)
    obtain ⟨hwhite, hblack⟩ := hkeeps row hrow hid hmanual
    intro whiteElo blackElo moves hgame
    exact ⟨(hwhite.ratingWithin hnarrow.1).or hgame.whiteElo,
      (hblack.ratingWithin hnarrow.2).or hgame.blackElo, hgame.moves⟩
  | removeGame io works id =>
    obtain rfl := Option.some.inj hwrite
    exact trivial
  | removeUserGame io works id =>
    obtain rfl := Option.some.inj hwrite
    exact trivial
  | setManualGameProvenance works id label status =>
    obtain rfl := Option.some.inj hwrite
    exact trivial
  | write made =>
    obtain rfl := Option.some.inj hwrite
    cases made with
    | insert game =>
      obtain ⟨pgn, hpgn⟩ := hkeeps
      exact meets_of_prepareGame hpgn
    | insertRaw game =>
      obtain ⟨pgn, hpgn⟩ := hkeeps
      exact meets_of_prepareGame hpgn
    | dropIdentityIndex => exact trivial
    | deduplicate => exact trivial
    | remove id => cases hkeeps
    | patchMetadata id patch => cases hkeeps
    | setManualProvenance id label status => cases hkeeps
  | repair =>
    obtain rfl := Option.some.inj hwrite
    exact trivial
  | _ => cases hwrite

private theorem throughout_of_reaches {name createdAt : String}
    (h : Reaches moveHash (KeepsIndexable rules) name createdAt bundle) :
    Throughout (Tables.Meets IndexableGame) bundle := by
  have hcreated : Throughout (Tables.Meets IndexableGame) (created name createdAt : Bundle ix) := by
    refine ⟨.empty, fun t ht => ?_⟩
    obtain rfl := List.mem_singleton.mp ht
    exact .empty
  exact System.Reaches.invariant h hcreated fun _ _ _ hmeets hkeeps hstep =>
    throughout_step hmeets hkeeps hstep

variable {b : Bundle (.ofProgram rules encodeF64 order)}

/-- In every run that stores only what both formats take, the indexes can be built and the bundle can
be opened, while the ids and the occurrences of every position fit 32 bits. -/
theorem indexesBuild_of_reaches {name createdAt : String} (hrules : rules.ContinuationsFit)
    (h : Reaches moveHash (KeepsIndexable rules) name createdAt b) (hbatch : b.inBatch = false)
    (hfit : b.tables.nextId ≤ 2 ^ 32)
    (hoccurrences : OccurrencesFit (gameRows rules b.tables.replayGames)) : b.IndexesBuild := by
  have hmeets : b.tables.Meets IndexableGame := (throughout_of_reaches h).1
  have hrebuildable := hmeets.rebuildable
  have hfits : BuildFits rules defaultSpillThreshold b.tables.replayGames :=
    (hrebuildable.numbered hfit).buildFits (by decide) hrebuildable.replays hoccurrences
  have hpowered : Reaches moveHash SurvivorsFit name createdAt b := by
    refine System.Reaches.mono h fun _ action hkeeps => Powered.survivorsFit ?_
    cases action with
    | powerFailure => cases hkeeps
    | _ => rfl
  have hcovered := Reaches.covered lawful_ofProgram hpowered
  have hpostings : ∀ io, b.manager.isSome = true → RebuildIO.Works io →
      (b.rebuildPositionPostings io).2 = .ok () := fun io hopen hworks =>
    (rebuildPositionPostings_ok_iff hrebuildable hfit).mpr ⟨hopen, hworks, hfits⟩
  refine ⟨hpostings, fun io m hm hcover hworks => ?_, fun io io' hopen hworks hworks' => ?_,
    fun io hclosed hstore hmarked hworks => ?_⟩
  · exact rebuildOpeningTreeIndex_ok hcovered hrules (hmeets.indexable hfit) hm hcover hworks
  · obtain ⟨m, hm, hcover⟩ := postingsCover_of_rebuild (hpostings io hopen hworks)
    have hgames := hmeets.indexable hfit
    rw [← (sameStore_rebuildPositionPostings io b).tables] at hgames
    exact rebuildOpeningTreeIndex_ok (hcovered.rebuildPositionPostings hbatch io).1 hrules hgames hm
      hcover hworks'
  · refine open_ok_iff.mpr ⟨hclosed, hstore, hmarked, .inr ?_⟩
    have hloaded : Tables.Rebuildable
        ({ b with manager := some (b.loadManager io) } : Bundle (.ofProgram rules encodeF64 order)).tables :=
      hrebuildable
    exact (rebuildPositionPostings_ok_iff hloaded hfit).mpr ⟨rfl, hworks, hfits⟩

end Runs

section Samples

/-- A manual game, rated by a patch, under new postings. -/
def patchedRating (elo : Int32) : Option (Bundle sumIndexes) :=
  System.run (step fun _ => 0) Powered (created "sample" "2024-01-01T00:00:00Z")
    [.open {}, .insertGame {} true enteredGame, .patchGameMetadata {} true 1 { whiteElo := some elo },
      .rebuildPositionPostings {}]

/-- A game that is inserted with a rating, in a bundle that is closed again. -/
def insertedRating (elo : Int32) : Option (Bundle sumIndexes) :=
  System.run (step fun _ => 0) Powered (created "sample" "2024-01-01T00:00:00Z")
    [.open {}, .insertGame {} true { enteredGame with white := ⟨"Ann", some elo, none, none⟩ },
      .close {}]

private theorem works : RebuildIO.Works {} := ⟨rfl, rfl, rfl, rfl, rfl, rfl, rfl, rfl⟩

/-- A patched rating of -2000 makes the reader refuse the sum of the ratings that the tree has just
been built with; an inserted one of 40000 leaves a bundle that no call can open. -/
theorem not_indexesBuild :
    (∃ b ∈ patchedRating (-2000), (b.rebuildOpeningTreeIndex {}).2 = .error .ioFailure ∧
      ¬b.IndexesBuild) ∧
    ∃ b ∈ insertedRating 40000, (b.open {}).2 = .error .ioFailure ∧ ¬b.IndexesBuild := by
  constructor
  · have hrun : ((patchedRating (-2000)).map fun b => ((b.rebuildOpeningTreeIndex {}).2,
        b.manager.map fun m => m.postingsCoverCanonicalGames b.tables)) =
        some (.error .ioFailure, some true) := by
      decide +kernel
    obtain ⟨b, hb, hasked⟩ := Option.map_eq_some_iff.mp hrun
    obtain ⟨hfails, hcover⟩ := Prod.mk.inj hasked
    obtain ⟨m, hm, hcovers⟩ := Option.map_eq_some_iff.mp hcover
    refine ⟨b, hb, hfails, fun hbuild => ?_⟩
    cases hfails.symm.trans (hbuild.tree {} m hm hcovers works)
  · have hrun : ((insertedRating 40000).map fun b => ((b.open {}).2, b.manager.isSome)) =
        some (.error .ioFailure, false) := by
      decide +kernel
    obtain ⟨b, hb, hasked⟩ := Option.map_eq_some_iff.mp hrun
    obtain ⟨hfails, hclosed⟩ := Prod.mk.inj hasked
    refine ⟨b, hb, hfails, fun hbuild => ?_⟩
    have hnone := Option.isNone_iff_eq_none.mp (Option.isSome_eq_false_iff.mp hclosed)
    cases hfails.symm.trans (hbuild.opens {} hnone rfl rfl works)

instance (elo : Option Int32) : Decidable (RatingWithin elo) := Option.decidableForallMem elo

instance (elo : Option Int32) : Decidable (NotNegative elo) := Option.decidableForallMem elo

private def keepsIndexableIn (_ : Bundle sumIndexes) : Action → Bool
  | .insertGame _ _ game =>
    decide (RatingWithin game.white.elo ∧ RatingWithin game.black.elo ∧ game.moves.length ≤ 65535)
  | .patchGameMetadata _ _ _ patch => decide (NotNegative patch.whiteElo ∧ NotNegative patch.blackElo)
  | .powerFailure _ _ _ | .write _ => false
  | _ => true

private theorem keepsIndexable_of_in {b : Bundle sumIndexes} {action : Action}
    (h : keepsIndexableIn b action = true) : KeepsIndexable .ofSums b action := by
  cases action with
  | insertGame io works game =>
    rw [keepsIndexableIn, decide_eq_true_eq] at h
    obtain ⟨hwhite, hblack, hmoves⟩ := h
    exact ⟨hwhite, hblack, hmoves⟩
  | patchGameMetadata io works id patch =>
    rw [keepsIndexableIn, decide_eq_true_eq] at h
    exact fun _ _ _ _ => h
  | powerFailure => cases h
  | write => cases h
  | _ => exact trivial

/-- A game is entered, rated and indexed, and the bundle is closed; it can be opened again. -/
theorem indexesBuild_of_reaches_sample : ∃ b : Bundle sumIndexes,
    b.tables.games.map (fun row => row.stored.whiteElo) = [some 2800] ∧ b.manager = none ∧
      b.IndexesBuild := by
  have hrun : ((System.run (step fun _ => 0) (fun b a => keepsIndexableIn b a = true)
      (created "sample" "2024-01-01T00:00:00Z") [.open {}, .insertGame {} true enteredGame,
        .patchGameMetadata {} true 1 { whiteElo := some 2800 }, .rebuildPositionPostings {},
        .rebuildOpeningTreeIndex {}, .close {}]).map fun b =>
      (b.tables.games.map (fun row => row.stored.whiteElo), b.manager.isNone, b.inBatch,
        decide (b.tables.nextId ≤ 2 ^ 32 ∧ (gameRows .ofSums b.tables.replayGames).length < 2 ^ 32))) =
      some ([some 2800], true, false, true) := by
    decide +kernel
  obtain ⟨b, hb, hasked⟩ := Option.map_eq_some_iff.mp hrun
  obtain ⟨helos, hasked⟩ := Prod.mk.inj hasked
  obtain ⟨hclosed, hasked⟩ := Prod.mk.inj hasked
  obtain ⟨hbatch, hfits⟩ := Prod.mk.inj hasked
  obtain ⟨hfit, hrows⟩ := of_decide_eq_true hfits
  have hreaches : Reaches (fun _ => 0) (KeepsIndexable .ofSums) "sample" "2024-01-01T00:00:00Z" b :=
    (System.reaches_of_run hb).mono fun _ _ => keepsIndexable_of_in
  exact ⟨b, helos, Option.isNone_iff_eq_none.mp hclosed,
    indexesBuild_of_reaches continuationsFit_ofSums hreaches hbatch hfit fun hash =>
      (card_occurrenceSet_le _ hash).trans_lt hrows⟩

end Samples

end Bundle

end MotifChess.Db
