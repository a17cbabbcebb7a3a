/- GID: MotifChess/Db/Bundle/Rebuildable
   generality: implementation
   digest: Tables whose games all replay, the writes that keep them so, and when rebuilds succeed. -/

import MotifChess.Db.Bundle.Committed
import MotifChess.Db.Bundle.Rebuild
import MotifChess.Db.PatchLaw
import MotifChess.Db.PositionPostings.Replayable

set_option autoImplicit false
set_option relaxedAutoImplicit false

namespace MotifChess.Db

open PositionPostings

section Writes

/-- What an index asks of a game: its ratings and its moves. -/
abbrev Requirement : Type := Option Int32 → Option Int32 → List UInt16 → Prop

variable {R : Requirement}

def StoredGame.Meets (R : Requirement) (game : StoredGame) : Prop :=
  R game.whiteElo game.blackElo game.moves

/-- The postings can take the game. -/
def StoredGame.Replayable (game : StoredGame) : Prop :=
  PositionPostings.Replayable game.whiteElo game.blackElo game.moves

/-- Every stored game has a positive id, and meets the requirement. -/
structure Tables.Meets (R : Requirement) (t : Tables) : Prop where
  positive : ∀ row ∈ t.games, 0 < row.id
  games : ∀ row ∈ t.games, row.stored.Meets R

/-- The postings can take every stored game. -/
abbrev Tables.Rebuildable (t : Tables) : Prop := t.Meets PositionPostings.Replayable

/-- The ratings of the patch fit the postings. -/
def GamePatch.Narrow (patch : GamePatch) : Prop := FitsInt16 patch.whiteElo ∧ FitsInt16 patch.blackElo

/-- The write brings in nothing that fails the requirement. -/
def StoreWrite.Keeps (R : Requirement) : StoreWrite → Prop
  | .insert game | .insertRaw game => (StoredGame.ofGame game).Meets R
  | .patchMetadata _ patch => ∀ whiteElo blackElo moves, R whiteElo blackElo moves →
      R (patch.whiteElo.or whiteElo) (patch.blackElo.or blackElo) moves
  | _ => True

variable {moveHash : List UInt16 → UInt64} {t u : Tables}

theorem GamePatch.Narrow.keeps {patch : GamePatch} (h : patch.Narrow) (id : ℕ) :
    (StoreWrite.patchMetadata id patch).Keeps PositionPostings.Replayable := by
  intro whiteElo blackElo moves hgame
  exact ⟨h.1.or hgame.whiteElo, h.2.or hgame.blackElo, hgame.moves⟩

namespace Tables.Meets

theorem empty : Tables.empty.Meets R where
  positive := by simp [Tables.empty]
  games := by simp [Tables.empty]

private theorem of_rows (h : t.Meets R) (hrows : ∀ row ∈ u.games, ∃ old ∈ t.games,
    row.id = old.id ∧ (old.stored.Meets R → row.stored.Meets R)) : u.Meets R where
  positive := by
    intro row hrow
    obtain ⟨old, hold, hid, -⟩ := hrows row hrow
    rw [hid]
    exact h.positive old hold
  games := by
    intro row hrow
    obtain ⟨old, hold, -, hkept⟩ := hrows row hrow
    exact hkept (h.games old hold)

theorem of_subset (h : t.Meets R) (hrows : u.games ⊆ t.games) : u.Meets R :=
  h.of_rows fun row hrow => ⟨row, hrows hrow, rfl, id⟩

theorem addRow (h : t.Meets R) {game : StoredGame} (hgame : game.Meets R) (collision : ℕ) :
    (t.addRow collision game).Meets R where
  positive := by
    intro row hrow
    rcases List.mem_append.mp hrow with hold | hnew
    · exact h.positive row hold
    · obtain rfl := List.mem_singleton.mp hnew
      exact Nat.succ_pos _
  games := by
    intro row hrow
    rcases List.mem_append.mp hrow with hold | hnew
    · exact h.games row hold
    · obtain rfl := List.mem_singleton.mp hnew
      exact hgame

theorem findOrInsertNames (h : t.Meets R) (game : Game) : (t.findOrInsertNames game).Meets R :=
  h.of_subset fun row hrow => by rwa [Tables.findOrInsertNames_games] at hrow

private theorem insertRow (h : t.Meets R) {game : StoredGame} (hgame : game.Meets R) (collision : ℕ) :
    (t.insertRow moveHash collision game).1.Meets R := by
  rcases @Tables.insertRow_fst moveHash t collision game with hsame | ⟨extraTags, hadded⟩
  · rw [hsame]
    exact h
  · rw [hadded]
    have htagged : StoredGame.Meets R { game with extraTags } := hgame
    exact h.addRow htagged collision

private theorem changeGame (h : t.Meets R) {id : ℕ} {change : StoredGame → StoredGame}
    (hchange : ∀ game, game.Meets R → (change game).Meets R) : (t.changeGame id change).Meets R := by
  refine h.of_rows fun row hrow => ?_
  obtain ⟨old, hold, rfl⟩ := List.mem_map.mp hrow
  refine ⟨old, hold, rfl, fun hmeets => ?_⟩
  dsimp only
  split_ifs
  · exact hchange _ hmeets
  · exact hmeets

theorem deduplicate (h : t.Meets R) {removed : ℕ}
    (hdeduplicate : t.deduplicate moveHash = .ok (u, removed)) : u.Meets R := by
  rw [Tables.deduplicate_eq] at hdeduplicate
  obtain ⟨rfl, -⟩ := Prod.mk.inj (Except.ok.inj hdeduplicate)
  refine h.of_rows fun row hrow => ?_
  obtain ⟨old, hold, rfl⟩ := List.mem_map.mp hrow
  exact ⟨old, List.mem_of_mem_filter hold, rfl, id⟩

/-- A write that brings in nothing else keeps what all games meet. -/
theorem step (h : t.Meets R) {write : StoreWrite} (hkeeps : write.Keeps R)
    (hstep : write.step moveHash t = some u) : u.Meets R := by
  cases write with
  | insert game =>
    obtain rfl := Option.some.inj hstep
    by_cases hholds : t.Holds game
    · rw [Tables.insert_of_holds hholds]
      exact h.findOrInsertNames game
    · rw [Tables.insert_of_not_holds hholds]
      exact (h.findOrInsertNames game).insertRow hkeeps _
  | insertRaw game =>
    obtain rfl := Option.some.inj hstep
    exact (h.findOrInsertNames game).insertRow hkeeps 0
  | dropIdentityIndex =>
    obtain rfl := Option.some.inj hstep
    exact h.of_subset (List.Subset.refl _)
  | deduplicate =>
    obtain ⟨⟨after, removed⟩, hdone, rfl⟩ := Option.map_eq_some_iff.mp hstep
    exact h.deduplicate (toOption_eq_some.mp hdone)
  | remove id =>
    have hremove : t.remove id = .ok u := toOption_eq_some.mp hstep
    unfold Tables.remove at hremove
    split_ifs at hremove
    obtain rfl := Except.ok.inj hremove
    exact h.of_subset fun row hrow => List.mem_of_mem_filter hrow
  | patchMetadata id patch =>
    obtain ⟨row, -, -, -, current, -, hrewritten⟩ := Tables.patchMetadata_ok (toOption_eq_some.mp hstep)
    have hchanged : (t.changeGame id
        (patch.applied (patch.eventName current.eventDetails))).Meets R :=
      h.changeGame fun game hgame => hkeeps _ _ _ hgame
    refine hchanged.of_subset fun row hrow => ?_
    rwa [hrewritten.games] at hrow
  | setManualProvenance id label status =>
    obtain ⟨-, -, hset⟩ := bind_eq_ok.mp (toOption_eq_some.mp hstep)
    obtain rfl := Except.ok.inj hset
    exact h.changeGame fun game hgame => hgame

end Tables.Meets

namespace Tables.Rebuildable

theorem numbered (h : t.Rebuildable) (hfit : t.nextId ≤ 2 ^ 32) : Numbered t.replayGames where
  nodup := by
    rw [Tables.replayGames, List.map_map]
    exact List.pairwise_map.mpr (t.ascending.imp fun hlt => hlt.ne)
  range := by
    intro game hgame
    obtain ⟨row, hrow, rfl⟩ := List.mem_map.mp hgame
    exact ⟨h.positive row hrow, (Tables.id_lt_nextId hrow).trans_le hfit⟩

theorem replays (h : t.Rebuildable) : ∀ game ∈ t.replayGames,
    PositionPostings.Replayable game.whiteElo game.blackElo game.moves := by
  intro game hgame
  obtain ⟨row, hrow, rfl⟩ := List.mem_map.mp hgame
  exact h.games row hrow

end Tables.Rebuildable

end Writes

namespace Bundle

/-- Nothing of the file system fails in a rebuild. -/
structure RebuildIO.Works (io : RebuildIO) : Prop where
  builds : io.builds = true
  opensStaged : io.opensStaged = true
  renames : io.renames = true
  opensLive : io.opensLive = true
  syncs : io.syncs = true
  checksums : io.checksums = true
  counts : io.counts = true
  manifest : io.manifest.outcome = .published

section Rebuilding

variable {ix : Indexes} {ρ : Type} {kind : IndexKind} {io : RebuildIO} {built : Result (List UInt8)}
  {openIndex : List UInt8 → Result ρ} {install : Installed ρ → Manager ix → Manager ix}
  {m : Manager ix} {b : Bundle ix}

private theorem publishDerivedIndex_published_iff {bytes : List UInt8} {disk : Disk} :
    (b.publishDerivedIndex kind io bytes m disk).2 = .published ↔
      io.syncs = true ∧ io.checksums = true ∧ io.counts = true ∧ io.manifest.outcome = .published := by
  unfold publishDerivedIndex
  cases io.syncs <;> cases io.checksums <;> cases io.counts <;> simp

theorem rebuildIndex_ok_iff : (b.rebuildIndex kind io built openIndex install m).2 = .ok () ↔
    io.Works ∧ ∃ bytes reader, built = .ok bytes ∧ openIndex bytes = .ok reader := by
  unfold rebuildIndex
  cases hstage : stageIndex io built openIndex with
  | error e =>
    refine iff_of_false (fun hdone => ?_) ?_
    · cases hdone
    · rintro ⟨hworks, bytes, reader, hbuilt, hopened⟩
      have hstaged := stageIndex_eq_ok.mpr ⟨⟨hworks.builds, hworks.opensStaged, hworks.renames,
        hworks.opensLive⟩, hbuilt, hopened⟩
      cases hstage.symm.trans hstaged
  | ok staged =>
    obtain ⟨bytes, reader⟩ := staged
    obtain ⟨⟨hbuilds, hstaged, hrenames, hlive⟩, hbuilt, hopened⟩ := stageIndex_eq_ok.mp hstage
    dsimp only
    generalize ((b.disk.setFile _ none).setFile _ (some bytes)) = renamed
    have hpublished : (b.publishDerivedIndex kind io bytes m renamed).2 = .published ↔ _ :=
      publishDerivedIndex_published_iff
    cases hpublish : b.publishDerivedIndex kind io bytes m renamed with
    | mk disk state =>
      rw [hpublish] at hpublished
      cases state with
      | published =>
        obtain ⟨hsyncs, hchecksums, hcounts, hmanifest⟩ := hpublished.mp rfl
        exact iff_of_true rfl ⟨⟨hbuilds, hstaged, hrenames, hlive, hsyncs, hchecksums, hcounts,
          hmanifest⟩, bytes, reader, hbuilt, hopened⟩
      | notPublished =>
        refine iff_of_false (fun hdone => ?_) ?_
        · cases hdone
        · rintro ⟨hworks, -⟩
          cases hpublished.mpr ⟨hworks.syncs, hworks.checksums, hworks.counts, hworks.manifest⟩
      | publishedNotDurable =>
        refine iff_of_false (fun hdone => ?_) ?_
        · cases hdone
        · rintro ⟨hworks, -⟩
          cases hpublished.mpr ⟨hworks.syncs, hworks.checksums, hworks.counts, hworks.manifest⟩

end Rebuilding

section Opening

variable {ix : Indexes} {b : Bundle ix}

private theorem markInUse_ok_iff {io : OpenIO} {m : Manager ix} :
    (b.markInUse io m).2 = .ok () ↔ io.marksInUse.outcome = .published := by
  unfold markInUse
  dsimp only
  rw [Disk.writeManifest_state]
  split_ifs with hpublished
  · exact iff_of_true rfl hpublished
  · refine iff_of_false (fun h => ?_) hpublished
    cases h

private theorem exists_manager_of_rebuild {io : RebuildIO} (h : (b.rebuildPositionPostings io).2 = .ok ()) :
    ∃ m, (b.rebuildPositionPostings io).1.manager = some m := by
  unfold rebuildPositionPostings at h ⊢
  cases hmanager : b.manager with
  | none =>
    rw [hmanager] at h
    cases h
  | some m =>
    rw [hmanager] at h
    dsimp only at h ⊢
    by_cases hfails : RebuildFails io (ix.buildPostings b.tables.replayGames) ix.openPostings
    · obtain ⟨⟨e, herror⟩, -⟩ := rebuildIndex_of_fails hfails
      rw [herror] at h
      cases h
    · obtain ⟨bytes, reader, -, -, hpublished, -⟩ := rebuildIndex_of_not_fails hfails
      exact ⟨_, hpublished.manager⟩

/-- A bundle opens exactly when it is closed, the store opens, its manifest is marked, and its postings
cover the games or are rebuilt. -/
theorem open_ok_iff {io : OpenIO} : (b.open io).2 = .ok () ↔
    b.manager = none ∧ io.opensStore = true ∧ io.marksInUse.outcome = .published ∧
      ((b.loadManager io).postingsCoverCanonicalGames b.tables = true ∨
        ({ b with manager := some (b.loadManager io) }.rebuildPositionPostings io.rebuild).2 = .ok ()) := by
  by_cases hrefused : (b.manager.isSome || !io.opensStore) = true
  · rw [«open», if_pos hrefused]
    refine iff_of_false (fun h => ?_) ?_
    · cases h
    · rintro ⟨hnone, hopens, -⟩
      rw [hnone, hopens] at hrefused
      cases hrefused
  rw [«open», if_neg hrefused]
  rw [Bool.or_eq_true, not_or, Option.not_isSome_iff_eq_none, Bool.not_eq_true,
    Bool.not_eq_false'] at hrefused
  obtain ⟨hclosed, hopens⟩ := hrefused
  dsimp only
  rw [iff_true_intro hclosed, iff_true_intro hopens, true_and, true_and]
  split_ifs with hcovers
  · rw [markInUse_ok_iff, iff_true_intro hcovers, true_or, and_true]
  · rw [iff_false_intro hcovers, false_or]
    cases hrebuild : Bundle.rebuildPositionPostings io.rebuild
        { b with manager := some (b.loadManager io) } with
    | mk b' outcome =>
      cases outcome with
      | error e => simp
      | ok =>
        obtain ⟨m, hm⟩ := @exists_manager_of_rebuild ix { b with manager := some (b.loadManager io) }
          io.rebuild (congrArg Prod.snd hrebuild)
        rw [hrebuild] at hm
        dsimp only at hm ⊢
        rw [hm]
        dsimp only
        rw [markInUse_ok_iff, eq_self_iff_true, and_true]

end Opening

section Patching

variable {ix : Indexes} {b : Bundle ix} {moveHash : List UInt16 → UInt64}

theorem patchGameMetadata_of_not_narrow {io : StaleIO} {works : Bool} {id : ℕ} {patch : GamePatch}
    (h : ¬patch.Narrow) : (b.patchGameMetadata moveHash io works id patch).1 = b := by
  unfold patchGameMetadata
  split
  · rfl
  · cases hwhite : narrowElo patch.whiteElo with
    | error e => rfl
    | ok white =>
      cases hblack : narrowElo patch.blackElo with
      | error e => rfl
      | ok black =>
        exact absurd ⟨narrowElo_ok_iff.mp ⟨white, hwhite⟩, narrowElo_ok_iff.mp ⟨black, hblack⟩⟩ h

end Patching

section Program

variable {rules : Chess.Rules} {Tree : Type}
  {buildTree : List ReplayGame → Reader → List UInt8 → Result (List UInt8)}
  {openTree : List UInt8 → Result Tree} {sourceGameCount : Tree → ℕ}
  {b : Bundle (.ofRules rules Tree buildTree openTree sourceGameCount)}

theorem rebuildPositionPostings_ok_iff (h : b.tables.Rebuildable) (hfit : b.tables.nextId ≤ 2 ^ 32)
    {io : RebuildIO} : (b.rebuildPositionPostings io).2 = .ok () ↔ b.manager.isSome = true ∧ io.Works ∧
      BuildFits rules defaultSpillThreshold b.tables.replayGames := by
  have hthreshold : 1 ≤ defaultSpillThreshold := by decide
  have hbuild : (∃ file, build rules defaultSpillThreshold b.tables.replayGames = .ok file) ↔ _ :=
    build_ok_iff hthreshold (h.numbered hfit)
  rw [iff_true_intro h.replays, true_and] at hbuild
  unfold rebuildPositionPostings
  cases hmanager : b.manager with
  | none => simp
  | some m =>
    dsimp only
    rw [rebuildIndex_ok_iff, ← hbuild, Option.isSome_some, eq_self_iff_true, true_and]
    apply and_congr_right'
    constructor
    · rintro ⟨file, reader, hfile, -⟩
      exact ⟨file, hfile⟩
    · rintro ⟨file, hfile⟩
      obtain ⟨reader, hopen, -⟩ := build_answers_of_ok rules hthreshold hfile
      exact ⟨file, reader, hfile, hopen⟩

end Program

end Bundle

end MotifChess.Db
