/- GID: MotifChess/Import/WritableTables
   generality: implementation
   digest: The tables that an import may write, and what its writes, its repairs and its games do to them. -/

import MotifChess.Db.GameContents
import MotifChess.Db.PatchCollision
import MotifChess.Db.PatchLaw
import MotifChess.Import.CheckpointSafety

set_option autoImplicit false
set_option relaxedAutoImplicit false

namespace MotifChess.Import

open MotifChess.Chess MotifChess.Db

section Tables

variable {moveHash : List UInt16 → UInt64} {t u : Tables} {game : Game} {rawMode : Bool}

/-- Tables that an import may write: some writes have built them, and the index is there, over games
that are all different, unless the import is a raw one. -/
structure Writable (moveHash : List UInt16 → UInt64) (rawMode : Bool) (t : Tables) : Prop where
  reachable : t.Reachable moveHash
  index : t.identityIndex = !rawMode
  unique : rawMode = false → t.Unique

theorem Writable.unique_of_index (h : Writable moveHash rawMode t) (hindex : t.identityIndex = true) :
    t.Unique := by
  apply h.unique
  rw [h.index] at hindex
  simpa using hindex

theorem reachable_step (write : StoreWrite) (h : t.Reachable moveHash)
    (hstep : write.step moveHash t = some u) : u.Reachable moveHash := h.tail trivial hstep

theorem reachable_deduplicate {removed : ℕ} (h : t.Reachable moveHash)
    (hdeduplicate : t.deduplicate moveHash = .ok (u, removed)) : u.Reachable moveHash := by
  apply reachable_step .deduplicate h
  rw [StoreWrite.step, hdeduplicate]
  rfl

private theorem reachable_rawTables (h : t.Reachable moveHash) (preCommitted : ℤ) :
    (rawTables preCommitted t).Reachable moveHash := by
  unfold rawTables
  split_ifs
  · exact reachable_step .dropIdentityIndex h rfl
  · exact h

theorem contents_rawTables (preCommitted : ℤ) (t : Tables) :
    (rawTables preCommitted t).contents = t.contents := by
  unfold rawTables
  split_ifs <;> rfl

private theorem contents_findOrInsertNames (h : t.Reachable moveHash) (hholds : t.Holds game) :
    (t.findOrInsertNames game).contents = t.contents ∧ t.contents.add game = t.contents := by
  have hknows := h.namesStored.knows hholds
  refine ⟨?_, Contents.add_of_knows hknows⟩
  have hplayers := Order.FirstWins.insertAll_of_forall_mem hknows.players
  have hevents := Order.FirstWins.insertAll_of_forall_mem hknows.event
  simp only [Tables.contents] at hplayers hevents
  simp only [Tables.contents, Tables.findOrInsertNames_players, Tables.findOrInsertNames_events,
    Tables.findOrInsertNames_games, hplayers, hevents]

theorem write_ne_ioFailure (h : Writable moveHash rawMode t) (htags : game.extraTags = []) :
    ((if rawMode then Tables.insertRaw moveHash game else Tables.insert moveHash game) t).2 ≠
      .error .ioFailure := by
  have hrow : ∀ collision, ((t.findOrInsertNames game).addRow collision
      (.ofGame game)).indexHolds moveHash = true →
      ((t.findOrInsertNames game).insertRow moveHash collision (.ofGame game)).2 ≠
        .error .ioFailure := by
    intro collision hindex
    have hnodup : decide ((StoredGame.ofGame game).extraTags.map Prod.fst).Nodup = true := by
      rw [StoredGame.ofGame, htags]
      rfl
    rw [Tables.insertRow, hindex, hnodup]
    simp
  have hname : (t.findOrInsertNames game).identityIndex = !rawMode :=
    (Tables.findOrInsertNames_identityIndex _ _).trans h.index
  cases rawMode with
  | true =>
    rw [if_pos rfl, Tables.insertRaw]
    apply hrow
    rw [Tables.indexHolds]
    change (!(t.findOrInsertNames game).identityIndex || _) = true
    rw [hname]
    rfl
  | false =>
    rw [if_neg Bool.false_ne_true]
    by_cases hholds : t.Holds game
    · rw [Tables.insert_of_holds hholds]
      simp
    · rw [Tables.insert_of_not_holds hholds]
      apply hrow
      have hunique : (t.findOrInsertNames game).indexUnique moveHash = true := by
        have hindex : (t.findOrInsertNames game).indexHolds moveHash = true :=
          Tables.indexHolds_findOrInsertNames h.reachable.indexHolds
        rw [Tables.indexHolds, hname] at hindex
        exact hindex
      rw [Tables.indexHolds, Tables.indexUnique_addRow_nextCollision hunique, Bool.or_true]

theorem Writable.write {id : ℕ} (h : Writable moveHash rawMode t)
    (hwrite : (if rawMode then Tables.insertRaw moveHash game else Tables.insert moveHash game) t =
      (u, .ok id)) : Writable moveHash rawMode u ∧ u.contents = t.contents.add game := by
  cases rawMode with
  | true =>
    rw [if_pos rfl] at hwrite
    obtain rfl : (t.insertRaw moveHash game).1 = u := congrArg Prod.fst hwrite
    refine ⟨⟨reachable_step (.insertRaw game) h.reachable rfl, ?_, fun hraw => ?_⟩,
      Tables.contents_insertRaw (congrArg Prod.snd hwrite)⟩
    · rw [Tables.insertRaw_identityIndex, h.index]
    · cases hraw
  | false =>
    rw [if_neg Bool.false_ne_true] at hwrite
    obtain rfl : (t.insert moveHash game).1 = u := congrArg Prod.fst hwrite
    refine ⟨⟨reachable_step (.insert game) h.reachable rfl, ?_, fun _ => ?_⟩,
      Tables.contents_insert (.inl ⟨id, congrArg Prod.snd hwrite⟩)⟩
    · rw [Tables.insert_identityIndex, h.index]
    · exact Tables.unique_insert (h.unique rfl)

theorem Writable.duplicate (h : Writable moveHash false t) (hholds : t.Holds game)
    (hsame : u = t ∨ u = t.findOrInsertNames game) :
    Writable moveHash false u ∧ u.contents = t.contents.add game := by
  obtain ⟨hnames, hadd⟩ := contents_findOrInsertNames h.reachable hholds
  rw [hadd]
  rcases hsame with rfl | rfl
  · exact ⟨h, rfl⟩
  · refine ⟨⟨?_, (Tables.findOrInsertNames_identityIndex _ _).trans h.index, fun _ => ?_⟩, hnames⟩
    · apply reachable_step (.insert game) h.reachable
      rw [StoreWrite.step, Tables.insert_of_holds hholds]
    · rw [Tables.Unique, Tables.findOrInsertNames_games]
      exact h.unique rfl

/-- The tables at a start point have the contents of the store, under an index if the session is not
raw. -/
theorem writable_startPoint {source : ImportSource} {config : ImportConfig} {store : ImportStore}
    {startOffset : ℕ} {preCommitted : ℤ} {tables : Tables} (hreachable : store.tables.Reachable source.moveHash)
    (hunique : ∀ checkpoint, store.checkpoint = some checkpoint → source.Owns checkpoint →
      store.tables.identityIndex = true → store.tables.Unique)
    (hpoint : StartPoint (source.under config) store startOffset preCommitted tables) :
    tables.contents = store.tables.contents ∧
      Writable source.moveHash (decide (preCommitted = 0)) (rawTables preCommitted tables) := by
  have htables : tables.contents = store.tables.contents ∧ tables.Reachable source.moveHash ∧
      (preCommitted ≠ 0 → tables.identityIndex = true ∧ tables.Unique) := by
    cases hpoint with
    | fresh => exact ⟨rfl, hreachable, fun hne => absurd rfl hne⟩
    | resumed hcheckpoint howns hindex =>
      exact ⟨rfl, hreachable, fun _ => ⟨hindex, hunique _ hcheckpoint howns hindex⟩⟩
    | repaired hcheckpoint howns hindex hrepaired =>
      obtain ⟨hrepairedUnique, -, hindexed⟩ := Tables.deduplicate_guards hrepaired
      exact ⟨Tables.contents_deduplicate hrepaired,
        reachable_deduplicate hreachable hrepaired, fun _ => ⟨hindexed, hrepairedUnique⟩⟩
  obtain ⟨hcontents, htablesReachable, hchecked⟩ := htables
  refine ⟨hcontents, reachable_rawTables htablesReachable preCommitted, ?_, fun hraw => ?_⟩
  · unfold rawTables
    by_cases hzero : preCommitted = 0
    · rw [if_pos hzero, decide_eq_true hzero]
      rfl
    · rw [if_neg hzero, decide_eq_false hzero, (hchecked hzero).1]
      rfl
  · have hzero := of_decide_eq_false hraw
    rw [rawTables, if_neg hzero]
    exact (hchecked hzero).2

/-- The stored games in the order of their ids, without ids and collision numbers. -/
def storedGames (t : Tables) : List Game := t.games.map t.gameOf

theorem storedGames_congr (ht : t.Unique) (hu : u.Unique) (h : t.contents = u.contents) :
    storedGames t = storedGames u := by
  have hgames : t.games.map GameRow.stored = u.games.map GameRow.stored := by
    rw [← ht.contents_games, ← hu.contents_games, h]
  have hplayers : t.players = u.players := congrArg Contents.players h
  have hevents : t.events = u.events := congrArg Contents.events h
  have hrow : ∀ stored : StoredGame, t.gameOf ⟨0, 0, stored⟩ = u.gameOf ⟨0, 0, stored⟩ := by
    intro stored
    simp only [Tables.gameOf, Tables.playerOf, Tables.eventOf, hplayers, hevents]
  have hmap : ∀ v : Tables, storedGames v =
      (v.games.map GameRow.stored).map fun stored => v.gameOf ⟨0, 0, stored⟩ := by
    intro v
    rw [storedGames, List.map_map]
    rfl
  rw [hmap, hmap, hgames]
  exact List.map_congr_left fun stored _ => hrow stored

end Tables

end MotifChess.Import
