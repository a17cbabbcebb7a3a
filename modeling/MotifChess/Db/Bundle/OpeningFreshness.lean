/- GID: MotifChess/Db/Bundle/OpeningFreshness
   generality: implementation
   digest: In every run without a power failure, opening queries answer the rows of the stored games. -/

import MotifChess.Db.Bundle.Freshness
import MotifChess.Db.Bundle.OpeningAgreement

set_option autoImplicit false
set_option relaxedAutoImplicit false

namespace MotifChess.Db

open OpeningTreeIndex PositionPostings
open Codec.Binary64 (ExactHalves)

section Answers

variable {rules : Chess.Rules} {decodeF64 : ℕ → ℚ}
  {buildTree : List ReplayGame → Reader → List UInt8 → Result (List UInt8)}
  {v : View (.ofRules rules Index buildTree (openIndex rules) Index.sourceGameCount)}
  {hash : UInt64} {gameIds : List UInt32} {rows : List ExactStatRow}

private theorem exists_postings_of_unfiltered (h : v.queryUnfilteredOpeningStats decodeF64 hash = .ok rows) :
    ∃ reader file, v.postings = some (reader, some file) := by
  unfold View.queryUnfilteredOpeningStats at h
  split at h
  next reader file hpostings => exact ⟨reader, file, hpostings⟩
  next => cases h

private theorem exists_postings_of_filtered (h : v.queryFilteredOpeningStats hash gameIds = .ok rows) :
    ∃ reader file, v.postings = some (reader, some file) := by
  unfold View.queryFilteredOpeningStats at h
  split at h
  next reader file hpostings => exact ⟨reader, file, hpostings⟩
  next => cases h

end Answers

section Current

variable {rules : Chess.Rules} {encodeF64 : ℚ → ℕ} {order : IterationOrder}
  {v : View (.ofProgram rules encodeF64 order)}

private theorem View.Current.postingsOf (h : v.Current) {reader : Reader} {file : List UInt8}
    (hpostings : v.postings = some (reader, some file)) :
    PostingsOf rules v.tables.replayGames reader file := by
  obtain ⟨bytes, hfile, hbuild, hopen⟩ := h.postings reader (some file) hpostings
  obtain rfl := Option.some.inj hfile
  exact ⟨defaultSpillThreshold, by decide, hbuild, hopen⟩

theorem View.Current.treeOf (h : v.Current) {tree : Index} {file : Option (List UInt8)}
    (htree : v.tree = some (tree, file)) :
    ∃ bytes, file = some bytes ∧ TreeOf rules encodeF64 v.tables.replayGames tree bytes := by
  obtain ⟨bytes, rfl, hindexes, hopen⟩ := h.tree tree file htree
  obtain ⟨pbytes, p, hpostings, hreader, hbuild⟩ := hindexes
  have hsource : CountSource rules v.tables.replayGames (some (postingsChildCounts p pbytes)) :=
    .postings (by decide) hpostings hreader
  exact ⟨bytes, rfl, order, {}, _, by decide, hsource, hbuild, hopen⟩

end Current

namespace Bundle

variable {rules : Chess.Rules} {encodeF64 : ℚ → ℕ} {decodeF64 : ℕ → ℚ} {order : IterationOrder}

/-- Whatever an opening query answers are the rows of the stored games that it counts. -/
structure OpeningsFresh (decodeF64 : ℕ → ℚ) (b : Bundle (.ofProgram rules encodeF64 order)) :
    Prop where
  unfiltered : ∀ v, b.view = some v → ∀ hash rows,
    View.queryUnfilteredOpeningStats v decodeF64 hash = .ok rows →
      rows = referenceRows rules b.tables.replayGames b.tables.replayGames hash
  filtered : ∀ v, b.view = some v → ∀ hash gameIds rows,
    View.queryFilteredOpeningStats v hash gameIds = .ok rows →
      rows = referenceRows rules (allowedGames b.tables.replayGames gameIds)
        (allowedGames b.tables.replayGames gameIds) hash

variable {b : Bundle (.ofProgram rules encodeF64 order)}

private theorem tables_of_view {v : View (.ofProgram rules encodeF64 order)} (hv : b.view = some v) :
    v.tables = b.tables := by
  obtain ⟨m, -, rfl⟩ := Option.map_eq_some_iff.mp hv
  rfl

private theorem Covered.openingsFresh {closed : Prop} (h : Covered closed b)
    (hcodec : ExactHalves encodeF64 decodeF64) (hfit : b.tables.IdsFit)
    (helos : ∀ game ∈ b.tables.replayGames, game.ElosWithin) : b.OpeningsFresh decodeF64 where
  unfiltered := by
    intro v hv hash rows hrows
    have hcurrent := h.current hv
    rw [← tables_of_view hv] at hfit helos ⊢
    obtain ⟨reader, file, hpostings⟩ := exists_postings_of_unfiltered hrows
    have hanswer := queryUnfilteredOpeningStats_eq hcodec hfit helos hpostings
      (hcurrent.postingsOf hpostings) (fun _ _ => hcurrent.treeOf) hash
    exact Except.ok.inj (hrows.symm.trans hanswer)
  filtered := by
    intro v hv hash gameIds rows hrows
    have hcurrent := h.current hv
    rw [← tables_of_view hv] at hfit ⊢
    obtain ⟨reader, file, hpostings⟩ := exists_postings_of_filtered hrows
    have hanswer := queryFilteredOpeningStats_eq hfit hpostings (hcurrent.postingsOf hpostings) hash
      gameIds
    exact Except.ok.inj (hrows.symm.trans hanswer)

/-- No run of calls, imports, rebuilds, crashes and reopens makes an opening query answer other rows
than those that the stored games have, told from a tree or from postings. -/
theorem openingsFresh_of_reaches {moveHash : List UInt16 → UInt64} {name createdAt : String}
    (hcodec : ExactHalves encodeF64 decodeF64) (h : Reaches moveHash Powered name createdAt b)
    (hfit : b.tables.IdsFit) (helos : ∀ game ∈ b.tables.replayGames, game.ElosWithin) :
    b.OpeningsFresh decodeF64 := by
  have hfits := System.Reaches.mono h fun _ _ hpowered => Powered.survivorsFit hpowered
  exact (Reaches.covered lawful_ofProgram hfits).openingsFresh hcodec hfit helos

section Sample

/-- A bundle with both indexes that is opened again after a crash. -/
def reopenedSample : Option (Bundle sumIndexes) :=
  System.run (step fun _ => 0) Powered (created "sample" "2024-01-01T00:00:00Z")
    [.open {}, .insertGame {} true enteredGame, .rebuildPositionPostings {},
      .rebuildOpeningTreeIndex {}, .crash, .open {}]

/-- The moves that a bundle tells of a position, from the tree. -/
def toldMoves (b : Bundle sumIndexes) (hash : UInt64) : Option (Result (List UInt16)) :=
  b.view.map fun v => (View.queryUnfilteredOpeningStats v Codec.Binary64.decode hash).map fun rows =>
    rows.map ExactStatRow.contEncodedMove

theorem openingsFresh_of_reaches_sample : ∃ b ∈ reopenedSample,
    b.OpeningsFresh Codec.Binary64.decode ∧ toldMoves b 5 = some (.ok [7]) := by
  have hrun : (reopenedSample.map fun b => (toldMoves b 5,
      b.tables.games.all (fun row => decide (row.id < 2 ^ 32)),
      b.tables.replayGames.all fun game =>
        game.whiteElo.all (fun elo => decide (0 ≤ elo.toInt ∧ elo.toInt ≤ 32767)) &&
          game.blackElo.all fun elo => decide (0 ≤ elo.toInt ∧ elo.toInt ≤ 32767))) =
      some (some (.ok [7]), true, true) := by
    decide +kernel
  obtain ⟨b, hb, hasked⟩ := Option.map_eq_some_iff.mp hrun
  obtain ⟨htold, hasked⟩ := Prod.mk.inj hasked
  obtain ⟨hids, helos⟩ := Prod.mk.inj hasked
  have hfresh := openingsFresh_of_reaches Codec.Binary64.exactHalves (System.reaches_of_run hb)
    (idsFit_of_all hids) (elosWithin_of_all helos)
  exact ⟨b, hb, hfresh, htold⟩

end Sample

end Bundle

end MotifChess.Db
