/- GID: MotifChess/Db/Bundle/PowerFailure
   generality: implementation
   digest: Power failures that lose commits: when the surviving indexes still answer truly. -/

import MotifChess.Db.Bundle.Freshness

set_option autoImplicit false
set_option relaxedAutoImplicit false

namespace MotifChess.Db.Bundle

open PositionPostings

section Runs

variable {rules : Chess.Rules} {Tree : Type}
  {buildTree : List ReplayGame → Reader → List UInt8 → Result (List UInt8)}
  {openTree : List UInt8 → Result Tree} {sourceGameCount : Tree → ℕ}
  {b : Bundle (.ofRules rules Tree buildTree openTree sourceGameCount)}
  {moveHash : List UInt16 → UInt64} {name createdAt : String}

/-- When every power failure leaves indexes that were built from the surviving games or count others,
no query of any later state answers from an index of other games. -/
theorem fresh_of_reaches_survivorsFit (htree : ∀ games pbytes p bytes tree,
      build rules defaultSpillThreshold games = .ok pbytes → openArtifact pbytes = .ok p →
        buildTree games p pbytes = .ok bytes → openTree bytes = .ok tree →
          sourceGameCount tree = games.length)
    (h : Reaches moveHash SurvivorsFit name createdAt b) : b.Fresh :=
  (Reaches.covered (lawful_ofRules htree) h).fresh

end Runs

section Samples

/-- A patched result whose commit is lost, while the postings that were built after it survive. -/
def lostPatchSample : Option (Bundle sumIndexes) :=
  System.run (step fun _ => 0) (fun _ _ => True) (created "sample" "2024-01-01T00:00:00Z")
    [.open {}, .insertGame {} true enteredGame,
      .patchGameMetadata {} true 1 { result := some "0-1" }, .rebuildPositionPostings {},
      .powerFailure 0 1 fun _ => false, .open {}]

/-- The reopened bundle answers with the result that was lost. -/
theorem lost_patch_answered : ∃ b ∈ lostPatchSample,
    b.queryPositionMatches 5 0 0 = .ok [⟨1, 1, -1, none, none⟩] ∧
    b.tables.games.map (fun row => (row.id, row.stored.result)) = [(1, "1-0")] ∧ ¬ b.Fresh := by
  have hrun : (lostPatchSample.map fun b => (b.queryPositionMatches 5 0 0,
      b.tables.games.map fun row => (row.id, row.stored.result),
      metadataAt b.replayedRows 1)) =
      some (.ok [⟨1, 1, -1, none, none⟩], [(1, "1-0")], ⟨1, none, none⟩) := by
    decide +kernel
  obtain ⟨b, hb, heq⟩ := Option.map_eq_some_iff.mp hrun
  obtain ⟨hanswer, hgames, hmetadata⟩ := by simpa only [Prod.mk.injEq] using heq
  refine ⟨b, hb, hanswer, hgames, fun hfresh => ?_⟩
  have hexpected := hfresh.positionMatches 5 0 0 _ hanswer
  have hmem : (⟨1, 1, -1, none, none⟩ : PositionMatch) ∈
      (window 0 0 (occurrencesAt b.replayedRows 5)).map (matchAt b.replayedRows) := by
    rw [← hexpected]
    exact List.mem_singleton_self _
  obtain ⟨o, -, ho⟩ := List.mem_map.mp hmem
  obtain ⟨hid, -, hresult, -⟩ := PositionMatch.mk.inj ho
  rw [hid, hmetadata] at hresult
  exact absurd hresult (by decide)

/-- One game and its postings, with nothing lost yet. -/
def indexedSample : Option (Bundle sumIndexes) :=
  System.run (step fun _ => 0) Powered (created "sample" "2024-01-01T00:00:00Z")
    [.open {}, .insertGame {} true enteredGame, .rebuildPositionPostings {}]

/-- The insert is lost, the postings that were built after it survive. -/
def lostInsertSample : Option (Bundle sumIndexes) :=
  indexedSample.bind fun b => (b.powerFailure 0 1 fun _ => false).map fun b => (b.open {}).1

theorem fresh_of_reaches_survivorsFit_sample : ∃ b ∈ lostInsertSample, b.Fresh ∧
    b.queryPositionMatches 5 0 0 = .ok [] := by
  have hrun : (lostInsertSample.map fun b => b.queryPositionMatches 5 0 0) = some (.ok []) := by
    decide +kernel
  obtain ⟨b, hb, hanswer⟩ := Option.map_eq_some_iff.mp hrun
  obtain ⟨b₀, hb₀, hfailed⟩ := Option.bind_eq_some_iff.mp hb
  obtain ⟨b₁, hb₁, rfl⟩ := Option.map_eq_some_iff.mp hfailed
  have hcounts : (indexedSample.map fun b => ((b.disk.manifests[0]?).map fun d =>
      ((d.entry .tree).isNone, (d.entry .postings).bind fun e => (b.disk.files e.filename).bind
        (sumIndexes.countIn .postings)),
      (b.commits[1]?).map Tables.countGames)) = some (some (true, some 1), some 0) := by
    decide +kernel
  rw [hb₀, Option.map_some, Option.some.injEq, Prod.mk.injEq] at hcounts
  have hfits : SurvivorsFit b₀ (.powerFailure 0 1 fun _ => false) := by
    intro d t hd ht kind e bytes he _ hbytes
    rw [hd, ht] at hcounts
    obtain ⟨hindexes, hgames⟩ := hcounts
    obtain ⟨htree, hpostings⟩ := Prod.mk.inj (Option.some.inj hindexes)
    cases kind with
    | postings =>
      rw [he, Option.bind_some, hbytes, Option.bind_some] at hpostings
      refine .inr fun n hn => .inl ?_
      obtain rfl := Option.some.inj (hpostings.symm.trans hn)
      rw [Option.some.inj hgames]
      exact Nat.one_pos
    | tree =>
      rw [he] at htree
      cases htree
  have hfailed := ((System.reaches_of_run hb₀).mono fun _ _ => Powered.survivorsFit).tail hfits hb₁
  have hopen : b₁.step (fun _ => 0) (.open {}) = some (b₁.open {}).1 :=
    if_pos (Option.isNone_iff_eq_none.mpr (powerFailure_manager hb₁))
  have hallowed : SurvivorsFit b₁ (.open {}) := trivial
  have hreopened := hfailed.tail hallowed hopen
  have htree :=
    @sourceGameCount_of_buildTreeIndex .ofSums Codec.Binary64.encode OpeningTreeIndex.reverseOrder
  exact ⟨_, hb, fresh_of_reaches_survivorsFit htree hreopened, hanswer⟩

end Samples

end MotifChess.Db.Bundle
