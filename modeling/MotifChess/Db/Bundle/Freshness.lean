/- GID: MotifChess/Db/Bundle/Freshness
   generality: implementation
   digest: In every run without a power failure, what queries answer comes from the stored games. -/

import MotifChess.Codec.Binary64
import MotifChess.Db.Bundle.ProgramIndexes

set_option autoImplicit false
set_option relaxedAutoImplicit false

namespace MotifChess.Db.Bundle

open PositionPostings

def Action.isPowerFailure : Action → Bool
  | .powerFailure .. => true
  | _ => false

/-- The process may crash between any two steps, the machine keeps its power. -/
def Powered {ix : Indexes} (_ : Bundle ix) (a : Action) : Prop := a.isPowerFailure = false

instance {ix : Indexes} (b : Bundle ix) (a : Action) : Decidable (Powered b a) :=
  inferInstanceAs (Decidable (_ = _))

theorem Powered.survivorsFit {ix : Indexes} {b : Bundle ix} {a : Action} (h : Powered b a) :
    SurvivorsFit b a := by
  cases a <;> trivial

section Runs

variable {rules : Chess.Rules} {Tree : Type}
  {buildTree : List ReplayGame → Reader → List UInt8 → Result (List UInt8)}
  {openTree : List UInt8 → Result Tree} {sourceGameCount : Tree → ℕ}
  {b : Bundle (.ofRules rules Tree buildTree openTree sourceGameCount)}
  {moveHash : List UInt16 → UInt64} {name createdAt : String}

/-- No run of calls, imports, rebuilds, crashes and reopens makes a query answer from an index of
other games. -/
theorem fresh_of_reaches (htree : ∀ games pbytes p bytes tree,
      build rules defaultSpillThreshold games = .ok pbytes → openArtifact pbytes = .ok p →
        buildTree games p pbytes = .ok bytes → openTree bytes = .ok tree →
          sourceGameCount tree = games.length)
    (h : Reaches moveHash Powered name createdAt b) : b.Fresh := by
  have hfits := System.Reaches.mono h fun _ _ hpowered => Powered.survivorsFit hpowered
  exact (Reaches.covered (lawful_ofRules htree) hfits).fresh

end Runs

section Sample

/-- A game that a user enters. -/
def enteredGame : Game where
  white := ⟨"Ann", none, none, none⟩
  black := ⟨"Bob", none, none, none⟩
  eventDetails := none
  date := some "2024.01.01"
  result := "1-0"
  eco := none
  moves := [5, 7]
  provenance := { sourceType := "manual" }

/-- The indexes of a program over sums, which walks its tables backwards. -/
abbrev sumIndexes : Indexes :=
  .ofProgram .ofSums Codec.Binary64.encode OpeningTreeIndex.reverseOrder

/-- An entered game with both of its indexes that is patched, with a crash before the bundle is opened
again. -/
def patchedSample : Option (Bundle sumIndexes) :=
  System.run (step fun _ => 0) Powered (created "sample" "2024-01-01T00:00:00Z")
    [.open {}, .insertGame {} true enteredGame, .rebuildPositionPostings {},
      .rebuildOpeningTreeIndex {}, .patchGameMetadata {} true 1 { result := some "0-1" }, .crash,
      .open {}]

theorem fresh_of_reaches_sample : ∃ b ∈ patchedSample, b.Fresh ∧
    b.queryPositionMatches 5 0 0 = .ok [⟨1, 1, -1, none, none⟩] := by
  have hrun : (patchedSample.map fun b => b.queryPositionMatches 5 0 0) =
      some (.ok [⟨1, 1, -1, none, none⟩]) := by
    decide +kernel
  obtain ⟨b, hb, hanswer⟩ := Option.map_eq_some_iff.mp hrun
  have htree :=
    @sourceGameCount_of_buildTreeIndex .ofSums Codec.Binary64.encode OpeningTreeIndex.reverseOrder
  exact ⟨b, hb, fresh_of_reaches htree (System.reaches_of_run hb), hanswer⟩

end Sample

end MotifChess.Db.Bundle
