/- GID: MotifChess/Db/Bundle/ProgramIndexes
   generality: implementation
   digest: The indexes of the program: its postings, and the tree that is built over their counts. -/

import MotifChess.Db.Bundle.Queries
import MotifChess.Db.OpeningTreeIndex.Answers

set_option autoImplicit false
set_option relaxedAutoImplicit false

namespace MotifChess.Db

open OpeningTreeIndex PositionPostings

variable (rules : Chess.Rules) (encodeF64 : ℚ → ℕ) (order : IterationOrder)

/-- What `rebuild_opening_tree_index` builds of the games and their postings. -/
def buildTreeIndex (games : List ReplayGame) (postings : Reader) (file : List UInt8) :
    Result (List UInt8) :=
  OpeningTreeIndex.build rules encodeF64 order {} (some (postingsChildCounts postings file)) games

def Indexes.ofProgram : Indexes :=
  .ofRules rules Index (buildTreeIndex rules encodeF64 order) (openIndex rules) Index.sourceGameCount

variable {rules encodeF64 order}

theorem sourceGameCount_of_buildTreeIndex (games : List ReplayGame) (pbytes : List UInt8) (p : Reader)
    (bytes : List UInt8) (tree : Index)
    (hpostings : PositionPostings.build rules defaultSpillThreshold games = .ok pbytes)
    (hreader : openArtifact pbytes = .ok p)
    (hbuild : buildTreeIndex rules encodeF64 order games p pbytes = .ok bytes)
    (hopen : openIndex rules bytes = .ok tree) : tree.sourceGameCount = games.length := by
  have hsource : CountSource rules games (some (postingsChildCounts p pbytes)) :=
    .postings (by decide) hpostings hreader
  rw [buildTreeIndex, build_eq rules encodeF64 order (by decide) hsource] at hbuild
  exact sourceGameCount_of_treeFile hbuild hopen

theorem lawful_ofProgram : (Indexes.ofProgram rules encodeF64 order).Lawful :=
  Bundle.lawful_ofRules sourceGameCount_of_buildTreeIndex

end MotifChess.Db
