/- GID: MotifChess/Db/Bundle/Queries
   generality: implementation
   digest: The position queries of a bundle, and what makes their answers fresh. -/

import MotifChess.Db.Bundle.Coverage
import MotifChess.Db.PositionPostings.ReplayAnswers

set_option autoImplicit false
set_option relaxedAutoImplicit false

namespace MotifChess.Db

open PositionPostings

/-- The indexes that queries are told from were built from the stored games. -/
structure View.Current {ix : Indexes} (v : View ix) : Prop where
  postings : ∀ reader file, v.postings = some (reader, file) → ∃ bytes, file = some bytes ∧
    ix.IndexesGames .postings v.tables.replayGames bytes ∧ ix.openPostings bytes = .ok reader
  tree : ∀ reader file, v.tree = some (reader, file) → ∃ bytes, file = some bytes ∧
    ix.IndexesGames .tree v.tables.replayGames bytes ∧ ix.openTree bytes = .ok reader

namespace Bundle

variable {rules : Chess.Rules} {Tree : Type}
  {buildTree : List ReplayGame → Reader → List UInt8 → Result (List UInt8)}
  {openTree : List UInt8 → Result Tree} {sourceGameCount : Tree → ℕ}

section Queries

variable (b : Bundle (.ofRules rules Tree buildTree openTree sourceGameCount))

/-- The valid postings, with the file that they read. -/
def queriedPostings : Option (Reader × Option (List UInt8)) := b.view.bind View.postings

/-- A query that fails closed: without valid postings it has no answer. -/
def askPostings {α : Type} (query : Reader → List UInt8 → Result α) : Result α :=
  match b.queriedPostings with
  | some (reader, some file) => query reader file
  | _ => .error .ioFailure

/-- Queries find postings, and these were built from the stored games. -/
def ValidPostings : Prop := ∃ reader bytes, b.queriedPostings = some (reader, some bytes) ∧
  build rules defaultSpillThreshold b.tables.replayGames = .ok bytes ∧
    openArtifact bytes = .ok reader

def queryPositionMatches (hash : UInt64) (limit offset : ℕ) : Result (List PositionMatch) :=
  b.askPostings fun reader file => reader.occurrences file hash.toNat limit offset

def queryPositionFirstMatches (hash : UInt64) (gameIds : List UInt32) :
    Result (List PositionMatch) :=
  b.askPostings fun reader file => reader.firstOccurrences file hash.toNat gameIds

def positionGameIds (hash : UInt64) : Result (List UInt32) :=
  b.askPostings fun reader file => reader.distinctGameIds file hash.toNat

/-- The counts of a position; an open bundle without valid postings has none to give. -/
def positionSummary (hash : UInt64) : Result (Option PositionPostingsSummary) :=
  if b.manager.isSome && b.queriedPostings.isNone then .ok none
  else b.askPostings fun reader file => reader.summary file hash.toNat

/-- The rows that replaying the stored games gives. -/
def replayedRows : List PositionRow := gameRows rules b.tables.replayGames

/-- Whatever a position query answers is what replaying the stored games gives, and the opening
queries are told from indexes of the stored games. -/
structure Fresh : Prop where
  positionMatches : ∀ hash limit offset found,
    b.queryPositionMatches hash limit offset = .ok found →
      found = (window limit offset (occurrencesAt b.replayedRows hash)).map (matchAt b.replayedRows)
  firstMatches : ∀ hash gameIds found, b.queryPositionFirstMatches hash gameIds = .ok found →
    found = (firstOccurrencesAt b.replayedRows hash gameIds).map (matchAt b.replayedRows)
  gameIds : ∀ hash found, b.positionGameIds hash = .ok found →
    found = gameIdsAt b.replayedRows hash
  summary : ∀ hash found, b.positionSummary hash = .ok (some found) →
    summaryAt b.replayedRows hash = some found
  openings : ∀ v, b.view = some v → v.Current

end Queries

section Freshness

variable {b : Bundle (.ofRules rules Tree buildTree openTree sourceGameCount)}

/-- The postings of the program count the games that they index. -/
theorem lawful_ofRules (htree : ∀ games pbytes p bytes tree,
    build rules defaultSpillThreshold games = .ok pbytes → openArtifact pbytes = .ok p →
      buildTree games p pbytes = .ok bytes → openTree bytes = .ok tree →
        sourceGameCount tree = games.length) :
    (Indexes.ofRules rules Tree buildTree openTree sourceGameCount).Lawful where
  postings := by
    intro games bytes reader hbuild hopen
    obtain ⟨reader', hopen', -, hcount⟩ := build_answers_of_ok rules (by decide) hbuild
    obtain rfl := Except.ok.inj (hopen'.symm.trans hopen)
    exact hcount
  tree := htree

theorem Covered.current {ix : Indexes} {b : Bundle ix} {closed : Prop} (h : Covered closed b)
    {v : View ix} (hv : b.view = some v) : v.Current := by
  obtain ⟨m, hm, rfl⟩ := Option.map_eq_some_iff.mp hv
  refine ⟨fun reader file hpostings => ?_, fun reader file htree => ?_⟩
  · obtain ⟨i, hi, hpair⟩ := Option.map_eq_some_iff.mp hpostings
    obtain ⟨rfl, rfl⟩ := Prod.mk.inj hpair
    obtain ⟨bytes, hbytes, hopen, hindexes, -⟩ := h.validPostings hm hi
    exact ⟨bytes, hbytes, hindexes, hopen⟩
  · obtain ⟨i, hi, hpair⟩ := Option.map_eq_some_iff.mp htree
    obtain ⟨rfl, rfl⟩ := Prod.mk.inj hpair
    obtain ⟨bytes, hbytes, hopen, hindexes⟩ := h.validTree hm hi
    exact ⟨bytes, hbytes, hindexes, hopen⟩

theorem Covered.postingsValid {closed : Prop} (h : Covered closed b) {reader : Reader}
    {file : Option (List UInt8)} (hasked : b.queriedPostings = some (reader, file)) :
    b.ValidPostings := by
  obtain ⟨v, hv, hpostings⟩ := Option.bind_eq_some_iff.mp hasked
  obtain ⟨bytes, rfl, hindexes, hopen⟩ := (h.current hv).postings reader file hpostings
  obtain ⟨m, hm, rfl⟩ := Option.map_eq_some_iff.mp hv
  exact ⟨reader, bytes, hasked, hindexes, hopen⟩

theorem ValidPostings.answers (h : b.ValidPostings) : ∃ reader bytes,
    b.queriedPostings = some (reader, some bytes) ∧ Answers reader bytes b.replayedRows := by
  obtain ⟨reader, bytes, hasked, hbuild, hopen⟩ := h
  obtain ⟨reader', hopen', hanswers, -⟩ := build_answers_of_ok rules (by decide) hbuild
  obtain rfl := Except.ok.inj (hopen'.symm.trans hopen)
  exact ⟨reader', bytes, hasked, hanswers⟩

theorem Covered.answers {closed : Prop} (h : Covered closed b) {reader : Reader}
    {file : Option (List UInt8)} (hasked : b.queriedPostings = some (reader, file)) :
    ∃ bytes, file = some bytes ∧ Answers reader bytes b.replayedRows := by
  obtain ⟨reader', bytes, hasked', hanswers⟩ := (h.postingsValid hasked).answers
  obtain ⟨rfl, rfl⟩ := Prod.mk.inj (Option.some.inj (hasked.symm.trans hasked'))
  exact ⟨bytes, rfl, hanswers⟩

theorem Covered.ask {closed : Prop} (h : Covered closed b) {α : Type}
    {query : Reader → List UInt8 → Result α} {found : α} (hfound : b.askPostings query = .ok found) :
    ∃ reader bytes, query reader bytes = .ok found ∧ Answers reader bytes b.replayedRows := by
  unfold askPostings at hfound
  split at hfound
  next reader bytes hasked =>
    obtain ⟨bytes', hfile, hanswers⟩ := h.answers hasked
    obtain rfl := Option.some.inj hfile
    exact ⟨reader, bytes, hfound, hanswers⟩
  next => cases hfound

theorem Covered.fresh {closed : Prop} (h : Covered closed b) : b.Fresh where
  positionMatches := by
    intro hash limit offset found hfound
    obtain ⟨reader, bytes, hquery, hanswers⟩ := h.ask hfound
    rw [hanswers.occurrences] at hquery
    exact (Except.ok.inj hquery).symm
  firstMatches := by
    intro hash gameIds found hfound
    obtain ⟨reader, bytes, hquery, hanswers⟩ := h.ask hfound
    rw [hanswers.firstOccurrences] at hquery
    exact (Except.ok.inj hquery).symm
  gameIds := by
    intro hash found hfound
    obtain ⟨reader, bytes, hquery, hanswers⟩ := h.ask hfound
    rw [hanswers.distinctGameIds] at hquery
    exact (Except.ok.inj hquery).symm
  summary := by
    intro hash found hfound
    unfold positionSummary at hfound
    split at hfound
    next => cases hfound
    next =>
      obtain ⟨reader, bytes, hquery, hanswers⟩ := h.ask hfound
      rw [hanswers.summary] at hquery
      exact Except.ok.inj hquery
  openings := fun _ hv => h.current hv

end Freshness

end Bundle

end MotifChess.Db
