/- GID: MotifChess/Db/PositionPostings/ReplayAnswers
   generality: implementation
   digest: A file that was built from replayed games answers as replaying them prescribes. -/

import MotifChess.Db.PositionPostings.Finalize
import MotifChess.Db.ReplayGame

set_option autoImplicit false
set_option relaxedAutoImplicit false

namespace MotifChess.Db.PositionPostings

variable (rules : Chess.Rules)

/-- The positions that replaying the games goes through. -/
def gameRows (games : List ReplayGame) : List PositionRow :=
  games.flatMap fun game => (replayRows rules game).toOption.getD []

section Accepted

variable {rows : List PositionRow} {runs : List (List Record)} {b b' : Builder}

private theorem BuildInv.of_append_ok {call : List PositionRow} (h : BuildInv rows b)
    (hacc : Acceptable rows) (hcall : b.append call = .ok b') :
    Acceptable (rows ++ call) ∧ BuildInv (rows ++ call) b' := by
  obtain ⟨runs, hinv⟩ := h.inv
  have hfold : ∃ b'', call.foldlM Builder.appendRow b = .ok b'' := by
    rw [Builder.append] at hcall
    split_ifs at hcall
    obtain ⟨b'', hfold, -⟩ := bind_eq_ok.mp hcall
    exact ⟨b'', hfold⟩
  obtain ⟨b'', hfold⟩ := hfold
  have hacc' := acceptable_of_foldlM_appendRow hinv hacc hfold
  obtain ⟨appended, happend, hinv'⟩ := h.append hacc'
  obtain rfl := Except.ok.inj (hcall.symm.trans happend)
  exact ⟨hacc', hinv'⟩

theorem BuildInv.of_foldlM_appendGame {games : List ReplayGame} (h : BuildInv rows b)
    (hacc : Acceptable rows) (hgames : games.foldlM (appendGame rules) b = .ok b') :
    Acceptable (rows ++ gameRows rules games) ∧ BuildInv (rows ++ gameRows rules games) b' := by
  induction games generalizing rows b with
  | nil =>
    obtain rfl := Except.ok.inj hgames
    simpa [gameRows] using And.intro hacc h
  | cons game games ih =>
    rw [List.foldlM_cons] at hgames
    obtain ⟨middle, hgame, hrest⟩ := bind_eq_ok.mp hgames
    obtain ⟨call, hcall, happend⟩ := bind_eq_ok.mp hgame
    obtain ⟨hacc', hinv'⟩ := h.of_append_ok hacc happend
    have hrows : gameRows rules (game :: games) = call ++ gameRows rules games := by
      rw [gameRows, List.flatMap_cons, hcall]
      rfl
    rw [hrows, ← List.append_assoc]
    exact ih hinv' hacc' hrest

end Accepted

theorem streamsFit_iff {b : Builder} : b.streamsFit = true ↔ StreamsFit b := by
  rw [Builder.streamsFit, Bool.and_eq_true, List.all_eq_true]
  constructor
  · rintro ⟨hspills, hstaged⟩
    refine ⟨fun file hfile => of_decide_eq_true (hspills file hfile), fun file hfile => ?_⟩
    rw [hfile] at hstaged
    exact of_decide_eq_true hstaged
  · intro h
    refine ⟨fun file hfile => decide_eq_true (h.spills file hfile), ?_⟩
    cases hfile : stageArtifact b.spillCurrentBuffer with
    | error e => rfl
    | ok file => exact decide_eq_true (h.staged file hfile)

variable {rules} in
/-- A build that succeeds wrote a file that opens, counts the games, and answers every query as the
replayed games prescribe; no position occurs in them more often than 32 bits count. -/
theorem build_answers_fit {threshold : ℕ} (hthreshold : 1 ≤ threshold) {games : List ReplayGame}
    {file : List UInt8} (h : build rules threshold games = .ok file) :
    ∃ reader, openArtifact file = .ok reader ∧ Answers reader file (gameRows rules games) ∧
      reader.header.indexedGameCount = games.length ∧ OccurrencesFit (gameRows rules games) := by
  obtain ⟨b, hgames, h⟩ := bind_eq_ok.mp h
  split_ifs at h with hcount hfit
  have hstart : Acceptable ([] : List PositionRow) := ⟨by simp, by simp, by simp⟩
  obtain ⟨hacc, hinv⟩ := (BuildInv.new hthreshold).of_foldlM_appendGame rules hstart hgames
  rw [List.nil_append] at hacc hinv
  have hstreams := streamsFit_iff.mp (by simpa using hfit)
  obtain ⟨hfinalize, hreject⟩ := hinv.finalize_eq hacc hstreams
  by_cases hoccurrences : OccurrencesFit (gameRows rules games)
  · obtain ⟨file', reader, hfile, hopen, hanswers⟩ := hfinalize hoccurrences
    obtain rfl := Except.ok.inj (h.symm.trans hfile)
    refine ⟨reader, hopen, hanswers, ?_, hoccurrences⟩
    obtain ⟨runs, hruns⟩ := hinv.inv
    rw [hanswers.gameCount, ← hruns.metadata.length_eq, ← hinv.count]
    exact (not_ne_iff.mp hcount).symm
  · rw [hreject hoccurrences] at h
    cases h

/-- A build that succeeds wrote a file that opens, counts the games, and answers every query as the
replayed games prescribe. -/
theorem build_answers_of_ok {threshold : ℕ} (hthreshold : 1 ≤ threshold) {games : List ReplayGame}
    {file : List UInt8} (h : build rules threshold games = .ok file) :
    ∃ reader, openArtifact file = .ok reader ∧ Answers reader file (gameRows rules games) ∧
      reader.header.indexedGameCount = games.length := by
  obtain ⟨reader, hopen, hanswers, hcount, -⟩ := build_answers_fit hthreshold h
  exact ⟨reader, hopen, hanswers, hcount⟩

end MotifChess.Db.PositionPostings
