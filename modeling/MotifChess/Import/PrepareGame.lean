/- GID: MotifChess/Import/PrepareGame
   generality: implementation
   digest: The bulk import's extraction of a game, and when it agrees with the import worker's. -/

import MotifChess.Db.Store.AlikeInserts
import MotifChess.Db.Store.Fresh
import MotifChess.Import.ImportWorker

set_option autoImplicit false
set_option relaxedAutoImplicit false

namespace MotifChess.Import

open MotifChess.Chess MotifChess.Db MotifChess.Db.Store MotifChess.System

/-- The fields that `prepare_game` fills in before it reads the moves. -/
def preparedRow (pgn : PgnGame) : Game where
  white :=
    { name := findTag pgn.tags "White"
      elo := (parseElo (findTag pgn.tags "WhiteElo")).map Int16.toInt32
      title := nonempty (findTag pgn.tags "WhiteTitle")
      country := none }
  black :=
    { name := findTag pgn.tags "Black"
      elo := (parseElo (findTag pgn.tags "BlackElo")).map Int16.toInt32
      title := nonempty (findTag pgn.tags "BlackTitle")
      country := none }
  eventDetails := (nonempty (findTag pgn.tags "Event")).map fun name =>
    { name
      site := nonempty (findTag pgn.tags "Site")
      date := validDate (findTag pgn.tags "Date") }
  date := validDate (findTag pgn.tags "Date")
  result := pgnResultToString pgn.result
  eco := nonempty (findTag pgn.tags "ECO")
  moves := []

/-- `prepare_game`, the middle stage of the bulk import. -/
def prepareGame (rules : Rules) (pgn : PgnGame) : Except ErrorCode Game :=
  if pgn.moves = [] then .error .emptyGame
  else if 65535 < pgn.moves.length then .error .parseError
  else
    match applySans rules rules.start pgn.moves with
    | none => .error .parseError
    | some moves => .ok { preparedRow pgn with moves }

/-- The tags of a parsed game that have no column of their own. -/
def unknownTags (pgn : PgnGame) : List (String × String) :=
  pgn.tags.filter fun tag => !isKnownTag tag.1

/-- The errors that find fault with the game itself. -/
def ErrorCode.malformed (e : ErrorCode) : Bool := e = .emptyGame || e = .parseError

section Extraction

variable {rules : Rules} {pgn : PgnGame} {moves : List UInt16}

private theorem extractGame_eq (pgn : PgnGame) :
    { extractGame pgn with moves } =
      { preparedRow pgn with moves, extraTags := unknownTags pgn } := rfl

private theorem preparedRow_eq_iff :
    { preparedRow pgn with moves } = { extractGame pgn with moves } ↔ unknownTags pgn = [] := by
  rw [extractGame_eq]
  constructor
  · intro h
    exact (congrArg Game.extraTags h).symm
  · intro h
    rw [h]
    rfl

theorem prepareGame_eq_ok {game : Game} : prepareGame rules pgn = .ok game ↔
    pgn.moves ≠ [] ∧ pgn.moves.length ≤ 65535 ∧
      ∃ moves, applySans rules rules.start pgn.moves = some moves ∧
        game = { preparedRow pgn with moves } := by
  unfold prepareGame
  by_cases hempty : pgn.moves = []
  · simp [hempty]
  by_cases hlong : 65535 < pgn.moves.length
  · simp [hempty, hlong, Nat.not_le.mpr hlong]
  rw [if_neg hempty, if_neg hlong]
  cases applySans rules rules.start pgn.moves with
  | none => simp
  | some moves => simp [hempty, Nat.not_lt.mp hlong, eq_comm]

private theorem prepareGame_malformed_iff :
    (∃ e, prepareGame rules pgn = .error e ∧ e.malformed = true) ↔
      pgn.moves = [] ∨ 65535 < pgn.moves.length ∨
        applySans rules rules.start pgn.moves = none := by
  unfold prepareGame
  by_cases hempty : pgn.moves = []
  · simp [hempty, ErrorCode.malformed]
  by_cases hlong : 65535 < pgn.moves.length
  · simp [hempty, hlong, ErrorCode.malformed]
  rw [if_neg hempty, if_neg hlong]
  cases applySans rules rules.start pgn.moves with
  | none => simp [ErrorCode.malformed]
  | some moves => simp [hempty, hlong]

variable {moveHash : List UInt16 → UInt64} {s : CallState moveHash} {prepared : Bool}

private theorem process_malformed_iff :
    (∃ e t, process rules prepared pgn s = (.error e, t) ∧ e.malformed = true) ↔
      pgn.moves = [] ∨ pgn.moves.length ≤ 65535 ∧
        applySans rules rules.start pgn.moves = none := by
  unfold process
  by_cases hempty : pgn.moves = []
  · simp [hempty, ErrorCode.malformed]
  by_cases hlong : 65535 < pgn.moves.length
  · simp [hempty, hlong, Nat.not_le.mpr hlong, ErrorCode.malformed]
  rw [if_neg hempty, if_neg hlong]
  cases hsans : applySans rules rules.start pgn.moves with
  | none => simp [ErrorCode.malformed, Nat.not_lt.mp hlong]
  | some moves =>
    simp only [hempty, reduceCtorEq, and_false, or_self, iff_false]
    rintro ⟨e, t, hrun, he⟩
    split at hrun
    · obtain rfl := Except.error.inj (Prod.mk.inj hrun).1
      cases he
    · split at hrun
      next => cases hrun
      next =>
        obtain rfl := Except.error.inj (Prod.mk.inj hrun).1
        cases he
      next =>
        obtain rfl := Except.error.inj (Prod.mk.inj hrun).1
        cases he

end Extraction

section Agreement

variable (rules : Rules)

/-- Both imports store the same game where they both store it, and find the same games malformed. The
bulk import inserts into the database that the worker inserts into, checked or raw. -/
structure ImportsAgree (moveHash : List UInt16 → UInt64) (pgn : PgnGame) : Prop where
  stored : ∀ {s s' t t' : CallState moveHash} {id id' : ℕ} {game : Game} {joined raw : Bool},
    s.db = s'.db → s.caches = s'.caches → process rules true pgn s = (.ok id, t) →
      prepareGame rules pgn = .ok game →
        guarded joined (insertBody raw game) s' = (.ok id', t') → t.db.get id = t'.db.get id'
  malformed : ∀ (s : CallState moveHash) (prepared : Bool),
    (∃ e, prepareGame rules pgn = .error e ∧ e.malformed = true) ↔
      ∃ e t, process rules prepared pgn s = (.error e, t) ∧ e.malformed = true

/-- The moves are not too many, and when they can be read there is no tag without a column, or the
tags without one repeat a name, so that the worker never stores the game. -/
def AgreesWhen (pgn : PgnGame) : Prop :=
  pgn.moves.length ≤ 65535 ∧
    (pgn.moves ≠ [] → (applySans rules rules.start pgn.moves).isSome →
      unknownTags pgn = [] ∨ ¬((unknownTags pgn).map Prod.fst).Nodup)

variable {rules} {moveHash : List UInt16 → UInt64} {pgn : PgnGame}

private theorem agreesWhen_of_importsAgree (h : ImportsAgree rules moveHash pgn) :
    AgreesWhen rules pgn := by
  have hmalformed := h.malformed .fresh true
  rw [prepareGame_malformed_iff, process_malformed_iff] at hmalformed
  have hlength : pgn.moves.length ≤ 65535 := by
    by_contra hlong
    have hempty : pgn.moves ≠ [] := by
      rintro hnil
      rw [hnil] at hlong
      exact hlong (Nat.zero_le _)
    rcases hmalformed.mp (.inr (.inl (Nat.lt_of_not_le hlong))) with hnil | ⟨hle, -⟩
    · exact hempty hnil
    · exact hlong hle
  refine ⟨hlength, fun hempty hsans => ?_⟩
  obtain ⟨moves, hmoves⟩ := Option.isSome_iff_exists.mp hsans
  by_contra hunknown
  obtain ⟨hsome, hnodup⟩ := not_or.mp hunknown
  -- An empty database takes the game of either path, and gives back its tags.
  obtain ⟨t, hinsert, hget⟩ := @insert_first moveHash { extractGame pgn with moves }
    (not_not.mp hnodup)
  obtain ⟨t', hinsert', hget'⟩ := @insert_first moveHash { preparedRow pgn with moves } List.nodup_nil
  have hworker := process_eq_ok.mpr ⟨hempty, hlength, moves, hmoves, hinsert⟩
  have hbulk := prepareGame_eq_ok.mpr ⟨hempty, hlength, moves, hmoves, rfl⟩
  have hstored := h.stored rfl rfl hworker hbulk hinsert'
  rw [Rows.get, Rows.get, hget, hget'] at hstored
  have htags := congrArg Game.extraTags (Except.ok.inj hstored)
  exact hsome (List.map_eq_nil_iff.mp htags)

private theorem importsAgree_of_agreesWhen (h : AgreesWhen rules pgn) :
    ImportsAgree rules moveHash pgn where
  stored := by
    intro s s' t t' id id' game joined raw hdb hcaches hworker hbulk hinsert'
    obtain ⟨hempty, hlength, moves, hmoves, hinsert⟩ := process_eq_ok.mp hworker
    obtain ⟨-, -, moves', hmoves', rfl⟩ := prepareGame_eq_ok.mp hbulk
    obtain rfl := Option.some.inj (hmoves.symm.trans hmoves')
    have hnodup := nodup_of_inserted hinsert
    have hunknown : unknownTags pgn = [] := by
      rcases h.2 hempty (Option.isSome_of_eq_some hmoves) with hnil | hrepeated
      · exact hnil
      · exact absurd hnodup hrepeated
    rw [preparedRow_eq_iff.mpr hunknown] at hinsert'
    exact get_inserted_eq hdb hcaches hinsert hinsert'
  malformed := by
    intro s prepared
    rw [prepareGame_malformed_iff, process_malformed_iff]
    have hlength := h.1
    have hshort : ¬65535 < pgn.moves.length := Nat.not_lt.mpr hlength
    simp only [hshort, false_or, hlength, true_and]

/-- The two imports agree on a game exactly when it is not too long and either has no tags without a
column, or has moves or tags that one of the two never stores. -/
theorem importsAgree_iff (rules : Rules) (moveHash : List UInt16 → UInt64) (pgn : PgnGame) :
    ImportsAgree rules moveHash pgn ↔ AgreesWhen rules pgn :=
  ⟨agreesWhen_of_importsAgree, importsAgree_of_agreesWhen⟩

/-- Rules under which the only text of a move is "e4". -/
def onlyE4 : Rules where
  Board := UInt64
  start := 0
  applyEncodedMove board move := board + move.toUInt64
  hash board := board
  san _ _ := "e4"
  applySan board san := if san = "e4" then some (board + 796, 796) else none

/-- A game with a round loses it in the bulk import. -/
theorem not_importsAgree : ¬∀ pgn, ImportsAgree onlyE4 (fun _ => 0) pgn := by
  intro h
  have hwhen := agreesWhen_of_importsAgree (h ⟨[("White", "Anand"), ("Black", "Carlsen"),
    ("Round", "3")], ["e4"], .draw⟩)
  rcases hwhen.2 (by decide) (by decide +kernel) with hnil | hrepeated
  · exact absurd hnil (by decide +kernel)
  · exact hrepeated (by decide +kernel)

end Agreement

end MotifChess.Import
