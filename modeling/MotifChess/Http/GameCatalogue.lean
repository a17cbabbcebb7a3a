/- GID: MotifChess/Http/GameCatalogue
   generality: implementation
   digest: The stored games as a map by id, of which each answer over HTTP says what became of one entry. -/

import MotifChess.Db.PatchCollision
import MotifChess.Http.GameRequests
import MotifChess.System.KeyedLog

set_option autoImplicit false
set_option relaxedAutoImplicit false

namespace MotifChess.Http

open MotifChess.Db MotifChess.Import MotifChess.System

/-- A game that a user added, which alone may be changed and removed. -/
def UserAdded (game : Game) : Prop := game.read.provenance.sourceType = "manual"

/-- A later state of a game, whose moves and origin never change. -/
def Follows (old new : Game) : Prop :=
  new.moves = old.moves ∧ new.provenance.sourceType = old.provenance.sourceType

/-- The id that a request names. -/
def GameRequest.names : GameRequest → Option UInt32
  | .patch _ _ idText _ => parseGameId idText
  | .delete _ _ idText => parseGameId idText
  | .read _ idText => parseGameId idText
  | .readPatched _ id => some id
  | _ => none

/-- The id in the path of a request. -/
def GameRequest.idText : GameRequest → Option String
  | .patch _ _ idText _ => some idText
  | .delete _ _ idText => some idText
  | .read _ idText => some idText
  | _ => none

/-- The request asks for a game. -/
def GameRequest.reads : GameRequest → Prop
  | .read _ _ => True
  | .readPatched _ _ => True
  | _ => False

/-- Neither the file system nor SQLite fails in the section. -/
def GameRequest.Undisturbed : GameRequest → Prop
  | .create io _ => io.stale.manifest.outcome = .published ∧ io.inserts = true ∧ io.setsProvenance = true
  | .patch stale works _ _ => stale.manifest.outcome = .published ∧ works = true
  | .delete stale works _ => stale.manifest.outcome = .published ∧ works = true
  | .readPatched works _ => works = true
  | .read works _ => works = true
  | .count works => works = true
  | .rebuild _ => True

/-- What the answer says when the section fails. -/
def GameRequest.failure : GameRequest → String
  | .create _ _ => "game creation failed"
  | .patch _ _ _ _ => "patch failed"
  | .readPatched _ _ => "game retrieval failed after patch"
  | .delete _ _ _ => "delete failed"
  | .read _ _ => "game retrieval failed"
  | .count _ => "game count query failed"
  | .rebuild _ => "position store rebuild failed"

section Contract

variable (parsePgn : String → Option (List PgnGame)) (rules : Chess.Rules)

/-- The game that the body of a request describes, with the moves that its text stands for. -/
structure Describes (body : CreateGameRequest) (game : Game) : Prop where
  status : body.reviewStatus.getD "new" ∈ validReviewStatuses
  parsed : ∃ pgn, parsePgn body.pgn = some [pgn] ∧ pgn.moves ≠ [] ∧ pgn.moves.length ≤ 65535 ∧
    ∃ moves, applySans rules rules.start pgn.moves = some moves ∧ game = { extractGame pgn with moves }

/-- What is wrong with a request, whatever games are stored. -/
inductive Malformed : GameRequest → String → Prop
  | noBody {io : CreateIO} : Malformed (.create io none) "invalid request body"
  | noPgn {io : CreateIO} {body : CreateGameRequest} :
      body.pgn = "" → Malformed (.create io (some body)) "pgn is required"
  | status {io : CreateIO} {body : CreateGameRequest} :
      body.reviewStatus.getD "new" ∉ validReviewStatuses → Malformed (.create io (some body))
        "invalid review_status; allowed: new, needs_review, studied, archived"
  | unreadable {io : CreateIO} {body : CreateGameRequest} : parsePgn body.pgn = none →
      Malformed (.create io (some body)) "pgn parse error: invalid PGN syntax"
  | noGame {io : CreateIO} {body : CreateGameRequest} :
      parsePgn body.pgn = some [] → Malformed (.create io (some body)) "no game found in PGN"
  | manyGames {io : CreateIO} {body : CreateGameRequest} {games : List PgnGame} :
      parsePgn body.pgn = some games → 1 < games.length →
      Malformed (.create io (some body)) "only one game per request is supported"
  | noMoves {io : CreateIO} {body : CreateGameRequest} {pgn : PgnGame} :
      parsePgn body.pgn = some [pgn] → pgn.moves = [] →
      Malformed (.create io (some body)) "game has no moves"
  | illegal {io : CreateIO} {body : CreateGameRequest} {pgn : PgnGame} :
      parsePgn body.pgn = some [pgn] → applySans rules rules.start pgn.moves = none →
      Malformed (.create io (some body)) "pgn parse error: invalid SAN move"
  | id {request : GameRequest} {idText : String} : request.idText = some idText →
      parseGameId idText = none → Malformed request "invalid game id"
  | noPatch {stale : Bundle.StaleIO} {works : Bool} {idText : String} :
      Malformed (.patch stale works idText none) "invalid request body"
  | patchResult {stale : Bundle.StaleIO} {works : Bool} {idText result : String} {patch : GamePatch} :
      patch.result = some result → result ∉ validResults →
      Malformed (.patch stale works idText (some patch)) "invalid result; allowed: 1-0, 0-1, 1/2-1/2, *"
  | patchStatus {stale : Bundle.StaleIO} {works : Bool} {idText status : String} {patch : GamePatch} :
      patch.reviewStatus = some status → status ∉ validReviewStatuses →
      Malformed (.patch stale works idText (some patch))
        "invalid review_status; allowed: new, needs_review, studied, archived"

/-- Why a section fails although nothing fails in it: a game or a patch does not fit the database, or
the game is gone. -/
inductive Unfit (moveHash : List UInt16 → UInt64) (m : ℕ → Option Game) : GameRequest → Prop
  | tooLong {io : CreateIO} {body : CreateGameRequest} {pgn : PgnGame} :
      parsePgn body.pgn = some [pgn] → 65535 < pgn.moves.length →
      Unfit moveHash m (.create io (some body))
  | repeatedTag {io : CreateIO} {body : CreateGameRequest} {pgn : PgnGame} :
      parsePgn body.pgn = some [pgn] → ¬((extractGame pgn).extraTags.map Prod.fst).Nodup →
      Unfit moveHash m (.create io (some body))
  | elo {stale : Bundle.StaleIO} {works : Bool} {idText : String} {patch : GamePatch}
      {e : Db.ErrorCode} :
      narrowElo patch.whiteElo = .error e ∨ narrowElo patch.blackElo = .error e →
      Unfit moveHash m (.patch stale works idText (some patch))
  | collides {stale : Bundle.StaleIO} {works : Bool} {idText : String} {patch : GamePatch} {id : UInt32}
      {other : ℕ} {game found : Game} (n : ℕ) :
      parseGameId idText = some id → m id.toNat = some game → other ≠ id.toNat → m other = some found →
      GameRow.sameSlot moveHash (.ofGame found) ((StoredGame.ofGame game).updated
        ((patch.updates (patch.eventName game.read.eventDetails)).take n)) = true →
      Unfit moveHash m (.patch stale works idText (some patch))
  | gone {works : Bool} {id : UInt32} : m id.toNat = none → Unfit moveHash m (.readPatched works id)

/-- Why a request was refused: it is itself at fault, something failed, or its game is missing, not
the user's or there already. A rebuild may fail for reasons of its own. -/
inductive Refuses (moveHash : List UInt16 → UInt64) (m : ℕ → Option Game) : GameRequest → Response → Prop
  | malformed {request : GameRequest} {message : String} : Malformed parsePgn rules request message →
      Refuses moveHash m request (jsonError 400 message)
  | failed {request : GameRequest} :
      ¬request.Undisturbed ∨ Unfit parsePgn moveHash m request →
      Refuses moveHash m request (jsonError 500 request.failure)
  | unbuilt {io : Bundle.RebuildIO} :
      Refuses moveHash m (.rebuild io) (jsonError 500 "position store rebuild failed")
  | missing {request : GameRequest} {id : UInt32} : request.names = some id → m id.toNat = none →
      Refuses moveHash m request (jsonError 404 "not_found")
  | unpatchable {stale : Bundle.StaleIO} {works : Bool} {idText : String} {patch : GamePatch}
      {id : UInt32} {game : Game} :
      parseGameId idText = some id → m id.toNat = some game → ¬UserAdded game →
      Refuses moveHash m (.patch stale works idText (some patch))
        (jsonError 409 "game is not user-added and cannot be modified")
  | undeletable {stale : Bundle.StaleIO} {works : Bool} {idText : String} {id : UInt32} {game : Game} :
      parseGameId idText = some id → m id.toNat = some game → ¬UserAdded game →
      Refuses moveHash m (.delete stale works idText)
        (jsonError 409 "game is not user-added and cannot be deleted")
  | duplicate {io : CreateIO} {body : CreateGameRequest} {game other : Game} {id : ℕ} :
      Describes parsePgn rules body game → m id = some other →
      (StoredGame.ofGame other).identity = (StoredGame.ofGame game).identity →
      Refuses moveHash m (.create io (some body)) (jsonError 409 "duplicate game")

/-- What an answer says about the games at that moment, and about the entry that changed. -/
inductive Answered (moveHash : List UInt16 → UInt64) (m : ℕ → Option Game) :
    GameRequest → Answer → List (Change ℕ Game) → Prop
  | refused {request : GameRequest} {response : Response} :
      Refuses parsePgn rules moveHash m request response → Answered moveHash m request (.refused response) []
  | leftBehind {io : CreateIO} {body : CreateGameRequest} {described game : Game} {id : ℕ} :
      io.setsProvenance = false → io.removes = false → Describes parsePgn rules body described →
      StoredGame.ofGame game = StoredGame.ofGame described →
      Answered moveHash m (.create io (some body)) (.refused (jsonError 500 "game creation failed")) [.added id game]
  | created {io : CreateIO} {body : CreateGameRequest} {described game : Game} {id : UInt32} :
      Describes parsePgn rules body described →
      StoredGame.ofGame game = { StoredGame.ofGame described with
        provenance := ⟨"manual", body.sourceLabel, body.reviewStatus.getD "new"⟩ } →
      (∀ other found, m other = some found →
        (StoredGame.ofGame found).identity ≠ (StoredGame.ofGame game).identity) →
      Answered moveHash m (.create io (some body))
        (.created ⟨id, "manual", body.sourceLabel, body.reviewStatus.getD "new"⟩) [.added id.toNat game]
  | patched {stale : Bundle.StaleIO} {works : Bool} {idText : String} {patch : GamePatch} {id : UInt32}
      {old new : Game} :
      parseGameId idText = some id → m id.toNat = some old →
      StoredGame.ofGame new =
        patch.applied (patch.eventName old.read.eventDetails) (StoredGame.ofGame old) →
      Answered moveHash m (.patch stale works idText (some patch)) (.patched id) [.updated id.toNat new]
  | deleted {stale : Bundle.StaleIO} {works : Bool} {idText : String} {id : UInt32} :
      parseGameId idText = some id → Answered moveHash m (.delete stale works idText) (.deleted id) [.removed id.toNat]
  | game {request : GameRequest} {id : UInt32} {game : Game} :
      request.reads → request.names = some id → m id.toNat = some game →
      Answered moveHash m request (.game id game.read) []
  | count {works : Bool} : Answered moveHash m (.count works) (.count (Logged.stored m).ncard) []
  | rebuilt {io : Bundle.RebuildIO} : Answered moveHash m (.rebuild io) .rebuilt []

/-- Requests with their answers, and the log of what they changed in the map. -/
inductive Conforms (moveHash : List UInt16 → UInt64) : (ℕ → Option Game) →
    List (GameRequest × Answer) → List (Change ℕ Game) → (ℕ → Option Game) → Prop
  | nil (m : ℕ → Option Game) : Conforms moveHash m [] [] m
  | cons {m m' m'' : ℕ → Option Game} {request : GameRequest} {answer : Answer}
      {served : List (GameRequest × Answer)} {changes log : List (Change ℕ Game)} :
      Answered parsePgn rules moveHash m request answer changes →
      Logged UserAdded Follows m changes m' → Conforms moveHash m' served log m'' →
      Conforms moveHash m ((request, answer) :: served) (changes ++ log) m''

end Contract

section Isolation

variable {parsePgn : String → Option (List PgnGame)} {rules : Chess.Rules}
  {moveHash : List UInt16 → UInt64} {m m' : ℕ → Option Game} {served : List (GameRequest × Answer)} {log : List (Change ℕ Game)}

/-- The answer says that a patch of the id was accepted, or that its game was removed. -/
def Touches (id : ℕ) : Answer → Prop
  | .patched changed => changed.toNat = id
  | .deleted removed => removed.toNat = id
  | _ => False

def Removes (id : ℕ) : Answer → Prop
  | .deleted removed => removed.toNat = id
  | _ => False

def isCreated : Answer → Bool
  | .created _ => true
  | _ => false

def isDeleted : Answer → Bool
  | .deleted _ => true
  | _ => false

/-- SQLite can neither mark the game as the user's nor remove it again. -/
def GameRequest.leavesBehind : GameRequest → Bool
  | .create io _ => !io.setsProvenance && !io.removes
  | _ => false

/-- What requests do to the games that were stored before them. The last two fields count the games,
of which an addition may leave one behind that SQLite lets neither be marked nor be removed. -/
structure Isolated (m : ℕ → Option Game) (served : List (GameRequest × Answer)) (m' : ℕ → Option Game) :
    Prop where
  imported : ∀ id game, m id = some game → ¬UserAdded game → m' id = some game
  untouched : ∀ id game, m id = some game → (∀ exchange ∈ served, ¬Touches id exchange.2) →
    m' id = some game
  kept : ∀ id game, m id = some game → (∀ exchange ∈ served, ¬Removes id exchange.2) →
    ∃ later, m' id = some later ∧ Follows game later
  atLeast : (Logged.stored m).ncard + served.countP (fun exchange => isCreated exchange.2) ≤
    (Logged.stored m').ncard + served.countP fun exchange => isDeleted exchange.2
  atMost : (Logged.stored m').ncard + served.countP (fun exchange => isDeleted exchange.2) ≤
    (Logged.stored m).ncard + served.countP (fun exchange => isCreated exchange.2) +
      served.countP fun exchange => exchange.1.leavesBehind

namespace Conforms

theorem logged (h : Conforms parsePgn rules moveHash m served log m') : Logged UserAdded Follows m log m' := by
  induction h with
  | nil => exact .nil _
  | cons _ hlogged _ ih => exact hlogged.append ih

theorem told (h : Conforms parsePgn rules moveHash m served log m') {change : Change ℕ Game} (hmem : change ∈ log) :
    change.isAdded = true ∨ ∃ exchange ∈ served, Touches change.key exchange.2 ∧
      (change.isRemoved = true → Removes change.key exchange.2) := by
  induction h with
  | nil => cases hmem
  | cons hanswered _ _ ih =>
    rcases List.mem_append.mp hmem with hmem | hmem
    · cases hanswered with
      | refused _ | game _ _ _ | count | rebuilt => cases hmem
      | leftBehind _ _ _ _ | created _ _ _ =>
        obtain rfl := List.mem_singleton.mp hmem
        exact .inl rfl
      | patched _ _ _ =>
        obtain rfl := List.mem_singleton.mp hmem
        exact .inr ⟨_, List.mem_cons_self, rfl, fun hremoved => absurd hremoved Bool.false_ne_true⟩
      | deleted _ =>
        obtain rfl := List.mem_singleton.mp hmem
        exact .inr ⟨_, List.mem_cons_self, rfl, fun _ => rfl⟩
    · rcases ih hmem with hadded | ⟨exchange, hexchange, htold⟩
      · exact .inl hadded
      · exact .inr ⟨exchange, List.mem_cons_of_mem _ hexchange, htold⟩

private theorem countP_isAdded (h : Conforms parsePgn rules moveHash m served log m') :
    served.countP (fun exchange => isCreated exchange.2) ≤ log.countP Change.isAdded ∧
      log.countP Change.isAdded ≤ served.countP (fun exchange => isCreated exchange.2) +
        served.countP fun exchange => exchange.1.leavesBehind := by
  induction h with
  | nil => exact ⟨le_rfl, Nat.zero_le _⟩
  | @cons m _ _ request answer served changes log hanswered _ _ ih =>
    obtain ⟨hlow, hhigh⟩ := ih
    have hone : (if isCreated answer = true then 1 else 0) ≤ changes.countP Change.isAdded ∧
        changes.countP Change.isAdded ≤ (if isCreated answer = true then 1 else 0) +
          if request.leavesBehind = true then 1 else 0 := by
      cases hanswered with
      | refused _ | game _ _ _ | count | rebuilt => exact ⟨le_rfl, Nat.zero_le _⟩
      | created _ _ _ => exact ⟨le_rfl, Nat.le_add_right _ _⟩
      | patched _ _ _ | deleted _ => exact ⟨le_rfl, Nat.zero_le _⟩
      | leftBehind hsets hremoves _ _ =>
        rw [GameRequest.leavesBehind, hsets, hremoves]
        exact ⟨Nat.zero_le _, le_rfl⟩
    simp only [List.countP_append, List.countP_cons]
    omega

private theorem countP_isRemoved (h : Conforms parsePgn rules moveHash m served log m') :
    log.countP Change.isRemoved = served.countP fun exchange => isDeleted exchange.2 := by
  induction h with
  | nil => rfl
  | cons hanswered _ _ ih =>
    simp only [List.countP_append, List.countP_cons, ih]
    cases hanswered with
    | refused _ | leftBehind _ _ _ _ | game _ _ _ | count | rebuilt | created _ _ _ | patched _ _ _
      | deleted _ => simp [Change.isRemoved, isDeleted, Nat.add_comm]

theorem isolated (h : Conforms parsePgn rules moveHash m served log m') (hfinite : (Logged.stored m).Finite) :
    Isolated m served m' where
  imported _ _ hm hforeign := h.logged.eq_of_not_owned hm hforeign
  untouched id game hm hnot := by
    refine h.logged.eq_of_untouched hm fun change hchange => ?_
    rcases h.told hchange with hadded | ⟨exchange, hexchange, htouches, -⟩
    · exact .inl hadded
    · refine .inr fun hkey => hnot exchange hexchange ?_
      rwa [← hkey]
  kept id game hm hnot := by
    refine h.logged.follows_of_not_removed (fun _ => ⟨rfl, rfl⟩) ?_ hm fun hmem => ?_
    · exact fun _ _ _ h h' => ⟨h'.1.trans h.1, h'.2.trans h.2⟩
    · rcases h.told hmem with hadded | ⟨exchange, hexchange, -, hremoves⟩
      · cases hadded
      · exact hnot exchange hexchange (hremoves rfl)
  atLeast := by
    have hcount := h.logged.ncard_stored hfinite
    have hadded := h.countP_isAdded.1
    rw [h.countP_isRemoved] at hcount
    omega
  atMost := by
    have hcount := h.logged.ncard_stored hfinite
    have hadded := h.countP_isAdded.2
    rw [h.countP_isRemoved] at hcount
    omega

end Conforms

end Isolation

end MotifChess.Http
