/- GID: MotifChess/Http/GameServing
   generality: implementation
   digest: The locked sections of the requests on games refine the map of the stored games. -/

import MotifChess.Db.Bundle.Writes
import MotifChess.Db.Catalogue
import MotifChess.Db.PatchCollision
import MotifChess.Http.GameCatalogue

set_option autoImplicit false
set_option relaxedAutoImplicit false

namespace MotifChess.Http

open MotifChess.Db MotifChess.Import MotifChess.System

section Steps

variable {ix : Indexes} {parsePgn : String → Option (List PgnGame)} {rules : Chess.Rules}
  {moveHash : List UInt16 → UInt64} {b : Bundle ix} {t t' : Tables} {request : GameRequest}

/-- What one locked section does. -/
structure Step (parsePgn : String → Option (List PgnGame)) (rules : Chess.Rules)
    (moveHash : List UInt16 → UInt64) (t : Tables) (request : GameRequest) (t' : Tables) (answer : Answer) :
    Prop where
  answered : ∃ changes, Answered parsePgn rules moveHash t.catalogue request answer changes ∧
    Logged UserAdded Follows t.catalogue changes t'.catalogue
  reachable : t'.Reachable moveHash
  nextId_le : t'.nextId ≤ t.nextId + 1

theorem Step.refused {response : Response} (hreach : t.Reachable moveHash)
    (h : Refuses parsePgn rules moveHash t.catalogue request response) :
    Step parsePgn rules moveHash t request t (.refused response) :=
  ⟨⟨[], .refused h, .nil _⟩, hreach, Nat.le_succ _⟩

theorem Step.kept {answer : Answer} (hreach : t.Reachable moveHash)
    (h : Answered parsePgn rules moveHash t.catalogue request answer []) :
    Step parsePgn rules moveHash t request t answer :=
  ⟨⟨[], h, .nil _⟩, hreach, Nat.le_succ _⟩

private theorem nextId_le_update {id : ℕ} {game : Game} (hid : id ≤ t.nextId)
    (h : t'.catalogue = Function.update t.catalogue id (some game)) : t'.nextId ≤ t.nextId + 1 := by
  refine Tables.nextId_le (Nat.succ_pos _) fun other hother => ?_
  by_cases hsame : other = id
  · omega
  · rw [h, Function.update_of_ne hsame] at hother
    exact Nat.lt_succ_of_lt (Tables.lt_nextId hother)

private theorem nextId_le_remove {id : ℕ} (h : t'.catalogue = Function.update t.catalogue id none) :
    t'.nextId ≤ t.nextId := by
  refine Tables.nextId_le (Nat.succ_pos _) fun other hother => Tables.lt_nextId ?_
  by_cases hsame : other = id
  · subst hsame
    rw [h, Function.update_self] at hother
    exact absurd rfl hother
  · rwa [h, Function.update_of_ne hsame] at hother

private theorem undisturbed_of_broken {stale : Bundle.StaleIO} {works : Bool}
    (hopen : b.manager ≠ none) (h : Bundle.Broken stale works b) :
    ¬(stale.manifest.outcome = .published ∧ works = true) := by
  rintro ⟨houtcome, hworks⟩
  rcases h with hclosed | hunpublished | hfails
  · exact hopen hclosed
  · exact hunpublished houtcome
  · rw [hworks] at hfails
    cases hfails

section Patching

private theorem findGame_error {id : ℕ} {e : Db.ErrorCode} (h : t.findGame id = .error e) :
    e = .notFound ∧ t.catalogue id = none := by
  have hnone : ∀ row ∈ t.games, row.id ≠ id := by
    rintro row hrow rfl
    rw [Tables.findGame_of_mem hrow] at h
    cases h
  have hget := Tables.get_of_forall_ne hnone
  rw [Tables.get, h] at hget
  exact ⟨Except.error.inj hget, Tables.catalogue_eq_none.mpr hnone⟩

variable {patch : GamePatch} {id : ℕ} {e : Db.ErrorCode}

theorem patchMetadata_error (hreach : t.Reachable moveHash)
    (h : t.patchMetadata moveHash id patch = .error e) :
    (e = .notFound ∧ t.catalogue id = none) ∨
    (e = .notEditable ∧ ∃ game, t.catalogue id = some game ∧ ¬UserAdded game) ∨
    e = .ioFailure ∧ ∃ game, t.catalogue id = some game ∧ ∃ other, other ≠ id ∧
      ∃ found, t.catalogue other = some found ∧ ∃ n, GameRow.sameSlot moveHash (.ofGame found)
        ((StoredGame.ofGame game).updated
          ((patch.updates (patch.eventName game.read.eventDetails)).take n)) = true := by
  cases hfind : t.findGame id with
  | error e' =>
    obtain ⟨rfl, hnone⟩ := findGame_error hfind
    rw [Tables.patchMetadata, hfind] at h
    exact .inl ⟨(Except.error.inj h).symm, hnone⟩
  | ok row =>
    obtain ⟨hrow, rfl⟩ := Tables.findGame_eq_ok hfind
    by_cases hmanual : row.stored.provenance.read.sourceType = "manual"
    · rcases Tables.patchMetadata_cases patch hreach.indexHolds hrow hmanual with
        ⟨-, t', ht'⟩ | ⟨htaken, herror⟩
      · rw [h] at ht'
        cases ht'
      · refine .inr (.inr ⟨Except.error.inj (h.symm.trans herror), _, Tables.catalogue_of_mem hrow, ?_⟩)
        unfold Tables.NeverTaken Tables.IdentityFree at htaken
        push Not at htaken
        obtain ⟨-, n, other, hother, hne, hkey⟩ := htaken
        refine ⟨other.id, hne, _, Tables.catalogue_of_mem hother, n, ?_⟩
        rw [Tables.ofGame_gameOf, Tables.ofGame_gameOf]
        exact (GameRow.indexKey_eq_iff.mp hkey).1
    · refine .inr (.inl ⟨?_, _, Tables.catalogue_of_mem hrow, hmanual⟩)
      rw [Tables.patchMetadata, hfind, ok_bind, if_pos hmanual] at h
      exact (Except.error.inj h).symm

private theorem patchGameMetadata_attempted (io : Bundle.StaleIO) (works : Bool) (id : ℕ) (patch : GamePatch)
    (b : Bundle ix) : Bundle.Attempted (Bundle.Broken io works b ∨
        ∃ e, narrowElo patch.whiteElo = .error e ∨ narrowElo patch.blackElo = .error e)
      (Bundle.orUnchanged fun t => t.patchMetadata moveHash id patch)
      b.tables (b.patchGameMetadata moveHash io works id patch).1.tables
      (b.patchGameMetadata moveHash io works id patch).2 := by
  have hnarrow : ∀ {elo : Option Int32} {e : Db.ErrorCode}, narrowElo elo = .error e → e = .ioFailure := by
    intro elo e he
    unfold narrowElo at he
    split at he
    · cases he
    · split at he
      · exact (Except.error.inj he).symm
      · cases he
  unfold Bundle.patchGameMetadata
  split
  next hclosed => exact .inl ⟨.inl (.inl (Option.isNone_iff_eq_none.mp hclosed)), rfl, rfl⟩
  · cases hwhite : narrowElo patch.whiteElo with
    | error e => exact .inl ⟨.inr ⟨e, .inl rfl⟩, rfl, congrArg Except.error (hnarrow hwhite)⟩
    | ok white =>
      cases hblack : narrowElo patch.blackElo with
      | error e => exact .inl ⟨.inr ⟨e, .inr rfl⟩, rfl, congrArg Except.error (hnarrow hblack)⟩
      | ok black =>
        dsimp only
        split
        · exact (Bundle.mutate_attempted io works _ b).mono .inl
        · exact (Bundle.change_attempted works _ b).mono fun hfails => .inl (.inr (.inr hfails))

private theorem patchRefusal_malformed {refusal : Response} (h : patchRefusal patch = some refusal)
    (stale : Bundle.StaleIO) (works : Bool) (idText : String) : ∃ message,
      refusal = jsonError 400 message ∧
        Malformed parsePgn rules (.patch stale works idText (some patch)) message := by
  unfold patchRefusal at h
  split at h
  next hresult =>
    obtain ⟨result, hsome, hbad⟩ := (Option.any_eq_true _ _).mp hresult
    exact ⟨_, (Option.some.inj h).symm, .patchResult hsome (by simpa using hbad)⟩
  · split at h
    next hstatus =>
      obtain ⟨status, hsome, hbad⟩ := (Option.any_eq_true _ _).mp hstatus
      exact ⟨_, (Option.some.inj h).symm, .patchStatus hsome (by simpa using hbad)⟩
    · cases h

private theorem step_patch (hreach : b.tables.Reachable moveHash) (hopen : b.manager ≠ none)
    (stale : Bundle.StaleIO) (works : Bool) (idText : String) (body : Option GamePatch) :
    Step parsePgn rules moveHash b.tables (.patch stale works idText body)
      (patchGameSection moveHash stale works idText body b).1.tables
      (answer .patched (patchGameSection moveHash stale works idText body b).2) := by
  unfold patchGameSection
  cases hid : parseGameId idText with
  | none => exact .refused hreach (.malformed (.id rfl hid))
  | some id =>
    cases body with
    | none => exact .refused hreach (.malformed .noPatch)
    | some patch =>
      dsimp only
      cases hrefusal : patchRefusal patch with
      | some refusal =>
        obtain ⟨message, rfl, hmalformed⟩ := patchRefusal_malformed hrefusal stale works idText
        exact .refused hreach (.malformed hmalformed)
      | none =>
        have hattempted := @patchGameMetadata_attempted ix moveHash stale works id.toNat patch b
        dsimp only
        cases hpatch : b.patchGameMetadata moveHash stale works id.toNat patch with
        | mk b' r =>
          rw [hpatch] at hattempted
          cases r with
          | error e =>
            obtain ⟨hsame, hwhy⟩ := hattempted.error rfl
            dsimp only at hsame ⊢
            rw [hsame]
            refine .refused hreach ?_
            rcases hwhy with ⟨rfl, hbroken | ⟨e, helo⟩⟩ | herror
            · exact .failed (.inl (undisturbed_of_broken hopen hbroken))
            · exact .failed (.inr (.elo helo))
            · rcases patchMetadata_error hreach herror with
                ⟨rfl, hnone⟩ | ⟨rfl, game, hgame, hforeign⟩ |
                ⟨rfl, game, hgame, other, hne, found, hfound, n, hslot⟩
              · exact .missing hid hnone
              · exact .unpatchable hid hgame hforeign
              · exact .failed (.inr (.collides n hid hgame hne hfound hslot))
          | ok _ =>
            have hok := hattempted.ok rfl
            obtain ⟨old, hold, hmanual, new, hnew, hcatalogue⟩ :=
              Tables.catalogue_patchMetadata hreach.namesStored hok
            have hfollows : Follows old new := by
              have hmoves := congrArg StoredGame.moves hnew
              have hsource := congrArg (fun game => game.provenance.sourceType) hnew
              exact ⟨hmoves, hsource⟩
            refine ⟨⟨_, .patched hid hold hnew, ?_⟩, ?_, ?_⟩
            · dsimp only at hcatalogue ⊢
              rw [hcatalogue]
              exact .single ⟨old, hold, hmanual, hfollows⟩
            · exact hreach.tail (a := .patchMetadata id.toNat patch) trivial (by
                rw [StoreWrite.step, hok]
                rfl)
            · refine nextId_le_update (Tables.lt_nextId ?_).le hcatalogue
              rw [hold]
              exact Option.some_ne_none _

end Patching

section Deleting

/-- What the removal by a user writes. -/
def removeUserAdded (id : ℕ) (t : Tables) : Result Tables := do
  let row ← t.findGame id
  if row.stored.provenance.read.sourceType ≠ "manual" then .error .notEditable else t.remove id

private theorem removeUserGame_attempted (io : Bundle.StaleIO) (works : Bool) (id : ℕ) (b : Bundle ix) :
    Bundle.Attempted (Bundle.Broken io works b) (Bundle.orUnchanged (removeUserAdded id)) b.tables
      (b.removeUserGame io works id).1.tables (b.removeUserGame io works id).2 := by
  have hattempted := Bundle.mutate_attempted io works (Bundle.orUnchanged fun t => t.remove id) b
  unfold Bundle.removeUserGame Bundle.removeGame
  split
  next hclosed => exact .inl ⟨.inl (Option.isNone_iff_eq_none.mp hclosed), rfl, rfl⟩
  · unfold Bundle.Attempted Bundle.orUnchanged removeUserAdded at *
    cases hfind : b.tables.findGame id with
    | error e => exact .inr rfl
    | ok row =>
      dsimp only
      rw [ok_bind]
      split
      · exact .inr rfl
      · exact hattempted

private theorem removeUserAdded_error {id : ℕ} {e : Db.ErrorCode} (h : removeUserAdded id t = .error e) :
    (e = .notFound ∧ t.catalogue id = none) ∨
    e = .notEditable ∧ ∃ game, t.catalogue id = some game ∧ ¬UserAdded game := by
  unfold removeUserAdded at h
  cases hfind : t.findGame id with
  | error e' =>
    rw [hfind] at h
    obtain rfl := Except.error.inj h
    exact .inl (findGame_error hfind)
  | ok row =>
    obtain ⟨hrow, rfl⟩ := Tables.findGame_eq_ok hfind
    rw [hfind, ok_bind] at h
    split at h
    next hforeign =>
      exact .inr ⟨(Except.error.inj h).symm, _, Tables.catalogue_of_mem hrow, hforeign⟩
    next =>
      rw [Tables.remove, if_pos (List.any_eq_true.mpr ⟨row, hrow, decide_eq_true rfl⟩)] at h
      cases h

private theorem removeUserAdded_ok {id : ℕ} (h : removeUserAdded id t = .ok t') :
    (∃ game, t.catalogue id = some game ∧ UserAdded game) ∧ t.remove id = .ok t' := by
  obtain ⟨row, hfind, hremove⟩ := bind_eq_ok.mp h
  obtain ⟨hrow, rfl⟩ := Tables.findGame_eq_ok hfind
  split at hremove
  · cases hremove
  next hmanual => exact ⟨⟨_, Tables.catalogue_of_mem hrow, not_not.mp hmanual⟩, hremove⟩

private theorem step_delete (hreach : b.tables.Reachable moveHash) (hopen : b.manager ≠ none)
    (stale : Bundle.StaleIO) (works : Bool) (idText : String) : Step parsePgn rules moveHash b.tables (.delete stale works idText)
      (deleteGameSection stale works idText b).1.tables
      (answer .deleted (deleteGameSection stale works idText b).2) := by
  unfold deleteGameSection
  cases hid : parseGameId idText with
  | none => exact .refused hreach (.malformed (.id rfl hid))
  | some id =>
    have hattempted := removeUserGame_attempted stale works id.toNat b
    dsimp only
    cases hremove : b.removeUserGame stale works id.toNat with
    | mk b' r =>
      rw [hremove] at hattempted
      cases r with
      | error e =>
        obtain ⟨hsame, hwhy⟩ := hattempted.error rfl
        dsimp only at hsame ⊢
        rw [hsame]
        refine .refused hreach ?_
        rcases hwhy with ⟨rfl, hbroken⟩ | herror
        · exact .failed (.inl (undisturbed_of_broken hopen hbroken))
        · rcases removeUserAdded_error herror with ⟨rfl, hnone⟩ | ⟨rfl, game, hgame, hforeign⟩
          · exact .missing hid hnone
          · exact .undeletable hid hgame hforeign
      | ok _ =>
        obtain ⟨howned, hok⟩ := removeUserAdded_ok (hattempted.ok rfl)
        have hcatalogue := Tables.catalogue_remove hok
        refine ⟨⟨_, .deleted hid, ?_⟩, ?_, (nextId_le_remove hcatalogue).trans (Nat.le_succ _)⟩
        · dsimp only at hcatalogue ⊢
          rw [hcatalogue]
          exact .single howned
        · exact hreach.tail (a := .remove id.toNat) trivial (by
            rw [StoreWrite.step, hok]
            rfl)

end Deleting

section Reading

private theorem get_error {id : ℕ} {e : Db.ErrorCode} (h : t.get id = .error e) :
    e = .notFound ∧ t.catalogue id = none := by
  cases hfind : t.findGame id with
  | error e' =>
    obtain ⟨rfl, hnone⟩ := findGame_error hfind
    rw [Tables.get, hfind] at h
    exact ⟨(Except.error.inj h).symm, hnone⟩
  | ok row =>
    rw [Tables.get, hfind] at h
    cases h

private theorem catalogue_of_get {id : ℕ} {read : Game} (h : t.get id = .ok read) :
    ∃ game, t.catalogue id = some game ∧ game.read = read := by
  have hread : (t.catalogue id).map Game.read = some read := by
    rw [← Tables.toOption_get, h]
    rfl
  exact Option.map_eq_some_iff.mp hread

private theorem step_read (hreach : t.Reachable moveHash) (works : Bool) (idText : String) :
    Step parsePgn rules moveHash t (.read works idText) t
      (answer (fun found => .game found.1 found.2)
        (getGame (fun id => reading works (t.get id)) idText)) := by
  unfold getGame retrieveGame
  cases hid : parseGameId idText with
  | none => exact .refused hreach (.malformed (.id rfl hid))
  | some id =>
    cases works with
    | false => exact .refused hreach (.failed (.inl Bool.false_ne_true))
    | true =>
      dsimp only
      rw [reading, if_pos rfl]
      cases hget : t.get id.toNat with
      | error e =>
        obtain ⟨rfl, hnone⟩ := get_error hget
        exact .refused hreach (.missing hid hnone)
      | ok read =>
        obtain ⟨game, hgame, rfl⟩ := catalogue_of_get hget
        exact .kept hreach (.game trivial hid hgame)

private theorem step_readPatched (hreach : t.Reachable moveHash) (works : Bool) (id : UInt32) :
    Step parsePgn rules moveHash t (.readPatched works id) t
      (answer (fun found => .game found.1 found.2)
        (patchedGame (fun id => reading works (t.get id)) id)) := by
  unfold patchedGame
  dsimp only
  cases works with
  | false => exact .refused hreach (.failed (.inl Bool.false_ne_true))
  | true =>
    rw [reading, if_pos rfl]
    cases hget : t.get id.toNat with
    | error e => exact .refused hreach (.failed (.inr (.gone (get_error hget).2)))
    | ok read =>
      obtain ⟨game, hgame, rfl⟩ := catalogue_of_get hget
      have hreads : (GameRequest.readPatched true id).reads := trivial
      exact .kept hreach (.game hreads rfl hgame)

private theorem step_count (hreach : t.Reachable moveHash) (works : Bool) :
    Step parsePgn rules moveHash t (.count works) t
      (answer .count (getGameCount (reading works (.ok t.countGames)))) := by
  cases works with
  | false => exact .refused hreach (.failed (.inl Bool.false_ne_true))
  | true =>
    have hcount := @Answered.count parsePgn rules moveHash t.catalogue true
    rw [Tables.ncard_stored] at hcount
    exact .kept hreach hcount

private theorem step_rebuild (hreach : b.tables.Reachable moveHash) (io : Bundle.RebuildIO) :
    Step parsePgn rules moveHash b.tables (.rebuild io) (rebuildPositions io b).1.tables
      (answer (fun _ => .rebuilt) (rebuildPositions io b).2) := by
  have htables := Bundle.rebuildPositionPostings_tables io b
  unfold rebuildPositions
  cases hrebuild : b.rebuildPositionPostings io with
  | mk b' r =>
    rw [hrebuild] at htables
    cases r with
    | error e =>
      dsimp only at htables ⊢
      rw [htables]
      exact .refused hreach .unbuilt
    | ok _ =>
      dsimp only at htables ⊢
      rw [htables]
      exact .kept hreach .rebuilt

end Reading

section Adding

variable {body : CreateGameRequest} {pgn : PgnGame} {b' : Bundle ix}

private theorem readCreateRequest_error {body : Option CreateGameRequest} {refusal : Response} (io : CreateIO)
    (h : readCreateRequest parsePgn body = .error refusal) : ∃ message,
      refusal = jsonError 400 message ∧ Malformed parsePgn rules (.create io body) message := by
  unfold readCreateRequest at h
  split at h
  · exact ⟨_, (Except.error.inj h).symm, .noBody⟩
  · split at h
    next hpgn => exact ⟨_, (Except.error.inj h).symm, .noPgn hpgn⟩
    · split at h
      next hstatus => exact ⟨_, (Except.error.inj h).symm, .status (by simpa using hstatus)⟩
      · split at h
        next hparse => exact ⟨_, (Except.error.inj h).symm, .unreadable hparse⟩
        next hparse => exact ⟨_, (Except.error.inj h).symm, .noGame hparse⟩
        · cases h
        next hparse => exact ⟨_, (Except.error.inj h).symm, .manyGames hparse (by simp)⟩

private theorem readCreateRequest_ok {body : Option CreateGameRequest} {request : CreateGameRequest}
    {status : String} (h : readCreateRequest parsePgn body = .ok (request, status, pgn)) :
    body = some request ∧ status = request.reviewStatus.getD "new" ∧ status ∈ validReviewStatuses ∧
      parsePgn request.pgn = some [pgn] := by
  unfold readCreateRequest at h
  split at h
  · cases h
  · split at h
    · cases h
    · split at h
      · cases h
      next hvalid =>
        split at h
        · cases h
        · cases h
        next hparse =>
          obtain ⟨rfl, hrest⟩ := Prod.mk.inj (Except.ok.inj h)
          obtain ⟨rfl, rfl⟩ := Prod.mk.inj hrest
          refine ⟨rfl, rfl, ?_, hparse⟩
          simpa using hvalid
        · cases h

private theorem processGame_ok {stale : Bundle.StaleIO} {inserts : Bool} {id : ℕ}
    (h : processGame rules moveHash stale inserts pgn b = (b', .ok id)) :
    pgn.moves ≠ [] ∧ pgn.moves.length ≤ 65535 ∧ ∃ moves, applySans rules rules.start pgn.moves = some moves ∧
      b.insertGame moveHash stale inserts { extractGame pgn with moves } = (b', .ok id) := by
  unfold processGame at h
  split at h
  · cases (Prod.mk.inj h).2
  next hsome =>
    split at h
    · cases (Prod.mk.inj h).2
    next hfew =>
      split at h
      · cases (Prod.mk.inj h).2
      next moves hmoves =>
        refine ⟨hsome, Nat.not_lt.mp hfew, moves, hmoves, ?_⟩
        split at h
        next hinsert =>
          obtain ⟨rfl, hid⟩ := Prod.mk.inj h
          obtain rfl := Except.ok.inj hid
          exact hinsert
        · cases (Prod.mk.inj h).2
        · cases (Prod.mk.inj h).2

/-- Why a game of a request was not added. -/
inductive Unadded (rules : Chess.Rules) (stale : Bundle.StaleIO) (inserts : Bool) (pgn : PgnGame)
    (b : Bundle ix) : Import.ErrorCode → Prop
  | noMoves : pgn.moves = [] → Unadded rules stale inserts pgn b .emptyGame
  | illegal : applySans rules rules.start pgn.moves = none → Unadded rules stale inserts pgn b .parseError
  | stored {moves : List UInt16} : pgn.moves ≠ [] → pgn.moves.length ≤ 65535 →
      applySans rules rules.start pgn.moves = some moves →
      b.tables.Holds { extractGame pgn with moves } → Unadded rules stale inserts pgn b .duplicate
  | failed : 65535 < pgn.moves.length ∨ Bundle.Broken stale inserts b ∨
      ¬((extractGame pgn).extraTags.map Prod.fst).Nodup → Unadded rules stale inserts pgn b .ioFailure

private theorem processGame_error {stale : Bundle.StaleIO} {inserts : Bool} {e : Import.ErrorCode}
    (hreach : b.tables.Reachable moveHash)
    (h : processGame rules moveHash stale inserts pgn b = (b', .error e)) :
    b'.tables = b.tables ∧ Unadded rules stale inserts pgn b e := by
  unfold processGame at h
  split at h
  next hnone =>
    obtain ⟨rfl, herror⟩ := Prod.mk.inj h
    obtain rfl := Except.error.inj herror
    exact ⟨rfl, .noMoves hnone⟩
  next hsome =>
    split at h
    next hlong =>
      obtain ⟨rfl, herror⟩ := Prod.mk.inj h
      obtain rfl := Except.error.inj herror
      exact ⟨rfl, .failed (.inl hlong)⟩
    next hfew =>
      split at h
      next hillegal =>
        obtain ⟨rfl, herror⟩ := Prod.mk.inj h
        obtain rfl := Except.error.inj herror
        exact ⟨rfl, .illegal hillegal⟩
      next moves hmoves =>
        split at h
        · cases (Prod.mk.inj h).2
        next hinsert =>
          obtain ⟨rfl, herror⟩ := Prod.mk.inj h
          obtain rfl := Except.error.inj herror
          obtain ⟨hsame, ⟨-, hholds⟩ | ⟨hcode, -⟩⟩ := Bundle.insertGame_error hreach.indexHolds hinsert
          · exact ⟨hsame, .stored hsome (Nat.not_lt.mp hfew) hmoves hholds⟩
          · cases hcode
        next hnotStored hinsert =>
          obtain ⟨rfl, herror⟩ := Prod.mk.inj h
          obtain rfl := Except.error.inj herror
          obtain ⟨hsame, ⟨hcode, -⟩ | ⟨-, hwhy⟩⟩ := Bundle.insertGame_error hreach.indexHolds hinsert
          · exact (hnotStored hcode).elim
          · exact ⟨hsame, .failed (.inr hwhy)⟩

private theorem step_insert {game : Game} {id : ℕ} (hreach : t.Reachable moveHash)
    (h : t.insert moveHash game = (t', .ok id)) :
    t'.Reachable moveHash ∧ id = t.nextId ∧ t.catalogue id = none ∧
      (∀ other found, t.catalogue other = some found →
        (StoredGame.ofGame found).identity ≠ (StoredGame.ofGame game).identity) ∧
      ∃ added, StoredGame.ofGame added = StoredGame.ofGame game ∧
        t'.catalogue = Function.update t.catalogue id (some added) := by
  obtain ⟨hid, hnot, added, hadded, hcatalogue⟩ := Tables.catalogue_insert hreach.namesStored h
  refine ⟨hreach.tail (a := .insert game) trivial ?_, hid, ?_, ?_, added, hadded, hcatalogue⟩
  · rw [StoreWrite.step, h]
  · rw [hid]
    exact Tables.catalogue_nextId
  · intro other found hfound hsame
    exact hnot (Tables.holds_iff_catalogue.mpr ⟨other, found, hfound, hsame⟩)

private theorem setManualGameProvenance_cases {m : Manager ix} (hm : b.manager = some m) {id : ℕ} {game : Game}
    (hstored : b.tables.catalogue id = some game) (works : Bool) (label : Option String) (status : String) :
    (works = false ∧ b.setManualGameProvenance works id label status = (b, .error .ioFailure)) ∨
    ∃ t', b.tables.setManualProvenance id label status = .ok t' ∧
      b.setManualGameProvenance works id label status = (b.store t', .ok ()) := by
  obtain ⟨row, hrow, rfl, -⟩ := Tables.catalogue_eq_some.mp hstored
  have hset : ∃ t', b.tables.setManualProvenance row.id label status = .ok t' := by
    rw [Tables.setManualProvenance, Tables.findGame_of_mem hrow]
    exact ⟨_, rfl⟩
  obtain ⟨t', ht'⟩ := hset
  unfold Bundle.setManualGameProvenance
  rw [hm]
  cases works with
  | false => exact .inl ⟨rfl, rfl⟩
  | true =>
    refine .inr ⟨t', ht', ?_⟩
    simp only [Option.isNone_some, Bool.false_eq_true, if_false, Bundle.change, Bool.not_true,
      Bundle.orUnchanged, ht']

private theorem removeGame_cases {m : Manager ix} (hm : b.manager = some m)
    (hnone : ∀ kind, m.manifest.entry kind = none) {id : ℕ} {game : Game}
    (hstored : b.tables.catalogue id = some game) (io : Bundle.StaleIO) (works : Bool) :
    (works = false ∧ (b.removeGame io works id).1 = b) ∨
    ∃ t', b.tables.remove id = .ok t' ∧ (b.removeGame io works id).1 = b.store t' := by
  obtain ⟨row, hrow, rfl, -⟩ := Tables.catalogue_eq_some.mp hstored
  have hremove : ∃ t', b.tables.remove row.id = .ok t' := by
    rw [Tables.remove, if_pos (List.any_eq_true.mpr ⟨row, hrow, decide_eq_true rfl⟩)]
    exact ⟨_, rfl⟩
  obtain ⟨t', ht'⟩ := hremove
  unfold Bundle.removeGame Bundle.mutate
  rw [Bundle.prepareCanonicalMutation_of_none io hm hnone]
  cases works with
  | false => exact .inl ⟨rfl, rfl⟩
  | true =>
    refine .inr ⟨t', ht', ?_⟩
    simp only [Bundle.change, Bool.not_true, Bool.false_eq_true, if_false, Bundle.orUnchanged, ht']

private theorem step_create (hreach : b.tables.Reachable moveHash) (hopen : b.manager ≠ none)
    (hfit : b.tables.nextId < 2 ^ 32) (io : CreateIO) (body : Option CreateGameRequest) : Step parsePgn rules moveHash b.tables
      (.create io body) (createGame rules moveHash parsePgn io body b).1.tables
      (answer .created (createGame rules moveHash parsePgn io body b).2) := by
  unfold createGame
  cases hread : readCreateRequest parsePgn body with
  | error refusal =>
    obtain ⟨message, rfl, hmalformed⟩ := readCreateRequest_error io hread
    exact .refused hreach (.malformed hmalformed)
  | ok read =>
    obtain ⟨request, status, pgn⟩ := read
    obtain ⟨rfl, rfl, hstatus, hparse⟩ := readCreateRequest_ok hread
    dsimp only
    cases hprocess : processGame rules moveHash io.stale io.inserts pgn b with
    | mk b₁ r =>
      cases r with
      | error e =>
        obtain ⟨hsame, hwhy⟩ := processGame_error hreach hprocess
        dsimp only
        rw [hsame]
        refine .refused hreach ?_
        cases hwhy with
        | noMoves hnone => exact .malformed (.noMoves hparse hnone)
        | illegal hillegal => exact .malformed (.illegal hparse hillegal)
        | stored hsome hfew hmoves hstored =>
          obtain ⟨id, other, hother, hidentity⟩ := Tables.holds_iff_catalogue.mp hstored
          exact .duplicate ⟨hstatus, pgn, hparse, hsome, hfew, _, hmoves, rfl⟩ hother hidentity
        | failed hwhy =>
          rcases hwhy with hlong | hbroken | htags
          · exact .failed (.inr (.tooLong hparse hlong))
          · refine .failed (.inl ?_)
            rintro ⟨houtcome, hinserts, -⟩
            exact undisturbed_of_broken hopen hbroken ⟨houtcome, hinserts⟩
          · exact .failed (.inr (.repeatedTag hparse htags))
      | ok rowId =>
        obtain ⟨hsome, hfew, moves, hmoves, hinserted⟩ := processGame_ok hprocess
        obtain ⟨hinsert, m, hm, hnone⟩ := Bundle.insertGame_ok hinserted
        have hdescribes : Describes parsePgn rules request { extractGame pgn with moves } :=
          ⟨hstatus, pgn, hparse, hsome, hfew, moves, hmoves, rfl⟩
        obtain ⟨hreach₁, rfl, hfree, hnew, added, hadded, hcatalogue₁⟩ := step_insert hreach hinsert
        have hid : (UInt32.ofNat b.tables.nextId).toNat = b.tables.nextId := by
          rw [UInt32.toNat_ofNat', Nat.mod_eq_of_lt hfit]
        have hstored : b₁.tables.catalogue b.tables.nextId = some added := by
          rw [hcatalogue₁, Function.update_self]
        dsimp only
        rw [hid]
        rcases setManualGameProvenance_cases hm hstored io.setsProvenance request.sourceLabel
          (request.reviewStatus.getD "new") with ⟨hsets, hfailed⟩ | ⟨t₂, hset, hdone⟩
        · rw [hfailed]
          dsimp only
          rcases removeGame_cases hm hnone hstored io.staleAgain io.removes with
            ⟨hremoves, hleft⟩ | ⟨t₂, hremove, hgone⟩
          · rw [hleft]
            refine ⟨⟨[.added b.tables.nextId added], .leftBehind hsets hremoves hdescribes hadded, ?_⟩, hreach₁,
              nextId_le_update le_rfl hcatalogue₁⟩
            rw [hcatalogue₁]
            exact .single hfree
          · have hcatalogue₂ : t₂.catalogue = b.tables.catalogue := by
              rw [Tables.catalogue_remove hremove, hcatalogue₁, Function.update_idem, ← hfree,
                Function.update_eq_self]
            rw [hgone]
            have hdisturbed : ¬(GameRequest.create io (some request)).Undisturbed := by
              rintro ⟨-, -, hset⟩
              rw [hsets] at hset
              cases hset
            refine ⟨⟨[], .refused (.failed (.inl hdisturbed)), ?_⟩, ?_, ?_⟩
            · rw [Bundle.store, hcatalogue₂]
              exact .nil _
            · refine hreach₁.tail (a := .remove b.tables.nextId) trivial ?_
              rw [StoreWrite.step, hremove]
              rfl
            · exact (nextId_le_remove (Tables.catalogue_remove hremove)).trans
                (nextId_le_update le_rfl hcatalogue₁)
        · rw [hdone]
          obtain ⟨old, hold, manual, hmanual, hcatalogue₂⟩ :=
            Tables.catalogue_setManualProvenance hreach₁.namesStored hset
          obtain rfl := Option.some.inj (hold.symm.trans hstored)
          rw [hadded] at hmanual
          rw [hcatalogue₁, Function.update_idem] at hcatalogue₂
          refine ⟨⟨_, .created hdescribes hmanual ?_, ?_⟩, ?_, ?_⟩
          · intro other found hfound
            rw [hmanual]
            exact hnew other found hfound
          · rw [Bundle.store, hcatalogue₂, hid]
            exact .single hfree
          · refine hreach₁.tail (a := .setManualProvenance b.tables.nextId request.sourceLabel
              (request.reviewStatus.getD "new")) trivial ?_
            rw [StoreWrite.step, hset]
            rfl
          · exact nextId_le_update le_rfl hcatalogue₂

end Adding

private theorem step_serve (hreach : b.tables.Reachable moveHash) (hopen : b.manager ≠ none)
    (hfit : b.tables.nextId < 2 ^ 32) (request : GameRequest) :
    Step parsePgn rules moveHash b.tables request (serve parsePgn rules moveHash b request).1.tables
      (serve parsePgn rules moveHash b request).2 := by
  cases request with
  | create io body => exact step_create hreach hopen hfit io body
  | patch stale works idText body => exact step_patch hreach hopen stale works idText body
  | readPatched works id => exact step_readPatched hreach works id
  | delete stale works idText => exact step_delete hreach hopen stale works idText
  | read works idText => exact step_read hreach works idText
  | count works => exact step_count hreach works
  | rebuild io => exact step_rebuild hreach io

section Open

private theorem manager_isSome_patchGameMetadata (stale : Bundle.StaleIO) (works : Bool) (id : ℕ)
    (patch : GamePatch) (b : Bundle ix) :
    (b.patchGameMetadata moveHash stale works id patch).1.manager.isSome = b.manager.isSome := by
  unfold Bundle.patchGameMetadata
  split
  · rfl
  · cases narrowElo patch.whiteElo with
    | error e => rfl
    | ok white =>
      cases narrowElo patch.blackElo with
      | error e => rfl
      | ok black =>
        dsimp only
        split
        · exact Bundle.manager_isSome_mutate _ _ _ b
        · cases works <;> rfl

private theorem manager_isSome_removeUserGame (stale : Bundle.StaleIO) (works : Bool) (id : ℕ)
    (b : Bundle ix) : (b.removeUserGame stale works id).1.manager.isSome = b.manager.isSome := by
  unfold Bundle.removeUserGame
  split
  · rfl
  · cases b.tables.findGame id with
    | error e => rfl
    | ok row =>
      dsimp only
      split
      · rfl
      · exact Bundle.manager_isSome_mutate _ _ _ b

private theorem manager_isSome_processGame (stale : Bundle.StaleIO) (inserts : Bool) (pgn : PgnGame)
    (b : Bundle ix) : (processGame rules moveHash stale inserts pgn b).1.manager.isSome =
      b.manager.isSome := by
  unfold processGame
  split
  · rfl
  · split
    · rfl
    · cases applySans rules rules.start pgn.moves with
      | none => rfl
      | some moves =>
        have hinsert := Bundle.manager_isSome_mutate stale inserts
          (Tables.alone fun t => t.insert moveHash { extractGame pgn with moves }) b
        dsimp only
        unfold Bundle.insertGame
        cases hmutate : b.mutate stale inserts
            (Tables.alone fun t => t.insert moveHash { extractGame pgn with moves }) with
        | mk b' r =>
          rw [hmutate] at hinsert
          cases r with
          | ok id => exact hinsert
          | error e => cases e <;> exact hinsert

private theorem manager_isSome_createGame (io : CreateIO) (body : Option CreateGameRequest)
    (b : Bundle ix) : (createGame rules moveHash parsePgn io body b).1.manager.isSome =
      b.manager.isSome := by
  unfold createGame
  cases readCreateRequest parsePgn body with
  | error refusal => rfl
  | ok read =>
    obtain ⟨request, status, pgn⟩ := read
    have hprocess := @manager_isSome_processGame ix rules moveHash io.stale io.inserts pgn b
    dsimp only
    cases hprocessed : processGame rules moveHash io.stale io.inserts pgn b with
    | mk b₁ r =>
      rw [hprocessed] at hprocess
      cases r with
      | error e => exact hprocess
      | ok rowId =>
        have hset : (b₁.setManualGameProvenance io.setsProvenance (UInt32.ofNat rowId).toNat
            request.sourceLabel status).1.manager.isSome = b₁.manager.isSome := by
          unfold Bundle.setManualGameProvenance
          split
          · rfl
          · cases io.setsProvenance <;> rfl
        dsimp only
        cases hmarked : b₁.setManualGameProvenance io.setsProvenance (UInt32.ofNat rowId).toNat
            request.sourceLabel status with
        | mk b₂ marked =>
          rw [hmarked] at hset
          cases marked with
          | ok _ => exact hset.trans hprocess
          | error e =>
            exact (Bundle.manager_isSome_mutate _ _ _ b₂).trans (hset.trans hprocess)

private theorem manager_isSome_serve (request : GameRequest) (b : Bundle ix) :
    (serve parsePgn rules moveHash b request).1.manager.isSome = b.manager.isSome := by
  cases request with
  | create io body => exact manager_isSome_createGame io body b
  | patch stale works idText body =>
    change (patchGameSection moveHash stale works idText body b).1.manager.isSome = _
    unfold patchGameSection
    cases parseGameId idText with
    | none => rfl
    | some id =>
      cases body with
      | none => rfl
      | some patch =>
        dsimp only
        cases patchRefusal patch with
        | some refusal => rfl
        | none =>
          have hpatch := @manager_isSome_patchGameMetadata ix moveHash stale works id.toNat patch b
          dsimp only
          cases hpatched : b.patchGameMetadata moveHash stale works id.toNat patch with
          | mk b' r =>
            rw [hpatched] at hpatch
            cases r <;> exact hpatch
  | delete stale works idText =>
    change (deleteGameSection stale works idText b).1.manager.isSome = _
    unfold deleteGameSection
    cases parseGameId idText with
    | none => rfl
    | some id =>
      have hremove := manager_isSome_removeUserGame stale works id.toNat b
      dsimp only
      cases hremoved : b.removeUserGame stale works id.toNat with
      | mk b' r =>
        rw [hremoved] at hremove
        cases r <;> exact hremove
  | readPatched | read | count => rfl
  | rebuild io =>
    change (rebuildPositions io b).1.manager.isSome = _
    have hkept := Bundle.manager_isSome_rebuildPositionPostings io b
    unfold rebuildPositions
    cases hrebuilt : b.rebuildPositionPostings io with
    | mk b' r =>
      rw [hrebuilt] at hkept
      cases r <;> exact hkept

end Open

private theorem conforms_serveAll (requests : List GameRequest) (hreach : b.tables.Reachable moveHash)
    (hopen : b.manager ≠ none) (hfit : b.tables.nextId + requests.length ≤ 2 ^ 32) :
    ∃ log, Conforms parsePgn rules moveHash b.tables.catalogue
      (serveAll parsePgn rules moveHash b requests).2 log
      (serveAll parsePgn rules moveHash b requests).1.tables.catalogue := by
  induction requests generalizing b with
  | nil => exact ⟨[], .nil _⟩
  | cons request requests ih =>
    rw [List.length_cons] at hfit
    have hstep := @step_serve ix parsePgn rules moveHash b hreach hopen (by omega) request
    obtain ⟨changes, hanswered, hlogged⟩ := hstep.answered
    have hnext := hstep.nextId_le
    have hkept : (serve parsePgn rules moveHash b request).1.manager ≠ none := by
      rw [← Option.isSome_iff_ne_none, manager_isSome_serve, Option.isSome_iff_ne_none]
      exact hopen
    obtain ⟨log, hrest⟩ := ih hstep.reachable hkept (by omega)
    exact ⟨changes ++ log, .cons hanswered hlogged hrest⟩

end Steps

section Serving

variable {ix : Indexes} {parsePgn : String → Option (List PgnGame)} {rules : Chess.Rules}
  {moveHash : List UInt16 → UInt64} {b b' : Bundle ix} {requests : List GameRequest}
  {served : List (GameRequest × Answer)}

/-- In whatever order the locked sections of requests follow one another, and whatever fails in them,
the stored games are a map that changes as the answers say: games that are not the user's stay, a game
changes only where an answer names it, and as many are stored as were added and not removed. -/
theorem serveAll_catalogue (hreach : b.tables.Reachable moveHash) (hopen : b.manager ≠ none)
    (hfit : b.tables.nextId + requests.length ≤ 2 ^ 32)
    (hserved : serveAll parsePgn rules moveHash b requests = (b', served)) :
    (∃ log, Conforms parsePgn rules moveHash b.tables.catalogue served log b'.tables.catalogue) ∧
      Isolated b.tables.catalogue served b'.tables.catalogue := by
  obtain ⟨log, hconforms⟩ :=
    @conforms_serveAll ix parsePgn rules moveHash b requests hreach hopen hfit
  rw [hserved] at hconforms
  exact ⟨⟨log, hconforms⟩, hconforms.isolated Tables.finite_stored⟩

end Serving

section Sample

private def sampleRules : Chess.Rules :=
  { Chess.Rules.ofSums with applySan := fun board san => if san = "e4" then some (board, 1) else none }

private def parseLine (text : String) : Option (List PgnGame) :=
  if text = "e4" then some [⟨[("White", "A"), ("Black", "B")], ["e4"], .white⟩] else none

private def line : CreateGameRequest := { pgn := "e4" }

private def lineGame : Game where
  white := ⟨"A", none, none, none⟩
  black := ⟨"B", none, none, none⟩
  eventDetails := none
  date := none
  result := "1-0"
  eco := some "C20"
  moves := [1]
  provenance := ⟨"manual", none, "new"⟩

private def lineRequests : List GameRequest :=
  [.create {} (some line), .create {} (some line), .patch {} true "1" (some { eco := some "C20" }),
    .readPatched true 1, .count true, .delete {} true "01", .read true "1",
    .create { setsProvenance := false, removes := false } (some line), .delete {} true "1"]

private def emptyBundle : Bundle (.withoutTree sampleRules) :=
  let b : Bundle (.withoutTree sampleRules) := .created "sample" ""
  { b with manager := some { manifest := b.disk.manifest } }

/-- A game is added, not added twice, patched, read, counted and removed; then one is left behind. -/
theorem serveAll_catalogue_sample : ∃ b' served,
    serveAll parseLine sampleRules (fun _ => 0) emptyBundle lineRequests = (b', served) ∧
    served.map Prod.snd =
      [.created ⟨1, "manual", none, "new"⟩, .refused (jsonError 409 "duplicate game"), .patched 1,
        .game 1 lineGame, .count 1, .deleted 1, .refused (jsonError 404 "not_found"),
        .refused (jsonError 500 "game creation failed"),
        .refused (jsonError 409 "game is not user-added and cannot be deleted")] ∧
    (∃ log, Conforms parseLine sampleRules (fun _ => 0) emptyBundle.tables.catalogue served log
      b'.tables.catalogue) ∧
    Isolated emptyBundle.tables.catalogue served b'.tables.catalogue := by
  have hreach : emptyBundle.tables.Reachable (fun _ => 0) := .refl
  refine ⟨(serveAll parseLine sampleRules (fun _ => 0) emptyBundle lineRequests).1,
    (serveAll parseLine sampleRules (fun _ => 0) emptyBundle lineRequests).2, rfl, ?_, ?_⟩
  · decide +kernel
  · exact serveAll_catalogue hreach nofun (by decide) rfl

end Sample

end MotifChess.Http
