/- GID: MotifChess/Db/Store/RefinedRuns
   generality: implementation
   digest: In every run the rows under ids say what writes to tables under names leave. -/

import MotifChess.Db.PatchCollision
import MotifChess.Db.Store.RefinedPatches
import MotifChess.Db.Store.RoundTrip

set_option autoImplicit false
set_option relaxedAutoImplicit false

namespace MotifChess.Db.Store

open MotifChess.System Stateful

variable {moveHash : List UInt16 → UInt64}

section Steadiness

variable {α : Type} {id : ℕ} {patch : GamePatch}

/-- The state of a call for which SQLite carries out every statement. -/
def CallState.unfailing (s : CallState moveHash) : CallState moveHash := { s with works := [] }

/-- A statement that SQLite fails ends the call, so other calls go as if it failed none. -/
abbrev SqliteSteady (x : Call moveHash α) : Prop := Steady CallState.unfailing .ioFailure x

/-- A statement that SQLite carries out, if the rows allow it. -/
private def carriedOut (change : Rows → Result Rows) : Call moveHash Unit := fun s =>
  match change s.db.toRows with
  | .error e => (.error e, s.passed)
  | .ok rows =>
    if h : rows.Consistent moveHash then (.ok (), { s.passed with db := ⟨rows, h⟩ })
    else (.error .ioFailure, s.passed)

private theorem exec_of_works {change : Rows → Result Rows} {s : CallState moveHash}
    (hworks : s.nextWorks = true) : exec change s = carriedOut change s := by
  unfold exec
  rw [if_neg (by simp [hworks])]
  rfl

private theorem steady_exec (change : Rows → Result Rows) :
    SqliteSteady (exec change : Call moveHash Unit) := by
  intro s hs
  by_cases hworks : s.nextWorks = true
  · rw [exec_of_works hworks] at hs ⊢
    rw [exec_of_works rfl]
    unfold carriedOut at hs ⊢
    change (match change s.db.toRows with
      | .error e => (.error e, s.unfailing.passed)
      | .ok rows =>
        if h : rows.Consistent moveHash then (.ok (), { s.unfailing.passed with db := ⟨rows, h⟩ })
        else (.error .ioFailure, s.unfailing.passed) : Result Unit × CallState moveHash) = _
    cases hchange : change s.db.toRows with
    | error e => rfl
    | ok rows =>
      rw [hchange] at hs
      dsimp only at hs ⊢
      split_ifs at hs ⊢
      · rfl
      · exact absurd rfl hs
  · unfold exec at hs
    rw [if_pos (by simpa using hworks)] at hs
    exact absurd rfl hs

private theorem steady_read {g : CallState moveHash → α} (h : ∀ s : CallState moveHash, g s.unfailing = g s) :
    SqliteSteady (Stateful.read g : Call moveHash α) := .read h

private theorem steady_findOrInsert (kind : NameKind) (row : kind.Row) :
    SqliteSteady (findOrInsert kind row : Call moveHash ℕ) := by
  have hremember : ∀ id, SqliteSteady (do remember kind (kind.nameOf row) id; return id :
      Call moveHash ℕ) := by
    intro id
    have hmodify : SqliteSteady (remember kind (kind.nameOf row) id : Call moveHash Unit) :=
      .modify fun _ => rfl
    exact hmodify.bind fun _ => .pure id
  refine (steady_read fun _ => rfl).bind fun cached => ?_
  cases cached with
  | some id => exact .pure id
  | none =>
    refine (steady_read fun _ => rfl).bind fun found => ?_
    cases found with
    | some id => exact hremember id
    | none => exact (steady_read fun _ => rfl).bind fun id => (steady_exec _).bind fun _ => hremember id

private theorem steady_insertGameTags (gameId : ℕ) (tags : List (String × String)) :
    SqliteSteady (insertGameTags gameId tags : Call moveHash Unit) := by
  induction tags with
  | nil => exact .pure ()
  | cons tag tags ih =>
    exact (steady_findOrInsert .tag tag.1).bind fun _ => (steady_exec _).bind fun _ => ih

private theorem steady_insertBody (raw : Bool) (game : Game) :
    SqliteSteady (insertBody raw game : Call moveHash ℕ) := by
  have hevent : SqliteSteady (eventIdOf game.eventDetails : Call moveHash (Option ℕ)) := by
    cases game.eventDetails with
    | none => exact .pure none
    | some event => exact (steady_findOrInsert .event event).bind fun _ => .pure _
  have hgame : SqliteSteady (insertGame raw game : Call moveHash ℕ) :=
    (steady_findOrInsert .player _).bind fun _ => (steady_findOrInsert .player _).bind fun _ =>
      hevent.bind fun _ => (steady_read fun _ => rfl).bind fun _ => (steady_exec _).bind fun _ => .pure _
  exact hgame.bind fun _ => (steady_insertGameTags _ _).bind fun _ => .pure _

private theorem steady_updateField (value : Option α) (set : α → GameRow → GameRow) :
    SqliteSteady (updateField id value set : Call moveHash Unit) := by
  cases value with
  | none => exact .pure ()
  | some value => exact steady_exec _

private theorem steady_patchPlayer (setId : ℕ → GameRow → GameRow) (setElo : Int32 → GameRow → GameRow)
    (current : Player) (name : Option String) (elo : Option Int32) :
    SqliteSteady (patchPlayer id setId setElo current name elo : Call moveHash Unit) := by
  refine (steady_updateField elo setElo).bind fun _ => ?_
  cases name with
  | none => exact .pure ()
  | some name => exact (steady_findOrInsert .player _).bind fun _ => steady_exec _

private theorem steady_patchJoined (current : Game) :
    SqliteSteady (patchJoined id patch current : Call moveHash Unit) := by
  refine (steady_patchPlayer _ _ _ _ _).bind fun _ => (steady_patchPlayer _ _ _ _ _).bind fun _ => ?_
  split
  · unfold patchEvent
    dsimp only
    split
    · exact .pure ()
    · exact (steady_findOrInsert .event _).bind fun _ => steady_exec _
  · exact .pure ()

private theorem steady_patchNotes (notes : Option String) :
    SqliteSteady (patchNotes id notes : Call moveHash Unit) := by
  cases notes with
  | none => exact .pure ()
  | some notes =>
    refine (steady_exec _).bind fun _ => ?_
    split_ifs
    · exact .pure ()
    · exact steady_insertGameTags _ _

private theorem steady_patchBody : SqliteSteady (patchBody id patch : Call moveHash Unit) := by
  have hscalars : SqliteSteady (patchScalars id patch : Call moveHash Unit) :=
    (steady_updateField _ _).bind fun _ => (steady_updateField _ _).bind fun _ =>
      (steady_updateField _ _).bind fun _ => (steady_updateField _ _).bind fun _ =>
        steady_updateField _ _
  have hrest : SqliteSteady (do patchScalars id patch; patchNotes id patch.notes :
      Call moveHash Unit) := hscalars.bind fun _ => steady_patchNotes _
  unfold patchBody
  split_ifs
  · refine (steady_read fun _ => rfl).bind fun found => ?_
    cases found with
    | error e => exact (Steady.fail e).bind fun _ => hrest
    | ok current => exact (steady_patchJoined current).bind fun _ => hrest
  · exact hrest

private theorem steady_guarded_joined {body : Call moveHash α} (h : SqliteSteady body) :
    SqliteSteady (guarded true body) := by
  intro s hs
  have hbody := h s
  unfold guarded at hs ⊢
  simp only [if_true] at hs ⊢
  cases hrun : body s with
  | mk r s' =>
    rw [hrun] at hs hbody
    cases r with
    | ok a => rw [hbody hs]
    | error e =>
      rw [hbody hs]
      rfl

/-- What the end of a transaction of its own makes of what the body left. -/
private def closing (start : CallState moveHash) :
    Result α × CallState moveHash → Result α × CallState moveHash
  | (.error e, s) => (.error e, { s with db := start.db, caches := .empty })
  | (.ok a, s) =>
    if s.nextWorks then (.ok a, s.passed)
    else (.error .ioFailure, { s.passed with db := start.db, caches := .empty })

private theorem guarded_alone_of_works {body : Call moveHash α} {s : CallState moveHash}
    (hworks : s.nextWorks = true) : guarded false body s = closing s (body s.passed) := by
  unfold guarded
  rw [if_neg Bool.false_ne_true, if_neg (by simp [hworks])]
  rfl

private theorem steady_guarded_alone {body : Call moveHash α} (h : SqliteSteady body) :
    SqliteSteady (guarded false body) := by
  intro s hs
  by_cases hworks : s.nextWorks = true
  · rw [guarded_alone_of_works hworks] at hs ⊢
    have hpassed : s.unfailing.passed = s.passed.unfailing := rfl
    have hbody := h s.passed
    rw [guarded_alone_of_works rfl, hpassed]
    cases hrun : body s.passed with
    | mk r s' =>
      rw [hrun] at hs hbody
      cases r with
      | error e =>
        rw [hbody hs]
        rfl
      | ok a =>
        have hcommit : s'.unfailing.nextWorks = true := rfl
        rw [hbody (fun hfailed => by cases hfailed), closing, if_pos hcommit]
        rw [closing] at hs ⊢
        split_ifs at hs ⊢
        · rfl
        · exact absurd rfl hs
  · unfold guarded at hs
    rw [if_neg Bool.false_ne_true, if_pos (by simpa using hworks)] at hs
    exact absurd rfl hs

private theorem steady_guarded {joined : Bool} {body : Call moveHash α} (h : SqliteSteady body) :
    SqliteSteady (guarded joined body) := by
  cases joined with
  | true => exact steady_guarded_joined h
  | false => exact steady_guarded_alone h

private theorem steady_patchMetadata {joined : Bool} :
    SqliteSteady (patchMetadata joined id patch : Call moveHash Unit) := by
  refine (steady_read fun _ => rfl).bind fun found => ?_
  cases found with
  | none => exact .fail _
  | some row =>
    dsimp only
    split_ifs
    · exact .fail _
    · exact steady_guarded steady_patchBody

end Steadiness

section Backing

variable {rows rows' : Rows} {t t' : Tables} {s : CallState moveHash}

/-- Tables that a run of writes reaches say what the rows say. -/
def Rows.Backed (moveHash : List UInt16 → UInt64) (rows : Rows) : Prop :=
  ∃ t : Tables, t.Reachable moveHash ∧ rows.Refines t

private theorem Tables.Reachable.write (h : t.Reachable moveHash) (write : StoreWrite)
    (hstep : write.step moveHash t = some t') : t'.Reachable moveHash := h.tail trivial hstep

private theorem backed_empty : (Database.empty moveHash).Backed moveHash :=
  ⟨.empty, .refl, rfl, rfl, rfl, rfl⟩

private theorem reachable_guardedWrite (h : t.Reachable moveHash) (joined raw : Bool) (game : Game) :
    (guardedWrite joined (inserted moveHash raw game) t).1.Reachable moveHash := by
  have hwritten : (inserted moveHash raw game t).1.Reachable moveHash := by
    cases raw with
    | true => exact Tables.Reachable.write h (.insertRaw game) rfl
    | false => exact Tables.Reachable.write h (.insert game) rfl
  cases joined with
  | true => exact hwritten
  | false =>
    change (Tables.alone (inserted moveHash raw game) t).1.Reachable moveHash
    unfold Tables.alone
    split
    next hinserted =>
      rw [hinserted] at hwritten
      exact hwritten
    next => exact h

/-- Calls that SQLite fails nothing of decide what the others leave. -/
private theorem backed_of_steady {α : Type} {x : Call moveHash α} (h : s.db.Backed moveHash)
    (hcached : s.db.Cached s.caches) (hx : SqliteSteady x)
    (hmirrored : ∀ t, s.unfailing.Mirrors t → t.Reachable moveHash →
      (x s.unfailing).1 = (x s).1 → (x s.unfailing).2.db.Backed moveHash)
    (hio : (x s).1 = .error .ioFailure → s.works = [] ∨ (x s).2.db = s.db) :
    (x s).2.db.Backed moveHash := by
  obtain ⟨t, hreachable, hrefines⟩ := h
  have hmirrors : s.unfailing.Mirrors t := ⟨hrefines, hcached, rfl⟩
  by_cases hfailed : (x s).1 = .error .ioFailure
  · rcases hio hfailed with hworks | hsame
    · have hself : s.unfailing = s := by
        rw [CallState.unfailing, ← hworks]
      rw [hself] at hmirrors hmirrored
      exact hmirrored t hmirrors hreachable rfl
    · rw [hsame]
      exact ⟨t, hreachable, hrefines⟩
  · have hrun := hx s hfailed
    have hbacked := hmirrored t hmirrors hreachable (by rw [hrun])
    rw [hrun] at hbacked
    exact hbacked

theorem Rows.Backed.insert (h : s.db.Backed moveHash) (hcached : s.db.Cached s.caches)
    {joined raw : Bool} {game : Game} (hid : s.db.nextGameId < 4294967296)
    (hrisk : joined = true → insertRisk game s.works = true →
      (guarded joined (insertBody raw game) s).1 ≠ .error .ioFailure) :
    (guarded joined (insertBody raw game) s).2.db.Backed moveHash := by
  refine backed_of_steady h hcached (steady_guarded (steady_insertBody raw game)) ?_ ?_
  · intro t hmirrors hreachable _
    obtain ⟨s', hrun, hend⟩ := @CallState.Mirrors.insert moveHash t s.unfailing joined hmirrors raw game hid
    rw [hrun]
    exact ⟨_, reachable_guardedWrite hreachable joined raw game, hend.refines⟩
  · intro hfailed
    cases joined with
    | true =>
      have hsafe : ¬insertRisk game s.works = true := fun hrisky => hrisk rfl hrisky hfailed
      rw [insertRisk, Bool.or_eq_true, not_or] at hsafe
      exact .inl (by simpa using hsafe.1)
    | false => exact .inr (guarded_alone_failed (Prod.ext hfailed rfl)).1

theorem Rows.Backed.patch (h : s.db.Backed moveHash) (hcached : s.db.Cached s.caches)
    {joined : Bool} {id : ℕ} {patch : GamePatch}
    (hrisk : joined = true → patchRisk moveHash id patch s.db.toRows s.works = true →
      (patchMetadata joined id patch s).1 ≠ .error .ioFailure) :
    (patchMetadata joined id patch s).2.db.Backed moveHash := by
  have hjoined : joined = true → (patchMetadata joined id patch s).1 ≠ .error .ioFailure := by
    intro hjoined hfailed
    have hsafe : ¬patchRisk moveHash id patch s.db.toRows s.works = true := fun hrisky =>
      hrisk hjoined hrisky hfailed
    exact (patchMetadata_of_safe hcached hjoined (Prod.ext hfailed rfl) hsafe).2 rfl
  refine backed_of_steady h hcached steady_patchMetadata ?_ ?_
  · intro t hmirrors hreachable hsame
    rcases @CallState.Mirrors.patchMetadata moveHash t s.unfailing id patch hmirrors joined with
      ⟨s', t', hrun, hpatched, hend⟩ | ⟨s', e, hrun, -, hend⟩
    · rw [hrun]
      exact ⟨t', Tables.Reachable.write hreachable (.patchMetadata id patch) (by
        rw [StoreWrite.step, hpatched]
        rfl), hend.refines⟩
    · rw [hrun] at hsame ⊢
      refine ⟨t, hreachable, (hend fun hj he => hjoined hj ?_).refines⟩
      rw [← hsame, he]
  · intro hfailed
    cases joined with
    | true => exact absurd hfailed (hjoined rfl)
    | false =>
      rcases patchMetadata_error (Prod.ext hfailed rfl) with ⟨-, hne⟩ | ⟨-, hguarded⟩
      · exact absurd rfl hne
      · exact .inr (guarded_alone_failed hguarded).1

/-- A call of one statement leaves the rows as they are when SQLite fails it. -/
private theorem backed_exec (h : s.db.Backed moveHash) (hcached : s.db.Cached s.caches)
    {change : Rows → Result Rows} (hmirrored : ∀ t, s.unfailing.Mirrors t → t.Reachable moveHash →
      (exec change s.unfailing).2.db.Backed moveHash) : (exec change s).2.db.Backed moveHash := by
  refine backed_of_steady h hcached (steady_exec change) (fun t hm hr _ => hmirrored t hm hr) fun hfailed => ?_
  have hspec := @exec_spec moveHash (fun s' => s' = s) change
  obtain ⟨before, rfl, hdb, -⟩ := hspec.of_error rfl (Prod.ext hfailed rfl)
  exact .inr hdb

private theorem Mirrored.backed {run : Result Unit × CallState moveHash} {result : Result Tables}
    (h : Mirrored run t result) (hreachable : t.Reachable moveHash) (write : StoreWrite)
    (hwrite : write.step moveHash t = result.toOption) : run.2.db.Backed moveHash := by
  rcases h with ⟨s', t', rfl, rfl, hend⟩ | ⟨s', e, rfl, -, hend⟩
  · exact ⟨t', Tables.Reachable.write hreachable write hwrite, hend.refines⟩
  · exact ⟨t, hreachable, hend.refines⟩

theorem Rows.Backed.setManualProvenance (h : s.db.Backed moveHash) (hcached : s.db.Cached s.caches)
    {id : ℕ} {sourceLabel : Option String} {reviewStatus : String} :
    (setManualProvenance id sourceLabel reviewStatus s).2.db.Backed moveHash :=
  backed_exec h hcached fun _ hmirrors hreachable =>
    (hmirrors.setManualProvenance sourceLabel reviewStatus).backed hreachable
      (.setManualProvenance id sourceLabel reviewStatus) rfl

theorem Rows.Backed.remove (h : s.db.Backed moveHash) (hcached : s.db.Cached s.caches) {id : ℕ} :
    (remove id s).2.db.Backed moveHash :=
  backed_exec h hcached fun _ hmirrors hreachable =>
    hmirrors.remove.backed hreachable (.remove id) rfl

theorem Rows.Backed.dropIdentityIndex (h : s.db.Backed moveHash) (hcached : s.db.Cached s.caches) :
    (dropIdentityIndex s).2.db.Backed moveHash := by
  refine backed_exec h hcached fun t hmirrors hreachable => ?_
  obtain ⟨s', hrun, hend⟩ := hmirrors.dropIdentityIndex
  rw [Store.dropIdentityIndex] at hrun
  rw [hrun]
  exact ⟨_, Tables.Reachable.write hreachable .dropIdentityIndex rfl, hend.refines⟩

private theorem reachable_keepRows (h : t.Reachable moveHash) (ids : List ℕ) :
    ∃ t' : Tables, t'.Reachable moveHash ∧ t'.players = t.players ∧ t'.events = t.events ∧
      t'.games = t.games.filter (fun row => row.id ∉ ids) ∧ t'.identityIndex = t.identityIndex := by
  induction ids generalizing t with
  | nil =>
    refine ⟨t, h, rfl, rfl, ?_, rfl⟩
    exact (List.filter_eq_self.mpr fun row _ => decide_eq_true List.not_mem_nil).symm
  | cons id ids ih =>
    have hsplit : ∀ l : List Db.GameRow, l.filter (fun row => row.id ∉ id :: ids) =
        (l.filter fun row => row.id != id).filter fun row => row.id ∉ ids := by
      intro l
      rw [List.filter_filter]
      refine List.filter_congr fun row _ => ?_
      rw [Bool.eq_iff_iff]
      simp [and_comm]
    rw [hsplit]
    by_cases hid : (t.games.any fun row => row.id = id) = true
    · have hremoved : (StoreWrite.remove id).step moveHash t = some (t.keepRows fun row => row.id != id) := by
        rw [StoreWrite.step, Tables.remove, if_pos hid]
        rfl
      exact ih (Tables.Reachable.write h (.remove id) hremoved)
    · have hnone : (t.games.filter fun row => row.id != id) = t.games := by
        refine List.filter_eq_self.mpr fun row hrow => bne_iff_ne.mpr fun hsame => hid ?_
        exact List.any_eq_true.mpr ⟨row, hrow, decide_eq_true hsame⟩
      rw [hnone]
      exact ih h

/-- Rows that are kept by any choice are backed by the removal of the others. -/
private theorem backed_of_keepRows (h : t.Reachable moveHash) {keep : Db.GameRow → Bool}
    (hrefines : rows.Refines (t.keepRows keep)) : rows.Backed moveHash := by
  obtain ⟨t', hreachable, hplayers, hevents, hgames, hindex⟩ := reachable_keepRows h
    ((t.games.filter fun row => !keep row).map Db.GameRow.id)
  refine ⟨t', hreachable, hrefines.congr hplayers hevents (hgames.trans ?_) hindex⟩
  refine List.filter_congr fun row hrow => ?_
  rw [Bool.eq_iff_iff, decide_eq_true_iff]
  constructor
  · intro hnot
    by_contra hdropped
    exact hnot (List.mem_map_of_mem (List.mem_filter.mpr ⟨hrow, by simpa using hdropped⟩))
  · rintro hkept hmem
    obtain ⟨other, hother, hid⟩ := List.mem_map.mp hmem
    obtain ⟨hother, hdropped⟩ := List.mem_filter.mp hother
    obtain rfl := Tables.eq_of_id_eq hother hrow hid
    rw [hkept] at hdropped
    exact absurd hdropped Bool.false_ne_true

/-- The rows that a deduplication may leave, which depends on the statement that SQLite fails. -/
private theorem deduplicateBody_ends (start : Database moveHash) : Ensures (fun s => s.db = start)
    (deduplicateBody : Call moveHash ℕ)
    (fun _ s => s.db.toRows =
      { dedupReassign moveHash (dedupDelete moveHash start.toRows) with identityIndex := true })
    (fun s => s.db = start ∨ s.db.toRows = dedupDelete moveHash start.toRows ∨
      s.db.toRows = dedupReassign moveHash (dedupDelete moveHash start.toRows)) := by
  refine Ensures.read_bind fun before => exec_bind ?_ ?_
  · rintro s s' ⟨rfl, -⟩ hdb
    exact .inl hdb
  refine Ensures.read_bind fun after => exec_bind ?_ (exec_bind ?_ (Ensures.pure ?_))
  · rintro s s' ⟨⟨before, ⟨rfl, -⟩, hdelete, -⟩, -⟩ hdb
    exact .inr (.inl (hdb ▸ (Except.ok.inj hdelete).symm))
  · rintro s s' ⟨between, ⟨⟨before, ⟨rfl, -⟩, hdelete, -⟩, -⟩, hreassign, -⟩ hdb
    rw [hdb, ← Except.ok.inj hreassign, ← Except.ok.inj hdelete]
    exact .inr (.inr rfl)
  · rintro s ⟨last, ⟨between, ⟨⟨before, ⟨rfl, -⟩, hdelete, -⟩, -⟩, hreassign, -⟩, hindex, -⟩
    rw [← Except.ok.inj hindex, ← Except.ok.inj hreassign, ← Except.ok.inj hdelete]

private theorem backed_dedupReassign (h : t.Reachable moveHash)
    (hrefines : rows.Refines (t.reconcile moveHash)) : rows.Backed moveHash ∧
      Rows.Backed moveHash { rows with identityIndex := true } := by
  have hdeduplicated : ({ t.reconcile moveHash with identityIndex := true } : Tables).Reachable moveHash := by
    refine Tables.Reachable.write h .deduplicate ?_
    rw [StoreWrite.step, Tables.deduplicate_eq]
    rfl
  have hindexed : Rows.Backed moveHash { rows with identityIndex := true } :=
    ⟨_, hdeduplicated, hrefines.players, hrefines.events, hrefines.games, rfl⟩
  refine ⟨?_, hindexed⟩
  cases hindex : rows.identityIndex with
  | true =>
    exact ⟨_, hdeduplicated, hrefines.players, hrefines.events, hrefines.games, hindex.symm⟩
  | false =>
    exact ⟨_, Tables.Reachable.write hdeduplicated .dropIdentityIndex rfl, hrefines.players,
      hrefines.events, hrefines.games, hindex.symm⟩

/-- A deduplication that is cut short leaves what other writes could have left. -/
theorem Rows.Backed.deduplicate (h : s.db.Backed moveHash) {joined : Bool} :
    (deduplicate joined s).2.db.Backed moveHash := by
  obtain ⟨t, hreachable, hrefines⟩ := h
  have hdelete : (dedupDelete moveHash s.db.toRows).Consistent moveHash :=
    consistent_keepGames s.db.consistent
  have hdeleted := refines_dedupDelete hrefines s.db.consistent
  obtain ⟨hreassigned, hindexed⟩ :=
    backed_dedupReassign hreachable (refines_dedupReassign hdeleted hdelete)
  have hends : (guarded joined deduplicateBody s).2.db.Backed moveHash := by
    refine @guarded_db moveHash s ℕ deduplicateBody joined (fun db => db.Backed moveHash)
      ⟨t, hreachable, hrefines⟩ ((deduplicateBody_ends s.db).mono (fun _ h => h.1) ?_ ?_)
    · intro _ s' hrows
      rw [hrows]
      exact hindexed
    · rintro s' (hsame | hrows | hrows)
      · rw [hsame]
        exact ⟨t, hreachable, hrefines⟩
      · rw [hrows]
        exact backed_of_keepRows hreachable hdeleted
      · rw [hrows]
        exact hreassigned
  exact hends

end Backing

section Runs

variable {l l' : Ledger moveHash} {writer : WriterName}

/-- Writes to tables back the rows, and the rows that a rollback of the open batch would restore. -/
structure Ledger.Backed (l : Ledger moveHash) : Prop where
  rows : l.spoiled = false → l.db.Backed moveHash
  saved : ∀ batch ∈ l.batch, batch.2.Backed moveHash

namespace Ledger.Backed

/-- Without an open batch there is nothing that a rollback restores. -/
private theorem closed (h : l.spoiled = false → l.db.Backed moveHash) (hclosed : l.batch = none) :
    l.Backed := by
  refine ⟨h, fun batch hopen => ?_⟩
  rw [hclosed] at hopen
  cases hopen

private theorem new : (.new : Ledger moveHash).Backed := closed (fun _ => backed_empty) rfl

private theorem cleared (h : l.Backed) (writer : WriterName) :
    Backed { l with toSession := l.toSession.clearInsertCaches writer } := by
  cases writer <;> exact ⟨h.rows, h.saved⟩

private theorem called {s : Session moveHash} {risk : Bool} (h : l.Backed) (hbatch : s.batch = l.batch)
    (undoes : Bool) (hrows : (l.spoiled || (l.joined && risk)) = false → s.db.Backed moveHash) :
    (l.called risk (s.undone undoes)).Backed := by
  have hjoined : s.joined = l.joined := congrArg Option.isSome hbatch
  unfold Ledger.called Session.undone
  cases hdb : s.rolledBack undoes with
  | none =>
    dsimp only
    rw [if_neg (by simp [hjoined])]
    exact ⟨hrows, fun batch hopen => h.saved batch (hbatch ▸ hopen)⟩
  | some db =>
    obtain ⟨-, owner, hopen⟩ := Session.rolledBack_eq_some.mp hdb
    have hlost : (l.joined && !({ s with db, batch := none } : Session moveHash).joined) = true := by
      rw [← hjoined]
      simp [Session.joined, hopen]
    dsimp only
    rw [if_pos hlost]
    exact closed (fun _ => h.saved (owner, db) (hbatch ▸ hopen)) rfl

private theorem failed_risk {risk : Bool} {e : ErrorCode}
    (hspoiled : (l.spoiled || (l.joined && (risk && e = .ioFailure))) = false) :
    l.spoiled = false ∧ (l.joined = true → risk = true → e ≠ .ioFailure) := by
  obtain ⟨hbefore, hnow⟩ := Bool.or_eq_false_iff.mp hspoiled
  refine ⟨hbefore, fun hjoined hrisk he => ?_⟩
  rw [hjoined, hrisk, he] at hnow
  cases hnow

private theorem inserted (h : l.Backed) (hkept : Kept l) {game : Game} (raw : Bool) {sqlite : Statements}
    (hid : l.db.nextGameId < 4294967296) : (l.inserted game sqlite
      (l.callWriter writer (guarded l.joined (insertBody raw game)) sqlite)).Backed := by
  have hinsert := fun hbefore => @Rows.Backed.insert moveHash ⟨l.db, l.writers writer, sqlite.works⟩
    (h.rows hbefore) (hkept.writers writer) l.joined raw game hid
  unfold Session.callWriter
  cases hcall : guarded l.joined (insertBody raw game) ⟨l.db, l.writers writer, sqlite.works⟩ with
  | mk r c =>
    rw [hcall] at hinsert
    cases r with
    | ok id => exact ⟨fun hbefore => hinsert hbefore nofun, h.saved⟩
    | error e =>
      dsimp only [Ledger.inserted, Ledger.failed]
      rw [ended_error]
      refine h.called (by rfl) _ fun hspoiled => ?_
      obtain ⟨hbefore, hrisk⟩ := failed_risk hspoiled
      exact hinsert hbefore fun hjoined hrisky he => hrisk hjoined hrisky (Except.error.inj he)

private theorem patched (h : l.Backed) (hkept : Kept l) {id : ℕ} {patch : GamePatch} {sqlite : Statements} :
    (l.patched id patch sqlite (l.callStore (patchMetadata l.joined id patch) sqlite)).Backed := by
  have hpatch := fun hbefore => @Rows.Backed.patch moveHash ⟨l.db, l.store, sqlite.works⟩
    (h.rows hbefore) hkept.store l.joined id patch
  unfold Session.callStore
  cases hcall : patchMetadata l.joined id patch ⟨l.db, l.store, sqlite.works⟩ with
  | mk r c =>
    rw [hcall] at hpatch
    cases r with
    | ok _ => exact ⟨fun hbefore => hpatch hbefore nofun, h.saved⟩
    | error e =>
      dsimp only [Ledger.patched, Ledger.failed]
      rw [ended_error]
      refine h.called (by rfl) _ fun hspoiled => ?_
      obtain ⟨hbefore, hrisk⟩ := failed_risk hspoiled
      exact hpatch hbefore fun hjoined hrisky he => hrisk hjoined hrisky (Except.error.inj he)

/-- A call of a writer that backed rows survive. -/
private theorem calledWriter (h : l.Backed) {α : Type} {call : Call moveHash α} {sqlite : Statements}
    (hcall : l.db.Backed moveHash → (call ⟨l.db, l.writers writer, sqlite.works⟩).2.db.Backed moveHash) :
    (l.called false (l.callWriter writer call sqlite).2).Backed := by
  unfold Session.callWriter
  cases hrun : call ⟨l.db, l.writers writer, sqlite.works⟩ with
  | mk r c =>
    rw [hrun] at hcall
    let s : Session moveHash :=
      { l.toSession with db := c.db, writers := Function.update l.writers writer c.caches }
    obtain ⟨io, hended⟩ := @ended_eq moveHash α s sqlite r
    change (l.called false (s.ended sqlite r)).Backed
    rw [hended]
    refine @Ledger.Backed.called moveHash l s false h rfl _ fun hspoiled => hcall (h.rows ?_)
    exact (Bool.or_eq_false_iff.mp hspoiled).1

private theorem calledStore (h : l.Backed) {α : Type} {call : Call moveHash α} {sqlite : Statements}
    (hcall : l.db.Backed moveHash → (call ⟨l.db, l.store, sqlite.works⟩).2.db.Backed moveHash) :
    (l.called false (l.callStore call sqlite).2).Backed := by
  unfold Session.callStore
  cases hrun : call ⟨l.db, l.store, sqlite.works⟩ with
  | mk r c =>
    rw [hrun] at hcall
    let s : Session moveHash := { l.toSession with db := c.db, store := c.caches }
    obtain ⟨io, hended⟩ := @ended_eq moveHash α s sqlite r
    change (l.called false (s.ended sqlite r)).Backed
    rw [hended]
    refine @Ledger.Backed.called moveHash l s false h rfl _ fun hspoiled => hcall (h.rows ?_)
    exact (Bool.or_eq_false_iff.mp hspoiled).1

end Ledger.Backed

/-- Every sound call keeps the rows backed. -/
theorem Ledger.Backed.step (h : l.Backed) (hkept : Kept l) {command : Command}
    (hsound : l.Sound command) (hstep : l.step command = some l') : l'.Backed := by
  cases command with
  | «begin» writer works =>
    simp only [Ledger.step, Session.beginTransaction] at hstep
    split_ifs at hstep with hrefused
    · exact Option.some.inj hstep ▸ h
    · have hspoiled : l.spoiled = false := Bool.eq_false_iff.mpr fun hspoiled => hrefused (by
        rw [hkept.joined hspoiled, Bool.true_or])
      rw [← Option.some.inj hstep]
      refine ⟨h.rows, ?_⟩
      rintro _ ⟨⟩
      exact h.rows hspoiled
  | commit writer works undoes =>
    obtain ⟨-, hstep⟩ := Option.ite_none_right_eq_some.mp hstep
    rw [← Option.some.inj hstep]
    cases works with
    | true => exact closed (fun _ => h.rows (hsound.1 rfl)) rfl
    | false => exact h.called rfl undoes fun hspoiled => h.rows (Bool.or_eq_false_iff.mp hspoiled).1
  | rollback writer works =>
    obtain ⟨-, hstep⟩ := Option.ite_none_right_eq_some.mp hstep
    cases hrolled : l.rolledBack works with
    | none =>
      rw [hrolled] at hstep
      exact Option.some.inj hstep ▸ h.cleared writer
    | some saved =>
      rw [hrolled] at hstep
      obtain ⟨-, owner, hopen⟩ := Session.rolledBack_eq_some.mp hrolled
      have hsaved := h.saved (owner, saved) hopen
      rw [← Option.some.inj hstep]
      cases writer <;> exact closed (fun _ => hsaved) rfl
  | insert writer game sqlite =>
    obtain ⟨-, hstep⟩ := Option.ite_none_right_eq_some.mp hstep
    exact Option.some.inj hstep ▸ h.inserted hkept false hsound.1
  | insertRaw writer game sqlite =>
    obtain ⟨-, hstep⟩ := Option.ite_none_right_eq_some.mp hstep
    exact Option.some.inj hstep ▸ h.inserted hkept true hsound.1
  | patch id patch sqlite => exact Option.some.inj hstep ▸ h.patched hkept
  | setManualProvenance id sourceLabel reviewStatus sqlite =>
    exact Option.some.inj hstep ▸ h.calledStore fun hrows => hrows.setManualProvenance hkept.store
  | remove id sqlite =>
    exact Option.some.inj hstep ▸ h.calledStore fun hrows => hrows.remove hkept.store
  | deduplicate writer sqlite =>
    obtain ⟨-, hstep⟩ := Option.ite_none_right_eq_some.mp hstep
    exact Option.some.inj hstep ▸ h.calledWriter fun hrows => hrows.deduplicate
  | dropIdentityIndex writer sqlite =>
    obtain ⟨-, hstep⟩ := Option.ite_none_right_eq_some.mp hstep
    exact Option.some.inj hstep ▸ h.calledWriter fun hrows =>
      hrows.dropIdentityIndex (hkept.writers writer)
  | clearInsertCaches writer => exact Option.some.inj hstep ▸ h.cleared writer

/-- After every run of sound calls the rows under ids say what tables under names say that a run of
writes reaches, and every game reads alike from both. -/
theorem refines_of_reaches (h : Reaches Ledger.step Ledger.Sound .new l) (hspoiled : l.spoiled = false) :
    ∃ t : Tables, t.Reachable moveHash ∧ l.db.Refines t ∧ ∀ id, l.db.get id = t.get id := by
  have hinv : Kept l ∧ l.Backed := by
    refine h.invariant (P := fun l => Kept l ∧ l.Backed) ⟨kept_new, .new⟩ ?_
    intro before command after hbefore hsound hstep
    exact ⟨hbefore.1.step hsound hstep, hbefore.2.step hbefore.1 hsound hstep⟩
  obtain ⟨t, hreachable, hrefines⟩ := hinv.2.rows hspoiled
  exact ⟨t, hreachable, hrefines, fun _ => hrefines.get_eq l.db.consistent⟩

private def drawn (white black : String) : Game where
  white := ⟨white, none, none, none⟩
  black := ⟨black, none, none, none⟩
  eventDetails := none
  date := none
  result := "1/2-1/2"
  eco := none
  moves := [796]
  extraTags := []
  provenance := { sourceType := "manual" }

/-- A batch that is rolled back with the ids of two players, one that keeps a patch which names one of
them again, and a deduplication whose second statement SQLite fails. -/
theorem refines_after_rollback : ∃ l : Ledger fun _ => 0, ∃ t : Tables, t.Reachable (fun _ => 0) ∧
    l.db.Refines t ∧ (∀ id, l.db.get id = t.get id) ∧ l.db.games.map GameRow.id = [1] ∧
    (l.db.get 1).toOption.map (fun game => game.white.name) = some "Botvinnik" := by
  have hrun : ((run Ledger.step Ledger.Sound (.new : Ledger fun _ => 0) [
      .begin .embedded true,
      .insert .embedded (drawn "Botvinnik" "Smyslov") {},
      .rollback .embedded true,
      .begin .embedded true,
      .insert .embedded (drawn "Tal" "Petrosian") {},
      .patch 1 { whiteName := some "Botvinnik" } {},
      .commit .embedded true false,
      .dropIdentityIndex .embedded {},
      .insertRaw .embedded (drawn "Botvinnik" "Petrosian") {},
      .remove 2 {},
      .deduplicate .embedded { works := [true, true, false] }]).map fun l =>
        (l.spoiled, l.db.games.map GameRow.id,
          (l.db.get 1).toOption.map fun game => game.white.name)) =
        some (false, [1], some "Botvinnik") := by decide +kernel
  obtain ⟨l, hl, hgames⟩ := Option.map_eq_some_iff.mp hrun
  obtain ⟨hspoiled, hgames⟩ := Prod.mk.inj hgames
  obtain ⟨hids, hwhite⟩ := Prod.mk.inj hgames
  obtain ⟨t, hreachable, hrefines, hget⟩ := refines_of_reaches (reaches_of_run hl) hspoiled
  exact ⟨l, t, hreachable, hrefines, hget, hids, hwhite⟩

end Runs

end MotifChess.Db.Store
