/- GID: MotifChess/Db/Store/RefinedPatches
   generality: implementation
   digest: A patch under ids does to the rows what the patch under names does to the tables. -/

import MotifChess.Db.Store.RefinedCalls

set_option autoImplicit false
set_option relaxedAutoImplicit false

namespace MotifChess.Db.Store

open MotifChess.System Stateful

variable {moveHash : List UInt16 → UInt64} {rows : Rows} {t : Tables} {s : CallState moveHash} {id : ℕ}

section Tracking

/-- Whether a game is in the tables. -/
def holds (id : ℕ) (t : Tables) : Bool := t.games.any fun row => row.id = id

/-- While a game is there, the call does to the rows what the write does to the tables. -/
def Tracks (id : ℕ) (x : Call moveHash Unit) (f : Tables → Result Tables) : Prop :=
  ∀ s t, s.Mirrors t → holds id t = true →
    (∃ s' t', x s = (.ok (), s') ∧ f t = .ok t' ∧ s'.Mirrors t' ∧ holds id t' = true) ∨
      ∃ s', x s = (.error .ioFailure, s') ∧ f t = .error .ioFailure ∧ s'.Works

variable {x y : Call moveHash Unit} {f g : Tables → Result Tables} {α : Type}

private theorem tracks_pure : Tracks id (return () : Call moveHash Unit) .ok :=
  fun s t h hholds => .inl ⟨s, t, rfl, rfl, h, hholds⟩

private theorem Tracks.bind (hx : Tracks id x f) (hy : Tracks id y g) :
    Tracks id (do x; y) fun t => f t >>= g := by
  intro s t h hholds
  dsimp only
  rcases hx s t h hholds with ⟨s', t', hrun, hf, h', hholds'⟩ | ⟨s', hrun, hf, hworks⟩
  · rw [run_bind_of_ok hrun, hf]
    exact hy s' t' h' hholds'
  · rw [run_bind_of_error hrun, hf]
    exact .inr ⟨s', rfl, rfl, hworks⟩

private theorem holds_changeGame {other : ℕ} (change : StoredGame → StoredGame) :
    holds id (t.changeGame other change) = holds id t := by
  rw [holds, Tables.changeGame, Tables.rewriteRows, List.any_map]
  rfl

private theorem holds_of_updateGame {change : StoredGame → StoredGame} {t' : Tables}
    (h : t.updateGame moveHash id change = .ok t') : holds id t' = holds id t := by
  rw [Tables.updateGame] at h
  split_ifs at h
  obtain rfl := Except.ok.inj h
  exact holds_changeGame change

private theorem updateGame_error {change : StoredGame → StoredGame} {e : ErrorCode}
    (h : t.updateGame moveHash id change = .error e) : e = .ioFailure := by
  rw [Tables.updateGame] at h
  split_ifs at h
  exact (Except.error.inj h).symm

private theorem tracks_updateGame {change : GameRow → GameRow} {stored : StoredGame → StoredGame}
    (hrenders : ∀ rows : Rows, rows.Consistent moveHash → Renders id change stored rows) :
    Tracks id (updateGame id change : Call moveHash Unit) fun t => t.updateGame moveHash id stored := by
  intro s t h hholds
  rcases h.updateGame (hrenders s.db.toRows s.db.consistent) with
    ⟨s', t', hrun, hupdated, h'⟩ | ⟨s', e, hrun, hupdated, h'⟩
  · exact .inl ⟨s', t', hrun, hupdated, h', (holds_of_updateGame hupdated).trans hholds⟩
  · obtain rfl := updateGame_error hupdated
    exact .inr ⟨s', hrun, hupdated, h'.works⟩

private theorem tracks_updateField {set : α → GameRow → GameRow} {stored : α → StoredGame → StoredGame}
    (value : Option α)
    (hrenders : ∀ a, ∀ rows : Rows, rows.Consistent moveHash → Renders id (set a) (stored a) rows) :
    Tracks id (updateField id value set : Call moveHash Unit) fun t =>
      t.updateField moveHash id value stored := by
  cases value with
  | none => exact tracks_pure
  | some a => exact tracks_updateGame (hrenders a)

/-- An update that refers to the row of a name, which is looked up first. -/
private theorem tracks_refer {kind : NameKind} (found : kind.Row) {set : ℕ → GameRow → GameRow}
    {stored : StoredGame → StoredGame} (hrenders : ∀ foundId, ∀ rows : Rows, rows.Consistent moveHash →
      rows.nameIn kind foundId = some (kind.nameOf found) → Renders id (set foundId) stored rows) :
    Tracks id (do let foundId ← findOrInsert kind found; updateGame id (set foundId) : Call moveHash Unit)
      fun t => (lookUp kind found t).updateGame moveHash id stored := by
  intro s t h hholds
  obtain ⟨foundId, s₁, hfound, hmirrors, hname, -⟩ := h.findOrInsert found
  have hsame : holds id (lookUp kind found t) = true := by
    rw [holds, lookUp_games]
    exact hholds
  rw [run_bind_of_ok hfound]
  rcases hmirrors.updateGame (hrenders foundId s₁.db.toRows s₁.db.consistent hname) with
    ⟨s', t', hrun, hupdated, h'⟩ | ⟨s', e, hrun, hupdated, h'⟩
  · exact .inl ⟨s', t', hrun, hupdated, h', (holds_of_updateGame hupdated).trans hsame⟩
  · obtain rfl := updateGame_error hupdated
    exact .inr ⟨s', hrun, hupdated, h'.works⟩

end Tracking

section Columns

/-- A change of columns that refer to nothing. -/
private theorem renders_columns {change : GameRow → GameRow} {stored : StoredGame → StoredGame}
    (hkeeps : ∀ row, (change row).id = row.id ∧ (change row).identityCollision = row.identityCollision ∧
      (change row).whiteId = row.whiteId ∧ (change row).blackId = row.blackId ∧
        (change row).eventId = row.eventId)
    (hshown : ∀ row, (rows.shown (change row)).stored = stored (rows.shown row).stored)
    (hrows : rows.Consistent moveHash) : Renders id change stored rows where
  keepsId row := (hkeeps row).1
  keepsCollision row := (hkeeps row).2.1
  refers row hrow _ := by
    obtain ⟨-, -, hwhite, hblack, hevent⟩ := hkeeps row
    have hrefers := hrows.refers hrow
    exact ⟨hwhite ▸ hrefers.white, hblack ▸ hrefers.black, hevent ▸ hrefers.event⟩
  shown row _ _ := hshown row

private theorem renders_white {name : String} {foundId : ℕ} (hrows : rows.Consistent moveHash)
    (hname : rows.nameIn .player foundId = some name) :
    Renders id (fun row => { row with whiteId := foundId }) (fun game => { game with white := name })
      rows where
  keepsId _ := rfl
  keepsCollision _ := rfl
  refers row hrow _ :=
    ⟨Rows.mem_ids_of_nameIn hname, (hrows.refers hrow).black, (hrows.refers hrow).event⟩
  shown row _ _ := by
    simp only [Rows.shown, hname, Option.getD_some]

private theorem renders_black {name : String} {foundId : ℕ} (hrows : rows.Consistent moveHash)
    (hname : rows.nameIn .player foundId = some name) :
    Renders id (fun row => { row with blackId := foundId }) (fun game => { game with black := name })
      rows where
  keepsId _ := rfl
  keepsCollision _ := rfl
  refers row hrow _ :=
    ⟨(hrows.refers hrow).white, Rows.mem_ids_of_nameIn hname, (hrows.refers hrow).event⟩
  shown row _ _ := by
    simp only [Rows.shown, hname, Option.getD_some]

private theorem renders_event {name : String} {foundId : ℕ} (hrows : rows.Consistent moveHash)
    (hname : rows.nameIn .event foundId = some name) :
    Renders id (fun row => { row with eventId := some foundId })
      (fun game => { game with event := some name }) rows where
  keepsId _ := rfl
  keepsCollision _ := rfl
  refers row hrow _ := by
    refine ⟨(hrows.refers hrow).white, (hrows.refers hrow).black, ?_⟩
    rintro _ ⟨⟩
    exact Rows.mem_ids_of_nameIn hname
  shown row _ _ := by
    simp only [Rows.shown, hname, Option.bind_some]

variable (patch : GamePatch) (current : Game)

private theorem tracks_side {setId : ℕ → GameRow → GameRow} {setElo : Int32 → GameRow → GameRow}
    {setName : String → StoredGame → StoredGame} {setRating : Int32 → StoredGame → StoredGame}
    (player : Player) (name : Option String) (elo : Option Int32)
    (hrating : ∀ elo, ∀ rows : Rows, rows.Consistent moveHash →
      Renders id (setElo elo) (setRating elo) rows)
    (hname : ∀ name foundId, ∀ rows : Rows, rows.Consistent moveHash →
      rows.nameIn .player foundId = some name → Renders id (setId foundId) (setName name) rows) :
    Tracks id (patchPlayer id setId setElo player name elo : Call moveHash Unit) fun t =>
      t.patchPlayer moveHash id setName setRating player name elo := by
  refine (tracks_updateField elo hrating).bind ?_
  cases name with
  | none => exact tracks_pure
  | some name =>
    exact @tracks_refer moveHash id .player { player with name } setId (setName name)
      fun foundId rows hrows hfound => hname name foundId rows hrows hfound

private theorem tracks_patchEvent : Tracks id
    (if patch.event.isSome || patch.site.isSome then
        patchEvent id current.eventDetails patch.event patch.site else return () : Call moveHash Unit)
    fun t => t.patchEvent moveHash id current.eventDetails patch.event patch.site := by
  intro s t h hholds
  unfold Tables.patchEvent
  dsimp only
  by_cases htouched : (patch.event.isSome || patch.site.isSome) = true
  · have hnot : ¬(patch.event.isNone && patch.site.isNone) = true := by
      revert htouched
      cases patch.event <;> cases patch.site <;> simp
    rw [if_pos htouched, if_neg hnot, patchEvent]
    by_cases hname : patch.event.getD (current.eventDetails.elim "" Event.name) = ""
    · rw [if_pos hname, if_pos hname]
      exact tracks_pure s t h hholds
    · rw [if_neg hname, if_neg hname]
      exact @tracks_refer moveHash id .event _ _ _ (fun foundId rows hrows hfound =>
        renders_event hrows hfound) s t h hholds
  · have hnone : (patch.event.isNone && patch.site.isNone) = true := by
      revert htouched
      cases patch.event <;> cases patch.site <;> simp
    rw [if_neg htouched, if_pos hnone]
    exact tracks_pure s t h hholds

/-- The part of a patch to the tables that goes with the part that needs the game as it is. -/
def patchNames (id : ℕ) (patch : GamePatch) (current : Game) (moveHash : List UInt16 → UInt64)
    (t : Tables) : Result Tables := do
  let t ← t.patchPlayer moveHash id (fun name game => { game with white := name })
    (fun elo game => { game with whiteElo := some elo }) current.white patch.whiteName patch.whiteElo
  let t ← t.patchPlayer moveHash id (fun name game => { game with black := name })
    (fun elo game => { game with blackElo := some elo }) current.black patch.blackName patch.blackElo
  t.patchEvent moveHash id current.eventDetails patch.event patch.site

private theorem tracks_patchJoined : Tracks id (patchJoined id patch current : Call moveHash Unit)
    (patchNames id patch current moveHash) := by
  refine (tracks_side current.white patch.whiteName patch.whiteElo ?_ ?_).bind
    ((tracks_side current.black patch.blackName patch.blackElo ?_ ?_).bind
      (tracks_patchEvent patch current))
  · exact fun elo rows => renders_columns (fun _ => ⟨rfl, rfl, rfl, rfl, rfl⟩) fun _ => rfl
  · exact fun name foundId rows => renders_white
  · exact fun elo rows => renders_columns (fun _ => ⟨rfl, rfl, rfl, rfl, rfl⟩) fun _ => rfl
  · exact fun name foundId rows => renders_black

private theorem tracks_patchScalars : Tracks id (patchScalars id patch : Call moveHash Unit) fun t =>
    t.patchScalars moveHash id patch := by
  have hrenders : ∀ {α : Type} {set : α → GameRow → GameRow} {stored : α → StoredGame → StoredGame}
      (value : Option α), (∀ a row, (set a row).id = row.id ∧
          (set a row).identityCollision = row.identityCollision ∧ (set a row).whiteId = row.whiteId ∧
            (set a row).blackId = row.blackId ∧ (set a row).eventId = row.eventId) →
        (∀ a (rows : Rows) row, (rows.shown (set a row)).stored = stored a (rows.shown row).stored) →
          Tracks id (updateField id value set : Call moveHash Unit) fun t =>
            t.updateField moveHash id value stored :=
    fun value hkeeps hshown => tracks_updateField value fun a rows =>
      renders_columns (hkeeps a) (hshown a rows)
  refine (hrenders patch.date ?_ ?_).bind ((hrenders patch.result ?_ ?_).bind
    ((hrenders patch.eco ?_ ?_).bind ((hrenders patch.sourceLabel ?_ ?_).bind
      (hrenders patch.reviewStatus ?_ ?_))))
  all_goals first
    | exact fun _ _ => ⟨rfl, rfl, rfl, rfl, rfl⟩
    | exact fun _ _ _ => rfl

end Columns

section Notes

private theorem refines_deleteGameTags (h : rows.Refines t) (hrows : rows.Consistent moveHash)
    (name : String) : (rows.deleteGameTags id name).Refines (t.changeGame id fun game =>
      { game with extraTags := game.extraTags.filter fun tag => tag.1 != name }) := by
  refine ⟨h.players, h.events, ?_, h.identityIndex⟩
  change t.games.map _ = rows.games.map _
  rw [h.games, List.map_map]
  refine List.map_congr_left fun row _ => ?_
  have htags := hrows.extraTagsOf_deleteGameTags id name row.id
  simp only [Function.comp_apply, Rows.shown, htags]
  by_cases hid : row.id = id
  · rw [if_pos hid, if_pos hid]
    rfl
  · rw [if_neg hid, if_neg hid]
    rfl

private theorem games_changeGame_changeGame (first second : StoredGame → StoredGame) :
    ((t.changeGame id first).changeGame id second).games =
      (t.changeGame id fun game => second (first game)).games := by
  change (t.games.map _).map _ = t.games.map _
  rw [List.map_map]
  refine List.map_congr_left fun row _ => ?_
  simp only [Function.comp_apply]
  split_ifs <;> rfl

private theorem tracks_patchNotes (notes : Option String) :
    Tracks id (patchNotes id notes : Call moveHash Unit) fun t => .ok (t.patchNotes id notes) := by
  intro s t h hholds
  cases notes with
  | none => exact tracks_pure s t h hholds
  | some notes =>
    obtain ⟨s₁, hdelete, h₁, hrows₁⟩ := h.exec_ok (fun rows => .ok (rows.deleteGameTags id "_notes")) rfl
      (s.db.consistent.deleteGameTags "_notes") (fun _ => List.prefix_rfl)
      (refines_deleteGameTags h.refines s.db.consistent "_notes")
    rw [patchNotes, run_bind_of_ok hdelete]
    refine .inl ?_
    by_cases hempty : notes = ""
    · rw [if_pos hempty]
      refine ⟨s₁, _, rfl, rfl, ⟨?_, h₁.cached, h₁.works⟩, (holds_changeGame _).trans hholds⟩
      refine h₁.refines.congr rfl rfl ?_ rfl
      simp only [Tables.patchNotes, Tables.replaceNotes, hempty, if_true]
    · rw [if_neg hempty, insertGameTags, findOrInsertTag]
      obtain ⟨tagId, s₂, hfound, h₂, hname, hadded⟩ :=
        @CallState.Mirrors.findOrInsert _ _ .tag s₁ h₁ "_notes"
      have hgame : id ∈ s₂.db.games.map GameRow.id := by
        obtain ⟨row, hrow, hid⟩ := List.any_eq_true.mp hholds
        rw [h.refines.games] at hrow
        obtain ⟨before, hbefore, rfl⟩ := List.mem_map.mp hrow
        rw [hadded.games, hrows₁]
        exact List.mem_map.mpr ⟨before, hbefore, of_decide_eq_true hid⟩
      have htags : s₂.db.extraTagsOf id = (s.db.extraTagsOf id).filter fun tag => tag.1 != "_notes" := by
        rw [s₁.db.consistent.extraTagsOf_grows hadded.grows hadded.gameTags, hrows₁,
          s.db.consistent.extraTagsOf_deleteGameTags, if_pos rfl]
      have hfree : NameKind.tag.nameOf "_notes" ∉ (s₂.db.extraTagsOf id).map Prod.fst := by
        rw [htags]
        rintro hmem
        obtain ⟨tag, htag, hsame⟩ := List.mem_map.mp hmem
        have hne := (List.mem_filter.mp htag).2
        rw [hsame] at hne
        exact absurd hne (by decide)
      obtain ⟨s₃, hinsert, h₃, -⟩ := h₂.exec_ok (fun rows => .ok (rows.insertGameTag ⟨id, tagId, notes⟩))
        rfl ((insertGameTag_consistent_iff s₂.db.consistent hgame notes hname).mpr hfree)
        (fun _ => List.prefix_rfl) (h₂.refines.insertGameTag hname)
      rw [run_bind_of_ok hfound, run_bind_of_ok hinsert]
      refine ⟨s₃, _, rfl, rfl, ⟨?_, h₃.cached, h₃.works⟩, (holds_changeGame _).trans hholds⟩
      refine h₃.refines.congr rfl rfl ?_ rfl
      simp only [Tables.patchNotes, Tables.replaceNotes, hempty, if_false]
      exact (games_changeGame_changeGame
        (fun game => { game with extraTags := game.extraTags.filter fun tag => tag.1 != "_notes" })
        fun game => { game with extraTags := game.extraTags ++ [("_notes", notes)] }).symm

end Notes

section Calls

variable (patch : GamePatch)

variable (moveHash) in
/-- A patch to the tables, once the game is read. -/
def patchTables (id : ℕ) (patch : GamePatch) (current : Game) (t : Tables) : Result Tables := do
  let t ← patchNames id patch current moveHash t
  let t ← t.patchScalars moveHash id patch
  return t.patchNotes id patch.notes

private theorem patchJoined_of_unneeded {patch : GamePatch} (h : ¬needsGame patch = true) (current : Game) :
    (patchJoined id patch current : Call moveHash Unit) = return () := by
  simp only [needsGame, Bool.or_eq_true, not_or, Bool.not_eq_true, Option.isSome_eq_false_iff,
    Option.isNone_iff_eq_none] at h
  obtain ⟨⟨⟨⟨⟨hwhite, hwhiteElo⟩, hblack⟩, hblackElo⟩, hevent⟩, hsite⟩ := h
  simp only [patchJoined, patchPlayer, updateField, hwhite, hwhiteElo, hblack, hblackElo, hevent, hsite,
    pure_bind]
  rfl

private theorem run_patchBody {current : Game} (hget : s.db.get id = .ok current) :
    patchBody id patch s =
      (do patchJoined id patch current; patchScalars id patch; patchNotes id patch.notes :
        Call moveHash Unit) s := by
  unfold patchBody
  by_cases hneeds : needsGame patch
  · rw [if_pos hneeds, run_read_bind, hget]
  · rw [if_neg hneeds, patchJoined_of_unneeded hneeds current]
    rfl

/-- A patch of a game that is there writes what the patch of the tables writes, or fails as it does. -/
private theorem tracks_patchBody (h : s.Mirrors t) {current : Game} (hholds : holds id t = true)
    (hget : s.db.get id = .ok current) :
    (∃ s' t', patchBody id patch s = (.ok (), s') ∧ patchTables moveHash id patch current t = .ok t' ∧
        s'.Mirrors t') ∨
      ∃ s', patchBody id patch s = (.error .ioFailure, s') ∧
        patchTables moveHash id patch current t = .error .ioFailure ∧ s'.Works := by
  have htracks := ((tracks_patchJoined patch current).bind
    ((@tracks_patchScalars moveHash id patch).bind (tracks_patchNotes patch.notes))) s t h hholds
  rw [run_patchBody patch hget]
  rcases htracks with ⟨s', t', hrun, hpatched, hend, -⟩ | hfailed
  · exact .inl ⟨s', t', hrun, hpatched, hend⟩
  · exact .inr hfailed

private theorem patchMetadata_eq {row : Db.GameRow} {current : Game} (hfound : t.findGame id = .ok row)
    (hmanual : row.stored.provenance.read.sourceType = "manual") (hget : t.get id = .ok current) :
    t.patchMetadata moveHash id patch = patchTables moveHash id patch current t := by
  rw [Tables.patchMetadata, hfound]
  change (if row.stored.provenance.read.sourceType ≠ "manual" then _ else t.get id >>= _) = _
  rw [if_neg (not_not.mpr hmanual), hget, patchTables, patchNames]
  simp only [bind_assoc]
  rfl

/-- The patch of a game. One that fails in its middle inside a batch leaves what it wrote. -/
theorem CallState.Mirrors.patchMetadata (h : s.Mirrors t) {joined : Bool} :
    (∃ s' t', patchMetadata joined id patch s = (.ok (), s') ∧
        t.patchMetadata moveHash id patch = .ok t' ∧ s'.Mirrors t') ∨
      ∃ s' e, Store.patchMetadata joined id patch s = (.error e, s') ∧
        t.patchMetadata moveHash id patch = .error e ∧
        ((joined = true → e ≠ .ioFailure) → s'.Mirrors t) := by
  rw [Store.patchMetadata, run_read_bind]
  have hfind := @Rows.Refines.findGame_eq s.db.toRows t id h.refines
  cases hfound : s.db.findGame id with
  | none =>
    rw [hfound] at hfind
    refine .inr ⟨s, .notFound, rfl, ?_, fun _ => h⟩
    rw [Tables.patchMetadata, hfind]
    rfl
  | some row =>
    rw [hfound] at hfind
    dsimp only at hfind ⊢
    by_cases hmanual : row.provenance.read.sourceType = "manual"
    · obtain rfl : row.id = id := by simpa using List.find?_some hfound
      have hrow : row ∈ s.db.games := List.mem_of_find?_eq_some hfound
      obtain ⟨current, record, hget, -, -⟩ := s.db.consistent.get_of_mem hrow
      have hholds : holds row.id t = true := by
        rw [holds, h.refines.mem_ids]
        exact List.any_eq_true.mpr ⟨row, hrow, decide_eq_true rfl⟩
      have htables := (h.refines.get_eq s.db.consistent).symm.trans hget
      rw [if_neg (not_not.mpr hmanual), patchMetadata_eq patch hfind hmanual htables]
      unfold Store.guarded
      cases joined with
      | true =>
        rw [if_pos rfl]
        rcases tracks_patchBody patch h hholds hget with
          ⟨s', t', hrun, hpatched, hend⟩ | ⟨s', hrun, hpatched, hworks⟩
        · rw [hrun]
          exact .inl ⟨s', t', rfl, hpatched, hend⟩
        · rw [hrun]
          exact .inr ⟨_, _, rfl, hpatched, fun hne => absurd rfl (hne rfl)⟩
      | false =>
        rw [if_neg Bool.false_ne_true, if_neg (by simp [h.works.nextWorks]), h.works.passed_eq]
        rcases tracks_patchBody patch h hholds hget with
          ⟨s', t', hrun, hpatched, hend⟩ | ⟨s', hrun, hpatched, hworks⟩
        · rw [hrun]
          dsimp only
          rw [if_pos hend.works.nextWorks, hend.works.passed_eq]
          exact .inl ⟨s', t', rfl, hpatched, hend⟩
        · rw [hrun]
          exact .inr ⟨_, _, rfl, hpatched, fun _ => ⟨h.refines, Rows.cached_empty, hworks⟩⟩
    · rw [if_pos hmanual]
      refine .inr ⟨s, .notEditable, rfl, ?_, fun _ => h⟩
      rw [Tables.patchMetadata, hfind]
      exact if_pos hmanual

end Calls

end MotifChess.Db.Store
