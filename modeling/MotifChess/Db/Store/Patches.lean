/- GID: MotifChess/Db/Store/Patches
   generality: implementation
   digest: What a patch that succeeds does to the record of its game, and that it spares the others. -/

import MotifChess.Db.PatchLaw
import MotifChess.Db.Store.Inserts

set_option autoImplicit false
set_option relaxedAutoImplicit false

namespace MotifChess.Db

namespace Store

open MotifChess.System Stateful

variable {moveHash : List UInt16 → UInt64} {start : Rows} {id : ℕ}
  {f g : GameRecord → GameRecord}

/-- The record of one game was changed since the start, under names that may be new. -/
structure Amended (start : Rows) (id : ℕ) (f : GameRecord → GameRecord) (s : CallState moveHash) :
    Prop where
  grows : start.Grows s.db.toRows
  cached : s.db.Cached s.caches
  games : ∀ row ∈ s.db.games, ∃ old ∈ start.games, old.id = row.id ∧
    ∀ record, start.recordOf old = some record →
      s.db.recordOf row = some (if row.id = id then f record else record)

/-- A call that changes the record of a game by `g`, or fails with new names at most. -/
def Amends (id : ℕ) (g : GameRecord → GameRecord) (x : Call moveHash Unit) : Prop :=
  ∀ start f, Ensures (Amended start id f) x (fun _ => Amended start id fun record => g (f record))
    (fun s => start.Grows s.db.toRows)

section Records

variable {rows rows' : Rows} {row : GameRow} {record : GameRecord}

private theorem recordOf_eq_some : rows.recordOf row = some record ↔ ∃ white black,
    rows.nameIn .player row.whiteId = some white ∧ rows.nameIn .player row.blackId = some black ∧
    { white, black
      whiteElo := row.whiteElo
      blackElo := row.blackElo
      date := row.date
      result := row.result
      eco := row.eco
      moves := row.moves
      extraTags := rows.extraTagsOf row.id } = record := by
  simp [Rows.recordOf, Option.bind_eq_some_iff]

private theorem Rows.recordOf_extraTags (h : rows.recordOf row = some record) :
    rows.extraTagsOf row.id = record.extraTags := by
  obtain ⟨white, black, -, -, rfl⟩ := recordOf_eq_some.mp h
  rfl

end Records

section Steps

theorem Amended.names {s s' : CallState moveHash} (h : Amended start id f s)
    (hnames : NamesAdded s.db.toRows s') : Amended start id f s' where
  grows := h.grows.trans hnames.grows
  cached := hnames.cached
  games := by
    intro row hrow
    rw [hnames.games] at hrow
    obtain ⟨old, hold, hid, hrecord⟩ := h.games row hrow
    refine ⟨old, hold, hid, fun record hr => ?_⟩
    rw [s.db.consistent.recordOf_grows hnames.grows hrow
      (s.db.consistent.extraTagsOf_grows hnames.grows hnames.gameTags row.id)]
    exact hrecord record hr

theorem Amended.updateGame {s s' : CallState moveHash} (h : Amended start id f s)
    {change : GameRow → GameRow} (hid : ∀ row, (change row).id = row.id)
    (hrecord : ∀ row record, s.db.recordOf row = some record →
      s.db.recordOf (change row) = some (g record))
    (hrows : s'.db.toRows = s.db.updateGame id change) (hcaches : s'.caches = s.caches) :
    Amended start id (fun record => g (f record)) s' where
  grows := by
    rw [hrows]
    exact h.grows
  cached := by
    rw [hrows, hcaches]
    exact h.cached
  games := by
    rw [hrows]
    intro row hrow
    obtain ⟨before, hbefore, rfl⟩ := List.mem_map.mp hrow
    obtain ⟨old, hold, hsame, hr⟩ := h.games before hbefore
    have hkept : (if before.id = id then change before else before).id = before.id := by
      split_ifs
      · exact hid before
      · rfl
    refine ⟨old, hold, by rw [hkept, hsame], fun record hstart => ?_⟩
    rw [hkept]
    by_cases hbid : before.id = id
    · rw [if_pos hbid, if_pos hbid]
      have hb := hr record hstart
      rw [if_pos hbid] at hb
      exact hrecord before _ hb
    · rw [if_neg hbid, if_neg hbid]
      have hb := hr record hstart
      rw [if_neg hbid] at hb
      exact hb

theorem Amends.pure : Amends id (fun record => record) (Pure.pure () : Call moveHash Unit) :=
  fun _ _ => Ensures.pure fun _ hs => hs

theorem Amends.bind {x y : Call moveHash Unit} (hx : Amends id f x) (hy : Amends id g y) :
    Amends id (fun record => g (f record)) (x >>= fun _ => y) :=
  fun start h => (hx start h).bind fun _ => hy start fun record => f (h record)

theorem Amends.congr {x : Call moveHash Unit} (h : Amends id f x) (hfg : ∀ r, f r = g r) :
    Amends id g x := by
  obtain rfl : f = g := funext hfg
  exact h

private theorem amends_updateGame {change : GameRow → GameRow} (hid : ∀ row, (change row).id = row.id)
    (hrecord : ∀ (rows : Rows) row record, rows.recordOf row = some record →
      rows.recordOf (change row) = some (g record)) :
    Amends id g (updateGame id change : Call moveHash Unit) := by
  intro start f
  refine exec_spec.mono (fun _ hs => hs) ?_ ?_
  · rintro _ s ⟨s₀, hs, hrows, hcaches⟩
    exact hs.updateGame hid (hrecord s₀.db.toRows) (Except.ok.inj hrows).symm hcaches
  · rintro s ⟨s₀, hs, hdb, -⟩
    rw [hdb]
    exact hs.grows

private theorem amends_updateField {α : Type} {value : Option α} {set : α → GameRow → GameRow}
    {put : α → GameRecord → GameRecord} (hid : ∀ a row, (set a row).id = row.id)
    (hrecord : ∀ a (rows : Rows) row record, rows.recordOf row = some record →
      rows.recordOf (set a row) = some (put a record)) :
    Amends id (fun record => value.elim record fun a => put a record)
      (updateField id value set : Call moveHash Unit) := by
  cases value with
  | none => exact Amends.pure
  | some a => exact amends_updateGame (hid a) (hrecord a)

end Steps

section Fields

variable {patch : GamePatch}

private theorem amends_patchScalars (patch : GamePatch) : Amends id (fun record => { record with
      date := patch.date.or record.date
      result := patch.result.getD record.result
      eco := patch.eco.or record.eco }) (patchScalars id patch : Call moveHash Unit) := by
  have hdate : Amends id (fun record => patch.date.elim record fun date =>
      { record with date := some date }) (updateField id patch.date fun date row =>
        { row with date := some date } : Call moveHash Unit) := by
    refine amends_updateField (fun _ _ => rfl) fun date rows row record h => ?_
    obtain ⟨white, black, hw, hb, rfl⟩ := recordOf_eq_some.mp h
    exact recordOf_eq_some.mpr ⟨white, black, hw, hb, rfl⟩
  have hresult : Amends id (fun record => patch.result.elim record fun result =>
      { record with result }) (updateField id patch.result fun result row =>
        { row with result } : Call moveHash Unit) := by
    refine amends_updateField (fun _ _ => rfl) fun result rows row record h => ?_
    obtain ⟨white, black, hw, hb, rfl⟩ := recordOf_eq_some.mp h
    exact recordOf_eq_some.mpr ⟨white, black, hw, hb, rfl⟩
  have heco : Amends id (fun record => patch.eco.elim record fun eco =>
      { record with eco := some eco }) (updateField id patch.eco fun eco row =>
        { row with eco := some eco } : Call moveHash Unit) := by
    refine amends_updateField (fun _ _ => rfl) fun eco rows row record h => ?_
    obtain ⟨white, black, hw, hb, rfl⟩ := recordOf_eq_some.mp h
    exact recordOf_eq_some.mpr ⟨white, black, hw, hb, rfl⟩
  have hlabel : Amends id (fun record => patch.sourceLabel.elim record fun _ => record)
      (updateField id patch.sourceLabel fun label row =>
        { row with provenance := { row.provenance with sourceLabel := some label } } :
        Call moveHash Unit) :=
    amends_updateField (fun _ _ => rfl) fun _ _ _ _ h => h
  have hstatus : Amends id (fun record => patch.reviewStatus.elim record fun _ => record)
      (updateField id patch.reviewStatus fun status row =>
        { row with provenance := { row.provenance with reviewStatus := status } } :
        Call moveHash Unit) :=
    amends_updateField (fun _ _ => rfl) fun _ _ _ _ h => h
  refine (hdate.bind (hresult.bind (heco.bind (hlabel.bind hstatus)))).congr fun record => ?_
  cases patch.date <;> cases patch.result <;> cases patch.eco <;> cases patch.sourceLabel <;>
    cases patch.reviewStatus <;> rfl

private theorem amends_patchPlayer {setId : ℕ → GameRow → GameRow} {setElo : Int32 → GameRow → GameRow}
    (putName : String → GameRecord → GameRecord) (putElo : Int32 → GameRecord → GameRecord)
    (hsetId : ∀ playerId row, (setId playerId row).id = row.id)
    (hsetElo : ∀ elo row, (setElo elo row).id = row.id)
    (hname : ∀ playerId name (rows : Rows) row record,
      rows.nameIn .player playerId = some name → rows.recordOf row = some record →
        rows.recordOf (setId playerId row) = some (putName name record))
    (helo : ∀ elo (rows : Rows) row record, rows.recordOf row = some record →
      rows.recordOf (setElo elo row) = some (putElo elo record))
    (current : Player) (name : Option String) (elo : Option Int32) :
    Amends id (fun record => (fun record => name.elim record fun name => putName name record)
      (elo.elim record fun elo => putElo elo record))
      (patchPlayer id setId setElo current name elo : Call moveHash Unit) := by
  unfold patchPlayer
  refine Amends.bind (f := fun record => elo.elim record fun elo => putElo elo record)
    (g := fun record => name.elim record fun name => putName name record)
    (amends_updateField hsetElo helo) ?_
  cases name with
  | none => exact Amends.pure
  | some name =>
    intro start f
    refine (carry_names (fun _ => findOrInsert_spec .player { current with name })
      (fun s hs => hs.cached) (fun s s' hs hnames => hs.names hnames)
      fun s s' hs hnames => hs.grows.trans hnames.grows).bind fun playerId => ?_
    refine exec_spec.mono (fun _ hs => hs) ?_ ?_
    · rintro _ s ⟨s₀, ⟨hs, hid⟩, hrows, hcaches⟩
      exact hs.updateGame (hsetId playerId) (fun row record h =>
        hname playerId name s₀.db.toRows row record hid h) (Except.ok.inj hrows).symm hcaches
    · rintro s ⟨s₀, ⟨hs, -⟩, hdb, -⟩
      rw [hdb]
      exact hs.grows

private theorem amends_patchEvent (current : Option Event) (event site : Option String) :
    Amends id (fun record => record)
      (patchEvent id current event site : Call moveHash Unit) := by
  unfold patchEvent
  by_cases hname : event.getD (current.elim "" Event.name) = ""
  · rw [if_pos hname]
    exact Amends.pure
  · rw [if_neg hname]
    intro start f
    refine (carry_names (fun _ => findOrInsert_spec .event _)
      (fun s hs => hs.cached) (fun s s' hs hnames => hs.names hnames)
      fun s s' hs hnames => hs.grows.trans hnames.grows).bind fun eventId => ?_
    refine exec_spec.mono (fun _ hs => hs) ?_ ?_
    · rintro _ s ⟨s₀, ⟨hs, -⟩, hrows, hcaches⟩
      refine Amended.updateGame (g := fun record => record) hs ?_ ?_ (Except.ok.inj hrows).symm
        hcaches
      · exact fun _ => rfl
      · exact fun _ _ h => h
    · rintro s ⟨s₀, ⟨hs, -⟩, hdb, -⟩
      rw [hdb]
      exact hs.grows

theorem Amended.deleteGameTags {s s' : CallState moveHash} (h : Amended start id f s)
    (name : String) (hrows : s'.db.toRows = s.db.deleteGameTags id name)
    (hcaches : s'.caches = s.caches) :
    Amended start id (fun record => { f record with
      extraTags := (f record).extraTags.filter fun tag => tag.1 != name }) s' where
  grows := by
    rw [hrows]
    exact h.grows
  cached := by
    rw [hrows, hcaches]
    exact h.cached
  games := by
    rw [hrows]
    intro row hrow
    obtain ⟨old, hold, hid, hrecord⟩ := h.games row hrow
    refine ⟨old, hold, hid, fun record hstart => ?_⟩
    have hr := hrecord record hstart
    have htags := Rows.recordOf_extraTags hr
    have hgrows : s.db.toRows.Grows (s.db.deleteGameTags id name) := .of_named rfl
    rw [hgrows.recordOf hr, s.db.consistent.extraTagsOf_deleteGameTags, htags]
    by_cases hrid : row.id = id
    · simp only [if_pos hrid]
    · simp only [if_neg hrid]

theorem Amended.insertGameTags {s s' : CallState moveHash} (h : Amended start id f s)
    {tags : List (String × String)} (htags : TagsAdded s.db.toRows id tags s') :
    Amended start id (fun record => { f record with
      extraTags := (f record).extraTags ++ tags }) s' where
  grows := h.grows.trans htags.grows
  cached := htags.cached
  games := by
    rw [htags.games]
    intro row hrow
    obtain ⟨old, hold, hid, hrecord⟩ := h.games row hrow
    refine ⟨old, hold, hid, fun record hstart => ?_⟩
    have hr := hrecord record hstart
    rw [htags.grows.recordOf hr, htags.extraTagsOf s.db.consistent, Rows.recordOf_extraTags hr]
    by_cases hrid : row.id = id
    · simp only [if_pos hrid, if_pos hrid.symm]
    · have hne : id ≠ row.id := fun hsame => hrid hsame.symm
      simp only [if_neg hrid, if_neg hne, List.append_nil]

private theorem amends_insertGameTags (tags : List (String × String)) :
    Amends id (fun record => { record with extraTags := record.extraTags ++ tags })
      (insertGameTags id tags : Call moveHash Unit) := by
  intro start f
  refine Ensures.of_forall fun s hs => ?_
  refine (@insertGameTags_spec moveHash s.db.toRows id tags []).mono ?_ ?_ ?_
  · rintro _ rfl
    exact ⟨.refl, hs.cached, rfl, [], (List.append_nil _).symm, rfl⟩
  · exact fun _ s' htags => hs.insertGameTags htags
  · exact fun s' hgrows => hs.grows.trans hgrows

private theorem amends_patchNotes (patch : GamePatch) :
    Amends id (fun record => { record with extraTags := patch.replacedTags record.extraTags })
      (patchNotes id patch.notes : Call moveHash Unit) := by
  unfold patchNotes GamePatch.replacedTags
  cases patch.notes with
  | none => exact Amends.pure
  | some notes =>
    have hdelete : Amends id (fun record => { record with
        extraTags := record.extraTags.filter fun tag => tag.1 != "_notes" })
        (exec fun rows => .ok (rows.deleteGameTags id "_notes") : Call moveHash Unit) := by
      intro start f
      refine exec_spec.mono (fun _ hs => hs) ?_ ?_
      · rintro _ s ⟨s₀, hs, hrows, hcaches⟩
        exact hs.deleteGameTags "_notes" (Except.ok.inj hrows).symm hcaches
      · rintro s ⟨s₀, hs, hdb, -⟩
        rw [hdb]
        exact hs.grows
    by_cases hempty : notes = ""
    · simp only [if_pos hempty]
      exact hdelete.bind Amends.pure
    · simp only [if_neg hempty]
      exact hdelete.bind (amends_insertGameTags _)

end Fields

section Whole

variable (patch : GamePatch)

private theorem amends_patchWhite (current : Player) : Amends id (fun record => { record with
      white := patch.whiteName.getD record.white
      whiteElo := patch.whiteElo.or record.whiteElo })
    (patchPlayer id (fun playerId row => { row with whiteId := playerId })
      (fun elo row => { row with whiteElo := some elo }) current patch.whiteName patch.whiteElo :
      Call moveHash Unit) := by
  refine (amends_patchPlayer (fun name record => { record with white := name })
    (fun elo record => { record with whiteElo := some elo }) ?_ ?_ ?_ ?_ _ _ _).congr
    fun record => ?_
  · exact fun _ _ => rfl
  · exact fun _ _ => rfl
  · intro playerId name rows row record hname h
    obtain ⟨white, black, -, hb, rfl⟩ := recordOf_eq_some.mp h
    exact recordOf_eq_some.mpr ⟨name, black, hname, hb, rfl⟩
  · intro elo rows row record h
    obtain ⟨white, black, hw, hb, rfl⟩ := recordOf_eq_some.mp h
    exact recordOf_eq_some.mpr ⟨white, black, hw, hb, rfl⟩
  · cases patch.whiteName <;> cases patch.whiteElo <;> rfl

private theorem amends_patchBlack (current : Player) : Amends id (fun record => { record with
      black := patch.blackName.getD record.black
      blackElo := patch.blackElo.or record.blackElo })
    (patchPlayer id (fun playerId row => { row with blackId := playerId })
      (fun elo row => { row with blackElo := some elo }) current patch.blackName patch.blackElo :
      Call moveHash Unit) := by
  refine (amends_patchPlayer (fun name record => { record with black := name })
    (fun elo record => { record with blackElo := some elo }) ?_ ?_ ?_ ?_ _ _ _).congr
    fun record => ?_
  · exact fun _ _ => rfl
  · exact fun _ _ => rfl
  · intro playerId name rows row record hname h
    obtain ⟨white, black, hw, -, rfl⟩ := recordOf_eq_some.mp h
    exact recordOf_eq_some.mpr ⟨white, name, hw, hname, rfl⟩
  · intro elo rows row record h
    obtain ⟨white, black, hw, hb, rfl⟩ := recordOf_eq_some.mp h
    exact recordOf_eq_some.mpr ⟨white, black, hw, hb, rfl⟩
  · cases patch.blackName <;> cases patch.blackElo <;> rfl

/-- The names and ratings of a record after a patch. -/
def GameRecord.renamed (record : GameRecord) : GameRecord := { record with
  white := patch.whiteName.getD record.white
  black := patch.blackName.getD record.black
  whiteElo := patch.whiteElo.or record.whiteElo
  blackElo := patch.blackElo.or record.blackElo }

private theorem amends_patchJoined (current : Game) :
    Amends id (GameRecord.renamed patch) (patchJoined id patch current : Call moveHash Unit) := by
  have hevent : Amends id (fun record => record)
      (if (patch.event.isSome || patch.site.isSome) = true then
        patchEvent id current.eventDetails patch.event patch.site
      else Pure.pure () : Call moveHash Unit) := by
    split
    · exact amends_patchEvent _ _ _
    · exact Amends.pure
  exact (amends_patchWhite patch current.white).bind
    ((amends_patchBlack patch current.black).bind hevent)

/-- A record after a patch. -/
def GameRecord.patched (record : GameRecord) : GameRecord where
  white := patch.whiteName.getD record.white
  black := patch.blackName.getD record.black
  whiteElo := patch.whiteElo.or record.whiteElo
  blackElo := patch.blackElo.or record.blackElo
  date := patch.date.or record.date
  result := patch.result.getD record.result
  eco := patch.eco.or record.eco
  moves := record.moves
  extraTags := patch.replacedTags record.extraTags

theorem amends_patchBody :
    Amends id (GameRecord.patched patch) (patchBody id patch : Call moveHash Unit) := by
  have hrest : Amends id (fun record => { record with
      date := patch.date.or record.date
      result := patch.result.getD record.result
      eco := patch.eco.or record.eco
      extraTags := patch.replacedTags record.extraTags })
      (do patchScalars id patch; patchNotes id patch.notes : Call moveHash Unit) :=
    (amends_patchScalars patch).bind (amends_patchNotes patch)
  unfold patchBody
  by_cases hneeds : needsGame patch
  · simp only [if_pos hneeds]
    intro start f
    refine Ensures.read_bind fun game => ?_
    cases game with
    | error e =>
      exact Ensures.bind (Q := fun _ _ => False) (Ensures.fail fun s hs => hs.1.grows)
        fun _ _ hfalse => hfalse.elim
    | ok current =>
      exact (((amends_patchJoined patch current).bind hrest) start f).mono (fun s hs => hs.1)
        (fun _ _ h => h) fun _ h => h
  · simp only [if_neg hneeds]
    simp only [needsGame, Bool.or_eq_true, not_or, Option.isSome_iff_ne_none, not_not] at hneeds
    obtain ⟨⟨⟨⟨⟨hwhite, hwhiteElo⟩, hblack⟩, hblackElo⟩, -⟩, -⟩ := hneeds
    refine hrest.congr fun record => ?_
    rw [GameRecord.patched, hwhite, hwhiteElo, hblack, hblackElo]
    rfl

end Whole

end Store

end MotifChess.Db
