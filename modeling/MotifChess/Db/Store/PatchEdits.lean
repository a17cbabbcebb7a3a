/- GID: MotifChess/Db/Store/PatchEdits
   generality: implementation
   digest: A patch as updates of single columns with lookups by name, and the rows that they leave. -/

import MotifChess.Db.Store.Calls

set_option autoImplicit false
set_option relaxedAutoImplicit false

namespace MotifChess.Db.Store

open MotifChess.System Stateful

/-- What a call sees: the rows, and the ids that its object remembers. -/
structure View where
  rows : Rows
  caches : IdCaches

namespace View

/-- The id that is remembered for a name, or that its row has. -/
def known (kind : NameKind) (name : String) (v : View) : Option ℕ :=
  (v.caches.find kind name).or (v.rows.idOf kind name)

/-- The id that a lookup gives: that of a new row when the name is not known. -/
def resolve (kind : NameKind) (row : kind.Row) (v : View) : ℕ :=
  (v.known kind (kind.nameOf row)).getD (v.rows.nextId kind)

/-- What a lookup leaves. -/
def lookedUp (kind : NameKind) (row : kind.Row) (v : View) : View :=
  if (v.caches.find kind (kind.nameOf row)).isSome then v
  else
    { rows := if (v.rows.idOf kind (kind.nameOf row)).isSome then v.rows
        else v.rows.insertNamed kind row
      caches := v.caches.emplace kind (kind.nameOf row) (v.resolve kind row) }

end View

/-- An update of the row of a game: of a column, or of the column that refers to the row of a name. -/
inductive Edit
  | set (change : GameRow → GameRow)
  | refer (kind : NameKind) (row : kind.Row) (change : ℕ → GameRow → GameRow)

namespace Edit

def lookedUp (v : View) : Edit → View
  | set _ => v
  | refer kind row _ => v.lookedUp kind row

/-- What the update does to the row. -/
def change (v : View) : Edit → GameRow → GameRow
  | set change => change
  | refer kind row change => change (v.resolve kind row)

/-- What the update leaves. -/
def after (id : ℕ) (v : View) (edit : Edit) : View :=
  { edit.lookedUp v with rows := (edit.lookedUp v).rows.updateGame id (edit.change v) }

end Edit

/-- What some updates leave, one after the other. -/
def View.edited (id : ℕ) (edits : List Edit) (v : View) : View :=
  edits.foldl (fun v edit => edit.after id v) v

/-- What the notes of a patch leave. -/
def View.noted (id : ℕ) (notes : Option String) (v : View) : View :=
  match notes with
  | none => v
  | some notes =>
    let cleared : View := { v with rows := v.rows.deleteGameTags id "_notes" }
    if notes = "" then cleared
    else
      let found := cleared.lookedUp .tag "_notes"
      { found with
        rows := found.rows.insertGameTag ⟨id, cleared.resolve .tag "_notes", notes⟩ }

/-- The updates of one side: its rating, and the player of its name. -/
def sideEdits (setId : ℕ → GameRow → GameRow) (setElo : Int32 → GameRow → GameRow) (player : Player)
    (name : Option String) (elo : Option Int32) : List Edit :=
  elo.toList.map (fun elo => .set (setElo elo)) ++
    name.toList.map fun name => .refer .player { player with name } setId

def whiteEdits (patch : GamePatch) (white : Player) : List Edit :=
  sideEdits (fun playerId row => { row with whiteId := playerId })
    (fun elo row => { row with whiteElo := some elo }) white patch.whiteName patch.whiteElo

def blackEdits (patch : GamePatch) (black : Player) : List Edit :=
  sideEdits (fun playerId row => { row with blackId := playerId })
    (fun elo row => { row with blackElo := some elo }) black patch.blackName patch.blackElo

/-- The event that a patch looks up, by its name only, or adds. -/
def eventOf (patch : GamePatch) (details : Option Event) : Event :=
  ⟨patch.eventName details, patch.site.or (details.bind Event.site), details.bind Event.date⟩

def eventEdits (patch : GamePatch) (details : Option Event) : List Edit :=
  if patch.touchesEvent && patch.eventName details != "" then
    [.refer .event (eventOf patch details) fun eventId row => { row with eventId := some eventId }]
  else []

def scalarEdits (patch : GamePatch) : List Edit :=
  patch.date.toList.map (fun date => .set fun row => { row with date := some date }) ++
    (patch.result.toList.map (fun result => .set fun row => { row with result }) ++
    (patch.eco.toList.map (fun eco => .set fun row => { row with eco := some eco }) ++
    (patch.sourceLabel.toList.map (fun label => .set fun row =>
      { row with provenance := { row.provenance with sourceLabel := some label } }) ++
    patch.reviewStatus.toList.map fun status => .set fun row =>
      { row with provenance := { row.provenance with reviewStatus := status } })))

/-- The updates of a patch, in the order in which they are made. -/
def editsOf (patch : GamePatch) (current : Game) : List Edit :=
  whiteEdits patch current.white ++ (blackEdits patch current.black ++
    (eventEdits patch current.eventDetails ++ scalarEdits patch))

/-- What a patch leaves when all of its statements are carried out. -/
def View.patched (id : ℕ) (patch : GamePatch) (current : Game) (v : View) : View :=
  (v.edited id (editsOf patch current)).noted id patch.notes

/-- None of the statements of a patch breaks a constraint. -/
def View.Admits (moveHash : List UInt16 → UInt64) (id : ℕ) (patch : GamePatch) (current : Game)
    (v : View) : Prop :=
  (∀ n, (v.edited id ((editsOf patch current).take n)).rows.Consistent moveHash) ∧
    (v.patched id patch current).rows.Consistent moveHash

variable {moveHash : List UInt16 → UInt64}

def CallState.view (s : CallState moveHash) : View := ⟨s.db.toRows, s.caches⟩

section Statements

variable {s t : CallState moveHash} {kind : NameKind} {row : kind.Row} {id found : ℕ}
  {change : Rows → Rows}

private theorem exec_eq_ok (h : exec (fun rows => .ok (change rows)) s = (.ok (), t)) :
    t.db.toRows = change s.db.toRows ∧ t.caches = s.caches ∧ (s.Works → t.Works) := by
  unfold exec at h
  dsimp only at h
  split_ifs at h
  · cases h
  · obtain ⟨-, rfl⟩ := Prod.mk.inj h
    exact ⟨rfl, rfl, CallState.Works.passed⟩
  · cases h

private theorem exec_succeeds_iff (hworks : s.Works) :
    (∃ t, exec (fun rows => .ok (change rows)) s = (.ok (), t)) ↔
      (change s.db.toRows).Consistent moveHash := by
  unfold exec
  rw [if_neg (by simp [hworks.nextWorks])]
  dsimp only
  constructor
  · rintro ⟨t, h⟩
    split_ifs at h with hconsistent
    · exact hconsistent
    · cases h
  · intro hconsistent
    exact ⟨_, dif_pos hconsistent⟩

private theorem findOrInsert_eq_ok (h : findOrInsert kind row s = (.ok found, t)) :
    found = s.view.resolve kind row ∧ t.view = s.view.lookedUp kind row ∧
      (s.Works → t.Works) := by
  unfold findOrInsert at h
  rw [run_read_bind] at h
  cases hcached : s.caches.find kind (kind.nameOf row) with
  | some id =>
    rw [hcached] at h
    obtain ⟨hid, rfl⟩ := Prod.mk.inj h
    obtain rfl := Except.ok.inj hid
    simp [View.resolve, View.known, View.lookedUp, CallState.view, hcached]
  | none =>
    rw [hcached] at h
    dsimp only at h
    rw [run_read_bind] at h
    cases hrow : s.db.idOf kind (kind.nameOf row) with
    | some id =>
      rw [hrow] at h
      obtain ⟨hid, rfl⟩ := Prod.mk.inj h
      obtain rfl := Except.ok.inj hid
      refine ⟨?_, ?_, fun hworks => hworks⟩
      · simp [View.resolve, View.known, CallState.view, hcached, hrow]
      · simp [View.resolve, View.known, View.lookedUp, CallState.view, hcached, hrow]
    | none =>
      rw [hrow] at h
      dsimp only at h
      rw [run_read_bind] at h
      obtain ⟨_, u, hexec, hrest⟩ := run_bind_eq_ok.mp h
      obtain ⟨hid, rfl⟩ := Prod.mk.inj hrest
      obtain rfl := Except.ok.inj hid
      obtain ⟨hrows, hcaches, hworks⟩ := exec_eq_ok hexec
      refine ⟨?_, ?_, hworks⟩
      · simp [View.resolve, View.known, CallState.view, hcached, hrow]
      · simp [View.resolve, View.known, View.lookedUp, CallState.view, hcached, hrow, hrows, hcaches]

theorem findOrInsert_succeeds (hworks : s.Works) :
    ∃ t, findOrInsert kind row s = (.ok (s.view.resolve kind row), t) ∧
      t.view = s.view.lookedUp kind row ∧ t.Works := by
  have hrun := findOrInsert_total kind row s hworks
  cases hcall : findOrInsert kind row s with
  | mk r t =>
    rw [hcall] at hrun
    cases r with
    | error e => exact hrun.elim
    | ok found =>
      obtain ⟨rfl, hview, -⟩ := findOrInsert_eq_ok hcall
      exact ⟨t, rfl, hview, hrun⟩

end Statements

section Edits

variable {s t : CallState moveHash} {id : ℕ} {edit : Edit} {edits : List Edit}

def Edit.call (id : ℕ) : Edit → Call moveHash Unit
  | set change => updateGame id change
  | refer kind row change => do
    let found ← findOrInsert kind row
    updateGame id (change found)

def editAll (id : ℕ) : List Edit → Call moveHash Unit
  | [] => return ()
  | edit :: edits => do
    edit.call id
    editAll id edits

private theorem editAll_singleton : (editAll id [edit] : Call moveHash Unit) = edit.call id := by
  simp [editAll]

private theorem editAll_append (more : List Edit) : (editAll id (edits ++ more) : Call moveHash Unit) =
    (do editAll id edits; editAll id more) := by
  induction edits with
  | nil => simp [editAll]
  | cons edit edits ih => simp [editAll, ih]

private theorem Edit.call_eq_ok (h : edit.call id s = (.ok (), t)) :
    t.view = edit.after id s.view ∧ (s.Works → t.Works) := by
  cases edit with
  | set change =>
    obtain ⟨hrows, hcaches, hworks⟩ := exec_eq_ok h
    refine ⟨?_, hworks⟩
    simp [CallState.view, Edit.after, Edit.lookedUp, Edit.change, hrows, hcaches]
  | refer kind row change =>
    obtain ⟨found, u, hfound, hexec⟩ := run_bind_eq_ok.mp h
    obtain ⟨rfl, hview, hkept⟩ := findOrInsert_eq_ok hfound
    obtain ⟨hrows, hcaches, hworks⟩ := exec_eq_ok hexec
    refine ⟨?_, fun hs => hworks (hkept hs)⟩
    simp only [Edit.after, Edit.lookedUp, Edit.change, ← hview]
    simp only [CallState.view, hrows, hcaches]

private theorem Edit.call_succeeds_iff (hworks : s.Works) : (∃ t, edit.call id s = (.ok (), t)) ↔
    (edit.after id s.view).rows.Consistent moveHash := by
  cases edit with
  | set change => exact exec_succeeds_iff hworks
  | refer kind row change =>
    obtain ⟨u, hfound, hview, hworks'⟩ := @findOrInsert_succeeds _ s kind row hworks
    have hexec := @exec_succeeds_iff _ u
      (fun rows => rows.updateGame id (change (s.view.resolve kind row))) hworks'
    simp only [Edit.after, Edit.lookedUp, Edit.change, ← hview]
    refine Iff.trans ⟨?_, ?_⟩ hexec
    · rintro ⟨t, h⟩
      obtain ⟨found, u', hfound', h⟩ := run_bind_eq_ok.mp h
      obtain ⟨hsame, rfl⟩ := Prod.mk.inj (hfound'.symm.trans hfound)
      obtain rfl := Except.ok.inj hsame
      exact ⟨t, h⟩
    · rintro ⟨t, h⟩
      exact ⟨t, run_bind_eq_ok.mpr ⟨_, u, hfound, h⟩⟩

private theorem editAll_eq_ok (h : editAll id edits s = (.ok (), t)) :
    t.view = s.view.edited id edits ∧ (s.Works → t.Works) ∧
      ∀ n, (s.view.edited id (edits.take n)).rows.Consistent moveHash := by
  induction edits generalizing s with
  | nil =>
    obtain ⟨-, rfl⟩ := Prod.mk.inj h
    refine ⟨rfl, fun hs => hs, fun n => ?_⟩
    rw [List.take_nil]
    exact s.db.consistent
  | cons edit edits ih =>
    obtain ⟨_, u, hfirst, hrest⟩ := run_bind_eq_ok.mp h
    obtain ⟨hview, hworks⟩ := Edit.call_eq_ok hfirst
    obtain ⟨hviews, hworks', hprefixes⟩ := ih hrest
    rw [hview] at hviews hprefixes
    refine ⟨hviews, fun hs => hworks' (hworks hs), fun n => ?_⟩
    cases n with
    | zero => exact s.db.consistent
    | succ n => exact hprefixes n

/-- All updates succeed exactly when none of them, made on what the earlier ones leave, breaks a
constraint. -/
private theorem editAll_succeeds_iff (hworks : s.Works) : (∃ t, editAll id edits s = (.ok (), t)) ↔
    ∀ n, (s.view.edited id (edits.take n)).rows.Consistent moveHash := by
  refine ⟨fun ⟨t, h⟩ => (editAll_eq_ok h).2.2, fun h => ?_⟩
  induction edits generalizing s with
  | nil => exact ⟨s, rfl⟩
  | cons edit edits ih =>
    obtain ⟨u, hfirst⟩ := (Edit.call_succeeds_iff hworks).mpr (h 1)
    obtain ⟨hview, hworks'⟩ := Edit.call_eq_ok hfirst
    obtain ⟨t, hrest⟩ := ih (hworks' hworks) fun n => by
      rw [hview]
      exact h (n + 1)
    exact ⟨t, run_bind_eq_ok.mpr ⟨(), u, hfirst, hrest⟩⟩

end Edits

section Patches

variable {s t : CallState moveHash} {id : ℕ} {patch : GamePatch} {current : Game}

private theorem updateField_eq {α : Type} (value : Option α) (set : α → GameRow → GameRow) :
    (updateField id value set : Call moveHash Unit) =
      editAll id (value.toList.map fun value => .set (set value)) := by
  cases value with
  | none => rfl
  | some value =>
    rw [Option.toList_some, List.map_singleton, editAll_singleton]
    rfl

private theorem patchPlayer_eq (setId : ℕ → GameRow → GameRow) (setElo : Int32 → GameRow → GameRow)
    (player : Player) (name : Option String) (elo : Option Int32) :
    (patchPlayer id setId setElo player name elo : Call moveHash Unit) =
      editAll id (sideEdits setId setElo player name elo) := by
  unfold patchPlayer sideEdits
  rw [updateField_eq, editAll_append]
  cases name with
  | none => rfl
  | some name =>
    rw [Option.toList_some, List.map_singleton, editAll_singleton]
    rfl

private theorem patchEvent_eq (patch : GamePatch) (details : Option Event) :
    (if patch.event.isSome || patch.site.isSome then patchEvent id details patch.event patch.site
      else return () : Call moveHash Unit) = editAll id (eventEdits patch details) := by
  have hsite : (if patch.site.isSome then patch.site else details.bind Event.site) =
      patch.site.or (details.bind Event.site) := by
    cases patch.site <;> rfl
  unfold eventEdits
  change (if patch.touchesEvent then _ else _) = _
  by_cases htouched : patch.touchesEvent = true
  · rw [htouched, if_pos rfl, Bool.true_and]
    unfold patchEvent
    rw [hsite]
    by_cases hname : patch.eventName details = ""
    · rw [if_pos (show patch.event.getD (details.elim "" Event.name) = "" from hname),
        if_neg (by simp [hname])]
      rfl
    · rw [if_neg (show ¬patch.event.getD (details.elim "" Event.name) = "" from hname),
        if_pos (by simpa using hname), editAll_singleton]
      rfl
  · rw [Bool.eq_false_iff.mpr htouched]
    rfl

private theorem patchScalars_eq (patch : GamePatch) :
    (patchScalars id patch : Call moveHash Unit) = editAll id (scalarEdits patch) := by
  unfold patchScalars scalarEdits
  simp only [updateField_eq, editAll_append]

private theorem patchBody_eq (hget : s.db.get id = .ok current) :
    patchBody id patch s = (do editAll id (editsOf patch current); patchNotes id patch.notes) s := by
  unfold patchBody editsOf
  by_cases hneeds : needsGame patch
  · simp only [if_pos hneeds, run_read_bind, hget]
    unfold patchJoined
    rw [patchPlayer_eq, patchPlayer_eq, patchEvent_eq, patchScalars_eq]
    simp only [whiteEdits, blackEdits, editAll_append, bind_assoc]
  · have hnone : patch.whiteName = none ∧ patch.whiteElo = none ∧ patch.blackName = none ∧
        patch.blackElo = none ∧ patch.event = none ∧ patch.site = none := by
      simpa [needsGame, and_assoc] using hneeds
    obtain ⟨hwhite, hwhiteElo, hblack, hblackElo, hevent, hsite⟩ := hnone
    simp only [if_neg hneeds, whiteEdits, blackEdits, sideEdits, eventEdits, GamePatch.touchesEvent,
      hwhite, hwhiteElo, hblack, hblackElo, hevent, hsite, patchScalars_eq, Option.isSome_none,
      Bool.or_self, Bool.false_and, Bool.false_eq_true, if_false, Option.toList_none, List.map_nil,
      List.nil_append]

private theorem insertTag_eq_ok {name value : String}
    (h : insertGameTags id [(name, value)] s = (.ok (), t)) :
    t.db.toRows = (s.view.lookedUp .tag name).rows.insertGameTag
      ⟨id, s.view.resolve .tag name, value⟩ ∧
      t.caches = (s.view.lookedUp .tag name).caches ∧ (s.Works → t.Works) := by
  obtain ⟨tagId, u, hfound, hrest⟩ := run_bind_eq_ok.mp h
  obtain ⟨rfl, hview, hkept⟩ := findOrInsert_eq_ok hfound
  obtain ⟨_, v, hexec, hend⟩ := run_bind_eq_ok.mp hrest
  obtain ⟨-, rfl⟩ := Prod.mk.inj hend
  obtain ⟨hrows, hcaches, hworks⟩ := exec_eq_ok hexec
  rw [hrows, hcaches]
  exact ⟨congrArg (fun v : View => v.rows.insertGameTag _) hview, congrArg View.caches hview,
    fun hs => hworks (hkept hs)⟩

private theorem insertTag_succeeds_iff {name value : String} (hworks : s.Works) :
    (∃ t, insertGameTags id [(name, value)] s = (.ok (), t)) ↔
      ((s.view.lookedUp .tag name).rows.insertGameTag
        ⟨id, s.view.resolve .tag name, value⟩).Consistent moveHash := by
  obtain ⟨u, hfound, hview, hworks'⟩ := @findOrInsert_succeeds _ s .tag name hworks
  have hexec := @exec_succeeds_iff _ u
    (fun rows => rows.insertGameTag ⟨id, s.view.resolve .tag name, value⟩) hworks'
  have hrows : (s.view.lookedUp .tag name).rows = u.db.toRows := congrArg View.rows hview.symm
  rw [hrows]
  refine Iff.trans ⟨?_, ?_⟩ hexec
  · rintro ⟨t, h⟩
    obtain ⟨tagId, u', hfound', hrest⟩ := run_bind_eq_ok.mp h
    obtain ⟨hsame, rfl⟩ := Prod.mk.inj (hfound'.symm.trans hfound)
    obtain rfl := Except.ok.inj hsame
    obtain ⟨_, v, hexec, -⟩ := run_bind_eq_ok.mp hrest
    exact ⟨v, hexec⟩
  · rintro ⟨v, h⟩
    exact ⟨v, run_bind_eq_ok.mpr ⟨_, u, hfound, run_bind_eq_ok.mpr ⟨(), v, h, rfl⟩⟩⟩

private theorem patchNotes_eq_ok {notes : Option String}
    (h : patchNotes id notes s = (.ok (), t)) :
    t.view = s.view.noted id notes ∧ (s.Works → t.Works) := by
  cases notes with
  | none =>
    obtain ⟨-, rfl⟩ := Prod.mk.inj h
    exact ⟨rfl, fun hs => hs⟩
  | some notes =>
    obtain ⟨_, u, hdelete, hrest⟩ := run_bind_eq_ok.mp h
    obtain ⟨hrows, hcaches, hkept⟩ := exec_eq_ok hdelete
    have hview : u.view = { s.view with rows := s.view.rows.deleteGameTags id "_notes" } := by
      rw [CallState.view, hrows, hcaches]
      rfl
    unfold View.noted
    dsimp only
    rw [← hview]
    by_cases hempty : notes = ""
    · rw [if_pos hempty] at hrest ⊢
      obtain ⟨-, rfl⟩ := Prod.mk.inj hrest
      exact ⟨rfl, hkept⟩
    · rw [if_neg hempty] at hrest ⊢
      obtain ⟨hrows', hcaches', hworks⟩ := insertTag_eq_ok hrest
      rw [CallState.view, hrows', hcaches']
      exact ⟨rfl, fun hs => hworks (hkept hs)⟩

private theorem patchNotes_succeeds_iff {notes : Option String} (hworks : s.Works) :
    (∃ t, patchNotes id notes s = (.ok (), t)) ↔
      (s.view.noted id notes).rows.Consistent moveHash := by
  cases notes with
  | none => exact ⟨fun _ => s.db.consistent, fun _ => ⟨s, rfl⟩⟩
  | some notes =>
    obtain ⟨u, hdelete⟩ := (@exec_succeeds_iff _ s (fun rows => rows.deleteGameTags id "_notes")
      hworks).mpr (s.db.consistent.deleteGameTags "_notes")
    obtain ⟨hrows, hcaches, hrest⟩ := exec_eq_ok hdelete
    have hview : u.view = { s.view with rows := s.view.rows.deleteGameTags id "_notes" } := by
      rw [CallState.view, hrows, hcaches]
      rfl
    have hworks' : u.Works := hrest hworks
    have hbody : (∃ t, patchNotes id (some notes) s = (.ok (), t)) ↔
        ∃ t, (if notes = "" then return ()
          else insertGameTags id [("_notes", notes)] : Call moveHash Unit) u = (.ok (), t) := by
      refine exists_congr fun t => Iff.trans run_bind_eq_ok ⟨?_, ?_⟩
      · rintro ⟨_, u', hdelete', hinsert⟩
        obtain ⟨-, rfl⟩ := Prod.mk.inj (hdelete'.symm.trans hdelete)
        exact hinsert
      · exact fun hinsert => ⟨(), u, hdelete, hinsert⟩
    rw [hbody]
    unfold View.noted
    dsimp only
    rw [← hview]
    by_cases hempty : notes = ""
    · rw [if_pos hempty, if_pos hempty]
      exact ⟨fun _ => u.db.consistent, fun _ => ⟨u, rfl⟩⟩
    · rw [if_neg hempty, if_neg hempty]
      exact insertTag_succeeds_iff hworks'

private theorem patchBody_eq_ok (hget : s.db.get id = .ok current)
    (h : patchBody id patch s = (.ok (), t)) :
    t.view = s.view.patched id patch current ∧ (s.Works → t.Works) ∧
      s.view.Admits moveHash id patch current := by
  rw [patchBody_eq hget] at h
  obtain ⟨_, u, hedits, hnotes⟩ := run_bind_eq_ok.mp h
  obtain ⟨hedited, hkept, hprefixes⟩ := editAll_eq_ok hedits
  obtain ⟨hnoted, hworks⟩ := patchNotes_eq_ok hnotes
  rw [View.Admits, View.patched, ← hedited, ← hnoted]
  exact ⟨rfl, fun hs => hworks (hkept hs), hprefixes, t.db.consistent⟩

private theorem patchBody_succeeds_iff (hget : s.db.get id = .ok current) (hworks : s.Works) :
    (∃ t, patchBody id patch s = (.ok (), t)) ↔ s.view.Admits moveHash id patch current := by
  refine ⟨fun ⟨t, h⟩ => (patchBody_eq_ok hget h).2.2, fun ⟨hprefixes, hall⟩ => ?_⟩
  obtain ⟨u, hedits⟩ := (editAll_succeeds_iff hworks).mpr hprefixes
  obtain ⟨hedited, hkept, -⟩ := editAll_eq_ok hedits
  rw [View.patched, ← hedited] at hall
  obtain ⟨t, hnotes⟩ := (patchNotes_succeeds_iff (hkept hworks)).mpr hall
  rw [patchBody_eq hget]
  exact ⟨t, run_bind_eq_ok.mpr ⟨(), u, hedits, hnotes⟩⟩

end Patches

section Calls

variable {s t : CallState moveHash} {id : ℕ} {patch : GamePatch} {joined : Bool} {row : GameRow}

private theorem guarded_succeeds_iff {body : Call moveHash Unit} (hworks : s.Works)
    (hbody : ∀ t, body s = (.ok (), t) → t.Works) :
    (∃ t, guarded joined body s = (.ok (), t)) ↔ ∃ t, body s = (.ok (), t) := by
  have hpassed : s.passed = s := by
    obtain ⟨db, caches, works⟩ := s
    obtain rfl : works = [] := hworks
    rfl
  unfold guarded
  rw [hpassed, if_neg (by simp [hworks.nextWorks] : ¬(!s.nextWorks) = true)]
  cases hrun : body s with
  | mk r t =>
    cases r with
    | error e => cases joined <;> simp
    | ok a =>
      cases joined with
      | true => simp
      | false => simp [(hbody t hrun).nextWorks]

private theorem failsIo_editAll (edits : List Edit) :
    FailsIo (editAll id edits : Call moveHash Unit) := by
  induction edits with
  | nil => exact failsIo_pure ()
  | cons edit edits ih =>
    refine FailsIo.bind ?_ fun _ => ih
    cases edit with
    | set change => exact failsIo_exec _
    | refer kind row change => exact (failsIo_findOrInsert kind row).bind fun _ => failsIo_exec _

private theorem guarded_failsIo {body : Call moveHash Unit} {e : ErrorCode}
    (hbody : ∀ s₀ e t, s₀.db = s.db → body s₀ = (.error e, t) → e = .ioFailure)
    (h : guarded joined body s = (.error e, t)) : e = .ioFailure := by
  cases joined with
  | true =>
    obtain ⟨u, herror, -⟩ := guarded_joined_error h
    exact hbody s e u rfl herror
  | false =>
    unfold guarded at h
    rw [if_neg Bool.false_ne_true] at h
    by_cases hfails : (!s.nextWorks) = true
    · rw [if_pos hfails] at h
      exact (Except.error.inj (Prod.mk.inj h).1).symm
    · rw [if_neg hfails] at h
      cases hrun : body s.passed with
      | mk r u =>
        rw [hrun] at h
        cases r with
        | error e' =>
          obtain rfl := Except.error.inj (Prod.mk.inj h).1
          exact hbody s.passed e' u rfl hrun
        | ok a =>
          dsimp only at h
          split at h
          · cases h
          · exact (Except.error.inj (Prod.mk.inj h).1).symm

theorem patchMetadata_failsIo {e : ErrorCode} (hrow : row ∈ s.db.games)
    (hmanual : row.provenance.read.sourceType = "manual")
    (h : patchMetadata joined row.id patch s = (.error e, t)) : e = .ioFailure := by
  obtain ⟨current, -, hget, -, -⟩ := s.db.consistent.get_of_mem hrow
  rw [patchMetadata] at h
  simp only [run_read_bind, s.db.consistent.findGame_of_mem hrow, hmanual, ne_eq, not_true_eq_false,
    if_false] at h
  refine guarded_failsIo (fun s₀ e u hdb hbody => ?_) h
  rw [patchBody_eq (hdb ▸ hget)] at hbody
  exact ((failsIo_editAll _).bind fun _ => failsIo_patchNotes _) s₀ e u hbody

theorem patchMetadata_eq_ok (h : patchMetadata joined id patch s = (.ok (), t)) :
    ∃ row ∈ s.db.games, row.id = id ∧ row.provenance.read.sourceType = "manual" ∧
      ∃ current, s.db.get id = .ok current ∧ t.view = s.view.patched id patch current ∧
        s.view.Admits moveHash id patch current := by
  rw [patchMetadata, run_read_bind] at h
  cases hfound : s.db.findGame id with
  | none =>
    rw [hfound] at h
    cases h
  | some row =>
    rw [hfound] at h
    dsimp only at h
    have hmem := List.mem_of_find?_eq_some hfound
    obtain rfl : row.id = id := by simpa using List.find?_some hfound
    split_ifs at h with hmanual
    · cases h
    · obtain ⟨current, -, hget, -, -⟩ := s.db.consistent.get_of_mem hmem
      obtain ⟨s₀, t₀, hdb, hcaches, hbody, hdb', hcaches'⟩ := guarded_eq_ok h
      have hsame : s₀.view = s.view := by rw [CallState.view, CallState.view, hdb, hcaches]
      have hsame' : t₀.view = t.view := by rw [CallState.view, CallState.view, hdb', hcaches']
      obtain ⟨hview, -, hadmits⟩ := patchBody_eq_ok (hdb ▸ hget) hbody
      rw [hsame, hsame'] at hview
      rw [hsame] at hadmits
      exact ⟨row, hmem, rfl, not_not.mp hmanual, current, hget, hview, hadmits⟩

theorem patchMetadata_succeeds_iff (hworks : s.Works) (hrow : row ∈ s.db.games)
    (hmanual : row.provenance.read.sourceType = "manual") {current : Game}
    (hget : s.db.get row.id = .ok current) :
    (∃ t, patchMetadata joined row.id patch s = (.ok (), t)) ↔
      s.view.Admits moveHash row.id patch current := by
  rw [patchMetadata]
  simp only [run_read_bind, s.db.consistent.findGame_of_mem hrow, hmanual, ne_eq, not_true_eq_false,
    if_false]
  rw [← patchBody_succeeds_iff hget hworks]
  exact guarded_succeeds_iff hworks fun t h => (patchBody_eq_ok hget h).2.1 hworks

end Calls

end MotifChess.Db.Store
