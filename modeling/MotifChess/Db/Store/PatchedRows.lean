/- GID: MotifChess/Db/Store/PatchedRows
   generality: implementation
   digest: The rows after the updates of a patch: new names, and one game row with other columns. -/

import MotifChess.Db.Store.PatchEdits

set_option autoImplicit false
set_option relaxedAutoImplicit false

namespace MotifChess.Db.Store

variable {moveHash : List UInt16 → UInt64} {v v' v'' : View} {kind : NameKind} {id : ℕ}

section Lookups

/-- Both have the same names of one kind under the same ids, and remember the same ids for them. -/
structure View.Alike (kind : NameKind) (v v' : View) : Prop where
  named : v'.rows.named kind = v.rows.named kind
  caches : v'.caches kind = v.caches kind

namespace View.Alike

theorem trans (h : v.Alike kind v') (h' : v'.Alike kind v'') : v.Alike kind v'' :=
  ⟨h'.named.trans h.named, h'.caches.trans h.caches⟩

variable (h : v.Alike kind v')

include h

theorem rowOf (id : ℕ) : v'.rows.rowOf kind id = v.rows.rowOf kind id := by
  rw [Rows.rowOf, Rows.rowOf, h.named]

theorem idOf (name : String) : v'.rows.idOf kind name = v.rows.idOf kind name := by
  rw [Rows.idOf, Rows.idOf, h.named]

theorem ids : v'.rows.ids kind = v.rows.ids kind := by
  rw [Rows.ids, Rows.ids, h.named]

theorem known (name : String) : v'.known kind name = v.known kind name := by
  rw [View.known, View.known, IdCaches.find, IdCaches.find, h.caches, h.idOf]

theorem resolve (row : kind.Row) : v'.resolve kind row = v.resolve kind row := by
  rw [View.resolve, View.resolve, h.known, Rows.nextId, Rows.nextId, h.ids]

end View.Alike

/-- Both have the same names under the same ids, and remember the same. -/
structure View.SameNames (v v' : View) : Prop where
  named : v'.rows.named = v.rows.named
  caches : v'.caches = v.caches

namespace View.SameNames

theorem refl : v.SameNames v := ⟨rfl, rfl⟩

theorem trans (h : v.SameNames v') (h' : v'.SameNames v'') : v.SameNames v'' :=
  ⟨h'.named.trans h.named, h'.caches.trans h.caches⟩

variable (h : v.SameNames v')

include h

theorem alike (kind : NameKind) : v.Alike kind v' :=
  ⟨congrFun h.named kind, congrFun h.caches kind⟩

theorem resolve (row : kind.Row) : v'.resolve kind row = v.resolve kind row :=
  (h.alike kind).resolve row

theorem lookedUp (row : kind.Row) : (v.lookedUp kind row).SameNames (v'.lookedUp kind row) := by
  unfold View.lookedUp
  rw [h.caches, h.resolve, (h.alike kind).idOf]
  split
  · exact h
  · refine ⟨?_, rfl⟩
    dsimp only
    split
    · exact h.named
    · dsimp only [Rows.insertNamed]
      rw [h.named, Rows.nextId, Rows.nextId, (h.alike kind).ids]

end View.SameNames

variable {row : kind.Row}

theorem View.lookedUp_rows (v : View) (row : kind.Row) : (v.lookedUp kind row).rows =
    if (v.known kind (kind.nameOf row)).isSome then v.rows else v.rows.insertNamed kind row := by
  unfold lookedUp known
  cases v.caches.find kind (kind.nameOf row) with
  | some id => rfl
  | none =>
    simp only [Option.isSome_none, Bool.false_eq_true, if_false, Option.none_or]
    rfl

theorem View.known_lookedUp (v : View) (row : kind.Row) :
    (v.lookedUp kind row).known kind (kind.nameOf row) = some (v.resolve kind row) := by
  cases hfound : v.caches.find kind (kind.nameOf row) with
  | some id => simp [View.lookedUp, View.known, View.resolve, hfound]
  | none =>
    rw [View.known, View.lookedUp, if_neg (by simp [hfound]), IdCaches.find_emplace, if_pos rfl]
    rfl

theorem View.known_lookedUp_of_ne {name : String} (hne : name ≠ kind.nameOf row) :
    (v.lookedUp kind row).known kind name = v.known kind name := by
  have hcaches : (v.lookedUp kind row).caches.find kind name = v.caches.find kind name := by
    unfold View.lookedUp
    split
    · rfl
    · rw [IdCaches.find_emplace, if_neg hne.symm]
  have hrows : (v.lookedUp kind row).rows.idOf kind name = v.rows.idOf kind name := by
    rw [v.lookedUp_rows]
    split
    · rfl
    · simp [Rows.idOf, Rows.insertNamed, hne.symm]
  rw [View.known, View.known, hcaches, hrows]

private theorem View.alike_lookedUp {other : NameKind} (hne : other ≠ kind) (row : kind.Row) :
    v.Alike other (v.lookedUp kind row) := by
  constructor
  · rw [v.lookedUp_rows]
    split
    · rfl
    · exact Function.update_of_ne hne ..
  · unfold View.lookedUp
    split
    · rfl
    · exact Function.update_of_ne hne ..

theorem View.lookedUp_grows (v : View) (row : kind.Row) :
    v.rows.Grows (v.lookedUp kind row).rows := by
  rw [v.lookedUp_rows]
  split
  · exact .refl
  · exact .insertNamed row

theorem View.lookedUp_consistent (h : v.rows.Consistent moveHash) :
    (v.lookedUp kind row).rows.Consistent moveHash := by
  rw [v.lookedUp_rows]
  split
  · exact h
  next hknown =>
    refine h.insertNamed ?_
    simp only [View.known, Option.isSome_or, Bool.or_eq_true, not_or] at hknown
    simpa using hknown.2

theorem View.lookedUp_games (v : View) (row : kind.Row) :
    (v.lookedUp kind row).rows.games = v.rows.games ∧
      (v.lookedUp kind row).rows.gameTags = v.rows.gameTags ∧
      (v.lookedUp kind row).rows.identityIndex = v.rows.identityIndex := by
  rw [v.lookedUp_rows]
  split <;> exact ⟨rfl, rfl, rfl⟩

theorem View.rowOf_resolve (h : (v.lookedUp kind row).rows.Consistent moveHash)
    (hmem : v.resolve kind row ∈ (v.lookedUp kind row).rows.ids kind) :
    ∃ found, (v.lookedUp kind row).rows.rowOf kind (v.resolve kind row) = some found ∧
      (∀ known ∈ v.known kind (kind.nameOf row), v.rows.rowOf kind known = some found) ∧
      (v.known kind (kind.nameOf row) = none → found = row) := by
  obtain ⟨⟨found, frow⟩, hfound, hid⟩ := List.mem_map.mp hmem
  have hrow := h.rowOf_of_mem hfound
  rw [show found = v.resolve kind row from hid] at hrow
  refine ⟨frow, hrow, ?_, ?_⟩
  · intro known hknown
    have hsome : v.known kind (kind.nameOf row) = some known := hknown
    rw [v.lookedUp_rows, if_pos (by simp [hsome]), View.resolve, hsome] at hrow
    exact hrow
  · intro hnone
    have hrows : (v.lookedUp kind row).rows = v.rows.insertNamed kind row := by
      rw [v.lookedUp_rows, if_neg (by simp [hnone])]
    have hnew : (v.rows.nextId kind, row) ∈ (v.lookedUp kind row).rows.named kind := by
      rw [hrows, Rows.insertNamed]
      simp
    have hsame := h.rowOf_of_mem hnew
    rw [View.resolve, hnone, Option.getD_none, hsame] at hrow
    exact (Option.some.inj hrow).symm

end Lookups

section Edited

/-- The update leaves the id of the row alone. -/
def Edit.KeepsId (edit : Edit) : Prop := ∀ v row, (edit.change v row).id = row.id

/-- What some updates do to the row of the game. -/
def View.rewrite (id : ℕ) : List Edit → View → GameRow → GameRow
  | [], _, row => row
  | edit :: edits, v, row => (edit.after id v).rewrite id edits (edit.change v row)

/-- One row of the game table has other columns, and there may be new names. -/
structure View.Rewritten (id : ℕ) (change : GameRow → GameRow) (v v' : View) : Prop where
  grows : v.rows.Grows v'.rows
  games : v'.rows.games = v.rows.games.map fun row => if row.id = id then change row else row
  gameTags : v'.rows.gameTags = v.rows.gameTags
  identityIndex : v'.rows.identityIndex = v.rows.identityIndex

variable {edit : Edit} {edits more : List Edit}

theorem View.Rewritten.trans {f g : GameRow → GameRow} (h : v.Rewritten id f v')
    (hid : ∀ row, (f row).id = row.id) (h' : v'.Rewritten id g v'') :
    v.Rewritten id (fun row => g (f row)) v'' where
  grows := h.grows.trans h'.grows
  games := by
    rw [h'.games, h.games, List.map_map]
    refine List.map_congr_left fun row _ => ?_
    by_cases hrow : row.id = id
    · simp [hrow, hid]
    · simp [hrow]
  gameTags := h'.gameTags.trans h.gameTags
  identityIndex := h'.identityIndex.trans h.identityIndex

theorem Edit.rewritten (v : View) : v.Rewritten id (edit.change v) (edit.after id v) := by
  cases edit with
  | set change => exact ⟨.refl, rfl, rfl, rfl⟩
  | refer kind row change =>
    obtain ⟨hgames, hgameTags, hindex⟩ := v.lookedUp_games row
    refine ⟨v.lookedUp_grows row, ?_, hgameTags, hindex⟩
    simp only [Edit.after, Edit.lookedUp, Edit.change, Rows.updateGame, hgames]

theorem View.rewrite_id (hids : ∀ edit ∈ edits, edit.KeepsId) (v : View) (row : GameRow) :
    (v.rewrite id edits row).id = row.id := by
  induction edits generalizing v row with
  | nil => rfl
  | cons edit edits ih =>
    obtain ⟨hfirst, hrest⟩ := List.forall_mem_cons.mp hids
    exact (ih hrest _ _).trans (hfirst v row)

theorem View.rewritten_edited (hids : ∀ edit ∈ edits, edit.KeepsId) (v : View) :
    v.Rewritten id (v.rewrite id edits) (v.edited id edits) := by
  induction edits generalizing v with
  | nil => exact ⟨.refl, by simp [View.edited, View.rewrite], rfl, rfl⟩
  | cons edit edits ih =>
    obtain ⟨hfirst, hrest⟩ := List.forall_mem_cons.mp hids
    have hboth := (edit.rewritten v).trans (hfirst v) (ih hrest (edit.after id v))
    exact hboth

theorem View.edited_append (v : View) :
    v.edited id (edits ++ more) = (v.edited id edits).edited id more := List.foldl_append ..

private theorem View.rewrite_append (v : View) (row : GameRow) : v.rewrite id (edits ++ more) row =
    (v.edited id edits).rewrite id more (v.rewrite id edits row) := by
  induction edits generalizing v row with
  | nil => rfl
  | cons edit edits ih => exact ih (edit.after id v) (edit.change v row)

end Edited

section Columns

variable (patch : GamePatch) (current : Game)

/-- What a lookup of a name leaves, if there is a name. -/
def View.sought (kind : NameKind) (row : Option kind.Row) (v : View) : View :=
  row.elim v fun row => v.lookedUp kind row

/-- The player that a patch looks up for a side. -/
def renamed (player : Player) (name : Option String) : Option (NameKind.player).Row :=
  name.map fun name => ({ player with name } : Player)

/-- What the lookup of White leaves for the lookup of Black. -/
def View.whiteSought (v : View) : View := v.sought .player (renamed current.white patch.whiteName)

def View.blackSought (v : View) : View :=
  (v.whiteSought patch current).sought .player (renamed current.black patch.blackName)

/-- The event that a patch looks up, if any. -/
def soughtEvent : Option (NameKind.event).Row :=
  if patch.touchesEvent && patch.eventName current.eventDetails != "" then
    some (eventOf patch current.eventDetails)
  else none

/-- What the lookups of a patch leave. -/
def View.eventSought (v : View) : View :=
  (v.blackSought patch current).sought .event (soughtEvent patch current)

/-- The row of the game after the updates of a patch. -/
def View.patchedRow (v : View) (row : GameRow) : GameRow where
  id := row.id
  whiteId := ((renamed current.white patch.whiteName).map fun player =>
    v.resolve .player player).getD row.whiteId
  blackId := ((renamed current.black patch.blackName).map fun player =>
    (v.whiteSought patch current).resolve .player player).getD row.blackId
  eventId := if patch.touchesEvent && patch.eventName current.eventDetails != ""
    then some (v.resolve .event (eventOf patch current.eventDetails)) else row.eventId
  date := patch.date.or row.date
  result := patch.result.getD row.result
  eco := patch.eco.or row.eco
  moves := row.moves
  identityCollision := row.identityCollision
  provenance :=
    { sourceType := row.provenance.sourceType
      sourceLabel := patch.sourceLabel.or row.provenance.sourceLabel
      reviewStatus := patch.reviewStatus.getD row.provenance.reviewStatus }
  whiteElo := patch.whiteElo.or row.whiteElo
  blackElo := patch.blackElo.or row.blackElo

section Groups

variable {α : Type} {value : Option α} {put : α → GameRow → GameRow} {row : GameRow}

private theorem rewrite_set : v.rewrite id (value.toList.map fun a => .set (put a)) row =
    value.elim row fun a => put a row := by
  cases value <;> rfl

theorem View.sameNames_set :
    v.SameNames (v.edited id (value.toList.map fun a => .set (put a))) := by
  cases value <;> exact ⟨rfl, rfl⟩

variable {setId : ℕ → GameRow → GameRow} {setElo : Int32 → GameRow → GameRow} {player : Player}
  {name : Option String} {elo : Option Int32}

private theorem rewrite_side : v.rewrite id (sideEdits setId setElo player name elo) row =
    ((renamed player name).map fun player => v.resolve .player player).elim
      (elo.elim row fun elo => setElo elo row)
      fun playerId => setId playerId (elo.elim row fun elo => setElo elo row) := by
  rw [sideEdits, View.rewrite_append, rewrite_set]
  cases name with
  | none => rfl
  | some name =>
    exact congrArg (fun playerId => setId playerId (elo.elim row fun elo => setElo elo row))
      (View.sameNames_set.resolve _)

private theorem sameNames_side : (v.sought .player (renamed player name)).SameNames
    (v.edited id (sideEdits setId setElo player name elo)) := by
  rw [sideEdits, View.edited_append]
  cases name with
  | none => exact View.sameNames_set
  | some name =>
    have hset := @View.SameNames.lookedUp _ _ .player (@View.sameNames_set v id _ elo setElo)
      { player with name }
    exact hset.trans ⟨rfl, rfl⟩

theorem View.SameNames.sought (h : v.SameNames v') (row : Option kind.Row) :
    (v.sought kind row).SameNames (v'.sought kind row) := by
  cases row with
  | none => exact h
  | some row => exact h.lookedUp row

theorem View.sought_grows (v : View) (row : Option kind.Row) :
    v.rows.Grows (v.sought kind row).rows := by
  cases row with
  | none => exact .refl
  | some row => exact v.lookedUp_grows row

theorem View.sought_consistent (h : v.rows.Consistent moveHash) (row : Option kind.Row) :
    (v.sought kind row).rows.Consistent moveHash := by
  cases row with
  | none => exact h
  | some row => exact View.lookedUp_consistent h

private theorem View.alike_sought {other : NameKind} (hne : other ≠ kind) (row : Option kind.Row) :
    v.Alike other (v.sought kind row) := by
  cases row with
  | none => exact ⟨rfl, rfl⟩
  | some row => exact View.alike_lookedUp hne row

end Groups

variable {patch current}

theorem View.alike_blackSought : v.Alike .event (v.blackSought patch current) :=
  (View.alike_sought (by decide) _).trans (View.alike_sought (by decide) _)

theorem View.alike_eventSought : v.Alike .tag (v.eventSought patch current) :=
  ((View.alike_sought (by decide) _).trans (View.alike_sought (by decide) _)).trans
    (View.alike_sought (by decide) _)

theorem keepsId_editsOf : ∀ edit ∈ editsOf patch current, edit.KeepsId := by
  have hset : ∀ {α : Type} (value : Option α) (put : α → GameRow → GameRow),
      (∀ a row, (put a row).id = row.id) →
        ∀ edit ∈ value.toList.map fun a => Edit.set (put a), edit.KeepsId := by
    intro α value put hput edit hedit
    obtain ⟨a, -, rfl⟩ := List.mem_map.mp hedit
    exact fun _ => hput a
  have hrefer : ∀ (player : Player) (name : Option String) (setId : ℕ → GameRow → GameRow),
      (∀ playerId row, (setId playerId row).id = row.id) → ∀ edit ∈ name.toList.map fun name =>
        Edit.refer .player { player with name } setId, edit.KeepsId := by
    intro player name setId hsetId edit hedit
    obtain ⟨name, -, rfl⟩ := List.mem_map.mp hedit
    exact fun _ => hsetId _
  have hevent : ∀ edit ∈ eventEdits patch current.eventDetails, edit.KeepsId := by
    intro edit hedit
    unfold eventEdits at hedit
    split at hedit
    · obtain rfl := List.mem_singleton.mp hedit
      exact fun _ _ => rfl
    · cases hedit
  simp only [editsOf, whiteEdits, blackEdits, sideEdits, scalarEdits, List.forall_mem_append]
  exact ⟨⟨hset _ _ fun _ _ => rfl, hrefer _ _ _ fun _ _ => rfl⟩,
    ⟨hset _ _ fun _ _ => rfl, hrefer _ _ _ fun _ _ => rfl⟩, hevent, hset _ _ fun _ _ => rfl,
    hset _ _ fun _ _ => rfl, hset _ _ fun _ _ => rfl, hset _ _ fun _ _ => rfl,
    hset _ _ fun _ _ => rfl⟩

private theorem rewrite_scalars (row : GameRow) : v.rewrite id (scalarEdits patch) row =
    { row with
      date := patch.date.or row.date
      result := patch.result.getD row.result
      eco := patch.eco.or row.eco
      provenance :=
        { sourceType := row.provenance.sourceType
          sourceLabel := patch.sourceLabel.or row.provenance.sourceLabel
          reviewStatus := patch.reviewStatus.getD row.provenance.reviewStatus } } := by
  have hdate : ∀ row : GameRow, (patch.date.elim row fun date => { row with date := some date }) =
      { row with date := patch.date.or row.date } := by
    cases patch.date <;> exact fun _ => rfl
  have hresult : ∀ row : GameRow, (patch.result.elim row fun result => { row with result }) =
      { row with result := patch.result.getD row.result } := by
    cases patch.result <;> exact fun _ => rfl
  have heco : ∀ row : GameRow, (patch.eco.elim row fun eco => { row with eco := some eco }) =
      { row with eco := patch.eco.or row.eco } := by
    cases patch.eco <;> exact fun _ => rfl
  have hlabel : ∀ row : GameRow, (patch.sourceLabel.elim row fun label =>
      { row with provenance := { row.provenance with sourceLabel := some label } }) =
      { row with provenance := { row.provenance with
        sourceLabel := patch.sourceLabel.or row.provenance.sourceLabel } } := by
    cases patch.sourceLabel <;> exact fun _ => rfl
  have hstatus : ∀ row : GameRow, (patch.reviewStatus.elim row fun status =>
      { row with provenance := { row.provenance with reviewStatus := status } }) =
      { row with provenance := { row.provenance with
        reviewStatus := patch.reviewStatus.getD row.provenance.reviewStatus } } := by
    cases patch.reviewStatus <;> exact fun _ => rfl
  simp only [scalarEdits, View.rewrite_append, rewrite_set, hdate, hresult, heco, hlabel, hstatus]

private theorem rewrite_white (row : GameRow) :
    v.rewrite id (whiteEdits patch current.white) row =
    { row with
      whiteId := ((renamed current.white patch.whiteName).map fun player =>
        v.resolve .player player).getD row.whiteId
      whiteElo := patch.whiteElo.or row.whiteElo } := by
  rw [whiteEdits, rewrite_side]
  cases renamed current.white patch.whiteName <;> cases patch.whiteElo <;> rfl

private theorem rewrite_black (row : GameRow) :
    v.rewrite id (blackEdits patch current.black) row =
    { row with
      blackId := ((renamed current.black patch.blackName).map fun player =>
        v.resolve .player player).getD row.blackId
      blackElo := patch.blackElo.or row.blackElo } := by
  rw [blackEdits, rewrite_side]
  cases renamed current.black patch.blackName <;> cases patch.blackElo <;> rfl

private theorem rewrite_event (row : GameRow) :
    v.rewrite id (eventEdits patch current.eventDetails) row =
    { row with eventId := if patch.touchesEvent && patch.eventName current.eventDetails != ""
        then some (v.resolve .event (eventOf patch current.eventDetails)) else row.eventId } := by
  unfold eventEdits
  split <;> rfl

theorem View.sameNames_white :
    (v.whiteSought patch current).SameNames (v.edited id (whiteEdits patch current.white)) :=
  sameNames_side

theorem View.sameNames_black : (v.blackSought patch current).SameNames
    (v.edited id (whiteEdits patch current.white ++ blackEdits patch current.black)) := by
  rw [View.edited_append]
  exact (View.sameNames_white.sought _).trans sameNames_side

private theorem View.sameNames_event : (v.eventSought patch current).SameNames
    (v.edited id (whiteEdits patch current.white ++ (blackEdits patch current.black ++
      eventEdits patch current.eventDetails))) := by
  rw [← List.append_assoc, View.edited_append]
  refine ((@View.sameNames_black v id patch current).sought _).trans ?_
  unfold soughtEvent eventEdits
  split
  · exact ⟨rfl, rfl⟩
  · exact .refl

theorem View.sameNames_editsOf :
    (v.eventSought patch current).SameNames (v.edited id (editsOf patch current)) := by
  have hscalars : ∀ v : View, v.SameNames (v.edited id (scalarEdits patch)) := by
    intro v
    simp only [scalarEdits, View.edited_append]
    exact View.sameNames_set.trans (View.sameNames_set.trans (View.sameNames_set.trans
      (View.sameNames_set.trans View.sameNames_set)))
  have happend : editsOf patch current = (whiteEdits patch current.white ++
      (blackEdits patch current.black ++ eventEdits patch current.eventDetails)) ++
        scalarEdits patch := by
    simp only [editsOf, List.append_assoc]
  rw [happend, View.edited_append]
  exact View.sameNames_event.trans (hscalars _)

theorem View.rewrite_editsOf (v : View) (row : GameRow) :
    v.rewrite id (editsOf patch current) row = v.patchedRow patch current row := by
  have hblack := @View.sameNames_black v id patch current
  rw [View.edited_append] at hblack
  simp only [editsOf, View.rewrite_append, rewrite_white, rewrite_black, rewrite_event,
    rewrite_scalars, hblack.resolve, View.alike_blackSought.resolve,
    View.sameNames_white.resolve]
  rfl

end Columns

section Referred

variable {patch : GamePatch} {current : Game} {row : GameRow}

private theorem View.Admits.edited {edits more : List Edit}
    (h : v.Admits moveHash id patch current) (happend : editsOf patch current = edits ++ more) :
    (v.edited id edits).rows.Consistent moveHash := by
  have hprefix := h.1 edits.length
  rw [happend, List.take_left] at hprefix
  exact hprefix

private theorem mem_edited {edits more : List Edit} (happend : editsOf patch current = edits ++ more)
    (hrow : row ∈ v.rows.games) :
    v.rewrite row.id edits row ∈ (v.edited row.id edits).rows.games := by
  have hids : ∀ edit ∈ edits, edit.KeepsId := by
    intro edit hedit
    exact @keepsId_editsOf patch current edit (happend ▸ List.mem_append_left _ hedit)
  rw [(View.rewritten_edited hids v).games]
  exact List.mem_map.mpr ⟨row, hrow, if_pos rfl⟩

theorem View.Admits.white_mem (h : v.Admits moveHash row.id patch current) (hrow : row ∈ v.rows.games)
    {player : Player} (hplayer : renamed current.white patch.whiteName = some player) :
    v.resolve .player player ∈ (v.whiteSought patch current).rows.ids .player := by
  have happend : editsOf patch current = whiteEdits patch current.white ++ _ := rfl
  have hmem := ((h.edited happend).players _ (mem_edited happend hrow)).1
  rw [rewrite_white, hplayer] at hmem
  rw [← (View.sameNames_white.alike _).ids]
  exact hmem

theorem View.Admits.black_mem (h : v.Admits moveHash row.id patch current) (hrow : row ∈ v.rows.games)
    {player : Player} (hplayer : renamed current.black patch.blackName = some player) :
    (v.whiteSought patch current).resolve .player player ∈
      (v.blackSought patch current).rows.ids .player := by
  have happend : editsOf patch current =
      (whiteEdits patch current.white ++ blackEdits patch current.black) ++
        (eventEdits patch current.eventDetails ++ scalarEdits patch) := by
    simp only [editsOf, List.append_assoc]
  have hmem := ((h.edited happend).players _ (mem_edited happend hrow)).2
  rw [View.rewrite_append, rewrite_black, hplayer] at hmem
  rw [← (View.sameNames_black.alike _).ids,
    ← @View.SameNames.resolve _ _ .player (@View.sameNames_white v row.id patch current)]
  exact hmem

theorem View.Admits.event_mem (h : v.Admits moveHash row.id patch current) (hrow : row ∈ v.rows.games)
    {event : Event} (hevent : soughtEvent patch current = some event) :
    v.resolve .event event ∈ (v.eventSought patch current).rows.ids .event := by
  have happend : editsOf patch current = (whiteEdits patch current.white ++
      (blackEdits patch current.black ++ eventEdits patch current.eventDetails)) ++
        scalarEdits patch := by
    simp only [editsOf, List.append_assoc]
  have hmem := (h.edited happend).events _ (mem_edited happend hrow) (v.resolve .event event) (by
    unfold soughtEvent at hevent
    split_ifs at hevent with hsought
    rw [View.rewrite_append, View.rewrite_append, rewrite_event, if_pos hsought]
    obtain rfl := Option.some.inj hevent
    have hblack := @View.sameNames_black v row.id patch current
    rw [View.edited_append] at hblack
    rw [hblack.resolve, View.alike_blackSought.resolve]
    rfl)
  rw [← (View.sameNames_event.alike _).ids]
  exact hmem

end Referred

end MotifChess.Db.Store
