/- GID: MotifChess/Db/Store/PatchAdmits
   generality: implementation
   digest: When no statement of a patch breaks a constraint, in terms of the rows before it. -/

import MotifChess.Db.Store.PatchedRows

set_option autoImplicit false
set_option relaxedAutoImplicit false

namespace MotifChess.Db.Store

variable {moveHash : List UInt16 → UInt64} {v v' : View} {kind : NameKind} {row : GameRow}

section Conditions

variable (moveHash)

/-- No other game has the index entry of the row. -/
def Rows.Free (row : GameRow) (rows : Rows) : Prop :=
  ∀ other ∈ rows.games, other.id ≠ row.id →
    (other.slot moveHash, other.identityCollision) ≠ (row.slot moveHash, row.identityCollision)

instance (rows : Rows) : Decidable (rows.Free moveHash row) := by
  unfold Rows.Free
  infer_instance

/-- The id that is remembered or stored for a name has a row. -/
def View.Finds (kind : NameKind) (name : String) (v : View) : Prop :=
  ∀ id ∈ v.known kind name, id ∈ v.rows.ids kind

instance (kind : NameKind) (name : String) (v : View) : Decidable (v.Finds kind name) := by
  unfold View.Finds
  infer_instance

/-- Every lookup of a patch leads to a row. -/
structure View.FindsNames (patch : GamePatch) (current : Game) (v : View) : Prop where
  white : ∀ name ∈ patch.whiteName, v.Finds .player name
  black : ∀ name ∈ patch.blackName, (v.whiteSought patch current).Finds .player name
  event : ∀ event ∈ soughtEvent patch current, v.Finds .event event.name

/-- No other game ever has the index entry that the game has after some of the updates. -/
def View.NeverTaken (row : GameRow) (patch : GamePatch) (current : Game) (v : View) : Prop :=
  ∀ n, v.rows.Free moveHash (v.rewrite row.id ((editsOf patch current).take n) row)

/-- New notes lead to a row, and no other tag of the game has it. -/
def View.NotesFree (id : ℕ) (notes : Option String) (v : View) : Prop :=
  ∀ text ∈ notes, text ≠ "" → v.Finds .tag "_notes" ∧
    ∀ tag ∈ v.rows.gameTags, tag.gameId = id → v.known .tag "_notes" = some tag.tagId →
      v.rows.idOf .tag "_notes" = some tag.tagId

end Conditions

section Lookups

variable {sought : kind.Row}

private theorem View.finds_iff : v.Finds kind (kind.nameOf sought) ↔
    v.resolve kind sought ∈ (v.lookedUp kind sought).rows.ids kind := by
  unfold View.Finds View.resolve
  rw [v.lookedUp_rows]
  cases v.known kind (kind.nameOf sought) with
  | some id => simp
  | none => simp [Rows.ids, Rows.insertNamed]

theorem View.Alike.finds (h : v.Alike kind v') (name : String) :
    v'.Finds kind name ↔ v.Finds kind name := by
  rw [View.Finds, View.Finds, h.known, h.ids]

end Lookups

section Updates

/-- What the update refers to is there. -/
def Edit.Refers (v : View) : Edit → Prop
  | .set _ => True
  | .refer kind row _ => v.Finds kind (kind.nameOf row)

/-- The updates that a patch is made of: those of one column that refers to nothing, and those of
the players and the event. -/
inductive Edit.OfPatch : Edit → Prop
  | set {change : GameRow → GameRow} (hid : ∀ row, (change row).id = row.id)
      (hnames : KeepsNames change) : (Edit.set change).OfPatch
  | white (player : Player) :
      (Edit.refer .player player fun id row => { row with whiteId := id }).OfPatch
  | black (player : Player) :
      (Edit.refer .player player fun id row => { row with blackId := id }).OfPatch
  | event (event : Event) :
      (Edit.refer .event event fun id row => { row with eventId := some id }).OfPatch

variable {edit : Edit} {edits more : List Edit}

private theorem Edit.OfPatch.keepsId (h : edit.OfPatch) : edit.KeepsId := by
  cases h with
  | set hid => exact fun _ => hid
  | white | black | event => exact fun _ _ => rfl

private theorem Edit.lookedUp_consistent (h : v.rows.Consistent moveHash) :
    (edit.lookedUp v).rows.Consistent moveHash ∧
      (edit.lookedUp v).rows.games = v.rows.games ∧
      (edit.lookedUp v).rows.identityIndex = v.rows.identityIndex := by
  cases edit with
  | set change => exact ⟨h, rfl, rfl⟩
  | refer kind row change =>
    obtain ⟨hgames, -, hindex⟩ := v.lookedUp_games row
    exact ⟨View.lookedUp_consistent h, hgames, hindex⟩

private theorem Edit.OfPatch.refers_iff (h : edit.OfPatch) (hv : v.rows.Consistent moveHash)
    (hrow : row ∈ v.rows.games) : edit.Refers v ↔
      ((edit.change v row).whiteId ∈ (edit.lookedUp v).rows.ids .player ∧
        (edit.change v row).blackId ∈ (edit.lookedUp v).rows.ids .player) ∧
      ∀ id ∈ (edit.change v row).eventId, id ∈ (edit.lookedUp v).rows.ids .event := by
  have hgrows : v.rows.Grows (edit.lookedUp v).rows := by
    cases edit with
    | set change => exact .refl
    | refer kind row change => exact v.lookedUp_grows row
  obtain ⟨hwhite, hblack⟩ := hv.players row hrow
  have hwhite := hgrows.ids_subset .player hwhite
  have hblack := hgrows.ids_subset .player hblack
  have hevent : ∀ id ∈ row.eventId, id ∈ (edit.lookedUp v).rows.ids .event :=
    fun id hid => hgrows.ids_subset .event (hv.events row hrow id hid)
  cases h with
  | set hid hnames =>
    simp only [Edit.Refers, Edit.change, hnames.white, hnames.black, hnames.event, true_iff]
    exact ⟨⟨hwhite, hblack⟩, hevent⟩
  | white player => exact View.finds_iff.trans ⟨fun h => ⟨⟨h, hblack⟩, hevent⟩, fun h => h.1.1⟩
  | black player => exact View.finds_iff.trans ⟨fun h => ⟨⟨hwhite, h⟩, hevent⟩, fun h => h.1.2⟩
  | event event =>
    refine View.finds_iff.trans ⟨fun h => ⟨⟨hwhite, hblack⟩, ?_⟩, fun h => h.2 _ rfl⟩
    rintro id ⟨⟩
    exact h

/-- An update breaks no constraint exactly when what it refers to is there and the new index entry is
free. -/
private theorem Edit.OfPatch.consistent_iff (h : edit.OfPatch) (hv : v.rows.Consistent moveHash)
    (hrow : row ∈ v.rows.games) : (edit.after row.id v).rows.Consistent moveHash ↔
      edit.Refers v ∧ (v.rows.identityIndex = true → v.rows.Free moveHash (edit.change v row)) := by
  obtain ⟨hlooked, hgames, hindex⟩ := @Edit.lookedUp_consistent moveHash v edit hv
  have hid := h.keepsId v row
  have hone : ∀ found ∈ v.rows.games, found.id = row.id → found = row := fun found hfound hsame =>
    List.inj_on_of_nodup_map hv.gameIds hfound hrow hsame
  rw [h.refers_iff hv hrow]
  constructor
  · intro hafter
    have hmem : edit.change v row ∈ (edit.after row.id v).rows.games := by
      rw [(edit.rewritten v).games]
      exact List.mem_map.mpr ⟨row, hrow, if_pos rfl⟩
    refine ⟨⟨hafter.players _ hmem, hafter.events _ hmem⟩, fun hexists other hother hne hsame => ?_⟩
    have hother' : other ∈ (edit.after row.id v).rows.games := by
      rw [(edit.rewritten v).games]
      exact List.mem_map.mpr ⟨other, hother, if_neg (hid ▸ hne)⟩
    have hkeys := hafter.index ((edit.rewritten v).identityIndex.trans hexists)
    exact hne (congrArg GameRow.id (List.inj_on_of_nodup_map hkeys hother' hmem hsame))
  · rintro ⟨⟨hplayers, hevents⟩, hfree⟩
    refine hlooked.updateGame (h.keepsId v) ?_ ?_ ?_
    · rw [hgames]
      intro found hfound hsame
      rw [hone found hfound hsame]
      exact hplayers
    · rw [hgames]
      intro found hfound hsame
      rw [hone found hfound hsame]
      exact hevents
    · rw [hgames, hindex]
      intro hexists found hfound hsame other hother hne
      rw [hone found hfound hsame]
      exact hfree hexists other hother (hid.symm ▸ hne)

private theorem Edit.free_after {other : GameRow} (hid : edit.KeepsId) (hsame : other.id = row.id) :
    (edit.after row.id v).rows.Free moveHash other ↔ v.rows.Free moveHash other := by
  unfold Rows.Free
  rw [(edit.rewritten v).games, hsame, List.forall_mem_map]
  refine forall₂_congr fun found _ => ?_
  by_cases hfound : found.id = row.id
  · rw [if_pos hfound, hid v found]
    exact iff_of_true (fun hne => absurd hfound hne) fun hne => absurd hfound hne
  · rw [if_neg hfound]

/-- What the updates refer to is there when each is made. -/
def View.AllRefer (id : ℕ) : List Edit → View → Prop
  | [], _ => True
  | edit :: edits, v => edit.Refers v ∧ (edit.after id v).AllRefer id edits

/-- A run of updates never breaks a constraint exactly when each refers to what is there, and no other
game has the index entry after any of them. -/
private theorem View.edited_consistent_iff (hedits : ∀ edit ∈ edits, edit.OfPatch)
    (hv : v.rows.Consistent moveHash) (hrow : row ∈ v.rows.games) :
    (∀ n, (v.edited row.id (edits.take n)).rows.Consistent moveHash) ↔
      v.AllRefer row.id edits ∧ (v.rows.identityIndex = true →
        ∀ n, v.rows.Free moveHash (v.rewrite row.id (edits.take n) row)) := by
  have hself : v.rows.identityIndex = true → v.rows.Free moveHash row := by
    intro hexists other hother hne hsame
    exact hne (congrArg GameRow.id (List.inj_on_of_nodup_map (hv.index hexists) hother hrow hsame))
  induction edits generalizing v row with
  | nil =>
    simp only [List.take_nil, View.edited, List.foldl_nil, View.rewrite, View.AllRefer, true_and]
    exact iff_of_true (fun _ => hv) fun hexists _ => hself hexists
  | cons edit edits ih =>
    obtain ⟨hfirst, hrest⟩ := List.forall_mem_cons.mp hedits
    have hid := hfirst.keepsId
    have hstep := hfirst.consistent_iff hv hrow
    have hmem : edit.change v row ∈ (edit.after row.id v).rows.games := by
      rw [(edit.rewritten v).games]
      exact List.mem_map.mpr ⟨row, hrow, if_pos rfl⟩
    have hindex := (@Edit.rewritten row.id edit v).identityIndex
    have hlater := fun hafter : (edit.after row.id v).rows.Consistent moveHash =>
      @ih (edit.after row.id v) (edit.change v row) hrest hafter hmem (by
        intro hexists other hother hne hsame
        exact hne (congrArg GameRow.id
          (List.inj_on_of_nodup_map (hafter.index hexists) hother hmem hsame)))
    rw [hid v row, hindex] at hlater
    have hfree : ∀ n, (edit.after row.id v).rows.Free moveHash
        ((edit.after row.id v).rewrite row.id (edits.take n) (edit.change v row)) ↔
          v.rows.Free moveHash
            ((edit.after row.id v).rewrite row.id (edits.take n) (edit.change v row)) := fun n =>
      Edit.free_after hid ((View.rewrite_id (fun edit hedit =>
        (hrest edit (List.mem_of_mem_take hedit)).keepsId) _ _).trans (hid v row))
    simp only [hfree] at hlater
    constructor
    · intro hall
      obtain ⟨hrefers, hfirstFree⟩ := hstep.mp (hall 1)
      obtain ⟨hrefer, hnever⟩ := (hlater (hall 1)).mp fun n => hall (n + 1)
      refine ⟨⟨hrefers, hrefer⟩, fun hexists n => ?_⟩
      cases n with
      | zero => exact hself hexists
      | succ n => exact hnever hexists n
    · rintro ⟨⟨hrefers, hrefer⟩, hnever⟩ n
      have hafter := hstep.mpr ⟨hrefers, fun hexists => hnever hexists 1⟩
      cases n with
      | zero => exact hv
      | succ n =>
        exact (hlater hafter).mpr ⟨hrefer, fun hexists n => hnever hexists (n + 1)⟩ n

private theorem View.allRefer_append {id : ℕ} : v.AllRefer id (edits ++ more) ↔
    v.AllRefer id edits ∧ (v.edited id edits).AllRefer id more := by
  induction edits generalizing v with
  | nil => simp [View.AllRefer, View.edited]
  | cons edit edits ih =>
    simp only [List.cons_append, View.AllRefer, ih, and_assoc]
    rfl

end Updates

section Patches

variable {patch : GamePatch} {current : Game} {id : ℕ}

private theorem ofPatch_editsOf : ∀ edit ∈ editsOf patch current, edit.OfPatch := by
  have hset : ∀ {α : Type} (value : Option α) (put : α → GameRow → GameRow),
      (∀ a row, (put a row).id = row.id) → (∀ a, KeepsNames (put a)) →
        ∀ edit ∈ value.toList.map fun a => Edit.set (put a), edit.OfPatch := by
    intro α value put hid hnames edit hedit
    obtain ⟨a, -, rfl⟩ := List.mem_map.mp hedit
    exact .set (hid a) (hnames a)
  have hplayer : ∀ (player : Player) (name : Option String) (setId : ℕ → GameRow → GameRow),
      (∀ player, (Edit.refer .player player setId).OfPatch) → ∀ edit ∈ name.toList.map fun name =>
        Edit.refer .player { player with name } setId, edit.OfPatch := by
    intro player name setId hrefer edit hedit
    obtain ⟨name, -, rfl⟩ := List.mem_map.mp hedit
    exact hrefer _
  have hevent : ∀ edit ∈ eventEdits patch current.eventDetails, edit.OfPatch := by
    intro edit hedit
    unfold eventEdits at hedit
    split at hedit
    · obtain rfl := List.mem_singleton.mp hedit
      exact .event _
    · cases hedit
  have hkept : ∀ {α : Type} {put : α → GameRow → GameRow}, (∀ a row, (put a row).whiteId = row.whiteId) →
      (∀ a row, (put a row).blackId = row.blackId) →
      (∀ a row, (put a row).eventId = row.eventId) → ∀ a, KeepsNames (put a) :=
    fun hwhite hblack hevent a => ⟨hwhite a, hblack a, hevent a⟩
  simp only [editsOf, whiteEdits, blackEdits, sideEdits, scalarEdits, List.forall_mem_append]
  refine ⟨⟨hset _ _ ?_ (hkept ?_ ?_ ?_), hplayer _ _ _ .white⟩,
    ⟨hset _ _ ?_ (hkept ?_ ?_ ?_), hplayer _ _ _ .black⟩, hevent, hset _ _ ?_ (hkept ?_ ?_ ?_),
    hset _ _ ?_ (hkept ?_ ?_ ?_), hset _ _ ?_ (hkept ?_ ?_ ?_), hset _ _ ?_ (hkept ?_ ?_ ?_),
    hset _ _ ?_ (hkept ?_ ?_ ?_)⟩
  all_goals exact fun _ _ => rfl

private theorem allRefer_set {α : Type} {value : Option α} {put : α → GameRow → GameRow} :
    v.AllRefer id (value.toList.map fun a => .set (put a)) := by
  cases value with
  | none => trivial
  | some a => exact ⟨trivial, trivial⟩

private theorem allRefer_side {setId : ℕ → GameRow → GameRow} {setElo : Int32 → GameRow → GameRow}
    {player : Player} {name : Option String} {elo : Option Int32} :
    v.AllRefer id (sideEdits setId setElo player name elo) ↔
      ∀ text ∈ name, v.Finds .player text := by
  rw [sideEdits, View.allRefer_append, and_iff_right allRefer_set]
  cases name with
  | none => simp [View.AllRefer]
  | some text =>
    have hnames := @View.sameNames_set v id _ elo setElo
    simp only [Option.toList_some, List.map_singleton, View.AllRefer, and_true, Edit.Refers,
      (hnames.alike .player).finds, Option.mem_some_iff, forall_eq']
    rfl

private theorem View.allRefer_editsOf :
    v.AllRefer id (editsOf patch current) ↔ v.FindsNames patch current := by
  have hscalars : ∀ v : View, v.AllRefer id (scalarEdits patch) := by
    intro v
    simp only [scalarEdits, View.allRefer_append]
    exact ⟨allRefer_set, allRefer_set, allRefer_set, allRefer_set, allRefer_set⟩
  have hevent : ∀ v : View, v.AllRefer id (eventEdits patch current.eventDetails) ↔
      ∀ event ∈ soughtEvent patch current, v.Finds .event event.name := by
    intro v
    unfold eventEdits soughtEvent
    split
    · simp only [View.AllRefer, and_true, Edit.Refers, Option.mem_some_iff, forall_eq']
      rfl
    · simp [View.AllRefer]
  have hwhite := @View.sameNames_white v id patch current
  have hblack := @View.sameNames_black v id patch current
  rw [View.edited_append] at hblack
  have halike := @View.alike_blackSought v patch current
  simp only [editsOf, View.allRefer_append, hscalars, hevent, and_true, whiteEdits, blackEdits,
    allRefer_side]
  simp only [whiteEdits, blackEdits] at hwhite hblack
  simp only [(hwhite.alike .player).finds, (hblack.alike .event).finds, halike.finds]
  constructor
  · rintro ⟨hwhiteName, hblackName, heventName⟩
    exact ⟨hwhiteName, hblackName, heventName⟩
  · rintro ⟨hwhiteName, hblackName, heventName⟩
    exact ⟨hwhiteName, hblackName, heventName⟩

private theorem View.noted_consistent_iff {notes : Option String} (hv : v.rows.Consistent moveHash)
    (hid : id ∈ v.rows.games.map GameRow.id) :
    (v.noted id notes).rows.Consistent moveHash ↔ v.NotesFree id notes := by
  cases notes with
  | none => exact iff_of_true hv nofun
  | some notes =>
    have hcleared := @Rows.Consistent.deleteGameTags moveHash v.rows id hv "_notes"
    let cleared : View := { v with rows := v.rows.deleteGameTags id "_notes" }
    by_cases hempty : notes = ""
    · rw [show v.noted id (some notes) = cleared from if_pos hempty]
      refine iff_of_true hcleared ?_
      rintro text ⟨⟩ hne
      exact absurd hempty hne
    · have hnames : v.SameNames cleared := ⟨rfl, rfl⟩
      rw [show v.noted id (some notes) = { cleared.lookedUp .tag "_notes" with
        rows := (cleared.lookedUp .tag "_notes").rows.insertGameTag
          ⟨id, cleared.resolve .tag "_notes", notes⟩ } from if_neg hempty]
      obtain ⟨hgames, hgameTags, -⟩ := @View.lookedUp_games .tag cleared "_notes"
      have hfinds := (@View.finds_iff cleared .tag "_notes").symm.trans ((hnames.alike .tag).finds "_notes")
      have hmem : ∀ tag : GameTagRow, tag ∈ cleared.rows.gameTags ↔ tag ∈ v.rows.gameTags ∧
          (tag.gameId = id → v.rows.idOf .tag "_notes" ≠ some tag.tagId) := by
        intro tag
        simp [cleared, Rows.deleteGameTags, imp_iff_not_or]
      constructor
      · rintro hinserted text ⟨⟩ -
        have hlast := hinserted.tagged ⟨id, cleared.resolve .tag "_notes", notes⟩
          (by simp [Rows.insertGameTag])
        refine ⟨hfinds.mp hlast.2, fun tag htag hgame hknown => ?_⟩
        by_contra hother
        have hkept : tag ∈ (cleared.lookedUp .tag "_notes").rows.gameTags := by
          rw [hgameTags]
          exact (hmem tag).mpr ⟨htag, fun _ => hother⟩
        have hresolve : cleared.resolve .tag "_notes" = tag.tagId := by
          rw [hnames.resolve, View.resolve]
          exact congrArg (Option.getD · _) hknown
        have hkeys := hinserted.tagKeys
        rw [Rows.insertGameTag, List.map_append] at hkeys
        refine List.disjoint_of_nodup_append hkeys (List.mem_map.mpr ⟨tag, hkept, rfl⟩) ?_
        rw [List.map_singleton, List.mem_singleton, hgame, hresolve]
      · intro hfree
        obtain ⟨hfound, hlone⟩ := hfree notes rfl hempty
        refine (View.lookedUp_consistent hcleared).insertGameTag ?_ (hfinds.mpr hfound) ?_
        · rw [hgames]
          exact hid
        · rw [hgameTags]
          intro tag htag hgame hsame
          obtain ⟨htag, hkept⟩ := (hmem tag).mp htag
          rw [hnames.resolve] at hsame
          cases hknown : v.known .tag "_notes" with
          | some known =>
            have hid : v.resolve .tag "_notes" = known := by
              rw [View.resolve]
              exact congrArg (Option.getD · _) hknown
            exact hkept hgame (hlone tag htag hgame (by rw [hknown, hsame, hid]))
          | none =>
            have hid : v.resolve .tag "_notes" = v.rows.nextId .tag := by
              rw [View.resolve]
              exact congrArg (Option.getD · _) hknown
            have hthere := (hv.tagged tag htag).2
            rw [hsame, hid] at hthere
            exact Rows.nextRowId_notMem _ hthere

private theorem notesFree_editsOf {notes : Option String} :
    (v.edited id (editsOf patch current)).NotesFree id notes ↔ v.NotesFree id notes := by
  have hkeeps : ∀ edit ∈ editsOf patch current, edit.KeepsId := keepsId_editsOf
  have hedited := @View.rewritten_edited id _ hkeeps v
  have halike : v.Alike .tag (v.edited id (editsOf patch current)) :=
    View.alike_eventSought.trans (View.sameNames_editsOf.alike _)
  unfold View.NotesFree
  rw [hedited.gameTags, halike.finds, halike.known, halike.idOf]

/-- None of the statements of a patch breaks a constraint exactly when its lookups lead to rows, no
other game has the index entry of its game on the way, and new notes have a tag of their own. -/
theorem View.admits_iff (hv : v.rows.Consistent moveHash) (hrow : row ∈ v.rows.games) :
    v.Admits moveHash row.id patch current ↔ v.FindsNames patch current ∧
      (v.rows.identityIndex = true → v.NeverTaken moveHash row patch current) ∧
        v.NotesFree row.id patch.notes := by
  have hedits := View.edited_consistent_iff (@ofPatch_editsOf patch current) hv hrow
  rw [View.allRefer_editsOf] at hedits
  have hkeeps : ∀ edit ∈ editsOf patch current, edit.KeepsId := keepsId_editsOf
  have hedited := @View.rewritten_edited row.id _ hkeeps v
  have hnotes : (∀ n, (v.edited row.id ((editsOf patch current).take n)).rows.Consistent moveHash) →
      ((v.patched row.id patch current).rows.Consistent moveHash ↔
        v.NotesFree row.id patch.notes) := by
    intro hall
    have hwhole := hall (editsOf patch current).length
    rw [List.take_length] at hwhole
    have hid : row.id ∈ (v.edited row.id (editsOf patch current)).rows.games.map GameRow.id := by
      rw [hedited.games, List.map_map]
      refine List.mem_map.mpr ⟨row, hrow, ?_⟩
      rw [Function.comp_apply, if_pos rfl, View.rewrite_id hkeeps]
    rw [View.patched, View.noted_consistent_iff hwhole hid]
    exact notesFree_editsOf
  constructor
  · rintro ⟨hall, hpatched⟩
    obtain ⟨hfinds, hnever⟩ := hedits.mp hall
    exact ⟨hfinds, hnever, (hnotes hall).mp hpatched⟩
  · rintro ⟨hfinds, hnever, hfree⟩
    have hall := hedits.mpr ⟨hfinds, hnever⟩
    exact ⟨hall, (hnotes hall).mpr hfree⟩

end Patches

end MotifChess.Db.Store
