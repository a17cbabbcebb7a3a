/- GID: MotifChess/Db/Store/PatchedGames
   generality: implementation
   digest: What a metadata patch changes, and when every field comes out as the patch says. -/

import MotifChess.Db.Store.PatchedRows

set_option autoImplicit false
set_option relaxedAutoImplicit false

namespace MotifChess.Db

/-- The game reads as the patch says where the patch says something, and as before elsewhere.
A player who was renamed may bring another title and country. -/
structure GamePatch.PatchedBy (patch : GamePatch) (game patched : Game) : Prop where
  whiteName : patched.white.name = patch.whiteName.getD game.white.name
  whiteElo : patched.white.elo = patch.whiteElo.or game.white.elo
  whiteKept : patch.whiteName = none → patched.white.title = game.white.title ∧
    patched.white.country = game.white.country
  blackName : patched.black.name = patch.blackName.getD game.black.name
  blackElo : patched.black.elo = patch.blackElo.or game.black.elo
  blackKept : patch.blackName = none → patched.black.title = game.black.title ∧
    patched.black.country = game.black.country
  eventName : patched.eventDetails.map Event.name = patch.event.or (game.eventDetails.map Event.name)
  eventSite : patched.eventDetails.bind Event.site = patch.site.or (game.eventDetails.bind Event.site)
  eventDate : patched.eventDetails.bind Event.date = game.eventDetails.bind Event.date
  date : patched.date = patch.date.or game.date
  result : patched.result = patch.result.getD game.result
  eco : patched.eco = patch.eco.or game.eco
  moves : patched.moves = game.moves
  sourceType : patched.provenance.sourceType = game.provenance.sourceType
  sourceLabel : patched.provenance.sourceLabel = patch.sourceLabel.or game.provenance.sourceLabel
  reviewStatus : patched.provenance.reviewStatus = patch.reviewStatus.getD game.provenance.reviewStatus
  extraTags : patched.extraTags = patch.replacedTags game.extraTags

namespace Store

open MotifChess.Codec MotifChess.System

variable {moveHash : List UInt16 → UInt64}

section Conditions

/-- The name has no NUL, and if an id is remembered for it or has it, the row of that id is read under
that name. -/
def View.Leads (kind : NameKind) (name : String) (v : View) : Prop :=
  cString name = name ∧ ∀ id ∈ v.known kind name, (v.rows.nameIn kind id).map cString = some name

/-- What a patch asks of the event: nothing when it results in no event name, and otherwise an event
without NULs that nobody knows yet, or that is known as the patch wants it. -/
def View.EventFits (patch : GamePatch) (details : Option Event) (v : View) : Prop :=
  if patch.eventName details = "" then
    patch.event.or (details.map Event.name) = details.map Event.name ∧
      patch.site.or (details.bind Event.site) = details.bind Event.site
  else
    (eventOf patch details).read = eventOf patch details ∧
      ∀ id ∈ v.known .event (patch.eventName details),
        (v.rows.rowOf .event id).map Event.read = some (eventOf patch details)

/-- What a patch asks of the notes: no other tag of the game is read under their name, and new notes
have no NUL and get the tag of that name. -/
def View.NotesFit (id : ℕ) (notes : String) (v : View) : Prop :=
  (∀ tag ∈ v.rows.extraTagsOf id, cString tag.1 = "_notes" → tag.1 = "_notes") ∧
    (notes ≠ "" → cString notes = notes ∧ v.Leads .tag "_notes")

/-- What is remembered and stored under the names of a patch is what the patch means. -/
structure View.Fits (id : ℕ) (patch : GamePatch) (current : Game) (v : View) : Prop where
  white : ∀ name ∈ patch.whiteName, v.Leads .player name
  black : ∀ name ∈ patch.blackName, v.Leads .player name
  event : patch.touchesEvent = true → v.EventFits patch current.eventDetails
  date : ∀ date ∈ patch.date, cString date = date
  result : ∀ result ∈ patch.result, cString result = result
  eco : ∀ eco ∈ patch.eco, cString eco = eco
  sourceLabel : ∀ label ∈ patch.sourceLabel, cString label = label
  reviewStatus : ∀ status ∈ patch.reviewStatus, cString status = status
  notes : ∀ notes ∈ patch.notes, v.NotesFit id notes

variable {kind : NameKind} {name notes : String} {patch : GamePatch} {v : View} {id : ℕ}

instance : Decidable (v.Leads kind name) := by
  unfold View.Leads
  infer_instance

instance {details : Option Event} : Decidable (v.EventFits patch details) := by
  unfold View.EventFits
  infer_instance

instance : Decidable (v.NotesFit id notes) := by
  unfold View.NotesFit
  infer_instance

instance {current : Game} : Decidable (v.Fits id patch current) :=
  decidable_of_iff (
    (∀ name ∈ patch.whiteName, v.Leads .player name) ∧
    (∀ name ∈ patch.blackName, v.Leads .player name) ∧
    (patch.touchesEvent = true → v.EventFits patch current.eventDetails) ∧
    (∀ date ∈ patch.date, cString date = date) ∧
    (∀ result ∈ patch.result, cString result = result) ∧
    (∀ eco ∈ patch.eco, cString eco = eco) ∧
    (∀ label ∈ patch.sourceLabel, cString label = label) ∧
    (∀ status ∈ patch.reviewStatus, cString status = status) ∧
    (∀ notes ∈ patch.notes, v.NotesFit id notes))
    ⟨fun ⟨h₁, h₂, h₃, h₄, h₅, h₆, h₇, h₈, h₉⟩ => ⟨h₁, h₂, h₃, h₄, h₅, h₆, h₇, h₈, h₉⟩,
      fun ⟨h₁, h₂, h₃, h₄, h₅, h₆, h₇, h₈, h₉⟩ => ⟨h₁, h₂, h₃, h₄, h₅, h₆, h₇, h₈, h₉⟩⟩

end Conditions

section Reading

variable {rows rows' : Rows} {row : GameRow} {white black : Player}

/-- The row of a game with its players, as `get` reads it. -/
def Rows.readGame (row : GameRow) (white black : Player) (rows : Rows) : Game := Game.read {
  white := { white with elo := row.whiteElo }
  black := { black with elo := row.blackElo }
  eventDetails := row.eventId.bind fun id => rows.rowOf .event id
  date := row.date
  result := row.result
  eco := row.eco
  moves := row.moves
  extraTags := rows.extraTagsOf row.id
  provenance := row.provenance }

theorem Rows.Consistent.get_row (h : rows.Consistent moveHash) (hrow : row ∈ rows.games)
    (hwhite : rows.rowOf .player row.whiteId = some white)
    (hblack : rows.rowOf .player row.blackId = some black) :
    rows.get row.id = .ok (rows.readGame row white black) := by
  rw [Rows.get, Rows.gameAt, h.findGame_of_mem hrow]
  dsimp only
  rw [hwhite, hblack]
  rfl

theorem Rows.get_eq_error {id : ℕ} (h : id ∉ rows.games.map GameRow.id) :
    rows.get id = .error .notFound := by
  have hnone : rows.findGame id = none := by
    rw [Rows.findGame, List.find?_eq_none]
    intro row hrow hid
    exact h (List.mem_map.mpr ⟨row, hrow, by simpa using hid⟩)
  rw [Rows.get, Rows.gameAt, hnone]
  rfl

theorem Rows.Consistent.eventOf_kept (h : rows.Consistent moveHash) (hgrows : rows.Grows rows')
    (hrow : row ∈ rows.games) : (row.eventId.bind fun id => rows'.rowOf .event id) =
      row.eventId.bind fun id => rows.rowOf .event id := by
  cases hid : row.eventId with
  | none => rfl
  | some id =>
    obtain ⟨event, hevent⟩ := h.exists_rowOf (h.events row hrow id hid)
    rw [Option.bind_some, Option.bind_some, hgrows.rowOf hevent, hevent]

theorem Rows.Consistent.get_kept (h : rows.Consistent moveHash) (h' : rows'.Consistent moveHash)
    (hgrows : rows.Grows rows') (hrow : row ∈ rows.games) (hrow' : row ∈ rows'.games)
    (htags : rows'.extraTagsOf row.id = rows.extraTagsOf row.id) :
    rows'.get row.id = rows.get row.id := by
  obtain ⟨white, hwhite⟩ := h.exists_rowOf (h.players row hrow).1
  obtain ⟨black, hblack⟩ := h.exists_rowOf (h.players row hrow).2
  rw [h.get_row hrow hwhite hblack, h'.get_row hrow' (hgrows.rowOf hwhite) (hgrows.rowOf hblack),
    Rows.readGame, Rows.readGame, h.eventOf_kept hgrows hrow, htags]

end Reading

section Notes

variable {v : View} {id : ℕ} {notes : Option String}

private theorem cString_of_map {text name : String} (h : cString text = name) :
    cString name = name := by
  rw [← h, cString_cString]

/-- The tags of the game that keep their place when notes are written, and the new ones. -/
def writtenTags (notes : Option String) (tagName : String) (tags : List (String × String)) :
    List (String × String) :=
  match notes with
  | none => tags
  | some notes => tags.filter (fun tag => tag.1 != "_notes") ++
      if notes = "" then [] else [(tagName, notes)]

/-- What notes leave: new names, the games, and tags under the name that the lookup led to. -/
structure View.Noted (id : ℕ) (notes : Option String) (v v' : View) : Prop where
  grows : v.rows.Grows v'.rows
  games : v'.rows.games = v.rows.games
  identityIndex : v'.rows.identityIndex = v.rows.identityIndex
  others : ∀ other ≠ id, v'.rows.extraTagsOf other = v.rows.extraTagsOf other
  tags : ∃ tagName, v'.rows.extraTagsOf id = writtenTags notes tagName (v.rows.extraTagsOf id) ∧
    ((∃ text ≠ "", notes = some text) →
      (∀ known ∈ v.known .tag "_notes", v.rows.nameIn .tag known = some tagName) ∧
        (v.known .tag "_notes" = none → tagName = "_notes"))

theorem View.noted_spec (h : v.rows.Consistent moveHash)
    (hnoted : (v.noted id notes).rows.Consistent moveHash) :
    v.Noted id notes (v.noted id notes) := by
  cases notes with
  | none => exact ⟨.refl, rfl, rfl, fun _ _ => rfl, "", rfl, by rintro ⟨_, _, ⟨⟩⟩⟩
  | some notes =>
    let cleared : View := { v with rows := v.rows.deleteGameTags id "_notes" }
    have hcleared : cleared.rows.Consistent moveHash := h.deleteGameTags "_notes"
    have hnames : v.SameNames cleared := ⟨rfl, rfl⟩
    have htags := h.extraTagsOf_deleteGameTags id "_notes"
    by_cases hempty : notes = ""
    · have hview : v.noted id (some notes) = cleared := if_pos hempty
      rw [hview]
      refine ⟨.of_named rfl, rfl, rfl, fun other hne => ?_, "", ?_, ?_⟩
      · exact (htags other).trans (if_neg hne)
      · refine ((htags id).trans (if_pos rfl)).trans ?_
        simp [writtenTags, hempty]
      · rintro ⟨_, hne, ⟨⟩⟩
        exact absurd hempty hne
    · let found := cleared.lookedUp .tag "_notes"
      have hview : v.noted id (some notes) = { found with
          rows := found.rows.insertGameTag ⟨id, cleared.resolve .tag "_notes", notes⟩ } :=
        if_neg hempty
      rw [hview] at hnoted ⊢
      have hfound : found.rows.Consistent moveHash := View.lookedUp_consistent hcleared
      obtain ⟨hgames, hgameTags, hindex⟩ := @View.lookedUp_games .tag cleared "_notes"
      have hgrows := @View.lookedUp_grows .tag cleared "_notes"
      have hresolved : cleared.resolve .tag "_notes" ∈ found.rows.ids .tag :=
        (hnoted.tagged ⟨id, cleared.resolve .tag "_notes", notes⟩ (by simp [Rows.insertGameTag])).2
      obtain ⟨tagName, hrow, hknown, hnew⟩ := View.rowOf_resolve hfound hresolved
      have hextra : ∀ other, found.rows.extraTagsOf other = cleared.rows.extraTagsOf other :=
        fun other => hcleared.extraTagsOf_grows hgrows hgameTags other
      refine ⟨hgrows, hgames, hindex, fun other hne => ?_, tagName, ?_, fun _ => ⟨?_, ?_⟩⟩
      · rw [Rows.extraTagsOf_insertGameTag, hextra, htags, if_neg hne, Rows.tagOf, if_neg (Ne.symm hne)]
        exact List.append_nil _
      · rw [Rows.extraTagsOf_insertGameTag, hextra, htags, if_pos rfl, Rows.tagOf, if_pos rfl, hrow]
        simp [writtenTags, hempty]
      · intro known hmem
        have hrow' := hknown known ((hnames.alike .tag).known "_notes" ▸ hmem)
        rw [(hnames.alike .tag).rowOf] at hrow'
        rw [Rows.nameIn, hrow']
        rfl
      · intro hnone
        exact hnew (((hnames.alike .tag).known _).trans hnone)

end Notes

section Lookups

variable {v : View} {kind : NameKind} {name : String} {patch : GamePatch} {current : Game}

theorem View.leads_iff {found : kind.Row}
    (hknown : ∀ id ∈ v.known kind name, v.rows.rowOf kind id = some found)
    (hnew : v.known kind name = none → kind.nameOf found = name) :
    cString (kind.nameOf found) = name ↔ v.Leads kind name := by
  unfold View.Leads
  cases hsome : v.known kind name with
  | none =>
    rw [hnew hsome]
    simp
  | some id =>
    have hrow : v.rows.nameIn kind id = some (kind.nameOf found) := by
      rw [Rows.nameIn, hknown id hsome, Option.map_some]
    simp only [Option.mem_some_iff, forall_eq', hrow, Option.map_some, Option.some.injEq]
    exact ⟨fun h => ⟨cString_of_map h, h⟩, And.right⟩

private theorem nameIn_insertNamed {rows : Rows} {row : kind.Row} {id : ℕ} {text : String}
    (h : (rows.insertNamed kind row).nameIn kind id = some text) :
    rows.nameIn kind id = some text ∨ rows.nameIn kind id = none ∧ text = kind.nameOf row := by
  simp only [Rows.nameIn, Rows.rowOf, Rows.insertNamed, Function.update_self, List.find?_append,
    Option.map_map, Option.map_or] at h ⊢
  cases hfind : (rows.named kind).find? fun row => row.1 = id with
  | some entry =>
    rw [hfind] at h
    exact .inl h
  | none =>
    rw [hfind] at h
    obtain ⟨entry, hentry, rfl⟩ := Option.map_eq_some_iff.mp h
    obtain rfl := List.mem_singleton.mp (List.mem_of_find?_eq_some hentry)
    exact .inr ⟨rfl, rfl⟩

theorem View.leads_whiteSought (hwhite : ∀ name ∈ patch.whiteName, cString name = name)
    (hcons : (v.whiteSought patch current).rows.Consistent moveHash)
    (hfound : ∀ player ∈ renamed current.white patch.whiteName,
      v.resolve .player player ∈ (v.whiteSought patch current).rows.ids .player) :
    (v.whiteSought patch current).Leads .player name ↔ v.Leads .player name := by
  cases hname : patch.whiteName with
  | none => simp only [View.whiteSought, renamed, hname, Option.map_none, View.sought, Option.elim_none]
  | some white =>
    let player : Player := { current.white with name := white }
    have hsought : v.whiteSought patch current = v.lookedUp .player player := by
      simp only [View.whiteSought, renamed, hname, Option.map_some, View.sought, Option.elim_some]
      rfl
    rw [hsought] at hcons hfound ⊢
    have hmem := hfound player (by simp only [renamed, hname]; rfl)
    by_cases hsame : name = white
    · subst hsame
      obtain ⟨found, hrow, hknown, hnew⟩ := View.rowOf_resolve hcons hmem
      have hknown' : (v.lookedUp .player player).known .player name =
          some (v.resolve .player player) := @View.known_lookedUp .player v player
      have hbefore : cString found.name = name ↔ v.Leads .player name :=
        View.leads_iff hknown fun hnone => by rw [hnew hnone]
      have hafter : cString found.name = name ↔ (v.lookedUp .player player).Leads .player name := by
        refine @View.leads_iff _ .player name found ?_ ?_
        · intro id hid
          rw [hknown'] at hid
          exact Option.some.inj hid ▸ hrow
        · intro hnone
          rw [hknown'] at hnone
          cases hnone
      exact hafter.symm.trans hbefore
    · have hother : name ≠ NameKind.player.nameOf player := hsame
      unfold View.Leads
      rw [View.known_lookedUp_of_ne hother]
      refine and_congr_right fun _ => forall₂_congr fun id _ => ?_
      have hgrows := @View.lookedUp_grows .player v player
      rw [Option.map_eq_some_iff, Option.map_eq_some_iff]
      constructor
      · rintro ⟨text, htext, hread⟩
        rw [v.lookedUp_rows] at htext
        split at htext
        · exact ⟨text, htext, hread⟩
        · rcases nameIn_insertNamed htext with hold | ⟨-, hnew⟩
          · exact ⟨text, hold, hread⟩
          · rw [hnew] at hread
            exact absurd (hread.symm.trans (hwhite white hname)) hsame
      · rintro ⟨text, htext, hread⟩
        exact ⟨text, hgrows.nameIn htext, hread⟩

end Lookups

end Store

end MotifChess.Db
