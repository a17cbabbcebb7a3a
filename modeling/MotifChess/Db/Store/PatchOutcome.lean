/- GID: MotifChess/Db/Store/PatchOutcome
   generality: implementation
   digest: A patch that succeeds does what it says exactly when the names that it needs lead to it. -/

import MotifChess.Db.Store.PatchedGames
import MotifChess.Db.Store.Session

set_option autoImplicit false
set_option relaxedAutoImplicit false

namespace MotifChess.Db.Store

open MotifChess.Codec MotifChess.System

variable {moveHash : List UInt16 → UInt64} {v : View} {rows' : Rows} {patch : GamePatch}
  {current : Game}

section Texts

private theorem or_cut_iff {value old : Option String} :
    (value.or old).map cString = value.or (old.map cString) ↔ ∀ text ∈ value, cString text = text := by
  cases value <;> simp

private theorem getD_cut_iff {value : Option String} {old : String} :
    cString (value.getD old) = value.getD (cString old) ↔ ∀ text ∈ value, cString text = text := by
  cases value <;> simp

private theorem map_filter_eq_iff {α β : Type} {f : α → β} {p q : α → Bool} {l : List α}
    (h : ∀ a, q a = true → p a = true) :
    (l.filter p).map f = (l.filter q).map f ↔ ∀ a ∈ l, p a = true → q a = true := by
  have hsub : (l.filter p).filter q = l.filter q := by
    rw [List.filter_filter]
    refine List.filter_congr fun a _ => ?_
    cases hq : q a with
    | true => simp [h a hq]
    | false => simp
  constructor
  · intro hmap
    have hlength := congrArg List.length hmap
    rw [List.length_map, List.length_map, ← hsub] at hlength
    have hall := List.length_filter_eq_length_iff.mp hlength.symm
    exact fun a ha hp => hall a (List.mem_filter.mpr ⟨ha, hp⟩)
  · intro hall
    have hfilter : l.filter p = l.filter q :=
      List.filter_congr fun a ha => Bool.eq_iff_iff.mpr ⟨hall a ha, h a⟩
    rw [hfilter]

end Texts

section Names

private theorem found_of_lookedUp {kind : NameKind} {sought found : kind.Row}
    (hv : v.rows.Consistent moveHash)
    (hmem : v.resolve kind sought ∈ (v.lookedUp kind sought).rows.ids kind)
    (hgrows : (v.lookedUp kind sought).rows.Grows rows')
    (hfound : rows'.rowOf kind (v.resolve kind sought) = some found) :
    (∀ id ∈ v.known kind (kind.nameOf sought), v.rows.rowOf kind id = some found) ∧
      (v.known kind (kind.nameOf sought) = none → found = sought) := by
  obtain ⟨there, hthere, hknown, hnew⟩ := View.rowOf_resolve (View.lookedUp_consistent hv) hmem
  obtain rfl := Option.some.inj ((hgrows.rowOf hthere).symm.trans hfound)
  exact ⟨hknown, hnew⟩

private theorem side_iff {player old new : Player} {name : Option String} {id : ℕ}
    (hv : v.rows.Consistent moveHash)
    (hmem : ∀ sought, renamed player name = some sought →
      v.resolve .player sought ∈ (v.sought .player (renamed player name)).rows.ids .player)
    (hgrows : (v.sought .player (renamed player name)).rows.Grows rows')
    (hold : v.rows.rowOf .player id = some old)
    (hnew : rows'.rowOf .player (((renamed player name).map fun sought =>
      v.resolve .player sought).getD id) = some new) :
    (name = none → new = old) ∧
      (cString new.name = name.getD (cString old.name) ↔ ∀ text ∈ name, v.Leads .player text) := by
  cases name with
  | none =>
    have hsame : new = old := Option.some.inj (hnew.symm.trans (hgrows.rowOf hold))
    exact ⟨fun _ => hsame, by simp [hsame]⟩
  | some text =>
    obtain ⟨hknown, hadded⟩ := @found_of_lookedUp moveHash v rows' .player _ new hv (hmem _ rfl)
      hgrows hnew
    refine ⟨nofun, ?_⟩
    simp only [Option.getD_some, Option.mem_some_iff, forall_eq']
    exact @View.leads_iff v .player text new hknown fun hnone => by rw [hadded hnone]; rfl

end Names

section Events

variable {row : GameRow}

private theorem eventOf_of_name (hname : patch.eventName current.eventDetails ≠ "") :
    patch.event.or (current.eventDetails.map Event.name) =
      some (patch.eventName current.eventDetails) := by
  unfold GamePatch.eventName at hname ⊢
  cases hevent : patch.event with
  | some event => rfl
  | none =>
    cases hdetails : current.eventDetails with
    | none => simp [hevent, hdetails] at hname
    | some event => rfl

private theorem eventFits_iff {found : Event} (hname : patch.eventName current.eventDetails ≠ "")
    (hknown : ∀ id ∈ v.known .event (patch.eventName current.eventDetails),
      v.rows.rowOf .event id = some found)
    (hnew : v.known .event (patch.eventName current.eventDetails) = none →
      found = eventOf patch current.eventDetails) :
    found.read = eventOf patch current.eventDetails ↔ v.EventFits patch current.eventDetails := by
  have hread : ∀ event : Event, event.read.read = event.read := by
    intro event
    simp [Event.read, Function.comp_def]
  rw [View.EventFits, if_neg hname]
  cases hsome : v.known .event (patch.eventName current.eventDetails) with
  | none =>
    rw [hnew hsome]
    simp
  | some id =>
    simp only [Option.mem_some_iff, forall_eq', hknown id hsome, Option.map_some, Option.some.injEq]
    exact ⟨fun h => ⟨by rw [← h, hread], h⟩, And.right⟩

private theorem event_iff {before after : Option Event}
    (hcurrent : current.eventDetails = before.map Event.read)
    (hkept : soughtEvent patch current = none → after = before)
    (hfound : ∀ wanted, soughtEvent patch current = some wanted → ∃ found, after = some found ∧
      (∀ id ∈ v.known .event wanted.name, v.rows.rowOf .event id = some found) ∧
        (v.known .event wanted.name = none → found = wanted)) :
    ((after.map Event.read).map Event.name =
        patch.event.or (current.eventDetails.map Event.name) ∧
      (after.map Event.read).bind Event.site =
        patch.site.or (current.eventDetails.bind Event.site) ∧
      (after.map Event.read).bind Event.date = current.eventDetails.bind Event.date) ↔
    (patch.touchesEvent = true → v.EventFits patch current.eventDetails) := by
  by_cases hsought : (patch.touchesEvent && patch.eventName current.eventDetails != "") = true
  · obtain ⟨htouches, hname⟩ := Bool.and_eq_true_iff.mp hsought
    have hname : patch.eventName current.eventDetails ≠ "" := by simpa using hname
    obtain ⟨found, rfl, hknown, hnew⟩ := hfound (eventOf patch current.eventDetails) (if_pos hsought)
    rw [eventOf_of_name hname, ← @eventFits_iff v patch current found hname hknown hnew]
    simp only [htouches, forall_const, Option.map_some, Option.bind_some, Option.some.injEq]
    constructor
    · rintro ⟨hread, hsite, hdate⟩
      rw [Event.read, eventOf, Event.mk.injEq]
      exact ⟨hread, hsite, hdate⟩
    · intro h
      rw [h]
      exact ⟨rfl, rfl, rfl⟩
  · rw [hkept (if_neg hsought), ← hcurrent]
    by_cases htouches : patch.touchesEvent = true
    · have hname : patch.eventName current.eventDetails = "" := by simpa [htouches] using hsought
      rw [View.EventFits, if_pos hname]
      simp only [htouches, forall_const, and_true]
      exact and_congr eq_comm eq_comm
    · have hnone : patch.event = none ∧ patch.site = none := by
        simpa [GamePatch.touchesEvent] using htouches
      simp [hnone, htouches]

end Events

section Tags

variable {id : ℕ} {tagName : String} {tags : List (String × String)}

/-- The tags are read back as the patch says exactly when no tag hides under the name of the notes,
and new notes are read back under that name. -/
private theorem tags_iff : (writtenTags patch.notes tagName tags).map (Prod.map cString cString) =
    patch.replacedTags (tags.map (Prod.map cString cString)) ↔ ∀ notes ∈ patch.notes,
      (∀ tag ∈ tags, cString tag.1 = "_notes" → tag.1 = "_notes") ∧
        (notes ≠ "" → cString notes = notes ∧ cString tagName = "_notes") := by
  unfold writtenTags GamePatch.replacedTags
  cases patch.notes with
  | none => simp
  | some notes =>
    have hnotes : cString "_notes" = "_notes" := by decide
    have hothers : (tags.filter fun tag => tag.1 != "_notes").map (Prod.map cString cString) =
        (tags.map (Prod.map cString cString)).filter (fun tag => tag.1 != "_notes") ↔
          ∀ tag ∈ tags, cString tag.1 = "_notes" → tag.1 = "_notes" := by
      rw [List.filter_map, map_filter_eq_iff]
      · refine forall₂_congr fun tag _ => ?_
        simp only [Function.comp_apply, Prod.map_fst, bne_iff_ne]
        exact not_imp_not
      · intro tag htag
        simp only [Function.comp_apply, Prod.map_fst, bne_iff_ne] at htag ⊢
        rintro heq
        exact htag (by rw [heq, hnotes])
    simp only [Option.mem_some_iff, forall_eq', ← hothers]
    by_cases hempty : notes = ""
    · simp [hempty]
    · simp only [if_neg hempty]
      simp only [List.map_append, ne_eq, hempty, not_false_iff, forall_const]
      constructor
      · intro heq
        obtain ⟨hleft, hright⟩ := List.append_inj' heq rfl
        simp only [List.map_cons, Prod.map_apply, List.map_nil, List.cons.injEq, Prod.mk.injEq,
          and_true] at hright
        exact ⟨hleft, hright.2, hright.1⟩
      · rintro ⟨hleft, hvalue, hname⟩
        rw [hleft, List.map_singleton, Prod.map_apply, hvalue, hname]

end Tags

section Law

variable {row : GameRow}

private theorem grows_patched (hadmits : v.Admits moveHash row.id patch current) :
    (v.eventSought patch current).rows.Grows (v.patched row.id patch current).rows ∧
      (v.edited row.id (editsOf patch current)).Noted row.id patch.notes
        (v.patched row.id patch current) := by
  have hedited : (v.edited row.id (editsOf patch current)).rows.Consistent moveHash := by
    have hwhole := hadmits.1 (editsOf patch current).length
    rwa [List.take_length] at hwhole
  have hnoted := View.noted_spec hedited hadmits.2
  exact ⟨(Rows.Grows.of_named View.sameNames_editsOf.named).trans hnoted.grows, hnoted⟩

private theorem mem_patched (hadmits : v.Admits moveHash row.id patch current)
    (hrow : row ∈ v.rows.games) :
    v.patchedRow patch current row ∈ (v.patched row.id patch current).rows.games := by
  have hedits : ∀ edit ∈ editsOf patch current, edit.KeepsId := keepsId_editsOf
  rw [(grows_patched hadmits).2.games, (View.rewritten_edited hedits v).games, List.mem_map]
  exact ⟨row, hrow, by rw [if_pos rfl, View.rewrite_editsOf]⟩

private theorem tags_patched (h : v.rows.Consistent moveHash)
    (hadmits : v.Admits moveHash row.id patch current) :
    ∃ tagName, (v.patched row.id patch current).rows.extraTagsOf row.id =
        writtenTags patch.notes tagName (v.rows.extraTagsOf row.id) ∧
      ((∃ text ≠ "", patch.notes = some text) →
        (cString tagName = "_notes" ↔ v.Leads .tag "_notes")) := by
  have hedits : ∀ edit ∈ editsOf patch current, edit.KeepsId := keepsId_editsOf
  have hedited := @View.rewritten_edited row.id _ hedits v
  obtain ⟨tagName, htags, hfound⟩ := (grows_patched hadmits).2.tags
  rw [h.extraTagsOf_grows hedited.grows hedited.gameTags] at htags
  refine ⟨tagName, htags, fun hnotes => ?_⟩
  obtain ⟨hknown, hnew⟩ := hfound hnotes
  have halike : v.Alike .tag (v.edited row.id (editsOf patch current)) :=
    View.alike_eventSought.trans (View.sameNames_editsOf.alike _)
  rw [halike.known] at hknown hnew
  refine @View.leads_iff v .tag "_notes" tagName (fun id hid => ?_) hnew
  have hname := hknown id hid
  rw [Rows.nameIn, halike.rowOf] at hname
  obtain ⟨found, hrow, hfound⟩ := Option.map_eq_some_iff.mp hname
  rw [hrow]
  exact congrArg some hfound

private theorem event_kept (h : v.rows.Consistent moveHash)
    (hadmits : v.Admits moveHash row.id patch current) (hrow : row ∈ v.rows.games)
    (hnone : soughtEvent patch current = none) :
    ((v.patchedRow patch current row).eventId.bind fun id =>
      (v.patched row.id patch current).rows.rowOf .event id) =
      row.eventId.bind fun id => v.rows.rowOf .event id := by
  have hgrows : v.rows.Grows (v.patched row.id patch current).rows :=
    (View.sought_grows _ _).trans ((View.sought_grows _ _).trans
      ((View.sought_grows _ _).trans (grows_patched hadmits).1))
  have hid : (v.patchedRow patch current row).eventId = row.eventId := by
    refine if_neg fun hsought => ?_
    rw [soughtEvent, if_pos hsought] at hnone
    cases hnone
  rw [hid, h.eventOf_kept hgrows hrow]

private theorem event_found (h : v.rows.Consistent moveHash)
    (hadmits : v.Admits moveHash row.id patch current) (hrow : row ∈ v.rows.games)
    (wanted : Event) (hwanted : soughtEvent patch current = some wanted) :
    ∃ found, ((v.patchedRow patch current row).eventId.bind fun id =>
        (v.patched row.id patch current).rows.rowOf .event id) = some found ∧
      (∀ id ∈ v.known .event wanted.name, v.rows.rowOf .event id = some found) ∧
        (v.known .event wanted.name = none → found = wanted) := by
  have hblack : (v.blackSought patch current).rows.Consistent moveHash :=
    View.sought_consistent (View.sought_consistent h _) _
  have hmem := hadmits.event_mem hrow hwanted
  have hgrows := (grows_patched hadmits).1
  have halike : v.Alike .event (v.blackSought patch current) := View.alike_blackSought
  have hid : (v.patchedRow patch current row).eventId = some (v.resolve .event wanted) := by
    unfold soughtEvent at hwanted
    split_ifs at hwanted with hsought
    obtain rfl := Option.some.inj hwanted
    exact if_pos hsought
  obtain ⟨found, hfound⟩ := hadmits.2.exists_rowOf
    (hadmits.2.events _ (mem_patched hadmits hrow) _ hid)
  rw [hid, Option.bind_some, hfound]
  refine ⟨found, rfl, ?_⟩
  rw [← halike.resolve] at hmem hfound
  have hfinds := @found_of_lookedUp moveHash (v.blackSought patch current)
    (v.patched row.id patch current).rows .event wanted found hblack
  simp only [View.eventSought, hwanted, View.sought, Option.elim_some] at hmem hgrows
  obtain ⟨hknown, hnew⟩ := hfinds hmem hgrows hfound
  change ∀ id ∈ (v.blackSought patch current).known .event wanted.name, _ at hknown
  change (v.blackSought patch current).known .event wanted.name = none → _ at hnew
  rw [halike.known] at hknown hnew
  exact ⟨fun id hmem => halike.rowOf id ▸ hknown id hmem, hnew⟩

private theorem View.patchedBy_iff (h : v.rows.Consistent moveHash)
    (hadmits : v.Admits moveHash row.id patch current) (hrow : row ∈ v.rows.games)
    (hget : v.rows.get row.id = .ok current) :
    ∃ patched, (v.patched row.id patch current).rows.get row.id = .ok patched ∧
      (patch.PatchedBy current patched ↔ v.Fits row.id patch current) := by
  obtain ⟨white, hwhite⟩ := h.exists_rowOf (h.players row hrow).1
  obtain ⟨black, hblack⟩ := h.exists_rowOf (h.players row hrow).2
  have hcurrent : current = v.rows.readGame row white black :=
    Except.ok.inj (hget.symm.trans (h.get_row hrow hwhite hblack))
  have hrow' := mem_patched hadmits hrow
  obtain ⟨white', hwhite'⟩ := hadmits.2.exists_rowOf (hadmits.2.players _ hrow').1
  obtain ⟨black', hblack'⟩ := hadmits.2.exists_rowOf (hadmits.2.players _ hrow').2
  have hget' := @Rows.Consistent.get_row moveHash _ (v.patchedRow patch current row) _ _ hadmits.2
    hrow' hwhite' hblack'
  refine ⟨_, hget', ?_⟩
  obtain ⟨hgrows, hnoted⟩ := grows_patched hadmits
  have hblackGrows : (v.blackSought patch current).rows.Grows (v.patched row.id patch current).rows :=
    (View.sought_grows _ _).trans hgrows
  have hwhiteGrows : (v.whiteSought patch current).rows.Grows (v.patched row.id patch current).rows :=
    (View.sought_grows _ _).trans hblackGrows
  have hsought : (v.whiteSought patch current).rows.Consistent moveHash :=
    View.sought_consistent h _
  have hsought' : (v.blackSought patch current).rows.Consistent moveHash :=
    View.sought_consistent hsought _
  obtain ⟨hwhiteKept, hwhiteIff⟩ := side_iff h (fun _ hplayer => hadmits.white_mem hrow hplayer)
    hwhiteGrows hwhite hwhite'
  obtain ⟨hblackKept, hblackIff⟩ := side_iff hsought
    (fun _ hplayer => hadmits.black_mem hrow hplayer) hblackGrows
    ((View.sought_grows v _).rowOf hblack) hblack'
  have hblackLeads : (∀ name ∈ patch.whiteName, v.Leads .player name) → ∀ name,
      (v.whiteSought patch current).Leads .player name ↔ v.Leads .player name := fun hleads name =>
    View.leads_whiteSought (fun name hname => (hleads name hname).1) hsought
      fun _ hplayer => hadmits.white_mem hrow hplayer
  have hevent : ((((v.patchedRow patch current row).eventId.bind fun id =>
        (v.patched row.id patch current).rows.rowOf .event id).map Event.read).map Event.name =
        patch.event.or (current.eventDetails.map Event.name) ∧ _ ∧ _) ↔ _ :=
    @event_iff v patch current (row.eventId.bind fun id => v.rows.rowOf .event id) _
      (by rw [hcurrent]; rfl) (event_kept h hadmits hrow) (event_found h hadmits hrow)
  obtain ⟨tagName, htags, htagLeads⟩ := tags_patched h hadmits
  have htagsIff := @tags_iff patch tagName (v.rows.extraTagsOf row.id)
  rw [← htags] at htagsIff
  have hnotesIff : _ ↔ ∀ notes ∈ patch.notes, v.NotesFit row.id notes := htagsIff.trans <|
    forall₂_congr fun notes hnotes => and_congr_right' <| forall_congr' fun hne =>
      and_congr_right' (htagLeads ⟨notes, hne, hnotes⟩)
  subst hcurrent
  constructor
  · intro hpatched
    have hleads := hwhiteIff.mp hpatched.whiteName
    exact {
      white := hleads
      black := fun name hname =>
        (hblackLeads hleads name).mp (hblackIff.mp hpatched.blackName name hname)
      event := hevent.mp ⟨hpatched.eventName, hpatched.eventSite, hpatched.eventDate⟩
      date := or_cut_iff.mp hpatched.date
      result := getD_cut_iff.mp hpatched.result
      eco := or_cut_iff.mp hpatched.eco
      sourceLabel := or_cut_iff.mp hpatched.sourceLabel
      reviewStatus := getD_cut_iff.mp hpatched.reviewStatus
      notes := hnotesIff.mp hpatched.extraTags }
  · intro hfits
    obtain ⟨hname, hsite, hdate⟩ := hevent.mpr hfits.event
    exact {
      whiteName := hwhiteIff.mpr hfits.white
      whiteElo := rfl
      whiteKept := fun hnone => by
        obtain rfl := hwhiteKept hnone
        exact ⟨rfl, rfl⟩
      blackName := hblackIff.mpr fun name hname =>
        (hblackLeads hfits.white name).mpr (hfits.black name hname)
      blackElo := rfl
      blackKept := fun hnone => by
        obtain rfl := hblackKept hnone
        exact ⟨rfl, rfl⟩
      eventName := hname
      eventSite := hsite
      eventDate := hdate
      date := or_cut_iff.mpr hfits.date
      result := getD_cut_iff.mpr hfits.result
      eco := or_cut_iff.mpr hfits.eco
      moves := rfl
      sourceType := rfl
      sourceLabel := or_cut_iff.mpr hfits.sourceLabel
      reviewStatus := getD_cut_iff.mpr hfits.reviewStatus
      extraTags := hnotesIff.mpr hfits.notes }

private theorem View.get_patched_of_ne (h : v.rows.Consistent moveHash)
    (hadmits : v.Admits moveHash row.id patch current) {other : ℕ} (hne : other ≠ row.id) :
    (v.patched row.id patch current).rows.get other = v.rows.get other := by
  have hedits : ∀ edit ∈ editsOf patch current, edit.KeepsId := keepsId_editsOf
  have hedited := @View.rewritten_edited row.id _ hedits v
  have hnoted := (grows_patched hadmits).2
  have hgames := hnoted.games.trans hedited.games
  by_cases hother : other ∈ v.rows.games.map GameRow.id
  · obtain ⟨found, hfound, rfl⟩ := List.mem_map.mp hother
    have hfound' : found ∈ (v.patched row.id patch current).rows.games := by
      rw [hgames]
      exact List.mem_map.mpr ⟨found, hfound, if_neg hne⟩
    refine h.get_kept hadmits.2 (hedited.grows.trans hnoted.grows) hfound hfound' ?_
    rw [hnoted.others _ hne, h.extraTagsOf_grows hedited.grows hedited.gameTags]
  · have hids : (v.patched row.id patch current).rows.games.map GameRow.id =
        v.rows.games.map GameRow.id := by
      rw [hgames, List.map_map]
      refine List.map_congr_left fun found _ => ?_
      rw [Function.comp_apply]
      split
      · exact View.rewrite_id hedits v found
      · rfl
    rw [Rows.get_eq_error hother, Rows.get_eq_error (hids ▸ hother)]

end Law

section Calls

variable {s t : CallState moveHash} {joined : Bool} {id : ℕ}

/-- The game reads as the patch says, and every other game as before. -/
def PatchLaw (patch : GamePatch) (id : ℕ) (before after : Rows) : Prop :=
  (∃ game patched, before.get id = .ok game ∧ after.get id = .ok patched ∧
    patch.PatchedBy game patched) ∧
    ∀ other ≠ id, after.get other = before.get other

/-- A patch that succeeds does what it says exactly when the ids that are remembered or stored for its
names lead to what it means. -/
theorem patchMetadata_law_iff (h : patchMetadata joined id patch s = (.ok (), t)) :
    PatchLaw patch id s.db.toRows t.db.toRows ↔
      ∃ game, s.db.get id = .ok game ∧ s.view.Fits id patch game := by
  obtain ⟨row, hrow, rfl, -, current, hget, hview, hadmits⟩ := patchMetadata_eq_ok h
  have hrows : t.db.toRows = (s.view.patched row.id patch current).rows :=
    congrArg View.rows hview
  obtain ⟨patched, hget', hiff⟩ := View.patchedBy_iff s.db.consistent hadmits hrow hget
  rw [PatchLaw, hrows]
  constructor
  · rintro ⟨⟨game, after, hgame, hafter, hpatched⟩, -⟩
    obtain rfl := Except.ok.inj (hget.symm.trans hgame)
    obtain rfl := Except.ok.inj (hget'.symm.trans hafter)
    exact ⟨current, hget, hiff.mp hpatched⟩
  · rintro ⟨game, hgame, hfits⟩
    obtain rfl := Except.ok.inj (hget.symm.trans hgame)
    exact ⟨⟨current, patched, hget, hget', hiff.mpr hfits⟩,
      fun other hne => View.get_patched_of_ne s.db.consistent hadmits hne⟩

end Calls

section Sample

private def cupGame (white black : String) : Game where
  white := ⟨white, some 2500, some "GM", none⟩
  black := ⟨black, none, none, none⟩
  eventDetails := some ⟨"Cup", some "Oslo", none⟩
  date := none
  result := "*"
  eco := none
  moves := [796]
  extraTags := [("Round", "1")]
  provenance := { sourceType := "manual" }

/-- New names for a side and the event, a result and notes, of a game whose players others share. -/
private def finalPatch : GamePatch where
  whiteName := some "Tal"
  event := some "Final"
  result := some "1-0"
  notes := some "brilliant"

theorem patchMetadata_law_iff_sample : ∃ s t : CallState fun _ => 0,
    patchMetadata false 1 finalPatch s = (.ok (), t) ∧
      PatchLaw finalPatch 1 s.db.toRows t.db.toRows := by
  have hrun : ∃ l ∈ run Ledger.step Ledger.Sound (.new : Ledger fun _ => 0) [
      .insert .bulk (cupGame "Anand" "Petrosian") {}, .insert .bulk (cupGame "Tal" "Anand") {}],
      (patchMetadata false 1 finalPatch ⟨l.db, l.store, []⟩).1 = .ok () ∧
        ∃ game ∈ (l.db.get 1).toOption, (⟨l.db.toRows, l.store⟩ : View).Fits 1 finalPatch game := by
    decide +kernel
  obtain ⟨l, -, hok, game, hgame, hfits⟩ := hrun
  have hcall : patchMetadata false 1 finalPatch ⟨l.db, l.store, []⟩ = (.ok (), _) :=
    Prod.ext hok rfl
  exact ⟨⟨l.db, l.store, []⟩, _, hcall,
    (patchMetadata_law_iff hcall).mpr ⟨game, toOption_eq_some.mp hgame, hfits⟩⟩

/-- A patch that only gives another site succeeds, and the site stays as it is: the event is found by
its name. -/
theorem not_patchLaw : ¬∀ l : Ledger fun _ => 0, Reaches Ledger.step Ledger.Sound .new l →
    ∀ id patch t, patchMetadata l.joined id patch ⟨l.db, l.store, []⟩ = (.ok (), t) →
      PatchLaw patch id l.db.toRows t.db.toRows := by
  intro hall
  have hrun : ∃ l ∈ run Ledger.step Ledger.Sound (.new : Ledger fun _ => 0)
      [.insert .bulk (cupGame "Anand" "Petrosian") {}],
      (patchMetadata l.joined 1 { site := some "Bergen" } ⟨l.db, l.store, []⟩).1 = .ok () ∧
        ∀ game ∈ ((patchMetadata l.joined 1 { site := some "Bergen" }
          ⟨l.db, l.store, []⟩).2.db.get 1).toOption,
            game.eventDetails.bind Event.site = some "Oslo" := by
    decide +kernel
  obtain ⟨l, hl, hok, hsite⟩ := hrun
  obtain ⟨⟨game, patched, -, hget, hpatched⟩, -⟩ :=
    hall l (reaches_of_run hl) 1 { site := some "Bergen" } _ (Prod.ext hok rfl)
  have hbergen := hpatched.eventSite
  rw [hsite patched (toOption_eq_some.mpr hget)] at hbergen
  exact absurd (Option.some.inj hbergen) (by decide)

/-- A patch inside a batch that is rolled back leaves an id for its player in the caches of the store;
the next patch with that name gives the game to the player who has got the id since. -/
example : ∃ l ∈ run Ledger.step (fun _ _ => True) (.new : Ledger fun _ => 0) [
    .insert .bulk (cupGame "Anand" "Petrosian") {},
    .begin .bulk true,
    .patch 1 { whiteName := some "Topalov" } {},
    .rollback .bulk true,
    .insert .bulk (cupGame "Kramnik" "Leko") {}],
    (∀ game ∈ ((patchMetadata l.joined 1 { whiteName := some "Topalov" }
      ⟨l.db, l.store, []⟩).2.db.get 1).toOption, game.white.name = "Kramnik") ∧
      ¬(⟨l.db.toRows, l.store⟩ : View).Leads .player "Topalov" := by
  decide +kernel

end Sample

end MotifChess.Db.Store
