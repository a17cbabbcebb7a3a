/- GID: MotifChess/Import/PgnRoundTrip
   generality: implementation
   digest: Which stored games survive their export as PGN and the import of the text. -/

import MotifChess.Db.Store.Fresh
import MotifChess.Http.PgnExport
import MotifChess.Import.ImportWorker

set_option autoImplicit false
set_option relaxedAutoImplicit false

namespace MotifChess.Import

open MotifChess.Chess MotifChess.Codec MotifChess.Db MotifChess.Db.Store MotifChess.Http

section Assumptions

/-- Nothing in the value would need a backslash between quotes. -/
def isPlain (value : String) : Bool := Quoted.plain '"' '\\' value.toList

variable (rules : Rules) (legal : rules.Board → UInt16 → Prop)

/-- Each move is legal after the ones before it. -/
def LegalLine : rules.Board → List UInt16 → Prop
  | _, [] => True
  | board, move :: moves =>
    legal board move ∧ LegalLine (rules.applyEncodedMove board move) moves

/-- The chess library reads the text that it writes for a legal move. -/
def ReadsSans : Prop := ∀ board move, legal board move →
  rules.applySan board (rules.san board move) = some (rules.applyEncodedMove board move, move)

/-- The PGN parser on the text of a game: it reads tags and moves that are written by the rules, a
value, whatever follows, ends at its first quote without a backslash, and no name has a NUL. -/
structure ReadsExport (isTagName : String → Bool) (parse : String → Option PgnGame) (id : ℕ)
    (game : Game) : Prop where
  ownNames : ∀ key ∈ "Round" :: "MotifGameId" :: knownTagKeys, isTagName key = true
  names : ∀ text item, parse text = some item → ∀ tag ∈ item.tags, isTagName tag.1 = true
  noNul : ∀ key, isTagName key = true → cString key = key
  whole : ∀ result, pgnResultToString result = game.result →
    (∀ tag ∈ exportTags id game, isTagName tag.1 = true ∧ isPlain tag.2 = true) →
      parse (gameToPgn rules id game) =
        some ⟨exportTags id game, sanLine rules rules.start game.moves, result⟩
  first : ∀ item, parse (gameToPgn rules id game) = some item →
    ∀ before key value after, exportTags id game = before ++ (key, value) :: after →
      (∀ tag ∈ before, isTagName tag.1 = true ∧ isPlain tag.2 = true) → isTagName key = true →
        ∃ text later, item.tags = before ++
          (key, String.ofList (Quoted.body '"' '\\' (value.toList ++ '"' :: text))) :: later

end Assumptions

section Statement

variable (moveHash : List UInt16 → UInt64) (parse : String → Option PgnGame) (rules : Rules)

/-- What an empty database holds after the text was read and handed to the import. -/
def reimport (text : String) : Option Game :=
  (parse text).bind fun item =>
    match process rules true (readGame item) (.fresh : CallState moveHash) with
    | (.ok id, s) => (s.db.get id).toOption
    | (.error _, _) => none

/-- The imported game says what the game said; where the game says nothing it may have a
placeholder of the exporter, and it may have the exporter's own tags. -/
structure Reproduces (game imported : Game) : Prop where
  white : imported.white.name = game.white.name
  black : imported.black.name = game.black.name
  whiteTitle : imported.white.title = game.white.title
  blackTitle : imported.black.title = game.black.title
  whiteElo : imported.white.elo = game.white.elo
  blackElo : imported.black.elo = game.black.elo
  event : ∀ event, game.eventDetails = some event →
    imported.eventDetails.map Event.name = some event.name
  noEvent : game.eventDetails = none → imported.eventDetails.map Event.name ∈ [none, some "?"]
  site : ∀ site, game.eventDetails.bind Event.site = some site →
    imported.eventDetails.bind Event.site = some site
  noSite : game.eventDetails.bind Event.site = none →
    imported.eventDetails.bind Event.site ∈ [none, some "?"]
  date : imported.date = game.date
  result : imported.result = game.result
  eco : imported.eco = game.eco
  moves : imported.moves = game.moves
  extraTags : ∀ tag ∈ game.extraTags, tag ∈ imported.extraTags
  ownTags : ∀ tag ∈ imported.extraTags, tag ∈ game.extraTags ∨ tag.1 ∈ ["MotifGameId", "Round"]

def RoundTrips (id : ℕ) (game : Game) : Prop :=
  ∃ imported, reimport moveHash parse rules (gameToPgn rules id game) = some imported ∧
    Reproduces game imported

/-- Each field of the game is one that comes back from its tag. -/
structure Restorable (game : Game) : Prop where
  event : ∀ event ∈ game.eventDetails, event.name ≠ "" ∧ event.site ≠ some ""
  date : game.date ≠ some "" ∧ game.date ≠ some "????.??.??"
  titles : game.white.title ≠ some "" ∧ game.black.title ≠ some ""
  eco : game.eco ≠ some ""
  whiteElo : ∀ elo ∈ game.white.elo, 0 ≤ elo.toInt ∧ elo.toInt ≤ 32767
  blackElo : ∀ elo ∈ game.black.elo, 0 ≤ elo.toInt ∧ elo.toInt ≤ 32767

/-- What the exporter and the import agree on. Names of tags or players that are equal as they are
read back belong to one row, unless they differ behind a NUL. -/
structure Portable (isTagName : String → Bool) (id : ℕ) (game : Game) : Prop where
  plain : ∀ tag ∈ exportTags id game, isPlain tag.2 = true
  tagNames : ∀ tag ∈ game.extraTags, isTagName tag.1 = true
  foreign : ∀ tag ∈ game.extraTags, tag.1 ∉ "Round" :: "MotifGameId" :: knownTagKeys
  distinct : (game.extraTags.map Prod.fst).Nodup
  sameTitle : game.white.name = game.black.name → game.white.title = game.black.title
  fields : Restorable game
  result : ∃ result, pgnResultToString result = game.result
  moves : game.moves.length ≤ 65535

end Statement

section Tags

private theorem findTag_cons (tag : String × String) (tags : List (String × String)) (key : String) :
    findTag (tag :: tags) key = if tag.1 = key then tag.2 else findTag tags key := by
  unfold findTag
  by_cases hkey : tag.1 = key
  · simp [hkey]
  · simp [hkey]

private theorem findTag_optionalTag (name : String) (value : Option String)
    (tags : List (String × String)) (key : String) :
    findTag (optionalTag name value ++ tags) key =
      if name = key then value.getD (findTag tags key) else findTag tags key := by
  cases value with
  | none => simp [optionalTag]
  | some value => simp [optionalTag, findTag_cons]

private theorem filter_optionalTag {name : String} (hname : isKnownTag name = true)
    (value : Option String) :
    (optionalTag name value).filter (fun tag => !isKnownTag tag.1) = [] := by
  cases value with
  | none => rfl
  | some value => simp [optionalTag, hname]

variable {id : ℕ} {game : Game}

private theorem filter_fieldTags : (fieldTags id game).filter (fun tag => !isKnownTag tag.1) =
    [("Round", "?"), ("MotifGameId", toString id)] := by
  simp only [fieldTags, List.filter_append, filter_optionalTag (by decide : isKnownTag "WhiteElo"),
    filter_optionalTag (by decide : isKnownTag "BlackElo"),
    filter_optionalTag (by decide : isKnownTag "WhiteTitle"),
    filter_optionalTag (by decide : isKnownTag "BlackTitle"),
    filter_optionalTag (by decide : isKnownTag "ECO")]
  simp [isKnownTag, knownTagKeys]

private theorem filter_exportTags : (exportTags id game).filter (fun tag => !isKnownTag tag.1) =
    ("Round", "?") :: ("MotifGameId", toString id) ::
      game.extraTags.filter fun tag => !isKnownTag tag.1 := by
  rw [exportTags, List.filter_append, filter_fieldTags]
  rfl

/-- What the import makes of the exported tags, when it reads them as they are. -/
def restored (id : ℕ) (game : Game) : Game where
  white :=
    { name := game.white.name
      elo := (parseElo ((game.white.elo.map fun elo => toString elo.toInt).getD "")).map
        Int16.toInt32
      title := nonempty (game.white.title.getD "")
      country := none }
  black :=
    { name := game.black.name
      elo := (parseElo ((game.black.elo.map fun elo => toString elo.toInt).getD "")).map
        Int16.toInt32
      title := nonempty (game.black.title.getD "")
      country := none }
  eventDetails := (nonempty (game.eventDetails.elim "?" Event.name)).map fun name =>
    { name
      site := nonempty ((game.eventDetails.bind Event.site).getD "?")
      date := validDate (game.date.getD "????.??.??") }
  date := validDate (game.date.getD "????.??.??")
  result := game.result
  eco := nonempty (game.eco.getD "")
  moves := game.moves
  extraTags := ("Round", "?") :: ("MotifGameId", toString id) :: game.extraTags

variable (hforeign : ∀ tag ∈ game.extraTags, tag.1 ∉ knownTagKeys)

include hforeign

private theorem findTag_extraTags {key : String} (hkey : key ∈ knownTagKeys) :
    findTag game.extraTags key = "" := by
  refine findTag_of_notMem fun hmem => ?_
  obtain ⟨tag, htag, rfl⟩ := List.mem_map.mp hmem
  exact hforeign tag htag hkey

private theorem extractGame_exportTags {sans : List String} {result : PgnResult}
    (hresult : pgnResultToString result = game.result) :
    { extractGame ⟨exportTags id game, sans, result⟩ with moves := game.moves } =
      restored id game := by
  have hextra : game.extraTags.filter (fun tag => !isKnownTag tag.1) = game.extraTags := by
    refine List.filter_eq_self.mpr fun tag htag => ?_
    have hnot := hforeign tag htag
    simpa [isKnownTag] using hnot
  have hknown : ∀ key ∈ knownTagKeys, findTag game.extraTags key = "" :=
    fun key hkey => findTag_extraTags hforeign hkey
  simp only [knownTagKeys, List.forall_mem_cons] at hknown
  obtain ⟨h₁, h₂, h₃, h₄, h₅, h₆, h₇, h₈, h₉, h₁₀, h₁₁, -⟩ := hknown
  simp only [extractGame, restored, filter_exportTags, hextra, hresult]
  simp [exportTags, fieldTags, List.append_assoc, findTag_cons, findTag_optionalTag, *]

end Tags

section Moves

variable {rules : Rules} {legal : rules.Board → UInt16 → Prop}

private theorem length_sanLine (board : rules.Board) (moves : List UInt16) :
    (sanLine rules board moves).length = moves.length := by
  induction moves generalizing board with
  | nil => rfl
  | cons move moves ih => rw [sanLine, List.length_cons, List.length_cons, ih]

private theorem applySans_sanLine (hreads : ReadsSans rules legal) {board : rules.Board}
    {moves : List UInt16} (hlegal : LegalLine rules legal board moves) :
    applySans rules board (sanLine rules board moves) = some moves := by
  induction moves generalizing board with
  | nil => rfl
  | cons move moves ih =>
    obtain ⟨hmove, hmoves⟩ := hlegal
    rw [sanLine, applySans, hreads board move hmove, Option.bind_some]
    dsimp only
    rw [ih hmoves]
    rfl

end Moves

section Reimport

variable {moveHash : List UInt16 → UInt64} {parse : String → Option PgnGame} {rules : Rules}

/-- The import into an empty database accepts a text exactly when there are moves, not too many, all
of them are read, and the extra tags have distinct names. -/
private theorem reimport_eq_some {text : String} {imported : Game} :
    reimport moveHash parse rules text = some imported ↔ ∃ item moves, parse text = some item ∧
      item.moves ≠ [] ∧ item.moves.length ≤ 65535 ∧
      applySans rules rules.start item.moves = some moves ∧
      ((extractGame (readGame item)).extraTags.map Prod.fst).Nodup ∧
      imported = (readBack { extractGame (readGame item) with moves }).read := by
  constructor
  · intro h
    obtain ⟨item, hitem, h⟩ := Option.bind_eq_some_iff.mp h
    split at h
    next id s hprocess =>
      obtain ⟨hempty, hlong, moves, hsans, hinsert⟩ := process_eq_ok.mp hprocess
      have hnodup := nodup_of_inserted hinsert
      obtain ⟨s', hinsert', hget⟩ := @insert_first moveHash _ hnodup
      obtain ⟨-, rfl⟩ := Prod.mk.inj (hinsert.symm.trans hinsert')
      obtain rfl := Except.ok.inj (congrArg Prod.fst (hinsert.symm.trans hinsert'))
      rw [Rows.get, hget] at h
      exact ⟨item, moves, hitem, hempty, hlong, hsans, hnodup, (Option.some.inj h).symm⟩
    next => cases h
  · rintro ⟨item, moves, hitem, hempty, hlong, hsans, hnodup, rfl⟩
    obtain ⟨s, hinsert, hget⟩ := @insert_first moveHash
      { extractGame (readGame item) with moves } hnodup
    have hprocess : process rules true (readGame item) (.fresh : CallState moveHash) =
        (.ok 1, s) := process_eq_ok.mpr ⟨hempty, hlong, moves, hsans, hinsert⟩
    rw [reimport, hitem, Option.bind_some, hprocess]
    dsimp only
    rw [Rows.get, hget]
    rfl

end Reimport

section Fields

private theorem nonempty_eq_some {raw value : String} :
    nonempty raw = some value ↔ raw = value ∧ value ≠ "" := by
  unfold nonempty
  by_cases hraw : raw = ""
  · rw [if_pos hraw]
    constructor
    · nofun
    · rintro ⟨rfl, hne⟩
      exact absurd hraw hne
  · rw [if_neg hraw, Option.some.injEq]
    constructor
    · rintro rfl
      exact ⟨rfl, hraw⟩
    · exact And.left

private theorem validDate_eq_some {raw value : String} :
    validDate raw = some value ↔ raw = value ∧ value ≠ "" ∧ value ≠ "????.??.??" := by
  unfold validDate
  by_cases hraw : raw ≠ "" ∧ raw ≠ "????.??.??"
  · rw [if_pos hraw, Option.some.injEq]
    constructor
    · rintro rfl
      exact ⟨rfl, hraw⟩
    · exact And.left
  · rw [if_neg hraw]
    constructor
    · nofun
    · rintro ⟨rfl, hne⟩
      exact absurd hne hraw

private theorem nonempty_getD (value : Option String) : nonempty (value.getD "") = value ↔ value ≠ some "" := by
  cases value with
  | none => decide
  | some value => simp [nonempty_eq_some]

private theorem validDate_getD (date : Option String) : validDate (date.getD "????.??.??") = date ↔
    date ≠ some "" ∧ date ≠ some "????.??.??" := by
  cases date with
  | none => decide
  | some date => simp [validDate_eq_some]

private theorem parseElo_getD (elo : Option Int32) :
    (parseElo ((elo.map fun elo => toString elo.toInt).getD "")).map Int16.toInt32 = elo ↔
      ∀ elo' ∈ elo, 0 ≤ elo'.toInt ∧ elo'.toInt ≤ 32767 := by
  cases elo with
  | none => simp [parseElo]
  | some elo => simpa using parseElo_toString elo

variable {id : ℕ} {game : Game}

section Cut

variable {value : Option String} {raw other : String}

private theorem map_nonempty (h : cString raw = raw) :
    (nonempty raw).map cString = nonempty raw := by
  unfold nonempty
  split <;> simp [h]

private theorem map_validDate (h : cString raw = raw) :
    (validDate raw).map cString = validDate raw := by
  unfold validDate
  split <;> simp [h]

private theorem cString_getD (h : value.map cString = value) (hother : cString other = other) :
    cString (value.getD other) = value.getD other := by
  cases value with
  | none => exact hother
  | some value => exact Option.some.inj h

private theorem cString_toString (id : ℕ) : cString (toString id) = toString id := by
  rw [cString_eq_self_iff]
  intro hnul
  rw [Nat.toString_eq_repr, Nat.toList_repr] at hnul
  exact absurd (Nat.isDigit_of_mem_toDigits (by decide) (by decide) hnul) (by decide)

private theorem read_restoredPlayer {player : Player} (h : player.read = player)
    (elo : Option Int32) :
    Player.read ⟨player.name, elo, nonempty (player.title.getD ""), none⟩ =
      ⟨player.name, elo, nonempty (player.title.getD ""), none⟩ := by
  have hname : cString player.name = player.name := congrArg Player.name h
  have htitle := map_nonempty (cString_getD (congrArg Player.title h) cString_empty)
  simp [Player.read, hname, htitle]

private theorem read_restoredEvent {details : Option Event} {date : Option String}
    (h : details.map Event.read = details) (hdate : date.map cString = date) :
    ((nonempty (details.elim "?" Event.name)).map fun name => Event.read
      ⟨name, nonempty ((details.bind Event.site).getD "?"),
        validDate (date.getD "????.??.??")⟩) =
    (nonempty (details.elim "?" Event.name)).map fun name =>
      ⟨name, nonempty ((details.bind Event.site).getD "?"),
        validDate (date.getD "????.??.??")⟩ := by
  have htexts : cString (details.elim "?" Event.name) = details.elim "?" Event.name ∧
      (details.bind Event.site).map cString = details.bind Event.site := by
    cases details with
    | none => exact ⟨by decide, rfl⟩
    | some event =>
      have hevent := Option.some.inj h
      exact ⟨congrArg Event.name hevent, congrArg Event.site hevent⟩
  have hsite := map_nonempty (cString_getD htexts.2 (by decide : cString "?" = "?"))
  have hdate := map_validDate (cString_getD hdate (by decide : cString "????.??.??" = "????.??.??"))
  refine Option.map_congr fun name hname => ?_
  obtain rfl := (nonempty_eq_some.mp hname).1
  simp only [Event.read, htexts.1, hsite, hdate]

private theorem read_eq_self {game : Game} (hwhite : game.white.read = game.white)
    (hblack : game.black.read = game.black)
    (hdetails : game.eventDetails.map Event.read = game.eventDetails)
    (hdate : game.date.map cString = game.date) (hresult : cString game.result = game.result)
    (heco : game.eco.map cString = game.eco)
    (htags : game.extraTags.map (Prod.map cString cString) = game.extraTags)
    (hprovenance : game.provenance.read = game.provenance) : game.read = game := by
  unfold Game.read
  rw [hwhite, hblack, hdetails, hdate, hresult, heco, htags, hprovenance]

private theorem read_restored (h : game.read = game) : (restored id game).read = restored id game := by
  have hdate : game.date.map cString = game.date := congrArg Game.date h
  refine read_eq_self (read_restoredPlayer (congrArg Game.white h) _)
    (read_restoredPlayer (congrArg Game.black h) _) ?_
    (map_validDate (cString_getD hdate (by decide))) (congrArg Game.result h)
    (map_nonempty (cString_getD (congrArg Game.eco h) cString_empty)) ?_
    (by decide : GameProvenance.read {} = {})
  · have hdetails := read_restoredEvent (congrArg Game.eventDetails h) hdate
    simp only [restored, Option.map_map]
    exact hdetails
  · have hextra : game.extraTags.map (Prod.map cString cString) = game.extraTags :=
      congrArg Game.extraTags h
    have hown : cString "Round" = "Round" ∧ cString "?" = "?" ∧
        cString "MotifGameId" = "MotifGameId" := by decide
    simp only [restored, List.map_cons, Prod.map, hown, cString_toString, hextra]

private theorem read_readBack (h : game.read = game) : (readBack game).read = readBack game := by
  have hwhite : game.white.read = game.white := congrArg Game.white h
  have hblack : game.black.read = game.black := congrArg Game.black h
  refine read_eq_self hwhite ?_ (congrArg Game.eventDetails h) (congrArg Game.date h)
    (congrArg Game.result h) (congrArg Game.eco h) (congrArg Game.extraTags h)
    (congrArg Game.provenance h)
  unfold readBack blackRow
  split
  · exact congrArg (fun player : Player => { player with elo := game.black.elo }) hwhite
  · exact hblack

end Cut

private theorem readBack_black_title (hsame : game.white.name = game.black.name →
    game.white.title = game.black.title) : (readBack game).black.title = game.black.title := by
  by_cases hname : game.black.name = game.white.name
  · simp [readBack, blackRow, hname, hsame hname.symm]
  · simp [readBack, blackRow, hname]

private theorem readBack_black_name : (readBack game).black.name = game.black.name := by
  by_cases hname : game.black.name = game.white.name
  · simp [readBack, blackRow, hname]
  · simp [readBack, blackRow, hname]

private theorem restored_event (id : ℕ) (event : Event) (hevent : game.eventDetails = some event) :
    ((restored id game).eventDetails.map Event.name = some event.name ∧
      ∀ site, event.site = some site →
        (restored id game).eventDetails.bind Event.site = some site) ↔
    event.name ≠ "" ∧ event.site ≠ some "" := by
  simp only [restored, hevent, Option.elim_some, Option.map_map, Option.bind_some]
  by_cases hname : event.name = ""
  · simp [hname, nonempty]
  · have hsome : nonempty event.name = some event.name := nonempty_eq_some.mpr ⟨rfl, hname⟩
    rw [hsome]
    cases hsite : event.site with
    | none => simp [hname]
    | some site => simp [hname, nonempty_eq_some]

private theorem reproduces_restored (hsame : game.white.name = game.black.name →
    game.white.title = game.black.title) :
    Reproduces game (readBack (restored id game)) ↔ Restorable game := by
  have htitle : (restored id game).white.name = (restored id game).black.name →
      (restored id game).white.title = (restored id game).black.title := by
    intro hname
    simp only [restored] at hname ⊢
    rw [hsame hname]
  have hblackTitle := readBack_black_title htitle
  constructor
  · intro h
    exact {
      event := fun event hevent => (restored_event id event hevent).mp ⟨h.event event hevent,
        fun site hsite => h.site site (by rw [hevent]; exact hsite)⟩
      date := (validDate_getD game.date).mp h.date
      titles := ⟨(nonempty_getD _).mp h.whiteTitle,
        (nonempty_getD _).mp (hblackTitle.symm.trans h.blackTitle)⟩
      eco := (nonempty_getD game.eco).mp h.eco
      whiteElo := (parseElo_getD game.white.elo).mp h.whiteElo
      blackElo := (parseElo_getD game.black.elo).mp h.blackElo }
  · intro h
    have hevent := fun event hevent => (restored_event id event hevent).mpr (h.event event hevent)
    exact {
      white := rfl
      black := readBack_black_name
      whiteTitle := (nonempty_getD _).mpr h.titles.1
      blackTitle := hblackTitle.trans ((nonempty_getD _).mpr h.titles.2)
      whiteElo := (parseElo_getD game.white.elo).mpr h.whiteElo
      blackElo := (parseElo_getD game.black.elo).mpr h.blackElo
      event := fun event hdetails => (hevent event hdetails).1
      noEvent := fun hdetails => by simp [readBack, restored, hdetails, nonempty]
      site := fun site hsite => by
        obtain ⟨event, hdetails, hsite⟩ := Option.bind_eq_some_iff.mp hsite
        exact (hevent event hdetails).2 site hsite
      noSite := fun hsite => by
        simp only [readBack, restored, hsite, Option.getD_none]
        cases nonempty (game.eventDetails.elim "?" Event.name) with
        | none => exact List.mem_cons_self ..
        | some name => exact List.mem_cons_of_mem _ (List.mem_singleton_self _)
      date := (validDate_getD game.date).mpr h.date
      result := rfl
      eco := (nonempty_getD game.eco).mpr h.eco
      moves := rfl
      extraTags := fun tag htag => List.mem_cons_of_mem _ (List.mem_cons_of_mem _ htag)
      ownTags := fun tag htag => by
        rcases List.mem_cons.mp htag with rfl | htag
        · exact .inr (by simp)
        rcases List.mem_cons.mp htag with rfl | htag
        · exact .inr (by simp)
        · exact .inl htag }

end Fields

section Plain

private theorem unescapeTagValue_of_plain {value : String} (h : isPlain value = true) :
    unescapeTagValue value = value := by
  rw [unescapeTagValue, Quoted.unescape_of_plain h, String.ofList_toList]

private theorem map_unescape_of_plain {tags : List (String × String)}
    (h : ∀ tag ∈ tags, isPlain tag.2 = true) :
    tags.map (fun tag => (tag.1, unescapeTagValue tag.2)) = tags := by
  refine (List.map_congr_left fun tag htag => ?_).trans (List.map_id tags)
  rw [unescapeTagValue_of_plain (h tag htag)]
  rfl

private theorem readGame_of_plain {item : PgnGame} (h : ∀ tag ∈ item.tags, isPlain tag.2 = true) :
    readGame item = item := by
  rw [readGame, map_unescape_of_plain h]

private theorem isPlain_toString (n : Int) : isPlain (toString n) = true := by
  refine Quoted.plain_of_forall fun c hc => ?_
  have hdigit : ∀ m : ℕ, ∀ c ∈ m.repr.toList, c ≠ '"' ∧ c ≠ '\\' := by
    intro m c hc
    rw [Nat.toList_repr] at hc
    have hc := Nat.isDigit_of_mem_toDigits (by decide) (by decide) hc
    constructor
    · rintro rfl
      exact absurd hc (by decide)
    · rintro rfl
      exact absurd hc (by decide)
  rw [Int.toString_eq_repr, Int.repr_eq_if] at hc
  split at hc
  · exact hdigit _ c hc
  · rw [String.toList_append] at hc
    rcases List.mem_append.mp hc with hc | hc
    · obtain rfl : c = '-' := List.mem_singleton.mp hc
      decide
    · exact hdigit _ c hc

private theorem unescape_body_ne {value : String} (h : isPlain value ≠ true) (text : List Char) :
    cString (unescapeTagValue
      (String.ofList (Quoted.body '"' '\\' (value.toList ++ '"' :: text)))) ≠ value := by
  intro hsame
  refine h ((Quoted.isPrefix_read_iff (by decide) value.toList text).mp ?_)
  have hread := congrArg String.toList hsame
  rw [toList_cString, unescapeTagValue, String.toList_ofList, String.toList_ofList] at hread
  have hprefix := List.takeWhile_prefix (l := Quoted.read '"' '\\' (value.toList ++ '"' :: text))
    (· != nul)
  rwa [Quoted.read, hread] at hprefix

end Plain

section Observed

variable {id : ℕ} {game : Game} {pgn : PgnGame} {moves : List UInt16}

/-- A field tag of the game is found in what was read, or nothing in it needs a backslash; the title
of Black may be hidden by the title of White. -/
def Observed (game : Game) (pgn : PgnGame) (tag : String × String) : Prop :=
  isPlain tag.2 = true ∨ cString (findTag pgn.tags tag.1) = tag.2 ∨
    tag.1 = "BlackTitle" ∧ game.white.title = some tag.2

private theorem forall_mem_optionalTag {P : String × String → Prop} {key : String}
    {value : Option String} :
    (∀ tag ∈ optionalTag key value, P tag) ↔ ∀ value' ∈ value, P (key, value') := by
  cases value <;> simp [optionalTag]

private theorem observed_elo {elo : Option Int32} {key : String} :
    ∀ value ∈ elo.map fun elo => toString elo.toInt, Observed game pgn (key, value) := by
  intro value hvalue
  obtain ⟨elo, -, rfl⟩ := Option.map_eq_some_iff.mp hvalue
  exact .inl (isPlain_toString _)

private theorem cString_of_nonempty {raw value : String}
    (h : (nonempty raw).map cString = some value) : cString raw = value := by
  obtain ⟨text, htext, rfl⟩ := Option.map_eq_some_iff.mp h
  rw [(nonempty_eq_some.mp htext).1]

private theorem cString_of_validDate {raw value : String}
    (h : (validDate raw).map cString = some value) : cString raw = value := by
  obtain ⟨text, htext, rfl⟩ := Option.map_eq_some_iff.mp h
  rw [(validDate_eq_some.mp htext).1]

private theorem cString_result (result : PgnResult) :
    cString (pgnResultToString result) = pgnResultToString result := by
  cases result <;> decide

variable (h : Reproduces game (readBack { extractGame pgn with moves }).read)

include h

private theorem observed_event :
    Observed game pgn ("Event", game.eventDetails.elim "?" Event.name) := by
  cases hdetails : game.eventDetails with
  | none => exact .inl (by decide)
  | some event =>
    obtain ⟨read, hread, hname⟩ := Option.map_eq_some_iff.mp (h.event event hdetails)
    obtain ⟨raw, hraw, rfl⟩ := Option.map_eq_some_iff.mp hread
    obtain ⟨name, hevent, rfl⟩ := Option.map_eq_some_iff.mp hraw
    refine .inr (.inl ?_)
    rw [(nonempty_eq_some.mp hevent).1]
    exact hname

private theorem observed_site :
    Observed game pgn ("Site", (game.eventDetails.bind Event.site).getD "?") := by
  cases hsite : game.eventDetails.bind Event.site with
  | none => exact .inl (by decide)
  | some site =>
    obtain ⟨read, hread, hsite⟩ := Option.bind_eq_some_iff.mp (h.site site hsite)
    obtain ⟨raw, hraw, rfl⟩ := Option.map_eq_some_iff.mp hread
    obtain ⟨name, -, rfl⟩ := Option.map_eq_some_iff.mp hraw
    exact .inr (.inl (cString_of_nonempty hsite))

private theorem observed_date :
    Observed game pgn ("Date", game.date.getD "????.??.??") := by
  cases hdate : game.date with
  | none => exact .inl (Quoted.plain_of_forall (by simp))
  | some date => exact .inr (.inl (cString_of_validDate (h.date.trans hdate)))

private theorem result_of_reproduces : pgnResultToString pgn.result = game.result :=
  (cString_result pgn.result).symm.trans h.result

private theorem observed_result : Observed game pgn ("Result", game.result) := by
  rw [← result_of_reproduces h]
  refine .inl (?_ : isPlain (pgnResultToString pgn.result) = true)
  cases pgn.result with
  | white => exact Quoted.plain_of_forall (by simp [pgnResultToString])
  | black => exact Quoted.plain_of_forall (by simp [pgnResultToString])
  | draw => exact Quoted.plain_of_forall (by simp [pgnResultToString])
  | unknown => exact Quoted.plain_of_forall (by simp [pgnResultToString])

private theorem title_of_reproduces (hsame : findTag pgn.tags "Black" = findTag pgn.tags "White") :
    game.white.title = game.black.title := by
  have hblack := h.blackTitle
  simp only [Game.read, readBack, blackRow, extractGame, hsame, if_true] at hblack
  exact h.whiteTitle.symm.trans hblack

private theorem observed_of_reproduces (id : ℕ) : ∀ tag ∈ fieldTags id game, Observed game pgn tag := by
  have hblack : cString (findTag pgn.tags "Black") = game.black.name := by
    have hname := @readBack_black_name { extractGame pgn with moves }
    exact (congrArg cString hname).symm.trans h.black
  have hwhiteTitle : ∀ title ∈ game.white.title, Observed game pgn ("WhiteTitle", title) :=
    fun title htitle => .inr (.inl (cString_of_nonempty (h.whiteTitle.trans htitle)))
  have hblackTitle : ∀ title ∈ game.black.title, Observed game pgn ("BlackTitle", title) := by
    intro title htitle
    by_cases hname : findTag pgn.tags "Black" = findTag pgn.tags "White"
    · exact .inr (.inr ⟨rfl, (title_of_reproduces h hname).trans htitle⟩)
    · have hread := h.blackTitle.trans htitle
      simp only [Game.read, readBack, blackRow, extractGame, hname, if_false] at hread
      exact .inr (.inl (cString_of_nonempty hread))
  have heco : ∀ eco ∈ game.eco, Observed game pgn ("ECO", eco) :=
    fun eco heco => .inr (.inl (cString_of_nonempty (h.eco.trans heco)))
  simp only [fieldTags, List.forall_mem_append, List.forall_mem_cons, forall_mem_optionalTag]
  exact ⟨⟨⟨⟨⟨⟨⟨observed_event h, observed_site h, observed_date h, .inl (by decide),
    .inr (.inl h.white), .inr (.inl hblack), observed_result h, List.forall_mem_nil _⟩,
    observed_elo⟩, observed_elo⟩, hwhiteTitle⟩, hblackTitle⟩, heco⟩,
    .inl (isPlain_toString id), List.forall_mem_nil _⟩

end Observed

section Keys

variable {id : ℕ} {game : Game}

/-- The keys of the field tags, in the order of the exporter. -/
def fieldKeys : List String :=
  ["Event", "Site", "Date", "Round", "White", "Black", "Result", "WhiteElo", "BlackElo",
    "WhiteTitle", "BlackTitle", "ECO", "MotifGameId"]

private theorem optionalTag_sublist (key : String) (value : Option String) :
    ((optionalTag key value).map Prod.fst).Sublist [key] := by
  cases value with
  | none => exact List.nil_sublist _
  | some value => exact List.Sublist.refl _

private theorem fieldTags_sublist : ((fieldTags id game).map Prod.fst).Sublist fieldKeys := by
  simp only [fieldTags, List.map_append]
  have hnames : (["Event", "Site", "Date", "Round", "White", "Black", "Result"] ++ ["WhiteElo"] ++
    ["BlackElo"] ++ ["WhiteTitle"] ++ ["BlackTitle"] ++ ["ECO"] ++ ["MotifGameId"]) = fieldKeys :=
    rfl
  rw [← hnames]
  refine .append (.append (.append (.append (.append (.append ?_ ?_) ?_) ?_) ?_) ?_) ?_
  · exact List.Sublist.refl _
  · exact optionalTag_sublist ..
  · exact optionalTag_sublist ..
  · exact optionalTag_sublist ..
  · exact optionalTag_sublist ..
  · exact optionalTag_sublist ..
  · exact List.Sublist.refl _

private theorem fieldTags_nodup (id : ℕ) (game : Game) : ((fieldTags id game).map Prod.fst).Nodup :=
  fieldTags_sublist.nodup (by decide)

private theorem fieldTags_keys {tag : String × String} (h : tag ∈ fieldTags id game) :
    tag.1 ∈ "Round" :: "MotifGameId" :: knownTagKeys := by
  have hsub : fieldKeys ⊆ "Round" :: "MotifGameId" :: knownTagKeys := by decide
  exact hsub (fieldTags_sublist.subset (List.mem_map_of_mem h))

private theorem whiteTitle_mem_before {before after : List (String × String)} {value title : String}
    (h : fieldTags id game = before ++ ("BlackTitle", value) :: after)
    (htitle : game.white.title = some title) : ("WhiteTitle", title) ∈ before := by
  have hmem : ("WhiteTitle", title) ∈ fieldTags id game := by
    simp [fieldTags, optionalTag, htitle]
  rw [h] at hmem
  rcases List.mem_append.mp hmem with hbefore | hrest
  · exact hbefore
  rcases List.mem_cons.mp hrest with hhead | hafter
  · exact absurd (show "WhiteTitle" = "BlackTitle" from congrArg Prod.fst hhead) (by decide)
  · have horder : [("BlackTitle", value), ("WhiteTitle", title)].Sublist (fieldTags id game) := by
      rw [h]
      exact ((List.singleton_sublist.mpr hafter).cons_cons _).trans (List.sublist_append_right _ _)
    have hkeys : ["BlackTitle", "WhiteTitle"].Sublist fieldKeys :=
      (horder.map Prod.fst).trans fieldTags_sublist
    exact absurd hkeys (by decide)

private theorem mem_extraTags_or_field {before after : List (String × String)} {tag : String × String}
    (h : exportTags id game = before ++ tag :: after) :
    tag ∈ game.extraTags ∨ ∃ after', fieldTags id game = before ++ tag :: after' := by
  rw [exportTags] at h
  rcases List.append_eq_append_iff.mp h with ⟨rest, -, hextra⟩ | ⟨rest, hfield, hafter⟩
  · exact .inl (hextra ▸ List.mem_append_right _ (List.mem_cons_self ..))
  · cases rest with
    | nil =>
      rw [List.nil_append] at hafter
      exact .inl (hafter ▸ List.mem_cons_self ..)
    | cons head rest =>
      obtain ⟨rfl, -⟩ := List.cons.inj hafter
      exact .inr ⟨rest, hfield⟩

end Keys

section Export

variable {rules : Rules} {isTagName : String → Bool} {parse : String → Option PgnGame} {id : ℕ}
  {game : Game} {item : PgnGame} {moves : List UInt16}

private theorem isTagName_of_extraTags (hparser : ReadsExport rules isTagName parse id game)
    (hitem : parse (gameToPgn rules id game) = some item) :
    ∀ tag ∈ (extractGame (readGame item)).extraTags, isTagName tag.1 = true := by
  intro tag htag
  obtain ⟨raw, hraw, rfl⟩ := List.mem_map.mp (List.mem_of_mem_filter htag)
  exact hparser.names _ item hitem raw hraw

private theorem isTagName_of_reproduces (hparser : ReadsExport rules isTagName parse id game)
    (hitem : parse (gameToPgn rules id game) = some item)
    (h : Reproduces game (readBack { extractGame (readGame item) with moves }).read) :
    ∀ tag ∈ exportTags id game, isTagName tag.1 = true := by
  intro tag htag
  rcases List.mem_append.mp htag with hfield | hextra
  · exact hparser.ownNames tag.1 (fieldTags_keys hfield)
  · obtain ⟨raw, hraw, rfl⟩ := List.mem_map.mp (h.extraTags tag hextra)
    have hname := isTagName_of_extraTags hparser hitem raw hraw
    rwa [Prod.map_fst, hparser.noNul _ hname]

private theorem isPlain_of_reproduces (hparser : ReadsExport rules isTagName parse id game)
    (hitem : parse (gameToPgn rules id game) = some item)
    (hnodup : ((extractGame (readGame item)).extraTags.map Prod.fst).Nodup)
    (h : Reproduces game (readBack { extractGame (readGame item) with moves }).read) :
    ∀ tag ∈ exportTags id game, isPlain tag.2 = true := by
  have hnames := isTagName_of_reproduces hparser hitem h
  cases hfind : (exportTags id game).find? fun tag => !isPlain tag.2 with
  | none =>
    intro tag htag
    simpa using List.find?_eq_none.mp hfind tag htag
  | some tag =>
    obtain ⟨key, value⟩ := tag
    obtain ⟨hfound, before, after, htags, hbefore⟩ := List.find?_eq_some_iff_append.mp hfind
    have hbad : isPlain value ≠ true := by simpa using hfound
    have hplain : ∀ tag ∈ before, isPlain tag.2 = true := by simpa using hbefore
    have hname : ∀ tag ∈ before, isTagName tag.1 = true := fun tag htag =>
      hnames tag (htags ▸ List.mem_append_left _ htag)
    obtain ⟨text, later, hread⟩ := hparser.first item hitem before key value after htags
      (fun tag htag => ⟨hname tag htag, hplain tag htag⟩)
      (hnames (key, value) (htags ▸ List.mem_append_right _ (List.mem_cons_self ..)))
    have hne := unescape_body_ne hbad text
    generalize String.ofList (Quoted.body '"' '\\' (value.toList ++ '"' :: text)) = raw at hread hne
    have hpgn : (readGame item).tags = before ++ (key, unescapeTagValue raw) ::
        later.map fun tag => (tag.1, unescapeTagValue tag.2) := by
      rw [readGame, hread, List.map_append, map_unescape_of_plain hplain]
      rfl
    exfalso
    rcases mem_extraTags_or_field htags with hextra | ⟨after', hfields⟩
    · obtain ⟨⟨name, text⟩, hmem, hread⟩ := List.mem_map.mp (h.extraTags (key, value) hextra)
      obtain ⟨hkey, rfl⟩ := Prod.mk.inj hread
      rw [hparser.noNul _ (isTagName_of_extraTags hparser hitem _ hmem)] at hkey
      obtain rfl : name = key := hkey
      have hmem' : (name, unescapeTagValue raw) ∈ (extractGame (readGame item)).extraTags := by
        refine List.mem_filter.mpr ⟨?_, (List.mem_filter.mp hmem).2⟩
        rw [hpgn]
        exact List.mem_append_right _ (List.mem_cons_self ..)
      have hsame := congrArg Prod.snd (List.inj_on_of_nodup_map hnodup hmem' hmem rfl)
      exact hne (congrArg cString hsame)
    · have hobserved := observed_of_reproduces h id (key, value)
        (hfields ▸ List.mem_append_right _ (List.mem_cons_self ..))
      rcases hobserved with hgood | hfound | ⟨rfl, htitle⟩
      · exact hbad hgood
      · have hkey : key ∉ before.map Prod.fst := by
          have hkeys := fieldTags_nodup id game
          rw [hfields, List.map_append, List.map_cons] at hkeys
          intro hmem
          exact (List.nodup_append.mp hkeys).2.2 key hmem key (List.mem_cons_self ..) rfl
        rw [hpgn, findTag_append, if_neg hkey, findTag_cons, if_pos rfl] at hfound
        exact hne hfound
      · exact hbad (hplain _ (whiteTitle_mem_before hfields htitle))

private theorem portable_of_reproduces (hparser : ReadsExport rules isTagName parse id game)
    (hread : game.read = game)
    (hitem : parse (gameToPgn rules id game) = some item) (hlong : item.moves.length ≤ 65535)
    (hnodup : ((extractGame (readGame item)).extraTags.map Prod.fst).Nodup)
    (h : Reproduces game (readBack { extractGame (readGame item) with moves }).read) :
    Portable isTagName id game := by
  have hnames := isTagName_of_reproduces hparser hitem h
  have hplain := isPlain_of_reproduces hparser hitem hnodup h
  have hunknown : ∀ tag ∈ game.extraTags, (!isKnownTag tag.1) = true := by
    intro tag htag
    obtain ⟨raw, hraw, rfl⟩ := List.mem_map.mp (h.extraTags tag htag)
    have hname := hparser.noNul _ (isTagName_of_extraTags hparser hitem raw hraw)
    rw [Prod.map_fst, hname]
    exact (List.mem_filter.mp hraw).2
  obtain ⟨tags, sans, result⟩ := item
  have hresult : pgnResultToString result = game.result := result_of_reproduces h
  have hwhole := hparser.whole result hresult fun tag htag => ⟨hnames tag htag, hplain tag htag⟩
  obtain ⟨rfl, rfl, -⟩ := PgnGame.mk.inj (Option.some.inj (hitem.symm.trans hwhole))
  obtain rfl : moves = game.moves := h.moves
  rw [readGame_of_plain hplain] at h hnodup
  have hforeign : ∀ tag ∈ game.extraTags, tag.1 ∉ knownTagKeys := fun tag htag => by
    simpa [isKnownTag] using hunknown tag htag
  rw [extractGame_exportTags hforeign hresult, read_readBack (read_restored hread)] at h
  have hsame : game.white.name = game.black.name → game.white.title = game.black.title := by
    intro hname
    have hblack := h.blackTitle
    simp only [readBack, blackRow, restored, hname, if_true] at hblack
    exact h.whiteTitle.symm.trans hblack
  have hlength : game.moves.length ≤ 65535 := by
    rw [← length_sanLine rules.start game.moves]
    exact hlong
  have hkeys : ("Round" :: "MotifGameId" :: game.extraTags.map Prod.fst).Nodup := by
    rw [extractGame, filter_exportTags, List.filter_eq_self.mpr hunknown] at hnodup
    exact hnodup
  obtain ⟨hround, hrest⟩ := List.nodup_cons.mp hkeys
  obtain ⟨hgameId, hdistinct⟩ := List.nodup_cons.mp hrest
  refine ⟨hplain, fun tag htag => hnames tag (List.mem_append_right _ htag), fun tag htag => ?_,
    hdistinct, hsame, (reproduces_restored hsame).mp h, ⟨result, hresult⟩, hlength⟩
  have hmem := List.mem_map_of_mem (f := Prod.fst) htag
  simp only [List.mem_cons, not_or]
  refine ⟨fun heq => hround ?_, fun heq => hgameId ?_, hforeign tag htag⟩
  · exact List.mem_cons_of_mem _ (heq ▸ hmem)
  · exact heq ▸ hmem

end Export

section RoundTrip

variable {moveHash : List UInt16 → UInt64} {rules : Rules} {legal : rules.Board → UInt16 → Prop}
  {isTagName : String → Bool} {parse : String → Option PgnGame} {id : ℕ} {game : Game}

private theorem roundTrips_of_portable (hread : game.read = game) (hmoves : game.moves ≠ []) (hlegal : LegalLine rules legal rules.start game.moves)
    (hreads : ReadsSans rules legal) (hparser : ReadsExport rules isTagName parse id game)
    (h : Portable isTagName id game) : RoundTrips moveHash parse rules id game := by
  obtain ⟨result, hresult⟩ := h.result
  have hforeign : ∀ tag ∈ game.extraTags, tag.1 ∉ knownTagKeys := fun tag htag hknown =>
    h.foreign tag htag (List.mem_cons_of_mem _ (List.mem_cons_of_mem _ hknown))
  have htagNames : ∀ tag ∈ exportTags id game, isTagName tag.1 = true := by
    intro tag htag
    rcases List.mem_append.mp htag with hfield | hextra
    · exact hparser.ownNames tag.1 (fieldTags_keys hfield)
    · exact h.tagNames tag hextra
  have hitem := hparser.whole result hresult fun tag htag => ⟨htagNames tag htag, h.plain tag htag⟩
  have hplain : readGame ⟨exportTags id game, sanLine rules rules.start game.moves, result⟩ =
      ⟨exportTags id game, sanLine rules rules.start game.moves, result⟩ :=
    readGame_of_plain h.plain
  have hgame := @extractGame_exportTags id game hforeign (sanLine rules rules.start game.moves)
    result hresult
  have hextra := congrArg Game.extraTags hgame
  dsimp only at hextra
  have hkeys : ("Round" :: "MotifGameId" :: game.extraTags.map Prod.fst).Nodup := by
    have hnot : ∀ key ∈ ["Round", "MotifGameId"], key ∉ game.extraTags.map Prod.fst := by
      intro key hkey hmem
      obtain ⟨tag, htag, rfl⟩ := List.mem_map.mp hmem
      exact h.foreign tag htag (List.mem_append_left knownTagKeys hkey)
    refine List.nodup_cons.mpr ⟨?_, List.nodup_cons.mpr ⟨hnot _ (by simp), h.distinct⟩⟩
    rw [List.mem_cons, not_or]
    exact ⟨by decide, hnot _ (by simp)⟩
  refine ⟨readBack (restored id game), reimport_eq_some.mpr
    ⟨_, game.moves, hitem, ?_, ?_, applySans_sanLine hreads hlegal, ?_, ?_⟩,
    (reproduces_restored h.sameTitle).mpr h.fields⟩
  · intro hnil
    have hlength := length_sanLine rules.start game.moves
    rw [show sanLine rules rules.start game.moves = [] from hnil] at hlength
    exact hmoves (List.length_eq_zero_iff.mp hlength.symm)
  · exact (length_sanLine rules.start game.moves).trans_le h.moves
  · rw [hplain, hextra]
    exact hkeys
  · rw [hplain, hgame, read_readBack (read_restored hread)]

/-- A stored game comes back from its export exactly when nothing in its tags needs an escape, no
extra tag has a name that the exporter writes anyway or another has, and each field is one that its
tag can say. -/
theorem roundTrips_iff (db : Database moveHash) (hget : db.get id = .ok game)
    (hmoves : game.moves ≠ []) (hlegal : LegalLine rules legal rules.start game.moves)
    (hreads : ReadsSans rules legal) (hparser : ReadsExport rules isTagName parse id game) :
    RoundTrips moveHash parse rules id game ↔ Portable isTagName id game := by
  obtain ⟨stored, -, rfl⟩ := Rows.get_eq_ok.mp hget
  have hread := stored.read_read
  constructor
  · rintro ⟨imported, himported, h⟩
    obtain ⟨item, moves, hitem, -, hlong, -, hnodup, rfl⟩ := reimport_eq_some.mp himported
    exact portable_of_reproduces hparser hread hitem hlong hnodup h
  · exact roundTrips_of_portable hread hmoves hlegal hreads hparser

/-- Rules for samples, with one move. -/
def oneMove : Rules where
  Board := Bool
  start := false
  applyEncodedMove _ _ := true
  hash board := if board then 1 else 0
  san _ _ := "e4"
  applySan _ san := if san = "e4" then some (true, 796) else none

private def legalOnce (board : Bool) (move : UInt16) : Prop := board = false ∧ move = 796

/-- A game of one move. -/
def shortGame (extraTags : List (String × String)) : Game where
  white := ⟨"Anand", some 2786, some "GM", none⟩
  black := ⟨"Carlsen", some 2862, some "GM", none⟩
  eventDetails := some ⟨"World Championship", some "Sochi", some "2014.11.08"⟩
  date := some "2014.11.08"
  result := "1-0"
  eco := some "B00"
  moves := [796]
  extraTags

/-- What a parser answers that reads the export of a sample as it stands. -/
private def parseShort (extraTags : List (String × String)) (_ : String) : Option PgnGame :=
  some ⟨exportTags 1 (shortGame extraTags), ["e4"], .white⟩

private def isShortName (name : String) : Bool := cString name = name

private theorem readsExport_short {extraTags : List (String × String)}
    (hnames : ∀ tag ∈ extraTags, isShortName tag.1 = true)
    (hplain : ∀ tag ∈ exportTags 1 (shortGame extraTags), isPlain tag.2 = true) :
    ReadsExport oneMove isShortName (parseShort extraTags) 1 (shortGame extraTags) where
  ownNames := by decide
  names text item hitem tag htag := by
    obtain rfl := Option.some.inj hitem
    rcases List.mem_append.mp htag with hfield | hextra
    · exact (by decide : ∀ tag ∈ fieldTags 1 (shortGame []), isShortName tag.1 = true) tag hfield
    · exact hnames tag hextra
  noNul := by simp [isShortName]
  whole result hresult _ := by
    have hwhite : pgnResultToString result = "1-0" := hresult
    cases result with
    | white => rfl
    | black => exact absurd hwhite (by decide)
    | draw => exact absurd hwhite (by decide)
    | unknown => exact absurd hwhite (by decide)
  first item hitem before key value after htags _ _ := by
    obtain rfl := Option.some.inj hitem
    refine ⟨[], after, htags.trans ?_⟩
    have hvalue : isPlain value = true :=
      hplain (key, value) (htags ▸ List.mem_append_right _ (List.mem_cons_self ..))
    rw [Quoted.body_of_plain hvalue, String.ofList_toList]

private theorem readsSans_oneMove : ReadsSans oneMove legalOnce := by
  rintro board move ⟨-, rfl⟩
  rfl

private theorem get_short {extraTags : List (String × String)}
    (hnames : (extraTags.map Prod.fst).Nodup) :
    ∃ db : Database fun _ => 0, db.get 1 = .ok (shortGame extraTags).read := by
  obtain ⟨s, -, hget⟩ := @insert_first (fun _ => 0) (shortGame extraTags) hnames
  exact ⟨s.db, Rows.get_eq_ok.mpr ⟨_, hget, rfl⟩⟩

/-- A game with a tag of another name comes back. -/
theorem roundTrips_board_tag :
    RoundTrips (fun _ => 0) (parseShort [("Board", "2")]) oneMove 1 (shortGame [("Board", "2")]) := by
  obtain ⟨db, hget⟩ := @get_short [("Board", "2")] (by decide)
  have hplain : ∀ tag ∈ exportTags 1 (shortGame [("Board", "2")]), isPlain tag.2 = true := by
    decide +kernel
  refine (roundTrips_iff db hget (by decide) ⟨⟨rfl, rfl⟩, trivial⟩ readsSans_oneMove
    (readsExport_short (by decide) hplain)).mpr ⟨hplain, by decide, by decide, by decide, by decide,
      ?_, ⟨.white, rfl⟩, by decide⟩
  constructor
  · rintro event ⟨⟩
    decide
  · decide
  · decide
  · decide
  · rintro elo ⟨⟩
    decide
  · rintro elo ⟨⟩
    decide

/-- An imported game keeps its Round tag as an extra tag. The exporter writes that one too, and a
text with two Round tags is rejected. -/
theorem not_roundTrips_round : ¬∀ (db : Database fun _ => 0) (rules : Rules)
    (legal : rules.Board → UInt16 → Prop) (isTagName : String → Bool)
    (parse : String → Option PgnGame) (id : ℕ) (game : Game), db.get id = .ok game →
      game.moves ≠ [] → LegalLine rules legal rules.start game.moves → ReadsSans rules legal →
      ReadsExport rules isTagName parse id game → RoundTrips (fun _ => 0) parse rules id game := by
  intro hall
  obtain ⟨db, hget⟩ := @get_short [("Round", "1")] (by decide)
  obtain ⟨imported, himported, -⟩ := hall db oneMove legalOnce _ _ 1 _ hget (by decide)
    ⟨⟨rfl, rfl⟩, trivial⟩ readsSans_oneMove (readsExport_short (by decide) (by decide +kernel))
  obtain ⟨item, moves, hitem, -, -, -, hnodup, -⟩ := reimport_eq_some.mp himported
  obtain rfl := Option.some.inj hitem
  revert hnodup
  decide +kernel

end RoundTrip

end MotifChess.Import
