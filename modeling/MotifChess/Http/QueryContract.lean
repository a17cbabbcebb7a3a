/- GID: MotifChess/Http/QueryContract
   generality: implementation
   digest: What the query parameters mean, and that the answers to them are exact and fit together. -/

import MotifChess.Http.QueryHandlers
import Mathlib.Data.Finset.Prod

set_option autoImplicit false
set_option relaxedAutoImplicit false

namespace MotifChess.Http

open MotifChess.Codec MotifChess.Db

section Parsing

variable {text : String}

/-- A text that stands for an integer, with a minus where it is negative. -/
def StandsInt (text : List Char) (i : ℤ) : Prop :=
  (∃ n : ℕ, Decimal.Stands text n ∧ i = n) ∨
    ∃ (digits : List Char) (n : ℕ), text = '-' :: digits ∧ Decimal.Stands digits n ∧ i = -n

private theorem parse_eq_some {bound n : ℕ} :
    (if text = "" then none else Decimal.readWhole bound text.toList) = some n ↔
      Decimal.Stands text.toList n ∧ n ≤ bound := by
  split
  next hempty =>
    refine iff_of_false (fun hnone => ?_) fun h => h.1.nonempty (by rw [hempty]; rfl)
    cases hnone
  next => exact Decimal.readWhole_eq_some

private theorem parseSize_eq_some {n : ℕ} :
    parseSize text = some n ↔ Decimal.Stands text.toList n ∧ n < 2 ^ 64 := by
  rw [parseSize, parse_eq_some]
  refine and_congr_right fun _ => ?_
  omega

private theorem parseUint64_eq_some {n : UInt64} :
    parseUint64 text = some n ↔ Decimal.Stands text.toList n.toNat := by
  have hparse : parseUint64 text =
      (if text = "" then none else Decimal.readWhole (2 ^ 64 - 1) text.toList).map UInt64.ofNat := by
    unfold parseUint64
    split
    · rfl
    · rfl
  rw [hparse, Option.map_eq_some_iff]
  constructor
  · rintro ⟨value, hvalue, rfl⟩
    obtain ⟨hstands, hle⟩ := parse_eq_some.mp hvalue
    rw [UInt64.toNat_ofNat', Nat.mod_eq_of_lt (by omega)]
    exact hstands
  · intro h
    have hlt := n.toNat_lt
    exact ⟨n.toNat, parse_eq_some.mpr ⟨h, by omega⟩, UInt64.ofNat_toNat⟩

private theorem parseGameId_eq_some {id : UInt32} :
    parseGameId text = some id ↔ Decimal.Stands text.toList id.toNat ∧ id ≠ 0 := by
  have hparse : parseGameId text =
      (if text = "" then none else Decimal.readWhole (2 ^ 64 - 1) text.toList).bind fun value =>
        if value = 0 ∨ 2 ^ 32 - 1 < value then none else some (.ofNat value) := by
    unfold parseGameId
    split
    · rfl
    · rfl
  rw [hparse, Option.bind_eq_some_iff]
  constructor
  · rintro ⟨value, hvalue, hid⟩
    split at hid
    · cases hid
    next hrange =>
      obtain ⟨hstands, -⟩ := parse_eq_some.mp hvalue
      obtain rfl := Option.some.inj hid
      have hsame : (UInt32.ofNat value).toNat = value := by
        rw [UInt32.toNat_ofNat', Nat.mod_eq_of_lt (by omega)]
      refine ⟨hsame.symm ▸ hstands, fun hzero => ?_⟩
      rw [hzero] at hsame
      exact hrange (.inl hsame.symm)
  · rintro ⟨h, hne⟩
    have hlt := id.toNat_lt
    have hpositive : id.toNat ≠ 0 := fun hzero => hne (UInt32.toNat_inj.mp hzero)
    refine ⟨id.toNat, parse_eq_some.mpr ⟨h, by omega⟩, ?_⟩
    rw [if_neg (by omega), UInt32.ofNat_toNat]

private theorem number_eq_some {digits : List Char} {n : ℕ} :
    (if digits ≠ [] ∧ digits.all Char.isDigit = true then some (Nat.ofDigitChars 10 digits 0)
      else none) = some n ↔ Decimal.Stands digits n := by
  split
  next h =>
    rw [Option.some.injEq]
    exact ⟨fun hvalue => ⟨h.1, List.all_eq_true.mp h.2, hvalue⟩, fun hstands => hstands.value⟩
  next h =>
    refine iff_of_false (fun hnone => ?_) fun hstands => ?_
    · cases hnone
    · exact h ⟨hstands.nonempty, List.all_eq_true.mpr hstands.digits⟩

private theorem fromChars_eq_some {text : List Char} {i : ℤ} : Import.fromChars text = some i ↔
    StandsInt text i ∧ -2147483648 ≤ i ∧ i ≤ 2147483647 := by
  unfold Import.fromChars
  dsimp only
  split
  next digits =>
    simp only [Option.bind_eq_some_iff, number_eq_some]
    constructor
    · rintro ⟨n, hstands, hn⟩
      split at hn
      next hle =>
        obtain rfl := Option.some.inj hn
        exact ⟨.inr ⟨digits, n, rfl, hstands, rfl⟩, by omega, by omega⟩
      next => cases hn
    · rintro ⟨⟨n, hstands, rfl⟩ | ⟨digits', n, hsame, hstands, rfl⟩, hlow, hhigh⟩
      · exact absurd (hstands.digits '-' List.mem_cons_self) (by decide)
      · obtain ⟨-, rfl⟩ := List.cons.inj hsame
        refine ⟨n, hstands, ?_⟩
        rw [if_pos (by omega)]
  next hplain =>
    simp only [Option.bind_eq_some_iff, number_eq_some]
    constructor
    · rintro ⟨n, hstands, hn⟩
      split at hn
      next hle =>
        obtain rfl := Option.some.inj hn
        exact ⟨.inl ⟨n, hstands, rfl⟩, by omega, by omega⟩
      next => cases hn
    · rintro ⟨⟨n, hstands, rfl⟩ | ⟨digits, n, rfl, hstands, rfl⟩, hlow, hhigh⟩
      · refine ⟨n, hstands, ?_⟩
        rw [if_pos (by omega)]
      · exact absurd rfl (hplain digits)

private theorem parseInt32_eq_some {elo : Int32} :
    parseInt32 text = some elo ↔ StandsInt text.toList elo.toInt := by
  unfold parseInt32
  split
  next hempty =>
    refine iff_of_false (fun hnone => ?_) ?_
    · cases hnone
    · rw [hempty]
      rintro (⟨n, hstands, -⟩ | ⟨digits, n, hsame, -⟩)
      · exact hstands.nonempty rfl
      · cases hsame
  next =>
    rw [Option.map_eq_some_iff]
    constructor
    · rintro ⟨i, hi, rfl⟩
      obtain ⟨hstands, hlow, hhigh⟩ := fromChars_eq_some.mp hi
      rw [Int32.toInt_ofInt_of_le (by omega) (by omega)]
      exact hstands
    · intro hstands
      have hlow := elo.le_toInt
      have hhigh := elo.toInt_lt
      exact ⟨elo.toInt, fromChars_eq_some.mpr ⟨hstands, by omega, by omega⟩, Int32.ofInt_toInt elo⟩

end Parsing

section Filters

variable {params : Params} {filter other : SearchFilter}

/-- What a parameter gives: a default where it is not given, and else what its text means. -/
def Gives {α : Type} (params : Params) (name : String) (default : α) (means : String → α → Prop)
    (value : α) : Prop :=
  (params.lookup name = none ∧ value = default) ∨ ∃ text, params.lookup name = some text ∧ means text value

/-- The names of the colors in a request. -/
def colorName : PlayerColor → String
  | .either => "either"
  | .white => "white"
  | .black => "black"

/-- A filter that says what the parameters of `GET /api/games` say. -/
structure ReadsAs (params : Params) (filter : SearchFilter) : Prop where
  limit : Gives params "limit" defaultSearchLimit (fun text limit => ∃ n,
    Decimal.Stands text.toList n ∧ n < 2 ^ 64 ∧ limit = min n maxSearchLimit) filter.limit
  offset : Gives params "offset" 0 (fun text offset =>
    Decimal.Stands text.toList offset ∧ offset < 2 ^ 64) filter.offset
  minElo : Gives params "min_elo" none (fun text elo => ∃ e : Int32,
    elo = some e ∧ StandsInt text.toList e.toInt) filter.minElo
  maxElo : Gives params "max_elo" none (fun text elo => ∃ e : Int32,
    elo = some e ∧ StandsInt text.toList e.toInt) filter.maxElo
  color : Gives params "color" .either (fun text color => text = colorName color) filter.playerColor
  position : Gives params "position_hash" none (fun text position => ∃ hash : UInt64,
    position = some hash ∧ Decimal.Stands text.toList hash.toNat) filter.position
  texts : ∀ text, (filter.playerName = some text ↔ params.lookup "player" = some text ∧ text ≠ "") ∧
    (filter.result = some text ↔ params.lookup "result" = some text ∧ text ≠ "") ∧
    (filter.ecoPrefix = some text ↔ params.lookup "eco" = some text ∧ text ≠ "")
  order : filter.sortColumn = .id ∧ filter.sortAscending = true

private theorem readParam_eq_ok {α : Type} {name message : String} {parse : String → Option α}
    {default value : α} {means : String → α → Prop}
    (hmeans : ∀ text value, parse text = some value ↔ means text value) :
    readParam params name parse default message = .ok value ↔ Gives params name default means value := by
  unfold readParam Gives
  cases hgiven : params.lookup name with
  | none => simp [eq_comm]
  | some text =>
    simp only [← hmeans]
    cases hparse : parse text with
    | none => simp [hparse]
    | some read => simp [hparse]

private theorem readParam_error {α : Type} {name message : String} {parse : String → Option α} {default : α}
    {refusal : Response} (h : readParam params name parse default message = .error refusal) :
    refusal = jsonError 400 message := by
  unfold readParam at h
  split at h
  · cases h
  next text _ =>
    cases hparse : parse text with
    | none =>
      rw [hparse] at h
      exact (Except.error.inj h).symm
    | some read =>
      rw [hparse] at h
      cases h

private theorem parsePlayerColor_eq_some {text : String} {color : PlayerColor} :
    parsePlayerColor text = some color ↔ text = colorName color := by
  unfold parsePlayerColor
  constructor
  · intro h
    split_ifs at h with heither hwhite hblack
    · obtain rfl := Option.some.inj h
      exact heither
    · obtain rfl := Option.some.inj h
      exact hwhite
    · obtain rfl := Option.some.inj h
      exact hblack
  · rintro rfl
    cases color with
    | either => rfl
    | white => rfl
    | black => rfl

private theorem bind_toFilter {given : Option String} {text : String} :
    given.bind toFilter = some text ↔ given = some text ∧ text ≠ "" := by
  rw [Option.bind_eq_some_iff]
  constructor
  · rintro ⟨value, rfl, hvalue⟩
    unfold toFilter at hvalue
    split at hvalue
    next => cases hvalue
    next hne =>
      obtain rfl := Option.some.inj hvalue
      exact ⟨rfl, hne⟩
  · rintro ⟨rfl, hne⟩
    exact ⟨text, rfl, if_neg hne⟩

private theorem parseLimit_eq_some {text : String} {bound limit : ℕ} :
    ((parseSize text).map fun n => min n bound) = some limit ↔
      ∃ n, Decimal.Stands text.toList n ∧ n < 2 ^ 64 ∧ limit = min n bound := by
  rw [Option.map_eq_some_iff]
  refine exists_congr fun n => ?_
  rw [parseSize_eq_some, and_assoc, eq_comm (a := limit)]

private theorem parseElo_eq_some {text : String} {elo : Option Int32} :
    (parseInt32 text).map some = some elo ↔ ∃ e : Int32, elo = some e ∧ StandsInt text.toList e.toInt := by
  rw [Option.map_eq_some_iff]
  refine exists_congr fun e => ?_
  rw [parseInt32_eq_some, and_comm, eq_comm (a := elo)]

private theorem parsePosition_eq_some {text : String} {position : Option UInt64} :
    (parseUint64 text).map some = some position ↔
      ∃ hash : UInt64, position = some hash ∧ Decimal.Stands text.toList hash.toNat := by
  rw [Option.map_eq_some_iff]
  refine exists_congr fun hash => ?_
  rw [parseUint64_eq_some, and_comm, eq_comm (a := position)]

private theorem bind_eq_ok_iff {ε α β : Type} {x : Except ε α} {f : α → Except ε β} {b : β} :
    (x >>= f) = .ok b ↔ ∃ a, x = .ok a ∧ f a = .ok b := by
  cases x with
  | error e => simp [bind, Except.bind]
  | ok a => simp [bind, Except.bind]

private theorem bind_eq_error_iff {ε α β : Type} {x : Except ε α} {f : α → Except ε β} {e : ε} :
    (x >>= f) = .error e ↔ x = .error e ∨ ∃ a, x = .ok a ∧ f a = .error e := by
  cases x with
  | error e => simp [bind, Except.bind]
  | ok a => simp [bind, Except.bind]

private theorem gameListFilter_eq_ok : gameListFilter params = .ok filter ↔ ReadsAs params filter := by
  unfold gameListFilter
  simp only [bind_eq_ok_iff, readParam_eq_ok (fun _ _ => parseLimit_eq_some),
    readParam_eq_ok (fun _ _ => parseSize_eq_some), readParam_eq_ok (fun _ _ => parseElo_eq_some),
    readParam_eq_ok (fun _ _ => parsePlayerColor_eq_some),
    readParam_eq_ok (fun _ _ => parsePosition_eq_some)]
  constructor
  · rintro ⟨limit, hlimit, offset, hoffset, minElo, hmin, maxElo, hmax, color, hcolor, position,
      hposition, hfilter⟩
    obtain rfl := Except.ok.inj hfilter
    exact ⟨hlimit, hoffset, hmin, hmax, hcolor, hposition,
      fun _ => ⟨bind_toFilter, bind_toFilter, bind_toFilter⟩, rfl, rfl⟩
  · intro h
    refine ⟨filter.limit, h.limit, filter.offset, h.offset, filter.minElo, h.minElo, filter.maxElo,
      h.maxElo, filter.playerColor, h.color, filter.position, h.position, ?_⟩
    have hplayer : (params.lookup "player").bind toFilter = filter.playerName := by
      ext text
      exact bind_toFilter.trans (h.texts text).1.symm
    have hresult : (params.lookup "result").bind toFilter = filter.result := by
      ext text
      exact bind_toFilter.trans (h.texts text).2.1.symm
    have heco : (params.lookup "eco").bind toFilter = filter.ecoPrefix := by
      ext text
      exact bind_toFilter.trans (h.texts text).2.2.symm
    rw [hplayer, hresult, heco]
    refine congrArg Except.ok ?_
    rw [SearchFilter.mk.injEq]
    exact ⟨rfl, rfl, rfl, rfl, rfl, rfl, rfl, rfl, rfl, h.order.1.symm, h.order.2.symm⟩

private theorem gameListFilter_error {refusal : Response} (h : gameListFilter params = .error refusal) :
    ∃ message, refusal = jsonError 400 message := by
  unfold gameListFilter at h
  simp only [bind_eq_error_iff] at h
  rcases h with h | ⟨_, -, h | ⟨_, -, h | ⟨_, -, h | ⟨_, -, h | ⟨_, -, h | ⟨_, -, h⟩⟩⟩⟩⟩⟩
  · exact ⟨_, readParam_error h⟩
  · exact ⟨_, readParam_error h⟩
  · exact ⟨_, readParam_error h⟩
  · exact ⟨_, readParam_error h⟩
  · exact ⟨_, readParam_error h⟩
  · exact ⟨_, readParam_error h⟩
  · cases h

end Filters

section Listing

variable {rules : Chess.Rules} {Tree : Type}
  {buildTree : List ReplayGame → PositionPostings.Reader → List UInt8 → Result (List UInt8)}
  {openTree : List UInt8 → Result Tree} {sourceGameCount : Tree → ℕ}
  {b : Bundle (.ofRules rules Tree buildTree openTree sourceGameCount)}

private theorem ReadsAs.limit_le {params : Params} {filter : SearchFilter} (h : ReadsAs params filter) :
    filter.limit ≤ maxSearchLimit := by
  rcases h.limit with ⟨-, hdefault⟩ | ⟨text, -, n, -, -, hmin⟩
  · rw [hdefault]
    decide
  · rw [hmin]
    exact Nat.min_le_right _ _

/-- The answer to a filter: the part of the full result that it asks for, together with the length of
the full result, or a failure where it names a position and there are no current postings. -/
structure Lists (b : Bundle (.ofRules rules Tree buildTree openTree sourceGameCount))
    (filter : SearchFilter) (answer : Except Response GameListResult) : Prop where
  found : (filter.position.isSome = true → b.queriedPostings.isSome = true) →
    filter.offset ≤ sqliteMax → ∃ rows, b.IsFullResult filter rows ∧
      answer = .ok ⟨((rows.drop filter.offset).take filter.limit).map GameRow.listEntry, rows.length⟩
  stale : filter.position.isSome = true → b.queriedPostings.isSome = false →
    answer = .error (jsonError 500 "game list query failed")

/-- A search that needs no postings, or finds some, gives its page. -/
theorem findGames_eq_page {closed : Prop} (h : Bundle.Covered closed b)
    (hopen : b.manager.isSome = true) (hfit : b.tables.IdsFit) {filter : SearchFilter}
    (hposition : filter.position.isSome = true → b.queriedPostings.isSome = true)
    (hoffset : filter.offset ≤ sqliteMax) :
    b.findGames filter = .ok (filter.page (b.searchedRows filter)) := by
  cases hfilter : filter.position with
  | none =>
    apply Bundle.findGames_eq_page_of_none _ hfilter hoffset
    rw [← Option.not_isSome, hopen]
    rfl
  | some hash =>
    obtain ⟨⟨reader, file⟩, hasked⟩ := Option.isSome_iff_exists.mp (hposition (by rw [hfilter]; rfl))
    exact Bundle.findGames_eq_page (h.postingsValid hasked) hfit hoffset

/-- Every request for a list of games is answered as the one filter prescribes that its parameters
mean; or they mean none, and it is refused. -/
theorem getGames_answers {closed : Prop} (h : Bundle.Covered closed b)
    (hopen : b.manager.isSome = true) (hfit : b.tables.IdsFit) (params : Params) :
    (∃ filter, ReadsAs params filter ∧ (∀ other, ReadsAs params other → other = filter) ∧
      Lists b filter (getGames b.findGames params)) ∨
    (∀ filter, ¬ReadsAs params filter) ∧
      ∃ message, getGames b.findGames params = .error (jsonError 400 message) := by
  cases hread : gameListFilter params with
  | ok filter =>
    have hanswer : getGames b.findGames params =
        (b.findGames filter).mapError fun _ => jsonError 500 "game list query failed" := by
      rw [getGames, hread]
      rfl
    refine .inl ⟨filter, gameListFilter_eq_ok.mp hread, fun other hother => ?_, ?_, ?_⟩
    · exact Except.ok.inj ((gameListFilter_eq_ok.mpr hother).symm.trans hread)
    · intro hposition hoffset
      refine ⟨_, b.isFullResult hfit filter, ?_⟩
      have hlimit := (gameListFilter_eq_ok.mp hread).limit_le
      rw [hanswer, findGames_eq_page h hopen hfit hposition hoffset,
        SearchFilter.length_selected_inOrder]
      change Except.ok (filter.page _) = _
      rw [SearchFilter.page, fetchGameListPage, SearchFilter.effectiveLimit, Nat.min_eq_left hlimit]
    · intro hposition hnone
      rw [Option.isSome_eq_false_iff, Option.isNone_iff_eq_none] at hnone
      rw [hanswer, Bundle.findGames_of_queriedPostings_none hnone hposition]
      rfl
  | error refusal =>
    refine .inr ⟨fun filter hfilter => ?_, ?_⟩
    · cases hread.symm.trans (gameListFilter_eq_ok.mpr hfilter)
    · obtain ⟨message, rfl⟩ := gameListFilter_error hread
      refine ⟨message, ?_⟩
      rw [getGames, hread]
      rfl

end Listing

section Replays

variable (library : Chess.Library)

/-- The hash of a replayed game after some plies. -/
def GamePositions.hashAt (positions : GamePositions) (ply : ℕ) : Option String :=
  (positions.startingHash :: positions.hashes)[ply]?

private theorem getElem?_replayTexts (board : library.Board) (moves : List UInt16) (ply : ℕ) :
    (toString (library.hash board).toNat ::
      (replayTexts library board moves).map fun texts => texts.2.2)[ply]? =
      if ply ≤ moves.length then
        some (toString (library.hash (library.play board (moves.take ply))).toNat) else none := by
  induction moves generalizing board ply with
  | nil =>
    cases ply with
    | zero => rfl
    | succ ply => rfl
  | cons move moves ih =>
    cases ply with
    | zero => rfl
    | succ ply =>
      rw [List.getElem?_cons_succ, List.length_cons]
      refine (ih (library.applyEncodedMove board move) ply).trans ?_
      simp only [Nat.add_le_add_iff_right]
      rfl

private theorem toString_toNat_inj {hash other : UInt64} (h : toString hash.toNat = toString other.toNat) :
    hash = other := by
  have hstands := Decimal.stands_repr hash.toNat
  rw [← Nat.toString_eq_repr, h, Nat.toString_eq_repr] at hstands
  exact UInt64.toNat_inj.mp (hstands.unique (Decimal.stands_repr other.toNat))

private theorem hashAt_eq_some {game : Game} {ply : ℕ} {hash : UInt64} :
    (gameToPositions library game).hashAt ply = some (toString hash.toNat) ↔
      PositionPostings.ReachesAt library.toRules game.moves hash ply := by
  have hget := getElem?_replayTexts library library.start game.moves ply
  change (gameToPositions library game).hashAt ply = _ at hget
  rw [hget]
  constructor
  · intro h
    split at h
    next hle => exact ⟨hle, toString_toNat_inj (Option.some.inj h)⟩
    next => cases h
  · rintro ⟨hle, rfl⟩
    exact if_pos hle

end Replays

section Positions

variable {library : Chess.Library} {Tree : Type}
  {buildTree : List ReplayGame → PositionPostings.Reader → List UInt8 → Result (List UInt8)}
  {openTree : List UInt8 → Result Tree} {sourceGameCount : Tree → ℕ}
  {b : Bundle (.ofRules library.toRules Tree buildTree openTree sourceGameCount)}

private theorem parse_toString {n bound : ℕ} (h : n ≤ bound) :
    Decimal.readWhole bound (toString n).toList = some n := by
  rw [Nat.toString_eq_repr]
  exact Decimal.readWhole_repr h

private theorem toString_ne_empty (n : ℕ) : toString n ≠ "" := by
  rw [Nat.toString_eq_repr]
  exact Nat.repr_ne_empty

private theorem parseSize_toString {n : ℕ} (h : n < 2 ^ 64) : parseSize (toString n) = some n := by
  rw [parseSize, if_neg (toString_ne_empty n), parse_toString (by omega)]

private theorem readNonempty_given {α : Type} {params : Params} {name message text : String}
    {parse : String → Option α} {default value : α} (hgiven : params.lookup name = some text)
    (hne : text ≠ "") (hparse : parse text = some value) :
    readNonempty params name parse default message = .ok value := by
  rw [readNonempty, hgiven, Option.getD_some, if_neg hne, hparse]
  rfl

/-- A request for so many matches from an offset on. -/
def pageParams (size offset : ℕ) : Params := [("limit", toString size), ("offset", toString offset)]

private theorem queryPositionMatches_eq (h : b.ValidPostings) (hash : UInt64) {limit : ℕ} (offset : ℕ)
    (hlimit : limit ≠ 0) :
    b.queryPositionMatches hash limit offset = .ok (((b.matchesAt hash).drop offset).take limit) := by
  obtain ⟨reader, bytes, hanswers, hask⟩ := h.ask
  rw [Bundle.queryPositionMatches, hask, hanswers.occurrences, PositionPostings.window, if_neg hlimit,
    List.map_take, List.map_drop]
  rfl

private theorem getPositionMatches_eq (h : b.ValidPostings) (hash : UInt64) {size offset : ℕ}
    (hpositive : 0 < size) (hsize : size < 2 ^ 64) (hoffset : offset < 2 ^ 64) :
    getPositionMatches b.queryPositionMatches (toString hash.toNat) (pageParams size offset) =
      .ok (((b.matchesAt hash).drop offset).take (min size maxMatchLimit)) := by
  have hlt := hash.toNat_lt
  have hpath : pathHash (toString hash.toNat) = .ok hash := by
    rw [pathHash, parse_toString (by omega), Option.map_some, UInt64.ofNat_toNat]
    rfl
  have hlimit : readNonempty (pageParams size offset) "limit" (fun text => (parseSize text).map fun n =>
      min n maxMatchLimit) defaultMatchLimit "invalid pagination parameters" =
      .ok (min size maxMatchLimit) := by
    refine readNonempty_given rfl (toString_ne_empty size) ?_
    rw [parseSize_toString hsize]
    rfl
  have hskip : readNonempty (pageParams size offset) "offset" parseSize 0
      "invalid pagination parameters" = .ok offset :=
    readNonempty_given rfl (toString_ne_empty offset) (parseSize_toString hoffset)
  have hnonzero : min size maxMatchLimit ≠ 0 := by
    unfold maxMatchLimit
    omega
  refine bind_eq_ok_iff.mpr ⟨hash, hpath, bind_eq_ok_iff.mpr ⟨_, hlimit,
    bind_eq_ok_iff.mpr ⟨_, hskip, ?_⟩⟩⟩
  rw [if_neg, queryPositionMatches_eq h hash offset hnonzero]
  · rfl
  · rw [Bool.and_eq_true, decide_eq_true_iff]
    exact fun hzero => hnonzero hzero.2

private theorem card_occurrences_le {s : Finset Occurrence} {m n : ℕ} (hids : ∀ o ∈ s, o.id.toNat < m)
    (hplies : ∀ o ∈ s, o.ply.toNat < n) : s.card ≤ m * n := by
  have hmaps : ∀ o ∈ s, (o.id.toNat, o.ply.toNat) ∈ Finset.range m ×ˢ Finset.range n := by
    intro o ho
    exact Finset.mem_product.mpr
      ⟨Finset.mem_range.mpr (hids o ho), Finset.mem_range.mpr (hplies o ho)⟩
  have hcard := Finset.card_le_card_of_injOn (s := s) (fun o => (o.id.toNat, o.ply.toNat)) hmaps
    fun o _ o' _ hsame => by
      obtain ⟨hid, hply⟩ := Prod.mk.inj hsame
      cases o
      cases o'
      exact congrArg₂ Occurrence.mk (UInt32.toNat_inj.mp hid) (UInt16.toNat_inj.mp hply)
  rw [Finset.card_product, Finset.card_range, Finset.card_range] at hcard
  exact hcard

private theorem length_matchesAt_le (hash : UInt64) : (b.matchesAt hash).length ≤ 2 ^ 48 := by
  have hcard := card_occurrences_le (s := PositionPostings.occurrenceSet b.replayedRows hash)
    (fun o _ => o.id.toNat_lt) fun o _ => o.ply.toNat_lt
  rw [Bundle.matchesAt, List.length_map, PositionPostings.occurrencesAt, Finset.length_sort]
  omega

variable (library) in
/-- A search by position is read to its end page by page, and it finds a game after some plies exactly
if the replayed game shows the position there. -/
structure PositionsAgree (b : Bundle (.ofRules library.toRules Tree buildTree openTree sourceGameCount)) :
    Prop where
  pages : ∀ (hash : UInt64) (size : ℕ), 0 < size → size < 2 ^ 64 → ∃ pages : List (List PositionMatch),
    (List.range pages.length).map (fun i => getPositionMatches b.queryPositionMatches
      (toString hash.toNat) (pageParams size (i * min size maxMatchLimit))) = pages.map Except.ok ∧
    pages.flatten = b.matchesAt hash
  replays : ∀ row ∈ b.tables.games, 0 < row.id → ∃ positions,
    getGamePositions library b.tables.get (toString row.id) = .ok positions ∧
      ∀ (ply : ℕ) (hash : UInt64), positions.hashAt ply = some (toString hash.toNat) ↔
        ∃ found ∈ b.matchesAt hash, found.gameId.toNat = row.id ∧ found.ply.toNat = ply

variable (library) in
/-- Over HTTP the pages of a position are all of its occurrences, each once and in order, and they are
exactly where the replayed games show the position. -/
theorem positionsAgree (h : b.ValidPostings) (hfit : b.tables.IdsFit) : PositionsAgree library b where
  pages := by
    intro hash size hpositive hsize
    set step := min size maxMatchLimit with hstep
    have hle := length_matchesAt_le (b := b) hash
    have hsmall : step ≤ 500 := Nat.min_le_right _ _
    have hone : 1 ≤ step := by
      rw [hstep, maxMatchLimit]
      omega
    refine ⟨(List.range (b.matchesAt hash).length).map fun i =>
      ((b.matchesAt hash).drop (i * step)).take step, ?_, ?_⟩
    · rw [List.length_map, List.length_range, List.map_map]
      refine List.map_congr_left fun i hi => ?_
      have hlt := List.mem_range.mp hi
      refine getPositionMatches_eq h hash hpositive hsize ?_
      calc i * step ≤ 2 ^ 48 * 500 := Nat.mul_le_mul (hlt.le.trans hle) hsmall
        _ < 2 ^ 64 := by decide
    · have hflat := flatMap_pages (b.matchesAt hash) 0 step (b.matchesAt hash).length
      simp only [Nat.zero_add] at hflat
      rw [← List.flatMap_def, hflat, List.drop_zero,
        List.take_of_length_le (Nat.le_mul_of_pos_right _ hone)]
  replays := by
    intro row hrow hpositive
    have hid : (UInt32.ofNat row.id).toNat = row.id := hfit.toNat_id hrow
    have hparse : parseGameId (toString row.id) = some (UInt32.ofNat row.id) := by
      rw [parseGameId_eq_some, hid, Nat.toString_eq_repr]
      refine ⟨Decimal.stands_repr row.id, fun hzero => ?_⟩
      rw [hzero] at hid
      exact hpositive.ne hid
    refine ⟨gameToPositions library (b.tables.gameOf row).read, ?_, fun ply hash => ?_⟩
    · rw [getGamePositions, retrieveGame, hparse]
      dsimp only
      rw [hid, Tables.get_of_mem hrow]
      rfl
    · rw [hashAt_eq_some]
      constructor
      · intro hreaches
        have hreaches' : PositionPostings.ReachesAt library.toRules row.stored.moves hash ply := hreaches
        refine ⟨_, List.mem_map_of_mem (h.mem_occurrencesAt hrow hreaches'), hid, h.toNat_ply hrow hreaches'⟩
      · rintro ⟨found, hfound, hgame, rfl⟩
        obtain ⟨other, hother, hsame, hreaches, -⟩ := (Bundle.mem_matchesAt h).mp hfound
        rw [hsame, hfit.toNat_id hother] at hgame
        obtain rfl := hfit.eq_of_id hother hrow (by rw [hgame])
        exact hreaches

end Positions

section Sample

private theorem valid_searchedSample : ∃ b ∈ Bundle.searchedSample,
    Bundle.Covered (b.manager = none) b ∧ b.manager.isSome = true ∧ b.ValidPostings ∧
      b.tables.IdsFit := by
  have hrun : (Bundle.searchedSample.map fun b => (b.manager.isSome, b.queriedPostings.isSome,
      b.tables.games.all fun row => row.id < 2 ^ 32)) = some (true, true, true) := by
    decide +kernel
  obtain ⟨b, hb, heq⟩ := Option.map_eq_some_iff.mp hrun
  obtain ⟨hopen, heq⟩ := Prod.mk.inj heq
  obtain ⟨hfound, hids⟩ := Prod.mk.inj heq
  have hreaches := System.reaches_of_run hb
  exact ⟨b, hb, Bundle.covered_of_reaches hreaches, hopen,
    Bundle.validPostings_of_reaches hreaches hfound,
    fun row hrow => of_decide_eq_true (List.all_eq_true.mp hids row hrow)⟩

private def secondGame : Params := [("offset", "01"), ("limit", "9000"), ("position_hash", "0")]

/-- The second game of a position, with a limit above the largest. -/
theorem getGames_answers_sample : ∃ b ∈ Bundle.searchedSample, ∃ filter rows,
    ReadsAs secondGame filter ∧ filter.limit = 500 ∧ b.IsFullResult filter rows ∧
      getGames b.findGames secondGame = .ok ⟨((rows.drop 1).take 500).map GameRow.listEntry,
        rows.length⟩ := by
  obtain ⟨b, hb, hcovered, hopen, hvalid, hfit⟩ := valid_searchedSample
  have hreads : ReadsAs secondGame { position := some 0, offset := 1, limit := 500 } :=
    gameListFilter_eq_ok.mp (by rfl)
  refine ⟨b, hb, ?_⟩
  rcases getGames_answers hcovered hopen hfit secondGame with
    ⟨filter, hfilter, hunique, hanswer⟩ | ⟨hnone, -⟩
  · obtain rfl := hunique _ hreads
    obtain ⟨reader, bytes, hasked, -⟩ := hvalid
    obtain ⟨rows, hrows, hgames⟩ := hanswer.found (fun _ => by rw [hasked]; rfl) (by decide)
    exact ⟨_, rows, hfilter, rfl, hrows, hgames⟩
  · exact absurd hreads (hnone _)

private def sumsLibrary : Chess.Library where
  toRules := .ofSums
  writeFen _ := ""
  parseFen _ := none
  legalMoves _ := []

theorem positionsAgree_sample : ∃ b ∈ Bundle.searchedSample, PositionsAgree sumsLibrary b := by
  obtain ⟨b, hb, -, -, hvalid, hfit⟩ := valid_searchedSample
  exact ⟨b, hb, positionsAgree sumsLibrary hvalid hfit⟩

end Sample

end MotifChess.Http
