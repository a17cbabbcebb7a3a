/- GID: MotifChess/Db/GameContents
   generality: implementation
   digest: What a database stores apart from row ids and collision numbers, and how writes change it. -/

import MotifChess.Db.GameTable

set_option autoImplicit false
set_option relaxedAutoImplicit false

namespace MotifChess.Db

open MotifChess.Order.FirstWins

/-- The stored players, events and games, the first of every name or identity. -/
structure Contents where
  players : List Player
  events : List Event
  games : List StoredGame
  deriving DecidableEq

namespace Contents

/-- The contents after one more game; a game that is already stored changes nothing. -/
def add (c : Contents) (game : Game) : Contents where
  players := insertAll Player.name c.players [game.white, game.black]
  events := insertAll Event.name c.events game.eventDetails.toList
  games := insertNew StoredGame.identity c.games (StoredGame.ofGame game)

def addAll (c : Contents) (games : List Game) : Contents := games.foldl add c

/-- The contents know a game: its players, its event and the game itself are stored. -/
structure Knows (c : Contents) (game : Game) : Prop where
  players : ∀ player ∈ [game.white, game.black], player.name ∈ c.players.map Player.name
  event : ∀ event ∈ game.eventDetails.toList, event.name ∈ c.events.map Event.name
  game : (StoredGame.ofGame game).identity ∈ c.games.map StoredGame.identity

section Adding

variable {c : Contents} {game other : Game} {games : List Game}

theorem add_of_knows (h : c.Knows game) : c.add game = c := by
  rw [add, insertAll_of_forall_mem h.players, insertAll_of_forall_mem h.event,
    insertNew_of_mem h.game]

private theorem knows_add : (c.add game).Knows game where
  players _ hplayer := mem_map_insertAll.mpr (.inr (List.mem_map_of_mem hplayer))
  event _ hevent := mem_map_insertAll.mpr (.inr (List.mem_map_of_mem hevent))
  game := mem_map_insertNew.mpr (.inr rfl)

theorem Knows.add (h : c.Knows game) : (c.add other).Knows game where
  players player hplayer := mem_map_insertAll.mpr (.inl (h.players player hplayer))
  event event hevent := mem_map_insertAll.mpr (.inl (h.event event hevent))
  game := mem_map_insertNew.mpr (.inl h.game)

@[simp] theorem addAll_nil : c.addAll [] = c := rfl

theorem addAll_append (more : List Game) :
    c.addAll (games ++ more) = (c.addAll games).addAll more := List.foldl_append

theorem Knows.addAll (h : c.Knows game) : (c.addAll games).Knows game := by
  induction games generalizing c with
  | nil => exact h
  | cons other games ih => exact ih h.add

theorem knows_addAll (h : game ∈ games) : (c.addAll games).Knows game := by
  induction games generalizing c with
  | nil => contradiction
  | cons other games ih =>
    rcases List.mem_cons.mp h with rfl | hmem
    · exact knows_add.addAll
    · exact ih hmem

end Adding

end Contents

namespace Tables

variable {moveHash : List UInt16 → UInt64} {t t' : Tables} {game : Game}

/-- What the tables store, first rows first. -/
def contents (t : Tables) : Contents where
  players := t.players
  events := t.events
  games := firsts StoredGame.identity (t.games.map GameRow.stored)

/-- No two rows hold the same game. -/
def Unique (t : Tables) : Prop := (t.games.map GameRow.identity).Nodup

/-- The tables hold a game with this identity. -/
def Holds (t : Tables) (game : Game) : Prop :=
  (StoredGame.ofGame game).identity ∈ t.games.map GameRow.identity

instance : Decidable t.Unique := inferInstanceAs (Decidable (List.Nodup _))

instance : Decidable (t.Holds game) := inferInstanceAs (Decidable (_ ∈ _))

theorem map_identity_eq (l : List GameRow) :
    l.map GameRow.identity = (l.map GameRow.stored).map StoredGame.identity := by
  rw [List.map_map]
  rfl

theorem holds_iff_contents :
    t.Holds game ↔ (StoredGame.ofGame game).identity ∈ t.contents.games.map StoredGame.identity := by
  rw [Holds, contents, mem_map_firsts, map_identity_eq]

theorem Unique.contents_games (h : t.Unique) : t.contents.games = t.games.map GameRow.stored := by
  apply firsts_of_nodup
  rw [← map_identity_eq]
  exact h

section Inserting

@[simp] theorem addRow_games (collision : ℕ) (stored : StoredGame) (t : Tables) :
    (t.addRow collision stored).games = t.games ++ [⟨t.nextId, collision, stored⟩] := rfl

private theorem insertRow_ok {collision id : ℕ} {stored : StoredGame}
    (h : (t.insertRow moveHash collision stored).2 = .ok id) :
    (t.insertRow moveHash collision stored).1 = t.addRow collision stored := by
  unfold insertRow at h ⊢
  split_ifs at h ⊢ with hindex htags
  · rfl

theorem contents_findOrInsertNames_addRow (collision : ℕ) :
    ((t.findOrInsertNames game).addRow collision (StoredGame.ofGame game)).contents =
      t.contents.add game := by
  have hplayers := findOrInsertNames_players game t
  have hevents := findOrInsertNames_events game t
  simp only [contents, Contents.add, addRow, findOrInsertNames_games, List.map_append,
    List.map_singleton, firsts_concat, hplayers, hevents]

theorem contents_insertRaw {id : ℕ} (h : (t.insertRaw moveHash game).2 = .ok id) :
    (t.insertRaw moveHash game).1.contents = t.contents.add game := by
  rw [insertRaw] at h ⊢
  rw [insertRow_ok h, contents_findOrInsertNames_addRow]

theorem insert_of_holds (h : t.Holds game) :
    t.insert moveHash game = (t.findOrInsertNames game, .error .duplicate) := by
  have hany : (t.findOrInsertNames game).games.any
      (fun row => row.identity = (StoredGame.ofGame game).identity) = true := by
    obtain ⟨row, hrow, hid⟩ := List.mem_map.mp h
    rw [findOrInsertNames_games, List.any_eq_true]
    exact ⟨row, hrow, decide_eq_true hid⟩
  simp only [insert, hany, if_true]

theorem insert_of_not_holds (h : ¬ t.Holds game) :
    t.insert moveHash game = (t.findOrInsertNames game).insertRow moveHash
      ((t.findOrInsertNames game).nextCollision moveHash (StoredGame.ofGame game))
      (StoredGame.ofGame game) := by
  have hany : ¬ (t.findOrInsertNames game).games.any
      (fun row => row.identity = (StoredGame.ofGame game).identity) = true := by
    rw [findOrInsertNames_games, List.any_eq_true]
    rintro ⟨row, hrow, hid⟩
    exact h (List.mem_map.mpr ⟨row, hrow, of_decide_eq_true hid⟩)
  rw [insert]
  exact if_neg hany

theorem contents_insert
    (h : (∃ id, (t.insert moveHash game).2 = .ok id) ∨
      (t.insert moveHash game).2 = .error .duplicate) :
    (t.insert moveHash game).1.contents = t.contents.add game := by
  by_cases hholds : t.Holds game
  · rw [insert_of_holds hholds]
    have hplayers := findOrInsertNames_players game t
    have hevents := findOrInsertNames_events game t
    have hgames := insertNew_of_mem (holds_iff_contents.mp hholds)
    rw [contents] at hgames
    simp only [contents, Contents.add, findOrInsertNames_games, hplayers, hevents, hgames]
  · rw [insert_of_not_holds hholds] at h ⊢
    rcases h with ⟨id, hok⟩ | hdup
    · rw [insertRow_ok hok, contents_findOrInsertNames_addRow]
    · exfalso
      unfold insertRow at hdup
      split_ifs at hdup <;> simp at hdup

theorem unique_addRow {collision : ℕ} {stored : StoredGame} (h : t.Unique)
    (hnew : stored.identity ∉ t.games.map GameRow.identity) : (t.addRow collision stored).Unique := by
  rw [Unique, addRow_games, List.map_append, List.map_singleton]
  refine List.Nodup.append h (by simp) ?_
  simpa [GameRow.identity] using hnew

theorem insertRow_fst (collision : ℕ) (stored : StoredGame) :
    (t.insertRow moveHash collision stored).1 = t ∨ ∃ extraTags,
      (t.insertRow moveHash collision stored).1 =
        t.addRow collision { stored with extraTags } := by
  unfold insertRow
  split_ifs
  · exact .inl rfl
  · exact .inr ⟨stored.extraTags, rfl⟩
  · exact .inr ⟨_, rfl⟩

private theorem insertRow_cases (collision : ℕ) (stored : StoredGame) :
    t.insertRow moveHash collision stored = (t.addRow collision stored, .ok t.nextId) ∨
      ∃ t', t.insertRow moveHash collision stored = (t', .error .ioFailure) := by
  unfold insertRow
  split_ifs
  · exact .inr ⟨_, rfl⟩
  · exact .inl rfl
  · exact .inr ⟨_, rfl⟩

/-- A checked insert adds a row, rejects a stored game, or fails. -/
theorem insert_cases :
    (∃ collision, t.insert moveHash game =
      ((t.findOrInsertNames game).addRow collision (StoredGame.ofGame game),
        .ok (t.findOrInsertNames game).nextId)) ∨
    (t.Holds game ∧ t.insert moveHash game = (t.findOrInsertNames game, .error .duplicate)) ∨
    ∃ t', t.insert moveHash game = (t', .error .ioFailure) := by
  by_cases h : t.Holds game
  · exact .inr (.inl ⟨h, insert_of_holds h⟩)
  · rw [insert_of_not_holds h]
    rcases insertRow_cases _ _ with hok | herror
    · exact .inl ⟨_, hok⟩
    · exact .inr (.inr herror)

theorem insertRaw_cases :
    t.insertRaw moveHash game = ((t.findOrInsertNames game).addRow 0 (StoredGame.ofGame game),
      .ok (t.findOrInsertNames game).nextId) ∨
    ∃ t', t.insertRaw moveHash game = (t', .error .ioFailure) := insertRow_cases _ _

private theorem insertRow_identityIndex (collision : ℕ) (stored : StoredGame) :
    (t.insertRow moveHash collision stored).1.identityIndex = t.identityIndex := by
  rcases insertRow_fst collision stored with h | ⟨extraTags, h⟩ <;> rw [h]
  rfl

@[simp] theorem insert_identityIndex :
    (t.insert moveHash game).1.identityIndex = t.identityIndex := by
  by_cases h : t.Holds game
  · rw [insert_of_holds h, findOrInsertNames_identityIndex]
  · rw [insert_of_not_holds h, insertRow_identityIndex, findOrInsertNames_identityIndex]

@[simp] theorem insertRaw_identityIndex :
    (t.insertRaw moveHash game).1.identityIndex = t.identityIndex := by
  rw [insertRaw, insertRow_identityIndex, findOrInsertNames_identityIndex]

private theorem unique_findOrInsertNames (h : t.Unique) : (t.findOrInsertNames game).Unique := by
  rwa [Unique, findOrInsertNames_games]

theorem unique_insert (h : t.Unique) : (t.insert moveHash game).1.Unique := by
  by_cases hholds : t.Holds game
  · rw [insert_of_holds hholds]
    exact unique_findOrInsertNames h
  · rw [insert_of_not_holds hholds]
    rcases @insertRow_fst moveHash (t.findOrInsertNames game)
      ((t.findOrInsertNames game).nextCollision moveHash (StoredGame.ofGame game))
      (StoredGame.ofGame game) with hsame | ⟨extraTags, hadd⟩
    · rw [hsame]
      exact unique_findOrInsertNames h
    · rw [hadd]
      apply unique_addRow (unique_findOrInsertNames h)
      rwa [findOrInsertNames_games]

end Inserting

section Reading

/-- A row is found under its id. -/
theorem findGame_of_mem {row : GameRow} (h : row ∈ t.games) : t.findGame row.id = .ok row := by
  have hfound : (t.games.find? fun other => other.id = row.id) = some row := by
    rw [List.find?_eq_some_iff_append]
    obtain ⟨before, after, happend⟩ := List.append_of_mem h
    refine ⟨by simp, before, after, happend, fun other hother => ?_⟩
    have hasc := t.ascending
    rw [happend, List.pairwise_append] at hasc
    simp [(hasc.2.2 other hother row List.mem_cons_self).ne]
  rw [findGame, hfound]

theorem findGame_eq_ok {id : ℕ} {row : GameRow} (h : t.findGame id = .ok row) :
    row ∈ t.games ∧ row.id = id := by
  rw [findGame] at h
  split at h
  · contradiction
  next found hfound =>
    obtain rfl := Except.ok.inj h
    exact ⟨List.mem_of_find?_eq_some hfound, by simpa using List.find?_some hfound⟩

theorem get_of_mem {row : GameRow} (h : row ∈ t.games) :
    t.get row.id = .ok (t.gameOf row).read := by
  rw [get, findGame_of_mem h]
  rfl

theorem get_of_forall_ne {id : ℕ} (h : ∀ row ∈ t.games, row.id ≠ id) :
    t.get id = .error .notFound := by
  have hnone : t.games.find? (fun row => row.id = id) = none := by
    rw [List.find?_eq_none]
    exact fun row hrow => by simpa using h row hrow
  rw [get, findGame, hnone]
  rfl

theorem get_eq_ok {id : ℕ} {g : Game} (h : t.get id = .ok g) :
    ∃ row ∈ t.games, row.id = id ∧ g = (t.gameOf row).read := by
  obtain ⟨row, hfind, hg⟩ := bind_eq_ok.mp h
  obtain ⟨hmem, hid⟩ := findGame_eq_ok hfind
  exact ⟨row, hmem, hid, (Except.ok.inj hg).symm⟩

end Reading

end Tables

end MotifChess.Db
