/- GID: MotifChess/Db/Store/AlikeInserts
   generality: implementation
   digest: A checked and a raw insert of one game, which a reader cannot tell apart. -/

import MotifChess.Db.Store.Calls

set_option autoImplicit false
set_option relaxedAutoImplicit false

namespace MotifChess.Db.Store

open MotifChess.System Stateful

variable {moveHash : List UInt16 → UInt64} {rows rows' : Rows}

/-- A game row less its collision number, which no reader of the game sees. -/
def GameRow.withoutCollision (row : GameRow) : GameRow := { row with identityCollision := 0 }

/-- Tables that differ in collision numbers and in the presence of the identity index only. -/
structure AlikeRows (rows rows' : Rows) : Prop where
  named : rows.named = rows'.named
  gameTags : rows.gameTags = rows'.gameTags
  games : rows.games.map GameRow.withoutCollision = rows'.games.map GameRow.withoutCollision

/-- The tables and the caches of two calls are alike, whatever their statements will run into. -/
structure Alike (s s' : CallState moveHash) : Prop extends AlikeRows s.db.toRows s'.db.toRows where
  caches : s.caches = s'.caches

section Reading

namespace AlikeRows

theorem rowOf (h : AlikeRows rows rows') (kind : NameKind) (id : ℕ) :
    rows.rowOf kind id = rows'.rowOf kind id := by
  rw [Rows.rowOf, Rows.rowOf, h.named]

theorem idOf (h : AlikeRows rows rows') (kind : NameKind) (name : String) :
    rows.idOf kind name = rows'.idOf kind name := by
  rw [Rows.idOf, Rows.idOf, h.named]

theorem nextId (h : AlikeRows rows rows') (kind : NameKind) :
    rows.nextId kind = rows'.nextId kind := by
  rw [Rows.nextId, Rows.nextId, Rows.ids, Rows.ids, h.named]

theorem nextGameId (h : AlikeRows rows rows') : rows.nextGameId = rows'.nextGameId := by
  have hids : ∀ games : List GameRow,
      games.map GameRow.id = (games.map GameRow.withoutCollision).map GameRow.id := by
    intro games
    rw [List.map_map]
    rfl
  rw [Rows.nextGameId, Rows.nextGameId, hids, h.games, ← hids]

theorem extraTagsOf (h : AlikeRows rows rows') (id : ℕ) :
    rows.extraTagsOf id = rows'.extraTagsOf id := by
  have htagOf : rows.tagOf id = rows'.tagOf id := by
    ext1 tag
    rw [Rows.tagOf, Rows.tagOf, h.rowOf]
  rw [Rows.extraTagsOf, Rows.extraTagsOf, h.gameTags, htagOf]

theorem findGame (h : AlikeRows rows rows') (id : ℕ) :
    (rows.findGame id).map GameRow.withoutCollision =
      (rows'.findGame id).map GameRow.withoutCollision := by
  have hfind : ∀ games : List GameRow,
      (games.find? fun row => row.id = id).map GameRow.withoutCollision =
        (games.map GameRow.withoutCollision).find? fun row => row.id = id := by
    intro games
    rw [List.find?_map]
    rfl
  unfold Rows.findGame
  rw [hfind, hfind, h.games]

/-- Alike tables read alike. -/
theorem get (h : AlikeRows rows rows') (id : ℕ) : rows.get id = rows'.get id := by
  have hfound := h.findGame id
  unfold Rows.get Rows.gameAt
  cases hrow : rows.findGame id with
  | none =>
    rw [hrow, Option.map_none] at hfound
    rw [Option.map_eq_none_iff.mp hfound.symm]
  | some row =>
    rw [hrow, Option.map_some] at hfound
    obtain ⟨row', hrow', hsame⟩ := Option.map_eq_some_iff.mp hfound.symm
    rw [hrow']
    obtain ⟨-, hwhite, hblack, hevent, hdate, hresult, heco, hmoves, -, hprovenance, hwhiteElo,
      hblackElo⟩ := GameRow.mk.inj hsame
    simp only [← hwhite, ← hblack, ← hevent, ← hdate, ← hresult, ← heco, ← hmoves, ← hprovenance,
      ← hwhiteElo, ← hblackElo, h.rowOf, h.extraTagsOf]

end AlikeRows

end Reading

section Inserting

private theorem paired_exec {change change' : Rows → Result Rows}
    (h : ∀ rows rows' next next', AlikeRows rows rows' → change rows = .ok next →
      change' rows' = .ok next' → AlikeRows next next') :
    Paired (@Alike moveHash) (exec change) (exec change') := by
  intro s s' hs a t b t' ht ht'
  unfold exec at ht ht'
  split at ht
  next => cases ht
  split at ht
  next => cases ht
  next rows hrows =>
  split at ht
  next hconsistent =>
    split at ht'
    next => cases ht'
    split at ht'
    next => cases ht'
    next rows' hrows' =>
    split at ht'
    next hconsistent' =>
      obtain ⟨-, rfl⟩ := Prod.mk.inj ht
      obtain ⟨-, rfl⟩ := Prod.mk.inj ht'
      exact ⟨rfl, h _ _ rows rows' hs.toAlikeRows hrows hrows', hs.caches⟩
    next => cases ht'
  next => cases ht

private theorem paired_remember (kind : NameKind) (name : String) (id : ℕ) :
    Paired (@Alike moveHash) (remember kind name id) (remember kind name id) := by
  apply Paired.modify
  intro s s' hs
  exact ⟨hs.toAlikeRows, by rw [hs.caches]⟩

private theorem paired_findOrInsert (kind : NameKind) (row : kind.Row) :
    Paired (@Alike moveHash) (findOrInsert kind row) (findOrInsert kind row) := by
  refine Paired.read_bind (fun s s' hs => by rw [hs.caches]) fun cached => ?_
  cases cached with
  | some id => exact Paired.pure id
  | none =>
    refine Paired.read_bind (fun s s' hs => hs.idOf kind _) fun found => ?_
    cases found with
    | some id => exact (paired_remember kind _ id).bind fun _ => Paired.pure id
    | none =>
      refine Paired.read_bind (fun s s' hs => hs.nextId kind) fun id => ?_
      refine Paired.bind (paired_exec ?_) fun _ =>
        (paired_remember kind _ id).bind fun _ => Paired.pure id
      intro rows rows' next next' hrows hnext hnext'
      obtain rfl := Except.ok.inj hnext
      obtain rfl := Except.ok.inj hnext'
      refine ⟨?_, hrows.gameTags, hrows.games⟩
      simp only [Rows.insertNamed, hrows.named, hrows.nextId]

private theorem paired_insertGameTags (gameId : ℕ) (tags : List (String × String)) :
    Paired (@Alike moveHash) (insertGameTags gameId tags)
      (insertGameTags gameId tags) := by
  induction tags with
  | nil => exact Paired.pure ()
  | cons tag tags ih =>
    refine Paired.bind (paired_findOrInsert .tag tag.1) fun tagId =>
      Paired.bind (paired_exec ?_) fun _ => ih
    intro rows rows' next next' hrows hnext hnext'
    obtain rfl := Except.ok.inj hnext
    obtain rfl := Except.ok.inj hnext'
    refine ⟨hrows.named, ?_, hrows.games⟩
    simp only [Rows.insertGameTag, hrows.gameTags]

private theorem paired_eventIdOf (event : Option Event) :
    Paired (@Alike moveHash) (eventIdOf event) (eventIdOf event) := by
  cases event with
  | none => exact Paired.pure none
  | some event => exact Paired.bind (paired_findOrInsert .event event) fun id => Paired.pure (some id)

private theorem insertGameRow_eq_addGame {raw : Bool} {columns : GameRow} {rows next : Rows}
    (h : @insertGameRow moveHash raw columns rows = .ok next) :
    ∃ identityCollision, next = rows.addGame { columns with
      id := rows.nextGameId
      identityCollision } := by
  unfold insertGameRow at h
  dsimp only at h
  split at h
  next => exact ⟨columns.identityCollision, (Except.ok.inj h).symm⟩
  next =>
    split at h
    next => cases h
    next => exact ⟨_, (Except.ok.inj h).symm⟩

private theorem paired_insertBody (raw raw' : Bool) (game : Game) :
    Paired (@Alike moveHash) (insertBody raw game) (insertBody raw' game) := by
  refine Paired.bind ?_ fun id =>
    (paired_insertGameTags id game.extraTags).bind fun _ => Paired.pure id
  refine Paired.bind (paired_findOrInsert .player game.white) fun whiteId =>
    (Paired.bind (paired_findOrInsert .player game.black)) fun blackId =>
    (paired_eventIdOf game.eventDetails).bind fun eventId => ?_
  refine Paired.read_bind (fun s s' hs => hs.nextGameId) fun id => ?_
  refine Paired.bind (paired_exec ?_) fun _ => Paired.pure _
  intro rows rows' next next' hrows hnext hnext'
  obtain ⟨collision, rfl⟩ := insertGameRow_eq_addGame hnext
  obtain ⟨collision', rfl⟩ := insertGameRow_eq_addGame hnext'
  refine ⟨hrows.named, hrows.gameTags, ?_⟩
  simp only [Rows.addGame, List.map_append, hrows.games, hrows.nextGameId]
  rfl

/-- The inserts of one game into one database give it one id and leave it reading alike, checked
or raw, in a transaction of their own or in a batch. -/
theorem get_inserted_eq {joined joined' raw raw' : Bool} {game : Game}
    {s s' t t' : CallState moveHash} {id id' : ℕ} (hdb : s.db = s'.db) (hcaches : s.caches = s'.caches)
    (h : guarded joined (insertBody raw game) s = (.ok id, t))
    (h' : guarded joined' (insertBody raw' game) s' = (.ok id', t')) :
    t.db.get id = t'.db.get id' := by
  obtain ⟨s₀, t₀, hs, hscaches, hbody, ht, htcaches⟩ := guarded_eq_ok h
  obtain ⟨s₀', t₀', hs', hscaches', hbody', ht', htcaches'⟩ := guarded_eq_ok h'
  have hstart : Alike s₀ s₀' := by
    refine ⟨⟨?_, ?_, ?_⟩, by rw [hscaches, hscaches', hcaches]⟩ <;> rw [hs, hs', hdb]
  obtain ⟨rfl, halike⟩ := paired_insertBody raw raw' game s₀ s₀' hstart _ _ _ _ hbody hbody'
  rw [← ht, ← ht']
  exact halike.get id

end Inserting

end MotifChess.Db.Store
