/- GID: MotifChess/Db/Store/Calls
   generality: implementation
   digest: What the calls of a writer and of the store leave behind, alone and inside a batch. -/

import MotifChess.Db.Store.Totality

set_option autoImplicit false
set_option relaxedAutoImplicit false

namespace MotifChess.Db.Store

open MotifChess.System Stateful

variable {moveHash : List UInt16 → UInt64} {start : CallState moveHash}

section Guards

variable {α : Type} {body : Call moveHash α} {P E : CallState moveHash → Prop}
  {Q : α → CallState moveHash → Prop}

private theorem guarded_joined (h : Ensures P body Q E) : Ensures P (guarded true body) Q
    (fun s' => ∃ s, E s ∧ s'.db = s.db ∧ s'.caches = .empty) := by
  intro s hs
  have hrun := h s hs
  unfold guarded
  rw [if_pos rfl]
  cases hbody : body s with
  | mk r s' =>
    rw [hbody] at hrun
    cases r with
    | ok a => exact hrun
    | error e => exact ⟨s', hrun, rfl, rfl⟩

private theorem guarded_alone (start : CallState moveHash) (h : Ensures (fun s => s.db = start.db ∧ s.caches = start.caches) body Q E) :
    Ensures (fun s => s = start) (guarded false body)
      (fun a s' => ∃ s, Q a s ∧ s'.db = s.db ∧ s'.caches = s.caches)
      (fun s' => s'.db = start.db ∧ (s'.caches = start.caches ∨ s'.caches = .empty)) := by
  rintro s rfl
  unfold guarded
  rw [if_neg Bool.false_ne_true]
  by_cases hworks : s.nextWorks
  · rw [if_neg (by simp [hworks])]
    have hrun := h s.passed ⟨rfl, rfl⟩
    cases hbody : body s.passed with
    | mk r s' =>
      rw [hbody] at hrun
      cases r with
      | ok a =>
        dsimp only
        split_ifs
        · exact ⟨s', hrun, rfl, rfl⟩
        · exact ⟨rfl, .inr rfl⟩
      | error e => exact ⟨rfl, .inr rfl⟩
  · rw [if_pos (by simp [hworks])]
    exact ⟨rfl, .inl rfl⟩

/-- A transaction of its own is undone by a failure. -/
theorem guarded_alone_failed {e : ErrorCode} {s : CallState moveHash}
    (h : guarded false body start = (.error e, s)) :
    s.db = start.db ∧ (s.caches = start.caches ∨ s.caches = .empty) := by
  have hspec : Ensures (fun s => s.db = start.db ∧ s.caches = start.caches) body
      (fun _ _ => True) (fun _ => True) := fun s _ => by
    split <;> trivial
  exact (guarded_alone start hspec).of_error rfl h

/-- What the body leaves in the database, or what was there before, is what the guarded body leaves. -/
theorem guarded_db {joined : Bool} {D : Database moveHash → Prop} (hstart : D start.db)
    (h : Ensures (fun s => s.db = start.db ∧ s.caches = start.caches) body (fun _ s => D s.db)
      (fun s => D s.db)) : D (guarded joined body start).2.db := by
  have hends : ∀ a s, guarded joined body start = (.ok a, s) → D s.db := by
    intro a s hrun
    cases joined with
    | true => exact (guarded_joined h).of_ok ⟨rfl, rfl⟩ hrun
    | false =>
      obtain ⟨t, ht, hdb, -⟩ := (guarded_alone start h).of_ok rfl hrun
      exact hdb ▸ ht
  cases hrun : guarded joined body start with
  | mk r s =>
    cases r with
    | ok a => exact hends a s hrun
    | error e =>
      cases joined with
      | true =>
        obtain ⟨t, ht, hdb, -⟩ := (guarded_joined h).of_error ⟨rfl, rfl⟩ hrun
        exact hdb ▸ ht
      | false => exact (guarded_alone_failed hrun).1 ▸ hstart

/-- What a guarded body leaves when it succeeds is what the body leaves, with more statements
used up. -/
theorem guarded_eq_ok {joined : Bool} {body : Call moveHash α}
    {s t : CallState moveHash} {a : α} (h : guarded joined body s = (.ok a, t)) :
    ∃ s₀ t₀, s₀.db = s.db ∧ s₀.caches = s.caches ∧ body s₀ = (.ok a, t₀) ∧ t₀.db = t.db ∧
      t₀.caches = t.caches := by
  unfold guarded at h
  split at h
  next =>
    split at h
    next hbody =>
      obtain ⟨ha, rfl⟩ := Prod.mk.inj h
      rw [ha] at hbody
      exact ⟨s, _, rfl, rfl, hbody, rfl, rfl⟩
    next => cases h
  next =>
    split at h
    next => cases h
    split at h
    next => cases h
    next hbody =>
      split at h
      next =>
        obtain ⟨ha, rfl⟩ := Prod.mk.inj h
        rw [ha] at hbody
        exact ⟨s.passed, _, rfl, rfl, hbody, rfl, rfl⟩
      next => cases h

theorem guarded_total {R : α → Database moveHash → Prop} (hstart : start.Works)
    (h : Ensures (fun s => s = start) body (fun a s => R a s.db ∧ s.Works) (fun _ => False)) :
    ∃ a s, guarded false body start = (.ok a, s) ∧ R a s.db := by
  have hpassed : start.passed = start := by
    obtain ⟨db, caches, works⟩ := start
    obtain rfl : works = [] := hstart
    rfl
  have hrun := h start rfl
  unfold guarded
  rw [if_neg Bool.false_ne_true, if_neg (by simp [hstart.nextWorks]), hpassed]
  cases hbody : body start with
  | mk r s =>
    rw [hbody] at hrun
    cases r with
    | ok a =>
      dsimp only
      rw [if_pos hrun.2.nextWorks]
      exact ⟨a, _, rfl, hrun.1⟩
    | error e => exact hrun.elim

theorem guarded_joined_error {s s' : CallState moveHash} {e : ErrorCode}
    (h : guarded true body s = (.error e, s')) :
    ∃ t, body s = (.error e, t) ∧ s' = { t with caches := .empty } := by
  unfold guarded at h
  rw [if_pos rfl] at h
  cases hbody : body s with
  | mk r t =>
    rw [hbody] at h
    cases r with
    | ok a => cases h
    | error e' =>
      obtain ⟨he, rfl⟩ := Prod.mk.inj h
      obtain rfl := Except.error.inj he
      exact ⟨t, rfl, rfl⟩

end Guards

section Failures

variable {α β : Type} {x : Call moveHash α}

/-- The call fails only when SQLite does. -/
def FailsIo (x : Call moveHash α) : Prop := ∀ s e s', x s = (.error e, s') → e = .ioFailure

theorem FailsIo.bind {f : α → Call moveHash β} (hx : FailsIo x) (hf : ∀ a, FailsIo (f a)) :
    FailsIo (x >>= f) := by
  intro s e s' h
  change Stateful.bind x f s = _ at h
  unfold Stateful.bind at h
  cases hrun : x s with
  | mk r t =>
    rw [hrun] at h
    cases r with
    | ok a => exact hf a t e s' h
    | error e' =>
      obtain ⟨he, -⟩ := Prod.mk.inj h
      exact Except.error.inj he ▸ hx s e' t hrun

theorem failsIo_pure (a : α) : FailsIo (Pure.pure a : Call moveHash α) := nofun

private theorem failsIo_read (f : CallState moveHash → α) : FailsIo (Stateful.read f) := nofun

private theorem failsIo_modify (f : CallState moveHash → CallState moveHash) :
    FailsIo (Stateful.modify f) := nofun

theorem failsIo_exec (change : Rows → Rows) :
    FailsIo (exec fun rows => .ok (change rows) : Call moveHash Unit) := by
  intro s e s' h
  unfold exec at h
  dsimp only at h
  split_ifs at h
  · exact (Except.error.inj (Prod.mk.inj h).1).symm
  · cases h
  · exact (Except.error.inj (Prod.mk.inj h).1).symm

theorem failsIo_findOrInsert (kind : NameKind) (row : kind.Row) :
    FailsIo (findOrInsert kind row : Call moveHash ℕ) := by
  have hremember : ∀ id, FailsIo (do remember kind (kind.nameOf row) id; return id :
      Call moveHash ℕ) := fun id => (failsIo_modify _).bind fun _ => failsIo_pure id
  refine (failsIo_read _).bind fun cached => ?_
  cases cached with
  | some id => exact failsIo_pure id
  | none =>
    refine (failsIo_read _).bind fun found => ?_
    cases found with
    | some id => exact hremember id
    | none => exact (failsIo_read _).bind fun id => (failsIo_exec _).bind fun _ => hremember id

private theorem failsIo_insertGameTags (gameId : ℕ) (tags : List (String × String)) :
    FailsIo (insertGameTags gameId tags : Call moveHash Unit) := by
  induction tags with
  | nil => exact failsIo_pure ()
  | cons tag tags ih =>
    exact (failsIo_findOrInsert .tag tag.1).bind fun _ => (failsIo_exec _).bind fun _ => ih

private theorem insertBody_error {raw : Bool} {game : Game} {s s' : CallState moveHash} {e : ErrorCode}
    (h : insertBody raw game s = (.error e, s')) (he : e ≠ .ioFailure) :
    insertGame raw game s = (.error e, s') := by
  change Stateful.bind (insertGame raw game) _ s = _ at h
  unfold Stateful.bind at h
  cases hrun : insertGame raw game s with
  | mk r t =>
    rw [hrun] at h
    cases r with
    | error e' => exact h
    | ok id =>
      have htags : FailsIo (do insertGameTags id game.extraTags; return id : Call moveHash ℕ) :=
        (failsIo_insertGameTags id _).bind fun _ => failsIo_pure id
      exact absurd (htags t e s' h) he

section Patches

variable {id : ℕ} {patch : GamePatch}

private theorem failsIo_updateField (value : Option α) (set : α → GameRow → GameRow) :
    FailsIo (updateField id value set : Call moveHash Unit) := by
  cases value with
  | none => exact failsIo_pure ()
  | some value => exact failsIo_exec _

private theorem failsIo_patchPlayer (setId : ℕ → GameRow → GameRow) (setElo : Int32 → GameRow → GameRow)
    (current : Player) (name : Option String) (elo : Option Int32) :
    FailsIo (patchPlayer id setId setElo current name elo : Call moveHash Unit) := by
  refine (failsIo_updateField elo setElo).bind fun _ => ?_
  cases name with
  | none => exact failsIo_pure ()
  | some name => exact (failsIo_findOrInsert .player _).bind fun _ => failsIo_exec _

private theorem failsIo_patchEvent (current : Option Event) (event site : Option String) :
    FailsIo (patchEvent id current event site : Call moveHash Unit) := by
  unfold patchEvent
  dsimp only
  split
  · exact failsIo_pure ()
  · exact (failsIo_findOrInsert .event _).bind fun _ => failsIo_exec _

private theorem failsIo_patchJoined (current : Game) :
    FailsIo (patchJoined id patch current : Call moveHash Unit) := by
  refine (failsIo_patchPlayer _ _ _ _ _).bind fun _ =>
    (failsIo_patchPlayer _ _ _ _ _).bind fun _ => ?_
  split
  · exact failsIo_patchEvent _ _ _
  · exact failsIo_pure ()

theorem failsIo_patchNotes (notes : Option String) :
    FailsIo (patchNotes id notes : Call moveHash Unit) := by
  cases notes with
  | none => exact failsIo_pure ()
  | some notes =>
    refine (failsIo_exec _).bind fun _ => ?_
    split
    · exact failsIo_pure ()
    · exact failsIo_insertGameTags _ _

private theorem patchBody_error {s s' : CallState moveHash} {e : ErrorCode}
    (h : patchBody id patch s = (.error e, s')) (he : e ≠ .ioFailure) : s' = s := by
  have hrest : FailsIo (do patchScalars id patch; patchNotes id patch.notes :
      Call moveHash Unit) := by
    refine FailsIo.bind ?_ fun _ => failsIo_patchNotes _
    exact (failsIo_updateField _ _).bind fun _ => (failsIo_updateField _ _).bind fun _ =>
      (failsIo_updateField _ _).bind fun _ => (failsIo_updateField _ _).bind fun _ =>
        failsIo_updateField _ _
  unfold patchBody at h
  by_cases hneeds : needsGame patch
  · simp only [if_pos hneeds, Stateful.run_read_bind] at h
    cases hget : s.db.get id with
    | error e' =>
      rw [hget] at h
      exact (Prod.mk.inj h).2.symm
    | ok current =>
      rw [hget] at h
      exact absurd (((failsIo_patchJoined current).bind fun _ => hrest) s e s' h) he
  · simp only [if_neg hneeds] at h
    exact absurd (hrest s e s' h) he

theorem patchMetadata_error {joined : Bool} {s s' : CallState moveHash} {e : ErrorCode}
    (h : patchMetadata joined id patch s = (.error e, s')) :
    (s' = s ∧ e ≠ .ioFailure) ∨ id ∈ s.db.games.map GameRow.id ∧
      guarded joined (patchBody id patch) s = (.error e, s') := by
  rw [patchMetadata, Stateful.run_read_bind] at h
  cases hfound : s.db.findGame id with
  | none =>
    rw [hfound] at h
    obtain ⟨he, rfl⟩ := Prod.mk.inj h
    obtain rfl := Except.error.inj he
    exact .inl ⟨rfl, nofun⟩
  | some row =>
    rw [hfound] at h
    dsimp only at h
    split_ifs at h
    · obtain ⟨he, rfl⟩ := Prod.mk.inj h
      obtain rfl := Except.error.inj he
      exact .inl ⟨rfl, nofun⟩
    · have hid : row.id = id := by simpa using List.find?_some hfound
      exact .inr ⟨hid ▸ List.mem_map_of_mem (List.mem_of_find?_eq_some hfound), h⟩

end Patches

end Failures

section Shrinking

/-- Every game that is there was there at the start and has the same record. -/
structure Shrunk (start : Rows) (s : CallState moveHash) : Prop where
  grows : start.Grows s.db.toRows
  cached : s.db.Cached s.caches
  games : ∀ row ∈ s.db.games, ∃ old ∈ start.games, old.id = row.id ∧
    s.db.recordOf row = start.recordOf old

theorem NamesAdded.shrunk {rows : Rows} (hrows : rows.Consistent moveHash)
    {s : CallState moveHash} (h : NamesAdded rows s) : Shrunk rows s where
  grows := h.grows
  cached := h.cached
  games := by
    intro row hrow
    rw [h.games] at hrow
    exact ⟨row, hrow, rfl, hrows.recordOf_grows h.grows hrow
      (hrows.extraTagsOf_grows h.grows h.gameTags row.id)⟩

theorem Shrunk.of_same {s : CallState moveHash} (hdb : s.db = start.db)
    (hcached : start.db.Cached start.caches)
    (hcaches : s.caches = start.caches ∨ s.caches = .empty) : Shrunk start.db.toRows s := by
  refine NamesAdded.shrunk start.db.consistent ⟨⟨?_, ?_, ?_, ?_⟩, ?_⟩
  · rw [hdb]
    exact .refl
  · rw [hdb]
  · rw [hdb]
  · rw [hdb]
  · rw [hdb]
    rcases hcaches with hsame | hempty
    · rw [hsame]
      exact hcached
    · rw [hempty]
      exact Rows.cached_empty

/-- A change of the rows that only takes games away, or columns that no record has. -/
def Shrinks (moveHash : List UInt16 → UInt64) (change : Rows → Result Rows) : Prop :=
  ∀ rows rows', rows.Consistent moveHash → change rows = .ok rows' → rows'.named = rows.named ∧
    ∀ row ∈ rows'.games, ∃ old ∈ rows.games, old.id = row.id ∧
      rows'.recordOf row = rows.recordOf old

private theorem exec_shrunk {rows : Rows} {change : Rows → Result Rows}
    (hchange : Shrinks moveHash change) :
    Ensures (Shrunk rows) (exec change : Call moveHash Unit) (fun _ => Shrunk rows)
      (Shrunk rows) := by
  refine exec_spec.mono (fun _ h => h) ?_ ?_
  · rintro _ s' ⟨s, hs, hrows, hcaches⟩
    obtain ⟨hnamed, hgames⟩ := hchange _ _ s.db.consistent hrows
    have hgrows : s.db.toRows.Grows s'.db.toRows := .of_named hnamed
    refine ⟨hs.grows.trans hgrows, ?_, fun row hrow => ?_⟩
    · rw [hcaches]
      exact hs.cached.grows hgrows
    · obtain ⟨between, hbetween, hid, hrecord⟩ := hgames row hrow
      obtain ⟨old, hold, hid', hrecord'⟩ := hs.games between hbetween
      exact ⟨old, hold, hid'.trans hid, hrecord.trans hrecord'⟩
  · rintro s' ⟨s, hs, hdb, hcaches⟩
    refine ⟨?_, ?_, ?_⟩
    · rw [hdb]
      exact hs.grows
    · rw [hdb, hcaches]
      exact hs.cached
    · rw [hdb]
      exact hs.games

theorem extraTagsOf_keepGames {rows : Rows} {keep : GameRow → Bool} {row : GameRow}
    (hrow : row ∈ (rows.keepGames keep).games) :
    (rows.keepGames keep).extraTagsOf row.id = rows.extraTagsOf row.id := by
  rw [Rows.extraTagsOf, Rows.keepGames, List.filterMap_filter]
  refine List.filterMap_congr fun tag _ => ?_
  by_cases hgame : tag.gameId = row.id
  · have hkept : ((rows.games.filter keep).any fun row => row.id = tag.gameId) = true :=
      List.any_eq_true.mpr ⟨row, hrow, by simp [hgame]⟩
    rw [if_pos hkept]
    rfl
  · have hnone : ∀ rows : Rows, rows.tagOf row.id tag = none := fun rows => by
      rw [Rows.tagOf, if_neg hgame]
    rw [hnone, hnone, ite_self]

private theorem shrinks_keepGames (keep : Rows → GameRow → Bool) :
    Shrinks moveHash fun rows => .ok (rows.keepGames (keep rows)) := by
  rintro rows _ - ⟨⟩
  refine ⟨rfl, fun row hrow => ⟨row, List.mem_of_mem_filter hrow, rfl, ?_⟩⟩
  unfold Rows.recordOf
  rw [extraTagsOf_keepGames hrow]
  rfl

end Shrinking

section Specs

variable {game : Game} {id : ℕ}

private theorem GameAdded.congr {rows : Rows} {s s' : CallState moveHash}
    (h : GameAdded rows game id s) (hdb : s'.db = s.db) (hcaches : s'.caches = s.caches) :
    GameAdded rows game id s' := by
  refine ⟨?_, ?_, ?_, ?_⟩
  · rw [hdb]
    exact h.grows
  · rw [hdb, hcaches]
    exact h.cached
  · rw [hdb]
    exact h.row
  · rw [hdb]
    exact h.others

private theorem Amended.congr {rows : Rows} {f : GameRecord → GameRecord}
    {s s' : CallState moveHash} (h : Amended rows id f s) (hdb : s'.db = s.db)
    (hcaches : s'.caches = s.caches) : Amended rows id f s' := by
  refine ⟨?_, ?_, ?_⟩
  · rw [hdb]
    exact h.grows
  · rw [hdb, hcaches]
    exact h.cached
  · rw [hdb]
    exact h.games

private theorem namesAdded_refl {db : Database moveHash} {s : CallState moveHash}
    (hdb : s.db = db) (hcached : s.db.Cached s.caches) : NamesAdded db.toRows s := by
  subst hdb
  exact ⟨⟨.refl, rfl, rfl, rfl⟩, hcached⟩

theorem guarded_insertBody {joined : Bool} (raw : Bool) (hcached : start.db.Cached start.caches)
    (hid : start.db.nextGameId < 4294967296) :
    Ensures (fun s => s = start) (guarded joined (insertBody raw game))
      (fun id s => GameAdded start.db.toRows game id s)
      (fun s => start.db.Grows s.db.toRows ∧ s.db.Cached s.caches) := by
  have hspec := insertBody_spec start.db.consistent hid raw game
  cases joined with
  | false =>
    refine (guarded_alone start (hspec.mono ?_ (fun _ _ h => h) fun _ h => h)).mono
      (fun _ h => h) ?_ ?_
    · rintro s ⟨hdb, hcaches⟩
      exact namesAdded_refl hdb (by rw [hdb, hcaches]; exact hcached)
    · rintro id s' ⟨s, hs, hdb, hcaches⟩
      exact hs.congr hdb hcaches
    · rintro s' ⟨hdb, hcaches⟩
      have hsame := Shrunk.of_same hdb hcached hcaches
      exact ⟨hsame.grows, hsame.cached⟩
  | true =>
    refine (guarded_joined hspec).mono ?_ (fun _ _ h => h) ?_
    · rintro s rfl
      exact namesAdded_refl rfl hcached
    · rintro s' ⟨s, hgrows, hdb, hcaches⟩
      rw [hdb, hcaches]
      exact ⟨hgrows, Rows.cached_empty⟩

/-- SQLite may fail in the middle of an insert: it refuses a statement, or a tag name comes twice. -/
def insertRisk (game : Game) (works : List Bool) : Bool :=
  !works.isEmpty || !decide (game.extraTags.map Prod.fst).Nodup

/-- SQLite may fail in the middle of a patch: it refuses a statement, or another game has the index
entry that the patch is about to write. -/
def patchRisk (moveHash : List UInt16 → UInt64) (id : ℕ) (patch : GamePatch) (rows : Rows)
    (works : List Bool) : Bool :=
  !works.isEmpty || (touchesIdentity patch && !decide (Lone moveHash id rows))

/-- An insert that fails leaves no part of its game, unless SQLite failed in its middle inside a
batch. -/
theorem guarded_insertBody_failed {joined raw : Bool} {e : ErrorCode} {s : CallState moveHash}
    (hcached : start.db.Cached start.caches) (hid : start.db.nextGameId < 4294967296)
    (hrun : guarded joined (insertBody raw game) start = (.error e, s))
    (he : joined = true → insertRisk game start.works = true → e ≠ .ioFailure) :
    Shrunk start.db.toRows s := by
  cases joined with
  | false =>
    obtain ⟨hdb, hcaches⟩ := guarded_alone_failed hrun
    exact Shrunk.of_same hdb hcached hcaches
  | true =>
    obtain ⟨t, hbody, rfl⟩ := guarded_joined_error hrun
    have hnames : NamesOnly start.db.toRows t := by
      by_cases hrisk : insertRisk game start.works = true
      · exact (insertGame_spec start.db.consistent raw game).of_error
          (namesAdded_refl rfl hcached) (insertBody_error hbody (he rfl hrisk))
      · rw [insertRisk, Bool.not_eq_true, Bool.or_eq_false_iff] at hrisk
        obtain ⟨hworks, hnames⟩ := hrisk
        exact (insertBody_safe start.db.consistent hid raw (by simpa using hnames)).of_error
          ⟨namesAdded_refl rfl hcached, by simpa [CallState.Works] using hworks⟩ hbody
    exact NamesAdded.shrunk start.db.consistent ⟨hnames.congr rfl, Rows.cached_empty⟩

theorem patchMetadata_spec {joined : Bool} {patch : GamePatch}
    (hcached : start.db.Cached start.caches) :
    Ensures (fun s => s = start) (patchMetadata joined id patch)
      (fun _ s => Amended start.db.toRows id (GameRecord.patched patch) s)
      (fun s => start.db.Grows s.db.toRows ∧ s.db.Cached s.caches) := by
  have hsame : Amended start.db.toRows id (fun record => record) start :=
    ⟨.refl, hcached, fun row hrow => ⟨row, hrow, rfl, fun record hr => by rwa [ite_self]⟩⟩
  refine Ensures.read_bind fun found => ?_
  cases found with
  | none =>
    refine Ensures.fail ?_
    rintro s ⟨rfl, -⟩
    exact ⟨.refl, hcached⟩
  | some row =>
    dsimp only
    by_cases hmanual : row.provenance.read.sourceType = "manual"
    · rw [if_neg (not_not.mpr hmanual)]
      have hspec := @amends_patchBody moveHash id patch start.db.toRows fun record => record
      cases joined with
      | false =>
        refine (guarded_alone start (hspec.mono ?_ (fun _ _ h => h) fun _ h => h)).mono
          (fun _ h => h.1) ?_ ?_
        · rintro s ⟨hdb, hcaches⟩
          exact hsame.congr hdb hcaches
        · rintro _ s' ⟨s, hs, hdb, hcaches⟩
          exact hs.congr hdb hcaches
        · rintro s' ⟨hdb, hcaches⟩
          have hsame := Shrunk.of_same hdb hcached hcaches
          exact ⟨hsame.grows, hsame.cached⟩
      | true =>
        refine (guarded_joined hspec).mono ?_ (fun _ _ h => h) ?_
        · rintro s ⟨rfl, -⟩
          exact hsame
        · rintro s' ⟨s, hgrows, hdb, hcaches⟩
          rw [hdb, hcaches]
          exact ⟨hgrows, Rows.cached_empty⟩
    · rw [if_pos hmanual]
      refine Ensures.fail ?_
      rintro s ⟨rfl, -⟩
      exact ⟨.refl, hcached⟩

/-- A patch that SQLite has no reason to fail fails before it writes. -/
theorem patchMetadata_of_safe {joined : Bool} {patch : GamePatch} {e : ErrorCode}
    {s : CallState moveHash} (hcached : start.db.Cached start.caches) (hjoined : joined = true)
    (hrun : patchMetadata joined id patch start = (.error e, s))
    (hrisk : ¬patchRisk moveHash id patch start.db.toRows start.works = true) :
    s = start ∧ e ≠ .ioFailure := by
  subst hjoined
  refine (patchMetadata_error hrun).resolve_right ?_
  rintro ⟨hgame, hguarded⟩
  obtain ⟨t, hbody, rfl⟩ := guarded_joined_error hguarded
  rw [patchRisk, Bool.not_eq_true, Bool.or_eq_false_iff] at hrisk
  obtain ⟨hworks, hlone⟩ := hrisk
  refine patchBody_total.of_error ⟨⟨hgame, hcached, fun htouches => ?_⟩, ?_⟩ hbody
  · rw [htouches] at hlone
    simpa using hlone
  · simpa [CallState.Works] using hworks

theorem patchMetadata_failed {joined : Bool} {patch : GamePatch} {e : ErrorCode}
    {s : CallState moveHash} (hcached : start.db.Cached start.caches)
    (hrun : patchMetadata joined id patch start = (.error e, s))
    (he : joined = true → patchRisk moveHash id patch start.db.toRows start.works = true →
      e ≠ .ioFailure) : Shrunk start.db.toRows s := by
  have hrefl : Shrunk start.db.toRows start := Shrunk.of_same rfl hcached (.inl rfl)
  rcases patchMetadata_error hrun with ⟨rfl, -⟩ | ⟨hgame, hguarded⟩
  · exact hrefl
  · cases joined with
    | false =>
      obtain ⟨hdb, hcaches⟩ := guarded_alone_failed hguarded
      exact Shrunk.of_same hdb hcached hcaches
    | true =>
      by_cases hrisk : patchRisk moveHash id patch start.db.toRows start.works = true
      · obtain ⟨t, hbody, rfl⟩ := guarded_joined_error hguarded
        obtain rfl := patchBody_error hbody (he rfl hrisk)
        exact Shrunk.of_same rfl hcached (.inr rfl)
      · obtain ⟨rfl, -⟩ := patchMetadata_of_safe hcached rfl hrun hrisk
        exact hrefl

theorem remove_spec (hcached : start.db.Cached start.caches) :
    Ensures (fun s => s = start) (remove id : Call moveHash Unit)
      (fun _ => Shrunk start.db.toRows) (Shrunk start.db.toRows) := by
  refine (exec_shrunk ?_).mono ?_ (fun _ _ h => h) fun _ h => h
  · intro rows rows' hrows h
    dsimp only at h
    split at h
    · contradiction
    · exact shrinks_keepGames (fun _ row => row.id != id) rows rows' hrows h
  · rintro s rfl
    exact Shrunk.of_same rfl hcached (.inl rfl)

theorem setManualProvenance_spec {sourceLabel : Option String} {reviewStatus : String}
    (hcached : start.db.Cached start.caches) :
    Ensures (fun s => s = start)
      (setManualProvenance id sourceLabel reviewStatus : Call moveHash Unit)
      (fun _ => Shrunk start.db.toRows) (Shrunk start.db.toRows) := by
  refine (exec_shrunk ?_).mono ?_ (fun _ _ h => h) fun _ h => h
  · intro rows rows' hrows h
    dsimp only at h
    split at h
    · contradiction
    · obtain rfl := Except.ok.inj h
      refine ⟨rfl, fun row hrow => ?_⟩
      obtain ⟨old, hold, rfl⟩ := List.mem_map.mp hrow
      refine ⟨old, hold, ?_⟩
      split <;> exact ⟨rfl, rfl⟩
  · rintro s rfl
    exact Shrunk.of_same rfl hcached (.inl rfl)

theorem dropIdentityIndex_spec (hcached : start.db.Cached start.caches) :
    Ensures (fun s => s = start) (dropIdentityIndex : Call moveHash Unit)
      (fun _ => Shrunk start.db.toRows) (Shrunk start.db.toRows) := by
  refine (exec_shrunk ?_).mono ?_ (fun _ _ h => h) fun _ h => h
  · rintro rows _ - ⟨⟩
    exact ⟨rfl, fun row hrow => ⟨row, hrow, rfl, rfl⟩⟩
  · rintro s rfl
    exact Shrunk.of_same rfl hcached (.inl rfl)

private theorem deduplicateBody_spec (rows : Rows) : Ensures (Shrunk rows)
    (deduplicateBody : Call moveHash ℕ) (fun _ => Shrunk rows) (Shrunk rows) := by
  refine Ensures.read_bind fun before => ?_
  refine Ensures.bind ((exec_shrunk (shrinks_keepGames fun rows row => rows.games.all fun other =>
    !sameGame moveHash other row || row.id ≤ other.id)).mono (fun _ h => h.1) (fun _ _ h => h)
    fun _ h => h) fun _ => ?_
  refine Ensures.read_bind fun after => ?_
  refine Ensures.bind ((exec_shrunk ?_).mono (fun _ h => h.1) (fun _ _ h => h) fun _ h => h)
    fun _ => Ensures.bind (exec_shrunk ?_) fun _ => Ensures.pure fun _ h => h
  · rintro rows _ - ⟨⟩
    refine ⟨rfl, fun row hrow => ?_⟩
    obtain ⟨old, hold, rfl⟩ := List.mem_map.mp hrow
    exact ⟨old, hold, rfl, rfl⟩
  · rintro rows _ - ⟨⟩
    exact ⟨rfl, fun row hrow => ⟨row, hrow, rfl, rfl⟩⟩

theorem deduplicate_spec {joined : Bool} (hcached : start.db.Cached start.caches) :
    Ensures (fun s => s = start) (deduplicate joined : Call moveHash ℕ)
      (fun _ => Shrunk start.db.toRows) (Shrunk start.db.toRows) := by
  have hguarded : Ensures (fun s => s = start) (guarded joined deduplicateBody : Call moveHash ℕ)
      (fun _ s => Shrunk start.db.toRows s) (Shrunk start.db.toRows) := by
    cases joined with
    | false =>
      refine (guarded_alone start ((deduplicateBody_spec start.db.toRows).mono ?_ (fun _ _ h => h)
        fun _ h => h)).mono (fun _ h => h) ?_ ?_
      · rintro s ⟨hdb, hcaches⟩
        exact Shrunk.of_same hdb hcached (.inl hcaches)
      · rintro _ s' ⟨s, hs, hdb, hcaches⟩
        exact ⟨hdb ▸ hs.grows, hdb ▸ hcaches ▸ hs.cached, hdb ▸ hs.games⟩
      · rintro s' ⟨hdb, hcaches⟩
        exact Shrunk.of_same hdb hcached hcaches
    | true =>
      refine (guarded_joined (deduplicateBody_spec start.db.toRows)).mono ?_
        (fun _ _ h => h) ?_
      · rintro s rfl
        exact Shrunk.of_same rfl hcached (.inl rfl)
      · rintro s' ⟨s, hs, hdb, hcaches⟩
        refine ⟨hdb ▸ hs.grows, ?_, hdb ▸ hs.games⟩
        rw [hcaches]
        exact Rows.cached_empty
  rintro s rfl
  have hrun := hguarded s rfl
  unfold deduplicate
  cases hresult : guarded joined deduplicateBody s with
  | mk r s' =>
    rw [hresult] at hrun
    cases r with
    | ok a => exact ⟨hrun.grows, hcached.grows hrun.grows, hrun.games⟩
    | error e => exact ⟨hrun.grows, hcached.grows hrun.grows, hrun.games⟩

end Specs

end MotifChess.Db.Store
