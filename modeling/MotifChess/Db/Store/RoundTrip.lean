/- GID: MotifChess/Db/Store/RoundTrip
   generality: implementation
   digest: Every stored game reads as the calls of a run promise, and no cached id is stale. -/

import MotifChess.Db.Store.Session

set_option autoImplicit false
set_option relaxedAutoImplicit false

namespace MotifChess.Db.Store

open MotifChess.Codec MotifChess.System Stateful

variable {moveHash : List UInt16 → UInt64}

section Promises

variable {rows : Rows} {expected : ℕ → Option GameRecord} {s : CallState moveHash} {id : ℕ}

/-- The games read as the calls promise. -/
def Promised (rows : Rows) (expected : ℕ → Option GameRecord) : Prop :=
  ∀ row ∈ rows.games, expected row.id = rows.recordOf row

theorem Promised.added (h : Promised rows expected) {game : Game} (hs : GameAdded rows game id s) :
    Promised s.db.toRows (Function.update expected id (some (.ofGame game))) := by
  obtain ⟨new, hgames, hid, hrecord⟩ := hs.row
  intro row hrow
  rw [hgames] at hrow
  rcases List.mem_append.mp hrow with hold | hnew
  · obtain ⟨hne, hsame⟩ := hs.others row hold
    rw [Function.update_of_ne hne, hsame]
    exact h row hold
  · obtain rfl := List.mem_singleton.mp hnew
    rw [hid, Function.update_self, hrecord]

private theorem Promised.amended (h : Promised rows expected) (hrows : rows.Consistent moveHash)
    {f : GameRecord → GameRecord} (hs : Amended rows id f s) :
    Promised s.db.toRows (Function.update expected id ((expected id).map f)) := by
  intro row hrow
  obtain ⟨old, hold, hid, hrecord⟩ := hs.games row hrow
  obtain ⟨record, hr⟩ := hrows.recordOf_isSome hold
  have hexpected : expected row.id = some record := by
    rw [← hid, h old hold, hr]
  rw [hrecord record hr]
  by_cases hsame : row.id = id
  · rw [hsame] at hexpected
    rw [if_pos hsame, hsame, Function.update_self, hexpected, Option.map_some]
  · rw [if_neg hsame, Function.update_of_ne hsame, hexpected]

theorem Promised.shrunk (h : Promised rows expected) (hs : Shrunk rows s) :
    Promised s.db.toRows expected := by
  intro row hrow
  obtain ⟨old, hold, hid, hrecord⟩ := hs.games row hrow
  rw [hrecord, ← hid]
  exact h old hold

private theorem Rows.mem_games_of_get {game : Game} (h : rows.get id = .ok game) :
    ∃ row ∈ rows.games, row.id = id := by
  unfold Rows.get Rows.gameAt at h
  cases hfound : rows.findGame id with
  | none =>
    rw [hfound] at h
    cases h
  | some row => exact ⟨row, List.mem_of_find?_eq_some hfound, by simpa using List.find?_some hfound⟩

end Promises

section Invariant

variable {l l' : Ledger moveHash} {writer : WriterName}

/-- The invariant of a run: what is promised of the rows and of the caches, also for the rows that
a rollback of the open batch would restore. -/
structure Kept (l : Ledger moveHash) : Prop where
  games : l.spoiled = false → Promised l.db.toRows l.expected
  joined : l.spoiled = true → l.joined = true
  writers : ∀ writer, l.db.Cached (l.writers writer)
  store : l.db.Cached l.store
  batch : ∀ owner saved, l.batch = some (owner, saved) → saved.Grows l.db.toRows ∧
    Promised saved.toRows l.saved ∧ ∀ writer, writer ≠ owner → saved.Cached (l.writers writer)

theorem kept_new : Kept (.new : Ledger moveHash) where
  games := fun _ => nofun
  joined := nofun
  writers := fun _ => Rows.cached_empty
  store := Rows.cached_empty
  batch := nofun

private theorem Kept.faithful (h : Kept l) : l.Faithful where
  games := by
    intro hspoiled id hid
    obtain ⟨row, hrow, rfl⟩ := List.mem_map.mp hid
    obtain ⟨game, record, hget, hrecord, hread⟩ := l.db.consistent.get_of_mem hrow
    exact ⟨game, record, hget, (h.games hspoiled row hrow).trans hrecord, hread⟩
  writers := h.writers
  store := h.store

private theorem owner_of_free {owner : WriterName} {saved : Database moveHash}
    (hfree : l.free writer = true) (hbatch : l.batch = some (owner, saved)) : owner = writer := by
  rw [Session.free, hbatch] at hfree
  simpa using hfree

private theorem Kept.calledWriter (h : Kept l) (hfree : l.free writer = true) {c : CallState moveHash}
    {expected : ℕ → Option GameRecord} {spoiled : Bool} (hgrows : l.db.Grows c.db.toRows)
    (hcached : c.db.Cached c.caches) (hgames : spoiled = false → Promised c.db.toRows expected)
    (hjoined : spoiled = true → l.joined = true) :
    Kept { l with
      db := c.db
      writers := Function.update l.writers writer c.caches
      expected, spoiled } where
  games := hgames
  joined := hjoined
  writers := by
    intro other
    by_cases hsame : other = writer
    · subst hsame
      simp only [Function.update_self]
      exact hcached
    · simp only [Function.update_of_ne hsame]
      exact (h.writers other).grows hgrows
  store := h.store.grows hgrows
  batch := by
    intro owner saved hbatch
    obtain ⟨hsaved, hpromised, hothers⟩ := h.batch owner saved hbatch
    refine ⟨hsaved.trans hgrows, hpromised, fun other hne => ?_⟩
    rw [owner_of_free hfree hbatch] at hne
    simp only [Function.update_of_ne hne]
    exact hothers other (owner_of_free hfree hbatch ▸ hne)

private theorem Kept.calledStore (h : Kept l) {c : CallState moveHash}
    {expected : ℕ → Option GameRecord} {spoiled : Bool} (hgrows : l.db.Grows c.db.toRows)
    (hcached : c.db.Cached c.caches) (hgames : spoiled = false → Promised c.db.toRows expected)
    (hjoined : spoiled = true → l.joined = true) :
    Kept { l with db := c.db, store := c.caches, expected, spoiled } where
  games := hgames
  joined := hjoined
  writers := fun writer => (h.writers writer).grows hgrows
  store := hcached
  batch := by
    intro owner saved hbatch
    obtain ⟨hsaved, hpromised, hothers⟩ := h.batch owner saved hbatch
    exact ⟨hsaved.trans hgrows, hpromised, hothers⟩

theorem Kept.cleared (h : Kept l) (writer : WriterName) :
    Kept { l with toSession := l.toSession.clearInsertCaches writer } := by
  have hwriters : ∀ rows : Rows, ∀ other, rows.Cached (l.writers other) →
      rows.Cached (Function.update l.writers writer .empty other) := by
    intro rows other hcached
    by_cases hsame : other = writer
    · subst hsame
      rw [Function.update_self]
      exact Rows.cached_empty
    · rwa [Function.update_of_ne hsame]
  cases writer with
  | embedded =>
    refine ⟨h.games, h.joined, fun other => hwriters _ other (h.writers other), Rows.cached_empty, ?_⟩
    intro owner saved hbatch
    obtain ⟨hsaved, hpromised, hothers⟩ := h.batch owner saved hbatch
    exact ⟨hsaved, hpromised, fun other hne => hwriters _ other (hothers other hne)⟩
  | bulk =>
    refine ⟨h.games, h.joined, fun other => hwriters _ other (h.writers other), h.store, ?_⟩
    intro owner saved hbatch
    obtain ⟨hsaved, hpromised, hothers⟩ := h.batch owner saved hbatch
    exact ⟨hsaved, hpromised, fun other hne => hwriters _ other (hothers other hne)⟩

theorem Kept.begun (h : Kept l) (hclosed : ¬l.joined = true) (writer : WriterName) :
    Kept { l with batch := some (writer, l.db), saved := l.expected } where
  games := h.games
  joined := fun _ => rfl
  writers := h.writers
  store := h.store
  batch := by
    rintro owner saved hbatch
    obtain ⟨rfl, rfl⟩ := Prod.mk.inj (Option.some.inj hbatch)
    have hspoiled : l.spoiled = false := Bool.eq_false_iff.mpr fun h' => hclosed (h.joined h')
    exact ⟨.refl, h.games hspoiled, fun other _ => h.writers other⟩

theorem Kept.closed (h : Kept l) (hspoiled : l.spoiled = false) :
    Kept { l with batch := none, spoiled := false } where
  games := fun _ => h.games hspoiled
  joined := nofun
  writers := h.writers
  store := h.store
  batch := nofun

theorem Kept.rolledBack (h : Kept l) {saved : Database moveHash}
    (hfree : l.free writer = true) (hbatch : l.batch = some (writer, saved))
    (hstore : writer = .bulk → saved.Cached l.store) :
    Kept { l with
      toSession := { l.toSession with db := saved, batch := none }.clearInsertCaches writer
      expected := l.saved
      spoiled := false } := by
  obtain ⟨-, hpromised, hothers⟩ := h.batch writer saved hbatch
  have hwriters : ∀ other,
      saved.Cached (Function.update l.writers writer .empty other) := by
    intro other
    by_cases hsame : other = writer
    · subst hsame
      rw [Function.update_self]
      exact Rows.cached_empty
    · rw [Function.update_of_ne hsame]
      exact hothers other hsame
  cases writer with
  | embedded => exact ⟨fun _ => hpromised, nofun, hwriters, Rows.cached_empty, nofun⟩
  | bulk => exact ⟨fun _ => hpromised, nofun, hwriters, hstore rfl, nofun⟩

theorem Session.rolledBack_eq_some {s : Session moveHash} {works : Bool}
    {db : Database moveHash} : s.rolledBack works = some db ↔
      works = true ∧ ∃ owner, s.batch = some (owner, db) := by
  unfold Session.rolledBack
  cases works with
  | false => simp
  | true => simp [Option.map_eq_some_iff]

theorem Kept.called {s : Session moveHash} {risk : Bool}
    (h : Kept { l with toSession := s, spoiled := l.spoiled || (l.joined && risk) })
    (hbatch : s.batch = l.batch) (undoes : Bool)
    (hcaches : ∀ db ∈ l.rolledBack undoes,
      db.Cached s.store ∧ ∀ writer, db.Cached (s.writers writer)) :
    Kept (l.called risk (s.undone undoes)) := by
  have hjoined : s.joined = l.joined := congrArg Option.isSome hbatch
  have hrolled : s.rolledBack undoes = l.rolledBack undoes := by
    unfold Session.rolledBack
    rw [hbatch]
  unfold Ledger.called Session.undone
  cases hdb : s.rolledBack undoes with
  | none =>
    dsimp only
    rw [if_neg (by simp [hjoined])]
    exact h
  | some db =>
    obtain ⟨-, owner, hopen⟩ := Session.rolledBack_eq_some.mp hdb
    have hlost : (l.joined && !({ s with db, batch := none } : Session moveHash).joined) = true := by
      rw [← hjoined]
      simp [Session.joined, hopen]
    dsimp only
    rw [if_pos hlost]
    obtain ⟨-, hpromised, -⟩ := h.batch owner db hopen
    obtain ⟨hstore, hwriters⟩ := hcaches db (hrolled ▸ hdb)
    exact ⟨fun _ => hpromised, nofun, hwriters, hstore, nofun⟩

theorem ended_error {α : Type} {s : Session moveHash} (sqlite : Statements)
    (e : ErrorCode) : Session.ended sqlite (.error e : Result α) s =
      s.undone (sqlite.undoes && e = .ioFailure) := by
  cases e <;> simp [Session.ended, Session.undone, Session.rolledBack]

private theorem undoes_of_mem_rolledBack {undoes io : Bool} {db : Database moveHash}
    (h : db ∈ l.rolledBack (undoes && io)) : db ∈ l.rolledBack undoes := by
  obtain ⟨hboth, hopen⟩ := Session.rolledBack_eq_some.mp h
  exact Session.rolledBack_eq_some.mpr ⟨(Bool.and_eq_true_iff.mp hboth).1, hopen⟩

theorem Kept.failed (h : Kept l) {risk : Bool} {e : ErrorCode} {c : CallState moveHash}
    (hshrunk : (l.joined = true → risk = true → e ≠ .ioFailure) → Shrunk l.db.toRows c)
    (hspoiled : (l.spoiled || (l.joined && (risk && e = .ioFailure))) = false) :
    Promised c.db.toRows l.expected := by
  obtain ⟨hbefore, hnow⟩ := Bool.or_eq_false_iff.mp hspoiled
  refine (h.games hbefore).shrunk (hshrunk fun hjoined hrisk he => ?_)
  rw [hjoined, hrisk, he] at hnow
  cases hnow

private theorem joined_of_failed (h : Kept l) {risk : Bool}
    (hspoiled : (l.spoiled || (l.joined && risk)) = true) : l.joined = true := by
  rcases Bool.or_eq_true_iff.mp hspoiled with hbefore | hnow
  · exact h.joined hbefore
  · exact (Bool.and_eq_true_iff.mp hnow).1

private theorem caches_of_guarded_error {α : Type} {body : Call moveHash α} {s s' : CallState moveHash}
    {e : ErrorCode} {db : Database moveHash} {undoes : Bool} (hdb : db ∈ l.rolledBack undoes)
    (h : guarded l.joined body s = (.error e, s')) : s'.caches = .empty := by
  obtain ⟨-, owner, hopen⟩ := Session.rolledBack_eq_some.mp hdb
  have hjoined : l.joined = true := by simp [Session.joined, hopen]
  rw [hjoined] at h
  obtain ⟨t, -, rfl⟩ := guarded_joined_error h
  rfl

theorem Kept.inserted (h : Kept l) (hfree : l.free writer = true) {game : Game} (raw : Bool)
    {sqlite : Statements} (hid : l.db.nextGameId < 4294967296)
    (hstore : ∀ db ∈ l.rolledBack sqlite.undoes, db.Cached l.store) :
    Kept (l.inserted game sqlite
      (l.callWriter writer (guarded l.joined (insertBody raw game)) sqlite)) := by
  have hspec := @guarded_insertBody moveHash ⟨l.db, l.writers writer, sqlite.works⟩ game l.joined raw
    (h.writers writer) hid
  unfold Session.callWriter
  cases hcall : guarded l.joined (insertBody raw game) ⟨l.db, l.writers writer, sqlite.works⟩ with
  | mk r c =>
    cases r with
    | ok id =>
      have hadded := hspec.of_ok rfl hcall
      exact h.calledWriter hfree hadded.grows hadded.cached
        (fun hspoiled => (h.games hspoiled).added hadded) h.joined
    | error e =>
      obtain ⟨hgrows, hcached⟩ := hspec.of_error rfl hcall
      have hkept := h.calledWriter hfree hgrows hcached
        (h.failed (guarded_insertBody_failed (h.writers writer) hid hcall)) (joined_of_failed h)
      dsimp only [Ledger.inserted, Ledger.failed]
      rw [ended_error]
      refine hkept.called rfl _ fun db hdb => ⟨hstore db (undoes_of_mem_rolledBack hdb), ?_⟩
      intro other
      by_cases hsame : other = writer
      · subst hsame
        simp only [Function.update_self]
        rw [caches_of_guarded_error hdb hcall]
        exact Rows.cached_empty
      · obtain ⟨-, owner, hopen⟩ := Session.rolledBack_eq_some.mp hdb
        obtain ⟨-, -, hothers⟩ := h.batch owner db hopen
        simp only [Function.update_of_ne hsame]
        exact hothers other (owner_of_free hfree hopen ▸ hsame)

theorem Kept.patched (h : Kept l) {id : ℕ} {patch : GamePatch} {sqlite : Statements}
    (hwriters : ∀ db ∈ l.rolledBack sqlite.undoes, ∀ writer, db.Cached (l.writers writer)) :
    Kept (l.patched id patch sqlite (l.callStore (patchMetadata l.joined id patch) sqlite)) := by
  have hspec := @patchMetadata_spec moveHash ⟨l.db, l.store, sqlite.works⟩ id l.joined patch h.store
  unfold Session.callStore
  cases hcall : patchMetadata l.joined id patch ⟨l.db, l.store, sqlite.works⟩ with
  | mk r c =>
    cases r with
    | ok _ =>
      have hamended := hspec.of_ok rfl hcall
      exact h.calledStore hamended.grows hamended.cached
        (fun hspoiled => (h.games hspoiled).amended l.db.consistent hamended) h.joined
    | error e =>
      obtain ⟨hgrows, hcached⟩ := hspec.of_error rfl hcall
      have hkept := h.calledStore hgrows hcached
        (h.failed (patchMetadata_failed h.store hcall)) (joined_of_failed h)
      dsimp only [Ledger.patched, Ledger.failed]
      rw [ended_error]
      refine hkept.called rfl _ fun db hdb => ⟨?_, hwriters db (undoes_of_mem_rolledBack hdb)⟩
      obtain ⟨hboth, -⟩ := Session.rolledBack_eq_some.mp hdb
      have he : e = .ioFailure := by simpa using (Bool.and_eq_true_iff.mp hboth).2
      rcases patchMetadata_error hcall with ⟨-, hother⟩ | ⟨-, hguarded⟩
      · exact absurd he hother
      · rw [caches_of_guarded_error hdb hguarded]
        exact Rows.cached_empty

/-- Nothing but the names that it looks up changes what a call remembers. -/
def KeepsCaches {α : Type} (call : Call moveHash α) : Prop := ∀ s, (call s).2.caches = s.caches

private theorem keepsCaches_exec (change : Rows → Result Rows) :
    KeepsCaches (exec change : Call moveHash Unit) := by
  intro s
  unfold exec
  split
  · rfl
  · split
    · rfl
    · split <;> rfl

private theorem shrunk_of_spec {α : Type} {call : Call moveHash α} {start : CallState moveHash}
    (hspec : Ensures (fun s => s = start) call (fun _ => Shrunk start.db.toRows)
      (Shrunk start.db.toRows)) : Shrunk start.db.toRows (call start).2 := by
  cases hcall : call start with
  | mk r c =>
    cases r with
    | ok _ => exact hspec.of_ok rfl hcall
    | error e => exact hspec.of_error rfl hcall

theorem ended_eq {α : Type} {s : Session moveHash} (sqlite : Statements) (r : Result α) :
    ∃ io, Session.ended sqlite r s = s.undone (sqlite.undoes && io) := by
  cases r with
  | ok a => exact ⟨false, by simp [Session.ended, Session.undone, Session.rolledBack]⟩
  | error e => exact ⟨_, ended_error sqlite e⟩

private theorem Kept.shrunkWriter (h : Kept l) (hfree : l.free writer = true) {α : Type}
    {call : Call moveHash α} {sqlite : Statements} (hcaches : KeepsCaches call)
    (hspec : Ensures (fun s => s = ⟨l.db, l.writers writer, sqlite.works⟩) call
      (fun _ => Shrunk l.db.toRows) (Shrunk l.db.toRows))
    (holder : ∀ db ∈ l.rolledBack sqlite.undoes,
      db.Cached l.store ∧ ∀ writer, db.Cached (l.writers writer)) :
    Kept (l.called false (l.callWriter writer call sqlite).2) := by
  have hshrunk := shrunk_of_spec hspec
  have hsame := hcaches ⟨l.db, l.writers writer, sqlite.works⟩
  unfold Session.callWriter
  cases hcall : call ⟨l.db, l.writers writer, sqlite.works⟩ with
  | mk r c =>
    rw [hcall] at hshrunk hsame
    let s : Session moveHash :=
      { l.toSession with db := c.db, writers := Function.update l.writers writer c.caches }
    obtain ⟨io, hended⟩ := @ended_eq moveHash α s sqlite r
    have hspoiled : (l.spoiled || (l.joined && false)) = l.spoiled := by simp
    change Kept (l.called false (s.ended sqlite r))
    rw [hended]
    refine @Kept.called moveHash l s false ?_ rfl _ fun db hdb => ?_
    · rw [hspoiled]
      exact h.calledWriter hfree hshrunk.grows hshrunk.cached
        (fun hspoiled => (h.games hspoiled).shrunk hshrunk) h.joined
    · have hwriters : s.writers = l.writers := by
        change Function.update l.writers writer c.caches = l.writers
        rw [show c.caches = l.writers writer from hsame, Function.update_eq_self]
      rw [hwriters]
      exact holder db (undoes_of_mem_rolledBack hdb)

private theorem Kept.shrunkStore (h : Kept l) {α : Type} {call : Call moveHash α} {sqlite : Statements}
    (hcaches : KeepsCaches call)
    (hspec : Ensures (fun s => s = ⟨l.db, l.store, sqlite.works⟩) call
      (fun _ => Shrunk l.db.toRows) (Shrunk l.db.toRows))
    (holder : ∀ db ∈ l.rolledBack sqlite.undoes,
      db.Cached l.store ∧ ∀ writer, db.Cached (l.writers writer)) :
    Kept (l.called false (l.callStore call sqlite).2) := by
  have hshrunk := shrunk_of_spec hspec
  have hsame := hcaches ⟨l.db, l.store, sqlite.works⟩
  unfold Session.callStore
  cases hcall : call ⟨l.db, l.store, sqlite.works⟩ with
  | mk r c =>
    rw [hcall] at hshrunk hsame
    let s : Session moveHash := { l.toSession with db := c.db, store := c.caches }
    obtain ⟨io, hended⟩ := @ended_eq moveHash α s sqlite r
    have hspoiled : (l.spoiled || (l.joined && false)) = l.spoiled := by simp
    change Kept (l.called false (s.ended sqlite r))
    rw [hended]
    refine @Kept.called moveHash l s false ?_ rfl _ fun db hdb => ?_
    · rw [hspoiled]
      exact h.calledStore hshrunk.grows hshrunk.cached
        (fun hspoiled => (h.games hspoiled).shrunk hshrunk) h.joined
    · rw [show s.store = l.store from hsame]
      exact holder db (undoes_of_mem_rolledBack hdb)

end Invariant

section Runs

variable {l l' : Ledger moveHash}

/-- Every sound call keeps the invariant. -/
theorem Kept.step (h : Kept l) {command : Command} (hsound : l.Sound command)
    (hstep : l.step command = some l') : Kept l' := by
  cases command with
  | «begin» writer works =>
    simp only [Ledger.step, Session.beginTransaction] at hstep
    split_ifs at hstep with hrefused
    · exact Option.some.inj hstep ▸ h
    · refine Option.some.inj hstep ▸ h.begun (fun hjoined => hrefused ?_) writer
      rw [hjoined, Bool.true_or]
  | commit writer works undoes =>
    obtain ⟨-, hstep⟩ := Option.ite_none_right_eq_some.mp hstep
    obtain ⟨hspoiled, holder⟩ := hsound
    rw [← Option.some.inj hstep]
    cases works with
    | true => exact h.closed (hspoiled rfl)
    | false =>
      refine Kept.called ?_ rfl undoes holder
      rw [Bool.and_false, Bool.or_false]
      exact h
  | rollback writer works =>
    obtain ⟨hfree, hstep⟩ := Option.ite_none_right_eq_some.mp hstep
    cases hrolled : l.rolledBack works with
    | none =>
      rw [hrolled] at hstep
      exact Option.some.inj hstep ▸ h.cleared writer
    | some saved =>
      rw [hrolled] at hstep
      obtain ⟨-, owner, hopen⟩ := Session.rolledBack_eq_some.mp hrolled
      refine Option.some.inj hstep ▸ h.rolledBack hfree ?_ ?_
      · rw [hopen, owner_of_free hfree hopen]
      · rintro rfl
        exact hsound saved hrolled
  | insert writer game sqlite =>
    obtain ⟨hfree, hstep⟩ := Option.ite_none_right_eq_some.mp hstep
    exact Option.some.inj hstep ▸ h.inserted hfree false hsound.1 hsound.2
  | insertRaw writer game sqlite =>
    obtain ⟨hfree, hstep⟩ := Option.ite_none_right_eq_some.mp hstep
    exact Option.some.inj hstep ▸ h.inserted hfree true hsound.1 hsound.2
  | patch id patch sqlite => exact Option.some.inj hstep ▸ h.patched hsound
  | setManualProvenance id sourceLabel reviewStatus sqlite =>
    exact Option.some.inj hstep ▸
      h.shrunkStore (keepsCaches_exec _) (setManualProvenance_spec h.store) hsound
  | remove id sqlite =>
    exact Option.some.inj hstep ▸ h.shrunkStore (keepsCaches_exec _) (remove_spec h.store) hsound
  | deduplicate writer sqlite =>
    obtain ⟨hfree, hstep⟩ := Option.ite_none_right_eq_some.mp hstep
    exact Option.some.inj hstep ▸
      h.shrunkWriter hfree (fun _ => rfl) (deduplicate_spec (h.writers writer)) hsound
  | dropIdentityIndex writer sqlite =>
    obtain ⟨hfree, hstep⟩ := Option.ite_none_right_eq_some.mp hstep
    exact Option.some.inj hstep ▸ h.shrunkWriter hfree (keepsCaches_exec _)
      (dropIdentityIndex_spec (h.writers writer)) hsound
  | clearInsertCaches writer => exact Option.some.inj hstep ▸ h.cleared writer

/-- After every run of sound calls each game that is there reads as the insert that last created
its id, as modified by the successful patches, and every cached id stands for its name. -/
theorem faithful_of_reaches (h : Reaches Ledger.step Ledger.Sound .new l) : l.Faithful :=
  (h.invariant kept_new fun _ _ _ hkept hsound hstep => hkept.step hsound hstep).faithful

private def shortGame (white black : String) (extraTags : List (String × String)) : Game where
  white := ⟨white, none, none, none⟩
  black := ⟨black, none, none, none⟩
  eventDetails := none
  date := none
  result := "1-0"
  eco := none
  moves := [796]
  extraTags
  provenance := { sourceType := "manual" }

/-- Three batches, one of which SQLite rolls back by itself, a patch inside one, failed inserts and a
removal, after which ids are used again. -/
theorem faithful_after_reuse : ∃ l : Ledger fun _ => 0, l.Faithful ∧
    l.db.games.map GameRow.id = [1, 2] ∧ l.expected 1 = some (.ofGame
      (shortGame "Topalov" "Karpov" [("Round", "1"), ("Board", "2"), ("_notes", "a draw?")])) := by
  have hrun : ((run Ledger.step Ledger.Sound (.new : Ledger fun _ => 0) [
      .begin .bulk true,
      .insert .bulk (shortGame "Anand" "Carlsen" [("Round", "1")]) {},
      .rollback .bulk true,
      .begin .bulk true,
      .insert .bulk (shortGame "Tal" "Petrosian" []) {},
      .insert .bulk (shortGame "Tal" "Botvinnik" []) { works := [false], undoes := true },
      .begin .embedded true,
      .insert .embedded (shortGame "Kasparov" "Karpov" [("Round", "1"), ("Board", "2")]) {},
      .insert .embedded (shortGame "Kasparov" "Karpov" []) {},
      .patch 1 { whiteName := some "Topalov", notes := some "a draw?" } {},
      .commit .embedded true false,
      .insert .bulk (shortGame "Anand" "Carlsen" [("Round", "1"), ("Round", "2")]) {},
      .insert .bulk (shortGame "Anand" "Carlsen" [("Round", "3")]) {},
      .remove 2 {},
      .insert .bulk (shortGame "Carlsen" "Anand" []) {}]).map
        fun l => (l.db.games.map GameRow.id, l.expected 1)) = some ([1, 2], some (.ofGame
          (shortGame "Topalov" "Karpov" [("Round", "1"), ("Board", "2"), ("_notes", "a draw?")])))
      := by decide +kernel
  obtain ⟨l, hl, hgames⟩ := Option.map_eq_some_iff.mp hrun
  obtain ⟨hids, hexpected⟩ := Prod.mk.inj hgames
  exact ⟨l, faithful_of_reaches (reaches_of_run hl), hids, hexpected⟩

/-- A patch inside a batch of the import writer leaves the id of its new player in the caches of the
store when the batch is rolled back. A later player gets that id, and a later patch gives the game to
that player. -/
theorem not_faithful_of_stale_id :
    ¬∀ l : Ledger fun _ => 0, Reaches Ledger.step (fun _ _ => True) .new l → l.Faithful := by
  intro hall
  have hrun : ((run Ledger.step (fun (_ : Ledger fun _ => 0) _ => True) .new [
      .insert .bulk (shortGame "Anand" "Carlsen" []) {},
      .begin .bulk true,
      .patch 1 { whiteName := some "Topalov" } {},
      .rollback .bulk true,
      .insert .bulk (shortGame "Kramnik" "Leko" []) {},
      .patch 1 { whiteName := some "Topalov" } {}]).map fun l =>
        (l.spoiled, (l.db.get 1).toOption.map fun game => game.white.name,
          (l.expected 1).map GameRecord.white)) =
        some (false, some "Kramnik", some "Topalov") := by decide +kernel
  obtain ⟨l, hl, hgames⟩ := Option.map_eq_some_iff.mp hrun
  obtain ⟨hspoiled, hread⟩ := Prod.mk.inj hgames
  obtain ⟨hgot, hexpected⟩ := Prod.mk.inj hread
  obtain ⟨game, hgame, hwhite⟩ := Option.map_eq_some_iff.mp hgot
  obtain ⟨row, hrow, hid⟩ := Rows.mem_games_of_get (toOption_eq_some.mp hgame)
  obtain ⟨game', record, hgame', hpromised, hrecord⟩ :=
    (hall l (reaches_of_run hl)).games hspoiled 1 (List.mem_map.mpr ⟨row, hrow, hid⟩)
  obtain rfl := Except.ok.inj ((toOption_eq_some.mp hgame).symm.trans hgame')
  rw [hpromised, Option.map_some] at hexpected
  have hname : game.white.name = cString record.white := congrArg GameRecord.white hrecord
  rw [hwhite, Option.some.inj hexpected] at hname
  exact absurd hname (by decide)

/-- A commit that fails for want of space loses the batch, and the writer still has its ids: Anand is
remembered by the id that Kramnik gets. -/
example : ((run Ledger.step (fun (_ : Ledger fun _ => 0) _ => True) .new [
    .begin .bulk true,
    .insert .bulk (shortGame "Anand" "Carlsen" []) {},
    .commit .bulk false true,
    .insert .bulk (shortGame "Kramnik" "Leko" []) {},
    .insert .bulk (shortGame "Anand" "Topalov" []) {}]).map fun l =>
      ((l.db.get 2).toOption.map fun game => game.white.name,
        (l.expected 2).map GameRecord.white)) =
      some (some "Kramnik", some "Anand") := by decide +kernel

/-- An insert that repeats a tag name fails after its game row; a commit of the batch keeps it. -/
example : ((run Ledger.step (fun (_ : Ledger fun _ => 0) _ => True) .new [
    .begin .bulk true,
    .insert .bulk (shortGame "Anand" "Carlsen" [("Round", "1"), ("Round", "2")]) {},
    .commit .bulk true false]).map fun l =>
      ((l.db.get 1).toOption.map Game.extraTags, l.expected 1)) =
      some (some [("Round", "1")], none) := by decide +kernel

end Runs

end MotifChess.Db.Store
