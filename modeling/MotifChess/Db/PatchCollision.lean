/- GID: MotifChess/Db/PatchCollision
   generality: implementation
   digest: The single-field updates of a patch under the identity index, and what a collision gives. -/

import MotifChess.Db.Collisions
import MotifChess.Db.PatchLaw

set_option autoImplicit false
set_option relaxedAutoImplicit false

namespace MotifChess.Db

variable {moveHash : List UInt16 → UInt64}

section Updates

/-- The single-field updates of a patch, in the order in which they are made. -/
def GamePatch.updates (patch : GamePatch) (eventName : String) : List (StoredGame → StoredGame) :=
  patch.whiteElo.toList.map (fun elo game => { game with whiteElo := some elo }) ++
    patch.whiteName.toList.map (fun name game => { game with white := name }) ++
    (patch.blackElo.toList.map (fun elo game => { game with blackElo := some elo }) ++
    patch.blackName.toList.map (fun name game => { game with black := name }) ++
    ((if patch.touchesEvent && eventName != "" then
      [fun game => { game with event := some eventName }] else []) ++
    (patch.date.toList.map (fun date game => { game with date := some date }) ++
    (patch.result.toList.map (fun result game => { game with result }) ++
    (patch.eco.toList.map (fun eco game => { game with eco := some eco }) ++
    (patch.sourceLabel.toList.map (fun label game =>
      { game with provenance := { game.provenance with sourceLabel := some label } }) ++
    patch.reviewStatus.toList.map fun status game =>
      { game with provenance := { game.provenance with reviewStatus := status } }))))))

/-- A game after some updates, one after the other. -/
def StoredGame.updated (game : StoredGame) (updates : List (StoredGame → StoredGame)) : StoredGame :=
  updates.foldl (fun game update => update game) game

namespace Tables

variable (moveHash) in
/-- Updates of one row, each under the unique index. -/
def updateAll (id : ℕ) (updates : List (StoredGame → StoredGame)) (t : Tables) : Result Tables :=
  updates.foldlM (fun t update => t.updateGame moveHash id update) t

variable (moveHash) in
/-- No other row has the columns that a row would have in the unique index with another game. -/
def IdentityFree (t : Tables) (row : GameRow) (game : StoredGame) : Prop :=
  ∀ other ∈ t.games, other.id ≠ row.id →
    other.indexKey moveHash ≠ { row with stored := game }.indexKey moveHash

variable {t t' u u' : Tables} {row : GameRow} {id : ℕ}

theorem eq_of_id_eq {a b : GameRow} (ha : a ∈ t.games) (hb : b ∈ t.games) (hid : a.id = b.id) :
    a = b := by
  have hnodup : (t.games.map GameRow.id).Nodup :=
    List.pairwise_map.mpr (t.ascending.imp fun h => Nat.ne_of_lt h)
  exact List.inj_on_of_nodup_map hnodup ha hb hid

theorem indexUnique_iff_identityFree : t.indexUnique moveHash = true ↔
    ∀ row ∈ t.games, t.IdentityFree moveHash row row.stored := by
  rw [indexUnique, decide_eq_true_eq]
  constructor
  · intro h row hrow other hother hne hkey
    have heq := List.inj_on_of_nodup_map h hother hrow hkey
    exact hne (congrArg GameRow.id heq)
  · intro h
    have hnodup : t.games.Nodup := by
      refine t.ascending.imp ?_
      rintro a b hlt rfl
      exact lt_irrefl _ hlt
    refine hnodup.map_on fun a ha b hb hkey => ?_
    by_contra hne
    exact h b hb a ha (fun hid => hne (eq_of_id_eq ha hb hid)) hkey

theorem mem_changeGame_games {change : StoredGame → StoredGame} {other : GameRow} :
    other ∈ (t.changeGame id change).games ↔ ∃ row ∈ t.games,
      other = if row.id = id then { row with stored := change row.stored } else row := by
  simp only [changeGame, rewriteRows, List.mem_map]
  constructor
  · rintro ⟨row, hrow, rfl⟩
    refine ⟨row, hrow, ?_⟩
    split <;> rfl
  · rintro ⟨row, hrow, rfl⟩
    refine ⟨row, hrow, ?_⟩
    split <;> rfl

private theorem identityFree_changeGame {change : StoredGame → StoredGame} {game : StoredGame} :
    (t.changeGame row.id change).IdentityFree moveHash { row with stored := change row.stored } game ↔
      t.IdentityFree moveHash row game := by
  constructor
  · intro h other hother hne
    exact h other (mem_changeGame_games.mpr ⟨other, hother, (if_neg hne).symm⟩) hne
  · intro h other hother hne
    obtain ⟨old, hold, rfl⟩ := mem_changeGame_games.mp hother
    split at hne
    next hid => exact absurd hid hne
    next hid =>
      rw [if_neg hid]
      exact h old hold hid

private theorem indexHolds_changeGame {change : StoredGame → StoredGame} (hindex : t.indexHolds moveHash = true)
    (hrow : row ∈ t.games) : (t.changeGame row.id change).indexHolds moveHash = true ↔
      (t.identityIndex = true → t.IdentityFree moveHash row (change row.stored)) := by
  have hflag : (t.changeGame row.id change).identityIndex = t.identityIndex := rfl
  rw [indexHolds, hflag]
  cases hexists : t.identityIndex with
  | false => simp
  | true =>
    rw [indexHolds, hexists, Bool.not_true, Bool.false_or, indexUnique_iff_identityFree] at hindex
    rw [Bool.not_true, Bool.false_or, indexUnique_iff_identityFree]
    constructor
    · intro h _
      have hself : { row with stored := change row.stored } ∈ (t.changeGame row.id change).games :=
        mem_changeGame_games.mpr ⟨row, hrow, (if_pos rfl).symm⟩
      exact identityFree_changeGame.mp (h _ hself)
    · intro h other hother
      obtain ⟨old, hold, rfl⟩ := mem_changeGame_games.mp hother
      by_cases hid : old.id = row.id
      · obtain rfl := eq_of_id_eq hold hrow hid
        rw [if_pos rfl]
        exact identityFree_changeGame.mpr (h rfl)
      · rw [if_neg hid]
        intro third hthird hne
        obtain ⟨old', hold', rfl⟩ := mem_changeGame_games.mp hthird
        by_cases hid' : old'.id = row.id
        · obtain rfl := eq_of_id_eq hold' hrow hid'
          rw [if_pos rfl]
          exact Ne.symm (h rfl old hold hid)
        · rw [if_neg hid'] at hne ⊢
          exact hindex old hold old' hold' hne

variable (moveHash) in
/-- As long as there is an identity index, no other row has the columns that a row has after some of
the updates. -/
def NeverTaken (t : Tables) (row : GameRow) (updates : List (StoredGame → StoredGame)) : Prop :=
  t.identityIndex = true → ∀ n, t.IdentityFree moveHash row (row.stored.updated (updates.take n))

private theorem neverTaken_nil (hindex : t.indexHolds moveHash = true) (hrow : row ∈ t.games) :
    t.NeverTaken moveHash row [] := by
  intro hexists n
  rw [indexHolds, hexists, Bool.not_true, Bool.false_or, indexUnique_iff_identityFree] at hindex
  rw [List.take_nil]
  exact hindex row hrow

private theorem neverTaken_cons {update : StoredGame → StoredGame} {updates : List (StoredGame → StoredGame)}
    (hindex : t.indexHolds moveHash = true) (hrow : row ∈ t.games) :
    t.NeverTaken moveHash row (update :: updates) ↔
      (t.changeGame row.id update).NeverTaken moveHash { row with stored := update row.stored }
        updates := by
  have hstep : ∀ n, row.stored.updated ((update :: updates).take (n + 1)) =
      (update row.stored).updated (updates.take n) := fun n => rfl
  constructor
  · intro h hexists n
    rw [identityFree_changeGame, ← hstep]
    exact h hexists (n + 1)
  · intro h hexists n
    cases n with
    | zero => exact neverTaken_nil hindex hrow hexists 0
    | succ n =>
      rw [hstep]
      exact identityFree_changeGame.mp (h hexists n)

/-- Updates of a row go through exactly when the row has its columns for itself after each of them;
otherwise they fail as an I/O failure does. -/
private theorem updateAll_cases (updates : List (StoredGame → StoredGame))
    (hindex : t.indexHolds moveHash = true) (hrow : row ∈ t.games) :
    t.NeverTaken moveHash row updates ∧
        (∃ t', t.updateAll moveHash row.id updates = .ok t') ∨
      ¬t.NeverTaken moveHash row updates ∧
        t.updateAll moveHash row.id updates = .error .ioFailure := by
  induction updates generalizing t row with
  | nil => exact .inl ⟨neverTaken_nil hindex hrow, t, rfl⟩
  | cons update updates ih =>
    rw [neverTaken_cons hindex hrow]
    have hself : { row with stored := update row.stored } ∈ (t.changeGame row.id update).games :=
      mem_changeGame_games.mpr ⟨row, hrow, (if_pos rfl).symm⟩
    rw [updateAll, List.foldlM_cons, updateGame]
    by_cases hpasses : (t.changeGame row.id update).indexHolds moveHash = true
    · rw [if_pos hpasses]
      exact ih hpasses hself
    · rw [if_neg hpasses]
      refine .inr ⟨fun hfree => ?_, rfl⟩
      rw [indexHolds_changeGame hindex hrow] at hpasses
      exact hpasses fun hexists => identityFree_changeGame.mp (hfree hexists 0)

end Tables

end Updates

section Patch

namespace Tables

variable {t t' : Tables} {row : GameRow} {id : ℕ} {patch : GamePatch}

/-- Tables with the same game rows under the same index. -/
def SameGames (t t' : Tables) : Prop := t.games = t'.games ∧ t.identityIndex = t'.identityIndex

/-- One error, or tables with the same games. -/
def SameOutcome : Result Tables → Result Tables → Prop
  | .ok t, .ok t' => t.SameGames t'
  | .error e, .error e' => e = e'
  | _, _ => False

theorem SameOutcome.bind {r r' : Result Tables} {f g : Tables → Result Tables}
    (h : SameOutcome r r') (hf : ∀ t t', t.SameGames t' → SameOutcome (f t) (g t')) :
    SameOutcome (r >>= f) (r' >>= g) := by
  cases r with
  | error e =>
    cases r' with
    | error e' => exact h
    | ok t' => exact h.elim
  | ok t =>
    cases r' with
    | error e' => exact h.elim
    | ok t' => exact hf t t' h

/-- One error, or tables of any kind. -/
def EndsAlike (r r' : Result Tables) : Prop :=
  (∃ t t', r = .ok t ∧ r' = .ok t') ∨ ∃ e, r = .error e ∧ r' = .error e

private theorem SameOutcome.endsAlike {r r' : Result Tables} {f g : Tables → Result Tables}
    (h : SameOutcome r r') (hf : ∀ t t', t.SameGames t' → EndsAlike (f t) (g t')) :
    EndsAlike (r >>= f) (r' >>= g) := by
  cases r with
  | error e =>
    cases r' with
    | error e' => exact .inr ⟨e, rfl, congrArg Except.error (show e = e' from h).symm⟩
    | ok t' => exact h.elim
  | ok t =>
    cases r' with
    | error e' => exact h.elim
    | ok t' => exact hf t t' h

private theorem SameOutcome.endsAlike_map {r r' : Result Tables} (h : SameOutcome r r')
    (f : Tables → Tables) : EndsAlike (r >>= fun t => .ok (f t)) r' := by
  cases r with
  | error e =>
    cases r' with
    | error e' => exact .inr ⟨e, rfl, congrArg Except.error (show e = e' from h).symm⟩
    | ok t' => exact h.elim
  | ok t =>
    cases r' with
    | error e' => exact h.elim
    | ok t' => exact .inl ⟨f t, t', rfl, rfl⟩

private theorem sameOutcome_updateGame (h : t.SameGames t') (update : StoredGame → StoredGame) :
    SameOutcome (t.updateGame moveHash id update) (t'.updateGame moveHash id update) := by
  have hgames : (t.changeGame id update).games = (t'.changeGame id update).games := by
    simp only [changeGame, rewriteRows, h.1]
  have hflag : (t.changeGame id update).identityIndex = (t'.changeGame id update).identityIndex := h.2
  have hindex : (t.changeGame id update).indexHolds moveHash =
      (t'.changeGame id update).indexHolds moveHash := by
    rw [indexHolds, indexHolds, indexUnique, indexUnique, hgames, hflag]
  rw [updateGame, updateGame, hindex]
  split
  · exact ⟨hgames, hflag⟩
  · rfl

private theorem updateAll_append (updates more : List (StoredGame → StoredGame)) :
    t.updateAll moveHash id (updates ++ more) =
      t.updateAll moveHash id updates >>= fun t => t.updateAll moveHash id more := by
  rw [updateAll, List.foldlM_append]
  rfl

private theorem updateAll_singleton (update : StoredGame → StoredGame) :
    t.updateAll moveHash id [update] = t.updateGame moveHash id update := by
  rw [updateAll, List.foldlM_cons]
  cases t.updateGame moveHash id update <;> rfl

private theorem sameOutcome_updateField {α : Type} (h : t.SameGames t') (value : Option α)
    (set : α → StoredGame → StoredGame) :
    SameOutcome (t.updateField moveHash id value set)
      (t'.updateAll moveHash id (value.toList.map set)) := by
  cases value with
  | none => exact h
  | some value =>
    rw [Option.toList_some, List.map_singleton, updateAll_singleton]
    exact sameOutcome_updateGame h (set value)

private theorem sameOutcome_patchPlayer (h : t.SameGames t') (setName : String → StoredGame → StoredGame)
    (setElo : Int32 → StoredGame → StoredGame) (current : Player) (name : Option String)
    (elo : Option Int32) :
    SameOutcome (t.patchPlayer moveHash id setName setElo current name elo)
      (t'.updateAll moveHash id (elo.toList.map setElo ++ name.toList.map setName)) := by
  rw [updateAll_append]
  refine (sameOutcome_updateField h elo setElo).bind fun u u' hu => ?_
  cases name with
  | none => exact hu
  | some name =>
    rw [Option.toList_some, List.map_singleton, updateAll_singleton]
    have hnamed : (u.findOrInsertPlayer { current with name }).SameGames u' := hu
    exact sameOutcome_updateGame hnamed (setName name)

private theorem sameOutcome_patchEvent (h : t.SameGames t') (current : Option Event) :
    SameOutcome (t.patchEvent moveHash id current patch.event patch.site)
      (t'.updateAll moveHash id (if patch.touchesEvent && patch.eventName current != "" then
        [fun game => { game with event := some (patch.eventName current) }] else [])) := by
  unfold patchEvent
  have htouches : (patch.event.isNone && patch.site.isNone) = !patch.touchesEvent := by
    unfold GamePatch.touchesEvent
    cases patch.event <;> cases patch.site <;> rfl
  rw [htouches]
  cases patch.touchesEvent with
  | false => exact h
  | true =>
    rw [if_neg (by decide), Bool.true_and]
    change SameOutcome (if patch.eventName current = "" then .ok t else _) _
    by_cases hname : patch.eventName current = ""
    · have hempty : (patch.eventName current != "") = false := by simp [hname]
      rw [if_pos hname, hempty]
      exact h
    · have hsome : (patch.eventName current != "") = true := by simp [hname]
      rw [if_neg hname, hsome, if_pos rfl, updateAll_singleton]
      have hnamed : ∀ event, (t.findOrInsertEvent event).SameGames t' := fun _ => h
      exact sameOutcome_updateGame (hnamed _) _

private theorem sameOutcome_patchScalars (h : t.SameGames t') :
    SameOutcome (t.patchScalars moveHash id patch) (t'.updateAll moveHash id
      (patch.date.toList.map (fun date game => { game with date := some date }) ++
      (patch.result.toList.map (fun result game => { game with result }) ++
      (patch.eco.toList.map (fun eco game => { game with eco := some eco }) ++
      (patch.sourceLabel.toList.map (fun label game =>
        { game with provenance := { game.provenance with sourceLabel := some label } }) ++
      patch.reviewStatus.toList.map fun status game =>
        { game with provenance := { game.provenance with reviewStatus := status } }))))) := by
  rw [updateAll_append]
  refine (sameOutcome_updateField h _ _).bind fun _ _ hdate => ?_
  rw [updateAll_append]
  refine (sameOutcome_updateField hdate _ _).bind fun _ _ hresult => ?_
  rw [updateAll_append]
  refine (sameOutcome_updateField hresult _ _).bind fun _ _ heco => ?_
  rw [updateAll_append]
  refine (sameOutcome_updateField heco _ _).bind fun _ _ hlabel => ?_
  exact sameOutcome_updateField hlabel _ _

/-- The name of the event that a patch selects or adds for the game of a row. -/
def patchedEventName (t : Tables) (row : GameRow) (patch : GamePatch) : String :=
  patch.eventName (t.gameOf row).read.eventDetails

private theorem endsAlike_patchMetadata (hrow : row ∈ t.games)
    (hmanual : row.stored.provenance.read.sourceType = "manual") :
    EndsAlike (t.patchMetadata moveHash row.id patch) (t.updateAll moveHash row.id
      (patch.updates (t.patchedEventName row patch))) := by
  unfold patchMetadata GamePatch.updates patchedEventName
  rw [findGame_of_mem hrow]
  simp only [ok_bind, hmanual, ne_eq, not_true_eq_false, if_false, get_of_mem hrow]
  rw [updateAll_append]
  refine (sameOutcome_patchPlayer ⟨rfl, rfl⟩ _ _ _ _ _).endsAlike fun _ _ hwhite => ?_
  rw [updateAll_append]
  refine (sameOutcome_patchPlayer hwhite _ _ _ _ _).endsAlike fun _ _ hblack => ?_
  rw [updateAll_append]
  refine (sameOutcome_patchEvent hblack _).endsAlike fun _ _ hevent => ?_
  exact (sameOutcome_patchScalars hevent).endsAlike_map fun t => t.patchNotes row.id patch.notes

end Tables

end Patch

section Final

private theorem StoredGame.updated_append (game : StoredGame) (updates more : List (StoredGame → StoredGame)) :
    game.updated (updates ++ more) = (game.updated updates).updated more :=
  List.foldl_append

private theorem StoredGame.updated_updates (game : StoredGame) (patch : GamePatch) (eventName : String) :
    game.updated (patch.updates eventName) =
      { patch.applied eventName game with extraTags := game.extraTags } := by
  have hwhiteElo : ∀ game : StoredGame, game.updated (patch.whiteElo.toList.map fun elo game =>
      { game with whiteElo := some elo }) =
        { game with whiteElo := patch.whiteElo.or game.whiteElo } := by
    intro game
    cases patch.whiteElo <;> rfl
  have hwhite : ∀ game : StoredGame, game.updated (patch.whiteName.toList.map fun name game =>
      { game with white := name }) = { game with white := patch.whiteName.getD game.white } := by
    intro game
    cases patch.whiteName <;> rfl
  have hblackElo : ∀ game : StoredGame, game.updated (patch.blackElo.toList.map fun elo game =>
      { game with blackElo := some elo }) =
        { game with blackElo := patch.blackElo.or game.blackElo } := by
    intro game
    cases patch.blackElo <;> rfl
  have hblack : ∀ game : StoredGame, game.updated (patch.blackName.toList.map fun name game =>
      { game with black := name }) = { game with black := patch.blackName.getD game.black } := by
    intro game
    cases patch.blackName <;> rfl
  have hevent : ∀ game : StoredGame, game.updated (if patch.touchesEvent && eventName != "" then
      [fun game => { game with event := some eventName }] else []) = { game with
        event := if patch.touchesEvent && eventName != "" then some eventName else game.event } := by
    intro game
    cases patch.touchesEvent && eventName != "" <;> rfl
  have hdate : ∀ game : StoredGame, game.updated (patch.date.toList.map fun date game =>
      { game with date := some date }) = { game with date := patch.date.or game.date } := by
    intro game
    cases patch.date <;> rfl
  have hresult : ∀ game : StoredGame, game.updated (patch.result.toList.map fun result game =>
      { game with result }) = { game with result := patch.result.getD game.result } := by
    intro game
    cases patch.result <;> rfl
  have heco : ∀ game : StoredGame, game.updated (patch.eco.toList.map fun eco game =>
      { game with eco := some eco }) = { game with eco := patch.eco.or game.eco } := by
    intro game
    cases patch.eco <;> rfl
  have hlabel : ∀ game : StoredGame, game.updated (patch.sourceLabel.toList.map fun label game =>
      { game with provenance := { game.provenance with sourceLabel := some label } }) =
        { game with provenance := { game.provenance with
          sourceLabel := patch.sourceLabel.or game.provenance.sourceLabel } } := by
    intro game
    cases patch.sourceLabel <;> rfl
  have hstatus : ∀ game : StoredGame, game.updated (patch.reviewStatus.toList.map fun status game =>
      { game with provenance := { game.provenance with reviewStatus := status } }) =
        { game with provenance := { game.provenance with
          reviewStatus := patch.reviewStatus.getD game.provenance.reviewStatus } } := by
    intro game
    cases patch.reviewStatus <;> rfl
  unfold GamePatch.updates
  simp only [StoredGame.updated_append, hwhiteElo, hwhite, hblackElo, hblack, hevent, hdate, hresult,
    heco, hlabel, hstatus]
  rfl

namespace Tables

variable {t t' : Tables} {row : GameRow} {patch : GamePatch}

/-- The row of a game as the patch wants it. -/
def patchedRow (t : Tables) (row : GameRow) (patch : GamePatch) : StoredGame :=
  patch.applied (t.patchedEventName row patch) row.stored

private theorem NeverTaken.identityFree (hexists : t.identityIndex = true)
    (h : t.NeverTaken moveHash row (patch.updates (t.patchedEventName row patch))) :
    t.IdentityFree moveHash row (t.patchedRow row patch) := by
  have hlast := h hexists (patch.updates (t.patchedEventName row patch)).length
  rw [List.take_length, StoredGame.updated_updates] at hlast
  exact hlast

theorem patchMetadata_cases (patch : GamePatch) (hindex : t.indexHolds moveHash = true) (hrow : row ∈ t.games)
    (hmanual : row.stored.provenance.read.sourceType = "manual") :
    t.NeverTaken moveHash row (patch.updates (t.patchedEventName row patch)) ∧
        (∃ t', t.patchMetadata moveHash row.id patch = .ok t') ∨
      ¬t.NeverTaken moveHash row (patch.updates (t.patchedEventName row patch)) ∧
        t.patchMetadata moveHash row.id patch = .error .ioFailure := by
  have hends : EndsAlike (t.patchMetadata moveHash row.id patch) _ :=
    endsAlike_patchMetadata hrow hmanual
  rcases updateAll_cases (patch.updates (t.patchedEventName row patch)) hindex hrow with
    ⟨hnever, u, hu⟩ | ⟨htaken, herror⟩
  · rcases hends with ⟨t', _, hpatch, -⟩ | ⟨e, -, he⟩
    · exact .inl ⟨hnever, t', hpatch⟩
    · rw [hu] at he
      cases he
  · rcases hends with ⟨_, t', -, ht'⟩ | ⟨e, hpatch, he⟩
    · rw [herror] at ht'
      cases ht'
    · obtain rfl := Except.error.inj (herror.symm.trans he)
      exact .inr ⟨htaken, hpatch⟩

end Tables

end Final

section Reachable

namespace Tables

variable {t t' : Tables} {row : GameRow} {game : Game}

private theorem indexHolds_congr
    (hkeys : t'.games.map (GameRow.indexKey moveHash) = t.games.map (GameRow.indexKey moveHash))
    (hflag : t'.identityIndex = t.identityIndex) (h : t.indexHolds moveHash = true) :
    t'.indexHolds moveHash = true := by
  rw [indexHolds, indexUnique, hkeys, hflag]
  exact h

private theorem indexHolds_insertRow (h : t.indexHolds moveHash = true) (collision : ℕ)
    (stored : StoredGame) : (t.insertRow moveHash collision stored).1.indexHolds moveHash = true := by
  unfold insertRow
  split
  · exact h
  · next hadded =>
    rw [Bool.not_eq_true, Bool.not_eq_false'] at hadded
    split
    · exact hadded
    · refine indexHolds_congr (t := t.addRow collision stored) ?_ rfl hadded
      simp only [addRow, List.map_append, List.map_cons, List.map_nil]
      rfl

theorem indexHolds_findOrInsertNames (h : t.indexHolds moveHash = true) :
    (t.findOrInsertNames game).indexHolds moveHash = true :=
  indexHolds_congr (by rw [findOrInsertNames_games]) (findOrInsertNames_identityIndex _ _) h

private theorem indexHolds_changeGame_of_congr {id : ℕ} {change : StoredGame → StoredGame}
    (hfields : ∀ game, (change game).identityFields = game.identityFields)
    (hmoves : ∀ game, (change game).moves = game.moves) (h : t.indexHolds moveHash = true) :
    (t.changeGame id change).indexHolds moveHash = true := by
  refine indexHolds_congr (t := t) ?_ rfl h
  simp only [changeGame, rewriteRows, List.map_map]
  apply List.map_congr_left
  intro row _
  simp only [Function.comp_apply, GameRow.indexKey]
  split
  · rw [hfields, hmoves]
  · rfl

theorem indexHolds_step {write : StoreWrite} (h : t.indexHolds moveHash = true)
    (hstep : write.step moveHash t = some t') : t'.indexHolds moveHash = true := by
  cases write with
  | insert game =>
    obtain rfl := Option.some.inj hstep
    by_cases hholds : t.Holds game
    · rw [insert_of_holds hholds]
      exact indexHolds_findOrInsertNames h
    · rw [insert_of_not_holds hholds]
      exact indexHolds_insertRow (indexHolds_findOrInsertNames h) _ _
  | insertRaw game =>
    obtain rfl := Option.some.inj hstep
    exact indexHolds_insertRow (indexHolds_findOrInsertNames h) _ _
  | dropIdentityIndex =>
    obtain rfl := Option.some.inj hstep
    rfl
  | deduplicate =>
    simp only [StoreWrite.step, deduplicate_eq] at hstep
    obtain rfl := Option.some.inj hstep
    exact ranked_reconcile.indexUnique
  | remove id =>
    simp only [StoreWrite.step, remove] at hstep
    split at hstep
    · obtain rfl := Option.some.inj hstep
      rw [Tables.indexHolds, Bool.or_eq_true] at h ⊢
      refine h.imp_right fun hunique => ?_
      rw [indexUnique_iff] at hunique ⊢
      exact hunique.sublist (List.filter_sublist.map _)
    · contradiction
  | patchMetadata id patch =>
    simp only [StoreWrite.step] at hstep
    cases hpatch : t.patchMetadata moveHash id patch with
    | error e => simp [hpatch, Except.toOption] at hstep
    | ok u =>
      rw [hpatch] at hstep
      obtain rfl := Option.some.inj hstep
      obtain ⟨row, hrow, rfl, hmanual, current, hcurrent, hrewritten⟩ := patchMetadata_ok hpatch
      obtain rfl := Except.ok.inj ((get_of_mem hrow).symm.trans hcurrent)
      rcases patchMetadata_cases patch h hrow hmanual with ⟨hnever, -⟩ | ⟨-, herror⟩
      · have hchanged := (indexHolds_changeGame h hrow).mpr fun hexists =>
          hnever.identityFree hexists
        exact indexHolds_congr (t := t.changeGame row.id _) (by rw [hrewritten.games]; rfl)
          hrewritten.identityIndex hchanged
      · rw [herror] at hpatch
        cases hpatch
  | setManualProvenance id label status =>
    simp only [StoreWrite.step] at hstep
    cases hset : t.setManualProvenance id label status with
    | error e => simp [hset, Except.toOption] at hstep
    | ok u =>
      rw [hset] at hstep
      obtain rfl := Option.some.inj hstep
      obtain ⟨_, _, hu⟩ := bind_eq_ok.mp hset
      obtain rfl := Except.ok.inj hu
      exact indexHolds_changeGame_of_congr (fun _ => rfl) (fun _ => rfl) h

theorem Reachable.indexHolds (h : t.Reachable moveHash) : t.indexHolds moveHash = true :=
  System.Reaches.invariant (P := fun t => t.indexHolds moveHash = true) h rfl
    fun _ _ _ hindex _ hstep => indexHolds_step hindex hstep

end Tables

end Reachable

end MotifChess.Db
