/- GID: MotifChess/Db/Store/RefinedCalls
   generality: implementation
   digest: The calls of the writers and the store do to the rows what their writes do to the tables. -/

import MotifChess.Db.Deduplicate
import MotifChess.Db.Store.RefinedInserts

set_option autoImplicit false
set_option relaxedAutoImplicit false

namespace MotifChess.Db.Store

open MotifChess.System Stateful

variable {moveHash : List UInt16 → UInt64} {rows rows' : Rows} {t t' : Tables} {row : GameRow}
  {s : CallState moveHash} {id : ℕ}

section Guards

variable {α : Type} {joined : Bool} {body : Call moveHash α} {write : Tables → Tables × Result α}

theorem CallState.Works.passed_eq (h : s.Works) : s.passed = s := by
  obtain ⟨db, caches, works⟩ := s
  obtain rfl : works = [] := h
  rfl

private theorem CallState.Mirrors.emptied (h : s.Mirrors t) : { s with caches := .empty }.Mirrors t :=
  ⟨h.refines, Rows.cached_empty, h.works⟩

/-- A write in a transaction of its own, or in one that is open. -/
def guardedWrite (joined : Bool) (write : Tables → Tables × Result α) : Tables → Tables × Result α :=
  if joined then write else Tables.alone write

theorem guardedWrite_of_ok {a : α} (h : write t = (t', .ok a)) :
    guardedWrite joined write t = (t', .ok a) := by
  cases joined with
  | true => exact h
  | false =>
    change Tables.alone write t = (t', .ok a)
    rw [Tables.alone, h]

theorem CallState.Mirrors.guarded (h : s.Mirrors t)
    (hbody : ∃ s', body s = ((write t).2, s') ∧ s'.Mirrors (write t).1) :
    ∃ s', guarded joined body s = ((guardedWrite joined write t).2, s') ∧
      s'.Mirrors (guardedWrite joined write t).1 := by
  obtain ⟨s', hrun, hend⟩ := hbody
  unfold Store.guarded
  cases joined with
  | true =>
    rw [if_pos rfl, hrun]
    change ∃ s' : CallState moveHash, _ = ((write t).2, s') ∧ s'.Mirrors (write t).1
    cases (write t).2 with
    | ok a => exact ⟨s', rfl, hend⟩
    | error e => exact ⟨_, rfl, hend.emptied⟩
  | false =>
    rw [if_neg Bool.false_ne_true, if_neg (by simp [h.works.nextWorks]), h.works.passed_eq, hrun]
    change ∃ s' : CallState moveHash, _ = ((Tables.alone write t).2, s') ∧ s'.Mirrors (Tables.alone write t).1
    unfold Tables.alone
    cases hwrite : write t with
    | mk after result =>
      rw [hwrite] at hend
      cases result with
      | ok a =>
        dsimp only
        rw [if_pos hend.works.nextWorks, hend.works.passed_eq]
        exact ⟨s', rfl, hend⟩
      | error e => exact ⟨_, rfl, ⟨h.refines, Rows.cached_empty, hend.works⟩⟩

theorem CallState.Mirrors.insert (h : s.Mirrors t) (raw : Bool) (game : Game)
    (hid : s.db.nextGameId < 4294967296) :
    ∃ s', Store.guarded joined (Store.insertBody raw game) s =
        ((guardedWrite joined (inserted moveHash raw game) t).2, s') ∧
      s'.Mirrors (guardedWrite joined (inserted moveHash raw game) t).1 :=
  h.guarded (h.insertBody raw game hid)

end Guards

/-- The call succeeds or fails as the write to the tables does, and a failure changes nothing. -/
def Mirrored (run : Result Unit × CallState moveHash) (t : Tables) (result : Result Tables) : Prop :=
  (∃ s' t', run = (.ok (), s') ∧ result = .ok t' ∧ s'.Mirrors t') ∨
    ∃ s' e, run = (.error e, s') ∧ result = .error e ∧ s'.Mirrors t

section Updates

variable {change : GameRow → GameRow} {stored : StoredGame → StoredGame}

/-- A change of a game row does to what the row says what a change of the stored game does. -/
structure Renders (id : ℕ) (change : GameRow → GameRow) (stored : StoredGame → StoredGame)
    (rows : Rows) : Prop where
  keepsId : ∀ row, (change row).id = row.id
  keepsCollision : ∀ row, (change row).identityCollision = row.identityCollision
  refers : ∀ row ∈ rows.games, row.id = id → rows.Refers (change row)
  shown : ∀ row ∈ rows.games, row.id = id →
    (rows.shown (change row)).stored = stored (rows.shown row).stored

private theorem Renders.refines (h : Renders id change stored rows) (hrefines : rows.Refines t) :
    (rows.updateGame id change).Refines (t.changeGame id stored) := by
  refine ⟨hrefines.players, hrefines.events, ?_, hrefines.identityIndex⟩
  change t.games.map _ = (rows.games.map _).map fun row => rows.shown row
  rw [hrefines.games, List.map_map, List.map_map]
  refine List.map_congr_left fun row hrow => ?_
  dsimp only [Function.comp_apply]
  by_cases hid : row.id = id
  · have hshown := h.shown row hrow hid
    rw [if_pos hid, if_pos (show (rows.shown row).id = id from hid), ← hshown]
    change (⟨row.id, row.identityCollision, (rows.shown (change row)).stored⟩ : Db.GameRow) =
      ⟨(change row).id, (change row).identityCollision, (rows.shown (change row)).stored⟩
    rw [h.keepsId, h.keepsCollision]
  · rw [if_neg hid, if_neg (show ¬(rows.shown row).id = id from hid)]

private theorem Renders.linked (h : Renders id change stored rows) (hrows : rows.Consistent moveHash) :
    (rows.updateGame id change).Linked moveHash := by
  have hlinked := @Rows.Consistent.updateGame _ _ id hrows.linked _ h.keepsId
    (fun row hrow hid => ⟨(h.refers row hrow hid).white, (h.refers row hrow hid).black⟩)
    (fun row hrow hid => (h.refers row hrow hid).event) nofun
  exact hlinked

/-- The update of a game row, under the unique index of the rows as under the one of the tables. -/
theorem CallState.Mirrors.updateGame (h : s.Mirrors t)
    (hrenders : Renders id change stored s.db.toRows) :
    Mirrored (Store.updateGame id change s) t (t.updateGame moveHash id stored) := by
  have hrefines := hrenders.refines h.refines
  have hconsistent := (hrenders.linked s.db.consistent).consistent_iff hrefines
  rw [Tables.updateGame]
  by_cases hindex : (t.changeGame id stored).indexHolds moveHash = true
  · rw [if_pos hindex]
    obtain ⟨s', hexec, hend, -⟩ := h.exec_ok (fun rows => .ok (rows.updateGame id change)) rfl
      (hconsistent.mpr hindex) (fun _ => List.prefix_rfl) hrefines
    exact .inl ⟨s', _, hexec, rfl, hend⟩
  · rw [if_neg hindex]
    obtain ⟨s', hexec, hend⟩ := h.exec_broken (fun rows => .ok (rows.updateGame id change)) rfl
      fun hrows => hindex (hconsistent.mp hrows)
    exact .inr ⟨s', _, hexec, rfl, hend⟩

private theorem indexHolds_changeGame_of_fields (hrefines : rows.Refines t) (hrows : rows.Consistent moveHash)
    (hfields : ∀ game, (stored game).identityFields = game.identityFields ∧
      (stored game).moves = game.moves) : (t.changeGame id stored).indexHolds moveHash = true := by
  have hbefore : t.indexHolds moveHash = true := (hrows.linked.consistent_iff hrefines).mp hrows
  have hkeys : (t.changeGame id stored).games.map (Db.GameRow.indexKey moveHash) =
      t.games.map (Db.GameRow.indexKey moveHash) := by
    change (t.games.map _).map _ = _
    rw [List.map_map]
    refine List.map_congr_left fun row _ => ?_
    simp only [Function.comp_apply, Db.GameRow.indexKey]
    split_ifs
    · rw [(hfields row.stored).1, (hfields row.stored).2]
    · rfl
  rw [Tables.indexHolds, Tables.indexUnique] at hbefore ⊢
  rw [hkeys]
  exact hbefore

theorem CallState.Mirrors.setManualProvenance (h : s.Mirrors t) (sourceLabel : Option String)
    (reviewStatus : String) : Mirrored (Store.setManualProvenance id sourceLabel reviewStatus s) t
      (t.setManualProvenance id sourceLabel reviewStatus) := by
  let change : GameRow → GameRow := fun row =>
    { row with provenance := ⟨"manual", sourceLabel, reviewStatus⟩ }
  let stored : StoredGame → StoredGame := fun game =>
    { game with provenance := ⟨"manual", sourceLabel, reviewStatus⟩ }
  have hrenders : Renders id change stored s.db.toRows :=
    ⟨fun _ => rfl, fun _ => rfl, fun row hrow _ =>
      ⟨(s.db.consistent.refers hrow).white, (s.db.consistent.refers hrow).black,
        (s.db.consistent.refers hrow).event⟩, fun _ _ _ => rfl⟩
  rw [Tables.setManualProvenance, h.refines.findGame_eq]
  let update : Rows → Result Rows := fun rows =>
    if (rows.findGame id).isNone then .error .notFound else .ok (rows.updateGame id change)
  cases hfound : s.db.findGame id with
  | none =>
    obtain ⟨s', hexec, hend⟩ := h.exec_error update (if_pos (by rw [hfound]; rfl))
    exact .inr ⟨s', _, hexec, rfl, hend⟩
  | some row =>
    have hindex := @indexHolds_changeGame_of_fields moveHash _ _ id stored h.refines s.db.consistent
      fun _ => ⟨rfl, rfl⟩
    have hrefines := hrenders.refines h.refines
    have hconsistent := ((hrenders.linked s.db.consistent).consistent_iff hrefines).mpr hindex
    obtain ⟨s', hexec, hend, -⟩ := h.exec_ok update (if_neg (by rw [hfound]; exact Bool.false_ne_true))
      hconsistent (fun _ => List.prefix_rfl) hrefines
    exact .inl ⟨s', _, hexec, rfl, hend⟩

end Updates

section Deletions

variable {keep : GameRow → Bool} {kept : Db.GameRow → Bool}

theorem consistent_keepGames (hrows : rows.Consistent moveHash) :
    (rows.keepGames keep).Consistent moveHash where
  ids := hrows.ids
  names := hrows.names
  gameIds := hrows.gameIds.sublist (List.filter_sublist.map _)
  players := fun row hrow => hrows.players row (List.mem_of_mem_filter hrow)
  events := fun row hrow => hrows.events row (List.mem_of_mem_filter hrow)
  tagged := by
    intro tag htag
    obtain ⟨htag, hkept⟩ := List.mem_filter.mp htag
    obtain ⟨row, hrow, hid⟩ := List.any_eq_true.mp hkept
    exact ⟨List.mem_map.mpr ⟨row, hrow, by simpa using hid⟩, (hrows.tagged tag htag).2⟩
  tagKeys := hrows.tagKeys.sublist (List.filter_sublist.map _)
  index := fun hindex => (hrows.index hindex).sublist (List.filter_sublist.map _)

private theorem refines_keepGames (h : rows.Refines t)
    (hkeep : ∀ row ∈ rows.games, kept (rows.shown row) = keep row) :
    (rows.keepGames keep).Refines (t.keepRows kept) := by
  refine ⟨h.players, h.events, ?_, h.identityIndex⟩
  change t.games.filter kept = (rows.games.filter keep).map fun row => (rows.keepGames keep).shown row
  have hfilter : rows.games.filter (kept ∘ fun row => rows.shown row) = rows.games.filter keep :=
    List.filter_congr hkeep
  rw [h.games, List.filter_map, hfilter]
  refine List.map_congr_left fun row hrow => ?_
  have htags : (rows.keepGames keep).extraTagsOf row.id = rows.extraTagsOf row.id :=
    extraTagsOf_keepGames hrow
  rw [Rows.shown, Rows.shown, htags]
  rfl

theorem CallState.Mirrors.remove (h : s.Mirrors t) :
    Mirrored (Store.remove id s) t (t.remove id) := by
  have hfound : (s.db.findGame id).isSome = s.db.games.any fun row => row.id = id := List.isSome_find?
  rw [Tables.remove, h.refines.mem_ids, ← hfound]
  let delete : Rows → Result Rows := fun rows =>
    if (rows.findGame id).isNone then .error .notFound
    else .ok (rows.keepGames fun row => row.id != id)
  cases hgame : s.db.findGame id with
  | none =>
    obtain ⟨s', hexec, hend⟩ := h.exec_error delete (if_pos (by rw [hgame]; rfl))
    exact .inr ⟨s', _, hexec, rfl, hend⟩
  | some row =>
    obtain ⟨s', hexec, hend, -⟩ := h.exec_ok delete (if_neg (by rw [hgame]; exact Bool.false_ne_true))
      (consistent_keepGames s.db.consistent) (fun _ => List.prefix_rfl)
      (@refines_keepGames _ _ _ (fun row => row.id != id) h.refines fun _ _ => rfl)
    exact .inl ⟨s', _, hexec, rfl, hend⟩

theorem CallState.Mirrors.dropIdentityIndex (h : s.Mirrors t) :
    ∃ s', Store.dropIdentityIndex s = (.ok (), s') ∧ s'.Mirrors t.dropIdentityIndex := by
  have hdropped : Rows.Refines { s.db.toRows with identityIndex := false } t.dropIdentityIndex :=
    ⟨h.refines.players, h.refines.events, h.refines.games, rfl⟩
  obtain ⟨s', hexec, hend, -⟩ := h.exec_ok (fun rows => .ok { rows with identityIndex := false }) rfl
    s.db.consistent.linked (fun _ => List.prefix_rfl) hdropped
  exact ⟨s', hexec, hend⟩

end Deletions

section Deduplication

theorem refines_dedupDelete (h : rows.Refines t) (hrows : rows.Consistent moveHash) :
    (dedupDelete moveHash rows).Refines (t.keepRows fun row => t.games.all fun other =>
      other.identity != row.identity || row.id ≤ other.id) := by
  refine refines_keepGames h fun row hrow => ?_
  rw [h.games, List.all_map, Bool.eq_iff_iff, List.all_eq_true, List.all_eq_true]
  refine forall₂_congr fun other hother => ?_
  have hsame := hrows.sameGame_iff (hrows.refers hother) (hrows.refers hrow)
  simp only [Function.comp_apply, Bool.or_eq_true, bne_iff_ne, ne_eq, hsame, Bool.not_eq_true',
    Bool.not_eq_true]
  rfl

theorem refines_dedupReassign (h : rows.Refines t) (hrows : rows.Consistent moveHash) :
    (dedupReassign moveHash rows).Refines
      (t.rewriteRows Db.GameRow.stored (t.rankInSlot moveHash)) := by
  refine ⟨h.players, h.events, ?_, h.identityIndex⟩
  change t.games.map _ = (rows.games.map _).map fun row => (dedupReassign moveHash rows).shown row
  rw [h.games, List.map_map, List.map_map]
  refine List.map_congr_left fun row hrow => ?_
  have hrank : t.rankInSlot moveHash (rows.shown row) = rows.games.countP fun other =>
      other.slot moveHash = row.slot moveHash && other.id < row.id := by
    rw [Tables.rankInSlot, h.games, List.countP_map]
    refine List.countP_congr fun other hother => ?_
    have hslot := hrows.sameSlot_shown (hrows.refers hother) (hrows.refers hrow)
    rw [Function.comp_apply, hslot]
    rfl
  simp only [Function.comp_apply, hrank]
  rfl

private theorem linked_dedupReassign (hrows : rows.Consistent moveHash) :
    (dedupReassign moveHash rows).Linked moveHash := by
  have hids : (dedupReassign moveHash rows).games.map GameRow.id = rows.games.map GameRow.id := by
    rw [dedupReassign, List.map_map]
    rfl
  refine ⟨hrows.ids, hrows.names, hids ▸ hrows.gameIds, fun row hrow => ?_, fun row hrow => ?_,
    fun tag htag => hids ▸ hrows.tagged tag htag, hrows.tagKeys, nofun⟩
  · obtain ⟨before, hbefore, rfl⟩ := List.mem_map.mp hrow
    exact hrows.players before hbefore
  · obtain ⟨before, hbefore, rfl⟩ := List.mem_map.mp hrow
    exact hrows.events before hbefore

/-- The three statements of a deduplication leave what the reconciled tables say. -/
theorem CallState.Mirrors.deduplicateBody (h : s.Mirrors t) : ∃ s', Store.deduplicateBody s =
      (.ok (t.games.length - (t.reconcile moveHash).games.length), s') ∧
    s'.Mirrors { t.reconcile moveHash with identityIndex := true } := by
  obtain ⟨s₁, hdelete, hmirrors₁, -⟩ := h.exec_ok (fun rows => .ok (dedupDelete moveHash rows)) rfl
    (consistent_keepGames s.db.consistent) (fun _ => List.prefix_rfl)
    (refines_dedupDelete h.refines s.db.consistent)
  have hunique : (t.reconcile moveHash).indexUnique moveHash = true :=
    Tables.ranked_reconcile.indexUnique
  have hrefines : (dedupReassign moveHash s₁.db.toRows).Refines (t.reconcile moveHash) :=
    refines_dedupReassign hmirrors₁.refines s₁.db.consistent
  have hlinked := linked_dedupReassign s₁.db.consistent
  obtain ⟨s₂, hreassign, hmirrors₂, -⟩ := hmirrors₁.exec_ok
    (fun rows => .ok (dedupReassign moveHash rows)) rfl
    ((hlinked.consistent_iff hrefines).mpr (by rw [Tables.indexHolds, hunique, Bool.or_true]))
    (fun _ => List.prefix_rfl) hrefines
  have hindexed : Rows.Refines { s₂.db.toRows with identityIndex := true }
      { t.reconcile moveHash with identityIndex := true } :=
    ⟨hmirrors₂.refines.players, hmirrors₂.refines.events, hmirrors₂.refines.games, rfl⟩
  have hlinked₂ : Rows.Linked moveHash { s₂.db.toRows with identityIndex := true } :=
    s₂.db.consistent.linked
  obtain ⟨s₃, hindex, hmirrors₃, -⟩ := hmirrors₂.exec_ok
    (fun rows => .ok { rows with identityIndex := true }) rfl
    ((hlinked₂.consistent_iff hindexed).mpr hunique) (fun _ => List.prefix_rfl) hindexed
  refine ⟨s₃, ?_, hmirrors₃⟩
  have hbefore : s.db.games.length = t.games.length := by rw [h.refines.games, List.length_map]
  have hafter : s₁.db.games.length = (t.reconcile moveHash).games.length := by
    rw [Tables.reconcile, Tables.rewriteRows, List.length_map, hmirrors₁.refines.games, List.length_map]
  unfold Store.deduplicateBody
  rw [run_read_bind, run_bind_of_ok hdelete, run_read_bind, run_bind_of_ok hreassign,
    run_bind_of_ok hindex, hbefore, hafter]
  rfl

theorem CallState.Mirrors.deduplicate (h : s.Mirrors t) {joined : Bool} :
    ∃ s', Store.deduplicate joined s =
        (.ok (t.games.length - (t.reconcile moveHash).games.length), s') ∧
      s'.Mirrors { t.reconcile moveHash with identityIndex := true } := by
  obtain ⟨s', hrun, hend⟩ := @CallState.Mirrors.guarded moveHash t s ℕ joined Store.deduplicateBody
    (fun t => ({ t.reconcile moveHash with identityIndex := true },
      .ok (t.games.length - (t.reconcile moveHash).games.length))) h h.deduplicateBody
  rw [guardedWrite_of_ok rfl] at hrun hend
  have hresult : Store.deduplicate joined s =
      (.ok (t.games.length - (t.reconcile moveHash).games.length), { s' with caches := s.caches }) := by
    rw [Store.deduplicate, hrun]
  have hshrunk := (deduplicate_spec h.cached).of_ok rfl hresult
  exact ⟨_, hresult, hend.refines, hshrunk.cached, hend.works⟩

end Deduplication

end MotifChess.Db.Store
