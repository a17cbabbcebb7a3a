/- GID: MotifChess/SlintApp/WindowProgress
   generality: implementation
   digest: What is at work in the window comes to its end, whatever ends first. -/

import MotifChess.SlintApp.WindowRuns
import MotifChess.System.Quiescence

set_option autoImplicit false
set_option relaxedAutoImplicit false

namespace MotifChess.SlintApp

open MotifChess.Db MotifChess.System

variable {Database Entry Continuation : Type}

namespace Window

/-- What the threads, the event loop and the timer do on their own, the timer when the import is over. -/
def background (w : Window Entry Continuation) : WindowAction Database → Bool
  | .tick => !w.importer.active
  | .finishWorkspace _ => true
  | .deliverWorkspace => true
  | .finishBrowser _ => true
  | .deliverBrowser => true
  | .finishSearch _ _ => true
  | .deliverSearch => true
  | .fetchPipeline => true
  | .returnResult _ => true
  | .endThread => true
  | _ => false

/-- The steps that are left, with those that they may start. -/
def remaining (w : Window Entry Continuation) : ℕ :=
  w.search.effort + w.browser.effort + 15 * (w.workspace.remaining + w.importTimer.toNat) +
    w.importer.thread.remaining

/-- A window in which nothing is at work, so that none of its callbacks is refused. -/
def resting (w : Window Entry Continuation) : Prop := w.busy = false ∧ w.importTimer = false

variable {env : Environment Database Entry Continuation} {w v : Window Entry Continuation}
  {phase : Worker.Phase WorkspaceRequest Bool}

section Decrease

private theorem remaining_publishBoard : w.publishBoard.remaining ≤ w.remaining + 3 := by
  unfold Window.publishBoard
  cases w.currentHash with
  | none => exact Nat.le_add_right _ _
  | some hash =>
    have hgrows := (SearchRunner.grows_searchIfHashChanged (s := w.search) hash
      w.browser.activeFilter).effort
    simp only [Window.remaining, Option.elim_some]
    omega

private theorem remaining_act (action : BoardAction) : (w.act env action).remaining ≤ w.remaining + 3 := by
  unfold Window.act
  split
  · exact Nat.le_add_right _ _
  · exact remaining_publishBoard

variable (env) in
private theorem remaining_handle (event : Option (BrowserEvent Game)) :
    (w.handle env event).remaining ≤ w.remaining + 3 := by
  unfold Window.handle
  split
  · exact Nat.le_add_right _ _
  · exact remaining_act _
  · exact remaining_act _
  · exact Nat.le_add_right _ _

private theorem remaining_tick (hinactive : w.importer.active = false) (hstep : w.tick = some v) :
    v.remaining < w.remaining := by
  unfold Window.tick at hstep
  split at hstep
  next htimer =>
    rw [if_neg (by rw [hinactive]; exact Bool.false_ne_true)] at hstep
    obtain rfl := Option.some.inj hstep
    have hbrowser := (BrowserRunner.grows_prepareQuery (s := w.browser) .initialLoad).effort
    have hsearch : (w.search.invalidatePositionCache.refreshIfAuto w.currentHash
        (w.browser.prepareQuery .initialLoad).activeFilter).effort ≤ w.search.effort + 3 :=
      (SearchRunner.grows_map.trans (SearchRunner.grows_refreshIfAuto _ _)).effort
    have hcurrent : ({ w with
        importTimer := false
        browser := w.browser.prepareQuery .initialLoad } : Window Entry Continuation).currentHash =
          w.currentHash := rfl
    simp only [Window.remaining, hcurrent, htimer, Bool.toNat_true, Bool.toNat_false]
    omega
  next => cases hstep

private theorem effort_attach_browser (s : BrowserRunner Entry Game) : s.attach.effort ≤ s.effort := by
  simp only [BrowserRunner.effort, BrowserRunner.attach, Option.toList_none, List.length_nil]
  omega

private theorem effort_attach_search (startingPositionHash : UInt64) (s : SearchRunner Entry Continuation) :
    (s.attach startingPositionHash).effort ≤ s.effort := by
  simp only [SearchRunner.effort, SearchRunner.attach, Option.toList_none, List.length_nil]
  omega

private theorem remaining_finishWorkspace {world : WorkspaceWorld}
    (hstep : w.finishWorkspace env world = some v) : v.remaining < w.remaining := by
  obtain ⟨ticket, -, hstep⟩ := Option.bind_eq_some_iff.mp hstep
  obtain ⟨workspace, hworkspace, rfl⟩ := Option.map_eq_some_iff.mp hstep
  have hless := Worker.remaining_finish hworkspace
  simp only [Window.remaining]
  omega

variable (env) in
private theorem remaining_attach (number : ℕ) : (w.attach env number).remaining ≤ w.remaining + 14 := by
  unfold Window.attach
  refine Nat.le_trans remaining_publishBoard ?_
  have hbrowser := (BrowserRunner.grows_prepareQuery (s := w.browser.attach) .initialLoad).effort
  have hattached := effort_attach_browser w.browser
  have hsearch := effort_attach_search (env.library.hash env.library.start) w.search
  simp only [Window.remaining]
  omega

private theorem remaining_deliverWorkspace (hstep : w.deliverWorkspace env = some v) :
    v.remaining < w.remaining := by
  obtain ⟨⟨completion, workspace⟩, htake, rfl⟩ := Option.map_eq_some_iff.mp hstep
  have hless := Worker.remaining_take htake
  have hleft : ({ w with workspace } : Window Entry Continuation).remaining + 15 ≤ w.remaining := by
    simp only [Window.remaining]
    omega
  dsimp only
  split
  · split
    · cases w.service.db with
      | none => exact Nat.lt_of_lt_of_le (Nat.lt_add_of_pos_right (by decide)) hleft
      | some number =>
        have hattached := remaining_attach env (w := { w with workspace }) number
        show Window.remaining (attach env number { w with workspace }) < _
        omega
    · exact Nat.lt_of_lt_of_le (Nat.lt_add_of_pos_right (by decide)) hleft
  · exact Nat.lt_of_lt_of_le (Nat.lt_add_of_pos_right (by decide)) hleft

private theorem Orderly.remaining_deliverBrowser (h : Orderly env w phase)
    (hstep : w.deliverBrowser env = some v) : v.remaining < w.remaining := by
  obtain ⟨⟨browser, event⟩, hdeliver, rfl⟩ := Option.map_eq_some_iff.mp hstep
  obtain ⟨before, hsound⟩ := h.browser
  have heffort := (BrowserRunner.grows_deliver hsound.attached hdeliver).2
  have hhandled := remaining_handle env (w := { w with browser }) event
  have hleft : ({ w with browser } : Window Entry Continuation).remaining + 5 ≤ w.remaining := by
    simp only [Window.remaining]
    omega
  dsimp only
  omega

private theorem remaining_stepImporter {a : ImportServiceAction} (hstep : w.stepImporter a = some v)
    (hless : ∀ t, w.importer.step a = some t → t.thread.remaining < w.importer.thread.remaining) :
    v.remaining < w.remaining := by
  obtain ⟨t, ht, rfl⟩ := Option.map_eq_some_iff.mp hstep
  exact Nat.add_lt_add_left (hless t ht) _

end Decrease

section Settling

theorem Orderly.decreases (h : Orderly env w phase) {a : WindowAction Database}
    (hbackground : background w a = true) (hstep : w.step env a = some v) :
    v.remaining < w.remaining := by
  cases a with
  | tick =>
    rw [background, Bool.not_eq_true'] at hbackground
    exact remaining_tick hbackground hstep
  | finishWorkspace world => exact remaining_finishWorkspace hstep
  | deliverWorkspace => exact remaining_deliverWorkspace hstep
  | finishBrowser database =>
    obtain ⟨browser, hfinish, rfl⟩ := Option.map_eq_some_iff.mp hstep
    have heffort := (BrowserRunner.grows_finish hfinish).2
    simp only [Window.remaining]
    omega
  | deliverBrowser => exact h.remaining_deliverBrowser hstep
  | finishSearch once again =>
    obtain ⟨search, hfinish, rfl⟩ := Option.map_eq_some_iff.mp hstep
    have heffort := (SearchRunner.grows_finish hfinish).2
    simp only [Window.remaining]
    omega
  | deliverSearch =>
    obtain ⟨search, hdeliver, rfl⟩ := Option.map_eq_some_iff.mp hstep
    have heffort := (SearchRunner.grows_deliver h.asking hdeliver).2
    simp only [Window.remaining]
    omega
  | fetchPipeline =>
    exact remaining_stepImporter hstep fun _ ht => (ImportService.follows_fetchPipeline ht).2
  | returnResult result =>
    exact remaining_stepImporter hstep fun _ ht => (ImportService.follows_returnResult ht).2
  | endThread => exact remaining_stepImporter hstep fun _ ht => (ImportService.follows_endThread ht).2
  | _ => cases hbackground

private theorem Orderly.background_step (h : Orderly env w phase) (database : Database)
    (hbusy : ¬w.resting) : ∃ a v, background w a = true ∧ w.step env a = some v := by
  have hstep : ∀ a : WindowAction Database, background w a = true → (w.step env a).isSome = true →
      ∃ a v, background w a = true ∧ w.step env a = some v := by
    intro a hbackground hsome
    obtain ⟨v, hv⟩ := Option.isSome_iff_exists.mp hsome
    exact ⟨a, v, hbackground, hv⟩
  by_cases hactive : w.importer.active = true
  · rcases h.importer.progress hactive (.error ⟨.eof, ""⟩) with hspawn | hfetch | hreturn | hend
    · rw [ImportService.spawnThread, h.starting] at hspawn
      cases hspawn
    · exact hstep .fetchPipeline rfl (Option.isSome_map.trans hfetch)
    · exact hstep (.returnResult _) rfl (Option.isSome_map.trans hreturn)
    · exact hstep .endThread rfl (Option.isSome_map.trans hend)
  by_cases hworkspace : w.workspace.busy = true
  · rcases h.workspace.progress hworkspace fun _ => true with hfinish | htake
    · rw [Worker.finish, Option.isSome_map] at hfinish
      obtain ⟨request, hrequest⟩ := Option.isSome_iff_exists.mp hfinish
      obtain ⟨worker, hfinished⟩ := finishes_workspace env ⟨.ok "", none⟩ hrequest
      exact ⟨.finishWorkspace ⟨.ok "", none⟩, _, rfl, hfinished⟩
    · exact hstep .deliverWorkspace rfl (Option.isSome_map.trans htake)
  by_cases hbrowser : w.browser.worker.busy = true
  · obtain ⟨browserPhase, hsound⟩ := h.browser
    rcases hsound.worker.progress hbrowser (env.browserReads.execute database) with hfinish | htake
    · exact hstep (.finishBrowser database) rfl
        (Option.isSome_map.trans (Option.isSome_map.trans hfinish))
    · exact hstep .deliverBrowser rfl (Option.isSome_map.trans (Option.isSome_map.trans htake))
  by_cases hsearch : w.search.worker.busy = true
  · obtain ⟨searchPhase, hsound⟩ := h.search
    let snapshots : Snapshots Database := ⟨database, database, database⟩
    rcases hsound.worker.progress hsearch (runJob env.searchReads snapshots snapshots false) with
      hfinish | htake
    · refine hstep (.finishSearch snapshots snapshots) rfl ?_
      rw [Worker.finish, Option.isSome_map] at hfinish
      exact Option.isSome_map.trans (Option.isSome_map.trans (Option.isSome_map.trans hfinish))
    · exact hstep .deliverSearch rfl (Option.isSome_map.trans (Option.isSome_map.trans htake))
  rw [Bool.not_eq_true] at hactive hworkspace hbrowser hsearch
  have htimer : w.importTimer = true := by
    rw [← Bool.not_eq_false]
    intro hoff
    refine hbusy ⟨?_, hoff⟩
    rw [Window.busy, hactive, hworkspace, hbrowser, hsearch]
    rfl
  refine hstep .tick ?_ ?_
  · rw [background, hactive]
    rfl
  · show w.tick.isSome = true
    rw [Window.tick, if_pos htimer, if_neg (by rw [hactive]; exact Bool.false_ne_true)]
    rfl

variable (env) in
private theorem settles (database : Database) : Settles (Window.step env) (fun w a => background w a = true)
    (fun w => ∃ phase, Orderly env w phase) resting remaining where
  keeps s a t hs hbackground hstep := by
    obtain ⟨phase, horderly⟩ := hs
    exact horderly.step hstep
  decreases s a t hs hbackground hstep := by
    obtain ⟨phase, horderly⟩ := hs
    exact horderly.decreases hbackground hstep
  progress s hs hbusy := by
    obtain ⟨phase, horderly⟩ := hs
    exact horderly.background_step database hbusy

variable (env) in
/-- A window at rest: no callback is refused, nothing waits, and what the browser and the search panel
show answers what was last asked of them. -/
structure AtRest (w : Window Entry Continuation) : Prop where
  free : w.busy = false
  timer : w.importTimer = false
  browser : ∀ p, w.browser.presenter = some p → BrowserRunner.Settled env.browserReads w.browser p
  search : ∀ p, w.search.presenter = some p → SearchRunner.Settled env.searchReads w.search p

private theorem Orderly.atRest (h : Orderly env w phase) (hresting : w.resting) : AtRest env w where
  free := hresting.1
  timer := hresting.2
  browser p hp := by
    obtain ⟨browserPhase, hsound⟩ := h.browser
    exact hsound.settled (not_busy (by rw [hresting.1]; exact Bool.false_ne_true)).2.1 hp
  search p hp := by
    obtain ⟨searchPhase, hsound⟩ := h.search
    exact hsound.settled (not_busy (by rw [hresting.1]; exact Bool.false_ne_true)).2.2 hp

variable (env) in
/-- From every state that a run of the window reaches, the background comes to rest: some steps of its
own lead there, in whatever order it takes them they are no more than the bound, and where it can take
no more the window is at rest. -/
theorem atRest_of_reaches (database : Database) {readable : Bool} {file : Option (List UInt8)}
    (h : Reaches (Window.step env) (fun _ _ => True) (initial env readable file) w) :
    (∃ n v, Takes (Window.step env) (fun w a => background w a = true) w n v ∧ AtRest env v) ∧
    ∀ n v, Takes (Window.step env) (fun w a => background w a = true) w n v → n ≤ w.remaining ∧
      ((∀ a, background v a = true → v.step env a = none) → AtRest env v) := by
  have hsettles := settles env database
  have horderly := orderly_of_reaches h
  refine ⟨?_, fun n v htakes => ⟨?_, fun hstuck => ?_⟩⟩
  · obtain ⟨n, v, htakes, hresting⟩ := hsettles.exists_quiet horderly
    obtain ⟨phase, hv⟩ := hsettles.invariant_of_takes horderly htakes
    exact ⟨n, v, htakes, hv.atRest hresting⟩
  · have hle := hsettles.le_remaining horderly htakes
    omega
  · obtain ⟨phase, hv⟩ := hsettles.invariant_of_takes horderly htakes
    exact hv.atRest (hsettles.quiet_of_stuck horderly htakes hstuck)

/-- The import is over and its timer is on. -/
theorem atRest_of_reaches_sample : ∃ w n v, runHome importedActions = some w ∧ w.importTimer = true ∧
    Takes (Window.step emptyHome) (fun w a => background w a = true) w n v ∧
    AtRest emptyHome v ∧ n ≤ 15 := by
  have hrun : (runHome importedActions).map (fun w => (w.importTimer, w.remaining)) =
      some (true, 15) := by
    decide +kernel
  obtain ⟨w, hw, hvalues⟩ := Option.map_eq_some_iff.mp hrun
  obtain ⟨htimer, hremaining⟩ := Prod.mk.inj hvalues
  obtain ⟨⟨n, v, htakes, hrest⟩, hbound⟩ := atRest_of_reaches emptyHome () (reaches_of_run hw)
  exact ⟨w, n, v, hw, htimer, htakes, hrest, hremaining ▸ (hbound n v htakes).1⟩

end Settling

end Window

end MotifChess.SlintApp
