/- GID: MotifChess/SlintApp/WindowRuns
   generality: implementation
   digest: In every run of the window, a database that is replaced or imported into is read by nothing. -/

import MotifChess.SlintApp.ImportServiceRuns
import MotifChess.SlintApp.RunnerEffort
import MotifChess.SlintApp.Window
import MotifChess.SlintApp.WorkspaceRuns

set_option autoImplicit false
set_option relaxedAutoImplicit false

namespace MotifChess.SlintApp

open MotifChess.Db MotifChess.System

variable {Database Entry Continuation : Type}

section Parts

private theorem busy_of_running {Job Outcome : Type} {w : Worker Job Outcome} {p : Worker.Phase Job Outcome}
    {ticket : Ticket Job} (h : w.InPhase p) (hrunning : w.running = some ticket) : w.busy = true := by
  cases h with
  | idle _ hnone => cases hnone.symm.trans hrunning
  | running hbusy => exact hbusy
  | finished hbusy => exact hbusy

private theorem running_eq_none {Job Outcome : Type} {w : Worker Job Outcome} {p : Worker.Phase Job Outcome}
    (h : w.InPhase p) (hfree : w.busy = false) : w.running = none := by
  rw [Option.eq_none_iff_forall_ne_some]
  intro ticket hrunning
  exact Bool.false_ne_true (hfree.symm.trans (busy_of_running h hrunning))

private theorem BrowserRunner.deliver_idle {reads : BrowserReads Database Entry Game}
    {s t : BrowserRunner Entry Game} {phase : Worker.Phase BrowserJob (BrowserOutcome Entry Game)}
    (h : BrowserRunner.Sound reads s phase) (hfree : s.worker.busy = false)
    {event : Option (BrowserEvent Game)} (hdeliver : s.deliver reads = some (t, event)) :
    event = none ∧ t.worker.busy = false := by
  obtain ⟨⟨completion, worker⟩, htake, hdelivered⟩ := Option.map_eq_some_iff.mp hdeliver
  obtain ⟨hbusy, -, hstale | hlive⟩ := h.worker.take htake
  · dsimp only at hdelivered
    rw [if_neg hstale.1] at hdelivered
    obtain ⟨rfl, rfl⟩ := Prod.mk.inj hdelivered
    exact ⟨rfl, hbusy.trans hfree⟩
  · have hphase := h.worker.eq_idle hfree
    cases hphase.symm.trans hlive.2.1

private theorem SearchRunner.deliver_idle {reads : Reads Database Entry Continuation}
    {s t : SearchRunner Entry Continuation}
    {phase : Worker.Phase SearchJob (SearchOutcome Entry Continuation)}
    (h : SearchRunner.Sound reads s phase) (hfree : s.worker.busy = false)
    (hdeliver : s.deliver = some t) : t.worker.busy = false := by
  obtain ⟨⟨completion, worker⟩, htake, rfl⟩ := Option.map_eq_some_iff.mp hdeliver
  obtain ⟨hbusy, -, hstale | hlive⟩ := h.worker.take htake
  · dsimp only
    rw [if_neg hstale.1]
    exact hbusy.trans hfree
  · have hphase := h.worker.eq_idle hfree
    cases hphase.symm.trans hlive.2.1

end Parts

section Invariant

variable (env : Environment Database Entry Continuation)

namespace Window

/-- The presenters of an epoch read from the active database. -/
def Bound (w : Window Entry Continuation) (epoch : ℕ) : Prop :=
  w.readFrom epoch = w.service.db ∧ w.service.db.isSome = true

/-- The window shows what the service is. -/
def Shown (w : Window Entry Continuation) : Prop :=
  w.hasDatabase = w.service.db.isSome ∧ w.notationBelow = w.service.notationBelow

/-- A service that accounts for its bundles, which are numbered as they were acquired. -/
structure Served (s : WorkspaceService ℕ) : Prop where
  accounted : WorkspaceService.Accounted env.format env.configured s
  numbered : s.log.acquired = List.range s.log.acquired.length

/-- A window in which nothing reads a database while one is opened or imported into, and nothing reads
another than the active one. -/
structure Orderly (w : Window Entry Continuation) (phase : Worker.Phase WorkspaceRequest Bool) :
    Prop where
  browser : ∃ phase, BrowserRunner.Sound env.browserReads w.browser phase
  search : ∃ phase, SearchRunner.Sound env.searchReads w.search phase
  asking : w.search.Attached
  workspace : w.workspace.InPhase phase
  importer : w.importer.Coherent
  starting : w.importer.starting = .free
  exclusive : w.browser.worker.busy = true ∨ w.search.worker.busy = true →
    w.workspace.busy = false ∧ w.importer.active = false
  importing : w.importer.active = true → w.workspace.busy = false
  epochs : w.search.epoch = w.browser.epoch
  attached : (∀ request, phase ≠ .finished request true) →
    w.browser.presenter.isSome = true ∨ w.search.presenter.isSome = true → w.Bound w.browser.epoch
  completed : ∀ request, phase = .finished request true → w.service.db.isSome = true
  reading : ∀ ticket, w.browser.worker.running = some ticket → w.Bound ticket.job.epoch
  searching : ∀ ticket, w.search.worker.running = some ticket → w.Bound ticket.job.epoch
  importInto : w.importer.active = true → w.importInto = w.service.db ∧ w.service.db.isSome = true
  shown : w.workspace.busy = false → w.Shown
  closed : w.workspace.busy = true → w.hasDatabase = false ∧
    w.browser.presenter.isSome = false ∧ w.search.presenter.isSome = false
  service : Served env w.service

variable {env} {w v : Window Entry Continuation} {phase : Worker.Phase WorkspaceRequest Bool} {n : ℕ}

theorem Orderly.idle (h : Orderly env w phase) (hfree : w.workspace.busy = false) : phase = .idle :=
  h.workspace.eq_idle hfree

private theorem Orderly.setBrowser (h : Orderly env w phase) {browser : BrowserRunner Entry Game}
    (hsound : ∃ phase, BrowserRunner.Sound env.browserReads browser phase)
    (hgrows : w.browser.Grows browser n)
    (hfree : browser.worker.busy = true → w.workspace.busy = false ∧ w.importer.active = false) :
    Orderly env { w with browser } phase where
  browser := hsound
  search := h.search
  asking := h.asking
  workspace := h.workspace
  importer := h.importer
  starting := h.starting
  exclusive hbusy := hbusy.elim hfree fun hsearch => h.exclusive (.inr hsearch)
  importing := h.importing
  epochs := h.epochs.trans hgrows.epoch.symm
  attached hphase hpresenter := by
    show w.Bound browser.epoch
    rw [hgrows.epoch]
    exact h.attached hphase (by rw [← hgrows.attached]; exact hpresenter)
  completed := h.completed
  reading ticket hrunning := by
    rcases hgrows.running ticket hrunning with hbefore | ⟨hepoch, hpresenter⟩
    · exact h.reading ticket hbefore
    · obtain ⟨browserPhase, hbrowser⟩ := hsound
      have hidle := h.idle (hfree (busy_of_running hbrowser.worker hrunning)).1
      show w.Bound ticket.job.epoch
      rw [hepoch]
      refine h.attached (fun request hfinished => ?_) (.inl hpresenter)
      cases hidle.symm.trans hfinished
  searching := h.searching
  importInto := h.importInto
  shown := h.shown
  closed hbusy := ⟨(h.closed hbusy).1, hgrows.attached.trans (h.closed hbusy).2.1, (h.closed hbusy).2.2⟩
  service := h.service

private theorem Orderly.setSearch (h : Orderly env w phase) {search : SearchRunner Entry Continuation}
    (hsound : ∃ phase, SearchRunner.Sound env.searchReads search phase)
    (hgrows : w.search.Grows search n)
    (hfree : search.worker.busy = true → w.workspace.busy = false ∧ w.importer.active = false) :
    Orderly env { w with search } phase where
  browser := h.browser
  search := hsound
  asking := hgrows.waiting h.asking
  workspace := h.workspace
  importer := h.importer
  starting := h.starting
  exclusive hbusy := hbusy.elim (fun hbrowser => h.exclusive (.inl hbrowser)) hfree
  importing := h.importing
  epochs := hgrows.epoch.trans h.epochs
  attached hphase hpresenter := by
    refine h.attached hphase ?_
    rw [← hgrows.attached]
    exact hpresenter
  completed := h.completed
  reading := h.reading
  searching ticket hrunning := by
    rcases hgrows.running ticket hrunning with hbefore | ⟨hepoch, hpresenter⟩
    · exact h.searching ticket hbefore
    · obtain ⟨searchPhase, hsearch⟩ := hsound
      have hidle := h.idle (hfree (busy_of_running hsearch.worker hrunning)).1
      show w.Bound ticket.job.epoch
      rw [hepoch, h.epochs]
      refine h.attached (fun request hfinished => ?_) (.inr hpresenter)
      cases hidle.symm.trans hfinished
  importInto := h.importInto
  shown := h.shown
  closed hbusy := ⟨(h.closed hbusy).1, (h.closed hbusy).2.1, hgrows.attached.trans (h.closed hbusy).2.2⟩
  service := h.service

private theorem Orderly.setBoard (h : Orderly env w phase) (board : Option BoardPresenter) :
    Orderly env { w with board } phase :=
  ⟨h.browser, h.search, h.asking, h.workspace, h.importer, h.starting, h.exclusive, h.importing,
    h.epochs, h.attached, h.completed, h.reading, h.searching, h.importInto, h.shown, h.closed,
    h.service⟩

private theorem Orderly.setService (h : Orderly env w phase) {service : WorkspaceService ℕ}
    (hserved : Served env service) (hdb : service.db = w.service.db) (notationBelow : Bool)
    (hshown : w.workspace.busy = false → notationBelow = service.notationBelow) :
    Orderly env { w with service, notationBelow } phase where
  browser := h.browser
  search := h.search
  asking := h.asking
  workspace := h.workspace
  importer := h.importer
  starting := h.starting
  exclusive := h.exclusive
  importing := h.importing
  epochs := h.epochs
  attached hphase hpresenter := by
    unfold Bound
    rw [hdb]
    exact h.attached hphase hpresenter
  completed := by rw [hdb]; exact h.completed
  reading := by unfold Bound; rw [hdb]; exact h.reading
  searching := by unfold Bound; rw [hdb]; exact h.searching
  importInto := by rw [hdb]; exact h.importInto
  shown hidle := ⟨(h.shown hidle).1.trans (congrArg _ hdb.symm), hshown hidle⟩
  closed := h.closed
  service := hserved

private theorem Orderly.setTimer (h : Orderly env w phase) (importTimer : Bool) :
    Orderly env { w with importTimer } phase :=
  ⟨h.browser, h.search, h.asking, h.workspace, h.importer, h.starting, h.exclusive, h.importing,
    h.epochs, h.attached, h.completed, h.reading, h.searching, h.importInto, h.shown, h.closed,
    h.service⟩

private theorem Orderly.stepBrowser (h : Orderly env w phase) {a : BrowserRunnerAction Database}
    {browser : BrowserRunner Entry Game} (hstep : w.browser.step env.browserReads a = some browser)
    (hgrows : w.browser.Grows browser n)
    (hfree : browser.worker.busy = true → w.workspace.busy = false ∧ w.importer.active = false) :
    Orderly env { w with browser } phase := by
  obtain ⟨before, hsound⟩ := h.browser
  exact h.setBrowser (hsound.step hstep) hgrows hfree

private theorem Orderly.stepSearch (h : Orderly env w phase) {a : SearchRunnerAction Database}
    {search : SearchRunner Entry Continuation} (hstep : w.search.step env.searchReads a = some search)
    (hgrows : w.search.Grows search n)
    (hfree : search.worker.busy = true → w.workspace.busy = false ∧ w.importer.active = false) :
    Orderly env { w with search } phase := by
  obtain ⟨before, hsound⟩ := h.search
  exact h.setSearch (hsound.step hstep) hgrows hfree

theorem Orderly.publishBoard (h : Orderly env w phase)
    (hfree : w.workspace.busy = false ∧ w.importer.active = false) :
    Orderly env w.publishBoard phase := by
  unfold Window.publishBoard
  cases w.currentHash with
  | none => exact h
  | some hash =>
    exact h.stepSearch (a := .searchIfHashChanged hash w.browser.activeFilter) rfl
      (SearchRunner.grows_searchIfHashChanged hash _) fun _ => hfree

theorem Orderly.act (h : Orderly env w phase) (action : BoardAction)
    (hfree : w.workspace.busy = false ∧ w.importer.active = false) :
    Orderly env (w.act env action) phase := by
  unfold Window.act
  split
  · exact h
  · exact (h.setBoard _).publishBoard hfree

theorem Orderly.handle (h : Orderly env w phase) (event : Option (BrowserEvent Game))
    (hfree : event.isSome = true → w.workspace.busy = false ∧ w.importer.active = false) :
    Orderly env (w.handle env event) phase := by
  unfold Window.handle
  split
  · exact h
  · exact h.act _ (hfree rfl)
  · exact h.act _ (hfree rfl)
  · exact h.setBoard _

theorem not_busy (hfree : ¬w.busy = true) : (w.workspace.busy = false ∧ w.importer.active = false) ∧
    w.browser.worker.busy = false ∧ w.search.worker.busy = false := by
  simp only [Window.busy, Bool.or_eq_true, not_or, Bool.not_eq_true] at hfree
  exact ⟨⟨hfree.1.1.2, hfree.1.1.1⟩, hfree.1.2, hfree.2⟩

theorem Orderly.whenFree (h : Orderly env w phase)
    {f : Window Entry Continuation → Window Entry Continuation}
    (hact : (w.workspace.busy = false ∧ w.importer.active = false) →
      w.browser.worker.busy = false ∧ w.search.worker.busy = false →
      ∃ phase', Orderly env (f w) phase') : ∃ phase', Orderly env (w.whenFree f) phase' := by
  unfold Window.whenFree
  split
  · exact ⟨phase, h⟩
  · next hfree => exact hact (not_busy hfree).1 (not_busy hfree).2

section Services

variable {s : WorkspaceService ℕ}

theorem Served.initial (readable : Bool) (file : Option (List UInt8)) :
    Served env (.initial env.format env.configured readable file {}) where
  accounted := .initial (List.Perm.refl _)
  numbered := by
    unfold WorkspaceService.initial
    split
    · split
      · rfl
      · rfl
    · rfl

theorem Served.closeActive (h : Served env s) : Served env s.closeActive :=
  ⟨h.accounted.step (a := .closeActive) rfl, h.numbered⟩

theorem Served.acquired (h : Served env s) :
    s.log.acquired ++ [s.log.acquired.length] = List.range (s.log.acquired.length + 1) := by
  rw [List.range_succ, ← h.numbered]

private theorem numbered_enter (h : Served env s) (fault : Option SaveFault) (name dirPath : String) :
    (s.enter env.format env.configured fault s.log.acquired.length name dirPath).1.log.acquired =
      List.range (s.log.acquired.length + 1) := by
  rcases WorkspaceService.enter_cases env.format env.configured (s := s) fault s.log.acquired.length
      name dirPath with ⟨message, code, hfailed⟩ | ⟨file, copy, hentered, -⟩
  · rw [hfailed]
    exact h.acquired
  · rw [hentered]
    exact h.acquired

private theorem acquired_runRequest (h : Served env s) (world : WorkspaceWorld) (request : WorkspaceRequest) :
    (env.runRequest world request s).1.log.acquired = s.log.acquired ∨
      (env.runRequest world request s).1.log.acquired = List.range (s.log.acquired.length + 1) := by
  cases request with
  | createDatabase dirPath name =>
    change (s.createDatabase env.format env.configured _ world.fault dirPath name).1.log.acquired = _ ∨
      (s.createDatabase env.format env.configured _ world.fault dirPath name).1.log.acquired = _
    unfold WorkspaceService.createDatabase
    split
    · exact .inl rfl
    · cases world.bundle with
      | error e => exact .inl rfl
      | ok found => exact .inr (numbered_enter h _ _ _)
  | openDatabase dirPath =>
    change (s.openDatabase env.format env.configured _ world.fault dirPath).1.log.acquired = _ ∨
      (s.openDatabase env.format env.configured _ world.fault dirPath).1.log.acquired = _
    unfold WorkspaceService.openDatabase
    split
    · exact .inl rfl
    · cases world.bundle with
      | error e => exact .inl rfl
      | ok found => exact .inr (numbered_enter h _ _ _)
  | activateScratch =>
    change (s.activateScratch _).1.log.acquired = _ ∨ (s.activateScratch _).1.log.acquired = _
    cases world.bundle with
    | error e => exact .inl rfl
    | ok found => exact .inr h.acquired

/-- The action of the service that a request of the workspace is. -/
def serviceAction (world : WorkspaceWorld) (number : ℕ) :
    WorkspaceRequest → WorkspaceAction ℕ
  | .createDatabase dirPath name =>
    .createDatabase dirPath name (world.bundle.map fun _ => number) world.fault
  | .openDatabase dirPath =>
    .openDatabase dirPath (world.bundle.map fun name => (number, name)) world.fault
  | .activateScratch => .activateScratch (world.bundle.map fun _ => number)

private theorem step_serviceAction (world : WorkspaceWorld) (request : WorkspaceRequest) :
    s.step env.format env.configured
      (serviceAction world s.log.acquired.length request) =
      some (env.runRequest world request s).1 := by
  cases request with
  | createDatabase dirPath name => rfl
  | openDatabase dirPath => rfl
  | activateScratch => rfl

theorem Served.runRequest (h : Served env s) (world : WorkspaceWorld) (request : WorkspaceRequest) :
    Served env (env.runRequest world request s).1 where
  accounted := h.accounted.step (step_serviceAction world request)
  numbered := by
    rcases acquired_runRequest h world request with hacquired | hacquired
    · rw [hacquired]
      exact h.numbered
    · rw [hacquired, List.length_range]

theorem Served.live (h : Served env s) {number : ℕ} (hnumber : s.db = some number) :
    number ∈ s.log.acquired ∧ number ∉ s.log.released := by
  have hbundles := h.accounted.bundles
  have hnodup : s.log.acquired.Nodup := h.numbered ▸ List.nodup_range
  have hactive : number ∈ s.db.toList := by rw [hnumber]; exact List.mem_singleton_self number
  refine ⟨hbundles.mem_iff.mpr (List.mem_append_right _ hactive), fun hreleased => ?_⟩
  exact (List.nodup_append.mp (hbundles.nodup_iff.mp hnodup)).2.2 number hreleased number hactive rfl

end Services

section Callbacks

private theorem Orderly.detached (h : Orderly env w .idle) (hshown : w.hasDatabase = false) :
    w.browser.presenter.isSome = false ∧ w.search.presenter.isSome = false := by
  have hnone : w.service.db.isSome = false := (h.shown h.workspace.not_busy).1.symm.trans hshown
  have hgone : ¬(w.browser.presenter.isSome = true ∨ w.search.presenter.isSome = true) := by
    intro hpresenter
    have hbound := h.attached (fun request hfinished => by cases hfinished) hpresenter
    exact Bool.false_ne_true (hnone.symm.trans hbound.2)
  rwa [not_or, Bool.not_eq_true, Bool.not_eq_true] at hgone

theorem Orderly.requestWorkspace (h : Orderly env w phase) (request : WorkspaceRequest) :
    ∃ phase', Orderly env (w.requestWorkspace request) phase' := by
  unfold Window.requestWorkspace
  split
  next => exact ⟨phase, h⟩
  next hshown =>
    rw [Bool.not_eq_true] at hshown
    refine h.whenFree fun hfree hquiet => ?_
    obtain rfl := h.idle hfree.1
    refine ⟨.running request, h.browser, h.search, h.asking, h.workspace.start request, h.importer,
      h.starting, fun hbusy => ?_, fun hactive => ?_, h.epochs, fun _ => h.attached ?_,
      fun _ hfinished => ?_, h.reading, h.searching, h.importInto, fun hidle => ?_,
      fun _ => ⟨hshown, h.detached hshown⟩, h.service⟩
    · rcases hbusy with hbusy | hbusy
      · cases hquiet.1.symm.trans hbusy
      · cases hquiet.2.symm.trans hbusy
    · cases hfree.2.symm.trans hactive
    · intro other hfinished
      cases hfinished
    · cases hfinished
    · cases hidle

theorem Orderly.closeWorkspace (h : Orderly env w phase) (hstep : w.closeWorkspace = some v) :
    ∃ phase', Orderly env v phase' := by
  unfold Window.closeWorkspace at hstep
  split at hstep
  next => exact ⟨phase, Option.some.inj hstep ▸ h⟩
  next hfree =>
    obtain ⟨⟨hworkspace, himporter⟩, hbrowser, hsearch⟩ := not_busy hfree
    obtain ⟨search, hdetach, rfl⟩ := Option.map_eq_some_iff.mp hstep
    obtain ⟨browserPhase, hbrowserSound⟩ := h.browser
    obtain ⟨searchPhase, hsearchSound⟩ := h.search
    have hdetached := hsearchSound.detach hdetach
    obtain ⟨worker, -, rfl⟩ := Option.map_eq_some_iff.mp hdetach
    refine ⟨phase, ⟨browserPhase, hbrowserSound.detach⟩, ⟨.idle, hdetached⟩, fun hnone => ?_,
      h.workspace, h.importer, h.starting, fun hbusy => ⟨hworkspace, himporter⟩, h.importing,
      congrArg (· + 1) h.epochs, fun _ hpresenter => ?_, fun request hfinished => ?_,
      fun ticket hrunning => ?_, fun ticket hrunning => ?_, fun hactive => ?_, fun _ => ⟨rfl, rfl⟩,
      fun _ => ⟨rfl, rfl, rfl⟩, h.service.closeActive⟩
    · cases hnone
    · rcases hpresenter with hpresenter | hpresenter
      · cases hpresenter
      · cases hpresenter
    · cases (h.idle hworkspace).symm.trans hfinished
    · cases (running_eq_none hbrowserSound.worker hbrowser).symm.trans hrunning
    · cases (running_eq_none hdetached.worker hdetached.worker.not_busy).symm.trans hrunning
    · cases himporter.symm.trans hactive

theorem Orderly.dismissError (h : Orderly env w phase) : Orderly env w.dismissError phase := by
  have hbrowser := h.stepBrowser (a := .dismissError) rfl BrowserRunner.grows_map
    fun hbusy => h.exclusive (.inl hbusy)
  have hsearch := hbrowser.stepSearch (a := .dismissError) rfl SearchRunner.grows_map
    fun hbusy => h.exclusive (.inr hbusy)
  exact hsearch.setBoard _

theorem Served.setNotationBelow {s : WorkspaceService ℕ} (h : Served env s)
    (fault : Option SaveFault) (below : Bool) :
    Served env (s.setNotationBelow env.format env.configured fault below).1 where
  accounted := h.accounted.step (a := .setNotationBelow below fault) rfl
  numbered := by
    rw [(WorkspaceService.setNotationBelow_cases env.format env.configured fault below).1.2]
    exact h.numbered

theorem Orderly.toggleNotation (h : Orderly env w phase) (fault : Option SaveFault) :
    Orderly env (w.toggleNotation env fault) phase := by
  unfold Window.toggleNotation
  split
  next hshown =>
    have hidle : w.workspace.busy = false := by
      rw [← Bool.not_eq_true]
      intro hbusy
      exact Bool.false_ne_true ((h.closed hbusy).1.symm.trans hshown)
    have hserved := h.service.setNotationBelow fault !w.notationBelow
    obtain ⟨⟨hdb, -⟩, hbelow⟩ :=
      w.service.setNotationBelow_cases env.format env.configured fault !w.notationBelow
    obtain ⟨hdatabase, hnotation⟩ := h.shown hidle
    dsimp only
    split
    next service code hset =>
      rw [hset] at hserved hdb hbelow
      exact h.setService hserved hdb w.notationBelow fun _ => hnotation.trans hbelow.symm
    next service hset =>
      rw [hset] at hserved hdb hbelow
      exact h.setService hserved hdb _ fun _ => hbelow.symm
  next => exact h

theorem Orderly.changeFilters (h : Orderly env w phase) (player result : String) :
    ∃ phase', Orderly env (w.changeFilters player result) phase' := by
  refine h.whenFree fun hfree _ => ⟨phase, ?_⟩
  have hbrowser := h.stepBrowser (a := .prepareQuery (.setFilters player result)) rfl
    (BrowserRunner.grows_prepareQuery _) fun _ => hfree
  exact hbrowser.stepSearch (a := .refreshIfAuto _ _) rfl (SearchRunner.grows_refreshIfAuto _ _)
    fun _ => hfree

theorem Orderly.mapBrowser (h : Orderly env w phase) {a : BrowserRunnerAction Database}
    {call : BrowserRunner Entry Game → BrowserRunner Entry Game}
    (hstep : ∀ s, BrowserRunner.step env.browserReads s a = some (call s))
    (hgrows : ∀ s, BrowserRunner.Grows s (call s) n) :
    ∃ phase', Orderly env (w.mapBrowser call) phase' :=
  h.whenFree fun hfree _ => ⟨phase, h.stepBrowser (hstep _) (hgrows _) fun _ => hfree⟩

theorem Orderly.callBoard (h : Orderly env w phase) (call : BoardCall) :
    ∃ phase', Orderly env (w.callBoard env call) phase' :=
  h.whenFree fun hfree _ => ⟨phase, h.act call.action hfree⟩

theorem Orderly.requestSearch (h : Orderly env w phase) :
    ∃ phase', Orderly env w.requestSearch phase' := by
  refine h.whenFree fun hfree _ => ⟨phase, ?_⟩
  cases w.currentHash with
  | none => exact h
  | some hash =>
    exact h.stepSearch (a := .search hash w.browser.activeFilter) rfl
      (SearchRunner.grows_search hash _) fun _ => hfree

theorem Orderly.toggleAutoSearch (h : Orderly env w phase) (enabled : Bool) :
    ∃ phase', Orderly env (w.toggleAutoSearch enabled) phase' := by
  refine h.whenFree fun hfree _ => ⟨phase, ?_⟩
  have hset := h.stepSearch (a := .setAutoSearch enabled) rfl SearchRunner.grows_map fun _ => hfree
  dsimp only
  split
  · exact hset.publishBoard hfree
  · exact hset

theorem Orderly.requestSearchPage (h : Orderly env w phase) (page : ℕ) :
    ∃ phase', Orderly env (w.requestSearchPage page) phase' :=
  h.whenFree fun hfree _ => ⟨phase, h.stepSearch (a := .setPage page) rfl
    (SearchRunner.grows_setPage page) fun _ => hfree⟩

theorem Orderly.activateMatch (h : Orderly env w phase) (row : ℕ) :
    ∃ phase', Orderly env (w.activateMatch env row) phase' := by
  refine h.whenFree fun hfree _ => ⟨phase, ?_⟩
  cases w.search.matchAt row with
  | none => exact h
  | some found =>
    exact h.stepBrowser (a := .activateById _ _) rfl (BrowserRunner.grows_activateById _ _)
      fun _ => hfree

end Callbacks

section Import

private theorem Orderly.setImporter (h : Orderly env w phase) {importer : ImportService}
    (hcoherent : importer.Coherent) (hstarting : importer.starting = .free)
    (hactive : importer.active = true → w.importer.active = true) :
    Orderly env { w with importer } phase where
  browser := h.browser
  search := h.search
  asking := h.asking
  workspace := h.workspace
  importer := hcoherent
  starting := hstarting
  exclusive hbusy := by
    obtain ⟨hworkspace, hinactive⟩ := h.exclusive hbusy
    refine ⟨hworkspace, ?_⟩
    rw [← Bool.not_eq_true]
    intro htrue
    exact Bool.false_ne_true (hinactive.symm.trans (hactive htrue))
  importing htrue := h.importing (hactive htrue)
  epochs := h.epochs
  attached := h.attached
  completed := h.completed
  reading := h.reading
  searching := h.searching
  importInto htrue := h.importInto (hactive htrue)
  shown := h.shown
  closed := h.closed
  service := h.service

theorem Orderly.requestImport (h : Orderly env w phase) {pathEmpty : Bool}
    (hstep : w.requestImport pathEmpty = some v) : Orderly env v phase := by
  unfold Window.requestImport at hstep
  split at hstep
  next => exact Option.some.inj hstep ▸ h
  next hfree =>
    simp only [Bool.or_eq_true, not_or, Bool.not_eq_true] at hfree
    obtain ⟨⟨started, result⟩, hstart, rfl⟩ := Option.map_eq_some_iff.mp hstep
    obtain ⟨t, other, hanswer, hcases⟩ := h.importer.start h.starting w.service.db.isSome pathEmpty
    obtain ⟨rfl, rfl⟩ := Prod.mk.inj (Option.some.inj (hanswer.symm.trans hstart))
    rcases hcases with ⟨rfl, -, hstarting, -, hdatabase, -⟩ | ⟨code, rfl, rfl⟩
    · refine ⟨h.browser, h.search, h.asking, h.workspace, h.importer.of_start hstart, hstarting,
        fun hbusy => ?_, fun _ => hfree.1.1, h.epochs, h.attached, h.completed, h.reading, h.searching,
        fun _ => ⟨rfl, hdatabase⟩, h.shown, h.closed, h.service⟩
      rcases hbusy with hbusy | hbusy
      · cases hfree.1.2.symm.trans hbusy
      · cases hfree.2.symm.trans hbusy
    · exact h

theorem Orderly.cancelImport (h : Orderly env w phase) : Orderly env w.cancelImport phase := by
  apply h.setImporter h.importer.requestCancel
  · exact ImportService.starting_requestCancel.trans h.starting
  · rw [ImportService.active_requestCancel]
    exact id

theorem Orderly.stepImporter (h : Orderly env w phase) {a : ImportServiceAction}
    (hstep : w.stepImporter a = some v)
    (hkeeps : ∀ t, w.importer.step a = some t → w.importer.Follows t) :
    Orderly env v phase := by
  obtain ⟨t, ht, rfl⟩ := Option.map_eq_some_iff.mp hstep
  obtain ⟨hstarting, hactive⟩ := hkeeps t ht
  exact h.setImporter (h.importer.step ht) (hstarting.trans h.starting) hactive

private theorem tick_detached (hinactive : w.importer.active = false)
    (hbrowser : w.browser.presenter.isSome = false) (hsearch : w.search.presenter.isSome = false)
    (hstep : w.tick = some v) : v = { w with importTimer := false } := by
  rw [Option.isSome_eq_false_iff, Option.isNone_iff_eq_none] at hbrowser hsearch
  unfold Window.tick at hstep
  split at hstep
  next =>
    rw [if_neg (by rw [hinactive]; exact Bool.false_ne_true)] at hstep
    obtain rfl := Option.some.inj hstep
    have hquery : w.browser.prepareQuery .initialLoad = w.browser := by
      rw [BrowserRunner.prepareQuery, hbrowser]
    have hkept : w.search.invalidatePositionCache = w.search := by
      rw [SearchRunner.invalidatePositionCache, hsearch, Option.map_none, ← hsearch]
    rw [hquery, hkept, SearchRunner.refreshIfAuto, hsearch]
  next => cases hstep

theorem Orderly.tick (h : Orderly env w phase) (hstep : w.tick = some v) : Orderly env v phase := by
  have hticked := hstep
  unfold Window.tick at hstep
  split at hstep
  next =>
    split at hstep
    next => exact Option.some.inj hstep ▸ h
    next hnot =>
      have hinactive := Bool.eq_false_of_not_eq_true hnot
      cases hworkspace : w.workspace.busy with
      | true =>
        obtain ⟨-, hbrowser, hsearch⟩ := h.closed hworkspace
        rw [tick_detached hinactive hbrowser hsearch hticked]
        exact h.setTimer false
      | false =>
        have hfree : w.workspace.busy = false ∧ w.importer.active = false := ⟨hworkspace, hinactive⟩
        obtain rfl := Option.some.inj hstep
        have hbrowser := (h.setTimer false).stepBrowser (a := .prepareQuery .initialLoad) rfl
          (BrowserRunner.grows_prepareQuery _) fun _ => hfree
        obtain ⟨before, hsearch⟩ := h.search
        obtain ⟨between, hinvalidated⟩ := hsearch.step (a := .invalidatePositionCache) rfl
        exact hbrowser.setSearch (hinvalidated.step (a := .refreshIfAuto _ _) rfl)
          (SearchRunner.grows_map.trans (SearchRunner.grows_refreshIfAuto _ _)) fun _ => hfree
  next => cases hstep

end Import

section Workspace

/-- An operation of the workspace that succeeds has made a database active and let go of the one before,
and one that fails has left the active one. -/
def Replaces (before : WorkspaceService ℕ)
    (ran : WorkspaceService ℕ × Except SearchErrorCode Unit) : Prop :=
  if ran.2.isOk then
    ran.1.db.isSome = true ∧ ran.1.log.released = before.log.released ++ before.db.toList
  else ran.1.db = before.db

private theorem replaces_enter (s : WorkspaceService ℕ) (fault : Option SaveFault) (number : ℕ)
    (name dirPath : String) :
    Replaces s (s.enter env.format env.configured fault number name dirPath) := by
  rcases WorkspaceService.enter_cases env.format env.configured (s := s) fault number name dirPath with
    ⟨message, code, hfailed⟩ | ⟨file, copy, hentered, -⟩
  · rw [hfailed]
    rfl
  · rw [hentered]
    exact ⟨rfl, rfl⟩

variable (env) in
private theorem replaces_runRequest (world : WorkspaceWorld) (request : WorkspaceRequest)
    (s : WorkspaceService ℕ) : if (env.runRequest world request s).2 then
      (env.runRequest world request s).1.db.isSome = true ∧
        (env.runRequest world request s).1.log.released = s.log.released ++ s.db.toList
      else (env.runRequest world request s).1.db = s.db := by
  cases request with
  | createDatabase dirPath name =>
    change Replaces s (s.createDatabase env.format env.configured _ world.fault dirPath name)
    unfold WorkspaceService.createDatabase
    split
    · rfl
    · cases world.bundle with
      | error e => rfl
      | ok found => exact replaces_enter s _ _ _ _
  | openDatabase dirPath =>
    change Replaces s (s.openDatabase env.format env.configured _ world.fault dirPath)
    unfold WorkspaceService.openDatabase
    split
    · rfl
    · cases world.bundle with
      | error e => rfl
      | ok found => exact replaces_enter s _ _ _ _
  | activateScratch =>
    change Replaces s (s.activateScratch _)
    cases world.bundle with
    | error e => rfl
    | ok found => exact ⟨rfl, rfl⟩

theorem Orderly.quiet (h : Orderly env w phase) (hbusy : w.workspace.busy = true) :
    w.browser.worker.busy = false ∧ w.search.worker.busy = false ∧ w.importer.active = false := by
  have hnot : ¬w.workspace.busy = false := fun hfree => Bool.false_ne_true (hfree.symm.trans hbusy)
  refine ⟨?_, ?_, ?_⟩
  · rw [← Bool.not_eq_true]
    exact fun htrue => hnot (h.exclusive (.inl htrue)).1
  · rw [← Bool.not_eq_true]
    exact fun htrue => hnot (h.exclusive (.inr htrue)).1
  · rw [← Bool.not_eq_true]
    exact fun htrue => hnot (h.importing htrue)

theorem Orderly.finishWorkspace (h : Orderly env w phase) {world : WorkspaceWorld}
    (hstep : w.finishWorkspace env world = some v) : ∃ phase', Orderly env v phase' := by
  obtain ⟨ticket, hrunning, hstep⟩ := Option.bind_eq_some_iff.mp hstep
  obtain ⟨workspace, hworkspace, rfl⟩ := Option.map_eq_some_iff.mp hstep
  obtain ⟨request, rfl, hfinished⟩ := h.workspace.finish hworkspace
  have hbusy := busy_of_running h.workspace hrunning
  have hreplaces := replaces_runRequest env world ticket.job w.service
  obtain ⟨browserPhase, hbrowser⟩ := h.browser
  obtain ⟨searchPhase, hsearch⟩ := h.search
  obtain ⟨hbrowserFree, hsearchFree, hfalse⟩ := h.quiet hbusy
  have hinactive : ¬w.importer.active = true := by rw [hfalse]; exact Bool.false_ne_true
  refine ⟨_, ⟨browserPhase, hbrowser⟩, ⟨searchPhase, hsearch⟩, h.asking, hfinished, h.importer,
    h.starting, fun hother => ?_, fun hactive => absurd hactive hinactive, h.epochs,
    fun hphase hpresenter => ?_, fun other hother => ?_, fun other hother => ?_, fun other hother => ?_,
    fun hactive => absurd hactive hinactive, fun hfree => ?_, fun _ => h.closed hbusy,
    h.service.runRequest world ticket.job⟩
  · rcases hother with hother | hother
    · cases hbrowserFree.symm.trans hother
    · cases hsearchFree.symm.trans hother
  · have hfailed : (env.runRequest world ticket.job w.service).2 = false := by
      rw [← Bool.not_eq_true]
      intro hok
      exact hphase request (by rw [hok])
    rw [hfailed] at hreplaces
    have hbound := h.attached (fun other hother => by cases hother) hpresenter
    unfold Bound at hbound ⊢
    dsimp only
    rw [show (env.runRequest world ticket.job w.service).1.db = w.service.db from hreplaces]
    exact hbound
  · obtain ⟨-, hok⟩ := Worker.Phase.finished.inj hother
    rw [hok] at hreplaces
    exact hreplaces.1
  · cases (running_eq_none hbrowser.worker hbrowserFree).symm.trans hother
  · cases (running_eq_none hsearch.worker hsearchFree).symm.trans hother
  · cases (hfinished.busy_iff.mpr rfl).symm.trans hfree

theorem Orderly.attach {request : WorkspaceRequest} (h : Orderly env w (.finished request true))
    {number : ℕ} (hnumber : w.service.db = some number) {workspace : Worker WorkspaceRequest Bool}
    (hidle : workspace.InPhase .idle) :
    Orderly env (Window.attach env number (publishWorkspace { w with workspace })) .idle := by
  obtain ⟨hbrowser, hsearch, hinactive⟩ := h.quiet (h.workspace.busy_iff.mpr rfl)
  obtain ⟨browserPhase, hbrowserSound⟩ := h.browser
  obtain ⟨searchPhase, hsearchSound⟩ := h.search
  have hattached : Orderly env { publishWorkspace { w with workspace } with
      browser := w.browser.attach
      search := w.search.attach (env.library.hash env.library.start)
      board := some (.initial env.library)
      readFrom := fun epoch => if epoch = w.browser.epoch + 1 then some number else w.readFrom epoch }
      .idle := by
    refine ⟨⟨browserPhase, hbrowserSound.attach⟩, ⟨searchPhase, hsearchSound.attach _⟩, fun hnone => ?_,
      hidle, h.importer, h.starting, fun _ => ⟨hidle.not_busy, hinactive⟩, fun _ => hidle.not_busy,
      congrArg (· + 1) h.epochs, fun _ _ => ⟨?_, ?_⟩, fun _ hfinished => ?_, fun ticket hrunning => ?_,
      fun ticket hrunning => ?_, h.importInto, fun _ => ⟨rfl, rfl⟩, fun hbusy => ?_, h.service⟩
    · cases hnone
    · exact (if_pos rfl).trans hnumber.symm
    · exact h.completed request rfl
    · cases hfinished
    · cases (running_eq_none hbrowserSound.worker hbrowser).symm.trans hrunning
    · cases (running_eq_none hsearchSound.worker hsearch).symm.trans hrunning
    · cases hidle.not_busy.symm.trans hbusy
  have hloaded := hattached.stepBrowser (a := .prepareQuery .initialLoad) rfl
    (BrowserRunner.grows_prepareQuery _) fun _ => ⟨hidle.not_busy, hinactive⟩
  exact hloaded.publishBoard ⟨hidle.not_busy, hinactive⟩

private theorem publishBoard_workspace (workspace : Worker WorkspaceRequest Bool) :
    { w.publishBoard with workspace } = ({ w with workspace } : Window Entry Continuation).publishBoard := by
  unfold Window.publishBoard
  have hsame : ({ w with workspace } : Window Entry Continuation).currentHash = w.currentHash := rfl
  rw [hsame]
  cases w.currentHash with
  | none => rfl
  | some hash => rfl

private theorem attach_workspace (number : ℕ) : (w.attach env number).workspace = w.workspace := by
  unfold Window.attach Window.publishBoard
  cases Window.currentHash _ with
  | none => rfl
  | some hash => rfl

theorem Orderly.release {request : WorkspaceRequest} (h : Orderly env w (.finished request false))
    {workspace : Worker WorkspaceRequest Bool} (hidle : workspace.InPhase .idle) :
    Orderly env (publishWorkspace { w with workspace }) .idle where
  browser := h.browser
  search := h.search
  asking := h.asking
  workspace := hidle
  importer := h.importer
  starting := h.starting
  exclusive hbusy := ⟨hidle.not_busy, (h.exclusive hbusy).2⟩
  importing _ := hidle.not_busy
  epochs := h.epochs
  attached _ := h.attached fun other hother => by cases hother
  completed _ hfinished := by cases hfinished
  reading := h.reading
  searching := h.searching
  importInto := h.importInto
  shown _ := ⟨rfl, rfl⟩
  closed hbusy := by cases hidle.not_busy.symm.trans hbusy
  service := h.service

theorem Orderly.deliverWorkspace (h : Orderly env w phase)
    (hstep : w.deliverWorkspace env = some v) : ∃ phase', Orderly env v phase' := by
  obtain ⟨⟨completion, workspace⟩, htake, rfl⟩ := Option.map_eq_some_iff.mp hstep
  obtain ⟨hbusy, -, hstale | ⟨hlive, hphase, hidle⟩⟩ := h.workspace.take htake
  · dsimp only
    rw [if_neg hstale.1]
    exact ⟨phase, h.browser, h.search, h.asking, hstale.2, h.importer, h.starting,
      fun hother => ⟨hbusy.trans (h.exclusive hother).1, (h.exclusive hother).2⟩,
      fun hactive => hbusy.trans (h.importing hactive), h.epochs, h.attached, h.completed, h.reading,
      h.searching, h.importInto, fun hfree => h.shown (hbusy.symm.trans hfree),
      fun hother => h.closed (hbusy.symm.trans hother), h.service⟩
  · subst hphase
    dsimp only
    rw [if_pos hlive]
    cases houtcome : completion.outcome with
    | false =>
      rw [houtcome] at h
      exact ⟨.idle, h.release hidle⟩
    | true =>
      rw [houtcome] at h
      obtain ⟨number, hnumber⟩ := Option.isSome_iff_exists.mp (h.completed _ rfl)
      rw [if_pos rfl, hnumber, Option.elim_some, attach_workspace]
      refine ⟨.idle, ?_⟩
      have hattached := h.attach hnumber hidle
      rw [Window.attach, publishBoard_workspace]
      exact hattached

end Workspace

section Steps

theorem Orderly.finishBrowser (h : Orderly env w phase) {database : Database}
    {browser : BrowserRunner Entry Game}
    (hstep : w.browser.finish env.browserReads database = some browser) :
    Orderly env { w with browser } phase := by
  refine h.stepBrowser (a := .finish database) hstep (BrowserRunner.grows_finish hstep).1 fun hbusy => ?_
  obtain ⟨worker, hworker, rfl⟩ := Option.map_eq_some_iff.mp hstep
  obtain ⟨ticket, -, rfl⟩ := Option.map_eq_some_iff.mp hworker
  exact h.exclusive (.inl hbusy)

theorem Orderly.finishSearch (h : Orderly env w phase) {once again : Snapshots Database}
    {retry : Bool} {search : SearchRunner Entry Continuation}
    (hstep : w.search.finish env.searchReads once again retry = some search) :
    Orderly env { w with search } phase := by
  refine h.stepSearch (a := .finish once again retry) hstep (SearchRunner.grows_finish hstep).1
    fun hbusy => ?_
  obtain ⟨worker, hworker, rfl⟩ := Option.map_eq_some_iff.mp hstep
  obtain ⟨ticket, -, rfl⟩ := Option.map_eq_some_iff.mp hworker
  exact h.exclusive (.inr hbusy)

theorem Orderly.deliverSearch (h : Orderly env w phase) {search : SearchRunner Entry Continuation}
    (hstep : w.search.deliver = some search) : Orderly env { w with search } phase := by
  obtain ⟨before, hsound⟩ := h.search
  refine h.setSearch (hsound.deliver hstep) (SearchRunner.grows_deliver h.asking hstep).1 fun hbusy => ?_
  apply h.exclusive
  right
  rw [← Bool.not_eq_false]
  intro hfree
  exact Bool.false_ne_true ((SearchRunner.deliver_idle hsound hfree hstep).symm.trans hbusy)

theorem Orderly.deliverBrowser (h : Orderly env w phase) (hstep : w.deliverBrowser env = some v) :
    Orderly env v phase := by
  obtain ⟨⟨browser, event⟩, hdeliver, rfl⟩ := Option.map_eq_some_iff.mp hstep
  obtain ⟨before, hsound⟩ := h.browser
  have hgrows := (BrowserRunner.grows_deliver hsound.attached hdeliver).1
  cases hbusy : w.browser.worker.busy with
  | true =>
    have hfree := h.exclusive (.inl hbusy)
    exact (h.setBrowser (hsound.deliver hdeliver) hgrows fun _ => hfree).handle event fun _ => hfree
  | false =>
    obtain ⟨rfl, hidle⟩ := BrowserRunner.deliver_idle hsound hbusy hdeliver
    refine h.setBrowser (hsound.deliver hdeliver) hgrows fun htrue => ?_
    cases hidle.symm.trans htrue

theorem Orderly.step (h : Orderly env w phase) {a : WindowAction Database}
    (hstep : w.step env a = some v) : ∃ phase', Orderly env v phase' := by
  cases a with
  | requestWorkspace request => exact Option.some.inj hstep ▸ h.requestWorkspace request
  | closeWorkspace => exact h.closeWorkspace hstep
  | dismissError => exact ⟨phase, Option.some.inj hstep ▸ h.dismissError⟩
  | toggleNotation fault => exact ⟨phase, Option.some.inj hstep ▸ h.toggleNotation fault⟩
  | changeFilters player result => exact Option.some.inj hstep ▸ h.changeFilters player result
  | requestPage page =>
    exact Option.some.inj hstep ▸ h.mapBrowser (a := .prepareQuery (.setPage page)) (fun _ => rfl)
      fun _ => BrowserRunner.grows_prepareQuery _
  | sortGames column ascending =>
    exact Option.some.inj hstep ▸ h.mapBrowser (a := .prepareQuery (.sortGames column ascending))
      (fun _ => rfl) fun _ => BrowserRunner.grows_prepareQuery _
  | selectGame row =>
    exact Option.some.inj hstep ▸ h.mapBrowser (a := .select row) (fun _ => rfl)
      fun _ => BrowserRunner.grows_map
  | moveSelection delta =>
    exact Option.some.inj hstep ▸ h.mapBrowser (a := .moveSelection delta) (fun _ => rfl)
      fun _ => BrowserRunner.grows_map
  | activateGame =>
    exact Option.some.inj hstep ▸ h.mapBrowser (a := .activate) (fun _ => rfl)
      fun _ => BrowserRunner.grows_activate
  | resizeColumn column width =>
    exact Option.some.inj hstep ▸ h.mapBrowser (a := .resizeColumn column width) (fun _ => rfl)
      fun _ => BrowserRunner.grows_map
  | callBoard call => exact Option.some.inj hstep ▸ h.callBoard call
  | requestSearch => exact Option.some.inj hstep ▸ h.requestSearch
  | toggleAutoSearch enabled => exact Option.some.inj hstep ▸ h.toggleAutoSearch enabled
  | requestSearchPage page => exact Option.some.inj hstep ▸ h.requestSearchPage page
  | activateMatch row => exact Option.some.inj hstep ▸ h.activateMatch row
  | requestImport pathEmpty => exact ⟨phase, h.requestImport hstep⟩
  | cancelImport => exact ⟨phase, Option.some.inj hstep ▸ h.cancelImport⟩
  | tick => exact ⟨phase, h.tick hstep⟩
  | finishWorkspace world => exact h.finishWorkspace hstep
  | deliverWorkspace => exact h.deliverWorkspace hstep
  | finishBrowser database =>
    obtain ⟨browser, hfinish, rfl⟩ := Option.map_eq_some_iff.mp hstep
    exact ⟨phase, h.finishBrowser hfinish⟩
  | deliverBrowser => exact ⟨phase, h.deliverBrowser hstep⟩
  | finishSearch once again =>
    obtain ⟨search, hfinish, rfl⟩ := Option.map_eq_some_iff.mp hstep
    exact ⟨phase, h.finishSearch hfinish⟩
  | deliverSearch =>
    obtain ⟨search, hdeliver, rfl⟩ := Option.map_eq_some_iff.mp hstep
    exact ⟨phase, h.deliverSearch hdeliver⟩
  | fetchPipeline => exact ⟨phase, h.stepImporter hstep fun _ ht => (ImportService.follows_fetchPipeline ht).1⟩
  | advance progress => exact ⟨phase, h.stepImporter hstep fun _ => ImportService.follows_advance⟩
  | returnResult result =>
    exact ⟨phase, h.stepImporter hstep fun _ ht => (ImportService.follows_returnResult ht).1⟩
  | endThread => exact ⟨phase, h.stepImporter hstep fun _ ht => (ImportService.follows_endThread ht).1⟩

end Steps

section Reached

variable (env) in
/-- The window of a program that starts, with the contents of its configuration file. -/
def initial (readable : Bool) (file : Option (List UInt8)) : Window Entry Continuation :=
  publishWorkspace { service := .initial env.format env.configured readable file {} }

private theorem orderly_initial (readable : Bool) (file : Option (List UInt8)) :
    Orderly env (initial env readable file) .idle where
  browser := ⟨.idle, BrowserRunner.sound_new _⟩
  search := ⟨.idle, SearchRunner.sound_new _⟩
  asking hpending := by cases hpending
  workspace := Worker.inPhase_new
  importer := ImportService.coherent_new
  starting := rfl
  exclusive _ := ⟨rfl, rfl⟩
  importing _ := rfl
  epochs := rfl
  attached _ hpresenter := by
    rcases hpresenter with hpresenter | hpresenter
    · cases hpresenter
    · cases hpresenter
  completed _ hphase := by cases hphase
  reading _ hrunning := by cases hrunning
  searching _ hrunning := by cases hrunning
  importInto hactive := by cases hactive
  shown _ := ⟨rfl, rfl⟩
  closed hbusy := by cases hbusy
  service := .initial readable file

theorem orderly_of_reaches {readable : Bool} {file : Option (List UInt8)}
    (h : Reaches (Window.step env) (fun _ _ => True) (initial env readable file) w) :
    ∃ phase, Orderly env w phase := by
  apply h.invariant
  · exact ⟨.idle, orderly_initial readable file⟩
  · rintro s a t ⟨phase, horderly⟩ _ hstep
    exact horderly.step hstep

/-- A bundle that is active and has not been let go. -/
def Live (w : Window Entry Continuation) (source : Option ℕ) : Prop :=
  ∃ number, source = some number ∧ w.service.db = some number ∧ number ∉ w.service.log.released

/-- A window of which one part at a time is at work, on the active database, and none holds up the
event loop. It is told of the service whenever no database is being opened. -/
structure Exclusive (w : Window Entry Continuation) : Prop where
  shown : w.workspace.busy = false → w.Shown
  replacing : w.workspace.busy = true → w.browser.worker.busy = false ∧
    w.search.worker.busy = false ∧ w.importer.active = false
  importing : w.importer.active = true → w.browser.worker.busy = false ∧
    w.search.worker.busy = false ∧ w.workspace.busy = false ∧ w.Live w.importInto
  reading : ∀ ticket, w.browser.worker.running = some ticket → w.Live (w.readFrom ticket.job.epoch)
  searching : ∀ ticket, w.search.worker.running = some ticket → w.Live (w.readFrom ticket.job.epoch)
  closes : w.closeWorkspace.isSome = true
  imports : ∀ pathEmpty, (w.requestImport pathEmpty).isSome = true

theorem Orderly.live (h : Orderly env w phase) {source : Option ℕ}
    (hsource : source = w.service.db ∧ w.service.db.isSome = true) : w.Live source := by
  obtain ⟨number, hnumber⟩ := Option.isSome_iff_exists.mp hsource.2
  exact ⟨number, hsource.1.trans hnumber, hnumber, (h.service.live hnumber).2⟩

private theorem Orderly.isSome_closeWorkspace (h : Orderly env w phase) : w.closeWorkspace.isSome = true := by
  unfold Window.closeWorkspace
  split
  next => rfl
  next hfree =>
    obtain ⟨searchPhase, hsearch⟩ := h.search
    have hnone := running_eq_none hsearch.worker (not_busy hfree).2.2
    simp [SearchRunner.detach, Worker.renew, hnone]

private theorem Orderly.isSome_requestImport (h : Orderly env w phase) (pathEmpty : Bool) :
    (w.requestImport pathEmpty).isSome = true := by
  unfold Window.requestImport
  split
  · rfl
  · obtain ⟨t, result, hstart, -⟩ := h.importer.start h.starting w.service.db.isSome pathEmpty
    rw [hstart]
    rfl

variable (env) in
/-- In every run of the window, no database is opened or imported into while one is read, what is read is
the active database and not one that was let go, and closing it or starting an import waits for
nothing. -/
theorem exclusiveWindow_of_reaches {readable : Bool} {file : Option (List UInt8)}
    (h : Reaches (Window.step env) (fun _ _ => True) (initial env readable file) w) :
    Exclusive w := by
  obtain ⟨phase, horderly⟩ := orderly_of_reaches h
  refine ⟨horderly.shown, horderly.quiet, fun hactive => ?_, fun ticket hrunning => ?_, fun ticket hrunning => ?_,
    horderly.isSome_closeWorkspace, horderly.isSome_requestImport⟩
  · have hfree : ¬(w.browser.worker.busy = true ∨ w.search.worker.busy = true) := by
      intro hbusy
      exact Bool.false_ne_true ((horderly.exclusive hbusy).2.symm.trans hactive)
    rw [not_or, Bool.not_eq_true, Bool.not_eq_true] at hfree
    exact ⟨hfree.1, hfree.2, horderly.importing hactive, horderly.live (horderly.importInto hactive)⟩
  · exact horderly.live (horderly.reading ticket hrunning)
  · exact horderly.live (horderly.searching ticket hrunning)

variable (env) in
theorem finishes_workspace {request : Ticket WorkspaceRequest} (world : WorkspaceWorld)
    (hrequest : w.workspace.running = some request) : ∃ workspace, w.finishWorkspace env world =
      some { w with workspace, service := (env.runRequest world request.job w.service).1 } := by
  simp only [Window.finishWorkspace, Worker.finish, hrequest, Option.bind_some, Option.map_some]
  exact ⟨_, rfl⟩

end Reached

section Sample

/-- A configuration that is not kept, and databases without games. -/
def emptyHome : Environment Unit ℕ Unit where
  library := {
    Board := Unit
    start := ()
    applyEncodedMove board _ := board
    hash _ := 1
    san _ _ := ""
    applySan _ _ := none
    writeFen _ := ""
    parseFen _ := none
    legalMoves _ := [] }
  browserReads := {
    entryId _ := 0
    findGames _ _ := .ok ([], 0)
    get _ _ := .error ⟨.notFound, ""⟩
    count_le _ _ _ _ h := by
      obtain ⟨-, rfl⟩ := Prod.mk.inj (Except.ok.inj h)
      decide }
  searchReads := {
    gameId _ := 0
    findGames _ _ := .ok ([], 0)
    firstMatches _ _ _ := .ok []
    openingStats _ _ _ := .error ⟨.databaseFailure, ""⟩ }
  format := {
    writeJson _ := none
    readJson _ := .error ""
    readJson_writeJson _ _ h := by cases h }
  configured := false

/-- A scratch database is opened and imported into, up to the end of the import. -/
def importedActions : List (WindowAction Unit) :=
  [.requestWorkspace .activateScratch, .finishWorkspace ⟨.ok "", none⟩, .deliverWorkspace,
    .finishBrowser (), .deliverBrowser, .finishSearch ⟨(), (), ()⟩ ⟨(), (), ()⟩, .deliverSearch,
    .requestImport false, .fetchPipeline, .returnResult (.ok ⟨3, 2, 1, 0, 1⟩), .endThread]

def runHome (actions : List (WindowAction Unit)) : Option (Window ℕ Unit) :=
  run (Window.step emptyHome) (fun _ _ => True) (initial emptyHome true none) actions

/-- The database is closed behind the import, and another one is asked for. -/
theorem exclusiveWindow_of_reaches_sample : ∃ w,
    runHome (importedActions ++ [.tick, .finishBrowser (), .deliverBrowser,
      .finishSearch ⟨(), (), ()⟩ ⟨(), (), ()⟩, .deliverSearch, .closeWorkspace,
      .requestWorkspace .activateScratch]) = some w ∧
    Exclusive w ∧ w.workspace.busy = true ∧ w.service.log.released = [0] := by
  have hrun : (runHome (importedActions ++ [.tick, .finishBrowser (), .deliverBrowser,
      .finishSearch ⟨(), (), ()⟩ ⟨(), (), ()⟩, .deliverSearch, .closeWorkspace,
      .requestWorkspace .activateScratch])).map
        (fun w => (w.workspace.busy, w.service.log.released)) = some (true, [0]) := by
    decide +kernel
  obtain ⟨w, hw, hvalues⟩ := Option.map_eq_some_iff.mp hrun
  obtain ⟨hbusy, hreleased⟩ := Prod.mk.inj hvalues
  exact ⟨w, hw, exclusiveWindow_of_reaches emptyHome (reaches_of_run hw), hbusy, hreleased⟩

end Sample

end Window

end Invariant

end MotifChess.SlintApp
