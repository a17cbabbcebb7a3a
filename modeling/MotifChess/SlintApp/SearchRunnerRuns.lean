/- GID: MotifChess/SlintApp/SearchRunnerRuns
   generality: implementation
   digest: A search runner that is not busy shows an answer to the last search, and is not searching. -/

import MotifChess.SlintApp.SearchRunner

set_option autoImplicit false
set_option relaxedAutoImplicit false

namespace MotifChess.SlintApp

open MotifChess.Db MotifChess.System

variable {Entry Continuation Database : Type}

section Answers

/-- Filters that select the same games in the same order and the same page of them. -/
structure SearchFilter.Alike (filter other : SearchFilter) : Prop where
  position : other.position = filter.position
  page : other.offset = filter.offset ∧ other.limit = filter.limit
  order : other.sortColumn = filter.sortColumn ∧ other.sortAscending = filter.sortAscending
  metadata : other = filter ∨ filter.hasMetadataFilter = false ∧ other.hasMetadataFilter = false

theorem SearchFilter.Alike.refl (filter : SearchFilter) : SearchFilter.Alike filter filter :=
  ⟨rfl, ⟨rfl, rfl⟩, ⟨rfl, rfl⟩, .inl rfl⟩

theorem SearchFilter.Alike.trans {a b c : SearchFilter} (hab : SearchFilter.Alike a b)
    (hbc : SearchFilter.Alike b c) : SearchFilter.Alike a c where
  position := hbc.position.trans hab.position
  page := ⟨hbc.page.1.trans hab.page.1, hbc.page.2.trans hab.page.2⟩
  order := ⟨hbc.order.1.trans hab.order.1, hbc.order.2.trans hab.order.2⟩
  metadata := by
    rcases hab.metadata with rfl | ⟨ha, hb⟩
    · exact hbc.metadata
    · rcases hbc.metadata with rfl | ⟨-, hc⟩
      · exact .inr ⟨ha, hb⟩
      · exact .inr ⟨ha, hc⟩

variable (reads : Reads Database Entry Continuation)

/-- What some execution of a query ends with. -/
def IsOutcome (query : SearchQuery) (outcome : SearchOutcome Entry Continuation) : Prop :=
  ∃ first second third, executeQuery reads first second third query = outcome

/-- What is found for a position under a filter: what some execution read, for the position and a
filter that asks for the same. -/
def IsFound (hash : UInt64) (filter : SearchFilter) (found : List (SearchMatch Entry))
    (totalMatches : ℤ) (openings : OpeningStats Continuation) : Prop :=
  ∃ query page, IsOutcome reads query (.ok page) ∧ query.hash = hash ∧
    SearchFilter.Alike filter query.filter ∧ found = page.matchList ∧
    totalMatches = page.totalMatches ∧ openings = page.continuations

/-- A state that shows what is found for its position under its filter. -/
def ShowsAnswer (s : SearchState Entry Continuation) : Prop :=
  ∃ openings, IsFound reads s.currentHash s.activeFilter s.matchList s.totalMatches openings ∧
    s.continuations = openings.continuations ∧ s.totalGames = openings.totalGames

/-- A state that shows nothing. -/
structure IsBlank (s : SearchState Entry Continuation) : Prop where
  found : s.matchList = [] ∧ s.totalMatches = 0
  openings : s.continuations = [] ∧ s.totalGames = 0

/-- A state that shows nothing because an execution of the search for its position under its filter
failed. -/
structure ShowsFailure (s : SearchState Entry Continuation) : Prop where
  blank : IsBlank s
  failed : ∃ query e, query.hash = s.currentHash ∧ query.filter = s.activeFilter ∧
    IsOutcome reads query (.error e)

variable {reads}

theorem IsFound.alike {hash : UInt64} {filter other : SearchFilter}
    {found : List (SearchMatch Entry)} {totalMatches : ℤ} {openings : OpeningStats Continuation}
    (h : IsFound reads hash other found totalMatches openings)
    (halike : SearchFilter.Alike filter other) :
    IsFound reads hash filter found totalMatches openings := by
  obtain ⟨query, page, hanswer, hhash, hfilter, hrest⟩ := h
  exact ⟨query, page, hanswer, hhash, halike.trans hfilter, hrest⟩

private theorem IsOutcome.isFound {query : SearchQuery} {page : SearchPage Entry Continuation}
    (h : IsOutcome reads query (.ok page)) : IsFound reads page.hash page.filter page.matchList
      page.totalMatches page.continuations := by
  obtain ⟨first, second, third, hexecute⟩ := h
  obtain ⟨-, hhash, hfilter⟩ := executeQuery_ok hexecute
  exact ⟨query, page, ⟨first, second, third, hexecute⟩, hhash.symm, hfilter ▸ .refl _, rfl, rfl, rfl⟩

end Answers

section Presenter

variable (reads : Reads Database Entry Continuation)

/-- A query that the presenter prepared; the one of the latest generation is for what it shows. -/
def Asks (p : SearchPresenter Entry Continuation) (query : SearchQuery) : Prop :=
  query.generation ≤ p.state.queryGeneration ∧ (query.generation = p.state.queryGeneration →
    query.hash = p.state.currentHash ∧ query.filter = p.state.activeFilter)

/-- A cached page, if there is one, is what was found for the starting position without a filter. -/
def CacheSound (p : SearchPresenter Entry Continuation) : Prop :=
  ∀ page, p.startingPositionCache = some page →
    IsFound reads page.hash page.filter page.matchList page.totalMatches page.continuations ∧
      page.hash = p.startingPositionHash ∧ page.filter.position = some page.hash ∧
      page.filter.hasMetadataFilter = false

/-- A presenter with the queries that are open, after the search of a position or before any. While it
searches, the query of its latest generation is open, and otherwise it shows an answer or nothing. -/
structure Settling (lastHash : Option UInt64) (unanswered : List SearchQuery)
    (p : SearchPresenter Entry Continuation) : Prop where
  last : ∀ hash, lastHash = some hash →
    p.state.currentHash = hash ∧ p.state.activeFilter.position = some hash
  untouched : lastHash = none → unanswered = [] ∧ p.state.searching = false ∧ IsBlank p.state
  asks : ∀ query ∈ unanswered, Asks p query
  searching : p.state.searching = true →
    ∃ query ∈ unanswered, query.generation = p.state.queryGeneration
  blank : p.state.searching = true → IsBlank p.state
  shown : p.state.searching = false → lastHash.isSome →
    ShowsAnswer reads p.state ∨ ShowsFailure reads p.state
  cached : CacheSound reads p

variable {reads} {lastHash : Option UInt64} {unanswered rest : List SearchQuery}
  {p : SearchPresenter Entry Continuation}

private theorem settling_new (startingPositionHash : UInt64) :
    Settling reads none [] ({ startingPositionHash } : SearchPresenter Entry Continuation) where
  last _ h := by cases h
  untouched _ := ⟨rfl, rfl, ⟨rfl, rfl⟩, rfl, rfl⟩
  asks _ h := absurd h List.not_mem_nil
  searching h := by cases h
  blank h := by cases h
  shown _ h := by cases h
  cached _ h := by cases h

theorem Settling.drop (h : Settling reads lastHash unanswered p)
    (hrest : ∀ query ∈ rest, query ∈ unanswered)
    (hlatest : ∀ query ∈ unanswered, query.generation = p.state.queryGeneration → query ∈ rest) :
    Settling reads lastHash rest p where
  last := h.last
  untouched hnone := by
    obtain ⟨hempty, hsearching⟩ := h.untouched hnone
    refine ⟨List.eq_nil_iff_forall_not_mem.mpr fun query hquery => ?_, hsearching⟩
    exact absurd (hempty ▸ hrest query hquery) List.not_mem_nil
  asks query hquery := h.asks query (hrest query hquery)
  searching hsearching := by
    obtain ⟨query, hquery, hgeneration⟩ := h.searching hsearching
    exact ⟨query, hlatest query hquery hgeneration, hgeneration⟩
  blank := h.blank
  shown := h.shown
  cached := h.cached

private theorem settling_applyQuery {page : SearchPage Entry Continuation} {hash : UInt64}
    (hhash : page.hash = hash) (hgeneration : page.generation = p.state.queryGeneration)
    (hfound : IsFound reads page.hash page.filter page.matchList page.totalMatches page.continuations)
    (hposition : page.filter.position = some page.hash) (hcached : CacheSound reads p)
    (hrest : ∀ query ∈ rest, query.generation ≤ p.state.queryGeneration ∧
      (query.generation = p.state.queryGeneration →
        query.hash = page.hash ∧ query.filter = page.filter)) :
    Settling reads (some hash) rest (p.applyQuery page).1 := by
  subst hhash
  rw [SearchPresenter.applyQuery, if_neg (not_not.mpr hgeneration)]
  refine ⟨fun hash hhash => ?_, fun hnone => ?_, hrest, fun hsearching => ?_,
    fun hsearching => ?_, fun _ _ => .inl ⟨page.continuations, hfound, rfl, rfl⟩,
    fun cached heq => ?_⟩
  · exact ⟨Option.some.inj hhash, hposition.trans hhash⟩
  · cases hnone
  · cases hsearching
  · cases hsearching
  · dsimp only at heq
    split at heq
    next hcacheable =>
      obtain rfl := Option.some.inj heq
      rw [SearchPresenter.cacheable, Bool.and_eq_true, decide_eq_true_iff] at hcacheable
      exact ⟨hfound, hcacheable.1, hposition, by simpa using hcacheable.2⟩
    next => exact hcached cached heq

theorem Settling.applyOutcome (h : Settling reads lastHash unanswered p) {query : SearchQuery}
    (hquery : query ∈ unanswered) {outcome : SearchOutcome Entry Continuation}
    (houtcome : IsOutcome reads query outcome)
    (hrest : ∀ other ∈ rest, other ∈ unanswered)
    (hothers : ∀ other ∈ unanswered, other = query ∨ other ∈ rest) :
    Settling reads lastHash rest (SearchRunner.applyOutcome query.generation outcome p) := by
  by_cases hlatest : query.generation = p.state.queryGeneration
  · cases outcome with
    | error e =>
      obtain ⟨hhash, hfilter⟩ := (h.asks query hquery).2 hlatest
      rw [SearchRunner.applyOutcome, SearchPresenter.applyQueryError, if_neg (not_not.mpr hlatest)]
      refine ⟨h.last, fun hnone => ?_, fun other hother => h.asks other (hrest other hother),
        fun hsearching => ?_, fun hsearching => ?_, fun _ hlast => ?_, h.cached⟩
      · exact absurd ((h.untouched hnone).1 ▸ hquery) List.not_mem_nil
      · cases hsearching
      · cases hsearching
      · cases hsearching : p.state.searching with
        | true =>
          have hblank := h.blank hsearching
          exact .inr ⟨⟨hblank.found, hblank.openings⟩, query, e, hhash, hfilter, houtcome⟩
        | false =>
          rcases h.shown hsearching hlast with hanswer | ⟨hblank, hfailed⟩
          · exact .inl hanswer
          · exact .inr ⟨⟨hblank.found, hblank.openings⟩, hfailed⟩
    | ok page =>
      obtain ⟨first, second, third, hexecute⟩ := houtcome
      obtain ⟨hgeneration, hhash, hfilter⟩ := executeQuery_ok hexecute
      obtain ⟨hcurrent, hactive⟩ := (h.asks query hquery).2 hlatest
      obtain ⟨hash, hlast⟩ : ∃ hash, lastHash = some hash := by
        cases hnone : lastHash with
        | none => exact absurd ((h.untouched hnone).1 ▸ hquery) List.not_mem_nil
        | some hash => exact ⟨hash, rfl⟩
      obtain ⟨hlastHash, hlastPosition⟩ := h.last hash hlast
      have hsame : hash = page.hash := by rw [hhash, hcurrent, hlastHash]
      subst hsame
      rw [hlast]
      refine settling_applyQuery rfl (hgeneration.trans hlatest)
        (IsOutcome.isFound ⟨first, second, third, hexecute⟩) ?_ h.cached fun other hother => ?_
      · rw [hfilter, hactive, hlastPosition]
      · obtain ⟨hbound, hasks⟩ := h.asks other (hrest other hother)
        refine ⟨hbound, fun hother => ?_⟩
        obtain ⟨hotherHash, hotherFilter⟩ := hasks hother
        exact ⟨hotherHash.trans hlastHash, hotherFilter.trans (hactive.symm.trans hfilter.symm)⟩
  · have hunchanged : SearchRunner.applyOutcome query.generation outcome p = p := by
      cases outcome with
      | error e => exact congrArg Prod.fst (if_pos hlatest)
      | ok page =>
        obtain ⟨first, second, third, hexecute⟩ := houtcome
        obtain ⟨hgeneration, -, -⟩ := executeQuery_ok hexecute
        rw [← hgeneration] at hlatest
        exact congrArg Prod.fst (if_pos hlatest)
    rw [hunchanged]
    refine h.drop hrest fun other hother hgeneration => ?_
    rcases hothers other hother with rfl | hmem
    · exact absurd hgeneration hlatest
    · exact hmem

theorem Settling.search (h : Settling reads lastHash unanswered p) (hash : UInt64)
    (filter : SearchFilter) :
    ((p.search hash filter).2 = none ∧
      Settling reads (some hash) unanswered (p.search hash filter).1) ∨
    ∃ query, (p.search hash filter).2 = some query ∧ ∀ rest, query ∈ rest →
      (∀ other ∈ rest, other = query ∨ other ∈ unanswered) →
      Settling reads (some hash) rest (p.search hash filter).1 := by
  unfold SearchPresenter.search
  dsimp only
  split
  next cached hhit =>
    obtain ⟨hcached, hsame⟩ := Option.filter_eq_some_iff.mp hhit
    simp only [Bool.and_eq_true, decide_eq_true_eq] at hsame
    obtain ⟨⟨⟨⟨⟨hstart, hmetadata⟩, hoffset⟩, hlimit⟩, hcolumn⟩, hascending⟩ := hsame
    obtain ⟨hfound, hhash, hposition, hplain⟩ := h.cached cached hcached
    obtain rfl : cached.hash = hash := hhash.trans hstart.symm
    refine .inl ⟨rfl, settling_applyQuery rfl rfl ?_ rfl ?_ fun query hquery => ?_⟩
    · exact hfound.alike ⟨hposition, ⟨hoffset.symm, hlimit.symm⟩, ⟨hcolumn.symm, hascending.symm⟩,
        .inr ⟨by simpa using hmetadata, hplain⟩⟩
    · exact h.cached
    · have hbound : query.generation < p.state.queryGeneration + 1 :=
        Nat.lt_succ_of_le (h.asks query hquery).1
      exact ⟨hbound.le, fun heq => absurd heq hbound.ne⟩
  next =>
    refine .inr ⟨_, rfl, fun rest hquery hothers => ?_⟩
    refine ⟨fun other hother => ?_, fun hnone => ?_, fun other hother => ?_, fun _ => ⟨_, hquery, rfl⟩,
      fun _ => ⟨⟨rfl, rfl⟩, rfl, rfl⟩, fun hsearching => ?_, h.cached⟩
    · exact ⟨Option.some.inj hother, hother⟩
    · cases hnone
    · rcases hothers other hother with rfl | hmem
      · exact ⟨le_rfl, fun _ => ⟨rfl, rfl⟩⟩
      · have hbound : other.generation < p.state.queryGeneration + 1 :=
          Nat.lt_succ_of_le (h.asks other hmem).1
        exact ⟨hbound.le, fun heq => absurd heq hbound.ne⟩
    · cases hsearching

theorem IsBlank.of_same {s t : SearchState Entry Continuation} (h : IsBlank s)
    (hfound : t.matchList = s.matchList ∧ t.totalMatches = s.totalMatches)
    (hopenings : t.continuations = s.continuations ∧ t.totalGames = s.totalGames) : IsBlank t :=
  ⟨⟨hfound.1.trans h.found.1, hfound.2.trans h.found.2⟩,
    hopenings.1.trans h.openings.1, hopenings.2.trans h.openings.2⟩

theorem Settling.of_same (h : Settling reads lastHash unanswered p)
    {state : SearchState Entry Continuation}
    (hsearch : state.currentHash = p.state.currentHash ∧ state.activeFilter = p.state.activeFilter ∧
      state.searching = p.state.searching ∧ state.queryGeneration = p.state.queryGeneration)
    (hfound : state.matchList = p.state.matchList ∧ state.totalMatches = p.state.totalMatches)
    (hopenings : state.continuations = p.state.continuations ∧
      state.totalGames = p.state.totalGames) :
    Settling reads lastHash unanswered { p with state } := by
  obtain ⟨hhash, hfilter, hsearching, hgeneration⟩ := hsearch
  have hblank : IsBlank p.state → IsBlank state := fun hs => hs.of_same hfound hopenings
  refine ⟨?_, ?_, ?_, ?_, ?_, ?_, h.cached⟩
  · rw [hhash, hfilter]
    exact h.last
  · rw [hsearching]
    exact fun hnone => ⟨(h.untouched hnone).1, (h.untouched hnone).2.1, hblank (h.untouched hnone).2.2⟩
  · unfold Asks
    rw [hgeneration, hhash, hfilter]
    exact h.asks
  · rw [hsearching, hgeneration]
    exact h.searching
  · rw [hsearching]
    exact fun htrue => hblank (h.blank htrue)
  · rw [hsearching]
    intro hfalse hlast
    rcases h.shown hfalse hlast with hanswer | hfailure
    · left
      unfold ShowsAnswer
      rw [hhash, hfilter, hfound.1, hfound.2, hopenings.1, hopenings.2]
      exact hanswer
    · right
      refine ⟨hblank hfailure.blank, ?_⟩
      rw [hhash, hfilter]
      exact hfailure.failed

theorem Settling.invalidate (h : Settling reads lastHash unanswered p) :
    Settling reads lastHash unanswered p.invalidateStartingPositionCache :=
  ⟨h.last, h.untouched, h.asks, h.searching, h.blank, h.shown, fun _ hnone => by cases hnone⟩

end Presenter

section Runs

variable (reads : Reads Database Entry Continuation)

namespace SearchRunner

/-- The queries of the current presenter that are in flight or wait. -/
def unanswered (s : SearchRunner Entry Continuation)
    (phase : Worker.Phase SearchJob (SearchOutcome Entry Continuation)) : List SearchQuery :=
  ((phase.job.filter fun job => job.epoch = s.epoch).map SearchJob.query).toList ++
    s.pendingQuery.toList

/-- A runner whose worker is in a phase: a query only waits for one in flight, outcomes are answers, and
the presenter is settling. -/
structure Sound (s : SearchRunner Entry Continuation)
    (phase : Worker.Phase SearchJob (SearchOutcome Entry Continuation)) : Prop where
  worker : s.worker.InPhase phase
  waiting : s.pendingQuery.isSome → s.worker.busy = true
  epochs : ∀ job, phase.job = some job → job.epoch ≤ s.epoch
  outcome : ∀ job outcome, phase = .finished job outcome → IsOutcome reads job.query outcome
  settling : ∀ p, s.presenter = some p → Settling reads s.lastHash (s.unanswered phase) p

variable {reads} {s t : SearchRunner Entry Continuation}
  {phase : Worker.Phase SearchJob (SearchOutcome Entry Continuation)}

private theorem isOutcome_runJob (once again : Snapshots Database) (retry : Bool) (job : SearchJob) :
    IsOutcome reads job.query (runJob reads once again retry job) := by
  unfold runJob
  dsimp only
  split
  next page honce => exact ⟨_, _, _, honce⟩
  next e honce =>
    split
    · exact ⟨_, _, _, rfl⟩
    · exact ⟨_, _, _, honce⟩

private theorem Sound.pendingQuery_eq_none (h : Sound reads s .idle) : s.pendingQuery = none := by
  cases hpending : s.pendingQuery with
  | none => rfl
  | some query =>
    have hbusy := h.waiting (by rw [hpending]; rfl)
    rw [h.worker.not_busy] at hbusy
    cases hbusy

theorem Sound.setPresenter (h : Sound reads s phase) {presenter}
    (hpresenter : ∀ p, presenter = some p → Settling reads s.lastHash (s.unanswered phase) p) :
    Sound reads { s with presenter } phase :=
  ⟨h.worker, h.waiting, h.epochs, h.outcome, hpresenter⟩

theorem Sound.mapPresenter (h : Sound reads s phase)
    {f : SearchPresenter Entry Continuation → SearchPresenter Entry Continuation}
    (hf : ∀ p, Settling reads s.lastHash (s.unanswered phase) p →
      Settling reads s.lastHash (s.unanswered phase) (f p)) :
    Sound reads { s with presenter := s.presenter.map f } phase := by
  refine h.setPresenter fun p hp => ?_
  obtain ⟨old, hold, rfl⟩ := Option.map_eq_some_iff.mp hp
  exact hf old (h.settling old hold)

theorem Sound.attach (h : Sound reads s phase) (startingPositionHash : UInt64) :
    Sound reads (s.attach startingPositionHash) phase := by
  have hstale : (s.attach startingPositionHash).unanswered phase = [] := by
    have hnone : (phase.job.filter fun job => job.epoch = s.epoch + 1) = none := by
      rw [Option.filter_eq_none_iff]
      intro job hjob hepoch
      have hle := h.epochs job hjob
      rw [decide_eq_true_iff] at hepoch
      omega
    change ((phase.job.filter fun job => job.epoch = s.epoch + 1).map _).toList ++ [] = []
    rw [hnone]
    rfl
  refine ⟨h.worker, fun hnone => absurd hnone Bool.false_ne_true, fun job hjob => ?_, h.outcome, fun p hp => ?_⟩
  · exact Nat.le_succ_of_le (h.epochs job hjob)
  · obtain rfl := Option.some.inj hp
    rw [hstale]
    exact settling_new startingPositionHash

theorem Sound.runQuery (h : Sound reads s phase) {p : SearchPresenter Entry Continuation}
    {hash : UInt64} {query : SearchQuery}
    (hsettling : ∀ rest, query ∈ rest →
      (∀ other ∈ rest, other = query ∨ other ∈ s.unanswered phase) →
      Settling reads (some hash) rest p) :
    ∃ phase', Sound reads
      ({ s with presenter := some p, lastHash := some hash }.runQuery query) phase' := by
  unfold SearchRunner.runQuery
  dsimp only
  split
  next hbusy =>
    refine ⟨phase, h.worker, fun _ => hbusy, h.epochs, h.outcome, fun p' hp' => ?_⟩
    obtain rfl := Option.some.inj hp'
    refine hsettling _ (List.mem_append_right _ List.mem_cons_self) fun other hother => ?_
    rcases List.mem_append.mp hother with hmem | hmem
    · exact .inr (List.mem_append_left _ hmem)
    · exact .inl (List.mem_singleton.mp hmem)
  next hfree =>
    have hidle := h.worker.eq_idle (by simpa using hfree)
    subst hidle
    have hpending := h.pendingQuery_eq_none
    refine ⟨.running ⟨query, s.epoch⟩, h.worker.start _, fun hsome => ?_, fun job hjob => ?_,
      fun job outcome hphase => ?_, fun p' hp' => ?_⟩
    · rfl
    · obtain rfl := Option.some.inj hjob
      exact le_rfl
    · cases hphase
    · obtain rfl := Option.some.inj hp'
      have hopen : ({ s with
          presenter := some p, lastHash := some hash,
          worker := s.worker.start ⟨query, s.epoch⟩ } : SearchRunner Entry Continuation).unanswered
            (.running ⟨query, s.epoch⟩) = [query] := by
        simp [unanswered, Worker.Phase.job, hpending, Option.filter]
      rw [hopen]
      exact hsettling _ List.mem_cons_self fun other hother => .inl (List.mem_singleton.mp hother)

theorem Sound.search (h : Sound reads s phase) (hash : UInt64) (filter : SearchFilter) :
    ∃ phase', Sound reads (s.search hash filter) phase' := by
  unfold SearchRunner.search
  split
  next => exact ⟨phase, h⟩
  next p hp =>
    rcases (h.settling p hp).search hash filter with ⟨hnone, hsettling⟩ | ⟨query, hquery, hsettling⟩
    · dsimp only
      rw [hnone]
      refine ⟨phase, h.worker, h.waiting, h.epochs, h.outcome, fun p' hp' => ?_⟩
      obtain rfl := Option.some.inj hp'
      exact hsettling
    · dsimp only
      rw [hquery]
      exact h.runQuery hsettling

theorem Sound.searchIfHashChanged (h : Sound reads s phase) (hash : UInt64)
    (filter : SearchFilter) : ∃ phase', Sound reads (s.searchIfHashChanged hash filter) phase' := by
  unfold SearchRunner.searchIfHashChanged
  split
  · exact ⟨phase, h⟩
  · split
    · exact ⟨phase, h⟩
    · exact h.search hash filter

theorem Sound.setPage (h : Sound reads s phase) (pageIndex : ℕ) :
    ∃ phase', Sound reads (s.setPage pageIndex) phase' := by
  unfold SearchRunner.setPage
  split
  · exact ⟨phase, h⟩
  · split
    · exact ⟨phase, h⟩
    · exact h.search _ _

theorem Sound.refreshIfAuto (h : Sound reads s phase) (hash : Option UInt64)
    (filter : SearchFilter) : ∃ phase', Sound reads (s.refreshIfAuto hash filter) phase' := by
  unfold SearchRunner.refreshIfAuto
  split
  · exact ⟨phase, h⟩
  · split
    · cases hash with
      | none => exact ⟨phase, h⟩
      | some hash => exact h.search hash filter
    · exact ⟨phase, h⟩

theorem Sound.detach (h : Sound reads s phase) (hdetach : s.detach = some t) :
    Sound reads t .idle := by
  obtain ⟨worker, hworker, rfl⟩ := Option.map_eq_some_iff.mp hdetach
  refine ⟨h.worker.renew hworker, fun hnone => absurd hnone Bool.false_ne_true, fun job hjob => ?_,
    fun job outcome hphase => ?_, fun p hp => ?_⟩
  · cases hjob
  · cases hphase
  · cases hp

theorem Sound.finish (h : Sound reads s phase) {once again : Snapshots Database} {retry : Bool}
    (hfinish : s.finish reads once again retry = some t) : ∃ phase', Sound reads t phase' := by
  obtain ⟨worker, hworker, rfl⟩ := Option.map_eq_some_iff.mp hfinish
  obtain ⟨job, rfl, hphase⟩ := h.worker.finish hworker
  refine ⟨_, hphase, fun hsome => ?_, h.epochs, fun job' outcome heq => ?_, h.settling⟩
  · exact hphase.busy_iff.mpr rfl
  · obtain ⟨rfl, rfl⟩ := Worker.Phase.finished.inj heq
    exact isOutcome_runJob once again retry job

theorem Sound.complete (h : Sound reads s phase) {job : SearchJob}
    {outcome : SearchOutcome Entry Continuation} (hphase : phase = .finished job outcome)
    {worker : Worker SearchJob (SearchOutcome Entry Continuation)}
    (hidle : worker.release.InPhase .idle) :
    ∃ phase', Sound reads ({ s with worker }.completeQuery job outcome) phase' := by
  subst hphase
  have hsettling : ∀ p, (if s.epoch = job.epoch then
      s.presenter.map (applyOutcome job.query.generation outcome) else s.presenter) = some p →
      Settling reads s.lastHash s.pendingQuery.toList p := by
    intro p hp
    by_cases hepoch : s.epoch = job.epoch
    · rw [if_pos hepoch] at hp
      obtain ⟨old, hold, rfl⟩ := Option.map_eq_some_iff.mp hp
      have hopen : s.unanswered (.finished job outcome) = job.query :: s.pendingQuery.toList := by
        simp [unanswered, Worker.Phase.job, Option.filter, hepoch]
      refine (h.settling old hold).applyOutcome (hopen ▸ List.mem_cons_self)
        (h.outcome job outcome rfl) (fun other hother => hopen ▸ List.mem_cons_of_mem _ hother)
        fun other hother => List.mem_cons.mp (hopen ▸ hother)
    · rw [if_neg hepoch] at hp
      have hopen : s.unanswered (.finished job outcome) = s.pendingQuery.toList := by
        have hne : ¬job.epoch = s.epoch := fun heq => hepoch heq.symm
        simp [unanswered, Worker.Phase.job, Option.filter, hne]
      exact hopen ▸ h.settling p hp
  have hcomplete : { s with worker }.completeQuery job outcome = dispatchPending { s with
      worker := worker.release
      presenter := if s.epoch = job.epoch then
        s.presenter.map (applyOutcome job.query.generation outcome) else s.presenter } := by
    unfold completeQuery
    dsimp only
    split
    · rfl
    · rfl
  rw [hcomplete]
  unfold dispatchPending
  cases hpending : s.pendingQuery with
  | none =>
    rw [Option.elim_none]
    refine ⟨.idle, hidle, fun hsome => ?_, fun job hjob => ?_, fun job outcome hphase => ?_, fun p hp => ?_⟩
    · cases hsome
    · cases hjob
    · cases hphase
    · have hsettled := hsettling p hp
      rw [hpending] at hsettled
      exact hsettled
  | some query =>
    rw [Option.elim_some, SearchRunner.runQuery, if_neg (by rw [hidle.not_busy]; decide)]
    refine ⟨.running ⟨query, s.epoch⟩, hidle.start _, fun hsome => ?_, fun job hjob => ?_,
      fun job outcome hphase => ?_, fun p hp => ?_⟩
    · cases hsome
    · obtain rfl := Option.some.inj hjob
      exact le_rfl
    · cases hphase
    · have hsettled := hsettling p hp
      rw [hpending] at hsettled
      simpa [unanswered, Worker.Phase.job, Option.filter] using hsettled

theorem Sound.deliver (h : Sound reads s phase) (hdeliver : s.deliver = some t) :
    ∃ phase', Sound reads t phase' := by
  obtain ⟨⟨completion, worker⟩, htake, rfl⟩ := Option.map_eq_some_iff.mp hdeliver
  obtain ⟨hbusy, -, hstale | hlive⟩ := h.worker.take htake
  · dsimp only
    rw [if_neg hstale.1]
    exact ⟨phase, hstale.2, fun hsome => hbusy.trans (h.waiting hsome), h.epochs, h.outcome,
      h.settling⟩
  · dsimp only
    rw [if_pos hlive.1]
    exact h.complete hlive.2.1 hlive.2.2

theorem Sound.step (h : Sound reads s phase) {a : SearchRunnerAction Database}
    (hstep : s.step reads a = some t) : ∃ phase', Sound reads t phase' := by
  cases a with
  | attach startingPositionHash =>
    obtain rfl := Option.some.inj hstep
    exact ⟨phase, h.attach startingPositionHash⟩
  | detach => exact ⟨.idle, h.detach hstep⟩
  | search hash filter =>
    obtain rfl := Option.some.inj hstep
    exact h.search hash filter
  | searchIfHashChanged hash filter =>
    obtain rfl := Option.some.inj hstep
    exact h.searchIfHashChanged hash filter
  | setPage pageIndex =>
    obtain rfl := Option.some.inj hstep
    exact h.setPage pageIndex
  | refreshIfAuto hash filter =>
    obtain rfl := Option.some.inj hstep
    exact h.refreshIfAuto hash filter
  | setAutoSearch enabled =>
    obtain rfl := Option.some.inj hstep
    exact ⟨phase, h.mapPresenter fun p hp => hp.of_same ⟨rfl, rfl, rfl, rfl⟩ ⟨rfl, rfl⟩ ⟨rfl, rfl⟩⟩
  | invalidatePositionCache =>
    obtain rfl := Option.some.inj hstep
    exact ⟨phase, h.mapPresenter fun p hp => hp.invalidate⟩
  | dismissError =>
    obtain rfl := Option.some.inj hstep
    exact ⟨phase, h.mapPresenter fun p hp => hp.of_same ⟨rfl, rfl, rfl, rfl⟩ ⟨rfl, rfl⟩ ⟨rfl, rfl⟩⟩
  | finish once again retry => exact h.finish hstep
  | deliver => exact h.deliver hstep

variable (reads) in
theorem sound_new : Sound reads ({} : SearchRunner Entry Continuation) .idle where
  worker := Worker.inPhase_new
  waiting hnone := absurd hnone Bool.false_ne_true
  epochs _ hjob := by cases hjob
  outcome _ _ hphase := by cases hphase
  settling _ hp := by cases hp

/-- A runner that has settled: nothing waits or is searched for, and it shows what some execution found
for the position of the last search, or nothing if that execution failed. -/
structure Settled (reads : Reads Database Entry Continuation)
    (s : SearchRunner Entry Continuation) (p : SearchPresenter Entry Continuation) :
    Prop where
  pending : s.pendingQuery = none
  searching : p.state.searching = false
  last : ∀ hash, s.lastHash = some hash →
    p.state.currentHash = hash ∧ p.state.activeFilter.position = some hash
  shown : s.lastHash.isSome → ShowsAnswer reads p.state ∨ ShowsFailure reads p.state
  blank : s.lastHash = none → IsBlank p.state

theorem Sound.settled (h : Sound reads s phase) (hbusy : s.worker.busy = false)
    {p : SearchPresenter Entry Continuation} (hp : s.presenter = some p) : Settled reads s p := by
  obtain rfl := h.worker.eq_idle hbusy
  have hpending := h.pendingQuery_eq_none
  have hsettling := h.settling p hp
  have hnone : s.unanswered (.idle) = [] := by
    simp [unanswered, Worker.Phase.job, hpending]
  have hsearching : p.state.searching = false := by
    rw [← Bool.not_eq_true]
    intro htrue
    obtain ⟨query, hquery, -⟩ := hsettling.searching htrue
    exact absurd (hnone ▸ hquery) List.not_mem_nil
  exact ⟨hpending, hsearching, hsettling.last, hsettling.shown hsearching,
    fun hlast => (hsettling.untouched hlast).2.2⟩

variable (reads) in
/-- In every run, a search runner that is not busy has settled: no search is lost, however many came
while it was busy, and no panel keeps searching. -/
theorem settledSearch_of_reaches
    (h : Reaches (SearchRunner.step reads) (fun _ _ => True) {} s) (hbusy : s.worker.busy = false)
    {p : SearchPresenter Entry Continuation} (hp : s.presenter = some p) : Settled reads s p := by
  have hinvariant : ∃ phase, Sound reads s phase := by
    apply h.invariant
    · exact ⟨.idle, sound_new reads⟩
    · rintro s a t ⟨phase, hsound⟩ - hstep
      exact hsound.step hstep
  obtain ⟨phase, hsound⟩ := hinvariant
  exact hsound.settled hbusy hp

/-- One game at ply 3 in every position, whatever the database. -/
private def oneGame : Reads Bool UInt32 Unit where
  gameId id := id
  findGames _ _ := .ok ([7], 1)
  firstMatches _ _ ids := .ok (ids.map fun id => ⟨id, 3, 0, none, none⟩)
  openingStats _ _ _ := .ok ⟨[], 1⟩

private def twoSearches : Option (SearchRunner UInt32 Unit) :=
  run (SearchRunner.step oneGame) (fun _ _ => True) {} [.attach 1, .search 5 {}, .search 6 {},
    .finish ⟨true, true, true⟩ ⟨true, true, true⟩ false, .deliver,
    .finish ⟨true, false, true⟩ ⟨true, true, true⟩ false, .deliver]

/-- The second of two searches in a row is the one that is shown. -/
theorem settledSearch_of_reaches_sample : ∃ s p, twoSearches = some s ∧ s.presenter = some p ∧
    Settled oneGame s p ∧ p.state.currentHash = 6 ∧ p.state.matchList = [⟨7, 3⟩] := by
  have hrun : (twoSearches.bind fun s => s.presenter.map fun p =>
      (s.worker.busy, p.state.currentHash, p.state.matchList)) = some (false, 6, [⟨7, 3⟩]) := by
    decide +kernel
  obtain ⟨s, hs, hmap⟩ := Option.bind_eq_some_iff.mp hrun
  obtain ⟨p, hp, hvalues⟩ := Option.map_eq_some_iff.mp hmap
  obtain ⟨hbusy, hvalues⟩ := Prod.mk.inj hvalues
  obtain ⟨hhash, hfound⟩ := Prod.mk.inj hvalues
  exact ⟨s, p, hs, hp, settledSearch_of_reaches oneGame (reaches_of_run hs) hbusy hp, hhash, hfound⟩

end SearchRunner

end Runs

end MotifChess.SlintApp
