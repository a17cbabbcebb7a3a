/- GID: MotifChess/SlintApp/SearchCache
   generality: implementation
   digest: Interleavings of searches, background reads, deliveries and cache invalidations. -/

import MotifChess.SlintApp.SearchPresenter
import MotifChess.System.Run

set_option autoImplicit false
set_option relaxedAutoImplicit false

namespace MotifChess.SlintApp

open MotifChess.Db

variable {Entry Continuation Database : Type}

/-- A query in the background: how many invalidations came before its request and before its
first read, and how far it is. -/
structure Execution (Entry Continuation : Type) where
  query : SearchQuery
  requestedAt : ℕ
  readFrom : ℕ
  stage : Stage Entry Continuation

/-- The presenter with its background work. The epoch counts the invalidations so far. The logs
pair the epoch at which a page was cached, or at which its search was requested, with the epoch
at which the reading of the page began. -/
structure SearchSystem (Database Entry Continuation : Type) where
  presenter : SearchPresenter Entry Continuation
  database : Database
  epoch : ℕ := 0
  issued : List (SearchQuery × ℕ) := []
  running : List (Execution Entry Continuation) := []
  cachedFrom : ℕ := 0
  stored : List (ℕ × ℕ) := []
  served : List (ℕ × ℕ) := []

inductive SearchAction (Database : Type)
  | search (hash : UInt64) (filter : SearchFilter)
  | begin (request : ℕ)
  | read (execution : ℕ)
  | deliver (execution : ℕ)
  | changeDatabase (database : Database)
  | invalidate

namespace SearchSystem

variable (reads : Reads Database Entry Continuation)

def initial (startingPositionHash : UInt64) (database : Database) :
    SearchSystem Database Entry Continuation where
  presenter := { startingPositionHash }
  database := database

def search (hash : UInt64) (filter : SearchFilter) (s : SearchSystem Database Entry Continuation) :
    SearchSystem Database Entry Continuation :=
  match s.presenter.search hash filter with
  | (presenter, some query) => { s with presenter, issued := s.issued ++ [(query, s.epoch)] }
  | (presenter, none) => { s with
      presenter
      stored := s.stored ++ [(s.epoch, s.cachedFrom)]
      served := s.served ++ [(s.epoch, s.cachedFrom)] }

/-- The delivery of a finished execution on the event loop. -/
def deliver (x : Execution Entry Continuation) (result : Except SearchError (SearchPage Entry Continuation))
    (s : SearchSystem Database Entry Continuation) : SearchSystem Database Entry Continuation :=
  match result with
  | .error e => { s with presenter := (s.presenter.applyQueryError x.query.generation e).1 }
  | .ok page =>
    match s.presenter.applyQuery page with
    | (_, false) => s
    | (presenter, true) =>
      let cached := s.presenter.cacheable page
      { s with
        presenter
        cachedFrom := if cached then x.readFrom else s.cachedFrom
        stored := if cached then s.stored ++ [(s.epoch, x.readFrom)] else s.stored
        served := s.served ++ [(x.requestedAt, x.readFrom)] }

def step (s : SearchSystem Database Entry Continuation) :
    SearchAction Database → Option (SearchSystem Database Entry Continuation)
  | .search hash filter => some (s.search hash filter)
  | .begin i => s.issued[i]?.map fun request =>
      { s with running := s.running ++ [⟨request.1, request.2, s.epoch, .started⟩] }
  | .read i => s.running[i]?.map fun x =>
      { s with running := s.running.set i { x with stage := x.stage.next reads s.database x.query } }
  | .deliver i =>
    match s.running[i]? with
    | some ⟨query, requestedAt, readFrom, .done result⟩ =>
      some { s.deliver ⟨query, requestedAt, readFrom, .done result⟩ result with
        running := s.running.eraseIdx i }
    | _ => none
  | .changeDatabase database => some { s with database }
  | .invalidate => some { s with
      presenter := s.presenter.invalidateStartingPositionCache
      epoch := s.epoch + 1 }

/-- A finished page that is delivered while its generation is current, and that the presenter
caches, was read after the last invalidation. -/
def deliversFresh (s : SearchSystem Database Entry Continuation) : SearchAction Database → Bool
  | .deliver i =>
    match s.running[i]? with
    | some ⟨_, _, readFrom, .done (.ok page)⟩ =>
      page.generation != s.presenter.state.queryGeneration || !s.presenter.cacheable page ||
        readFrom == s.epoch
    | _ => true
  | _ => true

/-- No page that was read before an invalidation was cached after it, or served a search that was
requested after it. -/
structure Fresh (s : SearchSystem Database Entry Continuation) : Prop where
  stored : ∀ entry ∈ s.stored, entry.1 ≤ entry.2
  served : ∀ entry ∈ s.served, entry.1 ≤ entry.2

variable {reads} {s t : SearchSystem Database Entry Continuation}

private structure Invariant (s : SearchSystem Database Entry Continuation) : Prop extends Fresh s where
  issued : ∀ request ∈ s.issued, request.2 ≤ s.epoch
  running : ∀ x ∈ s.running, x.requestedAt ≤ x.readFrom ∧ x.readFrom ≤ s.epoch
  cached : s.presenter.startingPositionCache.isSome → s.cachedFrom = s.epoch

private theorem cacheHit_isSome {p : SearchPresenter Entry Continuation} {hash : UInt64}
    {filter : SearchFilter} {page : SearchPage Entry Continuation}
    (h : p.cacheHit hash filter = some page) : p.startingPositionCache.isSome := by
  obtain ⟨hcached, -⟩ := Option.filter_eq_some_iff.mp h
  rw [hcached]
  rfl

private theorem forall_mem_concat {l : List (ℕ × ℕ)} {a b : ℕ}
    (h : ∀ entry ∈ l, entry.1 ≤ entry.2) (hab : a ≤ b) :
    ∀ entry ∈ l ++ [(a, b)], entry.1 ≤ entry.2 := by
  intro entry hentry
  rcases List.mem_append.mp hentry with hmem | hmem
  · exact h entry hmem
  · obtain rfl := List.mem_singleton.mp hmem
    exact hab

private theorem Invariant.search (h : Invariant s) (hash : UInt64) (filter : SearchFilter) :
    Invariant (s.search hash filter) := by
  unfold SearchSystem.search SearchPresenter.search
  dsimp only
  cases hhit : s.presenter.cacheHit hash { filter with position := some hash } with
  | none =>
    refine { h with issued := fun request hrequest => ?_, cached := h.cached }
    rcases List.mem_append.mp hrequest with hmem | hmem
    · exact h.issued request hmem
    · obtain rfl := List.mem_singleton.mp hmem
      exact le_refl _
  | some page =>
    have hfrom := h.cached (cacheHit_isSome hhit)
    exact {
      stored := forall_mem_concat h.stored hfrom.ge
      served := forall_mem_concat h.served hfrom.ge
      issued := h.issued
      running := h.running
      cached := fun _ => hfrom }

private theorem applyQuery_cases (p : SearchPresenter Entry Continuation)
    (page : SearchPage Entry Continuation) :
    (page.generation ≠ p.state.queryGeneration ∧ p.applyQuery page = (p, false)) ∨
    (page.generation = p.state.queryGeneration ∧ ∃ q, p.applyQuery page = (q, true) ∧
      q.startingPositionCache =
        if p.cacheable page then some page else p.startingPositionCache) := by
  by_cases hgen : page.generation = p.state.queryGeneration
  · refine .inr ⟨hgen, _, if_neg (not_not.mpr hgen), rfl⟩
  · exact .inl ⟨hgen, if_pos hgen⟩

private theorem Invariant.deliver (h : Invariant s) {x : Execution Entry Continuation}
    (hx : x.requestedAt ≤ x.readFrom ∧ x.readFrom ≤ s.epoch)
    (result : Except SearchError (SearchPage Entry Continuation))
    (hfresh : ∀ page, result = .ok page → page.generation = s.presenter.state.queryGeneration →
      s.presenter.cacheable page = true → x.readFrom = s.epoch) :
    Invariant (s.deliver x result) := by
  cases result with
  | error e =>
    have hcache : (s.presenter.applyQueryError x.query.generation e).1.startingPositionCache =
        s.presenter.startingPositionCache := by
      unfold SearchPresenter.applyQueryError
      split <;> rfl
    exact { h with cached := fun hsome => h.cached (hcache ▸ hsome) }
  | ok page =>
    rcases applyQuery_cases s.presenter page with ⟨-, happly⟩ | ⟨hgen, q, happly, hcache⟩
    · simp only [SearchSystem.deliver, happly]
      exact h
    · simp only [SearchSystem.deliver, happly]
      cases hcacheable : s.presenter.cacheable page with
      | false =>
        rw [hcacheable, if_neg (by decide)] at hcache
        exact {
          stored := h.stored
          served := forall_mem_concat h.served hx.1
          issued := h.issued
          running := h.running
          cached := fun hsome => h.cached (hcache ▸ hsome) }
      | true =>
        have hread := hfresh page rfl hgen hcacheable
        exact {
          stored := forall_mem_concat h.stored hread.ge
          served := forall_mem_concat h.served hx.1
          issued := h.issued
          running := h.running
          cached := fun _ => hread }

private theorem deliver_running (x : Execution Entry Continuation)
    (result : Except SearchError (SearchPage Entry Continuation)) :
    (s.deliver x result).epoch = s.epoch := by
  unfold SearchSystem.deliver
  split
  · rfl
  · split <;> rfl

private theorem Invariant.step (h : Invariant s) {a : SearchAction Database}
    (hallowed : s.deliversFresh a = true) (hstep : s.step reads a = some t) : Invariant t := by
  cases a with
  | search hash filter => exact Option.some.inj hstep ▸ h.search hash filter
  | begin i =>
    obtain ⟨request, hrequest, rfl⟩ := Option.map_eq_some_iff.mp hstep
    have hissued := h.issued request (List.mem_of_getElem? hrequest)
    refine { h with running := fun x hx => ?_, cached := h.cached }
    rcases List.mem_append.mp hx with hmem | hmem
    · exact h.running x hmem
    · obtain rfl := List.mem_singleton.mp hmem
      exact ⟨hissued, le_refl _⟩
  | read i =>
    obtain ⟨x, hx, rfl⟩ := Option.map_eq_some_iff.mp hstep
    have hrunning := h.running x (List.mem_of_getElem? hx)
    refine { h with running := fun y hy => ?_, cached := h.cached }
    rcases List.mem_or_eq_of_mem_set hy with hmem | rfl
    · exact h.running y hmem
    · exact hrunning
  | deliver i =>
    simp only [SearchSystem.step] at hstep
    split at hstep
    next query requestedAt readFrom result hx =>
      have hrunning := h.running _ (List.mem_of_getElem? hx)
      have hdelivered := h.deliver hrunning result fun page hpage hgen hcacheable => by
        subst hpage
        simpa [SearchSystem.deliversFresh, hx, hgen, hcacheable] using hallowed
      obtain rfl := Option.some.inj hstep
      refine { hdelivered with running := fun y hy => ?_, cached := hdelivered.cached }
      rw [deliver_running]
      exact h.running y (List.mem_of_mem_eraseIdx hy)
    next => contradiction
  | changeDatabase database => exact Option.some.inj hstep ▸ { h with cached := h.cached }
  | invalidate =>
    obtain rfl := Option.some.inj hstep
    exact {
      stored := h.stored
      served := h.served
      issued := fun request hrequest => (h.issued request hrequest).trans (Nat.le_succ _)
      running := fun x hx => ⟨(h.running x hx).1, (h.running x hx).2.trans (Nat.le_succ _)⟩
      cached := fun hsome => by contradiction }

/-- In every run that delivers only fresh pages to the cache, no page that was read before an
invalidation is cached after it or serves a search requested after it. -/
theorem current_of_reaches {hash : UInt64} {database : Database}
    (h : System.Reaches (step reads) (fun s a => s.deliversFresh a = true)
      (initial hash database) s) : s.Fresh := by
  have hinit : Invariant (initial hash database : SearchSystem Database Entry Continuation) :=
    ⟨⟨by simp [initial], by simp [initial]⟩, by simp [initial], by simp [initial], by simp [initial]⟩
  exact (h.invariant hinit fun _ _ _ hinv hallowed hstep => hinv.step hallowed hstep).toFresh

/-- A database of so many games, none of which is listed. -/
private def countReads : Reads ℕ Unit Unit where
  gameId _ := 0
  findGames count _ := .ok ([], count)
  firstMatches _ _ _ := .ok []
  openingStats count _ _ := .ok ⟨[], count⟩

private def staleActions : List (SearchAction ℕ) :=
  [.search 0 {}, .begin 0, .read 0, .read 0, .read 0, .changeDatabase 1, .invalidate, .deliver 0,
    .search 0 {}]

/-- A page in flight at an invalidation is cached by its delivery and serves the next search. -/
theorem stale_page_served : ∃ s : SearchSystem ℕ Unit Unit,
    System.Reaches (step countReads) (fun _ _ => True) (initial 0 0) s ∧
      s.served = [(0, 0), (1, 0)] ∧ s.presenter.state.totalGames = 0 ∧ s.database = 1 ∧ ¬ s.Fresh := by
  have hrun : (System.run (step countReads) (fun _ _ => True) (initial 0 0) staleActions).map
      (fun s => (s.served, s.presenter.state.totalGames, s.database)) =
      some ([(0, 0), (1, 0)], 0, 1) := by decide +kernel
  obtain ⟨s, hs, heq⟩ := Option.map_eq_some_iff.mp hrun
  simp only [Prod.mk.injEq] at heq
  obtain ⟨hserved, htotal, hdatabase⟩ := heq
  refine ⟨s, System.reaches_of_run hs, hserved, htotal, hdatabase, fun hfresh => ?_⟩
  have := hfresh.served (1, 0) (by simp [hserved])
  omega

theorem current_of_reaches_sample : ∃ s : SearchSystem ℕ Unit Unit,
    s.served = [(0, 0), (0, 0), (1, 1)] ∧ s.Fresh := by
  have hrun : (System.run (step countReads) (fun s a => s.deliversFresh a = true) (initial 0 0)
      [.search 0 {}, .begin 0, .read 0, .read 0, .read 0, .deliver 0, .search 0 {}, .invalidate,
        .search 0 {}, .begin 1, .read 0, .read 0, .read 0, .deliver 0]).map (fun s => s.served) =
      some [(0, 0), (0, 0), (1, 1)] := by decide +kernel
  obtain ⟨s, hs, hserved⟩ := Option.map_eq_some_iff.mp hrun
  exact ⟨s, hserved, current_of_reaches (System.reaches_of_run hs)⟩

end SearchSystem

end MotifChess.SlintApp
