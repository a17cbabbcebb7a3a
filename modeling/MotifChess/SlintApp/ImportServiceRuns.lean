/- GID: MotifChess/SlintApp/ImportServiceRuns
   generality: implementation
   digest: In every interleaving one import runs on a pipeline that exists, and no cancel is lost. -/

import MotifChess.SlintApp.ImportService

set_option autoImplicit false
set_option relaxedAutoImplicit false

namespace MotifChess.SlintApp

open MotifChess.Import MotifChess.System

/-- Whether a thread has an import to end. -/
def ImportThread.working : ImportThread → Bool
  | .fresh => true
  | .running _ => true
  | .returned _ _ => true
  | _ => false

/-- The steps that a thread has left, its pipeline's counting aside. -/
def ImportThread.remaining : ImportThread → ℕ
  | .fresh => 3
  | .running _ => 2
  | .returned _ _ => 1
  | _ => 0

namespace ImportService

variable {s t : ImportService}

/-- What an import that ended is shown as: as its result says, and as canceled only if that was asked
for. -/
inductive Ended (s : ImportService) : Prop
  | never (hlast : s.last = none) (hstate : s.snapshot.state = .idle)
  | succeeded (summary : ImportSummary) (hlast : s.last = some (.ok summary))
      (hstate : s.snapshot.state = if s.cancelRequested then .canceled else .completed)
      (hcounts : s.snapshot.committed = summary.committed ∧ s.snapshot.skipped = summary.skipped ∧
        s.snapshot.errors = summary.errors)
  | failed (error : ImportError) (hlast : s.last = some (.error error))
      (hstate : s.snapshot.state = .failed) (hmessage : s.snapshot.errorMessage = error.shown)

/-- A service that is active exactly while a start or a thread has an import to end, whose thread points
to the pipeline of that import, and whose cancel reached that pipeline. -/
structure Coherent (s : ImportService) : Prop where
  active : s.active = true ↔ s.starting = .prepared ∨ s.thread.working = true
  alive : s.pipeline.isSome ↔ s.active = true
  exclusive : s.starting ≠ .free → s.thread.working = false
  joined : s.starting = .joined ∨ s.starting = .prepared → s.thread = .absent
  pointer : ∀ number, s.thread = .running number → number = s.pipeline.map SharedPipeline.number
  canceling : s.snapshot.state = .canceling ↔ s.active = true ∧ s.cancelRequested = true
  stopped : ∀ pipeline, s.pipeline = some pipeline → pipeline.stopRequested = s.cancelRequested
  ended : s.active = false → Ended s

section Steps

theorem Ended.congr (h : Ended s) (hlast : t.last = s.last) (hsnapshot : t.snapshot = s.snapshot)
    (hcancel : t.cancelRequested = s.cancelRequested) : Ended t := by
  cases h with
  | never hnone hstate => exact .never (hlast.trans hnone) (hsnapshot ▸ hstate)
  | succeeded summary hsome hstate hcounts =>
    exact .succeeded summary (hlast.trans hsome) (by rw [hsnapshot, hcancel, hstate])
      (hsnapshot ▸ hcounts)
  | failed error hsome hstate hmessage =>
    exact .failed error (hlast.trans hsome) (hsnapshot ▸ hstate) (hsnapshot ▸ hmessage)

theorem coherent_new : Coherent {} where
  active := by simp [ImportService.active, ImportState.active, ImportThread.working]
  alive := by simp [ImportService.active, ImportState.active]
  exclusive h := absurd rfl h
  joined h := by simp at h
  pointer _ h := by cases h
  canceling := by simp
  stopped _ h := by cases h
  ended _ := .never rfl rfl

theorem Coherent.checkStart (h : Coherent s) (hstep : s.checkStart = some t) : Coherent t := by
  unfold ImportService.checkStart at hstep
  split at hstep
  next hfree =>
    obtain rfl := Option.some.inj hstep
    split
    next => exact h
    next hactive =>
      have hinactive : s.active = false := by simpa using hactive
      have hidle : s.thread.working = false := by
        rw [← Bool.not_eq_true]
        exact fun hworking => hactive (h.active.mpr (.inr hworking))
      refine ⟨?_, h.alive, fun _ => hidle, fun hjoined => ?_, h.pointer, h.canceling, h.stopped,
        fun _ => (h.ended hinactive).congr rfl rfl rfl⟩
      · refine iff_of_false hactive ?_
        rintro (hprepared | hworking)
        · cases hprepared
        · exact absurd (hidle.symm.trans hworking) Bool.false_ne_true
      · rcases hjoined with hjoined | hjoined
        · cases hjoined
        · cases hjoined
  next => cases hstep

theorem Coherent.joinThread (h : Coherent s) (hstep : s.joinThread = some t) : Coherent t := by
  unfold ImportService.joinThread at hstep
  split at hstep
  next hstarting hthread =>
    obtain rfl := Option.some.inj hstep
    refine ⟨?_, h.alive, fun _ => ?_, fun _ => hthread, h.pointer, h.canceling, h.stopped,
      fun hinactive => (h.ended hinactive).congr rfl rfl rfl⟩
    · refine h.active.trans ?_
      simp [hstarting]
    · exact h.exclusive (by rw [hstarting]; decide)
  next hstarting hthread =>
    obtain rfl := Option.some.inj hstep
    refine ⟨?_, h.alive, fun _ => rfl, fun _ => rfl, fun _ hnone => ?_, h.canceling, h.stopped,
      fun hinactive => (h.ended hinactive).congr rfl rfl rfl⟩
    · refine h.active.trans ?_
      simp [hstarting, hthread, ImportThread.working]
    · cases hnone
  next => cases hstep

theorem Coherent.prepareStart (h : Coherent s) (hstep : s.prepareStart = some t) : Coherent t := by
  unfold ImportService.prepareStart at hstep
  split at hstep
  next hstarting =>
    obtain rfl := Option.some.inj hstep
    have hthread : s.thread = .absent := h.joined (.inl hstarting)
    refine ⟨?_, ?_, fun _ => ?_, fun _ => hthread, fun _ hnone => ?_, ?_, fun pipeline hpipeline => ?_,
      fun hinactive => ?_⟩
    · exact iff_of_true rfl (.inl rfl)
    · exact iff_of_true rfl rfl
    · rw [hthread]
      rfl
    · cases hthread.symm.trans hnone
    · simp
    · obtain rfl := Option.some.inj hpipeline
      rfl
    · cases hinactive
  next => cases hstep

theorem Coherent.spawnThread (h : Coherent s) (hstep : s.spawnThread = some t) : Coherent t := by
  unfold ImportService.spawnThread at hstep
  split at hstep
  next hstarting =>
    obtain rfl := Option.some.inj hstep
    have hactive : s.active = true := h.active.mpr (.inl hstarting)
    refine ⟨?_, h.alive, fun hfree => absurd rfl hfree, fun hjoined => ?_, fun _ hnone => ?_,
      h.canceling, h.stopped, fun hinactive => ?_⟩
    · exact iff_of_true hactive (.inr rfl)
    · rcases hjoined with hjoined | hjoined
      · cases hjoined
      · cases hjoined
    · cases hnone
    · exact absurd (hinactive.symm.trans hactive) Bool.false_ne_true
  next => cases hstep

theorem Coherent.requestCancel (h : Coherent s) : Coherent s.requestCancel := by
  unfold ImportService.requestCancel
  split
  next hactive =>
    refine ⟨?_, ?_, h.exclusive, h.joined, fun number hrunning => ?_, ?_, fun pipeline hpipeline => ?_,
      fun hinactive => ?_⟩
    · exact iff_of_true rfl (h.active.mp hactive)
    · refine iff_of_true ?_ rfl
      simpa using h.alive.mpr hactive
    · rw [h.pointer number hrunning, Option.map_map]
      rfl
    · exact iff_of_true rfl ⟨rfl, rfl⟩
    · obtain ⟨old, -, rfl⟩ := Option.map_eq_some_iff.mp hpipeline
      rfl
    · cases hinactive
  next => exact h

theorem Coherent.fetchPipeline (h : Coherent s) (hstep : s.fetchPipeline = some t) : Coherent t := by
  unfold ImportService.fetchPipeline at hstep
  split at hstep
  next hthread =>
    obtain rfl := Option.some.inj hstep
    have hworking : s.thread.working = true := by
      rw [hthread]
      rfl
    have hactive : s.active = true := h.active.mpr (.inr hworking)
    refine ⟨?_, h.alive, fun hfree => ?_, fun hjoined => ?_, fun number hrunning => ?_, h.canceling,
      h.stopped, fun hinactive => ?_⟩
    · exact iff_of_true hactive (.inr rfl)
    · exact absurd (h.exclusive hfree ▸ hworking) Bool.false_ne_true
    · cases hthread.symm.trans (h.joined hjoined)
    · exact (ImportThread.running.inj hrunning).symm
    · exact absurd (hinactive.symm.trans hactive) Bool.false_ne_true
  next => cases hstep

private theorem threadPipeline_eq_some {pipeline : SharedPipeline} (h : s.threadPipeline = some pipeline) :
    s.pipeline = some pipeline ∧ s.thread = .running (some pipeline.number) := by
  unfold threadPipeline at h
  split at h
  next number hthread =>
    obtain ⟨hpipeline, hnumber⟩ := Option.filter_eq_some_iff.mp h
    exact ⟨hpipeline, by rw [hthread, ← of_decide_eq_true hnumber]⟩
  next => cases h

theorem Coherent.advance (h : Coherent s) {progress : ImportProgress}
    (hstep : s.advance progress = some t) : Coherent t := by
  obtain ⟨pipeline, hthread, rfl⟩ := Option.map_eq_some_iff.mp hstep
  obtain ⟨hpipeline, hrunning⟩ := threadPipeline_eq_some hthread
  have hactive : s.active = true := h.alive.mp (by rw [hpipeline]; rfl)
  refine ⟨h.active, ?_, h.exclusive, h.joined, fun number hnumber => ?_, h.canceling,
    fun other hother => ?_, fun hinactive => ?_⟩
  · exact iff_of_true rfl hactive
  · rw [h.pointer number hnumber, hpipeline]
    rfl
  · obtain rfl := Option.some.inj hother
    exact h.stopped pipeline hpipeline
  · exact absurd (hinactive.symm.trans hactive) Bool.false_ne_true

theorem Coherent.returnResult (h : Coherent s) {result : ImportResult}
    (hstep : s.returnResult result = some t) : Coherent t := by
  obtain ⟨pipeline, hthread, rfl⟩ := Option.map_eq_some_iff.mp hstep
  obtain ⟨hpipeline, hrunning⟩ := threadPipeline_eq_some hthread
  have hworking : s.thread.working = true := by
    rw [hrunning]
    rfl
  have hactive : s.active = true := h.active.mpr (.inr hworking)
  refine ⟨?_, h.alive, fun hfree => ?_, fun hjoined => ?_, fun _ hnone => ?_, h.canceling, h.stopped,
    fun hinactive => ?_⟩
  · exact iff_of_true hactive (.inr rfl)
  · exact absurd (h.exclusive hfree ▸ hworking) Bool.false_ne_true
  · cases hrunning.symm.trans (h.joined hjoined)
  · cases hnone
  · exact absurd (hinactive.symm.trans hactive) Bool.false_ne_true

theorem Coherent.endThread (h : Coherent s) (hstep : s.endThread = some t) : Coherent t := by
  unfold ImportService.endThread at hstep
  split at hstep
  next progress result hthread =>
    obtain rfl := Option.some.inj hstep
    have hworking : s.thread.working = true := by
      rw [hthread]
      rfl
    have hfree : s.starting = .free := by
      by_contra hheld
      exact Bool.false_ne_true (h.exclusive hheld ▸ hworking)
    have hfinal : (finalSnapshot progress result s.cancelRequested s.snapshot).state.active = false ∧
        (finalSnapshot progress result s.cancelRequested s.snapshot).state ≠ .canceling := by
      cases result with
      | error e => exact ⟨rfl, fun hcanceling => by cases hcanceling⟩
      | ok summary =>
        simp only [finalSnapshot]
        cases s.cancelRequested with
        | false => exact ⟨rfl, by decide⟩
        | true => exact ⟨rfl, by decide⟩
    have hinactive : ¬(finalSnapshot progress result s.cancelRequested s.snapshot).state.active = true := by
      rw [hfinal.1]
      exact Bool.false_ne_true
    refine ⟨?_, ?_, fun _ => rfl, fun hjoined => ?_, fun _ hnone => ?_, ?_, fun _ hnone => ?_, fun _ => ?_⟩
    · refine iff_of_false hinactive ?_
      rintro (hprepared | hended)
      · cases hfree.symm.trans hprepared
      · cases hended
    · refine iff_of_false ?_ hinactive
      exact Bool.false_ne_true
    · rcases hjoined with hjoined | hjoined
      · cases hfree.symm.trans hjoined
      · cases hfree.symm.trans hjoined
    · cases hnone
    · exact iff_of_false hfinal.2 fun hboth => hinactive hboth.1
    · cases hnone
    · cases result with
      | error e => exact .failed e rfl rfl rfl
      | ok summary => exact .succeeded summary rfl rfl ⟨rfl, rfl, rfl⟩
  next => cases hstep

theorem Coherent.step (h : Coherent s) {a : ImportServiceAction} (hstep : s.step a = some t) :
    Coherent t := by
  cases a with
  | checkStart => exact h.checkStart hstep
  | joinThread => exact h.joinThread hstep
  | prepareStart => exact h.prepareStart hstep
  | spawnThread => exact h.spawnThread hstep
  | requestCancel => exact Option.some.inj hstep ▸ h.requestCancel
  | fetchPipeline => exact h.fetchPipeline hstep
  | advance progress => exact h.advance hstep
  | returnResult result => exact h.returnResult hstep
  | endThread => exact h.endThread hstep

end Steps

section Runs

theorem Coherent.of_start (h : Coherent s) {hasDatabase pathEmpty : Bool}
    {result : Except ImportErrorCode Unit}
    (hstart : s.start hasDatabase pathEmpty = some (t, result)) : Coherent t := by
  unfold ImportService.start at hstart
  split at hstart
  · obtain ⟨rfl, -⟩ := Prod.mk.inj (Option.some.inj hstart)
    exact h
  · split at hstart
    · obtain ⟨u, hcheck, hpair⟩ := Option.map_eq_some_iff.mp hstart
      obtain ⟨rfl, -⟩ := Prod.mk.inj hpair
      exact h.checkStart hcheck
    · obtain ⟨u, hspawn, hpair⟩ := Option.map_eq_some_iff.mp hstart
      obtain ⟨rfl, -⟩ := Prod.mk.inj hpair
      obtain ⟨prepared, hprepare, hspawn⟩ := Option.bind_eq_some_iff.mp hspawn
      obtain ⟨joined, hjoin, hprepare⟩ := Option.bind_eq_some_iff.mp hprepare
      obtain ⟨checked, hcheck, hjoin⟩ := Option.bind_eq_some_iff.mp hjoin
      exact (((h.checkStart hcheck).joinThread hjoin).prepareStart hprepare).spawnThread hspawn

theorem Coherent.start (h : Coherent s) (hfree : s.starting = .free) (hasDatabase pathEmpty : Bool) :
    ∃ t result, s.start hasDatabase pathEmpty = some (t, result) ∧
      ((result = .ok () ∧ t.active = true ∧ t.starting = .free ∧ t.thread = .fresh ∧
          hasDatabase = true ∧ s.active = false) ∨
        ∃ code, result = .error code ∧ t = s) := by
  unfold ImportService.start
  split
  next code _ => exact ⟨s, .error code, rfl, .inr ⟨code, rfl, rfl⟩⟩
  next hrefusal =>
    have hdatabase : hasDatabase = true := by
      unfold refusal at hrefusal
      split at hrefusal
      · cases hrefusal
      · next hsome => simpa using hsome
    split
    next hactive =>
      refine ⟨s, .error .busy, ?_, .inr ⟨.busy, rfl, rfl⟩⟩
      rw [ImportService.checkStart, if_pos hfree, if_pos hactive, Option.map_some]
    next hactive =>
      have hinactive : s.active = false := by simpa using hactive
      have hthread : s.thread = .absent ∨ s.thread = .ended := by
        have hidle : ¬s.thread.working = true := fun hworking => hactive (h.active.mpr (.inr hworking))
        cases hthread : s.thread with
        | absent => exact .inl rfl
        | ended => exact .inr rfl
        | fresh => simp [hthread, ImportThread.working] at hidle
        | running number => simp [hthread, ImportThread.working] at hidle
        | returned progress result => simp [hthread, ImportThread.working] at hidle
      rw [ImportService.checkStart, if_pos hfree, if_neg hactive, Option.bind_some]
      refine ⟨{ s with
        starting := .free
        thread := .fresh
        pipeline := some { number := s.pipelines }
        pipelines := s.pipelines + 1
        snapshot := { state := .running }
        cancelRequested := false }, .ok (), ?_,
        .inl ⟨rfl, rfl, rfl, rfl, hdatabase, hinactive⟩⟩
      rcases hthread with hthread | hthread
      · simp [ImportService.joinThread, ImportService.prepareStart, ImportService.spawnThread, hthread]
      · simp [ImportService.joinThread, ImportService.prepareStart, ImportService.spawnThread, hthread]

theorem active_requestCancel : s.requestCancel.active = s.active := by
  unfold ImportService.requestCancel
  split
  · next hactive => rw [hactive]; rfl
  · rfl

theorem starting_requestCancel : s.requestCancel.starting = s.starting := by
  unfold ImportService.requestCancel
  split
  · rfl
  · rfl

section Threads

/-- What a thread of an import leaves as it is: the start, and that no import is active. -/
def Follows (s t : ImportService) : Prop :=
  t.starting = s.starting ∧ (t.active = true → s.active = true)

theorem follows_fetchPipeline (hstep : s.fetchPipeline = some t) :
    Follows s t ∧ t.thread.remaining < s.thread.remaining := by
  unfold ImportService.fetchPipeline at hstep
  split at hstep
  next hthread =>
    obtain rfl := Option.some.inj hstep
    refine ⟨⟨rfl, id⟩, ?_⟩
    rw [hthread]
    exact Nat.lt_succ_self 2
  next => cases hstep

theorem follows_advance {progress : ImportProgress} (hstep : s.advance progress = some t) :
    Follows s t := by
  obtain ⟨pipeline, -, rfl⟩ := Option.map_eq_some_iff.mp hstep
  exact ⟨rfl, id⟩

theorem follows_returnResult {result : ImportResult} (hstep : s.returnResult result = some t) :
    Follows s t ∧ t.thread.remaining < s.thread.remaining := by
  obtain ⟨pipeline, hpipeline, rfl⟩ := Option.map_eq_some_iff.mp hstep
  refine ⟨⟨rfl, id⟩, ?_⟩
  rw [(threadPipeline_eq_some hpipeline).2]
  exact Nat.lt_succ_self 1

theorem follows_endThread (hstep : s.endThread = some t) :
    Follows s t ∧ t.thread.remaining < s.thread.remaining := by
  unfold ImportService.endThread at hstep
  split at hstep
  next progress result hthread =>
    obtain rfl := Option.some.inj hstep
    refine ⟨⟨rfl, fun hactive => ?_⟩, ?_⟩
    · unfold ImportService.active finalSnapshot at hactive
      split at hactive
      · split at hactive
        · cases hactive
        · cases hactive
      · cases hactive
    · rw [hthread]
      exact Nat.one_pos
  next => cases hstep

end Threads

theorem Coherent.progress (h : Coherent s) (hactive : s.active = true) (result : ImportResult) :
    s.spawnThread.isSome ∨ s.fetchPipeline.isSome ∨ (s.returnResult result).isSome ∨
      s.endThread.isSome := by
  rcases h.active.mp hactive with hprepared | hworking
  · left
    rw [ImportService.spawnThread, if_pos hprepared]
    rfl
  · right
    cases hthread : s.thread with
    | absent => simp [hthread, ImportThread.working] at hworking
    | ended => simp [hthread, ImportThread.working] at hworking
    | fresh =>
      left
      rw [ImportService.fetchPipeline, if_pos hthread]
      rfl
    | running number =>
      right
      left
      obtain ⟨pipeline, hpipeline⟩ := Option.isSome_iff_exists.mp (h.alive.mpr hactive)
      have hnumber := h.pointer number hthread
      rw [hpipeline] at hnumber
      subst hnumber
      simp [ImportService.returnResult, threadPipeline, hthread, hpipeline]
    | returned progress other =>
      right
      right
      simp [ImportService.endThread, hthread]

/-- In every interleaving of starts, cancels and the threads of imports, a start is never held up, what
is active can go on, and the service is coherent: no thread uses a pipeline that is gone, no cancel of an
active import misses its pipeline, and what is shown at the end is what came out. -/
theorem coherent_of_reaches (h : Reaches step (fun _ _ => True) {} s) :
    Coherent s ∧
    (s.starting = .free → ∀ hasDatabase pathEmpty, (s.start hasDatabase pathEmpty).isSome) ∧
    (s.active = true → ∀ result, s.spawnThread.isSome ∨ s.fetchPipeline.isSome ∨
      (s.returnResult result).isSome ∨ s.endThread.isSome) := by
  have hcoherent : Coherent s := by
    apply h.invariant
    · exact coherent_new
    · intro s a t hs _ hstep
      exact hs.step hstep
  refine ⟨hcoherent, fun hfree hasDatabase pathEmpty => ?_, hcoherent.progress⟩
  obtain ⟨t, result, hstart, -⟩ := hcoherent.start hfree hasDatabase pathEmpty
  rw [hstart]
  rfl

/-- A cancel between the set-up of an import and its thread reaches the pipeline, and the import ends as
canceled. -/
theorem coherent_of_reaches_sample : ∃ s : ImportService,
    run step (fun _ _ => True) {} [.checkStart, .joinThread, .prepareStart, .requestCancel,
      .spawnThread, .fetchPipeline, .advance { gamesCommitted := 3 },
      .returnResult (.ok ⟨3, 2, 1, 0, 1⟩), .endThread] = some s ∧
    Coherent s ∧ s.snapshot.state = .canceled ∧ s.snapshot.committed = 2 := by
  have hrun : (run step (fun _ _ => True) ({} : ImportService) [.checkStart, .joinThread,
      .prepareStart, .requestCancel, .spawnThread, .fetchPipeline, .advance { gamesCommitted := 3 },
      .returnResult (.ok ⟨3, 2, 1, 0, 1⟩), .endThread]).map
        (fun s => (s.snapshot.state, s.snapshot.committed)) = some (.canceled, 2) := by
    decide +kernel
  obtain ⟨s, hs, hvalues⟩ := Option.map_eq_some_iff.mp hrun
  obtain ⟨hstate, hcommitted⟩ := Prod.mk.inj hvalues
  exact ⟨s, hs, (coherent_of_reaches (reaches_of_run hs)).1, hstate, hcommitted⟩

end Runs

end ImportService

end MotifChess.SlintApp
