/- GID: MotifChess/Engine/AnalysisStream
   generality: implementation
   digest: When the subscriber of an analysis receives the engine's reports in order, each once. -/

import MotifChess.Engine.EngineManager
import Mathlib.Data.List.Infix

set_option autoImplicit false
set_option relaxedAutoImplicit false

namespace MotifChess.Engine

universe u

variable {ι : Type u}

section Contract

/-- Every info event in emission order, and then one terminal event. -/
def stream (infos : List ι) (last : Terminal) : List (Event ι) :=
  infos.map Event.info ++ [last.event]

/-- The engine has reported everything, and neither the reader nor `subscribe` owes a call. -/
def State.Finished (s : State ι) : Prop :=
  s.infosToReport = [] ∧ s.lastToReport = none ∧ s.reader = .waiting ∧ s.replay = some ([], none)

instance [DecidableEq ι] (s : State ι) : Decidable s.Finished :=
  inferInstanceAs (Decidable (_ ∧ _ ∧ _ ∧ _))

/-- The subscriber has received a beginning of the stream, and in the end the whole of it. -/
def KeepsContract (infos : List ι) (last : Terminal) (s : State ι) : Prop :=
  s.received <+: stream infos last ∧ (s.Finished → s.received = stream infos last)

/-- The reader calls a callback only when the replay has nothing left, and the engine reports an
error only to a subscriber, on a session whose flag is not raised. -/
def InOrder (s : State ι) : Action → Prop
  | .call => s.replay = some ([], none)
  | .report => match s.reader, s.infosToReport, s.lastToReport with
    | .waiting, [], some (.error _) => s.session.subscribed = true ∧ s.session.terminal = false
    | _, _, _ => True
  | _ => True

instance [DecidableEq ι] (s : State ι) (a : Action) : Decidable (InOrder s a) := by
  unfold InOrder
  split
  · infer_instance
  · split <;> infer_instance
  · infer_instance

end Contract

section Invariant

def Reader.events : Reader ι → List (Event ι)
  | .waiting => []
  | .flagged event => [.complete event]
  | .calling event => [event]

/-- What was reported and stored, and has not been handed to the subscriber. -/
def State.backlog (s : State ι) : List (Event ι) :=
  match s.replay with
  | some (infos, complete) => infos.map .info ++ complete.toList.map .complete
  | none => s.session.infoHistory.map .info ++ s.session.lastComplete.toList.map .complete

def State.unreported (s : State ι) : List (Event ι) :=
  s.infosToReport.map .info ++ s.lastToReport.toList.map Terminal.event

/-- Each event of the stream is in one place, and the places are in the order of the stream. -/
structure Ordered (infos : List ι) (last : Terminal) (s : State ι) : Prop where
  split : s.received ++ s.backlog ++ s.reader.events ++ s.unreported = stream infos last
  replay : s.replay.isSome = s.session.subscribed
  calling : ∀ event, s.reader = .calling event → s.session.subscribed = true
  complete : s.session.lastComplete.isSome → s.infosToReport = [] ∧ s.lastToReport = none
  flagged : ∀ event, s.reader = .flagged event →
    s.session.lastComplete = none ∧ s.infosToReport = [] ∧ s.lastToReport = none

variable {infos : List ι} {last : Terminal} {s t : State ι}

theorem Ordered.init (infos : List ι) (last : Terminal) :
    Ordered infos last (State.init infos last) where
  split := by simp [State.init, State.backlog, State.unreported, Reader.events, stream]
  replay := rfl
  calling event h := by cases h
  complete h := by cases h
  flagged event h := by cases h

private theorem Ordered.keepsContract (h : Ordered infos last s) : KeepsContract infos last s := by
  constructor
  · refine ⟨s.backlog ++ s.reader.events ++ s.unreported, ?_⟩
    rw [← h.split]
    simp only [List.append_assoc]
  · intro hfinished
    obtain ⟨hinfos, hlast, hreader, hreplay⟩ := hfinished
    have hsplit := h.split
    rw [State.backlog, State.unreported, hinfos, hlast, hreader, hreplay] at hsplit
    simpa [Reader.events] using hsplit

private theorem callback_ne_flagged (s : State ι) (event : Event ι) (flagged : CompleteEvent) :
    s.callback event ≠ .flagged flagged := by
  intro h
  rw [State.callback] at h
  split at h <;> cases h

private theorem subscribed_of_callback {event called : Event ι}
    (h : s.callback event = .calling called) : s.session.subscribed = true := by
  rw [State.callback] at h
  split at h
  · assumption
  · cases h

private theorem backlog_of_unsubscribed (h : Ordered infos last s)
    (hsubscribed : s.session.subscribed = false) : s.replay = none := by
  have hreplay := h.replay
  rw [hsubscribed] at hreplay
  exact Option.not_isSome_iff_eq_none.mp (by simp [hreplay])

private theorem Ordered.reportInfo (h : Ordered infos last s) (hreader : s.reader = .waiting) {event : ι}
    {rest : List ι} (hinfos : s.infosToReport = event :: rest) :
    Ordered infos last ({ s with infosToReport := rest }.onInfo event) := by
  have hnone : s.session.lastComplete = none := by
    by_contra hsome
    have hnil := (h.complete (Option.isSome_iff_ne_none.mpr hsome)).1
    rw [hinfos] at hnil
    cases hnil
  constructor
  · rw [← h.split]
    cases hsubscribed : s.session.subscribed with
    | true =>
      have hsome := h.replay
      rw [hsubscribed] at hsome
      obtain ⟨left, hleft⟩ := Option.isSome_iff_exists.mp hsome
      simp [State.onInfo, State.backlog, State.unreported, State.callback, hsubscribed, hleft,
        hreader, hinfos, Reader.events]
    | false =>
      have hreplay := backlog_of_unsubscribed h hsubscribed
      simp [State.onInfo, State.backlog, State.unreported, State.callback, hsubscribed, hreplay,
        hreader, hinfos, hnone, Reader.events]
  · exact h.replay
  · intro called hcalled
    exact subscribed_of_callback (s := s) hcalled
  · intro hsome
    rw [State.onInfo, hnone] at hsome
    cases hsome
  · intro flagged hflagged
    exact absurd hflagged (callback_ne_flagged _ _ _)

private theorem Ordered.reportBestmove (h : Ordered infos last s) (hreader : s.reader = .waiting)
    (hinfos : s.infosToReport = []) {best : BestMove}
    (hlast : s.lastToReport = some (.bestmove best)) :
    Ordered infos last ({ s with lastToReport := none }.onBestmove best) := by
  have hnone : s.session.lastComplete = none := by
    by_contra hsome
    have hnil := (h.complete (Option.isSome_iff_ne_none.mpr hsome)).2
    rw [hlast] at hnil
    cases hnil
  constructor
  · rw [← h.split]
    simp [State.onBestmove, State.backlog, State.unreported, hreader, hinfos, hlast, Reader.events,
      Terminal.event]
  · exact h.replay
  · intro called hcalled
    cases hcalled
  · intro hsome
    rw [State.onBestmove, hnone] at hsome
    cases hsome
  · intro flagged _
    exact ⟨hnone, hinfos, rfl⟩

private theorem Ordered.reportError (h : Ordered infos last s) (hreader : s.reader = .waiting)
    (hinfos : s.infosToReport = []) {message : String}
    (hlast : s.lastToReport = some (.error message)) (hsubscribed : s.session.subscribed = true)
    (hterminal : s.session.terminal = false) :
    Ordered infos last ({ s with lastToReport := none }.onError message) := by
  have hnone : s.session.lastComplete = none := by
    by_contra hsome
    have hnil := (h.complete (Option.isSome_iff_ne_none.mpr hsome)).2
    rw [hlast] at hnil
    cases hnil
  have herror : { s with lastToReport := none }.onError message = { s with
      lastToReport := none
      session := { s.session with terminal := true }
      reader := .calling (.error (errorEvent message)) } := by
    simp [State.onError, hterminal, State.callback, hsubscribed]
  rw [herror]
  constructor
  · rw [← h.split]
    simp [State.backlog, State.unreported, hreader, hinfos, hlast, Reader.events, Terminal.event]
  · exact h.replay
  · intro called _
    exact hsubscribed
  · intro hsome
    rw [hnone] at hsome
    cases hsome
  · intro flagged hflagged
    cases hflagged

theorem Ordered.report (h : Ordered infos last s) (hallowed : InOrder s .report)
    (hstep : s.report = some t) : Ordered infos last t := by
  rw [State.report] at hstep
  split at hstep
  · next event rest hreader hinfos =>
    obtain rfl := Option.some.inj hstep
    exact h.reportInfo hreader hinfos
  · next best hreader hinfos hlast =>
    obtain rfl := Option.some.inj hstep
    exact h.reportBestmove hreader hinfos hlast
  · next message hreader hinfos hlast =>
    obtain rfl := Option.some.inj hstep
    simp only [InOrder, hreader, hinfos, hlast] at hallowed
    exact h.reportError hreader hinfos hlast hallowed.1 hallowed.2
  · cases hstep

theorem Ordered.storeComplete (h : Ordered infos last s) (hstep : s.storeComplete = some t) :
    Ordered infos last t := by
  rw [State.storeComplete] at hstep
  split at hstep
  · next event hreader =>
    obtain rfl := Option.some.inj hstep
    obtain ⟨hnone, hinfos, hlast⟩ := h.flagged event hreader
    constructor
    · rw [← h.split]
      cases hsubscribed : s.session.subscribed with
      | true =>
        have hsome := h.replay
        rw [hsubscribed] at hsome
        obtain ⟨left, hleft⟩ := Option.isSome_iff_exists.mp hsome
        simp [State.backlog, State.unreported, State.callback, hsubscribed, hleft, hreader,
          Reader.events]
      | false =>
        have hreplay := backlog_of_unsubscribed h hsubscribed
        simp [State.backlog, State.unreported, State.callback, hsubscribed, hreplay, hreader,
          hnone, Reader.events]
    · exact h.replay
    · intro called hcalled
      exact subscribed_of_callback (s := s) hcalled
    · intro _
      exact ⟨hinfos, hlast⟩
    · intro flagged hflagged
      exact absurd hflagged (callback_ne_flagged _ _ _)
  · cases hstep

theorem Ordered.call (h : Ordered infos last s) (hallowed : InOrder s .call)
    (hstep : s.call = some t) : Ordered infos last t := by
  have hreplay : s.replay = some ([], none) := hallowed
  rw [State.call] at hstep
  split at hstep
  · next event hreader =>
    obtain rfl := Option.some.inj hstep
    constructor
    · rw [← h.split]
      simp [State.backlog, State.unreported, hreplay, hreader, Reader.events]
    · exact h.replay
    · intro called hcalled
      cases hcalled
    · exact h.complete
    · intro flagged hflagged
      cases hflagged
  · cases hstep

theorem Ordered.subscribe (h : Ordered infos last s) (hstep : s.subscribe = some t) :
    Ordered infos last t := by
  rw [State.subscribe] at hstep
  split at hstep
  · next hguard =>
    obtain ⟨_, _, hnone⟩ := hguard
    obtain rfl := Option.some.inj hstep
    constructor
    · rw [← h.split]
      simp [State.backlog, State.unreported, hnone]
    · rfl
    · intro called _
      rfl
    · exact h.complete
    · exact h.flagged
  · cases hstep

theorem Ordered.replayNext (h : Ordered infos last s) (hstep : s.replayNext = some t) :
    Ordered infos last t := by
  have hreplay := h.replay
  rw [State.replayNext] at hstep
  split at hstep
  · next event rest complete hleft =>
    obtain rfl := Option.some.inj hstep
    rw [hleft] at hreplay
    constructor
    · rw [← h.split]
      simp [State.backlog, State.unreported, hleft]
    · exact hreplay
    · exact h.calling
    · exact h.complete
    · exact h.flagged
  · next event hleft =>
    obtain rfl := Option.some.inj hstep
    rw [hleft] at hreplay
    constructor
    · rw [← h.split]
      simp [State.backlog, State.unreported, hleft]
    · exact hreplay
    · exact h.calling
    · exact h.complete
    · exact h.flagged
  · cases hstep

private theorem Ordered.congr (h : Ordered infos last s) (hreceived : t.received = s.received)
    (hreader : t.reader = s.reader) (hreplay : t.replay = s.replay)
    (hinfos : t.infosToReport = s.infosToReport) (hlast : t.lastToReport = s.lastToReport)
    (hsubscribed : t.session.subscribed = s.session.subscribed)
    (hcomplete : t.session.lastComplete = s.session.lastComplete)
    (hhistory : t.session.infoHistory = s.session.infoHistory) : Ordered infos last t := by
  constructor
  · rw [← h.split, State.backlog, State.backlog, State.unreported, State.unreported, hreceived,
      hreader, hreplay, hinfos, hlast, hcomplete, hhistory]
  · rw [hreplay, hsubscribed, h.replay]
  · rw [hreader, hsubscribed]
    exact h.calling
  · rw [hcomplete, hinfos, hlast]
    exact h.complete
  · rw [hreader, hcomplete, hinfos, hlast]
    exact h.flagged

theorem Ordered.step {a : Action} (h : Ordered infos last s) (hallowed : InOrder s a)
    (hstep : step s a = some t) : Ordered infos last t := by
  unfold Engine.step at hstep
  split at hstep
  · cases hstep
  · cases a with
    | insert =>
      simp only at hstep
      split at hstep
      · obtain rfl := Option.some.inj hstep
        exact h.congr rfl rfl rfl rfl rfl rfl rfl rfl
      · cases hstep
    | go succeeded =>
      simp only at hstep
      split at hstep
      · obtain rfl := Option.some.inj hstep
        exact h.congr rfl rfl rfl rfl rfl rfl rfl rfl
      · cases hstep
    | report => exact h.report hallowed hstep
    | storeComplete => exact h.storeComplete hstep
    | call => exact h.call hallowed hstep
    | subscribe => exact h.subscribe hstep
    | replayNext => exact h.replayNext hstep
    | stopAnalysis =>
      simp only [State.stopAnalysis] at hstep
      split at hstep
      · obtain rfl := Option.some.inj hstep
        exact h.congr rfl rfl rfl rfl rfl rfl rfl rfl
      · cases hstep
    | engineStop succeeded =>
      simp only [State.engineStop] at hstep
      split at hstep
      · obtain rfl := Option.some.inj hstep
        exact h.congr rfl rfl rfl rfl rfl rfl rfl rfl
      · cases hstep

end Invariant

section Runs

/-- While no live call overtakes the replay and no error comes unheard, the contract is kept. -/
theorem keepsContract_of_reaches {infos : List ι} {last : Terminal} {s : State ι}
    (h : System.Reaches step InOrder (State.init infos last) s) : KeepsContract infos last s :=
  (h.invariant (Ordered.init infos last) fun _ _ _ hordered hallowed hstep =>
    hordered.step hallowed hstep).keepsContract

private def bestE4 : Terminal := .bestmove ⟨"e2e4", none⟩

/-- One info event before the subscription, one after it, and then the best move. -/
private def orderly : List Action :=
  [.insert, .go true, .report, .subscribe, .report, .replayNext, .call, .report, .storeComplete,
    .call]

theorem keepsContract_of_reaches_sample :
    ∃ s : State ℕ, System.run step InOrder (State.init [1, 2] bestE4) orderly = some s ∧ s.Finished ∧
      KeepsContract [1, 2] bestE4 s := by
  have hrun : (System.run step InOrder (State.init [1, 2] bestE4) orderly).map
      (fun s => decide s.Finished) = some true := by
    decide +kernel
  obtain ⟨s, hs, hfinished⟩ := Option.map_eq_some_iff.mp hrun
  exact ⟨s, hs, of_decide_eq_true hfinished, keepsContract_of_reaches (System.reaches_of_run hs)⟩

/-- The best move is delivered while an earlier info event waits to be replayed. -/
private def overtaking : List Action :=
  [.insert, .go true, .report, .subscribe, .report, .storeComplete, .call, .replayNext]

private theorem received_of_overtaking :
    (System.run step (fun _ _ => True) (State.init [1] bestE4) overtaking).map
      (fun s => (s.received, decide s.Finished)) =
      some ([.complete ⟨"e2e4", none⟩, .info 1], true) := by
  decide +kernel

/-- Some interleaving delivers the best move before an info event that the engine reported first. -/
theorem not_keepsContract :
    ¬∀ (infos : List ℕ) (last : Terminal) (s : State ℕ),
      System.Reaches step (fun _ _ => True) (State.init infos last) s → KeepsContract infos last s := by
  intro hall
  obtain ⟨s, hs, hreceived⟩ := Option.map_eq_some_iff.mp received_of_overtaking
  obtain ⟨hreceived, hfinished⟩ := Prod.mk.inj hreceived
  have hwhole := (hall [1] bestE4 s (System.reaches_of_run hs)).2 (of_decide_eq_true hfinished)
  rw [hreceived] at hwhole
  exact absurd hwhole (by decide)

/-- An engine that fails before anybody has subscribed leaves the subscriber without an end. -/
example : (System.run step (fun _ _ => True) (State.init ([] : List ℕ) (.error "broken pipe"))
    [.insert, .go true, .report, .subscribe]).map (fun s => (s.received, decide s.Finished)) =
    some ([], true) := by
  decide +kernel

end Runs

end MotifChess.Engine
