/- GID: MotifChess/SlintApp/WorkspaceRuns
   generality: implementation
   digest: Runs of the workspace service leak no bundle, and lose no recent database and no setting. -/

import MotifChess.SlintApp.WorkspaceService

set_option autoImplicit false
set_option relaxedAutoImplicit false

namespace MotifChess.SlintApp

open MotifChess.Order MotifChess.System

variable {Bundle : Type} {format : ConfigFormat} {configured : Bool}

namespace WorkspaceService

variable {s t : WorkspaceService Bundle}

section Operations

variable (format configured)

private theorem persistConfig_cases (fault : Option SaveFault) (config : WorkspaceConfig) :
    (∃ message code, s.persistConfig format configured fault config =
      ({ s with errorMessage := message }, .error code)) ∨
    ∃ file copy, s.persistConfig format configured fault config =
        ({ s with configFile := file, copy := copy }, .ok ()) ∧
      (configured = true → copy = .ofSave fault ∧ copy.Describes format config file) := by
  unfold persistConfig
  split
  next hconfigured =>
    rcases saveConfig_cases format fault config s.configFile with
      hfailed | ⟨saved, hsaved, hdescribes⟩
    · rw [hfailed]
      exact .inl ⟨_, _, rfl⟩
    · rw [hsaved]
      exact .inr ⟨saved, _, rfl, fun _ => ⟨rfl, hdescribes⟩⟩
  next hconfigured =>
    exact .inr ⟨s.configFile, s.copy, rfl, fun htrue => absurd htrue hconfigured⟩

theorem enter_cases (fault : Option SaveFault) (bundle : Bundle) (name dirPath : String) :
    (∃ message code, s.enter format configured fault bundle name dirPath =
      ({ (s.acquire bundle).release [bundle] with errorMessage := message }, .error code)) ∨
    ∃ file copy, s.enter format configured fault bundle name dirPath =
        (emplace bundle .persistent name dirPath { s.acquire bundle with
          configFile := file
          copy := copy
          config := pushRecent s.config name dirPath
          log := { (s.acquire bundle).log with history := ⟨name, dirPath⟩ :: s.log.history } },
          .ok ()) ∧
      (configured = true →
        copy = .ofSave fault ∧ copy.Describes format (pushRecent s.config name dirPath) file) := by
  unfold enter
  have hcases := persistConfig_cases format configured (s := s.acquire bundle) fault
    (pushRecent s.config name dirPath)
  rcases hcases with ⟨message, code, hfailed⟩ | ⟨file, copy, hsaved, hdescribes⟩
  · dsimp only
    rw [hfailed]
    exact .inl ⟨_, _, rfl⟩
  · dsimp only
    rw [hsaved]
    exact .inr ⟨file, copy, rfl, hdescribes⟩

theorem setNotationBelow_cases (fault : Option SaveFault) (below : Bool) :
    let set := s.setNotationBelow format configured fault below
    (set.1.db = s.db ∧ set.1.log = s.log) ∧
      set.1.notationBelow = if set.2.isOk then below else s.notationBelow := by
  unfold setNotationBelow
  dsimp only
  generalize hnext : ({ s.config with uiPreferences := _ } : WorkspaceConfig) = nextConfig
  rcases persistConfig_cases format configured (s := s) fault nextConfig with
    ⟨message, code, hfailed⟩ | ⟨file, copy, hsaved, -⟩
  · rw [hfailed]
    exact ⟨⟨rfl, rfl⟩, rfl⟩
  · rw [hsaved]
    refine ⟨⟨rfl, rfl⟩, ?_⟩
    rw [← hnext]
    cases below with
    | true => rfl
    | false => rfl

end Operations

section Accounting

variable (format configured)

/-- A service that holds the bundles it has not let go of, names an active database exactly if there is
one, and whose configuration file is what it takes it for. -/
structure Accounted (s : WorkspaceService Bundle) : Prop where
  bundles : s.log.acquired.Perm (s.log.released ++ s.db.toList)
  active : s.kind = .none ↔ s.db = none
  unnamed : s.db = none → s.displayName = "" ∧ s.activePath = ""
  saved : configured = true → s.copy.Describes format s.config s.configFile

variable {format configured}

private theorem Accounted.setMessage (h : Accounted format configured s) (message : String) :
    Accounted format configured { s with errorMessage := message } :=
  ⟨h.bundles, h.active, h.unnamed, h.saved⟩

theorem Accounted.released (h : Accounted format configured s) :
    s.log.acquired.Perm (s.release s.db.toList).log.released := h.bundles

theorem Accounted.emplace {bundle : Bundle} {kind : DatabaseKind} {name path : String}
    (hbundles : s.log.acquired.Perm (s.log.released ++ s.db.toList ++ [bundle]))
    (hkind : kind ≠ .none)
    (hsaved : configured = true → s.copy.Describes format s.config s.configFile) :
    Accounted format configured (s.emplace bundle kind name path) where
  bundles := hbundles
  active := ⟨fun hnone => absurd hnone hkind, fun hnone => by cases hnone⟩
  unnamed hnone := by cases hnone
  saved := hsaved

theorem Accounted.enter (h : Accounted format configured s) (fault : Option SaveFault)
    (bundle : Bundle) (name dirPath : String) :
    Accounted format configured (s.enter format configured fault bundle name dirPath).1 := by
  have hacquired := h.bundles.append_right [bundle]
  rcases enter_cases format configured (s := s) fault bundle name dirPath with
    ⟨message, code, hfailed⟩ | ⟨file, copy, hentered, hdescribes⟩
  · rw [hfailed]
    refine ⟨hacquired.trans ?_, h.active, h.unnamed, h.saved⟩
    dsimp only [release, acquire]
    rw [List.append_assoc, List.append_assoc]
    exact List.perm_append_comm.append_left _
  · rw [hentered]
    refine Accounted.emplace hacquired ?_ fun hconfigured => (hdescribes hconfigured).2
    intro hnone
    cases hnone

theorem Accounted.fail (h : Accounted format configured s) (message : String)
    (code : SearchErrorCode) : Accounted format configured (s.fail message code).1 :=
  h.setMessage message

theorem Accounted.initial {readable : Bool} {file : Option (List UInt8)} {log : WorkspaceLog Bundle}
    (hlog : log.acquired.Perm log.released) :
    Accounted format configured (initial format configured readable file log) := by
  have hbundles : log.acquired.Perm (log.released ++ ([] : List Bundle)) := by
    rw [List.append_nil]
    exact hlog
  unfold WorkspaceService.initial
  split
  · split
    next config hloaded =>
      refine ⟨hbundles, by simp, fun _ => ⟨rfl, rfl⟩, fun _ => ?_⟩
      cases readable with
      | false => cases hloaded
      | true => exact hloaded
    next e hfailed => exact ⟨hbundles, by simp, fun _ => ⟨rfl, rfl⟩, fun _ => rfl⟩
  next hconfigured =>
    exact ⟨hbundles, by simp, fun _ => ⟨rfl, rfl⟩, fun htrue => absurd htrue hconfigured⟩

theorem Accounted.step (h : Accounted format configured s) {a : WorkspaceAction Bundle}
    (hstep : s.step format configured a = some t) : Accounted format configured t := by
  cases a with
  | createDatabase dirPath name created fault =>
    obtain rfl := Option.some.inj hstep
    unfold createDatabase
    split
    · exact h.fail _ _
    · cases created with
      | error e => exact h.fail _ _
      | ok bundle => exact h.enter fault bundle name dirPath
  | openDatabase dirPath opened fault =>
    obtain rfl := Option.some.inj hstep
    unfold openDatabase
    split
    · exact h.fail _ _
    · cases opened with
      | error e => exact h.fail _ _
      | ok found => exact h.enter fault found.1 found.2 dirPath
  | activateScratch scratch =>
    obtain rfl := Option.some.inj hstep
    cases scratch with
    | error e => exact h.fail _ _
    | ok bundle =>
      refine Accounted.emplace (s := s.acquire bundle) (h.bundles.append_right [bundle]) ?_ h.saved
      intro hnone
      cases hnone
  | closeActive =>
    obtain rfl := Option.some.inj hstep
    refine ⟨?_, by simp [closeActive], fun _ => ⟨rfl, rfl⟩, h.saved⟩
    have hreleased := h.released
    simpa [closeActive, release] using hreleased
  | setNotationBelow below fault =>
    obtain rfl := Option.some.inj hstep
    unfold setNotationBelow
    dsimp only
    generalize ({ s.config with uiPreferences := _ } : WorkspaceConfig) = nextConfig
    rcases persistConfig_cases format configured (s := s) fault nextConfig with
      ⟨message, code, hfailed⟩ | ⟨file, copy, hsaved, hdescribes⟩
    · rw [hfailed]
      exact h.setMessage message
    · rw [hsaved]
      exact ⟨h.bundles, h.active, h.unnamed, fun hconfigured => (hdescribes hconfigured).2⟩
  | restart readable =>
    obtain rfl := Option.some.inj hstep
    exact Accounted.initial h.released

variable (format configured) in
/-- In every run, whatever fails, every bundle that was opened or created is the active one or was let
go once, and as soon as the file was read or written once the next start finds the configuration that is
in memory, or the start of its text if the last flush failed. -/
theorem accounted_of_reaches {readable : Bool} {file : Option (List UInt8)}
    (h : Reaches (step format configured) (fun _ _ => True)
      (initial format configured readable file {}) s) : Accounted format configured s := by
  apply h.invariant
  · exact Accounted.initial (List.Perm.refl _)
  · intro s a t hs _ hstep
    exact hs.step hstep

end Accounting

section Recents

/-- Whether the disk keeps what it takes: a start can read the configuration file, and no save fails
unseen. -/
def keepsConfig : WorkspaceAction Bundle → Bool
  | .restart readable => readable
  | .createDatabase _ _ _ fault => decide (ConfigCopy.ofSave fault = .whole)
  | .openDatabase _ _ fault => decide (ConfigCopy.ofSave fault = .whole)
  | .setNotationBelow _ fault => decide (ConfigCopy.ofSave fault = .whole)
  | _ => true

/-- The recent databases are the latest entries of the openings and creations and of those before them,
one for each path and no more than the bound, and the saved ones are the same. -/
structure Remembers (format : ConfigFormat) (before : List RecentEntry)
    (s : WorkspaceService Bundle) : Prop where
  recents : s.config.recentDatabases =
    (FirstWins.firsts RecentEntry.path (s.log.history ++ before)).take maxRecentCount
  saved : loadConfig format true s.configFile = .ok s.config

variable {before : List RecentEntry}

theorem Remembers.enter (h : Remembers format before s) {fault : Option SaveFault}
    (hwhole : ConfigCopy.ofSave fault = .whole) (bundle : Bundle) (name dirPath : String) :
    Remembers format before (s.enter format true fault bundle name dirPath).1 := by
  rcases enter_cases format true (s := s) fault bundle name dirPath with
    ⟨message, code, hfailed⟩ | ⟨file, copy, hentered, hdescribes⟩
  · rw [hfailed]
    exact ⟨h.recents, h.saved⟩
  · rw [hentered]
    obtain ⟨rfl, hloaded⟩ := hdescribes rfl
    rw [hwhole] at hloaded
    refine ⟨?_, hloaded⟩
    show (pushRecent s.config name dirPath).recentDatabases = _
    rw [pushRecent, h.recents]
    exact FirstWins.moveToFront_take_firsts _ _ _

theorem Remembers.step (h : Remembers format before s) {a : WorkspaceAction Bundle}
    (hallowed : keepsConfig a = true) (hstep : s.step format true a = some t) :
    Remembers format before t := by
  cases a with
  | createDatabase dirPath name created fault =>
    obtain rfl := Option.some.inj hstep
    unfold createDatabase
    split
    · exact ⟨h.recents, h.saved⟩
    · cases created with
      | error e => exact ⟨h.recents, h.saved⟩
      | ok bundle => exact h.enter (of_decide_eq_true hallowed) bundle name dirPath
  | openDatabase dirPath opened fault =>
    obtain rfl := Option.some.inj hstep
    unfold openDatabase
    split
    · exact ⟨h.recents, h.saved⟩
    · cases opened with
      | error e => exact ⟨h.recents, h.saved⟩
      | ok found => exact h.enter (of_decide_eq_true hallowed) found.1 found.2 dirPath
  | activateScratch scratch =>
    obtain rfl := Option.some.inj hstep
    cases scratch with
    | error e => exact ⟨h.recents, h.saved⟩
    | ok bundle => exact ⟨h.recents, h.saved⟩
  | closeActive =>
    obtain rfl := Option.some.inj hstep
    exact ⟨h.recents, h.saved⟩
  | setNotationBelow below fault =>
    obtain rfl := Option.some.inj hstep
    unfold setNotationBelow
    dsimp only
    generalize hnext : ({ s.config with uiPreferences := _ } : WorkspaceConfig) = nextConfig
    rcases persistConfig_cases format true (s := s) fault nextConfig with
      ⟨message, code, hfailed⟩ | ⟨file, copy, hsaved, hdescribes⟩
    · rw [hfailed]
      exact ⟨h.recents, h.saved⟩
    · rw [hsaved]
      obtain ⟨rfl, hloaded⟩ := hdescribes rfl
      rw [of_decide_eq_true hallowed] at hloaded
      refine ⟨?_, hloaded⟩
      rw [← hnext]
      exact h.recents
  | restart readable =>
    obtain rfl := Option.some.inj hstep
    obtain rfl : readable = true := hallowed
    have hinitial : s.restart format true true =
        { config := s.config, configFile := s.configFile, copy := .whole,
          log := (s.release s.db.toList).log } := by
      unfold restart WorkspaceService.initial
      rw [if_pos rfl, h.saved]
    rw [hinitial]
    exact ⟨h.recents, h.saved⟩

/-- In every run, restarts included, the recent databases are those that were opened or created last,
one for each path, each under the name that it was last entered with. -/
theorem remembers_of_reaches {file : Option (List UInt8)} {config : WorkspaceConfig}
    (hloaded : loadConfig format true file = .ok config)
    (hdistinct : (config.recentDatabases.map RecentEntry.path).Nodup)
    (hbound : config.recentDatabases.length ≤ maxRecentCount)
    (h : Reaches (step format true) (fun _ a => keepsConfig a = true)
      (initial format true true file {}) s) :
    Remembers format config.recentDatabases s := by
  apply h.invariant
  · have hinitial : initial format true true file ({} : WorkspaceLog Bundle) =
        { config, configFile := file, copy := .whole } := by
      unfold WorkspaceService.initial
      rw [if_pos rfl, hloaded]
    rw [hinitial]
    refine ⟨?_, hloaded⟩
    dsimp only
    rw [List.nil_append, FirstWins.firsts_of_nodup hdistinct, List.take_of_length_le hbound]
  · intro s a t hs hallowed hstep
    exact hs.step hallowed hstep

end Recents

section Sample

private def homeConfig : WorkspaceConfig := pushRecent {} "Home" "/h"

private def homeText : List UInt8 :=
  ("\x7b\"database_directory\":\"\",\"recent_databases\":[\x7b\"name\":\"Home\",\"path\":\"/h\"\x7d]," ++
    "\"engine_paths\":[],\"ui_preferences\":\x7b\"board_theme\":\"classic\",\"piece_set\":" ++
    "\"standard\",\"prefetch_depth\":5,\"notation_layout\":\"right\"\x7d\x7d").toList.map
      fun char => char.toNat.toUInt8

/-- The text of one configuration; no other is written or read. -/
private def homeFormat : ConfigFormat where
  writeJson config := if config = homeConfig then some homeText else none
  readJson text := if text = homeText then .ok homeConfig else .error "syntax_error"
  readJson_writeJson config text h := by
    split at h
    next hconfig =>
      obtain rfl := Option.some.inj h
      rw [if_pos rfl, hconfig]
    next => cases h

private def homeRun : Option (WorkspaceService ℕ) :=
  run (step homeFormat true) (fun _ a => keepsConfig a = true) (initial homeFormat true true none {})
    [.createDatabase "/g" "Games" (.ok 0) (some .rename), .openDatabase "/h" (.ok (1, "Home")) none,
      .activateScratch (.ok 2), .openDatabase "/h" (.ok (3, "Home")) none, .restart true]

/-- A creation that could not be saved leaves nothing, and a database that is opened twice is remembered
once. -/
theorem remembers_of_reaches_sample : ∃ s, homeRun = some s ∧ Remembers homeFormat [] s ∧
    s.config.recentDatabases = [⟨"Home", "/h"⟩] ∧ s.log.history.length = 2 := by
  have hrun : homeRun.map (fun s => (s.config.recentDatabases, s.log.history.length)) =
      some ([⟨"Home", "/h"⟩], 2) := by
    decide +kernel
  obtain ⟨s, hs, hvalues⟩ := Option.map_eq_some_iff.mp hrun
  obtain ⟨hrecents, hlength⟩ := Prod.mk.inj hvalues
  have hloaded : loadConfig homeFormat true none = .ok {} := rfl
  exact ⟨s, hs, remembers_of_reaches hloaded List.nodup_nil (Nat.zero_le _) (reaches_of_run hs), hrecents,
    hlength⟩

theorem accounted_of_reaches_sample : ∃ s, homeRun = some s ∧ Accounted homeFormat true s ∧
    s.log.acquired = [0, 1, 2, 3] ∧ s.log.released = [0, 1, 2, 3] := by
  have hrun : homeRun.map (fun s => (s.log.acquired, s.log.released)) =
      some ([0, 1, 2, 3], [0, 1, 2, 3]) := by
    decide +kernel
  obtain ⟨s, hs, hvalues⟩ := Option.map_eq_some_iff.mp hrun
  obtain ⟨hacquired, hreleased⟩ := Prod.mk.inj hvalues
  have hreaches : Reaches (step homeFormat true) (fun _ _ => True)
      (initial homeFormat true true none {}) s := (reaches_of_run hs).mono fun _ _ _ => trivial
  exact ⟨s, hs, accounted_of_reaches homeFormat true hreaches, hacquired, hreleased⟩

end Sample

end WorkspaceService

end MotifChess.SlintApp
