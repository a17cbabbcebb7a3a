/- GID: MotifChess/Import/ImportAccounting
   generality: implementation
   digest: When the counts of an import add up, and agree with the games that it has stored. -/

import MotifChess.Import.Progress

set_option autoImplicit false
set_option relaxedAutoImplicit false

namespace MotifChess.Import

open MotifChess.Chess MotifChess.Db MotifChess.Order.FirstWins

section Store

/-- How many different games the tables hold. -/
def distinctGames (t : Tables) : ℕ := (t.games.map GameRow.identity).dedup.length

private theorem distinctGames_le (t : Tables) : distinctGames t ≤ t.games.length := by
  have hle := (List.dedup_sublist (t.games.map GameRow.identity)).length_le
  rwa [List.length_map] at hle

private theorem distinctGames_eq_iff (t : Tables) : distinctGames t = t.games.length ↔ t.Unique := by
  have hlength : (t.games.map GameRow.identity).length = t.games.length := List.length_map _
  rw [Tables.Unique, ← List.dedup_eq_self, distinctGames, ← hlength]
  constructor
  · exact (List.dedup_sublist _).eq_of_length
  · exact congrArg List.length

private theorem length_dedup_congr {κ : Type} [DecidableEq κ] {l l' : List κ}
    (h : ∀ k, k ∈ l ↔ k ∈ l') : l.dedup.length = l'.dedup.length := by
  refine ((List.perm_ext_iff_of_nodup (List.nodup_dedup _) (List.nodup_dedup _)).mpr fun k => ?_).length_eq
  rw [List.mem_dedup, List.mem_dedup, h]

private theorem deduplicate_ok {moveHash : List UInt16 → UInt64} {t u : Tables} {removed : ℕ}
    (h : t.deduplicate moveHash = .ok (u, removed)) :
    u.Unique ∧ u.games.length = distinctGames t ∧ removed + distinctGames t = t.games.length ∧
      ∀ k, k ∈ u.games.map GameRow.identity ↔ k ∈ t.games.map GameRow.identity := by
  rw [Tables.deduplicate_eq] at h
  obtain ⟨rfl, rfl⟩ := Prod.mk.inj (Except.ok.inj h)
  have hmem : ∀ k, k ∈ (t.reconcile moveHash).games.map GameRow.identity ↔
      k ∈ t.games.map GameRow.identity := by
    intro k
    rw [Tables.map_identity_eq, Tables.reconcile_stored]
    change k ∈ (firsts StoredGame.identity (t.games.map GameRow.stored)).map StoredGame.identity ↔ _
    rw [mem_map_firsts, Tables.map_identity_eq]
  have hunique : (t.reconcile moveHash).Unique := Tables.unique_reconcile
  have hlength : (t.reconcile moveHash).games.length = distinctGames t := by
    rw [← (distinctGames_eq_iff _).mpr hunique]
    exact length_dedup_congr hmem
  have hle := distinctGames_le t
  refine ⟨hunique, hlength, ?_, hmem⟩
  rw [hlength]
  omega

end Store

section Tallies

/-- A read of a reader, with the offset at which it ends. -/
def PgnReader.readAt (reader : PgnReader) (i : ℕ) : SourceRead :=
  ((reader.after i).next.1, (reader.after (i + 1)).byteOffset)

/-- The games that the first reads of a reader offer to the store. -/
def offered (rules : Rules) (reader : PgnReader) (n : ℕ) : List Game :=
  (List.range n).filterMap fun i => preparedOf rules (reader.readAt i)

private theorem offered_succ (rules : Rules) (reader : PgnReader) (n : ℕ) : offered rules reader (n + 1) =
    offered rules reader n ++ (preparedOf rules (reader.readAt n)).toList := by
  rw [offered, List.range_succ, List.filterMap_append]
  refine congrArg (offered rules reader n ++ ·) ?_
  cases h : preparedOf rules (reader.readAt n) <;> simp [h]

def Game.storedIdentity (game : Game) : IdentityFields × List UInt16 :=
  (StoredGame.ofGame game).identity

namespace ImportRun

/-- The step takes a token through stage 2. -/
def Action.isWrite : Action → Bool
  | .write _ => true
  | _ => false

/-- A run after so many tokens, of which so many failed in the writer: where its reader stands, its
counts, and its rows, of which so many were lost in batches that were rolled back. -/
structure Tally (source : ImportSource) (start run : ImportRun) (tokens faults lost : ℕ) : Prop where
  slots : ∀ i (slot : PipelineSlot), run.slots[i]? = some slot →
    slot.Carries source.rules (start.reader.readAt (tokens + i))
  reader : run.reading = true ∨ run.ended = false →
    run.reader = start.reader.after (tokens + run.slots.length)
  preCommitted : run.preCommitted = start.preCommitted
  processed : run.gamesProcessed = run.gamesCommitted + run.gamesSkipped + faults
  committed : run.committed = run.preCommitted + run.gamesCommitted
  rows : run.store.tables.games.length + lost = start.store.tables.games.length + run.gamesCommitted
  durable : run.store.durable.games.length ≤ run.store.tables.games.length
  stored : faults + lost = 0 → start.rawMode = true →
    run.store.tables.games.map GameRow.identity = start.store.tables.games.map GameRow.identity ++
      (offered source.rules start.reader tokens).map Game.storedIdentity

variable {source : ImportSource} {failures : ImportFailures} {start run run' : ImportRun}
  {tokens faults lost : ℕ} {action : Action}

/-- Two states of a run with the same counts and the same store. -/
structure SameCounts (run run' : ImportRun) : Prop where
  preCommitted : run'.preCommitted = run.preCommitted
  processed : run'.gamesProcessed = run.gamesProcessed
  games : run'.gamesCommitted = run.gamesCommitted
  skipped : run'.gamesSkipped = run.gamesSkipped
  committed : run'.committed = run.committed
  store : run'.store = run.store

theorem Tally.congr (h : Tally source start run tokens faults lost) (hsame : run.SameCounts run')
    (hslots : ∀ i (slot : PipelineSlot), run'.slots[i]? = some slot →
      slot.Carries source.rules (start.reader.readAt (tokens + i)))
    (hreader : run'.reading = true ∨ run'.ended = false →
      run'.reader = start.reader.after (tokens + run'.slots.length)) :
    Tally source start run' tokens faults lost where
  slots := hslots
  reader := hreader
  preCommitted := hsame.preCommitted.trans h.preCommitted
  processed := by
    rw [hsame.processed, hsame.games, hsame.skipped]
    exact h.processed
  committed := by
    rw [hsame.committed, hsame.preCommitted, hsame.games]
    exact h.committed
  rows := by
    rw [hsame.store, hsame.games]
    exact h.rows
  durable := by
    rw [hsame.store]
    exact h.durable
  stored := by
    rw [hsame.store]
    exact h.stored

theorem Tally.takeLine (h : Tally source start run tokens faults lost)
    (hstep : run.takeLine source = some run') : Tally source start run' tokens faults lost := by
  unfold ImportRun.takeLine at hstep
  split_ifs at hstep with hbusy
  all_goals
    simp only [not_or, Bool.not_eq_true] at hbusy
    obtain rfl := Option.some.inj hstep
    exact h.congr ⟨rfl, rfl, rfl, rfl, rfl, rfl⟩ h.slots fun _ => h.reader (.inr hbusy.1)

theorem Tally.read (h : Tally source start run tokens faults lost)
    (hstep : run.read = some run') : Tally source start run' tokens faults lost := by
  unfold ImportRun.read at hstep
  split_ifs at hstep with hreading
  rw [Bool.not_eq_true, Bool.not_eq_false'] at hreading
  have hreader := h.reader (.inl hreading)
  -- the token that is read comes behind those in the slots
  have hmore : ∀ (slot : PipelineSlot) (found : Except ReadError PgnGame) (reader : PgnReader),
      run.reader.next = (found, reader) → slot.Carries source.rules (found, reader.byteOffset) →
      ∀ run' : ImportRun, run.SameCounts run' → run'.slots = run.slots ++ [slot] →
        run'.reader = reader → Tally source start run' tokens faults lost := by
    intro slot found reader hnext hcarries run' hsame hslots hafter
    have hread : start.reader.readAt (tokens + run.slots.length) = (found, reader.byteOffset) := by
      rw [PgnReader.readAt, PgnReader.after, ← hreader, hnext]
    refine h.congr hsame (fun i other hother => ?_) fun _ => ?_
    · rw [hslots] at hother
      by_cases hi : i < run.slots.length
      · rw [List.getElem?_append_left hi] at hother
        exact h.slots i other hother
      · have hlength := (List.getElem?_eq_some_iff.mp hother).1
        rw [List.length_append, List.length_singleton] at hlength
        obtain rfl : i = run.slots.length := by omega
        rw [List.getElem?_append_right le_rfl, Nat.sub_self] at hother
        obtain rfl := Option.some.inj hother
        exact hread.symm ▸ hcarries
    · rw [hafter, hslots, List.length_append, List.length_singleton, ← Nat.add_assoc,
        PgnReader.after, ← hreader, hnext]
  split at hstep
  next pgnGame reader hnext =>
    obtain rfl := Option.some.inj hstep
    exact hmore (.ready pgnGame reader.byteOffset) _ _ hnext rfl _ ⟨rfl, rfl, rfl, rfl, rfl, rfl⟩ rfl
      rfl
  next reader hnext =>
    obtain rfl := Option.some.inj hstep
    exact hmore .parseError _ _ hnext rfl _ ⟨rfl, rfl, rfl, rfl, rfl, rfl⟩ rfl rfl
  next e reader hnot hnext =>
    obtain rfl := Option.some.inj hstep
    refine h.congr ⟨rfl, rfl, rfl, rfl, rfl, rfl⟩ h.slots fun hends => ?_
    rcases hends with hends | hends <;> cases hends

theorem Tally.prepare {i : ℕ} (h : Tally source start run tokens faults lost)
    (hstep : run.prepare source i = some run') : Tally source start run' tokens faults lost := by
  have hset : ∀ slot : PipelineSlot, slot.Carries source.rules (start.reader.readAt (tokens + i)) →
      ∀ j (other : PipelineSlot), (run.slots.set i slot)[j]? = some other →
        other.Carries source.rules (start.reader.readAt (tokens + j)) := by
    intro slot hcarries j other hother
    rw [List.getElem?_set] at hother
    split_ifs at hother with hij hj
    · obtain rfl := Option.some.inj hother
      exact hij ▸ hcarries
    · exact h.slots j other hother
  have hkept : ∀ slot : PipelineSlot, run.reading = true ∨ run.ended = false →
      run.reader = start.reader.after (tokens + (run.slots.set i slot).length) := by
    intro slot
    rw [List.length_set]
    exact h.reader
  unfold ImportRun.prepare at hstep
  split at hstep
  next pgnGame nextGameOffset hslot =>
    have hcarried := h.slots i _ hslot
    change start.reader.readAt (tokens + i) = (.ok pgnGame, nextGameOffset) at hcarried
    split at hstep
    next game hprepared =>
      obtain rfl := Option.some.inj hstep
      refine h.congr ⟨rfl, rfl, rfl, rfl, rfl, rfl⟩ (hset _ ?_) (hkept _)
      rw [hcarried]
      exact ⟨rfl, congrArg Except.toOption hprepared⟩
    next e hprepared =>
      obtain rfl := Option.some.inj hstep
      refine h.congr ⟨rfl, rfl, rfl, rfl, rfl, rfl⟩ (hset _ ?_) (hkept _)
      rw [hcarried]
      exact congrArg Except.toOption hprepared
  · cases hstep

/-- One token more is through stage 2: stored, skipped, or failed, with the rows that its failure has
cost. -/
private theorem Tally.advance {slot : PipelineSlot} {stored skipped fault cost : ℕ}
    (h : Tally source start run tokens faults lost) (htake : run.slots = slot :: run'.slots)
    (hkeeps : run.KeepsReading run') (hcounts : run.Counts stored skipped run')
    (hone : stored + skipped + fault = 1)
    (hrows : run'.store.tables.games.length + cost = run.store.tables.games.length + stored)
    (hdurable : run'.store.durable.games.length ≤ run'.store.tables.games.length)
    (hadds : fault + cost = 0 → start.rawMode = true → run'.store.tables.games.map GameRow.identity =
      run.store.tables.games.map GameRow.identity ++
        (preparedOf source.rules (start.reader.readAt tokens)).toList.map Game.storedIdentity) :
    Tally source start run' (tokens + 1) (faults + fault) (lost + cost) where
  slots := by
    intro i other hother
    have hbehind : run.slots[i + 1]? = some other := by
      rw [htake, List.getElem?_cons_succ]
      exact hother
    have hcarries := h.slots (i + 1) other hbehind
    rwa [Nat.add_comm i, ← Nat.add_assoc] at hcarries
  reader := by
    intro hmore
    rw [hkeeps.reading, hkeeps.ended] at hmore
    rw [hkeeps.reader, h.reader hmore, htake, List.length_cons]
    exact congrArg _ (by omega)
  preCommitted := hkeeps.preCommitted.trans h.preCommitted
  processed := by
    have hprocessed := h.processed
    rw [hcounts.processed, hcounts.games, hcounts.skipped]
    omega
  committed := by
    have hcommitted := h.committed
    rw [hcounts.committed, hkeeps.preCommitted, hcounts.games]
    omega
  rows := by
    have hbefore := h.rows
    rw [hcounts.games]
    omega
  durable := hdurable
  stored := by
    intro hnone hraw
    rw [hadds (by omega) hraw, h.stored (by omega) hraw, offered_succ, List.map_append,
      List.append_assoc]

private theorem Tally.write (h : Tally source start run tokens faults lost)
    (hstep : run.write source failures = some run') : ∃ faults' lost',
    Tally source start run' (tokens + 1) faults' lost' ∧ faults + lost ≤ faults' + lost' ∧
      (run.writerFails source (.write failures) = false ↔ faults' + lost' = faults + lost) := by
  obtain ⟨slot, htake, hkeeps, hwrites⟩ := writes_of_write hstep
  have hcarries := h.slots 0 slot (by rw [htake, List.getElem?_cons_zero])
  rw [Nat.add_zero] at hcarries
  have hraw : start.rawMode = run.rawMode := by rw [rawMode, rawMode, h.preCommitted]
  cases hwrites with
  | skipped hstore hoffset hcounts hworks =>
    refine ⟨faults, lost, ?_, le_rfl, iff_of_true hworks rfl⟩
    refine @Tally.advance _ _ _ _ _ _ _ _ 0 1 0 0 h htake hkeeps hcounts rfl ?_ ?_ fun _ _ => ?_
    · rw [hstore]
    · rw [hstore]
      exact h.durable
    · have hnone : preparedOf source.rules (start.reader.readAt tokens) = none := hcarries
      rw [hstore, hnone]
      exact (List.append_nil _).symm
  | @duplicate game nextGameOffset tables hchecked hholds htables hstore hoffset hcounts hworks =>
    have hgames : tables.games = run.store.tables.games := by
      rcases htables with rfl | rfl
      · rfl
      · exact Tables.findOrInsertNames_games game _
    refine ⟨faults, lost, ?_, le_rfl, iff_of_true hworks rfl⟩
    refine @Tally.advance _ _ _ _ _ _ _ _ 0 1 0 0 h htake hkeeps hcounts rfl ?_ ?_ fun _ hstart => ?_
    · rw [hstore, hgames]
    · rw [hstore]
      rcases @ImportStore.durable_of_saved run.store { run.store with tables } rfl with hsame | hall
      · rw [hsame, hgames]
        exact h.durable
      · rw [hall]
    · rw [hraw, hchecked] at hstart
      cases hstart
  | failed hfails hstore hcounts =>
    have hdurable := h.durable
    have hback : run'.store.tables.games.length = run.store.durable.games.length := by rw [hstore]; rfl
    have hkept : run'.store.durable.games.length ≤ run'.store.tables.games.length := by
      rw [hstore, ImportStore.rollbackBatch_durable, ImportStore.rollbackBatch_tables]
    rcases hcounts with hcounts | hcounts
    · refine ⟨faults + 1, lost + (run.store.tables.games.length - run.store.durable.games.length),
        ?_, by omega, iff_of_false (by rw [hfails]; exact Bool.true_eq_false.mp) (by omega)⟩
      exact h.advance htake hkeeps hcounts rfl (by omega) hkept fun hnone => by omega
    · refine ⟨faults + 0, lost + (run.store.tables.games.length + 1 - run.store.durable.games.length),
        ?_, by omega, iff_of_false (by rw [hfails]; exact Bool.true_eq_false.mp) (by omega)⟩
      exact h.advance htake hkeeps hcounts rfl (by omega) hkept fun hnone => by omega
  | @stored game nextGameOffset collision id hwrite htables hoffset hcounts hbatch hworks =>
    have hgames : run'.store.tables.games =
        run.store.tables.games ++
          [⟨(run.store.tables.findOrInsertNames game).nextId, collision, .ofGame game⟩] := by
      rw [htables, Tables.addRow_games, Tables.findOrInsertNames_games]
    have hrows := congrArg List.length hgames
    rw [List.length_append, List.length_singleton] at hrows
    refine ⟨faults, lost, ?_, le_rfl, iff_of_true hworks rfl⟩
    refine @Tally.advance _ _ _ _ _ _ _ _ 1 0 0 0 h htake hkeeps hcounts rfl hrows ?_ fun _ _ => ?_
    · have hdurable := h.durable
      rcases hbatch with ⟨hsaved, -⟩ | ⟨-, hall, -⟩
      · rcases ImportStore.durable_of_saved hsaved with hsame | hall
        · rw [hsame]
          omega
        · rw [hall]
      · rw [hall]
    · rw [hgames, List.map_append, hcarries.2]
      rfl

/-- A step keeps the tally, which grows by a fault or a loss exactly when the writer fails. -/
theorem Tally.step (h : Tally source start run tokens faults lost)
    (hstep : run.step source action = some run') : ∃ faults' lost',
    Tally source start run' (tokens + if action.isWrite then 1 else 0) faults' lost' ∧
      faults + lost ≤ faults' + lost' ∧
        (run.writerFails source action = false ↔ faults' + lost' = faults + lost) := by
  cases action with
  | requestStop =>
    obtain rfl := Option.some.inj hstep
    exact ⟨faults, lost, h.congr ⟨rfl, rfl, rfl, rfl, rfl, rfl⟩ h.slots h.reader, le_rfl,
      iff_of_true rfl rfl⟩
  | takeLine => exact ⟨faults, lost, h.takeLine hstep, le_rfl, iff_of_true rfl rfl⟩
  | read => exact ⟨faults, lost, h.read hstep, le_rfl, iff_of_true rfl rfl⟩
  | prepare i => exact ⟨faults, lost, h.prepare hstep, le_rfl, iff_of_true rfl rfl⟩
  | write failures => exact h.write hstep

private theorem Tally.of_run {actions : List Action} {mid : ImportRun}
    (h : Tally source start mid tokens faults lost)
    (hrun : System.run (ImportRun.step source) (fun _ _ => True) mid actions = some run) :
    ∃ faults' lost', Tally source start run (tokens + actions.countP Action.isWrite) faults' lost' ∧
      faults + lost ≤ faults' + lost' ∧
        (System.Along (ImportRun.step source) (fun s a => s.writerFails source a = false) mid actions ↔
          faults' + lost' = faults + lost) := by
  induction actions generalizing mid tokens faults lost with
  | nil =>
    obtain rfl := Option.some.inj hrun
    exact ⟨faults, lost, h, le_rfl, iff_of_true trivial rfl⟩
  | cons action actions ih =>
    rw [System.run, if_pos trivial] at hrun
    obtain ⟨next, hstep, hrest⟩ := Option.bind_eq_some_iff.mp hrun
    obtain ⟨faults₁, lost₁, hnext, hle₁, hworks₁⟩ := h.step hstep
    obtain ⟨faults₂, lost₂, hlast, hle₂, hworks₂⟩ := ih hnext hrest
    refine ⟨faults₂, lost₂, ?_, hle₁.trans hle₂, ?_⟩
    · rw [List.countP_cons, Nat.add_comm (List.countP _ _), ← Nat.add_assoc]
      exact hlast
    · rw [System.Along, hstep, hworks₁]
      simp only [Option.mem_some_iff, forall_eq', hworks₂]
      omega

end ImportRun

end Tallies

section Ends

namespace ImportRun

variable {source : ImportSource} {failures : ImportFailures} {run run' : ImportRun}
  {summary : ImportSummary}

private theorem conclude_ok {removed : ℕ}
    (h : run.conclude source failures removed = (run', .ok summary)) :
    run'.store.tables = run.store.tables ∧ run'.gamesCommitted = run.gamesCommitted ∧
      summary = run.summary removed := by
  unfold conclude at h
  split_ifs at h
  · obtain ⟨rfl, hsummary⟩ := Prod.mk.inj h
    obtain rfl := Except.ok.inj hsummary
    unfold writeProgressCheckpoint
    split_ifs <;> exact ⟨rfl, rfl, rfl⟩
  · cases h
  · cases h
  · obtain ⟨rfl, hsummary⟩ := Prod.mk.inj h
    obtain rfl := Except.ok.inj hsummary
    exact ⟨rfl, rfl, rfl⟩

private theorem finish_ok (h : run.finish source failures = (run', .ok summary)) :
    ∃ removed, (run.rawMode = true →
          run'.store.tables.games.length = distinctGames run.store.tables ∧
            removed + distinctGames run.store.tables = run.store.tables.games.length) ∧
      (run.rawMode = false →
          run'.store.tables.games.length = run.store.tables.games.length ∧ removed = 0) ∧
      run'.gamesCommitted = fetchSub run.gamesCommitted removed ∧
      summary = (run.noteRemoved removed).summary removed := by
  unfold finish at h
  dsimp only at h
  split at h
  · cases h
  rcases run.store.commitBatch_cases failures with hok | ⟨-, hfailed⟩
  · rw [hok] at h
    dsimp only at h
    split_ifs at h with hraw
    · rcases ImportStore.deduplicate_cases source.moveHash { run.store with saved := none } failures
        with hfails | ⟨tables, removed, hdeduplicate, hremoved⟩
      · rw [hfails] at h
        cases h
      · rw [hremoved] at h
        obtain ⟨htables, hgames, rfl⟩ := conclude_ok h
        obtain ⟨-, hlength, hsum, -⟩ := deduplicate_ok hdeduplicate
        refine ⟨removed, fun _ => ⟨?_, hsum⟩, fun hnot => ?_, hgames, rfl⟩
        · rw [htables]
          exact hlength
        · rw [hraw] at hnot
          cases hnot
    · obtain ⟨htables, hgames, rfl⟩ := conclude_ok h
      refine ⟨0, fun hnot => absurd hnot hraw, fun _ => ⟨by rw [htables], rfl⟩, ?_, ?_⟩
      · rw [hgames, fetchSub, if_pos (Nat.zero_le _)]
        rfl
      · unfold ImportRun.summary noteRemoved
        simp
  · rw [hfailed] at h
    cases h

end ImportRun

end Ends

section Starts

variable {source : ImportSource} {failures : ImportFailures} {stopRequested : Bool}
variable {store : ImportStore} {run : ImportRun}

/-- The pipeline of an import starts in this state. -/
def Starts (source : ImportSource) (failures : ImportFailures) (stopRequested : Bool)
    (store : ImportStore) (run : ImportRun) : Prop :=
  (Import.run source failures stopRequested store).2 = .ok run ∨
    (resume source failures stopRequested store).2 = .ok run

/-- A checkpoint of the same source is resumed without the identity index. -/
def Repairs (source : ImportSource) (store : ImportStore) : Prop :=
  store.tables.identityIndex = false ∧
    ∃ checkpoint, store.checkpoint = some checkpoint ∧
      source.normal checkpoint.sourcePath = source.normal source.pgnPath

/-- The rows with which a pipeline starts, against those of the import before it. -/
structure StartedFrom (source : ImportSource) (store : ImportStore) (run : ImportRun) : Prop where
  tally : ImportRun.Tally source run run 0 0 0
  repaired : Repairs source store → run.store.tables.Unique ∧
    run.store.tables.games.length = distinctGames store.tables
  unrepaired : ¬Repairs source store → run.store.tables.games = store.tables.games
  identities : ∀ k, k ∈ run.store.tables.games.map GameRow.identity ↔
    k ∈ store.tables.games.map GameRow.identity

private theorem Starts.startedFrom (h : Starts source failures stopRequested store run)
    (hclosed : store.saved = none) : StartedFrom source store run := by
  have hopens : ∀ {call : ImportStore × Except ErrorCode ImportRun},
      Opens source failures stopRequested store call → call.2 = .ok run →
        StartedFrom source store run := by
    intro call hcall hok
    cases hcall with
    | refused | refusedRepaired | unbegun => cases hok
    | @started startOffset preCommitted preLastGameId tables reader hpoint hsought saved start hsaved
        hrun =>
      obtain rfl := Except.ok.inj hok
      have hgames : start.store.tables.games = tables.games := by
        rw [hrun]
        unfold rawTables
        split_ifs <;> rfl
      have htally : ImportRun.Tally source start start 0 0 0 := by
        refine ⟨?_, ?_, rfl, ?_, ?_, ?_, ?_, fun _ _ => (List.append_nil _).symm⟩
        all_goals rw [hrun]
        · intro i slot hslot
          cases hslot
        · exact fun _ => rfl
        · rfl
        · exact (Int.add_zero _).symm
        · exact le_of_eq (congrArg (fun t : Tables => t.games.length) hsaved)
      cases hpoint with
      | fresh hnone =>
        have hnot : ¬Repairs source store := fun ⟨_, checkpoint, hsome, howns⟩ =>
          hnone checkpoint hsome howns
        exact ⟨htally, fun hrepairs => absurd hrepairs hnot, fun _ => hgames, by simp [hgames]⟩
      | resumed hcheckpoint howns hindex =>
        have hnot : ¬Repairs source store := by
          rintro ⟨hmissing, -⟩
          rw [hindex] at hmissing
          cases hmissing
        exact ⟨htally, fun hrepairs => absurd hrepairs hnot, fun _ => hgames, by simp [hgames]⟩
      | @repaired checkpoint tables removed hcheckpoint howns hindex hrepaired =>
        have hrepairs : Repairs source store := ⟨hindex, checkpoint, hcheckpoint, howns⟩
        obtain ⟨hunique, hlength, -, hidentities⟩ := deduplicate_ok hrepaired
        refine ⟨htally, fun _ => ⟨?_, ?_⟩, fun hnot => absurd hrepairs hnot, ?_⟩
        · rw [Tables.Unique, hgames]
          exact hunique
        · rw [hgames]
          exact hlength
        · rw [hgames]
          exact hidentities
  rcases h with h | h
  · exact hopens (opens_run hclosed) h
  · exact hopens (opens_resume hclosed) h

end Starts

section Accounts

variable {source : ImportSource} {store : ImportStore} {start run run' : ImportRun}
variable {actions : List ImportRun.Action} {summary : ImportSummary}

/-- An import from the given store, up to its summary: its pipeline starts in `start`, takes the given
steps and ends in `run`. -/
structure Completes (source : ImportSource) (store : ImportStore) (start : ImportRun)
    (actions : List ImportRun.Action) (run run' : ImportRun) (summary : ImportSummary) : Prop where
  closed : store.saved = none
  starts : ∃ failures stopRequested, Starts source failures stopRequested store start
  runs : System.run (ImportRun.step source) (fun _ _ => True) start actions = some run
  drained : run.Drained
  finished : ∃ failures, run.finish source failures = (run', .ok summary)

/-- The counts of an import add up, none of them has wrapped around, and the store has grown by the
count of committed games. -/
structure Accounted (store : ImportStore) (run run' : ImportRun) (summary : ImportSummary) : Prop where
  total : summary.totalAttempted = summary.committed + summary.skipped
  committed : (summary.committed : ℤ) = run.committed - summary.duplicatesRemoved - run.preCommitted
  progress : run'.gamesCommitted + summary.duplicatesRemoved = run.gamesCommitted
  stored : run'.store.tables.games.length = store.tables.games.length + summary.committed

/-- How many different games there are among those of the tables and those that the first reads of a
reader offer to them. -/
def differentGames (source : ImportSource) (t : Tables) (reader : PgnReader) (reads : ℕ) : ℕ :=
  (t.games.map GameRow.identity ++
    (offered source.rules reader reads).map Game.storedIdentity).dedup.length

/-- The writer fails in no step of a pipeline: it stores every game or finds that it is a duplicate,
and commits every batch that is full. -/
def NeverFails (source : ImportSource) (start : ImportRun) (actions : List ImportRun.Action) : Prop :=
  System.Along (ImportRun.step source) (fun run action => run.writerFails source action = false) start
    actions

private theorem StartedFrom.length_eq_iff (h : StartedFrom source store start) :
    start.store.tables.games.length = store.tables.games.length ↔
      (Repairs source store → store.tables.Unique) := by
  by_cases hrepairs : Repairs source store
  · rw [(h.repaired hrepairs).2, distinctGames_eq_iff]
    exact ⟨fun hunique _ => hunique, fun hunique => hunique hrepairs⟩
  · rw [h.unrepaired hrepairs]
    exact iff_of_true rfl fun hyes => absurd hyes hrepairs

theorem StartedFrom.length_le (h : StartedFrom source store start) :
    start.store.tables.games.length ≤ store.tables.games.length := by
  by_cases hrepairs : Repairs source store
  · rw [(h.repaired hrepairs).2]
    exact distinctGames_le _
  · rw [h.unrepaired hrepairs]

private theorem toSize_sub {a b : ℕ} (h : b ≤ a) : toSize ((a : ℤ) - b) = a - b := by
  rw [toSize, if_pos (by omega)]
  omega

private theorem accounted_iff_of_tally {removed tokens faults lost : ℕ}
    (h : ImportRun.Tally source start run tokens faults lost)
    (hgames : run'.gamesCommitted = fetchSub run.gamesCommitted removed) :
    Accounted store run run' ((run.noteRemoved removed).summary removed) ↔
      faults = 0 ∧ removed ≤ run.gamesCommitted ∧ run'.store.tables.games.length =
        store.tables.games.length + (run.gamesCommitted - removed) := by
  have hprocessed := h.processed
  have hcommitted := h.committed
  have hsigned : run.committed - removed - run.preCommitted = run.gamesCommitted - (removed : ℤ) := by
    omega
  have hcount : removed ≤ run.gamesCommitted →
      ((run.noteRemoved removed).summary removed).committed = run.gamesCommitted - removed := by
    intro hle
    rw [← toSize_sub hle, ← hsigned]
    rfl
  constructor
  · intro haccounted
    have hle : removed ≤ run.gamesCommitted := by
      have hsize := haccounted.committed
      change ((_ : ℕ) : ℤ) = run.committed - (removed : ℤ) - run.preCommitted at hsize
      omega
    have htotal := haccounted.total
    have hstored := haccounted.stored
    rw [hcount hle] at htotal hstored
    change run.gamesProcessed = _ + (run.gamesSkipped + removed) at htotal
    exact ⟨by omega, hle, hstored⟩
  · rintro ⟨hnone, hle, hstored⟩
    refine ⟨?_, ?_, ?_, ?_⟩
    · rw [hcount hle]
      change run.gamesProcessed = _ + (run.gamesSkipped + removed)
      omega
    · rw [hcount hle]
      change _ = run.committed - (removed : ℤ) - run.preCommitted
      omega
    · rw [hgames, fetchSub, if_pos hle]
      exact Nat.sub_add_cancel hle
    · rw [hcount hle]
      exact hstored

private theorem StartedFrom.distinctGames_eq {tokens : ℕ} (h : StartedFrom source store start)
    (hraw : start.rawMode = true) (htally : ImportRun.Tally source start run tokens 0 0) :
    distinctGames run.store.tables = differentGames source store.tables start.reader tokens := by
  refine length_dedup_congr fun k => ?_
  rw [htally.stored rfl hraw, List.mem_append, List.mem_append, h.identities]

/-- An import accounts for its games exactly when it has no repeated games to repair at its start, when
there are, with those that it reads, at least as many different games as there were rows before a raw
one, and when its writer never fails. -/
theorem accounted_iff (h : Completes source store start actions run run' summary) :
    Accounted store run run' summary ↔
      (Repairs source store → store.tables.Unique) ∧
        (start.rawMode = true → store.tables.games.length ≤ differentGames source store.tables
          start.reader (actions.countP ImportRun.Action.isWrite)) ∧
        NeverFails source start actions := by
  obtain ⟨_, _, hstarts⟩ := h.starts
  have hstart := hstarts.startedFrom h.closed
  obtain ⟨faults, lost, htally, -, hworks⟩ := hstart.tally.of_run h.runs
  rw [Nat.zero_add] at htally hworks
  obtain ⟨_, hfinish⟩ := h.finished
  obtain ⟨removed, hraw, hchecked, hgames, rfl⟩ := ImportRun.finish_ok hfinish
  have hmode : run.rawMode = start.rawMode := by
    rw [ImportRun.rawMode, ImportRun.rawMode, htally.preCommitted]
  have hrows := htally.rows
  have hle := hstart.length_le
  rw [← hstart.length_eq_iff, accounted_iff_of_tally htally hgames, NeverFails, hworks]
  cases hstartMode : start.rawMode with
  | true =>
    obtain ⟨hstored, hremoved⟩ := hraw (hmode.trans hstartMode)
    simp only [forall_const]
    by_cases hnone : faults + lost = 0
    · obtain ⟨rfl, rfl⟩ := Nat.add_eq_zero_iff.mp hnone
      rw [← hstart.distinctGames_eq hstartMode htally]
      omega
    · omega
  | false =>
    obtain ⟨hstored, rfl⟩ := hchecked (hmode.trans hstartMode)
    simp only [Bool.false_eq_true, false_implies, true_and]
    omega

/-- An import whose writer never fails accounts for its games whenever the database repeats no game
before it. -/
theorem accounted_of_unique (h : Completes source store start actions run run' summary)
    (hworks : NeverFails source start actions) (hunique : store.tables.Unique) :
    Accounted store run run' summary := by
  refine (accounted_iff h).mpr ⟨fun _ => hunique, fun _ => ?_, hworks⟩
  rw [← (distinctGames_eq_iff _).mpr hunique]
  refine ((List.nodup_dedup _).subperm fun k hk => ?_).length_le
  rw [List.mem_dedup] at hk ⊢
  exact List.mem_append_left _ hk

section Samples

/-- The source of a file with one game. -/
private def sampleSource : ImportSource where
  rules := onlyE4
  moveHash _ := 0
  normal path := path
  importStream _ :=
    [(0, .ok ⟨[("Event", "B"), ("White", "Anand"), ("Black", "Carlsen")], ["e4"], .draw⟩)]
  file := some "[Event \"B\"]\n[White \"Anand\"]\n[Black \"Carlsen\"]\n\n1. e4 1/2-1/2\n".toList
  pgnPath := "new.pgn"
  config := ⟨1, 1, true, false, 500⟩

private def leftGame : Game where
  white := ⟨"Fischer", none, none, none⟩
  black := ⟨"Spassky", none, none, none⟩
  eventDetails := none
  date := none
  result := "1-0"
  eco := none
  moves := [796]

/-- What a crashed import of another source has left: so many rows of one game, no identity index,
and a checkpoint. -/
private def leftStore (rows : ℕ) : ImportStore where
  tables := Tables.empty.dropIdentityIndex.insertRawEach (fun _ => 0) (List.replicate rows leftGame)
  checkpoint := some ⟨"old.pgn", 100, rows, rows⟩

private def sampleActions : List ImportRun.Action :=
  [.takeLine, .read, .prepare 0, .write {}, .takeLine, .read]

private def sampleEnds (store : ImportStore) : Option (ImportRun × ImportRun) :=
  (Import.run sampleSource {} false store).2.toOption.bind fun start =>
    (System.run (ImportRun.step sampleSource) (fun _ _ => True) start sampleActions).map
      fun run => (start, run)

private theorem completes_sampleEnds {store : ImportStore} (hclosed : store.saved = none)
    (h : (sampleEnds store).any (fun ends => decide ends.2.Drained &&
      decide ((ends.2.finish sampleSource {}).2.toOption = some summary)) = true) :
    ∃ start run run', Completes sampleSource store start sampleActions run run' summary := by
  obtain ⟨⟨start, run⟩, hends, hchecks⟩ := (Option.any_eq_true _ _).mp h
  obtain ⟨hdrained, hsummary⟩ := Bool.and_eq_true_iff.mp hchecks
  obtain ⟨_, hstart, hmap⟩ := Option.bind_eq_some_iff.mp hends
  obtain ⟨_, hruns, hpair⟩ := Option.map_eq_some_iff.mp hmap
  obtain ⟨rfl, rfl⟩ := Prod.mk.inj hpair
  have hsome := of_decide_eq_true hsummary
  have hfinished := toOption_eq_some.mp hsome
  exact ⟨_, _, _,
    { closed := hclosed
      starts := ⟨{}, false, Or.inl (toOption_eq_some.mp hstart)⟩
      runs := hruns
      drained := of_decide_eq_true hdrained
      finished := ⟨{}, Prod.ext rfl hfinished⟩ }⟩

theorem accounted_iff_sample : ∃ start run run',
    Completes sampleSource (leftStore 1) start sampleActions run run' ⟨1, 1, 0, 0, 0⟩ ∧
      (Accounted (leftStore 1) run run' ⟨1, 1, 0, 0, 0⟩ ↔
        (Repairs sampleSource (leftStore 1) → (leftStore 1).tables.Unique) ∧
          (start.rawMode = true → (leftStore 1).tables.games.length ≤ differentGames sampleSource
            (leftStore 1).tables start.reader (sampleActions.countP ImportRun.Action.isWrite)) ∧
          NeverFails sampleSource start sampleActions) := by
  obtain ⟨start, run, run', h⟩ : ∃ start run run',
      Completes sampleSource (leftStore 1) start sampleActions run run' ⟨1, 1, 0, 0, 0⟩ :=
    completes_sampleEnds rfl (by decide +kernel)
  exact ⟨start, run, run', h, accounted_iff h⟩

/-- Three rows that an import of another source left of one game cost the next import more games
than it adds. -/
theorem not_accounted : ∃ start run run',
    Completes sampleSource (leftStore 3) start sampleActions run run' ⟨1, 2 ^ 64 - 1, 2, 0, 2⟩ ∧
      ¬Accounted (leftStore 3) run run' ⟨1, 2 ^ 64 - 1, 2, 0, 2⟩ := by
  obtain ⟨start, run, run', h⟩ : ∃ start run run',
      Completes sampleSource (leftStore 3) start sampleActions run run' ⟨1, 2 ^ 64 - 1, 2, 0, 2⟩ :=
    completes_sampleEnds rfl (by decide +kernel)
  refine ⟨start, run, run', h, fun haccounted => ?_⟩
  have htotal : 1 = 2 ^ 64 - 1 + 2 := haccounted.total
  omega

end Samples

end Accounts

end MotifChess.Import
