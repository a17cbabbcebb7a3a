/- GID: MotifChess/Import/Progress
   generality: implementation
   digest: How far a run has read its source and written it, step after step. -/

import MotifChess.Import.SessionSteps

set_option autoImplicit false
set_option relaxedAutoImplicit false

namespace MotifChess.Import

open MotifChess.Chess MotifChess.Db

/-- The game that a read offers to the store, when it is one that can be prepared. -/
def preparedOf (rules : Rules) (read : SourceRead) : Option Game :=
  match read.1 with
  | .ok pgnGame => (prepareGame rules pgnGame).toOption
  | .error _ => none

/-- A slot holds a read, as far as the stages have worked on it. -/
def PipelineSlot.Carries (rules : Rules) : PipelineSlot → SourceRead → Prop
  | .ready pgnGame nextGameOffset, read => read = (.ok pgnGame, nextGameOffset)
  | .parseError, read => preparedOf rules read = none
  | .prepared game nextGameOffset, read => read.2 = nextGameOffset ∧ preparedOf rules read = some game

namespace ImportRun

/-- The reads of a source split into those that stage 2 is done with, those in the slots, and those
that the reader has still to find; the reading has ended for a reason. -/
structure Progress (source : ImportSource) (text : List Char) (reads written : List SourceRead)
    (run : ImportRun) : Prop where
  split : ∃ inflight unread, reads = written ++ (inflight ++ unread) ∧
    List.Forall₂ (PipelineSlot.Carries source.rules) run.slots inflight ∧
    (run.reading = true ∨ run.ended = false →
      ∃ left, run.reader.Leaves text left ∧ unread = withEnds text.length left) ∧
    (run.fatalError = some .eof → unread = [])
  signals : run.eofReached = true ∨ run.ended = true →
    run.stopped = true ∨ run.fatalError.isSome = true

variable {source : ImportSource} {text : List Char} {reads written : List SourceRead}
variable {failures : ImportFailures} {run run' : ImportRun}

theorem Progress.takeLine (h : run.Progress source text reads written)
    (hstep : run.takeLine source = some run') :
    run'.Progress source text reads written ∧ run'.store = run.store := by
  obtain ⟨⟨inflight, unread, hsplit, hslots, hleft, heof⟩, hsignals⟩ := h
  unfold ImportRun.takeLine at hstep
  split_ifs at hstep with hbusy hstop hreached
  · obtain rfl := Option.some.inj hstep
    simp only [not_or, Bool.not_eq_true] at hbusy
    refine ⟨⟨⟨inflight, unread, hsplit, hslots, fun _ => hleft (.inr hbusy.1), heof⟩, ?_⟩, rfl⟩
    exact fun _ => .inl rfl
  · obtain rfl := Option.some.inj hstep
    simp only [not_or, Bool.not_eq_true] at hbusy
    refine ⟨⟨⟨inflight, unread, hsplit, hslots, fun _ => hleft (.inr hbusy.1), heof⟩, ?_⟩, rfl⟩
    exact fun _ => hsignals (.inl hreached)
  · obtain rfl := Option.some.inj hstep
    simp only [not_or, Bool.not_eq_true] at hbusy
    exact ⟨⟨⟨inflight, unread, hsplit, hslots, fun _ => hleft (.inr hbusy.1), heof⟩, hsignals⟩, rfl⟩

private theorem carries_read {found : Except ReadError PgnGame} {nextGameOffset : ℕ} {slot : PipelineSlot}
    (h : (∃ pgnGame, found = .ok pgnGame ∧ slot = .ready pgnGame nextGameOffset) ∨
      (found = .error .parseError ∧ slot = .parseError)) :
    slot.Carries source.rules (found, nextGameOffset) := by
  rcases h with ⟨pgnGame, rfl, rfl⟩ | ⟨rfl, rfl⟩
  · rfl
  · rfl

theorem Progress.read (h : run.Progress source text reads written)
    (hstep : run.read = some run') :
    run'.Progress source text reads written ∧ run'.store = run.store := by
  obtain ⟨⟨inflight, unread, hsplit, hslots, hleft, heof⟩, hsignals⟩ := h
  unfold ImportRun.read at hstep
  split_ifs at hstep with hreading
  rw [Bool.not_eq_true, Bool.not_eq_false'] at hreading
  obtain ⟨left, hleaves, rfl⟩ := hleft (.inl hreading)
  have hmore : ∀ (slot : PipelineSlot) (first : ℕ × Except ReadError PgnGame) rest,
      left = first :: rest → slot.Carries source.rules (first.2, run.reader.next.2.byteOffset) →
      ∃ inflight' unread', reads = written ++ (inflight' ++ unread') ∧
        List.Forall₂ (PipelineSlot.Carries source.rules) (run.slots ++ [slot]) inflight' ∧
        (∃ left', run.reader.next.2.Leaves text left' ∧ unread' = withEnds text.length left') ∧
        (run.fatalError = some .eof → unread' = []) := by
    intro slot first rest hcons hcarries
    subst hcons
    obtain ⟨-, hnext⟩ := hleaves.next_cons
    rw [hnext.byteOffset] at hcarries
    refine ⟨inflight ++ [_], withEnds text.length rest, ?_,
      List.rel_append hslots (.cons hcarries .nil), ⟨rest, hnext, rfl⟩, fun hfatal => ?_⟩
    · rw [hsplit, withEnds, List.append_assoc, List.singleton_append]
    · cases heof hfatal
  cases left with
  | nil =>
    rw [hleaves.next_nil] at hstep
    obtain rfl := Option.some.inj hstep
    refine ⟨⟨⟨inflight, [], hsplit, hslots, ?_, fun _ => rfl⟩, fun _ => .inr rfl⟩, rfl⟩
    intro hmore
    rcases hmore with hmore | hmore <;> cases hmore
  | cons first rest =>
    obtain ⟨hfound, -⟩ := hleaves.next_cons
    split at hstep
    next pgnGame reader hnext =>
      obtain rfl := Option.some.inj hstep
      rw [hnext] at hfound hmore
      obtain ⟨inflight', unread', hsplit', hslots', hleft', heof'⟩ :=
        hmore (.ready pgnGame reader.byteOffset) first rest rfl
          (carries_read (.inl ⟨pgnGame, hfound.symm, rfl⟩))
      exact ⟨⟨⟨inflight', unread', hsplit', hslots', fun _ => hleft', heof'⟩, hsignals⟩, rfl⟩
    next reader hnext =>
      obtain rfl := Option.some.inj hstep
      rw [hnext] at hfound hmore
      obtain ⟨inflight', unread', hsplit', hslots', hleft', heof'⟩ :=
        hmore .parseError first rest rfl (carries_read (.inr ⟨hfound.symm, rfl⟩))
      exact ⟨⟨⟨inflight', unread', hsplit', hslots', fun _ => hleft', heof'⟩, hsignals⟩, rfl⟩
    next e reader hnot hnext =>
      obtain rfl := Option.some.inj hstep
      refine ⟨⟨⟨inflight, _, hsplit, hslots, ?_, ?_⟩, fun _ => .inr rfl⟩, rfl⟩
      · intro hmore
        rcases hmore with hmore | hmore <;> cases hmore
      · intro hfatal
        exfalso
        rw [hnext] at hfound
        cases e with
        | eof => exact hleaves.ne_eof hfound.symm
        | ioFailure => cases hfatal
        | parseError => exact hnot rfl

theorem Progress.prepare {i : ℕ} (h : run.Progress source text reads written)
    (hstep : run.prepare source i = some run') :
    run'.Progress source text reads written ∧ run'.store = run.store := by
  obtain ⟨⟨inflight, unread, hsplit, hslots, hleft, heof⟩, hsignals⟩ := h
  have hset : ∀ slot : PipelineSlot, (∀ read, inflight[i]? = some read → slot.Carries source.rules read) →
      List.Forall₂ (PipelineSlot.Carries source.rules) (run.slots.set i slot) inflight := by
    intro slot hcarries
    rw [List.forall₂_iff_get] at hslots ⊢
    refine ⟨by rw [List.length_set, hslots.1], fun j hj hj' => ?_⟩
    rw [List.get_eq_getElem, List.get_eq_getElem, List.getElem_set]
    split
    next hij =>
      subst hij
      exact hcarries _ (List.getElem?_eq_getElem hj')
    next => exact hslots.2 j (by rwa [List.length_set] at hj) hj'
  unfold ImportRun.prepare at hstep
  split at hstep
  next pgnGame nextGameOffset hslot =>
    have hcarried : ∀ read, inflight[i]? = some read → read = (.ok pgnGame, nextGameOffset) := by
      intro read hread
      obtain ⟨hi, hget⟩ := List.getElem?_eq_some_iff.mp hslot
      obtain ⟨hj, hget'⟩ := List.getElem?_eq_some_iff.mp hread
      have hcarries := (List.forall₂_iff_get.mp hslots).2 i hi hj
      rw [List.get_eq_getElem, List.get_eq_getElem, hget, hget'] at hcarries
      exact hcarries
    split at hstep
    next game hprepared =>
      obtain rfl := Option.some.inj hstep
      refine ⟨⟨⟨inflight, unread, hsplit, hset _ fun read hread => ?_, hleft, heof⟩, hsignals⟩, rfl⟩
      obtain rfl := hcarried read hread
      exact ⟨rfl, congrArg Except.toOption hprepared⟩
    next e hprepared =>
      obtain rfl := Option.some.inj hstep
      refine ⟨⟨⟨inflight, unread, hsplit, hset _ fun read hread => ?_, hleft, heof⟩, hsignals⟩, rfl⟩
      obtain rfl := hcarried read hread
      exact congrArg Except.toOption hprepared
  · cases hstep

theorem Progress.write (h : run.Progress source text reads written)
    (hstep : run.write source failures = some run') : ∃ slot read rest,
      reads = written ++ read :: rest ∧ run.slots.head? = some slot ∧
      slot.Carries source.rules read ∧
      Writes source failures run run' slot ∧ run'.preCommitted = run.preCommitted ∧
      run'.Progress source text reads (written ++ [read]) := by
  obtain ⟨⟨inflight, unread, hsplit, hslots, hleft, heof⟩, hsignals⟩ := h
  obtain ⟨slot, htake, hkeeps, hwrites⟩ := writes_of_write hstep
  rw [htake] at hslots
  cases hslots with
  | @cons _ read _ inflight hcarries hrest =>
    refine ⟨slot, read, inflight ++ unread, hsplit, by rw [htake]; rfl, hcarries, hwrites,
      hkeeps.preCommitted,
      ⟨⟨inflight, unread, ?_, hrest, fun hmore => ?_, fun hfatal => ?_⟩, fun hended => ?_⟩⟩
    · rw [hsplit, List.append_assoc, List.singleton_append, List.cons_append]
    · rw [hkeeps.reading, hkeeps.ended] at hmore
      rw [hkeeps.reader]
      exact hleft hmore
    · rcases hkeeps.fatalError with hsame | hfailed
      · exact heof (hsame ▸ hfatal)
      · rw [hfailed] at hfatal
        cases hfatal
    · have hraised : run.stopped = true ∨ run.fatalError.isSome = true →
          run'.stopped = true ∨ run'.fatalError.isSome = true := by
        intro hsignal
        rcases hsignal with hstopped | hfatal
        · exact .inl (hkeeps.stopped hstopped)
        · rcases hkeeps.fatalError with hsame | hfailed
          · exact .inr (hsame ▸ hfatal)
          · exact .inr (by rw [hfailed]; rfl)
      rcases hended with heofReached | hended
      · rcases hkeeps.eofReached heofReached with heofReached | hstopped | hfailed
        · exact hraised (hsignals (.inl heofReached))
        · exact .inl hstopped
        · exact .inr (by rw [hfailed]; rfl)
      · rw [hkeeps.ended] at hended
        exact hraised (hsignals (.inr hended))

/-- Every other step leaves the store and what is written alone. -/
theorem Progress.step (h : run.Progress source text reads written) {action : Action}
    (hstep : run.step source action = some run') :
    (run'.Progress source text reads written ∧ run'.store = run.store ∧
        run'.preCommitted = run.preCommitted ∧ run'.committed = run.committed ∧
        run'.checkpointOffset = run.checkpointOffset ∧ run.writerFails source action = false) ∨
      ∃ failures slot read rest, action = .write failures ∧ reads = written ++ read :: rest ∧
        run.slots.head? = some slot ∧ slot.Carries source.rules read ∧ Writes source failures run run' slot ∧
        run'.preCommitted = run.preCommitted ∧
        run'.Progress source text reads (written ++ [read]) := by
  cases action with
  | requestStop =>
    obtain rfl := Option.some.inj hstep
    exact .inl ⟨⟨h.split, h.signals⟩, rfl, rfl, rfl, rfl, rfl⟩
  | takeLine =>
    obtain ⟨hprogress, hstore⟩ := h.takeLine hstep
    refine .inl ⟨hprogress, hstore, ?_⟩
    unfold ImportRun.step ImportRun.takeLine at hstep
    split_ifs at hstep <;> obtain rfl := Option.some.inj hstep <;> exact ⟨rfl, rfl, rfl, rfl⟩
  | read =>
    obtain ⟨hprogress, hstore⟩ := h.read hstep
    refine .inl ⟨hprogress, hstore, ?_⟩
    unfold ImportRun.step ImportRun.read at hstep
    dsimp only at hstep
    split_ifs at hstep
    split at hstep <;> obtain rfl := Option.some.inj hstep <;> exact ⟨rfl, rfl, rfl, rfl⟩
  | prepare i =>
    obtain ⟨hprogress, hstore⟩ := h.prepare hstep
    refine .inl ⟨hprogress, hstore, ?_⟩
    unfold ImportRun.step ImportRun.prepare at hstep
    dsimp only at hstep
    split at hstep
    · split at hstep <;> obtain rfl := Option.some.inj hstep <;> exact ⟨rfl, rfl, rfl, rfl⟩
    · cases hstep
  | write failures =>
    obtain ⟨slot, read, rest, hwrite⟩ := h.write hstep
    exact .inr ⟨failures, slot, read, rest, rfl, hwrite⟩

end ImportRun

section Start

open PgnReader

variable {source : ImportSource} {text : List Char} {startOffset : ℕ} {reader : PgnReader}

/-- An offset at which a session can start: the start of the file, or the end of a read. -/
def IsBoundary (importStream : List Char → List StreamItem) (text : List Char) (offset : ℕ) : Prop :=
  offset = 0 ∨ ∃ read ∈ sourceReads importStream text, read.2 = offset

theorem pos_of_mem_sourceReads (hreads : ReadsInOrder source.importStream
      (text.drop (PgnReader.new source.importStream (some text)).baseOffset)) {read : SourceRead}
    (h : read ∈ sourceReads source.importStream text) : 0 < read.2 := by
  have hordered := ordered_yields hreads
  have hwithin := within_yields hreads
  unfold sourceReads at h
  generalize (PgnReader.new source.importStream (some text)).yields = yields at hordered hwithin h
  cases yields with
  | nil => cases h
  | cons first rest => exact (Nat.zero_le _).trans_lt (lt_of_mem_withEnds hordered hwithin h)

/-- A reader that stands at its offset splits the reads of the source there. -/
theorem exists_split (hreads : ReadsInOrder source.importStream
      (text.drop (PgnReader.new source.importStream (some text)).baseOffset))
    (hfile : source.file = some text) (hboundary : IsBoundary source.importStream text startOffset)
    (hsought : Sought source startOffset reader)
    (hstands : 0 < startOffset → reader.byteOffset = startOffset) :
    ∃ written left, sourceReads source.importStream text = written ++ withEnds text.length left ∧
      reader.Leaves text left ∧ (∀ read ∈ written, read.2 ≤ startOffset) ∧
      ∀ read ∈ withEnds text.length left, startOffset < read.2 := by
  rcases hsought with ⟨rfl, rfl⟩ | ⟨hpos, hseek⟩
  · rw [hfile]
    refine ⟨[], (PgnReader.new source.importStream (some text)).yields, rfl, leaves_new, ?_, ?_⟩
    · intro read hread
      cases hread
    · exact fun read hread => pos_of_mem_sourceReads hreads hread
  · obtain rfl | ⟨read, hread, hend⟩ := hboundary
    · exact absurd hpos (Nat.lt_irrefl 0)
    rw [hfile] at hseek
    obtain ⟨before, offset, after, hyields, hafter⟩ := mem_withEnds hread
    rw [hend] at hafter
    have hall : sourceReads source.importStream text =
        (withEnds offset before ++ [read]) ++ withEnds text.length after := by
      rw [sourceReads, hyields, withEnds_append, withEnds, List.append_assoc, List.singleton_append,
        ← hafter, ← hend]
      rfl
    have hpairwise := pairwise_sourceReads hreads
    rw [hall, List.pairwise_append, List.pairwise_append] at hpairwise
    obtain ⟨⟨-, -, hbefore⟩, -, hbehind⟩ := hpairwise
    refine ⟨_, after, hall, ?_, fun other hother => ?_, fun other hother => ?_⟩
    · refine leaves_of_seek hreads (before ++ [(offset, read.1)]) ?_ hafter hseek
        (hstands hpos)
      rw [hyields, List.append_assoc, List.singleton_append]
    · rcases List.mem_append.mp hother with hother | hother
      · have hlt := hbefore other hother read List.mem_cons_self
        omega
      · obtain rfl := List.mem_singleton.mp hother
        omega
    · have hlt := hbehind read (List.mem_append_right _ List.mem_cons_self) other hother
      omega

end Start

end MotifChess.Import
