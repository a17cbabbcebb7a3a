/- GID: MotifChess/Db/PositionPrefixPostings/Safety
   generality: implementation
   digest: Runs of a prefix postings sidecar, and when its candidates are those of its artifact. -/

import MotifChess.Db.PositionPrefixPostings.Artifact
import MotifChess.System.Run
import Mathlib.Data.UInt

set_option autoImplicit false
set_option relaxedAutoImplicit false

namespace MotifChess.Db.PositionPrefixPostings

open Codec LittleEndian
open MotifChess.Order.Buckets

/-- A sidecar, and the file that it last finalized or opened. -/
structure Session where
  sidecar : Sidecar
  artifact : Option (List UInt8) := none

inductive SidecarAction
  | append (works : ℕ → Bool) (rows : List PositionRow)
  | finalize (io : FinalizeIO)
  | openFile
  | replaceFile (file : Option (List UInt8))

namespace Session

/-- A sidecar whose call succeeded has the file at its path as its artifact. -/
def settle (s : Session) (outcome : Sidecar × Result Unit) : Session :=
  match outcome with
  | (sidecar, .ok ()) => ⟨sidecar, sidecar.file⟩
  | (sidecar, .error _) => ⟨sidecar, s.artifact⟩

def step (s : Session) : SidecarAction → Option Session
  | .append works rows => some { s with sidecar := (s.sidecar.append works rows).1 }
  | .finalize io => some (s.settle (s.sidecar.finalize io))
  | .openFile => some (s.settle s.sidecar.openFile)
  | .replaceFile file => some { s with sidecar := { s.sidecar with file } }

/-- Every hash is answered with an error or with the ids that the artifact stores for its prefix. -/
def Safe (s : Session) : Prop :=
  ∀ hash, (∃ e, s.sidecar.candidates hash = .failed e) ∨ ∃ file, s.artifact = some file ∧
    s.sidecar.candidates hash = .ids (storedIds s.sidecar.prefixBits file hash)

/-- A finalize stops before it replaces the offset table. -/
def stopsEarly (io : FinalizeIO) (s : Sidecar) : Prop :=
  validPrefixBits s.prefixBits = false ∨
    s.spillFiles ≠ [] ∧ (io.spills = false ∧ s.records ≠ [] ∨ io.merges = false)

/-- A finalize has nothing to merge and writes its artifact, or stops early; and an opened file is
refused at its header or complete. -/
def Intact (s : Session) : SidecarAction → Prop
  | .append _ _ => True
  | .finalize io => s.sidecar.spillFiles = [] ∧ io.write = .published ∨ stopsEarly io s.sidecar
  | .openFile => ∀ file ∈ s.sidecar.file, ∀ postingsCount input,
      readHeader s.sidecar.prefixBits file = some (postingsCount, input) →
        Complete s.sidecar.prefixBits postingsCount input
  | .replaceFile _ => True

end Session

section Steps

variable {s t : Sidecar}

/-- Only the buffer and the runs of a sidecar change, and the buffer holds prefixes and ids. -/
def Buffers (s t : Sidecar) : Prop :=
  ∃ records spillFiles, t = { s with records, spillFiles } ∧ ∀ r ∈ records, r.Fits s.prefixBits

theorem Buffers.refl (h : ∀ r ∈ s.records, r.Fits s.prefixBits) : Buffers s s :=
  ⟨s.records, s.spillFiles, rfl, h⟩

theorem Buffers.trans {u : Sidecar} (hst : Buffers s t) (htu : Buffers t u) : Buffers s u := by
  obtain ⟨_, _, rfl, -⟩ := hst
  obtain ⟨records, spillFiles, rfl, hfits⟩ := htu
  exact ⟨records, spillFiles, rfl, hfits⟩

theorem Buffers.fits (h : Buffers s t) : ∀ r ∈ t.records, r.Fits t.prefixBits := by
  obtain ⟨_, _, rfl, hfits⟩ := h
  exact hfits

private theorem buffers_spillCurrentBuffer (h : ∀ r ∈ s.records, r.Fits s.prefixBits) (works : Bool) :
    Buffers s (s.spillCurrentBuffer works).1 := by
  unfold Sidecar.spillCurrentBuffer
  split
  · exact .refl h
  · cases works with
    | true => exact ⟨_, _, rfl, by simp⟩
    | false => exact ⟨sortUnique s.records, s.spillFiles, rfl, fun r hr => h r (mem_sortUnique.mp hr)⟩

private theorem buffers_appendRows (hvalid : validPrefixBits s.prefixBits = true)
    (h : ∀ r ∈ s.records, r.Fits s.prefixBits) (works : ℕ → Bool) (rows : List PositionRow) :
    Buffers s (s.appendRows works rows).1 := by
  induction rows generalizing s with
  | nil => exact .refl h
  | cons row rows ih =>
    have hpushed : Buffers s { s with records := s.records ++ [Record.ofRow s.prefixBits row] } := by
      refine ⟨_, s.spillFiles, rfl, fun r hr => ?_⟩
      rcases List.mem_append.mp hr with hmem | hmem
      · exact h r hmem
      · rw [List.mem_singleton.mp hmem]
        exact Record.ofRow_fits hvalid row
    rw [Sidecar.appendRows]
    dsimp only
    split
    · have hspilled := hpushed.trans
        (buffers_spillCurrentBuffer hpushed.fits (works s.spillFiles.length))
      split
      next heq =>
        rw [heq] at hspilled
        exact hspilled
      next heq =>
        rw [heq] at hspilled
        have hbits := hspilled
        obtain ⟨_, _, rfl, -⟩ := hbits
        exact hspilled.trans (ih hvalid hspilled.fits)
    · exact hpushed.trans (ih hvalid hpushed.fits)

private theorem buffers_append (h : ∀ r ∈ s.records, r.Fits s.prefixBits) (works : ℕ → Bool)
    (rows : List PositionRow) : Buffers s (s.append works rows).1 := by
  unfold Sidecar.append
  split
  next hvalid => exact buffers_appendRows hvalid h works rows
  next => exact .refl h

private theorem finalize_of_stopsEarly {io : FinalizeIO} (hstops : Session.stopsEarly io s)
    (h : ∀ r ∈ s.records, r.Fits s.prefixBits) :
    ∃ t e, s.finalize io = (t, .error e) ∧ Buffers s t := by
  unfold Sidecar.finalize
  rcases hstops with hinvalid | ⟨hspilled, hstop⟩
  · rw [if_neg (by simp [hinvalid])]
    exact ⟨s, _, rfl, .refl h⟩
  · split
    · rw [if_neg (by simpa using hspilled), Sidecar.finalizeExternalMerge]
      have hbuffers := buffers_spillCurrentBuffer h io.spills
      split
      next t e heq =>
        rw [heq] at hbuffers
        exact ⟨t, e, rfl, hbuffers⟩
      next t heq =>
        rw [heq] at hbuffers
        have hmerges : io.merges = false := by
          rcases hstop with ⟨hfails, hrecords⟩ | hmerges
          · have hempty : s.records.isEmpty = false := by simpa using hrecords
            rw [Sidecar.spillCurrentBuffer, hempty, hfails] at heq
            cases (Prod.mk.inj heq).2
          · exact hmerges
        rw [if_pos (by simp [hmerges])]
        exact ⟨t, _, rfl, hbuffers⟩
    · exact ⟨s, _, rfl, .refl h⟩

end Steps

section Runs

namespace Session

variable {s t : Session}

private structure Invariant (s : Session) : Prop where
  fits : ∀ r ∈ s.sidecar.records, r.Fits s.sidecar.prefixBits
  loaded : s.sidecar.offsets = [] ∨ ∃ file, s.artifact = some file ∧
    Fitting s.sidecar.prefixBits s.sidecar.offsets s.sidecar.postings ∧
    Holds file s.sidecar.offsets s.sidecar.postings

private theorem Invariant.safe (h : Invariant s) : s.Safe := by
  intro hash
  rcases h.loaded with hempty | ⟨file, hartifact, hfitting, hholds⟩
  · refine .inl ⟨.invalidArgument, ?_⟩
    rw [Sidecar.candidates, hempty]
    rfl
  · exact .inr ⟨file, hartifact, candidates_eq hfitting hholds hash⟩

private theorem Invariant.buffers (h : Invariant s) {sidecar : Sidecar}
    (hbuffers : Buffers s.sidecar sidecar) : Invariant { s with sidecar } := by
  obtain ⟨records, spillFiles, rfl, hfits⟩ := hbuffers
  exact ⟨hfits, h.loaded⟩

private theorem Invariant.step (h : Invariant s) {a : SidecarAction} (hintact : s.Intact a)
    (hstep : s.step a = some t) : Invariant t := by
  cases a with
  | append works rows => exact Option.some.inj hstep ▸ h.buffers (buffers_append h.fits works rows)
  | finalize io =>
    obtain rfl := Option.some.inj hstep
    rcases hintact with ⟨hspills, hwrite⟩ | hstops
    · cases hvalid : validPrefixBits s.sidecar.prefixBits with
      | false =>
        rw [Sidecar.finalize, hvalid]
        exact h
      | true =>
        rw [Sidecar.finalize, hvalid, if_pos rfl, hspills, List.isEmpty_nil, if_pos rfl,
          finalizeInMemory_published hwrite]
        refine ⟨by simp [settle], .inr ⟨_, rfl, ?_, holds_artifactBytes⟩⟩
        exact fitting_of_pairwise hvalid (pairwise_sortUnique _) fun r hr =>
          h.fits r (mem_sortUnique.mp hr)
    · obtain ⟨sidecar, e, hfinalize, hbuffers⟩ := finalize_of_stopsEarly hstops h.fits
      rw [hfinalize]
      exact h.buffers hbuffers
  | openFile =>
    obtain rfl := Option.some.inj hstep
    by_cases haccepted : ∃ file ∈ s.sidecar.file, ∃ postingsCount input,
        readHeader s.sidecar.prefixBits file = some (postingsCount, input)
    · obtain ⟨file, hfile, postingsCount, input, hheader⟩ := haccepted
      obtain ⟨offsets, postings, hopened, hfitting, hholds⟩ :=
        openFile_of_complete hfile hheader (hintact file hfile postingsCount input hheader)
      rw [hopened]
      exact ⟨h.fits, .inr ⟨file, hfile, hfitting, hholds⟩⟩
    · obtain ⟨e, hrefused⟩ := openFile_refused (s := s.sidecar) fun file hfile => by
        rw [Option.eq_none_iff_forall_ne_some]
        intro accepted hheader
        exact haccepted ⟨file, hfile, accepted.1, accepted.2, hheader⟩
      rw [hrefused]
      exact h
  | replaceFile file => exact Option.some.inj hstep ▸ ⟨h.fits, h.loaded⟩

/-- In every run that finalizes without spilled runs and opens no file that breaks off after its header,
candidates are answered with an error or with what the last artifact stores. -/
theorem safe_of_reaches {prefixBits spillThreshold : ℕ} {file : Option (List UInt8)}
    (h : System.Reaches step Intact { sidecar := { prefixBits, spillThreshold, file } } s) :
    s.Safe := by
  have hinit : Invariant { sidecar := { prefixBits, spillThreshold, file } } := ⟨by simp, .inl rfl⟩
  exact (h.invariant hinit fun _ _ _ hinv hintact hstep => hinv.step hintact hstep).safe

end Session

end Runs

section Sample

namespace Session

private def row (hash : UInt64) (gameId : UInt32) : PositionRow :=
  ⟨hash, gameId, 0, 0, 0, none, none⟩

/-- A sidecar that merged a spilled run knows offsets but no postings. -/
theorem not_safe : ¬∀ (prefixBits spillThreshold : ℕ) (file : Option (List UInt8)) (s : Session),
    System.Reaches step (fun _ _ => True) { sidecar := { prefixBits, spillThreshold, file } } s →
      s.Safe := by
  intro h
  have hrun : (System.run step (fun _ _ => True) { sidecar := ⟨1, 1, [], [], [], [], none⟩ }
      [.append (fun _ => true) [row 0 5], .finalize {}]).map
        (fun s => s.sidecar.candidates 0) = some .outOfBounds := by
    decide +kernel
  obtain ⟨s, hs, hcandidates⟩ := Option.map_eq_some_iff.mp hrun
  rcases h 1 1 none s (System.reaches_of_run hs) 0 with ⟨e, herror⟩ | ⟨file, -, hids⟩
  · rw [hcandidates] at herror
    cases herror
  · rw [hcandidates] at hids
    cases hids

private def appended : Session where
  sidecar := (Sidecar.append (fun _ => true) [row 0 7, row 0 5, row (2 ^ 63) 6, row 1 5]
    { prefixBits := 1, spillThreshold := 10 }).1

theorem safe_of_reaches_sample : ∃ s : Session, s.sidecar.candidates 0 = .ids [5, 7] ∧ s.Safe := by
  have happend : step { sidecar := { prefixBits := 1, spillThreshold := 10 } }
      (.append (fun _ => true) [row 0 7, row 0 5, row (2 ^ 63) 6, row 1 5]) = some appended := rfl
  have hfinalize : step appended (.finalize {}) =
      some (appended.settle (appended.sidecar.finalize {})) := rfl
  have hintact : appended.Intact (.finalize {}) := Or.inl ⟨by decide +kernel, rfl⟩
  have hreach : System.Reaches step Intact
      { sidecar := { prefixBits := 1, spillThreshold := 10, file := none } } _ :=
    (System.Reaches.refl.tail trivial happend).tail hintact hfinalize
  exact ⟨_, by decide +kernel, safe_of_reaches hreach⟩

end Session

end Sample

end MotifChess.Db.PositionPrefixPostings
