/- GID: MotifChess/Import/PgnReader
   generality: implementation
   digest: The PGN reader over a stream of parsed games, its seek, and when a seek resumes it. -/

import MotifChess.Codec.RawLines
import MotifChess.Import.Pgn
import Mathlib.Data.List.Infix

set_option autoImplicit false
set_option relaxedAutoImplicit false

namespace MotifChess.Import

open MotifChess.Codec

/-- `pgn::parse_error`. -/
inductive ParseError
  | fileNotFound
  | syntaxError
  deriving DecidableEq

/-- The error codes that the reader returns. -/
inductive ReadError
  | ioFailure
  | eof
  | parseError
  deriving DecidableEq

/-- What a stream of games yields: the offset of the first tag of a game, and the game. -/
abbrev StreamItem := ℕ × Except ParseError PgnGame

section Scan

/-- `[Event "`. -/
def eventTagPrefix : List Char := ['[', 'E', 'v', 'e', 'n', 't', ' ', '"']

def isEventTagLine (line : List Char) : Bool := eventTagPrefix.isPrefixOf line

def updateBraceCommentState (text : List Char) (inBraceComment : Bool) : Bool :=
  text.foldl (fun inBraceComment c =>
    if !inBraceComment && c == '{' then true
    else if inBraceComment && c == '}' then false
    else inBraceComment) inBraceComment

/-- The start of the first event tag line from the offset sought on, among the lines that
`read_raw_line` reads one after another, outside what the scan takes for a comment. -/
def scanLines (byteOffset : ℕ) : ℕ → Bool → List (List Char) → Option ℕ
  | _, _, [] => none
  | lineStart, inBraceComment, line :: lines =>
    if !inBraceComment && decide (byteOffset ≤ lineStart) && isEventTagLine line then some lineStart
    else scanLines byteOffset (lineStart + line.length) (updateBraceCommentState line inBraceComment)
      lines

end Scan

/-- The reader: the offset at which its stream begins, the size of its file, and what the stream has
still to yield. -/
structure PgnReader where
  baseOffset : ℕ := 0
  eofOffset : ℕ := 0
  stream : Option (List StreamItem) := none
  gameNumber : ℕ := 0
  pendingIoFailure : Bool := false
  deriving DecidableEq

namespace PgnReader

section Operations

variable (importStream : List Char → List StreamItem)

/-- `reset_to_offset`: only reading the file can fail from its start. -/
def resetToOffset (file : Option (List Char)) (byteOffset : ℕ) (r : PgnReader) :
    Except ReadError Unit × PgnReader :=
  let r := { r with gameNumber := 0, stream := none, baseOffset := 0 }
  match file with
  | none => (.error .ioFailure, r)
  | some text =>
    let r := { r with eofOffset := text.length }
    match scanLines byteOffset 0 false (RawLines.rawLines '\n' text) with
    | none => (if 0 < byteOffset ∧ byteOffset < text.length then .error .ioFailure else .ok (), r)
    | some lineStart =>
      (.ok (), { r with baseOffset := lineStart, stream := some (importStream (text.drop lineStart)) })

/-- The constructor keeps a failure for the first read. -/
def new (file : Option (List Char)) : PgnReader :=
  match resetToOffset importStream file 0 {} with
  | (.ok (), r) => r
  | (.error _, r) => { r with pendingIoFailure := true }

def seekToOffset (file : Option (List Char)) (byteOffset : ℕ) (r : PgnReader) :
    Except ReadError Unit × PgnReader :=
  resetToOffset importStream file byteOffset { r with pendingIoFailure := false }

/-- What a read makes of an item of the stream. -/
def readItem : Except ParseError PgnGame → Except ReadError PgnGame
  | .ok game => .ok (readGame game)
  | .error .fileNotFound => .error .ioFailure
  | .error .syntaxError => .error .parseError

def next (r : PgnReader) : Except ReadError PgnGame × PgnReader :=
  if r.pendingIoFailure then (.error .ioFailure, { r with pendingIoFailure := false })
  else
    match r.stream with
    | none | some [] => (.error .eof, r)
    | some (item :: items) =>
      (readItem item.2, { r with stream := some items, gameNumber := r.gameNumber + 1 })

/-- `byte_offset`: where the game that is read next begins. -/
def byteOffset (r : PgnReader) : ℕ :=
  match r.stream with
  | none | some [] => r.eofOffset
  | some (item :: _) => r.baseOffset + item.1

/-- The reader after so many reads. -/
def after (r : PgnReader) : ℕ → PgnReader
  | 0 => r
  | reads + 1 => (r.after reads).next.2

/-- What so many reads yield, each with the offset reported before it, up to the end of the file. -/
def yieldsIn (r : PgnReader) : ℕ → List (ℕ × Except ReadError PgnGame)
  | 0 => []
  | reads + 1 =>
    match r.next with
    | (.error .eof, _) => []
    | (found, r') => (r.byteOffset, found) :: r'.yieldsIn reads

/-- What a reader has still to yield, until it reports the end of its file. -/
def yields (r : PgnReader) : List (ℕ × Except ReadError PgnGame) :=
  r.yieldsIn ((r.stream.getD []).length + 2)

end Operations

end PgnReader

section Resume

variable (importStream : List Char → List StreamItem)

/-- A stream yields games in the order of the file, each at the offset of its first tag, and reads
every game as it would at the start of a file. -/
structure ReadsInOrder (text : List Char) : Prop where
  ordered : ((importStream text).map Prod.fst).Pairwise (· < ·)
  within : ∀ item ∈ importStream text, item.1 < text.length
  resumes : ∀ i (h : i < (importStream text).length),
    importStream (text.drop ((importStream text)[i]).1) =
      ((importStream text).drop i).map fun item => (item.1 - ((importStream text)[i]).1, item.2)

/-- A line of the text begins there with an event tag, and no brace before it is left open. -/
structure ResumePoint (text : List Char) (position : ℕ) : Prop where
  startsLine : RawLines.StartsLine '\n' text position
  eventTag : eventTagPrefix <+: text.drop position
  closed : updateBraceCommentState (text.take position) false = false

/-- A seek to the offset that a first reader reports yields what that reader has still to yield. -/
def ResumesAt (text : List Char) (reads : ℕ) (r : PgnReader) : Prop :=
  let first := (PgnReader.new importStream (some text)).after reads
  let resumed := r.seekToOffset importStream (some text) first.byteOffset
  resumed.1 = .ok () ∧ resumed.2.yields = first.yields

end Resume

section Scan

variable {byteOffset lineStart position : ℕ} {state : Bool} {lines : List (List Char)}

theorem lt_of_scanLines (h : scanLines byteOffset lineStart state lines = some position) :
    position < lineStart + lines.flatten.length := by
  induction lines generalizing lineStart state with
  | nil => cases h
  | cons line lines ih =>
    rw [List.flatten_cons, List.length_append]
    rw [scanLines] at h
    split at h
    · next hfound =>
      obtain rfl := Option.some.inj h
      simp only [Bool.and_eq_true] at hfound
      have hlen := (List.isPrefixOf_iff_prefix.mp hfound.2).length_le
      have hpos : eventTagPrefix.length = 8 := rfl
      omega
    · have := ih h
      omega

theorem le_of_scanLines (h : scanLines byteOffset lineStart state lines = some position) :
    byteOffset ≤ position ∧ lineStart ≤ position := by
  induction lines generalizing lineStart state with
  | nil => cases h
  | cons line lines ih =>
    rw [scanLines] at h
    split at h
    · next hfound =>
      obtain rfl := Option.some.inj h
      simp only [Bool.and_eq_true, decide_eq_true_eq] at hfound
      exact ⟨hfound.1.2, le_rfl⟩
    · obtain ⟨hle, hstart⟩ := ih h
      exact ⟨hle, by omega⟩

/-- The scan stops at the offset sought exactly when an event tag line starts there, with no brace
open behind the lines before it. -/
private theorem scanLines_eq_self_iff (hstart : lineStart ≤ byteOffset) (hlines : ∀ line ∈ lines, line ≠ []) :
    scanLines byteOffset lineStart state lines = some byteOffset ↔
      ∃ before line after, lines = before ++ line :: after ∧
        byteOffset = lineStart + before.flatten.length ∧ isEventTagLine line = true ∧
        updateBraceCommentState before.flatten state = false := by
  induction lines generalizing lineStart state with
  | nil =>
    constructor
    · intro h
      cases h
    · intro h
      obtain ⟨before, line, after, h, -⟩ := h
      cases before <;> cases h
  | cons line lines ih =>
    have hline : 0 < line.length := List.length_pos_iff.mpr (hlines line List.mem_cons_self)
    have hrest : ∀ line ∈ lines, line ≠ [] := fun l hl => hlines l (List.mem_cons_of_mem line hl)
    rw [scanLines]
    constructor
    · intro h
      split at h
      · next hfound =>
        simp only [Bool.and_eq_true, Bool.not_eq_true', decide_eq_true_eq] at hfound
        obtain rfl := Option.some.inj h
        exact ⟨[], line, lines, rfl, rfl, hfound.2, hfound.1.1⟩
      · have hle := (le_of_scanLines h).2
        obtain ⟨before, found, after, rfl, hoffset, htag, hclosed⟩ := (ih hle hrest).mp h
        refine ⟨line :: before, found, after, rfl, ?_, htag, ?_⟩
        · rw [hoffset, List.flatten_cons, List.length_append]
          omega
        · rw [List.flatten_cons]
          unfold updateBraceCommentState at hclosed ⊢
          rw [List.foldl_append]
          exact hclosed
    · intro h
      obtain ⟨before, found, after, hsplit, hoffset, htag, hclosed⟩ := h
      cases before with
      | nil =>
        obtain ⟨rfl, -⟩ := List.cons.inj hsplit
        have hstate : state = false := hclosed
        have hhere : byteOffset = lineStart := by simpa using hoffset
        rw [hhere, hstate, htag]
        simp
      | cons first before =>
        obtain ⟨rfl, htail⟩ := List.cons.inj hsplit
        rw [List.flatten_cons, List.length_append] at hoffset
        rw [if_neg (by simp only [Bool.and_eq_true, decide_eq_true_eq]; omega)]
        refine (ih (by omega) hrest).mpr ⟨before, found, after, htail, by omega, htag, ?_⟩
        rw [List.flatten_cons] at hclosed
        unfold updateBraceCommentState at hclosed ⊢
        rwa [List.foldl_append] at hclosed

private theorem scanLines_text_iff {text : List Char} :
    scanLines byteOffset 0 false (RawLines.rawLines '\n' text) = some byteOffset ↔
      ResumePoint text byteOffset := by
  rw [scanLines_eq_self_iff (Nat.zero_le _) fun _ => RawLines.ne_nil_of_mem_rawLines]
  constructor
  · intro h
    obtain ⟨before, line, after, hsplit, hoffset, htag, hclosed⟩ := h
    rw [Nat.zero_add] at hoffset
    have htext := congrArg List.flatten hsplit
    rw [RawLines.flatten_rawLines, List.flatten_append] at htext
    have htake : text.take byteOffset = before.flatten := by
      rw [htext, hoffset, List.take_left]
    have hdrop : text.drop byteOffset = (line :: after).flatten := by
      rw [htext, hoffset, List.drop_left]
    refine ⟨?_, ?_, by rwa [htake]⟩
    · rw [hoffset]
      exact RawLines.startsLine_of_append hsplit (List.cons_ne_nil _ _)
    · rw [hdrop, List.flatten_cons]
      exact (List.isPrefixOf_iff_prefix.mp htag).trans (List.prefix_append _ _)
  · intro h
    have hhead : ∃ line ∈ (RawLines.rawLines '\n' (text.drop byteOffset)).head?,
        eventTagPrefix <+: line :=
      (RawLines.prefix_head_iff (by decide) (by decide)).mpr h.eventTag
    obtain ⟨line, hline, hprefix⟩ := hhead
    obtain ⟨after, hafter⟩ := List.head?_eq_some_iff.mp hline
    refine ⟨RawLines.rawLines '\n' (text.take byteOffset), line, after, ?_, ?_,
      List.isPrefixOf_iff_prefix.mpr hprefix, ?_⟩
    · rw [RawLines.rawLines_of_startsLine h.startsLine, hafter]
    · have hlen := h.eventTag.length_le
      have hpos : eventTagPrefix.length = 8 := rfl
      rw [RawLines.flatten_rawLines, List.length_take, List.length_drop] at *
      omega
    · rw [RawLines.flatten_rawLines]
      exact h.closed

end Scan

namespace PgnReader

/-- A reader that has its file open, and what its stream has left. -/
structure Holds (text : List Char) (base : ℕ) (items : List StreamItem) (r : PgnReader) : Prop where
  pending : r.pendingIoFailure = false
  eofOffset : r.eofOffset = text.length
  baseOffset : r.baseOffset = base
  stream : r.stream = some items ∨ r.stream = none ∧ items = []

variable {importStream : List Char → List StreamItem} {text : List Char} {base reads : ℕ}
  {item : StreamItem} {items : List StreamItem} {r : PgnReader}

section Steps

theorem readItem_ne_eof (found : Except ParseError PgnGame) : readItem found ≠ .error .eof := by
  intro h
  cases found with
  | ok game => cases h
  | error e => cases e <;> cases h

theorem Holds.byteOffset_nil (h : Holds text base [] r) : r.byteOffset = text.length := by
  unfold PgnReader.byteOffset
  rcases h.stream with hstream | ⟨hstream, -⟩ <;> rw [hstream] <;> exact h.eofOffset

theorem Holds.byteOffset_cons (h : Holds text base (item :: items) r) :
    r.byteOffset = base + item.1 := by
  unfold PgnReader.byteOffset
  rcases h.stream with hstream | ⟨-, hnil⟩
  · rw [hstream, ← h.baseOffset]
  · cases hnil

theorem Holds.next_nil (h : Holds text base [] r) : r.next = (.error .eof, r) := by
  unfold PgnReader.next
  rw [if_neg (by simp [h.pending])]
  rcases h.stream with hstream | ⟨hstream, -⟩ <;> rw [hstream]

theorem Holds.next_cons (h : Holds text base (item :: items) r) :
    r.next.1 = readItem item.2 ∧ Holds text base items r.next.2 := by
  unfold PgnReader.next
  rw [if_neg (by simp [h.pending])]
  rcases h.stream with hstream | ⟨-, hnil⟩
  · rw [hstream]
    exact ⟨rfl, h.pending, h.eofOffset, h.baseOffset, Or.inl rfl⟩
  · cases hnil

theorem Holds.after (h : Holds text base items r) (reads : ℕ) :
    Holds text base (items.drop reads) (r.after reads) := by
  induction reads with
  | zero => exact h
  | succ reads ih =>
    have htail : items.drop (reads + 1) = (items.drop reads).tail := by
      rw [List.tail_drop]
    rw [htail, PgnReader.after]
    cases hleft : items.drop reads with
    | nil =>
      rw [hleft] at ih
      rw [ih.next_nil]
      exact ih
    | cons item items =>
      rw [hleft] at ih
      exact ih.next_cons.2

private theorem Holds.yieldsIn (h : Holds text base items r) (hreads : items.length < reads) :
    r.yieldsIn reads = items.map fun item => (base + item.1, readItem item.2) := by
  induction items generalizing r reads with
  | nil =>
    cases reads with
    | zero => rfl
    | succ reads =>
      rw [PgnReader.yieldsIn, h.next_nil]
      rfl
  | cons item items ih =>
    obtain ⟨reads, rfl⟩ : ∃ n, reads = n + 1 := ⟨reads - 1, by omega⟩
    obtain ⟨hfound, hnext⟩ := h.next_cons
    have hoffset := h.byteOffset_cons
    rw [List.length_cons] at hreads
    have hless : items.length < reads := by omega
    have htail := ih hnext hless
    rw [List.map_cons, ← htail, ← hoffset, ← hfound, PgnReader.yieldsIn]
    have hne := readItem_ne_eof item.2
    rw [← hfound] at hne
    generalize r.next = found at hne
    obtain ⟨found, r'⟩ := found
    cases found with
    | ok game => rfl
    | error e =>
      cases e with
      | eof => exact absurd rfl hne
      | ioFailure => rfl
      | parseError => rfl

theorem Holds.yields (h : Holds text base items r) :
    r.yields = items.map fun item => (base + item.1, readItem item.2) := by
  apply h.yieldsIn
  rcases h.stream with hstream | ⟨-, rfl⟩
  · rw [hstream, Option.getD_some]
    omega
  · exact Nat.succ_pos _

end Steps

section Seek

variable {position start : ℕ}

theorem seek_of_found (importStream : List Char → List StreamItem) (r : PgnReader)
    (h : scanLines position 0 false (RawLines.rawLines '\n' text) = some start) :
    (r.seekToOffset importStream (some text) position).1 = .ok () ∧
      Holds text start (importStream (text.drop start))
        (r.seekToOffset importStream (some text) position).2 := by
  simp only [seekToOffset, resetToOffset, h]
  exact ⟨trivial, rfl, rfl, rfl, Or.inl rfl⟩

theorem seek_of_none (importStream : List Char → List StreamItem) (r : PgnReader)
    (h : scanLines position 0 false (RawLines.rawLines '\n' text) = none) :
    ((r.seekToOffset importStream (some text) position).1 = .ok () ↔
      ¬(0 < position ∧ position < text.length)) ∧
      Holds text 0 [] (r.seekToOffset importStream (some text) position).2 := by
  simp only [seekToOffset, resetToOffset, h]
  refine ⟨?_, rfl, rfl, rfl, Or.inr ⟨rfl, rfl⟩⟩
  split
  · next hinside => simp [hinside]
  · next houtside => simp [houtside]

/-- A new reader has the games from the first event tag line on, or none. -/
theorem holds_new (importStream : List Char → List StreamItem) (text : List Char) :
    ∃ items, (items = importStream (text.drop (new importStream (some text)).baseOffset) ∨ items = []) ∧
      Holds text (new importStream (some text)).baseOffset items (new importStream (some text)) := by
  cases h : scanLines 0 0 false (RawLines.rawLines '\n' text) with
  | none =>
    refine ⟨[], Or.inr rfl, ?_⟩
    simp only [new, resetToOffset, h, Nat.not_lt_zero, false_and, if_false]
    exact ⟨rfl, rfl, rfl, Or.inr ⟨rfl, rfl⟩⟩
  | some start =>
    simp only [new, resetToOffset, h]
    exact ⟨_, Or.inl rfl, rfl, rfl, rfl, Or.inl rfl⟩

end Seek

end PgnReader

section Resume

open PgnReader

variable {importStream : List Char → List StreamItem} {text : List Char} {base : ℕ}
  {items : List StreamItem} {item : StreamItem} {first r : PgnReader}

private theorem resumes_at_end (hfirst : Holds text base [] first) :
    (r.seekToOffset importStream (some text) first.byteOffset).1 = .ok () ∧
      (r.seekToOffset importStream (some text) first.byteOffset).2.yields = first.yields := by
  rw [hfirst.byteOffset_nil, hfirst.yields]
  have hscan : scanLines text.length 0 false (RawLines.rawLines '\n' text) = none := by
    rw [Option.eq_none_iff_forall_ne_some]
    intro position h
    have hle := (le_of_scanLines h).1
    have hlt := lt_of_scanLines h
    rw [RawLines.flatten_rawLines] at hlt
    omega
  obtain ⟨hok, hholds⟩ := seek_of_none importStream r hscan
  exact ⟨hok.mpr (by omega), hholds.yields⟩

private theorem resumes_of_resumePoint (hitems : ∀ other ∈ item :: items, item.1 ≤ other.1)
    (hfirst : Holds text base (item :: items) first)
    (hstream : importStream (text.drop (base + item.1)) =
      (item :: items).map fun other => (other.1 - item.1, other.2))
    (hpoint : ResumePoint text first.byteOffset) :
    (r.seekToOffset importStream (some text) first.byteOffset).1 = .ok () ∧
      (r.seekToOffset importStream (some text) first.byteOffset).2.yields = first.yields := by
  obtain ⟨hok, hholds⟩ := seek_of_found importStream r
    (scanLines_text_iff.mpr hpoint)
  refine ⟨hok, ?_⟩
  rw [hholds.yields, hfirst.yields, hfirst.byteOffset_cons, hstream, List.map_map]
  apply List.map_congr_left
  intro other hother
  have hle := hitems other hother
  have hoffset : base + item.1 + (other.1 - item.1) = base + other.1 := by omega
  simp only [Function.comp_apply, hoffset]

private theorem resumePoint_of_resumes (hfirst : Holds text base (item :: items) first)
    (h : (r.seekToOffset importStream (some text) first.byteOffset).2.yields = first.yields) :
    ResumePoint text first.byteOffset := by
  rw [hfirst.yields, hfirst.byteOffset_cons] at h
  rw [hfirst.byteOffset_cons]
  cases hscan : scanLines (base + item.1) 0 false (RawLines.rawLines '\n' text) with
  | none =>
    rw [(seek_of_none importStream r hscan).2.yields] at h
    cases h
  | some start =>
    have hle := (le_of_scanLines hscan).1
    rw [(seek_of_found importStream r hscan).2.yields] at h
    cases hstream : importStream (text.drop start) with
    | nil =>
      rw [hstream] at h
      cases h
    | cons found rest =>
      rw [hstream] at h
      have hoffset : start + found.1 = base + item.1 := congrArg Prod.fst (List.cons.inj h).1
      obtain rfl : start = base + item.1 := by omega
      exact scanLines_text_iff.mp hscan

/-- A seek resumes a first reader exactly when that reader is at the end of the file, or an event
tag line that the scan takes for one stands at the offset. -/
theorem resumesAt_iff (importStream : List Char → List StreamItem) (text : List Char)
    (h : ReadsInOrder importStream (text.drop (new importStream (some text)).baseOffset))
    (reads : ℕ) (r : PgnReader) :
    ResumesAt importStream text reads r ↔
      ((new importStream (some text)).after reads).byteOffset = text.length ∨
        ResumePoint text ((new importStream (some text)).after reads).byteOffset := by
  obtain ⟨items, hitems, hnew⟩ := holds_new importStream text
  set base := (new importStream (some text)).baseOffset with hbase
  have hfirst := hnew.after reads
  set first := (new importStream (some text)).after reads with hfirstDef
  unfold ResumesAt
  rw [← hfirstDef]
  cases hleft : items.drop reads with
  | nil =>
    rw [hleft] at hfirst
    exact iff_of_true (resumes_at_end hfirst) (Or.inl hfirst.byteOffset_nil)
  | cons item rest =>
    obtain rfl : items = importStream (text.drop base) := by
      rcases hitems with hitems | rfl
      · exact hitems
      · simp at hleft
    have hlt : reads < (importStream (text.drop base)).length := by
      by_contra hge
      rw [List.drop_eq_nil_iff.mpr (Nat.le_of_not_lt hge)] at hleft
      cases hleft
    have hitem : (importStream (text.drop base))[reads] = item := by
      rw [List.drop_eq_getElem_cons hlt] at hleft
      exact (List.cons.inj hleft).1
    have hinside : base + item.1 < text.length := by
      have hwithin := h.within item (hitem ▸ List.getElem_mem hlt)
      rw [List.length_drop] at hwithin
      omega
    have hresumes := h.resumes reads hlt
    rw [hitem, hleft, List.drop_drop] at hresumes
    have hordered : ((item :: rest).map Prod.fst).Pairwise (· < ·) := by
      rw [← hleft, List.map_drop]
      exact h.ordered.sublist (List.drop_sublist _ _)
    rw [hleft] at hfirst
    constructor
    · intro hresumed
      exact Or.inr (resumePoint_of_resumes hfirst hresumed.2)
    · intro hpoint
      have hend : first.byteOffset ≠ text.length := by
        rw [hfirst.byteOffset_cons]
        omega
      refine resumes_of_resumePoint ?_ hfirst hresumes (hpoint.resolve_left hend)
      intro other hother
      rcases List.mem_cons.mp hother with rfl | hother
      · exact le_rfl
      · exact le_of_lt ((List.pairwise_cons.mp hordered).1 _ (List.mem_map_of_mem hother))

end Resume

section Samples

/-- The key and the raw value of a tag line. -/
def tagOfLine : List Char → Option (String × String)
  | '[' :: line =>
    some (.ofList (line.takeWhile (· != ' ')),
      .ofList (((line.dropWhile (· != '"')).drop 1).takeWhile (· != '"')))
  | _ => none

/-- A parser for samples, of games without moves whose tags and result stand on lines of their own. -/
def gamesOfLines : ℕ → Option (ℕ × List (String × String)) → List (List Char) → List StreamItem
  | _, _, [] => []
  | offset, opened, line :: lines =>
    match tagOfLine line with
    | some tag =>
      let opened := match opened with
        | none => (offset, [tag])
        | some (start, tags) => (start, tags ++ [tag])
      gamesOfLines (offset + line.length) (some opened) lines
    | none =>
      match opened, line with
      | some (start, tags), '*' :: _ =>
        (start, .ok ⟨tags, [], .unknown⟩) :: gamesOfLines (offset + line.length) none lines
      | _, _ => gamesOfLines (offset + line.length) opened lines

def sampleStream (text : List Char) : List StreamItem :=
  gamesOfLines 0 none (RawLines.rawLines '\n' text)

/-- Two games, the first with the given name of its White player. -/
def twoGames (white : String) : List Char :=
  ("[Event \"A\"]\n[White \"" ++ white ++ "\"]\n\n*\n\n[Event \"B\"]\n\n*\n").toList

theorem resumesAt_iff_sample : ResumesAt sampleStream (twoGames "W") 1 {} :=
  (resumesAt_iff sampleStream (twoGames "W")
    ⟨by decide +kernel, by decide +kernel, by decide +kernel⟩ 1 {}).mpr
    (Or.inr ⟨by decide +kernel, by decide +kernel, by decide +kernel⟩)

/-- A brace in a tag value hides the game behind it from every seek. -/
theorem not_resumesAt : ReadsInOrder sampleStream
      ((twoGames "\x7b").drop (PgnReader.new sampleStream (some (twoGames "\x7b"))).baseOffset) ∧
    ((PgnReader.new sampleStream (some (twoGames "\x7b"))).after 1).yields =
      [(28, .ok ⟨[("Event", "B")], [], .unknown⟩)] ∧
    ¬ResumesAt sampleStream (twoGames "\x7b") 1 {} := by
  refine ⟨⟨by decide +kernel, by decide +kernel, by decide +kernel⟩, by decide +kernel, ?_⟩
  intro h
  exact absurd h.1 (by decide +kernel)

end Samples

end MotifChess.Import
