/- GID: MotifChess/SlintApp/SquaresFromFen
   generality: implementation
   digest: The squares that a board shows, read from the placement field of a position's text. -/

import Mathlib.Algebra.Ring.Int.Defs
import Mathlib.Data.List.OfFn
import Mathlib.Tactic.IntervalCases
import Mathlib.Tactic.NormNum

set_option autoImplicit false
set_option relaxedAutoImplicit false

namespace MotifChess.SlintApp

section Reading

def boardDimension : ℕ := 8

/-- The squares that were read so far, and the square that the next character is about. -/
structure PlacementScan where
  squares : List String
  rank : ℤ
  file : ℤ

/-- The code of a piece: its color and its kind. -/
def pieceCode (c : Char) : String := String.ofList [if c.isUpper then 'w' else 'b', c.toUpper]

def scanChar (s : PlacementScan) (c : Char) : PlacementScan :=
  if c = '/' then { s with rank := s.rank - 1, file := 0 }
  else if 49 ≤ c.toNat ∧ c.toNat ≤ 56 then { s with file := s.file + (c.toNat - 48 : ℕ) }
  else if s.rank < 0 ∨ s.file < 0 ∨ boardDimension ≤ s.file then s
  else { s with
    squares := s.squares.set (s.rank.toNat * boardDimension + s.file.toNat) (pieceCode c)
    file := s.file + 1 }

/-- `squares_from_fen`: one entry for each square, empty where no piece stands. -/
def squaresFromFen (fen : String) : List String :=
  ((fen.toList.takeWhile (· ≠ ' ')).foldl scanChar
    ⟨List.replicate (boardDimension * boardDimension) "", boardDimension - 1, 0⟩).squares

/-- Entries of a board: one for each square, each empty or the code of a piece. -/
structure AreSquares (squares : List String) : Prop where
  length : squares.length = boardDimension * boardDimension
  codes : ∀ entry ∈ squares, entry = "" ∨ ∃ c, entry = pieceCode c

private theorem AreSquares.scanChar {s : PlacementScan} (h : AreSquares s.squares) (c : Char) :
    AreSquares (scanChar s c).squares := by
  unfold SlintApp.scanChar
  split_ifs
  · exact h
  · exact h
  · exact h
  · refine ⟨List.length_set.trans h.length, fun entry hentry => ?_⟩
    rcases List.mem_or_eq_of_mem_set hentry with hmem | rfl
    · exact h.codes entry hmem
    · exact .inr ⟨c, rfl⟩

theorem AreSquares.foldl {text : List Char} {s : PlacementScan} (h : AreSquares s.squares) :
    AreSquares (text.foldl SlintApp.scanChar s).squares := by
  induction text generalizing s with
  | nil => exact h
  | cons c text ih => exact ih (h.scanChar c)

theorem areSquares_replicate :
    AreSquares (List.replicate (boardDimension * boardDimension) "") :=
  ⟨List.length_replicate, fun _ hentry => .inl (List.eq_of_mem_replicate hentry)⟩

theorem areSquares_squaresFromFen (fen : String) : AreSquares (squaresFromFen fen) :=
  areSquares_replicate.foldl

end Reading

section Writing

/-- The digit for a run of empty squares. -/
def runText (n : ℕ) : List Char := if n = 0 then [] else [Char.ofNat (48 + n)]

/-- The text of a rank from its file a on, after so many empty squares. -/
def rankText (n : ℕ) : List (Option Char) → List Char
  | [] => runText n
  | none :: squares => rankText (n + 1) squares
  | some c :: squares => runText n ++ c :: rankText 0 squares

/-- The placement field of a position's text: its ranks from the eighth one down. -/
def placementText : List (List (Option Char)) → List Char
  | [] => []
  | [rank] => rankText 0 rank
  | rank :: ranks => rankText 0 rank ++ '/' :: placementText ranks

/-- The letters that stand for pieces. -/
def IsPiece (c : Char) : Prop := c ∈ ['P', 'N', 'B', 'R', 'Q', 'K', 'p', 'n', 'b', 'r', 'q', 'k']

instance : DecidablePred IsPiece := fun c =>
  inferInstanceAs (Decidable (c ∈ ['P', 'N', 'B', 'R', 'Q', 'K', 'p', 'n', 'b', 'r', 'q', 'k']))

/-- What a board shows of a square. -/
def squareCode (square : Option Char) : String := square.elim "" pieceCode

/-- The squares with the pieces of a rank on them, from an index on. -/
def paint (squares : List String) (i : ℕ) : List (Option Char) → List String
  | [] => squares
  | none :: rank => paint squares (i + 1) rank
  | some c :: rank => paint (squares.set i (pieceCode c)) (i + 1) rank

private theorem paint_empty (rank : List (Option Char)) (before after : List String) :
    paint (before ++ (List.replicate rank.length "" ++ after)) before.length rank =
      before ++ (rank.map squareCode ++ after) := by
  induction rank generalizing before with
  | nil => rfl
  | cons square rank ih =>
    have hcons : before ++ (List.replicate (rank.length + 1) "" ++ after) =
        before ++ [""] ++ (List.replicate rank.length "" ++ after) := by
      simp [List.replicate_succ]
    cases square with
    | none =>
      have hnext := ih (before ++ [""])
      rw [List.length_append, List.length_singleton] at hnext
      rw [List.length_cons, hcons, paint, hnext]
      simp [squareCode]
    | some c =>
      have hnext := ih (before ++ [pieceCode c])
      rw [List.length_append, List.length_singleton] at hnext
      have hset : (before ++ [""] ++ (List.replicate rank.length "" ++ after)).set before.length
          (pieceCode c) = before ++ [pieceCode c] ++ (List.replicate rank.length "" ++ after) := by
        simp
      rw [List.length_cons, hcons, paint, hset, hnext]
      simp [squareCode]

private theorem foldl_runText {s : PlacementScan} {n : ℕ} (hn : n ≤ 8) :
    (runText n).foldl scanChar s = { s with file := s.file + n } := by
  unfold runText
  split
  next hzero =>
    subst hzero
    simp
  next hpos =>
    rw [List.foldl_cons, List.foldl_nil]
    have hvalid : (Char.ofNat (48 + n)).toNat = 48 + n := by
      interval_cases n <;> decide
    have hslash : Char.ofNat (48 + n) ≠ '/' := by
      intro heq
      have htoNat := congrArg Char.toNat heq
      rw [hvalid] at htoNat
      have hcode : '/'.toNat = 47 := rfl
      omega
    rw [scanChar, if_neg hslash, if_pos (by omega), hvalid]
    simp

private theorem scanChar_piece {squares : List String} {c : Char} (hc : IsPiece c) {rank file : ℕ}
    (hfile : file < 8) :
    scanChar ⟨squares, rank, file⟩ c =
      ⟨squares.set (rank * boardDimension + file) (pieceCode c), rank, (file + 1 : ℕ)⟩ := by
  have hplain : c ≠ '/' ∧ ¬(49 ≤ c.toNat ∧ c.toNat ≤ 56) := by
    have hall : (['P', 'N', 'B', 'R', 'Q', 'K', 'p', 'n', 'b', 'r', 'q', 'k'].all fun c =>
        decide (c ≠ '/' ∧ ¬(49 ≤ c.toNat ∧ c.toNat ≤ 56))) = true := by decide
    exact of_decide_eq_true (List.all_eq_true.mp hall c hc)
  rw [scanChar, if_neg hplain.1, if_neg hplain.2, if_neg]
  · simp
  · unfold boardDimension
    dsimp only
    omega

private theorem foldl_rankText {row : List (Option Char)} (hpieces : ∀ c, some c ∈ row → IsPiece c)
    (squares : List String) (rank : ℕ) {file n : ℕ} (hwidth : file + n + row.length ≤ 8) :
    (rankText n row).foldl scanChar ⟨squares, rank, file⟩ =
      ⟨paint squares (rank * boardDimension + (file + n)) row, rank,
        (file + n + row.length : ℕ)⟩ := by
  induction row generalizing squares file n with
  | nil =>
    rw [rankText, foldl_runText (by simp only [List.length_nil] at hwidth; omega), paint]
    simp
  | cons square row ih =>
    rw [List.length_cons] at hwidth
    have hrest : ∀ c, some c ∈ row → IsPiece c := fun c hc =>
      hpieces c (List.mem_cons_of_mem _ hc)
    cases square with
    | none =>
      rw [rankText, ih hrest _ (by omega), paint, List.length_cons]
      congr 2; omega
    | some c =>
      have hc := hpieces c List.mem_cons_self
      have hscan : scanChar ⟨squares, rank, (file : ℤ) + n⟩ c =
          ⟨squares.set (rank * boardDimension + (file + n)) (pieceCode c), rank,
            (file + n + 1 : ℕ)⟩ := by
        rw [← scanChar_piece hc (by omega)]
        simp
      rw [rankText, List.foldl_append, foldl_runText (by omega), List.foldl_cons]
      dsimp only
      rw [hscan, ih hrest _ (by omega), paint, List.length_cons]
      congr 2; omega

private theorem foldl_placementText {ranks : List (List (Option Char))}
    (hpieces : ∀ row ∈ ranks, row.length = 8 ∧ ∀ c, some c ∈ row → IsPiece c) (hne : ranks ≠ [])
    (top : List String) :
    ((placementText ranks).foldl scanChar
      ⟨List.replicate (boardDimension * ranks.length) "" ++ top, (ranks.length : ℤ) - 1, 0⟩).squares =
      ranks.reverse.flatten.map squareCode ++ top := by
  induction ranks generalizing top with
  | nil => exact absurd rfl hne
  | cons row ranks ih =>
    obtain ⟨hlength, hrow⟩ := hpieces row List.mem_cons_self
    have hsquares : List.replicate (boardDimension * (row :: ranks).length) "" ++ top =
        List.replicate (boardDimension * ranks.length) "" ++
          (List.replicate row.length "" ++ top) := by
      rw [List.length_cons, hlength, Nat.mul_add, ← List.replicate_append_replicate,
        List.append_assoc]
      rfl
    have hpainted : paint (List.replicate (boardDimension * ranks.length) "" ++
        (List.replicate row.length "" ++ top)) (ranks.length * boardDimension + (0 + 0)) row =
        List.replicate (boardDimension * ranks.length) "" ++ (row.map squareCode ++ top) := by
      have hpaint := paint_empty row (List.replicate (boardDimension * ranks.length) "") top
      rw [List.length_replicate] at hpaint
      rw [Nat.add_zero, Nat.mul_comm ranks.length, hpaint]
    have hwidth : 0 + 0 + row.length ≤ 8 := by omega
    have hread := foldl_rankText hrow (List.replicate (boardDimension * ranks.length) "" ++
      (List.replicate row.length "" ++ top)) ranks.length hwidth
    rw [hpainted] at hread
    have hrank : ((row :: ranks).length : ℤ) - 1 = ranks.length := by
      rw [List.length_cons]
      omega
    rw [hsquares, hrank]
    cases ranks with
    | nil =>
      have htext : placementText [row] = rankText 0 row := rfl
      rw [htext, ← Nat.cast_zero, hread]
      simp
    | cons second ranks =>
      have htext : placementText (row :: second :: ranks) =
          rankText 0 row ++ '/' :: placementText (second :: ranks) := rfl
      rw [htext, List.foldl_append, ← Nat.cast_zero, hread, List.foldl_cons, scanChar, if_pos rfl]
      have hnext := ih (fun row hmem => hpieces row (List.mem_cons_of_mem _ hmem))
        (List.cons_ne_nil _ _) (row.map squareCode ++ top)
      dsimp only
      rw [hnext]
      simp

private theorem not_mem_rankText {row : List (Option Char)} (hpieces : ∀ c, some c ∈ row → IsPiece c)
    {n : ℕ} (hwidth : n + row.length ≤ 8) : ' ' ∉ rankText n row := by
  have hrun : ∀ n ≤ 8, ' ' ∉ runText n := by decide
  induction row generalizing n with
  | nil => exact hrun n hwidth
  | cons square row ih =>
    rw [List.length_cons] at hwidth
    have hrest : ∀ c, some c ∈ row → IsPiece c := fun c hc =>
      hpieces c (List.mem_cons_of_mem _ hc)
    cases square with
    | none => exact ih hrest (by omega)
    | some c =>
      have hc : ' ' ≠ c := by
        rintro rfl
        exact absurd (hpieces ' ' List.mem_cons_self) (by decide)
      rw [rankText, List.mem_append, List.mem_cons]
      rintro (hmem | heq | hmem)
      · exact hrun n (by omega) hmem
      · exact hc heq
      · exact ih hrest (by omega) hmem

private theorem not_mem_placementText {ranks : List (List (Option Char))}
    (hpieces : ∀ row ∈ ranks, row.length = 8 ∧ ∀ c, some c ∈ row → IsPiece c) :
    ' ' ∉ placementText ranks := by
  induction ranks with
  | nil => exact List.not_mem_nil
  | cons row ranks ih =>
    obtain ⟨hlength, hrow⟩ := hpieces row List.mem_cons_self
    have hfirst : ' ' ∉ rankText 0 row := not_mem_rankText hrow (by omega)
    cases ranks with
    | nil => exact hfirst
    | cons second ranks =>
      have htext : placementText (row :: second :: ranks) =
          rankText 0 row ++ '/' :: placementText (second :: ranks) := rfl
      rw [htext, List.mem_append, List.mem_cons]
      rintro (hmem | heq | hmem)
      · exact hfirst hmem
      · exact absurd heq (by decide)
      · exact ih (fun row hmem => hpieces row (List.mem_cons_of_mem _ hmem)) hmem

inductive PieceKind
  | pawn
  | knight
  | bishop
  | rook
  | queen
  | king
  deriving DecidableEq

structure Piece where
  white : Bool
  kind : PieceKind
  deriving DecidableEq

/-- The letter of a piece in the text of a position. -/
def Piece.letter : Piece → Char
  | ⟨true, .pawn⟩ => 'P'
  | ⟨true, .knight⟩ => 'N'
  | ⟨true, .bishop⟩ => 'B'
  | ⟨true, .rook⟩ => 'R'
  | ⟨true, .queen⟩ => 'Q'
  | ⟨true, .king⟩ => 'K'
  | ⟨false, .pawn⟩ => 'p'
  | ⟨false, .knight⟩ => 'n'
  | ⟨false, .bishop⟩ => 'b'
  | ⟨false, .rook⟩ => 'r'
  | ⟨false, .queen⟩ => 'q'
  | ⟨false, .king⟩ => 'k'

private theorem isPiece_letter (piece : Piece) : IsPiece piece.letter := by
  obtain ⟨white, kind⟩ := piece
  cases white <;> cases kind <;> decide

/-- The ranks of a board from the eighth one down, as letters. -/
def ranksOf (board : Fin 8 → Fin 8 → Option Piece) : List (List (Option Char)) :=
  (List.ofFn fun rank => List.ofFn fun file => (board rank file).map Piece.letter).reverse

private theorem rows_ranksOf (board : Fin 8 → Fin 8 → Option Piece) :
    ∀ row ∈ ranksOf board, row.length = 8 ∧ ∀ c, some c ∈ row → IsPiece c := by
  intro row hrow
  obtain ⟨rank, rfl⟩ := List.mem_ofFn.mp (List.mem_reverse.mp hrow)
  refine ⟨List.length_ofFn, fun c hc => ?_⟩
  obtain ⟨file, hfile⟩ := List.mem_ofFn.mp hc
  obtain ⟨piece, -, rfl⟩ := Option.map_eq_some_iff.mp hfile
  exact isPiece_letter piece

/-- The text of a position with a board: the placement field, and the fields after it. -/
def fenText (board : Fin 8 → Fin 8 → Option Piece) (fields : List Char) : String :=
  String.ofList (placementText (ranksOf board) ++ ' ' :: fields)

private theorem getElem?_ranksOf (board : Fin 8 → Fin 8 → Option Piece) (rank file : Fin 8) :
    ((ranksOf board).reverse.flatten.map squareCode)[rank * boardDimension + file]? =
      some (squareCode ((board rank file).map Piece.letter)) := by
  have hflatten : (ranksOf board).reverse.flatten.map squareCode = List.ofFn fun i : Fin (8 * 8) =>
      squareCode ((board ⟨i / 8, by omega⟩ ⟨i % 8, by omega⟩).map Piece.letter) := by
    rw [ranksOf, List.reverse_reverse, List.map_flatten, List.map_ofFn, List.ofFn_mul]
    refine congrArg List.flatten (congrArg List.ofFn (funext fun i => ?_))
    rw [Function.comp_apply, List.map_ofFn]
    refine congrArg List.ofFn (funext fun j => ?_)
    have hrank : (i.val * 8 + j.val) / 8 = i.val := by omega
    have hfile : (i.val * 8 + j.val) % 8 = j.val := by omega
    simp only [Function.comp_apply, hrank, hfile]
  have hbound : rank.val * 8 + file.val < 8 * 8 := by omega
  have hrank : (rank.val * 8 + file.val) / 8 = rank.val := by omega
  have hfile : (rank.val * 8 + file.val) % 8 = file.val := by omega
  rw [hflatten, boardDimension, List.getElem?_ofFn, dif_pos hbound]
  simp only [hrank, hfile]

/-- Reading the text of a position gives an entry for each square that says what stands there,
whatever the other fields of the text say. -/
theorem squaresFromFen_fenText (board : Fin 8 → Fin 8 → Option Piece) (fields : List Char) :
    (squaresFromFen (fenText board fields)).length = boardDimension * boardDimension ∧
      ∀ rank file : Fin 8, (squaresFromFen (fenText board fields))[rank * boardDimension + file]? =
        some (squareCode ((board rank file).map Piece.letter)) := by
  have hrows := rows_ranksOf board
  have hplacement : (placementText (ranksOf board) ++ ' ' :: fields).takeWhile (· ≠ ' ') =
      placementText (ranksOf board) := by
    rw [List.takeWhile_append_of_pos, List.takeWhile_cons_of_neg (by decide), List.append_nil]
    intro c hc
    rw [decide_eq_true_iff]
    rintro rfl
    exact not_mem_placementText hrows hc
  have hlength : (ranksOf board).length = 8 := List.length_reverse.trans List.length_ofFn
  have hne : ranksOf board ≠ [] := by
    intro hnil
    rw [hnil] at hlength
    exact absurd hlength (by decide)
  have hread := foldl_placementText hrows hne []
  rw [hlength, List.append_nil, List.append_nil] at hread
  have hsquares : squaresFromFen (fenText board fields) =
      (ranksOf board).reverse.flatten.map squareCode := by
    rw [squaresFromFen, fenText, String.toList_ofList, hplacement, ← hread]
    rfl
  refine ⟨(areSquares_squaresFromFen _).length, fun rank file => ?_⟩
  rw [hsquares, getElem?_ranksOf]

end Writing

end MotifChess.SlintApp
