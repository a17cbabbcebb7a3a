/- GID: MotifChess/Search/OpeningTree/Counts
   generality: implementation
   digest: Every edge of every occurrence is counted once, at the node that it leaves. -/

import MotifChess.Search.OpeningTree.Transpositions

set_option autoImplicit false
set_option relaxedAutoImplicit false

namespace MotifChess.Search.OpeningTree

open MotifChess.Db MotifChess.Order

section Continuations

/-- All rows of one move added up. -/
def continuationOf (rows : List TreePositionRow) (encodedMove : UInt16) : ContinuationAggregate :=
  (rows.filter fun row => row.encodedMove = encodedMove).foldl (fun a row => a.note row)
    { encodedMove := encodedMove }

def continuationsOf (rows : List TreePositionRow) : List ContinuationAggregate :=
  rows.foldl (fun continuations row => noteContinuation row continuations) []

private theorem ContinuationAggregate.note_counts (row : TreePositionRow) (a : ContinuationAggregate) :
    (a.note row).encodedMove = a.encodedMove ∧ (a.note row).frequency = a.frequency + 1 ∧
      (a.note row).whiteWins = a.whiteWins + (if 0 < row.result then 1 else 0) ∧
      (a.note row).draws = a.draws + (if row.result = 0 then 1 else 0) ∧
      (a.note row).blackWins = a.blackWins + (if row.result < 0 then 1 else 0) := by
  have helo : ∀ c : ContinuationAggregate,
      (c.noteElo row.result row.whiteElo row.blackElo).encodedMove = c.encodedMove ∧
      (c.noteElo row.result row.whiteElo row.blackElo).frequency = c.frequency ∧
      (c.noteElo row.result row.whiteElo row.blackElo).whiteWins = c.whiteWins ∧
      (c.noteElo row.result row.whiteElo row.blackElo).draws = c.draws ∧
      (c.noteElo row.result row.whiteElo row.blackElo).blackWins = c.blackWins := by
    intro c
    cases row.whiteElo <;> cases row.blackElo <;> exact ⟨rfl, rfl, rfl, rfl, rfl⟩
  have hfirst : ∀ c : ContinuationAggregate, c = (if a.frequency = 0 then
      { a with resultHash := row.childHash, sampleGameId := row.gameId } else a) →
      c.encodedMove = a.encodedMove ∧ c.frequency = a.frequency ∧ c.whiteWins = a.whiteWins ∧
        c.draws = a.draws ∧ c.blackWins = a.blackWins := by
    rintro c rfl
    split_ifs <;> exact ⟨rfl, rfl, rfl, rfl, rfl⟩
  obtain ⟨hmove, hfrequency, hwhite, hdraws, hblack⟩ := hfirst _ rfl
  unfold ContinuationAggregate.note
  dsimp only
  obtain ⟨emove, efrequency, ewhite, edraws, eblack⟩ := helo ({ (if a.frequency = 0 then
    { a with resultHash := row.childHash, sampleGameId := row.gameId } else a) with
      frequency := (if a.frequency = 0 then
        { a with resultHash := row.childHash, sampleGameId := row.gameId } else a).frequency + 1
    } |>.noteResult row.result)
  rw [emove, efrequency, ewhite, edraws, eblack]
  unfold ContinuationAggregate.noteResult
  rcases lt_trichotomy row.result 0 with hlost | hdrawn | hwon
  · simp [hlost.not_gt, hlost, hlost.ne, hmove, hfrequency, hwhite, hdraws, hblack]
  · simp [hdrawn, hmove, hfrequency, hwhite, hdraws, hblack]
  · simp [hwon, hwon.ne', hwon.not_gt, hmove, hfrequency, hwhite, hdraws, hblack]

theorem foldl_note_counts (rows : List TreePositionRow) (a : ContinuationAggregate) :
    (rows.foldl (fun a row => a.note row) a).encodedMove = a.encodedMove ∧
      (rows.foldl (fun a row => a.note row) a).frequency = a.frequency + rows.length ∧
      (rows.foldl (fun a row => a.note row) a).whiteWins =
        a.whiteWins + rows.countP (fun row => 0 < row.result) ∧
      (rows.foldl (fun a row => a.note row) a).draws =
        a.draws + rows.countP (fun row => row.result = 0) ∧
      (rows.foldl (fun a row => a.note row) a).blackWins =
        a.blackWins + rows.countP (fun row => row.result < 0) := by
  induction rows generalizing a with
  | nil => exact ⟨rfl, rfl, rfl, rfl, rfl⟩
  | cons row rows ih =>
    obtain ⟨hmove, hfrequency, hwhite, hdraws, hblack⟩ := a.note_counts row
    obtain ⟨imove, ifrequency, iwhite, idraws, iblack⟩ := ih (a.note row)
    simp only [List.foldl_cons, List.countP_cons, List.length_cons, decide_eq_true_eq]
    refine ⟨imove.trans hmove, ?_, ?_, ?_, ?_⟩
    · rw [ifrequency, hfrequency]
      omega
    · rw [iwhite, hwhite]
      omega
    · rw [idraws, hdraws]
      omega
    · rw [iblack, hblack]
      omega

private theorem ContinuationAggregate.note_resultHash (row : TreePositionRow) (a : ContinuationAggregate) :
    (a.note row).resultHash = if a.frequency = 0 then row.childHash else a.resultHash := by
  have hkept : ∀ c : ContinuationAggregate, ((c.noteResult row.result).noteElo row.result row.whiteElo
      row.blackElo).resultHash = c.resultHash := by
    intro c
    have helo : ∀ a : ContinuationAggregate,
        (a.noteElo row.result row.whiteElo row.blackElo).resultHash = a.resultHash := by
      intro a
      cases row.whiteElo <;> cases row.blackElo <;> rfl
    rw [helo, ContinuationAggregate.noteResult]
    split_ifs <;> rfl
  rw [ContinuationAggregate.note, hkept]
  split_ifs <;> rfl

private theorem foldl_note_resultHash {rows : List TreePositionRow} {a : ContinuationAggregate}
    (ha : a.frequency ≠ 0) : (rows.foldl (fun a row => a.note row) a).resultHash = a.resultHash := by
  induction rows generalizing a with
  | nil => rfl
  | cons row rows ih =>
    have hnext : (a.note row).frequency ≠ 0 := by
      rw [(a.note_counts row).2.1]
      omega
    rw [List.foldl_cons, ih hnext, a.note_resultHash, if_neg ha]

/-- A continuation leads to where the first of its rows does. -/
theorem exists_childHash {rows : List TreePositionRow} {row : TreePositionRow} (hrow : row ∈ rows) :
    ∃ first ∈ rows, first.encodedMove = row.encodedMove ∧
      (continuationOf rows row.encodedMove).resultHash = first.childHash := by
  rw [continuationOf]
  cases hplayed : rows.filter fun other => other.encodedMove = row.encodedMove with
  | nil => exact absurd (decide_eq_true rfl) (List.filter_eq_nil_iff.mp hplayed row hrow)
  | cons first rest =>
    have hfirst : first ∈ rows.filter fun other => other.encodedMove = row.encodedMove :=
      hplayed ▸ List.mem_cons_self
    obtain ⟨hmem, hmove⟩ := List.mem_filter.mp hfirst
    refine ⟨first, hmem, of_decide_eq_true hmove, ?_⟩
    have hnoted : (({ encodedMove := row.encodedMove } : ContinuationAggregate).note
        first).frequency ≠ 0 := by
      rw [(ContinuationAggregate.note_counts _ _).2.1]
      omega
    rw [List.foldl_cons, foldl_note_resultHash hnoted, ContinuationAggregate.note_resultHash, if_pos rfl]

@[simp] theorem encodedMove_continuationOf (rows : List TreePositionRow) (encodedMove : UInt16) :
    (continuationOf rows encodedMove).encodedMove = encodedMove := (foldl_note_counts _ _).1

/-- A move in its place among ascending moves. -/
def insertMove (encodedMove : UInt16) : List UInt16 → List UInt16
  | [] => [encodedMove]
  | other :: moves =>
    if encodedMove = other then other :: moves
    else if encodedMove < other then encodedMove :: other :: moves
    else other :: insertMove encodedMove moves

private theorem mem_insertMove {encodedMove move : UInt16} {moves : List UInt16} :
    move ∈ insertMove encodedMove moves ↔ move = encodedMove ∨ move ∈ moves := by
  induction moves with
  | nil => simp [insertMove]
  | cons other moves ih =>
    rw [insertMove]
    split_ifs with hsame hlt
    · subst hsame
      simp
    · simp
    · rw [List.mem_cons, ih, List.mem_cons, or_left_comm]

private theorem pairwise_insertMove {encodedMove : UInt16} {moves : List UInt16}
    (h : moves.Pairwise (· < ·)) : (insertMove encodedMove moves).Pairwise (· < ·) := by
  induction moves with
  | nil => simp [insertMove]
  | cons other moves ih =>
    obtain ⟨hother, hmoves⟩ := List.pairwise_cons.mp h
    rw [insertMove]
    split_ifs with hsame hlt
    · exact h
    · refine List.pairwise_cons.mpr ⟨fun move hmove => ?_, h⟩
      rcases List.mem_cons.mp hmove with rfl | hmem
      · exact hlt
      · exact UInt16.lt_trans hlt (hother move hmem)
    · refine List.pairwise_cons.mpr ⟨fun move hmove => ?_, ih hmoves⟩
      rcases mem_insertMove.mp hmove with rfl | hmem
      · exact UInt16.lt_of_le_of_ne (UInt16.not_lt.mp hlt) (Ne.symm hsame)
      · exact hother move hmem

private theorem noteContinuation_map {row : TreePositionRow} {moves : List UInt16}
    {f f' : UInt16 → ContinuationAggregate} (hmoves : moves.Pairwise (· < ·))
    (hf : ∀ move, (f move).encodedMove = move)
    (hother : ∀ move ∈ moves, move ≠ row.encodedMove → f' move = f move)
    (hold : row.encodedMove ∈ moves → f' row.encodedMove = (f row.encodedMove).note row)
    (hnew : row.encodedMove ∉ moves → f' row.encodedMove =
      ({ encodedMove := row.encodedMove } : ContinuationAggregate).note row) :
    noteContinuation row (moves.map f) = (insertMove row.encodedMove moves).map f' := by
  induction moves with
  | nil => simp [noteContinuation, insertMove, hnew]
  | cons move moves ih =>
    obtain ⟨hbelow, hmoves⟩ := List.pairwise_cons.mp hmoves
    have hrest : ∀ m ∈ moves, move ≠ m := fun m hm heq => UInt16.lt_irrefl m (heq ▸ hbelow m hm)
    rw [List.map_cons, noteContinuation, insertMove, hf]
    split_ifs with hsame hlt
    · subst hsame
      rw [List.map_cons, hold List.mem_cons_self]
      refine congrArg _ (List.map_congr_left fun m hm => ?_)
      exact (hother m (List.mem_cons_of_mem _ hm) (Ne.symm (hrest m hm))).symm
    · have habsent : row.encodedMove ∉ move :: moves := by
        intro hmem
        rcases List.mem_cons.mp hmem with heq | hmem
        · exact hsame heq
        · exact UInt16.lt_asymm hlt (hbelow _ hmem)
      rw [List.map_cons, hnew habsent]
      refine congrArg _ ?_
      rw [← List.map_cons]
      refine List.map_congr_left fun m hm => ?_
      exact (hother m hm fun heq => habsent (heq ▸ hm)).symm
    · rw [List.map_cons, hother move List.mem_cons_self (Ne.symm hsame), ih hmoves
        (fun m hm => hother m (List.mem_cons_of_mem _ hm))
        (fun hm => hold (List.mem_cons_of_mem _ hm)) (fun hm => hnew (by simp [hsame, hm]))]

theorem exists_continuationsOf (rows : List TreePositionRow) : ∃ moves : List UInt16,
    moves.Pairwise (· < ·) ∧ (∀ move, move ∈ moves ↔ ∃ row ∈ rows, row.encodedMove = move) ∧
      continuationsOf rows = moves.map (continuationOf rows) := by
  induction rows using List.reverseRecOn with
  | nil => exact ⟨[], List.Pairwise.nil, by simp, rfl⟩
  | append_singleton rows row ih =>
    obtain ⟨moves, hascending, hmem, heq⟩ := ih
    have hstep : ∀ move, continuationOf (rows ++ [row]) move =
        if row.encodedMove = move then (continuationOf rows move).note row
        else continuationOf rows move := by
      intro move
      rw [continuationOf, List.filter_append, List.foldl_append]
      split_ifs with hmove
      · simp [hmove, continuationOf]
      · simp [hmove, continuationOf]
    refine ⟨insertMove row.encodedMove moves, pairwise_insertMove hascending, fun move => ?_, ?_⟩
    · rw [mem_insertMove, hmem]
      simp only [List.mem_append, List.mem_singleton, or_and_right, exists_or, exists_eq_left]
      rw [or_comm, @eq_comm _ move]
    · rw [continuationsOf, List.foldl_append, List.foldl_cons, List.foldl_nil, ← continuationsOf, heq]
      refine noteContinuation_map hascending (encodedMove_continuationOf rows) ?_ ?_ ?_
      · intro move _ hne
        rw [hstep, if_neg (Ne.symm hne)]
      · intro _
        rw [hstep, if_pos rfl]
      · intro habsent
        have hnone : rows.filter (fun other => decide (other.encodedMove = row.encodedMove)) = [] := by
          rw [List.filter_eq_nil_iff]
          intro other hother
          rw [decide_eq_true_eq]
          exact fun hsame => habsent ((hmem _).mpr ⟨other, hother, hsame⟩)
        rw [hstep, if_pos rfl, continuationOf, hnone]
        rfl

end Continuations

section Nodes

/-- The rows of one occurrence, each with the node that it leaves. -/
def edges (parentHash : UInt64) : List TreePositionRow → List (NodeKey × TreePositionRow)
  | [] => []
  | row :: rows => (⟨row.depth, parentHash⟩, row) :: edges row.childHash rows

def noteEdges (edges : List (NodeKey × TreePositionRow)) (nodes : NodeAggregates) : NodeAggregates :=
  edges.foldl (fun nodes edge => noteNode edge.1 edge.2 nodes) nodes

private theorem noteOccurrence_eq (parentHash : UInt64) (rows : List TreePositionRow)
    (nodes : NodeAggregates) :
    noteOccurrence parentHash nodes rows = noteEdges (edges parentHash rows) nodes := by
  induction rows generalizing parentHash nodes with
  | nil => rfl
  | cons row rows ih => exact ih _ _

theorem aggregate_eq_noteEdges (rootHash : UInt64) (occurrences : List (List TreePositionRow)) :
    aggregate rootHash occurrences = noteEdges (occurrences.flatMap (edges rootHash)) [] := by
  rw [aggregate, noteEdges, List.foldl_flatMap]
  congr 1
  funext nodes rows
  exact noteOccurrence_eq rootHash rows nodes

private theorem lookup_noteNode (key other : NodeKey) (row : TreePositionRow) (nodes : NodeAggregates) :
    (noteNode key row nodes).lookup other =
      if other = key then
        some (NodeAggregate.note row ((nodes.lookup key).getD ⟨[], row.gameId, row.rootPly⟩))
      else nodes.lookup other := by
  induction nodes with
  | nil =>
    rw [noteNode, List.lookup_cons]
    by_cases hkey : other = key
    · simp [hkey]
    · simp [hkey, beq_false_of_ne hkey]
  | cons entry nodes ih =>
    obtain ⟨k, node⟩ := entry
    rw [noteNode]
    by_cases hk : k = key
    · subst hk
      rw [if_pos rfl, List.lookup_cons, List.lookup_cons, List.lookup_cons]
      by_cases hkey : other = k
      · subst hkey
        simp
      · simp [hkey, beq_false_of_ne hkey]
    · rw [if_neg hk, List.lookup_cons, List.lookup_cons, List.lookup_cons, ih,
        beq_false_of_ne (Ne.symm hk)]
      by_cases hkey : other = key
      · subst hkey
        simp [beq_false_of_ne (Ne.symm hk)]
      · simp [hkey]

private theorem lookup_noteEdges (es : List (NodeKey × TreePositionRow)) (key : NodeKey) :
    ((noteEdges es []).lookup key).map NodeAggregate.continuations =
      if ∃ edge ∈ es, edge.1 = key then
        some (continuationsOf ((es.filter fun edge => edge.1 = key).map Prod.snd))
      else none := by
  induction es using List.reverseRecOn with
  | nil => simp [noteEdges]
  | append_singleton es edge ih =>
    have hstep : noteEdges (es ++ [edge]) [] = noteNode edge.1 edge.2 (noteEdges es []) := by
      rw [noteEdges, List.foldl_append]
      rfl
    rw [hstep, lookup_noteNode]
    by_cases hkey : key = edge.1
    · subst hkey
      have hrows : ((noteEdges es []).lookup edge.1).elim [] NodeAggregate.continuations =
          continuationsOf ((es.filter fun other => other.1 = edge.1).map Prod.snd) := by
        cases hlookup : (noteEdges es []).lookup edge.1 with
        | some node =>
          rw [hlookup, Option.map_some] at ih
          split_ifs at ih
          exact Option.some.inj ih
        | none =>
          rw [hlookup, Option.map_none] at ih
          split_ifs at ih with hnone
          have hnil : (es.filter fun other => decide (other.1 = edge.1)) = [] := by
            rw [List.filter_eq_nil_iff]
            intro other hother
            rw [decide_eq_true_eq]
            exact fun hsame => hnone ⟨other, hother, hsame⟩
          rw [hnil]
          rfl
      rw [if_pos rfl, if_pos ⟨edge, by simp⟩, Option.map_some, List.filter_append, List.map_append,
        continuationsOf, List.foldl_append, ← continuationsOf, ← hrows]
      cases (noteEdges es []).lookup edge.1 <;> simp [NodeAggregate.note]
    · have hexists : (∃ other ∈ es ++ [edge], other.1 = key) ↔ ∃ other ∈ es, other.1 = key := by
        simp [or_and_right, exists_or, Ne.symm hkey]
      rw [if_neg hkey, ih, List.filter_append]
      simp only [hexists, List.filter_singleton, Ne.symm hkey, decide_false, cond_false,
        List.append_nil]

end Nodes

section Edges

variable (rules : Chess.Rules)

private theorem mem_edges_occurrenceRows {found : PositionMatch} {board : rules.Board} {depth : ℕ}
    {parentHash : UInt64} {moves : List UInt16} (hparent : rules.hash board = parentHash)
    {edge : NodeKey × TreePositionRow} :
    edge ∈ edges parentHash (occurrenceRows rules found board depth moves) ↔
      ∃ k move, moves[k]? = some move ∧
        edge.1 = ⟨depth + k, rules.hash (rules.play board (moves.take k))⟩ ∧
        edge.2 = ⟨found.gameId, found.ply, depth + k, move,
          rules.hash (rules.play board (moves.take (k + 1))), found.result, found.whiteElo,
          found.blackElo⟩ := by
  induction moves generalizing board depth parentHash with
  | nil => simp [occurrenceRows, edges]
  | cons move moves ih =>
    rw [occurrenceRows, edges, List.mem_cons, ih rfl]
    constructor
    · rintro (rfl | ⟨k, other, hother, hkey, hrow⟩)
      · exact ⟨0, move, rfl, by rw [← hparent]; rfl, rfl⟩
      · refine ⟨k + 1, other, hother, ?_, ?_⟩
        · rw [hkey, show depth + 1 + k = depth + (k + 1) by omega]
          rfl
        · rw [hrow, show depth + 1 + k = depth + (k + 1) by omega]
          rfl
    · rintro ⟨k, other, hother, hkey, hrow⟩
      cases k with
      | zero =>
        obtain rfl := Option.some.inj hother
        refine .inl (Prod.ext ?_ hrow)
        rw [hkey, ← hparent]
        rfl
      | succ k =>
        refine .inr ⟨k, other, hother, ?_, ?_⟩
        · rw [hkey, show depth + 1 + k = depth + (k + 1) by omega]
          rfl
        · rw [hrow, show depth + 1 + k = depth + (k + 1) by omega]
          rfl

private theorem nodup_depth_edges {found : PositionMatch} {board : rules.Board} {depth : ℕ}
    {parentHash : UInt64} {moves : List UInt16} :
    ((edges parentHash (occurrenceRows rules found board depth moves)).map
      fun edge => edge.1.depth).Pairwise (· < ·) ∧
    ∀ edge ∈ edges parentHash (occurrenceRows rules found board depth moves),
      depth ≤ edge.1.depth := by
  induction moves generalizing board depth parentHash with
  | nil => simp [occurrenceRows, edges]
  | cons move moves ih =>
    rw [occurrenceRows, edges, List.map_cons, List.pairwise_cons]
    obtain ⟨hpairs, hle⟩ := @ih (rules.applyEncodedMove board move) (depth + 1)
      (rules.hash (rules.applyEncodedMove board move))
    refine ⟨⟨fun d hd => ?_, hpairs⟩, fun edge hedge => ?_⟩
    · obtain ⟨edge, hedge, rfl⟩ := List.mem_map.mp hd
      exact hle edge hedge
    · rcases List.mem_cons.mp hedge with rfl | hmem
      · exact le_refl depth
      · exact Nat.le_of_succ_le (hle edge hmem)

/-- The edges of an occurrence at one node and with one move: one if its game plays the move from
the node's position at that depth, otherwise none. -/
theorem countP_edges {found : PositionMatch} {board : rules.Board} {depth : ℕ} {moves : List UInt16}
    (k : ℕ) (hash : UInt64) (encodedMove : UInt16) (wanted : ℤ → Bool) :
    (edges (rules.hash board) (occurrenceRows rules found board depth moves)).countP (fun edge =>
        decide (edge.1 = ⟨depth + k, hash⟩ ∧ edge.2.encodedMove = encodedMove) &&
          wanted edge.2.result) =
      if rules.hash (rules.play board (moves.take k)) = hash ∧ moves[k]? = some encodedMove ∧
        wanted found.result = true then 1 else 0 := by
  set es := edges (rules.hash board) (occurrenceRows rules found board depth moves) with hes
  have hmem : ∀ edge, edge ∈ es ↔ _ := fun edge => mem_edges_occurrenceRows rules rfl
  have hdepths : (es.map fun edge => edge.1.depth).Nodup :=
    (@nodup_depth_edges rules found board depth (rules.hash board) moves).1.imp ne_of_lt
  have hone : ∀ edge ∈ es, ∀ edge' ∈ es, edge.1.depth = edge'.1.depth → edge = edge' :=
    fun edge hedge edge' hedge' => List.inj_on_of_nodup_map hdepths hedge hedge'
  have hnodup : es.Nodup := hdepths.of_map
  rw [List.countP_eq_length_filter]
  split_ifs with hplays
  · obtain ⟨hhash, hmove, hwanted⟩ := hplays
    obtain ⟨edge, hkey, hrow⟩ : ∃ edge : NodeKey × TreePositionRow,
        edge.1 = ⟨depth + k, rules.hash (rules.play board (moves.take k))⟩ ∧
        edge.2 = ⟨found.gameId, found.ply, depth + k, encodedMove,
          rules.hash (rules.play board (moves.take (k + 1))), found.result, found.whiteElo,
          found.blackElo⟩ := ⟨(_, _), rfl, rfl⟩
    have hedge : edge ∈ es := (hmem edge).mpr ⟨k, encodedMove, hmove, hkey, hrow⟩
    have hsingle : (es.filter fun edge => decide (edge.1 = ⟨depth + k, hash⟩ ∧
        edge.2.encodedMove = encodedMove) && wanted edge.2.result).Perm [edge] := by
      refine (List.perm_ext_iff_of_nodup (hnodup.sublist List.filter_sublist)
        (List.nodup_singleton _)).mpr fun other => ?_
      rw [List.mem_filter, List.mem_singleton, Bool.and_eq_true, decide_eq_true_eq]
      constructor
      · rintro ⟨hother, ⟨hotherKey, -⟩, -⟩
        refine hone other hother edge hedge ?_
        rw [hotherKey, hkey]
      · rintro rfl
        refine ⟨hedge, ⟨?_, ?_⟩, ?_⟩
        · rw [hkey, hhash]
        · rw [hrow]
        · rw [hrow]
          exact hwanted
    exact hsingle.length_eq
  · rw [List.length_eq_zero_iff, List.filter_eq_nil_iff]
    intro edge hedge
    rw [Bool.and_eq_true, decide_eq_true_eq]
    rintro ⟨⟨hkey, hmove⟩, hwanted⟩
    obtain ⟨j, move, hj, hkey', hrow⟩ := (hmem edge).mp hedge
    rw [hkey, NodeKey.mk.injEq] at hkey'
    obtain ⟨hdepth, hhash⟩ := hkey'
    obtain rfl : k = j := by omega
    rw [hrow] at hmove hwanted
    have hsame : move = encodedMove := hmove
    exact hplays ⟨hhash.symm, by rw [hj, hsame], hwanted⟩

end Edges

section Placed

variable {maxDepth : ℕ} {stats : NodeKey → List ContinuationStats} {keys : List NodeKey}
  {root : NodeKey} {nodeOf : NodeKey → Node}

/-- The node at a depth below another, through continuations that have their subtrees. -/
inductive Node.At (top : Node) : ℕ → Node → Prop
  | root : At top 0 top
  | child {n m : Node} {c : NodeContinuation} {depth : ℕ} :
      At top depth n → c ∈ n.continuations → c.2 = some m → At top (depth + 1) m

theorem Node.At.continuations_eq_nil {top n : Node} {depth : ℕ} (h : top.At depth n)
    (htop : top.continuations = []) : n.continuations = [] := by
  induction h with
  | root => exact htop
  | child _ hc _ ih =>
    rw [ih] at hc
    cases hc

/-- A node of the tree has the continuations of its position at its depth, or none where the slice
does not go on. -/
theorem Node.At.continuations_perm (hdesc : keys.Pairwise fun a b => keyRank b < keyRank a)
    (hspec : ∀ done key rest, keys = done ++ key :: rest →
      nodeOf key = nodeSpec maxDepth stats nodeOf done key) (hroot : root ∈ keys)
    {n : Node} {depth : ℕ} (h : (nodeOf root).At depth n) :
    n.continuations = [] ∧ ⟨root.depth + depth, n.zobristHash⟩ ∉ keys ∨
      ⟨root.depth + depth, n.zobristHash⟩ ∈ keys ∧
        n = nodeOf ⟨root.depth + depth, n.zobristHash⟩ := by
  have hhash : ∀ key ∈ keys, (nodeOf key).zobristHash = key.parentHash := by
    intro key hkey
    obtain ⟨done, rest, hkeys⟩ := List.append_of_mem hkey
    rw [hspec done key rest hkeys]
    rfl
  induction h with
  | root =>
    have hself : (⟨root.depth + 0, (nodeOf root).zobristHash⟩ : NodeKey) = root := by
      rw [hhash root hroot, Nat.add_zero]
    rw [hself]
    exact .inr ⟨hroot, rfl⟩
  | @child n m c depth _ hc hsub ih =>
    rcases ih with ⟨hnil, -⟩ | ⟨hkey, hn⟩
    · rw [hnil] at hc
      cases hc
    · rw [hn] at hc
      obtain ⟨lower, higher, -, hlinked⟩ := (mem_continuations_iff hdesc hspec hkey).mp hc
      rcases hlinked with ⟨hmem, hleaf⟩ | ⟨hmem, hnode, -⟩ | ⟨-, hnone, -⟩
      · obtain rfl := Option.some.inj (hsub.symm.trans hleaf)
        exact .inl ⟨rfl, hmem⟩
      · obtain rfl := Option.some.inj (hsub.symm.trans hnode)
        rw [hhash _ hmem]
        exact .inr ⟨hmem, rfl⟩
      · rw [hnone] at hsub
        cases hsub

theorem continuations_nodeOf_perm (hspec : ∀ done key rest, keys = done ++ key :: rest →
      nodeOf key = nodeSpec maxDepth stats nodeOf done key) {key : NodeKey} (hkey : key ∈ keys) :
    ((nodeOf key).continuations.map Prod.fst).Perm (stats key) := by
  obtain ⟨done, rest, hkeys⟩ := List.append_of_mem hkey
  rw [hspec done key rest hkeys]
  exact (sortContinuations_map_fst _).trans (.of_eq (map_fst_linkSpec ..))

end Placed

section Tallies

variable {rules : Chess.Rules}

/-- The node has one continuation for each move that is counted at all, told from the board of its
position, with the counts of the move by results. -/
def Node.Tallies (rules : Chess.Rules) (n : Node) (count : UInt16 → (ℤ → Bool) → ℕ) : Prop :=
  ∃ (position : rules.Board) (moves : List UInt16) (stats : UInt16 → ContinuationStats),
    moves.Nodup ∧ (∀ move, move ∈ moves ↔ 0 < count move fun _ => true) ∧
    (n.continuations.map Prod.fst).Perm (moves.map stats) ∧ ∀ move ∈ moves,
      (stats move).san = rules.san position move ∧
      (stats move).frequency = count move (fun _ => true) ∧
      (stats move).whiteWins = count move (fun result => decide (0 < result)) ∧
      (stats move).draws = count move (fun result => decide (result = 0)) ∧
      (stats move).blackWins = count move fun result => decide (result < 0)

/-- The edges that leave a position at a depth with a move, when their results are wanted. -/
def edgeCount (es : List (NodeKey × TreePositionRow)) (key : NodeKey) (encodedMove : UInt16)
    (wanted : ℤ → Bool) : ℕ :=
  es.countP fun edge => decide (edge.1 = key ∧ edge.2.encodedMove = encodedMove) &&
    wanted edge.2.result

theorem edgeCount_perm {es es' : List (NodeKey × TreePositionRow)} (h : es.Perm es')
    (key : NodeKey) : edgeCount es key = edgeCount es' key := by
  funext encodedMove wanted
  exact h.countP_eq _

theorem Node.tallies_of_isEmpty {n : Node} (h : n.continuations = []) (position : rules.Board)
    {count : UInt16 → (ℤ → Bool) → ℕ} (hcount : ∀ move, count move (fun _ => true) = 0) :
    n.Tallies rules count :=
  ⟨position, [], fun _ => buildContinuation rules position { encodedMove := 0 }, List.nodup_nil,
    by simp [hcount], by simp [h], by simp⟩

private theorem exists_named (contexts : List (UInt32 × GameContext)) :
    ∃ named : ContinuationAggregate → ContinuationAggregate,
      (∀ a, (named a).encodedMove = a.encodedMove ∧ (named a).frequency = a.frequency ∧
        (named a).whiteWins = a.whiteWins ∧ (named a).draws = a.draws ∧
        (named a).blackWins = a.blackWins) ∧
      ∀ nodes key, ((attributeOpenings contexts nodes).lookup key).map NodeAggregate.continuations =
        ((nodes.lookup key).map NodeAggregate.continuations).map (List.map named) := by
  refine ⟨fun a => (contexts.lookup a.sampleGameId).elim a fun context =>
    { a with eco := context.eco, openingName := context.openingName }, fun a => ?_,
    fun nodes key => ?_⟩
  · dsimp only
    cases contexts.lookup a.sampleGameId <;> exact ⟨rfl, rfl, rfl, rfl, rfl⟩
  · induction nodes with
    | nil => rfl
    | cons entry nodes ih =>
      obtain ⟨k, node⟩ := entry
      rw [attributeOpenings, List.map_cons, List.lookup_cons, List.lookup_cons, ← attributeOpenings]
      by_cases hk : key = k
      · subst hk
        rw [beq_self_eq_true]
        refine congrArg some (List.map_congr_left fun a _ => ?_)
        cases contexts.lookup a.sampleGameId <;> rfl
      · rw [beq_false_of_ne hk]
        exact ih

theorem tallies_of_lookup {es : List (NodeKey × TreePositionRow)} {nodes : NodeAggregates}
    {contexts : List (UInt32 × GameContext)}
    (hnodes : nodes = attributeOpenings contexts (noteEdges es [])) {key : NodeKey}
    {position : rules.Board} {n : Node} (hn : (n.continuations.map Prod.fst).Perm
      (((nodes.lookup key).elim [] NodeAggregate.continuations).map
        (buildContinuation rules position))) :
    n.Tallies rules (edgeCount es key) := by
  obtain ⟨named, hnamed, hlookup⟩ := exists_named contexts
  obtain ⟨moves, hascending, hmem, heq⟩ := exists_continuationsOf
    ((es.filter fun edge => edge.1 = key).map Prod.snd)
  have hcount : ∀ encodedMove wanted, edgeCount es key encodedMove wanted =
      (((es.filter fun edge => edge.1 = key).map Prod.snd).filter
        fun row => row.encodedMove = encodedMove).countP fun row => wanted row.result := by
    intro encodedMove wanted
    rw [edgeCount, List.countP_filter, List.countP_map, List.countP_filter]
    refine List.countP_congr fun edge _ => ?_
    simp only [Function.comp_apply, Bool.and_eq_true, decide_eq_true_eq]
    exact ⟨fun h => ⟨⟨h.2, h.1.2⟩, h.1.1⟩, fun h => ⟨⟨h.2, h.1.2⟩, h.1.1⟩⟩
  have hcontinuations : (nodes.lookup key).elim [] NodeAggregate.continuations =
      moves.map fun move => named (continuationOf
        ((es.filter fun edge => edge.1 = key).map Prod.snd) move) := by
    have hmap := hlookup (noteEdges es []) key
    rw [← hnodes, lookup_noteEdges] at hmap
    have helim : ∀ o : Option NodeAggregate,
        o.elim [] NodeAggregate.continuations = (o.map NodeAggregate.continuations).getD [] := by
      intro o
      cases o <;> rfl
    rw [helim, hmap]
    split_ifs with hexists
    · rw [Option.map_some, Option.getD_some, heq, List.map_map]
      rfl
    · have hnil : moves = [] := by
        rw [List.eq_nil_iff_forall_not_mem]
        intro move hmove
        obtain ⟨row, hrow, -⟩ := (hmem move).mp hmove
        obtain ⟨edge, hedge, rfl⟩ := List.mem_map.mp hrow
        obtain ⟨hedge, hkey⟩ := List.mem_filter.mp hedge
        exact hexists ⟨edge, hedge, of_decide_eq_true hkey⟩
      rw [hnil]
      rfl
  refine ⟨position, moves, fun move => buildContinuation rules position (named (continuationOf
    ((es.filter fun edge => edge.1 = key).map Prod.snd) move)), hascending.imp ?_, ?_, ?_, ?_⟩
  · exact fun hlt heq => UInt16.lt_irrefl _ (heq ▸ hlt)
  · intro move
    rw [hmem, hcount, List.countP_true, List.length_pos_iff_exists_mem]
    simp only [List.mem_filter, decide_eq_true_eq]
  · rw [hcontinuations, List.map_map] at hn
    exact hn
  · intro move _
    obtain ⟨hmove, hfrequency, hwhite, hdraws, hblack⟩ := hnamed (continuationOf
      ((es.filter fun edge => edge.1 = key).map Prod.snd) move)
    obtain ⟨cmove, cfrequency, cwhite, cdraws, cblack⟩ := foldl_note_counts
      (((es.filter fun edge => edge.1 = key).map Prod.snd).filter
        fun row => row.encodedMove = move) { encodedMove := move }
    simp only [hcount]
    refine ⟨?_, hfrequency.trans (cfrequency.trans ?_), hwhite.trans (cwhite.trans (Nat.zero_add _)),
      hdraws.trans (cdraws.trans (Nat.zero_add _)), hblack.trans (cblack.trans (Nat.zero_add _))⟩
    · exact congrArg (rules.san position) (hmove.trans cmove)
    · rw [List.countP_true]
      exact Nat.zero_add _

end Tallies

end MotifChess.Search.OpeningTree
