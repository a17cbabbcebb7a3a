/- GID: MotifChess/Db/Collisions
   generality: implementation
   digest: Collision numbers keep the unique index satisfied, row by row and in one pass. -/

import MotifChess.Db.GameContents

set_option autoImplicit false
set_option relaxedAutoImplicit false

namespace MotifChess.Db

open MotifChess.Order.FirstWins

variable {moveHash : List UInt16 → UInt64}

namespace GameRow

private theorem sameSlot_iff {a b : StoredGame} : sameSlot moveHash a b = true ↔
    a.identityFields = b.identityFields ∧ moveHash a.moves = moveHash b.moves := by
  simp [sameSlot]

private theorem sameSlot_congr {a b : StoredGame} (h : sameSlot moveHash a b = true) (c : StoredGame) :
    sameSlot moveHash c a = sameSlot moveHash c b := by
  obtain ⟨hfields, hhash⟩ := sameSlot_iff.mp h
  simp only [sameSlot, hfields, hhash]

theorem indexKey_eq_iff {a b : GameRow} : indexKey moveHash a = indexKey moveHash b ↔
    sameSlot moveHash a.stored b.stored = true ∧ a.identityCollision = b.identityCollision := by
  rw [sameSlot_iff, indexKey, indexKey, Prod.mk.injEq, Prod.mk.injEq, and_assoc]

end GameRow

section Ranks

variable (moveHash) in
private def rankIn (l : List GameRow) (row : GameRow) : ℕ :=
  l.countP fun other => GameRow.sameSlot moveHash other.stored row.stored && other.id < row.id

variable (moveHash) in
private def nextIn (l : List GameRow) (game : StoredGame) : ℕ :=
  l.foldl (fun m row =>
    if GameRow.sameSlot moveHash row.stored game then max m (row.identityCollision + 1) else m) 0

variable (moveHash) in
private def RankedIn (l : List GameRow) : Prop :=
  ∀ row ∈ l, row.identityCollision = rankIn moveHash l row

variable {l : List GameRow} {x row : GameRow} {game : StoredGame}

private theorem rankIn_concat_of_lt (h : row.id < x.id) :
    rankIn moveHash (l ++ [x]) row = rankIn moveHash l row := by
  rw [rankIn, List.countP_append, List.countP_singleton]
  have hx : ¬ x.id < row.id := by omega
  simp [rankIn, hx]

private theorem rankIn_concat_self (h : ∀ r ∈ l, r.id < x.id) :
    rankIn moveHash (l ++ [x]) x = l.countP fun o => GameRow.sameSlot moveHash o.stored x.stored := by
  rw [rankIn, List.countP_append, List.countP_singleton]
  have hlow : l.countP (fun o => GameRow.sameSlot moveHash o.stored x.stored && o.id < x.id) =
      l.countP fun o => GameRow.sameSlot moveHash o.stored x.stored := by
    apply List.countP_congr
    intro r hr
    simp [h r hr]
  rw [hlow]
  simp

private theorem rankedIn_concat (h : ∀ r ∈ l, r.id < x.id) :
    RankedIn moveHash (l ++ [x]) ↔ RankedIn moveHash l ∧
      x.identityCollision = l.countP fun o => GameRow.sameSlot moveHash o.stored x.stored := by
  constructor
  · intro hall
    refine ⟨fun r hr => ?_, ?_⟩
    · rw [hall r (List.mem_append_left _ hr), rankIn_concat_of_lt (h r hr)]
    · rw [hall x (by simp), rankIn_concat_self h]
  · rintro ⟨hl, hx⟩ r hr
    rcases List.mem_append.mp hr with hmem | hmem
    · rw [hl r hmem, rankIn_concat_of_lt (h r hmem)]
    · obtain rfl := List.mem_singleton.mp hmem
      rw [hx, rankIn_concat_self h]

private theorem nextIn_concat : nextIn moveHash (l ++ [x]) game =
    if GameRow.sameSlot moveHash x.stored game
    then max (nextIn moveHash l game) (x.identityCollision + 1) else nextIn moveHash l game := by
  simp [nextIn]

private theorem lt_nextIn (hrow : row ∈ l) (h : GameRow.sameSlot moveHash row.stored game) :
    row.identityCollision < nextIn moveHash l game := by
  induction l using List.reverseRecOn with
  | nil => contradiction
  | append_singleton l x ih =>
    rw [nextIn_concat]
    rcases List.mem_append.mp hrow with hmem | hmem
    · have := ih hmem
      split <;> omega
    · obtain rfl := List.mem_singleton.mp hmem
      rw [if_pos h]
      omega

private theorem lt_of_pairwise_concat (h : (l ++ [x]).Pairwise fun a b => a.id < b.id) :
    ∀ r ∈ l, r.id < x.id :=
  fun r hr => (List.pairwise_append.mp h).2.2 r hr x List.mem_cons_self

private theorem nextIn_eq_countP (hasc : l.Pairwise fun a b => a.id < b.id)
    (h : RankedIn moveHash l) :
    nextIn moveHash l game = l.countP fun o => GameRow.sameSlot moveHash o.stored game := by
  induction l using List.reverseRecOn with
  | nil => rfl
  | append_singleton l x ih =>
    have hlt := lt_of_pairwise_concat hasc
    obtain ⟨hl, hx⟩ := (rankedIn_concat hlt).mp h
    rw [nextIn_concat, ih (List.pairwise_append.mp hasc).1 hl, List.countP_append,
      List.countP_singleton]
    by_cases hslot : GameRow.sameSlot moveHash x.stored game = true
    · have hsame : l.countP (fun o => GameRow.sameSlot moveHash o.stored x.stored) =
          l.countP fun o => GameRow.sameSlot moveHash o.stored game :=
        List.countP_congr fun o _ => by rw [GameRow.sameSlot_congr hslot]
      rw [if_pos hslot, if_pos hslot, hx, hsame]
      omega
    · rw [if_neg hslot, if_neg hslot, Nat.add_zero]

private theorem nodup_indexKey_concat (h : (l.map (GameRow.indexKey moveHash)).Nodup)
    (hfresh : ∀ r ∈ l, GameRow.sameSlot moveHash r.stored x.stored →
      r.identityCollision < x.identityCollision) :
    ((l ++ [x]).map (GameRow.indexKey moveHash)).Nodup := by
  rw [List.map_append, List.map_singleton]
  refine List.Nodup.append h (by simp) ?_
  rw [List.disjoint_singleton]
  intro hmem
  obtain ⟨r, hr, hkey⟩ := List.mem_map.mp hmem
  obtain ⟨hslot, hcollision⟩ := GameRow.indexKey_eq_iff.mp hkey
  exact absurd (hfresh r hr hslot) (by omega)

private theorem nodup_of_rankedIn (hasc : l.Pairwise fun a b => a.id < b.id)
    (h : RankedIn moveHash l) : (l.map (GameRow.indexKey moveHash)).Nodup := by
  induction l using List.reverseRecOn with
  | nil => exact List.nodup_nil
  | append_singleton l x ih =>
    have hlt := lt_of_pairwise_concat hasc
    obtain ⟨hl, hx⟩ := (rankedIn_concat hlt).mp h
    have hasc' := (List.pairwise_append.mp hasc).1
    apply nodup_indexKey_concat (ih hasc' hl)
    intro r hr hslot
    rw [hx, ← nextIn_eq_countP hasc' hl]
    exact lt_nextIn hr hslot

private theorem collisions_eq_of_rankedIn {l' : List GameRow}
    (hasc : l.Pairwise fun a b => a.id < b.id) (hasc' : l'.Pairwise fun a b => a.id < b.id)
    (h : RankedIn moveHash l) (h' : RankedIn moveHash l')
    (hstored : l.map GameRow.stored = l'.map GameRow.stored) :
    l.map GameRow.identityCollision = l'.map GameRow.identityCollision := by
  induction l using List.reverseRecOn generalizing l' with
  | nil =>
    obtain rfl : l' = [] := by simpa using hstored.symm
    rfl
  | append_singleton l x ih =>
    rw [List.map_append, List.map_singleton] at hstored
    obtain ⟨m, tail, rfl, hm, htail⟩ := List.map_eq_append_iff.mp hstored.symm
    obtain ⟨y, rfl, hy⟩ := List.map_eq_singleton_iff.mp htail
    obtain ⟨hl, hx⟩ := (rankedIn_concat (lt_of_pairwise_concat hasc)).mp h
    obtain ⟨hl', hx'⟩ := (rankedIn_concat (lt_of_pairwise_concat hasc')).mp h'
    have hfront := ih (List.pairwise_append.mp hasc).1 (List.pairwise_append.mp hasc').1 hl hl' hm.symm
    have hcount : ∀ k : List GameRow, k.countP (fun o => GameRow.sameSlot moveHash o.stored x.stored) =
        (k.map GameRow.stored).countP fun o => GameRow.sameSlot moveHash o x.stored := by
      intro k
      rw [List.countP_map]
      rfl
    have hlast : x.identityCollision = y.identityCollision := by
      rw [hx, hx', hy, hcount, hcount, hm]
    simp [hfront, hlast]

end Ranks

namespace Tables

variable {t t' : Tables} {game : StoredGame}

variable (moveHash) in
/-- Every row has its rank in its slot as collision number. -/
def Ranked (t : Tables) : Prop :=
  ∀ row ∈ t.games, row.identityCollision = t.rankInSlot moveHash row

theorem indexUnique_iff :
    t.indexUnique moveHash = true ↔ (t.games.map (GameRow.indexKey moveHash)).Nodup := by
  rw [indexUnique, decide_eq_true_iff]

theorem Ranked.indexUnique (h : t.Ranked moveHash) : t.indexUnique moveHash = true :=
  indexUnique_iff.mpr (nodup_of_rankedIn t.ascending h)

theorem Ranked.collisions_eq (h : t.Ranked moveHash) (h' : t'.Ranked moveHash)
    (hstored : t.games.map GameRow.stored = t'.games.map GameRow.stored) :
    t.games.map GameRow.identityCollision = t'.games.map GameRow.identityCollision :=
  collisions_eq_of_rankedIn t.ascending t'.ascending h h' hstored

theorem indexUnique_addRow_nextCollision (h : t.indexUnique moveHash = true) :
    (t.addRow (t.nextCollision moveHash game) game).indexUnique moveHash = true := by
  rw [indexUnique_iff] at h ⊢
  rw [addRow_games]
  exact nodup_indexKey_concat h fun r hr hslot => lt_nextIn hr hslot

theorem insert_error_of_not_holds {game : Game} {e : ErrorCode}
    (hindex : t.indexHolds moveHash = true) (hnew : ¬t.Holds game)
    (h : t.insert moveHash game = (t', .error e)) :
    e = .ioFailure ∧ ¬(game.extraTags.map Prod.fst).Nodup := by
  set named := t.findOrInsertNames game with hnamed
  have hunique : named.indexUnique moveHash = t.indexUnique moveHash := by
    rw [indexUnique, indexUnique, hnamed, findOrInsertNames_games]
  have hadded : (named.addRow (named.nextCollision moveHash (StoredGame.ofGame game))
      (StoredGame.ofGame game)).indexHolds moveHash = true := by
    have hflag : named.identityIndex = t.identityIndex := by
      rw [hnamed, findOrInsertNames_identityIndex]
    rw [indexHolds, Bool.or_eq_true] at hindex ⊢
    refine hindex.imp (fun hnone => ?_) fun hholds => ?_
    · rw [← hflag] at hnone
      exact hnone
    · exact indexUnique_addRow_nextCollision (hunique.trans hholds)
  rw [insert_of_not_holds hnew, ← hnamed, insertRow, if_neg (by simp [hadded])] at h
  split at h
  · cases (Prod.mk.inj h).2
  next htags =>
    exact ⟨(Except.error.inj (Prod.mk.inj h).2).symm, fun hnodup => htags (decide_eq_true hnodup)⟩

theorem ranked_addRow_nextCollision (h : t.Ranked moveHash) :
    (t.addRow (t.nextCollision moveHash game) game).Ranked moveHash := by
  have hlt : ∀ r ∈ t.games, r.id < t.nextId := fun r hr => id_lt_nextId hr
  have hnext : t.nextCollision moveHash game = _ := nextIn_eq_countP t.ascending h
  intro row hrow
  exact (rankedIn_concat (x := ⟨t.nextId, t.nextCollision moveHash game, game⟩) hlt).mpr
    ⟨h, hnext⟩ row hrow

theorem ranked_reconcile : (t.reconcile moveHash).Ranked moveHash := by
  intro row hrow
  obtain ⟨row', hrow', rfl⟩ := List.mem_map.mp hrow
  simp only [reconcile, rankInSlot, rewriteRows, List.countP_map]
  rfl

end Tables

end MotifChess.Db
