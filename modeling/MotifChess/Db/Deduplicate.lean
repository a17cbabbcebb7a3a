/- GID: MotifChess/Db/Deduplicate
   generality: implementation
   digest: Raw inserts reconciled in one pass store what checked inserts store. -/

import MotifChess.Db.Collisions

set_option autoImplicit false
set_option relaxedAutoImplicit false

namespace MotifChess.Db.Tables

open MotifChess.Order.FirstWins

variable {moveHash : List UInt16 → UInt64} {t t' : Tables} {game : Game}

section Reconciling

theorem reconcile_stored :
    (t.reconcile moveHash).games.map GameRow.stored = t.contents.games := by
  have hfilter : t.games.filter (fun row => t.games.all fun other =>
      other.identity != row.identity || row.id ≤ other.id) =
      leasts GameRow.identity GameRow.id t.games := by
    apply List.filter_congr
    intro row _
    rw [Bool.eq_iff_iff]
    simp only [List.all_eq_true, Bool.or_eq_true, bne_iff_ne]
  have hkept : (t.reconcile moveHash).games.map GameRow.stored =
      (leasts GameRow.identity GameRow.id t.games).map GameRow.stored := by
    simp only [reconcile, rewriteRows, keepRows, hfilter, List.map_map]
    rfl
  rw [hkept, leasts_eq_firsts t.ascending]
  exact map_firsts StoredGame.identity GameRow.stored t.games

theorem unique_reconcile : (t.reconcile moveHash).Unique := by
  rw [Unique, map_identity_eq, reconcile_stored]
  exact nodup_firsts

/-- Deduplication never fails on the rows themselves. -/
theorem deduplicate_eq : t.deduplicate moveHash = .ok
    ({ t.reconcile moveHash with identityIndex := true },
      t.games.length - (t.reconcile moveHash).games.length) := by
  rw [deduplicate]
  exact if_pos ranked_reconcile.indexUnique

theorem contents_deduplicate {removed : ℕ} (h : t.deduplicate moveHash = .ok (t', removed)) :
    t'.contents = t.contents := by
  rw [deduplicate_eq] at h
  obtain ⟨rfl, -⟩ := Prod.mk.inj (Except.ok.inj h)
  have hgames : firsts StoredGame.identity ((t.reconcile moveHash).games.map GameRow.stored) =
      firsts StoredGame.identity (t.games.map GameRow.stored) := by
    rw [reconcile_stored]
    exact firsts_of_nodup nodup_firsts
  simp only [contents, hgames]
  rfl

theorem deduplicate_guards {removed : ℕ} (h : t.deduplicate moveHash = .ok (t', removed)) :
    t'.Unique ∧ t'.Ranked moveHash ∧ t'.identityIndex = true := by
  rw [deduplicate_eq] at h
  obtain ⟨rfl, -⟩ := Prod.mk.inj (Except.ok.inj h)
  exact ⟨unique_reconcile, ranked_reconcile, rfl⟩

private theorem mem_deduplicate {removed : ℕ} (h : t.deduplicate moveHash = .ok (t', removed))
    {row : GameRow} (hrow : row ∈ t.games)
    (hleast : ∀ other ∈ t.games, other.identity = row.identity → row.id ≤ other.id) :
    ∃ row' ∈ t'.games, row'.id = row.id ∧ row'.stored = row.stored := by
  rw [deduplicate_eq] at h
  obtain ⟨rfl, -⟩ := Prod.mk.inj (Except.ok.inj h)
  refine ⟨_, List.mem_map_of_mem (List.mem_filter.mpr ⟨hrow, ?_⟩), rfl, rfl⟩
  rw [List.all_eq_true]
  intro other hother
  by_cases hsame : other.identity = row.identity
  · simp [hleast other hother hsame]
  · simp [hsame]

end Reconciling

section Foreign

/-- Every name in a game row has its player or event row, as the foreign keys demand. -/
def NamesStored (t : Tables) : Prop := ∀ row ∈ t.games,
  row.stored.white ∈ t.players.map Player.name ∧ row.stored.black ∈ t.players.map Player.name ∧
    ∀ event ∈ row.stored.event, event ∈ t.events.map Event.name

theorem NamesStored.knows (h : t.NamesStored) (hholds : t.Holds game) : t.contents.Knows game := by
  obtain ⟨row, hrow, hid⟩ := List.mem_map.mp hholds
  obtain ⟨hwhite, hblack, hevent⟩ := h row hrow
  have hfields := congrArg Prod.fst hid
  change row.stored.identityFields = (StoredGame.ofGame game).identityFields at hfields
  simp only [StoredGame.identityFields, StoredGame.ofGame, IdentityFields.mk.injEq] at hfields
  obtain ⟨hw, hb, he, -, -⟩ := hfields
  refine ⟨?_, ?_, holds_iff_contents.mp hholds⟩
  · intro player hplayer
    rcases List.mem_pair.mp hplayer with rfl | rfl
    · exact hw ▸ hwhite
    · exact hb ▸ hblack
  · intro event hmem
    apply hevent
    rw [he, Option.mem_toList.mp hmem]
    rfl

theorem NamesStored.findOrInsertNames (h : t.NamesStored) :
    (t.findOrInsertNames game).NamesStored := by
  intro row hrow
  rw [findOrInsertNames_games] at hrow
  obtain ⟨hwhite, hblack, hevent⟩ := h row hrow
  rw [findOrInsertNames_players, findOrInsertNames_events]
  exact ⟨mem_map_insertAll.mpr (.inl hwhite), mem_map_insertAll.mpr (.inl hblack),
    fun event he => mem_map_insertAll.mpr (.inl (hevent event he))⟩

theorem NamesStored.addRow (h : t.NamesStored) (collision : ℕ) :
    ((t.findOrInsertNames game).addRow collision (StoredGame.ofGame game)).NamesStored := by
  intro row hrow
  rw [addRow_games] at hrow
  rcases List.mem_append.mp hrow with hmem | hmem
  · exact h.findOrInsertNames row hmem
  · obtain rfl := List.mem_singleton.mp hmem
    change _ ∈ (t.findOrInsertNames game).players.map Player.name ∧
      _ ∈ (t.findOrInsertNames game).players.map Player.name ∧
        ∀ event ∈ _, event ∈ (t.findOrInsertNames game).events.map Event.name
    rw [findOrInsertNames_players, findOrInsertNames_events]
    refine ⟨mem_map_insertAll.mpr (.inr (by simp [StoredGame.ofGame])),
      mem_map_insertAll.mpr (.inr (by simp [StoredGame.ofGame])), fun event he => ?_⟩
    apply mem_map_insertAll.mpr
    obtain ⟨details, hdetails, rfl⟩ := Option.map_eq_some_iff.mp he
    exact .inr (List.mem_map_of_mem (Option.mem_toList.mpr hdetails))

end Foreign

section Inserts

/-- A tag may stand only once in the list of extra tags, or no insert accepts the game. -/
def tagsDistinct (game : Game) : Bool := decide (game.extraTags.map Prod.fst).Nodup

variable (moveHash) in
/-- Checked inserts one by one; what a duplicate or a failed insert did is undone. -/
def insertEach (games : List Game) (t : Tables) : Tables :=
  games.foldl (fun t game => (t.alone (insert moveHash game)).1) t

variable (moveHash) in
/-- Raw inserts one by one. -/
def insertRawEach (games : List Game) (t : Tables) : Tables :=
  games.foldl (fun t game => (t.alone (insertRaw moveHash game)).1) t

/-- Tables that satisfy their constraints: unique rows under the unique index, and foreign keys. -/
structure Sound (moveHash : List UInt16 → UInt64) (t : Tables) : Prop where
  indexed : t.identityIndex = true
  indexUnique : t.indexUnique moveHash = true
  unique : t.Unique
  namesStored : t.NamesStored

private theorem alone_of_ok {α : Type} {write : Tables → Tables × Result α} {a : α}
    (h : write t = (t', .ok a)) : (t.alone write).1 = t' := by rw [alone, h]

private theorem alone_of_error {α : Type} {write : Tables → Tables × Result α} {e : ErrorCode}
    (h : write t = (t', .error e)) : (t.alone write).1 = t := by rw [alone, h]

private theorem indexUnique_findOrInsertNames :
    (t.findOrInsertNames game).indexUnique moveHash = t.indexUnique moveHash := by
  rw [indexUnique, indexUnique, findOrInsertNames_games]

private theorem insertRow_of_holds {collision : ℕ} {stored : StoredGame}
    (hindex : (t.addRow collision stored).indexHolds moveHash = true) :
    t.insertRow moveHash collision stored =
      if decide (stored.extraTags.map Prod.fst).Nodup then (t.addRow collision stored, .ok t.nextId)
      else (t.addRow collision { stored with extraTags := tagsBeforeRepeat [] stored.extraTags },
        .error .ioFailure) := by
  rw [insertRow, hindex]
  exact if_neg Bool.false_ne_true

private theorem alone_insertRow {write : Tables → Tables × Result ℕ} {collision : ℕ} {u : Tables}
    (hindex : (u.addRow collision (StoredGame.ofGame game)).indexHolds moveHash = true)
    (h : write t = u.insertRow moveHash collision (StoredGame.ofGame game)) :
    (t.alone write).1 =
      if tagsDistinct game = false then t else u.addRow collision (StoredGame.ofGame game) := by
  rw [insertRow_of_holds hindex] at h
  change write t = if tagsDistinct game = true then _ else _ at h
  cases htags : tagsDistinct game with
  | true =>
    rw [htags, if_pos rfl] at h
    rw [alone_of_ok h, if_neg (by decide)]
  | false =>
    rw [htags, if_neg (by decide)] at h
    rw [alone_of_error h, if_pos rfl]

private theorem alone_insert (h : t.indexUnique moveHash = true) :
    (t.alone (insert moveHash game)).1 =
      if t.Holds game ∨ tagsDistinct game = false then t
      else (t.findOrInsertNames game).addRow
        ((t.findOrInsertNames game).nextCollision moveHash (StoredGame.ofGame game))
        (StoredGame.ofGame game) := by
  by_cases hholds : t.Holds game
  · rw [alone_of_error (insert_of_holds hholds), if_pos (.inl hholds)]
  · have hnames : (t.findOrInsertNames game).indexUnique moveHash = true :=
      indexUnique_findOrInsertNames.trans h
    have hindex := @indexUnique_addRow_nextCollision _ _ (StoredGame.ofGame game) hnames
    rw [alone_insertRow (by simp [indexHolds, hindex]) (insert_of_not_holds hholds)]
    simp [hholds]

private theorem alone_insertRaw (h : t.identityIndex = false) :
    (t.alone (insertRaw moveHash game)).1 =
      if tagsDistinct game = false then t
      else (t.findOrInsertNames game).addRow 0 (StoredGame.ofGame game) := by
  have hindex : ((t.findOrInsertNames game).addRow 0 (StoredGame.ofGame game)).identityIndex = false :=
    (findOrInsertNames_identityIndex game t).trans h
  exact alone_insertRow (by simp [indexHolds, hindex]) rfl

theorem Sound.insert (h : t.Sound moveHash) (game : Game) :
    (t.alone (Tables.insert moveHash game)).1.Sound moveHash ∧
      (t.alone (Tables.insert moveHash game)).1.contents =
        if tagsDistinct game then t.contents.add game else t.contents := by
  rw [alone_insert h.indexUnique]
  by_cases hholds : t.Holds game
  · rw [if_pos (.inl hholds), Contents.add_of_knows (h.namesStored.knows hholds), ite_self]
    exact ⟨h, rfl⟩
  · cases htags : tagsDistinct game with
    | false =>
      rw [if_pos (.inr rfl)]
      exact ⟨h, rfl⟩
    | true =>
      rw [if_neg (by simp [hholds]), if_pos rfl]
      have hnames : (t.findOrInsertNames game).indexUnique moveHash = true :=
        indexUnique_findOrInsertNames.trans h.indexUnique
      have hunique : (t.findOrInsertNames game).Unique := by
        rw [Unique, findOrInsertNames_games]
        exact h.unique
      refine ⟨⟨?_, indexUnique_addRow_nextCollision hnames, ?_, h.namesStored.addRow _⟩,
        contents_findOrInsertNames_addRow _⟩
      · exact (findOrInsertNames_identityIndex game t).trans h.indexed
      · apply unique_addRow hunique
        rwa [findOrInsertNames_games]

private theorem Sound.insertEach (h : t.Sound moveHash) (games : List Game) :
    (t.insertEach moveHash games).Sound moveHash ∧
      (t.insertEach moveHash games).contents = t.contents.addAll (games.filter tagsDistinct) := by
  induction games generalizing t with
  | nil => exact ⟨h, rfl⟩
  | cons game games ih =>
    obtain ⟨hsound, hcontents⟩ := h.insert game
    obtain ⟨hrest, heq⟩ := ih hsound
    refine ⟨hrest, heq.trans ?_⟩
    rw [hcontents]
    cases htags : tagsDistinct game <;> simp [htags, Contents.addAll]

private theorem Ranked.insertEach (hranked : t.Ranked moveHash) (h : t.Sound moveHash)
    (games : List Game) : (t.insertEach moveHash games).Ranked moveHash := by
  induction games generalizing t with
  | nil => exact hranked
  | cons game games ih =>
    refine ih ?_ (h.insert game).1
    change ((t.alone (Tables.insert moveHash game)).1).Ranked moveHash
    rw [alone_insert h.indexUnique]
    split
    · exact hranked
    · apply ranked_addRow_nextCollision
      intro row hrow
      rw [findOrInsertNames_games] at hrow
      rw [hranked row hrow, rankInSlot, rankInSlot, findOrInsertNames_games]

private theorem insertRawEach_spec (h : t.identityIndex = false) (games : List Game) :
    (t.insertRawEach moveHash games).contents = t.contents.addAll (games.filter tagsDistinct) ∧
      t.games <+: (t.insertRawEach moveHash games).games := by
  induction games generalizing t with
  | nil => exact ⟨rfl, List.prefix_rfl⟩
  | cons game games ih =>
    have hstep := @alone_insertRaw moveHash t game h
    cases htags : tagsDistinct game with
    | false =>
      rw [htags, if_pos rfl] at hstep
      rw [List.filter_cons_of_neg (by simp [htags]), insertRawEach, List.foldl_cons, hstep]
      exact ih h
    | true =>
      rw [htags, if_neg (by decide)] at hstep
      rw [List.filter_cons_of_pos htags, insertRawEach, List.foldl_cons, hstep]
      have hindex : ((t.findOrInsertNames game).addRow 0
          (StoredGame.ofGame game)).identityIndex = false :=
        (findOrInsertNames_identityIndex game t).trans h
      obtain ⟨hcontents, hrows⟩ := ih hindex
      refine ⟨hcontents.trans ?_, List.IsPrefix.trans ?_ hrows⟩
      · rw [contents_findOrInsertNames_addRow]
        rfl
      · rw [addRow_games, findOrInsertNames_games]
        exact List.prefix_append _ _

private theorem least_of_prefix (hunique : t.Unique) (hrows : t.games <+: t'.games)
    {row other : GameRow} (hrow : row ∈ t.games) (hother : other ∈ t'.games)
    (hsame : other.identity = row.identity) : row.id ≤ other.id := by
  obtain ⟨more, hmore⟩ := hrows
  rw [← hmore] at hother
  rcases List.mem_append.mp hother with hmem | hmem
  · rw [List.inj_on_of_nodup_map hunique hmem hrow hsame]
  · have hasc := t'.ascending
    rw [← hmore, List.pairwise_append] at hasc
    exact le_of_lt (hasc.2.2 row hrow other hmem)

end Inserts

/-- Raw inserts without the identity index, followed by one deduplication, leave what checked
inserts leave: the same games in the same order under an index that holds, and on an empty
database the same collision numbers. Every game of the starting tables keeps its row. -/
theorem insertRawEach_deduplicate_eq_insertEach (h : t.Sound moveHash) (games : List Game) :
    ∃ removed t', (t.dropIdentityIndex.insertRawEach moveHash games).deduplicate moveHash =
        .ok (t', removed) ∧
      t'.games.map GameRow.stored = (t.insertEach moveHash games).games.map GameRow.stored ∧
      t'.players = (t.insertEach moveHash games).players ∧
      t'.events = (t.insertEach moveHash games).events ∧
      (∀ row ∈ t.games, ∃ row' ∈ t'.games, row'.id = row.id ∧ row'.stored = row.stored) ∧
      t'.identityIndex = true ∧ t'.indexUnique moveHash = true ∧ t'.Unique ∧
      (t.games = [] → t'.games.map GameRow.identityCollision =
        (t.insertEach moveHash games).games.map GameRow.identityCollision) := by
  obtain ⟨hchecked, hcontents⟩ := h.insertEach games
  obtain ⟨hraw, hrows⟩ := @insertRawEach_spec moveHash t.dropIdentityIndex rfl games
  refine ⟨_, _, deduplicate_eq, ?_⟩
  have hok := @deduplicate_eq moveHash (t.dropIdentityIndex.insertRawEach moveHash games)
  obtain ⟨hunique, hranked, hindexed⟩ := deduplicate_guards hok
  have hsame := (contents_deduplicate hok).trans (hraw.trans hcontents.symm)
  have hstored := congrArg Contents.games hsame
  rw [hunique.contents_games, hchecked.unique.contents_games] at hstored
  refine ⟨hstored, congrArg Contents.players hsame, congrArg Contents.events hsame, ?_, hindexed,
    hranked.indexUnique, hunique, ?_⟩
  · intro row hrow
    apply mem_deduplicate hok (hrows.subset hrow)
    intro other hother hid
    exact least_of_prefix h.unique hrows hrow hother hid
  · intro hempty
    have hstart : t.Ranked moveHash := by simp [Ranked, hempty]
    exact hranked.collisions_eq (hstart.insertEach h games) hstored

private theorem sound_empty : empty.Sound moveHash where
  indexed := rfl
  indexUnique := by
    rw [indexUnique_iff]
    exact List.nodup_nil
  unique := List.nodup_nil
  namesStored _ h := by contradiction

private def sampleGame (white : String) (date : Option String) (moves : List UInt16) : Game where
  white := ⟨white, some 2400, none, none⟩
  black := ⟨"Black", none, none, none⟩
  eventDetails := none
  date := date
  result := "1-0"
  eco := none
  moves := moves

theorem insertRawEach_deduplicate_eq_insertEach_sample :
    let games := [sampleGame "A" none [1, 2], sampleGame "A" (some "") [3], sampleGame "B" none [3],
      sampleGame "A" none [1, 2], sampleGame "A" none [3]]
    ∃ removed t', (empty.dropIdentityIndex.insertRawEach (fun _ => 0) games).deduplicate
        (fun _ => 0) = .ok (t', removed) ∧
      t'.games.map GameRow.stored = (empty.insertEach (fun _ => 0) games).games.map GameRow.stored ∧
      t'.games.map GameRow.identityCollision =
        (empty.insertEach (fun _ => 0) games).games.map GameRow.identityCollision := by
  intro games
  obtain ⟨removed, t', hok, hstored, -, -, -, -, -, -, hcollisions⟩ :=
    insertRawEach_deduplicate_eq_insertEach (@sound_empty fun _ => 0) games
  exact ⟨removed, t', hok, hstored, hcollisions rfl⟩

end MotifChess.Db.Tables
