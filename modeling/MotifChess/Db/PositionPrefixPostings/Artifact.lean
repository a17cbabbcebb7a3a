/- GID: MotifChess/Db/PositionPrefixPostings/Artifact
   generality: implementation
   digest: What a prefix postings file stores, what opening it gives, and what finalizing writes. -/

import MotifChess.Db.PositionPrefixPostings.Sidecar
import Mathlib.Data.Finset.Prod
import Mathlib.Data.Finset.Range
import Mathlib.Data.Finset.Card

set_option autoImplicit false
set_option relaxedAutoImplicit false

namespace MotifChess.Db.PositionPrefixPostings

open Codec LittleEndian
open MotifChess.Order.Buckets

section Prefix

variable {prefixBits : ℕ}

private theorem validPrefixBits_iff : validPrefixBits prefixBits = true ↔ 0 < prefixBits ∧ prefixBits ≤ 24 :=
  decide_eq_true_iff

theorem two_pow_prefixBits_le (h : validPrefixBits prefixBits = true) : 2 ^ prefixBits ≤ 2 ^ 24 :=
  Nat.pow_le_pow_right (by decide) (validPrefixBits_iff.mp h).2

theorem prefixOf_lt (h : validPrefixBits prefixBits = true) (hash : UInt64) :
    prefixOf prefixBits hash < 2 ^ prefixBits := by
  have hle := (validPrefixBits_iff.mp h).2
  have hpow : 2 ^ 64 = 2 ^ (64 - prefixBits) * 2 ^ prefixBits := by
    rw [← Nat.pow_add]
    congr 1
    omega
  have hdiv : hash.toNat / 2 ^ (64 - prefixBits) < 2 ^ prefixBits := by
    rw [Nat.div_lt_iff_lt_mul (Nat.two_pow_pos _), Nat.mul_comm, ← hpow]
    exact hash.toNat_lt
  exact lt_of_le_of_lt (Nat.mod_le _ _) hdiv

end Prefix

section Stored

def headerSize : ℕ := 32

/-- The ids that a file stores for the prefix of a hash: the table of offsets follows the header, and the
ids follow that table. -/
def storedIds (prefixBits : ℕ) (file : List UInt8) (hash : UInt64) : List ℕ :=
  let first := wordAt 8 (headerSize + prefixOf prefixBits hash * 8) file
  let last := wordAt 8 (headerSize + (prefixOf prefixBits hash + 1) * 8) file
  (List.range' first (last - first)).map fun i =>
    wordAt 4 (headerSize + (2 ^ prefixBits + 1) * 8 + i * 4) file

/-- Arrays that fit each other. -/
structure Fitting (prefixBits : ℕ) (offsets postings : List ℕ) : Prop where
  valid : validPrefixBits prefixBits = true
  length : offsets.length = 2 ^ prefixBits + 1
  last : offsets.getLast? = some postings.length
  sorted : offsets.SortedLE
  offset_lt : ∀ offset ∈ offsets, offset < 2 ^ 64
  posting_lt : ∀ id ∈ postings, id < 2 ^ 32

/-- A file that holds the arrays after its header. -/
def Holds (file : List UInt8) (offsets postings : List ℕ) : Prop :=
  ∃ header rest, header.length = headerSize ∧ file = header ++
    (offsets.flatMap (leBytes 8) ++ (postings.flatMap (leBytes 4) ++ rest))

variable {prefixBits : ℕ} {file : List UInt8} {offsets postings : List ℕ}

private theorem getElem?_mono {l : List ℕ} (h : l.SortedLE) {i j a b : ℕ} (hij : i ≤ j)
    (ha : l[i]? = some a) (hb : l[j]? = some b) : a ≤ b := by
  obtain ⟨hi, rfl⟩ := List.getElem?_eq_some_iff.mp ha
  obtain ⟨hj, rfl⟩ := List.getElem?_eq_some_iff.mp hb
  have hmono : Monotone l.get := h
  exact hmono (show (⟨i, hi⟩ : Fin l.length) ≤ ⟨j, hj⟩ from hij)

theorem candidates_eq {s : Sidecar} (hfit : Fitting s.prefixBits s.offsets s.postings)
    (hfile : Holds file s.offsets s.postings) (hash : UInt64) :
    s.candidates hash = .ids (storedIds s.prefixBits file hash) := by
  obtain ⟨header, rest, hheader, hfile⟩ := hfile
  have hprefix := prefixOf_lt hfit.valid hash
  have hlength := hfit.length
  obtain ⟨first, hfirst⟩ : ∃ first, s.offsets[prefixOf s.prefixBits hash]? = some first :=
    ⟨_, List.getElem?_eq_getElem (by omega)⟩
  obtain ⟨last, hlast⟩ : ∃ last, s.offsets[prefixOf s.prefixBits hash + 1]? = some last :=
    ⟨_, List.getElem?_eq_getElem (by omega)⟩
  have hend : s.offsets[s.offsets.length - 1]? = some s.postings.length := by
    rw [← List.getLast?_eq_getElem?]
    exact hfit.last
  have hordered := getElem?_mono hfit.sorted (Nat.le_succ _) hfirst hlast
  have hbound := getElem?_mono hfit.sorted (by omega) hlast hend
  have hne : s.offsets.isEmpty = false := by
    rw [List.isEmpty_eq_false_iff]
    exact List.ne_nil_of_length_pos (by omega)
  have hwords : ∀ {p offset : ℕ}, s.offsets[p]? = some offset →
      wordAt 8 (headerSize + p * 8) file = offset := by
    intro p offset hoffset
    rw [hfile, ← hheader]
    exact wordAt_table _ _ hoffset (hfit.offset_lt _ (List.mem_of_getElem? hoffset))
  have hids : ∀ {i id : ℕ}, s.postings[i]? = some id →
      wordAt 4 (headerSize + (2 ^ s.prefixBits + 1) * 8 + i * 4) file = id := by
    intro i id hid
    have hfront : (header ++ s.offsets.flatMap (leBytes 8)).length =
        headerSize + (2 ^ s.prefixBits + 1) * 8 := by
      rw [List.length_append, length_flatMap_leBytes, hheader, hlength]
    rw [hfile, ← List.append_assoc, ← hfront]
    exact wordAt_table _ _ hid (hfit.posting_lt _ (List.mem_of_getElem? hid))
  rw [Sidecar.candidates, hne, if_neg (by decide)]
  simp only [hfirst, hlast]
  rw [if_pos ⟨hordered, hbound⟩, storedIds, hwords hfirst, hwords hlast]
  congr 1
  apply List.ext_getElem?
  intro i
  by_cases hi : i < last - first
  · have hsome := List.getElem?_eq_getElem (show first + i < s.postings.length by omega)
    rw [List.getElem?_take_of_lt hi, List.getElem?_drop, hsome]
    simp only [List.getElem?_map, List.getElem?_range', hi, Option.map_some]
    rw [Nat.one_mul, hids hsome]
  · rw [List.getElem?_eq_none (by simp; omega), List.getElem?_eq_none (by simp; omega)]

end Stored

section Open

variable {prefixBits : ℕ}

private theorem readInts_of_le {width n : ℕ} {input : List UInt8} (h : n * width ≤ input.length) :
    ∃ values rest, readInts width n input = (values, some rest) ∧ values.length = n ∧
      (∀ v ∈ values, v < 256 ^ width) ∧ input = values.flatMap (leBytes width) ++ rest := by
  induction n generalizing input with
  | zero => exact ⟨[], input, rfl, rfl, by simp, rfl⟩
  | succ n ih =>
    rw [Nat.succ_mul] at h
    have hread : readLe width input = some (leValue (input.take width), input.drop width) :=
      if_neg (by omega)
    obtain ⟨hinput, hvalue⟩ := readLe_eq_some.mp hread
    have hleft : n * width ≤ (input.drop width).length := by
      rw [List.length_drop]
      omega
    obtain ⟨values, rest, hvalues, hlength, hlt, hrest⟩ := ih hleft
    refine ⟨leValue (input.take width) :: values, rest, ?_, by simp [hlength], ?_, ?_⟩
    · simp only [readInts, hread, hvalues]
    · intro v hv
      rcases List.mem_cons.mp hv with rfl | hmem
      · exact hvalue
      · exact hlt v hmem
    · rw [List.flatMap_cons, List.append_assoc, ← hrest]
      exact hinput

theorem readInts_flatMap {width : ℕ} {values : List ℕ} (h : ∀ v ∈ values, v < 256 ^ width)
    (rest : List UInt8) :
    readInts width values.length (values.flatMap (leBytes width) ++ rest) = (values, some rest) := by
  induction values with
  | nil => rfl
  | cons v values ih =>
    rw [List.flatMap_cons, List.append_assoc, List.length_cons, readInts,
      readLe_leBytes (h v List.mem_cons_self)]
    simp only [ih fun w hw => h w (List.mem_cons_of_mem _ hw)]

private theorem readHeader_eq_some {file input : List UInt8} {postingsCount : ℕ}
    (h : readHeader prefixBits file = some (postingsCount, input)) :
    validPrefixBits prefixBits = true ∧
      ∃ header, header.length = headerSize ∧ file = header ++ input := by
  simp only [readHeader, Option.bind_eq_bind, Option.bind_eq_some_iff, Option.guard_eq_some',
    Prod.exists, Option.pure_def, Option.some.injEq, Prod.mk.injEq, exists_const] at h
  obtain ⟨hmagic, version, input₁, h₁, stored, input₂, h₂, reserved, input₃, h₃, reserved', input₄,
    h₄, buckets, input₅, h₅, count, input₆, h₆, ⟨-, rfl, hvalid, -⟩, rfl, rfl⟩ := h
  obtain ⟨h₁, -⟩ := readLe_eq_some.mp h₁
  obtain ⟨rfl, -⟩ := readLe_eq_some.mp h₂
  obtain ⟨rfl, -⟩ := readLe_eq_some.mp h₃
  obtain ⟨rfl, -⟩ := readLe_eq_some.mp h₄
  obtain ⟨rfl, -⟩ := readLe_eq_some.mp h₅
  obtain ⟨rfl, -⟩ := readLe_eq_some.mp h₆
  refine ⟨hvalid, magic ++ (leBytes 4 version ++ (leBytes 1 stored ++ (leBytes 1 reserved ++
    (leBytes 2 reserved' ++ (leBytes 8 buckets ++ leBytes 8 count))))), ?_, ?_⟩
  · simp [magic, headerSize]
  · rw [← List.take_append_drop 8 file, hmagic, h₁]
    simp only [List.append_assoc]

theorem readHeader_headerBytes (hvalid : validPrefixBits prefixBits = true) {postingsCount : ℕ}
    (hcount : postingsCount < 2 ^ 64) (rest : List UInt8) :
    readHeader prefixBits (headerBytes prefixBits postingsCount ++ rest) =
      some (postingsCount, rest) := by
  have hbits := (validPrefixBits_iff.mp hvalid).2
  have hbuckets := two_pow_prefixBits_le hvalid
  have hmagic : (headerBytes prefixBits postingsCount ++ rest).take 8 = magic := rfl
  have hdrop : (headerBytes prefixBits postingsCount ++ rest).drop 8 = leBytes 4 formatVersion ++
      (leBytes 1 prefixBits ++ (leBytes 1 0 ++ (leBytes 2 0 ++ (leBytes 8 (2 ^ prefixBits) ++
        (leBytes 8 postingsCount ++ rest))))) := by
    simp only [headerBytes, List.append_assoc]
    rfl
  have hwidth : prefixBits < 256 ^ 1 := by omega
  have hsize : 2 ^ prefixBits < 256 ^ 8 := by omega
  have hfits : postingsCount < 256 ^ 8 := hcount
  rw [readHeader, hmagic, hdrop]
  simp only [Option.bind_eq_bind, guard_of, Option.bind_some,
    readLe_leBytes (show formatVersion < 256 ^ 4 by decide), readLe_leBytes hwidth,
    readLe_leBytes (show 0 < 256 ^ 1 by decide), readLe_leBytes (show 0 < 256 ^ 2 by decide),
    readLe_leBytes hsize, readLe_leBytes hfits, hvalid, and_self, Option.pure_def]

/-- What follows an accepted header can be loaded: both tables are there, and the offsets are valid. -/
def Complete (prefixBits postingsCount : ℕ) (input : List UInt8) : Prop :=
  (2 ^ prefixBits + 1) * 8 + postingsCount * 4 ≤ input.length ∧
    validOffsets postingsCount (readInts 8 (2 ^ prefixBits + 1) input).1 = true

theorem openFile_of_complete {s : Sidecar} {file input : List UInt8} {postingsCount : ℕ}
    (hfile : s.file = some file) (hheader : readHeader s.prefixBits file = some (postingsCount, input))
    (hcomplete : Complete s.prefixBits postingsCount input) :
    ∃ offsets postings, s.openFile = ({ s with offsets, postings }, .ok ()) ∧
      Fitting s.prefixBits offsets postings ∧ Holds file offsets postings := by
  obtain ⟨hvalid, header, hlength, hsplit⟩ := readHeader_eq_some hheader
  obtain ⟨henough, hoffsets⟩ := hcomplete
  have htable : (2 ^ s.prefixBits + 1) * 8 ≤ input.length := by omega
  obtain ⟨offsets, rest, hread, hcount, hlt, hinput⟩ := readInts_of_le htable
  have hrest : postingsCount * 4 ≤ rest.length := by
    have htotal := congrArg List.length hinput
    rw [List.length_append, length_flatMap_leBytes, hcount] at htotal
    omega
  obtain ⟨postings, tail, hread', hcount', hlt', hrest⟩ := readInts_of_le hrest
  rw [hread] at hoffsets
  refine ⟨offsets, postings, ?_, ?_, ?_⟩
  · simp only [Sidecar.openFile, hfile, hheader, hread, hoffsets, hread', if_true]
  · obtain ⟨-, hlast, hsorted⟩ := of_decide_eq_true hoffsets
    exact ⟨hvalid, hcount, hcount' ▸ hlast, hsorted, hlt, hlt'⟩
  · exact ⟨header, tail, hlength, by rw [hsplit, hinput, hrest]⟩

/-- A file is refused before anything is changed when there is none, or when its header is not
acceptable. -/
theorem openFile_refused {s : Sidecar} (h : ∀ file ∈ s.file, readHeader s.prefixBits file = none) :
    ∃ e, s.openFile = (s, .error e) := by
  unfold Sidecar.openFile
  cases hfile : s.file with
  | none => exact ⟨_, rfl⟩
  | some file =>
    dsimp only
    rw [h file hfile]
    exact ⟨_, rfl⟩

end Open

section Write

variable {prefixBits : ℕ} {records : List Record}

/-- A record of a hash prefix and an id. -/
structure Record.Fits (prefixBits : ℕ) (r : Record) : Prop where
  prefix_lt : r.prefixValue < 2 ^ prefixBits
  game_lt : r.gameKey < 2 ^ 32

theorem Record.ofRow_fits (h : validPrefixBits prefixBits = true) (row : PositionRow) :
    (Record.ofRow prefixBits row).Fits prefixBits :=
  ⟨prefixOf_lt h _, row.gameId.toNat_lt⟩

theorem pairwise_sortBy (records : List Record) : (Order.sortBy id records).Pairwise (· ≤ ·) :=
  Order.pairwise_sortBy id records

@[simp] theorem mem_sortUnique {r : Record} : r ∈ sortUnique records ↔ r ∈ records := by
  rw [sortUnique, mem_unique (pairwise_sortBy records), Order.mem_sortBy]

theorem pairwise_sortUnique (records : List Record) : (sortUnique records).Pairwise (· < ·) :=
  pairwise_unique (pairwise_sortBy records)

theorem prefix_le {a b : Record} (h : a < b) : a.prefixValue ≤ b.prefixValue := by
  have hkey : a.key < b.key := h
  rw [Record.key, Record.key, Prod.Lex.toLex_lt_toLex] at hkey
  rcases hkey with hlt | ⟨heq, -⟩
  · exact hlt.le
  · exact heq.le

theorem length_lt_of_fits (hvalid : validPrefixBits prefixBits = true) (hnodup : records.Nodup)
    (hfits : ∀ r ∈ records, r.Fits prefixBits) : records.length < 2 ^ 64 := by
  have hsub : (records.map fun r => (r.prefixValue, r.gameKey)).toFinset ⊆
      Finset.range (2 ^ prefixBits) ×ˢ Finset.range (2 ^ 32) := by
    intro pair hpair
    obtain ⟨r, hr, rfl⟩ := List.mem_map.mp (List.mem_toFinset.mp hpair)
    have hr := hfits r hr
    simp only [Finset.mem_product, Finset.mem_range]
    exact ⟨hr.prefix_lt, hr.game_lt⟩
  have hinjective : (records.map fun r => (r.prefixValue, r.gameKey)).Nodup := by
    refine hnodup.map fun a b hab => ?_
    obtain ⟨hvalue, hgame⟩ := Prod.mk.inj hab
    exact Record.key_injective (congrArg toLex (Prod.ext hvalue hgame))
  have hcard := Finset.card_le_card hsub
  rw [List.toFinset_card_of_nodup hinjective, List.length_map, Finset.card_product,
    Finset.card_range, Finset.card_range] at hcard
  have hbits := Nat.mul_le_mul_right (2 ^ 32) (two_pow_prefixBits_le hvalid)
  omega

/-- The offset table of ascending records. -/
def offsetsOf (prefixBits : ℕ) (records : List Record) : List ℕ :=
  bucketOffsets Record.prefixValue (2 ^ prefixBits) records

/-- The file of ascending records. -/
def artifactBytes (prefixBits : ℕ) (records : List Record) : List UInt8 :=
  headerBytes prefixBits records.length ++ ((offsetsOf prefixBits records).flatMap (leBytes 8) ++
    (records.map Record.gameKey).flatMap (leBytes 4))

theorem holds_artifactBytes : Holds (artifactBytes prefixBits records) (offsetsOf prefixBits records)
    (records.map Record.gameKey) := by
  refine ⟨headerBytes prefixBits records.length, [], ?_, ?_⟩
  · simp [headerBytes, magic, headerSize]
  · rw [List.append_nil, artifactBytes]

theorem fitting_of_pairwise (hvalid : validPrefixBits prefixBits = true)
    (hsorted : records.Pairwise (· < ·)) (hfits : ∀ r ∈ records, r.Fits prefixBits) :
    Fitting prefixBits (offsetsOf prefixBits records) (records.map Record.gameKey) where
  valid := hvalid
  length := length_bucketOffsets
  last := by
    rw [List.getLast?_eq_getElem?, offsetsOf, length_bucketOffsets, Nat.add_sub_cancel,
      getElem?_bucketOffsets (Nat.le_refl _), countP_lt_size fun r hr => (hfits r hr).prefix_lt,
      List.length_map]
  sorted := pairwise_bucketOffsets.sortedLE
  offset_lt := by
    intro offset hoffset
    obtain ⟨p, -, rfl⟩ := List.mem_map.mp hoffset
    exact lt_of_le_of_lt List.countP_le_length
      (length_lt_of_fits hvalid (hsorted.imp ne_of_lt) hfits)
  posting_lt := by
    intro id hid
    obtain ⟨r, hr, rfl⟩ := List.mem_map.mp hid
    exact (hfits r hr).game_lt

private theorem foldl_modify_succ (first : ℕ) (counts : List ℕ) :
    records.foldl (fun counts r => counts.modify (r.prefixValue + 1) (· + 1)) (first :: counts) =
      first :: records.foldl (fun counts r => counts.modify r.prefixValue (· + 1)) counts := by
  induction records generalizing counts with
  | nil => rfl
  | cons r records ih => rw [List.foldl_cons, List.modify_succ_cons, ih, List.foldl_cons]

theorem finalizeInMemory_published {s : Sidecar} {io : FinalizeIO} (hio : io.write = .published) :
    s.finalizeInMemory io = ({ s with
      records := []
      offsets := offsetsOf s.prefixBits (sortUnique s.records)
      postings := (sortUnique s.records).map Record.gameKey
      file := some (artifactBytes s.prefixBits (sortUnique s.records)) }, .ok ()) := by
  have hcounts : prefixSums 0 (bucketCounts Record.prefixValue (2 ^ s.prefixBits)
      (sortUnique s.records)) = offsetsOf s.prefixBits (sortUnique s.records) :=
    prefixSums_bucketCounts
  rw [bucketCounts] at hcounts
  unfold Sidecar.finalizeInMemory Sidecar.writeArtifact
  simp only [hio, List.replicate_succ, foldl_modify_succ, List.headD_cons, List.tail_cons, hcounts,
    List.length_map, artifactBytes]

end Write

end MotifChess.Db.PositionPrefixPostings
