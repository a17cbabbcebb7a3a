/- GID: MotifChess/Order/RunMerge
   generality: general
   digest: A k-way merge of ascending runs visits an ascending permutation of all records. -/

import Mathlib.Data.List.Sort

set_option autoImplicit false
set_option relaxedAutoImplicit false

namespace MotifChess.Order.RunMerge

universe u v

variable {α β σ : Type u} {ε : Type v} [LinearOrder α]

/-- Take the first cursor whose current record is least. -/
def extractMin (cur : β → α) : List β → Option (β × List β)
  | [] => none
  | c :: rest =>
    match extractMin cur rest with
    | none => some (c, [])
    | some (d, others) => if cur c ≤ cur d then some (c, rest) else some (d, c :: others)

theorem extractMin_eq_none {cur : β → α} {heap : List β} (h : extractMin cur heap = none) :
    heap = [] := by
  cases heap with
  | nil => rfl
  | cons c rest =>
    rw [extractMin] at h
    split at h
    · cases h
    · split at h <;> cases h

theorem extractMin_spec {cur : β → α} {heap rest : List β} {c : β}
    (h : extractMin cur heap = some (c, rest)) :
    heap.Perm (c :: rest) ∧ ∀ d ∈ rest, cur c ≤ cur d := by
  induction heap generalizing c rest with
  | nil => cases h
  | cons a heap ih =>
    rw [extractMin] at h
    split at h
    · next hnone =>
      obtain ⟨rfl, rfl⟩ := Prod.mk.inj (Option.some.inj h)
      rw [extractMin_eq_none hnone]
      exact ⟨List.Perm.refl _, by simp⟩
    · next d others hsome =>
      obtain ⟨hperm, hle⟩ := ih hsome
      split at h
      · next had =>
        obtain ⟨rfl, rfl⟩ := Prod.mk.inj (Option.some.inj h)
        refine ⟨List.Perm.refl _, fun x hx => ?_⟩
        rcases List.mem_cons.mp (hperm.mem_iff.mp hx) with rfl | hx
        · exact had
        · exact had.trans (hle x hx)
      · next had =>
        obtain ⟨rfl, rfl⟩ := Prod.mk.inj (Option.some.inj h)
        refine ⟨(hperm.cons a).trans (List.Perm.swap _ _ _), fun x hx => ?_⟩
        rcases List.mem_cons.mp hx with rfl | hx
        · exact (le_of_not_ge had)
        · exact hle x hx

/-- Visit the least current record, advance its cursor, and repeat while cursors are live. -/
def mergeLoop (cur : β → α) (advance : β → Except ε (Option β))
    (visit : σ → α → Except ε σ) : ℕ → List β → σ → Except ε σ
  | 0, _, s => .ok s
  | fuel + 1, heap, s =>
    match extractMin cur heap with
    | none => .ok s
    | some (c, rest) => do
      let s' ← visit s (cur c)
      let advanced ← advance c
      mergeLoop cur advance visit fuel (advanced.toList ++ rest) s'

/-- The cursor stands at the first record of a list that advancing walks through. -/
inductive Walks (cur : β → α) (advance : β → Except ε (Option β)) : β → List α → Prop
  | last {c : β} : advance c = .ok none → Walks cur advance c [cur c]
  | next {c d : β} {l : List α} : advance c = .ok (some d) → Walks cur advance d l →
      Walks cur advance c (cur c :: l)

variable {cur : β → α} {advance : β → Except ε (Option β)}

omit [LinearOrder α] in
theorem Walks.head {c : β} {l : List α} (h : Walks cur advance c l) :
    ∃ tail, l = cur c :: tail := by
  cases h with
  | last _ => exact ⟨[], rfl⟩
  | next _ _ => exact ⟨_, rfl⟩

omit [LinearOrder α] in
theorem Walks.unique {c : β} {l m : List α} (hl : Walks cur advance c l)
    (hm : Walks cur advance c m) : l = m := by
  induction hl generalizing m with
  | last hadv =>
    cases hm with
    | last _ => rfl
    | next hadv' _ => simp [hadv] at hadv'
  | next hadv _ ih =>
    cases hm with
    | last hadv' => simp [hadv] at hadv'
    | next hadv' hm =>
      obtain rfl := Option.some.inj (Except.ok.inj (hadv.symm.trans hadv'))
      rw [ih hm]

open Classical in
/-- The records a cursor still has to deliver, when advancing terminates without an error. -/
noncomputable def recordsOf (cur : β → α) (advance : β → Except ε (Option β)) (c : β) :
    List α :=
  if h : ∃ l, Walks cur advance c l then h.choose else []

omit [LinearOrder α] in
theorem Walks.recordsOf_eq {c : β} {l : List α} (h : Walks cur advance c l) :
    recordsOf cur advance c = l := by
  have hex : ∃ l, Walks cur advance c l := ⟨l, h⟩
  rw [recordsOf, dif_pos hex]
  exact hex.choose_spec.unique h

omit [LinearOrder α] in
theorem flatMap_recordsOf {heap : List β} {runs : List (List α)}
    (h : List.Forall₂ (Walks cur advance) heap runs) :
    heap.flatMap (recordsOf cur advance) = runs.flatten := by
  induction h with
  | nil => rfl
  | cons hc _ ih => rw [List.flatMap_cons, List.flatten_cons, hc.recordsOf_eq, ih]

/-- The cursor delivers finitely many records, in ascending order. -/
def Ascending (cur : β → α) (advance : β → Except ε (Option β)) (c : β) : Prop :=
  ∃ l, Walks cur advance c l ∧ l.Pairwise (· ≤ ·)

theorem Ascending.le {c : β} (h : Ascending cur advance c) :
    ∀ x ∈ recordsOf cur advance c, cur c ≤ x := by
  obtain ⟨l, hwalk, hsorted⟩ := h
  obtain ⟨tail, rfl⟩ := hwalk.head
  rw [hwalk.recordsOf_eq]
  intro x hx
  rcases List.mem_cons.mp hx with rfl | hx
  · exact le_rfl
  · exact (List.pairwise_cons.mp hsorted).1 x hx

/-- Advancing an ascending cursor removes its current record and stays ascending. -/
theorem Ascending.advanced {c : β} (h : Ascending cur advance c) :
    ∃ advanced, advance c = .ok advanced ∧ (∀ d ∈ advanced, Ascending cur advance d) ∧
      recordsOf cur advance c = cur c :: advanced.toList.flatMap (recordsOf cur advance) := by
  obtain ⟨l, hwalk, hsorted⟩ := h
  rw [hwalk.recordsOf_eq]
  cases hwalk with
  | last hadv => exact ⟨none, hadv, by simp, by simp⟩
  | @next _ d tail hadv hwalk =>
    refine ⟨some d, hadv, ?_, by simp [hwalk.recordsOf_eq]⟩
    intro e he
    obtain rfl := Option.some.inj he
    exact ⟨tail, hwalk, (List.pairwise_cons.mp hsorted).2⟩

/-- Merging ascending cursors folds the visitor over an ascending permutation of their records. -/
theorem mergeLoop_eq_foldlM (visit : σ → α → Except ε σ) {fuel : ℕ} {heap : List β}
    (hheap : ∀ c ∈ heap, Ascending cur advance c)
    (hfuel : (heap.flatMap (recordsOf cur advance)).length < fuel) :
    ∃ merged : List α, merged.Perm (heap.flatMap (recordsOf cur advance)) ∧
      merged.Pairwise (· ≤ ·) ∧
      ∀ s, mergeLoop cur advance visit fuel heap s = merged.foldlM visit s := by
  induction fuel generalizing heap with
  | zero => omega
  | succ fuel ih =>
    cases hmin : extractMin cur heap with
    | none =>
      obtain rfl := extractMin_eq_none hmin
      exact ⟨[], by simp, List.Pairwise.nil, fun s => by rw [mergeLoop, hmin]; rfl⟩
    | some picked =>
      obtain ⟨c, rest⟩ := picked
      obtain ⟨hperm, hle⟩ := extractMin_spec hmin
      have hrest : ∀ d ∈ rest, Ascending cur advance d := fun d hd =>
        hheap d (hperm.mem_iff.mpr (List.mem_cons_of_mem _ hd))
      have hc := hheap c (hperm.mem_iff.mpr List.mem_cons_self)
      obtain ⟨advanced, hadv, hadvanced, hrecords⟩ := hc.advanced
      have hflat := hperm.flatMap_right (recordsOf cur advance)
      have hsplit : (heap.flatMap (recordsOf cur advance)).Perm
          (cur c :: (advanced.toList ++ rest).flatMap (recordsOf cur advance)) := by
        rwa [List.flatMap_cons, hrecords, List.cons_append, ← List.flatMap_append] at hflat
      have hleast : ∀ x ∈ heap.flatMap (recordsOf cur advance), cur c ≤ x := by
        intro x hx
        obtain ⟨d, hd, hx⟩ := List.mem_flatMap.mp hx
        have hdx := (hheap d hd).le x hx
        rcases List.mem_cons.mp (hperm.mem_iff.mp hd) with rfl | hd
        · exact hdx
        · exact (hle d hd).trans hdx
      have hlive : ∀ d ∈ advanced.toList ++ rest, Ascending cur advance d := by
        intro d hd
        rcases List.mem_append.mp hd with hd | hd
        · exact hadvanced d (by simpa using hd)
        · exact hrest d hd
      have hlen := hsplit.length_eq
      rw [List.length_cons] at hlen
      obtain ⟨merged, hmerged, hsorted, hrun⟩ := ih hlive (by omega)
      refine ⟨cur c :: merged, (hmerged.cons _).trans hsplit.symm, ?_, fun s => ?_⟩
      · refine List.pairwise_cons.mpr ⟨fun x hx => ?_, hsorted⟩
        exact hleast x (hsplit.mem_iff.mpr (List.mem_cons_of_mem _ (hmerged.mem_iff.mp hx)))
      · rw [mergeLoop, hmin, List.foldlM_cons]
        refine bind_congr fun s' => ?_
        rw [hadv]
        exact hrun s'

section Files

variable {φ : Type u} {openRun : φ → Except ε β}

/-- Advancing yields exactly the records of a list, and then the end of the run. -/
inductive Delivers (cur : β → α) (advance : β → Except ε (Option β)) : β → List α → Prop
  | done {c : β} : advance c = .ok none → Delivers cur advance c []
  | next {c d : β} {l : List α} : advance c = .ok (some d) → Delivers cur advance d l →
      Delivers cur advance c (cur d :: l)

omit [LinearOrder α] in
theorem Delivers.walks {c : β} {l : List α} (h : Delivers cur advance c l) :
    Walks cur advance c (cur c :: l) := by
  induction h with
  | done hadv => exact .last hadv
  | next hadv _ ih => exact .next hadv ih

omit [LinearOrder α] in
private theorem exists_live {cursors : List β} {runs : List (List α)}
    (h : List.Forall₂ (Delivers cur advance) cursors runs) :
    ∃ heap live, cursors.mapM advance = .ok heap ∧
      List.Forall₂ (Walks cur advance) heap.reduceOption live ∧
      live.flatten = runs.flatten ∧ live ⊆ runs := by
  induction h with
  | nil => exact ⟨[], [], rfl, .nil, rfl, List.Subset.refl _⟩
  | @cons c run cursors runs hc _ ih =>
    obtain ⟨heap, live, hheap, hwalks, hflatten, hsub⟩ := ih
    have hmap : ∀ advanced, advance c = .ok advanced →
        (c :: cursors).mapM advance = .ok (advanced :: heap) := by
      intro advanced hadv
      rw [List.mapM_cons, hadv]
      show (do let rest ← cursors.mapM advance; .ok (advanced :: rest)) = _
      rw [hheap]
      rfl
    cases hc with
    | done hadv =>
      refine ⟨none :: heap, live, hmap none hadv, hwalks, ?_, List.subset_cons_of_subset _ hsub⟩
      rw [List.flatten_cons, List.nil_append, hflatten]
    | @next _ d l hadv hrest =>
      refine ⟨some d :: heap, (cur d :: l) :: live, hmap _ hadv, hwalks.cons hrest.walks, ?_,
        List.cons_subset_cons _ hsub⟩
      rw [List.flatten_cons, List.flatten_cons, hflatten]

omit [LinearOrder α] in
private theorem exists_cursors {files : List φ} {runs : List (List α)}
    (h : List.Forall₂ (fun file run => ∃ c, openRun file = .ok c ∧ Delivers cur advance c run)
      files runs) :
    ∃ cursors, files.mapM openRun = .ok cursors ∧
      List.Forall₂ (Delivers cur advance) cursors runs := by
  induction h with
  | nil => exact ⟨[], rfl, .nil⟩
  | @cons file run files runs hfile _ ih =>
    obtain ⟨c, hopen, hdelivers⟩ := hfile
    obtain ⟨cursors, hcursors, hrest⟩ := ih
    refine ⟨c :: cursors, ?_, hrest.cons hdelivers⟩
    rw [List.mapM_cons, hopen]
    show (do let rest ← files.mapM openRun; .ok (c :: rest)) = _
    rw [hcursors]
    rfl

omit [LinearOrder α] in
private theorem exists_run_of_mem {heap : List β} {live : List (List α)}
    (h : List.Forall₂ (Walks cur advance) heap live) {c : β} (hc : c ∈ heap) :
    ∃ run ∈ live, Walks cur advance c run := by
  induction h with
  | nil => cases hc
  | cons hwalks _ ih =>
    rcases List.mem_cons.mp hc with rfl | hmem
    · exact ⟨_, List.mem_cons_self, hwalks⟩
    · obtain ⟨run, hrun, hwalk⟩ := ih hmem
      exact ⟨run, List.mem_cons_of_mem _ hrun, hwalk⟩

/-- Opening files of ascending runs and merging them folds the visitor over an ascending permutation
of all their records. -/
theorem mergeFiles_eq_foldlM (visit : σ → α → Except ε σ) {files : List φ} {runs : List (List α)}
    (hopens : List.Forall₂ (fun file run => ∃ c, openRun file = .ok c ∧ Delivers cur advance c run)
      files runs)
    (hsorted : ∀ run ∈ runs, run.Pairwise (· ≤ ·)) {fuel : ℕ} (hfuel : runs.flatten.length < fuel) :
    ∃ cursors heap, ∃ merged : List α, files.mapM openRun = .ok cursors ∧
      cursors.mapM advance = .ok heap ∧ merged.Perm runs.flatten ∧ merged.Pairwise (· ≤ ·) ∧
      ∀ s, mergeLoop cur advance visit fuel heap.reduceOption s = merged.foldlM visit s := by
  obtain ⟨cursors, hcursors, hdelivers⟩ := exists_cursors hopens
  obtain ⟨heap, live, hheap, hwalks, hflatten, hsub⟩ := exists_live hdelivers
  have hflat := flatMap_recordsOf hwalks
  rw [hflatten] at hflat
  have hascending : ∀ c ∈ heap.reduceOption, Ascending cur advance c := by
    intro c hc
    obtain ⟨run, hrun, hwalk⟩ := exists_run_of_mem hwalks hc
    exact ⟨run, hwalk, hsorted run (hsub hrun)⟩
  obtain ⟨merged, hperm, hascend, hmerge⟩ :=
    mergeLoop_eq_foldlM visit hascending (hflat ▸ hfuel)
  exact ⟨cursors, heap, merged, hcursors, hheap, hflat ▸ hperm, hascend, hmerge⟩

end Files

end MotifChess.Order.RunMerge
