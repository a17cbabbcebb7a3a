/- GID: MotifChess/Codec/Quoted
   generality: general
   digest: Quoted text with escapes, and the texts that come back when they are quoted plainly. -/

import Mathlib.Data.List.Basic

set_option autoImplicit false
set_option relaxedAutoImplicit false

namespace MotifChess.Codec.Quoted

variable {α : Type} [DecidableEq α] (quote escape : α)

/-- What stands before the first quote that no escape symbol protects. -/
def body : List α → List α
  | [] => []
  | c :: cs =>
    if c = quote then []
    else if c = escape then
      match cs with
      | [] => [c]
      | d :: ds => c :: d :: body ds
    else c :: body cs

/-- Drops the escape symbols that stand before a quote or another escape symbol. -/
def unescape : List α → List α
  | [] => []
  | c :: cs =>
    if c = escape then
      match cs with
      | [] => [c]
      | d :: ds => if d = quote ∨ d = escape then d :: unescape ds else c :: unescape (d :: ds)
    else c :: unescape cs

/-- There is nothing in the text that would need an escape symbol. -/
def plain : List α → Bool
  | [] => true
  | c :: cs =>
    if c = quote then false
    else if c = escape then
      match cs with
      | [] => false
      | d :: ds => d ≠ quote && d ≠ escape && plain ds
    else plain cs

/-- The text that is read up to the closing quote. -/
def read (text : List α) : List α := unescape quote escape (body quote escape text)

variable {quote escape} (hne : quote ≠ escape)

section Reading

variable {v : List α} {c d : α}

omit hne

theorem unescape_cons (hescape : c ≠ escape) :
    unescape quote escape (c :: v) = c :: unescape quote escape v := by
  rw [unescape.eq_def]
  simp [hescape]

theorem read_quote : read quote escape (quote :: v) = [] := by
  rw [read, body.eq_def]
  simp [unescape]

theorem read_cons (hquote : c ≠ quote) (hescape : c ≠ escape) :
    read quote escape (c :: v) = c :: read quote escape v := by
  rw [read, body.eq_def]
  simp [hquote, hescape, unescape_cons hescape, read]

include hne

theorem read_escaped (hd : d = quote ∨ d = escape) :
    read quote escape (escape :: d :: v) = d :: read quote escape v := by
  rw [read, body.eq_def]
  simp only [hne.symm, if_false, if_true]
  rw [unescape.eq_def]
  simp [hd, read]

theorem read_other (hquote : d ≠ quote) (hescape : d ≠ escape) :
    read quote escape (escape :: d :: v) = escape :: d :: read quote escape v := by
  rw [read, body.eq_def]
  simp only [hne.symm, if_false, if_true]
  rw [unescape.eq_def]
  simp [hquote, hescape, unescape_cons hescape, read]

end Reading

section Plain

include hne

private theorem not_isPrefix_read (rest v : List α) (k : ℕ) :
    ¬escape :: (List.replicate k escape ++ v) <+: read quote escape (v ++ quote :: rest) := by
  induction hlength : v.length using Nat.strongRecOn generalizing v k with
  | ind n ih =>
    intro h
    match v with
    | [] =>
      rw [List.nil_append, read_quote] at h
      exact absurd (List.prefix_nil.mp h) (List.cons_ne_nil _ _)
    | c :: v =>
      by_cases hquote : c = quote
      · rw [hquote, List.cons_append, read_quote] at h
        exact absurd (List.prefix_nil.mp h) (List.cons_ne_nil _ _)
      by_cases hescape : c = escape
      · subst hescape
        match v with
        | [] =>
          rw [List.cons_append, List.nil_append, read_escaped hne (.inl rfl)] at h
          exact hne (List.cons_prefix_cons.mp h).1.symm
        | d :: v =>
          rw [List.cons_append, List.cons_append] at h
          by_cases hd : d = c
          · subst hd
            rw [read_escaped hne (.inr rfl)] at h
            have hshorter : v.length < n := by
              simp only [← hlength, List.length_cons]
              omega
            refine ih v.length hshorter v (k + 1) rfl ?_
            have htail := (List.cons_prefix_cons.mp h).2
            rwa [List.append_cons, ← List.replicate_succ', List.append_cons,
              ← List.replicate_succ', List.replicate_succ, List.cons_append] at htail
          by_cases hd' : d = quote
          · subst hd'
            rw [read_escaped hne (.inl rfl)] at h
            exact hne (List.cons_prefix_cons.mp h).1.symm
          · rw [read_other hne hd' hd] at h
            have htail := (List.cons_prefix_cons.mp h).2
            cases k with
            | zero => exact hd (List.cons_prefix_cons.mp htail).1.symm
            | succ k => exact hd (List.cons_prefix_cons.mp htail).1.symm
      · rw [List.cons_append, read_cons hquote hescape] at h
        exact hescape (List.cons_prefix_cons.mp h).1.symm

/-- What is read starts as the quoted text does exactly when nothing in the text needs an escape
symbol. -/
theorem isPrefix_read_iff (v rest : List α) :
    v <+: read quote escape (v ++ quote :: rest) ↔ plain quote escape v = true := by
  induction hlength : v.length using Nat.strongRecOn generalizing v with
  | ind n ih =>
    match v with
    | [] => simp [plain]
    | c :: v =>
      by_cases hquote : c = quote
      · rw [hquote, List.cons_append, read_quote, plain.eq_def]
        simp
      by_cases hescape : c = escape
      · subst hescape
        match v with
        | [] =>
          rw [List.cons_append, List.nil_append, read_escaped hne (.inl rfl), plain.eq_def]
          simp [hne.symm]
        | d :: v =>
          rw [List.cons_append, List.cons_append, plain.eq_def]
          by_cases hd : d = c
          · subst hd
            rw [read_escaped hne (.inr rfl)]
            have hread := not_isPrefix_read hne rest v 0
            simpa [hquote, List.cons_prefix_cons] using hread
          by_cases hd' : d = quote
          · subst hd'
            rw [read_escaped hne (.inl rfl)]
            simp [hquote, List.cons_prefix_cons]
          · rw [read_other hne hd' hd]
            have hrest := ih v.length (by simp only [← hlength, List.length_cons]; omega) v rfl
            simp [hquote, hd, hd', hrest, List.cons_prefix_cons]
      · rw [List.cons_append, read_cons hquote hescape, plain.eq_def]
        have hrest := ih v.length (by simp only [← hlength, List.length_cons]; omega) v rfl
        simp [hquote, hescape, hrest, List.cons_prefix_cons]

omit hne in
theorem unescape_of_plain {v : List α} (h : plain quote escape v = true) :
    unescape quote escape v = v := by
  induction hlength : v.length using Nat.strongRecOn generalizing v with
  | ind n ih =>
    match v with
    | [] => rfl
    | c :: v =>
      rw [plain.eq_def] at h
      by_cases hescape : c = escape
      · subst hescape
        match v with
        | [] => simp at h
        | d :: v =>
          rw [unescape.eq_def]
          by_cases hquote : c = quote
          · simp [hquote] at h
          · simp only [hquote, if_false, if_true, Bool.and_eq_true, decide_eq_true_eq] at h
            obtain ⟨⟨hd, hd'⟩, hv⟩ := h
            have hshorter : v.length < n := by
              simp only [← hlength, List.length_cons]
              omega
            simp [hd, hd', unescape_cons hd', ih v.length hshorter hv rfl]
      · rw [unescape_cons hescape]
        by_cases hquote : c = quote
        · simp [hquote] at h
        · simp only [hquote, hescape, if_false] at h
          rw [ih v.length (by simp only [← hlength, List.length_cons]; omega) h rfl]

omit hne in
theorem body_of_plain {v : List α} (h : plain quote escape v = true) (rest : List α) :
    body quote escape (v ++ quote :: rest) = v := by
  induction hlength : v.length using Nat.strongRecOn generalizing v with
  | ind n ih =>
    match v with
    | [] =>
      rw [List.nil_append, body.eq_def]
      simp
    | c :: v =>
      rw [plain.eq_def] at h
      rw [List.cons_append, body.eq_def]
      by_cases hquote : c = quote
      · simp [hquote] at h
      by_cases hescape : c = escape
      · subst hescape
        match v with
        | [] => simp [hquote] at h
        | d :: v =>
          simp only [hquote, if_false, if_true, Bool.and_eq_true] at h ⊢
          simp [ih v.length (by simp only [← hlength, List.length_cons]; omega) h.2 rfl]
      · simp only [hquote, hescape, if_false] at h ⊢
        rw [ih v.length (by simp only [← hlength, List.length_cons]; omega) h rfl]

omit hne in
theorem plain_of_forall {v : List α} (h : ∀ c ∈ v, c ≠ quote ∧ c ≠ escape) :
    plain quote escape v = true := by
  induction v with
  | nil => rfl
  | cons c v ih =>
    obtain ⟨⟨hquote, hescape⟩, hv⟩ := List.forall_mem_cons.mp h
    rw [plain.eq_def]
    simp only [hquote, hescape, if_false]
    exact ih hv

end Plain

end MotifChess.Codec.Quoted
