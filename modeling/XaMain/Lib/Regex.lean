import Mathlib.Data.List.Basic

/-!
# Regular expressions with groups

A backtracking matcher for the regular expressions of a text, and what it computes.  `Regex.run`
returns every way an expression can match at a position, in the order in which a backtracking
matcher tries them: an optional part and a repetition are greedy.  `Regex.regexMatch` is a match of
the whole text, and returns what the groups captured; `Regex.regexSearch` looks for the first place
in a text where there is a match.

`Regex.Matches r b w t g` is the meaning of `r`, with no order in it: between the text `b` before
and the text `t` after, `r` matches `w` and captures `g`.  `mem_run` says that the matcher finds
exactly these, so a text is matched iff some `g` has `Matches r [] text [] g`
(`regexMatch_eq_none_iff`), and what is captured is such a `g` (`matches_of_regexMatch`).  An
expression that can match a text in one way only has its groups determined by that, whatever order
they are tried in.
-/

set_option autoImplicit false

/-- What the groups have captured, the last one first. -/
abbrev Groups := List (Nat × List Char)

/-- The text of a group, empty if the group took no part in the match. -/
def Groups.str (g : Groups) (i : Nat) : String := String.ofList ((g.lookup i).getD [])

/-- A regular expression. -/
inductive Regex where
  /-- The empty text. -/
  | eps
  /-- One character of a class. -/
  | cls (p : Char → Bool)
  /-- One after the other. -/
  | seq (r s : Regex)
  /-- `r?` -/
  | opt (r : Regex)
  /-- `r*` -/
  | star (r : Regex)
  /-- The group with number `i`. -/
  | group (i : Nat) (r : Regex)
  /-- `^` -/
  | bol
  /-- `$` -/
  | eol

namespace Regex

/-! ## Abbreviations -/

/-- A text as it stands. -/
def lit : List Char → Regex
  | [] => eps
  | c :: l => seq (cls (· == c)) (lit l)

/-- A list of parts, one after the other. -/
def cat : List Regex → Regex
  | [] => eps
  | r :: rs => seq r (cat rs)

/-- `p+` for a class `p` -/
def many (p : Char → Bool) : Regex := seq (cls p) (star (cls p))

/-- `n` times `r` -/
def times (r : Regex) : Nat → Regex
  | 0 => eps
  | n + 1 => seq r (times r n)

/-- At most `n` times `r` -/
def atMost (r : Regex) : Nat → Regex
  | 0 => eps
  | n + 1 => opt (seq r (atMost r n))

/-- `r{m,n}` -/
def between (r : Regex) (m n : Nat) : Regex := seq (times r m) (atMost r (n - m))

/-! ## The matcher -/

/-- How far a match has come. -/
structure Pos where
  /-- What has been matched. -/
  before : List Char
  /-- What is left. -/
  rest : List Char
  /-- What has been captured. -/
  groups : Groups

/-- Repeat `step` as long as it consumes something, the longest repetition first. -/
def starLoop (step : Pos → List Pos) : Nat → Pos → List Pos
  | 0, s => [s]
  | n + 1, s =>
    (step s).flatMap (fun s' ↦ if s'.rest.length < s.rest.length then starLoop step n s' else [])
      ++ [s]

/-- The ways `r` can match at a position, in the order in which they are tried. -/
def run : Regex → Pos → List Pos
  | eps, s => [s]
  | cls p, s =>
    match s.rest with
    | c :: rest => if p c then [⟨s.before ++ [c], rest, s.groups⟩] else []
    | [] => []
  | seq r t, s => (run r s).flatMap (run t)
  | opt r, s => run r s ++ [s]
  | star r, s => starLoop (run r) s.rest.length s
  | group i r, s =>
    (run r s).map fun s' ↦ { s' with groups := (i, s'.before.drop s.before.length) :: s'.groups }
  | bol, s => if s.before = [] then [s] else []
  | eol, s => if s.rest = [] then [s] else []

/-- The groups of the first match of the whole text, if there is one. -/
def regexMatch (r : Regex) (text : List Char) : Option Groups :=
  ((r.run ⟨[], text, []⟩).find? fun s ↦ s.rest.isEmpty).map (·.groups)

/-- What a search finds. -/
structure Found where
  /-- The text before the match. -/
  before : List Char
  /-- The match. -/
  matched : List Char
  /-- The text after it. -/
  after : List Char

/-- The first match that starts in `t`, where `b` is what has been passed. -/
def searchFrom (r : Regex) (b : List Char) : List Char → Option Found
  | [] => (r.run ⟨b, [], []⟩).head?.map fun s ↦ ⟨b, s.before.drop b.length, s.rest⟩
  | c :: t =>
    match (r.run ⟨b, c :: t, []⟩).head? with
    | some s => some ⟨b, s.before.drop b.length, s.rest⟩
    | none => searchFrom r (b ++ [c]) t

/-- The first match of `r` in a text, from left to right. -/
def regexSearch (r : Regex) (text : List Char) : Option Found := searchFrom r [] text

/-! ## What an expression means -/

/-- A repetition of `R`, no turn of which is empty. -/
inductive Iterated (R : List Char → List Char → List Char → Groups → Prop) :
    List Char → List Char → List Char → Groups → Prop where
  | nil (b t : List Char) : Iterated R b [] t []
  | cons {b w w' t : List Char} {g g' : Groups} (h : R b w (w' ++ t) g) (hw : w ≠ [])
      (h' : Iterated R (b ++ w) w' t g') : Iterated R b (w ++ w') t (g' ++ g)

/-- Between `b` and `t`, `r` matches `w` and captures `g`. -/
def Matches : Regex → List Char → List Char → List Char → Groups → Prop
  | eps, _, w, _, g => w = [] ∧ g = []
  | cls p, _, w, _, g => ∃ c, p c = true ∧ w = [c] ∧ g = []
  | seq r s, b, w, t, g => ∃ w₁ w₂ g₁ g₂, w = w₁ ++ w₂ ∧ g = g₂ ++ g₁ ∧
      Matches r b w₁ (w₂ ++ t) g₁ ∧ Matches s (b ++ w₁) w₂ t g₂
  | opt r, b, w, t, g => Matches r b w t g ∨ w = [] ∧ g = []
  | star r, b, w, t, g => Iterated (Matches r) b w t g
  | group i r, b, w, t, g => ∃ g', Matches r b w t g' ∧ g = (i, w) :: g'
  | bol, b, w, _, g => b = [] ∧ w = [] ∧ g = []
  | eol, _, w, t, g => t = [] ∧ w = [] ∧ g = []

section Matches

variable {r s : Regex} {i : Nat} {p : Char → Bool} {b w t : List Char} {g : Groups}

theorem matches_cls : (cls p).Matches b w t g ↔ ∃ c, p c = true ∧ w = [c] ∧ g = [] := Iff.rfl

theorem matches_seq : (seq r s).Matches b w t g ↔ ∃ w₁ w₂ g₁ g₂, w = w₁ ++ w₂ ∧ g = g₂ ++ g₁ ∧
    r.Matches b w₁ (w₂ ++ t) g₁ ∧ s.Matches (b ++ w₁) w₂ t g₂ := Iff.rfl

theorem matches_opt : (opt r).Matches b w t g ↔ r.Matches b w t g ∨ w = [] ∧ g = [] := Iff.rfl

theorem matches_star : (star r).Matches b w t g ↔ Iterated r.Matches b w t g := Iff.rfl

theorem matches_group :
    (group i r).Matches b w t g ↔ ∃ g', r.Matches b w t g' ∧ g = (i, w) :: g' := Iff.rfl

theorem matches_bol : bol.Matches b w t g ↔ b = [] ∧ w = [] ∧ g = [] := Iff.rfl

theorem matches_eol : eol.Matches b w t g ↔ t = [] ∧ w = [] ∧ g = [] := Iff.rfl

end Matches

/-- From `s` to `s'` the text `w` was read and `g` was captured. -/
def Reads (s s' : Pos) (w : List Char) (g : Groups) : Prop :=
  s.rest = w ++ s'.rest ∧ s'.before = s.before ++ w ∧ s'.groups = g ++ s.groups

theorem Reads.refl (s : Pos) : Reads s s [] [] := ⟨rfl, (List.append_nil _).symm, rfl⟩

theorem reads_nil_iff {s s' : Pos} : Reads s s' [] [] ↔ s' = s := by
  constructor
  · rintro ⟨hrest, hbefore, hgroups⟩
    obtain ⟨b, t, g⟩ := s'
    simp only [List.nil_append, List.append_nil] at hrest hbefore hgroups
    rw [hbefore, hgroups, ← hrest]
  · rintro rfl
    exact Reads.refl s'

theorem Reads.trans {s s' s'' : Pos} {w w' : List Char} {g g' : Groups} (h : Reads s s' w g)
    (h' : Reads s' s'' w' g') : Reads s s'' (w ++ w') (g' ++ g) := by
  obtain ⟨h1, h2, h3⟩ := h
  obtain ⟨h1', h2', h3'⟩ := h'
  refine ⟨?_, ?_, ?_⟩
  · rw [h1, h1', List.append_assoc]
  · rw [h2', h2, List.append_assoc]
  · rw [h3', h3, List.append_assoc]

/-- Where a text `w ++ w'` can be read, there is a place between the two. -/
theorem Reads.split {s s'' : Pos} {w w' : List Char} {g g' : Groups}
    (h : Reads s s'' (w ++ w') (g' ++ g)) :
    Reads s ⟨s.before ++ w, w' ++ s''.rest, g ++ s.groups⟩ w g ∧
      Reads ⟨s.before ++ w, w' ++ s''.rest, g ++ s.groups⟩ s'' w' g' := by
  obtain ⟨h1, h2, h3⟩ := h
  refine ⟨⟨?_, rfl, rfl⟩, ⟨rfl, ?_, ?_⟩⟩
  · rw [h1, List.append_assoc]
  · rw [h2, List.append_assoc]
  · rw [h3, List.append_assoc]

/-- What a matcher of `R` finds. -/
def Finds (R : List Char → List Char → List Char → Groups → Prop) (step : Pos → List Pos) : Prop :=
  ∀ s s', s' ∈ step s ↔ ∃ w g, Reads s s' w g ∧ R s.before w s'.rest g

section Finds

variable {R R' : List Char → List Char → List Char → Groups → Prop} {step step' : Pos → List Pos}

/-- What matches the empty text, under a condition on the place. -/
theorem finds_empty {C : List Char → List Char → Prop} [∀ b t, Decidable (C b t)] :
    Finds (fun b w t g ↦ C b t ∧ w = [] ∧ g = [])
      fun s ↦ if C s.before s.rest then [s] else [] := by
  intro s s'
  beta_reduce
  constructor
  · intro h
    split_ifs at h with hC
    · rw [List.mem_singleton.mp h]
      exact ⟨[], [], Reads.refl s, hC, rfl, rfl⟩
    · exact absurd h List.not_mem_nil
  · rintro ⟨w, g, hreads, hC, rfl, rfl⟩
    rw [reads_nil_iff.mp hreads] at hC ⊢
    rw [if_pos hC]
    exact List.mem_singleton_self _

theorem finds_cls (p : Char → Bool) : Finds (cls p).Matches (cls p).run := by
  intro s s'
  rw [run]
  constructor
  · intro h
    split at h
    · rename_i c rest hrest
      split_ifs at h with hp
      · rw [List.mem_singleton.mp h]
        exact ⟨[c], [], ⟨hrest, rfl, rfl⟩, c, hp, rfl, rfl⟩
      · exact absurd h List.not_mem_nil
    · exact absurd h List.not_mem_nil
  · rintro ⟨w, g, ⟨hrest, hbefore, hgroups⟩, c, hp, rfl, rfl⟩
    obtain ⟨b, t, g⟩ := s'
    simp only [List.nil_append] at hrest hbefore hgroups
    rw [hrest, hbefore, hgroups]
    simp [hp]

theorem finds_seq (h : Finds R step) (h' : Finds R' step') :
    Finds (fun b w t g ↦ ∃ w₁ w₂ g₁ g₂, w = w₁ ++ w₂ ∧ g = g₂ ++ g₁ ∧
      R b w₁ (w₂ ++ t) g₁ ∧ R' (b ++ w₁) w₂ t g₂) fun s ↦ (step s).flatMap step' := by
  intro s s'
  rw [List.mem_flatMap]
  constructor
  · rintro ⟨s₁, hs₁, hs'⟩
    obtain ⟨w, g, hreads, hR⟩ := (h s s₁).mp hs₁
    obtain ⟨w', g', hreads', hR'⟩ := (h' s₁ s').mp hs'
    rw [hreads'.1] at hR
    rw [hreads.2.1] at hR'
    exact ⟨w ++ w', g' ++ g, hreads.trans hreads', w, w', g, g', rfl, rfl, hR, hR'⟩
  · rintro ⟨w, g, hreads, w₁, w₂, g₁, g₂, rfl, rfl, hR, hR'⟩
    obtain ⟨hfirst, hsecond⟩ := hreads.split
    exact ⟨_, (h s _).mpr ⟨w₁, g₁, hfirst, hR⟩, (h' _ s').mpr ⟨w₂, g₂, hsecond, hR'⟩⟩

theorem finds_opt (h : Finds R step) :
    Finds (fun b w t g ↦ R b w t g ∨ w = [] ∧ g = []) fun s ↦ step s ++ [s] := by
  intro s s'
  rw [List.mem_append, List.mem_singleton, h s s']
  constructor
  · rintro (⟨w, g, hreads, hR⟩ | rfl)
    · exact ⟨w, g, hreads, Or.inl hR⟩
    · exact ⟨[], [], Reads.refl s', Or.inr ⟨rfl, rfl⟩⟩
  · rintro ⟨w, g, hreads, hR | ⟨rfl, rfl⟩⟩
    · exact Or.inl ⟨w, g, hreads, hR⟩
    · exact Or.inr (reads_nil_iff.mp hreads)

theorem finds_starLoop (h : Finds R step) (n : Nat) {s : Pos} (hn : s.rest.length ≤ n) (s' : Pos) :
    s' ∈ starLoop step n s ↔ ∃ w g, Reads s s' w g ∧ Iterated R s.before w s'.rest g := by
  induction n generalizing s with
  | zero =>
    have hrest : s.rest = [] := List.length_eq_zero_iff.mp (Nat.le_zero.mp hn)
    rw [starLoop, List.mem_singleton]
    constructor
    · rintro rfl
      exact ⟨[], [], Reads.refl s', .nil _ _⟩
    · rintro ⟨w, g, hreads, hiter⟩
      have hw : w = [] := (List.append_eq_nil_iff.mp (hrest ▸ hreads.1).symm).1
      cases hiter with
      | nil => exact reads_nil_iff.mp hreads
      | cons _ hne _ => exact absurd (List.append_eq_nil_iff.mp hw).1 hne
  | succ n ih =>
    rw [starLoop, List.mem_append, List.mem_flatMap, List.mem_singleton]
    constructor
    · rintro (⟨s₁, hs₁, hs'⟩ | rfl)
      · split_ifs at hs' with hlt
        · obtain ⟨w, g, hreads, hR⟩ := (h s s₁).mp hs₁
          obtain ⟨w', g', hreads', hiter⟩ := (ih (by omega)).mp hs'
          have hw : w ≠ [] := by
            rintro rfl
            rw [hreads.1] at hlt
            simp at hlt
          rw [hreads'.1] at hR
          rw [hreads.2.1] at hiter
          exact ⟨w ++ w', g' ++ g, hreads.trans hreads', .cons hR hw hiter⟩
        · exact absurd hs' List.not_mem_nil
      · exact ⟨[], [], Reads.refl s', .nil _ _⟩
    · rintro ⟨w, g, hreads, hiter⟩
      cases hiter with
      | nil => exact Or.inr (reads_nil_iff.mp hreads)
      | @cons _ w w' _ g g' hR hw hiter =>
        obtain ⟨hfirst, hothers⟩ := hreads.split
        have hlt : (w' ++ s'.rest).length < s.rest.length := by
          have hpos : 0 < w.length := List.length_pos_iff.mpr hw
          have hlen : s.rest.length = w.length + (w' ++ s'.rest).length := by
            rw [hfirst.1, List.length_append]
          omega
        refine Or.inl ⟨_, (h s _).mpr ⟨w, g, hfirst, hR⟩, ?_⟩
        rw [if_pos hlt]
        have hle : (w' ++ s'.rest).length ≤ n := by omega
        exact (ih hle).mpr ⟨w', g', hothers, hiter⟩

theorem finds_group (h : Finds R step) (i : Nat) :
    Finds (fun b w t g ↦ ∃ g', R b w t g' ∧ g = (i, w) :: g') fun s ↦ (step s).map fun s' ↦
      { s' with groups := (i, s'.before.drop s.before.length) :: s'.groups } := by
  intro s s'
  rw [List.mem_map]
  constructor
  · rintro ⟨s₁, hs₁, rfl⟩
    obtain ⟨w, g, ⟨hrest, hbefore, hgroups⟩, hR⟩ := (h s s₁).mp hs₁
    refine ⟨w, (i, w) :: g, ⟨hrest, hbefore, ?_⟩, g, hR, rfl⟩
    rw [hbefore, hgroups, List.drop_left]
    rfl
  · rintro ⟨w, g, ⟨hrest, hbefore, hgroups⟩, g', hR, rfl⟩
    refine ⟨⟨s'.before, s'.rest, g' ++ s.groups⟩,
      (h s _).mpr ⟨w, g', ⟨hrest, hbefore, rfl⟩, hR⟩, ?_⟩
    obtain ⟨b, t, g⟩ := s'
    simp only at hbefore hgroups
    rw [hbefore, hgroups, List.drop_left]
    rfl

end Finds

/-- **The matcher finds what the expression means**, and nothing else. -/
theorem mem_run (r : Regex) : Finds r.Matches r.run := by
  induction r with
  | eps =>
    intro s s'
    have hiff := finds_empty (C := fun _ _ ↦ True) s s'
    simpa only [true_and, if_true, run, Matches] using hiff
  | cls p => exact finds_cls p
  | seq r t ihr iht => exact finds_seq ihr iht
  | opt r ih => exact finds_opt ih
  | star r ih => exact fun s s' ↦ finds_starLoop ih s.rest.length (Nat.le_refl _) s'
  | group i r ih => exact finds_group ih i
  | bol => exact finds_empty (C := fun b _ ↦ b = [])
  | eol => exact finds_empty (C := fun _ t ↦ t = [])

/-! ## Matching a whole text -/

/-- What is captured is captured by a match of the whole text. -/
theorem matches_of_regexMatch {r : Regex} {text : List Char} {g : Groups}
    (h : r.regexMatch text = some g) : r.Matches [] text [] g := by
  rw [regexMatch, Option.map_eq_some_iff] at h
  obtain ⟨s, hs, rfl⟩ := h
  have hrest : s.rest = [] := by simpa using List.find?_some hs
  obtain ⟨w, g, ⟨htext, -, hgroups⟩, hR⟩ := (mem_run r _ _).mp (List.mem_of_find?_eq_some hs)
  simp only [hrest, List.append_nil] at htext hgroups hR
  rw [hgroups, htext]
  exact hR

theorem regexMatch_eq_none_iff {r : Regex} {text : List Char} :
    r.regexMatch text = none ↔ ∀ g, ¬ r.Matches [] text [] g := by
  constructor
  · intro h g hg
    rw [regexMatch, Option.map_eq_none_iff, List.find?_eq_none] at h
    have hfound : (⟨text, [], g⟩ : Pos) ∈ r.run ⟨[], text, []⟩ :=
      (mem_run r _ _).mpr ⟨text, g, ⟨(List.append_nil _).symm, rfl, (List.append_nil _).symm⟩, hg⟩
    exact h _ hfound rfl
  · intro h
    by_contra hne
    obtain ⟨g, hg⟩ := Option.ne_none_iff_exists'.mp hne
    exact h g (matches_of_regexMatch hg)

theorem regexMatch_isSome_iff {r : Regex} {text : List Char} :
    (r.regexMatch text).isSome = true ↔ ∃ g, r.Matches [] text [] g := by
  rw [← Option.ne_none_iff_isSome, Ne, regexMatch_eq_none_iff, not_forall_not]

/-! ## Searching -/

section Search

variable {r : Regex} {b t text : List Char} {f : Found}

/-- The first way to match at a place is a match. -/
theorem matches_of_head {s : Pos} (h : (r.run ⟨b, t, []⟩).head? = some s) :
    t = s.before.drop b.length ++ s.rest ∧ ∃ g, r.Matches b (s.before.drop b.length) s.rest g := by
  obtain ⟨w, g, ⟨hrest, hbefore, -⟩, hR⟩ := (mem_run r _ _).mp (List.mem_of_mem_head? h)
  rw [hbefore, List.drop_left]
  exact ⟨hrest, g, hR⟩

theorem head_ne_none {w t : List Char} {g : Groups} (h : r.Matches b w t g) :
    (r.run ⟨b, w ++ t, []⟩).head? ≠ none := by
  have hfound : (⟨b ++ w, t, g⟩ : Pos) ∈ r.run ⟨b, w ++ t, []⟩ :=
    (mem_run r _ _).mpr ⟨w, g, ⟨rfl, rfl, (List.append_nil g).symm⟩, h⟩
  rw [Ne, List.head?_eq_none_iff]
  exact List.ne_nil_of_mem hfound

theorem searchFrom_eq_some (h : r.searchFrom b t = some f) :
    ∃ x, f.before = b ++ x ∧ t = x ++ (f.matched ++ f.after) ∧
      (∃ g, r.Matches f.before f.matched f.after g) ∧
      ∀ y w u g, t = y ++ (w ++ u) → r.Matches (b ++ y) w u g → x.length ≤ y.length := by
  induction t generalizing b with
  | nil =>
    rw [searchFrom, Option.map_eq_some_iff] at h
    obtain ⟨s, hs, rfl⟩ := h
    obtain ⟨ht, hR⟩ := matches_of_head hs
    exact ⟨[], (List.append_nil b).symm, ht, hR, fun _ _ _ _ _ _ ↦ Nat.zero_le _⟩
  | cons c t ih =>
    rw [searchFrom] at h
    split at h
    · rename_i s hs
      rw [← Option.some.inj h]
      obtain ⟨ht, hR⟩ := matches_of_head hs
      exact ⟨[], (List.append_nil b).symm, ht, hR, fun _ _ _ _ _ _ ↦ Nat.zero_le _⟩
    · rename_i hnone
      obtain ⟨x, hbefore, ht, hR, hfirst⟩ := ih h
      refine ⟨c :: x, by rw [hbefore, List.append_assoc]; rfl, by rw [ht]; rfl, hR, ?_⟩
      intro y w u g hy hm
      rcases List.cons_eq_append_iff.mp hy with ⟨rfl, hwu⟩ | ⟨y', rfl, ht'⟩
      · rw [List.append_nil] at hm
        rw [← hwu] at hnone
        exact absurd hnone (head_ne_none hm)
      · refine Nat.succ_le_succ (hfirst y' w u g ht' ?_)
        rwa [List.append_assoc]

theorem searchFrom_eq_none (h : r.searchFrom b t = none) {y w u : List Char} {g : Groups}
    (ht : t = y ++ (w ++ u)) : ¬ r.Matches (b ++ y) w u g := by
  intro hm
  induction t generalizing b y with
  | nil =>
    obtain ⟨rfl, hwu⟩ := List.append_eq_nil_iff.mp ht.symm
    rw [searchFrom, Option.map_eq_none_iff, ← hwu] at h
    rw [List.append_nil] at hm
    exact head_ne_none hm h
  | cons c t ih =>
    rw [searchFrom] at h
    split at h
    · simp at h
    · rename_i hnone
      rcases List.cons_eq_append_iff.mp ht with ⟨rfl, hwu⟩ | ⟨y', rfl, ht'⟩
      · rw [List.append_nil] at hm
        rw [← hwu] at hnone
        exact head_ne_none hm hnone
      · exact ih h ht' (by rwa [List.append_assoc])

/-- **What a search finds is a match, and none starts before it.** -/
theorem regexSearch_eq_some (h : r.regexSearch text = some f) :
    text = f.before ++ (f.matched ++ f.after) ∧ (∃ g, r.Matches f.before f.matched f.after g) ∧
      ∀ b w t g, text = b ++ (w ++ t) → r.Matches b w t g → f.before.length ≤ b.length := by
  obtain ⟨x, hbefore, ht, hR, hfirst⟩ := searchFrom_eq_some h
  rw [List.nil_append] at hbefore
  rw [← hbefore] at ht hfirst
  exact ⟨ht, hR, hfirst⟩

/-- **A search that finds nothing passes no match.** -/
theorem regexSearch_eq_none (h : r.regexSearch text = none) {b w t : List Char} {g : Groups}
    (htext : text = b ++ (w ++ t)) : ¬ r.Matches b w t g :=
  searchFrom_eq_none h htext

end Search

/-! ## Words -/

/-- A non-empty text of characters of a class. -/
def Word (p : Char → Bool) (w : List Char) : Prop := w ≠ [] ∧ ∀ c ∈ w, p c = true

instance (p : Char → Bool) (w : List Char) : Decidable (Word p w) :=
  decidable_of_iff (w.isEmpty = false ∧ w.all p = true) <| by
    rw [Word, List.isEmpty_eq_false_iff, List.all_eq_true]

/-- A word ends at the first character that is not in its alphabet. -/
theorem word_unique {p : Char → Bool} {w w' t t' : List Char} {c c' : Char}
    (hw : ∀ x ∈ w, p x = true) (hw' : ∀ x ∈ w', p x = true) (hc : p c = false) (hc' : p c' = false)
    (h : w ++ c :: t = w' ++ c' :: t') : w = w' ∧ c = c' ∧ t = t' := by
  have hword := congrArg (List.takeWhile p) h
  rw [List.takeWhile_append_of_pos hw, List.takeWhile_append_of_pos hw',
    List.takeWhile_cons_of_neg (by simp [hc]), List.takeWhile_cons_of_neg (by simp [hc']),
    List.append_nil, List.append_nil] at hword
  rw [hword] at h
  have htail := List.append_cancel_left h
  rw [List.cons.injEq] at htail
  exact ⟨hword, htail.1, htail.2⟩

/-- A word, an optional part after a mark, and a character that ends both. -/
theorem optional_unique {p q : Char → Bool} {w w' t t' : List Char} {o o' : Option (List Char)}
    {mark c : Char} (hw : Word p w) (hw' : Word p w') (ho : ∀ v ∈ o, Word q v)
    (ho' : ∀ v ∈ o', Word q v) (hmark : p mark = false) (hpc : p c = false) (hqc : q c = false)
    (hne : mark ≠ c)
    (h : w ++ (o.elim [] (mark :: ·) ++ ([c] ++ t))
      = w' ++ (o'.elim [] (mark :: ·) ++ ([c] ++ t'))) :
    w = w' ∧ o = o' ∧ t = t' := by
  rcases o with _ | v <;> rcases o' with _ | v'
  · obtain ⟨h1, -, h2⟩ := word_unique hw.2 hw'.2 hpc hpc h
    exact ⟨h1, rfl, h2⟩
  · obtain ⟨-, h1, -⟩ := word_unique hw.2 hw'.2 hpc hmark h
    exact absurd h1.symm hne
  · obtain ⟨-, h1, -⟩ := word_unique hw.2 hw'.2 hmark hpc h
    exact absurd h1 hne
  · obtain ⟨h1, -, h2⟩ := word_unique hw.2 hw'.2 hmark hmark h
    obtain ⟨h3, -, h4⟩ := word_unique (ho v rfl).2 (ho' v' rfl).2 hqc hqc h2
    exact ⟨h1, by rw [h3], h4⟩

/-! ## The meaning of the abbreviations -/

section Abbreviations

variable {i : Nat} {p : Char → Bool} {l b w t : List Char} {g : Groups}

theorem matches_lit : (lit l).Matches b w t g ↔ w = l ∧ g = [] := by
  induction l generalizing b w g with
  | nil => exact Iff.rfl
  | cons c l ih =>
    rw [lit, matches_seq]
    constructor
    · rintro ⟨w₁, w₂, g₁, g₂, rfl, rfl, hc, hl⟩
      obtain ⟨c', hc', rfl, rfl⟩ := matches_cls.mp hc
      obtain ⟨rfl, rfl⟩ := ih.mp hl
      rw [beq_iff_eq] at hc'
      exact ⟨by rw [hc']; rfl, rfl⟩
    · rintro ⟨rfl, rfl⟩
      exact ⟨[c], l, [], [], rfl, rfl, matches_cls.mpr ⟨c, by simp, rfl, rfl⟩, ih.mpr ⟨rfl, rfl⟩⟩

theorem matches_star_cls :
    (star (cls p)).Matches b w t g ↔ (∀ c ∈ w, p c = true) ∧ g = [] := by
  rw [matches_star]
  constructor
  · intro h
    induction h with
    | nil => exact ⟨by simp, rfl⟩
    | cons h _ _ ih =>
      obtain ⟨c, hc, rfl, rfl⟩ := matches_cls.mp h
      obtain ⟨hw, rfl⟩ := ih
      exact ⟨by simpa using ⟨hc, hw⟩, rfl⟩
  · rintro ⟨hw, rfl⟩
    induction w generalizing b with
    | nil => exact .nil _ _
    | cons c w ih =>
      have hc : (cls p).Matches b [c] (w ++ t) [] :=
        matches_cls.mpr ⟨c, hw c List.mem_cons_self, rfl, rfl⟩
      exact .cons hc (by simp) (ih fun d hd ↦ hw d (List.mem_cons_of_mem _ hd))

theorem matches_many : (many p).Matches b w t g ↔ Word p w ∧ g = [] := by
  rw [many, matches_seq]
  constructor
  · rintro ⟨w₁, w₂, g₁, g₂, rfl, rfl, hc, hstar⟩
    obtain ⟨c, hp, rfl, rfl⟩ := matches_cls.mp hc
    obtain ⟨hw, rfl⟩ := matches_star_cls.mp hstar
    exact ⟨⟨by simp, by simpa using ⟨hp, hw⟩⟩, rfl⟩
  · rintro ⟨⟨hne, hw⟩, rfl⟩
    obtain ⟨c, w, rfl⟩ := List.exists_cons_of_ne_nil hne
    exact ⟨[c], w, [], [], rfl, rfl,
      matches_cls.mpr ⟨c, hw c List.mem_cons_self, rfl, rfl⟩,
      matches_star_cls.mpr ⟨fun d hd ↦ hw d (List.mem_cons_of_mem _ hd), rfl⟩⟩

theorem matches_times_cls {n : Nat} :
    (times (cls p) n).Matches b w t g ↔ w.length = n ∧ (∀ c ∈ w, p c = true) ∧ g = [] := by
  induction n generalizing b w g with
  | zero =>
    rw [times, List.length_eq_zero_iff]
    exact ⟨fun ⟨hw, hg⟩ ↦ ⟨hw, by simp [hw], hg⟩, fun ⟨hw, _, hg⟩ ↦ ⟨hw, hg⟩⟩
  | succ n ih =>
    rw [times, matches_seq]
    constructor
    · rintro ⟨w₁, w₂, g₁, g₂, rfl, rfl, hc, hrest⟩
      obtain ⟨c, hp, rfl, rfl⟩ := matches_cls.mp hc
      obtain ⟨hlen, hw, rfl⟩ := ih.mp hrest
      exact ⟨by simp [hlen], by simpa using ⟨hp, hw⟩, rfl⟩
    · rintro ⟨hlen, hw, rfl⟩
      obtain ⟨c, w, rfl⟩ := List.exists_cons_of_length_eq_add_one hlen
      rw [List.forall_mem_cons] at hw
      exact ⟨[c], w, [], [], rfl, rfl, matches_cls.mpr ⟨c, hw.1, rfl, rfl⟩,
        ih.mpr ⟨Nat.succ.inj hlen, hw.2, rfl⟩⟩

theorem matches_atMost_cls {n : Nat} :
    (atMost (cls p) n).Matches b w t g ↔ w.length ≤ n ∧ (∀ c ∈ w, p c = true) ∧ g = [] := by
  induction n generalizing b w g with
  | zero =>
    rw [atMost, Nat.le_zero, List.length_eq_zero_iff]
    exact ⟨fun ⟨hw, hg⟩ ↦ ⟨hw, by simp [hw], hg⟩, fun ⟨hw, _, hg⟩ ↦ ⟨hw, hg⟩⟩
  | succ n ih =>
    rw [atMost, matches_opt, matches_seq]
    constructor
    · rintro (⟨w₁, w₂, g₁, g₂, rfl, rfl, hc, hrest⟩ | ⟨rfl, rfl⟩)
      · obtain ⟨c, hp, rfl, rfl⟩ := matches_cls.mp hc
        obtain ⟨hlen, hw, rfl⟩ := ih.mp hrest
        exact ⟨by simpa [Nat.add_comm] using hlen, by simpa using ⟨hp, hw⟩, rfl⟩
      · exact ⟨Nat.zero_le _, by simp, rfl⟩
    · rintro ⟨hlen, hw, rfl⟩
      rcases w with _ | ⟨c, w⟩
      · exact Or.inr ⟨rfl, rfl⟩
      · rw [List.forall_mem_cons] at hw
        exact Or.inl ⟨[c], w, [], [], rfl, rfl, matches_cls.mpr ⟨c, hw.1, rfl, rfl⟩,
          ih.mpr ⟨Nat.le_of_succ_le_succ hlen, hw.2, rfl⟩⟩

theorem matches_between_cls {m n : Nat} (h : m ≤ n) :
    (between (cls p) m n).Matches b w t g ↔
      (m ≤ w.length ∧ w.length ≤ n) ∧ (∀ c ∈ w, p c = true) ∧ g = [] := by
  rw [between, matches_seq]
  constructor
  · rintro ⟨w₁, w₂, g₁, g₂, rfl, rfl, hmust, hmay⟩
    obtain ⟨hlen₁, hw₁, rfl⟩ := matches_times_cls.mp hmust
    obtain ⟨hlen₂, hw₂, rfl⟩ := matches_atMost_cls.mp hmay
    rw [List.length_append]
    exact ⟨by omega, fun c hc ↦ (List.mem_append.mp hc).elim (hw₁ c) (hw₂ c), rfl⟩
  · rintro ⟨⟨hm, hn⟩, hw, rfl⟩
    exact ⟨w.take m, w.drop m, [], [], (List.take_append_drop m w).symm, rfl,
      matches_times_cls.mpr ⟨List.length_take_of_le hm,
        fun c hc ↦ hw c (List.mem_of_mem_take hc), rfl⟩,
      matches_atMost_cls.mpr ⟨by rw [List.length_drop]; omega,
        fun c hc ↦ hw c (List.mem_of_mem_drop hc), rfl⟩⟩

theorem matches_group_many :
    (group i (many p)).Matches b w t g ↔ Word p w ∧ g = [(i, w)] := by
  rw [matches_group]
  constructor
  · rintro ⟨g', h, rfl⟩
    obtain ⟨hw, rfl⟩ := matches_many.mp h
    exact ⟨hw, rfl⟩
  · rintro ⟨hw, rfl⟩
    exact ⟨[], matches_many.mpr ⟨hw, rfl⟩, rfl⟩

theorem matches_cat_nil : (cat []).Matches b w t g ↔ w = [] ∧ g = [] := Iff.rfl

theorem matches_cat_cons {r : Regex} {rs : List Regex} :
    (cat (r :: rs)).Matches b w t g ↔ ∃ w₁ w₂ g₁ g₂, w = w₁ ++ w₂ ∧ g = g₂ ++ g₁ ∧
      r.Matches b w₁ (w₂ ++ t) g₁ ∧ (cat rs).Matches (b ++ w₁) w₂ t g₂ := Iff.rfl

theorem Matches.cons {r : Regex} {rs : List Regex} {w' : List Char} {g' : Groups}
    (h : r.Matches b w (w' ++ t) g) (h' : (cat rs).Matches (b ++ w) w' t g') :
    (cat (r :: rs)).Matches b (w ++ w') t (g' ++ g) :=
  matches_cat_cons.mpr ⟨w, w', g, g', rfl, rfl, h, h'⟩

/-- An optional part that starts with a mark: the mark and a word, or nothing. -/
theorem matches_opt_mark {mark : Char} :
    (opt (cat [lit [mark], group i (many p)])).Matches b w t g ↔
      ∃ o : Option (List Char), (∀ v ∈ o, Word p v) ∧ w = o.elim [] (mark :: ·) ∧
        g = o.elim [] fun v ↦ [(i, v)] := by
  rw [matches_opt]
  constructor
  · rintro (h | ⟨rfl, rfl⟩)
    · obtain ⟨w₁, w₂, g₁, g₂, rfl, rfl, hmark, h⟩ := matches_cat_cons.mp h
      obtain ⟨w₃, w₄, g₃, g₄, rfl, rfl, hgroup, hnil⟩ := matches_cat_cons.mp h
      obtain ⟨rfl, rfl⟩ := matches_lit.mp hmark
      obtain ⟨hw, rfl⟩ := matches_group_many.mp hgroup
      obtain ⟨rfl, rfl⟩ := matches_cat_nil.mp hnil
      exact ⟨some w₃, by simpa using hw, by simp, rfl⟩
    · exact ⟨none, by simp, rfl, rfl⟩
  · rintro ⟨_ | v, hv, rfl, rfl⟩
    · exact Or.inr ⟨rfl, rfl⟩
    · have hword : Word p v := hv v rfl
      refine Or.inl (matches_cat_cons.mpr ⟨[mark], v, [], [(i, v)], rfl, rfl,
        matches_lit.mpr ⟨rfl, rfl⟩, matches_cat_cons.mpr ⟨v, [], [(i, v)], [], ?_, rfl,
        matches_group_many.mpr ⟨hword, rfl⟩, matches_cat_nil.mpr ⟨rfl, rfl⟩⟩⟩)
      exact (List.append_nil v).symm

end Abbreviations

end Regex
