import Mathlib.Data.List.Nodup
import Mathlib.Data.List.TakeWhile

/-!
# `getopt_long`

The options on a command line, in the GNU syntax: short options are letters, which may be put
together in one word, long options may be abbreviated, the argument of an option is the rest of its
word or the next word, and the operands may stand between the options.  An option requires an
argument or has none; what `getopt_long` does with optional arguments, and with a description that
starts with `+`, `-` or `:`, is not here.

## What is here

* `getoptLong` — what the calls return one after the other, with `optarg`, for the words of a
  command line.
* `Line` — the grammar of command lines, with the options that are written in one, and `Group`: one
  word with options, and the word after it if it is an argument.
* `getoptLong_of_line` — the options that are written are returned.
* `line_getoptLong` — unless `?` is returned, the options that are returned are written.
-/

set_option autoImplicit false

namespace Getopt

/-- A long option, and what is returned for it. -/
structure LongOption where
  name : List Char
  requiresArgument : Bool
  val : Char
  deriving DecidableEq

/-- What a call returns, with `optarg`. -/
structure Found where
  val : Char
  optarg : Option (List Char)
  deriving DecidableEq

/-- An option without an argument. -/
def flag (c : Char) : Found := ⟨c, none⟩

/-- What is returned for an option that is not one, or not with this argument. -/
def unread : Found := flag '?'

/-- What a word is. -/
inductive Word where
  | operand
  /-- `--` -/
  | terminator
  /-- It has options, and the last of them may be one that takes the next word as its argument. -/
  | options (found : List Found) (next : Option Char)

/-! ## The function -/

section Functions

variable (optstring : List Char) (longopts : List LongOption)

/-- Is `c` a short option, and does it require an argument? -/
def shortOption (c : Char) : Option Bool :=
  if c = ':' ∨ c = ';' then
    none
  else
    match optstring.dropWhile (· ≠ c) with
    | [] => none
    | _ :: rest => some (rest.head? = some ':')

/-- The long option with this name, or else the only one whose name starts with it. -/
def longOption (name : List Char) : Option LongOption :=
  (longopts.find? (·.name = name)).or <|
    match longopts.filter (name.isPrefixOf ·.name) with
    | [o] => some o
    | _ => none

/-- A word after its `-`. -/
def readShort : List Char → List Found × Option Char
  | [] => ([], none)
  | c :: cs =>
    match shortOption optstring c with
    | none => (unread :: (readShort cs).1, (readShort cs).2)
    | some false => (flag c :: (readShort cs).1, (readShort cs).2)
    | some true => if cs = [] then ([], some c) else ([⟨c, some cs⟩], none)

/-- A word after its `--`. -/
def readLong (word : List Char) : List Found × Option Char :=
  match longOption longopts (word.takeWhile (· ≠ '=')) with
  | none => ([unread], none)
  | some o =>
    match o.requiresArgument, word.dropWhile (· ≠ '=') with
    | false, [] => ([flag o.val], none)
    | false, _ :: _ => ([unread], none)
    | true, [] => ([], some o.val)
    | true, _ :: arg => ([⟨o.val, some arg⟩], none)

def readWord : List Char → Word
  | ['-', '-'] => .terminator
  | '-' :: '-' :: word => .options (readLong longopts word).1 (readLong longopts word).2
  | '-' :: c :: cs => .options (readShort optstring (c :: cs)).1 (readShort optstring (c :: cs)).2
  | _ => .operand

/-- What the calls of `getopt_long` return until it returns -1, for the words of a command line.  If
`POSIXLY_CORRECT` is set, the first operand ends the options. -/
def getoptLong (posixlyCorrect : Bool) : List (List Char) → List Found
  | [] => []
  | w :: ws =>
    match readWord optstring longopts w with
    | .operand => if posixlyCorrect then [] else getoptLong posixlyCorrect ws
    | .terminator => []
    | .options found none => found ++ getoptLong posixlyCorrect ws
    | .options found (some c) =>
      match ws with
      | [] => found ++ [unread]
      | arg :: ws => found ++ ⟨c, some arg⟩ :: getoptLong posixlyCorrect ws

end Functions

/-! ## The grammar -/

/-- A word that is no option. -/
def IsOperand (w : List Char) : Prop := w.head? ≠ some '-' ∨ w = ['-']

section Grammar

variable (optstring : List Char) (longopts : List LongOption)

/-- `name` is the name of `o`, or a beginning of it and of no other name. -/
def Names (name : List Char) (o : LongOption) : Prop :=
  o ∈ longopts ∧
    (o.name = name ∨ name <+: o.name ∧ ∀ p ∈ longopts, name <+: p.name → p = o)

/-- A short option without an argument. -/
def IsFlag (c : Char) : Prop := shortOption optstring c = some false

/-- **A word with options**, and the next word, if it is an argument. -/
inductive Group : List (List Char) → List Found → Prop where
  | short {cs : List Char} (hne : cs ≠ []) (hcs : ∀ c ∈ cs, IsFlag optstring c) :
    Group ['-' :: cs] (cs.map flag)
  | shortAttached {cs arg : List Char} {c : Char} (hcs : ∀ c ∈ cs, IsFlag optstring c)
    (hc : shortOption optstring c = some true) (harg : arg ≠ []) :
    Group ['-' :: (cs ++ c :: arg)] (cs.map flag ++ [⟨c, some arg⟩])
  | shortSeparate {cs : List Char} {c : Char} (arg : List Char)
    (hcs : ∀ c ∈ cs, IsFlag optstring c) (hc : shortOption optstring c = some true) :
    Group ['-' :: (cs ++ [c]), arg] (cs.map flag ++ [⟨c, some arg⟩])
  | long {name : List Char} {o : LongOption} (hne : name ≠ []) (hname : '=' ∉ name)
    (ho : Names longopts name o) (hnone : o.requiresArgument = false) :
    Group ['-' :: '-' :: name] [flag o.val]
  | longAttached {name : List Char} {o : LongOption} (arg : List Char) (hname : '=' ∉ name)
    (ho : Names longopts name o) (harg : o.requiresArgument = true) :
    Group ['-' :: '-' :: (name ++ '=' :: arg)] [⟨o.val, some arg⟩]
  | longSeparate {name : List Char} {o : LongOption} (arg : List Char) (hne : name ≠ [])
    (hname : '=' ∉ name) (ho : Names longopts name o) (harg : o.requiresArgument = true) :
    Group ['-' :: '-' :: name, arg] [⟨o.val, some arg⟩]

/-- **The command lines**, with the options that are written in them. -/
inductive Line (posixlyCorrect : Bool) : List (List Char) → List Found → Prop where
  | nil : Line posixlyCorrect [] []
  | terminator (ws : List (List Char)) : Line posixlyCorrect (['-', '-'] :: ws) []
  | operand {w : List Char} {ws : List (List Char)} {found : List Found} (hw : IsOperand w)
    (hp : posixlyCorrect = false) (h : Line posixlyCorrect ws found) :
    Line posixlyCorrect (w :: ws) found
  | firstOperand {w : List Char} (ws : List (List Char)) (hw : IsOperand w)
    (hp : posixlyCorrect = true) : Line posixlyCorrect (w :: ws) []
  | group {g ws : List (List Char)} {os found : List Found} (hg : Group optstring longopts g os)
    (h : Line posixlyCorrect ws found) : Line posixlyCorrect (g ++ ws) (os ++ found)

end Grammar

/-! ## Options -/

section Proofs

variable {optstring : List Char} {longopts : List LongOption}

theorem mem_of_shortOption {c : Char} {b : Bool} (h : shortOption optstring c = some b) :
    c ∈ optstring := by
  by_contra hc
  have hnone : optstring.dropWhile (· ≠ c) = [] :=
    List.dropWhile_eq_nil_iff.mpr fun d hd ↦ decide_eq_true fun hdc ↦ hc (hdc ▸ hd)
  rw [shortOption, hnone] at h
  split_ifs at h

/-- The flags in a word, and what comes after them. -/
theorem readShort_flags {cs : List Char} (hcs : ∀ c ∈ cs, IsFlag optstring c) (rest : List Char) :
    readShort optstring (cs ++ rest)
      = (cs.map flag ++ (readShort optstring rest).1, (readShort optstring rest).2) := by
  induction cs with
  | nil => rfl
  | cons c cs ih =>
    obtain ⟨hc, hcs⟩ := List.forall_mem_cons.mp hcs
    rw [List.cons_append, readShort, hc, ih hcs, List.map_cons, List.cons_append]

theorem readShort_argument {c : Char} (hc : shortOption optstring c = some true)
    (arg : List Char) : readShort optstring (c :: arg)
      = if arg = [] then ([], some c) else ([⟨c, some arg⟩], none) := by
  rw [readShort, hc]

/-- A word in which all options are read is flags, and at most one option with an argument. -/
theorem readShort_read {cs : List Char} (h : ∀ r ∈ (readShort optstring cs).1, r.val ≠ '?') :
    (∀ c ∈ cs, IsFlag optstring c) ∨ ∃ ds c arg, cs = ds ++ c :: arg ∧
      (∀ d ∈ ds, IsFlag optstring d) ∧ shortOption optstring c = some true := by
  induction cs with
  | nil => exact Or.inl (by simp)
  | cons c cs ih =>
    cases hc : shortOption optstring c with
    | none =>
      rw [readShort, hc] at h
      exact absurd rfl (h unread List.mem_cons_self)
    | some b =>
      cases b with
      | true => exact Or.inr ⟨[], c, cs, rfl, by simp, hc⟩
      | false =>
        rw [readShort, hc] at h
        obtain hcs | ⟨ds, d, arg, rfl, hds, hd⟩ := ih fun r hr ↦ h r (List.mem_cons_of_mem _ hr)
        · exact Or.inl (List.forall_mem_cons.mpr ⟨hc, hcs⟩)
        · exact Or.inr ⟨c :: ds, d, arg, rfl, List.forall_mem_cons.mpr ⟨hc, hds⟩, hd⟩

/-- Names that begin with `name` are looked for in the same list as the name itself. -/
theorem mem_abbreviated {name : List Char} {o : LongOption} :
    o ∈ longopts.filter (name.isPrefixOf ·.name) ↔ o ∈ longopts ∧ name <+: o.name := by
  rw [List.mem_filter, List.isPrefixOf_iff_prefix]

theorem longOption_iff (hnodup : (longopts.map LongOption.name).Nodup) {name : List Char}
    {o : LongOption} : longOption longopts name = some o ↔ Names longopts name o := by
  cases hfind : longopts.find? (·.name = name) with
  | some o' =>
    have hname : o'.name = name := by simpa using List.find?_some hfind
    have hmem := List.mem_of_find?_eq_some hfind
    rw [longOption, hfind, Option.some_or, Option.some.injEq]
    refine ⟨?_, fun ⟨ho, h⟩ ↦ ?_⟩
    · rintro rfl
      exact ⟨hmem, Or.inl hname⟩
    · obtain heq | ⟨-, hall⟩ := h
      · exact List.inj_on_of_nodup_map hnodup hmem ho (hname.trans heq.symm)
      · exact hall o' hmem (hname ▸ List.prefix_rfl)
  | none =>
    have hno : ∀ p ∈ longopts, p.name ≠ name := by simpa using hfind
    rw [longOption, hfind, Option.none_or]
    have hiff : Names longopts name o ↔
        ∀ p, p ∈ longopts.filter (name.isPrefixOf ·.name) ↔ p = o := by
      refine ⟨fun ⟨ho, h⟩ p ↦ ?_, fun h ↦ ?_⟩
      · obtain ⟨hstart, hall⟩ := h.resolve_left (hno o ho)
        rw [mem_abbreviated]
        refine ⟨fun ⟨hp, hpre⟩ ↦ hall p hp hpre, ?_⟩
        rintro rfl
        exact ⟨ho, hstart⟩
      · obtain ⟨ho, hstart⟩ := mem_abbreviated.mp ((h o).mpr rfl)
        exact ⟨ho, Or.inr ⟨hstart, fun p hp hpre ↦ (h p).mp (mem_abbreviated.mpr ⟨hp, hpre⟩)⟩⟩
    rw [hiff]
    have hdistinct := (List.Nodup.of_map _ hnodup).filter (name.isPrefixOf ·.name)
    generalize longopts.filter (name.isPrefixOf ·.name) = abbreviated at hdistinct ⊢
    rcases abbreviated with _ | ⟨a, _ | ⟨b, l⟩⟩
    · exact ⟨by simp, fun h ↦ absurd ((h o).mpr rfl) List.not_mem_nil⟩
    · simp only [Option.some.injEq, List.mem_singleton]
      exact ⟨fun h p ↦ h ▸ Iff.rfl, fun h ↦ (h a).mp rfl⟩
    · refine ⟨by simp, fun h ↦ ?_⟩
      have hab : a = b := ((h a).mp (by simp)).trans ((h b).mp (by simp)).symm
      simp [hab] at hdistinct

theorem takeWhile_name {name : List Char} (hname : '=' ∉ name) :
    ∀ c ∈ name, decide (c ≠ '=') = true :=
  fun _ hc ↦ decide_eq_true fun heq ↦ hname (heq ▸ hc)

/-- A long word without a `=`. -/
theorem readLong_name {name : List Char} (hname : '=' ∉ name) {o : LongOption}
    (ho : longOption longopts name = some o) : readLong longopts name
      = if o.requiresArgument then ([], some o.val) else ([flag o.val], none) := by
  have htake : name.takeWhile (· ≠ '=') = name :=
    List.takeWhile_eq_self_iff.mpr (takeWhile_name hname)
  have hdrop : name.dropWhile (· ≠ '=') = [] :=
    List.dropWhile_eq_nil_iff.mpr (takeWhile_name hname)
  rw [readLong, htake, hdrop, ho]
  cases harg : o.requiresArgument <;> simp [harg]

theorem readLong_assign {name : List Char} (hname : '=' ∉ name) {o : LongOption}
    (ho : longOption longopts name = some o) (arg : List Char) :
    readLong longopts (name ++ '=' :: arg)
      = if o.requiresArgument then ([⟨o.val, some arg⟩], none) else ([unread], none) := by
  have htake : (name ++ '=' :: arg).takeWhile (· ≠ '=') = name := by
    rw [List.takeWhile_append_of_pos (takeWhile_name hname)]
    simp
  have hdrop : (name ++ '=' :: arg).dropWhile (· ≠ '=') = '=' :: arg := by
    rw [List.dropWhile_append_of_pos (takeWhile_name hname)]
    simp
  rw [readLong, htake, hdrop, ho]
  cases harg : o.requiresArgument <;> simp [harg]

/-- A long word that is read is a name, or a name with an argument. -/
theorem readLong_read {word : List Char} (h : ∀ r ∈ (readLong longopts word).1, r.val ≠ '?') :
    ∃ name o, '=' ∉ name ∧ longOption longopts name = some o ∧
      (word = name ∨ ∃ arg, word = name ++ '=' :: arg ∧ o.requiresArgument = true) := by
  have hname : '=' ∉ word.takeWhile (· ≠ '=') := fun hmem ↦ by
    simpa using List.mem_takeWhile_imp hmem
  have hsplit := (List.takeWhile_append_dropWhile (p := (· ≠ '=')) (l := word)).symm
  cases ho : longOption longopts (word.takeWhile (· ≠ '=')) with
  | none =>
    rw [readLong, ho] at h
    exact absurd rfl (h unread List.mem_cons_self)
  | some o =>
    refine ⟨_, o, hname, ho, ?_⟩
    cases hdrop : word.dropWhile (· ≠ '=') with
    | nil => exact Or.inl (by rwa [hdrop, List.append_nil] at hsplit)
    | cons d arg =>
      have hd : d = '=' := by
        have hhead := List.head?_dropWhile_not (· ≠ '=') word
        rw [hdrop] at hhead
        simpa using hhead
      subst hd
      rw [hdrop] at hsplit
      refine Or.inr ⟨arg, hsplit, ?_⟩
      cases harg : o.requiresArgument with
      | true => rfl
      | false =>
        rw [readLong, ho] at h
        simp only [harg, hdrop] at h
        exact absurd rfl (h unread List.mem_cons_self)

/-! ## Words -/

theorem readWord_operand {w : List Char} (hw : IsOperand w) :
    readWord optstring longopts w = .operand := by
  obtain hw | rfl := hw
  · cases w with
    | nil => rfl
    | cons c cs =>
      have hc : c ≠ '-' := fun hc ↦ hw (congrArg some hc)
      unfold readWord
      split <;> simp_all
  · rfl

theorem readWord_long {word : List Char} (hne : word ≠ []) :
    readWord optstring longopts ('-' :: '-' :: word)
      = .options (readLong longopts word).1 (readLong longopts word).2 := by
  cases word with
  | nil => exact absurd rfl hne
  | cons c cs => rfl

theorem readWord_short {cs : List Char} (hne : cs ≠ []) (hhead : cs.head? ≠ some '-') :
    readWord optstring longopts ('-' :: cs)
      = .options (readShort optstring cs).1 (readShort optstring cs).2 := by
  cases cs with
  | nil => exact absurd rfl hne
  | cons c cs =>
    have hc : c ≠ '-' := fun hc ↦ hhead (congrArg some hc)
    unfold readWord
    split <;> simp_all

/-- The four kinds of words. -/
theorem word_cases (w : List Char) : IsOperand w ∨ w = ['-', '-'] ∨
    (∃ word, word ≠ [] ∧ w = '-' :: '-' :: word) ∨
    ∃ cs : List Char, cs ≠ [] ∧ cs.head? ≠ some '-' ∧ w = '-' :: cs := by
  rcases w with _ | ⟨c, _ | ⟨d, cs⟩⟩
  · exact Or.inl (Or.inl (by simp))
  · by_cases hc : c = '-'
    · exact Or.inl (Or.inr (by rw [hc]))
    · exact Or.inl (Or.inl (by simpa using hc))
  · by_cases hc : c = '-'
    · subst hc
      by_cases hd : d = '-'
      · subst hd
        rcases cs with _ | ⟨e, cs⟩
        · exact Or.inr (Or.inl rfl)
        · exact Or.inr (Or.inr (Or.inl ⟨_, by simp, rfl⟩))
      · exact Or.inr (Or.inr (Or.inr ⟨_, by simp, by simpa using hd, rfl⟩))
    · exact Or.inl (Or.inl (by simpa using hc))

section Reading

variable {w : List Char} {found : List Found} {c : Char}

theorem isOperand_of_readWord (h : readWord optstring longopts w = .operand) : IsOperand w := by
  obtain hw | rfl | ⟨word, hne, rfl⟩ | ⟨cs, hne, hhead, rfl⟩ := word_cases w
  · exact hw
  · cases h
  · rw [readWord_long hne] at h
    cases h
  · rw [readWord_short hne hhead] at h
    cases h

theorem eq_of_readWord_terminator (h : readWord optstring longopts w = .terminator) :
    w = ['-', '-'] := by
  obtain hw | hw | ⟨word, hne, rfl⟩ | ⟨cs, hne, hhead, rfl⟩ := word_cases w
  · rw [readWord_operand hw] at h
    cases h
  · exact hw
  · rw [readWord_long hne] at h
    cases h
  · rw [readWord_short hne hhead] at h
    cases h

/-- A long option that is read is written as the grammar says, with the next word if the option
takes one. -/
theorem group_of_readLong (hnodup : (longopts.map LongOption.name).Nodup) {word : List Char}
    (hne : word ≠ []) {next : Option Char} (h : readLong longopts word = (found, next))
    (hread : ∀ r ∈ found, r.val ≠ '?') :
    (next = none → Group optstring longopts ['-' :: '-' :: word] found) ∧
      ∀ c, next = some c → ∀ arg,
        Group optstring longopts ['-' :: '-' :: word, arg] (found ++ [⟨c, some arg⟩]) := by
  obtain rfl : (readLong longopts word).1 = found := congrArg Prod.fst h
  obtain rfl : (readLong longopts word).2 = next := congrArg Prod.snd h
  obtain ⟨name, o, hname, ho, rfl | ⟨arg, rfl, harg⟩⟩ := readLong_read hread
  · have hnames := (longOption_iff hnodup).mp ho
    rw [readLong_name hname ho]
    cases harg : o.requiresArgument with
    | true =>
      refine ⟨by simp, fun c hc arg ↦ ?_⟩
      obtain rfl : o.val = c := Option.some.inj hc
      exact .longSeparate arg hne hname hnames harg
    | false => exact ⟨fun _ ↦ .long hne hname hnames harg, by simp⟩
  · rw [readLong_assign hname ho, harg]
    exact ⟨fun _ ↦ .longAttached arg hname ((longOption_iff hnodup).mp ho) harg, by simp⟩

/-- Short options that are read are written as the grammar says. -/
theorem group_of_readShort {cs : List Char} (hne : cs ≠ []) {next : Option Char}
    (h : readShort optstring cs = (found, next)) (hread : ∀ r ∈ found, r.val ≠ '?') :
    (next = none → Group optstring longopts ['-' :: cs] found) ∧
      ∀ c, next = some c → ∀ arg,
        Group optstring longopts ['-' :: cs, arg] (found ++ [⟨c, some arg⟩]) := by
  obtain rfl : (readShort optstring cs).1 = found := congrArg Prod.fst h
  obtain rfl : (readShort optstring cs).2 = next := congrArg Prod.snd h
  obtain hcs | ⟨ds, c, arg, rfl, hds, hc⟩ := readShort_read hread
  · have hflags := readShort_flags hcs []
    rw [List.append_nil] at hflags
    rw [hflags]
    refine ⟨fun _ ↦ ?_, by simp [readShort]⟩
    rw [readShort, List.append_nil]
    exact .short hne hcs
  · rw [readShort_flags hds, readShort_argument hc]
    by_cases harg : arg = []
    · subst harg
      rw [if_pos rfl]
      refine ⟨by simp, fun c' hc' arg ↦ ?_⟩
      obtain rfl : c = c' := Option.some.inj hc'
      rw [List.append_nil]
      exact .shortSeparate arg hds hc
    · rw [if_neg harg]
      exact ⟨fun _ ↦ .shortAttached hds hc harg, by simp⟩

/-- So is every word with options that are read. -/
theorem group_of_readWord (hnodup : (longopts.map LongOption.name).Nodup) {next : Option Char}
    (h : readWord optstring longopts w = .options found next) (hread : ∀ r ∈ found, r.val ≠ '?') :
    (next = none → Group optstring longopts [w] found) ∧
      ∀ c, next = some c → ∀ arg, Group optstring longopts [w, arg] (found ++ [⟨c, some arg⟩]) := by
  obtain hw | rfl | ⟨word, hne, rfl⟩ | ⟨cs, hne, hhead, rfl⟩ := word_cases w
  · rw [readWord_operand hw] at h
    cases h
  · cases h
  · rw [readWord_long hne] at h
    injection h with hfound hnext
    exact group_of_readLong hnodup hne (Prod.ext hfound hnext) hread
  · rw [readWord_short hne hhead] at h
    injection h with hfound hnext
    exact group_of_readShort hne (Prod.ext hfound hnext) hread

end Reading

/-- A word of short options does not begin with `--`. -/
theorem head_ne_dash (hdash : '-' ∉ optstring) (cs : List Char) {arg : List Char} {c : Char}
    {b : Bool} (hcs : ∀ d ∈ cs, IsFlag optstring d) (hc : shortOption optstring c = some b) :
    (cs ++ c :: arg).head? ≠ some '-' := by
  cases cs with
  | nil =>
    intro hhead
    obtain rfl : c = '-' := Option.some.inj hhead
    exact hdash (mem_of_shortOption hc)
  | cons d cs =>
    intro hhead
    obtain rfl : d = '-' := Option.some.inj hhead
    exact hdash (mem_of_shortOption (hcs _ List.mem_cons_self))

/-! ## Command lines -/

theorem getoptLong_group (hdash : '-' ∉ optstring)
    (hnodup : (longopts.map LongOption.name).Nodup) (posixlyCorrect : Bool)
    {g : List (List Char)} {os : List Found} (h : Group optstring longopts g os)
    (ws : List (List Char)) : getoptLong optstring longopts posixlyCorrect (g ++ ws)
      = os ++ getoptLong optstring longopts posixlyCorrect ws := by
  cases h with
  | @short cs hne hcs =>
    obtain ⟨c, cs, rfl⟩ := List.exists_cons_of_ne_nil hne
    have hhead : (c :: cs).head? ≠ some '-' :=
      head_ne_dash hdash [] (by simp) (hcs c List.mem_cons_self)
    have hread := readShort_flags hcs []
    rw [List.append_nil] at hread
    rw [List.singleton_append, getoptLong, readWord_short hne hhead, hread]
    simp [readShort]
  | @shortAttached cs arg c hcs hc harg =>
    rw [List.singleton_append, getoptLong, readWord_short (by simp) (head_ne_dash hdash cs hcs hc),
      readShort_flags hcs, readShort_argument hc, if_neg harg]
  | @shortSeparate cs c arg hcs hc =>
    rw [List.cons_append, List.singleton_append, getoptLong,
      readWord_short (by simp) (head_ne_dash hdash cs hcs hc), readShort_flags hcs,
      readShort_argument hc, if_pos rfl]
    simp
  | @long name o hne hname ho hnone =>
    rw [List.singleton_append, getoptLong, readWord_long hne,
      readLong_name hname ((longOption_iff hnodup).mpr ho), hnone]
    rfl
  | @longAttached name o arg hname ho harg =>
    rw [List.singleton_append, getoptLong, readWord_long (by simp),
      readLong_assign hname ((longOption_iff hnodup).mpr ho), harg]
    rfl
  | @longSeparate name o arg hne hname ho harg =>
    rw [List.cons_append, List.singleton_append, getoptLong, readWord_long hne,
      readLong_name hname ((longOption_iff hnodup).mpr ho), harg]
    rfl

/-- **The options that are written are returned.** -/
theorem getoptLong_of_line (hdash : '-' ∉ optstring)
    (hnodup : (longopts.map LongOption.name).Nodup) {posixlyCorrect : Bool}
    {ws : List (List Char)} {found : List Found}
    (h : Line optstring longopts posixlyCorrect ws found) :
    getoptLong optstring longopts posixlyCorrect ws = found := by
  induction h with
  | nil => rfl
  | terminator ws => rfl
  | operand hw hp _ ih => rw [getoptLong, readWord_operand hw, hp, ← ih, hp]; rfl
  | firstOperand ws hw hp => rw [getoptLong, readWord_operand hw, hp]; rfl
  | group hg _ ih => rw [getoptLong_group hdash hnodup posixlyCorrect hg, ih]

/-- **The options that are returned are written**, unless `?` is among them. -/
theorem line_getoptLong (hnodup : (longopts.map LongOption.name).Nodup) (posixlyCorrect : Bool)
    (ws : List (List Char))
    (h : ∀ r ∈ getoptLong optstring longopts posixlyCorrect ws, r.val ≠ '?') :
    Line optstring longopts posixlyCorrect ws
      (getoptLong optstring longopts posixlyCorrect ws) := by
  fun_induction getoptLong optstring longopts posixlyCorrect ws with
  | case1 => exact .nil
  | case2 w ws hw hp => exact .firstOperand ws (isOperand_of_readWord hw) hp
  | case3 w ws hw hp ih =>
    exact .operand (isOperand_of_readWord hw) (by simpa using hp) (ih h)
  | case4 w ws hw =>
    obtain rfl := eq_of_readWord_terminator hw
    exact .terminator ws
  | case5 w ws found hw ih =>
    obtain ⟨hfound, hrest⟩ := List.forall_mem_append.mp h
    exact .group ((group_of_readWord hnodup hw hfound).1 rfl) (ih hrest)
  | case6 w found c hw =>
    exact absurd rfl (h unread (List.mem_append_right _ List.mem_cons_self))
  | case7 w found c hw arg ws ih =>
    obtain ⟨hfound, hrest⟩ := List.forall_mem_append.mp h
    have hgroup := (group_of_readWord hnodup hw hfound).2 c rfl arg
    rw [List.append_cons found]
    exact .group hgroup (ih (List.forall_mem_cons.mp hrest).2)

end Proofs

end Getopt
