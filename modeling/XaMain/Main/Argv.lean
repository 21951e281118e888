import XaMain.Lib.Getopt
import XaMain.Main.Cmdline

/-!
# The words of the command line

`PARSER_BEGIN` calls `getopt_long` with the table that `ENUM_BEGIN` begins, so the options that
`makeCliParser` gets are read from the words of the command line.

* `CommandLine` — the command lines the program accepts, with the options that are written in them.
* `parseOptions_iff` — the loop over the options is left iff the words are such a command line, and
  then in the state its options lead to.
-/

set_option autoImplicit false

namespace XaMain
namespace Options

open Getopt

/-! ## The options of the program -/

/-- `long_options` -/
def longOptions : List LongOption :=
  [⟨"config".toList, true, 'c'⟩, ⟨"debug".toList, false, 'D'⟩, ⟨"help".toList, false, 'H'⟩]

/-- The short options.  `#t` is the text of an argument that is a string literal itself, so its
quotes are part of it. -/
def optstring : List Char := "\"c:D?H\"".toList

/-- The cases of the `switch`.  There is an argument whenever `c` is returned. -/
def toOpt : Found → Opt
  | ⟨'c', some optarg⟩ => .config (String.ofList optarg)
  | ⟨'D', _⟩ => .debug
  | ⟨'H', _⟩ => .help
  | _ => .other

/-- What the calls of `getopt_long` return, for the words after the name of the program. -/
def cmdlineOpts (posixlyCorrect : Bool) (args : List String) : List Opt :=
  (getoptLong optstring longOptions posixlyCorrect (args.map String.toList)).map toOpt

/-! ## The grammar -/

/-- `name` is a beginning of `full`, and not empty. -/
def Abbreviates (name full : List Char) : Prop := name ≠ [] ∧ name <+: full

/-- **The command lines that are accepted**: the options `-D` and `-c` in any of their spellings,
with operands between them. -/
inductive CommandLine (posixlyCorrect : Bool) : List (List Char) → List Opt → Prop where
  | nil : CommandLine posixlyCorrect [] []
  | terminator (ws : List (List Char)) : CommandLine posixlyCorrect (['-', '-'] :: ws) []
  | operand {w : List Char} {ws : List (List Char)} {opts : List Opt} (hw : IsOperand w)
    (hp : posixlyCorrect = false) (h : CommandLine posixlyCorrect ws opts) :
    CommandLine posixlyCorrect (w :: ws) opts
  | firstOperand {w : List Char} (ws : List (List Char)) (hw : IsOperand w)
    (hp : posixlyCorrect = true) : CommandLine posixlyCorrect (w :: ws) []
  /-- `-D`, `-DD` and so on -/
  | debug {n : Nat} {ws : List (List Char)} {opts : List Opt} (hn : n ≠ 0)
    (h : CommandLine posixlyCorrect ws opts) :
    CommandLine posixlyCorrect (('-' :: List.replicate n 'D') :: ws)
      (List.replicate n .debug ++ opts)
  /-- `-cFILE`, `-DcFILE` and so on -/
  | config (n : Nat) {file : List Char} {ws : List (List Char)} {opts : List Opt}
    (hfile : file ≠ []) (h : CommandLine posixlyCorrect ws opts) :
    CommandLine posixlyCorrect (('-' :: (List.replicate n 'D' ++ 'c' :: file)) :: ws)
      (List.replicate n .debug ++ .config (String.ofList file) :: opts)
  /-- `-c FILE`, `-Dc FILE` and so on -/
  | configWord (n : Nat) (file : List Char) {ws : List (List Char)} {opts : List Opt}
    (h : CommandLine posixlyCorrect ws opts) :
    CommandLine posixlyCorrect (('-' :: (List.replicate n 'D' ++ ['c'])) :: file :: ws)
      (List.replicate n .debug ++ .config (String.ofList file) :: opts)
  /-- `--debug` -/
  | longDebug {name : List Char} {ws : List (List Char)} {opts : List Opt}
    (hname : Abbreviates name "debug".toList) (h : CommandLine posixlyCorrect ws opts) :
    CommandLine posixlyCorrect (('-' :: '-' :: name) :: ws) (.debug :: opts)
  /-- `--config=FILE` -/
  | longConfig {name : List Char} (file : List Char) {ws : List (List Char)} {opts : List Opt}
    (hname : Abbreviates name "config".toList) (h : CommandLine posixlyCorrect ws opts) :
    CommandLine posixlyCorrect (('-' :: '-' :: (name ++ '=' :: file)) :: ws)
      (.config (String.ofList file) :: opts)
  /-- `--config FILE` -/
  | longConfigWord {name : List Char} (file : List Char) {ws : List (List Char)}
    {opts : List Opt} (hname : Abbreviates name "config".toList)
    (h : CommandLine posixlyCorrect ws opts) :
    CommandLine posixlyCorrect (('-' :: '-' :: name) :: file :: ws)
      (.config (String.ofList file) :: opts)

/-! ## The tables -/

theorem isFlag_debug : IsFlag optstring 'D' := by
  rw [IsFlag]
  decide

theorem shortOption_config {c : Char} : shortOption optstring c = some true ↔ c = 'c' := by
  refine ⟨fun h ↦ ?_, fun h ↦ h ▸ by decide⟩
  have hall : optstring.filter (shortOption optstring · = some true) = ['c'] := by decide
  have hc : c ∈ optstring.filter (shortOption optstring · = some true) :=
    List.mem_filter.mpr ⟨mem_of_shortOption h, by simpa using h⟩
  rw [hall] at hc
  exact List.mem_singleton.mp hc

theorem head?_of_abbreviates {name full : List Char} (h : Abbreviates name full) :
    full.head? = name.head? := by
  obtain ⟨hne, rest, rfl⟩ := h
  exact List.head?_append_of_ne_nil _ hne

/-- No two names begin with the same letter. -/
theorem names_iff {name : List Char} {o : LongOption} (ho : o ∈ longOptions) :
    Names longOptions name o ↔ Abbreviates name o.name := by
  refine ⟨fun ⟨_, h⟩ ↦ ?_, fun h ↦ ⟨ho, Or.inr ⟨h.2, fun p hp hpre ↦ ?_⟩⟩⟩
  · obtain rfl | ⟨hpre, hall⟩ := h
    · have hne : ∀ p ∈ longOptions, p.name ≠ [] := by decide
      exact ⟨hne o ho, List.prefix_rfl⟩
    · refine ⟨?_, hpre⟩
      rintro rfl
      have hconfig := hall ⟨"config".toList, true, 'c'⟩ (by decide) List.nil_prefix
      have hdebug := hall ⟨"debug".toList, false, 'D'⟩ (by decide) List.nil_prefix
      exact absurd (hconfig.trans hdebug.symm) (by decide)
  · have hletters : ∀ p ∈ longOptions, ∀ q ∈ longOptions, p.name.head? = q.name.head? → p = q := by
      decide
    exact hletters p hp o ho ((head?_of_abbreviates ⟨h.1, hpre⟩).trans
      (head?_of_abbreviates h).symm)

/-- The long options, by what is returned for them. -/
theorem config_of_requiresArgument {o : LongOption} (ho : o ∈ longOptions)
    (h : o.requiresArgument = true) : o = ⟨"config".toList, true, 'c'⟩ := by
  have hall : ∀ p ∈ longOptions, p.requiresArgument = true →
      p = ⟨"config".toList, true, 'c'⟩ := by decide
  exact hall o ho h

theorem debug_of_continues {o : LongOption} (ho : o ∈ longOptions)
    (h : (toOpt (flag o.val)).Continues) : o = ⟨"debug".toList, false, 'D'⟩ := by
  simp only [longOptions, List.mem_cons, List.not_mem_nil, or_false] at ho
  obtain rfl | rfl | rfl := ho
  · simp [toOpt, flag, Opt.Continues] at h
  · rfl
  · simp [toOpt, flag, Opt.Continues] at h

theorem eq_debug_of_continues {c : Char} (h : (toOpt (flag c)).Continues) : c = 'D' := by
  rw [flag, toOpt.eq_def] at h
  split at h
  case h_1 heq => cases heq
  case h_2 heq => exact (Found.mk.inj heq).1
  case h_3 => simp [Opt.Continues] at h
  case h_4 => simp [Opt.Continues] at h

theorem map_flag_debug (n : Nat) :
    ((List.replicate n 'D').map flag).map toOpt = List.replicate n .debug := by
  rw [List.map_replicate, List.map_replicate]
  rfl

/-! ## The loop over the options -/

/-- The options of an accepted command line do not end the program. -/
theorem CommandLine.continues {posixlyCorrect : Bool} {ws : List (List Char)} {opts : List Opt}
    (h : CommandLine posixlyCorrect ws opts) : ∀ o ∈ opts, o.Continues := by
  induction h with
  | nil | terminator _ | firstOperand _ _ _ => simp
  | operand _ _ _ ih => exact ih
  | debug _ _ ih =>
    refine List.forall_mem_append.mpr ⟨fun o ho ↦ ?_, ih⟩
    exact Or.inl (List.eq_of_mem_replicate ho)
  | config _ _ _ ih | configWord _ _ _ ih =>
    refine List.forall_mem_append.mpr ⟨fun o ho ↦ ?_, List.forall_mem_cons.mpr ⟨?_, ih⟩⟩
    · exact Or.inl (List.eq_of_mem_replicate ho)
    · exact Or.inr ⟨_, rfl⟩
  | longDebug _ _ ih => exact List.forall_mem_cons.mpr ⟨Or.inl rfl, ih⟩
  | longConfig _ _ _ ih | longConfigWord _ _ _ ih =>
    exact List.forall_mem_cons.mpr ⟨Or.inr ⟨_, rfl⟩, ih⟩

/-- An accepted command line is one for `getopt_long`. -/
theorem CommandLine.line {posixlyCorrect : Bool} {ws : List (List Char)} {opts : List Opt}
    (h : CommandLine posixlyCorrect ws opts) :
    ∃ found, Line optstring longOptions posixlyCorrect ws found ∧ found.map toOpt = opts := by
  have hflags (n : Nat) : ∀ c ∈ List.replicate n 'D', IsFlag optstring c :=
    fun c hc ↦ List.eq_of_mem_replicate hc ▸ isFlag_debug
  have hc := shortOption_config.mpr rfl
  have hconfig : (⟨"config".toList, true, 'c'⟩ : LongOption) ∈ longOptions := by decide
  have hdebug : (⟨"debug".toList, false, 'D'⟩ : LongOption) ∈ longOptions := by decide
  have hletters {name full : List Char} (hname : Abbreviates name full) (hfull : '=' ∉ full) :
      '=' ∉ name := fun hmem ↦ hfull (hname.2.subset hmem)
  induction h with
  | nil => exact ⟨[], .nil, rfl⟩
  | terminator ws => exact ⟨[], .terminator ws, rfl⟩
  | operand hw hp _ ih =>
    obtain ⟨found, hline, hmap⟩ := ih
    exact ⟨found, .operand hw hp hline, hmap⟩
  | firstOperand ws hw hp => exact ⟨[], .firstOperand ws hw hp, rfl⟩
  | @debug n _ _ hn _ ih =>
    obtain ⟨found, hline, rfl⟩ := ih
    have hgroup : Group optstring longOptions ['-' :: List.replicate n 'D'] _ :=
      .short (by simpa using hn) (hflags n)
    exact ⟨_, .group hgroup hline, by rw [List.map_append, map_flag_debug]⟩
  | @config n file _ _ hfile _ ih =>
    obtain ⟨found, hline, rfl⟩ := ih
    refine ⟨_, .group (.shortAttached (hflags n) hc hfile) hline, ?_⟩
    rw [List.map_append, List.map_append, map_flag_debug, List.append_assoc]
    rfl
  | @configWord n file _ _ _ ih =>
    obtain ⟨found, hline, rfl⟩ := ih
    refine ⟨_, .group (.shortSeparate file (hflags n) hc) hline, ?_⟩
    rw [List.map_append, List.map_append, map_flag_debug, List.append_assoc]
    rfl
  | longDebug hname _ ih =>
    obtain ⟨found, hline, rfl⟩ := ih
    exact ⟨_, .group (.long hname.1 (hletters hname (by decide)) ((names_iff hdebug).mpr hname) rfl)
      hline, rfl⟩
  | longConfig file hname _ ih =>
    obtain ⟨found, hline, rfl⟩ := ih
    exact ⟨_, .group (.longAttached file (hletters hname (by decide))
      ((names_iff hconfig).mpr hname) rfl) hline, rfl⟩
  | longConfigWord file hname _ ih =>
    obtain ⟨found, hline, rfl⟩ := ih
    exact ⟨_, .group (.longSeparate file hname.1 (hletters hname (by decide))
      ((names_iff hconfig).mpr hname) rfl) hline, rfl⟩

/-- Options that do not end the program can be written before an accepted command line. -/
theorem CommandLine.group {posixlyCorrect : Bool} {g ws : List (List Char)} {os : List Found}
    {opts : List Opt} (hg : Group optstring longOptions g os)
    (hos : ∀ r ∈ os, (toOpt r).Continues) (h : CommandLine posixlyCorrect ws opts) :
    CommandLine posixlyCorrect (g ++ ws) (os.map toOpt ++ opts) := by
  have hflags {cs : List Char} (hcs : ∀ r ∈ cs.map flag, (toOpt r).Continues) :
      cs = List.replicate cs.length 'D' :=
    List.eq_replicate_of_mem fun c hc ↦
      eq_debug_of_continues (hcs (flag c) (List.mem_map_of_mem hc))
  cases hg with
  | @short cs hne hcs =>
    have hcs := hflags hos
    generalize cs.length = n at hcs
    subst hcs
    rw [map_flag_debug]
    exact .debug (by simpa using hne) h
  | @shortAttached cs arg c hcs hc harg =>
    obtain rfl := shortOption_config.mp hc
    have hcs := hflags (List.forall_mem_append.mp hos).1
    generalize cs.length = n at hcs
    subst hcs
    rw [List.map_append, map_flag_debug, List.append_assoc]
    exact .config n harg h
  | @shortSeparate cs c arg hcs hc =>
    obtain rfl := shortOption_config.mp hc
    have hcs := hflags (List.forall_mem_append.mp hos).1
    generalize cs.length = n at hcs
    subst hcs
    rw [List.map_append, map_flag_debug, List.append_assoc]
    exact .configWord n arg h
  | @long name o hne hname ho hnone =>
    have hmem := ho.1
    obtain rfl := debug_of_continues hmem (hos _ List.mem_cons_self)
    exact .longDebug ((names_iff hmem).mp ho) h
  | @longAttached name o arg hname ho harg =>
    have hmem := ho.1
    obtain rfl := config_of_requiresArgument hmem harg
    exact .longConfig arg ((names_iff hmem).mp ho) h
  | @longSeparate name o arg hne hname ho harg =>
    have hmem := ho.1
    obtain rfl := config_of_requiresArgument hmem harg
    exact .longConfigWord arg ((names_iff hmem).mp ho) h

/-- A command line whose options do not end the program is accepted. -/
theorem commandLine_of_line {posixlyCorrect : Bool} {ws : List (List Char)} {found : List Found}
    (h : Line optstring longOptions posixlyCorrect ws found)
    (hcont : ∀ r ∈ found, (toOpt r).Continues) :
    CommandLine posixlyCorrect ws (found.map toOpt) := by
  induction h with
  | nil => exact .nil
  | terminator ws => exact .terminator ws
  | operand hw hp _ ih => exact .operand hw hp (ih hcont)
  | firstOperand ws hw hp => exact .firstOperand ws hw hp
  | group hg _ ih =>
    obtain ⟨hos, hrest⟩ := List.forall_mem_append.mp hcont
    rw [List.map_append]
    exact .group hg hos (ih hrest)

/-- The options of an accepted command line are the ones that are read. -/
theorem cmdlineOpts_of_commandLine {posixlyCorrect : Bool} {args : List String} {opts : List Opt}
    (h : CommandLine posixlyCorrect (args.map String.toList) opts) :
    cmdlineOpts posixlyCorrect args = opts := by
  obtain ⟨found, hline, hmap⟩ := h.line
  rw [cmdlineOpts, getoptLong_of_line (by decide) (by decide) hline, hmap]

theorem commandLine_cmdlineOpts {posixlyCorrect : Bool} {args : List String}
    (h : ∀ o ∈ cmdlineOpts posixlyCorrect args, o.Continues) :
    CommandLine posixlyCorrect (args.map String.toList) (cmdlineOpts posixlyCorrect args) := by
  rw [cmdlineOpts, List.forall_mem_map] at h
  refine commandLine_of_line (line_getoptLong (by decide) posixlyCorrect _ fun r hr hval ↦ ?_) h
  have hcont := h r hr
  rw [show r = ⟨'?', r.optarg⟩ from hval ▸ rfl] at hcont
  simp [toOpt, Opt.Continues] at hcont

/-- **The command lines and the loop over the options.**  The loop is left iff the words are an
accepted command line, and then the file that is named last has been noted and the level counted up
for the options that are written.  Any other command line ends the program. -/
theorem parseOptions_iff (posixlyCorrect : Bool) (args : List String) (s s' : Cmdline) :
    (parseOptions (cmdlineOpts posixlyCorrect args) s = (.returned (), s') ↔
      ∃ opts, CommandLine posixlyCorrect (args.map String.toList) opts ∧ s' = s.after opts) ∧
    ((∃ opts, CommandLine posixlyCorrect (args.map String.toList) opts) ∨
      ∃ status s'', parseOptions (cmdlineOpts posixlyCorrect args) s
        = (.threw (.exit status), s'')) := by
  have hcases := Classical.em (∀ o ∈ cmdlineOpts posixlyCorrect args, o.Continues)
  refine ⟨⟨fun h ↦ ?_, ?_⟩, ?_⟩
  · obtain hcont | hstop := hcases
    · rw [parseOptions_run hcont] at h
      exact ⟨_, commandLine_cmdlineOpts hcont, (Prod.mk.inj h).2.symm⟩
    · obtain ⟨status, s'', hrun⟩ := parseOptions_stopped hstop s
      rw [hrun] at h
      simp at h
  · rintro ⟨opts, hline, rfl⟩
    rw [cmdlineOpts_of_commandLine hline]
    exact parseOptions_run hline.continues s
  · obtain hcont | hstop := hcases
    · exact Or.inl ⟨_, commandLine_cmdlineOpts hcont⟩
    · exact Or.inr (parseOptions_stopped hstop s)

/-- `-DD --conf=a operand -Dc b -- -H` -/
example : cmdlineOpts false ["-DD", "--conf=a", "operand", "-Dc", "b", "--", "-H"]
    = [.debug, .debug, .config "a", .debug, .config "b"] := by decide

end Options
end XaMain
