import RvAssembler.ElfRead
import RvAssembler.FrontEnd
import RvAssembler.OpenOutput
import RvAssembler.Reports

namespace RvAssembler

/-- `strrchr`: what is before the last occurrence of an element, and what is behind it. -/
def strrchr {α : Type} [DecidableEq α] (c : α) : List α → Option (List α × List α)
  | [] => none
  | x :: xs =>
    match strrchr c xs with
    | some (front, back) => some (x :: front, back)
    | none => if x = c then some ([], xs) else none

def outExt : OutFormat → List UInt8
  | .elf => ascii ['.', 'e', 'l', 'f']
  | .raw => ascii ['.', 'b', 'i', 'n']

def baseName (path : List UInt8) : List UInt8 :=
  match strrchr 47 path with
  | some (_, base) => base
  | none => path

/-- A name without its extension; a dot that begins the name begins no extension. -/
def stemOf (base : List UInt8) : List UInt8 :=
  match strrchr 46 base with
  | some (front, _) => if front = [] then base else front
  | none => base

def deriveOutputBytes (path : List UInt8) (fmt : OutFormat) : List UInt8 :=
  stemOf (baseName path) ++ outExt fmt

section

variable {α : Type} [DecidableEq α] {c : α}

theorem strrchr_of_notMem {s : List α} (h : c ∉ s) : strrchr c s = none := by
  induction s with
  | nil => rfl
  | cons x xs ih =>
    obtain ⟨hx, hxs⟩ := not_or.mp (List.mem_cons.not.mp h)
    rw [strrchr, ih hxs]
    exact if_neg (Ne.symm hx)

theorem strrchr_append (front : List α) {back : List α} (h : c ∉ back) :
    strrchr c (front ++ c :: back) = some (front, back) := by
  induction front with
  | nil =>
    rw [List.nil_append, strrchr, strrchr_of_notMem h]
    exact if_pos rfl
  | cons x front ih => rw [List.cons_append, strrchr, ih]

theorem exists_strrchr {s : List α} (h : c ∈ s) :
    ∃ front back, s = front ++ c :: back ∧ c ∉ back ∧ strrchr c s = some (front, back) := by
  -- the last occurrence is the first one from behind
  obtain ⟨behind, before, hrev, hbehind⟩ := List.eq_append_cons_of_mem (List.mem_reverse.mpr h)
  have hs : s = before.reverse ++ c :: behind.reverse := by
    rw [← List.reverse_reverse s, hrev]
    simp
  have hback : c ∉ behind.reverse := by rwa [List.mem_reverse]
  refine ⟨before.reverse, behind.reverse, hs, hback, ?_⟩
  rw [hs]
  exact strrchr_append _ hback

end

theorem outExt_bytes (fmt : OutFormat) : 0 ∉ outExt fmt ∧ 47 ∉ outExt fmt ∧ outExt fmt ≠ [] := by
  cases fmt <;> decide

theorem exists_baseName (path : List UInt8) : ∃ dir, path = dir ++ baseName path ∧
    47 ∉ baseName path ∧ (47 ∉ path → dir = []) := by
  unfold baseName
  by_cases h : (47 : UInt8) ∈ path
  · obtain ⟨front, back, hs, hback, hlast⟩ := exists_strrchr h
    rw [hlast]
    exact ⟨front ++ [47], by rw [hs]; simp, hback, fun hno => absurd h hno⟩
  · rw [strrchr_of_notMem h]
    exact ⟨[], rfl, h, fun _ => rfl⟩

/-- A name is its stem, followed by an extension if there is a dot behind its first byte. -/
theorem exists_stemOf (base : List UInt8) : ∃ ext, base = stemOf base ++ ext ∧
    (ext = [] ∨ stemOf base ≠ [] ∧ ∃ rest, ext = 46 :: rest ∧ 46 ∉ rest) := by
  unfold stemOf
  by_cases h : (46 : UInt8) ∈ base
  · obtain ⟨front, back, hs, hback, hlast⟩ := exists_strrchr h
    rw [hlast]
    simp only
    split_ifs with hfront
    · exact ⟨[], (List.append_nil base).symm, .inl rfl⟩
    · exact ⟨46 :: back, hs, .inr ⟨hfront, back, rfl, hback⟩⟩
  · rw [strrchr_of_notMem h]
    exact ⟨[], (List.append_nil base).symm, .inl rfl⟩

def deriveOutputName (path : CString) (fmt : OutFormat) : CString where
  bytes := deriveOutputBytes path.bytes fmt
  nulFree := by
    obtain ⟨dir, hdir, -⟩ := exists_baseName path.bytes
    obtain ⟨ext, hext, -⟩ := exists_stemOf (baseName path.bytes)
    have hpath := path.nulFree
    rw [hdir, hext, List.mem_append, List.mem_append, not_or, not_or] at hpath
    rw [deriveOutputBytes, List.mem_append, not_or]
    exact ⟨hpath.2.1, (outExt_bytes fmt).1⟩

structure Options where
  inPath : Option CString := none
  outPath : Option CString := none
  flags : Flags := {}

def Flags.switch (fl : Flags) (arg : List UInt8) : Option Flags :=
  if arg = ascii ['-', 'm', '6', '4'] then some { fl with xlen := 64 }
  else if arg = ascii ['-', 'm', '3', '2'] then some { fl with xlen := 32 }
  else if arg = ascii ['-', 'm'] then some { fl with mext := true }
  else if arg = ascii ['-', 'm', 'n', 'o', '-', 'm'] then some { fl with mext := false }
  else if arg = ascii ['-', 'm', 'c'] then some { fl with cext := true }
  else if arg = ascii ['-', 'm', 'n', 'o', '-', 'c'] then some { fl with cext := false }
  else if arg = ascii ['-', 'm', 'c', 'o', 'm', 'p', 'r', 'e', 's', 's'] then
    some { fl with autoC := true }
  else if arg = ascii ['-', 'm', 'n', 'o', '-', 'c', 'o', 'm', 'p', 'r', 'e', 's', 's'] then
    some { fl with autoC := false }
  else if arg = ascii ['-', 'f', 'e', 'l', 'f'] then some { fl with fmt := .elf }
  else if arg = ascii ['-', 'f', 'r', 'a', 'w'] then some { fl with fmt := .raw }
  else none

/-- The reports of `main` and of pass 2.  What the scanner, the parser and pass 1 print is not
among them. -/
inductive Report
  | usage
  | inputs (first second : CString)
  | noInput (path : CString)
  | compressIgnored
  | parseFailed
  | noOutput (path : CString)
  | pass2 (message : String)
  | notClosed (path : CString)
deriving DecidableEq

def Report.text (prog : CString) (strerror : String) : Report → String
  | .usage => s!"Usage: {prog.chars} [-o outfile] [-m32|-m64] [-m|-mno-m] [-mc|-mno-c] " ++
    "[-mcompress|-mno-compress] [-felf|-fraw] <input.s>\n" ++
    "   -fraw : raw binary (default, output *.bin)\n" ++
    "   -felf : ELF executable (output *.elf)"
  | .inputs first second =>
    s!"Error: multiple input files provided ('{first.chars}' and '{second.chars}')"
  | .noInput path => s!"Error: failed to open input '{path.chars}': {strerror}"
  | .compressIgnored => "Warning: -mcompress ignored because C extension is disabled"
  | .parseFailed => "Error: parse failed (rc=1)"
  | .noOutput path => s!"Error: failed to open output '{path.chars}': {strerror}"
  | .pass2 message => message
  | .notClosed path => s!"Error: failed to close output '{path.chars}': {strerror}"

/-- The loop of `main` over its arguments. -/
def readOptions (o : Options) : List CString → Except Report Options
  | [] => .ok o
  | arg :: args =>
    if arg.bytes = ascii ['-', 'o'] then
      match args with
      | [] => .error .usage
      | path :: rest => readOptions { o with outPath := some path } rest
    else
      match o.flags.switch arg.bytes with
      | some fl => readOptions { o with flags := fl } args
      | none =>
        if arg.bytes.head? = some 45 then .error .usage
        else
          match o.inPath with
          | none => readOptions { o with inPath := some arg } args
          | some inPath => .error (.inputs inPath arg)

/-- The files there are, by their names.  Two names are taken for two files. -/
abbrev Files := CString → Option (List UInt8)

structure Ended where
  exitCode : ℕ
  files : Files
  reports : List Report

def pass2Reports (fl : Flags) (env : Environment) (prog : Program) : List Report :=
  let st := pass1Run prog
  let st2 := pass2Start (outSetFile (outBegin fl.fmt fl.xlen) {})
  (pass2Run fl.config st.symtab env.ops st2 st.ir).1.stderr.map Report.pass2

def mainReports (fl : Flags) (env : Environment) (outPath : CString) (prog : Program) :
    List Report :=
  (if fl.autoC && !fl.cext then [.compressIgnored] else []) ++
    if !env.parses then [.parseFailed]
    else if !env.opens then [.noOutput outPath]
    else pass2Reports fl env prog ++ if env.closes then [] else [.notClosed outPath]

/-- `main` of `main.c`. -/
def mainArgv (env : Environment) (files : Files) (argv : List CString) : Ended :=
  match readOptions {} argv with
  | .error report => { exitCode := 2, files, reports := [report] }
  | .ok o =>
    match o.inPath with
    | none => { exitCode := 2, files, reports := [.usage] }
    | some inPath =>
      match files inPath with
      | none => { exitCode := 1, files, reports := [.noInput inPath] }
      | some input =>
        let outPath := o.outPath.getD (deriveOutputName inPath o.flags.fmt)
        let parsed := yyparseFile input
        let env := { env with parses := parsed.isSome }
        let r := main o.flags env (parsed.getD [])
        { exitCode := r.exitCode
          files :=
            match r.file with
            | none => files
            | some bytes => Function.update files outPath (some bytes)
          reports := mainReports o.flags env outPath (parsed.getD []) }

/-- The options that come in pairs: one turns something on, the other one off. -/
inductive Group
  | xlen | mext | cext | autoC | fmt

def Group.word : Group → Bool → List UInt8
  | .xlen, true => ascii ['-', 'm', '6', '4']
  | .xlen, false => ascii ['-', 'm', '3', '2']
  | .mext, true => ascii ['-', 'm']
  | .mext, false => ascii ['-', 'm', 'n', 'o', '-', 'm']
  | .cext, true => ascii ['-', 'm', 'c']
  | .cext, false => ascii ['-', 'm', 'n', 'o', '-', 'c']
  | .autoC, true => ascii ['-', 'm', 'c', 'o', 'm', 'p', 'r', 'e', 's', 's']
  | .autoC, false => ascii ['-', 'm', 'n', 'o', '-', 'c', 'o', 'm', 'p', 'r', 'e', 's', 's']
  | .fmt, true => ascii ['-', 'f', 'e', 'l', 'f']
  | .fmt, false => ascii ['-', 'f', 'r', 'a', 'w']

def Flags.turn (fl : Flags) : Group → Bool → Flags
  | .xlen, on => { fl with xlen := if on then 64 else 32 }
  | .mext, on => { fl with mext := on }
  | .cext, on => { fl with cext := on }
  | .autoC, on => { fl with autoC := on }
  | .fmt, on => { fl with fmt := if on then .elf else .raw }

inductive Arg
  | output (path : CString)
  | switch (g : Group) (on : Bool)
  | input (path : CString)

def Arg.words : Arg → List (List UInt8)
  | .output path => [ascii ['-', 'o'], path.bytes]
  | .switch g on => [g.word on]
  | .input path => [path.bytes]

/-- An input that looks like an option is taken for one; behind `-o` anything is a path. -/
def Arg.Plain : Arg → Prop
  | .input path => path.bytes.head? ≠ some 45
  | _ => True

def Arg.input? : Arg → Option CString
  | .input path => some path
  | _ => none

def Arg.output? : Arg → Option CString
  | .output path => some path
  | _ => none

def Arg.switch? : Group → Arg → Option Bool
  | .xlen, .switch .xlen on => some on
  | .mext, .switch .mext on => some on
  | .cext, .switch .cext on => some on
  | .autoC, .switch .autoC on => some on
  | .fmt, .switch .fmt on => some on
  | _, _ => none

def lastOf {α : Type} (kind : Arg → Option α) (args : List Arg) : Option α :=
  (args.filterMap kind).getLast?

/-- Whether an option is on: as the last of its group says, and off without any. -/
def isOn (g : Group) (args : List Arg) : Bool := (lastOf (Arg.switch? g) args).getD false

/-- What a command line asks for. -/
def optionsOf (args : List Arg) : Options where
  inPath := lastOf Arg.input? args
  outPath := lastOf Arg.output? args
  flags := {
    xlen := if isOn .xlen args then 64 else 32
    mext := isOn .mext args
    cext := isOn .cext args
    autoC := isOn .autoC args
    fmt := if isOn .fmt args then .elf else .raw }

/-- Arguments that are made up of parts, with one input among them. -/
def CommandLine (argv : List CString) (o : Options) : Prop :=
  ∃ args : List Arg, argv.map CString.bytes = args.flatMap Arg.words ∧ (∀ a ∈ args, a.Plain) ∧
    (args.filterMap Arg.input?).length = 1 ∧ o = optionsOf args

def Arg.apply (o : Options) : Arg → Options
  | .output path => { o with outPath := some path }
  | .switch g on => { o with flags := o.flags.turn g on }
  | .input path => { o with inPath := some path }

theorem lastOf_concat {α : Type} (kind : Arg → Option α) (args : List Arg) (a : Arg) :
    lastOf kind (args ++ [a]) = (kind a).or (lastOf kind args) := by
  unfold lastOf
  rw [List.filterMap_append, List.getLast?_append]
  cases h : kind a <;> simp [h]

theorem isOn_concat (g : Group) (args : List Arg) (a : Arg) :
    isOn g (args ++ [a]) = (Arg.switch? g a).getD (isOn g args) := by
  unfold isOn
  rw [lastOf_concat]
  cases Arg.switch? g a <;> rfl

theorem foldl_apply (args : List Arg) : args.foldl Arg.apply {} = optionsOf args := by
  induction args using List.reverseRecOn with
  | nil => rfl
  | append_singleton args a ih =>
    rw [List.foldl_append, ih]
    unfold optionsOf
    rw [lastOf_concat, lastOf_concat]
    simp only [isOn_concat]
    cases a with
    | output path => rfl
    | switch g on => cases g <;> rfl
    | input path => rfl

theorem Flags.switch_iff {fl fl' : Flags} {arg : List UInt8} :
    fl.switch arg = some fl' ↔ ∃ g on, arg = g.word on ∧ fl' = fl.turn g on := by
  constructor
  · intro h
    unfold Flags.switch at h
    split_ifs at h with h₁ h₂ h₃ h₄ h₅ h₆ h₇ h₈ h₉ h₁₀ <;> obtain rfl := Option.some.inj h
    · exact ⟨.xlen, true, h₁, rfl⟩
    · exact ⟨.xlen, false, h₂, rfl⟩
    · exact ⟨.mext, true, h₃, rfl⟩
    · exact ⟨.mext, false, h₄, rfl⟩
    · exact ⟨.cext, true, h₅, rfl⟩
    · exact ⟨.cext, false, h₆, rfl⟩
    · exact ⟨.autoC, true, h₇, rfl⟩
    · exact ⟨.autoC, false, h₈, rfl⟩
    · exact ⟨.fmt, true, h₉, rfl⟩
    · exact ⟨.fmt, false, h₁₀, rfl⟩
  · rintro ⟨g, on, rfl, rfl⟩
    cases g <;> cases on <;> rfl

theorem Group.word_facts (g : Group) (on : Bool) :
    (g.word on).head? = some 45 ∧ g.word on ≠ ascii ['-', 'o'] := by
  cases g <;> cases on <;> decide

theorem CString.ext_bytes {s t : CString} (h : s.bytes = t.bytes) : s = t := by
  cases s
  cases t
  cases h
  rfl

theorem readOptions_cons {o : Options} {arg : CString} (harg : arg.bytes ≠ ascii ['-', 'o'])
    (args : List CString) : readOptions o (arg :: args) =
      match o.flags.switch arg.bytes with
      | some fl => readOptions { o with flags := fl } args
      | none =>
        if arg.bytes.head? = some 45 then .error .usage
        else
          match o.inPath with
          | none => readOptions { o with inPath := some arg } args
          | some inPath => .error (.inputs inPath arg) := by
  rw [readOptions.eq_def]
  exact if_neg harg

theorem readOptions_ne_compressIgnored {o : Options} {argv : List CString} {report : Report}
    (h : readOptions o argv = .error report) : report ≠ .compressIgnored := by
  fun_induction readOptions o argv with
  | case1 => cases h
  | case2 | case5 | case7 =>
    obtain rfl := Except.error.inj h
    simp
  | case3 _ _ _ _ _ ih | case4 _ _ _ _ _ _ ih | case6 _ _ _ _ _ _ _ ih => exact ih h

/-- The loop accepts arguments that are made up of parts, with at most one input. -/
theorem readOptions_eq_ok {o o' : Options} {argv : List CString} :
    readOptions o argv = .ok o' ↔
      ∃ args : List Arg, argv.map CString.bytes = args.flatMap Arg.words ∧ (∀ a ∈ args, a.Plain) ∧
        (o.inPath.toList ++ args.filterMap Arg.input?).length ≤ 1 ∧ o' = args.foldl Arg.apply o := by
  constructor
  · intro h
    fun_induction readOptions o argv with
    | case1 o => exact ⟨[], rfl, by simp, by cases o.inPath <;> simp, (Except.ok.inj h).symm⟩
    | case2 => cases h
    | case3 o arg harg path rest ih =>
      obtain ⟨args, hargv, hplain, hinputs, rfl⟩ := ih h
      refine ⟨.output path :: args, ?_, List.forall_mem_cons.mpr ⟨trivial, hplain⟩, hinputs, rfl⟩
      rw [List.map_cons, List.map_cons, hargv, harg]
      rfl
    | case4 o arg args harg fl hswitch ih =>
      obtain ⟨args, hargv, hplain, hinputs, rfl⟩ := ih h
      obtain ⟨g, on, hword, rfl⟩ := Flags.switch_iff.mp hswitch
      refine ⟨.switch g on :: args, ?_, List.forall_mem_cons.mpr ⟨trivial, hplain⟩, hinputs, rfl⟩
      rw [List.map_cons, hargv, hword]
      rfl
    | case5 => cases h
    | case6 o arg args harg hswitch hdash hnone ih =>
      obtain ⟨args, hargv, hplain, hinputs, rfl⟩ := ih h
      refine ⟨.input arg :: args, ?_, List.forall_mem_cons.mpr ⟨hdash, hplain⟩, ?_, rfl⟩
      · rw [List.map_cons, hargv]
        rfl
      · rw [hnone]
        exact hinputs
    | case7 => cases h
  · rintro ⟨args, hargv, hplain, hinputs, rfl⟩
    induction args generalizing o argv with
    | nil =>
      rw [List.map_eq_nil_iff.mp hargv]
      rfl
    | cons a args ih =>
      obtain ⟨ha, hargs⟩ := List.forall_mem_cons.mp hplain
      cases a with
      | output path =>
        obtain ⟨arg, rest, rfl, harg, hrest⟩ := List.map_eq_cons_iff.mp hargv
        obtain ⟨path', rest, rfl, hpath, hrest⟩ := List.map_eq_cons_iff.mp hrest
        rw [readOptions, if_pos harg, CString.ext_bytes hpath]
        exact ih hrest hargs hinputs
      | switch g on =>
        obtain ⟨arg, rest, rfl, harg, hrest⟩ := List.map_eq_cons_iff.mp hargv
        have hword := (g.word_facts on).2
        have hswitch : o.flags.switch arg.bytes = some (o.flags.turn g on) :=
          Flags.switch_iff.mpr ⟨g, on, harg, rfl⟩
        rw [readOptions_cons (by rw [harg]; exact hword), hswitch]
        exact ih hrest hargs hinputs
      | input path =>
        obtain ⟨arg, rest, rfl, harg, hrest⟩ := List.map_eq_cons_iff.mp hargv
        obtain rfl := CString.ext_bytes harg
        have hswitch : o.flags.switch arg.bytes = none := by
          by_contra hsome
          obtain ⟨fl, hfl⟩ := Option.ne_none_iff_exists'.mp hsome
          obtain ⟨g, on, hword, -⟩ := Flags.switch_iff.mp hfl
          exact ha (hword ▸ (g.word_facts on).1)
        have hfirst : arg.bytes ≠ ascii ['-', 'o'] := by
          intro heq
          exact ha (by rw [heq]; rfl)
        have hnone : o.inPath = none := by
          cases hin : o.inPath with
          | none => rfl
          | some path => simp [hin, Arg.input?] at hinputs
        rw [readOptions_cons hfirst, hswitch]
        simp only
        rw [if_neg ha, hnone]
        exact ih hrest hargs (by simpa [hnone, Arg.input?] using hinputs)

theorem commandLine_iff {argv : List CString} {o : Options} :
    CommandLine argv o ↔ readOptions {} argv = .ok o ∧ o.inPath ≠ none := by
  have hlast : ∀ args : List Arg, (args.filterMap Arg.input?).length = 1 ↔
      (args.filterMap Arg.input?).length ≤ 1 ∧ (optionsOf args).inPath ≠ none := by
    intro args
    unfold optionsOf lastOf
    rw [Ne, List.getLast?_eq_none_iff, ← List.length_eq_zero_iff]
    omega
  constructor
  · rintro ⟨args, hargv, hplain, hinputs, rfl⟩
    obtain ⟨hle, hin⟩ := (hlast args).mp hinputs
    exact ⟨readOptions_eq_ok.mpr ⟨args, hargv, hplain, hle, (foldl_apply args).symm⟩, hin⟩
  · rintro ⟨hread, hin⟩
    obtain ⟨args, hargv, hplain, hle, rfl⟩ := readOptions_eq_ok.mp hread
    rw [foldl_apply] at hin ⊢
    exact ⟨args, hargv, hplain, (hlast args).mpr ⟨hle, hin⟩, rfl⟩

def Options.target (o : Options) (inPath : CString) : CString :=
  o.outPath.getD (deriveOutputName inPath o.flags.fmt)

theorem mainArgv_usage (env : Environment) (files : Files) {argv : List CString}
    (h : ¬ ∃ o, CommandLine argv o) : ∃ report, report ≠ .compressIgnored ∧
      mainArgv env files argv = { exitCode := 2, files, reports := [report] } := by
  unfold mainArgv
  cases hread : readOptions {} argv with
  | error report => exact ⟨report, readOptions_ne_compressIgnored hread, rfl⟩
  | ok o =>
    cases hin : o.inPath with
    | none => exact ⟨.usage, by simp, by simp only [hin]⟩
    | some inPath => exact absurd ⟨o, commandLine_iff.mpr ⟨hread, by simp [hin]⟩⟩ h

theorem mainArgv_eq {env : Environment} {files : Files} {argv : List CString} {o : Options}
    {inPath : CString} (hcl : CommandLine argv o) (hin : o.inPath = some inPath) :
    mainArgv env files argv =
      match files inPath with
      | none => { exitCode := 1, files, reports := [.noInput inPath] }
      | some input =>
        let env := { env with parses := (yyparseFile input).isSome }
        let r := main o.flags env ((yyparseFile input).getD [])
        { exitCode := r.exitCode
          files :=
            match r.file with
            | none => files
            | some bytes => Function.update files (o.target inPath) (some bytes)
          reports := mainReports o.flags env (o.target inPath) ((yyparseFile input).getD []) } := by
  unfold mainArgv
  rw [(commandLine_iff.mp hcl).1]
  simp only [hin]
  rfl

theorem main_of_rejected (fl : Flags) (env : Environment) (prog : Program)
    (h : env.parses = false) : main fl env prog = { exitCode := 1, file := none } := by
  unfold main
  rw [h]
  rfl

theorem mainArgv_exitCode_eq {env : Environment} {files : Files} {argv : List CString}
    {o : Options} {inPath : CString} (hcl : CommandLine argv o) (hin : o.inPath = some inPath)
    {input : List UInt8} (hinput : files inPath = some input) :
    (mainArgv env files argv).exitCode =
      (main o.flags { env with parses := (yyparseFile input).isSome }
        ((yyparseFile input).getD [])).exitCode := by
  rw [mainArgv_eq hcl hin, hinput]

theorem CommandLine.unique {argv : List CString} {o o' : Options} (h : CommandLine argv o)
    (h' : CommandLine argv o') : o = o' :=
  Except.ok.inj ((commandLine_iff.mp h).1.symm.trans (commandLine_iff.mp h').1)

theorem mainArgv_succeeds_iff {env : Environment} {files : Files} {argv : List CString}
    {o : Options} {inPath : CString} (hcl : CommandLine argv o) (hin : o.inPath = some inPath) :
    (mainArgv env files argv).exitCode = 0 ↔ ∃ input prog, files inPath = some input ∧
      yyparseFile input = some prog ∧ Assembles o.flags { env with parses := true } prog := by
  cases hfile : files inPath with
  | none =>
    have hone : (mainArgv env files argv).exitCode = 1 := by
      rw [mainArgv_eq hcl hin, hfile]
    simp [hone]
  | some input =>
    rw [mainArgv_exitCode_eq hcl hin hfile]
    cases hparse : yyparseFile input with
    | none =>
      rw [main_of_rejected _ _ _ rfl]
      simp [hparse]
    | some prog =>
      rw [main_exitCode_eq_zero]
      simp [hparse]

/-- A run that gets as far as opening its output: the input has been accepted. -/
structure Opened (env : Environment) (files : Files) (argv : List CString) (o : Options)
    (inPath : CString) (prog : Program) : Prop where
  commandLine : CommandLine argv o
  input : o.inPath = some inPath
  accepted : (files inPath).bind yyparseFile = some prog
  opens : env.opens = true

theorem Opened.files_eq {env : Environment} {files : Files} {argv : List CString} {o : Options}
    {inPath : CString} {prog : Program} (h : Opened env files argv o inPath prog) :
    ∃ bytes, (mainArgv env files argv).files =
      Function.update files (o.target inPath) (some bytes) := by
  obtain ⟨input, hinput, hparse⟩ := Option.bind_eq_some_iff.mp h.accepted
  have hopened : (main o.flags { env with parses := true } prog).file ≠ none :=
    main_file_ne_none.mpr ⟨rfl, h.opens⟩
  obtain ⟨bytes, hbytes⟩ := Option.ne_none_iff_exists'.mp hopened
  refine ⟨bytes, ?_⟩
  rw [mainArgv_eq h.commandLine h.input, hinput]
  simp only [hparse, Option.isSome_some, Option.getD_some, hbytes]

theorem mainArgv_of_not_opened {env : Environment} {files : Files} {argv : List CString}
    (h : ¬ ∃ o inPath prog, Opened env files argv o inPath prog) :
    (mainArgv env files argv).files = files ∧ (mainArgv env files argv).exitCode ≠ 0 := by
  by_cases hcl : ∃ o, CommandLine argv o
  · obtain ⟨o, hcl⟩ := hcl
    obtain ⟨inPath, hin⟩ := Option.ne_none_iff_exists'.mp (commandLine_iff.mp hcl).2
    rw [mainArgv_eq hcl hin]
    cases hinput : files inPath with
    | none => exact ⟨rfl, Nat.succ_ne_zero 0⟩
    | some input =>
      simp only
      have hnone : (main o.flags { env with parses := (yyparseFile input).isSome }
          ((yyparseFile input).getD [])).file = none := by
        by_contra hsome
        obtain ⟨hparses, hopens⟩ := main_file_ne_none.mp hsome
        obtain ⟨prog, hprog⟩ := Option.isSome_iff_exists.mp hparses
        exact h ⟨o, inPath, prog, hcl, hin, by rw [hinput]; exact hprog, hopens⟩
      refine ⟨by rw [hnone], fun hexit => ?_⟩
      obtain ⟨hparses, hopens, -⟩ := (main_exitCode_iff _ _ _).mp hexit
      exact main_file_ne_none.mpr ⟨hparses, hopens⟩ hnone
  · obtain ⟨report, -, husage⟩ := mainArgv_usage env files hcl
    rw [husage]
    exact ⟨rfl, Nat.succ_ne_zero 1⟩

/-- A run either replaces one file, its output, after it has accepted the input, or it fails and
touches nothing. -/
theorem mainArgv_files (env : Environment) (files : Files) (argv : List CString) :
    (∃ o inPath prog bytes, Opened env files argv o inPath prog ∧
      (mainArgv env files argv).files = Function.update files (o.target inPath) (some bytes)) ∨
    (¬ ∃ o inPath prog, Opened env files argv o inPath prog) ∧
      (mainArgv env files argv).files = files ∧ (mainArgv env files argv).exitCode ≠ 0 := by
  by_cases h : ∃ o inPath prog, Opened env files argv o inPath prog
  · obtain ⟨o, inPath, prog, hopened⟩ := h
    obtain ⟨bytes, hfiles⟩ := hopened.files_eq
    exact .inl ⟨o, inPath, prog, bytes, hopened, hfiles⟩
  · exact .inr ⟨h, mainArgv_of_not_opened h⟩

def counterFile : CString := ⟨ascii ['a', '.', 's'], by decide⟩

end RvAssembler
