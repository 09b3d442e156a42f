import RvAssembler.Driver
import RvAssembler.Loading

namespace RvAssembler

theorem exists_main_file {fl : Flags} {env : Environment} {prog : Program}
    (hexit : (main fl env prog).exitCode = 0) : ∃ img, (main fl env prog).file = some img := by
  cases hfmt : fl.fmt with
  | raw => exact ⟨_, main_file_raw hfmt hexit⟩
  | elf => exact ⟨_, main_file_elf hfmt hexit⟩

/-- Whatever the assembler accepts without `-mc`, a hart with the output in memory runs as the
text says, if the program has no `la` and its counters count its bytes. -/
theorem mainArgv_runs (env : Environment) (files : Files) (argv : List CString) (o : Options)
    (inPath : CString) (hcl : CommandLine argv o) (hin : o.inPath = some inPath)
    (hC : o.flags.cext = false) (hexit : (mainArgv env files argv).exitCode = 0) :
    ∃ input prog img, files inPath = some input ∧
      ProgramPhrase 1 (tokens (input.map byteChar)) prog ∧
      (mainArgv env files argv).files (o.target inPath) = some img ∧
      ((∀ p ∈ prog, ∀ rd l, p.2 ≠ .instruction (.la rd l)) → Steady prog →
        bytesIn .text .text prog + bytesIn .data .text prog < 2 ^ 31 →
        ∀ (p : Platform o.flags.config.xlen) (base : BitVec o.flags.config.xlen) (n : ℕ)
          (h h' : Hart o.flags.config.xlen), Loads o.flags.fmt prog img h.mem base →
            Steps (Program.Step p (placedAt base) prog) n h h' →
              iterate (Hart.step p) n h = some h') := by
  obtain ⟨input, prog, hinput, hparse, hasm⟩ := (mainArgv_succeeds_iff hcl hin).mp hexit
  have hok := (main_exitCode_eq_zero _ _ _).mpr hasm
  obtain ⟨img, hfile⟩ := exists_main_file hok
  refine ⟨input, prog, img, hinput, (yyparse_iff _ _).mp hparse, ?_, ?_⟩
  · rw [mainArgv_eq hcl hin, hinput]
    simp only [hparse, Option.isSome_some, Option.getD_some, hfile]
    exact Function.update_self _ _ _
  · intro hla hsteady hsize p base n h h' hload hsteps
    exact loaded_runs _ _ prog hC hla hsteady hsize hok img hfile p base n h h' hload hsteps

def counterTokens : List Token :=
  [.identifier (letter 0), .colon, .newline, .keyword .addi, .register (reg 5), .comma,
    .register (reg 5), .comma, .immediate 1, .newline, .keyword .j, .identifier (letter 0),
    .newline]

def counterText : List UInt8 := written counterTokens

theorem yyparseFile_counterText : yyparseFile counterText = some counter := by
  have hname : (letter 0).Writable := by
    have hall : ∀ k ∈ Keyword.all, k.text.toList ≠ (letter 0).yytext := by decide +kernel
    exact ⟨by decide, by decide, fun k => hall k k.mem_all⟩
  have hwritable : ∀ t ∈ counterTokens, t.Writable := by
    simp [counterTokens, Token.Writable, hname]
  rw [yyparseFile, counterText, tokens_written hwritable]
  rfl

theorem counter_steps (img : List UInt8) :
    Steps (Program.Step (bare 32 4) (placedAt 0) counter) 2 (bootedAt 32 img)
      { (bootedAt 32 img).set (reg 5) 1 with pc := 0 } := by
  have hadd : Program.Step (bare 32 4) (placedAt 0) counter (bootedAt 32 img)
      ((bootedAt 32 img).write 4 (reg 5) 1) := by
    have hsplit : counter = [(1, .label (letter 0))] ++
        (2, .instruction (.addi (reg 5) (reg 5) 1)) ::
          [(3, .instruction (.jLabel (letter 0)))] := rfl
    exact .statement hsplit rfl rfl rfl rfl
  have hjump : Program.Step (bare 32 4) (placedAt 0) counter
      ((bootedAt 32 img).write 4 (reg 5) 1) { (bootedAt 32 img).set (reg 5) 1 with pc := 0 } := by
    have hsplit : counter = [(1, .label (letter 0)), (2, .instruction (.addi (reg 5) (reg 5) 1))] ++
        (3, .instruction (.jLabel (letter 0))) :: [] := rfl
    exact .statement hsplit rfl rfl rfl rfl
  exact .succ hadd (.succ hjump (.zero _))

theorem main_counter : main {} {} counter =
    { exitCode := 0, file := some [147, 130, 18, 0, 111, 240, 223, 255] } := by decide +kernel

theorem mainArgv_runs_counter :
    ∃ img, (mainArgv {} (fun _ => some counterText) [counterFile]).files
        (deriveOutputName counterFile .raw) = some img ∧
      iterate (Hart.step (bare 32 4)) 2 (bootedAt 32 img) =
        some { (bootedAt 32 img).set (reg 5) 1 with pc := 0 } := by
  have hcl : CommandLine [counterFile] { inPath := some counterFile } :=
    commandLine_iff.mpr ⟨rfl, by simp⟩
  have hrun : mainArgv {} (fun _ => some counterText) [counterFile] =
      { exitCode := 0
        files := Function.update (fun _ => some counterText) (deriveOutputName counterFile .raw)
          (some [147, 130, 18, 0, 111, 240, 223, 255])
        reports := mainReports {} {} (deriveOutputName counterFile .raw) counter } := by
    rw [mainArgv_eq hcl rfl]
    simp only [yyparseFile_counterText, Option.isSome_some, Option.getD_some, main_counter]
    rfl
  obtain ⟨input, prog, img, hinput, hphrase, hfile, hruns⟩ :=
    mainArgv_runs {} (fun _ => some counterText) [counterFile] _ counterFile hcl rfl rfl
      (congrArg Ended.exitCode hrun)
  obtain rfl : counterText = input := Option.some.inj hinput
  obtain rfl : counter = prog :=
    Option.some.inj (yyparseFile_counterText.symm.trans ((yyparse_iff _ _).mpr hphrase))
  have htarget : Options.target { inPath := some counterFile } counterFile =
      deriveOutputName counterFile .raw := rfl
  rw [htarget] at hfile
  refine ⟨img, hfile, hruns ?_ ?_ (by decide) (bare 32 4) 0 2 _ _ ?_ (counter_steps img)⟩
  · simp [counter]
  · apply TextOnly.steady
    simp [TextOnly, counter]
  · simp only [hrun, Function.update_self, Option.some.injEq] at hfile
    subst hfile
    exact .raw rfl 0 (by decide +kernel)

end RvAssembler
