/-
When the commands succeed, and what a check leaves behind.

Listing the lexemes succeeds on what can be cut, outlining on what can be read,
and a check on what is valid, whatever it was asked to print.  A check that
fails writes its reports to standard error and prints nothing; how a report is
drawn does not matter.  What a check writes out is a source of its own: it is
written out unchanged, and it compiles to the same tree.
-/

import Asdl.Command
import Asdl.Proofs.Concrete.Refusal
import Asdl.Proofs.Resolution.Erasure
import Asdl.Proofs.Resolution.Reports

namespace Asdl

/-- Names of definitions are distinct, every type is known, and names of
constructors are distinct in each sum. -/
structure Module.Valid (module : Module) : Prop where
  distinct : (module.definitions.map Definition.name).Nodup
  known :
    ∀ definition ∈ module.definitions, ∀ field ∈ definition.fields,
      module.Knows field.typeName
  distinctConstructors :
    ∀ definition ∈ module.definitions, definition.body.DistinctConstructors

theorem Module.valid_iff (module : Module) :
    module.Valid ↔
      ∃ compilation,
        compile module = .ok compilation ∧ compilation.isClean = true := by
  constructor
  · intro valid
    refine
      ⟨module.linked, (compile_eq_ok_iff _ _).mpr ⟨valid.distinct, rfl⟩, ?_⟩
    rw [module.isClean_linked_iff]
    intro definition member
    exact
      ⟨valid.known definition member,
        valid.distinctConstructors definition member⟩
  · rintro ⟨compilation, compiled, clean⟩
    obtain ⟨distinct, rfl⟩ := (compile_eq_ok_iff _ _).mp compiled
    have each := module.isClean_linked_iff.mp clean
    exact
      { distinct := distinct
        known := fun definition member => (each definition member).1
        distinctConstructors :=
          fun definition member => (each definition member).2 }

theorem Module.Valid.of_eraseSpans_eq {left right : Module}
    (valid : left.Valid) (same : left.eraseSpans = right.eraseSpans) :
    right.Valid ∧ left.linked.tree = right.linked.tree := by
  obtain ⟨leftCompilation, leftCompiled, clean⟩ := (valid_iff left).mp valid
  have sameOutcome := sameOutcome_of_eraseSpans_eq same
  rw [leftCompiled] at sameOutcome
  generalize rightOutcome : compile right = outcome at sameOutcome
  cases sameOutcome with
  | @compiled _ rightCompilation sameTree sameFaults =>
      obtain ⟨_, rfl⟩ := (compile_eq_ok_iff _ _).mp leftCompiled
      obtain ⟨_, rfl⟩ := (compile_eq_ok_iff _ _).mp rightOutcome
      refine ⟨(valid_iff right).mpr ⟨_, rightOutcome, ?_⟩, sameTree⟩
      rw [Compilation.isClean, List.isEmpty_iff] at clean ⊢
      rwa [clean, List.map_nil, eq_comm, List.map_eq_nil_iff] at sameFaults

/-- What a check that fails writes to standard error: one report on a source
that is not read, or that defines a name twice; else a report for each semantic
fault, at least one, and then a line with their number. -/
inductive Refuses (draw : Report → String → String) (path source : String) :
    String → Prop
  | unread {error : SyntaxError}
      (refused : Module.parse source = .error error) :
      Refuses draw path source (draw (.ofSyntaxError path error) source)
  | repeated {module : Module} {fault : StructuralFault}
      (parsed : Module.parse source = .ok module)
      (refused : compile module = .error fault) :
      Refuses draw path source (draw (.ofStructuralFault path fault) source)
  | faulty {module : Module} {compilation : Compilation}
      (parsed : Module.parse source = .ok module)
      (compiled : compile module = .ok compilation)
      (unclean : 0 < compilation.faults.length) :
      Refuses draw path source
        (String.join
            (compilation.faults.map fun fault =>
              draw (.ofSemanticFault path fault) source) ++
          (compilation.faults.length.repr ++ " error(s) in " ++ path ++ "\n"))

theorem Outcome.stderr_of_report (draw : Report → String → String)
    (stdout : String) (content : Report) (source : String) :
    (failure stdout [.report content source]).stderr draw =
      draw content source := by
  rw [stderr, failure, List.map_singleton, String.join_cons, String.join_nil,
    String.append_empty, Notice.text_report]

private theorem Outcome.stderr_of_reports (draw : Report → String → String)
    (stdout : String) (contents : List Report) (source path : String)
    (faults : Nat) :
    (failure stdout
        (contents.map (Notice.report · source) ++
          [.count faults path])).stderr draw =
      String.join (contents.map (draw · source)) ++
        (faults.repr ++ " error(s) in " ++ path ++ "\n") := by
  rw [stderr, failure, List.map_append, String.join_append, List.map_map,
    List.map_singleton, String.join_cons, String.join_nil,
    String.append_empty, Notice.text_count]
  rfl

section Check

variable {printout : Printout} {path source : String} {module : Module}

theorem runCheck_of_valid (parsed : Module.parse source = .ok module)
    (valid : module.Valid) :
    runCheck printout path source =
      .success
        (Checked.print
          { module := module
            compilation := module.linked } printout) := by
  obtain ⟨compilation, compiled, clean⟩ := (Module.valid_iff module).mp valid
  obtain ⟨_, rfl⟩ := (compile_eq_ok_iff _ _).mp compiled
  simp only [runCheck, check, parsed, compiled, clean, if_true]

theorem runCheck_of_not_valid (printout : Printout) (path : String)
    (invalid : ∀ module, Module.parse source = .ok module → ¬ module.Valid) :
    ∃ notices,
      runCheck printout path source = .failure "" notices ∧
        ∀ draw,
          Refuses draw path source
            ((Outcome.failure "" notices).stderr draw) := by
  rw [runCheck, check]
  cases parsed : Module.parse source with
  | error error =>
      refine ⟨_, rfl, fun draw => ?_⟩
      rw [Outcome.stderr_of_report]
      exact .unread parsed
  | ok module =>
      simp only
      cases compiled : compile module with
      | error fault =>
          refine ⟨_, rfl, fun draw => ?_⟩
          rw [Outcome.stderr_of_report]
          exact .repeated parsed compiled
      | ok compilation =>
          have unclean : ¬ compilation.isClean = true := by
            intro clean
            exact
              invalid module parsed
                ((Module.valid_iff module).mpr ⟨_, compiled, clean⟩)
          have someFault : 0 < compilation.faults.length := by
            rw [Compilation.isClean, List.isEmpty_iff] at unclean
            exact List.length_pos_iff.mpr unclean
          refine ⟨_, if_neg unclean, fun draw => ?_⟩
          rw [Outcome.stderr_of_reports, Checked.reports, List.map_map]
          exact .faulty parsed compiled someFault

private theorem runCheck_exit_eq_zero_iff :
    (runCheck printout path source).exit = 0 ↔
      ∃ module, Module.parse source = .ok module ∧ module.Valid := by
  by_cases valid : ∃ module, Module.parse source = .ok module ∧ module.Valid
  · obtain ⟨module, parsed, isValid⟩ := valid
    rw [runCheck_of_valid parsed isValid]
    exact iff_of_true rfl ⟨module, parsed, isValid⟩
  · have invalid (module : Module)
        (parsed : Module.parse source = .ok module) : ¬ module.Valid :=
      fun isValid => valid ⟨module, parsed, isValid⟩
    obtain ⟨notices, outcome, _⟩ := runCheck_of_not_valid printout path invalid
    rw [outcome]
    exact iff_of_false Nat.one_ne_zero valid

/-- What a check wrote out is read again, to a description that is valid, writes
the same text and has the same tree. -/
theorem Module.Valid.exists_rewritten
    (parsed : Module.parse source = .ok module) (valid : module.Valid) :
    ∃ again,
      Module.parse module.source = .ok again ∧ again.Valid ∧
        again.source = module.source ∧
        again.linked.tree = module.linked.tree := by
  obtain ⟨again, parsedAgain, same⟩ :=
    (Module.printable_of_parse parsed).exists_parse
  obtain ⟨validAgain, sameTree⟩ := valid.of_eraseSpans_eq same.symm
  refine ⟨again, parsedAgain, validAgain, ?_, sameTree.symm⟩
  rw [← Module.source_eraseSpans again, same, Module.source_eraseSpans]

end Check

/-! ### Commands -/

private theorem Module.exists_tokenize_of_parse {source : String}
    {module : Module}
    (parsed : Module.parse source = .ok module) :
    ∃ tokenization, tokenize source = .ok tokenization := by
  cases cut : tokenize source with
  | ok tokenization => exact ⟨tokenization, rfl⟩
  | error error =>
      rw [Module.parse, Concrete.Module.parse_of_tokenize_error cut] at parsed
      cases parsed

private theorem runLex_exit_eq_zero_iff (path source : String) :
    (runLex path source).exit = 0 ↔
      ∃ tokenization, tokenize source = .ok tokenization := by
  rw [runLex]
  cases tokenize source with
  | ok tokenization => exact iff_of_true rfl ⟨tokenization, rfl⟩
  | error error =>
      refine iff_of_false Nat.one_ne_zero ?_
      rintro ⟨tokenization, impossible⟩
      cases impossible

private theorem runParse_exit_eq_zero_iff (path source : String) :
    (runParse path source).exit = 0 ↔
      ∃ module, Module.parse source = .ok module := by
  rw [runParse]
  cases Module.parse source with
  | ok module => exact iff_of_true rfl ⟨module, rfl⟩
  | error error =>
      refine iff_of_false Nat.one_ne_zero ?_
      rintro ⟨module, impossible⟩
      cases impossible

namespace Command

def ofPrintout (file : String) : Printout → Command
  | .summary => check file false
  | .dump => check file true
  | .source => emit file

theorem run_ofPrintout (file source : String) (printout : Printout) :
    (ofPrintout file printout).run (.ok source) =
      runCheck printout file source := by
  cases printout <;> rfl

/-- What the commands make of a file that holds the source. -/
structure Verdicts (draw : Report → String → String)
    (file source : String) : Prop where
  lexes :
    ((lex file).run (.ok source)).exit = 0 ↔
      ∃ tokenization, tokenize source = .ok tokenization
  parses :
    ((parse file).run (.ok source)).exit = 0 ↔
      ∃ module, Module.parse source = .ok module
  checks :
    ∀ printout,
      ((ofPrintout file printout).run (.ok source)).exit = 0 ↔
        ∃ module, Module.parse source = .ok module ∧ module.Valid
  parses_of_checks :
    ∀ printout,
      ((ofPrintout file printout).run (.ok source)).exit = 0 →
        ((parse file).run (.ok source)).exit = 0
  lexes_of_parses :
    ((parse file).run (.ok source)).exit = 0 →
      ((lex file).run (.ok source)).exit = 0
  refuses :
    ∀ printout,
      ((ofPrintout file printout).run (.ok source)).exit ≠ 0 →
        ((ofPrintout file printout).run (.ok source)).stdout = "" ∧
          Refuses draw file source
            (((ofPrintout file printout).run (.ok source)).stderr draw)
  rewrites :
    ((emit file).run (.ok source)).exit = 0 →
      ∀ written, ((emit file).run (.ok source)).stdout = written →
        ∀ other,
          (emit other).run (.ok written) = .success written ∧
            (check other true).run (.ok written) =
              (check file true).run (.ok source)

/-- The exit status of each command is a matter of the source alone, and the
commands agree.  A check that fails says why and prints nothing; what a check
writes out is written out again as it is, and dumped as the source was. -/
theorem verdicts_agree (draw : Report → String → String)
    (file source : String) : Verdicts draw file source := by
  have lexes := runLex_exit_eq_zero_iff file source
  have parses := runParse_exit_eq_zero_iff file source
  have checks (printout : Printout) :
      ((ofPrintout file printout).run (.ok source)).exit = 0 ↔
        ∃ module, Module.parse source = .ok module ∧ module.Valid := by
    rw [run_ofPrintout]
    exact runCheck_exit_eq_zero_iff
  refine
    { lexes := lexes
      parses := parses
      checks := checks
      parses_of_checks := ?_
      lexes_of_parses := ?_
      refuses := ?_
      rewrites := ?_ }
  · intro printout succeeded
    obtain ⟨module, parsed, _⟩ := (checks printout).mp succeeded
    exact parses.mpr ⟨module, parsed⟩
  · intro succeeded
    obtain ⟨module, parsed⟩ := parses.mp succeeded
    exact lexes.mpr (Module.exists_tokenize_of_parse parsed)
  · intro printout failed
    have invalid (module : Module)
        (parsed : Module.parse source = .ok module) : ¬ module.Valid :=
      fun valid => failed ((checks printout).mpr ⟨module, parsed, valid⟩)
    obtain ⟨notices, failure, refuses⟩ :=
      runCheck_of_not_valid printout file invalid
    rw [run_ofPrintout, failure]
    exact ⟨rfl, refuses draw⟩
  · rintro succeeded written rfl other
    obtain ⟨module, parsed, valid⟩ := (checks .source).mp succeeded
    obtain ⟨again, parsedAgain, validAgain, sameText, sameTree⟩ :=
      valid.exists_rewritten parsed
    have emitted : (emit file).run (.ok source) = .success module.source :=
      runCheck_of_valid parsed valid
    rw [emitted]
    refine ⟨?_, ?_⟩
    · refine (runCheck_of_valid parsedAgain validAgain).trans ?_
      exact congrArg Outcome.success sameText
    · refine (runCheck_of_valid parsedAgain validAgain).trans ?_
      refine Eq.trans ?_ (runCheck_of_valid parsed valid).symm
      exact congrArg (fun tree => Outcome.success tree.dump) sameTree

theorem verdicts_agree_cramped :
    (emit "f").run (.ok "module M\x7ba=B(int*)\x7d") =
        .success "module M \x7b\n    a = B(int*)\n\x7d\n" ∧
      (emit "g").run (.ok "module M \x7b\n    a = B(int*)\n\x7d\n") =
        .success "module M \x7b\n    a = B(int*)\n\x7d\n" ∧
      ((check "f" false).run (.ok "module M\x7ba=B(c)\x7d")).stdout = "" ∧
      ((check "f" false).run (.ok "module M\x7ba=B(c)\x7d")).stderr
          (fun report _ => report.message ++ "\n") =
        "undefined type `c` in `a`\n1 error(s) in f\n" ∧
      Refuses (fun report _ => report.message ++ "\n") "f"
        "module M\x7ba=B(c)\x7d"
        "undefined type `c` in `a`\n1 error(s) in f\n" := by
  have emitted :
      (emit "f").run (.ok "module M\x7ba=B(int*)\x7d") =
        .success "module M \x7b\n    a = B(int*)\n\x7d\n" := by
    decide +kernel
  have emittedAgain :=
    (verdicts_agree (fun _ _ => "") "f" "module M\x7ba=B(int*)\x7d").rewrites
      (congrArg Outcome.exit emitted) _ (congrArg Outcome.stdout emitted) "g"
  have failed :
      ((check "f" false).run (.ok "module M\x7ba=B(c)\x7d")).exit ≠ 0 := by
    decide +kernel
  have written :
      ((check "f" false).run (.ok "module M\x7ba=B(c)\x7d")).stderr
          (fun report _ => report.message ++ "\n") =
        "undefined type `c` in `a`\n1 error(s) in f\n" := by
    decide +kernel
  obtain ⟨silent, refuses⟩ :=
    (verdicts_agree (fun report _ => report.message ++ "\n") "f"
      "module M\x7ba=B(c)\x7d").refuses .summary failed
  exact ⟨emitted, emittedAgain.1, silent, written, written ▸ refuses⟩

end Command

end Asdl
