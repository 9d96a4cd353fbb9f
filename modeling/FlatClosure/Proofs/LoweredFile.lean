import FlatClosure.Proofs.Commands
import FlatClosure.Proofs.Nesting
import FlatClosure.Proofs.Shape
import FlatClosure.Proofs.TreeText

/-!
# Lowering to a file

A program that is lowered to a file can be run from there without converting it again.  The reader
has a limit on nesting, and a closure that is written with as many levels as the limit allows is
replaced by a call of its class, which takes one level more.  So a lowered program may be refused by
the reader (`lowered_file_refused`), but only if the text that it comes from used up the limit
(`Program.depth_converted_le`).  Where it is not refused, running it is running the program it comes
from (`lowered_file_runs_alike`).
-/

namespace FlatClosure

/-- What is written of a program that was read with a limit takes at most one level more. -/
theorem Program.depth_converted_le {names : Conventions} {limit : Nat} {text : String} {j : Json}
    {p q : Program} {a : Artifacts}
    (hj : Json.read? Program.shape (some limit) text = some j) (hp : Program.ofJson? j = some p)
    (hq : convert names p = .ok (q, a)) : q.toJson.depth ≤ limit + 1 := by
  obtain ⟨errors, rfl, -⟩ := (convert_eq_ok names).1 hq
  have fits := Program.fits_of_ofJson? j p hp
  exact Nat.le_trans (Program.depth_converted names fits errors)
    (Nat.succ_le_succ (Json.seen_le_of_read? hj))

/-- **Running a lowered file is running the program it comes from.**  A program whose conversion
succeeds is written as a text that the reader takes for the converted program, if the text keeps to
the limit on nesting.  It does so if the program's own text leaves one level unused, and it never
exceeds the limit by more than one level.  Wherever the lowered text is put, with the same settings,
running it as it is ends as running the program does, with the same output or the same evaluation
error; only the path named with the error is that of the file. -/
theorem lowered_file_runs_alike (t : FileTree) (inv : Invocation) {input text : String}
    {names : Conventions} {p q : Program} {a : Artifacts}
    (hnames : t.settings inv.config = .ok names) (hread : t.read? input = some text)
    (hp : Program.ofText? text = some p) (hq : convert names p = .ok (q, a)) :
    (∀ fuel diff source,
      t.execute fuel { inv with command := .lower input none false diff source } =
        ({ out := loweredText q a false ++ "\n"
           err := if diff then lineDiff p.render q.render else "" }, t)) ∧
      (∀ output t', t.write? output (loweredText q a false ++ "\n") = some t' →
        (∀ fuel diff source, ∃ o, o.exit = 0 ∧
          t.execute fuel { inv with command := .lower input (some output) false diff source } =
            (o, t')) ∧
        ((t.resolve output).bind FileTree.device? = none →
          t'.read? output = some (loweredText q a false ++ "\n"))) ∧
      Program.ofText? (loweredText q a false ++ "\n") =
        (if q.toJson.depth ≤ nestingLimit then some q else none) ∧
      q.toJson.depth ≤ nestingLimit + 1 ∧
      ((Json.read? Program.shape (some (nestingLimit - 1)) text).isSome →
        q.toJson.depth ≤ nestingLimit) ∧
      ∀ output (t' : FileTree), t'.read? output = some (loweredText q a false ++ "\n") →
        t'.settings inv.config = .ok names → ∀ fuel maxDepth source,
          t.execute fuel { inv with command := .run input true maxDepth source } =
            (runReport inv.format input (Context.run ⟨q, names, maxDepth⟩ fuel), t) ∧
          t'.execute fuel { inv with command := .run output false maxDepth source } =
            (if q.toJson.depth ≤ nestingLimit then
              runReport inv.format output (Context.run ⟨q, names, maxDepth⟩ fuel)
            else (Failure.notProgram output).outcome, t') := by
  obtain ⟨j, hj, hpj⟩ := Option.bind_eq_some_iff.1 hp
  have readBack : Program.ofText? (loweredText q a false ++ "\n") =
      if q.toJson.depth ≤ nestingLimit then some q else none := q.ofText?_toJson
  refine ⟨fun fuel diff source => ?_,
    fun output t' written => ⟨fun fuel diff source => ?_, fun file =>
      FileTree.read?_write? file written⟩,
    readBack, Program.depth_converted_le hj hpj hq, fun shallow => ?_,
    fun output t' hout same fuel maxDepth source =>
      ⟨FileTree.execute_run_converted hnames hread hp hq, ?_⟩⟩
  · obtain ⟨performed, -⟩ := FileTree.perform_lower
      { inv with command := .lower input none false diff source } diff hnames hread hp hq
    exact FileTree.execute_lower performed rfl
  · obtain ⟨-, toFile⟩ := FileTree.perform_lower
      { inv with command := .lower input (some output) false diff source } diff hnames hread hp hq
    obtain ⟨o, performed, exit⟩ := toFile output t' written
    exact ⟨o, exit, FileTree.execute_lower performed rfl⟩
  · -- The program is the same with the smaller limit, as the reader only refuses because of it.
    obtain ⟨j', hj'⟩ := Option.isSome_iff_exists.1 shallow
    have same : j' = j := Option.some.inj ((Json.read?_le (by decide) hj').symm.trans hj)
    exact Program.depth_converted_le hj' (same ▸ hpj) hq
  · rw [FileTree.execute_run_as_is same hout, readBack]
    split
    · rfl
    · rfl

/-- The program of `adderProgram` in a file. -/
def adderFiles : FileTree := .ofList [("adder.json", adderProgram.toJson.indented ++ "\n")]

theorem lowered_file_runs_alike_adder :
    ∃ q a t', convert {} adderProgram = .ok (q, a) ∧
      adderFiles.write? "lowered.json" (loweredText q a false ++ "\n") = some t' ∧
      adderFiles.execute 4 ⟨.text, false, none, .run "adder.json" true 3 none⟩ =
        ({ out := "7\n" }, adderFiles) ∧
      t'.execute 4 ⟨.text, false, none, .run "lowered.json" false 3 none⟩ =
        ({ out := "7\n" }, t') := by
  have hread : adderFiles.read? "adder.json" = some (adderProgram.toJson.indented ++ "\n") := rfl
  have hp : Program.ofText? (adderProgram.toJson.indented ++ "\n") = some adderProgram := by
    rw [Program.ofText?_toJson]
    rfl
  obtain ⟨a, hq⟩ : ∃ a, convert {} adderProgram = .ok (adderProgram.converted {}, a) := ⟨_, rfl⟩
  obtain ⟨t', written, same⟩ : ∃ t' : FileTree,
      adderFiles.write? "lowered.json" (loweredText (adderProgram.converted {}) a false ++ "\n") =
        some t' ∧ t'.settings none = .ok {} := ⟨_, rfl, rfl⟩
  have printed : (Context.run ⟨adderProgram.converted {}, {}, 3⟩ 4).toOption = some "7\n" := by
    decide +kernel
  have output : Context.run ⟨adderProgram.converted {}, {}, 3⟩ 4 = .ok "7\n" := by
    revert printed
    cases Context.run ⟨adderProgram.converted {}, {}, 3⟩ 4 with
    | error stop => simp [Except.toOption]
    | ok text => simp [Except.toOption]
  have shallow : (adderProgram.converted {}).toJson.depth ≤ nestingLimit := by
    decide +kernel
  obtain ⟨-, files, -, -, -, runs⟩ :=
    lowered_file_runs_alike adderFiles ⟨.text, false, none, .explain ""⟩ rfl hread hp hq
  obtain ⟨direct, lowered⟩ := runs "lowered.json" t' ((files _ _ written).2 rfl) same 4 3 none
  rw [output] at direct
  rw [if_pos shallow, output] at lowered
  exact ⟨_, _, _, hq, written, direct, lowered⟩

/-- Statements inside of conditional statements, as many as given. -/
def Stmt.deepen (ss : List Stmt) : Nat → List Stmt
  | 0 => ss
  | n + 1 => [.ifElse (.literal (.bool true)) (Stmt.deepen ss n) []]

/-- A program whose closure is at the limit on nesting. -/
def deepProgram : Program where
  funs :=
    [{ name := "outer"
       params := []
       ret := .none
       inits := []
       body := Stmt.deepen
        [.closure
          { name := "inner"
            params := []
            ret := .none
            inits := []
            body := []
            span := .dummy }] 60
       span := .dummy }]
  stmts := [.expr (.builtin1 "print" (.literal (.str "done")))]

/-- The text of a program at the limit on nesting is read, and the program runs, but its lowered
text is refused. -/
theorem lowered_file_refused :
    Program.ofText? (deepProgram.toJson.indented ++ "\n") = some deepProgram ∧
      ∃ q a, convert {} deepProgram = .ok (q, a) ∧
        (Context.run ⟨q, {}, 3⟩ 4).toOption = some "done\n" ∧
        Program.ofText? (loweredText q a false ++ "\n") = none := by
  have errors : deepProgram.conversionErrors {} = [] := List.isEmpty_iff.1 (by decide +kernel)
  have hq := (convert_eq_ok {}).2 ⟨errors, rfl, rfl⟩
  have limit : deepProgram.toJson.depth = 127 := by decide +kernel
  have beyond : (deepProgram.converted {}).toJson.depth = 128 := by decide +kernel
  have printed : (Context.run ⟨deepProgram.converted {}, {}, 3⟩ 4).toOption = some "done\n" := by
    decide +kernel
  have refused : Program.ofText? ((deepProgram.converted {}).toJson.indented ++ "\n") = none := by
    rw [Program.ofText?_toJson, beyond]
    rfl
  refine ⟨?_, _, _, hq, printed, refused⟩
  rw [Program.ofText?_toJson, limit]
  rfl

end FlatClosure
