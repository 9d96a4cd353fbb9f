import FlatClosure.Proofs.Folding
import FlatClosure.Proofs.Machine
import FlatClosure.Proofs.Shape

/-!
# Converters in use

A `ConversionRun` converts in place: its counter and its lists change with every closure that is
lifted, and they stay changed when a later closure makes the conversion fail.  Still, no conversion
shows anything of those before it, or of its own failure.

* `ConversionRun.tracks_convertFun` : the converter takes the steps of `convert`, and has, as long
  as these succeed, noted what they have lifted.
* `ConversionRun.convertInPlace_cases` : what a conversion in place leaves behind, whatever the
  converter was used for before.
* `outcomes_eq_alone` : **each step of a converter shows what it shows of a new converter, and a
  conversion that fails changes nothing.**
-/

namespace FlatClosure

variable {α β : Type}

/-! ### Steps -/

/-- What a converter has in hand when the conversion is in the given state. -/
def Lifting.progress (st : Lifting) : Progress where
  run :=
    { counter := st.counter
      classNames := (Artifacts.ofLifted st.lifted).classNames
      arities := (Artifacts.ofLifted st.lifted).arities }
  classes := st.lifted.map (·.cls)
  inits := st.inits

/-- How a step of a converter ends where a step of the conversion ends.  Of a step that fails only
the error counts. -/
inductive Follows :
    Except ConversionError α × Progress → Except ConversionError (α × Lifting) → Prop
  | ok (a : α) (st : Lifting) : Follows (.ok a, st.progress) (.ok (a, st))
  | error (e : ConversionError) (left : Progress) : Follows (.error e, left) (.error e)

namespace Follows

variable {P : Progress} {st : Lifting} {f : α → RunM β} {g : α → ConvertM β}

theorem lift (x : Except ConversionError α) (h : ∀ a, Follows ((f a).run P) ((g a).run st)) :
    Follows ((liftM x >>= f).run P) ((liftM x >>= g).run st) := by
  cases x with
  | error e => exact .error e P
  | ok a => exact h a

theorem get_left {f : Progress → RunM β} {r : Except ConversionError (β × Lifting)}
    (h : Follows ((f P).run P) r) : Follows ((get >>= f).run P) r := h

theorem get_right {g : Lifting → ConvertM β} {r : Except ConversionError β × Progress}
    (h : Follows r ((g st).run st)) : Follows r ((get >>= g).run st) := h

theorem modifyGet_left {u : Progress → α × Progress} {r : Except ConversionError (β × Lifting)}
    (h : Follows ((f (u P).1).run (u P).2) r) : Follows ((modifyGet u >>= f).run P) r := h

/-- Noting a closure that has been lifted. -/
theorem noted (st : Lifting) (n : Nat) (l : Lifted) :
    Follows
      (.ok l.creation,
        { run := { st.progress.run with counter := n }.record l.cls.name l.arity
          classes := st.progress.classes ++ [l.cls]
          inits := setInit l.slot st.inits })
      (.ok (l.creation, ⟨n, st.lifted ++ [l], setInit l.slot st.inits⟩)) := by
  have step := Follows.ok l.creation ⟨n, st.lifted ++ [l], setInit l.slot st.inits⟩
  simpa [Lifting.progress, ConversionRun.record, Artifacts.ofLifted] using step

end Follows

/-- The converter does what the conversion does. -/
def Tracks (x : RunM α) (y : ConvertM α) : Prop :=
  ∀ st, Follows (x.run st.progress) (y.run st)

namespace Tracks

theorem pure (a : α) : Tracks (pure a) (pure a) := fun st => .ok a st

theorem throw (e : ConversionError) : Tracks (throw e : RunM α) (throw e) :=
  fun st => .error e st.progress

theorem bind {x : RunM α} {y : ConvertM α} {f : α → RunM β} {g : α → ConvertM β}
    (hx : Tracks x y) (hf : ∀ a, Tracks (f a) (g a)) : Tracks (x >>= f) (y >>= g) := by
  intro st
  have first := hx st
  rw [run_bind, StateT.run_bind]
  generalize x.run st.progress = r, y.run st = r' at first
  cases first with
  | ok a st' => exact hf a st'
  | error e left => exact .error e left

theorem mapM {f : α → RunM β} {g : α → ConvertM β} (h : ∀ a, Tracks (f a) (g a)) (as : List α) :
    Tracks (as.mapM f) (as.mapM g) := by
  induction as with
  | nil => exact .pure _
  | cons a as ih =>
    rw [List.mapM_cons, List.mapM_cons]
    exact .bind (h a) fun _ => .bind ih fun _ => .pure _

end Tracks

namespace ConversionRun

variable (names : Conventions) (globals : List String)

/-- Lifting a closure. -/
theorem tracks_liftClosure (params : List Param) (c : FunDef) :
    Tracks (liftClosure names globals params c)
      (FlatClosure.liftClosure names globals params c) := by
  intro st
  unfold liftClosure FlatClosure.liftClosure
  refine .get_right (.lift (collectReads c) fun reads => .get_left ?_)
  refine .lift (classify c reads ⟨params, st.inits⟩ globals) fun captures => .modifyGet_left ?_
  refine .lift (substituteCaptures _ c.body) fun body => ?_
  exact .noted st _ (lift { c with body } _ captures _ names)

theorem tracks_convertFun (f : FunDef) :
    Tracks (convertFun names globals f) (FlatClosure.convertFun names globals f) := by
  -- the two traversals differ in what they do at a closure only
  have law : FoldLaw (m := RunM) (n := ConvertM) Tracks
      (liftingFolder f.name (liftClosure names globals f.params))
      (convertFolder names globals f.name f.params) :=
    { pure := .pure
      bind := .bind
      stmt := fun s => by
        cases s with
        | closure c => exact .bind (tracks_liftClosure names globals f.params c) fun _ => .pure _
        | _ => exact .pure _
      expr := fun e => by
        cases e with
        | lambda => exact .throw _
        | _ => exact .pure _
      write := .pure
      within := fun xs _ x y h => by
        rwa [(silent_liftingFolder _ _).within_eq xs (tryFinally_exceptT x), convertFolder,
          (silent_liftingFolder _ _).within_eq xs (tryFinally_stateT y)] }
  have setInits : Tracks (modify fun st => { st with inits := f.inits })
      (modify fun st => { st with inits := f.inits }) :=
    fun st => .ok () { st with inits := f.inits }
  have getInits (body : List Stmt) : Tracks
      (do return { f with body, inits := (← get).inits })
      (do return { f with body, inits := (← get).inits }) :=
    fun st => Follows.ok ({ f with body, inits := st.inits } : FunDef) st
  exact .bind setInits fun _ => .bind (law.foldBlock f.body) getInits

/-- **What a conversion in place does.**  It answers what `convert` answers.  If it succeeds, the
converter has the artifacts.  If it fails, the converter is as good as new and the program has not
changed. -/
theorem convertInPlace_cases (run : ConversionRun) (p : Program) :
    (∃ e, FlatClosure.convert names p = .error e ∧
        run.convertInPlace names p = (.error e, {}, p)) ∨
      ∃ q artifacts n, FlatClosure.convert names p = .ok (q, artifacts) ∧
        run.convertInPlace names p =
          (.ok (), ⟨n, artifacts.classNames, artifacts.arities⟩, q) := by
  unfold convertInPlace convertAll FlatClosure.convert
  cases (methodError? p.classes).or (topLevelError? p.stmts) with
  | some e => exact .inl ⟨e, rfl, rfl⟩
  | none =>
    -- whatever the converter was used for, it starts from the state in which `convert` starts
    have start : (⟨run.reset, [], []⟩ : Progress) = Lifting.progress {} := rfl
    have walk := Tracks.mapM (tracks_convertFun names p.globalNames) p.funs {}
    dsimp only
    rw [start, run_bind]
    generalize (p.funs.mapM (convertFun names p.globalNames)).run (Lifting.progress {}) = r,
      (p.funs.mapM (FlatClosure.convertFun names p.globalNames)).run {} = r' at walk
    cases walk with
    | error e left => exact .inl ⟨e, rfl, rfl⟩
    | ok funs st => exact .inr ⟨_, _, st.counter, rfl, rfl⟩

end ConversionRun

/-! ### Histories -/

/-- What can be done with a converter. -/
inductive RunStep where
  | convert (names : Conventions) (p : Program)
  | reset

/-- What can be seen of a step. -/
inductive RunOutcome where
  /-- A conversion: how it ended, the program that it left, and the artifacts of the converter. -/
  | converted (result : Except ConversionError Unit) (left : Program) (artifacts : Artifacts)
  | reset (artifacts : Artifacts)

/-- Take the step. -/
def RunStep.perform (run : ConversionRun) : RunStep → RunOutcome × ConversionRun
  | .convert names p =>
    let (result, run, left) := run.convertInPlace names p
    (.converted result left run.artifacts, run)
  | .reset => (.reset run.reset.artifacts, run.reset)

/-- What can be seen of the steps, each taken by the converter that the last one left. -/
def outcomes : ConversionRun → List RunStep → List RunOutcome
  | _, [] => []
  | run, step :: steps => (step.perform run).1 :: outcomes (step.perform run).2 steps

/-- What can be seen of the step if a new converter takes it. -/
def RunStep.alone (step : RunStep) : RunOutcome := (step.perform {}).1

/-- What can be seen of a conversion with the given answer. -/
def RunOutcome.ofAnswer (p : Program) : Except ConversionError (Program × Artifacts) → RunOutcome
  | .ok (q, artifacts) => .converted (.ok ()) q artifacts
  | .error e => .converted (.error e) p {}

theorem RunStep.perform_convert (run : ConversionRun) (names : Conventions) (p : Program) :
    ((convert names p).perform run).1 = .ofAnswer p (FlatClosure.convert names p) := by
  rcases run.convertInPlace_cases names p with ⟨e, answer, left⟩ | ⟨q, a, n, answer, left⟩
  · rw [perform, answer, left]
    rfl
  · rw [perform, answer, left]
    rfl

theorem RunStep.fst_perform (run : ConversionRun) (step : RunStep) :
    (step.perform run).1 = step.alone := by
  cases step with
  | convert names p => exact (perform_convert run names p).trans (perform_convert {} names p).symm
  | reset => rfl

/-- **Conversions do not depend on what the converter was used for, and change nothing when they
fail.**  Whatever a converter has done, each of its steps shows what it shows of a new converter; of
a conversion that is the answer of `convert`.  After a conversion that fails, wherever it fails, the
program is the one it was given and the converter has no artifacts. -/
theorem outcomes_eq_alone (run : ConversionRun) (steps : List RunStep) :
    outcomes run steps = steps.map RunStep.alone ∧
      (∀ names p, (RunStep.convert names p).alone = .ofAnswer p (convert names p)) ∧
      ∀ (i : Nat) names p e left artifacts, steps[i]? = some (RunStep.convert names p) →
        (outcomes run steps)[i]? = some (RunOutcome.converted (.error e) left artifacts) →
        left = p ∧ artifacts = {} := by
  have alone : outcomes run steps = steps.map RunStep.alone := by
    induction steps generalizing run with
    | nil => rfl
    | cons step steps ih => rw [outcomes, ih, step.fst_perform run, List.map_cons]
  refine ⟨alone, RunStep.perform_convert {}, fun i names p e left artifacts hi ho => ?_⟩
  rw [alone, List.getElem?_map, hi, Option.map_some, RunStep.alone, RunStep.perform_convert] at ho
  cases answer : convert names p with
  | error e' =>
    rw [answer] at ho
    cases ho
    exact ⟨rfl, rfl⟩
  | ok qa =>
    rw [answer] at ho
    cases ho

/-- The program of `adderProgram` with a second function, whose closure writes a variable that it
captures. -/
def counterProgram : Program :=
  { adderProgram with
    funs := adderProgram.funs ++
      [{ name := "counter"
         params := [⟨"n", .int⟩]
         ret := .none
         inits := []
         body :=
          [.closure
            { name := "bump"
              params := []
              ret := .none
              inits := []
              body := [.assign "n" (.binary .add (.id "n" .dummy) (.literal (.num 1)))]
              span := .dummy }]
         span := .dummy }] }

theorem outcomes_eq_alone_counter :
    ((ConversionRun.convertAll {} counterProgram).run ⟨{}, [], []⟩).2.run =
        ⟨2, ["Clo_0_add"], [1]⟩ ∧
      outcomes ⟨7, ["Clo_6_f"], [3]⟩
          [.convert {} counterProgram, .convert {} adderProgram, .reset] =
        [.converted (.error (.capturedWrite "n" "bump" .dummy)) counterProgram {},
          .converted (.ok ()) (adderProgram.converted {}) ⟨["Clo_0_add"], [1]⟩, .reset {}] :=
  ⟨rfl, (outcomes_eq_alone ⟨7, ["Clo_6_f"], [3]⟩ _).1⟩

end FlatClosure
