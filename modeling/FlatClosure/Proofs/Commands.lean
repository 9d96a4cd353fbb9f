import FlatClosure.Command.Execute

/-!
# Commands on files

The commands are looked at on files as a value.  `FileTree.perform` gives what a part of a command
ends with and the files it leaves, and `FileTree.execute` does so for a whole command.  Settings and
programs are read without a change of files (`FileTree.looks_loadSettings`).  Only `lower` with an
output file changes them, and what it writes is what is read from there afterwards
(`FileTree.read?_write?`).
-/

namespace FlatClosure

/-! ### Files that were written -/

namespace FileTree

theorem lookup_setFile (name : List String) (text : String) (fs : List (List String × String)) :
    (setFile name text fs).lookup name = some text := by
  induction fs with
  | nil => simp [setFile]
  | cons f fs ih =>
    obtain ⟨n, s⟩ := f
    rw [setFile]
    split
    · next h => simp [h]
    · next h =>
      have other : (name == n) = false := beq_false_of_ne (Ne.symm h)
      rw [List.lookup_cons, other, ih]

/-- Every file that is kept is still there when a text has been written, with the same name. -/
theorem mem_setFile {name : List String} {text : String} {fs : List (List String × String)}
    {f : List String × String} (h : f ∈ fs) : ∃ g ∈ setFile name text fs, g.1 = f.1 := by
  induction fs with
  | nil => exact absurd h (List.not_mem_nil)
  | cons f' fs ih =>
    rw [setFile]
    rcases List.mem_cons.1 h with rfl | h
    · split
      · exact ⟨_, List.mem_cons_self, rfl⟩
      · exact ⟨_, List.mem_cons_self, rfl⟩
    · split
      · exact ⟨f, List.mem_cons_of_mem _ h, rfl⟩
      · obtain ⟨g, hg, hn⟩ := ih h
        exact ⟨g, List.mem_cons_of_mem _ hg, hn⟩

/-- A directory remains one when a text is written. -/
theorem isDirectory_setFile {t : FileTree} {name dir : List String} {text : String}
    (h : t.isDirectory dir = true) :
    isDirectory { t with files := setFile name text t.files } dir = true := by
  simp only [isDirectory, Bool.or_eq_true, List.any_eq_true] at h ⊢
  refine h.imp_right fun ⟨f, hf, below⟩ => ?_
  obtain ⟨g, hg, same⟩ := mem_setFile hf
  exact ⟨g, hg, by rwa [same]⟩

theorem enter_setFile {t : FileTree} {name dir dir' : List String} {text part : String}
    (h : t.enter dir part = some dir') :
    enter { t with files := setFile name text t.files } dir part = some dir' := by
  rw [enter] at h ⊢
  cases isDir : t.isDirectory dir with
  | false => simp [isDir] at h
  | true =>
    rw [isDir] at h
    rwa [isDirectory_setFile isDir]

/-- A path goes where it went before a text was written. -/
theorem foldlM_enter_setFile {t : FileTree} {name dir dir' : List String} {text : String}
    {ps : List String} (h : ps.foldlM t.enter dir = some dir') :
    ps.foldlM (enter { t with files := setFile name text t.files }) dir = some dir' := by
  induction ps generalizing dir with
  | nil => exact h
  | cons part ps ih =>
    obtain ⟨next, entered, rest⟩ := Option.bind_eq_some_iff.1 h
    exact Option.bind_eq_some_iff.2 ⟨next, enter_setFile entered, ih rest⟩

theorem resolve_setFile {t : FileTree} {name name' : List String} {text path : String}
    (h : t.resolve path = some name') :
    resolve { t with files := setFile name text t.files } path = some name' := by
  rw [resolve] at h ⊢
  split at h
  · cases h
  · next short => rw [if_neg short, foldlM_enter_setFile h]

/-- **What is written to a file is read from it**, unless it is a device. -/
theorem read?_write? {t t' : FileTree} {path text : String}
    (file : (t.resolve path).bind device? = none) (h : t.write? path text = some t') :
    t'.read? path = some text := by
  obtain ⟨name, resolved, written⟩ := Option.bind_eq_some_iff.1 h
  rw [resolved, Option.bind_some] at file
  simp only [file] at written
  split at written
  · cases written
  · cases written
    rw [read?, resolve_setFile resolved, Option.bind_some, file]
    exact lookup_setFile name text t.files

end FileTree

/-! ### Commands on files -/

namespace FileTree

variable {α β : Type} {t t' : FileTree}

/-- What a part of a command ends with, and the files it leaves. -/
def perform (t : FileTree) (x : Action (StateM FileTree) α) : Except Outcome α × FileTree :=
  x.run.run t

/-- What a command ends with, and the files it leaves. -/
def execute (t : FileTree) (fuel : Nat) (inv : Invocation) : Outcome × FileTree :=
  (FlatClosure.execute access fuel inv).run t

theorem perform_bind {x : Action (StateM FileTree) α} {f : α → Action (StateM FileTree) β} {a : α}
    (h : t.perform x = (.ok a, t')) : t.perform (x >>= f) = t'.perform (f a) := by
  simp only [perform, ExceptT.run_bind, StateT.run_bind] at h ⊢
  rw [h]
  rfl

theorem perform_bind_error {x : Action (StateM FileTree) α} {f : α → Action (StateM FileTree) β}
    {o : Outcome} (h : t.perform x = (.error o, t')) : t.perform (x >>= f) = (.error o, t') := by
  simp only [perform, ExceptT.run_bind, StateT.run_bind] at h ⊢
  rw [h]
  rfl

theorem perform_needFile (path : String) (f : Failure) :
    t.perform (needFile access path f) = ((t.read? path).elim (.error f.outcome) .ok, t) := by
  have looked : t.perform (liftM (access.read? path)) = (.ok (t.read? path), t) := rfl
  refine (perform_bind looked).trans ?_
  cases t.read? path with
  | none => rfl
  | some text => rfl

/-- A part of a command leaves the files as they are. -/
def Looks (t : FileTree) (x : Action (StateM FileTree) α) : Prop := (t.perform x).2 = t

theorem Looks.bind {x : Action (StateM FileTree) α} {f : α → Action (StateM FileTree) β}
    (hx : t.Looks x) (hf : ∀ a, t.Looks (f a)) : t.Looks (x >>= f) := by
  rw [Looks] at hx
  rcases h : t.perform x with ⟨r, t'⟩
  rw [h] at hx
  obtain rfl : t' = t := hx
  cases r with
  | error o => rw [Looks, perform_bind_error h]
  | ok a => rw [Looks, perform_bind h]; exact hf a

theorem looks_readSettings (path : String) : t.Looks (readSettings access path) := by
  have read : t.Looks (needFile access path (.settingsUnreadable path)) := by
    rw [Looks, perform_needFile]
  refine read.bind fun text => ?_
  cases Conventions.ofText? text with
  | none => rfl
  | some c =>
    cases h : c.check with
    | error e => simp only [h]; rfl
    | ok c => simp only [h]; rfl

theorem looks_loadSettings (config : Option String) : t.Looks (loadSettings access config) := by
  cases config with
  | some path => exact looks_readSettings path
  | none =>
    have found : t.Looks (liftM (access.present settingsFile)) := rfl
    refine found.bind fun present => ?_
    cases present with
    | false => rfl
    | true => exact looks_readSettings settingsFile

/-- The settings that a command finds. -/
def settings (t : FileTree) (config : Option String) : Except Outcome Conventions :=
  (t.perform (loadSettings access config)).1

theorem perform_loadSettings {config : Option String} {names : Conventions}
    (h : t.settings config = .ok names) :
    t.perform (loadSettings access config) = (.ok names, t) :=
  Prod.ext h (looks_loadSettings config)

/-- The program of a file is the one that its text writes. -/
theorem perform_readProgram {path text : String} (h : t.read? path = some text) :
    t.perform (readProgram access path) =
      ((Program.ofText? text).elim (.error (Failure.notProgram path).outcome) .ok, t) := by
  have read := t.perform_needFile path (.unreadable path)
  rw [h] at read
  rw [readProgram, perform_bind read]
  cases Program.ofText? text with
  | none => rfl
  | some p => rfl

theorem perform_convertOrReport {format : Format} {source : Option String} {names : Conventions}
    {p : Program} {r : Program × Artifacts} (h : convert names p = .ok r) :
    t.perform (convertOrReport access format source names p) = (.ok r, t) := by
  rw [convertOrReport, h]
  rfl

/-- The outcome of a command, whether it came to its end or was ended before. -/
def ended : Except Outcome Outcome → Outcome
  | .ok o | .error o => o

theorem execute_run {fuel : Nat} {inv : Invocation} {input : String} {convert : Bool}
    {maxDepth : Nat} {source : Option String} {r : Except Outcome Outcome}
    (h : t.perform (runProgram access inv fuel input convert maxDepth source) = (r, t'))
    (command : inv.command = .run input convert maxDepth source) :
    t.execute fuel inv = (ended r, t') := by
  rw [perform] at h
  rw [execute, FlatClosure.execute, command, StateT.run_bind, h]
  cases r with
  | error o => rfl
  | ok o => rfl

theorem execute_lower {fuel : Nat} {inv : Invocation} {input : String} {output : Option String}
    {artifacts diff : Bool} {source : Option String} {r : Except Outcome Outcome}
    (h : t.perform (lower access inv input output artifacts diff source) = (r, t'))
    (command : inv.command = .lower input output artifacts diff source) :
    t.execute fuel inv = (ended r, t') := by
  rw [perform] at h
  rw [execute, FlatClosure.execute, command, StateT.run_bind, h]
  cases r with
  | error o => rfl
  | ok o => rfl

end FileTree

/-- How a run ends, as it is reported of a file. -/
def runReport (format : Format) (path : String) : Except Stop String → Outcome
  | .error stop => (Failure.evaluation path stop).outcome
  | .ok text =>
    match format with
    | .text => { out := text }
    | .json => { out := (Json.obj [("output", .str text)]).compact ++ "\n" }

namespace FileTree

variable {t : FileTree} {inv : Invocation} {fuel maxDepth : Nat} {input text : String}
  {source : Option String} {names : Conventions} {p q : Program} {a : Artifacts}

/-- A run ends as it does for the program that was made ready for it. -/
theorem perform_runProgram (inv : Invocation) (lowered : Bool)
    (hnames : t.settings inv.config = .ok names)
    (read : t.perform (readProgram access input) = (.ok p, t))
    (ready : t.perform (if lowered then
      (·.1) <$> convertOrReport access inv.format source names p else pure p) = (.ok q, t)) :
    ∃ r, t.perform (runProgram access inv fuel input lowered maxDepth source) = (r, t) ∧
      ended r = runReport inv.format input (Context.run ⟨q, names, maxDepth⟩ fuel) := by
  have next (f : Program → Action (StateM FileTree) Outcome) :
      t.perform (if lowered then
        (·.1) <$> convertOrReport access inv.format source names p >>= f else pure p >>= f) =
          t.perform (f q) := by
    cases lowered with
    | false => exact perform_bind ready
    | true => exact perform_bind ready
  rw [runProgram, perform_bind (perform_loadSettings hnames), perform_bind read, next]
  dsimp only
  cases Context.run ⟨q, names, maxDepth⟩ fuel with
  | error stop => exact ⟨.error _, rfl, rfl⟩
  | ok text =>
    cases inv.format with
    | text => exact ⟨.ok _, rfl, rfl⟩
    | json => exact ⟨.ok _, rfl, rfl⟩

/-- A program that is converted and then run. -/
theorem execute_run_converted (hnames : t.settings inv.config = .ok names)
    (hread : t.read? input = some text) (hp : Program.ofText? text = some p)
    (hq : convert names p = .ok (q, a)) :
    t.execute fuel { inv with command := .run input true maxDepth source } =
      (runReport inv.format input (Context.run ⟨q, names, maxDepth⟩ fuel), t) := by
  have read := perform_readProgram hread
  rw [hp] at read
  have ready : t.perform ((·.1) <$> convertOrReport access inv.format source names p) =
      (.ok q, t) := by
    rw [map_eq_pure_bind, perform_bind (perform_convertOrReport hq)]
    rfl
  obtain ⟨r, performed, report⟩ := perform_runProgram
    { inv with command := .run input true maxDepth source } true hnames read ready
  rw [execute_run performed rfl, report]

/-- A program that is run as it is, if it can be read. -/
theorem execute_run_as_is (hnames : t.settings inv.config = .ok names)
    (hread : t.read? input = some text) :
    t.execute fuel { inv with command := .run input false maxDepth source } =
      ((Program.ofText? text).elim (Failure.notProgram input).outcome fun p =>
        runReport inv.format input (Context.run ⟨p, names, maxDepth⟩ fuel), t) := by
  have read := perform_readProgram hread
  cases hp : Program.ofText? text with
  | none =>
    rw [hp] at read
    have refused : t.perform (runProgram access
        { inv with command := .run input false maxDepth source } fuel input false maxDepth source) =
          (.error (Failure.notProgram input).outcome, t) := by
      rw [runProgram, perform_bind (perform_loadSettings hnames), perform_bind_error read]
    rw [execute_run refused rfl]
    rfl
  | some p =>
    rw [hp] at read
    obtain ⟨r, performed, report⟩ := perform_runProgram
      { inv with command := .run input false maxDepth source } false hnames read rfl
    rw [execute_run performed rfl, report]
    rfl

theorem perform_write {t' : FileTree} {path : String} (h : t.write? path text = some t') :
    t.perform (liftM (access.write path text)) = (.ok true, t') := by
  have stored : (access.write path text).run t = (true, t') := by
    simp only [access, StateT.run_bind, StateT.run_get, pure_bind, h]
    rfl
  change (Except.ok ((access.write path text).run t).1, ((access.write path text).run t).2) = _
  rw [stored]

/-- A program that is converted is written to the standard output or to a file. -/
theorem perform_lower (inv : Invocation) (diff : Bool)
    (hnames : t.settings inv.config = .ok names) (hread : t.read? input = some text)
    (hp : Program.ofText? text = some p) (hq : convert names p = .ok (q, a)) :
    t.perform (lower access inv input none false diff source) =
        (.ok { out := loweredText q a false ++ "\n"
               err := if diff then lineDiff p.render q.render else "" }, t) ∧
      ∀ output t', t.write? output (loweredText q a false ++ "\n") = some t' →
        ∃ o, t.perform (lower access inv input (some output) false diff source) = (.ok o, t') ∧
          o.exit = 0 := by
  have read := perform_readProgram hread
  rw [hp] at read
  refine ⟨?_, fun output t' written => ?_⟩
  all_goals rw [lower, perform_bind (perform_loadSettings hnames), perform_bind read,
    perform_bind (perform_convertOrReport hq)]
  · rfl
  · dsimp only
    rw [perform_bind (perform_write written)]
    cases inv.quiet || inv.format == .json with
    | false => exact ⟨_, rfl, rfl⟩
    | true => exact ⟨_, rfl, rfl⟩

end FileTree

end FlatClosure
