import FlatClosure.Source.Cache
import Mathlib.Algebra.Ring.Nat
import Mathlib.Data.Finset.Card

/-!
# Registering source files

Files are registered one after the other, and some of them again, with other spellings of their
paths or other texts.  The log of the registrations has each of them with the number that it
answered; `Registered` says how the log and the registered files go together.

* `SourceTables.addAll_empty` : **a table of files and a table of numbers stay inverse to each
  other**, and answer the same.
* `Registered.add` : one more registration keeps them together.
* `sources_consistent` : **a number stands for one path, for ever.**  Paths are numbered in the
  order in which they first come, the number gives the file as it was first registered, and no later
  registration changes where a span is.
-/

namespace FlatClosure

/-! ### Paths -/

theorem samePath_iff {a b : String} :
    samePath a b = true ↔ pathComponents a = pathComponents b := by
  rw [samePath, beq_iff_eq]

/-- The number of different paths. -/
def pathCount (fs : List SourceFile) : Nat :=
  (fs.map fun f => pathComponents f.path).toFinset.card

theorem toFinset_concat {α : Type} [DecidableEq α] (xs : List α) (x : α) :
    (xs ++ [x]).toFinset = insert x xs.toFinset := by
  ext y
  simp

theorem pathCount_concat_of_mem {fs : List SourceFile} {f g : SourceFile} (hg : g ∈ fs)
    (same : samePath g.path f.path = true) : pathCount (fs ++ [f]) = pathCount fs := by
  rw [pathCount, List.map_append, List.map_singleton, toFinset_concat, Finset.card_insert_of_mem]
  · rfl
  · rw [List.mem_toFinset, ← samePath_iff.1 same]
    exact List.mem_map_of_mem hg

theorem pathCount_concat_of_new {fs : List SourceFile} {f : SourceFile}
    (new : ∀ g ∈ fs, samePath g.path f.path = false) :
    pathCount (fs ++ [f]) = pathCount fs + 1 := by
  rw [pathCount, List.map_append, List.map_singleton, toFinset_concat,
    Finset.card_insert_of_notMem]
  · rfl
  · rw [List.mem_toFinset]
    intro mem
    obtain ⟨g, hg, same⟩ := List.mem_map.1 mem
    exact Bool.false_ne_true ((new g hg).symm.trans (samePath_iff.2 same))

/-! ### One registration -/

namespace SourceCache

/-- A path that is registered already keeps its number, and nothing changes; any other gets the next
number. -/
theorem add_cases (c : SourceCache) (f : SourceFile) :
    (∃ i g, c.file? i = some g ∧ samePath g.path f.path = true ∧
        c.add f.path f.source = (c, i)) ∨
      (∀ g ∈ c.files, samePath g.path f.path = false) ∧
        c.add f.path f.source = (⟨c.files ++ [f]⟩, c.files.length) := by
  rw [add]
  cases h : c.files.findIdx? fun g => samePath g.path f.path with
  | some i =>
    obtain ⟨lt, same, -⟩ := List.findIdx?_eq_some_iff_getElem.1 h
    exact .inl ⟨i, c.files[i], List.getElem?_eq_getElem lt, same, rfl⟩
  | none => exact .inr ⟨List.findIdx?_eq_none_iff.1 h, rfl⟩

theorem files_prefix_add (c : SourceCache) (f : SourceFile) :
    c.files <+: (c.add f.path f.source).1.files := by
  obtain ⟨i, g, -, -, added⟩ | ⟨-, added⟩ := c.add_cases f <;> rw [added]
  exact List.prefix_append _ _

theorem lt_of_file? {c : SourceCache} {i : Nat} {f : SourceFile} (h : c.file? i = some f) :
    i < c.files.length :=
  (List.getElem?_eq_some_iff.1 h).1

theorem file?_concat {c : SourceCache} {i : Nat} {f g : SourceFile} :
    (⟨c.files ++ [f]⟩ : SourceCache).file? i = some g ↔
      c.file? i = some g ∨ g = f ∧ i = c.files.length := by
  rw [file?, file?, List.getElem?_append]
  split
  · rename_i lt
    exact (or_iff_left fun last => Nat.ne_of_lt lt last.2).symm
  · rename_i ge
    rw [List.getElem?_eq_none (Nat.le_of_not_lt ge), List.getElem?_singleton]
    by_cases last : i = c.files.length
    · subst last
      simp [eq_comm]
    · have : i - c.files.length ≠ 0 := by omega
      simp [this, last]

/-- Register files one after the other.  Each is answered with its number. -/
def addAll (c : SourceCache) : List SourceFile → SourceCache × List (SourceFile × Nat)
  | [] => (c, [])
  | f :: fs =>
    let (next, i) := c.add f.path f.source
    let (last, log) := next.addAll fs
    (last, (f, i) :: log)

theorem fst_addAll_cons (c : SourceCache) (f : SourceFile) (fs : List SourceFile) :
    (c.addAll (f :: fs)).1 = ((c.add f.path f.source).1.addAll fs).1 := rfl

theorem snd_addAll_cons (c : SourceCache) (f : SourceFile) (fs : List SourceFile) :
    (c.addAll (f :: fs)).2 =
      (f, (c.add f.path f.source).2) :: ((c.add f.path f.source).1.addAll fs).2 := rfl

theorem map_fst_addAll (c : SourceCache) (fs : List SourceFile) :
    (c.addAll fs).2.map Prod.fst = fs := by
  induction fs generalizing c with
  | nil => rfl
  | cons f fs ih => rw [snd_addAll_cons, List.map_cons, ih]

/-- Files that are registered stay registered, with their numbers. -/
theorem files_prefix_addAll (c : SourceCache) (fs : List SourceFile) :
    c.files <+: (c.addAll fs).1.files := by
  induction fs generalizing c with
  | nil => exact List.prefix_rfl
  | cons f fs ih => exact (c.files_prefix_add f).trans (ih _)

theorem addAll_append (c : SourceCache) (fs gs : List SourceFile) :
    c.addAll (fs ++ gs) =
      (((c.addAll fs).1.addAll gs).1, (c.addAll fs).2 ++ ((c.addAll fs).1.addAll gs).2) := by
  induction fs generalizing c with
  | nil => rfl
  | cons f fs ih =>
    refine Prod.ext ?_ ?_
    · rw [List.cons_append, fst_addAll_cons, ih, fst_addAll_cons]
    · rw [List.cons_append, snd_addAll_cons, ih, fst_addAll_cons, snd_addAll_cons, List.cons_append]

/-- Paths that are registered change nothing when they are registered again. -/
theorem fst_addAll_of_known {c : SourceCache} {fs : List SourceFile}
    (known : ∀ g ∈ fs, ∃ f ∈ c.files, samePath f.path g.path = true) : (c.addAll fs).1 = c := by
  induction fs with
  | nil => rfl
  | cons g fs ih =>
    obtain ⟨⟨f, hf, same⟩, known⟩ := List.forall_mem_cons.1 known
    obtain ⟨i, h, -, -, added⟩ | ⟨fresh, -⟩ := c.add_cases g
    · rw [fst_addAll_cons, added, ih known]
    · cases same.symm.trans (fresh f hf)

theorem file?_addAll {c : SourceCache} {i : Nat} {f : SourceFile} (h : c.file? i = some f)
    (fs : List SourceFile) : (c.addAll fs).1.file? i = some f := by
  obtain ⟨new, files⟩ := c.files_prefix_addAll fs
  rw [file?, ← files, List.getElem?_append_left (lt_of_file? h)]
  exact h

theorem location?_of_file? {c : SourceCache} {s : Span} {f : SourceFile}
    (known : s.isDummy = false) (h : c.file? s.file.toNat = some f) :
    c.location? s = some ⟨f.path, (f.lineColumn s.start).1, (f.lineColumn s.start).2⟩ := by
  rw [location?, known, h]
  rfl

/-- A span that has a location keeps it. -/
theorem location?_addAll {c : SourceCache} {s : Span} {place : Location}
    (h : c.location? s = some place) (fs : List SourceFile) :
    (c.addAll fs).1.location? s = some place := by
  cases dummy : s.isDummy with
  | true =>
    rw [location?, dummy] at h
    cases h
  | false =>
    cases found : c.file? s.file.toNat with
    | none =>
      rw [location?, dummy, found] at h
      cases h
    | some f =>
      rw [location?_of_file? dummy found] at h
      rw [location?_of_file? dummy (file?_addAll found fs), h]

end SourceCache

/-! ### Two tables

The files can also be kept in a table by number, and their numbers in a table by path, beside the
number that is next.  The tables stay inverse to each other, and the answers are the same. -/

/-- The registered files by number, and their numbers by the components of their paths. -/
structure SourceTables where
  file? : Nat → Option SourceFile := fun _ => none
  number? : List String → Option Nat := fun _ => none
  /-- The next number. -/
  next : Nat := 0

namespace SourceTables

variable {t : SourceTables} {c : SourceCache} {f : SourceFile}

/-- Enter a file into both tables, with the next number. -/
def insert (t : SourceTables) (f : SourceFile) : SourceTables where
  file? i := if i = t.next then some f else t.file? i
  number? p := if p = pathComponents f.path then some t.next else t.number? p
  next := t.next + 1

/-- Register a file; the answer is its number. -/
def add (t : SourceTables) (path source : String) : SourceTables × Nat :=
  match t.number? (pathComponents path) with
  | some i => (t, i)
  | none => (t.insert ⟨path, source⟩, t.next)

/-- Register files one after the other.  Each is answered with its number. -/
def addAll (t : SourceTables) : List SourceFile → SourceTables × List (SourceFile × Nat)
  | [] => (t, [])
  | f :: fs =>
    let (next, i) := t.add f.path f.source
    let (last, log) := next.addAll fs
    (last, (f, i) :: log)

/-- The number of a path is that of the file with the path, and the next number is free. -/
structure Inverse (t : SourceTables) : Prop where
  number?_iff : ∀ p i, t.number? p = some i ↔ ∃ f, t.file? i = some f ∧ pathComponents f.path = p
  lt_next : ∀ i f, t.file? i = some f → i < t.next

theorem Inverse.empty : Inverse {} where
  number?_iff := by simp
  lt_next := by simp

theorem Inverse.insert (h : t.Inverse) (new : t.number? (pathComponents f.path) = none) :
    (t.insert f).Inverse where
  number?_iff p i := by
    have free : ∀ g, t.file? t.next ≠ some g := fun g hg => Nat.lt_irrefl _ (h.lt_next _ g hg)
    have unknown : ∀ g, t.file? i = some g → pathComponents g.path ≠ pathComponents f.path := by
      intro g hg same
      have known := (h.number?_iff _ i).2 ⟨g, hg, same⟩
      cases new.symm.trans known
    simp only [SourceTables.insert]
    by_cases hi : i = t.next
    · subst hi
      by_cases hp : p = pathComponents f.path
      · simp [hp]
      · simp [hp, Ne.symm hp, h.number?_iff, free]
    · by_cases hp : p = pathComponents f.path
      · subst hp
        simp only [if_neg hi, if_true, Option.some.injEq]
        refine iff_of_false (Ne.symm hi) ?_
        rintro ⟨g, hg, same⟩
        exact unknown g hg same
      · simp only [if_neg hi, if_neg hp, h.number?_iff]
  lt_next i g hg := by
    simp only [SourceTables.insert] at hg ⊢
    split at hg
    · omega
    · exact Nat.lt_succ_of_lt (h.lt_next i g hg)

/-- The tables hold the registered files. -/
structure Hold (t : SourceTables) (c : SourceCache) : Prop where
  file?_eq : ∀ i, t.file? i = c.file? i
  number?_eq : ∀ path,
    t.number? (pathComponents path) = c.files.findIdx? fun f => samePath f.path path
  next_eq : t.next = c.files.length

theorem Hold.empty : Hold {} {} where
  file?_eq _ := rfl
  number?_eq _ := rfl
  next_eq := rfl

theorem Hold.insert (h : t.Hold c) (new : t.number? (pathComponents f.path) = none) :
    (t.insert f).Hold ⟨c.files ++ [f]⟩ where
  file?_eq i := by
    refine Option.ext fun g => ?_
    rw [SourceCache.file?_concat, ← h.file?_eq, ← h.next_eq]
    simp only [SourceTables.insert]
    by_cases hi : i = t.next
    · have free : t.file? t.next = none := by
        rw [h.file?_eq, SourceCache.file?, h.next_eq, List.getElem?_length]
      subst hi
      simp [free, eq_comm]
    · simp [hi]
  number?_eq path := by
    simp only [SourceTables.insert]
    rw [List.findIdx?_append, ← h.number?_eq]
    by_cases same : pathComponents path = pathComponents f.path
    · have found : samePath f.path path = true := samePath_iff.2 same.symm
      simp [same, new, found, h.next_eq]
    · have different : samePath f.path path = false := by simpa [samePath] using Ne.symm same
      simp [same, different]
  next_eq := by rw [List.length_append, ← h.next_eq]; rfl

/-- One registration. -/
theorem add_spec (inverse : t.Inverse) (h : t.Hold c) (path source : String) :
    (t.add path source).2 = (c.add path source).2 ∧ (t.add path source).1.Inverse ∧
      (t.add path source).1.Hold (c.add path source).1 := by
  rw [SourceTables.add, SourceCache.add, ← h.number?_eq]
  cases known : t.number? (pathComponents path) with
  | some i => exact ⟨rfl, inverse, h⟩
  | none => exact ⟨h.next_eq, inverse.insert known, h.insert known⟩

/-- Any number of registrations. -/
theorem addAll_spec (inverse : t.Inverse) (h : t.Hold c) (fs : List SourceFile) :
    (t.addAll fs).2 = (c.addAll fs).2 ∧ (t.addAll fs).1.Inverse ∧
      (t.addAll fs).1.Hold (c.addAll fs).1 := by
  induction fs generalizing t c with
  | nil => exact ⟨rfl, inverse, h⟩
  | cons f fs ih =>
    obtain ⟨number, inverse', h'⟩ := add_spec inverse h f.path f.source
    obtain ⟨log, rest⟩ := ih inverse' h'
    refine ⟨?_, rest⟩
    rw [SourceCache.snd_addAll_cons, ← number, ← log]
    rfl

/-- The two tables answer what the list of files answers, and stay inverse to each other. -/
theorem addAll_empty (calls : List SourceFile) :
    (addAll {} calls).2 = (SourceCache.addAll {} calls).2 ∧ (addAll {} calls).1.Inverse ∧
      (addAll {} calls).1.Hold (SourceCache.addAll {} calls).1 :=
  addAll_spec .empty .empty calls

end SourceTables

/-! ### Logs -/

/-- The number `i` comes up for the first time with `f`, after the registrations of `before`. -/
def Introduces (log before : List (SourceFile × Nat)) (f : SourceFile) (i : Nat) : Prop :=
  before ++ [(f, i)] <+: log ∧ ∀ e ∈ before, e.2 ≠ i

section Introduces

variable {log before : List (SourceFile × Nat)} {f g : SourceFile} {i n : Nat}

theorem Introduces.mem (h : Introduces log before f i) : (f, i) ∈ log :=
  h.1.subset (List.mem_append_right _ List.mem_cons_self)

theorem introduces_concat : Introduces (log ++ [(g, n)]) before f i ↔
    Introduces log before f i ∨ before = log ∧ f = g ∧ i = n ∧ ∀ e ∈ log, e.2 ≠ n := by
  rw [Introduces, List.prefix_concat_iff, or_and_right, or_comm]
  refine or_congr Iff.rfl ⟨?_, ?_⟩
  · rintro ⟨same, new⟩
    obtain ⟨rfl, last⟩ := List.append_inj' same rfl
    cases last
    exact ⟨rfl, rfl, rfl, new⟩
  · rintro ⟨rfl, rfl, rfl, new⟩
    exact ⟨rfl, new⟩

/-- Numbers tell paths apart, also with one more registration. -/
theorem same_iff_concat
    (h : ∀ e ∈ log, ∀ e' ∈ log, e.2 = e'.2 ↔ samePath e.1.path e'.1.path = true)
    (last : ∀ e ∈ log, e.2 = n ↔ samePath e.1.path f.path = true) :
    ∀ e ∈ log ++ [(f, n)], ∀ e' ∈ log ++ [(f, n)],
      e.2 = e'.2 ↔ samePath e.1.path e'.1.path = true := by
  simp only [List.forall_mem_append, List.forall_mem_singleton]
  refine ⟨fun e he => ⟨h e he, last e he⟩, fun e he => ?_, by simp [samePath_iff]⟩
  rw [eq_comm, last e he, samePath_iff, samePath_iff, eq_comm]

end Introduces

/-- The log of all registrations so far and the registered files belong together. -/
structure Registered (log : List (SourceFile × Nat)) (c : SourceCache) : Prop where
  /-- Numbers are equal exactly when the paths are. -/
  same_iff : ∀ e ∈ log, ∀ e' ∈ log, e.2 = e'.2 ↔ samePath e.1.path e'.1.path = true
  /-- A number that comes up for the first time counts the paths before. -/
  in_order : ∀ before f i, Introduces log before f i → i = pathCount (before.map Prod.fst)
  /-- The number of a registration is that of a file with its path. -/
  known : ∀ e ∈ log, ∃ g, c.file? e.2 = some g ∧ samePath g.path e.1.path = true
  /-- The file of a number is the one with which the number came up first. -/
  file?_iff : ∀ i f, c.file? i = some f ↔ ∃ before, Introduces log before f i
  /-- There is one file for each path. -/
  count : c.files.length = pathCount (log.map Prod.fst)

namespace Registered

variable {log : List (SourceFile × Nat)} {c : SourceCache}

theorem nil : Registered [] {} where
  same_iff := by simp
  in_order before f i h := by simpa [Introduces] using h.1
  known := by simp
  file?_iff i f := by simp [SourceCache.file?, Introduces]
  count := rfl

/-- A path that is registered again. -/
theorem again (h : Registered log c) {f g : SourceFile} {i : Nat} (found : c.file? i = some g)
    (same : samePath g.path f.path = true) : Registered (log ++ [(f, i)]) c := by
  obtain ⟨start, first⟩ := (h.file?_iff i g).1 found
  -- the number has come up before, so it is not introduced again
  have old : ∀ before f' i', Introduces (log ++ [(f, i)]) before f' i' ↔
      Introduces log before f' i' := by
    intro before f' i'
    rw [introduces_concat]
    refine or_iff_left ?_
    rintro ⟨-, -, -, new⟩
    exact new _ first.mem rfl
  refine ⟨same_iff_concat h.same_iff fun e he => ?_, ?_, ?_, ?_, ?_⟩
  · rw [h.same_iff e he _ first.mem, samePath_iff, samePath_iff, samePath_iff.1 same]
  · intro before f' i' introduced
    exact h.in_order before f' i' ((old before f' i').1 introduced)
  · simp only [List.forall_mem_append, List.forall_mem_singleton]
    exact ⟨h.known, g, found, same⟩
  · intro i' f'
    rw [h.file?_iff]
    exact exists_congr fun before => (old before f' i').symm
  · have mem : g ∈ log.map Prod.fst := List.mem_map_of_mem first.mem
    rw [h.count, List.map_append, List.map_singleton, pathCount_concat_of_mem mem same]

/-- A path that is new. -/
theorem new (h : Registered log c) {f : SourceFile}
    (fresh : ∀ g ∈ c.files, samePath g.path f.path = false) :
    Registered (log ++ [(f, c.files.length)]) ⟨c.files ++ [f]⟩ := by
  have lt : ∀ e ∈ log, e.2 < c.files.length := by
    intro e he
    obtain ⟨g, found, -⟩ := h.known e he
    exact SourceCache.lt_of_file? found
  have differs : ∀ e ∈ log, samePath e.1.path f.path = false := by
    intro e he
    obtain ⟨g, found, same⟩ := h.known e he
    rw [samePath, ← samePath_iff.1 same]
    exact fresh g (List.mem_of_getElem? found)
  refine ⟨same_iff_concat h.same_iff fun e he => ?_, ?_, ?_, ?_, ?_⟩
  · rw [differs e he]
    exact iff_of_false (Nat.ne_of_lt (lt e he)) Bool.false_ne_true
  · intro before f' i' introduced
    obtain introduced | ⟨rfl, -, rfl, -⟩ := introduces_concat.1 introduced
    · exact h.in_order before f' i' introduced
    · exact h.count
  · simp only [List.forall_mem_append, List.forall_mem_singleton]
    refine ⟨fun e he => ?_, f, SourceCache.file?_concat.2 (.inr ⟨rfl, rfl⟩), samePath_iff.2 rfl⟩
    obtain ⟨g, found, same⟩ := h.known e he
    exact ⟨g, SourceCache.file?_concat.2 (.inl found), same⟩
  · intro i' f'
    simp only [SourceCache.file?_concat, h.file?_iff, introduces_concat, exists_or, exists_eq_left]
    refine or_congr Iff.rfl ⟨?_, ?_⟩
    · rintro ⟨rfl, rfl⟩
      exact ⟨rfl, rfl, fun e he => Nat.ne_of_lt (lt e he)⟩
    · rintro ⟨rfl, rfl, -⟩
      exact ⟨rfl, rfl⟩
  · rw [List.length_append, List.length_singleton, h.count, List.map_append, List.map_singleton,
      pathCount_concat_of_new]
    intro g hg
    obtain ⟨e, he, rfl⟩ := List.mem_map.1 hg
    exact differs e he

/-- One more registration. -/
theorem add (h : Registered log c) (f : SourceFile) :
    Registered (log ++ [(f, (c.add f.path f.source).2)]) (c.add f.path f.source).1 := by
  obtain ⟨i, g, found, same, added⟩ | ⟨fresh, added⟩ := c.add_cases f <;> rw [added]
  · exact h.again found same
  · exact h.new fresh

/-- Any number of registrations. -/
theorem addAll (h : Registered log c) (fs : List SourceFile) :
    Registered (log ++ (c.addAll fs).2) (c.addAll fs).1 := by
  induction fs generalizing log c with
  | nil => simpa [SourceCache.addAll] using h
  | cons f fs ih =>
    have := ih (h.add f)
    rwa [List.append_assoc, List.singleton_append] at this

theorem lt_pathCount (h : Registered log c) {e : SourceFile × Nat} (he : e ∈ log) :
    e.2 < pathCount (log.map Prod.fst) := by
  obtain ⟨g, found, -⟩ := h.known e he
  exact h.count ▸ SourceCache.lt_of_file? found

end Registered

/-! ### Numbers in spans -/

theorem toNat_ofNat_of_lt_noFile {i : Nat} (h : i < 2 ^ 32 - 1) : (UInt32.ofNat i).toNat = i :=
  UInt32.toNat_ofNat_of_lt' (Nat.lt_of_lt_of_le h (Nat.sub_le _ _))

theorem ofNat_ne_noFile {i : Nat} (h : i < 2 ^ 32 - 1) : UInt32.ofNat i ≠ Span.noFile := by
  intro same
  exact Nat.ne_of_lt h ((toNat_ofNat_of_lt_noFile h).symm.trans (congrArg UInt32.toNat same))

/-- **The registered files are consistent.**  In any sequence of registrations, two get the same
number exactly when their paths are the same, and the numbers are given out in the order in which
paths first come; they are words, and not the one of unknown positions.  After every registration
the file of a number has the path and the text with which the number first came up, spans with the
number are located in it, and there is no file of any other number.  Later registrations do not
change the file of a number or where a span is located; those of known paths change nothing at
all. -/
theorem sources_consistent (calls : List SourceFile) (few : pathCount calls < 2 ^ 32 - 1) :
    ∃ c log, SourceCache.addAll {} calls = (c, log) ∧ log.map Prod.fst = calls ∧
      Registered log c ∧
      (∀ e ∈ log, (UInt32.ofNat e.2).toNat = e.2 ∧ UInt32.ofNat e.2 ≠ Span.noFile) ∧
      (∀ before f i, Introduces log before f i → ∀ start stop,
        c.location? ⟨UInt32.ofNat i, start, stop⟩ =
          some ⟨f.path, (f.lineColumn start).1, (f.lineColumn start).2⟩) ∧
      ∀ later,
        SourceCache.addAll {} (calls ++ later) =
          ((c.addAll later).1, log ++ (c.addAll later).2) ∧
        Registered (log ++ (c.addAll later).2) (c.addAll later).1 ∧
        (∀ e ∈ log, (c.addAll later).1.file? e.2 = c.file? e.2) ∧
        (∀ s place, c.location? s = some place → (c.addAll later).1.location? s = some place) ∧
        ((∀ g ∈ later, ∃ f ∈ calls, samePath f.path g.path = true) →
          (c.addAll later).1 = c) := by
  have calls_eq := SourceCache.map_fst_addAll {} calls
  have recorded := Registered.nil.addAll calls
  have append := SourceCache.addAll_append {} calls
  rw [List.nil_append] at recorded
  generalize SourceCache.addAll {} calls = ran at calls_eq recorded append
  obtain ⟨c, log⟩ := ran
  have small : ∀ e ∈ log, e.2 < 2 ^ 32 - 1 := fun e he =>
    Nat.lt_trans (recorded.lt_pathCount he) (calls_eq ▸ few)
  refine ⟨c, log, rfl, calls_eq, recorded, fun e he => ?_,
    fun before f i introduced start stop => ?_,
    fun later => ⟨append later, recorded.addAll later, fun e he => ?_,
      fun s place h => SourceCache.location?_addAll h later, fun known => ?_⟩⟩
  · exact ⟨toNat_ofNat_of_lt_noFile (small e he), ofNat_ne_noFile (small e he)⟩
  · have lt := small _ introduced.mem
    refine SourceCache.location?_of_file? (beq_eq_false_iff_ne.2 (ofNat_ne_noFile lt)) ?_
    rw [toNat_ofNat_of_lt_noFile lt]
    exact (recorded.file?_iff i f).2 ⟨before, introduced⟩
  · obtain ⟨g, found, -⟩ := recorded.known e he
    rw [found, SourceCache.file?_addAll found]
  · refine SourceCache.fst_addAll_of_known fun g hg => ?_
    obtain ⟨f, hf, same⟩ := known g hg
    rw [← calls_eq] at hf
    obtain ⟨e, he, rfl⟩ := List.mem_map.1 hf
    obtain ⟨h, found, same'⟩ := recorded.known e he
    refine ⟨h, List.mem_of_getElem? found, ?_⟩
    rw [samePath_iff, samePath_iff.1 same', samePath_iff.1 same]

/-- Three paths, the first of which is written in two ways and registered with two texts. -/
def respelled : List SourceFile :=
  [⟨"a//b.py", "x\ny\n"⟩, ⟨"c.py", ""⟩, ⟨"a/b.py/", "z"⟩, ⟨"./c.py", "z"⟩]

theorem sources_consistent_respelled :
    pathCount respelled < 2 ^ 32 - 1 ∧
      ∃ c log, SourceCache.addAll {} respelled = (c, log) ∧ log = respelled.zip [0, 1, 0, 2] ∧
        Registered log c ∧ c.location? ⟨0, 2, 3⟩ = some ⟨"a//b.py", 2, 1⟩ := by
  have few : pathCount respelled < 2 ^ 32 - 1 := by decide +kernel
  obtain ⟨c, log, ran, -, recorded, -, located, -⟩ := sources_consistent respelled few
  obtain rfl : respelled.zip [0, 1, 0, 2] = log := congrArg Prod.snd ran
  have first : Introduces (respelled.zip [0, 1, 0, 2]) [] ⟨"a//b.py", "x\ny\n"⟩ 0 :=
    ⟨⟨_, rfl⟩, by simp⟩
  have column : (⟨"a//b.py", "x\ny\n"⟩ : SourceFile).lineColumn 2 = (2, 1) := by decide +kernel
  have place := located [] _ 0 first 2 3
  rw [column] at place
  exact ⟨few, c, _, ran, rfl, recorded, place⟩

end FlatClosure
