import FlatClosure.Proofs.FreeReads

/-!
# Where the names of a closure come from

`classify` sorts the names that a closure reads into those that it binds itself, those that it
captures from the function around it, and those of the program.  A closure that declares a name
nonlocal, or reads a name of none of these kinds, is rejected.  Here this is said without the order
in which the kinds are tried.

* `Enclosing.Declares` : the declared type of a name in the enclosing function, which
  `Enclosing.type?` finds (`Enclosing.type?_eq_some_iff`).
* `Captured`, `Resolves` : the name is captured; the name is known.
* `reads_sorted` : **when the reads of a closure can be sorted, what it captures, and else which
  name is to blame.**
-/

namespace FlatClosure

/-! ### Types of enclosing variables -/

/-- The enclosing function declares a variable `x` of type `ty`.  The first parameter of that name
counts, and if there is none, the first local. -/
inductive Enclosing.Declares (e : Enclosing) (x : String) : Ty → Prop
  | param {before after : List Param} {p : Param} : e.params = before ++ p :: after →
    (∀ q ∈ before, q.name ≠ x) → p.name = x → e.Declares x p.ty
  | init {before after : List VarInit} {v : VarInit} : (∀ p ∈ e.params, p.name ≠ x) →
    e.inits = before ++ v :: after → (∀ w ∈ before, w.name ≠ x) → v.name = x → e.Declares x v.ty

theorem find?_name_eq_some_iff {α : Type} {name : α → String} {x : String} {as : List α} {a : α} :
    as.find? (name · == x) = some a ↔
      ∃ before after, as = before ++ a :: after ∧ (∀ b ∈ before, name b ≠ x) ∧ name a = x := by
  rw [List.find?_eq_some_iff_append]
  simp only [beq_iff_eq, Bool.not_eq_true']
  constructor
  · rintro ⟨ha, before, after, split, earlier⟩
    exact ⟨before, after, split, fun b hb => by simpa using earlier b hb, ha⟩
  · rintro ⟨before, after, split, earlier, ha⟩
    exact ⟨ha, before, after, split, fun b hb => by simpa using earlier b hb⟩

theorem Enclosing.type?_eq_some_iff {e : Enclosing} {x : String} {ty : Ty} :
    e.type? x = some ty ↔ e.Declares x ty := by
  have params : e.params.find? (·.name == x) = none ↔ ∀ p ∈ e.params, p.name ≠ x := by
    simp [List.find?_eq_none]
  rw [Enclosing.type?, Option.or_eq_some_iff]
  simp only [Option.map_eq_some_iff, Option.map_eq_none_iff, params, find?_name_eq_some_iff]
  constructor
  · rintro (⟨p, ⟨before, after, split, earlier, hp⟩, rfl⟩ | ⟨outer, v, inits, rfl⟩)
    · exact .param split earlier hp
    · obtain ⟨before, after, split, earlier, hv⟩ := inits
      exact .init outer split earlier hv
  · intro h
    cases h with
    | param split earlier hp => exact .inl ⟨_, ⟨_, _, split, earlier, hp⟩, rfl⟩
    | init outer split earlier hv => exact .inr ⟨outer, _, ⟨_, _, split, earlier, hv⟩, rfl⟩

theorem Enclosing.isSome_type?_iff {e : Enclosing} {x : String} :
    (e.type? x).isSome ↔ x ∈ e.names := by
  rw [Enclosing.type?_isSome_iff, Enclosing.names, List.mem_append]

/-! ### Kinds of names -/

/-- The closure captures the name, if it reads it. -/
structure Captured (c : FunDef) (around : Enclosing) (x : String) : Prop where
  unbound : x ∉ c.binders
  undeclared : .stmt (.global x) ∉ c.events
  enclosing : x ∈ around.names

/-- The name is known in the closure. -/
def Resolves (c : FunDef) (around : Enclosing) (globals : List String) (x : String) : Prop :=
  x ∈ c.binders ∨ (x ∈ around.names ∧ .stmt (.global x) ∉ c.events) ∨ x ∈ globals

section Kinds

variable {c : FunDef} {around : Enclosing} {globals : List String} {x : String}

theorem FreeReads.isSome_captureType?_iff (h : FreeReads c c.reads) :
    (captureType? c around x).isSome ↔ Captured c around x := by
  rw [captureType?_isSome_iff, ← mem_reads_globals, h.globals, ← List.mem_append]
  constructor
  · rintro ⟨unbound, undeclared, enclosing⟩
    exact ⟨unbound, undeclared, enclosing⟩
  · intro captured
    exact ⟨captured.unbound, captured.undeclared, captured.enclosing⟩

theorem FreeReads.resolves_iff (h : FreeReads c c.reads) :
    x ∈ c.binders ∨ (captureType? c around x).isSome ∨ x ∈ globals ↔
      Resolves c around globals x := by
  rw [h.isSome_captureType?_iff]
  constructor
  · rintro (hb | hc | hg)
    · exact .inl hb
    · exact .inr (.inl ⟨hc.enclosing, hc.undeclared⟩)
    · exact .inr (.inr hg)
  · rintro (hb | ⟨hs, hd⟩ | hg)
    · exact .inl hb
    · by_cases hb : x ∈ c.binders
      · exact .inl hb
      · exact .inr (.inl ⟨hb, hd, hs⟩)
    · exact .inr (.inr hg)

theorem lookup_capturesAmong (rs : List (String × Span)) :
    (capturesAmong c around rs).lookup x =
      if x ∈ rs.map Prod.fst then captureType? c around x else none := by
  induction rs with
  | nil => rfl
  | cons r rs ih =>
    have first : (capturesAmong c around [r]).lookup x =
        if x = r.1 then captureType? c around x else none := by
      by_cases hx : x = r.1
      · subst hx
        cases ht : captureType? c around r.1 <;> simp [capturesAmong, ht]
      · have hb : (x == r.1) = false := by simpa using hx
        cases ht : captureType? c around r.1 <;>
          simp [capturesAmong, ht, List.lookup_cons, hb, hx]
    rw [capturesAmong_cons, List.lookup_append, first, ih, List.map_cons]
    by_cases hx : x = r.1
    · rw [if_pos hx, if_pos (List.mem_cons.2 (.inl hx))]
      cases captureType? c around x <;> simp
    · simp only [List.mem_cons, hx, if_false, false_or, Option.none_or]

/-- A captured variable has the type with which the function around declares it. -/
theorem FunDef.declares_of_mem_captures (hx : x ∈ (c.captures around).names) :
    ∃ ty, (c.captures around).get? x = some ty ∧ around.Declares x ty := by
  obtain ⟨read, captured⟩ := FunDef.mem_captures.1 hx
  obtain ⟨ty, hty⟩ := Option.isSome_iff_exists.1 captured
  refine ⟨ty, ?_, ?_⟩
  · show (capturesAmong c around c.reads.names.entries).lookup x = some ty
    have listed : x ∈ c.reads.names.entries.map Prod.fst := mem_reads_names.2 read
    rw [lookup_capturesAmong, if_pos listed, hty]
  · rw [captureType?] at hty
    split at hty
    · cases hty
    · exact Enclosing.type?_eq_some_iff.1 hty

/-! ### The name to blame -/

/-- The name of a nonlocal declaration. -/
def Event.nonlocal? : Event → Option String
  | .stmt (.nonlocal x) => some x
  | _ => none

/-- The first name declared nonlocal is the first one on the walk. -/
theorem FunDef.head?_nonlocals (flat : c.closures = []) :
    c.reads.nonlocals.head? = c.events.findSome? Event.nonlocal? := by
  have taken : (fun e => (declaredNonlocal.take e).head?) = Event.nonlocal? := by
    funext e
    cases e with
    | stmt s => cases s <;> rfl
    | _ => rfl
  show ((c.collect declaredNonlocal).foldl addName []).head? = _
  rw [head?_foldl_addName, declaredNonlocal_plain.collect flat, List.head?_flatMap, taken]
  rfl

/-- The first of the errors is that of the first name that is not known. -/
theorem FreeReads.head?_unresolvedAmong (h : FreeReads c c.reads) {e : ConversionError}
    (rs : List (String × Span)) :
    (unresolvedAmong c around globals rs).head? = some e ↔
      ∃ before x s after, rs = before ++ (x, s) :: after ∧
        (∀ r ∈ before, Resolves c around globals r.1) ∧ ¬ Resolves c around globals x ∧
        e = .unresolved x c.name s := by
  rw [unresolvedAmong, List.head?_filterMap, List.findSome?_eq_some_iff]
  constructor
  · rintro ⟨before, ⟨x, s⟩, after, split, first, earlier⟩
    refine ⟨before, x, s, after, split, fun r hr => ?_, ?_⟩
    · refine Classical.byContradiction fun unknown => ?_
      have := earlier r hr
      rw [if_neg (mt h.resolves_iff.1 unknown)] at this
      cases this
    · split at first
      · cases first
      · rename_i unknown
        exact ⟨mt h.resolves_iff.2 unknown, (Option.some.inj first).symm⟩
  · rintro ⟨before, x, s, after, split, earlier, unknown, rfl⟩
    refine ⟨before, (x, s), after, split, if_neg (mt h.resolves_iff.1 unknown), fun r hr => ?_⟩
    exact if_pos (h.resolves_iff.2 (earlier r hr))

end Kinds

/-! ### Sorting the reads -/

/-- **The reads of a closure are sorted.**  This succeeds if and only if the closure declares
nothing nonlocal and knows every name that it reads.  The captures are then the reads that it
neither binds nor declares global and that the enclosing function has, in the order of the reads
and with the types declared there.  Otherwise the first nonlocal declaration decides about the
error, and if there is none, the error names the first read that is not known, with its
position. -/
theorem reads_sorted {c : FunDef} {reads : Reads} (h : collectReads c = .ok reads)
    (around : Enclosing) (globals : List String) :
    ((∃ captures, classify c reads around globals = .ok captures) ↔
      (∀ x, .stmt (.nonlocal x) ∉ c.events) ∧
        ∀ x ∈ reads.names.names, Resolves c around globals x) ∧
    (∀ captures, classify c reads around globals = .ok captures →
      captures.names.Sublist reads.names.names ∧
        (∀ x, x ∈ captures.names ↔ x ∈ reads.names.names ∧ Captured c around x) ∧
        ∀ x ∈ captures.names, ∃ ty, captures.get? x = some ty ∧ around.Declares x ty) ∧
    ∀ e, classify c reads around globals = .error e ↔
      (∃ x, c.events.findSome? Event.nonlocal? = some x ∧
        e = if x ∈ around.names then .capturedWrite x c.name c.span
          else .unresolved x c.name c.span) ∨
      (∀ x, .stmt (.nonlocal x) ∉ c.events) ∧
        ∃ before x s after, reads.names.entries = before ++ (x, s) :: after ∧
          (∀ r ∈ before, Resolves c around globals r.1) ∧ ¬ Resolves c around globals x ∧
          e = .unresolved x c.name s := by
  have free := freeReads_of_collectReads h
  obtain ⟨clear, rfl⟩ := collectReads_eq_ok.1 h
  have flat : c.closures = [] := (c.obstacles_eq_nil_iff.1 clear).1
  have nonlocals : c.reads.nonlocals = [] ↔ ∀ x, .stmt (.nonlocal x) ∉ c.events := by
    simp only [List.eq_nil_iff_forall_not_mem, free.nonlocals]
  simp only [classify_eq, okUnless_eq_ok, okUnless_eq_error]
  refine ⟨?_, ?_, fun e => ?_⟩
  · simp only [exists_and_left, exists_eq', and_true, classifyErrors_eq_nil, free.resolves_iff,
      ← mem_reads_names]
    rw [← nonlocals, List.eq_nil_iff_forall_not_mem, List.eq_nil_iff_forall_not_mem]
    simp only [mem_reads_nonlocals]
  · rintro captures ⟨-, rfl⟩
    refine ⟨?_, fun x => ?_, fun x hx => FunDef.declares_of_mem_captures hx⟩
    · rw [Bindings.names, FunDef.captures, capturesAmong_names]
      exact List.filter_sublist
    · rw [FunDef.mem_captures, free.isSome_captureType?_iff, mem_reads_names]
  · rw [← nonlocals, ← FunDef.head?_nonlocals flat, classifyErrors]
    cases hn : c.reads.nonlocals with
    | nil => simp [free.head?_unresolvedAmong]
    | cons x xs =>
      have error : (if (around.type? x).isNone then ConversionError.unresolved x c.name c.span
          else .capturedWrite x c.name c.span) =
          if x ∈ around.names then .capturedWrite x c.name c.span
            else .unresolved x c.name c.span := by
        by_cases hx : x ∈ around.names
        · have declared := Enclosing.isSome_type?_iff.2 hx
          rw [if_pos hx, if_neg (by simpa [Option.isSome_iff_ne_none] using declared)]
        · have undeclared := mt Enclosing.isSome_type?_iff.1 hx
          rw [if_neg hx, if_pos (by simpa using undeclared)]
      constructor
      · intro he
        exact .inl ⟨x, rfl, (Option.some.inj he).symm.trans error⟩
      · rintro (⟨y, hy, rfl⟩ | ⟨empty, -⟩)
        · cases hy
          exact congrArg some error
        · cases empty

/-- A closure that reads names of all kinds: its parameter `b`, the captured `a`, the function
`helper` and the variable `n` that it declares global. -/
def mixer : FunDef where
  name := "g"
  params := [⟨"b", .int⟩]
  ret := .int
  inits := []
  body := [
    .global "n",
    .ret (some (.binary .add (.id "b" .dummy)
      (.binary .add (.id "a" .dummy) (.call (.id "helper" ⟨0, 20, 26⟩) [.id "n" .dummy]))))]
  span := .dummy

/-- Variables around that closure, with two of the name `a`. -/
def mixerScope : Enclosing :=
  ⟨[⟨"a", .int⟩], [⟨"a", .bool, .bool false⟩, ⟨"n", .int, .num 0⟩, ⟨"b", .int, .num 0⟩]⟩

theorem reads_sorted_mixer :
    ∃ reads captures, collectReads mixer = .ok reads ∧
      classify mixer reads mixerScope ["helper", "n"] = .ok captures ∧ captures.names = ["a"] ∧
      mixerScope.Declares "a" .int ∧ Resolves mixer mixerScope ["helper", "n"] "n" ∧
      classify mixer reads mixerScope ["n"] = .error (.unresolved "helper" "g" ⟨0, 20, 26⟩) ∧
      ¬ Resolves mixer mixerScope ["n"] "helper" := by
  have h : collectReads mixer = .ok mixer.reads := rfl
  have hc : classify mixer mixer.reads mixerScope ["helper", "n"] =
      .ok (mixer.captures mixerScope) := rfl
  have he : classify mixer mixer.reads mixerScope ["n"] =
      .error (.unresolved "helper" "g" ⟨0, 20, 26⟩) := rfl
  obtain ⟨succeeds, sorted, -⟩ := reads_sorted h mixerScope ["helper", "n"]
  obtain ⟨-, -, types⟩ := sorted _ hc
  obtain ⟨ty, hty, declared⟩ := types "a" (by decide)
  cases hty
  refine ⟨_, _, h, hc, rfl, declared, (succeeds.1 ⟨_, hc⟩).2 "n" (by decide), he, ?_⟩
  obtain ⟨x, hx, -⟩ | ⟨-, before, x, s, after, -, -, unknown, error⟩ :=
    ((reads_sorted h mixerScope ["n"]).2.2 _).1 he
  · cases hx
  · cases error
    exact unknown

end FlatClosure
