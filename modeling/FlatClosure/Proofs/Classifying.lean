import FlatClosure.Conversion.Captures
import FlatClosure.Proofs.Bindings
import FlatClosure.Proofs.Reading

/-!
# What a closure captures

The reads of a closure (`FunDef.reads`) hold exactly its free names (`mem_reads_names`), its
declarations and its comprehension variables.  `classify` sorts them: it fails with the first name
that is bound nowhere, and else the captures are the reads that the closure does not bind itself and
does not declare global, but the function around it has (`classify_eq`).
-/

namespace FlatClosure

/-! ### The names read -/

theorem mem_names_noteRead {b : Bindings Span} {p : String × Span} {x : String} :
    x ∈ (noteRead b p).names ↔ x ∈ b.names ∨ x = p.1 := by
  unfold noteRead
  split
  · rename_i h
    constructor
    · exact .inl
    · rintro (h' | rfl)
      · exact h'
      · exact Bindings.contains_iff.1 h
  · rw [Bindings.mem_names_insert, or_comm]

theorem nodup_names_noteRead {b : Bindings Span} (h : b.names.Nodup) (p : String × Span) :
    (noteRead b p).names.Nodup := by
  unfold noteRead
  split
  · exact h
  · exact Bindings.nodup_names_insert h _ _

theorem mem_names_foldl_noteRead {x : String} (ps : List (String × Span)) (b : Bindings Span) :
    x ∈ (ps.foldl noteRead b).names ↔ x ∈ b.names ∨ x ∈ ps.map Prod.fst := by
  induction ps generalizing b with
  | nil => simp
  | cons p ps ih => simp [ih, mem_names_noteRead, or_assoc]

theorem nodup_names_foldl_noteRead {b : Bindings Span} (h : b.names.Nodup)
    (ps : List (String × Span)) : (ps.foldl noteRead b).names.Nodup := by
  induction ps generalizing b with
  | nil => exact h
  | cons p ps ih => exact ih (nodup_names_noteRead h p)

variable {f : FunDef} {x : String}

theorem mem_reads_names : x ∈ f.reads.names.names ↔ x ∈ f.freeNames :=
  (mem_names_foldl_noteRead (f.collect freeReads) .empty).trans (by simp [FunDef.freeNames])

theorem nodup_reads_names (f : FunDef) : f.reads.names.names.Nodup :=
  nodup_names_foldl_noteRead (by simp) _

theorem mem_reads_globals : x ∈ f.reads.globals ↔ x ∈ f.collect declaredGlobal :=
  (mem_foldl_addName (f.collect declaredGlobal) []).trans (by simp)

theorem mem_reads_nonlocals : x ∈ f.reads.nonlocals ↔ x ∈ f.collect declaredNonlocal :=
  (mem_foldl_addName (f.collect declaredNonlocal) []).trans (by simp)

theorem mem_reads_bound : x ∈ f.reads.bound ↔ x ∈ f.collect boundVars :=
  (mem_foldl_addName (f.collect boundVars) []).trans (by simp)

/-! ### Sorting the names -/

/-- The enclosing function has a variable of every name with a type there, and of no other. -/
theorem Enclosing.type?_isSome_iff {e : Enclosing} :
    (e.type? x).isSome ↔ x ∈ e.params.map (·.name) ∨ x ∈ e.inits.map (·.name) := by
  simp [Enclosing.type?, Option.isSome_or, List.find?_isSome]

/-- The type with which a closure captures a name that it reads, if it does. -/
def captureType? (c : FunDef) (around : Enclosing) (x : String) : Option Ty :=
  if x ∈ c.binders ∨ x ∈ c.reads.globals then none else around.type? x

theorem captureType?_isSome_iff {c : FunDef} {around : Enclosing} {x : String} :
    (captureType? c around x).isSome ↔
      x ∉ c.binders ∧ x ∉ c.collect declaredGlobal ∧
        (x ∈ around.params.map (·.name) ∨ x ∈ around.inits.map (·.name)) := by
  rw [← mem_reads_globals, ← Enclosing.type?_isSome_iff, captureType?]
  split
  · rename_i h
    rcases h with h | h <;> simp [h]
  · rename_i h
    rw [not_or] at h
    simp [h]

/-- The names captured among those read, with their types. -/
def capturesAmong (c : FunDef) (around : Enclosing) (reads : List (String × Span)) :
    List (String × Ty) :=
  reads.filterMap fun r => (captureType? c around r.1).map fun ty => (r.1, ty)

/-- The errors of the names read that are bound nowhere. -/
def unresolvedAmong (c : FunDef) (around : Enclosing) (globals : List String)
    (reads : List (String × Span)) : List ConversionError :=
  reads.filterMap fun r =>
    if r.1 ∈ c.binders ∨ (captureType? c around r.1).isSome ∨ r.1 ∈ globals then none
    else some (.unresolved r.1 c.name r.2)

variable {c : FunDef} {around : Enclosing} {globals : List String}

theorem classifyRead_eq (captures : Captures) (r : String × Span) (h : r.1 ∉ captures.names) :
    classifyRead c c.reads around globals captures r =
      okUnless (unresolvedAmong c around globals [r])
        ⟨captures.entries ++ capturesAmong c around [r]⟩ := by
  obtain ⟨x, s⟩ := r
  by_cases hb : x ∈ c.binders
  · simp [classifyRead, unresolvedAmong, capturesAmong, captureType?, hb]
  by_cases hg : x ∈ c.reads.globals
  · by_cases hx : x ∈ globals <;>
      simp [classifyRead, unresolvedAmong, capturesAmong, captureType?, hb, hg, hx]
  cases ht : around.type? x with
  | none =>
    by_cases hx : x ∈ globals <;>
      simp [classifyRead, unresolvedAmong, capturesAmong, captureType?, hb, hg, ht, hx]
  | some ty =>
    have hins : captures.insert x ty = ⟨captures.entries ++ [(x, ty)]⟩ :=
      congrArg Bindings.mk (Bindings.insertEntry_of_not_mem h ty)
    simp [classifyRead, unresolvedAmong, capturesAmong, captureType?, hb, hg, ht, hins]

theorem capturesAmong_cons (r : String × Span) (rs : List (String × Span)) :
    capturesAmong c around (r :: rs) = capturesAmong c around [r] ++ capturesAmong c around rs :=
  List.filterMap_append (l := [r])

theorem unresolvedAmong_cons (r : String × Span) (rs : List (String × Span)) :
    unresolvedAmong c around globals (r :: rs) =
      unresolvedAmong c around globals [r] ++ unresolvedAmong c around globals rs :=
  List.filterMap_append (l := [r])

theorem capturesAmong_names (rs : List (String × Span)) :
    (capturesAmong c around rs).map Prod.fst =
      (rs.map Prod.fst).filter fun x => (captureType? c around x).isSome := by
  induction rs with
  | nil => rfl
  | cons r rs ih =>
    rw [capturesAmong_cons, List.map_append, ih, List.map_cons, List.filter_cons]
    cases ht : captureType? c around r.1 <;> simp [capturesAmong, ht]

/-- Sorting reads of distinct names that are not captured already. -/
theorem foldlM_classifyRead (rs : List (String × Span)) (captures : Captures)
    (hd : (rs.map Prod.fst).Nodup) (hn : ∀ r ∈ rs, r.1 ∉ captures.names) :
    rs.foldlM (classifyRead c c.reads around globals) captures =
      okUnless (unresolvedAmong c around globals rs)
        ⟨captures.entries ++ capturesAmong c around rs⟩ := by
  induction rs generalizing captures with
  | nil =>
    simp only [unresolvedAmong, capturesAmong, List.filterMap_nil, List.append_nil]
    rfl
  | cons r rs ih =>
    simp only [List.map_cons, List.nodup_cons] at hd
    rw [List.foldlM_cons, classifyRead_eq captures r (hn r (by simp)), unresolvedAmong_cons r rs,
      capturesAmong_cons r rs]
    refine okUnless_bind ?_
    rw [ih _ hd.2 ?_, List.append_assoc]
    -- the names still to be sorted differ from the one just captured
    intro r' hr' hmem
    simp only [Bindings.names, List.map_append, List.mem_append] at hmem
    rcases hmem with hmem | hmem
    · exact hn r' (by simp [hr']) hmem
    · rw [capturesAmong_names] at hmem
      have := (List.mem_filter.1 hmem).1
      rw [List.map_singleton, List.mem_singleton] at this
      exact hd.1 (this ▸ List.mem_map_of_mem hr')

/-- The captures of a closure, if it has no obstacles. -/
def FunDef.captures (c : FunDef) (around : Enclosing) : Captures :=
  ⟨capturesAmong c around c.reads.names.entries⟩

theorem FunDef.mem_captures {c : FunDef} {around : Enclosing} {x : String} :
    x ∈ (c.captures around).names ↔ x ∈ c.freeNames ∧ (captureType? c around x).isSome := by
  rw [Bindings.names, FunDef.captures, capturesAmong_names, List.mem_filter]
  exact and_congr_left' mem_reads_names

theorem FunDef.nodup_captures (c : FunDef) (around : Enclosing) :
    (c.captures around).names.Nodup := by
  rw [Bindings.names, FunDef.captures, capturesAmong_names]
  exact (nodup_reads_names c).filter _

/-- The errors of sorting the reads of a closure.  A name declared nonlocal comes first. -/
def classifyErrors (c : FunDef) (around : Enclosing) (globals : List String) :
    List ConversionError :=
  match c.reads.nonlocals with
  | x :: _ =>
    [if (around.type? x).isNone then .unresolved x c.name c.span
      else .capturedWrite x c.name c.span]
  | [] => unresolvedAmong c around globals c.reads.names.entries

/-- **The captures of a closure.**  Sorting the reads fails with a nonlocal declaration or else with
the first read that is bound nowhere, and otherwise gives the reads that stand for enclosing
variables. -/
theorem classify_eq :
    classify c c.reads around globals =
      okUnless (classifyErrors c around globals) (c.captures around) := by
  cases h : c.reads.nonlocals with
  | nil =>
    simp only [classify, classifyErrors, h]
    exact foldlM_classifyRead _ .empty (nodup_reads_names c) fun _ _ => by simp
  | cons x xs =>
    simp only [classify, classifyErrors, h]
    split <;> rfl

theorem classifyErrors_eq_nil :
    classifyErrors c around globals = [] ↔
      c.collect declaredNonlocal = [] ∧
        ∀ x ∈ c.freeNames, x ∈ c.binders ∨ (captureType? c around x).isSome ∨ x ∈ globals := by
  have nonlocals : c.reads.nonlocals = [] ↔ c.collect declaredNonlocal = [] := by
    simp only [List.eq_nil_iff_forall_not_mem, mem_reads_nonlocals]
  rw [← nonlocals]
  unfold classifyErrors
  split
  · rename_i h
    simp [h]
  · rename_i h
    simp only [h, true_and, unresolvedAmong, List.filterMap_eq_nil_iff]
    constructor
    · intro hall x hx
      obtain ⟨r, hr, rfl⟩ := List.mem_map.1 (mem_reads_names.2 hx)
      exact Classical.byContradiction fun hn => by simpa [hn] using hall r hr
    · intro hall r hr
      rw [if_pos (hall r.1 (mem_reads_names.1 (List.mem_map_of_mem hr)))]

end FlatClosure
