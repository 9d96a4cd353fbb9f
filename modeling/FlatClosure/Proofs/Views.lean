import FlatClosure.Proofs.Agreement
import FlatClosure.Proofs.Laws

/-!
# Related calls

In the two runs that are compared, a call has variables that correspond to each other.  A `View`
says how: in a call of a closure, the variables it has captured stand in its frame in the one run,
and in the fields of the object that the receiver holds in the other (`VarsRel`).  In other calls,
and outside of calls, both runs have the same variables.

`Allowed` says which effects of code on names a view puts up with.
-/

namespace FlatClosure

namespace Nested

/-! ### Views -/

/-- How the variables of a call in one run correspond to those in the other. -/
structure View where
  /-- The captured variables, and the receiver that holds them in its fields. -/
  site : ClosureSite
  /-- The names that one of the calls has for itself. -/
  hidden : List String := []
  /-- The object of the closure, if the call is one of a closure. -/
  held : List (Nat × Instance) := []
  /-- No call is open. -/
  top : Bool := false
  /-- Classes that are looked up by their names, so that no variable may hide them. -/
  avoid : List String := []
  receiver_hidden : ∀ x, site.captures.contains x = true → site.receiver ∈ hidden

/-- The variables of corresponding calls, inside comprehensions over the variables of `scope`. -/
structure VarsRel (V : View) (scope : List String) (f g : Frame) : Prop where
  globals : g.globals = f.globals
  same : ∀ x, x ∉ V.hidden → V.site.isCaptured x scope = false → g.vars.get? x = f.vars.get? x
  captured : ∀ x, V.site.isCaptured x scope = true → ∃ v, ∃ ro ∈ V.held,
    f.get? x = some v ∧ g.get? V.site.receiver = some (.object ro.1) ∧ ro.2.fields.get? x = some v

/-- The frames of corresponding calls. -/
structure FrameRel (ctx : Context) (V : View) (scope : List String) (f g : Frame) : Prop
    extends VarsRel V scope f g where
  fresh : ∀ x ∈ f.globals, x ∉ classes ctx

/-- The open calls in both runs. -/
structure Related (ctx : Context) (V : View) (scope : List String) (F G : List Frame) : Prop where
  length : F.length = G.length
  depth : F.length ≤ ctx.maxDepth
  top : F = [] ↔ V.top = true
  plain : F = [] → ∀ x, V.site.isCaptured x scope = false
  head : ∀ f fs g gs, F = f :: fs → G = g :: gs → FrameRel ctx V scope f g

/-- The effects that keep calls related. -/
def Allowed (ctx : Context) (V : View) : Effect → Prop
  | .read x => x ∉ V.hidden
  | .bind x => x ∉ V.hidden ∧ (V.top = true → x ∉ classes ctx)
  | .write x =>
    x ∉ V.hidden ∧ V.site.captures.contains x = false ∧ (V.top = true → x ∉ classes ctx) ∧
      x ∉ V.avoid
  | .global x =>
    x ∉ V.hidden ∧ V.site.captures.contains x = false ∧ (V.top = false → x ∉ classes ctx)
  | .closure _ => True

/-- All effects are allowed. -/
def Fits (ctx : Context) (V : View) (ms : List Effect) : Prop := ∀ m ∈ ms, Allowed ctx V m

section Views

variable {ctx : Context} {V : View} {scope : List String} {F G : List Frame}

theorem fits_append {ms ms' : List Effect} :
    Fits ctx V (ms ++ ms') ↔ Fits ctx V ms ∧ Fits ctx V ms' :=
  List.forall_mem_append

theorem fits_cons {m : Effect} {ms : List Effect} :
    Fits ctx V (m :: ms) ↔ Allowed ctx V m ∧ Fits ctx V ms :=
  List.forall_mem_cons

theorem Related.eq_nil_iff (h : Related ctx V scope F G) : F = [] ↔ G = [] := by
  rw [← List.length_eq_zero_iff, h.length, List.length_eq_zero_iff]

theorem isCaptured_nil {site : ClosureSite} {x : String} :
    site.isCaptured x [] = site.captures.contains x := by
  simp [ClosureSite.isCaptured]

theorem isCaptured_cons {site : ClosureSite} {x y : String} :
    site.isCaptured y (x :: scope) = true ↔ y ≠ x ∧ site.isCaptured y scope = true := by
  simp only [ClosureSite.isCaptured, Bool.and_eq_true, Bool.not_eq_true', List.contains_cons,
    Bool.or_eq_false_iff, beq_eq_false_iff_ne]
  exact and_left_comm

/-- What a call of a closure has captured, and the receiver, are none of the other names. -/
theorem captured_ne {x y : String} (hy : V.site.isCaptured y scope = true) (hid : x ∉ V.hidden)
    (hcap : V.site.captures.contains x = false) : y ≠ x ∧ V.site.receiver ≠ x := by
  have hcy : V.site.captures.contains y = true := by
    rw [ClosureSite.isCaptured, Bool.and_eq_true] at hy
    exact hy.1
  constructor
  · rintro rfl
    rw [hcap] at hcy
    cases hcy
  · rintro rfl
    exact hid (V.receiver_hidden y hcy)

namespace VarsRel

variable {f g : Frame} {x : String}

theorem get?_eq (h : VarsRel V scope f g) (hx : x ∉ V.hidden)
    (hc : V.site.isCaptured x scope = false) : g.get? x = f.get? x := by
  rw [Frame.get?, Frame.get?, Frame.isGlobal, Frame.isGlobal, h.globals, h.same x hx hc]

theorem hasLocal_eq (h : VarsRel V scope f g) (hx : x ∉ V.hidden)
    (hc : V.site.isCaptured x scope = false) : g.hasLocal x = f.hasLocal x := by
  rw [Frame.hasLocal, Frame.hasLocal, Frame.isGlobal, Frame.isGlobal, h.globals, Bindings.contains,
    Bindings.contains, h.same x hx hc]

theorem isGlobal_eq (h : VarsRel V scope f g) (x : String) : g.isGlobal x = f.isGlobal x := by
  rw [Frame.isGlobal, Frame.isGlobal, h.globals]

theorem isVariable_eq (h : VarsRel V scope f g) (hx : x ∉ V.hidden)
    (hc : V.site.isCaptured x scope = false) {s : Machine} {fs gs : List Frame}
    (hs : s.frames = f :: fs) : (s.withFrames (g :: gs)).isVariable x = s.isVariable x := by
  simp only [Machine.isVariable, Machine.frames_withFrames, Machine.globals_withFrames, hs,
    List.head?_cons, Option.any_some, h.hasLocal_eq hx hc]

theorem lookup?_eq (h : VarsRel V scope f g) (hx : x ∉ V.hidden)
    (hc : V.site.isCaptured x scope = false) (p : Program) {s : Machine} {fs gs : List Frame}
    (hs : s.frames = f :: fs) : (s.withFrames (g :: gs)).lookup? p x = s.lookup? p x := by
  simp only [Machine.lookup?, Machine.frames_withFrames, Machine.globals_withFrames, hs,
    List.head?_cons, Option.bind_some, h.get?_eq hx hc]

/-- A captured variable is a variable. -/
theorem isCaptured_of_isVariable (h : VarsRel V scope f g) {s : Machine} {fs : List Frame}
    (hs : s.frames = f :: fs) (hx : s.isVariable x = false) :
    V.site.isCaptured x scope = false := by
  refine Bool.eq_false_iff.2 fun hc => ?_
  obtain ⟨v, -, -, hf, -⟩ := h.captured x hc
  have := lookup?_of_isVariable (p := {}) hx
  simp [Machine.lookup?, hs, hf, Program.function?] at this

/-- In one run a captured variable is found in the frame, in the other in the receiver. -/
theorem read_captured (h : VarsRel V scope f g) (hc : V.site.isCaptured x scope = true)
    {s : Machine} {fs gs : List Frame} (hs : s.frames = f :: fs)
    (held : ∀ ro ∈ V.held, s.heap.objects[ro.1]? = some ro.2) (p : Program)
    (k : FlatClosure.Calls) (span : Span) :
    ∃ v, s.lookup? p x = some v ∧
      ((Expr.field (.id V.site.receiver span) x).eval k).run (s.withFrames (g :: gs)) =
        (.ok v, s.withFrames (g :: gs)) := by
  obtain ⟨v, ro, hro, hf, hg, hv⟩ := h.captured x hc
  have receiver : (readName k V.site.receiver).run (s.withFrames (g :: gs)) =
      (.ok (.object ro.1), s.withFrames (g :: gs)) := by
    refine readName_run_eq_ok.2 ⟨?_, rfl⟩
    simp only [Machine.lookup?, Machine.frames_withFrames, List.head?_cons, Option.bind_some, hg]
  have object : s.heap.object ro.1 = ro.2 := by
    rw [Heap.object, held ro hro]
    rfl
  refine ⟨v, by simp only [Machine.lookup?, hs, List.head?_cons, Option.bind_some, hf], ?_⟩
  change (readName k V.site.receiver >>= fun v => FlatClosure.getField v x).run _ = _
  rw [run_bind_of_ok receiver, FlatClosure.getField, run_get_bind, Machine.heap_withFrames, object]
  simp only [hv]
  rfl

/-- The variables when a comprehension variable has got a value. -/
theorem shadow (h : VarsRel V scope f g) (hx : x ∉ V.hidden) (v : Value) :
    VarsRel V (x :: scope) (f.set x v) (g.set x v) := by
  refine ⟨h.globals, fun y hy hc => ?_, fun y hc => ?_⟩
  · simp only [Frame.set, Bindings.get?_insert]
    split
    · rfl
    · rename_i hne
      refine h.same y hy (Bool.eq_false_iff.2 fun h => ?_)
      rw [isCaptured_cons.2 ⟨hne, h⟩] at hc
      cases hc
  · obtain ⟨hne, hc⟩ := isCaptured_cons.1 hc
    obtain ⟨w, ro, hro, hf, hg, hw⟩ := h.captured y hc
    have hr : V.site.receiver ≠ x := by
      rintro rfl
      simp only [ClosureSite.isCaptured, Bool.and_eq_true] at hc
      exact hx (V.receiver_hidden y hc.1)
    refine ⟨w, ro, hro, ?_, ?_, hw⟩
    · simpa [Frame.get?, Frame.set, Frame.isGlobal, Bindings.get?_insert, hne] using hf
    · simpa [Frame.get?, Frame.set, Frame.isGlobal, Bindings.get?_insert, hr] using hg

/-- The variables when one that is not captured has got a value. -/
theorem set (h : VarsRel V scope f g) (hx : x ∉ V.hidden)
    (hcap : V.site.captures.contains x = false) (v : Value) :
    VarsRel V scope (f.set x v) (g.set x v) := by
  refine ⟨h.globals, fun y hy hc => ?_, fun y hc => ?_⟩
  · simp only [Frame.set, Bindings.get?_insert]
    split
    · rfl
    · exact h.same y hy hc
  · obtain ⟨w, ro, hro, hf, hg, hw⟩ := h.captured y hc
    obtain ⟨hy, hr⟩ := captured_ne hc hx hcap
    refine ⟨w, ro, hro, ?_, ?_, hw⟩
    · simpa [Frame.get?, Frame.set, Frame.isGlobal, Bindings.get?_insert, hy] using hf
    · simpa [Frame.get?, Frame.set, Frame.isGlobal, Bindings.get?_insert, hr] using hg

/-- An assignment changes a variable of the call in both runs, or a global variable in both. -/
theorem store_cases (h : VarsRel V scope f g) (hx : x ∉ V.hidden)
    (hc : V.site.isCaptured x scope = false) {s : Machine} {fs : List Frame}
    (hs : s.frames = f :: fs) (gs : List Frame) (v : Value) :
    (s.store x v = s.withFrames (f.set x v :: fs) ∧
        (s.withFrames (g :: gs)).store x v = s.withFrames (g.set x v :: gs)) ∨
      ((f.isGlobal x = true ∨ s.globals.contains x = true) ∧
        s.store x v = { s with globals := s.globals.insert x v } ∧
        (s.withFrames (g :: gs)).store x v =
          { s with globals := s.globals.insert x v }.withFrames (g :: gs)) := by
  simp only [Machine.store, hs, Machine.frames_withFrames, Machine.globals_withFrames,
    h.isGlobal_eq, h.hasLocal_eq hx hc]
  split
  · exact .inl ⟨rfl, rfl⟩
  · rename_i hcond
    refine .inr ⟨?_, rfl, rfl⟩
    cases hg : f.isGlobal x with
    | true => exact .inl rfl
    | false =>
      simp only [hg, Bool.not_false, Bool.true_and, Bool.or_eq_true, not_or,
        Bool.not_eq_true, Bool.not_eq_false'] at hcond
      exact .inr hcond.2

theorem declareGlobal (h : VarsRel V scope f g) (hx : x ∉ V.hidden)
    (hcap : V.site.captures.contains x = false) :
    VarsRel V scope (f.declareGlobal x) (g.declareGlobal x) := by
  rw [Frame.declareGlobal, Frame.declareGlobal, h.isGlobal_eq]
  split
  · exact h
  · refine ⟨congrArg (· ++ [x]) h.globals, h.same, fun y hc => ?_⟩
    obtain ⟨w, ro, hro, hf, hg, hw⟩ := h.captured y hc
    obtain ⟨hy, hr⟩ := captured_ne hc hx hcap
    refine ⟨w, ro, hro, ?_, ?_, hw⟩
    · simpa [Frame.get?, Frame.isGlobal, hy] using hf
    · simpa [Frame.get?, Frame.isGlobal, hr] using hg

end VarsRel

/-- The calls when a comprehension variable has got a value. -/
theorem Related.shadowed (h : Related ctx V scope F G) {x : String} (hx : x ∉ V.hidden)
    (v : Value) :
    Related ctx V (x :: scope) (shadowed x v F) (shadowed x v G) := by
  cases F with
  | nil =>
    obtain rfl := h.eq_nil_iff.1 rfl
    refine ⟨rfl, h.depth, h.top, fun _ y => ?_, fun _ _ _ _ e => nomatch e⟩
    refine Bool.eq_false_iff.2 fun hy => ?_
    rw [isCaptured_cons, h.plain rfl y] at hy
    cases hy.2
  | cons f fs =>
    cases G with
    | nil => cases h.eq_nil_iff.2 rfl
    | cons g gs =>
      have rel := h.head f fs g gs rfl rfl
      refine ⟨h.length, h.depth, shadowed_eq_nil.trans h.top, (nomatch ·), ?_⟩
      intro f' fs' g' gs' hf hg
      cases hf
      cases hg
      exact ⟨rel.shadow hx v, rel.fresh⟩

end Views

end Nested

end FlatClosure
