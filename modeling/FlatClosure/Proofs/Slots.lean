import FlatClosure.Proofs.Hygiene
import FlatClosure.Proofs.Points
import Mathlib.Data.List.Forall2

/-!
# The variables a converted function starts with

A call starts with the parameters of the function and then gives its locals their literals, so a
local of the name of a parameter takes its place.  Conversion gives every closure a local: it takes
the place of the first local of the name of the closure, or it comes after the locals there are.
The parameters are not looked at.

* `FunDef.get?_frame` : a name has the literal of its last local, or else its last argument.
* `FunDef.get?_frame_converted` : **a call of a converted function starts with the variables that it
  started with, except for the closures that have at most one local of their name.**
* `converted_frames` : what that means for parameters, locals and closures.
* `namesake_frames` : a parameter of the name of a closure loses its argument.
-/

namespace FlatClosure

namespace FunDef

variable {f : FunDef} {args : List Value} {x : String}

/-- The locals of a name, of which the last gives it its literal. -/
def localsNamed (f : FunDef) (x : String) : List VarInit := f.inits.filter (·.name == x)

theorem mem_localsNamed {v : VarInit} : v ∈ f.localsNamed x ↔ v ∈ f.inits ∧ v.name = x := by
  simp [localsNamed]

/-- The arguments that are passed for the parameters of a name. -/
def argumentsNamed (f : FunDef) (args : List Value) (x : String) : List (String × Value) :=
  ((f.params.map (·.name)).zip args).filter (·.1 == x)

/-- The variable of a name in the frame a call starts with. -/
theorem get?_frame (f : FunDef) (args : List Value) (x : String) :
    (f.frame args).vars.get? x =
      ((f.localsNamed x).getLast?.map (·.value.toValue)).or
        ((f.argumentsNamed args x).getLast?.map Prod.snd) := by
  rw [frame, Bindings.ofList, Bindings.insertAll_append, Nested.get?_insertAll_inits,
    Bindings.get?_insertAll, Bindings.get?_empty, Option.or_none]
  rfl

/-- A local has its last literal. -/
theorem exists_local_of_mem (h : x ∈ f.inits.map (·.name)) (args : List Value) :
    ∃ v ∈ f.inits, v.name = x ∧ (f.frame args).vars.get? x = some v.value.toValue := by
  obtain ⟨w, hw, hx⟩ := List.mem_map.1 h
  have ne : f.localsNamed x ≠ [] := List.ne_nil_of_mem (mem_localsNamed.2 ⟨hw, hx⟩)
  obtain ⟨hv, name⟩ := mem_localsNamed.1 (List.getLast_mem ne)
  refine ⟨_, hv, name, ?_⟩
  rw [get?_frame, List.getLast?_eq_some_getLast ne, Option.map_some, Option.some_or]

/-- A parameter that is not a local has the last argument that is passed for it. -/
theorem exists_argument_of_mem (len : args.length = f.arity) (h : x ∈ f.params.map (·.name))
    (hx : x ∉ f.inits.map (·.name)) :
    ∃ (i : Nat) (v : Value), (f.params.map (·.name))[i]? = some x ∧ args[i]? = some v ∧
      (f.frame args).vars.get? x = some v := by
  have none : f.localsNamed x = [] :=
    List.filter_eq_nil_iff.2 fun v hv hb =>
      hx (List.mem_map.2 ⟨v, hv, beq_iff_eq.1 hb⟩)
  obtain ⟨v, hv⟩ := Bindings.exists_get?_of_mem (mem_names_frame len (List.mem_append_left _ h))
  have last := hv
  rw [get?_frame, none, List.getLast?_nil, Option.map_none, Option.none_or,
    Option.map_eq_some_iff] at last
  obtain ⟨⟨y, w⟩, hlast, rfl⟩ := last
  obtain ⟨hmem, hy⟩ := List.mem_filter.1 (List.mem_of_getLast? hlast)
  obtain ⟨i, hi⟩ := List.mem_iff_getElem?.1 hmem
  obtain ⟨param, arg⟩ := List.getElem?_zip_eq_some.1 hi
  exact ⟨i, w, beq_iff_eq.1 hy ▸ param, arg, hv⟩

/-- The variables a call of a converted function starts with.  A closure takes the place of the
first local of its name: if there is another one, that one still counts. -/
theorem get?_frame_converted (names : Conventions) (f : FunDef) (ds : List Declaration)
    (args : List Value) (x : String) :
    ((f.converted names ds).frame args).vars.get? x =
      if x ∈ ds.map (·.func.name) ∧ (f.localsNamed x).length ≤ 1 then some .none
      else (f.frame args).vars.get? x := by
  rw [get?_frame, get?_frame]
  change (((Nested.slots names ds f.inits).filter (·.name == x)).getLast?.map _).or _ = _
  by_cases hx : x ∈ ds.map (·.func.name)
  · obtain ⟨slot, hnone, hslot⟩ := Nested.filter_slots_of_mem names f.inits hx
    rw [hslot]
    change ((slot :: (f.localsNamed x).tail).getLast?.map _).or _ = _
    cases f.localsNamed x with
    | nil => simp [hx, hnone, Literal.toValue]
    | cons v vs =>
      cases vs with
      | nil => simp [hx, hnone, Literal.toValue]
      | cons w ws => simp [hx, argumentsNamed, converted]
  · rw [Nested.filter_slots_of_not_mem names f.inits hx, if_neg fun h => hx h.1]
    rfl

end FunDef

/-- How a call of a function starts before and after conversion. -/
structure KeepsFrame (f f' : FunDef) (args : List Value) : Prop where
  /-- A parameter that no closure is named after has the same value, which is an argument that is
  passed for it unless a local takes its place. -/
  params : ∀ x ∈ f.params.map (·.name), x ∉ f.closures.map (·.name) →
    ∃ v, (f.frame args).vars.get? x = some v ∧ (f'.frame args).vars.get? x = some v ∧
      (x ∉ f.inits.map (·.name) →
        ∃ i : Nat, (f.params.map (·.name))[i]? = some x ∧ args[i]? = some v)
  /-- A local that no closure is named after has the same literal. -/
  locals : ∀ x ∈ f.inits.map (·.name), x ∉ f.closures.map (·.name) →
    ∃ v ∈ f.inits, v.name = x ∧ (f.frame args).vars.get? x = some v.value.toValue ∧
      (f'.frame args).vars.get? x = some v.value.toValue
  /-- The name of a closure has no value yet, also if it is the name of a parameter, unless there
  are several locals of that name. -/
  closures : ∀ x ∈ f.closures.map (·.name), (f'.frame args).vars.get? x =
    if (f.localsNamed x).length ≤ 1 then some .none else (f.frame args).vars.get? x
  /-- There are no other variables. -/
  others : ∀ x, x ∉ f.binders → x ∉ f.closures.map (·.name) →
    (f'.frame args).vars.get? x = none

theorem FunDef.keepsFrame {names : Conventions} {f : FunDef} {ds : List Declaration}
    (closures : ds.map (·.func.name) = f.closures.map (·.name)) {args : List Value}
    (len : args.length = f.arity) : KeepsFrame f (f.converted names ds) args := by
  have same {x : String} (hx : x ∉ f.closures.map (·.name)) :
      ((f.converted names ds).frame args).vars.get? x = (f.frame args).vars.get? x := by
    rw [get?_frame_converted, closures, if_neg fun h => hx h.1]
  constructor
  case params =>
    intro x hx hc
    rw [same hc]
    by_cases hl : x ∈ f.inits.map (·.name)
    · obtain ⟨v, -, -, hv⟩ := exists_local_of_mem hl args
      exact ⟨_, hv, hv, fun h => absurd hl h⟩
    · obtain ⟨i, v, param, arg, hv⟩ := exists_argument_of_mem len hx hl
      exact ⟨v, hv, hv, fun _ => ⟨i, param, arg⟩⟩
  case locals =>
    intro x hx hc
    obtain ⟨v, hv, name, value⟩ := exists_local_of_mem hx args
    exact ⟨v, hv, name, value, (same hc).trans value⟩
  case closures =>
    intro x hx
    rw [get?_frame_converted, closures]
    exact if_congr (and_iff_right hx) rfl rfl
  case others =>
    intro x hx hc
    rw [same hc]
    exact Bindings.get?_eq_none_iff.2 fun h => hx (mem_binders_of_frame h)

/-- **The variables of a call.**  The functions of a converted program take as many arguments as
they did, and a call starts with the same parameters and locals, except that the name of a closure
starts as `None`. -/
theorem converted_frames {names : Conventions} {p q : Program} {artifacts : Artifacts}
    (h : convert names p = .ok (q, artifacts)) :
    List.Forall₂ (fun f f' => f'.arity = f.arity ∧
        ∀ args, args.length = f.arity → KeepsFrame f f' args)
      p.funs q.funs := by
  obtain ⟨-, rfl, -⟩ := (convert_eq_ok names).1 h
  have funs : p.funs = (p.plan names).map Prod.fst :=
    (map_fst_plan names p.globalNames {} p.funs).symm
  rw [funs, Program.converted, List.forall₂_map_left_iff, List.forall₂_map_right_iff,
    List.forall₂_same]
  intro fd hfd
  have closures : fd.2.map (·.func.name) = fd.1.closures.map (·.name) := by
    rw [← map_func_of_mem_plan hfd, List.map_map]
    rfl
  exact ⟨rfl, fun args len => FunDef.keepsFrame closures len⟩

/-- A program that calls `f`, which prints `x` and then declares a closure of that name. -/
def namesake (params : List Param) (inits : List VarInit) (args : List Expr) : Program where
  funs :=
    [{ name := "f"
       params := params
       ret := .none
       inits := inits
       body :=
        [.expr (.builtin1 "print" (.id "x" .dummy)),
          .closure
            { name := "x"
              params := []
              ret := .int
              inits := []
              body := [.ret (some (.literal (.num 1)))]
              span := .dummy }]
       span := .dummy }]
  stmts := [.expr (.call (.id "f" .dummy) args)]

/-- A parameter, a local and a closure with names of their own. -/
theorem converted_frames_distinct :
    ∃ q artifacts f f', convert {} (namesake [⟨"y", .int⟩] [⟨"z", .int, .num 3⟩]
        [.literal (.num 7)]) = .ok (q, artifacts) ∧
      (namesake [⟨"y", .int⟩] [⟨"z", .int, .num 3⟩] [.literal (.num 7)]).funs = [f] ∧
      q.funs = [f'] ∧ KeepsFrame f f' [.int 7] ∧
        (f'.frame [.int 7]).vars.get? "x" = some .none := by
  have h : convert {} (namesake [⟨"y", .int⟩] [⟨"z", .int, .num 3⟩] [.literal (.num 7)]) =
      .ok (_, _) := rfl
  have keeps := (List.forall₂_cons.1 (converted_frames h)).1.2 [.int 7] rfl
  exact ⟨_, _, _, _, h, rfl, rfl, keeps, keeps.closures "x" (.head _)⟩

/-- A parameter of the name of the closure. -/
def overwritten : Program := namesake [⟨"x", .int⟩] [] [.literal (.num 5)]

/-- Two locals of the name of the closure. -/
def declaredTwice : Program := namesake [] [⟨"x", .int, .num 1⟩, ⟨"x", .int, .num 2⟩] []

/-- **A closure takes the place of a parameter.**  If a closure has the name of a parameter, then
the argument is lost in the converted program; and if two locals have the name of a closure, then it
starts with the literal of the second one. -/
theorem namesake_frames :
    (∃ q artifacts f f', convert {} overwritten = .ok (q, artifacts) ∧
      overwritten.funs = [f] ∧ q.funs = [f'] ∧
      (f.frame [.int 5]).vars.get? "x" = some (.int 5) ∧
      (f'.frame [.int 5]).vars.get? "x" = some .none ∧
      ((Context.mk q {} 200).run 4).toOption = some "None\n") ∧
    ∃ q artifacts f', convert {} declaredTwice = .ok (q, artifacts) ∧ q.funs = [f'] ∧
      (f'.frame []).vars.get? "x" = some (.int 2) ∧
      ((Context.mk q {} 200).run 4).toOption = some "2\n" := by
  refine ⟨⟨overwritten.converted {}, _, _, _, (convert_eq_ok _).2 ⟨?_, rfl, rfl⟩, rfl, rfl, rfl,
    rfl, ?_⟩, declaredTwice.converted {}, _, _, (convert_eq_ok _).2 ⟨?_, rfl, rfl⟩, rfl, rfl, ?_⟩
  all_goals decide +kernel

end FlatClosure
