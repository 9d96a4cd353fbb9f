import FlatClosure.Proofs.Lifting

/-!
# The shape of a converted program

What closure conversion changes in a program, and that it changes nothing else
(`convert_shape`).

* Every declaration of a closure, at whatever depth of blocks, is replaced by the statements that
  make its object (`Stmt.spliceList`), and every closure has one class (`LiftsTo`).
* The variables of a function keep their order.  Where a variable has the name of a closure it takes
  the type of the class; closures without a variable get one at the end
  (`foldl_setInit`).
-/

namespace FlatClosure

/-! ### The variables of a function -/

/-- The last of the slots with a name. -/
def slotFor? (slots : List VarInit) (x : String) : Option VarInit :=
  slots.reverse.find? (·.name == x)

/-- The variables, where the first one of every name is replaced by the last slot of that name.
Variables of names in `seen` are kept. -/
def retype (slots : List VarInit) (seen : List String) : List VarInit → List VarInit
  | [] => []
  | v :: vs =>
    (if v.name ∈ seen then v else (slotFor? slots v.name).getD v) ::
      retype slots (v.name :: seen) vs

/-- The names of slots that no variable has, in the order in which they first occur. -/
def newNames (slots inits : List VarInit) : List String :=
  ((slots.map (·.name)).filter (· ∉ inits.map (·.name))).foldl addName []

/-- The slots of names that no variable has. -/
def newSlots (slots inits : List VarInit) : List VarInit :=
  (newNames slots inits).filterMap (slotFor? slots)

section Slots

variable {s : VarInit} {slots inits : List VarInit} {seen : List String} {x : String}

theorem slotFor?_concat :
    slotFor? (slots ++ [s]) x = if s.name = x then some s else slotFor? slots x := by
  by_cases h : s.name = x <;> simp [slotFor?, h]

theorem name_slotFor? (h : slotFor? slots x = some s) : s.name = x := by
  simpa using List.find?_some h

theorem map_name_retype : (retype slots seen inits).map (·.name) = inits.map (·.name) := by
  induction inits generalizing seen with
  | nil => rfl
  | cons v vs ih =>
    rw [retype, List.map_cons, List.map_cons, ih]
    congr 1
    split
    · rfl
    · cases h : slotFor? slots v.name with
      | none => rfl
      | some s => exact name_slotFor? h

theorem retype_nil : retype [] seen inits = inits := by
  induction inits generalizing seen with
  | nil => rfl
  | cons v vs ih => simp [retype, slotFor?, ih]

theorem setInit_append_of_mem {l m : List VarInit} (h : s.name ∈ l.map (·.name)) :
    setInit s (l ++ m) = setInit s l ++ m := by
  induction l with
  | nil => cases h
  | cons v l ih =>
    by_cases hv : v.name = s.name
    · simp [setInit, hv]
    · have : s.name ∈ l.map (·.name) := by
        rcases List.mem_cons.1 h with h | h
        · exact absurd h.symm hv
        · exact h
      simp [setInit, hv, ih this]

theorem setInit_append_of_not_mem {l m : List VarInit} (h : s.name ∉ l.map (·.name)) :
    setInit s (l ++ m) = l ++ setInit s m := by
  induction l with
  | nil => rfl
  | cons v l ih =>
    rw [List.map_cons, List.mem_cons, not_or] at h
    rw [List.cons_append, setInit, if_neg (Ne.symm h.1), ih h.2]
    rfl

theorem setInit_of_not_mem (h : s.name ∉ inits.map (·.name)) : setInit s inits = inits ++ [s] := by
  rw [← List.append_nil inits, setInit_append_of_not_mem h, setInit, List.append_nil]

/-- A slot changes nothing among the variables if they have no unseen one of its name. -/
theorem retype_concat_of_not_mem (h : s.name ∈ seen ∨ s.name ∉ inits.map (·.name)) :
    retype (slots ++ [s]) seen inits = retype slots seen inits := by
  induction inits generalizing seen with
  | nil => rfl
  | cons v vs ih =>
    have hvs : s.name ∈ v.name :: seen ∨ s.name ∉ vs.map (·.name) :=
      h.imp (List.mem_cons_of_mem _) (mt (List.mem_cons_of_mem _))
    rw [retype, retype, ih hvs, slotFor?_concat]
    congr 1
    by_cases hv : v.name ∈ seen
    · rw [if_pos hv, if_pos hv]
    · have : s.name ≠ v.name := by
        rintro hs
        rcases h with h | h
        · exact hv (hs ▸ h)
        · exact h (hs ▸ List.mem_cons_self)
      rw [if_neg this]

theorem retype_concat_of_mem (hs : s.name ∉ seen) (h : s.name ∈ inits.map (·.name)) :
    retype (slots ++ [s]) seen inits = setInit s (retype slots seen inits) := by
  induction inits generalizing seen with
  | nil => cases h
  | cons v vs ih =>
    by_cases hv : s.name = v.name
    · have head : (if v.name ∈ seen then v else (slotFor? slots v.name).getD v).name = s.name := by
        rw [if_neg (hv ▸ hs), hv]
        cases hslot : slotFor? slots v.name with
        | none => rfl
        | some s' => exact name_slotFor? hslot
      rw [retype, retype, setInit, if_pos head, if_neg (hv ▸ hs), slotFor?_concat, if_pos hv,
        retype_concat_of_not_mem (.inl (hv ▸ List.mem_cons_self))]
      rfl
    · have hvs : s.name ∈ vs.map (·.name) := (List.mem_cons.1 h).resolve_left hv
      have head : (if v.name ∈ seen then v else (slotFor? slots v.name).getD v).name ≠ s.name := by
        split
        · exact Ne.symm hv
        · cases hslot : slotFor? slots v.name with
          | none => exact Ne.symm hv
          | some s' => exact fun e => hv (e.symm.trans (name_slotFor? hslot))
      rw [retype, retype, setInit, if_neg head, ih (List.not_mem_cons_of_ne_of_not_mem hv hs) hvs,
        slotFor?_concat, if_neg hv]

theorem mem_newNames :
    x ∈ newNames slots inits ↔ x ∈ slots.map (·.name) ∧ x ∉ inits.map (·.name) := by
  rw [newNames, mem_foldl_addName, List.mem_filter]
  simp

theorem newNames_concat :
    newNames (slots ++ [s]) inits =
      if s.name ∈ inits.map (·.name) then newNames slots inits
      else addName (newNames slots inits) s.name := by
  rw [newNames, List.map_append, List.filter_append, List.foldl_append, List.map_singleton]
  by_cases h : s.name ∈ inits.map (·.name)
  · rw [if_pos h, List.filter_cons_of_neg (by simpa using h)]
    rfl
  · rw [if_neg h, List.filter_cons_of_pos (by simpa using h)]
    rfl

theorem nodup_newNames : (newNames slots inits).Nodup := nodup_foldl_addName _ List.nodup_nil

theorem exists_slotFor? (h : x ∈ slots.map (·.name)) : ∃ s, slotFor? slots x = some s := by
  rw [← Option.isSome_iff_exists, slotFor?, List.find?_isSome]
  simpa using h

theorem map_name_filterMap {ns : List String} (h : ∀ x ∈ ns, x ∈ slots.map (·.name)) :
    (ns.filterMap (slotFor? slots)).map (·.name) = ns := by
  induction ns with
  | nil => rfl
  | cons x ns ih =>
    obtain ⟨s, hs⟩ := exists_slotFor? (h x List.mem_cons_self)
    rw [List.filterMap_cons, hs, List.map_cons, name_slotFor? hs,
      ih fun y hy => h y (List.mem_cons_of_mem _ hy)]

theorem filterMap_concat_of_not_mem {ns : List String} (h : s.name ∉ ns) :
    ns.filterMap (slotFor? (slots ++ [s])) = ns.filterMap (slotFor? slots) := by
  induction ns with
  | nil => rfl
  | cons x ns ih =>
    rw [List.mem_cons, not_or] at h
    rw [List.filterMap_cons, List.filterMap_cons, slotFor?_concat, if_neg h.1, ih h.2]

theorem filterMap_concat_of_mem {ns : List String} (hd : ns.Nodup)
    (hn : ∀ x ∈ ns, x ∈ slots.map (·.name)) (h : s.name ∈ ns) :
    ns.filterMap (slotFor? (slots ++ [s])) = setInit s (ns.filterMap (slotFor? slots)) := by
  induction ns with
  | nil => cases h
  | cons x ns ih =>
    rw [List.nodup_cons] at hd
    obtain ⟨s', hs'⟩ := exists_slotFor? (hn x List.mem_cons_self)
    by_cases hx : s.name = x
    · rw [List.filterMap_cons, List.filterMap_cons, slotFor?_concat, if_pos hx, hs',
        filterMap_concat_of_not_mem (hx ▸ hd.1)]
      exact (if_pos ((name_slotFor? hs').trans hx.symm)).symm
    · rw [List.filterMap_cons, List.filterMap_cons, slotFor?_concat, if_neg hx, hs',
        ih hd.2 (fun y hy => hn y (List.mem_cons_of_mem _ hy))
          ((List.mem_cons.1 h).resolve_left hx)]
      exact (if_neg fun e => hx (e.symm.trans (name_slotFor? hs'))).symm

/-- One more slot. -/
theorem setInit_retype_append_newSlots :
    setInit s (retype slots [] inits ++ newSlots slots inits) =
      retype (slots ++ [s]) [] inits ++ newSlots (slots ++ [s]) inits := by
  have known (y : String) (hy : y ∈ newNames slots inits) : y ∈ slots.map (·.name) :=
    (mem_newNames.1 hy).1
  by_cases h : s.name ∈ inits.map (·.name)
  · have hnew : s.name ∉ newNames slots inits := fun hs => (mem_newNames.1 hs).2 h
    rw [setInit_append_of_mem (by rwa [map_name_retype]), retype_concat_of_mem (by simp) h,
      newSlots, newSlots, newNames_concat, if_pos h, filterMap_concat_of_not_mem hnew]
  · rw [setInit_append_of_not_mem (by rwa [map_name_retype]), retype_concat_of_not_mem (.inr h),
      newSlots, newSlots, newNames_concat, if_neg h, addName]
    split
    · rename_i hs
      rw [filterMap_concat_of_mem nodup_newNames known hs]
    · rename_i hs
      rw [setInit_of_not_mem (by rwa [map_name_filterMap known]), List.filterMap_append,
        filterMap_concat_of_not_mem hs]
      simp [slotFor?_concat]

/-- **The variables of a function after its closures are lifted.** -/
theorem foldl_setInit (slots inits : List VarInit) :
    slots.foldl (fun vs s => setInit s vs) inits =
      retype slots [] inits ++ newSlots slots inits := by
  -- with the slots that are done in front of those still to come
  have step (done todo : List VarInit) :
      todo.foldl (fun vs s => setInit s vs) (retype done [] inits ++ newSlots done inits) =
        retype (done ++ todo) [] inits ++ newSlots (done ++ todo) inits := by
    induction todo generalizing done with
    | nil => rw [List.append_nil, List.foldl_nil]
    | cons s todo ih =>
      rw [List.foldl_cons, setInit_retype_append_newSlots, ih, List.append_assoc]
      rfl
  have start : retype [] [] inits ++ newSlots [] inits = inits := by
    rw [retype_nil, newSlots]
    exact List.append_nil inits
  have whole := step [] slots
  rwa [start] at whole

end Slots

/-! ### Closures -/

/-- What a closure is lifted to: a class with a field for every capture, a method with the body of
the closure in which the captures are read from the receiver, and a constructor that does nothing,
and in the place of the closure the statements that make an object of it and copy the captures into
the fields. -/
inductive LiftsTo (names : Conventions) (globals : List String) (around : Enclosing) (c : FunDef) :
    Lifted → Prop
  | intro {reads : Reads} {captures : Captures} {receiver cls : String} {body : List Stmt}
      (hreads : collectReads c = .ok reads)
      (hcaptures : classify c reads around globals = .ok captures)
      (hbody : substituteCaptures ⟨c.name, c.span, captures, receiver⟩ c.body = .ok body) :
      LiftsTo names globals around c
        { cls :=
            { name := cls
              fields := captures.entries.map fun xt => ⟨xt.1, xt.2, .defaultFor xt.2⟩
              methods :=
                [{ c with
                    name := names.callMethod, params := ⟨receiver, .cls cls⟩ :: c.params, body },
                  { name := names.constructor, params := [⟨receiver, .cls cls⟩], ret := .none,
                    inits := [], body := [], span := .dummy }] }
          creation :=
            .assign c.name (.call (.id cls c.span) []) ::
              captures.names.map fun x => .setField (.id c.name c.span) x (.id x c.span)
          slot := ⟨c.name, .cls cls, .none⟩
          arity := c.params.length }

/-- The closures of a function with the given parameters and variables, lifted in order.  Each sees
the slots of those before it. -/
inductive LiftsInTurn (names : Conventions) (globals : List String) (params : List Param) :
    List VarInit → List FunDef → List Lifted → Prop
  | nil {inits : List VarInit} : LiftsInTurn names globals params inits [] []
  | cons {inits : List VarInit} {c : FunDef} {cs : List FunDef} {l : Lifted} {ls : List Lifted}
      (first : LiftsTo names globals ⟨params, inits⟩ c l)
      (rest : LiftsInTurn names globals params (setInit l.slot inits) cs ls) :
      LiftsInTurn names globals params inits (c :: cs) (l :: ls)

theorem Declaration.liftsTo {names : Conventions} {globals : List String} {d : Declaration}
    (h : d.errors names globals = []) : LiftsTo names globals d.around d.func (d.lifted names) := by
  simp only [errors, List.append_eq_nil_iff] at h
  obtain ⟨hobs, hclass, hrej⟩ := h
  have hreads : collectReads d.func = .ok d.func.reads := by
    rw [collectReads_eq, hobs, okUnless_nil]
  have hcaptures : classify d.func d.func.reads d.around globals = .ok d.captures := by
    rw [classify_eq, hclass, okUnless_nil]
    rfl
  have hbody : substituteCaptures (d.site names) d.func.body = .ok (d.redirected names).body :=
    (substituteCaptures_eq _ _).trans (congrArg (okUnless · _) hrej)
  exact .intro hreads hcaptures hbody

theorem Host.liftsInTurn {H : Host} {st : Lifting} {xs : List Encounter} (h : H.errors st xs = []) :
    LiftsInTurn H.names H.globals H.func.params st.inits (xs.filterMap Encounter.closure?)
      ((H.declare st (xs.filterMap Encounter.closure?)).map (·.lifted H.names)) := by
  induction xs generalizing st with
  | nil => exact .nil
  | cons x xs ih =>
    cases x with
    | lambda s => cases h
    | closure c =>
      rw [errors, List.append_eq_nil_iff] at h
      exact .cons (Declaration.liftsTo h.1) (ih h.2)

theorem LiftsInTurn.map_arity {names : Conventions} {globals : List String} {params : List Param}
    {inits : List VarInit} {cs : List FunDef} {ls : List Lifted}
    (h : LiftsInTurn names globals params inits cs ls) :
    ls.map (·.arity) = cs.map (·.params.length) := by
  induction h with
  | nil => rfl
  | cons first _ ih =>
    cases first
    rw [List.map_cons, List.map_cons, ih]

/-! ### Arities -/

theorem mem_insertSorted {m n : Nat} {ns : List Nat} :
    m ∈ insertSorted n ns ↔ m = n ∨ m ∈ ns := by
  induction ns with
  | nil => simp [insertSorted]
  | cons k ks ih =>
    unfold insertSorted
    split
    · simp
    · split
      · rename_i h
        simp [h]
      · simp only [List.mem_cons, ih]
        exact or_left_comm

theorem pairwise_insertSorted {n : Nat} {ns : List Nat} (h : ns.Pairwise (· < ·)) :
    (insertSorted n ns).Pairwise (· < ·) := by
  induction ns with
  | nil => simp [insertSorted]
  | cons k ks ih =>
    rw [List.pairwise_cons] at h
    unfold insertSorted
    split
    · rename_i hk
      refine List.pairwise_cons.2 ⟨fun m hm => ?_, List.pairwise_cons.2 h⟩
      rcases List.mem_cons.1 hm with rfl | hm
      · exact hk
      · exact Nat.lt_trans hk (h.1 m hm)
    · split
      · exact List.pairwise_cons.2 h
      · refine List.pairwise_cons.2 ⟨fun m hm => ?_, ih h.2⟩
        rcases mem_insertSorted.1 hm with rfl | hm
        · omega
        · exact h.1 m hm

theorem foldl_insertSorted (ls : List Lifted) (ns : List Nat) (h : ns.Pairwise (· < ·)) :
    (ls.foldl (fun ns l => insertSorted l.arity ns) ns).Pairwise (· < ·) ∧
      ∀ n, n ∈ ls.foldl (fun ns l => insertSorted l.arity ns) ns ↔
        n ∈ ns ∨ n ∈ ls.map (·.arity) := by
  induction ls generalizing ns with
  | nil => simpa using h
  | cons l ls ih =>
    obtain ⟨sorted, mem⟩ := ih _ (pairwise_insertSorted h)
    refine ⟨sorted, fun n => (mem n).trans ?_⟩
    rw [mem_insertSorted, List.map_cons, List.mem_cons, or_assoc, or_left_comm]

/-! ### Programs -/

/-- **The shape of a converted program.**  Global variables and top-level statements stay.  Each
function keeps everything but its body, where the statements that make the objects stand in the
place of the closures, and its variables, where the slots of the closures have been put.  The
classes of all closures are added in order, and the artifacts name them and list the numbers of
parameters that closures take. -/
theorem convert_shape {names : Conventions} {p q : Program} {artifacts : Artifacts}
    (h : convert names p = .ok (q, artifacts)) :
    q.inits = p.inits ∧ q.stmts = p.stmts ∧
      ∃ parts : List (FunDef × List Lifted),
        parts.map Prod.fst = p.funs ∧
        (∀ fl ∈ parts,
          LiftsInTurn names p.globalNames fl.1.params fl.1.inits fl.1.closures fl.2) ∧
        q.funs = parts.map (fun fl =>
          { fl.1 with
            body := Stmt.spliceList id fl.1.body (fl.2.map (·.creation))
            inits := retype (fl.2.map (·.slot)) [] fl.1.inits ++
              newSlots (fl.2.map (·.slot)) fl.1.inits }) ∧
        q.classes = p.classes ++ (parts.flatMap Prod.snd).map (·.cls) ∧
        artifacts.classNames = (parts.flatMap Prod.snd).map (·.cls.name) ∧
        artifacts.arities.Pairwise (· < ·) ∧
        ∀ n, n ∈ artifacts.arities ↔ ∃ f ∈ p.funs, ∃ c ∈ f.closures, c.params.length = n := by
  obtain ⟨errors, rfl, rfl⟩ := (convert_eq_ok names).1 h
  rw [Program.conversionErrors, List.append_eq_nil_iff] at errors
  let parts := (p.plan names).map fun fd => (fd.1, fd.2.map (·.lifted names))
  have funs : parts.map Prod.fst = p.funs := by
    rw [List.map_map]
    exact map_fst_plan names p.globalNames {} p.funs
  have lifted : parts.flatMap Prod.snd = (p.declarations names).map (·.lifted names) := by
    rw [List.flatMap_map, Program.declarations, List.map_flatMap]
  have turns (fl : FunDef × List Lifted) (hfl : fl ∈ parts) :
      LiftsInTurn names p.globalNames fl.1.params fl.1.inits fl.1.closures fl.2 := by
    obtain ⟨fd, hfd, rfl⟩ := List.mem_map.1 hfl
    obtain ⟨st, hds, herr⟩ := plan_spec names p.globalNames errors.2 fd hfd
    have turn := Host.liftsInTurn herr
    have closures : (fd.1.collect encounters).filterMap Encounter.closure? = fd.1.closures :=
      closures_encounters.holdsBlock fd.1.body
    rw [closures] at turn
    rw [hds]
    exact turn
  obtain ⟨sorted, arities⟩ := foldl_insertSorted ((p.declarations names).map (·.lifted names)) []
    List.Pairwise.nil
  refine ⟨rfl, rfl, parts, funs, turns, ?_, ?_, ?_, sorted, fun n => (arities n).trans ?_⟩
  · rw [List.map_map]
    refine List.map_congr_left fun fd _ => ?_
    simp only [FunDef.converted, Function.comp_apply, ← foldl_setInit, List.foldl_map, List.map_map]
    rfl
  · rw [lifted, List.map_map]
    rfl
  · rw [lifted]
    rfl
  · have same (fl : FunDef × List Lifted) (hfl : fl ∈ parts) :
        n ∈ fl.2.map (·.arity) ↔ n ∈ fl.1.closures.map (·.params.length) := by
      rw [(turns fl hfl).map_arity]
    rw [← lifted, ← funs]
    simp only [List.not_mem_nil, false_or, List.map_flatMap, List.mem_flatMap]
    constructor
    · rintro ⟨fl, hfl, hn⟩
      obtain ⟨c, hc, rfl⟩ := List.mem_map.1 ((same fl hfl).1 hn)
      exact ⟨fl.1, List.mem_map_of_mem hfl, c, hc, rfl⟩
    · rintro ⟨f, hf, c, hc, rfl⟩
      obtain ⟨fl, hfl, rfl⟩ := List.mem_map.1 hf
      exact ⟨fl, hfl, (same fl hfl).2 (List.mem_map_of_mem hc)⟩

/-- A function with a closure, `def adder(x): def add(y): return x + y; return add(2)`, and a call
of it. -/
def adderProgram : Program where
  funs :=
    [{ name := "adder"
       params := [⟨"x", .int⟩]
       ret := .int
       inits := []
       body :=
        [.closure
          { name := "add"
            params := [⟨"y", .int⟩]
            ret := .int
            inits := []
            body := [.ret (some (.binary .add (.id "x" .dummy) (.id "y" .dummy)))]
            span := .dummy },
          .ret (some (.call (.id "add" .dummy) [.literal (.num 2)]))]
       span := .dummy }]
  stmts := [.expr (.builtin1 "print" (.call (.id "adder" .dummy) [.literal (.num 5)]))]

theorem convert_shape_adder :
    ∃ q artifacts f l, convert {} adderProgram = .ok (q, artifacts) ∧
      artifacts.classNames = ["Clo_0_add"] ∧ q.stmts = adderProgram.stmts ∧
      adderProgram.funs = [f] ∧
      LiftsInTurn {} adderProgram.globalNames f.params [] f.closures [l] ∧
      q.funs = [{ f with body := l.creation ++ f.body.tail, inits := [l.slot] }] ∧
      q.classes = [l.cls] ∧ l.cls.name = "Clo_0_add" ∧ ∀ n, n ∈ artifacts.arities ↔ n = 1 := by
  have h : convert {} adderProgram = .ok (_, _) := rfl
  obtain ⟨-, stmts, parts, funs, turns, bodies, classes, names, -, arities⟩ := convert_shape h
  have length : parts.length = 1 := by
    rw [← List.length_map Prod.fst, funs]
    rfl
  obtain ⟨⟨f, ls⟩, rfl⟩ := List.length_eq_one_iff.1 length
  obtain ⟨rfl, -⟩ := List.cons.inj funs
  have lifted : ls.map (·.cls.name) = ["Clo_0_add"] := by
    rw [← List.append_nil ls]
    exact names.symm
  obtain ⟨l, rfl, name⟩ := List.map_eq_singleton_iff.1 lifted
  have slots : newSlots [l.slot] [] = [l.slot] := by
    simp [newSlots, newNames, addName, slotFor?]
  refine ⟨_, _, _, l, h, rfl, stmts, rfl, turns _ List.mem_cons_self, bodies.trans ?_, classes,
    name, fun n => (arities n).trans ?_⟩
  · rw [← slots]
    rfl
  · constructor
    · rintro ⟨f, hf, c, hc, rfl⟩
      cases List.mem_singleton.1 hf
      cases List.mem_singleton.1 hc
      rfl
    · rintro rfl
      exact ⟨_, List.mem_cons_self, _, List.mem_cons_self, rfl⟩

end FlatClosure
