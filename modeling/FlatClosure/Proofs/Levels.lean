import FlatClosure.Proofs.Scanning

/-!
# What a reader keeps of a JSON text

A shape says which parts of a value a reader looks at: `Json.trim` is the value without the others,
and `Json.seen` counts the levels of arrays and objects that are looked at.

* `Json.read?_indented` : **a written value is read as the part of it that is looked at**, and
  refused exactly if that part is nested beyond the limit.
* `Json.read?_le` : a text that is read with a limit on the nesting is read alike with a higher one.
* `Json.seen_le_of_read?` : whatever text was read, its value keeps to the limit.
-/

namespace FlatClosure

namespace Json

/-! ### The part that is looked at -/

mutual

/-- The levels of a value that are looked at. -/
def seen : Shape → Json → Nat
  | s, .arr items => if s.isSkipped then 0 else 1 + seenItems s items
  | s, .obj fields => if s.isSkipped then 0 else 1 + seenFields s fields
  | _, _ => 0

/-- The same inside an array. -/
def seenItems : Shape → List Json → Nat
  | _, [] => 0
  | s, j :: js => max (seen s.item j) (seenItems s.rest js)

/-- The same inside an object. -/
def seenFields : Shape → List (String × Json) → Nat
  | _, [] => 0
  | s, (k, j) :: fs => max (seen (s.field k) j) (seenFields s fs)

end

mutual

/-- The part of a value that is looked at. -/
def trim : Shape → Json → Json
  | s, .arr items => .arr (trimItems s items)
  | s, .obj fields => .obj (trimFields s fields)
  | s, j => if s.isSkipped then .null else j

/-- The same of items. -/
def trimItems : Shape → List Json → List Json
  | _, [] => []
  | s, j :: js => trim s.item j :: trimItems s.rest js

/-- The same of fields. -/
def trimFields : Shape → List (String × Json) → List (String × Json)
  | _, [] => []
  | s, (k, j) :: fs =>
    if (s.field k).isSkipped then trimFields s fs else (k, trim (s.field k) j) :: trimFields s fs

end

mutual

theorem seen_whole (j : Json) : seen .whole j = j.depth := by
  cases j with
  | arr items => exact congrArg (1 + ·) (seenItems_whole items)
  | obj fields => exact congrArg (1 + ·) (seenFields_whole fields)
  | _ => rfl

theorem seenItems_whole (js : List Json) : seenItems .whole js = depthItems js := by
  cases js with
  | nil => rfl
  | cons j js =>
    change max (seen .whole j) (seenItems .whole js) = max j.depth (depthItems js)
    rw [seen_whole j, seenItems_whole js]

theorem seenFields_whole (fs : List (String × Json)) : seenFields .whole fs = depthFields fs := by
  cases fs with
  | nil => rfl
  | cons f fs =>
    change max (seen .whole f.2) (seenFields .whole fs) = max f.2.depth (depthFields fs)
    rw [seen_whole f.2, seenFields_whole fs]

end

mutual

theorem trim_whole (j : Json) : trim .whole j = j := by
  cases j with
  | arr items => exact congrArg arr (trimItems_whole items)
  | obj fields => exact congrArg obj (trimFields_whole fields)
  | _ => rfl

theorem trimItems_whole (js : List Json) : trimItems .whole js = js := by
  cases js with
  | nil => rfl
  | cons j js =>
    change trim .whole j :: trimItems .whole js = j :: js
    rw [trim_whole j, trimItems_whole js]

theorem trimFields_whole (fs : List (String × Json)) : trimFields .whole fs = fs := by
  cases fs with
  | nil => rfl
  | cons f fs =>
    change (f.1, trim .whole f.2) :: trimFields .whole fs = f :: fs
    rw [trim_whole f.2, trimFields_whole fs]

end

theorem seen_skipped (j : Json) : seen .skipped j = 0 := by
  cases j <;> rfl

theorem seenItems_skipped (js : List Json) : seenItems .skipped js = 0 := by
  induction js with
  | nil => rfl
  | cons j js ih =>
    change max (seen .skipped j) (seenItems .skipped js) = 0
    rw [seen_skipped, ih, Nat.max_self]

theorem seenFields_skipped (fs : List (String × Json)) : seenFields .skipped fs = 0 := by
  induction fs with
  | nil => rfl
  | cons f fs ih =>
    change max (seen .skipped f.2) (seenFields .skipped fs) = 0
    rw [seen_skipped, ih, Nat.max_self]

/-! ### Room for more levels -/

/-- With `opened` levels open there is room for `levels` more, none of which needs no room. -/
def room (limit : Option Nat) (opened levels : Nat) : Bool :=
  levels == 0 || limit.all (opened + levels ≤ ·)

section

variable (limit : Option Nat) (n k l : Nat)

@[simp] theorem room_zero : room limit n 0 = true := rfl

@[simp] theorem room_max : room limit n (max k l) = (room limit n k && room limit n l) := by
  cases limit with
  | none => simp [room]
  | some m =>
    rw [Bool.eq_iff_iff]
    simp [room]
    omega

theorem room_none_open : room limit 0 k = limit.all (k ≤ ·) := by
  cases limit with
  | none => simp [room]
  | some m =>
    rw [Bool.eq_iff_iff]
    simp [room]
    omega

/-- Room for a level and what is inside it. -/
theorem room_succ : room limit n (1 + k) = (!limit.any (· ≤ n) && room limit (n + 1) k) := by
  cases limit with
  | none => simp [room]
  | some m =>
    rw [Bool.eq_iff_iff]
    simp [room]
    omega

end

theorem room_seen_arr (limit : Option Nat) (s : Shape) (n : Nat) (js : List Json) :
    room limit n (seen s (.arr js)) =
      (!(!s.isSkipped && limit.any (· ≤ n)) && room limit (n + 1) (seenItems s js)) := by
  cases s with
  | skipped => rw [seenItems_skipped]; rfl
  | _ => exact room_succ limit n _

theorem room_seen_obj (limit : Option Nat) (s : Shape) (n : Nat) (fs : List (String × Json)) :
    room limit n (seen s (.obj fs)) =
      (!(!s.isSkipped && limit.any (· ≤ n)) && room limit (n + 1) (seenFields s fs)) := by
  cases s with
  | skipped => rw [seenFields_skipped]; rfl
  | _ => exact room_succ limit n _

/-! ### Reading the tokens of a value -/

theorem ite_some_bind {α β : Type} (b : Bool) (x : α) (f : α → Option β) :
    ((if b then some x else none) >>= f) = if b then f x else none := by
  cases b <;> rfl

theorem ite_and_none {α : Type} (b c : Bool) (x : Option α) :
    (if b && c then x else none) = if b then if c then x else none else none := by
  cases b <;> rfl

theorem closeScalar?_some (s : Shape) (j : Json) (ls : List Level) :
    closeScalar? s (some j) ls = some (close (if s.isSkipped then .null else j) ls) := by
  rw [closeScalar?]
  split <;> rfl

theorem openLevel?_bind {β : Type} (limit : Option Nat) (s : Shape) (l : Level) (e : Expecting)
    (ls : List Level) (f : List Level × Expecting → Option β) :
    (openLevel? limit s l e ls >>= f) =
      if !(!s.isSkipped && limit.any (· ≤ ls.length)) then f (l :: ls, e) else none := by
  rw [openLevel?]
  cases !s.isSkipped && limit.any (· ≤ ls.length) <;> rfl

/-- A value may start where one is expected, and in an array that is still empty. -/
inductive Expecting.Ready : Expecting → Prop
  | value : Ready .value
  | firstItem : Ready .firstItem

/-- A field may start where one is expected, and in an object that is still empty. -/
inductive Expecting.Named : Expecting → Prop
  | field : Named .field
  | firstField : Named .firstField

section

variable {root : Shape} {limit : Option Nat}

theorem buildStep_ready {e : Expecting} (he : e.Ready) (ls : List Level) {t : Token}
    (ht : t ≠ .closeArr) :
    buildStep root limit (ls, e) t = valueStep limit (nextShape root ls) ls t := by
  cases he with
  | value => rfl
  | firstItem =>
    cases t with
    | closeArr => exact absurd rfl ht
    | _ =>
      cases ls with
      | nil => rfl
      | cons l ls => cases l <;> rfl

/-- The name of a field is read up to the value. -/
theorem foldlM_key {e : Expecting} (he : e.Named) (s : Shape) (fields : List (String × Json))
    (old k : String) (ls : List Level) (ts : List Token) :
    ∃ key, s.field key = s.field k ∧ ((s.field k).isSkipped = false → key = k) ∧
      (Token.text (some k) :: .colon :: ts).foldlM (buildStep root limit)
          (.obj s fields old :: ls, e) =
        ts.foldlM (buildStep root limit) (.obj s fields key :: ls, .value) := by
  have step : buildStep root limit (.obj s fields old :: ls, e) (.text (some k)) =
      keyStep s fields (some k) ls := by
    cases he <;> rfl
  cases s with
  | skipped =>
    refine ⟨"", rfl, Bool.noConfusion, ?_⟩
    rw [List.foldlM_cons, step]
    rfl
  | _ =>
    refine ⟨k, rfl, fun _ => rfl, ?_⟩
    rw [List.foldlM_cons, step]
    rfl

mutual

/-- **The tokens of a value are read as the part of it that is looked at**, if there is room for
it. -/
theorem foldlM_tokens (j : Json) {e : Expecting} (he : e.Ready) (ls : List Level) :
    j.tokens.foldlM (buildStep root limit) (ls, e) =
      if room limit ls.length (seen (nextShape root ls) j)
      then some (close (trim (nextShape root ls) j) ls) else none := by
  generalize hs : nextShape root ls = s
  have first {t : Token} (ht : t ≠ .closeArr) (ts : List Token) :
      (t :: ts).foldlM (buildStep root limit) (ls, e) =
        (valueStep limit s ls t >>= fun st => ts.foldlM (buildStep root limit) st) := by
    rw [List.foldlM_cons, buildStep_ready he ls ht, hs]
  have scalar {t : Token} {v : Json} (ht : t ≠ .closeArr)
      (hv : valueStep limit s ls t = closeScalar? s (some v) ls) :
      [t].foldlM (buildStep root limit) (ls, e) =
        some (close (if s.isSkipped then .null else v) ls) := by
    rw [first ht, hv, closeScalar?_some]
    rfl
  cases j with
  | null | bool | int | real => exact scalar Token.noConfusion rfl
  | str => exact scalar Token.noConfusion rfl
  | arr items =>
    rw [tokens, first Token.noConfusion, room_seen_arr, ite_and_none, valueStep, openLevel?_bind]
    congr 1
    cases items with
    | nil => rfl
    | cons j js => exact foldlM_itemTokens (j :: js) (List.cons_ne_nil _ _) .firstItem s [] ls
  | obj fields =>
    rw [tokens, first Token.noConfusion, room_seen_obj, ite_and_none, valueStep, openLevel?_bind]
    congr 1
    cases fields with
    | nil => rfl
    | cons f fs => exact foldlM_fieldTokens (f :: fs) (List.cons_ne_nil _ _) .firstField s [] "" ls

theorem foldlM_itemTokens (js : List Json) (ne : js ≠ []) {e : Expecting} (he : e.Ready)
    (s : Shape) (items : List Json) (ls : List Level) :
    (itemTokens js ++ [Token.closeArr]).foldlM (buildStep root limit) (.arr s items :: ls, e) =
      if room limit (ls.length + 1) (seenItems s js)
      then some (close (.arr (items.reverse ++ trimItems s js)) ls) else none := by
  cases js with
  | nil => exact absurd rfl ne
  | cons j js =>
    have first (ts : List Token) :
        (j.tokens ++ ts).foldlM (buildStep root limit) (.arr s items :: ls, e) =
          if room limit (ls.length + 1) (seen s.item j) then
            ts.foldlM (buildStep root limit) (.arr s.rest (trim s.item j :: items) :: ls, .next)
          else none := by
      rw [List.foldlM_append, foldlM_tokens j he, ite_some_bind]
      rfl
    rw [seenItems, room_max, ite_and_none, trimItems]
    cases js with
    | nil =>
      rw [itemTokens, first]
      congr 1
      change some (close (.arr (trim s.item j :: items).reverse) ls) = _
      rw [List.reverse_cons]
      rfl
    | cons j' js =>
      have others := foldlM_itemTokens (j' :: js) (List.cons_ne_nil _ _) .value s.rest
        (trim s.item j :: items) ls
      rw [List.reverse_cons, List.append_assoc] at others
      rw [itemTokens, List.append_assoc, first]
      · congr 1
      · exact List.cons_ne_nil j' js

theorem foldlM_fieldTokens (fs : List (String × Json)) (ne : fs ≠ []) {e : Expecting}
    (he : e.Named) (s : Shape) (fields : List (String × Json)) (old : String) (ls : List Level) :
    (fieldTokens fs ++ [Token.closeObj]).foldlM (buildStep root limit)
        (.obj s fields old :: ls, e) =
      if room limit (ls.length + 1) (seenFields s fs)
      then some (close (.obj (fields.reverse ++ trimFields s fs)) ls) else none := by
  cases fs with
  | nil => exact absurd rfl ne
  | cons f fs =>
    obtain ⟨k, j⟩ := f
    let fields' := if (s.field k).isSkipped then fields else (k, trim (s.field k) j) :: fields
    have kept (rest : List (String × Json)) : fields'.reverse ++ rest =
        fields.reverse ++
          (if (s.field k).isSkipped then rest else (k, trim (s.field k) j) :: rest) := by
      dsimp only [fields']
      split
      · rfl
      · rw [List.reverse_cons, List.append_assoc]
        rfl
    have first (ts : List Token) :
        (Token.text (some k) :: .colon :: (j.tokens ++ ts)).foldlM (buildStep root limit)
            (.obj s fields old :: ls, e) =
          if room limit (ls.length + 1) (seen (s.field k) j) then
            ts.foldlM (buildStep root limit) (.obj s fields' "" :: ls, .next) else none := by
      obtain ⟨key, shape, named, start⟩ := foldlM_key he s fields old k ls (j.tokens ++ ts)
      have closed : close (trim (s.field key) j) (.obj s fields key :: ls) =
          (.obj s fields' "" :: ls, .next) := by
        rw [close, shape]
        dsimp only [fields']
        split
        case isTrue => rfl
        case isFalse seen => rw [named (Bool.eq_false_iff.2 seen)]
      rw [start, List.foldlM_append, foldlM_tokens j .value, ite_some_bind]
      change (if room limit (ls.length + 1) (seen (s.field key) j) then List.foldlM _
        (close (trim (s.field key) j) (.obj s fields key :: ls)) ts else none) = _
      rw [closed, shape]
    rw [seenFields, room_max, ite_and_none, trimFields, ← kept]
    cases fs with
    | nil =>
      rw [fieldTokens, List.cons_append, List.cons_append, first]
      congr 1
      rw [trimFields, List.append_nil]
      rfl
    | cons f' fs =>
      have others := foldlM_fieldTokens (f' :: fs) (List.cons_ne_nil _ _) .field s fields' "" ls
      rw [fieldTokens, List.cons_append, List.cons_append, List.append_assoc, first]
      · congr 1
      · exact List.cons_ne_nil f' fs

end

/-- **A written value is read as the part of it that is looked at**, and refused exactly if that
part is nested beyond the limit. -/
theorem read?_indented (s : Shape) (limit : Option Nat) {j : Json} (h : j.Plain) :
    read? s limit (j.indented ++ "\n") =
      if limit.all (seen s j ≤ ·) then some (trim s j) else none := by
  rw [read?, tokens?_indented h]
  change (List.foldlM (buildStep s limit) ([], .value) j.tokens >>= _) = _
  rw [foldlM_tokens j .value [], ite_some_bind, ← room_none_open]
  rfl

/-! ### What any text is read as -/

/-- The shape of the items that come after `js`. -/
def Shape.after (s : Shape) (js : List Json) : Shape := js.foldl (fun s _ => s.rest) s

/-- The levels that are open have room for what they hold so far. -/
def Sound (root : Shape) (limit : Option Nat) : List Level → Prop
  | [] => True
  | .arr s items :: ls =>
    s = (nextShape root ls).after items.reverse ∧
      room limit ls.length (seen (nextShape root ls) (.arr items.reverse)) = true ∧
      Sound root limit ls
  | .obj s fields _ :: ls =>
    s = nextShape root ls ∧ room limit ls.length (seen s (.obj fields.reverse)) = true ∧
      Sound root limit ls

/-- The same of a state of the reader: a value that is there fits too. -/
def SoundState (root : Shape) (limit : Option Nat) : List Level × Expecting → Prop
  | (_, .nothing v) => room limit 0 (seen root v) = true
  | (ls, _) => Sound root limit ls

theorem seenItems_append_singleton (s : Shape) (js : List Json) (j : Json) :
    seenItems s (js ++ [j]) = max (seenItems s js) (seen (s.after js).item j) := by
  induction js generalizing s with
  | nil => simp [seenItems, Shape.after]
  | cons j' js ih =>
    rw [List.cons_append, seenItems, ih, seenItems, Nat.max_assoc]
    rfl

theorem seenFields_append_singleton (s : Shape) (fs : List (String × Json)) (k : String)
    (j : Json) : seenFields s (fs ++ [(k, j)]) = max (seenFields s fs) (seen (s.field k) j) := by
  induction fs with
  | nil => simp [seenFields]
  | cons f fs ih =>
    obtain ⟨k', j'⟩ := f
    rw [List.cons_append, seenFields, ih, seenFields, Nat.max_assoc]

/-- A token that is a word has no levels. -/
def Token.Flat (t : Token) : Prop := ∀ j, t = .word (some j) → ∀ s, seen s j = 0

theorem Sound.close {ls : List Level} (h : Sound root limit ls) {v : Json}
    (hv : room limit ls.length (seen (nextShape root ls) v) = true) :
    SoundState root limit (close v ls) := by
  cases ls with
  | nil => exact hv
  | cons l ls =>
    cases l with
    | arr s items =>
      obtain ⟨rfl, fits, below⟩ := h
      rw [room_seen_arr, Bool.and_eq_true] at fits
      refine ⟨?_, ?_, below⟩
      · rw [List.reverse_cons, Shape.after, Shape.after, List.foldl_append]
        rfl
      · rw [List.reverse_cons, room_seen_arr, seenItems_append_singleton, room_max]
        simp only [Bool.and_eq_true]
        exact ⟨fits.1, fits.2, hv⟩
    | obj s fields key =>
      obtain ⟨rfl, fits, below⟩ := h
      refine ⟨rfl, ?_, below⟩
      split
      case isTrue => exact fits
      case isFalse =>
        rw [room_seen_obj, Bool.and_eq_true] at fits
        rw [List.reverse_cons, room_seen_obj, seenFields_append_singleton, room_max]
        simp only [Bool.and_eq_true]
        exact ⟨fits.1, fits.2, hv⟩

theorem openLevel?_sound {ls : List Level} {l : Level} {e : Expecting}
    {st : List Level × Expecting}
    (step : openLevel? limit (nextShape root ls) l e ls = some st)
    (hl : room limit ls.length (if (nextShape root ls).isSkipped then 0 else 1) = true →
      SoundState root limit (l :: ls, e)) :
    SoundState root limit st := by
  rw [openLevel?] at step
  split at step
  case isTrue => cases step
  case isFalse free =>
    cases step
    apply hl
    rw [Bool.not_eq_true] at free
    have fits := room_seen_arr limit (nextShape root ls) ls.length []
    rw [free] at fits
    exact fits

theorem valueStep_sound {ls : List Level} (h : Sound root limit ls) {t : Token} (flat : t.Flat)
    {st : List Level × Expecting} (step : valueStep limit (nextShape root ls) ls t = some st) :
    SoundState root limit st := by
  have scalar {v : Option Json} (hv : ∀ j, v = some j → seen (nextShape root ls) j = 0)
      (hs : closeScalar? (nextShape root ls) v ls = some st) : SoundState root limit st := by
    rw [closeScalar?] at hs
    split at hs
    · cases hs
      exact h.close rfl
    · obtain ⟨j, rfl, rfl⟩ := Option.map_eq_some_iff.1 hs
      exact h.close (by rw [hv j rfl]; rfl)
  cases t with
  | word v => exact scalar (fun j hj => flat j (congrArg Token.word hj) _) step
  | text v =>
    refine scalar (fun j hj => ?_) step
    obtain ⟨k, -, rfl⟩ := Option.map_eq_some_iff.1 hj
    rfl
  | openArr => exact openLevel?_sound step fun fits => ⟨rfl, fits, h⟩
  | openObj => exact openLevel?_sound step fun fits => ⟨rfl, fits, h⟩
  | closeArr | closeObj | colon | comma => cases step

theorem keyStep_sound {s : Shape} {fields : List (String × Json)} (old : String) {ls : List Level}
    (h : Sound root limit (.obj s fields old :: ls)) {k : Option String}
    {st : List Level × Expecting} (step : keyStep s fields k ls = some st) :
    SoundState root limit st := by
  rw [keyStep] at step
  split at step
  · cases step
    exact h
  · obtain ⟨k, -, rfl⟩ := Option.map_eq_some_iff.1 step
    exact h

/-- One token keeps the levels sound. -/
theorem buildStep_sound {st st' : List Level × Expecting} (h : SoundState root limit st)
    {t : Token} (flat : t.Flat) (step : buildStep root limit st t = some st') :
    SoundState root limit st' := by
  obtain ⟨ls, e⟩ := st
  cases e with
  | value => exact valueStep_sound h flat step
  | firstItem =>
    by_cases ht : t = .closeArr
    · subst ht
      rcases ls with _ | ⟨⟨s, items⟩ | ⟨s, fields, k⟩, ls⟩
      · cases step
      · cases step
        exact h.2.2.close h.2.1
      · cases step
    · rw [buildStep_ready .firstItem ls ht] at step
      exact valueStep_sound h flat step
  | firstField =>
    rcases ls with _ | ⟨⟨s, items⟩ | ⟨s, fields, k⟩, ls⟩
    · cases step
    · cases step
    · cases t with
      | closeObj =>
        cases step
        exact h.2.2.close (h.1 ▸ h.2.1)
      | text k' => exact keyStep_sound k h step
      | _ => cases step
  | field =>
    rcases ls with _ | ⟨⟨s, items⟩ | ⟨s, fields, k⟩, ls⟩
    · cases step
    · cases step
    · cases t with
      | text k' => exact keyStep_sound k h step
      | _ => cases step
  | colon =>
    cases t with
    | colon =>
      cases step
      exact h
    | _ => cases ls <;> cases step
  | next =>
    rcases ls with _ | ⟨⟨s, items⟩ | ⟨s, fields, k⟩, ls⟩
    · cases step
    · cases t with
      | comma =>
        cases step
        exact h
      | closeArr =>
        cases step
        exact h.2.2.close h.2.1
      | _ => cases step
    · cases t with
      | comma =>
        cases step
        exact h
      | closeObj =>
        cases step
        exact h.2.2.close (h.1 ▸ h.2.1)
      | _ => cases step
  | nothing v => cases step

theorem foldlM_sound {ts : List Token} (flat : ∀ t ∈ ts, t.Flat) {st st' : List Level × Expecting}
    (h : SoundState root limit st) (run : ts.foldlM (buildStep root limit) st = some st') :
    SoundState root limit st' := by
  induction ts generalizing st with
  | nil =>
    cases run
    exact h
  | cons t ts ih =>
    obtain ⟨ht, hts⟩ := List.forall_mem_cons.1 flat
    rw [List.foldlM_cons] at run
    obtain ⟨st₁, step, run⟩ := Option.bind_eq_some_iff.1 run
    exact ih hts (buildStep_sound h ht step) run

end

theorem mark?_flat {c : Char} {t : Token} (h : mark? c = some t) : t.Flat := by
  obtain ⟨before, after, table, -⟩ := List.lookup_eq_some_iff.1 h
  have entry : (c, t) ∈ before ++ (c, t) :: after := by simp
  rw [← table] at entry
  rintro j rfl
  simp at entry

theorem word?_flat {cs : List Char} {t : Token} (h : word? cs = some t) : t.Flat := by
  rintro j rfl s
  rw [word?] at h
  split at h
  · cases h
    rfl
  split at h
  · cases h
    rfl
  split at h
  · cases h
    rfl
  obtain ⟨n, -, hn⟩ := Option.map_eq_some_iff.1 h
  have value : n.value? cs = some j := Token.word.inj hn
  rw [Numeral.value?] at value
  split at value
  · cases value
  split at value
  · cases value
    rfl
  · cases value
    rfl

theorem scanFresh_flat {ts : List Token} (h : ∀ t ∈ ts, t.Flat) (c : Char) :
    ∀ t ∈ (scanFresh c ts).2, t.Flat := by
  rw [scanFresh]
  split
  case h_1 t mark => exact List.forall_mem_cons.2 ⟨mark?_flat mark, h⟩
  case h_2 =>
    split
    · exact h
    split
    · exact h
    · exact h

theorem scanText_flat {chars : Option (List Char)} {c : Char} {ts : List Token}
    (h : ∀ t ∈ ts, t.Flat) {st : Scan × List Token} (step : scanText chars c ts = some st) :
    ∀ t ∈ st.2, t.Flat := by
  rw [scanText] at step
  split at step
  · cases step
    refine List.forall_mem_cons.2 ⟨?_, h⟩
    rintro j ⟨⟩
  split at step
  · cases step
    exact h
  split at step
  · cases step
  · cases step
    exact h

theorem scanEscape_flat {chars : Option (List Char)} {c : Char} {ts : List Token}
    (h : ∀ t ∈ ts, t.Flat) {st : Scan × List Token} (step : scanEscape chars c ts = some st) :
    ∀ t ∈ st.2, t.Flat := by
  rw [scanEscape] at step
  split at step
  · cases step
    exact h
  · obtain ⟨d, -, rfl⟩ := Option.map_eq_some_iff.1 step
    exact h

/-- One character adds no tokens but flat ones. -/
theorem scanStep_flat {st st' : Scan × List Token} (h : ∀ t ∈ st.2, t.Flat) {c : Char}
    (step : scanStep st c = some st') : ∀ t ∈ st'.2, t.Flat := by
  obtain ⟨scan, ts⟩ := st
  cases scan with
  | between =>
    cases step
    exact scanFresh_flat h c
  | word cs =>
    rw [scanStep] at step
    split at step
    · obtain ⟨t, word, rfl⟩ := Option.map_eq_some_iff.1 step
      exact scanFresh_flat (List.forall_mem_cons.2 ⟨word?_flat word, h⟩) c
    · cases step
      exact h
  | text chars => exact scanText_flat h step
  | escape chars => exact scanEscape_flat h step
  | unit chars high missing value =>
    rw [scanStep] at step
    obtain ⟨d, -, step⟩ := Option.bind_eq_some_iff.1 step
    split at step
    · cases step
      exact h
    · cases step
      exact h
  | half chars high =>
    rw [scanStep] at step
    split at step
    · cases step
      exact h
    · exact scanText_flat h step
  | halfEscape chars high =>
    rw [scanStep] at step
    split at step
    · cases step
      exact h
    · exact scanEscape_flat h step

theorem foldlM_scanStep_flat {cs : List Char} {st st' : Scan × List Token}
    (h : ∀ t ∈ st.2, t.Flat) (run : cs.foldlM scanStep st = some st') : ∀ t ∈ st'.2, t.Flat := by
  induction cs generalizing st with
  | nil =>
    cases run
    exact h
  | cons c cs ih =>
    rw [List.foldlM_cons] at run
    obtain ⟨st₁, step, run⟩ := Option.bind_eq_some_iff.1 run
    exact ih (scanStep_flat h step) run

theorem tokens?_flat {cs : List Char} {ts : List Token} (h : tokens? cs = some ts) :
    ∀ t ∈ ts, t.Flat := by
  rw [tokens?] at h
  obtain ⟨st, run, h⟩ := Option.bind_eq_some_iff.1 h
  have start : ∀ t ∈ (Scan.between, ([] : List Token)).2, t.Flat := by simp
  have flat := foldlM_scanStep_flat start run
  obtain ⟨scan, ts'⟩ := st
  cases scan with
  | between =>
    cases h
    simpa using flat
  | word cs =>
    obtain ⟨t, word, rfl⟩ := Option.map_eq_some_iff.1 h
    have all := List.forall_mem_cons.2 ⟨word?_flat word, flat⟩
    exact fun t ht => all t (List.mem_reverse.1 ht)
  | _ => cases h

/-- **A value that was read keeps to the limit**, as far as it is looked at. -/
theorem seen_le_of_read? {s : Shape} {limit : Nat} {text : String} {j : Json}
    (h : read? s (some limit) text = some j) : seen s j ≤ limit := by
  obtain ⟨ts, tokens, built⟩ := Option.bind_eq_some_iff.1 h
  obtain ⟨⟨ls, e⟩, run, value⟩ := Option.bind_eq_some_iff.1 built
  have start : SoundState s (some limit) ([], .value) := trivial
  have sound := foldlM_sound (tokens?_flat tokens) start run
  cases e with
  | nothing v =>
    cases value
    have fits : room (some limit) 0 (seen s j) = true := sound
    rw [room_none_open] at fits
    simpa using fits
  | _ => cases value

/-! ### A higher limit -/

theorem openLevel?_le {m n : Nat} (hn : m ≤ n) {s : Shape} {l : Level} {e : Expecting}
    {ls : List Level} {st : List Level × Expecting}
    (h : openLevel? (some m) s l e ls = some st) : openLevel? (some n) s l e ls = some st := by
  rw [openLevel?] at h ⊢
  split at h
  case isTrue => cases h
  case isFalse free =>
    have free' : ¬(!s.isSkipped && (some n).any (· ≤ ls.length)) = true := by
      simp only [Option.any_some, Bool.and_eq_true, decide_eq_true_eq] at free ⊢
      rintro ⟨looked, full⟩
      exact free ⟨looked, Nat.le_trans hn full⟩
    rw [if_neg free', h]

theorem valueStep_le {m n : Nat} (hn : m ≤ n) {s : Shape} {ls : List Level} {t : Token}
    {st : List Level × Expecting} (h : valueStep (some m) s ls t = some st) :
    valueStep (some n) s ls t = some st := by
  cases t with
  | openArr | openObj => exact openLevel?_le hn h
  | _ => exact h

theorem buildStep_le {root : Shape} {m n : Nat} (hn : m ≤ n) {st st' : List Level × Expecting}
    {t : Token} (h : buildStep root (some m) st t = some st') :
    buildStep root (some n) st t = some st' := by
  obtain ⟨ls, e⟩ := st
  cases e with
  | value => exact valueStep_le hn h
  | firstItem =>
    by_cases ht : t = .closeArr
    · subst ht
      rcases ls with _ | ⟨_ | _, ls⟩ <;> exact h
    · rw [buildStep_ready .firstItem ls ht] at h ⊢
      exact valueStep_le hn h
  | _ => rcases ls with _ | ⟨_ | _, ls⟩ <;> cases t <;> exact h

theorem foldlM_le {root : Shape} {m n : Nat} (hn : m ≤ n) {ts : List Token}
    {st st' : List Level × Expecting} (h : ts.foldlM (buildStep root (some m)) st = some st') :
    ts.foldlM (buildStep root (some n)) st = some st' := by
  induction ts generalizing st with
  | nil => exact h
  | cons t ts ih =>
    rw [List.foldlM_cons] at h ⊢
    obtain ⟨st₁, step, run⟩ := Option.bind_eq_some_iff.1 h
    exact Option.bind_eq_some_iff.2 ⟨st₁, buildStep_le hn step, ih run⟩

/-- **A text that is read with a limit on the nesting is read alike with a higher one.** -/
theorem read?_le {s : Shape} {m n : Nat} (hn : m ≤ n) {text : String} {j : Json}
    (h : read? s (some m) text = some j) : read? s (some n) text = some j := by
  obtain ⟨ts, tokens, built⟩ := Option.bind_eq_some_iff.1 h
  obtain ⟨st, run, value⟩ := Option.bind_eq_some_iff.1 built
  exact Option.bind_eq_some_iff.2 ⟨ts, tokens,
    Option.bind_eq_some_iff.2 ⟨st, foldlM_le hn run, value⟩⟩

end Json

end FlatClosure
