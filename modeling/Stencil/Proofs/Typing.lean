import Mathlib.Data.List.Forall2
import Stencil.Proofs.Meaning

/-!
# Types are kept

The tag of a list says what its items should be, and nothing enforces it. A value
is *uniform* if every list in it holds items of its element type only, and
`Value.Fits` a type if it is uniform and carries that type.

`Form.WellTyped` is the type discipline of the language: what a node records
follows from what its children record. A well-typed form over fitting arguments
delivers a fitting value of the recorded type, or fails in one of the few ways
that depend on the values of operands and not on their types
(`Form.eval_delivers`). The operators are looked at one by one for this
(`BinaryOp.delivers_apply` and its siblings); the rest is an induction over the
form with the invariant that every slot in scope holds a value of its type.

On well-typed forms it makes no difference whether a logical operator asks for
its left operand or hands it on (`Form.eval_asking_eq_passing`).
-/

namespace Stencil

namespace Value

mutual

/-- Every list in the value holds items of its element type only. -/
def uniform : Value → Bool
  | list elem items => allUniform elem items
  | int _ | float _ | bool _ | str _ | unit => true

/-- All items have the type, and are uniform themselves. -/
def allUniform (elem : Ty) : List Value → Bool
  | [] => true
  | v :: vs => decide (v.ty = elem) && v.uniform && allUniform elem vs

end

/-- The value is of the type, and so is everything in it. -/
structure Fits (v : Value) (t : Ty) : Prop where
  ty : v.ty = t
  uniform : v.uniform = true

theorem fits_iff {v : Value} {t : Ty} : v.Fits t ↔ v.ty = t ∧ v.uniform = true :=
  ⟨fun h => ⟨h.ty, h.uniform⟩, fun h => ⟨h.1, h.2⟩⟩

/-- A list is uniform if its items fit the element type. -/
theorem allUniform_iff {elem : Ty} {items : List Value} :
    allUniform elem items = true ↔ ∀ v ∈ items, v.Fits elem := by
  induction items with
  | nil => simp [allUniform]
  | cons v vs ih =>
    rw [allUniform, Bool.and_eq_true, Bool.and_eq_true, decide_eq_true_eq, ih,
      List.forall_mem_cons, fits_iff]

/-- A list fits its own type if its items fit the element type. -/
theorem fits_list_iff {elem : Ty} {items : List Value} :
    (list elem items).Fits (.list elem) ↔ ∀ v ∈ items, v.Fits elem := by
  rw [← allUniform_iff]
  exact ⟨fun h => h.uniform, fun h => ⟨rfl, h⟩⟩

/-- A fitting value is what its type says. -/
theorem Fits.cases {v : Value} {t : Ty} (h : v.Fits t) :
    match t with
    | .int => ∃ n, v = int n
    | .float => ∃ x, v = float x
    | .bool => ∃ b, v = bool b
    | .str => ∃ s, v = str s
    | .unit => v = unit
    | .list elem => ∃ items, v = list elem items ∧ ∀ w ∈ items, w.Fits elem := by
  obtain ⟨hty, hu⟩ := h
  cases v <;> cases hty
  case unit => rfl
  case list elem items => exact ⟨items, rfl, allUniform_iff.mp hu⟩
  all_goals exact ⟨_, rfl⟩

/-- Values that fit types which are all one type fit that type. -/
theorem forall_fits {vs : List Value} {ts : List Ty} (h : List.Forall₂ Fits vs ts) {elem : Ty}
    (hts : ∀ t ∈ ts, t = elem) : ∀ v ∈ vs, v.Fits elem := by
  induction h with
  | nil => exact List.forall_mem_nil _
  | cons hv _ ih =>
    obtain ⟨rfl, hts⟩ := List.forall_mem_cons.mp hts
    exact List.forall_mem_cons.mpr ⟨hv, ih hts⟩

/-- Uniform values fit the types that they carry. -/
theorem forall₂_fits_self {vs : List Value} (h : ∀ v ∈ vs, v.uniform = true) :
    List.Forall₂ Fits vs (vs.map ty) :=
  List.forall₂_map_right_iff.mpr (List.forall₂_same.mpr fun v hv => ⟨rfl, h v hv⟩)

end Value

/-- A failure that depends on the values of operands, not on their types. -/
def EvalError.byValue : EvalError → Bool
  | divisionByZero | moduloByZero | overflow _ | floatOutOfRange _ | indexOutOfBounds _ _ => true
  | typeMismatch _ _ | invalidBinary _ _ | invalidUnary _ _ | operandMismatch _ _
  | invalidArgument _ _ | undefinedVariable _ | arity _ _ _ => false

/-- The computation ends with a result as described, or with a failure that
depends on values. -/
def Ends {α : Type} (P : α → Prop) : Except Stop α → Prop
  | .ok a => P a
  | .error (.error cause) => cause.byValue = true
  | .error .outOfBounds | .error .unfinished => False

/-- The evaluation ends with a value that fits the type, or with a failure that
depends on values. -/
abbrev Delivers (t : Ty) (r : Except Stop Value) : Prop := Ends (fun v => v.Fits t) r

/-- There is a result as described, or a cause that depends on values. -/
theorem Ends.cases {α : Type} {P : α → Prop} {r : Except Stop α} (h : Ends P r) :
    (∃ a, r = .ok a ∧ P a) ∨
      ∃ cause : EvalError, r = .error (.error cause) ∧ cause.byValue = true := by
  cases r with
  | ok a => exact .inl ⟨a, rfl, h⟩
  | error stop =>
    cases stop with
    | error cause => exact .inr ⟨cause, rfl, h⟩
    | outOfBounds | unfinished => exact h.elim

/-- The second step may count on what the first one promises. -/
theorem Ends.bind {α β : Type} {P : α → Prop} {Q : β → Prop} {r : Except Stop α}
    {k : α → Except Stop β} (hr : Ends P r) (hk : ∀ a, P a → Ends Q (k a)) :
    Ends Q (r >>= k) := by
  cases r with
  | ok a => exact hk a hr
  | error stop =>
    cases stop with
    | error cause => exact hr
    | outOfBounds | unfinished => exact hr.elim

/-! ### Operators -/

/-- An overflow depends on values, so a checked integer always delivers. -/
theorem delivers_checkedInt (operation : String) (n : Int) :
    Delivers .int (Stop.lift (checkedInt operation n)) := by
  unfold checkedInt
  cases int64? n with
  | none => exact rfl
  | some n => exact ⟨rfl, rfl⟩

namespace BinaryOp

/-- A comparison delivers a boolean, whatever it compares. -/
theorem delivers_comparison {op : BinaryOp} (h : (op.isEquality || op.isOrdering) = true)
    (order : Option Ordering) (operand : String) :
    Delivers .bool (Stop.lift (op.comparison order operand)) := by
  rw [comparison, if_pos h]
  exact ⟨rfl, rfl⟩

/-- Integer operators fail by overflow or by a zero divisor, which are matters of value. -/
theorem delivers_applyInt {op : BinaryOp} (h : op.accepts .int .int = true) (a b : Int64) :
    Delivers (op.resultType .int) (Stop.lift (op.applyInt a b)) := by
  cases op with
  | add | sub | mul => exact delivers_checkedInt _ _
  | div =>
    rw [applyInt]
    by_cases hb : b = 0
    · rw [if_pos hb]
      exact rfl
    · rw [if_neg hb]
      exact delivers_checkedInt _ _
  | mod =>
    rw [applyInt]
    by_cases hb : b = 0
    · rw [if_pos hb]
      exact rfl
    · rw [if_neg hb]
      by_cases hm : a = Int64.minValue ∧ b = -1
      · rw [if_pos hm]
        exact rfl
      · rw [if_neg hm]
        exact delivers_checkedInt _ _
  | and | or => cases h
  | _ => exact delivers_comparison rfl _ _

theorem delivers_applyFloat {op : BinaryOp} (h : op.accepts .float .float = true)
    (a b : Binary64) : Delivers (op.resultType .float) (Stop.lift (op.applyFloat a b)) := by
  cases op with
  | add | sub | mul | div | mod => exact ⟨rfl, rfl⟩
  | and | or => cases h
  | _ => exact delivers_comparison rfl _ _

theorem delivers_applyBool {op : BinaryOp} (h : op.accepts .bool .bool = true) (a b : Bool) :
    Delivers (op.resultType .bool) (Stop.lift (op.applyBool a b)) := by
  cases op with
  | eq | ne | and | or => exact ⟨rfl, rfl⟩
  | _ => cases h

theorem delivers_applyStr {op : BinaryOp} (h : op.accepts .str .str = true) (a b : String) :
    Delivers (op.resultType .str) (Stop.lift (op.applyStr a b)) := by
  cases op with
  | add => exact ⟨rfl, rfl⟩
  | sub | mul | div | mod | and | or => cases h
  | _ => exact delivers_comparison rfl _ _

theorem delivers_applyUnit {op : BinaryOp} (h : op.accepts .unit .unit = true) :
    Delivers (op.resultType .unit) (Stop.lift op.applyUnit) := by
  cases op with
  | eq | ne => exact ⟨rfl, rfl⟩
  | _ => cases h

/-- Lists are joined under one element type, so the items fit it still. -/
theorem delivers_applyList {op : BinaryOp} {elem : Ty}
    (h : op.accepts (.list elem) (.list elem) = true) {xs ys : List Value}
    (hxs : ∀ v ∈ xs, v.Fits elem) (hys : ∀ v ∈ ys, v.Fits elem) :
    Delivers (op.resultType (.list elem)) (Stop.lift (op.applyList elem xs elem ys)) := by
  cases op with
  | add =>
    rw [applyList, if_pos rfl]
    refine Value.fits_list_iff.mpr ?_
    intro v hv
    rcases List.mem_append.mp hv with hv | hv
    · exact hxs v hv
    · exact hys v hv
  | eq | ne => exact ⟨rfl, rfl⟩
  | _ => simp [accepts, Ty.isNumeric, Ty.isOrdered] at h

/-- An accepted operator delivers its result type. -/
theorem delivers_apply {op : BinaryOp} {l r : Ty} (h : op.accepts l r = true) {v w : Value}
    (hv : v.Fits l) (hw : w.Fits r) :
    Delivers (op.resultType l) (Stop.lift (op.apply v w)) := by
  have hlr : l = r := by
    simp only [accepts, Bool.and_eq_true, decide_eq_true_eq] at h
    exact h.1
  subst hlr
  cases l with
  | int =>
    obtain ⟨a, rfl⟩ := hv.cases
    obtain ⟨b, rfl⟩ := hw.cases
    exact delivers_applyInt h a b
  | float =>
    obtain ⟨a, rfl⟩ := hv.cases
    obtain ⟨b, rfl⟩ := hw.cases
    exact delivers_applyFloat h a b
  | bool =>
    obtain ⟨a, rfl⟩ := hv.cases
    obtain ⟨b, rfl⟩ := hw.cases
    exact delivers_applyBool h a b
  | str =>
    obtain ⟨a, rfl⟩ := hv.cases
    obtain ⟨b, rfl⟩ := hw.cases
    exact delivers_applyStr h a b
  | unit =>
    have hv : v = .unit := hv.cases
    have hw : w = .unit := hw.cases
    rw [hv, hw]
    exact delivers_applyUnit h
  | list elem =>
    obtain ⟨xs, rfl, hxs⟩ := hv.cases
    obtain ⟨ys, rfl, hys⟩ := hw.cases
    exact delivers_applyList h hxs hys

end BinaryOp

/-- An accepted unary operator delivers its result type. -/
theorem UnaryOp.delivers_apply {op : UnaryOp} {t : Ty} (h : op.accepts t = true) {v : Value}
    (hv : v.Fits t) : Delivers (op.resultType t) (Stop.lift (op.apply v)) := by
  cases op with
  | neg =>
    cases t with
    | int =>
      obtain ⟨a, rfl⟩ := hv.cases
      exact delivers_checkedInt _ _
    | float =>
      obtain ⟨a, rfl⟩ := hv.cases
      exact ⟨rfl, rfl⟩
    | _ => cases h
  | not =>
    cases t with
    | bool =>
      obtain ⟨a, rfl⟩ := hv.cases
      exact ⟨rfl, rfl⟩
    | _ => cases h

namespace Builtin

/-- What is not rejected is accepted one by one, and two arguments have one type. -/
theorem rejects?_eq_none {f : Builtin} {ts : List Ty} (h : f.rejects? ts = none) :
    (∀ t ∈ ts, f.accepts t = true) ∧ ∀ t u, ts = [t, u] → t = u := by
  unfold rejects? at h
  cases hfind : ts.find? fun t => !f.accepts t with
  | some bad => rw [hfind] at h; cases h
  | none =>
    rw [hfind] at h
    refine ⟨fun t ht => by simpa using List.find?_eq_none.mp hfind t ht, ?_⟩
    rintro t u rfl
    by_cases htu : t = u
    · exact htu
    · simp [htu] at h

/-- An extremum is one of two values that fit. -/
theorem delivers_extremum {f : Builtin} {t : Ty} (ht : t.isOrdered = true) (smallest : Bool)
    {v w : Value} (hv : v.Fits t) (hw : w.Fits t) :
    Delivers t (Stop.lift (extremum f smallest v w)) := by
  -- either operand is a fitting result
  have hpick : ∀ b : Bool, Delivers t (Stop.lift (.ok (if b then v else w))) := by
    intro b
    cases b
    · exact hw
    · exact hv
  cases t with
  | int =>
    obtain ⟨a, rfl⟩ := hv.cases
    obtain ⟨b, rfl⟩ := hw.cases
    exact hpick _
  | float =>
    obtain ⟨a, rfl⟩ := hv.cases
    obtain ⟨b, rfl⟩ := hw.cases
    rw [extremum]
    cases a.compare? b with
    | none => exact hpick _
    | some order => exact hpick _
  | str =>
    obtain ⟨a, rfl⟩ := hv.cases
    obtain ⟨b, rfl⟩ := hw.cases
    exact hpick _
  | _ => cases ht

/-- A float without a whole part in range is refused for its value. -/
theorem delivers_truncated (x : Binary64) : Delivers .int (Stop.lift (truncated x)) := by
  unfold truncated
  cases x.toInt?.bind int64? with
  | none => exact rfl
  | some n => exact ⟨rfl, rfl⟩

theorem delivers_apply_one {f : Builtin} {t : Ty} (hf : f.arity = 1) (ht : f.accepts t = true)
    {v : Value} (hv : v.Fits t) : Delivers (f.resultType (some t)) (Stop.lift (f.apply [v])) := by
  cases f with
  | abs =>
    cases t with
    | int =>
      obtain ⟨n, rfl⟩ := hv.cases
      rw [apply, if_neg (by simp [arity]), resultType, Option.getD_some]
      -- at full transparency the range check is unfolded on the natural number
      with_reducible exact delivers_checkedInt _ _
    | float =>
      obtain ⟨x, rfl⟩ := hv.cases
      exact ⟨rfl, rfl⟩
    | _ => cases ht
  | len =>
    cases t with
    | str =>
      obtain ⟨s, rfl⟩ := hv.cases
      rw [apply, if_neg (by simp [arity]), resultType]
      with_reducible exact delivers_checkedInt _ _
    | list elem =>
      obtain ⟨items, rfl, -⟩ := hv.cases
      rw [apply, if_neg (by simp [arity]), resultType]
      with_reducible exact delivers_checkedInt _ _
    | _ => cases ht
  | toFloat =>
    cases t with
    | int =>
      obtain ⟨n, rfl⟩ := hv.cases
      exact ⟨rfl, rfl⟩
    | _ => cases ht
  | toInt =>
    cases t with
    | float =>
      obtain ⟨x, rfl⟩ := hv.cases
      exact delivers_truncated x
    | _ => cases ht
  | min | max => cases hf

theorem delivers_apply_two {f : Builtin} {t : Ty} (hf : f.arity = 2) (ht : f.accepts t = true)
    {v w : Value} (hv : v.Fits t) (hw : w.Fits t) :
    Delivers (f.resultType (some t)) (Stop.lift (f.apply [v, w])) := by
  cases f with
  | min => exact delivers_extremum ht true hv hw
  | max => exact delivers_extremum ht false hv hw
  | _ => cases hf

/-- A builtin that rejects none of its argument types delivers its result type. -/
theorem delivers_apply {f : Builtin} {ts : List Ty} {vs : List Value}
    (hlen : ts.length = f.arity) (h : f.rejects? ts = none) (hvs : List.Forall₂ Value.Fits vs ts) :
    Delivers (f.resultType ts.head?) (Stop.lift (f.apply vs)) := by
  obtain ⟨haccepts, hsame⟩ := rejects?_eq_none h
  cases hvs with
  | nil => cases f <;> cases hlen
  | @cons v t vs ts hv hrest =>
    have ht := haccepts t List.mem_cons_self
    cases hrest with
    | nil => exact delivers_apply_one hlen.symm ht hv
    | @cons w u vs ts hw hrest =>
      cases hrest with
      | nil =>
        obtain rfl := hsame t u rfl
        exact delivers_apply_two hlen.symm ht hv hw
      | cons _ _ => cases f <;> simp [arity] at hlen

end Builtin

/-- An item of a fitting list fits, and an index past the end is a matter of value. -/
theorem Value.delivers_index {elem : Ty} {r i : Value} (hr : r.Fits (.list elem))
    (hi : i.Fits .int) : Delivers elem (Stop.lift (r.index i)) := by
  obtain ⟨items, rfl, hitems⟩ := hr.cases
  obtain ⟨n, rfl⟩ := hi.cases
  simp only [index]
  cases hitem : if 0 ≤ n.toInt then items[n.toInt.toNat]? else none with
  | none => exact rfl
  | some item =>
    by_cases hn : 0 ≤ n.toInt
    · rw [if_pos hn] at hitem
      exact hitems item (List.mem_of_getElem? hitem)
    · rw [if_neg hn] at hitem
      cases hitem

/-! ### Forms -/

/-- The type of the innermost `let` that binds a slot. -/
def slotType (scope : List (Nat × Ty)) (slot : Nat) : Option Ty :=
  (scope.find? fun binding => binding.1 = slot).map Prod.snd

namespace Form

mutual

/-- What every node records follows from what its children record. -/
def WellTyped (params : List Ty) (scope : List (Nat × Ty)) : Form Value → Prop
  | const t v => v.ty = t
  | param t i => params[i]? = some t
  | localVar t slot => slotType scope slot = some t
  | unary t op x =>
    x.WellTyped params scope ∧ op.accepts x.ty = true ∧ op.resultType x.ty = t
  | binary t op l r =>
    l.WellTyped params scope ∧ r.WellTyped params scope ∧ op.accepts l.ty r.ty = true ∧
      op.resultType l.ty = t
  | ite t c x y =>
    c.WellTyped params scope ∧ x.WellTyped params scope ∧ y.WellTyped params scope ∧
      c.ty = .bool ∧ x.ty = t ∧ y.ty = t
  | letIn t slot i b =>
    i.WellTyped params scope ∧ b.WellTyped params ((slot, i.ty) :: scope) ∧ b.ty = t
  | list t xs =>
    ∃ elem, t = .list elem ∧ AllWellTyped params scope xs ∧ ∀ x ∈ xs, x.ty = elem
  | index t r i =>
    r.WellTyped params scope ∧ i.WellTyped params scope ∧ r.ty = .list t ∧ i.ty = .int
  | call t f xs =>
    xs.length = f.arity ∧ AllWellTyped params scope xs ∧ f.rejects? (xs.map ty) = none ∧
      f.resultType (xs.map ty).head? = t

/-- All the forms are well typed in the same scope. -/
def AllWellTyped (params : List Ty) (scope : List (Nat × Ty)) : List (Form Value) → Prop
  | [] => True
  | x :: xs => x.WellTyped params scope ∧ AllWellTyped params scope xs

end

end Form

/-- A slot that has a type is in scope. -/
theorem mem_of_slotType {scope : List (Nat × Ty)} {slot : Nat} {t : Ty}
    (h : slotType scope slot = some t) : slot ∈ scope.map Prod.fst := by
  obtain ⟨binding, hfind, -⟩ := Option.map_eq_some_iff.mp h
  have hslot : binding.1 = slot := by simpa using List.find?_some hfind
  exact List.mem_map.mpr ⟨binding, List.mem_of_find?_eq_some hfind, hslot⟩

namespace Form

variable {params : List Ty}

mutual

/-- What is well typed is well formed. -/
theorem WellTyped.proper : (f : Form Value) → {scope : List (Nat × Ty)} →
    f.WellTyped params scope → f.Proper params.length (scope.map Prod.fst)
  | const _ _, _, hf => hf
  | param _ _, _, hf => (List.getElem?_eq_some_iff.mp hf).1
  | localVar _ _, _, hf => mem_of_slotType hf
  | unary _ _ x, _, hf => WellTyped.proper x hf.1
  | binary _ _ l r, _, hf | index _ l r, _, hf =>
    ⟨WellTyped.proper l hf.1, WellTyped.proper r hf.2.1⟩
  | ite _ c x y, _, hf =>
    ⟨WellTyped.proper c hf.1, WellTyped.proper x hf.2.1, WellTyped.proper y hf.2.2.1⟩
  | letIn _ slot i b, _, hf => ⟨WellTyped.proper i hf.1, WellTyped.proper b hf.2.1⟩
  | list _ xs, _, hf => by
    obtain ⟨_, -, hxs, -⟩ := hf
    exact AllWellTyped.allProper xs hxs
  | call _ _ xs, _, hf => AllWellTyped.allProper xs hf.2.1

theorem AllWellTyped.allProper : (fs : List (Form Value)) → {scope : List (Nat × Ty)} →
    AllWellTyped params scope fs → AllProper params.length (scope.map Prod.fst) fs
  | [], _, _ => trivial
  | x :: xs, _, hf => ⟨WellTyped.proper x hf.1, AllWellTyped.allProper xs hf.2⟩

end

end Form

/-- Every parameter has an argument that fits its type. -/
def ArgsFit (params : List Ty) (args : Array Value) : Prop :=
  ∀ (i : Nat) (t : Ty), params[i]? = some t → ∃ v, args[i]? = some v ∧ v.Fits t

/-- Every slot in scope holds a value that fits its type. -/
def ScopeFits (scope : List (Nat × Ty)) (env : List (Nat × Value)) : Prop :=
  ∀ slot t, slotType scope slot = some t → ∃ v, lookupSlot env slot = some v ∧ v.Fits t

theorem ScopeFits.nil : ScopeFits [] [] := by
  intro slot t h
  cases h

/-- A `let` may shadow a slot of another type. -/
theorem ScopeFits.cons {scope : List (Nat × Ty)} {env : List (Nat × Value)}
    (h : ScopeFits scope env) (slot : Nat) {t : Ty} {v : Value} (hv : v.Fits t) :
    ScopeFits ((slot, t) :: scope) ((slot, v) :: env) := by
  intro s u hs
  by_cases heq : slot = s
  · simp only [slotType, List.find?_cons, heq, decide_true, Option.map_some,
      Option.some.injEq] at hs
    exact ⟨v, by simp [lookupSlot, heq], hs ▸ hv⟩
  · have hrest : slotType scope s = some u := by simpa [slotType, heq] using hs
    obtain ⟨w, hw, hfit⟩ := h s u hrest
    exact ⟨w, by simpa [lookupSlot, heq] using hw, hfit⟩

/-- Logical operators accept booleans and nothing else. -/
theorem BinaryOp.accepts_logical {op : BinaryOp} (hop : op.isLogical = true) {l r : Ty}
    (h : op.accepts l r = true) : l = .bool ∧ r = .bool := by
  cases op with
  | and | or =>
    simp only [accepts, Bool.and_eq_true, decide_eq_true_eq] at h
    exact ⟨h.2, h.1 ▸ h.2⟩
  | _ => cases hop

/-- Code that goes on from a fitting left operand delivers the result type. -/
theorem Combine.delivers_passing {op : BinaryOp} {l r : Ty} (h : op.accepts l r = true)
    {v : Value} (hv : v.Fits l) {w : Except Stop Value} (hw : Delivers r w) :
    Delivers (op.resultType l) (passing op v w) := by
  cases op with
  | and =>
    obtain ⟨rfl, rfl⟩ := BinaryOp.accepts_logical rfl h
    by_cases hb : v = .bool true
    · rw [passing, if_pos hb]
      exact hw
    · rw [passing, if_neg hb]
      exact hv
  | or =>
    obtain ⟨rfl, rfl⟩ := BinaryOp.accepts_logical rfl h
    by_cases hb : v = .bool false
    · rw [passing, if_pos hb]
      exact hw
    · rw [passing, if_neg hb]
      exact hv
  | _ => exact hw.bind fun u hu => BinaryOp.delivers_apply h hv hu

/-- The type of a boolean tells that it is one. -/
theorem Value.exists_bool_of_ty {v : Value} (h : v.ty = .bool) : ∃ b, v = .bool b := by
  cases v <;> cases h
  exact ⟨_, rfl⟩

/-- The two ways of going on agree as long as the operands of logical operators are
booleans. The right one only counts if it is asked for. -/
theorem Combine.asking_eq_passing_of_bool {op : BinaryOp} {v : Value} {w : Except Stop Value}
    (hv : op.isLogical = true → v.ty = .bool)
    (hw : op.isLogical = true → op.decides v = false → ∀ u, w = .ok u → u.ty = .bool) :
    asking op v w = passing op v w := by
  cases op with
  | and =>
    obtain ⟨b, rfl⟩ := Value.exists_bool_of_ty (hv rfl)
    cases b with
    | false => rfl
    | true =>
      -- the right operand is a boolean, which the operator returns as it is
      cases w with
      | error stop => rfl
      | ok u =>
        obtain ⟨c, rfl⟩ := Value.exists_bool_of_ty (hw rfl rfl u rfl)
        rfl
  | or =>
    obtain ⟨b, rfl⟩ := Value.exists_bool_of_ty (hv rfl)
    cases b with
    | true => rfl
    | false =>
      cases w with
      | error stop => rfl
      | ok u =>
        obtain ⟨c, rfl⟩ := Value.exists_bool_of_ty (hw rfl rfl u rfl)
        rfl
  | _ => rfl

/-- On well-typed operands the two ways of going on agree. -/
theorem Combine.asking_eq_passing {op : BinaryOp} {l r : Ty} (h : op.accepts l r = true)
    {v : Value} (hv : v.Fits l) {w : Except Stop Value} (hw : Delivers r w) :
    asking op v w = passing op v w := by
  refine asking_eq_passing_of_bool ?_ ?_
  · intro hop
    exact hv.ty.trans (BinaryOp.accepts_logical hop h).1
  · intro hop _ u hu
    have hfits : u.Fits r := by
      rw [hu] at hw
      exact hw
    exact hfits.ty.trans (BinaryOp.accepts_logical hop h).2

namespace Form

variable {params : List Ty} {args : Array Value}

mutual

/-- A well-typed form over fitting arguments delivers its recorded type. -/
theorem eval_delivers (hargs : ArgsFit params args) : (f : Form Value) →
    {scope : List (Nat × Ty)} → {env : List (Nat × Value)} → ScopeFits scope env →
    f.WellTyped params scope → (∀ v ∈ f.consts, v.uniform = true) →
    Delivers f.ty (f.eval .passing args env)
  | const t v, _, _, _, hf, hc => ⟨hf, hc v List.mem_cons_self⟩
  | param t i, _, _, _, hf, _ => by
    obtain ⟨v, hv, hfit⟩ := hargs i t hf
    rw [eval, hv]
    exact hfit
  | localVar t slot, _, _, henv, hf, _ => by
    obtain ⟨v, hv, hfit⟩ := henv slot t hf
    rw [eval, hv]
    exact hfit
  | unary t op x, _, _, henv, hf, hc => by
    obtain ⟨hx, haccepts, rfl⟩ := hf
    exact (eval_delivers hargs x henv hx hc).bind fun v hv => UnaryOp.delivers_apply haccepts hv
  | binary t op l r, _, _, henv, hf, hc => by
    obtain ⟨hl, hr, haccepts, rfl⟩ := hf
    obtain ⟨hcl, hcr⟩ := List.forall_mem_append.mp hc
    have hright := eval_delivers hargs r henv hr hcr
    exact (eval_delivers hargs l henv hl hcl).bind fun v hv =>
      Combine.delivers_passing haccepts hv hright
  | ite t c x y, _, _, henv, hf, hc => by
    obtain ⟨hb, hx, hy, hbool, hxt, hyt⟩ := hf
    obtain ⟨hcb, hcxy⟩ := List.forall_mem_append.mp hc
    obtain ⟨hcx, hcy⟩ := List.forall_mem_append.mp hcxy
    have hthen := eval_delivers hargs x henv hx hcx
    have helse := eval_delivers hargs y henv hy hcy
    rw [hxt] at hthen
    rw [hyt] at helse
    refine (eval_delivers hargs c henv hb hcb).bind fun v hv => ?_
    rw [hbool] at hv
    obtain ⟨b, rfl⟩ := hv.cases
    cases b
    · exact helse
    · exact hthen
  | letIn t slot i b, _, _, henv, hf, hc => by
    obtain ⟨hi, hb, rfl⟩ := hf
    obtain ⟨hci, hcb⟩ := List.forall_mem_append.mp hc
    exact (eval_delivers hargs i henv hi hci).bind fun v hv =>
      eval_delivers hargs b (henv.cons slot hv) hb hcb
  | list t xs, _, _, henv, hf, hc => by
    obtain ⟨elem, rfl, hxs, hty⟩ := hf
    refine (evalAll_delivers hargs xs henv hxs hc).bind fun vs hvs => ?_
    exact Value.fits_list_iff.mpr (Value.forall_fits hvs (List.forall_mem_map.mpr hty))
  | index t r i, _, _, henv, hf, hc => by
    obtain ⟨hr, hi, hrt, hit⟩ := hf
    obtain ⟨hcr, hci⟩ := List.forall_mem_append.mp hc
    refine (eval_delivers hargs r henv hr hcr).bind fun v hv => ?_
    refine (eval_delivers hargs i henv hi hci).bind fun w hw => ?_
    rw [hrt] at hv
    rw [hit] at hw
    exact Value.delivers_index hv hw
  | call t f xs, _, _, henv, hf, hc => by
    obtain ⟨hlen, hxs, hrejects, rfl⟩ := hf
    exact (evalAll_delivers hargs xs henv hxs hc).bind fun vs hvs =>
      Builtin.delivers_apply (by rw [List.length_map, hlen]) hrejects hvs

theorem evalAll_delivers (hargs : ArgsFit params args) : (fs : List (Form Value)) →
    {scope : List (Nat × Ty)} → {env : List (Nat × Value)} →
    ScopeFits scope env → AllWellTyped params scope fs →
    (∀ v ∈ constsAll fs, v.uniform = true) →
    Ends (fun vs => List.Forall₂ Value.Fits vs (fs.map ty)) (evalAll .passing args env fs)
  | [], _, _, _, _, _ => .nil
  | x :: xs, _, _, henv, hf, hc => by
    obtain ⟨hcx, hcxs⟩ := List.forall_mem_append.mp hc
    refine (eval_delivers hargs x henv hf.1 hcx).bind fun v hv => ?_
    exact (evalAll_delivers hargs xs henv hf.2 hcxs).bind fun vs hvs => .cons hv hvs

end

mutual

/-- On a well-typed form over fitting arguments it makes no difference how a
logical operator treats a left operand that is no boolean. -/
theorem eval_asking_eq_passing (hargs : ArgsFit params args) : (f : Form Value) →
    {scope : List (Nat × Ty)} → {env : List (Nat × Value)} → ScopeFits scope env →
    f.WellTyped params scope → (∀ v ∈ f.consts, v.uniform = true) →
    f.eval .asking args env = f.eval .passing args env
  | const _ _, _, _, _, _, _ | param _ _, _, _, _, _, _ | localVar _ _, _, _, _, _, _ => by
    rw [eval, eval]
  | unary t op x, _, _, henv, hf, hc => by
    rw [eval, eval, eval_asking_eq_passing hargs x henv hf.1 hc]
  | binary t op l r, _, env, henv, hf, hc => by
    obtain ⟨hl, hr, haccepts, -⟩ := hf
    obtain ⟨hcl, hcr⟩ := List.forall_mem_append.mp hc
    have hleft := eval_delivers hargs l henv hl hcl
    have hright := eval_delivers hargs r henv hr hcr
    rw [eval, eval, eval_asking_eq_passing hargs l henv hl hcl,
      eval_asking_eq_passing hargs r henv hr hcr]
    cases hv : l.eval .passing args env with
    | error stop => rfl
    | ok v =>
      rw [hv] at hleft
      exact Combine.asking_eq_passing haccepts hleft hright
  | ite t c x y, _, _, henv, hf, hc => by
    obtain ⟨hcb, hcxy⟩ := List.forall_mem_append.mp hc
    obtain ⟨hcx, hcy⟩ := List.forall_mem_append.mp hcxy
    rw [eval, eval, eval_asking_eq_passing hargs c henv hf.1 hcb,
      eval_asking_eq_passing hargs x henv hf.2.1 hcx,
      eval_asking_eq_passing hargs y henv hf.2.2.1 hcy]
  | letIn t slot i b, _, env, henv, hf, hc => by
    obtain ⟨hi, hb, -⟩ := hf
    obtain ⟨hci, hcb⟩ := List.forall_mem_append.mp hc
    have hinit := eval_delivers hargs i henv hi hci
    rw [eval, eval, eval_asking_eq_passing hargs i henv hi hci]
    cases hv : i.eval .passing args env with
    | error stop => rfl
    | ok v =>
      rw [hv] at hinit
      exact eval_asking_eq_passing hargs b (henv.cons slot hinit) hb hcb
  | list t xs, _, _, henv, hf, hc => by
    obtain ⟨elem, rfl, hxs, -⟩ := hf
    rw [eval, eval, evalAll_asking_eq_passing hargs xs henv hxs hc]
  | index t r i, _, _, henv, hf, hc => by
    obtain ⟨hcr, hci⟩ := List.forall_mem_append.mp hc
    rw [eval, eval, eval_asking_eq_passing hargs r henv hf.1 hcr,
      eval_asking_eq_passing hargs i henv hf.2.1 hci]
  | call t f xs, _, _, henv, hf, hc => by
    rw [eval, eval, evalAll_asking_eq_passing hargs xs henv hf.2.1 hc]

theorem evalAll_asking_eq_passing (hargs : ArgsFit params args) : (fs : List (Form Value)) →
    {scope : List (Nat × Ty)} → {env : List (Nat × Value)} → ScopeFits scope env →
    AllWellTyped params scope fs → (∀ v ∈ constsAll fs, v.uniform = true) →
    evalAll .asking args env fs = evalAll .passing args env fs
  | [], _, _, _, _, _ => rfl
  | x :: xs, _, _, henv, hf, hc => by
    obtain ⟨hcx, hcxs⟩ := List.forall_mem_append.mp hc
    rw [evalAll, evalAll, eval_asking_eq_passing hargs x henv hf.1 hcx,
      evalAll_asking_eq_passing hargs xs henv hf.2 hcxs]

end

end Form

end Stencil
