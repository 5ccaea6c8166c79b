import Stencil.Proofs.Typing
import Stencil.Code.Lower

/-!
# Lowering is checking and emission

`Form.emit` turns a form into code and checks nothing. Lowering a tree succeeds
on well-typed forms only, and then gives the emitted code, the recorded type of
the root, and one more cell in use for every `let` (`Tree.lower_ok`).

Emitted code does what `Form.eval` says, with logical operators that hand on
(`Form.run_emit`). The two sides keep bindings in different ways, the evaluator in
a list that is innermost first, the code in cells that are never freed. What links
them is `Mirrors`: the cell of every slot in scope holds the value that the slot
is bound to, and all these cells are numbered below the ones that the code at hand
may fill. So the code may leave its own cells in any state, and a computation
`Agrees` with a value as soon as it returns the value and keeps the cells below.
-/

namespace Stencil

/-- The slots and types of the `let`s around a piece of code. -/
def slotTypes (scope : List Binding) : List (Nat × Ty) := scope.map fun b => (b.slot, b.ty)

theorem slotType_slotTypes (scope : List Binding) (slot : Nat) :
    slotType (slotTypes scope) slot
      = (scope.find? fun b => b.slot = slot).map Binding.ty := by
  rw [slotType, slotTypes, List.find?_map, Option.map_map]
  rfl

namespace Form

mutual

/-- How many `let`s the form has, each occurrence counted. -/
def lets : Form Value → Nat
  | const _ _ | param _ _ | localVar _ _ => 0
  | unary _ _ x => x.lets
  | binary _ _ l r => l.lets + r.lets
  | ite _ c x y => c.lets + x.lets + y.lets
  | letIn _ _ i b => i.lets + 1 + b.lets
  | list _ xs => letsAll xs
  | index _ r i => r.lets + i.lets
  | call _ _ xs => letsAll xs

def letsAll : List (Form Value) → Nat
  | [] => 0
  | x :: xs => x.lets + letsAll xs

end

mutual

/-- The code of a form, in the scope of some `let`s and with `cells` cells in use. -/
def emit (c : Convention) (scope : List Binding) : Form Value → (cells : Nat) → Code
  | const _ v, _ => .const v
  | param _ i, _ => .arg (c.position i)
  | localVar _ slot, _ => .cell (((scope.find? fun b => b.slot = slot).map Binding.cell).getD 0)
  | unary _ op x, n => .unary op (x.emit c scope n)
  | binary _ op l r, n => op.lower (l.emit c scope n) (r.emit c scope (n + l.lets))
  | ite _ b x y, n =>
    .ite (b.emit c scope n) (x.emit c scope (n + b.lets)) (y.emit c scope (n + b.lets + x.lets))
  | letIn _ slot i b, n =>
    .store (n + i.lets) (i.emit c scope n)
      (b.emit c (⟨slot, n + i.lets, i.ty⟩ :: scope) (n + i.lets + 1))
  | list t xs, n => .list (t.elem?.getD t) (emitAll c scope xs n)
  | index _ r i, n => .index (r.emit c scope n) (i.emit c scope (n + r.lets))
  | call _ f xs, n => .call f (emitAll c scope xs n)

def emitAll (c : Convention) (scope : List Binding) : List (Form Value) → (cells : Nat) → List Code
  | [], _ => []
  | x :: xs, n => x.emit c scope n :: emitAll c scope xs (n + x.lets)

end

end Form

namespace Site

theorem produce_ok {site : Site} {code : Code} {t : Ty} {cells : Nat} {low : Lowered}
    (h : site.produce code t cells = .ok low) : t = site.ty ∧ low = ⟨code, site.ty, cells⟩ := by
  rw [produce] at h
  by_cases ht : t = site.ty
  · rw [if_pos ht] at h
    cases h
    exact ⟨ht, by rw [ht]⟩
  · rw [if_neg ht] at h
    cases h

theorem checkItem_ok {site : Site} {elem : Option Ty} {found : Ty}
    (h : site.checkItem elem found = .ok ()) : ∀ t, elem = some t → found = t := by
  rintro t rfl
  rw [checkItem] at h
  by_cases hf : found = t
  · exact hf
  · simp only [if_neg hf] at h
    cases h

end Site

namespace Tree

variable {c : Convention}

theorem length_of_formAll? {ts : List Tree} {fs : List (Form Value)} (h : formAll? ts = some fs) :
    ts.length = fs.length := by
  induction ts generalizing fs with
  | nil => cases h; rfl
  | cons x xs ih =>
    simp only [formAll?, Option.bind_eq_bind, Option.bind_eq_some_iff] at h
    obtain ⟨f, -, gs, hgs, h⟩ := h
    cases h
    rw [List.length_cons, List.length_cons, ih hgs]

mutual

/-- Lowering succeeds on well-typed forms only, and emits their code. -/
theorem lower_ok : (t : Tree) → {owner : NodeId} → {scope : List Binding} → {cells : Nat} →
    {low : Lowered} → t.lower c owner scope cells = .ok low →
    ∃ f, t.form? = some f ∧ f.WellTyped c.params.toList (slotTypes scope) ∧
      low = ⟨f.emit c scope cells, f.ty, cells + f.lets⟩
  | dangling _, _, _, _, _, h | raggedList _, _, _, _, _, h | raggedCall _ _, _, _, _, _, h => by
    cases h
  | const site v, _, _, _, _, h => by
    rw [lower, Site.lowerConst] at h
    by_cases hv : v.hasType site.ty = true
    · rw [if_pos hv] at h
      obtain ⟨-, rfl⟩ := Site.produce_ok h
      have hty : v.ty = site.ty := of_decide_eq_true hv
      exact ⟨.const site.ty v, rfl, hty, rfl⟩
    · rw [if_neg hv] at h
      cases h
  | param site i, _, _, _, _, h => by
    rw [lower, Site.lowerParam] at h
    cases hi : c.params[i]? with
    | none => rw [hi] at h; cases h
    | some declared =>
      rw [hi] at h
      by_cases hd : declared = site.ty
      · simp only [if_pos hd] at h
        obtain ⟨-, rfl⟩ := Site.produce_ok h
        have hty : c.params.toList[i]? = some site.ty := by rw [Array.getElem?_toList, hi, hd]
        exact ⟨.param site.ty i, rfl, hty, rfl⟩
      · simp only [if_neg hd] at h
        cases h
  | localVar site slot, _, scope, _, _, h => by
    rw [lower, Site.lowerLocal] at h
    cases hb : scope.find? fun b => b.slot = slot with
    | none => rw [hb] at h; cases h
    | some b =>
      rw [hb] at h
      obtain ⟨ht, rfl⟩ := Site.produce_ok h
      refine ⟨.localVar site.ty slot, rfl, ?_, ?_⟩
      · show slotType (slotTypes scope) slot = some site.ty
        rw [slotType_slotTypes, hb, ← ht]
        rfl
      · simp only [Form.emit, hb]
        rfl
  | unary site op x, _, _, _, _, h => by
    obtain ⟨lx, hx, h⟩ := bind_eq_ok h
    obtain ⟨f, hf, hw, rfl⟩ := lower_ok x hx
    by_cases ha : op.accepts f.ty = true
    · simp only [if_pos ha] at h
      obtain ⟨ht, rfl⟩ := Site.produce_ok h
      exact ⟨.unary site.ty op f, by rw [form?, hf]; rfl, ⟨hw, ha, ht⟩, rfl⟩
    · simp only [if_neg ha] at h
      cases h
  | binary site op l r, _, _, n, _, h => by
    obtain ⟨ll, hl, h⟩ := bind_eq_ok h
    obtain ⟨lr, hr, h⟩ := bind_eq_ok h
    obtain ⟨f, hf, hwf, rfl⟩ := lower_ok l hl
    obtain ⟨g, hg, hwg, rfl⟩ := lower_ok r hr
    by_cases ha : op.accepts f.ty g.ty = true
    · simp only [if_pos ha] at h
      obtain ⟨ht, rfl⟩ := Site.produce_ok h
      refine ⟨.binary site.ty op f g, by rw [form?, hf, hg]; rfl, ⟨hwf, hwg, ha, ht⟩, ?_⟩
      simp only [Form.emit, Form.ty, Form.lets, Nat.add_assoc]
    · simp only [if_neg ha] at h
      cases h
  | ite site b x y, _, _, n, _, h => by
    obtain ⟨lb, hb, h⟩ := bind_eq_ok h
    obtain ⟨lx, hx, h⟩ := bind_eq_ok h
    obtain ⟨ly, hy, h⟩ := bind_eq_ok h
    obtain ⟨f, hf, hwf, rfl⟩ := lower_ok b hb
    obtain ⟨g, hg, hwg, rfl⟩ := lower_ok x hx
    obtain ⟨k, hk, hwk, rfl⟩ := lower_ok y hy
    by_cases hbool : f.ty = .bool
    · simp only [hbool, ne_eq, not_true_eq_false, if_false] at h
      by_cases hsame : g.ty = k.ty
      · simp only [hsame, not_true_eq_false, if_false] at h
        obtain ⟨ht, rfl⟩ := Site.produce_ok h
        refine ⟨.ite site.ty f g k, by rw [form?, hf, hg, hk]; rfl,
          ⟨hwf, hwg, hwk, hbool, hsame.trans ht, ht⟩, ?_⟩
        simp only [Form.emit, Form.ty, Form.lets, Nat.add_assoc]
      · simp only [hsame, not_false_eq_true, if_true] at h
        cases h
    · simp only [ne_eq, hbool, not_false_eq_true, if_true] at h
      cases h
  | letIn site slot i b, _, scope, n, _, h => by
    obtain ⟨li, hi, h⟩ := bind_eq_ok h
    obtain ⟨lb, hb, h⟩ := bind_eq_ok h
    obtain ⟨f, hf, hwf, rfl⟩ := lower_ok i hi
    obtain ⟨g, hg, hwg, rfl⟩ := lower_ok b hb
    obtain ⟨ht, rfl⟩ := Site.produce_ok h
    refine ⟨.letIn site.ty slot f g, by rw [form?, hf, hg]; rfl, ⟨hwf, hwg, ht⟩, ?_⟩
    simp only [Form.emit, Form.ty, Form.lets, Nat.add_assoc]
  | list site xs, _, _, n, _, h => by
    rw [lower] at h
    cases helem : site.ty.elem? with
    | none => rw [helem] at h; cases h
    | some elem =>
      rw [helem] at h
      obtain ⟨⟨codes, types, cells⟩, hxs, h⟩ := bind_eq_ok h
      obtain ⟨fs, hfs, hws, helems, hout⟩ := lowerAll_ok xs hxs
      cases hout
      obtain ⟨ht, rfl⟩ := Site.produce_ok h
      refine ⟨.list site.ty fs, by rw [form?, hfs]; rfl, ⟨elem, ht.symm, hws, helems elem rfl⟩, ?_⟩
      simp only [Form.emit, helem, Option.getD_some, Form.ty, Form.lets]
  | index site r i, _, _, n, _, h => by
    obtain ⟨lr, hr, h⟩ := bind_eq_ok h
    obtain ⟨li, hi, h⟩ := bind_eq_ok h
    obtain ⟨f, hf, hwf, rfl⟩ := lower_ok r hr
    obtain ⟨g, hg, hwg, rfl⟩ := lower_ok i hi
    cases hlist : f.ty with
    | list elem =>
      simp only [hlist, Ty.elem?] at h
      by_cases hint : g.ty = .int
      · simp only [if_pos hint] at h
        obtain ⟨rfl, rfl⟩ := Site.produce_ok h
        refine ⟨.index site.ty f g, by rw [form?, hf, hg]; rfl, ⟨hwf, hwg, hlist, hint⟩, ?_⟩
        simp only [Form.emit, Form.ty, Form.lets, Nat.add_assoc]
      · simp only [if_neg hint] at h
        cases h
    | _ =>
      simp only [hlist, Ty.elem?] at h
      cases h
  | call site b xs, _, _, n, _, h => by
    rw [lower] at h
    by_cases hlen : xs.length = b.arity
    · simp only [ne_eq, hlen, not_true_eq_false, if_false] at h
      obtain ⟨⟨codes, types, cells⟩, hxs, h⟩ := bind_eq_ok h
      obtain ⟨fs, hfs, hws, -, hout⟩ := lowerAll_ok xs hxs
      cases hout
      cases hrejects : b.rejects? (fs.map Form.ty) with
      | some found =>
        simp only [hrejects] at h
        cases h
      | none =>
        simp only [hrejects] at h
        obtain ⟨ht, rfl⟩ := Site.produce_ok h
        have hlens := length_of_formAll? hfs
        exact ⟨.call site.ty b fs, by rw [form?, hfs]; rfl,
          ⟨hlens.symm.trans hlen, hws, hrejects, ht⟩, rfl⟩
    · simp only [ne_eq, hlen, not_false_eq_true, if_true] at h
      cases h

theorem lowerAll_ok : (ts : List Tree) → {site : Site} → {scope : List Binding} →
    {elem : Option Ty} → {cells : Nat} → {out : List Code × List Ty × Nat} →
    lowerAll c site scope elem ts cells = .ok out →
    ∃ fs, formAll? ts = some fs ∧ Form.AllWellTyped c.params.toList (slotTypes scope) fs ∧
      (∀ t, elem = some t → ∀ f ∈ fs, f.ty = t) ∧
      out = (Form.emitAll c scope fs cells, fs.map Form.ty, cells + Form.letsAll fs)
  | [], _, _, _, _, _, h => by
    cases h
    exact ⟨[], rfl, trivial, fun _ _ => List.forall_mem_nil _, rfl⟩
  | x :: xs, _, _, _, n, _, h => by
    obtain ⟨lx, hx, h⟩ := bind_eq_ok h
    obtain ⟨_, hitem, h⟩ := bind_eq_ok h
    obtain ⟨⟨codes, types, cells⟩, hxs, h⟩ := bind_eq_ok h
    obtain ⟨f, hf, hw, rfl⟩ := lower_ok x hx
    obtain ⟨fs, hfs, hws, helems, hout⟩ := lowerAll_ok xs hxs
    cases h
    cases hout
    refine ⟨f :: fs, by rw [formAll?, hf, hfs]; rfl, ⟨hw, hws⟩, ?_, ?_⟩
    · intro t ht
      exact List.forall_mem_cons.mpr ⟨Site.checkItem_ok hitem t ht, helems t ht⟩
    · simp only [Form.emitAll, Form.letsAll, List.map_cons, Nat.add_assoc]

end

end Tree

/-! ### Emitted code and the evaluator -/

/-- As many cells, and those below `n` as they were. -/
structure Keeps (n : Nat) (cells cells' : Array Value) : Prop where
  size : cells'.size = cells.size
  below : ∀ i, i < n → cells'[i]? = cells[i]?

theorem Keeps.refl (n : Nat) (cells : Array Value) : Keeps n cells cells := ⟨rfl, fun _ _ => rfl⟩

theorem Keeps.trans {n : Nat} {a b c : Array Value} (hab : Keeps n a b) (hbc : Keeps n b c) :
    Keeps n a c :=
  ⟨hbc.size.trans hab.size, fun i hi => (hbc.below i hi).trans (hab.below i hi)⟩

theorem Keeps.mono {m n : Nat} (hmn : m ≤ n) {a b : Array Value} (h : Keeps n a b) : Keeps m a b :=
  ⟨h.size, fun i hi => h.below i (Nat.lt_of_lt_of_le hi hmn)⟩

/-- Filling a cell keeps those below it. -/
theorem Keeps.fill (n : Nat) (cells : Array Value) (v : Value) :
    Keeps n cells (cells.setIfInBounds n v) := by
  refine ⟨Array.size_setIfInBounds, ?_⟩
  intro i hi
  rw [Array.getElem?_setIfInBounds, if_neg (by omega)]

/-- The computation on cells returns what the evaluation gives and keeps the cells
below `n`, or fails as the evaluation does. -/
def Agrees {α : Type} (n : Nat) (cells : Array Value) (r : Except Stop α)
    (out : Except Stop (α × Array Value)) : Prop :=
  match r with
  | .ok a => ∃ cells', out = .ok (a, cells') ∧ Keeps n cells cells'
  | .error stop => out = .error stop

namespace Agrees

variable {α β : Type} {n : Nat} {cells : Array Value}

theorem mono {m : Nat} (hmn : m ≤ n) {r : Except Stop α} {out : Except Stop (α × Array Value)}
    (h : Agrees n cells r out) : Agrees m cells r out := by
  cases r with
  | error stop => exact h
  | ok a =>
    obtain ⟨cells', hout, hkeeps⟩ := h
    exact ⟨cells', hout, hkeeps.mono hmn⟩

/-- What is done first may change the cells that need not be kept. -/
theorem after {cells' : Array Value} {r : Except Stop α} {out : Except Stop (α × Array Value)}
    (h : Agrees n cells' r out) (hk : Keeps n cells cells') : Agrees n cells r out := by
  cases r with
  | error stop => exact h
  | ok a =>
    obtain ⟨cells'', hout, hk'⟩ := h
    exact ⟨cells'', hout, hk.trans hk'⟩

theorem bind {r : Except Stop α} {out : Except Stop (α × Array Value)} {k : α → Except Stop β}
    {k' : α × Array Value → Except Stop (β × Array Value)} (h : Agrees n cells r out)
    (hk : ∀ a cells', Keeps n cells cells' → Agrees n cells' (k a) (k' (a, cells'))) :
    Agrees n cells (r >>= k) (out >>= k') := by
  cases r with
  | error stop =>
    have hout : out = .error stop := h
    rw [hout]
    exact rfl
  | ok a =>
    obtain ⟨cells', rfl, hkeeps⟩ := h
    exact (hk a cells' hkeeps).after hkeeps

theorem pure (a : α) : Agrees n cells (.ok a) (.ok (a, cells)) := ⟨cells, rfl, .refl n cells⟩

/-- The computation without its cells is the evaluation. -/
theorem value {r : Except Stop α} {out : Except Stop (α × Array Value)} (h : Agrees n cells r out) :
    (out >>= fun p => Pure.pure p.1) = r := by
  cases r with
  | error stop =>
    have hout : out = .error stop := h
    rw [hout]
    rfl
  | ok a =>
    obtain ⟨cells', rfl, -⟩ := h
    rfl

/-- An operator at the end leaves the cells alone. -/
theorem lift (r : Except EvalError α) :
    Agrees n cells (Stop.lift r) (Stop.lift r >>= fun a => Pure.pure (a, cells)) := by
  cases r with
  | error cause => exact rfl
  | ok a => exact pure a

end Agrees

/-- The cell of every slot in scope holds the value that the slot is bound to, and
is numbered below `n`. -/
def Mirrors (scope : List Binding) (env : List (Nat × Value)) (n : Nat) (cells : Array Value) :
    Prop :=
  ∀ slot b, (scope.find? fun b => b.slot = slot) = some b →
    b.cell < n ∧ ∃ v, lookupSlot env slot = some v ∧ cells[b.cell]? = some v

namespace Mirrors

variable {scope : List Binding} {env : List (Nat × Value)} {n : Nat} {cells cells' : Array Value}

theorem nil (n : Nat) (cells : Array Value) : Mirrors [] [] n cells := by
  intro slot b h
  cases h

theorem keeps (h : Mirrors scope env n cells) (hk : Keeps n cells cells') :
    Mirrors scope env n cells' := by
  intro slot b hb
  obtain ⟨hlt, v, hv, hcell⟩ := h slot b hb
  exact ⟨hlt, v, hv, (hk.below _ hlt).trans hcell⟩

theorem mono {m : Nat} (hnm : n ≤ m) (h : Mirrors scope env n cells) :
    Mirrors scope env m cells := by
  intro slot b hb
  obtain ⟨hlt, hv⟩ := h slot b hb
  exact ⟨Nat.lt_of_lt_of_le hlt hnm, hv⟩

/-- Binding a slot on both sides: the value goes to the next cell. -/
theorem fill (h : Mirrors scope env n cells) (slot : Nat) (t : Ty) (v : Value)
    (hn : n < cells.size) :
    Mirrors (⟨slot, n, t⟩ :: scope) ((slot, v) :: env) (n + 1) (cells.setIfInBounds n v) := by
  intro s b hb
  by_cases hs : slot = s
  · simp only [List.find?_cons, hs, decide_true, Option.some.injEq] at hb
    subst hb
    refine ⟨Nat.lt_succ_self n, v, by simp [lookupSlot, hs], ?_⟩
    rw [Array.getElem?_setIfInBounds, if_pos rfl, if_pos hn]
  · have hrest : (scope.find? fun b => b.slot = s) = some b := by simpa [hs] using hb
    obtain ⟨hlt, w, hw, hcell⟩ := h s b hrest
    refine ⟨Nat.lt_succ_of_lt hlt, w, by simpa [lookupSlot, hs] using hw, ?_⟩
    rw [(Keeps.fill n cells v).below _ hlt, hcell]

end Mirrors

/-- The argument vector has the argument of every parameter at its place. -/
def Placed (c : Convention) (args flat : Array Value) : Prop :=
  ∀ i, i < c.params.size → ∃ v, args[i]? = some v ∧ flat[c.position i]? = some v

namespace Form

variable {c : Convention} {args flat : Array Value}

/-- The code of a binary operator, given that of its operands. -/
theorem run_lower {op : BinaryOp} {l r : Code} {n : Nat} {cells : Array Value}
    {lv rv : Except Stop Value} (hl : Agrees n cells lv (l.run flat cells))
    (hr : ∀ cells', Keeps n cells cells' → Agrees n cells' rv (r.run flat cells')) :
    Agrees n cells (lv >>= fun v => Combine.passing op v rv) ((op.lower l r).run flat cells) := by
  cases op with
  | and =>
    refine hl.bind fun v cells' hk => ?_
    by_cases hv : v = .bool true
    · simp only [Combine.passing, if_pos hv]
      exact hr cells' hk
    · simp only [Combine.passing, if_neg hv]
      exact .pure v
  | or =>
    refine hl.bind fun v cells' hk => ?_
    by_cases hv : v = .bool false
    · simp only [Combine.passing, if_pos hv]
      exact hr cells' hk
    · simp only [Combine.passing, if_neg hv]
      exact .pure v
  | _ =>
    refine hl.bind fun v cells' hk => ?_
    exact (hr cells' hk).bind fun w cells'' _ => .lift _

mutual

/-- Emitted code does what the evaluator does, in any frame that mirrors the
evaluator's bindings and has cells for the `let`s to come. -/
theorem run_emit (hplaced : Placed c args flat) : (f : Form Value) → {scope : List Binding} →
    {env : List (Nat × Value)} → {n : Nat} → {cells : Array Value} →
    f.WellTyped c.params.toList (slotTypes scope) → Mirrors scope env n cells →
    n + f.lets ≤ cells.size →
    Agrees n cells (f.eval .passing args env) ((f.emit c scope n).run flat cells)
  | const t v, _, _, _, _, _, _, _ => .pure v
  | param t i, _, _, n, cells, hf, _, _ => by
    have hi : i < c.params.size := (List.getElem?_eq_some_iff.mp hf).1
    obtain ⟨v, harg, hflat⟩ := hplaced i hi
    rw [eval, emit, Code.run, harg, hflat]
    exact .pure v
  | localVar t slot, scope, _, n, cells, hf, hm, _ => by
    have hslot : slotType (slotTypes scope) slot = some t := hf
    rw [slotType_slotTypes, Option.map_eq_some_iff] at hslot
    obtain ⟨b, hb, -⟩ := hslot
    obtain ⟨-, v, hv, hcell⟩ := hm slot b hb
    simp only [eval, emit, Code.run, hb, Option.map_some, Option.getD_some, hv, hcell]
    exact .pure v
  | unary t op x, _, _, _, _, hf, hm, hn =>
    (run_emit hplaced x hf.1 hm hn).bind fun _ _ _ => .lift _
  | binary t op l r, _, _, n, cells, hf, hm, hn => by
    simp only [lets] at hn
    refine run_lower (run_emit hplaced l hf.1 hm (by omega)) fun cells' hk => ?_
    -- the left operand has changed no cell of a slot in scope
    have hm' := (hm.keeps hk).mono (Nat.le_add_right n l.lets)
    exact (run_emit hplaced r hf.2.1 hm' (by rw [hk.size]; omega)).mono (Nat.le_add_right _ _)
  | ite t b x y, _, _, n, cells, hf, hm, hn => by
    simp only [lets] at hn
    refine (run_emit hplaced b hf.1 hm (by omega)).bind fun v cells' hk => ?_
    have hmx := (hm.keeps hk).mono (Nat.le_add_right n b.lets)
    have hmy := hmx.mono (Nat.le_add_right (n + b.lets) x.lets)
    have hx := run_emit hplaced x hf.2.1 hmx (by rw [hk.size]; omega)
    have hy := run_emit hplaced y hf.2.2.1 hmy (by rw [hk.size]; omega)
    cases v with
    | bool d =>
      cases d with
      | true => exact hx.mono (by omega)
      | false => exact hy.mono (by omega)
    | _ => exact rfl
  | letIn t slot i b, scope, _, n, cells, hf, hm, hn => by
    simp only [lets] at hn
    refine (run_emit hplaced i hf.1 hm (by omega)).bind fun v cells' hk => ?_
    -- the cell of this `let` comes after those of the `let`s in its initialiser
    have hroom : n + i.lets < cells'.size := by rw [hk.size]; omega
    have hfill := (Keeps.fill (n + i.lets) cells' v).mono (Nat.le_add_right n i.lets)
    have hm' := ((hm.keeps hk).mono (Nat.le_add_right n i.lets)).fill slot i.ty v hroom
    have hb : b.WellTyped c.params.toList (slotTypes (⟨slot, n + i.lets, i.ty⟩ :: scope)) := hf.2.1
    have hbody := run_emit hplaced b hb hm' (by rw [hfill.size, hk.size]; omega)
    simp only [if_pos hroom]
    exact (hbody.mono (by omega)).after hfill
  | list t xs, _, _, n, cells, hf, hm, hn => by
    obtain ⟨elem, rfl, hxs, -⟩ := hf
    exact (runAll_emitAll hplaced xs hxs hm hn).bind fun vs cells' _ => .pure _
  | index t r i, _, _, n, cells, hf, hm, hn => by
    simp only [lets] at hn
    refine (run_emit hplaced r hf.1 hm (by omega)).bind fun v cells' hk => ?_
    have hm' := (hm.keeps hk).mono (Nat.le_add_right n r.lets)
    refine ((run_emit hplaced i hf.2.1 hm' (by rw [hk.size]; omega)).mono
      (Nat.le_add_right _ _)).bind fun w cells'' _ => .lift _
  | call t b xs, _, _, n, cells, hf, hm, hn =>
    (runAll_emitAll hplaced xs hf.2.1 hm hn).bind fun _ _ _ => .lift _

theorem runAll_emitAll (hplaced : Placed c args flat) : (fs : List (Form Value)) →
    {scope : List Binding} → {env : List (Nat × Value)} → {n : Nat} → {cells : Array Value} →
    AllWellTyped c.params.toList (slotTypes scope) fs → Mirrors scope env n cells →
    n + letsAll fs ≤ cells.size →
    Agrees n cells (evalAll .passing args env fs) (Code.runAll flat (emitAll c scope fs n) cells)
  | [], _, _, _, _, _, _, _ => .pure []
  | x :: xs, _, _, n, cells, hf, hm, hn => by
    simp only [letsAll] at hn
    refine (run_emit hplaced x hf.1 hm (by omega)).bind fun v cells' hk => ?_
    have hm' := (hm.keeps hk).mono (Nat.le_add_right n x.lets)
    refine ((runAll_emitAll hplaced xs hf.2 hm' (by rw [hk.size]; omega)).mono
      (Nat.le_add_right _ _)).bind fun vs cells'' _ => .pure _

end

end Form

end Stencil
