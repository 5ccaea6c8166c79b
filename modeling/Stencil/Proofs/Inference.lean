import Stencil.Builder
import Stencil.Proofs.NormalForm
import Stencil.Proofs.Validation

/-!
# Inferred types pass the check

A builder records with every node the type that follows from its operands, and takes
operands of any type. Lowering checks the types later on, by rules of its own. The two
agree: of what a builder made, lowering never complains that a node records the wrong
type, and what it does complain of is that an operand is not admitted, or that a slot
is read outside of its `let` (`Step.lower_build_iff`).

A `Rule` is about one node, its recorded type and those of its children.
`Rule.inference` is the rule that builders follow and `Rule.admission` the one that
lowering asks for besides. A tree obeys a rule if each of its nodes does, which can be
said of the nodes that the root reaches (`Arena.obeys_iff`) and used along the form
(`Form.check_decides`).

The types of slots are the point where a rule for single nodes is not enough, as a
reference to a slot has no operands. Slots are never used twice, so each has one type
for good, and the invariant of a builder (`Builder.Inferred`) gives the list of them:
references record the type that stands there, and so does the initialiser of the slot's
`let`, wherever it may turn out to stand. One step adds to the list at its end
(`Step.run_extends`).
-/

namespace Stencil

/-! ### Rules for single nodes -/

/-- A condition on what a node does, the type that it records and the types that its
children record. -/
abbrev Rule := Label → Ty → List Ty → Prop

/-- The recorded type is the one that is inferred, given the types of parameters and
slots. -/
def Rule.inference (params slots : List Ty) : Rule
  | .const, _, _ => True
  | .param i, t, _ => params[i]? = some t
  | .localVar slot, t, _ => slots[slot]? = some t
  | .unary op, t, [x] => op.resultType x = t
  | .binary op, t, [l, _] => op.resultType l = t
  | .ite, t, [_, x, _] => x = t
  | .letIn slot, t, [i, b] => slots[slot]? = some i ∧ b = t
  | .list, t, _ => t.isList = true
  | .index, t, [r, _] => r.elem?.getD r = t
  | .call f, t, xs => f.resultType xs.head? = t
  | _, _, _ => False

/-- The operands are of types that the node can work on. -/
def Rule.admission : Rule
  | .const, _, _ | .param _, _, _ | .localVar _, _, _ | .letIn _, _, _ => True
  | .unary op, _, [x] => op.accepts x = true
  | .binary op, _, [l, r] => op.accepts l r = true
  | .ite, _, [c, x, y] => c = .bool ∧ x = y
  | .list, t, xs => ∀ x ∈ xs, t = .list x
  | .index, _, [r, i] => r.isList = true ∧ i = .int
  | .call f, _, xs => xs.length = f.arity ∧ f.rejects? xs = none
  | _, _, _ => False

namespace Outline

def ty : Outline → Ty
  | node _ t _ => t

/-- Every node of the outline keeps to the rule. -/
inductive Obeys (rule : Rule) : Outline → Prop where
  | node {label : Label} {t : Ty} {children : List Outline} :
      rule label t (children.map ty) → (∀ o ∈ children, Obeys rule o) →
      Obeys rule (.node label t children)

@[simp]
theorem obeys_node_iff {rule : Rule} {label : Label} {t : Ty} {children : List Outline} :
    (node label t children).Obeys rule ↔
      rule label t (children.map ty) ∧ ∀ o ∈ children, o.Obeys rule := by
  constructor
  · rintro ⟨hown, hall⟩
    exact ⟨hown, hall⟩
  · rintro ⟨hown, hall⟩
    exact .node hown hall

end Outline

namespace Arena

variable {a b : Arena} {id : NodeId} {node : Node} {rule : Rule}

/-- The types that the children of a node record. -/
def childTypes? (a : Arena) (kind : Kind) : Option (List Ty) := do
  (← a.children? kind).mapM a.ty?

/-- The node keeps to the rule. -/
def Obeys (a : Arena) (rule : Rule) (node : Node) : Prop :=
  ∃ types, a.childTypes? node.kind = some types ∧ rule node.kind.label node.ty types

theorem ty?_of_outline? {o : Outline} (h : a.outline? id = some o) : a.ty? id = some o.ty := by
  obtain ⟨node, ids, os, hnode, -, -, rfl⟩ := exists_of_outline? h
  rw [ty?, hnode]
  rfl

/-- An outline obeys a rule exactly if all that can be reached does. -/
theorem obeys_iff {o : Outline} (h : a.outline? id = some o) :
    o.Obeys rule ↔ ∀ j node, a.Reaches id j → a.get? j = some node → a.Obeys rule node := by
  induction id using Nat.strongRecOn generalizing o with
  | ind id ih =>
    obtain ⟨node, ids, os, hnode, hids, hos, rfl⟩ := exists_of_outline? h
    have hguard {c : NodeId} {o : Outline}
        (ho : (if c < id then a.outline? c else none) = some o) :
        c < id ∧ a.outline? c = some o := by
      by_cases hc : c < id
      · rw [if_pos hc] at ho
        exact ⟨hc, ho⟩
      · rw [if_neg hc] at ho
        cases ho
    have htypes : a.childTypes? node.kind = some (os.map Outline.ty) := by
      rw [childTypes?, hids]
      exact mapM_map_of (fun c o ho => ty?_of_outline? (hguard ho).2) hos
    rw [Outline.obeys_node_iff]
    constructor
    · rintro ⟨hown, hall⟩ j n hj hn
      cases hj with
      | refl =>
        cases hnode.symm.trans hn
        exact ⟨_, htypes, hown⟩
      | step hnode' hids' hc hj =>
        cases hnode.symm.trans hnode'
        cases hids.symm.trans hids'
        obtain ⟨k, hk⟩ := List.mem_iff_getElem?.mp hc
        rcases getElem?_mapM hos k with ⟨hnone, -⟩ | ⟨c, o, hk', hko, ho⟩
        · cases hk.symm.trans hnone
        · cases hk.symm.trans hk'
          obtain ⟨hlt, ho⟩ := hguard ho
          exact (ih _ hlt ho).mp (hall o (List.mem_of_getElem? hko)) j n hj hn
    · intro hall
      refine ⟨?_, fun o hmem => ?_⟩
      · obtain ⟨types, htypes', hrule⟩ := hall id node (.refl id) hnode
        cases htypes.symm.trans htypes'
        exact hrule
      · obtain ⟨k, hk⟩ := List.mem_iff_getElem?.mp hmem
        rcases getElem?_mapM hos k with ⟨-, hnone⟩ | ⟨c, o, hkc, hko, ho⟩
        · cases hk.symm.trans hnone
        · cases hk.symm.trans hko
          obtain ⟨hlt, ho⟩ := hguard ho
          refine (ih c hlt ho).mpr fun j n hj hn => hall j n ?_ hn
          exact .step hnode hids (List.mem_of_getElem? hkc) hj

end Arena

/-! ### What the check asks for -/

/-- The fault is that a node records another type than its operands give it. -/
def CompileCause.blamesRecord : CompileCause → Bool
  | typeMismatch _ _ | paramTypeMismatch _ _ _ | constTypeMismatch _ _ => true
  | _ => false

/-- The check passes exactly under the condition, and never puts the blame on a
recorded type. -/
structure Decides (checked : Except CompileCause Unit) (p : Prop) : Prop where
  passes : checked = .ok () ↔ p
  fair : ∀ cause, checked = .error cause → cause.blamesRecord = false

namespace Decides

variable {checked checked' : Except CompileCause Unit} {cause : CompileCause} {p q : Prop}

theorem ok (hp : p) : Decides (.ok ()) p := ⟨⟨fun _ => hp, fun _ => rfl⟩, nofun⟩

theorem error (hp : ¬ p) (hcause : cause.blamesRecord = false) : Decides (.error cause) p := by
  refine ⟨⟨nofun, fun h => absurd h hp⟩, ?_⟩
  rintro _ ⟨⟩
  exact hcause

theorem congr (h : Decides checked p) (hpq : p ↔ q) : Decides checked q :=
  ⟨h.passes.trans hpq, h.fair⟩

theorem bind (h : Decides checked p) (h' : Decides checked' q) :
    Decides (checked >>= fun _ => checked') (p ∧ q) := by
  cases checked with
  | ok _ => exact h'.congr (iff_and_self.mpr fun _ => h.passes.mp rfl)
  | error cause =>
    have hp : ¬ p := fun hp => nomatch h.passes.mpr hp
    exact .error (fun hpq => hp hpq.1) (h.fair cause rfl)

theorem require [Decidable p] (hcause : cause.blamesRecord = false) :
    Decides (require p cause) p := by
  unfold Stencil.require
  by_cases hp : p
  · rw [if_pos hp]
    exact .ok hp
  · rw [if_neg hp]
    exact .error hp hcause

/-- A condition that is known to hold. -/
theorem required [Decidable p] (hp : p) (cause : CompileCause) :
    Decides (Stencil.require p cause) True := by
  rw [require_of hp]
  exact .ok trivial

theorem requireItem (elem : Option Ty) (found : Ty) :
    Decides (requireItem elem found) (∀ t, elem = some t → found = t) := by
  cases elem with
  | none => exact .ok nofun
  | some expected => exact (Decides.require rfl).congr (by simp)

end Decides

theorem Ty.isList_eq_isSome (t : Ty) : t.isList = t.elem?.isSome := by
  cases t <;> rfl

/-- The bindings in scope have the types of their slots. -/
def SlotsAgree (slots : List Ty) (scope : List (Nat × Ty)) : Prop :=
  ∀ binding ∈ scope, slots[binding.1]? = some binding.2

theorem SlotsAgree.slotType {slots : List Ty} {scope : List (Nat × Ty)} (h : SlotsAgree slots scope)
    {slot : Nat} {t : Ty} (ht : slotType scope slot = some t) : slots[slot]? = some t := by
  obtain ⟨binding, hfind, rfl⟩ := Option.map_eq_some_iff.mp ht
  have hslot : binding.1 = slot := by simpa using List.find?_some hfind
  rw [← hslot]
  exact h binding (List.mem_of_find?_eq_some hfind)

namespace Form

@[simp]
theorem ty_outline {κ : Type} (f : Form κ) : f.outline.ty = f.ty := by
  cases f <;> rfl

@[simp]
theorem map_ty_outlines {κ : Type} (fs : List (Form κ)) :
    (outlines fs).map Outline.ty = fs.map ty := by
  induction fs with
  | nil => rfl
  | cons f fs ih => rw [outlines, List.map_cons, List.map_cons, ih, ty_outline]

variable {params slots : List Ty}

mutual

/-- Where the recorded types are the inferred ones, the check is one of slots and
operands. The form may be proper in any scope: this is for its constants, which the
rule of inference leaves out. -/
theorem check_decides : (f : Form Value) → {wide : List Nat} → {scope : List (Nat × Ty)} →
    f.outline.Obeys (.inference params slots) → f.Proper params.length wide →
    SlotsAgree slots scope →
    Decides (f.check params scope)
      (f.Proper params.length (scope.map Prod.fst) ∧ f.outline.Obeys .admission)
  | const t v, _, _, _, hp, _ => by
    have hty : v.ty = t := hp
    rw [check, require_of hty]
    exact .ok ⟨hp, .node trivial nofun⟩
  | param t i, _, _, hf, hp, _ => by
    obtain ⟨hi, -⟩ := Outline.obeys_node_iff.mp hf
    have hi : params[i]? = some t := hi
    rw [check, hi]
    exact (Decides.required rfl _).congr (iff_of_true trivial ⟨hp, .node trivial nofun⟩)
  | localVar t slot, _, scope, hf, _, hs => by
    obtain ⟨hslot, -⟩ := Outline.obeys_node_iff.mp hf
    rw [check]
    cases hfound : slotType scope slot with
    | none =>
      refine .error (fun h => ?_) rfl
      obtain ⟨found, hsome⟩ := exists_slotType h.1
      cases hfound.symm.trans hsome
    | some found =>
      have hsame : found = t := Option.some.inj ((hs.slotType hfound).symm.trans hslot)
      refine (Decides.required hsame _).congr (iff_of_true trivial ⟨?_, .node trivial nofun⟩)
      exact mem_of_slotType hfound
  | unary t op x, _, _, hf, hp, hs => by
    obtain ⟨hty, hx⟩ : op.resultType x.ty = t ∧ x.outline.Obeys (.inference params slots) := by
      simpa [outline, Rule.inference] using hf
    rw [check]
    refine ((check_decides x hx hp hs).bind (.bind (.require rfl) (.required hty _))).congr ?_
    simp [Proper, outline, Rule.admission, and_assoc, and_comm, and_left_comm]
  | binary t op l r, _, _, hf, hp, hs => by
    obtain ⟨hty, hl, hr⟩ : op.resultType l.ty = t ∧ l.outline.Obeys (.inference params slots) ∧
        r.outline.Obeys (.inference params slots) := by
      simpa [outline, Rule.inference] using hf
    rw [check]
    refine ((check_decides l hl hp.1 hs).bind ((check_decides r hr hp.2 hs).bind
      (.bind (.require rfl) (.required hty _)))).congr ?_
    simp [Proper, outline, Rule.admission, and_assoc, and_comm, and_left_comm]
  | ite t c x y, _, _, hf, hp, hs => by
    obtain ⟨hty, hc, hx, hy⟩ : x.ty = t ∧ c.outline.Obeys (.inference params slots) ∧
        x.outline.Obeys (.inference params slots) ∧ y.outline.Obeys (.inference params slots) := by
      simpa [outline, Rule.inference] using hf
    rw [check]
    refine ((check_decides c hc hp.1 hs).bind ((check_decides x hx hp.2.1 hs).bind
      ((check_decides y hy hp.2.2 hs).bind
        (.bind (.require rfl) (.bind (.require rfl) (.required hty _)))))).congr ?_
    simp [Proper, outline, Rule.admission, and_assoc, and_comm, and_left_comm]
  | letIn t slot i b, _, scope, hf, hp, hs => by
    obtain ⟨⟨hslot, hty⟩, hi, hb⟩ : (slots[slot]? = some i.ty ∧ b.ty = t) ∧
        i.outline.Obeys (.inference params slots) ∧ b.outline.Obeys (.inference params slots) := by
      simpa [outline, Rule.inference] using hf
    have hbody : SlotsAgree slots ((slot, i.ty) :: scope) := List.forall_mem_cons.mpr ⟨hslot, hs⟩
    rw [check]
    refine ((check_decides i hi hp.1 hs).bind ((check_decides b hb hp.2 hbody).bind
      (.required hty _))).congr ?_
    simp [Proper, outline, Rule.admission, and_assoc, and_left_comm]
  | list t xs, _, _, hf, hp, hs => by
    obtain ⟨hlist, hxs⟩ : t.isList = true ∧
        ∀ o ∈ outlines xs, o.Obeys (.inference params slots) := by
      simpa [outline, Rule.inference] using hf
    rw [Ty.isList_eq_isSome, Option.isSome_iff_exists] at hlist
    obtain ⟨elem, helem⟩ := hlist
    cases Ty.eq_list_of_elem? helem
    rw [check]
    refine (checkAll_decides xs (some elem) hxs hp hs).congr ?_
    simp [Proper, outline, Rule.admission, and_assoc, and_comm, eq_comm]
  | index t r i, _, _, hf, hp, hs => by
    obtain ⟨hty, hr, hi⟩ : r.ty.elem?.getD r.ty = t ∧ r.outline.Obeys (.inference params slots) ∧
        i.outline.Obeys (.inference params slots) := by
      simpa [outline, Rule.inference] using hf
    rw [check]
    have hr := check_decides r hr hp.1 hs
    have hi := check_decides i hi hp.2 hs
    cases helem : r.ty.elem? with
    | none =>
      have hlist : r.ty.isList = false := by
        rw [Ty.isList_eq_isSome, helem]
        rfl
      refine (hr.bind (hi.bind (.error not_false rfl))).congr ?_
      simp [Proper, outline, Rule.admission, hlist]
    | some elem =>
      rw [helem] at hty
      have hlist := Ty.eq_list_of_elem? helem
      refine (hr.bind (hi.bind (.bind (.require rfl) (.required hty _)))).congr ?_
      simp [Proper, outline, Rule.admission, hlist, Ty.isList, and_assoc, and_comm, and_left_comm]
  | call t f xs, _, _, hf, hp, hs => by
    obtain ⟨hty, hxs⟩ : f.resultType (xs.map ty).head? = t ∧
        ∀ o ∈ outlines xs, o.Obeys (.inference params slots) := by
      simpa [outline, Rule.inference] using hf
    have hxs := checkAll_decides xs none hxs hp hs
    rw [check]
    cases hrej : f.rejects? (xs.map ty) with
    | none =>
      refine (Decides.bind (.require rfl) (hxs.bind (.required hty _))).congr ?_
      simp [Proper, outline, Rule.admission, hrej, and_comm, and_left_comm]
    | some found =>
      refine (Decides.bind (.require rfl) (hxs.bind (.error not_false rfl))).congr ?_
      simp [Proper, outline, Rule.admission, hrej]

theorem checkAll_decides : (fs : List (Form Value)) → {wide : List Nat} →
    {scope : List (Nat × Ty)} → (elem : Option Ty) →
    (∀ o ∈ outlines fs, o.Obeys (.inference params slots)) → AllProper params.length wide fs →
    SlotsAgree slots scope →
    Decides (checkAll params scope elem fs)
      ((AllProper params.length (scope.map Prod.fst) fs ∧ ∀ o ∈ outlines fs, o.Obeys .admission) ∧
        ∀ x ∈ fs.map ty, ∀ t, elem = some t → x = t)
  | [], _, _, _, _, _, _ => .ok ⟨⟨trivial, nofun⟩, nofun⟩
  | x :: xs, _, _, elem, hf, hp, hs => by
    obtain ⟨hx, hxs⟩ := List.forall_mem_cons.mp hf
    rw [checkAll]
    refine ((check_decides x hx hp.1 hs).bind (.bind (.requireItem elem x.ty)
      (checkAll_decides xs elem hxs hp.2 hs))).congr ?_
    simp [AllProper, outlines, and_assoc, and_comm, and_left_comm]

end

end Form

/-! ### What extraction asks for -/

/-- If the walk fails, then for a slot that is read outside of its `let`. -/
def OnlyUnbound {α : Type} (walked : Except ExtractError α) : Prop :=
  ∀ fault, walked = .error fault → ∃ node slot, fault = .unboundLocal node slot

namespace OnlyUnbound

variable {α β : Type}

theorem ok (a : α) : OnlyUnbound (.ok a) := nofun

theorem bind {walked : Except ExtractError α} {next : α → Except ExtractError β}
    (h : OnlyUnbound walked) (h' : ∀ a, OnlyUnbound (next a)) : OnlyUnbound (walked >>= next) := by
  cases walked with
  | ok a => exact h' a
  | error fault =>
    rintro _ ⟨⟩
    exact h fault rfl

theorem checkLocal (site : Site) (scope : List Nat) (slot : Nat) :
    OnlyUnbound (site.checkLocal scope slot) := by
  intro fault h
  rw [Site.checkLocal] at h
  by_cases hslot : slot ∈ scope
  · rw [if_pos hslot] at h
    cases h
  · rw [if_neg hslot] at h
    cases h
    exact ⟨_, _, rfl⟩

end OnlyUnbound

namespace Tree

variable {arity : Nat}

mutual

/-- A tree whose form is proper in some scope can fail for its slots only. -/
theorem collect_onlyUnbound : (t : Tree) → {f : Form Value} → t.form? = some f →
    {wide : List Nat} → f.Proper arity wide → (owner : NodeId) → (scope : List Nat) →
    (vs : Array Value) → OnlyUnbound (t.collect arity owner scope vs)
  | dangling _, _, h, _, _, _, _, _ | raggedList _, _, h, _, _, _, _, _
  | raggedCall _ _, _, h, _, _, _, _, _ => by cases h
  | const site v, _, h, _, hf, _, _, vs => by
    cases h
    have hconst : site.checkConst v = .ok () := if_pos hf
    rw [collect, hconst]
    exact .ok _
  | param site i, _, h, _, hf, _, _, vs => by
    cases h
    have hparam : site.checkParam arity i = .ok () := if_pos hf
    rw [collect, hparam]
    exact .ok _
  | localVar site slot, _, _, _, _, _, scope, vs => by
    rw [collect]
    exact .bind (.checkLocal site scope slot) fun _ => .ok vs
  | unary site op x, _, h, _, hf, _, scope, vs => by
    simp only [form?, Option.bind_eq_bind, Option.bind_eq_some_iff] at h
    obtain ⟨f, hx, h⟩ := h
    cases h
    exact collect_onlyUnbound x hx hf site.id scope vs
  | binary site op l r, _, h, _, hf, _, scope, vs
  | index site l r, _, h, _, hf, _, scope, vs => by
    simp only [form?, Option.bind_eq_bind, Option.bind_eq_some_iff] at h
    obtain ⟨f, hl, g, hr, h⟩ := h
    cases h
    rw [collect]
    exact (collect_onlyUnbound l hl hf.1 site.id scope vs).bind fun vs =>
      collect_onlyUnbound r hr hf.2 site.id scope vs
  | ite site c x y, _, h, _, hf, _, scope, vs => by
    simp only [form?, Option.bind_eq_bind, Option.bind_eq_some_iff] at h
    obtain ⟨f, hc, g, hx, k, hy, h⟩ := h
    cases h
    rw [collect]
    exact (collect_onlyUnbound c hc hf.1 site.id scope vs).bind fun vs =>
      (collect_onlyUnbound x hx hf.2.1 site.id scope vs).bind fun vs =>
        collect_onlyUnbound y hy hf.2.2 site.id scope vs
  | letIn site slot i b, _, h, _, hf, _, scope, vs => by
    simp only [form?, Option.bind_eq_bind, Option.bind_eq_some_iff] at h
    obtain ⟨f, hi, g, hb, h⟩ := h
    cases h
    rw [collect]
    exact (collect_onlyUnbound i hi hf.1 site.id scope vs).bind fun vs =>
      collect_onlyUnbound b hb hf.2 site.id (slot :: scope) vs
  | list site xs, _, h, _, hf, _, scope, vs | call site _ xs, _, h, _, hf, _, scope, vs => by
    simp only [form?, Option.bind_eq_bind, Option.bind_eq_some_iff] at h
    obtain ⟨fs, hxs, h⟩ := h
    cases h
    exact collectAll_onlyUnbound xs hxs hf site.id scope vs

theorem collectAll_onlyUnbound : (ts : List Tree) → {fs : List (Form Value)} →
    formAll? ts = some fs → {wide : List Nat} → Form.AllProper arity wide fs → (owner : NodeId) →
    (scope : List Nat) → (vs : Array Value) → OnlyUnbound (collectAll arity owner scope ts vs)
  | [], _, _, _, _, _, _, vs => .ok vs
  | x :: xs, _, h, _, hf, owner, scope, vs => by
    simp only [formAll?, Option.bind_eq_bind, Option.bind_eq_some_iff] at h
    obtain ⟨f, hx, fs, hxs, h⟩ := h
    cases h
    rw [collectAll]
    exact (collect_onlyUnbound x hx hf.1 owner scope vs).bind fun vs =>
      collectAll_onlyUnbound xs hxs hf.2 owner scope vs

end

end Tree

/-! ### The invariant of a builder -/

theorem getElem?_mono {α : Type} {l l' : List α} (h : l <+: l') {i : Nat} {x : α}
    (hx : l[i]? = some x) : l'[i]? = some x := by
  obtain ⟨hi, rfl⟩ := List.getElem?_eq_some_iff.mp hx
  exact List.prefix_iff_getElem?.mp h i hi

theorem Rule.inference_mono {params params' slots slots' : List Ty} (hparams : params <+: params')
    (hslots : slots <+: slots') {label : Label} {t : Ty} {types : List Ty}
    (h : inference params slots label t types) : inference params' slots' label t types := by
  unfold inference at h ⊢
  split at h
  -- parameters, slots and `let`s; no other case looks at the two lists
  case h_2 => exact getElem?_mono hparams h
  case h_3 => exact getElem?_mono hslots h
  case h_7 => exact ⟨getElem?_mono hslots h.1, h.2⟩
  all_goals exact h

namespace Arena

variable {a b : Arena} {id : NodeId} {node : Node} {params slots params' slots' : List Ty}

/-- The node refers to earlier nodes, records the type that is inferred, and holds a
value of this type if it is a constant. -/
structure InferredAt (a : Arena) (params slots : List Ty) (id : NodeId) (node : Node) :
    Prop where
  earlier : ∃ ids, a.children? node.kind = some ids ∧ ∀ c ∈ ids, c < id
  typed : ∀ v, node.kind = .const v → v.ty = node.ty
  obeys : a.Obeys (.inference params slots) node

theorem Within.ty? (hab : a.Within b) (id : NodeId) (t : Ty) (h : a.ty? id = some t) :
    b.ty? id = some t := by
  obtain ⟨node, hnode, rfl⟩ := Option.map_eq_some_iff.mp h
  rw [Arena.ty?, hab.node id node hnode]
  rfl

theorem InferredAt.mono (h : a.InferredAt params slots id node) (hab : a.Within b)
    (hparams : params <+: params') (hslots : slots <+: slots') :
    b.InferredAt params' slots' id node where
  earlier := by
    obtain ⟨ids, hids, hlt⟩ := h.earlier
    exact ⟨ids, hab.children? hids, hlt⟩
  typed := h.typed
  obeys := by
    obtain ⟨types, htypes, hrule⟩ := h.obeys
    obtain ⟨ids, hids, hmap⟩ := Option.bind_eq_some_iff.mp htypes
    refine ⟨types, ?_, Rule.inference_mono hparams hslots hrule⟩
    exact Option.bind_eq_some_iff.mpr ⟨ids, hab.children? hids, mapM_mono hab.ty? hmap⟩

theorem exists_ty? (h : id < a.size) : ∃ t, a.ty? id = some t :=
  ⟨a.nodes[id].ty, by rw [ty?, get?, Array.getElem?_eq_getElem h]; rfl⟩

theorem lt_size_of_ty? {t : Ty} (h : a.ty? id = some t) : id < a.size := by
  obtain ⟨node, hnode, -⟩ := Option.map_eq_some_iff.mp h
  exact (Array.getElem?_eq_some_iff.mp hnode).1

theorem get?_push {kind : Kind} {t : Ty} (h : (a.push kind t).2.get? id = some node) :
    a.get? id = some node ∨ id = a.size ∧ node = ⟨kind, t⟩ := by
  have hpush : (a.nodes.push ⟨kind, t⟩)[id]? = some node := h
  rw [Array.getElem?_push] at hpush
  by_cases hid : id = a.nodes.size
  · rw [if_pos hid] at hpush
    exact .inr ⟨hid, (Option.some.inj hpush).symm⟩
  · rw [if_neg hid] at hpush
    exact .inl hpush

end Arena

namespace Builder

variable {b b' b'' : Builder} {slots slots' slots'' : List Ty}

def paramTypes (b : Builder) : List Ty := b.params.toList.map Param.ty

/-- Every node records what is inferred, where the slots have the given types. -/
structure Inferred (b : Builder) (slots : List Ty) : Prop where
  count : slots.length = b.slots
  node : ∀ id node, b.arena.get? id = some node → b.arena.InferredAt b.paramTypes slots id node

theorem inferred_empty : empty.Inferred [] where
  count := rfl
  node _ _ h := by cases h

/-- More parameters, slots and child lists, but the same nodes. -/
theorem Inferred.widen (h : b.Inferred slots) (hnodes : b'.arena.nodes = b.arena.nodes)
    (hwithin : b.arena.Within b'.arena) (hparams : b.paramTypes <+: b'.paramTypes)
    (hslots : slots <+: slots') (hcount : slots'.length = b'.slots) : b'.Inferred slots' where
  count := hcount
  node id node hnode := by
    have hold : b.arena.get? id = some node := by
      rw [← hnode, Arena.get?, Arena.get?, hnodes]
    exact (h.node id node hold).mono hwithin hparams hslots

/-- One more node, over children that stand. -/
theorem Inferred.push (h : b.Inferred slots) {kind : Kind} {t : Ty} {ids : List NodeId}
    (types : List Ty) (hids : b.arena.children? kind = some ids)
    (htypes : ids.mapM b.arena.ty? = some types) (htyped : ∀ v, kind = .const v → v.ty = t)
    (hrule : Rule.inference b.paramTypes slots kind.label t types) :
    (b.push kind t).2.Inferred slots where
  count := h.count
  node id node hnode := by
    have hwithin := b.arena.within_push kind t
    rcases Arena.get?_push hnode with hold | ⟨rfl, rfl⟩
    · exact (h.node id node hold).mono hwithin List.prefix_rfl List.prefix_rfl
    · have hchildren := hwithin.children? hids
      refine ⟨⟨ids, hchildren, fun c hc => ?_⟩, htyped, types, ?_, hrule⟩
      · have hsome := (Arena.isSome_mapM ids).mp (Option.isSome_of_eq_some htypes) c hc
        obtain ⟨t, ht⟩ := Option.isSome_iff_exists.mp hsome
        exact Arena.lt_size_of_ty? ht
      · exact Option.bind_eq_some_iff.mpr ⟨ids, hchildren, Arena.mapM_mono hwithin.ty? htypes⟩

/-- The second builder has grown out of the first one and still infers its types. -/
structure Extends (b : Builder) (slots : List Ty) (b' : Builder) (slots' : List Ty) : Prop where
  within : b.arena.Within b'.arena
  slots : slots <+: slots'
  inferred : b'.Inferred slots'

theorem Extends.refl (h : b.Inferred slots) : b.Extends slots b slots :=
  ⟨.refl _, List.prefix_rfl, h⟩

theorem Extends.trans (h : b.Extends slots b' slots') (h' : b'.Extends slots' b'' slots'') :
    b.Extends slots b'' slots'' :=
  ⟨h.within.trans h'.within, h.slots.trans h'.slots, h'.inferred⟩

theorem Extends.push (h : b.Extends slots b' slots') {kind : Kind} {t : Ty} {ids : List NodeId}
    (types : List Ty) (hids : b'.arena.children? kind = some ids)
    (htypes : ids.mapM b'.arena.ty? = some types) (htyped : ∀ v, kind = .const v → v.ty = t)
    (hrule : Rule.inference b'.paramTypes slots' kind.label t types) :
    b.Extends slots (b'.push kind t).2 slots' :=
  ⟨h.within.trans (b'.arena.within_push kind t), h.slots,
    h.inferred.push types hids htypes htyped hrule⟩

/-- A new child list and the node that it belongs to. -/
theorem Inferred.pushOver (h : b.Inferred slots) {kind : Kind} {t : Ty} {ids : List NodeId}
    {types : List Ty} (htypes : ids.mapM b.arena.ty? = some types)
    (hids : (b.arena.pushList ids).2.children? kind = some ids)
    (htyped : ∀ v, kind = .const v → v.ty = t)
    (hrule : Rule.inference b.paramTypes slots kind.label t types) :
    b.Extends slots (Builder.push { b with arena := (b.arena.pushList ids).2 } kind t).2 slots := by
  have hwithin := b.arena.within_pushList ids
  have hgrown : b.Extends slots { b with arena := (b.arena.pushList ids).2 } slots :=
    ⟨hwithin, List.prefix_rfl, h.widen rfl hwithin List.prefix_rfl List.prefix_rfl h.count⟩
  exact hgrown.push types hids (Arena.mapM_mono hwithin.ty? htypes) htyped hrule

/-- A declaration adds to the parameters, and its node refers to it. -/
theorem Inferred.param (h : b.Inferred slots) (name : String) (t : Ty) :
    b.Extends slots (b.param name t).2 slots := by
  have hwide : b.Extends slots { b with params := b.params.push ⟨name, t⟩ } slots := by
    refine ⟨.refl _, List.prefix_rfl, h.widen rfl (.refl _) ?_ List.prefix_rfl h.count⟩
    simp [paramTypes]
  have hlast : (paramTypes { b with params := b.params.push ⟨name, t⟩ })[b.params.size]?
      = some t := by
    simp [paramTypes]
  exact hwide.push [] rfl rfl nofun hlast

theorem Inferred.getElem?_concat (h : b.Inferred slots) (t : Ty) :
    (slots ++ [t])[b.slots]? = some t := by
  rw [← h.count, List.getElem?_concat_length]

/-- The next slot gets the type of the initialiser, and the node that reads it records
this type. -/
theorem Inferred.openLet (h : b.Inferred slots) (t : Ty) :
    b.Extends slots (Builder.push { b with slots := b.slots + 1 } (.localVar b.slots) t).2
      (slots ++ [t]) := by
  have hlonger := List.prefix_append slots [t]
  have hwide : b.Extends slots { b with slots := b.slots + 1 } (slots ++ [t]) := by
    refine ⟨.refl _, hlonger, h.widen rfl (.refl _) List.prefix_rfl hlonger ?_⟩
    rw [List.length_append, h.count]
    rfl
  exact hwide.push [] rfl rfl nofun (h.getElem?_concat t)

theorem callType?_eq {f : Builtin} {ids : List NodeId} {types : List Ty}
    (h : ids.mapM b.arena.ty? = some types) :
    b.callType? f ids = some (f.resultType types.head?) := by
  cases ids with
  | nil =>
    cases h
    rfl
  | cons id ids =>
    simp only [List.mapM_cons, Option.bind_eq_bind, Option.bind_eq_some_iff] at h
    obtain ⟨t, ht, ts, -, h⟩ := h
    cases h
    rw [callType?, ht]
    rfl

/-- The reference is to a node that stands. -/
def has (b : Builder) (x : Ref) : Bool := decide (x.resolve b.arena.size < b.arena.size)

end Builder

namespace Step

/-- A condition on a builder holds each time when it is about to be changed. -/
def throughout (p : Builder → Bool) (f : Builder → Option Builder) : Nat → Builder → Bool
  | 0, _ => true
  | n + 1, b =>
    p b &&
      match f b with
      | some b => throughout p f n b
      | none => false

mutual

/-- Every reference of the step is to a node that stands when it is made. -/
def stands : Step → Builder → Bool
  | param _ _, _ | const _, _ => true
  | paramRef i, b => decide (i < b.params.size)
  | unary _ x, b => b.has x
  | binary _ l r, b | index l r, b => b.has l && b.has r
  | ite c t e, b => b.has c && b.has t && b.has e
  | list _ xs, b | call _ xs, b => xs.all b.has
  | letIn init steps body, b =>
    b.has init &&
      match b.openLet? (init.resolve b.arena.size) with
      | none => false
      | some (_, b) =>
        allStand steps b &&
          match runAll? steps b with
          | none => false
          | some (_, b) => b.has body
  | again count steps, b =>
    throughout (fun b => allStand steps b) (fun b => (runAll? steps b).map Prod.snd) count b

def allStand : List Step → Builder → Bool
  | [], _ => true
  | s :: rest, b =>
    s.stands b &&
      match s.run? b with
      | none => false
      | some (_, b) => allStand rest b

end

variable {b b' : Builder} {slots : List Ty} {id : NodeId}

theorem exists_ty?_of_has {x : Ref} (h : b.has x = true) :
    ∃ t, b.arena.ty? (x.resolve b.arena.size) = some t :=
  Arena.exists_ty? (of_decide_eq_true h)

theorem exists_types_of_all_has {xs : List Ref} (h : xs.all b.has = true) :
    ∃ types, (xs.map (·.resolve b.arena.size)).mapM b.arena.ty? = some types := by
  refine Option.isSome_iff_exists.mp ((Arena.isSome_mapM _).mpr fun id hid => ?_)
  obtain ⟨x, hx, rfl⟩ := List.mem_map.mp hid
  exact Option.isSome_iff_exists.mpr (exists_ty?_of_has (List.all_eq_true.mp h x hx))

/-- What holds across one change holds across several. -/
theorem iterate_extends {p : Builder → Bool} {f : Builder → Option Builder}
    (hf : ∀ {b b' : Builder} {slots : List Ty}, b.Inferred slots → p b = true → f b = some b' →
      ∃ slots', b.Extends slots b' slots') :
    (n : Nat) → {b b' : Builder} → {slots : List Ty} → b.Inferred slots →
    throughout p f n b = true → iterate? f n b = some b' → ∃ slots', b.Extends slots b' slots'
  | 0, b, _, slots, hb, _, h => by
    cases h
    exact ⟨slots, .refl hb⟩
  | n + 1, b, _, slots, hb, hp, h => by
    rw [throughout, Bool.and_eq_true] at hp
    rw [iterate?] at h
    cases hnext : f b with
    | none =>
      rw [hnext] at h
      cases h
    | some b₁ =>
      rw [hnext] at h hp
      obtain ⟨slots₁, h₁⟩ := hf hb hp.1 hnext
      obtain ⟨slots₂, h₂⟩ := iterate_extends hf n h₁.inferred hp.2 h
      exact ⟨slots₂, h₁.trans h₂⟩

theorem eq_snd_of_some {p : NodeId × Builder} (h : some p = some (id, b')) : b' = p.2 := by
  cases h
  rfl

mutual

/-- A step over nodes that stand keeps the types inferred. -/
theorem run_extends : (s : Step) → {b b' : Builder} → {slots : List Ty} → {id : NodeId} →
    b.Inferred slots → s.stands b = true → s.run? b = some (id, b') →
    ∃ slots', b.Extends slots b' slots'
  | param name ty, b, _, slots, _, hb, _, h => by
    cases eq_snd_of_some h
    exact ⟨slots, hb.param name ty⟩
  | paramRef i, b, _, slots, _, hb, _, h => by
    obtain ⟨p, hp, h⟩ := Option.bind_eq_some_iff.mp h
    cases eq_snd_of_some h
    have hp : b.paramTypes[i]? = some p.ty := by simp [Builder.paramTypes, hp]
    exact ⟨slots, .push (.refl hb) [] rfl rfl nofun hp⟩
  | const v, b, _, slots, _, hb, _, h => by
    cases eq_snd_of_some h
    refine ⟨slots, .push (.refl hb) [] rfl rfl ?_ trivial⟩
    rintro _ ⟨⟩
    rfl
  | unary op x, b, _, slots, _, hb, hs, h => by
    obtain ⟨t, ht, h⟩ := Option.bind_eq_some_iff.mp h
    cases eq_snd_of_some h
    exact ⟨slots, .push (.refl hb) [t] rfl (by simp [ht]) nofun rfl⟩
  | binary op l r, b, _, slots, _, hb, hs, h => by
    obtain ⟨t, ht, h⟩ := Option.bind_eq_some_iff.mp h
    cases eq_snd_of_some h
    obtain ⟨u, hu⟩ := exists_ty?_of_has (Bool.and_eq_true_iff.mp hs).2
    exact ⟨slots, .push (.refl hb) [t, u] rfl (by simp [ht, hu]) nofun rfl⟩
  | ite c x y, b, _, slots, _, hb, hs, h => by
    obtain ⟨t, ht, h⟩ := Option.bind_eq_some_iff.mp h
    cases eq_snd_of_some h
    rw [stands, Bool.and_eq_true, Bool.and_eq_true] at hs
    obtain ⟨u, hu⟩ := exists_ty?_of_has hs.1.1
    obtain ⟨w, hw⟩ := exists_ty?_of_has hs.2
    exact ⟨slots, .push (.refl hb) [u, t, w] rfl (by simp [ht, hu, hw]) nofun rfl⟩
  | index r i, b, _, slots, _, hb, hs, h => by
    obtain ⟨t, ht, h⟩ := Option.bind_eq_some_iff.mp h
    cases eq_snd_of_some h
    obtain ⟨u, hu⟩ := exists_ty?_of_has (Bool.and_eq_true_iff.mp hs).2
    exact ⟨slots, .push (.refl hb) [t, u] rfl (by simp [ht, hu]) nofun rfl⟩
  | list elem xs, b, _, slots, _, hb, hs, h => by
    cases eq_snd_of_some h
    obtain ⟨types, htypes⟩ := exists_types_of_all_has hs
    exact ⟨slots, hb.pushOver htypes (Arena.list?_pushList _ _) nofun rfl⟩
  | call f xs, b, _, slots, _, hb, hs, h => by
    obtain ⟨types, htypes⟩ := exists_types_of_all_has hs
    obtain ⟨t, ht, h⟩ := Option.bind_eq_some_iff.mp h
    cases eq_snd_of_some h
    cases (Builder.callType?_eq htypes).symm.trans ht
    exact ⟨slots, hb.pushOver htypes (Arena.list?_pushList _ _) nofun rfl⟩
  | letIn init steps body, b, _, slots, _, hb, hs, h => by
    obtain ⟨⟨x, b₁⟩, hopen, h⟩ := Option.bind_eq_some_iff.mp h
    obtain ⟨⟨ids, b₂⟩, hrun, h⟩ := Option.bind_eq_some_iff.mp h
    obtain ⟨u, hu, h⟩ := Option.bind_eq_some_iff.mp h
    cases eq_snd_of_some h
    rw [stands, Bool.and_eq_true, hopen, Bool.and_eq_true] at hs
    obtain ⟨t, ht, hopen⟩ := Option.bind_eq_some_iff.mp hopen
    cases eq_snd_of_some hopen
    have h₁ := hb.openLet t
    obtain ⟨slots₂, h₂⟩ := runAll_extends steps h₁.inferred hs.2.1 hrun
    -- whatever the body was built from, the slot and the initialiser still agree
    have hslot := getElem?_mono h₂.slots (hb.getElem?_concat t)
    have hinit := (h₁.trans h₂).within.ty? _ t ht
    exact ⟨slots₂, (h₁.trans h₂).push [t, u] rfl (by simp [hinit, hu]) nofun ⟨hslot, rfl⟩⟩
  | again count steps, b, _, slots, _, hb, hs, h => by
    obtain ⟨b₁, hb₁, h⟩ := Option.bind_eq_some_iff.mp h
    cases h
    refine iterate_extends ?_ count hb hs hb₁
    intro b b' slots hb hs h
    obtain ⟨⟨ids, b₂⟩, hrun, rfl⟩ := Option.map_eq_some_iff.mp h
    exact runAll_extends steps hb hs hrun

theorem runAll_extends : (steps : List Step) → {b b' : Builder} → {slots : List Ty} →
    {ids : List NodeId} → b.Inferred slots → allStand steps b = true →
    runAll? steps b = some (ids, b') → ∃ slots', b.Extends slots b' slots'
  | [], b, _, slots, _, hb, _, h => by
    cases h
    exact ⟨slots, .refl hb⟩
  | s :: rest, b, _, slots, _, hb, hs, h => by
    obtain ⟨⟨id, b₁⟩, hrun, h⟩ := Option.bind_eq_some_iff.mp h
    obtain ⟨⟨ids, b₂⟩, hrest, h⟩ := Option.bind_eq_some_iff.mp h
    cases h
    rw [allStand, Bool.and_eq_true, hrun] at hs
    obtain ⟨slots₁, h₁⟩ := run_extends s hb hs.1 hrun
    obtain ⟨slots₂, h₂⟩ := runAll_extends rest h₁.inferred hs.2 hrest
    exact ⟨slots₂, h₁.trans h₂⟩

end

end Step

/-! ### What a builder makes -/

namespace Builder

variable {b : Builder} {slots : List Ty} {id : NodeId}

theorem Inferred.isSome_outline? (h : b.Inferred slots) (hid : id < b.arena.size) :
    (b.arena.outline? id).isSome = true := by
  induction id using Nat.strongRecOn with
  | ind id ih =>
    have hnode : b.arena.get? id = some b.arena.nodes[id] := Array.getElem?_eq_getElem hid
    obtain ⟨ids, hids, hlt⟩ := (h.node id _ hnode).earlier
    refine (b.arena.isSome_outline?_eq id).mpr ⟨_, ids, hnode, hids, fun c hc => ?_⟩
    exact ⟨hlt c hc, ih c (hlt c hc) (Nat.lt_trans (hlt c hc) hid)⟩

/-- A node has a form that follows the rule of inference. It would be proper if all
slots were in scope. -/
theorem Inferred.exists_form (h : b.Inferred slots) (hid : id < b.arena.size) :
    ∃ f, b.arena.form? id = some f ∧
      f.outline.Obeys (.inference b.paramTypes slots) ∧
      f.Proper b.paramTypes.length (List.range slots.length) := by
  obtain ⟨f, hf⟩ := (b.arena.isSome_outline?_iff_form? id).mp (h.isSome_outline? hid)
  have hobeys := (Arena.obeys_iff (Arena.outline?_of_form? hf)).mpr
    fun j node _ hnode => (h.node j node hnode).obeys
  refine ⟨f, hf, hobeys, (Arena.proper_iff hf).mpr fun p j node _ hnode => ?_⟩
  obtain ⟨-, htyped, types, -, hrule⟩ := h.node j node hnode
  refine ⟨?_, ?_, htyped⟩
  · intro i hkind
    rw [hkind] at hrule
    exact (List.getElem?_eq_some_iff.mp hrule).1
  · intro slot hkind
    rw [hkind] at hrule
    exact .inl (List.mem_range.mpr (List.getElem?_eq_some_iff.mp hrule).1)

end Builder

namespace Lambda

variable {e : Lambda} {f : Form Value}

theorem exists_extract_iff (hform : e.tree.form? = some f) :
    (∃ x, e.extract = .ok x) ↔ f.Proper e.arity [] := by
  constructor
  · rintro ⟨x, hx⟩
    obtain ⟨g, hg, -⟩ := extract_ok hx
    cases hform.symm.trans hg.form
    exact hg.proper
  · intro hproper
    exact ⟨_, extract_eq ⟨hform, hproper⟩⟩

theorem extract_onlyUnbound (hform : e.tree.form? = some f) {wide : List Nat}
    (hproper : f.Proper e.arity wide) : OnlyUnbound e.extract := by
  intro fault h
  have hroot : e.checkRoot = .ok () := if_pos (Arena.form?_lt hform)
  have hvalues : e.extractValues = .error fault := by
    rw [extractValues_eq, h]
    rfl
  rw [extractValues, hroot] at hvalues
  have hwalk := Tree.collect_onlyUnbound e.tree hform hproper e.root [] #[]
  exact hwalk.bind (fun vs => .ok vs.toList) fault hvalues

end Lambda

namespace Step

variable {steps : List Step} {root : Ref} {ids : List NodeId} {e : Lambda}

/-- The form of what is built over nodes that stand. -/
theorem exists_form_of_build (hbuild : build? steps root = some (ids, e))
    (hsteps : allStand steps .empty = true) (hroot : e.root < e.arena.size) :
    ∃ f slots wide, e.tree.form? = some f ∧ f.outline.Obeys (.inference e.paramTypes slots) ∧
      f.Proper e.paramTypes.length wide := by
  obtain ⟨⟨ids', b⟩, hrun, h⟩ := Option.bind_eq_some_iff.mp hbuild
  cases h
  obtain ⟨slots, hextends⟩ := runAll_extends steps Builder.inferred_empty hsteps hrun
  obtain ⟨f, hform, hobeys, hproper⟩ := hextends.inferred.exists_form hroot
  exact ⟨f, slots, _, hform, hobeys, hproper⟩

/-- Of an expression that was built over nodes that stand, extraction complains only if
a slot is read outside of its `let`. If it does not, the expression is lowered exactly
if the operands of every node that the root reaches are admitted, and in no case is the
fault that a node records the wrong type. -/
theorem lower_build_iff (hbuild : build? steps root = some (ids, e))
    (hsteps : allStand steps .empty = true) (hroot : e.root < e.arena.size) :
    (∀ fault, e.extract = .error fault → ∃ node slot, fault = .unboundLocal node slot) ∧
    (∀ declared, declared ≤ e.arity →
      ((∃ art, e.lower declared = .ok art) ↔ (∃ x, e.extract = .ok x) ∧
        ∀ id node, e.arena.Reaches e.root id → e.arena.get? id = some node →
          e.arena.Obeys .admission node)) ∧
    ∀ declared fault, e.lower declared = .error fault → fault.cause.blamesRecord = false := by
  obtain ⟨f, slots, wide, hform, hobeys, hproper⟩ := exists_form_of_build hbuild hsteps hroot
  have hdecides : Decides (f.check e.paramTypes [])
      (f.Proper e.paramTypes.length [] ∧ f.outline.Obeys .admission) :=
    f.check_decides hobeys hproper nofun
  rw [e.length_paramTypes] at hproper hdecides
  refine ⟨Lambda.extract_onlyUnbound hform hproper, fun declared hle => ?_, ?_⟩
  · rw [Lambda.exists_lower_iff hform hle, hdecides.passes, Lambda.exists_extract_iff hform,
      Arena.obeys_iff (Arena.outline?_of_form? hform)]
  · intro declared fault hfault
    by_cases hle : declared ≤ e.arity
    · exact hdecides.fair _ (Lambda.check_of_lower_error hform hle hfault)
    · rw [Lambda.lower, if_pos (Nat.not_le.mp hle)] at hfault
      cases hfault
      rfl

/-- Node 9 is `let l0 = a + 1 in xs[let l1 = l0 * l0 in l1]`, and node 4 the reading of
its outer slot. The last node is `!a`. -/
def nested : List Step :=
  [.param "a" .int, .param "xs" (.list .int), .const (.int 1), .binary .add (.node 0) (.back 1),
    .letIn (.back 1) [.binary .mul (.back 1) (.back 1), .letIn (.back 1) [] (.back 1),
      .index (.node 1) (.back 1)] (.back 1),
    .unary .not (.node 0)]

/-- Three roots for the same steps: one that is lowered, one that is refused for its
operand, and one that is read outside of its `let`. -/
theorem lower_build_iff_nested : allStand nested .empty = true ∧
    (∃ ids e art, build? nested (.node 9) = some (ids, e) ∧ e.lower 1 = .ok art ∧
      ∀ id node, e.arena.Reaches e.root id → e.arena.get? id = some node →
        e.arena.Obeys .admission node) ∧
    (∃ ids e fault, build? nested (.back 1) = some (ids, e) ∧ e.lower 1 = .error fault ∧
      fault.cause.blamesRecord = false) ∧
    ∃ ids e node slot, build? nested (.node 4) = some (ids, e) ∧
      e.extract = .error (.unboundLocal node slot) := by
  have hsteps : allStand nested .empty = true := by decide +kernel
  refine ⟨hsteps, ?_, ?_, ?_⟩
  · obtain ⟨⟨ids, e⟩, hbuild, hroot, hle, hok⟩ : ∃ p ∈ build? nested (.node 9),
        p.2.root < p.2.arena.size ∧ 1 ≤ p.2.arity ∧ (p.2.lower 1).isOk = true := by decide +kernel
    obtain ⟨-, hiff, -⟩ := lower_build_iff hbuild hsteps hroot
    cases hart : e.lower 1 with
    | error fault => simp [hart, Except.isOk, Except.toBool] at hok
    | ok art => exact ⟨ids, e, art, hbuild, hart, ((hiff 1 hle).mp ⟨art, hart⟩).2⟩
  · obtain ⟨⟨ids, e⟩, hbuild, hroot, hok⟩ : ∃ p ∈ build? nested (.back 1),
        p.2.root < p.2.arena.size ∧ (p.2.lower 1).isOk = false := by decide +kernel
    obtain ⟨-, -, hfair⟩ := lower_build_iff hbuild hsteps hroot
    cases hfault : e.lower 1 with
    | error fault => exact ⟨ids, e, fault, hbuild, hfault, hfair 1 fault hfault⟩
    | ok art => simp [hfault, Except.isOk, Except.toBool] at hok
  · obtain ⟨⟨ids, e⟩, hbuild, hroot, hok⟩ : ∃ p ∈ build? nested (.node 4),
        p.2.root < p.2.arena.size ∧ p.2.extract.isOk = false := by decide +kernel
    obtain ⟨hunbound, -, -⟩ := lower_build_iff hbuild hsteps hroot
    cases hfault : e.extract with
    | error fault =>
      obtain ⟨node, slot, rfl⟩ := hunbound fault hfault
      exact ⟨ids, e, node, slot, hbuild, hfault⟩
    | ok x => simp [hfault, Except.isOk, Except.toBool] at hok

end Step

end Stencil
