import Mathlib.Logic.Relation
import Stencil.Proofs.Lookup
import Stencil.Proofs.Outline

/-!
# What a fingerprint does not see

Expressions of one shape have one fingerprint, so the fingerprint only saves
comparisons: keys are equal exactly if their expressions have the same shape
(`Lambda.fingerprint_respects_sameShape`).

`Lambda.Edit` lists what can be done to an expression without touching its shape:
other values for its constants, other names for its parameters, further nodes that
are not used, another order of its nodes, one node in the place of several that are
alike, and several in the place of one. After any number of edits a valid
expression has the shape it had (`Lambda.sameShape_of_edits`).

All edits of the arena are cases of one statement. If each node that is reached in
one arena has a counterpart in the other, with the same label and type and with
the counterparts of its children for children, the two unfold to one outline
(`Arena.outline?_of_carried`).
-/

namespace Stencil

/-- A node as the comparison of shapes sees it. -/
structure Part where
  label : Label
  ty : Ty
  children : List NodeId
deriving DecidableEq

/-- The node with its references led elsewhere. -/
def Part.renumber (place : NodeId → NodeId) (p : Part) : Part :=
  { p with children := p.children.map place }

namespace Arena

def part? (a : Arena) (id : NodeId) : Option Part := do
  let node ← a.get? id
  let ids ← a.children? node.kind
  return ⟨node.kind.label, node.ty, ids⟩

/-- Gives the constants other values, node by node. -/
def setConsts (a : Arena) (value : NodeId → Value) : Arena :=
  { a with nodes := a.nodes.mapIdx fun id node =>
      match node.kind with
      | .const _ => { node with kind := .const (value id) }
      | _ => node }

/-- Appends nodes, and entries to the child table. -/
def extend (a : Arena) (nodes : List Node) (ids : List NodeId) : Arena :=
  ⟨a.nodes ++ nodes.toArray, a.table ++ ids.toArray⟩

end Arena

namespace Lambda

/-- Every node that the root of `a` reaches stands in `b` at the place that `place`
says. Several nodes may have one place, if they are alike there. -/
structure Carries (a b : Lambda) (place : NodeId → NodeId) : Prop where
  root : b.root = place a.root
  part : ∀ id, a.arena.Reaches a.root id →
    b.arena.part? (place id) = (a.arena.part? id).map (Part.renumber place)

/-- A change to an expression that its shape does not show. -/
inductive Edit (a : Lambda) : Lambda → Prop where
  /-- Other values for the constants. -/
  | constants (value : NodeId → Value) : a.Edit { a with arena := a.arena.setConsts value }
  /-- Other names for the parameters. -/
  | rename (params : List Param) : params.map Param.ty = a.paramTypes → a.Edit { a with params }
  /-- Nodes and child lists that nothing refers to. -/
  | extend (nodes : List Node) (ids : List NodeId) :
      a.Edit { a with arena := a.arena.extend nodes ids }
  /-- Nodes in other places, where nodes that are alike may become one. -/
  | move {b : Lambda} (place : NodeId → NodeId) :
      b.params = a.params → b.Valid → a.Carries b place → a.Edit b
  /-- The reverse, where one node may become several. -/
  | split {b : Lambda} (place : NodeId → NodeId) :
      b.params = a.params → b.Valid → b.Carries a place → a.Edit b

end Lambda

/-! ### Outlines, part by part -/

namespace Arena

variable {a b : Arena}

theorem outline?_eq_part? (a : Arena) (id : NodeId) :
    a.outline? id = (a.part? id).bind fun p =>
      (p.children.mapM fun c => if c < id then a.outline? c else none).map
        (.node p.label p.ty) := by
  rw [outline?_eq, part?]
  cases a.get? id with
  | none => rfl
  | some node =>
    simp only [Option.bind_eq_bind, Option.bind_some]
    cases a.children? node.kind <;> rfl

theorem validAt_iff {id : NodeId} :
    a.ValidAt id ↔ ∃ p, a.part? id = some p ∧ ∀ c ∈ p.children, c < id := by
  rw [ValidAt, part?]
  cases a.get? id with
  | none => simp
  | some node => cases hids : a.children? node.kind <;> simp [hids]

theorem part?_eq_some {id : NodeId} {node : Node} {ids : List NodeId}
    (hnode : a.get? id = some node) (hids : a.children? node.kind = some ids) :
    a.part? id = some ⟨node.kind.label, node.ty, ids⟩ := by
  simp [part?, hnode, hids]

theorem Reaches.child {id c j : NodeId} {p : Part} (hp : a.part? id = some p)
    (hc : c ∈ p.children) (hj : a.Reaches c j) : a.Reaches id j := by
  rw [part?] at hp
  simp only [Option.bind_eq_bind, Option.bind_eq_some_iff] at hp
  obtain ⟨node, hnode, ids, hids, h⟩ := hp
  cases h
  exact .step hnode hids hc hj

/-- A set of nodes that holds the children of its nodes holds all that they reach. -/
theorem Reaches.closed {S : NodeId → Prop}
    (hS : ∀ id p, S id → a.part? id = some p → ∀ c ∈ p.children, S c) {id j : NodeId}
    (hj : a.Reaches id j) (hid : S id) : S j := by
  induction hj with
  | refl id => exact hid
  | @step id c j node ids hnode hids hc _ ih =>
    exact ih (hS id _ hid (part?_eq_some hnode hids) c hc)

theorem mapM_congr_left {α β : Type} {f g : α → Option β} {l : List α}
    (h : ∀ x ∈ l, f x = g x) : l.mapM f = l.mapM g := by
  induction l with
  | nil => rfl
  | cons x l ih =>
    have htail := ih fun y hy => h y (List.mem_cons_of_mem x hy)
    rw [List.mapM_cons, List.mapM_cons, h x List.mem_cons_self, htail]

/-- An arena that has every node that is reached from `id`, wherever it is placed,
has the outline of `id`. -/
theorem outline?_of_carried (place : NodeId → NodeId) {id : NodeId}
    (hpart : ∀ j, a.Reaches id j → b.part? (place j) = (a.part? j).map (Part.renumber place))
    (ha : ∀ j, a.Reaches id j → a.ValidAt j) (hb : ∀ j, a.Reaches id j → b.ValidAt (place j)) :
    b.outline? (place id) = a.outline? id := by
  induction id using Nat.strongRecOn with
  | ind id ih =>
    obtain ⟨p, hp, hlt⟩ := validAt_iff.mp (ha id (.refl id))
    have hq : b.part? (place id) = some (p.renumber place) := by
      rw [hpart id (.refl id), hp]
      rfl
    obtain ⟨q, hq', hlt'⟩ := validAt_iff.mp (hb id (.refl id))
    cases hq.symm.trans hq'
    -- a child comes before its parent in both arenas, so both look below it
    have hchild : ∀ c ∈ p.children, (if place c < place id then b.outline? (place c) else none)
        = if c < id then a.outline? c else none := by
      intro c hc
      rw [if_pos (hlt c hc), if_pos (hlt' (place c) (List.mem_map_of_mem hc))]
      refine ih c (hlt c hc) ?_ ?_ ?_
      · intro j hj
        exact hpart j (.child hp hc hj)
      · intro j hj
        exact ha j (.child hp hc hj)
      · intro j hj
        exact hb j (.child hp hc hj)
    have hmap : (p.renumber place).children.mapM
          (fun c => if c < place id then b.outline? c else none)
        = p.children.mapM fun c => if c < id then a.outline? c else none :=
      List.mapM_map.trans (mapM_congr_left hchild)
    rw [outline?_eq_part?, outline?_eq_part?, hq, hp, Option.bind_some, Option.bind_some, hmap]
    rfl

/-- What is reached has a counterpart that is reached. -/
theorem Reaches.carried {place : NodeId → NodeId} {id j : NodeId} (hj : a.Reaches id j)
    (hpart : ∀ j, a.Reaches id j → b.part? (place j) = (a.part? j).map (Part.renumber place)) :
    b.Reaches (place id) (place j) := by
  induction hj with
  | refl id => exact .refl _
  | @step id c j node ids hnode hids hc _ ih =>
    have hp := part?_eq_some hnode hids
    have hq := hpart id (.refl id)
    rw [hp] at hq
    have hrest := ih fun k hk => hpart k (.child hp hc hk)
    exact .child hq (List.mem_map_of_mem hc) hrest

/-! ### Parts that stay in place -/

theorem part?_setConsts (a : Arena) (value : NodeId → Value) (id : NodeId) :
    (a.setConsts value).part? id = a.part? id := by
  have hget : (a.setConsts value).get? id = (a.get? id).map fun node =>
      match node.kind with
      | .const _ => { node with kind := .const (value id) }
      | _ => node := by
    simp [get?, setConsts]
  rw [part?, part?, hget]
  cases a.get? id with
  | none => rfl
  | some node =>
    obtain ⟨kind, ty⟩ := node
    cases kind <;> rfl

theorem within_extend (a : Arena) (nodes : List Node) (ids : List NodeId) :
    a.Within (a.extend nodes ids) where
  node id n h := by
    obtain ⟨hid, -⟩ := Array.getElem?_eq_some_iff.mp h
    exact (Array.getElem?_append_left hid).trans h
  ids := (a.within_pushList ids).ids

theorem Within.part? (hab : a.Within b) {id : NodeId} {p : Part} (h : a.part? id = some p) :
    b.part? id = some p := by
  rw [Arena.part?] at h ⊢
  simp only [Option.bind_eq_bind, Option.bind_eq_some_iff] at h ⊢
  obtain ⟨node, hnode, ids, hids, h⟩ := h
  exact ⟨node, hab.node id node hnode, ids, hab.children? hids, h⟩

end Arena

/-! ### Edits keep the shape -/

namespace Lambda

variable {a b : Lambda}

theorem sameShape_of_outline? (ha : a.Valid) (hp : b.paramTypes = a.paramTypes)
    (h : b.arena.outline? b.root = a.arena.outline? a.root) : a.sameShape b = true := by
  obtain ⟨o, ho, -⟩ := sameShape_iff_outline?.mp (sameShape_self_iff.mpr ha)
  have hb : b.outline? = a.outline? := by
    rw [outline?, outline?, h, hp]
  exact sameShape_iff_outline?.mpr ⟨o, ho, hb.trans ho⟩

theorem Carries.outline? {place : NodeId → NodeId} (h : a.Carries b place) (ha : a.Valid)
    (hb : b.Valid) : b.arena.outline? b.root = a.arena.outline? a.root := by
  rw [h.root]
  refine Arena.outline?_of_carried place h.part ha fun id hid => ?_
  have hreach := hid.carried h.part
  rw [← h.root] at hreach
  exact hb (place id) hreach

/-- An arena that keeps what another holds, place by place, keeps its outlines. -/
theorem outline?_of_part? (ha : a.Valid) {arena : Arena}
    (h : ∀ id p, a.arena.part? id = some p → arena.part? id = some p) :
    arena.outline? a.root = a.arena.outline? a.root := by
  refine Arena.outline?_of_carried (fun id => id) ?_ ha ?_
  · intro id hid
    obtain ⟨p, hp, -⟩ := Arena.validAt_iff.mp (ha id hid)
    rw [h id p hp, hp, Option.map_some, Part.renumber, List.map_id']
  · intro id hid
    obtain ⟨p, hp, hlt⟩ := Arena.validAt_iff.mp (ha id hid)
    exact Arena.validAt_iff.mpr ⟨p, h id p hp, hlt⟩

theorem Edit.sameShape (h : a.Edit b) (ha : a.Valid) : a.sameShape b = true := by
  cases h with
  | constants value =>
    refine sameShape_of_outline? ha rfl (outline?_of_part? ha ?_)
    intro id p hp
    rw [Arena.part?_setConsts, hp]
  | rename params hparams => exact sameShape_of_outline? ha hparams rfl
  | extend nodes ids =>
    refine sameShape_of_outline? ha rfl (outline?_of_part? ha ?_)
    intro id p hp
    exact (a.arena.within_extend nodes ids).part? hp
  | move place hparams hb hcarries =>
    refine sameShape_of_outline? ha ?_ (hcarries.outline? ha hb)
    rw [paramTypes, hparams, paramTypes]
  | split place hparams hb hcarries =>
    refine sameShape_of_outline? ha ?_ (hcarries.outline? hb ha).symm
    rw [paramTypes, hparams, paramTypes]

/-- After any number of edits a valid expression has the shape it had. -/
theorem sameShape_of_edits (ha : a.Valid) (h : Relation.ReflTransGen Edit a b) :
    a.sameShape b = true := by
  induction h with
  | refl => exact sameShape_self_iff.mpr ha
  | tail _ hedit ih =>
    -- an expression that has the shape of another is valid
    have hvalid := sameShape_self_iff.mp (sameShape_trans (sameShape_symm ih) ih)
    exact sameShape_trans ih (hedit.sameShape hvalid)

/-- Equal shapes hash alike, and not only under this fingerprint: whatever state the
words are mixed into, it comes out the same. So comparing keys is comparing shapes,
and no edit changes the shape of a valid expression or its fingerprint. -/
theorem fingerprint_respects_sameShape (a b : Lambda) :
    (a.sameShape b = true → a.fingerprint = b.fingerprint ∧
      ∀ {σ : Type} (k : σ → Nat → σ) (s : σ), a.foldWords k s = b.foldWords k s) ∧
    (Key.ofLambda a).same (.ofLambda b) = a.sameShape b ∧
    (a.Valid → Relation.ReflTransGen Edit a b →
      a.sameShape b = true ∧ a.fingerprint = b.fingerprint) := by
  refine ⟨?_, ?_, ?_⟩
  · intro h
    exact ⟨fingerprint_of_sameShape h, fun k s => foldWords_of_sameShape k h s⟩
  · rw [Bool.eq_iff_iff]
    exact Key.same_ofLambda_iff
  · intro ha h
    have hshape := sameShape_of_edits ha h
    exact ⟨hshape, fingerprint_of_sameShape hshape⟩

/-- `rebinding` with the names and the constants of `rebindingSpread`. -/
def rebindingRevalued : Lambda where
  params := rebindingSpread.params
  arena := rebinding.arena.setConsts fun id => if id = 1 then .int 5 else .list .int [.int 7]
  root := rebinding.root

/-- The node of `rebinding` that a node of `rebindingSpread` is a copy of. -/
def rebindingSource (id : NodeId) : NodeId := [0, 7, 6, 8, 3, 3, 4, 3, 5, 9, 1, 0, 2, 10].getD id 0

theorem rebindingSpread_carries : rebindingSpread.Carries rebindingRevalued rebindingSource where
  root := rfl
  part id hid := by
    -- node 0 is not used, and it has no source
    have hused : 0 < id ∧ id < 14 := by
      refine hid.closed (S := fun id => 0 < id ∧ id < 14) ?_ ⟨by decide, by decide⟩
      have hchildren : ∀ id < 14, ∀ p ∈ rebindingSpread.arena.part? id,
          ∀ c ∈ p.children, 0 < c ∧ c < 14 := by decide
      intro id p h hp
      exact hchildren id h.2 p hp
    have hparts : ∀ id < 14, 0 < id → rebindingRevalued.arena.part? (rebindingSource id)
        = (rebindingSpread.arena.part? id).map (Part.renumber rebindingSource) := by decide
    exact hparts id hused.2 hused.1

/-- Other names, other constants, and then all nodes moved, split and joined by one
that is not used. -/
theorem fingerprint_respects_sameShape_rebinding : rebinding.Valid ∧
    Relation.ReflTransGen Edit rebinding rebindingSpread ∧
    rebinding.fingerprint = rebindingSpread.fingerprint := by
  have ha : rebinding.Valid := sameShape_self_iff.mp (by decide)
  have hb : rebindingSpread.Valid := sameShape_self_iff.mp (by decide)
  have hedits : Relation.ReflTransGen Edit rebinding rebindingSpread := by
    have hrename : rebinding.Edit { rebinding with params := rebindingSpread.params } :=
      .rename _ rfl
    have hconstants : Edit { rebinding with params := rebindingSpread.params } rebindingRevalued :=
      .constants _
    have hsplit : rebindingRevalued.Edit rebindingSpread :=
      .split rebindingSource rfl hb rebindingSpread_carries
    exact ((Relation.ReflTransGen.single hrename).tail hconstants).tail hsplit
  exact ⟨ha, hedits, ((fingerprint_respects_sameShape _ _).2.2 ha hedits).2⟩

end Lambda

end Stencil
