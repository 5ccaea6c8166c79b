import Stencil.Proofs.Outline

/-!
# What extraction accepts

An address leads down from a node: at each step it gives the position of the child
to go to. A node that is used several times stands at several addresses, and each of
them counts on its own, since the `let`s above it need not be the same.

An expression is well formed if its root is in the arena and the node at every
address below the root is sound there (`Lambda.WellFormed`). Extraction succeeds on
exactly these expressions, and returns their constants in the order of their
addresses (`Lambda.extract_ok_iff_wellFormed`). It is known from `Lambda.extract_ok`
and `Lambda.extract_eq` that extraction asks for a proper form. That there is a form
is a matter of single nodes (`Arena.exists_form?_iff`), and that it is proper one of
leaves and the addresses above them (`Arena.proper_iff`). Both proofs and the one
on constants go from a node to its children, and what depends on the kind of the
node is in one lemma on `Arena.compose` each.

The short walk that collects the constants only succeeds and fails together with
extraction (`Lambda.extractValues_iff_extract`).
-/

namespace Stencil

/-- A way down from a node: the position of a child for each step. -/
abbrev Address := List Nat

namespace Kind

/-- The range of the child table that is the node's own. -/
def range? : Kind → Option Range
  | list r | call _ r => some r
  | _ => none

def const? : Kind → Option Value
  | const v => some v
  | _ => none

/-- The slots in scope at a child, by its position: a `let` binds its slot in its
body and not in its initialiser. -/
def scopeAt : Kind → Nat → List Nat → List Nat
  | letIn slot _ _, 1, scope => slot :: scope
  | _, _, scope => scope

end Kind

namespace Arena

/-- The node at an address below a node, wherever the references lead. -/
def locate? (a : Arena) : NodeId → Address → Option NodeId
  | id, [] => some id
  | id, k :: p => do
    let node ← a.get? id
    let ids ← a.children? node.kind
    let c ← ids[k]?
    a.locate? c p

/-- Above the address there is a `let` of the slot that has it in its body. -/
def Binds (a : Arena) (id : NodeId) (p : Address) (slot : Nat) : Prop :=
  ∃ q j init body ty, q ++ [1] <+: p ∧ a.locate? id q = some j ∧
    a.get? j = some ⟨.letIn slot init body, ty⟩

/-- The constant at an address. -/
def constAt? (a : Arena) (id : NodeId) (p : Address) : Option Value := do
  let j ← a.locate? id p
  let node ← a.get? j
  node.kind.const?

end Arena

/-- A parameter is declared, a slot is bound, and a constant has its node's type. -/
structure Node.Grounded (node : Node) (arity : Nat) (Bound : Nat → Prop) : Prop where
  declared : ∀ i, node.kind = .param i → i < arity
  bound : ∀ slot, node.kind = .localVar slot → Bound slot
  typed : ∀ v, node.kind = .const v → v.ty = node.ty

/-- Besides, the node's range lies in the child table, where an empty one may start
at the end of the table but not past it, and its children come before it. -/
structure Arena.Sound (a : Arena) (arity : Nat) (Bound : Nat → Prop) (id : NodeId)
    (node : Node) : Prop extends node.Grounded arity Bound where
  range : ∀ r, node.kind.range? = some r → r.start + r.len ≤ a.table.size
  earlier : ∀ ids, a.children? node.kind = some ids → ∀ c ∈ ids, c < id

namespace Lambda

/-- The root is in the arena, and every node below it is sound at its address. -/
structure WellFormed (e : Lambda) : Prop where
  root : e.root < e.arena.size
  node : ∀ p id node, e.arena.locate? e.root p = some id → e.arena.get? id = some node →
    e.arena.Sound e.arity (e.arena.Binds e.root p) id node

def constAt? (e : Lambda) (p : Address) : Option Value := e.arena.constAt? e.root p

end Lambda

/-! ### Addresses -/

namespace Arena

variable {a : Arena} {id c j : NodeId} {node : Node} {ids : List NodeId} {k : Nat} {p : Address}

theorem locate?_cons (hnode : a.get? id = some node) (hids : a.children? node.kind = some ids)
    (hc : ids[k]? = some c) (p : Address) : a.locate? id (k :: p) = a.locate? c p := by
  simp [locate?, hnode, hids, hc]

theorem locate?_cons_eq_some (h : a.locate? id (k :: p) = some j) :
    ∃ node ids c, a.get? id = some node ∧ a.children? node.kind = some ids ∧
      ids[k]? = some c ∧ a.locate? c p = some j := by
  simp only [locate?, Option.bind_eq_bind, Option.bind_eq_some_iff] at h
  obtain ⟨node, hnode, ids, hids, c, hc, h⟩ := h
  exact ⟨node, ids, c, hnode, hids, hc, h⟩

theorem reaches_iff_locate? : a.Reaches id j ↔ ∃ p, a.locate? id p = some j := by
  constructor
  · intro h
    induction h with
    | refl id => exact ⟨[], rfl⟩
    | step hnode hids hc _ ih =>
      obtain ⟨p, hp⟩ := ih
      obtain ⟨k, hk⟩ := List.mem_iff_getElem?.mp hc
      exact ⟨k :: p, (locate?_cons hnode hids hk p).trans hp⟩
  · rintro ⟨p, h⟩
    induction p generalizing id with
    | nil =>
      cases h
      exact .refl _
    | cons k p ih =>
      obtain ⟨node, ids, c, hnode, hids, hc, h⟩ := locate?_cons_eq_some h
      exact .step hnode hids (List.mem_of_getElem? hc) (ih h)

/-- There is a form exactly if all that stands below is valid. -/
theorem exists_form?_iff (a : Arena) (id : NodeId) :
    (∃ f, a.form? id = some f) ↔ ∀ p j, a.locate? id p = some j → a.ValidAt j := by
  rw [← isSome_outline?_iff_form?, isSome_outline?_iff]
  constructor
  · intro h p j hj
    exact h j (reaches_iff_locate?.mpr ⟨p, hj⟩)
  · intro h j hj
    obtain ⟨p, hp⟩ := reaches_iff_locate?.mp hj
    exact h p j hp

theorem not_binds_nil (a : Arena) (id : NodeId) (slot : Nat) : ¬ a.Binds id [] slot := by
  rintro ⟨q, j, init, body, ty, hq, -, -⟩
  have hlen := hq.length_le
  rw [List.length_append] at hlen
  simp at hlen

/-- One step down an address: what the node itself binds comes first. -/
theorem binds_cons (hnode : a.get? id = some node) (hids : a.children? node.kind = some ids)
    (hc : ids[k]? = some c) (p : Address) (slot : Nat) :
    a.Binds id (k :: p) slot ↔
      (k = 1 ∧ ∃ init body, node.kind = .letIn slot init body) ∨ a.Binds c p slot := by
  constructor
  · rintro ⟨q, j, init, body, ty, hq, hj, hlet⟩
    cases q with
    | nil =>
      cases hj
      rw [hnode] at hlet
      cases hlet
      exact .inl ⟨(List.cons_prefix_cons.mp hq).1.symm, init, body, rfl⟩
    | cons m q =>
      obtain ⟨rfl, hrest⟩ := List.cons_prefix_cons.mp hq
      rw [locate?_cons hnode hids hc] at hj
      exact .inr ⟨q, j, init, body, ty, hrest, hj, hlet⟩
  · rintro (⟨rfl, init, body, hkind⟩ | ⟨q, j, init, body, ty, hq, hj, hlet⟩)
    · refine ⟨[], id, init, body, node.ty, ⟨p, rfl⟩, rfl, ?_⟩
      rw [hnode, ← hkind]
    · refine ⟨k :: q, j, init, body, ty, List.cons_prefix_cons.mpr ⟨rfl, hq⟩, ?_, hlet⟩
      rw [locate?_cons hnode hids hc, hj]

theorem mem_scopeAt (kind : Kind) (k slot : Nat) (scope : List Nat) :
    slot ∈ kind.scopeAt k scope ↔
      slot ∈ scope ∨ (k = 1 ∧ ∃ init body, kind = .letIn slot init body) := by
  cases kind with
  | letIn s i b =>
    by_cases hk : k = 1
    · subst hk
      simp [Kind.scopeAt, or_comm, eq_comm]
    · simp [Kind.scopeAt, hk]
  | _ => simp [Kind.scopeAt]

/-- The slots that are bound at an address are those that the walk has in scope. -/
theorem bound_cons (hnode : a.get? id = some node) (hids : a.children? node.kind = some ids)
    (hc : ids[k]? = some c) (p : Address) (scope : List Nat) (slot : Nat) :
    (slot ∈ scope ∨ a.Binds id (k :: p) slot) ↔
      (slot ∈ node.kind.scopeAt k scope ∨ a.Binds c p slot) := by
  rw [binds_cons hnode hids hc, mem_scopeAt, or_assoc]

end Arena

/-! ### Proper forms -/

theorem Node.grounded_iff {node : Node} {arity : Nat} {Bound : Nat → Prop} :
    node.Grounded arity Bound ↔
      match node.kind with
      | .param i => i < arity
      | .localVar slot => Bound slot
      | .const v => v.ty = node.ty
      | _ => True := by
  obtain ⟨kind, ty⟩ := node
  constructor
  · rintro ⟨hparam, hlocal, hconst⟩
    cases kind with
    | param i => exact hparam i rfl
    | localVar slot => exact hlocal slot rfl
    | const v => exact hconst v rfl
    | _ => trivial
  · intro h
    refine ⟨?_, ?_, ?_⟩
    · rintro i rfl
      exact h
    · rintro slot rfl
      exact h
    · rintro v rfl
      exact h

namespace Arena

variable {a : Arena} {id c j : NodeId} {node : Node} {ids : List NodeId} {p : Address}
  {child : NodeId → Option (Form Value)} {f : Form Value} {arity : Nat} {scope : List Nat}

theorem forall_getElem?_cons {α : Type} {x : α} {xs : List α} {P : Nat → α → Prop} :
    (∀ (k : Nat) c, (x :: xs)[k]? = some c → P k c) ↔
      P 0 x ∧ ∀ (k : Nat) c, xs[k]? = some c → P (k + 1) c := by
  constructor
  · intro h
    exact ⟨h 0 x rfl, fun k c hc => h (k + 1) c hc⟩
  · rintro ⟨hx, hxs⟩ k c hc
    cases k with
    | zero =>
      cases hc
      exact hx
    | succ k => exact hxs k c hc

theorem allProper_iff {gs : List (Form Value)} (h : ids.mapM child = some gs) :
    Form.AllProper arity scope gs ↔
      ∀ (k : Nat) c, ids[k]? = some c → ∀ g, child c = some g → g.Proper arity scope := by
  induction ids generalizing gs with
  | nil =>
    cases h
    simp [Form.AllProper]
  | cons id ids ih =>
    simp only [List.mapM_cons, Option.bind_eq_bind, Option.bind_eq_some_iff] at h
    obtain ⟨g, hg, gs, hgs, h⟩ := h
    cases h
    rw [Form.AllProper, ih hgs, forall_getElem?_cons]
    simp [hg]

/-- A form is proper if its node is grounded and the forms of the children are
proper in the scopes that they stand in. -/
theorem proper_compose (h : a.compose node child = some f) :
    f.Proper arity scope ↔ node.Grounded arity (· ∈ scope) ∧
      ∀ ids, a.children? node.kind = some ids → ∀ (k : Nat) c, ids[k]? = some c →
        ∀ g, child c = some g → g.Proper arity (node.kind.scopeAt k scope) := by
  obtain ⟨kind, ty⟩ := node
  rw [Node.grounded_iff]
  cases kind <;> simp only [compose, Option.bind_eq_bind, Option.bind_eq_some_iff] at h
  case const | param | localVar =>
    cases h
    simp [Form.Proper, children?]
  case unary =>
    obtain ⟨x, hx, h⟩ := h
    cases h
    simp [Form.Proper, children?, forall_getElem?_cons, Kind.scopeAt, hx]
  case binary | letIn | index =>
    obtain ⟨x, hx, y, hy, h⟩ := h
    cases h
    simp [Form.Proper, children?, forall_getElem?_cons, Kind.scopeAt, hx, hy]
  case ite =>
    obtain ⟨x, hx, y, hy, z, hz, h⟩ := h
    cases h
    simp [Form.Proper, children?, forall_getElem?_cons, Kind.scopeAt, hx, hy, hz]
  case list | call =>
    obtain ⟨ids, hids, fs, hfs, h⟩ := h
    cases h
    simp [Form.Proper, children?, hids, allProper_iff hfs, Kind.scopeAt]

/-- A node with a form is valid, and its children have forms. -/
theorem form?_children (h : a.form? id = some f) :
    ∃ node ids, a.get? id = some node ∧ a.children? node.kind = some ids ∧
      ∀ c ∈ ids, c < id ∧ ∃ g, a.form? c = some g := by
  have hsome : (a.outline? id).isSome = true := (a.isSome_outline?_iff_form? id).mpr ⟨f, h⟩
  obtain ⟨node, ids, hnode, hids, hall⟩ := (a.isSome_outline?_eq id).mp hsome
  refine ⟨node, ids, hnode, hids, fun c hc => ⟨(hall c hc).1, ?_⟩⟩
  exact (a.isSome_outline?_iff_form? c).mp (hall c hc).2

theorem compose_of_form? (h : a.form? id = some f) (hnode : a.get? id = some node) :
    a.compose node (fun c => if c < id then a.form? c else none) = some f := by
  rwa [form?_eq, hnode, Option.bind_some] at h

/-- A form is proper exactly if every node below is grounded where it stands. -/
theorem proper_iff (h : a.form? id = some f) :
    f.Proper arity scope ↔ ∀ p j node, a.locate? id p = some j → a.get? j = some node →
      node.Grounded arity fun slot => slot ∈ scope ∨ a.Binds id p slot := by
  induction id using Nat.strongRecOn generalizing f scope with
  | ind id ih =>
    obtain ⟨node, ids, hnode, hids, hchild⟩ := form?_children h
    rw [proper_compose (compose_of_form? h hnode)]
    -- the scope of a child takes in what the node binds around it
    constructor
    · rintro ⟨hown, hchildren⟩ p j n hj hn
      cases p with
      | nil =>
        cases hj
        cases hnode.symm.trans hn
        simpa [not_binds_nil] using hown
      | cons k p =>
        obtain ⟨node', ids', c, hnode', hids', hc, hj⟩ := locate?_cons_eq_some hj
        cases hnode.symm.trans hnode'
        cases hids.symm.trans hids'
        obtain ⟨hlt, g, hg⟩ := hchild c (List.mem_of_getElem? hc)
        have hproper := hchildren ids hids k c hc g (by rw [if_pos hlt, hg])
        have hground := (ih c hlt hg).mp hproper p j n hj hn
        simpa only [bound_cons hnode hids hc] using hground
    · intro hall
      refine ⟨?_, ?_⟩
      · have hground := hall [] id node rfl hnode
        simpa [not_binds_nil] using hground
      · intro ids' hids' k c hc g hg
        cases hids.symm.trans hids'
        have hlt : c < id := (hchild c (List.mem_of_getElem? hc)).1
        rw [if_pos hlt] at hg
        refine (ih c hlt hg).mpr fun p j n hj hn => ?_
        have hground := hall (k :: p) j n ((locate?_cons hnode hids hc p).trans hj) hn
        simpa only [bound_cons hnode hids hc] using hground

end Arena

/-! ### Well-formed expressions -/

namespace Arena

variable {a : Arena} {id j : NodeId} {node : Node} {p : Address} {arity : Nat}

theorem exists_children?_iff (a : Arena) (kind : Kind) : (∃ ids, a.children? kind = some ids) ↔
    ∀ r, kind.range? = some r → r.start + r.len ≤ a.table.size := by
  cases kind with
  | list r | call f r => simp [children?, Kind.range?, list?]
  | _ => simp [children?, Kind.range?]

theorem sound_iff {Bound : Nat → Prop} (hnode : a.get? id = some node) :
    a.Sound arity Bound id node ↔ a.ValidAt id ∧ node.Grounded arity Bound := by
  constructor
  · rintro ⟨hground, hrange, hearlier⟩
    obtain ⟨ids, hids⟩ := (a.exists_children?_iff node.kind).mpr hrange
    exact ⟨⟨node, ids, hnode, hids, hearlier ids hids⟩, hground⟩
  · rintro ⟨hvalid, hground⟩
    obtain ⟨ids, hids, hlt⟩ := hvalid.children hnode
    refine ⟨hground, (a.exists_children?_iff node.kind).mp ⟨ids, hids⟩, ?_⟩
    intro ids' hids'
    cases hids.symm.trans hids'
    exact hlt

/-- References to earlier nodes do not leave the arena. -/
theorem lt_size_of_locate? (hid : id < a.size)
    (hearlier : ∀ p j node ids, a.locate? id p = some j → a.get? j = some node →
      a.children? node.kind = some ids → ∀ c ∈ ids, c < j)
    (h : a.locate? id p = some j) : j < a.size := by
  induction p generalizing id with
  | nil =>
    cases h
    exact hid
  | cons k p ih =>
    obtain ⟨node, ids, c, hnode, hids, hc, h⟩ := locate?_cons_eq_some h
    have hlt : c < id := hearlier [] id node ids rfl hnode hids c (List.mem_of_getElem? hc)
    refine ih (Nat.lt_trans hlt hid) ?_ h
    intro q i n l hq
    exact hearlier (k :: q) i n l ((locate?_cons hnode hids hc q).trans hq)

end Arena

namespace Lambda

/-- The well-formed expressions are those with a proper form. -/
theorem wellFormed_iff (e : Lambda) : e.WellFormed ↔ ∃ f, e.HasForm f := by
  constructor
  · rintro ⟨hroot, hnode⟩
    have hvalid : ∀ p j, e.arena.locate? e.root p = some j → e.arena.ValidAt j := by
      intro p j hj
      have hlt : j < e.arena.size := Arena.lt_size_of_locate? hroot
        (fun q i n ids hi hn => (hnode q i n hi hn).earlier ids) hj
      have hget : e.arena.get? j = some e.arena.nodes[j] := Array.getElem?_eq_getElem hlt
      exact ((Arena.sound_iff hget).mp (hnode p j _ hj hget)).1
    obtain ⟨f, hf⟩ := (e.arena.exists_form?_iff e.root).mpr hvalid
    refine ⟨f, hf, (Arena.proper_iff hf).mpr fun p j n hj hn => ?_⟩
    simpa using (hnode p j n hj hn).toGrounded
  · rintro ⟨f, hf, hproper⟩
    refine ⟨Arena.form?_lt hf, fun p j n hj hn => (Arena.sound_iff hn).mpr ⟨?_, ?_⟩⟩
    · exact (e.arena.exists_form?_iff e.root).mp ⟨f, hf⟩ p j hj
    · simpa using (Arena.proper_iff hf).mp hproper p j n hj hn

end Lambda

/-! ### Constants in the order of their addresses -/

namespace Arena

/-- The constants below a node with their addresses, from left to right. -/
def leaves (a : Arena) (id : NodeId) : List (Address × Value) :=
  match a.get? id with
  | none => []
  | some node =>
    (node.kind.const?.map fun v => ([], v)).toList ++
      ((a.children? node.kind).getD []).zipIdx.flatMap fun (c, k) =>
        if c < id then (a.leaves c).map fun l => (k :: l.1, l.2) else []
termination_by id

variable {a : Arena} {id : NodeId} {node : Node} {ids : List NodeId}
  {child : NodeId → Option (Form Value)} {f : Form Value}

theorem leaves_eq (hnode : a.get? id = some node) (hids : a.children? node.kind = some ids)
    (hlt : ∀ c ∈ ids, c < id) :
    a.leaves id = (node.kind.const?.map fun v => ([], v)).toList ++
      ids.zipIdx.flatMap fun x => (a.leaves x.1).map fun l => (x.2 :: l.1, l.2) := by
  rw [leaves, hnode]
  simp only [hids, Option.getD_some, List.flatMap_def]
  congr 2
  refine List.map_congr_left fun x hx => ?_
  rw [if_pos (hlt x.1 (List.mem_of_getElem? (List.mem_zipIdx_iff_getElem?.mp hx)))]

theorem constAt?_cons (hnode : a.get? id = some node) (hids : a.children? node.kind = some ids)
    (k : Nat) (p : Address) :
    a.constAt? id (k :: p) = ids[k]?.bind fun c => a.constAt? c p := by
  simp only [constAt?, locate?, hnode, hids, Option.bind_eq_bind, Option.bind_some,
    Option.bind_assoc]

/-- The leaves are exactly the constants. -/
theorem mem_leaves_iff (h : a.form? id = some f) (p : Address) (v : Value) :
    (p, v) ∈ a.leaves id ↔ a.constAt? id p = some v := by
  induction id using Nat.strongRecOn generalizing f p with
  | ind id ih =>
    obtain ⟨node, ids, hnode, hids, hchild⟩ := form?_children h
    rw [leaves_eq hnode hids fun c hc => (hchild c hc).1]
    cases p with
    | nil => simp [constAt?, locate?, hnode]
    | cons k p =>
      have hmem : (k :: p, v) ∈ (node.kind.const?.map fun v => (([] : Address), v)).toList ++
          (ids.zipIdx.flatMap fun x => (a.leaves x.1).map fun l => (x.2 :: l.1, l.2)) ↔
          ∃ c, ids[k]? = some c ∧ (p, v) ∈ a.leaves c := by
        simp [List.mem_zipIdx_iff_getElem?]
      rw [hmem, constAt?_cons hnode hids, Option.bind_eq_some_iff]
      refine exists_congr fun c => and_congr_right fun hc => ?_
      obtain ⟨hlt, g, hg⟩ := hchild c (List.mem_of_getElem? hc)
      exact ih c hlt hg p

theorem pairwise_snd_zipIdx {α : Type} (l : List α) (n : Nat) :
    (l.zipIdx n).Pairwise fun x y => x.2 < y.2 := by
  induction l generalizing n with
  | nil => exact .nil
  | cons x l ih => exact .cons (fun y hy => List.le_snd_of_mem_zipIdx hy) (ih (n + 1))

/-- The leaves come in the order of their addresses. -/
theorem pairwise_leaves (h : a.form? id = some f) :
    (a.leaves id).Pairwise fun l m => List.Lex (· < ·) l.1 m.1 := by
  induction id using Nat.strongRecOn generalizing f with
  | ind id ih =>
    obtain ⟨node, ids, hnode, hids, hchild⟩ := form?_children h
    rw [leaves_eq hnode hids fun c hc => (hchild c hc).1, List.pairwise_append,
      List.pairwise_flatMap]
    refine ⟨?_, ⟨?_, ?_⟩, ?_⟩
    · cases node.kind.const? <;> simp
    · -- within a child the first step is the same
      intro x hx
      obtain ⟨hlt, g, hg⟩ := hchild x.1 (List.mem_of_getElem? (List.mem_zipIdx_iff_getElem?.mp hx))
      exact List.pairwise_map.mpr ((ih x.1 hlt hg).imp .cons)
    · -- of two children, the first step decides
      refine (pairwise_snd_zipIdx ids 0).imp fun hxy l hl m hm => ?_
      obtain ⟨l, -, rfl⟩ := List.mem_map.mp hl
      obtain ⟨m, -, rfl⟩ := List.mem_map.mp hm
      exact .rel hxy
    · intro l hl m hm
      obtain ⟨v, -, rfl⟩ := Option.map_eq_some_iff.mp (Option.mem_toList.mp hl)
      obtain ⟨x, -, hm⟩ := List.mem_flatMap.mp hm
      obtain ⟨m, -, rfl⟩ := List.mem_map.mp hm
      exact .nil

theorem constsAll_eq {gs : List (Form Value)} (h : ids.mapM child = some gs) :
    Form.constsAll gs = ids.flatMap fun c => ((child c).map Form.consts).getD [] := by
  induction ids generalizing gs with
  | nil =>
    cases h
    rfl
  | cons id ids ih =>
    simp only [List.mapM_cons, Option.bind_eq_bind, Option.bind_eq_some_iff] at h
    obtain ⟨g, hg, gs, hgs, h⟩ := h
    cases h
    rw [Form.constsAll, ih hgs, List.flatMap_cons, hg]
    rfl

/-- The constants of a form are that of its node and those of its children. -/
theorem consts_compose (h : a.compose node child = some f)
    (hids : a.children? node.kind = some ids) :
    f.consts = node.kind.const?.toList ++
      ids.flatMap fun c => ((child c).map Form.consts).getD [] := by
  obtain ⟨kind, ty⟩ := node
  cases kind <;> simp only [compose, Option.bind_eq_bind, Option.bind_eq_some_iff] at h
  case const | param | localVar =>
    cases h
    cases hids
    rfl
  case unary =>
    obtain ⟨x, hx, h⟩ := h
    cases h
    cases hids
    simp [Form.consts, Kind.const?, hx]
  case binary | letIn | index =>
    obtain ⟨x, hx, y, hy, h⟩ := h
    cases h
    cases hids
    simp [Form.consts, Kind.const?, hx, hy]
  case ite =>
    obtain ⟨x, hx, y, hy, z, hz, h⟩ := h
    cases h
    cases hids
    simp [Form.consts, Kind.const?, hx, hy, hz]
  case list | call =>
    obtain ⟨ids', hids', fs, hfs, h⟩ := h
    cases h
    cases hids.symm.trans hids'
    simp [Form.consts, Kind.const?, constsAll_eq hfs]

/-- The values of the leaves are the constants of the form. -/
theorem map_snd_leaves (h : a.form? id = some f) : (a.leaves id).map Prod.snd = f.consts := by
  induction id using Nat.strongRecOn generalizing f with
  | ind id ih =>
    obtain ⟨node, ids, hnode, hids, hchild⟩ := form?_children h
    rw [leaves_eq hnode hids fun c hc => (hchild c hc).1,
      consts_compose (compose_of_form? h hnode) hids, List.map_append, List.map_flatMap]
    have hown : ((node.kind.const?.map fun v => (([] : Address), v)).toList).map Prod.snd
        = node.kind.const?.toList := by
      cases node.kind.const? <;> rfl
    rw [hown]
    congr 1
    calc ids.zipIdx.flatMap (fun x => ((a.leaves x.1).map fun l => (x.2 :: l.1, l.2)).map Prod.snd)
        = (ids.zipIdx.map Prod.fst).flatMap fun c => (a.leaves c).map Prod.snd := by
          simp only [List.flatMap_map, List.map_map, Function.comp_def]
      _ = ids.flatMap fun c => (a.leaves c).map Prod.snd := by
          rw [List.zipIdx_map_fst]
      _ = ids.flatMap fun c =>
            ((if c < id then a.form? c else none).map Form.consts).getD [] := by
          rw [List.flatMap_def, List.flatMap_def]
          congr 1
          refine List.map_congr_left fun c hc => ?_
          obtain ⟨hlt, g, hg⟩ := hchild c hc
          rw [if_pos hlt, hg, ih c hlt hg]
          rfl

end Arena

namespace Lambda

/-- Extraction succeeds on exactly the well-formed expressions. It then returns every
constant of the unfolded expression once for each address at which it stands, in the
order of the addresses. -/
theorem extract_ok_iff_wellFormed (e : Lambda) :
    ((∃ x, e.extract = .ok x) ↔ e.WellFormed) ∧
    ∀ x, e.extract = .ok x → ∃ leaves : List (Address × Value),
      (leaves.Pairwise fun l m => List.Lex (· < ·) l.1 m.1) ∧
      (∀ p v, (p, v) ∈ leaves ↔ e.constAt? p = some v) ∧
      x.values = leaves.map Prod.snd := by
  constructor
  · rw [wellFormed_iff]
    constructor
    · rintro ⟨x, hx⟩
      obtain ⟨f, hf, -⟩ := extract_ok hx
      exact ⟨f, hf⟩
    · rintro ⟨f, hf⟩
      exact ⟨_, extract_eq hf⟩
  · intro x hx
    obtain ⟨f, hf, rfl⟩ := extract_ok hx
    exact ⟨e.arena.leaves e.root, Arena.pairwise_leaves hf.form, Arena.mem_leaves_iff hf.form,
      (Arena.map_snd_leaves hf.form).symm⟩

/-- `(let l0 = 1 in l0) + l0`, with one node for both readings of the slot, of which
only the first is in the body of the `let`. -/
def escaping : Lambda where
  params := []
  arena :=
    { nodes := #[⟨.const (.int 1), .int⟩, ⟨.localVar 0, .int⟩, ⟨.letIn 0 0 1, .int⟩,
        ⟨.binary .add 2 1, .int⟩]
      table := #[] }
  root := 3

/-- What makes the difference is where the slot is read, not the node that reads it. -/
theorem extract_ok_iff_wellFormed_escaping : rebinding.WellFormed ∧ ¬ escaping.WellFormed ∧
    (escaping.arena.locate? escaping.root [0, 1] = some 1 ∧
      escaping.arena.locate? escaping.root [1] = some 1) ∧
    ∃ leaves : List (Address × Value), leaves.map Prod.snd = [.int 1, .list .int [.int 1, .int 2]] ∧
      ([1, 0, 1], .list .int [.int 1, .int 2]) ∈ leaves := by
  obtain ⟨hiff, hvalues⟩ := extract_ok_iff_wellFormed rebinding
  obtain ⟨hescaping, -⟩ := extract_ok_iff_wellFormed escaping
  obtain ⟨leaves, -, hmem, hleaves⟩ := hvalues _ rfl
  refine ⟨hiff.mp ⟨_, rfl⟩, ?_, ⟨rfl, rfl⟩, leaves, hleaves.symm, (hmem _ _).mpr rfl⟩
  intro h
  obtain ⟨x, hx⟩ := hescaping.mpr h
  cases hx

/-- The short walk returns the values that extraction returns, on the same
expressions, and fails with the fault that extraction fails with. -/
theorem extractValues_iff_extract (e : Lambda) :
    (∀ values, e.extractValues = .ok values ↔ ∃ skeleton, e.extract = .ok ⟨skeleton, values⟩) ∧
    ∀ fault, e.extractValues = .error fault ↔ e.extract = .error fault := by
  rw [extractValues_eq]
  cases e.extract with
  | error err => simp [Except.map]
  | ok x =>
    obtain ⟨skeleton, values⟩ := x
    simp [Except.map]

end Lambda

end Stencil
