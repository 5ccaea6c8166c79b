import Stencil.Proofs.Acceptance
import Stencil.Proofs.Reinsertion

/-!
# The layout of a skeleton

A skeleton is written afresh, whatever the arena of the expression looked like: one
node for each place of the unfolded expression, children before parents, child lists
in the table one after the other. `Lambda.Normal` says what that comes to, and
`Lambda.extract_normal` that every skeleton has it.

The invariant of the writing is `Arena.Tidy`. While a form is written, some nodes are
waiting for their parent, and every other node has been given one: the references of
all nodes, together with the nodes that wait, are the ids of the arena, each of them
once. A new node takes the last of those that wait for its children and waits itself
(`Arena.Tidy.grow`), so to write a form adds one node to those that wait, its root
(`Form.write_tidy`). At the end nothing else waits.

The placeholders are counted by `Form.filterMap_write_hole`. It says at once that the
skeleton has no constants and which parameters stand in it after the declared ones.
-/

namespace Stencil

/-- The ranges follow each other without a gap from `start` to `stop`. -/
def Packed (start stop : Nat) : List Range → Prop
  | [] => start = stop
  | r :: rs => r.start = start ∧ Packed (start + r.len) stop rs

theorem Packed.concat {start stop len : Nat} {rs : List Range} (h : Packed start stop rs) :
    Packed start (stop + len) (rs ++ [⟨stop, len⟩]) := by
  induction rs generalizing start with
  | nil =>
    cases h
    exact ⟨rfl, rfl⟩
  | cons r rs ih => exact ⟨h.1, ih h.2⟩

namespace Arena

/-- The ranges of the nodes that have one, in the order of the nodes. -/
def ranges (a : Arena) : List Range := a.nodes.toList.filterMap fun node => node.kind.range?

/-- The children of each node, in the order of the nodes. -/
def childLists (a : Arena) : List (List NodeId) :=
  a.nodes.toList.map fun node => (a.children? node.kind).getD []

end Arena

/-- The layout of the skeleton of an expression with the given parameters, from which
the given values were taken out. -/
structure Lambda.Normal (e : Lambda) (params : List Param) (values : List Value) : Prop where
  /-- Each value has a parameter of its type, named by its number. -/
  signature : e.params = params ++ values.mapIdx fun i v => ⟨"$" ++ toString i, v.ty⟩
  noConst : ∀ id node, e.arena.get? id = some node → node.kind.const? = none
  rootLast : e.root + 1 = e.arena.size
  /-- Child lists are in the table, and children come before their parent. -/
  valid : ∀ id, id < e.arena.size → e.arena.ValidAt id
  reached : ∀ id, id < e.arena.size → e.arena.Reaches e.root id
  /-- Apart from the root, each node is a child of one node, and at one position. -/
  once : ∀ id, id < e.arena.size → id ≠ e.root →
    ∃ parent k, e.arena.locate? parent [k] = some id ∧
      ∀ parent' k', e.arena.locate? parent' [k'] = some id → parent' = parent ∧ k' = k
  packed : Packed 0 e.arena.table.size e.arena.ranges
  /-- Of the parameters after the given ones each stands in one place, with the type of
  its value, and the places are in the order of the values. -/
  placeholders : (e.arena.paramNodes.filter fun p => params.length ≤ p.1)
    = values.mapIdx fun i v => (params.length + i, v.ty)

/-! ### The invariant of writing -/

namespace Arena

/-- What holds of an arena while forms are written into it, where `roots` are the
nodes that have no parent yet. -/
structure Tidy (a : Arena) (roots : List NodeId) : Prop where
  valid : ∀ id, id < a.size → a.ValidAt id
  linear : (a.childLists.flatten ++ roots).Perm (List.range a.size)
  packed : Packed 0 a.table.size a.ranges

variable {a b : Arena} {roots ids : List NodeId} {kind : Kind}

theorem tidy_empty : empty.Tidy [] where
  valid _ h := absurd h (Nat.not_lt_zero _)
  linear := .refl _
  packed := rfl

theorem Within.validAt (hab : a.Within b) {id : NodeId} (h : a.ValidAt id) : b.ValidAt id := by
  obtain ⟨node, ids, hnode, hids, hlt⟩ := h
  exact ⟨node, ids, hab.node id node hnode, hab.children? hids, hlt⟩

/-- The nodes of a valid arena keep their children in a larger one. -/
theorem childLists_push (hvalid : ∀ id, id < a.size → a.ValidAt id) (hab : a.Within b)
    (hnodes : b.nodes = a.nodes) (hids : b.children? kind = some ids) (ty : Ty) :
    (b.push kind ty).2.childLists = a.childLists ++ [ids] := by
  have hchildren (k : Kind) : (b.push kind ty).2.children? k = b.children? k := by
    cases k <;> rfl
  have hold : ∀ node ∈ a.nodes.toList, b.children? node.kind = a.children? node.kind := by
    intro node hmem
    obtain ⟨id, hid⟩ := List.mem_iff_getElem?.mp hmem
    have hget : a.get? id = some node := by simpa [get?] using hid
    have hlt : id < a.size := (Array.getElem?_eq_some_iff.mp hget).1
    obtain ⟨l, hl, -⟩ := (hvalid id hlt).children hget
    rw [hl, hab.children? hl]
  have hlist : (b.push kind ty).2.nodes.toList = a.nodes.toList ++ [⟨kind, ty⟩] := by
    simp [push, hnodes]
  rw [childLists, childLists, hlist, List.map_append]
  simp only [hchildren]
  congr 1
  · exact List.map_congr_left fun node hmem => by rw [hold node hmem]
  · simp [hids]

/-- One step: a new node takes its children from the nodes that wait and waits itself.
Its child list may have been appended before it, which `b` allows for. -/
theorem Tidy.grow (h : a.Tidy (roots ++ ids)) (hab : a.Within b) (hnodes : b.nodes = a.nodes)
    (hids : b.children? kind = some ids)
    (hpacked : Packed 0 b.table.size (a.ranges ++ kind.range?.toList)) (ty : Ty) :
    (b.push kind ty).2.Tidy (roots ++ [a.size]) := by
  have hsize : (b.push kind ty).2.size = a.size + 1 := by
    simp [push, size, hnodes]
  have hwithin : a.Within (b.push kind ty).2 := hab.trans (b.within_push kind ty)
  refine ⟨?_, ?_, ?_⟩
  · intro id hid
    rcases Nat.lt_or_ge id a.size with hlt | hge
    · exact hwithin.validAt (h.valid id hlt)
    · have hlast : id = a.size := by omega
      subst hlast
      have hget : (b.push kind ty).2.get? a.size = some ⟨kind, ty⟩ := by
        simp [push, get?, size, hnodes]
      refine ⟨_, ids, hget, (b.within_push kind ty).children? hids, fun c hc => ?_⟩
      -- whatever waits is in the arena
      have hmem : c ∈ a.childLists.flatten ++ (roots ++ ids) := by simp [hc]
      exact List.mem_range.mp (h.linear.mem_iff.mp hmem)
  · rw [childLists_push h.valid hab hnodes hids, hsize, List.range_succ, List.flatten_concat]
    have hswap : (a.childLists.flatten ++ ids ++ roots).Perm
        (a.childLists.flatten ++ (roots ++ ids)) := by
      rw [List.append_assoc]
      exact List.perm_append_comm.append_left _
    have happend := (hswap.trans h.linear).append_right [a.size]
    rwa [List.append_assoc] at happend
  · have hranges : (b.push kind ty).2.ranges = a.ranges ++ kind.range?.toList := by
      cases hr : kind.range? <;> simp [ranges, push, hnodes, hr]
    rwa [hranges]

theorem Tidy.push (h : a.Tidy (roots ++ ids)) (hkind : kind.range? = none)
    (hids : a.children? kind = some ids) (ty : Ty) :
    (a.push kind ty).2.Tidy (roots ++ [a.size]) := by
  refine h.grow (.refl a) rfl hids ?_ ty
  rw [hkind]
  simpa using h.packed

theorem children?_of_range? {r : Range} (h : kind.range? = some r) :
    a.children? kind = a.list? r := by
  cases kind <;> cases h <;> rfl

theorem Tidy.pushOver {wrap : Range → Kind} (h : a.Tidy (roots ++ ids))
    (hwrap : ∀ r, (wrap r).range? = some r) (ty : Ty) :
    (a.pushOver ids wrap ty).2.Tidy (roots ++ [a.size]) := by
  refine h.grow (a.within_pushList ids) rfl ?_ ?_ ty
  · rw [children?_of_range? (hwrap _), list?_pushList]
  · rw [hwrap]
    have hsize : (a.pushList ids).2.table.size = a.table.size + ids.length := by
      simp [pushList]
    rw [hsize]
    exact h.packed.concat

end Arena

namespace Form

mutual

/-- To write a form adds its root to the nodes that wait. -/
theorem write_tidy : (f : Form Value) → {a : Arena} → {roots : List NodeId} → a.Tidy roots →
    (f.write a).2.Tidy (roots ++ [(f.write a).1])
  | const t _, _, roots, h | param t _, _, roots, h | localVar t _, _, roots, h => by
    rw [← List.append_nil roots] at h
    exact h.push rfl rfl t
  | unary t _ x, _, _, h => (write_tidy x h).push rfl rfl t
  | binary t _ l r, _, _, h | letIn t _ l r, _, _, h | index t l r, _, _, h => by
    -- both roots wait until the node takes them
    have hr := write_tidy r (write_tidy l h)
    rw [List.append_assoc] at hr
    exact hr.push rfl rfl t
  | ite t c x y, _, _, h => by
    have hy := write_tidy y (write_tidy x (write_tidy c h))
    rw [List.append_assoc, List.append_assoc] at hy
    exact hy.push rfl rfl t
  | list t xs, _, _, h | call t _ xs, _, _, h => (writeAll_tidy xs h).pushOver (fun _ => rfl) t

theorem writeAll_tidy : (fs : List (Form Value)) → {a : Arena} → {roots : List NodeId} →
    a.Tidy roots → (writeAll fs a).2.Tidy (roots ++ (writeAll fs a).1)
  | [], _, roots, h => by
    rw [← List.append_nil roots] at h
    exact h
  | x :: xs, _, _, h => by
    have hxs := writeAll_tidy xs (write_tidy x h)
    rw [List.append_assoc] at hxs
    exact hxs

end

/-- The root is written last. -/
theorem write_last (f : Form Value) (a : Arena) : (f.write a).1 + 1 = (f.write a).2.size := by
  cases f <;> simp [write, Arena.pushOver, Arena.push, Arena.size]

end Form

/-! ### One parent each -/

namespace Arena

variable {a : Arena} {id j root parent : NodeId} {k : Nat}

theorem locate?_singleton : a.locate? parent [k] = some id ↔
    ∃ ids, a.childLists[parent]? = some ids ∧ ids[k]? = some id := by
  simp only [locate?, childLists, get?, List.getElem?_map, Array.getElem?_toList,
    Option.bind_eq_bind]
  cases a.nodes[parent]? with
  | none => simp
  | some node => cases hids : a.children? node.kind <;> simp [hids]

/-- In lists that hold nothing twice, an item tells the list and the position. -/
theorem getElem?_flatten_inj {α : Type} {ls : List (List α)} (h : ls.flatten.Nodup) {i j k m : Nat}
    {xs ys : List α} {x : α} (hi : ls[i]? = some xs) (hk : xs[k]? = some x)
    (hj : ls[j]? = some ys) (hm : ys[m]? = some x) : i = j ∧ k = m := by
  obtain ⟨hown, hother⟩ := List.pairwise_flatten.mp h
  have hapart : ∀ {i j : Nat} {xs ys : List α}, ls[i]? = some xs → ls[j]? = some ys → i < j →
      ∀ x, x ∈ xs → x ∈ ys → False := by
    intro i j xs ys hi hj hlt x hx hy
    obtain ⟨hi', rfl⟩ := List.getElem?_eq_some_iff.mp hi
    obtain ⟨hj', rfl⟩ := List.getElem?_eq_some_iff.mp hj
    exact List.pairwise_iff_getElem.mp hother i j hi' hj' hlt x hx x hy rfl
  have hx := List.mem_of_getElem? hk
  have hy := List.mem_of_getElem? hm
  rcases Nat.lt_trichotomy i j with hlt | rfl | hgt
  · exact (hapart hi hj hlt x hx hy).elim
  · cases hi.symm.trans hj
    have hlt : k < xs.length := (List.getElem?_eq_some_iff.mp hk).1
    have hnodup : xs.Nodup := hown xs (List.mem_of_getElem? hi)
    exact ⟨rfl, (List.getElem?_inj hlt hnodup).mp (hk.trans hm.symm)⟩
  · exact (hapart hj hi hgt x hy hx).elim

theorem Reaches.trans (hij : a.Reaches root id) (hjk : a.Reaches id j) : a.Reaches root j := by
  induction hij with
  | refl id => exact hjk
  | step hnode hids hc _ ih => exact .step hnode hids hc (ih hjk)

/-- Once a single node waits, each of the others has one parent. -/
theorem Tidy.exists_parent (h : a.Tidy [root]) (hid : id < a.size) (hne : id ≠ root) :
    ∃ parent k, a.locate? parent [k] = some id ∧
      ∀ parent' k', a.locate? parent' [k'] = some id → parent' = parent ∧ k' = k := by
  have hmem : id ∈ a.childLists.flatten := by
    have hall := h.linear.mem_iff.mpr (List.mem_range.mpr hid)
    simpa [hne] using hall
  obtain ⟨ids, hids, hc⟩ := List.mem_flatten.mp hmem
  obtain ⟨parent, hparent⟩ := List.mem_iff_getElem?.mp hids
  obtain ⟨k, hk⟩ := List.mem_iff_getElem?.mp hc
  refine ⟨parent, k, locate?_singleton.mpr ⟨ids, hparent, hk⟩, fun parent' k' h' => ?_⟩
  obtain ⟨ids', hparent', hk'⟩ := locate?_singleton.mp h'
  have hnodup : (a.childLists.flatten ++ [root]).Nodup := h.linear.nodup_iff.mpr List.nodup_range
  exact getElem?_flatten_inj (List.nodup_append.mp hnodup).1 hparent' hk' hparent hk

/-- If it is the last one too, it reaches all others. -/
theorem Tidy.reaches (h : a.Tidy [root]) (hlast : root + 1 = a.size) (hid : id < a.size) :
    a.Reaches root id := by
  -- from a node to its parent, which comes after it
  induction hgap : a.size - id using Nat.strongRecOn generalizing id with
  | ind gap ih =>
    by_cases hne : id = root
    · subst hne
      exact .refl _
    · obtain ⟨parent, k, hk, -⟩ := h.exists_parent hid hne
      obtain ⟨node, ids, c, hnode, hids, hc, hcid⟩ := locate?_cons_eq_some hk
      cases hcid
      have hparent : parent < a.size := (Array.getElem?_eq_some_iff.mp hnode).1
      obtain ⟨ids', hids', hlt⟩ := (h.valid parent hparent).children hnode
      cases hids.symm.trans hids'
      have hmem : id ∈ ids := List.mem_of_getElem? hc
      have hgap' : a.size - parent < gap := hgap ▸ Nat.sub_lt_sub_left hid (hlt id hmem)
      have hup := ih (a.size - parent) hgap' hparent rfl
      exact hup.trans (.step hnode hids hmem (.refl _))

end Arena

/-! ### Placeholders -/

namespace Form

variable {β : Type} {g : Node → Option β} {arity : Nat}

theorem filterMap_push (a : Arena) (kind : Kind) (ty : Ty) :
    (a.push kind ty).2.nodes.toList.filterMap g
      = a.nodes.toList.filterMap g ++ (g ⟨kind, ty⟩).toList := by
  cases h : g ⟨kind, ty⟩ <;> simp [Arena.push, h]

theorem filterMap_push_none (a : Arena) {kind : Kind} {ty : Ty} (h : g ⟨kind, ty⟩ = none) :
    (a.push kind ty).2.nodes.toList.filterMap g = a.nodes.toList.filterMap g := by
  rw [filterMap_push, h, Option.toList_none, List.append_nil]

mutual

/-- If `g` picks no nodes but constants and parameters after the declared ones, it
picks of what is written for a form the placeholders of its constants, in order. -/
theorem filterMap_write_hole
    (hg : ∀ node, node.kind.const? = none → (∀ i, node.kind = .param i → i < arity) →
      g node = none) :
    (f : Form Value) → {scope : List Nat} → f.Proper arity scope → (next : Nat) → (a : Arena) →
    ((f.hole next : Form Value).write a).2.nodes.toList.filterMap g
      = a.nodes.toList.filterMap g
        ++ (f.consts.zipIdx next).filterMap fun x => g ⟨.param x.2, x.1.ty⟩
  | const t v, _, hf, next, a => by
    cases (show v.ty = t from hf)
    rw [hole, write, filterMap_push]
    cases h : g ⟨.param next, v.ty⟩ <;> simp [consts, h]
  | param t i, _, hf, next, a => by
    have hdeclared : ∀ j, Kind.param i = .param j → j < arity := by
      rintro j ⟨⟩
      exact hf
    rw [hole, write, filterMap_push_none a (hg _ rfl hdeclared)]
    simp [consts]
  | localVar t slot, _, _, next, a => by
    rw [hole, write, filterMap_push_none a (hg _ rfl (by simp))]
    simp [consts]
  | unary t op x, _, hf, next, a => by
    simp only [hole, write]
    rw [filterMap_push_none _ (hg _ rfl (by simp)), filterMap_write_hole hg x hf, consts]
  | binary _ _ l r, _, hf, next, a | letIn _ _ l r, _, hf, next, a
  | index _ l r, _, hf, next, a => by
    simp only [hole, write]
    rw [filterMap_push_none _ (hg _ rfl (by simp)), filterMap_write_hole hg r hf.2,
      filterMap_write_hole hg l hf.1]
    simp [consts, List.zipIdx_append]
  | ite t c x y, _, hf, next, a => by
    simp only [hole, write]
    rw [filterMap_push_none _ (hg _ rfl (by simp)), filterMap_write_hole hg y hf.2.2,
      filterMap_write_hole hg x hf.2.1, filterMap_write_hole hg c hf.1]
    simp [consts, List.zipIdx_append]
  | list _ xs, _, hf, next, a | call _ _ xs, _, hf, next, a => by
    simp only [hole, write, Arena.pushOver]
    rw [filterMap_push_none _ (hg _ rfl (by simp)), consts]
    exact filterMap_writeAll_holeAll hg xs hf next a

theorem filterMap_writeAll_holeAll
    (hg : ∀ node, node.kind.const? = none → (∀ i, node.kind = .param i → i < arity) →
      g node = none) :
    (fs : List (Form Value)) → {scope : List Nat} → AllProper arity scope fs → (next : Nat) →
    (a : Arena) → (writeAll (holeAll next fs) a).2.nodes.toList.filterMap g
      = a.nodes.toList.filterMap g
        ++ ((constsAll fs).zipIdx next).filterMap fun x => g ⟨.param x.2, x.1.ty⟩
  | [], _, _, _, _ => by simp [holeAll, writeAll, constsAll]
  | x :: xs, _, hf, next, a => by
    simp only [holeAll, writeAll]
    rw [filterMap_writeAll_holeAll hg xs hf.2, filterMap_write_hole hg x hf.1]
    simp [constsAll, List.zipIdx_append]

end

variable {f : Form Value} {params : List Param}

theorem const?_skeleton (hf : f.Proper params.length []) {id : NodeId} {node : Node}
    (hnode : (f.skeleton params).arena.get? id = some node) : node.kind.const? = none := by
  have hnil : (f.skeleton params).arena.nodes.toList.filterMap (fun n => n.kind.const?) = [] := by
    refine (filterMap_write_hole (fun _ hconst _ => hconst) f hf params.length .empty).trans ?_
    simp [Arena.empty, Kind.const?]
  refine List.filterMap_eq_nil_iff.mp hnil node ?_
  exact Array.mem_toList_iff.mpr (Array.mem_of_getElem? hnode)

theorem paramNodes_skeleton (hf : f.Proper params.length []) :
    ((f.skeleton params).arena.paramNodes.filter fun p => params.length ≤ p.1)
      = f.consts.mapIdx fun i v => (params.length + i, v.ty) := by
  rw [Arena.paramNodes, List.filter_filterMap]
  refine (filterMap_write_hole ?_ f hf params.length .empty).trans ?_
  · rintro ⟨kind, ty⟩ hconst hparam
    cases kind with
    | const v => cases hconst
    | param i =>
      have hi : i < params.length := hparam i rfl
      simp [Option.filter, Nat.not_le.mpr hi]
    | _ => rfl
  · rw [List.zipIdx_eq_map_add, List.filterMap_map, List.mapIdx_eq_zipIdx_map,
      ← List.filterMap_eq_map]
    refine (List.nil_append _).trans (congrArg (List.filterMap · f.consts.zipIdx) ?_)
    funext ⟨v, i⟩
    simp [Option.filter]

end Form

theorem placeholders_eq (first : Nat) (vs : List Value) :
    placeholders first vs = vs.mapIdx fun i v => ⟨"$" ++ toString (first + i), v.ty⟩ := by
  induction vs generalizing first with
  | nil => rfl
  | cons v vs ih =>
    rw [placeholders, ih, List.mapIdx_cons]
    simp only [Nat.add_zero, Nat.add_assoc, Nat.add_comm 1]

namespace Lambda

/-- The skeleton of an expression is in normal form: without constants, without
sharing, with children before parents and child lists packed, and with one
placeholder for each value that was taken out. -/
theorem extract_normal {e : Lambda} {x : Extracted} (h : e.extract = .ok x) :
    x.skeleton.arity = e.arity + x.values.length ∧ x.skeleton.Normal e.params x.values := by
  obtain ⟨f, hf, rfl⟩ := extract_ok h
  have htidy : (f.skeleton e.params).arena.Tidy [(f.skeleton e.params).root] :=
    (f.hole e.params.length).write_tidy Arena.tidy_empty
  have hlast : (f.skeleton e.params).root + 1 = (f.skeleton e.params).arena.size :=
    (f.hole e.params.length).write_last .empty
  have hparams : (f.skeleton e.params).params
      = e.params ++ f.consts.mapIdx fun i v => ⟨"$" ++ toString i, v.ty⟩ := by
    show e.params ++ placeholders 0 f.consts = _
    simp [placeholders_eq]
  refine ⟨arity_skeleton e f, hparams, ?_, hlast, htidy.valid, ?_, ?_, htidy.packed, ?_⟩
  · intro id node hnode
    exact Form.const?_skeleton hf.proper hnode
  · intro id hid
    exact htidy.reaches hlast hid
  · intro id hid hne
    exact htidy.exists_parent hid hne
  · exact Form.paramNodes_skeleton hf.proper

/-- All three twos of `twos` are one node, and of its child lists the one that is
written first stands last in the table. -/
theorem extract_normal_twos : ∃ x, twos.extract = .ok x ∧
    x.skeleton.arena.size = 9 ∧
    x.skeleton.arena.ranges = [⟨0, 2⟩, ⟨2, 2⟩] ∧ twos.arena.ranges = [⟨2, 2⟩, ⟨0, 2⟩] ∧
    x.skeleton.arena.paramNodes = [(0, .int), (1, .int), (2, .int), (0, .int), (3, .int)] ∧
    x.skeleton.Normal twos.params [.int 2, .int 2, .int 2] := by
  obtain ⟨-, hnormal⟩ := extract_normal (e := twos) rfl
  exact ⟨_, rfl, rfl, rfl, rfl, rfl, hnormal⟩

end Lambda

end Stencil
