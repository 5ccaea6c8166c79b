import Stencil.Proofs.Acceptance
import Stencil.Proofs.Soundness

/-!
# What a call does to its frame

Lowered code finds its variables by number: a parameter at a place of the argument
vector, a slot in a cell of the frame. Nothing at run time says that the number is
right, nor that the cell has been filled. `Code.record` runs code as `Code.run` does
(`Code.tracks_record`) and keeps a record of what is read and stored, by whom, and in
which order; the record stays if the run fails half way.

The parts of code stand where the nodes that they come from stand in the expression,
so an address names both. Every read on the record of a call is then found to be
right (`Lambda.lower_reads_innermost`): an argument is read within the vector, and a
cell at a reference to a slot, after it was filled by the innermost `let` around the
reference that binds the slot. No other `let` comes in between, neither another node
nor another use of the same node.

The proof is one induction over the form that is lowered (`Form.record_emit`). Code
may fill the cells from some number on only, and only at addresses below its own
(`Grows`). The cells of the slots in scope are numbered below, and their `let`s stand
above, so what these have stored is still the latest (`InForce.grows`).
-/

namespace Stencil

/-! ### Keeping a record -/

/-- What code does to its frame, with the address of the code: it reads a place of the
argument vector, or it fills or reads a cell. -/
inductive Access where
  | arg (place : Address) (position : Nat) (value : Value)
  | store (place : Address) (cell : Nat) (value : Value)
  | read (place : Address) (cell : Nat) (value : Value)
deriving DecidableEq

namespace Access

def place : Access → Address
  | arg p _ _ | store p _ _ | read p _ _ => p

/-- The access fills the cell. -/
def fills (cell : Nat) : Access → Bool
  | store _ i _ => decide (i = cell)
  | _ => false

/-- With the access the `let` at the address stores its value. -/
def storedBy (q : Address) : Access → Bool
  | store p _ _ => decide (p = q)
  | _ => false

end Access

/-- The cells of a call and what it did so far, the latest first. -/
structure Frame where
  cells : Array Value
  log : List Access

/-- A computation on a frame; what it did stays on record if it fails. -/
def Recorded (α : Type) : Type := Frame → Except Stop α × Frame

namespace Recorded

instance : Monad Recorded where
  pure a := fun frame => (.ok a, frame)
  bind x k := fun frame =>
    match x frame with
    | (.ok a, frame) => k a frame
    | (.error stop, frame) => (.error stop, frame)

section

variable {α β : Type} {x : Recorded α} {k : α → Recorded β} {frame frame' : Frame}

theorem bind_of_ok {a : α} (h : x frame = (.ok a, frame')) : (x >>= k) frame = k a frame' := by
  simp only [bind, h]

theorem bind_of_error {stop : Stop} (h : x frame = (.error stop, frame')) :
    (x >>= k) frame = (.error stop, frame') := by
  simp only [bind, h]

end

/-- A computation that leaves the frame alone. -/
def lift {α : Type} (r : Except Stop α) : Recorded α := fun frame => (r, frame)

/-- Reads a place of the argument vector. -/
def readArg (args : Array Value) (p : Address) (i : Nat) : Recorded Value := fun frame =>
  match args[i]? with
  | some v => (.ok v, { frame with log := .arg p i v :: frame.log })
  | none => (.error .outOfBounds, frame)

def readCell (p : Address) (i : Nat) : Recorded Value := fun frame =>
  match frame.cells[i]? with
  | some v => (.ok v, { frame with log := .read p i v :: frame.log })
  | none => (.error .outOfBounds, frame)

def fillCell (p : Address) (i : Nat) (v : Value) : Recorded Unit := fun frame =>
  if i < frame.cells.size then
    (.ok (), ⟨frame.cells.setIfInBounds i v, .store p i v :: frame.log⟩)
  else (.error .outOfBounds, frame)

end Recorded

namespace Code

open Recorded

mutual

/-- Runs the code that stands at an address and keeps a record. -/
def record (args : Array Value) : Code → Address → Recorded Value
  | const v, _ => pure v
  | arg i, p => readArg args p i
  | cell i, p => readCell p i
  | unary op x, p => do
    let v ← x.record args (p ++ [0])
    lift (Stop.lift (op.apply v))
  | binary op l r, p => do
    let v ← l.record args (p ++ [0])
    let w ← r.record args (p ++ [1])
    lift (Stop.lift (op.apply v w))
  | and l r, p => do
    let v ← l.record args (p ++ [0])
    if v = .bool true then r.record args (p ++ [1]) else pure v
  | or l r, p => do
    let v ← l.record args (p ++ [0])
    if v = .bool false then r.record args (p ++ [1]) else pure v
  | ite c t e, p => do
    match ← c.record args (p ++ [0]) with
    | .bool true => t.record args (p ++ [1])
    | .bool false => e.record args (p ++ [2])
    | other => lift (.error (.error (.typeMismatch .bool other.ty)))
  | store i init body, p => do
    let v ← init.record args (p ++ [0])
    fillCell p i v
    body.record args (p ++ [1])
  | list elem xs, p => do
    let vs ← recordAll args xs p 0
    return .list elem vs
  | index r i, p => do
    let v ← r.record args (p ++ [0])
    let w ← i.record args (p ++ [1])
    lift (Stop.lift (v.index w))
  | call f xs, p => do
    let vs ← recordAll args xs p 0
    lift (Stop.lift (f.apply vs))

/-- The children of a list or a call at an address, from the `k`th on. -/
def recordAll (args : Array Value) : List Code → Address → (k : Nat) → Recorded (List Value)
  | [], _, _ => pure []
  | x :: xs, p, k => do
    let v ← x.record args (p ++ [k])
    let vs ← recordAll args xs p (k + 1)
    return v :: vs

end

end Code

/-- A call with its record, the latest access first. -/
def Artifact.record (art : Artifact) (args : List Value) : Except Stop Value × List Access :=
  match checkArgs art.paramTypes args with
  | .error cause => (.error (.error cause), [])
  | .ok _ =>
    let (result, frame) := art.code.record args.toArray [] ⟨Array.replicate art.cells .unit, []⟩
    (result, frame.log)

/-! ### The record is that of the run -/

/-- The computation without its record. -/
def Recorded.erase {α : Type} : Except Stop α × Frame → Except Stop (α × Array Value)
  | (.ok a, frame) => .ok (a, frame.cells)
  | (.error stop, _) => .error stop

/-- The recorded computation does what the other does to the cells. -/
def Tracks {α : Type} (x : Recorded α) (y : Array Value → Except Stop (α × Array Value)) : Prop :=
  ∀ frame, Recorded.erase (x frame) = y frame.cells

namespace Tracks

variable {α β : Type}

theorem pure (a : α) : Tracks (Pure.pure a) fun cells => .ok (a, cells) := fun _ => rfl

theorem lift (r : Except Stop α) :
    Tracks (Recorded.lift r) fun cells => r >>= fun a => Pure.pure (a, cells) := by
  intro frame
  cases r <;> rfl

theorem bind {x : Recorded α} {y : Array Value → Except Stop (α × Array Value)}
    {k : α → Recorded β} {k' : α × Array Value → Except Stop (β × Array Value)} (hx : Tracks x y)
    (hk : ∀ a, Tracks (k a) fun cells => k' (a, cells)) :
    Tracks (x >>= k) fun cells => y cells >>= k' := by
  intro frame
  show Recorded.erase ((x >>= k) frame) = y frame.cells >>= k'
  have hframe := hx frame
  rcases hout : x frame with ⟨stop | a, frame'⟩
  · rw [Recorded.bind_of_error hout, ← hframe, hout]
    rfl
  · rw [Recorded.bind_of_ok hout, ← hframe, hout]
    exact hk a frame'

end Tracks

namespace Code

variable {args : Array Value}

theorem tracks_readArg (p : Address) (i : Nat) :
    Tracks (Recorded.readArg args p i) ((arg i).run args) := by
  intro frame
  rw [Recorded.readArg, run]
  cases args[i]? <;> rfl

theorem tracks_readCell (p : Address) (i : Nat) :
    Tracks (Recorded.readCell p i) ((cell i).run args) := by
  intro frame
  rw [Recorded.readCell, run]
  cases frame.cells[i]? <;> rfl

mutual

/-- A recorded run is a run. -/
theorem tracks_record : (code : Code) → (p : Address) →
    Tracks (code.record args p) (code.run args)
  | const v, _ => .pure v
  | arg i, p => tracks_readArg p i
  | cell i, p => tracks_readCell p i
  | unary op x, p => (tracks_record x _).bind fun _ => .lift _
  | binary op l r, p => (tracks_record l _).bind fun _ => (tracks_record r _).bind fun _ => .lift _
  | and l r, p => by
    refine (tracks_record l _).bind fun v => ?_
    by_cases hv : v = .bool true
    · simp only [if_pos hv]
      exact tracks_record r _
    · simp only [if_neg hv]
      exact .pure v
  | or l r, p => by
    refine (tracks_record l _).bind fun v => ?_
    by_cases hv : v = .bool false
    · simp only [if_pos hv]
      exact tracks_record r _
    · simp only [if_neg hv]
      exact .pure v
  | ite c t e, p => by
    refine (tracks_record c _).bind fun v => ?_
    cases v with
    | bool b =>
      cases b with
      | true => exact tracks_record t _
      | false => exact tracks_record e _
    | _ => exact fun _ => rfl
  | store i init body, p => by
    refine (tracks_record init _).bind fun v => ?_
    intro frame
    show Recorded.erase
      ((Recorded.fillCell p i v >>= fun _ => body.record args (p ++ [1])) frame) = _
    by_cases hi : i < frame.cells.size
    · simp only [if_pos hi]
      rw [← tracks_record body (p ++ [1]) ⟨_, .store p i v :: frame.log⟩]
      simp only [bind, Recorded.fillCell, if_pos hi]
    · simp only [if_neg hi, bind, Recorded.fillCell]
      rfl
  | list elem xs, p => (tracks_recordAll xs p 0).bind fun _ => .pure _
  | index r i, p => (tracks_record r _).bind fun _ => (tracks_record i _).bind fun _ => .lift _
  | call f xs, p => (tracks_recordAll xs p 0).bind fun _ => .lift _

theorem tracks_recordAll : (codes : List Code) → (p : Address) → (k : Nat) →
    Tracks (recordAll args codes p k) (runAll args codes)
  | [], _, _ => .pure []
  | x :: xs, p, k =>
    (tracks_record x _).bind fun _ => (tracks_recordAll xs p (k + 1)).bind fun _ => .pure _

end

end Code

/-- A recorded call returns what the call returns. -/
theorem Artifact.record_fst (art : Artifact) (args : List Value) :
    (art.record args).1 = art.call args := by
  rw [record, call]
  cases checkArgs art.paramTypes args with
  | error cause => rfl
  | ok _ =>
    have h : Recorded.erase (art.code.record args.toArray [] ⟨Array.replicate art.cells .unit, []⟩)
        = art.code.run args.toArray (Array.replicate art.cells .unit) :=
      art.code.tracks_record [] _
    show (art.code.record args.toArray [] ⟨Array.replicate art.cells .unit, []⟩).1
      = (art.code.run args.toArray (Array.replicate art.cells .unit) >>= fun p => pure p.1)
    rw [← h]
    rcases art.code.record args.toArray [] ⟨Array.replicate art.cells .unit, []⟩ with
      ⟨stop | v, frame⟩ <;> rfl

/-! ### Labels by address -/

/-- The label at an address of an outline. -/
def Outline.labelAt? : Address → Outline → Option Label
  | [], .node label _ _ => some label
  | k :: p, .node _ _ children => do (← children[k]?).labelAt? p

/-- The label of the node at an address below a node. -/
def Arena.labelAt? (a : Arena) (id : NodeId) (p : Address) : Option Label := do
  let j ← a.locate? id p
  let node ← a.get? j
  return node.kind.label

def Lambda.labelAt? (e : Lambda) (p : Address) : Option Label := e.arena.labelAt? e.root p

/-- An outline has the labels of the nodes. -/
theorem Arena.labelAt?_eq {a : Arena} {id : NodeId} {o : Outline} (h : a.outline? id = some o)
    (p : Address) : a.labelAt? id p = o.labelAt? p := by
  induction p generalizing id o with
  | nil =>
    obtain ⟨node, ids, os, hnode, -, -, rfl⟩ := exists_of_outline? h
    simp [labelAt?, locate?, hnode, Outline.labelAt?]
  | cons k p ih =>
    obtain ⟨node, ids, os, hnode, hids, hos, rfl⟩ := exists_of_outline? h
    rcases getElem?_mapM hos k with ⟨hk, hk'⟩ | ⟨c, o, hk, hk', ho⟩
    · simp [labelAt?, locate?, hnode, hids, hk, Outline.labelAt?, hk']
    · by_cases hlt : c < id
      · rw [if_pos hlt] at ho
        have hchild : a.labelAt? id (k :: p) = a.labelAt? c p := by
          simp [labelAt?, locate?, hnode, hids, hk]
        rw [hchild, ih ho, Outline.labelAt?, hk']
        rfl
      · rw [if_neg hlt] at ho
        cases ho

namespace Form

variable {labels : Address → Option Label} {p : Address}

/-- From the address on, the labels are those of the form. -/
def Labelled (labels : Address → Option Label) (p : Address) (f : Form Value) : Prop :=
  ∀ q, labels (p ++ q) = f.outline.labelAt? q

theorem Labelled.own {f : Form Value} (h : f.Labelled labels p) :
    labels p = f.outline.labelAt? [] := by
  simpa using h []

theorem Labelled.child {f g : Form Value} {label : Label} {t : Ty} {os : List Outline} {k : Nat}
    (h : f.Labelled labels p) (hf : f.outline = .node label t os)
    (hg : os[k]? = some g.outline) : g.Labelled labels (p ++ [k]) := by
  intro q
  rw [List.append_assoc, List.singleton_append, h, hf, Outline.labelAt?, hg]
  rfl

theorem getElem?_outlines (fs : List (Form Value)) (k : Nat) :
    (outlines fs)[k]? = fs[k]?.map outline := by
  induction fs generalizing k with
  | nil => rfl
  | cons f fs ih =>
    cases k with
    | zero => rfl
    | succ k => exact ih k

theorem Labelled.items {f : Form Value} {label : Label} {t : Ty} {fs : List (Form Value)}
    (h : f.Labelled labels p) (hf : f.outline = .node label t (outlines fs)) (j : Nat)
    (g : Form Value) (hg : fs[j]? = some g) : g.Labelled labels (p ++ [0 + j]) := by
  rw [Nat.zero_add]
  exact h.child hf (by rw [getElem?_outlines, hg, Option.map_some])

end Form

/-! ### What is in force -/

/-- The `let` at `q` is the innermost one around the address `p` that binds the slot
there. -/
structure Innermost (labels : Address → Option Label) (p : Address) (slot : Nat) (q : Address) :
    Prop where
  around : q ++ [1] <+: p
  binds : labels q = some (.letIn slot)
  deepest : ∀ q', q' ++ [1] <+: p → labels q' = some (.letIn slot) → q'.length ≤ q.length

namespace Innermost

variable {labels : Address → Option Label} {p q : Address} {slot k : Nat}

/-- A step down from a node that does not bind the slot changes nothing. -/
theorem step (h : Innermost labels p slot q) (hk : k = 1 → labels p ≠ some (.letIn slot)) :
    Innermost labels (p ++ [k]) slot q where
  around := h.around.trans (List.prefix_append p [k])
  binds := h.binds
  deepest := by
    intro q' hq' hlabel
    rcases List.prefix_concat_iff.mp hq' with heq | hq'
    · obtain ⟨rfl, hone⟩ := List.append_inj' heq rfl
      cases hone
      exact absurd hlabel (hk rfl)
    · exact h.deepest q' hq' hlabel

/-- In the body of a `let` this `let` is the innermost one. -/
theorem body (h : labels p = some (.letIn slot)) : Innermost labels (p ++ [1]) slot p where
  around := List.prefix_rfl
  binds := h
  deepest := by
    intro q' hq' _
    have hlen := hq'.length_le
    rw [List.length_append, List.length_append, List.length_singleton] at hlen
    omega

end Innermost

/-- The `let` at `q` was the last to fill the cell, and the value that it stored last
is the one in the cell. -/
structure Latest (q : Address) (i : Nat) (v : Value) (log : List Access) : Prop where
  inCell : log.find? (Access.fills i) = some (.store q i v)
  byOwner : log.find? (Access.storedBy q) = some (.store q i v)

/-- What is right about an access, given those before it. An argument is read within
the vector. A `let` fills a cell of the frame. A cell of the frame is read at a
reference to a slot, and gives the value that the innermost `let` of the slot stored
last. -/
def Access.Right (labels : Address → Option Label) (args : Array Value) (size : Nat)
    (before : List Access) : Access → Prop
  | arg p i v => (∃ index, labels p = some (.param index)) ∧ args[i]? = some v
  | store p i _ => (∃ slot, labels p = some (.letIn slot)) ∧ i < size
  | read p i v => i < size ∧ ∃ slot q, labels p = some (.localVar slot) ∧
      Innermost labels p slot q ∧ Latest q i v before

/-- The log has grown by accesses from the address or below, which fill cells from
`n` on only. -/
def Grows (n : Nat) (p : Address) (log log' : List Access) : Prop :=
  ∃ new, log' = new ++ log ∧
    ∀ access ∈ new, p <+: access.place ∧ ∀ i, access.fills i = true → n ≤ i

namespace Grows

variable {n : Nat} {p : Address} {log log' log'' : List Access}

theorem refl (n : Nat) (p : Address) (log : List Access) : Grows n p log log :=
  ⟨[], rfl, List.forall_mem_nil _⟩

theorem trans (h : Grows n p log log') (h' : Grows n p log' log'') : Grows n p log log'' := by
  obtain ⟨new, rfl, hnew⟩ := h
  obtain ⟨more, rfl, hmore⟩ := h'
  exact ⟨more ++ new, (List.append_assoc _ _ _).symm, List.forall_mem_append.mpr ⟨hmore, hnew⟩⟩

theorem under {m : Nat} {p' : Address} (h : Grows m p' log log') (hn : n ≤ m) (hp : p <+: p') :
    Grows n p log log' := by
  obtain ⟨new, rfl, hnew⟩ := h
  refine ⟨new, rfl, fun access hmem => ⟨hp.trans (hnew access hmem).1, fun i hi => ?_⟩⟩
  exact Nat.le_trans hn ((hnew access hmem).2 i hi)

/-- One more access, from the address itself. -/
theorem note {access : Access} (hplace : access.place = p)
    (hfills : ∀ i, access.fills i = true → n ≤ i) : Grows n p log (access :: log) :=
  ⟨[access], rfl, List.forall_mem_singleton.mpr ⟨hplace ▸ List.prefix_rfl, hfills⟩⟩

end Grows

/-- What was stored from above, in a cell with a lower number, stays the latest. -/
theorem Latest.grows {q p : Address} {i n : Nat} {v : Value} {log log' : List Access}
    (h : Latest q i v log) (hg : Grows n p log log') (hi : i < n) (hq : q ++ [1] <+: p) :
    Latest q i v log' := by
  obtain ⟨new, rfl, hnew⟩ := hg
  have hcell : new.find? (Access.fills i) = none := by
    refine List.find?_eq_none.mpr fun access hmem hfills => ?_
    have hle := (hnew access hmem).2 i hfills
    omega
  have howner : new.find? (Access.storedBy q) = none := by
    refine List.find?_eq_none.mpr fun access hmem hstored => ?_
    have hplace : access.place = q := by
      cases access with
      | store p _ _ => exact of_decide_eq_true hstored
      | _ => cases hstored
    have hlen := (hq.trans (hnew access hmem).1).length_le
    rw [hplace, List.length_append, List.length_singleton] at hlen
    omega
  refine ⟨?_, ?_⟩
  · rw [List.find?_append, hcell]
    exact h.inCell
  · rw [List.find?_append, howner]
    exact h.byOwner

/-- The cell of every slot in scope is numbered below `n`, and holds what the innermost
`let` of the slot stored last. -/
def InForce (labels : Address → Option Label) (p : Address) (scope : List Binding) (n : Nat)
    (log : List Access) : Prop :=
  ∀ slot b, (scope.find? fun b => b.slot = slot) = some b →
    b.cell < n ∧ ∃ q v, Innermost labels p slot q ∧ Latest q b.cell v log

namespace InForce

variable {labels : Address → Option Label} {p : Address} {scope : List Binding} {n : Nat}
  {log log' : List Access}

theorem nil (labels : Address → Option Label) (p : Address) (n : Nat) (log : List Access) :
    InForce labels p [] n log := by
  intro slot b hb
  cases hb

theorem mono {m : Nat} (h : InForce labels p scope n log) (hnm : n ≤ m) :
    InForce labels p scope m log := by
  intro slot b hb
  obtain ⟨hlt, hlatest⟩ := h slot b hb
  exact ⟨Nat.lt_of_lt_of_le hlt hnm, hlatest⟩

theorem grows (h : InForce labels p scope n log) (hg : Grows n p log log') :
    InForce labels p scope n log' := by
  intro slot b hb
  obtain ⟨hlt, q, v, hq, hlatest⟩ := h slot b hb
  exact ⟨hlt, q, v, hq, hlatest.grows hg hlt hq.around⟩

/-- The step from a `let` to its initialiser. -/
theorem init (h : InForce labels p scope n log) : InForce labels (p ++ [0]) scope n log := by
  intro slot b hb
  obtain ⟨hlt, q, v, hq, hlatest⟩ := h slot b hb
  exact ⟨hlt, q, v, hq.step nofun, hlatest⟩

/-- A step down from any other node. -/
theorem step {label : Label} (h : InForce labels p scope n log) (hlabel : labels p = some label)
    (hlet : ∀ slot, label ≠ .letIn slot) (k : Nat) : InForce labels (p ++ [k]) scope n log := by
  intro slot b hb
  obtain ⟨hlt, q, v, hq, hlatest⟩ := h slot b hb
  refine ⟨hlt, q, v, hq.step fun _ hslot => ?_, hlatest⟩
  exact hlet slot (Option.some.inj (hlabel.symm.trans hslot))

/-- The step from a `let` to its body, once the next cell is filled. -/
theorem body {slot : Nat} (h : InForce labels p scope n log)
    (hlabel : labels p = some (.letIn slot)) (t : Ty) (v : Value) :
    InForce labels (p ++ [1]) (⟨slot, n, t⟩ :: scope) (n + 1) (.store p n v :: log) := by
  have hg : Grows n p log (.store p n v :: log) := by
    refine .note rfl fun i hi => ?_
    exact Nat.le_of_eq (of_decide_eq_true hi)
  intro s b hb
  by_cases hs : slot = s
  · subst hs
    simp only [List.find?_cons, decide_true, Option.some.injEq] at hb
    subst hb
    have hlatest : Latest p n v (.store p n v :: log) :=
      ⟨by simp [Access.fills], by simp [Access.storedBy]⟩
    exact ⟨Nat.lt_succ_self n, p, v, .body hlabel, hlatest⟩
  · have hrest : (scope.find? fun b => b.slot = s) = some b := by simpa [hs] using hb
    obtain ⟨hlt, q, w, hq, hlatest⟩ := h.grows hg s b hrest
    refine ⟨Nat.lt_succ_of_lt hlt, q, w, hq.step fun _ hother => ?_, hlatest⟩
    rw [hlabel] at hother
    cases hother
    exact hs rfl

end InForce

/-! ### Running emitted code -/

section

variable {labels : Address → Option Label} {args : Array Value} {size : Nat}

/-- Every access on record is right, and the cells hold what was stored in them last. -/
structure Frame.Sound (labels : Address → Option Label) (args : Array Value) (size : Nat)
    (frame : Frame) : Prop where
  cells : frame.cells.size = size
  holds : ∀ i q v, frame.log.find? (Access.fills i) = some (.store q i v) →
    frame.cells[i]? = some v
  right : ∀ after access before, frame.log = after ++ access :: before →
    access.Right labels args size before

namespace Frame.Sound

variable {frame : Frame} {p : Address} {i : Nat} {v : Value}

theorem right_cons (h : frame.Sound labels args size) {access : Access}
    (haccess : access.Right labels args size frame.log) {after : List Access} {other : Access}
    {before : List Access} (hlog : access :: frame.log = after ++ other :: before) :
    other.Right labels args size before := by
  cases after with
  | nil =>
    cases hlog
    exact haccess
  | cons _ after => exact h.right after other before (List.cons.inj hlog).2

/-- Noting an access that fills no cell. -/
theorem note (h : frame.Sound labels args size) {access : Access}
    (hfills : ∀ i, access.fills i = false) (haccess : access.Right labels args size frame.log) :
    Frame.Sound labels args size { frame with log := access :: frame.log } where
  cells := h.cells
  holds := by
    intro i q v hfind
    rw [List.find?_cons, hfills i] at hfind
    exact h.holds i q v hfind
  right _ _ _ := h.right_cons haccess

theorem fill (h : frame.Sound labels args size) (hi : i < size)
    (haccess : Access.Right labels args size frame.log (.store p i v)) :
    Frame.Sound labels args size
      ⟨frame.cells.setIfInBounds i v, .store p i v :: frame.log⟩ where
  cells := Array.size_setIfInBounds.trans h.cells
  holds := by
    intro j q w hfind
    rw [Array.getElem?_setIfInBounds]
    by_cases hij : i = j
    · subst hij
      simp only [List.find?_cons, Access.fills, decide_true, Option.some.injEq,
        Access.store.injEq] at hfind
      rw [if_pos rfl, if_pos (h.cells ▸ hi), hfind.2.2]
    · simp only [List.find?_cons, Access.fills, hij, decide_false] at hfind
      rw [if_neg hij]
      exact h.holds j q w hfind
  right _ _ _ := h.right_cons haccess

end Frame.Sound

/-- The computation ends within the language, makes accesses from the address or below
and fills cells from `n` on, and leaves a sound frame, even if it fails. -/
structure Behaves (labels : Address → Option Label) (args : Array Value) (size n : Nat)
    (p : Address) {α : Type} (x : Recorded α) (frame : Frame) : Prop where
  settles : Settles (x frame).1
  grows : Grows n p frame.log (x frame).2.log
  sound : (x frame).2.Sound labels args size

namespace Behaves

variable {α β : Type} {n : Nat} {p : Address} {frame : Frame}

theorem pure (a : α) (hs : frame.Sound labels args size) :
    Behaves labels args size n p (Pure.pure a) frame :=
  ⟨.ok a, .refl n p _, hs⟩

theorem lift {r : Except Stop α} (hr : Settles r) (hs : frame.Sound labels args size) :
    Behaves labels args size n p (Recorded.lift r) frame :=
  ⟨hr, .refl n p _, hs⟩

/-- What is done further down. -/
theorem under {k : Nat} {x : Recorded α} (h : Behaves labels args size n (p ++ [k]) x frame) :
    Behaves labels args size n p x frame :=
  ⟨h.settles, h.grows.under (Nat.le_refl n) (List.prefix_append p [k]), h.sound⟩

theorem mono {m : Nat} {x : Recorded α} (h : Behaves labels args size m p x frame) (hn : n ≤ m) :
    Behaves labels args size n p x frame :=
  ⟨h.settles, h.grows.under hn List.prefix_rfl, h.sound⟩

/-- What is done after a computation that is known. -/
theorem after {x : Recorded α} {k : α → Recorded β} {a : α} {frame' : Frame}
    (hx : x frame = (.ok a, frame')) (hg : Grows n p frame.log frame'.log)
    (hk : Behaves labels args size n p (k a) frame') :
    Behaves labels args size n p (x >>= k) frame := by
  have hout := Recorded.bind_of_ok (k := k) hx
  refine ⟨?_, ?_, ?_⟩
  · rw [hout]
    exact hk.settles
  · rw [hout]
    exact hg.trans hk.grows
  · rw [hout]
    exact hk.sound

theorem bind {x : Recorded α} {k : α → Recorded β} (hx : Behaves labels args size n p x frame)
    (hk : ∀ a frame', Grows n p frame.log frame'.log → frame'.Sound labels args size →
      Behaves labels args size n p (k a) frame') :
    Behaves labels args size n p (x >>= k) frame := by
  obtain ⟨hsettles, hg, hs⟩ := hx
  rcases hout : x frame with ⟨stop | a, frame'⟩
  · rw [hout] at hsettles hg hs
    have hstop := Recorded.bind_of_error (k := k) hout
    refine ⟨?_, by rw [hstop]; exact hg, by rw [hstop]; exact hs⟩
    rw [hstop]
    obtain ⟨r, hr⟩ := hsettles
    cases r with
    | ok a => cases hr
    | error cause =>
      cases hr
      exact .error cause
  · rw [hout] at hg hs
    exact after hout hg (hk a frame' hg hs)

end Behaves

end

namespace Form

variable {labels : Address → Option Label} {args : Array Value} {size : Nat} {c : Convention}

/-- The code of a binary operator, given that of its operands. -/
theorem record_lower {op : BinaryOp} {l r : Code} {n : Nat} {p : Address} {frame : Frame}
    (hl : Behaves labels args size n p (l.record args (p ++ [0])) frame)
    (hr : ∀ frame', Grows n p frame.log frame'.log → frame'.Sound labels args size →
      Behaves labels args size n p (r.record args (p ++ [1])) frame') :
    Behaves labels args size n p ((op.lower l r).record args p) frame := by
  cases op with
  | and | or =>
    refine hl.bind fun v frame' hg hs => ?_
    split
    · exact hr frame' hg hs
    · exact .pure v hs
  | _ =>
    refine hl.bind fun v frame' hg hs => ?_
    exact (hr frame' hg hs).bind fun w frame'' _ hs => .lift (.lift _) hs

mutual

/-- Emitted code makes the accesses that its form calls for, if the slots in scope are
in force and there are cells for the `let`s to come. -/
theorem record_emit (hplaced : ∀ i, i < c.params.size → ∃ v, args[c.position i]? = some v) :
    (f : Form Value) → {scope : List Binding} → {n : Nat} → {p : Address} → {frame : Frame} →
    f.WellTyped c.params.toList (slotTypes scope) → f.Labelled labels p →
    InForce labels p scope n frame.log → n + f.lets ≤ size → frame.Sound labels args size →
    Behaves labels args size n p ((f.emit c scope n).record args p) frame
  | const _ v, _, _, _, _, _, _, _, _, hs => .pure v hs
  | param _ i, _, n, p, frame, hf, hp, _, _, hs => by
    obtain ⟨v, hv⟩ := hplaced i (List.getElem?_eq_some_iff.mp hf).1
    have hout : (Code.arg (c.position i)).record args p frame
        = (.ok v, { frame with log := .arg p (c.position i) v :: frame.log }) := by
      simp only [Code.record, Recorded.readArg, hv]
    refine ⟨?_, ?_, ?_⟩ <;> rw [emit, hout]
    · exact .ok v
    · exact .note rfl nofun
    · exact hs.note (fun _ => rfl) ⟨⟨i, hp.own⟩, hv⟩
  | localVar _ slot, scope, n, p, frame, hf, hp, hin, hn, hs => by
    have hslot := hf
    rw [WellTyped, slotType_slotTypes, Option.map_eq_some_iff] at hslot
    obtain ⟨b, hb, -⟩ := hslot
    obtain ⟨hlt, q, v, hq, hlatest⟩ := hin slot b hb
    have hcell := hs.holds b.cell q v hlatest.inCell
    have hout : (Code.cell b.cell).record args p frame
        = (.ok v, { frame with log := .read p b.cell v :: frame.log }) := by
      simp only [Code.record, Recorded.readCell, hcell]
    refine ⟨?_, ?_, ?_⟩ <;>
      simp only [emit, hb, Option.map_some, Option.getD_some] <;> rw [hout]
    · exact .ok v
    · exact .note rfl nofun
    · have hsize : b.cell < size := by omega
      exact hs.note (fun _ => rfl) ⟨hsize, slot, q, hp.own, hq, hlatest⟩
  | unary _ op x, _, n, p, frame, hf, hp, hin, hn, hs => by
    have hx := record_emit hplaced x hf.1 (hp.child rfl rfl) (hin.step hp.own nofun 0) hn hs
    exact hx.under.bind fun v frame' _ hs => .lift (.lift _) hs
  | binary _ op l r, _, n, p, frame, hf, hp, hin, hn, hs => by
    simp only [lets] at hn
    have hl := record_emit hplaced l hf.1 (hp.child rfl rfl) (hin.step hp.own nofun 0) (by omega) hs
    refine record_lower hl.under fun frame' hg hs => ?_
    have hin' := ((hin.grows hg).mono (Nat.le_add_right n l.lets)).step hp.own nofun 1
    exact (record_emit hplaced r hf.2.1 (hp.child rfl rfl) hin' (by omega) hs).under.mono
      (Nat.le_add_right _ _)
  | ite _ b x y, _, n, p, frame, hf, hp, hin, hn, hs => by
    simp only [lets] at hn
    have hb := record_emit hplaced b hf.1 (hp.child rfl rfl) (hin.step hp.own nofun 0) (by omega) hs
    refine hb.under.bind fun v frame' hg hs => ?_
    have hinx := (hin.grows hg).mono (Nat.le_add_right n b.lets)
    have hiny := hinx.mono (Nat.le_add_right (n + b.lets) x.lets)
    have hx := record_emit hplaced x hf.2.1 (hp.child rfl rfl) (hinx.step hp.own nofun 1)
      (by omega) hs
    have hy := record_emit hplaced y hf.2.2.1 (hp.child rfl rfl) (hiny.step hp.own nofun 2)
      (by omega) hs
    split
    · exact hx.under.mono (by omega)
    · exact hy.under.mono (by omega)
    · exact .lift (.error _) hs
  | letIn _ slot i b, scope, n, p, frame, hf, hp, hin, hn, hs => by
    simp only [lets] at hn
    have hi := record_emit hplaced i hf.1 (hp.child rfl rfl) hin.init (by omega) hs
    refine hi.under.bind fun v frame' hg hs => ?_
    -- the cell of this `let` comes after those of the `let`s in its initialiser
    have hroom : n + i.lets < size := by omega
    have hfill : Recorded.fillCell p (n + i.lets) v frame'
        = (.ok (), ⟨frame'.cells.setIfInBounds (n + i.lets) v,
            .store p (n + i.lets) v :: frame'.log⟩) :=
      if_pos (hs.cells ▸ hroom)
    have hnote : Grows n p frame'.log (.store p (n + i.lets) v :: frame'.log) := by
      refine .note rfl fun j hj => ?_
      have hcell : n + i.lets = j := of_decide_eq_true hj
      omega
    refine .after hfill hnote ?_
    have hin' := ((hin.grows hg).mono (Nat.le_add_right n i.lets)).body hp.own i.ty v
    have hb : b.WellTyped c.params.toList (slotTypes (⟨slot, n + i.lets, i.ty⟩ :: scope)) := hf.2.1
    exact (record_emit hplaced b hb (hp.child rfl rfl) hin' (by omega)
      (hs.fill hroom ⟨⟨slot, hp.own⟩, hroom⟩)).under.mono (by omega)
  | list _ xs, _, n, p, frame, hf, hp, hin, hn, hs => by
    obtain ⟨elem, rfl, hxs, -⟩ := hf
    exact (record_emitAll hplaced xs hxs hp.own nofun (hp.items rfl) hin hn hs).bind
      fun vs frame' _ hs => .pure _ hs
  | index _ r i, _, n, p, frame, hf, hp, hin, hn, hs => by
    simp only [lets] at hn
    have hr := record_emit hplaced r hf.1 (hp.child rfl rfl) (hin.step hp.own nofun 0) (by omega) hs
    refine hr.under.bind fun v frame' hg hs => ?_
    have hin' := ((hin.grows hg).mono (Nat.le_add_right n r.lets)).step hp.own nofun 1
    have hi := record_emit hplaced i hf.2.1 (hp.child rfl rfl) hin' (by omega) hs
    exact (hi.under.mono (Nat.le_add_right _ _)).bind fun w frame'' _ hs => .lift (.lift _) hs
  | call _ b xs, _, n, p, frame, hf, hp, hin, hn, hs => by
    exact (record_emitAll hplaced xs hf.2.1 hp.own nofun (hp.items rfl) hin hn hs).bind
      fun vs frame' _ hs => .lift (.lift _) hs

theorem record_emitAll (hplaced : ∀ i, i < c.params.size → ∃ v, args[c.position i]? = some v) :
    (fs : List (Form Value)) → {scope : List Binding} → {n k : Nat} → {p : Address} →
    {frame : Frame} → {label : Label} → AllWellTyped c.params.toList (slotTypes scope) fs →
    labels p = some label → (∀ slot, label ≠ .letIn slot) →
    (∀ (j : Nat) f, fs[j]? = some f → f.Labelled labels (p ++ [k + j])) →
    InForce labels p scope n frame.log → n + letsAll fs ≤ size → frame.Sound labels args size →
    Behaves labels args size n p (Code.recordAll args (emitAll c scope fs n) p k) frame
  | [], _, _, _, _, _, _, _, _, _, _, _, _, hs => .pure [] hs
  | x :: xs, _, n, k, p, frame, label, hf, hown, hlet, hlabels, hin, hn, hs => by
    simp only [letsAll] at hn
    have hx := record_emit hplaced x hf.1 (hlabels 0 x rfl) (hin.step hown hlet k) (by omega) hs
    refine hx.under.bind fun v frame' hg hs => ?_
    have hrest : ∀ (j : Nat) f, xs[j]? = some f → f.Labelled labels (p ++ [k + 1 + j]) := by
      intro j f hj
      have h := hlabels (j + 1) f hj
      rwa [show k + (j + 1) = k + 1 + j by omega] at h
    have hin' := (hin.grows hg).mono (Nat.le_add_right n x.lets)
    have hxs := record_emitAll hplaced xs hf.2 hown hlet hrest hin' (by omega) hs
    exact (hxs.mono (Nat.le_add_right _ _)).bind fun vs frame'' _ hs => .pure _ hs

end

end Form

/-- Nothing is on record when a call begins. -/
theorem Frame.sound_start (labels : Address → Option Label) (args : Array Value) (size : Nat) :
    Frame.Sound labels args size ⟨Array.replicate size .unit, []⟩ where
  cells := Array.size_replicate
  holds := nofun
  right := by
    intro after access before h
    cases after <;> cases h

theorem Lambda.labelled_form {e : Lambda} {f : Form Value} (h : e.tree.form? = some f) :
    f.Labelled e.labelAt? [] :=
  Arena.labelAt?_eq (Arena.outline?_of_form? h)

theorem Convention.length_paramTypes (c : Convention) : c.paramTypes.length = c.params.size := by
  rw [paramTypes, List.length_append, List.length_drop, List.length_take, Array.length_toList]
  omega

/-- Every parameter has its place in an argument vector of the right length. -/
theorem Convention.exists_getElem?_position (c : Convention) {args : List Value}
    (hlen : args.length = c.params.size) (hle : c.declared ≤ c.params.size) (i : Nat)
    (hi : i < c.params.size) : ∃ v, args.toArray[c.position i]? = some v := by
  have hpos : c.position i < args.length := by
    rw [position, valueCount]
    split <;> omega
  exact ⟨args[c.position i], by rw [List.getElem?_toArray, List.getElem?_eq_getElem hpos]⟩

/-- A call of a lowered expression ends within the language on every argument vector,
and every access that it makes is right, up to the point where it fails if it does. -/
theorem Lambda.lower_reads_innermost {e : Lambda} {declared : Nat} {art : Artifact}
    (h : e.lower declared = .ok art) (args : List Value) :
    (art.record args).1 = art.call args ∧
    (∃ r : Except EvalError Value, art.call args = Stop.lift r) ∧
    ∀ after access before, (art.record args).2 = after ++ access :: before →
      access.Right e.labelAt? args.toArray art.cells before := by
  refine ⟨art.record_fst args, ?_⟩
  rw [← art.record_fst args]
  obtain ⟨hle, f, hform, htyped, rfl⟩ := e.lower_ok h
  rw [Artifact.record]
  cases hargs : checkArgs (f.artifact ⟨e.paramTypes.toArray, declared⟩).paramTypes args with
  | error cause =>
    refine ⟨⟨.error cause, rfl⟩, fun after access before hlog => ?_⟩
    cases after <;> cases hlog
  | ok _ =>
    have harity : e.paramTypes.toArray.size = e.arity := e.length_paramTypes
    have hlen : args.length = e.paramTypes.toArray.size :=
      (checkArgs_eq_ok_iff.mp hargs).length_eq.trans (Convention.length_paramTypes _)
    have hclosed : f.WellTyped e.paramTypes (slotTypes []) := htyped
    have hrun := Form.record_emit (Convention.exists_getElem?_position
        ⟨e.paramTypes.toArray, declared⟩ hlen (harity ▸ hle)) f hclosed (labelled_form hform)
      (.nil _ _ _ _) (Nat.le_of_eq (Nat.zero_add f.lets)) (Frame.sound_start _ _ _)
    exact ⟨hrun.settles, hrun.sound.right⟩

/-- `(let l1 = a in let l0 = l1 in l0 * l0) + (let l1 = b in let l0 = l1 in l0 * l0)`,
with one node for the two inner `let`s. -/
def Lambda.squares : Lambda where
  params := [⟨"a", .int⟩, ⟨"b", .int⟩]
  arena :=
    { nodes := #[⟨.param 0, .int⟩, ⟨.param 1, .int⟩, ⟨.localVar 1, .int⟩, ⟨.localVar 0, .int⟩,
        ⟨.binary .mul 3 3, .int⟩, ⟨.letIn 0 2 4, .int⟩, ⟨.letIn 1 0 5, .int⟩,
        ⟨.letIn 1 1 5, .int⟩, ⟨.binary .add 6 7, .int⟩]
      table := #[] }
  root := 8

/-- The last read of a call, below the second use of the shared `let`. -/
theorem Lambda.lower_reads_innermost_squares : ∃ art before, squares.lower 1 = .ok art ∧
    art.call [.int 4, .int 3] = .ok (.int 25) ∧
    (art.record [.int 4, .int 3]).2 = .read [1, 1, 1, 1] 3 (.int 4) :: before ∧
    Access.Right squares.labelAt? #[.int 4, .int 3] 4 before (.read [1, 1, 1, 1] 3 (.int 4)) := by
  obtain ⟨art, hlower, hcells, hcall, hlast⟩ : ∃ art, squares.lower 1 = .ok art ∧
      art.cells = 4 ∧ art.call [.int 4, .int 3] = .ok (.int 25) ∧
      (art.record [.int 4, .int 3]).2.head? = some (.read [1, 1, 1, 1] 3 (.int 4)) :=
    ⟨_, rfl, rfl, by decide +kernel, by decide +kernel⟩
  obtain ⟨before, hlog⟩ := List.head?_eq_some_iff.mp hlast
  obtain ⟨-, -, hright⟩ := lower_reads_innermost hlower [.int 4, .int 3]
  have hread := hright [] _ before hlog
  rw [hcells] at hread
  exact ⟨art, before, hlower, hcall, hlog, hread⟩

end Stencil
