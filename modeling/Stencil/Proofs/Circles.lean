import Mathlib.Data.Finset.Card
import Mathlib.Data.Finset.Range
import Stencil.Proofs.Acceptance
import Stencil.Proofs.Printing

/-!
# Printing ends unless an expression contains itself

The printer asks of a reference only that it leads into the arena. A child that comes
after its parent is printed like any other, and so is one that leads back to its
parent, whose text then has no end: with every bound on the nesting it is cut off. That
is the only way in which printing can fail to end (`Lambda.printing_ends_iff`), and the
bound that `Lambda.render?` takes cuts no text off that has an end. What else may be
wrong with a reference is shown in the text where it stands (`Arena.Complaint`).

A printed node is a row of pieces, each a text of its own or the text of a child
(`Arena.pieces`). What a kind of node looks like matters for the pieces only; that a
text has an end is then a fact about references (`Arena.Nested`), and follows by
counting what can be reached: without a circle, fewer nodes can be reached from a child
than from its parent.
-/

namespace Stencil

/-- A part of a printed node. -/
inductive Piece where
  | text (s : String)
  | node (id : NodeId)

namespace Piece

/-- The text of a piece, given those of the children. -/
def text? (child : NodeId → Option String) : Piece → Option String
  | text s => some s
  | node id => child id

/-- The pieces one after the other, if every child has a text. -/
def join? (child : NodeId → Option String) (ps : List Piece) : Option String :=
  (ps.mapM (text? child)).map String.join

/-- Children with a comma and a blank between them. -/
def commas : List NodeId → List Piece
  | [] => []
  | [c] => [node c]
  | c :: cs => node c :: text ", " :: commas cs

theorem commas_cons_cons (c d : NodeId) (cs : List NodeId) :
    commas (c :: d :: cs) = node c :: text ", " :: commas (d :: cs) := rfl

variable {child child' : NodeId → Option String} {ps : List Piece} {t : String}

@[simp]
theorem join?_nil : join? child [] = some "" := rfl

@[simp]
theorem join?_text (s : String) (ps : List Piece) :
    join? child (text s :: ps) = (join? child ps).map (s ++ ·) := by
  rw [join?, join?, List.mapM_cons, text?]
  cases ps.mapM (text? child) <;> simp

@[simp]
theorem join?_node (c : NodeId) (ps : List Piece) :
    join? child (node c :: ps) = (child c).bind fun s => (join? child ps).map (s ++ ·) := by
  rw [join?, join?, List.mapM_cons, text?]
  cases child c <;> cases ps.mapM (text? child) <;> simp

theorem join?_append (ps qs : List Piece) : join? child (ps ++ qs) =
    (join? child ps).bind fun s => (join? child qs).map (s ++ ·) := by
  rw [join?, join?, join?, List.mapM_append]
  cases ps.mapM (text? child) <;> cases qs.mapM (text? child) <;> simp

theorem join?_mono (h : ∀ c u, child c = some u → child' c = some u)
    (ht : join? child ps = some t) : join? child' ps = some t := by
  obtain ⟨texts, htexts, rfl⟩ := Option.map_eq_some_iff.mp ht
  have hpiece : ∀ p u, text? child p = some u → text? child' p = some u := by
    intro p u hu
    cases p with
    | text s => exact hu
    | node c => exact h c u hu
  rw [join?, Arena.mapM_mono hpiece htexts]
  rfl

theorem isSome_join?_iff :
    (join? child ps).isSome = true ↔ ∀ c, node c ∈ ps → (child c).isSome = true := by
  rw [join?, Option.isSome_map, Arena.isSome_mapM]
  constructor
  · intro h c hc
    exact h (node c) hc
  · intro h p hp
    cases p with
    | text s => rfl
    | node c => exact h c hp

end Piece

/-- The first text contains the second. -/
def Shows (t note : String) : Prop := ∃ before after, t = before ++ note ++ after

theorem Shows.trans {t u note : String} (htu : Shows t u) (hu : Shows u note) : Shows t note := by
  obtain ⟨before, after, rfl⟩ := htu
  obtain ⟨first, last, rfl⟩ := hu
  exact ⟨before ++ first, last ++ after, by simp [String.append_assoc]⟩

/-- Every piece stands in the text. -/
theorem Piece.shows_of_mem {child : NodeId → Option String} {ps : List Piece} {t : String}
    (ht : join? child ps = some t) {p : Piece} (hp : p ∈ ps) :
    ∃ u, p.text? child = some u ∧ Shows t u := by
  obtain ⟨texts, htexts, rfl⟩ := Option.map_eq_some_iff.mp ht
  obtain ⟨k, hk⟩ := List.mem_iff_getElem?.mp hp
  rcases Arena.getElem?_mapM htexts k with ⟨hnone, -⟩ | ⟨p', u, hp', hu, htext⟩
  · rw [hk] at hnone
    cases hnone
  · cases hk.symm.trans hp'
    obtain ⟨before, after, rfl⟩ := List.append_of_mem (List.mem_of_getElem? hu)
    exact ⟨u, htext, String.join before, String.join after, by simp [String.append_assoc]⟩

/-! ### Printed nodes in pieces -/

namespace Arena

/-- The pieces between the brackets of a list or the parentheses of a call. -/
def listPieces (a : Arena) (r : Range) : List Piece :=
  match a.list? r with
  | none => [.text ("<dangling " ++ r.label ++ ">")]
  | some ids => Piece.commas ids

/-- What a node is printed as, its children left open. -/
def pieces (a : Arena) (params : Array Param) (id : NodeId) : List Piece :=
  match a.get? id with
  | none => [.text ("<dangling #" ++ toString id ++ ">")]
  | some node =>
    match node.kind with
    | .const v => [.text v.text]
    | .param i => [.text (paramText params i)]
    | .localVar slot => [.text ("l" ++ toString slot)]
    | .unary op x => [.text ("(" ++ op.symbol), .node x, .text ")"]
    | .binary op l r => [.text "(", .node l, .text (" " ++ op.symbol ++ " "), .node r, .text ")"]
    | .ite c x y =>
      [.text "(if ", .node c, .text " then ", .node x, .text " else ", .node y, .text ")"]
    | .letIn slot i b =>
      [.text ("(let l" ++ toString slot ++ " = "), .node i, .text " in ", .node b, .text ")"]
    | .list r => .text "[" :: (a.listPieces r ++ [.text "]"])
    | .index r i => [.node r, .text "[", .node i, .text "]"]
    | .call f r => .text (f.text ++ "(") :: (a.listPieces r ++ [.text ")"])

/-- The text of a node that is nested less than `depth` deep. -/
def printed? (a : Arena) (params : Array Param) : (depth : Nat) → NodeId → Option String
  | 0, _ => none
  | depth + 1, id => Piece.join? (a.printed? params depth) (a.pieces params id)

variable {a : Arena} {params : Array Param}

theorem writeAll?_eq_join? {write : NodeId → String → Option String}
    {child : NodeId → Option String} (hwrite : ∀ c s, write c s = (child c).map (s ++ ·))
    (ids : List NodeId) (s : String) :
    writeAll? write ids s = (Piece.join? child (Piece.commas ids)).map (s ++ ·) := by
  induction ids generalizing s with
  | nil => simp [writeAll?, Piece.commas]
  | cons c ids ih =>
    cases ids with
    | nil =>
      rw [writeAll?, hwrite, Piece.commas, Piece.join?_node]
      cases child c <;> simp
    | cons d ids =>
      show ((write c s).bind fun s => writeAll? write (d :: ids) (s ++ ", ")) = _
      rw [hwrite, Piece.commas_cons_cons, Piece.join?_node, Piece.join?_text]
      cases child c with
      | none => rfl
      | some u =>
        rw [Option.map_some, Option.bind_some, ih]
        cases Piece.join? child (Piece.commas (d :: ids)) <;> simp [String.append_assoc]

/-- The printer appends the text of a node. -/
theorem write?_eq_printed? (depth : Nat) (id : NodeId) (s : String) :
    a.write? params depth id s = (a.printed? params depth id).map (s ++ ·) := by
  induction depth generalizing id s with
  | zero => rfl
  | succ depth ih =>
    rw [write?, printed?, pieces]
    cases a.get? id with
    | none => simp [String.append_assoc]
    | some node =>
      obtain ⟨kind, ty⟩ := node
      cases kind with
      | const v => simp
      | param i => cases hp : params[i]? <;> simp [hp, paramText, String.append_assoc]
      | localVar slot => simp [String.append_assoc]
      | unary op x =>
        simp only [ih, Piece.join?_text, Piece.join?_node]
        cases a.printed? params depth x <;> simp [String.append_assoc]
      | binary op x y | letIn slot x y | index x y =>
        simp only [ih, Piece.join?_text, Piece.join?_node]
        cases a.printed? params depth x <;> cases a.printed? params depth y <;>
          simp [String.append_assoc]
      | ite x y z =>
        simp only [ih, Piece.join?_text, Piece.join?_node]
        cases a.printed? params depth x <;> cases a.printed? params depth y <;>
          cases a.printed? params depth z <;> simp [String.append_assoc]
      | list r | call f r =>
        simp only [listPieces, Piece.join?_text, Piece.join?_append]
        cases a.list? r with
        | none => simp [String.append_assoc, -String.reduceAppend]
        | some ids =>
          simp only [writeAll?_eq_join? ih]
          cases Piece.join? (a.printed? params depth) (Piece.commas ids) <;>
            simp [String.append_assoc]

theorem printed?_mono {depth depth' : Nat} (hle : depth ≤ depth') {id : NodeId} {t : String}
    (h : a.printed? params depth id = some t) : a.printed? params depth' id = some t := by
  induction depth generalizing depth' id t with
  | zero => cases h
  | succ depth ih =>
    obtain ⟨n, rfl⟩ : ∃ n, depth' = n + 1 := ⟨depth' - 1, by omega⟩
    exact Piece.join?_mono (fun c u hu => ih (by omega) hu) h

/-! ### Following references -/

/-- The second node is one of the children of the first. -/
def Refers (a : Arena) (id c : NodeId) : Prop :=
  ∃ node ids, a.get? id = some node ∧ a.children? node.kind = some ids ∧ c ∈ ids

/-- From the node a node can be reached that contains itself. -/
def Circular (a : Arena) (id : NodeId) : Prop :=
  ∃ j c, a.Reaches id j ∧ a.Refers j c ∧ a.Reaches c j

/-- References can be followed less than `depth` times from the node. -/
def Nested (a : Arena) : (depth : Nat) → NodeId → Prop
  | 0, _ => False
  | depth + 1, id => ∀ c, a.Refers id c → a.Nested depth c

theorem Refers.reaches {id c j : NodeId} (h : a.Refers id c) (hj : a.Reaches c j) :
    a.Reaches id j := by
  obtain ⟨node, ids, hnode, hids, hc⟩ := h
  exact .step hnode hids hc hj

theorem Refers.lt_size {id c : NodeId} (h : a.Refers id c) : id < a.size := by
  obtain ⟨node, ids, hnode, -, -⟩ := h
  exact (Array.getElem?_eq_some_iff.mp hnode).1

theorem Circular.of_refers {id c : NodeId} (h : a.Refers id c) (hc : a.Circular c) :
    a.Circular id := by
  obtain ⟨j, d, hj, hd, hback⟩ := hc
  exact ⟨j, d, h.reaches hj, hd, hback⟩

theorem Nested.mono {depth depth' : Nat} (hle : depth ≤ depth') {id : NodeId}
    (h : a.Nested depth id) : a.Nested depth' id := by
  induction depth generalizing depth' id with
  | zero => exact h.elim
  | succ depth ih =>
    obtain ⟨n, rfl⟩ : ∃ n, depth' = n + 1 := ⟨depth' - 1, by omega⟩
    intro c hc
    exact ih (by omega) (h c hc)

/-- What can be reached is nested no deeper. -/
theorem Nested.of_reaches {depth : Nat} {id j : NodeId} (hj : a.Reaches id j)
    (h : a.Nested depth id) : a.Nested depth j := by
  induction hj generalizing depth with
  | refl id => exact h
  | step hnode hids hc _ ih =>
    cases depth with
    | zero => exact h.elim
    | succ depth => exact (ih (h _ ⟨_, _, hnode, hids, hc⟩)).mono (Nat.le_succ depth)

/-- A node that contains itself is not nested within any depth: its child would be
nested one less deep, and so would the node that the child leads back to. -/
theorem Nested.not_circular {depth : Nat} {id : NodeId} (h : a.Nested depth id) :
    ¬ a.Circular id := by
  rintro ⟨j, c, hj, hc, hback⟩
  have hnested := h.of_reaches hj
  clear h hj
  induction depth with
  | zero => exact hnested
  | succ depth ih => exact ih ((hnested c hc).of_reaches hback)

open Classical in
/-- The nodes of the arena that can be reached from a node. -/
noncomputable def reached (a : Arena) (id : NodeId) : Finset NodeId :=
  (Finset.range a.size).filter (a.Reaches id)

theorem mem_reached {id j : NodeId} : j ∈ a.reached id ↔ j < a.size ∧ a.Reaches id j := by
  simp [reached]

/-- Without a circle a node cannot be reached from its child. -/
theorem card_reached_lt {id c : NodeId} (h : ¬ a.Circular id) (hc : a.Refers id c) :
    (a.reached c).card < (a.reached id).card := by
  have hsub : a.reached c ⊆ a.reached id := by
    intro j hj
    obtain ⟨hlt, hreach⟩ := mem_reached.mp hj
    exact mem_reached.mpr ⟨hlt, hc.reaches hreach⟩
  refine Finset.card_lt_card ((Finset.ssubset_iff_of_subset hsub).mpr ⟨id, ?_, ?_⟩)
  · exact mem_reached.mpr ⟨hc.lt_size, .refl id⟩
  · intro hback
    exact h ⟨id, c, .refl id, hc, (mem_reached.mp hback).2⟩

theorem nested_of_not_circular {n : Nat} {id : NodeId} (h : ¬ a.Circular id)
    (hn : (a.reached id).card ≤ n) : a.Nested (n + 1) id := by
  induction n generalizing id with
  | zero =>
    intro c hc
    have hlt := card_reached_lt h hc
    omega
  | succ n ih =>
    intro c hc
    have hlt := card_reached_lt h hc
    exact ih (fun hcircle => h (hcircle.of_refers hc)) (by omega)

theorem card_reached_le (a : Arena) (id : NodeId) : (a.reached id).card ≤ a.size := by
  have hsub : a.reached id ⊆ Finset.range a.size := by
    intro j hj
    exact Finset.mem_range.mpr (mem_reached.mp hj).1
  simpa using Finset.card_le_card hsub

/-! ### Texts that end -/

theorem mem_commas {c : NodeId} {ids : List NodeId} : .node c ∈ Piece.commas ids ↔ c ∈ ids := by
  induction ids with
  | nil => simp [Piece.commas]
  | cons d ids ih =>
    cases ids with
    | nil => simp [Piece.commas]
    | cons e ids =>
      rw [Piece.commas_cons_cons, List.mem_cons, List.mem_cons, ih]
      simp

theorem mem_listPieces {c : NodeId} {r : Range} :
    .node c ∈ a.listPieces r ↔ ∃ ids, a.list? r = some ids ∧ c ∈ ids := by
  rw [listPieces]
  cases a.list? r with
  | none => simp
  | some ids => simp [mem_commas]

/-- The nodes among the pieces are the children. -/
theorem mem_pieces {id c : NodeId} : .node c ∈ a.pieces params id ↔ a.Refers id c := by
  rw [pieces, Refers]
  cases a.get? id with
  | none => simp
  | some node =>
    obtain ⟨kind, ty⟩ := node
    cases kind <;> simp [children?, mem_listPieces]

theorem isSome_printed?_iff {depth : Nat} {id : NodeId} :
    (a.printed? params depth id).isSome = true ↔ a.Nested depth id := by
  induction depth generalizing id with
  | zero => simp [printed?, Nested]
  | succ depth ih =>
    rw [printed?, Piece.isSome_join?_iff, Nested]
    refine forall_congr' fun c => ?_
    rw [mem_pieces, ih]

theorem printed?_of_not_circular (params : Array Param) {id : NodeId} (h : ¬ a.Circular id) :
    ∃ t, a.printed? params (a.size + 1) id = some t := by
  have hnested := nested_of_not_circular h (a.card_reached_le id)
  exact Option.isSome_iff_exists.mp (isSome_printed?_iff.mpr hnested)

theorem not_circular_of_printed? {depth : Nat} {id : NodeId} {t : String}
    (h : a.printed? params depth id = some t) : ¬ a.Circular id :=
  (isSome_printed?_iff.mp (Option.isSome_of_eq_some h)).not_circular

/-- A text that ends within any bound ends within the number of nodes. -/
theorem printed?_size {depth : Nat} {id : NodeId} {t : String}
    (h : a.printed? params depth id = some t) : a.printed? params (a.size + 1) id = some t := by
  obtain ⟨u, hu⟩ := printed?_of_not_circular params (not_circular_of_printed? h)
  rcases Nat.le_total depth (a.size + 1) with hle | hle
  · exact printed?_mono hle h
  · cases (printed?_mono hle hu).symm.trans h
    exact hu

/-- What stands in the place of a reference that leads nowhere. -/
inductive Complaint (a : Arena) (params : Array Param) (id : NodeId) : String → Prop where
  /-- The node is not in the arena. -/
  | node : a.get? id = none → a.Complaint params id ("<dangling #" ++ toString id ++ ">")
  /-- The child list of the node runs past the table. -/
  | list {n : Node} {r : Range} : a.get? id = some n → n.kind.range? = some r → a.list? r = none →
      a.Complaint params id ("<dangling " ++ r.label ++ ">")
  /-- The node stands for a parameter that is not declared. -/
  | param {i : Nat} {ty : Ty} : a.get? id = some ⟨.param i, ty⟩ → params[i]? = none →
      a.Complaint params id ("<param #" ++ toString i ++ ">")

theorem Complaint.mem_pieces {id : NodeId} {note : String} (h : a.Complaint params id note) :
    .text note ∈ a.pieces params id := by
  cases h with
  | node hnode => simp [pieces, hnode]
  | @list n r hnode hrange hlist =>
    obtain ⟨kind, ty⟩ := n
    cases kind <;> cases hrange <;> simp [pieces, hnode, listPieces, hlist]
  | param hnode hparam => simp [pieces, hnode, paramText, hparam]

/-- Whatever is wrong with a reference that is reached shows in the text. -/
theorem shows_complaint {depth : Nat} {id j : NodeId} {t note : String}
    (ht : a.printed? params depth id = some t) (hj : a.Reaches id j)
    (hnote : a.Complaint params j note) : Shows t note := by
  induction hj generalizing depth t with
  | refl id =>
    cases depth with
    | zero => cases ht
    | succ depth =>
      obtain ⟨u, hu, hshows⟩ := Piece.shows_of_mem ht hnote.mem_pieces
      cases hu
      exact hshows
  | step hnode hids hc _ ih =>
    cases depth with
    | zero => cases ht
    | succ depth =>
      obtain ⟨u, hu, hshows⟩ := Piece.shows_of_mem ht (Arena.mem_pieces.mpr ⟨_, _, hnode, hids, hc⟩)
      exact hshows.trans (ih hu hnote)

end Arena

namespace Lambda

/-- Printing ends, that is, some bound on the nesting lets it come to its end, exactly if
the root leads to no node that contains itself. The text is then what `render?` gives,
and everything that is wrong with a reference shows in it. -/
theorem printing_ends_iff (e : Lambda) :
    ((∃ depth text, e.arena.write? e.params.toArray depth e.root e.header = some text) ↔
      ¬ e.arena.Circular e.root) ∧
    ∀ depth text, e.arena.write? e.params.toArray depth e.root e.header = some text →
      e.render? = some text ∧
      ∀ id note, e.arena.Reaches e.root id → e.arena.Complaint e.params.toArray id note →
        Shows text note := by
  simp only [render?, Arena.write?_eq_printed?]
  refine ⟨⟨?_, ?_⟩, ?_⟩
  · rintro ⟨depth, text, htext⟩
    obtain ⟨t, ht, -⟩ := Option.map_eq_some_iff.mp htext
    exact Arena.not_circular_of_printed? ht
  · intro h
    obtain ⟨t, ht⟩ := Arena.printed?_of_not_circular e.params.toArray h
    exact ⟨_, _, Option.map_eq_some_iff.mpr ⟨t, ht, rfl⟩⟩
  · intro depth text htext
    obtain ⟨t, ht, rfl⟩ := Option.map_eq_some_iff.mp htext
    refine ⟨Option.map_eq_some_iff.mpr ⟨t, Arena.printed?_size ht, rfl⟩, ?_⟩
    intro id note hid hnote
    have hbody : Shows (e.header ++ t) t := ⟨e.header, "", by simp⟩
    exact hbody.trans (Arena.shows_complaint ht hid hnote)

/-- The sum of a list and a node, where the node does not exist, the list comes after
its parent, and its items are not in the table. -/
def scattered : Lambda where
  params := []
  arena := { nodes := #[⟨.binary .add 1 7, .int⟩, ⟨.list ⟨5, 2⟩, .list .int⟩], table := #[] }
  root := 0

/-- A forward reference is followed, and what is wrong below it is shown. -/
theorem printing_ends_iff_scattered :
    scattered.render? = some "|| ([<dangling ExprRange(5..+2)>] + <dangling #7>)" ∧
    ¬ scattered.arena.Circular scattered.root ∧
    Shows "|| ([<dangling ExprRange(5..+2)>] + <dangling #7>)" "<dangling #7>" := by
  obtain ⟨hends, htext⟩ := printing_ends_iff scattered
  have hwrite : scattered.arena.write? scattered.params.toArray 2 scattered.root scattered.header
      = some "|| ([<dangling ExprRange(5..+2)>] + <dangling #7>)" := by
    decide +kernel
  obtain ⟨hrender, hshows⟩ := htext _ _ hwrite
  refine ⟨hrender, hends.mp ⟨_, _, hwrite⟩, hshows 7 "<dangling #7>" ?_ (.node rfl)⟩
  exact .step rfl rfl (List.mem_cons_of_mem 1 List.mem_cons_self) (.refl 7)

/-- The negation of itself. -/
def selfNegation : Lambda where
  params := []
  arena := { nodes := #[⟨.unary .neg 0, .int⟩], table := #[] }
  root := 0

/-- Its text does not end. Every other walk refuses it. -/
theorem selfNegation_endless :
    (¬ ∃ depth text, selfNegation.arena.write? selfNegation.params.toArray depth selfNegation.root
      selfNegation.header = some text) ∧
    selfNegation.extract = .error (.forwardReference 0 0) ∧
    selfNegation.sameShape selfNegation = false := by
  refine ⟨?_, rfl, by decide⟩
  rintro ⟨depth, text, htext⟩
  have hcircle : selfNegation.arena.Circular selfNegation.root :=
    ⟨0, 0, .refl 0, ⟨_, _, rfl, rfl, List.mem_cons_self⟩, .refl 0⟩
  rw [Arena.write?_eq_printed?] at htext
  obtain ⟨t, ht, -⟩ := Option.map_eq_some_iff.mp htext
  exact Arena.not_circular_of_printed? ht hcircle

end Lambda

end Stencil
