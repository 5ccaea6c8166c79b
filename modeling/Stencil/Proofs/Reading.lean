import Stencil.Proofs.Frames
import Stencil.Proofs.Spelling

/-!
# The printed form can be read in one way

Not every compound is in parentheses: a subscript stands behind its receiver, and
calls and lists are told by their brackets. Nothing else separates the parts of a
text, names may be keywords and slots are numbers of any length. Still a text says
which labels it was printed for. Without constants, and with names that are words of
their own, two expressions with the same parameters have the same text exactly if the
same label stands at every address of both (`Lambda.same_text_iff_same_labels`); only
the static types are not printed.

The reason is that every text shows where it ends (`Form.Cuts`). A form is a head, which is
no subscript, with subscripts behind it. The heads are told apart by how they begin
(`Form.HeadCuts.of_lead`), and then part by part; a subscript follows on a head exactly if
a bracket does (`Form.HeadCuts.subscripted`).
-/

namespace Stencil

/-! ### Labels -/

namespace Outline

/-- The same labels everywhere. -/
def Alike (o p : Outline) : Prop := ∀ q, o.labelAt? q = p.labelAt? q

theorem forall₂_alike_iff {os ps : List Outline} : List.Forall₂ Alike os ps ↔
    ∀ (k : Nat) (q : Address), os[k]?.bind (labelAt? q) = ps[k]?.bind (labelAt? q) := by
  constructor
  · intro h k q
    induction h generalizing k with
    | nil => rfl
    | cons ho _ ih =>
      cases k with
      | zero => exact ho q
      | succ k => exact ih k
  · intro h
    induction os generalizing ps with
    | nil =>
      cases ps with
      | nil => exact .nil
      | cons p ps =>
        obtain ⟨label, t, children⟩ := p
        cases h 0 []
    | cons o os ih =>
      cases ps with
      | nil =>
        obtain ⟨label, t, children⟩ := o
        cases h 0 []
      | cons p ps => exact .cons (h 0) (ih fun k => h (k + 1))

/-- Nodes have the same labels below them exactly if their children have, one by one. -/
theorem alike_node_iff {l m : Label} {t u : Ty} {os ps : List Outline} :
    Alike (.node l t os) (.node m u ps) ↔ l = m ∧ List.Forall₂ Alike os ps := by
  rw [forall₂_alike_iff]
  constructor
  · intro h
    exact ⟨Option.some.inj (h []), fun k q => h (k :: q)⟩
  · rintro ⟨rfl, h⟩ q
    cases q with
    | nil => rfl
    | cons k q => exact h k q

end Outline

namespace Form

variable {params : List Param}

/-! ### Subscripts -/

/-- The form with subscripts behind it, each with the type of what it picks. -/
def subscripted (f : Form Value) : List (Ty × Form Value) → Form Value
  | [] => f
  | (t, i) :: subs => (index t f i).subscripted subs

theorem subscripted_append (f : Form Value) (subs more : List (Ty × Form Value)) :
    f.subscripted (subs ++ more) = (f.subscripted subs).subscripted more := by
  induction subs generalizing f with
  | nil => rfl
  | cons s subs ih => exact ih _

variable (params) in
/-- The characters of subscripts. -/
def charsSubs (subs : List (Ty × Form Value)) : List Char :=
  subs.flatMap fun s => '[' :: (s.2.chars params ++ [']'])

theorem charsSubs_cons (t : Ty) (i : Form Value) (subs : List (Ty × Form Value)) :
    charsSubs params ((t, i) :: subs) = '[' :: (i.chars params ++ ']' :: charsSubs params subs) := by
  simp [charsSubs]

theorem chars_subscripted (f : Form Value) (subs : List (Ty × Form Value)) :
    (f.subscripted subs).chars params = f.chars params ++ charsSubs params subs := by
  induction subs generalizing f with
  | nil => simp [subscripted, charsSubs]
  | cons s subs ih =>
    obtain ⟨t, i⟩ := s
    rw [subscripted, ih, chars_index, charsSubs_cons]
    simp

/-- A head: what does not end with a subscript. -/
def IsHead : Form Value → Prop
  | index _ _ _ => False
  | _ => True

/-- Every form is a head with subscripts behind it. -/
theorem exists_subscripted {arity : Nat} : (f : Form Value) → f.Clear arity →
    ∃ h subs, f = subscripted h subs ∧ h.IsHead ∧ h.Clear arity ∧ ∀ s ∈ subs, s.2.Clear arity
  | index t r i, hf => by
    obtain ⟨h, subs, rfl, hhead, hclear, hsubs⟩ := exists_subscripted r hf.1
    refine ⟨h, subs ++ [(t, i)], by rw [subscripted_append]; rfl, hhead, hclear, ?_⟩
    intro s hs
    rcases List.mem_append.mp hs with hs | hs
    · exact hsubs s hs
    · cases List.mem_singleton.mp hs
      exact hf.2
  | const _ _, hf | param _ _, hf | localVar _ _, hf | unary _ _ _, hf | binary _ _ _ _, hf
  | ite _ _ _ _, hf | letIn _ _ _ _, hf | list _ _, hf | call _ _ _, hf =>
    ⟨_, [], rfl, trivial, hf, by simp⟩

/-! ### Where a text ends -/

variable (params) in
/-- The text is cut off in one way: whatever two texts begin with it and with that of another
form, and go on with nothing that belongs to an operand, if they are one text then the
forms have the same labels and the same follows. -/
def Cuts (f : Form Value) : Prop :=
  ∀ (g : Form Value) (r s : List Char), g.Clear params.length → Stops opens r → Stops opens s →
    f.chars params ++ r = g.chars params ++ s → f.outline.Alike g.outline ∧ r = s

variable (params) in
/-- The same among heads, also if a subscript follows. -/
def HeadCuts (f : Form Value) : Prop :=
  ∀ (g : Form Value) (r s : List Char), g.Clear params.length → g.IsHead → Stops clings r →
    Stops clings s → f.chars params ++ r = g.chars params ++ s →
      f.outline.Alike g.outline ∧ r = s

/-- Cuts before a character that cannot belong to an operand. -/
theorem Cuts.before {f g : Form Value} (h : Cuts params f) (hg : g.Clear params.length)
    {c : Char} {r s : List Char} (hc : opens c = false)
    (heq : f.chars params ++ c :: r = g.chars params ++ c :: s) :
    f.outline.Alike g.outline ∧ r = s := by
  obtain ⟨halike, hrest⟩ := h g _ _ hg (stops_cons.mpr hc) (stops_cons.mpr hc) heq
  exact ⟨halike, (List.cons.inj hrest).2⟩

/-! #### Items -/

theorem stops_rest (fs : List (Form Value)) {close : Char} (hclose : opens close = false)
    (r : List Char) : Stops opens (charsRest params fs ++ close :: r) := by
  cases fs with
  | nil => exact stops_cons.mpr hclose
  | cons f fs => exact stops_cons.mpr rfl

theorem rest_cut {xs ys : List (Form Value)} {close : Char} {r s : List Char}
    (hclose : opens close = false) (hcomma : close ≠ ',') (hxs : ∀ x ∈ xs, Cuts params x)
    (hys : AllClear params.length ys)
    (h : charsRest params xs ++ close :: r = charsRest params ys ++ close :: s) :
    List.Forall₂ Outline.Alike (outlines xs) (outlines ys) ∧ r = s := by
  induction xs generalizing ys with
  | nil =>
    cases ys with
    | nil => exact ⟨.nil, (List.cons.inj h).2⟩
    | cons y ys => exact absurd (List.cons.inj h).1 hcomma
  | cons x xs ih =>
    cases ys with
    | nil => exact absurd (List.cons.inj h).1.symm hcomma
    | cons y ys =>
      simp only [charsRest, List.flatMap_cons, List.cons_append, List.append_assoc,
        List.cons.injEq, true_and] at h
      obtain ⟨hx, h⟩ := hxs x List.mem_cons_self y _ _ hys.1 (stops_rest xs hclose r)
        (stops_rest ys hclose s) h
      obtain ⟨hrest, rfl⟩ := ih (fun x hx => hxs x (List.mem_cons_of_mem _ hx)) hys.2 h
      exact ⟨.cons hx hrest, rfl⟩

/-- A text does not begin with what closes a list. -/
theorem chars_append_ne (hp : Legible params) {f : Form Value} (hf : f.Clear params.length)
    {close : Char} (hclose : opens close = false) (r s : List Char) :
    f.chars params ++ r ≠ close :: s := by
  obtain ⟨w, t, hb⟩ := exists_begins hp f hf
  obtain ⟨c, rest, hc, hopens⟩ := hb.exists_cons
  rw [hc]
  intro h
  rw [(List.cons.inj h).1, hclose] at hopens
  cases hopens

/-- Items are told apart up to the bracket behind them. -/
theorem items_cut (hp : Legible params) {xs ys : List (Form Value)} {close : Char} {r s : List Char}
    (hclose : opens close = false) (hcomma : close ≠ ',') (hxs : ∀ x ∈ xs, Cuts params x)
    (hcx : AllClear params.length xs) (hcy : AllClear params.length ys)
    (h : charsAll params xs ++ close :: r = charsAll params ys ++ close :: s) :
    List.Forall₂ Outline.Alike (outlines xs) (outlines ys) ∧ r = s := by
  cases xs with
  | nil =>
    cases ys with
    | nil =>
      rw [charsAll_nil] at h
      exact ⟨.nil, (List.cons.inj h).2⟩
    | cons y ys =>
      rw [charsAll_nil, charsAll_cons, List.append_assoc] at h
      exact absurd h.symm (chars_append_ne hp hcy.1 hclose _ _)
  | cons x xs =>
    cases ys with
    | nil =>
      rw [charsAll_nil, charsAll_cons, List.append_assoc] at h
      exact absurd h (chars_append_ne hp hcx.1 hclose _ _)
    | cons y ys =>
      rw [charsAll_cons, charsAll_cons, List.append_assoc, List.append_assoc] at h
      obtain ⟨hx, h⟩ := hxs x List.mem_cons_self y _ _ hcy.1 (stops_rest xs hclose r)
        (stops_rest ys hclose s) h
      obtain ⟨hrest, rfl⟩ := rest_cut hclose hcomma
        (fun x hx => hxs x (List.mem_cons_of_mem _ hx)) hcy.2 h
      exact ⟨.cons hx hrest, rfl⟩

/-! #### Subscripts -/

theorem stops_subs (subs : List (Ty × Form Value)) {r : List Char} (hr : Stops opens r) :
    Stops clings (charsSubs params subs ++ r) := by
  cases subs with
  | cons s subs => exact stops_cons.mpr rfl
  | nil => exact hr.of_opens

/-- Subscripts end where no bracket follows. -/
theorem subs_cut {subs more : List (Ty × Form Value)} {r s : List Char}
    (hsubs : ∀ i ∈ subs, Cuts params i.2) (hmore : ∀ i ∈ more, i.2.Clear params.length)
    (hr : Stops opens r) (hs : Stops opens s)
    (h : charsSubs params subs ++ r = charsSubs params more ++ s) :
    List.Forall₂ (fun i j => i.2.outline.Alike j.2.outline) subs more ∧ r = s := by
  induction subs generalizing more with
  | nil =>
    cases more with
    | nil => exact ⟨.nil, h⟩
    | cons j more =>
      obtain rfl : r = _ := h
      cases stops_cons.mp hr
  | cons i subs ih =>
    cases more with
    | nil =>
      obtain rfl : _ = s := h
      cases stops_cons.mp hs
    | cons j more =>
      simp only [charsSubs, List.flatMap_cons, List.cons_append, List.append_assoc,
        List.cons.injEq, true_and, List.nil_append] at h
      obtain ⟨hi, h⟩ :=
        (hsubs i List.mem_cons_self).before (hmore j List.mem_cons_self) rfl h
      obtain ⟨hrest, rfl⟩ := ih (fun i hi => hsubs i (List.mem_cons_of_mem _ hi))
        (fun j hj => hmore j (List.mem_cons_of_mem _ hj)) h
      exact ⟨.cons hi hrest, rfl⟩

theorem alike_subscripted {f g : Form Value} {subs more : List (Ty × Form Value)}
    (hfg : f.outline.Alike g.outline)
    (h : List.Forall₂ (fun i j => i.2.outline.Alike j.2.outline) subs more) :
    (f.subscripted subs).outline.Alike (g.subscripted more).outline := by
  induction h generalizing f g with
  | nil => exact hfg
  | cons hi _ ih => exact ih (Outline.alike_node_iff.mpr ⟨rfl, .cons hfg (.cons hi .nil)⟩)

/-- If a head is cut off in one way and so are its subscripts, the whole is. -/
theorem HeadCuts.subscripted {f : Form Value} {subs : List (Ty × Form Value)}
    (hf : HeadCuts params f) (hsubs : ∀ i ∈ subs, Cuts params i.2) :
    Cuts params (f.subscripted subs) := by
  intro g r s hg hr hs h
  -- the other form is taken apart too: a bracket may follow on its head and not on ours
  obtain ⟨k, more, rfl, hk, hclear, hmore⟩ := exists_subscripted g hg
  rw [chars_subscripted, chars_subscripted, List.append_assoc, List.append_assoc] at h
  obtain ⟨hhead, h⟩ := hf k _ _ hclear hk (stops_subs subs hr) (stops_subs more hs) h
  obtain ⟨hrest, rfl⟩ := subs_cut hsubs hmore hr hs h
  exact ⟨alike_subscripted hhead hrest, rfl⟩

/-! #### One kind after the other -/

/-- A head has to be told only from the heads that begin in the same way. -/
theorem HeadCuts.of_lead (hp : Legible params) {f : Form Value} (hf : f.Clear params.length)
    (h : ∀ (g : Form Value) (r s : List Char), g.Clear params.length → g.IsHead →
      f.lead params = g.lead params → f.chars params ++ r = g.chars params ++ s →
      f.outline.Alike g.outline ∧ r = s) : HeadCuts params f := by
  intro g r s hg hhead hr hs heq
  refine h g r s hg hhead ?_ heq
  rw [← lead_chars hp f hf r hr, ← lead_chars hp g hg s hs, heq]

variable {t : Ty}

theorem headCuts_param (hp : Legible params) {i : Nat} (hi : i < params.length) :
    HeadCuts params (param t i) := by
  refine .of_lead hp hi fun g r s hg hhead hlead h => ?_
  rw [lead, paramText_toArray params hi] at hlead
  cases g with
  | param u j =>
    have hj : j < params.length := hg
    rw [lead, paramText_toArray params hj, Lead.word.injEq, String.toList_inj] at hlead
    obtain rfl : i = j := by
      refine (List.getElem?_inj (by simpa using hi) hp.distinct).mp ?_
      simp [hi, hj, hlead.1]
    exact ⟨Outline.alike_node_iff.mpr ⟨rfl, .nil⟩, List.append_cancel_left h⟩
  | localVar u slot =>
    refine absurd (String.toList_inj.mp ?_) (hp.slot params[i] (List.getElem_mem hi) slot)
    rw [(Lead.word.inj hlead).1]
    simp
  | call u f xs => exact absurd (Lead.word.inj hlead).2 Bool.false_ne_true
  | const => exact hg.elim
  | index => exact hhead.elim
  | _ => cases hlead

theorem headCuts_localVar (hp : Legible params) (slot : Nat) :
    HeadCuts params (localVar t slot) := by
  refine .of_lead hp trivial fun g r s hg hhead hlead h => ?_
  cases g with
  | localVar u slot' =>
    have hname := (List.cons.inj (Lead.word.inj hlead).1).2
    obtain rfl : slot = slot' := slot_inj hname
    exact ⟨Outline.alike_node_iff.mpr ⟨rfl, .nil⟩, List.append_cancel_left h⟩
  | param u i =>
    have hi : i < params.length := hg
    rw [lead, lead, paramText_toArray params hi] at hlead
    refine absurd (String.toList_inj.mp ?_) (hp.slot params[i] (List.getElem_mem hi) slot)
    rw [← (Lead.word.inj hlead).1]
    simp
  | call u f xs => exact absurd (Lead.word.inj hlead).2 Bool.false_ne_true
  | const => exact hg.elim
  | index => exact hhead.elim
  | _ => cases hlead

theorem headCuts_call (hp : Legible params) {f : Builtin} {xs : List (Form Value)}
    (hc : AllClear params.length xs) (hxs : ∀ x ∈ xs, Cuts params x) :
    HeadCuts params (call t f xs) := by
  refine .of_lead hp hc fun g r s hg hhead hlead h => ?_
  cases g with
  | call u f' ys =>
    obtain rfl : f = f' := by
      have htext := congrArg Builtin.ofText? (String.toList_inj.mp (Lead.word.inj hlead).1)
      rw [Builtin.ofText?_text, Builtin.ofText?_text] at htext
      exact Option.some.inj htext
    simp only [chars_call, List.append_assoc, List.append_cancel_left_eq, List.cons_append,
      List.cons.injEq, true_and, List.nil_append] at h
    obtain ⟨hall, rfl⟩ := items_cut hp rfl (by decide) hxs hc hg h
    exact ⟨Outline.alike_node_iff.mpr ⟨rfl, hall⟩, rfl⟩
  | param | localVar => exact absurd (Lead.word.inj hlead).2.symm Bool.false_ne_true
  | const => exact hg.elim
  | index => exact hhead.elim
  | _ => cases hlead

theorem headCuts_list (hp : Legible params) {xs : List (Form Value)}
    (hc : AllClear params.length xs) (hxs : ∀ x ∈ xs, Cuts params x) :
    HeadCuts params (list t xs) := by
  refine .of_lead hp hc fun g r s hg hhead hlead h => ?_
  cases g with
  | list u ys =>
    simp only [chars_list, List.append_assoc, List.cons_append, List.cons.injEq, true_and,
      List.nil_append] at h
    obtain ⟨hall, rfl⟩ := items_cut hp rfl (by decide) hxs hc hg h
    exact ⟨Outline.alike_node_iff.mpr ⟨rfl, hall⟩, rfl⟩
  | index => exact hhead.elim
  | _ => cases hlead

theorem headCuts_unary (hp : Legible params) {op : UnaryOp} {x : Form Value}
    (hc : x.Clear params.length) (hx : Cuts params x) : HeadCuts params (unary t op x) := by
  refine .of_lead hp hc fun g r s hg hhead hlead h => ?_
  cases g with
  | unary u op' y =>
    simp only [chars_unary, List.append_assoc, List.cons_append, List.cons.injEq, true_and,
      List.nil_append] at h
    obtain ⟨rfl, hrest⟩ := UnaryOp.symbol_cut h
    obtain ⟨halike, hrest⟩ := hx.before (g := y) hg rfl hrest
    exact ⟨Outline.alike_node_iff.mpr ⟨rfl, .cons halike .nil⟩, hrest⟩
  | index => exact hhead.elim
  | _ => cases hlead

theorem headCuts_binary (hp : Legible params) {op : BinaryOp} {x y : Form Value}
    (hcx : x.Clear params.length) (hcy : y.Clear params.length) (hx : Cuts params x)
    (hy : Cuts params y) : HeadCuts params (binary t op x y) := by
  refine .of_lead hp ⟨hcx, hcy⟩ fun g r s hg hhead hlead h => ?_
  cases g with
  | binary u op' x' y' =>
    simp only [chars_binary, List.append_assoc, List.cons_append, List.cons.injEq, true_and,
      List.nil_append] at h
    obtain ⟨hleft, h⟩ := hx.before hg.1 rfl h
    obtain ⟨rfl, hrest⟩ := BinaryOp.symbol_cut h
    obtain ⟨hright, hrest⟩ := hy.before hg.2 rfl hrest
    exact ⟨Outline.alike_node_iff.mpr ⟨rfl, .cons hleft (.cons hright .nil)⟩, hrest⟩
  | index => exact hhead.elim
  | _ => cases hlead

theorem headCuts_ite (hp : Legible params) {c x y : Form Value}
    (hclear : (ite t c x y).Clear params.length) (hc : Cuts params c) (hx : Cuts params x)
    (hy : Cuts params y) : HeadCuts params (ite t c x y) := by
  refine .of_lead hp hclear fun g r s hg hhead hlead h => ?_
  cases g with
  | ite u c' x' y' =>
    simp only [chars_ite, List.append_assoc, List.cons_append, List.cons.injEq, true_and,
      List.append_cancel_left_eq, List.nil_append] at h
    obtain ⟨hcond, h⟩ := hc.before hg.1 rfl h
    obtain ⟨hthen, h⟩ := hx.before hg.2.1 rfl (List.append_cancel_left h)
    obtain ⟨helse, h⟩ := hy.before hg.2.2 rfl (List.append_cancel_left h)
    exact ⟨Outline.alike_node_iff.mpr ⟨rfl, .cons hcond (.cons hthen (.cons helse .nil))⟩, h⟩
  | index => exact hhead.elim
  | _ => cases hlead

theorem headCuts_letIn (hp : Legible params) {slot : Nat} {x y : Form Value}
    (hcx : x.Clear params.length) (hcy : y.Clear params.length) (hx : Cuts params x)
    (hy : Cuts params y) : HeadCuts params (letIn t slot x y) := by
  refine .of_lead hp ⟨hcx, hcy⟩ fun g r s hg hhead hlead h => ?_
  cases g with
  | letIn u slot' x' y' =>
    simp only [chars_letIn, List.append_assoc, List.cons_append, List.cons.injEq, true_and,
      List.append_cancel_left_eq, List.nil_append] at h
    obtain ⟨hslot, hrest⟩ := append_inj_of_stops wordChar_slot wordChar_slot
      (stops_cons.mpr rfl) (stops_cons.mpr rfl) h
    obtain rfl : slot = slot' := slot_inj hslot
    obtain ⟨hinit, hrest⟩ :=
      hx.before hg.1 rfl (List.append_cancel_left (List.cons.inj hrest).2)
    obtain ⟨hbody, hrest⟩ := hy.before hg.2 rfl (List.append_cancel_left hrest)
    exact ⟨Outline.alike_node_iff.mpr ⟨rfl, .cons hinit (.cons hbody .nil)⟩, hrest⟩
  | index => exact hhead.elim
  | _ => cases hlead

/-! ### Texts and labels -/

variable (params) in
/-- A head that can be told from every other, with subscripts that can. -/
def Spelled (f : Form Value) : Prop :=
  ∃ h subs, f = subscripted h subs ∧ HeadCuts params h ∧ ∀ i ∈ subs, Cuts params i.2

theorem Spelled.cuts {f : Form Value} (h : Spelled params f) : Cuts params f := by
  obtain ⟨k, subs, rfl, hk, hsubs⟩ := h
  exact hk.subscripted hsubs

theorem HeadCuts.spelled {f : Form Value} (h : HeadCuts params f) : Spelled params f :=
  ⟨f, [], rfl, h, by simp⟩

mutual

/-- By induction on the form: its head is cut off in one way since its parts are. What is carried
along is the head, because a further subscript is put behind the head, not behind the whole. -/
theorem spelled (hp : Legible params) : (f : Form Value) → f.Clear params.length →
    Spelled params f
  | const _ _, h => h.elim
  | param _ _, h => (headCuts_param hp h).spelled
  | localVar _ slot, _ => (headCuts_localVar hp slot).spelled
  | unary _ _ x, h => (headCuts_unary hp (x := x) h (spelled hp x h).cuts).spelled
  | binary _ _ x y, h =>
    (headCuts_binary hp h.1 h.2 (spelled hp x h.1).cuts (spelled hp y h.2).cuts).spelled
  | ite _ c x y, h =>
    (headCuts_ite hp h (spelled hp c h.1).cuts (spelled hp x h.2.1).cuts
      (spelled hp y h.2.2).cuts).spelled
  | letIn _ _ x y, h =>
    (headCuts_letIn hp h.1 h.2 (spelled hp x h.1).cuts (spelled hp y h.2).cuts).spelled
  | list _ xs, h => (headCuts_list hp h (cuts_of_mem hp xs h)).spelled
  | call _ _ xs, h => (headCuts_call hp h (cuts_of_mem hp xs h)).spelled
  | index t x i, h => by
    obtain ⟨k, subs, rfl, hk, hsubs⟩ := spelled hp x h.1
    have hi := (spelled hp i h.2).cuts
    refine ⟨k, subs ++ [(t, i)], by rw [subscripted_append]; rfl, hk, ?_⟩
    intro j hj
    rcases List.mem_append.mp hj with hj | hj
    · exact hsubs j hj
    · cases List.mem_singleton.mp hj
      exact hi

theorem cuts_of_mem (hp : Legible params) : (fs : List (Form Value)) → AllClear params.length fs →
    ∀ f ∈ fs, Cuts params f
  | [], _ => by simp
  | x :: xs, h => by
    have hx := (spelled hp x h.1).cuts
    have hxs := cuts_of_mem hp xs h.2
    intro f hf
    rcases List.mem_cons.mp hf with rfl | hf
    · exact hx
    · exact hxs f hf

end

mutual

/-- The text of a form without constants can be told from its labels. -/
theorem text_eq_of_alike {arity : Nat} (ps : Array Param) : (f g : Form Value) → f.Clear arity →
    f.outline.Alike g.outline → f.text ps = g.text ps
  | const _ _, _, hf, _ => hf.elim
  | param _ _, g, _, h | localVar _ _, g, _, h => by
    cases g <;> cases (Outline.alike_node_iff.mp h).1
    rfl
  | unary _ _ x, g, hf, h => by
    cases g <;> cases (Outline.alike_node_iff.mp h).1
    rcases (Outline.alike_node_iff.mp h).2 with - | ⟨hx, -⟩
    rw [text, text, text_eq_of_alike ps x _ hf hx]
  | binary _ _ x y, g, hf, h | letIn _ _ x y, g, hf, h | index _ x y, g, hf, h => by
    cases g <;> cases (Outline.alike_node_iff.mp h).1
    rcases (Outline.alike_node_iff.mp h).2 with - | ⟨hx, - | ⟨hy, -⟩⟩
    rw [text, text, text_eq_of_alike ps x _ hf.1 hx, text_eq_of_alike ps y _ hf.2 hy]
  | ite _ c x y, g, hf, h => by
    cases g <;> cases (Outline.alike_node_iff.mp h).1
    rcases (Outline.alike_node_iff.mp h).2 with - | ⟨hc, - | ⟨hx, - | ⟨hy, -⟩⟩⟩
    rw [text, text, text_eq_of_alike ps c _ hf.1 hc, text_eq_of_alike ps x _ hf.2.1 hx,
      text_eq_of_alike ps y _ hf.2.2 hy]
  | list _ xs, g, hf, h | call _ _ xs, g, hf, h => by
    cases g <;> cases (Outline.alike_node_iff.mp h).1
    rw [text, text, texts_eq_of_alike ps xs _ hf (Outline.alike_node_iff.mp h).2]

theorem texts_eq_of_alike {arity : Nat} (ps : Array Param) : (fs gs : List (Form Value)) →
    AllClear arity fs → List.Forall₂ Outline.Alike (outlines fs) (outlines gs) →
    texts ps fs = texts ps gs
  | [], [], _, _ => rfl
  | x :: xs, y :: ys, hf, .cons hx hxs => by
    rw [texts, texts, text_eq_of_alike ps x y hf.1 hx, texts_eq_of_alike ps xs ys hf.2 hxs]

end

/-- Without constants, forms have the same text exactly if they have the same labels. -/
theorem text_eq_iff (hp : Legible params) {f g : Form Value} (hf : f.Clear params.length)
    (hg : g.Clear params.length) :
    f.text params.toArray = g.text params.toArray ↔ f.outline.Alike g.outline := by
  constructor
  · intro h
    have hchars : f.chars params ++ [] = g.chars params ++ [] := by rw [chars, chars, h]
    exact ((spelled hp f hf).cuts g [] [] hg (stops_nil _) (stops_nil _) hchars).1
  · exact text_eq_of_alike params.toArray f g hf

end Form

namespace Lambda

/-- Extraction finds no values exactly if there are no constants. -/
theorem extract_values_eq_nil_iff {e : Lambda} {x : Extracted} (hx : e.extract = .ok x) :
    x.values = [] ↔ ∀ p, e.constAt? p = none := by
  obtain ⟨f, h, rfl⟩ := extract_ok hx
  rw [← Arena.map_snd_leaves h.form, List.map_eq_nil_iff, List.eq_nil_iff_forall_not_mem]
  constructor
  · intro hleaves p
    refine Option.eq_none_iff_forall_ne_some.mpr fun v hv => ?_
    exact hleaves (p, v) ((Arena.mem_leaves_iff h.form p v).mpr hv)
  · rintro hnone ⟨p, v⟩ hmem
    have hv := (Arena.mem_leaves_iff h.form p v).mp hmem
    rw [show e.arena.constAt? e.root p = none from hnone p] at hv
    cases hv

/-- Expressions without constants and with the same parameters, whose names can be told apart,
are printed alike exactly if they have the same labels at every address. -/
theorem same_text_iff_same_labels {a b : Lambda} {x y : Extracted} (ha : a.extract = .ok x)
    (hb : b.extract = .ok y) (haconst : ∀ p, a.constAt? p = none)
    (hbconst : ∀ p, b.constAt? p = none) (hparams : a.params = b.params)
    (hnames : Legible a.params) : ∃ text, a.render? = some text ∧
      (b.render? = some text ↔ ∀ p, a.labelAt? p = b.labelAt? p) := by
  have havalues := (extract_values_eq_nil_iff ha).mpr haconst
  have hbvalues := (extract_values_eq_nil_iff hb).mpr hbconst
  obtain ⟨f, hf, rfl⟩ := extract_ok ha
  obtain ⟨g, hg, rfl⟩ := extract_ok hb
  have hfclear : f.Clear a.params.length := Form.Proper.clear f hf.proper havalues
  have hgclear : g.Clear a.params.length := by
    rw [hparams]
    exact Form.Proper.clear g hg.proper hbvalues
  have hheader : b.header = a.header := by rw [header, header, hparams]
  have hlabels : (∀ p, a.labelAt? p = b.labelAt? p) ↔ f.outline.Alike g.outline := by
    refine forall_congr' fun p => ?_
    rw [show a.labelAt? p = f.outline.labelAt? p from labelled_form hf.form p,
      show b.labelAt? p = g.outline.labelAt? p from labelled_form hg.form p]
  refine ⟨_, render?_eq hf.form, ?_⟩
  rw [render?_eq hg.form, hheader, ← hparams, Option.some_inj, String.append_right_inj, eq_comm,
    Form.text_eq_iff hnames hfclear hgclear, hlabels]

/-- `let l0 = abs(if) in if (if < l0) then let[abs - l0] else (let + [abs])[if]`, with
parameters that are named like keywords and a builtin. -/
def keywords : Lambda where
  params := [⟨"if", .int⟩, ⟨"let", .list .int⟩, ⟨"abs", .int⟩]
  arena :=
    { nodes := #[⟨.param 0, .int⟩, ⟨.call .abs ⟨0, 1⟩, .int⟩, ⟨.localVar 0, .int⟩,
        ⟨.binary .lt 0 2, .bool⟩, ⟨.param 1, .list .int⟩, ⟨.param 2, .int⟩,
        ⟨.binary .sub 5 2, .int⟩, ⟨.index 4 6, .int⟩, ⟨.list ⟨1, 1⟩, .list .int⟩,
        ⟨.binary .add 4 8, .list .int⟩, ⟨.index 9 0, .int⟩, ⟨.ite 3 7 10, .int⟩,
        ⟨.letIn 0 1 11, .int⟩]
      table := #[0, 5] }
  root := 12

/-- The labels of `keywords` with other static types, in another order of nodes, with a node for
each reading. -/
def keywordsSpread : Lambda where
  params := keywords.params
  arena :=
    { nodes := #[⟨.param 1, .unit⟩, ⟨.param 2, .str⟩, ⟨.list ⟨0, 1⟩, .list .str⟩,
        ⟨.binary .add 0 2, .unit⟩, ⟨.param 0, .bool⟩, ⟨.index 3 4, .float⟩, ⟨.param 1, .int⟩,
        ⟨.param 2, .int⟩, ⟨.localVar 0, .float⟩, ⟨.binary .sub 7 8, .bool⟩, ⟨.index 6 9, .unit⟩,
        ⟨.param 0, .int⟩, ⟨.localVar 0, .str⟩, ⟨.binary .lt 11 12, .int⟩, ⟨.ite 13 10 5, .unit⟩,
        ⟨.param 0, .float⟩, ⟨.call .abs ⟨1, 1⟩, .float⟩, ⟨.letIn 0 16 14, .str⟩]
      table := #[1, 15] }
  root := 17

theorem legible_keywords : Legible keywords.params where
  word := by
    have hall : keywords.params.all
        (fun p => p.name != "" && p.name.toList.all wordChar) = true := by decide
    intro p hp
    simpa using List.all_eq_true.mp hall p hp
  slot := by
    -- each name has a letter that is neither the leading `l` nor a digit
    have hall : keywords.params.all
        (fun p => p.name.toList.any fun c => c != 'l' && !c.isDigit) = true := by decide
    intro p hp n hname
    obtain ⟨c, hc, hother⟩ := List.any_eq_true.mp (List.all_eq_true.mp hall p hp)
    rw [hname, String.toList_append] at hc
    rcases List.mem_append.mp hc with hc | hc
    · cases List.mem_singleton.mp hc
      cases hother
    · rw [isDigit_of_mem_slot hc, Bool.not_true, Bool.and_false] at hother
      cases hother
  distinct := by decide

/-- Twice a name stands where a keyword could: `(if < l0)` and `(let + [abs])`. -/
theorem same_text_keywords : ∃ x y, keywords.extract = .ok x ∧ keywordsSpread.extract = .ok y ∧
    keywords.render? = some ("|if: int, let: [int], abs: int| " ++
      "(let l0 = abs(if) in (if (if < l0) then let[(abs - l0)] else (let + [abs])[if]))") ∧
    keywordsSpread.render? = keywords.render? ∧
    ∀ p, keywords.labelAt? p = keywordsSpread.labelAt? p := by
  have hone : keywords.render? = some ("|if: int, let: [int], abs: int| " ++
      "(let l0 = abs(if) in (if (if < l0) then let[(abs - l0)] else (let + [abs])[if]))") := by
    decide +kernel
  have htwo : keywordsSpread.render? = keywords.render? := by decide +kernel
  obtain ⟨text, htext, hiff⟩ := same_text_iff_same_labels (a := keywords) (b := keywordsSpread)
    rfl rfl ((extract_values_eq_nil_iff rfl).mp rfl) ((extract_values_eq_nil_iff rfl).mp rfl) rfl
    legible_keywords
  exact ⟨_, _, rfl, rfl, hone, htwo, hiff.mp (htwo.trans htext)⟩

end Lambda

end Stencil
