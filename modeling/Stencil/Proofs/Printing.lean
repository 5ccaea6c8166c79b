import Stencil.Proofs.Layout
import Stencil.Lambda.Text

/-!
# The printed form

The printer walks an arena, with a bound on the nesting and a text to go on from.
On a node that has a form it appends `Form.text`, which knows neither arena nor
bound (`Arena.write?_eq`): however an expression is laid out, and whatever nodes its
parts share, it is printed as its form.
-/

namespace Stencil

/-- How a parameter is printed: by name, if it is declared. -/
def paramText (params : Array Param) (i : Nat) : String :=
  match params[i]? with
  | some p => p.name
  | none => "<param #" ++ toString i ++ ">"

namespace Form

variable (params : Array Param)

mutual

/-- The printed form, every compound in parentheses. -/
def text : Form Value → String
  | const _ v => v.text
  | param _ i => paramText params i
  | localVar _ slot => "l" ++ toString slot
  | unary _ op x => "(" ++ op.symbol ++ x.text ++ ")"
  | binary _ op l r => "(" ++ l.text ++ " " ++ op.symbol ++ " " ++ r.text ++ ")"
  | ite _ c x y => "(if " ++ c.text ++ " then " ++ x.text ++ " else " ++ y.text ++ ")"
  | letIn _ slot i b => "(let l" ++ toString slot ++ " = " ++ i.text ++ " in " ++ b.text ++ ")"
  | list _ xs => "[" ++ ", ".intercalate (texts xs) ++ "]"
  | index _ r i => r.text ++ "[" ++ i.text ++ "]"
  | call _ f xs => f.text ++ "(" ++ ", ".intercalate (texts xs) ++ ")"

def texts : List (Form Value) → List String
  | [] => []
  | x :: xs => x.text :: texts xs

end

end Form

namespace Arena

variable {a : Arena} {params : Array Param}

/-- Children that are printed as their forms are printed with commas between them. -/
theorem writeAll?_eq {write : NodeId → String → Option String}
    {child : NodeId → Option (Form Value)}
    (hwrite : ∀ c f, child c = some f → ∀ s, write c s = some (s ++ f.text params))
    {ids : List NodeId} {fs : List (Form Value)} (h : ids.mapM child = some fs) (s : String) :
    writeAll? write ids s = some (s ++ ", ".intercalate (Form.texts params fs)) := by
  induction ids generalizing fs s with
  | nil =>
    cases h
    simp [writeAll?, Form.texts]
  | cons c ids ih =>
    simp only [List.mapM_cons, Option.bind_eq_bind, Option.bind_eq_some_iff] at h
    obtain ⟨f, hf, fs, hfs, h⟩ := h
    cases h
    cases ids with
    | nil =>
      cases hfs
      simp [writeAll?, Form.texts, hwrite c f hf]
    | cons d ids =>
      obtain ⟨g, gs, rfl⟩ : ∃ g gs, fs = g :: gs := by
        simp only [List.mapM_cons, Option.bind_eq_bind, Option.bind_eq_some_iff] at hfs
        obtain ⟨g, -, gs, -, h⟩ := hfs
        cases h
        exact ⟨g, gs, rfl⟩
      show ((write c s).bind fun s => writeAll? write (d :: ids) (s ++ ", ")) = _
      rw [hwrite c f hf, Option.bind_some, ih hfs]
      simp [Form.texts, String.append_assoc]

/-- A node is printed as its form. -/
theorem write?_eq {depth id : Nat} {f : Form Value} (h : a.form? id = some f) (hdepth : id < depth)
    (s : String) : a.write? params depth id s = some (s ++ f.text params) := by
  induction depth generalizing id f s with
  | zero => exact absurd hdepth (Nat.not_lt_zero id)
  | succ depth ih =>
    -- children come before their parent, so the bound suffices for them
    have hchild : ∀ c f, (if c < id then a.form? c else none) = some f →
        ∀ s, a.write? params depth c s = some (s ++ f.text params) := by
      intro c f hc s
      by_cases hlt : c < id
      · rw [if_pos hlt] at hc
        exact ih hc (by omega) s
      · rw [if_neg hlt] at hc
        cases hc
    rw [form?_eq, Option.bind_eq_some_iff] at h
    obtain ⟨⟨kind, ty⟩, hnode, h⟩ := h
    rw [write?, hnode]
    cases kind <;> simp only [compose, Option.bind_eq_bind, Option.bind_eq_some_iff] at h
    case const =>
      cases h
      rfl
    case param i =>
      cases h
      cases hp : params[i]? <;> simp [hp, Form.text, paramText, String.append_assoc]
    case localVar =>
      cases h
      simp [Form.text, String.append_assoc]
    case unary =>
      obtain ⟨x, hx, h⟩ := h
      cases h
      simp [hchild _ _ hx, Form.text, String.append_assoc]
    case binary | index | letIn =>
      obtain ⟨x, hx, y, hy, h⟩ := h
      cases h
      simp [hchild _ _ hx, hchild _ _ hy, Form.text, String.append_assoc]
    case ite =>
      obtain ⟨x, hx, y, hy, z, hz, h⟩ := h
      cases h
      simp [hchild _ _ hx, hchild _ _ hy, hchild _ _ hz, Form.text, String.append_assoc]
    case list | call =>
      obtain ⟨ids, hids, fs, hfs, h⟩ := h
      cases h
      simp [hids, writeAll?_eq hchild hfs, Form.text, String.append_assoc]

end Arena

/-- An expression is printed as its form, behind its parameters. -/
theorem Lambda.render?_eq {e : Lambda} {f : Form Value} (h : e.tree.form? = some f) :
    e.render? = some (e.header ++ f.text e.params.toArray) :=
  Arena.write?_eq h (Nat.lt_succ_of_lt (Arena.form?_lt h)) e.header

end Stencil
