import Stencil.Proofs.Outline
import Stencil.Proofs.Typing
import Stencil.Value.Native

/-!
# Values and the data that they hold

Data of a type is written as a value that fits the type, and read back as it was.
Reading takes more than fitting values: it looks at the structure of a value
(`Value.Matches`) and not at the tags of its lists. What it reads, written again, is
the value with the tags of the type (`Value.retag`), which is the value itself
exactly if that fits the type already (`Native.reads_what_matches`).

Empty lists are why this takes two notions. They match every list type, and only
their tag says which of them they fit.
-/

namespace Stencil

namespace Value

/-- The value has the structure of the type: scalars of its kinds at the leaves and
lists at the list levels, whatever their tags say. -/
inductive Matches : Ty → Value → Prop where
  | int (n : Int64) : Matches .int (.int n)
  | float (x : Binary64) : Matches .float (.float x)
  | bool (b : Bool) : Matches .bool (.bool b)
  | str (s : String) : Matches .str (.str s)
  | unit : Matches .unit .unit
  | list (elem tag : Ty) (items : List Value) :
      (∀ v ∈ items, Matches elem v) → Matches (.list elem) (.list tag items)

/-- The value with the tag of every list replaced by that of the type. -/
def retag : Ty → Value → Value
  | .list elem, .list _ items => .list elem (items.map (retag elem))
  | _, v => v

/-- Only a value that fits the type has the tags of the type. -/
theorem retag_eq_self_iff {t : Ty} {v : Value} (h : Matches t v) : v.retag t = v ↔ v.Fits t := by
  induction h with
  | list elem tag items _ ih =>
    have hitems : items.map (retag elem) = items ↔ ∀ w ∈ items, w.retag elem = w := by
      simpa using List.map_eq_map_iff (f := retag elem) (l := items) (g := id)
    rw [retag, Value.list.injEq, hitems]
    constructor
    · rintro ⟨rfl, hall⟩
      exact fits_list_iff.mpr fun w hw => (ih w hw).mp (hall w hw)
    · intro hfit
      obtain rfl : tag = elem := Ty.list.inj hfit.ty
      exact ⟨rfl, fun w hw => (ih w hw).mpr (fits_list_iff.mp hfit w hw)⟩
  | _ => exact ⟨fun _ => ⟨rfl, rfl⟩, fun _ => rfl⟩

theorem Fits.matches {t : Ty} {v : Value} (h : v.Fits t) : Matches t v := by
  induction t generalizing v with
  | list elem ih =>
    obtain ⟨items, rfl, hitems⟩ := h.cases
    exact .list elem elem items fun w hw => ih (hitems w hw)
  | unit =>
    have hv : v = .unit := h.cases
    rw [hv]
    exact .unit
  | int | float | bool | str =>
    obtain ⟨_, rfl⟩ := h.cases
    constructor

end Value

namespace Native

/-- Data is written as a value of its type, down to the items of its lists. -/
theorem fits_toValue (t : Ty) (x : t.Native) : (toValue t x).Fits t := by
  induction t with
  | list elem ih =>
    rw [toValue, Value.fits_list_iff]
    exact List.forall_mem_map.mpr fun y _ => ih y
  | _ => exact ⟨rfl, rfl⟩

theorem ofValue?_toValue (t : Ty) (x : t.Native) : ofValue? t (toValue t x) = some x := by
  induction t with
  | list elem ih =>
    have hitem : ofValue? elem ∘ toValue elem = fun y => pure y := funext ih
    show (x.map (toValue elem)).mapM (ofValue? elem) = some x
    rw [List.mapM_map, hitem, List.mapM_pure, List.map_id']
    rfl
  | _ => rfl

/-- What can be read is what has the structure of the type. -/
theorem exists_ofValue?_iff (t : Ty) (v : Value) :
    (∃ x, ofValue? t v = some x) ↔ v.Matches t := by
  constructor
  · rintro ⟨x, hx⟩
    induction t generalizing v with
    | list elem ih =>
      cases v with
      | list tag items =>
        have hall := (Arena.isSome_mapM items).mp (Option.isSome_of_eq_some hx)
        refine .list elem tag items fun w hw => ?_
        obtain ⟨y, hy⟩ := Option.isSome_iff_exists.mp (hall w hw)
        exact ih w y hy
      | _ => cases hx
    | _ =>
      cases v <;> cases hx
      constructor
  · intro h
    induction h with
    | list elem tag items _ ih =>
      refine Option.isSome_iff_exists.mp ((Arena.isSome_mapM items).mpr fun w hw => ?_)
      exact Option.isSome_iff_exists.mpr (ih w hw)
    | _ => exact ⟨_, rfl⟩

/-- Reading and writing again puts the tags of the type in. -/
theorem toValue_of_ofValue? {t : Ty} {v : Value} {x : t.Native} (h : ofValue? t v = some x) :
    toValue t x = v.retag t := by
  induction t generalizing v with
  | list elem ih =>
    cases v with
    | list tag items =>
      have hitem : ∀ w y, ofValue? elem w = some y → pure (w.retag elem) = some (toValue elem y) :=
        fun w y hy => congrArg some (ih hy).symm
      have hitems := Arena.mapM_map_of hitem h
      rw [List.mapM_pure] at hitems
      rw [toValue, Value.retag, Option.some.inj hitems]
    | _ => cases h
  | _ =>
    cases v <;> cases h
    rfl

/-- A value that fits a type holds data of the type, which is written as that value. -/
theorem exists_of_fits {t : Ty} {v : Value} (h : v.Fits t) :
    ∃ x, ofValue? t v = some x ∧ toValue t x = v := by
  obtain ⟨x, hx⟩ := (exists_ofValue?_iff t v).mpr h.matches
  exact ⟨x, hx, (toValue_of_ofValue? hx).trans ((Value.retag_eq_self_iff h.matches).mpr h)⟩

/-- Data of any type is written as a value that fits the type and read back as it
was. A value can be read exactly if it has the structure of the type, and what is
read is written as that value with the tags of the type: as the value itself exactly
if it fits the type. -/
theorem reads_what_matches (t : Ty) :
    (∀ x : t.Native, ofValue? t (toValue t x) = some x ∧ (toValue t x).Fits t) ∧
    ∀ v : Value,
      ((∃ x, ofValue? t v = some x) ↔ v.Matches t) ∧
      ∀ x, ofValue? t v = some x → toValue t x = v.retag t ∧ (toValue t x = v ↔ v.Fits t) := by
  refine ⟨fun x => ⟨ofValue?_toValue t x, fits_toValue t x⟩, fun v => ?_⟩
  refine ⟨exists_ofValue?_iff t v, fun x hx => ?_⟩
  have hmatches := (exists_ofValue?_iff t v).mp ⟨x, hx⟩
  rw [toValue_of_ofValue? hx]
  exact ⟨rfl, Value.retag_eq_self_iff hmatches⟩

/-- A list of lists of integers under other tags, with an empty list in it. -/
theorem reads_what_matches_mistagged :
    ∃ x, ofValue? (.list (.list .int)) (.list .str [.list .bool [], .list .unit [.int 7]]) = some x ∧
      toValue (.list (.list .int)) x = .list (.list .int) [.list .int [], .list .int [.int 7]] ∧
      ¬ (Value.list .str [.list .bool [], .list .unit [.int 7]]).Fits (.list (.list .int)) := by
  obtain ⟨-, hvalues⟩ := reads_what_matches (.list (.list .int))
  obtain ⟨-, hread⟩ := hvalues (.list .str [.list .bool [], .list .unit [.int 7]])
  obtain ⟨hretag, hiff⟩ := hread [[], [7]] rfl
  refine ⟨_, rfl, hretag, fun hfit => ?_⟩
  cases hretag.symm.trans (hiff.mpr hfit)

end Native

end Stencil
