import Stencil.Proofs.Skeleton
import Stencil.Cache

/-!
# Keys and look-ups

A key carries a fingerprint besides an expression, and keys are compared by both.
Expressions of one shape have one fingerprint, so keys that were made from
expressions are the same exactly if these have the same shape
(`Key.same_ofLambda_iff`). In particular the key that is made from an expression
and the key that is made from its skeleton are the same
(`Key.probe_same_canonical`).

In a cache whose keys all come from well-formed expressions and differ in shape
(`Cache.Orderly`), a look-up finds something exactly if there is an entry of the
shape (`Cache.Orderly.isSome_find?_iff`), and a key that is not found can be added
(`Cache.Orderly.append`).
-/

namespace Stencil

theorem Lambda.keyAndValues_eq (e : Lambda) :
    e.keyAndValues = e.extract.map fun x => (.probe e, x.values) := by
  rw [keyAndValues, extractValues_eq]
  cases e.extract <;> rfl

namespace Key

theorem same_ofLambda_iff {a b : Lambda} :
    (ofLambda a).same (ofLambda b) = true ↔ a.sameShape b = true := by
  show (decide (a.fingerprint = b.fingerprint) && a.sameShape b) = true ↔ _
  rw [Bool.and_eq_true, decide_eq_true_eq, and_iff_right_iff_imp]
  exact Lambda.fingerprint_of_sameShape

/-- The two keys of a well-formed expression have one shape. -/
theorem sameShape_probe_canonical {e : Lambda} {f : Form Value} (h : e.HasForm f) :
    (probe e).lambda.sameShape (canonical (f.skeleton e.params) e.params).lambda = true :=
  Lambda.sameShape_trans (sameShape_probe h.form) (Lambda.sameShape_symm (sameShape_canonical h))

/-- Probes compare as the expressions do that they were made from. -/
theorem sameShape_probes_iff {a b : Lambda} {f g : Form Value} (ha : a.HasForm f)
    (hb : b.HasForm g) :
    (probe a).lambda.sameShape (probe b).lambda = true ↔ a.sameShape b = true := by
  have hpa := sameShape_probe ha.form
  have hpb := sameShape_probe hb.form
  constructor
  · intro h
    exact Lambda.sameShape_trans (Lambda.sameShape_symm hpa) (Lambda.sameShape_trans h hpb)
  · intro h
    exact Lambda.sameShape_trans hpa (Lambda.sameShape_trans h (Lambda.sameShape_symm hpb))

/-- The key of a well-formed expression and the key of its skeleton are the same,
fingerprints included; and the keys of two well-formed expressions are the same
exactly if the expressions have the same shape. -/
theorem probe_same_canonical {a b : Lambda} {x y : Extracted} (ha : a.extract = .ok x)
    (hb : b.extract = .ok y) :
    (probe a).same (canonical x.skeleton a.params) = true ∧
    (probe a).hash = (canonical x.skeleton a.params).hash ∧
    ((probe a).same (probe b) = true ↔ a.sameShape b = true) := by
  obtain ⟨f, hf, rfl⟩ := Lambda.extract_ok ha
  obtain ⟨g, hg, rfl⟩ := Lambda.extract_ok hb
  have hshape := sameShape_probe_canonical hf
  refine ⟨same_ofLambda_iff.mpr hshape, Lambda.fingerprint_of_sameShape hshape, ?_⟩
  exact same_ofLambda_iff.trans (sameShape_probes_iff hf hg)

theorem probe_same_canonical_rebinding : ∃ x y, Lambda.rebinding.extract = .ok x ∧
    Lambda.rebindingSpread.extract = .ok y ∧
    (probe .rebinding).same (canonical x.skeleton Lambda.rebinding.params) = true ∧
    (probe .rebinding).hash = (canonical x.skeleton Lambda.rebinding.params).hash ∧
    (probe .rebinding).same (probe .rebindingSpread) = true := by
  obtain ⟨hsame, hhash, hiff⟩ :=
    probe_same_canonical (a := .rebinding) (b := .rebindingSpread) rfl rfl
  exact ⟨_, _, rfl, rfl, hsame, hhash, hiff.mpr (by decide)⟩

/-- The key comes from a well-formed expression, in one of the two ways. -/
inductive Genuine : Key → Prop where
  | probe {e : Lambda} {key : Key} {values : List Value} :
      e.keyAndValues = .ok (key, values) → Genuine key
  | canonical {e : Lambda} {x : Extracted} :
      e.extract = .ok x → Genuine (.canonical x.skeleton e.params)

theorem genuine_probe {e : Lambda} {x : Extracted} (h : e.extract = .ok x) :
    (probe e).Genuine := by
  have hkey : e.keyAndValues = .ok (probe e, x.values) := by
    rw [Lambda.keyAndValues_eq, h]
    rfl
  exact .probe hkey

/-- A genuine key has the fingerprint of its expression, and the shape of a
well-formed one. -/
theorem Genuine.spec {k : Key} (hk : k.Genuine) :
    ofLambda k.lambda = k ∧ ∃ e f, e.HasForm f ∧ k.lambda.sameShape e = true := by
  cases hk with
  | @probe e _ values h =>
    rw [Lambda.keyAndValues_eq] at h
    cases hx : e.extract with
    | error fault =>
      rw [hx] at h
      cases h
    | ok x =>
      rw [hx] at h
      cases h
      obtain ⟨f, hf, -⟩ := Lambda.extract_ok hx
      exact ⟨rfl, e, f, hf, sameShape_probe hf.form⟩
  | @canonical e x h =>
    obtain ⟨f, hf, rfl⟩ := Lambda.extract_ok h
    exact ⟨rfl, e, f, hf, sameShape_canonical hf⟩

theorem Genuine.same_iff {k l : Key} (hk : k.Genuine) (hl : l.Genuine) :
    k.same l = true ↔ k.lambda.sameShape l.lambda = true := by
  rw [← same_ofLambda_iff, hk.spec.1, hl.spec.1]

theorem Genuine.sameShape_self {k : Key} (hk : k.Genuine) :
    k.lambda.sameShape k.lambda = true := by
  obtain ⟨-, e, f, -, h⟩ := hk.spec
  exact Lambda.sameShape_trans h (Lambda.sameShape_symm h)

end Key

namespace Cache

/-- Keys of one shape are looked up alike. -/
theorem find?_ofLambda_congr (c : Cache) {a b : Lambda} (h : a.sameShape b = true) :
    c.find? (.ofLambda a) = c.find? (.ofLambda b) := by
  have hkey : (fun entry : Entry => entry.key.same (.ofLambda a))
      = fun entry => entry.key.same (.ofLambda b) := by
    funext entry
    exact Key.same_ofLambda_congr h entry.key
  rw [find?, find?, hkey]

theorem find?_congr (c : Cache) {k l : Key} (hk : k.Genuine) (hl : l.Genuine)
    (h : k.lambda.sameShape l.lambda = true) : c.find? k = c.find? l := by
  have hfind := c.find?_ofLambda_congr h
  rwa [hk.spec.1, hl.spec.1] at hfind

/-- Entries that are added at the end do not hide those that were there. -/
theorem find?_mono {c d : Cache} (h : c.entries <+: d.entries) {k : Key} {built : Built}
    (hfind : c.find? k = some built) : d.find? k = some built := by
  obtain ⟨entry, hentry, rfl⟩ := Option.map_eq_some_iff.mp hfind
  obtain ⟨added, hadded⟩ := h
  rw [find?, ← hadded, List.find?_append, hentry]
  rfl

/-- The entry that is added is found where nothing was found before. -/
theorem find?_append {c d : Cache} {key k : Key} {built : Built}
    (hd : d.entries = c.entries ++ [⟨key, built⟩]) (hnone : c.find? k = none)
    (hsame : key.same k = true) : d.find? k = some built := by
  rw [find?, Option.map_eq_none_iff] at hnone
  rw [find?, hd, List.find?_append, hnone]
  simp [hsame]

/-- Every key comes from a well-formed expression, and no two have one shape. -/
structure Orderly (c : Cache) : Prop where
  genuine : ∀ entry ∈ c.entries, entry.key.Genuine
  distinct : c.entries.Pairwise fun x y => x.key.lambda.sameShape y.key.lambda = false

theorem orderly_empty : empty.Orderly where
  genuine _ h := absurd h List.not_mem_nil
  distinct := .nil

namespace Orderly

variable {c d : Cache} {k : Key}

/-- A look-up finds something exactly if an entry has the shape of the key. -/
theorem isSome_find?_iff (hc : c.Orderly) (hk : k.Genuine) :
    (c.find? k).isSome = true ↔
      ∃ entry ∈ c.entries, entry.key.lambda.sameShape k.lambda = true := by
  rw [find?, Option.isSome_map, List.find?_isSome]
  constructor
  · rintro ⟨entry, hentry, hsame⟩
    exact ⟨entry, hentry, ((hc.genuine entry hentry).same_iff hk).mp hsame⟩
  · rintro ⟨entry, hentry, hshape⟩
    exact ⟨entry, hentry, ((hc.genuine entry hentry).same_iff hk).mpr hshape⟩

/-- A key that is not found can be added. -/
theorem append (hc : c.Orderly) (hk : k.Genuine) (hnone : c.find? k = none) {built : Built}
    (hd : d.entries = c.entries ++ [⟨k, built⟩]) : d.Orderly where
  genuine entry hentry := by
    rw [hd, List.mem_append, List.mem_singleton] at hentry
    rcases hentry with hold | rfl
    · exact hc.genuine entry hold
    · exact hk
  distinct := by
    rw [hd, List.pairwise_append]
    refine ⟨hc.distinct, List.pairwise_singleton _ _, fun entry hentry new hnew => ?_⟩
    cases List.mem_singleton.mp hnew
    -- an entry of the shape would have been found
    rw [Bool.eq_false_iff]
    intro hshape
    have hsome := (hc.isSome_find?_iff hk).mpr ⟨entry, hentry, hshape⟩
    rw [hnone] at hsome
    cases hsome

end Orderly

end Cache

end Stencil
