import Mathlib.Algebra.Group.Nat.Defs
import Mathlib.Data.List.Nodup
import WidgetStyle.Flag.Registry

/-!
# What a registry knows

A registry is well formed when its map leads from each name in the table to its place, and from
nothing else. The empty registry is, and putting a name into the table keeps it so. Handles that
were given once are kept (`Extends`). As long as places fit into handles, a handle leads back to
its name.
-/

namespace WidgetStyle.Registry

/-- The map leads from the names of the table to their places, and no name is there twice. -/
structure WellFormed (registry : Registry) : Prop where
  nodup : registry.names.toList.Nodup
  lookup_eq_some_iff : ∀ name flag, registry.lookup name = some flag ↔
    ∃ place, registry.names[place]? = some name ∧ flag = Flag.ofPlace place

/-- All that the one registry knows the other one knows as well. -/
structure Extends (registry other : Registry) : Prop where
  names : ∀ (place : Nat) (name : String), registry.names[place]? = some name →
    other.names[place]? = some name
  lookup : ∀ name flag, registry.lookup name = some flag → other.lookup name = some flag

theorem Extends.refl (registry : Registry) : registry.Extends registry :=
  ⟨fun _ _ hname => hname, fun _ _ hlookup => hlookup⟩

theorem Extends.trans {registry other last : Registry} (hextends : registry.Extends other)
    (hlast : other.Extends last) : registry.Extends last :=
  ⟨fun place name hname => hlast.names place name (hextends.names place name hname),
    fun name flag hlookup => hlast.lookup name flag (hextends.lookup name flag hlookup)⟩

theorem wellFormed_empty : empty.WellFormed := by
  refine ⟨List.nodup_nil, ?_⟩
  intro name flag
  simp [empty, lookup]

/-! ### Interning -/

theorem lookup_insert (registry : Registry) (name other : String) (flag : Flag) :
    lookup ⟨registry.names.push name, registry.handles.insert name flag⟩ other =
      if name = other then some flag else registry.lookup other := by
  simp only [lookup, Std.TreeMap.getElem?_insert, Std.LawfulEqCmp.compare_eq_iff_eq]

theorem lookup_intern (registry : Registry) (name : String) :
    (registry.intern name).2.lookup name = some (registry.intern name).1 := by
  unfold intern
  split
  · next hlookup => exact hlookup
  · rw [lookup_insert, if_pos rfl]

theorem extends_intern (registry : Registry) (name : String) :
    registry.Extends (registry.intern name).2 := by
  unfold intern
  split
  · exact .refl registry
  · next hnone =>
    constructor
    · intro place other hother
      have hbound := (Array.getElem?_eq_some_iff.mp hother).1
      rwa [Array.getElem?_push_lt hbound, ← Array.getElem?_eq_getElem hbound]
    · intro other flag hother
      have hapart : name ≠ other := by
        rintro rfl
        rw [hother] at hnone
        cases hnone
      rw [lookup_insert, if_neg hapart, hother]

/-- A name without a handle is not in the table. -/
theorem WellFormed.not_mem {registry : Registry} (hformed : registry.WellFormed) {name : String}
    (hnone : registry.lookup name = none) (place : Nat) : registry.names[place]? ≠ some name := by
  intro hplace
  rw [(hformed.lookup_eq_some_iff name _).mpr ⟨place, hplace, rfl⟩] at hnone
  cases hnone

theorem WellFormed.intern {registry : Registry} (hformed : registry.WellFormed) (name : String) :
    (registry.intern name).2.WellFormed := by
  unfold Registry.intern
  split
  · exact hformed
  · next hnone =>
    have hfresh := hformed.not_mem hnone
    constructor
    · rw [Array.toList_push]
      refine List.nodup_append.mpr ⟨hformed.nodup, List.nodup_singleton _, ?_⟩
      intro other hother last hlast
      obtain rfl := List.mem_singleton.mp hlast
      rintro rfl
      obtain ⟨place, hplace⟩ := List.mem_iff_getElem?.mp hother
      rw [Array.getElem?_toList] at hplace
      exact hfresh place hplace
    · intro other flag
      rw [lookup_insert]
      by_cases hsame : name = other
      · subst hsame
        rw [if_pos rfl, Option.some.injEq]
        constructor
        · rintro rfl
          exact ⟨registry.size, Array.getElem?_push_size, rfl⟩
        · rintro ⟨place, hplace, rfl⟩
          rw [Array.getElem?_push] at hplace
          split at hplace
          · next hlast => rw [hlast]; rfl
          · exact absurd hplace (hfresh place)
      · rw [if_neg hsame, hformed.lookup_eq_some_iff]
        have hplaces : ∀ place : Nat,
            (registry.names.push name)[place]? = some other ↔ registry.names[place]? = some other := by
          intro place
          rw [Array.getElem?_push]
          split
          · next hlast => simp [hlast, hsame]
          · rfl
        simp only [hplaces]

/-! ### Interning in a row -/

theorem internAll_append (registry : Registry) (front back : List String) :
    (registry.internAll (front ++ back)).2 = ((registry.internAll front).2.internAll back).2 := by
  induction front generalizing registry with
  | nil => rfl
  | cons name front ih => exact ih (registry.intern name).2

theorem extends_internAll (registry : Registry) (names : List String) :
    registry.Extends (registry.internAll names).2 := by
  induction names generalizing registry with
  | nil => exact .refl registry
  | cons name names ih => exact (registry.extends_intern name).trans (ih (registry.intern name).2)

theorem exists_lookup_internAll (registry : Registry) {names : List String} {name : String}
    (hname : name ∈ names) : ∃ flag, (registry.internAll names).2.lookup name = some flag := by
  induction names generalizing registry with
  | nil => cases hname
  | cons first names ih =>
    rcases List.mem_cons.mp hname with rfl | hname
    · exact ⟨_, (extends_internAll _ names).lookup name _ (registry.lookup_intern name)⟩
    · exact ih (registry.intern first).2 hname

theorem WellFormed.internAll {registry : Registry} (hformed : registry.WellFormed)
    (names : List String) : (registry.internAll names).2.WellFormed := by
  induction names generalizing registry with
  | nil => exact hformed
  | cons name names ih => exact ih (hformed.intern name)

/-! ### Names of handles -/

/-- As long as places fit into handles, a handle leads back to its name. -/
theorem WellFormed.name_eq {registry : Registry} (hformed : registry.WellFormed)
    (hsize : registry.size ≤ 2 ^ 32) {name : String} {flag : Flag}
    (hlookup : registry.lookup name = some flag) : registry.name flag = some name := by
  obtain ⟨place, hplace, rfl⟩ := (hformed.lookup_eq_some_iff name flag).mp hlookup
  have hbound : place < 2 ^ 32 := by
    obtain ⟨hbound, -⟩ := Array.getElem?_eq_some_iff.mp hplace
    exact Nat.lt_of_lt_of_le hbound hsize
  rw [Registry.name, Flag.place, Flag.ofPlace, UInt32.toNat_ofNat_of_lt' hbound, hplace]

end WidgetStyle.Registry
