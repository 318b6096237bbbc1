import WidgetStyle.Flag.Call
import WidgetStyle.Proofs.Binding
import WidgetStyle.Proofs.Identifiers

/-!
# What calls leave in a registry

All that a call does to a registry is to intern names in a row: one name, the identifiers of a text
that is read, or none (`call_snd`). So a registry behind any calls is one that has interned a list
of names (`run_snd`), and what is known of interning carries over: the table has these names in
their order, each once, the map leads back and forth, and nothing that was known is forgotten
(`handles_of_run`). A text with a fault leaves no trace, and one that is read leaves its identifiers
at the end of the table (`names_of_parse`).
-/

namespace WidgetStyle

namespace Registry

open Formula (identifiers)

/-! ### The table -/

theorem WellFormed.mem_names_iff {registry : Registry} (hformed : registry.WellFormed)
    {name : String} : name ∈ registry.names ↔ ∃ flag, registry.lookup name = some flag := by
  simp only [hformed.lookup_eq_some_iff, Array.mem_iff_getElem?]
  constructor
  · rintro ⟨place, hplace⟩
    exact ⟨_, place, hplace, rfl⟩
  · rintro ⟨flag, place, hplace, -⟩
    exact ⟨place, hplace⟩

theorem intern_of_lookup {registry : Registry} {name : String} {flag : Flag}
    (hlookup : registry.lookup name = some flag) : registry.intern name = (flag, registry) := by
  rw [intern, hlookup]

theorem WellFormed.intern_of_mem {registry : Registry} (hformed : registry.WellFormed)
    {name : String} (hname : name ∈ registry.names) : (registry.intern name).2 = registry := by
  obtain ⟨flag, hlookup⟩ := hformed.mem_names_iff.mp hname
  rw [intern_of_lookup hlookup]

theorem WellFormed.names_intern_of_not_mem {registry : Registry} (hformed : registry.WellFormed)
    {name : String} (hname : name ∉ registry.names) :
    (registry.intern name).2.names = registry.names.push name := by
  have hnone : registry.lookup name = none := by
    by_contra hsome
    exact hname (hformed.mem_names_iff.mpr (Option.ne_none_iff_exists'.mp hsome))
  rw [Registry.intern, hnone]

/-- Interning puts the new ones of the names behind the table, each once. -/
theorem WellFormed.names_internAll {registry : Registry} (hformed : registry.WellFormed)
    (names : List String) : (registry.internAll names).2.names.toList =
      registry.names.toList ++ (names.filter (· ∉ registry.names)).eraseDups := by
  induction names generalizing registry with
  | nil => exact (List.append_nil _).symm
  | cons name names ih =>
    have hrest := ih (hformed.intern name)
    change ((registry.intern name).2.internAll names).2.names.toList = _
    by_cases hname : name ∈ registry.names
    · rw [hformed.intern_of_mem hname] at hrest ⊢
      rw [hrest, List.filter_cons_of_neg (by simpa using hname)]
    · -- the table has the name from here on, so it is left out of the rest
      rw [hrest, hformed.names_intern_of_not_mem hname,
        List.filter_cons_of_pos (by simpa using hname), List.eraseDups_cons, List.filter_filter,
        Array.toList_push, List.append_assoc, List.singleton_append]
      congr 3
      refine List.filter_congr fun other _ => ?_
      by_cases hsame : other = name
      · simp [hsame]
      · simp [hsame]

/-- Names that are known already leave the registry as it is. -/
theorem internAll_of_lookup {registry : Registry} {names : List String}
    (hknown : ∀ name ∈ names, ∃ flag, registry.lookup name = some flag) :
    (registry.internAll names).2 = registry := by
  induction names with
  | nil => rfl
  | cons name names ih =>
    obtain ⟨flag, hlookup⟩ := hknown name List.mem_cons_self
    have hrest := ih fun other hother => hknown other (List.mem_cons_of_mem _ hother)
    change ((registry.intern name).2.internAll names).2 = registry
    rw [intern_of_lookup hlookup]
    exact hrest

/-- A text whose names are known gives its formula over their handles, and leaves the registry as it
is. -/
theorem parse_of_lookup {registry : Registry} {text : String} {limit : Nat}
    {named : Formula String} {handle : String → Flag}
    (hread : Formula.parse text limit = .ok named)
    (hhandle : ∀ name ∈ named.occurrences, registry.lookup name = some (handle name))
    (negate : Bool) :
    registry.parse text negate limit =
      .ok (if negate then .not (named.map handle) else named.map handle, registry) := by
  have hsame : (named.bind registry).2 = registry := by
    rw [Formula.bind_snd]
    exact internAll_of_lookup fun name hname => ⟨_, hhandle name hname⟩
  have hextends : (named.bind registry).2.Extends registry := by
    rw [hsame]
    exact .refl registry
  rw [registry.parse_of_formula negate hread, hsame,
    Formula.bind_fst registry named hextends hhandle]

/-! ### Names and handles -/

/-- Names and handles belong together one to one. -/
def Bijective (registry : Registry) : Prop :=
  ∀ name flag, registry.lookup name = some flag ↔ registry.name flag = some name

theorem WellFormed.bijective {registry : Registry} (hformed : registry.WellFormed)
    (hsize : registry.size ≤ 2 ^ 32) : registry.Bijective := by
  intro name flag
  constructor
  · intro hlookup
    exact hformed.name_eq hsize hlookup
  · intro hname
    refine (hformed.lookup_eq_some_iff name flag).mpr ⟨flag.place, hname, ?_⟩
    rw [Flag.place, Flag.ofPlace, UInt32.ofNat_toNat]

theorem place_ofPlace {place : Nat} (hplace : place < 2 ^ 32) :
    (Flag.ofPlace place).place = place := by
  rw [Flag.place, Flag.ofPlace, UInt32.toNat_ofNat_of_lt' hplace]

/-- The handles that names have are the places of the table. -/
theorem Bijective.exists_lookup_iff {registry : Registry} (hbijective : registry.Bijective)
    (hsize : registry.size ≤ 2 ^ 32) (place : Nat) :
    (∃ name flag, registry.lookup name = some flag ∧ flag.place = place) ↔
      place < registry.size := by
  constructor
  · rintro ⟨name, flag, hlookup, rfl⟩
    have hname := (hbijective name flag).mp hlookup
    exact (Array.getElem?_eq_some_iff.mp hname).1
  · intro hplace
    have hflag := place_ofPlace (Nat.lt_of_lt_of_le hplace hsize)
    have hbound : place < registry.names.size := hplace
    refine ⟨registry.names[place], Flag.ofPlace place, (hbijective _ _).mpr ?_, hflag⟩
    rw [Registry.name, hflag]
    exact Array.getElem?_eq_getElem hplace

/-- As long as the other registry has a place for every handle, it has the same names for them. -/
theorem Extends.name {registry other : Registry} (hextends : registry.Extends other) {flag : Flag}
    {name : String} (hname : registry.name flag = some name) : other.name flag = some name :=
  hextends.names flag.place name hname

/-! ### Calls -/

/-- The names that a call puts into the table if they are not there: those of a text only if it is
read to its end. -/
def Call.interned : Call → List String
  | .intern word => [word]
  | .parse text _ limit =>
    match Formula.parse text limit with
    | .error _ => []
    | .ok _ => identifiers text
  | .lookup _ | .name _ | .size | .evaluate _ _ | .snapshot => []

/-- **All that a call does to a registry is to intern names.** -/
theorem call_snd (registry : Registry) (call : Call) :
    (registry.call call).2 = (registry.internAll call.interned).2 := by
  cases call with
  | intern name => rfl
  | parse text negate limit =>
    cases hread : Formula.parse text limit with
    | error e => simp [Registry.call, parse, Call.interned, hread, internAll]
    | ok named =>
      have hparse := registry.parse_of_formula negate hread
      simp only [Registry.call, Call.interned, hparse, hread]
      rw [Formula.bind_snd, Formula.occurrences_of_parse hread]
  | lookup name => rfl
  | name flag => rfl
  | size => rfl
  | evaluate formula flags => rfl
  | snapshot => rfl

theorem run_append (registry : Registry) (front back : List Call) :
    (registry.run (front ++ back)).2 = ((registry.run front).2.run back).2 := by
  induction front generalizing registry with
  | nil => rfl
  | cons call front ih => exact ih (registry.call call).2

theorem run_snd (registry : Registry) (calls : List Call) :
    (registry.run calls).2 = (registry.internAll (calls.flatMap Call.interned)).2 := by
  induction calls generalizing registry with
  | nil => rfl
  | cons call calls ih =>
    change ((registry.call call).2.run calls).2 = _
    rw [ih, call_snd, List.flatMap_cons, internAll_append]

theorem extends_run (registry : Registry) (calls : List Call) :
    registry.Extends (registry.run calls).2 := by
  rw [run_snd]
  exact registry.extends_internAll _

theorem WellFormed.run {registry : Registry} (hformed : registry.WellFormed) (calls : List Call) :
    (registry.run calls).2.WellFormed := by
  rw [run_snd]
  exact hformed.internAll _

theorem wellFormed_ofNames (names : List String) : (ofNames names).WellFormed :=
  wellFormed_empty.internAll names

/-- A registry behind calls is the registry of some names. -/
theorem run_ofNames (names : List String) (calls : List Call) :
    ((ofNames names).run calls).2 = ofNames (names ++ calls.flatMap Call.interned) := by
  rw [run_snd, ofNames, ofNames, internAll_append]

theorem names_ofNames (names : List String) : (ofNames names).names.toList = names.eraseDups := by
  rw [ofNames, wellFormed_empty.names_internAll]
  simp [empty]

end Registry

/-! ### A shared registry -/

namespace SharedRegistry

open Registry (Call)

/-- The first look of a shared registry makes no difference to its only user. -/
theorem intern_eq (shared : SharedRegistry) (name : String) :
    shared.intern name = ((shared.table.intern name).1, ⟨(shared.table.intern name).2⟩) := by
  unfold intern
  split
  · next flag hlookup => rw [Registry.intern_of_lookup hlookup]
  · rfl

theorem call_eq (shared : SharedRegistry) (call : Call) :
    shared.call call = ((shared.table.call call).1, ⟨(shared.table.call call).2⟩) := by
  cases call with
  | intern name =>
    simp only [SharedRegistry.call, intern_eq]
    rfl
  | parse text negate limit =>
    simp only [SharedRegistry.call, SharedRegistry.parse, Registry.call]
    cases shared.table.parse text negate limit with
    | error e => rfl
    | ok found => rfl
  | lookup name => rfl
  | name flag => rfl
  | size => rfl
  | evaluate formula flags => rfl
  | snapshot => rfl

theorem run_eq (shared : SharedRegistry) (calls : List Call) :
    shared.run calls = ((shared.table.run calls).1, ⟨(shared.table.run calls).2⟩) := by
  induction calls generalizing shared with
  | nil => rfl
  | cons call calls ih =>
    simp only [run, Registry.run, call_eq, ih]

end SharedRegistry

namespace Registry

open Formula (identifiers FaultAt occurrences_map)

/-! ### Handles behind calls -/

/-- **What holds of a registry behind any calls.** The table has the names that were interned, in
this order and each once. Names and handles lead to each other, and the handles are the places of
the table. What was known at any moment before is known still. A shared registry with one user
gives the same answers and has the same table. -/
theorem handles_of_run (names : List String) (calls : List Call) {answers : List Answer}
    {registry : Registry} (hrun : (ofNames names).run calls = (answers, registry))
    (hsize : registry.size ≤ 2 ^ 32) :
    registry.names.toList.Nodup ∧
      registry.names.toList = (names ++ calls.flatMap Call.interned).eraseDups ∧
      registry.Bijective ∧
      (∀ place, (∃ name flag, registry.lookup name = some flag ∧ flag.place = place) ↔
        place < registry.size) ∧
      (∀ front back, calls = front ++ back →
        (∀ name flag, ((ofNames names).run front).2.lookup name = some flag →
          registry.lookup name = some flag) ∧
        ∀ flag name, ((ofNames names).run front).2.name flag = some name →
          registry.name flag = some name) ∧
      SharedRegistry.run ⟨ofNames names⟩ calls = (answers, ⟨registry⟩) := by
  obtain rfl : ((ofNames names).run calls).2 = registry := congrArg Prod.snd hrun
  have hformed := (wellFormed_ofNames names).run calls
  have hbijective := hformed.bijective hsize
  refine ⟨hformed.nodup, ?_, hbijective, hbijective.exists_lookup_iff hsize, ?_, ?_⟩
  · rw [run_ofNames, names_ofNames]
  · rintro front back rfl
    have hextends : ((ofNames names).run front).2.Extends
        ((ofNames names).run (front ++ back)).2 := by
      rw [run_append]
      exact extends_run _ back
    exact ⟨hextends.lookup, fun flag name hname => hextends.name hname⟩
  · rw [SharedRegistry.run_eq, hrun]

/-- A text with a fault between two that are read. -/
theorem handles_of_run_of_fault :
    ∃ answers registry, (ofNames ["b", "a"]).run [.parse "a ^ c" false 64, .parse "d + (a" false 64,
        .lookup "c", .parse "e | b" true 0] = (answers, registry) ∧
      registry.size ≤ 2 ^ 32 ∧ registry.names.toList = ["b", "a", "c", "e"] ∧
      registry.Bijective := by
  obtain ⟨answers, registry, hrun⟩ : ∃ answers registry, (ofNames ["b", "a"]).run
      [.parse "a ^ c" false 64, .parse "d + (a" false 64, .lookup "c", .parse "e | b" true 0] =
      (answers, registry) := ⟨_, _, rfl⟩
  have hsize : ((ofNames ["b", "a"]).run [.parse "a ^ c" false 64, .parse "d + (a" false 64,
      .lookup "c", .parse "e | b" true 0]).2.size ≤ 2 ^ 32 := by
    decide +kernel
  rw [hrun] at hsize
  obtain ⟨-, hnames, hbijective, -⟩ := handles_of_run _ _ hrun hsize
  refine ⟨answers, registry, hrun, hsize, ?_, hbijective⟩
  rw [hnames]
  decide +kernel

/-! ### Names behind a text -/

/-- The new ones of the identifiers stand behind the table, in the order of first appearance. -/
theorem WellFormed.table_of_parse {registry registry' : Registry} (hformed : registry.WellFormed)
    {text : String} {negate : Bool} {limit : Nat} {formula : Formula Flag}
    (hparse : registry.parse text negate limit = .ok (formula, registry')) :
    registry'.names.toList = registry.names.toList ++
      (identifiers text).eraseDups.filter (· ∉ registry.names) := by
  obtain ⟨named, handle, hread, -, rfl, -⟩ := exists_handle_of_parse hparse
  rw [hformed.names_internAll, Formula.occurrences_of_parse hread, eraseDups_filter]

/-- The flags of a formula are the handles of the identifiers, in the order of first appearance. -/
theorem WellFormed.flags_of_parse {registry registry' : Registry} (hformed : registry.WellFormed)
    {text : String} {negate : Bool} {limit : Nat} {formula : Formula Flag}
    (hparse : registry.parse text negate limit = .ok (formula, registry'))
    (hsize : registry'.size ≤ 2 ^ 32) :
    formula.flags.map registry'.name = (identifiers text).eraseDups.map some := by
  have hformed' := hformed.of_parse hparse
  obtain ⟨named, handle, hread, hformula, -, hhandle⟩ := exists_handle_of_parse hparse
  have hname : ∀ name ∈ named.occurrences, registry'.name (handle name) = some name := by
    intro name hname
    exact hformed'.name_eq hsize (hhandle name hname)
  have hinj : ∀ name ∈ named.occurrences, ∀ other ∈ named.occurrences,
      handle name = handle other → name = other := by
    intro name hmem other hother hsame
    have hnames := hname name hmem
    rw [hsame, hname other hother] at hnames
    exact (Option.some.inj hnames).symm
  have hoccurrences : formula.occurrences = named.occurrences.map handle := by
    rw [hformula, ← occurrences_map]
    cases negate with
    | false => rfl
    | true => rfl
  rw [Formula.flags, hoccurrences, eraseDups_map hinj, List.map_map,
    ← Formula.occurrences_of_parse hread]
  refine List.map_congr_left fun name hmem => ?_
  exact hname name (List.mem_eraseDups.mp hmem)

/-- **What a text leaves in a registry.** With a fault it leaves nothing. If it is read, those of
its identifiers that are new stand behind the table, in the order of their first appearance, and
the flags of the formula are the handles of its identifiers, in the same order. -/
theorem names_of_parse (names : List String) (calls : List Call) (text : String) (negate : Bool)
    (limit : Nat) {registry registry' : Registry} {result : Except FaultAt (Formula Flag)}
    (hreached : ((ofNames names).run calls).2 = registry)
    (hcall : registry.call (.parse text negate limit) = (.read result, registry')) :
    (∀ e, result = .error e → registry' = registry) ∧
      ∀ formula, result = .ok formula →
        registry'.names.toList = registry.names.toList ++
          (identifiers text).eraseDups.filter (· ∉ registry.names) ∧
        (registry'.size ≤ 2 ^ 32 →
          formula.flags.map registry'.name = (identifiers text).eraseDups.map some) := by
  subst hreached
  have hformed := (wellFormed_ofNames names).run calls
  simp only [call] at hcall
  split at hcall
  · next e hparse =>
    cases hcall
    simp
  · next formula after hparse =>
    cases hcall
    refine ⟨by simp, ?_⟩
    intro formula' hresult
    obtain rfl := Except.ok.inj hresult
    exact ⟨hformed.table_of_parse hparse, hformed.flags_of_parse hparse⟩

/-- Two new names and one that is known, behind a text with a fault. -/
theorem names_of_parse_of_group :
    ∃ formula registry', ((ofNames ["b"]).run [.parse "x + (y" false 64]).2.call
        (.parse "c | !b | (a + c)" true 1) = (.read (.ok formula), registry') ∧
      registry'.names.toList = ["b", "c", "a"] ∧
      formula.flags.map registry'.name = [some "c", some "b", some "a"] := by
  have hread : Formula.parse "c | !b | (a + c)" 1 = .ok (.run .any [.leaf "c" false,
      .leaf "b" true, .run .all [.leaf "a" false, .leaf "c" false]]) := by
    decide +kernel
  obtain ⟨formula, registry', hcall⟩ : ∃ formula registry',
      ((ofNames ["b"]).run [.parse "x + (y" false 64]).2.call (.parse "c | !b | (a + c)" true 1) =
        (.read (.ok formula), registry') := by
    simp only [call, parse_of_formula _ true hread]
    exact ⟨_, _, rfl⟩
  obtain ⟨-, hleaves⟩ := names_of_parse ["b"] [.parse "x + (y" false 64] _ true 1 rfl hcall
  obtain ⟨hnames, hflags⟩ := hleaves formula rfl
  have htable : registry'.names.toList = ["b", "c", "a"] := by
    rw [hnames]
    decide +kernel
  have hsize : registry'.size ≤ 2 ^ 32 := by
    rw [size, ← Array.length_toList, htable]
    decide
  refine ⟨formula, registry', hcall, htable, ?_⟩
  rw [hflags hsize]
  decide +kernel

end Registry

end WidgetStyle
