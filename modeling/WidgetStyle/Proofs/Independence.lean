import WidgetStyle.Engine
import WidgetStyle.Proofs.Interning

/-!
# Stylesheets and names of one engine

An engine takes stylesheets and names in any order, and the two do not meet. A load reads and
writes the sheets alone, a compilation or a flag the registry alone (`call_load`, `call_name`). So
the loads of a run are a run of their own, whatever the registry is, and so are the other calls,
whatever the sheets are (`run_loads`, `run_names`). What a run leaves is told by its events: the
sheets of the texts that were loaded, in their order, and the registry of the names that came in
(`forall₂_run`, `registry_run`).
-/

namespace WidgetStyle.Engine

/-! ### What a call can do -/

/-- **All that a call can do.** It is refused and changes nothing, it puts one sheet behind the
others, or it leaves another registry. -/
theorem call_cases (engine : Engine) (call : Call) :
    (∃ e, engine.call call = (.refused e, engine)) ∨
      (∃ source sheet, call = .load source ∧
        Sheet.parse source engine.config.recordDiagnostics = .ok sheet ∧
        engine.call call =
          (.loaded sheet.size, { engine with sheets := engine.sheets ++ [sheet] })) ∨
      (∃ text negate formula registry, call = .compile text negate ∧
        engine.registry.parse text negate engine.config.maxExpressionDepth =
          .ok (formula, registry) ∧
        engine.call call = (.compiled formula, { engine with registry })) ∨
      ∃ name, call = .flag name ∧
        engine.call call = (.handle (engine.registry.intern name).1,
          { engine with registry := (engine.registry.intern name).2 }) := by
  cases call with
  | load source =>
    simp only [Engine.call, load]
    cases hparse : Sheet.parse source engine.config.recordDiagnostics with
    | error e => exact .inl ⟨_, rfl⟩
    | ok sheet => exact .inr (.inl ⟨source, sheet, rfl, hparse, rfl⟩)
  | compile text negate =>
    simp only [Engine.call, compile]
    cases hparse : engine.registry.parse text negate engine.config.maxExpressionDepth with
    | error e => exact .inl ⟨_, rfl⟩
    | ok found => exact .inr (.inr (.inl ⟨text, negate, found.1, found.2, rfl, hparse, rfl⟩))
  | flag name => exact .inr (.inr (.inr ⟨name, rfl, rfl⟩))

/-- A call that is refused leaves the engine as it was. -/
theorem eq_of_refused {engine after : Engine} {call : Call} {e : EngineError}
    (hcall : engine.call call = (.refused e, after)) : after = engine := by
  rcases call_cases engine call with ⟨e', hcall'⟩ | ⟨_, _, -, -, hcall'⟩ |
    ⟨_, _, _, _, -, -, hcall'⟩ | ⟨_, -, hcall'⟩
  all_goals
    rw [hcall'] at hcall
    cases hcall
  rfl

theorem config_call (engine : Engine) (call : Call) :
    (engine.call call).2.config = engine.config := by
  rcases call_cases engine call with ⟨e, hcall⟩ | ⟨_, _, -, -, hcall⟩ |
    ⟨_, _, _, _, -, -, hcall⟩ | ⟨_, -, hcall⟩
  all_goals rw [hcall]

/-! ### Two kinds of calls -/

/-- The call brings a stylesheet. The others bring names. -/
def Call.loads : Call → Bool
  | .load _ => true
  | .compile _ _ | .flag _ => false

/-- The engine with other sheets. -/
def withSheets (engine : Engine) (sheets : List Sheet) : Engine :=
  ⟨engine.config, sheets, engine.registry⟩

/-- The engine with another registry. -/
def withRegistry (engine : Engine) (registry : Registry) : Engine :=
  ⟨engine.config, engine.sheets, registry⟩

/-- A load does not look at the registry and does not touch it. -/
theorem call_load (engine : Engine) (registry : Registry) {call : Call}
    (hloads : call.loads = true) :
    (engine.call call).2.registry = engine.registry ∧
      (engine.withRegistry registry).call call =
        ((engine.call call).1, (engine.call call).2.withRegistry registry) := by
  cases call with
  | load source =>
    simp only [Engine.call, load, withRegistry]
    cases Sheet.parse source engine.config.recordDiagnostics with
    | error e => exact ⟨rfl, rfl⟩
    | ok sheet => exact ⟨rfl, rfl⟩
  | compile text negate => cases hloads
  | flag name => cases hloads

/-- A call that brings names does not look at the sheets and does not touch them. -/
theorem call_name (engine : Engine) (sheets : List Sheet) {call : Call}
    (hloads : call.loads = false) :
    (engine.call call).2.sheets = engine.sheets ∧
      (engine.withSheets sheets).call call =
        ((engine.call call).1, (engine.call call).2.withSheets sheets) := by
  cases call with
  | load source => cases hloads
  | compile text negate =>
    simp only [Engine.call, compile, withSheets]
    cases engine.registry.parse text negate engine.config.maxExpressionDepth with
    | error e => exact ⟨rfl, rfl⟩
    | ok found => exact ⟨rfl, rfl⟩
  | flag name => exact ⟨rfl, rfl⟩

/-! ### Runs -/

theorem run_cons (engine : Engine) (call : Call) (calls : List Call) :
    engine.run (call :: calls) =
      (⟨call, (engine.call call).1⟩ :: ((engine.call call).2.run calls).1,
        ((engine.call call).2.run calls).2) :=
  rfl

theorem config_run (engine : Engine) (calls : List Call) :
    (engine.run calls).2.config = engine.config := by
  induction calls generalizing engine with
  | nil => rfl
  | cons call calls ih => rw [run_cons, ih, config_call]

/-- The loads of a run are a run of their own, with any registry. -/
theorem run_loads (engine : Engine) (registry : Registry) (calls : List Call) :
    (engine.withRegistry registry).run (calls.filter Call.loads) =
      ((engine.run calls).1.filter fun event => event.call.loads,
        (engine.run calls).2.withRegistry registry) := by
  induction calls generalizing engine with
  | nil => rfl
  | cons call calls ih =>
    cases hloads : call.loads with
    | true =>
      simp only [run_cons, List.filter_cons, hloads, if_true, (call_load engine registry hloads).2,
        ih]
    | false =>
      have hsame : (engine.call call).2.withRegistry registry = engine.withRegistry registry := by
        rw [withRegistry, withRegistry, config_call, (call_name engine [] hloads).1]
      simp only [run_cons, List.filter_cons, hloads, Bool.false_eq_true, if_false]
      rw [← hsame, ih]

/-- The calls of a run that bring names are a run of their own, with any sheets. -/
theorem run_names (engine : Engine) (sheets : List Sheet) (calls : List Call) :
    (engine.withSheets sheets).run (calls.filter fun call => !call.loads) =
      ((engine.run calls).1.filter fun event => !event.call.loads,
        (engine.run calls).2.withSheets sheets) := by
  induction calls generalizing engine with
  | nil => rfl
  | cons call calls ih =>
    cases hloads : call.loads with
    | true =>
      have hsame : (engine.call call).2.withSheets sheets = engine.withSheets sheets := by
        rw [withSheets, withSheets, config_call, (call_load engine .empty hloads).1]
      simp only [run_cons, List.filter_cons, hloads, Bool.not_true, Bool.false_eq_true, if_false]
      rw [← hsame, ih]
    | false =>
      simp only [run_cons, List.filter_cons, hloads, Bool.not_false, if_true,
        (call_name engine sheets hloads).2, ih]

/-! ### What the events tell -/

/-- The text that was loaded in an event. -/
def Event.source? : Event → Option String
  | ⟨.load source, .loaded _⟩ => some source
  | _ => none

/-- The names that came in with an event, none if it was refused. -/
def Event.names : Event → List String
  | ⟨.compile text _, .compiled _⟩ => Formula.identifiers text
  | ⟨.flag name, .handle _⟩ => [name]
  | _ => []

theorem Event.source?_refused (call : Call) (e : EngineError) :
    Event.source? ⟨call, .refused e⟩ = none := by
  cases call with
  | load source => rfl
  | compile text negate => rfl
  | flag name => rfl

theorem Event.names_refused (call : Call) (e : EngineError) :
    Event.names ⟨call, .refused e⟩ = [] := by
  cases call with
  | load source => rfl
  | compile text negate => rfl
  | flag name => rfl

/-- Behind a run, the texts that were loaded have put their sheets behind the others. -/
theorem forall₂_run (engine : Engine) (calls : List Call) :
    ∃ loaded, (engine.run calls).2.sheets = engine.sheets ++ loaded ∧
      List.Forall₂
        (fun source sheet => Sheet.parse source engine.config.recordDiagnostics = .ok sheet)
        ((engine.run calls).1.filterMap Event.source?) loaded := by
  induction calls generalizing engine with
  | nil => exact ⟨[], (List.append_nil _).symm, .nil⟩
  | cons call calls ih =>
    obtain ⟨loaded, hsheets, hloaded⟩ := ih (engine.call call).2
    rw [config_call] at hloaded
    rw [run_cons, hsheets]
    rcases call_cases engine call with ⟨e, hcall⟩ | ⟨source, sheet, rfl, hparse, hcall⟩ |
      ⟨text, negate, formula, registry, rfl, -, hcall⟩ | ⟨name, rfl, hcall⟩
    · rw [hcall] at hloaded ⊢
      refine ⟨loaded, rfl, ?_⟩
      rwa [List.filterMap_cons_none (Event.source?_refused call e)]
    · rw [hcall] at hloaded ⊢
      exact ⟨sheet :: loaded, List.append_assoc _ _ _, .cons hparse hloaded⟩
    · rw [hcall] at hloaded ⊢
      exact ⟨loaded, rfl, hloaded⟩
    · rw [hcall] at hloaded ⊢
      exact ⟨loaded, rfl, hloaded⟩

/-- Behind a run, the registry has interned the names that came in. -/
theorem registry_run (engine : Engine) (calls : List Call) :
    (engine.run calls).2.registry =
      (engine.registry.internAll ((engine.run calls).1.flatMap Event.names)).2 := by
  induction calls generalizing engine with
  | nil => rfl
  | cons call calls ih =>
    rw [run_cons, ih, List.flatMap_cons, Registry.internAll_append]
    rcases call_cases engine call with ⟨e, hcall⟩ | ⟨source, sheet, rfl, -, hcall⟩ |
      ⟨text, negate, formula, registry, rfl, hparse, hcall⟩ | ⟨name, rfl, hcall⟩
    · rw [hcall, Event.names_refused]
      rfl
    · rw [hcall]
      rfl
    · obtain ⟨named, handle, hread, -, rfl, -⟩ := Registry.exists_handle_of_parse hparse
      rw [hcall, Formula.occurrences_of_parse hread]
      rfl
    · rw [hcall]
      rfl

/-- Texts that are read one by one have one list of sheets. -/
theorem sheets_unique {record : Bool} {sources : List String} {sheets sheets' : List Sheet}
    (hsheets : List.Forall₂ (fun source sheet => Sheet.parse source record = .ok sheet) sources
      sheets)
    (hsheets' : List.Forall₂ (fun source sheet => Sheet.parse source record = .ok sheet) sources
      sheets') : sheets = sheets' := by
  induction hsheets generalizing sheets' with
  | nil =>
    cases hsheets'
    rfl
  | cons hsheet _ ih =>
    cases hsheets' with
    | cons hsheet' hmore => rw [Except.ok.inj (hsheet.symm.trans hsheet'), ih hmore]

/-! ### Two runs from one configuration -/

section Runs

variable {config : Config} {calls calls' : List Call} {events events' : List Event}
  {engine engine' : Engine}

theorem config_eq (hrun : (ofConfig config).run calls = (events, engine)) :
    engine.config = config := by
  have hconfig := (ofConfig config).config_run calls
  rwa [hrun] at hconfig

theorem indexed_eq (hrun : (ofConfig config).run calls = (events, engine)) :
    engine.resolver.indexed = config.indexRules := by
  rw [resolver, config_eq hrun]

/-- The sheets of the resolver are those of the texts that were loaded. -/
theorem forall₂_sheets (hrun : (ofConfig config).run calls = (events, engine)) :
    List.Forall₂ (fun source sheet => Sheet.parse source config.recordDiagnostics = .ok sheet)
      (events.filterMap Event.source?) engine.resolver.sheets := by
  obtain ⟨loaded, hsheets, hloaded⟩ := (ofConfig config).forall₂_run calls
  rw [hrun] at hsheets hloaded
  obtain rfl : engine.sheets = loaded := hsheets
  exact hloaded

theorem sheets_eq_of_sources (hrun : (ofConfig config).run calls = (events, engine))
    (hrun' : (ofConfig config).run calls' = (events', engine'))
    (hsources : events.filterMap Event.source? = events'.filterMap Event.source?) :
    engine.sheets = engine'.sheets := by
  have hloaded := forall₂_sheets hrun
  rw [hsources] at hloaded
  exact sheets_unique hloaded (forall₂_sheets hrun')

theorem resolver_eq_of_sheets (hrun : (ofConfig config).run calls = (events, engine))
    (hrun' : (ofConfig config).run calls' = (events', engine'))
    (hsheets : engine.sheets = engine'.sheets) : engine.resolver = engine'.resolver := by
  rw [resolver, resolver, hsheets, config_eq hrun, config_eq hrun']

/-- Where some of the calls are a run of their own, runs that have the same ones of them have the
same answers to them, and leave the same part of the engine. -/
theorem alike_of_part (p : Call → Bool) (part : Engine → Engine)
    (hpart : ∀ calls, (part (ofConfig config)).run (calls.filter p) =
      (((ofConfig config).run calls).1.filter fun event => p event.call,
        part ((ofConfig config).run calls).2))
    (hrun : (ofConfig config).run calls = (events, engine))
    (hrun' : (ofConfig config).run calls' = (events', engine'))
    (hcalls : calls.filter p = calls'.filter p) :
    (events.filter fun event => p event.call) = (events'.filter fun event => p event.call) ∧
      part engine = part engine' := by
  have hpart' := hpart calls
  rw [hcalls, hpart calls', hrun, hrun'] at hpart'
  obtain ⟨hevents, hengine⟩ := Prod.mk.inj hpart'
  exact ⟨hevents.symm, hengine.symm⟩

/-- With the same loads a run has the same answers to them and the same sheets, whatever else is
called. -/
theorem loads_alike (hrun : (ofConfig config).run calls = (events, engine))
    (hrun' : (ofConfig config).run calls' = (events', engine'))
    (hcalls : calls.filter Call.loads = calls'.filter Call.loads) :
    (events.filter fun event => event.call.loads) =
        (events'.filter fun event => event.call.loads) ∧
      engine.sheets = engine'.sheets := by
  obtain ⟨hevents, hengine⟩ :=
    alike_of_part Call.loads (·.withRegistry .empty) (run_loads _ _) hrun hrun' hcalls
  have hsheets := congrArg Engine.sheets hengine
  exact ⟨hevents, hsheets⟩

/-- With the same calls that bring names a run has the same answers to them and the same registry,
whatever is loaded. -/
theorem names_alike (hrun : (ofConfig config).run calls = (events, engine))
    (hrun' : (ofConfig config).run calls' = (events', engine'))
    (hcalls : (calls.filter fun call => !call.loads) = calls'.filter fun call => !call.loads) :
    (events.filter fun event => !event.call.loads) =
        (events'.filter fun event => !event.call.loads) ∧
      engine.registry = engine'.registry := by
  obtain ⟨hevents, hengine⟩ :=
    alike_of_part (fun call => !call.loads) (·.withSheets []) (run_names _ _) hrun hrun' hcalls
  have hregistry := congrArg Engine.registry hengine
  exact ⟨hevents, hregistry⟩

end Runs

/-- **Stylesheets and names of one engine do not meet.** A call that is refused changes nothing.
Behind a run from a configuration, the engine resolves attributes and computes styles from the
sheets of the texts that were loaded, in their order, with the index if the configuration asks for
it, and has the diagnostics of these sheets. The registry is that of the names that came in, in
their order. Another run in which the same texts were loaded has the same resolver, and so resolves
every attribute and computes every style alike. Another run with the same loads answers them alike
and has the same resolver, one with the same other calls answers those alike and has the same
registry. So where loads and other calls are only shuffled, nothing changes. -/
theorem run_by_kind {config : Config} {calls : List Call} {events : List Event} {engine : Engine}
    (hrun : (ofConfig config).run calls = (events, engine)) :
    (∀ (before after : Engine) call e, before.call call = (.refused e, after) → after = before) ∧
      engine.config = config ∧
      List.Forall₂ (fun source sheet => Sheet.parse source config.recordDiagnostics = .ok sheet)
        (events.filterMap Event.source?) engine.resolver.sheets ∧
      engine.resolver.indexed = config.indexRules ∧
      (∀ path,
        (∀ {α : Type} [StyleValue α] (descriptor : Descriptor α),
          engine.resolve descriptor path = engine.resolver.resolve descriptor path) ∧
        engine.style path = engine.resolver.style path) ∧
      engine.diagnostics = engine.resolver.sheets.flatMap Sheet.diagnostics ∧
      engine.registry = .ofNames (events.flatMap Event.names) ∧
      ∀ calls' events' engine', (ofConfig config).run calls' = (events', engine') →
        (events.filterMap Event.source? = events'.filterMap Event.source? →
          engine.resolver = engine'.resolver ∧ ∀ path,
            (∀ {α : Type} [StyleValue α] (descriptor : Descriptor α),
              engine.resolve descriptor path = engine'.resolve descriptor path) ∧
            engine.style path = engine'.style path) ∧
        (calls.filter Call.loads = calls'.filter Call.loads →
          (events.filter fun event => event.call.loads) =
            (events'.filter fun event => event.call.loads) ∧
          engine.resolver = engine'.resolver) ∧
        ((calls.filter fun call => !call.loads) = (calls'.filter fun call => !call.loads) →
          (events.filter fun event => !event.call.loads) =
            (events'.filter fun event => !event.call.loads) ∧
          engine.registry = engine'.registry) ∧
        (calls.filter Call.loads = calls'.filter Call.loads →
          (calls.filter fun call => !call.loads) = (calls'.filter fun call => !call.loads) →
          engine = engine') := by
  refine ⟨fun _ _ _ _ => eq_of_refused, config_eq hrun, forall₂_sheets hrun, indexed_eq hrun, ?_,
    rfl, ?_, ?_⟩
  · intro path
    exact ⟨fun descriptor => rfl, rfl⟩
  · have hregistry := (ofConfig config).registry_run calls
    rwa [hrun] at hregistry
  · intro calls' events' engine' hrun'
    refine ⟨?_, ?_, names_alike hrun hrun', ?_⟩
    · intro hsources
      have hresolver : engine.resolver = engine'.resolver :=
        resolver_eq_of_sheets hrun hrun' (sheets_eq_of_sources hrun hrun' hsources)
      refine ⟨hresolver, ?_⟩
      intro path
      constructor
      · intro α _ descriptor
        rw [resolve, resolve, hresolver]
      · rw [style, style, hresolver]
    · intro hloads
      obtain ⟨hevents, hsheets⟩ := loads_alike hrun hrun' hloads
      exact ⟨hevents, resolver_eq_of_sheets hrun hrun' hsheets⟩
    · intro hloads hnames
      obtain ⟨-, hsheets⟩ := loads_alike hrun hrun' hloads
      obtain ⟨-, hregistry⟩ := names_alike hrun hrun' hnames
      have hconfig : engine.config = engine'.config :=
        (config_eq hrun).trans (config_eq hrun').symm
      cases engine
      cases engine'
      cases hconfig
      cases hsheets
      cases hregistry
      rfl

/-- Two runs with a refused load and a refused formula, in which the loads stand elsewhere. -/
theorem run_by_kind_of_refusals :
    ∃ events engine events' engine',
      (ofConfig .initial).run [.flag "z", .load "a\x7bwidth:1px\x7d", .compile "b + (a" false,
        .load "a\x7b", .compile "c | z" true, .load ".c\x7b\x7d"] = (events, engine) ∧
      (ofConfig .initial).run [.load "a\x7bwidth:1px\x7d", .load "a\x7b", .load ".c\x7b\x7d",
        .flag "z", .compile "b + (a" false, .compile "c | z" true] = (events', engine') ∧
      events.filterMap Event.source? = ["a\x7bwidth:1px\x7d", ".c\x7b\x7d"] ∧
      engine.resolver.sheets.length = 2 ∧ engine.registry.names.toList = ["z", "c"] ∧
      engine = engine' := by
  obtain ⟨events, engine, hrun⟩ : ∃ events engine,
      (ofConfig .initial).run [.flag "z", .load "a\x7bwidth:1px\x7d", .compile "b + (a" false,
        .load "a\x7b", .compile "c | z" true, .load ".c\x7b\x7d"] = (events, engine) :=
    ⟨_, _, rfl⟩
  obtain ⟨events', engine', hrun'⟩ : ∃ events' engine',
      (ofConfig .initial).run [.load "a\x7bwidth:1px\x7d", .load "a\x7b", .load ".c\x7b\x7d",
        .flag "z", .compile "b + (a" false, .compile "c | z" true] = (events', engine') :=
    ⟨_, _, rfl⟩
  have hevents : _ = events := congrArg Prod.fst hrun
  have hsources : events.filterMap Event.source? = ["a\x7bwidth:1px\x7d", ".c\x7b\x7d"] := by
    rw [← hevents]
    decide +kernel
  have hnames : events.flatMap Event.names = ["z", "c", "z"] := by
    rw [← hevents]
    decide +kernel
  obtain ⟨-, -, hsheets, -, -, -, hregistry, hother⟩ := run_by_kind hrun
  obtain ⟨-, -, -, hsame⟩ := hother _ _ _ hrun'
  refine ⟨events, engine, events', engine', hrun, hrun', hsources, ?_, ?_, ?_⟩
  · rw [← hsheets.length_eq, hsources]
    rfl
  · rw [hregistry, hnames, Registry.names_ofNames]
    decide
  · exact hsame (by decide) (by decide)

end WidgetStyle.Engine
