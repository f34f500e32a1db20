import QueryPlanner.Proofs.Conversion.Storage
import QueryPlanner.Proofs.Plan.Steps

/-!
# What becomes of interpolated values

There is one step that interpolated values go through, wherever they stand: they are cast to a type
and dumped with it.  So what is known of casting and dumping is known of all parameters of a plan,
and of all errors about values.

* `Binder.Adds` — a step whose new parameters store values
* `PlanError.Unstorable` — an error that is rightly about a value without stored form
* `Planner.plan_shapes` — parameters have the shapes that their types are stored as
* `Planner.settled_of_builtin` — values of built-in types are never without stored form
-/

namespace QueryPlanner

variable {α : Type} {conversions : Conversions}

/-! ### Parameters -/

/-- Each parameter that the step leaves was there before or stores a value. -/
def Binder.Adds (conversions : Conversions) (m : Binder α) : Prop :=
  ∀ ps a qs, m.Yields ps a qs →
    ∀ parameter ∈ qs, parameter ∈ ps ∨ ∃ given, parameter.Stores conversions given

theorem Binder.pervades_adds : Pervades conversions fun _ m => m.Adds conversions where
  pure a ps _ qs h parameter hmem := by
    obtain ⟨-, rfl⟩ := yields_pure.mp h
    exact .inl hmem
  bind hm hf ps b qs h parameter hmem := by
    obtain ⟨a, rs, ha, hb⟩ := yields_bind.mp h
    rcases hf a rs b qs hb parameter hmem with hmem | hstores
    · exact hm ps a rs ha parameter hmem
    · exact .inr hstores
  get ps _ qs h parameter hmem := by
    obtain ⟨-, rfl⟩ := yields_get.mp h
    exact .inl hmem
  refuse _ ps a qs h := absurd h yields_throw
  value s v type hctx ps a qs h parameter hmem := by
    obtain ⟨p, -, hstores, -, rfl⟩ := Scope.yields_bindValue h
    rcases List.mem_append.mp hmem with hmem | hmem
    · exact .inl hmem
    · rw [List.mem_singleton.mp hmem]
      exact .inr ⟨_, hctx ▸ hstores⟩

/-- **Every parameter of a plan stores a value**, which was cast to the type of the parameter and
dumped with it. -/
theorem Planner.plan_stores {p : Planner} {query : Query} {operation : Operation}
    {caps : Capabilities} {plan : Plan} (h : p.plan query operation caps = .ok plan) :
    ∀ parameter ∈ plan.parameters, ∃ given, parameter.Stores p.conversions given := by
  intro parameter hmem
  have hadds := query.pervades_plan Binder.pervades_adds (p.context operation caps) rfl
  rcases hadds _ _ _ (plan_cases h).1 parameter hmem with hnone | hstores
  · cases hnone
  · exact hstores

/-! ### Errors -/

/-- If an error says that a value has no stored form, then the value can be cast, and what it is
cast to has no stored form. -/
def PlanError.Unstorable (conversions : Conversions) (err : PlanError) : Prop :=
  ∀ site v type operation, err = .dump site v type operation →
    ∃ logical fault, conversions.cast type v = .ok logical ∧
      conversions.dump type logical = .error fault

theorem Binder.pervades_unstorable : Pervades conversions fun _ m =>
    ∀ ps, FailsWith (PlanError.Unstorable conversions) (m.run ps) where
  pure a ps := .ok (a, ps)
  bind {_ _ m f} hm hf ps := by
    rw [StateT.run_bind]
    exact (hm ps).bind fun result _ => hf result.1 result.2
  get ps := .ok (ps, ps)
  refuse herr ps := by
    refine .error fun site v type operation heq => ?_
    subst heq
    exact (herr trivial).elim
  value s v type hctx ps := by
    subst hctx
    unfold Scope.bindValue
    cases hcast : s.ctx.conversions.cast type v with
    | error fault => exact .error nofun
    | ok logical =>
      cases hdump : s.ctx.conversions.dump type logical with
      | error fault =>
        simp only [hdump]
        refine .error fun site v' type' operation heq => ?_
        obtain ⟨-, rfl, rfl, -⟩ := PlanError.dump.inj heq
        exact ⟨logical, fault, hcast, hdump⟩
      | ok stored =>
        simp only [hdump]
        exact .ok _

/-- **A plan fails for a stored form** only if a value has a logical value that has none. -/
theorem Planner.plan_unstorable (p : Planner) (query : Query) (operation : Operation)
    (caps : Capabilities) :
    FailsWith (PlanError.Unstorable p.conversions) (p.plan query operation caps) := by
  have hrun := query.pervades_plan Binder.pervades_unstorable (p.context operation caps) rfl
  exact (hrun []).bind fun _ _ => .ok _

/-! ### Shapes of parameters -/

/-- **What is stored has the shape that its type is stored as.**  Whatever custom types there are,
and whatever they dump values to: a stored form is null or has the shape of its type, which is the
shape of the type that its chain of storage types ends in.  So is the value of every parameter of
every plan, given the type that is recorded with it. -/
theorem Planner.plan_shapes (p : Planner) :
    (∀ type v stored, p.conversions.dump type v = .ok stored →
      stored = .null ∨ p.conversions.Shapes type stored) ∧
    (∀ type final, p.conversions.EndsIn type final →
      ∀ v, p.conversions.Shapes type v ↔ p.conversions.Shapes final v) ∧
    ∀ query operation caps plan, p.plan query operation caps = .ok plan →
      ∀ parameter ∈ plan.parameters,
        parameter.value = .null ∨ p.conversions.Shapes parameter.type parameter.value := by
  refine ⟨fun type v stored h => Conversions.shapes_of_dump h,
    fun type final h v => h.shapes_iff, fun query operation caps plan h parameter hmem => ?_⟩
  obtain ⟨given, -, logical, -, hdump⟩ := plan_stores h parameter hmem
  exact Conversions.shapes_of_dump hdump

/-- A text that is stored in lower case; anything else is passed on for the storage type to judge.
-/
def CustomType.lower : CustomType where
  name := "lower"
  storage := .string
  cast := .ok
  dump
    | .string text => .ok (.string (String.ofList (text.toList.map Char.toLower)))
    | v => .ok v

/-- A text that is stored as an exclamation, in lower case. -/
def CustomType.shout : CustomType where
  name := "shout"
  storage := .custom "lower"
  cast := .ok
  dump
    | .string text => .ok (.string (text ++ "!"))
    | v => .ok v

/-- Calls, each with what is shouted. -/
def Planner.ofCalls : Planner where
  registry := Registry.empty.insert
    ((Schema.ofTable "Call" "calls").field "words" (.array (.custom "shout")))
  conversions := ⟨[.shout, .lower]⟩

/-- The calls of given words. -/
def Query.callsOf (words : List Value) : Query :=
  (Query.ofSchema "calls" "Call").filter ((Expr.field 0 "words").eq (.pin (.list words)))

/-- Words are shouted, put in lower case and stored as texts; a number is not. -/
theorem Planner.plan_shapes_calls :
    ofCalls.conversions.EndsIn (.array (.custom "shout")) (.array .string) ∧
    (∃ fault, ofCalls.conversions.dump (.custom "shout") (.int 1) = .error fault) ∧
    ∃ plan, ofCalls.plan (.callsOf [.string "Go", .null]) .all
        Dialect.postgres.capabilities = .ok plan ∧
      plan.values = [.list [.string "go!", .null]] ∧
      ∀ parameter ∈ plan.parameters, parameter.value = .null ∨
        ofCalls.conversions.Shapes parameter.type parameter.value := by
  have hends : ofCalls.conversions.EndsIn (.array (.custom "shout")) (.array .string) :=
    .array (.custom rfl (.custom rfl (.ground rfl)))
  have hplanned : (ofCalls.plan (.callsOf [.string "Go", .null]) .all
      Dialect.postgres.capabilities).toOption.map (·.values) =
        some [.list [.string "go!", .null]] := by
    decide +kernel
  obtain ⟨plan, hplan, hvalues⟩ := Option.map_eq_some_iff.mp hplanned
  have hok := Except.toOption_eq_some_iff.mp hplan
  exact ⟨hends, ⟨_, rfl⟩, plan, hok, hvalues, (plan_shapes ofCalls).2.2 _ _ _ plan hok⟩

/-! ### Values of built-in types -/

/-- **Values of built-in types come back from store.**  For a primitive type, an array of built-in
ones at any depth, or `binary_id`: a value that the type is cast to is cast to itself, it has a
stored form, and the stored form is cast to it.  So no value that is interpolated with such a type
is refused for want of a stored form. -/
theorem Planner.settled_of_builtin (p : Planner) (type : FieldType)
    (h : type.Builtin p.conversions) :
    (∀ v w, p.conversions.cast type v = .ok w →
      p.conversions.cast type w = .ok w ∧
        ∃ stored, p.conversions.dump type w = .ok stored ∧
          p.conversions.cast type stored = .ok w) ∧
    ∀ query operation caps site v shown,
      p.plan query operation caps ≠ .error (.dump site v type shown) := by
  refine ⟨fun v w hcast => h.settled_of_cast hcast,
    fun query operation caps site v shown herr => ?_⟩
  obtain ⟨logical, fault, hcast, hfault⟩ :=
    p.plan_unstorable query operation caps _ herr site v type shown rfl
  obtain ⟨-, stored, hstored, -⟩ := h.settled_of_cast hcast
  rw [hstored] at hfault
  cases hfault

/-- Identifiers in a list, one in capitals, one as bytes and one that is missing: they are cast to
texts in the usual form, which come back from store. -/
theorem Planner.settled_of_builtin_identifiers :
    let type : FieldType := .array (.custom "binary_id")
    let given : Value := .list [.string "00112233445566778899AABBCCDDEEFF", .null,
      .binary (List.replicate 16 0x2A)]
    let logical : Value := .list [.string "00112233-4455-6677-8899-aabbccddeeff", .null,
      .string "2a2a2a2a-2a2a-2a2a-2a2a-2a2a2a2a2a2a"]
    Conversions.builtin.cast type given = .ok logical ∧
      Conversions.builtin.cast type logical = .ok logical ∧
        ∃ stored, Conversions.builtin.dump type logical = .ok stored ∧
          Conversions.builtin.cast type stored = .ok logical := by
  intro type given logical
  have hcast : (Conversions.builtin.cast type given).toOption = some logical := by
    decide +kernel
  have hok := Except.toOption_eq_some_iff.mp hcast
  have hbuiltin : type.Builtin .builtin := .array (.binaryId rfl)
  let planner : Planner := { registry := .empty, conversions := .builtin }
  exact ⟨hok, (settled_of_builtin planner type hbuiltin).1 given logical hok⟩

end QueryPlanner
