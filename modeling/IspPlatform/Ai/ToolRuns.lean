import IspPlatform.Ai.ToolGateway

/-!
# Runs of the tool gateway

`GatewayStep` says what each call can do. `Sound` is what every call keeps of the tool
table, and `ReadOnly` what holds of a run: the table, the advertised schemas, the budget,
and the log against the handlers that were invoked.
-/

namespace IspPlatform.Ai

open Py

variable {H E : Type} {U : Unicode} {g : ToolGateway H}

/-- What a call can do: its result, and the gateway it leaves. -/
inductive GatewayStep (U : Unicode) (g : ToolGateway H) :
    GatewayOp H E → Dispatch H E × ToolGateway H → Prop where
  | rejected {op : GatewayOp H E} (text : Str) : GatewayStep U g op (.rejected text, g)
  | registered {tool : Tool H} : tool.access = .read → tool.name ∉ g.tools →
      ((g.schemaCost + tool.schemaTokens : Nat) : Int) ≤ g.schemaTokenBudget →
      GatewayStep U g (.register tool)
        (.registered, { g with tools := g.tools.insert tool.name tool })
  | invoked {name : Str} {arguments : Mapping Str} {answer : Except E Str} {tool : Tool H} :
      g.tools.lookup name = some tool →
      (∀ item ∈ arguments.entries, (forbidden U).search item.2 = false) →
      GatewayStep U g (.call name arguments answer)
        (.invoked tool.handler arguments answer,
          { g with calls := g.calls ++ [(name, arguments)] })

/-- **Every call.** -/
theorem gateway_step (U : Unicode) (g : ToolGateway H) (op : GatewayOp H E) :
    GatewayStep U g op ((toolGateway U H E).step g op) := by
  cases op with
  | register tool =>
    show GatewayStep U g _ (g.register U tool)
    unfold ToolGateway.register
    by_cases hw : tool.access = .write
    · rw [if_pos hw]
      exact .rejected _
    rw [if_neg hw]
    by_cases hn : tool.name ∈ g.tools
    · rw [if_pos hn]
      exact .rejected _
    rw [if_neg hn]
    dsimp only
    by_cases hb : g.schemaTokenBudget < (g.schemaCost + tool.schemaTokens : Nat)
    · rw [if_pos hb]
      exact .rejected _
    rw [if_neg hb]
    refine .registered ?_ hn (by omega)
    cases ha : tool.access with
    | read => rfl
    | write => exact absurd ha hw
  | call name arguments answer =>
    show GatewayStep U g _ (g.call U name arguments answer)
    unfold ToolGateway.call
    cases ht : g.tools.lookup name with
    | none => exact .rejected _
    | some tool =>
      dsimp only
      cases hf : arguments.entries.find? fun item => (forbidden U).search item.2 with
      | some item => exact .rejected _
      | none =>
        refine .invoked ht ?_
        intro item hitem
        have := List.find?_eq_none.mp hf item hitem
        simpa using this

/-! ## The tool table -/

/-- The table holds read tools under their own names, within the budget. -/
structure Sound (g : ToolGateway H) : Prop where
  stored : ∀ name tool, g.tools.lookup name = some tool → tool.name = name ∧ tool.access = .read
  budget : (g.schemaCost : Int) ≤ g.schemaTokenBudget

theorem Sound.call (h : Sound g) (op : GatewayOp H E) :
    Sound ((toolGateway U H E).step g op).2 := by
  have hstep := gateway_step U g op
  generalize (toolGateway U H E).step g op = res at hstep
  cases hstep with
  | rejected text => exact h
  | @registered tool hread hnew hcost =>
    refine ⟨?_, ?_⟩
    · intro name tool' hlook
      by_cases hname : name = tool.name
      · subst hname
        obtain rfl : tool = tool' := by simpa using hlook
        exact ⟨rfl, hread⟩
      · exact h.stored name tool' ((AList.lookup_insert_ne hname).symm.trans hlook)
    · show (((ToolGateway.values _).map Tool.schemaTokens).sum : Int) ≤ g.schemaTokenBudget
      unfold ToolGateway.values
      rw [AList.entries_insert_of_notMem hnew, List.map_cons, List.map_cons, List.sum_cons]
      unfold ToolGateway.schemaCost ToolGateway.values at hcost
      dsimp only
      omega
  | invoked _ _ => exact ⟨h.stored, h.budget⟩

theorem ToolGateway.mem_values {tool : Tool H} :
    tool ∈ g.values ↔ ∃ name, g.tools.lookup name = some tool := by
  unfold ToolGateway.values
  rw [List.mem_map]
  constructor
  · rintro ⟨⟨name, tool'⟩, hin, rfl⟩
    exact ⟨name, AList.mem_lookup_iff.mpr hin⟩
  · rintro ⟨name, hlook⟩
    exact ⟨⟨name, tool⟩, AList.mem_lookup_iff.mp hlook, rfl⟩

theorem Sound.names (h : Sound g) : g.values.map Tool.name = g.tools.keys := by
  unfold ToolGateway.values
  rw [List.map_map]
  apply List.map_congr_left
  rintro ⟨name, tool⟩ hin
  exact (h.stored name tool (AList.mem_lookup_iff.mpr hin)).1

theorem Sound.advertised_sorted (h : Sound g) :
    (g.advertised.map Schema.name).Pairwise (· < ·) := by
  have hnames : g.advertised.map Schema.name = g.tools.keys.insertionSort (· ≤ ·) := by
    unfold ToolGateway.advertised
    rw [List.map_map, ← h.names]
    exact List.map_insertionSort (fun t u : Tool H => t.name ≤ u.name) (· ≤ ·) Tool.name g.values
      fun _ _ _ _ => Iff.rfl
  have hnodup : (g.tools.keys.insertionSort (· ≤ ·)).Nodup :=
    (List.perm_insertionSort _ _).nodup_iff.mpr g.tools.keys_nodup
  rw [hnames]
  refine (List.pairwise_insertionSort (· ≤ ·) g.tools.keys).imp₂ ?_ hnodup
  intro a b hle hne
  exact lt_of_le_of_ne hle hne

/-! ## Runs -/

/-- A gateway nothing has been registered with. -/
def ToolGateway.new (H : Type) (schemaTokenBudget : Int) : ToolGateway H :=
  ⟨schemaTokenBudget, ∅, []⟩

/-- The tool name and the arguments of a call that invoked a handler. -/
def invocation : GatewayOp H E × Dispatch H E → Option (Str × Mapping Str)
  | (.call name _ _, .invoked _ arguments _) => some (name, arguments)
  | _ => none

/-- A call that invoked `handler`, made in the gateway `g`: the tool it named was advertised,
and no argument has a forbidden word. -/
structure Vetted (U : Unicode) (g : ToolGateway H) (name : Str) (arguments : Mapping Str)
    (handler : H) : Prop where
  named : ∃ tool, g.tools.lookup name = some tool ∧ tool.handler = handler ∧
    tool.schema ∈ g.advertised ∧ tool.schema.name = name
  words : ∀ item ∈ arguments.entries, ∀ w ∈ forbiddenWords, ¬ WholeWord U w item.2

/-- What holds of a gateway after the calls `h` on a new one. -/
structure ReadOnly (U : Unicode) (g₀ : ToolGateway H)
    (h : List (GatewayOp H E × Dispatch H E)) (g : ToolGateway H) : Prop where
  stored : ∀ name tool, g.tools.lookup name = some tool → tool.name = name ∧ tool.access = .read
  /-- The schemas are those of the registered tools, each once. -/
  advertised : g.advertised.Perm (g.values.map Tool.schema)
  sorted : (g.advertised.map Schema.name).Pairwise (· < ·)
  budget : (g.schemaCost : Int) ≤ g.schemaTokenBudget
  /-- The handlers were invoked as the log says, in its order. -/
  log : h.filterMap invocation = g.calls
  vetted : ∀ pre name arguments answer handler passed result post,
    h = pre ++ (.call name arguments answer, .invoked handler passed result) :: post →
    passed = arguments ∧ ∃ g₁, (toolGateway U H E).Reach g₀ pre g₁ ∧
      Vetted U g₁ name arguments handler
  /-- A call that is refused changes nothing. -/
  rejected : ∀ op text, ((toolGateway U H E).step g op).1 = .rejected text →
    ((toolGateway U H E).step g op).2 = g

variable {g₀ : ToolGateway H} {h : List (GatewayOp H E × Dispatch H E)}

theorem sound {b : Int} (hb : 0 ≤ b) (hrun : (toolGateway U H E).Reach (.new H b) h g) :
    Sound g := by
  refine hrun.keeps ⟨?_, hb⟩ fun s op hs => hs.call op
  intro name tool hlook
  cases hlook

theorem logged (hrun : (toolGateway U H E).Reach g₀ h g) :
    g.calls = g₀.calls ++ h.filterMap invocation := by
  induction hrun with
  | init => simp
  | @call h g op hr ih =>
    have hstep := gateway_step U g op
    generalize (toolGateway U H E).step g op = res at hstep
    rw [List.filterMap_append, ← List.append_assoc, ← ih]
    cases hstep with
    | rejected text =>
      cases op <;> exact (List.append_nil _).symm
    | registered _ _ _ => exact (List.append_nil _).symm
    | invoked _ _ => rfl

theorem ToolGateway.schema_mem_advertised {name : Str} {tool : Tool H}
    (hlook : g.tools.lookup name = some tool) : tool.schema ∈ g.advertised := by
  unfold ToolGateway.advertised
  apply List.mem_map_of_mem
  rw [List.mem_insertionSort]
  exact mem_values.mpr ⟨name, hlook⟩

/-- **The gateway is read-only.** -/
theorem read_only {b : Int} (hb : 0 ≤ b) (hrun : (toolGateway U H E).Reach (.new H b) h g) :
    ReadOnly U (.new H b) h g := by
  have hs := sound hb hrun
  refine ⟨hs.stored, (List.perm_insertionSort _ _).map _, hs.advertised_sorted, hs.budget,
    (logged hrun).symm, ?_, ?_⟩
  · intro pre name arguments answer handler passed result post hx
    obtain ⟨g₁, hr₁, heq⟩ := hrun.moment hx
    have hstep := gateway_step U g₁ (.call name arguments answer)
    generalize (toolGateway U H E).step g₁ (.call name arguments answer) = res at hstep heq
    cases hstep with
    | rejected text => cases heq
    | @invoked name arguments answer tool hlook hsearch =>
      cases heq
      have hname := ((sound hb hr₁).stored name tool hlook).1
      refine ⟨rfl, g₁, hr₁, ⟨tool, hlook, rfl, g₁.schema_mem_advertised hlook, hname⟩, ?_⟩
      intro item hitem w hw hword
      have := hsearch item hitem
      rw [search_forbidden hw hword] at this
      cases this
  · intro op text htext
    have hstep := gateway_step U g op
    generalize (toolGateway U H E).step g op = res at hstep htext
    cases hstep with
    | rejected text => rfl
    | registered _ _ _ => cases htext
    | invoked _ _ => cases htext

def logsTool : Tool Unit :=
  ⟨lit "logs", .read, lit "search", AList.singleton (lit "q") (lit "string"), ()⟩

/-- A tool is registered and called twice: the second query is refused. -/
def gatewayCalls : List (GatewayOp Unit Str) :=
  [.register logsTool, .call (lit "logs") (AList.singleton (lit "q") (lit "up")) (.error (lit "x")),
    .call (lit "logs") (AList.singleton (lit "q") (lit "DROP it")) (.ok [])]

def gatewayRan : List (GatewayOp Unit Str × Dispatch Unit Str) × ToolGateway Unit :=
  (toolGateway asciiOnly Unit Str).run (.new Unit 100) gatewayCalls

theorem read_only_ran : gatewayRan.2.calls = [(lit "logs", AList.singleton (lit "q") (lit "up"))] ∧
    ReadOnly asciiOnly (.new Unit 100) gatewayRan.1 gatewayRan.2 :=
  ⟨rfl, read_only (by decide) (Machine.Reach.init.run gatewayCalls)⟩

end IspPlatform.Ai
