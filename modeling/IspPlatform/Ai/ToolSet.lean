import IspPlatform.Ai.ToolRuns

/-!
# The set of tools

What has been registered stays, and a registration that was refused once is refused for good,
since the cost only grows. A set of tools fits or does not: in which order it is registered
changes neither that, nor the advertised schemas, nor what any later call gives back.
-/

namespace IspPlatform.Ai

open Py

variable {H E : Type} {U : Unicode} {g g' g'' : ToolGateway H}

/-! ## Later states -/

namespace ToolGateway

theorem schemaCost_insert {tool : Tool H} (hnew : tool.name ∉ g.tools) :
    { g with tools := g.tools.insert tool.name tool }.schemaCost =
      tool.schemaTokens + g.schemaCost := by
  unfold schemaCost values
  rw [AList.entries_insert_of_notMem hnew, List.map_cons, List.map_cons, List.sum_cons]

/-- What one state of a gateway has in common with a later one. -/
structure Grows (g g' : ToolGateway H) : Prop where
  budget : g'.schemaTokenBudget = g.schemaTokenBudget
  tools : ∀ name tool, g.tools.lookup name = some tool → g'.tools.lookup name = some tool
  cost : g.schemaCost ≤ g'.schemaCost
  calls : g.calls <+: g'.calls

theorem Grows.refl (g : ToolGateway H) : g.Grows g :=
  ⟨rfl, fun _ _ h => h, Nat.le_refl _, List.prefix_refl _⟩

theorem Grows.trans (h : g.Grows g') (h' : g'.Grows g'') : g.Grows g'' :=
  ⟨h'.budget.trans h.budget, fun name tool ht => h'.tools name tool (h.tools name tool ht),
    Nat.le_trans h.cost h'.cost, h.calls.trans h'.calls⟩

theorem grows_call (g : ToolGateway H) (op : GatewayOp H E) :
    g.Grows ((toolGateway U H E).step g op).2 := by
  have hstep := gateway_step U g op
  generalize (toolGateway U H E).step g op = res at hstep
  cases hstep with
  | rejected text => exact .refl g
  | @registered tool hread hnew hcost =>
    refine ⟨rfl, fun name tool' ht => ?_, ?_, List.prefix_refl _⟩
    · have hne : name ≠ tool.name := by
        rintro rfl
        exact hnew (AList.lookup_isSome.mp (ht ▸ rfl))
      exact (AList.lookup_insert_ne hne).trans ht
    · rw [schemaCost_insert hnew]
      exact Nat.le_add_left _ _
  | invoked ht hwords => exact ⟨rfl, fun _ _ h => h, Nat.le_refl _, List.prefix_append _ _⟩

end ToolGateway

theorem grows_run {h : List (GatewayOp H E × Dispatch H E)}
    (hrun : (toolGateway U H E).Reach g h g') : g.Grows g' :=
  hrun.keeps (.refl g) fun _ op hg => hg.trans (ToolGateway.grows_call _ op)

/-- `register` refuses the tool. -/
def Declined (U : Unicode) (E : Type) (g : ToolGateway H) (tool : Tool H) : Prop :=
  ∃ text, (g.register U tool : Dispatch H E × ToolGateway H).1 = .rejected text

theorem declined_iff {tool : Tool H} : Declined U E g tool ↔
    tool.access = .write ∨ tool.name ∈ g.tools ∨
      g.schemaTokenBudget < (g.schemaCost + tool.schemaTokens : Nat) := by
  unfold Declined ToolGateway.register
  by_cases hw : tool.access = .write
  · simp [hw]
  by_cases hn : tool.name ∈ g.tools
  · simp [hw, hn]
  by_cases hb : g.schemaTokenBudget < (g.schemaCost + tool.schemaTokens : Nat)
  · rw [if_neg hw, if_neg hn, if_pos hb]
    exact ⟨fun _ => .inr (.inr hb), fun _ => ⟨_, rfl⟩⟩
  · rw [if_neg hw, if_neg hn, if_neg hb]
    constructor
    · rintro ⟨text, ht⟩
      cases ht
    · rintro (hw' | hn' | hb')
      · exact absurd hw' hw
      · exact absurd hn' hn
      · exact absurd hb' hb

/-- **Answers last.** However a gateway goes on: a tool it refused stays refused, a name it knows
is dispatched as before, and what it advertised it goes on advertising. -/
theorem answers_last {h : List (GatewayOp H E × Dispatch H E)}
    (hrun : (toolGateway U H E).Reach g h g') :
    (∀ tool, Declined U E g tool → Declined U E g' tool) ∧
      (∀ name ∈ g.tools, ∀ arguments (answer : Except E Str),
        (g'.call U name arguments answer).1 = (g.call U name arguments answer).1) ∧
      g.advertised ⊆ g'.advertised ∧ g.calls <+: g'.calls := by
  have hg := grows_run hrun
  refine ⟨fun tool hr => ?_, fun name hname arguments answer => ?_, fun s hs => ?_, hg.calls⟩
  · rw [declined_iff] at hr ⊢
    rcases hr with hw | hn | hb
    · exact .inl hw
    · obtain ⟨tool', ht⟩ := Option.isSome_iff_exists.mp (AList.lookup_isSome.mpr hn)
      exact .inr (.inl (AList.lookup_isSome.mp (hg.tools _ _ ht ▸ rfl)))
    · have hcost := hg.cost
      have hbudget := hg.budget
      exact .inr (.inr (by omega))
  · obtain ⟨tool, ht⟩ := Option.isSome_iff_exists.mp (AList.lookup_isSome.mpr hname)
    unfold ToolGateway.call
    rw [ht, hg.tools _ _ ht]
    dsimp only
    cases arguments.entries.find? fun item => (forbidden U).search item.2 <;> rfl
  · obtain ⟨tool, htool, rfl⟩ := List.mem_map.mp hs
    rw [List.mem_insertionSort] at htool
    obtain ⟨name, ht⟩ := ToolGateway.mem_values.mp htool
    exact g'.schema_mem_advertised (hg.tools _ _ ht)

def metricsTool : Tool Unit :=
  ⟨lit "metrics", .read, lit "query", AList.singleton (lit "q") (lit "string"), ()⟩

/-- The session goes on: a second tool, and a call of the first one. -/
def laterCalls : List (GatewayOp Unit Str) :=
  [.register metricsTool, .call (lit "logs") (AList.singleton (lit "q") (lit "down")) (.ok [])]

def laterRan : List (GatewayOp Unit Str × Dispatch Unit Str) × ToolGateway Unit :=
  (toolGateway asciiOnly Unit Str).run gatewayRan.2 laterCalls

theorem answers_last_ran : laterRan.2.calls.length = 2 ∧
    (∀ tool, Declined asciiOnly Str gatewayRan.2 tool → Declined asciiOnly Str laterRan.2 tool) ∧
    (∀ name ∈ gatewayRan.2.tools, ∀ arguments (answer : Except Str Str),
      (laterRan.2.call asciiOnly name arguments answer).1 =
        (gatewayRan.2.call asciiOnly name arguments answer).1) ∧
    gatewayRan.2.advertised ⊆ laterRan.2.advertised ∧ gatewayRan.2.calls <+: laterRan.2.calls :=
  ⟨rfl, answers_last (Machine.Reach.init.run laterCalls)⟩

/-! ## Several tools -/

/-- All the tools are registered, one after the other. -/
def Taken (U : Unicode) (E : Type) (g : ToolGateway H) (tools : List (Tool H)) : Prop :=
  ∀ x ∈ ((toolGateway U H E).run g (tools.map .register)).1, x.2 = .registered

/-- The gateway after the calls that register the tools. -/
def withTools (U : Unicode) (E : Type) (g : ToolGateway H) (tools : List (Tool H)) :
    ToolGateway H :=
  ((toolGateway U H E).run g (tools.map .register)).2

/-- The tools are read tools with names of their own, and there is room for them all. -/
structure Fit (g : ToolGateway H) (tools : List (Tool H)) : Prop where
  read : ∀ t ∈ tools, t.access = .read
  names : (tools.map Tool.name).Nodup
  fresh : ∀ t ∈ tools, t.name ∉ g.tools
  budget : ((g.schemaCost + (tools.map Tool.schemaTokens).sum : Nat) : Int) ≤ g.schemaTokenBudget

/-- The gateway with one tool more. -/
def ToolGateway.add (g : ToolGateway H) (tool : Tool H) : ToolGateway H :=
  { g with tools := g.tools.insert tool.name tool }

theorem register_eq {tool : Tool H} (hr : ¬ Declined U E g tool) :
    (g.register U tool : Dispatch H E × ToolGateway H) = (.registered, g.add tool) := by
  rw [declined_iff] at hr
  obtain ⟨hw, hr⟩ := not_or.mp hr
  obtain ⟨hn, hb⟩ := not_or.mp hr
  unfold ToolGateway.register
  rw [if_neg hw, if_neg hn]
  exact if_neg hb

theorem registered_iff {tool : Tool H} :
    (g.register U tool : Dispatch H E × ToolGateway H).1 = .registered ↔ ¬ Declined U E g tool := by
  constructor
  · rintro hreg ⟨text, htext⟩
    rw [hreg] at htext
    cases htext
  · intro hr
    rw [register_eq hr]

theorem withTools_cons {tool : Tool H} (tools : List (Tool H)) (hr : ¬ Declined U E g tool) :
    withTools U E g (tool :: tools) = withTools U E (g.add tool) tools := by
  show ((toolGateway U H E).run (g.register U tool).2 (tools.map .register)).2 = _
  rw [register_eq hr]
  rfl

theorem taken_cons {tool : Tool H} {tools : List (Tool H)} :
    Taken U E g (tool :: tools) ↔ ¬ Declined U E g tool ∧ Taken U E (g.add tool) tools := by
  unfold Taken
  rw [List.map_cons, Machine.run, List.forall_mem_cons]
  show (g.register U tool).1 = .registered ∧ _ ↔ _
  rw [registered_iff]
  refine and_congr_right fun hr => ?_
  show (∀ x ∈ ((toolGateway U H E).run (g.register U tool).2 _).1, _) ↔ _
  rw [register_eq hr]

theorem mem_add {name : Str} {tool : Tool H} :
    name ∈ (g.add tool).tools ↔ name = tool.name ∨ name ∈ g.tools :=
  AList.mem_insert g.tools

theorem fit_cons {tool : Tool H} {tools : List (Tool H)} :
    Fit g (tool :: tools) ↔ ¬ Declined U E g tool ∧ Fit (g.add tool) tools := by
  have hread : tool.access = .read ↔ ¬ tool.access = .write := by
    cases tool.access <;> simp
  rw [declined_iff, not_or, not_or, ← hread, not_lt]
  constructor
  · rintro ⟨hr, hn, hf, hb⟩
    rw [List.map_cons, List.nodup_cons] at hn
    rw [List.map_cons, List.sum_cons] at hb
    rw [List.forall_mem_cons] at hr hf
    refine ⟨⟨hr.1, hf.1, by omega⟩, hr.2, hn.2, fun t ht hmem => ?_, ?_⟩
    · rcases mem_add.mp hmem with heq | hold
      · exact hn.1 (heq ▸ List.mem_map_of_mem ht)
      · exact hf.2 t ht hold
    · have hcost := ToolGateway.schemaCost_insert hf.1
      show (((ToolGateway.schemaCost (g.add tool) + _ : Nat)) : Int) ≤ g.schemaTokenBudget
      unfold ToolGateway.add
      omega
  · rintro ⟨⟨hr, hf, hroom⟩, hfit⟩
    have hcost := ToolGateway.schemaCost_insert hf
    have hb := hfit.budget
    unfold ToolGateway.add at hb
    refine ⟨List.forall_mem_cons.mpr ⟨hr, hfit.read⟩, ?_, ?_, ?_⟩
    · rw [List.map_cons, List.nodup_cons]
      refine ⟨fun hmem => ?_, hfit.names⟩
      obtain ⟨t, ht, heq⟩ := List.mem_map.mp hmem
      exact hfit.fresh t ht (mem_add.mpr (.inl heq))
    · exact List.forall_mem_cons.mpr
        ⟨hf, fun t ht hold => hfit.fresh t ht (mem_add.mpr (.inr hold))⟩
    · rw [List.map_cons, List.sum_cons]
      dsimp only at hb
      omega

theorem Sound.add {tool : Tool H} (hs : Sound g) (hr : ¬ Declined U E g tool) :
    Sound (g.add tool) := by
  have hcall := hs.call (U := U) (E := E) (.register tool)
  change Sound (g.register U tool : Dispatch H E × ToolGateway H).2 at hcall
  rwa [register_eq hr] at hcall

theorem Sound.taken_iff (hs : Sound g) {tools : List (Tool H)} :
    Taken U E g tools ↔ Fit g tools := by
  induction tools generalizing g with
  | nil =>
    refine ⟨fun _ => ⟨by simp, .nil, by simp, hs.budget⟩, fun _ => ?_⟩
    simp [Taken, Machine.run]
  | cons tool tools ih =>
    rw [taken_cons, fit_cons (U := U) (E := E)]
    exact and_congr_right fun hr => ih (hs.add hr)

/-- **What fits.** A list of tools is registered without a refusal exactly if they are read tools
with names of their own and their schemas fit in what is left of the budget. -/
theorem taken_iff_fit {b : Int} (hb : 0 ≤ b) {h : List (GatewayOp H E × Dispatch H E)}
    (hrun : (toolGateway U H E).Reach (.new H b) h g) (tools : List (Tool H)) :
    Taken U E g tools ↔ Fit g tools :=
  (sound hb hrun).taken_iff

theorem taken_iff_fit_ran :
    Taken asciiOnly Str gatewayRan.2 [logsTool] ↔ Fit gatewayRan.2 [logsTool] :=
  taken_iff_fit (b := 100) (by decide) (Machine.Reach.init.run gatewayCalls) [logsTool]

theorem entries_withTools {tools : List (Tool H)} (ht : Taken U E g tools) :
    (withTools U E g tools).tools.entries.Perm
        (tools.map (fun t => ⟨t.name, t⟩) ++ g.tools.entries) ∧
      (withTools U E g tools).calls = g.calls := by
  induction tools generalizing g with
  | nil => exact ⟨.refl _, rfl⟩
  | cons tool tools ih =>
    obtain ⟨hr, ht'⟩ := taken_cons.mp ht
    obtain ⟨hperm, hcalls⟩ := ih ht'
    rw [withTools_cons tools hr]
    refine ⟨hperm.trans ?_, hcalls⟩
    have hnew : tool.name ∉ g.tools := fun hmem => hr (declined_iff.mpr (.inr (.inl hmem)))
    show (_ ++ (g.tools.insert tool.name tool).entries).Perm _
    rw [AList.entries_insert_of_notMem hnew]
    exact List.perm_middle

theorem Fit.perm {tools tools' : List (Tool H)} (hf : Fit g tools) (hp : tools.Perm tools') :
    Fit g tools' where
  read t ht := hf.read t (hp.mem_iff.mpr ht)
  names := (hp.map _).nodup_iff.mp hf.names
  fresh t ht := hf.fresh t (hp.mem_iff.mpr ht)
  budget := (hp.map Tool.schemaTokens).sum_nat ▸ hf.budget

/-- Tables with the same entries, in whatever order, advertise the same. -/
theorem Sound.advertised_eq (hs : Sound g) (hp : g.tools.entries.Perm g'.tools.entries) :
    g.advertised = g'.advertised := by
  have hvalues : g.values.Perm g'.values := hp.map _
  unfold ToolGateway.advertised
  congr 1
  refine List.Perm.eq_of_pairwise (fun t u ht hu htu hut => ?_)
    (List.pairwise_insertionSort (fun t u : Tool H => t.name ≤ u.name) g.values)
    (List.pairwise_insertionSort (fun t u : Tool H => t.name ≤ u.name) g'.values) ?_
  · -- one name, one tool
    rw [List.mem_insertionSort] at ht hu
    have hname : t.name = u.name := le_antisymm htu hut
    obtain ⟨name, ht⟩ := ToolGateway.mem_values.mp ht
    obtain ⟨name', hu⟩ := ToolGateway.mem_values.mp (hvalues.mem_iff.mpr hu)
    obtain rfl : name = name' := by
      rw [← (hs.stored _ _ ht).1, ← (hs.stored _ _ hu).1, hname]
    exact Option.some.inj (ht.symm.trans hu)
  · exact ((List.perm_insertionSort _ _).trans hvalues).trans (List.perm_insertionSort _ _).symm

namespace ToolGateway

/-- The gateways have the same tools, in whatever order they were registered. -/
structure Alike (g g' : ToolGateway H) : Prop where
  budget : g.schemaTokenBudget = g'.schemaTokenBudget
  entries : g.tools.entries.Perm g'.tools.entries
  calls : g.calls = g'.calls

theorem Alike.register (h : g.Alike g') (tool : Tool H) :
    (g.register U tool : Dispatch H E × ToolGateway H).1 = (g'.register U tool).1 ∧
      (g.register U tool : Dispatch H E × ToolGateway H).2.Alike
        (g'.register U tool : Dispatch H E × ToolGateway H).2 := by
  have hmem : tool.name ∈ g.tools ↔ tool.name ∈ g'.tools := AList.mem_of_perm h.entries
  have hcost : g.schemaCost = g'.schemaCost := ((h.entries.map _).map _).sum_nat
  unfold ToolGateway.register
  by_cases hw : tool.access = .write
  · rw [if_pos hw, if_pos hw]
    exact ⟨rfl, h⟩
  rw [if_neg hw, if_neg hw]
  by_cases hn : tool.name ∈ g.tools
  · rw [if_pos hn, if_pos (hmem.mp hn)]
    exact ⟨rfl, h⟩
  rw [if_neg hn, if_neg (mt hmem.mpr hn), hcost, h.budget]
  dsimp only
  by_cases hb : g'.schemaTokenBudget < (g'.schemaCost + tool.schemaTokens : Nat)
  · rw [if_pos hb, if_pos hb]
    exact ⟨rfl, h⟩
  · rw [if_neg hb, if_neg hb]
    exact ⟨rfl, rfl, AList.perm_insert h.entries, h.calls⟩

theorem Alike.call (h : g.Alike g') (name : Str) (arguments : Mapping Str)
    (answer : Except E Str) :
    (g.call U name arguments answer).1 = (g'.call U name arguments answer).1 ∧
      (g.call U name arguments answer).2.Alike (g'.call U name arguments answer).2 := by
  unfold ToolGateway.call
  rw [AList.perm_lookup h.entries]
  cases g'.tools.lookup name with
  | none => exact ⟨rfl, h⟩
  | some tool =>
    dsimp only
    cases arguments.entries.find? fun item => (forbidden U).search item.2 with
    | some item => exact ⟨rfl, h⟩
    | none => exact ⟨rfl, h.budget, h.entries, by rw [h.calls]⟩

theorem Alike.run (h : g.Alike g') (ops : List (GatewayOp H E)) :
    ((toolGateway U H E).run g ops).1 = ((toolGateway U H E).run g' ops).1 := by
  induction ops generalizing g g' with
  | nil => rfl
  | cons op ops ih =>
    have hstep : ((toolGateway U H E).step g op).1 = ((toolGateway U H E).step g' op).1 ∧
        ((toolGateway U H E).step g op).2.Alike ((toolGateway U H E).step g' op).2 := by
      cases op with
      | register tool => exact h.register tool
      | call name arguments answer => exact h.call name arguments answer
    rw [Machine.run, Machine.run]
    dsimp only
    rw [hstep.1, ih hstep.2]

end ToolGateway

theorem alike_withTools {tools tools' : List (Tool H)} (hp : tools.Perm tools')
    (ht : Taken U E g tools) (ht' : Taken U E g tools') :
    (withTools U E g tools).Alike (withTools U E g tools') where
  budget := ((grows_run (Machine.Reach.init.run _)).budget).trans
    (grows_run (U := U) (E := E) (Machine.Reach.init.run (tools'.map .register))).budget.symm
  entries := (entries_withTools ht).1.trans
    (((hp.map _).append_right _).trans (entries_withTools ht').1.symm)
  calls := (entries_withTools ht).2.trans (entries_withTools ht').2.symm

/-- **The order is free.** If a list of tools is registered without a refusal, so it is in every
other order, with the same schemas advertised and everything after it answered alike. -/
theorem order_free {b : Int} (hb : 0 ≤ b) {h : List (GatewayOp H E × Dispatch H E)}
    (hrun : (toolGateway U H E).Reach (.new H b) h g) {tools tools' : List (Tool H)}
    (hp : tools.Perm tools') (ht : Taken U E g tools) :
    Taken U E g tools' ∧
      (withTools U E g tools).advertised = (withTools U E g tools').advertised ∧
      ∀ ops : List (GatewayOp H E), ((toolGateway U H E).run (withTools U E g tools) ops).1 =
        ((toolGateway U H E).run (withTools U E g tools') ops).1 := by
  have hs := sound hb hrun
  have ht' : Taken U E g tools' := hs.taken_iff.mpr ((hs.taken_iff.mp ht).perm hp)
  have halike := alike_withTools hp ht ht'
  exact ⟨ht', (sound hb (hrun.run _)).advertised_eq halike.entries, halike.run⟩

theorem order_free_metrics :
    Taken asciiOnly Str (.new Unit 100) [metricsTool, logsTool] ∧
      (withTools asciiOnly Str (.new Unit 100) [logsTool, metricsTool]).advertised =
        (withTools asciiOnly Str (.new Unit 100) [metricsTool, logsTool]).advertised ∧
      ∀ ops : List (GatewayOp Unit Str),
        ((toolGateway asciiOnly Unit Str).run
          (withTools asciiOnly Str (.new Unit 100) [logsTool, metricsTool]) ops).1 =
        ((toolGateway asciiOnly Unit Str).run
          (withTools asciiOnly Str (.new Unit 100) [metricsTool, logsTool]) ops).1 := by
  refine order_free (b := 100) (by decide) .init (List.Perm.swap ..) ?_
  refine (Sound.taken_iff (sound (h := []) (b := 100) (U := asciiOnly) (E := Str) (by decide)
    .init)).mpr ⟨by decide, by decide, by decide, by decide⟩

end IspPlatform.Ai
