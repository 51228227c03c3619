import IspPlatform.Ai.ToolGateway
import IspPlatform.Py.Numerals
import IspPlatform.Py.Repr

/-!
# Why a tool call was rejected

`ToolRejected` carries a text alone. `Rejection` lists what the texts say, and `Reason` when each
is said; whatever the names in it are, a text tells which it is.
-/

namespace IspPlatform.Ai

open Py Lib

inductive Rejection where
  | writeAccess (name : Str)
  | registered (name : Str)
  | overBudget (name : Str) (projected : Nat) (budget : Int)
  | unknown (name : Str)
  | mutating (key : Str)
  deriving DecidableEq, Repr

/-- `str(exc)`. -/
def Rejection.text (printable : Char → Bool) : Rejection → Str
  | .writeAccess name => lit "tool " ++ reprStr printable name ++
      lit " declares write access; this gateway is read-only by construction"
  | .registered name => lit "tool " ++ reprStr printable name ++ lit " already registered"
  | .overBudget name projected budget => lit "registering " ++ reprStr printable name ++
      lit " would take the advertised schema to ~" ++ natStr projected ++
      lit " tokens, over the " ++ intStr budget ++
      lit " budget. Tool schemas are paid on every request; scope the set or raise the " ++
      lit "budget deliberately."
  | .unknown name => lit "unknown tool " ++ reprStr printable name
  | .mutating key => lit "argument " ++ reprStr printable key ++
      lit " contains a mutating keyword; refused"

section
variable {H E : Type}

/-- When the gateway rejects a registration or a call, and why. -/
inductive Reason (U : Unicode) (g : ToolGateway H) : GatewayOp H E → Rejection → Prop where
  | writeAccess {tool : Tool H} : tool.access = .write →
      Reason U g (.register tool) (.writeAccess tool.name)
  | registered {tool : Tool H} : tool.access = .read → tool.name ∈ g.tools →
      Reason U g (.register tool) (.registered tool.name)
  | overBudget {tool : Tool H} : tool.access = .read → tool.name ∉ g.tools →
      g.schemaTokenBudget < g.schemaCost + tool.schemaTokens →
      Reason U g (.register tool)
        (.overBudget tool.name (g.schemaCost + tool.schemaTokens) g.schemaTokenBudget)
  | unknown {name : Str} {arguments : Mapping Str} {answer : Except E Str} : name ∉ g.tools →
      Reason U g (.call name arguments answer) (.unknown name)
  | mutating {name : Str} {arguments : Mapping Str} {answer : Except E Str}
      {before after : List (Σ _ : Str, Str)} {key value : Str} : name ∈ g.tools →
      arguments.entries = before ++ ⟨key, value⟩ :: after → (forbidden U).search value = true →
      (∀ item ∈ before, (forbidden U).search item.2 = false) →
      Reason U g (.call name arguments answer) (.mutating key)

variable {U : Unicode} {g : ToolGateway H} {op : GatewayOp H E} {text : Str}

theorem register_reason {tool : Tool H}
    (h : (g.register U tool : Dispatch H E × ToolGateway H).1 = .rejected text) :
    ∃ r, text = r.text U.printable ∧ Reason (E := E) U g (.register tool) r := by
  unfold ToolGateway.register at h
  by_cases hw : tool.access = .write
  · rw [if_pos hw] at h
    cases h
    exact ⟨_, rfl, .writeAccess hw⟩
  have hread : tool.access = .read := by
    cases ha : tool.access with
    | read => rfl
    | write => exact absurd ha hw
  rw [if_neg hw] at h
  by_cases hin : tool.name ∈ g.tools
  · rw [if_pos hin] at h
    cases h
    exact ⟨_, rfl, .registered hread hin⟩
  rw [if_neg hin] at h
  dsimp only at h
  split at h
  · next hlt =>
    cases h
    exact ⟨.overBudget tool.name _ _, rfl, .overBudget hread hin (by exact_mod_cast hlt)⟩
  · cases h

theorem call_reason {name : Str} {arguments : Mapping Str} {answer : Except E Str}
    (h : (g.call U name arguments answer).1 = .rejected text) :
    ∃ r, text = r.text U.printable ∧ Reason U g (.call name arguments answer) r := by
  unfold ToolGateway.call at h
  cases hl : g.tools.lookup name with
  | none =>
    rw [hl] at h
    cases h
    exact ⟨.unknown name, rfl, .unknown (AList.lookup_eq_none.mp hl)⟩
  | some tool =>
    rw [hl] at h
    dsimp only at h
    have hin : name ∈ g.tools := AList.lookup_isSome.mp (by rw [hl]; rfl)
    split at h
    · next item hfind =>
      cases h
      obtain ⟨key, value⟩ := item
      obtain ⟨hsearch, before, after, heq, hbefore⟩ := List.find?_eq_some_iff_append.mp hfind
      refine ⟨.mutating key, rfl, .mutating hin heq hsearch ?_⟩
      intro x hx
      simpa using hbefore x hx
    · cases h

theorem rejected_reason (h : ((toolGateway U H E).step g op).1 = .rejected text) :
    ∃ r, text = r.text U.printable ∧ Reason U g op r := by
  cases op with
  | register tool => exact register_reason h
  | call name arguments answer => exact call_reason h

end

section
variable {printable : Char → Bool}

theorem tool_texts {name name' : Str} : Rejection.text printable (.writeAccess name) ≠
    Rejection.text printable (.registered name') := by
  intro h
  have hsplit : lit "tool " ++ (reprStr printable name ++
      lit " declares write access; this gateway is read-only by construction") =
      lit "tool " ++ (reprStr printable name' ++ lit " already registered") := by
    simpa [Rejection.text] using h
  obtain ⟨-, htail⟩ := reprStr_selfDelimiting printable (List.append_cancel_left hsplit)
  revert htail
  decide

theorem overBudget_text {name name' : Str} {projected projected' : Nat} {budget budget' : Int}
    (h : Rejection.text printable (.overBudget name projected budget) =
      Rejection.text printable (.overBudget name' projected' budget')) :
    name = name' ∧ projected = projected' ∧ budget = budget' := by
  have hnat : ∀ n : Nat, ' ' ∉ natStr n := fun n => not_mem_natStr (by decide)
  have hint : ∀ n : Int, ' ' ∉ intStr n := fun n => not_mem_intStr (by decide) (by decide)
  have htokens : lit " tokens, over the " = ' ' :: lit "tokens, over the " := rfl
  have hclose : lit " budget. Tool schemas are paid on every request; scope the set or raise the " =
      ' ' :: lit "budget. Tool schemas are paid on every request; scope the set or raise the " :=
    rfl
  unfold Rejection.text at h
  simp only [List.append_assoc, htokens, hclose, List.cons_append] at h
  obtain ⟨hname, hcost⟩ := reprStr_selfDelimiting printable (List.append_cancel_left h)
  obtain ⟨hprojected, hlimit⟩ :=
    eq_before_mark natStr_injective hnat (List.append_cancel_left hcost)
  obtain ⟨hbudget, -⟩ := eq_before_mark intStr_injective hint (List.append_cancel_left hlimit)
  exact ⟨hname, hprojected, hbudget⟩

theorem text_injective : Function.Injective (Rejection.text printable) := by
  intro r r' h
  cases r with
  | writeAccess name =>
    cases r' with
    | writeAccess name' => rw [((reprStr_selfDelimiting printable).framed _ _).injective h]
    | registered name' => exact absurd h tool_texts
    | _ => simp [Rejection.text, lit] at h
  | registered name =>
    cases r' with
    | writeAccess name' => exact absurd h.symm tool_texts
    | registered name' => rw [((reprStr_selfDelimiting printable).framed _ _).injective h]
    | _ => simp [Rejection.text, lit] at h
  | overBudget name projected budget =>
    cases r' with
    | overBudget name' projected' budget' =>
      obtain ⟨rfl, rfl, rfl⟩ := overBudget_text h
      rfl
    | _ => simp [Rejection.text, lit] at h
  | unknown name =>
    cases r' with
    | unknown name' =>
      rw [(reprStr_selfDelimiting printable).injective (List.append_cancel_left h)]
    | _ => simp [Rejection.text, lit] at h
  | mutating key =>
    cases r' with
    | mutating key' => rw [((reprStr_selfDelimiting printable).framed _ _).injective h]
    | _ => simp [Rejection.text, lit] at h

end

section
variable {H E : Type} {U : Unicode} {g : ToolGateway H} {op : GatewayOp H E}

theorem Reason.rejected {r : Rejection} (h : Reason U g op r) :
    ((toolGateway U H E).step g op).1 = .rejected (r.text U.printable) := by
  unfold toolGateway
  cases h with
  | writeAccess hw =>
    dsimp only
    rw [ToolGateway.register, if_pos hw]
    rfl
  | registered hread hin =>
    dsimp only
    rw [ToolGateway.register, if_neg (by simp [hread]), if_pos hin]
    rfl
  | overBudget hread hin hlt =>
    dsimp only
    rw [ToolGateway.register, if_neg (by simp [hread]), if_neg hin]
    dsimp only
    rw [if_pos (by exact_mod_cast hlt)]
    rfl
  | unknown hin =>
    dsimp only
    rw [ToolGateway.call, AList.lookup_eq_none.mpr hin]
    rfl
  | @mutating name arguments answer before after key value hin heq hsearch hbefore =>
    obtain ⟨tool, htool⟩ := Option.isSome_iff_exists.mp (AList.lookup_isSome.mpr hin)
    have hfind : arguments.entries.find? (fun item => (forbidden U).search item.2) =
        some ⟨key, value⟩ := by
      refine List.find?_eq_some_iff_append.mpr ⟨hsearch, before, after, heq, ?_⟩
      intro x hx
      simp [hbefore x hx]
    dsimp only
    rw [ToolGateway.call, htool]
    dsimp only
    rw [hfind]
    rfl

/-- **The text tells the reason.** The gateway rejects a request with the text of a reason exactly
if that is the reason, and with no other text; what a handler raises is the handler's answer. -/
theorem rejection_tells (U : Unicode) (g : ToolGateway H) (op : GatewayOp H E) :
    (∀ r : Rejection, ((toolGateway U H E).step g op).1 = .rejected (r.text U.printable) ↔
      Reason U g op r) ∧
    ∀ text, ((toolGateway U H E).step g op).1 = .rejected text →
      ∃ r : Rejection, text = r.text U.printable := by
  refine ⟨fun r => ⟨fun h => ?_, Reason.rejected⟩, fun text h => ?_⟩
  · obtain ⟨r', htext, hreason⟩ := rejected_reason h
    rwa [text_injective htext]
  · obtain ⟨r, htext, -⟩ := rejected_reason h
    exact ⟨r, htext⟩

end

end IspPlatform.Ai
