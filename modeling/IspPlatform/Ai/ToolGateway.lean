import IspPlatform.Ai.ApprovalGate
import IspPlatform.Py.Unicode

/-!
# The read-only tool gateway

`register`, `call` and `advertised`. A handler is known by its identity; what it gives back
or raises when it is invoked comes with the call. A handler may call the gateway again:
such calls come after its own, since the log is written before the handler runs.
-/

namespace IspPlatform.Ai

open Py

inductive ToolAccess where
  | read
  | write
  deriving DecidableEq, Repr

/-- `Tool`, with handlers in `H`. -/
structure Tool (H : Type) where
  name : Str
  access : ToolAccess
  description : Str
  parameters : Mapping Str
  handler : H

/-- What the model is told of a tool. -/
structure Schema where
  name : Str
  description : Str
  parameters : Mapping Str
  deriving DecidableEq

def Tool.schema {H : Type} (t : Tool H) : Schema := ⟨t.name, t.description, t.parameters⟩

/-! ## The size of a schema -/

/-- One character in a JSON string, with everything outside printable ASCII escaped. -/
def jsonChar (c : Char) : Str :=
  let n := c.toNat
  if c = '"' ∨ c = '\\' then ['\\', c]
  else if c = '\n' then ['\\', 'n']
  else if c = '\r' then ['\\', 'r']
  else if c = '\t' then ['\\', 't']
  else if n = 0x0c then ['\\', 'f']
  else if n = 0x08 then ['\\', 'b']
  else if 0x20 ≤ n ∧ n ≤ 0x7e then [c]
  else if n ≤ 0xffff then ['\\', 'u'] ++ hex 4 n
  else
    ['\\', 'u'] ++ hex 4 (0xd800 + (n - 0x10000) / 0x400) ++
      ['\\', 'u'] ++ hex 4 (0xdc00 + (n - 0x10000) % 0x400)

def jsonStr (s : Str) : Str := ['"'] ++ s.flatMap jsonChar ++ ['"']

/-- `json.dumps` of a dictionary whose values are written already. -/
def jsonObject (fields : List (Str × Str)) : Str :=
  ['{'] ++ (lit ", ").intercalate (fields.map fun f => jsonStr f.1 ++ lit ": " ++ f.2) ++ ['}']

/-- `json.dumps` of a schema. -/
def Schema.json (s : Schema) : Str :=
  jsonObject [(lit "name", jsonStr s.name), (lit "description", jsonStr s.description),
    (lit "parameters", jsonObject (s.parameters.entries.map fun p => (p.1, jsonStr p.2)))]

/-- `schema_tokens`. -/
def Tool.schemaTokens {H : Type} (t : Tool H) : Nat := t.schema.json.length / 4

structure ToolGateway (H : Type) where
  schemaTokenBudget : Int
  tools : Mapping (Tool H)
  calls : List (Str × Mapping Str)

def forbiddenWords : List Str :=
  [lit "drop", lit "delete", lit "truncate", lit "insert", lit "update", lit "alter", lit "grant"]

/-- `_FORBIDDEN`. -/
def forbidden (U : Unicode) : Regex :=
  .seq (.boundary U.word)
    (.seq (Regex.any (forbiddenWords.map (Regex.chars ignoreCase))) (.boundary U.word))

/-- What a call gives back. `rejected` is `ToolRejected`; `invoked` is the handler's own
answer or exception. -/
inductive Dispatch (H E : Type) where
  | registered
  | rejected (text : Str)
  | invoked (handler : H) (arguments : Mapping Str) (answer : Except E Str)

namespace ToolGateway

variable {H E : Type} (g : ToolGateway H)

/-- `_tools.values()`. -/
def values : List (Tool H) := g.tools.entries.map (·.2)

def schemaCost : Nat := (g.values.map Tool.schemaTokens).sum

def register (U : Unicode) (tool : Tool H) : Dispatch H E × ToolGateway H :=
  if tool.access = .write then
    (.rejected (lit "tool " ++ reprStr U.printable tool.name ++
      lit " declares write access; this gateway is read-only by construction"), g)
  else if tool.name ∈ g.tools then
    (.rejected (lit "tool " ++ reprStr U.printable tool.name ++ lit " already registered"), g)
  else
    let projected := g.schemaCost + tool.schemaTokens
    if g.schemaTokenBudget < projected then
      (.rejected (lit "registering " ++ reprStr U.printable tool.name ++
        lit " would take the advertised schema to ~" ++ natStr projected ++
        lit " tokens, over the " ++ intStr g.schemaTokenBudget ++
        lit " budget. Tool schemas are paid on every request; scope the set or raise the " ++
        lit "budget deliberately."), g)
    else (.registered, { g with tools := g.tools.insert tool.name tool })

def advertised : List Schema :=
  (g.values.insertionSort (fun t u => t.name ≤ u.name)).map Tool.schema

/-- `answer` is what the handler gives back or raises, if it is invoked. -/
def call (U : Unicode) (name : Str) (arguments : Mapping Str) (answer : Except E Str) :
    Dispatch H E × ToolGateway H :=
  match g.tools.lookup name with
  | none => (.rejected (lit "unknown tool " ++ reprStr U.printable name), g)
  | some tool =>
    match arguments.entries.find? fun item => (forbidden U).search item.2 with
    | some item =>
      (.rejected (lit "argument " ++ reprStr U.printable item.1 ++
        lit " contains a mutating keyword; refused"), g)
    | none =>
      (.invoked tool.handler arguments answer, { g with calls := g.calls ++ [(name, arguments)] })

end ToolGateway

inductive GatewayOp (H E : Type) where
  | register (tool : Tool H)
  | call (name : Str) (arguments : Mapping Str) (answer : Except E Str)

def toolGateway (U : Unicode) (H E : Type) :
    Machine (ToolGateway H) (GatewayOp H E) (Dispatch H E) where
  step g
    | .register tool => g.register U tool
    | .call name arguments answer => g.call U name arguments answer

/-! ## The denylist -/

/-- `s` has the lower-case `w` as a whole word, in any letter case. -/
def WholeWord (U : Unicode) (w s : Str) : Prop :=
  ∃ pre m post, s = pre ++ m ++ post ∧ m.map Char.toLower = w ∧
    (∀ c, pre.getLast? = some c → U.word c = false) ∧
    (∀ c, post.head? = some c → U.word c = false)

theorem forbiddenWords_lower : ∀ w ∈ forbiddenWords, w ≠ [] ∧
    ∀ c ∈ w, isAscii c = true ∧ c.isLower = true := by
  have hall : forbiddenWords.all (fun w => !w.isEmpty && w.all fun c => isAscii c && c.isLower) =
      true := by
    decide
  intro w hw
  obtain ⟨hne, hlow⟩ := Bool.and_eq_true_iff.mp (List.all_eq_true.mp hall w hw)
  refine ⟨by simpa using hne, fun c hc => ?_⟩
  exact Bool.and_eq_true_iff.mp (List.all_eq_true.mp hlow c hc)

theorem option_any_false {p : Char → Bool} {o : Option Char}
    (h : ∀ c, o = some c → p c = false) : o.any p = false := by
  cases o with
  | none => rfl
  | some c => exact h c rfl

/-- The search finds every forbidden whole word. -/
theorem search_forbidden {U : Unicode} {w s : Str} (hw : w ∈ forbiddenWords)
    (h : WholeWord U w s) : (forbidden U).search s = true := by
  obtain ⟨pre, m, post, rfl, rfl, hpre, hpost⟩ := h
  obtain ⟨hne, hlow⟩ := forbiddenWords_lower _ hw
  have hletter : ∀ x ∈ m, U.word x = true := by
    intro x hx
    exact U.word_of_toLower (hlow _ (List.mem_map_of_mem hx)).2
  have hchars : List.Forall₂ (fun c x => ignoreCase c x = true) (m.map Char.toLower) m := by
    rw [List.forall₂_map_left_iff, List.forall₂_same]
    intro x hx
    exact ignoreCase_of_toLower (hlow _ (List.mem_map_of_mem hx)).1 rfl
  have hm : m ≠ [] := by
    rintro rfl
    exact hne rfl
  -- a word character on one side of each boundary, none on the other
  have hleft : Regex.atBoundary U.word (pre.reverse, m ++ post) = true := by
    obtain ⟨x, m', rfl⟩ := List.exists_cons_of_ne_nil hm
    unfold Regex.atBoundary
    simp only [List.head?_reverse]
    rw [option_any_false hpre]
    simpa using hletter x List.mem_cons_self
  have hright : Regex.atBoundary U.word (m.reverse ++ pre.reverse, post) = true := by
    obtain ⟨m', x, rfl⟩ := (List.eq_nil_or_concat m).resolve_left hm
    unfold Regex.atBoundary
    simp only
    rw [option_any_false hpost]
    simpa using hletter x (by simp)
  rw [Regex.search_iff]
  refine ⟨pre, m, post, rfl, ?_⟩
  unfold forbidden
  refine ⟨[], m, rfl, ⟨rfl, hleft⟩, m, [], by simp, ?_, rfl, ?_⟩
  · rw [Regex.matches_any]
    exact ⟨_, List.mem_map_of_mem hw, Regex.matches_chars.mpr hchars⟩
  · simpa using hright

end IspPlatform.Ai
