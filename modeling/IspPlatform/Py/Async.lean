import Mathlib.Tactic.TypeStar

/-!
# Asynchronous programs

An `async` function is the tree of the calls it awaits: `Prog I α` stops at a call
of the interface `I` and goes on with what the call gives back. Between two awaits
nothing else can run, so the nodes of the tree are the only program points. A call
returns, raises an `Exception`, or is cancelled; `except Exception` catches the
second and not the third.

`After p t q`: answered the calls `t`, `p` stands at `q`. `After.done_iff` and
`After.await_iff` compute it, so a function's program points come out of its definition.
-/

namespace IspPlatform.Py

/-- How a computation ends. `cancelled` is `asyncio.CancelledError`. -/
inductive Outcome (ε α : Type) where
  | ret (a : α)
  | raised (e : ε)
  | cancelled
  deriving DecidableEq, Repr

/-- It gave back no value. -/
def Outcome.failed {ε α : Type} : Outcome ε α → Bool
  | .ret _ => false
  | _ => true

section
variable {ε α : Type}

@[simp] theorem Outcome.failed_ret (a : α) : (ret a : Outcome ε α).failed = false := rfl

@[simp] theorem Outcome.failed_raised (e : ε) : (raised e : Outcome ε α).failed = true := rfl

@[simp] theorem Outcome.failed_cancelled : (cancelled : Outcome ε α).failed = true := rfl

end

/-- Calls to collaborators: what each gives back, and the exceptions there are. -/
structure Iface where
  Op : Type
  Res : Op → Type
  Exn : Type

/-- What a call gave back. -/
abbrev Reply (I : Iface) (op : I.Op) : Type := Outcome I.Exn (I.Res op)

/-- A call with its reply. -/
structure Event (I : Iface) where
  op : I.Op
  reply : Reply I op

inductive Prog (I : Iface) (α : Type) where
  | done (o : Outcome I.Exn α)
  | await (op : I.Op) (k : Reply I op → Prog I α)

namespace Prog

variable {I : Iface} {α β : Type}

/-- Go on with how `p` ended. -/
def andThen : Prog I α → (Outcome I.Exn α → Prog I β) → Prog I β
  | .done o, g => g o
  | .await op k, g => .await op fun r => (k r).andThen g

/-- Only a returned value reaches the rest of the body. -/
def onRet (f : α → Prog I β) : Outcome I.Exn α → Prog I β
  | .ret a => f a
  | .raised e => .done (.raised e)
  | .cancelled => .done .cancelled

/-- Only an `Exception` reaches the handler. -/
def onRaised (h : I.Exn → Prog I α) : Outcome I.Exn α → Prog I α
  | .raised e => h e
  | o => .done o

def bind (p : Prog I α) (f : α → Prog I β) : Prog I β := p.andThen (onRet f)

instance : Monad (Prog I) where
  pure a := .done (.ret a)
  bind := Prog.bind

/-- Await one call. -/
def call (op : I.Op) : Prog I (I.Res op) := .await op .done

/-- `raise e`. -/
def raise (e : I.Exn) : Prog I α := .done (.raised e)

/-- `try: p` with a handler for every `Exception`; the handler raises again what the
source's `except` clauses do not name. -/
def tryExcept (p : Prog I α) (h : I.Exn → Prog I α) : Prog I α := p.andThen (onRaised h)

/-- `try: p` with `finally: fin`: what `fin` raises replaces how `p` ended. -/
def tryFinally (p : Prog I α) (fin : Prog I Unit) : Prog I α :=
  p.andThen fun o => fin.bind fun _ => .done o

/-- `with suppress(Exception): p`. -/
def suppress (p : Prog I Unit) : Prog I Unit := p.tryExcept fun _ => .done (.ret ())

@[simp] theorem bind_eq (p : Prog I α) (f : α → Prog I β) : (p >>= f) = p.bind f := rfl

theorem bind_assoc {γ : Type} (p : Prog I α) (f : α → Prog I β) (g : β → Prog I γ) :
    (p.bind f).bind g = p.bind fun a => (f a).bind g := by
  unfold bind
  induction p with
  | done o => cases o <;> rfl
  | await op k ih => exact congrArg (Prog.await op) (funext ih)

end Prog

/-! ## Program points -/

/-- Where a program stands: at a call, or ended. -/
inductive Head (I : Iface) (α : Type) where
  | call (op : I.Op)
  | ended (o : Outcome I.Exn α)

def Prog.head {I : Iface} {α : Type} : Prog I α → Head I α
  | .done o => .ended o
  | .await op _ => .call op

/-- The reply `r` of a call ends the body that awaited it with `o`. -/
inductive Halts {ε α β : Type} : Outcome ε α → Outcome ε β → Prop where
  | raised (e : ε) : Halts (.raised e) (.raised e)
  | cancelled : Halts .cancelled .cancelled

theorem Halts.ne_ret {ε α β : Type} {r : Outcome ε α} {o : Outcome ε β} (h : Halts r o) (b : β) :
    o ≠ .ret b := by
  cases h <;> simp

theorem Halts.failed {ε α β : Type} {r : Outcome ε α} {o : Outcome ε β} (h : Halts r o) :
    r.failed = true := by
  cases h <;> rfl

/-- Answered the calls `t`, `p` stands at `q`. -/
inductive After {I : Iface} {α : Type} : Prog I α → List (Event I) → Prog I α → Prop where
  | nil (p : Prog I α) : After p [] p
  | cons {op : I.Op} {k : Reply I op → Prog I α} {t : List (Event I)} {q : Prog I α}
      (r : Reply I op) : After (k r) t q → After (.await op k) (⟨op, r⟩ :: t) q

namespace After

variable {I : Iface} {α : Type}

theorem snoc {p : Prog I α} {t : List (Event I)} {op : I.Op} {k : Reply I op → Prog I α}
    (h : After p t (.await op k)) (r : Reply I op) : After p (t ++ [⟨op, r⟩]) (k r) := by
  generalize hq : Prog.await op k = q at h
  induction h with
  | nil p => subst hq; exact .cons r (.nil _)
  | cons r' _ ih => exact .cons r' (ih hq)

@[simp] theorem done_iff {o : Outcome I.Exn α} {t : List (Event I)} {q : Prog I α} :
    After (.done o) t q ↔ t = [] ∧ q = .done o := by
  constructor
  · intro h; cases h; exact ⟨rfl, rfl⟩
  · rintro ⟨rfl, rfl⟩; exact .nil _

theorem await_iff {op : I.Op} {k : Reply I op → Prog I α} {t : List (Event I)} {q : Prog I α} :
    After (.await op k) t q ↔
      (t = [] ∧ q = .await op k) ∨ ∃ r t', t = ⟨op, r⟩ :: t' ∧ After (k r) t' q := by
  constructor
  · intro h
    cases h with
    | nil => exact .inl ⟨rfl, rfl⟩
    | cons r h => exact .inr ⟨r, _, rfl, h⟩
  · rintro (⟨rfl, rfl⟩ | ⟨r, t', rfl, h⟩)
    · exact .nil _
    · exact .cons r h

theorem unique {p q q' : Prog I α} {t : List (Event I)} (h : After p t q) (h' : After p t q') :
    q = q' := by
  induction h with
  | nil p =>
    cases h'
    rfl
  | cons r _ ih =>
    cases h' with
    | cons _ h' => exact ih h'

theorem stood {p q : Prog I α} {t : List (Event I)} (h : After p t q) :
    ∀ x ∈ t, ∃ t' k, After p t' (.await x.op k) := by
  induction h with
  | nil p => simp
  | @cons op k t q r h ih =>
    intro x hx
    rcases List.mem_cons.mp hx with rfl | hx
    · exact ⟨[], k, .nil _⟩
    · obtain ⟨t', k', h'⟩ := ih x hx
      exact ⟨_, k', .cons r h'⟩

/-- A call stands, returns to the rest of the body, or ends the body. -/
theorem call_cases {β : Type} {op : I.Op} {f : I.Res op → Prog I β} {t : List (Event I)}
    {q : Prog I β} (h : After ((Prog.call op).bind f) t q) :
    (t = [] ∧ q.head = .call op) ∨ (∃ a t', t = ⟨op, .ret a⟩ :: t' ∧ After (f a) t' q) ∨
      ∃ r o, Halts r o ∧ t = [⟨op, r⟩] ∧ q = .done o := by
  rcases await_iff.mp h with ⟨rfl, rfl⟩ | ⟨r, t', rfl, hr⟩
  · exact .inl ⟨rfl, rfl⟩
  · cases r with
    | ret a => exact .inr (.inl ⟨a, t', rfl, hr⟩)
    | raised e =>
      obtain ⟨rfl, rfl⟩ := done_iff.mp hr
      exact .inr (.inr ⟨_, _, .raised e, rfl, rfl⟩)
    | cancelled =>
      obtain ⟨rfl, rfl⟩ := done_iff.mp hr
      exact .inr (.inr ⟨_, _, .cancelled, rfl, rfl⟩)

/-- A composed program is still in its first part, or has ended it and gone on. -/
theorem andThen_cases {β : Type} {p : Prog I α} {g : Outcome I.Exn α → Prog I β}
    {t : List (Event I)} {q : Prog I β} (h : After (p.andThen g) t q) :
    (∃ op k, After p t (.await op k) ∧ q = (Prog.await op k).andThen g) ∨
      ∃ o t₁ t₂, t = t₁ ++ t₂ ∧ After p t₁ (.done o) ∧ After (g o) t₂ q := by
  induction p generalizing t with
  | done o => exact .inr ⟨o, [], t, rfl, .nil _, h⟩
  | await op k ih =>
    rcases await_iff.mp h with ⟨rfl, rfl⟩ | ⟨r, t', rfl, hr⟩
    · exact .inl ⟨op, k, .nil _, rfl⟩
    · rcases ih r hr with ⟨op', k', h', rfl⟩ | ⟨o, t₁, t₂, rfl, h₁, h₂⟩
      · exact .inl ⟨op', k', .cons r h', rfl⟩
      · exact .inr ⟨o, _, t₂, rfl, .cons r h₁, h₂⟩

theorem andThen {β : Type} {p : Prog I α} {g : Outcome I.Exn α → Prog I β} {t t' : List (Event I)}
    {o : Outcome I.Exn α} {q : Prog I β} (h : After p t (.done o)) (h' : After (g o) t' q) :
    After (p.andThen g) (t ++ t') q := by
  generalize hd : Prog.done o = d at h
  induction h with
  | nil p =>
    subst hd
    exact h'
  | cons r _ ih => exact .cons r (ih hd)

end After

/-! ## Whole runs -/

/-- Run alone from the shared state `s`, with the collaborators' answers, the program ends
with `o` and leaves `s'`. -/
inductive Runs {I : Iface} {α σ : Type} (answer : σ → (op : I.Op) → Reply I op → σ → Prop) :
    σ → Prog I α → Outcome I.Exn α → σ → Prop where
  | done {s : σ} (o : Outcome I.Exn α) : Runs answer s (.done o) o s
  | await {s s₁ s' : σ} {op : I.Op} {k : Reply I op → Prog I α} {r : Reply I op}
      {o : Outcome I.Exn α} : answer s op r s₁ → Runs answer s₁ (k r) o s' →
      Runs answer s (.await op k) o s'

/-- The calls of `main` on the jobs of a list, each run to its end before the next starts. -/
inductive Sequential {I : Iface} {δ α σ : Type} (main : δ → Prog I α)
    (answer : σ → (op : I.Op) → Reply I op → σ → Prop) :
    σ → List δ → List (Outcome I.Exn α) → σ → Prop where
  | nil {s : σ} : Sequential main answer s [] [] s
  | cons {s s₁ s' : σ} {d : δ} {ds : List δ} {o : Outcome I.Exn α} {os : List (Outcome I.Exn α)} :
      Runs answer s (main d) o s₁ → Sequential main answer s₁ ds os s' →
      Sequential main answer s (d :: ds) (o :: os) s'

section
variable {I : Iface} {δ α σ : Type} {main : δ → Prog I α}
  {answer : σ → (op : I.Op) → Reply I op → σ → Prop} {s s' : σ}

@[simp] theorem runs_done {o o' : Outcome I.Exn α} :
    Runs answer s (.done o) o' s' ↔ o' = o ∧ s' = s := by
  constructor
  · intro h; cases h; exact ⟨rfl, rfl⟩
  · rintro ⟨rfl, rfl⟩; exact .done _

theorem runs_await {op : I.Op} {k : Reply I op → Prog I α} {o : Outcome I.Exn α} :
    Runs answer s (.await op k) o s' ↔ ∃ r s₁, answer s op r s₁ ∧ Runs answer s₁ (k r) o s' := by
  constructor
  · intro h
    cases h with
    | await ha hr => exact ⟨_, _, ha, hr⟩
  · rintro ⟨r, s₁, ha, hr⟩
    exact .await ha hr

theorem sequential_nil {os : List (Outcome I.Exn α)} :
    Sequential main answer s [] os s' ↔ os = [] ∧ s' = s := by
  constructor
  · intro h; cases h; exact ⟨rfl, rfl⟩
  · rintro ⟨rfl, rfl⟩; exact .nil

theorem sequential_cons {d : δ} {ds : List δ} {os : List (Outcome I.Exn α)} :
    Sequential main answer s (d :: ds) os s' ↔
      ∃ o os' s₁, os = o :: os' ∧ Runs answer s (main d) o s₁ ∧
        Sequential main answer s₁ ds os' s' := by
  constructor
  · intro h
    cases h with
    | cons hr hs => exact ⟨_, _, _, rfl, hr, hs⟩
  · rintro ⟨o, os', s₁, rfl, hr, hs⟩
    exact .cons hr hs

end

end IspPlatform.Py
