import Mathlib.Data.List.Nodup
import IspPlatform.Py.Lists
import IspPlatform.SyntheticData.Generate

/-!
# Synthetic subscribers

`generateSubscribers` builds at most a hundred rows, each from four draws of the random
generator; the draws are a parameter. `subscriberOf` is one pass of the loop. Whatever is drawn,
the rows stay inside the reserved block and repeat no unique field.
-/

namespace IspPlatform.SyntheticData

open Py

/-- `datetime.date`, as its ordinal. -/
structure Date where
  ordinal : Nat
  valid : 1 ≤ ordinal ∧ ordinal ≤ 3652059
  deriving DecidableEq, Repr

/-- `date(2026, 1, 15)`. -/
def anchorDay : Date := ⟨739631, by decide⟩

inductive GenerateError where
  | value (e : ValueError)
  /-- `OverflowError(text)`. -/
  | overflow (text : Str)
  deriving DecidableEq, Repr

/-- `day + timedelta(days=days)`. -/
def Date.addDays (day : Date) (days : Int) : Except GenerateError Date :=
  if h : 1 ≤ ((day.ordinal : Int) + days).toNat ∧ ((day.ordinal : Int) + days).toNat ≤ 3652059 then
    .ok ⟨((day.ordinal : Int) + days).toNat, h⟩
  else .error (.overflow (lit "date value out of range"))

/-- `_FIRST`. -/
def firstNames : List String :=
  ["Alpha", "Bravo", "Charlie", "Delta", "Echo", "Foxtrot", "Golf"]

/-- `_LAST`. -/
def lastNames : List String := ["Tester", "Sample", "Example", "Fixture", "Placeholder"]

/-- `CANONICAL_CHARGE_MINOR`. -/
def canonicalChargeMinor : Int := 250000

/-- `_PLANS`. -/
def plans : List (String × Int) :=
  [("basic", 100000), ("standard", canonicalChargeMinor), ("premium", 500000)]

/-- `_SITES`. -/
def sites : List String := ["site-alpha", "site-bravo", "site-charlie"]

/-- `SyntheticSubscriber`, with the fields that no payment is made from. -/
structure Subscriber extends SyntheticSubscriber where
  displayName : Str
  msisdn : Str
  plan : Str
  site : Str
  balanceMinor : Int
  cycleEnd : Option Date
  deriving DecidableEq, Repr

/-- What is drawn for one subscriber: three choices and a number of days. -/
structure Draws where
  balance : Fin 4
  first : Fin 7
  last : Fin 5
  /-- `randint(-10, 25)`, from its lower end. -/
  day : Fin 36

/-- The `i`-th pass of the loop. -/
def subscriberOf (anchor : Date) (i : Nat) (drawn : Draws) : Except GenerateError Subscriber := do
  let (plan, charge) := plans.get ⟨i % 3, Nat.mod_lt _ (by decide)⟩
  let balance := [0, charge / 3, charge, charge * 2].get drawn.balance
  let cycleEnd ← anchor.addDays ((drawn.day : Int) - 10)
  return {
    accountRef := lit "ACC-" ++ zeroPad 4 (i + 1)
    displayName := lit (firstNames.get drawn.first) ++ ' ' :: lit (lastNames.get drawn.last)
    msisdn := lit "+2547000000" ++ zeroPad 2 i
    plan := lit plan
    chargeMinor := charge
    site := lit (sites.get ⟨i % 3, Nat.mod_lt _ (by decide)⟩)
    balanceMinor := balance
    cycleEnd := some cycleEnd }

/-- `generate_subscribers`. `draws i` is what the generator draws for the `i`-th subscriber. -/
def generateSubscribers (count : Int) (draws : Nat → Draws) (today : Option Date) :
    Except GenerateError (List Subscriber) :=
  if ¬ (0 < count ∧ count ≤ 100) then
    .error (.value ⟨lit "count must be between 1 and 100 (reserved-block limit)"⟩)
  else
    (List.range count.toNat).mapM fun i => subscriberOf (today.getD anchorDay) i (draws i)

/-- What a row is made of, for the subscriber at index `i`. -/
structure RowOf (anchor : Date) (i : Nat) (sub : Subscriber) : Prop where
  ref : sub.accountRef = lit "ACC-" ++ zeroPad 4 (i + 1)
  msisdn : sub.msisdn = lit "+2547000000" ++ zeroPad 2 i
  priced : ∃ entry ∈ plans, sub.plan = lit entry.1 ∧ sub.chargeMinor = entry.2
  balance : sub.balanceMinor ∈
    [0, sub.chargeMinor / 3, sub.chargeMinor, sub.chargeMinor * 2]
  cycle : ∃ day, sub.cycleEnd = some day ∧ (anchor.ordinal : Int) - 10 ≤ day.ordinal ∧
    (day.ordinal : Int) ≤ anchor.ordinal + 25

variable {anchor : Date} {i : Nat} {drawn : Draws} {sub : Subscriber} {count : Int}
  {draws : Nat → Draws} {today : Option Date} {subs : List Subscriber}

theorem addDays_ok {day : Date} {days : Int} {d : Date} :
    day.addDays days = .ok d ↔ (d.ordinal : Int) = day.ordinal + days := by
  have hd := d.valid
  unfold Date.addDays
  split
  · next h =>
    constructor
    · intro hok
      cases hok
      simp only
      omega
    · intro heq
      rw [Except.ok.injEq]
      cases d
      simp only at heq
      congr
      omega
  · next h =>
    refine ⟨fun hok => (by cases hok), fun heq => absurd ?_ h⟩
    omega

theorem subscriberOf_ok (h : subscriberOf anchor i drawn = .ok sub) :
    RowOf anchor i sub := by
  unfold subscriberOf at h
  cases hday : anchor.addDays ((drawn.day : Int) - 10) with
  | error e =>
    simp only [hday] at h
    cases h
  | ok d =>
    simp only [hday] at h
    have hord := addDays_ok.mp hday
    have hvalid := d.valid
    have hrow := Except.ok.inj h
    subst hrow
    refine ⟨rfl, rfl, ⟨_, List.getElem_mem _, rfl, rfl⟩, List.get_mem _ _, d, rfl, ?_, ?_⟩
    all_goals omega

/-! ## All rows -/

theorem generateSubscribers_ok : generateSubscribers count draws today = .ok subs ↔
    (0 < count ∧ count ≤ 100) ∧ List.Forall₂
      (fun i sub => subscriberOf (today.getD anchorDay) i (draws i) = .ok sub)
      (List.range count.toNat) subs := by
  unfold generateSubscribers
  by_cases hc : 0 < count ∧ count ≤ 100
  · rw [if_neg (not_not.mpr hc), mapM_ok]
    exact ⟨fun h => ⟨hc, h⟩, And.right⟩
  · rw [if_pos hc]
    exact ⟨fun h => (by cases h), fun h => absurd h.1 hc⟩

theorem generated_rows (h : generateSubscribers count draws today = .ok subs) :
    ∀ sub ∈ subs, ∃ i < 100, RowOf (today.getD anchorDay) i sub := by
  obtain ⟨hc, hrows⟩ := generateSubscribers_ok.mp h
  intro sub hsub
  obtain ⟨k, hk⟩ := List.mem_iff_getElem?.mp hsub
  obtain ⟨hlt, hget⟩ := List.getElem?_eq_some_iff.mp hk
  have hrow := hrows.get (hrows.length_eq ▸ hlt) hlt
  simp only [List.get_eq_getElem, hget, List.getElem_range] at hrow
  rw [← hrows.length_eq, List.length_range] at hlt
  exact ⟨k, by omega, subscriberOf_ok hrow⟩

/-- A fixture set that stays inside the reserved block. -/
structure Reserved (count : Int) (draws : Nat → Draws) (today : Option Date)
    (subs : List Subscriber) : Prop where
  size : 0 < count ∧ count ≤ 100 ∧ (subs.length : Int) = count
  rows : List.Forall₂ (RowOf (today.getD anchorDay)) (List.range count.toNat) subs
  refs : (subs.map fun sub => sub.accountRef).Nodup
  msisdns : (subs.map Subscriber.msisdn).Nodup
  /-- A number is a code of eleven characters and two digits. -/
  block : ∀ sub ∈ subs, ∃ digits : Str, sub.msisdn = lit "+2547000000" ++ digits ∧
    digits.length = 2 ∧ ∀ c ∈ digits, c.isDigit = true
  /-- A smaller set with the same draws is an initial part. -/
  smaller : ∀ n : Int, 0 < n → n ≤ count →
    generateSubscribers n draws today = .ok (subs.take n.toNat)

theorem refs_injective : Function.Injective fun i => lit "ACC-" ++ zeroPad 4 (i + 1) := by
  intro i j h
  have := zeroPad_injective 4 (List.append_cancel_left h)
  omega

theorem msisdns_injective : Function.Injective fun i => lit "+2547000000" ++ zeroPad 2 i :=
  fun _ _ h => zeroPad_injective 2 (List.append_cancel_left h)

theorem generated_refs (h : generateSubscribers count draws today = .ok subs) :
    (subs.map fun sub => sub.accountRef).Nodup := by
  obtain ⟨-, hrows⟩ := generateSubscribers_ok.mp h
  have hrefs : (subs.map fun sub => sub.accountRef) =
      (List.range count.toNat).map fun i => lit "ACC-" ++ zeroPad 4 (i + 1) :=
    forall₂_map_eq hrows fun _ _ h => (subscriberOf_ok h).ref
  rw [hrefs]
  exact List.nodup_range.map refs_injective

/-- **The reserved block.** Whatever is drawn, the rows repeat no account and no number, and each
number is one of the reserved hundred. -/
theorem generated_reserved (h : generateSubscribers count draws today = .ok subs) :
    Reserved count draws today subs := by
  obtain ⟨hc, hrows⟩ := generateSubscribers_ok.mp h
  have hforms := hrows.imp fun _ _ h => subscriberOf_ok h
  have hlen : count.toNat = subs.length := by
    rw [← hrows.length_eq, List.length_range]
  have hnums : subs.map Subscriber.msisdn =
      (List.range count.toNat).map fun i => lit "+2547000000" ++ zeroPad 2 i :=
    forall₂_map_eq hforms fun _ _ h => h.msisdn
  refine ⟨⟨hc.1, hc.2, by omega⟩, hforms, generated_refs h, ?_, ?_, ?_⟩
  · rw [hnums]
    exact List.nodup_range.map msisdns_injective
  · intro sub hsub
    have hmem : sub.msisdn ∈ subs.map Subscriber.msisdn := List.mem_map_of_mem hsub
    rw [hnums] at hmem
    obtain ⟨i, hi, hnum⟩ := List.mem_map.mp hmem
    have hlt : i < 10 ^ 2 := by
      have := List.mem_range.mp hi
      omega
    exact ⟨zeroPad 2 i, hnum.symm, length_zeroPad_of_lt (by decide) hlt, fun c => isDigit_zeroPad⟩
  · intro n hn hle
    refine generateSubscribers_ok.mpr ⟨⟨hn, by omega⟩, ?_⟩
    have htake := List.forall₂_take n.toNat hrows
    rwa [List.take_range, min_eq_left (by omega)] at htake

/-- The second choice of each list, and the anchor day itself. -/
def sampleDraws (_ : Nat) : Draws := ⟨1, 1, 1, 10⟩

/-- A subscriber with no surplus, at a price `c`. -/
def sampleRow (ref msisdn plan site : String) (c : Int) : Subscriber where
  accountRef := lit ref
  chargeMinor := c
  displayName := lit "Bravo Sample"
  msisdn := lit msisdn
  plan := lit plan
  site := lit site
  balanceMinor := c / 3
  cycleEnd := some anchorDay

theorem generated_reserved_two : Reserved 2 sampleDraws none
    [sampleRow "ACC-0001" "+254700000000" "basic" "site-alpha" 100000,
      sampleRow "ACC-0002" "+254700000001" "standard" "site-bravo" 250000] :=
  generated_reserved rfl

end IspPlatform.SyntheticData
