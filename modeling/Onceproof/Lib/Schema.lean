import Onceproof.Lib.Json
import Onceproof.Lib.Pattern

/-!
# JSON Schema

The keywords of JSON Schema that describe closed objects of texts, integers and nulls. A schema is
a condition on values, as in the standard: a keyword about texts accepts every value that is not a
text. Patterns are searched, and read as `Pattern` reads them.
-/

namespace Onceproof

/-- Schemas by keyword. -/
inductive Schema
  /-- `"type": "string"`. -/
  | string
  /-- `"type": "integer"`. -/
  | integer
  /-- `"type": "null"`. -/
  | null
  | minLength (n : ℕ)
  | maxLength (n : ℕ)
  | pattern (p : Pattern)
  | minimum (n : ℤ)
  /-- `"const"` of a text. -/
  | text (s : Str)
  /-- `"const"` of a boolean. -/
  | bool (b : Bool)
  /-- `"enum"` of texts. -/
  | enum (texts : List Str)
  /-- The keywords of one schema. -/
  | all (keywords : List Schema)
  | oneOf (branches : List Schema)
  /-- `"type": "object"` without additional properties. -/
  | object (required : List Str) (properties : List (Str × Schema))

/-- A float below an integer. -/
def Flt.isBelow (n : ℤ) : Flt → Bool
  | finite q => q < n
  | infinite negative => negative
  | nan => false

namespace Schema

/-- A closed object that requires all its properties. -/
def closed (properties : List (Str × Schema)) : Schema :=
  object (properties.map Prod.fst) properties

mutual

/-- The value satisfies the schema. -/
def accepts : Schema → Json → Bool
  | string, v => match v with
    | .str _ => true
    | _ => false
  | integer, v => match v with
    | .int _ => true
    | .float (.finite q) => q.den == 1
    | _ => false
  | null, v => match v with
    | .null => true
    | _ => false
  | minLength n, v => match v with
    | .str s => n ≤ s.length
    | _ => true
  | maxLength n, v => match v with
    | .str s => s.length ≤ n
    | _ => true
  | pattern p, v => match v with
    | .str s => p.search s
    | _ => true
  | minimum n, v => match v with
    | .int m => n ≤ m
    | .float x => !x.isBelow n
    | _ => true
  | text s, v => match v with
    | .str t => t = s
    | _ => false
  | bool b, v => match v with
    | .bool c => c == b
    | _ => false
  | enum texts, v => match v with
    | .str s => s ∈ texts
    | _ => false
  | all keywords, v => acceptsAll keywords v
  | oneOf branches, v => branchesAccepting branches v == 1
  | object required properties, v => match v with
    | .obj members => required.all (fun name => name ∈ members.map Prod.fst) &&
        members.all (fun m => m.1 ∈ properties.map Prod.fst) &&
        propertiesAccept properties members
    | _ => false

/-- The value satisfies every schema of a list. -/
def acceptsAll : List Schema → Json → Bool
  | [], _ => true
  | s :: ss, v => s.accepts v && acceptsAll ss v

/-- How many schemas of a list the value satisfies. -/
def branchesAccepting : List Schema → Json → ℕ
  | [], _ => 0
  | s :: ss, v => (if s.accepts v then 1 else 0) + branchesAccepting ss v

/-- The members satisfy the schemas of their properties. -/
def propertiesAccept : List (Str × Schema) → List (Str × Json) → Bool
  | [], _ => true
  | (name, s) :: ps, members =>
    members.all (fun m => m.1 ≠ name || s.accepts m.2) && propertiesAccept ps members

end

variable {s : Schema} {ss : List Schema} {v : Json}

@[simp] theorem branchesAccepting_nil : branchesAccepting [] v = 0 := rfl

@[simp] theorem branchesAccepting_cons :
    branchesAccepting (s :: ss) v = (s.accepts v).toNat + branchesAccepting ss v := by
  have hcons : branchesAccepting (s :: ss) v =
      (if s.accepts v then 1 else 0) + branchesAccepting ss v := rfl
  rw [hcons]
  cases s.accepts v <;> rfl

@[simp] theorem accepts_pattern {p : Pattern} {t : Str} :
    (pattern p).accepts (.str t) = p.search t := rfl

@[simp] theorem acceptsAll_nil : acceptsAll [] v = true := rfl

@[simp] theorem acceptsAll_cons : acceptsAll (s :: ss) v = (s.accepts v && acceptsAll ss v) := rfl

@[simp] theorem accepts_all : (all ss).accepts v = acceptsAll ss v := rfl

@[simp] theorem accepts_oneOf : (oneOf ss).accepts v = (branchesAccepting ss v == 1) := rfl

@[simp] theorem accepts_string {t : Str} : string.accepts (.str t) = true := rfl

@[simp] theorem accepts_integer {n : ℤ} : integer.accepts (.int n) = true := rfl

@[simp] theorem accepts_minimum {n m : ℤ} :
    (minimum n).accepts (.int m) = decide (n ≤ m) := rfl

/-! ### Objects -/

variable {ps : List (Str × Schema)} {ms : List (Str × Json)}

theorem propertiesAccept_iff : propertiesAccept ps ms = true ↔
    ∀ p ∈ ps, ∀ m ∈ ms, m.1 = p.1 → p.2.accepts m.2 = true := by
  induction ps with
  | nil => simp [propertiesAccept]
  | cons p ps ih =>
    obtain ⟨name, s⟩ := p
    rw [propertiesAccept, Bool.and_eq_true, ih, List.all_eq_true, List.forall_mem_cons]
    refine and_congr_left fun _ => forall₂_congr fun m _ => ?_
    rw [Bool.or_eq_true, decide_eq_true_eq, ← imp_iff_not_or]

/-- Members with the names of the properties, in their order, are matched one by one. -/
private theorem forall₂_of_names (hnames : ms.map Prod.fst = ps.map Prod.fst)
    (hnodup : (ps.map Prod.fst).Nodup) :
    (∀ p ∈ ps, ∀ m ∈ ms, m.1 = p.1 → p.2.accepts m.2 = true) ↔
      List.Forall₂ (fun p m => p.2.accepts m.2 = true) ps ms := by
  induction ps generalizing ms with
  | nil =>
    obtain rfl := List.map_eq_nil_iff.mp hnames
    simp
  | cons p ps ih =>
    cases ms with
    | nil => cases hnames
    | cons m ms =>
      obtain ⟨hname, hnames⟩ := List.cons.inj hnames
      obtain ⟨hp, hnodup⟩ := List.nodup_cons.mp hnodup
      rw [List.forall₂_cons, ← ih hnames hnodup]
      constructor
      · intro h
        refine ⟨h p List.mem_cons_self m List.mem_cons_self hname, fun p' hp' m' hm' => ?_⟩
        exact h p' (List.mem_cons_of_mem _ hp') m' (List.mem_cons_of_mem _ hm')
      · intro ⟨hhead, htail⟩ p' hp' m' hm' hsame
        -- no property in the tail has the name of the head, and no member
        have hother : ∀ q ∈ ps, q.1 ≠ p.1 := fun q hq hqp =>
          hp (hqp ▸ List.mem_map_of_mem hq)
        have hother' : ∀ q ∈ ms, q.1 ≠ p.1 := fun q hq hqp =>
          hp (hqp ▸ hnames ▸ List.mem_map_of_mem hq)
        rcases List.mem_cons.mp hp' with rfl | hp'
        · rcases List.mem_cons.mp hm' with rfl | hm'
          · exact hhead
          · exact absurd hsame (hother' m' hm')
        · rcases List.mem_cons.mp hm' with rfl | hm'
          · exact absurd (hsame.symm.trans hname) (hother p' hp')
          · exact htail p' hp' m' hm' hsame

/-- **Closed objects**: an object with the properties of a schema is accepted if and only if each
property accepts its member. -/
theorem accepts_closed (hnames : ms.map Prod.fst = ps.map Prod.fst)
    (hnodup : (ps.map Prod.fst).Nodup) : (closed ps).accepts (.obj ms) = true ↔
      List.Forall₂ (fun p m => p.2.accepts m.2 = true) ps ms := by
  rw [closed, accepts, Bool.and_eq_true, Bool.and_eq_true, propertiesAccept_iff,
    forall₂_of_names hnames hnodup, hnames]
  refine and_iff_right ⟨?_, ?_⟩
  · exact List.all_eq_true.mpr fun name hname => decide_eq_true hname
  · refine List.all_eq_true.mpr fun m hm => decide_eq_true ?_
    exact hnames ▸ List.mem_map_of_mem hm

end Schema

end Onceproof
