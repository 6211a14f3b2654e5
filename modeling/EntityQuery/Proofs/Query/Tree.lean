import EntityQuery.Proofs.Query.Levels
import EntityQuery.Proofs.Query.Parts

/-!
# The trees that are read

The printer puts no parentheses around anything, so that only some trees can be
read back from their text: those in which every operator stands at a level of
its own and every operand at a level that binds more tightly. `Parsed` says
this, one case for each way that an expression of a level is made up. It also
keeps what reading knows of the leaves: numbers carry no sign at first, names
are names, and an aggregate function with one argument is an aggregate and not
a call.
-/

namespace EntityQuery.Query

open List

open Token

/-! ## The trees of each level -/

namespace Grammar

/-- A name that is not reserved. -/
def FreeName (word : String) : Prop :=
  IsName word ∧ isReserved word = false

/-- The names of a path, the first of which is not reserved. -/
def IsPath (segments : List String) : Prop :=
  ∃ first others, segments = first :: others ∧ FreeName first
    ∧ ∀ segment ∈ others, IsName segment

/-- The name of an entity: any names joined by dots. -/
def IsEntity (text : String) : Prop :=
  ∃ first others, text = pathText (first :: others) ∧ ∀ segment ∈ first :: others, IsName segment

/-- A literal without a sign. -/
def Unsigned : Literal → Prop
  | .int n => 0 ≤ n ∧ n ≤ maxInt64
  | .double x => x.isNegative = false
  | _ => True

/-- The expressions that a level reads. -/
inductive Parsed : Level → Expr → Prop
  | literal {value : Literal} (h : Unsigned value) : Parsed .operand (.literal value)
  | named {name : String} (h : IsName name) : Parsed .operand (.named name)
  | ordinal {position : Nat} (h : position < Nat.pow 2 32) : Parsed .operand (.ordinal position)
  | legacy : Parsed .operand .legacy
  | path {first : String} {rest : List String} (hfirst : FreeName first)
      (hrest : ∀ segment ∈ rest, IsName segment) : Parsed .operand (.path (first :: rest))
  | nested {inner : Expr} (h : Parsed .disjunction inner) : Parsed .operand (.nested inner)
  | everything {function : AggregateFunction} : Parsed .operand (.aggregate function false none)
  | aggregate {function : AggregateFunction} {distinct : Bool} {argument : Expr}
      (h : Parsed .disjunction argument) :
      Parsed .operand (.aggregate function distinct (some argument))
  | call {function : String} {arguments : List Expr} (hfunction : FreeName function)
      (harguments : ∀ argument ∈ arguments, Parsed .disjunction argument)
      (haggregate : ∀ aggregate : AggregateFunction, Text.lowercase function = aggregate.text →
        arguments.length ≠ 1) :
      Parsed .operand (.call (Text.lowercase function) arguments)
  | signed {e : Expr} (h : Parsed .operand e) : Parsed .signed e
  | negativeInt {n : Int} (hneg : n < 0) (hmin : -maxInt64 ≤ n) : Parsed .signed (.literal (.int n))
  | negativeDouble {x : Double} (h : x.isNegative = true) : Parsed .signed (.literal (.double x))
  | negate {inner : Expr} (h : Parsed .signed inner) (hsign : withSign inner = .negate inner) :
      Parsed .signed (.negate inner)
  | product {e : Expr} (h : Parsed .signed e) : Parsed .product e
  | multiply {op : ArithmeticOp} {left right : Expr} (hop : op ∈ [.mul, .div, .mod])
      (hleft : Parsed .product left) (hright : Parsed .signed right) :
      Parsed .product (.arithmetic op left right)
  | sum {e : Expr} (h : Parsed .product e) : Parsed .sum e
  | add {op : ArithmeticOp} {left right : Expr} (hop : op ∈ [.concat, .add, .sub])
      (hleft : Parsed .sum left) (hright : Parsed .product right) :
      Parsed .sum (.arithmetic op left right)
  | predicate {e : Expr} (h : Parsed .sum e) : Parsed .predicate e
  | compare {op : CompareOp} {left right : Expr} (hleft : Parsed .sum left)
      (hright : Parsed .sum right) : Parsed .predicate (.compare op left right)
  | isNull {subject : Expr} {negated : Bool} (h : Parsed .sum subject) :
      Parsed .predicate (.isNull subject negated)
  | isEmpty {subject : Expr} {negated : Bool} (h : Parsed .sum subject) :
      Parsed .predicate (.isEmpty subject negated)
  | like {subject pattern : Expr} {escape : Option Expr} {negated : Bool}
      (hsubject : Parsed .sum subject) (hpattern : Parsed .sum pattern)
      (hescape : ∀ e, escape = some e → Parsed .sum e) :
      Parsed .predicate (.like subject pattern escape negated)
  | between {subject low high : Expr} {negated : Bool} (hsubject : Parsed .sum subject)
      (hlow : Parsed .sum low) (hhigh : Parsed .sum high) :
      Parsed .predicate (.between subject low high negated)
  | inList {subject : Expr} {items : List Expr} {negated : Bool} (hsubject : Parsed .sum subject)
      (hne : items ≠ []) (hitems : ∀ item ∈ items, Parsed .disjunction item) :
      Parsed .predicate (.inList subject items negated)
  | negation {e : Expr} (h : Parsed .predicate e) : Parsed .negation e
  | not {inner : Expr} (h : Parsed .negation inner) : Parsed .negation (.not inner)
  | conjunction {e : Expr} (h : Parsed .negation e) : Parsed .conjunction e
  | and {left right : Expr} (hleft : Parsed .conjunction left) (hright : Parsed .negation right) :
      Parsed .conjunction (.logical .and left right)
  | disjunction {e : Expr} (h : Parsed .conjunction e) : Parsed .disjunction e
  | or {left right : Expr} (hleft : Parsed .disjunction left)
      (hright : Parsed .conjunction right) : Parsed .disjunction (.logical .or left right)

/-- An operand stands at every level. -/
theorem Parsed.whole {e : Expr} (h : Parsed .operand e) : Parsed .disjunction e :=
  h.signed.product.sum.predicate.negation.conjunction.disjunction

theorem Parsed.child {level : Level} {e child : Expr} (h : Parsed level e)
    (hchild : child ∈ e.children) : ∃ inner, Parsed inner child := by
  induction h with
  | signed _ ih | product _ ih | sum _ ih | predicate _ ih | negation _ ih | conjunction _ ih
  | disjunction _ ih => exact ih hchild
  | nested h | aggregate h | negate h | isNull h | isEmpty h | not h =>
    obtain rfl := mem_singleton.mp hchild
    exact ⟨_, h⟩
  | multiply _ hleft hright | add _ hleft hright | compare hleft hright | and hleft hright
  | or hleft hright =>
    simp only [Expr.children, mem_cons, not_mem_nil, or_false] at hchild
    rcases hchild with rfl | rfl
    · exact ⟨_, hleft⟩
    · exact ⟨_, hright⟩
  | between hsubject hlow hhigh =>
    simp only [Expr.children, mem_cons, not_mem_nil, or_false] at hchild
    rcases hchild with rfl | rfl | rfl
    · exact ⟨_, hsubject⟩
    · exact ⟨_, hlow⟩
    · exact ⟨_, hhigh⟩
  | like hsubject hpattern hescape =>
    simp only [Expr.children, mem_cons, Option.mem_toList] at hchild
    rcases hchild with rfl | rfl | hchild
    · exact ⟨_, hsubject⟩
    · exact ⟨_, hpattern⟩
    · exact ⟨_, hescape _ hchild⟩
  | inList hsubject _ hitems =>
    rcases mem_cons.mp hchild with rfl | hchild
    · exact ⟨_, hsubject⟩
    · exact ⟨_, hitems _ hchild⟩
  | call _ harguments _ => exact ⟨_, harguments _ hchild⟩
  | _ => cases hchild

/-- Every part of an expression that is read is itself one that is read. -/
theorem Parsed.part {level : Level} {e part : Expr} (h : Parsed level e) (hpart : part ∈ e.parts) :
    ∃ inner, Parsed inner part := by
  induction e using Expr.induction generalizing level with
  | step e ih =>
    rw [Expr.parts_eq] at hpart
    rcases mem_cons.mp hpart with rfl | hpart
    · exact ⟨_, h⟩
    · obtain ⟨child, hchild, hpart⟩ := mem_flatMap.mp hpart
      obtain ⟨_, hinner⟩ := h.child hchild
      exact ih child hchild hinner hpart

/-- A call keeps the lower case of the name that was read. -/
theorem Parsed.exists_name {level : Level} {function : String} {arguments : List Expr}
    (h : Parsed level (.call function arguments)) :
    ∃ word, FreeName word ∧ function = Text.lowercase word := by
  generalize he : Expr.call function arguments = e at h
  induction h with
  | call hfunction =>
    obtain ⟨rfl, -⟩ := Expr.call.inj he
    exact ⟨_, hfunction, rfl⟩
  | signed _ ih | product _ ih | sum _ ih | predicate _ ih | negation _ ih | conjunction _ ih
  | disjunction _ ih => exact ih he
  | _ => cases he

end Grammar

end EntityQuery.Query
