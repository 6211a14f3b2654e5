import EntityQuery.Proofs.Comparison
import EntityQuery.Proofs.Query.Soundness

/-!
# Calculations as a database reads them

A database reads a calculation as a row of operands with operators between them
and groups the row by how tightly its operators bind (`OperandRow.read`).
Parentheses, signs and calls make one operand. The query language has its own
levels, and a calculation is written without parentheses of its own but for those
around a concatenation. What is read is the calculation that was meant, unless
`||` binds more tightly than the operators beside it. In SQLite it does, and a
concatenation one of whose operands is itself a bare calculation is read as
something else.
-/

namespace EntityQuery

open Query List Scoped

open Query (ArithmeticOp Expr)

/-- The operators of a calculation over its leaves, parentheses left aside. -/
inductive Calculation where
  | leaf (expr : Expr)
  | negate (inner : Calculation)
  | binary (op : ArithmeticOp) (left right : Calculation)

def Calculation.leaves : Calculation → List Expr
  | leaf expr => [expr]
  | negate inner => inner.leaves
  | binary _ left right => left.leaves ++ right.leaves

namespace Query.Expr

def calculation : Expr → Calculation
  | nested inner => inner.calculation
  | negate inner => .negate inner.calculation
  | arithmetic op left right => .binary op left.calculation right.calculation
  | expr => .leaf expr

/-- Paths, literals and parameters, the sign before a path, operators and parentheses. -/
def isArithmetical : Expr → Bool
  | literal _ | named _ | ordinal _ | path _ | negate (path _) => true
  | nested inner => inner.isArithmetical
  | arithmetic _ left right => left.isArithmetical && right.isArithmetical
  | _ => false

/-- An operation that is written without parentheses. -/
def isBare : Expr → Bool
  | arithmetic op _ _ => op != .concat
  | _ => false

/-- No operand of a concatenation is a bare operation. -/
def joinsOperands : Expr → Bool
  | nested inner => inner.joinsOperands
  | arithmetic op left right => left.joinsOperands && right.joinsOperands
      && (op != .concat || (!left.isBare && !right.isBare))
  | _ => true

end Query.Expr

/-! ## Reading a row -/

/-- How tightly an operator binds; concatenation is a function in MySQL. -/
def Sql.Dialect.binding : Sql.Dialect → ArithmeticOp → Nat
  | .sqlite, .concat => 3
  | _, .concat => 0
  | _, .add | _, .sub => 1
  | _, .mul | _, .div | _, .mod => 2

/-- A row of operands while it is grouped: an operand, or two groups with an operator. -/
inductive Grouping where
  | operand (calculation : Calculation)
  | pair (op : ArithmeticOp) (left right : Grouping)

namespace Grouping

variable (binds : ArithmeticOp → Nat)

def calculation : Grouping → Calculation
  | operand calculation => calculation
  | pair op left right => .binary op left.calculation right.calculation

/-- One more operator with its right operand: it takes the last group when it binds more tightly
than what stands before that group, and else everything. -/
def extend (next : ArithmeticOp × Calculation) : Grouping → Grouping
  | operand calculation => pair next.1 (operand calculation) (operand next.2)
  | pair op left right =>
    if binds op < binds next.1 then pair op left (extend next right)
    else pair next.1 (pair op left right) (operand next.2)

def extendAll (group : Grouping) (rest : List (ArithmeticOp × Calculation)) : Grouping :=
  rest.foldl (fun group next => group.extend binds next) group

/-- The operator that is applied last, if there is one. -/
def root? : Grouping → Option ArithmeticOp
  | operand _ => none
  | pair op _ _ => some op

theorem eq_pair_of_root? {group : Grouping} {root : ArithmeticOp} (h : group.root? = some root) :
    ∃ left right, group = .pair root left right := by
  cases group with
  | operand calculation => cases h
  | pair op left right => exact ⟨left, right, by rw [Option.some.inj h]⟩

/-- Operators that bind more tightly all go to the right group. -/
theorem extendAll_pair {op : ArithmeticOp} (group group' : Grouping)
    {rest : List (ArithmeticOp × Calculation)} (h : ∀ o ∈ rest.map Prod.fst, binds op < binds o) :
    (Grouping.pair op group group').extendAll binds rest
      = .pair op group (group'.extendAll binds rest) := by
  induction rest generalizing group' with
  | nil => rfl
  | cons next rest ih =>
    rw [map_cons, forall_mem_cons] at h
    have hextend : (Grouping.pair op group group').extend binds next
        = .pair op group (group'.extend binds next) := by
      rw [extend, if_pos h.1]
    show ((Grouping.pair op group group').extend binds next).extendAll binds rest = _
    rw [hextend]
    exact ih _ h.2

/-- The operator applied last was so before, or has been added. -/
theorem root?_extendAll {group : Grouping} {root : ArithmeticOp} (h : group.root? = some root)
    (rest : List (ArithmeticOp × Calculation)) :
    ∃ last, (group.extendAll binds rest).root? = some last ∧ last ∈ root :: rest.map Prod.fst := by
  induction rest generalizing group root with
  | nil => exact ⟨root, h, .head _⟩
  | cons next rest ih =>
    obtain ⟨root', hroot', hmem⟩ : ∃ root', (group.extend binds next).root? = some root'
        ∧ root' ∈ [root, next.1] := by
      obtain ⟨left, right, rfl⟩ := eq_pair_of_root? h
      rw [extend]
      split
      · exact ⟨root, rfl, by simp⟩
      · exact ⟨next.1, rfl, by simp⟩
    obtain ⟨last, hlast, hin⟩ := ih hroot'
    refine ⟨last, hlast, ?_⟩
    rcases mem_cons.mp hin with rfl | hin
    · simp only [mem_cons, not_mem_nil, or_false] at hmem
      rcases hmem with rfl | rfl <;> simp
    · exact .tail _ (.tail _ hin)

end Grouping

/-- Operands with operators between them. -/
structure OperandRow where
  first : Calculation
  rest : List (ArithmeticOp × Calculation)

namespace OperandRow

variable {binds : ArithmeticOp → Nat} {op : ArithmeticOp} {left right : OperandRow}

def ops (row : OperandRow) : List ArithmeticOp :=
  row.rest.map Prod.fst

def grouping (binds : ArithmeticOp → Nat) (row : OperandRow) : Grouping :=
  Grouping.extendAll binds (.operand row.first) row.rest

def read (binds : ArithmeticOp → Nat) (row : OperandRow) : Calculation :=
  (row.grouping binds).calculation

def append (left : OperandRow) (op : ArithmeticOp) (right : OperandRow) : OperandRow :=
  ⟨left.first, left.rest ++ (op, right.first) :: right.rest⟩

theorem ops_append (left right : OperandRow) (op : ArithmeticOp) :
    (left.append op right).ops = left.ops ++ op :: right.ops := by
  simp [ops, append]

theorem grouping_append (binds : ArithmeticOp → Nat) (left right : OperandRow) (op : ArithmeticOp) :
    (left.append op right).grouping binds
      = ((left.grouping binds).extend binds (op, right.first)).extendAll binds right.rest :=
  foldl_append

/-- A row with operators is grouped around one of them. -/
theorem exists_root? (binds : ArithmeticOp → Nat) (row : OperandRow) (h : row.ops ≠ []) :
    ∃ root ∈ row.ops, (row.grouping binds).root? = some root := by
  obtain ⟨first, rest⟩ := row
  cases rest with
  | nil => exact absurd rfl h
  | cons next rest =>
    obtain ⟨root, hroot, hmem⟩ := Grouping.root?_extendAll binds
      (show ((Grouping.operand first).extend binds next).root? = some next.1 from rfl) rest
    exact ⟨root, hmem, hroot⟩

/-- Two rows are read each on its own when no operator of them binds less tightly than the one
between them. -/
theorem read_append (hleft : ∀ o ∈ left.ops, binds op ≤ binds o)
    (hright : ∀ o ∈ right.ops, binds op < binds o) :
    (left.append op right).read binds = .binary op (left.read binds) (right.read binds) := by
  have hmiddle : (left.grouping binds).extend binds (op, right.first)
      = .pair op (left.grouping binds) (.operand right.first) := by
    by_cases hnil : left.ops = []
    · have hrest : left.rest = [] := map_eq_nil_iff.mp hnil
      rw [grouping, hrest]
      rfl
    · obtain ⟨root, hmem, hroot⟩ := exists_root? binds left hnil
      obtain ⟨first, second, hpair⟩ := Grouping.eq_pair_of_root? hroot
      rw [hpair, Grouping.extend, if_neg (Nat.not_lt.mpr (hleft root hmem))]
  unfold read
  rw [grouping_append, hmiddle, Grouping.extendAll_pair binds _ _ hright]
  rfl

/-- Where all other operators bind less tightly, a row with others is not grouped around this
one. -/
theorem read_append_ne (hops : ∀ o ∈ left.ops ++ right.ops, binds o < binds op)
    (hsome : left.ops ++ right.ops ≠ []) (first second : Calculation) :
    (left.append op right).read binds ≠ .binary op first second := by
  have hne : ∀ o ∈ left.ops ++ right.ops, o ≠ op := by
    rintro o ho rfl
    exact (hops o ho).false
  obtain ⟨root, hroot, hmem⟩ : ∃ root, ((left.append op right).grouping binds).root? = some root
      ∧ root ∈ left.ops ++ right.ops := by
    rw [grouping_append]
    by_cases hnil : left.ops = []
    · -- The first operator of the right row takes the whole left of it.
      obtain ⟨first, rest⟩ := right
      rw [hnil, nil_append] at hops hsome ⊢
      cases rest with
      | nil => exact absurd rfl hsome
      | cons next rest =>
        have hstart : (((left.grouping binds).extend binds (op, first)).extend binds next).root?
            = some next.1 := by
          have hrest : left.rest = [] := map_eq_nil_iff.mp hnil
          rw [grouping, hrest]
          show (Grouping.extend binds next (.pair op _ _)).root? = _
          rw [Grouping.extend, if_neg (hops next.1 (.head _)).asymm]
          rfl
        exact Grouping.root?_extendAll binds hstart rest
    · obtain ⟨root, hmem, hroot⟩ := exists_root? binds left hnil
      have hstart : ((left.grouping binds).extend binds (op, right.first)).root? = some root := by
        obtain ⟨first, second, hpair⟩ := Grouping.eq_pair_of_root? hroot
        rw [hpair, Grouping.extend, if_pos (hops root (mem_append_left _ hmem))]
        rfl
      obtain ⟨last, hlast, hin⟩ := Grouping.root?_extendAll binds hstart right.rest
      refine ⟨last, hlast, ?_⟩
      rcases mem_cons.mp hin with rfl | hin
      · exact mem_append_left _ hmem
      · exact mem_append_right _ hin
  intro heq
  obtain ⟨_, _, hpair⟩ := Grouping.eq_pair_of_root? hroot
  rw [read, hpair] at heq
  exact hne root hmem (Calculation.binary.inj heq).1

end OperandRow

/-! ## Written calculations -/

/-- A calculation as it is written. -/
inductive Written where
  /-- A leaf and its SQL. -/
  | leaf (expr : Expr) (sql : Sql.Template)
  | negate (inner : Written)
  | group (inner : Written)
  /-- The arguments of a call of `concat`. -/
  | call (left right : Written)
  | operation (left : Written) (op : ArithmeticOp) (right : Written)

namespace Written

open Sql.Template (text)

def template : Written → Sql.Template
  | leaf _ sql => sql
  | negate inner => text "-" ++ inner.template
  | group inner => text "(" ++ inner.template ++ text ")"
  | call left right => text "concat(" ++ (left.template ++ text ", " ++ right.template) ++ text ")"
  | operation left op right => left.template ++ text (" " ++ op.text ++ " ") ++ right.template

/-- The row that a text is: the parts of an operation that stands without parentheses are parts of
the row around it. -/
def row (binds : ArithmeticOp → Nat) : Written → OperandRow
  | leaf expr _ => ⟨.leaf expr, []⟩
  | negate inner => ⟨.negate (inner.row binds).first, (inner.row binds).rest⟩
  | group inner => ⟨(inner.row binds).read binds, []⟩
  | call left right =>
    ⟨.binary .concat ((left.row binds).read binds) ((right.row binds).read binds), []⟩
  | operation left op right => (left.row binds).append op (right.row binds)

/-- What the database reads. -/
def read (dialect : Sql.Dialect) (written : Written) : Calculation :=
  (written.row dialect.binding).read dialect.binding

def leaves : Written → List (Expr × Sql.Template)
  | leaf expr sql => [(expr, sql)]
  | negate inner | group inner => inner.leaves
  | call left right | operation left _ right => left.leaves ++ right.leaves

end Written

/-! ## Calculations that are typed -/

/-- The operators that stand without parentheses in an expression of the level. -/
def Query.Grammar.Level.operators : Grammar.Level → List ArithmeticOp
  | .operand | .signed => []
  | .product => [.mul, .div, .mod]
  | _ => [.mul, .div, .mod, .add, .sub]

namespace Typed

open Sql Query.Grammar

/-- The SQL of an expression somewhere in a statement. -/
def Renders (context : Context) (dialect : Dialect) (expr : Expr) (sql : Template) : Prop :=
  ∃ hint s typed s', (ofExpr context expr hint).run s = .ok (typed, s')
    ∧ typed.term.template dialect = sql

/-- The SQL is written from the leaves of the expression, and how it is read. -/
structure Writes (context : Context) (dialect : Dialect) (level : Level) (expr : Expr)
    (sql : Template) (written : Written) : Prop where
  template_eq : written.template = sql
  leaves_eq : written.leaves.map Prod.fst = expr.calculation.leaves
  renders : ∀ leaf ∈ written.leaves, Renders context dialect leaf.1 leaf.2
  ops_mem : ∀ op ∈ (written.row dialect.binding).ops, op ∈ level.operators
  ops_eq_nil : (written.row dialect.binding).ops = [] ↔ expr.isBare = false
  read_eq_iff : written.read dialect = expr.calculation
    ↔ (dialect = .sqlite → expr.joinsOperands = true)

section Writing

variable {context : Context} {dialect : Dialect} {level level' : Level} {expr left right : Expr}
  {sql sql' : Template} {written first second : Written}

theorem Writes.weaken (h : Writes context dialect level expr sql written)
    (hops : ∀ op ∈ level.operators, op ∈ level'.operators) :
    Writes context dialect level' expr sql written :=
  { h with ops_mem := fun op hop => hops op (h.ops_mem op hop) }

theorem Writes.leaf (hexpr : expr.calculation = .leaf expr) (hbare : expr.isBare = false)
    (hjoins : expr.joinsOperands) (h : Renders context dialect expr sql) :
    Writes context dialect level expr sql (.leaf expr sql) where
  template_eq := rfl
  leaves_eq := by rw [hexpr]; rfl
  renders := by simpa [Written.leaves] using h
  ops_mem := forall_mem_nil _
  ops_eq_nil := iff_of_true rfl hbare
  read_eq_iff := iff_of_true hexpr.symm fun _ => hjoins

theorem Writes.group (h : Writes context dialect level' expr sql written) :
    Writes context dialect level (.nested expr) (Template.text "(" ++ sql ++ Template.text ")")
      (.group written) where
  template_eq := by rw [Written.template, h.template_eq]
  leaves_eq := h.leaves_eq
  renders := h.renders
  ops_mem := forall_mem_nil _
  ops_eq_nil := iff_of_true rfl rfl
  read_eq_iff := h.read_eq_iff

theorem Writes.negate {path : List String} (h : Renders context dialect (.path path) sql) :
    Writes context dialect level (.negate (.path path)) (Template.text "-" ++ sql)
      (.negate (.leaf (.path path) sql)) where
  template_eq := rfl
  leaves_eq := rfl
  renders := by simpa [Written.leaves] using h
  ops_mem := forall_mem_nil _
  ops_eq_nil := iff_of_true rfl rfl
  read_eq_iff := iff_of_true rfl fun _ => rfl

theorem leaves_append (hfirst : Writes context dialect level left sql first)
    (hsecond : Writes context dialect level' right sql' second) :
    (first.leaves ++ second.leaves).map Prod.fst
        = left.calculation.leaves ++ right.calculation.leaves
      ∧ ∀ leaf ∈ first.leaves ++ second.leaves, Renders context dialect leaf.1 leaf.2 := by
  refine ⟨by rw [map_append, hfirst.leaves_eq, hsecond.leaves_eq], fun leaf hleaf => ?_⟩
  rcases mem_append.mp hleaf with hleaf | hleaf
  · exact hfirst.renders leaf hleaf
  · exact hsecond.renders leaf hleaf

/-- What is read of both operands decides what is read of the operation. -/
theorem binary_eq_iff {op : ArithmeticOp} (hfirst : Writes context dialect level left sql first)
    (hsecond : Writes context dialect level' right sql' second)
    (hop : op = .concat → dialect = .sqlite → left.isBare = false ∧ right.isBare = false) :
    Calculation.binary op (first.read dialect) (second.read dialect)
      = (Expr.arithmetic op left right).calculation
      ↔ (dialect = .sqlite → (Expr.arithmetic op left right).joinsOperands = true) := by
  rw [Expr.calculation, Calculation.binary.injEq, hfirst.read_eq_iff, hsecond.read_eq_iff]
  by_cases hdialect : dialect = .sqlite
  · by_cases hconcat : op = .concat
    · simp [Expr.joinsOperands, hdialect, hop hconcat hdialect]
    · simp [Expr.joinsOperands, hdialect, hconcat]
  · simp [hdialect]

theorem Writes.operation {op : ArithmeticOp} (hop : op ≠ .concat)
    (hfirst : Writes context dialect level left sql first)
    (hsecond : Writes context dialect level' right sql' second)
    (hleft : ∀ o ∈ level.operators, dialect.binding op ≤ dialect.binding o)
    (hright : ∀ o ∈ level'.operators, dialect.binding op < dialect.binding o) {outer : Level}
    (houter : ∀ o ∈ level.operators ++ op :: level'.operators, o ∈ outer.operators) :
    Writes context dialect outer (.arithmetic op left right)
      (sql ++ Template.text (" " ++ op.text ++ " ") ++ sql') (.operation first op second) where
  template_eq := by rw [Written.template, hfirst.template_eq, hsecond.template_eq]
  leaves_eq := (leaves_append hfirst hsecond).1
  renders := (leaves_append hfirst hsecond).2
  ops_mem := by
    intro o ho
    rw [Written.row, OperandRow.ops_append] at ho
    refine houter o ?_
    rcases mem_append.mp ho with ho | ho
    · exact mem_append_left _ (hfirst.ops_mem o ho)
    · rcases mem_cons.mp ho with rfl | ho
      · simp
      · exact mem_append_right _ (mem_cons_of_mem _ (hsecond.ops_mem o ho))
  ops_eq_nil := by
    rw [Written.row, OperandRow.ops_append]
    exact iff_of_false (by simp) (by simp [Expr.isBare, hop])
  read_eq_iff := by
    rw [Written.read, Written.row,
      OperandRow.read_append (fun o ho => hleft o (hfirst.ops_mem o ho))
      fun o ho => hright o (hsecond.ops_mem o ho)]
    exact binary_eq_iff hfirst hsecond fun h => absurd h hop

theorem Writes.concat (hfirst : Writes context dialect .sum left sql first)
    (hsecond : Writes context dialect .sum right sql' second) :
    ∃ written, Writes context dialect level (.arithmetic .concat left right)
      (concatenated dialect [sql, sql']) written := by
  have hops : ∀ o ∈ Level.sum.operators,
      if dialect = .sqlite then dialect.binding o < dialect.binding .concat
      else dialect.binding .concat < dialect.binding o := by
    cases dialect <;> decide
  obtain ⟨hleaves, hrenders⟩ := leaves_append hfirst hsecond
  by_cases hmysql : dialect = .mysql
  · refine ⟨.call first second, ?_, hleaves, hrenders, forall_mem_nil _, iff_of_true rfl rfl, ?_⟩
    · rw [Written.template, hfirst.template_eq, hsecond.template_eq, hmysql]
      rfl
    · refine binary_eq_iff hfirst hsecond fun _ hsqlite => ?_
      rw [hmysql] at hsqlite
      cases hsqlite
  · refine ⟨.group (.operation first .concat second), ?_, hleaves, hrenders, forall_mem_nil _,
      iff_of_true rfl rfl, ?_⟩
    · rw [Written.template, Written.template, hfirst.template_eq, hsecond.template_eq]
      cases dialect with
      | mysql => exact absurd rfl hmysql
      | postgres | sqlite => rfl
    · show ((first.row dialect.binding).append .concat (second.row dialect.binding)).read _
        = _ ↔ _
      by_cases hsqlite : dialect = .sqlite
      · simp only [hsqlite, if_true] at hops
        by_cases hplain : left.isBare = false ∧ right.isBare = false
        · rw [OperandRow.read_append]
          · exact binary_eq_iff hfirst hsecond fun _ _ => hplain
          · simp [hfirst.ops_eq_nil.mpr hplain.1]
          · simp [hsecond.ops_eq_nil.mpr hplain.2]
        · -- One of the rows has an operator, which SQLite applies after the concatenation.
          refine iff_of_false
            (OperandRow.read_append_ne (fun o ho => ?_) (fun hnil => hplain ?_) _ _) ?_
          · rw [hsqlite]
            rcases mem_append.mp ho with hmem | hmem
            · exact hops o (hfirst.ops_mem o hmem)
            · exact hops o (hsecond.ops_mem o hmem)
          · obtain ⟨hleft, hright⟩ := append_eq_nil_iff.mp hnil
            exact ⟨hfirst.ops_eq_nil.mp hleft, hsecond.ops_eq_nil.mp hright⟩
          · intro h
            have hjoins := h hsqlite
            simp [Expr.joinsOperands] at hjoins
            exact hplain hjoins.2
      · simp only [hsqlite, if_false] at hops
        rw [OperandRow.read_append]
        · exact binary_eq_iff hfirst hsecond fun _ h => absurd h hsqlite
        · exact fun o ho => (hops o (hfirst.ops_mem o ho)).le
        · exact fun o ho => hops o (hsecond.ops_mem o ho)

/-! ### Runs -/

variable {hint : Option SemanticType} {s s' : Scope} {typed : Typed}

/-- The expression is typed as this somewhere. -/
abbrev Gives (context : Context) (expr : Expr) (typed : Typed) : Prop :=
  ∃ hint s s', (ofExpr context expr hint).run s = .ok (typed, s')

theorem gives_of_operands {leftIsParameter rightIsParameter : Bool} {pair : Typed × Typed}
    (h : (operands leftIsParameter rightIsParameter (ofExpr context left) (ofExpr context right)
      hint).run s = .ok (pair, s')) : Gives context left pair.1 ∧ Gives context right pair.2 := by
  unfold operands at h
  split at h <;> simp only [run_bind, run_pure] at h
  · obtain ⟨second, s₁, hsecond, first, s₂, hfirst, rfl, rfl⟩ := h
    exact ⟨⟨_, _, _, hfirst⟩, _, _, _, hsecond⟩
  · obtain ⟨first, s₁, hfirst, second, s₂, hsecond, rfl, rfl⟩ := h
    exact ⟨⟨_, _, _, hfirst⟩, _, _, _, hsecond⟩

theorem arithmetic_run {op : ArithmeticOp}
    (h : Gives context (.arithmetic op left right) typed) :
    ∃ first second, Gives context left first ∧ Gives context right second
      ∧ typed.term = if op = .concat then .concat [first.term, second.term]
        else .arithmetic op first.term second.term := by
  obtain ⟨hint, s, s', h⟩ := h
  cases op with simp only [ofExpr, run_bind, run_pure] at h
  | _ =>
    obtain ⟨pair, s₁, hpair, rfl, rfl⟩ := h
    obtain ⟨hleft, hright⟩ := gives_of_operands hpair
    exact ⟨_, _, hleft, hright, rfl⟩

/-- Every calculation that can be typed is written so. -/
theorem exists_writes (dialect : Dialect) (h : Parsed level expr)
    (harith : expr.isArithmetical) (hgives : Gives context expr typed) :
    ∃ written, Writes context dialect level expr (typed.term.template dialect) written := by
  induction h generalizing typed with
  | signed _ ih | product _ ih | sum _ ih | predicate _ ih | negation _ ih | conjunction _ ih
  | disjunction _ ih =>
    obtain ⟨written, hwritten⟩ := ih harith hgives
    exact ⟨written, hwritten.weaken (by decide)⟩
  | literal | named | ordinal | path | negativeInt | negativeDouble =>
    obtain ⟨hint, s, s', hrun⟩ := hgives
    exact ⟨_, .leaf rfl rfl rfl ⟨hint, s, typed, s', hrun, rfl⟩⟩
  | nested h ih =>
    obtain ⟨hint, s, s', hrun⟩ := hgives
    simp only [ofExpr, run_bind, run_pure] at hrun
    obtain ⟨inner, s₁, hinner, rfl, rfl⟩ := hrun
    obtain ⟨written, hwritten⟩ := ih harith ⟨_, _, _, hinner⟩
    exact ⟨_, hwritten.group⟩
  | @negate inner h hsign ih =>
    obtain ⟨hint, s, s', hrun⟩ := hgives
    cases inner <;> try cases harith
    rw [ofExpr] at hrun
    obtain ⟨inner, s₁, hinner, hrun⟩ := run_bind.mp hrun
    obtain ⟨rfl, rfl⟩ := run_pure.mp hrun
    exact ⟨_, .negate ⟨_, _, _, _, hinner, rfl⟩⟩
  | @multiply op left right hop hleft hright ihleft ihright =>
    obtain ⟨harith, harith'⟩ := Bool.and_eq_true_iff.mp harith
    obtain ⟨first, second, hfirst, hsecond, hterm⟩ := arithmetic_run hgives
    obtain ⟨written, hwritten⟩ := ihleft harith hfirst
    obtain ⟨written', hwritten'⟩ := ihright harith' hsecond
    have hbinds : ∀ op ∈ [ArithmeticOp.mul, .div, .mod], op ≠ .concat
        ∧ (∀ o ∈ Level.product.operators, dialect.binding op ≤ dialect.binding o)
        ∧ ∀ o ∈ Level.product.operators ++ [op], o ∈ Level.product.operators := by
      cases dialect <;> decide
    obtain ⟨hne, hle, houter⟩ := hbinds op hop
    rw [hterm, if_neg hne]
    exact ⟨_, hwritten.operation hne hwritten' hle (forall_mem_nil _) houter⟩
  | @add op left right hop hleft hright ihleft ihright =>
    obtain ⟨harith, harith'⟩ := Bool.and_eq_true_iff.mp harith
    obtain ⟨first, second, hfirst, hsecond, hterm⟩ := arithmetic_run hgives
    obtain ⟨written, hwritten⟩ := ihleft harith hfirst
    obtain ⟨written', hwritten'⟩ := ihright harith' hsecond
    rw [hterm]
    by_cases hne : op = .concat
    · subst hne
      exact hwritten.concat (hwritten'.weaken (by decide))
    · have hbinds : ∀ op ∈ [ArithmeticOp.concat, .add, .sub], op ≠ .concat →
          (∀ o ∈ Level.sum.operators, dialect.binding op ≤ dialect.binding o)
            ∧ (∀ o ∈ Level.product.operators, dialect.binding op < dialect.binding o)
            ∧ ∀ o ∈ Level.sum.operators ++ op :: Level.product.operators,
              o ∈ Level.sum.operators := by
        cases dialect <;> decide
      obtain ⟨hle, hlt, houter⟩ := hbinds op hop hne
      rw [if_neg hne]
      exact ⟨_, hwritten.operation hne hwritten' hle hlt houter⟩
  | _ => cases harith

end Writing

/-- A calculation of a query is written from its leaves, and the database reads what was meant,
unless it is SQLite and an operand of a concatenation is an operation without parentheses. -/
theorem calculation_read_iff {text rest : List Char} {whole expr : Expr}
    (hread : expression text = .ok (whole, rest)) (hpart : expr ∈ whole.parts)
    (harith : expr.isArithmetical = true) {context : Context} {hint : Option SemanticType}
    {s s' : Scope} {typed : Typed} (hrun : (ofExpr context expr hint).run s = .ok (typed, s'))
    (dialect : Dialect) : ∃ written : Written, written.template = typed.term.template dialect
      ∧ written.leaves.map Prod.fst = expr.calculation.leaves
      ∧ (∀ leaf ∈ written.leaves, Renders context dialect leaf.1 leaf.2)
      ∧ (written.read dialect = expr.calculation
        ↔ (dialect = .sqlite → expr.joinsOperands = true)) := by
  obtain ⟨level, hparsed⟩ := (Sound.taken sound_expression hread).holds.part hpart
  obtain ⟨written, h⟩ := exists_writes dialect hparsed harith ⟨_, _, _, hrun⟩
  exact ⟨written, h.template_eq, h.leaves_eq, h.renders, h.read_eq_iff⟩

open Sample (personScope personContext)

/-- A sum before a concatenation is read as it was meant, but not in SQLite. -/
theorem calculation_read_iff_sum : ∃ whole typed s' written written',
    expression "p.age + p.id || p.name".toList = .ok (whole, [])
      ∧ (ofExpr personContext whole none).run personScope = .ok (typed, s')
      ∧ Written.template written = typed.term.template .postgres
      ∧ written.read .postgres = whole.calculation
      ∧ Written.template written' = typed.term.template .sqlite
      ∧ written'.read .sqlite ≠ whole.calculation := by
  obtain ⟨⟨whole, rest⟩, hread, hwhole⟩ := exists_ok_of_any
    (x := expression "p.age + p.id || p.name".toList)
    (p := fun found => found.1.isArithmetical && !found.1.joinsOperands && found.2.isEmpty
      && ((ofExpr personContext found.1 none).run personScope).toOption.isSome) (by decide +kernel)
  simp only [Bool.and_eq_true, Bool.not_eq_true', List.isEmpty_iff] at hwhole
  obtain ⟨⟨⟨harith, hjoins⟩, rfl⟩, hsome⟩ := hwhole
  obtain ⟨⟨typed, s'⟩, hrun⟩ := exists_ok_of_isSome hsome
  have hself := Expr.mem_parts_self whole
  obtain ⟨written, htemplate, -, -, hiff⟩ := calculation_read_iff hread hself harith hrun .postgres
  obtain ⟨written', htemplate', -, -, hiff'⟩ := calculation_read_iff hread hself harith hrun .sqlite
  refine ⟨whole, typed, s', written, written', hread, hrun, htemplate, hiff.mpr fun h => ?_,
    htemplate', fun h => ?_⟩
  · cases h
  · rw [hiff'.mp h rfl] at hjoins
    cases hjoins

/-- SQLite joins before it adds. -/
theorem sqlite_joins_first : OperandRow.read (Dialect.binding .sqlite)
    ⟨.leaf (.path ["p", "age"]),
      [(.add, .leaf (.path ["p", "id"])), (.concat, .leaf (.path ["p", "name"]))]⟩
    = .binary .add (.leaf (.path ["p", "age"]))
        (.binary .concat (.leaf (.path ["p", "id"])) (.leaf (.path ["p", "name"]))) :=
  rfl

end Typed

end EntityQuery
