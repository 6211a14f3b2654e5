import EntityQuery.Proofs.Query.Soundness

/-!
# What is read of a statement

The clauses of a statement hold expressions, names and lists of these, and each
reader of a clause gives what it says: names that are names, lists that are not
empty, expressions of the loosest level (`Statement.WellFormed`). The clauses
are weighed as their expressions are, by their text and by what printing loses
of the expressions in them; and a statement, too, weighs no more than the text
that it was read from (`sound_statement`).
-/

namespace EntityQuery.Query

open List SelectClause

open Reader Grammar Token

variable {α : Type} {n : Nat}

/-! ## The statements that are read -/

structure Join.WellFormed (join : Join) : Prop where
  path : IsPath join.path
  aliasName : ∀ name ∈ join.alias?, FreeName name
  condition : ∀ e ∈ join.condition, Parsed .disjunction e

structure Range.WellFormed (range : Range) : Prop where
  entity : IsEntity range.entity
  aliasName : ∀ name ∈ range.alias?, FreeName name
  joins : ∀ join ∈ range.joins, join.WellFormed

structure SelectItem.WellFormed (item : SelectItem) : Prop where
  expr : Parsed .disjunction item.expr
  aliasName : ∀ name ∈ item.alias?, IsName name

/-- A named shape does not start with one of the words for the other shapes. -/
def Shape.WellFormed : Shape → Prop
  | .named text => ∃ first others, text = pathText (first :: others)
      ∧ (∀ segment ∈ first :: others, IsName segment)
      ∧ Text.lowerAscii first ≠ "map" ∧ Text.lowerAscii first ≠ "list"
  | _ => True

structure SelectClause.WellFormed (clause : SelectClause) : Prop where
  shape : ∀ shape ∈ clause.shape, shape.WellFormed
  nonempty : clause.items ≠ []
  items : ∀ item ∈ clause.items, item.WellFormed

structure Select.WellFormed (select : Select) : Prop where
  clause : ∀ clause ∈ select.clause, clause.WellFormed
  nonempty : select.ranges ≠ []
  ranges : ∀ range ∈ select.ranges, range.WellFormed
  condition : ∀ e ∈ select.condition, Parsed .disjunction e
  groupBy : ∀ e ∈ select.groupBy, Parsed .disjunction e
  having : ∀ e ∈ select.having, Parsed .disjunction e
  orderBy : ∀ item ∈ select.orderBy, Parsed .disjunction item.expr

structure Update.WellFormed (update : Update) : Prop where
  entity : IsEntity update.entity
  aliasName : ∀ name ∈ update.alias?, FreeName name
  nonempty : update.assignments ≠ []
  assignments : ∀ assignment ∈ update.assignments,
    IsPath assignment.path ∧ Parsed .disjunction assignment.value
  condition : ∀ e ∈ update.condition, Parsed .disjunction e

structure Delete.WellFormed (delete : Delete) : Prop where
  entity : IsEntity delete.entity
  aliasName : ∀ name ∈ delete.alias?, FreeName name
  condition : ∀ e ∈ delete.condition, Parsed .disjunction e

def Statement.WellFormed : Statement → Prop
  | .select statement => statement.WellFormed
  | .update statement => statement.WellFormed
  | .delete statement => statement.WellFormed

/-! ## Weights -/

def losses (exprs : List Expr) : Nat :=
  (exprs.flatMap Expr.parts).countP Expr.isLossy

theorem losses_append (exprs more : List Expr) :
    losses (exprs ++ more) = losses exprs + losses more := by
  unfold losses
  rw [flatMap_append, countP_append]

theorem losses_flatMap (items : List α) (f : α → List Expr) :
    losses (items.flatMap f) = (items.map fun item => losses (f item)).sum := by
  induction items with
  | nil => rfl
  | cons item items ih =>
    rw [flatMap_cons, losses_append, ih, map_cons, sum_cons]

/-- A clause weighs what its text weighs, and what is lost of its expressions. -/
def weigh (text : String) (exprs : List Expr) : Nat :=
  heft text.toList + losses exprs

theorem weigh_expr (e : Expr) : heft e.text.toList + losses [e] = e.weight := by
  unfold Expr.weight losses
  rw [flatMap_cons, flatMap_nil, append_nil]

theorem heft_optionText {intro : String} (hintro : heft intro.toList = 0) (text : α → String)
    (part : Option α) :
    heft (optionText intro text part).toList = part.elim 0 fun a => heft (text a).toList := by
  cases part with
  | none => rfl
  | some a =>
    show heft (intro ++ text a).toList = _
    rw [heft_toList_append, hintro, Nat.zero_add]
    rfl

theorem heft_alias (intro : String) (hintro : heft intro.toList = 0) (name : Option String) :
    heft (optionText intro id name).toList = name.elim 0 fun name => heft name.toList :=
  heft_optionText hintro id name

theorem weigh_condition (intro : String) (hintro : heft intro.toList = 0)
    (condition : Option Expr) :
    heft (optionText intro Expr.text condition).toList + losses condition.toList
      = condition.elim 0 Expr.weight := by
  rw [heft_optionText hintro]
  cases condition with
  | none => rfl
  | some e => exact weigh_expr e

theorem weigh_commaList (text : α → String) (exprs : α → List Expr) (items : List α) :
    heft (commaList (items.map text)).toList + losses (items.flatMap exprs)
      = (items.map fun item => weigh (text item) (exprs item)).sum := by
  have hcomma : heft ", ".toList = 0 := by decide
  have hsum := sum_map_add (l := items) (f := fun item => heft (text item).toList)
    (g := fun item => losses (exprs item))
  unfold weigh commaList
  rw [heft_intercalate hcomma, map_map, losses_flatMap, hsum]
  rfl

theorem weigh_list (text : α → String) (expr : α → Expr) (items : List α) :
    heft (commaList (items.map text)).toList + losses (items.map expr)
      = (items.map fun item => weigh (text item) [expr item]).sum := by
  rw [map_eq_flatMap (f := expr)]
  exact weigh_commaList text (fun item => [expr item]) items

theorem weigh_listClause (intro : String) (text : α → String) (expr : α → Expr) (items : List α) :
    heft (listClause intro text items).toList + losses (items.map expr)
      = if items.isEmpty then 0
        else heft intro.toList + (items.map fun item => weigh (text item) [expr item]).sum := by
  rw [← weigh_list]
  cases items with
  | nil => rfl
  | cons item items =>
    show heft (intro ++ commaList ((item :: items).map text)).toList + _ = _
    rw [heft_toList_append]
    exact Nat.add_assoc _ _ _

def Join.weight (join : Join) : Nat :=
  weigh join.text join.exprs

def Range.weight (range : Range) : Nat :=
  weigh range.text range.exprs

def SelectItem.weight (item : SelectItem) : Nat :=
  weigh item.text [item.expr]

def SelectClause.weight (clause : SelectClause) : Nat :=
  weigh clause.text clause.exprs

def OrderItem.weight (item : OrderItem) : Nat :=
  weigh item.text [item.expr]

def Assignment.weight (assignment : Assignment) : Nat :=
  weigh assignment.text [assignment.value]

def Statement.weight (statement : Statement) : Nat :=
  weigh statement.text statement.exprs

/-! ## From clauses -/

theorem sound_entityName :
    Sound n entityName entityName IsEntity fun name => heft name.toList := by
  refine light_blanks.behind fun _ => sound_name.bind fun first hfirst =>
    sound_dottedRest.map fun others hothers =>
      ⟨⟨first, others, rfl, forall_mem_cons.mpr ⟨hfirst, hothers⟩⟩, ?_⟩
  rw [heft_pathText, map_cons, sum_cons]
  omega

theorem sound_aliasName : Sound n aliasName aliasName FreeName fun name => heft name.toList :=
  (light_keyword "as").optional.behind fun _ => light_blanks.behind fun _ => sound_freeName

theorem light_joinKind : Light joinKind := by
  refine Light.orElse ?_ (Light.orElse ?_ (light_constant _ _))
  · exact (light_keyword "left").bind fun _ =>
      (light_keyword "outer").optional.bind fun _ => light_constant _ _
  · exact (light_keyword "inner").bind fun _ => light_constant _ _

theorem Join.weight_eq (join : Join) : join.weight = heft (pathText join.path).toList
    + (join.alias?.elim 0 fun name => heft name.toList) + join.condition.elim 0 Expr.weight := by
  obtain ⟨kind, fetch, path, name, condition⟩ := join
  have hwords : ∀ word ∈ ["join ", "left join ", "fetch ", ""], heft word.toList = 0 := by decide
  have hjoin := hwords "join " (by decide)
  have hleft := hwords "left join " (by decide)
  have hfetch := hwords "fetch " (by decide)
  have halias := heft_alias " " (by decide) name
  have hcondition := weigh_condition " with " (by decide) condition
  cases kind <;> cases fetch <;>
    simp only [Join.weight, weigh, Join.text, Join.exprs, heft_toList_append, hjoin, hleft, hfetch,
      halias, if_true, Bool.false_eq_true, if_false, String.toList_empty, heft_nil] <;>
    omega

theorem sound_join : Sound n join join Join.WellFormed Join.weight := by
  refine light_joinKind.behind fun kind => (light_keyword "fetch").present.behind fun fetch =>
    sound_path.bind fun path hpath => sound_aliasName.optional.bind fun name hname =>
      Sound.map (Sound.optional (((light_keyword "with").orElse (light_keyword "on")).behind
        fun _ => sound_expression n)) fun condition hcondition => ⟨⟨hpath, hname, hcondition⟩, ?_⟩
  rw [Join.weight_eq]
  dsimp only
  omega

theorem weigh_joins (joins : List Join) :
    heft (String.join (joins.map fun join => " " ++ join.text)).toList
      + losses (joins.flatMap Join.exprs) = (joins.map Join.weight).sum := by
  have hblank : heft " ".toList = 0 := by decide
  induction joins with
  | nil => rfl
  | cons join joins ih =>
    rw [map_cons, String.join_cons, heft_toList_append, heft_toList_append, hblank,
      flatMap_cons, losses_append, map_cons, sum_cons, ← ih, Join.weight, weigh]
    omega

theorem Range.weight_eq (range : Range) : range.weight = heft range.entity.toList
    + (range.alias?.elim 0 fun name => heft name.toList) + (range.joins.map Join.weight).sum := by
  have halias := heft_alias " " (by decide) range.alias?
  have hjoins := weigh_joins range.joins
  simp only [Range.weight, weigh, Range.text, Range.exprs, heft_toList_append, halias]
  omega

theorem sound_range : Sound n range range Range.WellFormed Range.weight := by
  refine sound_entityName.bind fun entity hentity => sound_aliasName.optional.bind
    fun name hname => sound_join.many.map fun joins hjoins => ⟨⟨hentity, hname, hjoins⟩, ?_⟩
  rw [Range.weight_eq]
  dsimp only
  omega

/-! ## Select clauses -/

theorem sound_selectItem :
    Sound n selectItem selectItem SelectItem.WellFormed SelectItem.weight := by
  refine (sound_expression n).bind fun expr hexpr => Sound.map (Sound.optional
    ((light_keyword "as").behind fun _ => light_blanks.behind fun _ => sound_name))
    fun name hname => ⟨⟨hexpr, hname⟩, ?_⟩
  have hweight := weigh_expr expr
  have halias := heft_alias " as " (by decide) name
  simp only [SelectItem.weight, weigh, SelectItem.text, heft_toList_append, halias]
  omega

theorem sound_selectItems : Sound n selectItems selectItems
    (fun items => items ≠ [] ∧ ∀ item ∈ items, item.WellFormed)
    fun items => (items.map SelectItem.weight).sum :=
  sound_selectItem.sepBy1 (light_symbol ",")

theorem sound_shape :
    Sound n shape shape Shape.WellFormed fun shape => heft shape.text.toList := by
  have hword (shape : Shape) (h : shape.WellFormed) :
      Sound n (constant shape.text shape) (constant shape.text shape) Shape.WellFormed
        fun shape => heft shape.text.toList :=
    (sound_keyword shape.text).map fun _ _ => ⟨h, Nat.le_refl _⟩
  refine fun text htext => (hword .map trivial text htext).orElse fun hmap =>
    (hword .list trivial text htext).orElse fun hlist => ⟨rfl, fun shape rest hread => ?_⟩
  obtain ⟨name, last, hname, hread⟩ := bind_eq_ok.mp hread
  obtain ⟨rfl, rfl⟩ := pure_eq_ok.mp hread
  obtain ⟨hsuffix, -, hweighs⟩ := Sound.taken (fun _ => sound_entityName) hname
  refine ⟨hsuffix, ?_, hweighs⟩
  -- the words for the other shapes have been tried on the same name
  obtain ⟨_, start, hstart, hname⟩ := bind_eq_ok.mp hname
  obtain rfl : start = Text.skipBlanks text := (Prod.mk.inj (Except.ok.inj hstart)).2.symm
  obtain ⟨first, mid, hfirst, hname⟩ := bind_eq_ok.mp hname
  obtain ⟨others, after, hothers, hname⟩ := bind_eq_ok.mp hname
  obtain ⟨rfl, rfl⟩ := pure_eq_ok.mp hname
  have hnext (word : String) (heq : Text.lowerAscii first = word) : nextWord text = word.toList :=
    heq ▸ nextWord_of_name hfirst
  refine ⟨first, others, rfl, forall_mem_cons.mpr ⟨(name_of_ok hfirst).1,
    (Sound.taken (fun _ => sound_dottedRest) hothers).holds⟩, fun heq => ?_, fun heq => ?_⟩
  · exact hmap.not_ok (constant_of_word (by decide) _ (hnext _ heq))
  · exact hlist.not_ok (constant_of_word (by decide) _ (hnext _ heq))

theorem SelectClause.weight_eq (clause : SelectClause) : clause.weight
    = (clause.shape.elim 0 fun shape => heft shape.text.toList)
      + (clause.items.map SelectItem.weight).sum := by
  obtain ⟨distinct, shape, items⟩ := clause
  have hwords : ∀ word ∈ ["select ", "distinct ", "new ", "(", ")"], heft word.toList = 0 := by
    decide
  have hselect := hwords "select " (by decide)
  have hdistinct := hwords "distinct " (by decide)
  have hnew := hwords "new " (by decide)
  have hopen := hwords "(" (by decide)
  have hclose := hwords ")" (by decide)
  have hitems : heft (commaList (items.map SelectItem.text)).toList
      + losses (items.map SelectItem.expr) = (items.map SelectItem.weight).sum :=
    weigh_list SelectItem.text SelectItem.expr items
  cases shape <;> cases distinct <;>
    simp only [weight, weigh, text, exprs,
      heft_toList_append, hselect, hdistinct, hnew, hopen, hclose, if_true, Bool.false_eq_true,
      if_false, String.toList_empty, heft_nil, Option.elim_none, Option.elim_some] <;>
    omega

theorem sound_selectClause : Sound n selectClause selectClause WellFormed weight := by
  have hitems : Sound n (shapedItems.orElse do return (none, ← selectItems))
      (shapedItems.orElse do return (none, ← selectItems))
      (fun found => (∀ shape ∈ found.1, shape.WellFormed)
        ∧ found.2 ≠ [] ∧ ∀ item ∈ found.2, item.WellFormed)
      fun found => (found.1.elim 0 fun shape => heft shape.text.toList)
        + (found.2.map SelectItem.weight).sum := by
    refine Sound.orElse ?_ (sound_selectItems.map fun items hitems =>
      ⟨⟨nofun, hitems⟩, Nat.le_of_eq (Nat.zero_add _)⟩)
    refine (light_keyword "new").behind fun _ => sound_shape.bind fun shape hshape =>
      (light_symbol "(").behind fun _ => sound_selectItems.bind fun items hitems =>
        (light_symbol ")").behind fun _ => .pure ⟨?_, hitems⟩ ?_
    · rintro _ ⟨⟩
      exact hshape
    · dsimp only [Option.elim_some]
      omega
  refine (light_keyword "select").behind fun _ =>
    (light_keyword "distinct").present.behind fun distinct =>
      hitems.map fun found hfound => ⟨⟨hfound.1, hfound.2.1, hfound.2.2⟩, ?_⟩
  exact Nat.le_of_eq (weight_eq _)

/-! ## Statements -/

theorem sound_orderItem : Sound n orderItem orderItem
    (fun item => Parsed .disjunction item.expr) OrderItem.weight := by
  refine (sound_expression n).bind fun expr hexpr => Sound.map
    (((light_constant "asc" false).orElse (light_constant "desc" true)).optional n)
    fun descending _ => ⟨hexpr, ?_⟩
  have hweight := weigh_expr expr
  have hdesc : heft (if descending.getD false then " desc" else "").toList = 0 := by
    split <;> decide
  simp only [OrderItem.weight, weigh, OrderItem.text, heft_toList_append, hdesc]
  omega

theorem sound_expressionAfter (word : String) :
    Sound n (expressionAfter word) (expressionAfter word)
      (fun condition => ∀ e ∈ condition, Parsed .disjunction e)
      fun condition => condition.elim 0 Expr.weight :=
  .optional ((light_keyword word).behind fun _ => sound_expression n)

/-- A list has the weight of its word, unless it is left out. -/
theorem sound_listAfter (word : String) {item : Reader α} {P : α → Prop} {w : α → Nat}
    (h : Sound n item item P w) : Sound n (listAfter word item) (listAfter word item)
      (fun items => ∀ item ∈ items, P item)
      fun items => if items.isEmpty then 0 else heft word.toList + (items.map w).sum := by
  refine Sound.map (Sound.optional (Sound.bind (v := fun items => heft word.toList
    + (items.map w).sum) (sound_keyword word) fun _ _ => (light_keyword "by").behind fun _ =>
      (h.sepBy1 (light_symbol ",")).mono fun items hitems => ⟨hitems.2, ?_⟩))
    fun found hfound => ?_
  · exact Nat.le_of_eq (Nat.add_sub_cancel_left _ _)
  · cases found with
    | none => exact ⟨forall_mem_nil _, Nat.le_refl _⟩
    | some items =>
      refine ⟨hfound items rfl, ?_⟩
      dsimp only [Option.getD_some, Option.elim_some]
      split <;> omega

theorem weigh_groupBy (groupBy : List Expr) :
    heft (listClause " group by " Expr.text groupBy).toList + losses groupBy
      = if groupBy.isEmpty then 0 else heft "group".toList + (groupBy.map Expr.weight).sum := by
  have hweigh := weigh_listClause " group by " Expr.text id groupBy
  have hitem : (fun e : Expr => weigh e.text [id e]) = Expr.weight := funext weigh_expr
  rw [map_id, hitem] at hweigh
  exact hweigh

theorem Select.weigh_eq (select : Select) : weigh select.text select.exprs
    = select.clause.elim 0 SelectClause.weight + (select.ranges.map Range.weight).sum
      + select.condition.elim 0 Expr.weight
      + (if select.groupBy.isEmpty then 0
        else heft "group".toList + (select.groupBy.map Expr.weight).sum)
      + select.having.elim 0 Expr.weight
      + (if select.orderBy.isEmpty then 0
        else heft "order".toList + (select.orderBy.map OrderItem.weight).sum) := by
  obtain ⟨clause, ranges, condition, groupBy, having, orderBy⟩ := select
  have hfrom : heft "from ".toList = 0 := by decide
  have hblank : heft " ".toList = 0 := by decide
  have hclause : heft (optionText "" (fun clause => clause.text ++ " ") clause).toList
      + losses (clause.toList.flatMap SelectClause.exprs) = clause.elim 0 SelectClause.weight := by
    rw [heft_optionText (by decide), losses_flatMap]
    cases clause with
    | none => rfl
    | some clause =>
      simp only [Option.elim_some, heft_toList_append, hblank, Option.toList_some, map_cons,
        map_nil, sum_cons, sum_nil, Nat.add_zero]
      rfl
  have hranges : heft (commaList (ranges.map Range.text)).toList
      + losses (ranges.flatMap Range.exprs) = (ranges.map Range.weight).sum :=
    weigh_commaList Range.text Range.exprs ranges
  have hcondition := weigh_condition " where " (by decide) condition
  have hhaving := weigh_condition " having " (by decide) having
  have hgroup := weigh_groupBy groupBy
  have horder : heft (listClause " order by " OrderItem.text orderBy).toList
      + losses (orderBy.map OrderItem.expr)
      = if orderBy.isEmpty then 0 else heft "order".toList + (orderBy.map OrderItem.weight).sum :=
    weigh_listClause " order by " OrderItem.text OrderItem.expr orderBy
  simp only [weigh, Select.text, Select.exprs, heft_toList_append, losses_append, hfrom]
  omega

theorem sound_select :
    Sound n select select Select.WellFormed fun select => weigh select.text select.exprs := by
  refine sound_selectClause.optional.bind fun clause hclause => (light_keyword "from").behind
    fun _ => (sound_range.sepBy1 (light_symbol ",")).bind fun ranges hranges =>
      (sound_expressionAfter "where").bind fun condition hcondition =>
        (sound_listAfter "group" (sound_expression n)).bind fun groupBy hgroup =>
          (sound_expressionAfter "having").bind fun having hhaving =>
            (sound_listAfter "order" sound_orderItem).map fun orderBy horder =>
              ⟨⟨hclause, hranges.1, hranges.2, hcondition, hgroup, hhaving, horder⟩, ?_⟩
  rw [Select.weigh_eq]
  dsimp only
  omega

theorem sound_assignment : Sound n assignment assignment
    (fun assignment => IsPath assignment.path ∧ Parsed .disjunction assignment.value)
    Assignment.weight := by
  refine sound_path.bind fun path hpath => (light_symbol "=").behind fun _ =>
    (sound_expression n).map fun value hvalue => ⟨⟨hpath, hvalue⟩, ?_⟩
  have hequals : heft " = ".toList = 0 := by decide
  have hweight := weigh_expr value
  simp only [Assignment.weight, weigh, Assignment.text, heft_toList_append, hequals]
  omega

theorem sound_update :
    Sound n update update Update.WellFormed fun update => weigh update.text update.exprs := by
  refine (sound_keyword "update").bind fun _ _ => sound_entityName.bind fun entity hentity =>
    sound_aliasName.optional.bind fun name hname => (light_keyword "set").behind fun _ =>
      (sound_assignment.sepBy1 (light_symbol ",")).bind fun assignments hassignments =>
        (sound_expressionAfter "where").map fun condition hcondition =>
          ⟨⟨hentity, hname, hassignments.1, hassignments.2, hcondition⟩, ?_⟩
  have hupdate : heft "update ".toList = heft "update".toList := by decide
  have hset : heft " set ".toList = 0 := by decide
  have halias := heft_alias " " (by decide) name
  have hlist : heft (commaList (assignments.map Assignment.text)).toList
      + losses (assignments.map Assignment.value) = (assignments.map Assignment.weight).sum :=
    weigh_list Assignment.text Assignment.value assignments
  have hwhere := weigh_condition " where " (by decide) condition
  simp only [weigh, Update.text, Update.exprs, heft_toList_append, losses_append, hupdate, hset,
    halias]
  omega

theorem sound_delete :
    Sound n delete delete Delete.WellFormed fun delete => weigh delete.text delete.exprs := by
  refine (light_keyword "delete").behind fun _ => (light_keyword "from").optional.behind fun _ =>
    sound_entityName.bind fun entity hentity => sound_aliasName.optional.bind fun name hname =>
      (sound_expressionAfter "where").map fun condition hcondition =>
        ⟨⟨hentity, hname, hcondition⟩, ?_⟩
  have hdelete : heft "delete from ".toList = 0 := by decide
  have halias := heft_alias " " (by decide) name
  have hwhere := weigh_condition " where " (by decide) condition
  simp only [weigh, Delete.text, Delete.exprs, heft_toList_append, hdelete, halias]
  omega

/-- Reading a statement gives a statement of the right shape, which weighs no
more than the text that was taken. -/
theorem sound_statement (n : Nat) :
    Sound n statement statement Statement.WellFormed Statement.weight := by
  refine Sound.orElse (sound_update.map ?_) (Sound.orElse (sound_delete.map ?_)
    (sound_select.map ?_)) <;> exact fun _ h => ⟨h, Nat.le_refl _⟩

end EntityQuery.Query
