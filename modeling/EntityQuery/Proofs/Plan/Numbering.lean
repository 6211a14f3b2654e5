import EntityQuery.Proofs.Select

/-!
# The placeholders of a plan

The placeholders of a plan are numbered through over all its statements, in
the order of the text, so each binding stands at exactly one place
(`bindings_ofLowered`) and comes from the slot of the templates that has its
number (`slots_ofLowered`).
-/

namespace EntityQuery

open List Sql

theorem Fragment.bindings_number : ∀ (pieces : List Piece) (start : Nat),
    bindings (number start pieces) = List.range' start (Template.slots ⟨pieces⟩).length
  | [], _ => rfl
  | .text sql :: rest, start => bindings_number rest start
  | .slot slot :: rest, start => by
    have hslots : Template.slots ⟨.slot slot :: rest⟩
        = slot :: Template.slots ⟨rest⟩ := rfl
    rw [hslots, length_cons, range'_succ, ← bindings_number rest (start + 1)]
    rfl

theorem PlannedStatement.bindings_ofTemplates (dialect : Dialect) :
    ∀ (templates : List Template) (start : Nat),
      (ofTemplates dialect start templates).flatMap (Fragment.bindings ·.fragments)
        = List.range' start (templates.flatMap (·.slots)).length
  | [], _ => rfl
  | template :: rest, start => by
    have hfirst : Fragment.bindings (ofTemplate dialect start template).fragments
        = List.range' start template.slots.length :=
      Fragment.bindings_number template.pieces start
    rw [ofTemplates, flatMap_cons, hfirst, bindings_ofTemplates dialect rest,
      range'_append_1, flatMap_cons, length_append]

theorem PlannedStatement.forall₂_ofTemplates (dialect : Dialect) :
    ∀ (statements : List Statement) (start : Nat), List.Forall₂ (fun statement planned =>
          ∃ first, planned = ofTemplate dialect first (statement.template dialect))
        statements (ofTemplates dialect start (statements.map (Statement.template dialect)))
  | [], _ => .nil
  | _ :: rest, start => .cons ⟨start, rfl⟩ (forall₂_ofTemplates dialect rest _)

/-- What a binding takes over from its slot. -/
def Binding.slot (binding : Binding) : Slot :=
  ⟨binding.source, binding.type, binding.expandable⟩

theorem Binding.slots_ofTemplate (template : Template) (statement : Nat) :
    (ofTemplate template statement).map slot = template.slots := by
  rw [ofTemplate, map_map]
  exact map_id _

namespace Plan

variable {compiler : Compiler} {identifier query : String} {lowered : Lowered}

theorem slots_ofLowered :
    (ofLowered compiler identifier query lowered).bindings.map Binding.slot
      = (lowered.statements.map (Statement.template compiler.dialect)).flatMap (·.slots) := by
  simp only [ofLowered, map_flatMap, Binding.slots_ofTemplate]
  generalize lowered.statements.map (Statement.template compiler.dialect) = templates
  conv_rhs => rw [← zipIdx_map_fst 0 templates, flatMap_map]

theorem bindings_ofLowered :
    (ofLowered compiler identifier query lowered).statements.flatMap (Fragment.bindings ·.fragments)
      = List.range (ofLowered compiler identifier query lowered).bindings.length := by
  rw [← length_map Binding.slot, slots_ofLowered, range_eq_range']
  exact PlannedStatement.bindings_ofTemplates compiler.dialect _ 0

end Plan

end EntityQuery
