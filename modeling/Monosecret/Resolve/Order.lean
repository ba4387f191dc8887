/-
  Monosecret.Resolve.Order — the order of the derived pass (`order` in
  `resolve_derived_values`).

  The depth-first walk lists every node once (`ordered_nodup`, `mem_ordered`), after every
  dependency that is a node itself (`ordered_scheduled`), wherever the names stand in the
  plan. A dependency that is no node was decided by the provider pass.
-/

import Monosecret.Lib.Schedule
import Monosecret.Resolve.Execute

namespace Monosecret.Resolve

open Lib

namespace ResolutionPlan

variable (plan : ResolutionPlan)

def node_names : List Text := plan.nodes.map PlannedSecret.name

theorem next_eq : plan.next = Schedule.next PlannedSecret.name PlannedSecret.dependencies plan.nodes := by
  funext name
  unfold next Schedule.next Schedule.find
  cases plan.nodes.find? fun p => p.name = name with
  | some p | none => rfl

theorem ordered_eq : plan.ordered = Schedule.ordered PlannedSecret.name PlannedSecret.dependencies plan.nodes := by
  unfold ordered Schedule.ordered Schedule.walk
  rw [next_eq]
  rfl

variable {plan}

theorem mem_nodes {p : PlannedSecret} :
    p ∈ plan.nodes ↔ p ∈ plan.secrets ∧ p.secret.is_node := by
  rw [nodes, List.mem_filter]

theorem nodes_nodup : (plan.nodes.map PlannedSecret.name).Nodup :=
  plan.nodup.sublist (List.filter_sublist.map PlannedSecret.name)

/-- The names in order are the names of the nodes. -/
theorem mem_ordered_names (n : Text) : n ∈ plan.ordered.map PlannedSecret.name ↔ n ∈ plan.node_names := by
  rw [ordered_eq, Schedule.ordered_keys nodes_nodup]
  exact Schedule.mem_walk n

theorem mem_ordered (p : PlannedSecret) : p ∈ plan.ordered ↔ p ∈ plan.nodes := by
  rw [ordered_eq]
  exact Schedule.mem_ordered nodes_nodup p

theorem ordered_nodup : (plan.ordered.map PlannedSecret.name).Nodup := by
  rw [ordered_eq]
  exact Schedule.ordered_nodup _ nodes_nodup

/-- No dependency of a node is evaluated at or after it. -/
theorem ordered_scheduled : Scheduled PlannedSecret.name PlannedSecret.dependencies plan.ordered := by
  obtain ⟨r, hr⟩ := plan.acyclic
  rw [ordered_eq]
  exact Schedule.scheduled nodes_nodup fun p hp => hr p (mem_nodes.mp hp).1

end ResolutionPlan

end Monosecret.Resolve
