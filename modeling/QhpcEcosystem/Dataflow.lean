/-
Evaluation of an acyclic graph of local rules.  The rule of a node looks at the
values of its parents.  Evaluating the nodes in an order in which parents come
first solves the rules, and two solutions on a set of nodes that contains the
parents of its members agree there.
-/
import Mathlib.Data.List.Basic
import Mathlib.Logic.Function.Basic

namespace QhpcEcosystem

universe u v

namespace Dataflow

variable {ν : Type u} {β : Type v} {parents : ν → List ν}
  {rule : (ν → Option β) → ν → Option β} {nodes : ν → Prop} {values values' : ν → Option β}

/-- The rule of a node looks at the values of its parents only. -/
def Local (parents : ν → List ν) (rule : (ν → Option β) → ν → Option β) : Prop :=
  ∀ values values' node, (∀ parent ∈ parents node, values parent = values' parent) →
    rule values node = rule values' node

/-- The values satisfy the rules of a set of nodes. -/
def Solves (rule : (ν → Option β) → ν → Option β) (nodes : ν → Prop)
    (values : ν → Option β) : Prop :=
  ∀ node, nodes node → values node = rule values node

/-- Evaluate the nodes in the order of the list. -/
def evaluate [DecidableEq ν] (rule : (ν → Option β) → ν → Option β) :
    List ν → (ν → Option β) → ν → Option β
  | [], values => values
  | node :: rest, values => evaluate rule rest (Function.update values node (rule values node))

theorem evaluate_of_not_mem [DecidableEq ν] {order : List ν} {node : ν}
    (hnode : node ∉ order) : evaluate rule order values node = values node := by
  induction order generalizing values with
  | nil => rfl
  | cons head rest ih =>
      rw [List.mem_cons, not_or] at hnode
      rw [evaluate, ih hnode.2, Function.update_of_ne hnode.1]

/-- When no parent of a node stands at or after it, the evaluation solves the rules. -/
theorem evaluate_solves [DecidableEq ν] (hlocal : Local parents rule) {order : List ν}
    (hbefore : ∀ pre node post, order = pre ++ node :: post →
      node ∉ post ∧ ∀ parent ∈ parents node, parent ∉ node :: post) :
    Solves rule (· ∈ order) (evaluate rule order values) := by
  induction order generalizing values with
  | nil => exact fun _ hnode => (by cases hnode)
  | cons head rest ih =>
      intro node hnode
      rw [evaluate]
      rcases List.mem_cons.mp hnode with rfl | hrest
      · obtain ⟨hfresh, hparents⟩ := hbefore [] node rest rfl
        rw [evaluate_of_not_mem hfresh, Function.update_self]
        refine hlocal _ _ _ fun parent hparent => ?_
        have hearly := hparents parent hparent
        rw [List.mem_cons, not_or] at hearly
        rw [evaluate_of_not_mem hearly.2, Function.update_of_ne hearly.1]
      · exact ih (fun pre other post heq => hbefore (head :: pre) other post (by rw [heq]; rfl))
          node hrest

/-- The induction goes up the ranks: the parents of a node agree before it does. -/
theorem Solves.unique (hlocal : Local parents rule) (rank : ν → Nat)
    (hrank : ∀ node, nodes node → ∀ parent ∈ parents node, nodes parent ∧ rank parent < rank node)
    (h : Solves rule nodes values) (h' : Solves rule nodes values') :
    ∀ node, nodes node → values node = values' node := by
  intro node hnode
  induction hsize : rank node using Nat.strongRecOn generalizing node with
  | ind size ih =>
      rw [h node hnode, h' node hnode]
      refine hlocal _ _ _ fun parent hparent => ?_
      obtain ⟨hmem, hless⟩ := hrank node hnode parent hparent
      exact ih (rank parent) (hsize ▸ hless) parent hmem rfl

end Dataflow

end QhpcEcosystem
