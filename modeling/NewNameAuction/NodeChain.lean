import Mathlib.Data.List.Nodup
import Mathlib.Logic.Function.Basic

/-! Singly linked lists in a memory of nodes: which nodes a pointer leads through, and
what of that survives a write to a `next` field. -/
namespace NewNameAuction

variable {N : Type*} {next next' : N → Option N}

/-- The nodes from a pointer on, up to the one whose `next` is null. -/
inductive Chain (next : N → Option N) : Option N → List N → Prop
  | nil : Chain next none []
  | cons {n : N} {rest : List N} (later : Chain next (next n) rest) : Chain next (some n) (n :: rest)

namespace Chain
variable {p : Option N} {n : N} {nodes nodes' : List N}

theorem unique (chain : Chain next p nodes) (other : Chain next p nodes') : nodes = nodes' := by
  induction chain generalizing nodes' with
  | nil =>
    cases other
    rfl
  | cons _ ih =>
    cases other with
    | cons later => rw [ih later]

/-- Every node of a chain starts the rest of it. -/
theorem suffix {before : List N} (chain : Chain next p (before ++ n :: nodes)) :
    Chain next (some n) (n :: nodes) := by
  induction before generalizing p with
  | nil =>
    cases chain with
    | cons later => exact .cons later
  | cons _ _ ih =>
    cases chain with
    | cons later => exact ih later

/-- A chain that ends does not come back to a node. -/
theorem nodup (chain : Chain next p nodes) : nodes.Nodup := by
  induction chain with
  | nil => exact List.nodup_nil
  | @cons n rest later ih =>
    refine List.nodup_cons.mpr ⟨fun again => ?_, ih⟩
    obtain ⟨before, after, rfl⟩ := List.append_of_mem again
    have same := later.suffix.unique (.cons later)
    have length := congrArg List.length same
    simp only [List.length_cons, List.length_append] at length
    omega

theorem getLast_next (chain : Chain next p nodes) (nonempty : nodes ≠ []) :
    next (nodes.getLast nonempty) = none := by
  induction chain with
  | nil => exact absurd rfl nonempty
  | @cons n rest later ih =>
    generalize follows : next n = q at later ih
    cases later with
    | nil => exact follows
    | cons later => exact ih (List.cons_ne_nil _ _)

/-- A node linked behind the last one joins the chain. -/
theorem append [DecidableEq N] (chain : Chain next p nodes) (nonempty : nodes ≠ [])
    (outside : n ∉ nodes) (ends : next n = none) :
    Chain (Function.update next (nodes.getLast nonempty) (some n)) p (nodes ++ [n]) := by
  induction chain with
  | nil => exact absurd rfl nonempty
  | @cons m rest later ih =>
    have distinct := List.nodup_cons.mp (Chain.cons later).nodup
    have apart : n ≠ m ∧ n ∉ rest := by simpa using outside
    by_cases single : rest = []
    · subst single
      have stops : Chain (Function.update next m (some n)) (some n) [n] := by
        refine .cons ?_
        rw [Function.update_of_ne apart.1, ends]
        exact .nil
      refine .cons ?_
      rw [List.getLast_singleton, Function.update_self]
      exact stops
    · refine .cons ?_
      have front : m ≠ rest.getLast single :=
        (ne_of_mem_of_not_mem (List.getLast_mem single) distinct.1).symm
      rw [List.getLast_cons single, Function.update_of_ne front]
      exact ih single apart.2

/-- Writes to nodes outside a chain leave it. -/
theorem frame (chain : Chain next p nodes) (same : ∀ n ∈ nodes, next' n = next n) :
    Chain next' p nodes := by
  induction chain with
  | nil => exact .nil
  | @cons n rest _ ih =>
    refine .cons ?_
    rw [same n (List.mem_cons_self ..)]
    exact ih fun m member => same m (List.mem_cons_of_mem _ member)

end Chain

end NewNameAuction
