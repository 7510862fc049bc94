import Stubwright.Definition
import Stubwright.Proofs.Source.ReadsBack

/-!
# Definitions that are read back

A definition is read back when its printed file is parsed to the very same file, and a result when
all of its definitions are.

## Main definitions

* `Definition.ReadsBack`, `Codegen.ReadsBack` — definitions and results that are read back

## Main results

* `Definition.readsBack_ofDecl` — the definition of a type that is read back
* `Codegen.foldl_add_support` — what a list of items adds to a result
-/

namespace Stubwright

open Source

/-- The printed file of a definition is parsed to the file of the definition. -/
def Definition.ReadsBack (definition : Definition) : Prop :=
  Grammar.compilationUnit.parse (canonical definition.file) = .ok definition.file

/-- A definition is read back when its imports can be written and its declaration is read back. -/
theorem Definition.readsBack_ofDecl {package : QualifiedName} {imports : List Import}
    {decl : TypeDecl} (himports : ∀ i ∈ imports, i.IsWritable) (h : decl.ReadsBack) :
    (Definition.ofDecl package imports decl).ReadsBack :=
  CompilationUnit.parse_canonical_of_readsBack himports (List.forall_mem_singleton.2 h)

namespace Codegen

/-- Everything that a list of items adds to the support types of a result. -/
theorem foldl_add_support {α : Type} (f : α → Definition) (items : List α)
    (result : Codegen) :
    items.foldl (fun all item => all.add .support (f item)) result =
      { result with support := result.support ++ items.map f } := by
  induction items generalizing result with
  | nil => simp
  | cons item rest ih =>
    rw [List.foldl_cons, ih]
    simp [add]

/-- Every definition of a result is read back. -/
def ReadsBack (result : Codegen) : Prop := ∀ definition ∈ result.definitions, definition.ReadsBack

end Codegen

end Stubwright
