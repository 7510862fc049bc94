import Stubwright.Naming.Unique
import Stubwright.Route
import Stubwright.Source.Fragment

/-!
# Method signatures of routes

The client and the server of a route declare the same method parameters.
-/

namespace Stubwright

open Source

variable {σ : Type}

/-- The parameters that a method declares, and the name of the one that holds the body. -/
structure Signature where
  params : List Parameter
  body : Option Name
deriving DecidableEq

/-- The parameter of a method for a parameter of a route. -/
def RouteParam.toParameter (param : RouteParam) : Parameter := .plain param.type param.term

/-- The signature of a route: its parameters in order, and then the body if there is one, under a
name that no parameter has. -/
def Route.readSignature (route : Route) : Step σ Signature :=
  let declared := route.params.map RouteParam.toParameter
  match route.body with
  | none => return ⟨declared, none⟩
  | some type => do
    let taken := route.params.map (·.term.text)
    let name ← Grammar.name.read (Naming.uniqueName "body" taken)
    return ⟨declared ++ [.plain type name], some name⟩

end Stubwright
