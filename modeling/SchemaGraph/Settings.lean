import SchemaGraph.Builder.Basic
import SchemaGraph.Similarity.Clique
/-!
# Settings -- how records are merged

The settings of merging: what the target asks of the new types, whether integers merge into
doubles, and which records may be merged.
-/

namespace SchemaGraph

set_option autoImplicit false

/-- The settings of merging. -/
structure Settings where
  target : Target
  /-- Whether integers and doubles merge into doubles. -/
  conflate : Bool
  search : SearchOptions
deriving DecidableEq

/-- Every format is kept, properties keep their order, integers merge into doubles, fixed records
are left alone, and records of different sizes may be merged. -/
def Settings.standard : Settings := ⟨.standard, true, ⟨false, false⟩⟩

end SchemaGraph
