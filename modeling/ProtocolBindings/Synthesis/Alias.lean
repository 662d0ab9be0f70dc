import ProtocolBindings.Code.Entry
import ProtocolBindings.Types.ValueKind

namespace ProtocolBindings

/-- The code of an alias. -/
def TypeAlias.entry (options : Options) (a : TypeAlias) : Draft Gap Entry :=
  if options.isBuiltin a.name then pure { name := a.name, external := true }
  else do
    let type ← a.type.expression a.name
    let header := (Entry.documented a.documentation).write
      ("using " ++ a.name ++ " = " ++ type.text ++ ";")
    return ({ name := a.name, header := header.blank } : Entry).withDependencies a.type.references

end ProtocolBindings
