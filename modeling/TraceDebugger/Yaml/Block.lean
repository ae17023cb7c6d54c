/-
The block form of documents.
-/
import TraceDebugger.Yaml.Reader
import TraceDebugger.Yaml.Writer

namespace TraceDebugger.Yaml

/-- Documents in block form, with parts in flow form where they are read. -/
def blockFormat : Format where
  read := parse
  write := Section.write

end TraceDebugger.Yaml
