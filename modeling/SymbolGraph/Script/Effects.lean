import SymbolGraph.Effect

/-!
# Side effects of scripts
-/
namespace SymbolGraph.Script
open Text Pattern

/-- An opening parenthesis, with blanks in front or without. -/
private def scriptCall : Pattern := .blanks ++ text "("

def effects : List Effect :=
  [⟨.edge ++ text "console.", "console output"⟩,
   ⟨.edge ++ text "fs.", "file system access"⟩,
   ⟨.edge ++ text "fetch" ++ scriptCall, "network request"⟩,
   ⟨.edge ++ text "XMLHttpRequest" ++ .edge, "network request"⟩,
   ⟨.edge ++ text "process.", "process access"⟩,
   ⟨.edge ++ text "document.", "DOM access"⟩,
   ⟨.edge ++ text "window.", "global window access"⟩,
   ⟨.edge ++ anyOf ["localStorage", "sessionStorage"] ++ .edge, "web storage access"⟩,
   ⟨.edge ++ text "Math.random" ++ scriptCall, "random number generation"⟩,
   ⟨.edge ++ text "Date.now" ++ scriptCall, "reads the clock"⟩,
   ⟨.edge ++ text "new" ++ .blank ++ .blanks ++ text "Date" ++ scriptCall, "reads the clock"⟩,
   ⟨.edge ++ text "await" ++ .edge, "awaits asynchronous work"⟩,
   ⟨.edge ++ text "throw" ++ .edge, "throws"⟩,
   ⟨.edge ++ anyOf ["setTimeout", "setInterval", "setImmediate"] ++ scriptCall, "schedules a timer"⟩]

end SymbolGraph.Script
