import SymbolGraph.Effect

/-!
# Side effects of Rust functions
-/
namespace SymbolGraph.Crate
open Text Pattern

/-- A text that no word continues at either end. -/
private def wholeWord (s : String) : Pattern := .edge ++ text s ++ .edge

/-- One of several texts that no word continues at either end. -/
private def wholeWords (ss : List String) : Pattern := .edge ++ anyOf ss ++ .edge

def effects : List Effect :=
  [⟨.edge ++ anyOf ["println!", "eprintln!", "print!", "eprint!", "dbg!"], "console output"⟩,
   ⟨.either (wholeWord "std::fs") (.edge ++ text "fs::"), "file system access"⟩,
   ⟨.either (wholeWord "std::io") (wholeWords ["io::stdin", "io::stdout", "io::stderr"]),
    "standard I/O access"⟩,
   ⟨.either (wholeWord "std::net") (wholeWords ["TcpStream", "TcpListener", "UdpSocket"]),
    "network access"⟩,
   ⟨.either (wholeWord "std::process") (wholeWord "Command::new"), "process control"⟩,
   ⟨.either (wholeWord "std::env") (wholeWords ["env::var", "env::vars", "env::args", "env::set_var"]),
    "environment access"⟩,
   ⟨wholeWord "unsafe", "unsafe code"⟩,
   ⟨.edge ++ text "static" ++ .blank ++ .blanks ++ text "mut" ++ .edge, "mutable static"⟩,
   ⟨text "&" ++ .blanks ++ text "mut" ++ .blank ++ .blanks ++ text "self" ++ .edge, "mutates self"⟩,
   ⟨text ".lock()", "acquires a lock"⟩,
   ⟨wholeWords ["Instant::now", "SystemTime::now"], "reads the clock"⟩,
   ⟨.either (.edge ++ text "rand::") (wholeWord "thread_rng"), "random number generation"⟩]

end SymbolGraph.Crate
