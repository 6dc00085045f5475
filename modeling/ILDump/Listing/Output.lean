/-!
# Indented text

A listing is a sequence of steps: lines, and changes of the depth at which the next
lines stand. Carrying out the steps gives the text. An empty line stays empty at every
depth, and the depth never falls below zero.
-/

namespace ILDump

/-- One step of writing indented text. -/
inductive Step where
  | line (text : String)
  | indent
  | unindent
deriving DecidableEq, Repr

/-- Indented text in the making. -/
structure Output where
  /-- What one level of depth puts before a line. -/
  indentText : String
  depth : Nat
  lines : Array String
deriving Repr

namespace Output

def empty (indentText : String) : Output :=
  ⟨indentText, 0, #[]⟩

/-- A line of text as it stands at some depth. -/
def place (indentText : String) (depth : Nat) (text : String) : String :=
  if text = "" then "" else String.join (List.replicate depth indentText) ++ text

def step (o : Output) : Step → Output
  | .line text => { o with lines := o.lines.push (place o.indentText o.depth text) }
  | .indent => { o with depth := o.depth + 1 }
  | .unindent => { o with depth := o.depth - 1 }

def run (o : Output) (steps : List Step) : Output :=
  steps.foldl step o

/-- The text written so far. Every line ends with a line feed. -/
def text (o : Output) : String :=
  String.join (o.lines.toList.map (· ++ "\n"))

end Output

/-- The text that steps write, indented by tabs. -/
def Step.render (steps : List Step) : String :=
  ((Output.empty "\t").run steps).text

end ILDump
