/-!
# Line ends

A line ends in a carriage return, a line feed, or both. Text is read with each end as a
single line feed.
-/

namespace ILDump.LineEnds

/-- Makes a single line feed of each line end. -/
def unify : List Char → List Char
  | [] => []
  | '\r' :: '\n' :: cs => '\n' :: unify cs
  | '\r' :: cs => '\n' :: unify cs
  | c :: cs => c :: unify cs

end ILDump.LineEnds
