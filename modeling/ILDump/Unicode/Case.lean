/-!
# Letter case of keywords

Keywords are ASCII words that may be written in any case. `lower` and `upper` agree with
the full case maps of Unicode wherever the result is an ASCII text; characters whose
image is not ASCII are left alone, since no keyword contains them either way.
-/

namespace ILDump.Unicode

/-- The lower-case form of a character, as far as it is ASCII. The Kelvin sign is the one
    character outside ASCII with an ASCII lower-case form. -/
def lowerChar (c : Char) : Char :=
  if c = '\u212A' then 'k' else c.toLower

/-- The upper-case form of a character, as far as it is ASCII. The dotless i, the long s,
    the sharp s and the ligatures of f and s have ASCII upper-case forms. -/
def upperChar (c : Char) : List Char :=
  if c = '\u0131' then ['I']
  else if c = '\u017F' then ['S']
  else if c = '\u00DF' then ['S', 'S']
  else if c = '\uFB00' then ['F', 'F']
  else if c = '\uFB01' then ['F', 'I']
  else if c = '\uFB02' then ['F', 'L']
  else if c = '\uFB03' then ['F', 'F', 'I']
  else if c = '\uFB04' then ['F', 'F', 'L']
  else if c = '\uFB05' then ['S', 'T']
  else if c = '\uFB06' then ['S', 'T']
  else [c.toUpper]

/-- Lower case, for comparison with an ASCII word. -/
def lower (s : String) : String :=
  String.ofList (s.toList.map lowerChar)

/-- Upper case, for comparison with an ASCII word. -/
def upper (s : String) : String :=
  String.ofList (s.toList.flatMap upperChar)

end ILDump.Unicode
