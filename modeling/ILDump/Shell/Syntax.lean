import ILDump.Bytes
import ILDump.Search.Glyph
import ILDump.Text.Utf8

/-!
# Shell commands

The tool may be a script. This is the part of the shell language that such scripts are
written in: simple commands with redirections, lists, loops over words, and choices.
Scripts work on octets; each is held as the character of the same number.
-/

namespace ILDump.Shell

/-- Octets as characters. -/
abbrev Octets := List Char

def octets (bs : Bytes) : Octets :=
  bs.map fun b => Char.ofNat b.toNat

def bytes (cs : Octets) : Bytes :=
  cs.map fun c => UInt8.ofNat c.toNat

def octetsOf (s : String) : Octets :=
  octets (Utf8.encode s)

def textOf (cs : Octets) : String :=
  Utf8.decodeLossy (bytes cs)

/-- Whose value is taken. -/
inductive Parameter where
  | named (name : Octets)
  | argument (number : Nat)
  | allArguments
  | argumentCount
  | lastStatus
  | processId
deriving Repr

/-- How a value is changed when it is taken. -/
inductive Modifier where
  | unchanged
  | dropFront (isLongest : Bool) (pattern : List Glyph)
  | dropBack (isLongest : Bool) (pattern : List Glyph)
  | orElse (countsEmpty : Bool) (text : Octets)
  | size
deriving Repr

/-- A piece of a word. What is not quoted may be split and matched. -/
inductive Piece where
  | text (cs : Octets) (isQuoted : Bool)
  | value (p : Parameter) (m : Modifier) (isQuoted : Bool)
deriving Repr

/-- A word before it is expanded. -/
abbrev Word := List Piece

/-- Where a stream of a command goes to. -/
inductive Redirection where
  | file (stream : Nat) (appends : Bool) (target : Word)
  | copy (stream : Nat) (target : Word)
  | input (target : Word)
deriving Repr

inductive Command where
  | nothing
  | simple (line : Nat) (assignments : List (Octets × Word)) (words : List Word)
      (redirections : List Redirection)
  | sequence (first second : Command)
  | both (first second : Command)
  | either (first second : Command)
  | negated (c : Command)
  | choice (test yes no : Command)
  | repeated (isUntil : Bool) (test body : Command)
  | forEach (name : Octets) (words? : Option (List Word)) (body : Command)
  /-- One arm of a choice by pattern, and the arms after it. -/
  | arm (subject : Word) (patterns : List Word) (body rest : Command)
  | redirected (line : Nat) (redirections : List Redirection) (c : Command)
  | separate (c : Command)
deriving Repr

end ILDump.Shell
