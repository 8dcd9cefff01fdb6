/-!
# Tokens

The pieces that a statement is made of, and where they stand in its text.
-/

namespace Runbook

namespace Token

/-- What a piece of a statement is. -/
inductive Kind where
  /-- A bare word. -/
  | word (text : String)
  /-- A text between quotes, with its escapes resolved. -/
  | quoted (text : String)
  /-- A reference to a declaration. -/
  | reference (name : String)
  /-- A hole. -/
  | hole (name : String)
  /-- The sign `=`. -/
  | equals
  /-- The sign `,`. -/
  | comma
  /-- The sign `[`. -/
  | listOpen
  /-- The sign `]`. -/
  | listClose
deriving DecidableEq, Repr

end Token

/-- A piece of a statement. -/
structure Token where
  /-- What the piece is. -/
  kind : Token.Kind
  /-- The number of bytes of the text before it. -/
  start : Nat
  /-- The piece as it is written. -/
  lexeme : String
deriving DecidableEq, Repr

namespace Token

/-- The number of bytes of the text up to the end of the token. -/
def stop (t : Token) : Nat :=
  t.start + t.lexeme.utf8ByteSize

end Token

end Runbook
