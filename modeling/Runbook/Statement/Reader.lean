import Runbook.Template
import Runbook.Token.Scan

/-!
# Reading a statement

A statement is an optional declared name with `=`, an action, an entity and parameters written as
`key=value`. A value is a reference, a hole, a word, a quoted text, or a list of words and quoted
texts in brackets. Errors of a statement are on line 1.
-/

namespace Runbook

namespace Token

/-- The error that a token is at fault for. -/
def error (t : Token) (fault : SyntaxFault) : SyntaxError :=
  ⟨1, t.lexeme, fault⟩

/-- The literal that a word or a quoted text stands for. -/
def literal? (t : Token) : Option Literal :=
  match t.kind with
  | .word text => some (Literal.ofWord text.toList)
  | .quoted text => some (.text text)
  | _ => none

/-- The name of a parameter. -/
def key? (t : Token) : Option String :=
  match t.kind with
  | .word text => if Name.isKey text.toList then some text else none
  | _ => none

end Token

namespace Statement

/-- The item of a list that a token stands for. -/
def readItem (token : Token) : Except SyntaxError Literal :=
  match token.kind with
  | .listOpen => .error (token.error .nestedList)
  | .reference _ | .hole _ => .error (token.error .symbolicItem)
  -- Of the other kinds only words and quoted texts are items.
  | _ =>
    match token.literal? with
    | some literal => .ok literal
    | none => .error (token.error .itemExpected)

/-- The items of a list up to its closing bracket, and the tokens behind that. -/
def readItems (opening : Token) : List Token → Except SyntaxError (List Literal × List Token)
  | [] => .error (opening.error .unterminatedList)
  | token :: rest =>
    match readItem token with
    | .error e => .error e
    | .ok item =>
      match rest with
      | [] => .error (opening.error .unterminatedList)
      | separator :: rest =>
        match separator.kind with
        | .listClose => .ok ([item], rest)
        | .comma =>
          match readItems opening rest with
          | .error e => .error e
          | .ok (items, rest) => .ok (item :: items, rest)
        | _ => .error (separator.error .separatorExpected)

/-- The list behind its opening bracket, and the tokens behind the closing one. -/
def readList (opening : Token) : List Token → Except SyntaxError (List Literal × List Token)
  | [] => readItems opening []
  | token :: rest =>
    if token.kind = .listClose then .ok ([], rest) else readItems opening (token :: rest)

/-- The value of the parameter with the given key, and the tokens behind it. -/
def readValue (key : Token) : List Token → Except SyntaxError (Value × List Token)
  | [] => .error (key.error .valueMissing)
  | token :: rest =>
    match token.kind with
    | .reference name => .ok (.reference name, rest)
    | .hole name => .ok (.hole name, rest)
    | .listOpen =>
      match readList token rest with
      | .error e => .error e
      | .ok (items, rest) => .ok (.literal (.list items), rest)
    | _ =>
      match token.literal? with
      | some literal => .ok (.literal literal, rest)
      | none => .error (token.error .valueExpected)

/-- Reading the items of a list consumes tokens. -/
theorem length_of_readItems {opening : Token} {tokens : List Token}
    {read : List Literal × List Token} (h : readItems opening tokens = .ok read) :
    read.2.length < tokens.length := by
  fun_induction readItems opening tokens generalizing read with
  | case1 => cases h
  | case2 => cases h
  | case3 => cases h
  | case4 =>
    cases h
    simp only [List.length_cons]
    omega
  | case5 => cases h
  -- Only the items behind a comma are read by a further call.
  | case6 _ _ _ _ _ _ _ _ hrest ih =>
    cases h
    have := ih hrest
    simp only [List.length_cons] at this ⊢
    omega
  | case7 => cases h

/-- Reading a list consumes tokens. -/
theorem length_of_readList {opening : Token} {tokens : List Token}
    {read : List Literal × List Token} (h : readList opening tokens = .ok read) :
    read.2.length < tokens.length := by
  fun_cases readList opening tokens with
  | case1 => exact length_of_readItems h
  | case2 token rest hclose =>
    rw [readList, if_pos hclose] at h
    cases h
    simp
  | case3 token rest hclose =>
    rw [readList, if_neg hclose] at h
    exact length_of_readItems h

/-- Reading a value consumes tokens. -/
theorem length_of_readValue {key : Token} {tokens : List Token} {read : Value × List Token}
    (h : readValue key tokens = .ok read) : read.2.length < tokens.length := by
  cases tokens with
  | nil => cases h
  | cons token rest =>
    rw [readValue] at h
    split at h
    · cases h; simp
    · cases h; simp
    · split at h
      · cases h
      · rename_i hlist
        cases h
        have := length_of_readList hlist
        simp only [List.length_cons] at this ⊢
        omega
    · split at h
      · cases h; simp
      · cases h

/-- The parameters that tokens stand for, behind the ones already `seen`. -/
def readParameters (seen : OrderedMap Value) :
    List Token → Except SyntaxError (OrderedMap Value)
  | [] => .ok seen
  | [key] =>
    match key.key? with
    | none => .error (key.error .parameterExpected)
    | some _ => .error (key.error .equalsExpected)
  | key :: equals :: rest =>
    match key.key? with
    | none => .error (key.error .parameterExpected)
    | some name =>
      if equals.kind = .equals then
        -- The value is read before the key is compared with those seen, so its errors come first.
        match _h : readValue key rest with
        | .error e => .error e
        | .ok (value, rest) =>
          if seen.contains name then .error (key.error .duplicateParameter)
          else readParameters (seen.insert name value) rest
      else .error (key.error .equalsExpected)
termination_by tokens => tokens.length
decreasing_by
  have := length_of_readValue _h
  simp only [List.length_cons] at this ⊢
  omega

/-- The action or the entity at the front of the tokens of a text, and the tokens behind it. -/
def readWord (text : String) (word : CommandWord) :
    List Token → Except SyntaxError (String × List Token)
  | [] => .error ⟨1, String.ofList (Text.trim text.toList), .missingWord word⟩
  | token :: rest =>
    match token.kind with
    | .word name =>
      if Name.isActionWord name.toList then .ok (name, rest)
      else .error (token.error (.malformedWord word))
    | _ => .error (token.error (.malformedWord word))

/-- The command that the tokens of a text stand for. -/
def readCommand (text : String) (tokens : List Token) : Except SyntaxError Command :=
  match readWord text .action tokens with
  | .error e => .error e
  | .ok (action, tokens) =>
    match readWord text .entity tokens with
    | .error e => .error e
    | .ok (entity, tokens) =>
      match readParameters .empty tokens with
      | .error e => .error e
      | .ok parameters => .ok (.new action entity parameters)

/-- The name that a token declares. -/
def readName (token : Token) : Except SyntaxError String :=
  match token.kind with
  | .word name =>
    if Name.isIdentifier name.toList then .ok name else .error (token.error .malformedIdentifier)
  | _ => .error (token.error .identifierExpected)

/-- The statement that the tokens of a text stand for. -/
def ofTokens (text : String) (tokens : List Token) : Except SyntaxError Statement :=
  match tokens with
  | [] => .error ⟨1, "", .emptyStatement⟩
  -- One token cannot be a declaration, and is no command either.
  | [_] => (readCommand text tokens).map fun command => ⟨none, command⟩
  | first :: second :: rest =>
    if second.kind = .equals then
      match readName first with
      | .error e => .error e
      | .ok name => (readCommand text rest).map fun command => ⟨some name, command⟩
    else (readCommand text tokens).map fun command => ⟨none, command⟩

/-- The statement that a text stands for. -/
def ofText (text : String) : Except SyntaxError Statement :=
  match Token.tokenize text with
  | .error e => .error e
  | .ok tokens => ofTokens text tokens

end Statement

end Runbook
